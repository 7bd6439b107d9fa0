import PiIpython.Lib.Tasks
import PiIpython.Core.Embed
import PiIpython.Core.Message

/-!
# Checkpoints of a session

The methods of `Checkpoints` in `persistence.ts` as programs over what they ask
of the kernel: `sync` starts it and restores the branch, `save` saves the
namespace after a cell. The summary of a restore is checked and told in a
notice; the number of the cell is written by `numberText`.
-/

namespace PiIpython.Persistence

open Text Json Prog
open PiIpython.Runtime (JsonValue asStr asNum asBool)

def restoreTimeoutMs : Nat := 10000

def saveTimeoutMs : Nat := 60000

def restoreAttempts : Nat := 3

/-! ## Summaries -/

inductive RestoreSummary where
  | unavailable (error : JsStr)
  | empty (fellBack : Bool)
  | restored (id : JsStr) (cell : Binary64) (restored : List JsStr)
      (skipped : List (JsStr × JsStr)) (fellBack : Bool)

/-- The index that a key of an object is, if it is one. -/
def arrayIndex? (k : JsStr) : Option Nat :=
  let digits := k.map fun u => u.toNat - 48
  let n := digits.foldl (fun n d => 10 * n + d) 0
  if k = decimal n ∧ n < 2 ^ 32 - 1 then some n else none

/-- The keys of an object, each once: the indices in their order, then the others in that of their
first occurrence. -/
def objectKeys (fs : List (JsStr × JsonValue)) : List JsStr :=
  let keys := (fs.map (·.1)).reverse.dedup.reverse
  let indices := keys.filter fun k => (arrayIndex? k).isSome
  indices.mergeSort (fun k l => (arrayIndex? k).getD 0 ≤ (arrayIndex? l).getD 0) ++
    keys.filter fun k => (arrayIndex? k).isNone

/-- `Object.entries` of an object whose values are strings. -/
def stringEntries (fs : List (JsStr × JsonValue)) : Option (List (JsStr × JsStr)) :=
  (objectKeys fs).mapM fun k => (asStr ((Json.obj fs).get? k)).map (k, ·)

/-- `isRestoreSummary`, with the summary that it lets through. -/
def isRestoreSummary (value : Option JsonValue) : Option RestoreSummary :=
  match value with
  | some (.obj fs) =>
    let field := fun k => (Json.obj fs).get? (js k)
    let status := asStr (field "status")
    if status = some (js "unavailable") then (asStr (field "error")).map .unavailable
    else if status = some (js "empty") then (asBool (field "fellBack")).map .empty
    else if status ≠ some (js "restored") then none
    else
      match asStr (field "id"), asNum (field "cell"), asBool (field "fellBack"), field "restored",
          field "skipped" with
      | some id, some cell, some fellBack, some (.arr restored), some (.obj skipped) =>
        (restored.mapM fun name => asStr (some name)).bind fun names =>
          (stringEntries skipped).map fun entries => .restored id cell names entries fellBack
      | _, _, _, _, _ => none
  | _ => none

variable (numberText : Binary64 → JsStr)

/-- `a || "none"` -/
def orNone (a : JsStr) : JsStr := if a = [] then js "none" else a

def restoreNotice : RestoreSummary → JsStr
  | .unavailable error => js "IPython checkpoint storage unavailable: " ++ error
  | .empty fellBack =>
    join (js "\n") [js "<ipython_state_restored>",
      if fellBack then
        js "No checkpoint on this branch is available; namespace reset to startup state."
      else js "No IPython cell on this branch yet; namespace reset to startup state.",
      js "</ipython_state_restored>"]
  | .restored _ cell restored skipped fellBack =>
    let names := orNone (join (js ", ") restored)
    let others := orNone (join (js "; ") (skipped.map fun e => e.1 ++ js " (" ++ e.2 ++ js ")"))
    joinNonEmpty (js "\n") [js "<ipython_state_restored>",
      js "Kernel state now matches this branch as of In [" ++ numberText cell ++ js "]: " ++ names ++
        js ". Not restored: " ++ others ++ js ". Variables created on the branch you left are gone.",
      if fellBack then
        js "The newest checkpoint on this branch was unavailable; used an older one."
      else [],
      js "</ipython_state_restored>"]

/-! ## Programs -/

/-- A caller's `AbortSignal`. -/
abbrev SignalId := Nat

/-- What the methods ask for. The kernel's requests, its start and the event loop are awaited. -/
inductive Op where
  | start (signal : Option SignalId)
  | evaluate (expression : JsStr) (timeoutMs : Option Nat) (signal : Option SignalId)
  | immediate
  | generation
  | aborted (signal : SignalId)
  | saveFailure
  | setSaveFailure (text : Option JsStr)
  deriving DecidableEq

def Ans : Op → Type
  | .evaluate _ _ _ => Option JsonValue
  | .generation => Nat
  | .aborted _ => Bool
  | .saveFailure => Option JsStr
  | _ => Unit

/-- Asynchronous methods; what they throw is an error with a text. -/
abbrev Async (α : Type) := Prog Op Ans JsStr α

def start (signal : Option SignalId) : Async Unit := .op (.start signal) .done

def immediate : Async Unit := .op .immediate .done

def generation : Async Nat := .op .generation .done

def saveFailure : Async (Option JsStr) := .op .saveFailure .done

def setSaveFailure (text : Option JsStr) : Async Unit := .op (.setSaveFailure text) .done

/-- `signal?.aborted` -/
def aborted : Option SignalId → Async Bool
  | none => pure false
  | some signal => .op (.aborted signal) .done

def call (o : Embed.Operation) (args : List Embed.Arg) (timeoutMs : Option Nat)
    (signal : Option SignalId) : Async (Option JsonValue) :=
  .op (.evaluate (Embed.call o args) timeoutMs signal) .done

/-- What `restore` makes of the value that the kernel answers. -/
def restoreResult (summary : Option JsonValue) : Except JsStr (Option JsStr) :=
  match summary with
  | some .null => .ok none
  | summary =>
    match isRestoreSummary summary with
    | some s => .ok (some (restoreNotice numberText s))
    | none => .error (js "pi_ipython_state.restore returned an invalid summary")

/-- `candidates[0] ?? null` -/
def newest (candidates : List JsStr) : Embed.Arg := candidates.head?.elim .null .str

def restore (candidates : List JsStr) (signal : Option SignalId) : Async (Option JsStr) :=
  attempt
    (do
      let summary ← call .restore [.arr (candidates.map .str)] (some restoreTimeoutMs) signal
      done (restoreResult numberText summary))
    fun error => do
      -- a cancelled restore leaves the namespace marked partial
      if ← aborted signal then raise error
      else
        attempt (discard (call .accept [newest candidates] none none)) fun _ => pure ()
        pure (some (js "IPython checkpoint restore failed; continuing with the current namespace: " ++
          error))

def exhausted : JsStr :=
  js "IPython checkpoint restore killed the kernel " ++ decimal restoreAttempts ++
    js " times; continuing on a fresh kernel. The next call retries without the values that " ++
    js "killed it."

/-- A round of the loop in `restoreBranch`: what it has to tell, and whether the kernel is the one
that it began with. -/
def restoreRound (candidates : List JsStr) (signal : Option SignalId) :
    Async (Option JsStr × Bool) := do
  let before ← generation
  let notice ← restore numberText candidates signal
  start signal
  let after ← generation
  pure (notice, after = before)

/-- The loop, with so many attempts left after this one. -/
def restoreLoop (candidates : List JsStr) (signal : Option SignalId) : Nat → Async (Option JsStr)
  | 0 => do
    let (notice, same) ← restoreRound numberText candidates signal
    pure (if same then notice else some exhausted)
  | left + 1 => do
    let (notice, same) ← restoreRound numberText candidates signal
    if same then pure notice else restoreLoop candidates signal left

def restoreBranch (candidates : List JsStr) (signal : Option SignalId) : Async (List JsStr) := do
  start signal
  let notice ← restoreLoop numberText candidates signal (restoreAttempts - 1)
  let failure ← saveFailure
  setSaveFailure none
  pure (failure.toList ++ notice.toList)

def notSaved (error : JsStr) : JsStr :=
  js "IPython checkpoint for the previous cell was not saved: " ++ error

/-- What `save` queues; it ends with the failure that it records. -/
def saveCell (id : JsStr) : Async (Option JsStr) := do
  immediate
  attempt
    (do
      discard (call .save [.str id] (some saveTimeoutMs) none)
      pure none)
    fun error => do
      setSaveFailure (some (notSaved error))
      pure (some (notSaved error))

end PiIpython.Persistence
