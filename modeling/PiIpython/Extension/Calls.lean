import PiIpython.Extension.Cell

/-!
# Calls of the tool

`execute` of the `ipython` tool, in `ipython.ts` and in `durable/index.ts`,
and `toggleCells`. The steps of a call run one after the other; `Met` is what
they meet outside. What the transcript of the console is given changes no
step and is left out, as are the events on the host's bus.

`queue` are the saves that wait, and `held` is what the kernel's `_held` names.
Each `sync` waits for the queue before it restores; a save that does not fail
leaves its own id in `_held`.
-/

namespace PiIpython.Extension

open Text Output

abbrev CheckpointId := JsStr

structure Thrown where
  /-- It is a `KernelLostError`. -/
  kernelLost : Bool
  message : JsStr
  deriving DecidableEq

def failed (message : JsStr) : Thrown := ⟨false, message⟩

/-- An entry of the branch, with the checkpoint of its data or details. -/
inductive SessionEntry where
  | custom (customType : JsStr) (checkpoint : Option CheckpointId)
  | toolResult (toolName : JsStr) (checkpoint : Option CheckpointId)
  | other

def checkpointEntryType : JsStr := js "ipython-checkpoint"

/-- The checkpoint IDs on `branch`, newest first. -/
def checkpointIds (branch : List SessionEntry) : List CheckpointId :=
  branch.reverse.filterMap fun
    | .custom customType checkpoint =>
      if customType = checkpointEntryType then checkpoint else none
    | .toolResult toolName checkpoint => if toolName = js "ipython" then checkpoint else none
    | .other => none

/-- What the steps of a call, or of an opening of the console, meet. -/
structure Met where
  branch : List SessionEntry
  agent : Except Thrown Unit
  /-- The pages of the conversation, newest first, each entry with its checkpoint. -/
  scanEntries : Except Thrown (List (List (Option CheckpointId)))
  restoreBranch : List CheckpointId → Except Thrown (List JsStr)
  /-- What `_held` names when `restoreBranch` is over. -/
  held : Option CheckpointId
  execute : Except Thrown Execution
  randomUUID : CheckpointId
  commit : Except Thrown Unit
  files : Files
  getConnectionFile : Except Thrown JsStr
  toggle : Except Thrown Unit

structure Session where
  /-- Checkpoints are enabled. -/
  enabled : Bool
  closing : Bool
  queue : List CheckpointId
  held : Option CheckpointId
  outputs : Outputs
  /-- Notices from opening the console. -/
  undelivered : List JsStr
  forwarded : State
  /-- Checkpoint entries appended to the conversation. -/
  entries : List CheckpointId
  /-- How many executions have resolved. -/
  ran : Nat
  /-- What the calls of `sync` have resolved with. -/
  synced : List (List JsStr)
  /-- The results that have reached the caller. -/
  results : List CellResult

/-- A call that may throw. -/
abbrev Call := ExceptT Thrown (StateM Session)

/-- A step that answers `r`. -/
def answer {α : Type} (r : Except Thrown α) : Call α := ExceptT.mk (pure r)

/-! ## Checkpoints and the kernel -/

/-- `Checkpoints.sync`. -/
def sync (met : Met) (candidates : List CheckpointId) : Call (List JsStr) := do
  let notices ←
    if ¬ (← get).enabled then pure []
    else
      modify fun s => { s with queue := [], held := met.held }
      answer (met.restoreBranch candidates)
  modify fun s => { s with synced := s.synced ++ [notices] }
  pure notices

/-- `Checkpoints.save`. -/
def save (met : Met) : Call (Option CheckpointId) := do
  if ¬ (← get).enabled then pure none
  else
    modify fun s => { s with queue := s.queue ++ [met.randomUUID] }
    pure (some met.randomUUID)

/-- The queue has drained, and no save of it failed. -/
def Session.drained (s : Session) : Session :=
  { s with queue := [], held := s.queue.foldl (fun _ id => some id) s.held }

/-- `kernel.execute`. -/
def executeCell (met : Met) : Call Execution := do
  let execution ← answer met.execute
  modify fun s => { s with ran := s.ran + 1 }
  pure execution

/-- `cellResult` with `kernel.saveOutput`, which a long output alone is given to. -/
def report (met : Met) (execution : Execution) (notices : List JsStr) : Call CellReport := do
  let outputs := (← get).outputs
  let saved := saveOutput met.files outputs
  if execution.overlong then
    modify fun s => { s with outputs := (saved (stripAnsi execution.result.output)).2 }
  answer ((cellResult execution notices fun text => (saved text).1).mapError failed)

/-! ## The Pi tool -/

/-- `a || b`. -/
def orElse (a b : JsStr) : JsStr := if a = [] then b else a

structure IpythonDetails where
  status : Status
  executionCount : Option Binary64
  kernelReset : Bool
  truncated : Bool
  fullOutputPath : Option JsStr
  checkpoint : Option CheckpointId
  deriving DecidableEq

structure PiReply where
  content : List Part
  details : IpythonDetails
  structuredContent : CellResult
  isError : Bool
  deriving DecidableEq

def Pi.text (report : CellReport) (execution : Execution) : JsStr :=
  let data := report.data
  let notice := join (js "\n\n") data.notices
  let body := report.header.elim data.output fun header => header ++ js "\n" ++ data.output
  orElse (if notice ≠ [] ∧ body ≠ [] then notice ++ js "\n\n" ++ body else orElse notice body)
    (orElse (if data.status = .error then describeError execution.result.error else [])
      (js "[no output]"))

def Pi.reply (report : CellReport) (execution : Execution) (checkpoint : Option CheckpointId) :
    PiReply :=
  let data := report.data
  { content := .text (Pi.text report execution) :: report.figures
    details := {
      status := data.status
      executionCount := data.executionCount
      kernelReset := execution.kernelReset
      truncated := data.truncated
      fullOutputPath := data.fullOutputPath
      checkpoint := checkpoint }
    structuredContent := data
    isError := data.status = .error }

def Pi.execute (toolCallId : CallId) (met : Met) : Call PiReply := do
  let (notices, execution) ← tryCatch
    (do
      let notices ← sync met (checkpointIds met.branch)
      let execution ← executeCell met
      pure (notices, execution))
    fun error => do
      if error.kernelLost then
        modify fun s => { s with forwarded := onLost s.forwarded toolCallId }
      throw error
  let received := (← get).undelivered ++ notices
  let report ← report met execution received
  modify fun s => { s with undelivered := [] }
  let checkpoint ← save met
  pure (Pi.reply report execution checkpoint)

/-- `toggleCells` in interactive Pi in Herdr; what it throws goes to a notification. -/
def Pi.toggleCells (met : Met) : Call Unit :=
  tryCatch
    (do
      let notices ← sync met (checkpointIds met.branch)
      modify fun s => { s with undelivered := s.undelivered ++ notices }
      let _ ← answer met.getConnectionFile
      answer met.toggle)
    fun _ => pure ()

/-! ## The durable tool -/

inductive Diagnostic where
  | notice (message : JsStr)
  | outputTruncated (message : JsStr)
  deriving DecidableEq

structure DurableReply where
  output : List Part
  structuredOutput : CellResult
  status : Status
  kernelReset : Bool
  truncated : Bool
  diagnostics : List Diagnostic
  isError : Bool
  deriving DecidableEq

def Durable.checkpointIds (pages : List (List (Option CheckpointId))) : List CheckpointId :=
  pages.flatMap fun items => items.filterMap id

def Durable.reply (report : CellReport) (execution : Execution) : DurableReply :=
  let data := report.data
  let text := orElse data.output
    (orElse (if data.status = .error then describeError execution.result.error else [])
      (js "[no output]"))
  { output := .text text :: report.figures
    structuredOutput := data
    status := data.status
    kernelReset := execution.kernelReset
    truncated := data.truncated
    diagnostics := data.notices.map .notice ++ (report.header.map .outputTruncated).toList
    isError := data.status = .error }

def Durable.execute (met : Met) : Call DurableReply := do
  answer met.agent
  if (← get).closing then throw (failed (js "IPython runtime is shutting down"))
  let candidates := Durable.checkpointIds (← answer met.scanEntries)
  let notices ← sync met candidates
  let execution ← executeCell met
  match ← save met with
  | some checkpoint =>
    answer met.commit
    modify fun s => { s with entries := s.entries ++ [checkpoint] }
  | none => pure ()
  let report ← report met execution notices
  pure (Durable.reply report execution)

inductive Adapter where
  | pi
  | durable
  deriving DecidableEq

/-- A call of the tool, with the data of its result. -/
def Adapter.call (toolCallId : CallId) (met : Met) : Adapter → Call CellResult
  | .pi => PiReply.structuredContent <$> Pi.execute toolCallId met
  | .durable => DurableReply.structuredOutput <$> Durable.execute met

/-! ## The steps of a call -/

section Run

variable {met : Met} {s : Session} {α β : Type}

theorem run_pure (a : α) : (pure a : Call α).run.run s = (.ok a, s) := rfl

theorem run_throw (e : Thrown) : (throw e : Call α).run.run s = (.error e, s) := rfl

theorem run_get : (get : Call Session).run.run s = (.ok s, s) := rfl

theorem run_modify (f : Session → Session) :
    (modify f : Call Unit).run.run s = (.ok (), f s) := rfl

theorem run_answer (r : Except Thrown α) : (answer r).run.run s = (r, s) := rfl

theorem run_bind (x : Call α) (f : α → Call β) :
    (x >>= f).run.run s = match x.run.run s with
      | (.ok a, t) => (f a).run.run t
      | (.error e, t) => (.error e, t) := by
  change (match x.run.run s with | (r, t) => ExceptT.bindCont f r t) = _
  rcases x.run.run s with ⟨_ | a, t⟩ <;> rfl

theorem run_tryCatch (x : Call α) (f : Thrown → Call α) :
    (tryCatch x f).run.run s = match x.run.run s with
      | (.ok a, t) => (.ok a, t)
      | (.error e, t) => (f e).run.run t := by
  simp only [tryCatch, tryCatchThe, MonadExceptOf.tryCatch, ExceptT.tryCatch, ExceptT.run,
    ExceptT.mk, bind, StateT.bind, StateT.run]
  rcases x s with ⟨_ | a, t⟩ <;> rfl

/-- The state when `sync` has waited for the queue. -/
def Session.waited (s : Session) (met : Met) : Session :=
  if s.enabled then { s with queue := [], held := met.held } else s

/-- What `sync` ends with. -/
def Session.restored (s : Session) (met : Met) (candidates : List CheckpointId) :
    Except Thrown (List JsStr) :=
  if s.enabled then met.restoreBranch candidates else .ok []

/-- `sync` has resolved. -/
def Session.noted (s : Session) (met : Met) (notices : List JsStr) : Session :=
  { s.waited met with synced := s.synced ++ [notices] }

theorem run_sync (candidates : List CheckpointId) : (sync met candidates).run.run s =
    match s.restored met candidates with
    | .ok notices => (.ok notices, s.noted met notices)
    | .error e => (.error e, s.waited met) := by
  unfold sync Session.noted Session.restored Session.waited
  rw [run_bind, run_get]
  dsimp only
  by_cases h : s.enabled = true
  · rw [if_neg (not_not_intro h), run_bind, run_modify, if_pos h, if_pos h]
    dsimp only
    rw [run_bind, run_answer]
    cases met.restoreBranch candidates <;> rfl
  · rw [if_pos h, if_neg h, if_neg h]
    rfl

/-- The state after `save`. -/
def Session.saved (s : Session) (met : Met) : Session :=
  if s.enabled then { s with queue := s.queue ++ [met.randomUUID] } else s

theorem run_save : (save met).run.run s =
    (.ok (if s.enabled then some met.randomUUID else none), s.saved met) := by
  unfold save Session.saved
  rw [run_bind, run_get]
  dsimp only
  by_cases h : s.enabled = true
  · rw [if_neg (not_not_intro h), if_pos h, if_pos h]
    rfl
  · rw [if_pos h, if_neg h, if_neg h]
    rfl

/-- An execution has resolved. -/
def Session.counted (s : Session) : Session := { s with ran := s.ran + 1 }

theorem run_executeCell : (executeCell met).run.run s =
    match met.execute with
    | .ok execution => (.ok execution, s.counted)
    | .error e => (.error e, s) := by
  unfold executeCell
  rw [run_bind, run_answer]
  cases met.execute <;> rfl

/-- A long output of the cell is written. -/
def Session.written (s : Session) (met : Met) (execution : Execution) : Session :=
  if execution.overlong then
    { s with outputs := (saveOutput met.files s.outputs (stripAnsi execution.result.output)).2 }
  else s

/-- The result of the cell, with its output saved in the files that the call meets. -/
def Session.reported (s : Session) (met : Met) (execution : Execution) (notices : List JsStr) :
    Except JsStr CellReport :=
  cellResult execution notices fun text => (saveOutput met.files s.outputs text).1

theorem run_report (execution : Execution) (notices : List JsStr) :
    (report met execution notices).run.run s =
      ((s.reported met execution notices).mapError failed, s.written met execution) := by
  unfold report Session.written
  rw [run_bind, run_get]
  dsimp only
  by_cases h : execution.overlong = true
  · rw [if_pos h, if_pos h]
    rfl
  · rw [if_neg h, if_neg h]
    rfl

/-- `sync` changes the queue and what the kernel holds. -/
theorem waited_frame (s : Session) (met : Met) :
    (s.waited met).enabled = s.enabled ∧ (s.waited met).outputs = s.outputs ∧
      (s.waited met).undelivered = s.undelivered ∧ (s.waited met).ran = s.ran ∧
      (s.waited met).synced = s.synced ∧ (s.waited met).results = s.results := by
  unfold Session.waited
  split <;> exact ⟨rfl, rfl, rfl, rfl, rfl, rfl⟩

theorem saved_frame (s : Session) (met : Met) :
    (s.saved met).outputs = s.outputs ∧ (s.saved met).undelivered = s.undelivered ∧
      (s.saved met).synced = s.synced ∧ (s.saved met).results = s.results := by
  unfold Session.saved
  split <;> exact ⟨rfl, rfl, rfl, rfl⟩

/-- What a throw of the Pi tool's cell leaves for the handler of results. -/
def Session.thrown (s : Session) (toolCallId : CallId) (error : Thrown) : Session :=
  if error.kernelLost then { s with forwarded := onLost s.forwarded toolCallId } else s

theorem run_thrown {α : Type} (toolCallId : CallId) (e : Thrown) :
    ((do
      if e.kernelLost then
        modify fun s => { s with forwarded := onLost s.forwarded toolCallId }
      throw e : Call α)).run.run s = (.error e, s.thrown toolCallId e) := by
  unfold Session.thrown
  by_cases h : e.kernelLost = true
  · rw [if_pos h, if_pos h]
    rfl
  · rw [if_neg h, if_neg h]
    rfl

/-- **A call of the Pi tool**, by what its steps meet. -/
theorem run_piExecute (toolCallId : CallId) : (Pi.execute toolCallId met).run.run s =
    match s.restored met (checkpointIds met.branch), met.execute with
    | .error e, _ => (.error e, (s.waited met).thrown toolCallId e)
    | .ok notices, .error e => (.error e, (s.noted met notices).thrown toolCallId e)
    | .ok notices, .ok execution =>
      let t := (s.noted met notices).counted
      match t.reported met execution (t.undelivered ++ notices) with
      | .error e => (.error (failed e), t.written met execution)
      | .ok report =>
        let t := { t.written met execution with undelivered := [] }
        (.ok (Pi.reply report execution (if t.enabled then some met.randomUUID else none)),
          t.saved met) := by
  unfold Pi.execute
  rw [run_bind, run_tryCatch, run_bind, run_sync]
  cases s.restored met (checkpointIds met.branch) with
  | error e =>
    dsimp only
    rw [run_thrown]
  | ok notices =>
    dsimp only
    rw [run_bind, run_executeCell]
    cases met.execute with
    | error e =>
      dsimp only
      rw [run_thrown]
    | ok execution =>
      dsimp only
      rw [run_pure]
      dsimp only
      rw [run_bind, run_get]
      dsimp only
      rw [run_bind, run_report]
      cases (s.noted met notices).counted.reported met execution
          ((s.noted met notices).counted.undelivered ++ notices) with
      | error e => rfl
      | ok report =>
        dsimp only [Except.mapError]
        rw [run_bind, run_modify]
        dsimp only
        rw [run_bind, run_save]
        rfl

/-- What appending the checkpoint to the conversation ends with. -/
def Session.committed (s : Session) (met : Met) : Except Thrown Unit × Session :=
  if s.enabled then (met.commit, match met.commit with
    | .ok _ => { s with entries := s.entries ++ [met.randomUUID] }
    | .error _ => s)
  else (.ok (), s)

theorem saved_enabled (s : Session) (met : Met) : (s.saved met).enabled = s.enabled := by
  unfold Session.saved
  split <;> rfl

theorem run_replied (s : Session) (execution : Execution) (notices : List JsStr) :
    ((do
      let report ← report met execution notices
      pure (Durable.reply report execution) : Call DurableReply)).run.run s =
      (match s.reported met execution notices with
        | .error e => .error (failed e)
        | .ok report => .ok (Durable.reply report execution), s.written met execution) := by
  rw [run_bind, run_report]
  cases s.reported met execution notices <;> rfl

/-- **A call of the durable tool**, by what its steps meet. -/
theorem run_durableExecute : (Durable.execute met).run.run s =
    match met.agent, s.closing, met.scanEntries with
    | .error e, _, _ => (.error e, s)
    | .ok _, true, _ => (.error (failed (js "IPython runtime is shutting down")), s)
    | .ok _, false, .error e => (.error e, s)
    | .ok _, false, .ok pages =>
      match s.restored met (Durable.checkpointIds pages), met.execute with
      | .error e, _ => (.error e, s.waited met)
      | .ok notices, .error e => (.error e, s.noted met notices)
      | .ok notices, .ok execution =>
        match ((s.noted met notices).counted.saved met).committed met with
        | (.error e, t) => (.error e, t)
        | (.ok _, t) =>
          (match t.reported met execution notices with
            | .error e => .error (failed e)
            | .ok report => .ok (Durable.reply report execution), t.written met execution) := by
  unfold Durable.execute
  rw [run_bind, run_answer]
  cases met.agent with
  | error e => rfl
  | ok _ =>
    dsimp only
    rw [run_bind, run_get]
    dsimp only
    cases hclosing : s.closing with
    | true => rfl
    | false =>
      rw [if_neg nofun, run_bind, run_answer]
      cases met.scanEntries with
      | error e => rfl
      | ok pages =>
        dsimp only
        rw [run_bind, run_sync]
        cases s.restored met (Durable.checkpointIds pages) with
        | error e => rfl
        | ok notices =>
          dsimp only
          rw [run_bind, run_executeCell]
          cases met.execute with
          | error e => rfl
          | ok execution =>
            dsimp only
            rw [run_bind, run_save]
            generalize (s.noted met notices).counted = t
            dsimp only
            unfold Session.committed
            by_cases h : t.enabled = true
            · rw [if_pos h, if_pos ((saved_enabled t met).trans h)]
              dsimp only
              rw [run_bind, run_answer]
              cases met.commit with
              | error e => rfl
              | ok _ =>
                dsimp only
                rw [run_bind, run_modify]
                exact run_replied _ execution notices
            · rw [if_neg h, if_neg fun h' => h ((saved_enabled t met).symm.trans h')]
              exact run_replied (t.saved met) execution notices

end Run

end PiIpython.Extension
