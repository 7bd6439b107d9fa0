import PiIpython.Core.Message
import PiIpython.Core.Output
import PiIpython.Extension.Notices

/-!
# The result of a cell

`cell.ts`, what the Pi and the durable adapter share about one call: the
result of a cell as data. `KernelRuntime.saveOutput` writes the full text of
a truncated output.
-/

namespace PiIpython.Extension

open Text Output
open PiIpython.Runtime (BridgeError)

/-- `BridgeResult`. -/
structure BridgeResult where
  status : JsStr
  executionCount : Option Binary64
  error : Option BridgeError
  output : JsStr
  images : List JsStr
  imagesDropped : Nat
  deriving DecidableEq

/-- What `KernelRuntime.execute` resolves with. -/
structure Execution where
  result : BridgeResult
  kernelReset : Bool
  deriving DecidableEq

def imageLimit : Nat := 4

def imageLimitBytes : Nat := 8 * 1024 * 1024

def describeError (error : Option BridgeError) : JsStr :=
  join (js ": ") ((error.elim [] fun e => [e.ename, e.evalue]).filter (· ≠ []))

inductive Status where
  | ok
  | error
  deriving DecidableEq

structure CellResult where
  status : Status
  output : JsStr
  truncated : Bool
  notices : List JsStr
  executionCount : Option Binary64
  error : Option BridgeError
  fullOutputPath : Option JsStr
  deriving DecidableEq

structure CellReport where
  data : CellResult
  header : Option JsStr
  figures : List Part
  deriving DecidableEq

/-- The line that counts the figures past the limits. -/
def droppedFigures (dropped : Nat) : JsStr :=
  let limit := decimal imageLimit ++ js " figures and " ++ formatSize imageLimitBytes ++
    js " per cell"
  decimal dropped ++ js " " ++ (if dropped = 1 then js "figure" else js "figures") ++
    js " not sent: the limit is " ++ limit ++ js "."

def cellResult (execution : Execution) (notices : List JsStr) (save : JsStr → Except JsStr JsStr) :
    Except JsStr CellReport := do
  let result := execution.result
  let final ← finalOutput result.output save
  let status := if result.status = js "ok" then .ok else .error
  let data : CellResult := {
    status := status
    output := final.output
    truncated := final.truncated
    notices := if execution.kernelReset then resetNotice :: notices else notices
    executionCount := result.executionCount
    error :=
      if status = .error then
        some ⟨result.error.elim (js "Error") (·.ename), result.error.elim [] (·.evalue)⟩
      else none
    fullOutputPath := final.fullOutputPath }
  let figures := result.images.map fun image => .image image (js "image/png")
  let dropped := result.imagesDropped
  pure ⟨data, final.header, if dropped > 0 then figures ++ [.text (droppedFigures dropped)]
    else figures⟩

/-- The cell's output exceeds the limits, so all of it is to be saved. -/
def Execution.overlong (execution : Execution) : Bool :=
  (truncateTail (stripAnsi execution.result.output)).truncated

variable {execution : Execution} {notices : List JsStr} {save : JsStr → Except JsStr JsStr}

/-- **The result of a cell fails with `save` alone.** -/
theorem cellResult_error_iff {e : JsStr} :
    cellResult execution notices save = .error e ↔
      execution.overlong = true ∧ save (stripAnsi execution.result.output) = .error e := by
  rw [Execution.overlong, ← finalOutput_error_iff]
  change (finalOutput execution.result.output save).bind _ = _ ↔ _
  cases finalOutput execution.result.output save with
  | error f => simp [Except.bind]
  | ok final => simp [Except.bind, pure, Except.pure]

/-- The notices of the result are those given, behind that of a reset. -/
theorem notices_of_cellResult {report : CellReport}
    (h : cellResult execution notices save = .ok report) :
    report.data.notices = if execution.kernelReset then resetNotice :: notices else notices := by
  change (finalOutput execution.result.output save).bind _ = _ at h
  cases hf : finalOutput execution.result.output save with
  | error f =>
    rw [hf] at h
    cases h
  | ok final =>
    rw [hf] at h
    cases h
    rfl

/-! ## Saving an output -/

/-- The fields of the runtime that `saveOutput` uses. -/
structure Outputs where
  disposed : Bool
  outputDirectory : Option JsStr
  outputIndex : Nat
  deriving DecidableEq

/-- The file system as `saveOutput` meets it. -/
structure Files where
  mkdtempSync : Except JsStr JsStr
  writeFileSync : JsStr → JsStr → Except JsStr Unit

def saveOutput (files : Files) (o : Outputs) (text : JsStr) : Except JsStr JsStr × Outputs :=
  if o.disposed then (.error (js "IPython runtime is shutting down"), o)
  else
    match o.outputDirectory.elim files.mkdtempSync .ok with
    | .error e => (.error e, o)
    | .ok directory =>
      let index := o.outputIndex + 1
      let path := directory ++ js "/output-" ++ decimal index ++ js ".txt"
      let o := { o with outputDirectory := some directory, outputIndex := index }
      match files.writeFileSync path text with
      | .error e => (.error e, o)
      | .ok _ => (.ok path, o)

/-- The full output of a cell cannot be saved. -/
def Unsaved (files : Files) (o : Outputs) (execution : Execution) : Prop :=
  execution.overlong = true ∧
    ∃ e, (saveOutput files o (stripAnsi execution.result.output)).1 = .error e

end PiIpython.Extension
