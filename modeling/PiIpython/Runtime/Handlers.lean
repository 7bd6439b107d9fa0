import PiIpython.Runtime.State

/-!
# The methods of a `KernelRuntime`

Every method that runs without awaiting, as a function on `State`. What the
operating system answers is an argument: `alive` says which process groups
exist, `disk` how writing a file ends.
-/

namespace PiIpython.Runtime

open Text Output

def outputCaptureLimitBytes : Nat := 1024 * 1024

def interruptGraceMs : Nat := 3000

def imageLimit : Nat := 4

def imageLimitBytes : Nat := 8 * 1024 * 1024

def stderrLimit : Nat := 16384

/-- `ms / 1000` in a template literal. -/
def seconds (ms : Nat) : JsStr :=
  let frac := ((js (toString (1000 + ms % 1000))).drop 1).reverse.dropWhile (· = unit '0')
  decimal (ms / 1000) ++ if frac = [] then [] else js "." ++ frac.reverse

/-- How writing an output file ends: creating the directory, then writing the file. -/
structure Disk where
  mkdtemp : Except JsStr JsStr
  writeFile : Option JsStr

namespace State

/-! ## Promises -/

/-- The first settlement of a request counts. -/
def settle (s : State) (r : Nat) (x : Settled) : State :=
  { s with requests := s.requests.modify r fun y => y.or (some x) }

/-- `finish` of a startup: it ends the wait for the bridge, the first time. -/
def finishStartup (s : State) (sid : Nat) (f : BridgeId → StartupPhase) : State :=
  match s.startups[sid]? with
  | some ⟨g, .waiting c⟩ =>
    { s with readyWaiter := none, startups := s.startups.set sid ⟨g, f c⟩ }
  | _ => s

/-- `this.readyWaiter?.reject(new Error(error))`. -/
def rejectReady (s : State) (error : JsStr) : State :=
  match s.readyWaiter with
  | none => s
  | some sid => s.finishStartup sid fun _ => .failed error

/-- `this.readyWaiter?.resolve()`. -/
def resolveReady (s : State) : State :=
  match s.readyWaiter with
  | none => s
  | some sid => s.finishStartup sid .ready

def failActive (s : State) (message : JsStr) : State :=
  match s.active with
  | none => s
  | some a => { s with active := none }.settle a.request (.rejected message)

/-- `this.pendingResetNotice ||= this.ready`. -/
def noteReset (s : State) : State :=
  { s with pendingResetNotice := s.pendingResetNotice || s.ready }

def addStderr (s : State) (text : JsStr) : State :=
  { s with stderr := sliceEnd (s.stderr ++ text) stderrLimit }

/-! ## Signals -/

def signalProcessGroup (s : State) (pgid : Option Int) (sig : Sig) : State :=
  match pgid with
  | none => s
  | some g => s.emit (.signalGroup g sig)

def isProcessGroupAlive (alive : Int → Bool) (pgid : Option Int) : Bool := pgid.any alive

def terminateProcessGroup (s : State) (pgid : Int) : State :=
  let s := s.signalProcessGroup (some pgid) .sigterm
  { s with killTimers := s.killTimers ++ [pgid] }

/-- The bridge's `exitCode` is set. -/
def hasExitCode (s : State) (c : BridgeId) : Bool := (s.bridges[c]?).any (·.exited)

/-- The promise that `terminate` answers is that of a termination, or already resolved. -/
def terminate (s : State) : State × Option TerminationId :=
  match s.stoppingPromise, s.child with
  | some t, _ => (s, some t)
  | none, none => (s, none)
  | none, some c =>
    let t := s.terminations.length
    let started : Termination := ⟨c, s.kernelPgid, s.hasExitCode c, true, .waiting⟩
    let s := { s with
      stopping := true
      ready := false
      stoppingPromise := some t
      terminations := s.terminations ++ [started]
      bridges := s.bridges.modify c fun b => { b with terminated := true } }
    ((s.signalProcessGroup s.kernelPgid .sigterm).emit (.signalBridge c .sigterm), some t)

def kill (s : State) : State := s.terminate.1

/-! ## Requests -/

def interrupt (s : State) (reason : JsStr) (overflow : Bool) : State :=
  match s.active with
  | none => s
  | some a =>
    if a.interrupt.isSome then s
    else
      { s with active := some { a with interrupt := some ⟨reason, overflow⟩ } }.signalProcessGroup
        s.kernelPgid .sigint

/-- The text of the request's rejection when the cell did not stop in time. -/
def graceMessage (reason output : JsStr) : JsStr :=
  reason ++ js ". The cell did not stop within " ++ seconds interruptGraceMs ++
    js "; the kernel was killed and in-memory state was lost.\n\n" ++ partialText output

/-- The timer of an interrupt. -/
def graceExpired (s : State) (r : Nat) : State :=
  match s.active with
  | none => s
  | some a =>
    match a.interrupt with
    | none => s
    | some i =>
      if a.request ≠ r then s
      else
        let (s, t) := { s with active := none, pendingResetNotice := true }.terminate
        let waiting : Rejection := ⟨t, r, graceMessage i.reason a.output⟩
        { s with rejections := s.rejections ++ [waiting] }

def handleStdinError (s : State) (child : Option BridgeId) (reason : JsStr) : State :=
  match child with
  | none => s
  | some c =>
    if s.child ≠ some c then s
    else
      (((s.addStderr (js "\nBridge stdin failed: " ++ reason)).noteReset).failActive
        (js "Failed to communicate with IPython. The kernel state was lost: " ++ reason)).kill

/-- `thrown` is what writing to the bridge's stdin throws. The answer is the request's number, or
the error of a refused one. -/
def request (s : State) (message : BridgeRequest) (signal : Signal) (cancelReason : JsStr)
    (timeout : Option JsStr) (thrown : Option JsStr) : State × Except JsStr Nat :=
  match s.child with
  | none => (s, .error (js "IPython kernel is unavailable"))
  | some c =>
    if ¬ s.ready then (s, .error (js "IPython kernel is unavailable"))
    else if s.active.isSome then (s, .error (js "IPython kernel is already executing a request"))
    else if s.isAborted signal then (s, .error cancelReason)
    else
      let r := s.requests.length
      let active : Active :=
        { request := r, requestId := message.requestId, bridge := c, output := [], images := [],
          imagesDropped := 0, signal, cancelReason, timeout, interrupt := none }
      let s := { s with active := some active, requests := s.requests ++ [none] }
      match thrown with
      | none => (s.emit (.write c message), .ok r)
      | some e => (s.handleStdinError s.child e, .ok r)

/-- Writes `text` to a new file that survives kernel restarts and is deleted by `shutdown`. -/
def saveOutput (s : State) (disk : Disk) (text : JsStr) : State × Except JsStr JsStr :=
  if s.disposed then (s, .error (js "IPython runtime is shutting down"))
  else
    let write := fun (s : State) (directory : JsStr) =>
      let path := directory ++ js "/output-" ++ decimal (s.outputIndex + 1) ++ js ".txt"
      let s := { s with outputIndex := s.outputIndex + 1 }
      match disk.writeFile with
      | none => (s.emit (.capture path text), .ok path)
      | some e => (s, .error e)
    match s.outputDirectory with
    | some directory => write s directory
    | none =>
      match disk.mkdtemp with
      | .error e => (s, .error e)
      | .ok directory => write { s with outputDirectory := some directory } directory

/-! ## Bridge lines -/

/-- A line of a known type that fails its check: the bridge is stopped. -/
def rejectLine (s : State) (reason : JsStr) : State :=
  (((s.rejectReady reason).failActive
    (reason ++ js ". The kernel was stopped and all in-memory state was lost.")).noteReset).kill

/-- A `kernel_started` or `ready` line with a bad value: the bridge is stopped. -/
def refuseStartup (s : State) (reason : JsStr) : State := (s.rejectReady reason).kill

def handleKernelStarted (s : State) (kernelPgid : Binary64) : State :=
  match processGroup? kernelPgid with
  | none => s.refuseStartup invalidGroup
  | some g => { s with kernelPgid := some g }

/-- What is wrong with a `ready` line. -/
def readyFault (s : State) (protocol kernelPgid : Binary64) (connectionFile : JsStr) :
    Except JsStr Int :=
  if ¬ isProtocolVersion protocol then .error invalidProtocol
  else
    match processGroup? kernelPgid with
    | none => .error invalidGroup
    | some g =>
      if s.kernelPgid.any (· ≠ g) then .error changedGroup
      else if connectionFile.head? ≠ some (unit '/') then .error invalidConnectionFile
      else .ok g

def handleReady (s : State) (protocol kernelPgid : Binary64) (connectionFile : JsStr) : State :=
  match s.readyFault protocol kernelPgid connectionFile with
  | .error reason => s.refuseStartup reason
  | .ok g =>
    { s with
      kernelPgid := some g
      kernelConnectionFile := some connectionFile
      ready := true
      generation := s.generation + 1 }.resolveReady

def handleFatal (s : State) (error traceback : JsStr) : State :=
  let diagnostics := joinNonEmpty (js "\n") [error, traceback, s.stderr]
  (((s.rejectReady (js "IPython bridge failed:\n" ++ diagnostics)).failActive
    (js "IPython bridge failed and kernel state was lost:\n" ++ diagnostics)).noteReset).kill

def handleClear (s : State) (a : Active) : State :=
  { s with active := some { a with output := [], images := [], imagesDropped := 0 } }.emit
    (.onOutput a.request [])

def handleImage (s : State) (a : Active) (data : JsStr) : State :=
  let bytes := a.images.foldl (fun sum image => sum + image.length) data.length
  if a.images.length < imageLimit ∧ bytes ≤ imageLimitBytes then
    { s with active := some { a with images := a.images ++ [data] } }
  else { s with active := some { a with imagesDropped := a.imagesDropped + 1 } }

/-- The output after a chunk of text. -/
def appendOutput (output kind text : JsStr) (continuation final : Bool) : JsStr :=
  if kind = js "stdout" ∨ kind = js "stderr" then output ++ text
  else
    let output :=
      if ¬ continuation ∧ output ≠ [] ∧ ¬ endsWith output (js "\n") then output ++ js "\n"
      else output
    let output := output ++ text
    if final ∧ ¬ endsWith output (js "\n") then output ++ js "\n" else output

def handleOutput (s : State) (a : Active) (kind text : JsStr) (continuation final : Bool)
    (disk : Disk) : State :=
  if a.interrupt.any (·.overflow) then s
  else
    let output := appendOutput a.output kind text continuation final
    let s := { s with active := some { a with output } }
    if byteLength output > outputCaptureLimitBytes then
      let (s, saved) := s.saveOutput disk (stripAnsi output)
      let captureNotice :=
        match saved with
        | .ok path => js "Captured output saved to: " ++ path
        | .error e => js "Could not save captured output: " ++ e
      s.interrupt
        (js "IPython output exceeded " ++ formatSize outputCaptureLimitBytes ++ js ". " ++
          captureNotice) true
    else s.emit (.onOutput a.request output)

def handleBridgeError (s : State) (a : Active) (error traceback : JsStr) : State :=
  let diagnostics := joinNonEmpty (js "\n") [error, traceback]
  ({ s with active := none, pendingResetNotice := true }.settle a.request
    (.rejected (js "IPython bridge error; kernel state was lost:\n" ++ diagnostics))).kill

/-- The result of the request. An interrupted one is an error that names its reason. -/
def protocolResult (a : Active) (status : JsStr) (executionCount : Option Binary64)
    (value : Option JsonValue) (error : Option BridgeError) : ProtocolResult :=
  match a.interrupt with
  | none => ⟨status, executionCount, value, error, a.output, a.images, a.imagesDropped⟩
  | some i =>
    ⟨js "error", executionCount, value, some ⟨js "Interrupted", i.reason⟩,
      i.reason ++ js "; interrupted, kernel state preserved.\n\n" ++ a.output, a.images,
      a.imagesDropped⟩

def handleResult (s : State) (a : Active) (status : JsStr) (executionCount : Option Binary64)
    (value : Option JsonValue) (error : Option BridgeError) : State :=
  { s with active := none }.settle a.request
    (.resolved (protocolResult a status executionCount value error))

/-- A message about a request counts only for the active one. -/
def handleMessage (s : State) (m : BridgeMessage) (disk : Disk) : State :=
  match m with
  | .kernelStarted pgid => s.handleKernelStarted pgid
  | .ready protocol pgid file => s.handleReady protocol pgid file
  | .fatal error traceback => s.handleFatal error traceback
  | m =>
    match s.active with
    | none => s
    | some a =>
      if m.requestId? ≠ some a.requestId then s
      else
        match m with
        | .clear _ => s.handleClear a
        | .image _ data => s.handleImage a data
        | .output _ kind text continuation final =>
          s.handleOutput a kind text continuation final disk
        | .bridgeError _ error traceback => s.handleBridgeError a error traceback
        | .result _ status count value error => s.handleResult a status count value error
        | _ => s

def handleLine (s : State) (c : BridgeId) (line : JsStr) (disk : Disk) : State :=
  if s.child ≠ some c then s
  else
    match (jsonParse line).bind isBridgeMessage with
    | some m => s.handleMessage m disk
    | none =>
      match (jsonParse line).bind invalidMessageReason with
      | some reason => s.rejectLine reason
      | none => s.addStderr (js "\nNon-protocol bridge output: " ++ line)

/-! ## The exit of the bridge -/

def handleExit (s : State) (c : BridgeId) (reason : JsStr) : State :=
  if s.child ≠ some c then s
  else
    let hadState := s.ready
    let expected := s.stopping
    let kernelPgid := s.kernelPgid
    let diagnostics := trim s.stderr
    let suffix := if diagnostics = [] then [] else js "\n" ++ diagnostics
    let s := { s with
      child := none
      kernelPgid := none
      kernelConnectionFile := none
      ready := false
      stopping := false }.rejectReady (js "IPython " ++ reason ++ suffix)
    if expected then s
    else
      let s := kernelPgid.elim s s.terminateProcessGroup
      { s with pendingResetNotice := s.pendingResetNotice || hadState }.failActive
        (js "IPython " ++ reason ++
          js ". The kernel stopped and all in-memory state was lost." ++ suffix)

end State

end PiIpython.Runtime
