import PiIpython.Core.Message
import PiIpython.Core.Output

/-!
# The state of a `KernelRuntime`

`State` has the fields of the class and, for every object that a closure of
the class keeps alive, a table: the bridges it spawned, the startups
(`startKernel`), the terminations (`terminate`), the requests and the calls.
A promise that is settled but whose continuation has not run is a phase of its
own, and the continuation a job.
-/

namespace PiIpython.Runtime

open Text

/-! ## Parties and identities -/

/-- A bridge child, by the order of the spawns. -/
abbrev BridgeId := Nat

/-- A caller's `AbortSignal`. -/
abbrev SignalId := Nat

/-- A call of `terminate` that started one. -/
abbrev TerminationId := Nat

/-- The signal of an operation: the caller's, joined with that of `lifecycle` or not. -/
structure Signal where
  caller : Option SignalId
  lifecycle : Bool
  deriving DecidableEq

/-- A bridge child process. -/
structure Bridge where
  /-- `child.exitCode` is set. -/
  exited : Bool
  /-- Its `error` event was handled. -/
  failed : Bool
  /-- Its `close` event was handled. -/
  closed : Bool
  /-- `terminate` was started on it. -/
  terminated : Bool
  deriving DecidableEq

/-- A bridge just spawned. -/
def Bridge.spawned : Bridge := ⟨false, false, false, false⟩

/-- The bridge has exited, as far as its events say. -/
def Bridge.gone (b : Bridge) : Bool := b.failed || b.closed

/-! ## Requests -/

structure Interrupt where
  reason : JsStr
  overflow : Bool
  deriving DecidableEq

/-- `BridgeRequest`, a line to the bridge. -/
inductive BridgeRequest where
  | execute (requestId code cwd : JsStr)
  | evaluate (requestId expression : JsStr)
  deriving DecidableEq

def BridgeRequest.requestId : BridgeRequest → JsStr
  | .execute id _ _ => id
  | .evaluate id _ => id

/-- `ProtocolResult`. -/
structure ProtocolResult where
  status : JsStr
  executionCount : Option Binary64
  value : Option JsonValue
  error : Option BridgeError
  output : JsStr
  images : List JsStr
  imagesDropped : Nat

/-- How a request's promise ended. A rejection is a `KernelLostError`. -/
inductive Settled where
  | resolved (result : ProtocolResult)
  | rejected (message : JsStr)

/-- `ActiveExecution`. The timer of an interrupt is pending as long as the request is active. -/
structure Active where
  /-- The request's place in the table. -/
  request : Nat
  requestId : JsStr
  /-- The bridge whose stdin it was written to. -/
  bridge : BridgeId
  output : JsStr
  images : List JsStr
  imagesDropped : Nat
  signal : Signal
  cancelReason : JsStr
  /-- The reason of the pending timeout. -/
  timeout : Option JsStr
  interrupt : Option Interrupt
  deriving DecidableEq

/-- A timer of the request is pending. -/
def Active.timed (a : Active) : Bool := a.timeout.isSome || a.interrupt.isSome

/-- `terminate().finally(() => active.reject(..))`: the rejection of a request that waits for a
termination, or for nothing when there was none to wait for. -/
structure Rejection where
  after : Option TerminationId
  request : Nat
  message : JsStr
  deriving DecidableEq

/-! ## Startups, terminations, calls -/

/-- The two runs of uv in `syncEnvironment`. -/
inductive ProvisionPhase where
  | checking
  | syncing
  | settled (result : Except JsStr Unit)

structure Provision where
  signal : Signal
  phase : ProvisionPhase

/-- Where a `startKernel` is. -/
inductive StartupPhase where
  /-- It awaits `ensureRuntime`. -/
  | provisioning (provision : Nat)
  /-- It awaits the promises of the listeners. -/
  | listeners
  /-- The bridge is spawned and the ready waiter set. -/
  | waiting (child : BridgeId)
  /-- The ready waiter was resolved. -/
  | ready (child : BridgeId)
  /-- The ready waiter was rejected; its handler has not run. -/
  | failed (error : JsStr)
  /-- The handler awaits `terminate`. -/
  | stopping (after : Option TerminationId) (error : JsStr)
  /-- Its promise is settled; `starting` is not cleared yet. -/
  | settled (result : Except JsStr Unit)
  /-- The tracked promise is settled. -/
  | done (result : Except JsStr Unit)

structure Startup where
  signal : Signal
  phase : StartupPhase

inductive TerminationPhase where
  /-- It awaits the close of the bridge or its timers. -/
  | waiting
  /-- `reapProcessGroup` is next. -/
  | stopped
  /-- The 250 ms after SIGTERM. -/
  | reaping
  /-- The 100 ms after SIGKILL. -/
  | killing
  /-- The group is reaped. -/
  | reaped
  | done
  deriving DecidableEq

structure Termination where
  child : BridgeId
  kernelPgid : Option Int
  bridgeClosed : Bool
  /-- The timer of one second is pending. -/
  forceTimer : Bool
  phase : TerminationPhase
  deriving DecidableEq

inductive CallKind where
  | start
  | execute (requestId code cwd : JsStr)
  | getConnectionFile
  deriving DecidableEq

inductive CallPhase where
  /-- `start` awaits the stopping promise. -/
  | stopping (after : TerminationId)
  /-- `start` awaits `starting`. -/
  | starting (startup : Nat)
  /-- `start` resolved. -/
  | started
  /-- The request is accepted, with the reset that `execute` will report. -/
  | requested (request : Nat) (kernelReset : Bool)
  /-- The call is over, with the error when it threw before a request. -/
  | over (error : Option JsStr)
  deriving DecidableEq

/-- A call of `start`, `execute` or `getConnectionFile`. -/
structure Call where
  kind : CallKind
  signal : Signal
  phase : CallPhase
  deriving DecidableEq

inductive ShutdownPhase where
  | idle
  /-- It awaits `starting`. -/
  | starting (startup : Option Nat)
  /-- It awaits the stopping promise. -/
  | stopping (after : Option TerminationId)
  /-- It awaits the close of the bridge. `timer` is pending; `after` is the termination that its
  expiry awaits. -/
  | closing (child : BridgeId) (kernelPgid : Option Int) (timer : Bool)
      (after : Option (Option TerminationId))
  /-- The bridge is closed; `reapProcessGroup` is next. -/
  | closed (kernelPgid : Option Int)
  | reaping (kernelPgid : Option Int)
  | killing
  | done
  deriving DecidableEq

/-! ## Effects -/

inductive Sig where
  | sigint
  | sigterm
  | sigkill
  deriving DecidableEq

/-- What the runtime does to the outside, in order. -/
inductive Effect where
  | spawn (child : BridgeId)
  | write (child : BridgeId) (request : BridgeRequest)
  | shutdownLine (child : BridgeId)
  | signalGroup (pgid : Int) (sig : Sig)
  | signalBridge (child : BridgeId) (sig : Sig)
  | onOutput (request : Nat) (output : JsStr)
  | capture (path text : JsStr)
  deriving DecidableEq

structure State where
  child : Option BridgeId
  ready : Bool
  /-- The startup whose ready waiter is set. -/
  readyWaiter : Option Nat
  starting : Option Nat
  provisioning : Option Nat
  active : Option Active
  stderr : JsStr
  /-- `stopping`: the exit of the bridge is expected. -/
  stopping : Bool
  stoppingPromise : Option TerminationId
  kernelPgid : Option Int
  kernelConnectionFile : Option JsStr
  pendingResetNotice : Bool
  disposed : Bool
  evaluateIndex : Nat
  outputDirectory : Option JsStr
  outputIndex : Nat
  generation : Nat
  shutdown : ShutdownPhase
  bridges : List Bridge
  provisions : List Provision
  startups : List Startup
  terminations : List Termination
  requests : List (Option Settled)
  rejections : List Rejection
  calls : List Call
  /-- The groups whose delayed SIGKILL is scheduled by `terminateProcessGroup`. -/
  killTimers : List Int
  /-- The callers' signals that were aborted. -/
  aborted : List SignalId
  /-- The bridge whose chunk of lines is being read. -/
  chunk : Option BridgeId
  log : List Effect

/-- A new runtime. -/
def State.init : State where
  child := none
  ready := false
  readyWaiter := none
  starting := none
  provisioning := none
  active := none
  stderr := []
  stopping := false
  stoppingPromise := none
  kernelPgid := none
  kernelConnectionFile := none
  pendingResetNotice := false
  disposed := false
  evaluateIndex := 0
  outputDirectory := none
  outputIndex := 0
  generation := 0
  shutdown := .idle
  bridges := []
  provisions := []
  startups := []
  terminations := []
  requests := []
  rejections := []
  calls := []
  killTimers := []
  aborted := []
  chunk := none
  log := []

namespace State

variable (s : State)

/-- `signal.aborted`. The lifecycle is aborted with `disposed`. -/
def isAborted (g : Signal) : Bool :=
  g.caller.any (· ∈ s.aborted) || (g.lifecycle && s.disposed)

def emit (e : Effect) : State := { s with log := s.log ++ [e] }

/-- `terminate` was started on the bridge. -/
def terminated (c : BridgeId) : Bool := (s.bridges[c]?).any (·.terminated)

/-- The bridge has exited. -/
def gone (c : BridgeId) : Bool := (s.bridges[c]?).any (·.gone)

/-- The termination is over: what awaits it may go on. -/
def terminationDone (t : TerminationId) : Bool :=
  (s.terminations[t]?).all fun x => x.phase = .done

end State

end PiIpython.Runtime
