import PiIpython.Runtime.Handlers
import PiIpython.Lib.Machine

/-!
# Steps of a `KernelRuntime`

An event is a call of the host, an abort, a timer, something the bridge does,
or a job: the continuation of a settled promise. Jobs run in any order, but
all of them before the next timer or bridge event; only the lines of one chunk
of output are handled without jobs in between. Errors of a bridge's stdin are
reported between jobs too. The callbacks of the host do not call the runtime.
-/

namespace PiIpython.Runtime

open Text

def evaluateTimeoutMs : Nat := 60000

def startupTimeoutMs : Nat := 45000

def shuttingDown : JsStr := js "IPython runtime is shutting down"

inductive Event where
  -- calls of the host
  | start (signal : Option SignalId)
  | execute (requestId code cwd : JsStr) (signal : Option SignalId)
  | evaluate (expression : JsStr) (timeoutMs : Option Nat) (signal : Option SignalId)
      (thrown : Option JsStr)
  | getConnectionFile (signal : Option SignalId)
  | shutdown
  | abort (signal : SignalId)
  -- uv and the listeners of `ipython:kernel-starting`
  | uv (provision : Nat) (result : Except JsStr Unit)
  | listened (startup : Nat) (result spawned : Except JsStr Unit)
  -- the bridge
  | line (child : BridgeId) (text : JsStr) (disk : Disk)
  | stderr (child : BridgeId) (text : JsStr)
  | stdinError (child : BridgeId) (reason : JsStr)
  | writeError (reason : JsStr)
  | exit (child : BridgeId)
  | error (child : BridgeId) (message : JsStr)
  | close (child : BridgeId) (code : Option Nat) (signal : Option JsStr) (alive : Int → Bool)
  -- timers
  | startupTimeout (startup : Nat)
  | timeout (request : Nat)
  | grace (request : Nat)
  | force (termination : TerminationId)
  | giveUp (termination : TerminationId)
  | reapTimer (termination : TerminationId) (alive : Int → Bool)
  | killTimer (pgid : Int)
  | shutdownTimeout
  | shutdownWriteError
  | shutdownReapTimer (alive : Int → Bool)
  -- jobs
  | runtimeReady (startup : Nat)
  | startupFailed (startup : Nat)
  | startupStopped (startup : Nat)
  | startupReady (startup : Nat)
  | startupDone (startup : Nat)
  | reap (termination : TerminationId) (alive : Int → Bool)
  | terminated (termination : TerminationId)
  | reject (request : Nat)
  | resume (call : Nat) (thrown : Option JsStr)
  | shutdownStarted
  | shutdownStopped (thrown : Bool)
  | shutdownTerminated
  | shutdownReap (alive : Int → Bool)

namespace State

/-! ## What is awaited -/

/-- A promise of `terminate` is settled. -/
def stopped (s : State) (after : Option TerminationId) : Bool := after.all s.terminationDone

def startupOver (s : State) (sid : Nat) : Bool :=
  match s.startups[sid]? with
  | some ⟨_, .done _⟩ => true
  | _ => false

def provisionResult (s : State) (p : Nat) : Option (Except JsStr Unit) :=
  match s.provisions[p]? with
  | some ⟨_, .settled r⟩ => some r
  | _ => none

/-- A continuation of the startup can run. -/
def startupRunnable (s : State) (x : Startup) : Bool :=
  match x.phase with
  | .provisioning p => (s.provisionResult p).isSome
  | .listeners => false
  | .waiting _ => false
  | .ready _ => true
  | .failed _ => true
  | .stopping after _ => s.stopped after
  | .settled _ => true
  | .done _ => false

def terminationRunnable (x : Termination) : Bool := x.phase = .stopped || x.phase = .reaped

def callRunnable (s : State) (x : Call) : Bool :=
  match x.phase with
  | .stopping t => s.terminationDone t
  | .starting sid => s.startupOver sid
  | .started => true
  | .requested .. => false
  | .over _ => false

def shutdownRunnable (s : State) : Bool :=
  match s.shutdown with
  | .starting sid => sid.all s.startupOver
  | .stopping after => s.stopped after
  | .closing _ _ _ (some after) => s.stopped after
  | .closed _ => true
  | _ => false

/-- No continuation can run. -/
def quiet (s : State) : Bool :=
  s.startups.all (! s.startupRunnable ·) && s.terminations.all (! terminationRunnable ·) &&
    s.rejections.all (! s.stopped ·.after) && s.calls.all (! s.callRunnable ·) &&
    ! s.shutdownRunnable

/-! ## Starting -/

/-- `startKernel` up to its first `await`. -/
def startKernel (s : State) (signal : Signal) : State × Nat :=
  let sid := s.startups.length
  match s.provisioning with
  | some p => ({ s with startups := s.startups ++ [⟨signal, .provisioning p⟩] }, sid)
  | none =>
    let p := s.provisions.length
    ({ s with
      provisioning := some p
      provisions := s.provisions ++ [⟨signal, .checking⟩]
      startups := s.startups ++ [⟨signal, .provisioning p⟩] }, sid)

/-- The rest of `start` once no termination is awaited. -/
def continueStart (s : State) (signal : Signal) : State × CallPhase :=
  if s.child.isSome ∧ s.ready then (s, .started)
  else
    match s.starting with
    | some sid => (s, .starting sid)
    | none =>
      let (s, sid) := s.startKernel signal
      ({ s with starting := some sid }, .starting sid)

def beginStart (s : State) (signal : Signal) : State × CallPhase :=
  if s.disposed then (s, .over (some shuttingDown))
  else
    match s.stoppingPromise with
    | some t => (s, .stopping t)
    | none => s.continueStart signal

def addCall (s : State) (kind : CallKind) (signal : Signal) (phase : CallPhase) : State :=
  { s with calls := s.calls ++ [⟨kind, signal, phase⟩] }

def setCall (s : State) (k : Nat) (x : Call) : State := { s with calls := s.calls.set k x }

def setStartup (s : State) (sid : Nat) (x : Startup) : State :=
  { s with startups := s.startups.set sid x }

def setTermination (s : State) (t : TerminationId) (x : Termination) : State :=
  { s with terminations := s.terminations.set t x }

def callStart (s : State) (signal : Option SignalId) : State :=
  let g : Signal := ⟨signal, false⟩
  let (s, phase) := s.beginStart g
  s.addCall .start g phase

def callExecute (s : State) (requestId code cwd : JsStr) (signal : Option SignalId) : State :=
  let g : Signal := ⟨signal, true⟩
  let kind := CallKind.execute requestId code cwd
  if s.isAborted g then
    s.addCall kind g (.over (some (js "IPython execution cancelled before it started")))
  else
    let (s, phase) := s.beginStart g
    s.addCall kind g phase

def callEvaluate (s : State) (expression : JsStr) (timeoutMs : Option Nat)
    (signal : Option SignalId) (thrown : Option JsStr) : State :=
  let ms := timeoutMs.getD evaluateTimeoutMs
  let s := { s with evaluateIndex := s.evaluateIndex + 1 }
  (s.request (.evaluate (js "evaluate-" ++ decimal s.evaluateIndex) expression) ⟨signal, true⟩
    (js "IPython evaluation cancelled")
    (some (js "IPython evaluation exceeded " ++ seconds ms ++ js "s")) thrown).1

def callConnectionFile (s : State) (signal : Option SignalId) : State :=
  let g : Signal := ⟨signal, true⟩
  let (s, phase) := s.beginStart g
  s.addCall .getConnectionFile g phase

/-- `execute` after its start: it takes the reset notice and sends the request. -/
def executeStarted (s : State) (k : Nat) (x : Call) (requestId code cwd : JsStr)
    (thrown : Option JsStr) : State :=
  let kernelReset := s.pendingResetNotice
  let s := { s with pendingResetNotice := false }
  match s.request (.execute requestId code cwd) x.signal (js "IPython execution cancelled") none
      thrown with
  | (s, .ok r) => s.setCall k { x with phase := .requested r kernelReset }
  | (s, .error e) => s.setCall k { x with phase := .over (some e) }

/-- A call goes on after what it awaited. -/
def resumeCall (s : State) (k : Nat) (x : Call) (thrown : Option JsStr) : State :=
  match x.phase with
  | .stopping _ =>
    let (s, phase) := s.continueStart x.signal
    s.setCall k { x with phase }
  | .starting sid =>
    match s.startups[sid]? with
    | some ⟨_, .done (.error e)⟩ => s.setCall k { x with phase := .over (some e) }
    | _ => s.setCall k { x with phase := .started }
  | .started =>
    match x.kind with
    | .start => s.setCall k { x with phase := .over none }
    | .execute requestId code cwd => s.executeStarted k x requestId code cwd thrown
    | .getConnectionFile =>
      let error :=
        if s.isAborted x.signal ∨ ¬ s.ready ∨ s.kernelConnectionFile.all (· = []) then
          some (js "IPython kernel is not ready for a viewer")
        else none
      s.setCall k { x with phase := .over error }
  | _ => s

/-- A run of uv ends. The environment is synced when the check finds drift. -/
def uvEnds (s : State) (p : Nat) (x : Provision) (result : Except JsStr Unit) : State :=
  let set := fun (phase : ProvisionPhase) =>
    { s with provisions := s.provisions.set p { x with phase } }
  let fail := fun (e : JsStr) =>
    { set (.settled (.error e)) with
      provisioning := if s.provisioning = some p then none else s.provisioning }
  let cancelled := js "Python environment provisioning cancelled"
  match x.phase, result with
  | .checking, .ok _ => set (.settled (.ok ()))
  | .checking, .error _ => if s.isAborted x.signal then fail cancelled else set .syncing
  | .syncing, .ok _ => set (.settled (.ok ()))
  | .syncing, .error e =>
    if s.isAborted x.signal then fail cancelled
    else fail (js "Failed to provision the Python environment with uv:\n" ++ e)
  | .settled _, _ => s

/-- `startKernel` from the listeners to the wait for the bridge. -/
def listenersDone (s : State) (sid : Nat) (g : Signal) (result spawned : Except JsStr Unit) :
    State :=
  match result with
  | .error e => s.setStartup sid ⟨g, .settled (.error e)⟩
  | .ok _ =>
    if s.isAborted g then s.setStartup sid ⟨g, .settled (.error (js "IPython startup cancelled"))⟩
    else
      let s := { s with stderr := [], stopping := false, ready := false }
      match spawned with
      | .error e => s.setStartup sid ⟨g, .settled (.error e)⟩
      | .ok _ =>
        let c := s.bridges.length
        ({ s with
          bridges := s.bridges ++ [Bridge.spawned]
          child := some c
          readyWaiter := some sid }.setStartup sid ⟨g, .waiting c⟩).emit (.spawn c)

/-! ## Aborts -/

/-- The abort listeners of the startups and of the active request, for the signals in `fires`. -/
def abortListeners (s : State) (fires : Signal → Bool) : State :=
  let waits := fun (x : Startup) => match x.phase with
    | .waiting _ => fires x.signal
    | _ => false
  let s := { s with
    readyWaiter := if s.startups.any waits then none else s.readyWaiter
    startups := s.startups.map fun x =>
      if waits x then { x with phase := .failed (js "IPython startup cancelled") } else x }
  match s.active with
  | none => s
  | some a => if fires a.signal then s.interrupt a.cancelReason false else s

/-- A signal fires once, when its first source is aborted. -/
def abort (s : State) (σ : SignalId) : State :=
  { s with aborted := σ :: s.aborted }.abortListeners fun g =>
    g.caller = some σ && ! s.isAborted g

def dispose (s : State) : State :=
  { s with disposed := true }.abortListeners fun g => g.lifecycle && ! s.isAborted g

/-! ## Terminations -/

/-- `finish` of a termination. -/
def stopWaiting (s : State) (t : TerminationId) (x : Termination) : State :=
  s.setTermination t { x with phase := .stopped, forceTimer := false }

def forceExpired (s : State) (t : TerminationId) (x : Termination) : State :=
  let s := (s.signalProcessGroup x.kernelPgid .sigkill).emit (.signalBridge x.child .sigkill)
  if x.bridgeClosed then s.stopWaiting t x
  else s.setTermination t { x with forceTimer := false }

/-- The close listener of a termination. -/
def bridgeClosed (alive : Int → Bool) (c : BridgeId) (x : Termination) : Termination :=
  if x.child = c ∧ x.phase = .waiting then
    if isProcessGroupAlive alive x.kernelPgid then { x with bridgeClosed := true }
    else { x with bridgeClosed := true, phase := .stopped, forceTimer := false }
  else x

def exitReason (code : Option Nat) (signal : Option JsStr) : JsStr :=
  js "bridge exited" ++ (code.elim [] fun n => js " with code " ++ decimal n) ++
    signal.elim [] fun name => js " (" ++ name ++ js ")"

/-- The `close` event: the listener of `startKernel`, then those of the terminations and of
`shutdown`. -/
def bridgeCloses (s : State) (c : BridgeId) (code : Option Nat) (signal : Option JsStr)
    (alive : Int → Bool) : State :=
  let s := { s with bridges := s.bridges.modify c fun b => { b with closed := true } }.handleExit c
    (exitReason code signal)
  { s with
    terminations := s.terminations.map (bridgeClosed alive c)
    shutdown := match s.shutdown with
      | .closing d g timer after => if d = c then .closed g else .closing d g timer after
      | x => x }

/-- `reapProcessGroup` up to its first `await`. -/
def reapGroup (s : State) (t : TerminationId) (x : Termination) (alive : Int → Bool) : State :=
  if isProcessGroupAlive alive x.kernelPgid then
    (s.signalProcessGroup x.kernelPgid .sigterm).setTermination t { x with phase := .reaping }
  else s.setTermination t { x with phase := .reaped }

def reapExpired (s : State) (t : TerminationId) (x : Termination) (alive : Int → Bool) : State :=
  if x.phase = .reaping ∧ isProcessGroupAlive alive x.kernelPgid then
    (s.signalProcessGroup x.kernelPgid .sigkill).setTermination t { x with phase := .killing }
  else s.setTermination t { x with phase := .reaped }

/-- The `finally` of a termination. -/
def terminationEnds (s : State) (t : TerminationId) (x : Termination) : State :=
  { s with
    kernelPgid := if s.kernelPgid = x.kernelPgid then none else s.kernelPgid
    stoppingPromise := if s.stoppingPromise = some t then none else s.stoppingPromise
    }.setTermination t { x with phase := .done }

/-! ## Shutdown -/

/-- `shutdownRuntime` once no start and no termination is awaited. -/
def shutdownBridge (s : State) (thrown : Bool) : State :=
  match s.child with
  | none => { s with shutdown := .closed s.kernelPgid }
  | some c =>
    let s := { s with stopping := true, shutdown := .closing c s.kernelPgid true none }
    if thrown then s.kill else s.emit (.shutdownLine c)

def shutdownExpired (s : State) (c : BridgeId) (g : Option Int) : State :=
  let (s, t) := s.terminate
  { s with shutdown := .closing c g false (some t) }

def shutdownReaps (s : State) (g : Option Int) (alive : Int → Bool) : State :=
  if isProcessGroupAlive alive g then
    { s.signalProcessGroup g .sigterm with shutdown := .reaping g }
  else { s with shutdown := .done }

def shutdownReapExpired (s : State) (g : Option Int) (alive : Int → Bool) : State :=
  if isProcessGroupAlive alive g then
    { s.signalProcessGroup g .sigkill with shutdown := .killing }
  else { s with shutdown := .done }

/-! ## The step function -/

/-- The bridge was spawned and its streams are open. -/
def open? (s : State) (c : BridgeId) : Bool := (s.bridges[c]?).any (! ·.gone)

/-- An event of the host, of a promise, or of a bridge's stdin. -/
def stepJob (s : State) : Event → Option State
  | .start signal => some (s.callStart signal)
  | .execute requestId code cwd signal => some (s.callExecute requestId code cwd signal)
  | .evaluate expression ms signal thrown => some (s.callEvaluate expression ms signal thrown)
  | .getConnectionFile signal => some (s.callConnectionFile signal)
  | .shutdown =>
    if s.shutdown = .idle then
      let s := s.dispose
      some { s with shutdown := .starting s.starting }
    else some s
  | .abort σ => some (s.abort σ)
  | .listened sid result spawned =>
    match s.startups[sid]? with
    | some ⟨g, .listeners⟩ => some (s.listenersDone sid g result spawned)
    | _ => none
  | .stdinError c reason =>
    if c < s.bridges.length then some (s.handleStdinError (some c) reason) else none
  | .writeError reason =>
    if s.requests = [] then none else some (s.handleStdinError s.child reason)
  | .runtimeReady sid =>
    match s.startups[sid]? with
    | some ⟨g, .provisioning p⟩ =>
      (s.provisionResult p).map fun r =>
        match r with
        | .ok _ => s.setStartup sid ⟨g, .listeners⟩
        | .error e => s.setStartup sid ⟨g, .settled (.error e)⟩
    | _ => none
  | .startupFailed sid =>
    match s.startups[sid]? with
    | some ⟨g, .failed e⟩ =>
      let (s, t) := s.terminate
      some (s.setStartup sid ⟨g, .stopping t e⟩)
    | _ => none
  | .startupStopped sid =>
    match s.startups[sid]? with
    | some ⟨g, .stopping after e⟩ =>
      if s.stopped after then some (s.setStartup sid ⟨g, .settled (.error e)⟩) else none
    | _ => none
  | .startupReady sid =>
    match s.startups[sid]? with
    | some ⟨g, .ready _⟩ => some (s.setStartup sid ⟨g, .settled (.ok ())⟩)
    | _ => none
  | .startupDone sid =>
    match s.startups[sid]? with
    | some ⟨g, .settled r⟩ =>
      some ({ s with starting := if s.starting = some sid then none else s.starting }.setStartup
        sid ⟨g, .done r⟩)
    | _ => none
  | .reap t alive =>
    match s.terminations[t]? with
    | some x => if x.phase = .stopped then some (s.reapGroup t x alive) else none
    | none => none
  | .terminated t =>
    match s.terminations[t]? with
    | some x => if x.phase = .reaped then some (s.terminationEnds t x) else none
    | none => none
  | .reject r =>
    match s.rejections.find? (·.request = r) with
    | some x =>
      if s.stopped x.after then
        some ({ s with rejections := s.rejections.filter (·.request ≠ r) }.settle r
          (.rejected x.message))
      else none
    | none => none
  | .resume k thrown =>
    match s.calls[k]? with
    | some x => if s.callRunnable x then some (s.resumeCall k x thrown) else none
    | none => none
  | .shutdownStarted =>
    match s.shutdown with
    | .starting sid =>
      if sid.all s.startupOver then some { s with shutdown := .stopping s.stoppingPromise }
      else none
    | _ => none
  | .shutdownStopped thrown =>
    match s.shutdown with
    | .stopping after => if s.stopped after then some (s.shutdownBridge thrown) else none
    | _ => none
  | .shutdownTerminated =>
    match s.shutdown with
    | .closing _ g _ (some after) =>
      if s.stopped after then some { s with shutdown := .closed g } else none
    | _ => none
  | .shutdownReap alive =>
    match s.shutdown with
    | .closed g => some (s.shutdownReaps g alive)
    | _ => none
  | .shutdownWriteError =>
    match s.shutdown with
    | .idle => none
    | .starting _ => none
    | .stopping _ => none
    | _ => some s.kill
  | _ => none

/-- A timer, or an event of uv or of a bridge process. -/
def stepTask (s : State) : Event → Option State
  | .uv p result => (s.provisions[p]?).map fun x => s.uvEnds p x result
  | .stderr c text => if s.open? c then some (s.addStderr text) else none
  | .exit c =>
    if s.open? c then
      some { s with bridges := s.bridges.modify c fun b => { b with exited := true } }
    else none
  | .error c message =>
    if s.open? c then
      some ({ s with bridges := s.bridges.modify c fun b => { b with failed := true } }.handleExit
        c (js "bridge spawn failed: " ++ message))
    else none
  | .close c code signal alive =>
    match s.bridges[c]? with
    | some b => if b.closed then none else some (s.bridgeCloses c code signal alive)
    | none => none
  | .startupTimeout sid =>
    match s.startups[sid]? with
    | some ⟨_, .waiting _⟩ =>
      some (s.finishStartup sid fun _ => .failed (js "IPython kernel did not become ready within " ++
        seconds startupTimeoutMs ++ js "s"))
    | _ => none
  | .timeout r =>
    match s.active with
    | none => none
    | some a =>
      match a.timeout with
      | none => none
      | some reason =>
        if a.request = r then
          some ({ s with active := some { a with timeout := none } }.interrupt reason false)
        else none
  | .grace r =>
    match s.active with
    | none => none
    | some a => if a.request = r ∧ a.interrupt.isSome then some (s.graceExpired r) else none
  | .force t =>
    match s.terminations[t]? with
    | some x =>
      if x.phase = .waiting ∧ x.forceTimer then some (s.forceExpired t x) else none
    | none => none
  | .giveUp t =>
    match s.terminations[t]? with
    | some x => if x.phase = .waiting then some (s.stopWaiting t x) else none
    | none => none
  | .reapTimer t alive =>
    match s.terminations[t]? with
    | some x =>
      if x.phase = .reaping ∨ x.phase = .killing then some (s.reapExpired t x alive) else none
    | none => none
  | .killTimer g =>
    if g ∈ s.killTimers then
      some ({ s with killTimers := s.killTimers.erase g }.signalProcessGroup (some g) .sigkill)
    else none
  | .shutdownTimeout =>
    match s.shutdown with
    | .closing c g true none => some (s.shutdownExpired c g)
    | _ => none
  | .shutdownReapTimer alive =>
    match s.shutdown with
    | .reaping g => some (s.shutdownReapExpired g alive)
    | .killing => some { s with shutdown := .done }
    | _ => none
  | _ => none

end State

/-- One event. -/
def step (s : State) (e : Event) : Option State :=
  match e with
  | .line c text disk =>
    if s.open? c ∧ (s.quiet ∨ s.chunk = some c) then
      some { s.handleLine c text disk with chunk := some c }
    else none
  | e =>
    match s.stepJob e with
    | some t => some { t with chunk := none }
    | none =>
      if s.quiet then (s.stepTask e).map fun t => { t with chunk := none } else none

end PiIpython.Runtime
