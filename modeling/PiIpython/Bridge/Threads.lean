import PiIpython.Lib.Machine

/-!
# The two threads of the bridge

`bridge.py` must not leave its kernel behind when the process that owns it
dies. Its main thread (`main`) starts the kernel behind a gate and reaps it in
a `finally`; a second thread (`monitor_owner`) watches the owner and ends the
process when the main thread hangs. They share `_OWNER_DEAD` and
`_KERNEL_PGID` under one lock, and SIGTERM raises `SystemExit` wherever the
main thread is. A step is one statement of one thread, a signal, or something
the kernel or the owner does; every place of a thread has an assertion that
the other thread's steps keep (`MainAt.Holds`, `MonitorAt.Holds`).
-/

namespace PiIpython.Bridge.Threads

inductive Thread where
  | main
  | monitor
  deriving DecidableEq

/-- The process that `start_kernel` launches. -/
inductive Kernel where
  | none
  /-- It runs `_KERNEL_LAUNCH_GATE` and reads from the gate. -/
  | gated
  | running
  | dead
  deriving DecidableEq

/-- The statements of `kill_kernel_group`. -/
inductive Killing where
  | lock
  | read
  | unlock (pgid : Option Int)
  | killpg (pgid : Option Int)
  | wait
  deriving DecidableEq

/-- The statement that the main thread runs next. -/
inductive MainAt where
  /-- Before the `try`. -/
  | setup
  | startMonitor
  | checkOwner
  /-- In `start_kernel`. -/
  | launch
  | checkGroup (pgid : Option Int)
  | lock (pgid : Int)
  | record (pgid : Int)
  | recheck
  | authorize
  | unlock
  /-- The rest of the `try`: the startup and the requests. -/
  | serve
  /-- The `finally`, before SIGTERM is ignored. -/
  | cleanup
  | closeGate
  | ownerCheck (last : Bool)
  | killing (last : Bool) (k : Killing)
  | stopChannels
  | shutdownKernel
  /-- `main` has returned or raised. -/
  | exiting
  deriving DecidableEq

/-- The statement that `monitor_owner` runs next. -/
inductive MonitorAt where
  /-- The thread is not started. -/
  | idle
  | poll
  | lock
  | mark
  | unlock
  | terminate
  | sleep
  | killing (k : Killing)
  | exiting
  deriving DecidableEq

structure State where
  main : MainAt
  monitor : MonitorAt
  /-- The bridge process is there. -/
  alive : Bool
  /-- So is its owner. -/
  ownerAlive : Bool
  /-- `_OWNER_DEAD`. -/
  ownerDead : Bool
  /-- `_KERNEL_PGID`. -/
  kernelPgid : Option Int
  /-- Who holds `_OWNER_LOCK`. -/
  lock : Option Thread
  kernel : Kernel
  /-- The kernel's process group. -/
  group : Int
  /-- `manager.has_kernel`. -/
  hasKernel : Bool
  /-- `gate_write` is open. -/
  gateWrite : Bool
  /-- The byte was written to the gate. -/
  authorized : Bool
  deriving DecidableEq

def State.init : State where
  main := .setup
  monitor := .idle
  alive := true
  ownerAlive := true
  ownerDead := false
  kernelPgid := none
  lock := none
  kernel := .none
  group := 0
  hasKernel := false
  gateWrite := false
  authorized := false

inductive Event where
  /-- The main thread runs its next statement. -/
  | main
  /-- `start_kernel` has launched the process, in a group of its own. -/
  | launched (group : Int)
  /-- `start_kernel` returns; `pgid` is what the provisioner reports. -/
  | started (pgid : Option Int)
  /-- The statement of the main thread raises. -/
  | raised
  /-- `shutdown_kernel(now=True)` returns or raises. -/
  | shutdownKernel (raised : Bool)
  /-- The main thread handles a SIGTERM, from the monitor or from anyone. -/
  | sigterm
  | monitor
  /-- The process ends after `main`. -/
  | exit
  /-- The process is killed. -/
  | killed
  | ownerExits
  /-- The launched process goes on. -/
  | kernel
  | kernelExits
  deriving DecidableEq

namespace State

/-- The statement is in the `try`. -/
def inTry (s : State) : Bool :=
  match s.main with
  | .startMonitor | .checkOwner | .launch | .checkGroup _ | .lock _ | .record _ | .recheck
  | .authorize | .unlock | .serve => true
  | _ => false

/-- An exception leaves the `try`, and with it the block that holds the lock. -/
def unwind (s : State) : State :=
  { s with main := .cleanup, lock := if s.lock = some .main then none else s.lock }

def killpg (s : State) (pgid : Option Int) : State :=
  { s with kernel := if s.kernel ≠ .none ∧ pgid = some s.group then .dead else s.kernel }

/-- A statement of `kill_kernel_group` in the thread `t`, and the next one. -/
def kill (s : State) (t : Thread) : Killing → Option (Option Killing × State)
  | .lock => if s.lock = none then some (some .read, { s with lock := some t }) else none
  | .read => some (some (.unlock s.kernelPgid), s)
  | .unlock pgid => some (some (.killpg pgid), { s with lock := none })
  | .killpg pgid => some (some .wait, s.killpg pgid)
  | .wait => some (none, s)

/-- After a check of the owner in the `finally`. -/
def checked (last : Bool) : MainAt := if last then .exiting else .stopChannels

def mainKilling (last : Bool) : Option Killing → MainAt
  | some k => .killing last k
  | none => checked last

def monitorKilling : Option Killing → MonitorAt
  | some k => .killing k
  | none => .exiting

/-- The next statement of the main thread. -/
def stepMain (s : State) : Option State :=
  match s.main with
  | .setup => some { s with main := .startMonitor, gateWrite := true }
  | .startMonitor => some { s with main := .checkOwner, monitor := .poll }
  | .checkOwner => some { s with main := if s.ownerAlive then .launch else .cleanup }
  | .launch => none
  | .checkGroup (some p) => if 1 < p then some { s with main := .lock p } else some s.unwind
  | .checkGroup none => some s.unwind
  | .lock p =>
    if s.lock = none then some { s with main := .record p, lock := some .main } else none
  | .record p => some { s with main := .recheck, kernelPgid := some p }
  | .recheck =>
    if s.ownerDead ∨ ! s.ownerAlive then some s.unwind else some { s with main := .authorize }
  | .authorize => some { s with main := .unlock, authorized := true }
  | .unlock => some { s with main := .serve, lock := none }
  | .serve => some { s with main := .cleanup }
  | .cleanup => some { s with main := .closeGate }
  | .closeGate => some { s with main := .ownerCheck false, gateWrite := false }
  | .ownerCheck last =>
    some { s with main := if s.ownerAlive then checked last else .killing last .lock }
  | .killing last k => (s.kill .main k).map fun x => { x.2 with main := mainKilling last x.1 }
  | .stopChannels => some { s with main := .shutdownKernel }
  | .shutdownKernel => none
  | .exiting => none

/-- The next statement of `monitor_owner`. -/
def stepMonitor (s : State) : Option State :=
  match s.monitor with
  | .idle => none
  | .poll => some { s with monitor := if s.ownerAlive then .poll else .lock }
  | .lock => if s.lock = none then some { s with monitor := .mark, lock := some .monitor } else none
  | .mark => some { s with monitor := .unlock, ownerDead := true }
  | .unlock => some { s with monitor := .terminate, lock := none }
  | .terminate => some { s with monitor := .sleep }
  | .sleep => some { s with monitor := .killing .lock }
  | .killing k => (s.kill .monitor k).map fun x => { x.2 with monitor := monitorKilling x.1 }
  | .exiting => some { s with alive := false }

/-- The process behind the gate goes on: it becomes the kernel, or ends when it reads no byte. -/
def stepKernel (s : State) : Option State :=
  if s.kernel = .gated then
    if s.authorized then some { s with kernel := .running }
    else if s.gateWrite ∧ s.alive then none
    else some { s with kernel := .dead }
  else none

/-- An event of the bridge process. -/
def stepBridge (s : State) : Event → Option State
  | .main => s.stepMain
  | .launched group =>
    if s.main = .launch ∧ s.kernel = .none then some { s with kernel := .gated, group } else none
  | .started pgid =>
    if s.main = .launch ∧ s.kernel ≠ .none ∧ ∀ p ∈ pgid, p = s.group then
      some { s with main := .checkGroup pgid, hasKernel := true }
    else none
  | .raised =>
    if s.main = .setup then some { s with main := .exiting }
    else if s.inTry then some s.unwind
    else none
  | .shutdownKernel raised =>
    if s.main = .shutdownKernel then
      some { s with
        main := .ownerCheck true
        kernel := if s.hasKernel ∧ ! raised then .dead else s.kernel }
    else none
  | .sigterm =>
    if s.main = .setup ∨ s.main = .cleanup then some { s with main := .exiting }
    else if s.inTry then some s.unwind
    else some s
  | .monitor => s.stepMonitor
  | .exit => if s.main = .exiting then some { s with alive := false } else none
  | .killed => some { s with alive := false }
  | _ => none

end State

/-- One event. -/
def State.step (s : State) : Event → Option State
  | .ownerExits => some { s with ownerAlive := false }
  | .kernel => s.stepKernel
  | .kernelExits => if s.kernel = .none then none else some { s with kernel := .dead }
  | e => if s.alive then s.stepBridge e else none

/-! ## Assertions -/

/-- `kill_kernel_group` holds the lock there. -/
def Killing.locked : Killing → Bool
  | .read | .unlock _ => true
  | _ => false

def MainAt.locked : MainAt → Bool
  | .record _ | .recheck | .authorize | .unlock => true
  | .killing _ k => k.locked
  | _ => false

def MonitorAt.locked : MonitorAt → Bool
  | .mark | .unlock => true
  | .killing k => k.locked
  | _ => false

/-- The kernel, if it was let go, has been recorded or killed as far as `k` goes. -/
def Killing.Holds (s : State) : Killing → Prop
  | .lock | .read => True
  | .unlock pgid | .killpg pgid => s.authorized = true → pgid = some s.group
  | .wait => s.authorized = true → s.kernel = .dead

def MainAt.Holds (s : State) : MainAt → Prop
  | .setup | .startMonitor => s.authorized = false ∧ s.monitor = .idle
  | .checkOwner | .launch => s.authorized = false
  | .checkGroup pgid =>
    s.authorized = false ∧ s.kernel ≠ .none ∧ s.hasKernel = true ∧ ∀ p ∈ pgid, p = s.group
  | .lock p | .record p =>
    s.authorized = false ∧ s.kernel ≠ .none ∧ s.hasKernel = true ∧ p = s.group
  | .recheck =>
    s.authorized = false ∧ s.kernel ≠ .none ∧ s.hasKernel = true ∧ s.kernelPgid = some s.group
  | .authorize =>
    s.ownerDead = false ∧ s.kernel ≠ .none ∧ s.hasKernel = true ∧ s.kernelPgid = some s.group
  | .ownerCheck true => s.authorized = true → s.kernel = .dead ∨ s.ownerAlive = false
  | .killing _ k => k.Holds s
  | .exiting => s.authorized = true → s.kernel = .dead
  | _ => True

def MonitorAt.Holds (s : State) : MonitorAt → Prop
  | .idle | .poll | .lock | .mark => True
  | .unlock | .terminate | .sleep => s.ownerDead = true
  | .killing k => s.ownerDead = true ∧ k.Holds s
  | .exiting => s.ownerDead = true ∧ (s.authorized = true → s.kernel = .dead)

/-- What holds between any two steps. -/
structure State.Inv (s : State) : Prop where
  running : s.kernel = .running → s.authorized = true
  recorded : s.authorized = true →
    s.kernel ≠ .none ∧ s.hasKernel = true ∧ s.kernelPgid = some s.group
  mainLock : s.lock = some .main ↔ s.main.locked = true
  monitorLock : s.lock = some .monitor ↔ s.monitor.locked = true
  main : s.main.Holds s
  monitor : s.monitor.Holds s
  gone : s.alive = false → s.authorized = true → s.kernel = .dead

/-- What the other threads must leave alone for the monitor. -/
structure ForMonitor (s t : State) : Prop where
  ownerDead : s.ownerDead = true → t.ownerDead = true
  authorized : s.ownerDead = true → t.authorized = true → s.authorized = true ∧ t.group = s.group
  dead : s.kernel = .dead → t.kernel = .dead

/-- What they must leave alone for the main thread. -/
structure ForMain (s t : State) : Prop where
  main : t.main = s.main
  idle : s.monitor = .idle → t.monitor = .idle
  authorized : t.authorized = s.authorized
  hasKernel : t.hasKernel = s.hasKernel
  kernelPgid : t.kernelPgid = s.kernelPgid
  group : t.group = s.group
  launched : s.kernel ≠ .none → t.kernel ≠ .none
  dead : s.kernel = .dead → t.kernel = .dead
  running : t.kernel = .running → s.kernel = .running ∨ s.authorized = true
  ownerAlive : s.ownerAlive = false → t.ownerAlive = false
  ownerDead : s.main = .authorize → s.ownerDead = false → t.ownerDead = false

section Assertions

variable {s t : State}

theorem Killing.Holds.keep {k : Killing} (h : k.Holds s)
    (ha : t.authorized = true → s.authorized = true ∧ t.group = s.group)
    (hk : s.kernel = .dead → t.kernel = .dead) : k.Holds t := by
  cases k with
  | lock => trivial
  | read => trivial
  | unlock pgid => exact fun hta => (ha hta).2 ▸ h (ha hta).1
  | killpg pgid => exact fun hta => (ha hta).2 ▸ h (ha hta).1
  | wait => exact fun hta => hk (h (ha hta).1)

theorem MonitorAt.Holds.keep {m : MonitorAt} (h : m.Holds s) (hq : ForMonitor s t) :
    m.Holds t := by
  cases m with
  | unlock => exact hq.ownerDead h
  | terminate => exact hq.ownerDead h
  | sleep => exact hq.ownerDead h
  | killing k => exact ⟨hq.ownerDead h.1, h.2.keep (hq.authorized h.1) hq.dead⟩
  | exiting => exact ⟨hq.ownerDead h.1, fun ha => hq.dead (h.2 (hq.authorized h.1 ha).1)⟩
  | _ => trivial

theorem ForMain.holds (hq : ForMain s t) (h : s.main.Holds s) : t.main.Holds t := by
  have hauth : t.authorized = true → s.authorized = true ∧ t.group = s.group :=
    fun ha => ⟨hq.authorized ▸ ha, hq.group⟩
  rw [hq.main]
  cases hm : s.main with
  | checkGroup pgid =>
    rw [hm] at h
    exact ⟨hq.authorized.trans h.1, hq.launched h.2.1, hq.hasKernel.trans h.2.2.1,
      hq.group ▸ h.2.2.2⟩
  | lock p =>
    rw [hm] at h
    exact ⟨hq.authorized.trans h.1, hq.launched h.2.1, hq.hasKernel.trans h.2.2.1,
      hq.group ▸ h.2.2.2⟩
  | record p =>
    rw [hm] at h
    exact ⟨hq.authorized.trans h.1, hq.launched h.2.1, hq.hasKernel.trans h.2.2.1,
      hq.group ▸ h.2.2.2⟩
  | recheck =>
    rw [hm] at h
    exact ⟨hq.authorized.trans h.1, hq.launched h.2.1, hq.hasKernel.trans h.2.2.1,
      hq.kernelPgid.trans (hq.group ▸ h.2.2.2)⟩
  | authorize =>
    rw [hm] at h
    exact ⟨hq.ownerDead hm h.1, hq.launched h.2.1, hq.hasKernel.trans h.2.2.1,
      hq.kernelPgid.trans (hq.group ▸ h.2.2.2)⟩
  | ownerCheck last =>
    rw [hm] at h
    cases last with
    | false => trivial
    | true => exact fun ha => (h (hauth ha).1).imp hq.dead hq.ownerAlive
  | killing last k =>
    rw [hm] at h
    exact Killing.Holds.keep h hauth hq.dead
  | exiting =>
    rw [hm] at h
    exact fun ha => hq.dead (h (hauth ha).1)
  | setup => rw [hm] at h; exact ⟨hq.authorized.trans h.1, hq.idle h.2⟩
  | startMonitor => rw [hm] at h; exact ⟨hq.authorized.trans h.1, hq.idle h.2⟩
  | checkOwner => rw [hm] at h; exact hq.authorized.trans h
  | launch => rw [hm] at h; exact hq.authorized.trans h
  | _ => trivial

/-- **Frame**: a step of the monitor or of the surroundings. -/
theorem State.Inv.frame (h : s.Inv) (hq : ForMain s t)
    (hmain : t.lock = some .main ↔ s.lock = some .main)
    (hmonitor : t.lock = some .monitor ↔ t.monitor.locked = true) (hm : t.monitor.Holds t)
    (hgone : t.alive = false → t.authorized = true → t.kernel = .dead) : t.Inv where
  running := fun hk => hq.authorized.trans ((hq.running hk).elim h.running id)
  recorded := fun ha => by
    have hr := h.recorded (hq.authorized ▸ ha)
    exact ⟨hq.launched hr.1, hq.hasKernel.trans hr.2.1, hq.kernelPgid.trans (hq.group ▸ hr.2.2)⟩
  mainLock := by rw [hq.main, hmain]; exact h.mainLock
  monitorLock := hmonitor
  main := hq.holds h.main
  monitor := hm
  gone := hgone

/-- A step of the main thread. -/
theorem State.Inv.moved (h : s.Inv) (hq : ForMonitor s t) (hm : t.monitor = s.monitor)
    (halive : s.alive = true) (hta : t.alive = s.alive)
    (hrunning : t.kernel = .running → t.authorized = true)
    (hrecorded : t.authorized = true →
      t.kernel ≠ .none ∧ t.hasKernel = true ∧ t.kernelPgid = some t.group)
    (hmain : t.lock = some .main ↔ t.main.locked = true)
    (hmonitor : t.lock = some .monitor ↔ s.lock = some .monitor) (hat : t.main.Holds t) :
    t.Inv where
  running := hrunning
  recorded := hrecorded
  mainLock := hmain
  monitorLock := by rw [hm, hmonitor]; exact h.monitorLock
  main := hat
  monitor := hm ▸ h.monitor.keep hq
  gone := fun hg => by rw [hta, halive] at hg; cases hg

/-- The main thread goes to `m` and nothing else changes. -/
theorem State.Inv.goto (h : s.Inv) {m : MainAt} (hl : m.locked = s.main.locked) (hm : m.Holds s) :
    { s with main := m }.Inv where
  running := h.running
  recorded := h.recorded
  mainLock := hl ▸ h.mainLock
  monitorLock := h.monitorLock
  main := hm
  monitor := h.monitor
  gone := h.gone

/-! ## Steps -/

/-- After a statement of `kill_kernel_group` the next one holds, or the kernel was killed. -/
def afterKill (s : State) : Option Killing → Prop
  | some k => k.Holds s
  | none => s.authorized = true → s.kernel = .dead

/-- What a statement of `kill_kernel_group` in the thread `th` does. -/
structure Kills (s t : State) (th : Thread) (next : Option Killing) : Prop where
  same : ∃ l k, t = { s with lock := l, kernel := k }
  launched : s.kernel ≠ .none → t.kernel ≠ .none
  dead : s.kernel = .dead → t.kernel = .dead
  running : t.kernel = .running → s.kernel = .running
  taken : t.lock = some th ↔ next.any Killing.locked = true
  other : ∀ u, u ≠ th → (t.lock = some u ↔ s.lock = some u)
  holds : afterKill t next

theorem State.kill_kills {th : Thread} {k : Killing} {next : Option Killing}
    (hl : s.lock = some th ↔ k.locked = true)
    (hr : s.authorized = true → s.kernel ≠ .none ∧ s.hasKernel = true ∧ s.kernelPgid = some s.group)
    (hk : k.Holds s) (h : s.kill th k = some (next, t)) : Kills s t th next := by
  unfold State.kill at h
  cases k with
  | lock =>
    dsimp only at h
    split at h
    · next hnone =>
      cases h
      exact ⟨⟨_, _, rfl⟩, id, id, id, iff_of_true rfl rfl,
        fun u hu => iff_of_false (fun e => hu (Option.some.inj e).symm)
          (by rw [hnone]; exact nofun), trivial⟩
    · cases h
  | read =>
    cases h
    exact ⟨⟨_, _, rfl⟩, id, id, id, iff_of_true (hl.mpr rfl) rfl, fun _ _ => Iff.rfl,
      fun ha => (hr ha).2.2⟩
  | unlock pgid =>
    cases h
    refine ⟨⟨_, _, rfl⟩, id, id, id, iff_of_false nofun nofun, fun u hu => ?_, hk⟩
    exact iff_of_false nofun fun e => hu (Option.some.inj (e.symm.trans (hl.mpr rfl)))
  | killpg pgid =>
    cases h
    refine ⟨⟨s.lock, _, rfl⟩, fun hn => ?_, fun hd => ?_, fun hrun => ?_, hl, fun _ _ => Iff.rfl,
      fun ha => ?_⟩
    · dsimp only [State.killpg]
      split
      · exact nofun
      · exact hn
    · dsimp only [State.killpg]
      split
      · rfl
      · exact hd
    · dsimp only [State.killpg] at hrun
      split at hrun
      · cases hrun
      · exact hrun
    · exact if_pos ⟨(hr ha).1, hk ha⟩
  | wait =>
    cases h
    exact ⟨⟨_, _, rfl⟩, id, id, id, hl, fun _ _ => Iff.rfl, hk⟩

theorem State.Inv.unwind (h : s.Inv) (halive : s.alive = true) : s.unwind.Inv := by
  refine h.moved ⟨id, fun _ ha => ⟨ha, rfl⟩, id⟩ rfl halive rfl h.running h.recorded ?_ ?_ trivial
  · refine iff_of_false (fun he => ?_) nofun
    dsimp only [State.unwind] at he
    split at he
    · cases he
    · next hne => exact hne he
  · dsimp only [State.unwind]
    split
    · next he => exact iff_of_false nofun (by rw [he]; exact nofun)
    · exact Iff.rfl

theorem State.Inv.stepMain (h : s.Inv) (halive : s.alive = true) (hs : s.stepMain = some t) :
    t.Inv := by
  have hat := h.main
  have hlock := h.mainLock
  unfold State.stepMain at hs
  cases hm : s.main with
  | setup =>
    rw [hm] at hs hat hlock
    cases hs
    exact ⟨h.running, h.recorded, hlock, h.monitorLock, hat,
      h.monitor.keep ⟨id, fun _ ha => ⟨ha, rfl⟩, id⟩, h.gone⟩
  | startMonitor =>
    rw [hm] at hs hat hlock
    cases hs
    have hfree : s.lock ≠ some .monitor := fun he => by
      have := h.monitorLock.mp he
      rw [hat.2] at this
      cases this
    exact ⟨h.running, h.recorded, hlock, iff_of_false hfree nofun, hat.1, trivial, h.gone⟩
  | checkOwner =>
    rw [hm] at hs hat
    cases hs
    split
    · exact h.goto (hm ▸ rfl) hat
    · exact h.goto (hm ▸ rfl) trivial
  | launch =>
    rw [hm] at hs
    cases hs
  | checkGroup pgid =>
    rw [hm] at hs hat
    cases pgid with
    | none =>
      cases hs
      exact h.unwind halive
    | some p =>
      dsimp only at hs
      split at hs
      · cases hs
        exact h.goto (hm ▸ rfl) ⟨hat.1, hat.2.1, hat.2.2.1, hat.2.2.2 p rfl⟩
      · cases hs
        exact h.unwind halive
  | lock p =>
    rw [hm] at hs hat
    dsimp only at hs
    split at hs
    · next hnone =>
      cases hs
      exact h.moved ⟨id, fun _ ha => ⟨ha, rfl⟩, id⟩ rfl halive rfl h.running h.recorded
        (iff_of_true rfl rfl) (iff_of_false nofun (by rw [hnone]; exact nofun)) hat
    · cases hs
  | record p =>
    rw [hm] at hs hat hlock
    cases hs
    have hna : ¬ s.authorized = true := by rw [hat.1]; exact nofun
    exact h.moved ⟨id, fun _ ha => ⟨ha, rfl⟩, id⟩ rfl halive rfl h.running (fun ha => absurd ha hna)
      hlock Iff.rfl ⟨hat.1, hat.2.1, hat.2.2.1, congrArg some hat.2.2.2⟩
  | recheck =>
    rw [hm] at hs hat
    dsimp only at hs
    split at hs
    · cases hs
      exact h.unwind halive
    · next hdead =>
      cases hs
      have hd : s.ownerDead = false := by
        cases hd : s.ownerDead with
        | false => rfl
        | true => exact absurd (.inl hd) hdead
      exact h.goto (hm ▸ rfl) ⟨hd, hat.2⟩
  | authorize =>
    rw [hm] at hs hat hlock
    cases hs
    exact h.moved ⟨id, fun hd => absurd (hd.symm.trans hat.1) nofun, id⟩ rfl halive rfl
      (fun _ => rfl) (fun _ => hat.2) hlock Iff.rfl trivial
  | unlock =>
    rw [hm] at hs hlock
    cases hs
    refine h.moved ⟨id, fun _ ha => ⟨ha, rfl⟩, id⟩ rfl halive rfl h.running h.recorded
      (iff_of_false nofun nofun) (iff_of_false nofun ?_) trivial
    rw [hlock.mpr rfl]
    exact nofun
  | serve =>
    rw [hm] at hs
    cases hs
    exact h.goto (hm ▸ rfl) trivial
  | cleanup =>
    rw [hm] at hs
    cases hs
    exact h.goto (hm ▸ rfl) trivial
  | closeGate =>
    rw [hm] at hs hlock
    cases hs
    exact h.moved ⟨id, fun _ ha => ⟨ha, rfl⟩, id⟩ rfl halive rfl h.running h.recorded hlock Iff.rfl
      trivial
  | ownerCheck last =>
    rw [hm] at hs hat
    cases hs
    split
    · next hlive =>
      cases last with
      | false => exact h.goto (hm ▸ rfl) trivial
      | true =>
        refine h.goto (hm ▸ rfl) fun ha => (hat ha).resolve_right ?_
        rw [hlive]
        exact nofun
    · exact h.goto (hm ▸ rfl) trivial
  | killing last k =>
    rw [hm] at hs hat hlock
    obtain ⟨⟨next, u⟩, hu, rfl⟩ := Option.map_eq_some_iff.mp hs
    have hk := State.kill_kills hlock h.recorded hat hu
    obtain ⟨l, x, rfl⟩ := hk.same
    have hrec : s.authorized = true →
        x ≠ .none ∧ s.hasKernel = true ∧ s.kernelPgid = some s.group :=
      fun ha => ⟨hk.launched (h.recorded ha).1, (h.recorded ha).2⟩
    refine h.moved ⟨id, fun _ ha => ⟨ha, rfl⟩, hk.dead⟩ rfl halive rfl
      (fun hr => h.running (hk.running hr)) hrec ?_ (hk.other .monitor nofun) ?_
    · cases next with
      | some k => exact hk.taken
      | none => cases last <;> exact hk.taken
    · cases next with
      | some k => exact hk.holds
      | none =>
        cases last with
        | false => trivial
        | true => exact hk.holds
  | stopChannels =>
    rw [hm] at hs
    cases hs
    exact h.goto (hm ▸ rfl) trivial
  | shutdownKernel =>
    rw [hm] at hs
    cases hs
  | exiting =>
    rw [hm] at hs
    cases hs

theorem State.Inv.stepMonitor (h : s.Inv) (hs : s.stepMonitor = some t) : t.Inv := by
  have hat := h.monitor
  have hlock := h.monitorLock
  have hfree : ∀ m : MonitorAt, { s with monitor := m }.monitor.locked = s.monitor.locked →
      s.monitor ≠ .idle → m.Holds s → { s with monitor := m }.Inv := fun m hl hi hm =>
    h.frame ⟨rfl, fun he => absurd he hi, rfl, rfl, rfl, rfl, id, id, .inl, id, fun _ => id⟩ Iff.rfl
      (hl ▸ hlock) hm h.gone
  unfold State.stepMonitor at hs
  cases hm : s.monitor with
  | idle =>
    rw [hm] at hs
    cases hs
  | poll =>
    rw [hm] at hs
    cases hs
    refine hfree _ ?_ (hm ▸ nofun) ?_
    · rw [hm]
      split <;> rfl
    · split <;> trivial
  | lock =>
    rw [hm] at hs
    dsimp only at hs
    split at hs
    · next hnone =>
      cases hs
      refine h.frame ⟨rfl, fun he => ?_, rfl, rfl, rfl, rfl, id, id, .inl, id, fun _ => id⟩
        (iff_of_false nofun (by rw [hnone]; exact nofun)) (iff_of_true rfl rfl) trivial h.gone
      rw [hm] at he
      cases he
    · cases hs
  | mark =>
    rw [hm] at hs hlock
    cases hs
    refine h.frame ⟨rfl, fun he => ?_, rfl, rfl, rfl, rfl, id, id, .inl, id, fun ha _ => ?_⟩ Iff.rfl
      hlock rfl h.gone
    · rw [hm] at he
      cases he
    · -- the main thread would hold the lock
      have hmain := h.mainLock.mpr (ha ▸ rfl)
      rw [hlock.mpr rfl] at hmain
      cases hmain
  | unlock =>
    rw [hm] at hs hat hlock
    cases hs
    refine h.frame ⟨rfl, fun he => ?_, rfl, rfl, rfl, rfl, id, id, .inl, id, fun _ => id⟩
      (iff_of_false nofun ?_) (iff_of_false nofun nofun) hat h.gone
    · rw [hm] at he
      cases he
    · rw [hlock.mpr rfl]
      exact nofun
  | terminate =>
    rw [hm] at hs hat
    cases hs
    exact hfree _ (hm ▸ rfl) (hm ▸ nofun) hat
  | sleep =>
    rw [hm] at hs hat
    cases hs
    exact hfree _ (hm ▸ rfl) (hm ▸ nofun) ⟨hat, trivial⟩
  | killing k =>
    rw [hm] at hs hat hlock
    obtain ⟨⟨next, u⟩, hu, rfl⟩ := Option.map_eq_some_iff.mp hs
    have hk := State.kill_kills hlock h.recorded hat.2 hu
    obtain ⟨l, x, rfl⟩ := hk.same
    refine h.frame ⟨rfl, fun he => ?_, rfl, rfl, rfl, rfl, hk.launched, hk.dead,
      fun hr => .inl (hk.running hr), id, fun _ => id⟩ (hk.other .main nofun) ?_ ?_ ?_
    · rw [hm] at he
      cases he
    · cases next with
      | some k => exact hk.taken
      | none => exact hk.taken
    · cases next with
      | some k => exact ⟨hat.1, hk.holds⟩
      | none => exact ⟨hat.1, hk.holds⟩
    · exact fun hg ha => hk.dead (h.gone hg ha)
  | exiting =>
    rw [hm] at hs hat hlock
    cases hs
    refine h.frame ⟨rfl, fun he => ?_, rfl, rfl, rfl, rfl, id, id, .inl, id, fun _ => id⟩ Iff.rfl
      (hm ▸ hlock) (hm ▸ hat) fun _ => hat.2
    rw [hm] at he
    cases he

end Assertions

end PiIpython.Bridge.Threads
