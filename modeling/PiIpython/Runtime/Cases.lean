import PiIpython.Runtime.Invariant

/-!
# What a step can do

Most events leave the requests, the bridge and the reset notice alone (`Aside`):
they carry a startup, a termination, a call or the shutdown further. `Change`
lists the others with the state each leads to, and `step_cases` says that this
is every step.
-/

namespace PiIpython.Runtime

open Text

/-- The startup has not come to its bridge yet. -/
def Startup.early (x : Startup) : Bool :=
  match x.phase with
  | .provisioning _ => true
  | .listeners => true
  | _ => false

/-- The startup's promise is settled. -/
def Startup.over (x : Startup) : Bool :=
  match x.phase with
  | .settled _ => true
  | .done _ => true
  | _ => false

theorem Startup.over_of_early {x : Startup} (h : x.early = true) : x.over = false := by
  obtain ⟨g, p⟩ := x
  cases p <;> simp_all [Startup.early, Startup.over]

/-- The call has a request. -/
def Call.requested (x : Call) : Bool :=
  match x.phase with
  | .requested .. => true
  | _ => false

/-- An `execute` listens to the lifecycle too. -/
def Call.joined (x : Call) : Bool :=
  match x.kind with
  | .execute .. => x.signal.lifecycle
  | _ => true

/-- `shutdown` itself stops the bridge. -/
def Event.ofShutdown : Event → Bool
  | .shutdownStopped _ => true
  | .shutdownTimeout => true
  | .shutdownWriteError => true
  | _ => false

namespace State

/-- The step is aside from the requests and the bridge. -/
structure Aside (s t : State) : Prop where
  child : t.child = s.child
  ready : t.ready = s.ready
  readyWaiter : t.readyWaiter = s.readyWaiter
  notice : t.pendingResetNotice = s.pendingResetNotice
  active : t.active = s.active
  requests : t.requests = s.requests
  rejections : t.rejections = s.rejections
  stopping : t.stopping = s.stopping
  disposed : t.disposed = s.disposed
  aborted : t.aborted = s.aborted
  idle : t.shutdown ≠ .idle → s.shutdown ≠ .idle
  bridges : t.bridges.length = s.bridges.length
  gone : ∀ c, t.gone c = s.gone c
  terminated : ∀ c, t.terminated c = s.terminated c
  /-- A startup that is not what it was is over, or has not come to its bridge; a new one begins
  only without a ready bridge. -/
  startup : ∀ {i : Nat} {y : Startup}, t.startups[i]? = some y → s.startups[i]? = some y ∨
    y.over = true ∨ (y.early = true ∧ ((∃ x, s.startups[i]? = some x ∧ x.early = true) ∨
      ¬ (s.child.isSome = true ∧ s.ready = true)))
  held : s.Held → t.NoneFailed ∨ t.Held
  requested : ∀ {k : Nat} {x : Call}, x.requested = true →
    (t.calls[k]? = some x ↔ s.calls[k]? = some x)
  joined : (∀ x ∈ s.calls, x.joined = true) → ∀ x ∈ t.calls, x.joined = true
  waiting : ∀ {i : Nat} {g : Signal} {c : BridgeId}, s.startups[i]? = some ⟨g, .waiting c⟩ →
    t.startups[i]? = some ⟨g, .waiting c⟩

variable {s t u : State}

/-- No startup fails aside from the requests. -/
theorem Aside.noneFailed (h : Aside s t) (hf : s.NoneFailed) : t.NoneFailed := by
  intro i g e hx
  rcases h.startup hx with hx | hx | ⟨hx, -⟩
  · exact hf i g e hx
  · cases hx
  · cases hx

theorem Aside.trans (h : Aside s t) (k : Aside t u) : Aside s u where
  child := k.child.trans h.child
  ready := k.ready.trans h.ready
  readyWaiter := k.readyWaiter.trans h.readyWaiter
  notice := k.notice.trans h.notice
  active := k.active.trans h.active
  requests := k.requests.trans h.requests
  rejections := k.rejections.trans h.rejections
  stopping := k.stopping.trans h.stopping
  disposed := k.disposed.trans h.disposed
  aborted := k.aborted.trans h.aborted
  idle hi := h.idle (k.idle hi)
  bridges := k.bridges.trans h.bridges
  gone c := (k.gone c).trans (h.gone c)
  terminated c := (k.terminated c).trans (h.terminated c)
  startup {i y} hy := by
    rcases k.startup hy with hy | ho | ⟨he, ⟨x, hx, hxe⟩ | hn⟩
    · exact h.startup hy
    · exact .inr (.inl ho)
    · refine .inr (.inr ⟨he, ?_⟩)
      rcases h.startup hx with hx | ho | ⟨-, hx⟩
      · exact .inl ⟨x, hx, hxe⟩
      · rw [Startup.over_of_early hxe] at ho
        cases ho
      · exact hx
    · exact .inr (.inr ⟨he, .inr (by rwa [h.child, h.ready] at hn)⟩)
  held hh := by
    rcases h.held hh with hf | ht
    · exact .inl (k.noneFailed hf)
    · exact k.held ht
  requested hx := (k.requested hx).trans (h.requested hx)
  joined hj := k.joined (h.joined hj)
  waiting hx := k.waiting (h.waiting hx)

/-- Steps that keep even the skeleton. -/
theorem Kept.aside (h : Kept s t) (ha : t.active = s.active) : Aside s t := by
  have he := h.skeleton
  simp only [State.skeleton, Skeleton.mk.injEq] at he
  obtain ⟨h1, h2, h3, -, h5, h6, h7, h8⟩ := he
  refine ⟨h1, h2, h3, h.notice, ha, h.requests, h.rejections, h.stopping, h.disposed, h.aborted,
    fun hi => by rwa [← h.shutdown], by rw [h6], fun c => by rw [State.gone, h6]; rfl,
    fun c => by rw [State.terminated, h6]; rfl, fun hy => .inl (by rwa [← h7]), fun hh => .inr ?_,
    fun _ => by rw [h.calls], by rw [h.calls]; exact id, fun hx => by rwa [h7]⟩
  simpa only [Held, h5, h8] using hh

theorem aside_signalProcessGroup (s : State) (g : Option Int) (sig : Sig) :
    Aside s (s.signalProcessGroup g sig) :=
  (kept_signalProcessGroup s g sig).aside (by cases g <;> rfl)

/-- A startup goes on. -/
theorem aside_setStartup {sid : Nat} {g : Signal} {p : StartupPhase} {y : Startup}
    (hx : s.startups[sid]? = some ⟨g, p⟩)
    (hp : ∀ c, p ≠ .waiting c)
    (hy : y.over = true ∨ y.early = true ∧ Startup.early ⟨g, p⟩ = true) :
    Aside s (s.setStartup sid y) := by
  refine ⟨rfl, rfl, rfl, rfl, rfl, rfl, rfl, rfl, rfl, rfl, id, rfl, fun _ => rfl, fun _ => rfl,
    fun {i z} hz => ?_, fun hh => .inr hh, fun _ => Iff.rfl, id, fun {i k c} hw => ?_⟩
  rotate_left
  · have hi : sid ≠ i := by
      rintro rfl
      exact hp c (congrArg Startup.phase (Option.some.inj (hx.symm.trans hw)))
    exact (List.getElem?_set_ne hi).trans hw
  change (s.startups.set sid y)[i]? = some z at hz
  by_cases hi : sid = i
  · subst hi
    rw [List.getElem?_set_self (List.getElem?_eq_some_iff.mp hx).1] at hz
    cases hz
    exact .inr (hy.imp id fun ⟨h1, h2⟩ => ⟨h1, .inl ⟨_, hx, h2⟩⟩)
  · rw [List.getElem?_set_ne hi] at hz
    exact .inl hz

/-- A call that has no request goes on to have none. -/
theorem aside_setCall {k : Nat} {x : Call} {p : CallPhase} (hx : s.calls[k]? = some x)
    (hr : x.requested = false) (hy : Call.requested { x with phase := p } = false) :
    Aside s (s.setCall k { x with phase := p }) := by
  refine ⟨rfl, rfl, rfl, rfl, rfl, rfl, rfl, rfl, rfl, rfl, id, rfl, fun _ => rfl, fun _ => rfl,
    fun hz => .inl hz, fun hh => .inr hh, fun {j z} hz => ?_, fun hj z hz => ?_, id⟩
  rotate_left
  · rcases List.mem_or_eq_of_mem_set hz with hz | rfl
    · exact hj z hz
    · exact hj x (List.mem_of_getElem? hx)
  change (s.calls.set k _)[j]? = some z ↔ _
  by_cases hj : k = j
  · subst hj
    rw [List.getElem?_set_self (List.getElem?_eq_some_iff.mp hx).1, hx]
    constructor
    · intro h; cases h; cases hy.symm.trans hz
    · intro h; cases h; cases hr.symm.trans hz
  · rw [List.getElem?_set_ne hj]

theorem aside_addCall (s : State) (kind : CallKind) (g : Signal) {p : CallPhase}
    (hp : Call.requested ⟨kind, g, p⟩ = false) (hg : Call.joined ⟨kind, g, p⟩ = true) :
    Aside s (s.addCall kind g p) := by
  refine ⟨rfl, rfl, rfl, rfl, rfl, rfl, rfl, rfl, rfl, rfl, id, rfl, fun _ => rfl, fun _ => rfl,
    fun hz => .inl hz, fun hh => .inr hh, fun {j z} hz => ?_, fun hj z hz => ?_, id⟩
  rotate_left
  · rcases List.mem_append.mp hz with hz | hz
    · exact hj z hz
    · rwa [List.mem_singleton.mp hz]
  change (s.calls ++ [_])[j]? = some z ↔ _
  rw [List.getElem?_append]
  split
  · exact Iff.rfl
  · next hj =>
    rw [List.getElem?_eq_none (not_lt.mp hj)]
    constructor
    · intro h
      obtain ⟨-, rfl⟩ : _ ∧ _ = z := by simpa [List.getElem?_singleton] using h
      cases hp.symm.trans hz
    · intro h; cases h

/-- Starting leaves the calls alone. -/
theorem aside_continueStart (s : State) (g : Signal) :
    Aside s (s.continueStart g).1 ∧ (s.continueStart g).1.calls = s.calls ∧
      ∀ kind, Call.requested ⟨kind, g, (s.continueStart g).2⟩ = false := by
  unfold continueStart
  split
  · exact ⟨(Kept.refl s).aside rfl, rfl, fun _ => rfl⟩
  next hn =>
  split
  · exact ⟨(Kept.refl s).aside rfl, rfl, fun _ => rfl⟩
  have hnew : ∀ (p : Nat) (o : Option Nat) (l : List Provision), Aside s { s with
      provisioning := o
      provisions := l
      startups := s.startups ++ [⟨g, .provisioning p⟩]
      starting := some s.startups.length } := by
    intro p o l
    refine ⟨rfl, rfl, rfl, rfl, rfl, rfl, rfl, rfl, rfl, rfl, id, rfl, fun _ => rfl, fun _ => rfl,
      fun {i z} hz => ?_, fun hh => .inr hh, fun _ => Iff.rfl, id, fun hw => ?_⟩
    rotate_left
    · rw [List.getElem?_append_left (List.getElem?_eq_some_iff.mp hw).1, hw]
    rw [List.getElem?_append] at hz
    split at hz
    · exact .inl hz
    · obtain ⟨-, rfl⟩ : _ ∧ _ = z := by simpa [List.getElem?_singleton] using hz
      exact .inr (.inr ⟨rfl, .inr hn⟩)
  unfold startKernel
  dsimp only
  split
  · exact ⟨hnew _ s.provisioning s.provisions, rfl, fun _ => rfl⟩
  · exact ⟨hnew _ _ _, rfl, fun _ => rfl⟩

theorem aside_beginStart (s : State) {kind : CallKind} {g : Signal}
    (hg : ∀ p, Call.joined ⟨kind, g, p⟩ = true) :
    Aside s ((s.beginStart g).1.addCall kind g (s.beginStart g).2) := by
  unfold beginStart
  split
  · exact s.aside_addCall kind g rfl (hg _)
  split
  · exact s.aside_addCall kind g rfl (hg _)
  · obtain ⟨h, -, hp⟩ := s.aside_continueStart g
    exact h.trans ((s.continueStart g).1.aside_addCall kind g (hp kind) (hg _))

/-- A termination goes on that is not in the way of a failed startup. -/
theorem aside_setTermination {t : TerminationId} {x y : Termination}
    (hx : s.terminations[t]? = some x) (hf : s.NoneFailed ∨ terminationRunnable x = true) :
    Aside s (s.setTermination t y) := by
  refine ⟨rfl, rfl, rfl, rfl, rfl, rfl, rfl, rfl, rfl, rfl, id, rfl, fun _ => rfl, fun _ => rfl,
    fun hz => .inl hz, fun ⟨i, z, hi, hz, hd, hr⟩ => ?_, fun _ => Iff.rfl, id, id⟩
  refine hf.imp id fun hf => ⟨i, z, hi, ?_, hd, hr⟩
  change (s.terminations.set t y)[i]? = some z
  rw [List.getElem?_set_ne, hz]
  rintro rfl
  cases hx.symm.trans hz
  cases hf.symm.trans hr

theorem aside_terminationEnds {t : TerminationId} {x : Termination}
    (hx : s.terminations[t]? = some x) (hr : terminationRunnable x = true) :
    Aside s (s.terminationEnds t x) := by
  refine ⟨rfl, rfl, rfl, rfl, rfl, rfl, rfl, rfl, rfl, rfl, id, rfl, fun _ => rfl, fun _ => rfl,
    fun hz => .inl hz, fun ⟨i, z, hi, hz, hd, hn⟩ => .inr ?_, fun _ => Iff.rfl, id, id⟩
  have hne : i ≠ t := by
    rintro rfl
    cases hx.symm.trans hz
    cases hr.symm.trans hn
  refine ⟨i, z, ?_, ?_, hd, hn⟩
  · change (if s.stoppingPromise = some t then none else s.stoppingPromise) = some i
    rw [hi, if_neg fun he => hne (Option.some.inj he)]
  · change (s.terminations.set t _)[i]? = some z
    rw [List.getElem?_set_ne fun he => hne he.symm, hz]

/-! ## Aborts and requests -/

/-- **What an abort does**: startups that wait may fail, and the request in progress is interrupted
when the signal is its own. -/
theorem abortListeners_cases (s : State) (fires : Signal → Bool) :
    ∃ w l, s.Ended (fun _ => .failed (js "IPython startup cancelled")) w l ∧
      ((s.active.all (fun a => ! fires a.signal) = true ∧
        s.abortListeners fires = { s with readyWaiter := w, startups := l }) ∨
      ∃ a, s.active = some a ∧ fires a.signal = true ∧ s.abortListeners fires =
        { s with readyWaiter := w, startups := l }.interrupt a.cancelReason false) := by
  refine ⟨if s.startups.any (·.waits fires) then none else s.readyWaiter, s.startups.map fun x =>
    if x.waits fires then { x with phase := .failed (js "IPython startup cancelled") } else x, ?_, ?_⟩
  · refine ⟨fun {i y} hy => ?_, ?_⟩
    · rw [List.getElem?_map] at hy
      obtain ⟨⟨g, p⟩, hx, rfl⟩ := Option.map_eq_some_iff.mp hy
      dsimp only
      cases p with
      | waiting c =>
        split
        · exact .inr ⟨c, hx, rfl⟩
        · exact .inl hx
      | _ => exact .inl hx
    · by_cases hw : s.startups.any (·.waits fires) = true
      · exact .inl (if_pos hw)
      · refine .inr ⟨if_neg hw, (List.map_congr_left fun x hx => ?_).trans (List.map_id _)⟩
        exact if_neg fun hf => hw (List.any_eq_true.mpr ⟨x, hx, hf⟩)
  · unfold abortListeners
    dsimp only
    split
    · next hn => exact .inl ⟨by simp [hn], rfl⟩
    · next a ha =>
      split
      · next hf => exact .inr ⟨a, ha, hf, rfl⟩
      · next hf => exact .inl ⟨by simp [ha, hf], rfl⟩

/-- **What `execute` does after its start**: the request is refused, or accepted and written, or
it fails at once. -/
theorem executeStarted_cases (s : State) (k : Nat) (x : Call) (id code cwd : JsStr)
    (thrown : Option JsStr) :
    (s.accepts x.signal = false ∧ ∃ e, s.executeStarted k x id code cwd thrown =
      { s with pendingResetNotice := false }.setCall k { x with phase := .over (some e) }) ∨
    ∃ c, s.child = some c ∧ s.ready = true ∧ s.active = none ∧ s.isAborted x.signal = false ∧
      ((thrown = none ∧ ∃ l, s.executeStarted k x id code cwd thrown =
        { s.accept (s.newActive (.execute id code cwd) c x.signal (js "IPython execution cancelled")
            none) with pendingResetNotice := false, log := l }.setCall k
          { x with phase := .requested s.requests.length s.pendingResetNotice }) ∨
      (thrown.isSome = true ∧ ∃ e m, s.executeStarted k x id code cwd thrown =
        (State.kill { s with
          requests := s.requests ++ [some (.rejected m)]
          stderr := e
          pendingResetNotice := true }).setCall k
          { x with phase := .requested s.requests.length s.pendingResetNotice })) := by
  unfold executeStarted
  rcases request_cases { s with pendingResetNotice := false } (.execute id code cwd) x.signal
    (js "IPython execution cancelled") none thrown with
    ⟨ha, e, he⟩ | ⟨c, hc, hr, hn, hg, ⟨ht, l, he⟩ | ⟨ht, e, m, he⟩⟩
  · exact .inl ⟨ha, e, by simp only [he]⟩
  · exact .inr ⟨c, hc, hr, hn, hg, .inl ⟨ht, l, by simp only [he]; rfl⟩⟩
  · exact .inr ⟨c, hc, hr, hn, hg, .inr ⟨ht, e, m, by simp only [he]⟩⟩

/-! ## The other steps -/

/-- The runtime's bridge, just spawned for a startup. -/
def spawn (s : State) (sid : Nat) (g : Signal) : State :=
  ({ s with
    stderr := []
    stopping := false
    ready := false
    bridges := s.bridges ++ [Bridge.spawned]
    child := some s.bridges.length
    readyWaiter := some sid }.setStartup sid ⟨g, .waiting s.bridges.length⟩).emit
      (.spawn s.bridges.length)

/-- The end of a bridge: its `error` or `close` event. -/
def bridgeEnds (s : State) (c : BridgeId) (reason : JsStr) (f : Bridge → Bridge) : State :=
  { s with bridges := s.bridges.modify c f }.handleExit c reason

/-- **What a step can do**. -/
inductive Change (s : State) : Event → State → Prop where
  | aside {e : Event} {t : State} (h : Aside s t) : Change s e t
  | line {c : BridgeId} {text : JsStr} {disk : Disk} {k : LineKind} {t : State}
      (hk : s.lineKind c text = k) (h : LineCase s k t) : Change s (.line c text disk) t
  | evaluate (expression : JsStr) (ms : Option Nat) (signal : Option SignalId)
      (thrown : Option JsStr) (id reason limit : JsStr) :
      Change s (.evaluate expression ms signal thrown)
        ({ s with evaluateIndex := s.evaluateIndex + 1 }.request (.evaluate id expression)
          ⟨signal, true⟩ reason (some limit) thrown).1
  | execute {k : Nat} {g : Signal} {id code cwd : JsStr} (thrown : Option JsStr)
      (hx : s.calls[k]? = some ⟨.execute id code cwd, g, .started⟩) :
      Change s (.resume k thrown)
        (s.executeStarted k ⟨.execute id code cwd, g, .started⟩ id code cwd thrown)
  | abort (σ : SignalId) : Change s (.abort σ) (s.abort σ)
  | dispose (p : ShutdownPhase) : Change s .shutdown { s.dispose with shutdown := p }
  | spawn {sid : Nat} {g : Signal} {e : Event} (hx : s.startups[sid]? = some ⟨g, .listeners⟩) :
      Change s e (s.spawn sid g)
  | unspawned {sid : Nat} {g : Signal} {e : Event} {m : JsStr}
      (hx : s.startups[sid]? = some ⟨g, .listeners⟩) :
      Change s e ({ s with stderr := [], stopping := false, ready := false }.setStartup sid
        ⟨g, .settled (.error m)⟩)
  | stdin {e : Event} {d : BridgeId} {reason l m : JsStr} (hd : s.child = some d)
      (he : e = .stdinError d reason ∨ e = .writeError reason) :
      Change s e (({ s with stderr := l }.noteReset).failActive m).kill
  | startupFailed {sid : Nat} {g : Signal} {m : JsStr}
      (hx : s.startups[sid]? = some ⟨g, .failed m⟩) (after : Option TerminationId) :
      Change s (.startupFailed sid) (s.kill.setStartup sid ⟨g, .stopping after m⟩)
  | startupTimeout (sid : Nat) (m : JsStr) :
      Change s (.startupTimeout sid) (s.finishStartup sid fun _ => .failed m)
  | timeout {a : Active} {reason : JsStr} (ha : s.active = some a)
      (ht : a.timeout = some reason) : Change s (.timeout a.request)
      ({ s with active := some { a with timeout := none } }.interrupt reason false)
  | grace {a : Active} (ha : s.active = some a) (hi : a.interrupt.isSome = true)
      (after : Option TerminationId) (m : JsStr) :
      Change s (.grace a.request) { State.kill { s with active := none, pendingResetNotice := true } with
        rejections := (State.kill { s with active := none, pendingResetNotice := true }).rejections ++
          [⟨after, a.request, m⟩] }
  | reject {x : Rejection} (hx : x ∈ s.rejections) :
      Change s (.reject x.request) ({ s with
        rejections := s.rejections.filter (·.request ≠ x.request) }.settle x.request
          (.rejected x.message))
  | closing {e : Event} {c : BridgeId} (he : e.ofShutdown = true) (hc : s.child = some c)
      (hs : s.shutdown ≠ .idle)
      (p : ShutdownPhase) (l : List Effect) :
      Change s e { s with stopping := true, shutdown := p, log := l }
  | shutdownKill {e : Event} (he : e.ofShutdown = true) (hs : s.shutdown ≠ .idle) (b : Bool)
      (p q : ShutdownPhase) :
      Change s e { State.kill { s with stopping := b, shutdown := p } with shutdown := q }
  | error (c : BridgeId) (m reason : JsStr) :
      Change s (.error c m) (s.bridgeEnds c reason fun b => { b with failed := true })
  | close (hf : s.NoneFailed) (c : BridgeId) (code : Option Nat) (signal : Option JsStr)
      (alive : Int → Bool) (reason : JsStr) (l : List Termination) {p : ShutdownPhase}
      (hp : p ≠ .idle → s.shutdown ≠ .idle) :
      Change s (.close c code signal alive)
        { s.bridgeEnds c reason fun b => { b with closed := true } with
          terminations := l, shutdown := p }

theorem aside_shutdown (hs : s.shutdown ≠ .idle) (p : ShutdownPhase) :
    Aside s { s with shutdown := p } :=
  { (Kept.refl s).aside rfl with idle := fun _ => hs }

theorem change_resume {k : Nat} {x : Call} (hx : s.calls[k]? = some x) (thrown : Option JsStr)
    (hr : s.callRunnable x = true) : Change s (.resume k thrown) (s.resumeCall k x thrown) := by
  have hset : ∀ {p : CallPhase}, x.requested = false →
      Call.requested { x with phase := p } = false → Aside s (s.setCall k { x with phase := p }) :=
    fun h1 h2 => aside_setCall hx h1 h2
  obtain ⟨kind, g, p⟩ := x
  unfold resumeCall
  cases p with
  | stopping t =>
    obtain ⟨h, hc, hp⟩ := s.aside_continueStart g
    exact .aside (h.trans (aside_setCall (by rw [hc]; exact hx) rfl (hp kind)))
  | starting sid =>
    dsimp only
    split <;> exact .aside (hset rfl rfl)
  | started =>
    cases kind with
    | start => exact .aside (hset rfl rfl)
    | execute id code cwd => exact .execute thrown hx
    | getConnectionFile => exact .aside (hset rfl rfl)
  | _ => cases hr

theorem change_listened {sid : Nat} {g : Signal} (hx : s.startups[sid]? = some ⟨g, .listeners⟩)
    (e : Event) (result spawned : Except JsStr Unit) :
    Change s e (s.listenersDone sid g result spawned) := by
  unfold listenersDone
  split
  · exact .aside (aside_setStartup hx (by simp) (.inl rfl))
  split
  · exact .aside (aside_setStartup hx (by simp) (.inl rfl))
  dsimp only
  split
  · exact .unspawned hx
  · exact .spawn hx

theorem change_job {e : Event} (he : s.stepJob e = some t) : Change s e t := by
  have hrefl : Aside s s := (Kept.refl s).aside rfl
  cases e <;> simp only [stepJob, Option.some.injEq, reduceCtorEq] at he
  case start =>
    subst he
    exact .aside (s.aside_beginStart fun _ => rfl)
  case execute =>
    subst he
    unfold callExecute
    dsimp only
    split
    · exact .aside (s.aside_addCall _ _ rfl rfl)
    · exact .aside (s.aside_beginStart fun _ => rfl)
  case evaluate =>
    subst he
    exact .evaluate _ _ _ _ _ _ _
  case getConnectionFile =>
    subst he
    exact .aside (s.aside_beginStart fun _ => rfl)
  case shutdown =>
    split at he
    · cases he
      exact .dispose _
    · cases he
      exact .aside hrefl
  case abort σ =>
    subst he
    exact .abort σ
  case listened =>
    split at he
    · next hx => cases he; exact change_listened hx _ _ _
    · cases he
  case stdinError =>
    split at he
    · cases he
      rcases s.handleStdinError_cases _ _ with h | ⟨d, l, m, hd, hc, h⟩
      · rw [h]; exact .aside hrefl
      · rw [h]; cases hc; exact .stdin hd (.inl rfl)
    · cases he
  case writeError =>
    split at he
    · cases he
    · cases he
      rcases s.handleStdinError_cases _ _ with h | ⟨d, l, m, hd, hc, h⟩
      · rw [h]; exact .aside hrefl
      · rw [h]; exact .stdin hd (.inr rfl)
  case runtimeReady =>
    split at he
    · next hx =>
      obtain ⟨r, -, rfl⟩ := Option.map_eq_some_iff.mp he
      cases r with
      | ok => exact .aside (aside_setStartup hx (by simp) (.inr ⟨rfl, rfl⟩))
      | error => exact .aside (aside_setStartup hx (by simp) (.inl rfl))
    · cases he
  case startupFailed =>
    split at he
    · next hx => cases he; exact .startupFailed hx _
    · cases he
  case startupStopped =>
    split at he
    · next hx =>
      split at he
      · cases he; exact .aside (aside_setStartup hx (by simp) (.inl rfl))
      · cases he
    · cases he
  case startupReady =>
    split at he
    · next hx => cases he; exact .aside (aside_setStartup hx (by simp) (.inl rfl))
    · cases he
  case startupDone =>
    split at he
    · next sid _ g r hx =>
      cases he
      have h := aside_setStartup (y := ⟨g, .done r⟩) hx (by simp) (.inl rfl)
      exact .aside { h with }
    · cases he
  case reap =>
    split at he
    · next x hx =>
      split at he
      · next hp =>
        cases he
        have hr : terminationRunnable x = true := by rw [terminationRunnable, hp]; rfl
        unfold reapGroup
        split
        · exact .aside ((aside_signalProcessGroup s _ _).trans
            (aside_setTermination (by simpa using hx) (.inr hr)))
        · exact .aside (aside_setTermination hx (.inr hr))
      · cases he
    · cases he
  case terminated =>
    split at he
    · next x hx =>
      split at he
      · next hp =>
        cases he
        exact .aside (aside_terminationEnds hx (by rw [terminationRunnable, hp]; rfl))
      · cases he
    · cases he
  case reject =>
    split at he
    · next x hx =>
      split at he
      · cases he
        obtain rfl : x.request = _ := by simpa using List.find?_some hx
        exact .reject (List.mem_of_find?_eq_some hx)
      · cases he
    · cases he
  case resume =>
    split at he
    · next hx =>
      split at he
      · next hr => cases he; exact change_resume hx _ hr
      · cases he
    · cases he
  case shutdownStarted =>
    split at he
    · next hs =>
      split at he
      · cases he; exact .aside (aside_shutdown (by simp [hs]) _)
      · cases he
    · cases he
  case shutdownStopped =>
    split at he
    · next hs =>
      have hi : s.shutdown ≠ .idle := by simp [hs]
      split at he
      · cases he
        unfold shutdownBridge
        split
        · exact .aside (aside_shutdown hi _)
        · next hc =>
          dsimp only
          split
          · exact .shutdownKill rfl hi true _ _
          · exact .closing rfl hc hi _ _
      · cases he
    · cases he
  case shutdownTerminated =>
    split at he
    · next hs =>
      split at he
      · cases he; exact .aside (aside_shutdown (by simp [hs]) _)
      · cases he
    · cases he
  case shutdownReap =>
    split at he
    · next hs =>
      cases he
      have hi : s.shutdown ≠ .idle := by simp [hs]
      unfold shutdownReaps
      split
      · exact .aside ((aside_signalProcessGroup s _ _).trans (aside_shutdown (by simpa using hi) _))
      · exact .aside (aside_shutdown hi _)
    · cases he
  case shutdownWriteError =>
    split at he
    · cases he
    · cases he
    · cases he
    · next hi _ _ =>
      cases he
      exact .shutdownKill rfl hi s.stopping s.shutdown s.kill.shutdown

theorem change_task {e : Event} (hq : s.quiet = true) (he : s.stepTask e = some t) :
    Change s e t := by
  have hf := noneFailed_of_quiet hq
  cases e <;> simp only [stepTask, reduceCtorEq] at he
  case uv =>
    obtain ⟨x, -, rfl⟩ := Option.map_eq_some_iff.mp he
    have hset : ∀ (l : List Provision) (p : Option Nat),
        Aside s { s with provisions := l, provisioning := p } := fun _ _ =>
      { (Kept.refl s).aside rfl with }
    unfold uvEnds
    dsimp only
    split
    · exact .aside (hset _ s.provisioning)
    · split
      · exact .aside (hset _ _)
      · exact .aside (hset _ s.provisioning)
    · exact .aside (hset _ s.provisioning)
    · split <;> exact .aside (hset _ _)
    · exact .aside ((Kept.refl s).aside rfl)
  case stderr =>
    split at he
    · cases he; exact .aside ((kept_addStderr _ _).aside (by rw [(s.addStderr_eq _).choose_spec]))
    · cases he
  case exit =>
    split at he
    · cases he
      refine .aside { (Kept.refl s).aside rfl with
        bridges := List.length_modify _ _ _
        gone := fun c => gone_modify fun b => rfl
        terminated := fun c => ?_ }
      change ((s.bridges.modify _ _)[c]?).any _ = ((s.bridges)[c]?).any _
      rw [List.getElem?_modify]
      split <;> cases s.bridges[c]? <;> rfl
    · cases he
  case error =>
    split at he
    · cases he; exact .error _ _ _
    · cases he
  case close =>
    split at he
    · split at he
      · cases he
      · cases he
        unfold bridgeCloses
        refine .close hf _ _ _ _ _ _ fun hp => ?_
        split at hp
        · next hs =>
          rw [(handleExit_shutdown _ _ _).1] at hs
          exact fun hi => by cases hs.symm.trans hi
        · rwa [(handleExit_shutdown _ _ _).1] at hp
    · cases he
  case startupTimeout =>
    split at he
    · cases he; exact .startupTimeout _ _
    · cases he
  case timeout =>
    split at he
    · cases he
    next ha =>
    split at he
    · cases he
    next ht =>
    split at he
    · next hr => cases he; subst hr; exact .timeout ha ht
    · cases he
  case grace =>
    split at he
    · cases he
    next ha =>
    split at he
    · next h =>
      obtain ⟨rfl, hi⟩ := h
      obtain ⟨i, hi'⟩ := Option.isSome_iff_exists.mp hi
      cases he
      simp only [graceExpired, ha, hi', ne_eq, not_true_eq_false, if_false]
      exact .grace ha hi _ _
    · cases he
  case force i =>
    split at he
    · next x hx =>
      split at he
      · cases he
        have hu : Aside s ((s.signalProcessGroup x.kernelPgid .sigkill).emit
            (.signalBridge x.child .sigkill)) :=
          ((kept_signalProcessGroup _ _ _).trans (kept_emit _ _)).aside
            (by cases x.kernelPgid <;> rfl)
        have hx' : ((s.signalProcessGroup x.kernelPgid .sigkill).emit
            (.signalBridge x.child .sigkill)).terminations[i]? = some x := by
          simpa [emit] using hx
        have hn := hu.noneFailed hf
        unfold forceExpired
        dsimp only
        split <;> exact .aside (hu.trans (aside_setTermination hx' (.inl hn)))
      · cases he
    · cases he
  case giveUp =>
    split at he
    · next hx =>
      split at he
      · cases he; exact .aside (aside_setTermination hx (.inl hf))
      · cases he
    · cases he
  case reapTimer =>
    split at he
    · next hx =>
      split at he
      · cases he
        unfold reapExpired
        split
        · have hu := aside_signalProcessGroup s
          exact .aside ((hu _ _).trans (aside_setTermination (by simpa using hx)
            (.inl ((hu _ _).noneFailed hf))))
        · exact .aside (aside_setTermination hx (.inl hf))
      · cases he
    · cases he
  case killTimer g =>
    split at he
    · cases he
      have hk : Aside s { s with killTimers := s.killTimers.erase g } :=
        { (Kept.refl s).aside rfl with }
      exact .aside (hk.trans (aside_signalProcessGroup _ _ _))
    · cases he
  case shutdownTimeout =>
    split at he
    · next hs => cases he; exact .shutdownKill rfl (by simp [hs]) s.stopping s.shutdown _
    · cases he
  case shutdownReapTimer =>
    split at he
    · next hs =>
      cases he
      have hi : s.shutdown ≠ .idle := by simp [hs]
      unfold shutdownReapExpired
      split
      · exact .aside ((aside_signalProcessGroup s _ _).trans (aside_shutdown (by simpa using hi) _))
      · exact .aside (aside_shutdown hi _)
    · next hs => cases he; exact .aside (aside_shutdown (by simp [hs]) _)
    · cases he

theorem step_of_job {e : Event} {u : State} (he : s.stepJob e = some u) :
    step s e = some { u with chunk := none } := by
  unfold step
  split
  · cases he
  · rw [he]

theorem step_of_task {e : Event} {u : State} (hj : s.stepJob e = none) (hq : s.quiet = true)
    (he : s.stepTask e = some u) : step s e = some { u with chunk := none } := by
  unfold step
  split
  · cases he
  · rw [hj, if_pos hq, he]; rfl

/-- Every step is one of `Change`, up to the chunk that is being read. -/
theorem step_cases {e : Event} (he : step s e = some t) :
    ∃ u k, t = { u with chunk := k } ∧ Change s e u := by
  unfold step at he
  split at he
  · split at he
    · cases he; exact ⟨_, _, rfl, .line rfl (s.handleLine_cases _ _ _)⟩
    · cases he
  · split at he
    · next hj => cases he; exact ⟨_, _, rfl, change_job hj⟩
    · split at he
      · next hq =>
        obtain ⟨u, hu, rfl⟩ := Option.map_eq_some_iff.mp he
        exact ⟨u, none, rfl, change_task hq hu⟩
      · cases he

end State

end PiIpython.Runtime
