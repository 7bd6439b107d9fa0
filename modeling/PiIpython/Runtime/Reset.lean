import PiIpython.Runtime.Hanging

/-!
# The reset notice

An observer beside the runtime notes which bridges completed their startup and
whether a kernel was lost since the last `execute` that resolved. A resolved
`execute` must report exactly what the observer noted (`Exact`).
`exact_of_informed` says in which runs every step does.
-/

namespace PiIpython.Runtime

open Text

namespace State

variable (s t : State)

/-- The runtime can send requests to the bridge. -/
def usable (c : BridgeId) : Bool := s.child = some c && s.ready

/-- The bridges whose ready waiter was just resolved: their `start` resolves. -/
def readied : List BridgeId :=
  s.startups.filterMap fun x => match x.phase with
    | .ready c => some c
    | _ => none

/-- `shutdown` stops the bridge itself, or waits for its exit. -/
def byShutdown : Event → Bool
  | .error .. => s.disposed && s.stopping
  | .close .. => s.disposed && s.stopping
  | e => e.ofShutdown

/-- An `execute` whose call holds the flag `b` resolves. -/
def Reports (b : Bool) : Prop :=
  ∃ x ∈ s.calls, ∃ r v, x.phase = .requested r b ∧ s.requests[r]? = some none ∧
    t.requests[r]? = some (some (.resolved v))

/-- The promise of a request is resolved in the step. -/
def resolvesRequest (r : Nat) : Bool :=
  match s.requests[r]?, t.requests[r]? with
  | some none, some (some (.resolved _)) => true
  | _, _ => false

/-- Some `execute` resolves in the step. -/
def resolving : Bool :=
  s.calls.any fun x => match x.phase with
    | .requested r _ => s.resolvesRequest t r
    | _ => false

end State

/-- What the observer notes. -/
structure Observer where
  completed : List BridgeId
  /-- A kernel was lost since the last `execute` that resolved. -/
  lost : Bool

/-- The step takes a completed bridge out of use, and not for `shutdown`. -/
def Observer.loses (o : Observer) (s : State) (e : Event) (t : State) : Bool :=
  ! s.byShutdown e && o.completed.any fun c => s.usable c && ! t.usable c

def Observer.note (o : Observer) (s : State) (e : Event) (t : State) : Observer :=
  ⟨o.completed ++ t.readied, (o.lost && ! s.resolving t) || o.loses s e t⟩

/-- The runtime and its observer. -/
def watch (w : State × Observer) (e : Event) : Option (State × Observer) :=
  (step w.1 e).map fun t => (t, w.2.note w.1 e t)

/-- **An `execute` that resolves in the step reports a reset exactly when a kernel was lost since
the last one that resolved**. -/
def Exact (w : State × Observer) (e : Event) : Prop :=
  ∀ t b, step w.1 e = some t → w.1.Reports t b → b = w.2.lost

namespace State

variable (s : State)

/-- A `kill` takes the bridge out of use if it is in use. -/
def killable : Prop := s.ready = true → s.stoppingPromise = none

/-- The call is an `execute` whose start is over, with its signal. -/
def begun (k : Nat) : Option Signal :=
  (s.calls[k]?).bind fun x => match x.kind, x.phase with
    | .execute .., .started => some x.signal
    | _, _ => none

/-- A line of the kind leaves the notice right. A bad `kernel_started` or `ready` line does not stop
a bridge in use, and a bridge becomes ready only while its startup waits for it and before it is
stopped. -/
def informedLine (c : BridgeId) : LineKind → Prop
  | .refused => s.ready = true → s.stoppingPromise ≠ none
  | .announced => s.ready = false → s.readyWaiter ≠ none ∧ s.terminated c = false
  | .failed => s.killable
  | .other => True

/-- The steps after which the notice still says what happened. Beside the lines: a bridge in use
fails only while no termination of an earlier one goes on, and an `execute` that takes the notice
has its request accepted. -/
def Informed (s : State) : Event → Prop
  | .line c text _ => s.informedLine c (s.lineKind c text)
  | .stdinError c _ => s.child = some c → s.killable
  | .writeError _ => s.killable
  | .evaluate _ _ signal thrown =>
    thrown.isSome = true → s.accepts ⟨signal, true⟩ = true → s.killable
  | .resume k thrown => ∀ g ∈ s.begun k,
    (s.pendingResetNotice = true → s.disposed = true ∨ s.accepts g = true) ∧
      (thrown.isSome = true → s.accepts g = true → s.killable)
  | .grace _ => s.killable
  | _ => True

instance (s : State) : Decidable s.killable := inferInstanceAs (Decidable (_ → _))

instance (s : State) (c : BridgeId) : ∀ k, Decidable (s.informedLine c k)
  | .refused => inferInstanceAs (Decidable (_ → _))
  | .announced => inferInstanceAs (Decidable (_ → _))
  | .failed => inferInstanceAs (Decidable (killable _))
  | .other => isTrue trivial

instance (s : State) : ∀ e, Decidable (s.Informed e)
  | .line c text _ => inferInstanceAs (Decidable (s.informedLine c (s.lineKind c text)))
  | .stdinError .. => inferInstanceAs (Decidable (_ → _))
  | .writeError .. => inferInstanceAs (Decidable (killable _))
  | .evaluate .. => inferInstanceAs (Decidable (_ → _ → _))
  | .resume k _ => inferInstanceAs (Decidable (∀ g ∈ s.begun k, (_ → _ ∨ _) ∧ (_ → _ → _)))
  | .grace .. => inferInstanceAs (Decidable (killable _))
  | .start .. | .execute .. | .getConnectionFile .. | .shutdown | .abort .. | .uv ..
  | .listened .. | .stderr .. | .exit .. | .error .. | .close .. | .startupTimeout ..
  | .timeout .. | .force .. | .giveUp .. | .reapTimer .. | .killTimer ..
  | .shutdownTimeout | .shutdownWriteError | .shutdownReapTimer .. | .runtimeReady ..
  | .startupFailed .. | .startupStopped .. | .startupReady .. | .startupDone .. | .reap ..
  | .terminated .. | .reject .. | .shutdownStarted | .shutdownStopped .. | .shutdownTerminated
  | .shutdownReap .. => isTrue trivial

end State

open State

/-- The startup is under way and its bridge is not ready. -/
def Startup.unready (x : Startup) : Bool :=
  match x.phase with
  | .ready _ => false
  | .settled _ => false
  | .done _ => false
  | _ => true

theorem Startup.unready_of_over {x : Startup} (h : x.over = true) : x.unready = false := by
  obtain ⟨g, p⟩ := x
  cases p <;> simp_all [Startup.over, Startup.unready]

theorem Startup.unready_of_early {x : Startup} (h : x.early = true) : x.unready = true := by
  obtain ⟨g, p⟩ := x
  cases p <;> simp_all [Startup.early, Startup.unready]

/-- The request in progress is that of an `execute` with the flag `b`. -/
def State.Carries (s : State) (b : Bool) : Prop :=
  ∃ a, s.active = some a ∧ ∃ x ∈ s.calls, x.phase = .requested a.request b

/-- **What ties the runtime to its observer**. A bridge in use completed its startup and is not being
stopped; a request in progress is on it; and what the observer noted is in the notice, or with the
`execute` that took it. After `shutdown` no further `execute` is accepted. -/
structure Tracked (s : State) (o : Observer) : Prop where
  early : ∀ x ∈ s.startups, x.unready = true → s.ready = false
  up : s.ready = true → ∃ c, s.child = some c ∧ c ∈ o.completed ∧ s.terminated c = false
  halted : s.ready = true → s.stopping = true → s.disposed = true
  waiter : ∀ {sid : Nat}, s.readyWaiter = some sid →
    ∃ g c, s.startups[sid]? = some ⟨g, .waiting c⟩ ∧ s.child = some c
  active : ∀ {a : Active}, s.active = some a → s.disposed = false →
    s.ready = true ∧ s.child = some a.bridge
  carried : ∀ {b : Bool}, s.Carries b →
    b = o.lost ∧ (s.disposed = false → s.pendingResetNotice = false)
  idle : s.disposed = false → (∀ b, ¬ s.Carries b) → o.lost = s.pendingResetNotice
  fresh : ∀ x ∈ s.calls, ∀ {r b}, x.phase = .requested r b → r < s.requests.length

theorem tracked_init : Tracked State.init ⟨[], false⟩ :=
  ⟨by simp [State.init], by simp [State.init], by simp [State.init], by simp [State.init],
    by simp [State.init], by simp [Carries, State.init], by simp [State.init],
    by simp [State.init]⟩

/-! ## What the observer notes -/

theorem resolving_eq_false {s t : State} (h : ∀ r, s.resolvesRequest t r = false) :
    s.resolving t = false := by
  rw [State.resolving, List.any_eq_false]
  intro x _
  cases x.phase <;> simp [h]

theorem not_reports {s t : State} {b : Bool} (h : ∀ r, s.resolvesRequest t r = false) :
    ¬ s.Reports t b := by
  rintro ⟨x, -, r, v, -, h1, h2⟩
  have hr := h r
  rw [State.resolvesRequest, h1, h2] at hr
  cases hr

theorem resolvesRequest_congr {s t u : State} (h : t.requests = u.requests) (r : Nat) :
    s.resolvesRequest t r = s.resolvesRequest u r := by
  rw [State.resolvesRequest, State.resolvesRequest, h]

theorem resolvesRequest_of_eq {s t : State} (h : t.requests = s.requests) (r : Nat) :
    s.resolvesRequest t r = false := by
  rw [State.resolvesRequest, h]
  rcases s.requests[r]? with _ | _ | x <;> rfl

theorem resolvesRequest_settle {s t : State} (h : t.requests = s.requests) (q r : Nat) (m : JsStr) :
    s.resolvesRequest (t.settle q (.rejected m)) r = false := by
  rw [State.resolvesRequest, settle_eq, h]
  by_cases hq : q = r
  · subst hq
    rw [List.getElem?_modify_eq]
    rcases s.requests[q]? with _ | _ | x <;> rfl
  · rw [List.getElem?_modify_ne _ _ hq]
    rcases s.requests[r]? with _ | _ | x <;> rfl

theorem resolvesRequest_append {s t : State} {l : List (Option Settled)}
    (h : t.requests = s.requests ++ l) (r : Nat) : s.resolvesRequest t r = false := by
  rw [State.resolvesRequest, h]
  cases hr : s.requests[r]? with
  | none => rfl
  | some x =>
    rw [List.getElem?_append_left (List.getElem?_eq_some_iff.mp hr).1, hr]
    cases x <;> rfl

theorem resolvesRequest_failActive {s t : State} (h : t.requests = s.requests) (m : JsStr)
    (r : Nat) : s.resolvesRequest (t.failActive m) r = false := by
  rcases t.failActive_cases m with ⟨-, he⟩ | ⟨a, -, he⟩
  · rw [he]; exact resolvesRequest_of_eq h r
  · rw [he]; exact resolvesRequest_settle (t := { t with active := none }) h _ _ _

/-- A bridge that stays in use is not lost. -/
theorem loses_eq_false {o : Observer} {s t : State} {e : Event}
    (h : ∀ c, s.usable c = true → t.usable c = true) : o.loses s e t = false := by
  rw [Observer.loses, Bool.and_eq_false_iff]
  refine .inr (List.any_eq_false.mpr fun c _ hc => ?_)
  rw [Bool.and_eq_true] at hc
  rw [h c hc.1] at hc
  cases hc.2

theorem loses_of_not_ready {o : Observer} {s t : State} {e : Event} (h : s.ready = false) :
    o.loses s e t = false :=
  loses_eq_false fun c hc => by simp [State.usable, h] at hc

theorem loses_of_byShutdown {o : Observer} {s t : State} {e : Event} (h : s.byShutdown e = true) :
    o.loses s e t = false := by
  rw [Observer.loses, h]; rfl

/-- A kernel in use that is gone after the step is lost, unless `shutdown` stopped it. -/
theorem Tracked.loses {s t : State} {o : Observer} {e : Event} (h : Tracked s o)
    (hs : s.ready = true) (ht : t.ready = false) (he : s.byShutdown e = false) :
    o.loses s e t = true := by
  obtain ⟨c, hc, ho, -⟩ := h.up hs
  rw [Observer.loses, he]
  exact List.any_eq_true.mpr ⟨c, ho, by simp [State.usable, hc, hs, ht]⟩

/-! ## Steps under which the runtime stays in use -/

/-- Nothing that the observer notes happens in the step. -/
structure Steady (s t : State) : Prop where
  child : t.child = s.child
  ready : t.ready = s.ready
  terminated : ∀ c, s.ready = true → s.child = some c → t.terminated c = s.terminated c
  stopping : s.ready = true → t.stopping = true → s.stopping = true ∨ t.disposed = true
  disposed : t.disposed = false → s.disposed = false
  notice : t.pendingResetNotice = s.pendingResetNotice
  active : t.active.map (fun a => (a.request, a.bridge)) =
    s.active.map fun a => (a.request, a.bridge)
  calls : ∀ {x : Call}, x.requested = true → (x ∈ t.calls ↔ x ∈ s.calls)
  requests : ∀ r, s.resolvesRequest t r = false
  length : s.requests.length ≤ t.requests.length
  early : ∀ x ∈ t.startups, x.unready = true →
    (∃ y ∈ s.startups, y.unready = true) ∨ s.ready = false
  waiter : ∀ {sid : Nat}, t.readyWaiter = some sid → s.readyWaiter = some sid ∧
    ∀ {g : Signal} {c : BridgeId}, s.startups[sid]? = some ⟨g, .waiting c⟩ →
      t.startups[sid]? = some ⟨g, .waiting c⟩

theorem requested_of_phase {x : Call} {r : Nat} {b : Bool} (h : x.phase = .requested r b) :
    x.requested = true := by
  rw [Call.requested, h]

theorem Steady.carries {s t : State} (h : Steady s t) {b : Bool} : t.Carries b ↔ s.Carries b := by
  have hmap : ∀ {s t : State}, t.active.map (fun a => (a.request, a.bridge)) =
      s.active.map (fun a => (a.request, a.bridge)) → ∀ {a : Active}, t.active = some a →
      ∃ b, s.active = some b ∧ b.request = a.request := by
    intro s t he a ha
    rw [ha] at he
    obtain ⟨b, hb, hp⟩ := Option.map_eq_some_iff.mp he.symm
    exact ⟨b, hb, congrArg Prod.fst hp⟩
  constructor
  · rintro ⟨a, ha, x, hx, hp⟩
    obtain ⟨c, hc, he⟩ := hmap h.active ha
    exact ⟨c, hc, x, (h.calls (requested_of_phase hp)).mp hx, by rw [hp, he]⟩
  · rintro ⟨a, ha, x, hx, hp⟩
    obtain ⟨c, hc, he⟩ := hmap h.active.symm ha
    exact ⟨c, hc, x, (h.calls (requested_of_phase hp)).mpr hx, by rw [hp, he]⟩

theorem Tracked.steady {s t : State} {o : Observer} {e : Event} (h : Tracked s o)
    (hs : Steady s t) : Tracked t (o.note s e t) := by
  have hlost : (o.note s e t).lost = o.lost := by
    have hl : o.loses s e t = false := loses_eq_false fun c hc => by
      rwa [State.usable, hs.child, hs.ready]
    simp [Observer.note, resolving_eq_false hs.requests, hl]
  refine ⟨fun x hx hu => ?_, fun hr => ?_, fun hr hst => ?_, fun hw => ?_, fun {a} ha hd => ?_,
    fun hb => ?_, fun hd hn => ?_, fun x hx {r b} hp => ?_⟩
  · rw [hs.ready]
    rcases hs.early x hx hu with ⟨y, hy, hyu⟩ | hr
    · exact h.early y hy hyu
    · exact hr
  · rw [hs.ready] at hr
    obtain ⟨c, hc, ho, ht⟩ := h.up hr
    exact ⟨c, by rwa [hs.child], List.mem_append_left _ ho, by rwa [hs.terminated c hr hc]⟩
  · rw [hs.ready] at hr
    rcases hs.stopping hr hst with hst | hd
    · have hd := h.halted hr hst
      by_contra hn
      rw [hs.disposed (by simpa using hn)] at hd
      cases hd
    · exact hd
  · obtain ⟨hw, hst⟩ := hs.waiter hw
    obtain ⟨g, c, hx, hc⟩ := h.waiter hw
    exact ⟨g, c, hst hx, by rwa [hs.child]⟩
  · have he := hs.active
    rw [ha] at he
    obtain ⟨b, hb, hp⟩ := Option.map_eq_some_iff.mp he.symm
    obtain ⟨h1, h2⟩ := h.active hb (hs.disposed hd)
    exact ⟨by rwa [hs.ready], by rw [hs.child, h2, (Prod.mk.inj hp).2]⟩
  · obtain ⟨h1, h2⟩ := h.carried (hs.carries.mp hb)
    exact ⟨by rw [hlost]; exact h1, fun hd => by rw [hs.notice]; exact h2 (hs.disposed hd)⟩
  · rw [hlost, hs.notice]
    exact h.idle (hs.disposed hd) fun b hb => hn b (hs.carries.mpr hb)
  · exact lt_of_lt_of_le (h.fresh x ((hs.calls (requested_of_phase hp)).mp hx) hp) hs.length

/-! ## Steps after which no bridge is in use -/

/-- The request in progress fails, and a bridge in use is lost. -/
theorem Tracked.fail {s t : State} {o : Observer} {e : Event} (h : Tracked s o)
    (he : s.disposed = false → s.byShutdown e = false) (hr : t.ready = false)
    (ha : t.active = none) (hd : t.disposed = s.disposed)
    (hn : s.ready = true → t.pendingResetNotice = true)
    (hn' : s.ready = false → s.active = none → t.pendingResetNotice = s.pendingResetNotice)
    (hq : ∀ r, s.resolvesRequest t r = false)
    (hw : ∀ {sid : Nat}, t.readyWaiter = some sid →
      ∃ g c, t.startups[sid]? = some ⟨g, .waiting c⟩ ∧ t.child = some c)
    (hf : ∀ x ∈ t.calls, ∀ {r b}, x.phase = .requested r b → r < t.requests.length) :
    Tracked t (o.note s e t) := by
  have hc : ∀ b, ¬ t.Carries b := by
    rintro b ⟨a, h1, -⟩
    cases ha.symm.trans h1
  refine ⟨fun _ _ _ => hr, by simp [hr], by simp [hr], hw, by simp [ha],
    fun hb => absurd hb (hc _), fun h1 _ => ?_, hf⟩
  rw [hd] at h1
  have hres := resolving_eq_false hq
  cases hs : s.ready with
  | true => simp [Observer.note, h.loses hs hr (he h1), hn hs]
  | false =>
    have hnone : s.active = none := by
      by_contra hne
      obtain ⟨a, ha⟩ := Option.ne_none_iff_exists'.mp hne
      cases hs.symm.trans (h.active ha h1).1
    have hidle := h.idle h1 fun b ⟨a, ha, _⟩ => by cases hnone.symm.trans ha
    simp [Observer.note, hres, loses_of_not_ready hs, hidle, hn' hs hnone]

/-! ## Which steps are which -/

theorem State.Aside.steady {s t : State} (h : Aside s t) (hup : s.ready = true → s.child.isSome = true) :
    Steady s t where
  child := h.child
  ready := h.ready
  terminated c _ _ := h.terminated c
  stopping _ hs := .inl (by rwa [← h.stopping])
  disposed hd := by rwa [← h.disposed]
  notice := h.notice
  active := by rw [h.active]
  calls {x} hx := by
    simp only [List.mem_iff_getElem?, h.requested hx]
  requests := resolvesRequest_of_eq h.requests
  length := by rw [h.requests]
  early x hx hu := by
    obtain ⟨i, hi⟩ := List.mem_iff_getElem?.mp hx
    rcases h.startup hi with hi | ho | ⟨-, ⟨y, hy, he⟩ | hn⟩
    · exact .inl ⟨x, List.mem_of_getElem? hi, hu⟩
    · cases (Startup.unready_of_over ho).symm.trans hu
    · exact .inl ⟨y, List.mem_of_getElem? hy, Startup.unready_of_early he⟩
    · refine .inr (Bool.eq_false_iff.mpr fun hr => hn ⟨hup hr, hr⟩)
  waiter hw := ⟨by rwa [← h.readyWaiter], h.waiting⟩

theorem State.Kept.steady {s t : State} (h : Kept s t) : Steady s t := by
  have he := h.skeleton
  simp only [State.skeleton, Skeleton.mk.injEq] at he
  obtain ⟨h1, h2, h3, -, -, h6, h7, -⟩ := he
  refine ⟨h1, h2, fun c _ _ => by rw [State.terminated, h6]; rfl,
    fun _ hs => .inl (by rwa [← h.stopping]), fun hd => by rwa [← h.disposed], h.notice, ?_,
    fun _ => by rw [h.calls], resolvesRequest_of_eq h.requests, by rw [h.requests],
    fun x hx hu => .inl ⟨x, by rwa [← h7], hu⟩, fun hw => ⟨by rwa [← h3], by rw [h7]; exact id⟩⟩
  have hrel := h.active
  generalize s.active = x at hrel
  generalize t.active = y at hrel
  cases hrel with
  | none => rfl
  | some hk => simp [hk.request, hk.bridge]

/-- Startups stop waiting for the bridge, which is not ready. -/
theorem State.Ended.steady {s : State} {f : BridgeId → StartupPhase} {w : Option Nat}
    {l : List Startup} (h : s.Ended f w l) : Steady s { s with readyWaiter := w, startups := l } where
  child := rfl
  ready := rfl
  terminated _ _ _ := rfl
  stopping _ hs := .inl hs
  disposed hd := hd
  notice := rfl
  active := rfl
  calls _ := Iff.rfl
  requests := resolvesRequest_of_eq rfl
  length := le_refl _
  early x hx hu := by
    obtain ⟨i, hi⟩ := List.mem_iff_getElem?.mp hx
    rcases h.startup hi with hi | ⟨c, hi, -⟩
    · exact .inl ⟨x, List.mem_of_getElem? hi, hu⟩
    · exact .inl ⟨_, List.mem_of_getElem? hi, rfl⟩
  waiter hw := by
    rcases h.waiter with hn | ⟨hn, rfl⟩
    · cases hn.symm.trans hw
    · exact ⟨hn.symm.trans hw, id⟩

theorem Steady.trans {s t u : State} (h : Steady s t) (k : Steady t u)
    (hr : t.requests = s.requests) : Steady s u where
  child := k.child.trans h.child
  ready := k.ready.trans h.ready
  terminated c hs hc := (k.terminated c (h.ready.trans hs) (h.child.trans hc)).trans
    (h.terminated c hs hc)
  stopping hr hs := by
    rcases k.stopping (h.ready.trans hr) hs with hs | hd
    · refine (h.stopping hr hs).imp id fun hd => ?_
      by_contra hn
      rw [k.disposed (by simpa using hn)] at hd
      cases hd
    · exact .inr hd
  disposed hd := h.disposed (k.disposed hd)
  notice := k.notice.trans h.notice
  active := k.active.trans h.active
  calls hx := (k.calls hx).trans (h.calls hx)
  requests r := by
    have hk := k.requests r
    rwa [State.resolvesRequest, hr] at hk
  length := h.length.trans k.length
  early x hx hu := by
    rcases k.early x hx hu with ⟨y, hy, hyu⟩ | hn
    · exact h.early y hy hyu
    · exact .inr (h.ready.symm.trans hn)
  waiter hw := by
    obtain ⟨hw, h1⟩ := k.waiter hw
    obtain ⟨hw, h2⟩ := h.waiter hw
    exact ⟨hw, fun hx => h1 (h2 hx)⟩

/-- Stopping the bridge takes it out of use. -/
theorem kill_ready {s : State} (hk : s.killable) (hc : s.ready = true → s.child.isSome = true) :
    s.kill.ready = false := by
  rcases s.terminate_cases with ⟨t, hp, ht⟩ | ⟨-, hn, ht⟩ | ⟨d, l, -, -, ht⟩
  · rw [State.kill, ht, Bool.eq_false_iff]
    exact fun hr => by cases hp.symm.trans (hk hr)
  · rw [State.kill, ht, Bool.eq_false_iff]
    intro hr
    rw [hn] at hc
    cases hc hr
  · rw [State.kill, ht]

/-- A bridge that is not in use may be stopped, and one in use is not while a termination goes
on. -/
theorem kill_steady {s : State} (h : s.ready = true → s.stoppingPromise ≠ none) :
    Steady s s.kill := by
  rcases s.terminate_cases with ⟨t, hp, ht⟩ | ⟨-, hn, ht⟩ | ⟨d, l, hp, -, ht⟩
  · rw [State.kill, ht]; exact (Kept.refl s).steady
  · rw [State.kill, ht]; exact (Kept.refl s).steady
  · have hr : s.ready = false := by
      rw [Bool.eq_false_iff]
      exact fun hr => h hr hp
    rw [State.kill, ht]
    exact ⟨rfl, hr.symm, by simp [hr], by simp [hr], id, rfl, rfl, fun _ => Iff.rfl,
      resolvesRequest_of_eq rfl, le_refl _, fun _ _ _ => .inr hr, fun hw => ⟨hw, id⟩⟩

/-- Failing the request in progress. -/
theorem failActive_frame (s : State) (m : JsStr) : ∃ r,
    s.failActive m = { s with active := none, requests := r } ∧ r.length = s.requests.length ∧
      ∀ q, s.resolvesRequest { s with requests := r } q = false := by
  have hq := resolvesRequest_failActive (s := s) (t := s) rfl m
  rcases s.failActive_cases m with ⟨ha, he⟩ | ⟨a, -, he⟩
  · have hs : s = { s with active := none } := by cases s; simp_all
    exact ⟨s.requests, he.trans hs, rfl, resolvesRequest_of_eq rfl⟩
  · rw [he] at hq
    exact ⟨_, he, List.length_modify _ _ _, hq⟩

/-- What `kill` leaves alone. -/
theorem kill_frame (s : State) : s.kill.child = s.child ∧ s.kill.readyWaiter = s.readyWaiter ∧
    s.kill.startups = s.startups ∧ s.kill.calls = s.calls ∧
    s.kill.pendingResetNotice = s.pendingResetNotice := by
  rcases s.terminate_cases with ⟨t, hp, ht⟩ | ⟨-, hn, ht⟩ | ⟨d, l, -, -, ht⟩ <;>
    rw [State.kill, ht] <;> exact ⟨rfl, rfl, rfl, rfl, rfl⟩

theorem Tracked.child {s : State} {o : Observer} (h : Tracked s o) (hr : s.ready = true) :
    s.child.isSome = true := by
  obtain ⟨c, hc, -⟩ := h.up hr
  simp [hc]

/-- The bridge is stopped after its request failed. -/
theorem Tracked.failKill {s u : State} {o : Observer} {e : Event} (h : Tracked s o)
    (hk : s.killable) (he : s.disposed = false → s.byShutdown e = false) (hr : u.ready = s.ready)
    (hp : u.stoppingPromise = s.stoppingPromise) (hc : u.child = s.child) (ha : u.active = none)
    (hd : u.disposed = s.disposed) (hn : s.ready = true → u.pendingResetNotice = true)
    (hn' : s.ready = false → s.active = none → u.pendingResetNotice = s.pendingResetNotice)
    (hq : ∀ r, s.resolvesRequest u r = false)
    (hw : ∀ {sid : Nat}, u.readyWaiter = some sid →
      ∃ g c, u.startups[sid]? = some ⟨g, .waiting c⟩ ∧ u.child = some c)
    (hf : ∀ x ∈ u.calls, ∀ {r b}, x.phase = .requested r b → r < u.requests.length) :
    Tracked u.kill (o.note s e u.kill) := by
  obtain ⟨h1, h2, h3, h4, h5⟩ := kill_frame u
  refine h.fail he (kill_ready (fun hu => ?_) fun hu => ?_) ((kill_active u).trans ha)
    ((kill_disposed u).trans hd) (fun hs => h5.trans (hn hs)) (fun hs ha => h5.trans (hn' hs ha))
    (fun r => ?_) (fun hw' => ?_) fun x hx => ?_
  · rw [hp]; exact hk (hr ▸ hu)
  · rw [hc]; exact h.child (hr ▸ hu)
  · have hqr := hq r
    rwa [State.resolvesRequest, ← kill_requests u] at hqr
  · rw [h1, h3]; exact hw (h2 ▸ hw')
  · rw [kill_requests]; exact hf x (h4 ▸ hx)

/-- The waiter of a runtime whose startups stopped waiting. -/
theorem Tracked.waiter_ended {s : State} {o : Observer} (h : Tracked s o)
    {f : BridgeId → StartupPhase} {w : Option Nat} {l : List Startup} (hl : s.Ended f w l)
    {sid : Nat} (hw : w = some sid) : ∃ g c, l[sid]? = some ⟨g, .waiting c⟩ ∧ s.child = some c := by
  rcases hl.waiter with hn | ⟨rfl, rfl⟩
  · cases hn.symm.trans hw
  · exact h.waiter hw

/-- The bridge of the startup that waits for it is ready. -/
theorem Tracked.announced {s : State} {o : Observer} {e : Event} (h : Tracked s o) (hs : Shape s)
    (hg : Guarded s) {c : BridgeId} (hc : s.child = some c)
    (hi : s.ready = false → s.readyWaiter ≠ none ∧ s.terminated c = false) (p : Int) (f : JsStr) :
    let t : State := { s with
      kernelPgid := some p
      kernelConnectionFile := some f
      ready := true
      generation := s.generation + 1 }.resolveReady
    Tracked t (o.note s e t) ∧ ∀ r, s.resolvesRequest t r = false := by
  cases hr : s.ready with
  | true =>
    have hw : s.readyWaiter = none := by
      by_contra hn
      obtain ⟨sid, hw⟩ := Option.ne_none_iff_exists'.mp hn
      obtain ⟨g, d, hx, -⟩ := h.waiter hw
      cases hr.symm.trans (hs.waiting hx).2
    have he : { s with
        kernelPgid := some p, kernelConnectionFile := some f, ready := true
        generation := s.generation + 1 }.resolveReady = { s with
        kernelPgid := some p, kernelConnectionFile := some f, ready := true
        generation := s.generation + 1 } := by
      simp only [resolveReady, hw]
    rw [he]
    have hst : Steady s { s with
        kernelPgid := some p, kernelConnectionFile := some f, ready := true
        generation := s.generation + 1 } :=
      ⟨rfl, hr.symm, fun _ _ _ => rfl, fun _ => .inl, id, rfl, rfl, fun _ => Iff.rfl,
        resolvesRequest_of_eq rfl, le_refl _, fun x hx hu => .inl ⟨x, hx, hu⟩, fun hw => ⟨hw, id⟩⟩
    exact ⟨h.steady hst, hst.requests⟩
  | false =>
    obtain ⟨hw, ht⟩ := hi hr
    obtain ⟨sid, hw⟩ := Option.ne_none_iff_exists'.mp hw
    obtain ⟨g, d, hx, hd⟩ := h.waiter hw
    obtain rfl : c = d := Option.some.inj (hc.symm.trans hd)
    have he : { s with
        kernelPgid := some p, kernelConnectionFile := some f, ready := true
        generation := s.generation + 1 }.resolveReady = { s with
        kernelPgid := some p, kernelConnectionFile := some f, ready := true
        generation := s.generation + 1, readyWaiter := none
        startups := s.startups.set sid ⟨g, .ready c⟩ } := by
      simp only [resolveReady, hw, finishStartup, hx]
    rw [he]
    have hl : sid < s.startups.length := (List.getElem?_eq_some_iff.mp hx).1
    have hlost : ∀ t : State, t.requests = s.requests → (o.note s e t).lost = o.lost := by
      intro t ht
      simp [Observer.note, resolving_eq_false (resolvesRequest_of_eq ht), loses_of_not_ready hr]
    refine ⟨⟨fun x hxm hu => ?_, fun _ => ⟨c, hc, ?_, ht⟩, fun _ hst => ?_, by simp, ?_, ?_, ?_,
      h.fresh⟩, resolvesRequest_of_eq rfl⟩
    · obtain ⟨i, hi⟩ := List.mem_iff_getElem?.mp hxm
      have hrun := hs.running hx (by simp)
      by_cases hsi : sid = i
      · subst hsi
        rw [List.getElem?_set_self hl] at hi
        cases hi
        cases hu
      · rw [List.getElem?_set_ne hsi] at hi
        refine absurd (Option.some.inj (hrun.symm.trans (hs.running hi fun r hp => ?_))) hsi
        rw [Startup.unready, hp] at hu
        cases hu
    · refine List.mem_append_right _ (List.mem_filterMap.mpr ⟨⟨g, .ready c⟩, ?_, rfl⟩)
      exact List.mem_of_getElem? (List.getElem?_set_self hl)
    · exact (hg.expected hst hc).resolve_left (by simp [ht])
    · intro a ha hd
      cases hr.symm.trans (h.active ha hd).1
    · intro b hb
      rw [hlost _ (by rfl)]
      exact h.carried hb
    · intro hd hn
      rw [hlost _ (by rfl)]
      exact h.idle hd hn

/-- The result of the request in progress: an `execute` that holds the notice reports it. -/
theorem Tracked.result {s : State} {o : Observer} {e : Event} (h : Tracked s o) (hl : Ledger s)
    {a : Active} (ha : s.active = some a) (v : ProtocolResult) :
    let t : State := { s with active := none }.settle a.request (.resolved v)
    Tracked t (o.note s e t) ∧ ∀ b, s.Reports t b → b = o.lost := by
  intro t
  have hp := (hl.pending ha).1
  have ht : t.requests = s.requests.modify a.request fun y => y.or (some (.resolved v)) := rfl
  have hself : s.resolvesRequest t a.request = true := by
    rw [State.resolvesRequest, ht, List.getElem?_modify_eq, hp]; rfl
  have hother : ∀ {r : Nat}, s.resolvesRequest t r = true → r = a.request := by
    intro r hr
    by_contra hne
    rw [State.resolvesRequest, ht, List.getElem?_modify_ne _ _ (Ne.symm hne)] at hr
    have hq := resolvesRequest_of_eq (s := s) (t := s) rfl r
    rw [State.resolvesRequest] at hq
    cases hq.symm.trans hr
  have hrep : ∀ {b : Bool}, s.Reports t b → s.Carries b := by
    rintro b ⟨x, hx, r, w, hxp, h1, h2⟩
    have hr := hother (r := r) (by rw [State.resolvesRequest, h1, h2])
    exact ⟨a, ha, x, hx, hr ▸ hxp⟩
  have hnl : o.loses s e t = false := loses_eq_false fun c hc => hc
  refine ⟨⟨h.early, fun hr => ?_, h.halted, h.waiter, fun hn => (nomatch hn), ?_, fun hd _ => ?_,
    fun x hx {r b} hxp => ?_⟩, fun b hb => (h.carried (hrep hb)).1⟩
  · obtain ⟨c, hc, ho, hct⟩ := h.up hr
    exact ⟨c, hc, List.mem_append_left _ ho, hct⟩
  · rintro b ⟨c, hc, -⟩
    cases hc
  · change (o.lost && ! s.resolving t || o.loses s e t) = s.pendingResetNotice
    rw [hnl, Bool.or_false]
    cases hres : s.resolving t with
    | true =>
      obtain ⟨x, hx, hxr⟩ := List.any_eq_true.mp hres
      split at hxr
      · next r b hxp =>
        obtain rfl := hother hxr
        rw [(h.carried ⟨a, ha, x, hx, hxp⟩).2 hd]
        simp
      · cases hxr
    | false =>
      have hidle := h.idle hd fun b ⟨c, hc, x, hx, hxp⟩ => by
        cases ha.symm.trans hc
        have hxr := List.any_eq_false.mp hres x hx
        rw [hxp] at hxr
        exact hxr hself
      simpa using hidle
  · rw [ht, List.length_modify]
    exact h.fresh x hx hxp

theorem Tracked.line {s t : State} {o : Observer} (h : Tracked s o) (hs : Shape s)
    (hl : Ledger s) (hg : Guarded s) {c : BridgeId} {text : JsStr} {disk : Disk} {k : LineKind}
    (hk : s.lineKind c text = k) (hi : s.Informed (.line c text disk)) (hc : LineCase s k t) :
    Tracked t (o.note s (.line c text disk) t) ∧ ∀ b, s.Reports t b → b = o.lost := by
  simp only [State.Informed, hk] at hi
  have hnot : (∀ r, s.resolvesRequest t r = false) → ∀ b, s.Reports t b → b = o.lost :=
    fun hq b hb => absurd hb (not_reports hq)
  cases hc with
  | kept hkept => exact ⟨h.steady hkept.steady, hnot hkept.steady.requests⟩
  | lost e m =>
    obtain ⟨w, l, hw, he⟩ := s.rejectReady_eq e
    obtain ⟨r, hf, hlen, hq⟩ := failActive_frame { s with readyWaiter := w, startups := l } m
    rw [he, hf] at hnot ⊢
    have hqk : ∀ q, s.resolvesRequest ({ s with
        readyWaiter := w, startups := l, active := none, requests := r }.noteReset.kill) q = false :=
      fun q => (resolvesRequest_congr (kill_requests _) q).trans (hq q)
    refine ⟨h.failKill hi (fun _ => rfl) rfl rfl rfl rfl rfl (fun hr => ?_) (fun hr _ => ?_) hq
      (fun hw' => h.waiter_ended hw hw') fun x hx => ?_, hnot hqk⟩
    · exact Bool.or_eq_true_iff.mpr (.inr hr)
    · exact (congrArg (s.pendingResetNotice || ·) hr).trans (Bool.or_false _)
    · exact hlen ▸ h.fresh x hx
  | refused e =>
    obtain ⟨w, l, hw, he⟩ := s.rejectReady_eq e
    rw [he] at hnot ⊢
    have hst := hw.steady.trans (kill_steady (s := { s with readyWaiter := w, startups := l }) hi) rfl
    exact ⟨h.steady hst, hnot hst.requests⟩
  | announced g f =>
    have hcc : s.child = some c :=
      child_of_lineKind (show s.lineKind c text ≠ .other by rw [hk]; simp)
    obtain ⟨h1, h2⟩ := h.announced (e := .line c text disk) hs hg hcc hi g f
    exact ⟨h1, hnot h2⟩
  | @bridgeError a ha m =>
    refine ⟨h.failKill hi (fun _ => rfl) rfl rfl rfl rfl rfl (fun _ => rfl) (fun _ hn => ?_)
      (resolvesRequest_settle (t := { s with active := none, pendingResetNotice := true }) rfl _ · _)
      h.waiter fun x hx => ?_, hnot fun q => ?_⟩
    · cases hn.symm.trans ha
    · rw [settle_eq, List.length_modify]; exact h.fresh x hx
    · exact (resolvesRequest_congr (kill_requests _) q).trans (resolvesRequest_settle rfl _ q _)
  | result ha x => exact h.result hl ha x

/-! ## The other steps -/

/-- A request is accepted. An `execute` takes the notice along. -/
theorem Tracked.accept {s : State} {o : Observer} {e : Event} (h : Tracked s o)
    (hr : s.ready = true) (hd : s.disposed = false) (hn : s.active = none) {a : Active}
    (hc : s.child = some a.bridge) (ha : a.request = s.requests.length) {l : List Call} {n : Bool}
    (hl : (∀ x ∈ l, x ∈ s.calls) ∧ n = s.pendingResetNotice ∨
      (∀ x ∈ l, x ∈ s.calls ∨ x.phase = .requested a.request s.pendingResetNotice) ∧
        (∃ x ∈ l, x.phase = .requested a.request s.pendingResetNotice) ∧ n = false) :
    let t : State := { s.accept a with pendingResetNotice := n, calls := l }
    Tracked t (o.note s e t) ∧ ∀ r, s.resolvesRequest t r = false := by
  intro t
  have hq : ∀ r, s.resolvesRequest t r = false := resolvesRequest_append (l := [none]) rfl
  have hlost : (o.note s e t).lost = s.pendingResetNotice := by
    have hl : o.loses s e t = false := loses_eq_false fun c hc => hc
    have hi := h.idle hd fun b ⟨a, ha, _⟩ => by cases hn.symm.trans ha
    simp [Observer.note, resolving_eq_false hq, hl, hi]
  have hmem : ∀ x ∈ l, x ∈ s.calls ∨ x.phase = .requested a.request s.pendingResetNotice ∧
      n = false := by
    intro x hx
    rcases hl with ⟨h1, -⟩ | ⟨h1, -, h2⟩
    · exact .inl (h1 x hx)
    · exact (h1 x hx).imp id fun hp => ⟨hp, h2⟩
  have hlen : t.requests.length = s.requests.length + 1 := by
    simp [t, State.accept]
  refine ⟨⟨h.early, fun _ => ?_, h.halted, h.waiter, fun hb _ => ?_, fun {b} hb => ?_,
    fun _ hb => ?_, fun x hx {r b} hp => ?_⟩, hq⟩
  · obtain ⟨c, hc, ho, ht⟩ := h.up hr
    exact ⟨c, hc, List.mem_append_left _ ho, ht⟩
  · cases hb
    exact ⟨hr, hc⟩
  · obtain ⟨a', ha', x, hx, hp⟩ := hb
    cases ha'
    rcases hmem x hx with hx | ⟨hp', hf⟩
    · exact absurd (h.fresh x hx hp) (by omega)
    · rw [hp] at hp'
      cases hp'
      exact ⟨hlost.symm, fun _ => hf⟩
  · rcases hl with ⟨-, hn⟩ | ⟨-, ⟨x, hx, hp⟩, -⟩
    · exact hlost.trans hn.symm
    · exact absurd ⟨a, rfl, x, hx, hp⟩ (hb _)
  · rw [hlen]
    rcases hmem x hx with hx | ⟨hp', -⟩
    · exact Nat.lt_succ_of_lt (h.fresh x hx hp)
    · rw [hp] at hp'
      cases hp'
      omega

/-- No bridge is in use, before or after, or `shutdown` stops it. -/
theorem Tracked.down {s t : State} {o : Observer} {e : Event} (h : Tracked s o)
    (hs : s.ready = false ∨ s.disposed = true ∧ s.byShutdown e = true) (ht : t.ready = false)
    (ha : t.active = s.active) (hc : t.calls = s.calls) (hr : t.requests = s.requests)
    (hn : t.pendingResetNotice = s.pendingResetNotice) (hd : t.disposed = s.disposed)
    (hw : ∀ {sid : Nat}, t.readyWaiter = some sid →
      ∃ g c, t.startups[sid]? = some ⟨g, .waiting c⟩ ∧ t.child = some c) :
    Tracked t (o.note s e t) := by
  have hl : o.loses s e t = false := hs.elim loses_of_not_ready fun hs => loses_of_byShutdown hs.2
  have hlost : (o.note s e t).lost = o.lost := by
    simp [Observer.note, resolving_eq_false (resolvesRequest_of_eq hr), hl]
  have hcar : ∀ {b : Bool}, t.Carries b ↔ s.Carries b := by
    intro b
    rw [State.Carries, ha, hc]
    exact Iff.rfl
  refine ⟨fun _ _ _ => ht, by simp [ht], by simp [ht], hw, fun {a} hta htd => ?_, fun hb => ?_,
    fun htd hb => ?_, by rw [hc, hr]; exact h.fresh⟩
  · rw [ha] at hta
    rw [hd] at htd
    rcases hs with hs | ⟨hs, -⟩
    · cases hs.symm.trans (h.active hta htd).1
    · cases hs.symm.trans htd
  · rw [hlost, hn, hd]
    exact h.carried (hcar.mp hb)
  · rw [hlost, hn]
    exact h.idle (hd ▸ htd) fun b hs => hb b (hcar.mpr hs)

/-- The calls may change while no request is in progress. -/
theorem Tracked.recall {s : State} {o : Observer} (h : Tracked s o) (ha : s.active = none)
    {l : List Call} (hl : ∀ x ∈ l, ∀ {r b}, x.phase = .requested r b → r < s.requests.length) :
    Tracked { s with calls := l } o := by
  have hn : ∀ {l : List Call} {b : Bool}, ¬ State.Carries { s with calls := l } b := by
    rintro l b ⟨a, hsa, -⟩
    cases ha.symm.trans hsa
  exact ⟨h.early, h.up, h.halted, h.waiter, h.active, fun hb => absurd hb hn,
    fun hd _ => h.idle hd fun _ => hn, hl⟩

/-- The notice may be dropped when there is none, or after `shutdown`. -/
theorem Tracked.unnoticed {s : State} {o : Observer} (h : Tracked s o)
    (hn : s.pendingResetNotice = true → s.disposed = true) :
    Tracked { s with pendingResetNotice := false } o := by
  refine ⟨h.early, h.up, h.halted, h.waiter, h.active, fun hb => ⟨(h.carried hb).1, fun _ => rfl⟩,
    fun hd hb => ?_, h.fresh⟩
  rw [h.idle hd hb, Bool.eq_false_iff]
  intro hp
  cases (hn hp).symm.trans hd

/-- The end of a bridge. -/
theorem Tracked.bridgeEnds {s : State} {o : Observer} {e : Event} (h : Tracked s o)
    (he : s.byShutdown e = (s.disposed && s.stopping)) (c : BridgeId) (reason : JsStr)
    {f : Bridge → Bridge} (hf : ∀ b, (f b).terminated = b.terminated) :
    Tracked (s.bridgeEnds c reason f) (o.note s e (s.bridgeEnds c reason f)) ∧
      ∀ r, s.resolvesRequest (s.bridgeEnds c reason f) r = false := by
  have hterm : ∀ d, ({ s with bridges := s.bridges.modify c f } : State).terminated d =
      s.terminated d := fun d => by
    change ((s.bridges.modify c f)[d]?).any _ = ((s.bridges)[d]?).any _
    rw [List.getElem?_modify]
    split <;> cases s.bridges[d]? <;> simp [hf]
  unfold State.bridgeEnds
  rcases handleExit_cases { s with bridges := s.bridges.modify c f } c reason with
    ⟨-, he'⟩ | ⟨-, m, hx⟩
  · have hst : Steady s { s with bridges := s.bridges.modify c f } :=
      ⟨rfl, rfl, fun d _ _ => hterm d, fun _ => .inl, id, rfl, rfl, fun _ => Iff.rfl,
        resolvesRequest_of_eq rfl, le_refl _, fun x hx hu => .inl ⟨x, hx, hu⟩, fun hw => ⟨hw, id⟩⟩
    rw [he']
    exact ⟨h.steady hst, hst.requests⟩
  -- the waiter of the bridge is rejected
  obtain ⟨w, l, -, hrej⟩ := rejectReady_eq ({ s with bridges := s.bridges.modify c f } : State).lose m
  have hw : w = none := by
    have hwe := congrArg State.readyWaiter hrej
    cases hsw : s.readyWaiter with
    | none =>
      rw [rejectReady, show (({ s with bridges := s.bridges.modify c f } : State).lose).readyWaiter =
        none from hsw] at hwe
      exact hwe.symm.trans hsw
    | some sid =>
      obtain ⟨g, d, hd, -⟩ := h.waiter hsw
      have hd' : (({ s with bridges := s.bridges.modify c f } : State).lose).startups[sid]? =
        some ⟨g, .waiting d⟩ := hd
      rw [rejectReady, show (({ s with bridges := s.bridges.modify c f } : State).lose).readyWaiter =
        some sid from hsw] at hwe
      simp only [finishStartup, hd'] at hwe
      exact hwe.symm
  subst hw
  rcases hx with ⟨hs, he'⟩ | ⟨hs, l', k, m', he'⟩
  · have hs : s.stopping = true := hs
    rw [he', hrej]
    refine ⟨h.down ?_ rfl rfl rfl rfl rfl rfl (fun hw => by cases hw), resolvesRequest_of_eq rfl⟩
    cases hr : s.ready with
    | true => exact .inr ⟨h.halted hr hs, by rw [he, h.halted hr hs, hs]; rfl⟩
    | false => exact .inl rfl
  · have hs : s.stopping = false := hs
    rw [he', hrej]
    obtain ⟨r, hfail, hlen, hq⟩ := failActive_frame (s := { s with
      bridges := s.bridges.modify c f, child := none, kernelPgid := none
      kernelConnectionFile := none, ready := false, stopping := false, readyWaiter := none
      startups := l, log := l', killTimers := k
      pendingResetNotice := s.pendingResetNotice || s.ready }) m'
    have hq' : ∀ q, s.resolvesRequest { s with requests := r } q = false := hq
    dsimp only [lose]
    rw [hfail]
    refine ⟨h.fail (fun _ => by rw [he, hs, Bool.and_false]) rfl rfl rfl
      (fun hr => by simp [hr]) (fun hr _ => by simp [hr]) hq (fun hw => by cases hw)
      fun x hx => ?_, hq⟩
    exact hlen ▸ h.fresh x hx

/-- An abort. -/
theorem Tracked.abortListeners {s : State} {o : Observer} {e : Event} (h : Tracked s o)
    (fires : Signal → Bool) :
    Tracked (s.abortListeners fires) (o.note s e (s.abortListeners fires)) ∧
      ∀ r, s.resolvesRequest (s.abortListeners fires) r = false := by
  obtain ⟨w, l, hl, ⟨-, he⟩ | ⟨a, -, -, he⟩⟩ := s.abortListeners_cases fires
  · rw [he]
    exact ⟨h.steady hl.steady, hl.steady.requests⟩
  · have hst := hl.steady.trans (kept_interrupt { s with readyWaiter := w, startups := l }
      a.cancelReason false).steady rfl
    rw [he]
    exact ⟨h.steady hst, hst.requests⟩

/-- A request of `evaluate`. -/
theorem Tracked.evaluate {s : State} {o : Observer} {e : Event} (h : Tracked s o)
    (m : BridgeRequest) (σ : Option SignalId) (r : JsStr) (timeout thrown : Option JsStr)
    (hk : thrown.isSome = true → s.accepts ⟨σ, true⟩ = true → s.killable)
    (he : s.byShutdown e = false) :
    Tracked (s.request m ⟨σ, true⟩ r timeout thrown).1
      (o.note s e (s.request m ⟨σ, true⟩ r timeout thrown).1) ∧
      ∀ q, s.resolvesRequest (s.request m ⟨σ, true⟩ r timeout thrown).1 q = false := by
  rcases s.request_cases m ⟨σ, true⟩ r timeout thrown with
    ⟨-, x, hx⟩ | ⟨c, hc, hr, hn, hab, ⟨-, l, hx⟩ | ⟨ht, x, y, hx⟩⟩
  · rw [hx]
    exact ⟨h.steady (Kept.refl s).steady, (Kept.refl s).steady.requests⟩
  · have hd : s.disposed = false := by
      simp only [isAborted, Bool.or_eq_false_iff, Bool.true_and] at hab
      exact hab.2
    obtain ⟨h1, h2⟩ := h.accept (e := e) hr hd hn (a := s.newActive m c ⟨σ, true⟩ r timeout) hc rfl
      (l := s.calls) (.inl ⟨fun _ => id, rfl⟩)
    rw [hx]
    exact ⟨⟨h1.early, h1.up, h1.halted, h1.waiter, h1.active, h1.carried, h1.idle, h1.fresh⟩, h2⟩
  · have hacc : s.accepts ⟨σ, true⟩ = true := by simp [accepts, hc, hr, hn, hab]
    have hq : ∀ q, s.resolvesRequest { s with
        requests := s.requests ++ [some (.rejected y)], stderr := x
        pendingResetNotice := true } q = false := resolvesRequest_append rfl
    rw [hx]
    refine ⟨h.failKill (hk ht hacc) (fun _ => he) rfl rfl rfl hn rfl (fun _ => rfl)
      (fun hs _ => by cases hr.symm.trans hs) hq h.waiter fun z hz {q b} hp => ?_, fun q => ?_⟩
    · rw [List.length_append]
      exact Nat.lt_add_right _ (h.fresh z hz hp)
    · exact (resolvesRequest_congr (kill_requests _) q).trans (hq q)

/-- An `execute` whose start is over. -/
theorem Tracked.execute {s : State} {o : Observer} {e : Event} (h : Tracked s o) (hg : Guarded s)
    {k : Nat} {g : Signal} {id code cwd : JsStr} {thrown : Option JsStr}
    (hx : s.calls[k]? = some ⟨.execute id code cwd, g, .started⟩)
    (hi : (s.pendingResetNotice = true → s.disposed = true ∨ s.accepts g = true) ∧
      (thrown.isSome = true → s.accepts g = true → s.killable)) (he : s.byShutdown e = false) :
    let t := s.executeStarted k ⟨.execute id code cwd, g, .started⟩ id code cwd thrown
    Tracked t (o.note s e t) ∧ ∀ q, s.resolvesRequest t q = false := by
  intro t
  have hlt := (List.getElem?_eq_some_iff.mp hx).1
  have hj := hg.joined _ (List.mem_of_getElem? hx)
  have hset : ∀ (y : Call) (n : Nat), y.phase = .requested s.requests.length s.pendingResetNotice →
      s.requests.length < n → s.requests.length ≤ n →
      ∀ x ∈ s.calls.set k y, ∀ {r b}, x.phase = .requested r b → r < n := by
    intro y n hy hn hle x hxm r b hp
    rcases List.mem_or_eq_of_mem_set hxm with hxm | rfl
    · exact lt_of_lt_of_le (h.fresh x hxm hp) hle
    · cases hy.symm.trans hp
      exact hn
  rcases s.executeStarted_cases k ⟨.execute id code cwd, g, .started⟩ id code cwd thrown with
    ⟨hacc, m, hm⟩ | ⟨c, hc, hr, hn, hab, ⟨-, l, hm⟩ | ⟨ht, x, y, hm⟩⟩
  · have hu := h.unnoticed fun hp => (hi.1 hp).resolve_right (by simpa using hacc)
    have hst := (aside_setCall (s := { s with pendingResetNotice := false })
      (p := .over (some m)) hx rfl rfl).steady fun hr => h.child hr
    have ht : t = _ := hm
    rw [ht]
    exact ⟨hu.steady hst, hst.requests⟩
  · have hd : s.disposed = false := by
      have hg : g.lifecycle = true := hj
      simp only [isAborted, Bool.or_eq_false_iff, hg, Bool.true_and] at hab
      exact hab.2
    obtain ⟨h1, h2⟩ := h.accept (e := e) hr hd hn
      (a := s.newActive (.execute id code cwd) c g (js "IPython execution cancelled") none) hc rfl
      (l := s.calls.set k ⟨.execute id code cwd, g,
        .requested s.requests.length s.pendingResetNotice⟩) (n := false)
      (.inr ⟨fun x hx => (List.mem_or_eq_of_mem_set hx).imp (fun hx => hx) fun he => by rw [he]; rfl,
        ⟨_, List.mem_set hlt _, rfl⟩, rfl⟩)
    have ht : t = _ := hm
    rw [ht]
    exact ⟨⟨h1.early, h1.up, h1.halted, h1.waiter, h1.active, h1.carried, h1.idle, h1.fresh⟩, h2⟩
  · have hacc : s.accepts g = true := by simp [accepts, hc, hr, hn, hab]
    have hq : ∀ q, s.resolvesRequest { s with
        requests := s.requests ++ [some (.rejected y)], stderr := x
        pendingResetNotice := true } q = false := resolvesRequest_append rfl
    have hu := h.failKill (e := e) (u := { s with
        requests := s.requests ++ [some (.rejected y)], stderr := x
        pendingResetNotice := true }) (hi.2 ht hacc) (fun _ => he) rfl rfl rfl hn rfl (fun _ => rfl)
      (fun hs _ => by cases hr.symm.trans hs) hq h.waiter fun z hz {q b} hp => by
        rw [List.length_append]
        exact Nat.lt_add_right _ (h.fresh z hz hp)
    have ht : t = _ := hm
    rw [ht]
    refine ⟨?_, fun q => ?_⟩
    · have hcalls := (kill_frame { s with
        requests := s.requests ++ [some (.rejected y)], stderr := x
        pendingResetNotice := true }).2.2.2.1
      refine hu.recall ((kill_active _).trans hn) ?_
      rw [hcalls, kill_requests]
      exact hset _ _ rfl (by simp) (by simp)
    · exact (resolvesRequest_congr (kill_requests _) q).trans (hq q)

/-- **The step lemma**: an informed step keeps the runtime and its observer together, and an
`execute` that resolves in it reports what the observer noted. -/
theorem Tracked.change {s t : State} {o : Observer} {e : Event} (h : Tracked s o) (ha : Alive s)
    (hi : s.Informed e) (hc : Change s e t) :
    Tracked t (o.note s e t) ∧ ∀ b, s.Reports t b → b = o.lost := by
  have hg := ha.guarded
  have silent : ∀ {t : State}, (∀ r, s.resolvesRequest t r = false) →
      ∀ b, s.Reports t b → b = o.lost := fun hq b hb => absurd hb (not_reports hq)
  have steady : ∀ {t : State}, Steady s t →
      Tracked t (o.note s e t) ∧ ∀ b, s.Reports t b → b = o.lost := fun hst =>
    ⟨h.steady hst, silent hst.requests⟩
  have hdown : ∀ {sid : Nat} {x : Startup}, s.startups[sid]? = some x → x.unready = true →
      s.ready = false := fun hx hu => h.early _ (List.mem_of_getElem? hx) hu
  cases hc with
  | aside hs => exact steady (hs.steady h.child)
  | line hk hl => exact h.line ha.sound.shape ha.ledger hg hk hi hl
  | evaluate expression ms signal thrown id reason limit =>
    have hs : Tracked { s with evaluateIndex := s.evaluateIndex + 1 } o :=
      ⟨h.early, h.up, h.halted, h.waiter, h.active, h.carried, h.idle, h.fresh⟩
    obtain ⟨h1, h2⟩ := hs.evaluate (e := .evaluate expression ms signal thrown)
      (.evaluate id expression) signal reason (some limit) thrown hi rfl
    exact ⟨h1, silent h2⟩
  | @execute k g id code cwd thrown hx =>
    have hb : s.begun k = some g := by rw [begun, hx]; rfl
    obtain ⟨h1, h2⟩ := h.execute (e := .resume k thrown) hg hx (hi g hb) rfl
    exact ⟨h1, silent h2⟩
  | abort σ =>
    have hs : Tracked { s with aborted := σ :: s.aborted } o :=
      ⟨h.early, h.up, h.halted, h.waiter, h.active, h.carried, h.idle, h.fresh⟩
    obtain ⟨h1, h2⟩ := hs.abortListeners (e := .abort σ) fun g =>
      g.caller = some σ && ! s.isAborted g
    exact ⟨h1, silent h2⟩
  | dispose p =>
    have hs : Tracked { s with disposed := true } o :=
      ⟨h.early, h.up, fun _ _ => rfl, h.waiter, by simp, fun hb => ⟨(h.carried hb).1, by simp⟩,
        by simp, h.fresh⟩
    obtain ⟨h1, h2⟩ := hs.abortListeners (e := .shutdown) fun g => g.lifecycle && ! s.isAborted g
    exact ⟨⟨h1.early, h1.up, h1.halted, h1.waiter, h1.active, h1.carried, h1.idle, h1.fresh⟩,
      silent h2⟩
  | @spawn sid g _ hx =>
    have hr := hdown hx rfl
    refine ⟨h.down (.inl hr) rfl rfl rfl rfl rfl rfl fun {i} hw => ?_,
      silent (resolvesRequest_of_eq rfl)⟩
    obtain rfl : sid = i := Option.some.inj hw
    exact ⟨g, _, List.getElem?_set_self (List.getElem?_eq_some_iff.mp hx).1, rfl⟩
  | @unspawned sid g _ m hx =>
    have hr := hdown hx rfl
    refine ⟨h.down (.inl hr) rfl rfl rfl rfl rfl rfl fun {i} hw => ?_,
      silent (resolvesRequest_of_eq rfl)⟩
    obtain ⟨g', c, hi, hc⟩ := h.waiter hw
    refine ⟨g', c, ?_, hc⟩
    change (s.startups.set sid _)[i]? = _
    rw [List.getElem?_set_ne, hi]
    rintro rfl
    cases hx.symm.trans hi
  | @stdin _ d reason l m hd he =>
    have hk : s.killable := by
      rcases he with rfl | rfl
      · exact hi hd
      · exact hi
    have hb : s.byShutdown e = false := by rcases he with rfl | rfl <;> rfl
    obtain ⟨r, hf, hlen, hq⟩ := failActive_frame ({ s with stderr := l }.noteReset) m
    rw [hf]
    refine ⟨h.failKill hk (fun _ => hb) rfl rfl rfl rfl rfl (fun hr => ?_) (fun hr _ => ?_) hq
      h.waiter fun x hx => ?_, silent fun q => (resolvesRequest_congr (kill_requests _) q).trans (hq q)⟩
    · exact Bool.or_eq_true_iff.mpr (.inr hr)
    · exact (congrArg (s.pendingResetNotice || ·) hr).trans (Bool.or_false _)
    · exact hlen ▸ h.fresh x hx
  | @startupFailed sid g m hx after =>
    have hr := hdown hx rfl
    obtain ⟨h1, h2, h3, h4, h5⟩ := kill_frame s
    refine ⟨h.down (.inl hr) ?_ (kill_active s) h4 (kill_requests s) h5 (kill_disposed s)
      fun {i} hw => ?_, silent (resolvesRequest_of_eq (kill_requests s))⟩
    · exact kill_ready (fun hu => by cases hr.symm.trans hu) fun hu => by cases hr.symm.trans hu
    · obtain ⟨g', c, hi, hc⟩ := h.waiter (h2 ▸ hw)
      refine ⟨g', c, ?_, h1.trans hc⟩
      change (s.kill.startups.set sid _)[i]? = _
      rw [h3, List.getElem?_set_ne, hi]
      rintro rfl
      cases hx.symm.trans hi
  | startupTimeout sid m =>
    obtain ⟨w, l, hl, he⟩ := s.finishStartup_eq sid fun _ => .failed m
    rw [he]
    exact steady hl.steady
  | @timeout a reason hs ht =>
    have hst : Steady s { s with active := some { a with timeout := none } } :=
      ⟨rfl, rfl, fun _ _ _ => rfl, fun _ => .inl, id, rfl, by rw [hs]; rfl, fun _ => Iff.rfl,
        resolvesRequest_of_eq rfl, le_refl _, fun x hx hu => .inl ⟨x, hx, hu⟩, fun hw => ⟨hw, id⟩⟩
    exact steady (hst.trans (kept_interrupt _ _ _).steady rfl)
  | @grace a hs _ after m =>
    have hu := h.failKill (e := .grace a.request)
      (u := { s with active := none, pendingResetNotice := true }) hi (fun _ => rfl) rfl rfl rfl rfl
      rfl (fun _ => rfl) (fun _ hn => by cases hn.symm.trans hs) (resolvesRequest_of_eq rfl) h.waiter
      h.fresh
    exact ⟨⟨hu.early, hu.up, hu.halted, hu.waiter, hu.active, hu.carried, hu.idle, hu.fresh⟩,
      silent (resolvesRequest_of_eq (kill_requests _))⟩
  | @reject x hx =>
    have hst : Steady s ({ s with
        rejections := s.rejections.filter (·.request ≠ x.request) }.settle x.request
          (.rejected x.message)) :=
      ⟨rfl, rfl, fun _ _ _ => rfl, fun _ => .inl, id, rfl, rfl, fun _ => Iff.rfl,
        fun r => resolvesRequest_settle rfl _ r _, by rw [settle_eq, List.length_modify],
        fun x hx hu => .inl ⟨x, hx, hu⟩, fun hw => ⟨hw, id⟩⟩
    exact steady hst
  | closing he hc hs p l =>
    exact steady ⟨rfl, rfl, fun _ _ _ => rfl, fun _ _ => .inr (hg.idle hs), id, rfl, rfl,
      fun _ => Iff.rfl, resolvesRequest_of_eq rfl, le_refl _, fun x hx hu => .inl ⟨x, hx, hu⟩,
      fun hw => ⟨hw, id⟩⟩
  | shutdownKill he hs b p q =>
    have hd := hg.idle hs
    have hby : s.byShutdown e = true := by cases e <;> first | exact he | cases he
    obtain ⟨h1, h2, h3, h4, h5⟩ := kill_frame { s with stopping := b, shutdown := p }
    rcases terminate_cases { s with stopping := b, shutdown := p } with
      ⟨t, -, ht⟩ | ⟨-, -, ht⟩ | ⟨d, l, -, -, ht⟩
    rotate_right
    · rw [State.kill, ht]
      exact ⟨h.down (.inr ⟨hd, hby⟩) rfl rfl rfl rfl rfl rfl h.waiter,
        silent (resolvesRequest_of_eq rfl)⟩
    all_goals
      rw [State.kill, ht]
      exact steady ⟨rfl, rfl, fun _ _ _ => rfl, fun _ _ => .inr hd, id, rfl, rfl,
        fun _ => Iff.rfl, resolvesRequest_of_eq rfl, le_refl _, fun x hx hu => .inl ⟨x, hx, hu⟩,
        fun hw => ⟨hw, id⟩⟩
  | error c m reason =>
    obtain ⟨h1, h2⟩ := h.bridgeEnds (e := .error c m) rfl c reason
      (f := fun b => { b with failed := true }) fun _ => rfl
    exact ⟨h1, silent h2⟩
  | close hf c code signal alive reason l hp =>
    obtain ⟨h1, h2⟩ := h.bridgeEnds (e := .close c code signal alive) rfl c reason
      (f := fun b => { b with closed := true }) fun _ => rfl
    exact ⟨⟨h1.early, h1.up, h1.halted, h1.waiter, h1.active, h1.carried, h1.idle, h1.fresh⟩,
      silent h2⟩

/-! ## Runs -/

/-- The steps after which the notice is right leave no request hanging either. -/
theorem Tracked.orderly {s : State} {o : Observer} {e : Event} (h : Tracked s o) (hg : Guarded s)
    (hi : s.Informed e) : s.Orderly e := by
  -- a request without a timer is on a bridge in use
  have huse : ∀ {c : BridgeId}, s.untimed c = true → s.ready = true ∧ s.child = some c := by
    intro c hu
    obtain ⟨a, ha, -, rfl⟩ := untimed_iff.mp hu
    refine h.active ha ?_
    by_contra hd
    cases (hg.untimed_of_disposed (by simpa using hd) _).symm.trans hu
  have hother : ∀ c, s.child = some c ∨ s.untimed c = false := by
    intro c
    cases hu : s.untimed c with
    | true => exact .inl (huse hu).2
    | false => exact .inr rfl
  cases e with
  | line c text disk =>
    rintro ⟨hk, hs, hu⟩
    simp only [State.Informed, hk] at hi
    exact hi (huse hu).1 hs
  | resume k thrown =>
    rintro ⟨hk, -, ht⟩
    obtain ⟨⟨kind, g, p⟩, -, hxs⟩ := sends_iff.mp hk
    have hr : s.ready = true := by
      have hacc : s.accepts g = true := by cases kind <;> cases p <;> first | exact hxs | cases hxs
      simp only [accepts, Bool.and_eq_true] at hacc
      exact hacc.1.1.2
    obtain ⟨c, hc, -, hct⟩ := h.up hr
    simp [hc, hct] at ht
  | error c m => exact hother c
  | close c code signal alive => exact hother c
  | _ => trivial

/-- A runtime and its observer along an informed run. -/
def Watched (w : State × Observer) : Prop := Alive w.1 ∧ Tracked w.1 w.2

theorem watch_eq {w v : State × Observer} {e : Event} (h : watch w e = some v) :
    step w.1 e = some v.1 ∧ v.2 = w.2.note w.1 e v.1 := by
  obtain ⟨t, ht, rfl⟩ := Option.map_eq_some_iff.mp h
  exact ⟨ht, rfl⟩

theorem watched_step {w v : State × Observer} {e : Event} (h : Watched w) (hi : w.1.Informed e)
    (he : watch w e = some v) : Watched v := by
  obtain ⟨hs, hv⟩ := watch_eq he
  refine ⟨alive_step h.1 (h.2.orderly h.1.guarded hi) hs, ?_⟩
  obtain ⟨u, k, hu, hc⟩ := step_cases hs
  obtain ⟨ht, -⟩ := h.2.change h.1 hi hc
  rw [hv, hu]
  exact ⟨ht.early, ht.up, ht.halted, ht.waiter, ht.active, ht.carried, ht.idle, ht.fresh⟩

theorem Watched.exact {w : State × Observer} {e : Event} (h : Watched w) (hi : w.1.Informed e) :
    Exact w e := by
  intro t b ht hb
  obtain ⟨u, k, rfl, hc⟩ := step_cases ht
  exact (h.2.change h.1 hi hc).2 b hb

/-- **Exact one-shot reset reporting**: in an informed run of a new runtime every `execute` that
resolves reports a reset exactly when a kernel was lost since the last one that resolved. -/
theorem exact_of_informed {es : List Event} (h : AllSteps step State.Informed State.init es) :
    AllSteps watch Exact (State.init, ⟨[], false⟩) es := by
  have hw : AllSteps watch (fun w => w.1.Informed) (State.init, ⟨[], false⟩) es :=
    AllSteps.beside (f := Prod.fst) (fun _ _ _ hv => (watch_eq hv).1) h
  exact hw.of_invariant (fun _ _ _ => watched_step) (fun _ _ => Watched.exact)
    ⟨alive_init, tracked_init⟩

/-- A startup after the first one, from the spawn of its bridge to the settled `start`. -/
def restart (c : BridgeId) (disk : Disk) : List Event := [
  .runtimeReady c, .listened c (.ok ()) (.ok ()),
  .line c (js "\x7b\"type\":\"kernel_started\",\"kernel_pgid\":7\x7d") disk,
  .line c (js
    "\x7b\"type\":\"ready\",\"protocol\":3,\"kernel_pgid\":7,\"connection_file\":\"/k\"\x7d") disk,
  .startupReady c, .startupDone c]

/-- The end of the first cell, on the second bridge. -/
def firstResult (disk : Disk) : Event :=
  .line 1 (js
    "\x7b\"type\":\"result\",\"request_id\":\"1\",\"status\":\"ok\",\"execution_count\":1\x7d") disk

/-- The kernel dies before the first cell. -/
def lostRun (disk : Disk) : List Event := startRun disk ++ [
  .close 0 none none (fun _ => false), .execute (js "1") (js "x") (js "/") none] ++
  restart 1 disk ++ [.resume 1 none, .resume 1 none, firstResult disk]

set_option maxRecDepth 8000 in
theorem exact_lostRun : AllSteps watch Exact (State.init, ⟨[], false⟩)
    (lostRun ⟨.error [], none⟩) :=
  exact_of_informed (by decide +kernel)

/-- A second `kernel_started` line with a bad process group, before the first cell. -/
def unnoticedRun (disk : Disk) : List Event := startRun disk ++ [
  .line 0 (js "\x7b\"type\":\"kernel_started\",\"kernel_pgid\":1\x7d") disk,
  .close 0 none none (fun _ => false), .reap 0 (fun _ => false), .terminated 0,
  .execute (js "1") (js "x") (js "/") none] ++ restart 1 disk ++ [.resume 1 none, .resume 1 none]

/-- An `execute` resolves in the step with a wrong report. -/
theorem not_exact {w : State × Observer} {e : Event}
    (h : ((step w.1 e).any fun t => w.1.calls.any fun x => match x.phase with
      | .requested r b => w.1.resolvesRequest t r && b != w.2.lost
      | _ => false) = true) : ¬ Exact w e := by
  intro hx
  cases ht : step w.1 e with
  | none => simp [ht] at h
  | some t =>
    rw [ht] at h
    obtain ⟨x, hm, hp⟩ := List.any_eq_true.mp h
    split at hp
    · next r b hxp =>
      obtain ⟨hr, hne⟩ := Bool.and_eq_true_iff.mp hp
      rw [State.resolvesRequest] at hr
      split at hr
      · next h1 h2 => simp [hx t b ht ⟨x, hm, r, _, hxp, h1, h2⟩] at hne
      · cases hr
    · cases hp

set_option maxRecDepth 8000 in
/-- **A kernel that a bad `kernel_started` line stops is lost without a notice**. -/
theorem not_exact_unnoticedRun :
    ¬ ∀ es, AllSteps watch Exact (State.init, ⟨[], false⟩) es := by
  intro h
  have hrun : (runAll watch (State.init, ⟨[], false⟩) (unnoticedRun ⟨.error [], none⟩)).any
      (fun w => (step w.1 (firstResult ⟨.error [], none⟩)).any fun t => w.1.calls.any fun x =>
        match x.phase with
        | .requested r b => w.1.resolvesRequest t r && b != w.2.lost
        | _ => false) = true := by decide +kernel
  cases ht : runAll watch (State.init, ⟨[], false⟩) (unnoticedRun ⟨.error [], none⟩) with
  | none => simp [ht] at hrun
  | some w =>
    rw [ht] at hrun
    exact not_exact hrun ((h (_ ++ [_])).last ht)

end PiIpython.Runtime
