import PiIpython.Runtime.Log
import PiIpython.Runtime.Hanging

/-!
# Nothing starts after `shutdown`

A bridge that runs untouched after `shutdown` is the runtime's own or one that
another bridge replaced. `Winding` is what a run keeps in which neither can
happen: every replaced bridge was stopped, only the startup that `shutdown`
awaits can still spawn, and once `shutdown` has looked at the runtime's bridge
that bridge was asked to stop.
-/

namespace PiIpython.Runtime

open Text

/-- `shutdown` has looked at the runtime's bridge. -/
def ShutdownPhase.past : ShutdownPhase → Bool
  | .idle => false
  | .starting _ => false
  | .stopping _ => false
  | _ => true

namespace State

/-- The bridge has exited or was asked to stop. -/
def touched (s : State) (c : BridgeId) : Bool :=
  s.gone c || s.terminated c || decide (Effect.shutdownLine c ∈ s.log)

/-- Once `shutdown` is settled, no bridge runs untouched. -/
def Quiescent (s : State) : Prop :=
  s.shutdown = .done → ∀ c < s.bridges.length, s.touched c = true

/-- Once `shutdown` is settled, the step spawns nothing. -/
def SpawnsNothing (s : State) (e : Event) : Prop :=
  s.shutdown = .done → ∀ t, step s e = some t → t.bridges.length = s.bridges.length

/-- The call is a `start` with a signal of its caller only that waits for a termination, and would
begin a startup. -/
def beginsLate (s : State) (k : Nat) : Bool :=
  (s.calls[k]?).any fun x =>
    match x.phase with
    | .stopping _ => ! x.signal.lifecycle && ! (s.child.isSome && s.ready) && s.starting.isNone
    | _ => false

/-- The startup spawns its bridge. -/
def spawns (s : State) (sid : Nat) (result spawned : Except JsStr Unit) : Bool :=
  match s.startups[sid]?, result, spawned with
  | some ⟨g, .listeners⟩, .ok _, .ok _ => ! s.isAborted g
  | _, _, _ => false

/-- The steps after which `shutdown` can still stop every bridge: no `start` that waited for a
termination begins a startup after `shutdown` was called, and no bridge is replaced that was not
stopped. -/
def Timely (s : State) : Event → Prop
  | .resume k _ => ¬ (s.disposed = true ∧ s.beginsLate k = true)
  | .listened sid result spawned =>
    s.spawns sid result spawned = true → s.child.all s.terminated = true
  | _ => True

instance (s : State) : ∀ e, Decidable (s.Timely e)
  | .resume .. => inferInstanceAs (Decidable (¬ _))
  | .listened .. => inferInstanceAs (Decidable (_ → _))
  | .start .. | .execute .. | .evaluate .. | .getConnectionFile .. | .shutdown | .abort .. | .uv ..
  | .line .. | .stderr .. | .stdinError .. | .writeError .. | .exit .. | .error .. | .close ..
  | .startupTimeout .. | .timeout .. | .grace .. | .force .. | .giveUp .. | .reapTimer ..
  | .killTimer .. | .shutdownTimeout | .shutdownWriteError | .shutdownReapTimer ..
  | .runtimeReady .. | .startupFailed .. | .startupStopped .. | .startupReady .. | .startupDone ..
  | .reap .. | .terminated .. | .reject .. | .shutdownStarted | .shutdownStopped ..
  | .shutdownTerminated | .shutdownReap .. => isTrue trivial

/-! ## Steps that spawn nothing -/

/-- Nothing is spawned: the bridge stays or is lost with its exit, a new termination is the
bridge's, and a startup begins only before `shutdown` or with the lifecycle's signal. -/
structure Still (s t : State) : Prop where
  bridges : t.bridges.length = s.bridges.length
  child : t.child = s.child ∨ t.child = none ∧ ∀ c, s.child = some c → t.gone c = true
  gone : ∀ c, s.gone c = true → t.gone c = true
  terminated : ∀ c, s.terminated c = true → t.terminated c = true
  promise : ∀ x, t.stoppingPromise = some x → s.stoppingPromise = some x ∨
    ∀ c, t.child = some c → t.terminated c = true
  disposed : t.disposed = s.disposed
  shutdown : t.shutdown = s.shutdown
  early : ∀ (i : Nat) (x : Startup), t.startups[i]? = some x → x.early = true →
    (∃ y : Startup, s.startups[i]? = some y ∧ y.early = true ∧ y.signal = x.signal) ∨
      x.signal.lifecycle = true ∨ s.disposed = false

/-- The bridge is in the table. -/
def Known (s : State) : Prop := ∀ c, s.child = some c → c < s.bridges.length

variable {s t u : State}

theorem still_of_eq (hc : t.child = s.child) (hb : t.bridges = s.bridges)
    (hp : t.stoppingPromise = s.stoppingPromise) (hd : t.disposed = s.disposed)
    (hs : t.shutdown = s.shutdown) (hx : t.startups = s.startups) : Still s t where
  bridges := by rw [hb]
  child := .inl hc
  gone c h := by rwa [State.gone, hb]
  terminated c h := by rwa [State.terminated, hb]
  promise x h := .inl (hp ▸ h)
  disposed := hd
  shutdown := hs
  early i x h he := .inl ⟨x, hx ▸ h, he, rfl⟩

theorem Still.refl (s : State) : Still s s := still_of_eq rfl rfl rfl rfl rfl rfl

theorem Still.child_of_some (h : Still s t) {c : BridgeId} (hc : t.child = some c) :
    s.child = some c := by
  rcases h.child with he | ⟨he, -⟩
  · rw [← he, hc]
  · cases he.symm.trans hc

theorem Still.trans (h : Still s t) (k : Still t u) : Still s u where
  bridges := k.bridges.trans h.bridges
  child := by
    rcases k.child with hk | ⟨hk, hg⟩
    · rcases h.child with hh | ⟨hh, hg⟩
      · exact .inl (hk.trans hh)
      · exact .inr ⟨hk.trans hh, fun c hc => k.gone c (hg c hc)⟩
    · rcases h.child with hh | ⟨hh, hg'⟩
      · exact .inr ⟨hk, fun c hc => hg c (hh.trans hc)⟩
      · exact .inr ⟨hk, fun c hc => k.gone c (hg' c hc)⟩
  gone c hc := k.gone c (h.gone c hc)
  terminated c hc := k.terminated c (h.terminated c hc)
  promise x hx := by
    rcases k.promise x hx with hx | hx
    · refine (h.promise x hx).imp id fun hc c hu => ?_
      exact k.terminated c (hc c (k.child_of_some hu))
    · exact .inr hx
  disposed := k.disposed.trans h.disposed
  shutdown := k.shutdown.trans h.shutdown
  early i x hx he := by
    rcases k.early i x hx he with ⟨y, hy, hye, hys⟩ | hl | hd
    · rw [← hys]
      exact h.early i y hy hye
    · exact .inr (.inl hl)
    · exact .inr (.inr (h.disposed ▸ hd))

theorem Still.known (h : Still s t) (hk : Known s) : Known t := fun c hc => by
  rw [h.bridges]
  exact hk c (h.child_of_some hc)

theorem Kept.still (h : Kept s t) : Still s t := by
  have he := h.skeleton
  simp only [State.skeleton, Skeleton.mk.injEq] at he
  exact still_of_eq he.1 he.2.2.2.2.2.1 he.2.2.2.2.1 h.disposed h.shutdown he.2.2.2.2.2.2.1

theorem still_kill (s : State) (hk : Known s) : Still s s.kill := by
  rcases s.terminate_cases with ⟨t, -, h⟩ | ⟨-, -, h⟩ | ⟨d, l, hp, hd, h⟩
  · rw [State.kill, h]; exact .refl s
  · rw [State.kill, h]; exact .refl s
  have hterm : s.kill.terminated d = true := kill_terminated_child hp hd (hk d hd)
  have hmono : ∀ c, s.terminated c = true → s.kill.terminated c = true := fun c => kill_terminated
  rw [State.kill, h] at hterm hmono ⊢
  refine ⟨List.length_modify _ _ _, .inl rfl, fun c hc => ?_, hmono, fun x _ => .inr fun c hc => ?_,
    rfl, rfl, fun i x hx he => .inl ⟨x, hx, he, rfl⟩⟩
  · change ((s.bridges.modify d _)[c]?).any _ = true
    rw [gone_modify (f := fun b => { b with terminated := true }) fun _ => rfl]
    exact hc
  · obtain rfl : d = c := Option.some.inj (hd.symm.trans hc)
    exact hterm

/-- Startups stop waiting. -/
theorem Ended.still {f : BridgeId → StartupPhase} {w : Option Nat} {l : List Startup}
    (h : s.Ended f w l) (hf : ∀ g c, Startup.early ⟨g, f c⟩ = false) :
    Still s { s with readyWaiter := w, startups := l } := by
  refine { still_of_eq (t := { s with readyWaiter := w }) rfl rfl rfl rfl rfl rfl with
    early := fun i x hx he => .inl ?_ }
  rcases h.startup hx with hx | ⟨c, -, hp⟩
  · exact ⟨x, hx, he, rfl⟩
  · obtain ⟨g, p⟩ := x
    cases hp
    cases (hf g c).symm.trans he

theorem still_rejectReady (s : State) (e : JsStr) : Still s (s.rejectReady e) := by
  obtain ⟨w, l, h, he⟩ := s.rejectReady_eq e
  rw [he]
  exact h.still fun _ _ => rfl

theorem still_failActive (s : State) (m : JsStr) : Still s (s.failActive m) := by
  rcases s.failActive_cases m with ⟨-, h⟩ | ⟨a, -, h⟩
  · rw [h]; exact .refl s
  · rw [h]; exact still_of_eq rfl rfl rfl rfl rfl rfl

theorem still_line {k : LineKind} (hk : Known s) (h : LineCase s k t) : Still s t := by
  cases h with
  | kept h => exact h.still
  | lost e m =>
    have hr := (still_rejectReady s e).trans (still_failActive _ m)
    have hn := hr.trans (still_of_eq (t := ((s.rejectReady e).failActive m).noteReset) rfl rfl rfl
      rfl rfl rfl)
    exact hn.trans (still_kill _ (hn.known hk))
  | refused e =>
    have hr := still_rejectReady s e
    exact hr.trans (still_kill _ (hr.known hk))
  | announced g f =>
    obtain ⟨w, l, hl, he⟩ := resolveReady_eq { s with
      kernelPgid := some g, kernelConnectionFile := some f, ready := true
      generation := s.generation + 1 }
    rw [he]
    refine Still.trans ?_ (hl.still fun _ _ => rfl)
    exact still_of_eq rfl rfl rfl rfl rfl rfl
  | @bridgeError a ha m =>
    refine Still.trans (t := State.settle { s with active := none, pendingResetNotice := true }
      a.request (.rejected m)) (still_of_eq rfl rfl rfl rfl rfl rfl) (still_kill _ ?_)
    exact hk
  | result ha x => exact still_of_eq rfl rfl rfl rfl rfl rfl

theorem still_stdinError (hk : Known s) (c : Option BridgeId) (r : JsStr) :
    Still s (s.handleStdinError c r) := by
  rcases s.handleStdinError_cases c r with h | ⟨d, e, m, -, -, h⟩
  · rw [h]; exact .refl s
  · rw [h]
    have hn : Still s (({ s with stderr := e }.noteReset).failActive m) := by
      refine Still.trans ?_ (still_failActive _ m)
      exact still_of_eq rfl rfl rfl rfl rfl rfl
    exact hn.trans (still_kill _ (hn.known hk))

theorem still_request (hk : Known s) (m : BridgeRequest) (g : Signal) (r : JsStr)
    (o thrown : Option JsStr) : Still s (s.request m g r o thrown).1 := by
  rcases s.request_cases m g r o thrown with ⟨-, e, h⟩ | ⟨c, -, -, -, -, ⟨-, l, h⟩ | ⟨-, e, x, h⟩⟩
  · rw [h]; exact .refl s
  · rw [h]; exact still_of_eq rfl rfl rfl rfl rfl rfl
  · rw [h]
    refine Still.trans (t := { s with
      requests := s.requests ++ [some (.rejected x)], stderr := e, pendingResetNotice := true })
      (still_of_eq rfl rfl rfl rfl rfl rfl) (still_kill _ hk)

theorem any_modify {p : Bridge → Bool} {f : Bridge → Bridge}
    (hf : ∀ b, p b = true → p (f b) = true) {l : List Bridge} {c d : Nat}
    (h : (l[d]?).any p = true) : ((l.modify c f)[d]?).any p = true := by
  by_cases hc : c = d
  · subst hc
    rw [List.getElem?_modify_eq]
    cases hb : l[c]? with
    | none => simp [hb] at h
    | some b =>
      rw [hb] at h
      exact hf b h
  · rwa [List.getElem?_modify_ne _ _ hc]

/-- The end of a bridge. -/
theorem still_bridgeEnds {f : Bridge → Bridge} (hk : Known s)
    (hf : ∀ b, (f b).gone = true) (ht : ∀ b, (f b).terminated = b.terminated) (c : BridgeId)
    (r : JsStr) : Still s (s.bridgeEnds c r f) := by
  have hgone : ∀ d, s.gone d = true → ((s.bridges.modify c f)[d]?).any (·.gone) = true :=
    fun d => any_modify fun b _ => hf b
  have hterm : ∀ d, s.terminated d = true →
      ((s.bridges.modify c f)[d]?).any (·.terminated) = true :=
    fun d => any_modify fun b hb => (ht b).trans hb
  have hnone : ∀ (n : Bool) (l : List Effect) (k : List Int), Still s { s with
      bridges := s.bridges.modify c f
      child := if s.child = some c then none else s.child
      pendingResetNotice := n
      log := l
      killTimers := k } := by
    intro n l k
    refine ⟨List.length_modify _ _ _, ?_, hgone, hterm, fun x hx => .inl hx, rfl, rfl,
      fun i x hx he => .inl ⟨x, hx, he, rfl⟩⟩
    dsimp only
    split
    · next hc =>
      refine .inr ⟨rfl, fun d hd => ?_⟩
      obtain rfl : c = d := Option.some.inj (hc.symm.trans hd)
      change ((s.bridges.modify c f)[c]?).any _ = true
      rw [List.getElem?_modify_eq, List.getElem?_eq_getElem (hk c hc)]
      exact hf _
    · exact .inl rfl
  rcases handleExit_cases { s with bridges := s.bridges.modify c f } c r with
    ⟨hn, h⟩ | ⟨hc, e, ⟨-, h⟩ | ⟨-, l, k, m, h⟩⟩
  · rw [bridgeEnds, h]
    have := hnone s.pendingResetNotice s.log s.killTimers
    rwa [if_neg hn] at this
  · rw [bridgeEnds, h]
    have := hnone s.pendingResetNotice s.log s.killTimers
    rw [if_pos hc] at this
    refine Still.trans this (Still.trans ?_ (still_rejectReady _ e))
    exact still_of_eq rfl rfl rfl rfl rfl rfl
  · rw [bridgeEnds, h]
    have := hnone s.pendingResetNotice s.log s.killTimers
    rw [if_pos hc] at this
    refine Still.trans this (Still.trans ?_ (still_failActive _ m))
    have hr := still_rejectReady ({ s with bridges := s.bridges.modify c f } : State).lose e
    refine Still.trans ?_ (hr.trans ?_)
    · exact still_of_eq rfl rfl rfl rfl rfl rfl
    · exact still_of_eq rfl rfl rfl rfl rfl rfl

/-- An abort. -/
theorem still_abortListeners (s : State) (fires : Signal → Bool) :
    Still s (s.abortListeners fires) := by
  obtain ⟨w, l, h, ⟨-, he⟩ | ⟨a, -, -, he⟩⟩ := s.abortListeners_cases fires
  · rw [he]; exact h.still fun _ _ => rfl
  · rw [he]; exact (h.still fun _ _ => rfl).trans (kept_interrupt _ _ _).still

/-- A startup goes on. -/
theorem still_setStartup {sid : Nat} {g : Signal} {p q : StartupPhase}
    (hx : s.startups[sid]? = some ⟨g, p⟩)
    (hq : Startup.early ⟨g, q⟩ = true → Startup.early ⟨g, p⟩ = true) :
    Still s (s.setStartup sid ⟨g, q⟩) := by
  refine { still_of_eq (t := s) rfl rfl rfl rfl rfl rfl with early := fun i x hi he => .inl ?_ }
  change (s.startups.set sid _)[i]? = some x at hi
  by_cases hs : sid = i
  · subst hs
    rw [List.getElem?_set_self (List.getElem?_eq_some_iff.mp hx).1] at hi
    cases hi
    exact ⟨_, hx, hq he, rfl⟩
  · rw [List.getElem?_set_ne hs] at hi
    exact ⟨x, hi, he, rfl⟩

/-- A `start` begins before `shutdown`, or with the lifecycle's signal, or nothing begins. -/
theorem still_continueStart (s : State) {g : Signal}
    (h : s.disposed = false ∨ g.lifecycle = true ∨ (s.child.isSome && s.ready) = true ∨
      s.starting.isSome = true) : Still s (s.continueStart g).1 := by
  unfold continueStart
  split
  · exact .refl s
  next hn =>
  split
  · exact .refl s
  next hst =>
  have hnew : g.lifecycle = true ∨ s.disposed = false := by
    rcases h with h | h | h | h
    · exact .inr h
    · exact .inl h
    · exact absurd (by simpa using h) hn
    · simp [hst] at h
  have hstart : ∀ (p : Nat) (o : Option Nat) (l : List Provision), Still s { s with
      provisioning := o
      provisions := l
      startups := s.startups ++ [⟨g, .provisioning p⟩]
      starting := some s.startups.length } := by
    intro p o l
    refine { still_of_eq (t := s) rfl rfl rfl rfl rfl rfl with early := fun i x hi he => ?_ }
    change (s.startups ++ [_])[i]? = some x at hi
    rw [List.getElem?_append] at hi
    split at hi
    · exact .inl ⟨x, hi, he, rfl⟩
    · obtain ⟨-, rfl⟩ : _ ∧ _ = x := by simpa [List.getElem?_singleton] using hi
      exact .inr hnew
  unfold startKernel
  dsimp only
  split
  · exact hstart _ s.provisioning s.provisions
  · exact hstart _ _ _

theorem still_beginStart (s : State) (g : Signal) : Still s (s.beginStart g).1 := by
  unfold beginStart
  split
  · exact .refl s
  next hd =>
  split
  · exact .refl s
  · exact s.still_continueStart (.inl (by simpa using hd))

end State

open State

/-! ## Shutting down -/

variable {s t u : State}

/-- What `shutdown` can rely on. -/
structure Winding (s : State) : Prop where
  /-- A bridge that is not the runtime's has exited or was stopped. -/
  earlier : ∀ c < s.bridges.length, s.child ≠ some c → s.gone c = true ∨ s.terminated c = true
  running : s.shutdown ≠ .idle → s.disposed = true
  /-- After `shutdown` only the startup that it awaits can still spawn. -/
  late : s.disposed = true → ∀ (i : Nat) (x : Startup), s.startups[i]? = some x → x.early = true →
    x.signal.lifecycle = true ∨ s.shutdown = .starting (some i)
  /-- A termination that `shutdown` does not await is of the runtime's bridge. -/
  stopping : ∀ after, s.shutdown = .stopping after → ∀ x, s.stoppingPromise = some x →
    after = some x ∨ ∀ c, s.child = some c → s.terminated c = true
  past : s.shutdown.past = true → ∀ c, s.child = some c → s.touched c = true

theorem winding_init : Winding State.init :=
  ⟨by simp [State.init], by simp [State.init], by simp [State.init], by simp [State.init],
    by simp [State.init, ShutdownPhase.past]⟩

/-- **Once `shutdown` is settled no bridge runs untouched**. -/
theorem Winding.quiescent (h : Winding s) : s.Quiescent := by
  intro hd c hc
  by_cases hs : s.child = some c
  · exact h.past (by rw [hd]; rfl) c hs
  · unfold State.touched
    rcases h.earlier c hc hs with hg | ht
    · simp [hg]
    · simp [ht]

theorem State.Still.touched (h : Still s t)
    (hl : ∀ c, Effect.shutdownLine c ∈ s.log → Effect.shutdownLine c ∈ t.log) {c : BridgeId}
    (hc : s.touched c = true) : t.touched c = true := by
  unfold State.touched at hc ⊢
  simp only [Bool.or_eq_true, decide_eq_true_eq] at hc ⊢
  exact hc.imp (Or.imp (h.gone c) (h.terminated c)) (hl c)

theorem State.Still.earlier (hs : Still s t)
    (h : ∀ c < s.bridges.length, s.child ≠ some c → s.gone c = true ∨ s.terminated c = true) :
    ∀ c < t.bridges.length, t.child ≠ some c → t.gone c = true ∨ t.terminated c = true := by
  intro c hc hn
  rw [hs.bridges] at hc
  by_cases hsc : s.child = some c
  · rcases hs.child with he | ⟨-, hg⟩
    · exact absurd (he.trans hsc) hn
    · exact .inl (hg c hsc)
  · exact (h c hc hsc).imp (hs.gone c) (hs.terminated c)

/-- A step that spawns nothing. -/
theorem Winding.still (h : Winding s) (hs : Still s t)
    (hl : ∀ c, Effect.shutdownLine c ∈ s.log → Effect.shutdownLine c ∈ t.log) : Winding t := by
  refine ⟨hs.earlier h.earlier, ?_, ?_, ?_, ?_⟩
  · rw [hs.shutdown, hs.disposed]
    exact h.running
  · intro hd i x hx he
    rw [hs.disposed] at hd
    rw [hs.shutdown]
    rcases hs.early i x hx he with ⟨y, hy, hye, hys⟩ | hx | hn
    · rw [← hys]
      exact h.late hd i y hy hye
    · exact .inl hx
    · cases hd.symm.trans hn
  · intro after ha x hx
    rw [hs.shutdown] at ha
    rcases hs.promise x hx with hx | hx
    · refine (h.stopping after ha x hx).imp id fun hc c htc => ?_
      exact hs.terminated c (hc c (hs.child_of_some htc))
    · exact .inr hx
  · intro hp c hc
    rw [hs.shutdown] at hp
    exact hs.touched hl (h.past hp c (hs.child_of_some hc))

/-- `shutdown` goes on to its next phase. -/
theorem Winding.phase (h : Winding s) (hs : Still s u)
    (hi : s.shutdown ≠ .idle)
    (hlate : ∀ sid, s.shutdown = .starting (some sid) → s.startupOver sid = true)
    {p : ShutdownPhase}
    (hstop : ∀ after, p = .stopping after → ∀ x, u.stoppingPromise = some x → after = some x)
    (hpast : p.past = true → ∀ c, u.child = some c → u.touched c = true) :
    Winding { u with shutdown := p } := by
  have hd := h.running hi
  refine ⟨fun c hc hn => hs.earlier h.earlier c hc hn, fun _ => hs.disposed.trans hd, ?_, ?_, hpast⟩
  · intro _ i x hx he
    rcases hs.early i x hx he with ⟨y, hy, hye, hys⟩ | hx | hn
    · rw [← hys]
      rcases h.late hd i y hy hye with hl | hst
      · exact .inl hl
      · -- the awaited startup is over
        have ho := hlate i hst
        obtain ⟨g, q⟩ := y
        rw [startupOver, hy] at ho
        cases q with
        | done r => cases hye
        | _ => cases ho
    · exact .inl hx
    · cases hd.symm.trans hn
  · intro after ha x hx
    exact .inl (hstop after ha x hx)

/-- A spawn. -/
theorem Winding.spawn (h : Winding s) {sid : Nat} {g : Signal}
    (hx : s.startups[sid]? = some ⟨g, .listeners⟩) (hg : s.isAborted g = false)
    (hc : s.child.all s.terminated = true) : Winding (s.spawn sid g) := by
  have hget : ∀ {i : Nat} {x : Startup}, (s.spawn sid g).startups[i]? = some x → x.early = true →
      s.startups[i]? = some x := by
    intro i x hi he
    change (s.startups.set sid _)[i]? = some x at hi
    by_cases hs : sid = i
    · subst hs
      rw [List.getElem?_set_self (List.getElem?_eq_some_iff.mp hx).1] at hi
      cases hi
      cases he
    · rwa [List.getElem?_set_ne hs] at hi
  -- after `shutdown` only the startup that it awaits spawns
  have hphase : s.shutdown = .idle ∨ s.shutdown = .starting (some sid) := by
    by_cases hi : s.shutdown = .idle
    · exact .inl hi
    · have hd := h.running hi
      rcases h.late hd sid _ hx rfl with hl | hs
      · have hl : g.lifecycle = true := hl
        simp [State.isAborted, hl, hd] at hg
      · exact .inr hs
  refine ⟨?_, h.running, ?_, ?_, ?_⟩
  · intro c hlt hn
    have hlt : c < s.bridges.length + 1 := by
      have : (s.spawn sid g).bridges.length = s.bridges.length + 1 :=
        List.length_append.trans rfl
      rwa [this] at hlt
    have hne : c ≠ s.bridges.length := by
      rintro rfl
      exact hn rfl
    have hlt : c < s.bridges.length := by omega
    change ((s.bridges ++ [_])[c]?).any _ = true ∨ ((s.bridges ++ [_])[c]?).any _ = true
    rw [List.getElem?_append_left hlt]
    by_cases hsc : s.child = some c
    · rw [hsc] at hc
      exact .inr hc
    · exact h.earlier c hlt hsc
  · intro hd i x hi he
    exact h.late hd i x (hget hi he) he
  · intro after ha
    change s.shutdown = _ at ha
    rcases hphase with hi | hi <;> cases hi.symm.trans ha
  · intro hp
    change s.shutdown.past = true at hp
    rcases hphase with hi | hi <;> rw [hi] at hp <;> cases hp

/-! ## Every step -/

theorem State.spawns_iff {sid : Nat} {g : Signal} (hx : s.startups[sid]? = some ⟨g, .listeners⟩) :
    s.spawns sid (.ok ()) (.ok ()) = ! s.isAborted g := by
  simp only [State.spawns, hx]

theorem winding_listened (h : Winding s)
    (hl : ∀ c, Effect.shutdownLine c ∈ s.log → Effect.shutdownLine c ∈ t.log) {sid : Nat}
    {g : Signal} {result spawned : Except JsStr Unit}
    (hx : s.startups[sid]? = some ⟨g, .listeners⟩) (ho : s.Timely (.listened sid result spawned))
    (he : s.listenersDone sid g result spawned = t) : Winding t := by
  subst he
  unfold State.listenersDone at hl ⊢
  have hset : ∀ r, Still s (s.setStartup sid ⟨g, .settled r⟩) := fun r =>
    still_setStartup hx fun hy => by cases hy
  split at hl
  · exact h.still (hset _) hl
  split at hl
  · next hg => rw [if_pos hg]; exact h.still (hset _) hl
  next hg =>
  rw [if_neg hg]
  split at hl
  · refine h.still ?_ hl
    refine Still.trans (hset (.error ‹_›)) ?_
    exact still_of_eq rfl rfl rfl rfl rfl rfl
  · have hg : s.isAborted g = false := by simpa using hg
    refine h.spawn hx hg (ho ?_)
    rw [State.spawns_iff hx, hg]
    rfl

/-- Terminating is aside from the shutdown. -/
theorem State.kill_shutdown (s : State) (p : ShutdownPhase) :
    State.kill { s with shutdown := p } = { s.kill with shutdown := p } := by
  unfold State.kill State.terminate
  dsimp only
  split
  · rfl
  · rfl
  · cases s.kernelPgid <;> rfl

theorem winding_shutdownBridge (h : Winding s) (hsh : Shape s) {after : Option TerminationId}
    (hs : s.shutdown = .stopping after) (ha : s.stopped after = true) (thrown : Bool) :
    Winding (s.shutdownBridge thrown) := by
  have hi : s.shutdown ≠ .idle := by simp [hs]
  have hlate : ∀ sid, s.shutdown = .starting (some sid) → s.startupOver sid = true := by simp [hs]
  -- a termination in progress is not the awaited one, so it is of the runtime's bridge
  have hpromise : ∀ x, s.stoppingPromise = some x → ∀ c, s.child = some c → s.terminated c = true := by
    intro x hx
    refine (h.stopping after hs x hx).resolve_left ?_
    rintro rfl
    obtain ⟨y, hy, hyd⟩ := hsh.stopping hx
    simp only [stopped, terminationDone, hy, Option.all_some, decide_eq_true_eq] at ha
    exact hyd ha
  unfold State.shutdownBridge
  split
  · next hc =>
    exact h.phase (.refl s) hi hlate (by simp) fun _ c hsc => by cases hc.symm.trans hsc
  · next c hc =>
    dsimp only
    have hk : Known s := fun d hd => (hsh.child hd).1
    split
    · -- `terminate` stops the bridge, or its termination goes on already
      let q : State := { s with stopping := true }
      have hq : Still s q := still_of_eq rfl rfl rfl rfl rfl rfl
      have hu : Still s q.kill := hq.trans (still_kill q hk)
      have he : State.kill { q with shutdown := .closing c s.kernelPgid true none } =
          { q.kill with shutdown := .closing c s.kernelPgid true none } := q.kill_shutdown _
      refine he ▸ h.phase hu hi hlate (by simp) fun _ d hd => ?_
      have hsd := hu.child_of_some hd
      have hterm : q.kill.terminated d = true := by
        cases hp : s.stoppingPromise with
        | none => exact kill_terminated_child (by exact hp) (by exact hsd) (hk d hsd)
        | some x => exact kill_terminated (s := q) (hpromise x hp d hsd)
      unfold State.touched
      rw [hterm, Bool.or_true, Bool.true_or]
    · refine h.phase (u := { s with stopping := true, log := s.log ++ [.shutdownLine c] }) ?_ hi hlate
        (by simp) fun _ d hd => ?_
      · exact still_of_eq rfl rfl rfl rfl rfl rfl
      · obtain rfl : c = d := Option.some.inj (hc.symm.trans hd)
        unfold State.touched
        simp

theorem winding_dispose (h : Winding s) (hsh : Shape s) :
    Winding { s.dispose with shutdown := .starting s.dispose.starting } := by
  have hs : Still { s with disposed := true } s.dispose := still_abortListeners _ _
  have hd : Shape s.dispose :=
    Shape.abortListeners (s := { s with disposed := true }) (hsh.congr rfl) _
  refine ⟨hs.earlier h.earlier, fun _ => hs.disposed, ?_, by simp, by simp [ShutdownPhase.past]⟩
  intro _ i x hx he
  refine .inr (congrArg ShutdownPhase.starting (hd.running hx fun r hr => ?_))
  obtain ⟨g, q⟩ := x
  cases hr
  cases he

theorem still_resumeCall (hk : Known s) {k : Nat} {x : Call} (hx : s.calls[k]? = some x)
    (thrown : Option JsStr) (ho : s.Timely (.resume k thrown)) :
    Still s (s.resumeCall k x thrown) := by
  unfold State.resumeCall
  split
  · next hp =>
    refine Still.trans (s.still_continueStart (g := x.signal) ?_) ?_
    · -- a call that begins nothing late
      by_contra hn
      simp only [not_or, Bool.not_eq_true, Bool.not_eq_false] at hn
      refine ho ⟨hn.1, ?_⟩
      simp only [State.beginsLate, hx, Option.any_some, hp, hn.2.1, hn.2.2.1, Bool.not_false,
        Bool.true_and, Option.isNone_iff_eq_none]
      simpa using hn.2.2.2
    · exact still_of_eq rfl rfl rfl rfl rfl rfl
  · split <;> exact still_of_eq rfl rfl rfl rfl rfl rfl
  · split
    · exact still_of_eq rfl rfl rfl rfl rfl rfl
    · next id code cwd _ =>
      unfold State.executeStarted
      have hr := still_request (s := { s with pendingResetNotice := false }) hk
        (.execute id code cwd) x.signal (js "IPython execution cancelled") none thrown
      dsimp only
      split
      · next he =>
        rw [he] at hr
        refine Still.trans ?_ (hr.trans ?_)
        · exact still_of_eq rfl rfl rfl rfl rfl rfl
        · exact still_of_eq rfl rfl rfl rfl rfl rfl
      · next he =>
        rw [he] at hr
        refine Still.trans ?_ (hr.trans ?_)
        · exact still_of_eq rfl rfl rfl rfl rfl rfl
        · exact still_of_eq rfl rfl rfl rfl rfl rfl
    · exact still_of_eq rfl rfl rfl rfl rfl rfl
  · exact .refl s

theorem winding_job {e : Event} (h : Winding s) (hsh : Shape s) (ho : s.Timely e)
    (hl : ∀ c, Effect.shutdownLine c ∈ s.log → Effect.shutdownLine c ∈ t.log)
    (he : s.stepJob e = some t) : Winding t := by
  have hk : Known s := fun c hc => (hsh.child hc).1
  have hs := fun (hs : Still s t) => h.still hs hl
  cases e <;> simp only [stepJob, Option.some.injEq, reduceCtorEq] at he
  case start =>
    subst he
    exact hs ((s.still_beginStart _).trans (still_of_eq rfl rfl rfl rfl rfl rfl))
  case execute =>
    subst he
    unfold callExecute at hs ⊢
    dsimp only at hs ⊢
    split at hs
    · next hg => rw [if_pos hg]; exact hs (still_of_eq rfl rfl rfl rfl rfl rfl)
    · next hg =>
      rw [if_neg hg]
      exact hs ((s.still_beginStart _).trans (still_of_eq rfl rfl rfl rfl rfl rfl))
  case evaluate =>
    subst he
    refine hs (Still.trans ?_ (still_request ?_ _ _ _ _ _))
    · exact still_of_eq rfl rfl rfl rfl rfl rfl
    · exact hk
  case getConnectionFile =>
    subst he
    exact hs ((s.still_beginStart _).trans (still_of_eq rfl rfl rfl rfl rfl rfl))
  case shutdown =>
    split at he
    · cases he; exact winding_dispose h hsh
    · cases he; exact h
  case abort σ =>
    subst he
    refine hs (Still.trans ?_ (still_abortListeners _ _))
    exact still_of_eq rfl rfl rfl rfl rfl rfl
  case listened =>
    split at he
    · next hx => exact winding_listened h hl hx ho (Option.some.inj he)
    · cases he
  case stdinError =>
    split at he
    · cases he; exact hs (still_stdinError hk _ _)
    · cases he
  case writeError =>
    split at he
    · cases he
    · cases he; exact hs (still_stdinError hk _ _)
  case runtimeReady =>
    split at he
    · next hx =>
      obtain ⟨r, -, rfl⟩ := Option.map_eq_some_iff.mp he
      cases r with
      | ok => exact hs (still_setStartup hx fun _ => rfl)
      | error => exact hs (still_setStartup hx fun hy => by cases hy)
    · cases he
  case startupFailed =>
    split at he
    · next hx =>
      cases he
      have hx' : s.kill.startups = s.startups := by
        rcases s.terminate_cases with ⟨t, -, ht⟩ | ⟨-, -, ht⟩ | ⟨d, l, -, -, ht⟩ <;> rw [kill, ht]
      refine hs ((still_kill s hk).trans (still_setStartup (s := s.kill) (hx'.symm ▸ hx) ?_))
      intro hy
      cases hy
    · cases he
  case startupStopped =>
    split at he
    · next hx =>
      split at he
      · cases he; exact hs (still_setStartup hx fun hy => by cases hy)
      · cases he
    · cases he
  case startupReady =>
    split at he
    · next hx => cases he; exact hs (still_setStartup hx fun hy => by cases hy)
    · cases he
  case startupDone =>
    split at he
    · next sid _ g r hx =>
      cases he
      have hd : Still s (s.setStartup sid ⟨g, .done r⟩) :=
        still_setStartup hx fun hy => by cases hy
      refine hs (hd.trans ?_)
      exact still_of_eq rfl rfl rfl rfl rfl rfl
    · cases he
  case reap =>
    split at he
    · next x hx =>
      split at he
      · cases he
        refine hs ?_
        unfold reapGroup
        split
        · refine (kept_signalProcessGroup s x.kernelPgid .sigterm).still.trans ?_
          exact still_of_eq rfl rfl rfl rfl rfl rfl
        · exact still_of_eq rfl rfl rfl rfl rfl rfl
      · cases he
    · cases he
  case terminated x =>
    split at he
    · split at he
      · cases he
        refine hs { still_of_eq (t := s) rfl rfl rfl rfl rfl rfl with promise := fun y hy => ?_ }
        change (if s.stoppingPromise = some x then none else s.stoppingPromise) = some y at hy
        split at hy
        · cases hy
        · exact .inl hy
      · cases he
    · cases he
  case reject =>
    split at he
    · split at he
      · cases he; exact hs (still_of_eq rfl rfl rfl rfl rfl rfl)
      · cases he
    · cases he
  case resume =>
    split at he
    · next hx =>
      split at he
      · cases he; exact hs (still_resumeCall hk hx _ ho)
      · cases he
    · cases he
  case shutdownStarted =>
    split at he
    · next sid hp =>
      split at he
      · next hover =>
        cases he
        refine h.phase (.refl s) (by simp [hp]) (fun i hi => ?_) (fun after ha x hx => ?_) (by
          simp [ShutdownPhase.past])
        · cases hp.symm.trans hi
          simpa using hover
        · cases ha; exact hx
      · cases he
    · cases he
  case shutdownStopped =>
    split at he
    · next hp =>
      split at he
      · next ha => cases he; exact winding_shutdownBridge h hsh hp ha _
      · cases he
    · cases he
  case shutdownTerminated =>
    split at he
    · next hp =>
      split at he
      · cases he
        exact h.phase (.refl s) (by simp [hp]) (by simp [hp]) (by simp) fun _ => h.past (by rw [hp]; rfl)
      · cases he
    · cases he
  case shutdownReap =>
    split at he
    · next g hp =>
      cases he
      have hpast := h.past (by rw [hp]; rfl)
      unfold shutdownReaps at hl ⊢
      split at hl
      · next ha =>
        rw [if_pos ha]
        have hu := (kept_signalProcessGroup s g .sigterm).still
        exact h.phase hu (by simp [hp]) (by simp [hp]) (by simp) fun _ c hc =>
          hu.touched hl (hpast c (hu.child_of_some hc))
      · next ha =>
        rw [if_neg ha]
        exact h.phase (.refl s) (by simp [hp]) (by simp [hp]) (by simp) fun _ => hpast
    · cases he
  case shutdownWriteError =>
    split at he
    · cases he
    · cases he
    · cases he
    · cases he; exact hs (still_kill s hk)

/-- The close of a bridge ends the wait of `shutdown` for it. -/
def ShutdownPhase.afterClose (c : BridgeId) : ShutdownPhase → ShutdownPhase
  | .closing d g timer after => if d = c then .closed g else .closing d g timer after
  | x => x

theorem bridgeCloses_eq (s : State) (c : BridgeId) (code : Option Nat) (signal : Option JsStr)
    (alive : Int → Bool) : s.bridgeCloses c code signal alive =
      { { (s.bridgeEnds c (exitReason code signal) fun b => { b with closed := true }) with
          terminations := (s.bridgeEnds c (exitReason code signal) fun b =>
            { b with closed := true }).terminations.map (bridgeClosed alive c) } with
        shutdown := s.shutdown.afterClose c } := by
  rw [← (handleExit_shutdown { s with bridges := s.bridges.modify c fun b =>
    { b with closed := true } } c (exitReason code signal)).1]
  rfl

theorem ShutdownPhase.afterClose_cases (c : BridgeId) (p : ShutdownPhase) :
    p.afterClose c = p ∨ ∃ d g timer after, p = .closing d g timer after ∧
      p.afterClose c = .closed g := by
  cases p with
  | closing d g timer after =>
    by_cases hd : d = c
    · exact .inr ⟨d, g, timer, after, rfl, if_pos hd⟩
    · exact .inl (if_neg hd)
  | _ => exact .inl rfl

theorem winding_task {e : Event} (h : Winding s) (hsh : Shape s)
    (hl : ∀ c, Effect.shutdownLine c ∈ s.log → Effect.shutdownLine c ∈ t.log)
    (he : s.stepTask e = some t) : Winding t := by
  have hk : Known s := fun c hc => (hsh.child hc).1
  have hs := fun (hs : Still s t) => h.still hs hl
  cases e <;> simp only [stepTask, reduceCtorEq] at he
  case uv =>
    obtain ⟨x, -, rfl⟩ := Option.map_eq_some_iff.mp he
    refine hs ?_
    unfold uvEnds
    dsimp only
    split
    · exact still_of_eq rfl rfl rfl rfl rfl rfl
    · split <;> exact still_of_eq rfl rfl rfl rfl rfl rfl
    · exact still_of_eq rfl rfl rfl rfl rfl rfl
    · split <;> exact still_of_eq rfl rfl rfl rfl rfl rfl
    · exact .refl s
  case stderr =>
    split at he
    · cases he; exact hs (kept_addStderr _ _).still
    · cases he
  case exit =>
    split at he
    · cases he
      exact hs ⟨List.length_modify _ _ _, .inl rfl,
        fun c => any_modify (p := Bridge.gone) (f := fun b => { b with exited := true })
          fun b hb => hb,
        fun c => any_modify (p := Bridge.terminated) (f := fun b => { b with exited := true })
          fun b hb => hb, fun x hx => .inl hx,
        rfl, rfl, fun i x hx he => .inl ⟨x, hx, he, rfl⟩⟩
    · cases he
  case error =>
    split at he
    · cases he
      exact hs (still_bridgeEnds (f := fun b => { b with failed := true }) hk (fun _ => rfl)
        (fun _ => rfl) _ _)
    · cases he
  case close c code signal alive =>
    split at he
    · split at he
      · cases he
      · cases he
        have hu := still_bridgeEnds (f := fun b => { b with closed := true }) hk
          (fun b => Bool.or_true _) (fun _ => rfl) c (exitReason code signal)
        rw [bridgeCloses_eq] at hl ⊢
        have hv : Still s { (s.bridgeEnds c (exitReason code signal) fun b =>
            { b with closed := true }) with
            terminations := (s.bridgeEnds c (exitReason code signal) fun b =>
              { b with closed := true }).terminations.map (bridgeClosed alive c) } := by
          refine hu.trans ?_
          exact still_of_eq rfl rfl rfl rfl rfl rfl
        rcases ShutdownPhase.afterClose_cases c s.shutdown with hp | ⟨d, g, timer, after, hp, hq⟩
        · exact h.still { hv with shutdown := hp } hl
        · rw [hq] at hl ⊢
          exact h.phase hv (by simp [hp]) (by simp [hp]) (by simp) fun _ b hb =>
            hv.touched hl (h.past (by rw [hp]; rfl) b (hv.child_of_some hb))
    · cases he
  case startupTimeout =>
    split at he
    · cases he
      obtain ⟨w, l, hw, he⟩ := s.finishStartup_eq _ _
      rw [he]
      exact h.still (hw.still fun _ _ => rfl) (by rw [he] at hl; exact hl)
    · cases he
  case timeout =>
    split at he
    · cases he
    split at he
    · cases he
    split at he
    · cases he
      refine hs (Still.trans ?_ (kept_interrupt _ _ _).still)
      exact still_of_eq rfl rfl rfl rfl rfl rfl
    · cases he
  case grace =>
    split at he
    · cases he
    split at he
    · cases he
      refine hs ?_
      unfold graceExpired
      split
      · exact .refl s
      split
      · exact .refl s
      split
      · exact .refl s
      · refine Still.trans (t := State.kill { s with active := none, pendingResetNotice := true }) ?_ ?_
        · refine Still.trans ?_ (still_kill _ hk)
          exact still_of_eq rfl rfl rfl rfl rfl rfl
        · exact still_of_eq rfl rfl rfl rfl rfl rfl
    · cases he
  case force =>
    split at he
    · next x hx =>
      split at he
      · cases he
        have hu : Still s ((s.signalProcessGroup x.kernelPgid .sigkill).emit
            (.signalBridge x.child .sigkill)) :=
          ((kept_signalProcessGroup _ _ _).trans (kept_emit _ _)).still
        refine hs (hu.trans ?_)
        unfold forceExpired
        dsimp only
        split <;> exact still_of_eq rfl rfl rfl rfl rfl rfl
      · cases he
    · cases he
  case giveUp =>
    split at he
    · split at he
      · cases he; exact hs (still_of_eq rfl rfl rfl rfl rfl rfl)
      · cases he
    · cases he
  case reapTimer =>
    split at he
    · next x hx =>
      split at he
      · cases he
        refine hs ?_
        unfold reapExpired
        split
        · refine (kept_signalProcessGroup s x.kernelPgid .sigkill).still.trans ?_
          exact still_of_eq rfl rfl rfl rfl rfl rfl
        · exact still_of_eq rfl rfl rfl rfl rfl rfl
      · cases he
    · cases he
  case killTimer =>
    split at he
    · cases he
      refine hs (Still.trans ?_ (kept_signalProcessGroup _ _ _).still)
      exact still_of_eq rfl rfl rfl rfl rfl rfl
    · cases he
  case shutdownTimeout =>
    split at he
    · next c g hp =>
      cases he
      have hu := still_kill s hk
      exact h.phase hu (by simp [hp]) (by simp [hp]) (by simp) fun _ d hd =>
        hu.touched hl (h.past (by rw [hp]; rfl) d (hu.child_of_some hd))
    · cases he
  case shutdownReapTimer =>
    split at he
    · next g hp =>
      cases he
      have hpast := h.past (by rw [hp]; rfl)
      unfold shutdownReapExpired at hl ⊢
      split at hl
      · next ha =>
        rw [if_pos ha]
        have hu := (kept_signalProcessGroup s g .sigkill).still
        exact h.phase hu (by simp [hp]) (by simp [hp]) (by simp) fun _ c hc =>
          hu.touched hl (hpast c (hu.child_of_some hc))
      · next ha =>
        rw [if_neg ha]
        exact h.phase (.refl s) (by simp [hp]) (by simp [hp]) (by simp) fun _ => hpast
    · next hp =>
      cases he
      exact h.phase (.refl s) (by simp [hp]) (by simp [hp]) (by simp) fun _ => h.past (by rw [hp]; rfl)
    · cases he

/-! ## Runs -/

theorem kill_length (s : State) : s.kill.bridges.length = s.bridges.length := by
  rcases s.terminate_cases with ⟨t, -, h⟩ | ⟨-, -, h⟩ | ⟨d, l, -, -, h⟩ <;> rw [State.kill, h]
  exact List.length_modify _ _ _

theorem failActive_length (s : State) (m : JsStr) :
    (s.failActive m).bridges.length = s.bridges.length :=
  congrArg (fun x => (Skeleton.bridges x).length) (failActive_skeleton s m)

theorem rejectReady_length (s : State) (e : JsStr) :
    (s.rejectReady e).bridges.length = s.bridges.length := by
  obtain ⟨w, l, -, h⟩ := s.rejectReady_eq e
  rw [h]

theorem abortListeners_length (s : State) (fires : Signal → Bool) :
    (s.abortListeners fires).bridges.length = s.bridges.length := by
  obtain ⟨w, l, -, ⟨-, h⟩ | ⟨a, -, -, h⟩⟩ := s.abortListeners_cases fires
  · rw [h]
  · rw [h]
    exact congrArg (fun x => (Skeleton.bridges x).length) (kept_interrupt _ _ _).skeleton

theorem bridgeEnds_length (s : State) (c : BridgeId) (r : JsStr) (f : Bridge → Bridge) :
    (s.bridgeEnds c r f).bridges.length = s.bridges.length := by
  have hm : (s.bridges.modify c f).length = s.bridges.length := List.length_modify _ _ _
  rcases handleExit_cases { s with bridges := s.bridges.modify c f } c r with
    ⟨-, h⟩ | ⟨-, e, ⟨-, h⟩ | ⟨-, l, k, m, h⟩⟩
  · rw [bridgeEnds, h]; exact hm
  · rw [bridgeEnds, h, rejectReady_length]; exact hm
  · rw [bridgeEnds, h, failActive_length]
    exact (rejectReady_length _ e).trans hm

/-- A bridge is added by a spawn only. -/
theorem State.Change.bridges {e : Event} (h : Change s e t) :
    t.bridges.length = s.bridges.length ∨ ∃ sid g, t = s.spawn sid g := by
  cases h with
  | aside h => exact .inl h.bridges
  | line hk hl =>
    refine .inl ?_
    cases hl with
    | kept h => exact congrArg (fun x => (Skeleton.bridges x).length) h.skeleton
    | lost e m =>
      refine (kill_length _).trans ?_
      exact (failActive_length _ m).trans (rejectReady_length s e)
    | refused e => exact (kill_length _).trans (rejectReady_length s e)
    | announced g f =>
      obtain ⟨w, l, -, he⟩ := resolveReady_eq { s with
        kernelPgid := some g, kernelConnectionFile := some f, ready := true
        generation := s.generation + 1 }
      rw [he]
    | bridgeError ha m => exact kill_length _
    | result ha x => rfl
  | evaluate expression ms signal thrown id reason limit =>
    refine .inl ?_
    rcases request_cases { s with evaluateIndex := s.evaluateIndex + 1 } (.evaluate id expression)
      ⟨signal, true⟩ reason (some limit) thrown with ⟨-, e, h⟩ | ⟨c, -, -, -, -, ⟨-, l, h⟩ | ⟨-, e, x, h⟩⟩
    · rw [h]
    · rw [h]; rfl
    · rw [h]; exact kill_length _
  | @execute k g id code cwd thrown hx =>
    refine .inl ?_
    rcases s.executeStarted_cases k ⟨.execute id code cwd, g, .started⟩ id code cwd thrown with
      ⟨-, e, h⟩ | ⟨c, -, -, -, -, ⟨-, l, h⟩ | ⟨-, e, m, h⟩⟩
    · rw [h]; rfl
    · rw [h]; rfl
    · rw [h]; exact kill_length _
  | abort σ => exact .inl (abortListeners_length _ _)
  | dispose p => exact .inl (abortListeners_length { s with disposed := true } _)
  | @spawn sid g e hx => exact .inr ⟨sid, g, rfl⟩
  | unspawned hx => exact .inl rfl
  | @stdin e d reason l m hd he =>
    refine .inl ((kill_length _).trans ?_)
    rw [failActive_length]
    rfl
  | startupFailed hx after => exact .inl (kill_length s)
  | startupTimeout sid m =>
    obtain ⟨w, l, -, he⟩ := s.finishStartup_eq sid fun _ => .failed m
    rw [he]
    exact .inl rfl
  | timeout ha ht =>
    exact .inl (congrArg (fun x => (Skeleton.bridges x).length) (kept_interrupt _ _ _).skeleton)
  | grace ha hi after m => exact .inl (kill_length _)
  | reject hx => exact .inl rfl
  | closing he hc hs p l => exact .inl rfl
  | shutdownKill he hs b p q => exact .inl (kill_length _)
  | error c m reason => exact .inl (bridgeEnds_length _ _ _ _)
  | close hf c code signal alive reason l hp => exact .inl (bridgeEnds_length _ _ _ _)

/-- What a run keeps in which `shutdown` can stop every bridge. -/
structure Wound (s : State) : Prop where
  sound : Sound s
  winding : Winding s
  asked : ∀ c, Effect.shutdownLine c ∈ s.log → c < s.bridges.length

theorem wound_init : Wound State.init := ⟨sound_init, winding_init, by simp [State.init]⟩

theorem Winding.chunk (h : Winding s) (k : Option BridgeId) : Winding { s with chunk := k } :=
  ⟨h.earlier, h.running, h.late, h.stopping, h.past⟩

theorem winding_step {e : Event} (h : Wound s) (ho : s.Timely e) (he : step s e = some t) :
    Winding t := by
  have hl : ∀ c, Effect.shutdownLine c ∈ s.log → Effect.shutdownLine c ∈ t.log := fun c =>
    (logs_step he).mem
  unfold step at he
  split at he
  · split at he
    · cases he
      have hk : Known s := fun c hc => (h.sound.shape.child hc).1
      exact (h.winding.still (still_line hk (s.handleLine_cases _ _ _)) hl).chunk _
    · cases he
  · split at he
    · next u hj =>
      cases he
      exact (winding_job (t := u) h.winding h.sound.shape ho hl hj).chunk none
    · split at he
      · obtain ⟨u, hu, rfl⟩ := Option.map_eq_some_iff.mp he
        exact (winding_task (t := u) h.winding h.sound.shape hl hu).chunk none
      · cases he

theorem wound_step {e : Event} (h : Wound s) (ho : s.Timely e) (he : step s e = some t) :
    Wound t := by
  refine ⟨sound_step h.sound he, winding_step h ho he, fun c hc => ?_⟩
  have hlen : s.bridges.length ≤ t.bridges.length := by
    obtain ⟨u, k, rfl, hu⟩ := step_cases he
    rcases hu.bridges with hu | ⟨sid, g, rfl⟩
    · exact hu.ge
    · change s.bridges.length ≤ (s.bridges ++ [Bridge.spawned]).length
      rw [List.length_append]
      exact Nat.le_add_right _ _
  obtain ⟨l, hl, -, hd⟩ := logs_step he
  rw [hl] at hc
  rcases List.mem_append.mp hc with hc | hc
  · exact (h.asked c hc).trans_le hlen
  · exact (h.sound.shape.child (hd c hc)).1.trans_le hlen

/-- Once `shutdown` is settled no step spawns: the spawned bridge would be untouched. -/
theorem Wound.spawnsNothing {e : Event} (h : Wound s) (ho : s.Timely e) : s.SpawnsNothing e := by
  intro hd t he
  have ht := winding_step h ho he
  obtain ⟨u, k, rfl, hu⟩ := step_cases he
  rcases hu.bridges with hu | ⟨sid, g, rfl⟩
  · exact hu
  · have htouched := ht.past (by change s.shutdown.past = true; rw [hd]; rfl) s.bridges.length rfl
    simp only [State.touched, Bool.or_eq_true, decide_eq_true_eq] at htouched
    rcases htouched with (hg | ht) | hl
    · change ((s.bridges ++ [Bridge.spawned])[s.bridges.length]?).any _ = true at hg
      rw [List.getElem?_concat_length] at hg
      cases hg
    · change ((s.bridges ++ [Bridge.spawned])[s.bridges.length]?).any _ = true at ht
      rw [List.getElem?_concat_length] at ht
      cases ht
    · change _ ∈ s.log ++ [Effect.spawn _] at hl
      rcases List.mem_append.mp hl with hl | hl
      · exact absurd (h.asked _ hl) (lt_irrefl _)
      · cases List.mem_singleton.mp hl

/-- **Nothing starts after `shutdown`** in a timely run of a new runtime: once `shutdown` is
settled no step spawns a bridge, and every bridge has exited or was asked to stop. -/
theorem quiescent_of_timely {es : List Event} (h : AllSteps step State.Timely State.init es) :
    Throughout step State.Quiescent State.init es ∧
      AllSteps step State.SpawnsNothing State.init es :=
  ⟨(invariant_throughout (fun _ _ _ => wound_step) wound_init h).mono fun _ hw =>
      hw.winding.quiescent,
    h.of_invariant (fun _ _ _ => wound_step) (fun _ _ => Wound.spawnsNothing) wound_init⟩

/-- `shutdown` of a runtime whose bridge is ready. -/
def shutdownRun (disk : Disk) : List Event := startRun disk ++ [
  .shutdown, .shutdownStarted, .shutdownStopped false, .close 0 none none (fun _ => false),
  .shutdownReap (fun _ => false)]

set_option maxRecDepth 8000 in
theorem quiescent_shutdownRun :
    Throughout step State.Quiescent State.init (shutdownRun ⟨.error [], none⟩) ∧
      AllSteps step State.SpawnsNothing State.init (shutdownRun ⟨.error [], none⟩) :=
  quiescent_of_timely (by decide +kernel)

/-- A malformed line stops the bridge; a `start` without a signal waits for that, and so does
`shutdown`, which is done first. -/
def lateRun (disk : Disk) : List Event := startRun disk ++ [
  .line 0 (js "\x7b\"type\":\"fatal\"\x7d") disk, .start none, .shutdown, .shutdownStarted,
  .close 0 none none (fun _ => false), .reap 0 (fun _ => false), .terminated 0,
  .shutdownStopped false, .shutdownReap (fun _ => false), .resume 1 none, .runtimeReady 1,
  .listened 1 (.ok ()) (.ok ())]

set_option maxRecDepth 8000 in
/-- **A `start` that waited for a termination spawns a bridge behind a settled `shutdown`**. -/
theorem not_quiescent_lateRun :
    ¬ ∀ es, (runAll step State.init es).isSome → Throughout step State.Quiescent State.init es := by
  intro h
  have hrun : (runAll step State.init (lateRun ⟨.error [], none⟩)).any (fun t =>
      decide (t.shutdown = .done) && decide (1 < t.bridges.length) && ! t.touched 1) = true := by
    decide +kernel
  cases ht : runAll step State.init (lateRun ⟨.error [], none⟩) with
  | none => simp [ht] at hrun
  | some t =>
    simp only [ht, Option.any_some, Bool.and_eq_true, decide_eq_true_eq] at hrun
    have hn := (h _ (by rw [ht]; rfl)).last ht hrun.1.1 1 hrun.1.2
    simp [hn] at hrun

end PiIpython.Runtime
