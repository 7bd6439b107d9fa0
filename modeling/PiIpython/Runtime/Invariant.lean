import PiIpython.Runtime.Frame

/-!
# Startups and terminations in every run

`Shape` is what every reachable state keeps about its startups, its bridge and
the termination in progress: at most one startup is under way, one that waits
for its bridge holds the ready waiter and the bridge is not ready, and a failed
one whose handler has not run yet leaves no usable bridge behind, unless
another termination is in the way (`Held`). `Chunk` is what holds between the
lines of one chunk. `shape_step` is the step lemma.
-/

namespace PiIpython.Runtime

open Text

namespace State

/-- A termination is in progress that no job can bring further. -/
def Held (s : State) : Prop :=
  ∃ t x, s.stoppingPromise = some t ∧ s.terminations[t]? = some x ∧ x.phase ≠ .done ∧
    terminationRunnable x = false

end State

open State

structure Shape (s : State) : Prop where
  /-- Only the startup in `starting` is not over. -/
  running : ∀ {sid : Nat} {x : Startup}, s.startups[sid]? = some x →
    (∀ r, x.phase ≠ .done r) → s.starting = some sid
  waiting : ∀ {sid : Nat} {g : Signal} {c : BridgeId}, s.startups[sid]? = some ⟨g, .waiting c⟩ →
    s.readyWaiter = some sid ∧ s.ready = false
  stopping : ∀ {t : TerminationId}, s.stoppingPromise = some t →
    ∃ x, s.terminations[t]? = some x ∧ x.phase ≠ .done
  child : ∀ {c : BridgeId}, s.child = some c → c < s.bridges.length ∧ s.gone c = false
  failed : ∀ {sid : Nat} {g : Signal} {e : JsStr}, s.startups[sid]? = some ⟨g, .failed e⟩ →
    s.Held ∨ ∀ c, s.child = some c → s.terminated c = true ∨ s.ready = false

/-- Between the lines of one chunk no termination can go on, and the bridge of a failed startup is
being terminated. -/
structure Chunk (s : State) : Prop where
  still : ∀ {t : TerminationId} {x : Termination}, s.terminations[t]? = some x →
    terminationRunnable x = false
  failed : ∀ {sid : Nat} {g : Signal} {e : JsStr}, s.startups[sid]? = some ⟨g, .failed e⟩ →
    s.Held ∨ ∀ c, s.child = some c → s.terminated c = true

theorem Shape.congr {s t : State} (h : Shape s) (he : t.skeleton = s.skeleton) : Shape t := by
  rcases s with ⟨⟩
  rcases t with ⟨⟩
  simp only [skeleton, Skeleton.mk.injEq] at he
  obtain ⟨rfl, rfl, rfl, rfl, rfl, rfl, rfl, rfl⟩ := he
  exact ⟨h.running, h.waiting, h.stopping, h.child, h.failed⟩

theorem Chunk.congr {s t : State} (h : Chunk s) (he : t.skeleton = s.skeleton) : Chunk t := by
  rcases s with ⟨⟩
  rcases t with ⟨⟩
  simp only [skeleton, Skeleton.mk.injEq] at he
  obtain ⟨rfl, rfl, rfl, rfl, rfl, rfl, rfl, rfl⟩ := he
  exact ⟨h.still, h.failed⟩

/-! ## Methods that leave the skeleton alone -/

namespace State

variable (s : State)

@[simp] theorem noteReset_skeleton : s.noteReset.skeleton = s.skeleton := rfl

@[simp] theorem failActive_skeleton (m : JsStr) : (s.failActive m).skeleton = s.skeleton := by
  rcases s.failActive_cases m with ⟨-, h⟩ | ⟨a, -, h⟩ <;> rw [h]; rfl

end State

/-! ## Terminating -/

theorem terminated_modify {l : List Bridge} {c d : Nat} :
    ((l.modify c fun b => { b with terminated := true })[d]?).any (·.terminated) =
      ((l[d]?).any (·.terminated) || decide (c = d ∧ d < l.length)) := by
  by_cases h : c = d
  · subst h
    rw [List.getElem?_modify_eq]
    by_cases hl : c < l.length
    · simp [hl]
    · simp [hl]
  · rw [List.getElem?_modify_ne _ _ h]; simp [h]

theorem gone_modify {l : List Bridge} {c d : Nat} {f : Bridge → Bridge}
    (hf : ∀ b, (f b).gone = b.gone) :
    ((l.modify c f)[d]?).any (·.gone) = (l[d]?).any (·.gone) := by
  rw [List.getElem?_modify]
  split
  · cases l[d]? <;> simp [hf]
  · cases l[d]? <;> rfl

/-- A bridge just terminated is terminated, and one that was stays so. -/
theorem State.kill_terminated {s : State} {c : BridgeId} (h : s.terminated c = true) :
    s.kill.terminated c = true := by
  rcases s.terminate_cases with ⟨t, -, ht⟩ | ⟨-, -, ht⟩ | ⟨d, l, -, -, ht⟩
  · rwa [kill, ht]
  · rwa [kill, ht]
  · rw [kill, ht]
    change ((s.bridges.modify d _)[c]?).any _ = true
    rw [terminated_modify]
    exact Bool.or_eq_true_iff.mpr (.inl h)

theorem Shape.kill {s : State} (h : Shape s) : Shape s.kill := by
  rcases s.terminate_cases with ⟨t, -, ht⟩ | ⟨-, -, ht⟩ | ⟨d, l, hs, hc, ht⟩
  · rw [State.kill, ht]; exact h
  · rw [State.kill, ht]; exact h
  · rw [State.kill, ht]
    refine ⟨h.running, fun hw => ⟨(h.waiting hw).1, rfl⟩, ?_, ?_, ?_⟩
    · intro t ht
      obtain rfl : s.terminations.length = t := Option.some.inj ht
      exact ⟨_, List.getElem?_concat_length, fun h => by cases h⟩
    · intro c hc
      obtain ⟨hl, hg⟩ := h.child hc
      refine ⟨by rw [List.length_modify]; exact hl, ?_⟩
      change ((s.bridges.modify d _)[c]?).any _ = false
      rw [gone_modify (f := fun b => { b with terminated := true }) fun b => rfl]
      exact hg
    · exact fun _ => .inr fun c _ => .inr rfl

/-- Without a termination in progress, `kill` terminates the bridge. -/
theorem State.kill_terminated_child {s : State} {c : BridgeId} (hs : s.stoppingPromise = none)
    (hc : s.child = some c) (hl : c < s.bridges.length) : s.kill.terminated c = true := by
  rcases s.terminate_cases with ⟨t, hp, -⟩ | ⟨-, hn, -⟩ | ⟨d, l, -, hd, ht⟩
  · cases hs.symm.trans hp
  · cases hn.symm.trans hc
  · obtain rfl : d = c := Option.some.inj (hd.symm.trans hc)
    rw [kill, ht]
    change ((s.bridges.modify d _)[d]?).any _ = true
    rw [terminated_modify]
    simp [hl]

/-- After `kill` the bridge is terminated, or another termination is in the way. -/
theorem State.kill_guarded {s : State} (hc : ∀ {c}, s.child = some c → c < s.bridges.length)
    (hs : ∀ {t}, s.stoppingPromise = some t → ∃ x, s.terminations[t]? = some x ∧ x.phase ≠ .done)
    (hr : ∀ {t : TerminationId} {x : Termination}, s.terminations[t]? = some x →
      terminationRunnable x = false) :
    s.kill.Held ∨ ∀ c, s.kill.child = some c → s.kill.terminated c = true := by
  rcases s.terminate_cases with ⟨t, hp, ht⟩ | ⟨-, hn, ht⟩ | ⟨d, l, -, hd, ht⟩
  · rw [kill, ht]
    obtain ⟨x, hx, hxd⟩ := hs hp
    exact .inl ⟨t, x, hp, hx, hxd, hr hx⟩
  · rw [kill, ht]
    exact .inr fun c h => by cases hn.symm.trans h
  · rw [kill, ht]
    refine .inr fun c h => ?_
    obtain rfl : d = c := Option.some.inj (hd.symm.trans h)
    change ((s.bridges.modify d _)[d]?).any _ = true
    rw [terminated_modify]
    simp [hc hd]

/-- New phases of terminations appear only when one starts, and it waits. -/
theorem State.kill_still {s : State} (hr : ∀ {t : TerminationId} {x : Termination},
      s.terminations[t]? = some x → terminationRunnable x = false)
    {t : TerminationId} {x : Termination} (hx : s.kill.terminations[t]? = some x) :
    terminationRunnable x = false := by
  rcases s.terminate_cases with ⟨t', -, ht⟩ | ⟨-, -, ht⟩ | ⟨d, l, -, -, ht⟩
  · rw [State.kill, ht] at hx; exact hr hx
  · rw [State.kill, ht] at hx; exact hr hx
  · rw [State.kill, ht] at hx
    change (s.terminations ++ [_])[t]? = some x at hx
    rw [List.getElem?_append] at hx
    split at hx
    · exact hr hx
    · obtain ⟨-, rfl⟩ : _ ∧ _ = x := by simpa [List.getElem?_singleton] using hx
      rfl

/-- If no termination can go on before `kill`, what `Chunk` says holds after it. -/
theorem Shape.chunk_kill {s : State} (h : Shape s)
    (hr : ∀ {t : TerminationId} {x : Termination}, s.terminations[t]? = some x →
      terminationRunnable x = false) : Chunk s.kill :=
  ⟨State.kill_still hr, fun _ => State.kill_guarded (fun hc => (h.child hc).1) h.stopping hr⟩

/-! ## Startups -/

/-- A startup under way goes on to a phase that does not wait for the bridge. -/
theorem Shape.setStartup {s : State} (h : Shape s) {sid : Nat} {g k : Signal}
    {p q : StartupPhase} (hx : s.startups[sid]? = some ⟨g, p⟩) (hp : ∀ r, p ≠ .done r)
    (hq : ∀ c, q ≠ .waiting c)
    (hf : ∀ e, q = .failed e → s.Held ∨ ∀ c, s.child = some c → s.terminated c = true ∨
      s.ready = false) : Shape (s.setStartup sid ⟨k, q⟩) := by
  have hl : sid < s.startups.length := (List.getElem?_eq_some_iff.mp hx).1
  have hget : ∀ {i : Nat} {y : Startup}, (s.setStartup sid ⟨k, q⟩).startups[i]? = some y →
      i = sid ∧ y = ⟨k, q⟩ ∨ s.startups[i]? = some y := by
    intro i y hy
    change (s.startups.set sid _)[i]? = some y at hy
    by_cases he : sid = i
    · subst he
      rw [List.getElem?_set_self hl] at hy
      exact .inl ⟨rfl, (Option.some.inj hy).symm⟩
    · rw [List.getElem?_set_ne he] at hy
      exact .inr hy
  refine ⟨?_, ?_, h.stopping, h.child, ?_⟩
  · intro i y hy hd
    rcases hget hy with ⟨rfl, rfl⟩ | hy
    · exact h.running hx hp
    · exact h.running hy hd
  · intro i g' c hy
    rcases hget hy with ⟨rfl, he⟩ | hy
    · exact absurd (congrArg Startup.phase he).symm (hq c)
    · exact h.waiting hy
  · intro i g' e hy
    rcases hget hy with ⟨rfl, he⟩ | hy
    · exact hf e (congrArg Startup.phase he).symm
    · exact h.failed hy

theorem Shape.continueStart {s : State} (h : Shape s) (g : Signal) :
    Shape (s.continueStart g).1 := by
  unfold State.continueStart
  split
  · exact h
  split
  · exact h
  · next hn =>
    -- no startup is under way
    have hdone : ∀ {sid : Nat} {x : Startup}, s.startups[sid]? = some x → ∃ r, x.phase = .done r := by
      intro sid x hx
      by_contra hne
      rw [h.running hx fun r hr => hne ⟨r, hr⟩] at hn
      cases hn
    have hnew : ∀ {y : Startup} {sid : Nat} {x : Startup}, (s.startups ++ [y])[sid]? = some x →
        s.startups[sid]? = some x ∨ sid = s.startups.length ∧ x = y := by
      intro y sid x hx
      rw [List.getElem?_append] at hx
      split at hx
      · exact .inl hx
      · obtain ⟨h0, rfl⟩ : sid - s.startups.length = 0 ∧ y = x := by
          simpa [List.getElem?_singleton] using hx
        exact .inr ⟨by omega, rfl⟩
    have hshape : ∀ (p : Nat) (o : Option Nat) (l : List Provision), Shape { s with
        provisioning := o
        provisions := l
        startups := s.startups ++ [⟨g, .provisioning p⟩]
        starting := some s.startups.length } := by
      intro p o l
      refine ⟨?_, ?_, h.stopping, h.child, ?_⟩
      · intro sid x hx hd
        rcases hnew hx with hx | ⟨rfl, -⟩
        · obtain ⟨r, hr⟩ := hdone hx
          exact absurd hr (hd r)
        · rfl
      · intro sid g' c hx
        rcases hnew hx with hx | ⟨-, hx⟩
        · exact h.waiting hx
        · cases hx
      · intro sid g' e hx
        rcases hnew hx with hx | ⟨-, hx⟩
        · exact h.failed hx
        · cases hx
    unfold State.startKernel
    dsimp only
    split
    · exact hshape _ s.provisioning s.provisions
    · exact hshape _ _ _

theorem Shape.beginStart {s : State} (h : Shape s) (g : Signal) : Shape (s.beginStart g).1 := by
  unfold State.beginStart
  split
  · exact h
  split
  · exact h
  · exact h.continueStart g

/-! ## The ready waiter -/

/-- Ending the wait of the startup whose waiter is set ends all waits. -/
theorem Shape.finish_none {s : State} (h : Shape s) {sid : Nat} (hw : s.readyWaiter = some sid)
    {f : BridgeId → StartupPhase} (hf : ∀ c d, f c ≠ .waiting d) {i : Nat} {g : Signal}
    {c : BridgeId} : (s.finishStartup sid f).startups[i]? ≠ some ⟨g, .waiting c⟩ := by
  intro hi
  unfold finishStartup at hi
  split at hi
  · next g' d hx =>
    change (s.startups.set sid _)[i]? = _ at hi
    by_cases he : sid = i
    · subst he
      rw [List.getElem?_set_self (List.getElem?_eq_some_iff.mp hx).1] at hi
      exact hf d c (congrArg Startup.phase (Option.some.inj hi))
    · rw [List.getElem?_set_ne he] at hi
      exact he (Option.some.inj (hw.symm.trans (h.waiting hi).1))
  · next hn =>
    obtain rfl : sid = i := Option.some.inj (hw.symm.trans (h.waiting hi).1)
    exact hn g c hi

theorem Shape.finish {s : State} (h : Shape s) (sid : Nat) {f : BridgeId → StartupPhase}
    (hf : ∀ c d, f c ≠ .waiting d) : Shape (s.finishStartup sid f) := by
  have hnone : s.readyWaiter = some sid → ∀ {i : Nat} {g : Signal} {c : BridgeId},
      (s.finishStartup sid f).startups[i]? ≠ some ⟨g, .waiting c⟩ := fun hw => h.finish_none hw hf
  unfold finishStartup at hnone ⊢
  split
  · next g c hx =>
    simp only [hx] at hnone
    obtain ⟨hw, hr⟩ := h.waiting hx
    have hs := h.setStartup (k := g) (q := f c) hx (by simp) (fun d => hf c d)
      fun e _ => .inr fun _ _ => .inr hr
    exact ⟨hs.running, fun hi => absurd hi (hnone hw), hs.stopping, hs.child, hs.failed⟩
  · exact h

theorem Shape.rejectReady {s : State} (h : Shape s) (e : JsStr) : Shape (s.rejectReady e) := by
  unfold State.rejectReady
  split
  · exact h
  · exact h.finish _ (by simp)

theorem State.rejectReady_terminations (s : State) (e : JsStr) :
    (s.rejectReady e).terminations = s.terminations := by
  obtain ⟨w, l, -, h⟩ := s.rejectReady_eq e
  rw [h]

/-- The bridge gets ready: the startup that waits for it goes on. -/
theorem Shape.resolveReady {s : State} (h : Shape s) (hk : Chunk s) :
    Shape { s.resolveReady with ready := true } ∧ Chunk { s.resolveReady with ready := true } := by
  have hnone : ∀ {i : Nat} {g : Signal} {c : BridgeId},
      s.resolveReady.startups[i]? ≠ some ⟨g, .waiting c⟩ := by
    intro i g c hi
    unfold State.resolveReady at hi
    split at hi
    · next hn =>
      cases hn.symm.trans (h.waiting hi).1
    · next sid hw => exact h.finish_none hw (by simp) hi
  have hshape : Shape s.resolveReady := by
    unfold State.resolveReady
    split
    · exact h
    · exact h.finish _ (by simp)
  obtain ⟨w, l, hl, he⟩ := s.resolveReady_eq
  have hfailed : ∀ {i : Nat} {g : Signal} {e : JsStr}, l[i]? = some ⟨g, .failed e⟩ →
      s.startups[i]? = some ⟨g, .failed e⟩ := fun {i g e} hi =>
    (hl.startup hi).resolve_right fun ⟨c, _, hp⟩ => by cases hp
  rw [he] at hnone hshape ⊢
  refine ⟨⟨hshape.running, fun hi => absurd hi hnone, h.stopping, h.child, fun hi => ?_⟩,
    ⟨hk.still, fun hi => hk.failed (hfailed hi)⟩⟩
  exact (hk.failed (hfailed hi)).imp id fun hc c hd => .inl (hc c hd)

/-! ## Lines of the bridge -/

theorem shape_kill {s t : State} (h : Shape s) (hk : Chunk s) (ht : t.skeleton = s.skeleton) :
    Shape t.kill ∧ Chunk t.kill :=
  ⟨(h.congr ht).kill, (h.congr ht).chunk_kill (hk.congr ht).still⟩

/-- The same, when the waiter is rejected first. -/
theorem shape_reject_kill {s t : State} (e : JsStr) (h : Shape s) (hk : Chunk s)
    (ht : t.skeleton = (s.rejectReady e).skeleton) : Shape t.kill ∧ Chunk t.kill := by
  have hr := (h.rejectReady e).congr ht
  have hterm : t.terminations = s.terminations :=
    (congrArg Skeleton.terminations ht).trans (s.rejectReady_terminations e)
  exact ⟨hr.kill, hr.chunk_kill fun hx => hk.still (by rwa [hterm] at hx)⟩

theorem shape_line {s t : State} {k : LineKind} (h : Shape s) (hk : Chunk s) (hl : LineCase s k t) :
    Shape t ∧ Chunk t := by
  cases hl with
  | kept hs => exact ⟨h.congr hs.skeleton, hk.congr hs.skeleton⟩
  | lost e m => exact shape_reject_kill e h hk (by simp)
  | refused e => exact shape_reject_kill e h hk rfl
  | announced g f =>
    have he : State.skeleton ({ s with
        kernelPgid := some g, kernelConnectionFile := some f, ready := true
        generation := s.generation + 1 }.resolveReady) =
        ({ s.resolveReady with ready := true } : State).skeleton := by
      unfold State.resolveReady finishStartup
      dsimp only
      split
      · rfl
      · split <;> rfl
    obtain ⟨h1, h2⟩ := h.resolveReady hk
    exact ⟨h1.congr he, h2.congr he⟩
  | bridgeError _ m => exact shape_kill h hk rfl
  | result _ x => exact ⟨h.congr rfl, hk.congr rfl⟩

theorem Shape.handleStdinError {s : State} (h : Shape s) (c : Option BridgeId) (r : JsStr) :
    Shape (s.handleStdinError c r) := by
  rcases s.handleStdinError_cases c r with he | ⟨d, e, m, -, -, he⟩
  · rw [he]; exact h
  · rw [he]
    refine (h.congr ?_).kill
    rw [failActive_skeleton]; rfl

theorem Shape.request {s : State} (h : Shape s) (m : BridgeRequest) (g : Signal) (r : JsStr)
    (t thrown : Option JsStr) : Shape (s.request m g r t thrown).1 := by
  rcases s.request_cases m g r t thrown with ⟨-, e, he⟩ | ⟨c, -, -, -, -, ⟨-, l, he⟩ | ⟨-, e, x, he⟩⟩
  · rw [he]; exact h
  · rw [he]; exact h.congr rfl
  · rw [he]; exact Shape.kill (h.congr rfl)

theorem Shape.lose {s : State} (h : Shape s) : Shape s.lose :=
  ⟨h.running, fun hw => ⟨(h.waiting hw).1, rfl⟩, h.stopping, by simp [State.lose],
    fun _ => .inr fun c hc => by cases hc⟩

theorem Shape.handleExit {s : State} (h : Shape s) (c : BridgeId) (r : JsStr) :
    Shape (s.handleExit c r) := by
  rcases s.handleExit_cases c r with ⟨-, he⟩ | ⟨-, e, ⟨-, he⟩ | ⟨-, l, k, m, he⟩⟩
  · rw [he]; exact h
  · rw [he]; exact h.lose.rejectReady e
  · rw [he]
    refine (h.lose.rejectReady e).congr ?_
    rw [failActive_skeleton]; rfl

/-- Something happens to a bridge that is neither its end nor its termination. -/
theorem Shape.modifyBridge {s : State} (h : Shape s) (c : BridgeId) {f : Bridge → Bridge}
    (hg : ∀ b, (f b).gone = b.gone) (ht : ∀ b, (f b).terminated = b.terminated) :
    Shape { s with bridges := s.bridges.modify c f } := by
  refine ⟨h.running, h.waiting, h.stopping, fun {d} hd => ?_, fun hx => ?_⟩
  · obtain ⟨hl, hgone⟩ := h.child hd
    exact ⟨by rwa [List.length_modify], (gone_modify hg).trans hgone⟩
  · refine (h.failed hx).imp id fun hc d hd => ?_
    rcases hc d hd with hc | hr
    · refine .inl (Eq.trans ?_ hc)
      change ((s.bridges.modify c f)[d]?).any _ = ((s.bridges)[d]?).any _
      rw [List.getElem?_modify]
      split
      · cases s.bridges[d]? <;> simp [ht]
      · cases s.bridges[d]? <;> rfl
    · exact .inr hr

/-- A bridge ends. -/
theorem Shape.exits {s : State} (h : Shape s) (c : BridgeId) (r : JsStr) (f : Bridge → Bridge) :
    Shape ({ s with bridges := s.bridges.modify c f }.handleExit c r) := by
  have hlose : Shape ({ s with bridges := s.bridges.modify c f } : State).lose :=
    ⟨h.running, fun hw => ⟨(h.waiting hw).1, rfl⟩, h.stopping, by simp [State.lose],
      fun _ => .inr fun c hc => by cases hc⟩
  rcases handleExit_cases { s with bridges := s.bridges.modify c f } c r with
    ⟨hn, he⟩ | ⟨-, e, ⟨-, he⟩ | ⟨-, l, k, m, he⟩⟩
  · rw [he]
    have hne : ∀ {d : BridgeId}, s.child = some d →
        (s.bridges.modify c f)[d]? = s.bridges[d]? := fun {d} hd =>
      List.getElem?_modify_ne _ _ fun hcd => hn (hcd ▸ hd)
    refine ⟨h.running, h.waiting, h.stopping, fun {d} hd => ?_, fun hx => ?_⟩
    · obtain ⟨hl, hg⟩ := h.child hd
      refine ⟨by rwa [List.length_modify], ?_⟩
      change ((s.bridges.modify c f)[d]?).any _ = false
      rw [hne hd]
      exact hg
    · refine (h.failed hx).imp id fun hc d hd => (hc d hd).imp (fun hc => ?_) id
      change ((s.bridges.modify c f)[d]?).any _ = true
      rw [hne hd]
      exact hc
  · rw [he]; exact hlose.rejectReady e
  · rw [he]
    refine (hlose.rejectReady e).congr ?_
    rw [failActive_skeleton]; rfl

/-! ## Aborts -/

/-- The startup waits for the bridge with a signal that fires. -/
def Startup.waits (fires : Signal → Bool) (x : Startup) : Bool :=
  match x.phase with
  | .waiting _ => fires x.signal
  | _ => false

theorem Startup.waiting_of_waits {fires : Signal → Bool} {x : Startup} (hw : x.waits fires = true) :
    ∃ c, x.phase = .waiting c := by
  obtain ⟨g, p⟩ := x
  cases p with
  | waiting c => exact ⟨c, rfl⟩
  | _ => cases hw

theorem Shape.abortListeners {s : State} (h : Shape s) (fires : Signal → Bool) :
    Shape (s.abortListeners fires) := by
  let fired : Startup → Startup := fun x =>
    if x.waits fires then { x with phase := .failed (js "IPython startup cancelled") } else x
  have hbase : Shape { s with
      readyWaiter := if s.startups.any (·.waits fires) then none else s.readyWaiter
      startups := s.startups.map fired } := by
    have hget : ∀ {i : Nat} {y : Startup}, (s.startups.map fired)[i]? = some y →
        ∃ x, s.startups[i]? = some x ∧ fired x = y := fun {i y} hy => by
      rw [List.getElem?_map] at hy
      exact Option.map_eq_some_iff.mp hy
    refine ⟨fun {i y} hy hd => ?_, fun {i g c} hy => ?_, h.stopping, h.child, fun {i g e} hy => ?_⟩
    · obtain ⟨x, hx, rfl⟩ := hget hy
      by_cases hw : x.waits fires = true
      · obtain ⟨c, hc⟩ := Startup.waiting_of_waits hw
        exact h.running hx (by simp [hc])
      · simp only [fired, hw] at hd
        exact h.running hx hd
    · obtain ⟨⟨k, p⟩, hx, he⟩ := hget hy
      by_cases hw : Startup.waits fires ⟨k, p⟩ = true
      · simp [fired, hw] at he
      · simp only [fired, hw] at he
        cases he
        refine ⟨?_, (h.waiting hx).2⟩
        -- a second startup that waits would hold the waiter too
        have hnone : s.startups.any (·.waits fires) = false := by
          rw [List.any_eq_false]
          intro z hz hzw
          obtain ⟨j, hj⟩ := List.mem_iff_getElem?.mp hz
          obtain ⟨d, hd⟩ := Startup.waiting_of_waits hzw
          obtain ⟨k', p'⟩ := z
          cases hd
          obtain rfl : i = j := Option.some.inj ((h.waiting hx).1.symm.trans (h.waiting hj).1)
          cases hx.symm.trans hj
          exact hw hzw
        simp only [hnone]
        exact (h.waiting hx).1
    · obtain ⟨⟨k, p⟩, hx, he⟩ := hget hy
      by_cases hw : Startup.waits fires ⟨k, p⟩ = true
      · obtain ⟨c, hc⟩ := Startup.waiting_of_waits hw
        cases hc
        exact .inr fun _ _ => .inr (h.waiting hx).2
      · simp only [fired, hw] at he
        cases he
        exact h.failed hx
  unfold State.abortListeners
  dsimp only
  split
  · exact hbase
  · split
    · exact hbase.congr (kept_interrupt _ _ _).skeleton
    · exact hbase

/-! ## Spawning -/

theorem Shape.listenersDone {s : State} (h : Shape s) {sid : Nat} {g : Signal}
    (hx : s.startups[sid]? = some ⟨g, .listeners⟩) (result spawned : Except JsStr Unit) :
    Shape (s.listenersDone sid g result spawned) := by
  have hsettled : ∀ {t : State} (e : JsStr), Shape t → t.startups = s.startups →
      Shape (t.setStartup sid ⟨g, .settled (.error e)⟩) := fun e ht he =>
    ht.setStartup (he ▸ hx) (by simp) (by simp) (by simp)
  -- the startup at its listeners is the only one under way
  have honly : ∀ {i : Nat} {y : Startup}, s.startups[i]? = some y → i ≠ sid →
      ∃ r, y.phase = .done r := by
    intro i y hy hi
    by_contra hd
    have h1 := h.running hy fun r hr => hd ⟨r, hr⟩
    have h2 := h.running hx (by simp)
    exact hi (Option.some.inj (h1.symm.trans h2))
  unfold State.listenersDone
  split
  · exact hsettled _ h rfl
  split
  · exact hsettled _ h rfl
  have hbase : Shape { s with stderr := [], stopping := false, ready := false } :=
    ⟨h.running, fun hw => ⟨(h.waiting hw).1, rfl⟩, h.stopping, h.child,
      fun _ => .inr fun _ _ => .inr rfl⟩
  dsimp only
  split
  · exact hsettled _ hbase rfl
  have hl : sid < s.startups.length := (List.getElem?_eq_some_iff.mp hx).1
  have hget : ∀ {i : Nat} {y : Startup}, (s.startups.set sid ⟨g, .waiting s.bridges.length⟩)[i]? =
      some y → i = sid ∧ y = ⟨g, .waiting s.bridges.length⟩ ∨ i ≠ sid ∧ s.startups[i]? = some y := by
    intro i y hy
    by_cases hi : sid = i
    · subst hi
      rw [List.getElem?_set_self hl] at hy
      exact .inl ⟨rfl, (Option.some.inj hy).symm⟩
    · rw [List.getElem?_set_ne hi] at hy
      exact .inr ⟨fun he => hi he.symm, hy⟩
  refine ⟨fun {i y} hy hd => ?_, fun {i k c} hy => ?_, h.stopping, fun {c} hc => ?_,
    fun {i k e} hy => ?_⟩
  · rcases hget hy with ⟨rfl, -⟩ | ⟨-, hy⟩
    · exact h.running hx (by simp)
    · exact h.running hy hd
  · rcases hget hy with ⟨rfl, -⟩ | ⟨hi, hy⟩
    · exact ⟨rfl, rfl⟩
    · obtain ⟨r, hr⟩ := honly hy hi
      cases hr
  · obtain rfl : s.bridges.length = c := Option.some.inj hc
    refine ⟨by simp [State.setStartup, State.emit], ?_⟩
    change ((s.bridges ++ [Bridge.spawned])[s.bridges.length]?).any _ = false
    rw [List.getElem?_concat_length]
    rfl
  · rcases hget hy with ⟨rfl, he⟩ | ⟨hi, hy⟩
    · cases he
    · obtain ⟨r, hr⟩ := honly hy hi
      cases hr

/-! ## Terminations -/

/-- No handler of a failed startup is about to run. -/
def State.NoneFailed (s : State) : Prop :=
  ∀ (i : Nat) (g : Signal) (e : JsStr), s.startups[i]? ≠ some ⟨g, .failed e⟩

theorem State.noneFailed_of_quiet {s : State} (hq : s.quiet = true) : s.NoneFailed := by
  intro i g e hx
  simp only [quiet, Bool.and_eq_true] at hq
  have := List.all_eq_true.mp hq.1.1.1.1 _ (List.mem_of_getElem? hx)
  cases this

/-- A termination goes on. That it could, or that no startup just failed, says that it is not the
one in the way of a failed startup. -/
theorem Shape.setTermination {s : State} (h : Shape s) {t : TerminationId} {x y : Termination}
    (hx : s.terminations[t]? = some x) (hy : y.phase ≠ .done)
    (hf : s.NoneFailed ∨ terminationRunnable x = true) : Shape (s.setTermination t y) := by
  have hl : t < s.terminations.length := (List.getElem?_eq_some_iff.mp hx).1
  refine ⟨h.running, h.waiting, fun {i} hi => ?_, h.child, fun {i k e} hw => ?_⟩
  · change ∃ z, (s.terminations.set t y)[i]? = some z ∧ z.phase ≠ .done
    by_cases he : t = i
    · subst he
      exact ⟨y, List.getElem?_set_self hl, hy⟩
    · rw [List.getElem?_set_ne he]
      exact h.stopping hi
  · rcases hf with hf | hf
    · exact absurd hw (hf _ _ _)
    · refine (h.failed hw).imp (fun ⟨i, z, hi, hz, hd, hr⟩ => ⟨i, z, hi, ?_, hd, hr⟩) id
      change (s.terminations.set t y)[i]? = some z
      rw [List.getElem?_set_ne, hz]
      rintro rfl
      cases hx.symm.trans hz
      cases hf.symm.trans hr

/-- The same after signals. -/
theorem Shape.signalled {s u : State} (h : Shape s) (hu : Kept s u) {t : TerminationId}
    {x y : Termination} (hx : s.terminations[t]? = some x) (hy : y.phase ≠ .done)
    (hf : s.NoneFailed ∨ terminationRunnable x = true) : Shape (u.setTermination t y) := by
  refine (h.setTermination hx hy hf).congr ?_
  have he := hu.skeleton
  simp only [skeleton, Skeleton.mk.injEq] at he
  simp only [skeleton, State.setTermination, he]

theorem Shape.terminationEnds {s : State} (h : Shape s) {t : TerminationId} {x : Termination}
    (hx : s.terminations[t]? = some x) (hr : terminationRunnable x = true) :
    Shape (s.terminationEnds t x) := by
  have hother : ∀ {i : TerminationId} {z : Termination}, i ≠ t → s.terminations[i]? = some z →
      (s.terminationEnds t x).terminations[i]? = some z := fun {i z} hi hz => by
    change (s.terminations.set t _)[i]? = some z
    rw [List.getElem?_set_ne fun he => hi he.symm, hz]
  have hpromise : ∀ {i : TerminationId}, (s.terminationEnds t x).stoppingPromise = some i →
      s.stoppingPromise = some i ∧ i ≠ t := by
    intro i hi
    change (if s.stoppingPromise = some t then none else s.stoppingPromise) = some i at hi
    split at hi
    · cases hi
    · next hn => exact ⟨hi, fun he => hn (he ▸ hi)⟩
  refine ⟨h.running, h.waiting, fun {i} hi => ?_, h.child, fun {i k e} hw => ?_⟩
  · obtain ⟨hi, hne⟩ := hpromise hi
    obtain ⟨z, hz, hd⟩ := h.stopping hi
    exact ⟨z, hother hne hz, hd⟩
  · refine (h.failed hw).imp (fun ⟨i, z, hi, hz, hd, hn⟩ => ?_) id
    have hne : i ≠ t := by
      rintro rfl
      cases hx.symm.trans hz
      cases hr.symm.trans hn
    refine ⟨i, z, ?_, hother hne hz, hd, hn⟩
    change (if s.stoppingPromise = some t then none else s.stoppingPromise) = some i
    rw [hi, if_neg fun he => hne (Option.some.inj he)]

/-- A startup fails with the exit of the runtime's own bridge only. -/
theorem State.handleExit_noneFailed {s : State} (hf : s.NoneFailed) (c : BridgeId) (r : JsStr) :
    (s.handleExit c r).NoneFailed ∨ (s.handleExit c r).child = none := by
  rcases s.handleExit_cases c r with ⟨-, he⟩ | ⟨-, e, ⟨-, he⟩ | ⟨-, l, k, m, he⟩⟩
  · rw [he]; exact .inl hf
  · obtain ⟨w, l, -, hr⟩ := rejectReady_eq _ e
    rw [he, hr]; exact .inr rfl
  · obtain ⟨w, l, -, hr⟩ := rejectReady_eq _ e
    rw [he, hr]
    exact .inr (congrArg Skeleton.child (failActive_skeleton _ _))

/-- The close listeners of the terminations. -/
theorem Shape.closeTerminations {s : State} (h : Shape s) {f : Termination → Termination}
    (hf : s.NoneFailed ∨ s.child = none) (hd : ∀ x, x.phase ≠ .done → (f x).phase ≠ .done) :
    Shape { s with terminations := s.terminations.map f } := by
  refine ⟨h.running, h.waiting, fun {i} hi => ?_, h.child, fun hw => ?_⟩
  rotate_left
  · rcases hf with hf | hf
    · exact absurd hw (hf _ _ _)
    · exact .inr fun c hc => by cases hf.symm.trans hc
  obtain ⟨x, hx, hxd⟩ := h.stopping hi
  exact ⟨f x, by rw [List.getElem?_map, hx]; rfl, hd x hxd⟩

theorem Shape.bridgeCloses {s : State} (h : Shape s) (hf : s.NoneFailed) (c : BridgeId)
    (code : Option Nat) (signal : Option JsStr) (alive : Int → Bool) :
    Shape (s.bridgeCloses c code signal alive) := by
  have hexit := h.exits c (exitReason code signal) fun b => { b with closed := true }
  have hfailed := handleExit_noneFailed
    (s := { s with bridges := s.bridges.modify c fun b => { b with closed := true } }) hf c
      (exitReason code signal)
  refine (hexit.closeTerminations hfailed (f := bridgeClosed alive c) fun x hd => ?_).congr rfl
  unfold bridgeClosed
  split
  · split
    · exact hd
    · simp
  · exact hd

/-! ## Calls -/

theorem Shape.resumeCall {s : State} (h : Shape s) (k : Nat) (x : Call) (thrown : Option JsStr) :
    Shape (s.resumeCall k x thrown) := by
  unfold State.resumeCall
  split
  · exact (h.continueStart x.signal).congr rfl
  · split <;> exact h.congr rfl
  · split
    · exact h.congr rfl
    · next id code cwd _ =>
      unfold State.executeStarted
      have hr := Shape.request (s := { s with pendingResetNotice := false }) (h.congr rfl)
        (.execute id code cwd) x.signal (js "IPython execution cancelled") none thrown
      dsimp only
      split
      · next he => rw [he] at hr; exact hr.congr rfl
      · next he => rw [he] at hr; exact hr.congr rfl
    · exact h.congr rfl
  · exact h

/-- The tracked promise of a startup is settled: the next `start` starts again. -/
theorem Shape.startupDone {s : State} (h : Shape s) {sid : Nat} {g : Signal}
    {r : Except JsStr Unit} (hx : s.startups[sid]? = some ⟨g, .settled r⟩) :
    Shape ({ s with starting := if s.starting = some sid then none else s.starting }.setStartup sid
      ⟨g, .done r⟩) := by
  have hs := h.setStartup (k := g) (q := .done r) hx (by simp) (by simp) (by simp)
  refine ⟨fun {i y} hy hd => ?_, hs.waiting, hs.stopping, hs.child, hs.failed⟩
  have hrun := hs.running hy hd
  have hne : s.starting ≠ some sid := by
    intro he
    obtain rfl : sid = i := Option.some.inj (he.symm.trans hrun)
    change (s.startups.set sid _)[sid]? = some y at hy
    rw [List.getElem?_set_self (List.getElem?_eq_some_iff.mp hx).1] at hy
    cases hy
    exact hd r rfl
  change (if s.starting = some sid then none else s.starting) = some i
  rw [if_neg hne]
  exact hrun

/-! ## Every step -/

theorem shape_job {s t : State} {e : Event} (h : Shape s) (he : s.stepJob e = some t) :
    Shape t := by
  cases e <;> simp only [stepJob, Option.some.injEq, reduceCtorEq] at he
  case start =>
    subst he
    exact (h.beginStart _).congr rfl
  case execute =>
    subst he
    unfold callExecute
    dsimp only
    split
    · exact h.congr rfl
    · exact (h.beginStart _).congr rfl
  case evaluate =>
    subst he
    exact Shape.request (s := { s with evaluateIndex := s.evaluateIndex + 1 }) (h.congr rfl) _ _ _ _ _
  case getConnectionFile =>
    subst he
    exact (h.beginStart _).congr rfl
  case shutdown =>
    split at he
    · cases he
      have hd : Shape s.dispose :=
        Shape.abortListeners (s := { s with disposed := true }) (h.congr rfl) _
      exact hd.congr rfl
    · cases he
      exact h
  case abort σ =>
    subst he
    exact Shape.abortListeners (s := { s with aborted := σ :: s.aborted }) (h.congr rfl) _
  case listened =>
    split at he
    · next hx => cases he; exact h.listenersDone hx _ _
    · cases he
  case stdinError =>
    split at he
    · cases he; exact h.handleStdinError _ _
    · cases he
  case writeError =>
    split at he
    · cases he
    · cases he; exact h.handleStdinError _ _
  case runtimeReady =>
    split at he
    · next hx =>
      obtain ⟨r, -, rfl⟩ := Option.map_eq_some_iff.mp he
      cases r <;> exact h.setStartup hx (by simp) (by simp) (by simp)
    · cases he
  case startupFailed =>
    split at he
    · next g e hx =>
      cases he
      have hx : s.kill.startups = s.startups := by
        rcases s.terminate_cases with ⟨t, -, ht⟩ | ⟨-, -, ht⟩ | ⟨d, l, -, -, ht⟩ <;> rw [kill, ht]
      exact h.kill.setStartup (p := .failed e) (by rw [hx]; assumption) (by simp) (by simp) (by simp)
    · cases he
  case startupStopped =>
    split at he
    · next hx =>
      split at he
      · cases he; exact h.setStartup hx (by simp) (by simp) (by simp)
      · cases he
    · cases he
  case startupReady =>
    split at he
    · next hx => cases he; exact h.setStartup hx (by simp) (by simp) (by simp)
    · cases he
  case startupDone =>
    split at he
    · next hx => cases he; exact h.startupDone hx
    · cases he
  case reap =>
    split at he
    · next x hx =>
      split at he
      · next hp =>
        cases he
        have hr : terminationRunnable x = true := by rw [terminationRunnable, hp]; rfl
        unfold reapGroup
        split
        · exact h.signalled (kept_signalProcessGroup _ _ _) hx (by simp) (.inr hr)
        · exact h.setTermination hx (by simp) (.inr hr)
      · cases he
    · cases he
  case terminated =>
    split at he
    · next x hx =>
      split at he
      · next hp =>
        cases he
        exact h.terminationEnds hx (by rw [terminationRunnable, hp]; rfl)
      · cases he
    · cases he
  case reject =>
    split at he
    · split at he
      · cases he; exact h.congr rfl
      · cases he
    · cases he
  case resume =>
    split at he
    · split at he
      · cases he; exact h.resumeCall _ _ _
      · cases he
    · cases he
  case shutdownStarted =>
    split at he
    · split at he
      · cases he; exact h.congr rfl
      · cases he
    · cases he
  case shutdownStopped =>
    split at he
    · split at he
      · cases he
        unfold shutdownBridge
        split
        · exact h.congr rfl
        · dsimp only
          split
          · exact Shape.kill (h.congr rfl)
          · exact h.congr rfl
      · cases he
    · cases he
  case shutdownTerminated =>
    split at he
    · split at he
      · cases he; exact h.congr rfl
      · cases he
    · cases he
  case shutdownReap =>
    split at he
    · cases he
      unfold shutdownReaps
      split
      · exact (h.congr (kept_signalProcessGroup _ _ _).skeleton).congr rfl
      · exact h.congr rfl
    · cases he
  case shutdownWriteError =>
    split at he
    · cases he
    · cases he
    · cases he
    · cases he; exact h.kill

theorem shape_task {s t : State} {e : Event} (h : Shape s) (hq : s.quiet = true)
    (he : s.stepTask e = some t) : Shape t := by
  have hf := noneFailed_of_quiet hq
  cases e <;> simp only [stepTask, reduceCtorEq] at he
  case uv =>
    obtain ⟨x, -, rfl⟩ := Option.map_eq_some_iff.mp he
    unfold uvEnds
    dsimp only
    split
    · exact h.congr rfl
    · split <;> exact h.congr rfl
    · exact h.congr rfl
    · split <;> exact h.congr rfl
    · exact h
  case stderr =>
    split at he
    · cases he; exact h.congr (kept_addStderr _ _).skeleton
    · cases he
  case exit =>
    split at he
    · cases he; exact h.modifyBridge _ (fun _ => rfl) fun _ => rfl
    · cases he
  case error =>
    split at he
    · cases he; exact h.exits _ _ _
    · cases he
  case close =>
    split at he
    · split at he
      · cases he
      · cases he; exact h.bridgeCloses hf _ _ _ _
    · cases he
  case startupTimeout =>
    split at he
    · cases he; exact h.finish _ (by simp)
    · cases he
  case timeout =>
    split at he
    · cases he
    split at he
    · cases he
    split at he
    · cases he
      exact Shape.congr (Shape.congr h rfl) (kept_interrupt _ _ _).skeleton
    · cases he
  case grace =>
    split at he
    · cases he
    split at he
    · cases he
      unfold graceExpired
      split
      · exact h
      split
      · exact h
      split
      · exact h
      · have hk : Shape ({ s with active := none, pendingResetNotice := true } : State).kill :=
          Shape.kill (h.congr rfl)
        exact hk.congr rfl
    · cases he
  case force =>
    split at he
    · next x hx =>
      split at he
      · next hp =>
        cases he
        have hu : Kept s ((s.signalProcessGroup x.kernelPgid .sigkill).emit
            (.signalBridge x.child .sigkill)) :=
          (kept_signalProcessGroup _ _ _).trans (kept_emit _ _)
        unfold forceExpired
        dsimp only
        split
        · exact h.signalled hu hx (by simp) (.inl hf)
        · exact h.signalled hu hx (by simp [hp.1]) (.inl hf)
      · cases he
    · cases he
  case giveUp =>
    split at he
    · next x hx =>
      split at he
      · cases he; exact h.setTermination hx (by simp) (.inl hf)
      · cases he
    · cases he
  case reapTimer =>
    split at he
    · next x hx =>
      split at he
      · cases he
        unfold reapExpired
        split
        · exact h.signalled (kept_signalProcessGroup _ _ _) hx (by simp) (.inl hf)
        · exact h.setTermination hx (by simp) (.inl hf)
      · cases he
    · cases he
  case killTimer =>
    split at he
    · cases he; exact (h.congr rfl).congr (kept_signalProcessGroup _ _ _).skeleton
    · cases he
  case shutdownTimeout =>
    split at he
    · cases he; exact h.kill.congr rfl
    · cases he
  case shutdownReapTimer =>
    split at he
    · cases he
      unfold shutdownReapExpired
      split
      · exact (h.congr (kept_signalProcessGroup _ _ _).skeleton).congr rfl
      · exact h.congr rfl
    · cases he; exact h.congr rfl
    · cases he

/-- What every reachable state keeps. -/
structure Sound (s : State) : Prop where
  shape : Shape s
  chunk : ∀ {c : BridgeId}, s.chunk = some c → Chunk s

theorem chunk_of_quiet {s : State} (hq : s.quiet = true) : Chunk s := by
  have hf := noneFailed_of_quiet hq
  refine ⟨fun {t x} hx => ?_, fun hx => absurd hx (hf _ _ _)⟩
  simp only [quiet, Bool.and_eq_true] at hq
  simpa using List.all_eq_true.mp hq.1.1.1.2 _ (List.mem_of_getElem? hx)

/-- A line comes when no job is left, or within a chunk. -/
theorem Sound.chunk_line {s : State} (h : Sound s) {c : BridgeId}
    (hq : s.quiet = true ∨ s.chunk = some c) : Chunk s := by
  rcases hq with hq | hq
  · exact chunk_of_quiet hq
  · exact h.chunk hq

theorem sound_step {s t : State} {e : Event} (h : Sound s) (he : step s e = some t) : Sound t := by
  unfold step at he
  split at he
  · next c text disk =>
    split at he
    · next hq =>
      cases he
      obtain ⟨h1, h2⟩ := shape_line h.shape (h.chunk_line hq.2) (s.handleLine_cases c text disk)
      exact ⟨h1.congr rfl, fun _ => h2.congr rfl⟩
    · cases he
  · split at he
    · next t hj =>
      cases he
      exact ⟨(shape_job h.shape hj).congr rfl, by simp⟩
    · split at he
      · next hq =>
        obtain ⟨u, hu, rfl⟩ := Option.map_eq_some_iff.mp he
        exact ⟨(shape_task h.shape hq hu).congr rfl, by simp⟩
      · cases he

theorem sound_init : Sound State.init :=
  ⟨⟨by simp [State.init], by simp [State.init], by simp [State.init], by simp [State.init],
    by simp [State.init]⟩, by simp [State.init]⟩

end PiIpython.Runtime
