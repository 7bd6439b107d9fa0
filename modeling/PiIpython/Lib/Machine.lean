import Mathlib

/-!
# Machines that take steps

A machine is a partial function `step : σ → ε → Option σ`: an event that is not
enabled has no successor. `runAll` takes a list of events, `Run ok` is the runs
whose steps all meet the condition `ok` on the state before the step and the
event. An invariant that every such step preserves holds all along the run, and
a property that exactly the steps outside `ok` break holds all along a run if
and only if the run is one of `Run ok`.
-/

namespace PiIpython

variable {σ ε : Type*} {step : σ → ε → Option σ} {ok : σ → ε → Prop} {I P : σ → Prop}
  {s t u : σ} {e : ε} {es : List ε}

/-- The state after a list of events, when each is enabled. -/
def runAll (step : σ → ε → Option σ) : σ → List ε → Option σ
  | s, [] => some s
  | s, e :: es => (step s e).bind fun t => runAll step t es

@[simp] theorem runAll_nil : runAll step s [] = some s := rfl

theorem runAll_cons : runAll step s (e :: es) = (step s e).bind fun t => runAll step t es := rfl

theorem runAll_append : ∀ {es ds : List ε} {s : σ},
    runAll step s (es ++ ds) = (runAll step s es).bind fun t => runAll step t ds
  | [], _, _ => rfl
  | e :: es, ds, s => by
    rw [List.cons_append, runAll_cons, runAll_cons, Option.bind_assoc]
    exact congrArg _ (funext fun t => runAll_append)

/-- Every step of the run meets `ok`. -/
def AllSteps (step : σ → ε → Option σ) (ok : σ → ε → Prop) : σ → List ε → Prop
  | _, [] => True
  | s, e :: es => ok s e ∧ ∀ t, step s e = some t → AllSteps step ok t es

instance AllSteps.decidable [∀ s e, Decidable (ok s e)] : ∀ s es, Decidable (AllSteps step ok s es)
  | _, [] => isTrue trivial
  | s, e :: es =>
    have : Decidable (∀ t, step s e = some t → AllSteps step ok t es) :=
      match step s e with
      | none => isTrue fun _ ht => nomatch ht
      | some t =>
        match AllSteps.decidable t es with
        | isTrue ht => isTrue fun _ hu => Option.some.inj hu ▸ ht
        | isFalse ht => isFalse fun hu => ht (hu t rfl)
    inferInstanceAs (Decidable (_ ∧ _))

/-- What every step meets. -/
theorem AllSteps.of_all (h : ∀ s e, ok s e) : ∀ {es : List ε} {s : σ}, AllSteps step ok s es
  | [], _ => trivial
  | e :: _, s => ⟨h s e, fun _ _ => of_all h⟩

/-- The events of the run meet a condition that has no state in it. -/
theorem AllSteps.of_mem : ∀ {es : List ε} {s : σ}, (∀ s, ∀ e ∈ es, ok s e) → AllSteps step ok s es
  | [], _, _ => trivial
  | e :: _, s, h => ⟨h s e List.mem_cons_self,
      fun _ _ => of_mem fun s d hd => h s d (List.mem_cons_of_mem _ hd)⟩

/-- `P` holds in every state of the run, the first one included. -/
def Throughout (step : σ → ε → Option σ) (P : σ → Prop) : σ → List ε → Prop
  | s, [] => P s
  | s, e :: es => P s ∧ ∀ t, step s e = some t → Throughout step P t es

theorem Throughout.head (h : Throughout step P s es) : P s := by
  cases es with
  | nil => exact h
  | cons e es => exact h.1

/-- The last state of a run is one of its states. -/
theorem Throughout.last : ∀ {es : List ε} {s t : σ}, Throughout step P s es →
    runAll step s es = some t → P t
  | [], s, t, h, hr => by cases hr; exact h
  | e :: es, s, t, h, hr => by
    rw [runAll_cons, Option.bind_eq_some_iff] at hr
    obtain ⟨u, hu, hr⟩ := hr
    exact (h.2 u hu).last hr

/-- **Invariance**: what every allowed step preserves holds at the end of an allowed run. -/
theorem invariant_runAll (hstep : ∀ s e t, I s → ok s e → step s e = some t → I t) :
    ∀ {es : List ε} {s t : σ}, I s → AllSteps step ok s es → runAll step s es = some t → I t
  | [], s, t, hs, _, h => by cases h; exact hs
  | e :: es, s, t, hs, hok, h => by
    rw [runAll_cons, Option.bind_eq_some_iff] at h
    obtain ⟨u, hu, h⟩ := h
    exact invariant_runAll hstep (hstep s e u hs hok.1 hu) (hok.2 u hu) h

/-- Invariance along a whole run. -/
theorem invariant_throughout (hstep : ∀ s e t, I s → ok s e → step s e = some t → I t) :
    ∀ {es : List ε} {s : σ}, I s → AllSteps step ok s es → Throughout step I s es
  | [], _, hs, _ => hs
  | e :: _, s, hs, hok =>
    ⟨hs, fun t ht => invariant_throughout hstep (hstep s e t hs hok.1 ht) (hok.2 t ht)⟩

/-- What the allowed steps meet wherever the invariant holds, they meet all along the run. -/
theorem AllSteps.of_invariant {good : σ → ε → Prop}
    (hstep : ∀ s e t, I s → ok s e → step s e = some t → I t)
    (hgood : ∀ s e, I s → ok s e → good s e) :
    ∀ {es : List ε} {s : σ}, I s → AllSteps step ok s es → AllSteps step good s es
  | [], _, _, _ => trivial
  | e :: _, s, hs, hok =>
    ⟨hgood s e hs hok.1, fun t ht => of_invariant hstep hgood (hstep s e t hs hok.1 ht) (hok.2 t ht)⟩

theorem AllSteps.mono {good : σ → ε → Prop} (h : ∀ s e, ok s e → good s e) :
    ∀ {es : List ε} {s : σ}, AllSteps step ok s es → AllSteps step good s es
  | [], _, _ => trivial
  | e :: _, s, hs => ⟨h s e hs.1, fun t ht => (hs.2 t ht).mono h⟩

/-- Two conditions that agree on the enabled steps agree on a run. -/
theorem allSteps_iff {good : σ → ε → Prop} (h : ∀ s e t, step s e = some t → (ok s e ↔ good s e)) :
    ∀ {es : List ε} {s : σ}, (runAll step s es).isSome →
      (AllSteps step ok s es ↔ AllSteps step good s es)
  | [], _, _ => Iff.rfl
  | e :: es, s, hrun => by
    rw [runAll_cons, Option.isSome_bind, Option.any_eq_true] at hrun
    obtain ⟨t, ht, hrun⟩ := hrun
    refine and_congr (h s e t ht) ?_
    simp only [ht, Option.some.injEq, forall_eq']
    exact allSteps_iff h hrun

/-- A machine that runs beside another one takes its steps. -/
theorem AllSteps.beside {τ : Type*} {run : τ → ε → Option τ} {f : τ → σ}
    (hrun : ∀ s e t, run s e = some t → step (f s) e = some (f t)) :
    ∀ {es : List ε} {s : τ}, AllSteps step ok (f s) es → AllSteps run (fun s => ok (f s)) s es
  | [], _, _ => trivial
  | e :: _, s, h => ⟨h.1, fun t ht => (h.2 (f t) (hrun s e t ht)).beside hrun⟩

/-- The last step of a run is one of its steps. -/
theorem AllSteps.last : ∀ {es : List ε} {s t : σ}, AllSteps step ok s (es ++ [e]) →
    runAll step s es = some t → ok t e
  | [], s, t, h, hr => by cases hr; exact h.1
  | _ :: es, s, t, h, hr => by
    rw [runAll_cons, Option.bind_eq_some_iff] at hr
    obtain ⟨u, hu, hr⟩ := hr
    exact (h.2 u hu).last hr

theorem Throughout.mono (h : ∀ s, I s → P s) :
    ∀ {es : List ε} {s : σ}, Throughout step I s es → Throughout step P s es
  | [], s, hs => h s hs
  | _ :: _, s, hs => ⟨h s hs.1, fun t ht => (hs.2 t ht).mono h⟩

/-- **Exactness**: when the allowed steps preserve the invariant, the invariant gives `P`, and an
enabled step outside `ok` leads from it to a state without `P`, then `P` holds throughout a run of
enabled steps exactly when all its steps are allowed. -/
theorem throughout_iff (hP : ∀ s, I s → P s)
    (hstep : ∀ s e t, I s → ok s e → step s e = some t → I t)
    (hbad : ∀ s e t, I s → ¬ ok s e → step s e = some t → ¬ P t) :
    ∀ {es : List ε} {s : σ}, I s → (runAll step s es).isSome →
      (Throughout step P s es ↔ AllSteps step ok s es)
  | [], s, hs, _ => iff_of_true (hP s hs) trivial
  | e :: es, s, hs, hrun => by
    rw [runAll_cons, Option.isSome_bind, Option.any_eq_true] at hrun
    obtain ⟨t, ht, hrun⟩ := hrun
    constructor
    · rintro ⟨-, h⟩
      by_cases hok : ok s e
      · refine ⟨hok, fun u hu => ?_⟩
        obtain rfl : t = u := Option.some.inj (ht.symm.trans hu)
        exact (throughout_iff hP hstep hbad (hstep s e t hs hok ht) hrun).mp (h t ht)
      · exact absurd (h t ht).head (hbad s e t hs hok ht)
    · exact fun hok => (invariant_throughout hstep hs hok).mono hP

end PiIpython
