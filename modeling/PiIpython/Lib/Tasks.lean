import PiIpython.Lib.Prog

/-!
# Tasks of an event loop

An asynchronous function is a program some of whose operations are done at
once and the others are awaited. `advance` runs it up to the next await.
While it waits the world may change: `Turn` lets it change as `R` says before
an awaited operation is served, so that a program that is safe under `Turn`
stays safe whatever happens meanwhile.
-/

namespace PiIpython.Prog

variable {Op : Type} {Ans : Op → Type} {ε α W : Type}

section Advance

-- what the operations do that are not awaited
variable (now : (o : Op) → Option (W → Except ε (Ans o) × W))

/-- The program and the world at the next await. -/
def advance : Prog Op Ans ε α → W → Prog Op Ans ε α × W
  | done r, w => (done r, w)
  | op o k, w =>
    match now o with
    | some f => (k (f w).1).advance (f w).2
    | none => (op o k, w)

/-- The program has ended or awaits an operation. -/
def Waits : Prog Op Ans ε α → Prop
  | done _ => True
  | op o _ => now o = none

variable {now}

theorem advance_now {o : Op} {k : Except ε (Ans o) → Prog Op Ans ε α}
    {f : W → Except ε (Ans o) × W} (h : now o = some f) (w : W) :
    (op o k).advance now w = (k (f w).1).advance now (f w).2 := by
  rw [advance, h]

theorem advance_await {o : Op} {k : Except ε (Ans o) → Prog Op Ans ε α} (h : now o = none)
    (w : W) : (op o k).advance now w = (op o k, w) := by
  rw [advance, h]

theorem waits_advance (p : Prog Op Ans ε α) (w : W) : Waits now (p.advance now w).1 := by
  induction p generalizing w with
  | done r => trivial
  | op o k ih =>
    cases h : now o with
    | none =>
      rw [advance_await h]
      exact h
    | some f =>
      rw [advance_now h]
      exact ih _ _

/-! ## How much is awaited -/

variable (now) in
/-- Whatever the answers, the program awaits at most so many operations. -/
def Within : Prog Op Ans ε α → Nat → Prop
  | done _, _ => True
  | op o k, n =>
    if (now o).isSome then ∀ r, (k r).Within n else 0 < n ∧ ∀ r, (k r).Within (n - 1)

theorem within_now {o : Op} {k : Except ε (Ans o) → Prog Op Ans ε α}
    {f : W → Except ε (Ans o) × W} (h : now o = some f) {n : Nat} :
    (op o k).Within now n ↔ ∀ r, (k r).Within now n := by
  rw [Within, h]
  exact Iff.rfl

theorem within_await {o : Op} {k : Except ε (Ans o) → Prog Op Ans ε α} (h : now o = none)
    {n : Nat} : (op o k).Within now n ↔ ∃ m, n = m + 1 ∧ ∀ r, (k r).Within now m := by
  rw [Within, h, if_neg nofun]
  constructor
  · rintro ⟨hn, hk⟩
    exact ⟨n - 1, by omega, hk⟩
  · rintro ⟨m, rfl, hk⟩
    exact ⟨Nat.succ_pos m, hk⟩

theorem Within.mono {p : Prog Op Ans ε α} {m n : Nat} (h : p.Within now m) (hmn : m ≤ n) :
    p.Within now n := by
  induction p generalizing m n with
  | done r => trivial
  | op o k ih =>
    cases ho : now o with
    | some f => exact (within_now ho).mpr fun r => ih r ((within_now ho).mp h r) hmn
    | none =>
      obtain ⟨m, rfl, hk⟩ := (within_await ho).mp h
      exact (within_await ho).mpr ⟨n - 1, by omega, fun r => ih r (hk r) (by omega)⟩

theorem Within.andThen {β : Type} {p : Prog Op Ans ε α} {f : Except ε α → Prog Op Ans ε β}
    {m n : Nat} (h : p.Within now m) (hf : ∀ r, (f r).Within now n) :
    (p.andThen f).Within now (m + n) := by
  induction p generalizing m with
  | done r => exact (hf r).mono (Nat.le_add_left n m)
  | op o k ih =>
    rw [op_andThen]
    cases ho : now o with
    | some g => exact (within_now ho).mpr fun r => ih r ((within_now ho).mp h r)
    | none =>
      obtain ⟨m, rfl, hk⟩ := (within_await ho).mp h
      exact (within_await ho).mpr ⟨m + n, by omega, fun r => ih r (hk r)⟩

theorem Within.bind {β : Type} {p : Prog Op Ans ε α} {f : α → Prog Op Ans ε β} {m n : Nat}
    (h : p.Within now m) (hf : ∀ a, (f a).Within now n) : (p >>= f).Within now (m + n) :=
  h.andThen fun
    | .ok a => hf a
    | .error _ => trivial

theorem Within.attempt {p : Prog Op Ans ε α} {f : ε → Prog Op Ans ε α} {m n : Nat}
    (h : p.Within now m) (hf : ∀ e, (f e).Within now n) : (p.attempt f).Within now (m + n) :=
  h.andThen fun
    | .ok _ => trivial
    | .error e => hf e

theorem Within.map {β : Type} {p : Prog Op Ans ε α} {f : α → β} {n : Nat} (h : p.Within now n) :
    (f <$> p).Within now n :=
  Within.bind h (n := 0) fun _ => trivial

theorem Within.advance {p : Prog Op Ans ε α} {n : Nat} (h : p.Within now n) (w : W) :
    (p.advance now w).1.Within now n := by
  induction p generalizing w with
  | done r => trivial
  | op o k ih =>
    cases ho : now o with
    | none =>
      rw [advance_await ho]
      exact h
    | some f =>
      rw [advance_now ho]
      exact ih _ ((within_now ho).mp h _) _

end Advance

variable (now : (o : Op) → Option (W → Except ε (Ans o) × W))
  (serve : W → (o : Op) → Except ε (Ans o) → W → Prop) (R : W → W → Prop)

/-- What an operation of a task may do. -/
def Turn (w : W) (o : Op) (r : Except ε (Ans o)) (w' : W) : Prop :=
  match now o with
  | some f => f w = (r, w')
  | none => ∃ w₁, R w w₁ ∧ serve w₁ o r w'

section Safe

variable {now serve R} {pre : Op → W → Prop} {Q : Except ε α → W → Prop} {w w' : W}

/-- An operation that is done at once. -/
theorem safe_now {o : Op} {k : Except ε (Ans o) → Prog Op Ans ε α} {f : W → Except ε (Ans o) × W}
    (h : now o = some f) (hpre : pre o w)
    (hk : (k (f w).1).Safe pre (Turn now serve R) Q (f w).2) :
    (op o k).Safe pre (Turn now serve R) Q w := by
  refine ⟨hpre, fun r w' hs => ?_⟩
  unfold Turn at hs
  rw [h] at hs
  change f w = (r, w') at hs
  rw [hs] at hk
  exact hk

/-- An operation that is awaited. -/
theorem safe_await {o : Op} {k : Except ε (Ans o) → Prog Op Ans ε α} (h : now o = none)
    (hpre : pre o w)
    (hk : ∀ w₁ r w', R w w₁ → serve w₁ o r w' → (k r).Safe pre (Turn now serve R) Q w') :
    (op o k).Safe pre (Turn now serve R) Q w := by
  refine ⟨hpre, fun r w' hs => ?_⟩
  unfold Turn at hs
  rw [h] at hs
  obtain ⟨w₁, h₁, hs⟩ := hs
  exact hk w₁ r w' h₁ hs

/-- **A task is safe at its next await.** -/
theorem Safe.advance {p : Prog Op Ans ε α} (h : p.Safe pre (Turn now serve R) Q w) :
    (p.advance now w).1.Safe pre (Turn now serve R) Q (p.advance now w).2 := by
  induction p generalizing w with
  | done r => exact h
  | op o k ih =>
    cases ho : now o with
    | none =>
      rw [advance_await ho]
      exact h
    | some f =>
      rw [advance_now ho]
      refine ih _ (h.2 _ _ ?_)
      unfold Turn
      rw [ho]

/-- **What happens meanwhile** leaves a waiting task safe. -/
theorem Safe.disturbed (htrans : ∀ a b c, R a b → R b c → R a c) {p : Prog Op Ans ε α}
    (hp : Waits now p) (hpre : ∀ o w w', pre o w → R w w' → pre o w')
    (hQ : ∀ r w w', Q r w → R w w' → Q r w') (h : p.Safe pre (Turn now serve R) Q w)
    (hR : R w w') : p.Safe pre (Turn now serve R) Q w' := by
  cases p with
  | done r => exact hQ r w w' h hR
  | op o k =>
    refine safe_await hp (hpre o w w' h.1 hR) fun w₁ r w₂ h₁ hs => h.2 r w₂ ?_
    unfold Turn
    rw [show now o = none from hp]
    exact ⟨w₁, htrans _ _ _ hR h₁, hs⟩

/-- **The answer of an awaited operation** lets the task go on. -/
theorem Safe.served (hrefl : ∀ a, R a a) {o : Op} {k : Except ε (Ans o) → Prog Op Ans ε α}
    (ho : now o = none) (h : (op o k).Safe pre (Turn now serve R) Q w) {r : Except ε (Ans o)}
    (hs : serve w o r w') : ((k r).advance now w').1.Safe pre (Turn now serve R) Q
      ((k r).advance now w').2 := by
  refine Safe.advance (h.2 r w' ?_)
  unfold Turn
  rw [ho]
  exact ⟨w, hrefl w, hs⟩

end Safe

end PiIpython.Prog
