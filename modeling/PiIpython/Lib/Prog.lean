import Mathlib

/-!
# Programs over operations

`Prog Op Ans ε α` is a program that performs operations `o : Op`, each answered
by `Ans o` or by an exception of `ε`, and ends with a result of `α` or an
exception. What an operation does is left to the world that runs the program.

* `AllOps P p`: every operation that `p` can perform meets `P`, whatever the answers.
* `Safe pre step p Q w`: from the world `w`, where an operation may do what
  `step` lets it, `p` performs operations only where `pre` holds and ends where `Q` does.
* `Follows A P p`: the same, when the operations answer as `A` says.
* `label c p`: the program with each of its operations under the label `c`.
* `run h p w`: the run of `p` when `h` answers, or the world in which `h` stopped it.
-/

namespace PiIpython

inductive Prog (Op : Type) (Ans : Op → Type) (ε α : Type) where
  | done (r : Except ε α)
  | op (o : Op) (k : Except ε (Ans o) → Prog Op Ans ε α)

namespace Prog

variable {Op : Type} {Ans : Op → Type} {ε α β γ W : Type}

/-- The program that goes on with the outcome of `p`. -/
def andThen : Prog Op Ans ε α → (Except ε α → Prog Op Ans ε β) → Prog Op Ans ε β
  | done r, f => f r
  | op o k, f => op o fun r => (k r).andThen f

def raise (e : ε) : Prog Op Ans ε α := done (.error e)

/-- One operation. -/
def perform (o : Op) : Prog Op Ans ε (Ans o) := op o done

instance : Monad (Prog Op Ans ε) where
  pure a := done (.ok a)
  bind p f := p.andThen fun
    | .ok a => f a
    | .error e => raise e

/-- `try: p except: h`. -/
def attempt (p : Prog Op Ans ε α) (h : ε → Prog Op Ans ε α) : Prog Op Ans ε α :=
  p.andThen fun
    | .ok a => pure a
    | .error e => h e

/-- `try: p finally: q`. An exception of `q` takes the place of what `p` ended with. -/
def ensure (p : Prog Op Ans ε α) (q : Prog Op Ans ε Unit) : Prog Op Ans ε α :=
  p.andThen fun r => q.andThen fun
    | .ok _ => done r
    | .error e => raise e

theorem pure_eq (a : α) : (pure a : Prog Op Ans ε α) = done (.ok a) := rfl

theorem bind_eq (p : Prog Op Ans ε α) (f : α → Prog Op Ans ε β) :
    p >>= f = p.andThen fun
      | .ok a => f a
      | .error e => raise e := rfl

@[simp] theorem done_andThen (r : Except ε α) (f : Except ε α → Prog Op Ans ε β) :
    (done r : Prog Op Ans ε α).andThen f = f r := rfl

@[simp] theorem op_andThen (o : Op) (k : Except ε (Ans o) → Prog Op Ans ε α)
    (f : Except ε α → Prog Op Ans ε β) :
    (op o k).andThen f = op o fun r => (k r).andThen f := rfl

theorem map_eq (f : α → β) (p : Prog Op Ans ε α) :
    f <$> p = p.andThen fun
      | .ok a => done (.ok (f a))
      | .error e => raise e := rfl

theorem andThen_assoc (p : Prog Op Ans ε α) (f : Except ε α → Prog Op Ans ε β)
    (g : Except ε β → Prog Op Ans ε γ) :
    (p.andThen f).andThen g = p.andThen fun r => (f r).andThen g := by
  induction p with
  | done r => rfl
  | op o k ih => exact congrArg (op o) (funext ih)

theorem andThen_done (p : Prog Op Ans ε α) : p.andThen done = p := by
  induction p with
  | done r => rfl
  | op o k ih => exact congrArg (op o) (funext ih)

/-! ## The operations of a program -/

def AllOps (P : Op → Prop) : Prog Op Ans ε α → Prop
  | done _ => True
  | op o k => P o ∧ ∀ r, (k r).AllOps P

section AllOps

variable {P : Op → Prop} {p : Prog Op Ans ε α}

theorem allOps_andThen {f : Except ε α → Prog Op Ans ε β} (hp : p.AllOps P)
    (hf : ∀ r, (f r).AllOps P) : (p.andThen f).AllOps P := by
  induction p with
  | done r => exact hf r
  | op o k ih => exact ⟨hp.1, fun r => ih r (hp.2 r)⟩

theorem allOps_perform {o : Op} (h : P o) : (perform o : Prog Op Ans ε (Ans o)).AllOps P :=
  ⟨h, fun _ => trivial⟩

theorem allOps_pure (a : α) : (pure a : Prog Op Ans ε α).AllOps P := trivial

theorem allOps_raise (e : ε) : (raise e : Prog Op Ans ε α).AllOps P := trivial

theorem allOps_bind {f : α → Prog Op Ans ε β} (hp : p.AllOps P) (hf : ∀ a, (f a).AllOps P) :
    (p >>= f).AllOps P :=
  allOps_andThen hp fun
    | .ok a => hf a
    | .error _ => trivial

theorem allOps_map {f : α → β} (hp : p.AllOps P) : (f <$> p).AllOps P :=
  allOps_bind hp fun _ => trivial

theorem allOps_attempt {h : ε → Prog Op Ans ε α} (hp : p.AllOps P) (hh : ∀ e, (h e).AllOps P) :
    (p.attempt h).AllOps P :=
  allOps_andThen hp fun
    | .ok _ => trivial
    | .error e => hh e

theorem allOps_ensure {q : Prog Op Ans ε Unit} (hp : p.AllOps P) (hq : q.AllOps P) :
    (p.ensure q).AllOps P :=
  allOps_andThen hp fun _ => allOps_andThen hq fun
    | .ok _ => trivial
    | .error _ => trivial

/-- A loop performs the operations of its rounds. -/
theorem allOps_foldlM {f : β → α → Prog Op Ans ε β} {l : List α}
    (hf : ∀ b, ∀ a ∈ l, (f b a).AllOps P) (b : β) : (l.foldlM f b).AllOps P := by
  induction l generalizing b with
  | nil => trivial
  | cons a l ih =>
    rw [List.foldlM_cons]
    exact allOps_bind (hf b a List.mem_cons_self)
      fun c => ih (fun b' a' ha' => hf b' a' (List.mem_cons_of_mem _ ha')) c

theorem allOps_forM {f : α → Prog Op Ans ε PUnit} : ∀ {l : List α},
    (∀ a ∈ l, (f a).AllOps P) → (l.forM f).AllOps P
  | [], _ => trivial
  | a :: l, hf => by
    change (f a >>= fun _ => l.forM f).AllOps P
    exact allOps_bind (hf a List.mem_cons_self)
      fun _ => allOps_forM fun b hb => hf b (List.mem_cons_of_mem _ hb)

theorem AllOps.mono {P' : Op → Prop} (h : ∀ o, P o → P' o) (hp : p.AllOps P) : p.AllOps P' := by
  induction p with
  | done r => trivial
  | op o k ih => exact ⟨h o hp.1, fun r => ih r (hp.2 r)⟩

end AllOps

/-! ## The results of a program -/

/-- Whatever the answers, the program ends as `Q` says. -/
def Returns (Q : Except ε α → Prop) : Prog Op Ans ε α → Prop
  | done r => Q r
  | op _ k => ∀ r, (k r).Returns Q

theorem Returns.andThen {p : Prog Op Ans ε α} {f : Except ε α → Prog Op Ans ε β}
    {P : Except ε α → Prop} {Q : Except ε β → Prop} (hp : p.Returns P)
    (hf : ∀ r, P r → (f r).Returns Q) : (p.andThen f).Returns Q := by
  induction p with
  | done r => exact hf r hp
  | op o k ih => exact fun r => ih r (hp r)

theorem returns_true (p : Prog Op Ans ε α) : p.Returns fun _ => True := by
  induction p with
  | done r => trivial
  | op o k ih => exact ih

theorem Returns.bind {p : Prog Op Ans ε α} {f : α → Prog Op Ans ε β} {P : Except ε α → Prop}
    {Q : Except ε β → Prop} (hp : p.Returns P) (hf : ∀ a, P (.ok a) → (f a).Returns Q)
    (he : ∀ e, Q (.error e)) : (p >>= f).Returns Q :=
  hp.andThen fun
    | .ok a, h => hf a h
    | .error e, _ => he e

theorem Returns.attempt {p : Prog Op Ans ε α} {f : ε → Prog Op Ans ε α} {P Q : Except ε α → Prop}
    (hp : p.Returns P) (hok : ∀ a, P (.ok a) → Q (.ok a)) (hf : ∀ e, (f e).Returns Q) :
    (p.attempt f).Returns Q :=
  hp.andThen fun
    | .ok a, h => hok a h
    | .error e, _ => hf e

/-! ## Safe programs -/

variable (pre : Op → W → Prop) (step : W → (o : Op) → Except ε (Ans o) → W → Prop)

def Safe : Prog Op Ans ε α → (Except ε α → W → Prop) → W → Prop
  | done r, Q, w => Q r w
  | op o k, Q, w => pre o w ∧ ∀ r w', step w o r w' → (k r).Safe Q w'

section Safe

variable {pre step} {p : Prog Op Ans ε α} {Q Q' : Except ε α → W → Prop} {w : W}

@[simp] theorem safe_done {r : Except ε α} :
    (done r : Prog Op Ans ε α).Safe pre step Q w ↔ Q r w := Iff.rfl

/-- **Composition**: what `p` ends with is where the rest starts. -/
theorem safe_andThen {f : Except ε α → Prog Op Ans ε β} {Q : Except ε β → W → Prop} :
    (p.andThen f).Safe pre step Q w ↔ p.Safe pre step (fun r w => (f r).Safe pre step Q w) w := by
  induction p generalizing w with
  | done r => exact Iff.rfl
  | op o k ih => exact and_congr_right fun _ => forall₃_congr fun r w' _ => ih r

theorem Safe.mono (h : p.Safe pre step Q w) (hQ : ∀ r w, Q r w → Q' r w) :
    p.Safe pre step Q' w := by
  induction p generalizing w with
  | done r => exact hQ r w h
  | op o k ih => exact ⟨h.1, fun r w' hs => ih r (h.2 r w' hs)⟩

theorem safe_perform {o : Op} {Q : Except ε (Ans o) → W → Prop} :
    (perform o : Prog Op Ans ε (Ans o)).Safe pre step Q w ↔
      pre o w ∧ ∀ r w', step w o r w' → Q r w' := Iff.rfl

theorem safe_bind {f : α → Prog Op Ans ε β} {Q : Except ε β → W → Prop} :
    (p >>= f).Safe pre step Q w ↔ p.Safe pre step (fun
      | .ok a, w => (f a).Safe pre step Q w
      | .error e, w => Q (.error e) w) w := by
  rw [bind_eq, safe_andThen]
  refine ⟨fun h => h.mono ?_, fun h => h.mono ?_⟩ <;> rintro (e | a) w h <;> exact h

theorem safe_map {f : α → β} {Q : Except ε β → W → Prop} :
    (f <$> p).Safe pre step Q w ↔ p.Safe pre step (fun
      | .ok a, w => Q (.ok (f a)) w
      | .error e, w => Q (.error e) w) w := safe_bind

theorem safe_attempt {h : ε → Prog Op Ans ε α} :
    (p.attempt h).Safe pre step Q w ↔ p.Safe pre step (fun
      | .ok a, w => Q (.ok a) w
      | .error e, w => (h e).Safe pre step Q w) w := by
  rw [attempt, safe_andThen]
  refine ⟨fun h => h.mono ?_, fun h => h.mono ?_⟩ <;> rintro (e | a) w h <;> exact h

theorem safe_ensure {q : Prog Op Ans ε Unit} :
    (p.ensure q).Safe pre step Q w ↔ p.Safe pre step (fun r w => q.Safe pre step (fun
      | .ok _, w => Q r w
      | .error e, w => Q (.error e) w) w) w := by
  rw [ensure, safe_andThen]
  refine ⟨fun h => h.mono fun r w h => ?_, fun h => h.mono fun r w h => ?_⟩
  · refine (safe_andThen.mp h).mono ?_
    rintro (e | a) w h <;> exact h
  · refine safe_andThen.mpr (h.mono ?_)
    rintro (e | a) w h <;> exact h

/-- What a run ends with is one of the results of the program. -/
theorem Safe.returns {P : Except ε α → Prop} (h : p.Safe pre step Q w) (hp : p.Returns P) :
    p.Safe pre step (fun r w => Q r w ∧ P r) w := by
  induction p generalizing w with
  | done r => exact ⟨h, hp⟩
  | op o k ih => exact ⟨h.1, fun r w' hs => ih r (h.2 r w' hs) (hp r)⟩

/-- **A program runs in a larger world as in the small one**: each of its operations does what it
may do there, and keeps what `F` says of the rest of the world. -/
theorem Safe.lift {V : Type} {π : W → V} {P : Op → Prop} {F : W → Prop} {pre' : Op → V → Prop}
    {step' : V → (o : Op) → Except ε (Ans o) → V → Prop}
    (hstep : ∀ w o r w', F w → P o → step w o r w' → step' (π w) o r (π w') ∧ F w')
    (hpre : ∀ w o, F w → P o → pre' o (π w) → pre o w) (hp : p.AllOps P) (hF : F w)
    (h : p.Safe pre' step' (fun r v => ∀ w, π w = v → F w → Q r w) (π w)) :
    p.Safe pre step Q w := by
  induction p generalizing w with
  | done r => exact h w rfl hF
  | op o k ih =>
    refine ⟨hpre w o hF hp.1 h.1, fun r w' hs => ?_⟩
    obtain ⟨h1, h2⟩ := hstep w o r w' hF hp.1 hs
    exact ih r (hp.2 r) h2 (h.2 r _ h1)

theorem Safe.weaken {pre' : Op → W → Prop} (hpre : ∀ o w, pre o w → pre' o w)
    (h : p.Safe pre step Q w) : p.Safe pre' step Q w := by
  induction p generalizing w with
  | done r => exact h
  | op o k ih => exact ⟨hpre o w h.1, fun r w' hs => ih r (h.2 r w' hs)⟩

/-- A step may be replaced by one that allows more, for the operations of the program. -/
theorem Safe.of_steps {P : Op → Prop} {step' : W → (o : Op) → Except ε (Ans o) → W → Prop}
    (hstep : ∀ w o r w', P o → step w o r w' → step' w o r w') (hp : p.AllOps P)
    (h : p.Safe pre step' Q w) : p.Safe pre step Q w := by
  induction p generalizing w with
  | done r => exact h
  | op o k ih =>
    exact ⟨h.1, fun r w' hs => ih r (hp.2 r) (h.2 r w' (hstep w o r w' hp.1 hs))⟩

/-- **Loops**: `inv` holds before each round, of the rest of the list and what the loop has made. -/
theorem safe_foldlM {f : β → α → Prog Op Ans ε β} {Q : Except ε β → W → Prop}
    (inv : List α → β → W → Prop)
    (hf : ∀ a l b w, inv (a :: l) b w → (f b a).Safe pre step (fun
      | .ok c, w => inv l c w
      | .error e, w => Q (.error e) w) w)
    (hQ : ∀ b w, inv [] b w → Q (.ok b) w) :
    ∀ {l : List α} {b : β} {w : W}, inv l b w → (l.foldlM f b).Safe pre step Q w
  | [], b, w, h => hQ b w h
  | a :: l, b, w, h => by
    rw [List.foldlM_cons, safe_bind]
    refine (hf a l b w h).mono ?_
    rintro (e | c) w h
    · exact h
    · exact safe_foldlM inv hf hQ h

theorem safe_forM {f : α → Prog Op Ans ε PUnit} {Q : Except ε PUnit → W → Prop}
    (inv : List α → W → Prop)
    (hf : ∀ a l w, inv (a :: l) w → (f a).Safe pre step (fun
      | .ok _, w => inv l w
      | .error e, w => Q (.error e) w) w)
    (hQ : ∀ w, inv [] w → Q (.ok ⟨⟩) w) :
    ∀ {l : List α} {w : W}, inv l w → (l.forM f).Safe pre step Q w
  | [], w, h => hQ w h
  | a :: l, w, h => by
    change (f a >>= fun _ => l.forM f).Safe pre step Q w
    refine safe_bind.mpr ((hf a l w h).mono ?_)
    rintro (e | _) w h
    · exact h
    · exact safe_forM inv hf hQ h

end Safe

/-! ## Operations and their answers -/

/-- Each operation satisfies `P`, when the earlier ones answered as `A` says. -/
def Follows (A : (o : Op) → Except ε (Ans o) → Prop) (P : Op → Prop) : Prog Op Ans ε α → Prop
  | done _ => True
  | op o k => P o ∧ ∀ r, A o r → (k r).Follows A P

section Follows

variable {A : (o : Op) → Except ε (Ans o) → Prop} {P : Op → Prop} {p : Prog Op Ans ε α}

theorem AllOps.follows (h : p.AllOps P) : p.Follows A P := by
  induction p with
  | done r => trivial
  | op o k ih => exact ⟨h.1, fun r _ => ih r (h.2 r)⟩

theorem follows_andThen {f : Except ε α → Prog Op Ans ε β} (hp : p.Follows A P)
    (hf : ∀ r, (f r).Follows A P) : (p.andThen f).Follows A P := by
  induction p with
  | done r => exact hf r
  | op o k ih => exact ⟨hp.1, fun r hr => ih r (hp.2 r hr)⟩

theorem follows_bind {f : α → Prog Op Ans ε β} (hp : p.Follows A P)
    (hf : ∀ a, (f a).Follows A P) : (p >>= f).Follows A P := by
  refine follows_andThen hp ?_
  rintro (e | a)
  · trivial
  · exact hf a

theorem follows_attempt {h : ε → Prog Op Ans ε α} (hp : p.Follows A P)
    (hh : ∀ e, (h e).Follows A P) : (p.attempt h).Follows A P := by
  refine follows_andThen hp ?_
  rintro (e | a)
  · exact hh e
  · trivial

theorem follows_foldlM {f : β → α → Prog Op Ans ε β} (hf : ∀ b a, (f b a).Follows A P) :
    ∀ {l : List α} {b : β}, (l.foldlM f b).Follows A P
  | [], _ => trivial
  | a :: l, b => by
    rw [List.foldlM_cons]
    exact follows_bind (hf b a) fun _ => follows_foldlM hf

end Follows

/-! ## Labels -/

/-- The program with each of its operations under the label `c`. -/
def label {C : Type} (c : C) :
    Prog Op Ans ε α → Prog (C × Op) (fun x => Ans x.2) ε α
  | done r => done r
  | op o k => op (c, o) fun r => (k r).label c

theorem label_andThen {C : Type} (c : C) (p : Prog Op Ans ε α)
    (f : Except ε α → Prog Op Ans ε β) :
    (p.andThen f).label c = (p.label c).andThen fun r => (f r).label c := by
  induction p with
  | done r => rfl
  | op o k ih => exact congrArg (op (c, o)) (funext ih)

theorem safe_label {C : Type} {c : C} {pre : C × Op → W → Prop}
    {step : W → (o : C × Op) → Except ε (Ans o.2) → W → Prop} {p : Prog Op Ans ε α}
    {Q : Except ε α → W → Prop} {w : W} : (p.label c).Safe pre step Q w ↔
      p.Safe (fun o => pre (c, o)) (fun w o => step w (c, o)) Q w := by
  induction p generalizing w with
  | done r => exact Iff.rfl
  | op o k ih => exact and_congr_right fun _ => forall₃_congr fun r w' _ => ih r

/-! ## Runs -/

/-- The outcome of the program and the last world. `h` may stop the program in place of an
answer. -/
def run (h : W → (o : Op) → Option (Except ε (Ans o)) × W) :
    Prog Op Ans ε α → W → Option (Except ε α) × W
  | done r, w => (some r, w)
  | op o k, w =>
    match h w o with
    | (some r, w') => (k r).run h w'
    | (none, w') => (none, w')

/-- **A run of a safe program** that is answered as the step allows ends as the program may. -/
theorem Safe.run {pre : Op → W → Prop} {step : W → (o : Op) → Except ε (Ans o) → W → Prop}
    {Q : Except ε α → W → Prop} {serve : W → (o : Op) → Option (Except ε (Ans o)) × W}
    (hserve : ∀ w o r w', serve w o = (some r, w') → step w o r w') {p : Prog Op Ans ε α} {w w' : W}
    {r : Except ε α} (h : p.Safe pre step Q w) (hr : p.run serve w = (some r, w')) : Q r w' := by
  induction p generalizing w with
  | done x =>
    cases hr
    exact h
  | op o k ih =>
    rw [Prog.run] at hr
    cases hs : serve w o with
    | mk x w₁ =>
      rw [hs] at hr
      cases x with
      | none => cases hr
      | some x => exact ih x (h.2 x w₁ (hserve w o x w₁ hs)) hr

end Prog

end PiIpython
