import PiIpython.Lib.Prog
import PiIpython.Lib.Machine

/-!
# Sessions that share a world under a lock

Any number of sessions run programs on one world. An operation may take the
lock, give it back, need it, or do neither; an operation that needs it is done
whether the session has it or not, so that it has to be shown that only the
holder does one. A signal raises an exception before or after an operation; a
kill ends the program of a session and frees its lock.

The free lock owns an invariant of the world: a program that takes the lock may
rely on it, and has to restore it before it gives the lock back and wherever a
kill may strike (`Sessions.Guarded.throughout`). A program that keeps it only
as far as its operations are permitted does so in runs where all of them are
(`Sessions.Guarded.throughout_only`).
-/

namespace PiIpython

/-- How an operation uses the lock. -/
inductive Use where
  | free
  | acquire
  | release
  | locked
  deriving DecidableEq

/-- What can happen to a session at an operation. -/
inductive Strike where
  | interruptBefore
  | interruptAfter
  | kill
  deriving DecidableEq

/-- A world for sessions: what the operations do when the environment decides as a hint says. -/
structure Shared (W Op : Type) (Ans : Op → Type) (ε Hint : Type) where
  use : Op → Use
  perform : W → Hint → (o : Op) → Option (Except ε (Ans o) × W)
  /-- What a signal raises. -/
  interrupt : ε
  /-- The world when the holder of the lock is killed at an operation. -/
  died : W → Op → W
  perform_free : ∀ {w : W} {h : Hint} {o : Op} {x : Except ε (Ans o) × W}, use o = .free →
    perform w h o = some x → x.2 = w

variable {W Op : Type} {Ans : Op → Type} {ε Hint Call : Type}

/-- The same world, where only some operations are done. -/
def Shared.only (M : Shared W Op Ans ε Hint) (permits : Op → Prop) [DecidablePred permits] :
    Shared W Op Ans ε Hint where
  use := M.use
  perform w h o := if permits o then M.perform w h o else none
  interrupt := M.interrupt
  died := M.died
  perform_free {w h o x} hu hx := by
    split at hx
    · exact M.perform_free hu hx
    · cases hx

structure Sessions (W Op : Type) (Ans : Op → Type) (ε : Type) where
  world : W
  holder : Option Nat
  program : Nat → Prog Op Ans ε Unit

inductive SessionEvent (Call Hint : Type) where
  | call (i : Nat) (c : Call)
  | act (i : Nat) (h : Hint)
  /-- A signal, before the operation or after it. -/
  | interrupt (i : Nat) (done : Option Hint)
  | kill (i : Nat)

namespace Sessions

variable (M : Shared W Op Ans ε Hint) (start : Call → Prog Op Ans ε Unit)

/-- Session `i` goes on with `p`. -/
def goOn (s : Sessions W Op Ans ε) (i : Nat) (p : Prog Op Ans ε Unit) : Sessions W Op Ans ε :=
  { s with program := Function.update s.program i p }

/-- The operation is done by session `i`. Who waits for the lock does nothing. -/
def perform (s : Sessions W Op Ans ε) (i : Nat) (h : Hint) (o : Op) :
    Option (Except ε (Ans o) × Sessions W Op Ans ε) :=
  match M.use o with
  | .acquire =>
    if s.holder = none then
      (M.perform s.world h o).map fun x =>
        (x.1, match x.1 with
          | .ok _ => { s with world := x.2, holder := some i }
          | .error _ => s)
    else none
  | .release =>
    (M.perform s.world h o).map fun x =>
      (x.1, if s.holder = some i then { s with world := x.2, holder := none } else s)
  | _ => (M.perform s.world h o).map fun x => (x.1, { s with world := x.2 })

/-- A step. A lock is given back whatever happens. -/
def step (s : Sessions W Op Ans ε) : SessionEvent Call Hint → Option (Sessions W Op Ans ε)
  | .call i c =>
    match s.program i with
    | .done _ => if s.holder = some i then none else some (s.goOn i (start c))
    | .op _ _ => none
  | .act i h =>
    match s.program i with
    | .done _ => none
    | .op o k => (s.perform M i h o).map fun x => x.2.goOn i (k x.1)
  | .interrupt i none =>
    match s.program i with
    | .done _ => none
    | .op o k => if M.use o = .release then none else some (s.goOn i (k (.error M.interrupt)))
  | .interrupt i (some h) =>
    match s.program i with
    | .done _ => none
    | .op o k => (s.perform M i h o).map fun x => x.2.goOn i (k (.error M.interrupt))
  | .kill i =>
    match s.program i with
    | .done _ => if s.holder = some i then none else some s
    | .op o _ =>
      some (if s.holder = some i then
          { (s.goOn i (.done (.error M.interrupt))) with world := M.died s.world o, holder := none }
        else s.goOn i (.done (.error M.interrupt)))

/-! ## Programs that keep an invariant -/

variable (allowed : W → Op → Strike → Prop) (K J : W → Prop)

/-- A strike at the holder of the lock is allowed in the world where it happens. -/
def Allowed (s : Sessions W Op Ans ε) : SessionEvent Call Hint → Prop
  | .interrupt i none => ∀ o k, s.program i = .op o k → s.holder = some i →
      allowed s.world o .interruptBefore
  | .interrupt i (some h) => ∀ o k, s.program i = .op o k → ∀ x ∈ s.perform M i h o,
      x.2.holder = some i → allowed x.2.world o .interruptAfter
  | .kill i => ∀ o k, s.program i = .op o k → s.holder = some i → allowed s.world o .kill
  | _ => True

/-- Where an operation of the holder may start: a kill would leave the invariant. -/
def Pre (o : Op) (w : W) : Prop := K w ∧ (allowed w o .kill → J (M.died w o))

/-- Where an operation may start that does not concern the lock. -/
def PreLocked (o : Op) (w : W) : Prop :=
  (M.use o = .free ∨ M.use o = .locked) ∧ Pre M allowed K J o w

/-- What an operation of the holder may do. -/
def Step (w : W) (o : Op) (r : Except ε (Ans o)) (w' : W) : Prop :=
  (∃ h, M.perform w h o = some (r, w')) ∨
    r = .error M.interrupt ∧ (allowed w o .interruptBefore ∧ w' = w ∨
      allowed w' o .interruptAfter ∧ ∃ h r₀, M.perform w h o = some (r₀, w'))

/-- The rest of a program of the holder and of one that has not got the lock. -/
inductive Place where
  | inside (w : W)
  | outside

/-- The rest of a program keeps the invariant. -/
def Keeps : Prog Op Ans ε Unit → Place (W := W) → Prop
  | .done _, .outside => True
  | .done _, .inside _ => False
  | .op o k, .outside =>
    match M.use o with
    | .free => ∀ r, Keeps (k r) .outside
    | .release => ∀ r, Keeps (k r) .outside
    | .acquire => (∀ e, Keeps (k (.error e)) .outside) ∧
        ∀ w h a w', J w → M.perform w h o = some (.ok a, w') →
          Keeps (k (.ok a)) (.inside w') ∧
            (allowed w' o .interruptAfter → Keeps (k (.error M.interrupt)) (.inside w'))
    | .locked => False
  | .op o k, .inside w => Pre M allowed K J o w ∧
    match M.use o with
    | .release => ∀ h r w', M.perform w h o = some (r, w') → J w' ∧ Keeps (k r) .outside ∧
        Keeps (k (.error M.interrupt)) .outside
    | .acquire => allowed w o .interruptBefore → Keeps (k (.error M.interrupt)) (.inside w)
    | _ => ∀ r w', Step M allowed w o r w' → Keeps (k r) (.inside w')

/-- The invariant of a run. -/
structure Guarded (s : Sessions W Op Ans ε) : Prop where
  always : K s.world
  free : s.holder = none → J s.world
  outside : ∀ i, s.holder ≠ some i → Keeps M allowed K J (s.program i) .outside
  inside : ∀ i, s.holder = some i → Keeps M allowed K J (s.program i) (.inside s.world)

section Guarded

variable {M start allowed K J} {s t : Sessions W Op Ans ε}

theorem goOn_program_self (i : Nat) (p : Prog Op Ans ε Unit) : (s.goOn i p).program i = p :=
  Function.update_self ..

theorem goOn_program_of_ne {i j : Nat} (h : j ≠ i) (p : Prog Op Ans ε Unit) :
    (s.goOn i p).program j = s.program j :=
  Function.update_of_ne h ..

/-- A session that is not the holder goes on. -/
theorem Guarded.goOn_outside (hs : Guarded M allowed K J s) {i : Nat} (hi : s.holder ≠ some i)
    {p : Prog Op Ans ε Unit} (hp : Keeps M allowed K J p .outside) :
    Guarded M allowed K J (s.goOn i p) where
  always := hs.always
  free := hs.free
  outside j hj := by
    by_cases h : j = i
    · subst h; rwa [goOn_program_self]
    · rw [goOn_program_of_ne h]; exact hs.outside j hj
  inside j hj := by
    have h : j ≠ i := by rintro rfl; exact hi hj
    rw [goOn_program_of_ne h]
    exact hs.inside j hj

/-- Session `i` has the lock and goes on in the world `w`. -/
theorem Guarded.goOn_inside (hs : Guarded M allowed K J s) {i : Nat}
    (hi : s.holder = none ∨ s.holder = some i) {w : W} {p : Prog Op Ans ε Unit} (hw : K w)
    (hp : Keeps M allowed K J p (.inside w)) :
    Guarded M allowed K J ({ s with world := w, holder := some i }.goOn i p) where
  always := hw
  free h := by cases h
  outside j hj := by
    have h : j ≠ i := by rintro rfl; exact hj rfl
    rw [goOn_program_of_ne h]
    refine hs.outside j ?_
    rcases hi with hi | hi
    · rw [hi]; exact nofun
    · rw [hi]; exact fun h' => h (Option.some.inj h').symm
  inside j hj := by
    obtain rfl : i = j := Option.some.inj hj
    rwa [goOn_program_self]

/-- The holder gives the lock back, or is killed. -/
theorem Guarded.goOn_freed (hJK : ∀ w, J w → K w) (hs : Guarded M allowed K J s) {i : Nat}
    (hi : s.holder = some i) {w : W} {p : Prog Op Ans ε Unit} (hw : J w)
    (hp : Keeps M allowed K J p .outside) :
    Guarded M allowed K J ({ s with world := w, holder := none }.goOn i p) where
  always := hJK w hw
  free _ := hw
  outside j _ := by
    by_cases h : j = i
    · subst h; rwa [goOn_program_self]
    · rw [goOn_program_of_ne h]
      exact hs.outside j (by rw [hi]; exact fun h' => h (Option.some.inj h').symm)
  inside j hj := by cases hj

/-- What the rest of a program that keeps the invariant is ready for satisfies the invariant. -/
theorem Keeps.always {p : Prog Op Ans ε Unit} {w : W} (h : Keeps M allowed K J p (.inside w)) :
    K w := by
  cases p with
  | done r => exact h.elim
  | op o k =>
    rw [Keeps] at h
    exact h.1.1

theorem keeps_free {o : Op} {k : Except ε (Ans o) → Prog Op Ans ε Unit}
    (hu : M.use o = .free ∨ M.use o = .release) (h : ∀ r, Keeps M allowed K J (k r) .outside) :
    Keeps M allowed K J (.op o k) .outside := by
  rw [Keeps]
  rcases hu with hu | hu <;> rw [hu] <;> exact h

/-- Whoever takes the lock may rely on the invariant. -/
theorem keeps_acquire {o : Op} {k : Except ε (Ans o) → Prog Op Ans ε Unit}
    (hu : M.use o = .acquire) (he : ∀ e, Keeps M allowed K J (k (.error e)) .outside)
    (h : ∀ w h a w', J w → M.perform w h o = some (.ok a, w') →
      Keeps M allowed K J (k (.ok a)) (.inside w') ∧
        (allowed w' o .interruptAfter → Keeps M allowed K J (k (.error M.interrupt)) (.inside w'))) :
    Keeps M allowed K J (.op o k) .outside := by
  rw [Keeps, hu]
  exact ⟨he, h⟩

/-- Whoever gives the lock back has to restore the invariant. -/
theorem keeps_release {o : Op} {k : Except ε (Ans o) → Prog Op Ans ε Unit} {w : W}
    (hu : M.use o = .release) (hpre : Pre M allowed K J o w)
    (h : ∀ h r w', M.perform w h o = some (r, w') → J w')
    (hk : ∀ r, Keeps M allowed K J (k r) .outside) :
    Keeps M allowed K J (.op o k) (.inside w) := by
  rw [Keeps, hu]
  exact ⟨hpre, fun h' r w' hx => ⟨h h' r w' hx, hk r, hk _⟩⟩

/-- A program without the lock may begin with free operations. -/
theorem keeps_andThen_free {α : Type} {p : Prog Op Ans ε α} {f : Except ε α → Prog Op Ans ε Unit}
    (hp : p.AllOps (M.use · = .free)) (hf : ∀ r, Keeps M allowed K J (f r) .outside) :
    Keeps M allowed K J (p.andThen f) .outside := by
  induction p with
  | done r => exact hf r
  | op o k ih =>
    rw [Prog.op_andThen, Keeps, hp.1]
    exact fun r => ih r (hp.2 r)

/-- **With the lock, a safe program keeps the invariant** when what follows it does. -/
theorem keeps_andThen_safe {α : Type} {p : Prog Op Ans ε α} {f : Except ε α → Prog Op Ans ε Unit}
    {w : W} (h : p.Safe (PreLocked M allowed K J) (Step M allowed)
      (fun r w => Keeps M allowed K J (f r) (.inside w)) w) :
    Keeps M allowed K J (p.andThen f) (.inside w) := by
  induction p generalizing w with
  | done r => exact h
  | op o k ih =>
    rw [Prog.op_andThen, Keeps]
    refine ⟨h.1.2, ?_⟩
    rcases h.1.1 with hu | hu <;> rw [hu] <;> exact fun r w' hs => ih r (h.2 r w' hs)

/-- **An operation that is done keeps the invariant**, whatever it answers: the session goes on
with the answer, or with the exception of a signal that is allowed there. -/
theorem Guarded.perform (hJK : ∀ w, J w → K w) (hs : Guarded M allowed K J s) {i : Nat} {o : Op}
    {k : Except ε (Ans o) → Prog Op Ans ε Unit} (hp : s.program i = .op o k) {h : Hint}
    {r : Except ε (Ans o)} (hx : s.perform M i h o = some (r, t)) :
    Guarded M allowed K J (t.goOn i (k r)) ∧
      ((t.holder = some i → allowed t.world o .interruptAfter) →
        Guarded M allowed K J (t.goOn i (k (.error M.interrupt)))) := by
  unfold Sessions.perform at hx
  split at hx
  · next hu =>
    split at hx
    · next hn =>
      obtain ⟨⟨r', w⟩, hw, hx⟩ := Option.map_eq_some_iff.mp hx
      have hi : s.holder ≠ some i := by rw [hn]; exact nofun
      have hk := hs.outside i hi
      rw [hp, Keeps, hu] at hk
      obtain ⟨rfl, rfl⟩ := Prod.mk.inj hx
      cases r' with
      | error e => exact ⟨hs.goOn_outside hi (hk.1 e), fun _ => hs.goOn_outside hi (hk.1 _)⟩
      | ok a =>
        obtain ⟨h1, h2⟩ := hk.2 _ h a w (hs.free hn) hw
        refine ⟨hs.goOn_inside (.inl hn) h1.always h1, fun ha => ?_⟩
        have h2 := h2 (ha rfl)
        exact hs.goOn_inside (.inl hn) h2.always h2
    · cases hx
  · next hu =>
    obtain ⟨⟨r', w⟩, hw, hx⟩ := Option.map_eq_some_iff.mp hx
    obtain ⟨rfl, rfl⟩ := Prod.mk.inj hx
    by_cases hi : s.holder = some i
    · have hk := hs.inside i hi
      rw [hp, Keeps, hu] at hk
      obtain ⟨h1, h2, h3⟩ := hk.2 h r' w hw
      rw [if_pos hi]
      exact ⟨hs.goOn_freed hJK hi h1 h2, fun _ => hs.goOn_freed hJK hi h1 h3⟩
    · have hk := hs.outside i hi
      rw [hp, Keeps, hu] at hk
      rw [if_neg hi]
      exact ⟨hs.goOn_outside hi (hk _), fun _ => hs.goOn_outside hi (hk _)⟩
  · next hna hnr =>
    obtain ⟨⟨r', w⟩, hw, hx⟩ := Option.map_eq_some_iff.mp hx
    obtain ⟨rfl, rfl⟩ := Prod.mk.inj hx
    by_cases hi : s.holder = some i
    · have hk := hs.inside i hi
      rw [hp, Keeps] at hk
      have hstep : ∀ r, Step M allowed s.world o r w → Keeps M allowed K J (k r) (.inside w) := by
        intro r hr
        cases hu : M.use o with
        | acquire => exact absurd hu hna
        | release => exact absurd hu hnr
        | free => rw [hu] at hk; exact hk.2 r w hr
        | locked => rw [hu] at hk; exact hk.2 r w hr
      have hself : ({ s with world := w } : Sessions W Op Ans ε) =
          { s with world := w, holder := some i } := by rw [← hi]
      have h1 := hstep r' (.inl ⟨h, hw⟩)
      dsimp only
      rw [hself]
      refine ⟨hs.goOn_inside (.inr hi) h1.always h1, fun ha => ?_⟩
      have h2 := hstep _ (.inr ⟨rfl, .inr ⟨ha hi, h, r', hw⟩⟩)
      exact hs.goOn_inside (.inr hi) h2.always h2
    · have hk := hs.outside i hi
      rw [hp, Keeps] at hk
      cases hu : M.use o with
      | acquire => exact absurd hu hna
      | release => exact absurd hu hnr
      | locked => rw [hu] at hk; exact hk.elim
      | free =>
        rw [hu] at hk
        obtain rfl : w = s.world := M.perform_free hu hw
        exact ⟨hs.goOn_outside hi (hk _), fun _ => hs.goOn_outside hi (hk _)⟩

/-- **A step keeps the invariant** when its strike is allowed. -/
theorem Guarded.step (hJK : ∀ w, J w → K w) (hstart : ∀ c, Keeps M allowed K J (start c) .outside)
    {e : SessionEvent Call Hint} (hs : Guarded M allowed K J s) (ha : Allowed M allowed s e)
    (ht : s.step M start e = some t) : Guarded M allowed K J t := by
  cases e with
  | call i c =>
    rw [Sessions.step] at ht
    split at ht
    · split at ht
      · cases ht
      · next hi =>
        cases ht
        exact hs.goOn_outside hi (hstart c)
    · cases ht
  | act i h =>
    rw [Sessions.step] at ht
    split at ht
    · cases ht
    · next o k hp =>
      obtain ⟨⟨r, u⟩, hu, rfl⟩ := Option.map_eq_some_iff.mp ht
      exact (hs.perform hJK hp hu).1
  | interrupt i done =>
    cases done with
    | none =>
      rw [Sessions.step] at ht
      split at ht
      · cases ht
      next o k hp =>
      split at ht
      · cases ht
      next hr =>
      cases ht
      by_cases hi : s.holder = some i
      · have hk := hs.inside i hi
        have ha := ha o k hp hi
        rw [hp, Keeps] at hk
        have hself : s = { s with world := s.world, holder := some i } := by rw [← hi]
        have hk' : Keeps M allowed K J (k (.error M.interrupt)) (.inside s.world) := by
          cases hu : M.use o with
          | acquire => rw [hu] at hk; exact hk.2 ha
          | release => exact absurd hu hr
          | free => rw [hu] at hk; exact hk.2 _ _ (.inr ⟨rfl, .inl ⟨ha, rfl⟩⟩)
          | locked => rw [hu] at hk; exact hk.2 _ _ (.inr ⟨rfl, .inl ⟨ha, rfl⟩⟩)
        rw [hself]
        exact hs.goOn_inside (.inr hi) hs.always hk'
      · have hk := hs.outside i hi
        rw [hp, Keeps] at hk
        refine hs.goOn_outside hi ?_
        cases hu : M.use o with
        | acquire => rw [hu] at hk; exact hk.1 _
        | release => exact absurd hu hr
        | free => rw [hu] at hk; exact hk _
        | locked => rw [hu] at hk; exact hk.elim
    | some h =>
      rw [Sessions.step] at ht
      split at ht
      · cases ht
      next o k hp =>
      obtain ⟨⟨r, u⟩, hu, rfl⟩ := Option.map_eq_some_iff.mp ht
      exact (hs.perform hJK hp hu).2 (ha o k hp _ hu)
  | kill i =>
    rw [Sessions.step] at ht
    split at ht
    · split at ht
      · cases ht
      · cases ht
        exact hs
    next o k hp =>
    cases ht
    by_cases hi : s.holder = some i
    · have hk := hs.inside i hi
      rw [hp, Keeps] at hk
      rw [if_pos hi]
      have hd := hk.1.2 (ha o k hp hi)
      have hg := hs.goOn_freed hJK hi hd (p := .done (.error M.interrupt)) (by rw [Keeps]; trivial)
      exact hg
    · rw [if_neg hi]
      exact hs.goOn_outside hi (by rw [Keeps]; trivial)

/-- **The invariant holds all along a run** whose strikes are allowed. -/
theorem Guarded.throughout (hJK : ∀ w, J w → K w)
    (hstart : ∀ c, Keeps M allowed K J (start c) .outside) {es : List (SessionEvent Call Hint)}
    (hs : Guarded M allowed K J s)
    (ha : AllSteps (Sessions.step M start) (Allowed M allowed) s es) :
    Throughout (Sessions.step M start) (Guarded M allowed K J) s es :=
  invariant_throughout (fun _ _ _ hs ha ht => hs.step hJK hstart ha ht) hs ha

end Guarded

/-- The event does an operation only where it is permitted. -/
def Permitted (permits : Op → Prop) (s : Sessions W Op Ans ε) : SessionEvent Call Hint → Prop
  | .act i _ => ∀ o k, s.program i = .op o k → permits o
  | .interrupt i (some _) => ∀ o k, s.program i = .op o k → permits o
  | _ => True

section Only

variable {M start allowed K J} {s t : Sessions W Op Ans ε} {permits : Op → Prop}
  [DecidablePred permits]

theorem perform_only {i : Nat} {h : Hint} {o : Op} (ho : permits o) :
    s.perform (M.only permits) i h o = s.perform M i h o := by
  have hx : (M.only permits).perform s.world h o = M.perform s.world h o := if_pos ho
  unfold Sessions.perform
  rw [hx]
  rfl

/-- What is permitted is done as before. -/
theorem step_only {e : SessionEvent Call Hint} (he : Permitted permits s e) :
    s.step (M.only permits) start e = s.step M start e := by
  cases e with
  | act i h =>
    unfold Sessions.step
    dsimp only
    split
    · rfl
    · next o k hp => rw [perform_only (he o k hp)]
  | interrupt i done =>
    cases done with
    | none => rfl
    | some h =>
      unfold Sessions.step
      dsimp only
      split
      · rfl
      · next o k hp =>
        rw [perform_only (he o k hp)]
        rfl
  | call i c => rfl
  | kill i => rfl

theorem Allowed.only {e : SessionEvent Call Hint} (he : Permitted permits s e)
    (ha : Allowed M allowed s e) : Allowed (M.only permits) allowed s e := by
  cases e with
  | interrupt i done =>
    cases done with
    | none => exact ha
    | some h =>
      intro o k hp x hx
      rw [perform_only (he o k hp)] at hx
      exact ha o k hp x hx
  | _ => exact ha

/-- **The invariant holds all along a run** whose operations are permitted, when the programs keep
it as far as the operations are. -/
theorem Guarded.throughout_only (hJK : ∀ w, J w → K w)
    (hstart : ∀ c, Keeps (M.only permits) allowed K J (start c) .outside)
    {es : List (SessionEvent Call Hint)} (hs : Guarded (M.only permits) allowed K J s)
    (ha : AllSteps (Sessions.step M start)
      (fun s e => Allowed M allowed s e ∧ Permitted permits s e) s es) :
    Throughout (Sessions.step M start) (Guarded (M.only permits) allowed K J) s es := by
  refine invariant_throughout (fun s e t hs ha ht => ?_) hs ha
  exact hs.step hJK hstart (ha.1.only ha.2) ((step_only ha.2).trans ht)

end Only

end Sessions

end PiIpython
