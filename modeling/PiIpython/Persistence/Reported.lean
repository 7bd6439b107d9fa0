import PiIpython.Persistence.Serial

/-!
# What the callers of the queue see

One operation is awaited at a time (`inFlight_le_one`), and without further calls
every task settles, whatever the answers (`Inv.drains`). The failure of a `save` is
returned by the first `sync` that resolves after it and by no other, if between
any two calls of `save` a `sync` resolves that was called after the first
(`serialises`). Where that `sync` was called before, a failure may be lost
(`overwritten_failure`).
-/

namespace PiIpython.Persistence

open Text Prog

variable {numberText : Binary64 → JsStr} {q : Queue}

/-! ## The operations in flight -/

/-- What has been asked for and not been answered, with the tasks. -/
def inFlight : List Event → List (Nat × Op)
  | [] => []
  | .asked i o :: h => (i, o) :: inFlight h
  | .answered i o :: h => (inFlight h).erase (i, o)
  | .called _ _ :: h => inFlight h
  | .settled _ _ :: h => inFlight h

/-- The operation that a task awaits. -/
def Phase.awaited : Phase → Option Op
  | .running (.op o _) => some o
  | _ => none

/-- In flight is what a task awaits, and no two do. -/
def Flight (q : Queue) : Prop :=
  (inFlight q.events = [] ∧ ∀ (i : Nat) (t : Task), q.tasks[i]? = some t → t.phase.awaited = none) ∨
    ∃ (i : Nat) (t : Task) (o : Op), q.tasks[i]? = some t ∧ t.phase.awaited = some o ∧
      inFlight q.events = [(i, o)]

/-- Only the current task awaits something. -/
theorem Inv.idle (h : Inv numberText q) {i j : Nat} {t u : Task} (hc : q.Current i t)
    (hu : q.tasks[j]? = some u) (hne : j ≠ i) : u.phase.awaited = none := by
  rcases Nat.lt_or_gt_of_ne hne with hlt | hgt
  · obtain ⟨r, hr⟩ := hc.before j hlt u hu
    rw [hr]
    rfl
  · rw [h.later hc hgt hu]
    rfl

theorem flight_goOn {i : Nat} {t : Task} (hc : q.Current i t) (request : Request)
    (p : Async Outcome) (hidle : inFlight q.events = [])
    (hothers : ∀ (j : Nat) (u : Task), q.tasks[j]? = some u → j ≠ i → u.phase.awaited = none) :
    Flight (q.goOn i request p) := by
  unfold Queue.goOn
  generalize p.advance World.now q.world = x
  obtain ⟨p', w⟩ := x
  cases p' with
  | done r =>
    refine .inl ⟨hidle, fun j u hu => ?_⟩
    rcases set_tasks hc.task hu with ⟨-, rfl⟩ | ⟨hne, hu'⟩
    · rfl
    · exact hothers j u hu' hne
  | op o k =>
    refine .inr ⟨i, _, o, List.getElem?_set_self (List.getElem?_eq_some_iff.mp hc.task).1, rfl, ?_⟩
    exact congrArg ((i, o) :: ·) hidle

theorem Flight.goes {q' : Queue} (hf : Flight q) (h : Inv numberText q)
    (hg : Goes numberText q q') : Flight q' := by
  cases hg with
  | @begin i t task queued released =>
    have hc := h.current task queued released
    refine flight_goOn hc _ _ ?_ fun j u hu hne => h.idle hc hu hne
    rcases hf with ⟨hidle, -⟩ | ⟨j, u, o, hu, ho, -⟩
    · exact hidle
    rcases eq_or_ne j i with rfl | hne
    · rw [task] at hu
      cases hu
      rw [queued] at ho
      cases ho
    · rw [h.idle hc hu hne] at ho
      cases ho
  | @answer i t o k task running r immediate =>
    have hc := h.running task running
    have hc' : Queue.Current { q with events := .answered i o :: q.events } i t :=
      ⟨hc.task, hc.unsettled, hc.before⟩
    refine flight_goOn hc' _ _ ?_ fun j u hu hne => h.idle hc hu hne
    change (inFlight q.events).erase (i, o) = []
    rcases hf with ⟨-, hidle⟩ | ⟨j, u, o', hu, ho, hflight⟩
    · have := hidle i t task
      rw [running] at this
      cases this
    rcases eq_or_ne j i with rfl | hne
    · rw [task] at hu
      cases hu
      rw [running] at ho
      cases ho
      rw [hflight, List.erase_cons_head]
    · rw [h.idle hc hu hne] at ho
      cases ho

theorem Flight.reached (h : Reached numberText q) : Flight q := by
  induction h with
  | new generation aborted => exact .inl ⟨rfl, fun i t h => by cases h⟩
  | step hq hstep ih =>
    cases hstep with
    | call request =>
      rcases ih with ⟨hidle, hall⟩ | ⟨i, t, o, ht, ho, hflight⟩
      · refine .inl ⟨hidle, fun i t ht => ?_⟩
        rcases call_tasks ht with ht | ⟨-, rfl⟩
        · exact hall i t ht
        · rfl
      · exact .inr ⟨i, t, o, call_tasks_of ht, ho, hflight⟩
    | turn generation aborted => exact ih
    | go hg => exact ih.goes (Inv.reached hq) hg

/-- **No two operations overlap.** -/
theorem inFlight_le_one (h : Reached numberText q) : (inFlight q.events).length ≤ 1 := by
  rcases Flight.reached h with ⟨hidle, -⟩ | ⟨i, t, o, -, -, hflight⟩
  · rw [hidle]
    exact Nat.zero_le 1
  · rw [hflight]
    exact le_rfl

/-! ## Every task settles -/

/-- Without further calls every task settles, whatever the answers and the turns. -/
inductive Drains (numberText : Binary64 → JsStr) : Queue → Prop
  | settled {q : Queue} (all : ∀ t ∈ q.tasks, ∃ r, t.phase = .settled r) : Drains numberText q
  | step {q : Queue} (goes : ∃ q', Goes numberText q q')
      (drains : ∀ generation aborted q', Goes numberText (q.turn generation aborted) q' →
        Drains numberText q') : Drains numberText q

theorem Queue.Current.unique {i j : Nat} {t u : Task} (hc : q.Current i t) (hc' : q.Current j u) :
    i = j := by
  rcases Nat.lt_trichotomy i j with hlt | heq | hgt
  · obtain ⟨r, hr⟩ := hc'.before i hlt t hc.task
    exact absurd hr (hc.unsettled r)
  · exact heq
  · obtain ⟨r, hr⟩ := hc.before j hgt u hc'.task
    exact absurd hr (hc'.unsettled r)

/-- The current task begins. -/
theorem goes_queued {q' : Queue} {i : Nat} {t : Task} (h : Inv numberText q) (hc : q.Current i t)
    (hphase : t.phase = .queued) (hg : Goes numberText q q') :
    q' = q.goOn i t.request (t.request.task numberText) := by
  cases hg with
  | @begin j u task queued released =>
    obtain rfl := hc.unique (h.current task queued released)
    rw [hc.task] at task
    cases task
    rfl
  | @answer j u o k task running r immediate =>
    obtain rfl := hc.unique (h.running task running)
    rw [hc.task] at task
    cases task
    rw [hphase] at running
    cases running

/-- The current task gets an answer. -/
theorem goes_running {q' : Queue} {i : Nat} {t : Task} {o : Op}
    {k : Except JsStr (Ans o) → Async Outcome} (h : Inv numberText q) (hc : q.Current i t)
    (hphase : t.phase = .running (.op o k)) (hg : Goes numberText q q') :
    ∃ r, q' = { q with events := .answered i o :: q.events }.goOn i t.request (k r) := by
  cases hg with
  | @begin j u task queued released =>
    obtain rfl := hc.unique (h.current task queued released)
    rw [hc.task] at task
    cases task
    rw [hphase] at queued
    cases queued
  | @answer j u o k task running r immediate =>
    obtain rfl := hc.unique (h.running task running)
    rw [hc.task] at task
    cases task
    rw [hphase] at running
    cases running
    exact ⟨r, rfl⟩

theorem goOn_tasks (q : Queue) (i : Nat) (request : Request) {p : Async Outcome} {n : Nat}
    (hw : p.Within World.now n) : ∃ phase,
      (q.goOn i request p).tasks = q.tasks.set i ⟨request, phase⟩ ∧
      ((∃ r, phase = .settled r) ∨
        ∃ o k, phase = .running (.op o k) ∧ ∃ m < n, ∀ r, (k r).Within World.now m) := by
  have hw' := hw.advance q.world
  have hwaits : Waits World.now (p.advance World.now q.world).1 := waits_advance p q.world
  unfold Queue.goOn
  generalize p.advance World.now q.world = x at hw' hwaits ⊢
  obtain ⟨p', w⟩ := x
  cases p' with
  | done r => exact ⟨_, rfl, .inl ⟨r, rfl⟩⟩
  | op o k =>
    obtain ⟨m, rfl, hk⟩ := (within_await hwaits).mp hw'
    exact ⟨_, rfl, .inr ⟨o, k, rfl, m, Nat.lt_succ_self m, hk⟩⟩

theorem exists_answer (o : Op) : ∃ r : Except JsStr (Ans o), o = .immediate → ∃ a, r = .ok a := by
  rcases eq_or_ne o .immediate with rfl | hne
  · exact ⟨.ok (), fun _ => ⟨(), rfl⟩⟩
  · exact ⟨.error [], fun h => absurd h hne⟩

/-- All tasks up to the `i`-th have settled. -/
def Queue.SettledTo (q : Queue) (i : Nat) : Prop :=
  ∀ j < i, ∀ u, q.tasks[j]? = some u → ∃ r, u.phase = .settled r

/-- The current task settles, after so many answers at most. -/
theorem drains_goOn {n length i : Nat} {t : Task} {p : Async Outcome}
    (hrest : ∀ q : Queue, Inv numberText q → q.tasks.length = length → q.SettledTo (i + 1) →
      Drains numberText q)
    (hc : q.Current i t) (hlength : q.tasks.length = length) (hw : p.Within World.now n)
    (h : Inv numberText (q.goOn i t.request p)) : Drains numberText (q.goOn i t.request p) := by
  induction n using Nat.strong_induction_on generalizing q t p with
  | _ n ih =>
    obtain ⟨phase, htasks, hphase⟩ := goOn_tasks q i t.request hw
    have hi := (List.getElem?_eq_some_iff.mp hc.task).1
    have hlength' : (q.goOn i t.request p).tasks.length = length := by
      rw [htasks, List.length_set]
      exact hlength
    have hself : (q.goOn i t.request p).tasks[i]? = some ⟨t.request, phase⟩ := by
      rw [htasks]
      exact List.getElem?_set_self hi
    have hbefore : (q.goOn i t.request p).SettledTo i := by
      intro j hj u hu
      rw [htasks, List.getElem?_set_ne (by omega)] at hu
      exact hc.before j hj u hu
    rcases hphase with ⟨r, rfl⟩ | ⟨o, k, rfl, m, hm, hk⟩
    · refine hrest _ h hlength' fun j hj u hu => ?_
      rcases Nat.lt_succ_iff_lt_or_eq.mp hj with hj | rfl
      · exact hbefore j hj u hu
      · rw [hself] at hu
        cases hu
        exact ⟨r, rfl⟩
    · obtain ⟨r, hr⟩ := exists_answer o
      refine .step ⟨_, .answer hself rfl r hr⟩ fun generation aborted q' hg => ?_
      have hturn := h.turn_step generation aborted
      have hc' := hturn.running hself rfl
      have hinv := hturn.goes hg
      obtain ⟨x, rfl⟩ := goes_running hturn hc' rfl hg
      exact ih m hm (t := ⟨t.request, .running (.op o k)⟩) ⟨hc'.task, hc'.unsettled, hc'.before⟩
        hlength' (hk x) hinv

/-- **Nothing blocks the queue**: a failure of a task neither. -/
theorem Inv.drains {n i : Nat} (h : Inv numberText q) (hlength : q.tasks.length = i + n)
    (hi : q.SettledTo i) : Drains numberText q := by
  induction n generalizing q i with
  | zero =>
    refine .settled fun t ht => ?_
    obtain ⟨j, hj, rfl⟩ := List.mem_iff_getElem.mp ht
    exact hi j (by omega) _ (List.getElem?_eq_getElem hj)
  | succ n ih =>
    have hlt : i < q.tasks.length := by omega
    have ht := List.getElem?_eq_getElem hlt
    generalize q.tasks[i] = t at ht
    have hrest : ∀ q' : Queue, Inv numberText q' → q'.tasks.length = q.tasks.length →
        q'.SettledTo (i + 1) → Drains numberText q' :=
      fun q' h' hl hi' => ih h' (by omega) hi'
    cases hphase : t.phase with
    | settled r =>
      refine hrest q h rfl fun j hj u hu => ?_
      rcases Nat.lt_succ_iff_lt_or_eq.mp hj with hj | rfl
      · exact hi j hj u hu
      · rw [ht] at hu
        cases hu
        exact ⟨r, hphase⟩
    | queued =>
      have hreleased : q.Released i := by
        rcases Nat.eq_zero_or_pos i with rfl | hpos
        · exact .inl rfl
        have hlt' : i - 1 < q.tasks.length := by omega
        obtain ⟨r, hr⟩ := hi (i - 1) (by omega) _ (List.getElem?_eq_getElem hlt')
        exact .inr ⟨_, r, List.getElem?_eq_getElem hlt', hr⟩
      refine .step ⟨_, .begin ht hphase hreleased⟩ fun generation aborted q' hg => ?_
      have hturn := h.turn_step generation aborted
      have hc := hturn.current ht hphase hreleased
      have hinv := hturn.goes hg
      obtain rfl := goes_queued hturn hc hphase hg
      exact drains_goOn hrest hc rfl (within_task t.request) hinv
    | running p =>
      have hg := h.good ht
      rw [hphase] at hg
      obtain ⟨hw, -, -, o, k, rfl, ho, -⟩ := hg
      obtain ⟨m, -, hk⟩ := (within_await ho).mp hw
      obtain ⟨r, hr⟩ := exists_answer o
      refine .step ⟨_, .answer ht hphase r hr⟩ fun generation aborted q' hg => ?_
      have hturn := h.turn_step generation aborted
      have hc := hturn.running ht hphase
      have hinv := hturn.goes hg
      obtain ⟨x, rfl⟩ := goes_running hturn hc hphase hg
      exact drains_goOn hrest ⟨hc.task, hc.unsettled, hc.before⟩ rfl (hk x) hinv

/-! ## Failures are reported -/

/-- A `sync` that resolves returns the failures recorded since one last did, and tells of its own
restore. -/
def Reported : List Event → Prop
  | [] => True
  | e :: h => Reported h ∧ ∀ ns, e.notices? = some ns →
      ∃ own, ns = failuresSince h ++ own.toList ∧ Own own

def Event.isSaveCall : Event → Bool
  | called _ (.save _) => true
  | _ => false

/-- `P` holds of what happens between any two calls of `save`. -/
def BetweenSaves (P : List Event → Prop) (h : List Event) : Prop :=
  ∀ n < h.length, ∀ m < n, h[n]?.any Event.isSaveCall → h[m]?.any Event.isSaveCall →
    P ((h.take n).drop (m + 1))

/-- A `sync` resolves. -/
def Resolves (h : List Event) : Prop := ∃ e ∈ h, e.notices?.isSome

/-- A `sync` is called and resolves. -/
def ResolvesWithin (h : List Event) : Prop :=
  ∃ e ∈ h, e.notices?.isSome ∧ ∃ c ∈ h, c.isCall ∧ c.task = e.task

instance (h : List Event) : Decidable (Resolves h) := inferInstanceAs (Decidable (∃ e ∈ h, _))

instance (P : List Event → Prop) [DecidablePred P] (h : List Event) :
    Decidable (BetweenSaves P h) := inferInstanceAs (Decidable (∀ n < h.length, _))

section Between

variable {P : List Event → Prop} {h : List Event}

theorem BetweenSaves.tail {e : Event} (hb : BetweenSaves P (e :: h)) : BetweenSaves P h := by
  intro n hn m hm hsave hsave'
  exact hb (n + 1) (Nat.succ_lt_succ hn) (m + 1) (Nat.succ_lt_succ hm) hsave hsave'

theorem BetweenSaves.of_append {l₁ l₂ l₃ : List Event} {x y : Event}
    (hb : BetweenSaves P (l₁ ++ x :: (l₂ ++ y :: l₃))) (hx : x.isSaveCall) (hy : y.isSaveCall) :
    P l₂ := by
  have hsplit : l₁ ++ x :: (l₂ ++ y :: l₃) = (l₁ ++ x :: l₂) ++ y :: l₃ := by simp
  have hlength : (l₁ ++ x :: l₂).length = l₁.length + 1 + l₂.length := by
    rw [List.length_append, List.length_cons]
    omega
  have hP := hb (l₁ ++ x :: l₂).length (by rw [hsplit]; simp) l₁.length (by omega)
    (by rw [hsplit, List.getElem?_append_right le_rfl, Nat.sub_self]; exact hy)
    (by rw [List.getElem?_append_right le_rfl, Nat.sub_self]; exact hx)
  rw [hsplit, List.take_left, ← List.drop_drop, List.drop_left] at hP
  exact hP

/-- The calls stand in the order of the tasks. -/
theorem calls_split {i j : Nat} {r s : Request} (hp : h.Pairwise Event.After)
    (hi : .called i r ∈ h) (hj : .called j s ∈ h) (hij : i < j) :
    ∃ l₁ l₂ l₃, h = l₁ ++ .called j s :: (l₂ ++ .called i r :: l₃) := by
  obtain ⟨l₁, l, rfl⟩ := List.append_of_mem hj
  rcases List.mem_append.mp hi with hi | hi
  · have hlt : j < i := ((List.pairwise_append.mp hp).2.2 _ hi _ List.mem_cons_self).call rfl
    omega
  rcases List.mem_cons.mp hi with hi | hi
  · cases hi
    omega
  obtain ⟨l₂, l₃, rfl⟩ := List.append_of_mem hi
  exact ⟨l₁, l₂, l₃, rfl⟩

theorem isEnd_of_notices {e : Event} (he : e.notices?.isSome) : e.isEnd = true := by
  cases e with
  | settled i r => rfl
  | called i request => cases he
  | asked i o => cases he
  | answered i o => cases he

theorem isCall_of_isEnd {e : Event} (he : e.isEnd = true) : e.isCall = false := by
  cases e with
  | settled i r => rfl
  | called i request => cases he
  | asked i o => cases he
  | answered i o => cases he

theorem isEnd_of_failure {e : Event} {text : JsStr} (he : e.failure? = some text) :
    e.isEnd = true := by
  cases e with
  | settled i r => rfl
  | called i request => cases he
  | asked i o => cases he
  | answered i o => cases he

/-- The failure that waits is the one of the last save, and no `sync` called after that save has
resolved. -/
structure Waiting (h : List Event) (text : JsStr) : Prop where
  alone : failuresSince h = [text]
  save : ∃ e ∈ h, e.isEnd = true ∧ (∃ id, .called e.task (.save id) ∈ h) ∧
    ∀ n ∈ h, n.notices?.isSome → n.task < e.task

/-- **At most one failure waits.** -/
theorem failuresSince_cases (hp : h.Pairwise Event.After) (ht : Told h)
    (hb : BetweenSaves ResolvesWithin h) : failuresSince h = [] ∨ ∃ text, Waiting h text := by
  induction h with
  | nil => exact .inl rfl
  | cons e h ih =>
    obtain ⟨hafter, hp'⟩ := List.pairwise_cons.mp hp
    have ih := ih hp' ht.1 hb.tail
    cases hn : e.notices? with
    | some ns =>
      refine .inl ?_
      rw [failuresSince, hn]
      rfl
    | none =>
      cases hf : e.failure? with
      | none =>
        rw [failuresSince_of_quiet hn hf]
        refine ih.imp_right fun hwaiting => ?_
        obtain ⟨text, halone, y, hy, hend, ⟨id, hid⟩, hlast⟩ := hwaiting
        refine ⟨text, ?_, y, List.mem_cons_of_mem _ hy, hend,
          ⟨id, List.mem_cons_of_mem _ hid⟩, fun n hmem hns => ?_⟩
        · rw [failuresSince_of_quiet hn hf]
          exact halone
        rcases List.mem_cons.mp hmem with rfl | hmem
        · rw [hn] at hns
          cases hns
        · exact hlast n hmem hns
      | some text =>
        have hend := isEnd_of_failure hf
        have hrun := isCall_of_isEnd hend
        obtain ⟨id, hid⟩ := ht.2.2 text hf
        have hfailures : failuresSince (e :: h) = failuresSince h ++ [text] := by
          rw [failuresSince, hn, hf]
          rfl
        rcases ih with hnil | ⟨other, halone, y, hy, hyend, ⟨yid, hyid⟩, hlast⟩
        · refine .inr ⟨text, ?_, e, List.mem_cons_self, hend, ⟨id, List.mem_cons_of_mem _ hid⟩,
            fun n hmem hns => ?_⟩
          · rw [hfailures, hnil]
            rfl
          rcases List.mem_cons.mp hmem with rfl | hmem
          · rw [hn] at hns
            cases hns
          · exact (hafter n hmem).ended hrun (isEnd_of_notices hns)
        · -- a sync was called after the save that fails first, and has resolved
          have hlt := (hafter y hy).ended hrun hyend
          obtain ⟨l₁, l₂, l₃, rfl⟩ := calls_split hp' hyid hid hlt
          obtain ⟨n, hmem, hns, c, hc, hcall, htask⟩ := hb.tail.of_append rfl rfl
          have hpair := (List.pairwise_append.mp hp').2.1
          have hpair := (List.pairwise_append.mp (List.pairwise_cons.mp hpair).2).2.2
          have hafter' : y.task < c.task := (hpair c hc _ List.mem_cons_self).call hcall
          have := hlast n (List.mem_append_right _ (List.mem_cons_of_mem _
            (List.mem_append_left _ hmem))) hns
          omega

theorem Reported.of_told (hp : h.Pairwise Event.After) (ht : Told h)
    (hb : BetweenSaves ResolvesWithin h) : Reported h := by
  induction h with
  | nil => trivial
  | cons e h ih =>
    have hp' := (List.pairwise_cons.mp hp).2
    refine ⟨ih hp' ht.1 hb.tail, fun ns hns => ?_⟩
    obtain ⟨own, rfl, hown⟩ := ht.2.1 ns hns
    refine ⟨own, ?_, hown⟩
    rcases failuresSince_cases hp' ht.1 hb.tail with hnil | ⟨text, hwaiting⟩
    · rw [hnil]
      rfl
    · rw [hwaiting.alone]
      rfl

end Between

/-- **The queue serialises.** One operation is awaited at a time; the tasks run in the order of the
calls, each performs its whole program and settles; the failure of a `save` is returned by the
first `sync` that resolves after it and by no other. -/
theorem serialises (h : Reached numberText q) :
    (inFlight q.events).length ≤ 1 ∧ q.events.Pairwise Event.After ∧
      (∀ i t r, q.tasks[i]? = some t → t.phase = .settled r →
        Performs (t.request.task numberText) (asks i q.events) (.done r)) ∧
      Drains numberText q ∧ (BetweenSaves ResolvesWithin q.events → Reported q.events) := by
  have hinv := Inv.reached h
  refine ⟨inFlight_le_one h, hinv.events, fun i t r ht hr => ?_, ?_, Reported.of_told hinv.events
    hinv.told⟩
  · have hg := hinv.good ht
    rw [hr] at hg
    exact hg
  · exact hinv.drains (Nat.zero_add _).symm fun j hj => absurd hj (Nat.not_lt_zero j)

/-! ## Runs -/

inductive Move where
  | call (request : Request)
  | begin (i : Nat)
  | answer (i : Nat) (r : (o : Op) → Except JsStr (Ans o))

/-- The link before the task is fulfilled. -/
def Queue.released (q : Queue) : Nat → Bool
  | 0 => true
  | i + 1 =>
    match q.tasks[i]? with
    | some ⟨_, .settled _⟩ => true
    | _ => false

def Queue.play (numberText : Binary64 → JsStr) (q : Queue) : Move → Option Queue
  | .call request => some (q.call request)
  | .begin i =>
    match q.tasks[i]? with
    | some ⟨request, .queued⟩ =>
      if q.released i then some (q.goOn i request (request.task numberText)) else none
    | _ => none
  | .answer i r =>
    match q.tasks[i]? with
    | some ⟨request, .running (.op o k)⟩ =>
      if o = .immediate → (r o).isOk then
        some ({ q with events := .answered i o :: q.events }.goOn i request (k (r o)))
      else none
    | _ => none

theorem released_of {i : Nat} (h : q.released i = true) : q.Released i := by
  cases i with
  | zero => exact .inl rfl
  | succ i =>
    simp only [Queue.released] at h
    split at h
    · next request r ht => exact .inr ⟨_, r, ht, rfl⟩
    · cases h

theorem step_of_play {m : Move} {q' : Queue} (h : q.play numberText m = some q') :
    Step numberText q q' := by
  cases m with
  | call request =>
    cases h
    exact .call request
  | begin i =>
    simp only [Queue.play] at h
    split at h
    · next request ht =>
      split at h
      · next hreleased =>
        cases h
        exact .go (.begin ht rfl (released_of hreleased))
      · cases h
    · cases h
  | answer i r =>
    simp only [Queue.play] at h
    split at h
    · next request o k ht =>
      split at h
      · next himmediate =>
        cases h
        refine .go (.answer ht rfl (r o) fun ho => ?_)
        have hok := himmediate ho
        cases hr : r o with
        | ok a => exact ⟨a, rfl⟩
        | error e =>
          rw [hr] at hok
          cases hok
      · cases h
    · cases h

theorem Reached.plays {moves : List Move} {q' : Queue} (hq : Reached numberText q)
    (h : moves.foldlM (Queue.play numberText) q = some q') : Reached numberText q' := by
  induction moves generalizing q with
  | nil =>
    cases h
    exact hq
  | cons m moves ih =>
    rw [List.foldlM_cons] at h
    obtain ⟨q₁, h₁, h⟩ := Option.bind_eq_some_iff.mp h
    exact ih (hq.step (step_of_play h₁)) h

/-- The kernel does as it is asked, and has nothing to restore. -/
def serves : (o : Op) → Except JsStr (Ans o)
  | .start _ => .ok ()
  | .evaluate _ _ _ => .ok (some .null)
  | .immediate => .ok ()
  | .generation => .ok (0 : Nat)
  | .aborted _ => .ok false
  | .saveFailure => .ok none
  | .setSaveFailure _ => .ok ()

/-- The kernel is lost. -/
def lost (text : JsStr) (o : Op) : Except JsStr (Ans o) := .error text

def silent : Binary64 → JsStr := fun _ => []

/-- A `sync` of a kernel that runs. -/
def playSync (i : Nat) : List Move :=
  [.begin i, .answer i serves, .answer i serves, .answer i serves]

def playFailedSave (i : Nat) (text : JsStr) : List Move :=
  [.begin i, .answer i serves, .answer i (lost text)]

def run (moves : List Move) : Option Queue :=
  moves.foldlM (Queue.play silent) (.new 0 fun _ => false)

/-- Two saves fail, each before a `sync` of its own. -/
def inTurn : List Move :=
  .call (.save (js "a")) :: playFailedSave 0 (js "e") ++ .call (.sync [] none) :: playSync 1 ++
    .call (.save (js "b")) :: playFailedSave 2 (js "f") ++ .call (.sync [] none) :: playSync 3

/-- A `sync` resolves between two saves, and was called before both. -/
def crossed : List Move :=
  [.call (.sync [] none), .begin 0, .call (.save (js "a")), .answer 0 serves, .answer 0 serves,
    .answer 0 serves, .call (.save (js "b")), .call (.sync [] none)] ++
    playFailedSave 1 (js "e") ++ playFailedSave 2 (js "f") ++ playSync 3

theorem reached_run {moves : List Move} {q : Queue} (h : run moves = some q) : Reached silent q :=
  (Reached.new 0 fun _ => false).plays h

instance (h : List Event) : Decidable (ResolvesWithin h) :=
  inferInstanceAs (Decidable (∃ e ∈ h, _))

/-- Each of two failures is in the notices of the `sync` after it. -/
theorem serialises_in_turn : ∃ q, Reached silent q ∧ BetweenSaves ResolvesWithin q.events ∧
    q.events.head?.bind Event.notices? = some [notSaved (js "f")] ∧ Reported q.events := by
  have hrun : (run inTurn).any (fun q => BetweenSaves ResolvesWithin q.events ∧
      q.events.head?.bind Event.notices? = some [notSaved (js "f")]) = true := by decide +kernel
  obtain ⟨q, hq, hp⟩ := (Option.any_eq_true _ _).mp hrun
  obtain ⟨hbetween, hlast⟩ := of_decide_eq_true hp
  have hreached := reached_run hq
  exact ⟨q, hreached, hbetween, hlast, (serialises hreached).2.2.2.2 hbetween⟩

/-- **A failure may be lost** where the `sync` that resolves between two saves was called before
both. -/
theorem overwritten_failure : ∃ q, Reached silent q ∧ BetweenSaves Resolves q.events ∧
    ¬ Reported q.events := by
  have hrun : (run crossed).any (fun q => BetweenSaves Resolves q.events ∧
      q.events.head?.bind Event.notices? = some [notSaved (js "f")] ∧
      failuresSince q.events.tail = [notSaved (js "e"), notSaved (js "f")]) = true := by
    decide +kernel
  obtain ⟨q, hq, hp⟩ := (Option.any_eq_true _ _).mp hrun
  obtain ⟨hbetween, hlast, hfailures⟩ := of_decide_eq_true hp
  refine ⟨q, reached_run hq, hbetween, fun hreported => ?_⟩
  generalize q.events = events at hlast hfailures hreported
  cases events with
  | nil => cases hlast
  | cons e h =>
    obtain ⟨own, hns, -⟩ := hreported.2 _ hlast
    rw [show failuresSince h = _ from hfailures] at hns
    -- one notice is returned for two failures
    have hlength := congrArg List.length hns
    rw [List.length_append] at hlength
    change 1 = 2 + _ at hlength
    omega

end PiIpython.Persistence
