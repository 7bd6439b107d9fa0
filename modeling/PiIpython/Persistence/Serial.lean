import PiIpython.Persistence.Failure

/-!
# The queue serialises

What holds of a session whatever is called and answered (`Inv.reached`): its tasks
run one after the other in the order of the calls, each to its end, and the
failure of a save is kept until a `sync` resolves.
-/

namespace PiIpython.Persistence

open Text Prog

variable {numberText : Binary64 → JsStr} {q : Queue}

/-! ## Events -/

namespace Event

/-- The task that an event is about. -/
def task : Event → Nat
  | called i _ => i
  | asked i _ => i
  | answered i _ => i
  | settled i _ => i

def isCall : Event → Bool
  | called _ _ => true
  | _ => false

def isEnd : Event → Bool
  | settled _ _ => true
  | _ => false

/-- The notices that a `sync` resolves with. -/
def notices? : Event → Option (List JsStr)
  | settled _ (.ok (.notices ns)) => some ns
  | _ => none

/-- The failure that a `save` records. -/
def failure? : Event → Option JsStr
  | settled _ (.ok (.unsaved text)) => some text
  | _ => none

/-- The operation that the task asks for. -/
def asked? (i : Nat) : Event → Option Op
  | asked j o => if j = i then some o else none
  | _ => none

/-- A call is of a new task, and a task runs when those before it have ended. -/
structure After (later earlier : Event) : Prop where
  call : later.isCall = true → earlier.task < later.task
  run : later.isCall = false → earlier.isCall = false → earlier.task ≤ later.task
  ended : later.isCall = false → earlier.isEnd = true → earlier.task < later.task

end Event

/-- What the task has asked for, in order. -/
def asks (i : Nat) : List Event → List Op
  | [] => []
  | e :: h => asks i h ++ (e.asked? i).toList

/-- The failures recorded since a `sync` last resolved, in order. -/
def failuresSince : List Event → List JsStr
  | [] => []
  | e :: h => if e.notices?.isSome then [] else failuresSince h ++ e.failure?.toList

/-- Every `sync` that resolves returns the last failure since one did, and tells of its own
restore; what fails is a `save` that was called. -/
def Told : List Event → Prop
  | [] => True
  | e :: h => Told h ∧
      (∀ ns, e.notices? = some ns →
        ∃ own, ns = (failuresSince h).getLast?.toList ++ own.toList ∧ Own own) ∧
      ∀ text, e.failure? = some text → ∃ id, .called e.task (.save id) ∈ h

theorem failuresSince_of_quiet {e : Event} (hn : e.notices? = none) (hf : e.failure? = none)
    (h : List Event) : failuresSince (e :: h) = failuresSince h := by
  rw [failuresSince, hn, hf]
  exact List.append_nil _

theorem told_of_quiet {e : Event} {h : List Event} (hn : e.notices? = none) (hf : e.failure? = none)
    (ht : Told h) : Told (e :: h) := by
  refine ⟨ht, fun ns hns => ?_, fun text htext => ?_⟩
  · rw [hn] at hns
    cases hns
  · rw [hf] at htext
    cases htext

/-- The program performs these awaited operations, whatever their answers. -/
inductive Performs {α : Type} : Async α → List Op → Async α → Prop
  | refl (p : Async α) : Performs p [] p
  | now {o : Op} {k : Except JsStr (Ans o) → Async α} {f : World → Except JsStr (Ans o) × World}
      {os : List Op} {p : Async α} (now : World.now o = some f) (r : Except JsStr (Ans o))
      (rest : Performs (k r) os p) : Performs (.op o k) os p
  | await {o : Op} {k : Except JsStr (Ans o) → Async α} {os : List Op} {p : Async α}
      (await : World.now o = none) (r : Except JsStr (Ans o)) (rest : Performs (k r) os p) :
      Performs (.op o k) (o :: os) p

theorem Performs.trans {α : Type} {p p' p'' : Async α} {os os' : List Op} (h : Performs p os p')
    (h' : Performs p' os' p'') : Performs p (os ++ os') p'' := by
  induction h with
  | refl p => exact h'
  | now now r _ ih => exact .now now r (ih h')
  | await await r _ ih => exact .await await r (ih h')

theorem performs_advance {α : Type} (p : Async α) (w : World) :
    Performs p [] (p.advance World.now w).1 := by
  induction p generalizing w with
  | done r => exact .refl _
  | op o k ih =>
    cases ho : World.now o with
    | none =>
      rw [advance_await ho]
      exact .refl _
    | some f =>
      rw [advance_now ho]
      exact .now ho _ (ih _ _)

/-! ## The invariant -/

/-- What a phase says of a task of `q`. -/
def Phase.Good (numberText : Binary64 → JsStr) (q : Queue) (i : Nat) (request : Request) :
    Phase → Prop
  | .queued => asks i q.events = []
  | .running p => p.Within World.now 10 ∧
      Holds q.world.saveFailure p (Post q.world.saveFailure request) q.world ∧
      ∃ os o k, p = .op o k ∧ World.now o = none ∧ asks i q.events = os ++ [o] ∧
        Performs (request.task numberText) os p
  | .settled r => Performs (request.task numberText) (asks i q.events) (.done r)

structure Inv (numberText : Binary64 → JsStr) (q : Queue) : Prop where
  /-- A task has begun when those before it have settled. -/
  order : ∀ {i j : Nat} {t u : Task}, i < j → q.tasks[i]? = some t → q.tasks[j]? = some u →
    u.phase ≠ .queued → ∃ r, t.phase = .settled r
  good : ∀ {i : Nat} {t : Task}, q.tasks[i]? = some t → t.phase.Good numberText q i t.request
  events : q.events.Pairwise Event.After
  bound : ∀ e ∈ q.events, e.task < q.tasks.length
  call : ∀ {i : Nat} {request : Request}, .called i request ∈ q.events →
    ∃ t, q.tasks[i]? = some t ∧ t.request = request
  listed : ∀ {i : Nat} {t : Task}, q.tasks[i]? = some t → .called i t.request ∈ q.events
  ran : ∀ e ∈ q.events, e.isCall = false → ∀ t, q.tasks[e.task]? = some t → t.phase ≠ .queued
  ended : ∀ {i : Nat} {r : Except JsStr Outcome}, .settled i r ∈ q.events →
    ∃ t, q.tasks[i]? = some t ∧ t.phase = .settled r
  failure : q.world.saveFailure = (failuresSince q.events).getLast?
  told : Told q.events

theorem inv_new (generation : Nat) (aborted : SignalId → Bool) :
    Inv numberText (.new generation aborted) where
  order _ h := by cases h
  good h := by cases h
  events := .nil
  bound _ h := by cases h
  call h := by cases h
  listed h := by cases h
  ran _ h := by cases h
  ended h := by cases h
  failure := rfl
  told := trivial

theorem asks_eq_nil {i : Nat} {h : List Event} (hne : ∀ e ∈ h, e.task ≠ i) : asks i h = [] := by
  induction h with
  | nil => rfl
  | cons e h ih =>
    rw [asks, ih fun e he => hne e (List.mem_cons_of_mem _ he), List.nil_append]
    cases e with
    | asked j o =>
      have hj : j ≠ i := hne _ List.mem_cons_self
      simp [Event.asked?, hj]
    | called j request => rfl
    | answered j o => rfl
    | settled j r => rfl

theorem Phase.Good.congr {q' : Queue} {i : Nat} {request : Request} {phase : Phase}
    (h : phase.Good numberText q i request) (hworld : q'.world = q.world)
    (hasks : asks i q'.events = asks i q.events) : phase.Good numberText q' i request := by
  unfold Phase.Good at h ⊢
  rw [hworld, hasks]
  exact h

/-- The tasks after a call. -/
theorem call_tasks {request : Request} {i : Nat} {t : Task}
    (h : (q.call request).tasks[i]? = some t) :
    q.tasks[i]? = some t ∨ i = q.tasks.length ∧ t = ⟨request, .queued⟩ := by
  change (q.tasks ++ [_])[i]? = some t at h
  rcases Nat.lt_or_ge i q.tasks.length with hi | hi
  · rw [List.getElem?_append_left hi] at h
    exact .inl h
  · rw [List.getElem?_append_right hi] at h
    have hlt := (List.getElem?_eq_some_iff.mp h).1
    have : i = q.tasks.length := by
      rw [List.length_singleton] at hlt
      omega
    subst this
    rw [Nat.sub_self] at h
    cases h
    exact .inr ⟨rfl, rfl⟩

theorem call_tasks_of {request : Request} {i : Nat} {t : Task} (h : q.tasks[i]? = some t) :
    (q.call request).tasks[i]? = some t := by
  change (q.tasks ++ [_])[i]? = some t
  rw [List.getElem?_append_left (List.getElem?_eq_some_iff.mp h).1]
  exact h

theorem Inv.call_step (h : Inv numberText q) (request : Request) :
    Inv numberText (q.call request) where
  order := by
    intro i j t u hij ht hu hphase
    rcases call_tasks hu with hu | ⟨-, rfl⟩
    · rcases call_tasks ht with ht | ⟨hi, -⟩
      · exact h.order hij ht hu hphase
      · have := (List.getElem?_eq_some_iff.mp hu).1
        omega
    · exact absurd rfl hphase
  good := by
    intro i t ht
    rcases call_tasks ht with ht | ⟨hi, rfl⟩
    · exact (h.good ht).congr rfl (List.append_nil _)
    · refine (List.append_nil _).trans (asks_eq_nil fun e he hne => ?_)
      exact absurd (h.bound e he) (by omega)
  events := by
    refine List.pairwise_cons.mpr ⟨fun e he => ⟨fun _ => h.bound e he, ?_, ?_⟩, h.events⟩
    · intro hc
      cases hc
    · intro hc
      cases hc
  bound := by
    intro e he
    have hlength : (q.call request).tasks.length = q.tasks.length + 1 := List.length_append
    rw [hlength]
    rcases List.mem_cons.mp he with rfl | he
    · exact Nat.lt_succ_self _
    · exact Nat.lt_succ_of_lt (h.bound e he)
  call := by
    intro i other he
    rcases List.mem_cons.mp he with he | he
    · cases he
      exact ⟨⟨request, .queued⟩, List.getElem?_concat_length, rfl⟩
    · obtain ⟨t, ht, hr⟩ := h.call he
      exact ⟨t, call_tasks_of ht, hr⟩
  listed := by
    intro i t ht
    rcases call_tasks ht with ht | ⟨rfl, rfl⟩
    · exact List.mem_cons_of_mem _ (h.listed ht)
    · exact List.mem_cons_self
  ran := by
    intro e he hc t ht
    rcases List.mem_cons.mp he with rfl | he
    · cases hc
    · rcases call_tasks ht with ht | ⟨hi, -⟩
      · exact h.ran e he hc t ht
      · exact absurd (h.bound e he) (by omega)
  ended := by
    intro i r he
    rcases List.mem_cons.mp he with he | he
    · cases he
    · obtain ⟨t, ht, hr⟩ := h.ended he
      exact ⟨t, call_tasks_of ht, hr⟩
  failure := by
    refine h.failure.trans (congrArg List.getLast? ?_)
    exact (List.append_nil _).symm
  told := told_of_quiet rfl rfl h.told

theorem Inv.turn_step (h : Inv numberText q) (generation : Nat) (aborted : SignalId → Bool) :
    Inv numberText (q.turn generation aborted) where
  order := h.order
  good := by
    intro i t ht
    have hg := h.good ht
    obtain ⟨request, phase⟩ := t
    cases phase with
    | queued => exact hg
    | settled r => exact hg
    | running p =>
      obtain ⟨hw, hs, os, o, k, rfl, ho, hrest⟩ := hg
      refine ⟨hw, ?_, os, o, k, rfl, ho, hrest⟩
      exact Safe.disturbed (fun _ _ _ h1 h2 => h2.trans h1) ho
        (fun o w w' hpre hm ho => hm.trans (hpre ho)) (fun r w w' => Post.meanwhile) hs rfl
  events := h.events
  bound := h.bound
  call := h.call
  listed := h.listed
  ran := h.ran
  ended := h.ended
  failure := h.failure
  told := h.told

/-- The task is the one to run: it has not settled, and those before it have. -/
structure Queue.Current (q : Queue) (i : Nat) (t : Task) : Prop where
  task : q.tasks[i]? = some t
  unsettled : ∀ r, t.phase ≠ .settled r
  before : ∀ j < i, ∀ u, q.tasks[j]? = some u → ∃ r, u.phase = .settled r

/-- The tasks after the current one have not begun. -/
theorem Inv.later (h : Inv numberText q) {i j : Nat} {t u : Task} (hc : q.Current i t)
    (hij : i < j) (hu : q.tasks[j]? = some u) : u.phase = .queued := by
  by_contra hne
  obtain ⟨r, hr⟩ := h.order hij hc.task hu hne
  exact hc.unsettled r hr

/-- What has run is of the current task or of one before it. -/
theorem Inv.le_current (h : Inv numberText q) {i : Nat} {t : Task} (hc : q.Current i t) {e : Event}
    (he : e ∈ q.events) (hrun : e.isCall = false) : e.task ≤ i := by
  by_contra hlt
  have hu := List.getElem?_eq_getElem (h.bound e he)
  exact h.ran e he hrun _ hu (h.later hc (by omega) hu)

theorem Inv.lt_current (h : Inv numberText q) {i : Nat} {t : Task} (hc : q.Current i t) {e : Event}
    (he : e ∈ q.events) (hend : e.isEnd = true) : e.task < i := by
  cases e with
  | settled j r =>
    refine Nat.lt_of_le_of_ne (h.le_current hc he rfl) ?_
    rintro (rfl : j = i)
    obtain ⟨u, hu, hr⟩ := h.ended he
    rw [hc.task] at hu
    cases hu
    exact hc.unsettled r hr
  | called j request => cases hend
  | asked j o => cases hend
  | answered j o => cases hend

theorem set_tasks {tasks : List Task} {i j : Nat} {t u v : Task} (ht : tasks[i]? = some t)
    (hu : (tasks.set i v)[j]? = some u) : j = i ∧ u = v ∨ j ≠ i ∧ tasks[j]? = some u := by
  rw [List.getElem?_set] at hu
  split at hu
  · next hij =>
    rw [if_pos (List.getElem?_eq_some_iff.mp ht).1] at hu
    cases hu
    exact .inl ⟨hij.symm, rfl⟩
  · next hij => exact .inr ⟨fun h => hij h.symm, hu⟩

/-- The request of a task does not change. -/
theorem tasks_set {tasks : List Task} {i j : Nat} {t u v : Task} {request : Request}
    (ht : tasks[i]? = some t) (hv : v.request = t.request) (hu : tasks[j]? = some u)
    (hr : u.request = request) : ∃ x, (tasks.set i v)[j]? = some x ∧ x.request = request := by
  rcases eq_or_ne i j with rfl | hij
  · rw [ht] at hu
    cases hu
    exact ⟨v, List.getElem?_set_self (List.getElem?_eq_some_iff.mp ht).1, hv.trans hr⟩
  · exact ⟨u, (List.getElem?_set_ne hij).trans hu, hr⟩

theorem asked?_of_ne {e : Event} {j : Nat} (h : e.task ≠ j) : e.asked? j = none := by
  cases e with
  | asked i o => exact if_neg h
  | called i request => rfl
  | answered i o => rfl
  | settled i r => rfl

/-- **The current task goes on**: what is new is about it alone. -/
theorem Inv.extend (h : Inv numberText q) {i : Nat} {t : Task} (hc : q.Current i t) {phase : Phase}
    {w : World} {e : Event} (hphase : phase ≠ .queued) (htask : e.task = i)
    (hrun : e.isCall = false) (hend : ∀ r, e = .settled i r → phase = .settled r)
    (hgood : phase.Good numberText ⟨q.tasks.set i ⟨t.request, phase⟩, w, e :: q.events⟩ i t.request)
    (hfailure : w.saveFailure = (failuresSince (e :: q.events)).getLast?)
    (htold : Told (e :: q.events)) :
    Inv numberText ⟨q.tasks.set i ⟨t.request, phase⟩, w, e :: q.events⟩ where
  order := by
    intro j k u v hjk hu hv hne
    rcases set_tasks hc.task hv with ⟨rfl, rfl⟩ | ⟨-, hv'⟩
    · rcases set_tasks hc.task hu with ⟨rfl, -⟩ | ⟨-, hu'⟩
      · omega
      · exact hc.before j hjk u hu'
    · rcases set_tasks hc.task hu with ⟨rfl, rfl⟩ | ⟨-, hu'⟩
      · exact absurd (h.later hc hjk hv') hne
      · exact h.order hjk hu' hv' hne
  good := by
    intro j u hu
    rcases set_tasks hc.task hu with ⟨rfl, rfl⟩ | ⟨hji, hu⟩
    · exact hgood
    · -- the other tasks do not run
      have hasks : asks j (e :: q.events) = asks j q.events := by
        rw [asks, asked?_of_ne fun hj => hji (hj.symm.trans htask)]
        exact List.append_nil _
      have hg := h.good hu
      obtain ⟨request, other⟩ := u
      cases other with
      | queued => exact hasks.trans hg
      | settled r =>
        change Performs _ (asks j (e :: q.events)) _
        rw [hasks]
        exact hg
      | running p =>
        rcases Nat.lt_or_gt_of_ne hji with hlt | hgt
        · obtain ⟨r, hr⟩ := hc.before j hlt _ hu
          cases hr
        · cases h.later hc hgt hu
  events := by
    refine List.pairwise_cons.mpr ⟨fun y hy => ⟨?_, ?_, ?_⟩, h.events⟩
    · rw [hrun]
      nofun
    · intro _ hy'
      rw [htask]
      exact h.le_current hc hy hy'
    · intro _ hy'
      rw [htask]
      exact h.lt_current hc hy hy'
  bound := by
    intro y hy
    rw [List.length_set]
    rcases List.mem_cons.mp hy with rfl | hy
    · rw [htask]
      exact (List.getElem?_eq_some_iff.mp hc.task).1
    · exact h.bound y hy
  call := by
    intro j request hj
    rcases List.mem_cons.mp hj with rfl | hj
    · cases hrun
    · obtain ⟨u, hu, hr⟩ := h.call hj
      exact tasks_set hc.task rfl hu hr
  listed := by
    intro j u hu
    refine List.mem_cons_of_mem _ ?_
    rcases set_tasks hc.task hu with ⟨rfl, rfl⟩ | ⟨-, hu'⟩
    · have hcalled := h.listed hc.task
      exact hcalled
    · exact h.listed hu'
  ran := by
    intro y hy hyrun u hu
    rcases set_tasks hc.task hu with ⟨-, rfl⟩ | ⟨hne, hu'⟩
    · exact hphase
    · rcases List.mem_cons.mp hy with rfl | hy
      · exact absurd htask hne
      · exact h.ran y hy hyrun u hu'
  ended := by
    intro j r hj
    rcases List.mem_cons.mp hj with he | hj
    · obtain rfl : j = i := by
        rw [← he] at htask
        exact htask
      exact ⟨_, List.getElem?_set_self (List.getElem?_eq_some_iff.mp hc.task).1, hend r he.symm⟩
    · obtain ⟨u, hu, hr⟩ := h.ended hj
      have hne : i ≠ j := by
        rintro rfl
        rw [hc.task] at hu
        cases hu
        exact hc.unsettled r hr
      exact ⟨u, (List.getElem?_set_ne hne).trans hu, hr⟩
  failure := hfailure
  told := htold

/-- An answer arrives. -/
theorem Inv.note (h : Inv numberText q) {i : Nat} {t : Task} (hc : q.Current i t)
    (hrunning : t.phase ≠ .queued) (o : Op) :
    Inv numberText { q with events := .answered i o :: q.events } := by
  have hasks : asks i (.answered i o :: q.events) = asks i q.events := List.append_nil _
  have hfailures : failuresSince (.answered i o :: q.events) = failuresSince q.events :=
    failuresSince_of_quiet rfl rfl _
  have hset : q.tasks.set i ⟨t.request, t.phase⟩ = q.tasks := by
    obtain ⟨hi, rfl⟩ := List.getElem?_eq_some_iff.mp hc.task
    exact List.set_getElem_self hi
  have hinv : Inv numberText ⟨q.tasks.set i ⟨t.request, t.phase⟩, q.world,
      .answered i o :: q.events⟩ :=
    h.extend hc hrunning rfl rfl nofun ((h.good hc.task).congr rfl hasks)
      (h.failure.trans (congrArg List.getLast? hfailures.symm)) (told_of_quiet rfl rfl h.told)
  rw [hset] at hinv
  exact hinv

/-- What a task leaves when it settles. -/
theorem post_settled {request : Request} {r : Except JsStr Outcome} {failure : Option JsStr}
    {w : World} {h : List Event} {i : Nat} (hfailure : failure = (failuresSince h).getLast?)
    (hcall : .called i request ∈ h) (ht : Told h) (hp : Post failure request r w) :
    w.saveFailure = (failuresSince (.settled i r :: h)).getLast? ∧ Told (.settled i r :: h) := by
  subst hfailure
  rcases r with e | ns | _ | text
  · rw [failuresSince_of_quiet rfl rfl]
    refine ⟨?_, told_of_quiet rfl rfl ht⟩
    cases request with
    | sync candidates signal => exact hp
    | save id => exact hp.elim
  · cases request with
    | sync candidates signal =>
      refine ⟨hp.1, ht, ?_, nofun⟩
      rintro _ ⟨⟩
      exact hp.2
    | save id => exact hp.elim
  · rw [failuresSince_of_quiet rfl rfl]
    refine ⟨?_, told_of_quiet rfl rfl ht⟩
    cases request with
    | sync candidates signal => exact hp.elim
    | save id => exact hp
  · cases request with
    | sync candidates signal => exact hp.elim
    | save id => exact ⟨Eq.trans hp List.getLast?_concat.symm, ht, nofun, fun _ _ => ⟨id, hcall⟩⟩

/-- **The current task runs up to its next await, or settles.** -/
theorem Inv.goOn (h : Inv numberText q) {i : Nat} {t : Task} (hc : q.Current i t)
    {p : Async Outcome} (hw : p.Within World.now 10)
    (hs : Holds q.world.saveFailure p (Post q.world.saveFailure t.request) q.world)
    (hp : Performs (t.request.task numberText) (asks i q.events) p) :
    Inv numberText (q.goOn i t.request p) := by
  have hw' := hw.advance q.world
  have hs' := Safe.advance hs
  have hp' := hp.trans (performs_advance p q.world)
  have hwaits : Waits World.now (p.advance World.now q.world).1 := waits_advance p q.world
  unfold Queue.goOn
  generalize p.advance World.now q.world = x at hw' hs' hp' hwaits ⊢
  obtain ⟨p', w⟩ := x
  cases p' with
  | done r =>
    obtain ⟨hfailure, htold⟩ := post_settled h.failure (h.listed hc.task) h.told hs'
    refine h.extend hc nofun rfl rfl ?_ hp' hfailure htold
    rintro _ ⟨⟩
    rfl
  | op o k =>
    have hsame : w.saveFailure = q.world.saveFailure := hs'.1 hwaits
    refine h.extend hc nofun rfl rfl nofun ⟨hw', ?_, asks i q.events, o, k, rfl, hwaits, ?_, ?_⟩ ?_
      (told_of_quiet rfl rfl h.told)
    · rw [hsame]
      exact hs'
    · rw [asks, Event.asked?, if_pos rfl]
      rfl
    · rw [List.append_nil] at hp'
      exact hp'
    · rw [failuresSince_of_quiet rfl rfl, hsame]
      exact h.failure

/-- The tasks before a released one have settled. -/
theorem Inv.current (h : Inv numberText q) {i : Nat} {t : Task} (ht : q.tasks[i]? = some t)
    (hqueued : t.phase = .queued) (hr : q.Released i) : q.Current i t := by
  refine ⟨ht, fun r hr => ?_, fun j hj u hu => ?_⟩
  · rw [hqueued] at hr
    cases hr
  · rcases hr with rfl | ⟨v, r, hv, hr⟩
    · omega
    rcases eq_or_ne j (i - 1) with rfl | hne
    · rw [hv] at hu
      cases hu
      exact ⟨r, hr⟩
    · refine h.order (by omega) hu hv ?_
      rw [hr]
      nofun

theorem Inv.running (h : Inv numberText q) {i : Nat} {t : Task} {p : Async Outcome}
    (ht : q.tasks[i]? = some t) (hrunning : t.phase = .running p) : q.Current i t := by
  refine ⟨ht, fun r hr => ?_, fun j hj u hu => h.order hj hu ht ?_⟩
  · rw [hrunning] at hr
    cases hr
  · rw [hrunning]
    nofun

theorem Inv.goes {q' : Queue} (h : Inv numberText q) (hg : Goes numberText q q') :
    Inv numberText q' := by
  cases hg with
  | @begin i t task queued released =>
    have hgood := h.good task
    rw [queued] at hgood
    refine h.goOn (h.current task queued released) (within_task t.request)
      (holds_task t.request rfl) ?_
    rw [show asks i q.events = [] from hgood]
    exact .refl _
  | @answer i t o k task running r immediate =>
    have hgood := h.good task
    rw [running] at hgood
    obtain ⟨hw, hs, os, _, _, ⟨⟩, ho, hasks, hp⟩ := hgood
    have hc := h.running task running
    have hnote := h.note hc (by rw [running]; nofun) o
    obtain ⟨m, hm, hk⟩ := (within_await ho).mp hw
    refine hnote.goOn ⟨hc.task, hc.unsettled, hc.before⟩ ((hk r).mono (by omega)) ?_ ?_
    · refine hs.2 r _ ?_
      unfold Turn
      rw [ho]
      exact ⟨q.world, rfl, rfl, immediate⟩
    · have hasks' : asks i (.answered i o :: q.events) = os ++ [o] :=
        (List.append_nil _).trans hasks
      change Performs _ (asks i (.answered i o :: q.events)) _
      rw [hasks']
      exact hp.trans (.await ho r (.refl _))

theorem Inv.step {q' : Queue} (h : Inv numberText q) (hstep : Step numberText q q') :
    Inv numberText q' := by
  cases hstep with
  | call request => exact h.call_step request
  | turn generation aborted => exact h.turn_step generation aborted
  | go hg => exact h.goes hg

theorem Inv.reached (h : Reached numberText q) : Inv numberText q := by
  induction h with
  | new generation aborted => exact inv_new generation aborted
  | step _ hstep ih => exact ih.step hstep

end PiIpython.Persistence
