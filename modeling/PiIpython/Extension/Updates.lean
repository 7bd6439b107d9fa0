import PiIpython.Core.Output
import PiIpython.Lib.Machine

/-!
# Progress updates of a call

What `execute` of the `ipython` tool passes to `onUpdate` while a cell runs:
each message at once, and the output at most every 100 ms, by a timer that the
end of the call clears. Time is that of `Date.now()`, which does not go back; a
timer fires at its time or later, between two other events.

An output that comes when the timer is due but has not fired yet (`Late`) is
shown at once and leaves the timer behind, which fires all the same. Otherwise
no update comes early, and none after the call.
-/

namespace PiIpython.Extension.Updates

open Text Output

abbrev TimerId := Nat

/-- A call of `onUpdate`: a message with the latest output, or the latest output alone. -/
inductive Update
  | message (said latest : JsStr)
  | output (latest : JsStr)
  deriving DecidableEq

inductive Status
  | starting
  | running
  deriving DecidableEq

def Update.text : Update → JsStr
  | .message said latest =>
    if latest ≠ [] then said ++ js "\n\n" ++ partialText latest else said
  | .output latest => partialText latest

def Update.status : Update → Status
  | .message said _ =>
    if (js "Starting").isPrefixOf said || (js "Provisioning").isPrefixOf said then .starting
    else .running
  | .output _ => .running

/-- The output that an update shows. -/
def Update.latest : Update → JsStr
  | .message _ latest | .output latest => latest

def Update.isOutput : Update → Bool
  | .output _ => true
  | .message .. => false

structure Timer where
  id : TimerId
  due : Nat
  deriving DecidableEq

structure State where
  now : Nat
  latestOutput : JsStr
  lastUpdate : Nat
  updateTimer : Option TimerId
  /-- The timers that have neither fired nor been cleared. -/
  timers : List Timer
  nextTimer : TimerId
  /-- The `finally` of the call has run. -/
  settled : Bool
  /-- The updates and their times, the last one first. -/
  updates : List (Nat × Update)
  deriving DecidableEq

def State.begun (now : Nat) : State := ⟨now, [], 0, none, [], 0, false, []⟩

inductive Event
  | passes (ms : Nat)
  | progress (message : JsStr)
  | output (text : JsStr)
  | fires (id : TimerId)
  | settles
  deriving DecidableEq

namespace State

variable (s : State)

def onUpdate (u : Update) : State :=
  { s with lastUpdate := s.now, updates := (s.now, u) :: s.updates }

def clearTimeout (id : TimerId) : State := { s with timers := s.timers.filter (·.id ≠ id) }

def setTimeout (delay : Nat) : State :=
  { s with updateTimer := some s.nextTimer, nextTimer := s.nextTimer + 1
           timers := ⟨s.nextTimer, s.now + delay⟩ :: s.timers }

def clearTimer : State :=
  match s.updateTimer with
  | some id => s.clearTimeout id
  | none => s

def progress (message : JsStr) : State :=
  { s.clearTimer with updateTimer := none }.onUpdate (.message message s.latestOutput)

def emitOutput : State := { s with updateTimer := none }.onUpdate (.output s.latestOutput)

/-- The delay is `Math.max(0, 100 - (Date.now() - lastUpdate))`. -/
def output (text : JsStr) : State :=
  let s := { s with latestOutput := text }
  let delay := 100 - (s.now - s.lastUpdate)
  if delay = 0 then s.emitOutput else if s.updateTimer = none then s.setTimeout delay else s

def step : Event → Option State
  | .passes ms => some { s with now := s.now + ms }
  | .progress message => if s.settled then none else some (s.progress message)
  | .output text => if s.settled then none else some (s.output text)
  | .fires id =>
    if s.timers.any fun t => t.id = id ∧ t.due ≤ s.now then some (s.clearTimeout id).emitOutput
    else none
  | .settles => if s.settled then none else some { s.clearTimer with settled := true }

/-! ## What an update shows and when -/

/-- The last update shows the latest output, or there is neither. -/
def Shown : Prop :=
  (s.updates = [] ∧ s.latestOutput = []) ∨
    ∃ u, s.updates.head? = some (s.lastUpdate, u) ∧ u.latest = s.latestOutput

/-- A timer is set for 100 ms after the last update. -/
def Waits : Prop := ∃ id, s.updateTimer = some id ∧ ⟨id, s.lastUpdate + 100⟩ ∈ s.timers

/-- An output that comes at or after the time of a timer that has not fired. -/
def late : Event → Bool
  | .output _ => s.updateTimer.isSome && decide (100 ≤ s.now - s.lastUpdate)
  | _ => false

/-- How many outputs of a run come late. -/
def lates : State → List Event → Nat
  | _, [] => 0
  | s, e :: es => (if s.late e then 1 else 0) + (s.step e).elim 0 fun t => lates t es

/-- The timers that nothing can clear any more. -/
def strays : List Timer := s.timers.filter fun t => s.updateTimer ≠ some t.id

/-- An update by the output alone comes 100 ms after the one before it, or later. -/
def Spaced (later earlier : Nat × Update) : Prop :=
  later.2.isOutput = true → earlier.1 + 100 ≤ later.1

structure Inv : Prop where
  fresh : ∀ t ∈ s.timers, t.id < s.nextTimer
  distinct : (s.timers.map (·.id)).Nodup
  current : s.settled = false → s.updateTimer = none ∨ s.Waits
  /-- The end of the call has cleared the timer. -/
  cleared : s.settled = true → ∀ t ∈ s.timers, s.updateTimer ≠ some t.id
  past : s.lastUpdate ≤ s.now
  last : ∀ at' u, s.updates.head? = some (at', u) → at' = s.lastUpdate
  shown : s.settled = false → s.updateTimer = none → s.Shown

end State

def Event.output? : Event → Option JsStr
  | .output text => some text
  | _ => none

/-- The last output of a run. -/
def lastOutput (es : List Event) : JsStr := (es.filterMap Event.output?).getLastD []

namespace State

variable {s t : State} {e : Event} {es : List Event}

/-! ## The timers -/

@[simp] theorem clearTimer_frame : s.clearTimer.now = s.now ∧
    s.clearTimer.latestOutput = s.latestOutput ∧ s.clearTimer.lastUpdate = s.lastUpdate ∧
    s.clearTimer.updateTimer = s.updateTimer ∧ s.clearTimer.nextTimer = s.nextTimer ∧
    s.clearTimer.settled = s.settled ∧ s.clearTimer.updates = s.updates := by
  unfold clearTimer
  split <;> exact ⟨rfl, rfl, rfl, rfl, rfl, rfl, rfl⟩

/-- What is left are the strays. -/
theorem clearTimer_timers : s.clearTimer.timers = s.strays := by
  unfold clearTimer strays
  split
  · next id h =>
    refine List.filter_congr fun t _ => decide_eq_decide.mpr ?_
    rw [h, ne_comm, ne_eq, ne_eq, Option.some_inj]
  · next h =>
    rw [List.filter_eq_self.mpr]
    intro t _
    rw [h]
    rfl

theorem strays_of_none (h : s.updateTimer = none) : s.strays = s.timers := by
  refine List.filter_eq_self.mpr fun t _ => ?_
  rw [h]
  rfl

/-- At most one timer is not a stray. -/
theorem Inv.length_timers (hs : s.Inv) :
    s.timers.length ≤ s.strays.length + if s.updateTimer.isSome then 1 else 0 := by
  cases h : s.updateTimer with
  | none => rw [strays_of_none h]; exact Nat.le_add_right _ _
  | some id =>
    have hcount : (s.timers.map (·.id)).count id ≤ 1 := List.nodup_iff_count_le_one.mp hs.distinct id
    have hpart := List.length_eq_countP_add_countP (fun t : Timer => decide (t.id = id)) (l := s.timers)
    have hstrays : s.strays.length = s.timers.countP fun t => ¬ t.id = id := by
      rw [strays, ← List.countP_eq_length_filter]
      refine List.countP_congr fun t _ => ?_
      rw [h, decide_eq_true_eq, decide_eq_true_eq, ne_eq, Option.some_inj, eq_comm]
    rw [List.count_eq_countP, List.countP_map] at hcount
    have hsame : s.timers.countP ((fun i => i == id) ∘ fun t : Timer => t.id) =
        s.timers.countP fun t => decide (t.id = id) := by
      refine List.countP_congr fun t _ => ?_
      rw [Function.comp_apply, beq_iff_eq, decide_eq_true_eq]
    simp only [Option.isSome_some, if_true]
    simp only [decide_eq_true_eq] at hpart
    omega

/-! ## One step -/

theorem inv_begun (now : Nat) : (begun now).Inv where
  fresh := nofun
  distinct := List.nodup_nil
  current := fun _ => .inl rfl
  cleared := nofun
  past := Nat.zero_le _
  last := nofun
  shown := fun _ _ => .inl ⟨rfl, rfl⟩

/-- After an update nothing waits. -/
theorem inv_onUpdate (hfresh : ∀ t ∈ s.timers, t.id < s.nextTimer)
    (hdistinct : (s.timers.map (·.id)).Nodup) (hnone : s.updateTimer = none) {u : Update}
    (hu : u.latest = s.latestOutput) : (s.onUpdate u).Inv where
  fresh := hfresh
  distinct := hdistinct
  current := fun _ => .inl hnone
  cleared := fun _ t _ h => absurd (hnone.symm.trans h) nofun
  past := Nat.le_refl _
  last := fun _ _ h => by cases h; rfl
  shown := fun _ _ => .inr ⟨u, rfl, hu⟩

theorem inv_emitOutput (hfresh : ∀ t ∈ s.timers, t.id < s.nextTimer)
    (hdistinct : (s.timers.map (·.id)).Nodup) : s.emitOutput.Inv :=
  inv_onUpdate (s := { s with updateTimer := none }) (u := .output s.latestOutput) hfresh hdistinct
    rfl rfl

theorem Inv.strays_fresh (hs : s.Inv) : ∀ t ∈ s.strays, t.id < s.nextTimer :=
  fun t ht => hs.fresh t (List.mem_filter.mp ht).1

theorem Inv.strays_distinct (hs : s.Inv) : (s.strays.map (·.id)).Nodup :=
  hs.distinct.sublist (List.filter_sublist.map _)

theorem Inv.progress (hs : s.Inv) (message : JsStr) : (s.progress message).Inv := by
  obtain ⟨-, hlatest, -, -, hnext, -, -⟩ := clearTimer_frame (s := s)
  refine inv_onUpdate ?_ ?_ rfl hlatest.symm
  · show ∀ t ∈ s.clearTimer.timers, t.id < s.clearTimer.nextTimer
    rw [clearTimer_timers, hnext]
    exact hs.strays_fresh
  · show (s.clearTimer.timers.map (·.id)).Nodup
    rw [clearTimer_timers]
    exact hs.strays_distinct

theorem Inv.output (hs : s.Inv) (ha : s.settled = false) (text : JsStr) : (s.output text).Inv := by
  unfold State.output
  simp only
  split
  · exact inv_emitOutput hs.fresh hs.distinct
  · next hdelay =>
    split
    · refine ⟨?_, ?_, fun _ => .inr ⟨s.nextTimer, rfl, ?_⟩, fun h => ?_, hs.past, hs.last,
        fun _ h => nomatch h⟩
      · intro t ht
        rcases List.mem_cons.mp ht with rfl | ht
        · exact Nat.lt_succ_self _
        · exact Nat.lt_succ_of_lt (hs.fresh t ht)
      · refine List.nodup_cons.mpr ⟨fun hmem => ?_, hs.distinct⟩
        obtain ⟨t, ht, hid⟩ := List.mem_map.mp hmem
        exact absurd (hs.fresh t ht) (by rw [hid]; exact Nat.lt_irrefl _)
      · have hpast := hs.past
        have hdue : s.lastUpdate + 100 = s.now + (100 - (s.now - s.lastUpdate)) := by omega
        show (⟨s.nextTimer, s.lastUpdate + 100⟩ : Timer) ∈ _
        rw [hdue]
        exact List.mem_cons_self
      · exact absurd (ha.symm.trans h) nofun
    · next hsome =>
      exact ⟨hs.fresh, hs.distinct, hs.current, hs.cleared, hs.past, hs.last,
        fun _ h => absurd h hsome⟩

theorem Inv.fires (hs : s.Inv) (id : TimerId) : (s.clearTimeout id).emitOutput.Inv :=
  inv_emitOutput (fun t ht => hs.fresh t (List.mem_filter.mp ht).1)
    (hs.distinct.sublist (List.filter_sublist.map _))

theorem Inv.settles (hs : s.Inv) : { s.clearTimer with settled := true }.Inv := by
  obtain ⟨hnow, -, hlast, htimer, hnext, -, hupdates⟩ := clearTimer_frame (s := s)
  refine ⟨?_, ?_, nofun, fun _ => ?_, ?_, ?_, nofun⟩
  · show ∀ t ∈ s.clearTimer.timers, t.id < s.clearTimer.nextTimer
    rw [clearTimer_timers, hnext]
    exact hs.strays_fresh
  · show (s.clearTimer.timers.map (·.id)).Nodup
    rw [clearTimer_timers]
    exact hs.strays_distinct
  · show ∀ t ∈ s.clearTimer.timers, s.clearTimer.updateTimer ≠ some t.id
    rw [clearTimer_timers, htimer]
    exact fun t ht => of_decide_eq_true (List.mem_filter.mp ht).2
  · show s.clearTimer.lastUpdate ≤ s.clearTimer.now
    rw [hlast, hnow]
    exact hs.past
  · show ∀ at' u, s.clearTimer.updates.head? = some (at', u) → at' = s.clearTimer.lastUpdate
    rw [hlast, hupdates]
    exact hs.last

theorem Inv.step (hs : s.Inv) (h : s.step e = some t) : t.Inv := by
  cases e with
  | passes ms =>
    cases h
    exact ⟨hs.fresh, hs.distinct, hs.current, hs.cleared, Nat.le_add_right_of_le hs.past, hs.last,
      hs.shown⟩
  | progress message =>
    obtain ⟨-, h⟩ := Option.ite_none_left_eq_some.mp h
    cases h
    exact hs.progress message
  | output text =>
    obtain ⟨ha, h⟩ := Option.ite_none_left_eq_some.mp h
    cases h
    exact hs.output (Bool.not_eq_true _ ▸ ha) text
  | fires id =>
    obtain ⟨-, h⟩ := Option.ite_none_right_eq_some.mp h
    cases h
    exact hs.fires id
  | settles =>
    obtain ⟨-, h⟩ := Option.ite_none_left_eq_some.mp h
    cases h
    exact hs.settles

theorem Inv.run (hs : s.Inv) (h : runAll State.step s es = some t) : t.Inv :=
  have hall : AllSteps State.step (fun _ _ => True) s es := .of_all fun _ _ => trivial
  invariant_runAll (fun _ _ _ hu _ he => hu.step he) hs hall h

/-! ## Timers that are left behind -/

/-- **Only a late output leaves a timer behind.** -/
theorem Inv.strays_step (hs : s.Inv) (h : s.step e = some t) :
    t.strays.length ≤ s.strays.length + if s.late e then 1 else 0 := by
  cases e with
  | passes ms => cases h; exact Nat.le_add_right _ _
  | progress message =>
    obtain ⟨-, h⟩ := Option.ite_none_left_eq_some.mp h
    cases h
    rw [strays_of_none (s := s.progress message) rfl]
    show s.clearTimer.timers.length ≤ _
    rw [clearTimer_timers]
    exact Nat.le_add_right _ _
  | output text =>
    obtain ⟨-, h⟩ := Option.ite_none_left_eq_some.mp h
    cases h
    unfold State.output
    simp only
    split
    · next hdelay =>
      rw [strays_of_none (s := emitOutput _) rfl]
      have hlate : s.late (.output text) = s.updateTimer.isSome := by
        rw [late, decide_eq_true (Nat.sub_eq_zero_iff_le.mp hdelay), Bool.and_true]
      rw [hlate]
      exact hs.length_timers
    · split
      · next hnone =>
        have hdrop : (setTimeout { s with latestOutput := text } (100 - (s.now - s.lastUpdate))).strays
            = s.timers.filter fun t => some s.nextTimer ≠ some t.id :=
          List.filter_cons_of_neg fun hne => of_decide_eq_true hne rfl
        rw [hdrop, strays_of_none hnone]
        exact Nat.le_add_right_of_le (List.length_filter_le _ _)
      · exact Nat.le_add_right _ _
  | fires id =>
    obtain ⟨hany, h⟩ := Option.ite_none_right_eq_some.mp h
    cases h
    rw [strays_of_none (s := emitOutput _) rfl]
    obtain ⟨t, ht, hid⟩ := List.any_eq_true.mp hany
    have hlt : (s.timers.filter fun t => t.id ≠ id).length < s.timers.length :=
      List.length_filter_lt_length_iff_exists.mpr
        ⟨t, ht, fun hne => of_decide_eq_true hne (of_decide_eq_true hid).1⟩
    have hle := hs.length_timers
    show (s.timers.filter fun t => t.id ≠ id).length ≤ _
    split at hle <;> omega
  | settles =>
    obtain ⟨-, h⟩ := Option.ite_none_left_eq_some.mp h
    cases h
    refine (List.length_filter_le _ _).trans ?_
    show s.clearTimer.timers.length ≤ _
    rw [clearTimer_timers]
    exact Nat.le_add_right _ _

theorem Inv.strays_run (hs : s.Inv) (h : runAll State.step s es = some t) :
    t.strays.length ≤ s.strays.length + lates s es := by
  induction es generalizing s with
  | nil => cases h; exact Nat.le_add_right _ _
  | cons e es ih =>
    rw [runAll_cons, Option.bind_eq_some_iff] at h
    obtain ⟨u, hu, h⟩ := h
    have h1 := hs.strays_step hu
    have h2 := ih (hs.step hu) h
    rw [lates, hu, Option.elim_some]
    omega

/-! ## After the call -/

/-- After the call an update takes a timer. -/
theorem settled_step (ha : s.settled = true) (h : s.step e = some t) : t.settled = true ∧
    ∃ added, t.updates = added ++ s.updates ∧
      added.length + t.timers.length ≤ s.timers.length := by
  cases e with
  | passes ms => cases h; exact ⟨ha, [], rfl, Nat.le_of_eq (Nat.zero_add _)⟩
  | progress message => exact absurd ha (Option.ite_none_left_eq_some.mp h).1
  | output text => exact absurd ha (Option.ite_none_left_eq_some.mp h).1
  | settles => exact absurd ha (Option.ite_none_left_eq_some.mp h).1
  | fires id =>
    obtain ⟨hany, h⟩ := Option.ite_none_right_eq_some.mp h
    cases h
    obtain ⟨t, ht, hid⟩ := List.any_eq_true.mp hany
    have hlt : (s.timers.filter fun t => t.id ≠ id).length < s.timers.length :=
      List.length_filter_lt_length_iff_exists.mpr
        ⟨t, ht, fun hne => of_decide_eq_true hne (of_decide_eq_true hid).1⟩
    refine ⟨ha, [(s.now, .output s.latestOutput)], rfl, ?_⟩
    rw [List.length_singleton, Nat.add_comm]
    exact hlt

theorem settled_run (ha : s.settled = true) (h : runAll State.step s es = some t) :
    ∃ added, t.updates = added ++ s.updates ∧ added.length ≤ s.timers.length := by
  have hrun : t.settled = true ∧ ∃ added, t.updates = added ++ s.updates ∧
      added.length + t.timers.length ≤ s.timers.length := by
    have hall : AllSteps State.step (fun _ _ => True) s es := .of_all fun _ _ => trivial
    refine invariant_runAll (I := fun u => u.settled = true ∧
      ∃ added, u.updates = added ++ s.updates ∧ added.length + u.timers.length ≤ s.timers.length)
      ?_ ⟨ha, [], rfl, Nat.le_of_eq (Nat.zero_add _)⟩ hall h
    rintro u e v ⟨hu, added, hadded, hle⟩ - hv
    obtain ⟨hv, more, hmore, hle'⟩ := settled_step hu hv
    refine ⟨hv, more ++ added, by rw [hmore, hadded, List.append_assoc], ?_⟩
    rw [List.length_append]
    omega
  obtain ⟨-, added, hadded, hle⟩ := hrun
  exact ⟨added, hadded, Nat.le_of_add_right_le hle⟩

/-! ## The time between updates -/

theorem Inv.isChain_onUpdate (hlast : ∀ at' u, s.updates.head? = some (at', u) → at' = s.lastUpdate)
    (hc : s.updates.IsChain Spaced) {u : Update}
    (hu : u.isOutput = true → s.lastUpdate + 100 ≤ s.now) : (s.onUpdate u).updates.IsChain Spaced := by
  refine List.isChain_cons.mpr ⟨?_, hc⟩
  rintro ⟨at', v⟩ hv hout
  rw [hlast at' v hv]
  exact hu hout

/-- Without strays, a timer that is in time is the one set for 100 ms after the last update. -/
theorem Inv.due_of_mem (hs : s.Inv) (hstrays : s.strays = []) {timer : Timer}
    (ht : timer ∈ s.timers) : timer.due = s.lastUpdate + 100 := by
  have htimer : s.updateTimer = some timer.id := by
    by_contra hne
    have hmem : timer ∈ s.strays := List.mem_filter.mpr ⟨ht, decide_eq_true hne⟩
    rw [hstrays] at hmem
    cases hmem
  have hopen : s.settled = false := by
    by_contra hclosed
    exact hs.cleared (Bool.not_eq_false _ ▸ hclosed) timer ht htimer
  rcases hs.current hopen with hnone | ⟨id, hid, hmem⟩
  · exact absurd (hnone.symm.trans htimer) nofun
  · have hsame : timer.id = id := Option.some_inj.mp (htimer.symm.trans hid)
    rw [List.inj_on_of_nodup_map hs.distinct ht hmem hsame]

/-- Without strays and late outputs, no update comes early. -/
theorem Inv.spaced_step (hs : s.Inv) (hstrays : s.strays = []) (hc : s.updates.IsChain Spaced)
    (hlate : s.late e = false) (h : s.step e = some t) : t.updates.IsChain Spaced := by
  cases e with
  | passes ms => cases h; exact hc
  | progress message =>
    obtain ⟨-, h⟩ := Option.ite_none_left_eq_some.mp h
    cases h
    obtain ⟨-, -, hlast, -, -, -, hupdates⟩ := clearTimer_frame (s := s)
    refine isChain_onUpdate (s := { s.clearTimer with updateTimer := none }) ?_ ?_ nofun
    · show ∀ at' u, s.clearTimer.updates.head? = some (at', u) → at' = s.clearTimer.lastUpdate
      rw [hlast, hupdates]
      exact hs.last
    · show s.clearTimer.updates.IsChain Spaced
      rw [hupdates]
      exact hc
  | output text =>
    obtain ⟨-, h⟩ := Option.ite_none_left_eq_some.mp h
    cases h
    have hpast := hs.past
    unfold State.output
    simp only
    split
    · next hdelay =>
      refine isChain_onUpdate (s := { s with latestOutput := text, updateTimer := none }) hs.last hc
        fun _ => ?_
      show s.lastUpdate + 100 ≤ s.now
      omega
    · split <;> exact hc
  | fires id =>
    obtain ⟨hany, h⟩ := Option.ite_none_right_eq_some.mp h
    cases h
    obtain ⟨timer, ht, hid⟩ := List.any_eq_true.mp hany
    have hdue := (of_decide_eq_true hid).2
    rw [hs.due_of_mem hstrays ht] at hdue
    exact isChain_onUpdate (s := { s.clearTimeout id with updateTimer := none }) hs.last hc
      fun _ => hdue
  | settles =>
    obtain ⟨-, h⟩ := Option.ite_none_left_eq_some.mp h
    cases h
    show s.clearTimer.updates.IsChain Spaced
    rw [(clearTimer_frame (s := s)).2.2.2.2.2.2]
    exact hc

theorem Inv.spaced_run (hs : s.Inv) (hstrays : s.strays = []) (hc : s.updates.IsChain Spaced)
    (hlates : lates s es = 0) (h : runAll State.step s es = some t) :
    t.updates.IsChain Spaced := by
  induction es generalizing s with
  | nil => cases h; exact hc
  | cons e es ih =>
    rw [runAll_cons, Option.bind_eq_some_iff] at h
    obtain ⟨u, hu, h⟩ := h
    rw [lates, hu, Option.elim_some, Nat.add_eq_zero_iff] at hlates
    have hlate : s.late e = false := by
      by_contra hlate
      rw [Bool.not_eq_false] at hlate
      rw [if_pos hlate] at hlates
      exact absurd hlates.1 nofun
    have hstep := hs.strays_step hu
    rw [hstrays, hlate, if_neg Bool.false_ne_true] at hstep
    exact ih (hs.step hu) (List.length_eq_zero_iff.mp (Nat.le_zero.mp hstep))
      (hs.spaced_step hstrays hc hlate hu) hlates.2 h

/-! ## A run -/

theorem latestOutput_step (h : s.step e = some t) :
    t.latestOutput = e.output?.getD s.latestOutput := by
  obtain ⟨-, hlatest, -⟩ := clearTimer_frame (s := s)
  cases e with
  | passes ms => cases h; rfl
  | progress message =>
    obtain ⟨-, h⟩ := Option.ite_none_left_eq_some.mp h
    cases h
    exact hlatest
  | output text =>
    obtain ⟨-, h⟩ := Option.ite_none_left_eq_some.mp h
    cases h
    unfold State.output
    simp only
    split
    · rfl
    · split <;> rfl
  | fires id =>
    obtain ⟨-, h⟩ := Option.ite_none_right_eq_some.mp h
    cases h
    rfl
  | settles =>
    obtain ⟨-, h⟩ := Option.ite_none_left_eq_some.mp h
    cases h
    exact hlatest

theorem latestOutput_run (h : runAll State.step s es = some t) :
    t.latestOutput = (es.filterMap Event.output?).getLastD s.latestOutput := by
  induction es generalizing s with
  | nil => cases h; rfl
  | cons e es ih =>
    rw [runAll_cons, Option.bind_eq_some_iff] at h
    obtain ⟨u, hu, h⟩ := h
    rw [ih h, latestOutput_step hu]
    cases he : e.output? with
    | none => rw [List.filterMap_cons_none he]; rfl
    | some text => rw [List.filterMap_cons_some he, List.getLastD_cons]; rfl

/-- **No output is lost and few updates come after the call.** While the call runs, the last update
shows the last output, or a timer for it is set for 100 ms after the last update. After the call
come at most as many updates as outputs came late. When none came late, updates by the output alone
come 100 ms after the update before them or later. -/
theorem updates_begun {now : Nat} (h : runAll State.step (begun now) es = some s) :
    s.latestOutput = lastOutput es ∧ (s.settled = false → s.Shown ∨ s.Waits) ∧
    (∀ before after, es = before ++ .settles :: after →
      ∀ t, runAll State.step (begun now) before = some t →
        ∃ added, s.updates = added ++ t.updates ∧ added.length ≤ lates (begun now) before) ∧
    (lates (begun now) es = 0 → s.updates.IsChain Spaced) := by
  have hinv := (inv_begun now).run h
  refine ⟨latestOutput_run h, fun hopen => ?_, ?_, fun hlates => ?_⟩
  · exact (hinv.current hopen).elim (fun hnone => .inl (hinv.shown hopen hnone)) .inr
  · rintro before after rfl t ht
    rw [runAll_append, ht, Option.bind_some, runAll_cons, Option.bind_eq_some_iff] at h
    obtain ⟨u, hu, h⟩ := h
    obtain ⟨-, hu⟩ := Option.ite_none_left_eq_some.mp hu
    cases hu
    obtain ⟨added, hadded, hle⟩ := settled_run (s := { t.clearTimer with settled := true }) rfl h
    refine ⟨added, ?_, ?_⟩
    · rw [hadded]
      exact congrArg (added ++ ·) (clearTimer_frame (s := t)).2.2.2.2.2.2
    · have hstrays := (inv_begun now).strays_run ht
      rw [show ({ t.clearTimer with settled := true } : State).timers = t.strays from
        clearTimer_timers] at hle
      have hnone : (begun now).strays = [] := rfl
      rw [hnone, List.length_nil, Nat.zero_add] at hstrays
      exact hle.trans hstrays
  · exact (inv_begun now).spaced_run rfl .nil hlates h

/-- The timer of the second output has not fired when the third comes. -/
def lateOutputs : List Event :=
  [.output (js "a"), .passes 30, .output (js "ab"), .passes 90, .output (js "abc")]

def lateState : State :=
  ⟨1120, js "abc", 1120, none, [⟨0, 1100⟩], 1, false,
    [(1120, .output (js "abc")), (1000, .output (js "a"))]⟩

/-- **One late output, and one update after the call.** -/
theorem updates_begun_late :
    runAll State.step (begun 1000) (lateOutputs ++ [.settles, .fires 0]) =
        some { lateState with
          settled := true, timers := []
          updates := (1120, .output (js "abc")) :: lateState.updates } ∧
      lates (begun 1000) lateOutputs = 1 ∧
      ∃ added, (1120, Update.output (js "abc")) :: lateState.updates = added ++ lateState.updates ∧
        added.length ≤ lates (begun 1000) lateOutputs := by
  have hrun : runAll State.step (begun 1000) (lateOutputs ++ [.settles, .fires 0]) =
      some { lateState with
        settled := true, timers := []
        updates := (1120, .output (js "abc")) :: lateState.updates } := by decide +kernel
  exact ⟨hrun, by decide +kernel, (updates_begun hrun).2.2.1 lateOutputs [.fires 0] rfl lateState
    (by decide +kernel)⟩

end State

end PiIpython.Extension.Updates
