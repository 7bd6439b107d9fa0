import PiIpython.Persistence.Queue

/-!
# The failure of a save

What the tasks of a session do to `saveFailure`: a `save` that fails records
its failure, a `sync` that resolves returns what is recorded and clears it, and
nothing else touches it (`holds_task`). A task awaits ten operations at most.
-/

namespace PiIpython.Persistence

open Text Prog
open PiIpython.Runtime (JsonValue)

variable {numberText : Binary64 → JsStr}

/-! ## Notices -/

/-- The notice of a restore is none of a save that failed. -/
def Own (notice : Option JsStr) : Prop := ∀ t, notice = some t → ¬ notSaved [] <+: t

theorem own_of_start {a t : JsStr} (ha : a <+: t) (hlength : 20 ≤ a.length)
    (hne : a.take 20 ≠ (notSaved []).take 20) : Own (some t) := by
  rintro _ ⟨⟩ ⟨u, hu⟩
  obtain ⟨v, hv⟩ := ha
  refine hne ?_
  have h := congrArg (List.take 20) (hv.trans hu.symm)
  rwa [List.take_append_of_le_length hlength, List.take_append_of_le_length (by decide)] at h

theorem prefix_join (t x : JsStr) (xs : List JsStr) : x <+: join t (x :: xs) := by
  cases xs with
  | nil => exact List.prefix_rfl
  | cons y ys => exact ⟨t ++ join t (y :: ys), (List.append_assoc ..).symm⟩

theorem prefix_joinNonEmpty (t : JsStr) {x : JsStr} (hx : x ≠ []) (xs : List JsStr) :
    x <+: joinNonEmpty t (x :: xs) := by
  unfold joinNonEmpty
  rw [List.filter_cons_of_pos (by simpa using hx)]
  exact prefix_join ..

theorem own_restoreNotice (s : RestoreSummary) : Own (some (restoreNotice numberText s)) := by
  cases s with
  | unavailable error => exact own_of_start (List.prefix_append _ _) (by decide) (by decide)
  | empty fellBack =>
    exact own_of_start (prefix_join (js "\n") (js "<ipython_state_restored>") _) (by decide)
      (by decide)
  | restored id cell restored skipped fellBack =>
    exact own_of_start (prefix_joinNonEmpty (js "\n") (x := js "<ipython_state_restored>")
      (by decide) _) (by decide) (by decide)

theorem own_exhausted : Own (some exhausted) := by
  refine own_of_start (a := js "IPython checkpoint restore killed the kernel ") ?_ (by decide)
    (by decide)
  unfold exhausted
  exact ⟨_, by simp only [List.append_assoc]; rfl⟩

theorem own_none : Own none := nofun

/-! ## Programs -/

/-- An operation that leaves the failure of a save alone. -/
def Op.Quiet (o : Op) : Prop := ∀ text, o ≠ .setSaveFailure text

theorem quiet_call (o : Embed.Operation) (args : List Embed.Arg) (timeoutMs : Option Nat)
    (signal : Option SignalId) : (call o args timeoutMs signal).AllOps Op.Quiet :=
  ⟨nofun, fun _ => trivial⟩

theorem quiet_start (signal : Option SignalId) : (start signal).AllOps Op.Quiet :=
  ⟨nofun, fun _ => trivial⟩

theorem quiet_aborted (signal : Option SignalId) : (aborted signal).AllOps Op.Quiet := by
  cases signal with
  | none => trivial
  | some signal => exact ⟨nofun, fun _ => trivial⟩

theorem quiet_restore (candidates : List JsStr) (signal : Option SignalId) :
    (restore numberText candidates signal).AllOps Op.Quiet := by
  refine allOps_attempt (allOps_bind (quiet_call ..) fun _ => trivial) fun e => ?_
  refine allOps_bind (quiet_aborted signal) fun a => ?_
  cases a with
  | true => exact trivial
  | false =>
    refine allOps_bind (allOps_attempt (allOps_bind (quiet_call ..) fun _ => trivial) fun _ => ?_)
      fun _ => trivial
    exact trivial

theorem quiet_restoreRound (candidates : List JsStr) (signal : Option SignalId) :
    (restoreRound numberText candidates signal).AllOps Op.Quiet :=
  allOps_bind ⟨nofun, fun _ => trivial⟩ fun _ => allOps_bind (quiet_restore ..) fun _ =>
    allOps_bind (quiet_start _) fun _ => allOps_bind ⟨nofun, fun _ => trivial⟩ fun _ => trivial

theorem quiet_restoreLoop (candidates : List JsStr) (signal : Option SignalId) (left : Nat) :
    (restoreLoop numberText candidates signal left).AllOps Op.Quiet := by
  induction left with
  | zero => exact allOps_bind (quiet_restoreRound ..) fun _ => trivial
  | succ left ih =>
    refine allOps_bind (quiet_restoreRound ..) fun x => ?_
    obtain ⟨notice, same⟩ := x
    cases same with
    | true => exact trivial
    | false => exact ih

/-- A result that is a notice is none of a save. -/
def OwnResult (r : Except JsStr (Option JsStr)) : Prop := ∀ notice, r = .ok notice → Own notice

theorem own_restoreResult (summary : Option JsonValue) :
    OwnResult (restoreResult numberText summary) := by
  intro notice h
  unfold restoreResult at h
  split at h
  · cases h
    exact own_none
  · split at h
    · cases h
      exact own_restoreNotice _
    · cases h

theorem own_error (e : JsStr) : OwnResult (.error e) := nofun

theorem own_restore (candidates : List JsStr) (signal : Option SignalId) :
    (restore numberText candidates signal).Returns OwnResult := by
  refine Returns.attempt (P := OwnResult) ?_ (fun _ => id) fun e => ?_
  · exact (returns_true _).bind (fun summary _ => own_restoreResult summary) own_error
  · refine (returns_true _).bind (fun a _ => ?_) own_error
    cases a with
    | true => exact own_error e
    | false =>
      refine (returns_true _).bind (fun _ _ => ?_) own_error
      rintro _ ⟨⟩
      exact own_of_start (List.prefix_append _ _) (by decide) (by decide)

theorem own_restoreRound (candidates : List JsStr) (signal : Option SignalId) :
    (restoreRound numberText candidates signal).Returns fun r => ∀ x, r = .ok x → Own x.1 := by
  refine (returns_true _).bind (fun _ _ => ?_) nofun
  refine (own_restore candidates signal).bind (fun notice hn => ?_) nofun
  refine (returns_true _).bind (fun _ _ => ?_) nofun
  refine (returns_true _).bind (fun _ _ => ?_) nofun
  rintro _ ⟨⟩
  exact hn notice rfl

theorem own_restoreLoop (candidates : List JsStr) (signal : Option SignalId) (left : Nat) :
    (restoreLoop numberText candidates signal left).Returns OwnResult := by
  induction left with
  | zero =>
    refine (own_restoreRound candidates signal).bind (fun x hx => ?_) own_error
    obtain ⟨notice, same⟩ := x
    rintro _ ⟨⟩
    cases same with
    | true => exact hx _ rfl
    | false => exact own_exhausted
  | succ left ih =>
    refine (own_restoreRound candidates signal).bind (fun x hx => ?_) own_error
    obtain ⟨notice, same⟩ := x
    cases same with
    | true =>
      rintro _ ⟨⟩
      exact hx _ rfl
    | false => exact ih

/-! ## Tasks -/

/-- An answer changes nothing, and the event loop always comes round. -/
def World.Serve (w : World) (o : Op) (r : Except JsStr (Ans o)) (w' : World) : Prop :=
  w' = w ∧ (o = .immediate → ∃ a, r = .ok a)

/-- The failure of a save is as it was. -/
def World.Meanwhile (w w' : World) : Prop := w'.saveFailure = w.saveFailure

/-- `p` is safe from `w`, and `failure` is recorded whenever it awaits something. -/
abbrev Holds (failure : Option JsStr) {α : Type} (p : Async α) (Q : Except JsStr α → World → Prop)
    (w : World) : Prop :=
  p.Safe (fun o w => World.now o = none → w.saveFailure = failure)
    (Turn World.now World.Serve World.Meanwhile) Q w

variable {failure : Option JsStr} {α : Type} {w : World}

theorem Op.Quiet.now {o : Op} (ho : o.Quiet) {f : World → Except JsStr (Ans o) × World}
    (h : World.now o = some f) : (f w).2 = w := by
  cases o with
  | setSaveFailure text => exact absurd rfl (ho text)
  | generation => cases h; rfl
  | aborted signal => cases h; rfl
  | saveFailure => cases h; rfl
  | start signal => cases h
  | evaluate expression timeoutMs signal => cases h
  | immediate => cases h

/-- **A program that leaves the failure alone.** -/
theorem holds_quiet {p : Async α} {P : Except JsStr α → Prop} (hp : p.AllOps Op.Quiet)
    (hP : p.Returns P) (hw : w.saveFailure = failure) :
    Holds failure p (fun r w => w.saveFailure = failure ∧ P r) w := by
  induction p generalizing w with
  | done r => exact ⟨hw, hP⟩
  | op o k ih =>
    cases ho : World.now o with
    | some f =>
      refine safe_now ho (fun h => ?_) (ih _ (hp.2 _) (hP _) ?_)
      · exact hw
      · rw [hp.1.now ho]
        exact hw
    | none =>
      refine safe_await ho (fun _ => hw) fun w₁ r w₂ hm hs => ih r (hp.2 r) (hP r) ?_
      rw [hs.1]
      exact hm.trans hw

/-- What a task leaves of the failure that it finds, and what it ends with. -/
def Post (failure : Option JsStr) : Request → Except JsStr Outcome → World → Prop
  | .sync _ _, .ok (.notices ns), w =>
    w.saveFailure = none ∧ ∃ own, ns = failure.toList ++ own.toList ∧ Own own
  | .sync _ _, .error _, w => w.saveFailure = failure
  | .save _, .ok .saved, w => w.saveFailure = failure
  | .save _, .ok (.unsaved text), w => w.saveFailure = some text
  | _, _, _ => False

theorem Post.meanwhile {request : Request} {r : Except JsStr Outcome} {w' : World}
    (h : Post failure request r w) (hm : w.Meanwhile w') : Post failure request r w' := by
  unfold World.Meanwhile at hm
  cases request with
  | sync candidates signal =>
    rcases r with e | ns | _ | text
    · exact hm.trans h
    · exact ⟨hm.trans h.1, h.2⟩
    · exact h
    · exact h
  | save id =>
    rcases r with e | ns | _ | text
    · exact h
    · exact h
    · exact hm.trans h
    · exact hm.trans h

/-- **A task** leaves a failure to be told, or tells it. -/
theorem holds_task (request : Request) (hw : w.saveFailure = failure) :
    Holds failure (request.task numberText) (Post failure request) w := by
  cases request with
  | sync candidates signal =>
    refine safe_map.mpr (safe_bind.mpr ((holds_quiet (quiet_start signal) (returns_true _)
      hw).mono ?_))
    rintro (e | _) w₁ ⟨hw₁, -⟩
    · exact hw₁
    refine safe_bind.mpr ((holds_quiet (quiet_restoreLoop candidates signal _)
      (own_restoreLoop candidates signal _) hw₁).mono ?_)
    rintro (e | notice) w₂ ⟨hw₂, hown⟩
    · exact hw₂
    refine safe_now rfl nofun (safe_now rfl nofun ⟨rfl, notice, ?_, hown notice rfl⟩)
    rw [← hw₂]
  | save id =>
    refine safe_map.mpr (safe_bind.mpr (safe_await rfl (fun _ => hw) ?_))
    rintro w₁ r w₂ hm ⟨rfl, hr⟩
    have hw₂ : w₂.saveFailure = failure := hm.trans hw
    obtain ⟨_, rfl⟩ := hr rfl
    refine safe_attempt.mpr (safe_bind.mpr (safe_map.mpr (safe_await rfl (fun _ => hw₂) ?_)))
    rintro w₃ r w₄ hm ⟨rfl, -⟩
    have hw₄ : w₄.saveFailure = failure := hm.trans hw₂
    cases r with
    | ok _ => exact hw₄
    | error e =>
      change Holds failure (Prog.op (.setSaveFailure _) _) _ w₄
      exact safe_now rfl nofun rfl

/-! ## How long a task is -/

theorem within_call (o : Embed.Operation) (args : List Embed.Arg) (timeoutMs : Option Nat)
    (signal : Option SignalId) : (call o args timeoutMs signal).Within World.now 1 :=
  (within_await rfl).mpr ⟨0, rfl, fun _ => trivial⟩

theorem within_start (signal : Option SignalId) : (start signal).Within World.now 1 :=
  (within_await rfl).mpr ⟨0, rfl, fun _ => trivial⟩

theorem within_aborted (signal : Option SignalId) : (aborted signal).Within World.now 0 := by
  cases signal with
  | none => trivial
  | some signal => exact (within_now rfl).mpr fun _ => trivial

theorem within_generation : generation.Within World.now 0 :=
  (within_now rfl).mpr fun _ => trivial

theorem within_restore (candidates : List JsStr) (signal : Option SignalId) :
    (restore numberText candidates signal).Within World.now 2 := by
  refine Within.attempt (m := 1) (n := 1) ?_ fun e => ?_
  · exact (within_call ..).bind (n := 0) fun _ => trivial
  · refine (within_aborted signal).bind (n := 1) fun a => ?_
    cases a with
    | true => exact trivial
    | false =>
      exact Within.bind (m := 1) (n := 0)
        (Within.attempt (n := 0) (within_call ..).map fun _ => trivial) fun _ => trivial

theorem within_restoreRound (candidates : List JsStr) (signal : Option SignalId) :
    (restoreRound numberText candidates signal).Within World.now 3 :=
  Within.bind (m := 0) (n := 3) within_generation fun _ =>
    Within.bind (m := 2) (n := 1) (within_restore candidates signal) fun _ =>
      Within.bind (m := 1) (n := 0) (within_start signal) fun _ =>
        Within.bind (m := 0) (n := 0) within_generation fun _ => trivial

theorem within_restoreLoop (candidates : List JsStr) (signal : Option SignalId) (left : Nat) :
    (restoreLoop numberText candidates signal left).Within World.now (3 * (left + 1)) := by
  induction left with
  | zero => exact Within.bind (n := 0) (within_restoreRound candidates signal) fun _ => trivial
  | succ left ih =>
    rw [show 3 * (left + 1 + 1) = 3 + 3 * (left + 1) by omega]
    refine (within_restoreRound candidates signal).bind fun x => ?_
    obtain ⟨notice, same⟩ := x
    cases same with
    | true => exact trivial
    | false => exact ih

/-- **A task awaits ten operations at most.** -/
theorem within_task (request : Request) : (request.task numberText).Within World.now 10 := by
  cases request with
  | sync candidates signal =>
    refine Within.map (Within.bind (m := 1) (n := 9) (within_start signal) fun _ =>
      Within.bind (m := 9) (n := 0) (within_restoreLoop candidates signal 2) fun _ => ?_)
    exact (within_now rfl).mpr fun r => by
      cases r with
      | error e => exact trivial
      | ok failure => exact (within_now rfl).mpr fun r => by cases r <;> exact trivial
  | save id =>
    refine Within.mono (m := 1 + (1 + 0)) (Within.map (Within.bind ?_ fun _ => ?_)) (by decide)
    · exact (within_await rfl).mpr ⟨0, rfl, fun _ => trivial⟩
    · refine Within.attempt (Within.bind (m := 1) (n := 0) (within_call ..).map fun _ => trivial) ?_
      exact fun e => (within_now rfl).mpr fun r => by cases r <;> exact trivial

end PiIpython.Persistence
