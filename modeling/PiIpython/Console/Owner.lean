import PiIpython.Console.Pane

/-!
# The view owns its pane

Between two toggles at most one viewer is open and the view knows its pane
(`Owned`), and only those staging tabs are left whose close command failed
(`Tidy`). A toggle may leave both while it runs; `task_togglePane` tells where
it ends, and `State.Owning` what holds in every state of a run.
-/

namespace PiIpython.Console

open Text Json Prog
open PiIpython.Runtime (JsonValue jsonParse)

variable {α : Type} {pre : Op → World → Prop} {w w₁ w₂ : World} {tab : Option JsStr} {n : Nat}

/-- At most one viewer is open, in the pane that the view knows. -/
structure Owned (w : World) : Prop where
  one : w.herdr.viewers.length ≤ 1
  ours : ∀ v ∈ w.herdr.viewers, w.view.paneId = some v.pane

/-- Only `tab` and the tabs that could not be closed are left. -/
def Tidy (tab : Option JsStr) (w : World) : Prop :=
  ∀ t ∈ w.herdr.tabs, tab = some t ∨ t ∈ w.herdr.unclosed

theorem Owned.empty (h : Owned w) (hp : w.view.paneId = none) : w.herdr.viewers = [] := by
  refine List.eq_nil_iff_forall_not_mem.mpr fun v hv => ?_
  have := h.ours v hv
  rw [hp] at this
  cases this

theorem Owned.of_empty (h : w.herdr.viewers = []) : Owned w where
  one := by rw [h]; exact Nat.zero_le _
  ours := by rw [h]; exact fun _ hv => absurd hv List.not_mem_nil

/-! ## Meanwhile -/

namespace World.Meanwhile

theorem refl (w : World) : w.Meanwhile w :=
  ⟨rfl, rfl, id, .refl _, fun _ => id, rfl, rfl, rfl, Nat.le_refl _, fun _ => rfl⟩

theorem trans {a b c : World} (h : a.Meanwhile b) (h' : b.Meanwhile c) : a.Meanwhile c where
  paneId := h'.paneId.trans h.paneId
  connectionFile := h'.connectionFile.trans h.connectionFile
  disposed := fun hd => h'.disposed (h.disposed hd)
  viewers := h'.viewers.trans h.viewers
  tabs := List.Subset.trans h'.tabs h.tabs
  unclosed := h'.unclosed.trans h.unclosed
  refused := h'.refused.trans h.refused
  opened := h'.opened.trans h.opened
  closings := h.closings.trans h'.closings
  kept := fun he => by
    have h1 := h.closings
    have h2 := h'.closings
    exact (h'.kept (by omega)).trans (h.kept (by omega))

end World.Meanwhile

theorem Owned.meanwhile (h : Owned w) (hm : w.Meanwhile w₁) : Owned w₁ where
  one := hm.viewers.length_le.trans h.one
  ours := fun v hv => hm.paneId.trans (h.ours v (hm.viewers.subset hv))

theorem Tidy.meanwhile (h : Tidy tab w) (hm : w.Meanwhile w₁) : Tidy tab w₁ := by
  intro t ht
  rw [hm.unclosed]
  exact h t (hm.tabs ht)

/-- What holds of the panes and tabs throughout a toggle, but for the staging tab. -/
structure Kept (n : Nat) (tab : Option JsStr) (w : World) : Prop where
  owned : Owned w
  tidy : Tidy tab w
  closings : n ≤ w.herdr.closings

theorem Kept.meanwhile (h : Kept n tab w) (hm : w.Meanwhile w₁) : Kept n tab w₁ :=
  ⟨h.owned.meanwhile hm, h.tidy.meanwhile hm, h.closings.trans hm.closings⟩

/-! ## Commands -/

/-- The command neither opens nor closes nor moves anything. -/
def Command.harmless : Command → Bool
  | .paneGet _ | .paneCurrent | .paneRename _ | .paneRun _ _ | .paneWaitOutput _ => true
  | _ => false

/-- The command closes a tab. -/
def Command.closesTab : Command → Bool
  | .tabClose _ => true
  | _ => false

/-- `h'` has the panes and tabs of `h`. -/
structure Herdr.Same (h h' : Herdr) : Prop where
  viewers : h'.viewers = h.viewers
  tabs : h'.tabs = h.tabs
  unclosed : h'.unclosed = h.unclosed
  opened : h'.opened = h.opened
  closings : h'.closings = h.closings
  refused : h.refused ≤ h'.refused

theorem Herdr.Same.refl (h : Herdr) : h.Same h := ⟨rfl, rfl, rfl, rfl, rfl, Nat.le_refl _⟩

theorem Herdr.same_refuse (h : Herdr) {c : Command} (hc : c.closesTab = false) :
    h.Same (h.refuse c) := by
  cases c <;> first | exact ⟨rfl, rfl, rfl, rfl, rfl, Nat.le_succ _⟩ | cases hc

theorem Herdr.Serves.same {h h' : Herdr} {c : Command} {r : Except Problem Finished}
    (hs : h.Serves c r h') (hc : c.harmless = true) : h.Same h' := by
  have hn : c.closesTab = false := by cases c <;> first | rfl | cases hc
  cases hs with
  | rejected => exact h.same_refuse hn
  | failed => exact h.same_refuse hn
  | closed => cases hc
  | created => cases hc
  | moved => cases hc
  | tabClosed => cases hc
  | _ => exact .refl h

theorem Kept.same {h' : Herdr} (h : Kept n tab w) (hs : w.herdr.Same h') :
    Kept n tab { w with herdr := h' } where
  owned := ⟨by rw [hs.viewers]; exact h.owned.one, by rw [hs.viewers]; exact h.owned.ours⟩
  tidy := by
    intro t ht
    rw [hs.tabs] at ht
    rw [hs.unclosed]
    exact h.tidy t ht
  closings := by rw [hs.closings]; exact h.closings

theorem Herdr.Vacated.subset {h : Herdr} {pane : JsStr} {tabs : List JsStr}
    (hv : h.Vacated pane tabs) : tabs ⊆ h.tabs := by
  rcases hv with rfl | ⟨v, -, -, rfl⟩
  · exact fun _ => id
  · exact List.filter_subset_self _

/-- A command with a result returns it. -/
theorem outcome_result {c : Command} {f : Finished} {v : JsonValue} (hcode : f.code = 0)
    (hc : c.action ≠ js "wait-output") (hv : Herdr.result f = some v) :
    outcome c f = .ok (some v) := by
  unfold Herdr.result at hv
  unfold outcome
  rw [if_neg (not_not.mpr hcode), if_neg hc]
  split at hv
  · cases hv
  · next ht =>
    rw [if_neg ht]
    obtain ⟨j, hj, hv⟩ := Option.bind_eq_some_iff.mp hv
    rw [hj]
    cases j <;> first | exact congrArg Except.ok hv | cases hv

/-- A failed command is an error. -/
theorem outcome_failed {c : Command} {f : Finished} (hcode : f.code ≠ 0)
    (hm : missing c f.stderr = false) : ∃ e, outcome c f = .error e := by
  unfold outcome
  rw [if_pos hcode, hm]
  exact ⟨_, rfl⟩

/-- So is one whose pane or tab is not there, but for a query and a close. -/
theorem outcome_missed {c : Command} {f : Finished} (hcode : f.code ≠ 0)
    (hm : missing c f.stderr = true) :
    outcome c f = .ok none ∨ c.action ≠ js "get" ∧ c.action ≠ js "close" ∧
      ∃ e, outcome c f = .error e := by
  unfold outcome
  rw [if_pos hcode, hm]
  by_cases h1 : c.action = js "get"
  · left
    rw [if_pos (by simp [h1])]
  · by_cases h2 : c.action = js "close"
    · left
      rw [if_pos (by simp [h2])]
    · rw [if_neg (by simp [h1, h2])]
      exact .inr ⟨h1, h2, _, rfl⟩

/-! ## Programs -/

/-- `p` is safe from `w` while the world changes meanwhile. -/
abbrev Task (pre : Op → World → Prop) (p : Async α) (Q : Except Problem α → World → Prop)
    (w : World) : Prop :=
  p.Safe pre (Turn World.now World.Serve World.Meanwhile) Q w

theorem task_herdr {c : Command} {Q : Except Problem (Option JsonValue) → World → Prop}
    (hpre : pre (.exec c) w)
    (h : ∀ w₁ r h', w.Meanwhile w₁ → w₁.herdr.Serves c r h' →
      Q (r.bind (outcome c)) { w₁ with herdr := h' }) : Task pre (herdr c) Q w := by
  refine safe_await rfl hpre ?_
  rintro w₁ r _ hm ⟨h', hs, rfl⟩
  exact h w₁ r h' hm hs

/-- An operation on the files. -/
theorem task_files {o : Op} {k : Except Problem (Ans o) → Async α}
    {Q : Except Problem α → World → Prop} (ho : World.now o = none)
    (hs : ∀ w₁ r w₂, World.Serve w₁ o r w₂ → w₂ = w₁) (hpre : pre o w)
    (h : ∀ w₁ r, w.Meanwhile w₁ → Task pre (k r) Q w₁) : Task pre (.op o k) Q w := by
  refine safe_await ho hpre fun w₁ r w₂ hm h₁ => ?_
  rw [hs w₁ r w₂ h₁]
  exact h w₁ r hm

/-- An operation that is done at once. -/
theorem task_now {o : Op} {k : Except Problem (Ans o) → Async α} {Q : Except Problem α → World → Prop}
    {f : World → Except Problem (Ans o) × World} (h : World.now o = some f) (hpre : pre o w)
    (hk : Task pre (k (f w).1) Q (f w).2) : Task pre (.op o k) Q w :=
  safe_now h hpre hk

/-- The view is read. -/
theorem task_view {k : View → Async α} {Q : Except Problem α → World → Prop} (hpre : pre .view w)
    (hk : Task pre (k w.view) Q w) : Task pre (view >>= k) Q w :=
  task_now rfl hpre hk

/-- A command that is harmless keeps what the view owns. -/
theorem task_harmless {c : Command} {Q : Except Problem (Option JsonValue) → World → Prop}
    (hpre : pre (.exec c) w) (hc : c.harmless = true) (hk : Kept n tab w)
    (h : ∀ r w', Kept n tab w' → w'.view.paneId = w.view.paneId → Q r w') :
    Task pre (herdr c) Q w := by
  refine task_herdr hpre fun w₁ r h' hm hs => ?_
  exact h _ _ ((hk.meanwhile hm).same (hs.same hc)) hm.paneId

/-! ## Closing -/

/-- What `closePane` leaves of the world `w`. -/
structure Closes (tab : Option JsStr) (w : World) (r : Except Problem Unit) (w' : World) : Prop where
  owned : Owned w'
  tidy : Tidy tab w'
  opened : w'.herdr.opened = w.herdr.opened
  closings : w.herdr.closings ≤ w'.herdr.closings
  refused : w.herdr.refused ≤ w'.herdr.refused
  done : w'.herdr.viewers = [] ∨ w.herdr.refused < w'.herdr.refused
  gone : r = .ok () → w'.herdr.viewers = [] ∧ w'.view.paneId = none

theorem Closes.kept {r : Except Problem Unit} {w' : World} (h : Closes tab w r w')
    (hk : Kept n tab w) : Kept n tab w' :=
  ⟨h.owned, h.tidy, hk.closings.trans h.closings⟩

/-- **Closing the pane** leaves no viewer, or its command failed. -/
theorem task_closePane (hpre : ∀ o w, Owned w → Tidy tab w → pre o w) (ho : Owned w)
    (ht : Tidy tab w) : Task pre closePane (Closes tab w) w := by
  refine task_view (hpre _ _ ho ht) ?_
  cases hp : w.view.paneId with
  | none =>
    exact ⟨ho, ht, rfl, Nat.le_refl _, Nat.le_refl _, .inl (ho.empty hp), fun _ => ⟨ho.empty hp, hp⟩⟩
  | some id =>
    -- once the viewer is gone the rest cannot change that
    have hrest : ∀ w₂ : World, w₂.herdr.viewers = [] → Tidy tab w₂ →
        w₂.herdr.opened = w.herdr.opened → w.herdr.closings ≤ w₂.herdr.closings →
        w.herdr.refused ≤ w₂.herdr.refused →
        Task pre (do setPane none; setConnectionFile none; removeCopy) (Closes tab w) w₂ := by
      intro w₂ hv ht₂ hop hcl hre
      refine task_now rfl (hpre _ _ (.of_empty hv) ht₂) ?_
      refine task_now rfl (hpre _ _ (.of_empty hv) ht₂) ?_
      refine task_files rfl (fun _ _ _ h => h) (hpre _ _ (.of_empty hv) ht₂) fun w₃ r hm => ?_
      have hv₃ : w₃.herdr.viewers = [] := by
        have := hm.viewers
        rw [show w₂.herdr.viewers = [] from hv] at this
        exact List.sublist_nil.mp this
      have ht₃ : Tidy tab w₃ := by
        intro t h
        rw [hm.unclosed]
        exact ht₂ t (hm.tabs h)
      exact ⟨.of_empty hv₃, ht₃, hm.opened.trans hop, hcl.trans hm.closings,
        hre.trans hm.refused.ge, .inl hv₃, fun _ => ⟨hv₃, hm.paneId⟩⟩
    refine safe_bind.mpr (safe_map.mpr (task_herdr (hpre _ _ ho ht) fun w₁ r h' hm hs => ?_))
    have hp₁ : w₁.view.paneId = some id := hm.paneId.trans hp
    have ho₁ := ho.meanwhile hm
    have ht₁ := ht.meanwhile hm
    have hours : ∀ v ∈ w₁.herdr.viewers, v.pane = id := fun v hv =>
      (Option.some.inj (hp₁.symm.trans (ho₁.ours v hv))).symm
    -- a command that fails keeps the pane
    have hfail : ∀ e : Problem, Closes tab w (.error e)
        { w₁ with herdr := w₁.herdr.refuse (.paneClose id) } := by
      intro e
      refine ⟨⟨ho₁.one, ho₁.ours⟩, ht₁, hm.opened, hm.closings, ?_, .inr ?_, nofun⟩
      · exact hm.refused.ge.trans (Nat.le_succ _)
      · exact Nat.lt_succ_of_le hm.refused.ge
    -- one that succeeds leaves no viewer, whatever its output is
    have hgone : ∀ h₂ : Herdr, h₂.viewers = [] → h₂.tabs ⊆ w₁.herdr.tabs →
        h₂.unclosed = w₁.herdr.unclosed → h₂.opened = w₁.herdr.opened →
        h₂.closings = w₁.herdr.closings → h₂.refused = w₁.herdr.refused →
        Task pre (do setPane none; setConnectionFile none; removeCopy) (Closes tab w)
            { w₁ with herdr := h₂ } ∧
          ∀ e, Closes tab w (.error e) { w₁ with herdr := h₂ } := by
      intro h₂ hv htabs hun hop hcl hre
      have ht₂ : Tidy tab { w₁ with herdr := h₂ } := by
        intro t h
        change _ ∨ t ∈ h₂.unclosed
        rw [hun]
        exact ht₁ t (htabs h)
      have hcl₂ : w.herdr.closings ≤ h₂.closings := hm.closings.trans hcl.ge
      have hre₂ : w.herdr.refused ≤ h₂.refused := (hre.trans hm.refused).ge
      exact ⟨hrest _ hv ht₂ (hop.trans hm.opened) hcl₂ hre₂,
        fun _ => ⟨.of_empty hv, ht₂, hop.trans hm.opened, hcl₂, hre₂, .inl hv, nofun⟩⟩
    cases hs with
    | rejected _ e => exact hfail e
    | failed _ f hcode hmiss =>
      obtain ⟨e, he⟩ := outcome_failed (c := .paneClose id) hcode hmiss
      rw [show (Except.ok f).bind (outcome (.paneClose id)) = .error e from he]
      exact hfail e
    | missed _ f hcode hmiss hno =>
      have hv : w₁.herdr.viewers = [] :=
        List.eq_nil_iff_forall_not_mem.mpr fun v hv => hno v hv (hours v hv)
      obtain ⟨hok, herr⟩ := hgone w₁.herdr hv (List.Subset.refl _) rfl rfl rfl rfl
      generalize (Except.ok f).bind (outcome (.paneClose id)) = x
      cases x with
      | ok _ => exact hok
      | error e => exact herr e
    | closed _ f tabs hex hcode htabs =>
      have hv : w₁.herdr.viewers.filter (·.pane ≠ id) = [] :=
        List.filter_eq_nil_iff.mpr fun v hv => by simpa using hours v hv
      obtain ⟨hok, herr⟩ := hgone { w₁.herdr with viewers := _, tabs := tabs } hv htabs.subset
        rfl rfl rfl rfl
      generalize (Except.ok f).bind (outcome (.paneClose id)) = x
      cases x with
      | ok _ => exact hok
      | error e => exact herr e

/-! ## Opening -/

/-- Nothing is asked of the world where an operation starts. -/
abbrev free : Op → World → Prop := fun _ _ => True

/-- A harmless command whose result is not used, and what comes after it. -/
theorem task_then {c : Command} {p : Async Unit} (hc : c.harmless = true) (hk : Kept n tab w)
    (h : ∀ w', Kept n tab w' → w'.view.paneId = w.view.paneId →
      Task free p (fun _ w' => Kept n tab w') w') :
    Task free (awaitHerdr c >>= fun _ => p) (fun _ w' => Kept n tab w') w := by
  refine safe_bind.mpr (safe_map.mpr (task_harmless trivial hc hk ?_))
  rintro (e | _) w' hk' hp
  · exact hk'
  · exact h w' hk' hp

/-- **The viewer while it is launched**: its pane is the one that the view knows, also when it gets
another id. -/
theorem task_launch {staging : Option JsonValue} {target : Target} {line connectionFile pane : JsStr}
    (hpane : createdTabPane staging = some pane) (hone : w.herdr.viewers.length ≤ 1)
    (hours : ∀ v ∈ w.herdr.viewers, v.pane = pane) (ht : Tidy tab w) (hn : n ≤ w.herdr.closings) :
    Task free (launch staging target line connectionFile) (fun _ w' => Kept n tab w') w := by
  unfold launch
  rw [hpane]
  refine task_now rfl trivial ?_
  have hk : Kept n tab { w with view := { w.view with paneId := some pane } } :=
    ⟨⟨hone, fun v hv => congrArg some (hours v hv).symm⟩, ht, hn⟩
  refine task_then rfl hk fun w₁ hk₁ hp₁ => ?_
  refine task_then rfl hk₁ fun w₂ hk₂ hp₂ => ?_
  refine task_then rfl hk₂ fun w₃ hk₃ hp₃ => ?_
  have hp : w₃.view.paneId = some pane := hp₃.trans (hp₂.trans hp₁)
  refine task_now rfl trivial ?_
  change Task free (if w₃.view.disposed = true then _ else _) _ w₃
  split
  · exact hk₃
  refine safe_bind.mpr (task_herdr trivial fun w₄ r h' hm hs => ?_)
  have hk₄ := hk₃.meanwhile hm
  have hours₄ : ∀ v ∈ w₄.herdr.viewers, v.pane = pane := fun v hv =>
    (Option.some.inj ((hm.paneId.trans hp).symm.trans (hk₄.owned.ours v hv))).symm
  have hrefuse : Kept n tab { w₄ with herdr := w₄.herdr.refuse (.paneMove pane target) } :=
    hk₄.same (w₄.herdr.same_refuse rfl)
  cases hs with
  | rejected _ e => exact hrefuse
  | failed _ f hcode hmiss =>
    obtain ⟨e, he⟩ := outcome_failed (c := .paneMove pane target) hcode hmiss
    rw [show (Except.ok f).bind (outcome (.paneMove pane target)) = .error e from he]
    exact hrefuse
  | missed _ f hcode hmiss hno =>
    rcases outcome_missed (c := .paneMove pane target) hcode hmiss with he | ⟨-, -, e, he⟩
    · rw [show (Except.ok f).bind (outcome (.paneMove pane target)) = .ok none from he]
      exact hk₄
    · rw [show (Except.ok f).bind (outcome (.paneMove pane target)) = .error e from he]
      exact hk₄
  | moved _ _ f pane' tabs hex hcode hpane' hfresh htabs =>
    obtain ⟨v, hv⟩ : ∃ v, Herdr.result f = some v := by
      cases hr : Herdr.result f with
      | some v => exact ⟨v, rfl⟩
      | none => rw [hr] at hpane'; cases hpane'
    have he := outcome_result (c := .paneMove pane target) hcode (show js "move" ≠ js "wait-output" by decide)
      hv
    rw [← hv] at he
    rw [show (Except.ok f).bind (outcome (.paneMove pane target)) = .ok (Herdr.result f) from he]
    dsimp only
    rw [hpane']
    refine task_now rfl trivial (task_now rfl trivial ?_)
    refine ⟨⟨?_, fun v hv => ?_⟩, fun t h => hk₄.tidy t (htabs.subset h), hk₄.closings⟩
    · exact (List.length_map _).trans_le hk₄.owned.one
    · obtain ⟨u, hu, rfl⟩ := List.mem_map.mp hv
      change some pane' = some (if u.pane = pane then (⟨pane', none⟩ : Viewer) else u).pane
      rw [if_pos (hours₄ u hu)]

/-- The staging tab is closed, or its command failed. -/
theorem task_tabClose {t : JsStr} (hk : Kept n (some t) w) :
    Task free (awaitHerdr (.tabClose t)) (fun _ w' => Kept n none w') w := by
  refine safe_map.mpr (task_herdr trivial fun w₁ r h' hm hs => ?_)
  have hk₁ := hk.meanwhile hm
  have hend : Kept n none { w₁ with herdr := h' } := by
    cases hs with
    | rejected _ e =>
      exact ⟨⟨hk₁.owned.one, hk₁.owned.ours⟩, fun u hu => .inr <|
        (hk₁.tidy u hu).elim (fun h => List.mem_cons.mpr (.inl (Option.some.inj h).symm))
          (List.mem_cons_of_mem _), hk₁.closings⟩
    | failed _ f hcode hmiss =>
      exact ⟨⟨hk₁.owned.one, hk₁.owned.ours⟩, fun u hu => .inr <|
        (hk₁.tidy u hu).elim (fun h => List.mem_cons.mpr (.inl (Option.some.inj h).symm))
          (List.mem_cons_of_mem _), hk₁.closings⟩
    | missed _ f hcode hmiss hno =>
      refine ⟨hk₁.owned, fun u hu => .inr ((hk₁.tidy u hu).resolve_left ?_), hk₁.closings⟩
      rintro ⟨⟩
      exact hno hu
    | tabClosed _ f hmem hcode =>
      refine ⟨⟨(List.length_filter_le _ _).trans hk₁.owned.one,
        fun v hv => hk₁.owned.ours v (List.mem_of_mem_filter hv)⟩, fun u hu => .inr ?_,
        hk₁.closings⟩
      obtain ⟨hu, hne⟩ := List.mem_filter.mp hu
      refine (hk₁.tidy u hu).resolve_left ?_
      rintro ⟨⟩
      simp at hne
  generalize r.bind (outcome (.tabClose t)) = x
  cases x with
  | ok _ => exact hend
  | error e => exact hend

/-- **Opening** a pane when the view has none. -/
theorem task_openPane (jupyterDataDir cwd connectionFile : JsStr) (hk : Kept n none w)
    (hp : w.view.paneId = none) :
    Task free (openPane jupyterDataDir cwd connectionFile) (fun _ w' => Kept n none w') w := by
  unfold openPane
  refine safe_bind.mpr (task_files rfl (fun _ _ _ h => h) trivial fun w₁ r hm₁ => ?_)
  have hk₁ := hk.meanwhile hm₁
  cases r with
  | error e => exact hk₁
  | ok transcript =>
  refine safe_bind.mpr (task_files rfl (fun _ _ _ h => h) trivial fun w₂ r hm₂ => ?_)
  have hk₂ := hk₁.meanwhile hm₂
  cases r with
  | error e => exact hk₂
  | ok connectionCopy =>
  refine safe_bind.mpr (task_harmless trivial rfl hk₂ ?_)
  rintro (e | current) w₃ hk₃ hp₃
  · exact hk₃
  dsimp only
  cases currentPane current with
  | none => exact hk₃
  | some target =>
  refine safe_bind.mpr (task_herdr trivial fun w₄ r h' hm₄ hs => ?_)
  have hk₄ := hk₃.meanwhile hm₄
  have hempty : w₄.herdr.viewers = [] :=
    hk₄.owned.empty (hm₄.paneId.trans (hp₃.trans (hm₂.paneId.trans (hm₁.paneId.trans hp))))
  have hrefuse : Kept n none { w₄ with
      herdr := w₄.herdr.refuse (.tabCreate target.workspaceId cwd) } :=
    hk₄.same (w₄.herdr.same_refuse rfl)
  cases hs with
  | rejected _ e => exact hrefuse
  | failed _ f hcode hmiss =>
    obtain ⟨e, he⟩ := outcome_failed (c := .tabCreate target.workspaceId cwd) hcode hmiss
    rw [show (Except.ok f).bind (outcome (.tabCreate target.workspaceId cwd)) = .error e from he]
    exact hrefuse
  | missed _ f hcode hmiss hno =>
    rcases outcome_missed (c := .tabCreate target.workspaceId cwd) hcode hmiss with
      he | ⟨-, -, e, he⟩
    · rw [show (Except.ok f).bind (outcome (.tabCreate target.workspaceId cwd)) = .ok none from he]
      exact hk₄
    · rw [show (Except.ok f).bind (outcome (.tabCreate target.workspaceId cwd)) = .error e from he]
      exact hk₄
  | created _ _ f t pane hcode ht hpane hnew hfresh =>
    obtain ⟨v, hv⟩ : ∃ v, Herdr.result f = some v := by
      cases hr : Herdr.result f with
      | some v => exact ⟨v, rfl⟩
      | none => rw [hr] at hpane; cases hpane
    have he := outcome_result (c := .tabCreate target.workspaceId cwd) hcode
      (show js "create" ≠ js "wait-output" by decide) hv
    rw [← hv] at he
    rw [show (Except.ok f).bind (outcome (.tabCreate target.workspaceId cwd)) =
      .ok (Herdr.result f) from he]
    dsimp only
    rw [ht]
    have htidy : Tidy (some t) { w₄ with herdr := { w₄.herdr with
        viewers := ⟨pane, some t⟩ :: w₄.herdr.viewers
        tabs := t :: w₄.herdr.tabs
        unclosed := w₄.herdr.unclosed.filter (· ≠ t)
        opened := w₄.herdr.opened + 1 } } := by
      intro u hu
      rcases List.mem_cons.mp hu with rfl | hmem
      · exact .inl rfl
      · refine .inr (List.mem_filter.mpr ⟨(hk₄.tidy u hmem).resolve_left nofun, ?_⟩)
        have hne : u ≠ t := by rintro rfl; exact hnew hmem
        simpa using hne
    refine safe_ensure.mpr (safe_attempt.mpr ((task_launch hpane ?_ ?_ htidy hk₄.closings).mono ?_))
    · rw [hempty]
      exact Nat.le_refl _
    · rw [hempty]
      intro v hv
      rw [List.mem_singleton.mp hv]
    rintro (e | _) w' hk'
    · -- what `closePane` throws is dropped
      refine safe_bind.mpr (safe_attempt.mpr
        ((task_closePane (fun _ _ _ _ => trivial) hk'.owned hk'.tidy).mono ?_))
      rintro (e' | _) w'' hc
      · refine (task_tabClose (hc.kept hk')).mono ?_
        rintro (_ | _) w₅ h <;> exact h
      · refine (task_tabClose (hc.kept hk')).mono ?_
        rintro (_ | _) w₅ h <;> exact h
    · refine (task_tabClose hk').mono ?_
      rintro (_ | _) w₅ h <;> exact h

/-! ## A toggle -/

/-- A toggle found its viewer closed, and opened none, unless the user closed something. -/
def Hides (w : World) (r : Except Problem Unit) (w' : World) : Prop :=
  w'.herdr.closings = w.herdr.closings → w'.herdr.opened = w.herdr.opened ∧
    (w'.herdr.viewers = [] ∨ w.herdr.refused < w'.herdr.refused ∨ r = .error outsideHerdr ∨
      ∃ failure, r = .error (historyUnavailable failure))

/-- A viewer is open that was opened for the connection file. -/
structure Shows (w : World) (connectionFile : JsStr) : Prop where
  disposed : w.view.disposed = false
  connectionFile : w.view.connectionFile = some connectionFile
  viewers : w.herdr.viewers ≠ []

/-- Where a toggle that is called in the world `w` ends. -/
structure Toggled (w : World) (connectionFile : JsStr) (r : Except Problem Unit) (w' : World) :
    Prop where
  kept : Kept w.herdr.closings none w'
  hides : Shows w connectionFile → Hides w r w'

theorem Toggled.meanwhile {file : JsStr} {r : Except Problem Unit} (h : Toggled w file r w₁)
    (hm : w₁.Meanwhile w₂) : Toggled w file r w₂ where
  kept := h.kept.meanwhile hm
  hides := fun hs hc => by
    have h1 := h.kept.closings
    have h2 := hm.closings
    have hc₁ : w₁.herdr.closings = w.herdr.closings := by omega
    rw [hm.opened, hm.refused, hm.kept (by omega)]
    exact h.hides hs hc₁

/-- **A toggle** leaves the view with its pane, and closes a viewer of the same connection. -/
theorem task_togglePane (jupyterDataDir cwd connectionFile : JsStr) (ho : Owned w)
    (ht : Tidy none w) :
    Task free (togglePane jupyterDataDir cwd connectionFile) (Toggled w connectionFile) w := by
  have hk : Kept w.herdr.closings none w := ⟨ho, ht, Nat.le_refl _⟩
  refine task_now rfl trivial ?_
  change Task free (if w.view.disposed = true then _ else _) _ w
  split
  · next hd => exact ⟨hk, fun hs => by rw [hs.disposed] at hd; cases hd⟩
  refine safe_bind.mpr (safe_await rfl trivial ?_)
  rintro _ _ w₁ hm₁ ⟨⟨inHerdr, rfl⟩, rfl⟩
  have hk₁ := hk.meanwhile hm₁
  change Task free (if (!inHerdr) = true then _ else _) _ w₁
  split
  · exact ⟨hk₁, fun _ _ => ⟨hm₁.opened, .inr (.inr (.inl rfl))⟩⟩
  split
  · exact ⟨hk₁, fun _ _ => ⟨hm₁.opened, .inr (.inr (.inr ⟨_, rfl⟩))⟩⟩
  split
  · next hp =>
    refine (task_openPane jupyterDataDir cwd connectionFile hk₁ (hm₁.paneId.trans hp)).mono ?_
    exact fun r w' hk' => ⟨hk', fun hs => absurd (ho.empty hp) hs.viewers⟩
  next id hp =>
  refine safe_bind.mpr (task_herdr trivial fun w₂ r h' hm₂ hs => ?_)
  have hm := hm₁.trans hm₂
  have hk₂ := hk.meanwhile hm
  have hrefuse : ∀ e, Toggled w connectionFile (.error e)
      { w₂ with herdr := w₂.herdr.refuse (.paneGet id) } := fun e =>
    ⟨hk₂.same (w₂.herdr.same_refuse rfl), fun _ _ => ⟨hm.opened,
      .inr (.inl (Nat.lt_succ_of_le hm.refused.ge))⟩⟩
  -- the rest, when the pane was found or is gone
  have hrest : ∀ existing, truthy existing = true ∨ w₂.herdr.viewers = [] →
      Task free (do
        let v ← view
        let sameConnection := some connectionFile = v.connectionFile
        closePane
        if truthy existing ∧ sameConnection then pure ()
        else openPane jupyterDataDir cwd connectionFile) (Toggled w connectionFile) w₂ := by
    intro existing hex
    refine task_now rfl trivial ?_
    change Task free (closePane >>= fun _ =>
      if truthy existing = true ∧ some connectionFile = w₂.view.connectionFile then pure ()
      else openPane jupyterDataDir cwd connectionFile) _ w₂
    refine safe_bind.mpr ((task_closePane (fun _ _ _ _ => trivial) hk₂.owned hk₂.tidy).mono ?_)
    rintro (e | _) w₃ hc
    · exact ⟨hc.kept hk₂, fun _ _ => ⟨hc.opened.trans hm.opened,
        hc.done.imp_right fun h => .inl (hm.refused.ge.trans_lt h)⟩⟩
    obtain ⟨hv, hp₃⟩ := hc.gone rfl
    change Task free (if _ then _ else _) _ w₃
    split
    · exact ⟨hc.kept hk₂, fun _ _ => ⟨hc.opened.trans hm.opened, .inl hv⟩⟩
    · next hne =>
      have hk₃ : Kept w₂.herdr.closings none w₃ := ⟨hc.owned, hc.tidy, hc.closings⟩
      refine (task_openPane jupyterDataDir cwd connectionFile hk₃ hp₃).mono fun r w' hk' => ?_
      refine ⟨⟨hk'.owned, hk'.tidy, hm.closings.trans hk'.closings⟩, fun hs hcl => absurd ?_ hne⟩
      -- the user closed nothing, so the viewer was found
      have h1 := hk'.closings
      have h2 := hm.closings
      refine ⟨hex.resolve_right fun hnil => hs.viewers ?_,
        (hm.connectionFile.trans hs.connectionFile).symm⟩
      exact (hm.kept (by omega)).symm.trans hnil
  cases hs with
  | rejected _ e => exact hrefuse e
  | failed _ f hcode hmiss =>
    obtain ⟨e, he⟩ := outcome_failed (c := .paneGet id) hcode hmiss
    rw [show (Except.ok f).bind (outcome (.paneGet id)) = .error e from he]
    exact hrefuse e
  | missed _ f hcode hmiss hno =>
    have hv : w₂.herdr.viewers = [] := by
      refine List.eq_nil_iff_forall_not_mem.mpr fun v hv => hno v hv ?_
      exact (Option.some.inj ((hm.paneId.trans hp).symm.trans (hk₂.owned.ours v hv))).symm
    rcases outcome_missed (c := .paneGet id) hcode hmiss with he | ⟨h, -⟩
    · rw [show (Except.ok f).bind (outcome (.paneGet id)) = .ok none from he]
      exact hrest none (.inr hv)
    · exact absurd rfl h
  | got _ f fs hex hcode hres =>
    have he := outcome_result (c := .paneGet id) hcode
      (show js "get" ≠ js "wait-output" by decide) hres
    rw [show (Except.ok f).bind (outcome (.paneGet id)) = .ok (some (.obj fs)) from he]
    exact hrest _ (.inl rfl)

/-! ## Runs -/

/-- What holds between two toggles. -/
structure Quiet (w : World) : Prop where
  owned : Owned w
  tidy : Tidy none w

theorem Quiet.meanwhile (h : Quiet w) (hm : w.Meanwhile w₁) : Quiet w₁ :=
  ⟨h.owned.meanwhile hm, h.tidy.meanwhile hm⟩

/-- It holds where an operation starts. -/
abbrev quietly : Op → World → Prop := fun _ w => Quiet w

/-- **What a shutdown leaves**: no viewer, unless a command failed since there were `n`. -/
structure Closed (n : Nat) (w : World) : Prop where
  quiet : Quiet w
  gone : w.herdr.refused = n → w.herdr.viewers = []

theorem Closed.meanwhile (h : Closed n w) (hm : w.Meanwhile w₁) : Closed n w₁ where
  quiet := h.quiet.meanwhile hm
  gone := fun hr => by
    have hv := hm.viewers
    rw [h.gone (hm.refused.symm.trans hr)] at hv
    exact List.sublist_nil.mp hv

theorem task_shutdownPane (h : Quiet w) :
    Task quietly shutdownPane (fun _ w' => Closed w.herdr.refused w') w := by
  refine safe_ensure.mpr ((task_closePane (fun _ _ => Quiet.mk) h.owned h.tidy).mono ?_)
  intro r w₁ hc
  have hclosed : Closed w.herdr.refused w₁ :=
    ⟨⟨hc.owned, hc.tidy⟩, fun hr => hc.done.resolve_right (by omega)⟩
  refine task_files rfl (fun _ _ _ h => h) hclosed.quiet fun w₂ r' hm => ?_
  cases r' with
  | ok _ => exact hclosed.meanwhile hm
  | error e => exact hclosed.meanwhile hm

/-- No toggle does anything. -/
def Idle (toggling : Option (Async Unit)) : Prop := ∀ p, toggling = some p → ∃ r, p = .done r

/-- The toggle in flight ends as `Q` says. -/
def InFlight (Q : Except Problem Unit → World → Prop) (p : Async Unit) (w : World) : Prop :=
  Waits World.now p ∧ Task free p Q w

theorem InFlight.meanwhile {Q : Except Problem Unit → World → Prop} {p : Async Unit}
    (h : InFlight Q p w) (hQ : ∀ r w w', Q r w → w.Meanwhile w' → Q r w') (hm : w.Meanwhile w₁) :
    InFlight Q p w₁ :=
  have htrans : ∀ a b c : World, a.Meanwhile b → b.Meanwhile c → a.Meanwhile c :=
    fun _ _ _ => World.Meanwhile.trans
  ⟨h.1, h.2.disturbed htrans h.1 (fun _ _ _ _ _ => trivial) hQ hm⟩

theorem InFlight.serve {Q : Except Problem Unit → World → Prop} {o : Op}
    {k : Except Problem (Ans o) → Async Unit} (h : InFlight Q (.op o k) w)
    {r : Except Problem (Ans o)} (hs : w.Serve o r w₁) :
    InFlight Q ((k r).advance World.now w₁).1 ((k r).advance World.now w₁).2 :=
  ⟨waits_advance _ _, h.2.served World.Meanwhile.refl h.1 hs⟩

theorem inFlight_toggle (jupyterDataDir cwd file : JsStr) (h : Quiet w) :
    InFlight (Toggled w file) ((togglePane jupyterDataDir cwd file).advance World.now w).1
      ((togglePane jupyterDataDir cwd file).advance World.now w).2 :=
  ⟨waits_advance _ _, (task_togglePane jupyterDataDir cwd file h.owned h.tidy).advance⟩

/-- A toggle of a disposed view returns at once. -/
theorem advance_togglePane (jupyterDataDir cwd file : JsStr) (hd : w.view.disposed = true) :
    (togglePane jupyterDataDir cwd file).advance World.now w = (.done (.ok ()), w) := by
  change (if w.view.disposed = true then (pure () : Async Unit) else _).advance World.now w = _
  rw [if_pos hd]
  rfl

/-- What is done at once does not concern the disposal. -/
theorem disposed_advance (p : Async α) (w : World) :
    (p.advance World.now w).2.view.disposed = w.view.disposed := by
  induction p generalizing w with
  | done r => rfl
  | op o k ih =>
    cases o with
    | view => exact ih _ _
    | setPane id => exact ih _ { w with view := { w.view with paneId := id } }
    | setConnectionFile file => exact ih _ { w with view := { w.view with connectionFile := file } }
    | _ => rfl

theorem World.Serve.view {o : Op} {r : Except Problem (Ans o)} (h : w.Serve o r w₁) :
    w₁.view = w.view := by
  cases o with
  | exec c =>
    obtain ⟨h', -, rfl⟩ := h
    rfl
  | herdrEnv => rw [h.2]
  | _ => rw [show w₁ = w from h]

namespace State

/-- **The invariant of a run.** -/
def Owning (s : State) : Prop :=
  match s.shutdown with
  | .notCalled => (s.toggling = none → Quiet s.world) ∧
      ∀ p, s.toggling = some p → InFlight (fun _ => Quiet) p s.world
  | .waiting => s.world.view.disposed = true ∧
      ∃ p, s.toggling = some p ∧ InFlight (fun _ => Quiet) p s.world
  | .closing n q => s.world.view.disposed = true ∧ Idle s.toggling ∧ Waits World.now q ∧
      Task quietly q (fun _ => Closed n) s.world
  | .settled n => s.world.view.disposed = true ∧ Idle s.toggling ∧ Closed n s.world

variable {s t : State} {jupyterDataDir : JsStr}

theorem owning_start : start.Owning :=
  ⟨fun _ => ⟨.of_empty rfl, fun _ h => absurd h List.not_mem_nil⟩, nofun⟩

/-- Between two toggles the view owns its pane, also while the shutdown closes it. -/
theorem Owning.quiet (h : s.Owning) (ht : s.toggling = none) : Quiet s.world := by
  unfold Owning at h
  split at h
  · exact h.1 ht
  · obtain ⟨-, p, hp, -⟩ := h
    rw [ht] at hp
    cases hp
  · next n q _ =>
    obtain ⟨-, -, hq, hsafe⟩ := h
    cases q with
    | done r => exact hsafe.quiet
    | op o k => exact hsafe.1
  · exact h.2.2.quiet

/-- What happens meanwhile keeps the invariant. -/
theorem Owning.meanwhile {w : World} (h : s.Owning) (hm : s.world.Meanwhile w) :
    Owning { s with world := w } := by
  have htrans : ∀ a b c : World, a.Meanwhile b → b.Meanwhile c → a.Meanwhile c :=
    fun _ _ _ => World.Meanwhile.trans
  have hQ : ∀ (r : Except Problem Unit) (w w' : World), Quiet w → w.Meanwhile w' → Quiet w' :=
    fun _ _ _ hq hm => hq.meanwhile hm
  unfold Owning at h ⊢
  split at h
  · next he =>
    simp only [he]
    exact ⟨fun ht => (h.1 ht).meanwhile hm, fun p hp => (h.2 p hp).meanwhile hQ hm⟩
  · next he =>
    simp only [he]
    obtain ⟨hd, p, hp, hf⟩ := h
    exact ⟨hm.disposed hd, p, hp, hf.meanwhile hQ hm⟩
  · next n q he =>
    simp only [he]
    obtain ⟨hd, hi, hq, hsafe⟩ := h
    exact ⟨hm.disposed hd, hi, hq, hsafe.disturbed htrans hq (fun _ _ _ hq hm => hq.meanwhile hm)
      (fun _ _ _ hc hm => hc.meanwhile hm) hm⟩
  · next n he =>
    simp only [he]
    exact ⟨hm.disposed h.1, h.2.1, h.2.2.meanwhile hm⟩

theorem meanwhile_dispose (s : State) : s.world.Meanwhile s.dispose.world :=
  ⟨rfl, rfl, fun _ => rfl, .refl _, List.Subset.refl _, rfl, rfl, rfl, Nat.le_refl _, fun _ => rfl⟩

theorem meanwhile_historyFails (w : World) (failure : JsStr) :
    w.Meanwhile { w with view := { w.view with failure := some failure } } :=
  ⟨rfl, rfl, id, .refl _, List.Subset.refl _, rfl, rfl, rfl, Nat.le_refl _, fun _ => rfl⟩

theorem meanwhile_userCloses {w : World} {viewers : List Viewer} {tabs : List JsStr}
    (hv : viewers.Sublist w.herdr.viewers) (ht : tabs ⊆ w.herdr.tabs) :
    w.Meanwhile { w with herdr := { w.herdr with
      viewers := viewers, tabs := tabs, closings := w.herdr.closings + 1 } } :=
  ⟨rfl, rfl, id, hv, ht, rfl, rfl, rfl, Nat.le_succ _, fun h => absurd h (Nat.succ_ne_self _)⟩

/-- The shutdown begins to close. -/
theorem owning_close (hd : s.world.view.disposed = true) (ht : s.toggling = none)
    (hq : Quiet s.world) : s.close.Owning := by
  refine ⟨(disposed_advance _ _).trans hd, fun p hp => ?_, waits_advance _ _,
    (task_shutdownPane hq).advance⟩
  rw [show s.close.toggling = s.toggling from rfl, ht] at hp
  cases hp

/-- **Each step keeps the invariant.** -/
theorem Owning.step (h : s.Owning) (hs : Step jupyterDataDir s t) : t.Owning := by
  cases hs with
  | toggle cwd file ht =>
    have hq := h.quiet ht
    unfold Owning at h ⊢
    unfold toggleOn
    split at h
    · next he =>
      simp only [he]
      refine ⟨nofun, fun p hp => ?_⟩
      cases hp
      obtain ⟨hw, hsafe⟩ := inFlight_toggle jupyterDataDir cwd file hq
      exact ⟨hw, hsafe.mono fun _ _ hto => ⟨hto.kept.owned, hto.kept.tidy⟩⟩
    · next he =>
      obtain ⟨-, p, hp, -⟩ := h
      rw [ht] at hp
      cases hp
    · next n q he =>
      simp only [he]
      rw [advance_togglePane jupyterDataDir cwd file h.1]
      exact ⟨h.1, fun p hp => ⟨_, (Option.some.inj hp).symm⟩, h.2.2⟩
    · next n he =>
      simp only [he]
      rw [advance_togglePane jupyterDataDir cwd file h.1]
      exact ⟨h.1, fun p hp => ⟨_, (Option.some.inj hp).symm⟩, h.2.2⟩
  | serve ht hserve =>
    unfold Owning at h ⊢
    unfold toggleOn
    split at h
    · next he =>
      simp only [he]
      refine ⟨nofun, fun p hp => ?_⟩
      cases hp
      exact (h.2 _ ht).serve hserve
    · next he =>
      simp only [he]
      obtain ⟨hd, p, hp, hf⟩ := h
      obtain rfl := Option.some.inj (ht.symm.trans hp)
      exact ⟨(disposed_advance _ _).trans ((congrArg View.disposed hserve.view).trans hd), _, rfl,
        hf.serve hserve⟩
    · obtain ⟨r, hr⟩ := h.2.1 _ ht
      cases hr
    · obtain ⟨r, hr⟩ := h.2.1 _ ht
      cases hr
  | settle ht =>
    unfold settle
    unfold Owning at h
    split at h
    · next he =>
      rw [he]
      exact ⟨fun _ => (h.2 _ ht).2, nofun⟩
    · next he =>
      rw [he]
      obtain ⟨hd, p, hp, hf⟩ := h
      obtain rfl := Option.some.inj (ht.symm.trans hp)
      exact owning_close (s := { s with toggling := none }) hd rfl hf.2
    · next n q he =>
      rw [he]
      exact ⟨h.1, nofun, h.2.2⟩
    · next n he =>
      rw [he]
      exact ⟨h.1, nofun, h.2.2⟩
  | shutdown he ht =>
    exact owning_close (s := s.dispose) rfl ht ⟨⟨(h.quiet ht).owned.one, (h.quiet ht).owned.ours⟩,
      (h.quiet ht).tidy⟩
  | shutdownLater he ht =>
    have h' := h.meanwhile s.meanwhile_dispose
    unfold Owning at h'
    simp only [he] at h'
    obtain ⟨p, hp⟩ := Option.ne_none_iff_exists'.mp ht
    exact ⟨rfl, p, hp, h'.2 p hp⟩
  | serveShutdown he hserve =>
    unfold Owning at h
    rw [he] at h
    obtain ⟨hd, hi, hq, hsafe⟩ := h
    exact ⟨(disposed_advance _ _).trans ((congrArg View.disposed hserve.view).trans hd), hi,
      waits_advance _ _, hsafe.served World.Meanwhile.refl hq hserve⟩
  | settleShutdown he =>
    unfold Owning at h
    rw [he] at h
    exact ⟨h.1, h.2.1, h.2.2.2⟩
  | userCloses viewers tabs hv htabs => exact h.meanwhile (meanwhile_userCloses hv htabs)
  | historyFails failure => exact h.meanwhile (meanwhile_historyFails _ failure)

theorem Owning.run (h : s.Owning) (hr : Relation.ReflTransGen (Step jupyterDataDir) s t) :
    t.Owning := by
  induction hr with
  | refl => exact h
  | tail _ hs ih => exact ih.step hs

/-! ## The toggle in flight -/

/-- A step up to the end of the toggle in flight. -/
def Ongoing (jupyterDataDir : JsStr) (s t : State) : Prop :=
  Step jupyterDataDir s t ∧ t.toggling ≠ none

/-- **The toggle in flight** goes on whatever happens beside it. -/
theorem Ongoing.inFlight {Q : Except Problem Unit → World → Prop}
    (hQ : ∀ r w w', Q r w → w.Meanwhile w' → Q r w')
    (h : ∃ p, s.toggling = some p ∧ InFlight Q p s.world)
    (hn : s.shutdown = .notCalled ∨ s.shutdown = .waiting)
    (hr : Relation.ReflTransGen (Ongoing jupyterDataDir) s t) :
    (∃ p, t.toggling = some p ∧ InFlight Q p t.world) ∧
      (t.shutdown = .notCalled ∨ t.shutdown = .waiting) := by
  induction hr with
  | refl => exact ⟨h, hn⟩
  | tail _ hs ih =>
    obtain ⟨⟨p, hp, hf⟩, hn⟩ := ih
    obtain ⟨hs, hne⟩ := hs
    cases hs with
    | toggle cwd file ht =>
      rw [ht] at hp
      cases hp
    | serve ht hserve =>
      obtain rfl := Option.some.inj (ht.symm.trans hp)
      exact ⟨⟨_, rfl, hf.serve hserve⟩, hn⟩
    | settle ht =>
      refine absurd ?_ hne
      unfold settle
      split <;> rfl
    | shutdown he ht =>
      rw [ht] at hp
      cases hp
    | shutdownLater he ht => exact ⟨⟨p, hp, hf.meanwhile hQ (meanwhile_dispose _)⟩, .inr rfl⟩
    | serveShutdown he hserve =>
      rcases hn with hn | hn <;> rw [he] at hn <;> cases hn
    | settleShutdown he =>
      rcases hn with hn | hn <;> rw [he] at hn <;> cases hn
    | userCloses viewers tabs hv htabs =>
      exact ⟨⟨p, hp, hf.meanwhile hQ (meanwhile_userCloses hv htabs)⟩, hn⟩
    | historyFails failure =>
      exact ⟨⟨p, hp, hf.meanwhile hQ (meanwhile_historyFails _ failure)⟩, hn⟩

/-- A view that is not disposed has not been shut down. -/
theorem Owning.notCalled (h : s.Owning) (hd : s.world.view.disposed = false) :
    s.shutdown = .notCalled := by
  unfold Owning at h
  split at h
  · next he => exact he
  · rw [h.1] at hd
    cases hd
  · rw [h.1] at hd
    cases hd
  · rw [h.1] at hd
    cases hd

/-- **A toggle with the connection file of the open viewer** closes it and opens no other. -/
theorem Owning.hides {file cwd : JsStr} {r : Except Problem Unit} (h : s.Owning)
    (ht : s.toggling = none) (hshow : Shows s.world file)
    (hr : Relation.ReflTransGen (Ongoing jupyterDataDir)
      (s.toggleOn (togglePane jupyterDataDir cwd file) s.world) t)
    (hend : t.toggling = some (.done r)) : Hides s.world r t.world := by
  have hstart : ∃ p, (s.toggleOn (togglePane jupyterDataDir cwd file) s.world).toggling = some p ∧
      InFlight (Toggled s.world file) p
        (s.toggleOn (togglePane jupyterDataDir cwd file) s.world).world :=
    ⟨_, rfl, inFlight_toggle jupyterDataDir cwd file (h.quiet ht)⟩
  have hn : (s.toggleOn (togglePane jupyterDataDir cwd file) s.world).shutdown = .notCalled :=
    h.notCalled hshow.disposed
  have hQ : ∀ (r : Except Problem Unit) (w w' : World), Toggled s.world file r w →
      w.Meanwhile w' → Toggled s.world file r w' := fun _ _ _ => Toggled.meanwhile
  obtain ⟨⟨p, hp, hf⟩, -⟩ := Ongoing.inFlight hQ hstart (.inl hn) hr
  obtain rfl := Option.some.inj (hend.symm.trans hp)
  exact hf.2.hides hshow

/-! ## After the shutdown -/

/-- Nothing is opened after the shutdown, and no command is sent. -/
theorem Owning.settled (h : s.Owning) (he : s.shutdown = .settled n) (hs : Step jupyterDataDir s t) :
    t.shutdown = .settled n ∧ t.world.herdr.refused = s.world.herdr.refused := by
  have hidle : Idle s.toggling ∧ s.world.view.disposed = true := by
    unfold Owning at h
    rw [he] at h
    exact ⟨h.2.1, h.1⟩
  cases hs with
  | toggle cwd file ht =>
    unfold toggleOn
    rw [advance_togglePane jupyterDataDir cwd file hidle.2]
    exact ⟨he, rfl⟩
  | serve ht hserve =>
    obtain ⟨r, hr⟩ := hidle.1 _ ht
    cases hr
  | settle ht =>
    unfold settle
    rw [he]
    exact ⟨rfl, rfl⟩
  | shutdown he' _ =>
    rw [he] at he'
    cases he'
  | shutdownLater he' _ =>
    rw [he] at he'
    cases he'
  | serveShutdown he' _ =>
    rw [he] at he'
    cases he'
  | settleShutdown he' =>
    rw [he] at he'
    cases he'
  | userCloses => exact ⟨he, rfl⟩
  | historyFails => exact ⟨he, rfl⟩

theorem Owning.gone (h : s.Owning) (he : s.shutdown = .settled n) (hn : s.world.herdr.refused = n)
    (hr : Relation.ReflTransGen (Step jupyterDataDir) s t) : t.world.herdr.viewers = [] := by
  have hrun : t.Owning ∧ t.shutdown = .settled n ∧ t.world.herdr.refused = n := by
    induction hr with
    | refl => exact ⟨h, he, hn⟩
    | tail _ hs ih =>
      obtain ⟨ih, he, hn⟩ := ih
      obtain ⟨he', hr⟩ := ih.settled he hs
      exact ⟨ih.step hs, he', hr.trans hn⟩
  obtain ⟨ht, he', hn'⟩ := hrun
  unfold Owning at ht
  rw [he'] at ht
  exact ht.2.2.gone hn'

end State

end PiIpython.Console
