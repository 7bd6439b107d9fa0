import Mathlib

/-!
# Eviction down to a limit

Items stand in order, the oldest first, and are gone through once: an item
that is pinned stays; another one stays when it is not old and what is kept so
far, with the item and all those after it, is within the limit. What stays has
a closed form that does not mention what was kept before (`mem_evict`), and is
within the limit unless only pinned items stay (`weight_evict`).

`sharedWeight` is the weight of items that share parts: each part counts once.
-/

namespace PiIpython

variable {ι β : Type*} (pinned old : ι → Prop) [DecidablePred pinned] (weight : List ι → ℤ)
  (limit : ℤ)

/-- `x` stays, of the items after `kept`. -/
def Stays (kept : List ι) (x : ι) (rest : List ι) : Prop :=
  pinned x ∨ ¬ old x ∧ weight (kept ++ x :: rest) ≤ limit

instance [DecidablePred old] (kept : List ι) (x : ι) (rest : List ι) :
    Decidable (Stays pinned old weight limit kept x rest) :=
  inferInstanceAs (Decidable (_ ∨ _))

/-- What stays, when `kept` did so far. -/
def evict [DecidablePred old] : List ι → List ι → List ι
  | kept, [] => kept
  | kept, x :: rest =>
    if Stays pinned old weight limit kept x rest then evict (kept ++ [x]) rest
    else evict kept rest

/-- What is known of what was kept of the items `done`, before `rest`. -/
structure Evicting (done kept rest : List ι) : Prop where
  above : (done.filter pinned).Sublist kept
  among : kept.Sublist done
  light : kept = done.filter pinned ∨ weight (kept ++ rest) ≤ limit ∧ ∀ y ∈ rest, ¬ old y

section Evicting

variable {pinned old weight limit} {done kept rest l : List ι} {x : ι}

theorem Evicting.nil : Evicting pinned old weight limit [] [] l := ⟨.slnil, .slnil, .inl rfl⟩

/-- **Only the pinned items before it decide over an item.** -/
theorem Evicting.stays_iff (h : Evicting pinned old weight limit done kept (x :: rest))
    (hmono : ∀ {l l' : List ι}, l.Sublist l' → weight l ≤ weight l') :
    Stays pinned old weight limit kept x rest ↔
      Stays pinned old weight limit (done.filter pinned) x rest := by
  refine or_congr_right ⟨fun ⟨ho, hw⟩ => ⟨ho, ?_⟩, fun ⟨ho, hw⟩ => ⟨ho, ?_⟩⟩
  · exact (hmono (h.above.append_right _)).trans hw
  · rcases h.light with hk | ⟨hk, -⟩
    · rwa [hk]
    · exact hk

variable [DecidablePred old]

/-- One item is gone through. -/
theorem Evicting.step (h : Evicting pinned old weight limit done kept (x :: rest))
    (hold : ∀ y ∈ rest, old y → old x) :
    Evicting pinned old weight limit (done ++ [x])
      (if Stays pinned old weight limit kept x rest then kept ++ [x] else kept) rest := by
  have hfilter : (done ++ [x]).filter pinned = done.filter pinned ++ if pinned x then [x] else [] := by
    rw [List.filter_append]
    by_cases hp : pinned x <;> simp [hp]
  split
  · next hs =>
    refine ⟨?_, h.among.append_right _, ?_⟩
    · rw [hfilter]
      refine h.above.append ?_
      split
      · exact .refl _
      · exact List.nil_sublist _
    · rcases hs with hp | ⟨ho, hw⟩
      · rcases h.light with hk | ⟨hk, hr⟩
        · left
          rw [hfilter, if_pos hp, hk]
        · right
          rw [List.append_assoc, List.singleton_append]
          exact ⟨hk, fun y hy => hr y (List.mem_cons_of_mem _ hy)⟩
      · right
        rw [List.append_assoc, List.singleton_append]
        exact ⟨hw, fun y hy hy' => ho (hold y hy hy')⟩
  · next hs =>
    have hp : ¬ pinned x := fun hp => hs (.inl hp)
    have hk : kept = done.filter pinned := by
      rcases h.light with hk | ⟨hk, hr⟩
      · exact hk
      · exact absurd (.inr ⟨hr x List.mem_cons_self, hk⟩) hs
    rw [if_neg hp, List.append_nil] at hfilter
    refine ⟨?_, h.among.trans (List.sublist_append_left _ _), .inl ?_⟩
    · rw [hfilter]
      exact h.above
    · rw [hfilter]
      exact hk

theorem Evicting.evict (hold : rest.Pairwise fun x y => old y → old x)
    (h : Evicting pinned old weight limit done kept rest) :
    Evicting pinned old weight limit (done ++ rest)
      (PiIpython.evict pinned old weight limit kept rest) [] := by
  induction rest generalizing done kept with
  | nil =>
    rw [List.append_nil]
    exact h
  | cons x rest ih =>
    obtain ⟨hx, hrest⟩ := List.pairwise_cons.mp hold
    have hstep := ih hrest (h.step hx)
    rw [List.append_assoc, List.singleton_append] at hstep
    rw [PiIpython.evict]
    split
    · next hs => rwa [if_pos hs] at hstep
    · next hs => rwa [if_neg hs] at hstep

/-- **What stays is within the limit, or pinned.** -/
theorem weight_evict (hold : l.Pairwise fun x y => old y → old x) :
    evict pinned old weight limit [] l = l.filter pinned ∨
      weight (evict pinned old weight limit [] l) ≤ limit := by
  have he : Evicting pinned old weight limit ([] ++ l) _ [] := .evict hold .nil
  rcases he.light with h | ⟨h, -⟩
  · exact .inl h
  · rw [List.append_nil] at h
    exact .inr h

theorem evict_sublist (hold : l.Pairwise fun x y => old y → old x) :
    (evict pinned old weight limit [] l).Sublist l := by
  have he : Evicting pinned old weight limit ([] ++ l) _ [] := .evict hold .nil
  exact he.among

theorem mem_evict_of (hmono : ∀ {l l' : List ι}, l.Sublist l' → weight l ≤ weight l')
    (hold : rest.Pairwise fun x y => old y → old x)
    (h : Evicting pinned old weight limit done kept rest) :
    x ∈ evict pinned old weight limit kept rest ↔ x ∈ kept ∨ ∃ pre post, rest = pre ++ x :: post ∧
      Stays pinned old weight limit ((done ++ pre).filter pinned) x post := by
  induction rest generalizing done kept with
  | nil =>
    refine ⟨.inl, ?_⟩
    rintro (h | ⟨pre, post, h, -⟩)
    · exact h
    · cases pre <;> cases h
  | cons y rest ih =>
    obtain ⟨hy, hrest⟩ := List.pairwise_cons.mp hold
    have hstep := ih hrest (h.step hy)
    -- the place of `x` is the head or in the tail
    have hsplit : (∃ pre post, y :: rest = pre ++ x :: post ∧
        Stays pinned old weight limit ((done ++ pre).filter pinned) x post) ↔
        (x = y ∧ Stays pinned old weight limit (done.filter pinned) x rest) ∨
          ∃ pre post, rest = pre ++ x :: post ∧
            Stays pinned old weight limit ((done ++ [y] ++ pre).filter pinned) x post := by
      constructor
      · rintro ⟨_ | ⟨z, pre⟩, post, hl, hs⟩
        · obtain ⟨rfl, rfl⟩ := List.cons.inj hl
          rw [List.append_nil] at hs
          exact .inl ⟨rfl, hs⟩
        · obtain ⟨rfl, rfl⟩ := List.cons.inj hl
          refine .inr ⟨pre, post, rfl, ?_⟩
          rwa [List.append_assoc, List.singleton_append]
      · rintro (⟨rfl, hs⟩ | ⟨pre, post, rfl, hs⟩)
        · refine ⟨[], rest, rfl, ?_⟩
          rwa [List.append_nil]
        · refine ⟨y :: pre, post, rfl, ?_⟩
          rwa [List.append_assoc, List.singleton_append] at hs
    rw [hsplit, evict]
    have hst := h.stays_iff hmono
    split
    · next hs =>
      rw [if_pos hs] at hstep
      rw [hstep, List.mem_append, List.mem_singleton, or_assoc]
      refine or_congr_right (or_congr_left ⟨fun hx => ⟨hx, ?_⟩, And.left⟩)
      rw [hx]
      exact hst.mp hs
    · next hs =>
      rw [if_neg hs] at hstep
      rw [hstep]
      refine or_congr_right ⟨.inr, ?_⟩
      rintro (⟨rfl, hx⟩ | hx)
      · exact absurd (hst.mpr hx) hs
      · exact hx

/-- **The closed form**: an item stays when it is pinned, or when it is not old and within the
limit together with the pinned items before it and all items after it. -/
theorem mem_evict (hmono : ∀ {l l' : List ι}, l.Sublist l' → weight l ≤ weight l')
    (hold : l.Pairwise fun x y => old y → old x) :
    x ∈ evict pinned old weight limit [] l ↔ ∃ pre post, l = pre ++ x :: post ∧
      Stays pinned old weight limit (pre.filter pinned) x post := by
  rw [mem_evict_of hmono hold Evicting.nil, or_iff_right List.not_mem_nil]
  rfl

/-- Where no item stands twice, what is before it and after it decides. -/
theorem mem_evict_iff_stays {pre post : List ι} (hnodup : (pre ++ x :: post).Nodup)
    (hmono : ∀ {l l' : List ι}, l.Sublist l' → weight l ≤ weight l')
    (hold : (pre ++ x :: post).Pairwise fun x y => old y → old x) :
    x ∈ evict pinned old weight limit [] (pre ++ x :: post) ↔
      Stays pinned old weight limit (pre.filter pinned) x post := by
  rw [mem_evict hmono hold]
  constructor
  · rintro ⟨pre', post', hl, hs⟩
    have hpre : ∀ {pre post : List ι}, (pre ++ x :: post).Nodup → x ∉ pre := fun h hx =>
      (List.nodup_append.mp h).2.2 x hx x List.mem_cons_self rfl
    have hpost : ∀ {pre post : List ι}, (pre ++ x :: post).Nodup → x ∉ post := fun h =>
      (List.nodup_cons.mp (List.nodup_append.mp h).2.1).1
    obtain ⟨rfl, -, rfl⟩ := (List.append_cons_inj_of_notMem (hpre hnodup) (hpost hnodup)).mp hl
    exact hs
  · exact fun hs => ⟨pre, post, rfl, hs⟩

end Evicting

/-! ## Items that share parts -/

section Shared

variable [DecidableEq β] (size : ι → ℕ) (parts : ι → List β) (cost : β → ℕ)

/-- The sizes of the items, and the cost of each of their parts once. -/
def sharedWeight (l : List ι) : ℕ :=
  (l.map size).sum + ∑ b ∈ (l.flatMap parts).toFinset, cost b

theorem sharedWeight_mono {l l' : List ι} (h : l.Sublist l') :
    sharedWeight size parts cost l ≤ sharedWeight size parts cost l' := by
  refine Nat.add_le_add ?_ (Finset.sum_le_sum_of_subset ?_)
  · exact List.Sublist.sum_le_sum (h.map size) fun _ _ => Nat.zero_le _
  · intro b hb
    rw [List.mem_toFinset, List.mem_flatMap] at hb ⊢
    obtain ⟨x, hx, hb⟩ := hb
    exact ⟨x, h.subset hx, hb⟩

end Shared

end PiIpython
