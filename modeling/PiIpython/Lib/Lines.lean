import PiIpython.Lib.Utf8

/-!
# Splitting and joining

`split` and `join` at one code unit are inverse to each other, and a string
that spells a text without surrogates splits into such strings, whose byte
lengths add up.
-/

namespace PiIpython.Text

variable {u : CodeUnit}

/-! ## Inverse to each other -/

theorem join_cons {t : JsStr} (l : JsStr) {ls : List JsStr} (h : ls ≠ []) :
    join t (l :: ls) = l ++ t ++ join t ls := by
  obtain ⟨a, as, rfl⟩ := List.exists_cons_of_ne_nil h
  rfl

theorem exists_split (u : CodeUnit) (s : JsStr) : ∃ l ls, split u s = l :: ls := by
  cases s with
  | nil => exact ⟨_, _, rfl⟩
  | cons c s =>
    rw [split]
    split
    · exact ⟨_, _, rfl⟩
    · split <;> exact ⟨_, _, rfl⟩

theorem split_ne_nil (u : CodeUnit) (s : JsStr) : split u s ≠ [] := by
  obtain ⟨l, ls, h⟩ := exists_split u s
  rw [h]
  exact List.cons_ne_nil _ _

theorem split_cons_self (u : CodeUnit) (s : JsStr) : split u (u :: s) = [] :: split u s := by
  rw [split, if_pos rfl]

/-- What has no separator goes in front of the first part. -/
theorem split_append {a : JsStr} (h : u ∉ a) {s l : JsStr} {ls : List JsStr}
    (hs : split u s = l :: ls) : split u (a ++ s) = (a ++ l) :: ls := by
  induction a with
  | nil => exact hs
  | cons c a ih =>
    rw [List.mem_cons, not_or] at h
    rw [List.cons_append, split, if_neg (Ne.symm h.1), ih h.2]
    rfl

theorem split_of_not_mem {s : JsStr} (h : u ∉ s) : split u s = [s] := by
  have := split_append h (s := []) (show split u [] = [[]] from rfl)
  rwa [List.append_nil] at this

theorem not_mem_of_mem_split {s l : JsStr} (h : l ∈ split u s) : u ∉ l := by
  induction s generalizing l with
  | nil =>
    rw [split, List.mem_singleton] at h
    rw [h]
    exact List.not_mem_nil
  | cons c s ih =>
    obtain ⟨a, as, hs⟩ := exists_split u s
    rw [hs] at ih
    rw [split, hs] at h
    split at h
    · rcases List.mem_cons.mp h with rfl | h
      · exact List.not_mem_nil
      · exact ih h
    · next hc =>
      rcases List.mem_cons.mp h with rfl | h
      · rw [List.mem_cons, not_or]
        exact ⟨Ne.symm hc, ih List.mem_cons_self⟩
      · exact ih (List.mem_cons_of_mem _ h)

theorem join_split (u : CodeUnit) (s : JsStr) : join [u] (split u s) = s := by
  induction s with
  | nil => rfl
  | cons c s ih =>
    obtain ⟨a, as, hs⟩ := exists_split u s
    rw [hs] at ih
    rw [split, hs]
    split
    · next hc => rw [join_cons _ (List.cons_ne_nil _ _), ih, hc]; rfl
    · show join [u] ((c :: a) :: as) = c :: s
      cases as with
      | nil => exact congrArg (c :: ·) ih
      | cons b bs => exact congrArg (c :: ·) ih

theorem split_join {ls : List JsStr} (hne : ls ≠ []) (h : ∀ l ∈ ls, u ∉ l) :
    split u (join [u] ls) = ls := by
  induction ls with
  | nil => exact absurd rfl hne
  | cons l ls ih =>
    rw [List.forall_mem_cons] at h
    by_cases hls : ls = []
    · subst hls
      exact split_of_not_mem h.1
    · rw [join_cons l hls, List.append_assoc, List.singleton_append,
        split_append h.1 (split_cons_self u _), ih hls h.2, List.append_nil]

theorem split_append_self (u : CodeUnit) (s : JsStr) : split u (s ++ [u]) = split u s ++ [[]] := by
  induction s with
  | nil => rw [List.nil_append, split_cons_self]; rfl
  | cons c s ih =>
    obtain ⟨a, as, hs⟩ := exists_split u s
    rw [List.cons_append, split, split, ih, hs]
    split <;> rfl

/-! ## Parts of a well-formed string -/

/-- The string spells a text without surrogates. -/
def WellFormed (s : JsStr) : Prop := ∃ t, HasUtf8 t ∧ utf16 t = s

theorem WellFormed.byteLength_append {s : JsStr} (h : WellFormed s) (t : JsStr) :
    byteLength (s ++ t) = byteLength s + byteLength t := by
  obtain ⟨p, hp, rfl⟩ := h
  exact byteLength_utf16_append hp t

theorem WellFormed.of_mem_split {s l : JsStr} (h : WellFormed s) (hu : u.toNat < 0xD800)
    (hl : l ∈ split u s) : WellFormed l := by
  obtain ⟨t, ht, rfl⟩ := h
  induction t generalizing l with
  | nil =>
    rw [utf16_nil, split, List.mem_singleton] at hl
    exact ⟨[], ht, hl.symm⟩
  | cons c t ih =>
    have ht' : HasUtf8 t := fun d hd => ht d (List.mem_cons_of_mem _ hd)
    obtain ⟨a, as, hs⟩ := exists_split u (utf16 t)
    rw [hs] at ih
    by_cases hc : u ∈ encode16 c
    · have hval : u.toNat = c.val := by
        rcases mem_encode16 hc with h | h
        · exact h
        · omega
      rw [encode16_bmp (by omega), List.mem_singleton] at hc
      rw [utf16_cons, encode16_bmp (by omega), ← hc, List.singleton_append, split_cons_self,
        hs] at hl
      rcases List.mem_cons.mp hl with rfl | hl
      · exact ⟨[], List.forall_mem_nil _, rfl⟩
      · exact ih ht' hl
    · rw [utf16_cons, split_append hc hs] at hl
      rcases List.mem_cons.mp hl with rfl | hl
      · obtain ⟨p, hp, rfl⟩ := ih ht' List.mem_cons_self
        exact ⟨c :: p, List.forall_mem_cons.mpr ⟨ht c List.mem_cons_self, hp⟩, rfl⟩
      · exact ih ht' (List.mem_cons_of_mem _ hl)

theorem byteLength_join_cons {l : JsStr} (hl : WellFormed l) {ls : List JsStr} (h : ls ≠ []) :
    byteLength (join (js "\n") (l :: ls)) = byteLength l + 1 + byteLength (join (js "\n") ls) := by
  have hnl : WellFormed (js "\n") := ⟨py "\n", by decide, rfl⟩
  rw [join_cons l h, List.append_assoc, hl.byteLength_append, hnl.byteLength_append,
    byteLength_newline, Nat.add_assoc]

theorem byteLength_join_suffix {ls ms : List JsStr} (hw : ∀ l ∈ ls, WellFormed l)
    (h : ms <:+ ls) : byteLength (join (js "\n") ms) ≤ byteLength (join (js "\n") ls) := by
  induction ls with
  | nil => rw [List.suffix_nil.mp h]
  | cons l ls ih =>
    rw [List.forall_mem_cons] at hw
    rcases List.suffix_cons_iff.mp h with rfl | h
    · exact le_refl _
    · refine (ih hw.2 h).trans ?_
      by_cases hls : ls = []
      · rw [hls]; exact Nat.zero_le _
      · rw [byteLength_join_cons hw.1 hls]; exact Nat.le_add_left _ _

end PiIpython.Text
