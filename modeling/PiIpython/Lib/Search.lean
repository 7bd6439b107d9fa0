import PiIpython.Lib.JsString

/-!
# Searching in a string

`indexOf`, `lastIndexOf` and `slice` on the rests of a string: what a search
finds from an index on is what it finds in the rest there.
-/

namespace PiIpython.Text

variable {s t : JsStr} {u : CodeUnit} {i j k : Nat}

/-! ## The first index -/

theorem indexOf_eq_none : indexOf s u i = none ↔ u ∉ s.drop i := by
  rw [indexOf, Option.map_eq_none_iff, List.findIdx?_eq_none_iff]
  constructor
  · intro h hu
    have := h u hu
    simp at this
  · intro h x hx
    rw [decide_eq_false_iff_not]
    rintro rfl
    exact h hx

/-- **The first occurrence** splits the rest of the string. -/
theorem indexOf_eq_some : indexOf s u i = some j ↔
    ∃ a b, s.drop i = a ++ u :: b ∧ u ∉ a ∧ j = i + a.length := by
  rw [indexOf, Option.map_eq_some_iff]
  constructor
  · rintro ⟨n, hn, rfl⟩
    rw [List.findIdx?_eq_some_iff_getElem] at hn
    obtain ⟨hlt, hu, hbefore⟩ := hn
    rw [decide_eq_true_eq] at hu
    refine ⟨(s.drop i).take n, (s.drop i).drop (n + 1), ?_, ?_, ?_⟩
    · conv_lhs => rw [← List.take_append_drop n (s.drop i), List.drop_eq_getElem_cons hlt, hu]
    · rw [List.mem_iff_getElem]
      rintro ⟨m, hm, hx⟩
      rw [List.length_take] at hm
      rw [List.getElem_take] at hx
      have := hbefore m (by omega)
      rw [hx] at this
      simp at this
    · rw [List.length_take]; omega
  · rintro ⟨a, b, hs, ha, rfl⟩
    refine ⟨a.length, ?_, rfl⟩
    rw [hs, List.findIdx?_append, List.findIdx?_cons]
    have hnone : List.findIdx? (fun x => decide (x = u)) a = none := by
      rw [List.findIdx?_eq_none_iff]
      intro x hx
      rw [decide_eq_false_iff_not]
      rintro rfl
      exact ha hx
    rw [hnone]
    simp

/-! ## The last index -/

theorem lastIndexOf_eq_some : lastIndexOf s t = some i ↔
    i ≤ s.length ∧ t <+: s.drop i ∧ ∀ j, i < j → j ≤ s.length → ¬ t <+: s.drop j := by
  have hfind : ∀ n, (List.range n).reverse.find? (fun i => t.isPrefixOf (s.drop i)) = some i ↔
      i < n ∧ t <+: s.drop i ∧ ∀ j, i < j → j < n → ¬ t <+: s.drop j := by
    intro n
    induction n with
    | zero => simp
    | succ n ih =>
      rw [List.range_succ, List.reverse_append, List.reverse_singleton, List.singleton_append,
        List.find?_cons]
      split
      · next h =>
        rw [List.isPrefixOf_iff_prefix] at h
        constructor
        · intro hn
          obtain rfl := Option.some.inj hn
          exact ⟨Nat.lt_succ_self _, h, fun j h1 h2 => by omega⟩
        · rintro ⟨hi, -, hlast⟩
          by_contra hne
          have hne : n ≠ i := fun he => hne (congrArg some he)
          exact hlast n (by omega) (Nat.lt_succ_self n) h
      · next h =>
        have hn : ¬ t <+: s.drop n := by
          rw [← List.isPrefixOf_iff_prefix, h]
          exact Bool.false_ne_true
        rw [ih]
        constructor
        · rintro ⟨hi, hp, hlast⟩
          refine ⟨by omega, hp, fun j h1 h2 => ?_⟩
          rcases Nat.lt_succ_iff_lt_or_eq.mp h2 with h2 | rfl
          · exact hlast j h1 h2
          · exact hn
        · rintro ⟨hi, hp, hlast⟩
          have hne : i ≠ n := fun he => hn (he ▸ hp)
          exact ⟨by omega, hp, fun j h1 h2 => hlast j h1 (by omega)⟩
  rw [lastIndexOf, hfind, Nat.lt_succ_iff]
  simp only [Nat.lt_succ_iff]

theorem lastIndexOf_eq_none : lastIndexOf s t = none ↔ ∀ i ≤ s.length, ¬ t <+: s.drop i := by
  rw [lastIndexOf, List.find?_eq_none]
  simp only [List.mem_reverse, List.mem_range, Nat.lt_succ_iff, List.isPrefixOf_iff_prefix]

/-- **The last occurrence in a rest** is that in the string, unless it lies before the rest. -/
theorem lastIndexOf_drop (hk : k ≤ s.length) : lastIndexOf (s.drop k) t =
    (lastIndexOf s t).bind fun i => if k ≤ i then some (i - k) else none := by
  have hdrop : ∀ j, (s.drop k).drop j = s.drop (k + j) := fun j => List.drop_drop
  have hlen : (s.drop k).length = s.length - k := List.length_drop
  cases h : lastIndexOf s t with
  | none =>
    rw [lastIndexOf_eq_none] at h
    rw [Option.bind_none, lastIndexOf_eq_none]
    intro i hi
    rw [hdrop]
    exact h _ (by omega)
  | some i =>
    obtain ⟨hi, hp, hlast⟩ := lastIndexOf_eq_some.mp h
    rw [Option.bind_some]
    split
    · next hki =>
      rw [lastIndexOf_eq_some, hdrop, Nat.add_sub_cancel' hki]
      refine ⟨by omega, hp, fun j h1 h2 => ?_⟩
      rw [hdrop]
      exact hlast _ (by omega) (by omega)
    · next hki =>
      rw [lastIndexOf_eq_none]
      intro j hj
      rw [hdrop]
      exact hlast _ (by omega) (by omega)

/-! ## Slices -/

theorem slice_append_drop (h : i ≤ j) : slice s i j ++ s.drop j = s.drop i := by
  rcases Nat.le_total s.length i with hi | hi
  · rw [List.drop_eq_nil_of_le hi, List.drop_eq_nil_of_le (hi.trans h), List.append_nil, slice,
      List.drop_eq_nil_of_le]
    rw [List.length_take]
    omega
  · rw [slice]
    conv_rhs => rw [← List.take_append_drop j s]
    rw [List.drop_append_of_le_length]
    rw [List.length_take]
    omega

theorem slice_self (s : JsStr) (i : Nat) : slice s i i = [] := by
  rw [slice, List.drop_eq_nil_of_le]
  rw [List.length_take]
  exact Nat.min_le_left _ _

/-- A slice goes on with what follows it. -/
theorem slice_append {a b : JsStr} (h : i ≤ j) (hd : s.drop j = a ++ b) :
    slice s i (j + a.length) = slice s i j ++ a := by
  have h1 := slice_append_drop (s := s) h
  have h2 := slice_append_drop (s := s) (show i ≤ j + a.length by omega)
  rw [← List.drop_drop, hd, List.drop_left] at h2
  rw [hd, ← List.append_assoc] at h1
  exact List.append_cancel_right (h2.trans h1.symm)

theorem slice_succ {b : JsStr} (h : i ≤ j) (hd : s.drop j = u :: b) :
    slice s i (j + 1) = slice s i j ++ [u] :=
  slice_append (a := [u]) h hd

end PiIpython.Text
