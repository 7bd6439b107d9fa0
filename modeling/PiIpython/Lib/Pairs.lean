import PiIpython.Lib.Utf8

/-!
# Surrogate pairs at a junction

Two strings decode to the code points of both, unless the first ends in a high
surrogate and the second starts with a low one: written apart they are two code
points, together they are one.
-/

namespace PiIpython.Text

/-- A surrogate pair is put together where the strings meet. -/
def Junction (x y : JsStr) : Prop :=
  (∃ u, x.getLast? = some u ∧ isHigh u = true) ∧ ∃ v, y.head? = some v ∧ isLow v = true

instance (x y : JsStr) : Decidable (Junction x y) :=
  decidable_of_iff ((x.getLast?.any isHigh && y.head?.any isLow) = true) (by
    rw [Bool.and_eq_true, Option.any_eq_true, Option.any_eq_true]
    rfl)

theorem not_junction_nil (y : JsStr) : ¬ Junction [] y := by
  rintro ⟨⟨u, h, -⟩, -⟩
  cases h

theorem junction_cons {u : CodeUnit} {x y : JsStr} (h : x ≠ []) :
    Junction (u :: x) y ↔ Junction x y := by
  obtain ⟨v, x, rfl⟩ := List.exists_cons_of_ne_nil h
  rw [Junction, List.getLast?_cons_cons]
  rfl

theorem junction_append {x y z : JsStr} (h : y ≠ []) : Junction (x ++ y) z ↔ Junction y z := by
  induction x with
  | nil => rfl
  | cons u x ih => rw [List.cons_append, junction_cons (by simp [h]), ih]

theorem junction_singleton {u v : CodeUnit} {ys : JsStr} :
    Junction [u] (v :: ys) ↔ (isHigh u && isLow v) = true := by
  rw [Bool.and_eq_true]
  constructor
  · rintro ⟨⟨u', hu, hh⟩, v', hv, hl⟩
    cases hu
    cases hv
    exact ⟨hh, hl⟩
  · rintro ⟨hh, hl⟩
    exact ⟨⟨u, rfl, hh⟩, v, rfl, hl⟩

theorem isHigh_of_isLow {v : CodeUnit} (h : isLow v = true) : isHigh v = false := by
  simp only [isLow, isHigh, Bool.and_eq_true, decide_eq_true_eq, Bool.and_eq_false_iff,
    decide_eq_false_iff_not] at h ⊢
  omega

theorem junction_pair {u v : CodeUnit} {us y : JsStr} (h : (isHigh u && isLow v) = true) :
    Junction (u :: v :: us) y ↔ Junction us y := by
  rw [junction_cons (List.cons_ne_nil v us)]
  cases us with
  | nil =>
    refine iff_of_false ?_ (not_junction_nil y)
    rintro ⟨⟨v', hv, hh⟩, -⟩
    obtain rfl : v = v' := Option.some.inj hv
    rw [isHigh_of_isLow (Bool.and_eq_true_iff.mp h).2] at hh
    cases hh
  | cons w us => exact junction_cons (List.cons_ne_nil w us)

theorem decode16_append {x y : JsStr} (h : ¬ Junction x y) :
    decode16 (x ++ y) = decode16 x ++ decode16 y := by
  induction x using decode16.induct with
  | case1 => rfl
  | case2 u =>
    cases y with
    | nil => rfl
    | cons v ys =>
      rw [junction_singleton] at h
      show decode16 (u :: v :: ys) = ofUnit u :: decode16 (v :: ys)
      rw [decode16, if_neg h]
  | case3 u v us hp ih =>
    rw [junction_pair hp] at h
    rw [List.cons_append, List.cons_append, decode16, decode16, if_pos hp, if_pos hp, ih h,
      List.cons_append]
  | case4 u v us hp ih =>
    rw [junction_cons (List.cons_ne_nil v us)] at h
    have := ih h
    rw [List.cons_append] at this
    rw [List.cons_append, List.cons_append, decode16, decode16, if_neg hp, if_neg hp, this,
      List.cons_append]

theorem length_decode16_junction {x y : JsStr} (h : Junction x y) :
    (decode16 (x ++ y)).length < (decode16 x).length + (decode16 y).length := by
  induction x using decode16.induct with
  | case1 => exact absurd h (not_junction_nil y)
  | case2 u =>
    cases y with
    | nil => obtain ⟨-, v, hv, -⟩ := h; cases hv
    | cons v ys =>
      rw [junction_singleton] at h
      have hv := isHigh_of_isLow (Bool.and_eq_true_iff.mp h).2
      have hpair := Bool.and_eq_true_iff.mp h
      rw [List.singleton_append, decode16_pair hpair.1 hpair.2, decode16_cons hv]
      simp only [decode16, List.length_cons, List.length_nil]
      omega
  | case3 u v us hp ih =>
    have := ih ((junction_pair hp).mp h)
    rw [List.cons_append, List.cons_append, decode16, decode16, if_pos hp, if_pos hp,
      List.length_cons, List.length_cons]
    omega
  | case4 u v us hp ih =>
    have := ih ((junction_cons (List.cons_ne_nil v us)).mp h)
    rw [List.cons_append] at this
    rw [List.cons_append, List.cons_append, decode16, decode16, if_neg hp, if_neg hp,
      List.length_cons, List.length_cons]
    omega

theorem scalars_append {x y : JsStr} (h : ¬ Junction x y) :
    scalars (x ++ y) = scalars x ++ scalars y := by
  rw [scalars, decode16_append h, List.map_append]
  rfl

theorem length_scalars (x : JsStr) : (scalars x).length = (decode16 x).length := List.length_map ..

/-- A replaced surrogate takes one unit as well. -/
theorem length_utf16_scalars (x : JsStr) : (utf16 (scalars x)).length = x.length := by
  conv_rhs => rw [← utf16_decode16 x]
  rw [scalars]
  induction decode16 x with
  | nil => rfl
  | cons c cs ih =>
    rw [List.map_cons, utf16_cons, utf16_cons, List.length_append, List.length_append, ih]
    congr 1
    split
    · next h =>
      have := h.2
      rw [encode16_bmp (show c.val < 0x10000 by omega)]
      rfl
    · rfl

theorem length_scalars_flatten_le (xs : List JsStr) :
    (scalars xs.flatten).length ≤ (xs.flatMap scalars).length := by
  induction xs with
  | nil => exact le_refl _
  | cons x xs ih =>
    rw [List.flatten_cons, List.flatMap_cons, List.length_append]
    refine le_trans ?_ (Nat.add_le_add_left ih _)
    by_cases h : Junction x xs.flatten
    · have := length_decode16_junction h
      rw [length_scalars, length_scalars, length_scalars]
      exact this.le
    · rw [scalars_append h, List.length_append]

/-- **Written apart, strings are the text of their concatenation** exactly when no pair is cut. -/
theorem flatMap_scalars_iff {xs : List JsStr} : xs.flatMap scalars = scalars xs.flatten ↔
    ∀ ys zs, xs = ys ++ zs → ¬ Junction ys.flatten zs.flatten := by
  induction xs with
  | nil =>
    refine iff_of_true rfl fun ys zs h => ?_
    rw [(List.append_eq_nil_iff.mp h.symm).1]
    exact not_junction_nil _
  | cons x xs ih =>
    rw [List.flatMap_cons, List.flatten_cons]
    by_cases hx : Junction x xs.flatten
    · refine iff_of_false (fun h => ?_) fun h => ?_
      · have h1 := congrArg List.length h
        have h2 := length_decode16_junction hx
        have h3 := length_scalars_flatten_le xs
        rw [List.length_append, length_scalars, length_scalars] at h1
        rw [length_scalars] at h3
        omega
      · refine h [x] xs rfl ?_
        rw [List.flatten_singleton]
        exact hx
    · rw [scalars_append hx, List.append_right_inj, ih]
      constructor
      · intro h ys zs hs
        cases ys with
        | nil => exact not_junction_nil _
        | cons y ys =>
          rw [List.cons_append, List.cons_eq_cons] at hs
          obtain ⟨rfl, rfl⟩ := hs
          rw [List.flatten_cons]
          by_cases hy : ys.flatten = []
          · rw [hy, List.append_nil]
            rwa [List.flatten_append, hy, List.nil_append] at hx
          · rw [junction_append hy]
            exact h ys zs rfl
      · rintro h ys zs rfl hj
        have hne : ys.flatten ≠ [] := by
          intro he
          rw [he] at hj
          exact not_junction_nil _ hj
        refine h (x :: ys) zs rfl ?_
        rwa [List.flatten_cons, junction_append hne]

end PiIpython.Text
