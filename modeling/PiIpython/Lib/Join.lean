import Mathlib

/-!
# Joins of lists

The relational joins of two lists on equal keys, row by row of the left list,
and how long they are. A row of the left list has as many matches as its key
occurs on the right (`length_innerJoin`). `additional` counts the matches after the
first, `unmatched` the rows without one: an inner join is longer than its left
list when the first outnumber the second, a left join when there are any.
-/

namespace PiIpython.Join

variable {α β κ : Type} [DecidableEq κ] (ka : α → κ) (kb : β → κ)

/-- The rows of `b` with the key of `x`. -/
def matching (b : List β) (x : α) : List β := b.filter fun y => kb y = ka x

def innerJoin (a : List α) (b : List β) : List (α × β) :=
  a.flatMap fun x => (matching ka kb b x).map (x, ·)

def leftJoin (a : List α) (b : List β) : List (α × Option β) :=
  a.flatMap fun x =>
    match matching ka kb b x with
    | [] => [(x, none)]
    | ys => ys.map fun y => (x, some y)

/-- How many rows have no match among the keys `ks`. -/
def unmatched (ks : List κ) (a : List α) : Nat := a.countP fun x => ka x ∉ ks

/-- How many matches the rows have after their first. -/
def additional (ks : List κ) (a : List α) : Nat := (a.map fun x => ks.count (ka x) - 1).sum

variable {ka kb} {a : List α} {b : List β}

theorem length_matching (x : α) : (matching ka kb b x).length = (b.map kb).count (ka x) := by
  rw [matching, ← List.countP_eq_length_filter, List.count, List.countP_map]
  rfl

theorem length_innerJoin :
    (innerJoin ka kb a b).length = (a.map fun x => (b.map kb).count (ka x)).sum := by
  rw [innerJoin, List.length_flatMap]
  simp only [List.length_map, length_matching]

theorem length_leftJoin :
    (leftJoin ka kb a b).length = (a.map fun x => max 1 ((b.map kb).count (ka x))).sum := by
  rw [leftJoin, List.length_flatMap]
  congr 2
  funext x
  rw [← length_matching]
  cases matching ka kb b x with
  | nil => rfl
  | cons y ys => simp

/-- **The rows of an inner join**: those of the left list, without the unmatched ones and with
the matches after the first. -/
theorem innerJoin_balance : (innerJoin ka kb a b).length + unmatched ka (b.map kb) a =
    a.length + additional ka (b.map kb) a := by
  rw [length_innerJoin]
  unfold unmatched additional
  induction a with
  | nil => rfl
  | cons x a ih =>
    rw [List.map_cons, List.sum_cons, List.map_cons, List.sum_cons, List.countP_cons,
      List.length_cons]
    by_cases hx : ka x ∈ b.map kb
    · have := List.count_pos_iff.mpr hx
      rw [if_neg (by simpa using hx)]
      omega
    · rw [if_pos (by simpa using hx), List.count_eq_zero.mpr hx]
      omega

/-- **A left join** keeps the unmatched rows. -/
theorem leftJoin_balance :
    (leftJoin ka kb a b).length = a.length + additional ka (b.map kb) a := by
  rw [length_leftJoin]
  unfold additional
  induction a with
  | nil => rfl
  | cons x a ih =>
    rw [List.map_cons, List.sum_cons, List.map_cons, List.sum_cons, List.length_cons]
    omega

theorem additional_pos_iff {ks : List κ} : 0 < additional ka ks a ↔ ∃ x ∈ a, 1 < ks.count (ka x) := by
  unfold additional
  rw [Nat.pos_iff_ne_zero, Ne, List.sum_eq_zero_iff]
  simp only [List.mem_map, forall_exists_index, and_imp, forall_apply_eq_imp_iff₂, not_forall]
  constructor
  · rintro ⟨x, hx, h⟩
    exact ⟨x, hx, by omega⟩
  · rintro ⟨x, hx, h⟩
    exact ⟨x, hx, by omega⟩

end PiIpython.Join
