import Mathlib

/-!
# Dictionaries in order of insertion

A `Dict K V` is a list of entries with no key twice, as Python's `dict`: a new
key goes to the end, an old one keeps its place.
-/

namespace PiIpython

structure Dict (K V : Type) where
  entries : List (K × V)
  nodup : (entries.map (·.1)).Nodup

namespace Dict

variable {K V : Type}

def empty : Dict K V := ⟨[], List.nodup_nil⟩

def keys (d : Dict K V) : List K := d.entries.map (·.1)

def values (d : Dict K V) : List V := d.entries.map (·.2)

@[simp] theorem keys_empty : (empty : Dict K V).keys = [] := rfl

theorem mem_keys_of_mem {d : Dict K V} {k : K} {v : V} (h : (k, v) ∈ d.entries) : k ∈ d.keys :=
  List.mem_map_of_mem (f := (·.1)) h

variable [DecidableEq K]

def get? (d : Dict K V) (k : K) : Option V := (d.entries.find? (·.1 = k)).map (·.2)

def erase (d : Dict K V) (k : K) : Dict K V :=
  ⟨d.entries.filter (·.1 ≠ k), d.nodup.sublist (List.filter_sublist.map _)⟩

/-- The entries with the value of `k` replaced. -/
def replaced (l : List (K × V)) (k : K) (v : V) : List (K × V) :=
  l.map fun p => if p.1 = k then (k, v) else p

theorem map_fst_replaced (l : List (K × V)) (k : K) (v : V) :
    (replaced l k v).map (·.1) = l.map (·.1) := by
  rw [replaced, List.map_map]
  refine List.map_congr_left fun p _ => ?_
  by_cases h : p.1 = k <;> simp [h]

def set (d : Dict K V) (k : K) (v : V) : Dict K V :=
  if h : k ∈ d.keys then ⟨replaced d.entries k v, by rw [map_fst_replaced]; exact d.nodup⟩
  else ⟨d.entries ++ [(k, v)], by
    rw [List.map_append, List.nodup_append]
    refine ⟨d.nodup, List.nodup_singleton _, ?_⟩
    rintro a ha b hb rfl
    rw [List.map_singleton, List.mem_singleton] at hb
    subst hb
    exact h ha⟩

/-! ## What is found -/

theorem find?_eq_some {l : List (K × V)} (hl : (l.map (·.1)).Nodup) {k : K} {p : K × V} :
    l.find? (·.1 = k) = some p ↔ p ∈ l ∧ p.1 = k := by
  constructor
  · intro h
    exact ⟨List.mem_of_find?_eq_some h, by simpa using List.find?_some h⟩
  · rintro ⟨hp, hk⟩
    induction l with
    | nil => cases hp
    | cons q l ih =>
      rw [List.map_cons, List.nodup_cons] at hl
      rw [List.find?_cons]
      rcases List.mem_cons.mp hp with rfl | hp
      · simp [hk]
      · have hq : q.1 ≠ k := by
          rintro rfl
          exact hl.1 (hk ▸ List.mem_map_of_mem (f := (·.1)) hp)
        simp [hq, ih hl.2 hp]

theorem get?_eq_some {d : Dict K V} {k : K} {v : V} :
    d.get? k = some v ↔ (k, v) ∈ d.entries := by
  rw [get?, Option.map_eq_some_iff]
  constructor
  · rintro ⟨⟨k', v'⟩, h, rfl⟩
    obtain ⟨hm, rfl⟩ := (find?_eq_some d.nodup).mp h
    exact hm
  · exact fun h => ⟨(k, v), (find?_eq_some d.nodup).mpr ⟨h, rfl⟩, rfl⟩

theorem get?_isSome {d : Dict K V} {k : K} : (d.get? k).isSome ↔ k ∈ d.keys := by
  rw [Option.isSome_iff_exists]
  constructor
  · rintro ⟨v, h⟩
    exact mem_keys_of_mem (get?_eq_some.mp h)
  · intro h
    obtain ⟨⟨k', v⟩, hm, rfl⟩ := List.mem_map.mp h
    exact ⟨v, get?_eq_some.mpr hm⟩

theorem get?_eq_none {d : Dict K V} {k : K} : d.get? k = none ↔ k ∉ d.keys := by
  rw [← get?_isSome, Option.not_isSome_iff_eq_none]

@[simp] theorem get?_empty (k : K) : (empty : Dict K V).get? k = none := rfl

theorem mem_entries_set {d : Dict K V} {k : K} {v : V} {p : K × V} :
    p ∈ (d.set k v).entries ↔ p = (k, v) ∨ p ∈ d.entries ∧ p.1 ≠ k := by
  unfold set
  split
  · next h =>
    change p ∈ replaced d.entries k v ↔ _
    rw [replaced, List.mem_map]
    constructor
    · rintro ⟨q, hq, rfl⟩
      by_cases hk : q.1 = k
      · exact .inl (if_pos hk)
      · exact .inr (by rw [if_neg hk]; exact ⟨hq, hk⟩)
    · rintro (rfl | ⟨hp, hk⟩)
      · obtain ⟨q, hq, hk⟩ := List.mem_map.mp h
        exact ⟨q, hq, if_pos hk⟩
      · exact ⟨p, hp, if_neg hk⟩
  · next h =>
    change p ∈ d.entries ++ [(k, v)] ↔ _
    rw [List.mem_append, List.mem_singleton]
    constructor
    · rintro (hp | rfl)
      · exact .inr ⟨hp, fun hk => h (hk ▸ List.mem_map_of_mem (f := (·.1)) hp)⟩
      · exact .inl rfl
    · rintro (rfl | ⟨hp, -⟩)
      · exact .inr rfl
      · exact .inl hp

@[simp] theorem get?_set_self (d : Dict K V) (k : K) (v : V) : (d.set k v).get? k = some v :=
  get?_eq_some.mpr (mem_entries_set.mpr (.inl rfl))

theorem get?_set_of_ne (d : Dict K V) {k k' : K} (v : V) (h : k' ≠ k) :
    (d.set k v).get? k' = d.get? k' := by
  refine Option.ext fun x => ?_
  rw [get?_eq_some, get?_eq_some, mem_entries_set]
  constructor
  · rintro (hp | ⟨hp, -⟩)
    · exact absurd (Prod.mk.inj hp).1 h
    · exact hp
  · exact fun hp => .inr ⟨hp, h⟩

theorem get?_set (d : Dict K V) (k k' : K) (v : V) :
    (d.set k v).get? k' = if k' = k then some v else d.get? k' := by
  split
  · next h => rw [h, get?_set_self]
  · next h => exact get?_set_of_ne d v h

theorem get?_erase (d : Dict K V) (k k' : K) :
    (d.erase k).get? k' = if k' = k then none else d.get? k' := by
  refine Option.ext fun x => ?_
  rw [get?_eq_some, erase, List.mem_filter]
  split
  · next h => simp [h]
  · next h => simp [h, get?_eq_some]

@[simp] theorem get?_erase_self (d : Dict K V) (k : K) : (d.erase k).get? k = none := by
  rw [get?_erase, if_pos rfl]

theorem get?_erase_of_ne (d : Dict K V) {k k' : K} (h : k' ≠ k) :
    (d.erase k).get? k' = d.get? k' := by
  rw [get?_erase, if_neg h]

theorem mem_keys_set {d : Dict K V} {k k' : K} {v : V} :
    k' ∈ (d.set k v).keys ↔ k' = k ∨ k' ∈ d.keys := by
  rw [← get?_isSome, get?_set, ← get?_isSome]
  split
  · next h => simp [h]
  · next h => simp [h]

theorem mem_keys_erase {d : Dict K V} {k k' : K} :
    k' ∈ (d.erase k).keys ↔ k' ≠ k ∧ k' ∈ d.keys := by
  rw [← get?_isSome, get?_erase, ← get?_isSome]
  split
  · next h => simp [h]
  · next h => simp [h]

/-! ## All entries at once -/

omit [DecidableEq K] in
theorem eq_of_entries {c d : Dict K V} (h : c.entries = d.entries) : c = d := by
  obtain ⟨l, hl⟩ := c
  obtain ⟨l', hl'⟩ := d
  cases h
  rfl

theorem set_of_not_mem {d : Dict K V} {k : K} {v : V} (h : k ∉ d.keys) :
    (d.set k v).entries = d.entries ++ [(k, v)] := by
  unfold set
  rw [dif_neg h]

/-- The entries, set one after the other, make the dictionary. -/
theorem foldl_set_entries (d : Dict K V) :
    d.entries.foldl (fun c p => c.set p.1 p.2) empty = d := by
  -- of the entries that are left, no key is in the dictionary so far
  have hfold : ∀ (l : List (K × V)) (c : Dict K V), ((c.entries ++ l).map (·.1)).Nodup →
      (l.foldl (fun c p => c.set p.1 p.2) c).entries = c.entries ++ l := by
    intro l
    induction l with
    | nil => exact fun c _ => (List.append_nil _).symm
    | cons p l ih =>
      intro c hc
      have hp : p.1 ∉ c.keys := by
        rw [List.map_append, List.map_cons, List.nodup_append] at hc
        exact fun h => hc.2.2 _ h _ List.mem_cons_self rfl
      have hset := set_of_not_mem (v := p.2) hp
      rw [List.foldl_cons, ih, hset, List.append_assoc]
      · rfl
      · rwa [hset, List.append_assoc]
  exact eq_of_entries (hfold d.entries empty d.nodup)

/-- The dictionary with its values replaced. -/
def mapValues {V' : Type} (f : V → V') (d : Dict K V) : Dict K V' :=
  ⟨d.entries.map fun p => (p.1, f p.2), by rw [List.map_map]; exact d.nodup⟩

theorem mapValues_set {V' : Type} (f : V → V') (d : Dict K V) (k : K) (v : V) :
    (d.set k v).mapValues f = (d.mapValues f).set k (f v) := by
  have hkeys : (d.mapValues f).keys = d.keys := List.map_map ..
  apply eq_of_entries
  unfold set mapValues
  by_cases h : k ∈ d.keys
  · rw [dif_pos h, dif_pos (hkeys ▸ h)]
    dsimp only [replaced]
    rw [List.map_map, List.map_map]
    refine List.map_congr_left fun p _ => ?_
    by_cases hk : p.1 = k <;> simp [hk]
  · rw [dif_neg h, dif_neg (hkeys ▸ h)]
    exact List.map_append

/-- The weight of the entries, when only those of the keys of `S` weigh anything. -/
theorem sum_entries_le {d : Dict K V} {w : V → ℕ} {S : Finset K}
    (h : ∀ k v, d.get? k = some v → w v ≠ 0 → k ∈ S) :
    (d.entries.map fun p => w p.2).sum ≤ ∑ k ∈ S, (d.get? k).elim 0 w := by
  have hkeys : (d.entries.map fun p => w p.2) = d.keys.map fun k => (d.get? k).elim 0 w := by
    unfold keys
    rw [List.map_map]
    refine List.map_congr_left fun p hp => ?_
    rw [Function.comp_apply, get?_eq_some.mpr hp]
    rfl
  rw [hkeys, ← List.sum_toFinset _ (show d.keys.Nodup from d.nodup)]
  refine Finset.sum_le_sum_of_ne_zero fun k _ hk => ?_
  cases hv : d.get? k with
  | none =>
    rw [hv] at hk
    exact absurd rfl hk
  | some v =>
    rw [hv] at hk
    exact h k v hv hk

end Dict

end PiIpython
