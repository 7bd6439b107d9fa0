import Mathlib

/-!
# Backtracking regular expressions

A recogniser answers what follows a match at the head of a list. `eraseAll`
leaves out every match, from left to right and without overlap; an empty match
leaves out nothing.

`ends r s` are the rests after the matches of `r` at the head of `s`, in the
order a backtracking matcher tries them: the left alternative first, and a star
as often as it can, no round of it empty. The first of them is the match that a
search takes, and `Regex.replaceAll` is the replacement of all matches by the
empty string.
-/

namespace PiIpython

variable {α : Type}

/-! ## Erasing what a recogniser finds -/

/-- The text without the matches, found from left to right. -/
def eraseAll (next : List α → Option (List α)) : List α → List α
  | [] => []
  | u :: us =>
    match next (u :: us) with
    | none => u :: eraseAll next us
    | some rest =>
      if rest.length ≤ us.length then eraseAll next rest else u :: eraseAll next us
termination_by s => s.length
decreasing_by all_goals simp only [List.length_cons]; omega

section eraseAll

variable {next : List α → Option (List α)}

@[simp] theorem eraseAll_nil : eraseAll next [] = [] := by rw [eraseAll]

theorem eraseAll_none {u : α} {us : List α} (h : next (u :: us) = none) :
    eraseAll next (u :: us) = u :: eraseAll next us := by
  rw [eraseAll, h]

theorem eraseAll_some {u : α} {us rest : List α} (h : next (u :: us) = some rest)
    (hlen : rest.length ≤ us.length) : eraseAll next (u :: us) = eraseAll next rest := by
  rw [eraseAll, h]
  exact if_pos hlen

/-- Where no match starts, all is kept. -/
theorem eraseAll_append {a : List α} (h : ∀ u ∈ a, ∀ us, next (u :: us) = none) (s : List α) :
    eraseAll next (a ++ s) = a ++ eraseAll next s := by
  induction a with
  | nil => rfl
  | cons u a ih =>
    rw [List.forall_mem_cons] at h
    rw [List.cons_append, eraseAll_none (h.1 _), ih h.2, List.cons_append]

theorem eraseAll_of_forall {a : List α} (h : ∀ u ∈ a, ∀ us, next (u :: us) = none) :
    eraseAll next a = a := by
  have := eraseAll_append h []
  rwa [List.append_nil, eraseAll_nil, List.append_nil] at this

theorem length_eraseAll_le (s : List α) : (eraseAll next s).length ≤ s.length := by
  induction s using eraseAll.induct next with
  | case1 => simp
  | case2 u us h ih => rw [eraseAll_none h, List.length_cons, List.length_cons]; omega
  | case3 u us rest h hlen ih => rw [eraseAll_some h hlen, List.length_cons]; omega
  | case4 u us rest h hlen ih =>
    rw [eraseAll, h]
    simp only [if_neg hlen, List.length_cons]
    omega

end eraseAll

/-! ## Reading on across the matches -/

/-- From `s` the units `w` are read, the matches between them passed over, and `rest` is left. -/
inductive Across (next : List α → Option (List α)) : List α → List α → List α → Prop where
  | refl (s : List α) : Across next s [] s
  | pass {s s' w rest : List α} (h : next s = some s') (hlen : s'.length < s.length)
      (hs : Across next s' w rest) : Across next s w rest
  | unit {u : α} {us w rest : List α} (h : next (u :: us) = none)
      (hs : Across next us w rest) : Across next (u :: us) (u :: w) rest

namespace Across

variable {next : List α → Option (List α)} {s t v w rest : List α}

theorem trans (h : Across next s v t) (h' : Across next t w rest) :
    Across next s (v ++ w) rest := by
  induction h with
  | refl s => exact h'
  | pass hn hlen _ ih => exact .pass hn hlen (ih h')
  | unit hn _ ih => exact .unit hn (ih h')

/-- What is read across the matches is what is left of the text when they are erased. -/
theorem eraseAll_eq (h : Across next s w rest) : eraseAll next s = w ++ eraseAll next rest := by
  induction h with
  | refl s => rfl
  | @pass s s' w rest hn hlen _ ih =>
    cases s with
    | nil => exact absurd hlen (Nat.not_lt_zero _)
    | cons u us => rw [eraseAll_some hn (Nat.lt_succ_iff.mp hlen), ih]
  | unit hn _ ih => rw [eraseAll_none hn, ih]; rfl

/-- **Every start of the erased text** is read across the matches. -/
theorem exists_of_eraseAll (hnext : ∀ {s s' : List α}, next s = some s' → s'.length < s.length)
    (h : eraseAll next s = w ++ v) : ∃ rest, Across next s w rest ∧ eraseAll next rest = v := by
  induction s using eraseAll.induct next generalizing w with
  | case1 =>
    rw [eraseAll_nil, eq_comm, List.append_eq_nil_iff] at h
    obtain ⟨rfl, rfl⟩ := h
    exact ⟨[], .refl [], eraseAll_nil⟩
  | case2 u us hn ih =>
    cases w with
    | nil => exact ⟨u :: us, .refl _, h⟩
    | cons x w =>
      rw [eraseAll_none hn, List.cons_append] at h
      obtain ⟨rfl, htail⟩ := List.cons.inj h
      obtain ⟨rest, hr, hv⟩ := ih htail
      exact ⟨rest, .unit hn hr, hv⟩
  | case3 u us s' hn hlen ih =>
    rw [eraseAll_some hn hlen] at h
    obtain ⟨rest, hr, hv⟩ := ih h
    exact ⟨rest, .pass hn (hnext hn) hr, hv⟩
  | case4 u us s' hn hlen _ => exact absurd (Nat.lt_succ_iff.mp (hnext hn)) hlen

/-- The first unit that is read starts no match. -/
theorem exists_unit {u : α} (h : Across next s (u :: w) rest) :
    ∃ us, Across next s [] (u :: us) ∧ next (u :: us) = none ∧ Across next us w rest := by
  generalize hw : u :: w = w' at h
  induction h with
  | refl s => cases hw
  | pass hn hlen _ ih =>
    obtain ⟨us, h1, h2⟩ := ih hw
    exact ⟨us, .pass hn hlen h1, h2⟩
  | @unit x us _ _ hn hs _ =>
    obtain ⟨rfl, rfl⟩ := List.cons.inj hw
    exact ⟨us, .refl _, hn, hs⟩

/-- Either nothing is passed over, or there is a first match that is. -/
theorem eq_or_pass (h : Across next s w rest) : s = w ++ rest ∨
    ∃ a b t t', w = a ++ b ∧ s = a ++ t ∧ Across next s a t ∧ next t = some t' ∧
      Across next t' b rest := by
  induction h with
  | refl s => exact .inl rfl
  | @pass s s' w rest hn _ hs _ => exact .inr ⟨[], w, s, s', rfl, rfl, .refl s, hn, hs⟩
  | unit hn _ ih =>
    rcases ih with rfl | ⟨a, b, t, t', rfl, rfl, ha, ht, hb⟩
    · exact .inl rfl
    · exact .inr ⟨_ :: a, b, t, t', rfl, rfl, .unit hn ha, ht, hb⟩

end Across

/-! ## Expressions -/

inductive Regex (α : Type) where
  | cls (p : α → Bool)
  | seq (a b : Regex α)
  | alt (a b : Regex α)
  | star (a : Regex α)

namespace Regex

/-- As many rounds as possible first; `n` bounds them. -/
def rounds (step : List α → List (List α)) : Nat → List α → List (List α)
  | 0, s => [s]
  | n + 1, s => ((step s).filter fun rest => rest.length < s.length).flatMap (rounds step n) ++ [s]

/-- The rests after the matches at the head, in the order they are tried. -/
def ends : Regex α → List α → List (List α)
  | cls _, [] => []
  | cls p, u :: us => if p u then [us] else []
  | seq a b, s => (ends a s).flatMap (ends b)
  | alt a b, s => ends a s ++ ends b s
  | star a, s => rounds (ends a) s.length s

/-- The rest after the match that is taken at the head. -/
def next (r : Regex α) (s : List α) : Option (List α) := (ends r s).head?

/-- All matches replaced by the empty string. -/
def replaceAll (r : Regex α) (s : List α) : List α := eraseAll r.next s

variable {p : α → Bool} {a b : Regex α} {s : List α}

theorem next_cls_cons (u : α) (us : List α) :
    (cls p).next (u :: us) = if p u then some us else none := by
  rw [next, ends]
  split <;> rfl

theorem next_cls_nil : (cls p).next [] = none := rfl

theorem next_alt : (alt a b).next s = (a.next s).or (b.next s) := by
  rw [next, ends, List.head?_append]; rfl

theorem next_seq : (seq a b).next s = (ends a s).findSome? b.next := by
  rw [next, ends, List.head?_flatMap]; rfl

theorem next_seq_cls (u : α) (us : List α) :
    (seq (cls p) b).next (u :: us) = if p u then b.next us else none := by
  rw [next_seq, ends]
  split
  · rw [List.findSome?_cons]
    cases b.next us <;> rfl
  · rfl

theorem next_seq_cls_nil : (seq (cls p) b).next [] = none := rfl

/-! ## A star of one class -/

/-- The ends of a run of one class, the longest first. -/
def run (p : α → Bool) : List α → List (List α)
  | [] => [[]]
  | u :: us => if p u then run p us ++ [u :: us] else [u :: us]

theorem ends_star_cls (s : List α) : ends (star (cls p)) s = run p s := by
  rw [ends]
  induction s with
  | nil => rfl
  | cons u us ih =>
    rw [List.length_cons, rounds, ends, run]
    split
    · simp only [List.length_cons, Nat.lt_succ_self, decide_true, List.filter_cons_of_pos,
        List.filter_nil, List.flatMap_cons, List.flatMap_nil, List.append_nil, ih]
    · rfl

theorem exists_run (s : List α) : ∃ l, run p s = s.dropWhile p :: l := by
  induction s with
  | nil => exact ⟨[], rfl⟩
  | cons u us ih =>
    obtain ⟨l, hl⟩ := ih
    rw [run, List.dropWhile_cons]
    split
    · exact ⟨l ++ [u :: us], by rw [hl]; rfl⟩
    · exact ⟨[], rfl⟩

/-- **Where the rest cannot start in the class, a star of it never backtracks.** -/
theorem next_star_seq {c : Regex α} (h : ∀ u us, p u = true → c.next (u :: us) = none)
    (s : List α) : (seq (star (cls p)) c).next s = c.next (s.dropWhile p) := by
  rw [next_seq, ends_star_cls]
  induction s with
  | nil => rw [run, List.findSome?_cons, List.dropWhile_nil]; cases c.next [] <;> rfl
  | cons u us ih =>
    rw [run, List.dropWhile_cons]
    split
    · next hu =>
      rw [List.findSome?_append, ih, List.findSome?_cons, h u us hu]
      exact Option.or_none
    · rw [List.findSome?_cons]; cases c.next (u :: us) <;> rfl

/-- What follows the longest run is tried first. -/
theorem next_star_seq_of_some {c : Regex α} {rest : List α}
    (h : c.next (s.dropWhile p) = some rest) : (seq (star (cls p)) c).next s = some rest := by
  obtain ⟨l, hl⟩ := exists_run (p := p) s
  rw [next_seq, ends_star_cls, hl, List.findSome?_cons, h]

/-- A run to the end is given up step by step from there. -/
theorem next_star_seq_of_forall {c : Regex α} (h : ∀ u ∈ s, p u = true) :
    (seq (star (cls p)) c).next s =
      (List.range (s.length + 1)).reverse.findSome? fun i => c.next (s.drop i) := by
  rw [next_seq, ends_star_cls]
  induction s with
  | nil => rfl
  | cons u us ih =>
    rw [List.forall_mem_cons] at h
    rw [run, if_pos h.1, List.findSome?_append, ih h.2, List.length_cons]
    conv_rhs => rw [List.range_succ_eq_map, List.reverse_cons, List.findSome?_append,
      ← List.map_reverse, List.findSome?_map]
    rfl

/-! ## The language -/

/-- The expression describes the whole list. -/
inductive Matches : Regex α → List α → Prop where
  | cls {p : α → Bool} {u : α} (h : p u = true) : Matches (cls p) [u]
  | seq {a b : Regex α} {v w : List α} (hv : Matches a v) (hw : Matches b w) :
      Matches (seq a b) (v ++ w)
  | altLeft {a b : Regex α} {w : List α} (h : Matches a w) : Matches (alt a b) w
  | altRight {a b : Regex α} {w : List α} (h : Matches b w) : Matches (alt a b) w
  | starNil {a : Regex α} : Matches (star a) []
  | starCons {a : Regex α} {v w : List α} (hv : Matches a v) (hw : Matches (star a) w) :
      Matches (star a) (v ++ w)

theorem matches_of_mem_rounds {step : List α → List (List α)}
    (hstep : ∀ {s rest}, rest ∈ step s → ∃ w, s = w ++ rest ∧ Matches a w) {n : Nat}
    {rest : List α} (h : rest ∈ rounds step n s) :
    ∃ w, s = w ++ rest ∧ Matches (star a) w := by
  induction n generalizing s with
  | zero =>
    rw [rounds, List.mem_singleton] at h
    exact ⟨[], h.symm, .starNil⟩
  | succ n ih =>
    rw [rounds, List.mem_append, List.mem_flatMap, List.mem_singleton] at h
    rcases h with ⟨t, ht, h⟩ | rfl
    · obtain ⟨v, rfl, hv⟩ := hstep (List.mem_filter.mp ht).1
      obtain ⟨w, rfl, hw⟩ := ih h
      exact ⟨v ++ w, (List.append_assoc v w rest).symm, .starCons hv hw⟩
    · exact ⟨[], rfl, .starNil⟩

theorem mem_rounds_of_matches {step : List α → List (List α)}
    (hstep : ∀ {w rest}, Matches a w → rest ∈ step (w ++ rest)) {r : Regex α} {w rest : List α}
    (h : Matches r w) (hr : r = star a) {n : Nat} (hn : w.length ≤ n) :
    rest ∈ rounds step n (w ++ rest) := by
  have hstay : ∀ m s, s ∈ rounds step m s := by
    intro m s
    cases m with
    | zero => exact List.mem_singleton_self s
    | succ m => exact List.mem_append_right _ (List.mem_singleton_self s)
  induction h generalizing n with
  | cls | seq | altLeft | altRight => cases hr
  | starNil => exact hstay n _
  | @starCons a' v w hv hw _ ih =>
    cases hr
    rcases List.eq_nil_or_concat v with rfl | hne
    · exact ih rfl hn
    · have hpos : 0 < v.length := by
        obtain ⟨l, x, rfl⟩ := hne
        simp
      rw [List.length_append] at hn
      obtain ⟨m, rfl⟩ : ∃ m, n = m + 1 := ⟨n - 1, by omega⟩
      rw [rounds, List.mem_append, List.mem_flatMap]
      refine .inl ⟨w ++ rest, List.mem_filter.mpr ⟨?_, ?_⟩, ih rfl (by omega)⟩
      · rw [List.append_assoc]
        exact hstep hv
      · rw [decide_eq_true_eq, List.append_assoc]
        simp only [List.length_append]
        omega

/-- **The matcher finds the words of the language** at the head of a list. -/
theorem mem_ends_iff {r : Regex α} {s rest : List α} :
    rest ∈ ends r s ↔ ∃ w, s = w ++ rest ∧ Matches r w := by
  induction r generalizing s rest with
  | cls p =>
    constructor
    · intro h
      cases s with
      | nil => cases h
      | cons u us =>
        rw [ends] at h
        split at h
        · next hu => exact ⟨[u], by rw [List.mem_singleton.mp h]; rfl, .cls hu⟩
        · cases h
    · rintro ⟨w, rfl, hw⟩
      cases hw with
      | @cls _ u hu =>
        rw [List.singleton_append, ends, if_pos hu]
        exact List.mem_singleton_self _
  | seq a b iha ihb =>
    rw [ends, List.mem_flatMap]
    constructor
    · rintro ⟨t, ht, h⟩
      obtain ⟨v, rfl, hv⟩ := iha.mp ht
      obtain ⟨w, rfl, hw⟩ := ihb.mp h
      exact ⟨v ++ w, (List.append_assoc v w rest).symm, .seq hv hw⟩
    · rintro ⟨_, rfl, hw⟩
      cases hw with
      | @seq _ _ v w hv hw =>
        exact ⟨w ++ rest, iha.mpr ⟨v, List.append_assoc v w rest, hv⟩, ihb.mpr ⟨w, rfl, hw⟩⟩
  | alt a b iha ihb =>
    rw [ends, List.mem_append, iha, ihb]
    constructor
    · rintro (⟨w, hs, h⟩ | ⟨w, hs, h⟩)
      · exact ⟨w, hs, .altLeft h⟩
      · exact ⟨w, hs, .altRight h⟩
    · rintro ⟨w, hs, h⟩
      cases h with
      | altLeft h => exact .inl ⟨w, hs, h⟩
      | altRight h => exact .inr ⟨w, hs, h⟩
  | star a ih =>
    rw [ends]
    constructor
    · exact matches_of_mem_rounds fun h => ih.mp h
    · rintro ⟨w, rfl, hw⟩
      refine mem_rounds_of_matches (fun h => ih.mpr ⟨_, rfl, h⟩) hw rfl ?_
      rw [List.length_append]
      exact Nat.le_add_right _ _

theorem next_eq_none_iff {r : Regex α} {s : List α} :
    r.next s = none ↔ ∀ w rest, s = w ++ rest → ¬ r.Matches w := by
  rw [next, List.head?_eq_none_iff, List.eq_nil_iff_forall_not_mem]
  constructor
  · intro h w rest hs hw
    exact h rest (mem_ends_iff.mpr ⟨w, hs, hw⟩)
  · intro h rest hr
    obtain ⟨w, hs, hw⟩ := mem_ends_iff.mp hr
    exact h w rest hs hw

theorem exists_matches_of_next {r : Regex α} {s rest : List α} (h : r.next s = some rest) :
    ∃ w, s = w ++ rest ∧ r.Matches w := by
  rw [next, List.head?_eq_some_iff] at h
  obtain ⟨l, hl⟩ := h
  exact mem_ends_iff.mp (hl ▸ List.mem_cons_self)

/-- A change of units that no class of the expression sees. -/
def Respects (g : α → α) : Regex α → Prop
  | cls p => ∀ u, p (g u) = p u
  | seq a b => a.Respects g ∧ b.Respects g
  | alt a b => a.Respects g ∧ b.Respects g
  | star a => a.Respects g

theorem matches_map {g : α → α} {r : Regex α} (hr : r.Respects g) {w : List α} :
    r.Matches (w.map g) ↔ r.Matches w := by
  constructor
  · intro h
    generalize hw : w.map g = w' at h
    induction h generalizing w with
    | cls h =>
      obtain ⟨u, rfl, rfl⟩ := List.map_eq_singleton_iff.mp hw
      exact .cls (hr u ▸ h)
    | seq _ _ iha ihb =>
      obtain ⟨v, w, rfl, hv, hw⟩ := List.map_eq_append_iff.mp hw
      exact .seq (iha hr.1 hv) (ihb hr.2 hw)
    | altLeft _ ih => exact .altLeft (ih hr.1 hw)
    | altRight _ ih => exact .altRight (ih hr.2 hw)
    | starNil =>
      rw [List.map_eq_nil_iff.mp hw]
      exact .starNil
    | starCons _ _ iha ihb =>
      obtain ⟨v, w, rfl, hv, hw⟩ := List.map_eq_append_iff.mp hw
      exact .starCons (iha hr hv) (ihb hr hw)
  · intro h
    induction h with
    | cls h => exact .cls ((hr _).trans h)
    | seq _ _ iha ihb => rw [List.map_append]; exact .seq (iha hr.1) (ihb hr.2)
    | altLeft _ ih => exact .altLeft (ih hr.1)
    | altRight _ ih => exact .altRight (ih hr.2)
    | starNil => exact .starNil
    | starCons _ _ iha ihb => rw [List.map_append]; exact .starCons (iha hr) (ihb hr)

end Regex

end PiIpython
