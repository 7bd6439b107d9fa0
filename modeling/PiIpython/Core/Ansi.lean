import PiIpython.Lib.Regex
import PiIpython.Lib.Search
import PiIpython.Core.Output

/-!
# Removing ANSI codes

`ansi` is the regular expression that `stripAnsi` replaced. The scanner finds
at each ESC what a backtracking matcher finds there (`next_ansi`), and so
removes the same text (`stripAnsi_eq`).
-/

namespace PiIpython.Output

open Text

/-- The code units of a range. -/
def within (low high : Nat) (u : CodeUnit) : Bool := inRange (some u) low high

/-- One unit, parameter, intermediate and final bytes. -/
def controlRegex : Regex CodeUnit :=
  .seq (.cls (within 0x40 0x5f)) (.seq (.star (.cls (within 0x30 0x3f)))
    (.seq (.star (.cls (within 0x20 0x2f))) (.cls (within 0x40 0x7e))))

/-- BEL or ESC \. -/
def terminatorRegex : Regex CodeUnit :=
  .alt (.cls (· = bel)) (.seq (.cls (· = esc)) (.cls (· = unit '\\')))

def oscRegex : Regex CodeUnit :=
  .seq (.cls (· = unit ']')) (.seq (.star (.cls (· ≠ bel))) terminatorRegex)

/-- ESC, and an OSC or a control sequence. -/
def ansi : Regex CodeUnit := .seq (.cls (· = esc)) (.alt oscRegex controlRegex)

/-! ## Control sequences -/

theorem within_iff {low high : Nat} {u : CodeUnit} :
    within low high u = true ↔ low ≤ u.toNat ∧ u.toNat ≤ high := by
  rw [within, inRange, Bool.and_eq_true, decide_eq_true_eq, decide_eq_true_eq]

theorem drop_skipRange (value : JsStr) (low high i : Nat) :
    value.drop (skipRange value low high i) = (value.drop i).dropWhile (within low high) := by
  rw [skipRange, ← List.drop_drop]
  show (value.drop i).drop ((value.drop i).takeWhile (within low high)).length = _
  conv_lhs =>
    enter [2]
    rw [← List.takeWhile_append_dropWhile (p := within low high) (l := value.drop i)]
  exact List.drop_left

theorem le_skipRange (value : JsStr) (low high i : Nat) : i ≤ skipRange value low high i :=
  Nat.le_add_right _ _

/-- The classes of a control sequence have no unit in common, so that nothing is given back. -/
theorem next_control (u : CodeUnit) (us : JsStr) : controlRegex.next (u :: us) =
    if within 0x40 0x5f u then
      (Regex.cls (within 0x40 0x7e)).next
        ((us.dropWhile (within 0x30 0x3f)).dropWhile (within 0x20 0x2f))
    else none := by
  have hfinal : ∀ v vs, within 0x40 0x7e v = false →
      (Regex.cls (within 0x40 0x7e)).next (v :: vs) = none := by
    intro v vs hv
    rw [Regex.next_cls_cons, hv]
    rfl
  have hnot : ∀ {low high : Nat} {v : CodeUnit}, high < 0x40 → within low high v = true →
      within 0x40 0x7e v = false := by
    intro low high v hh hv
    rw [within_iff] at hv
    rw [← Bool.not_eq_true, within_iff]
    omega
  have hinter : ∀ s, (Regex.seq (.star (.cls (within 0x20 0x2f)))
      (.cls (within 0x40 0x7e))).next s =
      (Regex.cls (within 0x40 0x7e)).next (s.dropWhile (within 0x20 0x2f)) :=
    Regex.next_star_seq fun v vs hv => hfinal v vs (hnot (by decide) hv)
  rw [controlRegex, Regex.next_seq_cls, Regex.next_star_seq, hinter]
  intro v vs hv
  have hno : within 0x20 0x2f v = false := by
    rw [within_iff] at hv
    rw [← Bool.not_eq_true, within_iff]
    omega
  rw [hinter, List.dropWhile_cons_of_neg (by rw [hno]; exact Bool.false_ne_true),
    hfinal v vs (hnot (by decide) hv)]

theorem next_cls_drop (value : JsStr) (low high e : Nat) :
    (Regex.cls (within low high)).next (value.drop e) =
      if inRange value[e]? low high then some (value.drop (e + 1)) else none := by
  rcases Nat.lt_or_ge e value.length with he | he
  · rw [List.drop_eq_getElem_cons he, Regex.next_cls_cons, List.getElem?_eq_getElem he]
    rfl
  · rw [List.drop_eq_nil_of_le he, List.getElem?_eq_none he]
    rfl

theorem next_control_drop (value : JsStr) (start : Nat) :
    controlRegex.next (value.drop (start + 1)) = (controlEnd value start).map value.drop := by
  have hdrop := drop_skipRange value 0x20 0x2f (skipRange value 0x30 0x3f (start + 2))
  rw [drop_skipRange value 0x30 0x3f] at hdrop
  rcases Nat.lt_or_ge (start + 1) value.length with hlt | hge
  · rw [List.drop_eq_getElem_cons hlt, next_control, controlEnd, List.getElem?_eq_getElem hlt]
    split
    · next hu =>
      rw [if_pos (show inRange (some value[start + 1]) 0x40 0x5f = true from hu), ← hdrop,
        next_cls_drop]
      dsimp only
      split <;> rfl
    · next hu => rw [if_neg (show ¬ inRange (some value[start + 1]) 0x40 0x5f = true from hu)]; rfl
  · rw [List.drop_eq_nil_of_le hge, controlEnd, List.getElem?_eq_none hge]
    rfl

/-! ## Operating system commands -/

theorem next_terminator_bel (us : JsStr) : terminatorRegex.next (bel :: us) = some us := by
  rw [terminatorRegex, Regex.next_alt, Regex.next_cls_cons, if_pos (by decide)]
  rfl

/-- Before any BEL, ESC \ is the only terminator. -/
theorem next_terminator {s : JsStr} (h : bel ∉ s) : terminatorRegex.next s =
    if [esc, unit '\\'] <+: s then some (s.drop 2) else none := by
  rw [terminatorRegex, Regex.next_alt]
  cases s with
  | nil => rfl
  | cons u us =>
    rw [List.mem_cons, not_or] at h
    rw [Regex.next_cls_cons, if_neg (by rw [decide_eq_true_eq]; exact Ne.symm h.1), Option.none_or,
      Regex.next_seq_cls]
    cases us with
    | nil =>
      rw [Regex.next_cls_nil, ite_self, if_neg]
      intro hp
      exact absurd hp.length_le (by simp)
    | cons v vs =>
      rw [Regex.next_cls_cons]
      simp only [List.cons_prefix_cons, List.nil_prefix, and_true, decide_eq_true_eq]
      by_cases hu : u = esc
      · by_cases hv : v = unit '\\'
        · simp [hu, hv]
        · simp [hu, hv, Ne.symm hv]
      · simp [hu, Ne.symm hu]

theorem next_osc_cons (u : CodeUnit) (us : JsStr) : oscRegex.next (u :: us) =
    if u = unit ']' then
      match indexOf us bel 0 with
      | some bell => some (us.drop (bell + 1))
      | none => (lastIndexOf us [esc, unit '\\']).map fun i => us.drop (i + 2)
    else none := by
  have hnot : ∀ {a : JsStr}, bel ∉ a → ∀ x ∈ a, decide (x ≠ bel) = true := by
    intro a ha x hx
    rw [decide_eq_true_eq]
    rintro rfl
    exact ha hx
  rw [oscRegex, Regex.next_seq_cls]
  simp only [decide_eq_true_eq]
  refine if_congr Iff.rfl ?_ rfl
  cases hb : indexOf us bel 0 with
  | some bell =>
    obtain ⟨a, b, hs, ha, rfl⟩ := indexOf_eq_some.mp hb
    rw [List.drop_zero] at hs
    subst hs
    refine (Regex.next_star_seq_of_some (show _ = some b from ?_)).trans ?_
    · rw [List.dropWhile_append_of_pos (hnot ha), List.dropWhile_cons_of_neg (by simp),
        next_terminator_bel]
    · refine congrArg some ?_
      rw [Nat.zero_add, ← List.drop_drop, List.drop_left]
      rfl
  | none =>
    have hb : bel ∉ us := indexOf_eq_none.mp hb
    have hterm : ∀ i, terminatorRegex.next (us.drop i) =
        if [esc, unit '\\'] <+: us.drop i then some (us.drop (i + 2)) else none := by
      intro i
      rw [next_terminator fun h => hb (List.mem_of_mem_drop h), List.drop_drop]
    rw [Regex.next_star_seq_of_forall (hnot hb), lastIndexOf]
    simp only [hterm]
    generalize (List.range (us.length + 1)).reverse = l
    induction l with
    | nil => rfl
    | cons i l ih =>
      rw [List.findSome?_cons, List.find?_cons]
      by_cases hp : [esc, unit '\\'] <+: us.drop i
      · rw [if_pos hp, List.isPrefixOf_iff_prefix.mpr hp]; rfl
      · have hp' : List.isPrefixOf [esc, unit '\\'] (us.drop i) = false := by
          rw [← Bool.not_eq_true, List.isPrefixOf_iff_prefix]; exact hp
        rw [if_neg hp, hp']
        exact ih

theorem next_osc_drop (value : JsStr) (start : Nat) :
    oscRegex.next (value.drop (start + 1)) =
      if value[start + 1]? = some (unit ']') then
        match indexOf value bel (start + 2) with
        | some bell => some (value.drop (bell + 1))
        | none => (lastIndexOf value [esc, unit '\\']).bind fun i =>
            if start + 2 ≤ i then some (value.drop (i + 2)) else none
      else none := by
  rcases Nat.lt_or_ge (start + 1) value.length with hlt | hge
  · rw [List.drop_eq_getElem_cons hlt, next_osc_cons, List.getElem?_eq_getElem hlt]
    refine if_congr (Option.some_inj).symm ?_ rfl
    rw [lastIndexOf_drop (show start + 2 ≤ value.length from hlt)]
    cases hb : indexOf value bel (start + 2) with
    | some bell =>
      obtain ⟨a, b, hs, ha, rfl⟩ := indexOf_eq_some.mp hb
      have : indexOf (value.drop (start + 2)) bel 0 = some a.length :=
        indexOf_eq_some.mpr ⟨a, b, hs, ha, (Nat.zero_add _).symm⟩
      rw [this]
      dsimp only
      rw [List.drop_drop]
      rfl
    | none =>
      have : indexOf (value.drop (start + 2)) bel 0 = none :=
        indexOf_eq_none.mpr (by rw [List.drop_zero]; exact indexOf_eq_none.mp hb)
      rw [this]
      cases lastIndexOf value [esc, unit '\\'] with
      | none => rfl
      | some i =>
        dsimp only [Option.bind_some]
        by_cases hi : start + 2 ≤ i
        · rw [if_pos hi, if_pos hi, Option.map_some, List.drop_drop]
          exact congrArg (fun n => some (value.drop n)) (by omega)
        · rw [if_neg hi, if_neg hi]
          rfl
  · rw [List.drop_eq_nil_of_le hge, List.getElem?_eq_none hge]
    rfl

/-! ## The scanner -/

/-- **At an ESC the scanner finds the match of the expression.** -/
theorem next_ansi {value : JsStr} {start : Nat} {us : JsStr} (h : value.drop start = esc :: us) :
    ansi.next (esc :: us) = (escapeSequenceEnd value start).map value.drop := by
  have hus : us = value.drop (start + 1) := by
    rw [← List.drop_drop, h]
    rfl
  rw [ansi, Regex.next_seq_cls, if_pos (by simp), Regex.next_alt, hus, next_osc_drop,
    next_control_drop, escapeSequenceEnd]
  split
  · cases indexOf value bel (start + 2) with
    | some bell => rfl
    | none =>
      cases lastIndexOf value [esc, unit '\\'] with
      | none => rfl
      | some i =>
        dsimp only [Option.bind_some]
        split
        · rfl
        · rfl
  · rfl

/-- A match starts with an ESC. -/
theorem next_ansi_of_ne {u : CodeUnit} (h : u ≠ esc) (us : JsStr) : ansi.next (u :: us) = none := by
  rw [ansi, Regex.next_seq_cls, if_neg (by rw [decide_eq_true_eq]; exact h)]

theorem le_controlEnd {value : JsStr} {start e : Nat} (h : controlEnd value start = some e) :
    start + 2 < e := by
  unfold controlEnd at h
  split at h
  · dsimp only at h
    split at h
    · have h1 := le_skipRange value 0x30 0x3f (start + 2)
      have h2 := le_skipRange value 0x20 0x2f (skipRange value 0x30 0x3f (start + 2))
      have := Option.some.inj h
      omega
    · cases h
  · cases h

theorem le_escapeSequenceEnd {value : JsStr} {start e : Nat}
    (h : escapeSequenceEnd value start = some e) : start + 2 < e := by
  unfold escapeSequenceEnd at h
  split at h
  · split at h
    · next bell hb =>
      obtain ⟨a, b, -, -, rfl⟩ := indexOf_eq_some.mp hb
      have := Option.some.inj h
      omega
    · split at h
      · split at h
        · have := Option.some.inj h
          omega
        · exact le_controlEnd h
      · exact le_controlEnd h
  · exact le_controlEnd h

/-- **The loop copies what is kept and goes on after each match.** -/
theorem stripLoop_eq (value : JsStr) {n i kept : Nat} (hk : kept ≤ i) (hn : value.length < n + i) :
    stripLoop value n (indexOf value esc i) kept =
      slice value kept i ++ ansi.replaceAll (value.drop i) := by
  have hkeep : ∀ {a : JsStr}, esc ∉ a → ∀ u ∈ a, ∀ us, ansi.next (u :: us) = none :=
    fun ha u hu us => next_ansi_of_ne (fun he => ha (he ▸ hu)) us
  induction n generalizing i kept with
  | zero =>
    rw [stripLoop, List.drop_eq_nil_of_le (show value.length ≤ i by omega), Regex.replaceAll,
      eraseAll_nil, ← slice_append_drop hk, List.drop_eq_nil_of_le (show value.length ≤ i by omega)]
  | succ n ih =>
    cases hi : indexOf value esc i with
    | none =>
      rw [stripLoop, Regex.replaceAll, eraseAll_of_forall (hkeep (indexOf_eq_none.mp hi)),
        slice_append_drop hk]
    | some index =>
      obtain ⟨a, us, hs, ha, rfl⟩ := indexOf_eq_some.mp hi
      have hdrop : value.drop (i + a.length) = esc :: us := by
        rw [← List.drop_drop, hs, List.drop_left]
      have hus : value.drop (i + a.length + 1) = us := by
        rw [← List.drop_drop, hdrop]
        rfl
      have hnext := next_ansi hdrop
      rw [stripLoop, hs, Regex.replaceAll, eraseAll_append (hkeep ha), ← List.append_assoc,
        ← slice_append hk hs]
      cases he : escapeSequenceEnd value (i + a.length) with
      | none =>
        rw [he] at hnext
        dsimp only
        have hone : slice value kept (i + a.length + 1) = slice value kept (i + a.length) ++ [esc] :=
          slice_succ (by omega) hdrop
        rw [ih (by omega) (by omega), Regex.replaceAll, eraseAll_none hnext, hus, hone,
          List.append_assoc]
        rfl
      | some e =>
        rw [he] at hnext
        have hle := le_escapeSequenceEnd he
        dsimp only
        rw [ih (le_refl e) (by omega), Regex.replaceAll, slice_self, List.nil_append,
          eraseAll_some hnext]
        rw [← hus, List.length_drop, List.length_drop]
        omega

/-- **`stripAnsi` is the replacement it stands for.** -/
theorem stripAnsi_eq (value : JsStr) : stripAnsi value = ansi.replaceAll value := by
  rw [stripAnsi, stripLoop_eq value (le_refl 0) (by omega), slice_self, List.nil_append,
    List.drop_zero]

end PiIpython.Output
