import PiIpython.Core.Ansi
import PiIpython.Core.Truncate

/-!
# ANSI codes that removing others puts together

One pass over the text removes the complete sequences that it finds. A partial
sequence right before a complete one is kept, and with what follows it may be
complete once the one between is gone. `Interrupted` says that of the output
of a cell, and it is exactly then that an escape sequence is left
(`finalOutput_free_iff`).
-/

namespace PiIpython.Output

open Text

/-- No complete escape sequence starts in the text. -/
def NoSequence (s : JsStr) : Prop := ∀ i, s[i]? = some esc → escapeSequenceEnd s i = none

/-- A partial sequence `a` stands right before a complete one, and `b` after it completes it.
Further complete sequences may stand within `a` and `b`. -/
def Interrupted (output : JsStr) : Prop :=
  ∃ before s a t t' b rest, Across ansi.next output before s ∧ Across ansi.next s a t ∧ a ≠ [] ∧
    ansi.next t = some t' ∧ Across ansi.next t' b rest ∧ ansi.Matches (a ++ b)

/-! ## Sequences in a text -/

theorem matches_ansi {w : JsStr} (h : ansi.Matches w) : ∃ w', w = esc :: w' := by
  cases h with
  | seq hv hw =>
    cases hv with
    | cls hu => exact ⟨_, by rw [of_decide_eq_true hu]; rfl⟩

theorem next_ansi_length {s s' : JsStr} (h : ansi.next s = some s') : s'.length < s.length := by
  obtain ⟨w, rfl, hw⟩ := Regex.exists_matches_of_next h
  obtain ⟨w', rfl⟩ := matches_ansi hw
  simp only [List.length_append, List.length_cons]
  omega

theorem noSequence_iff {s : JsStr} :
    NoSequence s ↔ ∀ a w v, s = a ++ (w ++ v) → ¬ ansi.Matches w := by
  have hesc : ∀ {i}, s[i]? = some esc → s.drop i = esc :: s.drop (i + 1) := by
    intro i hi
    obtain ⟨hlt, hu⟩ := List.getElem?_eq_some_iff.mp hi
    rw [List.drop_eq_getElem_cons hlt, hu]
  constructor
  · intro h a w v hs hw
    obtain ⟨w', rfl⟩ := matches_ansi hw
    have hi : s[a.length]? = some esc := by
      rw [hs, List.getElem?_append_right (le_refl _), Nat.sub_self]
      rfl
    have hnext := next_ansi (hesc hi)
    rw [h _ hi, Option.map_none, Regex.next_eq_none_iff] at hnext
    refine hnext _ v ?_ hw
    rw [← hesc hi, hs, List.drop_left]
  · intro h i hi
    have hnext := next_ansi (hesc hi)
    cases he : escapeSequenceEnd s i with
    | none => rfl
    | some e =>
      rw [he] at hnext
      obtain ⟨w, hw, hm⟩ := Regex.exists_matches_of_next hnext
      refine absurd hm (h (s.take i) w (s.drop e) ?_)
      rw [← hw, ← hesc hi, List.take_append_drop]

/-- **The scanner leaves a text alone** exactly when no sequence starts in it. -/
theorem noSequence_iff_stripAnsi {s : JsStr} : NoSequence s ↔ stripAnsi s = s := by
  rw [noSequence_iff, stripAnsi_eq, Regex.replaceAll]
  induction s using eraseAll.induct ansi.next with
  | case1 =>
    rw [eraseAll_nil]
    refine iff_of_true (fun a w v h hw => ?_) rfl
    obtain ⟨w', rfl⟩ := matches_ansi hw
    have := congrArg List.length h
    simp at this
  | case2 u us h ih =>
    rw [eraseAll_none h, List.cons_eq_cons, and_iff_right rfl, ← ih]
    constructor
    · intro hno a w v hs
      exact hno (u :: a) w v (by rw [hs]; rfl)
    · intro hno a w v hs
      cases a with
      | nil => exact Regex.next_eq_none_iff.mp h w v hs
      | cons x a => exact hno a w v (List.cons.inj hs).2
  | case3 u us rest h hlen _ =>
    rw [eraseAll_some h hlen]
    refine iff_of_false (fun hno => ?_) fun he => ?_
    · obtain ⟨w, hw, hm⟩ := Regex.exists_matches_of_next h
      exact hno [] w rest hw hm
    · have : (eraseAll ansi.next rest).length ≤ _ := length_eraseAll_le rest
      rw [he, List.length_cons] at this
      omega
  | case4 u us rest h hlen _ => exact absurd (Nat.lt_succ_iff.mp (next_ansi_length h)) hlen

/-- **What is left has a sequence exactly when one was interrupted.** -/
theorem noSequence_stripAnsi_iff {output : JsStr} :
    NoSequence (stripAnsi output) ↔ ¬ Interrupted output := by
  rw [noSequence_iff, stripAnsi_eq, Regex.replaceAll]
  constructor
  · rintro hno ⟨before, s, a, t, t', b, rest, hs, ha, -, ht, hb, hm⟩
    have hpass : Across ansi.next t [] t' := .pass ht (next_ansi_length ht) (.refl t')
    have hall := (((hs.trans ha).trans hpass).trans hb).eraseAll_eq
    refine hno before (a ++ b) (eraseAll ansi.next rest) ?_ hm
    rw [hall]
    simp only [List.append_assoc, List.append_nil]
  · intro hno p w v he hm
    refine hno ?_
    obtain ⟨s, hs, he⟩ := Across.exists_of_eraseAll next_ansi_length he
    obtain ⟨rest, hw, -⟩ := Across.exists_of_eraseAll next_ansi_length he
    obtain ⟨w', rfl⟩ := matches_ansi hm
    obtain ⟨us, hskip, hnone, hw'⟩ := hw.exists_unit
    rcases hw'.eq_or_pass with rfl | ⟨a, b, t, t', rfl, rfl, ha, ht, hb⟩
    · exact absurd hm (Regex.next_eq_none_iff.mp hnone _ rest rfl)
    · refine ⟨p, _, esc :: a, t, t', b, rest, ?_, .unit hnone ha, List.cons_ne_nil _ _, ht, hb, hm⟩
      have := hs.trans hskip
      rwa [List.append_nil] at this

/-! ## The tail -/

/-- A surrogate replaced. -/
def replaced (u : CodeUnit) : CodeUnit :=
  if 0xD800 ≤ u.toNat ∧ u.toNat ≤ 0xDFFF then 0xFFFD else u

theorem respects_replaced : ansi.Respects replaced := by
  have heq : ∀ v : CodeUnit, v.toNat < 0xD800 → ∀ u, decide (replaced u = v) = decide (u = v) := by
    intro v hv u
    rw [replaced]
    split
    · next h =>
      rw [decide_eq_false, decide_eq_false]
      · rintro rfl; omega
      · rintro rfl; exact absurd hv (by decide)
    · rfl
  have hin : ∀ low high, high < 0xD800 → ∀ u, within low high (replaced u) = within low high u := by
    intro low high hh u
    rw [replaced]
    split
    · next h =>
      rw [Bool.eq_iff_iff, within_iff, within_iff]
      have : (0xFFFD : CodeUnit).toNat = 0xFFFD := rfl
      omega
    · rfl
  have hne : ∀ u, decide (replaced u ≠ bel) = decide (u ≠ bel) := by
    intro u
    have := heq bel (by decide) u
    rw [decide_eq_decide] at this ⊢
    exact not_congr this
  exact ⟨heq _ (by decide), ⟨heq _ (by decide), hne, heq _ (by decide), heq _ (by decide),
    heq _ (by decide)⟩, hin _ _ (by decide), hin _ _ (by decide), hin _ _ (by decide),
    hin _ _ (by decide)⟩

/-- A text that is another one's, surrogates aside, has no more sequences. -/
theorem NoSequence.of_replaced {s t : JsStr} (hs : NoSequence s)
    (h : t.map replaced <:+: s.map replaced) : NoSequence t := by
  rw [noSequence_iff] at hs ⊢
  rintro a w v rfl hm
  obtain ⟨p, q, h⟩ := h
  rw [List.map_append, List.map_append] at h
  have h : s.map replaced = (p ++ a.map replaced) ++ (w.map replaced ++ (v.map replaced ++ q)) := by
    rw [← h]
    simp only [List.append_assoc]
  obtain ⟨a', s', rfl, -, hs'⟩ := List.map_eq_append_iff.mp h
  obtain ⟨w', v', rfl, hw', -⟩ := List.map_eq_append_iff.mp hs'
  refine hs a' w' v' rfl ?_
  rw [← Regex.matches_map respects_replaced, hw', Regex.matches_map respects_replaced]
  exact hm

theorem map_replaced_scalars (s : JsStr) : (utf16 (scalars s)).map replaced = s.map replaced := by
  conv_rhs => rw [← utf16_decode16 s]
  rw [scalars]
  induction decode16 s with
  | nil => rfl
  | cons c cs ih =>
    rw [List.map_cons, utf16_cons, utf16_cons, List.map_append, List.map_append, ih]
    congr 1
    split
    · next h =>
      have hlt : c.val < 0x10000 := by have := h.2; omega
      have hc : replaced (UInt16.ofNat c.val) = 0xFFFD := by
        rw [replaced, toNat_ofNat hlt]
        exact if_pos h
      rw [encode16_bmp hlt, List.map_singleton, hc]
      rfl
    · rfl

theorem endOfLine_replaced (line : JsStr) (maxBytes : Nat) :
    (endOfLine line maxBytes).map replaced <:+ line.map replaced := by
  obtain ⟨t, ht, hlong⟩ := exists_cut (scalars line) ((utf8 line).length - maxBytes)
  rw [← map_replaced_scalars line, endOfLine, show utf8 line = bytes (scalars line) from rfl]
  rw [show utf8 line = bytes (scalars line) from rfl] at ht
  rw [ht, decode8_bytes]
  obtain ⟨p, hp⟩ := hlong.suffix
  rw [← hp, utf16_append, List.map_append]
  exact List.suffix_append _ _

theorem keepLoop_suffix {rest kept : List JsStr} {keptBytes : Nat} (hne : kept ≠ []) :
    keepLoop rest kept keptBytes <:+ rest.reverse ++ kept := by
  induction rest generalizing kept keptBytes with
  | nil => exact List.suffix_rfl
  | cons line rest ih =>
    have hpos : 0 < kept.length := List.length_pos_iff.mpr hne
    rw [keepLoop, if_pos hpos, if_neg hpos.ne']
    split
    · exact List.suffix_append _ _
    · dsimp only
      split
      · exact List.suffix_append _ _
      · rw [List.reverse_cons, List.append_assoc, List.singleton_append]
        exact ih (List.cons_ne_nil _ _)

theorem join_suffix {t : JsStr} {ls ms : List JsStr} (h : ms <:+ ls) : join t ms <:+ join t ls := by
  induction ls with
  | nil => rw [List.suffix_nil.mp h]
  | cons l ls ih =>
    rcases List.suffix_cons_iff.mp h with rfl | h
    · exact List.suffix_rfl
    · by_cases hls : ls = []
      · rw [hls] at h
        rw [List.suffix_nil.mp h]
        exact List.nil_suffix
      · rw [join_cons l hls]
        exact (ih h).trans (List.suffix_append _ _)

/-- The lines of a text are a start of it. -/
theorem join_lines_isPrefix (content : JsStr) : join (js "\n") (lines content) <+: content := by
  by_cases hc : content = []
  · rw [hc]; exact List.nil_prefix
  · rw [lines_eq hc]
    show join [unit '\n'] _ <+: _
    rw [join_split, chomp]
    split
    · exact List.dropLast_prefix content
    · exact List.prefix_rfl

/-- **The tail is a part of the text**, surrogates aside. -/
theorem truncateTail_replaced (content : JsStr) :
    (truncateTail content).content.map replaced <:+: content.map replaced := by
  by_cases h : Whole content
  · rw [truncateTail_of_whole h]
  · rw [truncateTail_of_not_whole h]
    refine List.IsInfix.trans ?_ ((join_lines_isPrefix content).isInfix.map replaced)
    obtain ⟨last, hlast⟩ := exists_last h
    obtain ⟨init, hinit⟩ := List.getLast?_eq_some_iff.mp hlast
    have hlast : [last] <:+ lines content := ⟨init, hinit.symm⟩
    dsimp only
    rw [hinit, List.reverse_append, List.reverse_singleton, List.singleton_append, keepLoop_last]
    rw [hinit] at hlast
    split
    · exact (endOfLine_replaced last _).isInfix.trans ((join_suffix hlast).isInfix.map replaced)
    · have : keepLoop init.reverse [last] (byteLength last) <:+ init.reverse.reverse ++ [last] :=
        keepLoop_suffix (List.cons_ne_nil last [])
      rw [List.reverse_reverse] at this
      exact (join_suffix this).isInfix.map replaced

/-! ## The result of a cell -/

theorem finalOutput_output {output : JsStr} {save : JsStr → Except JsStr JsStr} {r : FinalOutput}
    (h : finalOutput output save = .ok r) :
    r.output = (truncateTail (stripAnsi output)).content := by
  simp only [finalOutput] at h
  split at h
  · exact (congrArg FinalOutput.output (Except.ok.inj h)).symm
  · split at h
    · cases h
    · exact (congrArg FinalOutput.output (Except.ok.inj h)).symm

/-- **The reported output is free of ANSI codes**, and stripping it is final, exactly when no
sequence of the cell's output was interrupted. -/
theorem finalOutput_free_iff {output : JsStr} {save : JsStr → Except JsStr JsStr} {r : FinalOutput}
    (h : finalOutput output save = .ok r) :
    NoSequence r.output ∧ stripAnsi (stripAnsi output) = stripAnsi output ↔
      ¬ Interrupted output := by
  rw [← noSequence_iff_stripAnsi, ← noSequence_stripAnsi_iff, finalOutput_output h]
  exact and_iff_right_of_imp fun hs => hs.of_replaced (truncateTail_replaced _)

/-- A red word. -/
def redOutput : JsStr := js "\x1b[31mred\x1b[0m"

theorem finalOutput_free_red :
    NoSequence (js "red") ∧ stripAnsi (stripAnsi redOutput) = stripAnsi redOutput ↔
      ¬ Interrupted redOutput := by
  have h : finalOutput redOutput (fun _ => .error []) = .ok ⟨js "red", false, none, none⟩ := by
    decide +kernel
  exact finalOutput_free_iff h

/-- A partial sequence, a complete one, and the end of the first. -/
def interruptedOutput : JsStr := js "\x1b\x1b[m[m"

/-- **A sequence is put together** from the text around one that is removed. -/
theorem finalOutput_interrupted :
    finalOutput interruptedOutput (fun _ => .error []) = .ok ⟨js "\x1b[m", false, none, none⟩ ∧
      escapeSequenceEnd (js "\x1b[m") 0 = some 3 ∧
      stripAnsi (stripAnsi interruptedOutput) ≠ stripAnsi interruptedOutput := by
  decide +kernel

end PiIpython.Output
