import PiIpython.Lib.Lines
import PiIpython.Core.Output

/-!
# The tail of a long output

For a well-formed text `truncateTail` keeps the longest end of its lines within
both limits (`truncateTail_spec`). Within the loop that is an invariant: the
lines kept so far fit, and what comes before them is still to be tried.

The count of the lines that are kept takes an empty last line as one, which the
count of the lines of the returned text does not: there that line is a final
newline (`outputLines_ne`).
-/

namespace PiIpython.Output

open Text

/-- The lines fit in both limits. -/
def Fits (ls : List JsStr) : Prop :=
  ls.length ≤ outputMaxLines ∧ byteLength (join (js "\n") ls) ≤ outputMaxBytes

/-- The text without its final newline. -/
def chomp (content : JsStr) : JsStr :=
  if endsWith content (js "\n") then content.dropLast else content

/-! ## Lines of a text -/

theorem eq_append_of_endsWith {content : JsStr} (h : endsWith content (js "\n") = true) :
    content = content.dropLast ++ [unit '\n'] := by
  obtain ⟨s, rfl⟩ := List.isSuffixOf_iff_suffix.mp h
  show s ++ [unit '\n'] = (s ++ [unit '\n']).dropLast ++ [unit '\n']
  rw [List.dropLast_concat]

/-- **The lines are the parts between newlines, after one final newline is dropped.** -/
theorem lines_eq {content : JsStr} (h : content ≠ []) :
    lines content = split (unit '\n') (chomp content) := by
  have hlen : content.length ≠ 0 := fun h0 => h (List.length_eq_zero_iff.mp h0)
  simp only [lines, chomp, if_neg hlen]
  split
  · next he =>
    conv_lhs => rw [eq_append_of_endsWith he, split_append_self, List.dropLast_concat]
  · rfl

theorem lines_nil : lines [] = [] := rfl

/-- The lines of a text: the empty one has none. -/
def textLines (content : JsStr) : List JsStr :=
  if content = [] then [] else split (unit '\n') (chomp content)

theorem lines_eq_textLines (content : JsStr) : lines content = textLines content := by
  unfold textLines
  split
  · next h => rw [h]; rfl
  · next h => exact lines_eq h

theorem lines_ne_nil {content : JsStr} (h : content ≠ []) : lines content ≠ [] := by
  rw [lines_eq h]
  exact split_ne_nil _ _

theorem not_mem_of_mem_lines {content l : JsStr} (h : l ∈ lines content) : unit '\n' ∉ l := by
  by_cases hc : content = []
  · rw [hc] at h
    cases h
  · rw [lines_eq hc] at h
    exact not_mem_of_mem_split h

theorem wellFormed_of_mem_lines {content l : JsStr} (hw : WellFormed content)
    (h : l ∈ lines content) : WellFormed l := by
  refine hw.of_mem_split (u := unit '\n') (by decide) ?_
  unfold lines at h
  split at h
  · split at h
    · cases h
    · cases h
  · split at h
    · exact List.mem_of_mem_dropLast h
    · exact h

/-- The lines of the parts that a text has between newlines. -/
theorem length_lines_le (content : JsStr) :
    (lines content).length ≤ (split (unit '\n') content).length := by
  by_cases hc : content = []
  · rw [hc]; exact Nat.zero_le _
  · have hlen : content.length ≠ 0 := fun h0 => hc (List.length_eq_zero_iff.mp h0)
    simp only [lines, if_neg hlen]
    split
    · rw [List.length_dropLast]; exact Nat.sub_le _ _
    · exact le_refl _

theorem byteLength_join_lines_le (content : JsStr) :
    byteLength (join (js "\n") (lines content)) ≤ byteLength content := by
  by_cases hc : content = []
  · rw [hc]; exact Nat.zero_le _
  · rw [lines_eq hc]
    show byteLength (join [unit '\n'] _) ≤ _
    rw [join_split]
    unfold chomp
    split
    · next he =>
      conv_rhs => rw [eq_append_of_endsWith he]
      exact byteLength_le_append _ _
    · exact le_refl _

/-! ## The loop -/

/-- **The loop keeps the longest end of the lines that fits**, once it keeps a line. -/
theorem keepLoop_spec {rest kept : List JsStr} {keptBytes : Nat}
    (hw : ∀ l ∈ rest.reverse ++ kept, WellFormed l) (hne : kept ≠ []) (hfits : Fits kept)
    (hb : keptBytes = byteLength (join (js "\n") kept)) :
    Longest Fits (rest.reverse ++ kept) (keepLoop rest kept keptBytes) := by
  induction rest generalizing kept keptBytes with
  | nil => exact .refl hfits
  | cons line rest ih =>
    have hsplit : (line :: rest).reverse ++ kept = rest.reverse ++ line :: kept := by
      rw [List.reverse_cons, List.append_assoc, List.singleton_append]
    rw [hsplit] at hw ⊢
    have hline : WellFormed line := hw line (by simp)
    have hstop : ¬ Fits (line :: kept) → Longest Fits (rest.reverse ++ line :: kept) kept := by
      intro hno
      refine ⟨⟨rest.reverse ++ [line], by simp⟩, hfits, fun r hr hP => ?_⟩
      by_contra hlt
      have hlong : line :: kept <:+ r := by
        refine List.suffix_of_suffix_length_le ⟨rest.reverse, rfl⟩ hr ?_
        rw [List.length_cons]
        omega
      refine hno ⟨hlong.length_le.trans hP.1, le_trans ?_ hP.2⟩
      exact byteLength_join_suffix (fun l hl => hw l (hr.subset hl)) hlong
    have hpos : 0 < kept.length := List.length_pos_iff.mpr hne
    have hbytes := byteLength_join_cons hline hne
    rw [keepLoop, if_pos hpos]
    split
    · next hmax => exact hstop fun h => by have := h.1; rw [List.length_cons] at this; omega
    · next hmax =>
      dsimp only
      split
      · next hover =>
        rw [if_neg hpos.ne']
        exact hstop fun h => by have := h.2; omega
      · next hroom =>
        refine ih hw (List.cons_ne_nil _ _) ⟨?_, ?_⟩ ?_
        · rw [List.length_cons]; omega
        · omega
        · omega

theorem keepLoop_last (line : JsStr) (rest : List JsStr) :
    keepLoop (line :: rest) [] 0 =
      if outputMaxBytes < byteLength line then [endOfLine line outputMaxBytes]
      else keepLoop rest [line] (byteLength line) := by
  rw [keepLoop]
  simp [outputMaxLines]

theorem fits_singleton {line : JsStr} (h : byteLength line ≤ outputMaxBytes) : Fits [line] :=
  ⟨show 1 ≤ outputMaxLines by decide, h⟩

theorem keepLoop_of_fits {ls : List JsStr} {last : JsStr} (hw : ∀ l ∈ ls, WellFormed l)
    (hlast : ls.getLast? = some last) (h : byteLength last ≤ outputMaxBytes) :
    Longest Fits ls (keepLoop ls.reverse [] 0) := by
  obtain ⟨init, rfl⟩ := List.getLast?_eq_some_iff.mp hlast
  have hinit : init.reverse.reverse ++ [last] = init ++ [last] := by rw [List.reverse_reverse]
  rw [List.reverse_append, List.reverse_singleton, List.singleton_append, keepLoop_last,
    if_neg (by omega), ← hinit]
  exact keepLoop_spec (by rwa [hinit]) (List.cons_ne_nil _ _) (fits_singleton h) rfl

theorem keepLoop_of_long {ls : List JsStr} {last : JsStr} (hlast : ls.getLast? = some last)
    (h : outputMaxBytes < byteLength last) :
    keepLoop ls.reverse [] 0 = [endOfLine last outputMaxBytes] := by
  obtain ⟨init, rfl⟩ := List.getLast?_eq_some_iff.mp hlast
  rw [List.reverse_append, List.reverse_singleton, List.singleton_append, keepLoop_last, if_pos h]

/-- **The end of a long line** is the longest one at a character boundary that fits. -/
theorem endOfLine_spec {line : JsStr} (hw : WellFormed line) {maxBytes : Nat}
    (h : maxBytes < byteLength line) :
    ∃ t, Longest (fun r => byteLength (utf16 r) ≤ maxBytes) (decode16 line) t ∧
      endOfLine line maxBytes = utf16 t := by
  obtain ⟨s, hs, rfl⟩ := hw
  rw [byteLength_utf16 hs] at h
  obtain ⟨t, ht, hlong⟩ := exists_cut s ((bytes s).length - maxBytes)
  have hmax : (bytes s).length - ((bytes s).length - maxBytes) = maxBytes := by omega
  rw [hmax] at hlong
  have hbytes : ∀ {r}, r <:+ s → byteLength (utf16 r) = (bytes r).length :=
    fun hr => byteLength_utf16 (hs.suffix hr)
  refine ⟨t, ⟨?_, ?_, fun r hr hfit => ?_⟩, ?_⟩
  · rw [decode16_utf16 hs]; exact hlong.suffix
  · rw [hbytes hlong.suffix]; exact hlong.fits
  · rw [decode16_utf16 hs] at hr
    rw [hbytes hr] at hfit
    exact hlong.longest r hr hfit
  · rw [endOfLine, utf8_utf16 hs, ht, decode8_bytes]

/-! ## What is kept -/

/-- The whole text is within both limits. -/
def Whole (content : JsStr) : Prop :=
  (lines content).length ≤ outputMaxLines ∧ byteLength content ≤ outputMaxBytes

instance (content : JsStr) : Decidable (Whole content) := inferInstanceAs (Decidable (_ ∧ _))

theorem truncateTail_of_whole {content : JsStr} (h : Whole content) :
    truncateTail content = ⟨content, false, (lines content).length, byteLength content,
      (lines content).length, byteLength content⟩ := by
  rw [truncateTail]
  exact if_pos h

theorem truncateTail_of_not_whole {content : JsStr} (h : ¬ Whole content) :
    truncateTail content = ⟨join (js "\n") (keepLoop (lines content).reverse [] 0), true,
      (lines content).length, byteLength content,
      (keepLoop (lines content).reverse [] 0).length,
      byteLength (join (js "\n") (keepLoop (lines content).reverse [] 0))⟩ := by
  rw [truncateTail]
  exact if_neg h

theorem exists_last {content : JsStr} (h : ¬ Whole content) :
    ∃ last, (lines content).getLast? = some last := by
  have hne : content ≠ [] := by
    rintro rfl
    exact h (by decide)
  exact ⟨_, List.getLast?_eq_some_getLast (lines_ne_nil hne)⟩

/-- What is kept of a text beyond the limits fits in them, line by line. -/
theorem kept_spec {content : JsStr} (hw : WellFormed content) (h : ¬ Whole content) :
    let kept := keepLoop (lines content).reverse [] 0
    Fits kept ∧ kept ≠ [] ∧ (∀ l ∈ kept, unit '\n' ∉ l) ∧ kept.length ≤ (lines content).length ∧
      byteLength (join (js "\n") kept) ≤ byteLength content := by
  obtain ⟨last, hlast⟩ := exists_last h
  have hmem : last ∈ lines content := List.mem_of_getLast? hlast
  have hwl : ∀ l ∈ lines content, WellFormed l := fun l hl => wellFormed_of_mem_lines hw hl
  rcases Nat.lt_or_ge outputMaxBytes (byteLength last) with hlong | hfit
  · obtain ⟨t, ht, hend⟩ := endOfLine_spec (hwl last hmem) hlong
    have hsub : ∀ u ∈ utf16 t, u ∈ last := by
      obtain ⟨p, hp⟩ := ht.suffix
      intro u hu
      rw [← utf16_decode16 last, ← hp, utf16_append]
      exact List.mem_append_right _ hu
    have hle : byteLength last ≤ byteLength content := by
      refine le_trans ?_ (byteLength_join_lines_le content)
      exact byteLength_join_suffix hwl (List.singleton_suffix_iff_getLast?_eq_some.mpr hlast)
    rw [keepLoop_of_long hlast hlong, hend]
    refine ⟨fits_singleton ht.fits, List.cons_ne_nil _ _, ?_, ?_, ?_⟩
    · rintro l hl hu
      rw [List.mem_singleton.mp hl] at hu
      exact not_mem_of_mem_lines hmem (hsub _ hu)
    · exact List.length_pos_of_mem hmem
    · exact ht.fits.trans (hlong.le.trans hle)
  · have hk := keepLoop_of_fits hwl hlast hfit
    refine ⟨hk.fits, ?_, fun l hl => not_mem_of_mem_lines (hk.suffix.subset hl),
      hk.suffix.length_le, (byteLength_join_suffix hwl hk.suffix).trans (byteLength_join_lines_le _)⟩
    have := hk.longest [last] (List.singleton_suffix_iff_getLast?_eq_some.mpr hlast)
      (fits_singleton hfit)
    exact List.length_pos_iff.mp this

/-- The returned text is within both limits. -/
theorem whole_truncateTail {content : JsStr} (hw : WellFormed content) :
    Whole (truncateTail content).content := by
  by_cases h : Whole content
  · rw [truncateTail_of_whole h]; exact h
  · obtain ⟨hfits, hne, hnl, -⟩ := kept_spec hw h
    rw [truncateTail_of_not_whole h]
    refine ⟨(length_lines_le _).trans ?_, hfits.2⟩
    rw [show js "\n" = [unit '\n'] from rfl, split_join hne hnl]
    exact hfits.1

/-- **`truncateTail` keeps the longest tail**, counts it, and leaves it alone the second time. -/
theorem truncateTail_spec {content : JsStr} (hw : WellFormed content) :
    let tail := truncateTail content
    let whole := (textLines content).length ≤ outputMaxLines ∧ byteLength content ≤ outputMaxBytes
    (whole → tail.content = content ∧ tail.truncated = false) ∧
    (¬ whole → tail.truncated = true ∧ ∃ last, (textLines content).getLast? = some last ∧
      (byteLength last ≤ outputMaxBytes →
        ∃ kept, Longest Fits (textLines content) kept ∧ tail.content = join (js "\n") kept) ∧
      (outputMaxBytes < byteLength last →
        ∃ t, Longest (fun r => byteLength (utf16 r) ≤ outputMaxBytes) (decode16 last) t ∧
          tail.content = utf16 t)) ∧
    tail.totalLines = (textLines content).length ∧ tail.totalBytes = byteLength content ∧
    tail.outputLines = (if tail.truncated then split (unit '\n') tail.content
      else textLines tail.content).length ∧
    tail.outputBytes = byteLength tail.content ∧
    tail.outputLines ≤ tail.totalLines ∧ tail.outputBytes ≤ tail.totalBytes ∧
    (truncateTail tail.content).content = tail.content ∧
    (truncateTail tail.content).truncated = false := by
  have hagain := truncateTail_of_whole (whole_truncateTail hw)
  simp only [← lines_eq_textLines]
  by_cases h : Whole content
  · rw [truncateTail_of_whole h] at hagain ⊢
    refine ⟨fun _ => ⟨rfl, rfl⟩, fun hno => absurd h hno, rfl, rfl, rfl, rfl, le_refl _, le_refl _,
      ?_, ?_⟩
    · rw [hagain]
    · rw [hagain]
  · obtain ⟨hfits, hne, hnl, hlines, hbytes⟩ := kept_spec hw h
    obtain ⟨last, hlast⟩ := exists_last h
    have hwl : ∀ l ∈ lines content, WellFormed l := fun l hl => wellFormed_of_mem_lines hw hl
    rw [truncateTail_of_not_whole h] at hagain ⊢
    refine ⟨fun hyes => absurd hyes h, fun _ => ⟨rfl, last, hlast, fun hfit => ?_, fun hlong => ?_⟩,
      rfl, rfl, ?_, rfl, hlines, hbytes, ?_, ?_⟩
    · exact ⟨_, keepLoop_of_fits hwl hlast hfit, rfl⟩
    · obtain ⟨t, ht, hend⟩ := endOfLine_spec (hwl last (List.mem_of_getLast? hlast)) hlong
      refine ⟨t, ht, ?_⟩
      rw [keepLoop_of_long hlast hlong, hend]
      rfl
    · rw [if_pos rfl, show js "\n" = [unit '\n'] from rfl, split_join hne hnl]
    · rw [hagain]
    · rw [hagain]

/-- One newline more than a tail has lines. -/
def newlines : JsStr := utf16 (List.replicate 2001 (chr '\n'))

theorem wellFormed_newlines : WellFormed newlines := ⟨_, by decide +kernel, rfl⟩

theorem truncateTail_spec_newlines :
    (truncateTail newlines).outputLines ≤ (truncateTail newlines).totalLines ∧
      (truncateTail (truncateTail newlines).content).content = (truncateTail newlines).content := by
  have h := truncateTail_spec wellFormed_newlines
  exact ⟨h.2.2.2.2.2.2.1, h.2.2.2.2.2.2.2.2.1⟩

/-- **A last line that is kept and empty counts**, though the returned text ends before it. -/
theorem outputLines_ne : WellFormed newlines ∧ (truncateTail newlines).outputLines ≠
    (split (unit '\n') (chomp (truncateTail newlines).content)).length :=
  ⟨wellFormed_newlines, by decide +kernel⟩

end PiIpython.Output
