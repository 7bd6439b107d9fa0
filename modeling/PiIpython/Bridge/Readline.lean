import PiIpython.Bridge.Send
import PiIpython.Lib.JsonRoundTrip
import PiIpython.Core.Message

/-!
# The lines that the runtime reads

`readLines` is Node's readline: LF, CR, CR LF, U+2028 and U+2029 end a line.
The texts of `dumps` have no control characters, so a text written with a
newline is one line unless a string in it has U+2028 or U+2029. What `dumps`
writes, `JSON.parse` reads back, each number as the nearest double.
-/

namespace PiIpython.Bridge

open Text Json

/-! ## Node's readline -/

def lineFeed : CodeUnit := 10

def carriageReturn : CodeUnit := 13

/-- U+2028 and U+2029, which JSON does not escape. -/
def IsSeparator (u : CodeUnit) : Prop := u = 0x2028 ∨ u = 0x2029

instance (u : CodeUnit) : Decidable (IsSeparator u) := inferInstanceAs (Decidable (_ ∨ _))

def IsLineEnd (u : CodeUnit) : Prop := u = lineFeed ∨ u = carriageReturn ∨ IsSeparator u

instance (u : CodeUnit) : Decidable (IsLineEnd u) := inferInstanceAs (Decidable (_ ∨ _))

/-- The lines of a stream. `cr` says that the last unit was a CR, `buf` is the line so far; at the
end of the stream a line that was started counts. -/
def readLines (cr : Bool) (buf : JsStr) : JsStr → List JsStr
  | [] => if buf = [] then [] else [buf]
  | c :: cs =>
    if cr ∧ c = lineFeed then readLines false buf cs
    else if IsLineEnd c then buf :: readLines (c = carriageReturn) [] cs
    else readLines false (buf ++ [c]) cs

/-- The lines of the whole output. -/
def linesOf (s : JsStr) : List JsStr := readLines false [] s

/-- A text cut at its separators. -/
def pieces (buf : JsStr) : JsStr → List JsStr
  | [] => [buf]
  | c :: cs => if IsSeparator c then buf :: pieces [] cs else pieces (buf ++ [c]) cs

/-- A text without CR and LF, written with a newline, is read as its pieces. -/
theorem readLines_text {t : JsStr} (ht : ∀ u ∈ t, u ≠ lineFeed ∧ u ≠ carriageReturn) (r : JsStr) :
    ∀ buf, readLines false buf (t ++ lineFeed :: r) = pieces buf t ++ linesOf r := by
  induction t with
  | nil =>
    intro buf
    rw [List.nil_append, readLines, if_neg (by simp), if_pos (.inl rfl)]
    rfl
  | cons c cs ih =>
    intro buf
    have hc := ht c List.mem_cons_self
    have ih := ih fun u hu => ht u (List.mem_cons_of_mem _ hu)
    rw [List.cons_append, readLines, if_neg (by simp), pieces]
    by_cases hs : IsSeparator c
    · rw [if_pos (.inr (.inr hs)), if_pos hs, decide_eq_false hc.2, ih]
      rfl
    · rw [if_neg (by rintro (h | h | h); exacts [hc.1 h, hc.2 h, hs h]), if_neg hs, ih]

theorem pieces_of_none {t : JsStr} (ht : ∀ u ∈ t, ¬ IsSeparator u) : ∀ buf, pieces buf t = [buf ++ t] := by
  induction t with
  | nil => intro buf; rw [pieces, List.append_nil]
  | cons c cs ih =>
    intro buf
    rw [pieces, if_neg (ht c List.mem_cons_self), ih fun u hu => ht u (List.mem_cons_of_mem _ hu),
      List.append_assoc, List.singleton_append]

/-- The first piece is a proper prefix when there is a separator. -/
theorem pieces_of_some {t : JsStr} {u : CodeUnit} (hu : u ∈ t) (hs : IsSeparator u) :
    ∀ buf, ∃ p q ps, pieces buf t = p :: ps ∧ buf ++ t = p ++ q ∧ q ≠ [] := by
  induction t with
  | nil => cases hu
  | cons c cs ih =>
    intro buf
    by_cases hc : IsSeparator c
    · exact ⟨buf, c :: cs, pieces [] cs, by rw [pieces, if_pos hc], rfl, by simp⟩
    · have hu' : u ∈ cs := (List.mem_cons.mp hu).resolve_left fun h => hc (h ▸ hs)
      obtain ⟨p, q, ps, hp, hq, hne⟩ := ih hu' (buf ++ [c])
      exact ⟨p, q, ps, by rw [pieces, if_neg hc, hp], by simpa using hq, hne⟩

/-! ## Strings -/

theorem parseChars_units {l : JsStr} (t : JsStr)
    (h : ∀ u ∈ l, u ≠ unit '"' ∧ u ≠ unit '\\' ∧ ¬ u.toNat < 32) :
    parseChars (l ++ t) = (parseChars t).map fun p => (l ++ p.1, p.2) := by
  induction l with
  | nil => simp
  | cons u l ih =>
    obtain ⟨h1, h2, h3⟩ := h u List.mem_cons_self
    rw [List.cons_append, parseChars_plain h1 h2 h3, ih fun v hv => h v (List.mem_cons_of_mem _ hv)]
    cases parseChars t <;> rfl

/-- A two-character escape. -/
theorem parseChars_two {c : CodePoint} {e : Char} {u : CodeUnit} (t : JsStr)
    (he : unit e ≠ unit 'u') (hu : unescape (unit e) = some u) (hc : encode16 c = [u]) :
    parseChars ([unit '\\', unit e] ++ t) =
      (parseChars t).map fun p => (encode16 c ++ p.1, p.2) := by
  rw [List.cons_append, List.singleton_append, parseChars_escape he, hu, hc]
  rfl

theorem hex4_unicode : ∀ n < 32,
    hex4 (unit (hexDigit (n / 4096 % 16))) (unit (hexDigit (n / 256 % 16)))
      (unit (hexDigit (n / 16 % 16))) (unit (hexDigit (n % 16))) = some (UInt16.ofNat n) := by
  decide

theorem utf16_unicodeEscape : ∀ n < 32,
    utf16 (unicodeEscape n) = [unit '\\', unit 'u', unit (hexDigit (n / 4096 % 16)),
      unit (hexDigit (n / 256 % 16)), unit (hexDigit (n / 16 % 16)), unit (hexDigit (n % 16))] := by
  decide

theorem parseChars_escapeChar (c : CodePoint) (t : JsStr) :
    parseChars (utf16 (escapeChar c) ++ t) =
      (parseChars t).map fun p => (encode16 c ++ p.1, p.2) := by
  unfold escapeChar
  split
  · next h => subst h; exact parseChars_two t (e := '"') (by decide) rfl rfl
  split
  · next h => subst h; exact parseChars_two t (e := '\\') (by decide) rfl rfl
  split
  · next h => subst h; exact parseChars_two t (e := 'n') (by decide) rfl rfl
  split
  · next h => subst h; exact parseChars_two t (e := 'r') (by decide) rfl rfl
  split
  · next h => subst h; exact parseChars_two t (e := 't') (by decide) rfl rfl
  split
  · next h =>
    obtain rfl : c = 8 := Fin.ext h
    exact parseChars_two t (e := 'b') (by decide) rfl rfl
  split
  · next h =>
    obtain rfl : c = 12 := Fin.ext h
    exact parseChars_two t (e := 'f') (by decide) rfl rfl
  split
  · next h =>
    rw [utf16_unicodeEscape _ h, encode16_bmp (by omega)]
    simp only [List.cons_append, List.nil_append]
    rw [parseChars_u, hex4_unicode _ h]
    rfl
  · next hq hb _ _ _ _ _ h32 =>
    rw [utf16_cons, utf16_nil, List.append_nil]
    refine parseChars_units t fun u hu => ?_
    have hne : ∀ d : Char, d.toNat < 0x10000 → (d.toNat < 0xD800) → c ≠ chr d → u ≠ unit d := by
      intro d hd hd' hcd he
      subst he
      have htn : (unit d).toNat = d.toNat := toNat_ofNat hd
      rcases mem_encode16 hu with h | h
      · refine hcd (Fin.ext ?_)
        rw [← h, htn]
        simp only [chr, Fin.ofNat]
        omega
      · omega
    refine ⟨hne '"' (by decide) (by decide) hq, hne '\\' (by decide) (by decide) hb, ?_⟩
    rcases mem_encode16 hu with h | h <;> omega

/-- **The inside of a string is read back.** -/
theorem parseChars_escaped (s : PyStr) (r : JsStr) :
    parseChars (utf16 (s.flatMap escapeChar) ++ unit '"' :: r) = some (utf16 s, r) := by
  induction s with
  | nil => exact parseChars_quote r
  | cons c s ih =>
    rw [List.flatMap_cons, utf16_append, List.append_assoc, parseChars_escapeChar, ih]
    rfl

/-! ## Texts of `dumps` -/

/-- `float.__repr__` writes every finite float as a JSON literal whose nearest double it is. -/
def ReadsBack (repr : Binary64 → PyStr) : Prop :=
  ∀ x : Binary64, x.IsFinite → ∃ l : NumLit, l.WF ∧ repr x = renderLit chr l ∧ l.toNumber = x

/-- The double that a reader of JSON makes of a number. It reads neither NaN nor the infinities. -/
def jsNumber : PyNum → Option Binary64
  | .int z => some (.round (z < 0) z.natAbs)
  | .float x => if x.IsFinite then some x else none

theorem utf16_renderLit (l : NumLit) : utf16 (renderLit chr l) = renderLit unit l := by
  rw [renderLit_map, renderLit_map unit]
  exact utf16_map_chr fun c hc => Nat.lt_trans (isSyntax_renderLit l c hc).2 (by decide)

/-- The text of a number is a literal, or that of a float without one. -/
theorem numText_cases {repr : Binary64 → PyStr} (hr : ReadsBack repr) (n : PyNum) :
    (∃ l : NumLit, l.WF ∧ numText repr n = renderLit chr l ∧ jsNumber n = some l.toNumber) ∨
      jsNumber n = none ∧ numText repr n ∈ [py "NaN", py "Infinity", py "-Infinity"] := by
  rcases n with z | x
  · exact .inl ⟨intLit z, intLit_wf z, rfl, by rw [intLit_toNumber]; rfl⟩
  rcases x with _ | (_ | _) | ⟨s, m, e, h⟩
  · exact .inr ⟨rfl, by simp [numText]⟩
  · exact .inr ⟨rfl, by simp [numText]⟩
  · exact .inr ⟨rfl, by simp [numText]⟩
  · obtain ⟨l, hl, ht, hn⟩ := hr (.finite s m e h) trivial
    exact .inl ⟨l, hl, ht, by rw [hn]; rfl⟩

/-- How the runtime sees what `dumps` writes. -/
def wirePrinter (repr : Binary64 → PyStr) : Printer CodeUnit PyStr PyNum :=
  (printer repr).map unit utf16

theorem utf16_dumps (repr : Binary64 → PyStr) (v : PyValue) :
    utf16 (dumps repr v) = (wirePrinter repr).value v := by
  have hc : ∀ c, Printer.IsSyntax c → utf16 [(printer repr).char c] = [unit c] := fun c hc =>
    utf16_map_chr (l := [c]) (by simpa using Nat.lt_trans hc.2 (by decide))
  exact Printer.map_value utf16_append hc v

/-- Characters in front of a literal. -/
theorem renderLit_head {l : NumLit} (hl : l.WF) : ∃ c cs, renderLit unit l = c :: cs ∧
    (c = unit '-' ∨ (digit? c).isSome) :=
  parseNumber_head (p := (l, [])) (by simpa using parseNumber_renderLit hl (r := []) trivial)

/-- **What `dumps` writes is read back**, but for NaN and the infinities. -/
theorem wirePrinter_reads {repr : Binary64 → PyStr} (hr : ReadsBack repr) :
    (wirePrinter repr).Reads ⟨fun l => some l.toNumber, []⟩ utf16 jsNumber where
  char := rfl
  str := parseChars_escaped
  num n r h := by
    change scalar _ (utf16 (numText repr n) ++ r) = _
    rcases numText_cases hr n with ⟨l, hl, ht, hn⟩ | ⟨hn, ht⟩
    · rw [ht, hn, utf16_renderLit, scalar_renderLit _ hl h]
    · rw [hn]
      simp only [List.mem_cons, List.not_mem_nil, or_false] at ht
      rcases ht with ht | ht | ht <;> rw [ht] <;> rfl
  head n := by
    change ∃ c cs, utf16 (numText repr n) = c :: cs ∧ _
    rcases numText_cases hr n with ⟨l, hl, ht, -⟩ | ⟨-, ht⟩
    · obtain ⟨c, cs, hc, hd⟩ := renderLit_head hl
      refine ⟨c, cs, by rw [ht, utf16_renderLit, hc], ?_⟩
      rcases hd with rfl | hd
      · decide
      · have hne : ∀ d : CodeUnit, digit? d = none → c ≠ d := by
          rintro d hd' rfl
          rw [hd'] at hd
          cases hd
        refine ⟨hne _ (by decide), hne _ (by decide), hne _ (by decide), hne _ (by decide), ?_⟩
        simp [isWs, hne (unit ' ') (by decide), hne (unit '\t') (by decide),
          hne (unit '\n') (by decide), hne (unit '\r') (by decide)]
    · simp only [List.mem_cons, List.not_mem_nil, or_false] at ht
      rcases ht with ht | ht | ht <;> rw [ht]
      · exact ⟨unit 'N', _, rfl, by decide⟩
      · exact ⟨unit 'I', _, rfl, by decide⟩
      · exact ⟨unit '-', _, rfl, by decide⟩

theorem jsonParse_dumps {repr : Binary64 → PyStr} (hr : ReadsBack repr) (v : PyValue) :
    Runtime.jsonParse (utf16 (dumps repr v)) = convert utf16 jsNumber v := by
  rw [utf16_dumps]
  exact (wirePrinter_reads hr).parse_value v

end PiIpython.Bridge
