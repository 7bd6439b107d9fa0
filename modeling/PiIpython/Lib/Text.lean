import Mathlib

/-!
# Text as Python and JavaScript hold it

A Python `str` is a list of code points, surrogates included; a JavaScript
string is a list of UTF-16 code units. `utf16` is the encoding of the first in
the second. A text is *encodable* when it has no surrogate code point: only
such a text has a UTF-8 form, and `utf16` of it is what decoding that form
gives.
-/

namespace PiIpython.Text

/-- A Unicode code point, surrogates included. -/
abbrev CodePoint := Fin 0x110000

instance codePoint_neZero : NeZero 0x110000 := ⟨by decide⟩

/-- A UTF-16 code unit. -/
abbrev CodeUnit := UInt16

/-- A Python `str`. -/
abbrev PyStr := List CodePoint

instance pyStr_lawfulBEq : LawfulBEq PyStr := inferInstance

/-- A JavaScript string. -/
abbrev JsStr := List CodeUnit

/-- The code point of a character. -/
def chr (c : Char) : CodePoint := Fin.ofNat _ c.toNat

/-- The code unit of a character of the basic plane. -/
def unit (c : Char) : CodeUnit := UInt16.ofNat c.toNat

/-- A literal as a Python `str`. -/
def py (s : String) : PyStr := s.toList.map chr

/-- A literal of the basic plane as a JavaScript string. -/
def js (s : String) : JsStr := s.toList.map unit

def IsSurrogate (c : CodePoint) : Prop := 0xD800 ≤ c.val ∧ c.val ≤ 0xDFFF

instance (c : CodePoint) : Decidable (IsSurrogate c) := inferInstanceAs (Decidable (_ ∧ _))

/-- The text has a UTF-8 form. -/
def HasUtf8 (s : PyStr) : Prop := ∀ c ∈ s, ¬ IsSurrogate c

instance (s : PyStr) : Decidable (HasUtf8 s) := List.decidableBAll (fun c => ¬ IsSurrogate c) s

/-! ## UTF-16 -/

/-- The code units of one code point: a pair above the basic plane. -/
def encode16 (c : CodePoint) : JsStr :=
  if c.val < 0x10000 then [UInt16.ofNat c.val]
  else [UInt16.ofNat (0xD800 + (c.val - 0x10000) / 0x400),
    UInt16.ofNat (0xDC00 + (c.val - 0x10000) % 0x400)]

def utf16 (s : PyStr) : JsStr := s.flatMap encode16

@[simp] theorem utf16_nil : utf16 [] = [] := rfl

@[simp] theorem utf16_cons (c : CodePoint) (s : PyStr) : utf16 (c :: s) = encode16 c ++ utf16 s := rfl

@[simp] theorem utf16_append (s t : PyStr) : utf16 (s ++ t) = utf16 s ++ utf16 t := by
  simp [utf16]

theorem toNat_ofNat {n : Nat} (h : n < 0x10000) : (UInt16.ofNat n).toNat = n := by
  rw [UInt16.toNat_ofNat']; omega

theorem encode16_bmp {c : CodePoint} (h : c.val < 0x10000) : encode16 c = [UInt16.ofNat c.val] := by
  rw [encode16, if_pos h]

theorem encode16_ne_nil (c : CodePoint) : encode16 c ≠ [] := by
  unfold encode16; split <;> simp

/-- A code unit of a code point is that code point, or a surrogate. -/
theorem mem_encode16 {c : CodePoint} {u : CodeUnit} (h : u ∈ encode16 c) :
    u.toNat = c.val ∨ 0xD800 ≤ u.toNat ∧ u.toNat ≤ 0xDFFF := by
  unfold encode16 at h
  split at h
  · next hc =>
    rw [List.mem_singleton] at h
    exact .inl (by rw [h, toNat_ofNat hc])
  · have hc := c.isLt
    simp only [List.mem_cons, List.not_mem_nil, or_false] at h
    right
    rcases h with rfl | rfl
    · rw [toNat_ofNat (by omega)]; omega
    · rw [toNat_ofNat (by omega)]; omega

/-- A unit below the surrogates comes from the code point with its number. -/
theorem mem_utf16_iff {s : PyStr} {u : CodeUnit} (hu : u.toNat < 0xD800 ∨ 0xDFFF < u.toNat) :
    u ∈ utf16 s ↔ ∃ c ∈ s, c.val = u.toNat := by
  rw [utf16, List.mem_flatMap]
  constructor
  · rintro ⟨c, hc, h⟩
    rcases mem_encode16 h with h | h
    · exact ⟨c, hc, h.symm⟩
    · omega
  · rintro ⟨c, hc, h⟩
    refine ⟨c, hc, ?_⟩
    have := u.toNat_lt
    rw [encode16_bmp (by omega), List.mem_singleton]
    exact UInt16.toNat_inj.mp (by rw [toNat_ofNat (by omega), h])

theorem encode16_chr {c : Char} (h : c.toNat < 0x10000) : encode16 (chr c) = [unit c] := by
  have hv : (chr c).val = c.toNat := by simp only [chr, Fin.ofNat]; omega
  rw [encode16_bmp (by omega), hv, unit]

theorem utf16_map_chr {l : List Char} (h : ∀ c ∈ l, c.toNat < 0x10000) :
    utf16 (l.map chr) = l.map unit := by
  induction l with
  | nil => rfl
  | cons c l ih =>
    rw [List.map_cons, utf16_cons, encode16_chr (h c List.mem_cons_self),
      ih fun d hd => h d (List.mem_cons_of_mem _ hd)]
    rfl

end PiIpython.Text
