import PiIpython.Lib.JsString

/-!
# UTF-8 of a text without surrogates

`bytes` is the UTF-8 form of a list of code points. Decoding gives the text
back, and a cut of the bytes that is moved on to the next character boundary is
the longest end of the text that fits. `Longest P l s`: of the suffixes of `l`
with `P`, `s` is the longest.
-/

namespace PiIpython.Text

variable {α : Type}

/-! ## The longest suffix -/

structure Longest (P : List α → Prop) (l s : List α) : Prop where
  suffix : s <:+ l
  fits : P s
  longest : ∀ r, r <:+ l → P r → r.length ≤ s.length

theorem Longest.unique {P : List α → Prop} {l s t : List α} (hs : Longest P l s)
    (ht : Longest P l t) : s = t := by
  have h : s.length = t.length :=
    le_antisymm (ht.longest s hs.suffix hs.fits) (hs.longest t ht.suffix ht.fits)
  rcases List.suffix_or_suffix_of_suffix hs.suffix ht.suffix with hst | hts
  · exact hst.eq_of_length h
  · exact (hts.eq_of_length h.symm).symm

/-- What fits as a whole is its own longest suffix. -/
theorem Longest.refl {P : List α → Prop} {l : List α} (h : P l) : Longest P l l :=
  ⟨List.suffix_rfl, h, fun _ hr _ => hr.length_le⟩

/-- A list whose suffixes that fit are those of its tail. -/
theorem Longest.cons {P : List α → Prop} {a : α} {l s : List α} (h : Longest P l s)
    (ha : ¬ P (a :: l)) : Longest P (a :: l) s := by
  refine ⟨h.suffix.trans (List.suffix_cons a l), h.fits, fun r hr hP => ?_⟩
  rcases List.suffix_cons_iff.mp hr with rfl | hr
  · exact absurd hP ha
  · exact h.longest r hr hP

/-! ## Encoding -/

/-- The UTF-8 form of a text. -/
def bytes (s : PyStr) : List UInt8 := s.flatMap encode8

@[simp] theorem bytes_nil : bytes [] = [] := rfl

@[simp] theorem bytes_cons (c : CodePoint) (s : PyStr) : bytes (c :: s) = encode8 c ++ bytes s := rfl

theorem bytes_suffix_length {r s : PyStr} (h : r <:+ s) : (bytes r).length ≤ (bytes s).length := by
  obtain ⟨p, rfl⟩ := h
  rw [bytes, bytes, List.flatMap_append, List.length_append]
  exact Nat.le_add_left _ _

theorem toNat_ofNat8 {n : Nat} (h : n < 0x100) : (UInt8.ofNat n).toNat = n := by
  rw [UInt8.toNat_ofNat']; omega

/-- A code point takes a first byte that starts it and continuation bytes. -/
theorem encode8_eq (c : CodePoint) :
    ∃ b bs, encode8 c = b :: bs ∧ isContinuation b = false ∧ ∀ x ∈ bs, isContinuation x = true := by
  have hc := c.isLt
  have hstart : ∀ n, n < 0x100 → (n < 0x80 ∨ 0xC0 ≤ n) → isContinuation (UInt8.ofNat n) = false := by
    intro n h h'
    rw [isContinuation, toNat_ofNat8 h, decide_eq_false_iff_not]
    omega
  have hcont : ∀ n, isContinuation (UInt8.ofNat (0x80 + n % 0x40)) = true := by
    intro n
    rw [isContinuation, toNat_ofNat8 (by omega), decide_eq_true_eq]
    omega
  unfold encode8
  dsimp only
  split
  · exact ⟨_, _, rfl, hstart _ (by omega) (by omega), by simp⟩
  · split
    · exact ⟨_, _, rfl, hstart _ (by omega) (by omega), by simp only [List.forall_mem_cons, hcont, List.not_mem_nil, false_imp_iff, implies_true,
          and_self]⟩
    · split
      · exact ⟨_, _, rfl, hstart _ (by omega) (by omega), by simp only [List.forall_mem_cons, hcont, List.not_mem_nil, false_imp_iff, implies_true,
          and_self]⟩
      · exact ⟨_, _, rfl, hstart _ (by omega) (by omega), by simp only [List.forall_mem_cons, hcont, List.not_mem_nil, false_imp_iff, implies_true,
          and_self]⟩

theorem encode8_length_pos (c : CodePoint) : 0 < (encode8 c).length := by
  obtain ⟨b, bs, h, -⟩ := encode8_eq c
  rw [h]
  exact Nat.succ_pos _

/-- No text starts with a continuation byte. -/
theorem dropWhile_bytes (s : PyStr) : (bytes s).dropWhile isContinuation = bytes s := by
  cases s with
  | nil => rfl
  | cons c s =>
    obtain ⟨b, bs, h, hb, -⟩ := encode8_eq c
    rw [bytes_cons, h, List.cons_append, List.dropWhile_cons_of_neg (by rw [hb]; simp)]

/-- **A cut of the bytes, moved on to a boundary, is the longest end of the text that fits.** -/
theorem exists_cut (s : PyStr) (n : Nat) :
    ∃ t, ((bytes s).drop n).dropWhile isContinuation = bytes t ∧
      Longest (fun r => (bytes r).length ≤ (bytes s).length - n) s t := by
  induction s generalizing n with
  | nil => exact ⟨[], by simp, .refl (by simp)⟩
  | cons c s ih =>
    obtain ⟨b, bs, hc, hb, hbs⟩ := encode8_eq c
    have hlen : (bytes (c :: s)).length = (encode8 c).length + (bytes s).length := by
      rw [bytes_cons, List.length_append]
    have hpos := encode8_length_pos c
    rcases Nat.eq_zero_or_pos n with rfl | hn
    · exact ⟨c :: s, dropWhile_bytes _, .refl (le_refl _)⟩
    · rcases Nat.le_total n (encode8 c).length with hle | hle
      · -- the cut falls on the character or right after it: the rest of it is dropped
        refine ⟨s, ?_, ⟨List.suffix_cons c s, ?_, fun r hr hfit => ?_⟩⟩
        · rw [bytes_cons, List.drop_append_of_le_length hle, List.dropWhile_append_of_pos, dropWhile_bytes]
          intro x hx
          obtain ⟨m, rfl⟩ : ∃ m, n = m + 1 := ⟨n - 1, by omega⟩
          rw [hc, List.drop_succ_cons] at hx
          exact hbs x (List.mem_of_mem_drop hx)
        · omega
        · rcases List.suffix_cons_iff.mp hr with rfl | hr
          · omega
          · exact hr.length_le
      · obtain ⟨t, ht, hlong⟩ := ih (n - (encode8 c).length)
        have hfit : (bytes s).length - (n - (encode8 c).length) = (bytes (c :: s)).length - n := by
          omega
        rw [hfit] at hlong
        refine ⟨t, ?_, hlong.cons (by omega)⟩
        rw [bytes_cons, List.drop_append, List.drop_eq_nil_of_le hle, List.nil_append, ht]

/-! ## Decoding -/

theorem decode8_encode8 (c : CodePoint) (bs : List UInt8) :
    decode8 (encode8 c ++ bs) = c :: decode8 bs := by
  have hc := c.isLt
  unfold encode8
  dsimp only
  split
  · next h =>
    have h1 := toNat_ofNat8 (show c.val < 0x100 by omega)
    rw [List.singleton_append, decode8.eq_def]
    dsimp only
    rw [if_pos (by omega), h1]
    exact congrArg (· :: _) (Fin.ext (by simp only [Fin.ofNat]; omega))
  · split
    · have h1 := toNat_ofNat8 (show 0xC0 + c.val / 0x40 < 0x100 by omega)
      have h2 := toNat_ofNat8 (show 0x80 + c.val % 0x40 < 0x100 by omega)
      rw [List.cons_append, List.singleton_append, decode8, if_neg (by omega), if_pos (by omega)]
      exact congrArg (· :: _) (Fin.ext (by simp only [Fin.ofNat, h1, h2]; omega))
    · split
      · have h1 := toNat_ofNat8 (show 0xE0 + c.val / 0x1000 < 0x100 by omega)
        have h2 := toNat_ofNat8 (show 0x80 + c.val / 0x40 % 0x40 < 0x100 by omega)
        have h3 := toNat_ofNat8 (show 0x80 + c.val % 0x40 < 0x100 by omega)
        rw [List.cons_append, List.cons_append, List.singleton_append, decode8, if_neg (by omega),
          if_neg (by omega), if_pos (by omega)]
        exact congrArg (· :: _) (Fin.ext (by simp only [Fin.ofNat, h1, h2, h3]; omega))
      · have h1 := toNat_ofNat8 (show 0xF0 + c.val / 0x40000 < 0x100 by omega)
        have h2 := toNat_ofNat8 (show 0x80 + c.val / 0x1000 % 0x40 < 0x100 by omega)
        have h3 := toNat_ofNat8 (show 0x80 + c.val / 0x40 % 0x40 < 0x100 by omega)
        have h4 := toNat_ofNat8 (show 0x80 + c.val % 0x40 < 0x100 by omega)
        rw [List.cons_append, List.cons_append, List.cons_append, List.singleton_append, decode8,
          if_neg (by omega), if_neg (by omega), if_neg (by omega), if_pos (by omega)]
        exact congrArg (· :: _) (Fin.ext (by simp only [Fin.ofNat, h1, h2, h3, h4]; omega))

theorem decode8_bytes (s : PyStr) : decode8 (bytes s) = s := by
  induction s with
  | nil => rfl
  | cons c s ih => rw [bytes_cons, decode8_encode8, ih]

theorem bytes_inj {s t : PyStr} : bytes s = bytes t ↔ s = t :=
  ⟨fun h => by rw [← decode8_bytes s, h, decode8_bytes], fun h => by rw [h]⟩

/-! ## Strings that spell a text -/

theorem decode16_utf16_append {s : PyStr} (h : HasUtf8 s) (u : JsStr) :
    decode16 (utf16 s ++ u) = s ++ decode16 u := by
  induction s with
  | nil => rfl
  | cons c s ih =>
    rw [utf16_cons, List.append_assoc, decode16_encode16 (h c List.mem_cons_self),
      ih fun d hd => h d (List.mem_cons_of_mem _ hd), List.cons_append]

theorem HasUtf8.suffix {r s : PyStr} (hs : HasUtf8 s) (h : r <:+ s) : HasUtf8 r :=
  fun c hc => hs c (h.subset hc)

theorem scalars_utf16 {s : PyStr} (h : HasUtf8 s) : scalars (utf16 s) = s := by
  rw [scalars, decode16_utf16 h]
  refine (List.map_congr_left fun c hc => ?_).trans (List.map_id s)
  rw [if_neg (h c hc), id]

theorem utf8_utf16 {s : PyStr} (h : HasUtf8 s) : utf8 (utf16 s) = bytes s := by
  rw [utf8, scalars_utf16 h, bytes]

theorem byteLength_utf16 {s : PyStr} (h : HasUtf8 s) : byteLength (utf16 s) = (bytes s).length := by
  rw [byteLength, scalars_utf16 h, bytes, List.length_flatMap]

/-- After a text without surrogates the byte lengths add up. -/
theorem byteLength_utf16_append {s : PyStr} (h : HasUtf8 s) (u : JsStr) :
    byteLength (utf16 s ++ u) = byteLength (utf16 s) + byteLength u := by
  rw [byteLength_eq, byteLength_eq, byteLength_eq, decode16_utf16_append h, decode16_utf16 h,
    List.map_append, List.sum_append]

theorem byteLength_newline : byteLength (js "\n") = 1 := rfl

end PiIpython.Text
