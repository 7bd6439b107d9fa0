import PiIpython.Lib.Text

/-!
# JavaScript's string functions

The functions of `String.prototype` and `Buffer` on lists of code units.
`decode16` pairs surrogates up to code points, a lone one kept; `scalars` is
what an encoder to UTF-8 sees, a lone surrogate replaced.
-/

namespace PiIpython.Text

/-! ## Code points of a string -/

def isHigh (u : CodeUnit) : Bool := 0xD800 ≤ u.toNat && u.toNat < 0xDC00

def isLow (u : CodeUnit) : Bool := 0xDC00 ≤ u.toNat && u.toNat < 0xE000

def ofUnit (u : CodeUnit) : CodePoint := Fin.ofNat _ u.toNat

def ofPair (u v : CodeUnit) : CodePoint :=
  Fin.ofNat _ (0x10000 + 0x400 * (u.toNat - 0xD800) + (v.toNat - 0xDC00))

/-- The code points of a string: a surrogate pair is one. -/
def decode16 : JsStr → PyStr
  | [] => []
  | [u] => [ofUnit u]
  | u :: v :: us =>
    if isHigh u && isLow v then ofPair u v :: decode16 us else ofUnit u :: decode16 (v :: us)

def scalars (s : JsStr) : PyStr :=
  (decode16 s).map fun c => if IsSurrogate c then Fin.ofNat _ 0xFFFD else c

/-! ## UTF-8 -/

/-- The UTF-8 bytes of a code point. -/
def encode8 (c : CodePoint) : List UInt8 :=
  let n := c.val
  if n < 0x80 then [UInt8.ofNat n]
  else if n < 0x800 then [UInt8.ofNat (0xC0 + n / 0x40), UInt8.ofNat (0x80 + n % 0x40)]
  else if n < 0x10000 then
    [UInt8.ofNat (0xE0 + n / 0x1000), UInt8.ofNat (0x80 + n / 0x40 % 0x40),
      UInt8.ofNat (0x80 + n % 0x40)]
  else
    [UInt8.ofNat (0xF0 + n / 0x40000), UInt8.ofNat (0x80 + n / 0x1000 % 0x40),
      UInt8.ofNat (0x80 + n / 0x40 % 0x40), UInt8.ofNat (0x80 + n % 0x40)]

/-- The bytes of `Buffer.from(s, "utf-8")`. -/
def utf8 (s : JsStr) : List UInt8 := (scalars s).flatMap encode8

/-- `Buffer.byteLength(s, "utf-8")`. -/
def byteLength (s : JsStr) : Nat := ((scalars s).map fun c => (encode8 c).length).sum

def isContinuation (b : UInt8) : Bool := b.toNat / 0x40 = 2

/-- The code points of UTF-8 bytes; a byte that starts none is replaced. -/
def decode8 : List UInt8 → PyStr
  | [] => []
  | a :: bs =>
    if a.toNat < 0x80 then Fin.ofNat _ a.toNat :: decode8 bs
    else if 0xC0 ≤ a.toNat ∧ a.toNat < 0xE0 then
      match bs with
      | b :: bs => Fin.ofNat _ (0x40 * (a.toNat - 0xC0) + (b.toNat - 0x80)) :: decode8 bs
      | [] => [Fin.ofNat _ 0xFFFD]
    else if 0xE0 ≤ a.toNat ∧ a.toNat < 0xF0 then
      match bs with
      | b :: c :: bs =>
        Fin.ofNat _ (0x1000 * (a.toNat - 0xE0) + 0x40 * (b.toNat - 0x80) + (c.toNat - 0x80)) ::
          decode8 bs
      | _ => [Fin.ofNat _ 0xFFFD]
    else if 0xF0 ≤ a.toNat then
      match bs with
      | b :: c :: d :: bs =>
        Fin.ofNat _ (0x40000 * (a.toNat - 0xF0) + 0x1000 * (b.toNat - 0x80) +
          0x40 * (c.toNat - 0x80) + (d.toNat - 0x80)) :: decode8 bs
      | _ => [Fin.ofNat _ 0xFFFD]
    else Fin.ofNat _ 0xFFFD :: decode8 bs

/-! ## Searching and slicing -/

/-- `s.indexOf(u, i)`. -/
def indexOf (s : JsStr) (u : CodeUnit) (i : Nat) : Option Nat :=
  ((s.drop i).findIdx? (· = u)).map (i + ·)

/-- `s.lastIndexOf(t)`. -/
def lastIndexOf (s t : JsStr) : Option Nat :=
  (List.range (s.length + 1)).reverse.find? fun i => t.isPrefixOf (s.drop i)

/-- `s.slice(i, j)`. -/
def slice (s : JsStr) (i j : Nat) : JsStr := (s.take j).drop i

/-- `s.slice(-n)`. -/
def sliceEnd (s : JsStr) (n : Nat) : JsStr := s.drop (s.length - n)

def endsWith (s t : JsStr) : Bool := t.isSuffixOf s

/-- `s.split(u)` for one code unit. -/
def split (u : CodeUnit) : JsStr → List JsStr
  | [] => [[]]
  | c :: cs =>
    if c = u then [] :: split u cs
    else
      match split u cs with
      | [] => [[c]]
      | l :: ls => (c :: l) :: ls

/-- `ls.join(t)`. -/
def join (t : JsStr) : List JsStr → JsStr
  | [] => []
  | [l] => l
  | l :: ls => l ++ t ++ join t ls

/-- White space and line ends of ECMAScript. -/
def isSpace (u : CodeUnit) : Bool :=
  let n := u.toNat
  (9 ≤ n && n ≤ 13) || n = 0x20 || n = 0xA0 || n = 0x1680 || (0x2000 ≤ n && n ≤ 0x200A) ||
    n = 0x2028 || n = 0x2029 || n = 0x202F || n = 0x205F || n = 0x3000 || n = 0xFEFF

def trim (s : JsStr) : JsStr := ((s.dropWhile isSpace).reverse.dropWhile isSpace).reverse

/-- The decimal digits of a number, as a template literal shows it. -/
def decimal (n : Nat) : JsStr := js (toString n)

/-- `parts.filter(Boolean).join(t)`. -/
def joinNonEmpty (t : JsStr) (parts : List JsStr) : JsStr := join t (parts.filter (· ≠ []))

/-! ## Lemmas -/

theorem endsWith_append {s t : JsStr} (h : t ≠ []) (u : CodeUnit) :
    endsWith (s ++ t) [u] = endsWith t [u] := by
  rw [endsWith, endsWith, Bool.eq_iff_iff, List.isSuffixOf_iff_suffix, List.isSuffixOf_iff_suffix,
    List.singleton_suffix_iff_getLast?_eq_some, List.singleton_suffix_iff_getLast?_eq_some,
    List.getLast?_append]
  rw [List.getLast?_eq_some_getLast h]
  rfl

theorem decode16_cons {u : CodeUnit} (h : isHigh u = false) (us : JsStr) :
    decode16 (u :: us) = ofUnit u :: decode16 us := by
  cases us with
  | nil => rfl
  | cons v us =>
    rw [decode16, if_neg]
    rw [h, Bool.false_and]
    exact Bool.false_ne_true

theorem decode16_pair {u v : CodeUnit} (hu : isHigh u = true) (hv : isLow v = true) (us : JsStr) :
    decode16 (u :: v :: us) = ofPair u v :: decode16 us := by
  rw [decode16, if_pos (by rw [hu, hv]; rfl)]

theorem decode16_encode16 {c : CodePoint} (hc : ¬ IsSurrogate c) (us : JsStr) :
    decode16 (encode16 c ++ us) = c :: decode16 us := by
  have hlt := c.isLt
  unfold encode16
  split
  · next h =>
    have hn := toNat_ofNat h
    rw [List.singleton_append, decode16_cons]
    · refine congrArg (· :: _) (Fin.ext ?_)
      simp only [ofUnit, hn, Fin.ofNat]
      omega
    · rw [isHigh, hn]
      simp only [Bool.and_eq_false_iff, decide_eq_false_iff_not]
      simp only [IsSurrogate] at hc
      omega
  · next h =>
    have h1 := toNat_ofNat (n := 0xD800 + (c.val - 0x10000) / 0x400) (by omega)
    have h2 := toNat_ofNat (n := 0xDC00 + (c.val - 0x10000) % 0x400) (by omega)
    rw [List.cons_append, List.singleton_append, decode16_pair]
    · refine congrArg (· :: _) (Fin.ext ?_)
      simp only [ofPair, h1, h2, Fin.ofNat]
      omega
    · rw [isHigh, h1]
      simp only [Bool.and_eq_true, decide_eq_true_eq]
      omega
    · rw [isLow, h2]
      simp only [Bool.and_eq_true, decide_eq_true_eq]
      omega

/-- A text without surrogates is what its code units spell. -/
theorem decode16_utf16 {s : PyStr} (h : HasUtf8 s) : decode16 (utf16 s) = s := by
  induction s with
  | nil => rfl
  | cons c s ih =>
    rw [utf16_cons, decode16_encode16 (h c List.mem_cons_self),
      ih fun d hd => h d (List.mem_cons_of_mem _ hd)]

/-- **Nothing of a string is lost in its code points.** -/
theorem utf16_decode16 (s : JsStr) : utf16 (decode16 s) = s := by
  have hu : ∀ u : CodeUnit, encode16 (ofUnit u) = [u] := by
    intro u
    have hlt := u.toNat_lt
    have hv : (ofUnit u).val = u.toNat := by simp only [ofUnit, Fin.ofNat]; omega
    rw [encode16_bmp (by omega), hv, UInt16.ofNat_toNat]
  induction s using decode16.induct with
  | case1 => rfl
  | case2 u => exact congrArg (· ++ []) (hu u)
  | case3 u v us h ih =>
    simp only [Bool.and_eq_true, isHigh, isLow, decide_eq_true_eq] at h
    have hv : (ofPair u v).val =
        0x10000 + 0x400 * (u.toNat - 0xD800) + (v.toNat - 0xDC00) := by
      simp only [ofPair, Fin.ofNat]; omega
    have h1 : UInt16.ofNat (0xD800 + ((ofPair u v).val - 0x10000) / 0x400) = u :=
      UInt16.toNat_inj.mp (by rw [toNat_ofNat (by omega)]; omega)
    have h2 : UInt16.ofNat (0xDC00 + ((ofPair u v).val - 0x10000) % 0x400) = v :=
      UInt16.toNat_inj.mp (by rw [toNat_ofNat (by omega)]; omega)
    rw [decode16, if_pos (by simp [isHigh, isLow, h]), utf16_cons, ih, encode16,
      if_neg (by omega), h1, h2]
    rfl
  | case4 u v us h ih =>
    rw [decode16, if_neg h, utf16_cons, ih, hu]
    rfl

theorem utf16_eq_nil {s : PyStr} : utf16 s = [] ↔ s = [] := by
  cases s with
  | nil => simp
  | cons c s => simp [encode16_ne_nil]

/-- The bytes of the encoder for one code point. -/
def scalarLength (c : CodePoint) : Nat :=
  (encode8 (if IsSurrogate c then Fin.ofNat _ 0xFFFD else c)).length

theorem byteLength_eq (s : JsStr) : byteLength s = ((decode16 s).map scalarLength).sum := by
  rw [byteLength, scalars, List.map_map]
  rfl

/-- A surrogate that is completed to a pair takes no fewer bytes. -/
theorem scalarLength_high_le {u v : CodeUnit} (hu : isHigh u = true) (hv : isLow v = true) :
    scalarLength (ofUnit u) ≤ scalarLength (ofPair u v) := by
  simp only [isHigh, isLow, Bool.and_eq_true, decide_eq_true_eq] at hu hv
  have h1 : IsSurrogate (ofUnit u) := by
    simp only [IsSurrogate, ofUnit, Fin.ofNat]
    omega
  have h2 : 0x10000 ≤ (ofPair u v).val := by
    simp only [ofPair, Fin.ofNat]
    omega
  have h3 : ¬ IsSurrogate (ofPair u v) := fun h => by have := h.2; omega
  rw [scalarLength, scalarLength, if_pos h1, if_neg h3]
  have h4 : (encode8 (ofPair u v)).length = 4 := by
    simp only [encode8]
    rw [if_neg (by omega), if_neg (by omega), if_neg (by omega)]
    rfl
  rw [h4]
  decide

/-- **A longer text takes no fewer bytes**, also when its start ends within a surrogate pair. -/
theorem byteLength_le_append (s t : JsStr) : byteLength s ≤ byteLength (s ++ t) := by
  rw [byteLength_eq, byteLength_eq]
  induction s using decode16.induct with
  | case1 => exact Nat.zero_le _
  | case2 u =>
    cases t with
    | nil => exact le_refl _
    | cons v t =>
      rw [List.singleton_append, decode16, decode16]
      split
      · next h =>
        rw [Bool.and_eq_true] at h
        have := scalarLength_high_le h.1 h.2
        simp only [List.map_cons, List.map_nil, List.sum_cons, List.sum_nil]
        omega
      · simp only [List.map_cons, List.map_nil, List.sum_cons, List.sum_nil]
        omega
  | case3 u v us h ih =>
    rw [List.cons_append, List.cons_append, decode16, decode16, if_pos h, if_pos h, List.map_cons,
      List.map_cons, List.sum_cons, List.sum_cons]
    omega
  | case4 u v us h ih =>
    rw [List.cons_append] at ih
    rw [List.cons_append, List.cons_append, decode16, decode16, if_neg h, if_neg h, List.map_cons,
      List.map_cons, List.sum_cons, List.sum_cons]
    omega

/-- A pair takes no more bytes than its two surrogates alone. -/
theorem scalarLength_pair_le {u v : CodeUnit} (hu : isHigh u = true) (hv : isLow v = true) :
    scalarLength (ofPair u v) ≤ scalarLength (ofUnit u) + scalarLength (ofUnit v) := by
  simp only [isHigh, isLow, Bool.and_eq_true, decide_eq_true_eq] at hu hv
  have h1 : IsSurrogate (ofUnit u) := by
    simp only [IsSurrogate, ofUnit, Fin.ofNat]
    omega
  have h2 : IsSurrogate (ofUnit v) := by
    simp only [IsSurrogate, ofUnit, Fin.ofNat]
    omega
  have h3 : ∀ c : CodePoint, (encode8 c).length ≤ 4 := by
    intro c
    simp only [encode8]
    repeat' split
    all_goals simp
  have h4 : (encode8 (Fin.ofNat _ 0xFFFD)).length = 3 := by decide
  rw [scalarLength, scalarLength, scalarLength, if_pos h1, if_pos h2, h4]
  have := h3 (if IsSurrogate (ofPair u v) then Fin.ofNat _ 0xFFFD else ofPair u v)
  omega

/-- **Joined texts take no more bytes than their parts**. -/
theorem byteLength_append_le (s t : JsStr) : byteLength (s ++ t) ≤ byteLength s + byteLength t := by
  rw [byteLength_eq, byteLength_eq, byteLength_eq]
  induction s using decode16.induct with
  | case1 => rw [List.nil_append]; omega
  | case2 u =>
    cases t with
    | nil => exact le_refl _
    | cons v t =>
      rw [List.singleton_append, decode16, decode16]
      split
      · next h =>
        rw [Bool.and_eq_true] at h
        have hv : isHigh v = false := by
          have := h.2
          simp only [isLow, isHigh, Bool.and_eq_true, decide_eq_true_eq, Bool.and_eq_false_iff,
            decide_eq_false_iff_not] at this ⊢
          omega
        have := scalarLength_pair_le h.1 h.2
        rw [decode16_cons hv]
        simp only [List.map_cons, List.map_nil, List.sum_cons, List.sum_nil]
        omega
      · simp only [List.map_cons, List.map_nil, List.sum_cons, List.sum_nil]
        omega
  | case3 u v us h ih =>
    rw [List.cons_append, List.cons_append, decode16, decode16, if_pos h, if_pos h, List.map_cons,
      List.map_cons, List.sum_cons, List.sum_cons]
    omega
  | case4 u v us h ih =>
    rw [List.cons_append] at ih
    rw [List.cons_append, List.cons_append, decode16, decode16, if_neg h, if_neg h, List.map_cons,
      List.map_cons, List.sum_cons, List.sum_cons]
    omega

end PiIpython.Text
