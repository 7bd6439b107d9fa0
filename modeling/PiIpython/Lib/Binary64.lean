import Mathlib

/-!
# Binary64 numbers and decimal literals

`Binary64` is the set of IEEE 754 double values, each finite one in its
canonical form `±m · 2^e`. `Binary64.round` is correct rounding, to nearest and
ties to even. `NumLit` is a decimal literal by its digits, and `NumLit.toNumber`
the double that a reader with correct rounding takes it for. A number that has
a canonical form is read exactly (`round_canonical`).
-/

namespace PiIpython

/-- `m · 2^e` is the canonical form of a finite double: `m` has 53 bits, fewer only at the
least exponent. -/
def Canonical (m : Nat) (e : Int) : Prop :=
  m < 2 ^ 53 ∧ -1074 ≤ e ∧ e ≤ 971 ∧ (2 ^ 52 ≤ m ∨ e = -1074)

instance (m : Nat) (e : Int) : Decidable (Canonical m e) := inferInstanceAs (Decidable (_ ∧ _))

inductive Binary64 where
  | nan
  | inf (neg : Bool)
  | finite (neg : Bool) (m : Nat) (e : Int) (h : Canonical m e)
  deriving DecidableEq

namespace Binary64

def IsFinite : Binary64 → Prop
  | finite .. => True
  | _ => False

instance : (x : Binary64) → Decidable x.IsFinite
  | finite .. => isTrue trivial
  | nan => isFalse id
  | inf _ => isFalse id

/-- The number a finite double stands for. -/
def toRat? : Binary64 → Option ℚ
  | finite neg m e _ => some ((if neg then -1 else 1) * (m * 2 ^ e))
  | _ => none

def zero (neg : Bool) : Binary64 := finite neg 0 (-1074) (by decide)

/-- The nearest integer, ties to even. -/
def roundHalfEven (q : ℚ) : Nat :=
  let n := ⌊q⌋₊
  let d := q - n
  if d < 1 / 2 then n else if 1 / 2 < d then n + 1 else if n % 2 = 0 then n else n + 1

/-- Correct rounding of the magnitude `q`. Past the largest double it gives infinity. -/
def round (neg : Bool) (q : ℚ) : Binary64 :=
  if q = 0 then zero neg
  else
    let e := max (-1074) (Int.log 2 q - 52)
    let m := roundHalfEven (q / 2 ^ e)
    let (m, e) := if m = 2 ^ 53 then (2 ^ 52, e + 1) else (m, e)
    if h : Canonical m e then finite neg m e h else inf neg

theorem roundHalfEven_natCast (n : Nat) : roundHalfEven (n : ℚ) = n := by
  simp [roundHalfEven]

theorem log_mul_zpow {m : Nat} (hm : m ≠ 0) (e : Int) :
    Int.log 2 ((m : ℚ) * 2 ^ e) = Nat.log 2 m + e := by
  have hm' : (0 : ℚ) < m := by exact_mod_cast Nat.pos_of_ne_zero hm
  have hpos : (0 : ℚ) < m * 2 ^ e := by positivity
  apply le_antisymm
  · rw [← Int.lt_add_one_iff, ← Int.lt_zpow_iff_log_lt (by norm_num) hpos]
    have h : (m : ℚ) < 2 ^ (Nat.log 2 m + 1) := by
      exact_mod_cast Nat.lt_pow_succ_log_self (by norm_num) m
    calc (m : ℚ) * 2 ^ e < 2 ^ (Nat.log 2 m + 1) * 2 ^ e := by gcongr
      _ = _ := by
        push_cast
        rw [show (Nat.log 2 m : Int) + e + 1 = ((Nat.log 2 m + 1 : Nat) : Int) + e by push_cast; ring,
          zpow_add₀ (by norm_num), zpow_natCast]
  · rw [← Int.zpow_le_iff_le_log (by norm_num) hpos]
    have h : ((2 ^ Nat.log 2 m : Nat) : ℚ) ≤ m := by
      exact_mod_cast Nat.pow_log_le_self 2 hm
    push_cast at h ⊢
    rw [zpow_add₀ (by norm_num), zpow_natCast]
    gcongr

/-- **A canonical magnitude is read exactly.** -/
theorem round_canonical (neg : Bool) {m : Nat} {e : Int} (h : Canonical m e) :
    round neg (m * 2 ^ e) = if m = 0 then zero neg else finite neg m e h := by
  have ⟨hm, hlo, hhi, hn⟩ := h
  by_cases h0 : m = 0
  · subst h0; simp [round]
  have hq : ((m : ℚ) * 2 ^ e) ≠ 0 := by positivity
  have hlt : Nat.log 2 m < 53 := Nat.log_lt_of_lt_pow h0 hm
  have he : max (-1074) (Int.log 2 ((m : ℚ) * 2 ^ e) - 52) = e := by
    rw [log_mul_zpow h0]
    rcases hn with hn | hn
    · have : 52 ≤ Nat.log 2 m := (Nat.le_log_iff_pow_le (by norm_num) h0).mpr hn
      omega
    · omega
  have hdiv : (m : ℚ) * 2 ^ e / 2 ^ e = m := by
    rw [mul_div_assoc, div_self (by positivity), mul_one]
  have hne : m ≠ 2 ^ 53 := by omega
  rw [round, if_neg hq]
  simp only [he, hdiv, roundHalfEven_natCast, hne, if_false, h0]
  exact dif_pos h

/-- A finite double is determined by its sign and its number, the two zeros apart. -/
theorem round_toRat {neg : Bool} {m : Nat} {e : Int} {h : Canonical m e} (h0 : m ≠ 0) :
    round neg (m * 2 ^ e) = finite neg m e h := by
  rw [round_canonical neg h, if_neg h0]

/-! ## Integers -/

/-- The integer is a double: 53 significant bits, below `2^1024`. -/
def ExactInt (z : Int) : Prop := ∃ m k : Nat, z.natAbs = m * 2 ^ k ∧ m < 2 ^ 53 ∧ k ≤ 971

/-- Every integer magnitude of 53 significant bits has a canonical form. -/
theorem exists_canonical {m k : Nat} (h0 : m ≠ 0) (hm : m < 2 ^ 53) (hk : k ≤ 971) :
    ∃ m' e, Canonical m' e ∧ m' ≠ 0 ∧ ((m * 2 ^ k : Nat) : ℚ) = m' * 2 ^ e := by
  have hl : Nat.log 2 m < 53 := Nat.log_lt_of_lt_pow h0 hm
  have hself : 2 ^ Nat.log 2 m ≤ m := Nat.pow_log_le_self 2 h0
  have hup : m < 2 ^ (Nat.log 2 m + 1) := Nat.lt_pow_succ_log_self (by norm_num) m
  refine ⟨m * 2 ^ (52 - Nat.log 2 m), k - (52 - Nat.log 2 m), ⟨?_, ?_, ?_, .inl ?_⟩,
    by positivity, ?_⟩
  · calc m * 2 ^ (52 - Nat.log 2 m) < 2 ^ (Nat.log 2 m + 1) * 2 ^ (52 - Nat.log 2 m) := by gcongr
      _ = 2 ^ 53 := by rw [← pow_add]; congr 1; omega
  · omega
  · omega
  · calc 2 ^ 52 = 2 ^ Nat.log 2 m * 2 ^ (52 - Nat.log 2 m) := by rw [← pow_add]; congr 1; omega
      _ ≤ m * 2 ^ (52 - Nat.log 2 m) := by gcongr
  · have hs : ((52 - Nat.log 2 m : Nat) : Int) = 52 - Nat.log 2 m := by omega
    push_cast
    rw [mul_assoc, ← zpow_natCast 2 (52 - Nat.log 2 m), ← zpow_add₀ (by norm_num), hs,
      add_sub_cancel, zpow_natCast]

/-- **An integer is read exactly if and only if it is a double.** -/
theorem round_int_iff (z : Int) :
    (round (z < 0) z.natAbs).toRat? = some (z : ℚ) ↔ ExactInt z := by
  have hz : ((if z < 0 then -1 else 1) * (z.natAbs : ℚ)) = z := by
    split
    · rw [Nat.cast_natAbs, abs_of_neg (by assumption)]; push_cast; ring
    · rw [Nat.cast_natAbs, abs_of_nonneg (by omega)]; ring
  constructor
  · intro h
    cases hr : round (z < 0) z.natAbs with
    | nan => rw [hr] at h; cases h
    | inf s => rw [hr] at h; cases h
    | finite s m e hc =>
      rw [hr] at h
      simp only [toRat?, Option.some.injEq] at h
      have habs : ((z.natAbs : Nat) : ℚ) = m * 2 ^ e := by
        rw [Nat.cast_natAbs, Int.cast_abs, ← h, abs_mul, abs_of_nonneg (by positivity : (0 : ℚ) ≤ m * 2 ^ e)]
        split <;> simp
      obtain ⟨hm, -, hhi, -⟩ := hc
      obtain ⟨k, rfl | rfl⟩ := e.eq_nat_or_neg
      · refine ⟨m, k, ?_, hm, by omega⟩
        exact_mod_cast habs
      · refine ⟨z.natAbs, 0, by simp, ?_, by omega⟩
        have h1 : (z.natAbs : ℚ) * 2 ^ k = m := by
          rw [habs, zpow_neg, zpow_natCast, mul_assoc, inv_mul_cancel₀ (by positivity), mul_one]
        have h2 : z.natAbs * 2 ^ k = m := by exact_mod_cast h1
        have h3 : z.natAbs * 1 ≤ z.natAbs * 2 ^ k := Nat.mul_le_mul_left _ Nat.one_le_two_pow
        omega
  · rintro ⟨m, k, hmk, hm, hk⟩
    by_cases h0 : m = 0
    · have : z = 0 := by rw [h0] at hmk; omega
      subst this
      simp [round, zero, toRat?]
    · obtain ⟨m', e, hc, hne, heq⟩ := exists_canonical h0 hm hk
      rw [hmk, heq, round_toRat (h := hc) hne]
      simp only [toRat?, Option.some.injEq, ← heq, ← hmk, decide_eq_true_eq]
      exact hz

end Binary64

/-! ## Decimal literals -/

abbrev Digit := Fin 10

instance digit_neZero : NeZero 10 := ⟨by decide⟩

/-- The number written by a list of digits. -/
def ofDigits (ds : List Digit) : Nat := ds.foldl (fun n d => 10 * n + d.val) 0

/-- The sign written before an exponent. -/
inductive ExpSign where
  | none
  | plus
  | minus
  deriving DecidableEq

structure ExpLit where
  /-- `E` instead of `e`. -/
  upper : Bool
  sign : ExpSign
  digits : List Digit
  deriving DecidableEq

/-- A decimal literal `-?int(.frac)?([eE][+-]?exp)?`. -/
structure NumLit where
  neg : Bool
  int : List Digit
  frac : Option (List Digit)
  exp : Option ExpLit
  deriving DecidableEq

namespace NumLit

/-- The literal is in the JSON grammar: digits in every part, no leading zero. -/
structure WF (l : NumLit) : Prop where
  int_ne : l.int ≠ []
  int_zero : ∀ ds, l.int = 0 :: ds → ds = []
  frac_ne : l.frac ≠ some []
  exp_ne : ∀ x, l.exp = some x → x.digits ≠ []

def exponent (l : NumLit) : Int :=
  (match l.exp with
    | none => 0
    | some x => if x.sign = .minus then -(ofDigits x.digits : Int) else ofDigits x.digits) -
    (l.frac.getD []).length

/-- The magnitude the literal denotes. -/
def abs (l : NumLit) : ℚ := ofDigits (l.int ++ l.frac.getD []) * 10 ^ l.exponent

/-- The double nearest to the literal. -/
def toNumber (l : NumLit) : Binary64 := .round l.neg l.abs

/-- The literal of an integer. -/
def ofDigitList (neg : Bool) (ds : List Digit) : NumLit := ⟨neg, ds, none, none⟩

@[simp] theorem abs_ofDigitList (neg : Bool) (ds : List Digit) :
    (ofDigitList neg ds).abs = ofDigits ds := by
  simp [ofDigitList, abs, exponent]

end NumLit

/-! ## The digits of a natural number -/

/-- The decimal digits of `n`, most significant first. -/
def natDigits (n : Nat) : List Digit :=
  if h : n < 10 then [⟨n, h⟩] else natDigits (n / 10) ++ [⟨n % 10, Nat.mod_lt _ (by decide)⟩]
termination_by n
decreasing_by omega

theorem ofDigits_append_singleton (ds : List Digit) (d : Digit) :
    ofDigits (ds ++ [d]) = 10 * ofDigits ds + d.val := by
  simp [ofDigits]

theorem ofDigits_natDigits (n : Nat) : ofDigits (natDigits n) = n := by
  induction n using Nat.strong_induction_on with
  | _ n ih =>
    rw [natDigits]
    split
    · simp [ofDigits]
    · rw [ofDigits_append_singleton, ih _ (by omega)]
      simp only; omega

theorem natDigits_ne_nil (n : Nat) : natDigits n ≠ [] := by
  rw [natDigits]; split <;> simp

/-- No leading zero, but for zero itself. -/
theorem natDigits_zero (n : Nat) : ∀ ds, natDigits n = 0 :: ds → ds = [] := by
  induction n using Nat.strong_induction_on with
  | _ n ih =>
    intro ds h
    rw [natDigits] at h
    split at h
    · simp at h; exact h.2
    · next hn =>
      -- the leading digit of `n` is that of `n / 10`, which is positive
      rcases hd : natDigits (n / 10) with _ | ⟨d, ds'⟩
      · exact absurd hd (natDigits_ne_nil _)
      · rw [hd, List.cons_append] at h
        obtain ⟨rfl, -⟩ := List.cons.inj h
        have hnil := ih (n / 10) (by omega) ds' hd
        have h0 := ofDigits_natDigits (n / 10)
        rw [hd, hnil] at h0
        simp [ofDigits] at h0
        omega

/-- The literal of an integer, as Python and JavaScript write it. -/
def intLit (z : Int) : NumLit := .ofDigitList (decide (z < 0)) (natDigits z.natAbs)

theorem intLit_wf (z : Int) : (intLit z).WF where
  int_ne := natDigits_ne_nil _
  int_zero := natDigits_zero _
  frac_ne := by simp [intLit, NumLit.ofDigitList]
  exp_ne := by simp [intLit, NumLit.ofDigitList]

theorem intLit_toNumber (z : Int) : (intLit z).toNumber = .round (z < 0) z.natAbs := by
  rw [NumLit.toNumber, intLit, NumLit.abs_ofDigitList, ofDigits_natDigits]
  rfl

/-! ## A literal for every double -/

/-- The exact decimal expansion of a finite double. -/
def exactLit (neg : Bool) (m : Nat) (e : Int) : NumLit :=
  if 0 ≤ e then ⟨neg, natDigits (m * 2 ^ e.toNat), some [0], none⟩
  else ⟨neg, natDigits (m * 5 ^ (-e).toNat), none, some ⟨false, .minus, natDigits (-e).toNat⟩⟩

theorem exactLit_wf (neg : Bool) (m : Nat) (e : Int) : (exactLit neg m e).WF := by
  unfold exactLit
  split
  · exact ⟨natDigits_ne_nil _, natDigits_zero _, by simp, by simp⟩
  · exact ⟨natDigits_ne_nil _, natDigits_zero _, by simp, by
      rintro x ⟨⟩; exact natDigits_ne_nil _⟩

theorem exactLit_abs (neg : Bool) (m : Nat) (e : Int) : (exactLit neg m e).abs = m * 2 ^ e := by
  unfold exactLit
  split
  · next h =>
    obtain ⟨k, rfl⟩ := Int.eq_ofNat_of_zero_le h
    have h0 : ofDigits (natDigits (m * 2 ^ k) ++ [0]) = 10 * (m * 2 ^ k) := by
      rw [ofDigits_append_singleton, ofDigits_natDigits]; rfl
    have hx : NumLit.exponent ⟨neg, natDigits (m * 2 ^ k), some [0], none⟩ = -1 := rfl
    rw [NumLit.abs]
    simp only [Int.toNat_natCast, Option.getD_some, h0, hx, zpow_neg_one,
      zpow_natCast]
    push_cast
    field_simp
  · next h =>
    obtain ⟨k, hk⟩ : ∃ k : Nat, e = -(k : Int) := ⟨(-e).toNat, by omega⟩
    subst hk
    have hx : ∀ ds, NumLit.exponent ⟨neg, ds, none, some ⟨false, .minus, natDigits k⟩⟩ = -k := by
      intro ds
      simp [NumLit.exponent, ofDigits_natDigits]
    rw [NumLit.abs]
    simp only [neg_neg, Int.toNat_natCast, Option.getD_none, List.append_nil, ofDigits_natDigits,
      hx, zpow_neg, zpow_natCast]
    push_cast
    rw [show (10 : ℚ) = 2 * 5 by norm_num, mul_pow]
    field_simp

/-- **Every finite double has a literal that is read as it.** -/
theorem exactLit_toNumber {neg : Bool} {m : Nat} {e : Int} (h : Canonical m e) :
    (exactLit neg m e).toNumber = .finite neg m e h := by
  have hn : (exactLit neg m e).neg = neg := by unfold exactLit; split <;> rfl
  rw [NumLit.toNumber, exactLit_abs, hn, Binary64.round_canonical neg h]
  split
  · next h0 =>
    subst h0
    obtain ⟨-, -, -, h1 | rfl⟩ := h
    · exact absurd h1 (by decide)
    · rfl
  · rfl

end PiIpython
