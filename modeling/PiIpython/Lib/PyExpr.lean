import PiIpython.Lib.Text

/-!
# Python expressions

A fragment of Python's grammar: names, decimal integers, string literals,
attributes, and calls with positional and starred arguments. `tokenize` and
`parse` read a text of the fragment as Python does and refuse every other text:
prefixed and triple-quoted literals, octal and named escapes, adjacent
literals, names beyond ASCII, keywords and all other operators. The recursion
is on fuel; every call consumes a code point or a token.
-/

namespace PiIpython.PyExpr

open Text

/-- An expression, as `ast.parse` shows it. -/
inductive Expr where
  | name (x : PyStr)
  | int (n : Nat)
  | str (s : PyStr)
  | attr (e : Expr) (x : PyStr)
  | call (f : Expr) (args : List Expr)
  /-- An argument `*e`. -/
  | starred (e : Expr)

inductive Op where
  | dot
  | comma
  | star
  | lpar
  | rpar
  deriving DecidableEq

inductive Token where
  | name (x : PyStr)
  | int (n : Nat)
  | str (s : PyStr)
  | op (o : Op)
  deriving DecidableEq

/-! ## String literals -/

def apostrophe : CodePoint := 39

def quote : CodePoint := 34

def backslash : CodePoint := 92

def IsQuote (c : CodePoint) : Prop := c = apostrophe ∨ c = quote

instance (c : CodePoint) : Decidable (IsQuote c) := inferInstanceAs (Decidable (_ ∨ _))

/-- The value of a hexadecimal digit. -/
def hexDigit? (c : CodePoint) : Option Nat :=
  if 48 ≤ c.val ∧ c.val < 58 then some (c.val - 48)
  else if 97 ≤ c.val ∧ c.val < 103 then some (c.val - 87)
  else if 65 ≤ c.val ∧ c.val < 71 then some (c.val - 55)
  else none

/-- The character of an escape of one letter. -/
def escape1 (c : CodePoint) : Option CodePoint :=
  if c = backslash ∨ IsQuote c then some c
  else if c = chr 'a' then some 7
  else if c = chr 'b' then some 8
  else if c = chr 'f' then some 12
  else if c = chr 'n' then some 10
  else if c = chr 'r' then some 13
  else if c = chr 't' then some 9
  else if c = chr 'v' then some 11
  else none

/-- The digits of an escape in hexadecimal. -/
def escapeDigits (c : CodePoint) : Option Nat :=
  if c = chr 'x' then some 2
  else if c = chr 'u' then some 4
  else if c = chr 'U' then some 8
  else none

/-- Where the scan of a literal stands. -/
inductive Mode where
  | plain
  | backslash
  /-- In an escape with this many digits to come, of which the digits so far make `n`. -/
  | hex (left n : Nat)
  deriving DecidableEq

/-- The value gains a character in front. -/
def emit (c : CodePoint) (p : Option (PyStr × PyStr)) : Option (PyStr × PyStr) :=
  p.map fun p => (c :: p.1, p.2)

/-- The value of a literal up to its closing quote `q`, and the text behind it. -/
def scan (q : CodePoint) : Mode → PyStr → Option (PyStr × PyStr)
  | _, [] => none
  | .plain, c :: cs =>
    if c = q then some ([], cs)
    else if c = backslash then scan q .backslash cs
    else if c = 10 ∨ c = 13 ∨ c = 0 then none
    else emit c (scan q .plain cs)
  | .backslash, c :: cs =>
    match escape1 c, escapeDigits c with
    | some d, _ => emit d (scan q .plain cs)
    | none, some k => scan q (.hex k 0) cs
    | none, none =>
      if c = 10 then scan q .plain cs
      else if c = 13 ∨ c = 0 ∨ c = chr 'N' ∨ (48 ≤ c.val ∧ c.val < 56) then none
      else emit backslash (emit c (scan q .plain cs))
  | .hex left n, c :: cs =>
    match hexDigit? c with
    | none => none
    | some d =>
      if 1 < left then scan q (.hex (left - 1) (16 * n + d)) cs
      else if h : 16 * n + d < 0x110000 then emit ⟨16 * n + d, h⟩ (scan q .plain cs)
      else none

/-! ## Tokens -/

def IsDigit (c : CodePoint) : Prop := 48 ≤ c.val ∧ c.val < 58

instance (c : CodePoint) : Decidable (IsDigit c) := inferInstanceAs (Decidable (_ ∧ _))

/-- A letter of ASCII or the underscore. -/
def IsLetter (c : CodePoint) : Prop :=
  65 ≤ c.val ∧ c.val < 91 ∨ 97 ≤ c.val ∧ c.val < 123 ∨ c.val = 95

instance (c : CodePoint) : Decidable (IsLetter c) := inferInstanceAs (Decidable (_ ∨ _))

/-- A character that may go on a name, known to do so in ASCII. -/
def IsNameChar (c : CodePoint) : Prop := IsLetter c ∨ IsDigit c

instance (c : CodePoint) : Decidable (IsNameChar c) := inferInstanceAs (Decidable (_ ∨ _))

/-- The text cannot go on the name or number in front of it, nor make it a literal's prefix. -/
def Apart : PyStr → Prop
  | [] => True
  | c :: _ => ¬ IsNameChar c ∧ c.val < 128 ∧ ¬ IsQuote c

instance : (s : PyStr) → Decidable (Apart s)
  | [] => inferInstanceAs (Decidable True)
  | c :: _ => inferInstanceAs (Decidable (¬ IsNameChar c ∧ c.val < 128 ∧ ¬ IsQuote c))

/-- The number of decimal digits; a number of several digits does not start with zero. -/
def intValue (s : PyStr) : Option Nat :=
  if s.head? = some 48 ∧ ∃ c ∈ s, c ≠ 48 then none
  else some (s.foldl (fun n c => 10 * n + (c.val - 48)) 0)

/-- The text does not start with the character. -/
def NotBefore (c : Char) (s : PyStr) : Prop := s.head? ≠ some (chr c)

instance (c : Char) (s : PyStr) : Decidable (NotBefore c s) := inferInstanceAs (Decidable (_ ≠ _))

/-- The first token of a text that starts with no blank. -/
def token : PyStr → Option (Token × PyStr)
  | [] => none
  | c :: cs =>
    if IsLetter c then
      let rest := cs.dropWhile fun d => decide (IsNameChar d)
      if Apart rest then some (.name (c :: cs.takeWhile fun d => decide (IsNameChar d)), rest)
      else none
    else if IsDigit c then
      let rest := cs.dropWhile fun d => decide (IsDigit d)
      if Apart rest ∧ NotBefore '.' rest then
        (intValue (c :: cs.takeWhile fun d => decide (IsDigit d))).map fun n => (.int n, rest)
      else none
    else if IsQuote c then
      if [c, c] <+: cs then none else (scan c .plain cs).map fun p => (.str p.1, p.2)
    else if c = chr '.' then
      if NotBefore '.' cs ∧ ∀ d ∈ cs.head?, ¬ IsDigit d then some (.op .dot, cs) else none
    else if c = chr '*' then
      if NotBefore '*' cs ∧ NotBefore '=' cs then some (.op .star, cs) else none
    else if c = chr ',' then some (.op .comma, cs)
    else if c = chr '(' then some (.op .lpar, cs)
    else if c = chr ')' then some (.op .rpar, cs)
    else none

def tokens : Nat → PyStr → Option (List Token)
  | _, [] => some []
  | 0, _ :: _ => none
  | n + 1, c :: cs =>
    if c = chr ' ' then tokens n cs
    else (token (c :: cs)).bind fun p => (tokens n p.2).map (p.1 :: ·)

/-- The tokens of a text. A text with a surrogate is no source code. -/
def tokenize (s : PyStr) : Option (List Token) := if HasUtf8 s then tokens s.length s else none

/-! ## Expressions -/

def keywords : List PyStr :=
  ["False", "None", "True", "and", "as", "assert", "async", "await", "break", "class", "continue",
    "def", "del", "elif", "else", "except", "finally", "for", "from", "global", "if", "import",
    "in", "is", "lambda", "nonlocal", "not", "or", "pass", "raise", "return", "try", "while",
    "with", "yield"].map py

mutual

def expr : Nat → List Token → Option (Expr × List Token)
  | n + 1, .name x :: ts => if x ∈ keywords then none else trailers n (.name x) ts
  | n + 1, .int k :: ts => trailers n (.int k) ts
  | _ + 1, .str _ :: .str _ :: _ => none
  | n + 1, .str s :: ts => trailers n (.str s) ts
  | _, _ => none

/-- The expression with the attributes and calls that follow it. -/
def trailers : Nat → Expr → List Token → Option (Expr × List Token)
  | n + 1, e, .op .dot :: .name x :: ts => if x ∈ keywords then none else trailers n (.attr e x) ts
  | n + 1, e, .op .lpar :: .op .rpar :: ts => trailers n (.call e []) ts
  | n + 1, e, .op .lpar :: ts => (arguments n ts).bind fun p => trailers n (.call e p.1) p.2
  | _ + 1, e, ts => some (e, ts)
  | 0, _, _ => none

/-- The arguments of a call up to its closing parenthesis, at least one. -/
def arguments : Nat → List Token → Option (List Expr × List Token)
  | n + 1, .op .star :: ts => (expr n ts).bind fun p => moreArguments n (.starred p.1) p.2
  | n + 1, ts => (expr n ts).bind fun p => moreArguments n p.1 p.2
  | 0, _ => none

def moreArguments : Nat → Expr → List Token → Option (List Expr × List Token)
  | _, e, .op .rpar :: ts => some ([e], ts)
  | _, e, .op .comma :: .op .rpar :: ts => some ([e], ts)
  | n + 1, e, .op .comma :: ts => (arguments n ts).map fun p => (e :: p.1, p.2)
  | _, _, _ => none

end

/-- The expression that the tokens spell. -/
def parseTokens (ts : List Token) : Option Expr :=
  (expr (2 * ts.length + 2) ts).bind fun p => if p.2 = [] then some p.1 else none

/-- The expression that a text spells. -/
def parse (s : PyStr) : Option Expr := (tokenize s).bind parseTokens

/-! ## Reading literals -/

/-- A spelling that stands for one character of a literal in the quotes `q`. -/
def Spells (q : CodePoint) (t : PyStr) (c : CodePoint) : Prop :=
  ∀ r, scan q .plain (t ++ r) = emit c (scan q .plain r)

/-- **A literal whose characters are each spelled right denotes its text**, and ends where it was
closed. -/
theorem scan_flatMap {q : CodePoint} {f : CodePoint → PyStr} {s : PyStr}
    (h : ∀ c ∈ s, Spells q (f c) c) (r : PyStr) :
    scan q .plain (s.flatMap f ++ q :: r) = some (s, r) := by
  induction s with
  | nil => exact if_pos rfl
  | cons c s ih =>
    rw [List.flatMap_cons, List.append_assoc, h c List.mem_cons_self,
      ih fun d hd => h d (List.mem_cons_of_mem _ hd)]
    rfl

/-- A character that spells itself in the quotes `q`. -/
def Plain (q c : CodePoint) : Prop := c ≠ q ∧ c ≠ backslash ∧ c ≠ 10 ∧ c ≠ 13 ∧ c ≠ 0

instance (q c : CodePoint) : Decidable (Plain q c) := inferInstanceAs (Decidable (_ ∧ _))

theorem spells_plain {q c : CodePoint} (h : Plain q c) : Spells q [c] c := by
  intro r
  obtain ⟨h1, h2, h3, h4, h5⟩ := h
  rw [List.singleton_append, scan, if_neg h1, if_neg h2, if_neg (by tauto)]

theorem scan_backslash {q : CodePoint} (hq : IsQuote q) (s : PyStr) :
    scan q .plain (backslash :: s) = scan q .backslash s := by
  have : backslash ≠ q := by rcases hq with rfl | rfl <;> decide
  rw [scan, if_neg this, if_pos rfl]

theorem spells_escape1 {q e c : CodePoint} (hq : IsQuote q) (h : escape1 e = some c) :
    Spells q [backslash, e] c := by
  intro r
  change scan q .plain (backslash :: e :: r) = _
  rw [scan_backslash hq, scan, h]

theorem scan_hex_next {q c : CodePoint} {d left n : Nat} (hc : hexDigit? c = some d)
    (hl : 1 < left) (s : PyStr) :
    scan q (.hex left n) (c :: s) = scan q (.hex (left - 1) (16 * n + d)) s := by
  rw [scan, hc]
  exact if_pos hl

theorem scan_hex_last {q c : CodePoint} {d n : Nat} (hc : hexDigit? c = some d)
    (h : 16 * n + d < 0x110000) (s : PyStr) :
    scan q (.hex 1 n) (c :: s) = emit ⟨16 * n + d, h⟩ (scan q .plain s) := by
  rw [scan, hc]
  exact (if_neg (by decide)).trans (dif_pos h)

/-- The escape of four digits, surrogates included: no two of them make one character. -/
theorem spells_u {q a b c d : CodePoint} {i j k l : Nat} {x : CodePoint} (hq : IsQuote q)
    (ha : hexDigit? a = some i) (hb : hexDigit? b = some j) (hc : hexDigit? c = some k)
    (hd : hexDigit? d = some l) (hx : x.val = 4096 * i + 256 * j + 16 * k + l) :
    Spells q [backslash, chr 'u', a, b, c, d] x := by
  intro r
  have hlt := x.isLt
  change scan q .plain (backslash :: chr 'u' :: a :: b :: c :: d :: r) = _
  rw [scan_backslash hq, scan, show escape1 (chr 'u') = none by decide,
    show escapeDigits (chr 'u') = some 4 by decide]
  change scan q (.hex 4 0) (a :: b :: c :: d :: r) = _
  rw [scan_hex_next ha (by decide), scan_hex_next hb (by decide), scan_hex_next hc (by decide),
    scan_hex_last hd (by omega)]
  congr 1
  exact Fin.ext (by simp only; omega)

/-! ## Reading tokens -/

/-- The tokens of a text, without fuel. -/
inductive Lexes : PyStr → List Token → Prop where
  | nil : Lexes [] []
  | blank {s : PyStr} {ts : List Token} (h : Lexes s ts) : Lexes (chr ' ' :: s) ts
  | cons {c : CodePoint} {s r : PyStr} {t : Token} {ts : List Token} (hc : c ≠ chr ' ')
      (ht : token (c :: s) = some (t, r)) (hr : r.length ≤ s.length) (h : Lexes r ts) :
      Lexes (c :: s) (t :: ts)

theorem Lexes.tokens {s : PyStr} {ts : List Token} (h : Lexes s ts) :
    ∀ n, s.length ≤ n → tokens n s = some ts := by
  induction h with
  | nil => intro n _; cases n <;> rfl
  | blank _ ih =>
    intro n hn
    obtain ⟨n, rfl⟩ : ∃ k, n = k + 1 := ⟨n - 1, by simp only [List.length_cons] at hn; omega⟩
    rw [PyExpr.tokens, if_pos rfl]
    exact ih n (by simpa using hn)
  | cons hc ht hr _ ih =>
    intro n hn
    obtain ⟨n, rfl⟩ : ∃ k, n = k + 1 := ⟨n - 1, by simp only [List.length_cons] at hn; omega⟩
    rw [PyExpr.tokens, if_neg hc, ht, Option.bind_some,
      ih n (by simp only [List.length_cons] at hn; omega)]
    rfl

/-- **A text is parsed as its tokens are.** -/
theorem Lexes.parse {s : PyStr} {ts : List Token} (h : Lexes s ts) (hs : HasUtf8 s) :
    parse s = parseTokens ts := by
  rw [PyExpr.parse, tokenize, if_pos hs, h.tokens _ le_rfl]
  rfl

/-- A name. -/
def IsName (x : PyStr) : Prop := (∃ c ∈ x.head?, IsLetter c) ∧ ∀ c ∈ x, IsNameChar c

instance (x : PyStr) : Decidable (IsName x) := inferInstanceAs (Decidable (_ ∧ _))

theorem takeWhile_apart {x r : PyStr} (hx : ∀ c ∈ x, IsNameChar c) (hr : Apart r) :
    (x ++ r).takeWhile (fun d => decide (IsNameChar d)) = x ∧
      (x ++ r).dropWhile (fun d => decide (IsNameChar d)) = r := by
  have hr' : r.takeWhile (fun d => decide (IsNameChar d)) = [] ∧
      r.dropWhile (fun d => decide (IsNameChar d)) = r := by
    cases r with
    | nil => exact ⟨rfl, rfl⟩
    | cons c r =>
      have hc : decide (IsNameChar c) = false := decide_eq_false hr.1
      rw [List.takeWhile_cons, List.dropWhile_cons, hc]
      exact ⟨rfl, rfl⟩
  rw [List.takeWhile_append_of_pos fun c hc => decide_eq_true (hx c hc),
    List.dropWhile_append_of_pos fun c hc => decide_eq_true (hx c hc), hr'.1, hr'.2]
  exact ⟨List.append_nil x, rfl⟩

theorem Lexes.name {x r : PyStr} {ts : List Token} (hx : IsName x) (hr : Apart r)
    (h : Lexes r ts) : Lexes (x ++ r) (.name x :: ts) := by
  cases x with
  | nil => obtain ⟨⟨c, hc, -⟩, -⟩ := hx; cases hc
  | cons c x =>
    have hc : IsLetter c := by
      obtain ⟨⟨d, hd, hl⟩, -⟩ := hx
      obtain rfl := Option.some.inj hd
      exact hl
    obtain ⟨h1, h2⟩ := takeWhile_apart (fun d hd => hx.2 d (List.mem_cons_of_mem _ hd)) hr
    refine .cons (by rintro rfl; revert hc; decide) ?_ (by simp) h
    change token (c :: (x ++ r)) = _
    rw [token, if_pos hc]
    simp only [h1, h2, if_pos hr]

/-- A number of one digit. -/
theorem Lexes.digit {c : CodePoint} {r : PyStr} {ts : List Token} (hc : IsDigit c) (hr : Apart r)
    (hd : r.head? ≠ some (chr '.')) (h : Lexes r ts) :
    Lexes (c :: r) (.int (c.val - 48) :: ts) := by
  have hl : ¬ IsLetter c := by
    rintro (hl | hl | hl) <;> have := hc.1 <;> have := hc.2 <;> omega
  have hw : r.takeWhile (fun d => decide (IsDigit d)) = [] ∧
      r.dropWhile (fun d => decide (IsDigit d)) = r := by
    cases r with
    | nil => exact ⟨rfl, rfl⟩
    | cons d r =>
      have : decide (IsDigit d) = false := decide_eq_false fun hd => hr.1 (.inr hd)
      rw [List.takeWhile_cons, List.dropWhile_cons, this]
      exact ⟨rfl, rfl⟩
  have hz : intValue [c] = some (c.val - 48) := by
    rw [intValue, if_neg]
    · simp
    · rintro ⟨h1, d, hd, h2⟩
      rw [List.mem_singleton.mp hd] at h2
      exact h2 (Option.some.inj h1)
  refine .cons (by rintro rfl; revert hc; decide) ?_ le_rfl h
  rw [token, if_neg hl, if_pos hc]
  simp only [hw.1, hw.2, hz, if_pos (show Apart r ∧ NotBefore '.' r from ⟨hr, hd⟩)]
  rfl

theorem Lexes.lpar {r : PyStr} {ts : List Token} (h : Lexes r ts) :
    Lexes (chr '(' :: r) (.op .lpar :: ts) :=
  .cons (by decide) rfl le_rfl h

theorem Lexes.rpar {r : PyStr} {ts : List Token} (h : Lexes r ts) :
    Lexes (chr ')' :: r) (.op .rpar :: ts) :=
  .cons (by decide) rfl le_rfl h

theorem Lexes.comma {r : PyStr} {ts : List Token} (h : Lexes r ts) :
    Lexes (chr ',' :: r) (.op .comma :: ts) :=
  .cons (by decide) rfl le_rfl h

/-- A dot or star in front of a name. -/
theorem Lexes.before_name {x : PyStr} (hx : IsName x) (r : PyStr) {ts : List Token}
    (h : Lexes (x ++ r) ts) :
    Lexes (chr '.' :: (x ++ r)) (.op .dot :: ts) ∧ Lexes (chr '*' :: (x ++ r)) (.op .star :: ts) := by
  cases x with
  | nil => obtain ⟨⟨c, hc, -⟩, -⟩ := hx; cases hc
  | cons c x =>
    have hc : IsLetter c := by
      obtain ⟨⟨d, hd, hl⟩, -⟩ := hx
      obtain rfl := Option.some.inj hd
      exact hl
    have hne : ∀ d : CodePoint, ¬ IsLetter d → c ≠ d := by rintro d hd rfl; exact hd hc
    have hb : ∀ d : Char, ¬ IsLetter (chr d) → NotBefore d (c :: x ++ r) := fun d hd he =>
      hne _ hd (Option.some.inj he)
    constructor
    · refine .cons (by decide) ?_ le_rfl h
      refine if_pos ⟨hb '.' (by decide), ?_⟩
      intro d hd hdig
      obtain rfl := Option.some.inj hd
      rcases hc with hc | hc | hc <;> have := hdig.1 <;> have := hdig.2 <;> omega
    · exact .cons (by decide) (if_pos ⟨hb '*' (by decide), hb '=' (by decide)⟩) le_rfl h

/-- A literal that the scan ends before `r`, where no further quote makes it a triple one. -/
theorem Lexes.str {q : CodePoint} {s t r : PyStr} {ts : List Token} (hq : IsQuote q)
    (hs : scan q .plain (t ++ q :: r) = some (s, r)) (ht : t ≠ [] ∨ r.head? ≠ some q)
    (h : Lexes r ts) : Lexes (q :: (t ++ q :: r)) (.str s :: ts) := by
  have htriple : ¬ [q, q] <+: t ++ q :: r := by
    rcases t with _ | ⟨c, t⟩
    · rintro ⟨l, hl⟩
      rw [List.nil_append, List.cons_append, List.cons.injEq] at hl
      exact ht.elim (fun h => h rfl) fun h => h (by rw [← hl.2]; rfl)
    · rintro ⟨l, hl⟩
      obtain rfl : q = c := (List.cons.inj hl).1
      rw [List.cons_append, scan, if_pos rfl] at hs
      obtain ⟨-, hr⟩ := Prod.mk.inj (Option.some.inj hs)
      have := congrArg List.length hr
      simp only [List.length_append, List.length_cons] at this
      omega
  refine .cons ?_ ?_ (by simp only [List.length_append, List.length_cons]; omega) h
  · rcases hq with rfl | rfl <;> decide
  · have h1 : ¬ IsLetter q := by rcases hq with rfl | rfl <;> decide
    have h2 : ¬ IsDigit q := by rcases hq with rfl | rfl <;> decide
    rw [token, if_neg h1, if_neg h2, if_pos hq, if_neg htriple, hs]
    rfl

/-- A literal of plain characters. -/
theorem Lexes.plain {q : CodePoint} {s r : PyStr} {ts : List Token} (hq : IsQuote q)
    (hs : ∀ c ∈ s, Plain q c) (hne : s ≠ []) (h : Lexes r ts) :
    Lexes (q :: (s ++ q :: r)) (.str s :: ts) := by
  refine .str hq ?_ (.inl hne) h
  have := scan_flatMap (f := fun c => [c]) (fun c hc => spells_plain (hs c hc)) r
  rwa [List.flatMap_singleton'] at this

/-! ## Reading expressions -/

theorem trailers_call {n : Nat} {e : Expr} {ts r : List Token} {as : List Expr}
    (ht : ts.head? ≠ some (.op .rpar)) (h : arguments n ts = some (as, r)) :
    trailers (n + 1) e (.op .lpar :: ts) = trailers n (.call e as) r := by
  cases ts with
  | nil => rw [trailers, h]; · rfl
           · rintro _ ⟨⟩
  | cons t ts =>
    rw [trailers, h]
    · rfl
    · rintro ts' hts
      obtain ⟨rfl, -⟩ := List.cons.inj hts
      exact ht rfl

/-- The expression ends where a call closes. -/
theorem trailers_closed (n : Nat) (e : Expr) {ts : List Token}
    (ht : ts = [] ∨ ∃ r, ts = .op .rpar :: r) : trailers (n + 1) e ts = some (e, ts) := by
  rcases ht with rfl | ⟨r, rfl⟩ <;> rfl

/-- The one argument of a call, or the last. -/
theorem arguments_last {n : Nat} {e : Expr} {ts r : List Token}
    (ht : ts.head? ≠ some (.op .star)) (h : expr n ts = some (e, .op .rpar :: r)) :
    arguments (n + 1) ts = some ([e], r) := by
  rw [arguments, h]
  · cases n <;> rfl
  · rintro ts' rfl
    exact ht rfl

theorem arguments_starred {n : Nat} {e : Expr} {ts r : List Token}
    (h : expr n ts = some (e, .op .rpar :: r)) :
    arguments (n + 1) (.op .star :: ts) = some ([.starred e], r) := by
  rw [arguments, h]
  cases n <;> rfl

end PiIpython.PyExpr
