import PiIpython.Bridge.Wire
import PiIpython.Lib.JsString
import PiIpython.Lib.PyExpr

/-!
# Values in Python code

The host writes values into Python code in two ways: a path as the text of
`JSON.stringify`, and the arguments of a call as that text once more, for
`json.loads` to read. Python's grammar finds one literal in the first and its
value is the path; in the second it finds the same call whatever the values
are, and what `json.loads` makes of the literal is the values.

`decode16` is a text of the host as Python has it; `utf16_decode16` says that
nothing of the text is lost.
-/

namespace PiIpython.Embed

open Text Json PyExpr
open Bridge (PyNum PyValue unicodeEscape escapeChar hexDigit)

/-! ## `JSON.stringify` and `json.loads` -/

/-- A value that the host passes to Python: strings, lists and `null`, but no number. -/
abbrev Arg := Json JsStr Empty

/-- The spelling of a code point within a string. A lone surrogate is escaped. -/
def quoteChar (c : CodePoint) : PyStr :=
  if IsSurrogate c then unicodeEscape c.val else escapeChar c

def printer : Printer CodePoint JsStr Empty :=
  ⟨chr, fun s => (decode16 s).flatMap quoteChar, fun n => nomatch n⟩

/-- `JSON.stringify`. -/
def stringify (v : Arg) : JsStr := utf16 (printer.value v)

/-- A number of `json.loads`: an `int` unless it has a fraction or an exponent. A conversion of more
than 4300 digits raises. -/
def pyNumber (l : NumLit) : Option PyNum :=
  if l.frac = none ∧ l.exp = none then
    if l.int.length ≤ 4300 then
      some (.int (if l.neg then -(ofDigits l.int : Int) else ofDigits l.int))
    else none
  else some (.float l.toNumber)

def pyDialect : Dialect PyNum :=
  ⟨pyNumber, [(js "NaN", .float .nan), (js "Infinity", .float (.inf false)),
    (js "-Infinity", .float (.inf true))]⟩

/-- `json.loads` of a text without surrogates; no other text is read here. -/
def loads (s : PyStr) : Option PyValue :=
  if HasUtf8 s then (Json.parse pyDialect (utf16 s)).map (map decode16 id) else none

/-! ## The code -/

/-- The functions of `pi_ipython_state` that the host calls. -/
inductive Operation where
  | save
  | restore
  | accept

def Operation.name : Operation → String
  | save => "save"
  | restore => "restore"
  | accept => "accept"

/-- The expression of `Checkpoints.call`. -/
def call (o : Operation) (args : List Arg) : JsStr :=
  let payload := stringify (.str (stringify (.arr args)))
  js "__import__('pi_ipython_state')." ++ js o.name ++ js "(*__import__('json').loads(" ++ payload ++
    js "))"

/-- The expression that the `evaluate` of the bridge has the kernel evaluate. -/
def userExpression (expression : PyStr) : PyStr :=
  py "__import__('json').dumps(" ++ expression ++ py ")"

/-- The startup code of `createRuntime`. -/
def initializeCode (checkpointBase : JsStr) : JsStr :=
  js "__import__('pi_ipython_state').initialize(get_ipython(), " ++ stringify (.str checkpointBase) ++
    js ")"

/-- The startup code of `startKernel`. -/
def insertCode (kernelModulesDir : JsStr) : JsStr :=
  js "__import__('sys').path.insert(0, " ++ stringify (.str kernelModulesDir) ++ js ")"

/-! ## What the code should say -/

def importExpr (m : String) : Expr := .call (.name (py "__import__")) [.str (py m)]

/-- The call of `o` with the elements of a list that `json.loads` reads from `text`. -/
def callExpr (o : Operation) (text : PyStr) : Expr :=
  .call (.attr (importExpr "pi_ipython_state") (py o.name))
    [.starred (.call (.attr (importExpr "json") (py "loads")) [.str text])]

def dumpsExpr (e : Expr) : Expr := .call (.attr (importExpr "json") (py "dumps")) [e]

def initializeExpr (base : PyStr) : Expr :=
  .call (.attr (importExpr "pi_ipython_state") (py "initialize"))
    [.call (.name (py "get_ipython")) [], .str base]

def insertExpr (dir : PyStr) : Expr :=
  .call (.attr (.attr (importExpr "sys") (py "path")) (py "insert")) [.int 0, .str dir]

/-! ## Spelled characters -/

theorem hexDigit?_hexDigit : ∀ n < 16, PyExpr.hexDigit? (chr (hexDigit n)) = some n := by
  decide

theorem json_hexDigit? : ∀ n < 16, Json.hexDigit? (unit (hexDigit n)) = some n := by
  decide

theorem hexDigit_lt : ∀ n < 16, (hexDigit n).toNat < 0x10000 := by
  decide

/-- The four digits make the number. -/
theorem digits_eq {n : Nat} (h : n < 0x10000) :
    n = 4096 * (n / 4096 % 16) + 256 * (n / 256 % 16) + 16 * (n / 16 % 16) + n % 16 := by
  omega

theorem spells_unicodeEscape {q c : CodePoint} (hq : IsQuote q) (h : c.val < 0x10000) :
    Spells q (unicodeEscape c.val) c :=
  have hd : ∀ k, PyExpr.hexDigit? (chr (hexDigit (k % 16))) = some (k % 16) := fun k =>
    hexDigit?_hexDigit _ (Nat.mod_lt _ (by decide))
  spells_u hq (hd _) (hd _) (hd _) (hd _) (digits_eq h)

/-- In a Python literal an escape of `JSON.stringify` is the character it is in JSON. -/
theorem spells_quoteChar (c : CodePoint) : Spells quote (quoteChar c) c := by
  have hq : IsQuote quote := .inr rfl
  unfold quoteChar
  split
  · next h => exact spells_unicodeEscape hq (by have := h.2; omega)
  unfold escapeChar
  split
  · next h => subst h; exact spells_escape1 (e := chr '"') hq (by decide)
  split
  · next h => subst h; exact spells_escape1 (e := chr '\\') hq (by decide)
  split
  · next h => subst h; exact spells_escape1 (e := chr 'n') hq (by decide)
  split
  · next h => subst h; exact spells_escape1 (e := chr 'r') hq (by decide)
  split
  · next h => subst h; exact spells_escape1 (e := chr 't') hq (by decide)
  split
  · next h =>
    obtain rfl : c = 8 := Fin.ext h
    exact spells_escape1 (e := chr 'b') hq (by decide)
  split
  · next h =>
    obtain rfl : c = 12 := Fin.ext h
    exact spells_escape1 (e := chr 'f') hq (by decide)
  split
  · next h => exact spells_unicodeEscape hq (by omega)
  · next h1 h2 h3 h4 _ _ _ h8 =>
    refine spells_plain ⟨h1, h2, h3, h4, ?_⟩
    rintro rfl
    exact h8 (by decide)

theorem parseChars_unicodeEscape {c : CodePoint} (h : c.val < 0x10000) (t : JsStr) :
    parseChars (utf16 (unicodeEscape c.val) ++ t) =
      (parseChars t).map fun p => (encode16 c ++ p.1, p.2) := by
  have hx : ∀ k, utf16 [chr (hexDigit (k % 16))] = [unit (hexDigit (k % 16))] := fun k =>
    utf16_map_chr (l := [hexDigit (k % 16)])
      (by simpa using hexDigit_lt _ (Nat.mod_lt _ (by decide)))
  have hd : ∀ k, Json.hexDigit? (unit (hexDigit (k % 16))) = some (k % 16) := fun k =>
    json_hexDigit? _ (Nat.mod_lt _ (by decide))
  have hu : utf16 (unicodeEscape c.val) ++ t = unit '\\' :: unit 'u' ::
      unit (hexDigit (c.val / 4096 % 16)) :: unit (hexDigit (c.val / 256 % 16)) ::
        unit (hexDigit (c.val / 16 % 16)) :: unit (hexDigit (c.val % 16)) :: t := by
    have h4 : ∀ a b d e : CodePoint, [a, b, d, e] = [a] ++ [b] ++ [d] ++ [e] := fun _ _ _ _ => rfl
    rw [unicodeEscape, h4, utf16_append, utf16_append, utf16_append, utf16_append, hx, hx, hx, hx]
    rfl
  rw [hu, parseChars_u, hex4, hd, hd, hd, hd, encode16_bmp h]
  simp only [← digits_eq h]
  rfl

theorem parseChars_quoteChar (c : CodePoint) (t : JsStr) :
    parseChars (utf16 (quoteChar c) ++ t) =
      (parseChars t).map fun p => (encode16 c ++ p.1, p.2) := by
  unfold quoteChar
  split
  · next h => exact parseChars_unicodeEscape (by have := h.2; omega) t
  · exact Bridge.parseChars_escapeChar c t

theorem parseChars_quoted (s : PyStr) (r : JsStr) :
    parseChars (utf16 (s.flatMap quoteChar) ++ unit '"' :: r) = some (utf16 s, r) := by
  induction s with
  | nil => exact parseChars_quote r
  | cons c s ih =>
    rw [List.flatMap_cons, utf16_append, List.append_assoc, parseChars_quoteChar, ih]
    rfl

theorem quoteChar_hasUtf8 (c : CodePoint) : HasUtf8 (quoteChar c) := by
  have ha : ∀ {d : CodePoint}, Bridge.IsAscii d → ¬ IsSurrogate d := by
    rintro d hd hs
    have := hd.2
    have := hs.1
    omega
  unfold quoteChar
  split
  · exact fun d hd => ha (Bridge.isAscii_unicodeEscape _ d hd)
  · next h =>
    rcases Bridge.escapeChar_cases c with ⟨he, -⟩ | ⟨-, he⟩
    · rw [he]
      intro d hd
      rwa [List.mem_singleton.mp hd]
    · exact fun d hd => ha (he d hd)

/-! ## Texts of `JSON.stringify` -/

theorem hasUtf8_value (v : Arg) : HasUtf8 (printer.value v) := by
  refine (Printer.forall_mem_value (P := printer) (fun c hc hs => ?_) v).mpr
    (all_of (fun s d hd => ?_) (fun n => nomatch n) v)
  · have h1 : (chr c).val < 128 := (Bridge.isAscii_chr hc).2
    have h2 : 0xD800 ≤ (chr c).val := hs.1
    omega
  · obtain ⟨c, -, hc⟩ := List.mem_flatMap.mp hd
    exact quoteChar_hasUtf8 c d hc

theorem stringify_eq (v : Arg) : stringify v = (printer.map unit utf16).value v := by
  have hc : ∀ c, Printer.IsSyntax c → utf16 [printer.char c] = [unit c] := fun c hc =>
    utf16_map_chr (l := [c]) (by simpa using Nat.lt_trans hc.2 (by decide))
  exact Printer.map_value utf16_append hc v

theorem stringify_reads : (printer.map unit utf16).Reads pyDialect id fun n => nomatch n where
  char := rfl
  str s r := by
    change parseChars (utf16 ((decode16 s).flatMap quoteChar) ++ _) = _
    rw [parseChars_quoted, utf16_decode16]
    rfl
  num n := nomatch n
  head n := nomatch n

/-- **`json.loads` reads what `JSON.stringify` wrote**, every text as Python has it. -/
theorem loads_stringify (v : Arg) :
    loads (printer.value v) = some (v.map decode16 fun n => nomatch n) := by
  rw [loads, if_pos (hasUtf8_value v)]
  change (Json.parse pyDialect (stringify v)).map _ = _
  rw [stringify_eq, stringify_reads.parse_value]
  have he : (fun n => nomatch n : Empty → Option PyNum) = fun n => some (nomatch n) :=
    funext fun n => nomatch n
  rw [he, convert_map]
  rfl

/-- A text of `JSON.stringify` as a Python literal. -/
theorem lexes_quoted (s : JsStr) {r : PyStr} {ts : List Token} (hr : r.head? ≠ some quote)
    (h : Lexes r ts) : Lexes (printer.value (.str s) ++ r) (.str (decode16 s) :: ts) := by
  change Lexes (quote :: ((decode16 s).flatMap quoteChar ++ [quote] ++ r)) _
  rw [List.append_assoc]
  exact .str (.inr rfl) (scan_flatMap (fun c _ => spells_quoteChar c) r) (.inr hr) h

/-! ## Texts of the code -/

theorem hasUtf8_append {s t : PyStr} (hs : HasUtf8 s) (ht : HasUtf8 t) : HasUtf8 (s ++ t) :=
  List.forall_mem_append.mpr ⟨hs, ht⟩

theorem isName_py {s : String} (hs : s.toList ≠ [])
    (h : ∀ c ∈ s.toList, IsLetter (chr c)) : IsName (py s) := by
  refine ⟨?_, List.forall_mem_map.mpr fun c hc => .inl (h c hc)⟩
  obtain ⟨c, l, hl⟩ := List.exists_cons_of_ne_nil hs
  refine ⟨chr c, by rw [py, hl]; rfl, h c ?_⟩
  rw [hl]
  exact List.mem_cons_self

theorem apart_lpar (r : PyStr) : Apart (chr '(' :: r) := ⟨by decide, by decide, by decide⟩

theorem apart_dot (r : PyStr) : Apart (chr '.' :: r) := ⟨by decide, by decide, by decide⟩

theorem apart_comma (r : PyStr) : Apart (chr ',' :: r) := ⟨by decide, by decide, by decide⟩

theorem isName_import : IsName (py "__import__") :=
  isName_py (by simp) (by simp [IsLetter, chr])

/-- `__import__('m').f(` and what follows it. -/
theorem lexes_import {m : String} {x r : PyStr} {ts : List Token}
    (hm : (∀ c ∈ py m, Plain apostrophe c) ∧ py m ≠ []) (hx : IsName x) (h : Lexes r ts) :
    Lexes (py "__import__" ++ chr '(' :: apostrophe :: (py m ++ apostrophe :: chr ')' :: chr '.' ::
        (x ++ chr '(' :: r)))
      (.name (py "__import__") :: .op .lpar :: .str (py m) :: .op .rpar :: .op .dot :: .name x ::
        .op .lpar :: ts) :=
  .name isName_import (apart_lpar _) (.lpar (.plain (.inl rfl) hm.1 hm.2 (.rpar
    (Lexes.before_name hx _ (.name hx (apart_lpar _) (.lpar h))).1)))

/-- The source that Python gets from `call`, for the text `t` of the arguments. -/
def callSource (o : Operation) (t : JsStr) : PyStr :=
  py "__import__('pi_ipython_state')." ++ (py o.name ++ (py "(*__import__('json').loads(" ++
    (printer.value (.str t) ++ py "))")))

theorem isName_operation (o : Operation) : IsName (py o.name) := by
  cases o <;> exact isName_py (by simp [Operation.name]) (by simp [Operation.name, IsLetter, chr])

theorem isName_loads : IsName (py "loads") := isName_py (by simp) (by simp [IsLetter, chr])

def callTokens (o : Operation) (text : PyStr) : List Token :=
  [.name (py "__import__"), .op .lpar, .str (py "pi_ipython_state"), .op .rpar, .op .dot,
    .name (py o.name), .op .lpar, .op .star, .name (py "__import__"), .op .lpar, .str (py "json"),
    .op .rpar, .op .dot, .name (py "loads"), .op .lpar, .str text, .op .rpar, .op .rpar]

theorem plain_state : (∀ c ∈ py "pi_ipython_state", Plain apostrophe c) ∧
    py "pi_ipython_state" ≠ [] := by
  simp [py, Plain, apostrophe, backslash, chr]

theorem plain_json : (∀ c ∈ py "json", Plain apostrophe c) ∧ py "json" ≠ [] := by
  simp [py, Plain, apostrophe, backslash, chr]

/-- The source that Python gets from `initializeCode` and `insertCode`. -/
def pathSource (s : String) (path : JsStr) : PyStr :=
  py s ++ (printer.value (.str path) ++ py ")")

/-- The tokens of a call of `json.dumps` with the argument that `ts` spells. -/
def dumpsTokens (ts : List Token) : List Token :=
  [.name (py "__import__"), .op .lpar, .str (py "json"), .op .rpar, .op .dot, .name (py "dumps"),
    .op .lpar] ++ (ts ++ [.op .rpar])

def initializeTokens (base : PyStr) : List Token :=
  [.name (py "__import__"), .op .lpar, .str (py "pi_ipython_state"), .op .rpar, .op .dot,
    .name (py "initialize"), .op .lpar, .name (py "get_ipython"), .op .lpar, .op .rpar, .op .comma,
    .str base, .op .rpar]

def insertTokens (dir : PyStr) : List Token :=
  [.name (py "__import__"), .op .lpar, .str (py "sys"), .op .rpar, .op .dot, .name (py "path"),
    .op .dot, .name (py "insert"), .op .lpar, .int 0, .op .comma, .str dir, .op .rpar]

theorem lexes_callSource (o : Operation) (t : JsStr) {r : PyStr} {ts : List Token}
    (h : Lexes r ts) : Lexes (callSource o t ++ r) (callTokens o (decode16 t) ++ ts) := by
  have h1 : py "__import__('pi_ipython_state')." = py "__import__" ++ chr '(' :: apostrophe ::
      (py "pi_ipython_state" ++ apostrophe :: chr ')' :: [chr '.']) := by
    simp [py]; decide
  have h2 : py "(*__import__('json').loads(" = chr '(' :: chr '*' :: (py "__import__" ++ chr '(' ::
      apostrophe :: (py "json" ++ apostrophe :: chr ')' :: chr '.' :: (py "loads" ++ [chr '(']))) := by
    simp [py]; decide
  rw [callSource, h1, h2]
  simp only [List.append_assoc, List.cons_append, List.nil_append]
  refine lexes_import plain_state (isName_operation o) ?_
  refine (Lexes.before_name isName_import _ (lexes_import plain_json isName_loads ?_)).2
  exact lexes_quoted t (by simp [py]; decide) (.rpar (.rpar h))

theorem lexes_userExpression (o : Operation) (t : JsStr) :
    Lexes (userExpression (callSource o t)) (dumpsTokens (callTokens o (decode16 t))) := by
  have h : py "__import__('json').dumps(" = py "__import__" ++ chr '(' :: apostrophe ::
      (py "json" ++ apostrophe :: chr ')' :: chr '.' :: (py "dumps" ++ [chr '('])) := by
    simp [py]; decide
  rw [userExpression, h]
  simp only [List.append_assoc, List.cons_append, List.nil_append]
  exact lexes_import plain_json (isName_py (by simp) (by simp [IsLetter, chr]))
    (lexes_callSource o t (.rpar .nil))

theorem lexes_initializeCode (base : JsStr) :
    Lexes (pathSource "__import__('pi_ipython_state').initialize(get_ipython(), " base)
      (initializeTokens (decode16 base)) := by
  have h : py "__import__('pi_ipython_state').initialize(get_ipython(), " =
      py "__import__" ++ chr '(' :: apostrophe :: (py "pi_ipython_state" ++ apostrophe :: chr ')' ::
        chr '.' :: (py "initialize" ++ chr '(' :: (py "get_ipython" ++ chr '(' :: chr ')' ::
          chr ',' :: [chr ' ']))) := by
    simp [py]; decide
  rw [pathSource, h]
  simp only [List.append_assoc, List.cons_append, List.nil_append]
  refine lexes_import plain_state (isName_py (by simp) (by simp [IsLetter, chr])) ?_
  refine .name (isName_py (by simp) (by simp [IsLetter, chr])) (apart_lpar _) ?_
  exact .lpar (.rpar (.comma (.blank (lexes_quoted base (by simp [py]; decide) (.rpar .nil)))))

theorem lexes_insertCode (dir : JsStr) :
    Lexes (pathSource "__import__('sys').path.insert(0, " dir) (insertTokens (decode16 dir)) := by
  have h : py "__import__('sys').path.insert(0, " =
      py "__import__" ++ chr '(' :: apostrophe :: (py "sys" ++ apostrophe :: chr ')' ::
        chr '.' :: (py "path" ++ chr '.' :: (py "insert" ++ chr '(' :: chr '0' :: chr ',' ::
          [chr ' ']))) := by
    simp [py]; decide
  have hm : (∀ c ∈ py "sys", Plain apostrophe c) ∧ py "sys" ≠ [] := by
    simp [py, Plain, apostrophe, backslash, chr]
  have hp : IsName (py "path") := isName_py (by simp) (by simp [IsLetter, chr])
  have hi : IsName (py "insert") := isName_py (by simp) (by simp [IsLetter, chr])
  rw [pathSource, h]
  simp only [List.append_assoc, List.cons_append, List.nil_append]
  refine .name isName_import (apart_lpar _) (.lpar (.plain (.inl rfl) hm.1 hm.2 (.rpar ?_)))
  refine (Lexes.before_name hp _ (.name hp (apart_dot _) ?_)).1
  refine (Lexes.before_name hi _ (.name hi (apart_lpar _) (.lpar ?_))).1
  refine .digit (c := chr '0') (by decide) (apart_comma _) (by rw [List.head?_cons]; decide)
    (.comma (.blank ?_))
  exact lexes_quoted dir (by simp [py]; decide) (.rpar .nil)

/-! ## What Python makes of the code -/

theorem chr_injective : Function.Injective chr := by
  have hlt : ∀ c : Char, c.toNat < 0x110000 := by
    intro c
    have := c.valid
    simp only [UInt32.isValidChar, Nat.isValidChar] at this
    change c.val.toNat < _
    omega
  intro c d h
  have hv := congrArg Fin.val h
  simp only [chr, Fin.ofNat, Nat.mod_eq_of_lt (hlt c), Nat.mod_eq_of_lt (hlt d)] at hv
  exact Char.ext (UInt32.toNat_inj.mp hv)

theorem import_not_keyword : py "__import__" ∉ keywords := by
  simp [keywords, py, chr_injective.eq_iff]

theorem expr_import {m : String} (n : Nat) (ts : List Token) :
    expr (n + 5) (.name (py "__import__") :: .op .lpar :: .str (py m) :: .op .rpar :: ts) =
      trailers (n + 3) (importExpr m) ts := by
  simp [expr, trailers, arguments, moreArguments, import_not_keyword, importExpr]

/-- `__import__('m').f(..)`. -/
theorem expr_importCall {m : String} {x : PyStr} {n : Nat} {ts r : List Token} {as : List Expr}
    (hx : x ∉ keywords) (ht : ts.head? ≠ some (.op .rpar)) (h : arguments (n + 1) ts = some (as, r))
    (hr : r = [] ∨ ∃ r', r = .op .rpar :: r') :
    expr (n + 5) (.name (py "__import__") :: .op .lpar :: .str (py m) :: .op .rpar :: .op .dot ::
      .name x :: .op .lpar :: ts) = some (.call (.attr (importExpr m) x) as, r) := by
  rw [expr_import, trailers, if_neg hx, trailers_call ht h, trailers_closed n _ hr]

theorem expr_callTokens (o : Operation) (text : PyStr) (n : Nat) {ts : List Token}
    (hts : ts = [] ∨ ∃ r, ts = .op .rpar :: r) :
    expr (n + 15) (callTokens o text ++ ts) = some (callExpr o text, ts) := by
  have h1 : py "loads" ∉ keywords := by simp [keywords, py, chr_injective.eq_iff]
  have h2 : py o.name ∉ keywords := by
    cases o <;> simp [Operation.name, keywords, py, chr_injective.eq_iff]
  refine expr_importCall (n := n + 10) h2 (by simp) (arguments_starred (n := n + 10) ?_) hts
  refine expr_importCall (n := n + 5) h1 (by simp) (arguments_last (n := n + 5) (by simp) ?_)
    (.inr ⟨ts, rfl⟩)
  exact trailers_closed (n + 3) _ (.inr ⟨_, rfl⟩)

/-- **The call is the same whatever its literal says.** -/
theorem parse_callTokens (o : Operation) (text : PyStr) :
    parseTokens (callTokens o text) = some (callExpr o text) ∧
      parseTokens (dumpsTokens (callTokens o text)) = some (dumpsExpr (callExpr o text)) := by
  have h : py "dumps" ∉ keywords := by simp [keywords, py, chr_injective.eq_iff]
  constructor
  · have h1 := expr_callTokens o text 23 (.inl rfl)
    rw [List.append_nil] at h1
    rw [parseTokens]
    exact congrArg (Option.bind · _) h1
  · have h1 := expr_callTokens o text 34 (.inr ⟨[], rfl⟩)
    have h2 : expr (49 + 5) (dumpsTokens (callTokens o text)) = _ :=
      expr_importCall (n := 49) h (by rw [callTokens]; simp)
        (arguments_last (n := 49) (by rw [callTokens]; simp) h1) (.inl rfl)
    rw [parseTokens]
    exact congrArg (Option.bind · _) h2

theorem parse_initializeTokens (base : PyStr) :
    parseTokens (initializeTokens base) = some (initializeExpr base) := by
  have h1 := import_not_keyword
  have h2 : py "initialize" ∉ keywords := by simp [keywords, py, chr_injective.eq_iff]
  have h3 : py "get_ipython" ∉ keywords := by simp [keywords, py, chr_injective.eq_iff]
  simp [parseTokens, initializeTokens, expr, trailers, arguments, moreArguments, h1, h2, h3,
    initializeExpr, importExpr]

theorem parse_insertTokens (dir : PyStr) :
    parseTokens (insertTokens dir) = some (insertExpr dir) := by
  have h1 := import_not_keyword
  have h2 : py "path" ∉ keywords := by simp [keywords, py, chr_injective.eq_iff]
  have h3 : py "insert" ∉ keywords := by simp [keywords, py, chr_injective.eq_iff]
  simp [parseTokens, insertTokens, expr, trailers, arguments, moreArguments, h1, h2, h3,
    insertExpr, importExpr]

/-- A text of printable ASCII in the code around the values. -/
theorem hasUtf8_py {s : String} (h : ∀ c ∈ s.toList, Printer.IsSyntax c) : HasUtf8 (py s) := by
  intro d hd hs
  have h1 := (Bridge.isAscii_map h d hd).2
  have h2 := hs.1
  omega

theorem js_py {s : String} (h : ∀ c ∈ s.toList, Printer.IsSyntax c) : js s = utf16 (py s) :=
  (utf16_map_chr fun c hc => Nat.lt_trans (h c hc).2 (by decide)).symm

theorem operation_ascii (o : Operation) : ∀ c ∈ o.name.toList, Printer.IsSyntax c := by
  cases o <;> simp [Operation.name, Printer.IsSyntax]

theorem hasUtf8_callSource (o : Operation) (t : JsStr) : HasUtf8 (callSource o t) :=
  hasUtf8_append (hasUtf8_py (by simp [Printer.IsSyntax])) (hasUtf8_append
    (hasUtf8_py (operation_ascii o)) (hasUtf8_append (hasUtf8_py (by simp [Printer.IsSyntax]))
      (hasUtf8_append (hasUtf8_value _) (hasUtf8_py (by simp [Printer.IsSyntax])))))

theorem decode16_call (o : Operation) (args : List Arg) :
    decode16 (call o args) = callSource o (stringify (.arr args)) := by
  have h : call o args = utf16 (callSource o (stringify (.arr args))) := by
    rw [call, js_py (operation_ascii o), js_py (s := "__import__('pi_ipython_state').")
      (by simp [Printer.IsSyntax]), js_py (s := "(*__import__('json').loads(")
      (by simp [Printer.IsSyntax]), js_py (s := "))") (by simp [Printer.IsSyntax]), stringify]
    simp only [callSource, utf16_append, List.append_assoc]
  rw [h, decode16_utf16 (hasUtf8_callSource o _)]

theorem hasUtf8_pathSource {s : String} (hs : ∀ c ∈ s.toList, Printer.IsSyntax c) (path : JsStr) :
    HasUtf8 (pathSource s path) :=
  hasUtf8_append (hasUtf8_py hs)
    (hasUtf8_append (hasUtf8_value _) (hasUtf8_py (by simp [Printer.IsSyntax])))

theorem decode16_path {s : String} (hs : ∀ c ∈ s.toList, Printer.IsSyntax c) (path : JsStr) :
    decode16 (js s ++ stringify (.str path) ++ js ")") = pathSource s path := by
  rw [← decode16_utf16 (hasUtf8_pathSource hs path), js_py hs,
    js_py (s := ")") (by simp [Printer.IsSyntax]), stringify]
  simp only [pathSource, utf16_append, List.append_assoc]

/-- **Values in Python code are data.** Whatever the arguments, Python reads the expression as the
one call, also within the one that the bridge makes of it, and `json.loads` reads its literal as
the arguments; the literal of a path is the path. -/
theorem arguments_are_data (o : Operation) (args : List Arg) (base modules : JsStr) :
    (∃ text, parse (decode16 (call o args)) = some (callExpr o text) ∧
      parse (userExpression (decode16 (call o args))) = some (dumpsExpr (callExpr o text)) ∧
      loads text = some (.arr (args.map (map decode16 fun n => nomatch n)))) ∧
    parse (decode16 (initializeCode base)) = some (initializeExpr (decode16 base)) ∧
    parse (decode16 (insertCode modules)) = some (insertExpr (decode16 modules)) := by
  have hv : decode16 (stringify (.arr args)) = printer.value (.arr args) :=
    decode16_utf16 (hasUtf8_value _)
  have hl := lexes_callSource o (stringify (.arr args)) .nil
  rw [List.append_nil, List.append_nil] at hl
  have hu := hasUtf8_callSource o (stringify (.arr args))
  have h1 : ∀ c ∈ "__import__('pi_ipython_state').initialize(get_ipython(), ".toList,
      Printer.IsSyntax c := by simp [Printer.IsSyntax]
  have h2 : ∀ c ∈ "__import__('sys').path.insert(0, ".toList, Printer.IsSyntax c := by
    simp [Printer.IsSyntax]
  refine ⟨⟨printer.value (.arr args), ?_, ?_, ?_⟩, ?_, ?_⟩
  · rw [decode16_call, hl.parse hu, (parse_callTokens _ _).1, hv]
  · rw [decode16_call, (lexes_userExpression o _).parse, (parse_callTokens _ _).2, hv]
    exact hasUtf8_append (hasUtf8_append (hasUtf8_py (by simp [Printer.IsSyntax])) hu)
      (hasUtf8_py (by simp [Printer.IsSyntax]))
  · rw [loads_stringify, map, mapElems_eq]
  · rw [initializeCode, decode16_path h1, (lexes_initializeCode base).parse (hasUtf8_pathSource h1 base),
      parse_initializeTokens]
  · rw [insertCode, decode16_path h2, (lexes_insertCode modules).parse (hasUtf8_pathSource h2 modules),
      parse_insertTokens]

end PiIpython.Embed
