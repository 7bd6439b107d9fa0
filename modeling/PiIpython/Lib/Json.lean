import PiIpython.Lib.Text
import PiIpython.Lib.Binary64

/-!
# JSON

`Json S N` is a JSON value with strings `S` and numbers `N`. A `Printer`
spells a value without white space; a `Dialect` says what a reader makes of a
number literal and which words besides `true`, `false` and `null` it takes for
a number. `parse` reads exactly the texts of RFC 8259 (and those words). The
recursion is on fuel; every call consumes a code unit, so the length of the
text is enough.
-/

namespace PiIpython

open Text

inductive Json (S N : Type) where
  | null
  | bool (b : Bool)
  | num (n : N)
  | str (s : S)
  | arr (vs : List (Json S N))
  | obj (fs : List (S × Json S N))

namespace Json

variable {α S N : Type}

/-- The value of a key. The last one counts when a key is repeated. -/
def get? [DecidableEq S] (k : S) : Json S N → Option (Json S N)
  | .obj fs => (fs.reverse.find? (·.1 = k)).map (·.2)
  | _ => none

mutual

/-- Every string, keys included, and every number of the value meets its condition. -/
def All (p : S → Prop) (q : N → Prop) : Json S N → Prop
  | .null => True
  | .bool _ => True
  | .num n => q n
  | .str s => p s
  | .arr vs => AllElems p q vs
  | .obj fs => AllFields p q fs

def AllElems (p : S → Prop) (q : N → Prop) : List (Json S N) → Prop
  | [] => True
  | v :: vs => All p q v ∧ AllElems p q vs

def AllFields (p : S → Prop) (q : N → Prop) : List (S × Json S N) → Prop
  | [] => True
  | (k, v) :: fs => p k ∧ All p q v ∧ AllFields p q fs

end

mutual

/-- The values have one shape, and strings and numbers in the same places are related. -/
def Rel {S' N' : Type} (R : S → S' → Prop) (Q : N → N' → Prop) : Json S N → Json S' N' → Prop
  | .null, .null => True
  | .bool b, .bool c => b = c
  | .num n, .num m => Q n m
  | .str s, .str t => R s t
  | .arr vs, .arr ws => RelElems R Q vs ws
  | .obj fs, .obj gs => RelFields R Q fs gs
  | _, _ => False

def RelElems {S' N' : Type} (R : S → S' → Prop) (Q : N → N' → Prop) :
    List (Json S N) → List (Json S' N') → Prop
  | [], [] => True
  | v :: vs, w :: ws => Rel R Q v w ∧ RelElems R Q vs ws
  | _, _ => False

def RelFields {S' N' : Type} (R : S → S' → Prop) (Q : N → N' → Prop) :
    List (S × Json S N) → List (S' × Json S' N') → Prop
  | [], [] => True
  | (k, v) :: fs, (l, w) :: gs => R k l ∧ Rel R Q v w ∧ RelFields R Q fs gs
  | _, _ => False

end

/-! ## Printing -/

/-- How a writer spells characters, the inside of a string, and numbers. -/
structure Printer (α S N : Type) where
  char : Char → α
  str : S → List α
  num : N → List α

namespace Printer

variable (P : Printer α S N)

def lit (s : String) : List α := s.toList.map P.char

def quoted (s : S) : List α := P.char '"' :: (P.str s ++ [P.char '"'])

mutual

def value : Json S N → List α
  | .null => P.lit "null"
  | .bool true => P.lit "true"
  | .bool false => P.lit "false"
  | .num n => P.num n
  | .str s => P.quoted s
  | .arr [] => P.lit "[]"
  | .arr (v :: vs) => P.char '[' :: (value v ++ elems vs)
  | .obj [] => P.lit "{}"
  | .obj ((k, v) :: fs) => P.char '{' :: (P.quoted k ++ P.char ':' :: (value v ++ fields fs))

def elems : List (Json S N) → List α
  | [] => [P.char ']']
  | v :: vs => P.char ',' :: (value v ++ elems vs)

def fields : List (S × Json S N) → List α
  | [] => [P.char '}']
  | (k, v) :: fs => P.char ',' :: (P.quoted k ++ P.char ':' :: (value v ++ fields fs))

end

end Printer

/-! ## Numbers -/

def digitChar (d : Digit) : Char := Char.ofNat (48 + d.val)

/-- The literal, spelled. -/
def renderLit (char : Char → α) (l : NumLit) : List α :=
  (if l.neg then [char '-'] else []) ++ l.int.map (char ∘ digitChar) ++
    (match l.frac with
      | none => []
      | some ds => char '.' :: ds.map (char ∘ digitChar)) ++
    (match l.exp with
      | none => []
      | some x => char (if x.upper then 'E' else 'e') ::
        ((match x.sign with | .none => [] | .plus => [char '+'] | .minus => [char '-']) ++
          x.digits.map (char ∘ digitChar)))

def digit? (c : CodeUnit) : Option Digit :=
  if h : 48 ≤ c.toNat ∧ c.toNat < 58 then some ⟨c.toNat - 48, by omega⟩ else none

/-- The longest run of digits in front. -/
def takeDigits : JsStr → List Digit × JsStr
  | [] => ([], [])
  | c :: cs =>
    match digit? c with
    | some d => (d :: (takeDigits cs).1, (takeDigits cs).2)
    | none => ([], c :: cs)

/-- A `0`, or digits that do not start with one. -/
def intPart : JsStr → Option (List Digit × JsStr)
  | [] => none
  | c :: cs =>
    match digit? c with
    | some d => some (if d = 0 then ([0], cs) else (d :: (takeDigits cs).1, (takeDigits cs).2))
    | none => none

/-- At least one digit. -/
def digits1 (s : JsStr) : Option (List Digit × JsStr) :=
  if (takeDigits s).1 = [] then none else some (takeDigits s)

def fracPart : JsStr → Option (Option (List Digit) × JsStr)
  | [] => some (none, [])
  | c :: cs =>
    if c = unit '.' then (digits1 cs).map fun p => (some p.1, p.2) else some (none, c :: cs)

def expSign : JsStr → ExpSign × JsStr
  | [] => (.none, [])
  | c :: cs =>
    if c = unit '+' then (.plus, cs) else if c = unit '-' then (.minus, cs) else (.none, c :: cs)

def expPart : JsStr → Option (Option ExpLit × JsStr)
  | [] => some (none, [])
  | c :: cs =>
    if c = unit 'e' ∨ c = unit 'E' then
      (digits1 (expSign cs).2).map fun p => (some ⟨c = unit 'E', (expSign cs).1, p.1⟩, p.2)
    else some (none, c :: cs)

def minus : JsStr → Bool × JsStr
  | [] => (false, [])
  | c :: cs => if c = unit '-' then (true, cs) else (false, c :: cs)

def parseNumber (s : JsStr) : Option (NumLit × JsStr) :=
  (intPart (minus s).2).bind fun i =>
    (fracPart i.2).bind fun f =>
      (expPart f.2).map fun x => (⟨(minus s).1, i.1, f.1, x.1⟩, x.2)

/-! ## Strings -/

def hexDigit? (c : CodeUnit) : Option Nat :=
  if 48 ≤ c.toNat ∧ c.toNat < 58 then some (c.toNat - 48)
  else if 97 ≤ c.toNat ∧ c.toNat < 103 then some (c.toNat - 87)
  else if 65 ≤ c.toNat ∧ c.toNat < 71 then some (c.toNat - 55)
  else none

/-- The code unit of `\uXXXX`. -/
def hex4 (a b c d : CodeUnit) : Option CodeUnit :=
  match hexDigit? a, hexDigit? b, hexDigit? c, hexDigit? d with
  | some a, some b, some c, some d => some (UInt16.ofNat (4096 * a + 256 * b + 16 * c + d))
  | _, _, _, _ => none

/-- The code unit of a two-character escape. -/
def unescape (c : CodeUnit) : Option CodeUnit :=
  if c = unit '"' ∨ c = unit '\\' ∨ c = unit '/' then some c
  else if c = unit 'b' then some 8
  else if c = unit 'f' then some 12
  else if c = unit 'n' then some 10
  else if c = unit 'r' then some 13
  else if c = unit 't' then some 9
  else none

/-- The characters of a string up to its closing quote. -/
def parseChars : JsStr → Option (JsStr × JsStr)
  | [] => none
  | c :: cs =>
    if c = unit '"' then some ([], cs)
    else if c = unit '\\' then
      match cs with
      | [] => none
      | e :: cs =>
        if e = unit 'u' then
          match cs with
          | a :: b :: c :: d :: cs =>
            (hex4 a b c d).bind fun u => (parseChars cs).map fun p => (u :: p.1, p.2)
          | _ => none
        else (unescape e).bind fun u => (parseChars cs).map fun p => (u :: p.1, p.2)
    else if c.toNat < 32 then none
    else (parseChars cs).map fun p => (c :: p.1, p.2)

/-! ## Values -/

/-- What a reader makes of number literals, and its words for further numbers. -/
structure Dialect (N : Type) where
  number : NumLit → Option N
  constants : List (JsStr × N)

def isWs (c : CodeUnit) : Bool := c = unit ' ' || c = unit '\t' || c = unit '\n' || c = unit '\r'

def skipWs (s : JsStr) : JsStr := s.dropWhile isWs

/-- The rest of the text after the word `t`. -/
def word (t s : JsStr) : Option JsStr := if t <+: s then some (s.drop t.length) else none

/-- The rest of the text after the character `c`. -/
def expect (c : Char) : JsStr → Option JsStr
  | [] => none
  | d :: cs => if d = unit c then some cs else none

def constant : List (JsStr × N) → JsStr → Option (Json JsStr N × JsStr)
  | [], _ => none
  | (t, n) :: ts, s => ((word t s).map fun r => (.num n, r)).or (constant ts s)

/-- A value that is no string, array or object. -/
def scalar (D : Dialect N) (s : JsStr) : Option (Json JsStr N × JsStr) :=
  match word (js "true") s, word (js "false") s, word (js "null") s, parseNumber s with
  | some r, _, _, _ => some (.bool true, r)
  | _, some r, _, _ => some (.bool false, r)
  | _, _, some r, _ => some (.null, r)
  | _, _, _, some (l, r) => (D.number l).map fun n => (.num n, r)
  | _, _, _, none => constant D.constants s

mutual

def parseValue (D : Dialect N) : Nat → JsStr → Option (Json JsStr N × JsStr)
  | 0, _ => none
  | _ + 1, [] => none
  | n + 1, c :: cs =>
    if c = unit '"' then (parseChars cs).map fun p => (.str p.1, p.2)
    else if c = unit '[' then
      ((expect ']' (skipWs cs)).map fun r => (.arr [], r)).or
        ((parseElems D n (skipWs cs)).map fun p => (.arr p.1, p.2))
    else if c = unit '{' then
      ((expect '}' (skipWs cs)).map fun r => (.obj [], r)).or
        ((parseFields D n (skipWs cs)).map fun p => (.obj p.1, p.2))
    else scalar D (c :: cs)

/-- The elements of an array up to its closing bracket, at least one. -/
def parseElems (D : Dialect N) : Nat → JsStr → Option (List (Json JsStr N) × JsStr)
  | 0, _ => none
  | n + 1, s =>
    (parseValue D n s).bind fun v =>
      ((expect ']' (skipWs v.2)).map fun r => ([v.1], r)).or
        ((expect ',' (skipWs v.2)).bind fun r =>
          (parseElems D n (skipWs r)).map fun p => (v.1 :: p.1, p.2))

/-- The members of an object up to its closing brace, at least one. -/
def parseFields (D : Dialect N) : Nat → JsStr → Option (List (JsStr × Json JsStr N) × JsStr)
  | 0, _ => none
  | n + 1, s =>
    (expect '"' s).bind fun r => (parseChars r).bind fun k =>
      (expect ':' (skipWs k.2)).bind fun r => (parseValue D n (skipWs r)).bind fun v =>
        ((expect '}' (skipWs v.2)).map fun r => ([(k.1, v.1)], r)).or
          ((expect ',' (skipWs v.2)).bind fun r =>
            (parseFields D n (skipWs r)).map fun p => ((k.1, v.1) :: p.1, p.2))

end

/-- The value of a whole text. -/
def parse (D : Dialect N) (s : JsStr) : Option (Json JsStr N) :=
  (parseValue D (s.length + 1) (skipWs s)).bind fun p => if skipWs p.2 = [] then some p.1 else none

end Json

end PiIpython
