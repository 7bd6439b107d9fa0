import PiIpython.Lib.Lines

/-!
# Tokens of the POSIX shell

The token recognition of the shell command language, one code unit at a time:
quotes, backslashes, blanks, operators and comments. Each unit of a word keeps a
mark: `quoted` units are literal, `bare` ones are subject to aliases, reserved
words, tildes and patterns, and `expansion` marks a dollar sign or a backquote
that is not quoted (what it spans is not modelled). An operator of two
characters is two tokens here. A text with NUL cannot be given to a shell, and
one that ends within quotes is no complete command: both have no tokens.
-/

namespace PiIpython.Shell

open Text

def apostrophe : CodeUnit := 0x27

def doubleQuote : CodeUnit := 0x22

def backslash : CodeUnit := 0x5c

def newline : CodeUnit := 0x0a

inductive Mark where
  | quoted
  | bare
  | expansion
  deriving DecidableEq

inductive Token where
  | word (units : List (Mark × CodeUnit))
  | operator (c : CodeUnit)
  deriving DecidableEq

/-- A word with no unit that the shell interprets. -/
def literal (s : JsStr) : Token := .word (s.map fun c => (.quoted, c))

/-- A word with no quotes. -/
def plain (s : JsStr) : Token := .word (s.map fun c => (.bare, c))

def isBlank (c : CodeUnit) : Bool := c = unit ' ' || c = 0x09

def isOperator (c : CodeUnit) : Bool := c = newline || (js ";&|<>()").contains c

def isExpansion (c : CodeUnit) : Bool := c = unit '$' || c = 0x60

inductive Mode where
  | plain
  | escape
  | single
  | double
  | doubleEscape
  | comment
  deriving DecidableEq

/-- The word being read, if one has begun, and the tokens before it. -/
structure Lexer where
  mode : Mode
  word : Option (List (Mark × CodeUnit))
  tokens : List Token
  deriving DecidableEq

namespace Lexer

def start : Lexer := ⟨.plain, none, []⟩

/-- The next unit of the word, which it begins if there is none. -/
def push (q : Lexer) (m : Mark) (c : CodeUnit) : Lexer :=
  { q with word := some (q.word.getD [] ++ [(m, c)]) }

/-- The word ends, if there is one. -/
def flush (q : Lexer) : Lexer :=
  match q.word with
  | none => q
  | some w => { q with word := none, tokens := q.tokens ++ [.word w] }

def operator (q : Lexer) (c : CodeUnit) : Lexer :=
  { q.flush with tokens := q.flush.tokens ++ [.operator c] }

/-- A quote: it begins a word even when nothing stands in it. -/
def quote (q : Lexer) (m : Mode) : Lexer := { q with mode := m, word := some (q.word.getD []) }

def step (q : Lexer) (c : CodeUnit) : Option Lexer :=
  if c = 0 then none
  else
    match q.mode with
    | .plain =>
      if c = apostrophe then some (q.quote .single)
      else if c = doubleQuote then some (q.quote .double)
      else if c = backslash then some { q with mode := .escape }
      else if isBlank c then some q.flush
      else if isOperator c then some (q.operator c)
      else if c = unit '#' ∧ q.word = none then some { q with mode := .comment }
      else if isExpansion c then some (q.push .expansion c)
      else some (q.push .bare c)
    | .escape =>
      -- a backslash before a newline joins the lines
      if c = newline then some { q with mode := .plain }
      else some { q.push .quoted c with mode := .plain }
    | .single =>
      if c = apostrophe then some { q with mode := .plain } else some (q.push .quoted c)
    | .double =>
      if c = doubleQuote then some { q with mode := .plain }
      else if c = backslash then some { q with mode := .doubleEscape }
      else if isExpansion c then some (q.push .expansion c)
      else some (q.push .quoted c)
    | .doubleEscape =>
      if c = newline then some { q with mode := .double }
      else if c = doubleQuote ∨ c = backslash ∨ isExpansion c then
        some { q.push .quoted c with mode := .double }
      else some { (q.push .quoted backslash).push .quoted c with mode := .double }
    | .comment =>
      if c = newline then some { q.operator c with mode := .plain } else some q

def run (q : Lexer) (s : JsStr) : Option Lexer := s.foldlM step q

def finish (q : Lexer) : Option (List Token) :=
  if q.mode = .plain ∨ q.mode = .comment then some q.flush.tokens else none

theorem run_append (q : Lexer) (s t : JsStr) : q.run (s ++ t) = (q.run s).bind (run · t) :=
  List.foldlM_append

theorem run_cons (q : Lexer) (c : CodeUnit) (s : JsStr) : q.run (c :: s) = (q.step c).bind (run · s) :=
  List.foldlM_cons

theorem run_nil (q : Lexer) : q.run [] = some q := rfl

/-- Within single quotes all but the quote is literal. -/
theorem run_single {s : JsStr} (h0 : (0 : CodeUnit) ∉ s) (h : apostrophe ∉ s)
    (w : List (Mark × CodeUnit)) (ts : List Token) :
    run ⟨.single, some w, ts⟩ s = some ⟨.single, some (w ++ s.map fun c => (.quoted, c)), ts⟩ := by
  induction s generalizing w with
  | nil => rw [run_nil, List.map_nil, List.append_nil]
  | cons c s ih =>
    rw [List.mem_cons, not_or] at h0 h
    rw [run_cons, step, if_neg (Ne.symm h0.1)]
    dsimp only
    rw [if_neg (Ne.symm h.1), Option.bind_some, push, Option.getD_some, ih h0.2 h.2,
      List.append_assoc]
    rfl

end Lexer

/-- The tokens of a command line. -/
def tokens (s : JsStr) : Option (List Token) := (Lexer.start.run s).bind Lexer.finish

end PiIpython.Shell
