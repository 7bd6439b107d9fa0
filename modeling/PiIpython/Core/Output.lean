import PiIpython.Lib.JsString

/-!
# Text of cell output

`output.ts`: removing ANSI codes, the tail of a long output, and the running
and final texts of a cell. `save` writes the full text to a file and answers
its path; it can throw.
-/

namespace PiIpython.Output

open Text

def outputMaxLines : Nat := 2000

def outputMaxBytes : Nat := 50 * 1024

def esc : CodeUnit := 0x1b

def bel : CodeUnit := 0x07

def inRange (code : Option CodeUnit) (low high : Nat) : Bool :=
  match code with
  | none => false
  | some u => low ≤ u.toNat && u.toNat ≤ high

/-- The first index from `i` on whose code unit is out of the range. -/
def skipRange (value : JsStr) (low high i : Nat) : Nat :=
  i + ((value.drop i).takeWhile fun u => inRange (some u) low high).length

/-- An ESC sequence with parameter, intermediate and final bytes. -/
def controlEnd (value : JsStr) (start : Nat) : Option Nat :=
  if inRange value[start + 1]? 0x40 0x5f then
    let e := skipRange value 0x20 0x2f (skipRange value 0x30 0x3f (start + 2))
    if inRange value[e]? 0x40 0x7e then some (e + 1) else none
  else none

/-- The index after the sequence that starts with the ESC at `start`. -/
def escapeSequenceEnd (value : JsStr) (start : Nat) : Option Nat :=
  if value[start + 1]? = some (unit ']') then
    -- an OSC ends at the first BEL; without one, it ends at the last ESC \
    match indexOf value bel (start + 2) with
    | some bell => some (bell + 1)
    | none =>
      match lastIndexOf value [esc, unit '\\'] with
      | some terminator =>
        if start + 2 ≤ terminator then some (terminator + 2) else controlEnd value start
      | none => controlEnd value start
  else controlEnd value start

/-- The loop of `stripAnsi`: `index` is that of the next ESC, `kept` the start of the text not
copied yet. -/
def stripLoop (value : JsStr) : Nat → Option Nat → Nat → JsStr
  | 0, _, kept => value.drop kept
  | _ + 1, none, kept => value.drop kept
  | n + 1, some index, kept =>
    match escapeSequenceEnd value index with
    | none => stripLoop value n (indexOf value esc (index + 1)) kept
    | some e => slice value kept index ++ stripLoop value n (indexOf value esc e) e

/-- Every round moves `index` forward, so the length of the text bounds their number. -/
def stripAnsi (value : JsStr) : JsStr :=
  stripLoop value (value.length + 1) (indexOf value esc 0) 0

/-- One digit after the point, a half rounded up. -/
def toFixed1 (n d : Nat) : JsStr :=
  let t := (20 * n + d) / (2 * d)
  decimal (t / 10) ++ js "." ++ decimal (t % 10)

def formatSize (bytes : Nat) : JsStr :=
  if bytes < 1024 then decimal bytes ++ js "B"
  else if bytes < 1024 * 1024 then toFixed1 bytes 1024 ++ js "KB"
  else toFixed1 bytes (1024 * 1024) ++ js "MB"

structure Tail where
  content : JsStr
  truncated : Bool
  totalLines : Nat
  totalBytes : Nat
  outputLines : Nat
  outputBytes : Nat
  deriving DecidableEq

/-- The end of `line` within `maxBytes`, starting on a UTF-8 character boundary. -/
def endOfLine (line : JsStr) (maxBytes : Nat) : JsStr :=
  let bytes := utf8 line
  utf16 (decode8 ((bytes.drop (bytes.length - maxBytes)).dropWhile isContinuation))

/-- The loop over the lines from the last one back; `kept` are the lines taken so far. -/
def keepLoop : List JsStr → List JsStr → Nat → List JsStr
  | [], kept, _ => kept
  | line :: lines, kept, keptBytes =>
    if outputMaxLines ≤ kept.length then kept
    else
      let lineBytes := byteLength line + if kept.length > 0 then 1 else 0
      if keptBytes + lineBytes > outputMaxBytes then
        if kept.length = 0 then [endOfLine line outputMaxBytes] else kept
      else keepLoop lines (line :: kept) (keptBytes + lineBytes)

/-- The lines of the text, a final newline not counted. -/
def lines (content : JsStr) : List JsStr :=
  let ls := if content.length = 0 then [] else split (unit '\n') content
  if endsWith content (js "\n") then ls.dropLast else ls

def truncateTail (content : JsStr) : Tail :=
  let totalBytes := byteLength content
  let ls := lines content
  if ls.length ≤ outputMaxLines ∧ totalBytes ≤ outputMaxBytes then
    ⟨content, false, ls.length, totalBytes, ls.length, totalBytes⟩
  else
    let kept := keepLoop ls.reverse [] 0
    let tail := join (js "\n") kept
    ⟨tail, true, ls.length, totalBytes, kept.length, byteLength tail⟩

/-- Running output for progress updates. -/
def partialText (output : JsStr) : JsStr :=
  let tail := truncateTail (stripAnsi output)
  if ¬ tail.truncated then if tail.content = [] then js "[no output yet]" else tail.content
  else js "[Live output truncated; showing the tail]\n" ++ tail.content

structure FinalOutput where
  output : JsStr
  truncated : Bool
  header : Option JsStr
  fullOutputPath : Option JsStr
  deriving DecidableEq

/-- The line that says what a truncated output leaves out. -/
def truncationHeader (tail : Tail) (fullOutputPath : JsStr) : JsStr :=
  join (js " ") [
    js "[Output truncated: showing the last " ++ decimal tail.outputLines ++ js " of " ++
      decimal tail.totalLines ++ js " lines",
    js "(" ++ formatSize tail.outputBytes ++ js " of " ++ formatSize tail.totalBytes ++ js ").",
    decimal (tail.totalLines - tail.outputLines) ++ js " lines (" ++
      formatSize (tail.totalBytes - tail.outputBytes) ++ js ") omitted.",
    js "Full output saved to: " ++ fullOutputPath ++ js "]"]

/-- Final output of a cell. `save` is called for a truncated one only, on the text without codes. -/
def finalOutput (output : JsStr) (save : JsStr → Except JsStr JsStr) : Except JsStr FinalOutput :=
  let clean := stripAnsi output
  let tail := truncateTail clean
  if ¬ tail.truncated then .ok ⟨tail.content, false, none, none⟩
  else
    match save clean with
    | .error e => .error e
    | .ok path => .ok ⟨tail.content, true, some (truncationHeader tail path), some path⟩

/-- **Only a truncated output is saved, and only a failing save fails.** -/
theorem finalOutput_error_iff {output : JsStr} {save : JsStr → Except JsStr JsStr} {e : JsStr} :
    finalOutput output save = .error e ↔
      (truncateTail (stripAnsi output)).truncated = true ∧ save (stripAnsi output) = .error e := by
  simp only [finalOutput]
  by_cases ht : (truncateTail (stripAnsi output)).truncated = true
  · rw [if_neg (not_not_intro ht)]
    cases hs : save (stripAnsi output) with
    | error f => simp [ht]
    | ok path => simp
  · rw [if_pos ht]; simp [ht]

end PiIpython.Output
