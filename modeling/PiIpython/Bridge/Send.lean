import PiIpython.Lib.Json

/-!
# What the bridge sends

The messages of `bridge.py`, as the dictionaries its `send` calls pass, and
`send`: Python's `json.dumps` without ASCII escaping, a newline, and a write to
a UTF-8 stdout, which raises when a string has a surrogate.
-/

namespace PiIpython.Bridge

open Text

/-- A Python number that JSON knows. -/
inductive PyNum where
  | int (z : Int)
  | float (x : Binary64)
  deriving DecidableEq

/-- A value of Python's `json` module. -/
abbrev PyValue := Json PyStr PyNum

/-! ## `json.dumps` -/

def hexDigit (n : Nat) : Char := Char.ofNat (if n < 10 then 48 + n else 87 + n)

/-- `\u` and four hexadecimal digits. -/
def unicodeEscape (n : Nat) : PyStr :=
  py "\\u" ++ [chr (hexDigit (n / 4096 % 16)), chr (hexDigit (n / 256 % 16)),
    chr (hexDigit (n / 16 % 16)), chr (hexDigit (n % 16))]

/-- The escape of a character; with `ensure_ascii=False` only of quote, backslash and controls. -/
def escapeChar (c : CodePoint) : PyStr :=
  if c = chr '"' then py "\\\""
  else if c = chr '\\' then py "\\\\"
  else if c = chr '\n' then py "\\n"
  else if c = chr '\r' then py "\\r"
  else if c = chr '\t' then py "\\t"
  else if c.val = 8 then py "\\b"
  else if c.val = 12 then py "\\f"
  else if c.val < 0x20 then unicodeEscape c.val
  else [c]

/-- The text of a number. `repr` is `float.__repr__`, which writes finite floats only. -/
def numText (repr : Binary64 → PyStr) : PyNum → PyStr
  | .int z => Json.renderLit chr (intLit z)
  | .float .nan => py "NaN"
  | .float (.inf false) => py "Infinity"
  | .float (.inf true) => py "-Infinity"
  | .float x => repr x

/-- How `json.dumps(.., ensure_ascii=False, separators=(",", ":"))` spells. -/
def printer (repr : Binary64 → PyStr) : Json.Printer CodePoint PyStr PyNum :=
  ⟨chr, (·.flatMap escapeChar), numText repr⟩

def dumps (repr : Binary64 → PyStr) (v : PyValue) : PyStr := (printer repr).value v

/-! ## Messages -/

def protocolVersion : Int := 3

/-- The `send` calls. -/
inductive Message where
  | kernelStarted (kernelPgid : Int)
  | ready (kernelPgid : Int) (connectionFile : PyStr)
  | output (requestId kind text : PyStr) (continuation final : Bool)
  | clear (requestId : PyStr)
  | image (requestId data : PyStr)
  /-- The result of `execute`. -/
  | executed (requestId status : PyStr) (executionCount : Option Int)
      (error : Option (PyStr × PyStr))
  /-- The result of `evaluate`, with what `json.loads` returned. -/
  | evaluated (requestId : PyStr) (value : PyValue)
  | evaluateFailed (requestId ename evalue : PyStr)
  /-- The request id is whatever the request had in its place. -/
  | bridgeError (requestId : PyValue) (error traceback : PyStr)
  | fatal (error traceback : PyStr)

def entry (k : String) (v : PyValue) : PyStr × PyValue := (py k, v)

def errorDict (ename evalue : PyStr) : PyValue :=
  .obj [entry "ename" (.str ename), entry "evalue" (.str evalue)]

namespace Message

/-- The dictionary passed to `send`. -/
def fields : Message → List (PyStr × PyValue)
  | kernelStarted pgid =>
    [entry "type" (.str (py "kernel_started")), entry "kernel_pgid" (.num (.int pgid))]
  | ready pgid file =>
    [entry "type" (.str (py "ready")), entry "protocol" (.num (.int protocolVersion)),
      entry "kernel_pgid" (.num (.int pgid)), entry "connection_file" (.str file)]
  | output id kind text continuation final =>
    [entry "type" (.str (py "output")), entry "request_id" (.str id), entry "kind" (.str kind),
      entry "text" (.str text), entry "continuation" (.bool continuation),
      entry "final" (.bool final)]
  | clear id => [entry "type" (.str (py "clear")), entry "request_id" (.str id)]
  | image id data =>
    [entry "type" (.str (py "image")), entry "request_id" (.str id), entry "data" (.str data)]
  | executed id status count error =>
    [entry "type" (.str (py "result")), entry "request_id" (.str id), entry "status" (.str status),
      entry "execution_count" (count.elim .null fun n => .num (.int n)),
      entry "error" (error.elim .null fun e => errorDict e.1 e.2)]
  | evaluated id value =>
    [entry "type" (.str (py "result")), entry "request_id" (.str id),
      entry "status" (.str (py "ok")), entry "value" value]
  | evaluateFailed id ename evalue =>
    [entry "type" (.str (py "result")), entry "request_id" (.str id),
      entry "status" (.str (py "error")), entry "error" (errorDict ename evalue)]
  | bridgeError id error traceback =>
    [entry "type" (.str (py "bridge_error")), entry "request_id" id, entry "error" (.str error),
      entry "traceback" (.str traceback)]
  | fatal error traceback =>
    [entry "type" (.str (py "fatal")), entry "error" (.str error),
      entry "traceback" (.str traceback)]

def dict (m : Message) : PyValue := .obj m.fields

/-- The request that the message ends, when it ends one. -/
def endsRequest : Message → Option PyStr
  | executed id _ _ _ => some id
  | evaluated id _ => some id
  | evaluateFailed id _ _ => some id
  | bridgeError (.str id) _ _ => some id
  | _ => none

end Message

/-! ## The write to stdout -/

/-- What one `send` writes; an unencodable text raises and writes nothing. -/
def send (repr : Binary64 → PyStr) (m : Message) : PyStr :=
  let encoded := dumps repr m.dict ++ py "\n"
  if HasUtf8 encoded then encoded else []

/-- The stdout of the bridge, decoded by the runtime. -/
def stdout (repr : Binary64 → PyStr) (ms : List Message) : JsStr :=
  utf16 (ms.flatMap (send repr))

end PiIpython.Bridge
