import PiIpython.Bridge.Send

/-!
# An `execute` of the bridge

`IPythonOutputStream` turns the iopub messages of a request into output events,
`emitOutput` an event into the messages that are sent, and `waitForExecution`
polls both channels of the kernel until the request is over. `other` is `str`
of a value that is not a string.
-/

namespace PiIpython.Bridge

open Text

/-- The keys of a message's content that the bridge reads. `data` is a dictionary and
`execution_count` an integer where they are there. -/
structure Content where
  executionState : Option PyValue
  wait : Option PyValue
  name : Option PyValue
  text : Option PyValue
  data : Option (List (PyStr × PyValue))
  traceback : Option PyValue
  ename : Option PyValue
  evalue : Option PyValue
  status : Option PyValue
  executionCount : Option Int

/-- A message from the kernel. -/
structure Received where
  /-- The `msg_id` of the parent header. -/
  parentMsgId : Option PyValue
  msgType : Option PyStr
  content : Content

/-! ## Python values -/

def isStr (s : PyStr) : Option PyValue → Bool
  | some (.str t) => t = s
  | _ => false

/-- `bool(value)`. -/
def truthy : PyValue → Bool
  | .null => false
  | .bool b => b
  | .num (.int z) => z ≠ 0
  | .num (.float (.finite _ m _ _)) => m ≠ 0
  | .num (.float _) => true
  | .str s => s ≠ []
  | .arr vs => ! vs.isEmpty
  | .obj fs => ! fs.isEmpty

/-- `str(value)`. -/
def strOf (other : PyValue → PyStr) : PyValue → PyStr
  | .str s => s
  | v => other v

/-- `str(value)` of a key that has a default. -/
def strOr (other : PyValue → PyStr) (v : Option PyValue) (default : String) : PyStr :=
  v.elim (py default) (strOf other)

/-- `c.isspace()`. -/
def isSpacePy (c : CodePoint) : Bool :=
  let n := c.val
  (9 ≤ n && n ≤ 13) || (0x1C ≤ n && n ≤ 0x20) || n = 0x85 || n = 0xA0 || n = 0x1680 ||
    (0x2000 ≤ n && n ≤ 0x200A) || n = 0x2028 || n = 0x2029 || n = 0x202F || n = 0x205F || n = 0x3000

def rstrip (s : PyStr) : PyStr := (s.reverse.dropWhile isSpacePy).reverse

variable (other : PyValue → PyStr)

/-- `f"{name}: {value}".rstrip()`. -/
def errorLine (c : Content) (name : String) : PyStr :=
  rstrip (strOr other c.ename name ++ py ": " ++ strOr other c.evalue "")

def parentId (m : Received) : Option PyStr :=
  match m.parentMsgId with
  | some (.str id) => some id
  | _ => none

/-- One MIME value of a display message. Jupyter can split a value into a list of lines. -/
def mime (data : List (PyStr × PyValue)) (key : PyStr) : Option PyStr :=
  match (Json.obj data).get? key with
  | some (.arr parts) => some (parts.flatMap (strOf other))
  | some (.str s) => some s
  | _ => none

/-! ## `IPythonOutputStream` -/

/-- What the stream passes to its callback. -/
inductive OutputEvent where
  | clear
  | image (data : PyStr)
  | text (kind text : PyStr)

def isDisplay (msgType : Option PyStr) : Bool :=
  msgType = some (py "execute_result") || msgType = some (py "display_data") ||
    msgType = some (py "update_display_data")

def errorText (c : Content) : PyStr :=
  match c.traceback with
  | some (.arr lines) => (py "\n").intercalate (lines.map (strOf other))
  | _ => errorLine other c "Error"

/-- The event of a message other than `clear_output`. -/
def outputEvent (msgType : Option PyStr) (c : Content) : Option OutputEvent :=
  if msgType = some (py "stream") then
    some (.text (strOr other c.name "stdout") (strOr other c.text ""))
  else if isDisplay msgType then
    let data := c.data.getD []
    match mime other data (py "image/png"), mime other data (py "text/plain") with
    | some png, _ => some (.image png)
    | none, some value =>
      some (.text (py (if msgType = some (py "execute_result") then "result" else "display")) value)
    | none, none => none
  else if msgType = some (py "error") then some (.text (py "error") (errorText other c))
  else none

/-- The callback is called for an image and for a text that is not empty. -/
def OutputEvent.isCalled : OutputEvent → Bool
  | .text _ t => t ≠ []
  | _ => true

/-- `feed`: whether a clear is pending after the message, and the events of the callback. -/
def feed (pendingClear : Bool) (msgType : Option PyStr) (c : Content) : Bool × List OutputEvent :=
  if msgType = some (py "clear_output") then
    if (c.wait).any truthy then (true, []) else (false, [.clear])
  else
    match outputEvent other msgType c with
    | none => (pendingClear, [])
    | some e =>
      (false, (if pendingClear then [.clear] else []) ++ if e.isCalled then [e] else [])

/-! ## The messages of an event -/

def outputMessageChars : Nat := 16384

/-- The output message of the chunk of a text with the number. -/
def chunk (requestId kind text : PyStr) (i : Nat) : Message :=
  let start := i * outputMessageChars
  let stop := min (start + outputMessageChars) text.length
  .output requestId kind ((text.take stop).drop start) (0 < start) (stop = text.length)

/-- The number of chunks of a text. -/
def chunks (text : PyStr) : Nat := (text.length + (outputMessageChars - 1)) / outputMessageChars

def emitOutput (requestId : PyStr) : OutputEvent → List Message
  | .clear => [.clear requestId]
  | .image data => [.image requestId data]
  | .text kind text => (List.range (chunks text)).map (chunk requestId kind text)

/-- The stream of a request and the messages sent for it. -/
structure OutputStream where
  pendingClear : Bool
  sent : List Message

def OutputStream.feed (requestId : PyStr) (st : OutputStream) (msgType : Option PyStr)
    (c : Content) : OutputStream :=
  let (pendingClear, events) := Bridge.feed other st.pendingClear msgType c
  ⟨pendingClear, st.sent ++ events.flatMap (emitOutput requestId)⟩

/-! ## Waiting for the kernel -/

/-- How a loop over the channels ends, if it does. -/
inductive Outcome (α : Type) where
  | returned (a : α)
  | raised (error : PyStr)
  | waiting

/-- One round of the loop: what each channel has, and whether the kernel is alive. -/
structure Poll where
  iopub : Option Received
  shell : Option Received
  alive : Bool

structure Waiting (σ : Type) where
  captured : σ
  shellReply : Option Received
  idle : Bool

def isIdle (m : Received) : Bool :=
  m.msgType = some (py "status") && isStr (py "idle") m.content.executionState

variable {σ : Type} (msgId : PyStr) (capture : σ → Option PyStr → Content → σ)

def Waiting.onIopub (w : Waiting σ) (m : Received) : Waiting σ :=
  if parentId m = some msgId then
    if isIdle m then { w with idle := true }
    else { w with captured := capture w.captured m.msgType m.content }
  else w

def isReply (m : Received) : Bool :=
  parentId m = some msgId && m.msgType = some (py "execute_reply")

def Waiting.onShell (w : Waiting σ) (m : Received) : Waiting σ :=
  if isReply msgId m then { w with shellReply := some m } else w

def Waiting.poll (w : Waiting σ) (p : Poll) : Waiting σ :=
  let w := p.iopub.elim w (w.onIopub msgId capture)
  p.shell.elim w (w.onShell msgId)

/-- The loop over the rounds. -/
def waitLoop : List Poll → Waiting σ → σ × Outcome Received
  | polls, w =>
    match w.shellReply, w.idle with
    | some reply, true => (w.captured, .returned reply)
    | _, _ =>
      match polls with
      | [] => (w.captured, .waiting)
      | p :: polls =>
        let w := w.poll msgId capture p
        if p.iopub.isNone && p.shell.isNone && ! p.alive then
          (w.captured, .raised (py "IPython kernel exited during execution"))
        else waitLoop polls w

def waitForExecution (polls : List Poll) (captured : σ) : σ × Outcome Received :=
  waitLoop msgId capture polls ⟨captured, none, false⟩

/-! ## Requests -/

def executeHidden (polls : List Poll) : Outcome Unit :=
  match (waitForExecution msgId (fun _ _ _ => ()) polls ()).2 with
  | .returned reply =>
    if isStr (py "ok") reply.content.status then .returned ()
    else .raised (errorLine other reply.content "StartupError")
  | .raised e => .raised e
  | .waiting => .waiting

/-- The result message of a reply. -/
def executed (requestId : PyStr) (reply : Received) : Message :=
  let c := reply.content
  let status := strOr other c.status "error"
  .executed requestId status c.executionCount
    (if status = py "ok" then none
    else some (strOr other c.ename "ExecutionError", strOr other c.evalue ""))

/-- An `execute` request: the messages sent, and how it ends. `hidden` are the id and the rounds of
the change of directory, `cell` those of the cell. -/
def execute (requestId : PyStr) (hidden cell : PyStr × List Poll) : List Message × Outcome Unit :=
  match executeHidden other hidden.1 hidden.2 with
  | .returned _ =>
    match waitForExecution cell.1 (OutputStream.feed other requestId) cell.2 ⟨false, []⟩ with
    | (st, .returned reply) => (st.sent ++ [executed other requestId reply], .returned ())
    | (st, .raised e) => (st.sent, .raised e)
    | (st, .waiting) => (st.sent, .waiting)
  | .raised e => ([], .raised e)
  | .waiting => ([], .waiting)

end PiIpython.Bridge
