import PiIpython.Lib.JsString
import PiIpython.Lib.Json

/-!
# Lines of the bridge

`BridgeMessage` is a line that the bridge writes to its stdout, and
`isBridgeMessage` the check of the fields that `handleLine` reads, with the
message it lets through as its result. A known message type that fails the
check has a reason, any other line has none.
-/

namespace PiIpython.Runtime

open Text Json

/-- A JSON-decoded value in JavaScript. -/
abbrev JsonValue := Json JsStr Binary64

/-- `JSON.parse`: RFC 8259, every number rounded to a double. -/
def jsonParse (line : JsStr) : Option JsonValue := parse ⟨fun l => some l.toNumber, []⟩ line

structure BridgeError where
  ename : JsStr
  evalue : JsStr
  deriving DecidableEq

inductive BridgeMessage where
  | kernelStarted (kernelPgid : Binary64)
  | ready (protocol kernelPgid : Binary64) (connectionFile : JsStr)
  | fatal (error traceback : JsStr)
  | bridgeError (requestId : Option JsStr) (error traceback : JsStr)
  | clear (requestId : JsStr)
  | image (requestId data : JsStr)
  | output (requestId kind text : JsStr) (continuation final : Bool)
  | result (requestId status : JsStr) (executionCount : Option Binary64)
      (value : Option JsonValue) (error : Option BridgeError)

/-- The request that a message is about. -/
def BridgeMessage.requestId? : BridgeMessage → Option JsStr
  | .bridgeError id _ _ => id
  | .clear id => some id
  | .image id _ => some id
  | .output id _ _ _ _ => some id
  | .result id _ _ _ _ => some id
  | _ => none

/-! ## Fields -/

def asStr : Option JsonValue → Option JsStr
  | some (.str s) => some s
  | _ => none

def asNum : Option JsonValue → Option Binary64
  | some (.num n) => some n
  | _ => none

def asBool : Option JsonValue → Option Bool
  | some (.bool b) => some b
  | _ => none

/-- A field that may be null, its check kept. -/
def orNull {α : Type} (f : Option JsonValue → Option α) : Option JsonValue → Option (Option α)
  | some .null => some none
  | v => (f v).map some

/-- A field that may be absent or null. -/
def optional {α : Type} (f : Option JsonValue → Option α) : Option JsonValue → Option (Option α)
  | none => some none
  | v => orNull f v

/-- `isBridgeErrorValue`: an object whose `ename` and `evalue` are strings. -/
def asBridgeError : Option JsonValue → Option BridgeError
  | some (.obj fs) =>
    (asStr ((Json.obj fs).get? (js "ename"))).bind fun ename =>
      (asStr ((Json.obj fs).get? (js "evalue"))).map fun evalue => ⟨ename, evalue⟩
  | _ => none

/-- The message types of the protocol. -/
inductive MessageType where
  | kernelStarted
  | ready
  | fatal
  | bridgeError
  | clear
  | image
  | output
  | result
  deriving DecidableEq

def MessageType.name : MessageType → JsStr
  | .kernelStarted => js "kernel_started"
  | .ready => js "ready"
  | .fatal => js "fatal"
  | .bridgeError => js "bridge_error"
  | .clear => js "clear"
  | .image => js "image"
  | .output => js "output"
  | .result => js "result"

def MessageType.all : List MessageType :=
  [.kernelStarted, .ready, .fatal, .bridgeError, .clear, .image, .output, .result]

/-- The message type that an object names in its `type`. -/
def messageType? : JsonValue → Option MessageType
  | .obj fs =>
    (asStr ((Json.obj fs).get? (js "type"))).bind fun t => MessageType.all.find? (·.name = t)
  | _ => none

/-- Checks the fields that `handleLine` reads; semantic checks stay there. -/
def isBridgeMessage (value : JsonValue) : Option BridgeMessage :=
  let str := fun k => asStr (value.get? (js k))
  let num := fun k => asNum (value.get? (js k))
  let bool := fun k => asBool (value.get? (js k))
  match messageType? value with
  | none => none
  | some .kernelStarted => (num "kernel_pgid").map .kernelStarted
  | some .ready =>
    (num "protocol").bind fun protocol => (num "kernel_pgid").bind fun pgid =>
      (str "connection_file").map fun file => .ready protocol pgid file
  | some .fatal =>
    (str "error").bind fun error => (str "traceback").map fun trace => .fatal error trace
  | some .bridgeError =>
    (orNull asStr (value.get? (js "request_id"))).bind fun id => (str "error").bind fun error =>
      (str "traceback").map fun trace => .bridgeError id error trace
  | some .clear => (str "request_id").map .clear
  | some .image =>
    (str "request_id").bind fun id => (str "data").map fun data => .image id data
  | some .output =>
    (str "request_id").bind fun id => (str "kind").bind fun kind => (str "text").bind fun text =>
      (bool "continuation").bind fun continuation => (bool "final").map fun final =>
        .output id kind text continuation final
  | some .result =>
    (str "request_id").bind fun id => (str "status").bind fun status =>
      (optional asNum (value.get? (js "execution_count"))).bind fun count =>
        (optional asBridgeError (value.get? (js "error"))).map fun error =>
          .result id status count (value.get? (js "value")) error

/-! ## Semantic checks -/

/-- The integer of a double that `Number.isSafeInteger` accepts. -/
def safeInteger? (n : Binary64) : Option Int :=
  match n.toRat? with
  | none => none
  | some q => if q.den = 1 ∧ |q.num| ≤ 2 ^ 53 - 1 then some q.num else none

/-- A process group that the runtime may signal. -/
def processGroup? (n : Binary64) : Option Int :=
  match safeInteger? n with
  | none => none
  | some z => if z ≤ 1 then none else some z

def bridgeProtocolVersion : Nat := 3

/-- `n === BRIDGE_PROTOCOL_VERSION`. -/
def isProtocolVersion (n : Binary64) : Bool := n.toRat? = some (bridgeProtocolVersion : ℚ)

def invalidProtocol : JsStr := js "IPython bridge reported an unsupported protocol version"

def invalidGroup : JsStr := js "IPython bridge reported an invalid kernel process group"

def changedGroup : JsStr := js "IPython bridge changed kernel process groups during startup"

def invalidConnectionFile : JsStr := js "IPython bridge reported an invalid kernel connection file"

/-- Why a line with a known message type failed `isBridgeMessage`. -/
def invalidMessageReason (value : JsonValue) : Option JsStr :=
  match messageType? value with
  | none => none
  | some .kernelStarted => some invalidGroup
  | some .ready =>
    some <|
      if (asNum (value.get? (js "protocol"))).all (! isProtocolVersion ·) then invalidProtocol
      else if (asNum (value.get? (js "kernel_pgid"))).all fun n => (safeInteger? n).isNone then
        invalidGroup
      else invalidConnectionFile
  | some t => some (js "IPython bridge sent an invalid " ++ t.name ++ js " message")

end PiIpython.Runtime
