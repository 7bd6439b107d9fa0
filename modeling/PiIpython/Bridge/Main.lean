import PiIpython.Bridge.Pipeline
import PiIpython.Core.Embed

/-!
# The requests of the bridge

`main` of `bridge.py` from the launch of the kernel on: the startup request,
then one request a line. `Launch` and `Met` are what it meets outside: the
rounds of the kernel's channels, and the texts of what Python and its libraries
raise. `reprOf` is `repr`, and `other` is `str` of a value that is not a string.
A `send` whose text cannot be encoded raises like any other call.
-/

namespace PiIpython.Bridge

open Text Json

structure Launch where
  /-- What `start_kernel` raises. -/
  startKernel : Option PyStr
  /-- `manager.provisioner.pgid`, when it is an integer. -/
  kernelPgid : Option Int
  /-- What `wait_for_ready` raises. -/
  waitForReady : Option PyStr
  /-- The first line, empty at the end of the input. -/
  line : PyStr
  /-- The ids and rounds of the startup code. -/
  rounds : List (PyStr × List Poll)
  connectionFile : PyStr
  error : PyStr
  traceback : PyStr
  cleanupErrors : Nat
  cleanupDetails : PyStr

/-- What a request meets. -/
structure Met where
  /-- `os.path.isabs(request_cwd) and os.path.isdir(request_cwd)`. -/
  directory : Bool
  /-- The id and the rounds of the change of directory. -/
  hidden : PyStr × List Poll
  /-- Those of the cell or of the evaluation. -/
  rounds : PyStr × List Poll
  /-- The `user_expressions` of the reply. -/
  expressions : Option PyValue
  error : PyStr
  traceback : PyStr

variable (repr : Binary64 → PyStr) (other reprOf : PyValue → PyStr)

/-! ## Sending -/

def encodable (m : Message) : Bool := HasUtf8 (dumps repr m.dict ++ py "\n")

/-- Messages are sent up to the first that cannot be encoded. -/
def sendAll {α : Type} (error : PyStr) (r : List Message × Outcome α) : List Message × Outcome α :=
  if r.1.all (encodable repr) then r else (r.1.takeWhile (encodable repr), .raised error)

/-! ## `evaluate` -/

/-- `value.get(k, default)`, which a value that is no dictionary does not have. -/
def pyGet (v : PyValue) (k : String) (default : PyValue) : Option PyValue :=
  match v with
  | .obj _ => some ((v.get? (py k)).getD default)
  | _ => none

/-- `value[k]`. -/
def pyItem (v : PyValue) (k : String) : Option PyValue :=
  match v with
  | .obj _ => v.get? (py k)
  | _ => none

/-- `ast.literal_eval` of a string literal. -/
def literalStr : PyValue → Option PyStr
  | .str s =>
    match PyExpr.parse s with
    | some (.str t) => some t
    | _ => none
  | _ => none

/-- `json.loads(ast.literal_eval(result["data"]["text/plain"]))`. -/
def decoded (result : PyValue) : Option PyValue :=
  (((pyItem result "data").bind (pyItem · "text/plain")).bind literalStr).bind Embed.loads

def evaluate (met : Met) (requestId : PyStr) : List Message × Outcome Unit :=
  match (waitForExecution met.rounds.1 (fun _ _ _ => ()) met.rounds.2 ()).2 with
  | .raised e => ([], .raised e)
  | .waiting => ([], .waiting)
  | .returned reply =>
    match pyGet (met.expressions.getD (.obj [])) "value" (.obj []) with
    | some (.obj fs) =>
      let status := (Json.obj fs).get? (py "status")
      if isStr (py "ok") reply.content.status && isStr (py "ok") status then
        match decoded (.obj fs) with
        | some value => ([.evaluated requestId value], .returned ())
        | none => ([], .raised met.error)
      else
        let (ename, evalue) :=
          if isStr (py "error") status then
            ((Json.obj fs).get? (py "ename"), (Json.obj fs).get? (py "evalue"))
          else (reply.content.ename, reply.content.evalue)
        ([.evaluateFailed requestId (strOr other ename "EvaluationError") (strOr other evalue "")],
          .returned ())
    -- `get` of a value that is no dictionary raises
    | _ => ([], .raised met.error)

/-! ## A request -/

/-- A request other than shutdown does not end the loop. -/
def Outcome.goesOn : Outcome Unit → Outcome Bool
  | .returned _ => .returned true
  | .raised e => .raised e
  | .waiting => .waiting

/-- What a request does, and whether the loop goes on. -/
def handle (met : Met) (message : PyValue) : List Message × Outcome Bool :=
  let type := message.get? (py "type")
  if isStr (py "execute") type then
    match message.get? (py "request_id"), message.get? (py "code"), message.get? (py "cwd") with
    | some (.str requestId), some (.str _), some (.str _) =>
      if met.directory then
        let r := execute other requestId met.hidden met.rounds
        (r.1, r.2.goesOn)
      else ([], .raised (py "execute cwd must be an accessible absolute directory"))
    | _, _, _ => ([], .raised (py "execute requires string request_id, code, and cwd"))
  else if isStr (py "evaluate") type then
    match message.get? (py "request_id"), message.get? (py "expression") with
    | some (.str requestId), some (.str _) =>
      let r := evaluate other met requestId
      (r.1, r.2.goesOn)
    | _, _ => ([], .raised (py "evaluate requires string request_id and expression"))
  else if isStr (py "shutdown") type then ([], .returned false)
  else ([], .raised (py "unknown request type: " ++ reprOf (type.getD .null)))

/-- The `request_id` of a bridge error. -/
def errorId : Option PyValue → PyValue
  | some (.obj fs) => ((Json.obj fs).get? (py "request_id")).getD .null
  | _ => .null

def answer (met : Met) : Option PyValue → List Message × Outcome Bool
  | none => ([], .raised met.error)
  | some (.obj fs) => sendAll repr met.error (handle other reprOf met (.obj fs))
  | some _ => ([], .raised (py "request must be a JSON object"))

/-- Where the loop goes after a line. -/
inductive Next where
  | goOn
  | stop
  /-- The kernel does not answer. -/
  | waits
  /-- The bridge error could not be sent. -/
  | raises
  deriving DecidableEq

def serve (line : PyStr) (met : Met) : List Message × Next :=
  let message := Embed.loads line
  match answer repr other reprOf met message with
  | (sent, .returned true) => (sent, .goOn)
  | (sent, .returned false) => (sent, .stop)
  | (sent, .waiting) => (sent, .waits)
  | (sent, .raised e) =>
    let m := .bridgeError (errorId message) e met.traceback
    if encodable repr m then (sent ++ [m], .goOn) else (sent, .raises)

/-- The loop over the lines of stdin. -/
def loop : List (PyStr × Met) → List Message × Next
  | [] => ([], .stop)
  | (line, met) :: requests =>
    match serve repr other reprOf line met with
    | (sent, .goOn) => (sent ++ (loop requests).1, (loop requests).2)
    | r => r

/-! ## The startup -/

/-- What `for code in startup.get("code", [])` iterates over. -/
def startupCodes (startup : PyValue) : Option (List PyValue) :=
  match pyGet startup "code" (.arr []) with
  | some (.arr vs) => some vs
  | some (.str s) => some (s.map fun c => .str [c])
  | some (.obj fs) => some (fs.map fun f => .str f.1)
  | _ => none

def runCodes : List PyValue → List (PyStr × List Poll) → Outcome Unit
  | [], _ => .returned ()
  | .str _ :: codes, r :: rounds =>
    match executeHidden other r.1 r.2 with
    | .returned _ => runCodes codes rounds
    | outcome => outcome
  | .str _ :: _, [] => .waiting
  | _ :: _, _ => .raised (py "startup code must be strings")

/-- The startup request. -/
def runStartup (l : Launch) : Outcome Unit :=
  match if l.line = [] then some .null else Embed.loads l.line with
  | none => .raised l.error
  | some (.obj fs) =>
    if isStr (py "startup") ((Json.obj fs).get? (py "type")) then
      match startupCodes (.obj fs) with
      | some codes => runCodes other codes l.rounds
      | none => .raised l.error
    else .raised (py "the first request must be startup")
  | some _ => .raised (py "the first request must be startup")

def start (l : Launch) : List Message × Outcome Unit :=
  match l.startKernel, l.kernelPgid with
  | some e, _ => ([], .raised e)
  | none, none => ([], .raised (py "Jupyter did not report a valid kernel process group"))
  | none, some kernelPgid =>
    if kernelPgid ≤ 1 then
      ([], .raised (py "Jupyter did not report a valid kernel process group"))
    else
      match l.waitForReady with
      | some e => ([.kernelStarted kernelPgid], .raised e)
      | none =>
        match runStartup other l with
        | .returned _ => ([.kernelStarted kernelPgid, .ready kernelPgid l.connectionFile],
            .returned ())
        | outcome => ([.kernelStarted kernelPgid], outcome)

/-! ## The end -/

def cleanup (l : Launch) : List Message :=
  if l.cleanupErrors = 0 then []
  else
    [Message.fatal (py "bridge cleanup failed (" ++ py (toString l.cleanupErrors) ++ py " error(s))")
      l.cleanupDetails].filter (encodable repr)

/-- The `except` of `main` and what comes after its `finally`. -/
def finish (l : Launch) : Option PyStr → List Message
  | some e =>
    let m := .fatal e l.traceback
    if encodable repr m then m :: cleanup repr l else []
  | none => cleanup repr l

/-- The messages of `main`. -/
def main (l : Launch) (requests : List (PyStr × Met)) : List Message :=
  match sendAll repr l.error (start other l) with
  | (sent, .waiting) => sent
  | (sent, .raised e) => sent ++ finish repr l (some e)
  | (sent, .returned _) =>
    match loop repr other reprOf requests with
    | (more, .waits) => sent ++ more
    | (more, .raises) => sent ++ more ++ finish repr l (some l.error)
    | (more, _) => sent ++ more ++ finish repr l none

end PiIpython.Bridge
