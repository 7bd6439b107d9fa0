import PiIpython.Lib.Tasks
import PiIpython.Core.Message
import PiIpython.Console.Quote

/-!
# The pane of the console

`CellsView` of `cells.ts` opens the console in a Herdr pane: it starts in a tab
of its own and is moved beside the calling pane when it is ready. `togglePane`,
`closePane` and `shutdown` are programs over the commands of Herdr; a `State` is
the view, what Herdr has open, and the tasks in flight.
-/

namespace PiIpython.Console

open Text Json Prog
open Runtime (JsonValue jsonParse asStr)

/-! ## Commands -/

/-- The pane that calls. -/
structure Target where
  paneId : JsStr
  tabId : JsStr
  workspaceId : JsStr

inductive Command where
  | paneGet (pane : JsStr)
  | paneClose (pane : JsStr)
  | paneCurrent
  | tabCreate (workspace cwd : JsStr)
  | paneRename (pane : JsStr)
  | paneRun (pane line : JsStr)
  | paneWaitOutput (pane : JsStr)
  | paneMove (pane : JsStr) (target : Target)
  | tabClose (tab : JsStr)

namespace Command

def args : Command → List JsStr
  | paneGet pane => [js "pane", js "get", pane]
  | paneClose pane => [js "pane", js "close", pane]
  | paneCurrent => [js "pane", js "current", js "--current"]
  | tabCreate workspace cwd =>
    [js "tab", js "create", js "--workspace", workspace, js "--cwd", cwd, js "--label",
      js "Starting IPython viewer", js "--no-focus"]
  | paneRename pane => [js "pane", js "rename", pane, js "IPython console"]
  | paneRun pane line => [js "pane", js "run", pane, line]
  | paneWaitOutput pane =>
    [js "pane", js "wait-output", pane, js "--source", js "visible", js "--regex",
      js "In \\[\\d*\\]:", js "--timeout", js "120000"]
  | paneMove pane target =>
    [js "pane", js "move", pane, js "--tab", target.tabId, js "--split", js "right",
      js "--target-pane", target.paneId, js "--no-focus"]
  | tabClose tab => [js "tab", js "close", tab]

/-- `args[0]` -/
def group (c : Command) : JsStr := c.args.headD []

/-- `args[1]` -/
def action (c : Command) : JsStr := c.args.tail.headD []

end Command

/-- What `pi.exec` resolves to. -/
structure Finished where
  code : Int
  stdout : JsStr
  stderr : JsStr

/-- What an asynchronous function rejects with. -/
inductive Problem where
  | error (message : JsStr)
  /-- What is thrown elsewhere: by `JSON.parse`, a file or `pi.exec`. -/
  | thrown

/-! ## Results -/

/-- `value?.[key]` of a JSON value. -/
def field (value : Option JsonValue) (key : String) : Option JsonValue :=
  value.bind (·.get? (js key))

/-- `HerdrId`: a string that is not empty. -/
def herdrId (value : Option JsonValue) : Option JsStr := (asStr value).filter (· ≠ [])

/-- `CurrentPane` -/
def currentPane (value : Option JsonValue) : Option Target :=
  let pane := field value "pane"
  match herdrId (field pane "pane_id"), herdrId (field pane "tab_id"),
      herdrId (field pane "workspace_id") with
  | some p, some t, some w => some ⟨p, t, w⟩
  | _, _, _ => none

/-- `CreatedTab` -/
def createdTab (value : Option JsonValue) : Option JsStr :=
  herdrId (field (field value "tab") "tab_id")

/-- `CreatedTabPane` -/
def createdTabPane (value : Option JsonValue) : Option JsStr :=
  herdrId (field (field value "root_pane") "pane_id")

/-- `MovedPane` -/
def movedPane (value : Option JsonValue) : Option JsStr :=
  herdrId (field (field (field value "move_result") "pane") "pane_id")

/-- The value is true where a condition is wanted. -/
def truthy : Option JsonValue → Bool
  | none | some .null => false
  | some (.bool b) => b
  | some (.num n) => n ≠ .nan && n.toRat? ≠ some 0
  | some (.str s) => s ≠ []
  | some (.arr _) | some (.obj _) => true

/-- The error of the command says that its pane or tab is not there. -/
def missing (c : Command) (stderr : JsStr) : Bool :=
  asStr (field (field (jsonParse stderr) "error") "code") = some (c.group ++ js "_not_found")

/-- What `herdr` makes of the end of a command. -/
def outcome (c : Command) (result : Finished) : Except Problem (Option JsonValue) :=
  if result.code ≠ 0 then
    if missing c result.stderr && (c.action = js "get" || c.action = js "close") then .ok none
    else .error (.error (if result.stderr = [] then js "Herdr command failed" else result.stderr))
  else if c.action = js "wait-output" then .ok none
  else if trim result.stdout = [] then .ok none
  else
    match jsonParse result.stdout with
    | none | some .null => .error .thrown
    | some v => .ok (v.get? (js "result"))

/-! ## The view -/

/-- The fields of `CellsView` that the panes depend on. -/
structure View where
  paneId : Option JsStr
  connectionFile : Option JsStr
  disposed : Bool
  failure : Option JsStr

inductive Op where
  | view
  | setPane (id : Option JsStr)
  | setConnectionFile (file : Option JsStr)
  /-- `process.env.HERDR_ENV === "1"` -/
  | herdrEnv
  /-- `pi.exec("herdr", ..)` -/
  | exec (c : Command)
  /-- `this.file()` -/
  | file
  /-- The connection file is copied beside the history; the path of the copy. -/
  | copy (file connectionFile : JsStr)
  | removeCopy
  | removeDirectory

def Ans : Op → Type
  | .view => View
  | .herdrEnv => Bool
  | .exec _ => Finished
  | .file => JsStr
  | .copy _ _ => JsStr
  | _ => Unit

/-- Asynchronous functions of the view. -/
abbrev Async (α : Type) := Prog Op Ans Problem α

def view : Async View := .op .view .done

def setPane (id : Option JsStr) : Async Unit := .op (.setPane id) .done

def setConnectionFile (file : Option JsStr) : Async Unit := .op (.setConnectionFile file) .done

def herdrEnv : Async Bool := .op .herdrEnv .done

def file : Async JsStr := .op .file .done

def copy (file connectionFile : JsStr) : Async JsStr := .op (.copy file connectionFile) .done

def removeCopy : Async Unit := .op .removeCopy .done

def removeDirectory : Async Unit := .op .removeDirectory .done

def herdr (c : Command) : Async (Option JsonValue) :=
  .op (.exec c) fun r => .done (r.bind (outcome c))

/-- A command whose result is not used. -/
def awaitHerdr (c : Command) : Async Unit := (fun _ => ()) <$> herdr c

def rejectWith {α : Type} (message : String) : Async α := .raise (.error (js message))

def closePane : Async Unit := do
  let v ← view
  match v.paneId with
  | none => pure ()
  | some id => do
    awaitHerdr (.paneClose id)
    setPane none
    setConnectionFile none
    removeCopy

/-- The `try` of `togglePane`: the console starts in the staging tab and is moved. -/
def launch (staging : Option JsonValue) (target : Target) (line connectionFile : JsStr) :
    Async Unit :=
  match createdTabPane staging with
  | none => rejectWith "Herdr did not return a pane ID."
  | some paneId => do
    setPane (some paneId)
    awaitHerdr (.paneRename paneId)
    awaitHerdr (.paneRun paneId line)
    awaitHerdr (.paneWaitOutput paneId)
    let v ← view
    if v.disposed then rejectWith "IPython viewer startup cancelled"
    else
      let moved ← herdr (.paneMove paneId target)
      match movedPane moved with
      | none => rejectWith "Herdr did not return the moved pane ID."
      | some id => do
        setPane (some id)
        setConnectionFile (some connectionFile)

variable (jupyterDataDir : JsStr)

/-- The rest of `togglePane`, when no pane is open. -/
def openPane (cwd connectionFile : JsStr) : Async Unit := do
  let transcript ← file
  let connectionCopy ← copy transcript connectionFile
  let line := paneLine transcript jupyterDataDir connectionCopy
  let current ← herdr .paneCurrent
  match currentPane current with
  | none => rejectWith "Herdr did not return the calling pane."
  | some target => do
    let staging ← herdr (.tabCreate target.workspaceId cwd)
    match createdTab staging with
    | none => rejectWith "Herdr did not return a tab ID."
    | some tabId =>
      Prog.ensure
        ((launch staging target line connectionFile).attempt fun error =>
          (closePane.attempt fun _ => pure ()) >>= fun _ => .raise error)
        (awaitHerdr (.tabClose tabId))

/-- What a toggle outside Herdr rejects with. -/
def outsideHerdr : Problem := .error (js "/cells requires a Herdr pane.")

/-- What a toggle rejects with when the history could not be recorded. -/
def historyUnavailable (failure : JsStr) : Problem :=
  .error (js "Cell history unavailable: " ++ failure)

def togglePane (cwd connectionFile : JsStr) : Async Unit := do
  let v ← view
  if v.disposed then pure ()
  else
    let inHerdr ← herdrEnv
    if !inHerdr then .raise outsideHerdr
    else
      match v.failure with
      | some failure => .raise (historyUnavailable failure)
      | none =>
        match v.paneId with
        | none => openPane jupyterDataDir cwd connectionFile
        | some id => do
          let existing ← herdr (.paneGet id)
          let v ← view
          let sameConnection := some connectionFile = v.connectionFile
          closePane
          if truthy existing ∧ sameConnection then pure ()
          else openPane jupyterDataDir cwd connectionFile

/-- `shutdown`, when the toggle in flight has settled. -/
def shutdownPane : Async Unit := closePane.ensure removeDirectory

/-! ## Herdr -/

/-- An open pane of the console. -/
structure Viewer where
  pane : JsStr
  /-- Its tab, until it is moved. -/
  staging : Option JsStr

/-- What Herdr has open, with a record of what it refused. -/
structure Herdr where
  viewers : List Viewer
  tabs : List JsStr
  /-- The staging tabs whose close command failed. -/
  unclosed : List JsStr
  /-- How many commands failed. -/
  refused : Nat
  /-- How many viewers were opened. -/
  opened : Nat
  /-- How often the user closed something. -/
  closings : Nat

namespace Herdr

variable (h : Herdr)

/-- A failed command has no effect. -/
def refuse (c : Command) : Herdr :=
  { h with
    refused := h.refused + 1
    unclosed := match c with
      | .tabClose tab => tab :: h.unclosed
      | _ => h.unclosed }

/-- The pane or tab of the command is not there. -/
def Missing : Command → Prop
  | .paneGet p | .paneClose p | .paneRename p | .paneRun p _ | .paneWaitOutput p | .paneMove p _ =>
    ∀ v ∈ h.viewers, v.pane ≠ p
  | .tabClose tab => tab ∉ h.tabs
  | .paneCurrent | .tabCreate _ _ => True

/-- The tabs when a viewer has left its tab: an empty tab may go. -/
def Vacated (pane : JsStr) (tabs : List JsStr) : Prop :=
  tabs = h.tabs ∨
    ∃ v ∈ h.viewers, v.pane = pane ∧ tabs = h.tabs.filter fun t => v.staging ≠ some t

/-- The result in the output of a command. -/
def result (f : Finished) : Option JsonValue :=
  if trim f.stdout = [] then none else field (jsonParse f.stdout) "result"

/-- **What a command does**: nothing when it fails, and else what it is for, with the ids that it
returns. -/
inductive Serves : Command → Except Problem Finished → Herdr → Prop
  | rejected (c : Command) (e : Problem) : Serves c (.error e) (h.refuse c)
  | failed (c : Command) (f : Finished) : f.code ≠ 0 → missing c f.stderr = false →
      Serves c (.ok f) (h.refuse c)
  | missed (c : Command) (f : Finished) : f.code ≠ 0 → missing c f.stderr = true → h.Missing c →
      Serves c (.ok f) h
  | got (pane : JsStr) (f : Finished) (fs : List (JsStr × JsonValue)) :
      (∃ v ∈ h.viewers, v.pane = pane) → f.code = 0 → result f = some (.obj fs) →
      Serves (.paneGet pane) (.ok f) h
  | closed (pane : JsStr) (f : Finished) (tabs : List JsStr) :
      (∃ v ∈ h.viewers, v.pane = pane) → f.code = 0 → h.Vacated pane tabs →
      Serves (.paneClose pane) (.ok f)
        { h with viewers := h.viewers.filter (·.pane ≠ pane), tabs := tabs }
  | current (f : Finished) : f.code = 0 → (currentPane (result f)).isSome →
      Serves .paneCurrent (.ok f) h
  | created (workspace cwd : JsStr) (f : Finished) (tab pane : JsStr) : f.code = 0 →
      createdTab (result f) = some tab → createdTabPane (result f) = some pane →
      tab ∉ h.tabs → (∀ v ∈ h.viewers, v.pane ≠ pane) →
      Serves (.tabCreate workspace cwd) (.ok f)
        { h with
          viewers := ⟨pane, some tab⟩ :: h.viewers
          tabs := tab :: h.tabs
          unclosed := h.unclosed.filter (· ≠ tab)
          opened := h.opened + 1 }
  | renamed (pane : JsStr) (f : Finished) : f.code = 0 → Serves (.paneRename pane) (.ok f) h
  | ran (pane line : JsStr) (f : Finished) : f.code = 0 → Serves (.paneRun pane line) (.ok f) h
  | waited (pane : JsStr) (f : Finished) : f.code = 0 → Serves (.paneWaitOutput pane) (.ok f) h
  | moved (pane : JsStr) (target : Target) (f : Finished) (pane' : JsStr) (tabs : List JsStr) :
      (∃ v ∈ h.viewers, v.pane = pane) → f.code = 0 → movedPane (result f) = some pane' →
      (∀ v ∈ h.viewers, v.pane = pane' → v.pane = pane) → h.Vacated pane tabs →
      Serves (.paneMove pane target) (.ok f)
        { h with
          viewers := h.viewers.map fun v => if v.pane = pane then ⟨pane', none⟩ else v
          tabs := tabs }
  | tabClosed (tab : JsStr) (f : Finished) : tab ∈ h.tabs → f.code = 0 →
      Serves (.tabClose tab) (.ok f)
        { h with
          viewers := h.viewers.filter (·.staging ≠ some tab)
          tabs := h.tabs.filter (· ≠ tab) }

end Herdr

/-! ## The tasks -/

structure World where
  view : View
  herdr : Herdr

namespace World

/-- The operations that are done at once. -/
def now : (o : Op) → Option (World → Except Problem (Ans o) × World)
  | .view => some fun w => (.ok w.view, w)
  | .setPane id => some fun w => (.ok (), { w with view := { w.view with paneId := id } })
  | .setConnectionFile file =>
    some fun w => (.ok (), { w with view := { w.view with connectionFile := file } })
  | _ => none

/-- What the others do. The files answer as they like. -/
def Serve (w : World) : (o : Op) → Except Problem (Ans o) → World → Prop
  | .exec c, r, w' => ∃ h, w.herdr.Serves c r h ∧ w' = { w with herdr := h }
  | .herdrEnv, r, w' => (∃ b, r = .ok b) ∧ w' = w
  | _, _, w' => w' = w

/-- What happens while a task waits: the user closes panes and tabs, the recording of the history
fails, the view is disposed. -/
structure Meanwhile (w w' : World) : Prop where
  paneId : w'.view.paneId = w.view.paneId
  connectionFile : w'.view.connectionFile = w.view.connectionFile
  disposed : w.view.disposed = true → w'.view.disposed = true
  viewers : w'.herdr.viewers.Sublist w.herdr.viewers
  tabs : w'.herdr.tabs ⊆ w.herdr.tabs
  unclosed : w'.herdr.unclosed = w.herdr.unclosed
  refused : w'.herdr.refused = w.herdr.refused
  opened : w'.herdr.opened = w.herdr.opened
  closings : w.herdr.closings ≤ w'.herdr.closings
  kept : w'.herdr.closings = w.herdr.closings → w'.herdr.viewers = w.herdr.viewers

end World

/-- How far the shutdown is, and how many commands had failed when it began to close. -/
inductive Shutdown where
  | notCalled
  /-- It awaits the toggle in flight. -/
  | waiting
  | closing (refused : Nat) (task : Async Unit)
  | settled (refused : Nat)

structure State where
  world : World
  /-- `this.toggling` -/
  toggling : Option (Async Unit)
  shutdown : Shutdown

namespace State

/-- A view before the first call. -/
def start : State where
  world := ⟨⟨none, none, false, none⟩, ⟨[], [], [], 0, 0, 0⟩⟩
  toggling := none
  shutdown := .notCalled

variable (s : State)

/-- The shutdown goes on to close the pane. -/
def close : State :=
  let x := shutdownPane.advance World.now s.world
  { s with world := x.2, shutdown := .closing s.world.herdr.refused x.1 }

/-- The toggle in flight goes on with `p`. -/
def toggleOn (p : Async Unit) (w : World) : State :=
  { s with world := (p.advance World.now w).2, toggling := some (p.advance World.now w).1 }

/-- The toggle in flight has settled. -/
def settle : State :=
  match s.shutdown with
  | .waiting => close { s with toggling := none }
  | _ => { s with toggling := none }

def dispose : State :=
  { s with world := { s.world with view := { s.world.view with disposed := true } } }

/-- A step. A toggle while another is in flight returns the promise of that one and is none. -/
inductive Step : State → State → Prop
  | toggle {s : State} (cwd connectionFile : JsStr) : s.toggling = none →
      Step s (s.toggleOn (togglePane jupyterDataDir cwd connectionFile) s.world)
  | serve {s : State} {o : Op} {k : Except Problem (Ans o) → Async Unit}
      {r : Except Problem (Ans o)} {w : World} : s.toggling = some (.op o k) →
      s.world.Serve o r w → Step s (s.toggleOn (k r) w)
  | settle {s : State} {r : Except Problem Unit} : s.toggling = some (.done r) → Step s s.settle
  | shutdown {s : State} : s.shutdown = .notCalled → s.toggling = none → Step s s.dispose.close
  | shutdownLater {s : State} : s.shutdown = .notCalled → s.toggling ≠ none →
      Step s { s.dispose with shutdown := .waiting }
  | serveShutdown {s : State} {n : Nat} {o : Op} {k : Except Problem (Ans o) → Async Unit}
      {r : Except Problem (Ans o)} {w : World} : s.shutdown = .closing n (.op o k) →
      s.world.Serve o r w →
      Step s { s with
        world := ((k r).advance World.now w).2
        shutdown := .closing n ((k r).advance World.now w).1 }
  | settleShutdown {s : State} {n : Nat} {r : Except Problem Unit} :
      s.shutdown = .closing n (.done r) → Step s { s with shutdown := .settled n }
  | userCloses {s : State} (viewers : List Viewer) (tabs : List JsStr) :
      viewers.Sublist s.world.herdr.viewers → tabs ⊆ s.world.herdr.tabs →
      Step s { s with world := { s.world with herdr := { s.world.herdr with
        viewers := viewers, tabs := tabs, closings := s.world.herdr.closings + 1 } } }
  | historyFails {s : State} (failure : JsStr) :
      Step s { s with world := { s.world with view := { s.world.view with
        failure := some failure } } }

/-- The state is one of a run. -/
def Reachable : State → Prop := Relation.ReflTransGen (Step jupyterDataDir) start

end State

end PiIpython.Console
