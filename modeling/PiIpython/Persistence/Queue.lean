import PiIpython.Persistence.Checkpoints

/-!
# The queue of a session

`pending` is a chain of promises: a call of `sync` or `save` hangs its task on
the chain, and the task begins some time after the one before it has settled,
whichever way. A task runs up to what it awaits; the outside answers that, or
lets it fail, whenever it likes. `events` tells what happened, the latest first.
Without checkpoints `sync` and `save` hang nothing on the chain.
-/

namespace PiIpython.Persistence

open Text Prog

inductive Request where
  | sync (candidates : List JsStr) (signal : Option SignalId)
  | save (id : JsStr)
  deriving DecidableEq

def Request.isSave : Request → Bool
  | .sync _ _ => false
  | .save _ => true

/-- What a task fulfils its promise with. -/
inductive Outcome where
  /-- A sync resolves with notices. -/
  | notices (ns : List JsStr)
  | saved
  /-- A save that failed recorded this. -/
  | unsaved (text : JsStr)
  deriving DecidableEq

variable (numberText : Binary64 → JsStr)

def Request.task : Request → Async Outcome
  | .sync candidates signal => Outcome.notices <$> restoreBranch numberText candidates signal
  | .save id => (fun failure => failure.elim .saved .unsaved) <$> saveCell id

inductive Phase where
  | queued
  /-- It awaits an operation. -/
  | running (rest : Async Outcome)
  | settled (result : Except JsStr Outcome)

structure Task where
  request : Request
  phase : Phase

/-- What a task reads and writes at once. -/
structure World where
  generation : Nat
  aborted : SignalId → Bool
  saveFailure : Option JsStr

def World.now : (o : Op) → Option (World → Except JsStr (Ans o) × World)
  | .generation => some fun w => (.ok w.generation, w)
  | .aborted signal => some fun w => (.ok (w.aborted signal), w)
  | .saveFailure => some fun w => (.ok w.saveFailure, w)
  | .setSaveFailure text => some fun w => (.ok (), { w with saveFailure := text })
  | _ => none

inductive Event where
  | called (i : Nat) (request : Request)
  /-- The task awaits an operation. -/
  | asked (i : Nat) (o : Op)
  | answered (i : Nat) (o : Op)
  | settled (i : Nat) (result : Except JsStr Outcome)

structure Queue where
  /-- The tasks in the order of the calls. -/
  tasks : List Task
  world : World
  events : List Event

/-- A new session. -/
def Queue.new (generation : Nat) (aborted : SignalId → Bool) : Queue :=
  ⟨[], ⟨generation, aborted, none⟩, []⟩

def Queue.call (q : Queue) (request : Request) : Queue :=
  { q with
    tasks := q.tasks ++ [⟨request, .queued⟩]
    events := .called q.tasks.length request :: q.events }

/-- The task runs up to what it awaits next, or settles. -/
def Queue.goOn (q : Queue) (i : Nat) (request : Request) (p : Async Outcome) : Queue :=
  let x := p.advance World.now q.world
  let q := { q with world := x.2 }
  match x.1 with
  | .done r =>
    { q with
      tasks := q.tasks.set i ⟨request, .settled r⟩
      events := .settled i r :: q.events }
  | .op o k =>
    { q with
      tasks := q.tasks.set i ⟨request, .running (.op o k)⟩
      events := .asked i o :: q.events }

/-- The kernel and the signals change. -/
def Queue.turn (q : Queue) (generation : Nat) (aborted : SignalId → Bool) : Queue :=
  { q with world := { q.world with generation := generation, aborted := aborted } }

/-- The link of the chain before the task is fulfilled. -/
def Queue.Released (q : Queue) (i : Nat) : Prop :=
  i = 0 ∨ ∃ t r, q.tasks[i - 1]? = some t ∧ t.phase = .settled r

/-- A task begins, or gets the answer of what it awaits. -/
inductive Goes : Queue → Queue → Prop
  | begin {q : Queue} {i : Nat} {t : Task} (task : q.tasks[i]? = some t)
      (queued : t.phase = .queued) (released : q.Released i) :
      Goes q (q.goOn i t.request (t.request.task numberText))
  | answer {q : Queue} {i : Nat} {t : Task} {o : Op} {k : Except JsStr (Ans o) → Async Outcome}
      (task : q.tasks[i]? = some t) (running : t.phase = .running (.op o k))
      (r : Except JsStr (Ans o)) (immediate : o = .immediate → ∃ a, r = .ok a) :
      Goes q ({ q with events := .answered i o :: q.events }.goOn i t.request (k r))

inductive Step : Queue → Queue → Prop
  | call {q : Queue} (request : Request) : Step q (q.call request)
  | turn {q : Queue} (generation : Nat) (aborted : SignalId → Bool) :
      Step q (q.turn generation aborted)
  | go {q q' : Queue} (goes : Goes numberText q q') : Step q q'

/-- A state of a session, after any calls and answers. -/
inductive Reached : Queue → Prop
  | new (generation : Nat) (aborted : SignalId → Bool) : Reached (.new generation aborted)
  | step {q q' : Queue} (reached : Reached q) (step : Step numberText q q') : Reached q'

end PiIpython.Persistence
