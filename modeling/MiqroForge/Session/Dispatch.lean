import MiqroForge.Library.Steps
import Mathlib.Data.List.Perm.Basic

/-!
The dispatch loop `RuntimeSession._run` with its surroundings: submissions arrive, the
queue-get task takes one, tasks end and the event queue fills and drains whenever the
loop is suspended. Where the loop runs without a suspension point nothing else runs,
so there only the loop steps.
-/

namespace MiqroForge.Session

/-- The commands the loop tells apart; `other` stands for those it treats as a turn. -/
inductive Submission where
  | userMessage (threadId : Option String)
  | abortTurn (threadId : Option String)
  | steerTurn (threadId expectedTurnId : String)
  | runUserShellCommand (threadId turnId : String)
  | other (type : String)
  deriving DecidableEq, Repr

/-- `x or default`. -/
def orElse (x : Option String) (default : String) : String :=
  match x with
  | some s => if s = "" then default else s
  | none => default

/-- The thread a task that handles the submission runs a turn of. -/
def Submission.turnThread : Submission → Option String
  | .userMessage threadId => some (orElse threadId "cli:default")
  | .runUserShellCommand threadId _ => some threadId
  | _ => none

/-- The thread an `AbortTurn` is for. -/
def abortThread (threadId : Option String) : String := orElse threadId "default"

/-- A submission with its place in the order of submission. -/
structure Item where
  id : Nat
  sub : Submission
  deriving DecidableEq, Repr

inductive Outcome where
  | ok
  | raised
  | cancelled
  deriving DecidableEq, Repr

/-- An asyncio task running `TaskRunner.handle` on an item. -/
structure Task where
  item : Item
  outcome : Option Outcome := none
  cancelRequested : Bool := false
  deriving DecidableEq, Repr

def Task.done (t : Task) : Bool := t.outcome.isSome

/-- `Task.cancel`, without effect on a task that is done. -/
def Task.cancel (t : Task) : Task := if t.done then t else { t with cancelRequested := true }

/-- The queue-get task of one pass: absent or cancelled, waiting, or done with its item. -/
inductive GetTask where
  | none
  | waiting
  | got (item : Item)
  deriving DecidableEq, Repr

/-- An element of the `done` set of a wakeup. -/
inductive Done where
  | active
  | get
  | aux (id : Nat)
  deriving DecidableEq, Repr

/-- Where the loop goes on once the auxiliary tasks it cancelled are through. -/
inductive AfterAux where
  | activeDone
  | abortActive (item : Item)
  | abortIdle (item : Item)
  deriving DecidableEq, Repr

/-- Where the loop is. In `top` and `batch` it runs; everywhere else it is suspended. -/
inductive Pc where
  | top
  | waitGet
  | waiting
  | batch (rest : List Done)
  | handling (rest : Option (List Done))
  | reporting (active : Bool) (rest : List Done)
  | cancellingAux (next : AfterAux) (rest : List Done)
  | aborting (item : Item) (rest : List Done)
  | dead
  deriving DecidableEq, Repr

def Pc.suspended : Pc → Bool
  | .top => false
  | .batch _ => false
  | _ => true

/-- The session's dispatch state. `submitted`, `handed`, `consumed`, `lost` and `aborted` record
the run: all items in order, those handed to `TaskRunner.handle`, the aborts taken while a turn
task was active, the items dropped with a get task, and, for every abort, the tasks it asked to
cancel. -/
structure RuntimeSession where
  queue : List Item := []
  pending : List Item := []
  get : GetTask := .none
  active : Option Task := none
  aux : List Task := []
  eventRoom : Nat := 4096
  pc : Pc := .top
  submitted : List Item := []
  handed : List Item := []
  consumed : List Item := []
  lost : List Item := []
  aborted : List (String × Submission) := []
  deriving DecidableEq, Repr

/-! ## The loop -/

def RuntimeSession.running (s : RuntimeSession) : List Task :=
  (s.active.toList ++ s.aux).filter fun t => !t.done

/-- Hand an item taken while no turn is active to `TaskRunner.handle`: inline for an abort or a
steer, as the new active task otherwise. -/
def takeItem (s : RuntimeSession) (item : Item) : RuntimeSession :=
  match item.sub with
  | .abortTurn _ | .steerTurn _ _ => { s with handed := s.handed ++ [item], pc := .handling none }
  | _ => { s with handed := s.handed ++ [item], active := some { item := item }, pc := .top }

/-- The head of the loop: wait on the active task, or take the next item, pending ones first. -/
def loopTop (s : RuntimeSession) : RuntimeSession :=
  match s.active, s.pending, s.queue with
  | some _, _, _ => { s with get := .waiting, pc := .waiting }
  | none, item :: rest, _ => takeItem { s with pending := rest } item
  | none, [], item :: rest => takeItem { s with queue := rest } item
  | none, [], [] => { s with pc := .waitGet }

/-- `get_task.cancel()` unless it is done. -/
def cancelGet (s : RuntimeSession) : RuntimeSession :=
  match s.get with
  | .waiting => { s with get := .none }
  | _ => s

def afterAux (s : RuntimeSession) (rest : List Done) : AfterAux → RuntimeSession
  | .activeDone => { s with pc := .batch rest }
  | .abortActive item => { s with pc := .aborting item rest }
  | .abortIdle item => { s with handed := s.handed ++ [item], pc := .handling (some rest) }

/-- `_cancel_aux_tasks`, up to its await when there are any. -/
def cancelAuxTasks (s : RuntimeSession) (next : AfterAux) (rest : List Done) : RuntimeSession :=
  match s.aux with
  | [] => afterAux s rest next
  | aux => { s with aux := aux.map Task.cancel, pc := .cancellingAux next rest }

/-- The active branch behind the report of an exception. -/
def activeReported (s : RuntimeSession) (rest : List Done) : RuntimeSession :=
  cancelAuxTasks (cancelGet s) .activeDone rest

/-- Put the error event of a failed task, or wait for room in the event queue. -/
def report (s : RuntimeSession) (active : Bool) (rest : List Done)
    (next : RuntimeSession → RuntimeSession) : RuntimeSession :=
  if s.eventRoom = 0 then { s with pc := .reporting active rest }
  else next { s with eventRoom := s.eventRoom - 1 }

/-- `d is self._active_turn_task`. -/
def processActive (s : RuntimeSession) (task : Task) (rest : List Done) : RuntimeSession :=
  let cleared := { s with active := none }
  if task.outcome = some .raised then report cleared true rest fun s => activeReported s rest
  else activeReported cleared rest

/-- What an abort for `threadId` asks to cancel: the active task and all auxiliary tasks. -/
def abortTargets (s : RuntimeSession) (threadId : Option String) : List (String × Submission) :=
  s.running.map fun t => (abortThread threadId, t.item.sub)

/-- `d is get_task`, its item already out of the task. -/
def processItem (s : RuntimeSession) (item : Item) (rest : List Done) : RuntimeSession :=
  match item.sub with
  | .abortTurn threadId =>
    let noted := { s with aborted := s.aborted ++ abortTargets s threadId }
    match s.active with
    | some task =>
      cancelAuxTasks { noted with active := some task.cancel, consumed := s.consumed ++ [item] }
        (.abortActive item) rest
    | none => cancelAuxTasks noted (.abortIdle item) rest
  | .steerTurn _ _ => { s with handed := s.handed ++ [item], pc := .handling (some rest) }
  | .runUserShellCommand _ _ =>
    { s with handed := s.handed ++ [item], aux := s.aux ++ [{ item := item }], pc := .batch rest }
  | _ => { s with pending := s.pending ++ [item], pc := .batch rest }

/-- `d in self._pending_aux_tasks`. -/
def processAux (s : RuntimeSession) (task : Task) (rest : List Done) : RuntimeSession :=
  let cleared := { s with aux := s.aux.erase task }
  if task.outcome = some .raised then
    report cleared false rest fun s => { s with pc := .batch rest }
  else { cleared with pc := .batch rest }

/-- One element of the done set. A task that is none of the loop's any more only cancels the
get task. -/
def process (s : RuntimeSession) (d : Done) (rest : List Done) : RuntimeSession :=
  match d with
  | .active =>
    match s.active with
    | some task => processActive s task rest
    | none => { cancelGet s with pc := .batch rest }
  | .get =>
    match s.get with
    | .got item => processItem { s with get := .none } item rest
    | _ => { s with pc := .batch rest }
  | .aux id =>
    match s.aux.find? fun t => t.item.id == id with
    | some task => processAux s task rest
    | none => { cancelGet s with pc := .batch rest }

/-- Behind the batch a get task that is still waiting is cancelled. One that took an item in the
meantime is done, is not in the done set, and is dropped. -/
def endBatch (s : RuntimeSession) : RuntimeSession :=
  match s.get with
  | .got item => { s with get := .none, lost := s.lost ++ [item], pc := .top }
  | _ => { s with get := .none, pc := .top }

/-- The tasks that are done when the loop wakes up. -/
def doneTasks (s : RuntimeSession) : List Done :=
  (match s.active with
    | some task => if task.done then [Done.active] else []
    | none => []) ++
  (match s.get with
    | .got _ => [Done.get]
    | _ => []) ++
  (s.aux.filter Task.done).map fun t => .aux t.item.id

/-! ## Steps -/

inductive Event where
  | submit (sub : Submission)
  | getTakes
  | activeEnds (outcome : Outcome)
  | auxEnds (id : Nat) (outcome : Outcome)
  | eventTaken
  | eventPut
  | idleTimeout
  | wake (order : List Done)
  | handlerRaises
  | dispatch
  deriving DecidableEq, Repr

/-- The loop's own step from where it is; `none` while what it awaits is not there. -/
def dispatch (s : RuntimeSession) : Option RuntimeSession :=
  match s.pc with
  | .top => some (loopTop s)
  | .waitGet =>
    match s.queue with
    | item :: rest => some (takeItem { s with queue := rest } item)
    | [] => none
  | .batch [] => some (endBatch s)
  | .batch (d :: rest) => some (process s d rest)
  | .handling none => some { s with pc := .top }
  | .handling (some rest) => some { s with pc := .batch rest }
  | .reporting active rest =>
    if s.eventRoom = 0 then none
    else
      let reported := { s with eventRoom := s.eventRoom - 1 }
      some (if active then activeReported reported rest else { reported with pc := .batch rest })
  | .cancellingAux next rest =>
    if s.aux.all Task.done then some (afterAux { s with aux := [] } rest next) else none
  | .aborting _ rest =>
    match s.active with
    | some task =>
      -- a failed clean-up is reported as TurnAbortedEvent, which may have to wait for room
      if task.outcome = some .raised then
        if s.eventRoom = 0 then none
        else some { s with active := none, eventRoom := s.eventRoom - 1, pc := .batch rest }
      else if task.done then some { s with active := none, pc := .batch rest }
      else none
    | none => some { s with pc := .batch rest }
  | .waiting => none
  | .dead => none

/-- A step of the surroundings, while the loop is suspended. -/
def outside (s : RuntimeSession) : Event → Option RuntimeSession
  | .submit sub =>
    let item := { id := s.submitted.length, sub := sub }
    some { s with submitted := s.submitted ++ [item], queue := s.queue ++ [item] }
  | .getTakes =>
    match s.get, s.queue with
    | .waiting, item :: rest => some { s with get := .got item, queue := rest }
    | _, _ => none
  | .activeEnds outcome =>
    match s.active with
    | some task =>
      if task.done then none else some { s with active := some { task with outcome := some outcome } }
    | none => none
  | .auxEnds id outcome =>
    match s.aux.find? fun t => t.item.id == id && !t.done with
    | some task => some { s with aux := s.aux.replace task { task with outcome := some outcome } }
    | none => none
  | .eventTaken => some { s with eventRoom := s.eventRoom + 1 }
  | .eventPut => if s.eventRoom = 0 then none else some { s with eventRoom := s.eventRoom - 1 }
  | .idleTimeout => if s.pc = .waitGet then some { s with pc := .top } else none
  | .wake order =>
    if s.pc = .waiting ∧ order ≠ [] ∧ order.Perm (doneTasks s) then some { s with pc := .batch order }
    else none
  | .handlerRaises =>
    match s.pc with
    | .handling _ => some { s with pc := .dead }
    | .aborting _ _ => some { s with pc := .dead }
    | _ => none
  | .dispatch => none

def step (s : RuntimeSession) (e : Event) : Option RuntimeSession :=
  match e with
  | .dispatch => dispatch s
  | e => if s.pc.suspended then outside s e else none

end MiqroForge.Session
