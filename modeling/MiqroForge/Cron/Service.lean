import MiqroForge.Library.Steps

/-!
`CronService` after `start`: the timer task that sleeps until the next run and then executes the
due jobs one after the other, the public calls, and the job bodies, which end at any time.

A job is an object that the store refers to; a task may still hold it when the store does not. A
task that is asked to cancel is cancelled where it next waits, which may be never: the body it
executes can end before.
-/

namespace MiqroForge.Cron

/-! ## Jobs -/

inductive Kind where
  | at
  | every
  | cron
  deriving DecidableEq, Repr

structure CronSchedule where
  kind : Kind
  atMs : Option Int := none
  everyMs : Option Int := none
  expr : Option String := none
  tz : Option String := none
  deriving DecidableEq, Repr

structure CronJob where
  id : String
  enabled : Bool := true
  schedule : CronSchedule
  nextRunAtMs : Option Int := none
  lastRunAtMs : Option Int := none
  lastStatus : Option String := none
  lastError : Option String := none
  deleteAfterRun : Bool := false
  deriving DecidableEq, Repr

/-- What is not of the service: `croniter` in a time zone, `none` where it raises, and the names
`ZoneInfo` knows. The timeout is in seconds. -/
structure Env where
  croniter : String → Option String → Int → Option Int
  zoneInfo : String → Bool
  jobTimeout : Int

/-- `get_next` is later than its base. -/
def Env.Lawful (env : Env) : Prop :=
  ∀ expr tz now n, env.croniter expr tz now = some n → now < n

def computeNextRun (env : Env) (schedule : CronSchedule) (now : Int) (last : Option Int) :
    Option Int :=
  match schedule.kind with
  | .at => schedule.atMs.filter fun t => decide (t ≠ 0 ∧ now < t)
  | .every =>
    match schedule.everyMs with
    | none => none
    | some every =>
      if every ≤ 0 then none
      else
        match last with
        | some last => if now < last + every then some (last + every) else some (now + every)
        | none => some (now + every)
  | .cron =>
    match schedule.expr with
    | none => none
    | some expr => if expr = "" then none else env.croniter expr schedule.tz now

/-- `_validate_schedule_for_add` does not raise. -/
def valid (env : Env) (schedule : CronSchedule) : Bool :=
  match schedule.tz with
  | none => true
  | some tz => tz == "" || (schedule.kind == .cron && env.zoneInfo tz)

/-- When an enabled job runs next. -/
def CronJob.wake (job : CronJob) : Option Int :=
  if job.enabled then job.nextRunAtMs.filter fun n => decide (n ≠ 0) else none

/-! ## The service -/

/-- Why a task is asked to cancel: `_arm_timer` does it, or `stop`. -/
inductive Cause where
  | rearmed
  | stopped
  deriving DecidableEq, Repr

/-- A job that is executed, when it was begun, and which due occurrence it takes. -/
structure Execution where
  job : Nat
  startMs : Int
  occurrence : Option Int
  deriving DecidableEq, Repr

/-- `sleeping` and `timer` are a timer task before and in `_on_timer`, which has jobs left to
execute; `manual` is a `run_job`. -/
inductive Phase where
  | done
  | sleeping (wake : Int)
  | timer (current : Execution) (rest : List Nat)
  | manual (current : Execution)
  deriving DecidableEq, Repr

structure Task where
  phase : Phase := .done
  cancel : Option Cause := none
  deriving DecidableEq, Repr

/-- What a task does with jobs; a task that sleeps does nothing with them. -/
def Task.work (t : Task) : Phase :=
  match t.phase with
  | .sleeping _ => .done
  | phase => phase

/-- The execution a task is in. -/
def Task.current (t : Task) : Option Execution :=
  match t.work with
  | .timer current _ => some current
  | .manual current => some current
  | _ => none

/-- The jobs a timer task has left. -/
def Task.rest (t : Task) : List Nat :=
  match t.work with
  | .timer _ rest => rest
  | _ => []

/-- The jobs a task executes or is about to. -/
def Task.jobs (t : Task) : List Nat := (t.current.map (·.job)).toList ++ t.rest

def Task.onTimer (t : Task) : Bool :=
  match t.work with
  | .timer _ _ => true
  | _ => false

/-- `cancel` of a task. -/
def Task.request (t : Task) (cause : Cause) : Task :=
  if t.phase = .done then t else { t with cancel := t.cancel.or (some cause) }

/-- The service, and what happened: the due occurrences that were begun, those that came due, those
that the user withdrew, and the executions that were cancelled. -/
structure CronService where
  now : Int
  job : Nat → CronJob
  created : Nat
  jobs : List Nat
  task : Nat → Task := fun _ => {}
  tasks : Nat := 0
  timerTask : Option Nat := none
  running : Bool := true
  started : List (Nat × Int) := []
  cameDue : List (Nat × Int) := []
  withdrawn : List (Nat × Int) := []
  cancelled : List (Nat × Cause) := []

namespace CronService

def setJob (s : CronService) (r : Nat) (job : CronJob) : CronService :=
  { s with job := Function.update s.job r job }

def setTask (s : CronService) (t : Nat) (task : Task) : CronService :=
  { s with task := Function.update s.task t task }

/-- The job is due now. -/
def due (s : CronService) (r : Nat) : Option Int :=
  (s.job r).wake.filter fun n => decide (n ≤ s.now)

def dueJobs (s : CronService) : List Nat := s.jobs.filter fun r => (s.due r).isSome

/-- The first job of the store with the id. -/
def find (s : CronService) (id : String) : Option Nat := s.jobs.find? fun r => (s.job r).id == id

/-- `_get_next_wake_ms`. -/
def nextWake (s : CronService) : Option Int := (s.jobs.filterMap fun r => (s.job r).wake).min?

/-- `self._timer_task.cancel()`. -/
def cancelTimer (s : CronService) (cause : Cause) : CronService :=
  match s.timerTask with
  | none => s
  | some t => s.setTask t ((s.task t).request cause)

def armTimer (s : CronService) : CronService :=
  let s := s.cancelTimer .rearmed
  match s.nextWake with
  | none => s
  | some wake =>
    if s.running then
      { s.setTask s.tasks { phase := .sleeping (max s.now wake) } with
        tasks := s.tasks + 1
        timerTask := some s.tasks }
    else s

/-- The execution of a job, as it begins. -/
def execution (s : CronService) (r : Nat) : Execution :=
  { job := r, startMs := s.now, occurrence := s.due r }

/-- A due occurrence that is begun is taken down. -/
def noted (s : CronService) (r : Nat) : CronService :=
  { s with started := s.started ++ ((s.due r).map fun n => (r, n)).toList }

/-- The loop of `_on_timer` over the jobs that are left. -/
def executeDue (s : CronService) (t : Nat) : List Nat → CronService
  | [] => (s.setTask t { s.task t with phase := .done }).armTimer
  | r :: rest => (s.noted r).setTask t { s.task t with phase := .timer (s.execution r) rest }

end CronService

/-- How a job body ends. -/
inductive Outcome where
  | ok
  | failed (message : String)
  | timedOut
  deriving DecidableEq, Repr

/-- What `_execute_job` writes of the outcome. -/
def CronJob.record (env : Env) (job : CronJob) (startMs : Int) (outcome : Outcome) : CronJob :=
  let job :=
    match outcome with
    | .ok => { job with lastStatus := some "ok", lastError := none }
    | .failed message => { job with lastStatus := some "error", lastError := some message }
    | .timedOut =>
      { job with
        lastStatus := some "error"
        lastError := some ("Job execution timed out (" ++ toString env.jobTimeout ++ "s)") }
  { job with lastRunAtMs := some startMs }

namespace CronService

/-- `_execute_job` behind the body. -/
def complete (env : Env) (s : CronService) (e : Execution) (outcome : Outcome) : CronService :=
  let job := (s.job e.job).record env e.startMs outcome
  if job.schedule.kind = .at then
    if job.deleteAfterRun then
      { s.setJob e.job job with jobs := s.jobs.filter fun r => (s.job r).id != job.id }
    else s.setJob e.job { job with enabled := false, nextRunAtMs := none }
  else s.setJob e.job { job with nextRunAtMs := computeNextRun env job.schedule s.now none }

/-- A timeout is only raised when the time is over. -/
def mayEnd (env : Env) (s : CronService) (e : Execution) (outcome : Outcome) : Bool :=
  outcome != .timedOut || decide (e.startMs + 1000 * env.jobTimeout ≤ s.now)

/-- The due occurrences of the jobs. -/
def dueOf (s : CronService) (jobs : List Nat) : List (Nat × Int) :=
  jobs.filterMap fun r => (s.due r).map fun n => (r, n)

/-- The occurrences that come due in the next `ms`. -/
def comingDue (s : CronService) (ms : Nat) : List (Nat × Int) :=
  s.jobs.filterMap fun r =>
    ((s.job r).wake.filter fun n => decide (s.now < n ∧ n ≤ s.now + ms)).map fun n => (r, n)

end CronService

/-! ## Steps -/

inductive Event where
  | advance (ms : Nat)
  /-- A timer task wakes up. -/
  | fire (t : Nat)
  | bodyEnds (t : Nat) (outcome : Outcome)
  /-- A task is cancelled where it waits. -/
  | cancelled (t : Nat)
  /-- The id is the one `uuid4` gives. -/
  | addJob (id : String) (schedule : CronSchedule) (deleteAfterRun : Bool)
  | removeJob (id : String)
  | enableJob (id : String) (enabled : Bool)
  | runJob (id : String) (force : Bool)
  | stop
  deriving DecidableEq, Repr

open CronService

/-- The job of `add_job`. -/
def newJob (env : Env) (now : Int) (id : String) (schedule : CronSchedule)
    (deleteAfterRun : Bool) : CronJob where
  id
  schedule
  nextRunAtMs := computeNextRun env schedule now none
  deleteAfterRun

def addJob (env : Env) (s : CronService) (id : String) (schedule : CronSchedule)
    (deleteAfterRun : Bool) : CronService :=
  if valid env schedule then
    { s.setJob s.created (newJob env s.now id schedule deleteAfterRun) with
      created := s.created + 1
      jobs := s.jobs ++ [s.created] }.armTimer
  else s

def removeJob (s : CronService) (id : String) : CronService :=
  let kept := s.jobs.filter fun r => (s.job r).id != id
  if kept.length < s.jobs.length then
    { s with
      jobs := kept
      withdrawn := s.withdrawn ++ s.dueOf (s.jobs.filter fun r => (s.job r).id == id) }.armTimer
  else s

def enableJob (env : Env) (s : CronService) (id : String) (enabled : Bool) : CronService :=
  match s.find id with
  | none => s
  | some r =>
    if enabled then
      (s.setJob r { s.job r with
        enabled := true
        nextRunAtMs := computeNextRun env (s.job r).schedule s.now none }).armTimer
    else
      { s.setJob r { s.job r with enabled := false, nextRunAtMs := none } with
        withdrawn := s.withdrawn ++ s.dueOf [r] }.armTimer

/-- `run_job` up to the body. -/
def runJob (s : CronService) (id : String) (force : Bool) : CronService :=
  match s.find id with
  | none => s
  | some r =>
    if !force && !(s.job r).enabled then s
    else { (s.noted r).setTask s.tasks { phase := .manual (s.execution r) } with
      tasks := s.tasks + 1 }

def stop (s : CronService) : CronService :=
  { s.cancelTimer .stopped with running := false, timerTask := none }

def step (env : Env) (s : CronService) : Event → Option CronService
  | .advance ms => some { s with now := s.now + ms, cameDue := s.cameDue ++ s.comingDue ms }
  | .fire t =>
    match s.task t with
    | ⟨.sleeping wake, none⟩ =>
      if wake ≤ s.now then
        if s.running then some (s.executeDue t s.dueJobs)
        else some (s.setTask t {})
      else none
    | _ => none
  | .bodyEnds t outcome =>
    match (s.task t).phase with
    | .timer e rest =>
      if s.mayEnd env e outcome then some ((s.complete env e outcome).executeDue t rest) else none
    | .manual e =>
      if s.mayEnd env e outcome then
        some ((s.complete env e outcome).setTask t {}).armTimer
      else none
    | _ => none
  | .cancelled t =>
    match (s.task t).cancel, (s.task t).phase with
    | some _, .sleeping _ => some (s.setTask t {})
    | some cause, .timer e _ =>
      some { s.setTask t {} with cancelled := s.cancelled ++ [(e.job, cause)] }
    | _, _ => none
  | .addJob id schedule deleteAfterRun =>
    if (List.range s.created).any fun r => (s.job r).id == id then none
    else some (addJob env s id schedule deleteAfterRun)
  | .removeJob id => some (removeJob s id)
  | .enableJob id enabled => some (enableJob env s id enabled)
  | .runJob id force => some (runJob s id force)
  | .stop => some (stop s)

/-- `_recompute_next_runs`, one job. -/
def recomputed (env : Env) (now : Int) (job : CronJob) : CronJob :=
  if job.enabled then
    { job with nextRunAtMs := computeNextRun env job.schedule now job.lastRunAtMs }
  else job

/-- `start` on the jobs of the file, without its timer. -/
def loaded (env : Env) (now : Int) (jobs : List CronJob) : CronService where
  now
  job := fun r => ((jobs.map (recomputed env now))[r]?).getD
    { id := "", schedule := { kind := .every } }
  created := jobs.length
  jobs := List.range jobs.length

def start (env : Env) (now : Int) (jobs : List CronJob) : CronService :=
  (loaded env now jobs).armTimer

end MiqroForge.Cron
