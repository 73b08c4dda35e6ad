import MiqroForge.Library.Calls
import MiqroForge.Replay.Timeline
import MiqroForge.Session.Dispatch

/-!
`TaskRunner._handle_user_message`: what it registers, the calls it makes in order, and
what every way out of it leaves behind. Each call may raise or, at an await, be
cancelled, and meanwhile other handlers may change the registry.
-/

namespace MiqroForge.Session

open Calls

inductive Fault where
  | raised
  | cancelled
  deriving DecidableEq, Repr

/-- The calls of the handler. -/
inductive Call where
  -- before the main `try`
  | resolveAgent | resolveCapabilities | getDefinitions | describeExecEnvironment
  | buildSkillsSummary | getSlashCommand | getSnapshot | permissionProfile
  -- inside it
  | truncateFromTurn | appendRollbackMarker | startTurn | loadMessages | ledgerTurnStarted
  | shouldAutoCompact | compactThread | putContextCompacted | reloadMessages | putCompactionError
  | putTurnStarted | saveUserMessage | appendUserMessage | ledgerUserMessage
  | completeAborted | ledgerTurnAborted | putTurnAborted
  | runTurn | saveMessage (i : Nat) | appendMessage (i : Nat) | ledgerMessage (i : Nat)
  | completeTurn | deleteSnapshot | ledgerTurnCompleted | putAgentMessage | putTurnComplete
  -- `except asyncio.CancelledError`
  | completeCancelled | ledgerCancelled | putCancelled
  -- `except Exception`
  | classifyChain | completeFailed | ledgerError | putError | putTurnFailed
  deriving DecidableEq, Repr

inductive TurnEvent where
  | contextCompacted (turnId threadId : String)
  | turnStarted (turnId threadId : String)
  | error (turnId : String) (recoverable : Bool)
  | agentMessage (turnId : String)
  | turnComplete (turnId threadId outcome : String)
  | turnAborted (turnId threadId reason : String)
  deriving DecidableEq, Repr

/-- `TurnCompleteEvent` and `TurnAbortedEvent` of a turn. -/
def TurnEvent.terminates (turnId : String) : TurnEvent → Bool
  | .turnComplete t _ _ => t == turnId
  | .turnAborted t _ _ => t == turnId
  | _ => false

/-- The dictionaries of the runner. A cancel event is a number, and `isSet` its flag. -/
structure Registry where
  turnCancelEvents : String → Option Nat := fun _ => none
  isSet : Nat → Bool := fun _ => false
  nextEvent : Nat := 0
  activeTurnIds : String → Option String := fun _ => none
  turnSteerQueues : String → Bool := fun _ => false

/-- The runner, with the events this handler put and the ledger items it wrote. -/
structure Runner where
  registry : Registry := {}
  events : List TurnEvent := []
  ledger : List Replay.Body := []

structure Snapshot where
  threadId : String
  status : String
  assistantContent : String
  reasoningContent : String
  deriving DecidableEq, Repr

structure UserMessage where
  turnId : Option String := none
  threadId : Option String := none
  content : String := ""
  resumeTurnId : Option String := none
  dropFromTurnId : Option String := none

/-- The services of a turn: which there are, how each call fails if it does, what others do to
the registry during it, and what the handler branches on in the results. An append to the
ledger that fails may have `stored` its item. -/
structure Env where
  historyRuntime : Bool := true
  ledgerRuntime : Bool := true
  contextRuntime : Bool := true
  capabilityResolver : Bool := true
  workspace : Bool := true
  pluginManager : Bool := false
  contextLimitChars : Nat := 0
  fault : Call → Option Fault := fun _ => none
  stored : Call → Bool := fun _ => false
  others : Call → Registry → Registry := fun _ r => r
  uuid : String := ""
  snapshot : Option Snapshot := none
  removedTurnIds : List String := []
  shouldCompact : Bool := false
  cancelSet : Bool := false
  slashContent : Option String := none
  deltaLength : Nat := 0
  delta : Nat → String × String := fun _ => ("assistant", "")
  errorKind : String := "fatal"
  recoverable : Bool := false

/-- A value Python takes for true. -/
def given (x : Option String) : Bool :=
  match x with
  | some s => s ≠ ""
  | none => false

/-! ## Registration and clean-up -/

/-- The event of the thread, or a new one when there is none or it is already set. -/
def cancelEvent (r : Registry) (threadId : String) : Nat :=
  match r.turnCancelEvents threadId with
  | some evt => if r.isSet evt then r.nextEvent else evt
  | none => r.nextEvent

def register (threadId turnId : String) (r : Registry) : Registry :=
  let evt := cancelEvent r threadId
  { turnCancelEvents := Function.update r.turnCancelEvents threadId (some evt)
    isSet := if evt = r.nextEvent then Function.update r.isSet evt false else r.isSet
    nextEvent := if evt = r.nextEvent then r.nextEvent + 1 else r.nextEvent
    activeTurnIds := Function.update r.activeTurnIds threadId (some turnId)
    turnSteerQueues := Function.update r.turnSteerQueues turnId true }

/-- The `finally` clause: clear the entries the turn still owns. -/
def cleanUp (threadId turnId : String) (evt : Nat) (r : Registry) : Registry :=
  { r with
    turnCancelEvents :=
      if r.turnCancelEvents threadId = some evt then
        Function.update r.turnCancelEvents threadId none
      else r.turnCancelEvents
    activeTurnIds :=
      if r.activeTurnIds threadId = some turnId then
        Function.update r.activeTurnIds threadId none
      else r.activeTurnIds
    turnSteerQueues := Function.update r.turnSteerQueues turnId false }

/-! ## The handler -/

abbrev Turn := Prog Fault Runner

def onRegistry (f : Registry → Registry) (r : Runner) : Runner :=
  { r with registry := f r.registry }

def await (env : Env) (c : Call) : Turn Unit :=
  call env.fault (fun c => onRegistry (env.others c)) c

/-- `await self._events.put(event)`. -/
def put (env : Env) (c : Call) (event : TurnEvent) : Turn Unit := do
  await env c
  update fun r => { r with events := r.events ++ [event] }

/-- `await ledger.append_item(...)`. -/
def appendItem (env : Env) (c : Call) (item : Replay.Body) : Turn Unit := do
  when (env.fault c == none || env.stored c)
    (update fun r => { r with ledger := r.ledger ++ [item] })
  await env c

/-- `except Exception`: a cancellation goes on. -/
def onException (handler : Turn Unit) : Fault → Turn Unit
  | .raised => handler
  | .cancelled => throw .cancelled

/-- Everything between the registration and the main `try`. -/
def prepare (env : Env) (msg : UserMessage) : Turn Unit := do
  await env .resolveAgent
  await env (if env.capabilityResolver then .resolveCapabilities else .getDefinitions)
  when env.workspace (await env .describeExecEnvironment)
  when env.workspace (tryCatch (await env .buildSkillsSummary) (onException (pure ())))
  when (msg.content.startsWith "/" && env.pluginManager) (await env .getSlashCommand)
  when (given msg.resumeTurnId && env.historyRuntime)
    (tryCatch (await env .getSnapshot) (onException (pure ())))
  await env .permissionProfile

/-- A snapshot of this thread in a recoverable state, with some content. -/
def Snapshot.resumable (s : Snapshot) (threadId : String) : Bool :=
  s.threadId == threadId && (s.status == "running" || s.status == "interrupted") &&
    (s.assistantContent != "" || s.reasoningContent != "")

/-- `resume_turn_id` behind the lookup: kept when the snapshot is usable, and when there is no
history to look it up in. -/
def resumes (env : Env) (msg : UserMessage) (threadId : String) : Bool :=
  given msg.resumeTurnId &&
    (!env.historyRuntime ||
      match env.fault .getSnapshot, env.snapshot with
      | none, some s => s.resumable threadId
      | _, _ => false)

/-- Auto-compaction; its failure is reported and the turn goes on. -/
def autoCompact (env : Env) (turnId threadId : String) : Turn Unit :=
  tryCatch (do
      await env .compactThread
      put env .putContextCompacted (.contextCompacted turnId threadId)
      await env .reloadMessages)
    (onException (put env .putCompactionError (.error turnId true)))

/-- The content of the message, without the name of a slash command that was found. -/
def userContent (env : Env) (msg : UserMessage) : String :=
  if msg.content.startsWith "/" && env.pluginManager then env.slashContent.getD msg.content
  else msg.content

/-- Up to the check for an abort. -/
def startTurn (env : Env) (msg : UserMessage) (turnId threadId : String) : Turn Unit := do
  when (given msg.dropFromTurnId && env.historyRuntime) (await env .truncateFromTurn)
  when (given msg.dropFromTurnId && env.historyRuntime && !env.removedTurnIds.isEmpty &&
    env.ledgerRuntime) (await env .appendRollbackMarker)
  when env.historyRuntime (await env .startTurn)
  when env.historyRuntime (await env .loadMessages)
  when env.ledgerRuntime (appendItem env .ledgerTurnStarted .turnStarted)
  when (env.historyRuntime && env.contextRuntime && env.contextLimitChars != 0) do
    await env .shouldAutoCompact
    when env.shouldCompact (autoCompact env turnId threadId)
  put env .putTurnStarted (.turnStarted turnId threadId)
  when (!resumes env msg threadId) do
    tryCatch (await env .saveUserMessage) (onException (pure ()))
    when env.historyRuntime (await env .appendUserMessage)
    when env.ledgerRuntime
      (appendItem env .ledgerUserMessage (.message (some "user") (userContent env msg)))

def abortBeforeStart (env : Env) (turnId threadId : String) : Turn Unit := do
  when env.historyRuntime (await env .completeAborted)
  when env.ledgerRuntime (appendItem env .ledgerTurnAborted .turnAborted)
  put env .putTurnAborted (.turnAborted turnId threadId "Turn aborted before start.")

/-- Persist one message of the turn in all stores. -/
def persist (env : Env) (i : Nat) : Turn Unit := do
  tryCatch (await env (.saveMessage i)) (onException (pure ()))
  when env.historyRuntime (await env (.appendMessage i))
  when env.ledgerRuntime
    (appendItem env (.ledgerMessage i) (.message (some (env.delta i).1) (env.delta i).2))

/-- Run the turn, persist its messages and report it. -/
def runTurn (env : Env) (msg : UserMessage) (turnId threadId : String) : Turn Unit := do
  await env .runTurn
  (List.range env.deltaLength).forM (persist env)
  when env.historyRuntime (await env .completeTurn)
  when (resumes env msg threadId && env.historyRuntime) (await env .deleteSnapshot)
  when env.ledgerRuntime (appendItem env .ledgerTurnCompleted .turnCompleted)
  put env .putAgentMessage (.agentMessage turnId)
  put env .putTurnComplete (.turnComplete turnId threadId "success")

/-- The main `try` block. -/
def tryBlock (env : Env) (msg : UserMessage) (turnId threadId : String) : Turn Unit := do
  startTurn env msg turnId threadId
  if env.cancelSet then abortBeforeStart env turnId threadId
  else runTurn env msg turnId threadId

/-- `except asyncio.CancelledError`, without the raise that ends it. -/
def exceptCancelled (env : Env) (turnId threadId : String) : Turn Unit := do
  when env.historyRuntime (await env .completeCancelled)
  when env.ledgerRuntime (appendItem env .ledgerCancelled .turnAborted)
  put env .putCancelled (.turnAborted turnId threadId "Turn was cancelled.")

/-- `except Exception`. -/
def exceptException (env : Env) (turnId threadId : String) : Turn Unit := do
  await env .classifyChain
  when env.historyRuntime (await env .completeFailed)
  when env.ledgerRuntime
    (appendItem env .ledgerError (.error "task_runner" env.errorKind env.recoverable))
  put env .putError (.error turnId env.recoverable)
  put env .putTurnFailed (.turnComplete turnId threadId "error")

def handleFault (env : Env) (turnId threadId : String) : Fault → Turn Unit
  | .cancelled => do
    exceptCancelled env turnId threadId
    throw .cancelled
  | .raised => exceptException env turnId threadId

def handleUserMessage (env : Env) (msg : UserMessage) : Turn Unit := fun r =>
  let turnId := orElse msg.turnId env.uuid
  let threadId := orElse msg.threadId "cli:default"
  let evt := cancelEvent r.registry threadId
  let run : Turn Unit := do
    update (onRegistry (register threadId turnId))
    prepare env msg
    ensure (tryCatch (tryBlock env msg turnId threadId) (handleFault env turnId threadId))
      (onRegistry (cleanUp threadId turnId evt))
  run r

end MiqroForge.Session
