import MiqroForge.Library.Json
import MiqroForge.Library.Table

/-!
`CodexTurnEventAdapter`: the runtime events of a turn and the notifications a client gets for them.
-/

namespace MiqroForge.Turns

open PyText

/-! ## Events -/

inductive Event where
  | turnStarted
  | agentMessageDelta (delta : Text)
  | agentMessage (content : Text)
  | agentReasoning (content : Text)
  | execCommandBegin (toolCallId command cwd source : Text)
  | execCommandOutputDelta (toolCallId stream delta : Text)
  | execCommandEnd (toolCallId : Text) (exitCode durationMs : Int)
  | toolCallBegin (toolCallId toolName : Text) (arguments : List (Text × Json.Value))
  | toolCallEnd (toolCallId toolName outputPreview : Text)
  | toolCallOutputDelta (toolCallId delta : Text)
  | approvalRequested (approvalId category description : Text)
      (details : List (Text × Json.Value))
  | contextCompacted
  | turnComplete (outcome : Text) (tokenUsage : List (Text × Int))
  | turnAborted
  | error (message : Text) (recoverable : Bool)
  /-- An event without a handler. -/
  | other

/-- The events a turn ends with. -/
def Event.terminal : Event → Bool
  | .turnComplete _ _ => true
  | .turnAborted => true
  | .error _ recoverable => !recoverable
  | _ => false

/-! ## Items and notifications -/

/-- The items of `turn_protocol`; a field that is not there is `none`. -/
inductive Item where
  | userMessage (id : Text) (content : List Json.Value) (clientId : Option Text)
  | agentMessage (id : Text) (text : Option Text)
  | reasoning (id : Text) (summary : Option Text)
  | commandExecution (id command cwd status : Text) (source aggregatedOutput : Option Text)
      (exitCode durationMs : Option Int)
  | mcpToolCall (id server tool : Text) (arguments : List (Text × Json.Value)) (status : Text)
      (result : Option Text)
  | dynamicToolCall (id tool : Text) (arguments : List (Text × Json.Value)) (status : Text)
      (result : Option Text)
  | contextCompaction (id status : Text)

namespace Item

def id : Item → Text
  | .userMessage id _ _ => id
  | .agentMessage id _ => id
  | .reasoning id _ => id
  | .commandExecution id _ _ _ _ _ _ _ => id
  | .mcpToolCall id _ _ _ _ _ => id
  | .dynamicToolCall id _ _ _ _ => id
  | .contextCompaction id _ => id

/-- The text of an agent, reasoning or command item. -/
def text : Item → Option Text
  | .agentMessage _ text => some (text.getD [])
  | .reasoning _ summary => some (summary.getD [])
  | .commandExecution _ _ _ _ _ aggregatedOutput _ _ => some (aggregatedOutput.getD [])
  | _ => none

def inProgress : Text := "inProgress".toList

def completed : Text := "completed".toList

/-- `command_execution_item`, which leaves an empty output out. -/
def commandExecutionItem (id command cwd status : Text) (source : Option Text)
    (aggregatedOutput : Text) (exitCode durationMs : Option Int) : Item :=
  .commandExecution id command cwd status source
    (if aggregatedOutput = [] then none else some aggregatedOutput) exitCode durationMs

def mcpToolItem (id toolName : Text) (arguments : List (Text × Json.Value)) (status : Text) :
    Item :=
  let server := toolName.takeWhile (· ≠ '.')
  let tool := (toolName.dropWhile (· ≠ '.')).drop 1
  .mcpToolCall id (if server = [] then "mcp".toList else server)
    (if tool = [] then toolName else tool) arguments status none

/-- The item of `_on_ToolCallBeginEvent`. -/
def toolItem (id toolName : Text) (arguments : List (Text × Json.Value)) : Item :=
  if "mcp.".toList <+: toolName then mcpToolItem id toolName arguments inProgress
  else .dynamicToolCall id toolName arguments inProgress none

/-- What `_on_ToolCallEndEvent` writes into the item. -/
def finished (item : Item) (outputPreview : Text) : Item :=
  match item with
  | .mcpToolCall id server tool arguments _ result =>
    .mcpToolCall id server tool arguments completed
      (if outputPreview = [] then result else some outputPreview)
  | .dynamicToolCall id tool arguments _ result =>
    .dynamicToolCall id tool arguments completed
      (if outputPreview = [] then result else some outputPreview)
  | item => item

/-- The command, its directory and its source, as `_on_ExecCommandEndEvent` reads them. -/
def command : Item → Text × Text × Option Text
  | .commandExecution _ command cwd _ source _ _ _ => (command, cwd, source)
  | _ => ([], [], none)

end Item

/-- `_with_location`. -/
structure Location where
  threadId : Text
  turnId : Text
  deriving DecidableEq

inductive Notification where
  | turnStarted (loc : Location) (status : Text)
  | itemStarted (loc : Location) (item : Item)
  | itemCompleted (loc : Location) (item : Item)
  | agentMessageDelta (loc : Location) (itemId delta : Text)
  | reasoningSummaryTextDelta (loc : Location) (itemId delta : Text)
  | commandExecutionOutputDelta (loc : Location) (itemId stream delta : Text)
  | toolExecutionOutputDelta (loc : Location) (itemId delta : Text)
  | toolResult (loc : Location) (text toolName : Text)
  | requestApproval (loc : Location) (event approvalId reason : Text)
      (details : List (Text × Json.Value))
  | tokenUsageUpdated (loc : Location) (tokenUsage : List (Text × Int))
  | error (message : Text) (recoverable : Bool)
  | turnCompleted (loc : Location) (status : Text) (errorMessage : Option Text)

/-- The name of the notification. -/
def Notification.event : Notification → String
  | .turnStarted _ _ => "turn/started"
  | .itemStarted _ _ => "item/started"
  | .itemCompleted _ _ => "item/completed"
  | .agentMessageDelta _ _ _ => "item/agentMessage/delta"
  | .reasoningSummaryTextDelta _ _ _ => "item/reasoning/summaryTextDelta"
  | .commandExecutionOutputDelta _ _ _ _ => "item/commandExecution/outputDelta"
  | .toolExecutionOutputDelta _ _ _ => "item/toolExecution/outputDelta"
  | .toolResult _ _ _ => "item/toolResult"
  | .requestApproval _ event _ _ _ => String.ofList event
  | .tokenUsageUpdated _ _ => "thread/tokenUsage/updated"
  | .error _ _ => "error"
  | .turnCompleted _ _ _ => "turn/completed"

/-! ## The adapter -/

structure CodexTurnEventAdapter where
  threadId : Text
  turnId : Text
  inputItems : List Json.Value
  clientUserMessageId : Option Text
  emitUserMessageItem : Bool := true
  userItemEmitted : Bool := false
  agentStarted : Bool := false
  agentCompleted : Bool := false
  agentTextParts : List Text := []
  reasoningStarted : Bool := false
  reasoningTextParts : List Text := []
  reasoningSentLen : Nat := 0
  commands : List (Text × Item) := []
  commandOutput : List (Text × List Text) := []
  toolItems : List (Text × Item) := []

namespace CodexTurnEventAdapter

def init (threadId turnId : Text) (inputItems : List Json.Value)
    (clientUserMessageId : Option Text) (emitUserMessageItem : Bool) : CodexTurnEventAdapter :=
  { threadId, turnId, inputItems, clientUserMessageId, emitUserMessageItem }

variable (a : CodexTurnEventAdapter)

def location : Location := ⟨a.threadId, a.turnId⟩

def agentId : Text := a.turnId ++ ":agent".toList

def reasoningId : Text := a.turnId ++ ":reasoning".toList

def execId (toolCallId : Text) : Text := a.turnId ++ ":exec:".toList ++ toolCallId

def toolId (toolCallId : Text) : Text := a.turnId ++ ":tool:".toList ++ toolCallId

def contextCompactionItem (status : Text) : Item :=
  .contextCompaction (a.turnId ++ ":contextCompaction".toList) status

def onTurnStarted : List Notification × CodexTurnEventAdapter :=
  let started := .turnStarted a.location Item.inProgress
  if a.emitUserMessageItem && !a.userItemEmitted then
    let item := .userMessage (a.turnId ++ ":user".toList) a.inputItems a.clientUserMessageId
    ([started, .itemStarted a.location item, .itemCompleted a.location item],
      { a with userItemEmitted := true })
  else ([started], a)

/-- The agent item is started once. -/
def agentStart : List Notification :=
  if a.agentStarted then [] else [.itemStarted a.location (.agentMessage a.agentId none)]

def onAgentMessageDelta (delta : Text) : List Notification × CodexTurnEventAdapter :=
  (a.agentStart ++ [.agentMessageDelta a.location a.agentId delta],
    { a with agentStarted := true, agentTextParts := a.agentTextParts ++ [delta] })

def onAgentMessage (content : Text) : List Notification × CodexTurnEventAdapter :=
  if a.agentCompleted then ([], a)
  else
    (a.agentStart ++ [.itemCompleted a.location (.agentMessage a.agentId (some content))],
      { a with agentStarted := true, agentCompleted := true })

def onAgentReasoning (content : Text) : List Notification × CodexTurnEventAdapter :=
  ((if a.reasoningStarted then []
      else [.itemStarted a.location (.reasoning a.reasoningId none)]) ++
      [.reasoningSummaryTextDelta a.location a.reasoningId (content.drop a.reasoningSentLen)],
    { a with
      reasoningStarted := true
      reasoningTextParts := [content]
      reasoningSentLen := content.length })

def onExecCommandBegin (toolCallId command cwd source : Text) :
    List Notification × CodexTurnEventAdapter :=
  let item := Item.commandExecutionItem (a.execId toolCallId) command cwd Item.inProgress
    (some source) [] none none
  ([.itemStarted a.location item],
    { a with
      commands := Table.set a.commands toolCallId item
      commandOutput := Table.set a.commandOutput toolCallId [] })

def onExecCommandOutputDelta (toolCallId stream delta : Text) :
    List Notification × CodexTurnEventAdapter :=
  if delta = [] then ([], a)
  else
    ([.commandExecutionOutputDelta a.location (a.execId toolCallId) stream delta],
      { a with
        commandOutput := Table.set a.commandOutput toolCallId
          ((Table.get? a.commandOutput toolCallId).getD [] ++ [delta]) })

def onExecCommandEnd (toolCallId : Text) (exitCode durationMs : Int) :
    List Notification × CodexTurnEventAdapter :=
  match Table.get? a.commands toolCallId with
  | none => ([], a)
  | some item =>
    let aggregated := ((Table.get? a.commandOutput toolCallId).getD []).flatten
    let (command, cwd, source) := item.command
    ([.itemCompleted a.location (Item.commandExecutionItem (a.execId toolCallId) command cwd
      (if exitCode = 0 then Item.completed else "failed".toList) source aggregated
      (some exitCode) (some durationMs))], a)

def onToolCallBegin (toolCallId toolName : Text) (arguments : List (Text × Json.Value)) :
    List Notification × CodexTurnEventAdapter :=
  if toolName = "exec".toList then ([], a)
  else
    let item := Item.toolItem (a.toolId toolCallId) toolName arguments
    ([.itemStarted a.location item],
      { a with toolItems := Table.set a.toolItems toolCallId item })

def onToolCallEnd (toolCallId toolName outputPreview : Text) :
    List Notification × CodexTurnEventAdapter :=
  if toolName = "exec".toList then ([], a)
  else
    match Table.get? a.toolItems toolCallId with
    | none => ([], a)
    | some item =>
      (.itemCompleted a.location (item.finished outputPreview) ::
        (if toolName = "paper_search".toList ∧ outputPreview ≠ [] then
          [.toolResult a.location outputPreview toolName] else []),
        { a with toolItems := Table.remove a.toolItems toolCallId })

def onToolCallOutputDelta (toolCallId delta : Text) :
    List Notification × CodexTurnEventAdapter :=
  let itemId :=
    match Table.get? a.toolItems toolCallId with
    | some item => item.id
    | none => a.toolId toolCallId
  ([.toolExecutionOutputDelta a.location itemId delta], a)

def onApprovalRequested (approvalId category description : Text)
    (details : List (Text × Json.Value)) : List Notification × CodexTurnEventAdapter :=
  if category = "exec".toList then
    ([.requestApproval a.location "item/commandExecution/requestApproval".toList approvalId
      description details], a)
  else if category = "file_write".toList then
    ([.requestApproval a.location "item/fileChange/requestApproval".toList approvalId
      description details], a)
  else ([], a)

def onContextCompacted : List Notification × CodexTurnEventAdapter :=
  ([.itemStarted a.location (a.contextCompactionItem Item.inProgress),
    .itemCompleted a.location (a.contextCompactionItem Item.completed)], a)

def onTurnComplete (outcome : Text) (tokenUsage : List (Text × Int)) :
    List Notification × CodexTurnEventAdapter :=
  let first :=
    if a.reasoningStarted then
      [.itemCompleted a.location (.reasoning a.reasoningId
        (some ((a.reasoningTextParts.getLast?).getD [])))] else []
  let agent :=
    if a.agentStarted && !a.agentCompleted then
      [.itemCompleted a.location (.agentMessage a.agentId (some a.agentTextParts.flatten))]
    else []
  let second :=
    if a.reasoningStarted then
      [.itemCompleted a.location (.reasoning a.reasoningId (some a.reasoningTextParts.flatten))]
    else []
  let usage := if tokenUsage = [] then [] else [.tokenUsageUpdated a.location tokenUsage]
  let status := if outcome = "success".toList then Item.completed else "failed".toList
  (first ++ agent ++ second ++ usage ++ [.turnCompleted a.location status none],
    { a with
      agentCompleted := a.agentCompleted || a.agentStarted
      reasoningStarted := false })

def onTurnAborted : List Notification × CodexTurnEventAdapter :=
  ([.turnCompleted a.location "interrupted".toList none], a)

def onError (message : Text) (recoverable : Bool) : List Notification × CodexTurnEventAdapter :=
  (.error message recoverable ::
    (if recoverable then []
    else [.turnCompleted a.location "failed".toList
      (if message = [] then none else some message)]), a)

def project : Event → List Notification × CodexTurnEventAdapter
  | .turnStarted => a.onTurnStarted
  | .agentMessageDelta delta => a.onAgentMessageDelta delta
  | .agentMessage content => a.onAgentMessage content
  | .agentReasoning content => a.onAgentReasoning content
  | .execCommandBegin toolCallId command cwd source =>
    a.onExecCommandBegin toolCallId command cwd source
  | .execCommandOutputDelta toolCallId stream delta =>
    a.onExecCommandOutputDelta toolCallId stream delta
  | .execCommandEnd toolCallId exitCode durationMs =>
    a.onExecCommandEnd toolCallId exitCode durationMs
  | .toolCallBegin toolCallId toolName arguments => a.onToolCallBegin toolCallId toolName arguments
  | .toolCallEnd toolCallId toolName outputPreview =>
    a.onToolCallEnd toolCallId toolName outputPreview
  | .toolCallOutputDelta toolCallId delta => a.onToolCallOutputDelta toolCallId delta
  | .approvalRequested approvalId category description details =>
    a.onApprovalRequested approvalId category description details
  | .contextCompacted => a.onContextCompacted
  | .turnComplete outcome tokenUsage => a.onTurnComplete outcome tokenUsage
  | .turnAborted => a.onTurnAborted
  | .error message recoverable => a.onError message recoverable
  | .other => ([], a)

end CodexTurnEventAdapter

end MiqroForge.Turns
