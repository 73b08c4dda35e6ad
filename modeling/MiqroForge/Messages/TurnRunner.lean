import MiqroForge.Library.PyText
import MiqroForge.Messages.Trim

/-!
`TurnRunner._run_impl`: the model and tool loop of one turn. Three gates sort the
calls of a response into refused (truncated arguments), skipped (fast-mode budget)
and executed ones. The assistant echo names the executed and the refused calls,
the tool messages answer all three, so a skipped call is answered but never named.
-/

namespace MiqroForge.Messages

structure ToolCallRequest where
  id : String
  name : String
  arguments : String := ""
  truncated : Bool := false
  deriving DecidableEq, Repr

structure LLMResponse where
  content : Option String := none
  toolCalls : List ToolCallRequest := []
  finishReason : String := "stop"
  reasoningContent : Option String := none
  usage : List (String × Nat) := []
  deriving Repr

def LLMResponse.hasToolCalls (r : LLMResponse) : Bool := !r.toolCalls.isEmpty

/-- What `stream_chat` yields. -/
inductive StreamEvent where
  | contentDelta (delta : String)
  | reasoningDelta (delta : String)
  | completed (response : LLMResponse)
  deriving Repr

/-- The result fields of a `ToolExecutionContext`. -/
structure ToolContext where
  toolCallId : String := ""
  result : Option String := none
  durationMs : Nat := 0
  retryCount : Nat := 0
  permissionVerdict : Option String := none
  sandboxType : Option String := none
  deriving DecidableEq, Repr

/-- A message of the steer queue. -/
structure Steer where
  content : String
  clientUserMessageId : Option String := none
  inputItems : List String := []
  deriving DecidableEq, Repr

/-- What the surroundings do in one pass of the loop: the cancel event at its head
and at each stream event, the clock, the stream, the steer queue and the tools. -/
structure Round where
  cancelled : Bool := false
  now : Int := 0
  stream : List (Bool × StreamEvent)
  streamError : Option String := none
  steers : List Steer := []
  executeOne : Nat → ToolCallRequest → Except String ToolContext := fun _ tc =>
    .ok { toolCallId := tc.id }

inductive LedgerItem where
  | assistantDelta (content : String) (index : Nat)
  | reasoningDelta (content : String)
  | toolCallStarted (tc : ToolCallRequest)
  | toolCallCompleted (ctx : ToolContext)
  deriving DecidableEq, Repr

inductive RunError where
  | cancelled
  | provider (message : String)
  | tool (message : String)
  deriving DecidableEq, Repr

structure TurnResult where
  finalContent : String
  messages : List Message
  toolsUsed : List String
  tokenUsage : List (String × Nat) := []
  messagesDelta : List Message := []
  reasoning : Option String := none
  deriving Repr

/-- A run that returned: its result and the ledger items it wrote. -/
structure Returned where
  result : TurnResult
  ledger : List LedgerItem

/-- The text functions, the token estimate and the settings a run depends on. -/
structure RunEnv where
  sanitizeToolCallText : String → String × Bool := fun s => (s, false)
  stripLeakNotice : String → String := id
  dropLeakNotice : String → String := id
  buildExhaustionDiagnosis : List Message → String := fun _ => ""
  estimateTokens : List Message → Nat := fun _ => 0
  hardLimit : Nat := 0
  sessionMaxIterations : Nat := 20
  ledger : Bool := true

/-- The arguments of one run. -/
structure Turn where
  userContent : String
  systemPrompt : String
  history : List Message := []
  reasoningMode : Option String := none
  maxTokens : Nat := 8192
  maxIterations : Option Nat := none
  turnT0 : Int := 0

structure LoopState where
  messages : List Message
  messagesDelta : List Message := []
  toolsUsed : List String := []
  toolTextLeaked : Bool := false
  reasoningParts : List String := []
  finalizing : Bool := false
  searchPhases : Nat := 0
  emptyResponseNudges : Nat := 0
  ledger : List LedgerItem := []

/-! ## Building messages -/

/-- `x or None` on strings. -/
def truthy (s : Option String) : Option String := s.filter (· ≠ "")

def buildInitialMessages (turn : Turn) : List Message :=
  { role := .system, content := some turn.systemPrompt } :: turn.history ++
    [{ role := .user, content := some turn.userContent }]

def addAssistantMessage (messages : List Message) (content : String)
    (toolCalls : List CallEntry) (reasoningContent : Option String) : List Message :=
  messages ++ [{ role := .assistant, content := some content, toolCalls := toolCalls,
                 reasoningContent := truthy reasoningContent }]

def toolMessage (tc : ToolCallRequest) (result : Option String) : Message :=
  { role := .tool, toolCallId := some tc.id, name := some tc.name,
    content := some (result.getD ""), arguments := some tc.arguments }

def addToolResult (messages : List Message) (tc : ToolCallRequest) (result : Option String) :
    List Message :=
  messages ++ [toolMessage tc result]

def steerMessage (steer : Steer) : Message :=
  { role := .user, content := some steer.content }

def steerDelta (steer : Steer) : Message :=
  { role := .user, content := some steer.content,
    clientUserMessageId := steer.clientUserMessageId, inputItems := steer.inputItems }

/-! ## The stream -/

structure Streamed where
  response : Option LLMResponse := none
  contentParts : List String := []
  reasoningParts : List String := []
  ledger : List LedgerItem := []

def streamStep (st : Streamed) : StreamEvent → Streamed
  | .contentDelta d =>
    { st with contentParts := st.contentParts ++ [d]
              ledger := st.ledger ++ [.assistantDelta d st.contentParts.length] }
  | .reasoningDelta d =>
    { st with reasoningParts := st.reasoningParts ++ [d]
              ledger := st.ledger ++ [.reasoningDelta d] }
  | .completed r => { st with response := some r }

/-- The events of one provider call, the cancel event read at each. -/
def readStream : Streamed → List (Bool × StreamEvent) → Except RunError Streamed
  | st, [] => .ok st
  | _, (true, _) :: _ => .error .cancelled
  | st, (false, e) :: rest => readStream (streamStep st e) rest

/-- The completed response, or the deltas put together when none completed. -/
def Streamed.assemble (st : Streamed) : LLMResponse :=
  match st.response with
  | some r => r
  | none => { content := some (String.join st.contentParts) }

def Streamed.reasoningContent (st : Streamed) : Option String :=
  match truthy st.assemble.reasoningContent with
  | some s => some s
  | none => truthy (some (String.join st.reasoningParts))

/-! ## The gates -/

/-- `_budget_skip_reason`, with the search phase count it leaves. -/
def budgetSkipReason (finalizing : Bool) (searchPhases : Nat) (toolName : String) :
    Option String × Nat :=
  if finalizing then (some "时间预算已到（极速模式收尾阶段，不再调用工具）", searchPhases)
  else if toolName = "web_search" then
    if searchPhases ≥ 1 then (some "极速模式搜索预算已用尽（最多一轮搜索）", searchPhases)
    else (none, searchPhases + 1)
  else (none, searchPhases)

structure Gated where
  kept : List ToolCallRequest := []
  skipped : List (ToolCallRequest × String) := []
  searchPhases : Nat
  deriving Repr

/-- The fast-mode budget gate over the calls of one response. -/
def budgetGate (finalizing : Bool) : Nat → List ToolCallRequest → Gated
  | n, [] => { searchPhases := n }
  | n, tc :: rest =>
    match budgetSkipReason finalizing n tc.name with
    | (some reason, n') =>
      let g := budgetGate finalizing n' rest
      { g with skipped := (tc, "[跳过] " ++ reason) :: g.skipped }
    | (none, n') =>
      let g := budgetGate finalizing n' rest
      { g with kept := tc :: g.kept }

theorem budgetGate_nil (finalizing : Bool) (n : Nat) :
    budgetGate finalizing n [] = { searchPhases := n } := rfl

theorem budgetGate_cons (finalizing : Bool) (n : Nat) (tc : ToolCallRequest)
    (rest : List ToolCallRequest) :
    budgetGate finalizing n (tc :: rest) =
      match budgetSkipReason finalizing n tc.name with
      | (some reason, n') =>
        { budgetGate finalizing n' rest with
          skipped := (tc, "[跳过] " ++ reason) :: (budgetGate finalizing n' rest).skipped }
      | (none, n') =>
        { budgetGate finalizing n' rest with kept := tc :: (budgetGate finalizing n' rest).kept } :=
  rfl

/-- The fast-mode gate, and the identity in every other mode. -/
def gate (fast finalizing : Bool) (searchPhases : Nat) (calls : List ToolCallRequest) : Gated :=
  if fast then budgetGate finalizing searchPhases calls
  else { kept := calls, searchPhases := searchPhases }

def truncationNotice (maxTokens : Nat) : String :=
  "⚠️ 该工具调用未执行：模型单次输出达到上限（max_tokens=" ++ toString maxTokens ++
  "）被截断，参数不完整；执行残缺参数可能造成错误动作。请减小单次参数体积后重试（例如分片写入、或先写文件再传路径）。"

/-- `execute_many`: one context a call, or the first failure. -/
def executeMany (r : Round) (calls : List ToolCallRequest) : Except String (List ToolContext) :=
  calls.zipIdx.mapM fun (tc, i) => r.executeOne i tc

def callEntry (tc : ToolCallRequest) : CallEntry := .call (some tc.id) tc.name tc.arguments

/-! ## One pass -/

inductive PassOutcome where
  | next (s : LoopState)
  | stop (s : LoopState)
  | done (result : TurnResult) (ledger : List LedgerItem)
  | raise (e : RunError)

section Pass
variable (env : RunEnv) (turn : Turn)

def Turn.fast : Bool := turn.reasoningMode == some "fast"

/-- The assistant echo names the executed calls and, behind them, the refused ones. -/
def echoCalls (g : Gated) (truncated : List ToolCallRequest) : List ToolCallRequest :=
  g.kept ++ truncated

/-- The tool messages: executed, skipped, refused. -/
def resultMessages (g : Gated) (contexts : List ToolContext) (truncated : List ToolCallRequest)
    (refusal : String) : List Message :=
  (g.kept.zip contexts).map (fun p => toolMessage p.1 p.2.result) ++
    g.skipped.map (fun p => toolMessage p.1 (some p.2)) ++
    truncated.map fun tc => toolMessage tc (some refusal)

def echoContent (response : LLMResponse) : String :=
  let clean := env.sanitizeToolCallText (response.content.getD "")
  if clean.2 then env.dropLeakNotice clean.1 else clean.1

def toolLedger (response : LLMResponse) (contexts : List ToolContext)
    (truncated : List ToolCallRequest) (refusal : String) : List LedgerItem :=
  if env.ledger then
    response.toolCalls.map .toolCallStarted ++ contexts.map .toolCallCompleted ++
      truncated.map fun tc =>
        .toolCallCompleted { toolCallId := tc.id, result := some refusal }
  else []

/-- A response with tool calls: gates, execution, echo and results. -/
def handleToolCalls (r : Round) (response : LLMResponse) (reasoning : Option String)
    (s : LoopState) : PassOutcome :=
  let truncated := response.toolCalls.filter (·.truncated)
  let intact := response.toolCalls.filter (!·.truncated)
  let g := gate turn.fast s.finalizing s.searchPhases intact
  match executeMany r g.kept with
  | .error e => .raise (.tool e)
  | .ok contexts =>
    let refusal := truncationNotice turn.maxTokens
    let echo := echoCalls g truncated
    let refusedIds := truncated.map (·.id)
    let content := echoContent env response
    let results := resultMessages g contexts truncated refusal
    .next { s with
      messages := addAssistantMessage s.messages content (echo.map callEntry) reasoning ++ results
      messagesDelta := s.messagesDelta ++
        { role := .assistant, content := truthy (some content), toolCalls := echo.map callEntry,
          reasoningContent := reasoning } :: results
      toolsUsed := s.toolsUsed ++ (echo.filter (fun tc => tc.id ∉ refusedIds)).map (·.name)
      searchPhases := g.searchPhases
      ledger := s.ledger ++ toolLedger env response contexts truncated refusal }

def emptyResponseNudgeLimit : Nat := 2

def emptyResponseNudge : String :=
  "（系统提示）你上一轮只输出了思考内容，没有给出回答或工具调用。" ++
  "请直接给出最终回答或下一步工具调用，不要重复思考过程。"

def toolCallTextFeedback : String :=
  "你刚才把工具调用写成了普通文本（如 functions.xxx(...)），" ++
  "它没有被执行。请改用工具调用接口重新发起，不要把它写成文字。"

/-- The reasoning of all passes in one text. -/
def mergedReasoning (parts : List String) : Option String :=
  truthy (some (String.ofList (PyText.strip (String.intercalate "\n\n---\n\n" parts).toList)))

/-- A response without tool calls: steering, nudge, leaked call text, or the answer. -/
def handleText (r : Round) (response : LLMResponse) (reasoning : Option String)
    (s : LoopState) : PassOutcome :=
  let content := response.content.getD ""
  let clean := env.sanitizeToolCallText content
  if r.steers ≠ [] then
    .next { s with
      messages := addAssistantMessage s.messages clean.1 [] reasoning ++ r.steers.map steerMessage
      messagesDelta := s.messagesDelta ++
        { role := .assistant, content := some (env.stripLeakNotice clean.1),
          reasoningContent := reasoning, reasoningMode := truthy turn.reasoningMode } ::
        r.steers.map steerDelta }
  else if PyText.isBlank content.toList then
    if s.emptyResponseNudges < emptyResponseNudgeLimit then
      .next { s with
        messages := addAssistantMessage s.messages "" [] reasoning ++
          [{ role := .user, content := some emptyResponseNudge }]
        emptyResponseNudges := s.emptyResponseNudges + 1 }
    else
      .raise (.provider
        "模型连续多轮只输出思考内容、未给出回答。请重试，或更换模型/关闭深度思考。")
  else if clean.2 then
    .next { s with
      messages := addAssistantMessage s.messages clean.1 [] none ++
        [{ role := .user, content := some toolCallTextFeedback }]
      messagesDelta := s.messagesDelta ++
        [{ role := .assistant, content := some (env.stripLeakNotice clean.1) }]
      toolTextLeaked := true }
  else
    let merged := mergedReasoning s.reasoningParts
    .done {
      finalContent := clean.1
      messages := addAssistantMessage s.messages clean.1 [] merged
      toolsUsed := s.toolsUsed
      tokenUsage := response.usage
      messagesDelta := s.messagesDelta ++
        [{ role := .assistant, content := some (env.stripLeakNotice clean.1),
           reasoningContent := merged, reasoningMode := truthy turn.reasoningMode }]
      reasoning := merged } s.ledger

def budgetS : Int := 30
def graceS : Int := 5

def Turn.finalizeAt : Int := turn.turnT0 + budgetS - graceS
def Turn.hardStopAt : Int := turn.turnT0 + budgetS

def finalizingMessage : Message :=
  { role := .system
    content := some ("[极速模式收尾] 时间预算即将用完：请不要再调用任何工具，" ++
      "用已获得的信息完成请求并直接给出最终回答；明确说明已完成的部分与未能完成的部分，" ++
      "绝不要假装未完成的动作成功。") }

/-- The time fuse between two passes, below the hard stop. -/
def fuse (now : Int) (s : LoopState) : LoopState :=
  if turn.fast ∧ turn.finalizeAt ≤ now ∧ s.finalizing = false then
    { s with finalizing := true, messages := s.messages ++ [finalizingMessage] }
  else s

/-- One pass of the loop body. -/
def pass (r : Round) (s : LoopState) : PassOutcome :=
  if r.cancelled then .raise .cancelled
  else if turn.fast ∧ turn.hardStopAt ≤ r.now then .stop s
  else
    let s := fuse turn r.now s
    let s := { s with messages := trimForModel env.estimateTokens env.hardLimit s.messages }
    match readStream {} r.stream, r.streamError with
    | .error e, _ => .raise e
    | .ok _, some e => .raise (.provider e)
    | .ok st, none =>
      let response := st.assemble
      if response.finishReason = "error" then
        .raise (.provider ((truthy response.content).getD "Provider error"))
      else
        let reasoning := st.reasoningContent
        let s := { s with
          reasoningParts := s.reasoningParts ++ reasoning.toList
          ledger := s.ledger ++ if env.ledger then st.ledger else [] }
        if response.hasToolCalls then handleToolCalls env turn r response reasoning s
        else handleText env turn r response reasoning s

/-! ## The run -/

def Turn.effectiveIterations : Nat :=
  let n := match turn.maxIterations with
    | some (m + 1) => m + 1
    | _ => env.sessionMaxIterations
  if turn.fast then min n 3 else n

def usedTools (s : LoopState) : String :=
  match s.toolsUsed with
  | [] => "无"
  | used => String.intercalate ", " used.eraseDups

/-- The content of the last assistant message that has one. -/
def lastAssistantContent (messages : List Message) : String :=
  (messages.reverse.findSome? fun m =>
    if m.role = .assistant then truthy m.content else none).getD ""

def exhaustedContent (s : LoopState) : String :=
  if turn.fast then
    let last := lastAssistantContent s.messages
    "【极速模式】已到达轮数/时间预算，本轮到此为止。已使用工具：" ++ usedTools s ++ "。" ++
      if last = "" then "" else "\n\n" ++ last
  else
    "已达到最大迭代次数（" ++ toString (turn.effectiveIterations env) ++ "）。已使用工具：" ++
      usedTools s ++ "。请将任务拆分为更小的步骤重试。\n\n【失败诊断】\n" ++
      env.buildExhaustionDiagnosis s.messages ++
      if s.toolTextLeaked then
        "\n\n另外，模型多次把工具调用写成了文本（如 functions.xxx(...)），" ++
        "这些调用未被执行。请重试或换一种表述。"
      else ""

/-- The loop ended without an answer: the notice is persisted, the message list stays. -/
def exhausted (s : LoopState) : Returned :=
  let content := exhaustedContent env turn s
  { result :=
      { finalContent := content
        messages := s.messages
        toolsUsed := s.toolsUsed
        messagesDelta := s.messagesDelta ++ [{ role := .assistant, content := some content }] }
    ledger := s.ledger }

/-- The loop with `n` passes left, on the rounds it goes through; `none` when the
rounds are not exactly the ones it goes through. -/
def runLoop : Nat → List Round → LoopState → Option (Except RunError Returned)
  | 0, [], s => some (.ok (exhausted env turn s))
  | 0, _ :: _, _ => none
  | _ + 1, [], _ => none
  | n + 1, r :: rest, s =>
    match pass env turn r s with
    | .next s' => runLoop n rest s'
    | .stop s' => if rest.isEmpty then some (.ok (exhausted env turn s')) else none
    | .done result ledger => if rest.isEmpty then some (.ok ⟨result, ledger⟩) else none
    | .raise e => if rest.isEmpty then some (.error e) else none

/-- `_run_impl` on the rounds of one turn. -/
def runImpl (rounds : List Round) : Option (Except RunError Returned) :=
  runLoop env turn (turn.effectiveIterations env) rounds
    { messages := buildInitialMessages turn }

end Pass

end MiqroForge.Messages
