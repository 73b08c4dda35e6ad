import MiqroForge.Library.PyText
import MiqroForge.Messages.Context

/-!
`ContextCompressor`: old tool results are pruned, a tail within the token budget is kept as it
is, and what is before it becomes a summary, which the next compression starts from. Messages
here are rows of the history, whose content is text.
-/

namespace MiqroForge.Messages

open PyText

def minSummaryTokens : Nat := 2000
def summaryTokensCeiling : Nat := 12000
def contentMax : Nat := 6000
def contentHead : Nat := 4000
def contentTail : Nat := 1500
def toolArgsMax : Nat := 1500
def failureCooldown : Int := 600
def headProtectMsgs : Nat := 4

def initialSummaryPrompt (conversation : String) : String :=
  "You are summarizing a conversation between a user and an AI assistant. " ++
  "Create a structured summary that preserves all critical information needed " ++
  "to continue the task. Focus on what was accomplished, what decisions were made, " ++
  "what files were created/modified, and what still needs to be done.\n\n" ++
  "Use this exact structure:\n## CONVERSATION SUMMARY\n\n" ++
  "**Goal:** [1-2 sentences describing the overall task/goal]\n\n" ++
  "**Progress:**\n[Bullet points of what has been accomplished so far]\n\n" ++
  "**Key Decisions:**\n[Important decisions made during the conversation]\n\n" ++
  "**Files & Resources Created/Modified:**\n" ++
  "[List of files created, modified, or that are important to the task]\n\n" ++
  "**Next Steps:**\n[What still needs to be done to complete the task]\n\n" ++
  "**Critical Context:**\n" ++
  "[Any other critical information needed to continue effectively]\n\n" ++
  "**Tools & Patterns Used:**\n[Key tools used and successful approaches/patterns discovered]\n\n" ++
  "Conversation to summarize:\n" ++ conversation

def updateSummaryPrompt (previousSummary newTurns : String) : String :=
  "You are updating a conversation summary with new information from recent turns. " ++
  "Merge the new information into the existing summary, updating all sections as needed. " ++
  "Preserve all critical information from the previous summary unless it has been superseded." ++
  "\n\nPREVIOUS SUMMARY:\n" ++ previousSummary ++
  "\n\nNEW TURNS TO INCORPORATE:\n" ++ newTurns ++
  "\n\nProduce an updated summary using the same structure as the previous one."

/-- The compressor, with what it carries from one compression to the next. -/
structure Compressor where
  llmCall : String → String → Except String String
  contextLimitChars : Nat := 0
  lastFailureTime : Int := 0
  previousSummary : String := ""

/-! ## Sizes -/

section Cut
variable (callsJson : List CallEntry → Nat)

/-- `_msg_chars`; `callsJson` is the length of `json.dumps` of the tool calls. -/
def msgChars (m : Message) : Nat :=
  (m.content.getD "").length + if m.toolCalls = [] then 0 else callsJson m.toolCalls

/-- `int(chars / 2.5)`. -/
def charTokens (chars : Nat) : Nat := 2 * chars / 5

def msgTokens (m : Message) : Nat := charTokens (msgChars callsJson m)

def prunedResult (m : Message) : Message :=
  { role := .tool, toolCallId := some (m.toolCallId.getD ""), name := some (m.name.getD ""),
    content := some "[tool result pruned to save context]" }

/-- `_prune_old_tool_results`, from the newest message on. -/
def pruneOldToolResults (budget : Nat) : List Message → Nat × List Message
  | [] => (0, [])
  | m :: rest =>
    let (tokens, out) := pruneOldToolResults budget rest
    let tokens := tokens + msgTokens callsJson m
    (tokens, (if budget < tokens ∧ m.role = .tool then prunedResult m else m) :: out)

/-! ## The tail -/

def isToolAt (messages : List Message) (i : Nat) : Bool :=
  match messages[i]? with
  | some m => m.role = .tool
  | none => false

/-- The first loop of `_align_boundary_backward`. -/
def backToCall (messages : List Message) : Nat → Nat
  | 0 => 0
  | i + 1 => if isToolAt messages (i + 1) then backToCall messages i else i + 1

/-- The second one. -/
def backOverTools (messages : List Message) : Nat → Nat
  | 0 => 0
  | i + 1 => if isToolAt messages i then backOverTools messages i else i + 1

def alignBoundaryBackward (messages : List Message) (i : Nat) : Nat :=
  backOverTools messages (backToCall messages i)

/-- The loop of `_find_tail_cut_by_tokens`, with the first `n` messages before it. -/
def tailLoop (budget : Nat) (messages : List Message) : Nat → Nat → Nat → Nat
  | 0, _, split => split
  | i + 1, tokens, split =>
    let size := (messages[i]?.map (msgTokens callsJson)).getD 0
    if budget * 3 / 2 < tokens + size ∧ split < messages.length then split
    else if budget ≤ tokens + size ∧ 0 < i then alignBoundaryBackward messages i
    else tailLoop budget messages i (tokens + size) i

/-- `_find_tail_cut_by_tokens`. -/
def findTailCut (budget : Nat) (messages : List Message) : Nat :=
  min (tailLoop callsJson budget messages messages.length 0 messages.length)
    (messages.length - 3)

def tailTokenBudget (limit : Nat) (nonSystem : List Message) : Nat :=
  let total :=
    if 0 < limit then charTokens limit
    else charTokens ((nonSystem.map (msgChars callsJson)).foldl (· + ·) 0)
  max (min (total / 5) summaryTokensCeiling) minSummaryTokens

/-- What a compression keeps and what it summarises. -/
structure Plan where
  systemMsgs : List Message
  toSummarise : List Message
  tail : List Message

/-- Phases 1 to 3; `none` when there is nothing to compress. -/
def plan (limit : Nat) (messages : List Message) : Option Plan :=
  let nonSystem := (pruneOldToolResults callsJson 8000
    (messages.filter (·.role ≠ .system))).2
  let head := nonSystem.take headProtectMsgs
  let body := nonSystem.drop headProtectMsgs
  if body = [] then none
  else
    let tailStart := findTailCut callsJson (tailTokenBudget callsJson limit nonSystem) body
    let middle := body.take tailStart
    if middle = [] then none
    else some ⟨messages.filter (·.role = .system), head ++ middle, body.drop tailStart⟩

end Cut

/-! ## The summary -/

def Role.text : Role → String
  | .system => "system"
  | .user => "user"
  | .assistant => "assistant"
  | .tool => "tool"
  | .other name => name

def cutContent (content : String) : String :=
  let t := content.toList
  if contentMax < t.length then
    String.ofList (t.take contentHead) ++ "\n...[truncated]...\n" ++
      String.ofList (t.drop (t.length - contentTail))
  else content

def cutArgs (args : String) : String :=
  if toolArgsMax < args.length then
    String.ofList (args.toList.take toolArgsMax) ++ "...[truncated]"
  else args

def callText (tc : CallEntry) : String :=
  match tc with
  | .call _ name arguments => "\n  → " ++ name ++ "(" ++ cutArgs arguments ++ ")"
  | .other => "\n  → ?(\x7b\x7d)"

/-- The parts one message adds. -/
def serializeMessage (m : Message) : List String :=
  let content := cutContent (m.content.getD "")
  if m.role = .assistant ∧ m.toolCalls ≠ [] then
    ("[assistant]" ++ String.join (m.toolCalls.map callText)) ::
      if content = "" then [] else ["  text: " ++ content]
  else if m.role = .tool then ["[tool:" ++ m.name.getD "" ++ "] " ++ content]
  else ["[" ++ m.role.text ++ "] " ++ content]

def serializeForSummary (messages : List Message) : String :=
  String.intercalate "\n\n" (messages.flatMap serializeMessage)

def fence : Text := ['\x60', '\x60', '\x60']

/-- `"\n".join(f(text.split("\n")))`. -/
def onLines (f : List Text → List Text) (t : Text) : Text :=
  List.intercalate ['\n'] (f (t.splitOn '\n'))

/-- The answer without a code fence around it. -/
def stripFences (answer : String) : String :=
  let t := strip answer.toList
  let t := if fence.isPrefixOf t then onLines (List.drop 1) t else t
  let t := if fence.isSuffixOf t then onLines List.dropLast t else t
  String.ofList (strip t)

/-- The prompt that asks for the summary of these messages. -/
def summaryPrompt (c : Compressor) (messages : List Message) : String :=
  if c.previousSummary ≠ "" then
    updateSummaryPrompt c.previousSummary (serializeForSummary messages)
  else initialSummaryPrompt (serializeForSummary messages)

def generateSummary (c : Compressor) (messages : List Message) (model : String) :
    Except String String × Compressor :=
  match c.llmCall (summaryPrompt c messages) model with
  | .error e => (.error e, c)
  | .ok answer =>
    let summary := stripFences answer
    (.ok summary, { c with previousSummary := summary })

/-! ## Tool pairs -/

/-- The ids of an assistant message's calls that are not empty. -/
def callIds (m : Message) : List String :=
  if m.role = .assistant ∧ m.toolCalls ≠ [] then
    ((tcIds m).map (·.getD "")).filter (· ≠ "")
  else []

def resultId (m : Message) : Option String :=
  if m.role = .tool then m.toolCallId.filter (· ≠ "") else none

def stubResult (id : String) : Message :=
  { role := .tool, toolCallId := some id,
    content := some "[result not available — context was compressed]" }

def sanitizeToolPairs (messages : List Message) : List Message :=
  let results := messages.filterMap resultId
  let calls := messages.flatMap callIds
  messages.flatMap fun m =>
    if m.role = .tool then if m.toolCallId.getD "" ∈ calls then [m] else []
    else m :: ((callIds m).filter (· ∉ results)).map stubResult

/-! ## Compressing -/

def summaryMsg (summary : String) : Message :=
  { role := .system
    content := some ("[CONTEXT SUMMARY — earlier conversation compressed]\n\n" ++ summary) }

section Compress
variable (callsJson : List CallEntry → Nat)

def compressImpl (c : Compressor) (messages : List Message) (model : String) :
    Except String (List Message) × Compressor :=
  match plan callsJson c.contextLimitChars messages with
  | none => (.ok messages, c)
  | some p =>
    match generateSummary c p.toSummarise model with
    | (.error e, c') => (.error e, c')
    | (.ok summary, c') =>
      (.ok (sanitizeToolPairs (p.systemMsgs ++ [summaryMsg summary] ++ p.tail)), c')

/-- `compress`, begun at `now`; a failure is noted at `failedAt`. -/
def compress (c : Compressor) (now failedAt : Int) (messages : List Message) (model : String) :
    List Message × Compressor :=
  if now - c.lastFailureTime < failureCooldown then (messages, c)
  else if messages.length < 6 then (messages, c)
  else
    match compressImpl callsJson c messages model with
    | (.ok result, c') => (result, c')
    | (.error _, c') => (messages, { c' with lastFailureTime := failedAt })

end Compress

end MiqroForge.Messages
