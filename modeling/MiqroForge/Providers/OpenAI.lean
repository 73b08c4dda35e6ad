import MiqroForge.Library.Table
import MiqroForge.Providers.Response

/-!
How `OpenAIProvider` reads a chat completion: `_parse_response` for a whole message, and
`stream_chat` for the same message in chunks.
-/

namespace MiqroForge.Providers.OpenAI

open PyText Json

/-! ## Arguments -/

/-- `value or ""`. -/
def orEmpty (value : Option Text) : Text := value.getD []

/-- `value or None`. -/
def orNone (value : Option Text) : Option Text := value.filter fun t => !t.isEmpty

/-- `_args_strict_ok` of a string. -/
def argsStrictOk (raw : Text) : Bool := !raw.isEmpty && (Json.parse raw).isSome

section Parse
variable (repair : Text → Value)

/-- `_parse_tool_call_arguments` of a string; `repair` is `json_repair.loads`. -/
def parseToolCallArguments (args : Text) : List (Text × Value) :=
  if args = [] then []
  else
    match (Json.parse args).getD (repair args) with
    | .obj fields => fields
    | _ =>
      match repair args with
      | .obj fields => fields
      | _ => []

/-! ## A whole message -/

structure CompletionCall where
  id : Text
  name : Text
  arguments : Text

structure Completion where
  content : Option Text
  reasoning : Option Text := none
  toolCalls : List CompletionCall := []
  finishReason : Option Text := none
  usage : Option Usage := none

def fallbackId : Text := "tool_call_fallback_1".toList

/-- The arguments of a function of the second form. -/
def functionArguments : Option Value → Option (List (Text × Value))
  | some (.str raw) =>
    match Json.parse raw with
    | some (.obj fields) => some fields
    | some _ => none
    | none => some [("raw".toList, .str raw)]
  | some (.obj fields) => some fields
  | _ => none

/-- The call that a decoded value of the content stands for. -/
def callOf (obj : List (Text × Value)) : Option ToolCallRequest :=
  match Table.get? obj "name".toList, Table.get? obj "arguments".toList with
  | some (.str name), some (.obj arguments) => some { id := fallbackId, name, arguments }
  | _, _ =>
    match Table.get? obj "function".toList with
    | some (.obj function) =>
      match Table.get? function "name".toList with
      | some (.str name) =>
        (functionArguments (Table.get? function "arguments".toList)).map fun arguments =>
          { id := fallbackId, name, arguments }
      | _ => none
    | _ => none

/-- `decoder.raw_decode(content)`. -/
def rawDecode (content : Text) : Option Value :=
  (Json.parseValue (content.length + 1) content).map Prod.fst

def parseToolCallFromContent : Text → Option ToolCallRequest
  | [] => none
  | c :: rest =>
    let found :=
      if c = '\x7b' then
        match rawDecode (c :: rest) with
        | some (.obj obj) => callOf obj
        | _ => none
      else none
    found.or (parseToolCallFromContent rest)

def parseResponse (message : Completion) : LLMResponse :=
  let finish := (orNone message.finishReason).getD "stop".toList
  let toolCalls := message.toolCalls.map fun tc =>
    { id := tc.id
      name := tc.name
      arguments := parseToolCallArguments repair tc.arguments
      truncated := finish == "length".toList && !argsStrictOk tc.arguments }
  let fallback :=
    if toolCalls.isEmpty then message.content.bind parseToolCallFromContent else none
  { content := message.content
    toolCalls := toolCalls ++
      (fallback.map fun call => { call with truncated := finish == "length".toList }).toList
    finishReason := finish
    usage := message.usage
    reasoningContent := orNone message.reasoning }

/-! ## Chunks -/

/-- An element of `delta.tool_calls`. -/
structure CallFragment where
  index : Nat
  id : Option Text := none
  name : Option Text := none
  arguments : Option Text := none

structure Choice where
  content : Option Text := none
  reasoning : Option Text := none
  toolCalls : List CallFragment := []
  finishReason : Option Text := none

structure Chunk where
  choice : Option Choice := none
  usage : Option Usage := none

inductive StreamEvent where
  | contentDelta (delta : Text)
  | reasoningDelta (delta : Text)
  | completed (response : LLMResponse)

structure AccumulatedCall where
  id : Text := []
  name : Text := []
  arguments : Text := []

def AccumulatedCall.add (acc : AccumulatedCall) (tc : CallFragment) : AccumulatedCall where
  id := if orEmpty tc.id = [] then acc.id else orEmpty tc.id
  name := acc.name ++ orEmpty tc.name
  arguments := acc.arguments ++ orEmpty tc.arguments

def addFragment (accum : List (Nat × AccumulatedCall)) (tc : CallFragment) :
    List (Nat × AccumulatedCall) :=
  Table.set accum tc.index (((Table.get? accum tc.index).getD {}).add tc)

structure StreamState where
  events : List StreamEvent := []
  contentParts : List Text := []
  reasoningParts : List Text := []
  toolCallAccum : List (Nat × AccumulatedCall) := []
  finishReason : Option Text := none
  usage : Option Usage := none

/-- One chunk; usage is read only where there is no choice. -/
def StreamState.chunk (st : StreamState) (chunk : Chunk) : StreamState :=
  match chunk.choice with
  | none => { st with usage := chunk.usage.or st.usage }
  | some choice =>
    let content := (orNone choice.content).toList
    let reasoning := (orNone choice.reasoning).toList
    { events := st.events ++ content.map StreamEvent.contentDelta ++
        reasoning.map StreamEvent.reasoningDelta
      contentParts := st.contentParts ++ content
      reasoningParts := st.reasoningParts ++ reasoning
      toolCallAccum := choice.toolCalls.foldl addFragment st.toolCallAccum
      finishReason := (orNone choice.finishReason).or st.finishReason
      usage := st.usage }

/-- The accumulated calls, sorted by index. -/
def StreamState.calls (st : StreamState) : List AccumulatedCall :=
  ((st.toolCallAccum.map Prod.fst).mergeSort (· ≤ ·)).map fun idx =>
    (Table.get? st.toolCallAccum idx).getD {}

def StreamState.response (st : StreamState) : LLMResponse where
  content := orNone (some st.contentParts.flatten)
  toolCalls := st.calls.map fun acc =>
    { id := acc.id
      name := acc.name
      arguments := parseToolCallArguments repair acc.arguments
      truncated := st.finishReason == some "length".toList && !argsStrictOk acc.arguments }
  finishReason := st.finishReason.getD "stop".toList
  usage := st.usage
  reasoningContent := orNone (some st.reasoningParts.flatten)

/-- `stream_chat` over the chunks of a stream that neither fails nor times out. -/
def streamChat (chunks : List Chunk) : List StreamEvent :=
  let st := chunks.foldl StreamState.chunk {}
  st.events ++ [.completed (st.response repair)]

end Parse

end MiqroForge.Providers.OpenAI
