import MiqroForge.Library.PyRepr

/-!
The messages `AnthropicProvider` sends: `_sanitize_empty_content`, the converters of
`_extract_system_and_messages`, and `_merge_consecutive_same_role`.
-/

namespace MiqroForge.Providers.Anthropic

open PyText Json PyRepr

/-! ## Messages -/

inductive Role where
  | system
  | user
  | assistant
  | tool
  deriving DecidableEq

inductive Content where
  | none
  | text (t : Text)
  | blocks (items : List Value)

structure ToolCall where
  id : Text
  name : Text
  arguments : Value

structure Message where
  role : Role
  content : Content
  toolCalls : List ToolCall := []
  toolCallId : Text := []

/-- An assistant with tool calls. -/
def Message.calls (m : Message) : Bool := m.role = .assistant && !m.toolCalls.isEmpty

/-! ## Sanitizing -/

/-- `item.get(key)` of an item that is a dictionary. -/
def itemGet (item : Value) (key : String) : Option Value :=
  match item with
  | .obj fields => (fields.find? fun e => e.1 == key.toList).map Prod.snd
  | _ => Option.none

/-- A text block. -/
def isTextItem (item : Value) : Bool :=
  match itemGet item "type" with
  | some (.str t) => (["text", "input_text", "output_text"].map String.toList).contains t
  | _ => false

section Sanitize
variable (py : Python)

/-- A text block without text. -/
def isEmptyTextItem (item : Value) : Bool :=
  isTextItem item && !((itemGet item "text").any (truthy py))

/-- `(empty)`. -/
def placeholder : Text := "(empty)".toList

/-- What stands for content that is empty. -/
def Message.emptied (m : Message) : Message :=
  { m with content := if m.calls then .none else .text placeholder }

/-- `_sanitize_empty_content`, for one message. -/
def sanitize (m : Message) : Message :=
  match m.content with
  | .none => m
  | .text t => if t = [] then m.emptied else m
  | .blocks items =>
    let filtered := items.filter fun item => !isEmptyTextItem py item
    if filtered.length ≠ items.length then
      if filtered ≠ [] then { m with content := .blocks filtered } else m.emptied
    else m

end Sanitize

/-! ## Converting -/

inductive ResultContent where
  | text (t : Text)
  | items (items : List Value)

inductive Block where
  /-- A block of the message, which is passed on. -/
  | item (v : Value)
  | text (t : Text)
  | toolUse (id name : Text) (input : List (Text × Value))
  | toolResult (toolUseId : Text) (content : ResultContent)

inductive OutRole where
  | user
  | assistant
  deriving DecidableEq

inductive OutContent where
  | text (t : Text)
  | blocks (blocks : List Block)

structure Out where
  role : OutRole
  content : OutContent

section Convert
variable (py : Python) (repair : Text → Value)

/-- The input of a tool use; `repair` is `json_repair.loads`. -/
def toolInput (arguments : Value) : List (Text × Value) :=
  let data :=
    match arguments with
    | .str raw => (Json.parse raw).getD (repair raw)
    | v => v
  match data with
  | .obj fields => fields
  | _ => []

def convertUserMsg (m : Message) : Out :=
  match m.content with
  | .none => ⟨.user, .text placeholder⟩
  | .text t => ⟨.user, .text t⟩
  | .blocks items => ⟨.user, .blocks (items.map Block.item)⟩

/-- The text block of an assistant; a list is turned into its `str`. -/
def assistantText (content : Content) : List Block :=
  match content with
  | .none => []
  | .text t => if t = [] then [] else [.text t]
  | .blocks items => if items = [] then [] else [.text (str py (.arr items))]

def convertAssistantMsg (m : Message) : Out :=
  let blocks := assistantText py m.content ++ m.toolCalls.map fun call =>
    .toolUse call.id call.name (toolInput repair call.arguments)
  ⟨.assistant, .blocks (if blocks = [] then [.text []] else blocks)⟩

def convertToolResultMsg (m : Message) : Out :=
  ⟨.user, .blocks [.toolResult m.toolCallId
    (match m.content with
      | .none => .text []
      | .text t => .text t
      | .blocks items => if items = [] then .text [] else .items items)]⟩

/-- The message a message is converted to; system messages are taken out. -/
def convert (m : Message) : Option Out :=
  match m.role with
  | .system => Option.none
  | .user => some (convertUserMsg m)
  | .assistant => some (convertAssistantMsg py repair m)
  | .tool => some (convertToolResultMsg m)

end Convert

/-! ## Merging -/

/-- The content as blocks. -/
def Out.blocks (o : Out) : List Block :=
  match o.content with
  | .text t => [.text t]
  | .blocks blocks => blocks

/-- `_merge_consecutive_same_role` over the messages merged so far, the last one first. -/
def mergeStep (merged : List Out) (o : Out) : List Out :=
  match merged with
  | prev :: rest =>
    if prev.role = o.role then ⟨prev.role, .blocks (prev.blocks ++ o.blocks)⟩ :: rest
    else o :: prev :: rest
  | [] => [o]

def mergeConsecutiveSameRole (outs : List Out) : List Out := (outs.foldl mergeStep []).reverse

/-- The messages of `_extract_system_and_messages` for sanitized messages. -/
def anthropicMessages (py : Python) (repair : Text → Value) (messages : List Message) : List Out :=
  mergeConsecutiveSameRole ((messages.map (sanitize py)).filterMap (convert py repair))

end MiqroForge.Providers.Anthropic
