import MiqroForge.Messages.Context

/-!
The history a KUN model request carries: the items one model step of `AgentLoop`
persists, their conversion by `_build_messages`, and what the pairing pass leaves
of them when no trimming is needed.
-/

namespace MiqroForge.Kun
open Messages Pairing List

/-- A `TurnItem`, with the fields `_item_to_message` reads. `other` stands for the
kinds that have no provider message (approvals, user inputs). -/
inductive TurnItem where
  | userMessage (text : String)
  | assistantText (text : String)
  | assistantReasoning (text : String)
  | toolCall (callId toolName arguments : String) (summary : Option String)
  | toolResult (callId toolName output : String)
  | error (message : String)
  | compaction (summary : String)
  | other (kind : String)
  deriving DecidableEq, Repr

/-- `item.get("summary") or None`. -/
def orNone (s : Option String) : Option String :=
  match s with
  | some "" => none
  | s => s

def itemToMessage : TurnItem → Option Message
  | .userMessage text => some { role := .user, content := some text }
  | .assistantText text => some { role := .assistant, content := some text }
  | .assistantReasoning text =>
      some { role := .assistant, content := some text, reasoningContent := some text }
  | .toolCall callId toolName arguments summary =>
      some { role := .assistant, content := orNone summary,
             toolCalls := [.call (some callId) toolName arguments] }
  | .toolResult callId toolName output =>
      some { role := .tool, toolCallId := some callId, name := some toolName,
             content := some output }
  | .error message => some { role := .system, content := some ("Error: " ++ message) }
  | .compaction summary => some { role := .system, content := some summary }
  | .other _ => none

structure ModelRequest where
  systemPrompt : Option String
  modeInstruction : Option String
  contextInstructions : List String
  history : List TurnItem

def systemParts (request : ModelRequest) : List String :=
  (orNone request.systemPrompt).toList ++ (orNone request.modeInstruction).toList ++
    request.contextInstructions

def buildMessages (request : ModelRequest) : List Message :=
  (if systemParts request = [] then []
    else [{ role := .system, content := some ("\n\n".intercalate (systemParts request)) }]) ++
  request.history.filterMap itemToMessage

structure ToolCallLike where
  callId : String
  toolName : String
  arguments : String
  deriving DecidableEq, Repr

structure ToolResult where
  callId : String
  toolName : String
  output : String
  deriving DecidableEq, Repr

/-- Neither a tool call nor a tool result. -/
def TurnItem.Plain : TurnItem → Prop
  | .toolCall .. => False
  | .toolResult .. => False
  | _ => True

/-- One model step of `AgentLoop` and what it persists: `before` is what other code
appended since the last step (the prompt, steering, a compaction summary), `calls`
the dispatched calls in stream order, `text` and `reasoning` the accumulators, and
`results` one tool result for each dispatched call. -/
structure ModelStep where
  before : List TurnItem
  calls : List ToolCallLike
  text : String
  reasoning : String
  results : List ToolResult
  before_plain : ∀ i ∈ before, i.Plain
  one_result : (results.map ToolResult.callId).Perm (calls.map ToolCallLike.callId)

def ToolCallLike.item (c : ToolCallLike) : TurnItem :=
  .toolCall c.callId c.toolName c.arguments none

def ToolResult.item (r : ToolResult) : TurnItem := .toolResult r.callId r.toolName r.output

/-- The order in which `_model_step` persists: calls while streaming, then the
accumulated text and reasoning if any, then the results of the dispatch. -/
def ModelStep.items (s : ModelStep) : List TurnItem :=
  s.before ++ s.calls.map ToolCallLike.item ++
    (if s.text = "" then [] else [.assistantText s.text]) ++
    (if s.reasoning = "" then [] else [.assistantReasoning s.reasoning]) ++
    s.results.map ToolResult.item

/-- At most one call, and nothing persisted between it and its result. -/
def ModelStep.Adjacent (s : ModelStep) : Prop :=
  s.calls = [] ∨ s.calls.length = 1 ∧ s.text = "" ∧ s.reasoning = ""

/-- Every tool result of the request survives the pairing pass. -/
def KeepsResults (msgs : List Message) : Prop :=
  (pruneUnpairedToolMessages msgs).filter (fun m => m.role = .tool) =
    msgs.filter (fun m => m.role = .tool)

theorem keepsResults_iff (msgs : List Message) :
    KeepsResults msgs ↔ KeepsReplies Message.kind msgs := by
  have hp : isReply Message.kind = fun m => decide (m.role = .tool) := funext isReply_eq
  rw [KeepsResults, KeepsReplies, pruneUnpairedToolMessages_eq, hp]

def ModelStep.messages (s : ModelStep) : List Message := s.items.filterMap itemToMessage

def ModelStep.beforeMessages (s : ModelStep) : List Message := s.before.filterMap itemToMessage

def callMessage (c : ToolCallLike) : Message :=
  { role := .assistant, toolCalls := [.call (some c.callId) c.toolName c.arguments] }

/-- What the accumulators add between the calls and the results. -/
def ModelStep.closing (s : ModelStep) : List Message :=
  (if s.text = "" then [] else [{ role := .assistant, content := some s.text }]) ++
  (if s.reasoning = "" then []
    else [{ role := .assistant, content := some s.reasoning, reasoningContent := some s.reasoning }])

def resultMessage (r : ToolResult) : Message :=
  { role := .tool, toolCallId := some r.callId, name := some r.toolName, content := some r.output }

variable (s : ModelStep)

theorem ModelStep.messages_eq :
    s.messages = s.beforeMessages ++ s.calls.map callMessage ++ s.closing ++
      s.results.map resultMessage := by
  have hc : ∀ cs : List ToolCallLike,
      (cs.map ToolCallLike.item).filterMap itemToMessage = cs.map callMessage := by
    intro cs
    induction cs with
    | nil => rfl
    | cons c cs ih => simp [ToolCallLike.item, itemToMessage, callMessage, orNone, ← ih]
  have hr : ∀ rs : List ToolResult,
      (rs.map ToolResult.item).filterMap itemToMessage = rs.map resultMessage := by
    intro rs
    induction rs with
    | nil => rfl
    | cons r rs ih => simp [ToolResult.item, itemToMessage, resultMessage, ← ih]
  simp only [ModelStep.messages, ModelStep.items, filterMap_append, hc, hr,
    ModelStep.beforeMessages, ModelStep.closing, ← append_assoc]
  congr 2
  · congr 1
    split <;> simp [itemToMessage]
  · split <;> simp [itemToMessage]

theorem ModelStep.beforeMessages_plain :
    ∀ m ∈ s.beforeMessages, m.kind = .plain := by
  intro m hm
  obtain ⟨i, hi, him⟩ := mem_filterMap.mp hm
  have hp := s.before_plain i hi
  cases i <;> simp [itemToMessage, TurnItem.Plain] at him hp <;> subst him <;>
    simp [Message.kind]

theorem ModelStep.closing_plain : ∀ m ∈ s.closing, m.kind = .plain := by
  intro m hm
  unfold ModelStep.closing at hm
  rcases mem_append.mp hm with h | h <;> split at h <;> simp at h <;> subst h <;>
    simp [Message.kind]

theorem callMessage_kind (c : ToolCallLike) : (callMessage c).kind = .opener [some c.callId] := by
  simp [callMessage, Message.kind, tcIds]

theorem resultMessages_reply :
    ∀ m ∈ s.results.map resultMessage, isReply Message.kind m = true := by
  intro m hm
  obtain ⟨r, _, rfl⟩ := mem_map.mp hm
  simp [isReply_iff, resultMessage]

theorem ModelStep.results_length : s.results.length = s.calls.length := by
  simpa using s.one_result.length_eq

theorem ModelStep.messages_head :
    ∀ m ∈ s.messages.head?, isReply Message.kind m = false := by
  intro m hm
  have hl := s.results_length
  rw [s.messages_eq] at hm
  cases hb : s.beforeMessages with
  | cons b bs =>
    have := s.beforeMessages_plain b (by simp [hb])
    obtain rfl : b = m := by simpa [hb] using hm
    simp [isReply, this]
  | nil =>
    cases hc : s.calls with
    | cons c cs =>
      obtain rfl : callMessage c = m := by simpa [hb, hc] using hm
      simp [isReply, callMessage_kind]
    | nil =>
      have hr : s.results = [] := eq_nil_of_length_eq_zero (by simp [hl, hc])
      have hmem : m ∈ s.closing := by
        simp only [hb, hc, hr, map_nil, nil_append, append_nil] at hm
        exact mem_of_mem_head? hm
      simp [isReply, s.closing_plain m hmem]

theorem ModelStep.paired_of_adjacent (h : s.Adjacent) : WellPaired s.messages := by
  have hl := s.results_length
  rw [s.messages_eq]
  rcases h with hc | ⟨hc, ht, hr⟩
  · have hr : s.results = [] := eq_nil_of_length_eq_zero (by simp [hl, hc])
    apply paired_of_plain
    intro m hm
    simp only [hc, hr, map_nil, append_nil, mem_append] at hm
    rcases hm with hm | hm
    · exact s.beforeMessages_plain m hm
    · exact s.closing_plain m hm
  · obtain ⟨c, hc⟩ := length_eq_one_iff.mp hc
    obtain ⟨r, hr'⟩ := length_eq_one_iff.mp (by rw [hl, hc]; rfl : s.results.length = 1)
    have hid : r.callId = c.callId := by
      have := s.one_result
      rw [hc, hr'] at this
      simpa using this
    have hclose : s.closing = [] := by simp [ModelStep.closing, ht, hr]
    rw [hclose, hc, hr']
    simp only [map_cons, map_nil, append_nil, append_assoc]
    have hhead : ∀ m ∈ ([callMessage c] ++ [resultMessage r]).head?,
        isReply Message.kind m = false := by
      simp [isReply, callMessage_kind]
    rw [WellPaired, paired_append _ _ _ hhead]
    refine ⟨paired_of_plain _ _ s.beforeMessages_plain, ?_⟩
    have hrep : ∀ m ∈ [resultMessage r], isReply Message.kind m = true := by
      simp [isReply_iff, resultMessage]
    rw [singleton_append, paired_group _ _ _ _ (callMessage_kind c) hrep]
    simp [Answered, replyIds, replyId?, Message.kind, resultMessage, hid]

/-- A step loses a result unless it is adjacent: behind text, reasoning or a
second call, the result of the first call has lost its group. -/
theorem ModelStep.adjacent_of_keeps (h : KeepsReplies Message.kind s.messages) : s.Adjacent := by
  have hl := s.results_length
  rcases eq_nil_or_concat s.calls with hc | ⟨cs, c, hc⟩
  · exact Or.inl hc
  have hne : s.results ≠ [] := by
    intro he
    simp [hc, he] at hl
  rw [s.messages_eq] at h
  rcases eq_nil_or_concat s.closing with hclose | ⟨ms, m, hclose⟩
  · have hlen : s.results.length ≤ 1 := by
      simp only [hclose, hc, map_append, map_cons, map_nil, append_nil,
        append_assoc, concat_eq_append] at h
      rw [← append_assoc, keepsReplies_append _ _ _
        (by simp [isReply, callMessage_kind])] at h
      simpa using h.2.length_le Message.kind (callMessage_kind c) (resultMessages_reply s)
    refine Or.inr ⟨?_, ?_, ?_⟩
    · have : s.calls.length ≠ 0 := by simp [hc]
      omega
    · by_contra ht
      simp [ModelStep.closing, ht] at hclose
    · by_contra hr
      simp [ModelStep.closing, hr] at hclose
  · exfalso
    have hm := s.closing_plain m (by simp [hclose])
    simp only [hclose, append_assoc, concat_eq_append] at h
    rw [← append_assoc, ← append_assoc, keepsReplies_append _ _ _
      (by simp [isReply, hm])] at h
    have := (keepsReplies_plain Message.kind m _ hm (resultMessages_reply s)).mp h.2
    simp [hne] at this

theorem flatMap_messages_head (steps : List ModelStep) :
    ∀ m ∈ (steps.flatMap ModelStep.messages).head?, isReply Message.kind m = false := by
  induction steps with
  | nil => simp
  | cons s steps ih =>
    intro m hm
    cases hs : s.messages with
    | nil => exact ih m (by simpa [hs] using hm)
    | cons a l => exact s.messages_head m (by simpa [hs] using hm)

theorem run_keeps_iff (steps : List ModelStep) :
    KeepsReplies Message.kind (steps.flatMap ModelStep.messages) ↔
      ∀ s ∈ steps, s.Adjacent := by
  induction steps with
  | nil => simp [KeepsReplies, prune]
  | cons s steps ih =>
    rw [flatMap_cons, keepsReplies_append _ _ _ (flatMap_messages_head steps), ih]
    simp only [mem_cons, forall_eq_or_imp]
    exact and_congr_left fun _ =>
      ⟨s.adjacent_of_keeps, fun h => (s.paired_of_adjacent h).keepsReplies Message.kind⟩

theorem run_paired (steps : List ModelStep) (h : ∀ s ∈ steps, s.Adjacent) :
    WellPaired (steps.flatMap ModelStep.messages) := by
  induction steps with
  | nil => simp [Paired]
  | cons s steps ih =>
    rw [flatMap_cons, WellPaired, paired_append _ _ _ (flatMap_messages_head steps)]
    exact ⟨s.paired_of_adjacent (h s (mem_cons_self ..)),
      ih (fun t ht => h t (mem_cons_of_mem _ ht))⟩

theorem systemMessages_paired (request : ModelRequest) :
    WellPaired (buildMessages { request with history := [] }) := by
  apply paired_of_plain
  intro m hm
  simp only [buildMessages, filterMap_nil, append_nil] at hm
  split at hm <;> simp at hm
  subst hm
  simp [Message.kind]

theorem buildMessages_run (request : ModelRequest) (steps : List ModelStep) :
    buildMessages { request with history := steps.flatMap ModelStep.items } =
      buildMessages { request with history := [] } ++ steps.flatMap ModelStep.messages := by
  have h : (steps.flatMap ModelStep.items).filterMap itemToMessage =
      steps.flatMap ModelStep.messages := by
    induction steps with
    | nil => rfl
    | cons s steps ih =>
      rw [flatMap_cons, filterMap_append, ih, flatMap_cons]
      rfl
  have hs : ∀ items, systemParts { request with history := items } = systemParts request :=
    fun _ => rfl
  simp only [buildMessages, hs, filterMap_nil, append_nil, h]

/-- **Which runs keep their tool results.** Without trimming, the request built
from a persisted run keeps its tool results, and then all its pairs, exactly when
every step put its only call directly in front of its result. -/
theorem kun_results_kept_iff (request : ModelRequest) (steps : List ModelStep) :
    let msgs := buildMessages { request with history := steps.flatMap ModelStep.items }
    (KeepsResults msgs ↔ ∀ s ∈ steps, s.Adjacent) ∧
      (pruneUnpairedToolMessages msgs = msgs ↔ ∀ s ∈ steps, s.Adjacent) := by
  intro msgs
  have hmsgs : msgs = _ := buildMessages_run request steps
  have hkeep : KeepsResults msgs ↔ ∀ s ∈ steps, s.Adjacent := by
    rw [keepsResults_iff, hmsgs, keepsReplies_append _ _ _ (flatMap_messages_head steps),
      and_iff_right ((systemMessages_paired request).keepsReplies Message.kind), run_keeps_iff]
  refine ⟨hkeep, fun h => ?_, fun h => ?_⟩
  · rw [← hkeep, KeepsResults, h]
  · rw [pruneUnpairedToolMessages_eq, prune_eq_self_iff, hmsgs,
      paired_append _ _ _ (flatMap_messages_head steps)]
    exact ⟨systemMessages_paired request, run_paired steps h⟩

/-- Two parallel searches in one step: the request keeps the second only. -/
def twoSearches : ModelStep where
  before := [.userMessage "compare the two"]
  calls := [⟨"c1", "web_search", "a"⟩, ⟨"c2", "web_search", "b"⟩]
  text := ""
  reasoning := ""
  results := [⟨"c1", "web_search", "ra"⟩, ⟨"c2", "web_search", "rb"⟩]
  before_plain := by simp [TurnItem.Plain]
  one_result := by simp

theorem twoSearches_drop_result :
    ¬ KeepsResults (buildMessages ⟨none, none, [], twoSearches.items⟩) := by
  rw [keepsResults_iff, KeepsReplies]
  decide

end MiqroForge.Kun
