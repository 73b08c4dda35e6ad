import MiqroForge.Library.Pairing

/-!
Provider messages, as `ContextRuntime` builds, prunes and trims them. Pruning is
the pairing library's at the kinds `Message.kind` gives, so what is proved there
about openers and replies holds of assistant tool calls and tool messages.
-/

namespace MiqroForge.Messages

open Pairing

inductive Role where
  | system
  | user
  | assistant
  | tool
  | other (name : String)
  deriving DecidableEq, Repr

/-- An element of `tool_calls`: a call dict, or a value that is not a dict. -/
inductive CallEntry where
  | call (id : Option String) (name arguments : String)
  | other
  deriving DecidableEq, Repr

/-- A provider message dict. An absent key is `none`, an absent or empty
`tool_calls` is `[]`. -/
structure Message where
  role : Role
  content : Option String := none
  toolCalls : List CallEntry := []
  toolCallId : Option String := none
  name : Option String := none
  arguments : Option String := none
  reasoningContent : Option String := none
  reasoningMode : Option String := none
  clientUserMessageId : Option String := none
  inputItems : List String := []
  deriving DecidableEq, Repr

/-- The ids of the dict elements of `tool_calls`. -/
def tcIds (msg : Message) : List (Option String) :=
  msg.toolCalls.filterMap fun tc =>
    match tc with
    | .call id _ _ => some id
    | .other => none

/-- The inner loop of `_prune_unpaired_tool_messages`: the tool messages of one
group that answer one of `ids` and do not repeat. -/
def keepResponses (ids : List (Option String)) :
    List Message → List (Option String) → List Message
  | [], _ => []
  | m :: rest, seen =>
    if m.toolCallId ∈ ids ∧ m.toolCallId ∉ seen then
      m :: keepResponses ids rest (m.toolCallId :: seen)
    else keepResponses ids rest seen

def pruneUnpairedToolMessages : List Message → List Message
  | [] => []
  | msg :: rest =>
    if msg.role = .assistant ∧ msg.toolCalls ≠ [] then
      let group := rest.takeWhile (fun m => m.role = .tool)
      let kept := keepResponses (tcIds msg) group []
      if tcIds msg ≠ [] ∧ ∀ i ∈ tcIds msg, i ∈ kept.map Message.toolCallId then
        msg :: kept ++ pruneUnpairedToolMessages (rest.dropWhile (fun m => m.role = .tool))
      else pruneUnpairedToolMessages (rest.dropWhile (fun m => m.role = .tool))
    else if msg.role = .tool then pruneUnpairedToolMessages rest
    else msg :: pruneUnpairedToolMessages rest
  termination_by l => l.length
  decreasing_by
    all_goals simp only [List.length_cons]
    · exact Nat.lt_succ_of_le (List.dropWhile_sublist _).length_le
    · exact Nat.lt_succ_of_le (List.dropWhile_sublist _).length_le
    · omega
    · omega

/-- What a message is to the pairing library. -/
def Message.kind (m : Message) : Kind (Option String) :=
  if m.role = .assistant ∧ m.toolCalls ≠ [] then .opener (tcIds m)
  else if m.role = .tool then .reply m.toolCallId
  else .plain

/-- Tool messages stand behind the assistant message that announced them, each
announced id answered exactly once. -/
abbrev WellPaired (msgs : List Message) : Prop := Paired Message.kind msgs

theorem isReply_iff (m : Message) : isReply Message.kind m = true ↔ m.role = .tool := by
  unfold isReply Message.kind
  by_cases ha : m.role = .assistant ∧ m.toolCalls ≠ []
  · simp [ha]
  · by_cases ht : m.role = .tool <;> simp [ha, ht]

theorem isReply_eq (m : Message) :
    isReply Message.kind m = decide (m.role = .tool) := by
  rw [Bool.eq_iff_iff, isReply_iff, decide_eq_true_iff]

theorem replyId_of_tool (m : Message) (hm : m.role = .tool) :
    replyId? Message.kind m = some m.toolCallId := by
  simp [replyId?, Message.kind, hm]

theorem keepResponses_eq (ids : List (Option String)) (ms : List Message)
    (seen : List (Option String)) (hm : ∀ m ∈ ms, m.role = .tool) :
    keepResponses ids ms seen = firstReplies Message.kind ids ms seen := by
  induction ms generalizing seen with
  | nil => rfl
  | cons m ms ih =>
    have h1 := replyId_of_tool m (hm m (List.mem_cons_self ..))
    have h2 := fun s => ih s (fun x hx => hm x (List.mem_cons_of_mem _ hx))
    by_cases h : m.toolCallId ∈ ids ∧ m.toolCallId ∉ seen <;>
      simp [keepResponses, firstReplies, h1, h2, h]

theorem replyIds_eq_map (ms : List Message) (hm : ∀ m ∈ ms, m.role = .tool) :
    replyIds Message.kind ms = ms.map Message.toolCallId := by
  induction ms with
  | nil => rfl
  | cons m ms ih =>
    have h1 := replyId_of_tool m (hm m (List.mem_cons_self ..))
    have h2 := ih (fun x hx => hm x (List.mem_cons_of_mem _ hx))
    simp only [replyIds, List.filterMap_cons, h1, List.map_cons] at h2 ⊢
    rw [h2]

/-- **The source's pruning loop is the library's pruning.** -/
theorem pruneUnpairedToolMessages_eq (l : List Message) :
    pruneUnpairedToolMessages l = prune Message.kind l := by
  have hp : isReply Message.kind = fun m => decide (m.role = .tool) := funext isReply_eq
  have hgroup : ∀ (msg : Message) (rest : List Message),
      msg.role = .assistant ∧ msg.toolCalls ≠ [] →
      prune Message.kind (msg :: rest) =
        (if tcIds msg ≠ [] ∧ ∀ i ∈ tcIds msg, i ∈ (keepResponses (tcIds msg)
              (rest.takeWhile (fun m => m.role = .tool)) []).map Message.toolCallId then
          msg :: keepResponses (tcIds msg) (rest.takeWhile (fun m => m.role = .tool)) []
        else []) ++ prune Message.kind (rest.dropWhile (fun m => m.role = .tool)) := by
    intro msg rest hopen
    have hk : msg.kind = .opener (tcIds msg) := by simp [Message.kind, hopen]
    have hall : ∀ m ∈ rest.takeWhile (fun m => m.role = .tool), m.role = .tool :=
      fun m hm => by simpa using List.mem_takeWhile_imp hm
    have hkept : ∀ m ∈ keepResponses (tcIds msg) (rest.takeWhile (fun m => m.role = .tool)) [],
        m.role = .tool := by
      rw [keepResponses_eq _ _ _ hall]
      exact fun m hm => hall m ((firstReplies_sublist _ _ _ _).subset hm)
    rw [← replyIds_eq_map _ hkept, keepResponses_eq _ _ _ hall]
    simp only [prune, blocks_opener Message.kind msg (tcIds msg) rest hk,
      List.flatMap_cons, Block.prune, openedIds, hk, hp]
  induction l using pruneUnpairedToolMessages.induct with
  | case1 => simp [pruneUnpairedToolMessages, prune]
  | case2 msg rest hopen group kept hfull ih =>
    rw [pruneUnpairedToolMessages, if_pos hopen, hgroup msg rest hopen, ← ih]
    rw [if_pos hfull, if_pos hfull]
  | case3 msg rest hopen group kept hfull ih =>
    rw [pruneUnpairedToolMessages, if_pos hopen, hgroup msg rest hopen, ← ih]
    rw [if_neg hfull, if_neg hfull, List.nil_append]
  | case4 msg rest hopen htool ih =>
    rw [pruneUnpairedToolMessages, if_neg hopen, if_pos htool, ih]
    simp [prune, push, Message.kind, htool, Block.prune]
  | case5 msg rest hopen htool ih =>
    rw [pruneUnpairedToolMessages, if_neg hopen, if_neg htool, ih]
    simp [prune, push, Message.kind, htool, hopen, Block.prune]

end MiqroForge.Messages
