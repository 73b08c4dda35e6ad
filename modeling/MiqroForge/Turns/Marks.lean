import MiqroForge.Library.Mealy
import MiqroForge.Turns.Adapter

/-!
What the notifications of a turn say of its items: `Closed` is the life of one item, `said_project`
what each event says.
-/

namespace MiqroForge.Turns

open PyText CodexTurnEventAdapter CodexTurnEventAdapter

/-! ## Well-formed notifications -/

/-- What a notification says of an item. -/
inductive Mark where
  | started
  | delta (text : Text)
  | completed (text : Option Text)
  deriving DecidableEq

namespace Mark

/-- A mark that is no delta. -/
def bound : Mark → Bool
  | .delta _ => false
  | _ => true

def delta? : Mark → Option Text
  | .delta text => some text
  | _ => none

end Mark

/-- What a notification says, and of which item. -/
def Notification.said : Notification → Option (Text × Mark)
  | .itemStarted _ item => some (item.id, .started)
  | .itemCompleted _ item => some (item.id, .completed item.text)
  | .agentMessageDelta _ itemId delta => some (itemId, .delta delta)
  | .reasoningSummaryTextDelta _ itemId delta => some (itemId, .delta delta)
  | .commandExecutionOutputDelta _ itemId _ delta => some (itemId, .delta delta)
  | .toolExecutionOutputDelta _ itemId delta => some (itemId, .delta delta)
  | _ => none

/-- The marks of one item. -/
def marksOf {ι : Type} [DecidableEq ι] (id : ι) (said : List (ι × Mark)) : List Mark :=
  said.filterMap fun p => if p.1 = id then some p.2 else none

def Notification.completesTurn : Notification → Bool
  | .turnCompleted _ _ _ => true
  | _ => false

/-- The texts of the deltas, joined. -/
def deltaText (marks : List Mark) : Text := (marks.filterMap Mark.delta?).flatten

/-- An item that is mentioned is started once and then completed once, and its text, if it has one,
is what was streamed. -/
def Closed (marks : List Mark) : Prop :=
  marks = [] ∨ ∃ text, marks.filter Mark.bound = [.started, .completed text] ∧
    ∀ t ∈ text, deltaText marks = t

structure WellFormed (notifications : List Notification) : Prop where
  last : ∃ before n, notifications = before ++ [n] ∧ n.completesTurn = true ∧
    ∀ n' ∈ before, n'.completesTurn = false
  items : ∀ id, Closed (marksOf id (notifications.filterMap Notification.said))

/-! ## Ids -/

/-- The items of a turn. -/
inductive Slot where
  | user
  | agent
  | reasoning
  | exec (toolCallId : Text)
  | tool (toolCallId : Text)
  | compaction
  deriving DecidableEq

def Slot.suffix : Slot → Text
  | .user => ":user".toList
  | .agent => ":agent".toList
  | .reasoning => ":reasoning".toList
  | .exec toolCallId => ":exec:".toList ++ toolCallId
  | .tool toolCallId => ":tool:".toList ++ toolCallId
  | .compaction => ":contextCompaction".toList

def Slot.id (turnId : Text) (slot : Slot) : Text := turnId ++ slot.suffix

/-- The first letter of the suffix tells the kinds apart. -/
def Slot.letter : Slot → Char
  | .user => 'u'
  | .agent => 'a'
  | .reasoning => 'r'
  | .exec _ => 'e'
  | .tool _ => 't'
  | .compaction => 'c'

theorem Slot.suffix_letter (a : Slot) : a.suffix[1]? = some a.letter := by
  cases a <;> rfl

theorem Slot.suffix_injective {a b : Slot} (h : a.suffix = b.suffix) : a = b := by
  have hletter : a.letter = b.letter := by
    have hsame := a.suffix_letter
    rw [h, b.suffix_letter] at hsame
    exact (Option.some.inj hsame).symm
  cases a <;> cases b <;> simp [letter] at hletter <;>
    first
    | rfl
    | exact congrArg _ (List.append_cancel_left h)

@[simp] theorem Slot.id_inj {turnId : Text} {a b : Slot} : a.id turnId = b.id turnId ↔ a = b := by
  constructor
  · intro h
    exact Slot.suffix_injective (List.append_cancel_left h)
  · rintro rfl
    rfl

/-! ## What each event says -/

section Said
variable {turnId : Text} {a : CodexTurnEventAdapter} {e : Event}

/-- The adapter is the one of the turn, and its tool items have their ids. -/
structure Kept (turnId : Text) (a : CodexTurnEventAdapter) : Prop where
  turn : a.turnId = turnId
  tools : ∀ id item, Table.get? a.toolItems id = some item →
    item.id = Slot.id turnId (.tool id) ∧ item.text = none

@[simp] theorem commandExecutionItem_id (id command cwd status : Text) (source : Option Text)
    (output : Text) (exitCode durationMs : Option Int) :
    (Item.commandExecutionItem id command cwd status source output exitCode durationMs).id = id :=
  rfl

@[simp] theorem commandExecutionItem_text (id command cwd status : Text) (source : Option Text)
    (output : Text) (exitCode durationMs : Option Int) :
    (Item.commandExecutionItem id command cwd status source output exitCode durationMs).text =
      some output := by
  show some ((if output = [] then none else some output : Option Text).getD []) = some output
  split
  case isTrue h => rw [h, Option.getD_none]
  case isFalse => rw [Option.getD_some]

@[simp] theorem toolItem_id (id toolName : Text) (arguments : List (Text × Json.Value)) :
    (Item.toolItem id toolName arguments).id = id := by
  unfold Item.toolItem
  split <;> rfl

@[simp] theorem finished_id (item : Item) (preview : Text) :
    (item.finished preview).id = item.id := by
  cases item <;> rfl

@[simp] theorem finished_text (item : Item) (preview : Text) :
    (item.finished preview).text = item.text := by
  cases item <;> rfl

@[simp] theorem toolItem_text (id toolName : Text) (arguments : List (Text × Json.Value)) :
    (Item.toolItem id toolName arguments).text = none := by
  unfold Item.toolItem
  split <;> rfl

/-- What the notifications of an event say. -/
def spoken (a : CodexTurnEventAdapter) : Event → List (Slot × Mark)
  | .turnStarted =>
    if a.emitUserMessageItem && !a.userItemEmitted then
      [(.user, .started), (.user, .completed none)] else []
  | .agentMessageDelta delta =>
    (if a.agentStarted then [] else [(.agent, .started)]) ++ [(.agent, .delta delta)]
  | .agentMessage content =>
    if a.agentCompleted then []
    else (if a.agentStarted then [] else [(.agent, .started)]) ++
      [(.agent, .completed (some content))]
  | .agentReasoning content =>
    (if a.reasoningStarted then [] else [(.reasoning, .started)]) ++
      [(.reasoning, .delta (content.drop a.reasoningSentLen))]
  | .execCommandBegin id _ _ _ => [(.exec id, .started)]
  | .execCommandOutputDelta id _ delta => if delta = [] then [] else [(.exec id, .delta delta)]
  | .execCommandEnd id _ _ =>
    if (Table.get? a.commands id).isSome then
      [(.exec id, .completed (some ((Table.get? a.commandOutput id).getD []).flatten))] else []
  | .toolCallBegin id name _ => if name = "exec".toList then [] else [(.tool id, .started)]
  | .toolCallEnd id name _ =>
    if name = "exec".toList then []
    else if (Table.get? a.toolItems id).isSome then [(.tool id, .completed none)] else []
  | .toolCallOutputDelta id delta => [(.tool id, .delta delta)]
  | .contextCompacted => [(.compaction, .started), (.compaction, .completed none)]
  | .turnComplete _ _ =>
    let reasoning := fun text =>
      if a.reasoningStarted then [(Slot.reasoning, Mark.completed (some text))] else []
    reasoning ((a.reasoningTextParts.getLast?).getD []) ++
      (if a.agentStarted && !a.agentCompleted then
        [(.agent, .completed (some a.agentTextParts.flatten))] else []) ++
      reasoning a.reasoningTextParts.flatten
  | _ => []

theorem Kept.agentId (hk : Kept turnId a) : a.agentId = Slot.id turnId .agent :=
  congrArg (· ++ Slot.suffix .agent) hk.turn

theorem Kept.reasoningId (hk : Kept turnId a) : a.reasoningId = Slot.id turnId .reasoning :=
  congrArg (· ++ Slot.suffix .reasoning) hk.turn

theorem Kept.execId (hk : Kept turnId a) (id : Text) : a.execId id = Slot.id turnId (.exec id) :=
  (List.append_assoc _ _ _).trans (congrArg (· ++ Slot.suffix (.exec id)) hk.turn)

theorem Kept.toolId (hk : Kept turnId a) (id : Text) : a.toolId id = Slot.id turnId (.tool id) :=
  (List.append_assoc _ _ _).trans (congrArg (· ++ Slot.suffix (.tool id)) hk.turn)

theorem said_project (hk : Kept turnId a) (e : Event) :
    (a.project e).1.filterMap Notification.said =
      (spoken a e).map fun p => (p.1.id turnId, p.2) := by
  cases e with
  | turnStarted =>
    rw [project, onTurnStarted, spoken, ← hk.turn]
    split <;> rfl
  | agentMessageDelta delta =>
    rw [project, onAgentMessageDelta,
      agentStart, spoken, hk.agentId]
    split <;> rfl
  | agentMessage content =>
    rw [project, onAgentMessage,
      agentStart, spoken, hk.agentId]
    split
    · rfl
    · split <;> rfl
  | agentReasoning content =>
    rw [project, onAgentReasoning, spoken,
      hk.reasoningId]
    split <;> rfl
  | execCommandBegin id command cwd source =>
    rw [project, onExecCommandBegin, spoken,
      hk.execId]
    rfl
  | execCommandOutputDelta id stream delta =>
    rw [project, onExecCommandOutputDelta, spoken,
      hk.execId]
    split <;> rfl
  | execCommandEnd id exitCode durationMs =>
    rw [project, onExecCommandEnd, spoken,
      hk.execId]
    cases hget : Table.get? a.commands id with
    | none => rfl
    | some item => simp [Notification.said]
  | toolCallBegin id name arguments =>
    rw [project, onToolCallBegin, spoken,
      hk.toolId]
    split
    · rfl
    · simp [Notification.said]
  | toolCallEnd id name preview =>
    rw [project, onToolCallEnd, spoken]
    split
    · rfl
    · cases hget : Table.get? a.toolItems id with
      | none => rfl
      | some item =>
        obtain ⟨hid, htext⟩ := hk.tools id item hget
        simp only [Option.isSome_some, if_true, List.filterMap_cons, Notification.said, finished_id,
          finished_text, hid, htext]
        split <;> rfl
  | toolCallOutputDelta id delta =>
    rw [project, onToolCallOutputDelta, spoken]
    cases hget : Table.get? a.toolItems id with
    | none => simp [Notification.said, hk.toolId]
    | some item => simp [Notification.said, (hk.tools id item hget).1]
  | approvalRequested approvalId category description details =>
    show (a.onApprovalRequested approvalId category description details).1.filterMap _ = []
    rw [onApprovalRequested]
    split
    · rfl
    · split <;> rfl
  | contextCompacted =>
    rw [project, onContextCompacted, spoken, ← hk.turn]
    rfl
  | turnComplete outcome tokenUsage =>
    rw [project, onTurnComplete, spoken,
      hk.reasoningId, hk.agentId]
    simp only [List.filterMap_append, List.map_append]
    split <;> split <;> split <;> rfl
  | turnAborted => rfl
  | error message recoverable =>
    show (a.onError message recoverable).1.filterMap _ = []
    cases recoverable <;> rfl
  | other => rfl

theorem Kept.project (hk : Kept turnId a) (e : Event) : Kept turnId (a.project e).2 := by
  cases e with
  | turnStarted =>
    rw [CodexTurnEventAdapter.project, onTurnStarted]
    split
    · exact ⟨hk.turn, hk.tools⟩
    · exact hk
  | agentMessage content =>
    rw [CodexTurnEventAdapter.project, onAgentMessage]
    split
    · exact hk
    · exact ⟨hk.turn, hk.tools⟩
  | execCommandOutputDelta id stream delta =>
    rw [CodexTurnEventAdapter.project, onExecCommandOutputDelta]
    split
    · exact hk
    · exact ⟨hk.turn, hk.tools⟩
  | execCommandEnd id exitCode durationMs =>
    rw [CodexTurnEventAdapter.project, onExecCommandEnd]
    split <;> exact hk
  | toolCallBegin id name arguments =>
    rw [CodexTurnEventAdapter.project, onToolCallBegin]
    split
    · exact hk
    · refine ⟨hk.turn, fun x item hitem => ?_⟩
      by_cases hx : x = id
      · rw [hx, Table.get?_set_self] at hitem
        cases hitem
        exact ⟨(toolItem_id _ _ _).trans (hx ▸ hk.toolId id), toolItem_text _ _ _⟩
      · rw [Table.get?_set_of_ne _ _ hx] at hitem
        exact hk.tools x item hitem
  | toolCallEnd id name preview =>
    rw [CodexTurnEventAdapter.project, onToolCallEnd]
    split
    · exact hk
    · split
      · exact hk
      · refine ⟨hk.turn, fun x item hitem => ?_⟩
        by_cases hx : x = id
        · rw [hx, Table.get?_remove_self] at hitem
          cases hitem
        · rw [Table.get?_remove_of_ne _ hx] at hitem
          exact hk.tools x item hitem
  | approvalRequested approvalId category description details =>
    rw [CodexTurnEventAdapter.project, onApprovalRequested]
    split
    · exact hk
    · split <;> exact hk
  | _ => exact ⟨hk.turn, hk.tools⟩

/-- The adapter as a machine that speaks. -/
def speak (a : CodexTurnEventAdapter) (e : Event) :
    List (Slot × Mark) × CodexTurnEventAdapter := (spoken a e, (a.project e).2)

/-- The notifications on the events. -/
def notifications (a : CodexTurnEventAdapter) (events : List Event) : List Notification :=
  Mealy.outputs project a events

theorem said_notifications (hk : Kept turnId a) (events : List Event) :
    (notifications a events).filterMap Notification.said =
      (Mealy.outputs speak a events).map fun p => (p.1.id turnId, p.2) := by
  induction events generalizing a with
  | nil => rfl
  | cons e events ih =>
    rw [notifications, Mealy.outputs, List.filterMap_append, said_project hk, Mealy.outputs,
      List.map_append]
    exact congrArg _ (ih (hk.project e))

theorem marksOf_slot (slot : Slot) (said : List (Slot × Mark)) :
    marksOf (slot.id turnId) (said.map fun p => (p.1.id turnId, p.2)) = marksOf slot said := by
  simp [marksOf, List.filterMap_map]

theorem marksOf_other {id : Text} (hid : ∀ slot : Slot, id ≠ slot.id turnId)
    (said : List (Slot × Mark)) : marksOf id (said.map fun p => (p.1.id turnId, p.2)) = [] := by
  simp [marksOf, List.filterMap_map, Ne.symm (hid _)]

theorem closed_iff (hk : Kept turnId a) (events : List Event) :
    (∀ id, Closed (marksOf id ((notifications a events).filterMap Notification.said))) ↔
      ∀ slot, Closed (marksOf slot (Mealy.outputs speak a events)) := by
  rw [said_notifications hk]
  constructor
  · intro h slot
    have hslot := h (slot.id turnId)
    rwa [marksOf_slot] at hslot
  · intro h id
    by_cases hid : ∃ slot : Slot, id = slot.id turnId
    · obtain ⟨slot, rfl⟩ := hid
      rw [marksOf_slot]
      exact h slot
    · rw [marksOf_other fun slot heq => hid ⟨slot, heq⟩]
      exact Or.inl rfl

end Said

end MiqroForge.Turns
