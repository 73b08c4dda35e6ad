import MiqroForge.Turns.Marks

/-!
The adapter as one part for each item of the turn: what the item sees of the events, and what its
part says. `part_marks` reads the notifications of one item off its part.
-/

namespace MiqroForge.Turns

open PyText CodexTurnEventAdapter

/-! ## What an item sees -/

/-- What the agent item of a turn sees. -/
inductive AgentInput where
  | delta (text : Text)
  | message (content : Text)

def Event.agent : Event → Option AgentInput
  | .agentMessageDelta delta => some (.delta delta)
  | .agentMessage content => some (.message content)
  | _ => none

/-- What an item with a beginning and an end sees. -/
inductive CallInput where
  | begins
  | delta (text : Text)
  | ends
  deriving DecidableEq

def CallInput.delta? : CallInput → Option Text
  | .delta text => some text
  | _ => none

/-- What is seen of the command; an empty delta is not seen. -/
def Event.command (toolCallId : Text) : Event → Option CallInput
  | .execCommandBegin id _ _ _ => if id = toolCallId then some .begins else none
  | .execCommandOutputDelta id _ delta =>
    if id = toolCallId ∧ delta ≠ [] then some (.delta delta) else none
  | .execCommandEnd id _ _ => if id = toolCallId then some .ends else none
  | _ => none

/-- What is seen of the tool call; the begin and the end of `exec` are not. -/
def Event.tool (toolCallId : Text) : Event → Option CallInput
  | .toolCallBegin id name _ =>
    if id = toolCallId ∧ name ≠ "exec".toList then some .begins else none
  | .toolCallOutputDelta id delta => if id = toolCallId then some (.delta delta) else none
  | .toolCallEnd id name _ =>
    if id = toolCallId ∧ name ≠ "exec".toList then some .ends else none
  | _ => none

def AgentInput.delta? : AgentInput → Option Text
  | .delta text => some text
  | _ => none

def AgentInput.message? : AgentInput → Option Text
  | .message content => some content
  | _ => none

/-! ## Parts of the adapter -/

/-- The agent item: started, completed, and the streamed text. -/
structure AgentPart where
  started : Bool
  completed : Bool
  parts : List Text

def AgentPart.next (p : AgentPart) : AgentInput → List Mark × AgentPart
  | .delta text =>
    ((if p.started then [] else [.started]) ++ [.delta text],
      { p with started := true, parts := p.parts ++ [text] })
  | .message content =>
    if p.completed then ([], p)
    else ((if p.started then [] else [.started]) ++ [.completed (some content)],
      { p with started := true, completed := true })

/-- A command: begun, and its output since. -/
structure CommandPart where
  begun : Bool
  output : List Text

def CommandPart.next (p : CommandPart) : CallInput → List Mark × CommandPart
  | .begins => ([.started], ⟨true, []⟩)
  | .delta text => ([.delta text], { p with output := p.output ++ [text] })
  | .ends => (if p.begun then [.completed (some p.output.flatten)] else [], p)

/-- A tool call that is open. -/
def toolNext (isOpen : Bool) : CallInput → List Mark × Bool
  | .begins => ([.started], true)
  | .delta text => ([.delta text], isOpen)
  | .ends => (if isOpen then [.completed none] else [], false)

/-- The reasoning item: started, and how much was sent. -/
def reasoningNext (p : Bool × Nat) (content : Text) : List Mark × (Bool × Nat) :=
  ((if p.1 then [] else [.started]) ++ [.delta (content.drop p.2)], (true, content.length))

/-- The user item that is to be emitted. -/
def userNext (due : Bool) (_ : Unit) : List Mark × Bool :=
  (if due then [.started, .completed none] else [], false)

def compactionNext (_ : Unit) (_ : Unit) : List Mark × Unit := ([.started, .completed none], ())

def agentPart (a : CodexTurnEventAdapter) : AgentPart :=
  ⟨a.agentStarted, a.agentCompleted, a.agentTextParts⟩

def commandPart (id : Text) (a : CodexTurnEventAdapter) : CommandPart :=
  ⟨(Table.get? a.commands id).isSome, (Table.get? a.commandOutput id).getD []⟩

def toolPart (id : Text) (a : CodexTurnEventAdapter) : Bool := (Table.get? a.toolItems id).isSome

def reasoningPart (a : CodexTurnEventAdapter) : Bool × Nat :=
  (a.reasoningStarted, a.reasoningSentLen)

def userPart (a : CodexTurnEventAdapter) : Bool := a.emitUserMessageItem && !a.userItemEmitted

def Event.starts : Event → Option Unit
  | .turnStarted => some ()
  | _ => none

def Event.reasoning : Event → Option Text
  | .agentReasoning content => some content
  | _ => none

def Event.compaction : Event → Option Unit
  | .contextCompacted => some ()
  | _ => none

/-- The marks of an item. -/
def view (slot : Slot) (p : Slot × Mark) : Option Mark := if p.1 = slot then some p.2 else none

/-- The item an event is about, if it is not the last one. -/
def Event.slot : Event → Option Slot
  | .turnStarted => some .user
  | .agentMessageDelta _ => some .agent
  | .agentMessage _ => some .agent
  | .agentReasoning _ => some .reasoning
  | .execCommandBegin id _ _ _ => some (.exec id)
  | .execCommandOutputDelta id _ delta => if delta = [] then none else some (.exec id)
  | .execCommandEnd id _ _ => some (.exec id)
  | .toolCallBegin id name _ => if name = "exec".toList then none else some (.tool id)
  | .toolCallEnd id name _ => if name = "exec".toList then none else some (.tool id)
  | .toolCallOutputDelta id _ => some (.tool id)
  | .contextCompacted => some .compaction
  | _ => none

theorem Event.slot_outputDelta {id stream delta : Text} (h : delta ≠ []) :
    (Event.execCommandOutputDelta id stream delta).slot = some (.exec id) := if_neg h

theorem Event.slot_toolBegin {id name : Text} {arguments : List (Text × Json.Value)}
    (h : name ≠ "exec".toList) :
    (Event.toolCallBegin id name arguments).slot = some (.tool id) := if_neg h

theorem Event.slot_toolEnd {id name preview : Text} (h : name ≠ "exec".toList) :
    (Event.toolCallEnd id name preview).slot = some (.tool id) := if_neg h

theorem slot_of_ite {c : Prop} [Decidable c] {slot slot' : Slot}
    (h : (if c then none else some slot) = some slot') : slot = slot' := by
  split at h
  · cases h
  · exact Option.some.inj h

/-- What the adapter keeps of an item. -/
inductive Part where
  | user (due : Bool)
  | agent (p : AgentPart)
  | reasoning (p : Bool × Nat)
  | exec (p : CommandPart)
  | tool (isOpen : Bool)
  | compaction

def partOf (a : CodexTurnEventAdapter) : Slot → Part
  | .user => .user (userPart a)
  | .agent => .agent (agentPart a)
  | .reasoning => .reasoning (reasoningPart a)
  | .exec id => .exec (commandPart id a)
  | .tool id => .tool (toolPart id a)
  | .compaction => .compaction

section Parts
variable {a : CodexTurnEventAdapter} {e : Event} {events : List Event} {slot : Slot}

theorem spoken_slot (he : e.terminal = false) : ∀ p ∈ spoken a e, e.slot = some p.1 := by
  intro p hp
  cases e with
  | turnStarted =>
    rw [spoken] at hp
    split at hp
    · rcases List.mem_pair.mp hp with rfl | rfl <;> rfl
    · cases hp
  | agentMessageDelta delta =>
    rw [spoken, List.mem_append, List.mem_singleton] at hp
    rcases hp with hp | rfl
    · split at hp
      · cases hp
      · rw [List.mem_singleton.mp hp]
        rfl
    · rfl
  | agentMessage content =>
    rw [spoken] at hp
    split at hp
    · cases hp
    · rw [List.mem_append, List.mem_singleton] at hp
      rcases hp with hp | rfl
      · split at hp
        · cases hp
        · rw [List.mem_singleton.mp hp]
          rfl
      · rfl
  | agentReasoning content =>
    rw [spoken, List.mem_append, List.mem_singleton] at hp
    rcases hp with hp | rfl
    · split at hp
      · cases hp
      · rw [List.mem_singleton.mp hp]
        rfl
    · rfl
  | execCommandBegin id command cwd source =>
    rw [List.mem_singleton.mp hp]
    rfl
  | execCommandOutputDelta id stream delta =>
    rw [spoken] at hp
    split at hp
    · cases hp
    case isFalse hne =>
      rw [List.mem_singleton.mp hp, Event.slot_outputDelta hne]
  | execCommandEnd id exitCode durationMs =>
    rw [spoken] at hp
    split at hp
    · rw [List.mem_singleton.mp hp]
      rfl
    · cases hp
  | toolCallBegin id name arguments =>
    rw [spoken] at hp
    split at hp
    · cases hp
    case isFalse hne =>
      rw [List.mem_singleton.mp hp, Event.slot_toolBegin hne]
  | toolCallEnd id name preview =>
    rw [spoken] at hp
    split at hp
    · cases hp
    case isFalse hne =>
      split at hp
      · rw [List.mem_singleton.mp hp, Event.slot_toolEnd hne]
      · cases hp
  | toolCallOutputDelta id delta =>
    rw [List.mem_singleton.mp hp]
    rfl
  | contextCompacted =>
    rcases List.mem_pair.mp hp with rfl | rfl <;> rfl
  | turnComplete outcome tokenUsage => cases he
  | approvalRequested approvalId category description details => cases hp
  | turnAborted => cases hp
  | error message recoverable => cases hp
  | other => cases hp

theorem spoken_ignored (he : e.terminal = false) (hslot : e.slot ≠ some slot) :
    (spoken a e).filterMap (view slot) = [] := by
  rw [List.filterMap_eq_nil_iff]
  intro p hp
  have hne : p.1 ≠ slot := fun heq => hslot (heq ▸ spoken_slot he p hp)
  rw [view, if_neg hne]

theorem part_ignored (he : e.terminal = false) (hslot : e.slot ≠ some slot) :
    partOf (a.project e).2 slot = partOf a slot := by
  cases e with
  | turnStarted =>
    rw [project, onTurnStarted]
    split
    · cases slot <;> first | rfl | exact absurd rfl hslot
    · rfl
  | agentMessageDelta delta => cases slot <;> first | rfl | exact absurd rfl hslot
  | agentMessage content =>
    rw [project, onAgentMessage]
    split
    · rfl
    · cases slot <;> first | rfl | exact absurd rfl hslot
  | agentReasoning content => cases slot <;> first | rfl | exact absurd rfl hslot
  | execCommandBegin id command cwd source =>
    cases slot with
    | exec id' =>
      have hne : id' ≠ id := fun heq => hslot (heq ▸ rfl)
      simp only [project, onExecCommandBegin, partOf,
        commandPart, Table.get?_set_of_ne _ _ hne]
    | _ => rfl
  | execCommandOutputDelta id stream delta =>
    rw [project, onExecCommandOutputDelta]
    split
    case isTrue => rfl
    case isFalse hdelta =>
      cases slot with
      | exec id' =>
        have hne : id' ≠ id := fun heq => hslot (heq ▸ Event.slot_outputDelta hdelta)
        simp only [partOf, commandPart, Table.get?_set_of_ne _ _ hne]
      | _ => rfl
  | execCommandEnd id exitCode durationMs =>
    rw [project, onExecCommandEnd]
    split <;> rfl
  | toolCallBegin id name arguments =>
    rw [project, onToolCallBegin]
    split
    case isTrue => rfl
    case isFalse hname =>
      cases slot with
      | tool id' =>
        have hne : id' ≠ id := fun heq => hslot (heq ▸ Event.slot_toolBegin hname)
        simp only [partOf, toolPart, Table.get?_set_of_ne _ _ hne]
      | _ => rfl
  | toolCallEnd id name preview =>
    rw [project, onToolCallEnd]
    split
    case isTrue => rfl
    case isFalse hname =>
      split
      · rfl
      · cases slot with
        | tool id' =>
          have hne : id' ≠ id := fun heq => hslot (heq ▸ Event.slot_toolEnd hname)
          simp only [partOf, toolPart, Table.get?_remove_of_ne _ hne]
        | _ => rfl
  | approvalRequested approvalId category description details =>
    rw [project, onApprovalRequested]
    split
    · rfl
    · split <;> rfl
  | turnComplete outcome tokenUsage => cases he
  | _ => rfl

theorem part_marks {τ ξ : Type} {next : τ → ξ → List Mark × τ} {see : Event → Option ξ}
    (part : CodexTurnEventAdapter → τ) (wrap : τ → Part) (hwrap : ∀ x y, wrap x = wrap y → x = y)
    (hpart : ∀ a, partOf a slot = wrap (part a))
    (hsee : ∀ e, see e = none → e.slot ≠ some slot)
    (hnext : ∀ a e x, see e = some x → (spoken a e).filterMap (view slot) = (next (part a) x).1 ∧
      part (a.project e).2 = (next (part a) x).2) (a : CodexTurnEventAdapter)
    (hok : ∀ e ∈ events, e.terminal = false) :
    (Mealy.outputs speak a events).filterMap (view slot) =
        Mealy.outputs next (part a) (events.filterMap see) ∧
      part (Mealy.after speak a events) = Mealy.after next (part a) (events.filterMap see) := by
  refine Mealy.outputs_part speak (fun s e he hnone => ?_) (fun s e x _ hx => hnext s e x hx) a hok
  have hslot := hsee e hnone
  have hsame := part_ignored (a := s) he hslot
  rw [hpart, hpart] at hsame
  exact ⟨spoken_ignored he hslot, hwrap _ _ hsame⟩

theorem agent_marks (a : CodexTurnEventAdapter) (hok : ∀ e ∈ events, e.terminal = false) :
    (Mealy.outputs speak a events).filterMap (view .agent) =
        Mealy.outputs AgentPart.next (agentPart a) (events.filterMap Event.agent) ∧
      agentPart (Mealy.after speak a events) =
        Mealy.after AgentPart.next (agentPart a) (events.filterMap Event.agent) := by
  refine part_marks agentPart .agent (fun _ _ => Part.agent.inj) (fun _ => rfl)
    (fun e hnone hslot => ?_) (fun a e x hx => ?_) a hok
  · cases e <;> first
      | exact absurd hnone (Option.some_ne_none _)
      | exact nomatch Option.some.inj hslot
      | exact nomatch slot_of_ite hslot
      | exact absurd hslot.symm (Option.some_ne_none _)
  · cases e with
    | agentMessageDelta delta =>
      cases hx
      refine ⟨?_, rfl⟩
      rw [spoken, AgentPart.next, agentPart]
      cases a.agentStarted <;> rfl
    | agentMessage content =>
      cases hx
      rw [spoken, AgentPart.next, agentPart, project,
        onAgentMessage]
      cases hc : a.agentCompleted with
      | true => exact ⟨rfl, by simp [agentPart, hc]⟩
      | false =>
        refine ⟨?_, rfl⟩
        cases a.agentStarted <;> rfl
    | _ => cases hx

theorem command_marks (id : Text) (a : CodexTurnEventAdapter)
    (hok : ∀ e ∈ events, e.terminal = false) :
    (Mealy.outputs speak a events).filterMap (view (.exec id)) =
        Mealy.outputs CommandPart.next (commandPart id a) (events.filterMap (Event.command id)) ∧
      commandPart id (Mealy.after speak a events) =
        Mealy.after CommandPart.next (commandPart id a)
          (events.filterMap (Event.command id)) := by
  refine part_marks (commandPart id) .exec (fun _ _ => Part.exec.inj) (fun _ => rfl)
    (fun e hnone hslot => ?_) (fun a e x hx => ?_) a hok
  · cases e <;> simp_all [Event.slot, Event.command]
  · cases e <;> try cases hx
    case execCommandBegin id' command cwd source =>
      rw [Event.command] at hx
      split at hx
      case isFalse => cases hx
      case isTrue hid =>
        cases hx
        subst hid
        simp [spoken, view, CommandPart.next, commandPart, project,
          onExecCommandBegin, Table.get?_set_self]
    case execCommandOutputDelta id' stream delta =>
      rw [Event.command] at hx
      split at hx
      case isFalse => cases hx
      case isTrue hid =>
        obtain ⟨rfl, hdelta⟩ := hid
        cases hx
        simp [spoken, view, CommandPart.next, commandPart, project,
          onExecCommandOutputDelta, Table.get?_set_self, hdelta]
    case execCommandEnd id' exitCode durationMs =>
      rw [Event.command] at hx
      split at hx
      case isFalse => cases hx
      case isTrue hid =>
        cases hx
        subst hid
        cases hget : Table.get? a.commands id' with
        | none =>
          simp [spoken, CommandPart.next, commandPart, project,
            onExecCommandEnd, hget]
        | some item =>
          simp [spoken, view, CommandPart.next, commandPart, project,
            onExecCommandEnd, hget]

theorem tool_marks (id : Text) (a : CodexTurnEventAdapter)
    (hok : ∀ e ∈ events, e.terminal = false) :
    (Mealy.outputs speak a events).filterMap (view (.tool id)) =
        Mealy.outputs toolNext (toolPart id a) (events.filterMap (Event.tool id)) ∧
      toolPart id (Mealy.after speak a events) =
        Mealy.after toolNext (toolPart id a) (events.filterMap (Event.tool id)) := by
  refine part_marks (toolPart id) .tool (fun _ _ => Part.tool.inj) (fun _ => rfl)
    (fun e hnone hslot => ?_) (fun a e x hx => ?_) a hok
  · cases e <;> simp_all [Event.slot, Event.tool]
  · cases e <;> try cases hx
    case toolCallBegin id' name arguments =>
      rw [Event.tool] at hx
      split at hx
      case isFalse => cases hx
      case isTrue hid =>
        obtain ⟨rfl, hname⟩ := hid
        cases hx
        rw [spoken, if_neg hname, project,
          onToolCallBegin, if_neg hname]
        simp [view, toolNext, toolPart, Table.get?_set_self]
    case toolCallEnd id' name preview =>
      rw [Event.tool] at hx
      split at hx
      case isFalse => cases hx
      case isTrue hid =>
        obtain ⟨rfl, hname⟩ := hid
        cases hx
        rw [spoken, if_neg hname, project,
          onToolCallEnd, if_neg hname]
        cases hget : Table.get? a.toolItems id' with
        | none => simp [toolNext, toolPart, hget]
        | some item => simp [view, toolNext, toolPart, hget, Table.get?_remove_self]
    case toolCallOutputDelta id' delta =>
      rw [Event.tool] at hx
      split at hx
      case isFalse => cases hx
      case isTrue hid =>
        cases hx
        subst hid
        exact ⟨by simp [spoken, view, toolNext], rfl⟩

theorem reasoning_marks (a : CodexTurnEventAdapter) (hok : ∀ e ∈ events, e.terminal = false) :
    (Mealy.outputs speak a events).filterMap (view .reasoning) =
        Mealy.outputs reasoningNext (reasoningPart a) (events.filterMap Event.reasoning) ∧
      reasoningPart (Mealy.after speak a events) =
        Mealy.after reasoningNext (reasoningPart a) (events.filterMap Event.reasoning) := by
  refine part_marks reasoningPart .reasoning (fun _ _ => Part.reasoning.inj) (fun _ => rfl)
    (fun e hnone hslot => ?_) (fun a e x hx => ?_) a hok
  · cases e <;> first
      | exact absurd hnone (Option.some_ne_none _)
      | exact nomatch Option.some.inj hslot
      | exact nomatch slot_of_ite hslot
      | exact absurd hslot.symm (Option.some_ne_none _)
  · cases e with
    | agentReasoning content =>
      cases hx
      refine ⟨?_, rfl⟩
      rw [spoken, reasoningNext, reasoningPart]
      cases a.reasoningStarted <;> rfl
    | _ => cases hx

theorem user_marks (a : CodexTurnEventAdapter) (hok : ∀ e ∈ events, e.terminal = false) :
    (Mealy.outputs speak a events).filterMap (view .user) =
        Mealy.outputs userNext (userPart a) (events.filterMap Event.starts) ∧
      userPart (Mealy.after speak a events) =
        Mealy.after userNext (userPart a) (events.filterMap Event.starts) := by
  refine part_marks userPart .user (fun _ _ => Part.user.inj) (fun _ => rfl)
    (fun e hnone hslot => ?_) (fun a e x hx => ?_) a hok
  · cases e <;> first
      | exact absurd hnone (Option.some_ne_none _)
      | exact nomatch Option.some.inj hslot
      | exact nomatch slot_of_ite hslot
      | exact absurd hslot.symm (Option.some_ne_none _)
  · cases e <;> try cases hx
    rw [spoken, userNext, project, onTurnStarted,
      userPart]
    cases hdue : a.emitUserMessageItem && !a.userItemEmitted with
    | true => exact ⟨rfl, by simp [userPart]⟩
    | false => exact ⟨rfl, by simp [userPart, hdue]⟩

theorem compaction_marks (a : CodexTurnEventAdapter) (hok : ∀ e ∈ events, e.terminal = false) :
    (Mealy.outputs speak a events).filterMap (view .compaction) =
      Mealy.outputs compactionNext () (events.filterMap Event.compaction) := by
  refine (part_marks (fun _ => ()) (fun _ => .compaction) (fun _ _ _ => rfl) (fun _ => rfl)
    (fun e hnone hslot => ?_) (fun a e x hx => ?_) a hok).1
  · cases e <;> first
      | exact absurd hnone (Option.some_ne_none _)
      | exact nomatch Option.some.inj hslot
      | exact nomatch slot_of_ite hslot
      | exact absurd hslot.symm (Option.some_ne_none _)
  · cases e <;> try cases hx
    exact ⟨rfl, rfl⟩

end Parts

end MiqroForge.Turns
