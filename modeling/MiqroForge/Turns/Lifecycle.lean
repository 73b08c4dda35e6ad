import MiqroForge.Turns.Parts

/-!
The life of an item in the notifications of a turn.

* `projected_iff`: the notifications of a turn are well formed iff the turn ends once, has no
  reasoning and at most one compaction, its streamed text is the first message or the turn
  completes without a message, and each command and tool call begins once and ends.
-/

namespace MiqroForge.Turns

open PyText CodexTurnEventAdapter Mealy
open List hiding after

/-! ## Regular turns -/

def Event.completes : Event → Bool
  | .turnComplete _ _ => true
  | _ => false

/-- The streamed text is the first message; without a message nothing is streamed, or the turn
completes. -/
def agentRegular (inputs : List AgentInput) (last : Event) : Prop :=
  match inputs.findSome? AgentInput.message? with
  | some content => (inputs.filterMap AgentInput.delta?).flatten = content
  | none => inputs = [] ∨ last.completes = true

/-- Nothing but ends, or one beginning that only ends precede, its output, and one end. -/
def commandRegular (inputs : List CallInput) : Prop :=
  (∀ x ∈ inputs, x = .ends) ∨ ∃ before output, inputs = before ++ .begins :: output ++ [.ends] ∧
    (∀ x ∈ before, x = .ends) ∧ ∀ x ∈ output, x ≠ .begins ∧ x ≠ .ends

/-- Nothing but ends, or one beginning, with an end behind it. -/
def toolRegular (inputs : List CallInput) : Prop :=
  (∀ x ∈ inputs, x = .ends) ∨ ∃ before behind, inputs = before ++ .begins :: behind ∧
    .begins ∉ before ∧ .begins ∉ behind ∧ .ends ∈ behind

def Event.reasons : Event → Bool
  | .agentReasoning _ => true
  | _ => false

def Event.compacts : Event → Bool
  | .contextCompacted => true
  | _ => false

structure Regular (events : List Event) (last : Event) : Prop where
  once : ∀ e ∈ events, e.terminal = false
  agent : agentRegular (events.filterMap Event.agent) last
  reasoning : ∀ e ∈ events, e.reasons = false
  compacted : events.countP Event.compacts ≤ 1
  commands : ∀ id, commandRegular (events.filterMap (Event.command id))
  tools : ∀ id, toolRegular (events.filterMap (Event.tool id))

/-! ## One item closed -/

@[simp] theorem deltaText_nil : deltaText [] = [] := rfl

@[simp] theorem deltaText_append (xs ys : List Mark) :
    deltaText (xs ++ ys) = deltaText xs ++ deltaText ys := by
  rw [deltaText, filterMap_append, flatten_append]
  rfl

theorem closed_iff_bound {marks bound : List Mark} (hne : marks ≠ [])
    (hbound : marks.filter Mark.bound = bound) :
    Closed marks ↔ ∃ text, bound = [.started, .completed text] ∧
      ∀ t ∈ text, deltaText marks = t := by
  subst hbound
  exact or_iff_right hne

theorem not_closed {marks : List Mark} (hne : marks ≠ [])
    (hbound : (marks.filter Mark.bound).length ≠ 2) : ¬ Closed marks := by
  rintro (hnil | ⟨text, htext, -⟩)
  · exact hne hnil
  · exact hbound (congrArg List.length htext)

theorem ne_nil_of_bound {marks : List Mark} {m : Mark} {bound : List Mark}
    (h : marks.filter Mark.bound = m :: bound) : marks ≠ [] := by
  rintro rfl
  cases h

/-! ## The agent item -/

/-- What the last event says of the agent item. -/
def agentEnd (p : AgentPart) (last : Event) : List Mark :=
  if last.completes && p.started && !p.completed then [.completed (some p.parts.flatten)] else []

section Agent
variable (p : AgentPart) (inputs : List AgentInput)

theorem agent_deltas : deltaText (outputs AgentPart.next p inputs) =
    (inputs.filterMap AgentInput.delta?).flatten := by
  induction inputs generalizing p with
  | nil => rfl
  | cons x inputs ih =>
    rw [outputs, deltaText_append, ih]
    cases x with
    | delta text =>
      rw [AgentPart.next, deltaText_append]
      cases p.started <;> simp [deltaText, Mark.delta?, AgentInput.delta?]
    | message content =>
      rw [AgentPart.next]
      cases hc : p.completed <;> cases hs : p.started <;> rfl

theorem agent_parts : (after AgentPart.next p inputs).parts =
    p.parts ++ inputs.filterMap AgentInput.delta? := by
  induction inputs generalizing p with
  | nil => exact (append_nil _).symm
  | cons x inputs ih =>
    refine (ih _).trans ?_
    cases x with
    | delta text => exact append_assoc _ _ _
    | message content =>
      obtain ⟨started, completed, parts⟩ := p
      cases completed <;> rfl

variable {p} (hstarted : p.completed = true → p.started = true)

include hstarted

theorem agent_next (x : AgentInput) : (p.next x).2.started = true ∧
    (p.next x).2.completed = (p.completed || x.message?.isSome) ∧
    (p.next x).1.filter Mark.bound = (if p.started then [] else [.started]) ++
      (if p.completed then [] else (x.message?.map fun text => .completed (some text)).toList) := by
  obtain ⟨started, completed, parts⟩ := p
  cases x with
  | delta text => cases started <;> cases completed <;> exact ⟨rfl, rfl, rfl⟩
  | message content =>
    cases completed with
    | true => simp [AgentPart.next, AgentInput.message?, show started = true from hstarted rfl]
    | false => cases started <;> exact ⟨rfl, rfl, rfl⟩

theorem agent_flags : (after AgentPart.next p inputs).started =
      (p.started || !inputs.isEmpty) ∧
    (after AgentPart.next p inputs).completed =
      (p.completed || (inputs.findSome? AgentInput.message?).isSome) := by
  induction inputs generalizing p with
  | nil => simp [after]
  | cons x inputs ih =>
    obtain ⟨hs, hc, -⟩ := agent_next hstarted x
    obtain ⟨ihs, ihc⟩ := ih (fun _ => hs)
    refine ⟨ihs.trans ?_, ihc.trans ?_⟩
    · simp [hs]
    · rw [hc, findSome?_cons]
      cases x.message? <;> simp

theorem agent_bound : (outputs AgentPart.next p inputs).filter Mark.bound =
    (if p.started || inputs.isEmpty then [] else [.started]) ++
      if p.completed then []
      else
        ((inputs.findSome? AgentInput.message?).map fun text => .completed (some text)).toList := by
  induction inputs generalizing p with
  | nil => simp [outputs]
  | cons x inputs ih =>
    obtain ⟨hs, hc, hb⟩ := agent_next hstarted x
    rw [outputs, filter_append, hb, ih (fun _ => hs), hs, hc, findSome?_cons]
    cases x.message? <;> cases p.completed <;> simp

end Agent

theorem fresh_bound {inputs : List AgentInput} (hne : inputs ≠ []) :
    (outputs AgentPart.next ⟨false, false, []⟩ inputs).filter Mark.bound =
      .started ::
        ((inputs.findSome? AgentInput.message?).map fun text => .completed (some text)).toList := by
  rw [agent_bound inputs (fun h => by cases h), isEmpty_eq_false_iff.mpr hne]
  rfl

theorem fresh_end {inputs : List AgentInput} (hne : inputs ≠ []) (last : Event) :
    agentEnd (after AgentPart.next ⟨false, false, []⟩ inputs) last =
      if last.completes && (inputs.findSome? AgentInput.message?).isNone then
        [.completed (some (inputs.filterMap AgentInput.delta?).flatten)] else [] := by
  obtain ⟨hstarted, hcompleted⟩ := agent_flags (p := ⟨false, false, []⟩) inputs
    nofun
  rw [agentEnd, hstarted, hcompleted, agent_parts, isEmpty_eq_false_iff.mpr hne]
  simp

theorem agent_closed (inputs : List AgentInput) (last : Event) :
    Closed (outputs AgentPart.next ⟨false, false, []⟩ inputs ++
      agentEnd (after AgentPart.next ⟨false, false, []⟩ inputs) last) ↔
        agentRegular inputs last := by
  by_cases hne : inputs = []
  · subst hne
    have hend : agentEnd ⟨false, false, []⟩ last = [] := by simp [agentEnd]
    exact iff_of_true (Or.inl hend) (Or.inl rfl)
  have hbound := fresh_bound hne
  have hdeltas := agent_deltas ⟨false, false, []⟩ inputs
  rw [fresh_end hne, agentRegular]
  generalize outputs AgentPart.next ⟨false, false, []⟩ inputs = marks at hbound hdeltas ⊢
  have hmarks := ne_nil_of_bound hbound
  cases hfirst : inputs.findSome? AgentInput.message? with
  | some content =>
    -- the first message completes the item
    rw [hfirst] at hbound
    rw [Option.isNone_some, Bool.and_false, if_neg Bool.false_ne_true, append_nil,
      closed_iff_bound hmarks hbound, hdeltas]
    simp
  | none =>
    rw [hfirst] at hbound
    rw [Option.isNone_none, Bool.and_true]
    cases last.completes with
    | true =>
      refine iff_of_true (Or.inr ⟨some (inputs.filterMap AgentInput.delta?).flatten, ?_, ?_⟩)
        (Or.inr rfl)
      · rw [filter_append, hbound]
        rfl
      · rintro t ⟨⟩
        rw [deltaText_append, hdeltas]
        exact append_nil _
    | false =>
      rw [if_neg Bool.false_ne_true, append_nil, closed_iff_bound hmarks hbound]
      simp [hne]

/-! ## Commands -/

section Command
variable {p : CommandPart}

theorem command_deltas (p : CommandPart) (inputs : List CallInput) :
    deltaText (outputs CommandPart.next p inputs) =
      (inputs.filterMap CallInput.delta?).flatten := by
  induction inputs generalizing p with
  | nil => rfl
  | cons x inputs ih =>
    rw [outputs, deltaText_append, ih]
    cases x with
    | begins => rfl
    | delta text => simp [CommandPart.next, deltaText, Mark.delta?, CallInput.delta?]
    | ends =>
      obtain ⟨begun, output⟩ := p
      cases begun <;> rfl

theorem command_silent (hbegun : p.begun = false) (inputs : List CallInput) :
    outputs CommandPart.next p inputs = [] ↔ ∀ x ∈ inputs, x = .ends := by
  induction inputs with
  | nil => simp [outputs]
  | cons x inputs ih =>
    rw [outputs, append_eq_nil_iff, forall_mem_cons]
    cases x with
    | begins => simp [CommandPart.next]
    | delta text => simp [CommandPart.next]
    | ends => simp [CommandPart.next, hbegun, ih]

theorem begun_quiet (hbegun : p.begun = true) (inputs : List CallInput) :
    (outputs CommandPart.next p inputs).filter Mark.bound = [] ↔
      ∀ x ∈ inputs, x.delta?.isSome = true := by
  induction inputs generalizing p with
  | nil => simp [outputs]
  | cons x inputs ih =>
    rw [outputs, filter_append, append_eq_nil_iff, forall_mem_cons]
    cases x with
    | begins => simp [CommandPart.next, Mark.bound, CallInput.delta?]
    | delta text =>
      have hnext := ih (p := (p.next (.delta text)).2) hbegun
      exact (and_iff_right rfl).trans (hnext.trans (and_iff_right rfl).symm)
    | ends => simp [CommandPart.next, Mark.bound, CallInput.delta?, hbegun]

theorem begun_completed (hbegun : p.begun = true) (inputs : List CallInput) (text : Option Text) :
    (outputs CommandPart.next p inputs).filter Mark.bound = [.completed text] ↔
      ∃ output behind, inputs = output ++ .ends :: behind ∧
        (∀ x ∈ output, x.delta?.isSome = true) ∧ (∀ x ∈ behind, x.delta?.isSome = true) ∧
        text = some (p.output ++ output.filterMap CallInput.delta?).flatten := by
  induction inputs generalizing p with
  | nil => simp [outputs]
  | cons x inputs ih =>
    rw [outputs, filter_append]
    cases x with
    | begins =>
      refine iff_of_false (fun h => Mark.noConfusion (List.cons.inj h).1) ?_
      rintro ⟨output, behind, heq, houtput, -, -⟩
      cases output with
      | nil => cases heq
      | cons y output =>
        obtain ⟨rfl, -⟩ := List.cons.inj heq
        exact absurd (houtput _ mem_cons_self) Bool.false_ne_true
    | delta content =>
      have hnext := ih (p := (p.next (.delta content)).2) hbegun
      refine (Iff.of_eq rfl).trans (hnext.trans ⟨?_, ?_⟩)
      · rintro ⟨output, behind, rfl, houtput, hbehind, rfl⟩
        refine ⟨.delta content :: output, behind, rfl, ?_, hbehind, ?_⟩
        · exact forall_mem_cons.mpr ⟨rfl, houtput⟩
        · simp [CommandPart.next, CallInput.delta?]
      · rintro ⟨output, behind, heq, houtput, hbehind, rfl⟩
        cases output with
        | nil => cases heq
        | cons y output =>
          obtain ⟨rfl, rfl⟩ := List.cons.inj heq
          refine ⟨output, behind, rfl, (forall_mem_cons.mp houtput).2, hbehind, ?_⟩
          simp [CommandPart.next, CallInput.delta?]
    | ends =>
      have hquiet := begun_quiet hbegun inputs
      have hmark : ((p.next .ends).1).filter Mark.bound =
          [.completed (some p.output.flatten)] := by simp [CommandPart.next, hbegun, Mark.bound]
      rw [hmark, singleton_append, List.cons.injEq]
      refine Iff.trans (and_congr_right fun _ => hquiet) ⟨?_, ?_⟩
      · rintro ⟨htext, hbehind⟩
        refine ⟨[], inputs, rfl, forall_mem_nil _, hbehind, ?_⟩
        simpa using (Mark.completed.inj htext).symm
      · rintro ⟨output, behind, heq, houtput, hbehind, rfl⟩
        cases output with
        | nil =>
          obtain ⟨-, rfl⟩ := List.cons.inj heq
          exact ⟨by simp, hbehind⟩
        | cons y output =>
          obtain ⟨rfl, -⟩ := List.cons.inj heq
          exact absurd (houtput _ mem_cons_self) Bool.false_ne_true

theorem idle_quiet (hbegun : p.begun = false) {inputs : List CallInput}
    (hinputs : .begins ∉ inputs) :
    (outputs CommandPart.next p inputs).filter Mark.bound = [] ∧
      (after CommandPart.next p inputs).begun = false := by
  induction inputs generalizing p with
  | nil => exact ⟨rfl, hbegun⟩
  | cons x inputs ih =>
    obtain ⟨hx, hrest⟩ := not_or.mp (mt mem_cons.mpr hinputs)
    have hnext : ((p.next x).1).filter Mark.bound = [] ∧ (p.next x).2.begun = false := by
      cases x with
      | begins => exact absurd rfl hx
      | delta text => exact ⟨rfl, hbegun⟩
      | ends => simp [CommandPart.next, hbegun]
    obtain ⟨hquiet, hafter⟩ := ih hnext.2 hrest
    rw [outputs, filter_append, hnext.1, hquiet]
    exact ⟨rfl, hafter⟩

theorem first_begin (hbegun : p.begun = false) {before : List CallInput}
    (hbefore : .begins ∉ before) (rest : List CallInput) :
    (outputs CommandPart.next p (before ++ .begins :: rest)).filter Mark.bound =
      .started :: (outputs CommandPart.next ⟨true, []⟩ rest).filter Mark.bound := by
  rw [outputs_append, filter_append, (idle_quiet hbegun hbefore).1]
  rfl

theorem ends_of_silent {x : CallInput} (hx : x.delta? = none) (hbegin : x ≠ .begins) :
    x = .ends := by
  cases x with
  | begins => exact absurd rfl hbegin
  | delta text => cases hx
  | ends => rfl

theorem delta_none (inputs : List CallInput) (hne : ∀ x ∈ inputs, x ≠ .delta [])
    (htext : (inputs.filterMap CallInput.delta?).flatten = []) : ∀ x ∈ inputs, x.delta? = none := by
  intro x hx
  cases x with
  | delta text =>
    have hmem : text ∈ inputs.filterMap CallInput.delta? := mem_filterMap.mpr ⟨_, hx, rfl⟩
    have hnil := flatten_eq_nil_iff.mp htext text hmem
    exact absurd (congrArg _ hnil) (hne _ hx)
  | _ => rfl

theorem command_closed {inputs : List CallInput} (hne : ∀ x ∈ inputs, x ≠ .delta []) :
    Closed (outputs CommandPart.next ⟨false, []⟩ inputs) ↔ commandRegular inputs := by
  refine or_congr (command_silent rfl inputs) ⟨?_, ?_⟩
  · rintro ⟨text, hbound, htext⟩
    have hbegins : .begins ∈ inputs := by
      by_contra hnone
      rw [(idle_quiet rfl hnone).1] at hbound
      cases hbound
    obtain ⟨before, rest, rfl, hbefore⟩ := eq_append_cons_of_mem hbegins
    rw [first_begin rfl hbefore, List.cons.injEq] at hbound
    obtain ⟨output, behind, rfl, houtput, hbehind, rfl⟩ :=
      (begun_completed rfl rest text).mp hbound.2
    have hstream := htext _ rfl
    rw [command_deltas] at hstream
    simp only [filterMap_append, filterMap_cons, CallInput.delta?,
      flatten_append, nil_append] at hstream
    -- what is streamed outside leaves no room
    have hlength := congrArg List.length hstream
    simp only [length_append] at hlength
    have hbefore' := delta_none before (fun x hx => hne x (by simp [hx]))
      (length_eq_zero_iff.mp (by omega))
    have hbehind' := delta_none behind (fun x hx => hne x (by simp [hx]))
      (length_eq_zero_iff.mp (by omega))
    have hnil : behind = [] := by
      refine eq_nil_iff_forall_not_mem.mpr fun x hx => ?_
      have hsome := hbehind x hx
      rw [hbehind' x hx] at hsome
      cases hsome
    subst hnil
    refine ⟨before, output, by simp, fun x hx => ?_, fun x hx => ?_⟩
    · exact ends_of_silent (hbefore' x hx) fun heq => hbefore (heq ▸ hx)
    · have hsome := houtput x hx
      constructor <;> rintro rfl <;> cases hsome
  · rintro ⟨before, output, rfl, hbefore, houtput⟩
    have hdelta : ∀ x ∈ output, x.delta?.isSome = true := by
      intro x hx
      cases x with
      | begins => exact absurd rfl (houtput _ hx).1
      | delta text => rfl
      | ends => exact absurd rfl (houtput _ hx).2
    have hbegins : .begins ∉ before := fun hmem => nomatch hbefore _ hmem
    have hnone : before.filterMap CallInput.delta? = [] := by
      rw [filterMap_eq_nil_iff]
      intro x hx
      rw [hbefore x hx]
      rfl
    refine ⟨some (output.filterMap CallInput.delta?).flatten, ?_, ?_⟩
    · rw [append_assoc, cons_append, first_begin rfl hbegins, List.cons.injEq]
      refine ⟨rfl, (begun_completed rfl _ _).mpr ⟨output, [], rfl, hdelta, ?_, rfl⟩⟩
      exact forall_mem_nil _
    · rintro t ⟨⟩
      rw [command_deltas]
      simp [hnone, filterMap_cons, filterMap_append, CallInput.delta?]

end Command

/-! ## Tool calls -/

section Tool

variable (inputs : List CallInput)

theorem tool_silent :
    outputs toolNext false inputs = [] ↔ ∀ x ∈ inputs, x = .ends := by
  induction inputs with
  | nil => simp [outputs]
  | cons x inputs ih =>
    rw [outputs, append_eq_nil_iff, forall_mem_cons]
    cases x with
    | begins => simp [toolNext]
    | delta text => simp [toolNext]
    | ends => exact (and_iff_right rfl).trans (ih.trans (and_iff_right rfl).symm)

theorem tool_quiet :
    (outputs toolNext false inputs).filter Mark.bound = [] ↔ .begins ∉ inputs := by
  induction inputs with
  | nil => simp [outputs]
  | cons x inputs ih =>
    rw [outputs, filter_append, append_eq_nil_iff, mem_cons, not_or]
    cases x with
    | begins => simp [toolNext, Mark.bound]
    | delta text => exact and_congr (iff_of_true rfl (by simp)) ih
    | ends => exact and_congr (iff_of_true rfl (by simp)) ih

theorem tool_completed (text : Option Text) :
    (outputs toolNext true inputs).filter Mark.bound = [.completed text] ↔
      text = none ∧ .begins ∉ inputs ∧ .ends ∈ inputs := by
  induction inputs with
  | nil => simp [outputs]
  | cons x inputs ih =>
    rw [outputs, filter_append]
    cases x with
    | begins => exact iff_of_false (fun h => Mark.noConfusion (List.cons.inj h).1) (by simp)
    | delta content => exact ih.trans (by simp)
    | ends =>
      rw [show ((toolNext true .ends).1).filter Mark.bound = [.completed none] from rfl,
        singleton_append, List.cons.injEq]
      exact (and_congr_right fun _ => tool_quiet inputs).trans (by simp [eq_comm])

theorem tool_idle {inputs : List CallInput} (hinputs : .begins ∉ inputs) :
    after toolNext false inputs = false := by
  induction inputs with
  | nil => rfl
  | cons x inputs ih =>
    obtain ⟨hx, hrest⟩ := not_or.mp (mt mem_cons.mpr hinputs)
    cases x with
    | begins => exact absurd rfl hx
    | _ => exact ih hrest

theorem tool_first {before : List CallInput} (hbefore : .begins ∉ before)
    (behind : List CallInput) :
    (outputs toolNext false (before ++ .begins :: behind)).filter Mark.bound =
      .started :: (outputs toolNext true behind).filter Mark.bound := by
  rw [outputs_append, tool_idle hbefore, filter_append, (tool_quiet before).mpr hbefore]
  rfl

theorem tool_closed :
    Closed (outputs toolNext false inputs) ↔ toolRegular inputs := by
  refine or_congr (tool_silent inputs) ⟨?_, ?_⟩
  · rintro ⟨text, hbound, -⟩
    have hbegins : .begins ∈ inputs := by
      by_contra hnone
      rw [(tool_quiet inputs).mpr hnone] at hbound
      cases hbound
    obtain ⟨before, behind, rfl, hbefore⟩ := eq_append_cons_of_mem hbegins
    rw [tool_first hbefore, List.cons.injEq] at hbound
    obtain ⟨-, hbehind⟩ := (tool_completed behind text).mp hbound.2
    exact ⟨before, behind, rfl, hbefore, hbehind⟩
  · rintro ⟨before, behind, rfl, hbefore, hbehind⟩
    refine ⟨none, ?_, fun t ht => nomatch ht⟩
    rw [tool_first hbefore, List.cons.injEq]
    exact ⟨rfl, (tool_completed behind none).mpr ⟨rfl, hbehind⟩⟩

end Tool

/-! ## The other items -/

/-- What the last event says of the reasoning item. -/
def reasoningEnd (started : Bool) (last : Event) (first second : Text) : List Mark :=
  if last.completes && started then [.completed (some first), .completed (some second)] else []

theorem reasoning_bound (p : Bool × Nat) (contents : List Text) :
    (outputs reasoningNext p contents).filter Mark.bound =
      if p.1 || contents.isEmpty then [] else [.started] := by
  induction contents generalizing p with
  | nil => simp [outputs]
  | cons content contents ih =>
    rw [outputs, filter_append, ih]
    obtain ⟨started, sent⟩ := p
    cases started <;> rfl

theorem reasoning_closed (contents : List Text) (last : Event) (first second : Text) :
    Closed (outputs reasoningNext (false, 0) contents ++
      reasoningEnd (after reasoningNext (false, 0) contents).1 last first second) ↔
        contents = [] := by
  by_cases hne : contents = []
  · subst hne
    have hend : reasoningEnd false last first second = [] := by simp [reasoningEnd]
    exact iff_of_true (Or.inl hend) rfl
  have hbound : (outputs reasoningNext (false, 0) contents).filter Mark.bound =
      [.started] := by
    rw [reasoning_bound, isEmpty_eq_false_iff.mpr hne]
    rfl
  refine iff_of_false (fun hclosed => ?_) hne
  rcases hclosed with hnil | ⟨text, htext, -⟩
  · exact ne_nil_of_bound hbound (append_eq_nil_iff.mp hnil).1
  · rw [filter_append, hbound, reasoningEnd] at htext
    split at htext <;> cases htext

theorem user_quiet (starts : List Unit) : outputs userNext false starts = [] := by
  induction starts with
  | nil => rfl
  | cons _ starts ih => exact ih

theorem user_closed (due : Bool) (starts : List Unit) :
    Closed (outputs userNext due starts) := by
  cases starts with
  | nil => exact Or.inl rfl
  | cons _ starts =>
    have hsame : outputs userNext due (() :: starts) = (userNext due ()).1 := by
      rw [outputs]
      exact (congrArg _ (user_quiet starts)).trans (append_nil _)
    rw [hsame]
    cases due with
    | false => exact Or.inl rfl
    | true => exact Or.inr ⟨none, rfl, fun t ht => by cases ht⟩

theorem compaction_closed (compactions : List Unit) :
    Closed (outputs compactionNext () compactions) ↔ compactions.length ≤ 1 := by
  match compactions with
  | [] => exact iff_of_true (Or.inl rfl) (Nat.zero_le 1)
  | [_] => exact iff_of_true (Or.inr ⟨none, rfl, fun t ht => by cases ht⟩) (Nat.le_refl 1)
  | _ :: _ :: compactions =>
    refine iff_of_false (fun hclosed => ?_) (by simp)
    rcases hclosed with hnil | ⟨text, htext, -⟩
    · cases hnil
    · cases htext

/-! ## The whole turn -/

theorem no_reasoning {events : List Event} :
    events.filterMap Event.reasoning = [] ↔ ∀ e ∈ events, e.reasons = false := by
  rw [filterMap_eq_nil_iff]
  refine forall₂_congr fun e _ => ?_
  cases e <;> simp [Event.reasoning, Event.reasons]

theorem compactions_length {events : List Event} :
    (events.filterMap Event.compaction).length = events.countP Event.compacts := by
  induction events with
  | nil => rfl
  | cons e events ih =>
    cases e with
    | contextCompacted => exact (congrArg (· + 1) ih).trans (countP_cons_of_pos rfl).symm
    | _ => exact ih.trans (countP_cons_of_neg Bool.false_ne_true).symm

theorem command_nonempty (id : Text) (events : List Event) :
    ∀ x ∈ events.filterMap (Event.command id), x ≠ .delta [] := by
  rintro x hx rfl
  obtain ⟨e, -, he⟩ := mem_filterMap.mp hx
  cases e with
  | execCommandOutputDelta id' stream delta =>
    rw [Event.command] at he
    split at he
    case isTrue hdelta => exact hdelta.2 (CallInput.delta.inj (Option.some.inj he))
    case isFalse => cases he
  | execCommandBegin id' command cwd source =>
    rw [Event.command] at he
    split at he <;> cases he
  | execCommandEnd id' exitCode durationMs =>
    rw [Event.command] at he
    split at he <;> cases he
  | _ => cases he

section Turn
variable {a : CodexTurnEventAdapter} {events : List Event} {last : Event}

theorem spoken_last (hlast : last.terminal = true) (slot : Slot) :
    (spoken a last).filterMap (view slot) =
      match slot with
      | .agent => agentEnd (agentPart a) last
      | .reasoning => reasoningEnd a.reasoningStarted last
          ((a.reasoningTextParts.getLast?).getD []) a.reasoningTextParts.flatten
      | _ => [] := by
  cases last with
  | turnComplete outcome usage =>
    cases hr : a.reasoningStarted <;> cases hs : a.agentStarted <;> cases hc : a.agentCompleted <;>
      cases slot <;>
        simp [spoken, view, agentEnd, reasoningEnd, agentPart, Event.completes, hr, hs, hc]
  | turnAborted => cases slot <;> rfl
  | error message recoverable => cases slot <;> rfl
  | _ => cases hlast

theorem project_running (he : last.terminal = false) :
    ∀ n ∈ (a.project last).1, n.completesTurn = false := by
  cases last with
  | turnStarted =>
    rw [project, onTurnStarted]
    split <;> simp [Notification.completesTurn]
  | agentMessageDelta delta =>
    rw [project, onAgentMessageDelta,
      agentStart]
    split <;> simp [Notification.completesTurn]
  | agentMessage content =>
    rw [project, onAgentMessage,
      agentStart]
    split <;> try split
    all_goals simp [Notification.completesTurn]
  | agentReasoning content =>
    rw [project, onAgentReasoning]
    split <;> simp [Notification.completesTurn]
  | execCommandBegin id command cwd source =>
    exact forall_mem_singleton.mpr rfl
  | execCommandOutputDelta id stream delta =>
    rw [project, onExecCommandOutputDelta]
    split <;> simp [Notification.completesTurn]
  | execCommandEnd id exitCode durationMs =>
    rw [project, onExecCommandEnd]
    split <;> simp [Notification.completesTurn]
  | toolCallBegin id name arguments =>
    rw [project, onToolCallBegin]
    split <;> simp [Notification.completesTurn]
  | toolCallEnd id name preview =>
    rw [project, onToolCallEnd]
    split <;> try split
    all_goals try split
    all_goals simp [Notification.completesTurn]
  | toolCallOutputDelta id delta => exact forall_mem_singleton.mpr rfl
  | approvalRequested approvalId category description details =>
    rw [project, onApprovalRequested]
    split <;> try split
    all_goals simp [Notification.completesTurn]
  | contextCompacted => exact forall_mem_cons.mpr ⟨rfl, forall_mem_singleton.mpr rfl⟩
  | error message recoverable =>
    cases recoverable with
    | true => exact forall_mem_singleton.mpr rfl
    | false => cases he
  | other => exact forall_mem_nil _
  | _ => cases he

theorem project_last (hlast : last.terminal = true) :
    ∃ front n, (a.project last).1 = front ++ [n] ∧ n.completesTurn = true ∧
      ∀ n' ∈ front, n'.completesTurn = false := by
  cases last with
  | turnComplete outcome usage =>
    refine ⟨_, _, rfl, rfl, ?_⟩
    simp only [forall_mem_append]
    refine ⟨⟨⟨?_, ?_⟩, ?_⟩, ?_⟩ <;> split <;> simp [Notification.completesTurn]
  | turnAborted => exact ⟨[], _, rfl, rfl, forall_mem_nil _⟩
  | error message recoverable =>
    cases recoverable with
    | true => cases hlast
    | false => exact ⟨[.error message false], _, rfl, rfl, forall_mem_singleton.mpr rfl⟩
  | _ => cases hlast

theorem completed_iff (hlast : last.terminal = true) :
    (∃ before n, notifications a (events ++ [last]) = before ++ [n] ∧ n.completesTurn = true ∧
        ∀ n' ∈ before, n'.completesTurn = false) ↔
      ∀ e ∈ events, e.terminal = false := by
  obtain ⟨front, n, hfront, hn, hrest⟩ := project_last (a := after _ a events) hlast
  have hall : notifications a (events ++ [last]) = (notifications a events ++ front) ++ [n] := by
    rw [notifications, outputs_append, outputs_singleton, hfront,
      append_assoc]
    rfl
  rw [hall]
  constructor
  · rintro ⟨before, n', heq, -, hbefore⟩ e he
    obtain ⟨rfl, -⟩ := append_inj' heq rfl
    cases hterminal : e.terminal with
    | false => rfl
    | true =>
      obtain ⟨s, hsub⟩ := exists_subset_outputs project a he
      obtain ⟨front', last', hproject, hcompletes, -⟩ := project_last (a := s) hterminal
      have hmem : last' ∈ notifications a events := hsub (by rw [hproject]; simp)
      rw [hbefore _ (mem_append_left _ hmem)] at hcompletes
      cases hcompletes
  · intro hrunning
    refine ⟨_, n, rfl, hn, forall_mem_append.mpr ⟨?_, hrest⟩⟩
    exact outputs_forall project
      (fun s e he => project_running he) a hrunning

theorem marksOf_turn (a : CodexTurnEventAdapter) (events : List Event) (last : Event)
    (slot : Slot) :
    marksOf slot (outputs speak a (events ++ [last])) =
      (outputs speak a events).filterMap (view slot) ++
        (spoken (after speak a events) last).filterMap (view slot) := by
  rw [outputs_append, outputs_singleton]
  exact filterMap_append

variable {threadId turnId : Text} {inputItems : List Json.Value}
  {clientUserMessageId : Option Text} {emitUserMessageItem : Bool}

theorem items_iff (hrunning : ∀ e ∈ events, e.terminal = false) (hlast : last.terminal = true)
    (ha : a = .init threadId turnId inputItems clientUserMessageId emitUserMessageItem) :
    (∀ slot, Closed (marksOf slot (outputs speak a (events ++ [last])))) ↔
      Regular events last := by
  have hturn := marksOf_turn a events last
  have hend := spoken_last (a := after speak a events) hlast
  have hagent : Closed (marksOf .agent (outputs speak a (events ++ [last]))) ↔
      agentRegular (events.filterMap Event.agent) last := by
    obtain ⟨hmarks, hpart⟩ := agent_marks a hrunning
    rw [hturn, hend, hmarks, hpart, ha]
    exact agent_closed _ last
  have hreasoning : Closed (marksOf .reasoning (outputs speak a (events ++ [last]))) ↔
      events.filterMap Event.reasoning = [] := by
    obtain ⟨hmarks, hpart⟩ := reasoning_marks a hrunning
    have hstarted : (after speak a events).reasoningStarted = (after reasoningNext
      (reasoningPart a) (events.filterMap Event.reasoning)).1 := congrArg Prod.fst hpart
    rw [hturn, hend, hmarks, hstarted, ha]
    exact reasoning_closed _ last _ _
  have huser : Closed (marksOf .user (outputs speak a (events ++ [last]))) := by
    rw [hturn, hend, (user_marks a hrunning).1, append_nil]
    exact user_closed _ _
  have hcompaction : Closed (marksOf .compaction (outputs speak a (events ++ [last]))) ↔
      (events.filterMap Event.compaction).length ≤ 1 := by
    rw [hturn, hend, compaction_marks a hrunning, append_nil]
    exact compaction_closed _
  have hcommand : ∀ id, Closed (marksOf (.exec id) (outputs speak a (events ++ [last]))) ↔
      commandRegular (events.filterMap (Event.command id)) := by
    intro id
    rw [hturn, hend, (command_marks id a hrunning).1, append_nil, ha]
    exact command_closed (command_nonempty id events)
  have htool : ∀ id, Closed (marksOf (.tool id) (outputs speak a (events ++ [last]))) ↔
      toolRegular (events.filterMap (Event.tool id)) := by
    intro id
    rw [hturn, hend, (tool_marks id a hrunning).1, append_nil, ha]
    exact tool_closed _
  rw [no_reasoning] at hreasoning
  rw [compactions_length] at hcompaction
  constructor
  · intro h
    exact ⟨hrunning, hagent.mp (h .agent), hreasoning.mp (h .reasoning),
      hcompaction.mp (h .compaction), fun id => (hcommand id).mp (h (.exec id)),
      fun id => (htool id).mp (h (.tool id))⟩
  · intro h slot
    cases slot with
    | user => exact huser
    | agent => exact hagent.mpr h.agent
    | reasoning => exact hreasoning.mpr h.reasoning
    | exec id => exact (hcommand id).mpr (h.commands id)
    | tool id => exact (htool id).mpr (h.tools id)
    | compaction => exact hcompaction.mpr h.compacted

/-- **The notifications of a turn.** They are well formed iff the events are regular. -/
theorem projected_iff (threadId turnId : Text) (inputItems : List Json.Value)
    (clientUserMessageId : Option Text) (emitUserMessageItem : Bool) (events : List Event)
    (last : Event) (hlast : last.terminal = true) :
    WellFormed (notifications (.init threadId turnId inputItems clientUserMessageId
      emitUserMessageItem) (events ++ [last])) ↔ Regular events last := by
  have hkept : Kept turnId (.init threadId turnId inputItems clientUserMessageId
      emitUserMessageItem) := ⟨rfl, fun id item hitem => nomatch hitem⟩
  constructor
  · rintro ⟨hcompleted, hitems⟩
    have hrunning := (completed_iff hlast).mp hcompleted
    exact (items_iff hrunning hlast rfl).mp ((closed_iff hkept _).mp hitems)
  · intro h
    refine ⟨(completed_iff hlast).mpr h.once, (closed_iff hkept _).mpr ?_⟩
    exact (items_iff h.once hlast rfl).mpr h

/-- A turn with a streamed answer and a command. -/
def commandTurn : List Event :=
  [.turnStarted, .execCommandBegin "1".toList "ls".toList "/".toList "model".toList,
    .execCommandOutputDelta "1".toList "stdout".toList "a".toList,
    .execCommandEnd "1".toList 0 5, .agentMessageDelta "done".toList,
    .agentMessage "done".toList]

theorem commandTurn_projected :
    WellFormed (notifications (.init "thread".toList "turn".toList [] none true)
      (commandTurn ++ [.turnComplete "success".toList []])) := by
  refine (projected_iff _ _ _ _ _ commandTurn _ rfl).mpr ⟨by decide, rfl, by decide, by decide,
    fun id => ?_, fun id => Or.inl (List.forall_mem_nil _)⟩
  by_cases hid : "1".toList = id
  · subst hid
    exact Or.inr ⟨[], [.delta "a".toList], rfl, List.forall_mem_nil _, by decide⟩
  · have hunseen : commandTurn.filterMap (Event.command id) = [] := by
      simp only [commandTurn, List.filterMap_cons, Event.command, hid, false_and, if_false]
      rfl
    rw [hunseen]
    exact Or.inl (List.forall_mem_nil _)

/-- A turn that reasons completes its reasoning item twice, and an aborted turn leaves its command
open. -/
theorem reasoning_twice :
    ¬ WellFormed (notifications (.init "thread".toList "turn".toList [] none true)
        ([.turnStarted, .agentReasoning "why".toList] ++ [.turnComplete "success".toList []])) ∧
      ¬ WellFormed (notifications (.init "thread".toList "turn".toList [] none true)
        ([.turnStarted, .execCommandBegin "1".toList "ls".toList "/".toList "model".toList] ++
          [.turnAborted])) := by
  constructor
  · intro h
    exact not_closed (by decide) (by decide) (h.items "turn:reasoning".toList)
  · intro h
    exact not_closed (by decide) (by decide) (h.items "turn:exec:1".toList)

end Turn

end MiqroForge.Turns
