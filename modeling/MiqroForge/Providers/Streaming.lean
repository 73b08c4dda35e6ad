import MiqroForge.Providers.OpenAI
import Mathlib.Data.List.Perm.Basic
import Mathlib.Data.List.Nodup
import Mathlib.Order.Lattice

/-!
A streamed completion against the same completion as a whole. What the chunks add up to is the
message they were cut from; the two readings differ only where the content is read as a call.
-/

namespace MiqroForge.Providers.OpenAI

open PyText Json List

/-! ## Cuts -/

section Cuts
variable {α : Type}

/-- The values there are are all `value`. -/
def Gives (values : List (Option α)) (value : Option α) : Prop :=
  ∀ v, some v ∈ values ↔ value = some v

theorem gives_of {values : List (Option α)} {value : Option α}
    (hall : ∀ x ∈ values, x = none ∨ x = value) (hsome : value = none ∨ value ∈ values) :
    Gives values value := by
  intro v
  constructor
  · intro hv
    rcases hall _ hv with hnone | heq
    · cases hnone
    · exact heq.symm
  · rintro rfl
    rcases hsome with hnone | hmem
    · cases hnone
    · exact hmem

def choices (chunks : List Chunk) : List Choice := chunks.filterMap Chunk.choice

def fragments (chunks : List Chunk) : List CallFragment :=
  (choices chunks).flatMap Choice.toolCalls

/-- The fragments of a tool call. -/
structure Assembles (parts : List CallFragment) (call : CompletionCall) : Prop where
  started : parts ≠ []
  id : Gives (parts.map fun tc => orNone tc.id) (orNone (some call.id))
  name : parts.flatMap (fun tc => orEmpty tc.name) = call.name
  arguments : parts.flatMap (fun tc => orEmpty tc.arguments) = call.arguments

/-- A way to cut `message` into chunks. -/
structure Cuts (message : Completion) (chunks : List Chunk) : Prop where
  content : (choices chunks).flatMap (fun c => orEmpty c.content) = orEmpty message.content
  reasoning : (choices chunks).flatMap (fun c => orEmpty c.reasoning) = orEmpty message.reasoning
  calls : ∀ i, ∀ call ∈ message.toolCalls[i]?,
    Assembles ((fragments chunks).filter fun tc => tc.index = i) call
  indices : ∀ tc ∈ fragments chunks, tc.index < message.toolCalls.length
  finish : Gives ((choices chunks).map fun c => orNone c.finishReason)
    (orNone message.finishReason)
  usage : Gives ((chunks.filter fun chunk => chunk.choice.isNone).map Chunk.usage) message.usage

end Cuts

/-! ## What is said -/

def StreamEvent.content : StreamEvent → Text
  | .contentDelta delta => delta
  | _ => []

def StreamEvent.reasoning : StreamEvent → Text
  | .reasoningDelta delta => delta
  | _ => []

def StreamEvent.response? : StreamEvent → Option LLMResponse
  | .completed response => some response
  | _ => none

/-- The events say what `response` says, and report it once; no content is the same as empty
content. -/
structure Agrees (response : LLMResponse) (events : List StreamEvent) : Prop where
  completed : events.filterMap StreamEvent.response? =
    [{ response with content := orNone response.content }]
  content : events.flatMap StreamEvent.content = orEmpty response.content
  reasoning : events.flatMap StreamEvent.reasoning = orEmpty response.reasoningContent

/-! ## The state behind the chunks -/

/-- The last value that is given. -/
def lastOf {α : Type} (start : Option α) (values : List (Option α)) : Option α :=
  values.foldl (fun last value => value.or last) start

theorem Gives.lastOf_eq {α : Type} {values : List (Option α)} {value : Option α}
    (h : Gives values value) : lastOf none values = value := by
  have hall : ∀ x ∈ values, x = none ∨ x = value := by
    intro x hx
    cases x with
    | none => exact Or.inl rfl
    | some v => exact Or.inr ((h v).mp hx).symm
  have hrun : ∀ values : List (Option α), (∀ x ∈ values, x = none ∨ x = value) →
      ∀ start, (start = value ∨ start = none ∧ value ∈ values) →
        lastOf start values = value := by
    intro values
    induction values with
    | nil =>
      rintro - start (hstart | ⟨-, hmem⟩)
      · exact hstart
      · cases hmem
    | cons x values ih =>
      intro hall start hstart
      obtain ⟨hx, hvalues⟩ := forall_mem_cons.mp hall
      refine ih hvalues (x.or start) ?_
      rcases hx with rfl | rfl
      · rcases hstart with rfl | ⟨rfl, hmem⟩
        · exact Or.inl rfl
        · rcases mem_cons.mp hmem with rfl | hmem
          · exact Or.inl rfl
          · exact Or.inr ⟨rfl, hmem⟩
      · refine Or.inl ?_
        rcases hstart with rfl | ⟨rfl, -⟩
        · exact Option.or_self
        · exact Option.or_none
  refine hrun values hall none ?_
  cases value with
  | none => exact Or.inl rfl
  | some v => exact Or.inr ⟨rfl, (h v).mpr rfl⟩

def Choice.deltas (c : Choice) : List StreamEvent :=
  (orNone c.content).toList.map StreamEvent.contentDelta ++
    (orNone c.reasoning).toList.map StreamEvent.reasoningDelta

theorem foldl_chunk (chunks : List Chunk) (st : StreamState) :
    chunks.foldl StreamState.chunk st =
      { events := st.events ++ (choices chunks).flatMap Choice.deltas
        contentParts := st.contentParts ++
          (choices chunks).flatMap fun c => (orNone c.content).toList
        reasoningParts := st.reasoningParts ++
          (choices chunks).flatMap fun c => (orNone c.reasoning).toList
        toolCallAccum := (fragments chunks).foldl addFragment st.toolCallAccum
        finishReason := lastOf st.finishReason ((choices chunks).map fun c => orNone c.finishReason)
        usage := lastOf st.usage
          ((chunks.filter fun chunk => chunk.choice.isNone).map Chunk.usage) } := by
  induction chunks generalizing st with
  | nil => simp [choices, fragments, lastOf]
  | cons chunk chunks ih =>
    rw [foldl_cons, ih]
    cases hchoice : chunk.choice with
    | none => simp [StreamState.chunk, hchoice, choices, fragments, lastOf]
    | some choice =>
      simp [StreamState.chunk, hchoice, choices, fragments, lastOf, Choice.deltas]

/-! ## Texts -/

theorem orNone_flatten (parts : List (Option Text)) :
    (parts.flatMap fun t => (orNone t).toList).flatten = parts.flatMap orEmpty := by
  induction parts with
  | nil => rfl
  | cons t parts ih =>
    rw [flatMap_cons, flatten_append, ih, flatMap_cons]
    congr 1
    cases t with
    | none => rfl
    | some t =>
      cases t with
      | nil => rfl
      | cons c t => exact append_nil (c :: t)

theorem orNone_orEmpty (t : Option Text) : orNone (some (orEmpty t)) = orNone t := by
  cases t with
  | none => rfl
  | some t => rfl

theorem orEmpty_orNone (t : Option Text) : orEmpty (orNone t) = orEmpty t := by
  cases t with
  | none => rfl
  | some t => cases t <;> rfl

theorem orNone_inj {s t : Text} (h : orNone (some s) = orNone (some t)) : s = t := by
  have hs := orEmpty_orNone (some s)
  rw [h, orEmpty_orNone] at hs
  exact hs.symm

theorem deltas_content (cs : List Choice) :
    (cs.flatMap Choice.deltas).flatMap StreamEvent.content =
      cs.flatMap fun c => orEmpty c.content := by
  rw [flatMap_assoc]
  refine flatMap_congr fun c _ => ?_
  have hreasoning : ((orNone c.reasoning).toList.map StreamEvent.reasoningDelta).flatMap
      StreamEvent.content = [] := by
    cases orNone c.reasoning <;> rfl
  rw [Choice.deltas, flatMap_append, hreasoning, append_nil, ← orEmpty_orNone c.content]
  cases orNone c.content with
  | none => rfl
  | some t => exact append_nil t

theorem deltas_reasoning (cs : List Choice) :
    (cs.flatMap Choice.deltas).flatMap StreamEvent.reasoning =
      cs.flatMap fun c => orEmpty c.reasoning := by
  rw [flatMap_assoc]
  refine flatMap_congr fun c _ => ?_
  have hcontent : ((orNone c.content).toList.map StreamEvent.contentDelta).flatMap
      StreamEvent.reasoning = [] := by
    cases orNone c.content <;> rfl
  rw [Choice.deltas, flatMap_append, hcontent, nil_append, ← orEmpty_orNone c.reasoning]
  cases orNone c.reasoning with
  | none => rfl
  | some t => exact append_nil t

theorem deltas_response (cs : List Choice) :
    (cs.flatMap Choice.deltas).filterMap StreamEvent.response? = [] := by
  refine filterMap_eq_nil_iff.mpr fun e he => ?_
  obtain ⟨c, -, he⟩ := mem_flatMap.mp he
  rcases mem_append.mp he with he | he
  · obtain ⟨t, -, rfl⟩ := mem_map.mp he
    rfl
  · obtain ⟨t, -, rfl⟩ := mem_map.mp he
    rfl

/-! ## Tool calls -/

theorem foldl_add (parts : List CallFragment) (acc : AccumulatedCall) :
    orNone (some (parts.foldl AccumulatedCall.add acc).id) =
        lastOf (orNone (some acc.id)) (parts.map fun tc => orNone tc.id) ∧
      (parts.foldl AccumulatedCall.add acc).name =
        acc.name ++ parts.flatMap (fun tc => orEmpty tc.name) ∧
      (parts.foldl AccumulatedCall.add acc).arguments =
        acc.arguments ++ parts.flatMap (fun tc => orEmpty tc.arguments) := by
  induction parts generalizing acc with
  | nil => simp [lastOf]
  | cons tc parts ih =>
    obtain ⟨hid, hname, harguments⟩ := ih (acc.add tc)
    have hstep : orNone (some (acc.add tc).id) = (orNone tc.id).or (orNone (some acc.id)) := by
      unfold AccumulatedCall.add
      cases tc.id with
      | none => rfl
      | some t => cases t <;> rfl
    refine ⟨?_, ?_, ?_⟩
    · rw [foldl_cons, hid, hstep]
      rfl
    · rw [foldl_cons, hname, flatMap_cons, ← append_assoc]
      rfl
    · rw [foldl_cons, harguments, flatMap_cons, ← append_assoc]
      rfl

theorem Assembles.foldl_eq {parts : List CallFragment} {call : CompletionCall}
    (h : Assembles parts call) :
    parts.foldl AccumulatedCall.add {} = ⟨call.id, call.name, call.arguments⟩ := by
  obtain ⟨hid, hname, harguments⟩ := foldl_add parts {}
  have hid := orNone_inj (hid.trans h.id.lastOf_eq)
  rw [nil_append, h.name] at hname
  rw [nil_append, h.arguments] at harguments
  rw [← hid, ← hname, ← harguments]

theorem get?_foldl_addFragment (parts : List CallFragment) (accum : List (Nat × AccumulatedCall))
    (i : Nat) :
    Table.get? (parts.foldl addFragment accum) i =
      if parts.filter (fun tc => tc.index = i) = [] then Table.get? accum i
      else some ((parts.filter fun tc => tc.index = i).foldl AccumulatedCall.add
        ((Table.get? accum i).getD {})) := by
  induction parts generalizing accum with
  | nil => rfl
  | cons tc parts ih =>
    rw [foldl_cons, ih, addFragment, Table.get?_set]
    by_cases hi : tc.index = i
    · rw [if_pos hi.symm, filter_cons_of_pos (by simpa using hi),
        if_neg (cons_ne_nil _ _), foldl_cons, Option.getD_some, hi]
      split
      case isTrue hnone => rw [hnone, foldl_nil]
      case isFalse => rfl
    · rw [if_neg (Ne.symm hi), filter_cons_of_neg (by simpa using hi)]

theorem keys_foldl_addFragment (parts : List CallFragment)
    {accum : List (Nat × AccumulatedCall)} (h : (accum.map Prod.fst).Nodup) :
    ((parts.foldl addFragment accum).map Prod.fst).Nodup := by
  induction parts generalizing accum with
  | nil => exact h
  | cons tc parts ih =>
    rw [foldl_cons]
    exact ih (Table.nodup_keys_set h _ _)

section Calls
variable {message : Completion} {chunks : List Chunk}

theorem Cuts.get?_call (h : Cuts message chunks) {i : Nat} {call : CompletionCall}
    (hcall : message.toolCalls[i]? = some call) :
    Table.get? ((fragments chunks).foldl addFragment []) i =
      some ⟨call.id, call.name, call.arguments⟩ := by
  have hparts := h.calls i call hcall
  rw [get?_foldl_addFragment, if_neg hparts.started]
  exact congrArg some hparts.foldl_eq

theorem Cuts.mem_keys (h : Cuts message chunks) (i : Nat) :
    i ∈ ((fragments chunks).foldl addFragment []).map Prod.fst ↔ i < message.toolCalls.length := by
  constructor
  · intro hi
    by_contra hge
    have hnone : (fragments chunks).filter (fun tc => tc.index = i) = [] := by
      refine filter_eq_nil_iff.mpr fun tc htc heq => hge ?_
      exact of_decide_eq_true heq ▸ h.indices tc htc
    refine absurd hi (Table.get?_eq_none.mp ?_)
    rw [get?_foldl_addFragment, if_pos hnone]
    rfl
  · intro hi
    by_contra hnot
    have hnone := Table.get?_eq_none.mpr hnot
    rw [h.get?_call (getElem?_eq_getElem hi)] at hnone
    cases hnone

theorem Cuts.calls_eq (h : Cuts message chunks) :
    (chunks.foldl StreamState.chunk {}).calls =
      message.toolCalls.map fun call => ⟨call.id, call.name, call.arguments⟩ := by
  have hstate := foldl_chunk chunks {}
  have haccum : (chunks.foldl StreamState.chunk {}).toolCallAccum =
      (fragments chunks).foldl addFragment [] := by rw [hstate]
  have hkeys : (((fragments chunks).foldl addFragment []).map Prod.fst).mergeSort (· ≤ ·) =
      range message.toolCalls.length := by
    have hnodup := @keys_foldl_addFragment (fragments chunks) [] nodup_nil
    have hperm : (((fragments chunks).foldl addFragment []).map Prod.fst).Perm
        (range message.toolCalls.length) :=
      (perm_ext_iff_of_nodup hnodup nodup_range).mpr fun i => by
        rw [h.mem_keys, mem_range]
    have hsorted := (@pairwise_mergeSort Nat (fun a b => decide (a ≤ b))
      (fun a b c => by simpa using Nat.le_trans) (fun a b => by simpa using Nat.le_total a b)
      (((fragments chunks).foldl addFragment []).map Prod.fst)).imp of_decide_eq_true
    have hrange := (@pairwise_lt_range message.toolCalls.length).imp Nat.le_of_lt
    exact List.Perm.eq_of_pairwise (fun a b _ _ => Nat.le_antisymm) hsorted hrange
      ((mergeSort_perm _ _).trans hperm)
  rw [StreamState.calls, haccum, hkeys]
  refine ext_getElem (by simp) fun i hi hi' => ?_
  have hlt : i < message.toolCalls.length := by simpa using hi'
  rw [getElem_map, getElem_range, h.get?_call (getElem?_eq_getElem hlt),
    getElem_map]
  rfl

end Calls

/-! ## The responses -/

section Responses
variable (repair : Text → Value) {message : Completion} {chunks : List Chunk}

/-- The tool calls that a message lists. -/
def Completion.listed (message : Completion) : List ToolCallRequest :=
  message.toolCalls.map fun tc =>
    { id := tc.id
      name := tc.name
      arguments := parseToolCallArguments repair tc.arguments
      truncated := (orNone message.finishReason).getD "stop".toList == "length".toList &&
        !argsStrictOk tc.arguments }

/-- The tool call that the content of a message is read as. -/
def Completion.recovered (message : Completion) : Option ToolCallRequest :=
  let finish := (orNone message.finishReason).getD "stop".toList
  (message.content.bind parseToolCallFromContent).map fun call =>
    { call with truncated := finish == "length".toList }

theorem parseResponse_toolCalls : (parseResponse repair message).toolCalls =
    message.listed repair ++ if message.toolCalls = [] then message.recovered.toList else [] := by
  cases hcalls : message.toolCalls with
  | nil =>
    simp only [parseResponse, Completion.listed, Completion.recovered, hcalls, map_nil]
    rfl
  | cons call calls =>
    simp only [parseResponse, Completion.listed, hcalls]
    rfl

theorem finish_length (finish : Option Text) :
    (finish == some "length".toList) = (finish.getD "stop".toList == "length".toList) := by
  cases finish with
  | none => decide
  | some t => rfl

theorem Cuts.response_eq (h : Cuts message chunks) :
    (chunks.foldl StreamState.chunk {}).response repair =
      { parseResponse repair message with
        content := orNone message.content
        toolCalls := message.listed repair } := by
  have hcalls := h.calls_eq
  have hcontentParts : (chunks.foldl StreamState.chunk {}).contentParts =
      (choices chunks).flatMap fun c => (orNone c.content).toList := by
    rw [foldl_chunk]
    rfl
  have hreasoningParts : (chunks.foldl StreamState.chunk {}).reasoningParts =
      (choices chunks).flatMap fun c => (orNone c.reasoning).toList := by
    rw [foldl_chunk]
    rfl
  have hcontent : orNone (some (chunks.foldl StreamState.chunk {}).contentParts.flatten) =
      orNone message.content := by
    have hparts := orNone_flatten ((choices chunks).map Choice.content)
    rw [flatMap_map, flatMap_map] at hparts
    rw [hcontentParts, hparts, h.content, orNone_orEmpty]
  have hreasoning : orNone (some (chunks.foldl StreamState.chunk {}).reasoningParts.flatten) =
      orNone message.reasoning := by
    have hparts := orNone_flatten ((choices chunks).map Choice.reasoning)
    rw [flatMap_map, flatMap_map] at hparts
    rw [hreasoningParts, hparts, h.reasoning, orNone_orEmpty]
  have hfinish : (chunks.foldl StreamState.chunk {}).finishReason =
      orNone message.finishReason := by
    rw [foldl_chunk]
    exact h.finish.lastOf_eq
  have husage : (chunks.foldl StreamState.chunk {}).usage = message.usage := by
    rw [foldl_chunk]
    exact h.usage.lastOf_eq
  unfold StreamState.response
  rw [hcalls, hcontent, hreasoning, hfinish, husage, finish_length, map_map]
  rfl

theorem streamChat_events : streamChat repair chunks =
    (choices chunks).flatMap Choice.deltas ++
      [.completed ((chunks.foldl StreamState.chunk {}).response repair)] := by
  have hevents : (chunks.foldl StreamState.chunk {}).events =
      (choices chunks).flatMap Choice.deltas := by
    rw [foldl_chunk, nil_append]
  rw [streamChat, hevents]

theorem Cuts.completed_eq (h : Cuts message chunks) :
    (streamChat repair chunks).filterMap StreamEvent.response? =
      [{ parseResponse repair message with
        content := orNone message.content
        toolCalls := message.listed repair }] := by
  rw [streamChat_events, filterMap_append, deltas_response, h.response_eq]
  rfl

/-- A stream is read as the whole message is, unless the message lists no tool call and has one
written out in its content. -/
theorem streamed_iff (h : Cuts message chunks) :
    Agrees (parseResponse repair message) (streamChat repair chunks) ↔
      message.toolCalls ≠ [] ∨ message.content.bind parseToolCallFromContent = none := by
  constructor
  · rintro ⟨hresponse, -, -⟩
    rw [h.completed_eq] at hresponse
    have hcalls := congrArg LLMResponse.toolCalls (List.singleton_inj.mp hresponse)
    simp only [parseResponse_toolCalls] at hcalls
    have hrecovered := List.self_eq_append_right.mp hcalls
    by_cases hnone : message.toolCalls = []
    · right
      rw [if_pos hnone, Option.toList_eq_nil_iff] at hrecovered
      exact Option.map_eq_none_iff.mp hrecovered
    · exact Or.inl hnone
  · intro hcondition
    have hcalls : (parseResponse repair message).toolCalls = message.listed repair := by
      rw [parseResponse_toolCalls]
      rcases hcondition with hsome | hnone
      · rw [if_neg hsome, List.append_nil]
      · rw [Completion.recovered, hnone]
        simp
    refine ⟨?_, ?_, ?_⟩
    · rw [h.completed_eq, ← hcalls]
      rfl
    · rw [streamChat_events, List.flatMap_append, deltas_content, h.content]
      exact List.append_nil _
    · rw [streamChat_events, List.flatMap_append, deltas_reasoning, h.reasoning]
      exact (List.append_nil _).trans (orEmpty_orNone message.reasoning).symm

end Responses

/-! ## Streams -/

def toolMessage : Completion where
  content := some "ok".toList
  toolCalls := [⟨"a".toList, "f".toList, ['\x7b', '\x7d']⟩, ⟨"b".toList, "g".toList, []⟩]
  finishReason := some "length".toList
  usage := some ⟨1, 2, 3⟩

/-- A primer, then the fragments of two calls, the second call first, then the usage. -/
def toolChunks : List Chunk :=
  [{ choice := some { content := some [] } },
    { choice := some {
        content := some "ok".toList
        toolCalls := [{ index := 1, id := some "b".toList, name := some "g".toList },
          { index := 0, id := some "a".toList, name := some "f".toList }] } },
    { choice := some { toolCalls := [{ index := 0, arguments := some ['\x7b'] }] } },
    { choice := some {
        toolCalls := [{ index := 0, arguments := some ['\x7d'] }]
        finishReason := some "length".toList } },
    { usage := some ⟨1, 2, 3⟩ }]

theorem toolChunks_cuts : Cuts toolMessage toolChunks where
  content := by decide
  reasoning := by decide
  calls := by
    intro i call hcall
    rcases i with _ | _ | i
    · cases hcall
      exact ⟨by decide, gives_of (by decide) (by decide), by decide, by decide⟩
    · cases hcall
      exact ⟨by decide, gives_of (by decide) (by decide), by decide, by decide⟩
    · cases hcall
  indices := by decide
  finish := gives_of (by decide) (by decide)
  usage := gives_of (by decide) (by decide)

theorem tool_message_streamed :
    Agrees (parseResponse (fun _ => .null) toolMessage)
      (streamChat (fun _ => .null) toolChunks) :=
  (streamed_iff (fun _ => .null) toolChunks_cuts).mpr (Or.inl (List.cons_ne_nil _ _))

/-- A call that the model writes into its content. -/
def writtenCall : Text := "\x7b\x22name\x22: \x22f\x22, \x22arguments\x22: \x7b\x7d\x7d".toList

/-- The written call is made where the message comes whole, and not where it is streamed. -/
theorem written_call_lost :
    Cuts { content := some writtenCall } [{ choice := some { content := some writtenCall } }] ∧
      ¬ Agrees (parseResponse (fun _ => .null) { content := some writtenCall })
        (streamChat (fun _ => .null) [{ choice := some { content := some writtenCall } }]) := by
  have hcuts : Cuts { content := some writtenCall }
      [{ choice := some { content := some writtenCall } }] :=
    ⟨List.append_nil _, rfl, fun _ call hcall => (Option.not_mem_none call hcall).elim,
      fun _ htc => (List.not_mem_nil htc).elim,
      gives_of (by decide) (by decide), gives_of (by decide) (by decide)⟩
  refine ⟨hcuts, fun h => ?_⟩
  have hcompleted := h.completed
  rw [hcuts.completed_eq] at hcompleted
  have hcalls := congrArg (fun response => response.toolCalls.length)
    (List.singleton_inj.mp hcompleted)
  have hmade : (parseResponse (fun _ => .null)
      { content := some writtenCall }).toolCalls.length = 1 := by decide +kernel
  simp only [hmade] at hcalls
  cases hcalls

end MiqroForge.Providers.OpenAI
