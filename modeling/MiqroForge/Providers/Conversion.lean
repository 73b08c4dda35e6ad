import MiqroForge.Providers.Anthropic
import Mathlib.Data.List.Chain

/-!
What the converted messages look like: they follow the grammar of the provider and keep what
the conversation says exactly where each assistant has text or tool calls, and no blocks.
-/

namespace MiqroForge.Providers.Anthropic

open PyText Json PyRepr List

/-! ## Conversations -/

/-- Each assistant with tool calls is followed by one tool message for each call id. -/
inductive Paired : List Message → Prop where
  | nil : Paired []
  | plain {m : Message} {rest : List Message} (hrole : m.role ≠ .tool) (hcalls : m.calls = false)
      (hrest : Paired rest) : Paired (m :: rest)
  | calls {m : Message} {results rest : List Message} (hcalls : m.calls = true)
      (hrole : ∀ r ∈ results, r.role = .tool) (hnodup : (results.map Message.toolCallId).Nodup)
      (hids : ∀ id, id ∈ results.map Message.toolCallId ↔ id ∈ m.toolCalls.map ToolCall.id)
      (hrest : Paired rest) : Paired (m :: (results ++ rest))

/-- A paired conversation with a user message first, behind the system messages. -/
structure WellPaired (messages : List Message) : Prop where
  paired : Paired messages
  starts : ∃ first, (messages.find? fun m => m.role ≠ .system) = some first ∧ first.role = .user

/-! ## What is said -/

/-- A text, or a block that is no text. -/
inductive Piece where
  | text (t : Text)
  | item (v : Value)

section Pieces
variable (py : Python)

def textPieces (t : Text) : List Piece := if t = [] then [] else [.text t]

def itemPiece (v : Value) : Piece :=
  match itemGet v "text" with
  | some (.str t) => if isTextItem v then .text t else .item v
  | _ => .item v

/-- What a list of blocks says; a text block without text says nothing. -/
def itemPieces (items : List Value) : List Piece :=
  (items.filter fun v => !isEmptyTextItem py v).map itemPiece

def Message.pieces (m : Message) : List Piece :=
  match m.content with
  | .none => []
  | .text t => textPieces t
  | .blocks items => itemPieces py items

def Block.pieces : Block → List Piece
  | .item v => itemPieces py [v]
  | .text t => textPieces t
  | .toolUse _ _ _ => []
  | .toolResult _ (.text t) => textPieces t
  | .toolResult _ (.items items) => itemPieces py items

def Out.pieces (o : Out) : List Piece := o.blocks.flatMap (Block.pieces py)

/-- The placeholder may stand for a message that says nothing. -/
def Stands (m : Message) (said : List Piece) : Prop :=
  said = m.pieces py ∨ m.pieces py = [] ∧ said = [.text placeholder]

/-! ## The grammar of the provider -/

def Block.emptyText : Block → Bool
  | .item v => isEmptyTextItem py v
  | .text t => t.isEmpty
  | .toolUse _ _ _ => false
  | .toolResult _ (.text _) => false
  | .toolResult _ (.items items) => items.any (isEmptyTextItem py)

def Block.use? : Block → Option Text
  | .toolUse id _ _ => some id
  | _ => none

def Block.result? : Block → Option Text
  | .toolResult id _ => some id
  | _ => none

/-- The ids of the tool uses. -/
def Out.uses (o : Out) : List Text := o.blocks.filterMap Block.use?

/-- The ids that are answered. -/
def Out.results (o : Out) : List Text := o.blocks.filterMap Block.result?

/-- Each of `ids`, and nothing else, is answered once, before the other blocks. -/
structure Answers (ids : List Text) (o : Out) : Prop where
  nodup : o.results.Nodup
  ids : ∀ id, id ∈ o.results ↔ id ∈ ids
  first : ∃ front behind, o.blocks = front ++ behind ∧ (∀ b ∈ front, (b.result?).isSome) ∧
    ∀ b ∈ behind, b.result? = none

/-- A message behind `o`. -/
structure Follows (o next : Out) : Prop where
  role : o.role ≠ next.role
  answers : Answers o.uses next

structure Grammar (messages : List Message) (outs : List Out) : Prop where
  chain : outs.IsChain Follows
  answered : ∀ o ∈ outs.getLast?, o.uses = []
  noEmptyText : ∀ o ∈ outs, ∀ b ∈ o.blocks, b.emptyText py = false
  kept : ∃ said, List.Forall₂ (Stands py) (messages.filter fun m => m.role ≠ .system) said ∧
    outs.flatMap (Out.pieces py) = said.flatten

/-- An assistant that is converted without loss: it has text or tool calls, and no blocks. -/
def Message.Converts (m : Message) : Prop :=
  match m.content with
  | .none => m.toolCalls ≠ []
  | .text _ => True
  | .blocks items => (∀ v ∈ items, isEmptyTextItem py v = true) ∧ (items = [] → m.toolCalls ≠ [])

end Pieces

/-! ## Merging -/

theorem mergeStep_blocks (merged : List Out) (o : Out) :
    (mergeStep merged o).reverse.flatMap Out.blocks =
      merged.reverse.flatMap Out.blocks ++ o.blocks := by
  cases merged with
  | nil => simp [mergeStep]
  | cons prev rest =>
    unfold mergeStep
    dsimp only
    split
    · simp [Out.blocks]
    · simp

theorem foldl_mergeStep_blocks (outs merged : List Out) :
    (outs.foldl mergeStep merged).reverse.flatMap Out.blocks =
      merged.reverse.flatMap Out.blocks ++ outs.flatMap Out.blocks := by
  induction outs generalizing merged with
  | nil => simp
  | cons o outs ih => rw [foldl_cons, ih, mergeStep_blocks, flatMap_cons,
      append_assoc]

theorem mergeConsecutiveSameRole_blocks (outs : List Out) :
    (mergeConsecutiveSameRole outs).flatMap Out.blocks = outs.flatMap Out.blocks := by
  rw [mergeConsecutiveSameRole, foldl_mergeStep_blocks]
  rfl

theorem foldl_mergeStep_same (outs : List Out) (prev : Out) (rest : List Out)
    (hrole : ∀ o ∈ outs, o.role = prev.role) :
    ∃ last : Out, outs.foldl mergeStep (prev :: rest) = last :: rest ∧ last.role = prev.role ∧
      last.blocks = prev.blocks ++ outs.flatMap Out.blocks := by
  induction outs generalizing prev with
  | nil => exact ⟨prev, rfl, rfl, by simp⟩
  | cons o outs ih =>
    obtain ⟨ho, houts⟩ := forall_mem_cons.mp hrole
    have hstep : mergeStep (prev :: rest) o =
        ⟨prev.role, .blocks (prev.blocks ++ o.blocks)⟩ :: rest := by
      rw [mergeStep, if_pos ho.symm]
    obtain ⟨last, hfold, hlast, hblocks⟩ := ih ⟨prev.role, .blocks (prev.blocks ++ o.blocks)⟩ houts
    refine ⟨last, by rw [foldl_cons, hstep, hfold], hlast, ?_⟩
    rw [hblocks, flatMap_cons, ← append_assoc]
    rfl

/-! ## Answers -/

/-- The merged messages follow each other, the last one first. -/
def Chained (merged : List Out) : Prop := merged.IsChain fun next o => Follows o next

/-- Nothing is left to answer. -/
def Closed (merged : List Out) : Prop := ∀ o ∈ merged.head?, o.uses = []

theorem result?_none {o : Out} (h : o.results = []) {b : Block} (hb : b ∈ o.blocks) :
    b.result? = none := by
  cases hresult : b.result? with
  | none => rfl
  | some id =>
    have hmem : id ∈ o.results := mem_filterMap.mpr ⟨b, hb, hresult⟩
    simp [h] at hmem

theorem answers_nil {o : Out} (h : o.results = []) : Answers [] o :=
  ⟨by simp [h], by simp [h], [], o.blocks, rfl, by simp, fun _ => result?_none h⟩

theorem Answers.extend {ids : List Text} {prev o last : Out} (h : Answers ids prev)
    (ho : o.results = []) (hlast : last.blocks = prev.blocks ++ o.blocks) : Answers ids last := by
  have hresults : last.results = prev.results := by
    rw [Out.results, hlast, filterMap_append]
    exact (congrArg _ ho).trans (append_nil _)
  obtain ⟨front, behind, heq, hfront, hbehind⟩ := h.first
  refine ⟨hresults ▸ h.nodup, hresults ▸ h.ids, front, behind ++ o.blocks,
    by rw [hlast, heq, append_assoc], hfront, fun b hb => ?_⟩
  rcases mem_append.mp hb with hb | hb
  · exact hbehind b hb
  · exact result?_none ho hb

theorem Chained.replace {prev last : Out} {rest : List Out} (h : Chained (prev :: rest))
    (hfollows : ∀ o, Follows o prev → Follows o last) : Chained (last :: rest) := by
  cases rest with
  | nil => exact List.IsChain.singleton last
  | cons o rest =>
    obtain ⟨hprev, hrest⟩ := isChain_cons_cons.mp h
    exact isChain_cons_cons.mpr ⟨hfollows o hprev, hrest⟩

theorem mergeStep_chained {merged : List Out} {o : Out} (hchained : Chained merged)
    (hclosed : Closed merged) (ho : o.results = []) :
    Chained (mergeStep merged o) ∧ ∃ last rest, mergeStep merged o = last :: rest ∧
      last.role = o.role ∧ last.uses = o.uses := by
  cases merged with
  | nil => exact ⟨List.IsChain.singleton o, o, [], rfl, rfl, rfl⟩
  | cons prev rest =>
    have huses : prev.uses = [] := hclosed prev rfl
    by_cases hrole : prev.role = o.role
    · have hstep : mergeStep (prev :: rest) o =
          ⟨prev.role, .blocks (prev.blocks ++ o.blocks)⟩ :: rest := by
        rw [mergeStep, if_pos hrole]
      rw [hstep]
      refine ⟨hchained.replace fun before h => ⟨h.role, h.answers.extend ho rfl⟩, _, _, rfl,
        hrole, ?_⟩
      calc (prev.blocks ++ o.blocks).filterMap Block.use?
          = prev.uses ++ o.uses := filterMap_append
        _ = o.uses := by rw [huses, nil_append]
    · have hstep : mergeStep (prev :: rest) o = o :: prev :: rest := by
        rw [mergeStep, if_neg hrole]
      rw [hstep]
      have hfollows : Follows prev o := ⟨hrole, huses.symm ▸ answers_nil ho⟩
      exact ⟨isChain_cons_cons.mpr ⟨hfollows, hchained⟩, o, prev :: rest, rfl, rfl, rfl⟩

theorem foldl_answers {last : Out} {rest answers : List Out} (hchained : Chained (last :: rest))
    (hrole : last.role = .assistant) (hne : answers ≠ [])
    (huser : ∀ o ∈ answers, o.role = .user)
    (hresult : ∀ b ∈ answers.flatMap Out.blocks, (b.result?).isSome)
    (hnodup : (answers.flatMap Out.results).Nodup)
    (hids : ∀ id, id ∈ answers.flatMap Out.results ↔ id ∈ last.uses) :
    Chained (answers.foldl mergeStep (last :: rest)) ∧
      Closed (answers.foldl mergeStep (last :: rest)) := by
  obtain ⟨first, more, rfl⟩ := exists_cons_of_ne_nil hne
  obtain ⟨hfirst, hmore⟩ := forall_mem_cons.mp huser
  have hne : last.role ≠ first.role := by
    rw [hrole, hfirst]
    decide
  have hstep : mergeStep (last :: rest) first = first :: last :: rest := by
    rw [mergeStep, if_neg hne]
  obtain ⟨answer, hfold, hanswer, hblocks⟩ := foldl_mergeStep_same more first (last :: rest)
    fun o ho => (hmore o ho).trans hfirst.symm
  rw [foldl_cons, hstep, hfold]
  have hall : answer.blocks = (first :: more).flatMap Out.blocks := by
    rw [hblocks, flatMap_cons]
  have hresults : answer.results = (first :: more).flatMap Out.results := by
    rw [Out.results, hall, filterMap_flatMap]
    rfl
  have hfollows : Follows last answer := by
    refine ⟨fun h => hne (h.trans hanswer), hresults ▸ hnodup, hresults ▸ hids,
      answer.blocks, [], (append_nil _).symm, hall ▸ hresult, ?_⟩
    intro b hb
    cases hb
  refine ⟨isChain_cons_cons.mpr ⟨hfollows, hchained⟩, ?_⟩
  intro o ho
  obtain rfl := Option.mem_some.mp ho
  refine filterMap_eq_nil_iff.mpr fun b hb => ?_
  have hsome := hresult b (hall ▸ hb)
  cases b with
  | toolUse id name input => cases hsome
  | _ => rfl

/-! ## One message -/

section Messages
variable (py : Python) (repair : Text → Value)

theorem sanitize_eq (m : Message) :
    sanitize py m = { m with content := (sanitize py m).content } := by
  unfold sanitize Message.emptied
  split
  · rfl
  · split <;> rfl
  · dsimp only
    split
    · split <;> rfl
    · rfl

@[simp] theorem sanitize_role (m : Message) : (sanitize py m).role = m.role := by
  rw [sanitize_eq]

@[simp] theorem sanitize_toolCalls (m : Message) : (sanitize py m).toolCalls = m.toolCalls := by
  rw [sanitize_eq]

@[simp] theorem sanitize_toolCallId (m : Message) : (sanitize py m).toolCallId = m.toolCallId := by
  rw [sanitize_eq]

variable {m : Message}

theorem sanitize_none (h : m.content = .none) :
    (sanitize py m).content = .none := by
  simp only [sanitize, h]

theorem sanitize_text {t : Text} (h : m.content = .text t) :
    (sanitize py m).content = if t = [] then m.emptied.content else .text t := by
  simp only [sanitize, h]
  split
  · rfl
  · exact h

theorem sanitize_blocks {items : List Value} (h : m.content = .blocks items) :
    (sanitize py m).content =
      if items ≠ [] ∧ (items.filter fun v => !isEmptyTextItem py v) = [] then m.emptied.content
      else .blocks (items.filter fun v => !isEmptyTextItem py v) := by
  simp only [sanitize, h]
  by_cases hlength : (items.filter fun v => !isEmptyTextItem py v).length = items.length
  · have hsame := filter_eq_self.mpr (length_filter_eq_length_iff.mp hlength)
    rw [if_neg (not_not.mpr hlength), if_neg fun hboth => hboth.1 (hsame ▸ hboth.2), hsame]
    exact h
  · rw [if_pos hlength]
    have hitems : items ≠ [] := by
      rintro rfl
      exact hlength rfl
    split
    case isTrue hfiltered => rw [if_neg fun hboth => hfiltered hboth.2]
    case isFalse hfiltered => rw [if_pos ⟨hitems, not_not.mp hfiltered⟩]

/-- The messages before they are merged. -/
def converted (messages : List Message) : List Out :=
  messages.filterMap fun m => convert py repair (sanitize py m)

/-- Content without an empty text. -/
def Content.Clean : Content → Prop
  | .none => True
  | .text t => t ≠ []
  | .blocks items => ∀ v ∈ items, isEmptyTextItem py v = false

theorem emptied_clean (m : Message) : (m.emptied.content).Clean py := by
  unfold Message.emptied
  dsimp only
  split
  · trivial
  · exact cons_ne_nil _ _

theorem sanitize_clean (m : Message) : ((sanitize py m).content).Clean py := by
  cases hcontent : m.content with
  | none =>
    rw [sanitize_none py hcontent]
    trivial
  | text t =>
    rw [sanitize_text py hcontent]
    split
    · exact emptied_clean py m
    · assumption
  | blocks items =>
    rw [sanitize_blocks py hcontent]
    split
    · exact emptied_clean py m
    · intro v hv
      simpa using (mem_filter.mp hv).2

theorem emptied_stands (h : m.pieces py = []) :
    Stands py m (m.emptied.pieces py) := by
  unfold Message.emptied Message.pieces
  dsimp only
  split
  case h_1 => exact Or.inl h.symm
  case h_2 t ht =>
    refine Or.inr ⟨h, ?_⟩
    split at ht
    · cases ht
    · cases ht
      rfl
  case h_3 items hitems => split at hitems <;> cases hitems

theorem pieces_of_content {m n : Message} (h : m.content = n.content) :
    m.pieces py = n.pieces py := by
  unfold Message.pieces
  rw [h]

theorem sanitize_stands (m : Message) : Stands py m ((sanitize py m).pieces py) := by
  cases hcontent : m.content with
  | none => exact Or.inl (pieces_of_content py ((sanitize_none py hcontent).trans hcontent.symm))
  | text t =>
    have hsanitized := sanitize_text py hcontent
    split at hsanitized
    case isTrue ht =>
      rw [pieces_of_content py hsanitized]
      refine emptied_stands py ?_
      simp only [Message.pieces, hcontent, textPieces, if_pos ht]
    case isFalse ht => exact Or.inl (pieces_of_content py (hsanitized.trans hcontent.symm))
  | blocks items =>
    have hsanitized := sanitize_blocks py hcontent
    split at hsanitized
    case isTrue hitems =>
      rw [pieces_of_content py hsanitized]
      refine emptied_stands py ?_
      simp only [Message.pieces, hcontent, itemPieces, hitems.2, map_nil]
    case isFalse hitems =>
      refine Or.inl ?_
      simp only [Message.pieces, hsanitized, hcontent, itemPieces, filter_filter,
        Bool.and_self]

theorem Stands.trans {m n : Message} {said : List Piece} (hm : Stands py m (n.pieces py))
    (hn : Stands py n said) : Stands py m said := by
  rcases hn with rfl | ⟨hempty, rfl⟩
  · exact hm
  · rcases hm with hm | ⟨-, hm⟩
    · exact Or.inr ⟨hm ▸ hempty, rfl⟩
    · rw [hempty] at hm
      cases hm

/-- Of a converted assistant, what is not converted in full. -/
def Message.Settled (n : Message) : Prop :=
  match n.content with
  | .none => n.toolCalls ≠ []
  | .text _ => True
  | .blocks items => items = [] ∧ n.toolCalls ≠ []

theorem converts_iff (hrole : m.role = .assistant) :
    m.Converts py ↔ (sanitize py m).Settled := by
  unfold Message.Converts Message.Settled
  rw [sanitize_toolCalls]
  cases hcontent : m.content with
  | none => rw [sanitize_none py hcontent]
  | text t =>
    rw [sanitize_text py hcontent]
    refine iff_of_true trivial ?_
    by_cases ht : t = []
    · cases hcalls : m.toolCalls <;> simp [ht, Message.emptied, Message.calls, hrole, hcalls]
    · simp [ht]
  | blocks items =>
    rw [sanitize_blocks py hcontent]
    have hall : (items.filter fun v => !isEmptyTextItem py v) = [] ↔
        ∀ v ∈ items, isEmptyTextItem py v = true := by simp [filter_eq_nil_iff]
    by_cases hitems : items = []
    · simp [hitems]
    · by_cases hfiltered : (items.filter fun v => !isEmptyTextItem py v) = []
      · rw [if_pos ⟨hitems, hfiltered⟩]
        refine iff_of_true ⟨hall.mp hfiltered, fun h => absurd h hitems⟩ ?_
        cases hcalls : m.toolCalls <;> simp [Message.emptied, Message.calls, hrole, hcalls]
      · rw [if_neg fun h => hfiltered h.2]
        exact iff_of_false (fun h => hfiltered (hall.mpr h.1)) fun h => hfiltered h.1

theorem textPieces_pieces (t : Text) : [Block.text t].flatMap (Block.pieces py) = textPieces t :=
  append_nil _

theorem itemPieces_pieces (items : List Value) :
    (items.map Block.item).flatMap (Block.pieces py) = itemPieces py items := by
  induction items with
  | nil => rfl
  | cons v items ih =>
    rw [map_cons, flatMap_cons, ih, Block.pieces, itemPieces, itemPieces, itemPieces,
      ← map_append, ← filter_append]
    rfl

variable (n : Message)

theorem convertUserMsg_stands : Stands py n ((convertUserMsg n).pieces py) := by
  unfold convertUserMsg
  cases hcontent : n.content with
  | none => exact Or.inr ⟨by simp only [Message.pieces, hcontent], rfl⟩
  | text t =>
    refine Or.inl ?_
    simp only [Message.pieces, hcontent]
    exact textPieces_pieces py t
  | blocks items =>
    refine Or.inl ?_
    simp only [Message.pieces, hcontent]
    exact itemPieces_pieces py items

theorem convertToolResultMsg_pieces :
    (convertToolResultMsg n).pieces py = n.pieces py := by
  unfold convertToolResultMsg Message.pieces Out.pieces Out.blocks
  cases n.content with
  | none => rfl
  | text t => exact append_nil _
  | blocks items =>
    by_cases hitems : items = []
    · rw [hitems]
      rfl
    · simp only [if_neg hitems, flatMap_cons, flatMap_nil, append_nil]
      rfl

theorem convertAssistantMsg_pieces :
    (convertAssistantMsg py repair n).pieces py =
      (assistantText py n.content).flatMap (Block.pieces py) := by
  have huses : (n.toolCalls.map fun call => Block.toolUse call.id call.name
      (toolInput repair call.arguments)).flatMap (Block.pieces py) = [] := by
    rw [flatMap_map]
    exact flatMap_eq_nil_iff.mpr fun _ _ => rfl
  unfold convertAssistantMsg Out.pieces Out.blocks
  dsimp only
  split
  case isTrue hnone =>
    rw [(append_eq_nil_iff.mp hnone).1]
    rfl
  case isFalse => rw [flatMap_append, huses, append_nil]

theorem assistantText_pieces {n : Message} (h : n.Settled) :
    (assistantText py n.content).flatMap (Block.pieces py) = n.pieces py := by
  unfold Message.Settled at h
  unfold Message.pieces
  cases hcontent : n.content with
  | none => rfl
  | text t =>
    by_cases ht : t = []
    · simp [assistantText, textPieces, ht]
    · simp [assistantText, textPieces, ht, Block.pieces]
  | blocks items =>
    rw [hcontent] at h
    rw [h.1]
    rfl

theorem mem_assistantText {content : Content} {b : Block} (hb : b ∈ assistantText py content) :
    ∃ t, t ≠ [] ∧ b = .text t := by
  unfold assistantText at hb
  split at hb
  · cases hb
  · split at hb
    · cases hb
    case isFalse t ht => exact ⟨t, ht, mem_singleton.mp hb⟩
  · split at hb
    · cases hb
    · exact ⟨_, cons_ne_nil _ _, mem_singleton.mp hb⟩

theorem convertAssistantMsg_uses :
    (convertAssistantMsg py repair n).uses = n.toolCalls.map ToolCall.id := by
  have htext : (assistantText py n.content).filterMap Block.use? = [] := by
    refine filterMap_eq_nil_iff.mpr fun b hb => ?_
    obtain ⟨t, -, rfl⟩ := mem_assistantText py hb
    rfl
  have huses : (n.toolCalls.map fun call => Block.toolUse call.id call.name
      (toolInput repair call.arguments)).filterMap Block.use? = n.toolCalls.map ToolCall.id := by
    rw [filterMap_map, ← filterMap_eq_map]
    rfl
  unfold convertAssistantMsg Out.uses Out.blocks
  dsimp only
  split
  case isTrue hnone =>
    have hcalls := (append_eq_nil_iff.mp hnone).2
    rw [map_eq_nil_iff.mp hcalls]
    rfl
  case isFalse => rw [filterMap_append, htext, huses, nil_append]

theorem convertAssistantMsg_results :
    (convertAssistantMsg py repair n).results = [] := by
  refine filterMap_eq_nil_iff.mpr fun b hb => ?_
  unfold convertAssistantMsg Out.blocks at hb
  dsimp only at hb
  split at hb
  · obtain rfl := mem_singleton.mp hb
    rfl
  · rcases mem_append.mp hb with hb | hb
    · obtain ⟨t, -, rfl⟩ := mem_assistantText py hb
      rfl
    · obtain ⟨call, -, rfl⟩ := mem_map.mp hb
      rfl

theorem convertUserMsg_plain :
    (convertUserMsg n).uses = [] ∧ (convertUserMsg n).results = [] := by
  have hblocks : ∀ b ∈ (convertUserMsg n).blocks, b.use? = none ∧ b.result? = none := by
    unfold convertUserMsg Out.blocks
    intro b hb
    cases hcontent : n.content with
    | blocks items =>
      rw [hcontent] at hb
      obtain ⟨v, -, rfl⟩ := mem_map.mp hb
      exact ⟨rfl, rfl⟩
    | _ =>
      rw [hcontent] at hb
      obtain rfl := mem_singleton.mp hb
      exact ⟨rfl, rfl⟩
  exact ⟨filterMap_eq_nil_iff.mpr fun b hb => (hblocks b hb).1,
    filterMap_eq_nil_iff.mpr fun b hb => (hblocks b hb).2⟩

variable (messages : List Message)

theorem anthropicMessages_eq :
    anthropicMessages py repair messages =
      mergeConsecutiveSameRole (converted py repair messages) := by
  rw [anthropicMessages, filterMap_map]
  rfl

/-! ## All messages -/

section Roles
variable {m : Message}

theorem convert_system (hm : m.role = .system) :
    convert py repair (sanitize py m) = none := by
  simp only [convert, sanitize_role, hm]

theorem convert_user (hm : m.role = .user) :
    convert py repair (sanitize py m) = some (convertUserMsg (sanitize py m)) := by
  simp only [convert, sanitize_role, hm]

theorem convert_assistant (hm : m.role = .assistant) :
    convert py repair (sanitize py m) = some (convertAssistantMsg py repair (sanitize py m)) := by
  simp only [convert, sanitize_role, hm]

theorem convert_tool (hm : m.role = .tool) :
    convert py repair (sanitize py m) = some (convertToolResultMsg (sanitize py m)) := by
  simp only [convert, sanitize_role, hm]

end Roles

theorem converted_skip (h : convert py repair (sanitize py m) = none)
    (rest : List Message) : converted py repair (m :: rest) = converted py repair rest :=
  filterMap_cons_none h

theorem converted_cons {o : Out} (h : convert py repair (sanitize py m) = some o)
    (rest : List Message) : converted py repair (m :: rest) = o :: converted py repair rest :=
  filterMap_cons_some h

theorem mergeStep_plain {merged : List Out} {o : Out} (hchained : Chained merged)
    (hclosed : Closed merged) (huses : o.uses = []) (hresults : o.results = []) :
    Chained (mergeStep merged o) ∧ Closed (mergeStep merged o) := by
  obtain ⟨hchain, last, rest, heq, -, hlast⟩ := mergeStep_chained hchained hclosed hresults
  refine ⟨hchain, fun o' ho' => ?_⟩
  rw [heq] at ho'
  obtain rfl := Option.mem_some.mp ho'
  exact hlast.trans huses

theorem converted_results {results : List Message} (hrole : ∀ r ∈ results, r.role = .tool) :
    converted py repair results =
      results.map fun r => convertToolResultMsg (sanitize py r) := by
  rw [converted, ← filterMap_eq_map]
  refine filterMap_congr fun r hr => ?_
  exact convert_tool py repair (hrole r hr)

theorem converted_chained {messages : List Message} (h : Paired messages) (merged : List Out)
    (hchained : Chained merged) (hclosed : Closed merged) :
    Chained ((converted py repair messages).foldl mergeStep merged) ∧
      Closed ((converted py repair messages).foldl mergeStep merged) := by
  induction h generalizing merged with
  | nil => exact ⟨hchained, hclosed⟩
  | @plain m rest hrole hcalls hrest ih =>
    cases hm : m.role with
    | system =>
      rw [converted_skip py repair (convert_system py repair hm)]
      exact ih merged hchained hclosed
    | user =>
      rw [converted_cons py repair (convert_user py repair hm), foldl_cons]
      obtain ⟨huses, hresults⟩ := convertUserMsg_plain (sanitize py m)
      obtain ⟨hchain, hclose⟩ := mergeStep_plain hchained hclosed huses hresults
      exact ih _ hchain hclose
    | assistant =>
      have hnone : m.toolCalls = [] := by simpa [Message.calls, hm] using hcalls
      rw [converted_cons py repair (convert_assistant py repair hm), foldl_cons]
      obtain ⟨hchain, hclose⟩ := mergeStep_plain hchained hclosed
        (by rw [convertAssistantMsg_uses, sanitize_toolCalls, hnone, map_nil])
        (convertAssistantMsg_results py repair (sanitize py m))
      exact ih _ hchain hclose
    | tool => exact absurd hm hrole
  | @calls m results rest hcalls hrole hnodup hids hrest ih =>
    obtain ⟨hm, hsome⟩ : m.role = .assistant ∧ m.toolCalls ≠ [] := by
      simpa [Message.calls] using hcalls
    obtain ⟨hchain, last, before, heq, hlast, huses⟩ := mergeStep_chained hchained hclosed
      (convertAssistantMsg_results py repair (sanitize py m))
    rw [convertAssistantMsg_uses, sanitize_toolCalls] at huses
    have hanswers : (results.map fun r => convertToolResultMsg (sanitize py r)).flatMap
        Out.results = results.map Message.toolCallId := by
      rw [flatMap_map, ← flatMap_pure_eq_map]
      refine flatMap_congr fun r _ => ?_
      exact congrArg (fun id => [id]) (sanitize_toolCallId py r)
    have hne : (results.map fun r => convertToolResultMsg (sanitize py r)) ≠ [] := by
      obtain ⟨call, calls, hcons⟩ := exists_cons_of_ne_nil hsome
      have hmem := (hids call.id).mpr (by rw [hcons]; exact mem_cons_self ..)
      obtain ⟨r, hr, -⟩ := mem_map.mp hmem
      exact ne_nil_of_mem (mem_map_of_mem hr)
    have huser : ∀ o ∈ results.map fun r => convertToolResultMsg (sanitize py r),
        o.role = .user := by
      intro o ho
      obtain ⟨r, -, rfl⟩ := mem_map.mp ho
      rfl
    have hresult : ∀ b ∈ (results.map fun r => convertToolResultMsg (sanitize py r)).flatMap
        Out.blocks, (b.result?).isSome := by
      intro b hb
      obtain ⟨o, ho, hb⟩ := mem_flatMap.mp hb
      obtain ⟨r, -, rfl⟩ := mem_map.mp ho
      obtain rfl := mem_singleton.mp hb
      rfl
    rw [converted_cons py repair (convert_assistant py repair hm), foldl_cons, converted,
      filterMap_append, foldl_append, heq]
    obtain ⟨hchain, hclose⟩ := foldl_answers (heq ▸ hchain) hlast hne huser hresult
      (hanswers ▸ hnodup) (by rw [hanswers, huses]; exact hids)
    have hconverted := converted_results py repair hrole
    rw [← hconverted] at hchain hclose
    exact ih _ hchain hclose

/-! ## Empty texts -/

theorem convert_clean {o : Out}
    (hconvert : convert py repair (sanitize py m) = some o)
    (hgood : m.role = .assistant → m.Converts py) : ∀ b ∈ o.blocks, b.emptyText py = false := by
  have hclean := sanitize_clean py m
  cases hm : m.role with
  | system =>
    rw [convert_system py repair hm] at hconvert
    cases hconvert
  | user =>
    rw [convert_user py repair hm] at hconvert
    cases hconvert
    unfold convertUserMsg Out.blocks
    intro b hb
    cases hcontent : (sanitize py m).content with
    | none =>
      rw [hcontent] at hb
      obtain rfl := mem_singleton.mp hb
      rfl
    | text t =>
      rw [hcontent] at hb hclean
      obtain rfl := mem_singleton.mp hb
      exact isEmpty_eq_false_iff.mpr hclean
    | blocks items =>
      rw [hcontent] at hb hclean
      obtain ⟨v, hv, rfl⟩ := mem_map.mp hb
      exact hclean v hv
  | assistant =>
    rw [convert_assistant py repair hm] at hconvert
    cases hconvert
    have hsettled := (converts_iff py hm).mp (hgood hm)
    unfold convertAssistantMsg Out.blocks
    dsimp only
    intro b hb
    split at hb
    case isTrue hnone =>
      -- nothing is left of the message only where it has no text and no tool calls
      obtain ⟨htext, hcalls⟩ := append_eq_nil_iff.mp hnone
      have hnocalls := map_eq_nil_iff.mp hcalls
      unfold Message.Settled at hsettled
      cases hcontent : (sanitize py m).content with
      | none =>
        rw [hcontent] at hsettled
        exact absurd hnocalls hsettled
      | text t =>
        rw [hcontent] at hclean htext
        rw [assistantText, if_neg hclean] at htext
        cases htext
      | blocks items =>
        rw [hcontent] at hsettled
        exact absurd hnocalls hsettled.2
    case isFalse =>
      rcases mem_append.mp hb with hb | hb
      · obtain ⟨t, ht, rfl⟩ := mem_assistantText py hb
        exact isEmpty_eq_false_iff.mpr ht
      · obtain ⟨call, -, rfl⟩ := mem_map.mp hb
        rfl
  | tool =>
    rw [convert_tool py repair hm] at hconvert
    cases hconvert
    intro b hb
    obtain rfl := mem_singleton.mp hb
    cases hcontent : (sanitize py m).content with
    | none => rfl
    | text t => rfl
    | blocks items =>
      rw [hcontent] at hclean
      by_cases hitems : items = []
      · simp only [hitems, if_true]
        rfl
      · simp only [if_neg hitems]
        exact any_eq_false.mpr fun v hv => by rw [hclean v hv]; exact Bool.false_ne_true

/-! ## What is kept -/

/-- The letters of what is said, without the placeholders. -/
def Piece.letters : Piece → Text
  | .text t => if t = placeholder then [] else t
  | .item _ => []

def letters (said : List Piece) : Text := said.flatMap Piece.letters

theorem letters_append (said said' : List Piece) :
    letters (said ++ said') = letters said ++ letters said' := List.flatMap_append

theorem Stands.letters_eq {said : List Piece} (h : Stands py m said) :
    letters said = letters (m.pieces py) := by
  rcases h with rfl | ⟨hempty, rfl⟩
  · rfl
  · rw [hempty]
    rfl

theorem itemPiece_letters (v : Value) : (itemPiece v).letters.length ≤ (repr py v).length := by
  unfold itemPiece
  split
  case h_1 t ht =>
    split
    · cases v with
      | obj fields =>
        obtain ⟨e, he, hsnd⟩ := Option.map_eq_some_iff.mp ht
        have hfield := @length_repr_le_fields py _ _ _ (mem_of_find?_eq_some he)
        have hstring := @length_le_reprString py t
        rw [hsnd, PyRepr.repr] at hfield
        simp only [PyRepr.repr, Piece.letters, length_cons, length_append,
          cons_append]
        split
        · exact Nat.zero_le _
        · omega
      | _ => cases ht
    · exact Nat.zero_le _
  case h_2 => exact Nat.zero_le _

theorem itemPieces_letters (items : List Value) :
    (letters (itemPieces py items)).length ≤ (reprItems py items).length := by
  induction items with
  | nil => exact Nat.zero_le _
  | cons v items ih =>
    obtain ⟨rest, heq, hrest⟩ := @reprItems_cons py v items
    have hsuffix := hrest.length_le
    rw [heq, length_append]
    unfold itemPieces at ih ⊢
    rw [filter_cons]
    split
    · rw [map_cons, letters, flatMap_cons, length_append]
      have hv := itemPiece_letters py v
      unfold letters at ih
      omega
    · omega

theorem str_letters {items : List Value} :
    (letters (itemPieces py items)).length <
      (letters (textPieces (str py (.arr items)))).length := by
  have hitems := itemPieces_letters py items
  have hne : str py (.arr items) ≠ placeholder := fun h => absurd (head_eq_of_cons_eq h)
    (by decide)
  have hstr : letters (textPieces (str py (.arr items))) = str py (.arr items) := by
    have hcons : str py (.arr items) ≠ [] := cons_ne_nil _ _
    rw [textPieces, if_neg hcons]
    simp only [letters, flatMap_cons, flatMap_nil, append_nil, Piece.letters,
      if_neg hne]
  have hrepr : str py (.arr items) = '[' :: reprItems py items ++ [']'] := rfl
  rw [hstr, hrepr]
  simp only [cons_append, length_cons, length_append]
  omega

theorem convertAssistantMsg_letters :
    (letters (n.pieces py)).length ≤
      (letters ((convertAssistantMsg py repair n).pieces py)).length := by
  rw [convertAssistantMsg_pieces]
  unfold Message.pieces
  cases hcontent : n.content with
  | none => exact Nat.le_refl _
  | text t =>
    by_cases ht : t = []
    · simp [assistantText, textPieces, ht]
    · simp [assistantText, textPieces, ht, Block.pieces]
  | blocks items =>
    by_cases hitems : items = []
    · rw [hitems]
      exact Nat.le_refl _
    · rw [assistantText, if_neg hitems, textPieces_pieces]
      exact Nat.le_of_lt (str_letters py)

theorem convertAssistantMsg_letters_lt {n : Message} {items : List Value}
    (hcontent : n.content = .blocks items) (hitems : items ≠ []) :
    (letters (n.pieces py)).length <
      (letters ((convertAssistantMsg py repair n).pieces py)).length := by
  rw [convertAssistantMsg_pieces, Message.pieces, hcontent, assistantText, if_neg hitems,
    textPieces_pieces]
  exact str_letters py

theorem convert_stands {o : Out}
    (hconvert : convert py repair (sanitize py m) = some o)
    (hgood : m.role = .assistant → m.Converts py) : Stands py m (o.pieces py) := by
  refine (sanitize_stands py m).trans py ?_
  cases hm : m.role with
  | system =>
    rw [convert_system py repair hm] at hconvert
    cases hconvert
  | user =>
    rw [convert_user py repair hm] at hconvert
    cases hconvert
    exact convertUserMsg_stands py _
  | assistant =>
    rw [convert_assistant py repair hm] at hconvert
    cases hconvert
    have hsettled := (converts_iff py hm).mp (hgood hm)
    exact Or.inl ((convertAssistantMsg_pieces py repair _).trans (assistantText_pieces py hsettled))
  | tool =>
    rw [convert_tool py repair hm] at hconvert
    cases hconvert
    exact Or.inl (convertToolResultMsg_pieces py _)

theorem convert_letters {o : Out}
    (hconvert : convert py repair (sanitize py m) = some o) :
    (letters (m.pieces py)).length ≤ (letters (o.pieces py)).length := by
  by_cases hm : m.role = .assistant
  · rw [convert_assistant py repair hm] at hconvert
    cases hconvert
    rw [← (sanitize_stands py m).letters_eq]
    exact convertAssistantMsg_letters py repair _
  · have hstands := convert_stands py repair hconvert fun h => absurd h hm
    exact Nat.le_of_eq (congrArg List.length hstands.letters_eq.symm)

theorem convert_some (hm : m.role ≠ .system) :
    ∃ o, convert py repair (sanitize py m) = some o := by
  cases hrole : m.role with
  | system => exact absurd hrole hm
  | user => exact ⟨_, convert_user py repair hrole⟩
  | assistant => exact ⟨_, convert_assistant py repair hrole⟩
  | tool => exact ⟨_, convert_tool py repair hrole⟩

theorem converted_stands {messages : List Message}
    (hgood : ∀ m ∈ messages, m.role = .assistant → m.Converts py) :
    List.Forall₂ (Stands py) (messages.filter fun m => m.role ≠ .system)
      ((converted py repair messages).map (Out.pieces py)) := by
  induction messages with
  | nil => exact List.Forall₂.nil
  | cons m rest ih =>
    obtain ⟨hm, hrest⟩ := forall_mem_cons.mp hgood
    by_cases hrole : m.role = .system
    · rw [converted_skip py repair (convert_system py repair hrole),
        filter_cons_of_neg (by simpa using hrole)]
      exact ih hrest
    · obtain ⟨o, hconvert⟩ := convert_some py repair hrole
      rw [converted_cons py repair hconvert, filter_cons_of_pos (by simpa using hrole),
        map_cons]
      exact List.Forall₂.cons (convert_stands py repair hconvert hm) (ih hrest)

theorem converted_letters {said : List (List Piece)}
    (hsaid : List.Forall₂ (Stands py) (messages.filter fun m => m.role ≠ .system) said) :
    (letters said.flatten).length ≤
        (letters ((converted py repair messages).flatMap (Out.pieces py))).length ∧
      ((∃ m ∈ messages, m.role = .assistant ∧ ∃ items,
          (sanitize py m).content = .blocks items ∧ items ≠ []) →
        (letters said.flatten).length <
          (letters ((converted py repair messages).flatMap (Out.pieces py))).length) := by
  induction messages generalizing said with
  | nil =>
    cases hsaid
    refine ⟨Nat.le_refl _, ?_⟩
    rintro ⟨m, hm, -⟩
    cases hm
  | cons m rest ih =>
    by_cases hrole : m.role = .system
    · rw [filter_cons_of_neg (by simpa using hrole)] at hsaid
      rw [converted_skip py repair (convert_system py repair hrole)]
      obtain ⟨hle, hlt⟩ := ih hsaid
      refine ⟨hle, ?_⟩
      rintro ⟨m', hm', hassistant, hitems⟩
      rcases mem_cons.mp hm' with rfl | hm'
      · rw [hrole] at hassistant
        cases hassistant
      · exact hlt ⟨m', hm', hassistant, hitems⟩
    · rw [filter_cons_of_pos (by simpa using hrole)] at hsaid
      obtain ⟨o, hconvert⟩ := convert_some py repair hrole
      rw [converted_cons py repair hconvert, flatMap_cons, letters_append]
      cases hsaid with
      | @cons _ first _ more hfirst hmore =>
        obtain ⟨hle, hlt⟩ := ih hmore
        have hm := convert_letters py repair hconvert
        rw [← hfirst.letters_eq] at hm
        rw [flatten_cons, letters_append, length_append, length_append]
        refine ⟨by omega, ?_⟩
        rintro ⟨m', hm', hassistant, items, hcontent, hitems⟩
        rcases mem_cons.mp hm' with rfl | hm'
        · rw [convert_assistant py repair hassistant] at hconvert
          cases hconvert
          have hlonger := convertAssistantMsg_letters_lt py repair hcontent hitems
          rw [(sanitize_stands py m').letters_eq, ← hfirst.letters_eq] at hlonger
          omega
        · have hlonger := hlt ⟨m', hm', hassistant, items, hcontent, hitems⟩
          omega

theorem anthropicMessages_blocks :
    (anthropicMessages py repair messages).flatMap Out.blocks =
      (converted py repair messages).flatMap Out.blocks := by
  rw [anthropicMessages_eq, mergeConsecutiveSameRole_blocks]

theorem anthropicMessages_pieces :
    (anthropicMessages py repair messages).flatMap (Out.pieces py) =
      (converted py repair messages).flatMap (Out.pieces py) := by
  have hblocks : ∀ outs : List Out,
      outs.flatMap (Out.pieces py) = (outs.flatMap Out.blocks).flatMap (Block.pieces py) :=
    fun _ => flatMap_assoc.symm
  rw [hblocks, hblocks, anthropicMessages_blocks]

theorem empty_sent {n : Message} (htext : assistantText py n.content = [])
    (hcalls : n.toolCalls = []) : Block.text [] ∈ (convertAssistantMsg py repair n).blocks := by
  unfold convertAssistantMsg Out.blocks
  rw [htext, hcalls]
  exact mem_singleton_self _

theorem Grammar.settled {messages : List Message}
    (h : Grammar py messages (anthropicMessages py repair messages)) {m : Message}
    (hm : m ∈ messages) (hrole : m.role = .assistant) : (sanitize py m).Settled := by
  have hnoempty : assistantText py (sanitize py m).content = [] →
      (sanitize py m).toolCalls ≠ [] := by
    intro htext hcalls
    have hconverted : convertAssistantMsg py repair (sanitize py m) ∈
        converted py repair messages :=
      mem_filterMap.mpr ⟨m, hm, convert_assistant py repair hrole⟩
    have hblock : Block.text [] ∈ (anthropicMessages py repair messages).flatMap Out.blocks := by
      rw [anthropicMessages_blocks]
      exact mem_flatMap.mpr ⟨_, hconverted, empty_sent py repair htext hcalls⟩
    obtain ⟨o, ho, hb⟩ := mem_flatMap.mp hblock
    cases h.noEmptyText o ho _ hb
  unfold Message.Settled
  cases hcontent : (sanitize py m).content with
  | none => exact hnoempty (by rw [hcontent]; rfl)
  | text t => trivial
  | blocks items =>
    by_cases hitems : items = []
    · exact ⟨hitems, hnoempty (by rw [hcontent, hitems]; rfl)⟩
    · obtain ⟨said, hsaid, hkept⟩ := h.kept
      obtain ⟨-, hlonger⟩ := converted_letters py repair messages hsaid
      have hlonger := hlonger ⟨m, hm, hrole, items, hcontent, hitems⟩
      rw [← hkept, anthropicMessages_pieces] at hlonger
      exact absurd hlonger (Nat.lt_irrefl _)

/-- A paired conversation is converted into what the provider accepts, with all that it says, iff
each of its assistants has text, or tool calls, and none has a list of blocks with a text. -/
theorem conversion_iff {messages : List Message} (h : WellPaired messages) :
    Grammar py messages (anthropicMessages py repair messages) ↔
      ∀ m ∈ messages, m.role = .assistant → m.Converts py := by
  constructor
  · intro hgrammar m hm hrole
    exact (converts_iff py hrole).mpr (hgrammar.settled py repair hm hrole)
  · intro hgood
    obtain ⟨hchain, hclosed⟩ := converted_chained py repair h.paired [] List.IsChain.nil
      nofun
    rw [anthropicMessages_eq]
    refine ⟨List.isChain_reverse.mpr hchain, ?_, ?_, ?_⟩
    · intro o ho
      rw [mergeConsecutiveSameRole, List.getLast?_reverse] at ho
      exact hclosed o ho
    · intro o ho b hb
      have hblock := List.mem_flatMap.mpr ⟨o, ho, hb⟩
      rw [mergeConsecutiveSameRole_blocks] at hblock
      obtain ⟨o', ho', hb'⟩ := List.mem_flatMap.mp hblock
      obtain ⟨m, hm, hconvert⟩ := List.mem_filterMap.mp ho'
      exact convert_clean py repair hconvert (hgood m hm) b hb'
    · refine ⟨_, converted_stands py repair hgood, ?_⟩
      rw [← anthropicMessages_eq, anthropicMessages_pieces, List.flatMap_def]

end Messages

/-! ## Conversations -/

def asciiPython : Python where
  printable c := 32 ≤ c.toNat && c.toNat ≤ 126
  number n := n.text
  isZero n := n.text == ['0']

def hello : Message := { role := .user, content := .text "Hello".toList }

/-- A reply with a tool call, whose result is followed by a second request. -/
def toolConversation : List Message :=
  [hello,
    { role := .assistant, content := .none,
      toolCalls := [⟨"a".toList, "now".toList, .obj []⟩] },
    { role := .tool, content := .text [], toolCallId := "a".toList },
    hello]

theorem tool_conversation_converted :
    Grammar asciiPython toolConversation
      (anthropicMessages asciiPython (fun _ => .null) toolConversation) := by
  have hpaired : Paired toolConversation :=
    .plain (by decide) rfl (@Paired.calls _ [_] _ rfl (by simp) (by simp) (by simp)
      (.plain (by decide) rfl .nil))
  refine (conversion_iff asciiPython (fun _ => .null) ⟨hpaired, hello, rfl, rfl⟩).mpr ?_
  intro m hm hrole
  simp only [toolConversation, List.mem_cons, List.not_mem_nil, or_false] at hm
  rcases hm with rfl | rfl | rfl | rfl
  · cases hrole
  · exact List.cons_ne_nil _ _
  · cases hrole
  · cases hrole

/-- A reply that was cut off before its first word. -/
def emptyReply : Message := { role := .assistant, content := .none }

/-- A reply stored as a list of blocks. -/
def blocksReply : Message where
  role := .assistant
  content := .blocks [.obj [("type".toList, .str "text".toList), ("text".toList, .str "Hi".toList)]]

/-- An empty reply is sent as an empty text, and the blocks of a reply as the `repr` of a list. -/
theorem replies_not_converted :
    (WellPaired [hello, emptyReply, hello] ∧
      ¬ Grammar asciiPython [hello, emptyReply, hello]
        (anthropicMessages asciiPython (fun _ => .null) [hello, emptyReply, hello])) ∧
    (WellPaired [hello, blocksReply] ∧
      ¬ Grammar asciiPython [hello, blocksReply]
        (anthropicMessages asciiPython (fun _ => .null) [hello, blocksReply])) := by
  refine ⟨⟨⟨?_, hello, rfl, rfl⟩, fun h => ?_⟩, ⟨⟨?_, hello, rfl, rfl⟩, fun h => ?_⟩⟩
  · exact .plain (by decide) rfl (.plain (by decide) rfl (.plain (by decide) rfl .nil))
  · have hsettled := h.settled asciiPython (fun _ => .null) (m := emptyReply) (by simp) rfl
    exact hsettled rfl
  · exact .plain (by decide) rfl (.plain (by decide) rfl .nil)
  · have hsettled := h.settled asciiPython (fun _ => .null) (m := blocksReply) (by simp) rfl
    exact absurd hsettled.1 (List.cons_ne_nil _ _)

end MiqroForge.Providers.Anthropic
