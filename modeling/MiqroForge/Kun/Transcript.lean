import MiqroForge.Kun.Loop

/-!
The transcript of a turn. Every accepted call is an item and gets its result when it is
dispatched, whichever way that goes. Two paths break the pairing: a call that the guard
suppresses while it is streamed has a result and no call, and the calls of a stream that
ends in an error have no results.
-/

namespace MiqroForge.Kun.Loop

open PyText Steps List

/-! ## Pairing -/

def Item.callId? : Item → Option Text
  | .toolCall call => some call.callId
  | _ => none

def Item.resultId? : Item → Option Text
  | .toolResult callId _ _ _ _ => some callId
  | _ => none

def callIds (items : List Item) : List Text := items.filterMap Item.callId?

def resultIds (items : List Item) : List Text := items.filterMap Item.resultId?

@[simp] theorem callIds_append (a b : List Item) : callIds (a ++ b) = callIds a ++ callIds b :=
  filterMap_append

@[simp] theorem resultIds_append (a b : List Item) :
    resultIds (a ++ b) = resultIds a ++ resultIds b :=
  filterMap_append

@[simp] theorem callIds_call (call : ToolCall) : callIds [.toolCall call] = [call.callId] := rfl

@[simp] theorem resultIds_call (call : ToolCall) : resultIds [.toolCall call] = [] := rfl

/-- Every result follows its call, and every call has exactly one result. -/
structure Paired (items : List Item) : Prop where
  earlier : ∀ before item after id, items = before ++ item :: after → item.resultId? = some id →
    id ∈ callIds before
  once : ∀ id ∈ callIds items, (resultIds items).count id = 1

/-- The items so far, with the calls that have no result yet. -/
structure Matched (items : List Item) (pending : List Text) : Prop where
  earlier : ∀ before item after id, items = before ++ item :: after → item.resultId? = some id →
    id ∈ callIds before
  distinct : (callIds items).Nodup
  count : ∀ id, (callIds items).count id = (resultIds items).count id + pending.count id

variable {items : List Item}

theorem Matched.paired (h : Matched items []) : Paired items := by
  refine ⟨h.earlier, fun id hid => ?_⟩
  have hcount := h.count id
  rw [count_eq_one_of_mem h.distinct hid] at hcount
  simpa using hcount.symm

theorem Matched.not_once {pending : List Text} (h : Matched items pending)
    (hp : pending ≠ []) : ¬ Paired items := by
  intro hpaired
  obtain ⟨id, rest, rfl⟩ := exists_cons_of_ne_nil hp
  have hcount := h.count id
  rw [count_cons_self] at hcount
  have hmem : id ∈ callIds items := count_pos_iff.mp (by omega)
  rw [count_eq_one_of_mem h.distinct hmem, hpaired.once id hmem] at hcount
  omega

theorem earlier_append {items new : List Item}
    (h : ∀ before item after id, items = before ++ item :: after → item.resultId? = some id →
      id ∈ callIds before)
    (hnew : ∀ item ∈ new, ∀ id, item.resultId? = some id → id ∈ callIds items) :
    ∀ before item after id, items ++ new = before ++ item :: after → item.resultId? = some id →
      id ∈ callIds before := by
  intro before item after id heq hid
  rcases append_eq_append_iff.mp heq with ⟨mid, hbefore, hitem⟩ | ⟨mid, hitems, hitem⟩
  · rw [hbefore, callIds_append]
    refine mem_append_left _ (hnew item ?_ id hid)
    rw [hitem]
    exact mem_append_right _ mem_cons_self
  · cases mid with
    | nil =>
      rw [append_nil] at hitems
      rw [← hitems]
      refine hnew item ?_ id hid
      rw [nil_append] at hitem
      rw [← hitem]
      exact mem_cons_self
    | cons a mid =>
      obtain ⟨rfl, -⟩ := List.cons.inj hitem
      exact h before item mid id hitems hid

theorem Matched.call {pending : List Text} (h : Matched items pending)
    {call : ToolCall} (hfresh : call.callId ∉ callIds items) :
    Matched (items ++ [.toolCall call]) (pending ++ [call.callId]) := by
  refine ⟨earlier_append h.earlier ?_, ?_, fun id => ?_⟩
  · simp [Item.resultId?]
  · rw [callIds_append, callIds_call]
    exact h.distinct.append (nodup_singleton _) (disjoint_singleton.mpr hfresh)
  · have hcount := h.count id
    simp only [callIds_append, resultIds_append, callIds_call, resultIds_call, count_append,
      count_nil]
    omega

theorem Matched.result {pending rest : List Text} (h : Matched items pending)
    {item : Item} {id : Text} (hid : item.resultId? = some id)
    (hcount : ∀ x, pending.count x = [id].count x + rest.count x) :
    Matched (items ++ [item]) rest := by
  have hcall : item.callId? = none := by cases item <;> first | rfl | cases hid
  have hmem : id ∈ callIds items := by
    have hc := h.count id
    rw [hcount id, count_singleton_self] at hc
    exact count_pos_iff.mp (by omega)
  refine ⟨earlier_append h.earlier ?_, ?_, fun x => ?_⟩
  · rintro _ hone x hx
    obtain rfl := mem_singleton.mp hone
    rw [hid] at hx
    cases hx
    exact hmem
  · simpa [callIds, hcall] using h.distinct
  · have hc := h.count x
    rw [hcount x] at hc
    simp only [callIds_append, resultIds_append, count_append, hc]
    simp [callIds, resultIds, hcall, hid]
    omega

theorem Matched.plain {items new : List Item} {pending : List Text} (h : Matched items pending)
    (hcalls : callIds new = []) (hresults : resultIds new = []) :
    Matched (items ++ new) pending := by
  refine ⟨earlier_append h.earlier ?_, by simpa [hcalls] using h.distinct, fun id => ?_⟩
  · intro item hitem id hid
    have : id ∈ resultIds new := mem_filterMap.mpr ⟨item, hitem, hid⟩
    simp [hresults] at this
  · simpa [hcalls, hresults] using h.count id

theorem resultId_outcomeItem (call : ToolCall) (outcome : Outcome) :
    (outcomeItem call outcome).resultId? = some call.callId := by
  cases outcome <;> rfl

theorem Matched.batch {rest : List Text} (batch : List ToolCall)
    (outcomes : List Outcome) (hlen : outcomes.length = batch.length)
    (h : Matched items (batch.map ToolCall.callId ++ rest)) :
    Matched (items ++ List.zipWith outcomeItem batch outcomes) rest := by
  induction batch generalizing items outcomes with
  | nil => simpa using h
  | cons call batch ih =>
    cases outcomes with
    | nil => cases hlen
    | cons outcome outcomes =>
      have hone : Matched (items ++ [outcomeItem call outcome])
          (batch.map ToolCall.callId ++ rest) :=
        h.result (resultId_outcomeItem call outcome)
          (fun x => by rw [map_cons, cons_append, ← count_append]; rfl)
      have hrest := ih outcomes (by simpa using hlen) hone
      simpa using hrest

/-! ## Steps -/

/-- The calls that have no result yet. -/
def Phase.pending : Phase → List Text
  | .streaming acc => acc.calls.map ToolCall.callId
  | .dispatching calls => calls.map ToolCall.callId
  | .executing call calls => call.callId :: calls.map ToolCall.callId
  | .batching batch calls | .gathering batch calls =>
    batch.map ToolCall.callId ++ calls.map ToolCall.callId
  | .idle | .ended _ => []

/-- The ids of the calls that an event streams. -/
def Event.streamed : Event → List Text
  | .chunk (.toolCallComplete call) => [call.callId]
  | _ => []

/-- The guard lets a call pass while it is streamed, and no stream that had a call accepted ends
in an error. -/
def Keeps (s : LoopState) : Event → Prop
  | .chunk (.toolCallComplete call) => isSuppressed s call = false
  | .streamEnds =>
    ∀ acc, s.phase = .streaming acc → acc.stopReason = "error".toList → acc.calls = []
  | .streamRaises => ∀ acc, s.phase = .streaming acc → acc.calls = []
  | _ => True

@[simp] theorem items_countSearch (s : LoopState) (call : ToolCall) :
    (countSearch s call).items = s.items := by
  unfold countSearch
  split <;> rfl

theorem items_admitCall (opts : Options) (s : LoopState) (call : ToolCall) :
    (admitCall opts s call).2 = true ∧ (admitCall opts s call).1.items = s.items ∨
      (admitCall opts s call).2 = false ∧ ∃ item, item.resultId? = some call.callId ∧
        item.callId? = none ∧ (admitCall opts s call).1.items = s.items ++ [item] := by
  unfold admitCall
  split
  · exact .inr ⟨rfl, _, rfl, rfl, rfl⟩
  · split
    · refine .inr ⟨rfl, _, ?_, ?_, congrArg (· ++ _) (items_countSearch s call)⟩ <;> rfl
    · exact .inl ⟨rfl, by simp [recordCall]⟩

theorem pending_afterStream (acc : Stream)
    (h : acc.stopReason = "error".toList → acc.calls = []) :
    (afterStream acc).pending = acc.calls.map ToolCall.callId := by
  unfold afterStream
  split
  case isTrue herror =>
    rw [h herror]
    rfl
  case isFalse =>
    split
    case isTrue hempty =>
      rw [isEmpty_iff.mp hempty]
      rfl
    case isFalse => rfl

theorem callIds_textItems (acc : Stream) : callIds (textItems acc) = [] := by
  unfold textItems
  split <;> split <;> rfl

theorem resultIds_textItems (acc : Stream) : resultIds (textItems acc) = [] := by
  unfold textItems
  split <;> split <;> rfl

theorem callIds_messages (steering : List Text) (summary : Option Text) :
    callIds (steering.map .userMessage ++ (summary.map Item.compaction).toList) = [] := by
  cases summary <;> simp [callIds, Item.callId?, filterMap_map, Function.comp_def]

theorem resultIds_messages (steering : List Text) (summary : Option Text) :
    resultIds (steering.map .userMessage ++ (summary.map Item.compaction).toList) = [] := by
  cases summary <;> simp [resultIds, Item.resultId?, filterMap_map, Function.comp_def]

section Steps

variable {opts : Options} {s t : LoopState}

theorem matched_beginRound (h : Matched s.items []) (elapsed : Nat) (steering : List Text)
    (summary : Option Text) :
    Matched (beginRound opts s elapsed steering summary).items
      (beginRound opts s elapsed steering summary).phase.pending := by
  unfold beginRound
  split
  · exact h
  · have hplain := h.plain (callIds_messages steering summary) (resultIds_messages steering summary)
    rw [← append_assoc] at hplain
    exact hplain

theorem matched_receive {acc : Stream} (h : Matched s.items (acc.calls.map ToolCall.callId))
    (hphase : s.phase = .streaming acc) (c : Chunk) (hkeeps : Keeps s (.chunk c))
    (hfresh : ∀ id ∈ (Event.chunk c).streamed, id ∉ callIds s.items) :
    Matched (receive s acc c).items (receive s acc c).phase.pending := by
  cases c with
  | assistantTextDelta text | assistantReasoningDelta text | completed stopReason
  | error message => exact h
  | usage =>
    show Matched s.items s.phase.pending
    rw [hphase]
    exact h
  | toolCallComplete call =>
    have hpass : isSuppressed s call = false := hkeeps
    simp only [receive, receiveCall, hpass, Bool.false_eq_true, if_false]
    have hcall := h.call (hfresh call.callId (mem_singleton_self _))
    simpa [Phase.pending] using hcall

theorem matched_dispatch (calls : List ToolCall)
    (h : Matched s.items (calls.map ToolCall.callId)) :
    Matched (dispatch opts s calls).items (dispatch opts s calls).phase.pending := by
  cases calls with
  | nil => exact h
  | cons call calls =>
    rcases hcall : admitCall opts s call with ⟨t, b⟩
    have hitems := items_admitCall opts s call
    rw [hcall] at hitems
    rcases hitems with ⟨rfl, hitems⟩ | ⟨rfl, item, hid, -, hitems⟩
    · have h : Matched t.items (call.callId :: calls.map ToolCall.callId) := hitems ▸ h
      simp only [dispatch, hcall]
      split
      · exact h
      · exact h
    · have hitems : t.items = s.items ++ [item] := hitems
      simp only [dispatch, hcall, hitems]
      exact h.result hid (fun x => by rw [map_cons, ← count_append]; rfl)

theorem matched_extend (batch calls : List ToolCall)
    (h : Matched s.items (batch.map ToolCall.callId ++ calls.map ToolCall.callId)) :
    Matched (extend opts s batch calls).items (extend opts s batch calls).phase.pending := by
  cases calls with
  | nil => exact h
  | cons call calls =>
    simp only [extend]
    split
    case isFalse => exact h
    case isTrue =>
      rcases hcall : admitCall opts s call with ⟨t, b⟩
      have hitems := items_admitCall opts s call
      rw [hcall] at hitems
      rcases hitems with ⟨rfl, hitems⟩ | ⟨rfl, item, hid, -, hitems⟩
      · simp only at hitems ⊢
        rw [hitems]
        simpa [Phase.pending] using h
      · simp only at hitems ⊢
        rw [hitems]
        refine h.result hid (fun x => ?_)
        simp only [Phase.pending, map_cons, count_append, count_cons, count_nil]
        omega

/-- **One step** that keeps the pairing. -/
theorem matched_step {e : Event} (h : Matched s.items s.phase.pending) (hkeeps : Keeps s e)
    (hfresh : ∀ id ∈ e.streamed, id ∉ callIds s.items) (hraises : e ≠ .raises)
    (habort : e ≠ .abort) (hstep : step opts s e = some t) : Matched t.items t.phase.pending := by
  cases e with
  | round elapsed steering summary =>
    simp only [step] at hstep
    split at hstep
    case h_2 => cases hstep
    case h_1 hphase =>
      cases hstep
      rw [hphase] at h
      exact matched_beginRound h elapsed steering summary
  | chunk c =>
    simp only [step] at hstep
    split at hstep
    case h_2 => cases hstep
    case h_1 acc hphase =>
      cases hstep
      rw [hphase] at h
      exact matched_receive h hphase c hkeeps hfresh
  | streamEnds =>
    simp only [step] at hstep
    split at hstep
    case h_2 => cases hstep
    case h_1 acc hphase =>
      cases hstep
      rw [hphase] at h
      show Matched _ (afterStream acc).pending
      rw [pending_afterStream acc (hkeeps acc hphase)]
      exact h.plain (callIds_textItems acc) (resultIds_textItems acc)
  | streamRaises =>
    simp only [step] at hstep
    split at hstep
    case h_2 => cases hstep
    case h_1 acc hphase =>
      cases hstep
      have hnone : acc.calls = [] := hkeeps acc hphase
      rw [hphase] at h
      simpa [Phase.pending, hnone] using h
  | next =>
    simp only [step] at hstep
    split at hstep
    case h_1 calls hphase =>
      cases hstep
      rw [hphase] at h
      exact matched_dispatch calls h
    case h_2 batch calls hphase =>
      cases hstep
      rw [hphase] at h
      exact matched_extend batch calls h
    case h_3 => cases hstep
  | returns status output isError =>
    simp only [step] at hstep
    split at hstep
    case h_2 => cases hstep
    case h_1 call calls hphase =>
      cases hstep
      rw [hphase] at h
      exact h.result rfl (fun x => by rw [← count_append]; rfl)
  | raises => exact absurd rfl hraises
  | gathered outcomes =>
    simp only [step] at hstep
    split at hstep
    case h_2 => cases hstep
    case h_1 batch calls hphase =>
      simp only [Option.ite_none_right_eq_some, Option.some.injEq] at hstep
      obtain ⟨hlen, rfl⟩ := hstep
      rw [hphase] at h
      exact h.batch batch outcomes hlen
  | abort => exact absurd rfl habort

/-- What a step appends, with no call but a streamed one. -/
def Appends (s t : LoopState) (ids : List Text) : Prop :=
  ∃ new, t.items = s.items ++ new ∧ ∀ id ∈ callIds new, id ∈ ids

theorem Appends.none (h : t.items = s.items) (ids : List Text) : Appends s t ids :=
  ⟨[], by simpa using h, nofun⟩

theorem Appends.plain {new : List Item} (h : t.items = s.items ++ new) (hnew : callIds new = [])
    (ids : List Text) : Appends s t ids :=
  ⟨new, h, by simp [hnew]⟩

theorem appends_admitCall (opts : Options) (s : LoopState) (call : ToolCall) (ids : List Text) :
    Appends s (admitCall opts s call).1 ids := by
  rcases items_admitCall opts s call with ⟨-, hitems⟩ | ⟨-, item, -, hcall, hitems⟩
  · exact Appends.none hitems ids
  · exact Appends.plain hitems (by simp [callIds, hcall]) ids

theorem appends_receive (acc : Stream) (c : Chunk) :
    Appends s (receive s acc c) (Event.chunk c).streamed := by
  cases c with
  | assistantTextDelta _ | assistantReasoningDelta _ | completed _ | error _ | usage =>
    exact Appends.none rfl _
  | toolCallComplete call =>
    simp only [receive, receiveCall]
    split
    · exact Appends.plain rfl rfl _
    · exact ⟨_, rfl, fun _ hid => hid⟩

theorem callIds_batch (batch : List ToolCall) (outcomes : List Outcome) :
    callIds (List.zipWith outcomeItem batch outcomes) = [] := by
  induction batch generalizing outcomes with
  | nil => rfl
  | cons call batch ih =>
    cases outcomes with
    | nil => rfl
    | cons outcome outcomes =>
      have hone : (outcomeItem call outcome).callId? = none := by cases outcome <;> rfl
      rw [zipWith_cons_cons, callIds, filterMap_cons_none hone]
      exact ih outcomes

theorem appends_step {e : Event} (hstep : step opts s e = some t) : Appends s t e.streamed := by
  cases e with
  | round elapsed steering summary =>
    simp only [step] at hstep
    split at hstep
    case h_2 => cases hstep
    case h_1 =>
      cases hstep
      unfold beginRound
      split
      · exact Appends.none rfl _
      · exact Appends.plain (append_assoc _ _ _) (callIds_messages steering summary) _
  | chunk c =>
    simp only [step] at hstep
    split at hstep
    case h_2 => cases hstep
    case h_1 acc _ =>
      cases hstep
      exact appends_receive acc c
  | streamEnds =>
    simp only [step] at hstep
    split at hstep
    case h_2 => cases hstep
    case h_1 acc _ =>
      cases hstep
      exact Appends.plain rfl (callIds_textItems acc) _
  | streamRaises | raises =>
    simp only [step] at hstep
    split at hstep
    case h_2 => cases hstep
    case h_1 =>
      cases hstep
      exact Appends.none rfl _
  | next =>
    simp only [step] at hstep
    split at hstep
    case h_3 => cases hstep
    case h_1 calls _ =>
      cases hstep
      cases calls with
      | nil => exact Appends.none rfl _
      | cons call calls =>
        have happ := appends_admitCall opts s call (Event.next).streamed
        simp only [dispatch]
        split
        case h_1 t hcall =>
          rw [hcall] at happ
          exact happ
        case h_2 t hcall =>
          rw [hcall] at happ
          split
          · exact happ
          · exact happ
    case h_2 batch calls _ =>
      cases hstep
      cases calls with
      | nil => exact Appends.none rfl _
      | cons call calls =>
        have happ := appends_admitCall opts s call (Event.next).streamed
        simp only [extend]
        split
        case isFalse => exact Appends.none rfl _
        case isTrue =>
          split
          case h_1 t hcall =>
            rw [hcall] at happ
            exact happ
          case h_2 t hcall =>
            rw [hcall] at happ
            exact happ
  | returns status output isError =>
    simp only [step] at hstep
    split at hstep
    case h_2 => cases hstep
    case h_1 =>
      cases hstep
      exact Appends.plain rfl rfl _
  | gathered outcomes =>
    simp only [step] at hstep
    split at hstep
    case h_2 => cases hstep
    case h_1 batch _ _ =>
      simp only [Option.ite_none_right_eq_some, Option.some.injEq] at hstep
      obtain ⟨-, rfl⟩ := hstep
      exact Appends.plain rfl (callIds_batch batch outcomes) _
  | abort =>
    simp only [step] at hstep
    split at hstep
    case h_4 => cases hstep
    all_goals
      cases hstep
      exact Appends.none rfl _

theorem items_run {es : List Event} (hrun : run (step opts) s es = some t) :
    ∃ new, t.items = s.items ++ new := by
  refine run_invariant (step opts) (fun u => ∃ new, u.items = s.items ++ new) ?_ s t es
    ⟨[], (append_nil _).symm⟩ hrun
  rintro u e v ⟨new, hu⟩ hstep
  obtain ⟨more, hv, -⟩ := appends_step hstep
  exact ⟨new ++ more, by rw [hv, hu, append_assoc]⟩

theorem run_ended {status : Status} {es : List Event} (hphase : s.phase = .ended status)
    (hrun : run (step opts) s es = some t) : t = s := by
  cases es with
  | nil => exact (Option.some.inj hrun).symm
  | cons e es =>
    obtain ⟨u, hu, -⟩ := run_cons_some (step opts) hrun
    cases e <;> simp [step, hphase] at hu

/-! ## Broken pairs -/

theorem not_paired_of_suppressed {acc : Stream} {call : ToolCall}
    (hphase : s.phase = .streaming acc) (hsup : isSuppressed s call = true)
    (hfresh : call.callId ∉ callIds s.items) {u : LoopState} {es : List Event}
    (hstep : step opts s (.chunk (.toolCallComplete call)) = some u)
    (hrun : run (step opts) u es = some t) : ¬ Paired t.items := by
  intro hpaired
  simp only [step, hphase, receive, receiveCall, hsup, if_true, Option.some.injEq] at hstep
  obtain ⟨new, hnew⟩ := items_run hrun
  rw [← hstep] at hnew
  refine hfresh (hpaired.earlier s.items (.toolResult call.callId call.toolName "failed".toList
    (suppressReason s call) true) new call.callId ?_ rfl)
  rw [hnew, persistSuppressed, append_assoc]
  rfl

theorem not_paired_of_error {acc : Stream} (h : Matched s.items (acc.calls.map ToolCall.callId))
    (hcalls : acc.calls ≠ []) {new : List Item} (hnew : callIds new = [])
    (hresults : resultIds new = []) (ht : t.items = s.items ++ new) : ¬ Paired t.items := by
  rw [ht]
  exact (h.plain hnew hresults).not_once (by simpa using hcalls)

theorem not_paired_of_not_keeps {e : Event} (h : Matched s.items s.phase.pending)
    (hfresh : ∀ id ∈ e.streamed, id ∉ callIds s.items) {u : LoopState} {es : List Event}
    (hstep : step opts s e = some u) (hrun : run (step opts) u es = some t)
    (hkeeps : ¬ Keeps s e) : ¬ Paired t.items := by
  cases e with
  | chunk c =>
    cases c with
    | toolCallComplete call =>
      have hsup : isSuppressed s call = true := by simpa [Keeps] using hkeeps
      cases hphase : s.phase with
      | streaming acc =>
        exact not_paired_of_suppressed hphase hsup (hfresh _ (mem_singleton_self _)) hstep
          hrun
      | idle | dispatching _ | executing _ _ | batching _ _ | gathering _ _ | ended _ =>
        simp [step, hphase] at hstep
    | assistantTextDelta _ | assistantReasoningDelta _ | completed _ | error _ | usage =>
      exact absurd trivial hkeeps
  | streamEnds =>
    simp only [Keeps, not_forall] at hkeeps
    obtain ⟨acc, hphase, herror, hcalls⟩ := hkeeps
    simp only [step, hphase, afterStream, herror, if_true, Option.some.injEq] at hstep
    obtain rfl := run_ended (by rw [← hstep]) hrun
    rw [hphase] at h
    exact not_paired_of_error h hcalls (callIds_textItems acc) (resultIds_textItems acc)
      (by rw [← hstep])
  | streamRaises =>
    simp only [Keeps, not_forall] at hkeeps
    obtain ⟨acc, hphase, hcalls⟩ := hkeeps
    simp only [step, hphase, Option.some.injEq] at hstep
    obtain rfl := run_ended (by rw [← hstep]) hrun
    rw [hphase] at h
    exact not_paired_of_error h hcalls rfl rfl (by rw [← hstep, append_nil])
  | round _ _ _ | next | returns _ _ _ | raises | gathered _ | abort =>
    exact absurd trivial hkeeps

theorem phase_abort (hstep : step opts s .abort = some t) : t.phase = .ended .aborted := by
  simp only [step] at hstep
  split at hstep
  case h_4 => cases hstep
  all_goals
    cases hstep
    rfl

end Steps

/-! ## The turn -/

/-- The ids of the calls that a run streams, in order. -/
def streamedIds (es : List Event) : List Text := es.flatMap Event.streamed

/-- From any state with matched items, by induction on the run: the first step that does not keep
the pairing leaves it broken to the end. -/
theorem paired_iff_goodRun (opts : Options) (es : List Event) (s t : LoopState)
    (h : Matched s.items s.phase.pending) (hdistinct : (streamedIds es).Nodup)
    (hfresh : ∀ id ∈ streamedIds es, id ∉ callIds s.items) (hraises : .raises ∉ es)
    {status : Status} (hstatus : status ≠ .aborted) (hrun : run (step opts) s es = some t)
    (hend : t.phase = .ended status) : Paired t.items ↔ GoodRun (step opts) Keeps s es := by
  induction es generalizing s with
  | nil =>
    cases hrun
    rw [hend] at h
    exact iff_of_true h.paired trivial
  | cons e es ih =>
    obtain ⟨u, hu, hrest⟩ := run_cons_some (step opts) hrun
    rw [streamedIds, flatMap_cons] at hdistinct hfresh
    obtain ⟨-, hdistinct, hdisjoint⟩ := nodup_append.mp hdistinct
    have hfresh_e : ∀ id ∈ e.streamed, id ∉ callIds s.items := fun id hid =>
      hfresh id (mem_append_left _ hid)
    by_cases hkeeps : Keeps s e
    · have habort : e ≠ .abort := by
        rintro rfl
        obtain rfl := run_ended (phase_abort hu) hrest
        exact hstatus (Phase.ended.inj (hend.symm.trans (phase_abort hu)))
      have hmatched := matched_step h hkeeps hfresh_e
        (fun he => hraises (he ▸ mem_cons_self)) habort hu
      have hfresh_u : ∀ id ∈ streamedIds es, id ∉ callIds u.items := by
        intro id hid hmem
        obtain ⟨new, hitems, hnew⟩ := appends_step hu
        rw [hitems, callIds_append] at hmem
        rcases mem_append.mp hmem with hmem | hmem
        · exact hfresh id (mem_append_right _ hid) hmem
        · exact hdisjoint id (hnew id hmem) id hid rfl
      rw [ih u hmatched hdistinct hfresh_u (fun hmem => hraises (mem_cons_of_mem _ hmem))
        hrest]
      simp [GoodRun, hkeeps, hu]
    · exact iff_of_false (not_paired_of_not_keeps h hfresh_e hu hrest hkeeps)
        (fun hgood => hkeeps hgood.1)

/-- **The transcript of a turn** that is not aborted and in which no call outside a batch raises
pairs up iff the guard suppressed no call while it was streamed and no stream that had a call
accepted ended in an error. -/
theorem transcript_paired_iff (opts : Options) (es : List Event) (t : LoopState) (status : Status)
    (hrun : run (step opts) (start opts) es = some t) (hend : t.phase = .ended status)
    (hstatus : status ≠ .aborted) (hraises : .raises ∉ es) (hdistinct : (streamedIds es).Nodup) :
    Paired t.items ↔ GoodRun (step opts) Keeps (start opts) es := by
  have hmatched : Matched (start opts).items (start opts).phase.pending :=
    ⟨fun _ _ _ _ h => absurd h (by simp [start]), List.nodup_nil, fun _ => rfl⟩
  exact paired_iff_goodRun opts es _ t hmatched hdistinct (fun _ _ => List.not_mem_nil) hraises
    hstatus hrun hend

/-! ## Two turns -/

/-- The guard with its default window and threshold, in the deep mode. -/
def guarded : Options where
  toolStorm := some (8, 3)
  approvalPolicy := "auto".toList
  maxToolRounds := none
  parallelLimit := some 3
  maxSearchPhase := none
  timeBudget := none
  finalizationGrace := 0

def readCall (callId : Text) : ToolCall := ⟨callId, "read".toList, []⟩

def execCall (callId : Text) : ToolCall := ⟨callId, "exec".toList, []⟩

/-- A batch of one, a call outside a batch and an answer. -/
def pairedTurn : List Event :=
  [.round 0 [] none, .chunk (.toolCallComplete (readCall ['a'])),
    .chunk (.toolCallComplete (execCall ['b'])), .streamEnds, .next, .next,
    .gathered [.raised []], .next, .returns [] [] false, .next, .round 1 [] none,
    .chunk (.assistantTextDelta ['k']), .streamEnds]

theorem pairedTurn_runs : (run (step guarded) (start guarded) pairedTurn).isSome := by decide

theorem transcript_paired_iff_batch :
    Paired ((run (step guarded) (start guarded) pairedTurn).get pairedTurn_runs).items ↔
      GoodRun (step guarded) Keeps (start guarded) pairedTurn :=
  transcript_paired_iff guarded pairedTurn _ .completed (Option.some_get _).symm rfl (by decide)
    (by simp [pairedTurn]) (by decide)

/-- Three identical calls in one stream: the third is suppressed while it is streamed. -/
def stormTurn : List Event :=
  [.round 0 [] none, .chunk (.toolCallComplete (readCall ['a'])),
    .chunk (.toolCallComplete (readCall ['b'])), .chunk (.toolCallComplete (readCall ['c'])),
    .streamEnds, .next, .next, .next, .round 1 [] none, .streamEnds]

theorem stormTurn_unpaired : ∃ t, run (step guarded) (start guarded) stormTurn = some t ∧
    t.phase = .ended .completed ∧ .raises ∉ stormTurn ∧ (streamedIds stormTurn).Nodup ∧
    ¬ Paired t.items := by
  have hruns : (run (step guarded) (start guarded) stormTurn).isSome := by decide
  refine ⟨_, (Option.some_get hruns).symm, rfl, by simp [stormTurn], by decide, fun h => ?_⟩
  have hmem := h.earlier [.toolCall (readCall ['a']), .toolCall (readCall ['b'])] _ _ ['c'] rfl rfl
  revert hmem
  decide

end MiqroForge.Kun.Loop
