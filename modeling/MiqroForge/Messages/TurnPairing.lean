import MiqroForge.Messages.TurnRunner

/-!
Which turns keep calls and results paired. One pass adds a block to the message
list and one to the delta; both are paired exactly when the ids of the response
are distinct and the budget gate skipped nothing. Over a run this becomes a
condition on the responses and the clock.
-/

namespace MiqroForge.Messages

open List

/-! ## The budget gate -/

def isSearch (tc : ToolCallRequest) : Bool := tc.name == "web_search"

theorem budgetGate_perm (f : Bool) (n : Nat) (calls : List ToolCallRequest) :
    ((budgetGate f n calls).kept ++ (budgetGate f n calls).skipped.map Prod.fst).Perm calls := by
  induction calls generalizing n with
  | nil => exact .nil
  | cons tc calls ih =>
    rw [budgetGate_cons]
    split
    case h_1 reason n' h =>
      simp only [map_cons]
      exact perm_middle.trans ((ih n').cons tc)
    case h_2 n' h => exact (ih n').cons tc

theorem budgetGate_finalizing (n : Nat) (calls : List ToolCallRequest) :
    (budgetGate true n calls).skipped.map Prod.fst = calls ∧
      (budgetGate true n calls).searchPhases = n := by
  induction calls with
  | nil => exact ⟨rfl, rfl⟩
  | cons tc calls ih =>
    rw [budgetGate_cons]
    exact ⟨congrArg (tc :: ·) ih.1, ih.2⟩

theorem budgetSkipReason_search {n : Nat} {name : String} (h : name = "web_search") :
    budgetSkipReason false n name =
      if n ≥ 1 then (some "极速模式搜索预算已用尽（最多一轮搜索）", n) else (none, n + 1) :=
  if_pos h

theorem budgetSkipReason_other {n : Nat} {name : String} (h : ¬ name = "web_search") :
    budgetSkipReason false n name = (none, n) :=
  if_neg h

theorem budgetGate_open (n : Nat) (hn : n ≤ 1) (calls : List ToolCallRequest) :
    ((budgetGate false n calls).skipped = [] ↔ n + calls.countP isSearch ≤ 1) ∧
      (budgetGate false n calls).searchPhases ≤ 1 ∧
      ((budgetGate false n calls).skipped = [] →
        (budgetGate false n calls).searchPhases = n + calls.countP isSearch) := by
  induction calls generalizing n with
  | nil => simp [budgetGate_nil, hn]
  | cons tc calls ih =>
    by_cases hs : tc.name = "web_search"
    · have hc : isSearch tc = true := by simp [isSearch, hs]
      rw [countP_cons_of_pos hc]
      rcases Nat.lt_or_ge n 1 with h | h
      · obtain ⟨h1, h2, h3⟩ := ih (n + 1) (by omega)
        have hstep : budgetGate false n (tc :: calls) =
            { budgetGate false (n + 1) calls with
              kept := tc :: (budgetGate false (n + 1) calls).kept } := by
          simp only [budgetGate_cons, budgetSkipReason_search hs, if_neg (Nat.not_le.mpr h)]
        rw [hstep]
        refine ⟨?_, h2, fun he => ?_⟩
        · rw [h1]
          omega
        · rw [h3 he]
          omega
      · have hstep : budgetGate false n (tc :: calls) =
            { budgetGate false n calls with
              skipped := (tc, "[跳过] 极速模式搜索预算已用尽（最多一轮搜索）") ::
                (budgetGate false n calls).skipped } := by
          simp only [budgetGate_cons, budgetSkipReason_search hs, if_pos h]
          rfl
        rw [hstep]
        refine ⟨?_, (ih n hn).2.1, fun he => by simp at he⟩
        constructor
        · intro he
          simp at he
        · omega
    · have hc : isSearch tc = false := by simp [isSearch, hs]
      rw [countP_cons_of_neg (by simp [hc])]
      have hstep : budgetGate false n (tc :: calls) =
          { budgetGate false n calls with kept := tc :: (budgetGate false n calls).kept } := by
        simp only [budgetGate_cons, budgetSkipReason_other hs]
      rw [hstep]
      exact ih n hn

/-! ## The blocks a pass adds -/

@[simp] theorem toolMessage_kind (tc : ToolCallRequest) (result : Option String) :
    (toolMessage tc result).kind = .reply (some tc.id) := by
  simp [Message.kind, toolMessage]

theorem echo_tcIds (calls : List ToolCallRequest) (m : Message)
    (hm : m.toolCalls = calls.map callEntry) : tcIds m = calls.map (fun tc => some tc.id) := by
  unfold tcIds
  rw [hm]
  induction calls with
  | nil => rfl
  | cons tc calls ih => simp [callEntry, filterMap_map, Function.comp_def]

theorem executeMany_results (r : Round) (calls : List ToolCallRequest) (contexts : List ToolContext)
    (h : executeMany r calls = .ok contexts) :
    List.Forall₂ (fun p ctx => r.executeOne p.2 p.1 = .ok ctx) calls.zipIdx contexts := by
  have key : ∀ (l : List (ToolCallRequest × Nat)) (cs : List ToolContext),
      (l.mapM fun p => r.executeOne p.2 p.1) = .ok cs →
        List.Forall₂ (fun p ctx => r.executeOne p.2 p.1 = .ok ctx) l cs := by
    intro l
    induction l with
    | nil =>
      intro cs hcs
      obtain rfl : [] = cs := by simpa [pure, Except.pure] using hcs
      exact .nil
    | cons p l ih =>
      intro cs hcs
      rw [mapM_cons] at hcs
      cases hp : r.executeOne p.2 p.1 with
      | error e => simp [hp, bind, Except.bind] at hcs
      | ok c =>
        cases hl : (l.mapM fun p => r.executeOne p.2 p.1) with
        | error e => simp [hp, hl, bind, Except.bind] at hcs
        | ok rest =>
          obtain rfl : c :: rest = cs := by
            simpa [hp, hl, bind, Except.bind, pure, Except.pure] using hcs
          exact .cons hp (ih rest hl)
  exact key _ contexts h

theorem executeMany_length (r : Round) (calls : List ToolCallRequest) (contexts : List ToolContext)
    (h : executeMany r calls = .ok contexts) : contexts.length = calls.length :=
  (executeMany_results r calls contexts h).length_eq.symm.trans length_zipIdx

theorem resultMessages_reply (g : Gated) (contexts : List ToolContext)
    (truncated : List ToolCallRequest) (refusal : String) :
    ∀ m ∈ resultMessages g contexts truncated refusal, Pairing.isReply Message.kind m = true := by
  intro m hm
  rw [isReply_iff]
  simp only [resultMessages, mem_append, mem_map] at hm
  rcases hm with (⟨p, -, rfl⟩ | ⟨p, -, rfl⟩) | ⟨p, -, rfl⟩ <;> rfl

theorem replyIds_toolMessages {β : Type} (l : List β) (call : β → ToolCallRequest)
    (result : β → Option String) :
    Pairing.replyIds Message.kind (l.map fun x => toolMessage (call x) (result x)) =
      (l.map call).map fun tc => some tc.id := by
  induction l with
  | nil => rfl
  | cons x l ih =>
    simp only [Pairing.replyIds, map_cons, filterMap_cons, Pairing.replyId?,
      toolMessage_kind] at ih ⊢
    rw [ih]

theorem resultMessages_ids (g : Gated) (contexts : List ToolContext)
    (truncated : List ToolCallRequest) (refusal : String)
    (hc : contexts.length = g.kept.length) :
    Pairing.replyIds Message.kind (resultMessages g contexts truncated refusal) =
      (g.kept ++ g.skipped.map Prod.fst ++ truncated).map fun tc => some tc.id := by
  have hzip : (g.kept.zip contexts).map Prod.fst = g.kept := map_fst_zip hc.ge
  simp only [resultMessages, Pairing.replyIds_append, replyIds_toolMessages, hzip,
    map_append, map_id']

theorem echo_paired_iff (m : Message) (g : Gated) (contexts : List ToolContext)
    (truncated : List ToolCallRequest) (refusal : String) (hm : m.role = .assistant)
    (htc : m.toolCalls = (echoCalls g truncated).map callEntry)
    (hc : contexts.length = g.kept.length)
    (hne : g.kept ++ g.skipped.map Prod.fst ++ truncated ≠ []) :
    WellPaired (m :: resultMessages g contexts truncated refusal) ↔
      g.skipped = [] ∧ ((echoCalls g truncated).map (·.id)).Nodup := by
  have hreply := resultMessages_reply g contexts truncated refusal
  have hids := resultMessages_ids g contexts truncated refusal hc
  have hinj : ∀ l : List ToolCallRequest,
      (l.map fun tc => some tc.id).Nodup ↔ (l.map (·.id)).Nodup := by
    intro l
    rw [show (l.map fun tc => some tc.id) = (l.map (·.id)).map some by simp]
    exact nodup_map_iff fun a b h => by simpa using h
  rcases Decidable.em (echoCalls g truncated = []) with he | he
  · -- nothing is echoed, so the skipped calls are answered behind a plain message
    obtain ⟨hk, ht⟩ := append_eq_nil_iff.mp he
    have hs : g.skipped ≠ [] := by
      intro hs
      simp [hk, ht, hs] at hne
    have hplain : m.kind = .plain := by simp [Message.kind, htc, he, hm]
    rw [WellPaired, Pairing.paired_plain_cons _ _ _ hplain]
    constructor
    · intro h
      cases hr : resultMessages g contexts truncated refusal with
      | nil =>
        rw [hr, hk, ht] at hids
        simp [Pairing.replyIds, hs] at hids
      | cons a l =>
        rw [hr] at h hreply
        exact (Pairing.not_paired_replies _ a l (hreply a (mem_cons_self ..)) h).elim
    · rintro ⟨h, -⟩
      exact absurd h hs
  · have hopen : m.kind = .opener (tcIds m) := by
      simp [Message.kind, hm, htc, he]
    rw [WellPaired, Pairing.paired_group _ m _ _ hopen hreply, hids,
      echo_tcIds (echoCalls g truncated) m htc]
    constructor
    · rintro ⟨-, hnd, hiff⟩
      have hs : g.skipped = [] := by
        rcases hg : g.skipped with - | ⟨⟨tc, why⟩, rest⟩
        · rfl
        · exfalso
          have hin := (hiff (some tc.id)).mp (by simp [hg])
          rw [hinj, hg] at hnd
          simp only [echoCalls, map_append, mem_append, mem_map, Option.some.injEq]
            at hin
          simp only [map_append, map_cons, nodup_append, mem_append,
            mem_cons, mem_map] at hnd
          rcases hin with ⟨x, hx, hxe⟩ | ⟨x, hx, hxe⟩
          · exact hnd.1.2.2 _ ⟨x, hx, rfl⟩ _ (Or.inl rfl) hxe
          · exact hnd.2.2 _ (Or.inr (Or.inl rfl)) _ ⟨x, hx, rfl⟩ hxe.symm
      refine ⟨hs, ?_⟩
      rw [hinj] at hnd
      simpa [hs, echoCalls] using hnd
    · rintro ⟨hs, hnd⟩
      refine ⟨by simpa using he, ?_, ?_⟩
      · rw [hinj]
        simpa [hs, echoCalls] using hnd
      · simp [hs, echoCalls]

/-! ## One pass -/

/-- The calls of one response keep their pairing: the ids are distinct and the
budget gate lets every intact call through. -/
def CallsKept (fast finalizing : Bool) (searchPhases : Nat) (calls : List ToolCallRequest) : Prop :=
  (calls.map (·.id)).Nodup ∧
    (gate fast finalizing searchPhases (calls.filter (!·.truncated))).skipped = []

section Pass
variable (env : RunEnv) (turn : Turn)

theorem gate_perm (fast f : Bool) (n : Nat) (calls : List ToolCallRequest) :
    ((gate fast f n calls).kept ++ (gate fast f n calls).skipped.map Prod.fst).Perm calls := by
  unfold gate
  split
  · exact budgetGate_perm f n calls
  · simp

/-- What a pass does to the pairing of both lists, given that it started from a paired one. -/
structure PassSpec (kept : Prop) (s s' : LoopState) : Prop where
  messages : WellPaired s'.messages ↔ kept
  delta : WellPaired s'.messagesDelta ↔ WellPaired s.messagesDelta ∧ kept
  finalizing : s'.finalizing = s.finalizing

theorem wellPaired_append_plain (l m : List Message) (hm : ∀ a ∈ m, a.kind = .plain) :
    WellPaired (l ++ m) ↔ WellPaired l := by
  rw [WellPaired, Pairing.paired_append]
  · simp [Pairing.paired_of_plain _ m hm]
  · intro a ha
    simp [Pairing.isReply, hm a (mem_of_mem_head? ha)]

variable (r : Round) (response : LLMResponse) (reasoning : Option String)

theorem handleToolCalls_next (s s' : LoopState) (hcalls : response.toolCalls ≠ []) (hs : WellPaired s.messages)
    (h : handleToolCalls env turn r response reasoning s = .next s') :
    PassSpec (CallsKept turn.fast s.finalizing s.searchPhases response.toolCalls) s s' ∧
      s'.searchPhases = (gate turn.fast s.finalizing s.searchPhases
        (response.toolCalls.filter (!·.truncated))).searchPhases := by
  unfold handleToolCalls at h
  let truncated := response.toolCalls.filter (·.truncated)
  let g := gate turn.fast s.finalizing s.searchPhases (response.toolCalls.filter (!·.truncated))
  cases hx : executeMany r g.kept with
  | error e => simp [g, hx] at h
  | ok contexts =>
    simp only [g, hx, PassOutcome.next.injEq] at h
    have hlen := executeMany_length r g.kept contexts hx
    have hperm : (g.kept ++ g.skipped.map Prod.fst ++ truncated).Perm response.toolCalls := by
      have h1 := (gate_perm turn.fast s.finalizing s.searchPhases
        (response.toolCalls.filter (!·.truncated))).append_right truncated
      exact h1.trans (perm_append_comm.trans (filter_append_perm _ _))
    have hne : g.kept ++ g.skipped.map Prod.fst ++ truncated ≠ [] := by
      intro he
      rw [he] at hperm
      exact hcalls (nil_perm.mp hperm)
    have hkept : g.skipped = [] ∧ ((echoCalls g truncated).map (·.id)).Nodup ↔
        CallsKept turn.fast s.finalizing s.searchPhases response.toolCalls := by
      unfold CallsKept
      rw [and_comm]
      apply and_congr_left
      intro hsk
      have hg : g.skipped = [] := hsk
      rw [hg, map_nil, append_nil] at hperm
      exact (hperm.map (·.id)).nodup_iff
    have block : ∀ (base : List Message) (m : Message), m.role = .assistant →
        m.toolCalls = (echoCalls g truncated).map callEntry →
        (WellPaired (base ++ m :: resultMessages g contexts truncated
            (truncationNotice turn.maxTokens)) ↔ WellPaired base ∧
          CallsKept turn.fast s.finalizing s.searchPhases response.toolCalls) := by
      intro base m hm htc
      rw [WellPaired, Pairing.paired_append, ← hkept]
      · exact and_congr_right fun _ => echo_paired_iff m g contexts truncated _ hm htc hlen hne
      · intro a ha
        obtain rfl : m = a := by simpa using ha
        simp [isReply_eq, hm]
    subst h
    refine ⟨⟨?_, ?_, rfl⟩, rfl⟩
    · simp only [addAssistantMessage, append_assoc, cons_append, nil_append]
      rw [block s.messages _ rfl rfl]
      exact and_iff_right hs
    · exact block s.messagesDelta _ rfl rfl

theorem kind_plain (m : Message) (hr : m.role ≠ .tool) (hc : m.toolCalls = []) :
    m.kind = .plain := by
  simp [Message.kind, hr, hc]

theorem wellPaired_snoc (l : List Message) (m : Message) (hr : m.role ≠ .tool)
    (hc : m.toolCalls = []) : WellPaired (l ++ [m]) ↔ WellPaired l := by
  apply wellPaired_append_plain
  intro a ha
  obtain rfl := mem_singleton.mp ha
  exact kind_plain a hr hc

theorem steered_plain (steers : List Steer) :
    (∀ a ∈ steers.map steerMessage, a.kind = .plain) ∧
      ∀ a ∈ steers.map steerDelta, a.kind = .plain := by
  constructor
  · intro a ha
    obtain ⟨x, -, rfl⟩ := mem_map.mp ha
    rfl
  · intro a ha
    obtain ⟨x, -, rfl⟩ := mem_map.mp ha
    rfl

theorem handleText_next (s s' : LoopState) (hs : WellPaired s.messages)
    (h : handleText env turn r response reasoning s = .next s') :
    PassSpec True s s' ∧ s'.searchPhases = s.searchPhases := by
  simp only [handleText, addAssistantMessage] at h
  obtain ⟨hsteer, hdelta⟩ := steered_plain r.steers
  split at h
  case isTrue =>
    obtain rfl := PassOutcome.next.inj h
    refine ⟨⟨?_, ?_, rfl⟩, rfl⟩
    · show WellPaired (_ ++ [_] ++ _) ↔ True
      rw [wellPaired_append_plain _ _ hsteer, wellPaired_snoc _ _ (by simp) rfl]
      exact iff_true_intro hs
    · show WellPaired (s.messagesDelta ++ _ :: _) ↔ _
      rw [wellPaired_append_plain, and_true]
      intro a ha
      rcases mem_cons.mp ha with rfl | ha
      · exact kind_plain _ (by simp) rfl
      · exact hdelta a ha
  case isFalse =>
    have hsnoc : ∀ m u : Message, m.role ≠ .tool → m.toolCalls = [] → u.role ≠ .tool →
        u.toolCalls = [] → (WellPaired (s.messages ++ [m] ++ [u]) ↔ True) := by
      intro m u hm hmc hu huc
      rw [wellPaired_snoc _ _ hu huc, wellPaired_snoc _ _ hm hmc]
      exact iff_true_intro hs
    split at h
    · split at h
      · obtain rfl := PassOutcome.next.inj h
        exact ⟨⟨hsnoc _ _ (by simp) rfl (by simp) rfl, (and_true _).symm.to_iff, rfl⟩, rfl⟩
      · cases h
    · split at h
      · obtain rfl := PassOutcome.next.inj h
        refine ⟨⟨hsnoc _ _ (by simp) rfl (by simp) rfl, ?_, rfl⟩, rfl⟩
        show WellPaired (s.messagesDelta ++ [_]) ↔ _
        rw [wellPaired_snoc _ _ (by simp) rfl, and_true]
      · cases h

variable (s : LoopState)

theorem handleText_done (result : TurnResult) (ledger : List LedgerItem)
    (hs : WellPaired s.messages)
    (h : handleText env turn r response reasoning s = .done result ledger) :
    WellPaired result.messages ∧ (WellPaired result.messagesDelta ↔ WellPaired s.messagesDelta) := by
  simp only [handleText, addAssistantMessage] at h
  split at h
  · cases h
  · split at h
    · split at h <;> cases h
    · split at h
      · cases h
      · obtain ⟨rfl, -⟩ := PassOutcome.done.inj h
        constructor
        · exact (wellPaired_snoc _ _ (by simp) rfl).mpr hs
        · exact wellPaired_snoc _ _ (by simp) rfl

/-- The stream of a round, when no cancel event cuts it. -/
def Round.streamed (r : Round) : Streamed := r.stream.foldl (fun st e => streamStep st e.2) {}

theorem readStream_eq (st st' : Streamed) (events : List (Bool × StreamEvent))
    (h : readStream st events = .ok st') :
    st' = events.foldl (fun st e => streamStep st e.2) st := by
  induction events generalizing st with
  | nil => exact (Except.ok.inj h).symm
  | cons e events ih =>
    obtain ⟨c, e⟩ := e
    cases c with
    | true => cases h
    | false => exact ih _ h

/-- The clock of the round is at or past the hard stop, so its response is never asked for. -/
def HardStopped (r : Round) : Prop := turn.fast = true ∧ turn.hardStopAt ≤ r.now

instance (r : Round) : Decidable (HardStopped turn r) := inferInstanceAs (Decidable (_ ∧ _))

/-- The calls of the response the round reads. -/
def callsRead (r : Round) : List ToolCallRequest :=
  if HardStopped turn r then [] else r.streamed.assemble.toolCalls

def intactCalls (r : Round) : List ToolCallRequest := (callsRead turn r).filter (!·.truncated)

/-- Whether the finalization phase is on behind the fuse. -/
def finalizingAt (finalizing : Bool) (r : Round) : Bool :=
  finalizing || (turn.fast && decide (turn.finalizeAt ≤ r.now))

theorem fuse_spec (now : Int) (s : LoopState) :
    (fuse turn now s).finalizing =
        (s.finalizing || (turn.fast && decide (turn.finalizeAt ≤ now))) ∧
      (fuse turn now s).messagesDelta = s.messagesDelta ∧
      (fuse turn now s).searchPhases = s.searchPhases := by
  unfold fuse
  split
  case isTrue h => simp [h.1, h.2.1, h.2.2]
  case isFalse h =>
    refine ⟨?_, rfl, rfl⟩
    cases hf : s.finalizing with
    | true => rfl
    | false =>
      cases hm : turn.fast with
      | false => rfl
      | true => simpa [hf, hm] using h

theorem callsKept_nil (fast f : Bool) (n : Nat) :
    CallsKept fast f n [] ∧ (gate fast f n []).searchPhases = n := by
  cases fast <;> simp [CallsKept, gate, budgetGate]

/-- What a continuing pass does: its response decides whether both lists stay paired. -/
structure RoundSpec (r : Round) (s s' : LoopState) : Prop where
  reached : ¬ HardStopped turn r
  messages : WellPaired s'.messages ↔
    CallsKept turn.fast (finalizingAt turn s.finalizing r) s.searchPhases (callsRead turn r)
  delta : WellPaired s'.messagesDelta ↔ WellPaired s.messagesDelta ∧
    CallsKept turn.fast (finalizingAt turn s.finalizing r) s.searchPhases (callsRead turn r)
  finalizing : s'.finalizing = finalizingAt turn s.finalizing r
  searchPhases : s'.searchPhases =
    (gate turn.fast (finalizingAt turn s.finalizing r) s.searchPhases
      (intactCalls turn r)).searchPhases

/-- The state a response is handled in: fused, trimmed and with its reasoning noted. -/
def prepared (r : Round) (s : LoopState) : LoopState :=
  { fuse turn r.now s with
    messages := trimForModel env.estimateTokens env.hardLimit (fuse turn r.now s).messages
    reasoningParts := (fuse turn r.now s).reasoningParts ++ r.streamed.reasoningContent.toList
    ledger := (fuse turn r.now s).ledger ++ if env.ledger then r.streamed.ledger else [] }

theorem prepared_spec :
    WellPaired (prepared env turn r s).messages ∧
      (prepared env turn r s).messagesDelta = s.messagesDelta ∧
      (prepared env turn r s).finalizing = finalizingAt turn s.finalizing r ∧
      (prepared env turn r s).searchPhases = s.searchPhases := by
  obtain ⟨h1, h2, h3⟩ := fuse_spec turn r.now s
  exact ⟨trimForModel_paired _ _ _, h2, h1, h3⟩

theorem pass_cases :
    (∃ e, pass env turn r s = .raise e) ∨
    (HardStopped turn r ∧ pass env turn r s = .stop s) ∨
    (¬ HardStopped turn r ∧ callsRead turn r ≠ [] ∧ pass env turn r s =
      handleToolCalls env turn r r.streamed.assemble r.streamed.reasoningContent
        (prepared env turn r s)) ∨
    (¬ HardStopped turn r ∧ callsRead turn r = [] ∧ pass env turn r s =
      handleText env turn r r.streamed.assemble r.streamed.reasoningContent
        (prepared env turn r s)) := by
  unfold pass
  by_cases hc : r.cancelled = true
  · exact Or.inl ⟨_, if_pos hc⟩
  rw [if_neg hc]
  by_cases hh : HardStopped turn r
  · exact Or.inr (Or.inl ⟨hh, if_pos hh⟩)
  rw [if_neg (show ¬(turn.fast = true ∧ turn.hardStopAt ≤ r.now) from hh)]
  cases hr : readStream {} r.stream with
  | error e => exact Or.inl ⟨_, rfl⟩
  | ok st =>
    cases he : r.streamError with
    | some e => exact Or.inl ⟨_, rfl⟩
    | none =>
      obtain rfl : st = r.streamed := readStream_eq _ _ _ hr
      simp only []
      by_cases hf : r.streamed.assemble.finishReason = "error"
      · rw [if_pos hf]
        exact Or.inl ⟨_, rfl⟩
      rw [if_neg hf]
      have hread : callsRead turn r = r.streamed.assemble.toolCalls := if_neg hh
      right
      right
      rw [hread]
      by_cases ht : r.streamed.assemble.toolCalls = []
      · right
        refine ⟨hh, ht, ?_⟩
        rw [if_neg (by simp [LLMResponse.hasToolCalls, ht])]
        rfl
      · left
        refine ⟨hh, ht, ?_⟩
        rw [if_pos (by simp [LLMResponse.hasToolCalls, ht])]
        rfl

theorem handleToolCalls_not_done : (∃ e, handleToolCalls env turn r response reasoning s = .raise e) ∨
      ∃ s', handleToolCalls env turn r response reasoning s = .next s' := by
  unfold handleToolCalls
  simp only []
  split
  · exact Or.inl ⟨_, rfl⟩
  · exact Or.inr ⟨_, rfl⟩

theorem pass_next (s s' : LoopState) (h : pass env turn r s = .next s') :
    RoundSpec turn r s s' := by
  obtain ⟨hp, hd, hf, hn⟩ := prepared_spec env turn r s
  rcases pass_cases env turn r s with ⟨e, he⟩ | ⟨-, he⟩ | ⟨hh, hne, he⟩ | ⟨hh, hnil, he⟩
  · rw [he] at h
    cases h
  · rw [he] at h
    cases h
  · rw [he] at h
    have hread : callsRead turn r = r.streamed.assemble.toolCalls := if_neg hh
    rw [hread] at hne
    obtain ⟨spec, hs⟩ := handleToolCalls_next env turn r _ _ _ s' hne hp h
    rw [hf, hn, ← hread] at spec hs
    exact ⟨hh, spec.messages, hd ▸ spec.delta, spec.finalizing.trans hf, hs⟩
  · rw [he] at h
    obtain ⟨spec, hs⟩ := handleText_next env turn r _ _ _ s' hp h
    obtain ⟨hk, hg⟩ := callsKept_nil turn.fast (finalizingAt turn s.finalizing r) s.searchPhases
    refine ⟨hh, ?_, ?_, spec.finalizing.trans hf, ?_⟩
    · rw [hnil]
      exact spec.messages.trans (iff_of_true trivial hk)
    · rw [hnil, spec.delta, hd]
      exact and_congr_right fun _ => iff_of_true trivial hk
    · rw [hs, hn, intactCalls, hnil]
      exact hg.symm

theorem pass_done (result : TurnResult) (ledger : List LedgerItem)
    (h : pass env turn r s = .done result ledger) :
    ¬ HardStopped turn r ∧ callsRead turn r = [] ∧ WellPaired result.messages ∧
      (WellPaired result.messagesDelta ↔ WellPaired s.messagesDelta) := by
  obtain ⟨hp, hd, -, -⟩ := prepared_spec env turn r s
  rcases pass_cases env turn r s with ⟨e, he⟩ | ⟨-, he⟩ | ⟨-, -, he⟩ | ⟨hh, hnil, he⟩
  · rw [he] at h
    cases h
  · rw [he] at h
    cases h
  · rw [he] at h
    rcases handleToolCalls_not_done env turn r _ _ _ with ⟨e, hx⟩ | ⟨s', hx⟩ <;>
      rw [hx] at h <;> cases h
  · rw [he] at h
    obtain ⟨h1, h2⟩ := handleText_done env turn r _ _ _ _ _ hp h
    exact ⟨hh, hnil, h1, hd ▸ h2⟩

theorem pass_stop (s s' : LoopState) (h : pass env turn r s = .stop s') :
    HardStopped turn r ∧ s' = s := by
  rcases pass_cases env turn r s with ⟨e, he⟩ | ⟨hh, he⟩ | ⟨-, -, he⟩ | ⟨-, -, he⟩
  · rw [he] at h
    cases h
  · rw [he] at h
    exact ⟨hh, (PassOutcome.stop.inj h).symm⟩
  · rw [he] at h
    rcases handleToolCalls_not_done env turn r _ _ _ with ⟨e, hx⟩ | ⟨s', hx⟩ <;>
      rw [hx] at h <;> cases h
  · rw [he] at h
    simp only [handleText] at h
    split at h
    · cases h
    · split at h
      · split at h <;> cases h
      · split at h <;> cases h

/-! ## The run -/

/-- The rounds from the first clock reading in the grace period on. -/
def lateRounds (finalizing : Bool) (rounds : List Round) : List Round :=
  if finalizing then rounds else rounds.dropWhile fun r => r.now < turn.finalizeAt

/-- The condition on the rounds of a run: distinct ids in each response and, in fast
mode, no intact call in a late round and one intact web search at most. -/
def TurnKept (finalizing : Bool) (searchPhases : Nat) (rounds : List Round) : Prop :=
  (∀ r ∈ rounds, ((callsRead turn r).map (·.id)).Nodup) ∧
    (turn.fast = true →
      (∀ r ∈ lateRounds turn finalizing rounds, intactCalls turn r = []) ∧
        searchPhases + (rounds.flatMap (intactCalls turn)).countP isSearch ≤ 1)

theorem lateRounds_cons (f : Bool) (r : Round) (rest : List Round) (hfast : turn.fast = true) :
    lateRounds turn f (r :: rest) =
      if finalizingAt turn f r then r :: rest else lateRounds turn false rest := by
  unfold lateRounds finalizingAt
  cases f with
  | true => rfl
  | false =>
    by_cases h : turn.finalizeAt ≤ r.now
    · simp [h, hfast, Int.not_lt.mpr h]
    · simp [h, hfast, Int.not_le.mp h]

theorem turnKept_cons (f : Bool) (n : Nat) (hn : n ≤ 1) (r : Round) (rest : List Round) :
    (TurnKept turn f n (r :: rest) ↔
      CallsKept turn.fast (finalizingAt turn f r) n (callsRead turn r) ∧
        TurnKept turn (finalizingAt turn f r)
          (gate turn.fast (finalizingAt turn f r) n (intactCalls turn r)).searchPhases rest) ∧
      (gate turn.fast (finalizingAt turn f r) n (intactCalls turn r)).searchPhases ≤ 1 := by
  unfold TurnKept CallsKept
  rw [show (callsRead turn r).filter (!·.truncated) = intactCalls turn r from rfl]
  rw [forall_mem_cons, flatMap_cons, countP_append]
  by_cases hfast : turn.fast = true
  · rw [lateRounds_cons turn f r rest hfast]
    cases hf : finalizingAt turn f r with
    | true =>
      obtain ⟨hsk, hph⟩ := budgetGate_finalizing n (intactCalls turn r)
      have hgate : gate turn.fast true n (intactCalls turn r) =
          budgetGate true n (intactCalls turn r) := if_pos hfast
      have hnil :
          (budgetGate true n (intactCalls turn r)).skipped = [] ↔ intactCalls turn r = [] := by
        rw [← map_eq_nil_iff (f := Prod.fst), hsk]
      rw [hgate, hph, hnil]
      refine ⟨?_, hn⟩
      simp only [hfast, if_true, forall_mem_cons, lateRounds, true_implies]
      constructor
      · rintro ⟨⟨h1, h2⟩, ⟨h3, h4⟩, h5⟩
        exact ⟨⟨h1, h3⟩, h2, h4, by omega⟩
      · rintro ⟨⟨h1, h3⟩, h2, h4, h5⟩
        refine ⟨⟨h1, h2⟩, ⟨h3, h4⟩, ?_⟩
        rw [h3]
        simpa using h5
    | false =>
      obtain ⟨hsk, hle, hph⟩ := budgetGate_open n hn (intactCalls turn r)
      have hgate : gate turn.fast false n (intactCalls turn r) =
          budgetGate false n (intactCalls turn r) := if_pos hfast
      rw [hgate]
      refine ⟨?_, hle⟩
      simp only [hfast, true_implies, if_false, Bool.false_eq_true]
      constructor
      · rintro ⟨⟨h1, h2⟩, h4, h5⟩
        have hs := hsk.mpr (by omega)
        rw [hph hs]
        exact ⟨⟨h1, hs⟩, h2, h4, by omega⟩
      · rintro ⟨⟨h1, hs⟩, h2, h4, h5⟩
        rw [hph hs] at h5
        exact ⟨⟨h1, h2⟩, h4, by omega⟩
  · have hgate : gate turn.fast (finalizingAt turn f r) n (intactCalls turn r) =
        { kept := intactCalls turn r, searchPhases := n } := if_neg hfast
    rw [hgate]
    simp [hfast, hn]

theorem turnKept_empty (f : Bool) (n : Nat) (hn : n ≤ 1) (rounds : List Round)
    (h : ∀ r ∈ rounds, callsRead turn r = []) : TurnKept turn f n rounds := by
  have hi : ∀ r ∈ rounds, intactCalls turn r = [] := fun r hr => by simp [intactCalls, h r hr]
  refine ⟨fun r hr => by simp [h r hr], fun _ => ⟨fun r hr => hi r ?_, ?_⟩⟩
  · unfold lateRounds at hr
    split at hr
    · exact hr
    · exact (dropWhile_sublist _).subset hr
  · rw [flatMap_eq_nil_iff.mpr hi]
    simpa using hn

/-- A run that returns ends with its rounds or with a stop, or its first pass returns, or it goes
on behind its first pass. -/
theorem runLoop_cases (n : Nat) (rounds : List Round) (s : LoopState) (ret : Returned)
    (hs : s.searchPhases ≤ 1) (h : runLoop env turn n rounds s = some (.ok ret)) :
    (ret = exhausted env turn s ∧ TurnKept turn s.finalizing s.searchPhases rounds ∧
      ∀ r ∈ rounds, HardStopped turn r) ∨
    (∃ r result ledger, rounds = [r] ∧ pass env turn r s = .done result ledger ∧
      ret = ⟨result, ledger⟩ ∧ TurnKept turn s.finalizing s.searchPhases [r]) ∨
    ∃ m r rest s', n = m + 1 ∧ rounds = r :: rest ∧ pass env turn r s = .next s' ∧
      runLoop env turn m rest s' = some (.ok ret) := by
  cases n with
  | zero =>
    cases rounds with
    | cons r rest => cases h
    | nil =>
      obtain rfl := Except.ok.inj (Option.some.inj h)
      exact .inl ⟨rfl, turnKept_empty turn _ _ hs [] (by simp), by simp⟩
  | succ n =>
    cases rounds with
    | nil => cases h
    | cons r rest =>
      unfold runLoop at h
      cases hp : pass env turn r s with
      | raise e =>
        rw [hp] at h
        simp only [] at h
        split at h <;> cases h
      | stop s' =>
        obtain ⟨hh, rfl⟩ := pass_stop env turn r s s' hp
        rw [hp] at h
        simp only [] at h
        split at h
        case isFalse => cases h
        case isTrue he =>
          obtain rfl := isEmpty_iff.mp he
          obtain rfl := Except.ok.inj (Option.some.inj h)
          exact .inl ⟨rfl, turnKept_empty turn _ _ hs [r] (by simp [callsRead, hh]), by simpa⟩
      | done result ledger =>
        obtain ⟨-, hnil, -⟩ := pass_done env turn r s result ledger hp
        rw [hp] at h
        simp only [] at h
        split at h
        case isFalse => cases h
        case isTrue he =>
          obtain rfl := isEmpty_iff.mp he
          obtain rfl := Except.ok.inj (Option.some.inj h)
          exact .inr (.inl ⟨r, result, ledger, rfl, hp, rfl,
            turnKept_empty turn _ _ hs [r] (by simp [hnil])⟩)
      | next s' =>
        rw [hp] at h
        exact .inr (.inr ⟨n, r, rest, s', rfl, rfl, hp, h⟩)

/-- **Run lemma.** From any loop state, the lists of a run that returns are paired
iff they were and the rounds kept the pairing. -/
theorem runLoop_paired_iff (n : Nat) (rounds : List Round) (s : LoopState) (ret : Returned)
    (hs : s.searchPhases ≤ 1) (h : runLoop env turn n rounds s = some (.ok ret)) :
    (WellPaired ret.result.messages ∧ WellPaired ret.result.messagesDelta) ↔
      WellPaired s.messagesDelta ∧ TurnKept turn s.finalizing s.searchPhases rounds ∧
        (WellPaired s.messages ∨ ∃ r ∈ rounds, ¬ HardStopped turn r) := by
  induction n using Nat.strongRecOn generalizing rounds s with
  | ind n ih =>
    rcases runLoop_cases env turn n rounds s ret hs h with ⟨rfl, hk, hstopped⟩ |
      ⟨r, result, ledger, rfl, hp, rfl, hk⟩ | ⟨n, r, rest, s', rfl, rfl, hp, h⟩
    · have hexhausted : WellPaired (exhausted env turn s).result.messagesDelta ↔
          WellPaired s.messagesDelta := wellPaired_snoc _ _ (by simp) rfl
      have hnone : ¬ ∃ r ∈ rounds, ¬ HardStopped turn r := by simpa using hstopped
      rw [hexhausted, and_iff_right hk, or_iff_left hnone]
      exact and_comm
    · obtain ⟨hh, -, h1, h2⟩ := pass_done env turn r s result ledger hp
      simp only [h1, h2, hk, true_and, mem_singleton, exists_eq_left, hh, not_false_iff, or_true,
        and_true]
    · have spec := pass_next env turn r s s' hp
      obtain ⟨hcons, hle⟩ := turnKept_cons turn s.finalizing s.searchPhases hs r rest
      rw [← spec.searchPhases, ← spec.finalizing] at hcons
      rw [← spec.searchPhases] at hle
      refine (ih n (Nat.lt_succ_self n) rest s' hle h).trans ?_
      rw [spec.delta, spec.messages, hcons, spec.finalizing]
      constructor
      · rintro ⟨⟨hd, hk⟩, hr, -⟩
        exact ⟨hd, ⟨hk, hr⟩, Or.inr ⟨r, mem_cons_self .., spec.reached⟩⟩
      · rintro ⟨hd, ⟨hk, hr⟩, -⟩
        exact ⟨⟨hd, hk⟩, hr, Or.inl hk⟩

theorem initial_paired_iff : WellPaired (buildInitialMessages turn) ↔ WellPaired turn.history := by
  unfold buildInitialMessages
  rw [cons_append]
  rw [WellPaired, Pairing.paired_plain_cons _ _ _ (kind_plain _ (by simp) rfl)]
  exact wellPaired_snoc _ _ (by simp) rfl

/-- **Which turns keep calls and results paired.** The returned lists are paired, and pruning
removes nothing of the delta behind any earlier messages, iff every response read has distinct
ids, fast mode refused no intact call for its budget, and the history was paired or trimmed. -/
theorem turn_paired_iff (rounds : List Round) (ret : Returned)
    (h : runImpl env turn rounds = some (.ok ret)) :
    (WellPaired ret.result.messages ∧ WellPaired ret.result.messagesDelta ∧
        ∀ earlier, pruneUnpairedToolMessages (earlier ++ ret.result.messagesDelta) =
          pruneUnpairedToolMessages earlier ++ ret.result.messagesDelta) ↔
      TurnKept turn false 0 rounds ∧
        (WellPaired turn.history ∨ ∃ r ∈ rounds, ¬ HardStopped turn r) := by
  have hrun := runLoop_paired_iff env turn _ rounds _ ret (Nat.zero_le 1) h
  have hstart : WellPaired ([] : List Message) := by simp [WellPaired, Pairing.Paired]
  rw [initial_paired_iff] at hrun
  simp only [hstart, true_and] at hrun
  rw [← hrun]
  constructor
  · rintro ⟨hm, hd, -⟩
    exact ⟨hm, hd⟩
  · rintro ⟨hm, hd⟩
    refine ⟨hm, hd, fun earlier => ?_⟩
    rw [pruneUnpairedToolMessages_eq, pruneUnpairedToolMessages_eq,
      Pairing.prune_append _ _ _ (hd.head _), (Pairing.prune_eq_self_iff _ _).mpr hd]

end Pass

/-! ## Two runs in fast mode -/

def fastTurn : Turn :=
  { userContent := "q", systemPrompt := "s", reasoningMode := some "fast" }

/-- A response with these calls, then the answer. -/
def callsThenAnswer (calls : List ToolCallRequest) : List Round :=
  [{ stream := [(false, .completed { toolCalls := calls })] },
   { stream := [(false, .completed { content := some "done" })] }]

def searchCall (id : String) : ToolCallRequest := { id := id, name := "web_search" }

theorem trimForModel_zero : trimForModel (fun _ => 0) 0 = Pairing.prune Message.kind := by
  funext l
  rw [← pruneUnpairedToolMessages_eq]
  rfl

theorem turn_paired_iff_oneSearch : ∃ ret,
    runImpl {} fastTurn (callsThenAnswer [searchCall "c1"]) = some (.ok ret) ∧
      WellPaired ret.result.messages ∧ WellPaired ret.result.messagesDelta := by
  have hrun : ∃ ret, runImpl {} fastTurn (callsThenAnswer [searchCall "c1"]) = some (.ok ret) := by
    unfold runImpl callsThenAnswer
    simp only [show fastTurn.effectiveIterations {} = 3 from rfl, runLoop, pass, trimForModel_zero]
    exact ⟨_, rfl⟩
  obtain ⟨ret, hret⟩ := hrun
  have h := (turn_paired_iff {} fastTurn _ ret hret).mpr
    ⟨by unfold TurnKept; decide, Or.inr (by decide)⟩
  exact ⟨ret, hret, h.1, h.2.1⟩

/-- The second search of one fast response is answered but not echoed. -/
theorem fastTurn_twoSearches_unpaired : ∃ ret,
    runImpl {} fastTurn (callsThenAnswer [searchCall "c1", searchCall "c2"]) = some (.ok ret) ∧
      ¬ WellPaired ret.result.messagesDelta := by
  unfold runImpl callsThenAnswer
  simp only [show fastTurn.effectiveIterations {} = 3 from rfl, runLoop, pass, trimForModel_zero]
  refine ⟨_, rfl, ?_⟩
  rw [WellPaired, ← Pairing.prune_eq_self_iff]
  decide

end MiqroForge.Messages
