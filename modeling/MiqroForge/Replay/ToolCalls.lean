import MiqroForge.Messages.TurnPairing
import MiqroForge.Replay.Timeline

/-!
Tool calls in the ledger of a turn that returned. A pass writes a start for every call of
its response and a completion for the executed and the refused ones, so a call that the
fast-mode budget skipped stays open.

* `ledger_closed_iff`: every start is followed by exactly one completion, and no timeline of
  the turn has a pending call, iff the budget skipped no call.
-/

namespace MiqroForge.Replay

open Messages List

/-! ## Starts and completions -/

/-- The row `append_item` makes of an item. -/
def body : LedgerItem → Body
  | .assistantDelta content _ => .assistantDelta content
  | .reasoningDelta content => .reasoningDelta content
  | .toolCallStarted tc => .toolCallStarted tc.id tc.name (some tc.arguments)
  | .toolCallCompleted ctx =>
    .toolCallCompleted ctx.toolCallId ctx.result ctx.durationMs ctx.retryCount
      ctx.permissionVerdict ctx.sandboxType

def Body.isToolCall : Body → Bool
  | .toolCallStarted _ _ _ => true
  | .toolCallCompleted _ _ _ _ _ _ => true
  | _ => false

def started? : LedgerItem → Option ToolCallRequest
  | .toolCallStarted tc => some tc
  | _ => none

def completed? : LedgerItem → Option String
  | .toolCallCompleted ctx => some ctx.toolCallId
  | _ => none

/-- How many completions of the call `id` the items hold. -/
def completions (id : String) (items : List LedgerItem) : Nat :=
  (items.filterMap completed?).count id

/-- Every start is followed by exactly one completion of its call. -/
def Closed (items : List LedgerItem) : Prop :=
  ∀ before tc after, items = before ++ .toolCallStarted tc :: after → completions tc.id after = 1

theorem completions_append (id : String) (l m : List LedgerItem) :
    completions id (l ++ m) = completions id l + completions id m := by
  simp [completions, count_append]

theorem closed_of_no_start (l : List LedgerItem) (h : l.filterMap started? = []) : Closed l := by
  rintro before tc after rfl
  simp [started?] at h

theorem closed_append_iff (l m : List LedgerItem)
    (h : ∀ tc ∈ l.filterMap started?, completions tc.id m = 0) :
    Closed (l ++ m) ↔ Closed l ∧ Closed m := by
  constructor
  · intro hc
    constructor
    · rintro before tc after rfl
      have hone := hc before tc (after ++ m) (by simp)
      rw [completions_append, h tc (by simp [started?])] at hone
      exact hone
    · rintro before tc after rfl
      exact hc (l ++ before) tc after (by simp)
  · rintro ⟨hl, hm⟩ before tc after heq
    rcases append_eq_append_iff.mp heq with ⟨mid, rfl, hmid⟩ | ⟨mid, rfl, hmid⟩
    · exact hm mid tc after hmid
    · cases mid with
      | nil => exact hm [] tc after hmid.symm
      | cons x mid =>
        obtain ⟨rfl, hafter⟩ := List.cons.inj (hmid.trans (cons_append ..))
        rw [hafter, completions_append, hl before tc mid rfl, h tc (by simp [started?])]

theorem closed_block_iff (calls : List ToolCallRequest) (m : List LedgerItem)
    (hm : m.filterMap started? = []) :
    Closed (calls.map .toolCallStarted ++ m) ↔ ∀ tc ∈ calls, completions tc.id m = 1 := by
  have hzero : ∀ (id : String) (l : List ToolCallRequest),
      completions id (l.map .toolCallStarted) = 0 := by
    intro id l
    simp [completions, filterMap_map, Function.comp_def, completed?]
  constructor
  · intro hc tc htc
    obtain ⟨a, b, rfl⟩ := append_of_mem htc
    have hone := hc (a.map .toolCallStarted) tc (b.map .toolCallStarted ++ m) (by simp)
    rwa [completions_append, hzero, Nat.zero_add] at hone
  · intro h before tc after heq
    rcases append_eq_append_iff.mp heq with ⟨mid, rfl, hmid⟩ | ⟨mid, hcalls, hmid⟩
    · rw [hmid] at hm
      simp [started?] at hm
    · cases mid with
      | nil =>
        rw [nil_append] at hmid
        rw [← hmid] at hm
        simp [started?] at hm
      | cons x mid =>
        obtain ⟨rfl, hafter⟩ := List.cons.inj (hmid.trans (cons_append ..))
        obtain ⟨a, rest, rfl, -, hrest⟩ := map_eq_append_iff.mp hcalls
        obtain ⟨c, b, rfl, hc, rfl⟩ := map_eq_cons_iff.mp hrest
        obtain rfl := LedgerItem.toolCallStarted.inj hc
        rw [hafter, completions_append, hzero, Nat.zero_add]
        exact h c (by simp)

/-! ## What the timeline makes of closed items -/

theorem foldl_callOpen_filter (id : String) (w : Bool) (bodies : List Body) :
    (bodies.filter Body.isToolCall).foldl (callOpen id) w = bodies.foldl (callOpen id) w := by
  induction bodies generalizing w with
  | nil => rfl
  | cons b bodies ih =>
    rw [filter_cons, foldl_cons]
    cases b <;> exact ih _

theorem foldl_callOpen_closed (id : String) (w : Bool) (items : List LedgerItem)
    (hc : Closed items) (hw : w = true → id ∈ items.filterMap completed?) :
    (items.map body).foldl (callOpen id) w = false := by
  induction items generalizing w with
  | nil =>
    cases w with
    | false => rfl
    | true => cases hw rfl
  | cons item items ih =>
    have hrest : Closed items := fun before tc after heq =>
      hc (item :: before) tc after (by rw [heq]; rfl)
    rw [map_cons, foldl_cons]
    apply ih _ hrest
    intro hopen
    cases item with
    | toolCallStarted tc =>
      simp only [body, callOpen, Bool.or_eq_true, beq_iff_eq] at hopen
      rcases hopen with rfl | h
      · have hone := hc [] tc items rfl
        exact count_pos_iff.mp (by unfold completions at hone; omega)
      · exact hw h
    | toolCallCompleted ctx =>
      simp only [body, callOpen, Bool.and_eq_true, Bool.not_eq_true', beq_eq_false_iff_ne]
        at hopen
      have hmem := hw hopen.2
      rw [filterMap_cons, completed?] at hmem
      rcases mem_cons.mp hmem with rfl | h
      · exact absurd rfl hopen.1
      · exact h
    | assistantDelta content index => exact hw hopen
    | reasoningDelta content => exact hw hopen

theorem no_pending_of_closed (ledger : List LedgerItem) (hc : Closed ledger)
    (threadId turnId : String) (items : List Item)
    (h : (items.map (·.body)).filter Body.isToolCall = (ledger.map body).filter Body.isToolCall) :
    pendingTools (buildTimeline threadId turnId items) = [] := by
  rw [eq_nil_iff_forall_not_mem]
  intro id hid
  have hopen := ((mem_pendingTools threadId turnId items id).mp hid).2
  rw [← foldl_callOpen_filter, h, foldl_callOpen_filter,
    foldl_callOpen_closed id false ledger hc nofun] at hopen
  cases hopen

/-! ## One pass -/

/-- The contexts carry the ids of their calls, as the orchestrator returns the context it gets. -/
def KeepsIds (r : Round) : Prop :=
  ∀ i tc ctx, r.executeOne i tc = .ok ctx → ctx.toolCallId = tc.id

theorem executeMany_ids (r : Round) (hr : KeepsIds r) (calls : List ToolCallRequest)
    (contexts : List ToolContext) (h : executeMany r calls = .ok contexts) :
    contexts.map (·.toolCallId) = calls.map (·.id) := by
  have key : ∀ {l : List (ToolCallRequest × Nat)} {cs : List ToolContext},
      List.Forall₂ (fun p ctx => r.executeOne p.2 p.1 = .ok ctx) l cs →
        cs.map (·.toolCallId) = l.map fun p => p.1.id := by
    intro l cs hcs
    induction hcs with
    | nil => rfl
    | cons hp _ ih => rw [map_cons, map_cons, ih, hr _ _ _ hp]
  rw [key (executeMany_results r calls contexts h)]
  have hfst := congrArg (List.map (·.id)) (zipIdx_map_fst 0 calls)
  rwa [map_map] at hfst

theorem streamed_ledger (r : Round) :
    r.streamed.ledger.filterMap started? = [] ∧ r.streamed.ledger.filterMap completed? = [] := by
  have key : ∀ (events : List (Bool × StreamEvent)) (st : Streamed),
      st.ledger.filterMap started? = [] ∧ st.ledger.filterMap completed? = [] →
        (events.foldl (fun st e => streamStep st e.2) st).ledger.filterMap started? = [] ∧
          (events.foldl (fun st e => streamStep st e.2) st).ledger.filterMap completed? = [] := by
    intro events
    induction events with
    | nil => exact fun st h => h
    | cons e events ih =>
      intro st h
      apply ih
      obtain ⟨c, e⟩ := e
      cases e <;> simpa [streamStep, started?, completed?] using h
  exact key r.stream {} ⟨rfl, rfl⟩

section Pass
variable (env : RunEnv) (turn : Turn)

/-- What a pass adds to the ledger: it starts the calls it reads, completes none but those, and
is closed iff the response kept its calls. -/
structure Added (r : Round) (kept : Prop) (block : List LedgerItem) : Prop where
  starts : block.filterMap started? = callsRead turn r
  completes : ∀ id ∈ block.filterMap completed?, id ∈ (callsRead turn r).map (·.id)
  closed : ((callsRead turn r).map (·.id)).Nodup → (Closed block ↔ kept)

theorem added_nil (r : Round) (hnil : callsRead turn r = []) (kept : Prop) (hk : kept) :
    Added turn r kept [] := by
  refine ⟨hnil.symm, fun id hid => (by cases hid), fun _ => ?_⟩
  exact iff_of_true (closed_of_no_start [] rfl) hk

theorem Added.streamed {r : Round} {kept : Prop} {block : List LedgerItem}
    (h : Added turn r kept block) :
    Added turn r kept ((if env.ledger then r.streamed.ledger else []) ++ block) := by
  obtain ⟨hs, hc⟩ := streamed_ledger r
  split
  · refine ⟨?_, fun id hid => ?_, fun hnd => ?_⟩
    · rw [filterMap_append, hs, nil_append, h.starts]
    · rw [filterMap_append, hc, nil_append] at hid
      exact h.completes id hid
    · rw [closed_append_iff _ _ (by simp [hs]), h.closed hnd]
      exact and_iff_right (closed_of_no_start _ hs)
  · exact h

theorem completions_iff (calls kept skipped truncated : List ToolCallRequest)
    (m : List LedgerItem) (hnd : (calls.map (·.id)).Nodup)
    (hperm : (kept ++ skipped ++ truncated).Perm calls)
    (hm : m.filterMap completed? = (kept ++ truncated).map (·.id)) :
    (∀ tc ∈ calls, completions tc.id m = 1) ↔ skipped = [] := by
  have hcount : ∀ tc ∈ calls, completions tc.id m + (skipped.map (·.id)).count tc.id = 1 := by
    intro tc htc
    have hone : (calls.map (·.id)).count tc.id = 1 :=
      count_eq_one_of_mem hnd (mem_map.mpr ⟨tc, htc, rfl⟩)
    rw [← (hperm.map (·.id)).count_eq] at hone
    simp only [map_append, count_append] at hone
    unfold completions
    rw [hm, map_append, count_append]
    omega
  constructor
  · intro h
    cases hs : skipped with
    | nil => rfl
    | cons tc rest =>
      have hmem : tc ∈ calls := hperm.subset (by simp [hs])
      have hsum := hcount tc hmem
      rw [h tc hmem, hs, map_cons, count_cons_self] at hsum
      omega
  · rintro rfl tc htc
    simpa using hcount tc htc

theorem added_tools (hl : env.ledger = true) (r : Round) (hr : KeepsIds r)
    (s s' : LoopState) (hread : callsRead turn r = r.streamed.assemble.toolCalls)
    (h : handleToolCalls env turn r r.streamed.assemble r.streamed.reasoningContent s = .next s') :
    ∃ block, s'.ledger = s.ledger ++ block ∧
      Added turn r (CallsKept turn.fast s.finalizing s.searchPhases (callsRead turn r)) block := by
  unfold handleToolCalls at h
  rw [← hread] at h
  let truncated := (callsRead turn r).filter (·.truncated)
  let g := gate turn.fast s.finalizing s.searchPhases ((callsRead turn r).filter (!·.truncated))
  cases hx : executeMany r g.kept with
  | error e => simp [g, hx] at h
  | ok contexts =>
    simp only [g, hx, PassOutcome.next.injEq] at h
    subst h
    refine ⟨_, rfl, ?_⟩
    have hids := executeMany_ids r hr g.kept contexts hx
    have hperm : (g.kept ++ g.skipped.map Prod.fst ++ truncated).Perm (callsRead turn r) := by
      have h1 := (gate_perm turn.fast s.finalizing s.searchPhases
        ((callsRead turn r).filter (!·.truncated))).append_right truncated
      exact h1.trans (perm_append_comm.trans (filter_append_perm _ _))
    let m : List LedgerItem := contexts.map .toolCallCompleted ++ truncated.map fun tc =>
      .toolCallCompleted { toolCallId := tc.id, result := some (truncationNotice turn.maxTokens) }
    have hblock : toolLedger env r.streamed.assemble contexts truncated
        (truncationNotice turn.maxTokens) = (callsRead turn r).map .toolCallStarted ++ m := by
      unfold toolLedger
      rw [if_pos hl, ← hread, append_assoc]
    have hstart : m.filterMap started? = [] := by
      simp [m, filterMap_map, Function.comp_def, started?]
    have hdone : m.filterMap completed? = (g.kept ++ truncated).map (·.id) := by
      rw [map_append, ← hids]
      simp [m, filterMap_append, filterMap_map, Function.comp_def, completed?]
    rw [hblock]
    refine ⟨?_, ?_, ?_⟩
    · rw [filterMap_append, hstart, append_nil, filterMap_map]
      simp [Function.comp_def, started?]
    · intro id hid
      rw [filterMap_append, hdone] at hid
      rcases mem_append.mp hid with h0 | h1
      · simp [filterMap_map, Function.comp_def, completed?] at h0
      · obtain ⟨tc, htc, rfl⟩ := mem_map.mp h1
        refine mem_map.mpr ⟨tc, hperm.subset ?_, rfl⟩
        rcases mem_append.mp htc with h2 | h2
        · simp [h2]
        · simp [h2]
    · intro hnd
      rw [closed_block_iff _ _ hstart,
        completions_iff _ g.kept (g.skipped.map Prod.fst) truncated m hnd hperm hdone,
        map_eq_nil_iff]
      exact (and_iff_right hnd).symm

theorem handleText_ledger (r : Round) (response : LLMResponse) (reasoning : Option String)
    (s : LoopState) :
    (∀ s', handleText env turn r response reasoning s = .next s' → s'.ledger = s.ledger) ∧
      ∀ result ledger, handleText env turn r response reasoning s = .done result ledger →
        ledger = s.ledger := by
  simp only [handleText]
  split
  · exact ⟨fun s' h => by rw [← PassOutcome.next.inj h], fun _ _ h => by cases h⟩
  · split
    · split
      · exact ⟨fun s' h => by rw [← PassOutcome.next.inj h], fun _ _ h => by cases h⟩
      · exact ⟨fun _ h => (by cases h), fun _ _ h => by cases h⟩
    · split
      · exact ⟨fun s' h => by rw [← PassOutcome.next.inj h], fun _ _ h => by cases h⟩
      · exact ⟨fun _ h => (by cases h), fun _ _ h => (PassOutcome.done.inj h).2.symm⟩

theorem prepared_ledger (r : Round) (s : LoopState) : (prepared env turn r s).ledger =
    s.ledger ++ if env.ledger then r.streamed.ledger else [] := by
  have hfuse : (fuse turn r.now s).ledger = s.ledger := by
    unfold fuse
    split <;> rfl
  unfold prepared
  rw [hfuse]

theorem pass_next_added (hl : env.ledger = true) (r : Round) (hr : KeepsIds r)
    (s s' : LoopState) (h : pass env turn r s = .next s') :
    ∃ block, s'.ledger = s.ledger ++ block ∧ Added turn r
      (CallsKept turn.fast (finalizingAt turn s.finalizing r) s.searchPhases (callsRead turn r))
      block := by
  obtain ⟨-, -, hf, hn⟩ := prepared_spec env turn r s
  have hled := prepared_ledger env turn r s
  rcases pass_cases env turn r s with ⟨e, he⟩ | ⟨-, he⟩ | ⟨hh, -, he⟩ | ⟨-, hnil, he⟩
  · rw [he] at h
    cases h
  · rw [he] at h
    cases h
  · rw [he] at h
    obtain ⟨block, hblock, hadded⟩ := added_tools env turn hl r hr _ s' (if_neg hh) h
    rw [hf, hn] at hadded
    exact ⟨_, by rw [hblock, hled, append_assoc], hadded.streamed env turn⟩
  · rw [he] at h
    have hkeep := (handleText_ledger env turn r _ _ _).1 s' h
    have hadded := added_nil turn r hnil
      (CallsKept turn.fast (finalizingAt turn s.finalizing r) s.searchPhases (callsRead turn r))
      (by rw [hnil]; exact (callsKept_nil _ _ _).1)
    exact ⟨_, by rw [hkeep, hled, append_nil], hadded.streamed env turn⟩

theorem pass_done_added (r : Round) (s : LoopState) (result : TurnResult)
    (ledger : List LedgerItem) (h : pass env turn r s = .done result ledger) :
    ∃ block, ledger = s.ledger ++ block ∧ Added turn r True block := by
  have hled := prepared_ledger env turn r s
  rcases pass_cases env turn r s with ⟨e, he⟩ | ⟨-, he⟩ | ⟨-, -, he⟩ | ⟨-, hnil, he⟩
  · rw [he] at h
    cases h
  · rw [he] at h
    cases h
  · rw [he] at h
    rcases handleToolCalls_not_done env turn r _ _ _ with ⟨e, hx⟩ | ⟨s', hx⟩ <;>
      rw [hx] at h <;> cases h
  · rw [he] at h
    have hkeep := (handleText_ledger env turn r _ _ _).2 result ledger h
    exact ⟨_, by rw [hkeep, hled, append_nil],
      (added_nil turn r hnil True trivial).streamed env turn⟩

/-! ## The run -/

/-- The ids of the calls started in the items. -/
def startedIds (items : List LedgerItem) : List String :=
  (items.filterMap started?).map (·.id)

theorem closed_added_iff (l block : List LedgerItem) (r : Round) (kept : Prop)
    (hadded : Added turn r kept block)
    (hnd : (startedIds l ++ (callsRead turn r).map (·.id)).Nodup) :
    Closed (l ++ block) ↔ Closed l ∧ kept := by
  obtain ⟨-, hcalls, hdisjoint⟩ := nodup_append.mp hnd
  rw [closed_append_iff, hadded.closed hcalls]
  intro tc htc
  apply count_eq_zero.mpr
  intro hmem
  exact hdisjoint tc.id (mem_map.mpr ⟨tc, htc, rfl⟩) tc.id (hadded.completes _ hmem) rfl

/-- **Run lemma.** From any loop state, the ledger of a run that returns is closed iff it was
and the rounds skipped no call. -/
theorem runLoop_closed_iff (hl : env.ledger = true) (n : Nat) (rounds : List Round)
    (s : LoopState) (ret : Returned) (hs : s.searchPhases ≤ 1) (hids : ∀ r ∈ rounds, KeepsIds r)
    (hnd : (startedIds s.ledger ++ (rounds.flatMap (callsRead turn)).map (·.id)).Nodup)
    (h : runLoop env turn n rounds s = some (.ok ret)) :
    Closed ret.ledger ↔
      Closed s.ledger ∧ TurnKept turn s.finalizing s.searchPhases rounds := by
  induction n using Nat.strongRecOn generalizing rounds s with
  | ind n ih =>
    rcases runLoop_cases env turn n rounds s ret hs h with ⟨rfl, hk, -⟩ |
      ⟨r, result, ledger, rfl, hp, rfl, hk⟩ | ⟨n, r, rest, s', rfl, rfl, hp, h⟩
    · exact (and_iff_left hk).symm
    · obtain ⟨block, rfl, hadded⟩ := pass_done_added env turn r s result ledger hp
      rw [flatMap_singleton] at hnd
      exact (closed_added_iff turn _ _ r True hadded hnd).trans
        (and_congr_right fun _ => iff_of_true trivial hk)
    · rw [flatMap_cons, map_append, ← append_assoc] at hnd
      have spec := pass_next env turn r s s' hp
      obtain ⟨hcons, hle⟩ := turnKept_cons turn s.finalizing s.searchPhases hs r rest
      rw [← spec.searchPhases, ← spec.finalizing] at hcons
      rw [← spec.searchPhases] at hle
      obtain ⟨block, hblock, hadded⟩ :=
        pass_next_added env turn hl r (hids r (mem_cons_self ..)) s s' hp
      have hstarted : startedIds s'.ledger =
          startedIds s.ledger ++ (callsRead turn r).map (·.id) := by
        rw [hblock, startedIds, filterMap_append, map_append, hadded.starts]
        rfl
      rw [ih n (Nat.lt_succ_self n) rest s' hle (fun r' hr' => hids r' (mem_cons_of_mem _ hr'))
        (by rw [hstarted]; exact hnd) h, hblock,
        closed_added_iff turn _ _ r _ hadded (nodup_append.mp hnd).1, hcons, spec.finalizing,
        and_assoc]

/-- **Which turns leave no call open.** With distinct ids, every start in the ledger of a turn
that returned is followed by exactly one completion of its call, and no timeline with these tool
call items has a pending one, iff fast mode refused no intact call for its budget. -/
theorem ledger_closed_iff (hl : env.ledger = true) (rounds : List Round) (ret : Returned)
    (hids : ∀ r ∈ rounds, KeepsIds r)
    (hnd : ((rounds.flatMap (callsRead turn)).map (·.id)).Nodup)
    (h : runImpl env turn rounds = some (.ok ret)) :
    (Closed ret.ledger ∧ ∀ (threadId turnId : String) (items : List Item),
        (items.map (·.body)).filter Body.isToolCall =
          (ret.ledger.map body).filter Body.isToolCall →
        pendingTools (buildTimeline threadId turnId items) = []) ↔
      TurnKept turn false 0 rounds := by
  have hrun := runLoop_closed_iff env turn hl _ rounds { messages := buildInitialMessages turn } ret
    (Nat.zero_le 1) hids hnd h
  rw [and_iff_right (closed_of_no_start [] rfl)] at hrun
  rw [← hrun]
  exact ⟨fun h => h.1, fun hc => ⟨hc, no_pending_of_closed ret.ledger hc⟩⟩

end Pass

/-! ## Two searches in one fast response -/

theorem ledger_closed_iff_oneSearch : ∃ ret,
    runImpl {} fastTurn (callsThenAnswer [searchCall "c1"]) = some (.ok ret) ∧
      Closed ret.ledger := by
  have hrun : ∃ ret, runImpl {} fastTurn (callsThenAnswer [searchCall "c1"]) = some (.ok ret) := by
    unfold runImpl callsThenAnswer
    simp only [show fastTurn.effectiveIterations {} = 3 from rfl, runLoop, Messages.pass,
      trimForModel_zero]
    exact ⟨_, rfl⟩
  obtain ⟨ret, hret⟩ := hrun
  have hids : ∀ r ∈ callsThenAnswer [searchCall "c1"], KeepsIds r := by
    intro r hr i tc ctx hctx
    simp only [callsThenAnswer, List.mem_cons, List.not_mem_nil, or_false] at hr
    rcases hr with rfl | rfl <;> exact (Except.ok.inj hctx) ▸ rfl
  have h := (ledger_closed_iff {} fastTurn rfl _ ret hids (by decide) hret).mpr
    (by unfold TurnKept; decide)
  exact ⟨ret, hret, h.1⟩

/-- The second search of one fast response is started, never completed, and pending. -/
theorem fastTurn_secondSearch_pending : ∃ ret,
    runImpl {} fastTurn (callsThenAnswer [searchCall "c1", searchCall "c2"]) = some (.ok ret) ∧
      ¬ Closed ret.ledger ∧
      pendingTools (buildTimeline "t" "u" (ret.ledger.map fun x => { body := body x })) =
        ["c2"] := by
  unfold runImpl callsThenAnswer
  simp only [show fastTurn.effectiveIterations {} = 3 from rfl, runLoop, Messages.pass,
      trimForModel_zero]
  refine ⟨_, rfl, ?_, by decide⟩
  intro hc
  exact absurd (hc [_] (searchCall "c2") _ rfl) (by decide)

end MiqroForge.Replay
