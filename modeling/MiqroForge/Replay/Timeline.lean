import MiqroForge.Library.Table

/-!
`ReplayRuntime._build_timeline`: the timeline of a turn rebuilt from its ledger items, and
the checks `ReplayInspector.integrity_report` makes on it. Two facts about every item list:
which tool calls are left pending, and that the status is that of the last item that ends the turn.
-/

namespace MiqroForge.Replay

open List

/-! ## Items -/

inductive ToolStatus where
  | completed
  | pending
  deriving DecidableEq, Repr

structure ToolCallReplay where
  toolCallId : String
  name : String
  arguments : Option String := none
  result : Option String := none
  status : ToolStatus := .pending
  durationMs : Nat := 0
  retryCount : Nat := 0
  permissionVerdict : Option String := none
  sandboxType : Option String := none
  deriving DecidableEq, Repr

inductive ExecStatus where
  | completed
  | pending
  | error
  | timedOut
  | cancelled
  deriving DecidableEq, Repr

structure ExecCommandReplay where
  toolCallId : String
  command : String := ""
  cwd : String := ""
  sandboxType : String := ""
  output : String := ""
  exitCode : Option Int := none
  durationMs : Nat := 0
  outputSize : Nat := 0
  cancelled : Bool := false
  timedOut : Bool := false
  status : ExecStatus := .pending
  deriving DecidableEq, Repr

/-- `decision` is "pending" until the approval is resolved. -/
structure ApprovalEventReplay where
  approvalId : String
  toolCallId : String := ""
  toolName : String := ""
  category : String := ""
  description : String := ""
  allowPermanent : Bool := false
  requestSeq : Nat := 0
  decision : String := "pending"
  resolvedSeq : Option Nat := none
  deriving DecidableEq, Repr

/-- An item by its type, with what `payload.get` gives for it, defaults included. -/
inductive Body where
  | turnStarted
  | message (role : Option String) (content : String)
  | assistantDelta (content : String)
  | reasoningDelta (content : String)
  | toolCallStarted (toolCallId name : String) (arguments : Option String)
  | toolCallCompleted (toolCallId : String) (result : Option String) (durationMs retryCount : Nat)
      (permissionVerdict sandboxType : Option String)
  | approvalRequested (approvalId toolCallId toolName category description : String)
      (allowPermanent : Bool)
  | approvalResolved (approvalId toolCallId toolName category decision : String)
  | execStarted (toolCallId command cwd sandboxType : String)
  | execOutputDelta (toolCallId content : String)
  | execCompleted (toolCallId : String) (exitCode : Option Int) (durationMs outputSize : Nat)
      (cancelled timedOut : Bool)
  | error (source errorKind : String) (recoverable : Bool)
  | turnCompleted
  | turnAborted
  deriving DecidableEq, Repr

structure Item where
  seq : Nat := 0
  createdAt : Nat := 0
  body : Body
  deriving DecidableEq, Repr

/-! ## The timeline -/

inductive TurnStatus where
  | completed
  | aborted
  | error
  | incomplete
  deriving DecidableEq, Repr

structure TurnTimeline where
  turnId : String
  threadId : String
  status : TurnStatus := .incomplete
  userInput : Option String := none
  assistantText : String := ""
  assistantDeltas : List String := []
  reasoningDeltas : List String := []
  toolCalls : List ToolCallReplay := []
  execCommands : List ExecCommandReplay := []
  approvalEvents : List ApprovalEventReplay := []
  errors : List Body := []
  startedAt : Option Nat := none
  completedAt : Option Nat := none
  deriving DecidableEq, Repr

/-- The timeline under construction, with what is open so far. -/
structure Build where
  timeline : TurnTimeline
  pendingTools : List (String × ToolCallReplay) := []
  pendingExecs : List (String × ExecCommandReplay) := []
  pendingApprovals : List (String × ApprovalEventReplay) := []

/-- The status of a finished command, from its flags and its exit code. -/
def execStatus (exitCode : Option Int) (cancelled timedOut : Bool) : ExecStatus :=
  if timedOut then .timedOut
  else if cancelled then .cancelled
  else
    match exitCode with
    | some code => if code = 0 then .completed else .error
    | none => .completed

/-- One item. An operation without an id is passed over. -/
def buildStep (b : Build) (item : Item) : Build :=
  let tl := b.timeline
  match item.body with
  | .turnStarted => { b with timeline := { tl with startedAt := some item.createdAt } }
  | .message role content =>
    if role = some "user" ∧ tl.userInput = none then
      { b with timeline := { tl with userInput := some content } }
    else b
  | .assistantDelta content =>
    { b with timeline := { tl with assistantDeltas := tl.assistantDeltas ++ [content] } }
  | .reasoningDelta content =>
    { b with timeline := { tl with reasoningDeltas := tl.reasoningDeltas ++ [content] } }
  | .toolCallStarted id name arguments =>
    if id = "" then b
    else
      { b with
        pendingTools := Table.set b.pendingTools id
          { toolCallId := id, name := name, arguments := arguments } }
  | .toolCallCompleted id result durationMs retryCount permissionVerdict sandboxType =>
    if id = "" then b
    else
      let tc := (Table.get? b.pendingTools id).getD { toolCallId := id, name := "" }
      let tc := { tc with
        status := .completed
        result := some (result.getD "")
        durationMs := durationMs
        retryCount := retryCount
        permissionVerdict := permissionVerdict
        sandboxType := sandboxType }
      { b with
        timeline := { tl with toolCalls := tl.toolCalls ++ [tc] }
        pendingTools := Table.remove b.pendingTools id }
  | .approvalRequested id toolCallId toolName category description allowPermanent =>
    if id = "" then b
    else
      { b with
        pendingApprovals := Table.set b.pendingApprovals id
          { approvalId := id, toolCallId := toolCallId, toolName := toolName, category := category
            description := description, allowPermanent := allowPermanent
            requestSeq := item.seq } }
  | .approvalResolved id toolCallId toolName category decision =>
    if id = "" then b
    else
      let ap := (Table.get? b.pendingApprovals id).getD
        { approvalId := id, toolCallId := toolCallId, toolName := toolName, category := category }
      let ap := { ap with decision := decision, resolvedSeq := some item.seq }
      { b with
        timeline := { tl with approvalEvents := tl.approvalEvents ++ [ap] }
        pendingApprovals := Table.remove b.pendingApprovals id }
  | .execStarted id command cwd sandboxType =>
    if id = "" then b
    else
      { b with
        pendingExecs := Table.set b.pendingExecs id
          { toolCallId := id, command := command, cwd := cwd, sandboxType := sandboxType } }
  | .execOutputDelta id content =>
    match Table.get? b.pendingExecs id with
    | some ex =>
      { b with
        pendingExecs := Table.set b.pendingExecs id { ex with output := ex.output ++ content } }
    | none => b
  | .execCompleted id exitCode durationMs outputSize cancelled timedOut =>
    if id = "" then b
    else
      let ex := (Table.get? b.pendingExecs id).getD { toolCallId := id }
      let ex := { ex with
        exitCode := exitCode
        durationMs := durationMs
        outputSize := outputSize
        cancelled := cancelled
        timedOut := timedOut
        status := execStatus exitCode cancelled timedOut }
      { b with
        timeline := { tl with execCommands := tl.execCommands ++ [ex] }
        pendingExecs := Table.remove b.pendingExecs id }
  | .error source errorKind recoverable =>
    { b with timeline := { tl with errors := tl.errors ++ [.error source errorKind recoverable] } }
  | .turnCompleted =>
    { b with timeline := { tl with status := .completed, completedAt := some item.createdAt } }
  | .turnAborted =>
    { b with timeline := { tl with status := .aborted, completedAt := some item.createdAt } }

/-- The first assistant message, where there are no deltas. -/
def fallbackText (items : List Item) : String :=
  (items.findSome? fun item =>
    match item.body with
    | .message (some "assistant") content => some content
    | _ => none).getD ""

/-- The text, and the open operations as pending ones. -/
def finishBuild (items : List Item) (b : Build) : TurnTimeline :=
  let tl := b.timeline
  let merged := String.join tl.assistantDeltas
  { tl with
    assistantText := if merged = "" then fallbackText items else merged
    toolCalls := tl.toolCalls ++ b.pendingTools.map fun e => { e.2 with status := .pending }
    execCommands := tl.execCommands ++ b.pendingExecs.map fun e => { e.2 with status := .pending }
    approvalEvents := tl.approvalEvents ++
      b.pendingApprovals.map fun e => { e.2 with decision := "pending" } }

def startBuild (threadId turnId : String) : Build :=
  { timeline := { turnId := turnId, threadId := threadId } }

def buildTimeline (threadId turnId : String) (items : List Item) : TurnTimeline :=
  finishBuild items (items.foldl buildStep (startBuild threadId turnId))

/-- `integrity_report`: the turns without a terminal status. -/
def incompleteTurns (timelines : List TurnTimeline) : List String :=
  (timelines.filter fun tl => tl.status = .incomplete).map (·.turnId)

/-- `integrity_report`: the pending tool calls of a timeline. -/
def pendingTools (tl : TurnTimeline) : List String :=
  (tl.toolCalls.filter fun tc => tc.status = .pending).map (·.toolCallId)

/-! ## Status -/

/-- The status an item gives. -/
def Body.status? : Body → Option TurnStatus
  | .turnCompleted => some .completed
  | .turnAborted => some .aborted
  | _ => none

theorem buildStep_status (b : Build) (item : Item) :
    (buildStep b item).timeline.status = item.body.status?.getD b.timeline.status := by
  unfold buildStep
  cases item.body with
  | message role content =>
    simp only []
    split <;> rfl
  | toolCallStarted id name arguments =>
    simp only []
    split <;> rfl
  | toolCallCompleted id =>
    simp only []
    split <;> rfl
  | approvalRequested id =>
    simp only []
    split <;> rfl
  | approvalResolved id =>
    simp only []
    split <;> rfl
  | execStarted id =>
    simp only []
    split <;> rfl
  | execOutputDelta id content =>
    simp only []
    split <;> rfl
  | execCompleted id =>
    simp only []
    split <;> rfl
  | _ => rfl

theorem foldl_status (b : Build) (items : List Item) :
    (items.foldl buildStep b).timeline.status =
      ((items.filterMap fun item => item.body.status?).getLast?).getD b.timeline.status := by
  induction items generalizing b with
  | nil => rfl
  | cons item items ih =>
    rw [foldl_cons, ih, buildStep_status, filterMap_cons]
    cases item.body.status? with
    | none => rfl
    | some s =>
      cases hl : (items.filterMap fun item => item.body.status?).getLast? with
      | none => simp [getLast?_eq_none_iff.mp hl]
      | some u => simp [getLast?_cons, hl]

/-- **Status.** It is that of the last item that gives one; no item gives `error`. -/
theorem buildTimeline_status (threadId turnId : String) (items : List Item) :
    (buildTimeline threadId turnId items).status =
      ((items.filterMap fun item => item.body.status?).getLast?).getD .incomplete :=
  foldl_status (startBuild threadId turnId) items

/-! ## Pending tool calls -/

/-- Whether the call `id` is open behind an item. -/
def callOpen (id : String) (wasOpen : Bool) : Body → Bool
  | .toolCallStarted i _ _ => i == id || wasOpen
  | .toolCallCompleted i _ _ _ _ _ => !(i == id) && wasOpen
  | _ => wasOpen

/-- What holds of the tool calls throughout: those recorded are completed, and those open are
under their own, non-empty id. -/
structure BuildOk (b : Build) : Prop where
  completed : ∀ tc ∈ b.timeline.toolCalls, tc.status = .completed
  named : ∀ e ∈ b.pendingTools, e.2.toolCallId = e.1 ∧ e.1 ≠ ""

theorem mem_table_set {d : List (String × ToolCallReplay)} {k : String} {v : ToolCallReplay}
    {e : String × ToolCallReplay} (h : e ∈ Table.set d k v) : e = (k, v) ∨ e ∈ d := by
  unfold Table.set at h
  split at h
  · obtain ⟨x, hx, rfl⟩ := mem_map.mp h
    split
    · exact Or.inl rfl
    · exact Or.inr hx
  · rcases mem_append.mp h with h | h
    · exact Or.inr h
    · exact Or.inl (mem_singleton.mp h)

theorem buildStep_tools (b : Build) (item : Item) (hb : BuildOk b) (id : String) (hid : id ≠ "") :
    BuildOk (buildStep b item) ∧
      (id ∈ (buildStep b item).pendingTools.map Prod.fst ↔
        callOpen id (decide (id ∈ b.pendingTools.map Prod.fst)) item.body = true) := by
  obtain ⟨hcompleted, hnamed⟩ := hb
  have hsame : ∀ b' : Build, b'.timeline.toolCalls = b.timeline.toolCalls →
      b'.pendingTools = b.pendingTools → BuildOk b' ∧
        (id ∈ b'.pendingTools.map Prod.fst ↔
          decide (id ∈ b.pendingTools.map Prod.fst) = true) := by
    intro b' hcalls hpending
    rw [hpending, decide_eq_true_eq]
    exact ⟨⟨hcalls ▸ hcompleted, hpending ▸ hnamed⟩, Iff.rfl⟩
  unfold buildStep callOpen
  cases item.body with
  | toolCallStarted i name arguments =>
    simp only [Bool.or_eq_true, beq_iff_eq, decide_eq_true_eq]
    split
    case isTrue hi =>
      subst hi
      refine ⟨⟨hcompleted, hnamed⟩, ?_⟩
      constructor
      · exact Or.inr
      · rintro (rfl | h)
        · exact absurd rfl hid
        · exact h
    case isFalse hi =>
      refine ⟨⟨hcompleted, fun e he => ?_⟩, ?_⟩
      · rcases mem_table_set he with rfl | he
        · exact ⟨rfl, hi⟩
        · exact hnamed e he
      · rw [Table.mem_keys_set, eq_comm]
  | toolCallCompleted i =>
    simp only [Bool.and_eq_true, Bool.not_eq_true', beq_eq_false_iff_ne, decide_eq_true_eq]
    split
    case isTrue hi =>
      subst hi
      exact ⟨⟨hcompleted, hnamed⟩, (and_iff_right hid.symm).symm⟩
    case isFalse hi =>
      refine ⟨⟨fun tc htc => ?_, fun e he => ?_⟩, ?_⟩
      · rcases mem_append.mp htc with h | h
        · exact hcompleted tc h
        · rw [mem_singleton.mp h]
      · exact hnamed e (mem_of_mem_filter he)
      · rw [Table.mem_keys_remove, ne_comm]
  | message role content =>
    simp only []
    split <;> exact hsame _ rfl rfl
  | approvalRequested i =>
    simp only []
    split <;> exact hsame _ rfl rfl
  | approvalResolved i =>
    simp only []
    split <;> exact hsame _ rfl rfl
  | execStarted i =>
    simp only []
    split <;> exact hsame _ rfl rfl
  | execOutputDelta i content =>
    simp only []
    split <;> exact hsame _ rfl rfl
  | execCompleted i =>
    simp only []
    split <;> exact hsame _ rfl rfl
  | _ => exact hsame _ rfl rfl

theorem foldl_tools (b : Build) (items : List Item) (hb : BuildOk b) (id : String) (hid : id ≠ "") :
    BuildOk (items.foldl buildStep b) ∧
      (id ∈ (items.foldl buildStep b).pendingTools.map Prod.fst ↔
        (items.map (·.body)).foldl (callOpen id) (decide (id ∈ b.pendingTools.map Prod.fst)) =
          true) := by
  induction items generalizing b with
  | nil => exact ⟨hb, by simp⟩
  | cons item items ih =>
    obtain ⟨hok, hiff⟩ := buildStep_tools b item hb id hid
    obtain ⟨hall, hrest⟩ := ih (buildStep b item) hok
    refine ⟨hall, ?_⟩
    rw [foldl_cons, hrest, map_cons, foldl_cons]
    have hdec : decide (id ∈ (buildStep b item).pendingTools.map Prod.fst) =
        callOpen id (decide (id ∈ b.pendingTools.map Prod.fst)) item.body := by
      rw [Bool.eq_iff_iff, decide_eq_true_eq]
      exact hiff
    rw [hdec]

/-- **Pending tool calls.** A call is reported pending iff it has an id and is open at the end. -/
theorem mem_pendingTools (threadId turnId : String) (items : List Item) (id : String) :
    id ∈ pendingTools (buildTimeline threadId turnId items) ↔
      id ≠ "" ∧ (items.map (·.body)).foldl (callOpen id) false = true := by
  have hstart : BuildOk (startBuild threadId turnId) :=
    ⟨fun _ h => (by cases h), fun _ h => (by cases h)⟩
  have hok := (foldl_tools (startBuild threadId turnId) items hstart "x" (by decide)).1
  have hmem : id ∈ pendingTools (buildTimeline threadId turnId items) ↔
      id ∈ (items.foldl buildStep (startBuild threadId turnId)).pendingTools.map Prod.fst := by
    simp only [pendingTools, buildTimeline, finishBuild, mem_map, mem_filter,
      mem_append, decide_eq_true_eq]
    constructor
    · rintro ⟨tc, ⟨htc | ⟨e, he, rfl⟩, hst⟩, rfl⟩
      · rw [hok.completed tc htc] at hst
        cases hst
      · exact ⟨e, he, (hok.named e he).1.symm⟩
    · rintro ⟨e, he, rfl⟩
      exact ⟨_, ⟨Or.inr ⟨e, he, rfl⟩, rfl⟩, (hok.named e he).1⟩
  rw [hmem]
  by_cases hid : id = ""
  · subst hid
    refine iff_of_false ?_ (fun h => h.1 rfl)
    intro h
    obtain ⟨e, he, hkey⟩ := mem_map.mp h
    exact (hok.named e he).2 hkey
  · rw [(foldl_tools (startBuild threadId turnId) items hstart id hid).2, and_iff_right hid]
    rfl

end MiqroForge.Replay
