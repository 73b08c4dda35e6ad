import MiqroForge.Replay.Timeline
import MiqroForge.Library.Lifecycle

/-!
What a timeline keeps of its items. Tool calls, commands and approvals are opened by one item and
closed by another; a command collects its output in between.
-/

namespace MiqroForge.Replay

open Lifecycle List

inductive Kind where
  | tool
  | exec
  | approval
  deriving DecidableEq

/-- The operation an item starts. -/
def Body.started? : Body → Option (Kind × String)
  | .toolCallStarted id _ _ => some (.tool, id)
  | .execStarted id _ _ _ => some (.exec, id)
  | .approvalRequested id _ _ _ _ _ => some (.approval, id)
  | _ => none

/-- The operation an item completes. -/
def Body.completed? : Body → Option (Kind × String)
  | .toolCallCompleted id _ _ _ _ _ => some (.tool, id)
  | .execCompleted id _ _ _ _ _ => some (.exec, id)
  | .approvalResolved id _ _ _ _ => some (.approval, id)
  | _ => none

/-- The output an item adds to a command. -/
def Body.output? (id : String) : Body → Option String
  | .execOutputDelta i content => if i = id then some content else none
  | _ => none

def Body.assistantDelta? : Body → Option String
  | .assistantDelta content => some content
  | _ => none

/-- The operations of a timeline by their ids, and whether they are pending. -/
def entries (tl : TurnTimeline) : Kind → List (String × Bool)
  | .tool => tl.toolCalls.map fun tc => (tc.toolCallId, decide (tc.status = .pending))
  | .exec => tl.execCommands.map fun ex => (ex.toolCallId, decide (ex.status = .pending))
  | .approval => tl.approvalEvents.map fun ap => (ap.approvalId, ap.resolvedSeq.isNone)

/-! ## What an item does to the operations of a kind -/

def toolAction (item : Item) : Action String ToolCallReplay ToolCallReplay :=
  match item.body with
  | .toolCallStarted id name arguments =>
    if id = "" then .passes
    else .opens id { toolCallId := id, name := name, arguments := arguments }
  | .toolCallCompleted id result durationMs retryCount permissionVerdict sandboxType =>
    if id = "" then .passes
    else .closes id fun tc =>
      { tc.getD { toolCallId := id, name := "" } with
        status := .completed
        result := some (result.getD "")
        durationMs := durationMs
        retryCount := retryCount
        permissionVerdict := permissionVerdict
        sandboxType := sandboxType }
  | _ => .passes

def execAction (item : Item) : Action String ExecCommandReplay ExecCommandReplay :=
  match item.body with
  | .execStarted id command cwd sandboxType =>
    if id = "" then .passes
    else .opens id { toolCallId := id, command := command, cwd := cwd, sandboxType := sandboxType }
  | .execOutputDelta id content => .touches id fun ex => { ex with output := ex.output ++ content }
  | .execCompleted id exitCode durationMs outputSize cancelled timedOut =>
    if id = "" then .passes
    else .closes id fun ex =>
      { ex.getD { toolCallId := id } with
        exitCode := exitCode
        durationMs := durationMs
        outputSize := outputSize
        cancelled := cancelled
        timedOut := timedOut
        status := execStatus exitCode cancelled timedOut }
  | _ => .passes

def approvalAction (item : Item) : Action String ApprovalEventReplay ApprovalEventReplay :=
  match item.body with
  | .approvalRequested id toolCallId toolName category description allowPermanent =>
    if id = "" then .passes
    else .opens id
      { approvalId := id, toolCallId := toolCallId, toolName := toolName, category := category
        description := description, allowPermanent := allowPermanent, requestSeq := item.seq }
  | .approvalResolved id toolCallId toolName category decision =>
    if id = "" then .passes
    else .closes id fun ap =>
      { ap.getD { approvalId := id, toolCallId := toolCallId, toolName := toolName
                  category := category } with
        decision := decision
        resolvedSeq := some item.seq }
  | _ => .passes

def toolDesk (b : Build) : Desk String ToolCallReplay ToolCallReplay :=
  ⟨b.pendingTools, b.timeline.toolCalls⟩

def execDesk (b : Build) : Desk String ExecCommandReplay ExecCommandReplay :=
  ⟨b.pendingExecs, b.timeline.execCommands⟩

def approvalDesk (b : Build) : Desk String ApprovalEventReplay ApprovalEventReplay :=
  ⟨b.pendingApprovals, b.timeline.approvalEvents⟩

theorem toolDesk_step (b : Build) (item : Item) :
    toolDesk (buildStep b item) = (toolDesk b).act (toolAction item) := by
  unfold buildStep toolAction
  cases item.body with
  | toolCallStarted | toolCallCompleted =>
    simp only []
    split <;> rfl
  | message | approvalRequested | approvalResolved | execStarted | execCompleted
  | execOutputDelta =>
    simp only []
    split <;> rfl
  | _ => rfl

theorem execDesk_step (b : Build) (item : Item) :
    execDesk (buildStep b item) = (execDesk b).act (execAction item) := by
  unfold buildStep execAction
  cases item.body with
  | execOutputDelta id content =>
    simp only [Desk.act, Desk.touch, execDesk]
    cases Table.get? b.pendingExecs id <;> rfl
  | message | toolCallStarted | toolCallCompleted | approvalRequested | approvalResolved
  | execStarted | execCompleted =>
    simp only []
    split <;> rfl
  | _ => rfl

theorem approvalDesk_step (b : Build) (item : Item) :
    approvalDesk (buildStep b item) = (approvalDesk b).act (approvalAction item) := by
  unfold buildStep approvalAction
  cases item.body with
  | message | toolCallStarted | toolCallCompleted | approvalRequested | approvalResolved
  | execStarted | execCompleted | execOutputDelta =>
    simp only []
    split <;> rfl
  | _ => rfl

/-! ## Operations of one kind -/

/-- A kind of operation: what items do to its operations, under which id an operation stands,
whether it is pending, and how the timeline shows one that is left open. -/
structure Reading (ν : Type) where
  kind : Kind
  action : Item → Action String ν ν
  key : ν → String
  pending : ν → Bool
  mark : ν → ν

/-- The actions are those of the items that start and complete operations of the kind. -/
structure Reading.Faithful {ν : Type} (r : Reading ν) : Prop where
  opens : ∀ {item k v}, r.action item = .opens k v → r.key v = k ∧ r.pending v = true
  touches : ∀ {item k f} v, r.action item = .touches k f →
    r.key (f v) = r.key v ∧ r.pending (f v) = r.pending v
  closes : ∀ {item k f v?}, r.action item = .closes k f → (∀ v, v? = some v → r.key v = k) →
    r.key (f v?) = k ∧ r.pending (f v?) = false
  opened : ∀ item k, (r.action item).opened? = some k ↔
    k ≠ "" ∧ item.body.started? = some (r.kind, k)
  closed : ∀ item k, (r.action item).closed? = some k ↔
    k ≠ "" ∧ item.body.completed? = some (r.kind, k)
  marked : ∀ v, r.key (r.mark v) = r.key v ∧ (r.pending v = true → r.pending (r.mark v) = true)

def toolReading : Reading ToolCallReplay where
  kind := .tool
  action := toolAction
  key := ToolCallReplay.toolCallId
  pending tc := decide (tc.status = .pending)
  mark tc := { tc with status := .pending }

def execReading : Reading ExecCommandReplay where
  kind := .exec
  action := execAction
  key := ExecCommandReplay.toolCallId
  pending ex := decide (ex.status = .pending)
  mark ex := { ex with status := .pending }

/-- An approval is pending as long as it has no `resolved_seq`; its decision may be any text. -/
def approvalReading : Reading ApprovalEventReplay where
  kind := .approval
  action := approvalAction
  key := ApprovalEventReplay.approvalId
  pending ap := ap.resolvedSeq.isNone
  mark ap := { ap with decision := "pending" }

section Reading
variable {ν : Type} {r : Reading ν}

/-- What a list of items leaves open and closed. -/
def Reading.desk (r : Reading ν) (items : List Item) : Desk String ν ν :=
  (items.map r.action).foldl Desk.act {}

/-- The timeline's operations of the kind. -/
def Reading.records (r : Reading ν) (items : List Item) : List ν :=
  (r.desk items).closed ++ (r.desk items).opened.map fun e => r.mark e.2

theorem desk_foldl {desk : Build → Desk String ν ν}
    (hstep : ∀ b item, desk (buildStep b item) = (desk b).act (r.action item)) (b : Build)
    (items : List Item) :
    desk (items.foldl buildStep b) = (items.map r.action).foldl Desk.act (desk b) := by
  induction items generalizing b with
  | nil => rfl
  | cons item items ih => rw [foldl_cons, ih, hstep, map_cons, foldl_cons]

theorem keyed_desk (items : List Item) : (r.desk items).Keyed :=
  Desk.Keyed.foldl (d := ({} : Desk String ν ν)) nodup_nil (items.map r.action)

theorem mem_records_closes (front : List Item) {item : Item} (back : List Item) {k : String}
    {f : Option ν → ν} (h : r.action item = .closes k f) :
    f (Table.get? (r.desk front).opened k) ∈ r.records (front ++ item :: back) := by
  refine mem_append_left _ (mem_closed_foldl.mpr (Or.inr
    ⟨front.map r.action, k, f, back.map r.action, ?_, rfl⟩))
  rw [map_append, map_cons, h]

variable (hr : r.Faithful)
include hr

variable {items : List Item}

theorem open_current {k : String} {open? : Option ν}
    (hopen : ∀ v, open? = some v → r.key v = k ∧ r.pending v = true) {v : ν}
    (h : (items.map r.action).foldl (current k) open? = some v) :
    r.key v = k ∧ r.pending v = true := by
  induction items generalizing open? with
  | nil => exact hopen v h
  | cons item items ih =>
    refine ih (fun w hw => ?_) h
    cases haction : r.action item with
    | opens k' u =>
      rw [haction, current] at hw
      split at hw
      case isTrue heq =>
        cases hw
        exact ⟨(hr.opens haction).1.trans heq, (hr.opens haction).2⟩
      case isFalse => exact hopen w hw
    | touches k' f =>
      rw [haction, current] at hw
      split at hw
      case isTrue =>
        obtain ⟨u, hu, rfl⟩ := Option.map_eq_some_iff.mp hw
        obtain ⟨hkey, hpending⟩ := hr.touches u haction
        exact ⟨hkey.trans (hopen u hu).1, hpending.trans (hopen u hu).2⟩
      case isFalse => exact hopen w hw
    | closes k' f =>
      rw [haction, current] at hw
      split at hw
      case isTrue => cases hw
      case isFalse => exact hopen w hw
    | passes =>
      rw [haction] at hw
      exact hopen w hw

theorem open_desk (items : List Item) (k : String) (v : ν)
    (h : Table.get? (r.desk items).opened k = some v) : r.key v = k ∧ r.pending v = true := by
  rw [Reading.desk, get?_foldl] at h
  exact open_current hr (fun v h => by cases h) h

theorem key_opened (items : List Item) (k : String) (v : ν)
    (h : Table.get? (r.desk items).opened k = some v) : r.key v = k :=
  (open_desk hr items k v h).1

theorem mem_entries_completed {id : String} :
    (id, false) ∈ (r.records items).map (fun v => (r.key v, r.pending v)) ↔
      id ≠ "" ∧ ∃ item ∈ items, item.body.completed? = some (r.kind, id) := by
  constructor
  · intro h
    obtain ⟨v, hv, heq⟩ := mem_map.mp h
    obtain ⟨hkey, hpending⟩ := Prod.mk.inj heq
    rcases mem_append.mp hv with hv | hv
    · obtain hv | ⟨before, k, f, after, hsplit, rfl⟩ := mem_closed_foldl.mp hv
      · cases hv
      · obtain ⟨front, rest, rfl, rfl, hrest⟩ := map_eq_append_iff.mp hsplit
        obtain ⟨item, back, rfl, haction, -⟩ := map_eq_cons_iff.mp hrest
        have hk := (hr.closes haction (key_opened hr front k)).1
        obtain rfl : k = id := hk.symm.trans hkey
        have hclosed := (hr.closed item k).mp (by rw [haction]; rfl)
        exact ⟨hclosed.1, item, by simp, hclosed.2⟩
    · obtain ⟨⟨k, w⟩, he, rfl⟩ := mem_map.mp hv
      have hopen := open_desk hr items k w ((mem_opened_iff (keyed_desk items)).mp he)
      exact absurd (hpending.symm.trans ((hr.marked w).2 hopen.2)) Bool.false_ne_true
  · rintro ⟨hid, item, hitem, hcompleted⟩
    obtain ⟨front, back, rfl⟩ := append_of_mem hitem
    have hclosed := (hr.closed item id).mpr ⟨hid, hcompleted⟩
    cases haction : r.action item with
    | closes k f =>
      rw [haction] at hclosed
      obtain rfl : k = id := Option.some.inj hclosed
      have hrecord := hr.closes haction (key_opened hr front k)
      refine mem_map.mpr ⟨_, mem_records_closes front back haction, ?_⟩
      rw [hrecord.1, hrecord.2]
    | opens | touches | passes =>
      rw [haction] at hclosed
      cases hclosed

theorem isSome_open_iff {id : String} :
    (Table.get? (r.desk items).opened id).isSome ↔
      id ≠ "" ∧ ∃ before item after, items = before ++ item :: after ∧
        item.body.started? = some (r.kind, id) ∧
        ∀ later ∈ after, later.body.completed? ≠ some (r.kind, id) := by
  rw [Reading.desk, get?_foldl, isSome_foldl_current]
  constructor
  · rintro (⟨before, a, after, hsplit, hopened, hlater⟩ | ⟨h, -⟩)
    · obtain ⟨front, rest, rfl, rfl, hrest⟩ := map_eq_append_iff.mp hsplit
      obtain ⟨item, back, rfl, rfl, rfl⟩ := map_eq_cons_iff.mp hrest
      obtain ⟨hid, hstarted⟩ := (hr.opened item id).mp hopened
      refine ⟨hid, front, item, back, rfl, hstarted, fun later hmem hcompleted => ?_⟩
      exact hlater _ (mem_map_of_mem hmem) ((hr.closed later id).mpr ⟨hid, hcompleted⟩)
    · cases h
  · rintro ⟨hid, before, item, after, rfl, hstarted, hlater⟩
    refine Or.inl ⟨before.map r.action, r.action item, after.map r.action, by simp,
      (hr.opened item id).mpr ⟨hid, hstarted⟩, ?_⟩
    rintro a ha hclosed
    obtain ⟨later, hmem, rfl⟩ := mem_map.mp ha
    exact hlater later hmem ((hr.closed later id).mp hclosed).2

theorem mem_entries_pending {id : String} :
    (id, true) ∈ (r.records items).map (fun v => (r.key v, r.pending v)) ↔
      id ≠ "" ∧ ∃ before item after, items = before ++ item :: after ∧
        item.body.started? = some (r.kind, id) ∧
        ∀ later ∈ after, later.body.completed? ≠ some (r.kind, id) := by
  have hkeyed : (r.desk items).Keyed := keyed_desk items
  rw [← isSome_open_iff hr]
  constructor
  · intro h
    obtain ⟨v, hv, heq⟩ := mem_map.mp h
    obtain ⟨hkey, hpending⟩ := Prod.mk.inj heq
    rcases mem_append.mp hv with hv | hv
    · obtain hv | ⟨before, k, f, after, hsplit, rfl⟩ := mem_closed_foldl.mp hv
      · cases hv
      · obtain ⟨front, rest, rfl, rfl, hrest⟩ := map_eq_append_iff.mp hsplit
        obtain ⟨item, back, rfl, haction, -⟩ := map_eq_cons_iff.mp hrest
        have hclosed := (hr.closes haction (key_opened hr front k)).2
        exact absurd (hclosed.symm.trans hpending) Bool.false_ne_true
    · obtain ⟨⟨k, w⟩, he, rfl⟩ := mem_map.mp hv
      have hget := (mem_opened_iff hkeyed).mp he
      obtain rfl : k = id :=
        (key_opened hr items k w hget).symm.trans ((hr.marked w).1.symm.trans hkey)
      rw [hget]
      rfl
  · intro h
    obtain ⟨v, hv⟩ := Option.isSome_iff_exists.mp h
    refine mem_map.mpr ⟨r.mark v, mem_append_right _ ?_, ?_⟩
    · exact mem_map.mpr ⟨(id, v), (mem_opened_iff hkeyed).mpr hv, rfl⟩
    · obtain ⟨hkey, hpending⟩ := open_desk hr items id v hv
      rw [(hr.marked v).1, (hr.marked v).2 hpending, hkey]

end Reading

/-! ## The three kinds -/

section Named
variable {ν : Type} {kind : Kind} (id k : String)

theorem opened_opens (v : ν) :
    (if id = "" then .passes else .opens id v : Action String ν ν).opened? = some k ↔
      k ≠ "" ∧ some (kind, id) = some (kind, k) := by
  by_cases h : id = ""
  · simp only [h, if_true, Action.opened?, reduceCtorEq, false_iff, not_and]
    intro hk heq
    simp_all
  · simp only [h, if_false, Action.opened?, Option.some.injEq, Prod.mk.injEq, true_and]
    exact ⟨fun heq => ⟨heq ▸ h, heq⟩, fun hk => hk.2⟩

theorem closed_closes (f : Option ν → ν) :
    (if id = "" then .passes else .closes id f : Action String ν ν).closed? = some k ↔
      k ≠ "" ∧ some (kind, id) = some (kind, k) := by
  by_cases h : id = ""
  · simp only [h, if_true, Action.closed?, reduceCtorEq, false_iff, not_and]
    intro hk heq
    simp_all
  · simp only [h, if_false, Action.closed?, Option.some.injEq, Prod.mk.injEq, true_and]
    exact ⟨fun heq => ⟨heq ▸ h, heq⟩, fun hk => hk.2⟩

end Named

theorem toolReading_faithful : toolReading.Faithful where
  opens := by
    intro item k v h
    simp only [toolReading, toolAction] at h
    split at h
    · split at h <;> cases h
      exact ⟨rfl, rfl⟩
    · split at h <;> cases h
    · cases h
  touches := by
    intro item k f v h
    simp only [toolReading, toolAction] at h
    split at h
    · split at h <;> cases h
    · split at h <;> cases h
    · cases h
  closes := by
    intro item k f v? h hopen
    simp only [toolReading, toolAction] at h
    split at h
    · split at h <;> cases h
    · split at h <;> cases h
      cases v? with
      | none => exact ⟨rfl, rfl⟩
      | some v => exact ⟨hopen v rfl, rfl⟩
    · cases h
  opened := by
    intro item k
    simp only [toolReading, toolAction]
    cases item.body with
    | toolCallStarted id => exact opened_opens id k _
    | toolCallCompleted id => by_cases h : id = "" <;> simp [h, Action.opened?, Body.started?]
    | _ => simp [Action.opened?, Body.started?]
  closed := by
    intro item k
    simp only [toolReading, toolAction]
    cases item.body with
    | toolCallStarted id => by_cases h : id = "" <;> simp [h, Action.closed?, Body.completed?]
    | toolCallCompleted id => exact closed_closes id k _
    | _ => simp [Action.closed?, Body.completed?]
  marked := fun v => ⟨rfl, fun _ => rfl⟩

theorem execStatus_ne_pending (exitCode : Option Int) (cancelled timedOut : Bool) :
    execStatus exitCode cancelled timedOut ≠ .pending := by
  unfold execStatus
  split
  · simp
  · split
    · simp
    · split
      · split <;> simp
      · simp

theorem execReading_faithful : execReading.Faithful where
  opens := by
    intro item k v h
    simp only [execReading, execAction] at h
    split at h
    · split at h <;> cases h
      exact ⟨rfl, rfl⟩
    · cases h
    · split at h <;> cases h
    · cases h
  touches := by
    intro item k f v h
    simp only [execReading, execAction] at h
    split at h
    · split at h <;> cases h
    · cases h
      exact ⟨rfl, rfl⟩
    · split at h <;> cases h
    · cases h
  closes := by
    intro item k f v? h hopen
    simp only [execReading, execAction] at h
    split at h
    · split at h <;> cases h
    · cases h
    · split at h <;> cases h
      cases v? with
      | none => exact ⟨rfl, decide_eq_false (execStatus_ne_pending _ _ _)⟩
      | some v => exact ⟨hopen v rfl, decide_eq_false (execStatus_ne_pending _ _ _)⟩
    · cases h
  opened := by
    intro item k
    simp only [execReading, execAction]
    cases item.body with
    | execStarted id => exact opened_opens id k _
    | execCompleted id => by_cases h : id = "" <;> simp [h, Action.opened?, Body.started?]
    | _ => simp [Action.opened?, Body.started?]
  closed := by
    intro item k
    simp only [execReading, execAction]
    cases item.body with
    | execStarted id => by_cases h : id = "" <;> simp [h, Action.closed?, Body.completed?]
    | execCompleted id => exact closed_closes id k _
    | _ => simp [Action.closed?, Body.completed?]
  marked := fun v => ⟨rfl, fun _ => rfl⟩

theorem approvalReading_faithful : approvalReading.Faithful where
  opens := by
    intro item k v h
    simp only [approvalReading, approvalAction] at h
    split at h
    · split at h <;> cases h
      exact ⟨rfl, rfl⟩
    · split at h <;> cases h
    · cases h
  touches := by
    intro item k f v h
    simp only [approvalReading, approvalAction] at h
    split at h
    · split at h <;> cases h
    · split at h <;> cases h
    · cases h
  closes := by
    intro item k f v? h hopen
    simp only [approvalReading, approvalAction] at h
    split at h
    · split at h <;> cases h
    · split at h <;> cases h
      cases v? with
      | none => exact ⟨rfl, rfl⟩
      | some v => exact ⟨hopen v rfl, rfl⟩
    · cases h
  opened := by
    intro item k
    simp only [approvalReading, approvalAction]
    cases item.body with
    | approvalRequested id => exact opened_opens id k _
    | approvalResolved id => by_cases h : id = "" <;> simp [h, Action.opened?, Body.started?]
    | _ => simp [Action.opened?, Body.started?]
  closed := by
    intro item k
    simp only [approvalReading, approvalAction]
    cases item.body with
    | approvalRequested id => by_cases h : id = "" <;> simp [h, Action.closed?, Body.completed?]
    | approvalResolved id => exact closed_closes id k _
    | _ => simp [Action.closed?, Body.completed?]
  marked := fun v => ⟨rfl, id⟩

/-! ## The timeline -/

section Timeline
variable (threadId turnId : String) (items : List Item)

theorem toolCalls_eq :
    (buildTimeline threadId turnId items).toolCalls = toolReading.records items := by
  have h := desk_foldl (r := toolReading) toolDesk_step (startBuild threadId turnId) items
  show (toolDesk (items.foldl buildStep (startBuild threadId turnId))).closed ++
    (toolDesk (items.foldl buildStep (startBuild threadId turnId))).opened.map _ = _
  rw [h]
  rfl

theorem execCommands_eq :
    (buildTimeline threadId turnId items).execCommands = execReading.records items := by
  have h := desk_foldl (r := execReading) execDesk_step (startBuild threadId turnId) items
  show (execDesk (items.foldl buildStep (startBuild threadId turnId))).closed ++
    (execDesk (items.foldl buildStep (startBuild threadId turnId))).opened.map _ = _
  rw [h]
  rfl

theorem approvalEvents_eq :
    (buildTimeline threadId turnId items).approvalEvents = approvalReading.records items := by
  have h := desk_foldl (r := approvalReading) approvalDesk_step (startBuild threadId turnId) items
  show (approvalDesk (items.foldl buildStep (startBuild threadId turnId))).closed ++
    (approvalDesk (items.foldl buildStep (startBuild threadId turnId))).opened.map _ = _
  rw [h]
  rfl

theorem mem_entries_false (kind : Kind) (id : String) :
    (id, false) ∈ entries (buildTimeline threadId turnId items) kind ↔
      id ≠ "" ∧ ∃ item ∈ items, item.body.completed? = some (kind, id) := by
  cases kind with
  | tool =>
    rw [entries, toolCalls_eq]
    exact mem_entries_completed toolReading_faithful
  | exec =>
    rw [entries, execCommands_eq]
    exact mem_entries_completed execReading_faithful
  | approval =>
    rw [entries, approvalEvents_eq]
    exact mem_entries_completed approvalReading_faithful

theorem mem_entries_true (kind : Kind) (id : String) :
    (id, true) ∈ entries (buildTimeline threadId turnId items) kind ↔
      id ≠ "" ∧ ∃ before item after, items = before ++ item :: after ∧
        item.body.started? = some (kind, id) ∧
        ∀ later ∈ after, later.body.completed? ≠ some (kind, id) := by
  cases kind with
  | tool =>
    rw [entries, toolCalls_eq]
    exact mem_entries_pending toolReading_faithful
  | exec =>
    rw [entries, execCommands_eq]
    exact mem_entries_pending execReading_faithful
  | approval =>
    rw [entries, approvalEvents_eq]
    exact mem_entries_pending approvalReading_faithful

end Timeline

/-- The output deltas of a command, one behind the other. -/
def outputOf (id : String) (items : List Item) : String :=
  String.join (items.filterMap fun item => item.body.output? id)

theorem outputOf_cons (id : String) (item : Item) (items : List Item) :
    outputOf id (item :: items) = (item.body.output? id).getD "" ++ outputOf id items := by
  cases h : item.body.output? id <;> simp [outputOf, h]

/-- An item between the start of a command and its completion. -/
def Between (id : String) (item : Item) : Prop :=
  item.body.started? ≠ some (.exec, id) ∧ item.body.completed? ≠ some (.exec, id)

theorem current_between {id : String} (ex : ExecCommandReplay) {item : Item}
    (h : Between id item) :
    current id (some ex) (execAction item) =
      some { ex with output := ex.output ++ (item.body.output? id).getD "" } := by
  unfold execAction
  cases hbody : item.body with
  | execStarted i =>
    have hne : i ≠ id := fun heq => h.1 (by rw [hbody, heq]; rfl)
    by_cases hi : i = "" <;> simp [hi, current, Body.output?, hne]
  | execOutputDelta i content =>
    by_cases hi : i = id <;> simp [hi, current, Body.output?]
  | execCompleted i =>
    have hne : i ≠ id := fun heq => h.2 (by rw [hbody, heq]; rfl)
    by_cases hi : i = "" <;> simp [hi, current, Body.output?, hne]
  | _ => simp [current, Body.output?]

theorem foldl_between {id : String} (items : List Item) (ex : ExecCommandReplay)
    (h : ∀ item ∈ items, Between id item) :
    (items.map execAction).foldl (current id) (some ex) =
      some { ex with output := ex.output ++ outputOf id items } := by
  induction items generalizing ex with
  | nil => simp [outputOf]
  | cons item items ih =>
    obtain ⟨hitem, hrest⟩ := forall_mem_cons.mp h
    rw [map_cons, foldl_cons, current_between ex hitem, ih _ hrest, outputOf_cons,
      String.append_assoc]

theorem mem_execRecords {before middle after : List Item} {startItem endItem : Item}
    {id command cwd sandboxType : String} {exitCode : Option Int} {durationMs outputSize : Nat}
    {cancelled timedOut : Bool} (hid : id ≠ "")
    (hstart : startItem.body = .execStarted id command cwd sandboxType)
    (hend : endItem.body =
      .execCompleted id exitCode durationMs outputSize cancelled timedOut)
    (hmiddle : ∀ item ∈ middle, Between id item) :
    { toolCallId := id, command := command, cwd := cwd, sandboxType := sandboxType
      output := outputOf id middle, exitCode := exitCode, durationMs := durationMs
      outputSize := outputSize, cancelled := cancelled, timedOut := timedOut
      status := execStatus exitCode cancelled timedOut } ∈
    execReading.records (before ++ startItem :: middle ++ endItem :: after) := by
  have hopens : execAction startItem = .opens id
      { toolCallId := id, command := command, cwd := cwd, sandboxType := sandboxType } := by
    simp [execAction, hstart, hid]
  have hopen : Table.get? (execReading.desk (before ++ startItem :: middle)).opened id =
      some { toolCallId := id, command := command, cwd := cwd, sandboxType := sandboxType
             output := outputOf id middle } := by
    rw [Reading.desk, get?_foldl, map_append, map_cons, foldl_append,
      foldl_cons]
    show (middle.map execAction).foldl (current id) (current id _ (execAction startItem)) = _
    rw [hopens, current, if_pos rfl, foldl_between middle _ hmiddle]
    simp
  have hcloses : execAction endItem = .closes id fun ex => { ex.getD { toolCallId := id } with
      exitCode := exitCode
      durationMs := durationMs
      outputSize := outputSize
      cancelled := cancelled
      timedOut := timedOut
      status := execStatus exitCode cancelled timedOut } := by
    simp [execAction, hend, hid]
  have hmem := mem_records_closes (r := execReading) (before ++ startItem :: middle) after hcloses
  rw [hopen] at hmem
  exact hmem

theorem mem_approvalRecords {before after : List Item} {item : Item}
    {id toolCallId toolName category decision : String} (hid : id ≠ "")
    (hbody : item.body = .approvalResolved id toolCallId toolName category decision) :
    ∃ ap ∈ approvalReading.records (before ++ item :: after),
      ap.approvalId = id ∧ ap.decision = decision ∧ ap.resolvedSeq = some item.seq := by
  have hcloses : approvalAction item = .closes id fun ap =>
      { ap.getD { approvalId := id, toolCallId := toolCallId, toolName := toolName
                  category := category } with
        decision := decision
        resolvedSeq := some item.seq } := by
    simp [approvalAction, hbody, hid]
  have hmem := mem_records_closes (r := approvalReading) before after hcloses
  have hkey := approvalReading_faithful.closes hcloses
    (key_opened approvalReading_faithful before id)
  exact ⟨_, hmem, hkey.1, rfl, rfl⟩

/-! ## The text -/

theorem buildStep_assistantDeltas (b : Build) (item : Item) :
    (buildStep b item).timeline.assistantDeltas =
      b.timeline.assistantDeltas ++ item.body.assistantDelta?.toList := by
  unfold buildStep
  cases item.body with
  | assistantDelta content => rfl
  | message | toolCallStarted | toolCallCompleted | approvalRequested | approvalResolved
  | execStarted | execCompleted | execOutputDelta =>
    simp only []
    split <;> simp [Body.assistantDelta?]
  | _ => simp [Body.assistantDelta?]

theorem foldl_assistantDeltas (b : Build) (items : List Item) :
    (items.foldl buildStep b).timeline.assistantDeltas =
      b.timeline.assistantDeltas ++ items.filterMap fun item => item.body.assistantDelta? := by
  induction items generalizing b with
  | nil => simp
  | cons item items ih =>
    rw [foldl_cons, ih, buildStep_assistantDeltas]
    cases h : item.body.assistantDelta? <;> simp [h]

/-- The deltas of the assistant, one behind the other. -/
def assistantOutput (items : List Item) : String :=
  String.join (items.filterMap fun item => item.body.assistantDelta?)

theorem buildTimeline_assistantText (threadId turnId : String) (items : List Item) :
    (buildTimeline threadId turnId items).assistantText =
      if assistantOutput items = "" then fallbackText items else assistantOutput items := by
  have h := foldl_assistantDeltas (startBuild threadId turnId) items
  show (if String.join _ = "" then fallbackText items else String.join _) = _
  rw [h]
  rfl

/-! ## Conservation -/

/-- What the timeline of a turn keeps of its items. -/
structure Conserved (items : List Item) (tl : TurnTimeline) : Prop where
  kept : ∀ kind id, id ≠ "" →
    (∃ item ∈ items, item.body.started? = some (kind, id) ∨
      item.body.completed? = some (kind, id)) →
    ∃ pending, (id, pending) ∈ entries tl kind
  completed : ∀ kind id, id ≠ "" → (∃ item ∈ items, item.body.completed? = some (kind, id)) →
    (id, false) ∈ entries tl kind
  pending : ∀ kind id, (id, true) ∈ entries tl kind ↔
    id ≠ "" ∧ ∃ before item after, items = before ++ item :: after ∧
      item.body.started? = some (kind, id) ∧
      ∀ later ∈ after, later.body.completed? ≠ some (kind, id)
  decided : ∀ item ∈ items, ∀ id toolCallId toolName category decision, id ≠ "" →
    item.body = .approvalResolved id toolCallId toolName category decision →
    ∃ ap ∈ tl.approvalEvents,
      ap.approvalId = id ∧ ap.decision = decision ∧ ap.resolvedSeq = some item.seq
  output : ∀ before startItem middle endItem after id command cwd sandboxType exitCode durationMs
      outputSize cancelled timedOut, id ≠ "" →
    items = before ++ startItem :: middle ++ endItem :: after →
    startItem.body = .execStarted id command cwd sandboxType →
    endItem.body = .execCompleted id exitCode durationMs outputSize cancelled timedOut →
    (∀ item ∈ middle, Between id item) →
    { toolCallId := id, command := command, cwd := cwd, sandboxType := sandboxType
      output := outputOf id middle, exitCode := exitCode, durationMs := durationMs
      outputSize := outputSize, cancelled := cancelled, timedOut := timedOut
      status := execStatus exitCode cancelled timedOut } ∈ tl.execCommands
  text : assistantOutput items ≠ "" → tl.assistantText = assistantOutput items

/-- A call that is started again once it is completed. -/
def restarted : List Item :=
  [{ body := .toolCallStarted "a" "read" none },
    { body := .toolCallCompleted "a" none 0 0 none none },
    { body := .toolCallStarted "a" "read" none }]

end MiqroForge.Replay
