import MiqroForge.Cleanup.Plan

/-!
A cleanup run: `runCleanup` of `cleanup.ts`, what it deletes, and what it reports.
-/

namespace MiqroForge.Cleanup

open PyText PosixPaths NodePaths

/-- The disk as a run finds it. -/
structure Disk where
  /-- The entries of a directory; empty where `readdirSync` throws. -/
  readdir : Path → List Text
  readdir_plain : ∀ p, dotdot ∉ readdir p
  /-- Why a path could not be deleted in the last try. -/
  rm : Path → Option Text
  /-- Why the distribution could not be unregistered. -/
  unregister : Option Text

structure Report where
  cleaned : List (ItemKind × Text)
  failed : List (ItemKind × Text × Text)

/-- What a run has given to `rmSync` so far, and its report. -/
structure Run where
  removed : List Path
  report : Report

def Run.clean (r : Run) (id : ItemKind) (label : Text) : Run :=
  { r with report := { r.report with cleaned := r.report.cleaned ++ [(id, label)] } }

def Run.fail (r : Run) (id : ItemKind) (label reason : Text) : Run :=
  { r with report := { r.report with failed := r.report.failed ++ [(id, label, reason)] } }

variable (ctx : CleanupContext) (disk : Disk) (allowUserData : Bool)

/-! ## Guards -/

def guardDataRoot (dir : Path) : Option Text :=
  match isSafeDeletionRoot ctx dir with
  | some reason => some reason
  | none =>
    if classifyDataRootCandidate ctx dir = .notACandidate then
      some "不是已知的数据目录（拒绝删除）".toList
    else none

/-- `guardFixedDir`; a missing path has the empty text. -/
def guardFixedDir (dir expected : Option Path) : Option Text :=
  if dir ≠ expected then
    some ("路径与预期不一致（期望 ".toList ++ ((expected.map (text ctx.host)).getD []) ++
      "，拒绝删除）".toList)
  else none

def rmDirGuarded (dir : Path) (label : Text) (id : ItemKind) (guardReason : Option Text) (r : Run) :
    Run :=
  match guardReason with
  | some reason => r.fail id label reason
  | none =>
    let r := { r with removed := r.removed ++ [dir] }
    match disk.rm dir with
    | none => r.clean id label
    | some reason => r.fail id label reason

/-! ## The run -/

/-- Why the configured data root is unsafe. -/
def dataRootBlocked : Option Text :=
  match resolveExplicitDataRoot ctx with
  | some ⟨_, some reason⟩ =>
    some ("显式数据根未通过安全校验（".toList ++ reason ++ "），跳过数据根清理".toList)
  | _ => none

def isDataRootItem (item : CleanupItem) : Bool :=
  item.kind == .workspace || item.kind == .dataRoot

/-- One entry of the data root. -/
def runChild (label : Text) (r : Run) (child : Text) : Run :=
  let target := primaryRoot ctx
  let childPath := join target child
  if join target workspaceName = childPath then r
  else rmDirGuarded disk childPath (label ++ " / ".toList ++ child) .dataRoot none r

def runItem (r : Run) (item : CleanupItem) : Run :=
  if (dataRootBlocked ctx).isSome && isDataRootItem item then r
  else
    match item.kind with
    | .workspace =>
      match item.path with
      | none => r.fail item.kind item.label "数据根不可确认，跳过".toList
      | some path =>
        let expected := join (primaryRoot ctx) workspaceName
        if path ≠ expected then
          r.fail item.kind item.label ("路径异常（期望 ".toList ++ text ctx.host expected ++ "）".toList)
        else
          rmDirGuarded disk path item.label item.kind (guardDataRoot ctx (primaryRoot ctx)) r
    | .dataRoot =>
      match guardDataRoot ctx (primaryRoot ctx) with
      | some reason => r.fail item.kind item.label reason
      | none => (disk.readdir (primaryRoot ctx)).foldl (runChild ctx disk item.label) r
    | .userData =>
      if allowUserData = false then
        r.fail item.kind item.label "应用运行中无法删除用户数据，请使用「退出并清理」".toList
      else
        match item.path with
        | none => r.fail item.kind item.label "路径不可确认，跳过".toList
        | some path =>
          rmDirGuarded disk path item.label item.kind
            (guardFixedDir ctx (some path) (userDataPath ctx)) r
    | .wslDistro =>
      match disk.unregister with
      | none => r.clean item.kind item.label
      | some reason => r.fail item.kind item.label reason
    | .updaterCache =>
      match item.path with
      | none => r.fail item.kind item.label "路径不可确认，跳过".toList
      | some path =>
        rmDirGuarded disk path item.label item.kind
          (guardFixedDir ctx (some path) (some (updaterPath ctx))) r

/-- The items that are not tried as the configured data root is unsafe. -/
def reportBlocked (selected : List CleanupItem) : Run :=
  match dataRootBlocked ctx with
  | some reason =>
    (selected.filter isDataRootItem).foldl (fun r item => r.fail item.kind item.label reason)
      ⟨[], ⟨[], []⟩⟩
  | none => ⟨[], ⟨[], []⟩⟩

def runCleanup (selected : List CleanupItem) : Run :=
  selected.foldl (runItem ctx disk allowUserData) (reportBlocked ctx selected)

/-- The planned items of the given kinds. -/
def select (ids : List ItemKind) : List CleanupItem :=
  (planCleanupItems ctx).filter fun item => ids.contains item.kind

/-! ## What is deleted -/

/-- The data root of the run may be deleted. -/
def Accepted : Prop := dataRootBlocked ctx = none ∧ guardDataRoot ctx (primaryRoot ctx) = none

/-- What the item of a kind gives to `rmSync`. -/
def Target (id : ItemKind) (p : Path) : Prop :=
  match id with
  | .workspace => Accepted ctx ∧ p = workspacePath ctx
  | .dataRoot => Accepted ctx ∧
      ∃ child ∈ disk.readdir (primaryRoot ctx), child ≠ workspaceName ∧ p = join (primaryRoot ctx) child
  | .userData => allowUserData = true ∧ userDataPath ctx = some p
  | .wslDistro => False
  | .updaterCache => p = updaterPath ctx

theorem mem_rmDirGuarded {p dir : Path} {label : Text} {id : ItemKind} {guardReason : Option Text}
    {r : Run} : p ∈ (rmDirGuarded disk dir label id guardReason r).removed ↔
      p ∈ r.removed ∨ guardReason = none ∧ p = dir := by
  cases guardReason with
  | some reason => exact (or_iff_left fun h => nomatch h.1).symm
  | none =>
    have hone : (rmDirGuarded disk dir label id none r).removed = r.removed ++ [dir] := by
      rw [rmDirGuarded]
      split <;> rfl
    rw [hone, List.mem_append, List.mem_singleton, eq_self_iff_true, true_and]

theorem join_workspace {root : Path} {child : Text} (hchild : child ≠ dotdot) :
    join root workspaceName = join root child ↔ child = workspaceName := by
  have hws : workspaceName ≠ dotdot := by decide
  have hnames : ∀ c, c ≠ dotdot → (join root c).names = root.names ++ [c] := fun c hc => if_neg hc
  constructor
  · intro heq
    have hlast := congrArg Path.names heq
    rw [hnames _ hws, hnames _ hchild] at hlast
    exact (List.singleton_inj.mp (List.append_cancel_left hlast)).symm
  · rintro rfl
    rfl

theorem mem_runChild {p : Path} {label child : Text} {r : Run} (hchild : child ≠ dotdot) :
    p ∈ (runChild ctx disk label r child).removed ↔
      p ∈ r.removed ∨ child ≠ workspaceName ∧ p = join (primaryRoot ctx) child := by
  rw [runChild]
  split
  · rename_i heq
    exact (or_iff_left fun h => h.1 ((join_workspace hchild).mp heq)).symm
  · rename_i hne
    rw [mem_rmDirGuarded, eq_self_iff_true, true_and]
    exact or_congr_right
      (iff_and_self.mpr fun _ hws => hne ((join_workspace hchild).mpr hws))

theorem mem_runChildren {p : Path} {label : Text} {children : List Text}
    (hplain : dotdot ∉ children) (r : Run) :
    p ∈ (children.foldl (runChild ctx disk label) r).removed ↔
      p ∈ r.removed ∨
        ∃ child ∈ children, child ≠ workspaceName ∧ p = join (primaryRoot ctx) child := by
  induction children generalizing r with
  | nil => simp
  | cons child children ih =>
    have hchild : child ≠ dotdot := fun heq => hplain (heq ▸ List.mem_cons_self)
    rw [List.foldl_cons, ih (fun hm => hplain (List.mem_cons_of_mem _ hm)),
      mem_runChild ctx disk hchild, or_assoc]
    simp

theorem blocked_cases : (dataRootBlocked ctx).isSome = true ∧ ¬ Accepted ctx ∨
    (dataRootBlocked ctx).isSome = false ∧
      (Accepted ctx ↔ guardDataRoot ctx (primaryRoot ctx) = none) := by
  cases hblocked : dataRootBlocked ctx with
  | some reason =>
    refine Or.inl ⟨rfl, fun h => ?_⟩
    rw [h.1] at hblocked
    cases hblocked
  | none => exact Or.inr ⟨rfl, fun h => h.2, fun h => ⟨hblocked, h⟩⟩

theorem mem_runWorkspace {p : Path} {label : Text} {excludes : List Path} (r : Run) :
    p ∈ (runItem ctx disk allowUserData r
        ⟨.workspace, label, some (workspacePath ctx), excludes⟩).removed ↔
      p ∈ r.removed ∨ Accepted ctx ∧ p = workspacePath ctx := by
  rw [runItem]
  rcases blocked_cases ctx with ⟨hsome, hnot⟩ | ⟨hnone, hiff⟩
  · rw [hsome]
    exact (or_iff_left fun h => hnot h.1).symm
  · rw [hnone, hiff]
    have hexpected : ¬ workspacePath ctx ≠ join (primaryRoot ctx) workspaceName := fun h => h rfl
    show p ∈ (if workspacePath ctx ≠ join (primaryRoot ctx) workspaceName then _ else _ : Run).removed ↔ _
    rw [if_neg hexpected]
    exact mem_rmDirGuarded disk

theorem mem_runDataRoot {p : Path} {label : Text} {path : Option Path} {excludes : List Path}
    (r : Run) : p ∈ (runItem ctx disk allowUserData r ⟨.dataRoot, label, path, excludes⟩).removed ↔
      p ∈ r.removed ∨ Accepted ctx ∧ ∃ child ∈ disk.readdir (primaryRoot ctx),
        child ≠ workspaceName ∧ p = join (primaryRoot ctx) child := by
  rw [runItem]
  rcases blocked_cases ctx with ⟨hsome, hnot⟩ | ⟨hnone, hiff⟩
  · rw [hsome]
    exact (or_iff_left fun h => hnot h.1).symm
  · rw [hnone, hiff]
    cases hguard : guardDataRoot ctx (primaryRoot ctx) with
    | some reason => exact (or_iff_left fun h => nomatch h.1).symm
    | none =>
      rw [eq_self_iff_true, true_and]
      exact mem_runChildren ctx disk (disk.readdir_plain _) r

theorem guardFixedDir_self (dir : Option Path) : guardFixedDir ctx dir dir = none :=
  if_neg fun h => h rfl

theorem mem_runItem {p : Path} {item : CleanupItem} (hitem : item ∈ planCleanupItems ctx)
    (r : Run) : p ∈ (runItem ctx disk allowUserData r item).removed ↔
      p ∈ r.removed ∨ Target ctx disk allowUserData item.kind p := by
  simp only [planCleanupItems, List.mem_cons, List.not_mem_nil, or_false] at hitem
  have hfree : ∀ id, id ≠ .workspace → id ≠ .dataRoot → ∀ label path excludes,
      ((dataRootBlocked ctx).isSome && isDataRootItem ⟨id, label, path, excludes⟩) = false := by
    intro id hws hroot label path excludes
    simp [isDataRootItem, hws, hroot]
  rcases hitem with rfl | rfl | rfl | rfl | rfl
  · exact mem_runWorkspace ctx disk allowUserData r
  · exact mem_runDataRoot ctx disk allowUserData r
  · rw [runItem, hfree _ (by decide) (by decide)]
    dsimp only
    cases allowUserData with
    | false => exact (or_iff_left fun h => Bool.noConfusion h.1).symm
    | true =>
      cases hpath : userDataPath ctx with
      | none =>
        have hnot : ¬ Target ctx disk true .userData p := by
          rintro ⟨-, htarget⟩
          rw [hpath] at htarget
          cases htarget
        exact (or_iff_left hnot).symm
      | some path =>
        have htarget : Target ctx disk true .userData p ↔ p = path := by
          rw [Target, hpath, eq_self_iff_true, true_and, Option.some_inj]
          exact eq_comm
        rw [htarget]
        refine (mem_rmDirGuarded disk).trans (or_congr_right ?_)
        rw [guardFixedDir_self, eq_self_iff_true, true_and]
  · rw [runItem, hfree _ (by decide) (by decide)]
    cases hwsl : disk.unregister with
    | none => exact (or_iff_left id).symm
    | some reason => exact (or_iff_left id).symm
  · rw [runItem, hfree _ (by decide) (by decide)]
    refine (mem_rmDirGuarded disk).trans (or_congr_right ?_)
    rw [guardFixedDir_self, eq_self_iff_true, true_and]
    rfl

theorem removed_blocked (selected : List CleanupItem) :
    (reportBlocked ctx selected).removed = [] := by
  have hfold : ∀ (items : List CleanupItem) (reason : Text) (r : Run),
      (items.foldl (fun r item => r.fail item.kind item.label reason) r).removed = r.removed := by
    intro items reason
    induction items with
    | nil => exact fun r => rfl
    | cons item items ih => exact fun r => ih (r.fail item.kind item.label reason)
  rw [reportBlocked]
  split
  · exact hfold ..
  · rfl

theorem mem_planned (id : ItemKind) : ∃ item ∈ planCleanupItems ctx, item.kind = id := by
  cases id <;> simp [planCleanupItems]

theorem mem_runCleanup {p : Path} (ids : List ItemKind) :
    p ∈ (runCleanup ctx disk allowUserData (select ctx ids)).removed ↔
      ∃ id ∈ ids, Target ctx disk allowUserData id p := by
  have hfold : ∀ (items : List CleanupItem), (∀ item ∈ items, item ∈ planCleanupItems ctx) →
      ∀ r : Run, p ∈ (items.foldl (runItem ctx disk allowUserData) r).removed ↔
        p ∈ r.removed ∨ ∃ item ∈ items, Target ctx disk allowUserData item.kind p := by
    intro items
    induction items with
    | nil => simp
    | cons item items ih =>
      intro hplanned r
      obtain ⟨hitem, hitems⟩ := List.forall_mem_cons.mp hplanned
      rw [List.foldl_cons, ih hitems, mem_runItem ctx disk allowUserData hitem, or_assoc]
      simp
  have hselect : ∀ item ∈ select ctx ids, item ∈ planCleanupItems ctx :=
    fun item hitem => (List.mem_filter.mp hitem).1
  rw [runCleanup, hfold _ hselect, removed_blocked, or_iff_right List.not_mem_nil]
  constructor
  · rintro ⟨item, hitem, htarget⟩
    exact ⟨item.kind, List.contains_iff_mem.mp (List.mem_filter.mp hitem).2, htarget⟩
  · rintro ⟨id, hid, htarget⟩
    obtain ⟨item, hitem, rfl⟩ := mem_planned ctx id
    exact ⟨item, List.mem_filter.mpr ⟨hitem, List.contains_iff_mem.mpr hid⟩, htarget⟩

end MiqroForge.Cleanup
