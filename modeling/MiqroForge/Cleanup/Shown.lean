import MiqroForge.Cleanup.Run

/-!
What a cleanup deletes against what was shown: the paths of the selected items without what they
exclude, the workspace, and an entry of the report for every selected item.
-/

namespace MiqroForge.Cleanup

open PyText PosixPaths NodePaths List

variable (ctx : CleanupContext) (disk : Disk) (allowUserData : Bool) (ids : List ItemKind)

/-! ## The report -/

def Reported (r : Run) (id : ItemKind) : Prop :=
  (∃ label, (id, label) ∈ r.report.cleaned) ∨ ∃ label reason, (id, label, reason) ∈ r.report.failed

theorem reported_clean {r : Run} {id id' : ItemKind} {label : Text} :
    Reported (r.clean id' label) id ↔ Reported r id ∨ id = id' := by
  simp [Reported, Run.clean, exists_or, or_right_comm]

theorem reported_fail {r : Run} {id id' : ItemKind} {label reason : Text} :
    Reported (r.fail id' label reason) id ↔ Reported r id ∨ id = id' := by
  simp [Reported, Run.fail, exists_or, or_assoc]

theorem reported_rmDirGuarded {dir : Path} {label : Text} {id id' : ItemKind}
    {guardReason : Option Text} {r : Run} :
    Reported (rmDirGuarded disk dir label id' guardReason r) id ↔ Reported r id ∨ id = id' := by
  cases guardReason with
  | some reason => exact reported_fail
  | none =>
    rw [rmDirGuarded]
    split
    · exact reported_clean
    · exact reported_fail

variable {id : ItemKind}

theorem reported_runChildren {label : Text} {children : List Text}
    (hplain : dotdot ∉ children) (r : Run) :
    Reported (children.foldl (runChild ctx disk label) r) id ↔
      Reported r id ∨ id = .dataRoot ∧ ∃ child ∈ children, child ≠ workspaceName := by
  induction children generalizing r with
  | nil => simp
  | cons child children ih =>
    have hchild : child ≠ dotdot := fun heq => hplain (heq ▸ mem_cons_self)
    have hone : Reported (runChild ctx disk label r child) id ↔
        Reported r id ∨ id = .dataRoot ∧ child ≠ workspaceName := by
      rw [runChild]
      split
      · rename_i heq
        exact (or_iff_left fun h => h.2 ((join_workspace hchild).mp heq)).symm
      · rename_i hne
        rw [reported_rmDirGuarded]
        exact or_congr_right
          (iff_self_and.mpr fun _ hws => hne ((join_workspace hchild).mpr hws))
    rw [foldl_cons, ih (fun hm => hplain (mem_cons_of_mem _ hm)), hone, or_assoc,
      ← and_or_left]
    simp

/-- The item of a kind gives an entry of the report. -/
def Answers (id : ItemKind) : Prop :=
  id ≠ .dataRoot ∨ ¬ Accepted ctx ∨
    ∃ child ∈ disk.readdir (primaryRoot ctx), child ≠ workspaceName

theorem reported_runItem {item : CleanupItem} (r : Run)
    (hfree : ((dataRootBlocked ctx).isSome && isDataRootItem item) = false) :
    Reported (runItem ctx disk allowUserData r item) id ↔
      Reported r id ∨ id = item.kind ∧ Answers ctx disk item.kind := by
  obtain ⟨kind, label, path, excludes⟩ := item
  rw [runItem, hfree, if_neg Bool.false_ne_true]
  cases kind with
  | workspace =>
    have hanswer : Answers ctx disk .workspace := Or.inl (by decide)
    rw [and_iff_left hanswer]
    dsimp only
    cases path with
    | none => exact reported_fail
    | some path =>
      dsimp only
      split
      · exact reported_fail
      · exact reported_rmDirGuarded disk
  | dataRoot =>
    have hnone : dataRootBlocked ctx = none := by
      cases hblocked : dataRootBlocked ctx with
      | none => rfl
      | some reason =>
        rw [hblocked] at hfree
        cases hfree
    dsimp only
    cases hguard : guardDataRoot ctx (primaryRoot ctx) with
    | some reason =>
      have hanswer : Answers ctx disk .dataRoot := by
        refine Or.inr (Or.inl fun h => ?_)
        rw [h.2] at hguard
        cases hguard
      rw [and_iff_left hanswer]
      exact reported_fail
    | none =>
      have hanswer : Answers ctx disk .dataRoot ↔
          ∃ child ∈ disk.readdir (primaryRoot ctx), child ≠ workspaceName :=
        ⟨fun h => (h.resolve_left fun h => h rfl).resolve_left fun h => h ⟨hnone, hguard⟩,
          fun h => Or.inr (Or.inr h)⟩
      rw [hanswer]
      exact reported_runChildren ctx disk (disk.readdir_plain _) r
  | userData =>
    have hanswer : Answers ctx disk .userData := Or.inl (by decide)
    rw [and_iff_left hanswer]
    dsimp only
    split
    · exact reported_fail
    · cases path with
      | none => exact reported_fail
      | some path => exact reported_rmDirGuarded disk
  | wslDistro =>
    have hanswer : Answers ctx disk .wslDistro := Or.inl (by decide)
    rw [and_iff_left hanswer]
    dsimp only
    cases disk.unregister with
    | none => exact reported_clean
    | some reason => exact reported_fail
  | updaterCache =>
    have hanswer : Answers ctx disk .updaterCache := Or.inl (by decide)
    rw [and_iff_left hanswer]
    dsimp only
    cases path with
    | none => exact reported_fail
    | some path => exact reported_rmDirGuarded disk

theorem reported_blocked {reason : Text} (h : dataRootBlocked ctx = some reason)
    (selected : List CleanupItem) : Reported (reportBlocked ctx selected) id ↔
      ∃ item ∈ selected, isDataRootItem item = true ∧ id = item.kind := by
  have hfold : ∀ (items : List CleanupItem) (r : Run),
      Reported (items.foldl (fun r item => r.fail item.kind item.label reason) r) id ↔
        Reported r id ∨ ∃ item ∈ items, id = item.kind := by
    intro items
    induction items with
    | nil => simp
    | cons item items ih =>
      intro r
      rw [foldl_cons, ih, reported_fail, or_assoc]
      simp
  have hstart : ¬ Reported ⟨[], ⟨[], []⟩⟩ id := by simp [Reported]
  rw [reportBlocked, h]
  dsimp only
  rw [hfold, or_iff_right hstart]
  simp [mem_filter, and_assoc]

theorem reported_runItems (items : List CleanupItem) (r : Run) :
    Reported (items.foldl (runItem ctx disk allowUserData) r) id ↔
      Reported r id ∨ ∃ item ∈ items, id = item.kind ∧ Answers ctx disk id ∧
        ((dataRootBlocked ctx).isSome && isDataRootItem item) = false := by
  induction items generalizing r with
  | nil => simp
  | cons item items ih =>
    have hone : Reported (runItem ctx disk allowUserData r item) id ↔
        Reported r id ∨ id = item.kind ∧ Answers ctx disk id ∧
          ((dataRootBlocked ctx).isSome && isDataRootItem item) = false := by
      cases hfree : (dataRootBlocked ctx).isSome && isDataRootItem item with
      | false =>
        rw [reported_runItem ctx disk allowUserData r hfree]
        refine or_congr_right ⟨?_, ?_⟩
        · rintro ⟨rfl, hanswer⟩
          exact ⟨rfl, hanswer, rfl⟩
        · rintro ⟨rfl, hanswer, -⟩
          exact ⟨rfl, hanswer⟩
      | true =>
        rw [runItem, hfree, if_pos rfl]
        exact (or_iff_left fun h => Bool.noConfusion h.2.2).symm
    rw [foldl_cons, ih, hone, or_assoc]
    simp

theorem reported_runCleanup (hid : id ∈ ids) :
    Reported (runCleanup ctx disk allowUserData (select ctx ids)) id ↔ Answers ctx disk id := by
  obtain ⟨item, hitem, rfl⟩ := mem_planned ctx id
  have hselected : item ∈ select ctx ids :=
    mem_filter.mpr ⟨hitem, contains_iff_mem.mpr hid⟩
  rw [runCleanup, reported_runItems]
  cases hblocked : dataRootBlocked ctx with
  | none =>
    have hstart : ¬ Reported (reportBlocked ctx (select ctx ids)) item.kind := by
      rw [reportBlocked, hblocked]
      simp [Reported]
    rw [or_iff_right hstart]
    constructor
    · rintro ⟨-, -, -, hanswer, -⟩
      exact hanswer
    · exact fun hanswer => ⟨item, hselected, rfl, hanswer, rfl⟩
  | some reason =>
    rw [reported_blocked ctx hblocked]
    have hnot : ¬ Accepted ctx := by
      rintro ⟨hnone, -⟩
      rw [hnone] at hblocked
      cases hblocked
    refine iff_of_true ?_ (Or.inr (Or.inl hnot))
    cases hdata : isDataRootItem item with
    | true => exact Or.inl ⟨item, hselected, hdata, rfl⟩
    | false => exact Or.inr ⟨item, hselected, rfl, Or.inr (Or.inl hnot), hdata⟩

/-! ## What is deleted -/

/-- The item shows that the path goes: it is below the path of the item, and not below what the item
excludes. -/
def Shows (item : CleanupItem) (p : Path) : Prop :=
  (∃ path, item.path = some path ∧ place ctx.host path <+: place ctx.host p) ∧
    ∀ kept ∈ item.excludes, ¬ place ctx.host kept <+: place ctx.host p

/-- The path is the workspace, or contains it. -/
def TakesWorkspace (p : Path) : Prop := place ctx.host p <+: place ctx.host (workspacePath ctx)

/-- A run does what was shown. -/
structure AsShown : Prop where
  shown : ∀ p ∈ (runCleanup ctx disk allowUserData (select ctx ids)).removed,
    ∃ item ∈ select ctx ids, Shows ctx item p
  workspace : .workspace ∉ ids →
    ∀ p ∈ (runCleanup ctx disk allowUserData (select ctx ids)).removed, ¬ TakesWorkspace ctx p
  report : ∀ item ∈ select ctx ids,
    Reported (runCleanup ctx disk allowUserData (select ctx ids)) item.kind

/-- The condition on the tree and the directories: without the workspace being selected, no entry of
the data root that goes differs from it in the case of letters only, and the directories of the user
data and of the updater do not contain it; and a data root of which only the rest goes has an entry
other than the workspace. -/
structure Regular : Prop where
  sameName : .workspace ∉ ids → .dataRoot ∈ ids → Accepted ctx →
    ∀ child ∈ disk.readdir (primaryRoot ctx), child ≠ workspaceName →
      fold ctx.host child ≠ fold ctx.host workspaceName
  userData : .workspace ∉ ids → .userData ∈ ids → allowUserData = true →
    ∀ p ∈ userDataPath ctx, ¬ TakesWorkspace ctx p
  updater : .workspace ∉ ids → .updaterCache ∈ ids → ¬ TakesWorkspace ctx (updaterPath ctx)
  entry : .dataRoot ∈ ids → Accepted ctx →
    ∃ child ∈ disk.readdir (primaryRoot ctx), child ≠ workspaceName

theorem place_entry {child : Text} (h : child ∈ disk.readdir (primaryRoot ctx)) :
    place ctx.host (join (primaryRoot ctx) child) =
      place ctx.host (primaryRoot ctx) ++ [fold ctx.host child] :=
  place_join ctx.host _ fun heq => disk.readdir_plain _ (heq ▸ h)

theorem place_workspace : place ctx.host (workspacePath ctx) =
    place ctx.host (primaryRoot ctx) ++ [fold ctx.host workspaceName] :=
  place_join ctx.host _ (by decide)

theorem entry_prefix {root : List Text} {a b : Text} : root ++ [a] <+: root ++ [b] ↔ a = b := by
  rw [prefix_append_right_inj, cons_prefix_cons]
  exact and_iff_left nil_prefix

theorem mem_select {item : CleanupItem} :
    item ∈ select ctx ids ↔ item ∈ planCleanupItems ctx ∧ item.kind ∈ ids := by
  rw [select, mem_filter, contains_iff_mem]

theorem exists_shows (hid : id ∈ ids) {label : Text} {path : Path}
    {excludes : List Path} (hplan : ⟨id, label, some path, excludes⟩ ∈ planCleanupItems ctx)
    {p : Path} (hp : place ctx.host path <+: place ctx.host p)
    (hkept : ∀ kept ∈ excludes, ¬ place ctx.host kept <+: place ctx.host p) :
    ∃ item ∈ select ctx ids, Shows ctx item p :=
  ⟨_, (mem_select ctx ids).mpr ⟨hplan, hid⟩, ⟨path, rfl, hp⟩, hkept⟩

theorem shown_of_regular (h : Regular ctx disk allowUserData ids) :
    ∀ p ∈ (runCleanup ctx disk allowUserData (select ctx ids)).removed,
      ∃ item ∈ select ctx ids, Shows ctx item p := by
  intro p hp
  obtain ⟨id, hid, htarget⟩ := (mem_runCleanup ctx disk allowUserData ids).mp hp
  cases id with
  | workspace =>
    rw [htarget.2]
    exact exists_shows ctx ids hid (.head _) (prefix_refl _)
      (forall_mem_nil _)
  | dataRoot =>
    obtain ⟨haccepted, child, hmem, hne, rfl⟩ := htarget
    by_cases halias : fold ctx.host workspaceName = fold ctx.host child
    · have hws : .workspace ∈ ids := by
        by_contra hws
        exact h.sameName hws hid haccepted child hmem hne halias.symm
      refine exists_shows ctx ids hws (.head _) ?_ (forall_mem_nil _)
      rw [place_workspace, place_entry ctx disk hmem, entry_prefix]
      exact halias
    · refine exists_shows ctx ids hid (.tail _ (.head _)) ?_
        (forall_mem_singleton.mpr ?_)
      · rw [place_entry ctx disk hmem]
        exact prefix_append _ _
      · rw [place_workspace, place_entry ctx disk hmem, entry_prefix]
        exact halias
  | userData =>
    obtain ⟨-, hpath⟩ := htarget
    have hplan : ⟨.userData, "应用用户数据".toList, some p, []⟩ ∈ planCleanupItems ctx := by
      rw [← hpath]
      exact .tail _ (.tail _ (.head _))
    exact exists_shows ctx ids hid hplan (prefix_refl _) (forall_mem_nil _)
  | wslDistro => cases htarget
  | updaterCache =>
    rw [htarget]
    exact exists_shows ctx ids hid (.tail _ (.tail _ (.tail _ (.tail _ (.head _)))))
      (prefix_refl _)
      (forall_mem_nil _)

theorem kept_of_regular (h : Regular ctx disk allowUserData ids) (hws : .workspace ∉ ids) :
    ∀ p ∈ (runCleanup ctx disk allowUserData (select ctx ids)).removed, ¬ TakesWorkspace ctx p := by
  intro p hp
  obtain ⟨id, hid, htarget⟩ := (mem_runCleanup ctx disk allowUserData ids).mp hp
  cases id with
  | workspace => exact absurd hid hws
  | dataRoot =>
    obtain ⟨haccepted, child, hmem, hne, rfl⟩ := htarget
    rw [TakesWorkspace, place_workspace, place_entry ctx disk hmem, entry_prefix]
    exact h.sameName hws hid haccepted child hmem hne
  | userData => exact h.userData hws hid htarget.1 p htarget.2
  | wslDistro => cases htarget
  | updaterCache =>
    rw [htarget]
    exact h.updater hws hid

/-- **Cleanup as shown.** A run deletes only what a selected item shows, leaves the workspace unless
it is selected, and reports every selected item, exactly on a regular tree. -/
theorem cleanup_as_shown :
    AsShown ctx disk allowUserData ids ↔ Regular ctx disk allowUserData ids := by
  have hreport : ∀ item ∈ select ctx ids,
      (Reported (runCleanup ctx disk allowUserData (select ctx ids)) item.kind ↔
        Answers ctx disk item.kind) :=
    fun item hitem => reported_runCleanup ctx disk allowUserData ids ((mem_select ctx ids).mp hitem).2
  constructor
  · intro h
    refine ⟨?_, ?_, ?_, ?_⟩
    · intro hws hid haccepted child hmem hne halias
      refine h.workspace hws (join (primaryRoot ctx) child)
        ((mem_runCleanup ctx disk allowUserData ids).mpr
          ⟨.dataRoot, hid, haccepted, child, hmem, hne, rfl⟩) ?_
      rw [TakesWorkspace, place_workspace, place_entry ctx disk hmem, entry_prefix]
      exact halias
    · intro hws hid hallow p hp
      exact h.workspace hws p
        ((mem_runCleanup ctx disk allowUserData ids).mpr ⟨.userData, hid, hallow, hp⟩)
    · intro hws hid
      exact h.workspace hws _
        ((mem_runCleanup ctx disk allowUserData ids).mpr ⟨.updaterCache, hid, rfl⟩)
    · intro hid haccepted
      obtain ⟨item, hplanned, hkind⟩ := mem_planned ctx .dataRoot
      have hitem : item ∈ select ctx ids := (mem_select ctx ids).mpr ⟨hplanned, hkind ▸ hid⟩
      have hanswer := (hreport item hitem).mp (h.report item hitem)
      rw [hkind] at hanswer
      exact (hanswer.resolve_left fun hne => hne rfl).resolve_left fun hnot => hnot haccepted
  · intro h
    refine ⟨shown_of_regular ctx disk allowUserData ids h,
      kept_of_regular ctx disk allowUserData ids h, ?_⟩
    intro item hitem
    rw [hreport item hitem]
    by_cases hkind : item.kind = .dataRoot
    · by_cases haccepted : Accepted ctx
      · refine Or.inr (Or.inr (h.entry ?_ haccepted))
        exact hkind ▸ ((mem_select ctx ids).mp hitem).2
      · exact Or.inr (Or.inl haccepted)
    · exact Or.inl hkind

/-- A data root in the home directory, on Windows. -/
def homeRoot : CleanupContext where
  host := { win32 := true, device := ['C', ':'], cwd := [], cwd_plain := List.not_mem_nil,
            driveCwd := fun _ => [], drive_plain := fun _ => List.not_mem_nil, lower := Char.toLower }
  homeDir := "C:\\u".toList
  appDataDir := "C:\\u\\a\\r".toList
  localAppDataDir := "C:\\u\\a\\l".toList
  registryDataRoot := none
  miqiHome := none
  systemRoot := some "C:\\w".toList
  dirExists := fun _ => true
  userDataDir := none

def renamedWorkspace : Disk where
  readdir := fun _ => ["Workspace".toList]
  readdir_plain := fun _ => by decide
  rm := fun _ => none
  unregister := none

/-- A workspace whose entry is spelled `Workspace` goes with the rest of the data root. -/
theorem renamed_workspace_deleted : ¬ ∀ (ctx : CleanupContext) (disk : Disk)
    (allowUserData : Bool) (ids : List ItemKind), AsShown ctx disk allowUserData ids := by
  intro h
  have hremoved :
      (runCleanup homeRoot renamedWorkspace false (select homeRoot [.dataRoot])).removed =
        [⟨['C', ':'], true, [['u'], defaultName, "Workspace".toList]⟩] := by decide
  have hkept := (h homeRoot renamedWorkspace false [.dataRoot]).workspace (by decide)
    ⟨['C', ':'], true, [['u'], defaultName, "Workspace".toList]⟩ (hremoved ▸ List.mem_cons_self)
  rw [TakesWorkspace] at hkept
  revert hkept
  decide

end MiqroForge.Cleanup
