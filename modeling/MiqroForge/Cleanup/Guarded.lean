import MiqroForge.Cleanup.Run

/-!
The directories that a cleanup shares with others: the home directory, `%APPDATA%`,
`%LOCALAPPDATA%` and the system directory, and when no run deletes them.
-/

namespace MiqroForge.Cleanup

open PyText PosixPaths NodePaths

variable (ctx : CleanupContext) (disk : Disk) (allowUserData : Bool) (ids : List ItemKind)

def homePath : Path := parse ctx.host ctx.homeDir

/-- The shared directories that no guard looks for below a data root. -/
def Unguarded (d : Path) : Prop :=
  d = parse ctx.host ctx.appDataDir ∨ d = parse ctx.host ctx.localAppDataDir ∨ d ∈ systemDir ctx

/-- The path is one of the shared directories, contains one, or is in the system directory. -/
def Widens (p : Path) : Prop :=
  (∃ d, (d = homePath ctx ∨ Unguarded ctx d) ∧ place ctx.host p <+: place ctx.host d) ∨
    ∃ s ∈ systemDir ctx, place ctx.host s <+: place ctx.host p

/-- An entry of the data root that the selected items delete. -/
def Entry (child : Text) : Prop :=
  .workspace ∈ ids ∧ child = workspaceName ∨
    .dataRoot ∈ ids ∧ child ∈ disk.readdir (primaryRoot ctx) ∧ child ≠ workspaceName

/-- The condition on the tree and the directories. An accepted data root has none of the unguarded
directories in or below an entry that goes, and the names that lead from it to the home directory, or
to it from the system directory, do not slip through the check; and the directories of the user data
and of the updater are apart from the shared ones. -/
structure Apart : Prop where
  unguarded : Accepted ctx → ∀ child, Entry ctx disk ids child → ∀ d, Unguarded ctx d →
    ¬ place ctx.host (primaryRoot ctx) ++ [fold ctx.host child] <+: place ctx.host d
  home : Accepted ctx → ∀ child, Entry ctx disk ids child →
    Slips ctx (primaryRoot ctx) (homePath ctx) →
      ¬ place ctx.host (primaryRoot ctx) ++ [fold ctx.host child] <+: place ctx.host (homePath ctx)
  system : Accepted ctx → (∃ child, Entry ctx disk ids child) → ∀ s ∈ systemDir ctx,
    Slips ctx s (primaryRoot ctx) → ¬ place ctx.host s <+: place ctx.host (primaryRoot ctx)
  userData : .userData ∈ ids → allowUserData = true → ∀ p ∈ userDataPath ctx, ¬ Widens ctx p
  updater : .updaterCache ∈ ids → ¬ Widens ctx (updaterPath ctx)

theorem workspaceName_plain : workspaceName ≠ dotdot := by decide

theorem entry_plain {child : Text} (h : Entry ctx disk ids child) : child ≠ dotdot := by
  rcases h with ⟨-, rfl⟩ | ⟨-, hmem, -⟩
  · exact workspaceName_plain
  · exact fun heq => disk.readdir_plain _ (heq ▸ hmem)

theorem removed_cases {p : Path}
    (hp : p ∈ (runCleanup ctx disk allowUserData (select ctx ids)).removed) :
    (Accepted ctx ∧ ∃ child, Entry ctx disk ids child ∧ p = join (primaryRoot ctx) child) ∨
      (.userData ∈ ids ∧ allowUserData = true ∧ p ∈ userDataPath ctx) ∨
      (.updaterCache ∈ ids ∧ p = updaterPath ctx) := by
  obtain ⟨id, hid, htarget⟩ := (mem_runCleanup ctx disk allowUserData ids).mp hp
  cases id with
  | workspace => exact Or.inl ⟨htarget.1, workspaceName, Or.inl ⟨hid, rfl⟩, htarget.2⟩
  | dataRoot =>
    obtain ⟨haccepted, child, hmem, hne, rfl⟩ := htarget
    exact Or.inl ⟨haccepted, child, Or.inr ⟨hid, hmem, hne⟩, rfl⟩
  | userData => exact Or.inr (Or.inl ⟨hid, htarget.1, htarget.2⟩)
  | wslDistro => cases htarget
  | updaterCache => exact Or.inr (Or.inr ⟨hid, htarget⟩)

theorem entry_removed (haccepted : Accepted ctx) {child : Text} (h : Entry ctx disk ids child) :
    join (primaryRoot ctx) child ∈
      (runCleanup ctx disk allowUserData (select ctx ids)).removed := by
  rw [mem_runCleanup]
  rcases h with ⟨hid, rfl⟩ | ⟨hid, hmem, hne⟩
  · exact ⟨.workspace, hid, haccepted, rfl⟩
  · exact ⟨.dataRoot, hid, haccepted, child, hmem, hne, rfl⟩

theorem safe_of_accepted (h : Accepted ctx) : isSafeDeletionRoot ctx (primaryRoot ctx) = none := by
  have hguard := h.2
  rw [guardDataRoot] at hguard
  split at hguard
  · cases hguard
  · assumption

theorem prefix_concat {a b : List Text} {c : Text} (h : a <+: b ++ [c]) : a <+: b ∨ a = b ++ [c] := by
  rcases List.prefix_concat_iff.mp h with heq | hp
  · exact Or.inr heq
  · exact Or.inl hp

theorem entry_apart (h : Apart ctx disk allowUserData ids) (haccepted : Accepted ctx) {child : Text}
    (hentry : Entry ctx disk ids child) : ¬ Widens ctx (join (primaryRoot ctx) child) := by
  obtain ⟨hhome, hsystem⟩ := safe_root ctx (safe_of_accepted ctx haccepted)
  rw [Widens, place_join ctx.host _ (entry_plain ctx disk ids hentry)]
  rintro (⟨d, rfl | hd, hp⟩ | ⟨s, hs, hp⟩)
  · have hroot := List.IsPrefix.trans (List.prefix_append _ _) hp
    exact h.home haccepted child hentry (hhome hroot) hp
  · exact h.unguarded haccepted child hentry d hd hp
  · rcases prefix_concat hp with hp | heq
    · exact h.system haccepted ⟨child, hentry⟩ s hs (hsystem s hs hp) hp
    · refine h.unguarded haccepted child hentry s (Or.inr (Or.inr hs)) ?_
      exact heq ▸ List.prefix_refl _

/-- **Cleanup.** No path that a run deletes is a shared directory, contains one, or is in the system
directory, exactly if the data root and the two directories are apart from them. -/
theorem cleanup_apart :
    (∀ p ∈ (runCleanup ctx disk allowUserData (select ctx ids)).removed, ¬ Widens ctx p) ↔
      Apart ctx disk allowUserData ids := by
  constructor
  · intro h
    have hentry : Accepted ctx → ∀ child, Entry ctx disk ids child →
        ¬ Widens ctx (join (primaryRoot ctx) child) :=
      fun haccepted child hchild => h _ (entry_removed ctx disk allowUserData ids haccepted hchild)
    have hplace : ∀ child, Entry ctx disk ids child →
        place ctx.host (join (primaryRoot ctx) child) =
          place ctx.host (primaryRoot ctx) ++ [fold ctx.host child] :=
      fun child hchild => place_join ctx.host _ (entry_plain ctx disk ids hchild)
    refine ⟨?_, ?_, ?_, ?_, ?_⟩
    · intro haccepted child hchild d hd hp
      exact hentry haccepted child hchild (Or.inl ⟨d, Or.inr hd, hplace child hchild ▸ hp⟩)
    · intro haccepted child hchild _ hp
      exact hentry haccepted child hchild (Or.inl ⟨_, Or.inl rfl, hplace child hchild ▸ hp⟩)
    · rintro haccepted ⟨child, hchild⟩ s hs _ hp
      refine hentry haccepted child hchild (Or.inr ⟨s, hs, ?_⟩)
      rw [hplace child hchild]
      exact List.IsPrefix.trans hp (List.prefix_append _ _)
    · intro hid hallow p hp
      exact h p ((mem_runCleanup ctx disk allowUserData ids).mpr ⟨.userData, hid, hallow, hp⟩)
    · intro hid
      exact h _ ((mem_runCleanup ctx disk allowUserData ids).mpr ⟨.updaterCache, hid, rfl⟩)
  · intro h p hp
    rcases removed_cases ctx disk allowUserData ids hp with
      ⟨haccepted, child, hentry, rfl⟩ | ⟨hid, hallow, hpath⟩ | ⟨hid, rfl⟩
    · exact entry_apart ctx disk allowUserData ids h haccepted hentry
    · exact h.userData hid hallow p hpath
    · exact h.updater hid

/-- A Windows host with its current directory at the root of a drive. -/
def driveHost : Host where
  win32 := true
  device := ['C', ':']
  cwd := []
  cwd_plain := List.not_mem_nil
  driveCwd := fun _ => []
  drive_plain := fun _ => List.not_mem_nil
  lower := Char.toLower

/-- The data root is the directory above `%APPDATA%`. -/
def aboveAppData : CleanupContext where
  host := driveHost
  homeDir := "C:\\u".toList
  appDataDir := "C:\\u\\a\\r".toList
  localAppDataDir := "C:\\u\\a\\l".toList
  registryDataRoot := none
  miqiHome := some "C:\\u\\a".toList
  systemRoot := some "C:\\w".toList
  dirExists := fun _ => true
  userDataDir := none

def twoEntries : Disk where
  readdir := fun _ => [['r'], ['l']]
  readdir_plain := fun _ => by decide
  rm := fun _ => none
  unregister := none

/-- The rest of the data root is `%APPDATA%` and `%LOCALAPPDATA%`. -/
theorem appData_deleted : ¬ ∀ (ctx : CleanupContext) (disk : Disk) (allowUserData : Bool)
    (ids : List ItemKind), ∀ p ∈ (runCleanup ctx disk allowUserData (select ctx ids)).removed,
      ¬ Widens ctx p := by
  intro h
  have hremoved : (runCleanup aboveAppData twoEntries false (select aboveAppData [.dataRoot])).removed =
      [⟨['C', ':'], true, [['u'], ['a'], ['r']]⟩, ⟨['C', ':'], true, [['u'], ['a'], ['l']]⟩] := by
    decide
  refine h aboveAppData twoEntries false [.dataRoot] ⟨['C', ':'], true, [['u'], ['a'], ['r']]⟩
    (hremoved ▸ List.mem_cons_self) (Or.inl ⟨_, Or.inr (Or.inl rfl), ?_⟩)
  decide

end MiqroForge.Cleanup
