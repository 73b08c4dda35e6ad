import MiqroForge.Library.NodePaths
import MiqroForge.Workspace.Location

/-!
What a cleanup would delete: `cleanup-paths.ts`. The host is the platform that the context names,
and path texts are normalized paths.
-/

namespace MiqroForge.Cleanup

open PyText NodePaths

structure CleanupContext where
  host : Host
  homeDir : Text
  appDataDir : Text
  localAppDataDir : Text
  registryDataRoot : Option Text
  /-- `env['MIQI_HOME']`. -/
  miqiHome : Option Text
  systemRoot : Option Text
  dirExists : Path → Bool
  userDataDir : Option Text

def defaultName : Text := ".forge".toList
def miqiName : Text := ".miqi".toList
def legacyName : Text := ".assistant".toList
def packagedUserDataDirName : Text := "miqi-desktop".toList
def updaterCacheDirName : Text := "miqi-desktop-updater".toList
def workspaceName : Text := "workspace".toList

/-- `DATA_ROOT_CANDIDATE_NAMES`. -/
def candidateNames : List Text := [defaultName, miqiName, legacyName]

variable (ctx : CleanupContext)

/-! ## Safety -/

def samePath (a b : Text) : Bool :=
  if a = [] ∨ b = [] then false else decide (fold ctx.host a = fold ctx.host b)

def isSameOrInside (p base : Path) : Bool :=
  let rel := relative ctx.host base p
  if rel = [] then true else !(['.', '.'].isPrefixOf rel) && !isAbsolute ctx.host rel

/-- `ctx.systemRoot`, where it is not empty. -/
def systemDir : Option Path :=
  match ctx.systemRoot with
  | some t => if t = [] then none else some (parse ctx.host t)
  | none => none

/-- The text of the root of a path. -/
def rootText (p : Path) : Text := text ctx.host { p with names := [] }

/-- The reason of `isSafeDeletionRoot`; `none` where the directory is safe. -/
def isSafeDeletionRoot (dir : Path) : Option Text :=
  let t := text ctx.host dir
  if Workspace.Desktop.trim t = [] then some "路径为空".toList
  else if '\x00' ∈ t then some "路径包含非法字符".toList
  else
    let p := resolve ctx.host dir
    let resolved := text ctx.host p
    if samePath ctx resolved (rootText ctx p) then
      some ("拒绝删除文件系统根目录: ".toList ++ resolved)
    else if isSameOrInside ctx (parse ctx.host ctx.homeDir) p then
      some ("拒绝删除用户主目录或其祖先目录: ".toList ++ resolved)
    else if ((systemDir ctx).map (isSameOrInside ctx p)).getD false then
      some ("拒绝删除系统目录: ".toList ++ resolved)
    else if samePath ctx resolved ctx.appDataDir then
      some ("拒绝删除 %APPDATA% 本身: ".toList ++ resolved)
    else if samePath ctx resolved ctx.localAppDataDir then
      some ("拒绝删除 %LOCALAPPDATA% 本身: ".toList ++ resolved)
    else none

/-! ## The data root -/

/-- A data root that is configured; the reason is the one why it is unsafe. -/
structure DataRootResolution where
  path : Path
  reason : Option Text

/-- `t?.trim()`, where that is not empty. -/
def given (t : Option Text) : Option Text :=
  match t with
  | some t => if Workspace.Desktop.trim t = [] then none else some (Workspace.Desktop.trim t)
  | none => none

def resolveExplicitDataRoot : Option DataRootResolution :=
  match given ctx.registryDataRoot with
  | some registry =>
    let resolved := resolve ctx.host (parse ctx.host registry)
    some ⟨resolved, isSafeDeletionRoot ctx resolved⟩
  | none =>
    match given ctx.miqiHome with
    | some envHome =>
      let resolved := resolve ctx.host (parse ctx.host envHome)
      some ⟨resolved, isSafeDeletionRoot ctx resolved⟩
    | none => none

inductive CandidateKind
  | default
  | legacy
  | custom
  | notACandidate
  deriving DecidableEq

def classifyDataRootCandidate (dir : Path) : CandidateKind :=
  let resolved := text ctx.host (resolve ctx.host dir)
  match candidateNames.find? fun name =>
      samePath ctx resolved (text ctx.host (joinText ctx.host ctx.homeDir name)) with
  | some name => if name = legacyName then .legacy else .default
  | none =>
    match resolveExplicitDataRoot ctx with
    | some ⟨path, none⟩ =>
      if samePath ctx resolved (text ctx.host path) then .custom else .notACandidate
    | _ => .notACandidate

def resolveActiveDataRoot : Path :=
  match given ctx.miqiHome with
  | some envHome => resolve ctx.host (parse ctx.host envHome)
  | none =>
    let defaultDir := joinText ctx.host ctx.homeDir defaultName
    let legacyDir := joinText ctx.host ctx.homeDir legacyName
    if ctx.dirExists legacyDir && !ctx.dirExists defaultDir then legacyDir else defaultDir

/-- The data root that is shown, and that a run deletes from. -/
def primaryRoot : Path :=
  match resolveExplicitDataRoot ctx with
  | some ⟨path, none⟩ => path
  | _ => resolveActiveDataRoot ctx

/-! ## The items -/

inductive ItemKind
  | workspace
  | dataRoot
  | userData
  | wslDistro
  | updaterCache
  deriving DecidableEq

structure CleanupItem where
  /-- The kind, which is also the id. -/
  kind : ItemKind
  label : Text
  path : Option Path
  excludes : List Path

/-- The user data directory that is to be deleted; `none` where its text is empty. -/
def userDataPath : Option Path :=
  match ctx.userDataDir with
  | some t => if t = [] then none else some (parse ctx.host t)
  | none => some (joinText ctx.host ctx.appDataDir packagedUserDataDirName)

def updaterPath : Path := joinText ctx.host ctx.localAppDataDir updaterCacheDirName

def workspacePath : Path := join (primaryRoot ctx) workspaceName

def planCleanupItems : List CleanupItem :=
  [⟨.workspace, "工作目录（用户文档）".toList, some (workspacePath ctx), []⟩,
    ⟨.dataRoot, "数据根其余内容".toList, some (primaryRoot ctx), [workspacePath ctx]⟩,
    ⟨.userData, "应用用户数据".toList, userDataPath ctx, []⟩,
    ⟨.wslDistro, "WSL 沙箱发行版 AIShadowSandbox".toList, none, []⟩,
    ⟨.updaterCache, "自动更新缓存".toList, some (updaterPath ctx), []⟩]

/-! ## What the checks exclude -/

/-- The names below a directory look like a path that leads out of it, or like an absolute one. -/
def Slips (dir p : Path) : Prop :=
  ['.', '.'] <+: below ctx.host dir p ∨ isAbsolute ctx.host (below ctx.host dir p) = true

theorem isSameOrInside_of_prefix {p base : Path}
    (hp : place ctx.host base <+: place ctx.host p) :
    isSameOrInside ctx p base = true ∨ Slips ctx base p := by
  rw [isSameOrInside, relative_of_prefix ctx.host hp, Slips]
  split
  · exact Or.inl rfl
  · cases hdots : ['.', '.'].isPrefixOf (below ctx.host base p) with
    | true => exact Or.inr (Or.inl (List.isPrefixOf_iff_prefix.mp hdots))
    | false =>
      cases habs : isAbsolute ctx.host (below ctx.host base p) with
      | true => exact Or.inr (Or.inr rfl)
      | false => exact Or.inl rfl

theorem below_resolve (h : Host) (dir p : Path) : below h (resolve h dir) p = below h dir p := by
  rw [below, below, resolve_resolve]

/-- A directory that passes the check neither contains the home directory nor is in the system
directory, as far as the names below do not slip. -/
theorem safe_root {dir : Path} (hsafe : isSafeDeletionRoot ctx dir = none) :
    (place ctx.host dir <+: place ctx.host (parse ctx.host ctx.homeDir) →
      Slips ctx dir (parse ctx.host ctx.homeDir)) ∧
    ∀ s ∈ systemDir ctx, place ctx.host s <+: place ctx.host dir → Slips ctx s dir := by
  have hchecks : isSameOrInside ctx (parse ctx.host ctx.homeDir) (resolve ctx.host dir) = false ∧
      ∀ s ∈ systemDir ctx, isSameOrInside ctx (resolve ctx.host dir) s = false := by
    unfold isSafeDeletionRoot at hsafe
    dsimp only at hsafe
    repeat' split at hsafe
    all_goals try cases hsafe
    rename_i hhome hsystem _ _
    refine ⟨by simpa using hhome, fun s hs => ?_⟩
    rw [hs] at hsystem
    simpa using hsystem
  obtain ⟨hhome, hsystem⟩ := hchecks
  constructor
  · intro hp
    rw [← place_resolve ctx.host dir] at hp
    rcases isSameOrInside_of_prefix ctx hp with hin | hslip
    · rw [hhome] at hin
      cases hin
    · rw [Slips, below_resolve] at hslip
      exact hslip
  · intro s hs hp
    rw [← place_resolve ctx.host dir] at hp
    rcases isSameOrInside_of_prefix ctx hp with hin | hslip
    · rw [hsystem s hs] at hin
      cases hin
    · rw [Slips, below, resolve_resolve] at hslip
      exact hslip

end MiqroForge.Cleanup
