import MiqroForge.Library.Paths

/-!
How the file tools read a path: `_norm_host_path`, `_redirect_path_to_session`,
`_redirect_new_file_write`, `_resolve_path` and `_reject_foreign_session_path` of `filesystem.py`,
and `normalize_session_prefixed` of `paths.py`.
-/

namespace MiqroForge.Workspace.ToolPaths

open PyText Paths

/-- The parts of a resolved path. -/
abbrev Place := List Text

/-- `pathlib` and `os.path` of the platform, on texts. -/
structure Host where
  /-- `os.path.normpath` -/
  normpath : Text → Text
  /-- `Path(t).is_absolute()` -/
  isAbsolute : Text → Bool
  /-- `str(Path(t).expanduser())`; `none` when it raises. -/
  expanduser : Text → Option Text
  /-- `str(Path(a) / b)` -/
  join : Text → Text → Text
  /-- `Path(t).parts` -/
  parts : Text → List Text
  /-- `str(Path(t).parent)` -/
  parent : Text → Text
  lower : Text → Text
  /-- `Path(t).resolve()`; `none` when it raises. -/
  resolve : Text → Option Place
  /-- `Path(t).absolute()` -/
  absolute : Text → Place
  /-- `str` of a resolved path. -/
  text : Place → Text
  /-- The path is its own parent. -/
  isRoot : Place → Bool
  /-- `os.path.normcase`, and what paths are compared by. -/
  normcase : Place → Place
  normcase_idem : ∀ p, normcase (normcase p) = normcase p

/-- A directory that is there, with the place it resolves to. -/
structure Directory (host : Host) where
  path : Text
  place : Place
  resolves : host.resolve path = some place

/-! ## Texts -/

/-- `path.replace("\\", "/")` -/
def forward (t : Text) : Text := t.map fun c => if c = '\\' then '/' else c

/-- What `(.*)$` takes of a text. -/
def restOfLine? (t : Text) : Option Text :=
  let line := t.takeWhile (· ≠ '\n')
  if t = line ∨ t = line ++ ['\n'] then some line else none

/-- `^([a-zA-Z]):/` -/
def drive? : Text → Option (Char × Text)
  | c :: ':' :: '/' :: rest => if c.isAlpha then some (c, rest) else none
  | _ => none

/-- `^/mnt/([a-zA-Z])/` -/
def mount? (t : Text) : Option (Char × Text) :=
  if "/mnt/".toList.isPrefixOf t then
    match t.drop 5 with
    | c :: '/' :: rest => if c.isAlpha then some (c, rest) else none
    | _ => none
  else none

/-- A match with the rest of the line. -/
def withRest? (m : Option (Char × Text)) : Option (Char × Text) :=
  m.bind fun (c, rest) => (restOfLine? rest).map fun line => (c, line)

def onDrive (c : Char) (rest : Text) : Text := c.toUpper :: ':' :: '/' :: rest

def isAbsoluteHostPath (path : Text) : Bool :=
  let s := forward path
  (drive? s).isSome || (mount? s).isSome || s.head? == some '/'

/-- `norm == root or norm.startswith(root + "/")` -/
def textBelow (root norm : Text) : Bool := norm == root || (root ++ ['/']).isPrefixOf norm

def rootExemptSubdirs : List Text :=
  ["memory".toList, "skills".toList, ".skills".toList, "sessions".toList]

section Host
variable (host : Host)

/-- `Path(path).suffix` -/
def suffix (path : Text) : Text :=
  let name := (host.parts path).getLastD []
  let extension := (name.reverse.takeWhile (· ≠ '.')).reverse
  if extension = [] ∨ name.length ≤ extension.length + 1 then [] else '.' :: extension

/-- `write_file` makes no Office files. -/
def isOffice (path : Text) : Bool :=
  [".docx".toList, ".xlsx".toList, ".pptx".toList].contains (host.lower (suffix host path))

def normHostPath (path : Text) : Text :=
  let s := forward path
  let s := match withRest? (mount? s) with
    | some (c, rest) => onDrive c rest
    | none => s
  let s := match withRest? (drive? s) with
    | some (c, rest) => onDrive c rest
    | none => s
  let s := if host.isAbsolute s then
      match host.resolve s with
      | some place => forward (host.text place)
      | none => s
    else s
  forward (host.normpath s)

/-- The normalized text of a directory that is there. -/
def Directory.norm {host : Host} (dir : Directory host) : Text :=
  rstripSlash (normHostPath host (host.text dir.place))

/-- The last branch of `_redirect_path_to_session`: `/mnt/` spellings stay so. -/
def sessionSpelling (path rel : Text) (sess : Directory host) : Text :=
  let s := forward path
  let kept := if "/mnt/".toList.isPrefixOf s then
      match withRest? (mount? s), withRest? (drive? sess.norm) with
      | some (c, _), some (_, below) =>
        some ("/mnt/".toList ++ c.toLower :: '/' :: (below ++ '/' :: rel))
      | _, _ => none
    else none
  kept.getD (host.join sess.path rel)

def redirectPathToSession (path : Text) (base sess : Directory host) : Option Text :=
  if isAbsoluteHostPath path then
    let norm := normHostPath host path
    let rel := (norm.drop base.norm.length).dropWhile (· = '/')
    if !textBelow base.norm norm then none
    else if textBelow sess.norm norm then none
    else if rel = [] then none
    else if rootExemptSubdirs.contains (firstPart rel) then none
    else some (sessionSpelling host path rel sess)
  else
    let normRel := host.normpath (forward path)
    if normRel = "..".toList ∨ "../".toList.isPrefixOf normRel then none
    else some (host.join sess.path normRel)

/-- `_redirect_new_file_write`. The probe is `none` when it raises. -/
def redirectNewFileWrite (path : Text) (base : Directory host) (sess : Option (Directory host))
    (probe : Option Bool) : Text :=
  match sess.bind (redirectPathToSession host path base) with
  | none => path
  | some redirected =>
    if redirected = path then path
    else if probe = some false then redirected
    else path

/-! ## Places -/

/-- `target.relative_to(root)` does not raise. -/
def within (root target : Place) : Bool := (host.normcase root).isPrefixOf (host.normcase target)

/-- `_reject_foreign_session_path`, which raises. -/
def isForeign (resolved : Place) (base : Directory host) (sess : Option (Directory host)) : Bool :=
  match sess with
  | none => false
  | some sess =>
    within host (base.place ++ ["sessions".toList]) resolved && !within host sess.place resolved

def normalizeDeclaredSeparators (raw : Text) : Text :=
  let normalized := forward raw
  if raw.head? = some '\\' ∧ ¬ ['\\', '\\'] <+: raw ∧ normalized.head? = some '/' then
    normalized.tail
  else normalized

/-- `session_files_layout`, of the parts of the workspace. -/
def sessionFilesKey (workspace : Text) : Option Text :=
  match (host.parts workspace).reverse with
  | files :: key :: sessions :: _ =>
    if files = "files".toList ∧ sessions = "sessions".toList then some key else none
  | _ => none

/-- `normalize_session_prefixed`; `none` where it raises. -/
def normalizeSessionPrefixed (rel : Text) (workspace : Directory host) : Option (Option Text) :=
  match sessionFilesKey host workspace.path with
  | none => some none
  | some key =>
    match host.parts (normalizeDeclaredSeparators rel) with
    | first :: other :: third :: rest =>
      if host.lower first ≠ "sessions".toList ∨ host.lower third ≠ "files".toList then some none
      else if other ≠ key then none
      else
        let base := host.parent (host.parent (host.parent workspace.path))
        let candidate := (first :: other :: third :: rest).foldl host.join base
        match host.resolve candidate with
        | none => none
        | some place => if within host workspace.place place then some (some candidate) else none
    | _ => some none

/-- A path below the workspace, at the directory of the sandbox that runs without WSL. -/
def remapped (sandboxRoot : Option Text) (workspace : Directory host) (p : Text) : Text :=
  match sandboxRoot, host.resolve p with
  | some root, some place =>
    if within host workspace.place place then
      host.join root (Paths.join (place.drop workspace.place.length))
    else p
  | _, _ => p

/-- The first lines of `_resolve_path`: the path as it is looked for on the host. -/
def hostPath (sandboxRoot : Option Text) (workspace : Directory host) (path : Text) : Option Text :=
  (host.expanduser path).bind fun p =>
    let anchored := if host.isAbsolute p then some p else
      (normalizeSessionPrefixed host p workspace).map fun inFiles =>
        inFiles.getD (host.join workspace.path p)
    anchored.map (remapped host sandboxRoot workspace)

/-- The check of `_resolve_path`. -/
def isAllowed (allowed : Option Place) (shared : List Place) (resolved : Place) : Bool :=
  match allowed with
  | none => true
  | some dir => within host dir resolved || shared.any fun root => within host root resolved

/-- `_resolve_path`; `none` where it raises. Whether a link stands on the way is read from the file
system. -/
def resolvePath (linked : Text → Bool) (sandboxRoot : Option Text) (allowed : Option Place)
    (shared : List Place) (workspace : Directory host) (path : Text) : Option Place :=
  (hostPath host sandboxRoot workspace path).bind fun p =>
    if allowed.isSome && linked p then none
    else (host.resolve p).filter (isAllowed host allowed shared)

/-! ## The sandbox of WSL, on Windows -/

/-- `^/mnt/([a-z])/(.+)$` -/
def mounted? (t : Text) : Option (Char × Text) :=
  (withRest? (mount? t)).filter fun (c, rest) => c.isLower && !rest.isEmpty

def mountText (c : Char) (rest : Text) : Text := "/mnt/".toList ++ c.toLower :: '/' :: rest

/-- `^([A-Za-z]):/(.+)$` -/
def driveLine? (t : Text) : Option (Char × Text) :=
  (withRest? (drive? t)).filter fun (_, rest) => !rest.isEmpty

/-- `^([A-Za-z]):[/\\](.+)$` -/
def windowsPath? : Text → Option (Char × Text)
  | c :: ':' :: slash :: rest =>
    if c.isAlpha && (slash == '/' || slash == '\\') then
      ((restOfLine? rest).filter fun line => !line.isEmpty).map fun line => (c, forward line)
    else none
  | _ => none

/-- A path in the sandbox; the place of the host it was checked to be, where it was. -/
structure SandboxPath where
  text : Text
  place : Option Place

/-- `_canonicalize_wsl_mnt_path`; `none` where it raises. Whether a root is a file is read from the
file system. -/
def canonicalizeWslMntPath (isFile : Place → Bool) (mntPath : Text) (workspace : Directory host)
    (extraRoots : List Place) (sess : Option (Directory host)) : Option SandboxPath :=
  match mounted? mntPath with
  | none => some ⟨mntPath, none⟩
  | some (c, rest) =>
    match host.resolve (host.normpath (onDrive c rest)) with
    | none => none
    | some resolved =>
      let holds (root : Place) :=
        if isFile root then resolved == root else within host root resolved
      let foreign := sess.any fun sess => decide (3 ≤ sess.place.length) &&
        within host sess.place.dropLast.dropLast resolved && !within host sess.place resolved
      if !(workspace.place :: extraRoots).any holds then none
      else if foreign then none
      else
        match driveLine? (forward (host.text resolved)) with
        | some (d, below) => some ⟨mountText d below, some resolved⟩
        | none => some ⟨mntPath, some resolved⟩

/-- The path in the sandbox before it is checked, and whether `_resolve_sandbox_path` checks it. -/
def sandboxSpelling (path : Text) (workspace : Directory host) (sandboxWorkspace : Text) :
    Text × Bool :=
  match windowsPath? path with
  | some (c, rest) => (mountText c rest, true)
  | none =>
    if path.head? = some '/' then (path, (workspace.path.drop 1).head? == some ':')
    else
      let ws := forward (host.text workspace.place)
      match driveLine? ws with
      | some (c, below) => (mountText c (rstripSlash below ++ '/' :: path), true)
      | none =>
        let inside := forward sandboxWorkspace
        let subdir := if inside.isPrefixOf ws ∧ ws ≠ inside then
            '/' :: (ws.drop inside.length).dropWhile (· = '/') else []
        ("/home/miqi/workspace".toList ++ subdir ++ '/' :: path, false)

def resolveSandboxPath (isFile : Place → Bool) (path : Text) (workspace : Directory host)
    (sandboxWorkspace : Text) (extraRoots : List Place) (sess : Option (Directory host)) :
    Option SandboxPath :=
  let (spelling, checked) := sandboxSpelling host path workspace sandboxWorkspace
  if checked then canonicalizeWslMntPath host isFile spelling workspace extraRoots sess
  else some ⟨spelling, none⟩

def sandboxToHostPath (sandboxPath : Text) (workspace : Directory host) : Text :=
  let inside := "/home/miqi/workspace".toList
  match mounted? sandboxPath with
  | some (c, rest) => onDrive c rest
  | none =>
    let root := forward (host.text workspace.place)
    if sandboxPath = inside then root
    else if (inside ++ ['/']).isPrefixOf sandboxPath then
      root ++ '/' :: sandboxPath.drop (inside.length + 1)
    else sandboxPath

end Host

theorem within_normcase {host : Host} (root target : Place) :
    within host (host.normcase root) target = within host root target := by
  rw [within, within, host.normcase_idem]

theorem within_trans {host : Host} {p q r : Place} (h : within host p q = true)
    (h' : within host q r = true) : within host p r = true := by
  rw [within, List.isPrefixOf_iff_prefix] at *
  exact List.IsPrefix.trans h h'

theorem resolvePath_allowed {host : Host} {linked : Text → Bool} {sandboxRoot : Option Text}
    {dir : Place} {shared : List Place} {workspace : Directory host} {path : Text} {place : Place}
    (h : resolvePath host linked sandboxRoot (some dir) shared workspace path = some place) :
    within host dir place = true ∨ ∃ root ∈ shared, within host root place = true := by
  obtain ⟨p, -, h⟩ := Option.bind_eq_some_iff.mp h
  split at h
  · cases h
  · have hin := (Option.filter_eq_some_iff.mp h).2
    simpa [isAllowed] using hin

end MiqroForge.Workspace.ToolPaths
