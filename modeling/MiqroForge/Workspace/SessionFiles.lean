import MiqroForge.Library.RealPaths
import MiqroForge.Sessions.Directory

/-!
The paths the file handlers accept: `_validate_file_path` of `file_handlers.py` on POSIX, over a tree
of files with symbolic links.
-/

namespace MiqroForge.Workspace.SessionFiles

open PyText PosixPaths LinkedFiles RealPaths Sessions List

/-! ## The setting of a call -/

structure Setting where
  tree : Tree
  /-- How long links that lead to one another can be. -/
  links : Nat
  cwd : List Text
  /-- `_get_workspace_path`, which is resolved. -/
  workspace : List Text
  workspace_canonical : Canonical tree workspace
  clientId : Text
  /-- No session key is the empty one. -/
  sessionKey : Text
  /-- The owner on disk of the session with the key. -/
  owner : Option Text
  /-- `_session_root`, resolved. -/
  boundRoot : Option { root : List Text // Canonical tree root }
  /-- Whether the directory for the session's files is there or can be made. -/
  filesDirMade : Bool

inductive Refusal
  | pathRequired
  | invalidFilePath
  | outsideWorkspace (filePath : Text)
  | invalidSessionKey
  | requiresClaim
  | unauthorized (owner : Text)
  | filesDir
  | escapesSession (filePath : Text)
  | escapesWorkspace (filePath : Text)
  | insideSessions (filePath : Text)
  deriving DecidableEq

/-! ## Session directories -/

/-- `str.upper`, as far as a result in ASCII letters goes. -/
def upper (c : Char) : Char := if c = 'ı' then 'I' else if c = 'ſ' then 'S' else c.toUpper

def windowsReservedNames : List Text :=
  [['C', 'O', 'N'], ['P', 'R', 'N'], ['A', 'U', 'X'], ['N', 'U', 'L'],
    ['C', 'O', 'N', 'I', 'N', '$'], ['C', 'O', 'N', 'O', 'U', 'T', '$']] ++
  "0123456789".toList.map (fun d => ['C', 'O', 'M', d]) ++
  "0123456789".toList.map (fun d => ['L', 'P', 'T', d])

def sessionDirKey (sessionKey : Text) : Option Text :=
  let safeKey := sessionFilesDirKey sessionKey
  if safeKey = [] ∨ safeKey = ['.'] ∨ safeKey = dotdot ∨ safeKey.getLast? = some '.' ∨
      safeKey.getLast? = some ' ' then none
  else if '/' ∈ safeKey ∨ '\\' ∈ safeKey then none
  else if (safeKey.takeWhile (· ≠ '.')).map upper ∈ windowsReservedNames then none
  else some safeKey

def sessionsDirName : Text := ['s', 'e', 's', 's', 'i', 'o', 'n', 's']

def filesDirName : Text := ['f', 'i', 'l', 'e', 's']

def reservedRootDirs : List Text :=
  [sessionsDirName,
    ['_', 'l', 'e', 'g', 'a', 'c', 'y', '_', 's', 'e', 's', 's', 'i', 'o', 'n', 's']]

/-! ## Path texts -/

def sandboxWorkspacePrefix : Text :=
  ['/', 'h', 'o', 'm', 'e', '/', 'm', 'i', 'q', 'i', '/', 'w', 'o', 'r', 'k', 's', 'p', 'a', 'c', 'e']

def stripSandboxPrefix (filePath : Text) : Text :=
  if filePath = sandboxWorkspacePrefix then ['.']
  else filePath.drop (sandboxWorkspacePrefix.length + 1)

def isSandboxPath (filePath : Text) : Bool :=
  filePath == sandboxWorkspacePrefix || (sandboxWorkspacePrefix ++ ['/']).isPrefixOf filePath ||
    (sandboxWorkspacePrefix ++ ['\\']).isPrefixOf filePath

def isHostPath (filePath : Text) : Bool :=
  filePath.head? == some '/' || filePath.head? == some '\\'

/-- `root / file_path`. -/
def joined (root : List Text) (filePath : Text) : Text :=
  if isAbsolute filePath then filePath else '/' :: (Paths.join root ++ '/' :: filePath)

/-- `str(path)` of a relative path of these names. -/
def relativeText (names : List Text) : Text := if names = [] then ['.'] else Paths.join names

def isWithin (path root : List Text) : Bool := root.isPrefixOf path

namespace Setting

variable (s : Setting)

def resolveUnder (root : List Text) (filePath : Text) : Except Refusal (List Text) :=
  match realpath s.tree (s.links + 1) [] (joined root filePath) with
  | some q => .ok q
  | none => .error .invalidFilePath

def requireOwnedSession : Except Refusal Unit :=
  match s.owner with
  | none => .error .requiresClaim
  | some owner => if owner ≠ s.clientId then .error (.unauthorized owner) else .ok ()

def reservedRoots : List (List Text) := reservedRootDirs.map fun name => s.workspace ++ [name]

/-- The directory of the session with this name in the workspace. -/
def sessionDir (safeKey : Text) : List Text := s.workspace ++ [sessionsDirName, safeKey]

/-- `_resolve_session_files_path`, with the name of the session's directory. -/
def sessionFilesPath (safeKey : Text) : Except Refusal (List Text) := do
  s.requireOwnedSession
  if s.filesDirMade then
    match s.boundRoot with
    | some root => .ok root
    | none => .ok (s.sessionDir safeKey ++ [filesDirName])
  else .error .filesDir

/-- The session's part of `_validate_file_path`. -/
def validateForSession (filePath : Text) (absoluteInWorkspace : Bool) :
    Except Refusal (List Text) := do
  match sessionDirKey s.sessionKey with
  | none => .error .invalidSessionKey
  | some safeKey =>
    s.requireOwnedSession
    let sessionFiles ← s.sessionFilesPath safeKey
    let ownArea := if s.boundRoot.isSome then sessionFiles else sessionFiles.dropLast
    let workspaceCandidate ← s.resolveUnder s.workspace filePath
    if isWithin workspaceCandidate ownArea then .ok workspaceCandidate
    else if s.reservedRoots.any (isWithin workspaceCandidate) then
      .error (.escapesSession filePath)
    else if absoluteInWorkspace then
      if isWithin workspaceCandidate s.workspace then .ok workspaceCandidate
      else .error (.escapesSession filePath)
    else
      let sessionCandidate ← s.resolveUnder sessionFiles filePath
      if isWithin sessionCandidate sessionFiles then .ok sessionCandidate
      else if isWithin workspaceCandidate s.workspace then .ok workspaceCandidate
      else .error (.escapesSession filePath)

/-- The workspace's part of `_validate_file_path`. -/
def validateForWorkspace (filePath : Text) : Except Refusal (List Text) := do
  let resolved ← s.resolveUnder s.workspace filePath
  if isWithin resolved s.workspace = false then .error (.escapesWorkspace filePath)
  else if s.reservedRoots.any (isWithin resolved) then .error (.insideSessions filePath)
  else .ok resolved

/-- What follows the normalization of absolute paths. -/
def validateRelative (filePath : Text) (absoluteInWorkspace : Bool) :
    Except Refusal (List Text) :=
  if s.sessionKey ≠ [] then s.validateForSession filePath absoluteInWorkspace
  else s.validateForWorkspace filePath

/-- The bound folder counts only with a session key. -/
def boundFolder : Option (List Text) :=
  if s.sessionKey ≠ [] then s.boundRoot.map Subtype.val else none

def validateFilePath (filePath : Text) : Except Refusal (List Text) := do
  if filePath = [] then .error .pathRequired
  else if isSandboxPath filePath then s.validateRelative (stripSandboxPrefix filePath) false
  else if isHostPath filePath then
    let candidate ← s.resolveUnder s.cwd filePath
    if s.boundFolder.any (isWithin candidate) then
      s.requireOwnedSession
      .ok candidate
    else if isWithin candidate s.workspace = false then .error (.outsideWorkspace filePath)
    else s.validateRelative (relativeText (candidate.drop s.workspace.length)) true
  else s.validateRelative filePath false

/-! ## What the boundary asks for -/

/-- Where a directory really is. -/
def realDir (dir : List Text) : Option (List Text) :=
  realpath s.tree (s.links + 1) [] ('/' :: Paths.join dir)

/-- The session's own directory. -/
def InOwn (q : List Text) : Prop :=
  ∃ safeKey own, sessionDirKey s.sessionKey = some safeKey ∧
    s.realDir (s.sessionDir safeKey) = some own ∧ own <+: q

/-- The directory of a session that is not the caller's. -/
def OtherSession (f : List Text) : Prop :=
  ∃ key safeKey, sessionDirKey key = some safeKey ∧
    sessionDirKey s.sessionKey ≠ some safeKey ∧ s.realDir (s.sessionDir safeKey) = some f

def Reserved (f : List Text) : Prop := ∃ root ∈ s.reservedRoots, s.realDir root = some f

/-- A place that an operation with a session key may reach. -/
structure InSession (q : List Text) : Prop where
  within : s.InOwn q ∨ (∃ b ∈ s.boundRoot, b.val <+: q) ∨ s.workspace <+: q
  others : ∀ f, s.OtherSession f → ¬ f <+: q
  reserved : ∀ f, s.Reserved f → f <+: q → s.InOwn q

/-- A place that an operation without a session key may reach. -/
structure InWorkspace (q : List Text) : Prop where
  within : s.workspace <+: q
  reserved : ∀ f, s.Reserved f → ¬ f <+: q

def Inside (q : List Text) : Prop :=
  if s.sessionKey = [] then s.InWorkspace q else s.InSession q

/-! ## What is accepted -/

/-- All places below a root but those below some directories. -/
structure Area where
  root : List Text
  shut : List (List Text)

def Area.Shut (a : Area) (q : List Text) : Prop := ∃ d ∈ a.shut, d <+: q

/-- The areas whose places are accepted. -/
def areas : List Area :=
  let rest := [⟨s.workspace, s.reservedRoots⟩]
  if s.sessionKey = [] then rest
  else if s.owner ≠ some s.clientId then []
  else
    (s.boundRoot.map fun b => ⟨b.val, []⟩).toList ++
      match sessionDirKey s.sessionKey with
      | some safeKey =>
        if s.filesDirMade then
          (if s.boundRoot.isSome then [] else [⟨s.sessionDir safeKey, []⟩]) ++ rest
        else []
      | none => []

/-- A place in one of the areas. -/
def Accepted (q : List Text) : Prop :=
  Canonical s.tree q ∧ ∃ a ∈ s.areas, a.root <+: q ∧ ¬ a.Shut q

/-- No place of the area is out of bounds: what lies nested with its root is shut. -/
structure Area.Sealed (a : Area) : Prop where
  others : s.sessionKey ≠ [] → ∀ f, s.OtherSession f → Nested a.root f → a.Shut (inner a.root f)
  reserved : ∀ f, s.Reserved f → Nested a.root f →
    a.Shut (inner a.root f) ∨ s.InOwn (inner a.root f)

/-- Every area that is reached is sealed. -/
def Sealed : Prop := ∀ a ∈ s.areas, Canonical s.tree a.root → Area.Sealed s a

variable {s}

/-! ## Single steps -/

theorem bind_ok {α β : Type} {x : Except Refusal α} {f : α → Except Refusal β} {b : β}
    (h : x >>= f = .ok b) : ∃ a, x = .ok a ∧ f a = .ok b := by
  cases x with
  | error e => cases h
  | ok a => exact ⟨a, rfl, h⟩

theorem isWithin_iff {path root : List Text} : isWithin path root = true ↔ root <+: path :=
  isPrefixOf_iff_prefix

theorem resolveUnder_canonical {root q : List Text} {filePath : Text}
    (h : s.resolveUnder root filePath = .ok q) : Canonical s.tree q := by
  unfold resolveUnder at h
  split at h
  · rename_i hq
    obtain rfl := Except.ok.inj h
    exact realpath_canonical canonical_nil hq
  · cases h

theorem realDir_canonical {dir f : List Text} (h : s.realDir dir = some f) : Canonical s.tree f :=
  realpath_canonical canonical_nil h

theorem owned_of_ok {u : Unit} (h : s.requireOwnedSession = .ok u) : s.owner = some s.clientId := by
  unfold requireOwnedSession at h
  split at h
  · cases h
  · rename_i owner howner
    split at h
    · cases h
    · rename_i heq
      rw [howner, not_not.mp heq]

theorem requireOwnedSession_owned (h : s.owner = some s.clientId) :
    s.requireOwnedSession = .ok () := by
  rw [requireOwnedSession, h]
  exact if_neg fun hne => hne rfl

variable {q : List Text}

theorem reserved_any_iff :
    s.reservedRoots.any (isWithin q) = true ↔ Area.Shut ⟨s.workspace, s.reservedRoots⟩ q := by
  rw [any_eq_true]
  exact exists_congr fun d => and_congr_right fun _ => isWithin_iff

theorem resolveUnder_relative (hq : Canonical s.tree q) (hws : s.workspace <+: q) :
    s.resolveUnder s.workspace (relativeText (q.drop s.workspace.length)) = .ok q := by
  obtain ⟨rest, rfl⟩ := hws
  rw [drop_left]
  have hwsEntries : ∀ c ∈ s.workspace, Entry c := s.workspace_canonical.entries
  have hrestEntries : ∀ c ∈ rest, Entry c := fun c hc => hq.entries c (mem_append_right _ hc)
  have hsegments : segments (relativeText rest) = rest := by
    unfold relativeText
    split
    · rename_i hnil
      rw [hnil]
      rfl
    · exact segments_join fun c hc => (hrestEntries c hc).1
  have hrelative : isAbsolute (relativeText rest) = false := by
    unfold relativeText
    split
    · rfl
    · rename_i hne
      obtain ⟨c, cs, rfl⟩ := exists_cons_of_ne_nil hne
      have hc := (hrestEntries c mem_cons_self).1
      obtain ⟨x, c, rfl⟩ := exists_cons_of_ne_nil hc.2.1
      have hx : x ≠ '/' := fun heq => hc.1 (heq ▸ mem_cons_self)
      cases cs <;> simp [isAbsolute, Paths.join, hx]
  have hnul : '\x00' ∉ relativeText rest := by
    unfold relativeText
    split
    · decide
    · exact not_nul_join hrestEntries
  have hjoined : joined s.workspace (relativeText rest) =
      '/' :: (Paths.join s.workspace ++ '/' :: relativeText rest) := by
    rw [joined, if_neg (by rw [hrelative]; exact Bool.false_ne_true)]
  rw [resolveUnder, hjoined, realpath_self s.links [] hq rfl]
  · intro hmem
    rcases mem_cons.mp hmem with hslash | hmem
    · cases hslash
    · rcases mem_append.mp hmem with hmem | hmem
      · exact not_nul_join hwsEntries hmem
      · rcases mem_cons.mp hmem with hslash | hmem
        · cases hslash
        · exact hnul hmem
  · rw [segments_slash, segments_append, segments_join fun c hc => (hwsEntries c hc).1, hsegments]

/-- An absolute text of a place that does not name the sandbox. -/
def placeText (q : List Text) : Text := '/' :: '.' :: '/' :: (Paths.join q ++ ['/', '.'])

theorem resolveUnder_placeText (hq : Canonical s.tree q) :
    s.resolveUnder s.cwd (placeText q) = .ok q := by
  have hjoined : joined s.cwd (placeText q) = placeText q := rfl
  rw [resolveUnder, hjoined, realpath_self s.links [] hq rfl]
  · intro hmem
    have hin : '\x00' ∈ Paths.join q := by simpa [placeText] using hmem
    exact not_nul_join hq.entries hin
  · have happend : placeText q = ['/', '.'] ++ '/' :: (Paths.join q ++ '/' :: ['.']) := rfl
    rw [happend, segments_append, segments_append, segments_join fun c hc => (hq.entries c hc).1]
    exact append_nil q

/-! ## The accepted places -/

theorem areas_nil (h : s.sessionKey = []) : s.areas = [⟨s.workspace, s.reservedRoots⟩] := by
  rw [areas, if_pos h]

theorem mem_areas_bound (hkey : s.sessionKey ≠ []) (howned : s.owner = some s.clientId)
    {b : { root : List Text // Canonical s.tree root }} (hb : s.boundRoot = some b) :
    ⟨b.val, []⟩ ∈ s.areas := by
  rw [areas, if_neg hkey, if_neg (not_not.mpr howned), hb]
  exact mem_append_left _ mem_cons_self

theorem mem_areas_session {safeKey : Text} (hkey : s.sessionKey ≠ [])
    (howned : s.owner = some s.clientId) (hsafe : sessionDirKey s.sessionKey = some safeKey)
    (hmade : s.filesDirMade = true) :
    ⟨s.workspace, s.reservedRoots⟩ ∈ s.areas ∧
      (s.boundRoot = none → ⟨s.sessionDir safeKey, []⟩ ∈ s.areas) := by
  rw [areas, if_neg hkey, if_neg (not_not.mpr howned), hsafe]
  dsimp only
  rw [if_pos hmade]
  constructor
  · simp
  · intro hb
    simp [hb]

theorem accepted_open {q root : List Text} (hq : Canonical s.tree q) (ha : ⟨root, []⟩ ∈ s.areas)
    (hroot : root <+: q) : s.Accepted q := by
  refine ⟨hq, _, ha, hroot, ?_⟩
  rintro ⟨d, hd, -⟩
  cases hd

theorem accepted_rest (hq : Canonical s.tree q)
    (ha : ⟨s.workspace, s.reservedRoots⟩ ∈ s.areas) (hws : s.workspace <+: q)
    (hreserved : ¬ s.reservedRoots.any (isWithin q) = true) : s.Accepted q :=
  ⟨hq, _, ha, hws, fun hshut => hreserved (reserved_any_iff.mpr hshut)⟩

theorem validateForWorkspace_accepted {filePath : Text} {q : List Text} (hkey : s.sessionKey = [])
    (h : s.validateForWorkspace filePath = .ok q) : s.Accepted q := by
  obtain ⟨p, hp, h⟩ := bind_ok h
  split at h
  · cases h
  · rename_i hws
    split at h
    · cases h
    · rename_i hreserved
      obtain rfl := Except.ok.inj h
      exact accepted_rest (resolveUnder_canonical hp) (areas_nil hkey ▸ mem_cons_self)
        (isWithin_iff.mp (Bool.not_eq_false _ ▸ hws)) hreserved

theorem sessionFilesPath_area {safeKey : Text} {files : List Text} (hkey : s.sessionKey ≠ [])
    (hsafe : sessionDirKey s.sessionKey = some safeKey)
    (h : s.sessionFilesPath safeKey = .ok files) :
    s.owner = some s.clientId ∧ s.filesDirMade = true ∧
      ∃ root, ⟨root, []⟩ ∈ s.areas ∧ root <+: files ∧
        (if s.boundRoot.isSome then files else files.dropLast) = root := by
  obtain ⟨u, hu, h⟩ := bind_ok h
  have howned := owned_of_ok hu
  split at h
  · rename_i hmade
    refine ⟨howned, hmade, ?_⟩
    cases hb : s.boundRoot with
    | some b =>
      rw [hb] at h
      obtain rfl := Except.ok.inj h
      exact ⟨_, mem_areas_bound hkey howned hb, prefix_rfl, rfl⟩
    | none =>
      rw [hb] at h
      obtain rfl := Except.ok.inj h
      exact ⟨_, (mem_areas_session hkey howned hsafe hmade).2 hb, prefix_append _ _,
        dropLast_concat⟩
  · cases h

theorem validateForSession_accepted {filePath : Text} {absolute : Bool} {q : List Text}
    (hkey : s.sessionKey ≠ []) (h : s.validateForSession filePath absolute = .ok q) :
    s.Accepted q := by
  unfold validateForSession at h
  cases hsafe : sessionDirKey s.sessionKey with
  | none =>
    rw [hsafe] at h
    cases h
  | some safeKey =>
    rw [hsafe] at h
    obtain ⟨-, -, h⟩ := bind_ok h
    obtain ⟨files, hfiles, h⟩ := bind_ok h
    obtain ⟨howned, hmade, root, hroot, hrootFiles, hown⟩ := sessionFilesPath_area hkey hsafe hfiles
    obtain ⟨candidate, hcandidate, h⟩ := bind_ok h
    rw [hown] at h
    have hcanonical := resolveUnder_canonical hcandidate
    have hrest := (mem_areas_session hkey howned hsafe hmade).1
    split at h
    · rename_i hin
      obtain rfl := Except.ok.inj h
      exact accepted_open hcanonical hroot (isWithin_iff.mp hin)
    · split at h
      · cases h
      · rename_i hreserved
        have hworkspace : isWithin candidate s.workspace = true → s.Accepted candidate := fun hws =>
          accepted_rest hcanonical hrest (isWithin_iff.mp hws) hreserved
        split at h
        · split at h
          · rename_i hws
            obtain rfl := Except.ok.inj h
            exact hworkspace hws
          · cases h
        · obtain ⟨inner, hinner, h⟩ := bind_ok h
          split at h
          · rename_i hin
            obtain rfl := Except.ok.inj h
            exact accepted_open (resolveUnder_canonical hinner) hroot
              (List.IsPrefix.trans hrootFiles (isWithin_iff.mp hin))
          · split at h
            · rename_i hws
              obtain rfl := Except.ok.inj h
              exact hworkspace hws
            · cases h

theorem validateRelative_accepted {filePath : Text} {absolute : Bool} {q : List Text}
    (h : s.validateRelative filePath absolute = .ok q) : s.Accepted q := by
  unfold validateRelative at h
  split at h
  · rename_i hkey
    exact validateForSession_accepted hkey h
  · rename_i hkey
    exact validateForWorkspace_accepted (not_not.mp hkey) h

theorem boundFolder_any (h : s.boundFolder.any (isWithin q) = true) :
    s.sessionKey ≠ [] ∧ ∃ b, s.boundRoot = some b ∧ b.val <+: q := by
  unfold boundFolder at h
  split at h
  · rename_i hkey
    cases hb : s.boundRoot with
    | none =>
      rw [hb] at h
      cases h
    | some b =>
      rw [hb] at h
      exact ⟨hkey, b, rfl, isWithin_iff.mp h⟩
  · cases h

theorem validateFilePath_accepted {filePath : Text} {q : List Text}
    (h : s.validateFilePath filePath = .ok q) : s.Accepted q := by
  unfold validateFilePath at h
  split at h
  · cases h
  · split at h
    · exact validateRelative_accepted h
    · split at h
      · obtain ⟨candidate, hcandidate, h⟩ := bind_ok h
        split at h
        · rename_i hbound
          obtain ⟨u, hu, h⟩ := bind_ok h
          obtain rfl := Except.ok.inj h
          obtain ⟨hkey, b, hb, hin⟩ := boundFolder_any hbound
          exact accepted_open (resolveUnder_canonical hcandidate)
            (mem_areas_bound hkey (owned_of_ok hu) hb) hin
        · split at h
          · cases h
          · exact validateRelative_accepted h
      · exact validateRelative_accepted h

theorem area_cases {a : Area} (hkey : s.sessionKey ≠ []) (ha : a ∈ s.areas) :
    s.owner = some s.clientId ∧
      ((∃ b, s.boundRoot = some b ∧ a = ⟨b.val, []⟩) ∨
        ∃ safeKey, sessionDirKey s.sessionKey = some safeKey ∧ s.filesDirMade = true ∧
          ((s.boundRoot = none ∧ a = ⟨s.sessionDir safeKey, []⟩) ∨
            a = ⟨s.workspace, s.reservedRoots⟩)) := by
  rw [areas, if_neg hkey] at ha
  split at ha
  · cases ha
  · rename_i howned
    refine ⟨not_not.mp howned, ?_⟩
    rcases mem_append.mp ha with ha | ha
    · obtain ⟨b, hb, rfl⟩ := Option.map_eq_some_iff.mp (Option.mem_toList.mp ha)
      exact Or.inl ⟨b, hb, rfl⟩
    · right
      split at ha
      · rename_i safeKey hsafe
        split at ha
        · rename_i hmade
          refine ⟨safeKey, hsafe, hmade, ?_⟩
          rcases mem_append.mp ha with ha | ha
          · split at ha
            · cases ha
            · rename_i hb
              exact Or.inl ⟨Option.not_isSome_iff_eq_none.mp hb, mem_singleton.mp ha⟩
          · exact Or.inr (mem_singleton.mp ha)
        · cases ha
      · cases ha

theorem validateForWorkspace_relative (hkey : s.sessionKey = [])
    (hq : s.Accepted q) :
    s.workspace <+: q ∧
      s.validateForWorkspace (relativeText (q.drop s.workspace.length)) = .ok q := by
  obtain ⟨hcanonical, a, ha, hroot, hshut⟩ := hq
  rw [areas_nil hkey] at ha
  obtain rfl := mem_singleton.mp ha
  refine ⟨hroot, ?_⟩
  have hreserved : ¬ s.reservedRoots.any (isWithin q) = true := fun h =>
    hshut (reserved_any_iff.mp h)
  have hin : ¬ isWithin q s.workspace = false := by
    rw [isWithin_iff.mpr hroot]
    exact Bool.noConfusion
  rw [validateForWorkspace, resolveUnder_relative hcanonical hroot]
  exact (if_neg hin).trans (if_neg hreserved)

theorem validateForSession_relative (hkey : s.sessionKey ≠ []) (hq : s.Accepted q)
    (hbound : ¬ s.boundFolder.any (isWithin q) = true) :
    s.workspace <+: q ∧
      s.validateForSession (relativeText (q.drop s.workspace.length)) true = .ok q := by
  obtain ⟨hcanonical, a, ha, hroot, hshut⟩ := hq
  obtain ⟨howned, ⟨b, hb, rfl⟩ | ⟨safeKey, hsafe, hmade, harea⟩⟩ := area_cases hkey ha
  · refine absurd ?_ hbound
    rw [boundFolder, if_pos hkey, hb]
    exact isWithin_iff.mpr hroot
  have hws : s.workspace <+: q := by
    rcases harea with ⟨-, rfl⟩ | rfl
    · exact List.IsPrefix.trans (prefix_append _ _) hroot
    · exact hroot
  refine ⟨hws, ?_⟩
  have hrequire := requireOwnedSession_owned howned
  obtain ⟨files, hfiles, harea'⟩ : ∃ files, s.sessionFilesPath safeKey = .ok files ∧
      (s.boundRoot = none →
        (if s.boundRoot.isSome then files else files.dropLast) = s.sessionDir safeKey) := by
    rw [sessionFilesPath, hrequire, hmade]
    cases s.boundRoot with
    | none => exact ⟨_, rfl, fun _ => dropLast_concat⟩
    | some b => exact ⟨_, rfl, fun h => (by cases h)⟩
  have hread := resolveUnder_relative hcanonical hws
  rw [validateForSession, hsafe]
  dsimp only
  rw [hrequire, hfiles, hread]
  show (if isWithin q (if s.boundRoot.isSome then files else files.dropLast) = true then _ else _) = _
  generalize (if s.boundRoot.isSome then files else files.dropLast) = ownArea at harea' ⊢
  split
  · rfl
  · rename_i hown
    have hreserved : ¬ s.reservedRoots.any (isWithin q) = true := by
      rcases harea with ⟨hb, rfl⟩ | rfl
      · exact absurd (isWithin_iff.mpr (harea' hb ▸ hroot)) hown
      · exact fun h => hshut (reserved_any_iff.mp h)
    rw [if_neg hreserved, if_pos rfl, if_pos (isWithin_iff.mpr hws)]

theorem validateFilePath_placeText (hq : s.Accepted q) :
    s.validateFilePath (placeText q) = .ok q := by
  have hne : placeText q ≠ [] := cons_ne_nil _ _
  have hsandbox : ¬ isSandboxPath (placeText q) = true := by
    simp [isSandboxPath, placeText, sandboxWorkspacePrefix]
  have hhost : isHostPath (placeText q) = true := rfl
  rw [validateFilePath, if_neg hne, if_neg hsandbox, if_pos hhost, resolveUnder_placeText hq.1]
  show (if s.boundFolder.any (isWithin q) = true then _ else _) = _
  split
  · rename_i hbound
    obtain ⟨-, a, ha, -⟩ := hq
    have howned := (area_cases (boundFolder_any hbound).1 ha).1
    rw [requireOwnedSession_owned howned]
    rfl
  · rename_i hbound
    have hboth : s.workspace <+: q ∧
        s.validateRelative (relativeText (q.drop s.workspace.length)) true = .ok q := by
      unfold validateRelative
      split
      · rename_i hkey
        exact validateForSession_relative hkey hq hbound
      · rename_i hkey
        exact validateForWorkspace_relative (not_not.mp hkey) hq
    have hin : ¬ isWithin q s.workspace = false := by
      rw [isWithin_iff.mpr hboth.1]
      exact Bool.noConfusion
    rw [if_neg hin]
    exact hboth.2

/-- **Every place of an area is accepted under some text, and no other place is.** -/
theorem validateFilePath_iff (q : List Text) :
    (∃ filePath, s.validateFilePath filePath = .ok q) ↔ s.Accepted q := by
  constructor
  · rintro ⟨filePath, h⟩
    exact validateFilePath_accepted h
  · intro hq
    exact ⟨placeText q, validateFilePath_placeText hq⟩

/-! ## The boundary -/

theorem Area.Shut.below {a : Area} {p q : List Text} (h : a.Shut p) (hpq : p <+: q) : a.Shut q := by
  obtain ⟨d, hd, hdp⟩ := h
  exact ⟨d, hd, List.IsPrefix.trans hdp hpq⟩

theorem InOwn.below {p q : List Text} (h : s.InOwn p) (hpq : p <+: q) : s.InOwn q := by
  obtain ⟨safeKey, own, hsafe, hown, hp⟩ := h
  exact ⟨safeKey, own, hsafe, hown, List.IsPrefix.trans hp hpq⟩

theorem not_inOwn_of_nil (hkey : s.sessionKey = []) : ¬ s.InOwn q := by
  rintro ⟨safeKey, -, hsafe, -⟩
  rw [hkey] at hsafe
  cases hsafe

theorem OtherSession.canonical {f : List Text} (h : s.OtherSession f) : Canonical s.tree f := by
  obtain ⟨key, safeKey, -, -, hf⟩ := h
  exact realDir_canonical hf

theorem Reserved.canonical {f : List Text} (h : s.Reserved f) : Canonical s.tree f := by
  obtain ⟨root, -, hf⟩ := h
  exact realDir_canonical hf

theorem accepted_within (hq : s.Accepted q) :
    s.workspace <+: q ∨ (s.sessionKey ≠ [] ∧ ∃ b ∈ s.boundRoot, b.val <+: q) := by
  obtain ⟨-, a, ha, hroot, -⟩ := hq
  by_cases hkey : s.sessionKey = []
  · rw [areas_nil hkey] at ha
    obtain rfl := mem_singleton.mp ha
    exact Or.inl hroot
  · obtain ⟨-, ⟨b, hb, rfl⟩ | ⟨safeKey, -, -, ⟨-, rfl⟩ | rfl⟩⟩ := area_cases hkey ha
    · exact Or.inr ⟨hkey, b, hb, hroot⟩
    · exact Or.inl (List.IsPrefix.trans (prefix_append _ _) hroot)
    · exact Or.inl hroot

theorem inside_of_sealed (h : s.Sealed) {q : List Text} (hq : s.Accepted q) : s.Inside q := by
  have hwithin := accepted_within hq
  obtain ⟨hcanonical, a, ha, hroot, hshut⟩ := hq
  have hsealed := h a ha (hcanonical.of_below hroot)
  have hreserved : ∀ f, s.Reserved f → f <+: q → s.InOwn q := by
    intro f hf hfq
    rcases hsealed.reserved f hf (nested_of_below hroot hfq) with hin | hin
    · exact absurd (hin.below (inner_below hroot hfq)) hshut
    · exact hin.below (inner_below hroot hfq)
  unfold Inside
  split
  · rename_i hkey
    refine ⟨?_, fun f hf hfq => not_inOwn_of_nil hkey (hreserved f hf hfq)⟩
    rcases hwithin with hws | ⟨hne, -⟩
    · exact hws
    · exact absurd hkey hne
  · rename_i hkey
    refine ⟨?_, fun f hf hfq => ?_, hreserved⟩
    · rcases hwithin with hws | ⟨-, hbound⟩
      · exact Or.inr (Or.inr hws)
      · exact Or.inr (Or.inl hbound)
    · exact hshut ((hsealed.others hkey f hf (nested_of_below hroot hfq)).below
        (inner_below hroot hfq))

theorem sealed_of_inside (h : ∀ q, s.Accepted q → s.Inside q) : s.Sealed := by
  intro a ha hroot
  have hinside : ∀ q, Canonical s.tree q → a.root <+: q → ¬ a.Shut q → s.Inside q :=
    fun q hq haq hshut => h q ⟨hq, a, ha, haq, hshut⟩
  constructor
  · intro hkey f hf
    refine (below_both_iff Area.Shut.below hroot hf.canonical).mp fun q hq haq hfq => ?_
    by_contra hshut
    have hin := hinside q hq haq hshut
    rw [Inside, if_neg hkey] at hin
    exact hin.others f hf hfq
  · intro f hf
    refine (below_both_iff (P := fun q => a.Shut q ∨ s.InOwn q) ?_ hroot hf.canonical).mp
      fun q hq haq hfq => ?_
    · rintro p q (hp | hp) hpq
      · exact Or.inl (hp.below hpq)
      · exact Or.inr (hp.below hpq)
    · by_contra hneither
      obtain ⟨hshut, hown⟩ := not_or.mp hneither
      have hin := hinside q hq haq hshut
      unfold Inside at hin
      split at hin
      · exact hin.reserved f hf hfq
      · exact hown (hin.reserved f hf hfq)

/-! ## Without links, and with a bound folder away from the sessions -/

theorem realDir_self (hq : Canonical s.tree q) : s.realDir q = some q := by
  refine realpath_self s.links [] hq rfl ?_ ?_
  · intro hmem
    rcases mem_cons.mp hmem with hslash | hmem
    · cases hslash
    · exact not_nul_join hq.entries hmem
  · rw [segments_slash, segments_join fun c hc => (hq.entries c hc).1]

/-- No reserved directory leads elsewhere. -/
structure Direct : Prop where
  roots : ∀ root ∈ s.reservedRoots, ∀ f, s.realDir root = some f → f = root
  sessions : ∀ key safeKey, sessionDirKey key = some safeKey →
    ∀ f, s.realDir (s.sessionDir safeKey) = some f → f = s.sessionDir safeKey

theorem Direct.reserved (h : s.Direct) {f : List Text} (hf : s.Reserved f) :
    f ∈ s.reservedRoots := by
  obtain ⟨root, hroot, hf⟩ := hf
  rw [h.roots root hroot f hf]
  exact hroot

theorem Direct.other (h : s.Direct) {f : List Text} (hf : s.OtherSession f) :
    ∃ safeKey, sessionDirKey s.sessionKey ≠ some safeKey ∧ f = s.sessionDir safeKey := by
  obtain ⟨key, safeKey, hsafe, hne, hf⟩ := hf
  exact ⟨safeKey, hne, h.sessions key safeKey hsafe f hf⟩

theorem sessions_mem : s.workspace ++ [sessionsDirName] ∈ s.reservedRoots :=
  mem_map.mpr ⟨_, mem_cons_self, rfl⟩

theorem sessionDir_below (safeKey : Text) :
    s.workspace ++ [sessionsDirName] <+: s.sessionDir safeKey :=
  ⟨[safeKey], append_assoc _ _ _⟩

/-- What lies nested with a session's directory is the sessions root, or lies nested with it. -/
theorem nested_sessions {g : List Text} {safeKey : Text} (h : Nested g (s.sessionDir safeKey)) :
    Nested g (s.workspace ++ [sessionsDirName]) := by
  rcases h with h | h
  · exact nested_of_below h (sessionDir_below safeKey)
  · exact Or.inr (List.IsPrefix.trans (sessionDir_below safeKey) h)

theorem not_shut_nil {g q : List Text} : ¬ Area.Shut ⟨g, []⟩ q := by
  rintro ⟨d, hd, -⟩
  cases hd

theorem sealed_of_direct (h : s.Direct)
    (hbound : ∀ b ∈ s.boundRoot, ∀ root ∈ s.reservedRoots, ¬ Nested b.val root) : s.Sealed := by
  intro a ha hcanonical
  have hrest : Area.Sealed s ⟨s.workspace, s.reservedRoots⟩ := by
    constructor
    · intro _ f hf hnested
      obtain ⟨safeKey, -, rfl⟩ := h.other hf
      exact ⟨_, sessions_mem, List.IsPrefix.trans (sessionDir_below safeKey) hnested.prefix_inner.2⟩
    · intro f hf hnested
      exact Or.inl ⟨f, h.reserved hf, hnested.prefix_inner.2⟩
  by_cases hkey : s.sessionKey = []
  · rw [areas_nil hkey] at ha
    obtain rfl := List.mem_singleton.mp ha
    exact hrest
  obtain ⟨-, ⟨b, hb, rfl⟩ | ⟨safeKey, hsafe, -, ⟨-, rfl⟩ | rfl⟩⟩ := area_cases hkey ha
  · constructor
    · intro _ f hf hnested
      obtain ⟨safeKey, -, rfl⟩ := h.other hf
      exact absurd (nested_sessions hnested) (hbound b hb _ sessions_mem)
    · intro f hf hnested
      exact absurd hnested (hbound b hb f (h.reserved hf))
  · constructor
    · intro _ f hf hnested
      obtain ⟨other, hne, rfl⟩ := h.other hf
      have hsame : s.sessionDir safeKey = s.sessionDir other := by
        rcases hnested with hp | hp
        · exact hp.eq_of_length (by simp [sessionDir])
        · exact (hp.eq_of_length (by simp [sessionDir])).symm
      have hname : safeKey = other := by simpa [sessionDir] using hsame
      exact absurd (hname ▸ hsafe) hne
    · intro f hf hnested
      exact Or.inr ⟨safeKey, _, hsafe, realDir_self hcanonical, hnested.prefix_inner.1⟩
  · exact hrest

/-- **The file handlers stay inside the session boundary exactly where every area they accept is
sealed.** -/
theorem validateFilePath_inside_iff (s : Setting) :
    (∀ filePath q, s.validateFilePath filePath = .ok q → s.Inside q) ↔ s.Sealed := by
  constructor
  · intro h
    refine sealed_of_inside fun q hq => ?_
    obtain ⟨filePath, hpath⟩ := (validateFilePath_iff q).mpr hq
    exact h filePath q hpath
  · intro h filePath q hpath
    exact inside_of_sealed h (validateFilePath_accepted hpath)

/-! ## A bound folder that holds the workspace -/

/-- The conversation of another session in the workspace `/u/w`. -/
def otherRecord : List Text :=
  [['u'], ['w'], sessionsDirName, ['t', '_', '2'],
    ['c', 'o', 'n', 'v', 'e', 'r', 's', 'a', 't', 'i', 'o', 'n', '.', 'j', 's', 'o', 'n', 'l']]

/-- The tree with this file only. -/
def recordTree : Tree := fun p =>
  if p = otherRecord then some .file else if p.isPrefixOf otherRecord then some .dir else none

theorem recordTree_canonical (h : ∀ c ∈ q, Entry c) : Canonical recordTree q where
  entries := h
  direct p _ _ target hlink := by
    unfold recordTree at hlink
    split at hlink
    · cases hlink
    · split at hlink <;> cases hlink

/-- The session `t:1`, bound to `/u`. -/
def boundAbove : Setting where
  tree := recordTree
  links := 40
  cwd := []
  workspace := [['u'], ['w']]
  workspace_canonical := recordTree_canonical (by decide)
  clientId := ['d']
  sessionKey := ['t', ':', '1']
  owner := some ['d']
  boundRoot := some ⟨[['u']], recordTree_canonical (by decide)⟩
  filesDirMade := true

theorem boundAbove_other :
    boundAbove.OtherSession [['u'], ['w'], sessionsDirName, ['t', '_', '2']] :=
  ⟨['t', ':', '2'], ['t', '_', '2'], by decide, by decide,
    realDir_self (recordTree_canonical (by decide))⟩

/-- The file handlers do not always stay inside the session boundary: the absolute path of another
session's conversation is answered as a path of the bound folder. -/
theorem boundAbove_reads_other :
    ¬ ∀ (s : Setting) (filePath : Text) (q : List Text),
      s.validateFilePath filePath = .ok q → s.Inside q := by
  intro h
  have hread : boundAbove.validateFilePath ('/' :: Paths.join otherRecord) = .ok otherRecord := by
    rfl
  have hin := h boundAbove _ _ hread
  rw [Inside, if_neg (by decide)] at hin
  exact hin.others _ boundAbove_other ⟨_, rfl⟩

end Setting

end MiqroForge.Workspace.SessionFiles
