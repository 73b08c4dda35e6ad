import MiqroForge.Library.FileTree
import MiqroForge.Library.Json
import MiqroForge.Library.Paths

/-!
Where a session key leads on disk: the check of `SessionKeyParams`, `session_files_dir_key`
with `safe_filename`, and the operations of `SessionManager` that write below
`sessions_dir`: `delete`, `archive`, `unarchive` and those on `tracked_files.json`.

* `contained_iff`: for an accepted key the directory is a direct child of `sessions_dir` and
  all these operations stay inside it and the flat file of the key iff the key, stripped, is
  neither `.` nor `..`.
-/

namespace MiqroForge.Sessions

open PyText FileTree List

/-! ## Keys -/

/-- `SessionKeyParams`: what its validators accept. -/
def accepts (key : Text) : Bool :=
  !(strip key).isEmpty && !key.contains '/' && !key.contains '\\' &&
    (key.splitOn ':').all fun segment => segment != ['.'] && segment != ['.', '.']

/-- The `session_key` of accepted parameters. -/
structure SessionKey where
  text : Text
  accepted : accepts text = true

/-- The characters `safe_filename` replaces. -/
def forbiddenChars : List Char := ['<', '>', ':', '\x22', '/', '\\', '|', '?', '*']

/-- `str.replace` of one character. -/
def replaceChar (old new : Char) (t : Text) : Text := t.map fun c => if c = old then new else c

def safeFilename (name : Text) : Text :=
  strip (forbiddenChars.foldl (fun name char => replaceChar char '_' name) name)

def sessionFilesDirKey (sessionKey : Text) : Text :=
  let parts := sessionKey.splitOn ':'
  safeFilename (['_'].intercalate (if 3 ≤ parts.length then parts.drop 1 else parts))

/-! ## The manager -/

/-- The `OwnershipError` codes. -/
inductive OwnershipError where
  | unauthorized
  | requiresClaim
  deriving DecidableEq, Repr

structure SessionManager where
  workspace : Path

namespace SessionManager

def sessionsDir (m : SessionManager) : Path := m.workspace ++ ["sessions".toList]

/-- `dir / name` for a name without a separator, as the file system resolves it. -/
def child (dir : Path) (name : Text) : Path :=
  if name = [] ∨ name = ['.'] then dir
  else if name = ['.', '.'] then dir.dropLast
  else dir ++ [name]

def getSessionDir (m : SessionManager) (key : Text) : Path :=
  child m.sessionsDir (sessionFilesDirKey key)

def getSessionPath (m : SessionManager) (key : Text) : Path :=
  m.getSessionDir key ++ ["conversation.jsonl".toList]

def getFlatSessionPath (m : SessionManager) (key : Text) : Path :=
  m.sessionsDir ++ [safeFilename (replaceChar ':' '_' key) ++ ".jsonl".toList]

def migrateFlatToDir (m : SessionManager) (key : Text) : Op OwnershipError Unit := do
  let oldFlat ← pathExists (m.getFlatSessionPath key)
  let newPath ← pathExists (m.getSessionPath key)
  if oldFlat && !newPath then do
    mkdirs (m.getSessionDir key)
    move (m.getFlatSessionPath key) (m.getSessionPath key)
  else return ()

/-- The owner on the first metadata line; a line that is no JSON object ends the search. -/
def ownerOfLines : List Text → Option Json.Value
  | [] => none
  | raw :: rest =>
    if strip raw = [] then ownerOfLines rest
    else
      match Json.parse (strip raw) with
      | some (.obj data) =>
        match data.lookup "_type".toList with
        | some (.str kind) =>
          if kind = "metadata".toList then
            match data.lookup "owner_client_id".toList with
            | some .null => none
            | owner => owner
          else ownerOfLines rest
        | _ => ownerOfLines rest
      | _ => none

/-- The lines of an open text file. -/
def fileLines (content : Text) : List Text := content.splitOnP fun c => c == '\n' || c == '\r'

/-- `_read_owner`, whose `except` covers every failure to read. -/
def readOwner (m : SessionManager) (key : Text) : Op OwnershipError (Option Json.Value) := do
  let t ← get
  match t (m.getSessionPath key) with
  | some (.file content) => return ownerOfLines (fileLines content)
  | _ => return none

/-- `_verify_ownership_for_mutation`; without a client no check is made. -/
def verifyOwnership (m : SessionManager) (key : Text) (clientId : Option Text) :
    Op OwnershipError Unit := do
  match clientId with
  | none => return ()
  | some client =>
    let there ← pathExists (m.getSessionPath key)
    if there then do
      let owner ← m.readOwner key
      match owner with
      | some (.str name) => if name = client then return () else throw (.inr .unauthorized)
      | some _ => throw (.inr .unauthorized)
      | none => throw (.inr .requiresClaim)
    else return ()

def delete (m : SessionManager) (key : Text) (clientId : Option Text) :
    Op OwnershipError Bool := do
  m.verifyOwnership key clientId
  m.migrateFlatToDir key
  let sessionDir ← pathExists (m.getSessionDir key)
  if sessionDir then do
    rmtree (m.getSessionDir key)
    return true
  else do
    let oldFlat ← pathExists (m.getFlatSessionPath key)
    if oldFlat then do
      unlink false (m.getFlatSessionPath key)
      return true
    else return false

def archivedMarker (m : SessionManager) (key : Text) : Path :=
  m.getSessionDir key ++ [".archived".toList]

def archive (m : SessionManager) (key : Text) (clientId : Option Text) :
    Op OwnershipError Unit := do
  m.verifyOwnership key clientId
  m.migrateFlatToDir key
  mkdirs (m.getSessionDir key)
  touch (m.archivedMarker key)

def unarchive (m : SessionManager) (key : Text) (clientId : Option Text) :
    Op OwnershipError Unit := do
  m.verifyOwnership key clientId
  m.migrateFlatToDir key
  unlink true (m.archivedMarker key)

def trackedFiles (m : SessionManager) (key : Text) : Path :=
  m.getSessionDir key ++ ["tracked_files.json".toList]

def trackedTmp (m : SessionManager) (key : Text) : Path :=
  m.getSessionDir key ++ ["tracked_files.tmp".toList]

/-- What one of the writers makes of the old content of `tracked_files.json`. -/
inductive TrackedChange where
  | keep
  /-- `save_tracked_file`, its batch form, `reset_tracked_file_op`, `mark_tracked_file_result`. -/
  | write (content : Text)
  /-- `remove_tracked_file`, which makes no directory, with entries left and with none. -/
  | rewrite (content : Text)
  | remove

/-- The content `load_tracked_files` reads. -/
def loadTracked (m : SessionManager) (key : Text) : Op OwnershipError (Option Text) := do
  m.migrateFlatToDir key
  let t ← get
  match t (m.trackedFiles key) with
  | some (.file content) => return some content
  | _ => return none

/-- The writers of `tracked_files.json`: they differ in the new content alone. -/
def writeTracked (m : SessionManager) (key : Text) (clientId : Option Text)
    (change : Option Text → TrackedChange) : Op OwnershipError Unit := do
  m.verifyOwnership key clientId
  let old ← m.loadTracked key
  match change old with
  | .keep => return ()
  | .write content => do
    m.migrateFlatToDir key
    mkdirs (m.getSessionDir key)
    writeText (m.trackedTmp key) content
    move (m.trackedTmp key) (m.trackedFiles key)
  | .rewrite content => do
    m.migrateFlatToDir key
    writeText (m.trackedTmp key) content
    move (m.trackedTmp key) (m.trackedFiles key)
  | .remove => do
    m.migrateFlatToDir key
    unlink true (m.trackedFiles key)

def clearTrackedFiles (m : SessionManager) (key : Text) (clientId : Option Text) :
    Op OwnershipError Unit := do
  m.verifyOwnership key clientId
  m.migrateFlatToDir key
  unlink true (m.trackedFiles key)

/-! ## Names -/

end SessionManager

/-- `safe_filename` before its `strip`, one character at a time. -/
def safeChar (c : Char) : Char := if c ∈ forbiddenChars then '_' else c

theorem safeFilename_eq (name : Text) : safeFilename name = strip (name.map safeChar) := by
  unfold safeFilename
  congr 1
  simp only [forbiddenChars, foldl_cons, foldl_nil, replaceChar, map_map]
  apply map_congr_left
  intro c _
  by_cases hc : c ∈ forbiddenChars
  · rw [safeChar, if_pos hc]
    simp only [forbiddenChars, mem_cons, not_mem_nil, or_false] at hc
    rcases hc with rfl | rfl | rfl | rfl | rfl | rfl | rfl | rfl | rfl <;> rfl
  · rw [safeChar, if_neg hc]
    simp only [forbiddenChars, mem_cons, not_mem_nil, or_false, not_or] at hc
    simp [hc]

theorem isSpace_safeChar (c : Char) : isSpace (safeChar c) = isSpace c := by
  unfold safeChar
  split
  case isTrue hc =>
    simp only [forbiddenChars, mem_cons, not_mem_nil, or_false] at hc
    rcases hc with rfl | rfl | rfl | rfl | rfl | rfl | rfl | rfl | rfl <;> rfl
  case isFalse => rfl

theorem safeChar_eq_dot (c : Char) : safeChar c = '.' ↔ c = '.' := by
  unfold safeChar
  split
  case isTrue hc =>
    constructor
    · nofun
    · rintro rfl
      exact absurd hc (by decide)
  case isFalse => exact Iff.rfl

theorem safeFilename_plain (name : Text) : Paths.Plain (safeFilename name) := by
  rw [safeFilename_eq]
  intro h
  obtain ⟨c, -, hc⟩ := mem_map.mp (mem_of_mem_strip h)
  unfold safeChar at hc
  split at hc
  case isTrue => cases hc
  case isFalse hno =>
    subst hc
    exact hno (by decide)

theorem map_safeChar_dots (t : Text) (n : Nat) :
    t.map safeChar = List.replicate n '.' ↔ t = List.replicate n '.' := by
  simp only [eq_replicate_iff, length_map, forall_mem_map, safeChar_eq_dot]

theorem dirKey_single (key : Text) (h : ':' ∉ key) :
    sessionFilesDirKey key = (strip key).map safeChar := by
  unfold sessionFilesDirKey
  rw [splitOn_eq_singleton h]
  simp only [length_singleton, Nat.reduceLeDiff, if_false, intercalate_singleton]
  rw [safeFilename_eq, strip_map isSpace_safeChar]

theorem mem_intercalate {ps : List Text} (h : 2 ≤ ps.length) : '_' ∈ ['_'].intercalate ps := by
  match ps, h with
  | a :: b :: rest, _ => simp [intercalate_cons_cons]

theorem underscore_mem_dirKey (key : Text) (h : 2 ≤ (key.splitOn ':').length) :
    '_' ∈ sessionFilesDirKey key := by
  unfold sessionFilesDirKey
  rw [safeFilename_eq]
  apply mem_strip (by decide)
  refine mem_map.mpr ⟨'_', mem_intercalate ?_, by decide⟩
  split
  · rw [length_drop]
    omega
  · exact h

theorem two_segments (key : Text) (h : ':' ∈ key) : 2 ≤ (key.splitOn ':').length := by
  obtain ⟨a, b, rfl⟩ := append_of_mem h
  rw [splitOn_append_cons_self, length_append]
  have ha := length_pos_iff.mpr (splitOn_ne_nil ':' a)
  have hb := length_pos_iff.mpr (splitOn_ne_nil ':' b)
  omega

/-- **Names.** An accepted key gives no empty name, and one of dots only for a key that is these
dots between white space. -/
theorem dirKey_dots (key : SessionKey) :
    sessionFilesDirKey key.text ≠ [] ∧ ∀ n, sessionFilesDirKey key.text = List.replicate n '.' ↔
      strip key.text = List.replicate n '.' := by
  have hne : strip key.text ≠ [] := by
    have h := key.accepted
    simp only [accepts, Bool.and_eq_true, Bool.not_eq_true', isEmpty_eq_false_iff] at h
    exact h.1.1.1
  by_cases hc : ':' ∈ key.text
  · have hmem := underscore_mem_dirKey key.text (two_segments key.text hc)
    refine ⟨ne_nil_of_mem hmem, fun n => ?_⟩
    constructor
    · intro h
      rw [h] at hmem
      exact absurd (eq_of_mem_replicate hmem) (by decide)
    · intro h
      have hcolon := mem_strip (by decide) hc
      rw [h] at hcolon
      exact absurd (eq_of_mem_replicate hcolon) (by decide)
  · rw [dirKey_single key.text hc]
    exact ⟨fun h => hne (map_eq_nil_iff.mp h), map_safeChar_dots (strip key.text)⟩

namespace SessionManager

/-! ## Containment -/

/-- The directory of the key is a direct child of `sessions_dir`, and what writes below
`sessions_dir` stays inside it and the flat file of the key. -/
structure Contained (m : SessionManager) (key : Text) : Prop where
  direct : ∃ name, Paths.Plain name ∧ m.getSessionDir key = m.sessionsDir ++ [name]
  delete : ∀ clientId, Within m.sessionsDir [m.getSessionDir key, m.getFlatSessionPath key]
    (m.delete key clientId)
  archive : ∀ clientId, Within m.sessionsDir [m.getSessionDir key, m.getFlatSessionPath key]
    (m.archive key clientId)
  unarchive : ∀ clientId, Within m.sessionsDir [m.getSessionDir key, m.getFlatSessionPath key]
    (m.unarchive key clientId)
  writeTracked : ∀ clientId change,
    Within m.sessionsDir [m.getSessionDir key, m.getFlatSessionPath key]
      (m.writeTracked key clientId change)
  clearTrackedFiles : ∀ clientId,
    Within m.sessionsDir [m.getSessionDir key, m.getFlatSessionPath key]
      (m.clearTrackedFiles key clientId)

theorem not_child_prefix (dir : Path) (name : Text) : ¬ dir ++ [name] <+: dir := by
  intro h
  have hlen := h.length_le
  rw [length_append, length_singleton] at hlen
  omega

section Frames
variable (m : SessionManager) (key name : Text) (clientId : Option Text)
  (hdir : m.getSessionDir key = m.sessionsDir ++ [name])
include hdir

theorem below_sessionsDir :
    Below m.sessionsDir [m.getSessionDir key, m.getFlatSessionPath key] := by
  intro p hp
  rcases mem_cons.mp hp with rfl | hp
  · rw [hdir]
    exact not_child_prefix m.sessionsDir name
  · rw [mem_singleton.mp hp]
    exact not_child_prefix m.sessionsDir _

omit hdir in
theorem under_sessionDir (leaf : Text) :
    Under [m.getSessionDir key, m.getFlatSessionPath key] (m.getSessionDir key ++ [leaf]) :=
  under_trans (under_self mem_cons_self) (prefix_append _ _)

omit hdir in
theorem under_flat :
    Under [m.getSessionDir key, m.getFlatSessionPath key] (m.getFlatSessionPath key) :=
  under_self (mem_cons_of_mem _ mem_cons_self)

theorem within_mkdir : Within m.sessionsDir [m.getSessionDir key, m.getFlatSessionPath key]
    (mkdirs (m.getSessionDir key) : Op OwnershipError Unit) := by
  rw [hdir]
  exact within_mkdirs mem_cons_self

theorem within_migrate : Within m.sessionsDir [m.getSessionDir key, m.getFlatSessionPath key]
    (m.migrateFlatToDir key) := by
  have hb := m.below_sessionsDir key name hdir
  apply within_bind hb (within_pathExists _)
  intro oldFlat
  apply within_bind hb (within_pathExists _)
  intro newPath
  split
  · apply within_bind hb (m.within_mkdir key name hdir)
    intro _
    exact within_move (m.under_flat key) (m.under_sessionDir key _)
  · exact within_pure ()

omit hdir in
theorem within_readOwner (root : Path) (ps : List Path) : Within root ps (m.readOwner key) := by
  apply within_of_get
  intro t _ q _
  split <;> rfl

theorem within_verify : Within m.sessionsDir [m.getSessionDir key, m.getFlatSessionPath key]
    (m.verifyOwnership key clientId) := by
  have hb := m.below_sessionsDir key name hdir
  unfold verifyOwnership
  split
  · exact within_pure ()
  · apply within_bind hb (within_pathExists _)
    intro there
    split
    · apply within_bind hb (m.within_readOwner key _ _)
      intro owner
      split
      · split
        · exact within_pure ()
        · exact within_throw _
      · exact within_throw _
      · exact within_throw _
    · exact within_pure ()

theorem within_prepare {α : Type} (op : Op OwnershipError α)
    (hop : Within m.sessionsDir [m.getSessionDir key, m.getFlatSessionPath key] op) :
    Within m.sessionsDir [m.getSessionDir key, m.getFlatSessionPath key] (do
      m.verifyOwnership key clientId
      m.migrateFlatToDir key
      op) := by
  have hb := m.below_sessionsDir key name hdir
  apply within_bind hb (m.within_verify key name clientId hdir)
  intro _
  apply within_bind hb (m.within_migrate key name hdir)
  intro _
  exact hop

theorem within_replaceTracked (content : Text) :
    Within m.sessionsDir [m.getSessionDir key, m.getFlatSessionPath key] (do
      writeText (m.trackedTmp key) content
      move (m.trackedTmp key) (m.trackedFiles key) : Op OwnershipError Unit) := by
  apply within_bind (m.below_sessionsDir key name hdir)
  · exact within_writeText (m.under_sessionDir key _) content
  · intro _
    exact within_move (m.under_sessionDir key _) (m.under_sessionDir key _)

theorem within_loadTracked : Within m.sessionsDir [m.getSessionDir key, m.getFlatSessionPath key]
    (m.loadTracked key) := by
  apply within_bind (m.below_sessionsDir key name hdir) (m.within_migrate key name hdir)
  intro _
  apply within_of_get
  intro t _ q _
  split <;> rfl

theorem contained_of_child (hname : Paths.Plain name) : m.Contained key := by
  have hb := m.below_sessionsDir key name hdir
  have hmigrate := m.within_migrate key name hdir
  have hmkdir := m.within_mkdir key name hdir
  constructor
  case direct => exact ⟨name, hname, hdir⟩
  case delete =>
    intro clientId
    apply m.within_prepare key name clientId hdir
    apply within_bind hb (within_pathExists _)
    intro there
    split
    · apply within_bind hb (within_rmtree (under_self mem_cons_self))
      exact fun _ => within_pure true
    · apply within_bind hb (within_pathExists _)
      intro flat
      split
      · apply within_bind hb (within_unlink (m.under_flat key) false)
        exact fun _ => within_pure true
      · exact within_pure false
  case archive =>
    intro clientId
    apply m.within_prepare key name clientId hdir
    apply within_bind hb hmkdir
    exact fun _ => within_touch (m.under_sessionDir key _)
  case unarchive =>
    intro clientId
    apply m.within_prepare key name clientId hdir
    exact within_unlink (m.under_sessionDir key _) true
  case writeTracked =>
    intro clientId change
    apply within_bind hb (m.within_verify key name clientId hdir)
    intro _
    apply within_bind hb (m.within_loadTracked key name hdir)
    intro old
    cases change old with
    | keep => exact within_pure ()
    | write content =>
      apply within_bind hb hmigrate
      intro _
      apply within_bind hb hmkdir
      exact fun _ => m.within_replaceTracked key name hdir content
    | rewrite content =>
      apply within_bind hb hmigrate
      exact fun _ => m.within_replaceTracked key name hdir content
    | remove =>
      apply within_bind hb hmigrate
      exact fun _ => within_unlink (m.under_sessionDir key _) true
  case clearTrackedFiles =>
    intro clientId
    apply m.within_prepare key name clientId hdir
    exact within_unlink (m.under_sessionDir key _) true

end Frames

/-- **Session directories stay inside the root.** For an accepted key: the directory is a direct
child of `sessions_dir` and the writers stay inside it and the flat file iff the key is neither
`.` nor `..` between white space. -/
theorem contained_iff (m : SessionManager) (key : SessionKey) :
    m.Contained key.text ↔ strip key.text ≠ ['.'] ∧ strip key.text ≠ ['.', '.'] := by
  obtain ⟨hne, hdots⟩ := dirKey_dots key
  have hone := hdots 1
  have htwo := hdots 2
  simp only [List.replicate_succ, List.replicate_zero] at hone htwo
  rw [ne_eq, ne_eq, ← not_congr hone, ← not_congr htwo]
  constructor
  · rintro ⟨⟨name, -, hdir⟩, -⟩
    have hlen := congrArg List.length hdir
    unfold getSessionDir child at hlen
    constructor
    · intro h
      rw [if_pos (Or.inr h), List.length_append, List.length_singleton] at hlen
      omega
    · intro h
      rw [if_neg (by simp [h]), if_pos h, List.length_dropLast, List.length_append,
        List.length_singleton] at hlen
      omega
  · rintro ⟨h1, h2⟩
    refine m.contained_of_child key.text (sessionFilesDirKey key.text) ?_ (safeFilename_plain _)
    unfold getSessionDir child
    rw [if_neg (by simp [hne, h1]), if_neg h2]

/-- The key of two dots behind a blank. -/
def blankDots : SessionKey := ⟨[' ', '.', '.'], by decide⟩

/-- A workspace with one file beside `sessions`. -/
def notesTree : Tree := fun p =>
  if p = [] ∨ p = ["ws".toList] ∨ p = ["ws".toList, "sessions".toList] then some .dir
  else if p = ["ws".toList, "notes".toList] then some (.file ['x'])
  else none

/-- Its directory is the workspace, which `delete` removes, for any client. -/
theorem blankDots_notContained :
    ¬ (∀ (m : SessionManager) (key : SessionKey), m.Contained key.text) ∧
      after (delete ⟨["ws".toList]⟩ blankDots.text (some ['c'])) notesTree
        ["ws".toList, "notes".toList] = none := by
  constructor
  · intro h
    obtain ⟨name, -, hdir⟩ := (h ⟨["ws".toList]⟩ blankDots).direct
    have hlen := congrArg List.length hdir
    simp [sessionsDir] at hlen
    revert hlen
    decide
  · decide

end SessionManager

end MiqroForge.Sessions
