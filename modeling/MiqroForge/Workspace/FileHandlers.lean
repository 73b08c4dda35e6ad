import MiqroForge.Sessions.KeyForms
import MiqroForge.Workspace.SessionFiles

/-!
The root and the ledger of a session's files: `_find_ledger_root` of `session_handlers.py`, the paths
the handlers of `file_handlers.py` resolve and the ledgers they change.
-/

namespace MiqroForge.Workspace.FileHandlers

open PyText PosixPaths LinkedFiles RealPaths Sessions SessionFiles Setting List

/-! ## A session of its owner -/

structure World where
  tree : Tree
  /-- How long links that lead to one another can be. -/
  links : Nat
  cwd : List Text
  workspace : List Text
  workspace_canonical : Canonical tree workspace
  /-- The caller, who owns the session. -/
  clientId : Text
  sessionKey : SessionKey
  /-- Whether the directory for the session's files in the workspace is there or can be made. -/
  filesDirMade : Bool
  /-- A directory that is there is somewhere. -/
  filesDir_leads : filesDirMade = true → ∀ safeKey, sessionDirKey sessionKey.text = some safeKey →
    realpath tree (links + 1) []
      ('/' :: Paths.join (workspace ++ [sessionsDirName, safeKey, filesDirName])) ≠ none
  /-- The workspace of the live runtime; empty without one. -/
  runtimeWorkspace : Text
  /-- The workspace in the record of the session; empty without one. -/
  stubWorkspace : Text
  /-- `list_bound_workspaces`. -/
  boundWorkspaces : List Text
  /-- `_validate_workspace`; `none` when it raises. -/
  validateWorkspace : Text → Option { root : List Text // Canonical tree root }
  /-- The copy of the session below a root, by its owner. -/
  copyOwner : List Text → Option (Option Text)
  /-- Whether `load_tracked_files` of the copy below a root gives an entry. -/
  hasEntries : List Text → Bool

namespace World

variable (w : World)

abbrev Root : Type := { root : List Text // Canonical w.tree root }

/-- A workspace text that is given and valid. -/
def readRoot (text : Text) : Option w.Root := if text = [] then none else w.validateWorkspace text

/-- `_probe_folder`, for an owned copy. -/
def probeFolder (root : List Text) : Bool :=
  match w.copyOwner root with
  | some (some owner) => owner == w.clientId
  | _ => false

/-- `_candidate_workspace_roots`, behind the roots seen. -/
def candidateRoots (seen : List (List Text)) : List Text → List w.Root
  | [] => []
  | raw :: rest =>
    match w.readRoot raw with
    | none => candidateRoots seen rest
    | some root =>
      if root.val = w.workspace ∨ root.val ∈ seen then candidateRoots seen rest
      else root :: candidateRoots (root.val :: seen) rest

/-- The loop of `_find_ledger_root` over the seeds: a root, and whether the app-home one was seen. -/
def scanSeeds : List Text → Bool → Option w.Root × Bool
  | [], homeSeen => (none, homeSeen)
  | seed :: rest, homeSeen =>
    match w.readRoot seed with
    | none => scanSeeds rest homeSeen
    | some root =>
      if root.val = w.workspace then scanSeeds rest true
      else if w.probeFolder root.val then (some root, homeSeen)
      else scanSeeds rest homeSeen

/-- `_find_ledger_root`, with the workspace of a runtime. -/
def findLedgerRoot (runtimeWorkspace : Text) : Option w.Root :=
  match w.scanSeeds [runtimeWorkspace, w.stubWorkspace] false with
  | (some root, _) => some root
  | (none, true) => none
  | (none, false) =>
    (w.candidateRoots [] w.boundWorkspaces).find? fun root =>
      w.probeFolder root.val && w.hasEntries root.val

/-! ## The handlers -/

/-- The setting of `_validate_file_path`. A bound folder is there, since it holds a copy of the
session. -/
def setting (runtimeWorkspace : Text) : Setting where
  tree := w.tree
  links := w.links
  cwd := w.cwd
  workspace := w.workspace
  workspace_canonical := w.workspace_canonical
  clientId := w.clientId
  sessionKey := w.sessionKey.text
  owner := some w.clientId
  boundRoot := w.findLedgerRoot runtimeWorkspace
  filesDirMade := (w.findLedgerRoot runtimeWorkspace).isSome || w.filesDirMade

/-- The path a handler works on. -/
def resolvePath (runtimeWorkspace path : Text) : Except Refusal (List Text) :=
  (w.setting runtimeWorkspace).validateFilePath (strip path)

def filesRead (path : Text) : Except Refusal (List Text) := w.resolvePath w.runtimeWorkspace path

def filesWrite (path : Text) : Except Refusal (List Text) := w.resolvePath [] path

def filesDelete (path : Text) : Except Refusal (List Text) := w.resolvePath [] path

def filesDiff (path : Text) : Except Refusal (List Text) := w.resolvePath [] path

def filesRevert (path : Text) : Except Refusal (List Text) := w.resolvePath [] path

def filesAccept (path : Text) : Except Refusal (List Text) := w.resolvePath [] path

/-- What is there when `files.read` has resolved a path, which makes the directory of an unbound
session. -/
def Exists (q : List Text) : Prop :=
  q = [] ∨ w.tree q ≠ none ∨
    (w.findLedgerRoot w.runtimeWorkspace = none ∧ w.filesDirMade = true ∧
      ∃ safeKey, sessionDirKey w.sessionKey.text = some safeKey ∧
        q <+: w.workspace ++ [sessionsDirName, safeKey, filesDirName])

/-- `files.read` finds a file without a fallback. -/
def ReadsDirectly (path : Text) (q : List Text) : Prop := w.filesRead path = .ok q ∧ w.Exists q

/-! ## The ledgers -/

/-- `tracked_files.json` of a key in the manager of a root. -/
def ledger (root : List Text) (key : Text) : List Text := SessionManager.trackedFiles ⟨root⟩ key

/-- The ledger `sessions.get_tracked_files` returns, under the key `_tracked_files_store_key`. -/
def getTrackedFiles : List Text :=
  ledger (((w.findLedgerRoot w.runtimeWorkspace).map Subtype.val).getD w.workspace)
    (sessionFilesDirKey w.sessionKey.text)

/-- The ledger of `_get_session_manager`, which `files.write`, `files.revert` and `files.accept`
change. -/
def changedLedger : List Text := ledger w.workspace w.sessionKey.text

/-- The handlers agree with `files.read` on the file, and with `sessions.get_tracked_files` on the
ledger. -/
structure Agrees : Prop where
  file : ∀ path q, w.ReadsDirectly path q →
    ∀ handler ∈ [w.filesWrite, w.filesDelete, w.filesDiff, w.filesRevert, w.filesAccept],
      handler path = .ok q
  ledger : w.changedLedger = w.getTrackedFiles

/-! ## The condition -/

/-- A folder other than the app-home one, with a copy of the session that its owner owns. -/
def Folder (root : w.Root) : Prop := root.val ≠ w.workspace ∧ w.probeFolder root.val = true

/-- No seed is a folder of the session, and a seed is the app-home workspace or no folder that a
session is bound to holds a ledger of this one. -/
structure Unbound (runtimeWorkspace : Text) : Prop where
  seeds : ∀ seed ∈ [runtimeWorkspace, w.stubWorkspace], ∀ root ∈ w.readRoot seed, ¬ w.Folder root
  scan : (∃ seed ∈ [runtimeWorkspace, w.stubWorkspace], ∃ root ∈ w.readRoot seed,
      root.val = w.workspace) ∨
    ∀ text ∈ w.boundWorkspaces, ∀ root ∈ w.readRoot text,
      w.Folder root → w.hasEntries root.val = false

/-- The session's files have a directory in the workspace, which no link leads away from. -/
def FilesDirect : Prop :=
  ∃ safeKey, sessionDirKey w.sessionKey.text = some safeKey ∧
    Canonical w.tree (w.workspace ++ [sessionsDirName, safeKey, filesDirName])

/-- No path of the session is accepted. -/
def Refused : Prop := sessionDirKey w.sessionKey.text = none ∨ w.filesDirMade = false

/-- The folder that is found without the runtime holds the workspace, and the session's files lie
behind a link. -/
def Above : Prop :=
  (∃ b, w.findLedgerRoot [] = some b ∧ b.val <+: w.workspace) ∧ ¬ w.FilesDirect

variable {w}

/-! ## The root of a session -/

theorem scanSeeds_some {seeds : List Text} {homeSeen home : Bool} {root : w.Root}
    (h : w.scanSeeds seeds homeSeen = (some root, home)) :
    w.Folder root ∧ ∃ seed ∈ seeds, root ∈ w.readRoot seed := by
  induction seeds generalizing homeSeen with
  | nil => cases h
  | cons seed seeds ih =>
    have hrest : ∀ {seen : Bool}, w.scanSeeds seeds seen = (some root, home) →
        w.Folder root ∧ ∃ s ∈ seed :: seeds, root ∈ w.readRoot s := by
      intro seen hscan
      obtain ⟨hfolder, s, hs, hread⟩ := ih hscan
      exact ⟨hfolder, s, mem_cons_of_mem seed hs, hread⟩
    rw [scanSeeds] at h
    split at h
    · exact hrest h
    · rename_i r hread
      split at h
      · exact hrest h
      · rename_i hhome
        split at h
        · rename_i hprobe
          obtain rfl := Option.some.inj (Prod.mk.inj h).1
          exact ⟨⟨hhome, hprobe⟩, seed, mem_cons_self, hread⟩
        · exact hrest h

theorem scanSeeds_none {seeds : List Text} {homeSeen home : Bool}
    (h : w.scanSeeds seeds homeSeen = (none, home)) :
    (∀ seed ∈ seeds, ∀ root ∈ w.readRoot seed, ¬ w.Folder root) ∧
      (home = true ↔ homeSeen = true ∨
        ∃ seed ∈ seeds, ∃ root ∈ w.readRoot seed, root.val = w.workspace) := by
  induction seeds generalizing homeSeen with
  | nil =>
    obtain ⟨-, rfl⟩ := Prod.mk.inj h
    simp
  | cons seed seeds ih =>
    simp only [mem_cons, forall_eq_or_imp, exists_eq_or_imp]
    rw [scanSeeds] at h
    split at h
    · rename_i hread
      simpa [hread] using ih h
    · rename_i root hread
      rw [hread]
      simp only [Option.mem_some_iff, forall_eq', exists_eq_left']
      split at h
      · rename_i hhome
        obtain ⟨hfolders, hseen⟩ := ih h
        refine ⟨⟨fun hfolder => hfolder.1 hhome, hfolders⟩, ?_⟩
        rw [hseen]
        simp [hhome]
      · rename_i hhome
        split at h
        · cases h
        · rename_i hprobe
          obtain ⟨hfolders, hseen⟩ := ih h
          refine ⟨⟨fun hfolder => hprobe hfolder.2, hfolders⟩, ?_⟩
          rw [hseen]
          simp [hhome]

theorem mem_candidateRoots {root : w.Root} (seen : List (List Text)) (raws : List Text) :
    root ∈ w.candidateRoots seen raws ↔
      root.val ≠ w.workspace ∧ root.val ∉ seen ∧ ∃ raw ∈ raws, root ∈ w.readRoot raw := by
  induction raws generalizing seen with
  | nil => simp [candidateRoots]
  | cons raw raws ih =>
    rw [candidateRoots]
    cases hread : w.readRoot raw with
    | none => simp [ih, hread]
    | some r =>
      simp only [mem_cons, exists_eq_or_imp, hread]
      split
      · rename_i hskip
        rw [ih]
        refine and_congr_right fun hhome => and_congr_right fun hseen => ⟨Or.inr, ?_⟩
        rintro (hr | h)
        · cases hr
          exact absurd hskip (not_or.mpr ⟨hhome, hseen⟩)
        · exact h
      · rename_i hkeep
        rw [mem_cons, ih, mem_cons]
        constructor
        · rintro (rfl | ⟨hhome, hseen, h⟩)
          · exact ⟨(not_or.mp hkeep).1, (not_or.mp hkeep).2, Or.inl rfl⟩
          · exact ⟨hhome, fun hin => hseen (Or.inr hin), Or.inr h⟩
        · rintro ⟨hhome, hseen, hr | h⟩
          · exact Or.inl (Option.some.inj hr).symm
          · by_cases heq : root.val = r.val
            · exact Or.inl (Subtype.ext heq)
            · exact Or.inr ⟨hhome, not_or.mpr ⟨heq, hseen⟩, h⟩

theorem findLedgerRoot_folder {runtimeWorkspace : Text} {root : w.Root}
    (h : w.findLedgerRoot runtimeWorkspace = some root) : w.Folder root := by
  unfold findLedgerRoot at h
  split at h
  · rename_i hscan
    cases h
    exact (scanSeeds_some hscan).1
  · cases h
  · have hprobe := find?_some h
    rw [Bool.and_eq_true] at hprobe
    exact ⟨((mem_candidateRoots _ _).mp (mem_of_find?_eq_some h)).1, hprobe.1⟩

/-- **No root is found exactly for an unbound session.** -/
theorem findLedgerRoot_none_iff (runtimeWorkspace : Text) :
    w.findLedgerRoot runtimeWorkspace = none ↔ w.Unbound runtimeWorkspace := by
  unfold findLedgerRoot
  split
  · rename_i root _ hscan
    refine ⟨fun h => (by cases h), fun h => ?_⟩
    obtain ⟨hfolder, seed, hseed, hread⟩ := scanSeeds_some hscan
    exact absurd hfolder (h.seeds seed hseed root hread)
  · rename_i hscan
    obtain ⟨hseeds, hhome⟩ := scanSeeds_none hscan
    refine ⟨fun _ => ⟨hseeds, Or.inl ?_⟩, fun _ => rfl⟩
    rcases hhome.mp rfl with h | h
    · cases h
    · exact h
  · rename_i hscan
    obtain ⟨hseeds, hhome⟩ := scanSeeds_none hscan
    rw [find?_eq_none]
    constructor
    · intro h
      refine ⟨hseeds, Or.inr fun text htext root hread hfolder => ?_⟩
      have hnot := h root ((mem_candidateRoots _ _).mpr
        ⟨hfolder.1, not_mem_nil, text, htext, hread⟩)
      rw [hfolder.2, Bool.true_and, Bool.not_eq_true] at hnot
      exact hnot
    · intro h root hroot hfound
      rw [Bool.and_eq_true] at hfound
      obtain ⟨hne, -, text, htext, hread⟩ := (mem_candidateRoots _ _).mp hroot
      rcases h.scan with hseen | hscan
      · exact absurd (hhome.mpr (Or.inr hseen)) Bool.false_ne_true
      · have hentries := hscan text htext root hread ⟨hne, hfound.1⟩
        rw [hfound.2] at hentries
        cases hentries

/-! ## The ledger -/

theorem ledger_inj {root root' : List Text} {key : Text} (h : ledger root key = ledger root' key) :
    root = root' := by
  have hdir := append_cancel_right h
  unfold SessionManager.getSessionDir SessionManager.child SessionManager.sessionsDir at hdir
  split at hdir
  · exact append_cancel_right hdir
  · split at hdir
    · rw [dropLast_concat, dropLast_concat] at hdir
      exact hdir
    · exact append_cancel_right (append_cancel_right hdir)

/-- **The handlers change the ledger that is shown exactly where no folder is found.** -/
theorem ledger_iff : w.changedLedger = w.getTrackedFiles ↔ w.Unbound w.runtimeWorkspace := by
  have hkey : ∀ root, ledger root (sessionFilesDirKey w.sessionKey.text) =
      ledger root w.sessionKey.text := by
    intro root
    unfold ledger SessionManager.trackedFiles SessionManager.getSessionDir
    rw [sessionFilesDirKey_idem]
  rw [← findLedgerRoot_none_iff, getTrackedFiles, changedLedger, hkey]
  cases hfound : w.findLedgerRoot w.runtimeWorkspace with
  | none => simp
  | some root =>
    refine ⟨fun h => absurd (ledger_inj h).symm (findLedgerRoot_folder hfound).1, fun h => ?_⟩
    cases h

end World

/-! ## The directory itself -/

section Dot

variable {s : Setting} {safeKey : Text}

theorem resolveUnder_dot (root : List Text) :
    s.resolveUnder root ['.'] =
      match s.realDir root with
      | some q => .ok q
      | none => .error .invalidFilePath := by
  have hjoined : joined root ['.'] = '/' :: (Paths.join root ++ '/' :: ['.']) := rfl
  have hnul : ('/' :: (Paths.join root ++ '/' :: ['.'])).contains '\x00' =
      ('/' :: Paths.join root).contains '\x00' := by
    simp
  have hsegments : segments ('/' :: (Paths.join root ++ '/' :: ['.'])) =
      segments ('/' :: Paths.join root) := by
    rw [segments_slash, segments_append, segments_slash]
    exact append_nil _
  -- Both texts are absolute, which is left to `rfl`.
  rw [resolveUnder, realDir, hjoined, realpath, realpath, hnul, hsegments]
  rfl

theorem not_reserved_workspace : ¬ s.reservedRoots.any (isWithin s.workspace) = true := by
  rw [reserved_any_iff]
  rintro ⟨d, hd, hprefix'⟩
  obtain ⟨name, -, rfl⟩ := mem_map.mp hd
  have hle := hprefix'.length_le
  rw [length_append, length_singleton] at hle
  omega

theorem validate_dot (hkey : s.sessionKey ≠ []) (howned : s.owner = some s.clientId)
    (hsafe : sessionDirKey s.sessionKey = some safeKey) {files ownArea q : List Text}
    (hfiles : s.sessionFilesPath safeKey = .ok files)
    (hown : (if s.boundRoot.isSome then files else files.dropLast) = ownArea)
    (hq : s.resolveUnder files ['.'] = .ok q) :
    s.validateFilePath ['.'] =
      .ok (if isWithin s.workspace ownArea then s.workspace
        else if isWithin q files then q else s.workspace) := by
  have hws : s.resolveUnder s.workspace ['.'] = .ok s.workspace := by
    rw [resolveUnder_dot, realDir_self s.workspace_canonical]
  have hin : isWithin s.workspace s.workspace = true := isWithin_iff.mpr prefix_rfl
  have hrelative : s.validateFilePath ['.'] = s.validateForSession ['.'] false := by
    show s.validateRelative ['.'] false = _
    rw [validateRelative, if_pos hkey]
  rw [hrelative, validateForSession, hsafe]
  dsimp only
  rw [requireOwnedSession_owned howned, hfiles, hws]
  show (if isWithin s.workspace (if s.boundRoot.isSome then files else files.dropLast) = true then _
    else _) = _
  rw [hown, hq]
  split
  · rfl
  · rw [if_neg not_reserved_workspace, if_neg Bool.false_ne_true]
    show (if isWithin q files = true then _ else _) = _
    split <;> rfl

end Dot

namespace World

variable {w : World}

/-! ## Two settings of one session -/

theorem sessionKey_ne : w.sessionKey.text ≠ [] := by
  intro h
  have haccepted := w.sessionKey.accepted
  rw [h] at haccepted
  cases haccepted

variable (w) in
/-- The directory of the session's files in the workspace. -/
def filesDir (safeKey : Text) : List Text := w.workspace ++ [sessionsDirName, safeKey, filesDirName]

theorem workspace_below (safeKey : Text) : w.workspace <+: w.filesDir safeKey :=
  prefix_append _ _

section Unbound

variable {runtimeWorkspace : Text} {safeKey : Text}

theorem filesPath_unbound (hfound : w.findLedgerRoot runtimeWorkspace = none)
    (hmade : w.filesDirMade = true) :
    (w.setting runtimeWorkspace).sessionFilesPath safeKey = .ok (w.filesDir safeKey) := by
  have howned : (w.setting runtimeWorkspace).owner = some (w.setting runtimeWorkspace).clientId := rfl
  have hdir : (w.setting runtimeWorkspace).filesDirMade = true := by
    show ((w.findLedgerRoot runtimeWorkspace).isSome || w.filesDirMade) = true
    rw [hmade, Bool.or_true]
  have hbound : (w.setting runtimeWorkspace).boundRoot = none := hfound
  have happend : w.filesDir safeKey =
      (w.setting runtimeWorkspace).sessionDir safeKey ++ [filesDirName] :=
    (append_assoc w.workspace [sessionsDirName, safeKey] [filesDirName]).symm
  rw [sessionFilesPath, requireOwnedSession_owned howned, hdir, hbound, happend]
  rfl

theorem filesPath_bound {b : w.Root} (hfound : w.findLedgerRoot runtimeWorkspace = some b) :
    (w.setting runtimeWorkspace).sessionFilesPath safeKey = .ok b.val := by
  have howned : (w.setting runtimeWorkspace).owner = some (w.setting runtimeWorkspace).clientId := rfl
  have hdir : (w.setting runtimeWorkspace).filesDirMade = true := by
    show ((w.findLedgerRoot runtimeWorkspace).isSome || w.filesDirMade) = true
    rw [hfound]
    rfl
  have hbound : (w.setting runtimeWorkspace).boundRoot = some b := hfound
  rw [sessionFilesPath, requireOwnedSession_owned howned, hdir, hbound]
  rfl

theorem ownArea_unbound (hfound : w.findLedgerRoot runtimeWorkspace = none) (safeKey : Text) :
    (if (w.setting runtimeWorkspace).boundRoot.isSome then w.filesDir safeKey
      else (w.filesDir safeKey).dropLast) = w.workspace ++ [sessionsDirName, safeKey] := by
  have hbound : (w.setting runtimeWorkspace).boundRoot = none := hfound
  have happend : w.filesDir safeKey = (w.workspace ++ [sessionsDirName, safeKey]) ++ [filesDirName] :=
    (append_assoc w.workspace [sessionsDirName, safeKey] [filesDirName]).symm
  rw [hbound, happend, dropLast_concat]
  rfl

theorem workspace_outside (safeKey : Text) :
    ¬ isWithin (w.setting runtimeWorkspace).workspace
      (w.workspace ++ [sessionsDirName, safeKey]) = true := by
  rw [isWithin_iff]
  intro hle
  have hlength := hle.length_le
  have hworkspace : (w.setting runtimeWorkspace).workspace = w.workspace := rfl
  rw [hworkspace, length_append, length_cons] at hlength
  omega

theorem dot_unbound (hfound : w.findLedgerRoot runtimeWorkspace = none)
    (hsafe : sessionDirKey w.sessionKey.text = some safeKey) (hmade : w.filesDirMade = true)
    (hdirect : Canonical w.tree (w.filesDir safeKey)) :
    (w.setting runtimeWorkspace).validateFilePath ['.'] = .ok (w.filesDir safeKey) := by
  have hread : (w.setting runtimeWorkspace).resolveUnder (w.filesDir safeKey) ['.'] =
      .ok (w.filesDir safeKey) := by
    rw [resolveUnder_dot, realDir_self hdirect]
  have hin : isWithin (w.filesDir safeKey) (w.filesDir safeKey) = true :=
    isWithin_iff.mpr prefix_rfl
  rw [validate_dot (s := w.setting runtimeWorkspace) sessionKey_ne rfl hsafe (filesPath_unbound hfound hmade)
    (ownArea_unbound hfound safeKey) hread, if_neg (workspace_outside safeKey), if_pos hin]

theorem dot_linked (hfound : w.findLedgerRoot runtimeWorkspace = none)
    (hsafe : sessionDirKey w.sessionKey.text = some safeKey) (hmade : w.filesDirMade = true)
    (hlinked : ¬ Canonical w.tree (w.filesDir safeKey)) :
    (w.setting runtimeWorkspace).validateFilePath ['.'] = .ok w.workspace := by
  obtain ⟨q, hq⟩ := Option.ne_none_iff_exists'.mp (w.filesDir_leads hmade safeKey hsafe)
  have hread : (w.setting runtimeWorkspace).resolveUnder (w.filesDir safeKey) ['.'] = .ok q := by
    have hreal : (w.setting runtimeWorkspace).realDir (w.filesDir safeKey) = some q := hq
    rw [resolveUnder_dot, hreal]
  have hout : ¬ isWithin q (w.filesDir safeKey) = true := by
    rw [isWithin_iff]
    intro hin
    exact hlinked ((realpath_canonical canonical_nil hq).of_below hin)
  rw [validate_dot (s := w.setting runtimeWorkspace) sessionKey_ne rfl hsafe (filesPath_unbound hfound hmade)
    (ownArea_unbound hfound safeKey) hread, if_neg (workspace_outside safeKey), if_neg hout]
  rfl

theorem dot_bound {b : w.Root} (hfound : w.findLedgerRoot runtimeWorkspace = some b)
    (hsafe : sessionDirKey w.sessionKey.text = some safeKey) :
    (w.setting runtimeWorkspace).validateFilePath ['.'] =
      .ok (if isWithin w.workspace b.val then w.workspace else b.val) := by
  have hread : (w.setting runtimeWorkspace).resolveUnder b.val ['.'] = .ok b.val := by
    rw [resolveUnder_dot, realDir_self b.property]
  have hown : (if (w.setting runtimeWorkspace).boundRoot.isSome then b.val
      else b.val.dropLast) = b.val := by
    have hbound : (w.setting runtimeWorkspace).boundRoot = some b := hfound
    rw [hbound]
    rfl
  have hin : isWithin b.val b.val = true := isWithin_iff.mpr prefix_rfl
  rw [validate_dot (s := w.setting runtimeWorkspace) sessionKey_ne rfl hsafe (filesPath_bound hfound) hown hread, if_pos hin]
  rfl

/-! ## A folder above the workspace -/

/-- Where a link leads away from the directory of its files, an unbound session reaches only what a
path names from the workspace. -/
theorem validateForSession_linked (hfound : w.findLedgerRoot runtimeWorkspace = none)
    (hlinked : ¬ w.FilesDirect) {path : Text} {absolute : Bool} {q : List Text}
    (h : (w.setting runtimeWorkspace).validateForSession path absolute = .ok q) :
    (w.setting runtimeWorkspace).resolveUnder w.workspace path = .ok q ∧ w.workspace <+: q := by
  unfold validateForSession at h
  cases hsafe : sessionDirKey (w.setting runtimeWorkspace).sessionKey with
  | none =>
    rw [hsafe] at h
    cases h
  | some safeKey =>
    rw [hsafe] at h
    obtain ⟨-, -, h⟩ := bind_ok h
    obtain ⟨files, hfiles, h⟩ := bind_ok h
    have hmade : w.filesDirMade = true := by
      have hdir := (sessionFilesPath_area sessionKey_ne hsafe hfiles).2.1
      have hset : (w.setting runtimeWorkspace).filesDirMade =
        ((w.findLedgerRoot runtimeWorkspace).isSome || w.filesDirMade) := rfl
      rwa [hset, hfound] at hdir
    rw [filesPath_unbound hfound hmade] at hfiles
    obtain rfl := Except.ok.inj hfiles
    obtain ⟨candidate, hcandidate, h⟩ := bind_ok h
    rw [ownArea_unbound hfound safeKey] at h
    split at h
    · rename_i hin
      obtain rfl := Except.ok.inj h
      exact ⟨hcandidate, List.IsPrefix.trans (prefix_append _ _) (isWithin_iff.mp hin)⟩
    · split at h
      · cases h
      · split at h
        · split at h
          · rename_i hin
            obtain rfl := Except.ok.inj h
            exact ⟨hcandidate, isWithin_iff.mp hin⟩
          · cases h
        · obtain ⟨inner, hinner, h⟩ := bind_ok h
          have hout : ¬ isWithin inner (w.filesDir safeKey) = true := by
            rw [isWithin_iff]
            intro hin
            exact hlinked ⟨safeKey, hsafe, (resolveUnder_canonical hinner).of_below hin⟩
          rw [if_neg hout] at h
          split at h
          · rename_i hin
            obtain rfl := Except.ok.inj h
            exact ⟨hcandidate, isWithin_iff.mp hin⟩
          · cases h

theorem validateForSession_bound {b : w.Root} (hfound : w.findLedgerRoot runtimeWorkspace = some b)
    {safeKey : Text} (hsafe : sessionDirKey w.sessionKey.text = some safeKey) {path : Text}
    {absolute : Bool} {q : List Text}
    (hq : (w.setting runtimeWorkspace).resolveUnder w.workspace path = .ok q) (hb : b.val <+: q) :
    (w.setting runtimeWorkspace).validateForSession path absolute = .ok q := by
  have hkey : sessionDirKey (w.setting runtimeWorkspace).sessionKey = some safeKey := hsafe
  have hbound : (w.setting runtimeWorkspace).boundRoot = some b := hfound
  have hworkspace : (w.setting runtimeWorkspace).workspace = w.workspace := rfl
  rw [validateForSession, hkey]
  dsimp only
  rw [requireOwnedSession_owned rfl, filesPath_bound hfound, hworkspace, hq, hbound]
  exact if_pos (isWithin_iff.mpr hb)

end Unbound

theorem validateRelative_eq (runtimeWorkspace path : Text) (absolute : Bool) :
    (w.setting runtimeWorkspace).validateRelative path absolute =
      (w.setting runtimeWorkspace).validateForSession path absolute := by
  have hkey : (w.setting runtimeWorkspace).sessionKey ≠ [] := sessionKey_ne
  rw [validateRelative, if_pos hkey]

theorem boundFolder_eq (runtimeWorkspace : Text) :
    (w.setting runtimeWorkspace).boundFolder =
      (w.findLedgerRoot runtimeWorkspace).map Subtype.val := by
  have hkey : (w.setting runtimeWorkspace).sessionKey ≠ [] := sessionKey_ne
  rw [boundFolder, if_pos hkey]
  rfl

theorem validateFilePath_above {b : w.Root} (hread : w.findLedgerRoot w.runtimeWorkspace = none)
    (hfound : w.findLedgerRoot [] = some b) (hb : b.val <+: w.workspace)
    (hlinked : ¬ w.FilesDirect) {safeKey : Text}
    (hsafe : sessionDirKey w.sessionKey.text = some safeKey) {path : Text} {q : List Text}
    (h : (w.setting w.runtimeWorkspace).validateFilePath path = .ok q) :
    (w.setting []).validateFilePath path = .ok q := by
  have hsession : ∀ {text : Text} {absolute : Bool},
      (w.setting w.runtimeWorkspace).validateForSession text absolute = .ok q →
        (w.setting []).validateForSession text absolute = .ok q := by
    intro text absolute h
    obtain ⟨hq, hws⟩ := validateForSession_linked hread hlinked h
    exact validateForSession_bound hfound hsafe hq (List.IsPrefix.trans hb hws)
  unfold validateFilePath at h ⊢
  simp only [validateRelative_eq, boundFolder_eq, hread, hfound] at h ⊢
  split at h
  · cases h
  · rename_i hne
    rw [if_neg hne]
    split at h
    · rename_i hsandbox
      rw [if_pos hsandbox]
      exact hsession h
    · rename_i hsandbox
      rw [if_neg hsandbox]
      split at h
      · rename_i hhost
        rw [if_pos hhost]
        obtain ⟨candidate, hcandidate, h⟩ := bind_ok h
        have hnone : ¬ (Option.map Subtype.val (none : Option w.Root)).any (isWithin candidate)
            = true := Bool.false_ne_true
        rw [if_neg hnone] at h
        split at h
        · cases h
        · rename_i hin
          have hws : w.workspace <+: candidate :=
            isWithin_iff.mp (Bool.not_eq_false _ ▸ hin)
          obtain ⟨hq, -⟩ := validateForSession_linked hread hlinked h
          have hsame := resolveUnder_relative (s := w.setting w.runtimeWorkspace)
            (resolveUnder_canonical hcandidate) hws
          obtain rfl : candidate = q := Except.ok.inj (hsame.symm.trans hq)
          have hcandidate' : (w.setting []).resolveUnder (w.setting []).cwd path = .ok candidate :=
            hcandidate
          have hbound : (Option.map Subtype.val (some b)).any (isWithin candidate) = true :=
            isWithin_iff.mpr (List.IsPrefix.trans hb hws)
          rw [hcandidate']
          show (if (Option.map Subtype.val (some b)).any (isWithin candidate) = true then _
            else _) = _
          rw [if_pos hbound, requireOwnedSession_owned rfl]
          rfl
      · rename_i hhost
        rw [if_neg hhost]
        exact hsession h

/-! ## The file -/

theorem strip_dot : strip ['.'] = ['.'] := rfl

theorem strip_placeText (q : List Text) : strip (placeText q) = placeText q := by
  have happend : placeText q = '/' :: ('.' :: '/' :: (Paths.join q ++ ['/']) ++ ['.']) := by
    simp [placeText]
  rw [happend]
  exact strip_ends rfl rfl _

theorem ownDir_accepted {runtimeWorkspace : Text} {safeKey : Text}
    (hfound : w.findLedgerRoot runtimeWorkspace = none)
    (hsafe : sessionDirKey w.sessionKey.text = some safeKey) (hmade : w.filesDirMade = true)
    (hcanonical : Canonical w.tree (w.workspace ++ [sessionsDirName, safeKey])) :
    (w.setting runtimeWorkspace).Accepted (w.workspace ++ [sessionsDirName, safeKey]) := by
  have hdir : (w.setting runtimeWorkspace).filesDirMade = true := by
    show ((w.findLedgerRoot runtimeWorkspace).isSome || w.filesDirMade) = true
    rw [hmade, Bool.or_true]
  have hareas := mem_areas_session (s := w.setting runtimeWorkspace) sessionKey_ne rfl hsafe
    hdir
  exact accepted_open hcanonical (hareas.2 hfound) prefix_rfl

theorem ownDir_refused {runtimeWorkspace : Text} {safeKey : Text} {b : w.Root}
    (hfound : w.findLedgerRoot runtimeWorkspace = some b)
    (hout : ¬ b.val <+: w.workspace ++ [sessionsDirName, safeKey]) :
    ¬ (w.setting runtimeWorkspace).Accepted (w.workspace ++ [sessionsDirName, safeKey]) := by
  have hbound : (w.setting runtimeWorkspace).boundRoot = some b := hfound
  rintro ⟨-, a, ha, hroot, hshut⟩
  obtain ⟨-, ⟨b', hb', rfl⟩ | ⟨key, -, -, ⟨hnone, -⟩ | rfl⟩⟩ := area_cases sessionKey_ne ha
  · rw [hbound] at hb'
    cases hb'
    exact hout hroot
  · rw [hbound] at hnone
    cases hnone
  · exact hshut ⟨_, sessions_mem, sessionDir_below safeKey⟩

/-- Some path leads `files.read` to something that `files.write` does not reach, where a folder is
found without the runtime only. -/
theorem files_differ {b : w.Root} {safeKey : Text}
    (hread : w.findLedgerRoot w.runtimeWorkspace = none) (hfound : w.findLedgerRoot [] = some b)
    (hsafe : sessionDirKey w.sessionKey.text = some safeKey) (hmade : w.filesDirMade = true)
    (hnot : w.FilesDirect ∨ ¬ b.val <+: w.workspace) :
    ∃ path q, w.ReadsDirectly path q ∧ w.filesWrite path ≠ .ok q := by
  have hexists : ∀ q, q <+: w.filesDir safeKey → w.Exists q :=
    fun q hq => Or.inr (Or.inr ⟨hread, hmade, safeKey, hsafe, hq⟩)
  have hwrite := dot_bound hfound hsafe
  by_cases hdirect : Canonical w.tree (w.filesDir safeKey)
  · by_cases hown : b.val <+: w.workspace ++ [sessionsDirName, safeKey]
    · refine ⟨['.'], w.filesDir safeKey, ⟨?_, hexists _ prefix_rfl⟩, ?_⟩
      · exact dot_unbound hread hsafe hmade hdirect
      · intro h
        have heq := Except.ok.inj (hwrite.symm.trans h)
        have hlength := congrArg List.length heq
        have hle := hown.length_le
        split at hlength
        · simp [filesDir] at hlength
        · simp [filesDir] at hlength hle
          omega
    · have hcanonical : Canonical w.tree (w.workspace ++ [sessionsDirName, safeKey]) :=
        hdirect.of_below ⟨[filesDirName], by simp [filesDir]⟩
      have haccepted := ownDir_accepted hread hsafe hmade hcanonical
      refine ⟨placeText (w.workspace ++ [sessionsDirName, safeKey]),
        w.workspace ++ [sessionsDirName, safeKey], ⟨?_, hexists _ ?_⟩, ?_⟩
      · rw [filesRead, resolvePath, strip_placeText]
        exact validateFilePath_placeText haccepted
      · exact ⟨[filesDirName], by simp [filesDir]⟩
      · intro h
        exact ownDir_refused hfound hown (validateFilePath_accepted h)
  · have hhome : ¬ b.val <+: w.workspace := by
      rcases hnot with ⟨key, hkey, hfiles⟩ | h
      · rw [hsafe] at hkey
        cases hkey
        exact absurd hfiles hdirect
      · exact h
    refine ⟨['.'], w.workspace, ⟨?_, hexists _ (workspace_below safeKey)⟩, ?_⟩
    · exact dot_linked hread hsafe hmade hdirect
    · intro h
      have heq := Except.ok.inj (hwrite.symm.trans h)
      rw [if_neg fun hin => hhome (isWithin_iff.mp hin)] at heq
      exact (findLedgerRoot_folder hfound).1 heq

theorem not_read_of_refused (hread : w.findLedgerRoot w.runtimeWorkspace = none) (h : w.Refused)
    {path : Text} {q : List Text} : w.filesRead path ≠ .ok q := by
  intro hok
  have hbound : (w.setting w.runtimeWorkspace).boundRoot = none := hread
  obtain ⟨-, a, ha, -⟩ := validateFilePath_accepted hok
  obtain ⟨-, ⟨b, hb, -⟩ | ⟨safeKey, hsafe, hmade, -⟩⟩ := area_cases sessionKey_ne ha
  · rw [hbound] at hb
    cases hb
  · rcases h with hnone | hnot
    · have hkey : sessionDirKey w.sessionKey.text = some safeKey := hsafe
      rw [hnone] at hkey
      cases hkey
    · have hdir : ((w.findLedgerRoot w.runtimeWorkspace).isSome || w.filesDirMade) = true := hmade
      rw [hread, hnot] at hdir
      cases hdir

/-- Without a folder for `files.read`, the handlers resolve its paths alike exactly where none is
found without the runtime either, or where it changes nothing. -/
theorem file_iff (hread : w.findLedgerRoot w.runtimeWorkspace = none) :
    (∀ path q, w.ReadsDirectly path q → w.filesWrite path = .ok q) ↔
      w.Refused ∨ w.Unbound [] ∨ w.Above := by
  rw [← findLedgerRoot_none_iff]
  constructor
  · intro h
    by_contra hcond
    obtain ⟨hused, hcond⟩ := not_or.mp hcond
    obtain ⟨hfound, habove⟩ := not_or.mp hcond
    obtain ⟨b, hb⟩ := Option.ne_none_iff_exists'.mp hfound
    obtain ⟨hsafe, hmade⟩ := not_or.mp hused
    obtain ⟨safeKey, hsafe⟩ := Option.ne_none_iff_exists'.mp hsafe
    have hnot : w.FilesDirect ∨ ¬ b.val <+: w.workspace := by
      by_contra hneither
      obtain ⟨hlinked, hin⟩ := not_or.mp hneither
      exact habove ⟨⟨b, hb, not_not.mp hin⟩, hlinked⟩
    obtain ⟨path, q, hq, hne⟩ :=
      files_differ hread hb hsafe (Bool.not_eq_false _ ▸ hmade) hnot
    exact hne (h path q hq)
  · intro h path q hq
    by_cases hused : w.Refused
    · exact absurd hq.1 (not_read_of_refused hread hused)
    · obtain ⟨safeKey, hsafe⟩ := Option.ne_none_iff_exists'.mp (not_or.mp hused).1
      rcases h with hrefused | hfound | ⟨⟨b, hb, hin⟩, hlinked⟩
      · exact absurd hrefused hused
      · have hsame : w.setting [] = w.setting w.runtimeWorkspace := by
          rw [setting, setting]
          simp only [hread, hfound]
        rw [filesWrite, resolvePath, hsame]
        exact hq.1
      · exact validateFilePath_above hread hb hin hlinked hsafe hq.1

/-- **One file and one ledger for a session exactly where no folder is found for it, neither with
the runtime nor without, or where the folder found without it changes no path.** -/
theorem agrees_iff (w : World) :
    w.Agrees ↔ w.Unbound w.runtimeWorkspace ∧ (w.Refused ∨ w.Unbound [] ∨ w.Above) := by
  constructor
  · intro h
    have hunbound := ledger_iff.mp h.ledger
    refine ⟨hunbound, (file_iff ((findLedgerRoot_none_iff _).mpr hunbound)).mp ?_⟩
    intro path q hq
    exact h.file path q hq _ List.mem_cons_self
  · rintro ⟨hunbound, hcond⟩
    refine ⟨fun path q hq handler hhandler => ?_, ledger_iff.mpr hunbound⟩
    have hwrite := (file_iff ((findLedgerRoot_none_iff _).mpr hunbound)).mpr hcond path q hq
    simp only [List.mem_cons, List.not_mem_nil, or_false] at hhandler
    rcases hhandler with rfl | rfl | rfl | rfl | rfl <;> exact hwrite

/-! ## A session bound to a folder -/

/-- The workspace `/w` and the folder `/f`. -/
def twoFolders : Tree := fun p => if p = [['w']] ∨ p = [['f']] then some .dir else none

theorem twoFolders_canonical {q : List Text} (h : ∀ c ∈ q, Entry c) : Canonical twoFolders q where
  entries := h
  direct p _ _ target hlink := by
    unfold twoFolders at hlink
    split at hlink <;> cases hlink

theorem dirKey_first : sessionDirKey ['t', ':', '1'] = some ['t', '_', '1'] := by decide

/-- The session `t:1`, with `/f` in its record and a copy of its own there. -/
def boundSession : World where
  tree := twoFolders
  links := 40
  cwd := []
  workspace := [['w']]
  workspace_canonical := twoFolders_canonical (by decide)
  clientId := ['d']
  sessionKey := ⟨['t', ':', '1'], by decide⟩
  filesDirMade := true
  filesDir_leads := by
    intro _ safeKey hsafe
    rw [dirKey_first] at hsafe
    cases hsafe
    decide
  runtimeWorkspace := []
  stubWorkspace := ['/', 'f']
  boundWorkspaces := [['/', 'f']]
  validateWorkspace := fun text =>
    if text = ['/', 'f'] then some ⟨[['f']], twoFolders_canonical (by decide)⟩ else none
  copyOwner := fun root => if root = [['f']] then some (some ['d']) else none
  hasEntries := fun _ => true

/-- The handlers do not always agree on the ledger: the one of a session bound to a folder is shown
from the folder, and they change the one in the workspace. -/
theorem boundSession_ledgers : ¬ ∀ w : World, w.Agrees := by
  intro h
  have hunbound := ledger_iff.mp (h boundSession).ledger
  have hseed : (['/', 'f'] : Text) ∈ [boundSession.runtimeWorkspace, boundSession.stubWorkspace] :=
    List.mem_cons_of_mem _ List.mem_cons_self
  exact hunbound.seeds ['/', 'f'] hseed ⟨[['f']], twoFolders_canonical (by decide)⟩ rfl
    ⟨by decide, rfl⟩

end World

end MiqroForge.Workspace.FileHandlers
