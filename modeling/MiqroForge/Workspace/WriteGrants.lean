import MiqroForge.Workspace.Snapshots
import MiqroForge.Workspace.PosixHost

/-!
Write authorization: `_resolve_write_shared_roots` of `filesystem.py` with its card, the grants of
`write_grants.py`, and `WriteFileTool.execute` and `EditFileTool.execute` behind them.
-/

namespace MiqroForge.Workspace.WriteGrants

open PyText ToolPaths List

inductive Tool
  | writeFile
  | editFile
  deriving DecidableEq

inductive Answer
  | once
  | alwaysDir
  | deny
  deriving DecidableEq

/-- A card that was shown, with its answer. -/
structure Card where
  target : Place
  dir : Place
  answer : Answer
  deriving DecidableEq

/-- What keeps the writes of a call inside: the directory restriction, or the sandbox of WSL. -/
inductive Boundary (host : Host)
  | native (sandboxRoot : Option Text)
  | wsl (sessionWorkspace : Directory host) (sandboxWorkspace : Text)

/-- The write tools of one registry, with the boundary enforced. -/
structure Registry (host : Host) where
  /-- `_base_workspace`, the directory writes are restricted to. -/
  base : Directory host
  /-- `_workspace` -/
  workspace : Directory host
  sharedRoots : List Place
  allowUserRoots : Bool
  /-- `_bypass_approval` -/
  bypass : Bool
  /-- Whether there is a `_write_resolver`. -/
  interactive : Bool
  home : Option Place
  config : Place
  sessions : Place
  sessions_resolves : host.resolve (host.join base.path "sessions".toList) = some sessions
  /-- `_resolve_session_dir` -/
  sessionDir : Text → Option (Directory host)
  boundary : Text → Boundary host
  /-- A sandbox works in the workspace or in a directory of it. -/
  sandboxed : ∀ key ws inside, boundary key = .wsl ws inside →
    within host base.place ws.place = true

/-- What a call does to a file that it finds. -/
inductive Change
  | whole (content : Text)
  | replace (oldText newText : Text)

structure Call where
  tool : Tool
  /-- The session key, `norm_session_key` of it. -/
  session : Text
  path : Text
  change : Change
  authorizePaths : List Text
  /-- The `_user_roots` the harness gives. -/
  userRoots : List Place
  /-- The answers to the cards of the call, in their order. -/
  answers : List Answer
  /-- What `exists_check` answers; `none` when it raises. -/
  probe : Option Bool
  /-- The links of the file system on the way of a path. -/
  linked : Text → Bool
  isFile : Place → Bool
  /-- The text of the file inside the sandbox. -/
  inside : Option Text
  /-- Whether the write itself succeeds. -/
  writes : Bool

/-- What authorization has done in a call. -/
structure Authorization where
  /-- `_granted` of the tool, for the session. -/
  granted : List Place
  /-- The bucket of the session in `SessionWriteGrants`. -/
  store : List Place
  onceGranted : List Place
  answers : List Answer
  cards : List Card
  /-- The directories that were granted without a card. -/
  bypassed : List Place

inductive Verdict
  /-- The paths cannot be resolved, and the call ends. -/
  | raised
  | denied
  | roots (shared : List Place)

section Functions

local instance : LawfulBEq Place := inferInstance
variable {host : Host}

/-- `SessionWriteGrants.add` -/
def addGrant (host : Host) (bucket : List Place) (dir : Place) : List Place :=
  if bucket.any fun d => host.normcase d == host.normcase dir then bucket else bucket ++ [dir]

def Authorization.grantSessionDir (host : Host) (a : Authorization) (dir : Place) :
    Authorization :=
  { a with granted := a.granted.insert (host.normcase dir), store := addGrant host a.store dir }

def topLevelSystemDirs : List Text :=
  ["users", "windows", "program files", "program files (x86)", "programdata", "perflogs",
    "$recycle.bin", "system volume information", "bin", "boot", "dev", "etc", "home", "lib",
    "lib32", "lib64", "libx32", "opt", "proc", "root", "run", "sbin", "srv", "sys", "usr", "var",
    "mnt", "media", "system", "library", "applications"].map String.toList

def parentPlace (host : Host) (p : Place) : Place := if host.isRoot p then p else p.dropLast

def isTopLevelSystemDir (host : Host) (root : Place) : Bool :=
  host.isRoot (parentPlace host root) &&
    let name := host.lower (if host.isRoot root then [] else root.getLastD [])
    topLevelSystemDirs.any fun sysName => name == sysName || (name ++ [' ']).isPrefixOf sysName

def targetInRoots (host : Host) (target : Place) (roots : List Place) : Bool :=
  roots.any fun root => within host root target

namespace Registry
variable (reg : Registry host)

def isProtectedExtraRoot (root : Place) : Bool :=
  within host root reg.config || (within host root reg.sessions || within host reg.sessions root)

def grantableDir (target : Place) : Option Place :=
  let grant := parentPlace host target
  if host.isRoot grant then none
  else if reg.home = some grant then none
  else if isTopLevelSystemDir host grant then none
  else if reg.isProtectedExtraRoot grant then none
  else some grant

/-- `_write_target_host_path`, from the workspace. -/
def writeTargetHostPath (path : Text) : Option Place :=
  (host.expanduser path).map fun p =>
    let p := if host.isAbsolute p then p else host.join reg.base.path p
    (host.resolve p).getD (host.absolute p)

def resolveWriteSharedRoots (path : Text) (shared : List Place) (a : Authorization) :
    Verdict × Authorization :=
  match reg.writeTargetHostPath path with
  | none => (.raised, a)
  | some target =>
    if targetInRoots host target (reg.base.place :: shared ++ a.granted ++ a.onceGranted)
    then (.roots (shared ++ a.granted ++ a.onceGranted), a)
    else
      match reg.grantableDir target with
      | none => (.denied, a)
      | some dir =>
        if reg.bypass then
          (.roots (shared ++ [dir]),
            { a.grantSessionDir host dir with bypassed := a.bypassed ++ [dir] })
        else if !reg.interactive then (.denied, a)
        else
          let answer := a.answers.headD .deny
          let shown := { a with
            answers := a.answers.tail, cards := a.cards ++ [⟨target, dir, answer⟩] }
          match answer with
          | .alwaysDir => (.roots (shared ++ [dir]), shown.grantSessionDir host dir)
          | .once => (.roots (shared ++ [dir]),
              { shown with onceGranted := shown.onceGranted.insert (host.normcase dir) })
          | .deny => (.denied, shown)

/-- `_preauthorize_paths`, and whether the call goes on. -/
def preauthorizePaths (shared : List Place) : List Text → Authorization → Bool × Authorization
  | [], a => (true, a)
  | path :: paths, a =>
    match reg.resolveWriteSharedRoots path shared a with
    | (.roots _, a) => preauthorizePaths shared paths a
    | (.denied, a) => (false, a)
    | (.raised, a) => (false, a)

def effectiveSharedRoots (call : Call) : List Place :=
  if reg.allowUserRoots then
    call.userRoots.foldl (fun merged p => merged ++ [p].filter (· ∉ merged)) reg.sharedRoots
  else reg.sharedRoots

/-- The path behind `_redirect_new_file_write`. -/
def redirectedPath (call : Call) : Text :=
  redirectNewFileWrite host call.path reg.base (reg.sessionDir call.session) call.probe

/-- The directory relative paths are written in. -/
def writeDir (call : Call) : Directory host := (reg.sessionDir call.session).getD reg.workspace

/-- Where a path in the sandbox that was not checked is on the host: in a drive, and in the copy
that is made of what is not below `/mnt/`. -/
def unchecked (sandboxPath : Text) : List Place :=
  let drive := match mount? sandboxPath with
    | some (c, rest) => if c.isLower then host.resolve (onDrive c rest) else none
    | none => none
  let copy := if "/mnt/".toList.isPrefixOf sandboxPath then none
    else host.resolve (sandboxToHostPath host sandboxPath reg.workspace)
  drive.toList ++ copy.toList

/-- The place a path leads to as it is written, before any check; and whether it is checked. -/
def reached (call : Call) (path : Text) : List Place × Bool :=
  match reg.boundary call.session with
  | .native sandboxRoot =>
    (((hostPath host sandboxRoot (reg.writeDir call) path).bind host.resolve).toList, true)
  | .wsl sessionWorkspace sandboxWorkspace =>
    let (spelling, checked) := sandboxSpelling host path sessionWorkspace sandboxWorkspace
    match mounted? spelling with
    | some (c, rest) =>
      if checked then ((host.resolve (host.normpath (onDrive c rest))).toList, true)
      else (reg.unchecked spelling, false)
    | none => (reg.unchecked spelling, false)

/-- The files of the host that a write of the path is for, with these shared roots. -/
def landings (call : Call) (path : Text) (shared : List Place) : List Place :=
  let sess := reg.sessionDir call.session
  match reg.boundary call.session with
  | .native sandboxRoot =>
    let resolved := resolvePath host call.linked sandboxRoot (some reg.base.place) shared
      (reg.writeDir call) path
    (resolved.filter fun place => !isForeign host place reg.base sess).toList
  | .wsl sessionWorkspace sandboxWorkspace =>
    match resolveSandboxPath host call.isFile path sessionWorkspace sandboxWorkspace shared
        sess with
    | none => []
    | some sandboxPath =>
      match sandboxPath.place with
      | some place => [place]
      | none => reg.unchecked sandboxPath.text

/-- `execute`, up to the write: what authorization has done, and the files the write is for. -/
def execute (call : Call) (a : Authorization) : Authorization × List Place :=
  let shared := reg.effectiveSharedRoots call
  if call.tool = .writeFile ∧ isOffice host call.path then (a, [])
  else match reg.preauthorizePaths shared call.authorizePaths a with
  | (false, a) => (a, [])
  | (true, a) =>
    let path := reg.redirectedPath call
    match reg.resolveWriteSharedRoots path shared a with
    | (.raised, a) => (a, [])
    | (.denied, a) => (a, reg.landings call path shared)
    | (.roots authorized, a) => (a, reg.landings call path authorized)

end Registry

/-! ## The registry at work -/

/-- The consents are for the statement only. -/
structure State where
  granted : Tool → Text → List Place
  store : Text → List Place
  files : Place → Option Text
  /-- The directories a session was granted for longer than a call: by a card answered with
  `always_dir`, or by the bypass. -/
  consents : List (Text × Place)

def State.start (files : Place → Option Text) : State := ⟨fun _ _ => [], fun _ => [], files, []⟩

def State.consentsOf (s : State) (session : Text) : List Place :=
  (s.consents.filter fun consent => consent.1 = session).map (·.2)

/-- What a call of the session finds granted. -/
def State.authorization (s : State) (call : Call) : Authorization :=
  ⟨s.granted call.tool call.session, s.store call.session, [], call.answers, [], []⟩

/-- The directories granted in a call for longer than it. -/
def Authorization.lasting (a : Authorization) : List Place :=
  (a.cards.filter fun card => card.answer = .alwaysDir).map (·.dir) ++ a.bypassed

/-- The content the tool writes, from the one it finds. -/
def Change.apply (change : Change) (current : Option Text) : Option Text :=
  match change with
  | .whole content => some content
  | .replace oldText newText => current.bind (Snapshots.replaceOnce oldText newText)

namespace Registry
variable (reg : Registry host) (s : State) (call : Call)

/-- The authorization at the end of the call, with the cards it showed. -/
def settled : Authorization := (reg.execute call (s.authorization call)).1

/-- The file that `edit_file` reads. -/
def current (places : List Place) : Option Text :=
  if (reg.reached call (reg.redirectedPath call)).2 then places.head?.bind s.files else call.inside

/-- The content that is written, and the files it is written to. -/
def writing : Option (Text × List Place) :=
  let places := (reg.execute call (s.authorization call)).2
  if call.writes then (call.change.apply (reg.current s call places)).map fun text => (text, places)
  else none

def written : List Place := ((reg.writing s call).map (·.2)).getD []

def act : State where
  granted tool session := if tool = call.tool ∧ session = call.session then
      (reg.settled s call).granted else s.granted tool session
  store session := if session = call.session then (reg.settled s call).store else s.store session
  files place := match reg.writing s call with
    | some (text, places) => if place ∈ places then some text else s.files place
    | none => s.files place
  consents := s.consents ++ (reg.settled s call).lasting.map fun dir => (call.session, dir)

/-- Inside the workspace, a shared root or a root the harness gave. -/
def Legal (place : Place) : Prop :=
  within host reg.base.place place = true ∨
    ∃ root ∈ reg.effectiveSharedRoots call, within host root place = true

/-- A card of the call named the file or a directory with it, and was answered with consent. -/
def Shown (host : Host) (cards : List Card) (place : Place) : Prop :=
  ∃ card ∈ cards, card.answer ≠ .deny ∧ (card.target = place ∨ within host card.dir place = true)

structure Lawful : Prop where
  /-- What is written outside is named by a card of the call or covered by a consent of the
  session. -/
  authorized : ∀ place ∈ reg.written s call, reg.Legal call place ∨
    Shown host (reg.settled s call).cards place ∨
    ∃ dir ∈ (reg.act s call).consentsOf call.session, within host dir place = true
  /-- What later calls and `exec` find granted are consents of their session. -/
  lasting : ∀ session, (∀ dir ∈ (reg.act s call).store session,
      dir ∈ (reg.act s call).consentsOf session) ∧
    ∀ tool, ∀ root ∈ (reg.act s call).granted tool session,
      ∃ dir ∈ (reg.act s call).consentsOf session, host.normcase dir = root
  /-- A call with a declined card changes no file. -/
  declined : (∃ card ∈ (reg.settled s call).cards, card.answer = .deny) →
    (reg.act s call).files = s.files

/-- Seen from the sandbox or from the directory relative paths are written in, the path leads into
what may be written only if it does so seen from the workspace, where cards look at it. -/
structure Sound : Prop where
  covered : ∀ place ∈ (reg.reached call (reg.redirectedPath call)).1, reg.Legal call place →
    ∀ target, reg.writeTargetHostPath (reg.redirectedPath call) = some target →
      reg.Legal call target ∨
        ∃ root ∈ s.granted call.tool call.session, within host root target = true
  /-- A path in the sandbox that is not checked is for files that may be written. -/
  checked : (reg.reached call (reg.redirectedPath call)).2 = false →
    ∀ place ∈ (reg.reached call (reg.redirectedPath call)).1, reg.Legal call place

end Registry

/-! ## One authorization -/

/-- A card on top of those that were shown. -/
def Authorization.shown (a : Authorization) (target dir : Place) (answer : Answer) :
    Authorization :=
  { a with answers := a.answers.tail, cards := a.cards ++ [⟨target, dir, answer⟩] }

/-- The ways `_resolve_write_shared_roots` ends. -/
inductive Resolved (reg : Registry host) (path : Text) (shared : List Place) (a : Authorization) :
    Verdict → Authorization → Prop
  | raised : Resolved reg path shared a .raised a
  | covered : Resolved reg path shared a (.roots (shared ++ a.granted ++ a.onceGranted)) a
  | refused : Resolved reg path shared a .denied a
  | bypassed (dir : Place) : Resolved reg path shared a (.roots (shared ++ [dir]))
      { a.grantSessionDir host dir with bypassed := a.bypassed ++ [dir] }
  | always (target dir : Place) : Resolved reg path shared a (.roots (shared ++ [dir]))
      ((a.shown target dir .alwaysDir).grantSessionDir host dir)
  | once (target dir : Place) : Resolved reg path shared a (.roots (shared ++ [dir]))
      { a.shown target dir .once with onceGranted := a.onceGranted.insert (host.normcase dir) }
  | declined (target dir : Place) (htarget : reg.writeTargetHostPath path = some target)
      (hout : targetInRoots host target
        (reg.base.place :: shared ++ a.granted ++ a.onceGranted) = false) :
      Resolved reg path shared a .denied (a.shown target dir .deny)

section Proofs
variable {reg : Registry host}

theorem resolved (reg : Registry host) (path : Text) (shared : List Place) (a : Authorization) :
    Resolved reg path shared a (reg.resolveWriteSharedRoots path shared a).1
      (reg.resolveWriteSharedRoots path shared a).2 := by
  unfold Registry.resolveWriteSharedRoots
  cases htarget : reg.writeTargetHostPath path with
  | none => exact .raised
  | some target =>
    dsimp only
    split
    · exact .covered
    · next hout =>
      cases reg.grantableDir target with
      | none => exact .refused
      | some dir =>
        dsimp only
        split
        · exact .bypassed dir
        · split
          · exact .refused
          · cases a.answers.headD .deny with
            | once => exact .once target dir
            | alwaysDir => exact .always target dir
            | deny => exact .declined target dir htarget (Bool.not_eq_true _ ▸ hout)

/-- What is granted in a call of a session, with the consents the session had before, goes back to
a consent or to a card answered with `once`. -/
structure Founded (host : Host) (earlier : List Place) (a : Authorization) : Prop where
  granted : ∀ root ∈ a.granted, ∃ dir ∈ earlier ++ a.lasting, host.normcase dir = root
  store : ∀ dir ∈ a.store, dir ∈ earlier ++ a.lasting
  once : ∀ root ∈ a.onceGranted, ∃ card ∈ a.cards, card.answer = .once ∧
    host.normcase card.dir = root

theorem lasting_shown (a : Authorization) (target dir : Place) (answer : Answer) {d : Place}
    (h : d ∈ a.lasting) : d ∈ (a.shown target dir answer).lasting := by
  rcases mem_append.mp h with h | h
  · obtain ⟨card, hcard, rfl⟩ := mem_map.mp h
    obtain ⟨hmem, halways⟩ := mem_filter.mp hcard
    refine mem_append_left _ (mem_map.mpr ⟨card, mem_filter.mpr ⟨?_, halways⟩, rfl⟩)
    exact mem_append_left _ hmem
  · exact mem_append_right _ h

theorem Founded.shown {earlier : List Place} {a : Authorization} (h : Founded host earlier a)
    (target dir : Place) (answer : Answer) : Founded host earlier (a.shown target dir answer) where
  granted root hroot := by
    obtain ⟨d, hd, heq⟩ := h.granted root hroot
    refine ⟨d, ?_, heq⟩
    rcases mem_append.mp hd with hd | hd
    · exact mem_append_left _ hd
    · exact mem_append_right _ (lasting_shown a target dir answer hd)
  store d hd := by
    rcases mem_append.mp (h.store d hd) with hd | hd
    · exact mem_append_left _ hd
    · exact mem_append_right _ (lasting_shown a target dir answer hd)
  once root hroot := by
    obtain ⟨card, hcard, hanswer⟩ := h.once root hroot
    exact ⟨card, mem_append_left _ hcard, hanswer⟩

theorem Founded.grantSessionDir {earlier : List Place} {a : Authorization}
    (h : Founded host earlier a) {dir : Place} (hdir : dir ∈ earlier ++ a.lasting) :
    Founded host earlier (a.grantSessionDir host dir) where
  granted root hroot := by
    rcases mem_insert_iff.mp hroot with rfl | hroot
    · exact ⟨dir, hdir, rfl⟩
    · exact h.granted root hroot
  store d hd := by
    change d ∈ addGrant host a.store dir at hd
    unfold addGrant at hd
    split at hd
    · exact h.store d hd
    · rcases mem_append.mp hd with hd | hd
      · exact h.store d hd
      · rw [mem_singleton.mp hd]
        exact hdir
  once := h.once

theorem Founded.bypassed {earlier : List Place} {a : Authorization} (h : Founded host earlier a)
    (dir : Place) : Founded host earlier { a with bypassed := a.bypassed ++ [dir] } := by
  have hgrow : ∀ d, d ∈ earlier ++ a.lasting →
      d ∈ earlier ++ Authorization.lasting { a with bypassed := a.bypassed ++ [dir] } := by
    intro d hd
    rcases mem_append.mp hd with hd | hd
    · exact mem_append_left _ hd
    · refine mem_append_right _ ?_
      rcases mem_append.mp hd with hd | hd
      · exact mem_append_left _ hd
      · exact mem_append_right _ (mem_append_left _ hd)
  exact ⟨fun root hroot => (h.granted root hroot).imp fun d hd => ⟨hgrow d hd.1, hd.2⟩,
    fun d hd => hgrow d (h.store d hd), h.once⟩

variable {path : Text}

theorem Resolved.founded {shared earlier : List Place} {a b : Authorization}
    {v : Verdict} (hr : Resolved reg path shared a v b) (h : Founded host earlier a) :
    Founded host earlier b := by
  cases hr with
  | raised => exact h
  | covered => exact h
  | refused => exact h
  | bypassed dir =>
    exact (h.bypassed dir).grantSessionDir (mem_append_right _
      (mem_append_right _ (mem_append_right _ (mem_singleton_self dir))))
  | always target dir =>
    refine (h.shown target dir .alwaysDir).grantSessionDir (mem_append_right _ ?_)
    refine mem_append_left _ (mem_map.mpr ⟨⟨target, dir, .alwaysDir⟩, ?_, rfl⟩)
    exact mem_filter.mpr ⟨mem_append_right _ (mem_singleton_self _), rfl⟩
  | once target dir =>
    have hshown := h.shown target dir .once
    refine ⟨hshown.granted, hshown.store, fun root hroot => ?_⟩
    rcases mem_insert_iff.mp hroot with rfl | hroot
    · exact ⟨_, mem_append_right _ (mem_singleton_self _), rfl, rfl⟩
    · exact hshown.once root hroot
  | declined target dir _ _ => exact h.shown target dir .deny

/-! ## The roots of a call -/

/-- A card answered with consent is for the directory. -/
def Named (host : Host) (cards : List Card) (root : Place) : Prop :=
  ∃ card ∈ cards, card.answer ≠ .deny ∧ (card.dir = root ∨ host.normcase card.dir = root)

def Consented (host : Host) (consents : List Place) (root : Place) : Prop :=
  ∃ dir ∈ consents, dir = root ∨ host.normcase dir = root

def Declined (cards : List Card) : Prop := ∃ card ∈ cards, card.answer = .deny

theorem within_of_eq {dir root place : Place} (h : dir = root ∨ host.normcase dir = root)
    (hin : within host root place = true) : within host dir place = true := by
  rcases h with rfl | rfl
  · exact hin
  · rwa [within_normcase] at hin

theorem Resolved.justified {shared roots earlier : List Place}
    {a b : Authorization} (hr : Resolved reg path shared a (.roots roots) b)
    (h : Founded host earlier a) {root : Place} (hroot : root ∈ roots) :
    root ∈ shared ∨ Named host b.cards root ∨ Consented host (earlier ++ b.lasting) root := by
  cases hr with
  | covered =>
    rcases mem_append.mp hroot with hroot | honce
    · rcases mem_append.mp hroot with hshared | hgranted
      · exact .inl hshared
      · obtain ⟨dir, hdir, heq⟩ := h.granted root hgranted
        exact .inr (.inr ⟨dir, hdir, .inr heq⟩)
    · obtain ⟨card, hcard, hanswer, heq⟩ := h.once root honce
      refine .inr (.inl ⟨card, hcard, ?_, .inr heq⟩)
      rw [hanswer]
      nofun
  | bypassed dir =>
    rcases mem_append.mp hroot with hshared | hdir
    · exact .inl hshared
    · refine .inr (.inr ⟨dir, ?_, .inl (mem_singleton.mp hdir).symm⟩)
      exact mem_append_right _ (mem_append_right _
        (mem_append_right _ (mem_singleton_self dir)))
  | always target dir =>
    rcases mem_append.mp hroot with hshared | hdir
    · exact .inl hshared
    · exact .inr (.inl ⟨⟨target, dir, .alwaysDir⟩,
        mem_append_right _ (mem_singleton_self _), nofun,
        .inl (mem_singleton.mp hdir).symm⟩)
  | once target dir =>
    rcases mem_append.mp hroot with hshared | hdir
    · exact .inl hshared
    · exact .inr (.inl ⟨⟨target, dir, .once⟩,
        mem_append_right _ (mem_singleton_self _), nofun,
        .inl (mem_singleton.mp hdir).symm⟩)

theorem not_declined_shown {a : Authorization} (h : ¬ Declined a.cards) {target dir : Place}
    {answer : Answer} (hanswer : answer ≠ .deny) :
    ¬ Declined (a.shown target dir answer).cards := by
  rintro ⟨card, hcard, hdeny⟩
  rcases mem_append.mp hcard with hcard | hcard
  · exact h ⟨card, hcard, hdeny⟩
  · obtain rfl := mem_singleton.mp hcard
    exact hanswer hdeny

theorem Resolved.not_declined {shared roots : List Place} {a b : Authorization}
    (hr : Resolved reg path shared a (.roots roots) b) (h : ¬ Declined a.cards) :
    ¬ Declined b.cards := by
  cases hr with
  | covered => exact h
  | bypassed dir => exact h
  | always target dir => exact not_declined_shown h nofun
  | once target dir => exact not_declined_shown h nofun

theorem Resolved.target_outside {shared : List Place} {a b : Authorization}
    {v : Verdict} (hr : Resolved reg path shared a v b) (h : ¬ Declined a.cards)
    (hdeclined : Declined b.cards) : v = .denied ∧
      ∃ target, reg.writeTargetHostPath path = some target ∧
        targetInRoots host target (reg.base.place :: shared ++ a.granted ++ a.onceGranted) =
          false := by
  cases hr with
  | raised => exact absurd hdeclined h
  | covered => exact absurd hdeclined h
  | refused => exact absurd hdeclined h
  | bypassed dir => exact absurd hdeclined h
  | always target dir => exact absurd hdeclined (not_declined_shown h nofun)
  | once target dir => exact absurd hdeclined (not_declined_shown h nofun)
  | declined target dir htarget hout => exact ⟨rfl, target, htarget, hout⟩

theorem Resolved.granted_subset {shared : List Place} {a b : Authorization}
    {v : Verdict} (hr : Resolved reg path shared a v b) {root : Place} (h : root ∈ a.granted) :
    root ∈ b.granted := by
  cases hr with
  | raised => exact h
  | covered => exact h
  | refused => exact h
  | bypassed dir => exact mem_insert_of_mem h
  | always target dir => exact mem_insert_of_mem h
  | once target dir => exact h
  | declined target dir _ _ => exact h

theorem preauthorize_keeps (reg : Registry host) (shared : List Place) (P : Authorization → Prop)
    (hstep : ∀ path v a b, Resolved reg path shared a v b → P a → P b) (paths : List Text)
    (a : Authorization) (h : P a) : P (reg.preauthorizePaths shared paths a).2 := by
  induction paths generalizing a with
  | nil => exact h
  | cons path paths ih =>
    have hr := resolved reg path shared a
    unfold Registry.preauthorizePaths
    cases hres : reg.resolveWriteSharedRoots path shared a with
    | mk v b =>
      rw [hres] at hr
      have hb := hstep _ _ _ _ hr h
      cases v with
      | raised => exact hb
      | denied => exact hb
      | roots r => exact ih b hb

theorem preauthorize_not_declined {shared : List Place} (paths : List Text) (a : Authorization)
    (h : ¬ Declined a.cards) (hgoes : (reg.preauthorizePaths shared paths a).1 = true) :
    ¬ Declined (reg.preauthorizePaths shared paths a).2.cards := by
  induction paths generalizing a with
  | nil => exact h
  | cons path paths ih =>
    have hr := resolved reg path shared a
    unfold Registry.preauthorizePaths at hgoes ⊢
    cases hres : reg.resolveWriteSharedRoots path shared a with
    | mk v b =>
      rw [hres] at hr hgoes
      cases v with
      | raised => cases hgoes
      | denied => cases hgoes
      | roots r => exact ih b (hr.not_declined h) hgoes

/-! ## Where a write lands -/

theorem canonical_place {isFile : Place → Bool} {mntPath : Text} {workspace : Directory host}
    {roots : List Place} {sess : Option (Directory host)} {c : Char} {rest : Text}
    {sandboxPath : SandboxPath} (hmounted : mounted? mntPath = some (c, rest))
    (h : canonicalizeWslMntPath host isFile mntPath workspace roots sess = some sandboxPath) :
    ∃ place, sandboxPath.place = some place ∧
      host.resolve (host.normpath (onDrive c rest)) = some place ∧
      ∃ root ∈ workspace.place :: roots, within host root place = true := by
  unfold canonicalizeWslMntPath at h
  rw [hmounted] at h
  dsimp only at h
  cases hresolve : host.resolve (host.normpath (onDrive c rest)) with
  | none =>
    rw [hresolve] at h
    cases h
  | some place =>
    rw [hresolve] at h
    dsimp only at h
    split at h
    · cases h
    · next hany =>
      have hroot : ∃ root ∈ workspace.place :: roots, within host root place = true := by
        rw [Bool.not_eq_true, Bool.not_eq_false'] at hany
        obtain ⟨root, hmem, hholds⟩ := any_eq_true.mp hany
        refine ⟨root, hmem, ?_⟩
        split at hholds
        · rw [eq_of_beq hholds]
          exact isPrefixOf_iff_prefix.mpr (prefix_refl _)
        · exact hholds
      split at h
      · cases h
      · split at h
        · cases h
          exact ⟨place, rfl, rfl, hroot⟩
        · cases h
          exact ⟨place, rfl, rfl, hroot⟩

theorem resolve_of_resolvePath {linked : Text → Bool} {sandboxRoot : Option Text}
    {allowed : Option Place} {shared : List Place} {workspace : Directory host} {path : Text}
    {place : Place}
    (h : resolvePath host linked sandboxRoot allowed shared workspace path = some place) :
    (hostPath host sandboxRoot workspace path).bind host.resolve = some place := by
  obtain ⟨p, hp, h⟩ := Option.bind_eq_some_iff.mp h
  rw [hp]
  split at h
  · cases h
  · exact (Option.filter_eq_some_iff.mp h).1

theorem landings_reached {call : Call} {path : Text} {shared : List Place} {place : Place}
    (h : place ∈ reg.landings call path shared) : place ∈ (reg.reached call path).1 ∧
      ((reg.reached call path).2 = true → within host reg.base.place place = true ∨
        ∃ root ∈ shared, within host root place = true) := by
  unfold Registry.landings at h
  unfold Registry.reached
  cases hboundary : reg.boundary call.session with
  | native sandboxRoot =>
    rw [hboundary] at h
    have hresolved := (Option.filter_eq_some_iff.mp (Option.mem_toList.mp h)).1
    refine ⟨Option.mem_toList.mpr (resolve_of_resolvePath hresolved), fun _ => ?_⟩
    exact resolvePath_allowed hresolved
  | wsl sessionWorkspace sandboxWorkspace =>
    rw [hboundary] at h
    dsimp only at h ⊢
    unfold resolveSandboxPath at h
    cases hspelling : sandboxSpelling host path sessionWorkspace sandboxWorkspace with
    | mk spelling checked =>
      rw [hspelling] at h
      cases hmounted : mounted? spelling with
      | none =>
        have hplain : ∀ sess, canonicalizeWslMntPath host call.isFile spelling sessionWorkspace
            shared sess = some ⟨spelling, none⟩ := by
          intro sess
          rw [canonicalizeWslMntPath, hmounted]
        dsimp only at h
        rw [hplain, ite_self] at h
        exact ⟨h, nofun⟩
      | some m =>
        obtain ⟨c, rest⟩ := m
        cases checked with
        | false => exact ⟨h, nofun⟩
        | true =>
          dsimp only at h
          rw [if_pos rfl] at h
          cases hcanonical : canonicalizeWslMntPath host call.isFile spelling sessionWorkspace
              shared (reg.sessionDir call.session) with
          | none =>
            rw [hcanonical] at h
            cases h
          | some sandboxPath =>
            obtain ⟨p, hp, hresolve, root, hroot, hin⟩ := canonical_place hmounted hcanonical
            rw [hcanonical] at h
            dsimp only at h
            rw [hp] at h
            obtain rfl := mem_singleton.mp h
            refine ⟨Option.mem_toList.mpr hresolve, fun _ => ?_⟩
            rcases mem_cons.mp hroot with rfl | hroot
            · exact .inl (within_trans (reg.sandboxed _ _ _ hboundary) hin)
            · exact .inr ⟨root, hroot, hin⟩

/-! ## One call -/

theorem consentsOf_act (reg : Registry host) (s : State) (call : Call) (session : Text) :
    (reg.act s call).consentsOf session = s.consentsOf session ++
      if session = call.session then (reg.settled s call).lasting else [] := by
  unfold State.consentsOf Registry.act
  rw [filter_append, map_append]
  congr 1
  split
  · next h =>
    rw [h, filter_eq_self.mpr (by simp)]
    simp [Function.comp_def]
  · next h =>
    rw [map_eq_nil_iff, filter_eq_nil_iff]
    intro consent hconsent
    obtain ⟨dir, -, rfl⟩ := mem_map.mp hconsent
    simpa using Ne.symm h

/-- The invariant of the registry: every grant is a consent of its session. -/
structure Inv (host : Host) (s : State) : Prop where
  granted : ∀ tool session, ∀ root ∈ s.granted tool session,
    ∃ dir ∈ s.consentsOf session, host.normcase dir = root
  store : ∀ session, ∀ dir ∈ s.store session, dir ∈ s.consentsOf session

variable {s : State}

theorem Inv.founded (h : Inv host s) (call : Call) :
    Founded host (s.consentsOf call.session) (s.authorization call) where
  granted root hroot := by
    obtain ⟨dir, hdir, heq⟩ := h.granted _ _ root hroot
    exact ⟨dir, mem_append_left _ hdir, heq⟩
  store dir hdir := mem_append_left _ (h.store _ dir hdir)
  once root hroot := by cases hroot

theorem execute_cases (reg : Registry host) (call : Call) (a : Authorization) :
    (reg.execute call a = (a, []) ∨
      ∃ b, b = (reg.preauthorizePaths (reg.effectiveSharedRoots call) call.authorizePaths a).2 ∧
        reg.execute call a = (b, [])) ∨
    ∃ b v c, (reg.preauthorizePaths (reg.effectiveSharedRoots call) call.authorizePaths a) =
        (true, b) ∧
      Resolved reg (reg.redirectedPath call) (reg.effectiveSharedRoots call) b v c ∧
      reg.execute call a = (c, match v with
        | .raised => []
        | .denied => reg.landings call (reg.redirectedPath call) (reg.effectiveSharedRoots call)
        | .roots authorized => reg.landings call (reg.redirectedPath call) authorized) := by
  unfold Registry.execute
  dsimp only
  split
  · exact .inl (.inl rfl)
  · cases hpre : reg.preauthorizePaths (reg.effectiveSharedRoots call) call.authorizePaths a with
    | mk goes b =>
      cases goes with
      | false => exact .inl (.inr ⟨b, rfl, rfl⟩)
      | true =>
        right
        have hr := resolved reg (reg.redirectedPath call)
          (reg.effectiveSharedRoots call) b
        refine ⟨b, _, _, rfl, hr, ?_⟩
        dsimp only
        cases hres : reg.resolveWriteSharedRoots (reg.redirectedPath call)
            (reg.effectiveSharedRoots call) b with
        | mk v c => cases v <;> rfl

theorem settled_founded (reg : Registry host) {s : State} (h : Inv host s) (call : Call) :
    Founded host (s.consentsOf call.session) (reg.settled s call) := by
  have hstart := h.founded call
  have hkeep := preauthorize_keeps reg (reg.effectiveSharedRoots call)
    (Founded host (s.consentsOf call.session)) (fun _ _ _ _ hr hb => hr.founded hb)
    call.authorizePaths (s.authorization call) hstart
  unfold Registry.settled
  rcases execute_cases reg call (s.authorization call) with
    (heq | ⟨b, rfl, heq⟩) | ⟨b, v, c, hpre, hr, heq⟩
  · rw [heq]
    exact hstart
  · rw [heq]
    exact hkeep
  · rw [heq]
    rw [hpre] at hkeep
    exact hr.founded hkeep

theorem Inv.act (reg : Registry host) {s : State} (h : Inv host s) (call : Call) :
    Inv host (reg.act s call) := by
  have hfounded := settled_founded reg h call
  constructor
  · intro tool session root hroot
    rw [consentsOf_act]
    change root ∈ (if tool = call.tool ∧ session = call.session then (reg.settled s call).granted
      else s.granted tool session) at hroot
    split at hroot
    · next hsame =>
      rw [if_pos hsame.2, hsame.2]
      exact hfounded.granted root hroot
    · obtain ⟨dir, hdir, heq⟩ := h.granted tool session root hroot
      exact ⟨dir, mem_append_left _ hdir, heq⟩
  · intro session dir hdir
    rw [consentsOf_act]
    change dir ∈ (if session = call.session then (reg.settled s call).store
      else s.store session) at hdir
    split at hdir
    · next hsame =>
      rw [if_pos hsame, hsame]
      exact hfounded.store dir hdir
    · exact mem_append_left _ (h.store session dir hdir)

theorem mem_written {call : Call} {place : Place}
    (h : place ∈ reg.written s call) :
    place ∈ (reg.execute call (s.authorization call)).2 := by
  unfold Registry.written Registry.writing at h
  dsimp only at h
  split at h
  · cases hchange : call.change.apply
        (reg.current s call (reg.execute call (s.authorization call)).2) with
    | none =>
      rw [hchange] at h
      cases h
    | some text =>
      rw [hchange] at h
      exact h
  · cases h

theorem files_act {call : Call}
    (h : (reg.execute call (s.authorization call)).2 = []) :
    (reg.act s call).files = s.files := by
  funext place
  change (match reg.writing s call with
    | some (text, places) => if place ∈ places then some text else s.files place
    | none => s.files place) = s.files place
  cases hwriting : reg.writing s call with
  | none => rfl
  | some w =>
    obtain ⟨text, places⟩ := w
    have hplaces : places = [] := by
      unfold Registry.writing at hwriting
      dsimp only at hwriting
      split at hwriting
      · obtain ⟨text', -, heq⟩ := Option.map_eq_some_iff.mp hwriting
        rw [← h]
        exact (Prod.mk.inj heq).2.symm
      · cases hwriting
    rw [hplaces]
    rfl

/-- **What is written outside was shown or consented to.** -/
theorem written_authorized (h : Inv host s) {call : Call} (hsound : reg.Sound s call)
    {place : Place} (hplace : place ∈ reg.written s call) :
    reg.Legal call place ∨ Registry.Shown host (reg.settled s call).cards place ∨
      ∃ dir ∈ (reg.act s call).consentsOf call.session, within host dir place = true := by
  have hmem := mem_written hplace
  have hconsents := consentsOf_act reg s call call.session
  rw [if_pos rfl] at hconsents
  rw [hconsents]
  have hstart := h.founded call
  have hkeep := preauthorize_keeps reg (reg.effectiveSharedRoots call)
    (Founded host (s.consentsOf call.session)) (fun _ _ _ _ hr hb => hr.founded hb)
    call.authorizePaths (s.authorization call) hstart
  -- A landing that is checked is below one of the roots; one that is not is legal.
  have hland : ∀ {shared : List Place}, place ∈ reg.landings call (reg.redirectedPath call) shared →
      reg.Legal call place ∨ ∃ root ∈ shared, within host root place = true := by
    intro shared hin
    obtain ⟨hreached, hchecked⟩ := landings_reached hin
    cases hcheck : (reg.reached call (reg.redirectedPath call)).2 with
    | false => exact .inl (hsound.checked hcheck place hreached)
    | true =>
      rcases hchecked hcheck with hbase | hroot
      · exact .inl (.inl hbase)
      · exact .inr hroot
  unfold Registry.settled
  rcases execute_cases reg call (s.authorization call) with
    (heq | ⟨b, -, heq⟩) | ⟨b, v, c, hpre, hr, heq⟩
  · rw [heq] at hmem
    cases hmem
  · rw [heq] at hmem
    cases hmem
  · rw [heq] at hmem ⊢
    rw [hpre] at hkeep
    cases v with
    | raised => cases hmem
    | denied =>
      rcases hland hmem with hlegal | hroot
      · exact .inl hlegal
      · exact .inl (.inr hroot)
    | roots authorized =>
      rcases hland hmem with hlegal | ⟨root, hroot, hin⟩
      · exact .inl hlegal
      · rcases hr.justified hkeep hroot with hshared | ⟨card, hcard, hanswer, hdir⟩ |
          ⟨dir, hdir, hsame⟩
        · exact .inl (.inr ⟨root, hshared, hin⟩)
        · exact .inr (.inl ⟨card, hcard, hanswer, .inr (within_of_eq hdir hin)⟩)
        · exact .inr (.inr ⟨dir, hdir, within_of_eq hsame hin⟩)

/-- **A declined call writes nothing.** -/
theorem declined_unchanged {call : Call} (hsound : reg.Sound s call)
    (hdeclined : Declined (reg.settled s call).cards) : (reg.act s call).files = s.files := by
  apply files_act
  have hnone : ¬ Declined (s.authorization call).cards := by
    rintro ⟨card, hcard, -⟩
    cases hcard
  unfold Registry.settled at hdeclined
  rcases execute_cases reg call (s.authorization call) with
    (heq | ⟨b, -, heq⟩) | ⟨b, v, c, hpre, hr, heq⟩
  · rw [heq]
  · rw [heq]
  · rw [heq] at hdeclined ⊢
    have hgranted := preauthorize_keeps reg (reg.effectiveSharedRoots call)
      (fun a => ∀ root ∈ s.granted call.tool call.session, root ∈ a.granted)
      (fun _ _ _ _ hr ha root hroot => hr.granted_subset (ha root hroot)) call.authorizePaths
      (s.authorization call) fun root hroot => hroot
    have hpast := preauthorize_not_declined call.authorizePaths (s.authorization call) hnone
      (congrArg Prod.fst hpre)
    rw [hpre] at hgranted hpast
    obtain ⟨rfl, target, htarget, hout⟩ := hr.target_outside hpast hdeclined
    rw [targetInRoots, any_eq_false] at hout
    -- The target is outside, so where the path leads is not legal either, and the check refuses it.
    rw [eq_nil_iff_forall_not_mem]
    intro place hin
    obtain ⟨hreached, hchecked⟩ := landings_reached hin
    have hlegal : reg.Legal call place := by
      cases hcheck : (reg.reached call (reg.redirectedPath call)).2 with
      | false => exact hsound.checked hcheck place hreached
      | true => exact hchecked hcheck
    rcases hsound.covered place hreached hlegal target htarget with
      (hbase | ⟨root, hroot, hwithin⟩) | ⟨root, hroot, hwithin⟩
    · exact hout _ (mem_append_left _ (mem_append_left _ mem_cons_self)) hbase
    · refine hout root (mem_append_left _ (mem_append_left _ ?_)) hwithin
      exact mem_cons_of_mem _ hroot
    · exact hout root (mem_append_left _ (mem_append_right _ (hgranted root hroot)))
        hwithin

theorem Inv.lawful (h : Inv host s) {call : Call} (hsound : reg.Sound s call) :
    reg.Lawful s call where
  authorized _ hplace := written_authorized h hsound hplace
  lasting session := ⟨(h.act reg call).store session,
    fun tool => (h.act reg call).granted tool session⟩
  declined := declined_unchanged hsound

end Proofs

/-! ## Whole runs -/

namespace Registry
variable (reg : Registry host)

def step (s : State) (call : Call) : Option State := some (reg.act s call)

/-- In a run of calls that meet the condition, every write outside is named by a card of its call or
covered by a consent of its session, only such consents outlast a call, and a declined call changes
no file. -/
theorem calls_lawful (files : Place → Option Text) (calls : List Call)
    (hsound : Steps.GoodRun reg.step reg.Sound (State.start files) calls) :
    Steps.GoodRun reg.step reg.Lawful (State.start files) calls := by
  refine Steps.goodRun_imp _ reg.Sound _ (Inv host) ?_ ?_ _ calls ?_ hsound
  · intro s call t hs _ hstep
    cases hstep
    exact hs.act reg call
  · intro s call hs hcall
    exact hs.lawful hcall
  · exact ⟨fun _ _ _ hroot => (by cases hroot), fun _ _ hdir => (by cases hdir)⟩

end Registry

end Functions

/-! ## A registry of one session -/

def plainMachine : PosixHost.Machine := ⟨fun _ => none, 0, [], "/h".toList, fun _ => none, id⟩

def plainHost : Host := PosixHost.posix plainMachine

def plainBase : Directory plainHost := ⟨"/w".toList, ["w".toList], by decide⟩

def plainFiles : Directory plainHost :=
  ⟨"/w/sessions/k/files".toList, ["w", "sessions", "k", "files"].map String.toList,
    by decide⟩

def plainRegistry : Registry plainHost where
  base := plainBase
  workspace := plainFiles
  sharedRoots := [["w".toList]]
  allowUserRoots := true
  bypass := false
  interactive := true
  home := some ["h".toList]
  config := ["h", "config.json"].map String.toList
  sessions := ["w", "sessions"].map String.toList
  sessions_resolves := by decide
  sessionDir := fun _ => some plainFiles
  boundary := fun _ => .native none
  sandboxed := by
    intro key ws inside h
    cases h

def writeCall (path : Text) (answer : Answer) : Call :=
  ⟨.writeFile, "k".toList, path, .whole "text".toList, [], [], [answer], some false,
    fun _ => false, fun _ => false, none, true⟩

/-- An absolute path outside, allowed once. -/
def outsideOnce : Call := writeCall "/d/report.md".toList .once

theorem calls_lawful_once :
    Steps.GoodRun plainRegistry.step plainRegistry.Lawful (State.start fun _ => none)
      [outsideOnce] := by
  have hreached : plainRegistry.reached outsideOnce (plainRegistry.redirectedPath outsideOnce) =
      ([["d".toList, "report.md".toList]], true) := by
    decide
  refine plainRegistry.calls_lawful (fun _ => none) [outsideOnce] ⟨⟨?_, ?_⟩, fun _ _ => trivial⟩
  · rw [hreached]
    rintro place hplace (hbase | ⟨root, hroot, hin⟩)
    · rw [List.mem_singleton.mp hplace] at hbase
      exact absurd hbase (by decide)
    · rw [List.mem_singleton.mp hplace, List.mem_singleton.mp hroot] at hin
      exact absurd hin (by decide)
  · rw [hreached]
    nofun

/-- Seen from the workspace the path is outside, seen from the directory of the session's files it
is in the workspace. -/
def climbing : Call := writeCall "../../../notes/report.md".toList .deny

/-- The card is declined, and the file is written. -/
theorem declined_written :
    ¬ Steps.GoodRun plainRegistry.step plainRegistry.Lawful (State.start fun _ => none)
      [climbing] := by
  intro h
  have hcards : (plainRegistry.settled (State.start fun _ => none) climbing).cards =
      [⟨["notes", "report.md"].map String.toList, ["notes".toList], .deny⟩] := by
    decide
  have hfiles : (plainRegistry.act (State.start fun _ => none) climbing).files
      (["w", "notes", "report.md"].map String.toList) = some "text".toList := by
    decide
  have hsame := h.1.declined ⟨_, by rw [hcards]; exact List.mem_singleton_self _, rfl⟩
  rw [hsame] at hfiles
  cases hfiles

end MiqroForge.Workspace.WriteGrants
