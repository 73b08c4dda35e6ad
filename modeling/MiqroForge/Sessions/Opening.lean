import MiqroForge.Sessions.Saving

/-!
`sessions.get`: `sessions_get_handler` on the disk, with `_find_folder_session`.
-/

namespace MiqroForge.Sessions

open PyText FileTree Calls SessionManager

/-! ## The handler -/

structure GetRequest where
  sessionKey : Text
  clientId : Text
  workspace : Option Text
  /-- `_active_runtime_workspace`. -/
  runtimeWorkspace : Option Text

/-- What the answer is made of; `folder` is `authoritative_ws`. -/
structure Opened where
  session : Session
  unowned : Bool
  folder : Option Path

/-- A root enters the candidates unless it is the one of the app home or there already. -/
def addRoot (host : Host) (m : SessionManager) (roots : List Path) (raw : Text) : List Path :=
  match if raw = [] then none else host.validateWorkspace raw with
  | none => roots
  | some root =>
    if host.pathText root = host.pathText m.workspace ∨
        host.pathText root ∈ roots.map host.pathText then roots
    else roots ++ [root]

/-- `_candidate_workspace_roots`, `bound` being what `list_bound_workspaces` returns. -/
def candidateRoots (host : Host) (m : SessionManager) (bound extra : List Text) : List Path :=
  (extra ++ bound).foldl (addRoot host m) []

/-- `_probe_folder` with `require_owned=False`. -/
def probeFolder (host : Host) (root : Path) (sessionKey clientId : Text) :
    Run (Option Session) := do
  let found ← tryCatch (do
    onDisk (mkdirs (mk root).sessionsDir)
    (mk root).load host sessionKey false) fun _ => pure none
  match found with
  | none => return none
  | some session => do
    let owner ← raising (getField session.metadata ownerField)
    return if owner.all (ownedBy clientId) then some session else none

/-- The first of the roots with a copy that has messages. -/
def findFolderIn (host : Host) (sessionKey clientId : Text) :
    List Path → Run (Option (Session × Path))
  | [] => return none
  | root :: roots => do
    let probed ← probeFolder host root sessionKey clientId
    match probed with
    | none => findFolderIn host sessionKey clientId roots
    | some session =>
      if session.messages.isEmpty then findFolderIn host sessionKey clientId roots
      else return some (session, root)

def findFolderSession (host : Host) (m : SessionManager) (bound : Tree → Option (List Text))
    (req : GetRequest) : Run (Option (Session × Path)) := do
  let t ← getTree
  let boundRoots ← raising (bound t)
  let extra := (req.workspace.or req.runtimeWorkspace).toList
  findFolderIn host req.sessionKey req.clientId (candidateRoots host m boundRoots extra)

/-- A folder copy is adopted; the binding is written to the app home if that works. -/
def adoptFolder (host : Host) (m : SessionManager) (req : GetRequest) (folder : Session)
    (root : Path) : Run Opened := do
  let owner ← raising (getField folder.metadata ownerField)
  when owner.isSome (tryCatch (do
    let stub ← m.getOrCreate host req.sessionKey (some req.clientId) (some (host.pathText root))
    let _ ← m.save host stub) fun _ => pure ())
  return { session := folder, unowned := owner.isNone, folder := some root }

/-- An empty session stays on disk with a workspace only. -/
def keepEmpty (host : Host) (m : SessionManager) (req : GetRequest) (session : Session) :
    Run Opened := do
  let existing ← raising (getField session.metadata workspaceField)
  let t ← getTree
  if req.workspace.isSome || existing.isSome then do
    let session ← m.save host session
    return { session, unowned := false, folder := none }
  else if (t (m.getSessionDir req.sessionKey)).isSome then do
    let _ ← m.deleteSession req.sessionKey req.clientId
    let session ← m.getOrCreate host req.sessionKey (some req.clientId) req.workspace
    return { session, unowned := false, folder := none }
  else return { session, unowned := false, folder := none }

/-- The `try` body of the handler. -/
def openOwned (host : Host) (m : SessionManager) (bound : Tree → Option (List Text))
    (req : GetRequest) : Run Opened := do
  onDisk (mkdirs m.sessionsDir)
  let session ← m.getOrCreate host req.sessionKey (some req.clientId) req.workspace
  if session.messages.isEmpty then do
    let found ← findFolderSession host m bound req
    match found with
    | some (folder, root) => adoptFolder host m req folder root
    | none => keepEmpty host m req session
  else do
    let session ← m.save host session
    return { session, unowned := false, folder := none }

/-- `sessions_get_handler`: an unowned session is still read. -/
def sessionsGet (host : Host) (m : SessionManager) (bound : Tree → Option (List Text))
    (req : GetRequest) : Run Opened :=
  tryCatch (openOwned host m bound req) fun
    | .ownership .requiresClaim => do
      let session ← m.getOrCreate host req.sessionKey none none
      return { session, unowned := true, folder := none }
    | e => throw e

/-- The disk behind a request, which a manager of its own serves. -/
def afterGet (host : Host) (m : SessionManager) (bound : Tree → Option (List Text))
    (req : GetRequest) (t : Tree) : Tree :=
  (sessionsGet host m bound req { tree := t, cache := fun _ => none }).2.tree

/-! ## Opening a session -/

/-- What the request saves is below the thresholds of compaction. -/
def staysSmall (host : Host) (req : GetRequest) (session : Session) (content : Text) : Bool :=
  (withWorkspace host session req.workspace).all fun saved =>
    (savedText host saved content).all (isSmall saved.messages)

section Opening
variable {host : Host} {m : SessionManager} {bound : Tree → Option (List Text)} {req : GetRequest}
  {content : Text} {session : Session}

theorem openOwned_kept (hread : readSession host req.sessionKey content = some session)
    (hne : session.messages ≠ []) :
    Outcome (fun w => m.HasFile req.sessionKey content w ∧ w.cache req.sessionKey = none)
      (openOwned host m bound req)
      (fun _ => m.Kept req.sessionKey session.messages (staysSmall host req session content = true))
      (m.Kept req.sessionKey session.messages
        (staysSmall host req session content = true)) := by
  obtain ⟨hrows, hstored⟩ := readSession_rows hread
  have hold : ∀ w, m.HasFile req.sessionKey content w →
      m.Kept req.sessionKey session.messages (staysSmall host req session content = true) w :=
    fun w hw => Or.inl ⟨content, hw, hrows ▸ List.suffix_rfl⟩
  have hmkdirs : Outcome
      (fun w => m.HasFile req.sessionKey content w ∧ w.cache req.sessionKey = none)
      (onDisk (mkdirs m.sessionsDir))
      (fun _ w => m.HasFile req.sessionKey content w ∧ w.cache req.sessionKey = none)
      (fun w => m.HasFile req.sessionKey content w ∧ w.cache req.sessionKey = none) :=
    onDisk_keeps fun w hw => ⟨mkdirs_keeps_file hw.1, hw.2⟩
  apply (hmkdirs.weaken (fun _ _ h => h) fun w h => hold w h.1).bind
  intro _
  apply ((getOrCreate_there none _ _).weaken (fun _ _ h => h) hold).bind
  intro saved w hw
  obtain ⟨⟨hfile, -⟩, hws⟩ := hw
  rw [hread, Option.none_or, Option.getD_some] at hws
  obtain ⟨hsaved, hmsgs⟩ := withWorkspace_stored hstored hws
  have hfull : saved.messages.isEmpty = false := by
    rw [hmsgs, List.isEmpty_eq_false_iff]
    exact hne
  have hsave : Outcome (m.HasFile req.sessionKey content) (m.save host saved)
      (fun _ => m.Kept req.sessionKey session.messages (staysSmall host req session content = true))
      (m.Kept req.sessionKey session.messages
        (staysSmall host req session content = true)) := by
    rw [← hmsgs]
    refine save_there hsaved (hrows ▸ hmsgs.symm) fun hsmall text htext => ?_
    rw [staysSmall, hws] at hsmall
    simpa [htext] using hsmall
  rw [hfull]
  refine (hsave.bind fun _ => ?_) w hfile
  exact outcome_pure fun _ h => h

theorem sessionsGet_kept (hread : readSession host req.sessionKey content = some session)
    (hne : session.messages ≠ []) :
    Outcome (fun w => m.HasFile req.sessionKey content w ∧ w.cache req.sessionKey = none)
      (sessionsGet host m bound req)
      (fun _ => m.Kept req.sessionKey session.messages (staysSmall host req session content = true))
      (m.Kept req.sessionKey session.messages
        (staysSmall host req session content = true)) := by
  apply (openOwned_kept hread hne).tryCatch
  intro e
  split
  · apply (getOrCreate_kept none none).bind
    exact fun _ => outcome_pure fun _ h => h
  · exact outcome_throw fun _ h => h

end Opening

/-- **Opening keeps the history.** When `_load` reads the conversation file, a request leaves its
recent rows on disk, and all of them where what it saves is below the thresholds of compaction. -/
theorem sessionsGet_keeps_rows (host : Host) (m : SessionManager)
    (bound : Tree → Option (List Text)) (req : GetRequest) (t : Tree) (content : Text)
    (session : Session) (hfile : t (m.getSessionPath req.sessionKey) = some (.file content))
    (hread : readSession host req.sessionKey content = some session) :
    recentRows (rowsOf content) <:+
        rowsAt (afterGet host m bound req t) (m.getSessionPath req.sessionKey) ∧
      (staysSmall host req session content = true → rowsOf content <:+
        rowsAt (afterGet host m bound req t) (m.getSessionPath req.sessionKey)) := by
  have hrows := (readSession_rows hread).1
  by_cases hne : session.messages = []
  · have hnone : recentRows [] = [] := List.drop_nil
    rw [← hrows, hne, hnone]
    exact ⟨List.nil_suffix, fun _ => List.nil_suffix⟩
  · have hopen : Outcome
        (fun w => m.HasFile req.sessionKey content w ∧ w.cache req.sessionKey = none)
        (sessionsGet host m bound req) _ _ := sessionsGet_kept hread hne
    have hkept := hopen.behind (s := { tree := t, cache := fun _ => none }) ⟨hfile, rfl⟩
    rw [hrows] at hkept
    unfold afterGet
    rcases hkept with ⟨text, htext, hall⟩ | ⟨hbig, text, htext, hrecent⟩
    · rw [rowsAt_of_file htext]
      exact ⟨(List.drop_suffix _ _).trans hall, fun _ => hall⟩
    · rw [rowsAt_of_file htext]
      exact ⟨hrecent, fun hsmall => absurd hsmall hbig⟩

/-! ## A desktop session -/

/-- A host whose clock stands still. -/
def stillHost : Host where
  now := "2026-01-01T00:00:00".toList
  fromIso := fun value => if value = "2026-01-01T00:00:00".toList then some value else none
  normalize := some
  later := fun a b => decide (b < a)
  isZero := fun n => n.text == ['0']
  toInt := fun _ => none
  same := fun a b => Json.print a == Json.print b
  validateWorkspace := fun value =>
    if value.head? = some '/' then some (value.tail.splitOn '/') else none
  pathText := fun p => p.flatMap ('/' :: ·)
  legacySessionsDir := ["home".toList, "sessions".toList]

def appHome : SessionManager := ⟨["ws".toList]⟩

def bareRequest : GetRequest where
  sessionKey := "desktop:1".toList
  clientId := ['c']
  workspace := none
  runtimeWorkspace := none

/-- The disk with one session, whose conversation file is given. -/
def diskWith (content : Text) : Tree := fun p =>
  if p = appHome.getSessionPath bareRequest.sessionKey then some (.file content)
  else if p <+: appHome.getSessionDir bareRequest.sessionKey then some .dir
  else none

def roleRow (role : Text) : Dict := [("role".toList, .str role)]

def ownedLine : Dict :=
  (metadataLine (newSession stillHost bareRequest.sessionKey
    (some bareRequest.clientId))).getD []

def shortText : Text := fileText ownedLine [roleRow "user".toList]

/-- The rows stay when the request brings a workspace. -/
theorem shortText_kept :
    rowsOf shortText <:+
      rowsAt (afterGet stillHost appHome (fun _ => some [])
        { bareRequest with workspace := some "/proj".toList } (diskWith shortText))
        (appHome.getSessionPath bareRequest.sessionKey) :=
  (sessionsGet_keeps_rows stillHost appHome (fun _ => some [])
    { bareRequest with workspace := some "/proj".toList } (diskWith shortText) shortText
    ((readSession stillHost bareRequest.sessionKey shortText).get (by decide +kernel))
    (by simp [diskWith]) (by simp)).2 (by decide +kernel)

/-- Four hundred rows. -/
def longText : Text :=
  fileText ownedLine
    (roleRow "user".toList :: List.replicate 399 (roleRow "assistant".toList))

/-- A row, and one that an append left unfinished. -/
def tornText : Text :=
  shortText ++ (rowLine (roleRow "assistant".toList)).dropLast.dropLast

def isUserRow (row : Dict) : Bool :=
  match row.lookup "role".toList with
  | some (.str role) => role == "user".toList
  | _ => false

/-- The user rows of a conversation file with this text before a bare request, and behind it. -/
def userRows (content : Text) : Nat × Nat :=
  ((rowsOf content).countP isUserRow,
    (rowsAt (afterGet stillHost appHome (fun _ => some []) bareRequest (diskWith content))
      (appHome.getSessionPath bareRequest.sessionKey)).countP isUserRow)

/-- The owner of the files loses the only user row of either, to compaction and because the torn
file is taken for an empty session. -/
theorem sessionsGet_loses_rows :
    (ownerOfLines (fileLines longText)).any
        (ownedBy bareRequest.clientId) = true ∧ userRows longText = (1, 0) ∧
      (ownerOfLines (fileLines tornText)).any
        (ownedBy bareRequest.clientId) = true ∧ userRows tornText = (1, 0) := by
  refine ⟨?_, ?_, ?_, ?_⟩
  · decide +kernel
  · decide +kernel
  · decide +kernel
  · decide +kernel

end MiqroForge.Sessions
