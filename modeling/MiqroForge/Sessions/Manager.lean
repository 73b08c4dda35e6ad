import MiqroForge.Library.Calls
import MiqroForge.Library.JsonLines
import MiqroForge.Sessions.Directory

/-!
`SessionManager` at the conversation file of a session: `_load`, `get_or_create`, `save`,
`compact_if_needed` and `delete`, over a file tree and the cache of the manager.
-/

namespace MiqroForge.Sessions

open PyText FileTree Calls

abbrev Dict := List (Text × Json.Value)

/-- `datetime`, `int`, `==` and `pathlib` on this host, a datetime being the text `isoformat`
gives; `none` where they raise. -/
structure Host where
  now : Text
  fromIso : Text → Option Text
  /-- `_normalize_datetime`. -/
  normalize : Text → Option Text
  later : Text → Text → Bool
  isZero : Json.Number → Bool
  toInt : Json.Value → Option Int
  same : Json.Value → Json.Value → Bool
  /-- `_validate_workspace`, and the text of a path. -/
  validateWorkspace : Text → Option Path
  pathText : Path → Text
  legacySessionsDir : Path

/-- `Session`; `persistedWorkspace` is its attribute `_persisted_workspace`. -/
structure Session where
  key : Text
  messages : List Dict
  createdAt : Text
  updatedAt : Text
  metadata : Json.Value
  lastConsolidated : Nat
  savedCount : Nat
  persistedWorkspace : Option Json.Value

/-! ## Values -/

def Host.truthy (host : Host) : Json.Value → Bool
  | .null => false
  | .bool b => b
  | .num n => !host.isZero n
  | .str s => !s.isEmpty
  | .arr xs => !xs.isEmpty
  | .obj fields => !fields.isEmpty

/-- `v.get(k)`, a `None` counting as absent; no result where it raises. -/
def getField : Json.Value → Text → Option (Option Json.Value)
  | .obj fields, k =>
    match fields.lookup k with
    | some .null => some none
    | found => some found
  | _, _ => none

/-- `v[k] = x`. -/
def setItem : Json.Value → Text → Json.Value → Option Json.Value
  | .obj fields, k, x => some (.obj (Json.setField fields k x))
  | _, _, _ => none

/-- `k in v`. -/
def contains : Json.Value → Text → Option Bool
  | .obj fields, k => some (fields.any fun e => e.1 == k)
  | .arr xs, k => some (xs.any fun x => match x with
    | .str s => s == k
    | _ => false)
  | .str s, k => some (decide (k <:+: s))
  | _, _ => none

def ownerField : Text := "owner_client_id".toList

def workspaceField : Text := "workspace".toList

/-- `data.get("_type") == "metadata"`. -/
def isMetadata (data : Dict) : Bool :=
  match data.lookup "_type".toList with
  | some (.str kind) => kind == "metadata".toList
  | _ => false

def ownedBy (clientId : Text) : Json.Value → Bool
  | .str name => name == clientId
  | _ => false

/-- The timestamp of a row, if it is a text. -/
def timestamp (data : Dict) : Option Text :=
  match data.lookup "timestamp".toList with
  | some (.str ts) => some ts
  | _ => none

/-! ## `_load` -/

/-- What `_load` has read so far. -/
structure Loading where
  messages : List Dict := []
  metadata : Json.Value := .obj []
  createdAt : Option Text := none
  updatedAt : Option Text := none
  lastConsolidated : Int := 0

/-- A date field of the metadata line. -/
def dateField (host : Host) (value : Option Json.Value) (old : Option Text) :
    Option (Option Text) :=
  match value with
  | none => some old
  | some value =>
    if host.truthy value then
      match value with
      | .str s => (host.fromIso s).map some
      | _ => none
    else some old

/-- The metadata of a metadata line, with the owner at its top level. -/
def ownedMetadata (host : Host) (data : Dict) : Option Json.Value :=
  let metadata := (data.lookup "metadata".toList).getD (.obj [])
  let owner := (data.lookup ownerField).getD .null
  if host.truthy owner then do
    let there ← contains metadata ownerField
    if there then some metadata else setItem metadata ownerField owner
  else some metadata

def consolidatedField (host : Host) (data : Dict) : Option Int :=
  let cursor := (data.lookup "last_consolidated".toList).getD .null
  if host.truthy cursor then host.toInt cursor else some 0

def loadMetadata (host : Host) (l : Loading) (data : Dict) : Option Loading := do
  let metadata ← ownedMetadata host data
  let createdAt ← dateField host (data.lookup "created_at".toList) l.createdAt
  let updatedAt ← dateField host (data.lookup "updated_at".toList) l.updatedAt
  let lastConsolidated ← consolidatedField host data
  some { l with metadata, createdAt, updatedAt, lastConsolidated }

def loadMessage (host : Host) (l : Loading) (data : Dict) : Loading :=
  { l with
    messages := l.messages ++ [data]
    updatedAt := ((timestamp data).bind host.fromIso).or l.updatedAt }

def loadLine (host : Host) (l : Loading) (raw : Text) : Option Loading :=
  if strip raw = [] then some l
  else
    match Json.parse (strip raw) with
    | some (.obj data) =>
      if isMetadata data then loadMetadata host l data else some (loadMessage host l data)
    | _ => none

/-- The session of a conversation file, unless a line of it fails. -/
def readSession (host : Host) (key content : Text) : Option Session :=
  (List.foldlM (loadLine host) {} (SessionManager.fileLines content)).map fun l =>
    { key
      messages := l.messages
      createdAt := l.createdAt.getD host.now
      updatedAt := l.updatedAt.getD (l.createdAt.getD host.now)
      metadata := l.metadata
      lastConsolidated := (max 0 (min l.lastConsolidated l.messages.length)).toNat
      savedCount := l.messages.length
      persistedWorkspace := none }

/-! ## Runs of a manager -/

/-- `raised` stands for an exception other than these. -/
inductive Failure where
  | os (fault : Fault)
  | ownership (error : OwnershipError)
  | raised

structure World where
  tree : Tree
  cache : Text → Option Session

abbrev Run (α : Type) := Prog Failure World α

def onDisk {α : Type} (op : Op OwnershipError α) : Run α := fun w =>
  match op w.tree with
  | .ok a t => (.ok a, { w with tree := t })
  | .error (.inl fault) t => (.error (.os fault), { w with tree := t })
  | .error (.inr error) t => (.error (.ownership error), { w with tree := t })

def getTree : Run Tree := fun w => (.ok w.tree, w)

def cached (key : Text) : Run (Option Session) := fun w => (.ok (w.cache key), w)

def setCache (key : Text) (session : Option Session) : Run Unit :=
  update fun w => { w with cache := fun k => if k = key then session else w.cache k }

def raising {α : Type} : Option α → Run α
  | some a => pure a
  | none => throw .raised

def textOf : Option Node → Option Text
  | some (.file content) => some content
  | _ => none

namespace SessionManager

def legacyPath (host : Host) (key : Text) : Path :=
  host.legacySessionsDir ++ [safeFilename (replaceChar ':' '_' key) ++ ".jsonl".toList]

/-- The move from the legacy path; its failure is logged. -/
def migrateLegacy (m : SessionManager) (host : Host) (key : Text) : Run Unit :=
  tryCatch (do
    onDisk (mkdirs (m.getSessionDir key))
    onDisk (move (legacyPath host key) (m.getSessionPath key))) fun _ => pure ()

def load (m : SessionManager) (host : Host) (key : Text) (migrate : Bool) :
    Run (Option Session) := do
  when migrate (onDisk (m.migrateFlatToDir key))
  let t ← getTree
  when (migrate && (t (m.getSessionPath key)).isNone && (t (legacyPath host key)).isSome)
    (m.migrateLegacy host key)
  let t ← getTree
  let path :=
    if (t (m.getSessionPath key)).isSome then m.getSessionPath key else m.getFlatSessionPath key
  return (textOf (t path)).bind (readSession host key)

/-- The ownership check of `get_or_create`. -/
def checkOwner (owner : Option Json.Value) (clientId : Text) : Run Unit :=
  match owner with
  | none => throw (.ownership .requiresClaim)
  | some owner => if ownedBy clientId owner then pure () else throw (.ownership .unauthorized)

/-- An explicit workspace goes to the metadata. -/
def withWorkspace (host : Host) (session : Session) (workspace : Option Text) : Option Session :=
  match workspace with
  | none => some session
  | some workspace => do
    let path ← host.validateWorkspace workspace
    let metadata ← setItem session.metadata workspaceField (.str (host.pathText path))
    some { session with metadata }

def newSession (host : Host) (key : Text) (clientId : Option Text) : Session where
  key
  messages := []
  createdAt := host.now
  updatedAt := host.now
  metadata := .obj (clientId.toList.map fun client => (ownerField, .str client))
  lastConsolidated := 0
  savedCount := 0
  persistedWorkspace := none

/-- The owner of a cached session: the one on disk, or its own where there is no file. -/
def cachedOwner (m : SessionManager) (key : Text) (session : Session) :
    Run (Option Json.Value) := do
  let owner ← onDisk (m.readOwner key)
  let there ← onDisk (pathExists (m.getSessionPath key))
  if owner.isNone && !there then raising (getField session.metadata ownerField) else pure owner

/-- The session in the cache, or else on disk. -/
def findSession (m : SessionManager) (host : Host) (key : Text) :
    Option Session → Run (Option Session)
  | some session => pure (some session)
  | none => m.load host key true

/-- The owner that counts for a session. -/
def currentOwner (m : SessionManager) (key : Text) (inCache : Bool) (session : Session) :
    Run (Option Json.Value) :=
  if inCache then m.cachedOwner key session else raising (getField session.metadata ownerField)

/-- A session that is there is checked for the client. -/
def authorize (m : SessionManager) (key : Text) (inCache : Bool) :
    Option Session → Option Text → Run Unit
  | some session, some client => do
    let owner ← m.currentOwner key inCache session
    checkOwner owner client
  | _, _ => pure ()

def getOrCreate (m : SessionManager) (host : Host) (key : Text) (clientId : Option Text)
    (workspace : Option Text) : Run Session := do
  let inCache ← cached key
  let found ← m.findSession host key inCache
  m.authorize key inCache.isSome found clientId
  let session ← raising
    (withWorkspace host (found.getD (newSession host key clientId)) workspace)
  setCache key (some session)
  return session

/-! ## `save` -/

/-- `_parse_iso_datetime`, which catches the `ValueError` of `fromisoformat` only. -/
def parseIso (host : Host) (value : Text) : Option (Option Text) :=
  match host.fromIso value with
  | none => some none
  | some parsed => (host.normalize parsed).map some

/-- The later one of a timestamp found before and the one of `msg`. -/
def laterTimestamp (host : Host) (latest : Option Text) (msg : Dict) : Option (Option Text) :=
  match timestamp msg with
  | none => some latest
  | some ts => (parseIso host ts).map fun parsed =>
    match parsed, latest with
    | none, _ => latest
    | some parsed, none => some parsed
    | some parsed, some old => if host.later parsed old then some parsed else some old

/-- `_sync_updated_at_from_messages`, with `_latest_message_timestamp`. -/
def syncUpdatedAt (host : Host) (session : Session) : Option Session :=
  (List.foldlM (laterTimestamp host) none session.messages).map fun latest =>
    { session with updatedAt := latest.getD session.updatedAt }

/-- `_metadata_line_for_session`. -/
def metadataLine (session : Session) : Option Dict := do
  let owner ← getField session.metadata ownerField
  some [("_type".toList, .str "metadata".toList), ("key".toList, .str session.key),
    (ownerField, owner.getD .null), ("created_at".toList, .str session.createdAt),
    ("updated_at".toList, .str session.updatedAt), ("metadata".toList, session.metadata),
    ("last_consolidated".toList, .num (Json.Number.ofNat session.lastConsolidated))]

def rowLine (row : Dict) : Text := Json.print (.obj row) ++ ['\n']

/-- The file of a session. -/
def fileText (line : Dict) (messages : List Dict) : Text := (line :: messages).flatMap rowLine

/-- One line of `_read_metadata`: the metadata found, and the latest timestamp of a message. -/
def readMetadataLine (host : Host) (state : Option Dict × Option Text) (raw : Text) :
    Option (Option Dict × Option Text) :=
  if strip raw = [] then some state
  else
    match Json.parse (strip raw) with
    | some (.obj data) =>
      if state.1.isNone && isMetadata data then some (some data, state.2)
      else (laterTimestamp host state.2 data).map fun latest => (state.1, latest)
    | _ => none

/-- The date of a metadata line, if it is one. -/
def metadataDate (host : Host) (metadata : Dict) : Option (Option Text) :=
  match metadata.lookup "updated_at".toList with
  | some (.str updatedAt) => parseIso host updatedAt
  | _ => some none

def readMetadata (host : Host) (content : Text) : Option Dict := do
  let read ← List.foldlM (readMetadataLine host) (none, none) (fileLines content)
  let metadata ← read.1
  match read.2 with
  | none => some metadata
  | some latest => do
    let written ← metadataDate host metadata
    if written.all fun old => host.later latest old then
      some (Json.setField metadata "updated_at".toList (.str latest))
    else some metadata

/-- `_read_workspace` of an existing file. -/
def readWorkspace (host : Host) (file : Option Node) : Option (Option Json.Value) :=
  match (textOf file).bind (readMetadata host) with
  | none => some none
  | some data =>
    let metadata := (data.lookup "metadata".toList).getD .null
    if host.truthy metadata then getField metadata workspaceField else some none

/-- The workspace on disk, as far as `save` knows it. -/
def workspaceOnDisk (host : Host) (session : Session) (file : Option Node) :
    Option (Option Json.Value) :=
  match session.persistedWorkspace with
  | some workspace => some (some workspace)
  | none => readWorkspace host file

/-- Whether `save` writes the file anew. -/
def shouldRewrite (host : Host) (session : Session) (file : Option Node) : Option Bool :=
  if file.isNone || decide (session.messages.length < session.savedCount) then some true
  else do
    let owner ← getField session.metadata ownerField
    let ownerOnDisk := (textOf file).bind fun content => ownerOfLines (fileLines content)
    if host.truthy (owner.getD .null) && ownerOnDisk.isNone then some true
    else do
      let workspace ← getField session.metadata workspaceField
      if host.truthy (workspace.getD .null) then do
        let old ← workspaceOnDisk host session file
        some !(old.any fun old => host.same old (workspace.getD .null))
      else some false

/-- The file is emptied before its metadata line is made. -/
def writeSession (m : SessionManager) (session : Session) : Run Unit :=
  match metadataLine session with
  | some line => onDisk (writeText (m.getSessionPath session.key) (fileText line session.messages))
  | none => do
    onDisk (writeText (m.getSessionPath session.key) [])
    throw .raised

/-- The new metadata line in the place of the first one, or in front. -/
def replaceMetadata (line : Dict) : List Text → Option (List Text)
  | [] => none
  | old :: lines =>
    match Json.parse old with
    | some (.obj data) =>
      if isMetadata data then some (Json.print (.obj line) :: lines)
      else (replaceMetadata line lines).map (old :: ·)
    | _ => (replaceMetadata line lines).map (old :: ·)

def rewriteMetadataLine (m : SessionManager) (session : Session) : Run Unit := do
  let line ← raising (metadataLine session)
  let content ← onDisk (readText (m.getSessionPath session.key))
  let lines := (replaceMetadata line (splitlines content)).getD
    (Json.print (.obj line) :: splitlines content)
  onDisk (writeText (m.getSessionPath session.key) (['\n'].intercalate lines ++ ['\n']))

/-- The append of the messages that are not on disk. -/
def appendNew (m : SessionManager) (session : Session) : Run Unit := do
  let content ← onDisk (readText (m.getSessionPath session.key))
  onDisk (writeText (m.getSessionPath session.key)
    (content ++ (session.messages.drop session.savedCount).flatMap rowLine))
  m.rewriteMetadataLine session

/-- The session once its messages are on disk. -/
def persisted (session : Session) : Option Session := do
  let persistedWorkspace ← getField session.metadata workspaceField
  some { session with savedCount := session.messages.length, persistedWorkspace }

/-- What `save` writes. -/
def persist (m : SessionManager) (session : Session) (rewrite : Bool) : Run Session :=
  if rewrite then do
    m.writeSession session
    raising (persisted session)
  else if (session.messages.drop session.savedCount).isEmpty then pure session
  else do
    m.appendNew session
    raising (persisted session)

@[irreducible] def compactThresholdMessages : Nat := 400

@[irreducible] def compactThresholdBytes : Nat := 2000000

@[irreducible] def compactKeepMessages : Nat := 300

/-- The size of a file with this text. -/
def byteSize (t : Text) : Nat := t.foldl (fun n c => n + c.utf8Size) 0

/-- The messages `compact` keeps; one that has fewer keeps them all. -/
def compacted (session : Session) : Session :=
  let dropCount := session.messages.length - compactKeepMessages
  let messages := session.messages.drop dropCount
  { session with
    messages
    lastConsolidated := min (session.lastConsolidated - dropCount) messages.length
    savedCount := messages.length }

def compact (m : SessionManager) (host : Host) (key : Text) : Run Bool := do
  let t ← getTree
  if (t (m.getSessionPath key)).isNone then return false
  else
    let session ← m.getOrCreate host key none none
    let session ← raising (syncUpdatedAt host (compacted session))
    m.writeSession session
    setCache key (some session)
    return true

/-- Neither threshold of `compact_if_needed` is reached. -/
def isSmall (messages : List Dict) (text : Text) : Bool :=
  messages.length < compactThresholdMessages && decide (byteSize text < compactThresholdBytes)

def compactIfNeeded (m : SessionManager) (host : Host) (key : Text) : Run Bool := do
  let session ← m.getOrCreate host key none none
  let t ← getTree
  if (t (m.getSessionPath key)).isNone then return false
  else if isSmall session.messages ((textOf (t (m.getSessionPath key))).getD []) then return false
  else m.compact host key

/-- `save`, with the session it leaves in the cache. -/
def save (m : SessionManager) (host : Host) (session : Session) : Run Session := do
  onDisk (m.migrateFlatToDir session.key)
  onDisk (mkdirs (m.getSessionDir session.key))
  let session ← raising (syncUpdatedAt host session)
  let t ← getTree
  let rewrite ← raising (shouldRewrite host session (t (m.getSessionPath session.key)))
  let session ← m.persist session rewrite
  setCache session.key (some session)
  let _ ← m.compactIfNeeded host session.key
  let kept ← cached session.key
  return kept.getD session

/-- `delete`. -/
def deleteSession (m : SessionManager) (key clientId : Text) : Run Bool := do
  onDisk (m.verifyOwnership key (some clientId))
  setCache key none
  onDisk (m.delete key none)

end SessionManager

end MiqroForge.Sessions
