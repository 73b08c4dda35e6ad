import MiqroForge.Sessions.Manager

/-!
What changes a session: the methods of `Session` on its messages, and `rename`, `truncate`,
`claim_session`, `archive` and the saving of a message of `SessionManager`.
-/

namespace MiqroForge.Sessions

open PyText FileTree Calls

namespace Session

/-- `add_message`, which raises where `_parse_iso_datetime` does. -/
def addMessage (host : Host) (session : Session) (role content : Text) (kwargs : Dict) :
    Option Session :=
  let timestampKey : Text := "timestamp".toList
  let msg := Json.merge [("role".toList, .str role), ("content".toList, .str content),
    (timestampKey, .str host.now)] kwargs
  let stamped := Json.setField msg timestampKey (.str host.now)
  match timestamp msg with
  | none => some { session with messages := session.messages ++ [stamped], updatedAt := host.now }
  | some ts => (SessionManager.parseIso host ts).map fun parsed =>
    match parsed with
    | none => { session with messages := session.messages ++ [stamped], updatedAt := host.now }
    | some parsed => { session with messages := session.messages ++ [msg], updatedAt := parsed }

def clear (host : Host) (session : Session) : Session :=
  { session with messages := [], lastConsolidated := 0, updatedAt := host.now }

/-- `m.get("role") == "user"`. -/
def isUser (data : Dict) : Bool :=
  match data.lookup "role".toList with
  | some (.str role) => role == "user".toList
  | _ => false

/-- The indices of the user messages. -/
def userIndices (messages : List Dict) : List Nat :=
  (List.range messages.length).filter fun i => (messages[i]?).any isUser

/-- The number of messages `truncate_turns` keeps, if it removes any. -/
def turnBoundary (messages : List Dict) (dropLastTurns : Int) : Option Nat :=
  let userIdx := userIndices messages
  if dropLastTurns ≤ 0 ∨ userIdx = [] then none
  else if userIdx.length ≤ dropLastTurns.toNat then some 0
  else userIdx[userIdx.length - dropLastTurns.toNat]?

/-- `truncate_turns`, with the number of messages removed. -/
def truncateTurns (host : Host) (session : Session) (dropLastTurns : Int) : Nat × Session :=
  match turnBoundary session.messages dropLastTurns with
  | none => (0, session)
  | some boundary =>
    (session.messages.length - boundary,
      { session with
        messages := session.messages.take boundary
        lastConsolidated := min session.lastConsolidated boundary
        updatedAt := host.now })

end Session

def titleField : Text := "title".toList

namespace SessionManager

/-- The length a title is cut to. -/
def titleLength : Nat := 100

/-- `rename`, with the new title if there is one. -/
def rename (m : SessionManager) (host : Host) (key title : Text) (clientId : Option Text) :
    Run (Option Text) := do
  onDisk (m.verifyOwnership key clientId)
  let session ← m.getOrCreate host key clientId none
  let cleaned := strip title
  if cleaned = [] then return none
  else do
    let metadata ← raising (setItem session.metadata titleField (.str (cleaned.take titleLength)))
    let session := { session with metadata }
    setCache key (some session)
    onDisk (m.migrateFlatToDir key)
    onDisk (mkdirs (m.getSessionDir key))
    let t ← getTree
    if (t (m.getSessionPath key)).isSome then m.rewriteMetadataLine session
    else do
      let line ← raising (metadataLine session)
      onDisk (writeText (m.getSessionPath key) (rowLine line))
    return some (cleaned.take titleLength)

/-- `truncate`; what it removes in memory stays removed when the save fails. -/
def truncate (m : SessionManager) (host : Host) (key : Text) (dropLastTurns : Int)
    (clientId : Option Text) : Run Nat := do
  onDisk (m.verifyOwnership key clientId)
  let session ← m.getOrCreate host key clientId none
  let truncated := session.truncateTurns host dropLastTurns
  setCache key (some truncated.2)
  if truncated.1 = 0 then return 0
  else do
    let _ ← m.save host truncated.2
    return truncated.1

def claimSession (m : SessionManager) (host : Host) (key clientId : Text) : Run Bool := do
  let owner ← onDisk (m.readOwner key)
  match owner with
  | some owner => if ownedBy clientId owner then return false else throw (.ownership .unauthorized)
  | none => do
    let found ← m.load host key true
    match found with
    | none => return false
    | some session => do
      let metadata ← raising (setItem session.metadata ownerField (.str clientId))
      let _ ← m.save host { session with metadata }
      return true

/-- `archive`. -/
def archiveSession (m : SessionManager) (key clientId : Text) : Run Unit := do
  onDisk (m.archive key (some clientId))
  setCache key none

/-- The body of `_save_to_session_manager`. -/
def saveMessage (m : SessionManager) (host : Host) (key clientId role content : Text)
    (kwargs : Dict) : Run Unit := do
  let session ← m.getOrCreate host key (some clientId) none
  let session ← raising (session.addMessage host role content kwargs)
  setCache key (some session)
  let _ ← m.save host session
  return ()

end SessionManager

end MiqroForge.Sessions
