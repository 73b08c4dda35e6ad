import MiqroForge.Ledger.Items
import MiqroForge.Library.Steps

/-!
Export and import of a stored thread. The document carries the effective ledger items
and the provider messages; the import rebuilds the history from the former and falls
back on the latter only when the ledger holds no message.
-/

namespace MiqroForge.Ledger

open PyText Json

/-! ## The stored thread -/

/-- A row of `runtime_history_items`. -/
structure HistoryRow where
  sessionId : Text
  threadId : Text
  turnId : Text
  role : Text
  content : Text
  payload : Payload := []
  createdAt : Nat := 0

def HistoryRow.message (row : HistoryRow) : ProviderMessage :=
  providerMessage row.role row.content row.payload

/-- The tables of `runtime.db` that hold threads. -/
structure RuntimeStore where
  threads : List (Text × Text) := []
  ledger : List LedgerRow := []
  history : List HistoryRow := []

def historyRows (st : RuntimeStore) (sessionId threadId : Text) : List HistoryRow :=
  st.history.filter fun row => row.sessionId = sessionId ∧ row.threadId = threadId

def loadHistoryItems (st : RuntimeStore) (sessionId threadId : Text) : List HistoryRow :=
  (historyRows st sessionId threadId).mergeSort fun a b => a.createdAt ≤ b.createdAt

/-- `StoredRuntimeReader.load_provider_messages`. -/
def loadThreadMessages (st : RuntimeStore) (sessionId threadId : Text) : List ProviderMessage :=
  match loadHistoryItems st sessionId threadId with
  | [] => reconstructProviderMessages st.ledger sessionId threadId
  | row :: rows => (row :: rows).map HistoryRow.message

/-! ## The document -/

/-- What `_ledger_to_dict` makes of an item, under the document's keys. -/
structure ExportedItem where
  itemId : Text
  sessionId : Text
  threadId : Text
  turnId : Option Text
  seq : Nat
  itemType : Text
  role : Option Text
  content : Text
  payload : Payload
  createdAt : Nat

/-- `ThreadExportDocument`; of the thread record the import reads the id. -/
structure ExportDocument where
  version : Nat
  threadId : Text
  ledgerItems : List ExportedItem
  providerMessages : List ProviderMessage

def exportVersion : Nat := 1

def ledgerToDict (item : LedgerRow) : ExportedItem :=
  { itemId := item.itemId, sessionId := item.sessionId, threadId := item.threadId
    turnId := item.turnId, seq := item.seq, itemType := item.itemType, role := item.role
    content := item.content, payload := item.payload, createdAt := item.createdAt }

/-- `build_export_document` on the effective items and the provider messages. -/
def buildExportDocument (st : RuntimeStore) (sessionId threadId : Text) : ExportDocument :=
  { version := exportVersion
    threadId := threadId
    ledgerItems := (loadLedgerItems st.ledger sessionId threadId).map ledgerToDict
    providerMessages := loadThreadMessages st sessionId threadId }

def validateImportDocument (doc : ExportDocument) : Bool :=
  doc.version == exportVersion && doc.threadId ≠ []

/-! ## The import -/

/-- The row an exported item becomes, under a fresh id; an empty turn id is read as none. -/
def importRow (freshId : Text → Text) (sessionId threadId : Text) (row : ExportedItem) :
    LedgerRow :=
  { itemId := freshId row.itemId, sessionId := sessionId, threadId := threadId
    turnId := row.turnId.filter (· ≠ []), seq := row.seq, itemType := row.itemType
    role := row.role, content := row.content, payload := row.payload
    createdAt := row.createdAt }

/-- The history row of a message item; an unset time is replaced by the current one. -/
def historyRow? (sessionId threadId : Text) (now : Nat) (item : LedgerRow) : Option HistoryRow :=
  if item.itemType = "message".toList then
    item.role.map fun role =>
      { sessionId := sessionId, threadId := threadId, turnId := item.turnId.getD []
        role := role, content := item.content, payload := item.payload
        createdAt := if item.createdAt = 0 then now else item.createdAt }
  else none

def textField (d : Payload) (key default : String) : Text :=
  ((getField d key).bind Value.text?).getD default.toList

def isBaseKey (key : Text) : Bool := key == "role".toList || key == "content".toList

/-- The history row of a message taken from the document's provider messages. -/
def extraRow (sessionId threadId : Text) (now : Nat) (msg : ProviderMessage) : HistoryRow :=
  { sessionId := sessionId, threadId := threadId, turnId := "import".toList
    role := textField msg "role" "user", content := textField msg "content" ""
    payload := [("message_fields".toList, .obj (msg.filter fun e => !isBaseKey e.1))]
    createdAt := now }

def historyItemsFromLedger (sessionId threadId : Text) (now : Nat) (items : List LedgerRow)
    (extraMessages : List ProviderMessage) : List HistoryRow :=
  match items.filterMap (historyRow? sessionId threadId now) with
  | [] => extraMessages.map (extraRow sessionId threadId now)
  | row :: rows => row :: rows

def sessionBelongsToClient (sessionId clientId : Text) : Bool :=
  sessionId == clientId || (clientId ++ [':']).isPrefixOf sessionId

/-- The store without the rows of a thread, as an overwriting import leaves it. -/
def RuntimeStore.dropThread (st : RuntimeStore) (sessionId threadId : Text) : RuntimeStore :=
  { threads := st.threads.filter (· ≠ (sessionId, threadId))
    ledger := st.ledger.filter fun row => ¬(row.sessionId = sessionId ∧ row.threadId = threadId)
    history := st.history.filter
      fun row => ¬(row.sessionId = sessionId ∧ row.threadId = threadId) }

/-- `StoredRuntimeReader.import_document`; nothing when it raises. -/
def importDocument (freshId : Text → Text) (clientId : Text) (now : Nat) (st : RuntimeStore)
    (doc : ExportDocument) (sessionId : Text) (threadId : Option Text) (overwrite : Bool) :
    Option RuntimeStore :=
  let target := (threadId.filter (· ≠ [])).getD doc.threadId
  if !sessionBelongsToClient sessionId clientId then none
  else if !validateImportDocument doc then none
  else if (sessionId, target) ∈ st.threads ∧ !overwrite then none
  else
    let kept := if overwrite then st.dropThread sessionId target else st
    let ledger := kept.ledger ++ doc.ledgerItems.map (importRow freshId sessionId target)
    some
      { threads := kept.threads ++ [(sessionId, target)]
        ledger := ledger
        history := kept.history ++ historyItemsFromLedger sessionId target now
          (loadLedgerItems ledger sessionId target) doc.providerMessages }

/-! ## Runs of a thread -/

def validHistoryRoles : List Text :=
  ["system", "user", "assistant", "tool", "developer", "unknown"].map String.toList

def maxHistoryContentChars : Nat := 1000000

def maxHistoryPayloadJsonChars : Nat := 1000000

def truncatedSuffix : Text := "<truncated>".toList

def sanitizeContent (content : Text) : Text :=
  if content.length ≤ maxHistoryContentChars then content
  else content.take (maxHistoryContentChars - truncatedSuffix.length) ++ truncatedSuffix

/-- What stands in the history for a payload over the limit: a note without message fields. -/
structure Truncation where
  note : Payload → Payload
  no_fields : ∀ payload, getField (note payload) "message_fields" = none

theorem getField_nil (_ : Payload) : getField ([] : Payload) "message_fields" = none := rfl

/-- A live thread: its store, the last time given to a history row, and the last time given to a
message of the ledger. -/
structure LiveThread where
  store : RuntimeStore
  lastHistoryCreatedAt : Nat := 0
  lastMessageAt : Nat := 0

inductive ThreadEvent where
  | item (turnId : Option Text) (itemType : Text) (role : Option Text) (content : Text)
      (payload : Payload) (time : Nat)
  | message (turnId role content : Text) (fields : Payload) (historyTime ledgerTime : Nat)
  | compact (turnId : Text) (replacement : List (Text × Text × Payload)) (times : Nat)
  | rollback (dropLastTurns : Nat) (time : Nat)

section Runs
variable (trunc : Truncation) (freshId : Nat → Text) (sessionId threadId : Text)

def sanitizePayload (payload : Payload) : Payload :=
  if (print (.obj payload)).length ≤ maxHistoryPayloadJsonChars then payload
  else trunc.note payload

/-- `_next_history_created_at`, in steps of one microsecond. -/
def nextHistoryCreatedAt (last preferred : Nat) : Nat :=
  if preferred ≤ last then last + 1 else preferred

def threadRows (st : RuntimeStore) : List LedgerRow :=
  st.ledger.filter fun row => row.sessionId = sessionId ∧ row.threadId = threadId

/-- `SELECT COALESCE(MAX(seq), 0) + 1`. -/
def nextSeq (rows : List LedgerRow) : Nat := (rows.map LedgerRow.seq).foldr max 0 + 1

def appendItem (st : RuntimeStore) (turnId : Option Text) (itemType : Text) (role : Option Text)
    (content : Text) (payload : Payload) (time : Nat) : RuntimeStore :=
  { st with ledger := st.ledger ++
    [{ itemId := freshId st.ledger.length, sessionId := sessionId, threadId := threadId
       turnId := turnId, seq := nextSeq (threadRows sessionId threadId st), itemType := itemType
       role := role, content := content, payload := payload, createdAt := time }] }

/-- The payload of a message's rows. -/
def fieldsPayload (fields : Payload) : Payload := [("message_fields".toList, .obj fields)]

/-- A history row for this thread. -/
def newHistoryRow (turnId role content : Text) (payload : Payload) (createdAt : Nat) :
    HistoryRow :=
  { sessionId := sessionId, threadId := threadId, turnId := turnId, role := role
    content := content, payload := payload, createdAt := createdAt }

/-- The rows of a compaction, in the order of their times. -/
def compactRows (turnId : Text) (time : Nat) :
    (last : Nat) → List (Text × Text × Payload) → List HistoryRow
  | _, [] => []
  | last, (role, content, fields) :: rest =>
    let createdAt := nextHistoryCreatedAt last time
    newHistoryRow sessionId threadId turnId role content (fieldsPayload fields) createdAt ::
      compactRows turnId time createdAt rest

/-- The turns `append_rollback_marker` removes, `turn_ids[-drop_last_turns:]`. -/
def turnsToRemove (items : List LedgerRow) (dropLastTurns : Nat) : List Text :=
  let turnIds := ((items.filterMap LedgerRow.turnId).filter (· ≠ [])).eraseDups
  if dropLastTurns = 0 then [] else turnIds.drop (turnIds.length - dropLastTurns)

/-- The fields of a message dictionary besides its role and content. -/
def isFields (fields : Payload) : Bool :=
  decide (keys fields).Nodup && fields.all fun e => !isBaseKey e.1

/-- The marker's payload, as far as a reader looks at it. -/
def markerPayload (removed : List Text) : Payload :=
  [("removed_turn_ids".toList, .arr (removed.map .str))]

/-- One step of a live thread: a ledger item of another kind, a message into both stores, a
compaction of the history, a rollback. A turn writes nothing once it is rolled back. -/
def threadStep (s : LiveThread) : ThreadEvent → Option LiveThread
  | .item turnId itemType role content payload time =>
    if turnId ≠ some [] ∧ itemType ≠ "message".toList ∧ itemType ≠ "thread_rollback".toList then
      some { s with
        store := appendItem freshId sessionId threadId s.store turnId itemType role content payload
          time }
    else none
  | .message turnId role content fields historyTime ledgerTime =>
    if turnId ≠ [] ∧ turnId ∉ removedBy (threadRows sessionId threadId s.store) ∧
        role ∈ validHistoryRoles ∧ isFields fields then
      let createdAt := nextHistoryCreatedAt s.lastHistoryCreatedAt historyTime
      let row := newHistoryRow sessionId threadId turnId role (sanitizeContent content)
        (sanitizePayload trunc (fieldsPayload fields)) createdAt
      some
        { store := appendItem freshId sessionId threadId
            { s.store with history := s.store.history ++ [row] } (some turnId) "message".toList
            (some role) content (fieldsPayload fields) ledgerTime
          lastHistoryCreatedAt := createdAt
          lastMessageAt := ledgerTime }
    else none
  | .compact turnId replacement time =>
    if turnId ≠ [] ∧ replacement.all fun m => isFields m.2.2 then
      let rows := compactRows sessionId threadId turnId time s.lastHistoryCreatedAt replacement
      some { s with
        store := { s.store with
          history := (s.store.history.filter fun row =>
            ¬(row.sessionId = sessionId ∧ row.threadId = threadId)) ++ rows }
        lastHistoryCreatedAt :=
          ((rows.getLast?).map HistoryRow.createdAt).getD s.lastHistoryCreatedAt }
    else none
  | .rollback dropLastTurns time =>
    let removed := turnsToRemove (loadEffective s.store.ledger sessionId threadId) dropLastTurns
    let st := appendItem freshId sessionId threadId s.store none "thread_rollback".toList none []
      (markerPayload removed) time
    some { s with
      store := { st with
        history := st.history.filter fun row =>
          ¬(row.sessionId = sessionId ∧ row.threadId = threadId ∧ row.turnId ∈ removed) } }

/-- No compaction, no message over a limit of the history, and a clock that does not go back. -/
def Mirrored (s : LiveThread) : ThreadEvent → Prop
  | .item .. => True
  | .message _ _ content fields _ ledgerTime =>
    content.length ≤ maxHistoryContentChars ∧
      (print (.obj (fieldsPayload fields))).length ≤ maxHistoryPayloadJsonChars ∧
      s.lastMessageAt ≤ ledgerTime ∧ 0 < ledgerTime
  | .compact .. => False
  | .rollback .. => True

end Runs

/-- A thread id that no table knows. -/
structure Unused (st : RuntimeStore) (sessionId threadId : Text) : Prop where
  threads : (sessionId, threadId) ∉ st.threads
  ledger : ∀ row ∈ st.ledger, ¬(row.sessionId = sessionId ∧ row.threadId = threadId)
  history : ∀ row ∈ st.history, ¬(row.sessionId = sessionId ∧ row.threadId = threadId)

/-- The data of a ledger item that an import keeps. -/
def LedgerRow.data (item : LedgerRow) :
    Option Text × Nat × Text × Option Text × Text × Payload × Nat :=
  (item.turnId, item.seq, item.itemType, item.role, item.content, item.payload, item.createdAt)

end MiqroForge.Ledger
