import MiqroForge.Library.Json
import Mathlib.Data.List.Sort

/-!
The ledger rows as the runtime stores them, and the readers that turn a thread's rows
into provider messages: `LedgerRuntime`, `ReplayRuntime` and `StoredRuntimeReader`.
-/

namespace MiqroForge.Ledger

open PyText Json

/-- A JSON object, as `payload_json` holds it. -/
abbrev Payload := List (Text × Value)

/-- A provider message dictionary. -/
abbrev ProviderMessage := List (Text × Value)

/-- A row of `runtime_ledger_items`; times are counted in microseconds. -/
structure LedgerRow where
  itemId : Text
  sessionId : Text
  threadId : Text
  turnId : Option Text
  seq : Nat
  itemType : Text
  role : Option Text
  content : Text
  payload : Payload := []
  createdAt : Nat := 0

/-- `d.get(key)`. -/
def getField (d : Payload) (key : String) : Option Value :=
  (d.find? fun e => e.1 == key.toList).map Prod.snd

/-- `payload.get("message_fields", {})`, an object in every row the runtime writes. -/
def messageFields (payload : Payload) : Payload :=
  match getField payload "message_fields" with
  | some (.obj fields) => fields
  | _ => []

def Value.text? : Value → Option Text
  | .str s => some s
  | _ => none

/-- `payload.get("removed_turn_ids", [])`, a list of ids in every marker. -/
def markerTurnIds (payload : Payload) : List Text :=
  match getField payload "removed_turn_ids" with
  | some (.arr ids) => ids.filterMap Value.text?
  | _ => []

/-- The message dictionary of a role, a content and the extra fields. -/
def providerMessage (role content : Text) (payload : Payload) : ProviderMessage :=
  merge [("role".toList, .str role), ("content".toList, .str content)] (messageFields payload)

namespace LedgerRow

def isMarker (item : LedgerRow) : Bool := item.itemType == "thread_rollback".toList

/-- The message of an item of type `message` that has a role. -/
def message? (item : LedgerRow) : Option ProviderMessage :=
  if item.itemType = "message".toList then
    item.role.map fun role => providerMessage role item.content item.payload
  else none

end LedgerRow

/-! ## Reading a thread -/

/-- `LedgerRuntime.load_items`: the rows of the thread in the order of `seq`. -/
def loadItems (db : List LedgerRow) (sessionId threadId : Text) : List LedgerRow :=
  (db.filter fun row => row.sessionId = sessionId ∧ row.threadId = threadId).mergeSort
    fun a b => a.seq ≤ b.seq

/-- The turn ids that the rollback markers among the items remove. -/
def removedBy (items : List LedgerRow) : List Text :=
  (items.filter LedgerRow.isMarker).flatMap fun item => markerTurnIds item.payload

/-- The items that no marker removes, markers left out. -/
def effective (items : List LedgerRow) : List LedgerRow :=
  items.filter fun item => !item.isMarker && item.turnId.all fun t => t ∉ removedBy items

/-- `LedgerRuntime.load_effective_items`. -/
def loadEffective (db : List LedgerRow) (sessionId threadId : Text) : List LedgerRow :=
  effective (loadItems db sessionId threadId)

/-- `StoredRuntimeReader.load_ledger_items`: the same filter on the same rows. -/
def loadLedgerItems (db : List LedgerRow) (sessionId threadId : Text) : List LedgerRow :=
  let items := loadItems db sessionId threadId
  let removed := removedBy items
  items.filter fun item => !item.isMarker && item.turnId.all fun t => t ∉ removed

/-! ## Provider messages -/

def loadProviderMessages (db : List LedgerRow) (sessionId threadId : Text) :
    List ProviderMessage :=
  (loadItems db sessionId threadId).filterMap LedgerRow.message?

/-- `ReplayRuntime.get_provider_messages`, which delegates. -/
def getProviderMessages (db : List LedgerRow) (sessionId threadId : Text) :
    List ProviderMessage :=
  loadProviderMessages db sessionId threadId

/-- `StoredRuntimeReader._reconstruct_provider_messages_from_ledger`. -/
def reconstructProviderMessages (db : List LedgerRow) (sessionId threadId : Text) :
    List ProviderMessage :=
  (loadLedgerItems db sessionId threadId).filterMap LedgerRow.message?

/-- The provider messages of the effective items. -/
def effectiveMessages (db : List LedgerRow) (sessionId threadId : Text) : List ProviderMessage :=
  (loadEffective db sessionId threadId).filterMap LedgerRow.message?

theorem loadLedgerItems_eq (db : List LedgerRow) (sessionId threadId : Text) :
    loadLedgerItems db sessionId threadId = loadEffective db sessionId threadId := rfl

theorem message?_isMarker {item : LedgerRow} (h : item.message?.isSome) :
    item.isMarker = false := by
  unfold LedgerRow.message? at h
  split at h
  · next ht =>
    rw [LedgerRow.isMarker, ht]
    rfl
  · cases h

theorem filterMap_filter_eq_iff {α β : Type} (f : α → Option β) (p : α → Bool) (l : List α) :
    l.filterMap f = (l.filter p).filterMap f ↔ ∀ a ∈ l, (f a).isSome → p a := by
  have hle : ∀ l : List α, ((l.filter p).filterMap f).length ≤ (l.filterMap f).length :=
    fun l => ((List.filter_sublist).filterMap f).length_le
  induction l with
  | nil => simp
  | cons a l ih =>
    rw [List.forall_mem_cons]
    cases hf : f a with
    | none =>
      have hrest : ((a :: l).filter p).filterMap f = (l.filter p).filterMap f := by
        cases hp : p a with
        | true => rw [List.filter_cons_of_pos hp, List.filterMap_cons_none hf]
        | false => rw [List.filter_cons_of_neg (by simp [hp])]
      rw [List.filterMap_cons_none hf, hrest]
      exact ih.trans (by simp)
    | some b =>
      rw [List.filterMap_cons_some hf]
      cases hp : p a with
      | true =>
        rw [List.filter_cons_of_pos hp, List.filterMap_cons_some hf, List.cons_inj_right]
        exact ih.trans (by simp)
      | false =>
        rw [List.filter_cons_of_neg (by simp [hp])]
        constructor
        · intro h
          have hlen := congrArg List.length h
          have := hle l
          rw [List.length_cons] at hlen
          omega
        · intro h
          exact absurd (h.1 rfl) (by simp)

/-- No message of the thread belongs to a turn that a rollback marker removed. -/
def NoMessageRolledBack (db : List LedgerRow) (sessionId threadId : Text) : Prop :=
  ∀ item ∈ loadItems db sessionId threadId, item.message?.isSome →
    ∀ t, item.turnId = some t → t ∉ removedBy (loadItems db sessionId threadId)

/-- **When the ledger readers agree.** The messages of `LedgerRuntime` and `ReplayRuntime` are
those of the effective items exactly when no marker removed the turn of a message; the stored
reader always returns the latter. -/
theorem ledger_readers_agree_iff (db : List LedgerRow) (sessionId threadId : Text) :
    (loadProviderMessages db sessionId threadId = effectiveMessages db sessionId threadId ∧
      getProviderMessages db sessionId threadId = effectiveMessages db sessionId threadId ∧
      reconstructProviderMessages db sessionId threadId =
        effectiveMessages db sessionId threadId) ↔
      NoMessageRolledBack db sessionId threadId := by
  have hreconstruct : reconstructProviderMessages db sessionId threadId =
      effectiveMessages db sessionId threadId := rfl
  have hreplay : getProviderMessages db sessionId threadId =
      loadProviderMessages db sessionId threadId := rfl
  rw [hreplay, and_iff_left hreconstruct, and_self]
  unfold loadProviderMessages effectiveMessages loadEffective effective
  rw [filterMap_filter_eq_iff]
  constructor
  · intro h item hitem hmessage t ht
    have hkept := h item hitem hmessage
    rw [message?_isMarker hmessage, ht] at hkept
    simpa using hkept
  · intro h item hitem hmessage
    have hturn := h item hitem hmessage
    rw [message?_isMarker hmessage]
    cases ht : item.turnId with
    | none => rfl
    | some t => simpa using hturn t ht

/-- A user message and the marker that rolls its turn back. -/
def rolledBackLedger : List LedgerRow :=
  [{ itemId := ['a'], sessionId := ['s'], threadId := ['t'], turnId := some ['1'], seq := 1,
     itemType := "message".toList, role := some "user".toList, content := ['x'] },
   { itemId := ['b'], sessionId := ['s'], threadId := ['t'], turnId := none, seq := 2,
     itemType := "thread_rollback".toList, role := none, content := [],
     payload := [("removed_turn_ids".toList, .arr [.str ['1']])] }]

theorem rolledBack_message_still_provided :
    loadItems rolledBackLedger ['s'] ['t'] = rolledBackLedger ∧
      loadProviderMessages rolledBackLedger ['s'] ['t'] ≠ [] ∧
      effectiveMessages rolledBackLedger ['s'] ['t'] = [] := by
  have hload : loadItems rolledBackLedger ['s'] ['t'] = rolledBackLedger := by
    unfold loadItems
    have hfilter : (rolledBackLedger.filter fun row =>
        row.sessionId = ['s'] ∧ row.threadId = ['t']) = rolledBackLedger := rfl
    rw [hfilter]
    exact List.mergeSort_of_pairwise (by simp [rolledBackLedger])
  refine ⟨hload, ?_, ?_⟩
  · unfold loadProviderMessages
    rw [hload]
    exact List.cons_ne_nil _ _
  · unfold effectiveMessages loadEffective
    rw [hload]
    rfl

end MiqroForge.Ledger
