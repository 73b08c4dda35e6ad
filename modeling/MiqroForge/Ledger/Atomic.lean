import MiqroForge.Ledger.Export

/-!
`import_document` on a document as it arrives: the thread and its ledger items are written in one
transaction, the history is rebuilt from what was written and from unchecked messages in a second
one.
-/

namespace MiqroForge.Ledger.Atomic

open PyText Json List

/-! ## Values and columns -/

/-- What Python and the database make of values: a text column takes a number of 64 bits at most,
`int` and `float` raise on some values. -/
structure Python (τ : Type) where
  isZero : Number → Bool
  isOne : Number → Bool
  numberText : Number → Option Text
  int : Value → Option Int
  float : Value → Option τ
  unset : τ → Bool

section
variable {τ : Type} (py : Python τ)

/-- `bool(value)`. -/
def truthy : Value → Bool
  | .null => false
  | .bool b => b
  | .num n => !py.isZero n
  | .str s => !s.isEmpty
  | .arr xs => !xs.isEmpty
  | .obj fields => !fields.isEmpty

/-- `v or w`. -/
def either (v w : Value) : Value := if truthy py v then v else w

/-- `d.get(key, default)`. -/
def get (d : Payload) (key : String) (default : Value) : Value := (getField d key).getD default

def text (s : String) : Value := .str s.toList

def zero : Value := .num (Number.ofNat 0)

/-- A value bound to a text column, `none` where it has no binding. -/
def textColumn : Value → Option (Option Text)
  | .null => some none
  | .bool b => some (some (if b then ['1'] else ['0']))
  | .num n => (py.numberText n).map some
  | .str s => some (some s)
  | .arr _ => none
  | .obj _ => none

/-- A text column that is `NOT NULL`. -/
def required (v : Value) : Option Text := (textColumn py v).join

/-! ## Rows -/

structure ThreadRow (τ : Type) where
  sessionId : Text
  threadId : Text
  title : Text
  status : Text
  parentThreadId : Option Text
  createdAt : τ
  updatedAt : τ
  forkedFromId : Option Text
  ephemeral : Bool
  cwd : Option Text
  metadata : Value

/-- A row of `runtime_ledger_items`, its payload as `_safe_json_load` reads it. -/
structure ItemRow (τ : Type) where
  sessionId : Text
  threadId : Text
  turnId : Option Text
  seq : Int
  itemType : Text
  role : Option Text
  content : Text
  payload : Payload
  createdAt : τ

structure MessageRow (τ : Type) where
  sessionId : Text
  threadId : Text
  turnId : Text
  role : Text
  content : Text
  payload : Payload
  createdAt : τ

structure Store (τ : Type) where
  threads : List (ThreadRow τ)
  ledger : List (ItemRow τ)
  history : List (MessageRow τ)

def safeJson : Value → Payload
  | .obj fields => fields
  | _ => []

/-- The row of a thread, `none` where a field cannot be written. -/
def threadRow (sessionId threadId : Text) (raw : Payload) : Option (ThreadRow τ) := do
  let title ← required py (either py (get raw "title" .null) (text "Imported thread"))
  let status ← required py (either py (get raw "status" .null) (text "active"))
  let parent ← textColumn py (get raw "parent_thread_id" .null)
  let createdAt ← py.float (either py (get raw "created_at" .null) zero)
  let updatedAt ← py.float (either py (get raw "updated_at" .null) zero)
  let forked ← textColumn py (get raw "forked_from_id" .null)
  let cwd ← textColumn py (get raw "cwd" .null)
  some ⟨sessionId, threadId, title, status, parent, createdAt, updatedAt, forked,
    truthy py (get raw "ephemeral" (.bool false)), cwd,
    either py (get raw "metadata" .null) (.obj [])⟩

/-- The row of a ledger item of the document. -/
def itemRow (sessionId threadId : Text) : Value → Option (ItemRow τ)
  | .obj row => do
    let turnId ← textColumn py (either py (get row "turnId" .null) (get row "turn_id" .null))
    let seq ← py.int (get row "seq" zero)
    let itemType ← required py (either py (get row "itemType" .null) (get row "item_type" .null))
    let role ← textColumn py (get row "role" .null)
    let content ← required py (either py (get row "content" .null) (text ""))
    let createdAt ← py.float
      (either py (either py (get row "createdAt" .null) (get row "created_at" .null)) zero)
    some ⟨sessionId, threadId, turnId, seq, itemType, role, content,
      safeJson (either py (get row "payload" .null) (.obj [])), createdAt⟩
  | _ => none

/-! ## The document -/

def validateImportDocument (doc : Payload) : Bool :=
  (match get doc "version" .null with
    | .num n => py.isOne n
    | .bool b => b
    | _ => false) &&
  (match get doc "thread" .null with
    | .obj thread => truthy py (get thread "thread_id" .null)
    | _ => false) &&
  (match get doc "ledgerItems" (.arr []) with
    | .arr _ => true
    | _ => false)

/-- `doc["thread"]`. -/
def rawThread (doc : Payload) : Payload := safeJson (get doc "thread" .null)

def elements : Value → List Value
  | .arr xs => xs
  | _ => []

/-- `doc.get("ledgerItems", [])`. -/
def ledgerItems (doc : Payload) : List Value := elements (get doc "ledgerItems" (.arr []))

/-- The provider messages, if they are a list. -/
def providerMessages (doc : Payload) : List Value := elements (get doc "providerMessages" .null)

/-! ## The first transaction -/

def ThreadRow.isFor (sessionId threadId : Text) (row : ThreadRow τ) : Bool :=
  row.sessionId == sessionId && row.threadId == threadId

def ItemRow.isFor (sessionId threadId : Text) (row : ItemRow τ) : Bool :=
  row.sessionId == sessionId && row.threadId == threadId

def MessageRow.isFor (sessionId threadId : Text) (row : MessageRow τ) : Bool :=
  row.sessionId == sessionId && row.threadId == threadId

/-- The deletions of an overwriting import. -/
def Store.dropThread (st : Store τ) (sessionId threadId : Text) : Store τ where
  threads := st.threads.filter fun row => !row.isFor sessionId threadId
  ledger := st.ledger.filter fun row => !row.isFor sessionId threadId
  history := st.history.filter fun row => !row.isFor sessionId threadId

/-- `thread_id or raw_thread["thread_id"]`. -/
def targetOf (doc : Payload) (threadId : Option Text) : Value :=
  match threadId.filter fun t => decide (t ≠ []) with
  | some t => .str t
  | none => get (rawThread doc) "thread_id" .null

/-- The target thread and the tables when the first transaction commits, `none` when it raises. -/
def firstTransaction (st : Store τ) (doc : Payload) (sessionId : Text) (threadId : Option Text)
    (overwrite : Bool) : Option (Text × Store τ) := do
  let target ← required py (targetOf doc threadId)
  if (st.threads.any fun row => row.isFor sessionId target) && !overwrite then none
  else
    let kept := if overwrite then st.dropThread sessionId target else st
    let thread ← threadRow py sessionId target (rawThread doc)
    let items ← (ledgerItems doc).mapM (itemRow py sessionId target)
    some (target, { kept with threads := kept.threads ++ [thread], ledger := kept.ledger ++ items })

/-! ## The history -/

def hashable : Value → Bool
  | .arr _ | .obj _ => false
  | _ => true

/-- `removed.update(payload.get("removed_turn_ids", []))` does not raise. -/
def readable (payload : Payload) : Bool :=
  match get payload "removed_turn_ids" (.arr []) with
  | .arr ids => ids.all hashable
  | .str _ | .obj _ => true
  | _ => false

/-- The texts among what a marker removes. -/
def markerTexts (payload : Payload) : List Text :=
  match get payload "removed_turn_ids" (.arr []) with
  | .arr ids => ids.filterMap Value.text?
  | .str s => s.map fun c => [c]
  | .obj fields => fields.map Prod.fst
  | _ => []

def ItemRow.isMarker (row : ItemRow τ) : Bool := row.itemType == "thread_rollback".toList

/-- The rows of a thread in the order of `seq`. -/
def threadItems (st : Store τ) (sessionId threadId : Text) : List (ItemRow τ) :=
  (st.ledger.filter fun row => row.isFor sessionId threadId).mergeSort fun a b => a.seq ≤ b.seq

def effectiveItems (items : List (ItemRow τ)) : List (ItemRow τ) :=
  let removed := (items.filter ItemRow.isMarker).flatMap fun item => markerTexts item.payload
  items.filter fun item => !item.isMarker && item.turnId.all fun t => !removed.contains t

/-- `load_ledger_items`, `none` when it raises. -/
def loadLedgerItems (st : Store τ) (sessionId threadId : Text) : Option (List (ItemRow τ)) :=
  let items := threadItems st sessionId threadId
  if (items.filter ItemRow.isMarker).all fun item => readable item.payload then
    some (effectiveItems items)
  else none

/-- The history row of a message item. -/
def messageRow? (now : τ) (item : ItemRow τ) : Option (MessageRow τ) :=
  if item.itemType = "message".toList then
    item.role.map fun role =>
      ⟨item.sessionId, item.threadId, item.turnId.getD [], role, item.content, item.payload,
        if py.unset item.createdAt then now else item.createdAt⟩
  else none

/-- The history row of a provider message, `none` when it is no object or cannot be written. -/
def extraRow (now : τ) (sessionId threadId : Text) : Value → Option (MessageRow τ)
  | .obj msg => do
    let role ← required py (get msg "role" (text "user"))
    let content ← required py (get msg "content" (text ""))
    some ⟨sessionId, threadId, "import".toList, role, content,
      [("message_fields".toList, .obj (msg.filter fun e => !isBaseKey e.1))], now⟩
  | _ => none

/-- `_history_items_from_ledger` and `_write_history_items`. -/
def historyRows (now : τ) (sessionId threadId : Text) (items : List (ItemRow τ))
    (extra : List Value) : Option (List (MessageRow τ)) :=
  match items.filterMap (messageRow? py now) with
  | [] => extra.mapM (extraRow py now sessionId threadId)
  | row :: rows => some (row :: rows)

/-! ## The import -/

/-- Whether the database serves each of the two transactions and the reading between them. -/
structure Storage where
  first : Bool
  reads : Bool
  second : Bool

inductive Outcome
  | returned
  | raised
  deriving DecidableEq

/-- What `import_document` does behind its first transaction. -/
def writeHistory (db : Storage) (now : τ) (doc : Payload) (sessionId target : Text) (st : Store τ) :
    Outcome × Store τ :=
  if !db.reads then (.raised, st)
  else
    match (loadLedgerItems st sessionId target).bind fun items =>
        historyRows py now sessionId target items (providerMessages doc) with
    | none => (.raised, st)
    | some rows =>
      if !rows.isEmpty && !db.second then (.raised, st)
      else (.returned, { st with history := st.history ++ rows })

def importDocument (db : Storage) (now : τ) (clientId : Text) (st : Store τ) (doc : Payload)
    (sessionId : Text) (threadId : Option Text) (overwrite : Bool) : Outcome × Store τ :=
  if !sessionBelongsToClient sessionId clientId || !validateImportDocument py doc || !db.first then
    (.raised, st)
  else
    match firstTransaction py st doc sessionId threadId overwrite with
    | none => (.raised, st)
    | some (target, st') => writeHistory py db now doc sessionId target st'

/-! ## All or nothing -/

/-- The thread, all items of the document and their history are written. -/
structure Complete (now : τ) (doc : Payload) (sessionId threadId : Text) (st : Store τ) : Prop where
  thread : ∃ row, threadRow py sessionId threadId (rawThread doc) = some row ∧ row ∈ st.threads
  items : ∀ item ∈ ledgerItems doc,
    ∃ row, itemRow py sessionId threadId item = some row ∧ row ∈ st.ledger
  history : ∃ items rows, loadLedgerItems st sessionId threadId = some items ∧
    historyRows py now sessionId threadId items (providerMessages doc) = some rows ∧
      ∀ row ∈ rows, row ∈ st.history

/-- The import returns and everything is written, or it raises and nothing has changed. -/
def AllOrNothing (now : τ) (st : Store τ) (doc : Payload) (sessionId : Text)
    (threadId : Option Text) (r : Outcome × Store τ) : Prop :=
  (r.1 = .raised ∧ r.2 = st) ∨
    (r.1 = .returned ∧ ∃ target, required py (targetOf doc threadId) = some target ∧
      Complete py now doc sessionId target r.2)

def ItemRow.isMessage (item : ItemRow τ) : Bool :=
  item.itemType == "message".toList && item.role.isSome

/-- A provider message that can become a history row. -/
def storable : Value → Bool
  | .obj msg => (required py (get msg "role" (text "user"))).isSome &&
      (required py (get msg "content" (text ""))).isSome
  | _ => false

/-- Nothing raises behind the first transaction. -/
structure Finishes (db : Storage) (doc : Payload) (sessionId threadId : Text) (st : Store τ) :
    Prop where
  reads : db.reads = true
  markers : ∀ item ∈ threadItems st sessionId threadId, item.isMarker = true →
    readable item.payload = true
  messages : (∃ item ∈ effectiveItems (threadItems st sessionId threadId), item.isMessage = true) ∨
    ∀ msg ∈ providerMessages doc, storable py msg = true
  second : db.second = true ∨ (providerMessages doc = [] ∧
    ∀ item ∈ effectiveItems (threadItems st sessionId threadId), item.isMessage = false)

variable (now : τ) {st : Store τ} {doc : Payload} {sessionId threadId : Text}

theorem isSome_messageRow (item : ItemRow τ) :
    (messageRow? py now item).isSome = item.isMessage := by
  unfold messageRow? ItemRow.isMessage
  split
  case isTrue htype => simp [htype]
  case isFalse htype =>
    rw [beq_eq_false_iff_ne.mpr htype]
    rfl

variable {items : List (ItemRow τ)}

theorem messageRows_eq_nil :
    items.filterMap (messageRow? py now) = [] ↔ ∀ item ∈ items, item.isMessage = false := by
  rw [filterMap_eq_nil_iff]
  refine forall₂_congr fun item _ => ?_
  rw [← isSome_messageRow py now, Option.isSome_eq_false_iff,
    Option.isNone_iff_eq_none]

theorem isSome_extraRow (msg : Value) :
    (extraRow py now sessionId threadId msg).isSome = storable py msg := by
  cases msg with
  | obj fields =>
    rw [extraRow, storable]
    cases required py (get fields "role" (text "user")) with
    | none => rfl
    | some role => cases required py (get fields "content" (text "")) <;> rfl
  | _ => rfl

theorem isSome_mapM {α β : Type} {f : α → Option β} (xs : List α) :
    (xs.mapM f).isSome = true ↔ ∀ x ∈ xs, (f x).isSome = true := by
  induction xs with
  | nil => simp
  | cons x xs ih =>
    rw [mapM_cons, forall_mem_cons, ← ih]
    cases f x <;> cases xs.mapM f <;> simp

theorem mem_of_mapM {α β : Type} {f : α → Option β} {xs : List α} {ys : List β}
    (h : xs.mapM f = some ys) {x : α} (hx : x ∈ xs) : ∃ y, f x = some y ∧ y ∈ ys := by
  induction xs generalizing ys with
  | nil => cases hx
  | cons x' xs ih =>
    rw [mapM_cons] at h
    obtain ⟨y', hy', h⟩ := Option.bind_eq_some_iff.mp h
    obtain ⟨ys', hys', h⟩ := Option.bind_eq_some_iff.mp h
    cases h
    rcases mem_cons.mp hx with rfl | hx
    · exact ⟨y', hy', mem_cons_self⟩
    · obtain ⟨y, hy, hmem⟩ := ih hys' hx
      exact ⟨y, hy, mem_cons_of_mem _ hmem⟩

theorem isSome_loadLedgerItems :
    (loadLedgerItems st sessionId threadId).isSome = true ↔
      ∀ item ∈ threadItems st sessionId threadId, item.isMarker = true →
        readable item.payload = true := by
  have hall : ((threadItems st sessionId threadId).filter ItemRow.isMarker).all
      (fun item => readable item.payload) = true ↔
        ∀ item ∈ threadItems st sessionId threadId, item.isMarker = true →
          readable item.payload = true := by
    simp only [all_eq_true, mem_filter, and_imp]
  unfold loadLedgerItems
  dsimp only
  split
  case isTrue hyes => exact iff_of_true rfl (hall.mp hyes)
  case isFalse hno => exact iff_of_false Bool.false_ne_true fun h => hno (hall.mpr h)

theorem isSome_historyRows {extra : List Value} :
    (historyRows py now sessionId threadId items extra).isSome = true ↔
      (∃ item ∈ items, item.isMessage = true) ∨ ∀ msg ∈ extra, storable py msg = true := by
  unfold historyRows
  split
  case h_1 hnil =>
    rw [isSome_mapM]
    have hnone := (messageRows_eq_nil py now).mp hnil
    constructor
    · exact fun h => .inr fun msg hmsg => isSome_extraRow py now msg ▸ h msg hmsg
    · rintro (⟨item, hitem, hmessage⟩ | h)
      · exact absurd ((hnone item hitem).symm.trans hmessage) Bool.false_ne_true
      · exact fun msg hmsg => (isSome_extraRow py now msg).trans (h msg hmsg)
  case h_2 row rows hcons =>
    refine iff_of_true rfl (.inl ?_)
    by_contra hnone
    simp only [not_exists, not_and, Bool.not_eq_true] at hnone
    rw [(messageRows_eq_nil py now).mpr hnone] at hcons
    cases hcons

theorem mapM_eq_nil {α β : Type} {f : α → Option β} {xs : List α} {ys : List β}
    (h : xs.mapM f = some ys) : ys = [] ↔ xs = [] := by
  cases xs with
  | nil =>
    cases h
    exact iff_of_true rfl rfl
  | cons x xs =>
    obtain ⟨y, -, hmem⟩ := mem_of_mapM h mem_cons_self
    exact iff_of_false (ne_nil_of_mem hmem) (cons_ne_nil x xs)

theorem historyRows_eq_nil {extra : List Value}
    {rows : List (MessageRow τ)}
    (h : historyRows py now sessionId threadId items extra = some rows) :
    rows = [] ↔ extra = [] ∧ ∀ item ∈ items, item.isMessage = false := by
  rw [← messageRows_eq_nil py now]
  unfold historyRows at h
  split at h
  case h_1 hnil => rw [mapM_eq_nil h, hnil, eq_self, and_true]
  case h_2 row rows' hcons =>
    cases h
    rw [hcons]
    exact iff_of_false (cons_ne_nil row rows') fun hboth => cons_ne_nil row rows' hboth.2

theorem loadLedgerItems_eq (h : loadLedgerItems st sessionId threadId = some items) :
    items = effectiveItems (threadItems st sessionId threadId) := by
  unfold loadLedgerItems at h
  exact (Option.ite_none_right_eq_some.mp h).2 |> Option.some.inj |>.symm

theorem firstTransaction_spec {threadId : Option Text} {overwrite : Bool} {target : Text}
    {st' : Store τ}
    (h : firstTransaction py st doc sessionId threadId overwrite = some (target, st')) :
    required py (targetOf doc threadId) = some target ∧
      (∃ row, threadRow py sessionId target (rawThread doc) = some row ∧ row ∈ st'.threads) ∧
      ∀ item ∈ ledgerItems doc,
        ∃ row, itemRow py sessionId target item = some row ∧ row ∈ st'.ledger := by
  obtain ⟨target', htarget, h⟩ := Option.bind_eq_some_iff.mp h
  obtain ⟨-, h⟩ := Option.ite_none_left_eq_some.mp h
  obtain ⟨thread, hthread, h⟩ := Option.bind_eq_some_iff.mp h
  obtain ⟨items, hitems, h⟩ := Option.bind_eq_some_iff.mp h
  obtain ⟨rfl, rfl⟩ := Prod.mk.inj (Option.some.inj h)
  refine ⟨htarget, ⟨thread, hthread, mem_append_right _ mem_cons_self⟩, ?_⟩
  intro item hitem
  obtain ⟨row, hrow, hmem⟩ := mem_of_mapM hitems hitem
  exact ⟨row, hrow, mem_append_right _ hmem⟩

theorem writeHistory_cases (db : Storage) (doc : Payload) (sessionId target : Text)
    (st' : Store τ) :
    (Finishes py db doc sessionId target st' ∧ ∃ items rows,
        loadLedgerItems st' sessionId target = some items ∧
          historyRows py now sessionId target items (providerMessages doc) = some rows ∧
            writeHistory py db now doc sessionId target st' =
              (.returned, { st' with history := st'.history ++ rows })) ∨
      (¬ Finishes py db doc sessionId target st' ∧
        writeHistory py db now doc sessionId target st' = (.raised, st')) := by
  unfold writeHistory
  by_cases hreads : db.reads = true
  case neg =>
    rw [if_pos (by simp [hreads])]
    exact .inr ⟨fun h => hreads h.reads, rfl⟩
  rw [if_neg (by simp [hreads])]
  cases hload : loadLedgerItems st' sessionId target with
  | none =>
    refine .inr ⟨fun h => ?_, rfl⟩
    have := isSome_loadLedgerItems.mpr h.markers
    rw [hload] at this
    cases this
  | some items =>
    have hitems := loadLedgerItems_eq hload
    have hmarkers := isSome_loadLedgerItems.mp (Option.isSome_iff_exists.mpr ⟨items, hload⟩)
    cases hrows : historyRows py now sessionId target items (providerMessages doc) with
    | none =>
      refine .inr ⟨fun h => ?_, by simp only [Option.bind_some, hrows]⟩
      have hmessages := h.messages
      rw [← hitems] at hmessages
      have hsome :
          (historyRows py now sessionId target items (providerMessages doc)).isSome = true :=
        (isSome_historyRows py now).mpr hmessages
      rw [hrows] at hsome
      cases hsome
    | some rows =>
      simp only [Option.bind_some, hrows]
      have hmessages := (isSome_historyRows py now).mp (Option.isSome_iff_exists.mpr ⟨rows, hrows⟩)
      have hempty := historyRows_eq_nil py now hrows
      rw [hitems] at hmessages hempty
      by_cases hrefused : rows ≠ [] ∧ ¬ db.second = true
      · rw [if_pos (by simp [hrefused.1, hrefused.2])]
        refine .inr ⟨fun h => ?_, rfl⟩
        exact h.second.elim hrefused.2 fun hnothing => hrefused.1 (hempty.mpr hnothing)
      · rw [if_neg (by simpa using hrefused)]
        refine .inl ⟨⟨hreads, hmarkers, hmessages, ?_⟩, items, rows, rfl, hrows, rfl⟩
        by_cases hsecond : db.second = true
        · exact .inl hsecond
        · exact .inr (hempty.mp (by_contra fun hne => hrefused ⟨hne, hsecond⟩))

/-- **All or nothing.** An import of a valid document is atomic iff nothing behind its first
transaction raises, where that one commits a change. -/
theorem import_atomic_iff (py : Python τ) (db : Storage) (now : τ) (clientId : Text) (st : Store τ)
    (doc : Payload) (sessionId : Text) (threadId : Option Text) (overwrite : Bool)
    (hvalid : validateImportDocument py doc = true) :
    AllOrNothing py now st doc sessionId threadId
        (importDocument py db now clientId st doc sessionId threadId overwrite) ↔
      (sessionBelongsToClient sessionId clientId = true → db.first = true → ∀ target st',
        firstTransaction py st doc sessionId threadId overwrite = some (target, st') →
          st' = st ∨ Finishes py db doc sessionId target st') := by
  unfold importDocument
  by_cases hserved : sessionBelongsToClient sessionId clientId = true ∧ db.first = true
  case neg =>
    rw [if_pos (by rcases not_and_or.mp hserved with h | h <;> simp [h])]
    exact iff_of_true (.inl ⟨rfl, rfl⟩) fun howned hfirst => absurd ⟨howned, hfirst⟩ hserved
  rw [if_neg (by simp [hserved.1, hserved.2, hvalid])]
  cases hfirst : firstTransaction py st doc sessionId threadId overwrite with
  | none => exact iff_of_true (.inl ⟨rfl, rfl⟩) fun _ _ _ _ h => by cases h
  | some r =>
    obtain ⟨target, st'⟩ := r
    obtain ⟨htarget, hthread, hitems⟩ := firstTransaction_spec py hfirst
    have hiff : (sessionBelongsToClient sessionId clientId = true → db.first = true →
        ∀ target' st'', some (target, st') = some (target', st'') →
          st'' = st ∨ Finishes py db doc sessionId target' st'') ↔
            (st' = st ∨ Finishes py db doc sessionId target st') := by
      constructor
      · exact fun h => h hserved.1 hserved.2 target st' rfl
      · rintro h - - target' st'' heq
        obtain ⟨rfl, rfl⟩ := Prod.mk.inj (Option.some.inj heq)
        exact h
    rw [hiff]
    rcases writeHistory_cases py now db doc sessionId target st' with
      ⟨hfinishes, items, rows, hload, hrows, hresult⟩ | ⟨hnot, hresult⟩
    · dsimp only
      rw [hresult]
      refine iff_of_true (.inr ⟨rfl, target, htarget, hthread, hitems, ?_⟩) (.inr hfinishes)
      exact ⟨items, rows, hload, hrows, fun row hrow => List.mem_append_right _ hrow⟩
    · dsimp only
      rw [hresult]
      constructor
      · rintro (⟨-, hsame⟩ | ⟨hreturned, -⟩)
        · exact .inl hsame
        · cases hreturned
      · exact fun h => .inl ⟨rfl, h.resolve_right hnot⟩

end

/-! ## One message -/

/-- Numbers by their texts, and times that count. -/
def plainPython : Python Nat where
  isZero n := n.text == ['0']
  isOne n := n.text == ['1']
  numberText n := some n.text
  int
    | .num _ => some 0
    | _ => none
  float
    | .num _ => some 0
    | _ => none
  unset n := n == 0

def servesAll : Storage := ⟨true, true, true⟩

/-- A document without ledger items and with one provider message of the given content. -/
def oneMessageDoc (content : Value) : Payload :=
  [("version".toList, .num (Number.ofNat 1)),
    ("thread".toList, .obj [("thread_id".toList, text "t")]),
    ("providerMessages".toList,
      .arr [.obj [("role".toList, text "user"), ("content".toList, content)]])]

/-- A thread with one message. -/
def oneThread : Store Nat where
  threads := [⟨['c'], ['t'], ['a'], ['b'], none, 1, 1, none, false, none, .obj []⟩]
  ledger := [⟨['c'], ['t'], none, 1, "message".toList, some "user".toList, ['x'], [], 1⟩]
  history := [⟨['c'], ['t'], [], "user".toList, ['x'], [], 1⟩]

/-- An overwriting import into the thread. -/
def overwriteWith (content : Value) : Outcome × Store Nat :=
  importDocument plainPython servesAll 9 ['c'] oneThread (oneMessageDoc content) ['c'] none true

theorem text_message_imported :
    AllOrNothing plainPython 9 oneThread (oneMessageDoc (text "y")) ['c'] none
      (overwriteWith (text "y")) ∧ (overwriteWith (text "y")).1 = .returned := by
  have hreturned : (overwriteWith (text "y")).1 = .returned := by decide +kernel
  refine ⟨(import_atomic_iff plainPython servesAll 9 ['c'] oneThread (oneMessageDoc (text "y"))
    ['c'] none true (by decide +kernel)).mpr fun _ _ target st' hfirst => .inr ?_, hreturned⟩
  have hlength : ((firstTransaction plainPython oneThread (oneMessageDoc (text "y")) ['c'] none
      true).map fun r => r.2.ledger.length) = some 0 := by decide +kernel
  rw [hfirst] at hlength
  have hnone : threadItems st' ['c'] target = [] := by
    rw [threadItems, List.length_eq_zero_iff.mp (Option.some.inj hlength), List.filter_nil,
      List.mergeSort_nil]
  have hall : (providerMessages (oneMessageDoc (text "y"))).all (storable plainPython) = true := by
    decide +kernel
  refine ⟨rfl, ?_, .inr (List.all_eq_true.mp hall), .inl rfl⟩
  rw [hnone]
  exact List.forall_mem_nil _

/-- A message whose content is a list of parts is refused behind the first transaction: the import
raises, and the items and the history of the overwritten thread are gone. -/
theorem parts_message_destroys :
    validateImportDocument plainPython (oneMessageDoc (.arr [])) = true ∧
      (overwriteWith (.arr [])).1 = .raised ∧
      (overwriteWith (.arr [])).2.ledger.length = 0 ∧
      (overwriteWith (.arr [])).2.history.length = 0 ∧
      ¬ AllOrNothing plainPython 9 oneThread (oneMessageDoc (.arr [])) ['c'] none
        (overwriteWith (.arr [])) := by
  have hraised : (overwriteWith (.arr [])).1 = .raised := by decide +kernel
  have hledger : (overwriteWith (.arr [])).2.ledger.length = 0 := by decide +kernel
  refine ⟨by decide +kernel, hraised, hledger, by decide +kernel, ?_⟩
  rintro (⟨-, hsame⟩ | ⟨hreturned, -⟩)
  · rw [hsame] at hledger
    cases hledger
  · rw [hraised] at hreturned
    cases hreturned

end MiqroForge.Ledger.Atomic
