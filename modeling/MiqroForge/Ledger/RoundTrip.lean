import MiqroForge.Ledger.Export

/-!
What an import restores of an exported thread: the effective ledger items as they were,
and the messages those items carry. They are the exported messages when the history
mirrors the ledger, which a compaction, a shortened message or a clock that goes back
ends.
-/

namespace MiqroForge.Ledger

open PyText Json Steps LedgerRow List

/-! ## Ledger items -/

theorem loadItems_sorted (db : List LedgerRow) (sessionId threadId : Text) :
    (loadItems db sessionId threadId).Pairwise fun a b => a.seq ≤ b.seq := by
  have htrans : ∀ a b c : LedgerRow, decide (a.seq ≤ b.seq) = true →
      decide (b.seq ≤ c.seq) = true → decide (a.seq ≤ c.seq) = true := by
    intro a b c hab hbc
    simp only [decide_eq_true_eq] at *
    omega
  have htotal : ∀ a b : LedgerRow, (decide (a.seq ≤ b.seq) || decide (b.seq ≤ a.seq)) = true := by
    intro a b
    simp only [Bool.or_eq_true, decide_eq_true_eq]
    omega
  exact (pairwise_mergeSort htrans htotal _).imp fun hab => by simpa using hab

theorem mergeSort_eq_self {α : Type} (key : α → Nat) (l : List α)
    (h : l.Pairwise fun a b => key a ≤ key b) :
    (l.mergeSort fun a b => key a ≤ key b) = l :=
  mergeSort_of_pairwise (h.imp fun hab => by simpa using hab)

theorem effective_of_no_marker (items : List LedgerRow)
    (h : ∀ item ∈ items, item.isMarker = false) : effective items = items := by
  have hremoved : removedBy items = [] := by
    unfold removedBy
    rw [filter_eq_nil_iff.mpr fun item hitem => by simp [h item hitem]]
    rfl
  unfold effective
  rw [filter_eq_self]
  intro item hitem
  rw [h item hitem, hremoved]
  cases item.turnId <;> simp

theorem isMarker_of_mem_effective {items : List LedgerRow} {item : LedgerRow}
    (h : item ∈ effective items) : item.isMarker = false := by
  have hkept := (mem_filter.mp h).2
  simp only [Bool.and_eq_true, Bool.not_eq_true'] at hkept
  exact hkept.1

/-- The rows that a document's items become. -/
def importedRows (freshId : Text → Text) (sessionId threadId : Text) (items : List LedgerRow) :
    List LedgerRow :=
  (items.map ledgerToDict).map (importRow freshId sessionId threadId)

theorem importedRows_mem {freshId : Text → Text} {sessionId threadId : Text}
    {items : List LedgerRow} {row : LedgerRow}
    (h : row ∈ importedRows freshId sessionId threadId items) :
    ∃ item ∈ items, row = importRow freshId sessionId threadId (ledgerToDict item) := by
  unfold importedRows at h
  rw [map_map] at h
  obtain ⟨item, hitem, rfl⟩ := mem_map.mp h
  exact ⟨item, hitem, rfl⟩

theorem loadEffective_imported (freshId : Text → Text) (ledger : List LedgerRow)
    (sessionId threadId sessionId' threadId' : Text)
    (hunused : ∀ row ∈ ledger, ¬(row.sessionId = sessionId' ∧ row.threadId = threadId')) :
    let items := loadEffective ledger sessionId threadId
    loadEffective (ledger ++ importedRows freshId sessionId' threadId' items) sessionId' threadId' =
      importedRows freshId sessionId' threadId' items := by
  intro items
  have hold : (ledger.filter fun row => decide
      (row.sessionId = sessionId' ∧ row.threadId = threadId')) = [] :=
    filter_eq_nil_iff.mpr fun row hrow => by simpa using hunused row hrow
  have hnew : ((importedRows freshId sessionId' threadId' items).filter fun row => decide
      (row.sessionId = sessionId' ∧ row.threadId = threadId')) =
      importedRows freshId sessionId' threadId' items := by
    rw [filter_eq_self]
    intro row hrow
    obtain ⟨item, -, rfl⟩ := importedRows_mem hrow
    simp [importRow]
  have hsorted : (importedRows freshId sessionId' threadId' items).Pairwise
      fun a b => a.seq ≤ b.seq := by
    unfold importedRows
    rw [map_map, pairwise_map]
    exact (loadItems_sorted ledger sessionId threadId).sublist filter_sublist
  unfold loadEffective loadItems
  rw [filter_append, hold, hnew, nil_append, mergeSort_eq_self _ _ hsorted]
  apply effective_of_no_marker
  intro row hrow
  obtain ⟨item, hitem, rfl⟩ := importedRows_mem hrow
  have hkept : item ∈ effective (loadItems ledger sessionId threadId) := hitem
  have hplain := isMarker_of_mem_effective hkept
  exact hplain

theorem importRow_data (freshId : Text → Text) (sessionId threadId : Text) (item : LedgerRow)
    (h : item.turnId ≠ some []) :
    (importRow freshId sessionId threadId (ledgerToDict item)).data = item.data := by
  have hturn : item.turnId.filter (· ≠ []) = item.turnId := by
    cases ht : item.turnId with
    | none => rfl
    | some t =>
      have hne : t ≠ [] := by
        rintro rfl
        exact h ht
      simp [hne]
  simp only [data, importRow, ledgerToDict, hturn]

/-! ## Message dictionaries -/

theorem setField_new {α : Type} (d : List (Text × α)) (k : Text) (v : α) (h : k ∉ keys d) :
    setField d k v = d ++ [(k, v)] := by
  unfold setField
  rw [if_neg]
  simp only [any_eq_true, beq_iff_eq, not_exists, not_and]
  intro e he hk
  exact h (mem_map.mpr ⟨e, he, hk⟩)

theorem merge_disjoint {α : Type} (d patch : List (Text × α)) (hnodup : (keys patch).Nodup)
    (h : ∀ k ∈ keys patch, k ∉ keys d) : merge d patch = d ++ patch := by
  induction patch generalizing d with
  | nil => exact (append_nil d).symm
  | cons e patch ih =>
    have hnodup' := nodup_cons.mp hnodup
    have hnew : setField d e.1 e.2 = d ++ [e] :=
      setField_new d e.1 e.2 (h e.1 (mem_cons_self ..))
    show merge (setField d e.1 e.2) patch = d ++ e :: patch
    rw [hnew, ih _ hnodup'.2, append_assoc, singleton_append]
    intro k hk hmem
    rcases mem_append.mp (by simpa [Json.keys] using hmem : k ∈ keys d ++ [e.1]) with hd | hd
    · exact h k (mem_cons_of_mem _ hk) hd
    · rw [mem_singleton.mp hd] at hk
      exact hnodup'.1 hk

theorem providerMessage_fields (role content : Text) (payload : Payload)
    (h : isFields (messageFields payload) = true) :
    providerMessage role content payload =
      [("role".toList, .str role), ("content".toList, .str content)] ++ messageFields payload := by
  unfold isFields at h
  simp only [Bool.and_eq_true, decide_eq_true_eq, all_eq_true, Bool.not_eq_true'] at h
  apply merge_disjoint _ _ h.1
  intro k hk hbase
  obtain ⟨e, he, rfl⟩ := mem_map.mp hk
  have hnot := h.2 e he
  unfold isBaseKey at hnot
  rcases mem_cons.mp hbase with hrole | hrest
  · simp [hrole] at hnot
  · simp [mem_singleton.mp hrest] at hnot

theorem extraRow_message (sessionId threadId : Text) (now : Nat) (role content : Text)
    (payload : Payload) (h : isFields (messageFields payload) = true) :
    (extraRow sessionId threadId now (providerMessage role content payload)).message =
      providerMessage role content payload := by
  have hmsg := providerMessage_fields role content payload h
  have hfields : ((providerMessage role content payload).filter fun e => !isBaseKey e.1) =
      messageFields payload := by
    have hkeep : (messageFields payload).filter (fun e => !isBaseKey e.1) =
        messageFields payload := by
      rw [filter_eq_self]
      unfold isFields at h
      simp only [Bool.and_eq_true, all_eq_true] at h
      exact h.2
    rw [hmsg, filter_append, hkeep]
    rfl
  have hrole : textField (providerMessage role content payload) "role" "user" = role := by
    rw [hmsg]
    rfl
  have hcontent : textField (providerMessage role content payload) "content" "" = content := by
    rw [hmsg]
    rfl
  unfold HistoryRow.message extraRow
  rw [hrole, hcontent, hfields]
  rfl

/-! ## The rebuilt history -/

/-- The creation time the import gives the history row of an item. -/
def createdTime (now : Nat) (item : LedgerRow) : Nat :=
  if item.createdAt = 0 then now else item.createdAt

/-- The message items in the order of their creation times. -/
def createdOrder (now : Nat) (items : List LedgerRow) : List LedgerRow :=
  (items.filter fun item => item.message?.isSome).mergeSort
    fun a b => createdTime now a ≤ createdTime now b

/-- The history row of a message item. -/
def itemHistoryRow (sessionId threadId : Text) (now : Nat) (item : LedgerRow) : HistoryRow :=
  { sessionId := sessionId, threadId := threadId, turnId := item.turnId.getD []
    role := item.role.getD [], content := item.content, payload := item.payload
    createdAt := createdTime now item }

theorem historyRow?_eq (sessionId threadId : Text) (now : Nat) (item : LedgerRow) :
    historyRow? sessionId threadId now item =
      if item.message?.isSome then some (itemHistoryRow sessionId threadId now item) else none := by
  unfold historyRow? message?
  split
  · cases hr : item.role with
    | none => rfl
    | some role =>
      unfold itemHistoryRow
      rw [hr]
      rfl
  · rfl

theorem filterMap_historyRow? (sessionId threadId : Text) (now : Nat) (items : List LedgerRow) :
    items.filterMap (historyRow? sessionId threadId now) =
      (items.filter fun item => item.message?.isSome).map
        (itemHistoryRow sessionId threadId now) := by
  induction items with
  | nil => rfl
  | cons item items ih =>
    have hrow := historyRow?_eq sessionId threadId now item
    cases hm : item.message?.isSome with
    | true =>
      rw [hm, if_pos rfl] at hrow
      rw [filterMap_cons_some hrow, filter_cons, hm, if_pos rfl, map_cons, ih]
    | false =>
      rw [hm, if_neg Bool.false_ne_true] at hrow
      rw [filterMap_cons_none hrow, filter_cons, hm, if_neg Bool.false_ne_true, ih]

theorem itemHistoryRow_message (sessionId threadId : Text) (now : Nat) {item : LedgerRow}
    (h : item.message?.isSome) :
    item.message? = some (itemHistoryRow sessionId threadId now item).message := by
  unfold message? at h ⊢
  split at h
  · next ht =>
    rw [if_pos ht]
    cases hr : item.role with
    | none => simp [hr] at h
    | some role => simp [itemHistoryRow, HistoryRow.message, hr]
  · cases h

theorem map_itemHistoryRow_message (sessionId threadId : Text) (now : Nat)
    (items : List LedgerRow) (h : ∀ item ∈ items, item.message?.isSome) :
    (items.map (itemHistoryRow sessionId threadId now)).map HistoryRow.message =
      items.filterMap message? := by
  induction items with
  | nil => rfl
  | cons item items ih =>
    have hitem := itemHistoryRow_message sessionId threadId now (h item (mem_cons_self ..))
    rw [filterMap_cons_some hitem, map_cons, map_cons,
      ih fun i hi => h i (mem_cons_of_mem _ hi)]

theorem rebuilt_messages (sessionId threadId : Text) (now : Nat) (items : List LedgerRow) :
    ((items.filterMap (historyRow? sessionId threadId now)).mergeSort
        fun a b => a.createdAt ≤ b.createdAt).map HistoryRow.message =
      (createdOrder now items).filterMap message? := by
  have hsort : ((items.filter fun item => item.message?.isSome).map
      (itemHistoryRow sessionId threadId now)).mergeSort (fun a b => a.createdAt ≤ b.createdAt) =
      (createdOrder now items).map (itemHistoryRow sessionId threadId now) :=
    (map_mergeSort (f := itemHistoryRow sessionId threadId now)
      (r := fun a b => decide (createdTime now a ≤ createdTime now b))
      (fun a _ b _ => rfl)).symm
  rw [filterMap_historyRow?, hsort, map_itemHistoryRow_message]
  intro item hitem
  unfold createdOrder at hitem
  rw [mem_mergeSort] at hitem
  exact (mem_filter.mp hitem).2

/-! ## Appending to a thread -/

section Runs
variable (trunc : Truncation) (freshId : Nat → Text) (sessionId threadId : Text)

theorem threadRows_append (st : RuntimeStore) (row : LedgerRow) (hs : row.sessionId = sessionId)
    (ht : row.threadId = threadId) :
    threadRows sessionId threadId { st with ledger := st.ledger ++ [row] } =
      threadRows sessionId threadId st ++ [row] := by
  unfold threadRows
  rw [filter_append, filter_singleton]
  simp [hs, ht]

theorem historyRows_append (st : RuntimeStore) (rows : List HistoryRow)
    (h : ∀ row ∈ rows, row.sessionId = sessionId ∧ row.threadId = threadId) :
    historyRows { st with history := st.history ++ rows } sessionId threadId =
      historyRows st sessionId threadId ++ rows := by
  unfold historyRows
  rw [filter_append]
  have hall : (rows.filter fun row =>
      decide (row.sessionId = sessionId ∧ row.threadId = threadId)) = rows := by
    rw [filter_eq_self]
    intro row hrow
    simpa using h row hrow
  rw [hall]

/-- The row `appendItem` adds. -/
def newItem (st : RuntimeStore) (turnId : Option Text) (itemType : Text) (role : Option Text)
    (content : Text) (payload : Payload) (time : Nat) : LedgerRow :=
  { itemId := freshId st.ledger.length, sessionId := sessionId, threadId := threadId
    turnId := turnId, seq := nextSeq (threadRows sessionId threadId st), itemType := itemType
    role := role, content := content, payload := payload, createdAt := time }

theorem appendItem_rows (st : RuntimeStore) (turnId : Option Text) (itemType : Text)
    (role : Option Text) (content : Text) (payload : Payload) (time : Nat) :
    threadRows sessionId threadId
        (appendItem freshId sessionId threadId st turnId itemType role content payload time) =
      threadRows sessionId threadId st ++
        [newItem freshId sessionId threadId st turnId itemType role content payload time] :=
  threadRows_append sessionId threadId st
    (newItem freshId sessionId threadId st turnId itemType role content payload time) rfl rfl

theorem seq_lt_nextSeq (rows : List LedgerRow) : ∀ row ∈ rows, row.seq < nextSeq rows := by
  intro row hrow
  unfold nextSeq
  induction rows with
  | nil => cases hrow
  | cons first rows ih =>
    simp only [map_cons, foldr_cons]
    rcases mem_cons.mp hrow with rfl | hrest
    · omega
    · have hlt := ih hrest
      omega

theorem removedBy_append (items more : List LedgerRow) :
    removedBy (items ++ more) = removedBy items ++ removedBy more := by
  unfold removedBy
  rw [filter_append, flatMap_append]

theorem effective_append_plain (items : List LedgerRow) (row : LedgerRow)
    (h : row.isMarker = false) :
    effective (items ++ [row]) = effective items ++
      (if row.turnId.all fun t => t ∉ removedBy items then [row] else []) := by
  have hremoved : removedBy (items ++ [row]) = removedBy items := by
    rw [removedBy_append]
    simp [removedBy, h]
  unfold effective
  rw [hremoved, filter_append, filter_singleton]
  simp [h]

theorem markerTurnIds_markerPayload (removed : List Text) :
    markerTurnIds (markerPayload removed) = removed := by
  show (removed.map Value.str).filterMap Value.text? = removed
  rw [filterMap_map]
  exact filterMap_some

theorem effective_append_marker (items : List LedgerRow) (row : LedgerRow) (removed : List Text)
    (h : row.isMarker = true) (hpayload : row.payload = markerPayload removed) :
    effective (items ++ [row]) =
      (effective items).filter fun item => item.turnId.all fun t => t ∉ removed := by
  have hremoved : removedBy (items ++ [row]) = removedBy items ++ removed := by
    rw [removedBy_append]
    simp [removedBy, h, hpayload, markerTurnIds_markerPayload]
  unfold effective
  rw [hremoved, filter_append, filter_singleton, filter_filter]
  have hlast : (!row.isMarker && row.turnId.all fun t => decide (t ∉ removedBy items ++ removed)) =
      false := by rw [h]; rfl
  rw [hlast, cond_false, append_nil]
  apply filter_congr
  intro item _
  cases item.turnId with
  | none => simp
  | some t => simp [not_or, Bool.and_comm, Bool.and_assoc, and_comm]

/-! ## What every run keeps -/

/-- No empty turn id, and message fields beside role and content. -/
structure Tidy (st : RuntimeStore) : Prop where
  turnIds : ∀ row ∈ threadRows sessionId threadId st, row.turnId ≠ some []
  fields : ∀ row ∈ historyRows st sessionId threadId, isFields (messageFields row.payload) = true

theorem isFields_sanitizePayload (fields : Payload) (h : isFields fields = true) :
    isFields (messageFields (sanitizePayload trunc (fieldsPayload fields))) = true := by
  unfold sanitizePayload
  split
  · exact h
  · unfold messageFields
    rw [trunc.no_fields]
    rfl

theorem compactRows_mem (turnId : Text) (time last : Nat)
    (replacement : List (Text × Text × Payload)) :
    ∀ row ∈ compactRows sessionId threadId turnId time last replacement,
      (row.sessionId = sessionId ∧ row.threadId = threadId) ∧
        ∃ m ∈ replacement, row.payload = fieldsPayload m.2.2 := by
  induction replacement generalizing last with
  | nil =>
    intro row hrow
    cases hrow
  | cons m replacement ih =>
    intro row hrow
    rcases mem_cons.mp hrow with rfl | hrow
    · exact ⟨⟨rfl, rfl⟩, m, mem_cons_self .., rfl⟩
    · obtain ⟨hids, m', hm', hpayload⟩ := ih _ row hrow
      exact ⟨hids, m', mem_cons_of_mem _ hm', hpayload⟩

theorem tidy_step (s s' : LiveThread) (e : ThreadEvent) (h : Tidy sessionId threadId s.store)
    (hstep : threadStep trunc freshId sessionId threadId s e = some s') :
    Tidy sessionId threadId s'.store := by
  cases e with
  | item turnId itemType role content payload time =>
    simp only [threadStep] at hstep
    split at hstep
    · next hguard =>
      cases hstep
      refine ⟨fun row hrow => ?_, h.fields⟩
      rw [appendItem_rows] at hrow
      rcases mem_append.mp hrow with hrow | hrow
      · exact h.turnIds row hrow
      · rw [mem_singleton.mp hrow]
        exact hguard.1
    · cases hstep
  | message turnId role content fields historyTime ledgerTime =>
    simp only [threadStep] at hstep
    split at hstep
    · next hguard =>
      cases hstep
      refine ⟨fun row hrow => ?_, fun row hrow => ?_⟩
      · rw [appendItem_rows] at hrow
        rcases mem_append.mp hrow with hrow | hrow
        · exact h.turnIds row hrow
        · rw [mem_singleton.mp hrow]
          intro heq
          exact hguard.1 (Option.some.inj heq)
      · have hrows := historyRows_append sessionId threadId s.store
          [newHistoryRow sessionId threadId turnId role (sanitizeContent content)
            (sanitizePayload trunc (fieldsPayload fields))
            (nextHistoryCreatedAt s.lastHistoryCreatedAt historyTime)]
          (fun row hrow => by rw [mem_singleton.mp hrow]; exact ⟨rfl, rfl⟩)
        have hmem := hrows ▸ hrow
        rcases mem_append.mp hmem with hmem | hmem
        · exact h.fields row hmem
        · rw [mem_singleton.mp hmem]
          exact isFields_sanitizePayload trunc fields hguard.2.2.2
    · cases hstep
  | compact turnId replacement time =>
    simp only [threadStep] at hstep
    split at hstep
    · next hguard =>
      cases hstep
      refine ⟨h.turnIds, fun row hrow => ?_⟩
      obtain ⟨hmem, hids⟩ := mem_filter.mp hrow
      rcases mem_append.mp hmem with hmem | hmem
      · have hother := (mem_filter.mp hmem).2
        simp only [decide_eq_true_eq] at hids hother
        exact absurd hids hother
      · obtain ⟨-, m, hm, hpayload⟩ := compactRows_mem _ _ _ _ _ _ row hmem
        rw [hpayload]
        exact all_eq_true.mp hguard.2 m hm
    · cases hstep
  | rollback dropLastTurns time =>
    simp only [threadStep] at hstep
    cases hstep
    refine ⟨fun row hrow => ?_, fun row hrow => ?_⟩
    · have hrows := appendItem_rows freshId sessionId threadId s.store none
        "thread_rollback".toList none []
        (markerPayload (turnsToRemove (loadEffective s.store.ledger sessionId threadId)
          dropLastTurns)) time
      have hmem := hrows ▸ hrow
      rcases mem_append.mp hmem with hmem | hmem
      · exact h.turnIds row hmem
      · rw [mem_singleton.mp hmem]
        intro heq
        cases heq
    · obtain ⟨hmem, hids⟩ := mem_filter.mp hrow
      exact h.fields row (mem_filter.mpr ⟨(mem_filter.mp hmem).1, hids⟩)

/-! ## While the history mirrors the ledger -/

/-- The turn and the message of a row, in either store. -/
def HistoryRow.entry (row : HistoryRow) : Text × ProviderMessage := (row.turnId, row.message)

def LedgerRow.entry? (item : LedgerRow) : Option (Text × ProviderMessage) :=
  item.message?.map fun m => (item.turnId.getD [], m)

/-- The history holds the effective messages of the ledger, and both are in the order of their
times. -/
structure Mirrors (s : LiveThread) : Prop where
  seqs : (threadRows sessionId threadId s.store).Pairwise fun a b => a.seq < b.seq
  times : ((threadRows sessionId threadId s.store).filter fun row => row.message?.isSome).Pairwise
    fun a b => a.createdAt ≤ b.createdAt
  bounds : ∀ row ∈ threadRows sessionId threadId s.store, row.message?.isSome →
    row.turnId ≠ none ∧ 0 < row.createdAt ∧ row.createdAt ≤ s.lastMessageAt
  historyTimes : (historyRows s.store sessionId threadId).Pairwise
    fun a b => a.createdAt < b.createdAt
  historyBound : ∀ row ∈ historyRows s.store sessionId threadId,
    row.createdAt ≤ s.lastHistoryCreatedAt
  same : (historyRows s.store sessionId threadId).map HistoryRow.entry =
    (effective (threadRows sessionId threadId s.store)).filterMap entry?

theorem pairwise_append_singleton {α : Type} {r : α → α → Prop} {l : List α} {a : α}
    (hl : l.Pairwise r) (h : ∀ b ∈ l, r b a) : (l ++ [a]).Pairwise r := by
  rw [pairwise_append]
  refine ⟨hl, pairwise_singleton r a, ?_⟩
  intro b hb c hc
  rw [mem_singleton.mp hc]
  exact h b hb

theorem filterMap_entry?_append (items : List LedgerRow) (row : LedgerRow) (keep : Bool)
    (h : row.message? = none) :
    (items ++ if keep then [row] else []).filterMap entry? =
      items.filterMap entry? := by
  cases keep with
  | false => rw [if_neg Bool.false_ne_true, append_nil]
  | true =>
    rw [if_pos rfl, filterMap_append,
      filterMap_cons_none (by rw [LedgerRow.entry?, h]; rfl), filterMap_nil,
      append_nil]

theorem mirrors_append_plain (s : LiveThread) (st : RuntimeStore) (row : LedgerRow)
    (h : Mirrors sessionId threadId s)
    (hrows : threadRows sessionId threadId st = threadRows sessionId threadId s.store ++ [row])
    (hseq : row.seq = nextSeq (threadRows sessionId threadId s.store))
    (hmessage : row.message? = none)
    (hhistory : (historyRows st sessionId threadId).Sublist
      (historyRows s.store sessionId threadId))
    (hsame : (historyRows st sessionId threadId).map HistoryRow.entry =
      (effective (threadRows sessionId threadId st)).filterMap entry?) :
    Mirrors sessionId threadId { s with store := st } := by
  have hnone : ¬ row.message?.isSome := by simp [hmessage]
  refine ⟨?_, ?_, ?_, h.historyTimes.sublist hhistory, fun r hr => h.historyBound r
    (hhistory.subset hr), hsame⟩
  · show (threadRows sessionId threadId st).Pairwise fun a b => a.seq < b.seq
    rw [hrows]
    refine pairwise_append_singleton h.seqs fun b hb => ?_
    rw [hseq]
    exact seq_lt_nextSeq _ b hb
  · show ((threadRows sessionId threadId st).filter fun row => row.message?.isSome).Pairwise
      fun a b => a.createdAt ≤ b.createdAt
    have hlast : ([row].filter fun row => row.message?.isSome) = [] := by simp [hmessage]
    rw [hrows, filter_append, hlast, append_nil]
    exact h.times
  · intro r hr hm
    have hr' : r ∈ threadRows sessionId threadId s.store ++ [row] := hrows ▸ hr
    rcases mem_append.mp hr' with hr' | hr'
    · exact h.bounds r hr' hm
    · rw [mem_singleton.mp hr'] at hm
      exact absurd hm hnone

theorem mirrors_item (s : LiveThread) (turnId : Option Text) (itemType : Text)
    (role : Option Text) (content : Text) (payload : Payload) (time : Nat)
    (h : Mirrors sessionId threadId s) (hmessage : itemType ≠ "message".toList)
    (hmarker : itemType ≠ "thread_rollback".toList) :
    Mirrors sessionId threadId { s with
      store := appendItem freshId sessionId threadId s.store turnId itemType role content payload
        time } := by
  have hnone : (newItem freshId sessionId threadId s.store turnId itemType role content payload
      time).message? = none := by
    rw [message?, if_neg]
    exact hmessage
  have hplain : (newItem freshId sessionId threadId s.store turnId itemType role content payload
      time).isMarker = false := by
    rw [isMarker]
    exact beq_eq_false_iff_ne.mpr hmarker
  have hrows := appendItem_rows freshId sessionId threadId s.store turnId itemType role content
    payload time
  refine mirrors_append_plain sessionId threadId s _ _ h hrows rfl hnone (List.Sublist.refl _) ?_
  rw [hrows, effective_append_plain _ _ hplain, filterMap_entry?_append _ _ _ hnone]
  exact h.same

theorem filter_map_entry (rows : List HistoryRow) (removed : List Text) :
    (rows.filter fun row => decide (row.turnId ∉ removed)).map HistoryRow.entry =
      (rows.map HistoryRow.entry).filter fun e => decide (e.1 ∉ removed) := by
  rw [filter_map]
  rfl

theorem filterMap_entry?_filter (items : List LedgerRow) (removed : List Text)
    (h : ∀ item ∈ items, item.message?.isSome → item.turnId ≠ none) :
    (items.filter fun item => item.turnId.all fun t => t ∉ removed).filterMap entry? =
      (items.filterMap entry?).filter fun e => decide (e.1 ∉ removed) := by
  induction items with
  | nil => rfl
  | cons item items ih =>
    have hrest := ih fun i hi => h i (mem_cons_of_mem _ hi)
    cases hm : item.message? with
    | none =>
      have he : item.entry? = none := by rw [LedgerRow.entry?, hm]; rfl
      rw [filterMap_cons_none he, ← hrest, filter_cons]
      split
      · rw [filterMap_cons_none he]
      · rfl
    | some m =>
      obtain ⟨t, ht⟩ := Option.ne_none_iff_exists'.mp
        (h item (mem_cons_self ..) (by rw [hm]; rfl))
      have he : item.entry? = some (t, m) := by rw [LedgerRow.entry?, hm, ht]; rfl
      rw [filterMap_cons_some he, filter_cons, filter_cons, ht, ← hrest]
      by_cases hmem : t ∈ removed
      · simp [hmem]
      · simp [hmem, filterMap_cons_some he]

theorem mirrors_rollback (s : LiveThread) (removed : List Text) (time : Nat)
    (h : Mirrors sessionId threadId s) :
    let st := appendItem freshId sessionId threadId s.store none "thread_rollback".toList none []
      (markerPayload removed) time
    Mirrors sessionId threadId { s with
      store := { st with
        history := st.history.filter fun row =>
          ¬(row.sessionId = sessionId ∧ row.threadId = threadId ∧ row.turnId ∈ removed) } } := by
  intro st
  have hrows : threadRows sessionId threadId st = _ := appendItem_rows freshId sessionId threadId
    s.store none "thread_rollback".toList none [] (markerPayload removed) time
  have hhistory : historyRows { st with
      history := st.history.filter fun row =>
        ¬(row.sessionId = sessionId ∧ row.threadId = threadId ∧ row.turnId ∈ removed) }
      sessionId threadId =
      (historyRows s.store sessionId threadId).filter fun row => decide (row.turnId ∉ removed) := by
    unfold historyRows
    show (s.store.history.filter _).filter _ = (s.store.history.filter _).filter _
    rw [filter_filter, filter_filter]
    apply filter_congr
    intro row _
    by_cases hids : row.sessionId = sessionId ∧ row.threadId = threadId
    · simp [hids.1, hids.2]
    · simp [hids]
  refine mirrors_append_plain sessionId threadId s _ _ h hrows rfl rfl ?_ ?_
  · rw [hhistory]
    exact filter_sublist
  · have hkept : ∀ item ∈ effective (threadRows sessionId threadId s.store),
        item.message?.isSome → item.turnId ≠ none :=
      fun item hitem hm => (h.bounds item (mem_filter.mp hitem).1 hm).1
    have hdrop := effective_append_marker (threadRows sessionId threadId s.store) _ removed
      (rfl : (newItem freshId sessionId threadId s.store none "thread_rollback".toList none []
        (markerPayload removed) time).isMarker = true) rfl
    rw [hhistory, filter_map_entry, h.same]
    show _ = (effective (threadRows sessionId threadId st)).filterMap entry?
    rw [hrows, hdrop, filterMap_entry?_filter _ _ hkept]

theorem mirrors_message (s : LiveThread) (turnId role content : Text) (fields : Payload)
    (historyTime ledgerTime : Nat) (h : Mirrors sessionId threadId s)
    (hlive : turnId ∉ removedBy (threadRows sessionId threadId s.store))
    (hcontent : content.length ≤ maxHistoryContentChars)
    (hpayload : (print (.obj (fieldsPayload fields))).length ≤ maxHistoryPayloadJsonChars)
    (hclock : s.lastMessageAt ≤ ledgerTime) (hpos : 0 < ledgerTime) :
    let createdAt := nextHistoryCreatedAt s.lastHistoryCreatedAt historyTime
    Mirrors sessionId threadId
      { store := appendItem freshId sessionId threadId
          { s.store with
            history := s.store.history ++ [newHistoryRow sessionId threadId turnId role
              (sanitizeContent content) (sanitizePayload trunc (fieldsPayload fields)) createdAt] }
          (some turnId) "message".toList (some role) content (fieldsPayload fields) ledgerTime
        lastHistoryCreatedAt := createdAt
        lastMessageAt := ledgerTime } := by
  intro createdAt
  have hlater : s.lastHistoryCreatedAt < createdAt := by
    show _ < nextHistoryCreatedAt _ _
    unfold nextHistoryCreatedAt
    split <;> omega
  have hrow : newHistoryRow sessionId threadId turnId role (sanitizeContent content)
      (sanitizePayload trunc (fieldsPayload fields)) createdAt =
      newHistoryRow sessionId threadId turnId role content (fieldsPayload fields) createdAt := by
    rw [sanitizeContent, if_pos hcontent, sanitizePayload, if_pos hpayload]
  have hhistory := historyRows_append sessionId threadId s.store
    [newHistoryRow sessionId threadId turnId role content (fieldsPayload fields) createdAt]
    (fun row hr => by rw [mem_singleton.mp hr]; exact ⟨rfl, rfl⟩)
  rw [hrow]
  have hrows := appendItem_rows freshId sessionId threadId
    { s.store with
      history := s.store.history ++ [newHistoryRow sessionId threadId turnId role content
        (fieldsPayload fields) createdAt] }
    (some turnId) "message".toList (some role) content (fieldsPayload fields) ledgerTime
  have hold : ∀ row ∈ threadRows sessionId threadId s.store, row.message?.isSome →
      row.createdAt ≤ ledgerTime := fun row hr hm => (h.bounds row hr hm).2.2.trans hclock
  refine ⟨?_, ?_, ?_, ?_, ?_, ?_⟩
  · rw [hrows]
    exact pairwise_append_singleton h.seqs fun b hb => seq_lt_nextSeq _ b hb
  · rw [hrows, filter_append]
    refine pairwise_append_singleton h.times fun b hb => ?_
    exact hold b (mem_filter.mp hb).1 (mem_filter.mp hb).2
  · intro row hr hm
    rw [hrows] at hr
    rcases mem_append.mp hr with hr | hr
    · obtain ⟨hturn, hp, -⟩ := h.bounds row hr hm
      exact ⟨hturn, hp, hold row hr hm⟩
    · rw [mem_singleton.mp hr]
      exact ⟨Option.some_ne_none _, hpos, Nat.le_refl _⟩
  · refine hhistory ▸ pairwise_append_singleton h.historyTimes fun b hb => ?_
    exact Nat.lt_of_le_of_lt (h.historyBound b hb) hlater
  · intro row hr
    rcases mem_append.mp (hhistory ▸ hr) with hr | hr
    · exact Nat.le_of_lt (Nat.lt_of_le_of_lt (h.historyBound row hr) hlater)
    · rw [mem_singleton.mp hr]
      exact Nat.le_refl _
  · rw [hrows, effective_append_plain _ _ rfl, filterMap_append]
    have hkeep : ((some turnId).all fun t =>
        decide (t ∉ removedBy (threadRows sessionId threadId s.store))) = true := by
      simpa using hlive
    show (historyRows _ sessionId threadId).map HistoryRow.entry = _
    refine Eq.trans (congrArg _ hhistory) ?_
    rw [map_append, h.same]
    congr 1
    refine Eq.symm (Eq.trans (congrArg _ (if_pos hkeep)) ?_)
    rfl

theorem mirrors_step (s s' : LiveThread) (e : ThreadEvent) (h : Mirrors sessionId threadId s)
    (hgood : Mirrored s e) (hstep : threadStep trunc freshId sessionId threadId s e = some s') :
    Mirrors sessionId threadId s' := by
  cases e with
  | item turnId itemType role content payload time =>
    simp only [threadStep] at hstep
    split at hstep
    · next hguard =>
      cases hstep
      exact mirrors_item freshId sessionId threadId s turnId itemType role content payload time h
        hguard.2.1 hguard.2.2
    · cases hstep
  | message turnId role content fields historyTime ledgerTime =>
    simp only [threadStep] at hstep
    split at hstep
    · next hguard =>
      cases hstep
      obtain ⟨hcontent, hpayload, hclock, hpos⟩ := hgood
      exact mirrors_message trunc freshId sessionId threadId s turnId role content fields
        historyTime ledgerTime h hguard.2.1 hcontent hpayload hclock hpos
    · cases hstep
  | compact turnId replacement time => exact hgood.elim
  | rollback dropLastTurns time =>
    simp only [threadStep] at hstep
    cases hstep
    exact mirrors_rollback freshId sessionId threadId s _ time h

theorem mirrored_messages (s : LiveThread) (h : Mirrors sessionId threadId s) :
    loadThreadMessages s.store sessionId threadId =
      (loadEffective s.store.ledger sessionId threadId).filterMap message? := by
  have hload : loadHistoryItems s.store sessionId threadId =
      historyRows s.store sessionId threadId :=
    mergeSort_eq_self _ _ (h.historyTimes.imp Nat.le_of_lt)
  have hitems : loadItems s.store.ledger sessionId threadId =
      threadRows sessionId threadId s.store :=
    mergeSort_eq_self _ _ (h.seqs.imp Nat.le_of_lt)
  have hsame : (historyRows s.store sessionId threadId).map HistoryRow.message =
      (loadEffective s.store.ledger sessionId threadId).filterMap message? := by
    have hsnd := congrArg (List.map Prod.snd) h.same
    rw [map_map, map_filterMap] at hsnd
    unfold loadEffective
    rw [hitems]
    refine Eq.trans hsnd ?_
    congr 1
    funext item
    rw [LedgerRow.entry?, Option.map_map]
    exact Option.map_id'
  unfold loadThreadMessages
  rw [hload]
  cases hrows : historyRows s.store sessionId threadId with
  | nil => rfl
  | cons row rows =>
    rw [hrows] at hsame
    exact hsame

end Runs

/-! ## The import -/

theorem createdOrder_imported (freshId : Text → Text) (sessionId threadId : Text) (now : Nat)
    (items : List LedgerRow) :
    (createdOrder now (importedRows freshId sessionId threadId items)).filterMap
        message? =
      (createdOrder now items).filterMap message? := by
  have hsort : createdOrder now (importedRows freshId sessionId threadId items) =
      (createdOrder now items).map fun item =>
        importRow freshId sessionId threadId (ledgerToDict item) := by
    unfold createdOrder importedRows
    rw [map_map, filter_map]
    exact (map_mergeSort (f := fun item =>
        importRow freshId sessionId threadId (ledgerToDict item))
      (r := fun a b => decide (createdTime now a ≤ createdTime now b))
      (fun a _ b _ => rfl)).symm
  rw [hsort, filterMap_map]
  rfl

theorem historyRow?_ids {sessionId threadId : Text} {now : Nat} {items : List LedgerRow}
    {row : HistoryRow} (h : row ∈ items.filterMap (historyRow? sessionId threadId now)) :
    row.sessionId = sessionId ∧ row.threadId = threadId := by
  rw [filterMap_historyRow?] at h
  obtain ⟨item, -, rfl⟩ := mem_map.mp h
  exact ⟨rfl, rfl⟩

theorem historyItemsFromLedger_ids {sessionId threadId : Text} {now : Nat}
    {items : List LedgerRow} {extra : List ProviderMessage} {row : HistoryRow}
    (h : row ∈ historyItemsFromLedger sessionId threadId now items extra) :
    row.sessionId = sessionId ∧ row.threadId = threadId := by
  unfold historyItemsFromLedger at h
  split at h
  · obtain ⟨msg, -, rfl⟩ := mem_map.mp h
    exact ⟨rfl, rfl⟩
  · next hrows =>
    exact historyRow?_ids (hrows ▸ h)

theorem exported_messages (st : RuntimeStore) (sessionId threadId : Text)
    (htidy : Tidy sessionId threadId st)
    (hnone : (loadEffective st.ledger sessionId threadId).filterMap message? = []) :
    ∀ msg ∈ loadThreadMessages st sessionId threadId, ∃ role content payload,
      isFields (messageFields payload) = true ∧ msg = providerMessage role content payload := by
  intro msg hmsg
  unfold loadThreadMessages at hmsg
  split at hmsg
  · have hempty : reconstructProviderMessages st.ledger sessionId threadId = [] := hnone
    rw [hempty] at hmsg
    cases hmsg
  · next hload =>
    rw [← hload] at hmsg
    obtain ⟨row, hrow, rfl⟩ := mem_map.mp hmsg
    exact ⟨row.role, row.content, row.payload,
      htidy.fields row ((mem_mergeSort).mp hrow), rfl⟩

/-- The messages that the imported thread reads back. -/
def restoredMessages (now : Nat) (items : List LedgerRow) (exported : List ProviderMessage) :
    List ProviderMessage :=
  if items.filterMap message? = [] then exported
  else (createdOrder now items).filterMap message?

theorem filterMap_message?_nil_iff (sessionId threadId : Text) (now : Nat)
    (items : List LedgerRow) :
    items.filterMap (historyRow? sessionId threadId now) = [] ↔
      items.filterMap message? = [] := by
  rw [filterMap_eq_nil_iff, filterMap_eq_nil_iff]
  refine forall_congr' fun item => forall_congr' fun _ => ?_
  rw [historyRow?_eq]
  cases item.message? <;> simp

theorem map_extraRow_message (sessionId threadId : Text) (now : Nat)
    (extra : List ProviderMessage)
    (h : ∀ msg ∈ extra, ∃ role content payload,
      isFields (messageFields payload) = true ∧ msg = providerMessage role content payload) :
    (extra.map (extraRow sessionId threadId now)).map HistoryRow.message = extra := by
  rw [map_map]
  conv => rhs; rw [← map_id extra]
  apply map_congr_left
  intro msg hmsg
  obtain ⟨role, content, payload, hfields, rfl⟩ := h msg hmsg
  exact extraRow_message sessionId threadId now role content payload hfields

theorem imported_messages (sessionId threadId sessionId' threadId' : Text)
    (freshId : Text → Text) (now : Nat) (st : RuntimeStore)
    (hunused : Unused st sessionId' threadId') (htidy : Tidy sessionId threadId st) :
    let items := loadEffective st.ledger sessionId threadId
    let rows := importedRows freshId sessionId' threadId' items
    let exported := loadThreadMessages st sessionId threadId
    loadThreadMessages
        { threads := st.threads ++ [(sessionId', threadId')]
          ledger := st.ledger ++ rows
          history := st.history ++ historyItemsFromLedger sessionId' threadId' now rows exported }
        sessionId' threadId' =
      restoredMessages now items exported := by
  intro items rows exported
  have hmessages : rows.filterMap message? = items.filterMap message? := by
    show ((items.map ledgerToDict).map (importRow freshId sessionId' threadId')).filterMap _ = _
    rw [map_map, filterMap_map]
    rfl
  have hhistory : ∀ more, (∀ row ∈ more, row.sessionId = sessionId' ∧ row.threadId = threadId') →
      historyRows
        { threads := st.threads ++ [(sessionId', threadId')]
          ledger := st.ledger ++ rows
          history := st.history ++ more } sessionId' threadId' = more := by
    intro more hmore
    unfold historyRows
    rw [filter_append, filter_eq_nil_iff.mpr fun row hrow => by
      simpa using hunused.history row hrow, nil_append, filter_eq_self]
    intro row hrow
    simpa using hmore row hrow
  have hledger := loadEffective_imported freshId st.ledger sessionId threadId sessionId' threadId'
    hunused.ledger
  unfold loadThreadMessages loadHistoryItems
  rw [hhistory _ fun row hrow => historyItemsFromLedger_ids hrow]
  unfold restoredMessages historyItemsFromLedger
  by_cases hnone : items.filterMap message? = []
  · have hnil := (filterMap_message?_nil_iff sessionId' threadId' now rows).mpr
      (hmessages.trans hnone)
    rw [hnil, if_pos hnone]
    have hwf := exported_messages st sessionId threadId htidy hnone
    have hsorted : (exported.map (extraRow sessionId' threadId' now)).mergeSort
        (fun a b => a.createdAt ≤ b.createdAt) =
          exported.map (extraRow sessionId' threadId' now) := by
      apply mergeSort_eq_self
      rw [pairwise_map]
      exact pairwise_of_forall fun _ _ => Nat.le_refl _
    have hmap := map_extraRow_message sessionId' threadId' now exported hwf
    rw [hsorted]
    cases hexp : exported.map (extraRow sessionId' threadId' now) with
    | nil =>
      rw [hexp] at hmap
      show reconstructProviderMessages (st.ledger ++ rows) sessionId' threadId' = exported
      have hrec : reconstructProviderMessages (st.ledger ++ rows) sessionId' threadId' =
          (loadEffective (st.ledger ++ rows) sessionId' threadId').filterMap
            message? := rfl
      rw [hrec, hledger, hmessages, hnone, ← hmap]
      rfl
    | cons row rest =>
      rw [hexp] at hmap
      exact hmap
  · have hne : rows.filterMap (historyRow? sessionId' threadId' now) ≠ [] := fun hnil =>
      hnone (hmessages.symm.trans ((filterMap_message?_nil_iff _ _ _ _).mp hnil))
    rw [if_neg hnone, ← createdOrder_imported freshId sessionId' threadId',
      ← rebuilt_messages sessionId' threadId' now rows]
    cases hrows : rows.filterMap (historyRow? sessionId' threadId' now) with
    | nil => exact absurd hrows hne
    | cons row rest =>
      dsimp only
      cases hsort : (row :: rest).mergeSort fun a b => decide (a.createdAt ≤ b.createdAt) with
      | nil =>
        have hperm := mergeSort_perm (row :: rest)
          fun a b => decide (a.createdAt ≤ b.createdAt)
        rw [hsort] at hperm
        exact absurd hperm.nil_eq (cons_ne_nil row rest).symm
      | cons first others => rfl

theorem restoredMessages_mirrored (sessionId threadId : Text) (now : Nat) (s : LiveThread)
    (h : Mirrors sessionId threadId s) :
    restoredMessages now (loadEffective s.store.ledger sessionId threadId)
        (loadThreadMessages s.store sessionId threadId) =
      loadThreadMessages s.store sessionId threadId := by
  have hitems : loadItems s.store.ledger sessionId threadId =
      threadRows sessionId threadId s.store :=
    mergeSort_eq_self _ _ (h.seqs.imp Nat.le_of_lt)
  have hsub : (loadEffective s.store.ledger sessionId threadId).Sublist
      (threadRows sessionId threadId s.store) := by
    unfold loadEffective
    rw [hitems]
    exact filter_sublist
  have htime : ∀ item ∈ loadEffective s.store.ledger sessionId threadId,
      item.message?.isSome → createdTime now item = item.createdAt := by
    intro item hitem hm
    have hpos := (h.bounds item (hsub.subset hitem) hm).2.1
    rw [createdTime, if_neg (by omega)]
  have horder : createdOrder now (loadEffective s.store.ledger sessionId threadId) =
      (loadEffective s.store.ledger sessionId threadId).filter fun item => item.message?.isSome := by
    apply mergeSort_eq_self
    refine ((h.times.sublist (hsub.filter _)).imp_of_mem ?_)
    intro a b ha hb hab
    have ha' := mem_filter.mp ha
    have hb' := mem_filter.mp hb
    rw [htime a ha'.1 ha'.2, htime b hb'.1 hb'.2]
    exact hab
  unfold restoredMessages
  split
  · rfl
  · rw [horder, mirrored_messages sessionId threadId s h]
    exact ((filterMap_filter_eq_iff _ _ _).mpr fun _ _ hm => hm).symm

theorem start_empty {st : RuntimeStore} {sessionId threadId : Text}
    (h : Unused st sessionId threadId) :
    threadRows sessionId threadId st = [] ∧ historyRows st sessionId threadId = [] :=
  ⟨filter_eq_nil_iff.mpr fun row hrow => by simpa using h.ledger row hrow,
    filter_eq_nil_iff.mpr fun row hrow => by simpa using h.history row hrow⟩

theorem tidy_start {st : RuntimeStore} {sessionId threadId : Text}
    (h : Unused st sessionId threadId) : Tidy sessionId threadId st := by
  obtain ⟨hrows, hhistory⟩ := start_empty h
  refine ⟨fun row hrow => ?_, fun row hrow => ?_⟩
  · rw [hrows] at hrow
    cases hrow
  · rw [hhistory] at hrow
    cases hrow

theorem mirrors_start {st : RuntimeStore} {sessionId threadId : Text}
    (h : Unused st sessionId threadId) : Mirrors sessionId threadId { store := st } := by
  obtain ⟨hrows, hhistory⟩ := start_empty h
  refine ⟨?_, ?_, ?_, ?_, ?_, ?_⟩
  · rw [hrows]
    exact List.Pairwise.nil
  · rw [hrows]
    exact List.Pairwise.nil
  · intro row hrow
    rw [hrows] at hrow
    cases hrow
  · rw [hhistory]
    exact List.Pairwise.nil
  · intro row hrow
    rw [hhistory] at hrow
    cases hrow
  · rw [hhistory, hrows]
    rfl

theorem importDocument_unused (freshId : Text → Text)
    (clientId sessionId threadId sessionId' threadId' : Text) (now : Nat) (st : RuntimeStore)
    (hthread : threadId ≠ []) (hthread' : threadId' ≠ [])
    (hclient : sessionBelongsToClient sessionId' clientId = true)
    (hfresh : Unused st sessionId' threadId') :
    let rows := importedRows freshId sessionId' threadId'
      (loadEffective st.ledger sessionId threadId)
    importDocument freshId clientId now st (buildExportDocument st sessionId threadId) sessionId'
        (some threadId') false =
      some
        { threads := st.threads ++ [(sessionId', threadId')]
          ledger := st.ledger ++ rows
          history := st.history ++ historyItemsFromLedger sessionId' threadId' now rows
            (loadThreadMessages st sessionId threadId) } := by
  intro rows
  have hledger := loadEffective_imported freshId st.ledger sessionId threadId sessionId'
    threadId' hfresh.ledger
  have htarget : ((some threadId').filter (· ≠ [])).getD
      (buildExportDocument st sessionId threadId).threadId = threadId' := by
    rw [Option.filter_some, if_pos (decide_eq_true hthread')]
    rfl
  have hvalid : validateImportDocument (buildExportDocument st sessionId threadId) = true := by
    simp [validateImportDocument, buildExportDocument, hthread]
  unfold importDocument
  rw [htarget, hclient, hvalid]
  simp only [Bool.not_true, Bool.false_eq_true, if_false, hfresh.threads, false_and,
    loadLedgerItems_eq]
  exact congrArg (fun items => some
    { threads := st.threads ++ [(sessionId', threadId')]
      ledger := st.ledger ++ rows
      history := st.history ++ historyItemsFromLedger sessionId' threadId' now items
        (loadThreadMessages st sessionId threadId) : RuntimeStore }) hledger

/-- **What an import restores.** In every run of a thread, the imported thread has the exported
ledger items, and its messages are those of the message items in the order of their creation;
where the ledger holds no message they are the exported ones, and so they are when the history
mirrored the ledger throughout. -/
theorem import_restores (trunc : Truncation) (newItemId : Nat → Text) (freshId : Text → Text)
    (clientId sessionId threadId sessionId' threadId' : Text) (now : Nat) (start : RuntimeStore)
    (events : List ThreadEvent) (s : LiveThread) (hstart : Unused start sessionId threadId)
    (hrun : run (threadStep trunc newItemId sessionId threadId) { store := start } events = some s)
    (hthread : threadId ≠ []) (hthread' : threadId' ≠ [])
    (hclient : sessionBelongsToClient sessionId' clientId = true)
    (hfresh : Unused s.store sessionId' threadId') :
    ∃ st, importDocument freshId clientId now s.store
        (buildExportDocument s.store sessionId threadId) sessionId' (some threadId') false = some st ∧
      (loadEffective st.ledger sessionId' threadId').map data =
        (loadEffective s.store.ledger sessionId threadId).map data ∧
      loadThreadMessages st sessionId' threadId' =
        restoredMessages now (loadEffective s.store.ledger sessionId threadId)
          (loadThreadMessages s.store sessionId threadId) ∧
      (GoodRun (threadStep trunc newItemId sessionId threadId) Mirrored { store := start } events →
        loadThreadMessages st sessionId' threadId' =
          loadThreadMessages s.store sessionId threadId) := by
  have htidy : Tidy sessionId threadId s.store :=
    run_invariant _ (fun x => Tidy sessionId threadId x.store)
      (fun x e x' hx => tidy_step trunc newItemId sessionId threadId x x' e hx) _ _ _
      (tidy_start hstart) hrun
  have hledger := loadEffective_imported freshId s.store.ledger sessionId threadId sessionId'
    threadId' hfresh.ledger
  have hmessages := imported_messages sessionId threadId sessionId' threadId' freshId now s.store
    hfresh htidy
  have himport := importDocument_unused freshId clientId sessionId threadId sessionId' threadId' now
    s.store hthread hthread' hclient hfresh
  refine ⟨_, himport, ?_, hmessages, fun hgood => ?_⟩
  · show (loadEffective (s.store.ledger ++ _) sessionId' threadId').map data = _
    rw [hledger]
    unfold importedRows
    rw [List.map_map, List.map_map]
    apply List.map_congr_left
    intro item hitem
    have hitem' := List.mem_mergeSort.mp (List.mem_filter.mp hitem).1
    exact importRow_data freshId sessionId' threadId' item (htidy.turnIds item hitem')
  · have hmirrors : Mirrors sessionId threadId s :=
      goodRun_invariant _ Mirrored (Mirrors sessionId threadId)
        (fun x e x' hx hg => mirrors_step trunc newItemId sessionId threadId x x' e hx hg) _ _ _
        (mirrors_start hstart) hrun hgood
    rw [hmessages]
    exact restoredMessages_mirrored sessionId threadId now s hmirrors

/-- Notes for payloads that are too long. -/
def emptyNote : Truncation := ⟨fun _ => [], getField_nil⟩

/-- A thread with one user message. -/
def oneMessage : LiveThread :=
  { store :=
      { ledger :=
          [{ itemId := [], sessionId := ['s'], threadId := ['t'], turnId := some ['1'], seq := 1
             itemType := "message".toList, role := some "user".toList, content := ['x']
             payload := fieldsPayload [], createdAt := 5 }]
        history :=
          [{ sessionId := ['s'], threadId := ['t'], turnId := ['1'], role := "user".toList
             content := ['x'], payload := fieldsPayload [], createdAt := 4 }] }
    lastHistoryCreatedAt := 4
    lastMessageAt := 5 }

theorem unused_oneMessage (history : List HistoryRow)
    (h : ∀ row ∈ history, row.threadId ≠ ['u']) :
    Unused { oneMessage.store with history := history } ['s'] ['u'] :=
  ⟨by simp [oneMessage], by simp [oneMessage], fun row hrow hids => h row hrow hids.2⟩

theorem import_restores_oneMessage :
    ∃ st, importDocument (fun _ => ['i']) ['s'] 9 oneMessage.store
        (buildExportDocument oneMessage.store ['s'] ['t']) ['s'] (some ['u']) false = some st ∧
      (loadEffective st.ledger ['s'] ['u']).map data =
        (loadEffective oneMessage.store.ledger ['s'] ['t']).map data ∧
      loadThreadMessages st ['s'] ['u'] = loadThreadMessages oneMessage.store ['s'] ['t'] := by
  have hrun : run (threadStep emptyNote (fun _ => []) ['s'] ['t']) { store := {} }
      [.message ['1'] "user".toList ['x'] [] 4 5] = some oneMessage := rfl
  obtain ⟨st, himport, hledger, -, hmessages⟩ := import_restores emptyNote (fun _ => [])
    (fun _ => ['i']) ['s'] ['s'] ['t'] ['s'] ['u'] 9 {}
    [.message ['1'] "user".toList ['x'] [] 4 5] oneMessage ⟨by simp, by simp, by simp⟩ hrun
    (List.cons_ne_nil _ _) (List.cons_ne_nil _ _) rfl
    (unused_oneMessage _ (by simp))
  refine ⟨st, himport, hledger, hmessages ⟨⟨?_, ?_, Nat.zero_le _, by omega⟩, fun _ _ => trivial⟩⟩
  · decide
  · decide

/-- The same thread after a compaction to one summary. -/
def compacted : LiveThread :=
  { store :=
      { ledger := oneMessage.store.ledger
        history :=
          [{ sessionId := ['s'], threadId := ['t'], turnId := ['c'], role := "system".toList
             content := ['y'], payload := fieldsPayload [], createdAt := 7 }] }
    lastHistoryCreatedAt := 7
    lastMessageAt := 5 }

theorem compacted_import_differs :
    run (threadStep emptyNote (fun _ => []) ['s'] ['t']) { store := {} }
        [.message ['1'] "user".toList ['x'] [] 4 5, .compact ['c'] [("system".toList, ['y'], [])] 7] =
      some compacted ∧
    ∃ st, importDocument (fun _ => ['i']) ['s'] 9 compacted.store
        (buildExportDocument compacted.store ['s'] ['t']) ['s'] (some ['u']) false = some st ∧
      loadThreadMessages st ['s'] ['u'] ≠ loadThreadMessages compacted.store ['s'] ['t'] := by
  refine ⟨rfl, ?_⟩
  have htidy : Tidy ['s'] ['t'] compacted.store :=
    ⟨by simp [threadRows, compacted, oneMessage], fun row hrow => by
      rw [List.mem_singleton.mp hrow]
      rfl⟩
  have hitems : loadEffective compacted.store.ledger ['s'] ['t'] = compacted.store.ledger := by
    unfold loadEffective
    rw [show loadItems compacted.store.ledger ['s'] ['t'] = compacted.store.ledger from
      List.mergeSort_singleton _]
    rfl
  have horder : createdOrder 9 compacted.store.ledger = compacted.store.ledger :=
    List.mergeSort_singleton _
  have hexported : loadThreadMessages compacted.store ['s'] ['t'] =
      compacted.store.history.map HistoryRow.message := by
    unfold loadThreadMessages
    rw [show loadHistoryItems compacted.store ['s'] ['t'] = compacted.store.history from
      List.mergeSort_singleton _]
    rfl
  have hunused : Unused compacted.store ['s'] ['u'] :=
    unused_oneMessage compacted.store.history (by simp [compacted])
  have himport := importDocument_unused (fun _ => ['i']) ['s'] ['s'] ['t'] ['s'] ['u'] 9
    compacted.store (List.cons_ne_nil _ _) (List.cons_ne_nil _ _) rfl hunused
  have hmessages := imported_messages ['s'] ['t'] ['s'] ['u'] (fun _ => ['i']) 9 compacted.store
    hunused htidy
  refine ⟨_, himport, fun heq => ?_⟩
  have hrestored := hmessages.symm.trans heq
  rw [hitems, hexported] at hrestored
  unfold restoredMessages at hrestored
  have hsome : compacted.store.ledger.filterMap message? ≠ [] := List.cons_ne_nil _ _
  rw [if_neg hsome, horder] at hrestored
  have hcontent := congrArg (List.map fun m => textField m "content" "") hrestored
  exact absurd hcontent (by decide)

end MiqroForge.Ledger
