import MiqroForge.Sessions.Manager

/-!
The message rows of a conversation file. What `_load` returns are the rows of the file, and
the rows of a file that `save` writes are the messages of the session.
-/

namespace MiqroForge.Sessions

open PyText FileTree SessionManager Json List

/-- The message row on a line. -/
def row? (raw : Text) : Option Dict :=
  match parse (strip raw) with
  | some (.obj data) => if isMetadata data then none else some data
  | _ => none

def rowsOf (content : Text) : List Dict := (fileLines content).filterMap row?

/-- The rows in the file at a path. -/
def rowsAt (t : Tree) (p : Path) : List Dict := ((textOf (t p)).map rowsOf).getD []

/-- What a line can give. -/
def IsRow (data : Dict) : Prop := WellFormed (.obj data) ∧ isMetadata data = false

theorem rowsAt_of_file {t : Tree} {p : Path} {content : Text} (h : t p = some (.file content)) :
    rowsAt t p = rowsOf content := by
  rw [rowsAt, h]
  rfl

/-! ## Reading -/

theorem row_blank {raw : Text} (h : strip raw = []) : row? raw = none := by
  rw [row?, h]
  rfl

theorem row_isRow {raw : Text} {data : Dict} (h : row? raw = some data) : IsRow data := by
  unfold row? at h
  split at h
  case h_1 fields hparse =>
    cases hmeta : isMetadata fields with
    | true =>
      rw [hmeta] at h
      cases h
    | false =>
      rw [hmeta] at h
      cases h
      exact ⟨parse_wellFormed hparse, hmeta⟩
  case h_2 => cases h

theorem rowsOf_isRow {content : Text} {data : Dict} (h : data ∈ rowsOf content) : IsRow data := by
  obtain ⟨raw, -, hrow⟩ := mem_filterMap.mp h
  exact row_isRow hrow

theorem getField_wellFormed {v x : Value} {k : Text} (hv : WellFormed v)
    (h : getField v k = some (some x)) : WellFormed x := by
  unfold getField at h
  split at h
  case h_2 => cases h
  case h_1 fields k =>
    split at h
    case h_1 => cases h
    case h_2 => exact lookup_wellFormed hv (Option.some.inj h)

theorem setItem_wellFormed {v x v' : Value} {k : Text} (hv : WellFormed v)
    (hx : WellFormed x) (h : setItem v k x = some v') : WellFormed v' := by
  unfold setItem at h
  split at h
  case h_1 fields k x =>
    cases h
    exact setField_wellFormed hv hx
  case h_2 => cases h

theorem getD_lookup_wellFormed {data : Dict} (h : WellFormed (.obj data)) (k : Text)
    {default : Value} (hd : WellFormed default) :
    WellFormed ((data.lookup k).getD default) := by
  cases hk : data.lookup k with
  | none => exact hd
  | some v => exact lookup_wellFormed h hk

theorem ownedMetadata_wellFormed {host : Host} {data : Dict} {metadata : Value}
    (hdata : WellFormed (.obj data)) (h : ownedMetadata host data = some metadata) :
    WellFormed metadata := by
  have hempty : WellFormed (.obj []) := ⟨nodup_nil, trivial⟩
  have hnull : WellFormed .null := trivial
  have hold := getD_lookup_wellFormed hdata "metadata".toList hempty
  simp only [ownedMetadata] at h
  split at h
  case isFalse =>
    cases h
    exact hold
  case isTrue =>
    obtain ⟨there, -, h⟩ := Option.bind_eq_some_iff.mp h
    split at h
    · cases h
      exact hold
    · exact setItem_wellFormed hold (getD_lookup_wellFormed hdata ownerField hnull) h

theorem loadMetadata_keeps {host : Host} {l l' : Loading} {data : Dict}
    (hdata : WellFormed (.obj data)) (h : loadMetadata host l data = some l') :
    l'.messages = l.messages ∧ WellFormed l'.metadata := by
  simp only [loadMetadata, Option.bind_eq_bind, Option.bind_eq_some_iff, Option.some.injEq] at h
  obtain ⟨metadata, hmeta, createdAt, -, updatedAt, -, cursor, -, rfl⟩ := h
  exact ⟨rfl, ownedMetadata_wellFormed hdata hmeta⟩

theorem loadLine_row {host : Host} {l l' : Loading} {raw : Text}
    (h : loadLine host l raw = some l') :
    l'.messages = l.messages ++ (row? raw).toList ∧
      (WellFormed l.metadata → WellFormed l'.metadata) := by
  unfold loadLine at h
  split at h
  case isTrue hblank =>
    cases h
    simp [row_blank hblank]
  case isFalse =>
    split at h
    case h_2 => cases h
    case h_1 data hparse =>
      have hrow : row? raw = if isMetadata data then none else some data := by
        rw [row?, hparse]
      split at h
      case isTrue hmeta =>
        obtain ⟨hmsgs, hwell⟩ := loadMetadata_keeps (parse_wellFormed hparse) h
        simp [hrow, hmeta, hmsgs, hwell]
      case isFalse hmeta =>
        cases h
        simp [hrow, hmeta, loadMessage]

theorem loadLines_rows {host : Host} {lines : List Text} {l l' : Loading}
    (h : List.foldlM (loadLine host) l lines = some l') :
    l'.messages = l.messages ++ lines.filterMap row? ∧
      (WellFormed l.metadata → WellFormed l'.metadata) := by
  induction lines generalizing l with
  | nil =>
    cases h
    simp
  | cons raw lines ih =>
    rw [foldlM_cons, Option.bind_eq_bind, Option.bind_eq_some_iff] at h
    obtain ⟨mid, hmid, hrest⟩ := h
    obtain ⟨hmsgs, hwell⟩ := loadLine_row hmid
    obtain ⟨hmsgs', hwell'⟩ := ih hrest
    refine ⟨?_, fun hl => hwell' (hwell hl)⟩
    rw [hmsgs', hmsgs, append_assoc]
    cases hraw : row? raw with
    | none => simp [hraw]
    | some data => simp [hraw]

/-- A session as it is stored: all of its messages are rows on disk. -/
structure Stored (key : Text) (session : Session) : Prop where
  key_eq : session.key = key
  rows : ∀ data ∈ session.messages, IsRow data
  saved : session.savedCount = session.messages.length
  metadata : WellFormed session.metadata

/-- **What `_load` returns are the rows of the file.** -/
theorem readSession_rows {host : Host} {key content : Text} {session : Session}
    (h : readSession host key content = some session) :
    session.messages = rowsOf content ∧ Stored key session := by
  unfold readSession at h
  obtain ⟨l, hl, rfl⟩ := Option.map_eq_some_iff.mp h
  obtain ⟨hmsgs, hwell⟩ := loadLines_rows hl
  have hrows : l.messages = rowsOf content := hmsgs
  refine ⟨hrows, rfl, ?_, rfl, hwell ⟨nodup_nil, trivial⟩⟩
  intro data hdata
  rw [hrows] at hdata
  exact rowsOf_isRow hdata

/-! ## Writing -/

theorem fileLines_rows (rows : List Dict) :
    fileLines (rows.flatMap rowLine) = rows.map (fun row => print (.obj row)) ++ [[]] := by
  induction rows with
  | nil => rfl
  | cons row rows ih =>
    have hclean : ∀ c ∈ print (.obj row), (c == '\n' || c == '\r') = false := by
      intro c hc
      rw [Bool.or_eq_false_iff, beq_eq_false_iff_ne, beq_eq_false_iff_ne]
      constructor
      · rintro rfl
        exact not_mem_print (by decide) (by decide) _ hc
      · rintro rfl
        exact not_mem_print (by decide) (by decide) _ hc
    rw [flatMap_cons, rowLine, append_assoc, singleton_append, map_cons,
      cons_append, ← ih]
    exact splitOnP_append_cons_of_forall_mem hclean '\n' (by decide) _

theorem row_print {data : Dict} (h : IsRow data) : row? (print (.obj data)) = some data := by
  simp only [row?, strip_print, parse_print _ h.1, h.2, Bool.false_eq_true, if_false]

theorem row_print_metadata {line : Dict} (hwell : WellFormed (.obj line))
    (hmeta : isMetadata line = true) : row? (print (.obj line)) = none := by
  simp only [row?, strip_print, parse_print _ hwell, hmeta, if_true]

theorem filterMap_print {rows : List Dict} (h : ∀ data ∈ rows, IsRow data) :
    (rows.map fun row => print (.obj row)).filterMap row? = rows := by
  rw [filterMap_map]
  have hpoint : ∀ data ∈ rows, (row? ∘ fun row => print (.obj row)) data = some data :=
    fun data hdata => row_print (h data hdata)
  rw [filterMap_congr hpoint]
  exact filterMap_some

/-- **The rows of a written file are the messages.** -/
theorem rowsOf_fileText {line : Dict} {messages : List Dict}
    (hwell : WellFormed (.obj line)) (hmeta : isMetadata line = true)
    (hrows : ∀ data ∈ messages, IsRow data) : rowsOf (fileText line messages) = messages := by
  rw [rowsOf, fileText, fileLines_rows, map_cons, cons_append, filterMap_cons,
    row_print_metadata hwell hmeta, filterMap_append, filterMap_print hrows]
  exact append_nil messages

theorem metadataLine_spec {session : Session} {line : Dict}
    (hwell : WellFormed session.metadata) (h : metadataLine session = some line) :
    WellFormed (.obj line) ∧ isMetadata line = true := by
  simp only [metadataLine, Option.bind_eq_bind, Option.bind_eq_some_iff, Option.some.injEq] at h
  obtain ⟨owner, howner, rfl⟩ := h
  have hval : WellFormed (owner.getD .null) := by
    cases owner with
    | none => trivial
    | some v => exact getField_wellFormed hwell howner
  have hkeys : ["_type".toList, "key".toList, ownerField, "created_at".toList,
      "updated_at".toList, "metadata".toList, "last_consolidated".toList].Nodup := by decide
  exact ⟨⟨hkeys, trivial, trivial, hval, trivial, trivial, hwell, trivial, trivial⟩, rfl⟩

end MiqroForge.Sessions
