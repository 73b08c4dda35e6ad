import MiqroForge.Sessions.Saving

/-!
The text `save` writes, read and rewritten: a fresh load gives its rows and its metadata back, and
`_rewrite_metadata_line` replaces its first line as long as no line holds a raw line break.
-/

namespace MiqroForge.Sessions

open PyText FileTree Calls SessionManager List

/-! ## Dates -/

/-- What the code relies on of `datetime` and `int`: a date that was parsed or normalized can be
parsed again, and a counter is an integer. -/
structure Host.Lawful (host : Host) : Prop where
  parsed : ∀ s d, host.fromIso s = some d → (host.fromIso d).isSome
  normalized : ∀ s d d', host.fromIso s = some d → host.normalize d = some d' →
    (host.fromIso d').isSome
  counter : ∀ n, (host.toInt (.num (Json.Number.ofNat n))).isSome

/-- A text that `fromisoformat` reads. -/
def IsDate (fromIso : Text → Option Text) (s : Text) : Prop := (fromIso s).isSome

/-- The dates read so far can be parsed. -/
structure Loading.Dated (fromIso : Text → Option Text) (l : Loading) : Prop where
  created : ∀ d ∈ l.createdAt, IsDate fromIso d
  updated : ∀ d ∈ l.updatedAt, IsDate fromIso d

/-- A session whose metadata line can be written and read. -/
structure Sound (fromIso : Text → Option Text) (key : Text) (session : Session) : Prop where
  key_eq : session.key = key
  rows : ∀ data ∈ session.messages, IsRow data
  fields : ∃ fields, session.metadata = .obj fields
  metadata : Json.WellFormed session.metadata
  created : IsDate fromIso session.createdAt
  updated : IsDate fromIso session.updatedAt

section Dates
variable {host : Host} {key : Text} {session session' : Session}

theorem Host.Lawful.isDate (h : host.Lawful) {s d : Text} (hs : host.fromIso s = some d) :
    IsDate host.fromIso d := h.parsed s d hs

theorem dateField_dated (h : host.Lawful) {value : Option Json.Value} {old d : Option Text}
    (hold : ∀ x ∈ old, IsDate host.fromIso x) (hd : dateField host value old = some d) :
    ∀ x ∈ d, IsDate host.fromIso x := by
  unfold dateField at hd
  split at hd
  · cases hd
    exact hold
  · split at hd
    · split at hd
      · obtain ⟨date, hdate, rfl⟩ := Option.map_eq_some_iff.mp hd
        intro x hx
        cases hx
        exact h.isDate hdate
      · cases hd
    · cases hd
      exact hold

theorem loadLine_dated (h : host.Lawful) {l l' : Loading} {raw : Text} (hl : l.Dated host.fromIso)
    (hload : loadLine host l raw = some l') : l'.Dated host.fromIso := by
  unfold loadLine at hload
  split at hload
  · cases hload
    exact hl
  · split at hload
    case h_2 => cases hload
    case h_1 data _ =>
      split at hload
      · simp only [loadMetadata, Option.bind_eq_bind, Option.bind_eq_some_iff,
          Option.some.injEq] at hload
        obtain ⟨_, -, created, hcreated, updated, hupdated, _, -, rfl⟩ := hload
        exact ⟨dateField_dated h hl.created hcreated, dateField_dated h hl.updated hupdated⟩
      · cases hload
        refine ⟨hl.created, fun x hx => ?_⟩
        rcases Option.or_eq_some_iff.mp hx with hx | ⟨-, hx⟩
        · obtain ⟨ts, -, hts⟩ := Option.bind_eq_some_iff.mp hx
          exact h.isDate hts
        · exact hl.updated x hx

theorem loadLines_dated (h : host.Lawful) {lines : List Text} {l l' : Loading}
    (hl : l.Dated host.fromIso) (hload : List.foldlM (loadLine host) l lines = some l') :
    l'.Dated host.fromIso := by
  induction lines generalizing l with
  | nil =>
    cases hload
    exact hl
  | cons raw lines ih =>
    rw [foldlM_cons, Option.bind_eq_bind, Option.bind_eq_some_iff] at hload
    obtain ⟨mid, hmid, hrest⟩ := hload
    exact ih (loadLine_dated h hl hmid) hrest

theorem readSession_dated (h : host.Lawful) (hnow : IsDate host.fromIso host.now) {content : Text}
    (hread : readSession host key content = some session) :
    IsDate host.fromIso session.createdAt ∧ IsDate host.fromIso session.updatedAt := by
  obtain ⟨l, hl, rfl⟩ := Option.map_eq_some_iff.mp hread
  have hempty : Loading.Dated host.fromIso {} := by
    constructor
    · nofun
    · nofun
  have hdated : l.Dated host.fromIso := loadLines_dated h hempty hl
  have hcreated : IsDate host.fromIso (l.createdAt.getD host.now) := by
    cases hc : l.createdAt with
    | none => exact hnow
    | some d => exact hdated.created d hc
  refine ⟨hcreated, ?_⟩
  cases hu : l.updatedAt with
  | none => exact hcreated
  | some d => exact hdated.updated d hu

theorem parseIso_date (h : host.Lawful) {s : Text} {parsed : Option Text}
    (hparsed : parseIso host s = some parsed) : ∀ d ∈ parsed, IsDate host.fromIso d := by
  unfold parseIso at hparsed
  split at hparsed
  · cases hparsed
    intro d hd
    cases hd
  case h_2 date hiso =>
    obtain ⟨d, hd, rfl⟩ := Option.map_eq_some_iff.mp hparsed
    intro x hx
    cases hx
    exact h.normalized s date d hiso hd

theorem laterTimestamp_date (h : host.Lawful) {latest latest' : Option Text} {msg : Dict}
    (hl : ∀ d ∈ latest, IsDate host.fromIso d)
    (hts : laterTimestamp host latest msg = some latest') : ∀ d ∈ latest', IsDate host.fromIso d := by
  unfold laterTimestamp at hts
  split at hts
  · cases hts
    exact hl
  case h_2 ts _ =>
    obtain ⟨parsed, hparsed, rfl⟩ := Option.map_eq_some_iff.mp hts
    have hdate := parseIso_date h hparsed
    split
    · exact hl
    · exact hdate
    · split
      · exact hdate
      · exact hl

theorem sync_sound (h : host.Lawful) (hs : Sound host.fromIso key session)
    (hsync : syncUpdatedAt host session = some session') : Sound host.fromIso key session' := by
  obtain ⟨latest, hlatest, rfl⟩ := Option.map_eq_some_iff.mp hsync
  have hfold : ∀ (msgs : List Dict) (old : Option Text), (∀ d ∈ old, IsDate host.fromIso d) →
      foldlM (laterTimestamp host) old msgs = some latest → ∀ d ∈ latest, IsDate host.fromIso d := by
    intro msgs
    induction msgs with
    | nil =>
      intro old hold hrun
      cases hrun
      exact hold
    | cons msg msgs ih =>
      intro old hold hrun
      rw [foldlM_cons, Option.bind_eq_bind, Option.bind_eq_some_iff] at hrun
      obtain ⟨mid, hmid, hrest⟩ := hrun
      exact ih mid (laterTimestamp_date h hold hmid) hrest
  refine ⟨hs.key_eq, hs.rows, hs.fields, hs.metadata, hs.created, ?_⟩
  cases hl : latest with
  | none => exact hs.updated
  | some d => exact hfold _ none nofun hlatest d hl

end Dates

/-! ## The metadata line -/

section Line
variable {host : Host} {fromIso : Text → Option Text} {key : Text} {session : Session}

theorem getField_obj (fields : Dict) (k : Text) :
    ∃ value, getField (.obj fields) k = some value := by
  simp only [getField]
  split
  · exact ⟨none, rfl⟩
  · exact ⟨_, rfl⟩

theorem Sound.withField {k : Text} {v metadata : Json.Value}
    (hs : Sound fromIso key session) (hv : Json.WellFormed v)
    (hset : setItem session.metadata k v = some metadata) :
    Sound fromIso key { session with metadata } := by
  refine ⟨hs.key_eq, hs.rows, ?_, setItem_wellFormed hs.metadata hv hset, hs.created, hs.updated⟩
  obtain ⟨fields, hfields⟩ := hs.fields
  rw [hfields] at hset
  exact ⟨_, (Option.some.inj hset).symm⟩

theorem getField_setItem {v x v' : Json.Value} {k : Text} (hx : x ≠ .null)
    (h : setItem v k x = some v') : getField v' k = some (some x) := by
  unfold setItem at h
  split at h
  case h_2 => cases h
  case h_1 =>
    cases h
    simp only [getField, Json.lookup_setField]
    split
    case h_1 heq => exact absurd (Option.some.inj heq) hx
    case h_2 => rfl

theorem getField_setItem_of_ne {v x v' : Json.Value} {k k' : Text} (hk : k' ≠ k)
    (h : setItem v k x = some v') : getField v' k' = getField v k' := by
  unfold setItem at h
  split at h
  case h_2 => cases h
  case h_1 =>
    cases h
    simp only [getField, Json.lookup_setField_of_ne _ _ hk]

/-- The metadata line of a session whose metadata is a dictionary. -/
def lineOf (session : Session) : Dict := (metadataLine session).getD []

theorem Sound.line (h : Sound fromIso key session) : metadataLine session = some (lineOf session) := by
  obtain ⟨fields, hfields⟩ := h.fields
  obtain ⟨owner, howner⟩ := getField_obj fields ownerField
  have hline : ∃ line, metadataLine session = some line :=
    ⟨_, by rw [metadataLine, hfields, howner]; rfl⟩
  obtain ⟨line, hline⟩ := hline
  rw [lineOf, hline]
  rfl

theorem Sound.lineOf_spec (h : Sound fromIso key session) :
    Json.WellFormed (.obj (lineOf session)) ∧ isMetadata (lineOf session) = true :=
  metadataLine_spec h.metadata h.line

theorem lineOf_lookup (h : Sound fromIso key session) :
    (lineOf session).lookup "metadata".toList = some session.metadata ∧
      (lineOf session).lookup "created_at".toList = some (.str session.createdAt) ∧
      (lineOf session).lookup "updated_at".toList = some (.str session.updatedAt) ∧
      (lineOf session).lookup "last_consolidated".toList =
        some (.num (Json.Number.ofNat session.lastConsolidated)) ∧
      ∃ owner, getField session.metadata ownerField = some owner ∧
        (lineOf session).lookup ownerField = some (owner.getD .null) := by
  have hline := h.line
  simp only [metadataLine, Option.bind_eq_bind, Option.bind_eq_some_iff, Option.some.injEq]
    at hline
  obtain ⟨owner, howner, heq⟩ := hline
  rw [← heq]
  exact ⟨rfl, rfl, rfl, rfl, owner, howner, rfl⟩

theorem contains_of_getField {v x : Json.Value} {k : Text} (h : getField v k = some (some x)) :
    contains v k = some true := by
  unfold getField at h
  split at h
  case h_2 => cases h
  case h_1 fields k =>
    split at h
    case h_1 => cases h
    case h_2 =>
      obtain ⟨before, after, rfl, -⟩ := lookup_eq_some_iff.mp (Option.some.inj h)
      simp [contains]

theorem ownedMetadata_line (h : Sound fromIso key session) :
    ownedMetadata host (lineOf session) = some session.metadata := by
  obtain ⟨hmeta, -, -, -, owner, howner, hlookup⟩ := lineOf_lookup h
  simp only [ownedMetadata, hmeta, hlookup, Option.getD_some]
  cases owner with
  | none => rfl
  | some v =>
    rw [contains_of_getField howner]
    simp only [Option.getD_some, Option.bind_eq_bind, Option.bind_some, if_true]
    split <;> rfl

theorem dateField_line {s : Text} (h : IsDate host.fromIso s) (old : Option Text) :
    ∃ d, dateField host (some (.str s)) old = some d := by
  obtain ⟨date, hdate⟩ := Option.isSome_iff_exists.mp h
  simp only [dateField, hdate]
  split
  · exact ⟨_, rfl⟩
  · exact ⟨_, rfl⟩

theorem loadMetadata_line (hlaw : host.Lawful) (h : Sound host.fromIso key session) (l : Loading) :
    ∃ l', loadMetadata host l (lineOf session) = some l' ∧ l'.metadata = session.metadata := by
  obtain ⟨-, hcreated, hupdated, hcursor, -⟩ := lineOf_lookup h
  obtain ⟨created, hc⟩ := dateField_line h.created l.createdAt
  obtain ⟨updated, hu⟩ := dateField_line h.updated l.updatedAt
  have hnum : ∃ n, consolidatedField host (lineOf session) = some n := by
    obtain ⟨n, hn⟩ := Option.isSome_iff_exists.mp (hlaw.counter session.lastConsolidated)
    simp only [consolidatedField, hcursor, Option.getD_some, hn]
    split
    · exact ⟨_, rfl⟩
    · exact ⟨_, rfl⟩
  obtain ⟨n, hn⟩ := hnum
  simp only [loadMetadata, ownedMetadata_line h, hcreated, hupdated, hc, hu, hn,
    Option.bind_eq_bind, Option.bind_some, Option.some.injEq]
  exact ⟨_, rfl, rfl⟩

end Line

/-! ## Loading a written file -/

section Loading
variable {host : Host} {key : Text} {session : Session} {rows : List Dict}

theorem print_obj_ne (fields : Dict) : Json.print (.obj fields) ≠ [] := by
  rcases fields with _ | ⟨⟨k, v⟩, fields⟩
  · exact cons_ne_nil _ _
  · exact cons_ne_nil _ _

theorem loadLine_print {data : Dict} (h : Json.WellFormed (.obj data)) (l : Loading) :
    loadLine host l (Json.print (.obj data)) =
      if isMetadata data then loadMetadata host l data else some (loadMessage host l data) := by
  rw [loadLine, Json.strip_print, if_neg (print_obj_ne data), Json.parse_print _ h]

variable (host) in
theorem loadRows (hrows : ∀ data ∈ rows, IsRow data) (l : Loading) :
    ∃ l', List.foldlM (loadLine host) l
        (rows.map (fun row => Json.print (.obj row)) ++ [[]]) = some l' ∧
      l'.metadata = l.metadata := by
  induction rows generalizing l with
  | nil => exact ⟨l, rfl, rfl⟩
  | cons row rows ih =>
    obtain ⟨hrow, hrest⟩ := forall_mem_cons.mp hrows
    obtain ⟨l', hl', hmeta⟩ := ih hrest (loadMessage host l row)
    refine ⟨l', ?_, hmeta⟩
    rw [map_cons, cons_append, foldlM_cons, loadLine_print hrow.1, hrow.2,
      if_neg Bool.false_ne_true]
    exact hl'

/-- **A fresh load.** The rows and the metadata of a written file come back. -/
theorem readSession_fileText (hlaw : host.Lawful) (hnow : IsDate host.fromIso host.now)
    (h : Sound host.fromIso key session) (hrows : ∀ data ∈ rows, IsRow data) :
    ∃ loaded, readSession host key (fileText (lineOf session) rows) = some loaded ∧
      loaded.messages = rows ∧ loaded.savedCount = rows.length ∧
      loaded.metadata = session.metadata ∧ Sound host.fromIso key loaded := by
  obtain ⟨hwell, hmeta⟩ := h.lineOf_spec
  obtain ⟨l, hl, hlmeta⟩ := loadMetadata_line hlaw h {}
  obtain ⟨l', hl', hl'meta⟩ := loadRows host hrows l
  have hread : ∃ loaded, readSession host key (fileText (lineOf session) rows) = some loaded ∧
      loaded.metadata = session.metadata := by
    unfold readSession
    rw [fileText, fileLines_rows, map_cons, cons_append, foldlM_cons,
      loadLine_print hwell, hmeta, if_pos rfl, hl]
    show ∃ loaded, Option.map _ (foldlM (loadLine host) l _) = some loaded ∧ _
    rw [hl']
    exact ⟨_, rfl, hl'meta.trans hlmeta⟩
  obtain ⟨loaded, hread, hloaded⟩ := hread
  obtain ⟨hmsgs, hstored⟩ := readSession_rows hread
  obtain ⟨hcreated, hupdated⟩ := readSession_dated hlaw hnow hread
  rw [rowsOf_fileText hwell hmeta hrows] at hmsgs
  refine ⟨loaded, hread, hmsgs, by rw [hstored.saved, hmsgs], hloaded, hstored.key_eq,
    hstored.rows, ?_, hstored.metadata, hcreated, hupdated⟩
  rw [hloaded]
  exact h.fields

end Loading

/-! ## Rewriting the metadata line -/

section Rewriting
variable {host : Host} {key : Text} {session : Session} {rows : List Dict}

/-- No character of the text ends a line for `splitlines` but not in a JSON line. -/
def unbroken (text : Text) : Bool := text.all fun c => !Json.isRawBreak c

theorem unbroken_append (s t : Text) : unbroken (s ++ t) = (unbroken s && unbroken t) :=
  all_append

theorem print_unbroken {data : Dict} (h : unbroken (rowLine data) = true) :
    ∀ c ∈ Json.print (.obj data), isLineBreak c = false := by
  rw [rowLine, unbroken_append, Bool.and_eq_true] at h
  intro c hc
  have hraw : Json.isRawBreak c = false := by
    have := all_eq_true.mp h.1 c hc
    simpa using this
  by_contra hbreak
  rw [Bool.not_eq_false] at hbreak
  refine Json.not_mem_print hbreak ?_ _ hc
  simpa [Json.isRawBreak, hbreak] using hraw

theorem fileText_lines (line : Dict) (rows : List Dict) :
    fileText line rows =
      ((line :: rows).map fun row => Json.print (.obj row)).flatMap (· ++ ['\n']) := by
  rw [flatMap_map]
  rfl

theorem splitlines_fileText {line : Dict} (h : unbroken (fileText line rows) = true) :
    splitlines (fileText line rows) =
      (line :: rows).map fun row => Json.print (.obj row) := by
  rw [fileText_lines]
  apply splitlines_lines
  intro l hl
  obtain ⟨row, hrow, rfl⟩ := mem_map.mp hl
  apply print_unbroken
  refine all_eq_true.mpr fun c hc => ?_
  exact all_eq_true.mp h c (mem_flatMap.mpr ⟨row, hrow, hc⟩)

/-- **Rewriting the metadata line** of a file without raw line breaks. -/
theorem rewritten_fileText {line line' : Dict} (hwell : Json.WellFormed (.obj line))
    (hmeta : isMetadata line = true) (h : unbroken (fileText line rows) = true) :
    ['\n'].intercalate ((replaceMetadata line' (splitlines (fileText line rows))).getD
        (Json.print (.obj line') :: splitlines (fileText line rows))) ++ ['\n'] =
      fileText line' rows := by
  have hreplace : replaceMetadata line'
      ((line :: rows).map fun row => Json.print (.obj row)) =
        some ((line' :: rows).map fun row => Json.print (.obj row)) := by
    rw [map_cons, replaceMetadata, Json.parse_print _ hwell]
    simp only [hmeta, if_true, map_cons]
  rw [splitlines_fileText h, hreplace, Option.getD_some, map_cons, intercalate_newline,
    fileText_lines, map_cons]

theorem fileText_append (line : Dict) (rows new : List Dict) :
    fileText line rows ++ new.flatMap rowLine = fileText line (rows ++ new) := by
  rw [fileText, fileText, ← flatMap_append, cons_append]

end Rewriting

end MiqroForge.Sessions
