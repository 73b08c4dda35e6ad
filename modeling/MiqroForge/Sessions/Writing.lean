import MiqroForge.Sessions.Reloading

/-!
The conversation file of a session as `save` and `_rewrite_metadata_line` leave it: a metadata
line, and the rows under it. A save either writes the file anew or appends what is new.
-/

namespace MiqroForge.Sessions

open PyText FileTree Calls

/-! ## Below the thresholds -/

/-- The file of a session, as far as it can be read. -/
def contentAt (m : SessionManager) (key : Text) (w : World) : Option Text :=
  textOf (w.tree (m.getSessionPath key))

/-- The file is below the thresholds of compaction, and the saved session is. -/
def savesSmall (host : Host) (session : Session) (content : Option Text) : Bool :=
  SessionManager.isSmall session.messages (content.getD []) &&
    (SessionManager.syncUpdatedAt host session).all fun s =>
      SessionManager.isSmall s.messages (SessionManager.fileText (lineOf s) s.messages)

/-- The rows of the file are the first messages, and a line break is no part of what is added to
them or of the file it is added to. -/
def appends (session : Session) (content : Text) : Bool :=
  ((rowsOf content).map fun row => Json.print (.obj row)) ==
      ((session.messages.take session.savedCount).map fun row => Json.print (.obj row)) &&
    ((session.messages.drop session.savedCount).isEmpty ||
      unbroken (content ++ (session.messages.drop session.savedCount).flatMap SessionManager.rowLine))

/-- A save starts the file, or finds less messages than it has rows, or appends. -/
def savesAll (session : Session) (content : Option Text) : Bool :=
  content.all fun content =>
    decide (session.messages.length < session.savedCount) || appends session content

/-! ## What is on disk -/

namespace SessionManager

/-- The path is free, or a directory above the session. -/
def Free (m : SessionManager) (key : Text) (p : Path) (t : Tree) : Prop :=
  t p = none ∨ p <+: m.getSessionDir key ∧ t p = some .dir

/-- Nothing is stored at the three places of a session. -/
structure Unwritten (m : SessionManager) (key : Text) (legacy : Path) (t : Tree) : Prop where
  path : t (m.getSessionPath key) = none
  flat : m.Free key (m.getFlatSessionPath key) t
  legacy : m.Free key legacy t

/-- A file that was written: the metadata line of `old`, and the rows. -/
structure Written (fromIso : Text → Option Text) (m : SessionManager) (key : Text)
    (old : Session) (rows : List Dict) (t : Tree) : Prop where
  file : t (m.getSessionPath key) = some (.file (fileText (lineOf old) rows))
  line : Sound fromIso key old
  rows : ∀ data ∈ rows, IsRow data
  ready : Ready (m.getSessionDir key) t

section Trees
variable {m : SessionManager} {key : Text} {host : Host} {t : Tree} {w : World}

variable (m key) in
theorem path_not_above : ¬ m.getSessionPath key <+: m.getSessionDir key :=
  not_child_prefix (m.getSessionDir key) _

theorem path_parent : (m.getSessionPath key).dropLast = m.getSessionDir key :=
  List.dropLast_concat

theorem Free.mkdirs {p : Path} (h : m.Free key p t) :
    m.Free key p fun q => if q <+: m.getSessionDir key then some Node.dir else t q := by
  by_cases hp : p <+: m.getSessionDir key
  · exact Or.inr ⟨hp, if_pos hp⟩
  · rcases h with h | h
    · exact Or.inl ((if_neg hp).trans h)
    · exact absurd h.1 hp

theorem Unwritten.mkdirs {legacy : Path} (h : m.Unwritten key legacy t) :
    m.Unwritten key legacy fun q => if q <+: m.getSessionDir key then some Node.dir else t q :=
  ⟨(if_neg (path_not_above m key)).trans h.path, h.flat.mkdirs, h.legacy.mkdirs⟩

theorem ready_mkdirs (t : Tree) : Ready (m.getSessionDir key)
    fun q => if q <+: m.getSessionDir key then some Node.dir else t q :=
  fun _ hq => if_pos hq

/-- The world with a new conversation file. -/
def put (m : SessionManager) (key text : Text) (w : World) : World :=
  { w with tree := setNode w.tree (m.getSessionPath key) (some (.file text)) }

theorem put_file (text : Text) :
    (m.put key text w).tree (m.getSessionPath key) = some (.file text) := by
  simp only [put, setNode_self]

theorem put_ready {text : Text} (h : Ready (m.getSessionDir key) w.tree) :
    Ready (m.getSessionDir key) (m.put key text w).tree := by
  intro q hq
  have hne : q ≠ m.getSessionPath key := by
    intro heq
    rw [heq] at hq
    exact path_not_above m key hq
  simp only [put, setNode, if_neg hne]
  exact h q hq

/-- The file can be written. -/
structure Writable (m : SessionManager) (key : Text) (t : Tree) : Prop where
  ready : Ready (m.getSessionDir key) t
  noDir : isDir t (m.getSessionPath key) = false

theorem write_run (h : m.Writable key w.tree) (text : Text) :
    onDisk (writeText (m.getSessionPath key) text) w = (.ok (), m.put key text w) := by
  apply onDisk_ok
  have hparent : isDir w.tree (m.getSessionPath key).dropLast = true := by
    rw [path_parent, isDir, h.ready _ List.prefix_rfl]
    rfl
  rw [writeText_run, h.noDir, if_neg Bool.false_ne_true, hparent, if_pos rfl]

theorem read_run {content : Text} (h : w.tree (m.getSessionPath key) = some (.file content)) :
    onDisk (readText (m.getSessionPath key)) w = (.ok content, w) := by
  apply onDisk_ok
  unfold readText
  rw [get_bind, h]
  rfl

end Trees

/-! ## What the writers leave -/

section Writers
variable {fromIso : Text → Option Text} {m : SessionManager} {key : Text} {session old : Session}
  {rows : List Dict} {w : World}

theorem Written.writable (h : Written fromIso m key old rows w.tree) : m.Writable key w.tree := by
  refine ⟨h.ready, ?_⟩
  rw [isDir, h.file]
  rfl

theorem Written.content (h : Written fromIso m key old rows w.tree) :
    contentAt m key w = some (fileText (lineOf old) rows) := by
  rw [contentAt, h.file]
  rfl

theorem put_written (hready : Ready (m.getSessionDir key) w.tree) (hs : Sound fromIso key session)
    (hrows : ∀ data ∈ rows, IsRow data) :
    Written fromIso m key session rows (m.put key (fileText (lineOf session) rows) w).tree :=
  ⟨put_file _, hs, hrows, put_ready hready⟩

theorem writeSession_run (hs : Sound fromIso key session) (h : m.Writable key w.tree) :
    m.writeSession session w =
      (.ok (), m.put key (fileText (lineOf session) session.messages) w) := by
  unfold writeSession
  rw [hs.line, hs.key_eq]
  exact write_run h _

theorem rewriteMetadataLine_run (hs : Sound fromIso key session)
    (hw : Written fromIso m key old rows w.tree)
    (hclean : unbroken (fileText (lineOf old) rows) = true) :
    m.rewriteMetadataLine session w = (.ok (), m.put key (fileText (lineOf session) rows) w) := by
  have hline : raising (metadataLine session) w = (.ok (lineOf session), w) := by
    rw [hs.line]
    rfl
  obtain ⟨hwell, hmeta⟩ := hw.line.lineOf_spec
  unfold rewriteMetadataLine
  rw [bind_of_ok _ hline, hs.key_eq, bind_of_ok _ (read_run hw.file),
    rewritten_fileText hwell hmeta hclean]
  exact write_run hw.writable _

/-- **Appending.** The new messages come behind the rows, and the metadata line is the new one. -/
theorem appendNew_run (hs : Sound fromIso key session) (hw : Written fromIso m key old rows w.tree)
    (hclean : unbroken (fileText (lineOf old) rows ++
      (session.messages.drop session.savedCount).flatMap rowLine) = true) :
    ∃ v, m.appendNew session w = (.ok (), v) ∧ v.cache = w.cache ∧ Written fromIso m key session
      (rows ++ session.messages.drop session.savedCount) v.tree := by
  have hrows : ∀ data ∈ rows ++ session.messages.drop session.savedCount, IsRow data := by
    intro data hdata
    rcases List.mem_append.mp hdata with h | h
    · exact hw.rows data h
    · exact hs.rows data (List.mem_of_mem_drop h)
  have hput : Written fromIso m key old (rows ++ session.messages.drop session.savedCount)
      (m.put key (fileText (lineOf old) (rows ++ session.messages.drop session.savedCount))
        w).tree := put_written hw.ready hw.line hrows
  rw [fileText_append] at hclean
  refine ⟨m.put key (fileText (lineOf session) (rows ++ session.messages.drop session.savedCount))
    (m.put key (fileText (lineOf old) (rows ++ session.messages.drop session.savedCount)) w),
    ?_, rfl, put_written hput.ready hs hrows⟩
  unfold appendNew
  rw [hs.key_eq, bind_of_ok _ (read_run hw.file), fileText_append,
    bind_of_ok _ (write_run hw.writable _)]
  exact rewriteMetadataLine_run hs hput hclean

end Writers

/-! ## Saving -/

section Saving
variable {host : Host} {fromIso : Text → Option Text} {m : SessionManager} {key : Text}
  {session old : Session} {rows : List Dict} {w : World}

/-- The file holds the rows of the session, under a line with its metadata. -/
def Stands (fromIso : Text → Option Text) (m : SessionManager) (key : Text) (session : Session)
    (rows : List Dict) (t : Tree) : Prop :=
  ∃ old, Written fromIso m key old rows t ∧ old.metadata = session.metadata

/-- What a save leaves in memory. -/
structure Persisted (fromIso : Text → Option Text) (key : Text) (session kept : Session) :
    Prop where
  sound : Sound fromIso key kept
  messages : kept.messages = session.messages
  metadata : kept.metadata = session.metadata
  count : kept.savedCount = session.messages.length

theorem persisted_sound (hs : Sound fromIso key session) :
    ∃ kept, persisted session = some kept ∧ Persisted fromIso key session kept := by
  obtain ⟨fields, hfields⟩ := hs.fields
  obtain ⟨value, hvalue⟩ := getField_obj fields workspaceField
  refine ⟨{ session with
    savedCount := session.messages.length, persistedWorkspace := value }, ?_, ?_⟩
  · rw [persisted, hfields, hvalue]
    rfl
  · exact ⟨⟨hs.key_eq, hs.rows, hs.fields, hs.metadata, hs.created, hs.updated⟩, rfl, rfl, rfl⟩

theorem appends_spec (hs : Sound fromIso key session)
    (hw : Written fromIso m key old rows w.tree)
    (hcount : session.savedCount = rows.length)
    (h : appends session (fileText (lineOf old) rows) = true) :
    rows ++ session.messages.drop session.savedCount = session.messages ∧
      ((session.messages.drop session.savedCount).isEmpty = true ∨
        unbroken (fileText (lineOf old) rows ++
          (session.messages.drop session.savedCount).flatMap rowLine) = true) := by
  obtain ⟨hwell, hmeta⟩ := hw.line.lineOf_spec
  rw [appends, Bool.and_eq_true, Bool.or_eq_true, rowsOf_fileText hwell hmeta hw.rows,
    beq_iff_eq] at h
  obtain ⟨hprint, hrest⟩ := h
  have htake : ∀ data ∈ session.messages.take session.savedCount, IsRow data :=
    fun data hdata => hs.rows data (List.mem_of_mem_take hdata)
  have hrows : rows = session.messages.take session.savedCount := by
    rw [← filterMap_print hw.rows, hprint, filterMap_print htake]
  refine ⟨?_, hrest⟩
  rw [hcount] at hrows ⊢
  nth_rewrite 1 [hrows]
  exact List.take_append_drop _ _

/-- **Writing.** The file holds the messages, and its text is the old one or the one of the
session. -/
theorem persist_run (hs : Sound fromIso key session) (hw : m.Writable key w.tree)
    (rewrite : Bool) (hkeep : rewrite = false → ∃ rows, Stands fromIso m key session rows w.tree ∧
      session.savedCount = rows.length ∧
      ∀ content ∈ contentAt m key w, appends session content = true) :
    ∃ kept v text, m.persist session rewrite w = (.ok kept, v) ∧ v.cache = w.cache ∧
      Persisted fromIso key session kept ∧ Stands fromIso m key session session.messages v.tree ∧
      v.tree (m.getSessionPath key) = some (.file text) ∧
      (contentAt m key w = some text ∨ text = fileText (lineOf session) session.messages) := by
  obtain ⟨kept, hkept, hpersisted⟩ := persisted_sound hs
  have hraise : ∀ v : World, raising (persisted session) v = (.ok kept, v) := by
    intro v
    rw [hkept]
    rfl
  cases rewrite with
  | true =>
    refine ⟨kept, m.put key (fileText (lineOf session) session.messages) w, _, ?_, rfl,
      hpersisted, ⟨session, put_written hw.ready hs hs.rows, rfl⟩, put_file _, Or.inr rfl⟩
    rw [persist, if_pos rfl, bind_of_ok _ (writeSession_run hs hw)]
    exact hraise _
  | false =>
    obtain ⟨rows, ⟨old, hold, hmeta⟩, hcount, happends⟩ := hkeep rfl
    have hcontent := hold.content
    obtain ⟨hall, hnew⟩ := appends_spec hs hold hcount (happends _ hcontent)
    rw [persist, if_neg Bool.false_ne_true]
    cases hempty : (session.messages.drop session.savedCount).isEmpty with
    | true =>
      have hnil := List.isEmpty_iff.mp hempty
      rw [hnil, List.append_nil] at hall
      refine ⟨session, w, _, rfl, rfl, ⟨hs, rfl, rfl, by rw [hcount, hall]⟩,
        ⟨old, hall ▸ hold, hmeta⟩, hold.file, Or.inl hcontent⟩
    | false =>
      rcases hnew with hnew | hclean
      · rw [hnew] at hempty
        cases hempty
      · obtain ⟨v, hv, hcache, hwritten⟩ := appendNew_run hs hold hclean
        rw [hall] at hwritten
        refine ⟨kept, v, _, ?_, hcache, hpersisted, ⟨session, hwritten, rfl⟩, hwritten.file,
          Or.inr rfl⟩
        rw [if_neg Bool.false_ne_true, bind_of_ok _ hv]
        exact hraise v

theorem getOrCreate_held (hcache : w.cache key = some session) (clientId : Option Text) :
    Outcome (· = w) (m.getOrCreate host key clientId none) (fun s v => v = w ∧ s = session)
      (· = w) := by
  have hcached : Outcome (· = w) (cached key) (fun held v => v = w ∧ held = some session)
      (· = w) := by
    rintro v rfl
    exact ⟨rfl, hcache⟩
  apply hcached.bind
  intro held
  have hfind : Outcome (fun v => v = w ∧ held = some session) (m.findSession host key held)
      (fun found v => v = w ∧ found = some session) (· = w) := by
    rintro v ⟨rfl, rfl⟩
    exact ⟨rfl, rfl⟩
  apply hfind.bind
  intro found
  apply (authorize_reads _ found clientId).weaken (fun _ _ h => h) (fun _ h => h.1) |>.bind
  intro _
  apply (raising_outcome _).weaken (fun _ _ h => h) (fun _ h => h.1) |>.bind
  intro s
  have hset : Outcome (fun v => (v = w ∧ found = some session) ∧
      withWorkspace host (found.getD (newSession host key clientId)) none = some s)
      (setCache key (some s)) (fun _ v => v = w ∧ s = session) (· = w) := by
    apply outcome_update
    rintro v ⟨⟨rfl, rfl⟩, hws⟩
    obtain rfl : session = s := Option.some.inj hws
    refine ⟨?_, rfl⟩
    have hsame : (fun k => if k = key then some session else v.cache k) = v.cache := by
      funext k
      split
      case isTrue h => rw [h, hcache]
      case isFalse => rfl
    rw [hsame]
  apply hset.bind
  intro _
  exact outcome_pure fun _ h => h

theorem getOrCreate_run (hcache : w.cache key = some session) :
    m.getOrCreate host key none none w = (.ok session, w) := by
  have hcached : cached key w = (.ok (some session), w) := by
    rw [cached, hcache]
  have hsame : (fun k => if k = key then some session else w.cache k) = w.cache := by
    funext k
    split
    case isTrue h => rw [h, hcache]
    case isFalse => rfl
  rw [getOrCreate, bind_of_ok _ hcached]
  show (Except.ok session,
    { w with cache := fun k => if k = key then some session else w.cache k }) = _
  rw [hsame]

theorem compactIfNeeded_small (hcache : w.cache key = some session) {text : Text}
    (hfile : w.tree (m.getSessionPath key) = some (.file text))
    (hsmall : isSmall session.messages text = true) :
    m.compactIfNeeded host key w = (.ok false, w) := by
  have htree : getTree w = (.ok w.tree, w) := rfl
  rw [compactIfNeeded, bind_of_ok _ (getOrCreate_run hcache), bind_of_ok _ htree, hfile]
  simp only [Option.isNone_some, Bool.false_eq_true, if_false, textOf, Option.getD_some, hsmall,
    if_true]
  rfl

/-- What `save` does once the directory is there. -/
def saveReady (m : SessionManager) (host : Host) (session : Session) : Run Session := do
  let session ← raising (syncUpdatedAt host session)
  let t ← getTree
  let rewrite ← raising (shouldRewrite host session (t (m.getSessionPath session.key)))
  let session ← m.persist session rewrite
  setCache session.key (some session)
  let _ ← m.compactIfNeeded host session.key
  let kept ← cached session.key
  return kept.getD session

/-- The session is on disk and in the cache. -/
structure Synced (fromIso : Text → Option Text) (m : SessionManager) (key : Text)
    (session kept : Session) (w : World) : Prop extends Persisted fromIso key session kept where
  cached : w.cache key = some kept
  stands : Stands fromIso m key session session.messages w.tree

theorem saveReady_run (hlaw : host.Lawful) (hs : Sound host.fromIso key session)
    (hw : m.Writable key w.tree)
    (hsmall : savesSmall host session (contentAt m key w) = true)
    (hkeep : ∀ s, syncUpdatedAt host session = some s →
      shouldRewrite host s (w.tree (m.getSessionPath key)) = some false →
      ∃ rows, Stands host.fromIso m key s rows w.tree ∧ s.savedCount = rows.length ∧
        ∀ content ∈ contentAt m key w, appends s content = true) :
    Outcome (· = w) (m.saveReady host session) (Synced host.fromIso m key session) (· = w) := by
  unfold saveReady
  apply (raising_outcome (syncUpdatedAt host session)).weaken (fun _ _ h => h) (fun _ h => h) |>.bind
  intro s
  apply getTree_outcome.bind
  rintro t v ⟨⟨rfl, hsync⟩, rfl⟩
  have hs' := sync_sound hlaw hs hsync
  rw [hs'.key_eq]
  have hdecide : Outcome (· = v)
      (raising (shouldRewrite host s (v.tree (m.getSessionPath key))))
      (fun rewrite u => u = v ∧
        shouldRewrite host s (v.tree (m.getSessionPath key)) = some rewrite) (· = v) :=
    raising_outcome _
  refine (hdecide.bind fun rewrite u hu => ?_) v rfl
  obtain ⟨rfl, hrewrite⟩ := hu
  obtain ⟨kept, v, text, hrun, hcache, hkept, hstands, hfile, htext⟩ :=
    persist_run hs' hw rewrite fun h => hkeep s hsync (h ▸ hrewrite)
  obtain ⟨updatedAt, hupdated⟩ := sync_spec hsync
  rw [bind_of_ok _ hrun, hkept.sound.key_eq]
  have hset : setCache key (some kept) v =
      (.ok (), { v with cache := fun k => if k = key then some kept else v.cache k }) := rfl
  have hfits : isSmall kept.messages text = true := by
    rw [savesSmall, hsync, Bool.and_eq_true] at hsmall
    rw [hkept.messages]
    rcases htext with htext | rfl
    · have hbefore := hsmall.1
      rw [htext] at hbefore
      rw [hupdated]
      exact hbefore
    · exact hsmall.2
  have hend : Synced host.fromIso m key session kept
      { v with cache := fun k => if k = key then some kept else v.cache k } := by
    rw [hupdated] at hkept hstands
    exact ⟨⟨hkept.sound, hkept.messages, hkept.metadata, hkept.count⟩, if_pos rfl, hstands⟩
  have hcompact : m.compactIfNeeded host key
      { v with cache := fun k => if k = key then some kept else v.cache k } = (.ok false, _) :=
    compactIfNeeded_small hend.cached hfile hfits
  rw [bind_of_ok _ hset, bind_of_ok _ hcompact]
  have hlast : cached key { v with cache := fun k => if k = key then some kept else v.cache k } =
      (.ok (some kept), { v with cache := fun k => if k = key then some kept else v.cache k }) := by
    rw [cached, hend.cached]
  rw [bind_of_ok _ hlast]
  exact hend

end Saving

/-! ## The directory of a session -/

section Directory
variable {host : Host} {m : SessionManager} {key : Text} {legacy : Path} {session : Session}
  {rows : List Dict} {w : World} {P : World → Prop}

/-- What holds of the cache and of the tree. -/
def Both (C : (Text → Option Session) → Prop) (T : Tree → Prop) (w : World) : Prop :=
  C w.cache ∧ T w.tree

variable {C : (Text → Option Session) → Prop}

theorem mkdirs_unwritten :
    Outcome (Both C (m.Unwritten key legacy)) (onDisk (mkdirs (m.getSessionDir key)))
      (fun _ => Both C fun t => m.Unwritten key legacy t ∧ Ready (m.getSessionDir key) t)
      (Both C (m.Unwritten key legacy)) := by
  rintro w ⟨hcache, htree⟩
  rcases mkdirs_cases (ε := OwnershipError) (m.getSessionDir key) w.tree with ⟨fault, hrun⟩ | hrun
  · rw [onDisk_fault hrun]
    exact ⟨hcache, htree⟩
  · rw [onDisk_ok hrun]
    exact ⟨hcache, htree.mkdirs, ready_mkdirs _⟩

theorem after_mkdirs {t : Tree} (h : m.Unwritten key legacy t) :
    m.Unwritten key legacy (after (mkdirs (m.getSessionDir key) : Op OwnershipError Unit) t) := by
  unfold after
  rcases mkdirs_cases (ε := OwnershipError) (m.getSessionDir key) t with ⟨fault, hrun⟩ | hrun
  · rw [hrun]
    exact h
  · rw [hrun]
    exact h.mkdirs

theorem migrate_unwritten :
    Outcome (Both C (m.Unwritten key legacy)) (onDisk (m.migrateFlatToDir key))
      (fun _ => Both C (m.Unwritten key legacy)) (Both C (m.Unwritten key legacy)) := by
  apply onDisk_keeps
  rintro w ⟨hcache, htree⟩
  refine ⟨hcache, ?_⟩
  show m.Unwritten key legacy (after (if (w.tree (m.getFlatSessionPath key)).isSome &&
      !(w.tree (m.getSessionPath key)).isSome then do
      mkdirs (m.getSessionDir key)
      move (m.getFlatSessionPath key) (m.getSessionPath key)
    else return () : Op OwnershipError Unit) w.tree)
  rcases htree.flat with hflat | ⟨habove, hflat⟩
  · rw [hflat]
    exact htree
  · rw [hflat, htree.path]
    simp only [Option.isSome_some, Option.isSome_none, Bool.not_false, Bool.and_self, if_true]
    have hmkdirs := after_mkdirs htree
    rcases after_bind (mkdirs (m.getSessionDir key) : Op OwnershipError Unit)
      (fun _ => move (m.getFlatSessionPath key) (m.getSessionPath key)) w.tree with h | ⟨_, h⟩
    · rw [h]
      exact hmkdirs
    · obtain ⟨fault, hmove⟩ := move_inside (ε := OwnershipError)
        (habove.trans (List.prefix_append _ ["conversation.jsonl".toList]))
        (after (mkdirs (m.getSessionDir key) : Op OwnershipError Unit) w.tree)
      rw [h, after]
      have hmove' : (move (m.getFlatSessionPath key) (m.getSessionPath key) :
          Op OwnershipError Unit) (after (mkdirs (m.getSessionDir key) : Op OwnershipError Unit)
            w.tree) = .error (.inl fault) _ := hmove
      rw [hmove']
      exact hmkdirs

theorem migrateLegacy_unwritten (habove : legacyPath host key <+: m.getSessionDir key) :
    Outcome (Both C (m.Unwritten key legacy)) (m.migrateLegacy host key)
      (fun _ => Both C (m.Unwritten key legacy)) (Both C (m.Unwritten key legacy)) := by
  have hmove : Outcome (Both C (m.Unwritten key legacy))
      (onDisk (move (legacyPath host key) (m.getSessionPath key)))
      (fun _ => Both C (m.Unwritten key legacy)) (Both C (m.Unwritten key legacy)) := by
    apply onDisk_keeps
    rintro w ⟨hcache, htree⟩
    obtain ⟨fault, hrun⟩ := move_inside (ε := OwnershipError)
      (habove.trans (List.prefix_append _ ["conversation.jsonl".toList])) w.tree
    refine ⟨hcache, ?_⟩
    have hrun' : (move (legacyPath host key) (m.getSessionPath key) : Op OwnershipError Unit)
        w.tree = .error (.inl fault) w.tree := hrun
    rw [after, hrun']
    exact htree
  have hbody : Outcome (Both C (m.Unwritten key legacy)) (do
      onDisk (mkdirs (m.getSessionDir key))
      onDisk (move (legacyPath host key) (m.getSessionPath key)))
      (fun _ => Both C (m.Unwritten key legacy)) (Both C (m.Unwritten key legacy)) :=
    (mkdirs_unwritten.weaken (fun _ _ h => ⟨h.1, h.2.1⟩) fun _ h => h).bind fun _ => hmove
  exact hbody.tryCatch fun _ => outcome_pure fun _ h => h

theorem load_unwritten :
    Outcome (Both C (m.Unwritten key (legacyPath host key))) (m.load host key true)
      (fun found w => Both C (m.Unwritten key (legacyPath host key)) w ∧ found = none)
      (Both C (m.Unwritten key (legacyPath host key))) := by
  unfold load
  apply Outcome.bind (R := fun _ => Both C (m.Unwritten key (legacyPath host key)))
  · exact migrate_unwritten
  intro _
  apply getTree_outcome.bind
  rintro t w ⟨hw, rfl⟩
  have hlegacy : Outcome (· = w) (when (true && (w.tree (m.getSessionPath key)).isNone &&
      (w.tree (legacyPath host key)).isSome) (m.migrateLegacy host key))
      (fun _ => Both C (m.Unwritten key (legacyPath host key)))
      (Both C (m.Unwritten key (legacyPath host key))) := by
    rcases hw.2.legacy with hnone | ⟨habove, -⟩
    · rw [hnone, Option.isSome_none, Bool.and_false]
      exact outcome_pure fun v hv => hv ▸ hw
    · unfold when
      split
      · exact (migrateLegacy_unwritten habove).pre fun v hv => hv ▸ hw
      · exact outcome_pure fun v hv => hv ▸ hw
  refine (hlegacy.bind fun _ => ?_) w rfl
  apply getTree_outcome.bind
  rintro t v ⟨hv, rfl⟩
  refine ⟨hv, ?_⟩
  rw [hv.2.path, Option.isSome_none, if_neg Bool.false_ne_true]
  rcases hv.2.flat with hflat | ⟨-, hflat⟩
  · rw [hflat]
    rfl
  · rw [hflat]
    rfl

end Directory

end SessionManager

end MiqroForge.Sessions
