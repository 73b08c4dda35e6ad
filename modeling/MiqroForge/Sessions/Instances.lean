import MiqroForge.Sessions.Ownership
import MiqroForge.Sessions.Persistence

/-!
One session behind several managers of a process: each caches the session when it is first asked
for it and saves what it has cached.

* `last_rename_stands`: as long as a save or a truncation starts from a cached session that has
  the stored title and whose saved messages are still stored, the stored title is that of the last
  rename and no message that was removed comes back.
-/

namespace MiqroForge.Sessions

open PyText FileTree Calls SessionManager List

/-! ## Calls -/

inductive SharedCall where
  | getOrCreate
  | add (role content : Text) (kwargs : Kwargs)
  | save
  | rename (title : Text)
  | truncate (dropLastTurns : Int)
  | claim (clientId : Text)

/-- A call through one of the managers, for a client or for none. -/
structure SharedRequest where
  manager : Nat
  now : Text
  clientId : Option Text
  call : SharedCall

def SharedCall.run (m : SessionManager) (host : Host) (key : Text) (clientId : Option Text) :
    SharedCall → Run Unit
  | .getOrCreate => do
    let _ ← m.getOrCreate host key clientId none
    return ()
  | .add role content kwargs =>
    inMemory key fun s => s.addMessage host role content kwargs.fields
  | .save => saveHeld m host key
  | .rename title => do
    let _ ← m.rename host key title clientId
    return ()
  | .truncate n => do
    let _ ← m.truncate host key n clientId
    return ()
  | .claim client => do
    let _ ← m.claimSession host key client
    return ()

namespace SharedRequest

def step (m : SessionManager) (host : Host) (key : Text) (s : Process) (r : SharedRequest) :
    Option Process :=
  some (s.after r.manager (r.call.run m (host.at r.now) key r.clientId))

/-- The title a rename returns. -/
def renamed (m : SessionManager) (host : Host) (key : Text) (s : Process) (r : SharedRequest) :
    Option Text :=
  match r.call with
  | .rename title =>
    match (m.rename (host.at r.now) key title r.clientId (s.world r.manager)).1 with
    | .ok title => title
    | .error _ => none
  | _ => none

/-- The messages a call adds to the session in memory. -/
def added (host : Host) (key : Text) (r : SharedRequest) : List Dict :=
  match r.call with
  | .add role content kwargs =>
    (((newSession (host.at r.now) key none).addMessage (host.at r.now) role content
      kwargs.fields).map (·.messages)).getD []
  | _ => []

end SharedRequest

/-! ## What is stored -/

/-- The session a fresh load gives. -/
def storedSession (host : Host) (m : SessionManager) (key : Text) (t : Tree) : Option Session :=
  (textOf (t (m.getSessionPath key))).bind (readSession host key)

/-- The title on disk. -/
def storedTitle (host : Host) (m : SessionManager) (key : Text) (t : Tree) :
    Option Json.Value :=
  (storedSession host m key t).bind fun s => (getField s.metadata titleField).join

/-- The messages on disk. -/
def storedRows (m : SessionManager) (key : Text) (t : Tree) : List Dict :=
  rowsAt t (m.getSessionPath key)

/-- The messages of a cached session that were never saved. -/
def Session.unsaved (session : Session) : List Dict := session.messages.drop session.savedCount

/-- The messages that wait in the cache of a manager. -/
def Process.waiting (key : Text) (s : Process) (i : Nat) : List Dict :=
  ((s.caches i key).map Session.unsaved).getD []

/-! ## Caches that are up to date -/

/-- A cached session with the stored title whose saved messages are still stored. -/
def upToDate (host : Host) (key content : Text) (session : Session) : Bool :=
  (readSession host key content).any fun loaded =>
    ((getField loaded.metadata titleField).join.map Json.print ==
      (getField session.metadata titleField).join.map Json.print) &&
    (session.messages.take session.savedCount).all fun row =>
      (loaded.messages.map fun data => Json.print (.obj data)).contains (Json.print (.obj row))

/-- A save appends nothing, or writes the file anew, or finds no raw line break. -/
def appendsClean (session : Session) (content : Text) : Bool :=
  session.unsaved.isEmpty || decide (session.messages.length < session.savedCount) ||
    unbroken (content ++ session.unsaved.flatMap rowLine)

def SharedRequest.good (m : SessionManager) (host : Host) (key : Text) (s : Process)
    (r : SharedRequest) : Bool :=
  (contentAt m key (s.world r.manager)).all fun content =>
    match r.call with
    | .save => (s.caches r.manager key).all fun session =>
      upToDate (host.at r.now) key content session && appendsClean session content
    | .truncate n => (s.caches r.manager key).all fun session =>
      upToDate (host.at r.now) key content session &&
        appendsClean (session.truncateTurns (host.at r.now) n).2 content
    | .rename title => (strip title).isEmpty || unbroken content
    | _ => true

/-! ## What a save does to the file -/

section Effects
variable {host : Host} {m : SessionManager} {key : Text} {session old : Session}
  {rows : List Dict} {w : World}

/-- The stored rows come from the rows before and the messages of the session, the title is the one
before or the one of the session, and nothing waits. -/
structure Effect (fromIso : Text → Option Text) (m : SessionManager) (key : Text)
    (session old : Session) (rows : List Dict) (kept : Session) (t : Tree) : Prop where
  sound : Sound fromIso key kept
  messages : kept.messages = session.messages ∨ kept.messages = recentRows session.messages
  unsaved : kept.unsaved = []
  written : ∃ old' rows', Written fromIso m key old' rows' t ∧
    (old'.metadata = session.metadata ∨ old'.metadata = old.metadata) ∧
    ∀ row ∈ rows', row ∈ rows ∨ row ∈ session.messages

theorem persist_effect (hs : Sound host.fromIso key session)
    (hw : Written host.fromIso m key old rows w.tree) (rewrite : Bool)
    (hclean : rewrite = false → session.unsaved = [] ∨
      unbroken (fileText (lineOf old) rows ++ session.unsaved.flatMap rowLine) = true) :
    ∃ kept v, m.persist session rewrite w = (.ok kept, v) ∧ v.cache = w.cache ∧
      kept.metadata = session.metadata ∧ kept.messages = session.messages ∧
      Effect host.fromIso m key session old rows kept v.tree := by
  obtain ⟨kept, hkept, hpersisted⟩ := persisted_sound hs
  have hraise : ∀ v : World, raising (persisted session) v = (.ok kept, v) := by
    intro v
    rw [hkept]
    rfl
  have hnothing : kept.unsaved = [] := by
    rw [Session.unsaved, hpersisted.count, hpersisted.messages]
    exact drop_length
  cases rewrite with
  | true =>
    refine ⟨kept, m.put key (fileText (lineOf session) session.messages) w, ?_, rfl,
      hpersisted.metadata, hpersisted.messages, hpersisted.sound, Or.inl hpersisted.messages,
      hnothing, session, session.messages, put_written hw.ready hs hs.rows, Or.inl rfl,
      fun row hrow => Or.inr hrow⟩
    rw [persist, if_pos rfl, bind_of_ok _ (writeSession_run hs hw.writable)]
    exact hraise _
  | false =>
    rw [persist, if_neg Bool.false_ne_true]
    cases hempty : (session.messages.drop session.savedCount).isEmpty with
    | true =>
      have hnil : session.unsaved = [] := isEmpty_iff.mp hempty
      exact ⟨session, w, rfl, rfl, rfl, rfl, hs, Or.inl rfl, hnil, old, rows, hw, Or.inr rfl,
        fun row hrow => Or.inl hrow⟩
    | false =>
      rcases hclean rfl with hnil | hclean
      · rw [Session.unsaved] at hnil
        rw [hnil] at hempty
        cases hempty
      · obtain ⟨v, hv, hcache, hwritten⟩ := appendNew_run hs hw hclean
        refine ⟨kept, v, ?_, hcache, hpersisted.metadata, hpersisted.messages, hpersisted.sound,
          Or.inl hpersisted.messages, hnothing, session, _, hwritten, Or.inl rfl,
          fun row hrow => ?_⟩
        · rw [if_neg Bool.false_ne_true, bind_of_ok _ hv]
          exact hraise v
        · exact (mem_append.mp hrow).imp_right mem_of_mem_drop

theorem compacted_sound {fromIso : Text → Option Text} (hs : Sound fromIso key session) :
    Sound fromIso key (compacted session) ∧
      (compacted session).messages = recentRows session.messages ∧
      (compacted session).savedCount = (recentRows session.messages).length ∧
      (compacted session).metadata = session.metadata := by
  obtain ⟨hmsgs, hcount, hkey, hmeta⟩ := compacted_spec session
  refine ⟨⟨hkey.trans hs.key_eq, fun data hdata => ?_, ?_, ?_, ?_, ?_⟩, hmsgs, hcount, hmeta⟩
  · rw [hmsgs] at hdata
    exact hs.rows data (mem_of_mem_drop hdata)
  · rw [hmeta]
    exact hs.fields
  · rw [hmeta]
    exact hs.metadata
  · simp only [compacted]
    exact hs.created
  · simp only [compacted]
    exact hs.updated

theorem compactIfNeeded_effect (hlaw : host.Lawful) {kept : Session}
    (hcache : w.cache key = some kept) (hs : Sound host.fromIso key kept)
    (hw : Written host.fromIso m key old rows w.tree) :
    Outcome (· = w) (m.compactIfNeeded host key)
      (fun _ v => v = w ∨ ∃ last, v.cache = (fun k => if k = key then some last else w.cache k) ∧
        Sound host.fromIso key last ∧ last.messages = recentRows kept.messages ∧
        last.unsaved = [] ∧ last.metadata = kept.metadata ∧
        Written host.fromIso m key last (recentRows kept.messages) v.tree) (· = w) := by
  rintro v rfl
  have htree : getTree v = (.ok v.tree, v) := rfl
  rw [compactIfNeeded, bind_of_ok _ (getOrCreate_run hcache), bind_of_ok _ htree, hw.file,
    Option.isNone_some, if_neg Bool.false_ne_true]
  by_cases hsmall : isSmall kept.messages
      ((textOf (some (.file (fileText (lineOf old) rows)))).getD []) = true
  · rw [if_pos hsmall]
    exact Or.inl rfl
  · rw [if_neg hsmall, compact, bind_of_ok _ htree, hw.file, Option.isNone_some,
      if_neg Bool.false_ne_true, bind_of_ok _ (getOrCreate_run hcache)]
    have hsync := raising_outcome (P := (· = v)) (syncUpdatedAt host (compacted kept))
    refine (hsync.bind fun last => ?_) v rfl
    rintro u ⟨rfl, hlast⟩
    obtain ⟨hcompacted, hmsgs, hcount, hmeta⟩ := compacted_sound hs
    have hsound := sync_sound hlaw hcompacted hlast
    obtain ⟨updatedAt, rfl⟩ := sync_spec hlast
    rw [bind_of_ok _ (writeSession_run hsound hw.writable)]
    refine Or.inr ⟨_, rfl, hsound, hmsgs, ?_, hmeta, ?_⟩
    · rw [Session.unsaved]
      show (compacted kept).messages.drop (compacted kept).savedCount = []
      rw [hmsgs, hcount, drop_length]
    · rw [← hmsgs]
      exact put_written hw.ready hsound hsound.rows

/-- The world behind a save of the session: the cache holds what was saved. -/
def Left (fromIso : Text → Option Text) (m : SessionManager) (key : Text) (session old : Session)
    (rows : List Dict) (w v : World) : Prop :=
  ∃ kept, v.cache = (fun k => if k = key then some kept else w.cache k) ∧
    Effect fromIso m key session old rows kept v.tree

theorem keep_effect (hlaw : host.Lawful) {kept : Session} {v : World} (hcache : v.cache = w.cache)
    (hmeta : kept.metadata = session.metadata) (hmsgs : kept.messages = session.messages)
    (heffect : Effect host.fromIso m key session old rows kept v.tree) :
    Outcome (· = v) (do
      setCache key (some kept)
      let _ ← m.compactIfNeeded host key
      let last ← cached key
      return last.getD kept)
      (fun _ => Left host.fromIso m key session old rows w)
      (fun u => u = w ∨ Left host.fromIso m key session old rows w u) := by
  obtain ⟨old', rows', hwritten, htitle, hrows⟩ := heffect.written
  have hset : Outcome (· = v) (setCache key (some kept))
      (fun _ u => u = { v with cache := fun k => if k = key then some kept else v.cache k })
      (fun u => u = w ∨ Left host.fromIso m key session old rows w u) :=
    outcome_update fun _ hu => by rw [hu]
  have hleft : Left host.fromIso m key session old rows w
      { v with cache := fun k => if k = key then some kept else v.cache k } :=
    ⟨kept, by rw [hcache], heffect⟩
  have hcompact : Outcome
      (· = { v with cache := fun k => if k = key then some kept else v.cache k })
      (m.compactIfNeeded host key) (fun _ => Left host.fromIso m key session old rows w)
      (fun u => u = w ∨ Left host.fromIso m key session old rows w u) := by
    have hthere : ({ v with cache := fun k => if k = key then some kept else v.cache k } :
        World).cache key = some kept := if_pos rfl
    refine (compactIfNeeded_effect hlaw hthere heffect.sound hwritten).weaken
      (fun _ u hu => ?_) fun u hu => Or.inr (hu ▸ hleft)
    rcases hu with rfl | ⟨last, hlast, hsound, hrecent, hnothing, hlastMeta, hwritten'⟩
    · exact hleft
    · refine ⟨last, ?_, hsound, Or.inr (by rw [hrecent, hmsgs]), hnothing, last, _, hwritten',
        Or.inl (hlastMeta.trans hmeta), fun row hrow => Or.inr ?_⟩
      · rw [hlast]
        funext k
        by_cases hk : k = key
        · rw [if_pos hk, if_pos hk]
        · rw [if_neg hk, if_neg hk]
          show (if k = key then some kept else v.cache k) = _
          rw [if_neg hk, hcache]
      · rw [← hmsgs]
        exact mem_of_mem_drop hrow
  refine hset.bind fun _ => hcompact.bind fun _ => ?_
  have hlast : Outcome (Left host.fromIso m key session old rows w) (cached key)
      (fun _ => Left host.fromIso m key session old rows w)
      (fun u => u = w ∨ Left host.fromIso m key session old rows w u) := fun _ hu => hu
  exact hlast.bind fun _ => outcome_pure fun _ hu => hu

/-- **A save.** -/
theorem save_effect (hlaw : host.Lawful) (hs : Sound host.fromIso key session)
    (hw : Written host.fromIso m key old rows w.tree)
    (hclean : appendsClean session (fileText (lineOf old) rows) = true) :
    Outcome (· = w) (m.save host session)
      (fun _ => Left host.fromIso m key session old rows w)
      (fun v => v = w ∨ Left host.fromIso m key session old rows w v) := by
  rintro v rfl
  rw [save_eq, hs.key_eq, bind_of_ok _ hw.migrate_run, bind_of_ok _ hw.mkdirs_run]
  unfold saveReady
  have hraise := (raising_outcome (P := (· = v)) (syncUpdatedAt host session)).weaken
    (fun _ _ h => h) fun u hu =>
      (Or.inl hu : u = v ∨ Left host.fromIso m key session old rows v u)
  refine (hraise.bind fun s => ?_) v rfl
  apply getTree_outcome.bind
  rintro t u ⟨⟨rfl, hsync⟩, rfl⟩
  have hs' := sync_sound hlaw hs hsync
  rw [hs'.key_eq]
  obtain ⟨updatedAt, rfl⟩ := sync_spec hsync
  have hdecide := (raising_outcome (P := (· = u)) (shouldRewrite host { session with updatedAt }
    (u.tree (m.getSessionPath key)))).weaken (fun _ _ h => h) fun x hx =>
      (Or.inl hx : x = u ∨ Left host.fromIso m key session old rows u x)
  refine (hdecide.bind fun rewrite => ?_) u rfl
  rintro x ⟨rfl, hrewrite⟩
  have happend : rewrite = false → session.unsaved = [] ∨
      unbroken (fileText (lineOf old) rows ++ session.unsaved.flatMap rowLine) = true := by
    rintro rfl
    rw [appendsClean, Bool.or_eq_true, Bool.or_eq_true, List.isEmpty_iff,
      decide_eq_true_eq] at hclean
    rcases hclean with (hnil | hshort) | hclean
    · exact Or.inl hnil
    · rw [hw.file, shouldRewrite] at hrewrite
      simp only [Option.isNone_some, Bool.false_or, decide_eq_true_eq, hshort, if_true] at hrewrite
      cases hrewrite
    · exact Or.inr hclean
  obtain ⟨kept, v, hrun, hcache, hmeta, hmsgs, heffect⟩ := persist_effect hs' hw rewrite happend
  rw [bind_of_ok _ hrun, heffect.sound.key_eq]
  have hkept : Effect host.fromIso m key session old rows kept v.tree :=
    ⟨heffect.sound, heffect.messages, heffect.unsaved, heffect.written⟩
  have hsame : kept.metadata = session.metadata ∧ kept.messages = session.messages :=
    ⟨hmeta, hmsgs⟩
  exact keep_effect hlaw hcache hsame.1 hsame.2 hkept v rfl

end Effects

/-! ## What a manager and the disk hold -/

def titleOf (session : Session) : Option Json.Value := (getField session.metadata titleField).join

/-- The rows on disk, and the ones that wait in a cached session, satisfy `A`; the title on disk is
`title`. -/
structure Holding (fromIso : Text → Option Text) (m : SessionManager) (key : Text) (A : Dict → Prop)
    (title : Option Json.Value) (w : World) : Prop where
  disk : ∃ old rows, Written fromIso m key old rows w.tree ∧ titleOf old = title ∧
    ∀ row ∈ rows, A row
  cache : ∀ session, w.cache key = some session →
    Sound fromIso key session ∧ ∀ row ∈ session.unsaved, A row

def World.caching (key : Text) (session : Session) (w : World) : World :=
  { w with cache := fun k => if k = key then some session else w.cache k }

section Holding
variable {host : Host} {m : SessionManager} {key : Text} {A : Dict → Prop}
  {title : Option Json.Value} {session old : Session} {rows : List Dict} {w v : World}

theorem caching_self (key : Text) (session : Session) (w : World) :
    (w.caching key session).cache key = some session := if_pos rfl

theorem Holding.caching (h : Holding host.fromIso m key A title w) (hs : Sound host.fromIso key session)
    (hA : ∀ row ∈ session.unsaved, A row) :
    Holding host.fromIso m key A title (w.caching key session) := by
  refine ⟨h.disk, fun s hcache => ?_⟩
  rw [caching_self] at hcache
  cases hcache
  exact ⟨hs, hA⟩

/-- A session that may be saved: its title is the stored one, and its messages are in `A`. -/
structure Current (fromIso : Text → Option Text) (key : Text) (A : Dict → Prop) (title : Option Json.Value)
    (session : Session) : Prop where
  sound : Sound fromIso key session
  title : titleOf session = title
  messages : ∀ row ∈ session.messages, A row

theorem left_holding (hc : Current host.fromIso key A title session) (hold : titleOf old = title)
    (hrows : ∀ row ∈ rows, A row) (h : Left host.fromIso m key session old rows w v) :
    Holding host.fromIso m key A title v := by
  obtain ⟨kept, hcache, heffect⟩ := h
  obtain ⟨old', rows', hwritten, hmeta, hsub⟩ := heffect.written
  refine ⟨⟨old', rows', hwritten, ?_, fun row hrow => ?_⟩, fun s hs => ?_⟩
  · rcases hmeta with hmeta | hmeta
    · rw [titleOf, hmeta]
      exact hc.title
    · rw [titleOf, hmeta]
      exact hold
  · exact (hsub row hrow).elim (hrows row) (hc.messages row)
  · have hthere : v.cache key = some kept := by
      rw [hcache]
      exact if_pos rfl
    obtain rfl := Option.some.inj (hthere.symm.trans hs)
    refine ⟨heffect.sound, fun row hrow => ?_⟩
    rw [heffect.unsaved] at hrow
    cases hrow

theorem title_wellFormed {fromIso : Text → Option Text} (hs : Sound fromIso key session) :
    ∀ v ∈ titleOf session, Json.WellFormed v := by
  intro v hv
  obtain ⟨fields, hfields⟩ := hs.fields
  obtain ⟨value, hvalue⟩ := getField_obj fields titleField
  rw [← hfields] at hvalue
  rw [titleOf, hvalue] at hv
  have hv' : value = some v := hv
  rw [hv'] at hvalue
  exact getField_wellFormed hs.metadata hvalue

theorem print_option_inj {a b : Option Json.Value} (ha : ∀ v ∈ a, Json.WellFormed v)
    (hb : ∀ v ∈ b, Json.WellFormed v) (h : a.map Json.print = b.map Json.print) : a = b := by
  cases a with
  | none => exact (Option.map_eq_none_iff.mp h.symm).symm
  | some x =>
    obtain ⟨y, hy, hprint⟩ := Option.map_eq_some_iff.mp h.symm
    subst hy
    have hparse := Json.parse_print x (ha x rfl)
    rw [← hprint, Json.parse_print y (hb y rfl)] at hparse
    exact hparse.symm

theorem current_of_upToDate (hlaw : host.Lawful) (hnow : IsDate host.fromIso host.now)
    (hs : Sound host.fromIso key session) (hA : ∀ row ∈ session.unsaved, A row)
    (hw : Written host.fromIso m key old rows w.tree) (hrows : ∀ row ∈ rows, A row)
    (h : upToDate host key (fileText (lineOf old) rows) session = true) :
    Current host.fromIso key A (titleOf old) session := by
  obtain ⟨loaded, hread, hmsgs, -, hmeta, hloaded⟩ :=
    readSession_fileText hlaw hnow hw.line hw.rows
  rw [upToDate, hread, Option.any_some, Bool.and_eq_true, beq_iff_eq, all_eq_true] at h
  obtain ⟨htitle, hall⟩ := h
  have htitle' : titleOf loaded = titleOf session :=
    print_option_inj (title_wellFormed hloaded) (title_wellFormed hs) htitle
  refine ⟨hs, ?_, fun row hrow => ?_⟩
  · rw [← htitle', titleOf, hmeta, titleOf]
  · rw [← take_append_drop session.savedCount session.messages] at hrow
    rcases mem_append.mp hrow with hrow | hrow
    · have hprint := contains_iff_mem.mp (hall row hrow)
      obtain ⟨data, hdata, heq⟩ := mem_map.mp hprint
      have hrowIs := row_print (hs.rows row (mem_of_mem_take hrow))
      rw [← heq, row_print (hloaded.rows data hdata)] at hrowIs
      rw [← Option.some.inj hrowIs]
      exact hrows data (hmsgs ▸ hdata)
    · exact hA row hrow

theorem getOrCreate_opens (hlaw : host.Lawful) (hnow : IsDate host.fromIso host.now)
    (h : Holding host.fromIso m key A title w) (clientId : Option Text) :
    ∃ opened, Outcome (· = w) (m.getOrCreate host key clientId none)
        (fun s v => s = opened ∧ v = w.caching key opened) (· = w) ∧
      Sound host.fromIso key opened ∧ (∀ row ∈ opened.unsaved, A row) ∧
      (w.cache key = some opened ∨
        w.cache key = none ∧ opened.unsaved = [] ∧ opened.savedCount = opened.messages.length ∧
          Current host.fromIso key A title opened) := by
  cases hcache : w.cache key with
  | some session =>
    obtain ⟨hs, hA⟩ := h.cache session hcache
    refine ⟨session, ?_, hs, hA, Or.inl rfl⟩
    refine (getOrCreate_held hcache clientId).weaken (fun s v hv => ⟨hv.2, ?_⟩) fun _ hv => hv
    have hsame : (fun k => if k = key then some session else w.cache k) = w.cache := by
      funext k
      by_cases hk : k = key
      · rw [if_pos hk, hk, hcache]
      · rw [if_neg hk]
    rw [hv.1, World.caching, hsame]
  | none =>
    obtain ⟨old, rows, hw, htitle, hrows⟩ := h.disk
    obtain ⟨loaded, hread, hmsgs, hcount, hmeta, hloaded⟩ :=
      readSession_fileText hlaw hnow hw.line hw.rows
    have hnothing : loaded.unsaved = [] := by
      rw [Session.unsaved, hcount, hmsgs]
      exact drop_length
    refine ⟨loaded, ?_, hloaded, ?_, Or.inr ⟨rfl, hnothing, by rw [hcount, hmsgs], hloaded, ?_, ?_⟩⟩
    · rintro v rfl
      have hcached : cached key v = (.ok none, v) := by
        rw [cached, hcache]
      have hfind : m.findSession host key none v = (.ok (some loaded), v) := by
        have hfile : m.HasFile key (fileText (lineOf old) rows) v := hw.file
        rw [← hread]
        exact load_there hfile
      unfold getOrCreate
      rw [bind_of_ok _ hcached, bind_of_ok _ hfind]
      refine ((authorize_reads _ (some loaded) clientId).bind fun _ => ?_) v rfl
      rintro u rfl
      exact ⟨rfl, rfl⟩
    · intro row hrow
      rw [hnothing] at hrow
      cases hrow
    · rw [titleOf, hmeta]
      exact htitle
    · rw [hmsgs]
      exact hrows

/-! ## The calls -/

theorem rename_holding (hlaw : host.Lawful) (hnow : IsDate host.fromIso host.now)
    (h : Holding host.fromIso m key A title w) (newTitle : Text) (clientId : Option Text)
    (hgood : strip newTitle = [] ∨ ∀ content ∈ contentAt m key w, unbroken content = true) :
    Outcome (· = w) (m.rename host key newTitle clientId)
      (fun r v => Holding host.fromIso m key A ((r.map Json.Value.str).or title) v)
      (Holding host.fromIso m key A title) := by
  have hsame : ∀ v, v = w → Holding host.fromIso m key A title v := fun v hv => hv ▸ h
  obtain ⟨opened, hopen, hs, hA, -⟩ := getOrCreate_opens hlaw hnow h clientId
  obtain ⟨old, rows, hw, htitle, hrows⟩ := h.disk
  rw [rename_eq]
  apply ((verify_reads clientId).weaken (fun _ _ hv => hv.1) hsame).bind
  intro _
  apply (hopen.weaken (fun _ _ hv => hv) hsame).bind
  intro s
  split
  case isTrue =>
    refine outcome_pure fun v hv => ?_
    rw [hv.2]
    exact h.caching hs hA
  case isFalse hne =>
    have hset : Outcome (fun v => s = opened ∧ v = w.caching key opened)
        (raising (setItem s.metadata titleField (.str ((strip newTitle).take titleLength))))
        (fun metadata v => v = w.caching key opened ∧ s = opened ∧
          setItem opened.metadata titleField (.str ((strip newTitle).take titleLength)) =
            some metadata) (Holding host.fromIso m key A title) := by
      refine (raising_outcome _).weaken (fun metadata v hv => ?_) fun v hv => ?_
      · obtain ⟨⟨rfl, rfl⟩, hmeta⟩ := hv
        exact ⟨rfl, rfl, hmeta⟩
      · rw [hv.2]
        exact h.caching hs hA
    apply hset.bind
    rintro metadata v ⟨rfl, rfl, hmeta⟩
    have hstr : Json.WellFormed (.str ((strip newTitle).take titleLength)) := trivial
    have hnew := hs.withField hstr hmeta
    have hw' : Written host.fromIso m key old rows (w.caching key s).tree := hw
    rw [renameReady_run _ hnew hw' (hgood.resolve_left hne _ hw.content)]
    refine ⟨⟨_, rows, put_written hw.ready hnew hw.rows, ?_, hrows⟩, fun t ht => ?_⟩
    · rw [titleOf, getField_setItem Json.Value.noConfusion hmeta]
      rfl
    · have hthere : some { s with metadata } = some t := (if_pos rfl).symm.trans ht
      cases hthere
      exact ⟨hnew, hA⟩

theorem save_holding (hlaw : host.Lawful) (h : Holding host.fromIso m key A title w)
    (hc : Current host.fromIso key A title session)
    (hclean : ∀ content ∈ contentAt m key w, appendsClean session content = true) :
    Outcome (· = w) (m.save host session) (fun _ => Holding host.fromIso m key A title)
      (Holding host.fromIso m key A title) := by
  obtain ⟨old, rows, hw, htitle, hrows⟩ := h.disk
  refine (save_effect hlaw hc.sound hw (hclean _ hw.content)).weaken
    (fun _ _ hv => left_holding hc htitle hrows hv) fun v hv => ?_
  rcases hv with rfl | hv
  · exact h
  · exact left_holding hc htitle hrows hv

theorem current_of_good (hlaw : host.Lawful) (hnow : IsDate host.fromIso host.now)
    (h : Holding host.fromIso m key A title w) (hcache : w.cache key = some session)
    (hgood : ∀ content ∈ contentAt m key w, upToDate host key content session = true) :
    Current host.fromIso key A title session := by
  obtain ⟨old, rows, hw, htitle, hrows⟩ := h.disk
  obtain ⟨hs, hA⟩ := h.cache session hcache
  rw [← htitle]
  exact current_of_upToDate hlaw hnow hs hA hw hrows (hgood _ hw.content)

theorem saveHeld_holding (hlaw : host.Lawful) (hnow : IsDate host.fromIso host.now)
    (h : Holding host.fromIso m key A title w)
    (hgood : ∀ content ∈ contentAt m key w, ∀ session ∈ w.cache key,
      upToDate host key content session = true ∧ appendsClean session content = true) :
    Outcome (· = w) (saveHeld m host key) (fun _ => Holding host.fromIso m key A title)
      (Holding host.fromIso m key A title) := by
  have hcached : Outcome (· = w) (cached key) (fun held v => v = w ∧ held = w.cache key)
      (Holding host.fromIso m key A title) := by
    rintro v rfl
    exact ⟨rfl, rfl⟩
  apply hcached.bind
  intro held
  cases held with
  | none => exact outcome_pure fun v hv => hv.1 ▸ h
  | some session =>
    rintro v ⟨rfl, hcache⟩
    have hc := current_of_good hlaw hnow h hcache.symm fun content hmem =>
      (hgood content hmem session hcache.symm).1
    have hsave := save_holding hlaw h hc fun content hmem =>
      (hgood content hmem session hcache.symm).2
    have hrun : Outcome (· = v) (do
        let _ ← m.save host session
        return () : Run Unit) (fun _ => Holding host.fromIso m key A title)
        (Holding host.fromIso m key A title) := hsave.bind fun _ => outcome_pure fun _ hu => hu
    exact hrun v rfl

variable (host session) in
theorem truncateTurns_messages (n : Int) :
    (session.truncateTurns host n).2.messages <+: session.messages ∧
      (session.truncateTurns host n).2.savedCount = session.savedCount ∧
      (session.truncateTurns host n).2.metadata = session.metadata := by
  unfold Session.truncateTurns
  split
  · exact ⟨prefix_rfl, rfl, rfl⟩
  · exact ⟨List.take_prefix _ _, rfl, rfl⟩

theorem Current.truncated (hnow : IsDate host.fromIso host.now)
    (hc : Current host.fromIso key A title session) (n : Int) :
    Current host.fromIso key A title (session.truncateTurns host n).2 := by
  obtain ⟨hfront, -, hmeta⟩ := truncateTurns_messages host session n
  refine ⟨(truncateTurns_unsaved hnow n hc.sound).sound, ?_, fun row hrow => ?_⟩
  · rw [titleOf, hmeta]
    exact hc.title
  · exact hc.messages row (hfront.subset hrow)

theorem truncate_holding (hlaw : host.Lawful) (hnow : IsDate host.fromIso host.now)
    (h : Holding host.fromIso m key A title w) (n : Int) (clientId : Option Text)
    (hgood : ∀ content ∈ contentAt m key w, ∀ session ∈ w.cache key,
      upToDate host key content session = true ∧
        appendsClean (session.truncateTurns host n).2 content = true) :
    Outcome (· = w) (m.truncate host key n clientId) (fun _ => Holding host.fromIso m key A title)
      (Holding host.fromIso m key A title) := by
  have hsame : ∀ v, v = w → Holding host.fromIso m key A title v := fun v hv => hv ▸ h
  obtain ⟨opened, hopen, -, -, hfrom⟩ := getOrCreate_opens hlaw hnow h clientId
  obtain ⟨hfront, hcount, -⟩ := truncateTurns_messages host opened n
  have hready : Current host.fromIso key A title opened ∧ ∀ content ∈ contentAt m key w,
      appendsClean (opened.truncateTurns host n).2 content = true := by
    rcases hfrom with hcache | ⟨-, -, hall, hc⟩
    · exact ⟨current_of_good hlaw hnow h hcache fun content hmem =>
        (hgood content hmem opened hcache).1, fun content hmem =>
        (hgood content hmem opened hcache).2⟩
    · refine ⟨hc, fun content _ => ?_⟩
      have hnothing : (opened.truncateTurns host n).2.unsaved = [] := by
        rw [Session.unsaved, hcount, hall]
        exact drop_eq_nil_of_le hfront.length_le
      rw [appendsClean, hnothing]
      rfl
  obtain ⟨hc, hclean⟩ := hready
  have hc' := hc.truncated hnow n
  have hheld : Holding host.fromIso m key A title (w.caching key (opened.truncateTurns host n).2) :=
    h.caching hc'.sound fun row hrow => hc'.messages row (mem_of_mem_drop hrow)
  unfold truncate
  apply ((verify_reads clientId).weaken (fun _ _ hv => hv.1) hsame).bind
  intro _
  apply (hopen.weaken (fun _ _ hv => hv) hsame).bind
  rintro s v ⟨rfl, rfl⟩
  have hset : setCache key (some (s.truncateTurns host n).2) (w.caching key s) =
      (.ok (), w.caching key (s.truncateTurns host n).2) := by
    refine Prod.ext rfl ?_
    show ({ w with cache := fun k => if k = key then _ else if k = key then _ else _ } : World) = _
    rw [World.caching]
    congr 1
    funext k
    by_cases hk : k = key
    · rw [if_pos hk, if_pos hk]
    · rw [if_neg hk, if_neg hk, if_neg hk]
  rw [bind_of_ok _ hset]
  by_cases hzero : (s.truncateTurns host n).1 = 0
  · rw [if_pos hzero]
    exact hheld
  · rw [if_neg hzero]
    have hsave := save_holding hlaw hheld hc' hclean
    have hrun : Outcome (· = w.caching key (s.truncateTurns host n).2) (do
        let _ ← m.save host (s.truncateTurns host n).2
        return (s.truncateTurns host n).1 : Run Nat) (fun _ => Holding host.fromIso m key A title)
        (Holding host.fromIso m key A title) := hsave.bind fun _ => outcome_pure fun _ hu => hu
    exact hrun _ rfl

theorem claim_holding (hlaw : host.Lawful) (hnow : IsDate host.fromIso host.now)
    (h : Holding host.fromIso m key A title w) (clientId : Text) :
    Outcome (· = w) (m.claimSession host key clientId) (fun _ => Holding host.fromIso m key A title)
      (Holding host.fromIso m key A title) := by
  have hsame : ∀ v, v = w → Holding host.fromIso m key A title v := fun v hv => hv ▸ h
  obtain ⟨old, rows, hw, htitle, hrows⟩ := h.disk
  obtain ⟨loaded, hread, hmsgs, hcount, hmeta, hloaded⟩ :=
    readSession_fileText hlaw hnow hw.line hw.rows
  rw [claim_eq]
  apply (readOwner_reads.weaken (fun _ _ hv => hv.1) hsame).bind
  intro owner
  cases owner with
  | some owner =>
    simp only
    split
    · exact outcome_pure hsame
    · exact outcome_throw hsame
  | none =>
    have hload : Outcome (· = w) (m.load host key true)
        (fun found v => v = w ∧ found = some loaded) (Holding host.fromIso m key A title) := by
      rintro v rfl
      rw [load_there (show m.HasFile key (fileText (lineOf old) rows) v from hw.file), hread]
      exact ⟨rfl, rfl⟩
    apply hload.bind
    intro found
    cases found with
    | none =>
      rintro v ⟨-, hv⟩
      cases hv
    | some session =>
      have hset : Outcome (fun v => v = w ∧ some session = some loaded)
          (raising (setItem session.metadata ownerField (.str clientId)))
          (fun metadata v => v = w ∧ session = loaded ∧
            setItem loaded.metadata ownerField (.str clientId) = some metadata)
          (Holding host.fromIso m key A title) := by
        refine (raising_outcome _).weaken (fun metadata v hv => ?_) fun v hv => hsame v hv.1
        obtain ⟨⟨rfl, heq⟩, hset⟩ := hv
        cases heq
        exact ⟨rfl, rfl, hset⟩
      apply hset.bind
      rintro metadata v ⟨rfl, rfl, hset⟩
      have hstr : Json.WellFormed (.str clientId) := trivial
      have hne : titleField ≠ ownerField := by decide
      have hnothing : ({ session with metadata } : Session).unsaved = [] := by
        show session.messages.drop session.savedCount = []
        rw [hcount, hmsgs, drop_length]
      have hc : Current host.fromIso key A title { session with metadata } := by
        refine ⟨hloaded.withField hstr hset, ?_, ?_⟩
        · rw [titleOf, getField_setItem_of_ne hne hset, hmeta]
          exact htitle
        · show ∀ row ∈ session.messages, A row
          rw [hmsgs]
          exact hrows
      have hsave := save_holding hlaw h hc fun content _ => by
        rw [appendsClean, hnothing]
        rfl
      have hrun : Outcome (· = v) (do
          let _ ← m.save host { session with metadata }
          return true : Run Bool) (fun _ => Holding host.fromIso m key A title)
          (Holding host.fromIso m key A title) := hsave.bind fun _ => outcome_pure fun _ hu => hu
      exact hrun v rfl

theorem add_holding (hlaw : host.Lawful) (hnow : IsDate host.fromIso host.now)
    (h : Holding host.fromIso m key A title w) (role content : Text) (kwargs : Kwargs)
    (hadded : ∀ s s' : Session, s.addMessage host role content kwargs.fields = some s' →
      ∃ row, s'.messages = s.messages ++ [row] ∧ A row) :
    Outcome (· = w) (inMemory key fun s => s.addMessage host role content kwargs.fields)
      (fun _ => Holding host.fromIso m key A title) (Holding host.fromIso m key A title) := by
  have hcached : Outcome (· = w) (cached key) (fun held v => v = w ∧ held = w.cache key)
      (Holding host.fromIso m key A title) := by
    rintro v rfl
    exact ⟨rfl, rfl⟩
  apply hcached.bind
  intro held
  cases held with
  | none => exact outcome_pure fun v hv => hv.1 ▸ h
  | some session =>
    have hraise : Outcome (fun v => v = w ∧ some session = w.cache key)
        (raising (session.addMessage host role content kwargs.fields))
        (fun s' v => v = w ∧ w.cache key = some session ∧
          session.addMessage host role content kwargs.fields = some s')
        (Holding host.fromIso m key A title) := by
      refine (raising_outcome _).weaken (fun s' v hv => ?_) fun v hv => hv.1 ▸ h
      exact ⟨hv.1.1, hv.1.2.symm, hv.2⟩
    apply hraise.bind
    rintro s' v ⟨rfl, hcache, hs'⟩
    obtain ⟨hs, hA⟩ := h.cache session hcache
    have hnew := addMessage_unsaved hlaw hnow hs hs'
    obtain ⟨row, hmsgs, hrow⟩ := hadded session s' hs'
    have hheld : Holding host.fromIso m key A title (v.caching key s') := by
      refine h.caching hnew.sound fun data hdata => ?_
      rw [Session.unsaved, hnew.count, hmsgs, drop_append] at hdata
      rcases mem_append.mp hdata with hdata | hdata
      · exact hA data hdata
      · rw [mem_singleton.mp (mem_of_mem_drop hdata)]
        exact hrow
    exact hheld

end Holding

/-! ## Runs -/

section Runs
variable {host : Host} {m : SessionManager} {key : Text} {A : Dict → Prop}
  {title : Option Json.Value} {s t : Process} {r : SharedRequest}

/-- **The invariant**: every manager, with the disk they share. -/
def Shared (fromIso : Text → Option Text) (m : SessionManager) (key : Text) (A : Dict → Prop)
    (title : Option Json.Value) (s : Process) : Prop :=
  ∀ i, Holding fromIso m key A title (s.world i)

theorem Shared.after {α : Type} {title' : Option Json.Value} {i : Nat} {p : Run α}
    (h : Shared host.fromIso m key A title s)
    (hp : Holding host.fromIso m key A title' (p (s.world i)).2) :
    Shared host.fromIso m key A title' (s.after i p) := by
  intro j
  refine ⟨hp.disk, fun session hcache => ?_⟩
  by_cases hj : j = i
  · refine hp.cache session (Eq.trans ?_ hcache)
    exact (congrFun (if_pos hj) key).symm
  · refine (h j).cache session (Eq.trans ?_ hcache)
    exact (congrFun (if_neg hj) key).symm

theorem addMessage_row {role content : Text} {kwargs : Dict} {session session' : Session}
    (h : session.addMessage host role content kwargs = some session') (other : Session) :
    ∃ row other', other.addMessage host role content kwargs = some other' ∧
      session'.messages = session.messages ++ [row] ∧ other'.messages = other.messages ++ [row] := by
  unfold Session.addMessage at h ⊢
  simp only at h ⊢
  split at h
  case h_1 => exact ⟨_, _, rfl, Option.some.inj h ▸ rfl, rfl⟩
  case h_2 ts hts =>
    obtain ⟨parsed, hparsed, rfl⟩ := Option.map_eq_some_iff.mp h
    rw [hparsed]
    cases parsed with
    | none => exact ⟨_, _, rfl, rfl, rfl⟩
    | some date => exact ⟨_, _, rfl, rfl, rfl⟩

theorem added_row {role content : Text} {kwargs : Kwargs} {session session' : Session}
    (hcall : r.call = .add role content kwargs)
    (h : session.addMessage (host.at r.now) role content kwargs.fields = some session') :
    ∃ row, session'.messages = session.messages ++ [row] ∧ row ∈ r.added host key := by
  obtain ⟨row, other, hother, hmsgs, hrow⟩ :=
    addMessage_row h (newSession (host.at r.now) key none)
  refine ⟨row, hmsgs, ?_⟩
  rw [SharedRequest.added, hcall]
  show row ∈ ((Session.addMessage _ _ _ _ _).map _).getD []
  rw [hother, Option.map_some, Option.getD_some, hrow]
  exact mem_append_right _ (mem_singleton_self row)

theorem call_holding (hlaw : host.Lawful) (hnow : IsDate host.fromIso r.now)
    (hgood : r.good m host key s = true) (hadded : ∀ row ∈ r.added host key, A row)
    (hrename : ∀ title, r.call ≠ .rename title)
    (h : Holding host.fromIso m key A title (s.world r.manager)) :
    Outcome (· = s.world r.manager) (r.call.run m (host.at r.now) key r.clientId)
      (fun _ => Holding host.fromIso m key A title) (Holding host.fromIso m key A title) := by
  have hlaw' := hlaw.at r.now
  have hheld : Holding (host.at r.now).fromIso m key A title (s.world r.manager) := h
  rw [SharedRequest.good, Option.all_eq_true] at hgood
  cases hcall : r.call with
  | getOrCreate =>
    obtain ⟨opened, hopen, hs, hA, -⟩ := getOrCreate_opens hlaw' hnow hheld r.clientId
    refine Outcome.ignore (hopen.weaken (fun _ v hv => ?_) fun v hv => ?_) ()
    · rw [hv.2]
      exact hheld.caching hs hA
    · exact hv ▸ hheld
  | add role content kwargs =>
    refine add_holding hlaw' hnow hheld role content kwargs fun session s' hs' => ?_
    obtain ⟨row, hmsgs, hrow⟩ := added_row hcall hs'
    exact ⟨row, hmsgs, hadded row hrow⟩
  | save =>
    refine saveHeld_holding hlaw' hnow hheld fun content hcontent session hcache => ?_
    have hall := hgood content hcontent
    rw [hcall] at hall
    exact Bool.and_eq_true_iff.mp ((Option.all_eq_true _ _).mp hall session hcache)
  | rename title => exact absurd hcall (hrename title)
  | truncate n =>
    refine Outcome.ignore (truncate_holding hlaw' hnow hheld n r.clientId
      fun content hcontent session hcache => ?_) ()
    have hall := hgood content hcontent
    rw [hcall] at hall
    exact Bool.and_eq_true_iff.mp ((Option.all_eq_true _ _).mp hall session hcache)
  | claim clientId => exact Outcome.ignore (claim_holding hlaw' hnow hheld clientId) ()

/-- **Step.** A good call keeps the title unless it is a rename, and brings no message back. -/
theorem step_shared (hlaw : host.Lawful) (hnow : IsDate host.fromIso r.now)
    (hgood : r.good m host key s = true) (hadded : ∀ row ∈ r.added host key, A row)
    (h : Shared host.fromIso m key A title s) (hstep : r.step m host key s = some t) :
    Shared host.fromIso m key A (((r.renamed m host key s).map Json.Value.str).or title) t := by
  cases hstep
  apply h.after
  by_cases hcall : ∃ title', r.call = .rename title'
  · obtain ⟨title', hcall⟩ := hcall
    have hclean : strip title' = [] ∨
        ∀ content ∈ contentAt m key (s.world r.manager), unbroken content = true := by
      rw [SharedRequest.good, Option.all_eq_true] at hgood
      by_cases hempty : strip title' = []
      · exact Or.inl hempty
      · refine Or.inr fun content hcontent => ?_
        have hall := hgood content hcontent
        rw [hcall] at hall
        exact (Bool.or_eq_true_iff.mp hall).resolve_left fun h => hempty (isEmpty_iff.mp h)
    have hrename := rename_holding (hlaw.at r.now) hnow (h r.manager)
      title' r.clientId hclean _ rfl
    rw [SharedRequest.renamed, hcall, SharedCall.run]
    rcases hres : m.rename (host.at r.now) key title' r.clientId (s.world r.manager) with
      ⟨e | title'', v⟩
    · rw [hres] at hrename
      simp only [bind_of_error _ hres, hres]
      exact hrename
    · rw [hres] at hrename
      simp only [bind_of_ok _ hres, hres]
      exact hrename
  · have hnone : r.renamed m host key s = none := by
      rw [SharedRequest.renamed]
      split
      case h_1 title' heq => exact absurd ⟨title', heq⟩ hcall
      case h_2 => rfl
    rw [hnone]
    exact (call_holding hlaw hnow hgood hadded (fun title' heq => hcall ⟨title', heq⟩)
      (h r.manager)).behind rfl

/-! ## What is read -/

theorem Shared.title_stored (hlaw : host.Lawful) (hnow : IsDate host.fromIso host.now)
    (h : Shared host.fromIso m key A title s) : storedTitle host m key s.tree = title := by
  obtain ⟨old, rows, hw, htitle, -⟩ := (h 0).disk
  obtain ⟨loaded, hread, -, -, hmeta, -⟩ := readSession_fileText hlaw hnow hw.line hw.rows
  have hfile : s.tree (m.getSessionPath key) =
      some (.file (fileText (lineOf old) rows)) := hw.file
  have hsession : storedSession host m key s.tree = some loaded := by
    rw [storedSession, hfile]
    exact hread
  rw [storedTitle, hsession, Option.bind_some, hmeta]
  exact htitle

theorem storedRows_written {fromIso : Text → Option Text} {old : Session} {rows : List Dict}
    {t : Tree} (hw : Written fromIso m key old rows t) : storedRows m key t = rows := by
  obtain ⟨hwell, hmeta⟩ := hw.line.lineOf_spec
  rw [storedRows, rowsAt_of_file hw.file, rowsOf_fileText hwell hmeta hw.rows]

theorem Shared.rows_stored {fromIso : Text → Option Text} (h : Shared fromIso m key A title s) :
    ∀ row ∈ storedRows m key s.tree, A row := by
  obtain ⟨old, rows, hw, -, hrows⟩ := (h 0).disk
  have hstored : storedRows m key s.tree = rows := storedRows_written hw
  rwa [hstored]

theorem Shared.without {fromIso : Text → Option Text} {row : Dict}
    (h : Shared fromIso m key A title s) (hstored : row ∉ storedRows m key s.tree)
    (hwaiting : ∀ i, row ∉ s.waiting key i) : Shared fromIso m key (· ≠ row) title s := by
  intro i
  obtain ⟨old, rows, hw, htitle, -⟩ := (h i).disk
  refine ⟨⟨old, rows, hw, htitle, fun data hdata heq => hstored ?_⟩, fun session hcache => ?_⟩
  · have hrows : storedRows m key s.tree = rows := storedRows_written hw
    rw [hrows, ← heq]
    exact hdata
  · refine ⟨((h i).cache session hcache).1, fun data hdata heq => hwaiting i ?_⟩
    have hthere : s.caches i key = some session := hcache
    rw [Process.waiting, hthere, Option.map_some, Option.getD_some, ← heq]
    exact hdata

/-- **Several managers.** In a run of good calls the stored title is that of the last rename, and
what was removed stays removed. -/
theorem last_rename_stands (host : Host) (hlaw : host.Lawful) (m : SessionManager) (key : Text)
    (hnow : IsDate host.fromIso host.now) (title₀ : Option Json.Value) (s₀ s u t : Process)
    (hstart : Shared host.fromIso m key (fun _ => True) title₀ s₀)
    (before during : List SharedRequest) (r : SharedRequest)
    (hdates : ∀ e ∈ before ++ r :: during, IsDate host.fromIso e.now)
    (hgood : Steps.GoodRun (SharedRequest.step m host key)
      (fun s e => e.good m host key s = true) s₀ (before ++ r :: during))
    (hs : Steps.run (SharedRequest.step m host key) s₀ before = some s)
    (hu : r.step m host key s = some u)
    (ht : Steps.run (SharedRequest.step m host key) u during = some t) :
    (∀ title, r.renamed m host key s = some title →
      Steps.GoodRun (SharedRequest.step m host key)
        (fun s e => e.renamed m host key s = none) u during →
      storedTitle host m key t.tree = some (.str title)) ∧
    (∀ row ∈ storedRows m key s.tree, row ∉ storedRows m key u.tree →
      (∀ i, row ∉ u.waiting key i) → (∀ e ∈ during, row ∉ e.added host key) →
      row ∉ storedRows m key t.tree) := by
  have hgood' := Steps.goodRun_and _ _ (fun e => IsDate host.fromIso e.now) _ _ hgood hdates
  rw [Steps.goodRun_append _ _ _ s _ _ hs] at hgood'
  obtain ⟨hbefore, hr, hduring⟩ := hgood'
  obtain ⟨title, hshared⟩ := Steps.goodRun_invariant _ _
    (fun x => ∃ title, Shared host.fromIso m key (fun _ => True) title x)
    (fun x e y hx he hstep => ⟨_, step_shared hlaw he.2 he.1 (fun _ _ => trivial)
      hx.choose_spec hstep⟩) s₀ s before ⟨title₀, hstart⟩ hs hbefore
  have hbehind := step_shared hlaw hr.2 hr.1 (fun _ _ => trivial) hshared hu
  constructor
  · intro last hlast hnone
    rw [hlast] at hbehind
    have hstays : Shared host.fromIso m key (fun _ => True) (some (.str last)) t := by
      refine Steps.goodRun_invariant _ _ (Shared host.fromIso m key (fun _ => True) _)
        (fun x e y hx he hstep => ?_) u t during hbehind ht
        (Steps.goodRun_both _ _ _ u during (hduring u hu) hnone)
      obtain ⟨⟨hgood, hdate⟩, hkept⟩ := he
      have hnext := step_shared hlaw hdate hgood (fun _ _ => trivial) hx hstep
      rwa [hkept] at hnext
    exact hstays.title_stored hlaw hnow
  · intro row _ hgone hwaiting hadded hback
    have hclean := Steps.goodRun_and _ _ (fun e => row ∉ e.added host key) _ _ (hduring u hu)
      hadded
    obtain ⟨last, hstays⟩ := Steps.goodRun_invariant _ _
      (fun x => ∃ last, Shared host.fromIso m key (· ≠ row) last x)
      (fun x e y hx he hstep => ⟨_, step_shared hlaw he.1.2 he.1.1
        (fun data hdata heq => he.2 (heq ▸ hdata)) hx.choose_spec hstep⟩) u t during
      ⟨_, hbehind.without hgone hwaiting⟩ ht hclean
    exact hstays.rows_stored row hback rfl

end Runs

/-! ## Two managers -/

def userRow (text : Text) : Dict :=
  [("role".toList, .str "user".toList), ("content".toList, .str text)]

/-- A session of two messages, which no manager has cached. -/
def twoTurns : Process :=
  freshProcess (diskWith (fileText (lineOf (newSession plainHost bareRequest.sessionKey none))
    [userRow ['a'], userRow ['b']]))

theorem twoTurns_written : Written plainHost.fromIso appHome bareRequest.sessionKey
    (newSession plainHost bareRequest.sessionKey none) [userRow ['a'], userRow ['b']]
    twoTurns.tree := by
  have hnew : Sound plainHost.fromIso bareRequest.sessionKey
      (newSession plainHost bareRequest.sessionKey none) :=
    (@newSession_sound plainHost _ _ rfl none none rfl).1
  have hfile : twoTurns.tree (appHome.getSessionPath bareRequest.sessionKey) = some (.file
      (fileText (lineOf (newSession plainHost bareRequest.sessionKey none))
        [userRow ['a'], userRow ['b']])) := by
    simp only [twoTurns, freshProcess, diskWith, if_true]
  refine ⟨hfile, hnew, fun data hdata => ?_, fun q hq => ?_⟩
  · rcases mem_pair.mp hdata with rfl | rfl
    · exact ⟨⟨by simp [userRow, Json.keys], trivial, trivial, trivial⟩, rfl⟩
    · exact ⟨⟨by simp [userRow, Json.keys], trivial, trivial, trivial⟩, rfl⟩
  · have hne : q ≠ appHome.getSessionPath bareRequest.sessionKey := by
      rintro rfl
      exact path_not_above appHome bareRequest.sessionKey hq
    exact (if_neg hne).trans (if_pos hq)

theorem twoTurns_shared :
    Shared plainHost.fromIso appHome bareRequest.sessionKey (fun _ => True) none twoTurns := by
  refine fun i => ⟨⟨_, _, twoTurns_written, rfl, fun _ _ => trivial⟩, fun session hcache => ?_⟩
  cases hcache

def through (i : Nat) (call : SharedCall) : SharedRequest := ⟨i, plainHost.now, none, call⟩

/-- The process behind the calls on the session of two messages. -/
def sharedAfter (requests : List SharedRequest) : Process :=
  requests.foldl (fun s r => s.after r.manager
    (r.call.run appHome (plainHost.at r.now) bareRequest.sessionKey r.clientId)) twoTurns

theorem sharedAfter_step (r : SharedRequest) :
    r.step appHome plainHost bareRequest.sessionKey twoTurns = some (sharedAfter [r]) := rfl

theorem sharedAfter_run (r : SharedRequest) (rs : List SharedRequest) :
    Steps.run (SharedRequest.step appHome plainHost bareRequest.sessionKey) (sharedAfter [r]) rs =
      some (sharedAfter (r :: rs)) :=
  Steps.run_total _ (fun _ _ => rfl) _ _

/-- The title and the messages that are stored behind the calls. -/
def storedAfter (requests : List SharedRequest) : Option Text × List Text :=
  ((storedTitle plainHost appHome bareRequest.sessionKey (sharedAfter requests).tree).map Json.print,
    contents (storedRows appHome bareRequest.sessionKey (sharedAfter requests).tree))

/-- The calls of a manager that is first asked for the session behind the truncation. -/
def lateComer : List SharedRequest :=
  [through 1 .getOrCreate, through 1 (.add "user".toList ['c'] noKwargs), through 1 .save]

def firstTitle : SharedRequest := through 0 (.rename "First".toList)

def truncation : SharedRequest := through 0 (.truncate 1)

theorem not_mem_of_print {rows : List Dict} {row : Dict}
    (h : (rows.map fun data => Json.print (.obj data)).contains (Json.print (.obj row)) = false) :
    row ∉ rows := by
  intro hrow
  have hprint := contains_iff_mem.mpr
    (mem_map_of_mem (f := fun data => Json.print (.obj data)) hrow)
  rw [h] at hprint
  cases hprint

theorem lateComer_keeps :
    storedTitle plainHost appHome bareRequest.sessionKey
        (sharedAfter (firstTitle :: lateComer)).tree = some (.str "First".toList) ∧
      userRow ['b'] ∉ storedRows appHome bareRequest.sessionKey
        (sharedAfter (truncation :: lateComer)).tree := by
  have hdates : ∀ r, r.now = plainHost.now → ∀ e ∈ r :: lateComer,
      IsDate plainHost.fromIso e.now := by
    intro r hr e he
    simp only [lateComer, through, List.mem_cons, List.not_mem_nil, or_false] at he
    rcases he with rfl | rfl | rfl | rfl
    · rw [hr]
      rfl
    all_goals rfl
  constructor
  · refine (last_rename_stands plainHost plainHost_lawful appHome bareRequest.sessionKey rfl none
      twoTurns twoTurns _ _ twoTurns_shared [] lateComer firstTitle (hdates _ rfl) ?_ rfl
      (sharedAfter_step firstTitle) (sharedAfter_run firstTitle lateComer)).1 _ ?_ ?_
    · decide +kernel
    · decide +kernel
    · decide
  · refine (last_rename_stands plainHost plainHost_lawful appHome bareRequest.sessionKey rfl none
      twoTurns twoTurns _ _ twoTurns_shared [] lateComer truncation (hdates _ rfl) ?_ rfl
      (sharedAfter_step truncation) (sharedAfter_run truncation lateComer)).2 _ ?_ ?_ (fun i => ?_) (fun e he => ?_)
    · decide +kernel
    · rw [storedRows_written twoTurns_written]
      exact List.mem_cons_of_mem _ (List.mem_singleton_self _)
    · apply not_mem_of_print
      decide +kernel
    · by_cases hi : i = 0
      · subst hi
        apply not_mem_of_print
        decide +kernel
      · have hnone : (sharedAfter [truncation]).caches i bareRequest.sessionKey = none :=
          congrFun (if_neg hi) bareRequest.sessionKey
        rw [Process.waiting, hnone]
        exact List.not_mem_nil
    · simp only [lateComer, List.mem_cons, List.not_mem_nil, or_false] at he
      rcases he with rfl | rfl | rfl
      · exact List.not_mem_nil
      · apply not_mem_of_print
        decide
      · exact List.not_mem_nil

theorem storedAfter_stale :
    storedAfter [through 1 .getOrCreate, through 0 (.rename "First".toList),
      through 1 (.add "user".toList ['c'] noKwargs), through 1 .save] =
        (none, [['a'], ['b'], ['c']]) ∧
    storedAfter [through 1 .getOrCreate, through 0 (.truncate 2), through 1 (.truncate 1)] =
        (none, [['a']]) := by
  constructor
  · decide +kernel
  · decide +kernel

end MiqroForge.Sessions
