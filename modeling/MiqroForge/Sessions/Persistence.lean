import MiqroForge.Library.Steps
import MiqroForge.Sessions.Mutations
import MiqroForge.Sessions.Opening
import MiqroForge.Sessions.Writing

/-!
One session through one manager: appended messages, `clear`, `truncate_turns`, `save`, `rename`
and `claim_session` in any order, and what a fresh load returns behind a save.

* `save_reloads`: in a run that stays below the thresholds of compaction, every save is read back
  as long as no save appends to rows that `clear` or `truncate_turns` removed, and no appending
  save and no rename meets a raw line break.
-/

namespace MiqroForge.Sessions

open PyText FileTree Calls List

/-! ## Edits -/

def Host.at (host : Host) (now : Text) : Host := { host with now }

/-- The keyword arguments of `add_message`; `_type` is the mark of the metadata line. -/
structure Kwargs where
  fields : Dict
  wellFormed : Json.WellFormed (.obj fields)
  untyped : fields.lookup "_type".toList = none

inductive Act where
  | add (role content : Text) (kwargs : Kwargs)
  | clear
  | truncateTurns (dropLastTurns : Int)
  | save
  | rename (title : Text) (clientId : Option Text)
  | claim (clientId : Text)

/-- What is done, and when. -/
structure Edit where
  now : Text
  act : Act

/-- A change of the session in memory. -/
def inMemory (key : Text) (f : Session → Option Session) : Run Unit := do
  let held ← cached key
  match held with
  | none => pure ()
  | some session => do
    let session ← raising (f session)
    setCache key (some session)

def saveHeld (m : SessionManager) (host : Host) (key : Text) : Run Unit := do
  let held ← cached key
  match held with
  | none => pure ()
  | some session => do
    let _ ← m.save host session
    return ()

def Act.run (m : SessionManager) (host : Host) (key : Text) : Act → Run Unit
  | .add role content kwargs => inMemory key fun s => s.addMessage host role content kwargs.fields
  | .clear => inMemory key fun s => some (s.clear host)
  | .truncateTurns n => inMemory key fun s => some (s.truncateTurns host n).2
  | .save => saveHeld m host key
  | .rename title clientId => do
    let _ ← m.rename host key title clientId
    return ()
  | .claim clientId => do
    let _ ← m.claimSession host key clientId
    return ()

/-- The world behind an edit, whether it raises or not. -/
def step (m : SessionManager) (host : Host) (key : Text) (w : World) (e : Edit) : Option World :=
  some (e.act.run m (host.at e.now) key w).2

/-! ## When a save is read back -/

/-- The session `claim_session` saves. -/
def claimed (host : Host) (key clientId content : Text) : Option Session := do
  let session ← readSession host key content
  let metadata ← setItem session.metadata ownerField (.str clientId)
  some { session with metadata }

def Act.good (m : SessionManager) (host : Host) (key : Text) (w : World) : Act → Bool
  | .save => (w.cache key).all fun session =>
    savesSmall host session (contentAt m key w) && savesAll session (contentAt m key w)
  | .rename title _ => (strip title).isEmpty || (contentAt m key w).all unbroken
  | .claim clientId => !clientId.isEmpty && (contentAt m key w).all fun content =>
    (claimed host key clientId content).all fun session => savesSmall host session (some content)
  | _ => true

def Edit.good (m : SessionManager) (host : Host) (key : Text) (w : World) (e : Edit) : Prop :=
  e.act.good m (host.at e.now) key w = true

/-- A fresh load gives the messages of the session, with its title, its owner and its
workspace. -/
def Reloads (m : SessionManager) (host : Host) (key : Text) (session : Session) (w : World) :
    Prop :=
  ∃ loaded, m.load host key true w = (.ok (some loaded), w) ∧
    loaded.messages = session.messages ∧
    ∀ field ∈ [titleField, ownerField, workspaceField],
      getField loaded.metadata field = getField session.metadata field

namespace SessionManager

/-! ## The invariant -/

section Tracking
variable {host : Host} {m : SessionManager} {key : Text} {session : Session} {rows : List Dict}
  {w : World}

/-- What is stored of the session in the cache: nothing yet, or as many rows as it counts, under a
line with its metadata. -/
def OnFile (host : Host) (m : SessionManager) (key : Text) (session : Session) (t : Tree) :
    Prop :=
  (m.Unwritten key (legacyPath host key) t ∧ session.savedCount = 0) ∨
    ∃ rows, Stands host.fromIso m key session rows t ∧ session.savedCount = rows.length

/-- **The invariant.** -/
def Tracked (host : Host) (m : SessionManager) (key : Text) (w : World) : Prop :=
  ∃ session, w.cache key = some session ∧ Sound host.fromIso key session ∧
    OnFile host m key session w.tree

theorem Synced.tracked {kept : Session} (h : Synced host.fromIso m key session kept w) :
    Tracked host m key w := by
  obtain ⟨old, hwritten, hmeta⟩ := h.stands
  exact ⟨kept, h.cached, h.sound, Or.inr ⟨_, ⟨old, hwritten, hmeta.trans h.metadata.symm⟩, h.count⟩⟩

theorem Synced.reloads (hlaw : host.Lawful) (hnow : IsDate host.fromIso host.now) {kept : Session}
    (h : Synced host.fromIso m key session kept w) : Reloads m host key session w := by
  obtain ⟨old, hwritten, hmeta⟩ := h.stands
  obtain ⟨loaded, hread, hmsgs, -, hloaded, -⟩ :=
    readSession_fileText hlaw hnow hwritten.line hwritten.rows
  refine ⟨loaded, ?_, hmsgs, fun field _ => by rw [hloaded, hmeta]⟩
  rw [load_there (show m.HasFile key _ w from hwritten.file), hread]

theorem Written.migrate_run {fromIso : Text → Option Text} {old : Session}
    (h : Written fromIso m key old rows w.tree) :
    onDisk (m.migrateFlatToDir key) w = (.ok (), w) :=
  onDisk_ok (migrate_there h.file)

theorem Written.mkdirs_run {fromIso : Text → Option Text} {old : Session}
    (h : Written fromIso m key old rows w.tree) :
    onDisk (mkdirs (m.getSessionDir key)) w = (.ok (), w) :=
  onDisk_ok (mkdirs_ready h.ready)

theorem save_eq (session : Session) : m.save host session = (do
    onDisk (m.migrateFlatToDir session.key)
    onDisk (mkdirs (m.getSessionDir session.key))
    m.saveReady host session) := rfl

theorem save_stands (hlaw : host.Lawful) (hs : Sound host.fromIso key session) {old : Session}
    (hold : Written host.fromIso m key old rows w.tree)
    (hsmall : savesSmall host session (contentAt m key w) = true)
    (hkeep : ∀ s, syncUpdatedAt host session = some s →
      shouldRewrite host s (w.tree (m.getSessionPath key)) = some false →
      ∃ rows, Stands host.fromIso m key s rows w.tree ∧ s.savedCount = rows.length ∧
        ∀ content ∈ contentAt m key w, appends s content = true) :
    Outcome (· = w) (m.save host session) (Synced host.fromIso m key session) (· = w) := by
  rintro v rfl
  rw [save_eq, hs.key_eq, bind_of_ok _ hold.migrate_run, bind_of_ok _ hold.mkdirs_run]
  exact saveReady_run hlaw hs hold.writable hsmall hkeep v rfl

theorem save_unwritten (hlaw : host.Lawful) (hs : Sound host.fromIso key session)
    (hnone : m.Unwritten key (legacyPath host key) w.tree)
    (hsmall : savesSmall host session none = true) :
    Outcome (· = w) (m.save host session) (Synced host.fromIso m key session)
      (Both (· = w.cache) (m.Unwritten key (legacyPath host key))) := by
  have hstart : ∀ v, v = w → Both (· = w.cache) (m.Unwritten key (legacyPath host key)) v := by
    rintro v rfl
    exact ⟨rfl, hnone⟩
  rw [save_eq, hs.key_eq]
  apply Outcome.bind
  · exact migrate_unwritten.pre hstart
  intro _
  apply Outcome.bind
  · exact mkdirs_unwritten
  rintro _ v ⟨hcache, htree, hready⟩
  have hpath : isDir v.tree (m.getSessionPath key) = false := by
    rw [isDir, htree.path]
    rfl
  have hcontent : contentAt m key v = none := by
    rw [contentAt, htree.path]
    rfl
  refine (saveReady_run hlaw hs ⟨hready, hpath⟩ (hcontent ▸ hsmall) fun s _ hdecide => ?_).weaken
    (fun _ _ h => h) (fun u hu => ?_) v rfl
  · rw [htree.path, shouldRewrite] at hdecide
    cases hdecide
  · rw [hu]
    exact ⟨hcache, htree⟩

/-- **A save of the session in the cache.** -/
theorem save_tracked (hlaw : host.Lawful) (hcache : w.cache key = some session)
    (hs : Sound host.fromIso key session) (hfile : OnFile host m key session w.tree)
    (hsmall : savesSmall host session (contentAt m key w) = true)
    (hall : savesAll session (contentAt m key w) = true) :
    Outcome (· = w) (m.save host session) (Synced host.fromIso m key session)
      (Tracked host m key) := by
  rcases hfile with ⟨hnone, hcount⟩ | ⟨rows, ⟨old, hold, hmeta⟩, hcount⟩
  · have hcontent : contentAt m key w = none := by
      rw [contentAt, hnone.path]
      rfl
    refine (save_unwritten hlaw hs hnone (hcontent ▸ hsmall)).weaken (fun _ _ h => h) ?_
    rintro v ⟨hv, htree⟩
    exact ⟨session, by rw [hv, hcache], hs, Or.inl ⟨htree, hcount⟩⟩
  · have htracked : Tracked host m key w :=
      ⟨session, hcache, hs, Or.inr ⟨rows, ⟨old, hold, hmeta⟩, hcount⟩⟩
    refine (save_stands hlaw hs hold hsmall fun s hsync hdecide => ?_).weaken (fun _ _ h => h)
      fun v hv => hv ▸ htracked
    obtain ⟨updatedAt, rfl⟩ := sync_spec hsync
    refine ⟨rows, ⟨old, hold, hmeta⟩, hcount, fun content hmem => ?_⟩
    rw [savesAll, hmem, Option.all_some, Bool.or_eq_true, decide_eq_true_eq] at hall
    rcases hall with hless | happends
    · rw [hold.file, shouldRewrite] at hdecide
      simp only [Option.isNone_some, Bool.false_or, decide_eq_true_eq, hless, if_true] at hdecide
      cases hdecide
    · exact happends

/-! ## Renaming and claiming -/

/-- `rename` once the title is in the metadata. -/
def renameReady (m : SessionManager) (key title : Text) (session : Session) :
    Run (Option Text) := do
  setCache key (some session)
  onDisk (m.migrateFlatToDir key)
  onDisk (mkdirs (m.getSessionDir key))
  let t ← getTree
  if (t (m.getSessionPath key)).isSome then m.rewriteMetadataLine session
  else do
    let line ← raising (metadataLine session)
    onDisk (writeText (m.getSessionPath key) (rowLine line))
  return some title

theorem renameReady_run {fromIso : Text → Option Text} {old : Session} (title : Text)
    (hs : Sound fromIso key session) (hold : Written fromIso m key old rows w.tree)
    (hclean : unbroken (fileText (lineOf old) rows) = true) :
    m.renameReady key title session w = (.ok (some title),
      { m.put key (fileText (lineOf session) rows) w with
        cache := fun k => if k = key then some session else w.cache k }) := by
  have hset : setCache key (some session) w =
    (.ok (), { w with cache := fun k => if k = key then some session else w.cache k }) := rfl
  have hold' : Written fromIso m key old rows
      { w with cache := fun k => if k = key then some session else w.cache k }.tree := hold
  have htree : getTree { w with cache := fun k => if k = key then some session else w.cache k } =
      (.ok w.tree, _) := rfl
  unfold renameReady
  rw [bind_of_ok _ hset, bind_of_ok _ hold'.migrate_run, bind_of_ok _ hold'.mkdirs_run,
    bind_of_ok _ htree, hold.file, Option.isSome_some, if_pos rfl,
    bind_of_ok _ (rewriteMetadataLine_run hs hold' hclean)]
  rfl

theorem renameReady_tracked (title : Text) (hs : Sound host.fromIso key session)
    (hfile : (m.Unwritten key (legacyPath host key) w.tree ∧ session.savedCount = 0) ∨
      ∃ old rows, Written host.fromIso m key old rows w.tree ∧ session.savedCount = rows.length)
    (hgood : ∀ content ∈ contentAt m key w, unbroken content = true) :
    Outcome (· = w) (m.renameReady key title session) (fun _ => Tracked host m key)
      (Tracked host m key) := by
  unfold renameReady
  rcases hfile with ⟨hnone, hcount⟩ | ⟨old, rows, hold, hcount⟩
  · have htracked : ∀ v, Both (fun c => c key = some session)
        (m.Unwritten key (legacyPath host key)) v → Tracked host m key v :=
      fun v hv => ⟨session, hv.1, hs, Or.inl ⟨hv.2, hcount⟩⟩
    have hset : Outcome (· = w) (setCache key (some session))
        (fun _ => Both (fun c => c key = some session) (m.Unwritten key (legacyPath host key)))
        (Tracked host m key) := by
      apply outcome_update
      rintro v rfl
      exact ⟨if_pos rfl, hnone⟩
    apply hset.bind
    intro _
    apply (migrate_unwritten.weaken (fun _ _ h => h) htracked).bind
    intro _
    apply (mkdirs_unwritten.weaken (fun _ _ h => h) htracked).bind
    intro _
    apply getTree_outcome.bind
    rintro t v ⟨⟨hcache, htree, hready⟩, rfl⟩
    have hpath : isDir v.tree (m.getSessionPath key) = false := by
      rw [isDir, htree.path]
      rfl
    have hline : raising (metadataLine session) v = (.ok (lineOf session), v) := by
      rw [hs.line]
      rfl
    have htext : rowLine (lineOf session) = fileText (lineOf session) [] := by
      rw [fileText, flatMap_singleton]
    have hwrite := write_run ⟨hready, hpath⟩ (fileText (lineOf session) [])
    rw [htree.path, Option.isSome_none, if_neg Bool.false_ne_true, bind_of_ok _ hline, htext]
    rw [bind_of_ok _ hwrite]
    refine ⟨session, hcache, hs, Or.inr ⟨[], ⟨session, put_written hready hs ?_, rfl⟩, hcount⟩⟩
    exact forall_mem_nil _
  · have hrun := renameReady_run title hs hold (hgood _ hold.content)
    unfold renameReady at hrun
    rintro v rfl
    rw [hrun]
    exact ⟨session, if_pos rfl, hs,
      Or.inr ⟨rows, ⟨session, put_written hold.ready hs hold.rows, rfl⟩, hcount⟩⟩

theorem rename_eq (title : Text) (clientId : Option Text) :
    m.rename host key title clientId = (do
      onDisk (m.verifyOwnership key clientId)
      let session ← m.getOrCreate host key clientId none
      if strip title = [] then return none
      else do
        let metadata ← raising (setItem session.metadata titleField
          (.str ((strip title).take titleLength)))
        m.renameReady key ((strip title).take titleLength) { session with metadata }) := rfl

theorem rename_tracked (title : Text) (clientId : Option Text) (h : Tracked host m key w)
    (hgood : strip title = [] ∨ ∀ content ∈ contentAt m key w, unbroken content = true) :
    Outcome (· = w) (m.rename host key title clientId) (fun _ => Tracked host m key)
      (Tracked host m key) := by
  have hsame : ∀ v, v = w → Tracked host m key v := fun v hv => hv ▸ h
  obtain ⟨session, hcache, hs, hfile⟩ := h
  rw [rename_eq]
  apply ((verify_reads clientId).weaken (fun _ _ hv => hv.1) hsame).bind
  intro _
  apply ((getOrCreate_held hcache clientId).weaken (fun _ _ hv => hv) hsame).bind
  intro s
  split
  case isTrue => exact outcome_pure fun v hv => hsame v hv.1
  case isFalse hne =>
    have hset : Outcome (fun v => v = w ∧ s = session)
        (raising (setItem s.metadata titleField (.str ((strip title).take titleLength))))
        (fun metadata v => v = w ∧ s = session ∧
          setItem session.metadata titleField (.str ((strip title).take titleLength)) =
            some metadata) (Tracked host m key) := by
      refine (raising_outcome _).weaken (fun metadata v hv => ?_) fun v hv => hsame v hv.1
      obtain ⟨⟨rfl, rfl⟩, hmeta⟩ := hv
      exact ⟨rfl, rfl, hmeta⟩
    apply hset.bind
    rintro metadata v ⟨rfl, rfl, hmeta⟩
    have hstr : Json.WellFormed (.str ((strip title).take titleLength)) := trivial
    refine renameReady_tracked _ (hs.withField hstr hmeta) ?_
      (hgood.resolve_left hne) v rfl
    rcases hfile with hnone | ⟨rows, ⟨old, hold, -⟩, hcount⟩
    · exact Or.inl hnone
    · exact Or.inr ⟨old, rows, hold, hcount⟩

/-- `claim_session` of a session without an owner. -/
def claimFree (m : SessionManager) (host : Host) (key clientId : Text) : Run Bool := do
  let found ← m.load host key true
  match found with
  | none => return false
  | some session => do
    let metadata ← raising (setItem session.metadata ownerField (.str clientId))
    let _ ← m.save host { session with metadata }
    return true

theorem claim_eq (clientId : Text) : m.claimSession host key clientId = (do
    let owner ← onDisk (m.readOwner key)
    match owner with
    | some owner =>
      if ownedBy clientId owner then return false else throw (.ownership .unauthorized)
    | none => m.claimFree host key clientId) := rfl

theorem shouldRewrite_claimed {clientId content : Text} {b : Bool} (hclient : clientId ≠ [])
    (howner : getField session.metadata ownerField = some (some (.str clientId)))
    (hdisk : ownerOfLines (fileLines content) = none)
    (h : shouldRewrite host session (some (.file content)) = some b) : b = true := by
  have htrue : host.truthy (.str clientId) = true := by
    rw [Host.truthy, Bool.not_eq_true', isEmpty_eq_false_iff]
    exact hclient
  unfold shouldRewrite at h
  split at h
  · exact (Option.some.inj h).symm
  · simp only [howner, hdisk, htrue, textOf, Option.bind_eq_bind, Option.bind_some,
      Option.getD_some, Option.isNone_none, Bool.and_self, if_true] at h
    exact (Option.some.inj h).symm

theorem claimFree_stands (hlaw : host.Lawful) (hnow : IsDate host.fromIso host.now)
    {clientId : Text} {old : Session} (hold : Written host.fromIso m key old rows w.tree)
    (howner : m.ownerAt key w.tree = none)
    (hgood : (Act.claim clientId).good m host key w = true) :
    Outcome (· = w) (m.claimFree host key clientId)
      (fun _ v => ∃ session kept, Synced host.fromIso m key session kept v) (· = w) := by
  have hcontent := hold.content
  obtain ⟨loaded, hread, hmsgs, hsaved, hloaded, hsound⟩ :=
    readSession_fileText hlaw hnow hold.line hold.rows
  rw [Act.good, Bool.and_eq_true, Bool.not_eq_true', isEmpty_eq_false_iff, hcontent,
    Option.all_some, claimed, hread] at hgood
  obtain ⟨hclient, hsmall⟩ := hgood
  unfold claimFree
  have hload : Outcome (· = w) (m.load host key true) (fun found v => v = w ∧ found = some loaded)
      (· = w) := by
    rintro v rfl
    rw [load_there (show m.HasFile key (fileText (lineOf old) rows) v from hold.file), hread]
    exact ⟨rfl, rfl⟩
  apply hload.bind
  intro found
  cases found with
  | none =>
    rintro v ⟨-, h⟩
    cases h
  | some session =>
    have hset : Outcome (fun v => v = w ∧ some session = some loaded)
        (raising (setItem session.metadata ownerField (.str clientId)))
        (fun metadata v => v = w ∧ session = loaded ∧
          setItem loaded.metadata ownerField (.str clientId) = some metadata) (· = w) := by
      refine (raising_outcome _).weaken (fun metadata v hv => ?_) fun v hv => hv.1
      obtain ⟨⟨rfl, hsame⟩, hmeta⟩ := hv
      cases hsame
      exact ⟨rfl, rfl, hmeta⟩
    apply hset.bind
    rintro metadata v ⟨rfl, rfl, hmeta⟩
    have hstr : Json.WellFormed (.str clientId) := trivial
    have hsmall' : savesSmall host { session with metadata } (contentAt m key v) = true := by
      rw [hcontent]
      simpa [hmeta] using hsmall
    refine ((save_stands hlaw (hsound.withField hstr hmeta) hold hsmall'
      fun s hsync hdecide => ?_).bind fun kept => outcome_pure fun u hu => ⟨_, kept, hu⟩) v rfl
    obtain ⟨updatedAt, rfl⟩ := sync_spec hsync
    rw [hold.file] at hdecide
    have hdisk : ownerOfLines (fileLines (fileText (lineOf old) rows)) = none := by
      rw [ownerAt, hold.file] at howner
      exact howner
    have htrue : false = true := shouldRewrite_claimed hclient
      (getField_setItem Json.Value.noConfusion hmeta) hdisk hdecide
    cases htrue

theorem claim_tracked (hlaw : host.Lawful) (hnow : IsDate host.fromIso host.now)
    (clientId : Text) (h : Tracked host m key w)
    (hgood : (Act.claim clientId).good m host key w = true) :
    Outcome (· = w) (m.claimSession host key clientId) (fun _ => Tracked host m key)
      (Tracked host m key) := by
  have hsame : ∀ v, v = w → Tracked host m key v := fun v hv => hv ▸ h
  rw [claim_eq]
  apply (readOwner_reads.weaken (fun _ _ hv => hv) hsame).bind
  intro owner
  cases owner with
  | some owner =>
    simp only
    split
    · exact outcome_pure fun v hv => hsame v hv.1
    · exact outcome_throw fun v hv => hsame v hv.1
  | none =>
    rintro v ⟨rfl, howner⟩
    obtain ⟨session, hcache, hs, ⟨hnone, hcount⟩ | ⟨rows, ⟨old, hold, hmeta⟩, hcount⟩⟩ := h
    · have hback : ∀ u, Both (· = v.cache) (m.Unwritten key (legacyPath host key)) u →
          Tracked host m key u :=
        fun u hu => ⟨session, hu.1 ▸ hcache, hs, Or.inl ⟨hu.2, hcount⟩⟩
      have hload : Outcome (· = v) (m.load host key true)
          (fun found u => Tracked host m key u ∧ found = none) (Tracked host m key) := by
        refine (load_unwritten.pre ?_).weaken (fun found u hu => ⟨hback u hu.1, hu.2⟩) hback
        rintro u rfl
        exact ⟨rfl, hnone⟩
      refine (hload.bind fun found => ?_) v rfl
      cases found with
      | none => exact outcome_pure fun u hu => hu.1
      | some loaded =>
        rintro u ⟨-, hu⟩
        cases hu
    · refine ((claimFree_stands hlaw hnow hold howner.symm hgood).weaken ?_ hsame) v rfl
      rintro _ u ⟨saved, kept, hu⟩
      exact hu.tracked

end Tracking

end SessionManager

/-! ## Changes in memory -/

open SessionManager

section Memory
variable {host : Host} {m : SessionManager} {key : Text} {session session' : Session} {w : World}

theorem stamped_isRow {base kwargs row : Dict} (hbase : Json.WellFormed (.obj base))
    (hkwargs : Json.WellFormed (.obj kwargs)) (hrow : row = Json.merge base kwargs)
    (huntyped : ∀ e ∈ base ++ kwargs, e.1 ≠ "_type".toList) : IsRow row := by
  subst hrow
  refine ⟨⟨Json.keys_merge_nodup base kwargs hbase.1, ?_⟩, ?_⟩
  · refine (Json.fieldsWellFormed_iff _).mpr fun f hf => ?_
    rcases Json.mem_merge hf with hf | hf
    · exact (Json.fieldsWellFormed_iff base).mp hbase.2 f hf
    · exact (Json.fieldsWellFormed_iff kwargs).mp hkwargs.2 f hf
  · have hnone : (Json.merge base kwargs).lookup "_type".toList = none := by
      refine lookup_eq_none_iff.mpr fun e he => bne_iff_ne.mpr fun heq => ?_
      exact huntyped e (mem_append.mpr (Json.mem_merge he)) heq.symm
    rw [isMetadata, hnone]

theorem Kwargs.not_typed (kwargs : Kwargs) {e : Text × Json.Value} (he : e ∈ kwargs.fields) :
    e.1 ≠ "_type".toList := fun heq =>
  bne_iff_ne.mp (List.lookup_eq_none_iff.mp kwargs.untyped e he) heq.symm

theorem Sound.append {fromIso : Text → Option Text} {row : Dict} {updatedAt : Text}
    (hs : Sound fromIso key session) (hrow : IsRow row) (hdate : IsDate fromIso updatedAt) :
    Sound fromIso key { session with messages := session.messages ++ [row], updatedAt } := by
  refine ⟨hs.key_eq, fun data hdata => ?_, hs.fields, hs.metadata, hs.created, hdate⟩
  rcases mem_append.mp hdata with h | h
  · exact hs.rows data h
  · rw [mem_singleton.mp h]
    exact hrow

/-- An edit in memory that the file does not notice. -/
structure Unsaved (fromIso : Text → Option Text) (key : Text) (session session' : Session) :
    Prop where
  sound : Sound fromIso key session'
  metadata : session'.metadata = session.metadata
  count : session'.savedCount = session.savedCount

theorem addMessage_unsaved (hlaw : host.Lawful) (hnow : IsDate host.fromIso host.now)
    {role content : Text} {kwargs : Kwargs} (hs : Sound host.fromIso key session)
    (h : session.addMessage host role content kwargs.fields = some session') :
    Unsaved host.fromIso key session session' := by
  have hbase : Json.WellFormed (.obj [("role".toList, .str role), ("content".toList, .str content),
      ("timestamp".toList, .str host.now)]) :=
    ⟨by simp [Json.keys], trivial, trivial, trivial, trivial⟩
  have hplain : IsRow (Json.merge [("role".toList, .str role), ("content".toList, .str content),
      ("timestamp".toList, .str host.now)] kwargs.fields) := by
    refine stamped_isRow hbase kwargs.wellFormed rfl fun e he => ?_
    rcases mem_append.mp he with he | he
    · simp only [mem_cons, not_mem_nil, or_false] at he
      rcases he with rfl | rfl | rfl
      · show "role".toList ≠ "_type".toList
        decide
      · show "content".toList ≠ "_type".toList
        decide
      · show "timestamp".toList ≠ "_type".toList
        decide
    · exact kwargs.not_typed he
  have hstamp : IsRow (Json.setField (Json.merge [("role".toList, .str role),
      ("content".toList, .str content), ("timestamp".toList, .str host.now)] kwargs.fields)
      "timestamp".toList (.str host.now)) := by
    refine ⟨Json.setField_wellFormed hplain.1 trivial, ?_⟩
    have hne : "_type".toList ≠ "timestamp".toList := by decide
    have hsame := hplain.2
    unfold isMetadata at hsame ⊢
    rw [Json.lookup_setField_of_ne _ _ hne]
    exact hsame
  unfold Session.addMessage at h
  simp only at h
  split at h
  · cases h
    exact ⟨hs.append hstamp hnow, rfl, rfl⟩
  · obtain ⟨parsed, hparsed, rfl⟩ := Option.map_eq_some_iff.mp h
    cases parsed with
    | none => exact ⟨hs.append hstamp hnow, rfl, rfl⟩
    | some date => exact ⟨hs.append hplain (parseIso_date hlaw hparsed date rfl), rfl, rfl⟩

theorem clear_unsaved (hnow : IsDate host.fromIso host.now) (hs : Sound host.fromIso key session) :
    Unsaved host.fromIso key session (session.clear host) := by
  refine ⟨⟨hs.key_eq, fun data hdata => ?_, hs.fields, hs.metadata, hs.created, hnow⟩, rfl, rfl⟩
  cases hdata

theorem truncateTurns_unsaved (hnow : IsDate host.fromIso host.now) (n : Int)
    (hs : Sound host.fromIso key session) :
    Unsaved host.fromIso key session (session.truncateTurns host n).2 := by
  unfold Session.truncateTurns
  split
  · exact ⟨hs, rfl, rfl⟩
  · refine ⟨⟨hs.key_eq, fun data hdata => ?_, hs.fields, hs.metadata, hs.created, hnow⟩, rfl, rfl⟩
    exact hs.rows data (mem_of_mem_take hdata)

theorem inMemory_tracked {f : Session → Option Session} (h : Tracked host m key w)
    (hf : ∀ s s', Sound host.fromIso key s → f s = some s' → Unsaved host.fromIso key s s') :
    Outcome (· = w) (inMemory key f) (fun _ => Tracked host m key) (Tracked host m key) := by
  have hsame : ∀ v, v = w → Tracked host m key v := fun v hv => hv ▸ h
  obtain ⟨session, hcache, hs, hfile⟩ := h
  have hcached : Outcome (· = w) (cached key) (fun held v => v = w ∧ held = some session)
      (Tracked host m key) := by
    rintro v rfl
    exact ⟨rfl, hcache⟩
  apply hcached.bind
  intro held
  cases held with
  | none =>
    rintro v ⟨-, h⟩
    cases h
  | some s =>
    have hraise : Outcome (fun v => v = w ∧ some s = some session) (raising (f s))
        (fun s' v => v = w ∧ f session = some s') (Tracked host m key) := by
      refine (raising_outcome _).weaken (fun s' v hv => ?_) fun v hv => hsame v hv.1
      obtain ⟨⟨rfl, heq⟩, hf'⟩ := hv
      cases heq
      exact ⟨rfl, hf'⟩
    apply hraise.bind
    rintro s' v ⟨rfl, hs'⟩
    have hnew := hf session s' hs hs'
    refine ⟨s', if_pos rfl, hnew.sound, ?_⟩
    rcases hfile with ⟨hnone, hcount⟩ | ⟨rows, ⟨old, hold, hmeta⟩, hcount⟩
    · exact Or.inl ⟨hnone, hnew.count.trans hcount⟩
    · exact Or.inr ⟨rows, ⟨old, hold, hmeta.trans hnew.metadata.symm⟩, hnew.count.trans hcount⟩

end Memory

/-! ## Runs -/

theorem newSession_sound {host : Host} {key : Text} {session : Session}
    (hnow : IsDate host.fromIso host.now) (clientId workspace : Option Text)
    (h : withWorkspace host (newSession host key clientId) workspace = some session) :
    Sound host.fromIso key session ∧ session.savedCount = 0 := by
  have hmeta : Json.WellFormed (newSession host key clientId).metadata := by
    cases clientId with
    | none => exact ⟨nodup_nil, trivial⟩
    | some client => exact ⟨nodup_singleton _, trivial, trivial⟩
  have hnew : Sound host.fromIso key (newSession host key clientId) := by
    refine ⟨rfl, fun data hdata => ?_, ⟨_, rfl⟩, hmeta, hnow, hnow⟩
    cases hdata
  cases workspace with
  | none =>
    cases h
    exact ⟨hnew, rfl⟩
  | some workspace =>
    simp only [withWorkspace, Option.bind_eq_bind, Option.bind_eq_some_iff,
      Option.some.injEq] at h
    obtain ⟨path, -, metadata, hset, rfl⟩ := h
    have hstr : Json.WellFormed (.str (host.pathText path)) := trivial
    exact ⟨hnew.withField hstr hset, rfl⟩

section Runs
variable {host : Host} {m : SessionManager} {key : Text} {session : Session} {w : World}

theorem Host.Lawful.at (h : host.Lawful) (now : Text) : (host.at now).Lawful :=
  ⟨h.parsed, h.normalized, h.counter⟩

/-- **Step.** A good edit keeps the invariant. -/
theorem act_tracked (hlaw : host.Lawful) (hnow : IsDate host.fromIso host.now) (a : Act)
    (h : Tracked host m key w) (hgood : a.good m host key w = true) :
    Outcome (· = w) (a.run m host key) (fun _ => Tracked host m key) (Tracked host m key) := by
  cases a with
  | add role content kwargs =>
    exact inMemory_tracked h fun s s' hs hf => addMessage_unsaved hlaw hnow hs hf
  | clear =>
    refine inMemory_tracked h fun s s' hs hf => ?_
    obtain rfl := Option.some.inj hf
    exact clear_unsaved hnow hs
  | truncateTurns n =>
    refine inMemory_tracked h fun s s' hs hf => ?_
    obtain rfl := Option.some.inj hf
    exact truncateTurns_unsaved hnow n hs
  | save =>
    obtain ⟨session, hcache, hs, hfile⟩ := h
    rw [Act.good, hcache, Option.all_some, Bool.and_eq_true] at hgood
    have hcached : Outcome (· = w) (cached key) (fun held v => v = w ∧ held = some session)
        (Tracked host m key) := by
      rintro v rfl
      exact ⟨rfl, hcache⟩
    apply hcached.bind
    intro held
    cases held with
    | none =>
      rintro v ⟨-, h⟩
      cases h
    | some s =>
      rintro v ⟨rfl, hsame⟩
      obtain rfl := Option.some.inj hsame
      have hsave := (save_tracked hlaw hcache hs hfile hgood.1 hgood.2).weaken
        (fun _ _ hk => hk.tracked) fun _ hu => hu
      have hrun : Outcome (· = v) (do
          let _ ← m.save host s
          return () : Run Unit) (fun _ => Tracked host m key) (Tracked host m key) :=
        hsave.bind fun _ => outcome_pure fun _ hu => hu
      exact hrun v rfl
  | rename title clientId =>
    rw [Act.good, Bool.or_eq_true, List.isEmpty_iff] at hgood
    refine (rename_tracked title clientId h (hgood.imp_right fun hall content hmem => ?_)).bind
      fun _ => outcome_pure fun _ hu => hu
    rw [hmem] at hall
    exact hall
  | claim clientId =>
    exact (claim_tracked hlaw hnow clientId h hgood).bind fun _ => outcome_pure fun _ hu => hu

theorem step_tracked (hlaw : host.Lawful) {v : World} {e : Edit} (h : Tracked host m key w)
    (hgood : e.good m host key w ∧ IsDate host.fromIso e.now)
    (hstep : step m host key w e = some v) : Tracked host m key v := by
  cases hstep
  have hact := act_tracked (hlaw.at e.now) hgood.2 e.act h hgood.1
  exact hact.behind rfl

/-- **Opening.** The session of `get_or_create` is as it is stored. -/
theorem getOrCreate_tracked (hlaw : host.Lawful) (hnow : IsDate host.fromIso host.now)
    (clientId workspace : Option Text) (hnew : w.cache key = none)
    (hstart : m.Unwritten key (legacyPath host key) w.tree ∨
      workspace = none ∧ ∃ old rows, Written host.fromIso m key old rows w.tree) :
    Outcome (· = w) (m.getOrCreate host key clientId workspace) (fun _ => Tracked host m key)
      (fun _ => True) := by
  unfold getOrCreate
  have hcached : Outcome (· = w) (cached key) (fun held v => v = w ∧ held = none)
      (fun _ => True) := by
    rintro v rfl
    exact ⟨rfl, hnew⟩
  apply hcached.bind
  intro held
  have hfind : Outcome (fun v => v = w ∧ held = none) (m.findSession host key held)
      (fun found v => ∀ session, withWorkspace host (found.getD (newSession host key clientId))
        workspace = some session → Sound host.fromIso key session ∧
          OnFile host m key session v.tree) (fun _ => True) := by
    rintro v ⟨rfl, rfl⟩
    rcases hstart with hnone | ⟨rfl, old, rows, hold⟩
    · refine ((load_unwritten (C := fun _ => True)).pre ?_ |>.weaken ?_ fun _ _ => trivial) v rfl
      · rintro u rfl
        exact ⟨trivial, hnone⟩
      · rintro found u ⟨⟨-, hu⟩, rfl⟩ session hsession
        have hsound := newSession_sound hnow clientId workspace hsession
        exact ⟨hsound.1, Or.inl ⟨hu, hsound.2⟩⟩
    · have hfile : m.HasFile key (fileText (lineOf old) rows) v := hold.file
      obtain ⟨loaded, hread, hmsgs, hsaved, hloaded, hsound⟩ :=
        readSession_fileText hlaw hnow hold.line hold.rows
      have hrun : m.findSession host key none v = (.ok (some loaded), v) :=
        (load_there hfile).trans (by rw [hread])
      rw [hrun]
      intro session hsession
      obtain rfl : loaded = session := Option.some.inj hsession
      exact ⟨hsound, Or.inr ⟨rows, ⟨old, hold, hloaded.symm⟩, hsaved⟩⟩
  apply hfind.bind
  intro found
  apply (authorize_reads _ found clientId).weaken (fun _ _ h => h) (fun _ _ => trivial) |>.bind
  intro _
  apply (raising_outcome _).weaken (fun _ _ h => h) (fun _ _ => trivial) |>.bind
  rintro session v ⟨hall, hsession⟩
  obtain ⟨hsound, hfile⟩ := hall session hsession
  exact ⟨session, if_pos rfl, hsound, hfile⟩

/-- **The round trip.** -/
theorem save_reloads (host : Host) (hlaw : host.Lawful) (m : SessionManager) (key : Text)
    (clientId workspace : Option Text) (w₀ : World) (hnow : IsDate host.fromIso host.now)
    (hnew : w₀.cache key = none)
    (hstart : m.Unwritten key (legacyPath host key) w₀.tree ∨
      workspace = none ∧ ∃ old rows, Written host.fromIso m key old rows w₀.tree)
    (hopen : (m.getOrCreate host key clientId workspace w₀).1.isOk = true)
    (edits : List Edit) (now : Text)
    (hdates : ∀ e ∈ edits ++ [⟨now, .save⟩], IsDate host.fromIso e.now)
    (hgood : Steps.GoodRun (step m host key) (Edit.good m host key)
      (m.getOrCreate host key clientId workspace w₀).2 (edits ++ [⟨now, .save⟩]))
    (w : World) (hrun : Steps.run (step m host key)
      (m.getOrCreate host key clientId workspace w₀).2 edits = some w)
    (held : Session) (hheld : w.cache key = some held)
    (hsaved : (m.save (host.at now) held w).1.isOk = true) :
    Reloads m (host.at now) key held (m.save (host.at now) held w).2 := by
  have hopened : Tracked host m key (m.getOrCreate host key clientId workspace w₀).2 := by
    have hget := getOrCreate_tracked hlaw hnow clientId workspace hnew hstart w₀ rfl
    rcases hres : m.getOrCreate host key clientId workspace w₀ with ⟨e | session, v⟩
    · rw [hres] at hopen
      cases hopen
    · rw [hres] at hget
      exact hget
  have hgood' := Steps.goodRun_and (step m host key) (Edit.good m host key)
    (fun e => IsDate host.fromIso e.now) _ _ hgood hdates
  obtain ⟨hbefore, hlast, -⟩ := (Steps.goodRun_append (step m host key) _ _ w edits
    [⟨now, .save⟩] hrun).mp hgood'
  have htracked : Tracked host m key w :=
    Steps.goodRun_invariant (step m host key) _ (Tracked host m key)
      (fun _ _ _ h hg hs => step_tracked hlaw h hg hs) _ w edits hopened hrun hbefore
  obtain ⟨session, hcache, hs, hfile⟩ := htracked
  obtain rfl := Option.some.inj (hheld.symm.trans hcache)
  obtain ⟨hgood, hdate⟩ := hlast
  rw [Edit.good, Act.good, hheld, Option.all_some, Bool.and_eq_true] at hgood
  have hsave := save_tracked (hlaw.at now) hcache hs hfile hgood.1 hgood.2 w rfl
  rcases hres : m.save (host.at now) held w with ⟨e | kept, v⟩
  · rw [hres] at hsaved
    cases hsaved
  · rw [hres] at hsave
    exact hsave.reloads (hlaw.at now) hdate

end Runs

/-! ## A conversation -/

/-- The still host, with the integers of `int` where it reads a natural number. -/
def plainHost : Host := { stillHost with
  toInt := fun
    | .num n => some (n.text.foldl (fun acc c => 10 * acc + (c.toNat - 48)) 0 : Nat)
    | _ => none }

theorem plainHost_lawful : plainHost.Lawful := by
  have hiso : ∀ s d, plainHost.fromIso s = some d → d = s ∧ s = plainHost.now := by
    intro s d h
    change (if s = plainHost.now then some s else none) = some d at h
    split at h
    case isTrue hs => exact ⟨(Option.some.inj h).symm, hs⟩
    case isFalse => cases h
  refine ⟨fun s d h => ?_, fun s d d' h hd => ?_, fun n => rfl⟩
  · rw [(hiso s d h).1, (hiso s d h).2]
    decide
  · cases hd
    rw [(hiso s d h).1, (hiso s d h).2]
    decide

/-- A workspace without sessions. -/
def emptyWorld : World where
  tree := fun p => if p <+: appHome.sessionsDir then some .dir else none
  cache := fun _ => none

def noKwargs : Kwargs := ⟨[], ⟨List.nodup_nil, trivial⟩, rfl⟩

def atNow (act : Act) : Edit := ⟨plainHost.now, act⟩

/-- The world behind the edits of a new session. -/
def worldAfter (edits : List Edit) : World :=
  edits.foldl (fun w e => (e.act.run appHome (plainHost.at e.now) bareRequest.sessionKey w).2)
    (appHome.getOrCreate plainHost bareRequest.sessionKey (some bareRequest.clientId) none
      emptyWorld).2

def greeting : List Edit :=
  [atNow (.add "user".toList "hello".toList noKwargs), atNow .save,
    atNow (.rename "First".toList none), atNow (.add "assistant".toList "hi".toList noKwargs)]

/-- The session in memory behind the edits. -/
def heldAfter (edits : List Edit) : Session :=
  ((worldAfter edits).cache bareRequest.sessionKey).getD
    (newSession plainHost bareRequest.sessionKey none)

instance (m : SessionManager) (host : Host) (key : Text) (w : World) (e : Edit) :
    Decidable (Edit.good m host key w e) :=
  inferInstanceAs (Decidable (_ = true))

theorem greeting_reloads : Reloads appHome (plainHost.at plainHost.now) bareRequest.sessionKey
    (heldAfter greeting) (appHome.save (plainHost.at plainHost.now) (heldAfter greeting)
      (worldAfter greeting)).2 := by
  have hstart : appHome.Unwritten bareRequest.sessionKey
      (legacyPath plainHost bareRequest.sessionKey) emptyWorld.tree := by
    refine ⟨?_, Or.inl ?_, Or.inl ?_⟩
    · decide
    · decide
    · decide
  have hheld : ((worldAfter greeting).cache bareRequest.sessionKey).isSome = true := by
    decide +kernel
  obtain ⟨held, hheld⟩ := Option.isSome_iff_exists.mp hheld
  refine save_reloads plainHost plainHost_lawful appHome bareRequest.sessionKey
    (some bareRequest.clientId) none emptyWorld ?_ rfl (Or.inl hstart) ?_ greeting plainHost.now
    ?_ ?_ (worldAfter greeting) (Steps.run_total _ (fun _ _ => rfl) _ _) (heldAfter greeting) ?_ ?_
  · rfl
  · decide
  · intro e he
    simp only [greeting, atNow, List.cons_append, List.nil_append, List.mem_cons,
      List.not_mem_nil, or_false] at he
    rcases he with rfl | rfl | rfl | rfl | rfl
    all_goals rfl
  · decide +kernel
  · rw [heldAfter, hheld]
    rfl
  · decide +kernel

/-- The texts of the messages. -/
def contents (messages : List Dict) : List Text :=
  messages.filterMap fun data => match data.lookup "content".toList with
    | some (.str text) => some text
    | _ => none

/-- The texts in memory behind the edits, and those that a fresh load gives. -/
def reloaded (edits : List Edit) : List Text × Option (List Text) :=
  (contents (heldAfter edits).messages,
    match (appHome.load plainHost bareRequest.sessionKey true (worldAfter edits)).1 with
    | .ok (some session) => some (contents session.messages)
    | _ => none)

/-- A message added behind `clear`, and one with a line separator. -/
theorem save_not_reloaded :
    reloaded [atNow (.add "user".toList "one".toList noKwargs), atNow .save, atNow .clear,
        atNow (.add "user".toList "two".toList noKwargs), atNow .save] =
      (["two".toList], some ["one".toList]) ∧
    reloaded [atNow (.add "user".toList "a\u2028b".toList noKwargs), atNow .save,
        atNow (.add "user".toList "c".toList noKwargs), atNow .save] =
      (["a\u2028b".toList, "c".toList], none) := by
  constructor
  · decide +kernel
  · decide +kernel

end MiqroForge.Sessions
