import MiqroForge.Library.Steps
import MiqroForge.Sessions.Mutations
import MiqroForge.Sessions.Opening

/-!
Clients that share the sessions of a process: `get_or_create`, `claim_session`, `save`, `delete`,
`archive`, `rename` and `truncate` on a session that may be stored in its directory, in the flat
file or in the legacy file, through managers that share the disk and have a cache each.

* `foreign_calls_keep`: in a run whose calls find the session in its directory, and whose bare
  saves are made by the owner, the data of a session stays as long as its owner makes no call,
  and that of an unowned session until it is claimed.
-/

namespace MiqroForge.Sessions

open PyText FileTree Calls SessionManager

/-! ## Calls of clients -/

/-- The managers of a process: they share the disk, and each has its own cache. -/
structure Process where
  tree : Tree
  caches : Nat → Text → Option Session

namespace Process

def world (s : Process) (i : Nat) : World := ⟨s.tree, s.caches i⟩

/-- The process behind a program of manager `i`, whether it raises or not. -/
def after {α : Type} (s : Process) (i : Nat) (p : Run α) : Process where
  tree := (p (s.world i)).2.tree
  caches := fun j => if j = i then (p (s.world i)).2.cache else s.caches j

end Process

/-- A call on one session. `save` takes a session that the client holds; `saveMessage` gets the
session, adds a message and saves it. -/
inductive Call where
  | getOrCreate (workspace : Option Text)
  | claim
  | save (session : Session)
  | saveMessage (role content : Text) (kwargs : Dict)
  | delete
  | archive
  | rename (title : Text)
  | truncate (dropLastTurns : Int)

/-- A call of a client through one of the managers. -/
structure Request where
  manager : Nat
  now : Text
  clientId : Text
  call : Call

def Call.run (m : SessionManager) (host : Host) (key clientId : Text) : Call → Run Unit
  | .getOrCreate workspace => do
    let _ ← m.getOrCreate host key (some clientId) workspace
    return ()
  | .claim => do
    let _ ← m.claimSession host key clientId
    return ()
  | .save session => do
    let _ ← m.save host { session with key }
    return ()
  | .saveMessage role content kwargs => m.saveMessage host key clientId role content kwargs
  | .delete => do
    let _ ← m.deleteSession key clientId
    return ()
  | .archive => m.archiveSession key clientId
  | .rename title => do
    let _ ← m.rename host key title (some clientId)
    return ()
  | .truncate n => do
    let _ ← m.truncate host key n (some clientId)
    return ()

def Request.step (m : SessionManager) (host : Host) (key : Text) (s : Process) (r : Request) :
    Option Process :=
  some (s.after r.manager (r.call.run m { host with now := r.now } key r.clientId))

/-! ## What is stored -/

section Stored
variable (host : Host) (m : SessionManager) (key : Text) (t : Tree)

/-- The conversation file of the session, in its directory or else in the flat or the legacy
place. -/
def storedText : Option Text :=
  (textOf (t (m.getSessionPath key))).or ((textOf (t (m.getFlatSessionPath key))).or
    (textOf (t (legacyPath host key))))

/-- The data of the session: its conversation, and whether it is archived. -/
def storedData : Option Text × Bool := (storedText host m key t, (t (m.archivedMarker key)).isSome)

/-- The stored owner: the one on the first metadata line. -/
def storedOwner (content : Text) : Option Json.Value :=
  ownerOfLines (fileLines content)

end Stored

def Call.isClaim : Call → Bool
  | .claim => true
  | _ => false

/-- The client may change a session with this content: it is the owner, or claims it. -/
def Request.permitted (r : Request) (content : Text) : Bool :=
  match storedOwner content with
  | some owner => ownedBy r.clientId owner
  | none => r.call.isClaim

/-! ## When the owner is asked -/

/-- `_load` reads the file, and a client that is the owner for it is the stored owner. -/
def readable (host : Host) (key clientId content : Text) : Bool :=
  (readSession host key content).any fun session =>
    (getField session.metadata ownerField).all fun owner =>
      !owner.any (ownedBy clientId) || (storedOwner content).any (ownedBy clientId)

/-- A directory is in none of the places of the session. -/
def noDirs (host : Host) (m : SessionManager) (key : Text) (t : Tree) : Bool :=
  !isDir t (m.getSessionPath key) && !isDir t (m.getFlatSessionPath key) &&
    !isDir t (legacyPath host key)

/-- A stored session is in its directory. -/
def inDirectory (host : Host) (m : SessionManager) (key : Text) (t : Tree) : Bool :=
  (storedText host m key t).isNone || (textOf (t (m.getSessionPath key))).isSome

def Request.good (m : SessionManager) (host : Host) (key : Text) (s : Process) (r : Request) :
    Bool :=
  match r.call with
  | .getOrCreate _ => noDirs host m key s.tree
  | .save _ => (storedText host m key s.tree).all fun content =>
    (storedOwner content).any (ownedBy r.clientId)
  | .saveMessage _ _ _ => inDirectory host m key s.tree && ((s.caches r.manager key).isSome ||
    (storedText host m key s.tree).all (readable { host with now := r.now } key r.clientId))
  | _ => inDirectory host m key s.tree

/-! ## Moves keep the data -/

theorem textOf_mkdirs (d p : Path) (t : Tree) :
    textOf (after (mkdirs d : Op OwnershipError Unit) t p) = textOf (t p) := by
  unfold after
  rw [mkdirs_run]
  split_ifs with hfile habove
  · rfl
  · rfl
  · show textOf (if p <+: d then some Node.dir else t p) = _
    split
    case isFalse => rfl
    case isTrue hp =>
      have hno : isFile t p = false := by
        have hall := List.any_eq_false.mp (Bool.not_eq_true _ ▸ habove) p
          ((List.mem_inits p d).mpr hp)
        exact Bool.not_eq_true _ ▸ hall
      unfold isFile at hno
      rcases hcase : t p with _ | _ | content
      · rfl
      · rfl
      · rw [hcase] at hno
        cases hno

/-- A directory in the place of the flat or the legacy file is above the session. -/
def Placed (host : Host) (m : SessionManager) (key : Text) (t : Tree) : Prop :=
  t (m.getSessionPath key) = none →
    ∀ p ∈ [m.getFlatSessionPath key, legacyPath host key],
      isDir t p = true → p <+: m.getSessionDir key

/-- The tree holds the data `d`. -/
structure DataIs (host : Host) (m : SessionManager) (key : Text) (d : Option Text × Bool)
    (t : Tree) : Prop where
  data : storedData host m key t = d
  placed : Placed host m key t

/-- The data, while nothing is in the place of the conversation. -/
structure Absent (host : Host) (m : SessionManager) (key : Text) (d : Option Text × Bool)
    (flat : Option Text) (t : Tree) : Prop extends DataIs host m key d t where
  none : t (m.getSessionPath key) = none
  flat : textOf (t (m.getFlatSessionPath key)) = flat

/-- What holds of the tree. -/
def OnTree (P : Tree → Prop) (w : World) : Prop := P w.tree

section Moves
variable {host : Host} {m : SessionManager} {key : Text} {d : Option Text × Bool} {t : Tree}

theorem after_mkdirs_other {p q : Path} (h : ¬ q <+: p) :
    after (mkdirs p : Op OwnershipError Unit) t q = t q := by
  unfold after
  rw [mkdirs_run]
  split_ifs
  · rfl
  · rfl
  · exact if_neg h

theorem DataIs.mkdirs (h : DataIs host m key d t) :
    DataIs host m key d (after (mkdirs (m.getSessionDir key) : Op OwnershipError Unit) t) := by
  have hmarker : ¬ m.archivedMarker key <+: m.getSessionDir key :=
    not_child_prefix (m.getSessionDir key) _
  have hpath : ¬ m.getSessionPath key <+: m.getSessionDir key :=
    not_child_prefix (m.getSessionDir key) _
  constructor
  · rw [← h.data, storedData, storedData, storedText, storedText, textOf_mkdirs, textOf_mkdirs,
      textOf_mkdirs, after_mkdirs_other hmarker]
  · intro hnone p hp hdir
    rw [after_mkdirs_other hpath] at hnone
    by_cases habove : p <+: m.getSessionDir key
    · exact habove
    · rw [isDir, after_mkdirs_other habove] at hdir
      exact h.placed hnone p hp hdir

theorem last_jsonl (name : Text) (dir dir' : Path) :
    dir ++ [name ++ ".jsonl".toList] ≠ dir' ++ [".archived".toList] := by
  intro h
  have hlast : (dir ++ [name ++ ".jsonl".toList]).getLast? = some (name ++ ".jsonl".toList) :=
    List.getLast?_concat
  rw [h, List.getLast?_concat, Option.some.injEq] at hlast
  have hend : (name ++ ".jsonl".toList).getLast? = some 'l' := by
    rw [List.getLast?_append]
    rfl
  rw [← hlast] at hend
  exact absurd hend (by decide)

/-- **Moving a file** to the place of the conversation keeps the data. -/
theorem move_keeps {dir : Path} {name : Text} (h : DataIs host m key d t)
    (hnone : t (m.getSessionPath key) = none) (hp : dir ++ [name ++ ".jsonl".toList] ∈
      [m.getFlatSessionPath key, legacyPath host key])
    (htext : ∀ content, t (dir ++ [name ++ ".jsonl".toList]) = some (.file content) →
      storedText host m key t = some content) :
    DataIs host m key d (after (move (dir ++ [name ++ ".jsonl".toList]) (m.getSessionPath key) :
      Op OwnershipError Unit) t) := by
  unfold after
  rw [move_run]
  split_ifs with hsrc habove hdst hparent
  · exact h
  · exact h
  · exact h
  · have hfile : ∃ content, t (dir ++ [name ++ ".jsonl".toList]) = some (.file content) := by
      rcases hcase : t (dir ++ [name ++ ".jsonl".toList]) with _ | _ | content
      · rw [hcase] at hsrc
        exact absurd rfl hsrc
      · have hdir : isDir t (dir ++ [name ++ ".jsonl".toList]) = true := by
          rw [isDir, hcase]
          rfl
        exact absurd ((h.placed hnone _ hp hdir).trans (List.prefix_append _ _)) habove
      · exact ⟨content, rfl⟩
    obtain ⟨content, hfile⟩ := hfile
    have hmarker : ¬ m.getSessionPath key <+: m.archivedMarker key := by
      intro hpre
      have heq : m.getSessionPath key = m.archivedMarker key := hpre.eq_of_length (by
        rw [getSessionPath, archivedMarker, List.length_append,
          List.length_append]
        rfl)
      have hlast := List.append_cancel_left heq
      exact absurd hlast (by decide)
    have hsource : ¬ dir ++ [name ++ ".jsonl".toList] <+: m.archivedMarker key := by
      intro hpre
      rcases prefix_concat_cases hpre with heq | hpre
      · exact last_jsonl name dir _ heq
      · exact habove (hpre.trans (List.prefix_append _ _))
    have hpath : (if dir ++ [name ++ ".jsonl".toList] <+: m.getSessionPath key then none
        else if m.getSessionPath key <+: m.getSessionPath key then
          t ((dir ++ [name ++ ".jsonl".toList]) ++
            (m.getSessionPath key).drop (m.getSessionPath key).length)
        else t (m.getSessionPath key)) = some (.file content) := by
      rw [if_neg habove, if_pos List.prefix_rfl, List.drop_length, List.append_nil, hfile]
    constructor
    · rw [← h.data, storedData, storedData, htext content hfile, storedText]
      simp only [hpath, if_neg hsource, if_neg hmarker]
      rfl
    · intro hgone
      cases hpath.symm.trans hgone
  · exact h

theorem mkdirs_data {flat : Option Text} :
    Outcome (OnTree (Absent host m key d flat)) (onDisk (mkdirs (m.getSessionDir key)))
      (fun _ => OnTree (Absent host m key d flat)) (OnTree (DataIs host m key d)) := by
  have hpath : ¬ m.getSessionPath key <+: m.getSessionDir key :=
    not_child_prefix (m.getSessionDir key) _
  have hkeep : Outcome (OnTree (Absent host m key d flat))
      (onDisk (mkdirs (m.getSessionDir key)))
      (fun _ => OnTree (Absent host m key d flat)) (OnTree (Absent host m key d flat)) := by
    apply onDisk_keeps
    intro w hw
    exact ⟨hw.toDataIs.mkdirs, (after_mkdirs_other hpath).trans hw.none,
      (textOf_mkdirs _ _ _).trans hw.flat⟩
  exact hkeep.weaken (fun _ _ h => h) fun _ h => h.toDataIs

theorem move_data {P : Tree → Prop} {dir : Path} {name : Text}
    (hp : dir ++ [name ++ ".jsonl".toList] ∈
      [m.getFlatSessionPath key, legacyPath host key])
    (hP : ∀ t, P t → DataIs host m key d t ∧ t (m.getSessionPath key) = none ∧
      ∀ content, t (dir ++ [name ++ ".jsonl".toList]) = some (.file content) →
        storedText host m key t = some content) :
    Outcome (OnTree P) (onDisk (move (dir ++ [name ++ ".jsonl".toList]) (m.getSessionPath key)))
      (fun _ => OnTree fun t => DataIs host m key d t ∧ t (m.getSessionPath key) ≠ none)
      (OnTree (DataIs host m key d)) := by
  intro w hw
  obtain ⟨hdata, hnone, htext⟩ := hP w.tree hw
  have hkeep := move_keeps hdata hnone hp htext
  unfold after at hkeep
  cases hrun : (move (dir ++ [name ++ ".jsonl".toList]) (m.getSessionPath key) :
      Op OwnershipError Unit) w.tree with
  | ok u t =>
    rw [hrun] at hkeep
    rw [onDisk_ok hrun]
    obtain ⟨hdst, hsrc⟩ := move_ok hrun
    refine ⟨hkeep, ?_⟩
    show t (m.getSessionPath key) ≠ none
    rw [hdst]
    exact hsrc
  | error e t =>
    rw [hrun] at hkeep
    unfold onDisk
    rw [hrun]
    cases e with
    | inl fault => exact hkeep
    | inr error => exact hkeep

theorem migrate_data :
    Outcome (OnTree (DataIs host m key d)) (onDisk (m.migrateFlatToDir key))
      (fun _ => OnTree fun t => DataIs host m key d t ∧
        (t (m.getSessionPath key) = none → t (m.getFlatSessionPath key) = none))
      (OnTree (DataIs host m key d)) := by
  intro w hw
  have hrun : onDisk (m.migrateFlatToDir key) w = onDisk (if
      (w.tree (m.getFlatSessionPath key)).isSome && !(w.tree (m.getSessionPath key)).isSome then do
        mkdirs (m.getSessionDir key)
        move (m.getFlatSessionPath key) (m.getSessionPath key)
      else return () : Op OwnershipError Unit) w := rfl
  rw [hrun]
  by_cases hcond : ((w.tree (m.getFlatSessionPath key)).isSome &&
      !(w.tree (m.getSessionPath key)).isSome) = true
  · rw [if_pos hcond, onDisk_bind]
    rw [Bool.and_eq_true, Bool.not_eq_true', Option.isSome_eq_false_iff,
      Option.isNone_iff_eq_none] at hcond
    refine (mkdirs_data.bind fun _ => ?_) w ⟨hw, hcond.2, rfl⟩
    have hmove : Outcome (OnTree (Absent host m key d (textOf (w.tree (m.getFlatSessionPath key)))))
        (onDisk (move (m.getFlatSessionPath key) (m.getSessionPath key))) _ _ :=
      move_data List.mem_cons_self fun t ht => ⟨ht.toDataIs, ht.none, fun content hfile => by
        have hflat : t (m.getFlatSessionPath key) = some (.file content) := hfile
        rw [storedText, ht.none, hflat]
        rfl⟩
    exact hmove.weaken (fun _ _ h => ⟨h.1, fun hnone => absurd hnone h.2⟩) fun _ h => h
  · rw [if_neg hcond]
    refine ⟨hw, fun hnone => ?_⟩
    rw [Bool.and_eq_true, not_and, Bool.not_eq_true', hnone] at hcond
    by_contra hflat
    exact hcond (Option.isSome_iff_ne_none.mpr hflat) rfl

theorem migrateLegacy_data :
    Outcome (OnTree (Absent host m key d none)) (m.migrateLegacy host key)
      (fun _ => OnTree (DataIs host m key d)) (OnTree (DataIs host m key d)) := by
  have hmove : Outcome (OnTree (Absent host m key d none))
      (onDisk (move (legacyPath host key) (m.getSessionPath key))) _ _ :=
    move_data (List.mem_cons_of_mem _ List.mem_cons_self) fun t ht =>
      ⟨ht.toDataIs, ht.none, fun content hfile => by
        have hlegacy : t (legacyPath host key) = some (.file content) := hfile
        rw [storedText, ht.none, ht.flat, hlegacy]
        rfl⟩
  have hbody : Outcome (OnTree (Absent host m key d none)) (do
      onDisk (mkdirs (m.getSessionDir key))
      onDisk (move (legacyPath host key) (m.getSessionPath key)))
      (fun _ => OnTree (DataIs host m key d)) (OnTree (DataIs host m key d)) :=
    mkdirs_data.bind fun _ => hmove.weaken (fun _ _ h => h.1) fun _ h => h
  exact hbody.tryCatch fun _ => outcome_pure fun _ h => h

theorem load_data : Outcome (OnTree (DataIs host m key d)) (m.load host key true)
    (fun _ => OnTree (DataIs host m key d)) (OnTree (DataIs host m key d)) := by
  unfold load
  apply Outcome.bind (R := fun _ => OnTree fun t => DataIs host m key d t ∧
    (t (m.getSessionPath key) = none → t (m.getFlatSessionPath key) = none))
  · exact migrate_data
  intro _
  apply getTree_outcome.bind
  rintro t w ⟨⟨hdata, hflat⟩, rfl⟩
  have hlegacy : Outcome (· = w) (when (true && (w.tree (m.getSessionPath key)).isNone &&
      (w.tree (legacyPath host key)).isSome) (m.migrateLegacy host key))
      (fun _ => OnTree (DataIs host m key d)) (OnTree (DataIs host m key d)) := by
    unfold when
    split
    case isTrue hcond =>
      rw [Bool.true_and, Bool.and_eq_true, Option.isNone_iff_eq_none] at hcond
      refine migrateLegacy_data.pre fun v hv => ?_
      rw [hv]
      refine ⟨hdata, hcond.1, ?_⟩
      rw [hflat hcond.1]
      rfl
    case isFalse =>
      refine outcome_pure fun v hv => ?_
      rw [hv]
      exact hdata
  refine (hlegacy.bind fun _ => ?_) w rfl
  apply getTree_outcome.bind
  exact fun _ => outcome_pure fun _ h => h.1

/-- **Opening.** Whoever opens a session, its data stays. -/
theorem getOrCreate_data (clientId workspace : Option Text) :
    Outcome (OnTree (DataIs host m key d)) (m.getOrCreate host key clientId workspace)
      (fun _ => OnTree (DataIs host m key d)) (OnTree (DataIs host m key d)) := by
  unfold getOrCreate
  apply Outcome.bind (R := fun _ => OnTree (DataIs host m key d))
  · exact fun _ hw => hw
  intro inCache
  apply Outcome.bind (R := fun _ => OnTree (DataIs host m key d))
  · cases inCache with
    | none => exact load_data
    | some session => exact outcome_pure fun _ hw => hw
  intro found
  apply (authorize_reads _ found clientId).bind
  intro _
  apply (raising_reads _).bind
  intro session
  apply Outcome.bind (R := fun _ => OnTree (DataIs host m key d))
  · exact outcome_update fun _ hw => hw
  · exact fun _ => outcome_pure fun _ hw => hw

end Moves

/-! ## Calls of other clients -/

section Denied
variable {host : Host} {m : SessionManager} {key clientId content : Text} {w : World}

/-- The client is not the stored owner. -/
def Foreign (clientId content : Text) : Prop :=
  (storedOwner content).any (ownedBy clientId) = false

theorem ownerAt_file (hfile : m.HasFile key content w) :
    m.ownerAt key w.tree = storedOwner content := by
  have hthere : w.tree (m.getSessionPath key) = some (.file content) := hfile
  rw [ownerAt, hthere]
  rfl

theorem verify_denied (hfile : m.HasFile key content w) (hforeign : Foreign clientId content) :
    ∃ e, m.verifyOwnership key (some clientId) w.tree = .error (.inr e) w.tree := by
  rcases m.verify_cases key (some clientId) w.tree with ⟨-, hadmits⟩ | herr
  · exfalso
    rcases hadmits clientId rfl with hnone | howner
    · cases hnone.symm.trans hfile
    · rw [ownerAt_file hfile] at howner
      rw [Foreign, howner, Option.any_some, ownedBy, beq_self_eq_true] at hforeign
      cases hforeign
  · exact herr

theorem verified_denied {α : Type} (hfile : m.HasFile key content w)
    (hforeign : Foreign clientId content) (p : Run α) :
    Outcome (· = w) (do
      onDisk (m.verifyOwnership key (some clientId))
      p) (fun _ _ => False) (· = w) := by
  rintro v rfl
  obtain ⟨e, hrun⟩ := verify_denied hfile hforeign
  have herr : onDisk (m.verifyOwnership key (some clientId)) v = (.error (.ownership e), v) := by
    rw [onDisk, hrun]
  rw [bind_of_error _ herr]

theorem archive_denied (hfile : m.HasFile key content w) (hforeign : Foreign clientId content) :
    Outcome (· = w) (onDisk (m.archive key (some clientId))) (fun _ _ => False) (· = w) := by
  unfold archive
  rw [onDisk_bind]
  exact verified_denied hfile hforeign _

theorem checkOwner_denied {owner : Option Json.Value}
    (howner : owner.any (ownedBy clientId) = false) :
    Outcome (· = w) (checkOwner owner clientId) (fun _ _ => False) (· = w) := by
  cases owner with
  | none => exact outcome_throw fun _ h => h
  | some owner =>
    rw [Option.any_some] at howner
    rw [checkOwner, howner]
    exact outcome_throw fun _ h => h

theorem cachedOwner_there (hfile : m.HasFile key content w) (session : Session) :
    m.cachedOwner key session w = (.ok (storedOwner content), w) := by
  have howner : onDisk (m.readOwner key) w = (.ok (storedOwner content), w) := by
    rw [← ownerAt_file hfile]
    exact onDisk_ok (readOwner_run w.tree)
  have hthere : onDisk (pathExists (m.getSessionPath key)) w = (.ok true, w) := by
    apply onDisk_ok
    show EStateM.Result.ok (w.tree (m.getSessionPath key)).isSome w.tree = _
    rw [show w.tree (m.getSessionPath key) = some (.file content) from hfile]
    rfl
  unfold cachedOwner
  rw [bind_of_ok _ howner, bind_of_ok _ hthere, Bool.not_true, Bool.and_false]
  rfl

/-- **Opening by another client** fails where the session is in the cache or can be read. -/
theorem getOrCreate_denied (hfile : m.HasFile key content w) (hforeign : Foreign clientId content)
    (hknown : (w.cache key).isSome = true ∨ readable host key clientId content = true)
    (workspace : Option Text) :
    Outcome (· = w) (m.getOrCreate host key (some clientId) workspace) (fun _ _ => False)
      (· = w) := by
  have hcached : cached key w = (.ok (w.cache key), w) := rfl
  have hauth : ∃ found, m.findSession host key (w.cache key) w = (.ok found, w) ∧
      Outcome (· = w) (m.authorize key (w.cache key).isSome found (some clientId))
        (fun _ _ => False) (· = w) := by
    cases hcache : w.cache key with
    | some session =>
      refine ⟨some session, rfl, ?_⟩
      have howner : Outcome (· = w) (m.currentOwner key (some session).isSome session)
          (fun owner v => v = w ∧ owner = storedOwner content) (· = w) := by
        rintro v rfl
        have hrun : m.currentOwner key (some session).isSome session v =
            (.ok (storedOwner content), v) := cachedOwner_there hfile session
        rw [hrun]
        exact ⟨rfl, rfl⟩
      refine howner.bind fun owner => ?_
      rintro v ⟨rfl, rfl⟩
      exact checkOwner_denied hforeign v rfl
    | none =>
      have hread : readable host key clientId content = true := by
        rcases hknown with h | h
        · rw [hcache] at h
          cases h
        · exact h
      obtain ⟨session, hsession, hagree⟩ := (Option.any_eq_true _ _).mp hread
      refine ⟨some session, ?_, ?_⟩
      · rw [← hsession]
        exact load_there hfile
      · have howner : Outcome (· = w) (m.currentOwner key (none : Option Session).isSome session)
            (fun owner v => v = w ∧ owner.any (ownedBy clientId) = false) (· = w) := by
          refine (raising_outcome (getField session.metadata ownerField)).weaken
            (fun owner v h => ⟨h.1, ?_⟩) fun _ h => h
          rw [h.2, Option.all_some, hforeign, Bool.or_false, Bool.not_eq_true'] at hagree
          exact hagree
        refine howner.bind fun owner => ?_
        rintro v ⟨rfl, hno⟩
        exact checkOwner_denied hno v rfl
  obtain ⟨found, hfind, hdenied⟩ := hauth
  rintro v rfl
  unfold getOrCreate
  rw [bind_of_ok _ hcached, bind_of_ok _ hfind]
  exact hdenied.bind (fun _ _ h => h.elim) v rfl

theorem claim_denied (hfile : m.HasFile key content w) {owner : Json.Value}
    (howner : storedOwner content = some owner) (hforeign : ownedBy clientId owner = false) :
    Outcome (· = w) (m.claimSession host key clientId) (fun _ _ => False) (· = w) := by
  have hread : Outcome (· = w) (onDisk (m.readOwner key)) (fun o v => v = w ∧ o = some owner)
      (· = w) := by
    refine readOwner_reads.weaken (fun o v h => ⟨h.1, ?_⟩) fun _ h => h
    rw [h.2, h.1, ownerAt_file hfile, howner]
  unfold claimSession
  refine hread.bind fun o => ?_
  cases o with
  | none =>
    rintro v ⟨-, h⟩
    cases h
  | some o =>
    simp only
    split
    case isTrue hown =>
      rintro v ⟨-, h⟩
      rw [Option.some.inj h, hforeign] at hown
      cases hown
    case isFalse => exact outcome_throw fun v h => h.1

end Denied

/-! ## Runs -/

section Runs
variable {host : Host} {m : SessionManager} {key content : Text} {s s' : Process} {r : Request}

theorem after_tree {i : Nat} {p : Run Unit}
    (h : Outcome (· = s.world i) p (fun _ v => v.tree = s.tree) (fun v => v.tree = s.tree)) :
    (s.after i p).tree = s.tree :=
  Outcome.behind (P := (· = s.world i)) (R := fun v => v.tree = s.tree) h rfl

/-- **Step.** A call of a client that may not change the session keeps its data. -/
theorem step_keeps (hstored : storedText host m key s.tree = some content)
    (hgood : r.good m host key s = true) (hforeign : r.permitted content = false)
    (hstep : r.step m host key s = some s') :
    storedData host m key s'.tree = storedData host m key s.tree := by
  cases hstep
  have hother : Foreign r.clientId content := by
    rw [Request.permitted] at hforeign
    unfold Foreign
    cases howner : storedOwner content with
    | none => rfl
    | some owner =>
      rw [howner] at hforeign
      exact hforeign
  have hplace : inDirectory host m key s.tree = true →
      m.HasFile key content (s.world r.manager) := by
    intro h
    rw [inDirectory, hstored, Option.isNone_some, Bool.false_or] at h
    obtain ⟨text, htext⟩ := Option.isSome_iff_exists.mp h
    rw [storedText, htext, Option.some_or, Option.some.injEq] at hstored
    unfold textOf at htext
    split at htext
    case h_1 text' hnode =>
      cases htext
      rw [← hstored]
      exact hnode
    case h_2 => cases htext
  have hsame : ∀ p : Run Unit, Outcome (· = s.world r.manager) p (fun _ _ => False)
      (· = s.world r.manager) → (s.after r.manager p).tree = s.tree := by
    intro p hp
    refine after_tree (hp.weaken (fun _ _ h => h.elim) fun v hv => ?_)
    rw [hv]
    rfl
  have hdenied : ∀ p : Run Unit, Outcome (· = s.world r.manager) p (fun _ _ => False)
      (· = s.world r.manager) → storedData host m key (s.after r.manager p).tree =
        storedData host m key s.tree := fun p hp => by rw [hsame p hp]
  have hdrop : ∀ {α : Type} {p : Run α}, Outcome (· = s.world r.manager) p (fun _ _ => False)
      (· = s.world r.manager) → ∀ f : α → Run Unit,
        Outcome (· = s.world r.manager) (p >>= f) (fun _ _ => False) (· = s.world r.manager) :=
    fun hp f => hp.bind fun _ _ h => h.elim
  unfold Request.good at hgood
  cases hcall : r.call with
  | getOrCreate workspace =>
    rw [hcall] at hgood
    have hdirs : noDirs host m key s.tree = true := hgood
    rw [noDirs, Bool.and_eq_true, Bool.and_eq_true, Bool.not_eq_true', Bool.not_eq_true',
      Bool.not_eq_true'] at hdirs
    have hdata : DataIs { host with now := r.now } m key (storedData host m key s.tree)
        s.tree := by
      refine ⟨rfl, fun _ p hp hdir => ?_⟩
      rcases List.mem_cons.mp hp with rfl | hp
      · rw [hdirs.1.2] at hdir
        cases hdir
      · have hlegacy : isDir s.tree p = false := List.mem_singleton.mp hp ▸ hdirs.2
        rw [hlegacy] at hdir
        cases hdir
    have hopen : Outcome (· = s.world r.manager)
        (Call.run m { host with now := r.now } key r.clientId (.getOrCreate workspace))
        (fun _ => OnTree (DataIs { host with now := r.now } m key (storedData host m key s.tree)))
        (OnTree (DataIs { host with now := r.now } m key (storedData host m key s.tree))) := by
      refine ((getOrCreate_data (some r.clientId) workspace).pre fun v hv => ?_).bind
        fun _ => outcome_pure fun _ h => h
      rw [hv]
      exact hdata
    exact (hopen.behind rfl).data
  | claim =>
    rw [hcall] at hgood
    rw [Request.permitted, hcall] at hforeign
    cases howner : storedOwner content with
    | none =>
      rw [howner] at hforeign
      cases hforeign
    | some owner =>
      rw [howner] at hforeign
      exact hdenied _ (hdrop (claim_denied (hplace hgood) howner hforeign) _)
  | save session =>
    rw [hcall, hstored, Option.all_some, hother] at hgood
    cases hgood
  | saveMessage role text kwargs =>
    rw [hcall, Bool.and_eq_true, Bool.or_eq_true, hstored, Option.all_some] at hgood
    exact hdenied _ (hdrop (getOrCreate_denied (hplace hgood.1) hother hgood.2 none) _)
  | delete =>
    rw [hcall] at hgood
    exact hdenied _ (hdrop (verified_denied (hplace hgood) hother _) _)
  | archive =>
    rw [hcall] at hgood
    exact hdenied _ (hdrop (archive_denied (hplace hgood) hother) _)
  | rename title =>
    rw [hcall] at hgood
    exact hdenied _ (hdrop (verified_denied (hplace hgood) hother _) _)
  | truncate n =>
    rw [hcall] at hgood
    exact hdenied _ (hdrop (verified_denied (hplace hgood) hother _) _)

/-- **Ownership.** In a run of good calls the data of a session stays along every stretch in which
no call may change it. -/
theorem foreign_calls_keep (host : Host) (m : SessionManager) (key : Text) (s₀ : Process)
    (requests before during after : List Request)
    (hgood : Steps.GoodRun (Request.step m host key)
      (fun s r => r.good m host key s = true) s₀ requests)
    (hsplit : requests = before ++ (during ++ after)) (s t : Process)
    (hs : Steps.run (Request.step m host key) s₀ before = some s)
    (ht : Steps.run (Request.step m host key) s during = some t) (content : Text)
    (hstored : storedText host m key s.tree = some content)
    (hforeign : ∀ r ∈ during, r.permitted content = false) :
    storedData host m key t.tree = storedData host m key s.tree := by
  rw [hsplit, Steps.goodRun_append _ _ _ s _ _ hs, Steps.goodRun_append _ _ _ t _ _ ht] at hgood
  have hgood' := Steps.goodRun_and _ _ (fun r => r.permitted content = false) _ _ hgood.2.1
    hforeign
  refine Steps.goodRun_invariant _ _
    (fun u => storedData host m key u.tree = storedData host m key s.tree)
    (fun u r u' hu hr hstep => ?_) s t during rfl ht hgood'
  have htext : storedText host m key u.tree = some content :=
    (congrArg Prod.fst hu).trans hstored
  exact (step_keeps htext hr.1 hr.2 hstep).trans hu

end Runs

/-! ## Two clients -/

/-- A process that finds the disk as it is. -/
def freshProcess (t : Tree) : Process := ⟨t, fun _ _ => none⟩

/-- A call of a client that owns nothing here. -/
def stranger (call : Call) : Request := ⟨0, stillHost.now, ['d'], call⟩

/-- The process behind the requests, which find the disk `t`. -/
def processAfter (t : Tree) (requests : List Request) : Process :=
  requests.foldl (fun s r => s.after r.manager
    (r.call.run appHome { stillHost with now := r.now } bareRequest.sessionKey r.clientId))
    (freshProcess t)

def intrusion : List Request :=
  [stranger (.getOrCreate none), stranger .claim, stranger (.rename "mine".toList),
    stranger (.truncate 1), stranger .archive, stranger .delete,
    stranger (.saveMessage "user".toList "hello".toList [])]

/-- All of them fail on a session in its directory. -/
theorem intrusion_denied :
    storedData stillHost appHome bareRequest.sessionKey
        (processAfter (diskWith shortText) intrusion).tree =
      storedData stillHost appHome bareRequest.sessionKey (diskWith shortText) := by
  refine foreign_calls_keep stillHost appHome bareRequest.sessionKey
    (freshProcess (diskWith shortText)) intrusion [] intrusion [] ?_ ?_
    (freshProcess (diskWith shortText)) _ rfl (Steps.run_total _ (fun _ _ => rfl) _ _) shortText
    ?_ ?_
  · decide +kernel
  · exact (List.append_nil intrusion).symm
  · decide +kernel
  · decide +kernel

/-- The disk with one session in the flat file. -/
def flatDisk (content : Text) : Tree := fun p =>
  if p = appHome.getFlatSessionPath bareRequest.sessionKey then some (.file content)
  else if p <+: appHome.sessionsDir then some .dir
  else none

/-- The owner of the session that is stored behind the requests. -/
def ownerAfter (t : Tree) (requests : List Request) : Option Json.Value :=
  (storedText stillHost appHome bareRequest.sessionKey
    (processAfter t requests).tree).bind storedOwner

/-- The client that owns nothing deletes a session in the flat file, and takes over one whose last
row is torn. -/
theorem stranger_deletes_flat :
    (ownerAfter (flatDisk shortText) []).any (ownedBy bareRequest.clientId) = true ∧
      storedText stillHost appHome bareRequest.sessionKey
        (processAfter (flatDisk shortText) [stranger .delete]).tree = none ∧
      (ownerAfter (diskWith tornText) []).any (ownedBy bareRequest.clientId) = true ∧
      (ownerAfter (diskWith tornText)
        [stranger (.saveMessage "user".toList "hello".toList [])]).any (ownedBy ['d']) = true := by
  refine ⟨?_, ?_, ?_, ?_⟩
  · decide +kernel
  · decide
  · decide +kernel
  · decide +kernel

end MiqroForge.Sessions
