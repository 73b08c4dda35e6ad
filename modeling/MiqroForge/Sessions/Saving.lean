import MiqroForge.Sessions.Rows

/-!
The operations of a manager on a conversation file that is there: what they leave of it when
they return and when they raise.
-/

namespace MiqroForge.Sessions

open PyText FileTree Calls

/-! ## A conversation file that is there -/

namespace SessionManager

section There
variable (host : Host) (m : SessionManager) (key content : Text)

def HasFile (w : World) : Prop := w.tree (m.getSessionPath key) = some (.file content)

variable {host m key content}

theorem onDisk_ok {α : Type} {op : Op OwnershipError α} {w : World} {a : α} {t : Tree}
    (h : op w.tree = .ok a t) : onDisk op w = (.ok a, { w with tree := t }) := by
  unfold onDisk
  rw [h]

theorem onDisk_fault {α : Type} {op : Op OwnershipError α} {w : World} {fault : Fault} {t : Tree}
    (h : op w.tree = .error (.inl fault) t) :
    onDisk op w = (.error (.os fault), { w with tree := t }) := by
  unfold onDisk
  rw [h]

theorem onDisk_bind {α β : Type} (x : Op OwnershipError α) (f : α → Op OwnershipError β) :
    onDisk (x >>= f) = onDisk x >>= fun a => onDisk (f a) := by
  funext w
  have hrun := bind_run x f w.tree
  cases hx : x w.tree with
  | ok a t =>
    rw [bind_of_ok _ (onDisk_ok hx), onDisk, onDisk, hrun, hx]
  | error e t =>
    cases e with
    | inl fault =>
      rw [bind_of_error _ (onDisk_fault hx), onDisk, hrun, hx]
    | inr error =>
      have hleft : onDisk x w = (.error (.ownership error), { w with tree := t }) := by
        rw [onDisk, hx]
      rw [bind_of_error _ hleft, onDisk, hrun, hx]

theorem onDisk_keeps {α : Type} {op : Op OwnershipError α} {P : World → Prop}
    (h : ∀ w, P w → P { w with tree := after op w.tree }) :
    Outcome P (onDisk op) (fun _ => P) P := by
  intro w hw
  have hafter := h w hw
  unfold after at hafter
  unfold onDisk
  cases hop : op w.tree with
  | ok a t =>
    rw [hop] at hafter
    exact hafter
  | error e t =>
    rw [hop] at hafter
    cases e with
    | inl fault => exact hafter
    | inr error => exact hafter

theorem raising_outcome {α : Type} (o : Option α) {P : World → Prop} :
    Outcome P (raising o) (fun a w => P w ∧ o = some a) P := by
  cases o with
  | none => exact outcome_throw fun _ h => h
  | some a => exact outcome_pure fun _ h => ⟨h, rfl⟩

theorem migrate_there {t : Tree} (h : t (m.getSessionPath key) = some (.file content)) :
    m.migrateFlatToDir key t = .ok () t := by
  show (if (t (m.getFlatSessionPath key)).isSome && !(t (m.getSessionPath key)).isSome then do
      mkdirs (m.getSessionDir key)
      move (m.getFlatSessionPath key) (m.getSessionPath key)
    else return () : Op OwnershipError Unit) t = _
  rw [h, Option.isSome_some, Bool.not_true, Bool.and_false]
  rfl

theorem migrate_keeps : Outcome (HasFile m key content) (onDisk (m.migrateFlatToDir key))
    (fun _ => HasFile m key content) (HasFile m key content) := by
  apply onDisk_keeps
  intro w hw
  have hrun := migrate_there hw
  unfold after
  rw [hrun]
  exact hw

theorem mkdirs_keeps (p : Path) : Outcome (HasFile m key content) (onDisk (mkdirs p))
    (fun _ => HasFile m key content) (HasFile m key content) :=
  onDisk_keeps fun _ hw => mkdirs_keeps_file hw

theorem load_there {w : World} (h : HasFile m key content w) :
    m.load host key true w = (.ok (readSession host key content), w) := by
  have hmigrate : when true (onDisk (m.migrateFlatToDir key)) w = (.ok (), w) :=
    onDisk_ok (migrate_there h)
  have htree : getTree w = (.ok w.tree, w) := rfl
  have hskip : when (true && (w.tree (m.getSessionPath key)).isNone &&
      (w.tree (legacyPath host key)).isSome) (m.migrateLegacy host key) w = (.ok (), w) := by
    rw [h]
    rfl
  unfold load
  rw [bind_of_ok _ hmigrate, bind_of_ok _ htree, bind_of_ok _ hskip, bind_of_ok _ htree, h]
  show (Except.ok ((textOf (w.tree (m.getSessionPath key))).bind (readSession host key)), w) = _
  rw [h]
  rfl

theorem findSession_there (c : Option Session) :
    Outcome (fun w => HasFile m key content w ∧ w.cache key = c) (m.findSession host key c)
      (fun found w => (HasFile m key content w ∧ w.cache key = c) ∧
        found = c.or (readSession host key content)) (HasFile m key content) := by
  cases c with
  | none => exact outcome_of_run fun w hw => ⟨_, w, load_there hw.1, hw, rfl⟩
  | some session => exact outcome_pure fun w hw => ⟨hw, rfl⟩

section Reading
variable {P : World → Prop}

theorem checkOwner_reads (owner : Option Json.Value) (clientId : Text) :
    Outcome P (checkOwner owner clientId) (fun _ => P) P := by
  unfold checkOwner
  cases owner with
  | none => exact outcome_throw fun _ h => h
  | some owner =>
    simp only
    split
    · exact outcome_pure fun _ h => h
    · exact outcome_throw fun _ h => h

theorem raising_reads {α : Type} (o : Option α) :
    Outcome P (raising o) (fun _ => P) P :=
  (raising_outcome o).weaken (fun _ _ h => h.1) fun _ h => h

/-- The owner that counts for a change of the session on disk. -/
def ownerAt (m : SessionManager) (key : Text) (t : Tree) : Option Json.Value :=
  (textOf (t (m.getSessionPath key))).bind fun content => ownerOfLines (fileLines content)

theorem readOwner_run (t : Tree) : m.readOwner key t = .ok (m.ownerAt key t) t := by
  unfold readOwner ownerAt textOf
  rw [get_bind]
  rcases t (m.getSessionPath key) with _ | _ | content
  · rfl
  · rfl
  · rfl

theorem readOwner_reads : Outcome P (onDisk (m.readOwner key))
    (fun owner w => P w ∧ owner = m.ownerAt key w.tree) P := by
  apply outcome_of_run
  intro w hw
  exact ⟨_, w, onDisk_ok (readOwner_run w.tree), hw, rfl⟩

/-- The check of a client passes if nothing is in the place of the file, or if the owner on disk is
the client. -/
def Admits (m : SessionManager) (key : Text) (clientId : Option Text) (t : Tree) : Prop :=
  ∀ client ∈ clientId, t (m.getSessionPath key) = none ∨
    m.ownerAt key t = some (.str client)

variable (m key) in
theorem verify_cases (clientId : Option Text) (t : Tree) :
    (m.verifyOwnership key clientId t = .ok () t ∧ m.Admits key clientId t) ∨
      ∃ e, m.verifyOwnership key clientId t = .error (.inr e) t := by
  cases clientId with
  | none =>
    refine Or.inl ⟨rfl, fun client h => ?_⟩
    cases h
  | some client =>
    have hthere : (pathExists (m.getSessionPath key) : Op OwnershipError Bool) t =
        .ok (t (m.getSessionPath key)).isSome t := rfl
    unfold verifyOwnership
    dsimp only
    rw [bind_run, hthere]
    dsimp only
    split
    case isFalse h =>
      refine Or.inl ⟨rfl, fun c _ => Or.inl ?_⟩
      exact Option.not_isSome_iff_eq_none.mp h
    case isTrue =>
      have hbind : ∀ f : Option Json.Value → Op OwnershipError Unit,
          (m.readOwner key >>= f) t = f (m.ownerAt key t) t := by
        intro f
        rw [bind_run, readOwner_run]
      rw [hbind]
      cases howner : m.ownerAt key t with
      | none => exact Or.inr ⟨_, rfl⟩
      | some v =>
        cases v with
        | str name =>
          by_cases hname : name = client
          · subst hname
            refine Or.inl ⟨?_, fun c hc => Or.inr ?_⟩
            · show (if name = name then return ()
                else throw (.inr .unauthorized) : Op OwnershipError Unit) t = _
              rw [if_pos rfl]
              rfl
            · cases hc
              exact howner
          · refine Or.inr ⟨.unauthorized, ?_⟩
            show (if name = client then return ()
              else throw (.inr .unauthorized) : Op OwnershipError Unit) t = _
            rw [if_neg hname]
            rfl
        | null => exact Or.inr ⟨_, rfl⟩
        | bool b => exact Or.inr ⟨_, rfl⟩
        | num n => exact Or.inr ⟨_, rfl⟩
        | arr xs => exact Or.inr ⟨_, rfl⟩
        | obj fields => exact Or.inr ⟨_, rfl⟩

theorem verify_reads (clientId : Option Text) :
    Outcome P (onDisk (m.verifyOwnership key clientId))
      (fun _ w => P w ∧ m.Admits key clientId w.tree) P := by
  intro w hw
  rcases m.verify_cases key clientId w.tree with ⟨hrun, hadmits⟩ | ⟨e, hrun⟩
  · rw [onDisk_ok hrun]
    exact ⟨hw, hadmits⟩
  · have herr : onDisk (m.verifyOwnership key clientId) w = (.error (.ownership e), w) := by
      unfold onDisk
      rw [hrun]
    rw [herr]
    exact hw

theorem currentOwner_reads (inCache : Bool) (session : Session) :
    Outcome P (m.currentOwner key inCache session) (fun _ => P) P := by
  unfold currentOwner
  split
  · apply (readOwner_reads.weaken (fun _ _ h => h.1) fun _ h => h).bind
    intro owner
    apply (onDisk_keeps fun _ hw => hw).bind
    intro there
    split
    · exact raising_reads _
    · exact outcome_pure fun _ h => h
  · exact raising_reads _

theorem authorize_reads (inCache : Bool) (found : Option Session) (clientId : Option Text) :
    Outcome P (m.authorize key inCache found clientId) (fun _ => P) P := by
  cases found with
  | none => exact outcome_pure fun _ h => h
  | some session =>
    cases clientId with
    | none => exact outcome_pure fun _ h => h
    | some client =>
      apply (currentOwner_reads inCache session).bind
      intro owner
      exact checkOwner_reads owner client

end Reading

theorem getOrCreate_there (c : Option Session) (clientId workspace : Option Text) :
    Outcome (fun w => HasFile m key content w ∧ w.cache key = c)
      (m.getOrCreate host key clientId workspace)
      (fun session w => (HasFile m key content w ∧ w.cache key = some session) ∧
        withWorkspace host ((c.or (readSession host key content)).getD
          (newSession host key clientId)) workspace = some session)
      (HasFile m key content) := by
  have hcached : Outcome (fun w => HasFile m key content w ∧ w.cache key = c) (cached key)
      (fun inCache w => (HasFile m key content w ∧ w.cache key = c) ∧ inCache = c)
      (HasFile m key content) := fun w hw => ⟨hw, hw.2⟩
  apply hcached.bind
  intro inCache
  apply Outcome.bind (R := fun found w => (HasFile m key content w ∧ w.cache key = c) ∧
    inCache = c ∧ found = c.or (readSession host key content))
  · intro w hw
    obtain ⟨hw, rfl⟩ := hw
    exact (findSession_there inCache).weaken (fun _ _ h => ⟨h.1, rfl, h.2⟩) (fun _ h => h) w hw
  intro found
  apply Outcome.bind (authorize_reads _ _ _ |>.weaken (fun _ _ h => h) fun _ h => h.1.1)
  intro _
  apply Outcome.bind (raising_outcome _ |>.weaken (fun _ _ h => h) fun _ h => h.1.1)
  intro session
  apply Outcome.bind (R := fun _ w => (HasFile m key content w ∧ w.cache key = some session) ∧
    withWorkspace host ((c.or (readSession host key content)).getD
      (newSession host key clientId)) workspace = some session)
  · apply outcome_update
    rintro w ⟨⟨⟨hfile, -⟩, -, rfl⟩, hws⟩
    exact ⟨⟨hfile, if_pos rfl⟩, hws⟩
  · intro _
    exact outcome_pure fun _ h => h

theorem getOrCreate_keeps (clientId workspace : Option Text) :
    Outcome (HasFile m key content) (m.getOrCreate host key clientId workspace)
      (fun _ => HasFile m key content) (HasFile m key content) := fun w hw =>
  ((getOrCreate_there (w.cache key) clientId workspace).weaken (fun _ _ h => h.1.1)
    fun _ h => h) w ⟨hw, rfl⟩

end There

end SessionManager

open SessionManager

/-! ## What a save leaves -/

/-- The rows that compaction keeps. -/
def recentRows (rows : List Dict) : List Dict :=
  rows.drop (rows.length - compactKeepMessages)

/-- A stored session whose metadata line can be made. -/
structure Saveable (key : Text) (session : Session) : Prop extends Stored key session where
  owner : (getField session.metadata ownerField).isSome

section Sessions
variable {host : Host} {key content : Text} {session session' : Session}

theorem withWorkspace_stored {workspace : Option Text} (h : Stored key session)
    (hws : withWorkspace host session workspace = some session') :
    Stored key session' ∧ session'.messages = session.messages := by
  cases workspace with
  | none =>
    cases hws
    exact ⟨h, rfl⟩
  | some workspace =>
    simp only [withWorkspace, Option.bind_eq_bind, Option.bind_eq_some_iff,
      Option.some.injEq] at hws
    obtain ⟨path, -, metadata, hmeta, rfl⟩ := hws
    have hstr : Json.WellFormed (.str (host.pathText path)) := trivial
    exact ⟨⟨h.key_eq, h.rows, h.saved, setItem_wellFormed h.metadata hstr hmeta⟩, rfl⟩

theorem sync_spec (h : syncUpdatedAt host session = some session') :
    ∃ updatedAt, session' = { session with updatedAt } := by
  obtain ⟨latest, -, rfl⟩ := Option.map_eq_some_iff.mp h
  exact ⟨_, rfl⟩

theorem shouldRewrite_owner {b : Bool} (h : Stored key session)
    (hb : shouldRewrite host session (some (.file content)) = some b) :
    Saveable key session := by
  refine ⟨h, ?_⟩
  unfold shouldRewrite at hb
  rw [h.saved] at hb
  simp only [Option.isNone_some, Nat.lt_irrefl, decide_false, Bool.or_self, Bool.false_eq_true,
    if_false, Option.bind_eq_bind] at hb
  obtain ⟨owner, howner, -⟩ := Option.bind_eq_some_iff.mp hb
  rw [howner]
  rfl

theorem Saveable.line (h : Saveable key session) :
    ∃ line, metadataLine session = some line := by
  obtain ⟨owner, howner⟩ := Option.isSome_iff_exists.mp h.owner
  exact ⟨_, by rw [metadataLine, howner]; rfl⟩

theorem compacted_spec (session : Session) :
    (compacted session).messages = recentRows session.messages ∧
      (compacted session).savedCount = (recentRows session.messages).length ∧
      (compacted session).key = session.key ∧
      (compacted session).metadata = session.metadata := by
  simp only [compacted, recentRows, and_self]

theorem Saveable.compacted (h : Saveable key session) :
    Saveable key (compacted session) ∧
      (compacted session).messages = recentRows session.messages := by
  obtain ⟨hmsgs, hsaved, hkey, hmeta⟩ := compacted_spec session
  refine ⟨⟨⟨hkey.trans h.key_eq, fun data hdata => ?_, by rw [hmsgs, hsaved], ?_⟩, ?_⟩, hmsgs⟩
  · rw [hmsgs] at hdata
    exact h.rows data (List.mem_of_mem_drop hdata)
  · rw [hmeta]
    exact h.metadata
  · rw [hmeta]
    exact h.owner

theorem Stored.sync (h : Stored key session)
    (hs : syncUpdatedAt host session = some session') :
    Stored key session' ∧ session'.messages = session.messages := by
  obtain ⟨updatedAt, rfl⟩ := sync_spec hs
  exact ⟨⟨h.key_eq, h.rows, h.saved, h.metadata⟩, rfl⟩

theorem Saveable.sync (h : Saveable key session)
    (hs : syncUpdatedAt host session = some session') :
    Saveable key session' ∧ session'.messages = session.messages := by
  obtain ⟨hstored, hmsgs⟩ := h.toStored.sync hs
  obtain ⟨updatedAt, rfl⟩ := sync_spec hs
  exact ⟨⟨hstored, h.owner⟩, hmsgs⟩

end Sessions

namespace SessionManager

section There
variable {host : Host} {m : SessionManager} {key content : Text} {session : Session}

/-- The rows are the last ones of the conversation file. -/
def Holds (m : SessionManager) (key : Text) (rows : List Dict) (w : World) : Prop :=
  ∃ text, HasFile m key text w ∧ rows <:+ rowsOf text

theorem writeText_there (text : Text) :
    Outcome (HasFile m key content) (onDisk (writeText (m.getSessionPath key) text))
      (fun _ => HasFile m key text) (HasFile m key content) := by
  intro w hw
  have hrun := writeText_run (ε := OwnershipError) (m.getSessionPath key) text w.tree
  have hfile : isDir w.tree (m.getSessionPath key) = false := by
    rw [isDir, hw]
    rfl
  rw [hfile, if_neg Bool.false_ne_true] at hrun
  by_cases hparent : isDir w.tree (m.getSessionPath key).dropLast = true
  · rw [if_pos hparent] at hrun
    rw [onDisk_ok hrun]
    simp only [HasFile, setNode_self]
  · rw [if_neg hparent] at hrun
    rw [onDisk_fault hrun]
    exact hw

theorem writeSession_there (hs : Saveable key session) :
    Outcome (HasFile m key content) (m.writeSession session)
      (fun _ w => ∃ text, HasFile m key text w ∧ rowsOf text = session.messages ∧
        (metadataLine session).map (fileText · session.messages) = some text)
      (HasFile m key content) := by
  obtain ⟨line, hline⟩ := hs.line
  obtain ⟨hwell, hmeta⟩ := metadataLine_spec hs.metadata hline
  unfold writeSession
  rw [hline, hs.key_eq]
  refine (writeText_there _).weaken (fun _ w h => ⟨_, h, ?_, rfl⟩) fun _ h => h
  exact rowsOf_fileText hwell hmeta hs.rows

theorem getTree_outcome {P : World → Prop} {E : World → Prop} :
    Outcome P getTree (fun t w => P w ∧ w.tree = t) E := fun _ hw => ⟨hw, rfl⟩

theorem compact_there (hs : Saveable key session) (hrows : rowsOf content = session.messages) :
    Outcome (fun w => HasFile m key content w ∧ w.cache key = some session) (m.compact host key)
      (fun _ => Holds m key (recentRows session.messages))
      (Holds m key (recentRows session.messages)) := by
  have hold : ∀ w, HasFile m key content w → Holds m key (recentRows session.messages) w :=
    fun w hw => ⟨content, hw, hrows ▸ List.drop_suffix _ _⟩
  apply getTree_outcome.bind
  intro t
  split
  case isTrue hnone =>
    apply outcome_pure
    exact fun w hw => hold w hw.1.1
  case isFalse =>
    have hget : Outcome (fun w => (HasFile m key content w ∧ w.cache key = some session) ∧
        w.tree = t) (m.getOrCreate host key none none)
        (fun s w => HasFile m key content w ∧ s = session)
        (Holds m key (recentRows session.messages)) := by
      refine ((getOrCreate_there (some session) none none).pre fun _ hw => hw.1).weaken
        (fun s w h => ⟨h.1.1, ?_⟩) hold
      exact (Option.some.inj h.2).symm
    apply hget.bind
    intro s
    have hsync : Outcome (fun w => HasFile m key content w ∧ s = session)
        (raising (syncUpdatedAt host (compacted s)))
        (fun last w => HasFile m key content w ∧ Saveable key last ∧
          last.messages = recentRows session.messages)
        (Holds m key (recentRows session.messages)) := by
      refine (raising_outcome _).weaken (fun last w h => ⟨h.1.1, ?_⟩) fun w h => hold w h.1
      obtain ⟨⟨-, rfl⟩, hlast⟩ := h
      obtain ⟨hsave, hmsgs⟩ := hs.compacted
      rw [← hmsgs]
      exact hsave.sync hlast
    apply hsync.bind
    intro last w hw
    obtain ⟨hfile, hsave, hmsgs⟩ := hw
    have hwrite : Outcome (HasFile m key content) (m.writeSession last)
        (fun _ => Holds m key (recentRows session.messages))
        (Holds m key (recentRows session.messages)) := by
      refine (writeSession_there hsave).weaken (fun _ w h => ?_) hold
      obtain ⟨text, htext, hnew, -⟩ := h
      exact ⟨text, htext, by rw [hnew, hmsgs]⟩
    refine hwrite.bind (fun _ => ?_) w hfile
    apply Outcome.bind (R := fun _ => Holds m key (recentRows session.messages))
    · exact outcome_update fun _ h => h
    · exact fun _ => outcome_pure fun _ h => h

/-- All rows are held, or the recent ones where the file may be compacted. -/
def Kept (m : SessionManager) (key : Text) (rows : List Dict) (small : Prop) (w : World) : Prop :=
  Holds m key rows w ∨ (¬ small ∧ Holds m key (recentRows rows) w)

theorem compactIfNeeded_there (hs : Saveable key session) (hrows : rowsOf content = session.messages)
    {small : Prop} (hsmall : small → isSmall session.messages content = true) :
    Outcome (fun w => HasFile m key content w ∧ w.cache key = some session)
      (m.compactIfNeeded host key) (fun _ => Kept m key session.messages small)
      (Kept m key session.messages small) := by
  have hold : ∀ w, HasFile m key content w → Kept m key session.messages small w :=
    fun w hw => Or.inl ⟨content, hw, hrows ▸ List.suffix_rfl⟩
  have hget : Outcome (fun w => HasFile m key content w ∧ w.cache key = some session)
      (m.getOrCreate host key none none)
      (fun s w => (HasFile m key content w ∧ w.cache key = some session) ∧ s = session)
      (Kept m key session.messages small) := by
    refine (getOrCreate_there (some session) none none).weaken (fun s w h => ?_) hold
    obtain ⟨⟨hfile, hcache⟩, hws⟩ := h
    obtain rfl : session = s := Option.some.inj hws
    exact ⟨⟨hfile, hcache⟩, rfl⟩
  apply hget.bind
  intro s
  apply getTree_outcome.bind
  rintro t w ⟨⟨⟨hfile, hcache⟩, rfl⟩, rfl⟩
  have hthere : w.tree (m.getSessionPath key) = some (.file content) := hfile
  simp only [hthere, Option.isNone_some, Bool.false_eq_true, if_false, textOf, Option.getD_some]
  cases hcase : isSmall s.messages content with
  | true => exact hold w hfile
  | false =>
    have hnot : ¬ small := by
      intro h
      rw [hsmall h] at hcase
      cases hcase
    exact ((compact_there hs hrows).weaken (fun _ _ h => Or.inr ⟨hnot, h⟩)
      fun _ h => Or.inr ⟨hnot, h⟩) w ⟨hfile, hcache⟩

/-- The text `save` leaves before it compacts. -/
def savedText (host : Host) (session : Session) (content : Text) : Option Text := do
  let session ← syncUpdatedAt host session
  let rewrite ← shouldRewrite host session (some (.file content))
  if rewrite then (metadataLine session).map (fileText · session.messages) else some content

theorem persisted_spec {session' : Session} (hs : Saveable key session)
    (h : persisted session = some session') :
    Saveable key session' ∧ session'.messages = session.messages := by
  simp only [persisted, Option.bind_eq_bind, Option.bind_eq_some_iff, Option.some.injEq] at h
  obtain ⟨workspace, -, rfl⟩ := h
  exact ⟨⟨⟨hs.key_eq, hs.rows, rfl, hs.metadata⟩, hs.owner⟩, rfl⟩

theorem persist_there (hs : Saveable key session) (hrows : rowsOf content = session.messages)
    (rewrite : Bool) :
    Outcome (HasFile m key content) (m.persist session rewrite)
      (fun s w => ∃ text, HasFile m key text w ∧ rowsOf text = session.messages ∧
        Saveable key s ∧ s.messages = session.messages ∧
        (if rewrite then (metadataLine session).map (fileText · session.messages)
          else some content) = some text)
      (Holds m key session.messages) := by
  have hold : ∀ w, HasFile m key content w → Holds m key session.messages w :=
    fun w hw => ⟨content, hw, hrows ▸ List.suffix_rfl⟩
  unfold persist
  cases rewrite with
  | false =>
    have hnone : (session.messages.drop session.savedCount).isEmpty = true := by
      rw [hs.saved, List.drop_length]
      rfl
    rw [hnone]
    exact outcome_pure fun w hw => ⟨content, hw, hrows, hs, rfl, rfl⟩
  | true =>
    apply ((writeSession_there hs).weaken (fun _ _ h => h) hold).bind
    intro _
    refine (raising_outcome (persisted session)).weaken (fun s w h => ?_) fun w h => ?_
    · obtain ⟨⟨text, hfile, hnew, htext⟩, hs'⟩ := h
      obtain ⟨hsave, hmsgs⟩ := persisted_spec hs hs'
      exact ⟨text, hfile, hnew, hsave, hmsgs, htext⟩
    · obtain ⟨text, hfile, hnew, -⟩ := h
      exact ⟨text, hfile, hnew ▸ List.suffix_rfl⟩

/-- **Saving a stored session.** Its rows stay, the older ones as long as the file is small. -/
theorem save_there (hs : Stored key session) (hrows : rowsOf content = session.messages)
    {small : Prop} (hsmall : small → ∀ text, savedText host session content = some text →
      isSmall session.messages text = true) :
    Outcome (HasFile m key content) (m.save host session)
      (fun _ => Kept m key session.messages small) (Kept m key session.messages small) := by
  have hold : ∀ w, HasFile m key content w → Kept m key session.messages small w :=
    fun w hw => Or.inl ⟨content, hw, hrows ▸ List.suffix_rfl⟩
  unfold save
  rw [hs.key_eq]
  apply (migrate_keeps.weaken (fun _ _ h => h) hold).bind
  intro _
  apply ((mkdirs_keeps _).weaken (fun _ _ h => h) hold).bind
  intro _
  apply ((raising_outcome (syncUpdatedAt host session)).weaken (fun _ _ h => h) hold).bind
  intro s
  apply getTree_outcome.bind
  intro t w hw
  obtain ⟨⟨hfile, hsync⟩, rfl⟩ := hw
  have hthere : w.tree (m.getSessionPath key) = some (.file content) := hfile
  obtain ⟨hs', hmsgs⟩ := hs.sync hsync
  rw [hs'.key_eq, hthere, ← hmsgs]
  have hdecide : Outcome (HasFile m key content)
      (raising (shouldRewrite host s (some (.file content))))
      (fun rewrite w => HasFile m key content w ∧
        shouldRewrite host s (some (.file content)) = some rewrite)
      (Kept m key s.messages small) :=
    (raising_outcome _).weaken (fun _ _ h => h) (hmsgs ▸ hold)
  refine (hdecide.bind fun rewrite w hw => ?_) w hfile
  obtain ⟨hfile, hrewrite⟩ := hw
  have hsave := shouldRewrite_owner hs' hrewrite
  refine (((persist_there hsave (hrows.trans hmsgs.symm) rewrite).weaken (fun _ _ h => h)
    fun _ h => Or.inl h).bind fun s' w hw => ?_) w hfile
  obtain ⟨text, hfile, hnew, hsave', hmsgs', htext⟩ := hw
  have hsaved : savedText host session content = some text := by
    rw [savedText, hsync]
    show (shouldRewrite host s (some (.file content))).bind _ = _
    rw [hrewrite]
    exact htext
  rw [hsave'.key_eq]
  have hset : Outcome (HasFile m key text) (setCache key (some s'))
      (fun _ w => HasFile m key text w ∧ w.cache key = some s')
      (Kept m key s.messages small) :=
    outcome_update fun w hw => ⟨hw, if_pos rfl⟩
  refine (hset.bind fun _ => ?_) w hfile
  have hcompact : Outcome (fun w => HasFile m key text w ∧ w.cache key = some s')
      (m.compactIfNeeded host key) (fun _ => Kept m key s.messages small)
      (Kept m key s.messages small) := by
    rw [← hmsgs']
    refine compactIfNeeded_there hsave' (hnew.trans hmsgs'.symm) fun h => ?_
    rw [hmsgs', hmsgs]
    exact hsmall h text hsaved
  apply hcompact.bind
  intro _
  have hcached : Outcome (Kept m key s.messages small) (cached key)
      (fun _ => Kept m key s.messages small) (Kept m key s.messages small) :=
    fun w hw => hw
  apply hcached.bind
  exact fun _ => outcome_pure fun _ h => h

theorem getOrCreate_kept {rows : List Dict} {small : Prop} (clientId workspace : Option Text) :
    Outcome (Kept m key rows small) (m.getOrCreate host key clientId workspace)
      (fun _ => Kept m key rows small) (Kept m key rows small) := by
  rintro w (⟨text, hfile, hrows⟩ | ⟨hbig, text, hfile, hrows⟩)
  · exact (getOrCreate_keeps clientId workspace).weaken (fun _ _ h => Or.inl ⟨text, h, hrows⟩)
      (fun _ h => Or.inl ⟨text, h, hrows⟩) w hfile
  · exact (getOrCreate_keeps clientId workspace).weaken
      (fun _ _ h => Or.inr ⟨hbig, text, h, hrows⟩)
      (fun _ h => Or.inr ⟨hbig, text, h, hrows⟩) w hfile

end There

end SessionManager

end MiqroForge.Sessions
