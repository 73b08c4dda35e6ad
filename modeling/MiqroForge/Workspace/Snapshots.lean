import MiqroForge.Library.Steps
import MiqroForge.Library.TextFiles
import MiqroForge.Patch.Applied

/-!
The snapshots of one file: `_maybe_snapshot` and its kind of `filesystem.py`, the tools and
`files.write` that change the file, and `files.revert` and `files.accept` of `file_handlers.py`.
-/

namespace MiqroForge.Workspace.Snapshots

open PyText TextFiles

/-! ## The file and its snapshots -/

structure Snapshot where
  content : Text
  /-- How many accepts and reverts there were when it was taken. -/
  period : Nat

/-- The last two fields are for the statement only. -/
structure State where
  /-- `none` when the file is absent. -/
  file : Option Bytes
  sessionSnapshot : Option Snapshot
  globalSnapshot : Option Snapshot
  /-- How many accepts and reverts there were. -/
  period : Nat
  /-- The file just before the first modification since the last accept or revert; `none` while
  there is no such modification. -/
  original : Option (Option Bytes)

/-- What the file system does during a call. -/
structure Effects where
  /-- The file can be read. -/
  reads : Bool
  /-- The snapshot is written. -/
  stored : Bool
  /-- What the file is left as where writing it raises; `none` when it is written. -/
  writeRaises : Option (Option Bytes)
  /-- The snapshot in the session's directory can be removed. -/
  deletesSession : Bool
  deletesGlobal : Bool

inductive Operation where
  | writeFile (content : Text)
  | editFile (oldText newText : Text)
  | applyPatch (filePatch : Patch.FilePatch)
  | filesWriteText (content : Text)
  | filesWriteBinary (data : Bytes)
  | filesRevert
  | filesAccept

structure Call where
  operation : Operation
  /-- Whether the call has a session key, and with it the snapshot directory of the session. -/
  keyed : Bool
  effects : Effects

/-- `content.count(old_text) > 1`, for a text that occurs first at a place. -/
def occursAgain (oldText content : Text) (first : Nat) : Bool :=
  if oldText = [] then !content.isEmpty
  else (find? oldText (content.drop (first + oldText.length))).isSome

/-- The edited content of `edit_file`; `none` where it answers that the text is absent or not
unique. -/
def replaceOnce (oldText newText content : Text) : Option Text :=
  match find? oldText content with
  | none => none
  | some first =>
    if occursAgain oldText content first then none
    else some (content.take first ++ newText ++ content.drop (first + oldText.length))

namespace State
variable (s : State)

def readSnapshot (keyed : Bool) : Option Snapshot :=
  if keyed then s.sessionSnapshot.or s.globalSnapshot else s.globalSnapshot

def writeSnapshotTo (keyed : Bool) (content : Text) : State :=
  if keyed then { s with sessionSnapshot := some ⟨content, s.period⟩ }
  else { s with globalSnapshot := some ⟨content, s.period⟩ }

/-- The text a snapshot of the file is taken with. -/
def content (reads : Bool) : Text :=
  match s.file with
  | some data => if reads then readTextReplace data else []
  | none => []

def maybeSnapshot (keyed : Bool) (effects : Effects) : State :=
  if (s.readSnapshot keyed).isSome then s
  else if effects.stored then s.writeSnapshotTo keyed (s.content effects.reads)
  else s

def deleteSnapshot (keyed : Bool) (effects : Effects) : State :=
  if keyed then { s with
    sessionSnapshot := if effects.deletesSession then none else s.sessionSnapshot }
  else { s with globalSnapshot := if effects.deletesGlobal then none else s.globalSnapshot }

/-- The file is changed by something other than a revert that succeeds. -/
def modify (file : Option Bytes) : State :=
  { s with file := file, original := s.original.or (some s.file) }

def write (data : Bytes) (effects : Effects) : State :=
  match effects.writeRaises with
  | none => s.modify (some data)
  | some left => s.modify left

/-- A file that was accepted or reverted counts as not modified. -/
def renew : State := { s with period := s.period + 1, original := none }

/-- The snapshot directory `files_revert_handler` goes on with. -/
def revertDir (keyed : Bool) : Option Bool :=
  if (s.readSnapshot keyed).isSome then some keyed
  else if (s.readSnapshot false).isSome then some false
  else none

section Host
variable (host : Patch.Host) (windows : Bool)

/-- `WriteFileTool.execute`, and the text branch of `files_write_handler`. -/
def writeFile (content : Text) (keyed : Bool) (effects : Effects) : State :=
  (s.maybeSnapshot keyed effects).write (writeText windows content) effects

/-- `EditFileTool.execute` -/
def editFile (oldText newText : Text) (keyed : Bool) (effects : Effects) : State :=
  match s.file with
  | none => s
  | some data =>
    let taken := s.maybeSnapshot keyed effects
    match (if effects.reads then readText data else none).bind (replaceOnce oldText newText) with
    | none => taken
    | some newContent => taken.write (writeText windows newContent) effects

/-- The text `apply_patch` starts from; `none` where reading it raises. -/
def patchOriginal (effects : Effects) : Option Text :=
  match s.file with
  | none => some []
  | some data => if effects.reads then readText data else none

/-- `_apply_one_file` of `apply_patch.py`. -/
def applyPatch (filePatch : Patch.FilePatch) (keyed : Bool) (effects : Effects) : State :=
  let taken := s.maybeSnapshot keyed effects
  match s.patchOriginal effects with
  | none => taken
  | some original =>
    match Patch.applyFilePatch host original filePatch with
    | .error _ => taken
    | .ok newContent => taken.write (writeText windows newContent) effects

/-- The file `_restore_snapshot` writes; absent where it removes it. -/
def restored (content : Text) : Option Bytes :=
  if content = [] then none else some (writeText windows content)

/-- `files_revert_handler`, with `_restore_snapshot`. -/
def filesRevert (keyed : Bool) (effects : Effects) : State :=
  match s.revertDir keyed with
  | none => s
  | some dir =>
    match s.readSnapshot dir with
    | none => s
    | some snapshot =>
      match effects.writeRaises with
      | some left => s.modify left
      | none => { s.deleteSnapshot dir effects with
          file := restored windows snapshot.content }.renew

/-- `files_accept_handler` -/
def filesAccept (keyed : Bool) (effects : Effects) : State :=
  ((s.deleteSnapshot keyed effects).deleteSnapshot false effects).renew

def act (call : Call) : State :=
  match call.operation with
  | .writeFile content => s.writeFile windows content call.keyed call.effects
  | .editFile oldText newText => s.editFile windows oldText newText call.keyed call.effects
  | .applyPatch filePatch => s.applyPatch host windows filePatch call.keyed call.effects
  | .filesWriteText content => s.writeFile windows content call.keyed call.effects
  | .filesWriteBinary data => s.write data call.effects
  | .filesRevert => s.filesRevert windows call.keyed call.effects
  | .filesAccept => s.filesAccept call.keyed call.effects

end Host

end State

/-! ## What a revert promises -/

/-- The snapshot a call goes by. -/
def used (s : State) (call : Call) : Option Snapshot :=
  match call.operation with
  | .filesWriteBinary _ => none
  | .filesAccept => none
  | .editFile _ _ => if s.file.isSome then s.readSnapshot call.keyed else none
  | _ => s.readSnapshot call.keyed

/-- The call is a revert that succeeds. -/
def Reverts (s : State) (call : Call) : Prop :=
  call.operation = .filesRevert ∧ (s.readSnapshot call.keyed).isSome ∧
    call.effects.writeRaises = none

/-- The file as it was before the first modification since the last accept or revert. -/
def State.before (s : State) : Option Bytes := s.original.getD s.file

structure Faithful (host : Patch.Host) (windows : Bool) (s : State) (call : Call) : Prop where
  /-- No snapshot from before the last accept or revert is used. -/
  current : ∀ snapshot, used s call = some snapshot → snapshot.period = s.period
  restores : Reverts s call → (s.act host windows call).file = s.before

/-! ## When it is kept -/

/-- A file whose recorded text gives back its bytes. -/
def Recordable (windows reads : Bool) : Option Bytes → Prop
  | none => True
  | some data => reads = true ∧ data ≠ [] ∧ writeText windows (readTextReplace data) = data

/-- The call takes a snapshot of the file as it is. -/
def Takes (s : State) (call : Call) : Prop :=
  s.readSnapshot call.keyed = none ∧
    match call.operation with
    | .writeFile _ | .applyPatch _ | .filesWriteText _ => True
    | .editFile _ _ => s.file.isSome
    | .filesWriteBinary _ | .filesRevert | .filesAccept => False

/-- The directory the call goes to loses its snapshot, and the other one has none. -/
def Cleared (s : State) (call : Call) : Prop :=
  if call.keyed then
    (s.sessionSnapshot = none ∨ call.effects.deletesSession = true) ∧
      (s.globalSnapshot = none ∨
        call.operation = .filesAccept ∧ call.effects.deletesGlobal = true)
  else s.sessionSnapshot = none ∧ (s.globalSnapshot = none ∨ call.effects.deletesGlobal = true)

structure Sound (windows : Bool) (s : State) (call : Call) : Prop where
  /-- A snapshot is taken before any modification, of a file it can give back. -/
  taken : Takes s call → s.original = none ∧ Recordable windows call.effects.reads s.file
  /-- An accept or a revert leaves no snapshot behind. -/
  cleared : call.operation = .filesAccept ∨ Reverts s call → Cleared s call

/-- The snapshots there are are of this period and give the file back. -/
structure Inv (windows : Bool) (s : State) : Prop where
  current : ∀ keyed snapshot, s.readSnapshot keyed = some snapshot → snapshot.period = s.period
  restores : ∀ keyed snapshot, s.readSnapshot keyed = some snapshot →
    State.restored windows snapshot.content = s.before

section Proofs
variable {host : Patch.Host} {windows : Bool}

variable {s : State}

theorem inv_of_no_snapshot (hsession : s.sessionSnapshot = none)
    (hglobal : s.globalSnapshot = none) : Inv windows s := by
  have hnone : ∀ keyed, s.readSnapshot keyed = none := by
    intro keyed
    cases keyed <;> simp [State.readSnapshot, hsession, hglobal]
  constructor <;> intro keyed snapshot h <;> rw [hnone keyed] at h <;> cases h

theorem before_modify (s : State) (file : Option Bytes) : (s.modify file).before = s.before := by
  unfold State.modify State.before
  cases s.original <;> rfl

theorem Inv.modify (h : Inv windows s) (file : Option Bytes) :
    Inv windows (s.modify file) where
  current := h.current
  restores keyed snapshot hsnapshot := by
    rw [before_modify]
    exact h.restores keyed snapshot hsnapshot

theorem Inv.write (h : Inv windows s) (data : Bytes) (effects : Effects) :
    Inv windows (s.write data effects) := by
  unfold State.write
  split
  · exact h.modify _
  · exact h.modify _

theorem restored_content {reads : Bool} (h : Recordable windows reads s.file) :
    State.restored windows (s.content reads) = s.file := by
  unfold State.content
  cases hfile : s.file with
  | none => rfl
  | some data =>
    rw [hfile] at h
    obtain ⟨rfl, hne, hsame⟩ := h
    have hcontent : readTextReplace data ≠ [] := mt (readTextReplace_eq_nil hsame).mp hne
    simp only [if_true, State.restored]
    rw [if_neg hcontent, hsame]

theorem readSnapshot_writeSnapshotTo {keyed dir : Bool} {content : Text}
    {snapshot : Snapshot} (hnone : s.readSnapshot keyed = none)
    (h : (s.writeSnapshotTo keyed content).readSnapshot dir = some snapshot) :
    snapshot = ⟨content, s.period⟩ ∨ s.readSnapshot dir = some snapshot := by
  cases keyed with
  | true =>
    cases dir with
    | true =>
      left
      simpa [State.writeSnapshotTo, State.readSnapshot] using h.symm
    | false =>
      right
      exact h
  | false =>
    have hglobal : s.globalSnapshot = none := hnone
    cases dir with
    | true =>
      cases hs : s.sessionSnapshot with
      | none =>
        left
        simpa [State.writeSnapshotTo, State.readSnapshot, hs] using h.symm
      | some old =>
        right
        simpa [State.writeSnapshotTo, State.readSnapshot, hs] using h
    | false =>
      left
      simpa [State.writeSnapshotTo, State.readSnapshot] using h.symm

theorem Inv.maybeSnapshot (h : Inv windows s) (keyed : Bool) (effects : Effects)
    (hsound : s.readSnapshot keyed = none →
      s.original = none ∧ Recordable windows effects.reads s.file) :
    Inv windows (s.maybeSnapshot keyed effects) := by
  unfold State.maybeSnapshot
  split_ifs with hsome hstored
  · exact h
  · have hnone : s.readSnapshot keyed = none := by simpa using hsome
    obtain ⟨horiginal, hrecordable⟩ := hsound hnone
    have hbefore : s.before = s.file := by rw [State.before, horiginal, Option.getD_none]
    have hrestored := restored_content hrecordable
    have hsame : ∀ content, (s.writeSnapshotTo keyed content).period = s.period ∧
        (s.writeSnapshotTo keyed content).before = s.before := by
      intro content
      cases keyed <;> exact ⟨rfl, rfl⟩
    constructor
    · intro dir snapshot hread
      rw [(hsame _).1]
      obtain rfl | hold := readSnapshot_writeSnapshotTo hnone hread
      · rfl
      · exact h.current dir snapshot hold
    · intro dir snapshot hread
      rw [(hsame _).2]
      obtain rfl | hold := readSnapshot_writeSnapshotTo hnone hread
      · rw [hrestored, hbefore]
      · exact h.restores dir snapshot hold
  · exact h

theorem revertDir_eq (s : State) (keyed : Bool) :
    s.revertDir keyed = if (s.readSnapshot keyed).isSome then some keyed else none := by
  unfold State.revertDir
  split_ifs with hsome hglobal
  · rfl
  · exfalso
    cases keyed with
    | true =>
      have hread : s.readSnapshot true = none := by simpa using hsome
      have hnone : s.sessionSnapshot = none ∧ s.globalSnapshot = none :=
        Option.or_eq_none_iff.mp hread
      simp [State.readSnapshot, hnone.2] at hglobal
    | false => exact hsome hglobal
  · rfl

theorem filesRevert_some {keyed : Bool} {effects : Effects} {snapshot : Snapshot}
    (h : s.readSnapshot keyed = some snapshot) (hwrite : effects.writeRaises = none) :
    s.filesRevert windows keyed effects = { s.deleteSnapshot keyed effects with
      file := State.restored windows snapshot.content }.renew := by
  unfold State.filesRevert
  rw [revertDir_eq, h]
  simp only [Option.isSome_some, if_true, h, hwrite]

theorem filesRevert_raises {keyed : Bool} {effects : Effects}
    (h : ¬ ((s.readSnapshot keyed).isSome ∧ effects.writeRaises = none)) :
    s.filesRevert windows keyed effects = s ∨
      ∃ left, s.filesRevert windows keyed effects = s.modify left := by
  unfold State.filesRevert
  rw [revertDir_eq]
  cases hread : s.readSnapshot keyed with
  | none => exact .inl rfl
  | some snapshot =>
    cases hwrite : effects.writeRaises with
    | none => exact absurd ⟨by rw [hread]; rfl, hwrite⟩ h
    | some left =>
      right
      simp only [Option.isSome_some, if_true, hread]
      exact ⟨left, rfl⟩

theorem Inv.writeFile (h : Inv windows s) (content : Text) (keyed : Bool)
    (effects : Effects)
    (hsound : s.readSnapshot keyed = none →
      s.original = none ∧ Recordable windows effects.reads s.file) :
    Inv windows (s.writeFile windows content keyed effects) :=
  (h.maybeSnapshot keyed effects hsound).write _ _

theorem Inv.editFile (h : Inv windows s) (oldText newText : Text) (keyed : Bool)
    (effects : Effects)
    (hsound : s.file.isSome → s.readSnapshot keyed = none →
      s.original = none ∧ Recordable windows effects.reads s.file) :
    Inv windows (s.editFile windows oldText newText keyed effects) := by
  unfold State.editFile
  cases hfile : s.file with
  | none => exact h
  | some data =>
    have htaken := h.maybeSnapshot keyed effects (hsound (by rw [hfile]; rfl))
    dsimp only
    split
    · exact htaken
    · exact htaken.write _ _

theorem Inv.applyPatch (h : Inv windows s) (filePatch : Patch.FilePatch)
    (keyed : Bool) (effects : Effects)
    (hsound : s.readSnapshot keyed = none →
      s.original = none ∧ Recordable windows effects.reads s.file) :
    Inv windows (s.applyPatch host windows filePatch keyed effects) := by
  have htaken := h.maybeSnapshot keyed effects hsound
  unfold State.applyPatch
  dsimp only
  split
  · exact htaken
  · split
    · exact htaken
    · exact htaken.write _ _

theorem no_snapshot_after_revert {call : Call}
    (hoperation : call.operation = .filesRevert) (h : Cleared s call) :
    (s.deleteSnapshot call.keyed call.effects).sessionSnapshot = none ∧
      (s.deleteSnapshot call.keyed call.effects).globalSnapshot = none := by
  unfold Cleared at h
  unfold State.deleteSnapshot
  cases hkeyed : call.keyed with
  | true =>
    rw [hkeyed, if_pos rfl] at h
    obtain ⟨hsession, hglobal⟩ := h
    have hglobal : s.globalSnapshot = none :=
      hglobal.resolve_right fun hboth => by cases hoperation.symm.trans hboth.1
    refine ⟨?_, hglobal⟩
    obtain hnone | hdeletes := hsession
    · simp [hnone]
    · simp [hdeletes]
  | false =>
    rw [hkeyed, if_neg Bool.false_ne_true] at h
    refine ⟨h.1, ?_⟩
    obtain hnone | hdeletes := h.2
    · simp [hnone]
    · simp [hdeletes]

theorem no_snapshot_after_accept {call : Call} (h : Cleared s call) :
    (s.filesAccept call.keyed call.effects).sessionSnapshot = none ∧
      (s.filesAccept call.keyed call.effects).globalSnapshot = none := by
  unfold Cleared at h
  unfold State.filesAccept State.renew State.deleteSnapshot
  cases hkeyed : call.keyed with
  | true =>
    rw [hkeyed, if_pos rfl] at h
    obtain ⟨hsession, hglobal⟩ := h
    constructor
    · obtain hnone | hdeletes := hsession
      · simp [hnone]
      · simp [hdeletes]
    · obtain hnone | hdeletes := hglobal
      · simp [hnone]
      · simp [hdeletes.2]
  | false =>
    rw [hkeyed, if_neg Bool.false_ne_true] at h
    refine ⟨h.1, ?_⟩
    obtain hnone | hdeletes := h.2
    · simp [hnone]
    · simp [hdeletes]

theorem Inv.filesRevert (h : Inv windows s) {call : Call}
    (hoperation : call.operation = .filesRevert) (hcleared : Reverts s call → Cleared s call) :
    Inv windows (s.filesRevert windows call.keyed call.effects) := by
  by_cases hok : (s.readSnapshot call.keyed).isSome ∧ call.effects.writeRaises = none
  · obtain ⟨snapshot, hsnapshot⟩ := Option.isSome_iff_exists.mp hok.1
    obtain ⟨hsession, hglobal⟩ := no_snapshot_after_revert hoperation
      (hcleared ⟨hoperation, hok⟩)
    rw [filesRevert_some hsnapshot hok.2]
    exact inv_of_no_snapshot hsession hglobal
  · obtain hsame | ⟨left, hleft⟩ := @filesRevert_raises windows s _ _ hok
    · rw [hsame]
      exact h
    · rw [hleft]
      exact h.modify left

theorem Inv.act (h : Inv windows s) {call : Call} (hsound : Sound windows s call) :
    Inv windows (s.act host windows call) := by
  unfold State.act
  cases hoperation : call.operation with
  | writeFile content =>
    exact h.writeFile _ _ _ fun hnone => hsound.taken ⟨hnone, by rw [hoperation]; trivial⟩
  | editFile oldText newText =>
    exact h.editFile _ _ _ _ fun hfile hnone => hsound.taken ⟨hnone, by
      rw [hoperation]
      exact hfile⟩
  | applyPatch filePatch =>
    exact h.applyPatch _ _ _ fun hnone => hsound.taken ⟨hnone, by rw [hoperation]; trivial⟩
  | filesWriteText content =>
    exact h.writeFile _ _ _ fun hnone => hsound.taken ⟨hnone, by rw [hoperation]; trivial⟩
  | filesWriteBinary data => exact h.write _ _
  | filesRevert => exact h.filesRevert hoperation fun hreverts => hsound.cleared (.inr hreverts)
  | filesAccept =>
    obtain ⟨hsession, hglobal⟩ := no_snapshot_after_accept (hsound.cleared (.inl hoperation))
    exact inv_of_no_snapshot hsession hglobal

theorem readSnapshot_of_used {call : Call} {snapshot : Snapshot}
    (h : used s call = some snapshot) : s.readSnapshot call.keyed = some snapshot := by
  unfold used at h
  split at h
  · cases h
  · cases h
  · split_ifs at h
    exact h
  · exact h

theorem Inv.faithful (h : Inv windows s) (call : Call) :
    Faithful host windows s call where
  current snapshot hused := h.current _ _ (readSnapshot_of_used hused)
  restores hreverts := by
    obtain ⟨hoperation, hsome, hwrite⟩ := hreverts
    obtain ⟨snapshot, hsnapshot⟩ := Option.isSome_iff_exists.mp hsome
    have hact : s.act host windows call = s.filesRevert windows call.keyed call.effects := by
      rw [State.act, hoperation]
    rw [hact, filesRevert_some hsnapshot hwrite]
    exact h.restores _ _ hsnapshot

theorem write_revert_iff {s : State} {keyed : Bool} (content : Text) {effects undo : Effects}
    (hnone : s.readSnapshot keyed = none) (hstored : effects.stored = true)
    (hundo : undo.writeRaises = none) :
    ((s.writeFile windows content keyed effects).filesRevert windows keyed undo).file = s.file ↔
      Recordable windows effects.reads s.file := by
  have hread : (s.writeFile windows content keyed effects).readSnapshot keyed =
      some ⟨s.content effects.reads, s.period⟩ := by
    have htaken : s.maybeSnapshot keyed effects =
        s.writeSnapshotTo keyed (s.content effects.reads) := by
      simp [State.maybeSnapshot, hnone, hstored]
    rw [State.writeFile, htaken]
    unfold State.write
    cases effects.writeRaises <;> cases keyed <;> rfl
  rw [filesRevert_some hread hundo]
  change State.restored windows (s.content effects.reads) = s.file ↔ _
  constructor
  · intro h
    cases hfile : s.file with
    | none => trivial
    | some data =>
      unfold State.content State.restored at h
      rw [hfile] at h
      cases hreads : effects.reads with
      | false => simp [hreads] at h
      | true =>
        simp only [hreads, if_true] at h
        split_ifs at h
        have hsame := Option.some.inj h
        exact ⟨rfl, mt (readTextReplace_eq_nil hsame).mpr ‹_›, hsame⟩
  · exact restored_content

theorem recordable_iff {reads : Bool} {data : Bytes} :
    Recordable windows reads (some data) ↔ reads = true ∧ data ≠ [] ∧
      ∃ t, data = encode t ∧ platformNewlines windows (universalNewlines t) = t :=
  and_congr_right' (and_congr_right' writeText_readTextReplace)

/-- A snapshot in the global directory outlives a revert of the session and is found again. -/
theorem global_outlives_revert {s : State} {effects : Effects} {snapshot : Snapshot}
    (hglobal : s.globalSnapshot = some snapshot) (hdeletes : effects.deletesSession = true)
    (hwrite : effects.writeRaises = none) :
    (s.filesRevert windows true effects).readSnapshot true = some snapshot ∧
      (s.filesRevert windows true effects).period = s.period + 1 := by
  have hsome : ∃ visible, s.readSnapshot true = some visible := by
    cases hsession : s.sessionSnapshot with
    | none => exact ⟨snapshot, by simp [State.readSnapshot, hsession, hglobal]⟩
    | some own => exact ⟨own, by simp [State.readSnapshot, hsession]⟩
  obtain ⟨visible, hvisible⟩ := hsome
  rw [filesRevert_some hvisible hwrite]
  refine ⟨?_, rfl⟩
  simp [State.renew, State.deleteSnapshot, State.readSnapshot, hdeletes, hglobal]

end Proofs

/-! ## Whole runs -/

section Runs
variable (host : Patch.Host) (windows : Bool)

def step (s : State) (call : Call) : Option State := some (s.act host windows call)

/-- From a file without snapshots, a run whose calls meet the condition uses no old snapshot, and
its reverts give back the file as it was. -/
theorem revert_restores (s : State) (calls : List Call) (hsession : s.sessionSnapshot = none)
    (hglobal : s.globalSnapshot = none)
    (hsound : Steps.GoodRun (step host windows) (Sound windows) s calls) :
    Steps.GoodRun (step host windows) (Faithful host windows) s calls := by
  refine Steps.goodRun_imp _ (Sound windows) _ (Inv windows) ?_ ?_ s calls
    (inv_of_no_snapshot hsession hglobal) hsound
  · intro t call t' ht hcall hstep
    cases hstep
    exact ht.act hcall
  · intro t call ht _
    exact ht.faithful call

end Runs

/-- A file at the start of a session. -/
def State.start (file : Option Bytes) : State := ⟨file, none, none, 0, none⟩

def undisturbed : Effects := ⟨true, true, none, true, true⟩

/-- An agent writes a file and the user takes it back. -/
def writtenAndReverted : List Call :=
  [⟨.writeFile ['x'], true, undisturbed⟩, ⟨.filesRevert, true, undisturbed⟩]

theorem revert_restores_note :
    Steps.GoodRun (step Patch.ascii false) (Faithful Patch.ascii false)
      (State.start (some (encode ['h', 'i']))) writtenAndReverted := by
  refine revert_restores Patch.ascii false _ _ rfl rfl ⟨⟨fun _ => ⟨rfl, ?_⟩, ?_⟩, ?_⟩
  · exact recordable_iff.mpr ⟨rfl, by decide, ['h', 'i'], rfl, rfl⟩
  · rintro (h | h)
    · cases h
    · cases h.1
  · intro t ht
    cases ht
    refine ⟨⟨fun h => h.2.elim, fun _ => ?_⟩, fun _ _ => trivial⟩
    exact ⟨.inr rfl, .inl rfl⟩

/-- A file that was empty is gone after the revert. -/
theorem empty_file_removed :
    ¬ Steps.GoodRun (step Patch.ascii false) (Faithful Patch.ascii false)
      (State.start (some [])) writtenAndReverted := by
  intro h
  have hrestores := (h.2 _ rfl).1.restores ⟨rfl, rfl, rfl⟩
  cases hrestores

end MiqroForge.Workspace.Snapshots
