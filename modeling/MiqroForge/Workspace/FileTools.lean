import MiqroForge.Workspace.PosixHost
import MiqroForge.Workspace.Snapshots

/-!
`write_file`, `read_file` and `edit_file` of `filesystem.py` on the files of the host, with session
isolation: where each of them looks for a path.
-/

namespace MiqroForge.Workspace.FileTools

open PyText TextFiles ToolPaths

inductive Entry
  | dir
  | file (data : Bytes)

/-- What is at the places of the host. The tools make no links. -/
abbrev Disk := Place → Option Entry

/-- The file tools of one session. -/
structure Session (host : Host) where
  /-- The workspace root. -/
  base : Directory host
  /-- The directory of the session's files. -/
  files : Directory host
  /-- `_workspace` of the write tools. -/
  workspace : Directory host
  /-- Whether paths are restricted to the workspace. -/
  restricted : Bool
  /-- The directory of a sandbox that runs without WSL. -/
  sandboxRoot : Option Text
  /-- Newlines are written as on Windows. -/
  windows : Bool

/-- What a call finds: the links on the way of paths, and the shared roots behind authorization. -/
structure Given where
  linked : Text → Bool
  roots : List Place

/-! ## The disk -/

def present (host : Host) (d : Disk) (p : Place) : Bool := host.isRoot p || (d p).isSome

/-- A file is on the way. -/
def blocked (d : Disk) (p : Place) : Bool :=
  p.inits.any fun q => match d q with
    | some (.file _) => true
    | _ => false

/-- `mkdir(parents=True, exist_ok=True)`, where a failure is logged only. -/
def makeDir (d : Disk) (p : Place) : Disk :=
  if blocked d p then d else fun q => if q <+: p ∧ d q = none then some .dir else d q

/-- `bootstrap_sandbox_roots` -/
def bootstrap (host : Host) (d : Disk) (roots : List Place) : Disk :=
  roots.foldl (fun d root =>
    if present host d (host.normcase root) then d else makeDir d (host.normcase root)) d

/-- The directories of a new file are made, and it is written. -/
def put (host : Host) (d : Disk) (w : Place) (data : Bytes) : Option Disk :=
  if blocked d w.dropLast then none
  else match d w with
    | some .dir => none
    | _ => if host.isRoot w then none else some fun q =>
        if q = w then some (.file data) else if q <+: w ∧ d q = none then some .dir else d q

def overwrite (d : Disk) (w : Place) (data : Bytes) : Disk :=
  fun q => if q = w then some (.file data) else d q

/-- Something is at a place once a file and its directories are there. -/
def occupied (host : Host) (d : Disk) (roots : List Place) (w p : Place) : Bool :=
  present host (bootstrap host d roots) p || p.isPrefixOf w

/-! ## The tools -/

namespace Session

section Tools
variable {host : Host} (ss : Session host)

/-- `_resolve_path` as a tool calls it. -/
def sees (given : Given) (workspace : Directory host) (path : Text) : Option Place :=
  (resolvePath host given.linked ss.sandboxRoot
    (if ss.restricted then some ss.base.place else none) given.roots workspace path).map
    host.normcase

def redirect (path : Text) : Option Text := redirectPathToSession host path ss.base ss.files

/-- The place that `exists_check` looks at. -/
def probed (path : Text) : Option Place :=
  let anchored := if isAbsoluteHostPath path then path else host.join ss.workspace.path path
  (host.resolve (normHostPath host anchored)).map host.normcase

/-- The path of a write or an edit behind `_redirect_new_file_write`. -/
def redirected (path : Text) (found : Bool) : Text :=
  redirectNewFileWrite host path ss.base (some ss.files) (some found)

/-- Where a write or an edit of the path goes. -/
def located (given : Given) (d : Disk) (path : Text) : Option Place :=
  (ss.sees given ss.files (ss.redirected path ((ss.probed path).any (present host d)))).filter
    fun w => !isForeign host w ss.base (some ss.files)

/-- `WriteFileTool.execute`, with the file it writes; `none` when it answers with an error. -/
def writeFile (given : Given) (d : Disk) (path content : Text) : Option (Place × Disk) :=
  if isOffice host path then none
  else (ss.located given d path).bind fun w =>
    (put host (bootstrap host d given.roots) w (writeText ss.windows content)).map fun d' => (w, d')

/-- `path.read_text(encoding="utf-8")` -/
def readAt (d : Disk) (p : Place) : Option (Place × Text) :=
  match d p with
  | some (.file data) => (readText data).map fun text => (p, text)
  | _ => none

/-- `ReadFileTool.execute`, with the file it reads. -/
def readFile (given : Given) (d : Disk) (path : Text) : Option (Place × Text) :=
  match ss.sees given ss.base path with
  | none => none
  | some p =>
    if present host d p then
      if isForeign host p ss.base (some ss.files) then none else readAt d p
    else
      match (ss.redirect path).bind (ss.sees given ss.files) with
      | none => none
      | some q =>
        if q = p ∨ present host d q = false then none
        else if isForeign host q ss.base (some ss.files) then none
        else readAt d q

/-- `EditFileTool.execute`, with the file it edits. -/
def editFile (given : Given) (d : Disk) (path oldText newText : Text) : Option (Place × Disk) :=
  (ss.located given d path).bind fun w =>
    let ready := bootstrap host d given.roots
    (readAt ready w).bind fun (_, content) =>
      (Snapshots.replaceOnce oldText newText content).map fun newContent =>
        (w, overwrite ready w (writeText ss.windows newContent))

/-! ## When they agree -/

/-- What the tools see of a path, for the place the write goes to. -/
structure Agrees (writing reading editing : Given) (d : Disk) (path : Text) (w : Place) :
    Prop where
  /-- Seen from the workspace root the path leads to that place; or nothing is there, and it leads
  to it by its redirect into the session's files. -/
  read : ss.sees reading ss.base path = some w ∨
    ∃ p alt, ss.sees reading ss.base path = some p ∧ occupied host d writing.roots w p = false ∧
      ss.redirect path = some alt ∧ ss.sees reading ss.files alt = some w
  /-- With the file there, the probe still has the path lead to that place. -/
  edit : ss.sees editing ss.files
    (ss.redirected path ((ss.probed path).any (occupied host d writing.roots w))) = some w

/-- The write of the path goes to a place that reading and editing it see as well. -/
def Agree (writing reading editing : Given) (d : Disk) (path : Text) : Prop :=
  ∃ w, ss.sees writing ss.files (ss.redirected path ((ss.probed path).any (present host d))) =
    some w ∧ ss.Agrees writing reading editing d path w

end Tools

end Session

/-! ## The disk behind a write -/

section Disk
variable {host : Host}

theorem makeDir_some {d : Disk} {p q : Place} {e : Entry} (h : d q = some e) :
    makeDir d p q = some e := by
  have hnone : d q ≠ none := by
    rw [h]
    nofun
  unfold makeDir
  split
  · exact h
  · exact (if_neg fun hboth => hnone hboth.2).trans h

theorem bootstrap_some {d : Disk} {roots : List Place} {q : Place} {e : Entry}
    (h : d q = some e) : bootstrap host d roots q = some e := by
  induction roots generalizing d with
  | nil => exact h
  | cons root roots ih =>
    apply ih
    dsimp only
    split
    · exact h
    · exact makeDir_some h

theorem put_apply {d d' : Disk} {w : Place} {data : Bytes} (h : put host d w data = some d')
    (q : Place) : d' q = if q = w then some (.file data)
      else if q <+: w ∧ d q = none then some .dir else d q := by
  unfold put at h
  split at h
  · cases h
  · split at h
    · cases h
    · split at h
      · cases h
      · exact congrFun (Option.some.inj h).symm q

theorem put_file {d d' : Disk} {w : Place} {data : Bytes} (h : put host d w data = some d') :
    d' w = some (.file data) := by
  rw [put_apply h, if_pos rfl]

theorem present_put {d d' : Disk} {w : Place} {data : Bytes} (h : put host d w data = some d')
    (p : Place) : present host d' p = (present host d p || p.isPrefixOf w) := by
  unfold present
  rw [put_apply h]
  by_cases hw : p = w
  · have hbelow : p.isPrefixOf w = true := List.isPrefixOf_iff_prefix.mpr (hw ▸ List.prefix_refl p)
    rw [if_pos hw, hbelow]
    simp
  · rw [if_neg hw]
    cases hd : d p with
    | some e => simp
    | none =>
      by_cases hbelow : p <+: w
      · rw [if_pos ⟨hbelow, rfl⟩, List.isPrefixOf_iff_prefix.mpr hbelow]
        simp
      · have hnot : p.isPrefixOf w = false := by
          rw [← Bool.not_eq_true]
          exact fun htrue => hbelow (List.isPrefixOf_iff_prefix.mp htrue)
        rw [if_neg fun hboth => hbelow hboth.1, hnot]
        simp

end Disk

theorem replaceOnce_self (t new : Text) : Snapshots.replaceOnce t new t = some new := by
  have hfind : find? t t = some 0 := by
    cases t with
    | nil => rfl
    | cons c t => simp [find?]
  have hagain : Snapshots.occursAgain t t 0 = false := by
    unfold Snapshots.occursAgain
    cases t with
    | nil => rfl
    | cons c t => simp [find?]
  rw [Snapshots.replaceOnce, hfind]
  dsimp only
  rw [hagain, if_neg Bool.false_ne_true]
  simp

/-! ## Agreement -/

namespace Session

section Agreement
variable {host : Host} {ss : Session host}

theorem readAt_written {d : Disk} {w : Place} {content : Text}
    (h : d w = some (.file (writeText ss.windows content))) :
    readAt d w = some (w, universalNewlines (platformNewlines ss.windows content)) := by
  rw [readAt, h]
  dsimp only
  rw [readText_writeText]
  rfl

theorem eq_of_readAt {d : Disk} {p q : Place} {text : Text} (h : readAt d p = some (q, text)) :
    p = q := by
  unfold readAt at h
  split at h
  · obtain ⟨t, -, heq⟩ := Option.map_eq_some_iff.mp h
    exact (Prod.mk.inj heq).1
  · cases h

/-- What a write that succeeds has done. -/
structure Wrote (ss : Session host) (writing : Given) (d d' : Disk) (path content : Text)
    (w : Place) : Prop where
  leads : ss.sees writing ss.files (ss.redirected path ((ss.probed path).any (present host d))) =
    some w
  own : isForeign host w ss.base (some ss.files) = false
  file : d' w = some (.file (writeText ss.windows content))
  present_iff : ∀ p, present host d' p = occupied host d writing.roots w p

theorem wrote {writing : Given} {d d' : Disk} {path content : Text} {w : Place}
    (h : ss.writeFile writing d path content = some (w, d')) :
    Wrote ss writing d d' path content w := by
  unfold Session.writeFile at h
  split at h
  · cases h
  · obtain ⟨w', hlocated, h⟩ := Option.bind_eq_some_iff.mp h
    obtain ⟨d'', hput, heq⟩ := Option.map_eq_some_iff.mp h
    obtain ⟨rfl, rfl⟩ := Prod.mk.inj heq
    obtain ⟨hleads, hown⟩ := Option.filter_eq_some_iff.mp hlocated
    exact ⟨hleads, by simpa using hown, put_file hput, present_put hput⟩

section Written
variable {writing reading editing : Given} {d d' : Disk} {path content : Text} {w : Place}

theorem readFile_iff (h : Wrote ss writing d d' path content w) :
    ss.readFile reading d' path = some (w, content) ↔ '\r' ∉ content ∧
      (ss.sees reading ss.base path = some w ∨
        ∃ p alt, ss.sees reading ss.base path = some p ∧
          occupied host d writing.roots w p = false ∧ ss.redirect path = some alt ∧
          ss.sees reading ss.files alt = some w) := by
  have hread := readAt_written h.file
  have hthere : present host d' w = true := by
    rw [h.present_iff, occupied, List.isPrefixOf_iff_prefix.mpr (List.prefix_refl w), Bool.or_true]
  have htext : readAt d' w = some (w, content) ↔ '\r' ∉ content := by
    rw [hread, Option.some.injEq, Prod.mk.injEq, ← universalNewlines_platformNewlines]
    exact and_iff_right rfl
  unfold Session.readFile
  cases hsees : ss.sees reading ss.base path with
  | none => simp
  | some p =>
    dsimp only
    by_cases hpresent : present host d' p = true
    · rw [if_pos hpresent]
      constructor
      · intro hsome
        split at hsome
        · cases hsome
        · obtain rfl := eq_of_readAt hsome
          exact ⟨htext.mp hsome, .inl rfl⟩
      · rintro ⟨hnewlines, hw | ⟨q, alt, hq, hfree, -, -⟩⟩
        · cases hw
          rw [if_neg (by rw [h.own]; exact Bool.false_ne_true)]
          exact htext.mpr hnewlines
        · cases hq
          rw [h.present_iff, hfree] at hpresent
          cases hpresent
    · rw [if_neg hpresent]
      have hne : p ≠ w := by
        rintro rfl
        exact hpresent hthere
      have hfree : occupied host d writing.roots w p = false := by
        rw [← h.present_iff]
        exact Bool.not_eq_true _ ▸ hpresent
      constructor
      · intro hsome
        cases hbind : (ss.redirect path).bind (ss.sees reading ss.files) with
        | none =>
          rw [hbind] at hsome
          cases hsome
        | some q =>
          rw [hbind] at hsome
          dsimp only at hsome
          split at hsome
          · cases hsome
          · split at hsome
            · cases hsome
            · obtain rfl := eq_of_readAt hsome
              obtain ⟨alt, halt, hq⟩ := Option.bind_eq_some_iff.mp hbind
              exact ⟨htext.mp hsome, .inr ⟨p, alt, rfl, hfree, halt, hq⟩⟩
      · rintro ⟨hnewlines, hw | ⟨q, alt, -, -, halt, hseen⟩⟩
        · exact absurd (Option.some.inj hw) hne
        · have hbind : (ss.redirect path).bind (ss.sees reading ss.files) = some w :=
            Option.bind_eq_some_iff.mpr ⟨alt, halt, hseen⟩
          have hnot : ¬ (w = p ∨ present host d' w = false) := by
            rintro (heq | habsent)
            · exact hne heq.symm
            · rw [hthere] at habsent
              cases habsent
          rw [hbind]
          dsimp only
          rw [if_neg hnot, if_neg (by rw [h.own]; exact Bool.false_ne_true)]
          exact htext.mpr hnewlines

theorem located_written (h : Wrote ss writing d d' path content w) :
    ss.located editing d' path = (ss.sees editing ss.files (ss.redirected path
      ((ss.probed path).any (occupied host d writing.roots w)))).filter
        fun w => !isForeign host w ss.base (some ss.files) := by
  rw [Session.located, funext h.present_iff]

theorem editFile_iff (h : Wrote ss writing d d' path content w) (hnewlines : '\r' ∉ content) :
    (∀ oldText newText, ss.editFile editing d' path oldText newText =
      (Snapshots.replaceOnce oldText newText content).map fun text =>
        (w, overwrite (bootstrap host d' editing.roots) w (writeText ss.windows text))) ↔
    ss.sees editing ss.files
      (ss.redirected path ((ss.probed path).any (occupied host d writing.roots w))) = some w := by
  have hread : readAt (bootstrap host d' editing.roots) w = some (w, content) := by
    rw [readAt_written (bootstrap_some h.file), universalNewlines_platformNewlines.mpr hnewlines]
  constructor
  · intro hedits
    have hself := hedits content content
    rw [replaceOnce_self, Option.map_some, Session.editFile] at hself
    obtain ⟨w', hlocated, hself⟩ := Option.bind_eq_some_iff.mp hself
    obtain ⟨_, _, hself⟩ := Option.bind_eq_some_iff.mp hself
    obtain ⟨_, _, heq⟩ := Option.map_eq_some_iff.mp hself
    obtain ⟨rfl, -⟩ := Prod.mk.inj heq
    rw [located_written h] at hlocated
    exact (Option.filter_eq_some_iff.mp hlocated).1
  · intro hsees oldText newText
    have hlocated : ss.located editing d' path = some w := by
      rw [located_written h, hsees, Option.filter_eq_some_iff]
      exact ⟨rfl, by rw [h.own]; rfl⟩
    rw [Session.editFile, hlocated, Option.bind_some]
    dsimp only
    rw [hread]
    rfl

end Written

/-- After a write that succeeds, reading the path gives back the content and editing it edits the
written file, exactly when the content has no carriage return and the tools agree on the path. -/
theorem written_agrees_iff (ss : Session host) (writing reading editing : Given) (d d' : Disk)
    (path content : Text) (w : Place)
    (hwrite : ss.writeFile writing d path content = some (w, d')) :
    (ss.readFile reading d' path = some (w, content) ∧
      ∀ oldText newText, ss.editFile editing d' path oldText newText =
        (Snapshots.replaceOnce oldText newText content).map fun text =>
          (w, overwrite (bootstrap host d' editing.roots) w (writeText ss.windows text))) ↔
      '\r' ∉ content ∧ ss.Agree writing reading editing d path := by
  have h := wrote hwrite
  constructor
  · rintro ⟨hread, hedit⟩
    obtain ⟨hnewlines, hseen⟩ := (readFile_iff h).mp hread
    exact ⟨hnewlines, w, h.leads, hseen, (editFile_iff h hnewlines).mp hedit⟩
  · rintro ⟨hnewlines, w', hleads, hagrees⟩
    obtain rfl := Option.some.inj (h.leads.symm.trans hleads)
    exact ⟨(readFile_iff h).mpr ⟨hnewlines, hagrees.read⟩,
      (editFile_iff h hnewlines).mpr hagrees.edit⟩

theorem redirected_new {path alt : Text} (halt : ss.redirect path = some alt) (hne : alt ≠ path) :
    ss.redirected path false = alt := by
  have hredirect : redirectPathToSession host path ss.base ss.files = some alt := halt
  rw [Session.redirected, redirectNewFileWrite, Option.bind_some, hredirect]
  simp [hne]

/-! ## Kinds of paths -/

theorem redirected_kept {path : Text} (hkept : ss.redirect path = none) (found : Bool) :
    ss.redirected path found = path := by
  have hredirect : redirectPathToSession host path ss.base ss.files = none := hkept
  rw [Session.redirected, redirectNewFileWrite, Option.bind_some, hredirect]

theorem occupied_of_present {d : Disk} {roots : List Place} {w p : Place}
    (h : present host d p = true) : occupied host d roots w p = true := by
  rcases (Bool.or_eq_true _ _).mp h with hroot | hsome
  · simp [occupied, present, hroot]
  · obtain ⟨e, he⟩ := Option.isSome_iff_exists.mp hsome
    have hready : bootstrap host d roots p = some e := bootstrap_some he
    simp [occupied, present, hready]

theorem agree_new_iff {given : Given} {d : Disk} {path alt : Text} {w p : Place}
    (halt : ss.redirect path = some alt) (hne : alt ≠ path)
    (hprobe : (ss.probed path).any (occupied host d given.roots w) = false)
    (hw : ss.sees given ss.files alt = some w) (hp : ss.sees given ss.base path = some p)
    (hpw : p ≠ w) :
    ss.Agree given given given d path ↔ occupied host d given.roots w p = false := by
  have hbefore : (ss.probed path).any (present host d) = false := by
    cases hplace : ss.probed path with
    | none => rfl
    | some q =>
      rw [hplace] at hprobe
      rw [Option.any_some, ← Bool.not_eq_true]
      intro hpresent
      rw [Option.any_some, occupied_of_present hpresent] at hprobe
      cases hprobe
  rw [Session.Agree, hbefore, redirected_new halt hne, hw]
  constructor
  · rintro ⟨w', hw', hagrees⟩
    obtain rfl := Option.some.inj hw'
    rcases hagrees.read with hread | ⟨q, alt', hq, hfree, -, -⟩
    · exact absurd (Option.some.inj (hp.symm.trans hread)) hpw
    · obtain rfl := Option.some.inj (hp.symm.trans hq)
      exact hfree
  · intro hfree
    refine ⟨w, rfl, .inr ⟨p, alt, hp, hfree, halt, hw⟩, ?_⟩
    rw [hprobe, redirected_new halt hne, hw]

theorem sees_absolute {given : Given} {workspace : Directory host} {path p : Text}
    (hexpand : host.expanduser path = some p) (habs : host.isAbsolute p = true)
    (hplain : ss.sandboxRoot = none) (hfree : ss.restricted = false) :
    ss.sees given workspace path = (host.resolve p).map host.normcase := by
  have hpath : hostPath host none workspace path = some p := by
    simp [hostPath, hexpand, habs, remapped]
  rw [Session.sees, resolvePath, hplain, hfree, hpath]
  cases hplace : host.resolve p <;> simp [isAllowed, hplace]

theorem agree_of_absolute {writing reading editing : Given} {d : Disk} {path p : Text} {w : Place}
    (hexpand : host.expanduser path = some p) (habs : host.isAbsolute p = true)
    (hplain : ss.sandboxRoot = none) (hfree : ss.restricted = false)
    (hkept : ss.redirect path = none) (hw : host.resolve p = some w) :
    ss.Agree writing reading editing d path := by
  have hsees : ∀ given workspace, ss.sees given workspace path = some (host.normcase w) := by
    intro given workspace
    rw [sees_absolute hexpand habs hplain hfree, hw, Option.map_some]
  refine ⟨_, ?_, .inl (hsees _ _), ?_⟩
  · rw [redirected_kept hkept]
    exact hsees _ _
  · rw [redirected_kept hkept]
    exact hsees _ _

end Agreement

end Session

/-! ## A file of the workspace root -/

open PosixHost

def plainMachine : Machine := ⟨fun _ => none, 0, [], "/h".toList, fun _ => none, id⟩

def plainSession : Session (posix plainMachine) where
  base := ⟨"/w".toList, ["w".toList], by decide +kernel⟩
  files := ⟨"/w/sessions/k/files".toList, ["w", "sessions", "k", "files"].map String.toList,
    by decide +kernel⟩
  workspace := ⟨"/w/sessions/k/files".toList, ["w", "sessions", "k", "files"].map String.toList,
    by decide +kernel⟩
  restricted := false
  sandboxRoot := none
  windows := false

def plainGiven : Given := ⟨fun _ => false, [["w".toList]]⟩

/-- There is one file, in the workspace root. -/
def rootFile : Disk := fun p =>
  if p = ["w".toList, "notes.md".toList] then some (.file (encode "old".toList)) else none

theorem outside_agrees :
    ∃ w d', plainSession.writeFile plainGiven rootFile "/d/notes.md".toList "new".toList =
        some (w, d') ∧
      plainSession.readFile plainGiven d' "/d/notes.md".toList = some (w, "new".toList) := by
  have hsome : (plainSession.writeFile plainGiven rootFile "/d/notes.md".toList
      "new".toList).isSome = true := by
    decide +kernel
  obtain ⟨⟨w, d'⟩, hwrite⟩ := Option.isSome_iff_exists.mp hsome
  have hagree : plainSession.Agree plainGiven plainGiven plainGiven rootFile "/d/notes.md".toList :=
    Session.agree_of_absolute (p := "/d/notes.md".toList) (w := ["d".toList, "notes.md".toList])
      (by decide +kernel) (by decide +kernel) rfl rfl (by decide +kernel) (by decide +kernel)
  exact ⟨w, d', hwrite, ((Session.written_agrees_iff plainSession plainGiven plainGiven plainGiven
    rootFile d' _ _ w hwrite).mpr ⟨by decide, hagree⟩).1⟩

/-- The write goes to the session's files, the read to the file of the workspace root. -/
theorem root_file_read :
    ∃ w d', plainSession.writeFile plainGiven rootFile "notes.md".toList "new".toList =
        some (w, d') ∧
      plainSession.readFile plainGiven d' "notes.md".toList ≠ some (w, "new".toList) := by
  have hsome : (plainSession.writeFile plainGiven rootFile "notes.md".toList
      "new".toList).isSome = true := by
    decide +kernel
  obtain ⟨⟨w, d'⟩, hwrite⟩ := Option.isSome_iff_exists.mp hsome
  refine ⟨w, d', hwrite, fun hread => ?_⟩
  have h := Session.wrote hwrite
  have hw : some w = some (["w", "sessions", "k", "files", "notes.md"].map String.toList) :=
    h.leads.symm.trans (by decide +kernel)
  cases hw
  have hsees : plainSession.sees plainGiven plainSession.base "notes.md".toList =
      some ["w".toList, "notes.md".toList] := by
    decide +kernel
  rcases ((Session.readFile_iff h).mp hread).2 with hroot | ⟨p, alt, hp, hfree, -, -⟩
  · exact absurd (hsees.symm.trans hroot) (by decide)
  · obtain rfl := Option.some.inj (hsees.symm.trans hp)
    exact absurd hfree (by decide +kernel)

end MiqroForge.Workspace.FileTools
