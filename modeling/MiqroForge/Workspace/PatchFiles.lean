import MiqroForge.Workspace.FileTools

/-!
# A patch of several files

`ApplyPatchTool.execute` patches the files one after another, and stops at the first one that fails.
Nothing is taken back: the files in front of it keep their new content.
-/

namespace MiqroForge.Workspace.FileTools

open PyText TextFiles ToolPaths
open Patch (FilePatch applyFilePatch parsePatch)

/-- The tool as a session has it. -/
structure PatchTool (host : Host) where
  session : Session host
  /-- Where a path leads in the WSL sandbox, when one is active. -/
  sandbox : Option (Disk → Text → Option Place)

/-- What the surroundings do while one file is patched. -/
structure PatchEffects where
  given : Given
  /-- The file can be looked for and read. -/
  reads : Bool
  /-- Writing raises, and leaves this of the file. -/
  writeRaises : Option (Option Bytes)

namespace PatchTool

section Tool
variable {host : Host} (tool : PatchTool host)

def located (effects : PatchEffects) (d : Disk) (path : Text) : Option Place :=
  match tool.sandbox with
  | some reach => reach d path
  | none => tool.session.located effects.given d path

/-- The text a patch is applied to; `none` where reading it raises. -/
def original (reads : Bool) (d : Disk) (w : Place) : Option Text :=
  match tool.sandbox with
  | some _ =>
    if reads then match d w with
      | some (.file data) => some (decodeReplace data)
      | _ => some []
    else none
  | none =>
    if present host d w then match d w with
      | some (.file data) => if reads then readText data else none
      | _ => none
    else some []

def written (t : Text) : Bytes :=
  match tool.sandbox with
  | some _ => encode t
  | none => writeText tool.session.windows t

variable (patchHost : Patch.Host)

/-- `_apply_one_file`, and whether it goes through. -/
def applyOneFile (d : Disk) (patch : FilePatch) (effects : PatchEffects) : Disk × Bool :=
  let ready := bootstrap host d effects.given.roots
  match tool.located effects d patch.path with
  | none => (ready, false)
  | some w =>
    match tool.original effects.reads ready w with
    | none => (ready, false)
    | some original =>
      match applyFilePatch patchHost original patch with
      | .error _ => (ready, false)
      | .ok newContent =>
        match put host ready w (tool.written newContent) with
        | none => (ready, false)
        | some d' =>
          match effects.writeRaises with
          | none => (d', true)
          | some rest => (fun q => if q = w then rest.map .file else d' q, false)

inductive Answer where
  | missingPatch
  | unauthorized
  | invalidPatch (reason : Text)
  | failed (path : Text)
  | noFilesChanged
  | applied

def Answer.isError : Answer → Bool
  | .noFilesChanged | .applied => false
  | _ => true

/-- The loop over the files; a path is the one that failed. -/
def applyFiles : Disk → List (FilePatch × PatchEffects) → Disk × Option Text
  | d, [] => (d, none)
  | d, (patch, effects) :: files =>
    match tool.applyOneFile patchHost d patch effects with
    | (d', true) => applyFiles d' files
    | (d', false) => (d', some patch.path)

structure PatchCall where
  /-- The argument, where it is a text. -/
  patch : Option Text
  /-- The user declines a path of `authorize_paths`. -/
  declined : Bool
  /-- What goes on while the file of an index is patched. -/
  effects : Nat → PatchEffects

/-- The files of a patch, with what goes on while each is patched. -/
def PatchCall.files (call : PatchCall) (patches : List FilePatch) :
    List (FilePatch × PatchEffects) :=
  patches.zipIdx.map fun (patch, i) => (patch, call.effects i)

def execute (call : PatchCall) (d : Disk) : Disk × Answer :=
  match call.patch with
  | none | some [] => (d, .missingPatch)
  | some text =>
    if call.declined then (d, .unauthorized)
    else match parsePatch patchHost text with
      | .error reason => (d, .invalidPatch reason)
      | .ok patches =>
        match tool.applyFiles patchHost d (call.files patches) with
        | (d', some path) => (d', .failed path)
        | (d', none) => (d', if patches = [] then .noFilesChanged else .applied)

end Tool

end PatchTool

/-! ## Files -/

/-- The bytes of the file at a place. -/
def fileAt (d : Disk) (p : Place) : Option Bytes :=
  match d p with
  | some (.file data) => some data
  | _ => none

/-- The file of a place is another one, and every other file as before. -/
def ChangesFile (d d' : Disk) (w : Place) (file : Option Bytes) : Prop :=
  fileAt d' w = file ∧ ∀ p, p ≠ w → fileAt d' p = fileAt d p

section Files
variable {host : Host}

theorem fileAt_dir {d : Disk} {p : Place} (h : d p = none) (d' : Disk) (hdir : d' p = some .dir) :
    fileAt d' p = fileAt d p := by
  rw [fileAt, fileAt, h, hdir]

theorem fileAt_makeDir (d : Disk) (p q : Place) : fileAt (makeDir d p) q = fileAt d q := by
  by_cases hq : makeDir d p q = d q
  · rw [fileAt, fileAt, hq]
  · unfold makeDir at hq ⊢
    split
    case isTrue => rfl
    case isFalse hfree =>
      rw [if_neg hfree] at hq
      by_cases hnew : q <+: p ∧ d q = none
      · exact fileAt_dir hnew.2 _ (if_pos hnew)
      · rw [if_neg hnew] at hq
        exact absurd rfl hq

theorem fileAt_bootstrap (d : Disk) (roots : List Place) (p : Place) :
    fileAt (bootstrap host d roots) p = fileAt d p := by
  induction roots generalizing d with
  | nil => rfl
  | cons root roots ih =>
    rw [bootstrap, List.foldl_cons]
    refine (ih _).trans ?_
    split
    · rfl
    · exact fileAt_makeDir d _ p

theorem changesFile_put {d d' : Disk} {w : Place} {data : Bytes} (h : put host d w data = some d') :
    ChangesFile d d' w (some data) := by
  constructor
  · rw [fileAt, put_file h]
  · intro p hp
    have happly := put_apply h p
    rw [if_neg hp] at happly
    by_cases hnew : p <+: w ∧ d p = none
    · exact fileAt_dir hnew.2 d' (happly.trans (if_pos hnew))
    · rw [fileAt, fileAt, happly, if_neg hnew]

theorem ChangesFile.of_bootstrap {d d' : Disk} {roots : List Place} {w : Place}
    {file : Option Bytes} (h : ChangesFile (bootstrap host d roots) d' w file) :
    ChangesFile d d' w file :=
  ⟨h.1, fun p hp => (h.2 p hp).trans (fileAt_bootstrap d roots p)⟩

end Files

/-! ## One file -/

namespace PatchTool

section Runs
variable {host : Host} {tool : PatchTool host} {patchHost : Patch.Host} {d d' : Disk}

/-- The patch of a file has gone through: the file of one place holds what the patch gives. -/
def Patched (tool : PatchTool host) (patchHost : Patch.Host) (d : Disk)
    (file : FilePatch × PatchEffects) (w : Place) (d' : Disk) : Prop :=
  tool.located file.2 d file.1.path = some w ∧
    ∃ original newContent,
      tool.original file.2.reads (bootstrap host d file.2.given.roots) w = some original ∧
      applyFilePatch patchHost original file.1 = .ok newContent ∧
      ChangesFile d d' w (some (tool.written newContent))

/-- The patch of a file has failed: no file is changed, or its own write raised. -/
def Failed (tool : PatchTool host) (d : Disk) (file : FilePatch × PatchEffects) (d' : Disk) :
    Prop :=
  (∀ p, fileAt d' p = fileAt d p) ∨
    ∃ w rest, tool.located file.2 d file.1.path = some w ∧ file.2.writeRaises = some rest ∧
      ChangesFile d d' w rest

theorem applyOneFile_cases {ok : Bool} {file : FilePatch × PatchEffects}
    (h : tool.applyOneFile patchHost d file.1 file.2 = (d', ok)) :
    (ok = true ∧ ∃ w, tool.Patched patchHost d file w d') ∨ (ok = false ∧ tool.Failed d file d') := by
  have hready : ∀ p, fileAt (bootstrap host d file.2.given.roots) p = fileAt d p :=
    fileAt_bootstrap d file.2.given.roots
  unfold applyOneFile at h
  dsimp only at h
  split at h
  case h_1 =>
    obtain ⟨rfl, rfl⟩ := Prod.mk.inj h
    exact .inr ⟨rfl, .inl hready⟩
  case h_2 w hlocated =>
    split at h
    case h_1 =>
      obtain ⟨rfl, rfl⟩ := Prod.mk.inj h
      exact .inr ⟨rfl, .inl hready⟩
    case h_2 original horiginal =>
      split at h
      case h_1 =>
        obtain ⟨rfl, rfl⟩ := Prod.mk.inj h
        exact .inr ⟨rfl, .inl hready⟩
      case h_2 newContent hpatched =>
        split at h
        case h_1 =>
          obtain ⟨rfl, rfl⟩ := Prod.mk.inj h
          exact .inr ⟨rfl, .inl hready⟩
        case h_2 d'' hput =>
          have hchanged := (changesFile_put hput).of_bootstrap
          split at h
          case h_1 =>
            obtain ⟨rfl, rfl⟩ := Prod.mk.inj h
            exact .inl ⟨rfl, w, hlocated, original, newContent, horiginal, hpatched, hchanged⟩
          case h_2 rest hraises =>
            obtain ⟨rfl, rfl⟩ := Prod.mk.inj h
            refine .inr ⟨rfl, .inr ⟨w, rest, hlocated, hraises, ?_, ?_⟩⟩
            · rw [fileAt, if_pos rfl]
              cases rest <;> rfl
            · intro p hp
              rw [fileAt, if_neg hp]
              exact hchanged.2 p hp

/-! ## All of them -/

/-- The files are patched one after another, at these places. -/
inductive Applied (tool : PatchTool host) (patchHost : Patch.Host) :
    Disk → List (FilePatch × PatchEffects) → List Place → Disk → Prop where
  | nil (d : Disk) : Applied tool patchHost d [] [] d
  | cons {d mid d' : Disk} {file : FilePatch × PatchEffects} {files : List (FilePatch × PatchEffects)}
      {w : Place} {places : List Place} (patched : tool.Patched patchHost d file w mid)
      (rest : Applied tool patchHost mid files places d') :
      Applied tool patchHost d (file :: files) (w :: places) d'

theorem Applied.fileAt {files : List (FilePatch × PatchEffects)} {places : List Place}
    (h : Applied tool patchHost d files places d') {p : Place} (hp : p ∉ places) :
    fileAt d' p = fileAt d p := by
  induction h with
  | nil => rfl
  | cons patched _ ih =>
    obtain ⟨hhead, htail⟩ := not_or.mp (mt List.mem_cons.mpr hp)
    obtain ⟨-, _, _, -, -, hchanged⟩ := patched
    exact (ih htail).trans (hchanged.2 p hhead)

/-- The run stops at a file: the ones in front of it are patched at their places, and it has
failed. -/
def StoppedAt (tool : PatchTool host) (patchHost : Patch.Host) (d : Disk)
    (files : List (FilePatch × PatchEffects)) (path : Text) (places : List Place) (d' : Disk) :
    Prop :=
  ∃ done file rest mid, files = done ++ file :: rest ∧ file.1.path = path ∧
    Applied tool patchHost d done places mid ∧ tool.Failed mid file d'

/-- A write of the path was broken off at the place. -/
def Interrupted (tool : PatchTool host) (files : List (FilePatch × PatchEffects)) (path : Text)
    (p : Place) : Prop :=
  ∃ file ∈ files, ∃ mid, file.1.path = path ∧ file.2.writeRaises.isSome = true ∧
    tool.located file.2 mid path = some p

theorem StoppedAt.fileAt {files : List (FilePatch × PatchEffects)} {path : Text}
    {places : List Place} (h : StoppedAt tool patchHost d files path places d') {p : Place}
    (hp : p ∉ places) : fileAt d' p = fileAt d p ∨ tool.Interrupted files path p := by
  obtain ⟨done, file, rest, mid, rfl, rfl, hdone, hsame | ⟨w, left, hlocated, hraises, hchanged⟩⟩ := h
  · exact .inl ((hsame p).trans (hdone.fileAt hp))
  · by_cases hw : p = w
    · refine .inr ⟨file, List.mem_append_right done List.mem_cons_self, mid, rfl, ?_, hw ▸ hlocated⟩
      rw [hraises]
      rfl
    · exact .inl ((hchanged.2 p hw).trans (hdone.fileAt hp))

theorem applyFiles_stopped {files : List (FilePatch × PatchEffects)} {path : Text}
    (h : tool.applyFiles patchHost d files = (d', some path)) :
    ∃ places, StoppedAt tool patchHost d files path places d' := by
  induction files generalizing d with
  | nil => cases h
  | cons file files ih =>
    rw [applyFiles] at h
    split at h
    case h_1 next hstep =>
      obtain ⟨-, w, hpatched⟩ | ⟨hfalse, -⟩ := applyOneFile_cases hstep
      · obtain ⟨places, done, failing, rest, mid, rfl, hpath, hdone, hfailed⟩ := ih h
        exact ⟨w :: places, file :: done, failing, rest, mid, rfl, hpath, .cons hpatched hdone,
          hfailed⟩
      · cases hfalse
    case h_2 next hstep =>
      obtain ⟨rfl, hpath⟩ := Prod.mk.inj h
      obtain ⟨hfalse, -⟩ | ⟨-, hfailed⟩ := applyOneFile_cases hstep
      · cases hfalse
      · exact ⟨[], [], file, files, d, rfl, Option.some.inj hpath, .nil d, hfailed⟩

end Runs

end PatchTool

/-! ## The second file fails -/

/-- Two files in the directory of the session's files. -/
def twoFiles : Disk := fun p =>
  if p = ["w", "sessions", "k", "files", "a"].map String.toList then
    some (.file (encode "x\n".toList))
  else if p = ["w", "sessions", "k", "files", "b"].map String.toList then
    some (.file (encode "1\n".toList))
  else none

def plainPatchTool : PatchTool (PosixHost.posix plainMachine) := ⟨plainSession, none⟩

/-- The second file has no line that the patch takes away. -/
def halfPatch : PatchTool.PatchCall where
  patch := some ("--- a/a\n+++ b/a\n@@ -1 +1 @@\n-x\n+y\n" ++
    "--- a/b\n+++ b/b\n@@ -1 +1 @@\n-2\n+3\n").toList
  declined := false
  effects := fun _ => ⟨plainGiven, true, none⟩

end MiqroForge.Workspace.FileTools
