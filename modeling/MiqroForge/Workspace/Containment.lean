import MiqroForge.Library.LinkedFiles
import MiqroForge.Workspace.Location

/-!
Which paths the desktop lets into the workspace: `resolveWorkspacePath` of `workspace-path.ts` on
POSIX, over a tree of files with symbolic links.
-/

namespace MiqroForge.Workspace

open PyText PosixPaths LinkedFiles

namespace Desktop

variable (w : World) (t : Tree)

/-! ## Canonical paths -/

/-- `realpathSync.native`; `none` when it throws. -/
def realpath (path : List Text) : Option (List Text) :=
  match lookup t path with
  | .present p => some p
  | _ => none

/-- The loop of `canonicalWithMissingTail`, at the head whose names are given from the last one. -/
def canonicalFrom (p : List Text) : List Text → List Text → List Text
  | head, tail =>
    match realpath t head.reverse with
    | some real => real ++ tail
    | none =>
      match head with
      | [] => p
      | name :: parent => canonicalFrom p parent (name :: tail)

/-- `canonicalWithMissingTail`, of the names of an absolute path without `..`. -/
def canonicalWithMissingTail (p : List Text) : List Text := canonicalFrom t p p.reverse []

/-- The text of an absolute path. -/
def pathText (p : List Text) : Text := '/' :: Paths.join p

/-- `normForCompare`, where the platform is not Windows. -/
def normForCompare (p : Text) : Text := p.map fun c => if c = '\\' then '/' else c

def isUnder (candidate root : List Text) : Bool :=
  let relCmp := normForCompare (pathText candidate)
  let rootCmp := normForCompare (pathText root)
  decide (relCmp = rootCmp) || (rootCmp ++ ['/']).isPrefixOf relCmp

/-! ## The roots -/

/-- The extra roots that are absolute. -/
def absoluteRoots (extraRoots : List (Option Text)) : List (List Text) :=
  extraRoots.filterMap fun extra =>
    match extra with
    | some root => if isAbsolute root then some (resolve w.cwd root) else none
    | none => none

def allowedRoots (wsRoot : List Text) (extraRoots : List (Option Text)) : List (List Text) :=
  wsRoot :: absoluteRoots w extraRoots

def anchorRoot (wsRoot : List Text) (extraRoots : List (Option Text)) : List Text :=
  (absoluteRoots w extraRoots).head?.getD wsRoot

/-! ## The path -/

def sandboxWs : Text := "/home/miqi/workspace".toList

/-- What `.` does not match. -/
def isLineEnd (c : Char) : Bool :=
  c == '\n' || c == '\r' || c.toNat == 0x2028 || c.toNat == 0x2029

def isLetter (c : Char) : Bool :=
  (65 ≤ c.toNat && c.toNat ≤ 90) || (97 ≤ c.toNat && c.toNat ≤ 122)

/-- `^\/mnt\/([a-zA-Z])\/?(.*)$`, with both groups. -/
def mntMatch (raw : Text) : Option (Char × Text) :=
  match raw with
  | '/' :: 'm' :: 'n' :: 't' :: '/' :: drive :: rest =>
    let rest := if rest.head? = some '/' then rest.tail else rest
    if isLetter drive && !rest.any isLineEnd then some (drive, rest) else none
  | _ => none

def normalised (raw : Text) : Text :=
  match mntMatch raw with
  | some (drive, rest) => drive.toUpper :: ':' :: '\\' :: rest
  | none =>
    if raw = sandboxWs then ['.']
    else if (sandboxWs ++ ['/']).isPrefixOf raw ∨ (sandboxWs ++ ['\\']).isPrefixOf raw then
      raw.drop (sandboxWs.length + 1)
    else raw

/-- The names of the path that is returned. -/
def resolved (raw : Text) (extraRoots : List (Option Text)) : List Text :=
  let wsRoot := resolve w.cwd (getWorkspacePath w)
  if isAbsolute (normalised raw) then resolve w.cwd (normalised raw)
  else resolve (anchorRoot w wsRoot extraRoots) (normalised raw)

/-- The canonical forms of the roots. -/
def canonicalRoots (extraRoots : List (Option Text)) : List (List Text) :=
  (allowedRoots w (resolve w.cwd (getWorkspacePath w)) extraRoots).map (canonicalWithMissingTail t)

/-- `resolveWorkspacePath`; `none` when it throws. -/
def resolveWorkspacePath (raw : Text) (extraRoots : List (Option Text)) : Option (List Text) :=
  let resolved := resolved w raw extraRoots
  let canonicalResolved := canonicalWithMissingTail t resolved
  let contained := (canonicalRoots w t extraRoots).any fun root => isUnder canonicalResolved root
  if contained then some resolved else none

end Desktop

open Desktop

/-! ## What is reached -/

/-- Opening the path, or creating a file there, reaches this place. -/
def Reaches (t : Tree) (path p : List Text) : Prop :=
  lookup t path = .present p ∨ lookup t path = .absent p

/-- The place is in one of the roots, name by name. -/
def Inside (roots : List (List Text)) (p : List Text) : Prop := ∃ root ∈ roots, root <+: p

/-- What the path reaches is in one of the roots. -/
def Contained (t : Tree) (roots : List (List Text)) (path : List Text) : Prop :=
  ∀ p, Reaches t path p → Inside roots p

/-- The last name of the path is a link, its target is missing, and the place where a file is then
created is in none of the roots. -/
def DanglesOutside (t : Tree) (roots : List (List Text)) (path : List Text) : Prop :=
  ∃ dir name d target p, path = dir ++ [name] ∧ lookup t dir = .present d ∧
    t (d ++ [name]) = some (.link target) ∧ lookup t path = .absent p ∧ ¬ Inside roots p

/-- What the path reaches is in none of the roots, and looks so only where each backslash of a name
is a slash. -/
def BackslashInside (t : Tree) (roots : List (List Text)) (path : List Text) : Prop :=
  ∃ p, Reaches t path p ∧ (∃ root ∈ roots, isUnder p root = true) ∧ ¬ Inside roots p

/-! ### Backslashes -/

/-! ### Canonical paths -/

theorem realpath_present {t : Tree} {path p : List Text} (h : lookup t path = .present p) :
    realpath t path = some p := by
  rw [realpath, h]

theorem canonicalFrom_real {t : Tree} {head real : List Text} (h : realpath t head.reverse = some real)
    (p tail : List Text) : canonicalFrom t p head tail = real ++ tail := by
  rw [canonicalFrom.eq_def]
  dsimp only
  rw [h]

theorem canonicalFrom_missing {t : Tree} {name : Text} {parent : List Text}
    (h : realpath t (name :: parent).reverse = none) (p tail : List Text) :
    canonicalFrom t p (name :: parent) tail = canonicalFrom t p parent (name :: tail) := by
  rw [canonicalFrom.eq_def]
  dsimp only
  rw [h]

theorem canonical_present {t : Tree} {path p : List Text} (h : lookup t path = .present p) :
    canonicalWithMissingTail t path = p := by
  have hreal : realpath t path.reverse.reverse = some p := by
    rw [List.reverse_reverse]
    exact realpath_present h
  exact (canonicalFrom_real hreal path []).trans (List.append_nil p)

theorem canonical_absent {t : Tree} {dir d p : List Text} {name : Text}
    (h : lookup t (dir ++ [name]) = .absent p) (hdir : lookup t dir = .present d) :
    canonicalWithMissingTail t (dir ++ [name]) = d ++ [name] := by
  have hmissing : realpath t (name :: dir.reverse).reverse = none := by
    rw [List.reverse_cons, List.reverse_reverse, realpath, h]
  have hreal : realpath t dir.reverse.reverse = some d := by
    rw [List.reverse_reverse]
    exact realpath_present hdir
  rw [canonicalWithMissingTail, List.reverse_append, List.reverse_singleton, List.singleton_append,
    canonicalFrom_missing hmissing, canonicalFrom_real hreal]

/-- **Containment.** What an accepted path reaches is in one of the canonical roots, exactly if its
last name is no link to a missing place outside of them, and no backslash in a name makes a place
outside look like one inside. -/
theorem accepted_contained {w : World} {t : Tree} {raw : Text} {extraRoots : List (Option Text)}
    {path : List Text} (h : resolveWorkspacePath w t raw extraRoots = some path) :
    Contained t (canonicalRoots w t extraRoots) path ↔
      ¬ DanglesOutside t (canonicalRoots w t extraRoots) path ∧
        ¬ BackslashInside t (canonicalRoots w t extraRoots) path := by
  have haccept : ∃ root ∈ canonicalRoots w t extraRoots,
      isUnder (canonicalWithMissingTail t path) root = true := by
    rw [resolveWorkspacePath] at h
    split at h
    · rename_i hany
      cases h
      exact List.any_eq_true.mp hany
    · cases h
  constructor
  · intro hcontained
    constructor
    · rintro ⟨_, _, _, _, p, -, -, -, hp, hout⟩
      exact hout (hcontained p (Or.inr hp))
    · rintro ⟨p, hp, -, hout⟩
      exact hout (hcontained p hp)
  · rintro ⟨hdangle, hback⟩ p hp
    by_contra hout
    have hcanonical : canonicalWithMissingTail t path ≠ p := by
      intro heq
      rw [heq] at haccept
      exact hback ⟨p, hp, haccept, hout⟩
    rcases hp with hpresent | habsent
    · exact hcanonical (canonical_present hpresent)
    · rcases List.eq_nil_or_concat path with rfl | ⟨dir, name, rfl⟩
      · cases habsent
      · rw [List.concat_eq_append] at habsent hdangle hcanonical
        obtain ⟨d, hdir, hmissing⟩ := lookup_absent habsent
        rcases hmissing with ⟨-, hplace⟩ | ⟨target, hlink⟩
        · exact hcanonical ((canonical_absent habsent hdir).trans hplace.symm)
        · exact hdangle ⟨dir, name, d, target, p, rfl, hdir, hlink, habsent, hout⟩

/-- A workspace with a file and a link to a missing file elsewhere. -/
def linkedTree : Tree := fun p =>
  if p = [] ∨ p = [['d']] ∨ p = [['d'], workspaceName] ∨ p = [['x']] then some .dir
  else if p = [['d'], workspaceName, ['f']] then some .file
  else if p = [['d'], workspaceName, ['l']] then some (.link ['/', 'x', '/', 'n'])
  else none

theorem file_contained :
    Contained linkedTree (canonicalRoots (bare (some ['/', 'd'])) linkedTree [])
      [['d'], workspaceName, ['f']] := by
  have haccept : resolveWorkspacePath (bare (some ['/', 'd'])) linkedTree ['f'] [] =
      some [['d'], workspaceName, ['f']] := by decide
  have hroots : canonicalRoots (bare (some ['/', 'd'])) linkedTree [] = [[['d'], workspaceName]] := by
    decide
  have hreach : lookup linkedTree [['d'], workspaceName, ['f']] =
      .present [['d'], workspaceName, ['f']] := by decide
  refine (accepted_contained haccept).mpr ⟨?_, ?_⟩
  · rintro ⟨_, _, _, _, p, -, -, -, habsent, -⟩
    rw [hreach] at habsent
    cases habsent
  · rintro ⟨p, hp, -, hout⟩
    rw [Reaches, hreach] at hp
    rcases hp with hp | hp
    · obtain rfl := Place.present.inj hp
      rw [hroots] at hout
      exact hout ⟨_, List.mem_singleton.mpr rfl, [['f']], rfl⟩
    · cases hp

/-- Creating a file at an accepted path creates it outside the workspace. -/
theorem link_leads_out : ¬ ∀ (w : World) (t : Tree) (raw : Text) (extraRoots : List (Option Text))
    (path : List Text), resolveWorkspacePath w t raw extraRoots = some path →
      Contained t (canonicalRoots w t extraRoots) path := by
  intro h
  have haccept : resolveWorkspacePath (bare (some ['/', 'd'])) linkedTree ['l'] [] =
      some [['d'], workspaceName, ['l']] := by decide +kernel
  have hroots : canonicalRoots (bare (some ['/', 'd'])) linkedTree [] = [[['d'], workspaceName]] := by
    decide
  have hreach : lookup linkedTree [['d'], workspaceName, ['l']] = .absent [['x'], ['n']] := by
    decide
  obtain ⟨root, hroot, hprefix⟩ := h _ _ _ _ _ haccept _ (Or.inr hreach)
  rw [hroots] at hroot
  obtain rfl := List.mem_singleton.mp hroot
  revert hprefix
  decide

end MiqroForge.Workspace
