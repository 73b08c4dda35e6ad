import MiqroForge.Library.PyRepr
import MiqroForge.Library.Lines

/-! The unified diffs that `apply_patch` reads. -/

namespace MiqroForge.Patch

open PyText

/-- `\d`, with the value `int` gives the digit. -/
structure Host extends PyRepr.Python where
  decimal : Char → Option Nat
  decimal_digit : ∀ c, c.isDigit = true → decimal c = some (c.toNat - '0'.toNat)
  decimal_ascii : ∀ c, c.toNat < 128 → c.isDigit = false → decimal c = none

/-- The lines carry their prefix, ' ', '-' or '+'. -/
structure Hunk where
  oldStart : Nat
  oldCount : Nat
  newStart : Nat
  newCount : Nat
  lines : List Text
deriving DecidableEq

structure FilePatch where
  path : Text
  hunks : List Hunk
deriving DecidableEq

def startsWith (line pattern : Text) : Bool := pattern.isPrefixOf line

def stripPrefix (path : Text) : Text :=
  if startsWith path "a/".toList || startsWith path "b/".toList then path.drop 2 else path

/-- The path that the two header lines of a file name, from the new one where it has one. -/
def filePath (oldLine newLine : Text) : Text :=
  let newPath := stripPrefix (strip (newLine.drop 4))
  if newPath = [] then stripPrefix (strip (oldLine.drop 4)) else newPath

section Header
variable (host : Host)

/-- `int` of decimal digits. -/
def int (digits : Text) : Nat :=
  digits.foldl (fun n c => 10 * n + (host.decimal c).getD 0) 0

/-- `(\d+)` -/
def number? (t : Text) : Option (Nat × Text) :=
  let digits := t.takeWhile fun c => (host.decimal c).isSome
  if digits = [] then none else some (int host digits, t.drop digits.length)

/-- `(\d+)(?:,(\d+))?`, the count being 1 where it is left out. -/
def range? (t : Text) : Option ((Nat × Nat) × Text) := do
  let (start, t) ← number? host t
  match t with
  | ',' :: t =>
    let (count, t) ← number? host t
    return ((start, count), t)
  | t => return ((start, 1), t)

/-- `\s+` -/
def spaces? : Text → Option Text
  | [] => none
  | c :: t => if isSpace c then some (t.dropWhile isSpace) else none

def literal? (pattern t : Text) : Option Text :=
  if startsWith t pattern then some (t.drop pattern.length) else none

/-- `_HUNK_RE.match`: the old and the new range. -/
def hunkRe (line : Text) : Option ((Nat × Nat) × (Nat × Nat)) := do
  let t ← literal? "@@".toList line
  let t ← spaces? t
  let t ← literal? ['-'] t
  let (old, t) ← range? host t
  let t ← spaces? t
  let t ← literal? ['+'] t
  let (new, t) ← range? host t
  let t ← spaces? t
  let _comment ← literal? "@@".toList t
  return (old, new)

end Header

/-! ## `parse_patch` -/

def lineNumber (i : Nat) : Text := Nat.toDigits 10 i

section Parse
variable (host : Host)

/-- What a line behind a hunk header adds to the hunk. An empty line is an empty context line, and
"\\ No newline at end of file" adds nothing. -/
def readHunkLine (i : Nat) : Text → Except Text (List Text)
  | [] => .ok [[' ']]
  | c :: body =>
    if c = ' ' ∨ c = '-' ∨ c = '+' then .ok [c :: body]
    else if c = '\\' then .ok []
    else .error ("Unexpected line in hunk at line ".toList ++ lineNumber (i + 1) ++ ": ".toList ++
      PyRepr.reprString host.toPython (c :: body))

/-- A hunk goes on up to the next header. -/
def inHunk (inner : Text) : Bool := !(startsWith inner "@@".toList || startsWith inner "--- ".toList)

def readHunkLines (i : Nat) : List Text → Except Text (List Text)
  | [] => .ok []
  | inner :: rest => do
    let read ← readHunkLine host i inner
    let lines ← readHunkLines (i + 1) rest
    return read ++ lines

/-- The hunks of one file, and what is behind them. -/
def readHunks (i : Nat) : List Text → Except Text (List Hunk × Nat × List Text)
  | [] => .ok ([], i, [])
  | line :: rest =>
    -- a second "+++ " line ends the file as well, and is then no file header
    if startsWith line "--- ".toList || startsWith line "+++ ".toList then .ok ([], i, line :: rest)
    else if !startsWith line "@@".toList then
      .error ("Expected hunk header at line ".toList ++ lineNumber (i + 1) ++ ", got: ".toList ++
        PyRepr.reprString host.toPython line)
    else match hunkRe host line with
      | none => .error ("Malformed hunk header at line ".toList ++ lineNumber (i + 1) ++
          ": ".toList ++ PyRepr.reprString host.toPython line)
      | some (old, new) => do
        let lines ← readHunkLines host (i + 1) (rest.takeWhile inHunk)
        let (hunks, j, rest) ← readHunks (i + 1 + (rest.takeWhile inHunk).length)
          (rest.dropWhile inHunk)
        return (⟨old.1, old.2, new.1, new.2, lines⟩ :: hunks, j, rest)
termination_by lines => lines.length
decreasing_by exact Nat.lt_succ_of_le (List.length_dropWhile_le _ _)

theorem readHunks_length {i : Nat} {lines : List Text} {hunks : List Hunk} {j : Nat}
    {rest : List Text} (h : readHunks host i lines = .ok (hunks, j, rest)) :
    rest.length ≤ lines.length := by
  induction i, lines using readHunks.induct host generalizing hunks j rest with
  | case1 i =>
    rw [readHunks] at h
    cases h
    exact Nat.le_refl _
  | case2 i line lines hend =>
    rw [readHunks, if_pos hend] at h
    cases h
    exact Nat.le_refl _
  | case3 i line lines hend hat =>
    rw [readHunks, if_neg hend, if_pos hat] at h
    cases h
  | case4 i line lines hend hat hre =>
    rw [readHunks, if_neg hend, if_neg hat, hre] at h
    cases h
  | case5 i line lines hend hat old new hre ih =>
    rw [readHunks, if_neg hend, if_neg hat, hre] at h
    cases hread : readHunkLines host (i + 1) (lines.takeWhile inHunk) with
    | error e => simp only [hread] at h; cases h
    | ok read =>
      cases hhunks : readHunks host (i + 1 + (lines.takeWhile inHunk).length)
          (lines.dropWhile inHunk) with
      | error e => simp only [hread, hhunks] at h; cases h
      | ok result =>
        obtain ⟨more, k, behind⟩ := result
        simp only [hread, hhunks] at h
        cases h
        exact ((ih hhunks).trans (List.length_dropWhile_le _ _)).trans (Nat.le_succ _)

/-- The file sections. -/
def parseFiles (i : Nat) : List Text → Except Text (List FilePatch)
  | [] => .ok []
  | line :: rest =>
    if isBlank line then parseFiles (i + 1) rest
    else if !startsWith line "--- ".toList then
      .error ("Expected '--- ' file header at line ".toList ++ lineNumber (i + 1))
    else match rest with
      | [] => .error ("Expected '+++ ' file header after line ".toList ++ lineNumber (i + 1))
      | line' :: rest =>
        if !startsWith line' "+++ ".toList then
          .error ("Expected '+++ ' file header after line ".toList ++ lineNumber (i + 1))
        else
          let path := filePath line line'
          match _h : readHunks host (i + 2) rest with
          | .error e => .error e
          | .ok (hunks, j, rest) =>
            if hunks = [] then
              .error ("No hunks found for file ".toList ++ PyRepr.reprString host.toPython path)
            else do
              let files ← parseFiles j rest
              return ⟨path, hunks⟩ :: files
termination_by lines => lines.length
decreasing_by
  · exact Nat.lt_succ_self _
  · exact Nat.lt_succ_of_lt (Nat.lt_succ_of_le (readHunks_length host _h))

def parsePatch (text : Text) : Except Text (List FilePatch) := do
  let files ← parseFiles host 0 (splitlines text)
  if files = [] then throw "No file headers found in patch".toList
  return files

end Parse

end MiqroForge.Patch
