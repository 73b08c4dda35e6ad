import MiqroForge.Patch.Apply

/-!
Unified diffs as they are printed. A diff of a file alternates unchanged lines with hunks; its two
texts and its printed form are read off it.
-/

namespace MiqroForge.Patch

open PyText

/-- A line of a text, with "\n" behind it or, at the end of the text, without. -/
structure Line where
  body : Text
  ended : Bool
deriving DecidableEq

def Line.text (l : Line) : Text := l.body ++ if l.ended then ['\n'] else []

def textOf (ls : List Line) : Text := ls.flatMap Line.text

/-- The lines of a text: only the last may lack its "\n", and is then not empty. -/
def IsText : List Line → Prop
  | [] => True
  | l :: ls => '\n' ∉ l.body ∧ (l.ended = false → ls = [] ∧ l.body ≠ []) ∧ IsText ls

inductive Op where
  | keep
  | delete
  | insert
deriving DecidableEq

def Op.sign : Op → Char
  | .keep => ' '
  | .delete => '-'
  | .insert => '+'

structure Change where
  op : Op
  line : Line
deriving DecidableEq

/-- The unchanged lines before a hunk, its lines, and what is printed behind its ranges. -/
structure Section where
  gap : List Line
  changes : List Change
  heading : Text

def Section.old (s : Section) : List Line := (s.changes.filter (·.op ≠ .insert)).map (·.line)

def Section.new (s : Section) : List Line := (s.changes.filter (·.op ≠ .delete)).map (·.line)

def oldLines (ss : List Section) : List Line := ss.flatMap fun s => s.gap ++ s.old

def newLines (ss : List Section) : List Line := ss.flatMap fun s => s.gap ++ s.new

/-- The diff of one file, with `blank` blank lines behind it. -/
structure FileDiff where
  oldName : Text
  newName : Text
  sections : List Section
  tail : List Line
  blank : Nat
  hunk_exists : sections ≠ []
  old_lines : IsText (oldLines sections ++ tail)
  new_lines : IsText (newLines sections ++ tail)

def FileDiff.original (d : FileDiff) : Text := textOf (oldLines d.sections ++ d.tail)

def FileDiff.new (d : FileDiff) : Text := textOf (newLines d.sections ++ d.tail)

/-! ## Printing -/

/-- An empty range is given by the line before it. -/
def firstLine (index count : Nat) : Nat := if count = 0 then index else index + 1

def rangeText (start count : Nat) : Text :=
  lineNumber start ++ if count = 1 then [] else ',' :: lineNumber count

def headerLine (oldStart oldCount newStart newCount : Nat) (heading : Text) : Text :=
  "@@ -".toList ++ (rangeText oldStart oldCount ++ (" +".toList ++ (rangeText newStart newCount ++
    (" @@".toList ++ heading))))

def Change.written (c : Change) : Text := c.op.sign :: c.line.body

def Change.lines (c : Change) : List Text :=
  c.written :: if c.line.ended then [] else ["\\ No newline at end of file".toList]

/-- The hunks printed, from the line `o` of the original and the line `n` of the new text on. -/
def sectionLines (o n : Nat) : List Section → List Text
  | [] => []
  | s :: ss =>
    headerLine (firstLine (o + s.gap.length) s.old.length) s.old.length
      (firstLine (n + s.gap.length) s.new.length) s.new.length s.heading ::
    (s.changes.flatMap Change.lines ++
      sectionLines (o + s.gap.length + s.old.length) (n + s.gap.length + s.new.length) ss)

def FileDiff.lines (d : FileDiff) : List Text :=
  ("--- ".toList ++ d.oldName) :: ("+++ ".toList ++ d.newName) ::
    (sectionLines 0 0 d.sections ++ List.replicate d.blank [])

/-- The printed patch. -/
def patchText (ds : List FileDiff) : Text := (ds.flatMap FileDiff.lines).flatMap (· ++ ['\n'])

end MiqroForge.Patch
