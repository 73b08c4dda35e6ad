import MiqroForge.Library.PyText

/-!
Regular expressions matched by backtracking over a text: the end positions of a match
from a given start, in the order a backtracking matcher tries them.
-/

namespace Regex

open PyText

inductive Re where
  | empty
  | char (p : Char → Bool)
  | boundary
  | seq (a b : Re)
  | alt (a b : Re)
  | star (a : Re)

namespace Re

/-- The letters of a fixed text. -/
def lit (s : String) : Re := s.toList.foldr (fun c r => seq (char (· == c)) r) empty

def opt (a : Re) : Re := alt a empty

/-- The expressions one after another. -/
def all (rs : List Re) : Re := rs.foldr seq empty

/-- One of the expressions, the earlier ones first. -/
def oneOf : List Re → Re
  | [] => char fun _ => false
  | [r] => r
  | r :: rs => alt r (oneOf rs)

/-- At least `lo` and at most `lo + more` copies, the longer first. -/
def repeated (a : Re) : (lo more : Nat) → Re
  | 0, 0 => empty
  | 0, more + 1 => opt (seq a (repeated a 0 more))
  | lo + 1, more => seq a (repeated a lo more)

def spaces : Re := star (char isSpace)

end Re

section Match
variable (isWord : Char → Bool) (t : Text)

def wordAt (i : Nat) : Bool := (t[i]?.map isWord).getD false

/-- A word boundary at position `i`. -/
def atBoundary (i : Nat) : Bool :=
  (if i = 0 then false else wordAt isWord t (i - 1)) != wordAt isWord t i

/-- Greedy repetition, at most `fuel` rounds, each of which reads something. -/
def repeatEnds (step : Nat → List Nat) : (fuel i : Nat) → List Nat
  | 0, i => [i]
  | fuel + 1, i => ((step i).filter (i < ·)).flatMap (repeatEnds step fuel) ++ [i]

/-- The ends of the matches that start at a position, the preferred one first. -/
def ends : Re → Nat → List Nat
  | .empty, i => [i]
  | .char p, i => if (t[i]?.map p).getD false then [i + 1] else []
  | .boundary, i => if atBoundary isWord t i then [i] else []
  | .seq a b, i => (ends a i).flatMap (ends b)
  | .alt a b, i => ends a i ++ ends b i
  | .star a, i => repeatEnds (ends a) t.length i

/-- `re.match`: the end of the match at the start of the text. -/
def matchStart (r : Re) : Option Nat := (ends isWord t r 0).head?

def fullMatch (r : Re) : Bool := (ends isWord t r 0).contains t.length

/-- `re.search` from a position on: start and end of the first match. -/
def searchFrom (r : Re) : (fuel i : Nat) → Option (Nat × Nat)
  | 0, i => (ends isWord t r i).head?.map (i, ·)
  | fuel + 1, i =>
    match (ends isWord t r i).head? with
    | some e => some (i, e)
    | none => searchFrom r fuel (i + 1)

def search (r : Re) : Option (Nat × Nat) := searchFrom isWord t r t.length 0

/-- `re.finditer`, from position `i` on. -/
def findIterFrom (r : Re) : (fuel i : Nat) → List (Nat × Nat)
  | 0, _ => []
  | fuel + 1, i =>
    if i > t.length then []
    else
      match searchFrom isWord t r (t.length - i) i with
      | some (s, e) => (s, e) :: findIterFrom r fuel (if e = s then e + 1 else e)
      | none => []

def findIter (r : Re) : List (Nat × Nat) := findIterFrom isWord t r (t.length + 1) 0

end Match

end Regex
