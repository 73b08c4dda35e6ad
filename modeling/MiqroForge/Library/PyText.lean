import Mathlib.Data.List.DropRight

/-! Python string operations on texts, a text being the list of its code points. -/

namespace PyText

open List

abbrev Text := List Char

instance : LawfulBEq Text := inferInstance

/-- `str.isspace` of one character. -/
def isSpace (c : Char) : Bool :=
  let n := c.toNat
  (9 ≤ n && n ≤ 13) || (28 ≤ n && n ≤ 32) || n == 0x85 || n == 0xa0 || n == 0x1680 ||
    (0x2000 ≤ n && n ≤ 0x200a) || n == 0x2028 || n == 0x2029 || n == 0x202f || n == 0x205f ||
    n == 0x3000

theorem forall_of_all {p : Char → Prop} [DecidablePred p] {t : Text}
    (h : (t.all fun c => decide (p c)) = true) : ∀ c ∈ t, p c := by
  simpa using h

variable {p : Char → Bool}

theorem char_ne {c d : Char} (hc : p c = true) (hd : p d = false) : c ≠ d := by
  rintro rfl
  rw [hc] at hd
  cases hd

def lstripBy (p : Char → Bool) (t : Text) : Text := t.dropWhile p

def rstripBy (p : Char → Bool) (t : Text) : Text := (t.reverse.dropWhile p).reverse

/-- `str.strip(chars)`, the set of characters given as a predicate. -/
def stripBy (p : Char → Bool) (t : Text) : Text := rstripBy p (lstripBy p t)

/-- `str.strip()`. -/
def strip (t : Text) : Text := stripBy isSpace t

theorem rstripBy_append (p : Char → Bool) (s t : Text) :
    rstripBy p (s ++ t) = if rstripBy p t = [] then rstripBy p s else s ++ rstripBy p t := by
  unfold rstripBy
  rw [reverse_append, dropWhile_append]
  cases t.reverse.dropWhile p with
  | nil => simp
  | cons c t => simp

theorem rstripBy_spaces {t : Text} (ht : ∀ c ∈ t, p c = true) :
    rstripBy p t = [] := by
  simpa [rstripBy] using ht

variable {c : Char}

theorem rstripBy_cons_not (hc : p c = false) (t : Text) :
    rstripBy p (c :: t) = c :: rstripBy p t := by
  have h := rstripBy_append p [c] t
  rw [singleton_append] at h
  rw [h]
  split
  case isTrue ht =>
    rw [ht]
    simp [rstripBy, hc]
  case isFalse => rfl

theorem rstripBy_concat_not (hc : p c = false) (t : Text) :
    rstripBy p (t ++ [c]) = t ++ [c] := by
  simp [rstripBy, hc]

theorem strip_concat_space (hc : isSpace c = true) (t : Text) :
    strip (t ++ [c]) = strip t := by
  have hlast : rstripBy isSpace [c] = [] := rstripBy_spaces (by simpa using hc)
  unfold strip stripBy lstripBy
  rw [dropWhile_append]
  split
  case isTrue h => simp [isEmpty_iff.mp h, hc]
  case isFalse => rw [rstripBy_append, if_pos hlast]

theorem strip_decomp (s : Text) : ∃ a b, s = a ++ strip s ++ b ∧ (∀ c ∈ a, isSpace c = true) ∧
    ∀ c ∈ b, isSpace c = true := by
  refine ⟨s.takeWhile isSpace, ((s.dropWhile isSpace).reverse.takeWhile isSpace).reverse,
    ?_, ?_, ?_⟩
  · unfold strip stripBy rstripBy lstripBy
    rw [append_assoc, ← reverse_append, takeWhile_append_dropWhile,
      reverse_reverse, takeWhile_append_dropWhile]
  · intro c hc
    exact mem_takeWhile_imp hc
  · intro c hc
    exact mem_takeWhile_imp (mem_reverse.mp hc)

theorem mem_strip (hc : isSpace c = false) {t : Text} (h : c ∈ t) : c ∈ strip t := by
  obtain ⟨a, b, ht, ha, hb⟩ := strip_decomp t
  rw [ht] at h
  rcases mem_append.mp h with h | h
  · rcases mem_append.mp h with h | h
    · exact absurd (ha c h) (by simp [hc])
    · exact h
  · exact absurd (hb c h) (by simp [hc])

theorem mem_of_mem_strip {t : Text} (h : c ∈ strip t) : c ∈ t := by
  obtain ⟨a, b, ht, -, -⟩ := strip_decomp t
  rw [ht]
  simp [h]

theorem strip_map {f : Char → Char} (hf : ∀ c, isSpace (f c) = isSpace c) (t : Text) :
    strip (t.map f) = (strip t).map f := by
  have hcomp : isSpace ∘ f = isSpace := funext hf
  unfold strip stripBy rstripBy lstripBy
  rw [dropWhile_map, hcomp, ← map_reverse, dropWhile_map, hcomp, map_reverse]

theorem lstripBy_cons_not (hc : p c = false) (t : Text) :
    lstripBy p (c :: t) = c :: t :=
  dropWhile_cons_of_neg (by simp [hc])

theorem strip_ends {c d : Char} (hc : isSpace c = false) (hd : isSpace d = false) (t : Text) :
    strip (c :: (t ++ [d])) = c :: (t ++ [d]) := by
  rw [strip, stripBy, lstripBy_cons_not hc, ← cons_append]
  exact rstripBy_concat_not hd _

theorem strip_strip (t : Text) : strip (strip t) = strip t := by
  have hr : ∀ u : Text, rstripBy isSpace (rstripBy isSpace u) = rstripBy isSpace u :=
    fun u => rdropWhile_idempotent isSpace u
  unfold strip stripBy
  cases hl : lstripBy isSpace t with
  | nil => rfl
  | cons c u =>
    have hhead : lstripBy isSpace (c :: u) = c :: u := by
      rw [← hl]
      exact dropWhile_idempotent isSpace t
    have hc : isSpace c = false := by
      by_contra h
      rw [Bool.not_eq_false] at h
      rw [lstripBy, dropWhile_cons_of_pos h] at hhead
      have hlength := congrArg List.length hhead
      have hle := (dropWhile_suffix (l := u) isSpace).length_le
      rw [length_cons] at hlength
      omega
    rw [rstripBy_cons_not hc, lstripBy_cons_not hc, ← rstripBy_cons_not hc]
    exact hr (c :: u)

/-- `str.split()`. -/
def splitSpaces (t : Text) : List Text := (t.splitOnP isSpace).filter fun w => !w.isEmpty

/-- `str.find(pat)`, with no index for a pattern that does not occur. -/
def find? (pat : Text) : Text → Option Nat
  | [] => if pat = [] then some 0 else none
  | c :: rest => if pat.isPrefixOf (c :: rest) then some 0 else (find? pat rest).map (· + 1)

/-- `str.find(pat, start)`. -/
def findFrom? (pat : Text) (start : Nat) (t : Text) : Option Nat :=
  (find? pat (t.drop start)).map (· + start)

/-- `not s.strip()`. -/
def isBlank (t : Text) : Bool := t.all isSpace

end PyText
