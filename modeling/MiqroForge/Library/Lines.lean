import MiqroForge.Library.PyText

/-! `str.splitlines`, and the pieces between the line breaks it splits at. -/

namespace PyText

open List

/-- The characters `str.splitlines` splits at. -/
def isLineBreak (c : Char) : Bool :=
  let n := c.toNat
  (10 ≤ n && n ≤ 13) || (28 ≤ n && n ≤ 30) || n == 0x85 || n == 0x2028 || n == 0x2029

def consHead (c : Char) : List Text → List Text
  | [] => [[c]]
  | l :: ls => (c :: l) :: ls

/-- `str.splitlines()`: the break that ends the text opens no line. -/
def splitlines : Text → List Text
  | [] => []
  | '\r' :: '\n' :: r => [] :: splitlines r
  | c :: r => if isLineBreak c then [] :: splitlines r else consHead c (splitlines r)

/-- What is between single line breaks, empty pieces included. -/
def pieces : Text → List Text
  | [] => [[]]
  | c :: r => if isLineBreak c then [] :: pieces r else consHead c (pieces r)

/-- `str.splitlines(keepends=True)`. -/
def splitlinesKeepends : Text → List Text
  | [] => []
  | '\r' :: '\n' :: r => ['\r', '\n'] :: splitlinesKeepends r
  | c :: r => if isLineBreak c then [c] :: splitlinesKeepends r else consHead c (splitlinesKeepends r)

/-- A line that "\n" ends, as `splitlines` returns it: "\r\n" is one break. -/
def chomp (t : Text) : Text := if t.getLast? = some '\r' then t.dropLast else t

theorem ne_return {c : Char} (hc : isLineBreak c = false) : c ≠ '\r' := by
  rintro rfl
  simp [isLineBreak] at hc

@[simp] theorem splitlines_nil : splitlines [] = [] := rfl

theorem splitlines_return (r : Text) : splitlines ('\r' :: '\n' :: r) = [] :: splitlines r := rfl

theorem splitlines_cons {c : Char} {r : Text} (h : ∀ r', c = '\r' → r ≠ '\n' :: r') :
    splitlines (c :: r) =
      if isLineBreak c then [] :: splitlines r else consHead c (splitlines r) := by
  rw [splitlines]
  exact h

theorem splitlines_char {c : Char} (hc : isLineBreak c = false) (r : Text) :
    splitlines (c :: r) = consHead c (splitlines r) := by
  rw [splitlines_cons fun _ h => absurd h (ne_return hc), if_neg (by simp [hc])]

@[simp] theorem pieces_nil : pieces [] = [[]] := rfl

theorem pieces_cons (c : Char) (r : Text) :
    pieces (c :: r) = if isLineBreak c then [] :: pieces r else consHead c (pieces r) := rfl

@[simp] theorem splitlinesKeepends_nil : splitlinesKeepends [] = [] := rfl

theorem splitlinesKeepends_return (r : Text) :
    splitlinesKeepends ('\r' :: '\n' :: r) = ['\r', '\n'] :: splitlinesKeepends r := rfl

theorem splitlinesKeepends_cons {c : Char} {r : Text} (h : ∀ r', c = '\r' → r ≠ '\n' :: r') :
    splitlinesKeepends (c :: r) =
      if isLineBreak c then [c] :: splitlinesKeepends r
      else consHead c (splitlinesKeepends r) := by
  rw [splitlinesKeepends]
  exact h

theorem splitlinesKeepends_char {c : Char} (hc : isLineBreak c = false) (r : Text) :
    splitlinesKeepends (c :: r) = consHead c (splitlinesKeepends r) := by
  rw [splitlinesKeepends_cons fun _ h => absurd h (ne_return hc), if_neg (by simp [hc])]

theorem append_of_consHead {f : Text → List Text}
    (hf : ∀ c r, isLineBreak c = false → f (c :: r) = consHead c (f r)) {t : Text}
    (h : ∀ c ∈ t, isLineBreak c = false) {s l : Text} {ls : List Text} (hs : f s = l :: ls) :
    f (t ++ s) = (t ++ l) :: ls := by
  induction t with
  | nil => exact hs
  | cons c t ih =>
    rw [cons_append, hf c _ (h c mem_cons_self),
      ih fun x hx => h x (mem_cons_of_mem c hx)]
    rfl

variable {t : Text}

theorem splitlines_append (h : ∀ c ∈ t, isLineBreak c = false) {s l : Text}
    {ls : List Text} (hs : splitlines s = l :: ls) : splitlines (t ++ s) = (t ++ l) :: ls :=
  append_of_consHead (fun _ r hc => splitlines_char hc r) h hs

theorem splitlinesKeepends_append (h : ∀ c ∈ t, isLineBreak c = false) {s l : Text}
    {ls : List Text} (hs : splitlinesKeepends s = l :: ls) :
    splitlinesKeepends (t ++ s) = (t ++ l) :: ls :=
  append_of_consHead (fun _ r hc => splitlinesKeepends_char hc r) h hs

theorem splitlines_newline (r : Text) : splitlines ('\n' :: r) = [] :: splitlines r := by
  rw [splitlines_cons (by simp), if_pos (by decide)]

theorem splitlinesKeepends_newline (r : Text) :
    splitlinesKeepends ('\n' :: r) = ['\n'] :: splitlinesKeepends r := by
  rw [splitlinesKeepends_cons (by simp), if_pos (by decide)]

theorem splitlines_line (h : ∀ c ∈ t, isLineBreak c = false) (r : Text) :
    splitlines (t ++ '\n' :: r) = t :: splitlines r := by
  rw [splitlines_append h (splitlines_newline r), append_nil]

theorem chomp_cases (t : Text) : chomp t = t ∨ t = chomp t ++ ['\r'] := by
  unfold chomp
  split
  case isTrue h => exact Or.inr (dropLast_append_getLast? '\r' h).symm
  case isFalse => exact Or.inl rfl

theorem chomp_unbroken (h : ∀ c ∈ t, isLineBreak c = false) : chomp t = t := by
  refine if_neg fun hlast => ?_
  exact absurd rfl (ne_return (h '\r' (mem_of_getLast? hlast)))

theorem chomp_append (ht : t.getLast? ≠ some '\r') (s : Text) :
    chomp (t ++ s) = t ++ chomp s := by
  unfold chomp
  cases s with
  | nil => rw [append_nil, if_neg ht, if_neg (by simp), append_nil]
  | cons c s =>
    rw [getLast?_append_of_ne_nil t (cons_ne_nil c s)]
    split
    · rw [dropLast_append_of_ne_nil (cons_ne_nil c s)]
    · rfl

theorem splitlines_chomp (h : ∀ c ∈ chomp t, isLineBreak c = false) (r : Text) :
    splitlines (t ++ '\n' :: r) = chomp t :: splitlines r := by
  rcases chomp_cases t with ht | ht
  · rw [ht] at h ⊢
    exact splitlines_line h r
  · have hline := splitlines_append h (splitlines_return r)
    rw [append_nil] at hline
    rw [← hline]
    nth_rewrite 1 [ht]
    rw [append_assoc, singleton_append]

theorem splitlines_chomped {ls : List Text} (h : ∀ l ∈ ls, ∀ c ∈ chomp l, isLineBreak c = false) :
    splitlines (ls.flatMap (· ++ ['\n'])) = ls.map chomp := by
  induction ls with
  | nil => rfl
  | cons l ls ih =>
    obtain ⟨hl, hls⟩ := forall_mem_cons.mp h
    rw [flatMap_cons, append_assoc, singleton_append, splitlines_chomp hl, ih hls,
      map_cons]

theorem splitlinesKeepends_line (h : ∀ c ∈ chomp t, isLineBreak c = false) (r : Text) :
    splitlinesKeepends (t ++ '\n' :: r) = (t ++ ['\n']) :: splitlinesKeepends r := by
  rcases chomp_cases t with ht | ht
  · rw [ht] at h
    exact splitlinesKeepends_append h (splitlinesKeepends_newline r)
  · have hline := splitlinesKeepends_append h (splitlinesKeepends_return r)
    rw [ht, append_assoc, append_assoc]
    exact hline

theorem splitlinesKeepends_last (hne : t ≠ [])
    (h : ∀ c ∈ t.dropLast, isLineBreak c = false) : splitlinesKeepends t = [t] := by
  have hlast : splitlinesKeepends [t.getLast hne] = [[t.getLast hne]] := by
    rw [splitlinesKeepends_cons (by simp)]
    split <;> rfl
  have hsplit := splitlinesKeepends_append h hlast
  rwa [dropLast_append_getLast hne] at hsplit

theorem splitlines_lines {ls : List Text} (h : ∀ l ∈ ls, ∀ c ∈ l, isLineBreak c = false) :
    splitlines (ls.flatMap (· ++ ['\n'])) = ls := by
  induction ls with
  | nil => rfl
  | cons l ls ih =>
    obtain ⟨hl, hls⟩ := forall_mem_cons.mp h
    rw [flatMap_cons, append_assoc, singleton_append, splitlines_line hl, ih hls]

theorem intercalate_newline {l : Text} {ls : List Text} :
    ['\n'].intercalate (l :: ls) ++ ['\n'] = (l :: ls).flatMap (· ++ ['\n']) := by
  induction ls generalizing l with
  | nil => simp
  | cons l' ls ih => rw [intercalate_cons_cons, append_assoc, ih]; simp

theorem pieces_ne_nil (s : Text) : pieces s ≠ [] := by
  cases s with
  | nil => simp
  | cons c s =>
    rw [pieces_cons]
    split
    · simp
    · cases pieces s <;> simp [consHead]

theorem pieces_append (a b : Text) (c : Char) (hc : isLineBreak c = true) :
    pieces (a ++ c :: b) = pieces a ++ pieces b := by
  induction a with
  | nil => simp [pieces_cons, hc]
  | cons x a ih =>
    rw [cons_append, pieces_cons, pieces_cons, ih]
    split
    · rfl
    · obtain ⟨l, ls, hp⟩ := exists_cons_of_ne_nil (pieces_ne_nil a)
      rw [hp]
      rfl

theorem pieces_unbroken (s : Text) (h : ∀ c ∈ s, isLineBreak c = false) : pieces s = [s] := by
  induction s with
  | nil => rfl
  | cons c s ih =>
    have hc := h c mem_cons_self
    rw [pieces_cons, hc, ih fun x hx => h x (mem_cons_of_mem c hx)]
    rfl

theorem mem_pieces_unbroken {s p : Text} (h : p ∈ pieces s) : ∀ c ∈ p, isLineBreak c = false := by
  induction s generalizing p with
  | nil =>
    obtain rfl := mem_singleton.mp h
    intro c hc
    cases hc
  | cons x s ih =>
    rw [pieces_cons] at h
    split at h
    case isTrue =>
      rcases mem_cons.mp h with rfl | h
      · nofun
      · exact ih h
    case isFalse hx =>
      obtain ⟨l, ls, hp⟩ := exists_cons_of_ne_nil (pieces_ne_nil s)
      rw [hp] at h ih
      rcases mem_cons.mp h with rfl | h
      · intro c hc
        rcases mem_cons.mp hc with rfl | hc
        · exact Bool.not_eq_true _ ▸ hx
        · exact ih mem_cons_self c hc
      · exact ih (mem_cons_of_mem l h)

theorem splitlines_cases {β : Type} (f : Text → Option β) (hf : f [] = none) (s : Text) :
    s = [] ∨ ∃ l ls ls', splitlines s = l :: ls ∧ pieces s = l :: ls' ∧
      ls.filterMap f = ls'.filterMap f := by
  have hrest : ∀ r : Text, (r = [] ∨ ∃ l ls ls', splitlines r = l :: ls ∧ pieces r = l :: ls' ∧
      ls.filterMap f = ls'.filterMap f) →
      (splitlines r).filterMap f = (pieces r).filterMap f := by
    rintro r (rfl | ⟨l, ls, ls', hl, hp, heq⟩)
    · simp [hf]
    · rw [hl, hp, filterMap_cons, filterMap_cons, heq]
  induction s using splitlines.induct with
  | case1 => exact Or.inl rfl
  | case2 r ih =>
    have hcr : isLineBreak '\r' = true := by decide
    have hlf : isLineBreak '\n' = true := by decide
    refine Or.inr ⟨[], splitlines r, [] :: pieces r, splitlines_return r,
      by simp [pieces_cons, hcr, hlf], ?_⟩
    rw [filterMap_cons, hf]
    exact hrest r ih
  | case3 c r hne hc ih =>
    refine Or.inr ⟨[], splitlines r, pieces r, ?_, by simp [pieces_cons, hc], hrest r ih⟩
    rw [splitlines_cons fun r' h hr => hne r' h hr, if_pos hc]
  | case4 c r hne hc ih =>
    have hs : splitlines (c :: r) = consHead c (splitlines r) := by
      rw [splitlines_cons fun r' h hr => hne r' h hr, if_neg hc]
    have hp : pieces (c :: r) = consHead c (pieces r) := by
      rw [pieces_cons, if_neg hc]
    rcases ih with rfl | ⟨l, ls, ls', hl, hl', heq⟩
    · exact Or.inr ⟨[c], [], [], hs, hp, rfl⟩
    · refine Or.inr ⟨c :: l, ls, ls', ?_, ?_, heq⟩
      · rw [hs, hl]
        rfl
      · rw [hp, hl']
        rfl

theorem filterMap_splitlines {β : Type} (f : Text → Option β) (hf : f [] = none) (s : Text) :
    (splitlines s).filterMap f = (pieces s).filterMap f := by
  rcases splitlines_cases f hf s with rfl | ⟨l, ls, ls', hl, hp, heq⟩
  · simp [hf]
  · rw [hl, hp, filterMap_cons, filterMap_cons, heq]

end PyText
