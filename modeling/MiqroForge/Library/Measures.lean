import MiqroForge.Library.TextFiles

/-! The sizes of a text, in bytes and in lines, and the longest run of lines that fits a budget. -/

namespace PyText

open List

open TextFiles (encode)

/-- `len(text.encode("utf-8"))` -/
def bytes (t : Text) : Nat := (encode t).length

/-- `len(text.split("\n"))` -/
def lineCount (t : Text) : Nat := (t.splitOn '\n').length

/-- `"\n".join(lines)` -/
def joinLines (ls : List Text) : Text := ['\n'].intercalate ls

/-- `text[:n]` -/
def takeTo (t : Text) (n : Int) : Text :=
  if 0 ≤ n then t.take n.toNat else t.take (t.length - n.natAbs)

/-! ## Bytes -/

@[simp] theorem bytes_nil : bytes [] = 0 := rfl

@[simp] theorem bytes_cons (c : Char) (t : Text) : bytes (c :: t) = c.utf8Size + bytes t := by
  simp [bytes, encode]

@[simp] theorem bytes_append (s t : Text) : bytes (s ++ t) = bytes s + bytes t := by
  simp [bytes, encode]

theorem length_le_bytes (t : Text) : t.length ≤ bytes t := by
  induction t with
  | nil => simp
  | cons c t ih =>
    have hpos := c.utf8Size_pos
    rw [length_cons, bytes_cons]
    omega

theorem bytes_mono {s t : Text} (h : s <+: t) : bytes s ≤ bytes t := by
  obtain ⟨r, rfl⟩ := h
  simp

theorem bytes_le_length_iff (t : Text) : bytes t ≤ t.length ↔ ∀ c ∈ t, c.val ≤ 127 := by
  induction t with
  | nil => simp
  | cons c t ih =>
    have hpos := c.utf8Size_pos
    have hlen := length_le_bytes t
    rw [forall_mem_cons, ← ih, ← Char.utf8Size_eq_one_iff, bytes_cons, length_cons]
    omega

/-! ## Lines -/

theorem length_splitOn {α : Type} [BEq α] [LawfulBEq α] (l : List α) (a : α) :
    (l.splitOn a).length = l.count a + 1 := by
  induction l with
  | nil => rfl
  | cons b l ih =>
    rw [splitOn_cons_eq_if_modifyHead]
    by_cases h : b = a
    · simp [h, ih]
    · simp [h, ih, count_cons_of_ne h]

theorem not_mem_of_mem_splitOn {α : Type} [BEq α] [LawfulBEq α] {l t : List α} {a : α}
    (h : l ∈ t.splitOn a) : a ∉ l := by
  induction t generalizing l with
  | nil => simp_all
  | cons b t ih =>
    rw [splitOn_cons_eq_if_modifyHead] at h
    by_cases hb : b = a
    · simp only [hb, beq_self_eq_true, if_true, mem_cons] at h
      rcases h with rfl | h
      · exact not_mem_nil
      · exact ih h
    · simp only [beq_iff_eq, hb, if_false] at h
      cases hsplit : t.splitOn a with
      | nil => exact absurd hsplit (splitOn_ne_nil a t)
      | cons l' ls =>
        rw [hsplit, modifyHead_cons, mem_cons] at h
        rcases h with rfl | h
        · rw [mem_cons, not_or]
          exact ⟨Ne.symm hb, ih (hsplit ▸ mem_cons_self)⟩
        · exact ih (hsplit ▸ mem_cons_of_mem l' h)

theorem lineCount_eq (t : Text) : lineCount t = t.count '\n' + 1 := length_splitOn t '\n'

theorem lineCount_joinLines {ls : List Text} (h : ∀ l ∈ ls, '\n' ∉ l) :
    lineCount (joinLines ls) = max 1 ls.length := by
  cases ls with
  | nil => rfl
  | cons l ls =>
    rw [lineCount, joinLines, splitOn_intercalate '\n' h (cons_ne_nil l ls)]
    simp

theorem joinLines_concat (ls : List Text) (l : Text) :
    joinLines (ls ++ [l]) = if ls = [] then l else joinLines ls ++ '\n' :: l := by
  induction ls with
  | nil => simp [joinLines]
  | cons k ls ih =>
    cases ls with
    | nil => simp [joinLines]
    | cons m ls =>
      rw [if_neg (cons_ne_nil m ls)] at ih
      simp only [joinLines, cons_append, intercalate_cons_cons, reduceCtorEq,
        if_false] at ih ⊢
      rw [ih]
      simp

theorem bytes_joinLines_concat (ls : List Text) (l : Text) :
    bytes (joinLines (ls ++ [l])) =
      bytes (joinLines ls) + (bytes l + if ls = [] then 0 else 1) := by
  have hnewline : ('\n' : Char).utf8Size = 1 := rfl
  rw [joinLines_concat]
  by_cases h : ls = []
  · simp [h, joinLines]
  · simp only [h, if_false, bytes_append, bytes_cons, hnewline]
    omega

theorem prefix_joinLines {ks ls : List Text} (h : ks <+: ls) : joinLines ks <+: joinLines ls := by
  obtain ⟨rest, rfl⟩ := h
  induction rest using reverseRecOn with
  | nil => simp
  | append_singleton rest l ih =>
    refine ih.trans ?_
    rw [← append_assoc, joinLines_concat]
    by_cases hnil : ks ++ rest = []
    · simp [hnil, joinLines]
    · rw [if_neg hnil]
      exact prefix_append _ _

end PyText
