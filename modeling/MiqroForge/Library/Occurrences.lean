import MiqroForge.Library.PyText

/-!
# Where a text occurs in a text

Occurrences are counted as they overlap; `str.find` gives the first one.
-/

namespace PyText

/-- The pattern stands in the text at a position. -/
def OccursAt (pat t : Text) (i : Nat) : Prop := i ≤ t.length ∧ pat <+: t.drop i

/-- The pattern stands in the text at one position, overlapping ones counted. -/
def OccursOnce (pat t : Text) : Prop := ∃ i, OccursAt pat t i ∧ ∀ j, OccursAt pat t j → j = i

instance (pat t : Text) (i : Nat) : Decidable (OccursAt pat t i) :=
  inferInstanceAs (Decidable (_ ∧ _))

instance (pat t : Text) : Decidable (OccursOnce pat t) :=
  decidable_of_iff (((List.range (t.length + 1)).any fun i => decide (OccursAt pat t i) &&
      (List.range (t.length + 1)).all fun j => decide (OccursAt pat t j → j = i)) = true) <| by
    simp only [List.any_eq_true, List.all_eq_true, Bool.and_eq_true, decide_eq_true_eq]
    constructor
    · rintro ⟨i, -, hi, hall⟩
      exact ⟨i, hi, fun j hj => hall j (List.mem_range.mpr (Nat.lt_succ_of_le hj.1)) hj⟩
    · rintro ⟨i, hi, hall⟩
      exact ⟨i, List.mem_range.mpr (Nat.lt_succ_of_le hi.1), hi, fun j _ hj => hall j hj⟩

theorem occursAt_append (before pat after : Text) :
    OccursAt pat (before ++ pat ++ after) before.length := by
  constructor
  · simp
  · rw [List.append_assoc, List.drop_left]
    exact List.prefix_append pat after

variable {pat t : Text}

theorem OccursAt.split {i : Nat} (h : OccursAt pat t i) :
    t = t.take i ++ pat ++ t.drop (i + pat.length) := by
  obtain ⟨-, rest, hrest⟩ := h
  have hdrop : t.drop (i + pat.length) = rest := by
    rw [← List.drop_drop, ← hrest, List.drop_left]
  rw [hdrop, List.append_assoc, hrest, List.take_append_drop]

theorem OccursAt.of_drop {i j : Nat} (h : OccursAt pat (t.drop i) j)
    (hi : i ≤ t.length) : OccursAt pat t (i + j) := by
  obtain ⟨hle, hpre⟩ := h
  rw [List.length_drop] at hle
  rw [List.drop_drop] at hpre
  exact ⟨by omega, hpre⟩

theorem OccursAt.end_le {i : Nat} (h : OccursAt pat t i) :
    i + pat.length ≤ t.length := by
  have hle := h.2.length_le
  have hi := h.1
  rw [List.length_drop] at hle
  omega

theorem occursAt_nil_left {t : Text} {i : Nat} (hi : i ≤ t.length) : OccursAt [] t i :=
  ⟨hi, List.nil_prefix⟩

theorem occursAt_zero_cons {c : Char} :
    OccursAt pat (c :: t) 0 ↔ pat.isPrefixOf (c :: t) = true := by
  rw [List.isPrefixOf_iff_prefix]
  exact ⟨fun h => h.2, fun h => ⟨Nat.zero_le _, h⟩⟩

theorem occursAt_succ_cons {c : Char} {i : Nat} :
    OccursAt pat (c :: t) (i + 1) ↔ OccursAt pat t i := by
  simp [OccursAt]

theorem find?_eq_some_iff {i : Nat} :
    find? pat t = some i ↔ OccursAt pat t i ∧ ∀ j < i, ¬OccursAt pat t j := by
  induction t generalizing i with
  | nil =>
    rw [find?]
    split
    case isTrue h =>
      subst h
      constructor
      · rintro ⟨⟩
        exact ⟨occursAt_nil_left (Nat.le_refl 0), fun j hj => absurd hj (Nat.not_lt_zero j)⟩
      · rintro ⟨⟨hi, -⟩, -⟩
        rw [Nat.le_zero.mp hi]
    case isFalse h =>
      constructor
      · nofun
      · rintro ⟨⟨-, hpre⟩, -⟩
        rw [List.drop_nil] at hpre
        exact absurd (List.prefix_nil.mp hpre) h
  | cons c t ih =>
    rw [find?]
    split
    case isTrue h =>
      have hzero := occursAt_zero_cons.mpr h
      constructor
      · rintro ⟨⟩
        exact ⟨hzero, fun j hj => absurd hj (Nat.not_lt_zero j)⟩
      · rintro ⟨-, hfirst⟩
        cases i with
        | zero => rfl
        | succ i => exact absurd hzero (hfirst 0 (Nat.succ_pos i))
    case isFalse h =>
      cases i with
      | zero =>
        constructor
        · intro hmap
          obtain ⟨j, -, hj⟩ := Option.map_eq_some_iff.mp hmap
          exact absurd hj (Nat.succ_ne_zero j)
        · rintro ⟨hzero, -⟩
          exact absurd (occursAt_zero_cons.mp hzero) h
      | succ i =>
        have hmap : ((find? pat t).map (· + 1) = some (i + 1)) ↔ find? pat t = some i := by
          simp [Option.map_eq_some_iff]
        rw [hmap, ih, occursAt_succ_cons]
        refine and_congr_right fun _ => ⟨fun hfirst j hj hocc => ?_, fun hfirst j hj hocc => ?_⟩
        · cases j with
          | zero => exact h (occursAt_zero_cons.mp hocc)
          | succ j => exact hfirst j (Nat.lt_of_succ_lt_succ hj) (occursAt_succ_cons.mp hocc)
        · exact hfirst (j + 1) (Nat.succ_lt_succ hj) (occursAt_succ_cons.mpr hocc)

theorem occursOnce_iff {i : Nat} (h : OccursAt pat t i) :
    OccursOnce pat t ↔ ∀ j, OccursAt pat t j → j = i := by
  constructor
  · rintro ⟨k, -, hk⟩ j hj
    rw [hk j hj, hk i h]
  · exact fun hall => ⟨i, h, hall⟩

theorem OccursOnce.find? {i : Nat} (honce : OccursOnce pat t)
    (h : OccursAt pat t i) : find? pat t = some i := by
  rw [find?_eq_some_iff]
  refine ⟨h, fun j hj hocc => ?_⟩
  rw [(occursOnce_iff h).mp honce j hocc] at hj
  exact Nat.lt_irrefl i hj

theorem OccursOnce.eq_nil {t : Text} (h : OccursOnce [] t) : t = [] := by
  obtain ⟨i, -, hall⟩ := h
  have hstart := hall 0 (occursAt_nil_left (Nat.zero_le _))
  have hend := hall t.length (occursAt_nil_left (Nat.le_refl _))
  exact List.length_eq_zero_iff.mp (hend.trans hstart.symm)

end PyText
