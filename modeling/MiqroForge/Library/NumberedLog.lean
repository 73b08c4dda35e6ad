import Mathlib.Data.List.Range

/-!
Append-only logs whose entries are numbered `1, 2, 3, …`, and the part of a log above a number.
-/

namespace NumberedLog

open List

variable {α : Type} (seq : α → Nat)

def Numbered (xs : List α) : Prop := xs.map seq = List.range' 1 xs.length

/-- The entries with a number above `low`. -/
def above (low : Int) (xs : List α) : List α := xs.filter fun x => low < seq x

theorem above_snoc {low : Int} (x : α) (hx : low < seq x) (xs : List α) :
    above seq low (xs ++ [x]) = above seq low xs ++ [x] := by
  simp [above, hx]

variable {seq}

theorem numbered_nil : Numbered seq ([] : List α) := rfl

variable {xs : List α}

theorem Numbered.snoc (h : Numbered seq xs) {x : α} (hx : seq x = xs.length + 1) :
    Numbered seq (xs ++ [x]) := by
  rw [Numbered, map_append, h, length_append, length_singleton,
    range'_1_concat, map_singleton, hx, Nat.add_comm]

theorem Numbered.bounds (h : Numbered seq xs) {x : α} (hx : x ∈ xs) :
    1 ≤ seq x ∧ seq x ≤ xs.length := by
  have hmem : seq x ∈ xs.map seq := mem_map_of_mem hx
  rw [h, mem_range'_1] at hmem
  omega

theorem Numbered.above_of_nonpos (h : Numbered seq xs) {low : Int} (hlow : low ≤ 0) :
    above seq low xs = xs := by
  refine filter_eq_self.mpr (fun x hx => ?_)
  have := (h.bounds hx).1
  simp only [decide_eq_true_eq]
  omega

theorem Numbered.above_of_length_le (h : Numbered seq xs) {low : Int}
    (hlow : xs.length ≤ low) : above seq low xs = [] := by
  refine filter_eq_nil_iff.mpr (fun x hx => ?_)
  have := (h.bounds hx).2
  simp only [decide_eq_true_eq]
  omega

theorem filter_range'_above (low : Int) (n : Nat) :
    (List.range' 1 n).filter (fun k : Nat => low < k) =
      List.range' (low.toNat + 1) (n - low.toNat) := by
  induction n with
  | zero => simp
  | succ n ih =>
    rw [range'_1_concat, filter_append, ih]
    by_cases hlow : low < ((1 + n : Nat) : Int)
    · have hlen : n + 1 - low.toNat = (n - low.toNat) + 1 := by omega
      have hlast : 1 + n = low.toNat + 1 + (n - low.toNat) := by omega
      rw [filter_cons_of_pos (by simpa using hlow), filter_nil, hlen,
        range'_1_concat, ← hlast]
    · have hlen : n + 1 - low.toNat = n - low.toNat := by omega
      rw [filter_cons_of_neg (by simpa using hlow), filter_nil, hlen, append_nil]

theorem Numbered.map_above (h : Numbered seq xs) (low : Int) :
    (above seq low xs).map seq = List.range' (low.toNat + 1) (xs.length - low.toNat) := by
  rw [← filter_range'_above, ← h, filter_map]
  rfl

/-- **No gap, no duplicate.** What has come of the part above `low` has the numbers that follow
`low`, one after the other. -/
theorem Numbered.map_initial {xs ys : List α} (h : Numbered seq xs) {low : Int}
    (hys : ys <+: above seq low xs) : ys.map seq = List.range' (low.toNat + 1) ys.length := by
  have habove := congrArg List.length (h.map_above low)
  rw [length_map, length_range'] at habove
  have hlen : ys.length ≤ xs.length - low.toNat := habove ▸ hys.length_le
  have hmap := prefix_iff_eq_take.mp (hys.map seq)
  rwa [h.map_above low, length_map, take_range'_of_length_ge hlen] at hmap

end NumberedLog
