import Mathlib.Data.List.Basic

/-!
A limiter that lets through at most `max` events within any `width`. It keeps the times that
still count, and forgets the others whenever it is asked.
-/

namespace SlidingWindow

/-- The times that still count at `now`. -/
def recent (width : Int) (times : List Int) (now : Int) : List Int :=
  times.filter fun t => now - t < width

/-- What `kept` has forgotten counts no more, after the last of the times. -/
def Keeps (width : Int) (kept times : List Int) : Prop :=
  ∀ now, (∀ t ∈ times, t ≤ now) → recent width kept now = recent width times now

/-- At most `max` of the times lie within any `width`. -/
def Bounded (width : Int) (max : Nat) (times : List Int) : Prop :=
  ∀ start, times.countP (fun t => start ≤ t ∧ t < start + width) ≤ max

variable {width now : Int} {max : Nat} {kept times : List Int}

theorem recent_recent {later : Int} (h : now ≤ later) :
    recent width (recent width times now) later = recent width times later := by
  unfold recent
  rw [List.filter_filter]
  refine List.filter_congr fun t _ => ?_
  by_cases ht : later - t < width
  · have hnow : now - t < width := by omega
    simp [ht, hnow]
  · simp [ht]

/-- Letting `now` through leaves the limiter with what still counts, and `now`. -/
theorem Keeps.record (h : Keeps width kept times) :
    Keeps width (recent width kept now ++ [now]) (times ++ [now]) := by
  intro later hlater
  have hle : now ≤ later := hlater now (by simp)
  have hold := h later fun t ht => hlater t (List.mem_append_left _ ht)
  have hsplit : ∀ l : List Int, recent width (l ++ [now]) later =
      recent width l later ++ recent width [now] later := fun l => List.filter_append ..
  rw [hsplit, hsplit, recent_recent hle, hold]

/-- The times within a `width` that ends with `now` all count at `now`. -/
theorem Bounded.record (h : Bounded width max times) (hroom : (recent width times now).length < max) :
    Bounded width max (times ++ [now]) := by
  intro start
  rw [List.countP_append, List.countP_singleton]
  split
  case isTrue hin =>
    have hcounted : times.countP (fun t => start ≤ t ∧ t < start + width) ≤
        (recent width times now).length := by
      rw [recent, ← List.countP_eq_length_filter]
      refine List.countP_mono_left fun t _ ht => ?_
      simp only [decide_eq_true_eq] at ht hin ⊢
      omega
    omega
  case isFalse => exact h start

end SlidingWindow
