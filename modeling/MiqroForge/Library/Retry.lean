import Mathlib.Init

/-!
Bounded retries: a call is made again while it fails with an error worth another attempt and
attempts are left.
-/

namespace Retry

variable {ε α : Type}

/-- How often the calls are made, from call `i` on with `left` attempts, and how the last one
ended; nothing ended without an attempt. -/
def run (retryable : ε → Bool) (outcome : Nat → Except ε α) :
    (left i : Nat) → Nat × Option (Except ε α)
  | 0, i => (i, none)
  | left + 1, i =>
    match outcome i with
    | .ok a => (i + 1, some (.ok a))
    | .error e =>
      if left ≠ 0 ∧ retryable e then run retryable outcome left (i + 1)
      else (i + 1, some (.error e))

variable {retryable : ε → Bool} {outcome : Nat → Except ε α}

theorem run_error (left i : Nat) {e : ε} (h : outcome i = .error e) :
    run retryable outcome (left + 1) i =
      if left ≠ 0 ∧ retryable e then run retryable outcome left (i + 1)
      else (i + 1, some (.error e)) := by
  rw [run, h]

theorem run_terminal (left i : Nat) {e : ε} (h : outcome i = .error e) (he : retryable e = false) :
    run retryable outcome (left + 1) i = (i + 1, some (.error e)) := by
  rw [run_error left i h]
  exact if_neg fun hagain => Bool.eq_false_iff.mp he hagain.2

end Retry
