import Mathlib.Data.List.Pairwise

/-!
One queue that is fed by turns, one turn after the other. A turn puts its items while it is the
first that has not ended, and the item it ends with is its last. Items without a turn may come at
any time.
-/

namespace Feeds

variable {κ : Type}

structure Item (κ : Type) where
  owner : Option Nat
  kind : κ
  deriving DecidableEq

/-- The turns so far, those that have ended, and what waits to be read. -/
structure Feed (κ : Type) where
  turns : Nat
  ended : Nat → Bool
  queue : List (Item κ)

def Feed.init : Feed κ := ⟨0, fun _ => false, []⟩

/-- A turn is added behind the others. -/
def Feed.open (f : Feed κ) : Feed κ := { f with turns := f.turns + 1 }

/-- The first turn that has not ended, or nobody, puts the item. -/
def Feed.May (f : Feed κ) (i : Item κ) : Prop :=
  ∀ n ∈ i.owner, n < f.turns ∧ f.ended n = false ∧ ∀ m < n, f.ended m = true

instance (f : Feed κ) (i : Item κ) : Decidable (f.May i) :=
  inferInstanceAs (Decidable (∀ n ∈ i.owner, _))

variable (last : κ → Bool)

def Feed.put (f : Feed κ) (i : Item κ) : Feed κ :=
  { f with
    ended := match i.owner with
      | some n => if last i.kind then Function.update f.ended n true else f.ended
      | none => f.ended
    queue := f.queue ++ [i] }

/-- The items stand in the order of the turns, and the last item of a turn behind its others. -/
structure Ordered (f : Feed κ) : Prop where
  sorted : f.queue.Pairwise fun i j => ∀ m n, i.owner = some m → j.owner = some n →
    m ≤ n ∧ (last i.kind = true → m ≠ n)
  behind : ∀ i ∈ f.queue, ∀ n, i.owner = some n → n < f.turns ∧ ∀ m < n, f.ended m = true
  ended : ∀ i ∈ f.queue, ∀ n, i.owner = some n → last i.kind = true → f.ended n = true
  known : ∀ n, f.ended n = true → n < f.turns

/-- The item a turn ends with is in the queue once the turn has ended: none of it was read. -/
def Whole (f : Feed κ) (n : Nat) : Prop :=
  f.ended n = true → ∃ i ∈ f.queue, i.owner = some n ∧ last i.kind = true

/-- No earlier turn has a say any more. -/
def Due (f : Feed κ) (n : Nat) : Prop :=
  (∀ m < n, f.ended m = true) ∧ ∀ i ∈ f.queue, ∀ m, i.owner = some m → n ≤ m

variable {last} {f : Feed κ}

theorem Ordered.init : Ordered last (Feed.init : Feed κ) where
  sorted := List.Pairwise.nil
  behind := fun _ h => by cases h
  ended := fun _ h => by cases h
  known := fun _ h => by cases h

theorem Ordered.open (h : Ordered last f) : Ordered last f.open where
  sorted := h.sorted
  behind := fun i hi n hn => ⟨Nat.lt_succ_of_lt (h.behind i hi n hn).1, (h.behind i hi n hn).2⟩
  ended := h.ended
  known := fun n hn => Nat.lt_succ_of_lt (h.known n hn)

theorem put_ended (i : Item κ) (n : Nat) :
    (f.put last i).ended n = true ↔
      f.ended n = true ∨ i.owner = some n ∧ last i.kind = true := by
  unfold Feed.put
  cases howner : i.owner with
  | none => simp
  | some m =>
    by_cases hlast : last i.kind = true
    · by_cases hm : m = n
      · subst hm
        simp [hlast]
      · simp [hlast, Function.update_of_ne (Ne.symm hm), hm]
    · simp [hlast]

theorem Ordered.put (h : Ordered last f) {i : Item κ} (hmay : f.May i) :
    Ordered last (f.put last i) := by
  have hkeep : ∀ n, f.ended n = true → (f.put last i).ended n = true :=
    fun n hn => (put_ended i n).mpr (.inl hn)
  refine ⟨?_, fun j hj n hn => ?_, fun j hj n hn hlast => ?_, fun n hn => ?_⟩
  · refine List.pairwise_append.mpr ⟨h.sorted, List.pairwise_singleton _ _, ?_⟩
    intro j hj x hx m n hm hn
    obtain rfl := List.mem_singleton.mp hx
    obtain ⟨-, hopen, hearlier⟩ := hmay n hn
    -- what stands in the queue has all turns before it ended, and the turn of `x` has not
    have hle : m ≤ n := by
      by_contra hlt
      have hended := (h.behind j hj m hm).2 n (Nat.lt_of_not_le hlt)
      rw [hopen] at hended
      cases hended
    refine ⟨hle, ?_⟩
    rintro hlast rfl
    have hended := h.ended j hj m hm hlast
    rw [hopen] at hended
    cases hended
  · rcases List.mem_append.mp hj with hj | hj
    · exact ⟨(h.behind j hj n hn).1, fun m hm => hkeep m ((h.behind j hj n hn).2 m hm)⟩
    · obtain rfl := List.mem_singleton.mp hj
      obtain ⟨hlt, -, hearlier⟩ := hmay n hn
      exact ⟨hlt, fun m hm => hkeep m (hearlier m hm)⟩
  · rcases List.mem_append.mp hj with hj | hj
    · exact hkeep n (h.ended j hj n hn hlast)
    · obtain rfl := List.mem_singleton.mp hj
      exact (put_ended j n).mpr (.inr ⟨hn, hlast⟩)
  · rcases (put_ended i n).mp hn with hn | ⟨hn, -⟩
    · exact h.known n hn
    · exact (hmay n hn).1

theorem Ordered.pop (h : Ordered last f) {i : Item κ} {rest : List (Item κ)}
    (hqueue : f.queue = i :: rest) : Ordered last { f with queue := rest } := by
  have hmem : ∀ j ∈ rest, j ∈ f.queue := fun j hj => hqueue ▸ List.mem_cons_of_mem i hj
  refine ⟨?_, fun j hj => h.behind j (hmem j hj), fun j hj => h.ended j (hmem j hj), h.known⟩
  have hsorted := h.sorted
  rw [hqueue] at hsorted
  exact hsorted.tail

theorem Whole.open {n : Nat} (h : Whole last f n) : Whole last f.open n := h

theorem Ordered.whole_turns (h : Ordered last f) : Whole last f.open f.turns :=
  fun hended => absurd (h.known f.turns hended) (Nat.lt_irrefl _)

theorem Whole.put {n : Nat} (h : Whole last f n) (i : Item κ) : Whole last (f.put last i) n := by
  intro hended
  rcases (put_ended i n).mp hended with hended | ⟨howner, hlast⟩
  · obtain ⟨j, hj, hjn⟩ := h hended
    exact ⟨j, List.mem_append_left _ hj, hjn⟩
  · exact ⟨i, List.mem_append_right _ (List.mem_singleton.mpr rfl), howner, hlast⟩

theorem Whole.pop {n : Nat} (h : Whole last f n) {i : Item κ} {rest : List (Item κ)}
    (hqueue : f.queue = i :: rest) (hkeep : i.owner = some n → last i.kind = false) :
    Whole last { f with queue := rest } n := by
  intro hended
  obtain ⟨j, hj, howner, hlast⟩ := h hended
  rw [hqueue] at hj
  rcases List.mem_cons.mp hj with rfl | hj
  · rw [hkeep howner] at hlast
    cases hlast
  · exact ⟨j, hj, howner, hlast⟩

theorem Due.open {n : Nat} (h : Due f n) : Due f.open n := h

theorem Due.put {n : Nat} (h : Due f n) {i : Item κ} (hmay : f.May i) : Due (f.put last i) n := by
  refine ⟨fun m hm => (put_ended i m).mpr (.inl (h.1 m hm)), fun j hj m hm => ?_⟩
  rcases List.mem_append.mp hj with hj | hj
  · exact h.2 j hj m hm
  · obtain rfl := List.mem_singleton.mp hj
    by_contra hlt
    have hended := h.1 m (Nat.lt_of_not_le hlt)
    rw [(hmay m hm).2.1] at hended
    cases hended

theorem Due.pop {n : Nat} (h : Due f n) {i : Item κ} {rest : List (Item κ)}
    (hqueue : f.queue = i :: rest) : Due { f with queue := rest } n :=
  ⟨h.1, fun j hj => h.2 j (hqueue ▸ List.mem_cons_of_mem i hj)⟩

/-- **The head belongs to the turn that is due.** -/
theorem Ordered.head_owner (h : Ordered last f) {n : Nat} (hdue : Due f n) (hwhole : Whole last f n)
    {i : Item κ} {rest : List (Item κ)} (hqueue : f.queue = i :: rest) {m : Nat}
    (hm : i.owner = some m) : m = n := by
  have hi : i ∈ f.queue := hqueue ▸ List.mem_cons_self
  have hle : n ≤ m := hdue.2 i hi m hm
  by_contra hne
  have hlt : n < m := Nat.lt_of_le_of_ne hle (Ne.symm hne)
  obtain ⟨j, hj, howner, -⟩ := hwhole ((h.behind i hi m hm).2 n hlt)
  have hsorted := h.sorted
  rw [hqueue] at hj hsorted
  rcases List.mem_cons.mp hj with rfl | hj
  · exact hne (Option.some.inj (hm.symm.trans howner))
  · have hmn := ((List.pairwise_cons.mp hsorted).1 j hj m n hm howner).1
    omega

end Feeds
