import MiqroForge.Session.Dispatch

/-!
Where the submissions of a session are. Abstractly an item moves between stations: the
queue, the get task, the pending list and the loop's hand, and from there it is handed
over or consumed. The moves neither lose nor duplicate an item, and keep the order of
those that open a turn.
-/

namespace MiqroForge.Session

open List

/-- Aborts, steers and shell commands need not wait for the active turn. -/
def Submission.opensTurn : Submission → Bool
  | .abortTurn _ | .steerTurn _ _ | .runUserShellCommand _ _ => false
  | _ => true

def Submission.isAbort : Submission → Bool
  | .abortTurn _ => true
  | _ => false

/-- The stations of the items of a session. -/
structure Stations where
  submitted : List Item
  queue : List Item
  got : List Item
  pending : List Item
  hand : List Item
  handed : List Item
  consumed : List Item
  lost : List Item

/-- One move of an item. -/
inductive Move : Stations → Stations → Prop
  | stay (v : Stations) : Move v v
  | arrive (v : Stations) (item : Item) (hid : item.id = v.submitted.length) :
      Move v { v with submitted := v.submitted ++ [item], queue := v.queue ++ [item] }
  | take (v : Stations) (item : Item) (rest : List Item) (hq : v.queue = item :: rest)
      (hg : v.got = []) : Move v { v with queue := rest, got := [item] }
  | startPending (v : Stations) (item : Item) (rest : List Item) (hp : v.pending = item :: rest) :
      Move v { v with pending := rest, handed := v.handed ++ [item] }
  | startQueued (v : Stations) (item : Item) (rest : List Item) (hq : v.queue = item :: rest)
      (hp : v.pending = []) (hg : v.got = []) :
      Move v { v with queue := rest, handed := v.handed ++ [item] }
  | postpone (v : Stations) (item : Item) (hg : v.got = [item]) :
      Move v { v with got := [], pending := v.pending ++ [item] }
  | bypass (v : Stations) (item : Item) (hg : v.got = [item]) (hs : item.sub.opensTurn = false) :
      Move v { v with got := [], handed := v.handed ++ [item] }
  | consume (v : Stations) (item : Item) (hg : v.got = [item]) (hs : item.sub.isAbort = true) :
      Move v { v with got := [], consumed := v.consumed ++ [item] }
  | hold (v : Stations) (item : Item) (hg : v.got = [item]) (hh : v.hand = [])
      (hs : item.sub.isAbort = true) : Move v { v with got := [], hand := [item] }
  | release (v : Stations) (item : Item) (hh : v.hand = [item]) (hs : item.sub.isAbort = true) :
      Move v { v with hand := [], handed := v.handed ++ [item] }

/-- Every item is at one station, in the order of submission as far as it opens a turn. -/
structure Conserved (v : Stations) : Prop where
  count : ∀ item, v.submitted.count item = v.handed.count item + v.consumed.count item +
    v.hand.count item + v.pending.count item + v.got.count item + v.queue.count item
  order : (v.handed ++ v.pending ++ v.got ++ v.queue).filter (fun i => i.sub.opensTurn) =
    v.submitted.filter (fun i => i.sub.opensTurn)
  consumed : ∀ item ∈ v.consumed, item.sub.isAbort = true
  numbered : v.submitted.map Item.id = List.range v.submitted.length
  lost : v.lost = []

theorem opensTurn_of_isAbort (sub : Submission) (h : sub.isAbort = true) :
    sub.opensTurn = false := by
  cases sub <;> first | rfl | cases h

/-- **A move conserves the items.** -/
theorem Move.conserved {v w : Stations} (h : Move v w) (hv : Conserved v) : Conserved w := by
  obtain ⟨hc, ho, hk, hn, hl⟩ := hv
  cases h with
  | stay => exact ⟨hc, ho, hk, hn, hl⟩
  | arrive item hid =>
    refine ⟨fun x => ?_, ?_, hk, ?_, hl⟩
    · simp only [count_append]
      have := hc x
      omega
    · simp only [← append_assoc]
      rw [filter_append, filter_append v.submitted, ho]
    · simp only [map_append, map_cons, map_nil, length_append,
        length_cons, length_nil, Nat.zero_add, range_succ, hn]
      rw [hid]
  | take item rest hq hg =>
    refine ⟨fun x => ?_, ?_, hk, hn, hl⟩
    · have := hc x
      simp only [hq, hg, count_cons, count_nil] at this ⊢
      omega
    · rw [← ho, hq, hg]
      simp
  | startPending item rest hp =>
    refine ⟨fun x => ?_, ?_, hk, hn, hl⟩
    · have := hc x
      simp only [hp, count_cons, count_append, count_nil] at this ⊢
      omega
    · rw [← ho, hp]
      simp
  | startQueued item rest hq hp hg =>
    refine ⟨fun x => ?_, ?_, hk, hn, hl⟩
    · have := hc x
      simp only [hq, count_cons, count_append, count_nil] at this ⊢
      omega
    · rw [← ho, hq, hp, hg]
      simp
  | postpone item hg =>
    refine ⟨fun x => ?_, ?_, hk, hn, hl⟩
    · have := hc x
      simp only [hg, count_cons, count_append, count_nil] at this ⊢
      omega
    · rw [← ho, hg]
      simp
  | bypass item hg hs =>
    refine ⟨fun x => ?_, ?_, hk, hn, hl⟩
    · have := hc x
      simp only [hg, count_cons, count_append, count_nil] at this ⊢
      omega
    · rw [← ho, hg]
      simp [hs]
  | consume item hg hs =>
    refine ⟨fun x => ?_, ?_, ?_, hn, hl⟩
    · have := hc x
      simp only [hg, count_cons, count_append, count_nil] at this ⊢
      omega
    · rw [← ho, hg]
      simp [opensTurn_of_isAbort _ hs]
    · intro x hx
      rcases mem_append.mp hx with hx | hx
      · exact hk x hx
      · rw [mem_singleton.mp hx]
        exact hs
  | hold item hg hh hs =>
    refine ⟨fun x => ?_, ?_, hk, hn, hl⟩
    · have := hc x
      simp only [hg, hh, count_cons, count_nil] at this ⊢
      omega
    · rw [← ho, hg]
      simp [opensTurn_of_isAbort _ hs]
  | release item hh hs =>
    refine ⟨fun x => ?_, ?_, hk, hn, hl⟩
    · have := hc x
      simp only [hh, count_cons, count_append, count_nil] at this ⊢
      omega
    · rw [← ho]
      simp [opensTurn_of_isAbort _ hs]

end MiqroForge.Session
