import MiqroForge.Library.Feed
import MiqroForge.Library.PyText
import MiqroForge.Library.Steps

/-!
The turns of `turn/start` on one session: the reservations of its threads, and the drains of
`drain_turn_events`, which all take from the session's one event queue.
-/

namespace MiqroForge.Turns.Sharing

open Steps Feeds PyText Function

/-- What the loop of `drain_turn_events` tells apart. -/
inductive Kind
  | complete
  | aborted
  | error (recoverable : Bool)
  | other
  deriving DecidableEq

/-- The events the runtime ends a turn with. -/
def Kind.last : Kind → Bool
  | .complete | .aborted => true
  | _ => false

/-- The events a drain ends with. -/
def Kind.ends : Kind → Bool
  | .complete | .aborted => true
  | .error recoverable => !recoverable
  | .other => false

/-- Where a `turn/start` stands: behind its reservation, behind `submit`, with a drain that has not
run yet, one in its loop, or one that has ended. -/
inductive Phase
  | idle
  | reserved
  | submitted
  | spawned
  | reading
  | done
  deriving DecidableEq

/-- Why a drain has ended: on an event, or on its own timeout. -/
inductive Ending
  | event (i : Feeds.Item Kind)
  | timeout
  deriving DecidableEq

structure State where
  reservations : Text → Option Nat
  /-- `TaskRunner._active_turn_ids`. -/
  active : Text → Option Nat
  threadOf : Nat → Text
  phase : Nat → Phase
  turnOf : Nat → Option Nat
  feed : Feed Kind
  /-- The events that a drain has projected under the ids of its turn. -/
  projected : List (Nat × Feeds.Item Kind)
  endings : List (Nat × Ending)
  /-- The releases, each with the reservation it took away. -/
  released : List (Nat × Option Nat)

def init : State where
  reservations := fun _ => none
  active := fun _ => none
  threadOf := fun _ => []
  phase := fun _ => .idle
  turnOf := fun _ => none
  feed := Feed.init
  projected := []
  endings := []
  released := []

inductive Event
  | reserve (d : Nat) (thread : Text)
  | fail (d : Nat)
  | submit (d : Nat)
  | spawn (d : Nat)
  | start (d : Nat)
  | handles (d : Nat)
  | leaves (d : Nat)
  | put (i : Feeds.Item Kind)
  | read (d : Nat)
  | timeout (d : Nat)

/-- `release_turn_reservation(thread_id)`, on behalf of the turn `d`. -/
def State.release (s : State) (d : Nat) : State :=
  { s with
    reservations := update s.reservations (s.threadOf d) none
    released := (d, s.reservations (s.threadOf d)) :: s.released }

/-- The drain returns, and its `finally` clause releases the thread. -/
def State.finish (s : State) (d : Nat) (ending : Ending) : State :=
  State.release { s with
    phase := update s.phase d .done
    endings := (d, ending) :: s.endings } d

def step (s : State) : Event → Option State
  | .reserve d thread =>
    if s.phase d = .idle ∧ s.active thread = none ∧ s.reservations thread = none then
      some { s with
        reservations := update s.reservations thread (some d)
        threadOf := update s.threadOf d thread
        phase := update s.phase d .reserved }
    else none
  | .fail d =>
    if s.phase d = .reserved ∨ s.phase d = .submitted then
      some (State.release { s with phase := update s.phase d .done } d)
    else none
  | .submit d =>
    if s.phase d = .reserved then
      some { s with
        phase := update s.phase d .submitted
        turnOf := update s.turnOf d (some s.feed.turns)
        feed := s.feed.open }
    else none
  | .spawn d =>
    if s.phase d = .submitted then
      some { s with phase := update s.phase d .spawned }
    else none
  | .start d =>
    if s.phase d = .spawned then
      some { s with phase := update s.phase d .reading }
    else none
  | .handles d =>
    if (s.turnOf d).isSome then
      some { s with active := update s.active (s.threadOf d) (some d) }
    else none
  | .leaves d =>
    if s.active (s.threadOf d) = some d then
      some { s with active := update s.active (s.threadOf d) none }
    else none
  | .put i => if s.feed.May i then some { s with feed := s.feed.put Kind.last i } else none
  | .read d =>
    match s.feed.queue with
    | [] => none
    | i :: rest =>
      if s.phase d = .reading then
        let t := { s with
          feed := { s.feed with queue := rest }
          projected := (d, i) :: s.projected }
        some (if i.kind.ends then t.finish d (.event i) else t)
      else none
  | .timeout d => if s.phase d = .reading then some (s.finish d .timeout) else none

/-! ## Turn events reach their own turn -/

structure Delivered (s : State) : Prop where
  projected : ∀ d i n, (d, i) ∈ s.projected → i.owner = some n → s.turnOf d = some n
  ended : ∀ d i, (d, .event i) ∈ s.endings → ∃ n, i.owner = some n ∧ s.turnOf d = some n
  released : ∀ d r, (d, r) ∈ s.released → r = some d

/-- A drain enters its loop when its turn is due, and no terminal event comes without a turn. -/
def Orderly (s : State) : Event → Prop
  | .start d => ∀ n, s.turnOf d = some n → Due s.feed n
  | .put i => i.owner = none → i.kind.ends = false
  | _ => True

/-- Between its reservation and its release. -/
def State.Open (s : State) (d : Nat) : Prop := s.phase d ≠ .idle ∧ s.phase d ≠ .done

structure Inv (s : State) : Prop where
  ordered : Ordered Kind.last s.feed
  foreign : ∀ i ∈ s.feed.queue, i.owner = none → i.kind.ends = false
  opened : ∀ d n, s.turnOf d = some n → n < s.feed.turns
  injective : ∀ d d' n, s.turnOf d = some n → s.turnOf d' = some n → d = d'
  fresh : ∀ d, s.phase d = .idle ∨ s.phase d = .reserved → s.turnOf d = none
  known : ∀ d, s.phase d = .submitted ∨ s.phase d = .spawned ∨ s.phase d = .reading →
    ∃ n, s.turnOf d = some n
  whole : ∀ d n, s.turnOf d = some n → s.phase d ≠ .done → Whole Kind.last s.feed n
  due : ∀ d n, s.phase d = .reading → s.turnOf d = some n → Due s.feed n
  reservations : ∀ d, s.Open d → s.reservations (s.threadOf d) = some d
  delivered : Delivered s

theorem Inv.init : Inv init where
  ordered := Ordered.init
  foreign := fun i h => by cases h
  opened := fun d n h => by cases h
  injective := fun d d' n h => by cases h
  fresh := fun d h => rfl
  known := fun d h => by rcases h with h | h | h <;> cases h
  whole := fun d n h => by cases h
  due := fun d n h => by cases h
  reservations := fun d h => absurd rfl h.1
  delivered := ⟨fun d i n h => (by cases h), fun d i h => (by cases h), fun d r h => (by cases h)⟩

variable {s t : State}

theorem Inv.release {d : Nat} (hopen : s.Open d) (h : Inv s) :
    (∀ d', (State.Open { s with phase := update s.phase d .done } d') →
      (State.release { s with phase := update s.phase d .done } d).reservations
        (s.threadOf d') = some d') ∧
      s.reservations (s.threadOf d) = some d := by
  refine ⟨fun d' hopen' => ?_, h.reservations d hopen⟩
  have hne : d' ≠ d := by
    rintro rfl
    exact hopen'.2 (update_self d' _ s.phase)
  have hold : s.Open d' := by
    refine ⟨fun hp => hopen'.1 ?_, fun hp => hopen'.2 ?_⟩
    · exact (update_of_ne hne _ s.phase).trans hp
    · exact (update_of_ne hne _ s.phase).trans hp
  have hres := h.reservations d' hold
  have hthread : s.threadOf d' ≠ s.threadOf d := by
    intro heq
    rw [heq, h.reservations d hopen] at hres
    exact hne (Option.some.inj hres).symm
  exact (update_of_ne hthread none s.reservations).trans hres

theorem Inv.done (h : Inv s) {d : Nat} (hopen : s.Open d) (endings : List (Nat × Ending))
    (hendings : ∀ d' i, (d', .event i) ∈ endings → ∃ n, i.owner = some n ∧ s.turnOf d' = some n) :
    Inv (State.release { s with
      phase := update s.phase d .done
      endings := endings } d) := by
  obtain ⟨hres, hown⟩ := h.release hopen
  have hphase : ∀ {d'}, ∀ p, update s.phase d .done d' = p → p ≠ .done → s.phase d' = p := by
    intro d' p hp hne
    by_cases hd : d' = d
    · subst hd
      rw [update_self] at hp
      exact absurd hp.symm hne
    · rwa [update_of_ne hd] at hp
  refine ⟨h.ordered, h.foreign, h.opened, h.injective, fun d' hd' => ?_, fun d' hd' => ?_,
    fun d' n hn hd' => ?_, fun d' n hd' hn => ?_, hres,
    ⟨h.delivered.projected, hendings, fun d' r hr => ?_⟩⟩
  · exact h.fresh d' (hd'.imp (hphase _ · (by simp)) (hphase _ · (by simp)))
  · exact h.known d' (hd'.imp (hphase _ · (by simp)) (Or.imp (hphase _ · (by simp))
      (hphase _ · (by simp))))
  · exact h.whole d' n hn fun hp => hd' (by
      show update s.phase d .done d' = .done
      by_cases hd : d' = d
      · simp [hd]
      · simpa [hd] using hp)
  · exact h.due d' n (hphase _ hd' (by simp)) hn
  · rcases List.mem_cons.mp hr with heq | hr
    · obtain ⟨rfl, rfl⟩ := Prod.mk.inj heq
      exact hown
    · exact h.delivered.released d' r hr

theorem Inv.owner (h : Inv s) {d : Nat} (hd : s.phase d = .reading) {i : Feeds.Item Kind}
    {rest : List (Feeds.Item Kind)} (hqueue : s.feed.queue = i :: rest) {n : Nat}
    (hn : i.owner = some n) : s.turnOf d = some n := by
  obtain ⟨m, hm⟩ := h.known d (.inr (.inr hd))
  rw [h.ordered.head_owner (h.due d m hd hm) (h.whole d m hm (by simp [hd])) hqueue hn]
  exact hm

theorem Inv.advance (h : Inv s) {d : Nat} {p : Phase} (hopen : s.Open d)
    (hp : p = .spawned ∨ p = .reading)
    (hknown : ∃ n, s.turnOf d = some n)
    (hdue : p = .reading → ∀ n, s.turnOf d = some n → Due s.feed n) :
    Inv { s with phase := update s.phase d p } := by
  have hphase : ∀ {d'}, d' ≠ d → update s.phase d p d' = s.phase d' :=
    fun hne => update_of_ne hne p s.phase
  refine ⟨h.ordered, h.foreign, h.opened, h.injective, fun d' hd' => ?_, fun d' hd' => ?_,
    fun d' n hn hd' => ?_, fun d' n hd' hn => ?_, fun d' hd' => ?_,
    ⟨h.delivered.projected, h.delivered.ended, h.delivered.released⟩⟩
  · by_cases hd : d' = d
    · subst hd
      rcases hp with rfl | rfl <;> simp at hd'
    · exact h.fresh d' (by simpa [hd] using hd')
  · by_cases hd : d' = d
    · exact hd ▸ hknown
    · exact h.known d' (by simpa [hd] using hd')
  · by_cases hd : d' = d
    · subst hd
      exact h.whole d' n hn hopen.2
    · exact h.whole d' n hn (by simpa [hd] using hd')
  · by_cases hd : d' = d
    · subst hd
      exact hdue (by simpa using hd') n hn
    · exact h.due d' n (by simpa [hd] using hd') hn
  · by_cases hd : d' = d
    · exact hd ▸ h.reservations d hopen
    · refine h.reservations d' ?_
      unfold State.Open at hd' ⊢
      simpa [hd] using hd'

theorem Inv.pop (h : Inv s) {d : Nat} {i : Feeds.Item Kind} {rest : List (Feeds.Item Kind)}
    (hqueue : s.feed.queue = i :: rest) (howner : ∀ n, i.owner = some n → s.turnOf d = some n)
    (hkeep : s.phase d ≠ .done → i.kind.last = false) :
    Inv { s with
      feed := { s.feed with queue := rest }
      projected := (d, i) :: s.projected } := by
  refine ⟨h.ordered.pop hqueue, fun j hj => h.foreign j (hqueue ▸ List.mem_cons_of_mem i hj),
    h.opened, h.injective, h.fresh, h.known, fun d' n hn hd' => ?_,
    fun d' n hd' hn => (h.due d' n hd' hn).pop hqueue, h.reservations,
    ⟨fun d' j n hmem hn => ?_, h.delivered.ended, h.delivered.released⟩⟩
  · refine (h.whole d' n hn hd').pop hqueue fun hown => hkeep ?_
    obtain rfl := h.injective d' d n hn (howner n hown)
    exact hd'
  · rcases List.mem_cons.mp hmem with heq | hmem
    · obtain ⟨rfl, rfl⟩ := Prod.mk.inj heq
      exact howner n hn
    · exact h.delivered.projected d' j n hmem hn

theorem Inv.read (h : Inv s) {d : Nat} (hd : s.phase d = .reading) {i : Feeds.Item Kind}
    {rest : List (Feeds.Item Kind)} (hqueue : s.feed.queue = i :: rest) :
    Inv (if i.kind.ends then
      State.finish { s with
        feed := { s.feed with queue := rest }
        projected := (d, i) :: s.projected } d (.event i)
      else { s with
        feed := { s.feed with queue := rest }
        projected := (d, i) :: s.projected }) := by
  have howner : ∀ n, i.owner = some n → s.turnOf d = some n := fun n hn => h.owner hd hqueue hn
  split
  case isTrue hends =>
    have hsome : ∃ n, i.owner = some n ∧ s.turnOf d = some n := by
      cases hown : i.owner with
      | none =>
        have hfalse := h.foreign i (hqueue ▸ List.mem_cons_self) hown
        rw [hends] at hfalse
        cases hfalse
      | some n => exact ⟨n, rfl, howner n hown⟩
    -- the drain is done, and the event is no longer in the queue
    refine (h.done ⟨by simp [hd], by simp [hd]⟩ ((d, .event i) :: s.endings)
      fun d' j hmem => ?_).pop hqueue howner fun hne => absurd (update_self d _ s.phase) hne
    rcases List.mem_cons.mp hmem with heq | hmem
    · obtain ⟨rfl, hevent⟩ := Prod.mk.inj heq
      obtain rfl := Ending.event.inj hevent
      exact hsome
    · exact h.delivered.ended d' j hmem
  case isFalse hends =>
    refine h.pop hqueue howner fun _ => ?_
    cases hkind : i.kind <;> rw [hkind] at hends <;> simp_all [Kind.ends, Kind.last]

theorem Inv.reserve (h : Inv s) {d : Nat} {thread : Text} (hd : s.phase d = .idle)
    (hfree : s.reservations thread = none) :
    Inv { s with
      reservations := update s.reservations thread (some d)
      threadOf := update s.threadOf d thread
      phase := update s.phase d .reserved } := by
  refine ⟨h.ordered, h.foreign, h.opened, h.injective, fun d' hd' => ?_, fun d' hd' => ?_,
    fun d' n hn hd' => ?_, fun d' n hd' hn => ?_, fun d' hd' => ?_,
    ⟨h.delivered.projected, h.delivered.ended, h.delivered.released⟩⟩
  · by_cases hdd : d' = d
    · exact hdd ▸ h.fresh d (.inl hd)
    · exact h.fresh d' (by simpa [hdd] using hd')
  · by_cases hdd : d' = d
    · subst hdd
      simp at hd'
    · exact h.known d' (by simpa [hdd] using hd')
  · refine h.whole d' n hn fun hp => ?_
    by_cases hdd : d' = d
    · subst hdd
      rw [hd] at hp
      cases hp
    · exact hd' (by simpa [hdd] using hp)
  · by_cases hdd : d' = d
    · subst hdd
      simp at hd'
    · exact h.due d' n (by simpa [hdd] using hd') hn
  · by_cases hdd : d' = d
    · subst hdd
      simp
    · have hopen : s.Open d' := by
        unfold State.Open at hd' ⊢
        simpa [hdd] using hd'
      have hres := h.reservations d' hopen
      have hne : s.threadOf d' ≠ thread := by
        intro heq
        rw [heq, hfree] at hres
        cases hres
      simpa [hdd, hne] using hres

theorem Inv.submit (h : Inv s) {d : Nat} (hd : s.phase d = .reserved) :
    Inv { s with
      phase := update s.phase d .submitted
      turnOf := update s.turnOf d (some s.feed.turns)
      feed := s.feed.open } := by
  have hturn : ∀ d' n, update s.turnOf d (some s.feed.turns) d' = some n ↔
      d' = d ∧ n = s.feed.turns ∨ d' ≠ d ∧ s.turnOf d' = some n := by
    intro d' n
    by_cases hdd : d' = d
    · subst hdd
      simp [eq_comm]
    · simp [hdd]
  have hkeep : ∀ d' n, s.turnOf d' = some n →
      update s.turnOf d (some s.feed.turns) d' = some n := by
    intro d' n hn
    refine (hturn d' n).mpr (.inr ⟨?_, hn⟩)
    rintro rfl
    rw [h.fresh d' (.inr hd)] at hn
    cases hn
  refine ⟨h.ordered.open, h.foreign, fun d' n hn => ?_, fun d' d'' n hn hn' => ?_,
    fun d' hd' => ?_, fun d' hd' => ?_, fun d' n hn hd' => ?_, fun d' n hd' hn => ?_,
    fun d' hd' => ?_, ⟨fun d' i n hmem hn => hkeep d' n (h.delivered.projected d' i n hmem hn),
      fun d' i hmem => ?_, h.delivered.released⟩⟩
  · rcases (hturn d' n).mp hn with ⟨-, rfl⟩ | ⟨-, hn⟩
    · exact Nat.lt_succ_self _
    · exact Nat.lt_succ_of_lt (h.opened d' n hn)
  · rcases (hturn d' n).mp hn with ⟨hd', hturns⟩ | ⟨-, hold⟩ <;>
      rcases (hturn d'' n).mp hn' with ⟨hd'', hturns'⟩ | ⟨-, hold'⟩
    · exact hd'.trans hd''.symm
    · exact absurd (hturns ▸ h.opened d'' n hold') (Nat.lt_irrefl _)
    · exact absurd (hturns' ▸ h.opened d' n hold) (Nat.lt_irrefl _)
    · exact h.injective d' d'' n hold hold'
  · have hdd : d' ≠ d := by
      rintro rfl
      simp at hd'
    exact (update_of_ne hdd _ s.turnOf).trans (h.fresh d' (by simpa [hdd] using hd'))
  · by_cases hdd : d' = d
    · exact ⟨s.feed.turns, (hturn d' _).mpr (.inl ⟨hdd, rfl⟩)⟩
    · obtain ⟨n, hn⟩ := h.known d' (by simpa [hdd] using hd')
      exact ⟨n, hkeep d' n hn⟩
  · rcases (hturn d' n).mp hn with ⟨-, rfl⟩ | ⟨hdd, hn⟩
    · exact h.ordered.whole_turns
    · exact (h.whole d' n hn (by simpa [hdd] using hd')).open
  · rcases (hturn d' n).mp hn with ⟨rfl, -⟩ | ⟨hdd, hn⟩
    · simp at hd'
    · exact (h.due d' n (by simpa [hdd] using hd') hn).open
  · refine h.reservations d' ?_
    by_cases hdd : d' = d
    · subst hdd
      exact ⟨by simp [hd], by simp [hd]⟩
    · unfold State.Open at hd' ⊢
      simpa [hdd] using hd'
  · obtain ⟨n, hn, hown⟩ := h.delivered.ended d' i hmem
    exact ⟨n, hn, hkeep d' n hown⟩

/-- **Step lemma.** -/
theorem Inv.step {e : Event} (h : Inv s) (hgood : Orderly s e) (hs : step s e = some t) :
    Inv t := by
  cases e with
  | reserve d thread =>
    obtain ⟨⟨hd, -, hfree⟩, rfl⟩ := Steps.of_guard hs
    exact h.reserve hd hfree
  | fail d =>
    obtain ⟨hd, rfl⟩ := Steps.of_guard hs
    have hopen : s.Open d := by
      rcases hd with hd | hd <;> exact ⟨by simp [hd], by simp [hd]⟩
    exact h.done hopen s.endings h.delivered.ended
  | submit d =>
    obtain ⟨hd, rfl⟩ := Steps.of_guard hs
    exact h.submit hd
  | spawn d =>
    obtain ⟨hd, rfl⟩ := Steps.of_guard hs
    exact h.advance ⟨by simp [hd], by simp [hd]⟩ (.inl rfl) (h.known d (.inl hd)) (by simp)
  | start d =>
    obtain ⟨hd, rfl⟩ := Steps.of_guard hs
    exact h.advance ⟨by simp [hd], by simp [hd]⟩ (.inr rfl) (h.known d (.inr (.inl hd)))
      fun _ => hgood
  | handles d =>
    obtain ⟨-, rfl⟩ := Steps.of_guard hs
    exact ⟨h.ordered, h.foreign, h.opened, h.injective, h.fresh, h.known, h.whole, h.due,
      h.reservations, ⟨h.delivered.projected, h.delivered.ended, h.delivered.released⟩⟩
  | leaves d =>
    obtain ⟨-, rfl⟩ := Steps.of_guard hs
    exact ⟨h.ordered, h.foreign, h.opened, h.injective, h.fresh, h.known, h.whole, h.due,
      h.reservations, ⟨h.delivered.projected, h.delivered.ended, h.delivered.released⟩⟩
  | put i =>
    obtain ⟨hmay, rfl⟩ := Steps.of_guard hs
    refine ⟨h.ordered.put hmay, fun j hj hnone => ?_, h.opened, h.injective, h.fresh, h.known,
      fun d n hn hd => (h.whole d n hn hd).put i, fun d n hd hn => (h.due d n hd hn).put hmay,
      h.reservations, ⟨h.delivered.projected, h.delivered.ended, h.delivered.released⟩⟩
    rcases List.mem_append.mp hj with hj | hj
    · exact h.foreign j hj hnone
    · obtain rfl := List.mem_singleton.mp hj
      exact hgood hnone
  | read d =>
    simp only [Sharing.step] at hs
    split at hs
    case h_1 => cases hs
    case h_2 i rest hqueue =>
      simp only [Option.ite_none_right_eq_some, Option.some.injEq] at hs
      obtain ⟨hd, rfl⟩ := hs
      exact h.read hd hqueue
  | timeout d =>
    obtain ⟨hd, rfl⟩ := Steps.of_guard hs
    refine h.done ⟨by simp [hd], by simp [hd]⟩ ((d, .timeout) :: s.endings) fun d' i hmem => ?_
    rcases List.mem_cons.mp hmem with heq | hmem
    · cases (Prod.mk.inj heq).2
    · exact h.delivered.ended d' i hmem

/-- One turn and its end. -/
def oneTurn : List Event :=
  [.reserve 1 ['a'], .submit 1, .spawn 1, .start 1, .put ⟨some 0, .complete⟩, .read 1]

theorem oneTurn_runs : (run step init oneTurn).isSome := by decide

/-- A turn runs on one thread while the turn of another waits: the drain of the second takes the
event of the first, ends on it, and releases its thread. -/
def twoThreads : List Event :=
  [.reserve 1 ['a'], .submit 1, .spawn 1, .start 1, .reserve 2 ['b'], .submit 2, .spawn 2, .start 2,
    .put ⟨some 0, .complete⟩, .read 2]

theorem twoThreads_runs : (run step init twoThreads).isSome := by decide

end MiqroForge.Turns.Sharing
