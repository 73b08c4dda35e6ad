import MiqroForge.Library.Steps
import Mathlib.Data.List.Nodup

/-!
`UserInputGate`: the requests of a turn queue for one slot, and only the holder of the slot
has a live card. A step goes from one suspension point of a request to the next.
-/

namespace MiqroForge.Kun.InputGate

open Steps Function List

/-- `_TurnSlot`. -/
structure Slot where
  free : Bool
  held : Bool
  waiters : Nat
  cancelled : Bool

def Slot.new : Slot := ⟨true, false, 0, false⟩

/-- No holder and no waiter. -/
def Slot.idle (k : Slot) : Bool := !k.held && k.waiters == 0

def Slot.take (k : Slot) : Slot := { k with free := false, held := true }

def Slot.release (k : Slot) : Slot := { k with free := true, held := false }

def Slot.cancel (k : Slot) : Slot := { k with free := true, cancelled := true }

/-- What a request carries: its turn, the slot it found, and where its card stands. -/
structure Request where
  turn : Nat
  slot : Nat
  callback : Bool
  announcing : Bool
  resolved : Bool

/-- The gate, and the requests that wait for a slot, hold one, or have returned or raised. -/
structure Gate where
  pending : List Nat
  table : Nat → Option Nat
  slots : Nat → Slot
  nextSlot : Nat
  info : Nat → Request
  queued : List Nat
  holders : List Nat
  finished : List Nat

def init : Gate where
  pending := []
  table := fun _ => none
  slots := fun _ => Slot.new
  nextSlot := 0
  info := fun _ => ⟨0, 0, false, false, false⟩
  queued := []
  holders := []
  finished := []

inductive Event
  | call (r turn : Nat) (callback : Bool)
  | wake (r : Nat)
  | announced (r : Nat)
  | announceFails (r : Nat)
  | resolve (r : Nat)
  | returns (r : Nat)
  | timeout (r : Nat)
  | cancelTask (r : Nat)
  | cancelAll (turn : Nat)
  deriving DecidableEq

def setSlot (s : Gate) (k : Nat) (slot : Slot) : Gate :=
  { s with slots := update s.slots k slot }

/-- `if slot.idle: self._turn_slots.pop(turn_id, None)`. -/
def dropIdle (s : Gate) (turn k : Nat) : Gate :=
  if (s.slots k).idle then { s with table := update s.table turn none } else s

/-- `self._turn_slots.setdefault(turn_id, _TurnSlot())`. -/
def findSlot (s : Gate) (turn : Nat) : Gate × Nat :=
  match s.table turn with
  | some k => (s, k)
  | none =>
    ({ s with
      table := update s.table turn (some s.nextSlot)
      slots := update s.slots s.nextSlot Slot.new
      nextSlot := s.nextSlot + 1 }, s.nextSlot)

/-- The request has the slot and is registered; its card is announced next. -/
def hold (s : Gate) (r : Nat) (req : Request) : Gate :=
  { s with
    pending := r :: s.pending
    info := update s.info r { req with announcing := req.callback }
    holders := r :: s.holders }

/-- The request returns or raises: the `finally` clause around the whole body. -/
def leave (s : Gate) (r : Nat) : Gate :=
  let req := s.info r
  dropIdle { s with
    slots := update s.slots req.slot (s.slots req.slot).release
    holders := s.holders.erase r
    finished := r :: s.finished } req.turn req.slot

/-- `self._pending.pop(input_id, None)`. -/
def unregister (s : Gate) (r : Nat) : Gate := { s with pending := s.pending.filter (· ≠ r) }

/-- A request that was cancelled in the queue. -/
def refuse (s : Gate) (r turn k : Nat) : Gate :=
  dropIdle { s with finished := r :: s.finished } turn k

def stopWaiting (s : Gate) (r : Nat) : Gate :=
  let k := (s.info r).slot
  { s with
    slots := update s.slots k { s.slots k with waiters := (s.slots k).waiters - 1 }
    queued := s.queued.erase r }

def step (s : Gate) : Event → Option Gate
  | .call r turn callback =>
    if r ∈ s.queued ∨ r ∈ s.holders ∨ r ∈ s.finished then none
    else
      let (t, k) := findSlot s turn
      let slot := t.slots k
      let req : Request := ⟨turn, k, callback, false, false⟩
      if slot.cancelled then some (refuse t r turn k)
      else if slot.free ∧ ¬ slot.held then some (hold (setSlot t k slot.take) r req)
      else
        some { setSlot t k { slot with waiters := slot.waiters + 1 } with
          info := update t.info r req
          queued := r :: t.queued }
  | .wake r =>
    let req := s.info r
    if r ∈ s.queued ∧ (s.slots req.slot).free then
      let t := stopWaiting s r
      if (s.slots req.slot).cancelled then some (refuse t r req.turn req.slot)
      else if (s.slots req.slot).held then some s
      else some (hold (setSlot t req.slot (t.slots req.slot).take) r req)
    else none
  | .announced r =>
    if r ∈ s.holders ∧ (s.info r).announcing then
      some { s with info := update s.info r { s.info r with announcing := false } }
    else none
  | .announceFails r =>
    -- outside the inner try: the request stays registered
    if r ∈ s.holders ∧ (s.info r).announcing then some (leave s r) else none
  | .resolve r =>
    if r ∈ s.pending then
      some { s with info := update s.info r { s.info r with resolved := true } }
    else none
  | .returns r =>
    if r ∈ s.holders ∧ ¬ (s.info r).announcing ∧ (s.info r).resolved then
      some (leave (unregister s r) r)
    else none
  | .timeout r =>
    if r ∈ s.holders ∧ ¬ (s.info r).announcing then some (leave (unregister s r) r) else none
  | .cancelTask r =>
    if r ∈ s.queued then
      -- out of `acquire`: nobody looks whether the slot is idle
      some { stopWaiting s r with finished := r :: s.finished }
    else if r ∈ s.holders then
      if (s.info r).announcing then some (leave s r) else some (leave (unregister s r) r)
    else none
  | .cancelAll turn =>
    let t := { s with
      info := fun r =>
        if r ∈ s.pending ∧ (s.info r).turn = turn then { s.info r with resolved := true }
        else s.info r
      pending := s.pending.filter fun r => (s.info r).turn ≠ turn }
    match s.table turn with
    | none => some t
    | some k => some (dropIdle (setSlot t k (s.slots k).cancel) turn k)

/-! ## One live card -/

/-- A request that is in the queue or has the slot. -/
def Outstanding (s : Gate) (r : Nat) : Prop := r ∈ s.queued ∨ r ∈ s.holders

structure Safe (s : Gate) : Prop where
  one : ∀ r ∈ s.pending, ∀ r' ∈ s.pending, (s.info r).turn = (s.info r').turn → r = r'
  gone : ∀ r ∈ s.finished, r ∉ s.pending
  empty : ∀ turn, (∀ r, Outstanding s r → (s.info r).turn ≠ turn) → s.table turn = none

/-- No callback fails or is cancelled while its request is registered, and no request is cancelled
in the queue of a slot that nobody else uses. -/
def Careful (s : Gate) : Event → Prop
  | .announceFails r => r ∈ s.holders → (s.info r).announcing = true → r ∉ s.pending
  | .cancelTask r =>
    (r ∈ s.queued → (s.slots (s.info r).slot).held = true ∨ 1 < (s.slots (s.info r).slot).waiters) ∧
      (r ∉ s.queued → r ∈ s.holders → (s.info r).announcing = true → r ∉ s.pending)
  | _ => True

/-! ## The invariant of a careful gate -/

/-- The requests of a list that use a slot. -/
def users (info : Nat → Request) (rs : List Nat) (k : Nat) : Nat :=
  rs.countP fun r => (info r).slot = k

theorem users_cons (info : Nat → Request) (r : Nat) (rs : List Nat) (k : Nat) :
    users info (r :: rs) k = users info rs k + if (info r).slot = k then 1 else 0 := by
  simp [users, countP_cons]

theorem users_erase (info : Nat → Request) {r : Nat} {rs : List Nat} (h : r ∈ rs) (k : Nat) :
    users info rs k = users info (rs.erase r) k + if (info r).slot = k then 1 else 0 := by
  rw [← users_cons]
  exact (perm_cons_erase h).countP_eq _

theorem users_congr {info info' : Nat → Request} {rs : List Nat}
    (h : ∀ r ∈ rs, (info' r).slot = (info r).slot) (k : Nat) :
    users info' rs k = users info rs k :=
  countP_congr fun r hr => by simp [h r hr]

theorem users_pos (info : Nat → Request) {r : Nat} {rs : List Nat} (h : r ∈ rs) :
    0 < users info rs (info r).slot :=
  countP_pos_iff.mpr ⟨r, h, by simp⟩

/-- Everything but that the slot of one turn may be idle: what holds while a request runs. -/
structure Books (s : Gate) (turn : Nat) : Prop where
  distinct : ∀ r, s.queued.count r + s.holders.count r + s.finished.count r ≤ 1
  found : ∀ r, Outstanding s r → s.table (s.info r).turn = some (s.info r).slot
  known : ∀ turn k, s.table turn = some k → k < s.nextSlot
  own : ∀ turn turn' k, s.table turn = some k → s.table turn' = some k → turn = turn'
  waiters : ∀ turn k, s.table turn = some k → (s.slots k).waiters = users s.info s.queued k
  held : ∀ turn k, s.table turn = some k → (s.slots k).held.toNat = users s.info s.holders k
  used : ∀ turn' k, turn' ≠ turn → s.table turn' = some k → (s.slots k).idle = false
  pending : ∀ r ∈ s.pending, r ∈ s.holders

/-- Every slot of the table is used, by requests of its turn. -/
structure Inv (s : Gate) : Prop where
  books : ∀ turn, Books s turn
  used : ∀ turn k, s.table turn = some k → (s.slots k).idle = false

variable {s : Gate}

theorem Books.inv (turn : Nat) (h : Books s turn)
    (hused : ∀ k, s.table turn = some k → (s.slots k).idle = false) : Inv s := by
  have hall : ∀ turn' k, s.table turn' = some k → (s.slots k).idle = false := by
    intro turn' k hk
    by_cases hturn : turn' = turn
    · exact hused k (hturn ▸ hk)
    · exact h.used turn' k hturn hk
  exact ⟨fun _ => { h with used := fun turn' k _ => hall turn' k }, hall⟩

theorem Books.no_users {turn k : Nat} (h : Books s turn) (hk : s.table turn = some k)
    (hidle : (s.slots k).idle = true) (r : Nat) (hr : Outstanding s r) :
    (s.info r).turn ≠ turn := by
  rintro rfl
  have hslot : (s.info r).slot = k := Option.some.inj ((h.found r hr).symm.trans hk)
  simp only [Slot.idle, Bool.and_eq_true, Bool.not_eq_true', beq_iff_eq] at hidle
  rcases hr with hr | hr
  · have hpos := users_pos s.info hr
    rw [hslot, ← h.waiters _ k hk] at hpos
    omega
  · have hpos := users_pos s.info hr
    rw [hslot, ← h.held _ k hk, hidle.1] at hpos
    exact Nat.lt_irrefl 0 hpos

theorem Books.drop {turn k : Nat} (h : Books s turn) (hk : s.table turn = some k) :
    Inv (dropIdle s turn k) := by
  unfold dropIdle
  split
  case isFalse hbusy =>
    refine h.inv turn (fun k' hk' => ?_)
    obtain rfl := Option.some.inj (hk.symm.trans hk')
    simpa using hbusy
  case isTrue hidle =>
    have hkeep : ∀ turn' k', update s.table turn none turn' = some k' →
        turn' ≠ turn ∧ s.table turn' = some k' := by
      intro turn' k' hk'
      by_cases hturn : turn' = turn
      · subst hturn
        simp at hk'
      · exact ⟨hturn, by simpa [hturn] using hk'⟩
    refine Books.inv turn ⟨h.distinct, fun r hr => ?_, fun turn' k' hk' => ?_,
      fun a b k' ha hb => ?_, fun turn' k' hk' => ?_, fun turn' k' hk' => ?_,
      fun turn' k' _ hk' => ?_, h.pending⟩ (fun k' hk' => ?_)
    · have hne := h.no_users hk hidle r hr
      simpa [hne] using h.found r hr
    · exact h.known turn' k' (hkeep turn' k' hk').2
    · exact h.own a b k' (hkeep a k' ha).2 (hkeep b k' hb).2
    · exact h.waiters turn' k' (hkeep turn' k' hk').2
    · exact h.held turn' k' (hkeep turn' k' hk').2
    · exact h.used turn' k' (hkeep turn' k' hk').1 (hkeep turn' k' hk').2
    · exact absurd rfl (hkeep turn k' hk').1

/-- A request that is not there yet, or has just left the queue. -/
def Absent (s : Gate) (r : Nat) : Prop := r ∉ s.queued ∧ r ∉ s.holders ∧ r ∉ s.finished

theorem update_slot {turn k : Nat} {P : Nat → Slot → Prop}
    (hk : s.table turn = some k) (slot : Slot) (hslot : P k slot)
    (hother : ∀ turn' k', turn' ≠ turn → k' ≠ k → s.table turn' = some k' → P k' (s.slots k')) :
    ∀ turn' k', s.table turn' = some k' → P k' (update s.slots k slot k') := by
  intro turn' k' hk'
  by_cases hkk : k' = k
  · subst hkk
    rwa [update_self]
  · rw [update_of_ne hkk]
    refine hother turn' k' ?_ hkk hk'
    rintro rfl
    exact hkk (Option.some.inj (hk'.symm.trans hk))

theorem count_new {as bs cs : List Nat} {r : Nat}
    (h : ∀ x, as.count x + bs.count x + cs.count x ≤ 1) (has : r ∉ as) (hbs : r ∉ bs) (hcs : r ∉ cs)
    (x : Nat) : as.count x + bs.count x + (r :: cs).count x ≤ 1 := by
  have := h x
  rw [count_cons]
  by_cases hx : x = r
  · subst hx
    rw [count_eq_zero_of_not_mem has, count_eq_zero_of_not_mem hbs,
      count_eq_zero_of_not_mem hcs]
    simp
  · simp only [beq_iff_eq, Ne.symm hx, if_false]
    omega

theorem Books.hold {turn k r : Nat} (h : Books s turn) (hk : s.table turn = some k)
    (hfree : (s.slots k).held = false) (habsent : Absent s r) {req : Request}
    (hturn : req.turn = turn) (hreq : req.slot = k) :
    Inv (hold (setSlot s k (s.slots k).take) r req) := by
  obtain ⟨hqueued, hholders, hfinished⟩ := habsent
  have hinfo : ∀ rs : List Nat, r ∉ rs → ∀ k', users (update s.info r
      { req with announcing := req.callback }) rs k' = users s.info rs k' := by
    intro rs hrs k'
    refine users_congr (fun x hx => ?_) k'
    rw [update_of_ne (by rintro rfl; exact hrs hx)]
  have hidle : ∀ turn' k', s.table turn' = some k' →
      (update s.slots k (s.slots k).take k').idle = false := by
    refine update_slot (P := fun _ slot => slot.idle = false) hk _ rfl ?_
    exact fun turn' k' hne _ hk' => h.used turn' k' hne hk'
  refine Books.inv turn ⟨fun x => ?_, fun x hx => ?_, h.known, h.own, fun turn' k' hk' => ?_,
    fun turn' k' hk' => ?_, fun turn' k' _ hk' => hidle turn' k' hk', fun x hx => ?_⟩ (hidle turn)
  · have := count_new (fun x => by have := h.distinct x; omega) hqueued hfinished hholders x
    show s.queued.count x + (r :: s.holders).count x + s.finished.count x ≤ 1
    omega
  · show s.table (update s.info r { req with announcing := req.callback } x).turn =
      some (update s.info r { req with announcing := req.callback } x).slot
    by_cases hxr : x = r
    · subst hxr
      simpa [hturn, hreq] using hk
    · rw [update_of_ne hxr]
      refine h.found x ?_
      rcases hx with hx | hx
      · exact .inl hx
      · exact .inr ((mem_cons.mp hx).resolve_left hxr)
  · rw [show users (InputGate.hold (setSlot s k (s.slots k).take) r req).info
      (InputGate.hold (setSlot s k (s.slots k).take) r req).queued k' = users s.info s.queued k'
      from hinfo s.queued hqueued k']
    exact update_slot (P := fun k' slot => slot.waiters = users s.info s.queued k') hk
      (s.slots k).take (h.waiters turn k hk)
      (fun turn' k' _ _ hk' => h.waiters turn' k' hk') turn' k' hk'
  · show _ = users (update s.info r { req with announcing := req.callback })
      (r :: s.holders) k'
    rw [users_cons, hinfo s.holders hholders, update_self]
    show _ = _ + if req.slot = k' then 1 else 0
    rw [hreq]
    refine update_slot (P := fun k' slot =>
      slot.held.toNat = users s.info s.holders k' + if k = k' then 1 else 0) hk _ ?_
      (fun turn' k' _ hkk hk' => ?_) turn' k' hk'
    · rw [← h.held turn k hk, hfree]
      simp [Slot.take]
    · rw [h.held turn' k' hk', if_neg (Ne.symm hkk)]
      rfl
  · rcases mem_cons.mp hx with rfl | hx
    · exact mem_cons_self
    · exact mem_cons_of_mem r (h.pending x hx)

theorem Books.queue {turn k r : Nat} (h : Books s turn) (hk : s.table turn = some k)
    (habsent : Absent s r) {req : Request} (hturn : req.turn = turn) (hreq : req.slot = k) :
    Inv { setSlot s k { s.slots k with waiters := (s.slots k).waiters + 1 } with
      info := update s.info r req
      queued := r :: s.queued } := by
  obtain ⟨hqueued, hholders, hfinished⟩ := habsent
  have hinfo : ∀ rs : List Nat, r ∉ rs → ∀ k',
      users (update s.info r req) rs k' = users s.info rs k' := by
    intro rs hrs k'
    refine users_congr (fun x hx => ?_) k'
    rw [update_of_ne (by rintro rfl; exact hrs hx)]
  have hidle : ∀ turn' k', s.table turn' = some k' →
      (update s.slots k { s.slots k with waiters := (s.slots k).waiters + 1 } k').idle =
        false := by
    refine update_slot (P := fun _ slot => slot.idle = false) hk _ ?_ ?_
    · simp [Slot.idle]
    · exact fun turn' k' hne _ hk' => h.used turn' k' hne hk'
  refine Books.inv turn ⟨fun x => ?_, fun x hx => ?_, h.known, h.own, fun turn' k' hk' => ?_,
    fun turn' k' hk' => ?_, fun turn' k' _ hk' => hidle turn' k' hk', h.pending⟩ (hidle turn)
  · have := count_new (fun x => by have := h.distinct x; omega) hholders hfinished hqueued x
    show (r :: s.queued).count x + s.holders.count x + s.finished.count x ≤ 1
    omega
  · show s.table (update s.info r req x).turn = some (update s.info r req x).slot
    by_cases hxr : x = r
    · subst hxr
      simpa [hturn, hreq] using hk
    · rw [update_of_ne hxr]
      refine h.found x ?_
      rcases hx with hx | hx
      · exact .inl ((mem_cons.mp hx).resolve_left hxr)
      · exact .inr hx
  · show _ = users (update s.info r req) (r :: s.queued) k'
    rw [users_cons, hinfo s.queued hqueued, update_self, hreq]
    refine update_slot (P := fun k' slot =>
      slot.waiters = users s.info s.queued k' + if k = k' then 1 else 0) hk _ ?_
      (fun turn' k' _ hkk hk' => ?_) turn' k' hk'
    · simp [h.waiters turn k hk]
    · rw [h.waiters turn' k' hk', if_neg (Ne.symm hkk)]
      rfl
  · show _ = users (update s.info r req) s.holders k'
    rw [hinfo s.holders hholders]
    exact update_slot (P := fun k' slot => slot.held.toNat = users s.info s.holders k') hk
      { s.slots k with waiters := (s.slots k).waiters + 1 } (h.held turn k hk)
      (fun turn' k' _ _ hk' => h.held turn' k' hk') turn' k' hk'

theorem Inv.stopWaiting (h : Inv s) {r : Nat} (hr : r ∈ s.queued) :
    Books (stopWaiting s r) (s.info r).turn ∧ Absent (stopWaiting s r) r ∧
      (stopWaiting s r).table (s.info r).turn = some (s.info r).slot := by
  have hbooks := h.books (s.info r).turn
  have hk := hbooks.found r (.inl hr)
  have hcount := perm_cons_erase hr
  have hdistinct : ∀ x, (s.queued.erase r).count x + s.holders.count x + s.finished.count x +
      (if r = x then 1 else 0) ≤ 1 := by
    intro x
    have := hbooks.distinct x
    rw [hcount.count_eq x, count_cons] at this
    simp only [beq_iff_eq] at this
    omega
  refine ⟨⟨fun x => ?_, fun x hx => hbooks.found x (hx.imp_left mem_of_mem_erase),
    hbooks.known, hbooks.own, fun turn' k' hk' => ?_, fun turn' k' hk' => ?_,
    fun turn' k' hne hk' => ?_, hbooks.pending⟩, ?_, hk⟩
  · have := hdistinct x
    simp only [InputGate.stopWaiting]
    omega
  · have herase := fun k' => users_erase s.info hr k'
    refine update_slot (P := fun k' slot =>
      slot.waiters = users s.info (s.queued.erase r) k') hk _ ?_ (fun turn' k' _ hkk hk' => ?_)
      turn' k' hk'
    · have := herase (s.info r).slot
      rw [if_pos rfl, ← hbooks.waiters _ _ hk] at this
      show (s.slots (s.info r).slot).waiters - 1 = _
      omega
    · have := herase k'
      rw [if_neg (Ne.symm hkk)] at this
      rw [hbooks.waiters turn' k' hk', this]
      rfl
  · exact update_slot (P := fun k' slot => slot.held.toNat = users s.info s.holders k') hk
      { s.slots (s.info r).slot with waiters := (s.slots (s.info r).slot).waiters - 1 }
      (hbooks.held _ _ hk)
      (fun turn' k' _ _ hk' => hbooks.held turn' k' hk') turn' k' hk'
  · have hkk : k' ≠ (s.info r).slot := by
      rintro rfl
      exact hne (hbooks.own _ _ _ hk' hk)
    show (update s.slots (s.info r).slot _ k').idle = false
    rw [update_of_ne hkk]
    exact h.used turn' k' hk'
  · have := hdistinct r
    rw [if_pos rfl] at this
    refine ⟨?_, ?_, ?_⟩
    · exact count_eq_zero.mp (show (s.queued.erase r).count r = 0 by omega)
    · exact count_eq_zero.mp (show s.holders.count r = 0 by omega)
    · exact count_eq_zero.mp (show s.finished.count r = 0 by omega)

theorem Books.finish {turn r : Nat} (h : Books s turn) (habsent : Absent s r) :
    Books { s with finished := r :: s.finished } turn := by
  obtain ⟨hqueued, hholders, hfinished⟩ := habsent
  exact ⟨count_new h.distinct hqueued hholders hfinished, h.found, h.known, h.own, h.waiters,
    h.held, h.used, h.pending⟩

theorem Books.refuse {turn k r : Nat} (h : Books s turn) (hk : s.table turn = some k)
    (habsent : Absent s r) : Inv (refuse s r turn k) :=
  (h.finish habsent).drop hk

theorem Inv.leave (h : Inv s) {r : Nat} (hr : r ∈ s.holders) (hgone : r ∉ s.pending) :
    Inv (leave s r) := by
  have hbooks := h.books (s.info r).turn
  have hk := hbooks.found r (.inr hr)
  have hcount := perm_cons_erase hr
  have hdistinct : ∀ x, s.queued.count x + (s.holders.erase r).count x + s.finished.count x +
      (if r = x then 1 else 0) ≤ 1 := by
    intro x
    have := hbooks.distinct x
    rw [hcount.count_eq x, count_cons] at this
    simp only [beq_iff_eq] at this
    omega
  have herase := fun k' => users_erase s.info hr k'
  have hone : users s.info s.holders (s.info r).slot ≤ 1 := by
    rw [← hbooks.held _ _ hk]
    exact Bool.toNat_le _
  refine Books.drop ⟨fun x => ?_, fun x hx => hbooks.found x (hx.imp_right mem_of_mem_erase),
    hbooks.known, hbooks.own, fun turn' k' hk' => ?_, fun turn' k' hk' => ?_,
    fun turn' k' hne hk' => ?_, fun x hx => ?_⟩ hk
  · have := hdistinct x
    simp only [count_cons, beq_iff_eq]
    omega
  · exact update_slot (P := fun k' slot => slot.waiters = users s.info s.queued k') hk
      (s.slots (s.info r).slot).release (hbooks.waiters _ _ hk)
      (fun turn' k' _ _ hk' => hbooks.waiters turn' k' hk') turn' k' hk'
  · refine update_slot (P := fun k' slot =>
      slot.held.toNat = users s.info (s.holders.erase r) k') hk _ ?_ (fun turn' k' _ hkk hk' => ?_)
      turn' k' hk'
    · have := herase (s.info r).slot
      rw [if_pos rfl] at this
      show 0 = _
      omega
    · have := herase k'
      rw [if_neg (Ne.symm hkk)] at this
      rw [hbooks.held turn' k' hk', this]
      rfl
  · have hkk : k' ≠ (s.info r).slot := by
      rintro rfl
      exact hne (hbooks.own _ _ _ hk' hk)
    show (update s.slots (s.info r).slot _ k').idle = false
    rw [update_of_ne hkk]
    exact h.used turn' k' hk'
  · exact (mem_erase_of_ne (by rintro rfl; exact hgone hx)).mpr (hbooks.pending x hx)

theorem Inv.unregister (h : Inv s) (r : Nat) : Inv (unregister s r) :=
  ⟨fun turn => { h.books turn with
    pending := fun x hx => (h.books turn).pending x (mem_of_mem_filter hx) }, h.used⟩

theorem not_mem_unregister (s : Gate) (r : Nat) : r ∉ (unregister s r).pending := by
  simp [InputGate.unregister]

theorem Inv.findSlot (h : Inv s) (turn : Nat) : ∃ t k, findSlot s turn = (t, k) ∧
    Books t turn ∧ t.table turn = some k ∧ t.queued = s.queued ∧ t.holders = s.holders ∧
    t.finished = s.finished ∧ t.info = s.info := by
  have hbooks := h.books turn
  unfold InputGate.findSlot
  split
  case h_1 k hk => exact ⟨s, k, rfl, hbooks, hk, rfl, rfl, rfl, rfl⟩
  case h_2 hnone =>
    have hslot : ∀ r, Outstanding s r → (s.info r).slot < s.nextSlot := fun r hr =>
      hbooks.known _ _ (hbooks.found r hr)
    have hold : ∀ turn' k', update s.table turn (some s.nextSlot) turn' = some k' →
        turn' = turn ∧ k' = s.nextSlot ∨
          turn' ≠ turn ∧ s.table turn' = some k' ∧ k' ≠ s.nextSlot := by
      intro turn' k' hk'
      by_cases hturn : turn' = turn
      · subst hturn
        rw [update_self] at hk'
        exact .inl ⟨rfl, (Option.some.inj hk').symm⟩
      · rw [update_of_ne hturn] at hk'
        exact .inr ⟨hturn, hk', Nat.ne_of_lt (hbooks.known turn' k' hk')⟩
    have hnew : ∀ rs : List Nat, (∀ r ∈ rs, Outstanding s r) → users s.info rs s.nextSlot = 0 := by
      intro rs hrs
      refine countP_eq_zero.mpr (fun r hr => ?_)
      simpa using Nat.ne_of_lt (hslot r (hrs r hr))
    refine ⟨_, _, rfl, ⟨hbooks.distinct, fun r hr => ?_, fun turn' k' hk' => ?_,
      fun a b k' ha hb => ?_, fun turn' k' hk' => ?_, fun turn' k' hk' => ?_,
      fun turn' k' hne hk' => ?_, hbooks.pending⟩, update_self .., rfl, rfl, rfl, rfl⟩
    · have hk := hbooks.found r hr
      have hne : (s.info r).turn ≠ turn := by
        intro hturn
        rw [hturn, hnone] at hk
        cases hk
      simpa [hne] using hk
    · rcases hold turn' k' hk' with ⟨-, rfl⟩ | ⟨-, hk', -⟩
      · exact Nat.lt_succ_self _
      · exact Nat.lt_succ_of_lt (hbooks.known turn' k' hk')
    · rcases hold a k' ha with ⟨rfl, rfl⟩ | ⟨-, ha, hne⟩
      · rcases hold b _ hb with ⟨rfl, -⟩ | ⟨-, -, hne⟩
        · rfl
        · exact absurd rfl hne
      · rcases hold b k' hb with ⟨-, rfl⟩ | ⟨-, hb, -⟩
        · exact absurd rfl hne
        · exact hbooks.own a b k' ha hb
    · show (update s.slots s.nextSlot Slot.new k').waiters = users s.info s.queued k'
      rcases hold turn' k' hk' with ⟨-, rfl⟩ | ⟨-, hk', hne⟩
      · rw [update_self, hnew s.queued fun r hr => .inl hr]
        rfl
      · rw [update_of_ne hne]
        exact hbooks.waiters turn' k' hk'
    · show (update s.slots s.nextSlot Slot.new k').held.toNat = users s.info s.holders k'
      rcases hold turn' k' hk' with ⟨-, rfl⟩ | ⟨-, hk', hne⟩
      · rw [update_self, hnew s.holders fun r hr => .inr hr]
        rfl
      · rw [update_of_ne hne]
        exact hbooks.held turn' k' hk'
    · show (update s.slots s.nextSlot Slot.new k').idle = false
      rcases hold turn' k' hk' with ⟨rfl, -⟩ | ⟨-, hk', hkk⟩
      · exact absurd rfl hne
      · rw [update_of_ne hkk]
        exact h.used turn' k' hk'

theorem Inv.info (h : Inv s) (info : Nat → Request) (pending : List Nat)
    (hinfo : ∀ r, (info r).turn = (s.info r).turn ∧ (info r).slot = (s.info r).slot)
    (hpending : ∀ r ∈ pending, r ∈ s.pending) :
    Inv { s with info := info, pending := pending } := by
  have husers : ∀ rs k, users info rs k = users s.info rs k := fun rs k =>
    users_congr (fun r _ => (hinfo r).2) k
  refine ⟨fun turn => ?_, h.used⟩
  have hbooks := h.books turn
  refine ⟨hbooks.distinct, fun r hr => ?_, hbooks.known, hbooks.own, fun turn' k hk => ?_,
    fun turn' k hk => ?_, hbooks.used, fun r hr => hbooks.pending r (hpending r hr)⟩
  · show s.table (info r).turn = some (info r).slot
    rw [(hinfo r).1, (hinfo r).2]
    exact hbooks.found r hr
  · exact (hbooks.waiters turn' k hk).trans (husers s.queued k).symm
  · exact (hbooks.held turn' k hk).trans (husers s.holders k).symm

theorem Inv.init : Inv init :=
  Books.inv 0 ⟨fun r => by simp [InputGate.init],
    fun r hr => by simp [Outstanding, InputGate.init] at hr,
    nofun, nofun, nofun, nofun, nofun, nofun⟩ nofun

/-! ## One step -/

theorem Inv.call {s t : Gate} (h : Inv s) {r turn : Nat} {callback : Bool}
    (hstep : step s (.call r turn callback) = some t) : Inv t := by
  obtain ⟨u, k, hfind, hbooks, hk, hqueued, hholders, hfinished, -⟩ := h.findSlot turn
  simp only [step, hfind] at hstep
  split at hstep
  case isTrue => cases hstep
  case isFalse hnew =>
    have habsent : Absent u r := by
      rw [Absent, hqueued, hholders, hfinished]
      simpa only [not_or] using hnew
    split at hstep
    case isTrue =>
      cases hstep
      exact hbooks.refuse hk habsent
    case isFalse =>
      split at hstep
      case isTrue hfree =>
        cases hstep
        exact hbooks.hold hk (by simpa using hfree.2) habsent rfl rfl
      case isFalse =>
        cases hstep
        exact hbooks.queue hk habsent rfl rfl

theorem Inv.wake {s t : Gate} (h : Inv s) {r : Nat} (hstep : step s (.wake r) = some t) :
    Inv t := by
  simp only [step] at hstep
  split at hstep
  case isFalse => cases hstep
  case isTrue hr =>
    obtain ⟨hbooks, habsent, hk⟩ := h.stopWaiting hr.1
    split at hstep
    case isTrue =>
      cases hstep
      exact hbooks.refuse hk habsent
    case isFalse =>
      split at hstep
      case isTrue =>
        cases hstep
        exact h
      case isFalse hheld =>
        cases hstep
        refine hbooks.hold hk ?_ habsent rfl rfl
        simpa [InputGate.stopWaiting] using hheld

theorem Inv.withInfo (h : Inv s) (r : Nat) (announcing resolved : Bool) :
    Inv { s with
      info := update s.info r
        { s.info r with announcing := announcing, resolved := resolved } } := by
  refine h.info _ s.pending (fun x => ?_) (fun _ hx => hx)
  by_cases hx : x = r
  · subst hx
    rw [update_self]
    exact ⟨rfl, rfl⟩
  · rw [update_of_ne hx]
    exact ⟨rfl, rfl⟩

theorem Inv.cancelTask {s t : Gate} (h : Inv s) {r : Nat} (hgood : Careful s (.cancelTask r))
    (hstep : step s (.cancelTask r) = some t) : Inv t := by
  simp only [step] at hstep
  split at hstep
  case isTrue hr =>
    obtain ⟨hbooks, habsent, hk⟩ := h.stopWaiting hr
    cases hstep
    refine (hbooks.finish habsent).inv _ (fun k hk' => ?_)
    obtain rfl := Option.some.inj (hk.symm.trans hk')
    -- somebody else holds the slot or waits for it
    show (update s.slots (s.info r).slot _ (s.info r).slot).idle = false
    rw [update_self]
    rcases hgood.1 hr with hheld | hwaiters
    · simp [Slot.idle, hheld]
    · simp only [Slot.idle, Bool.and_eq_false_iff, beq_eq_false_iff_ne]
      right
      omega
  case isFalse hr =>
    split at hstep
    case isFalse => cases hstep
    case isTrue hholder =>
      split at hstep
      case isTrue hannounce =>
        cases hstep
        exact h.leave hholder (hgood.2 hr hholder hannounce)
      case isFalse =>
        cases hstep
        exact (h.unregister r).leave hholder (not_mem_unregister s r)

theorem Inv.cancelAll {s t : Gate} (h : Inv s) {turn : Nat}
    (hstep : step s (.cancelAll turn) = some t) : Inv t := by
  have hinfo : Inv { s with
      info := fun r =>
        if r ∈ s.pending ∧ (s.info r).turn = turn then { s.info r with resolved := true }
        else s.info r
      pending := s.pending.filter fun r => (s.info r).turn ≠ turn } := by
    refine h.info _ _ (fun r => ?_) (fun r hr => mem_of_mem_filter hr)
    dsimp only
    split
    · exact ⟨rfl, rfl⟩
    · exact ⟨rfl, rfl⟩
  simp only [step] at hstep
  split at hstep
  case h_1 =>
    cases hstep
    exact hinfo
  case h_2 k hk =>
    cases hstep
    have hbooks := hinfo.books turn
    refine Books.drop ⟨hbooks.distinct, hbooks.found, hbooks.known, hbooks.own, ?_, ?_,
      fun turn' k' hne hk' => ?_, hbooks.pending⟩ hk
    · exact update_slot (P := fun k' slot => slot.waiters = users _ s.queued k') hk
        (s.slots k).cancel (hbooks.waiters turn k hk)
        (fun turn' k' _ _ hk' => hbooks.waiters turn' k' hk')
    · exact update_slot (P := fun k' slot => slot.held.toNat = users _ s.holders k') hk
        (s.slots k).cancel (hbooks.held turn k hk)
        (fun turn' k' _ _ hk' => hbooks.held turn' k' hk')
    · have hkk : k' ≠ k := by
        rintro rfl
        exact hne (hbooks.own _ _ _ hk' hk)
      show (update s.slots k _ k').idle = false
      rw [update_of_ne hkk]
      exact h.used turn' k' hk'

theorem Inv.step {s t : Gate} {e : Event} (h : Inv s) (hgood : Careful s e)
    (hstep : step s e = some t) : Inv t := by
  cases e with
  | call r turn callback => exact h.call hstep
  | wake r => exact h.wake hstep
  | announced r =>
    obtain ⟨-, rfl⟩ := Steps.of_guard hstep
    exact h.withInfo r false (s.info r).resolved
  | announceFails r =>
    obtain ⟨hr, rfl⟩ := Steps.of_guard hstep
    exact h.leave hr.1 (hgood hr.1 hr.2)
  | resolve r =>
    obtain ⟨-, rfl⟩ := Steps.of_guard hstep
    exact h.withInfo r (s.info r).announcing true
  | returns r =>
    obtain ⟨hr, rfl⟩ := Steps.of_guard hstep
    exact (h.unregister r).leave hr.1 (not_mem_unregister s r)
  | timeout r =>
    obtain ⟨hr, rfl⟩ := Steps.of_guard hstep
    exact (h.unregister r).leave hr.1 (not_mem_unregister s r)
  | cancelTask r => exact h.cancelTask hgood hstep
  | cancelAll turn => exact h.cancelAll hstep

/-! ## What the invariant says, and where it ends -/

theorem Inv.safe (h : Inv s) : Safe s := by
  refine ⟨fun r hr r' hr' hturn => ?_, fun r hr hpending => ?_, fun turn hnone => ?_⟩
  · have hbooks := h.books (s.info r).turn
    have hholder := hbooks.pending r hr
    have hk := hbooks.found r (.inr hholder)
    by_contra hne
    have hrest : r' ∈ s.holders.erase r :=
      (mem_erase_of_ne (Ne.symm hne)).mpr (hbooks.pending r' hr')
    have hslot : (s.info r').slot = (s.info r).slot := by
      have hk' := hbooks.found r' (.inr (hbooks.pending r' hr'))
      rw [← hturn] at hk'
      exact Option.some.inj (hk'.symm.trans hk)
    have htwo := users_erase s.info hholder (s.info r).slot
    rw [if_pos rfl, ← hbooks.held _ _ hk] at htwo
    have hpos := users_pos s.info hrest
    rw [hslot] at hpos
    have := Bool.toNat_le (s.slots (s.info r).slot).held
    omega
  · have hbooks := h.books 0
    have hcount := hbooks.distinct r
    have hholder := count_pos_iff.mpr (hbooks.pending r hpending)
    have hfinished := count_pos_iff.mpr hr
    omega
  · cases hk : s.table turn with
    | none => rfl
    | some k =>
      exfalso
      have hbooks := h.books turn
      have hslot : ∀ r, Outstanding s r → (s.info r).slot ≠ k := by
        intro r hr hk'
        refine hnone r hr (hbooks.own _ _ k ?_ hk)
        rw [hbooks.found r hr, hk']
      have hempty : ∀ rs : List Nat, (∀ r ∈ rs, Outstanding s r) → users s.info rs k = 0 :=
        fun rs hrs => countP_eq_zero.mpr fun r hr => by simpa using hslot r (hrs r hr)
      have hwaiters := hbooks.waiters turn k hk
      have hheld := hbooks.held turn k hk
      rw [hempty s.queued fun r hr => .inl hr] at hwaiters
      rw [hempty s.holders fun r hr => .inr hr, Bool.toNat_eq_zero] at hheld
      have hidle := h.used turn k hk
      simp [Slot.idle, hwaiters, hheld] at hidle

@[simp] theorem dropIdle_pending (s : Gate) (turn k : Nat) :
    (dropIdle s turn k).pending = s.pending := by
  unfold dropIdle
  split <;> rfl

@[simp] theorem dropIdle_finished (s : Gate) (turn k : Nat) :
    (dropIdle s turn k).finished = s.finished := by
  unfold dropIdle
  split <;> rfl

@[simp] theorem dropIdle_queued (s : Gate) (turn k : Nat) :
    (dropIdle s turn k).queued = s.queued := by
  unfold dropIdle
  split <;> rfl

@[simp] theorem leave_queued (s : Gate) (r : Nat) : (leave s r).queued = s.queued := by
  simp [leave]

@[simp] theorem leave_pending (s : Gate) (r : Nat) : (leave s r).pending = s.pending := by
  simp [leave]

theorem known_of_step {s t : Gate} {e : Event}
    (hs : step s e = some t) {r : Nat} (hr : r ∈ t.queued ∨ r ∈ t.pending) :
    (r ∈ s.queued ∨ r ∈ s.pending) ∨ ∃ turn callback, e = .call r turn callback := by
  cases e with
  | call r' turn callback =>
    simp only [step, Option.ite_none_left_eq_some] at hs
    obtain ⟨-, hs⟩ := hs
    have hfind : (findSlot s turn).1.queued = s.queued ∧
        (findSlot s turn).1.pending = s.pending := by
      unfold findSlot
      split <;> exact ⟨rfl, rfl⟩
    by_cases hrr : r = r'
    · exact .inr ⟨turn, callback, by rw [hrr]⟩
    · left
      rw [← hfind.1, ← hfind.2]
      split at hs
      · cases hs
        simpa [refuse] using hr
      · split at hs
        · cases hs
          simpa [hold, setSlot, hrr] using hr
        · cases hs
          simpa [setSlot, hrr] using hr
  | wake r' =>
    simp only [step, Option.ite_none_right_eq_some] at hs
    obtain ⟨⟨hq, -⟩, hs⟩ := hs
    left
    split at hs
    · cases hs
      refine hr.imp (fun h => ?_) (fun h => ?_)
      · exact mem_of_mem_erase (by simpa [refuse, stopWaiting] using h)
      · simpa [refuse, stopWaiting] using h
    · split at hs
      · cases hs
        exact hr
      · cases hs
        rcases hr with h | h
        · exact .inl (mem_of_mem_erase
            (by simpa [hold, setSlot, stopWaiting] using h))
        · rcases mem_cons.mp h with rfl | h
          · exact .inl hq
          · exact .inr h
  | announced r' =>
    obtain ⟨-, rfl⟩ := Steps.of_guard hs
    exact .inl hr
  | announceFails r' =>
    obtain ⟨-, rfl⟩ := Steps.of_guard hs
    exact .inl (by simpa [leave] using hr)
  | resolve r' =>
    obtain ⟨-, rfl⟩ := Steps.of_guard hs
    exact .inl hr
  | returns r' =>
    obtain ⟨-, rfl⟩ := Steps.of_guard hs
    left
    simp only [leave_queued, leave_pending] at hr
    exact hr.imp_right mem_of_mem_filter
  | timeout r' =>
    obtain ⟨-, rfl⟩ := Steps.of_guard hs
    left
    simp only [leave_queued, leave_pending] at hr
    exact hr.imp_right mem_of_mem_filter
  | cancelTask r' =>
    left
    simp only [step] at hs
    split at hs
    · cases hs
      exact hr.imp_left mem_of_mem_erase
    · split at hs
      · split at hs
        · cases hs
          simpa only [leave_queued, leave_pending] using hr
        · cases hs
          simp only [leave_queued, leave_pending] at hr
          exact hr.imp_right mem_of_mem_filter
      · cases hs
  | cancelAll turn =>
    left
    simp only [step] at hs
    split at hs
    · cases hs
      exact hr.imp_right mem_of_mem_filter
    · cases hs
      simp only [setSlot] at hr
      rw [dropIdle_queued, dropIdle_pending] at hr
      exact hr.imp_right mem_of_mem_filter

theorem not_mem_of_leave {r : Nat} (h : Safe (leave s r)) : r ∉ s.pending := by
  have := h.gone r (by simp [leave])
  simpa [leave] using this

theorem careful_of_safe {e : Event} (h : Inv s)
    (hsafe : ∀ t, step s e = some t → Safe t) : Careful s e := by
  cases e with
  | announceFails r =>
    intro hholder hannounce
    exact not_mem_of_leave (hsafe (leave s r) (by simp [step, hholder, hannounce]))
  | cancelTask r =>
    refine ⟨fun hr => ?_, fun hr hholder hannounce => ?_⟩
    · obtain ⟨hbooks, -, hk⟩ := h.stopWaiting hr
      by_contra hlast
      simp only [not_or, Bool.not_eq_true, Nat.not_lt] at hlast
      have hidle : ((stopWaiting s r).slots (s.info r).slot).idle = true := by
        simp only [stopWaiting, update_self, Slot.idle, hlast.1, Bool.not_false,
          Bool.true_and, beq_iff_eq]
        omega
      -- the slot stays in the table although its last user has left
      have hleft := hsafe { stopWaiting s r with finished := r :: s.finished }
        (by simp only [step, hr, if_true])
      have hnone := hleft.empty (s.info r).turn (hbooks.no_users hk hidle)
      exact absurd (hk.symm.trans hnone) (by simp)
    · exact not_mem_of_leave (hsafe (leave s r) (by simp [step, hr, hholder, hannounce]))
  | _ => trivial

/-- **One live card per turn.** In every state a run passes through, each turn has at most one
registered request, no request that has returned or raised is registered, and a turn without
requests has no slot: exactly when no callback fails or is cancelled while its request is
registered and no request is cancelled in the queue of a slot that nobody else uses. -/
theorem one_card_iff (es : List Event) :
    (∀ before, before <+: es → ∀ t, run step init before = some t → Safe t) ↔
      GoodRun step Careful init es := by
  rw [forall_prefix_iff]
  have hcongr := goodRun_congr step Careful (fun s e => ∀ t, step s e = some t → Safe t) Inv
    (fun s e hs => ⟨fun hgood t ht => (hs.step hgood ht).safe, careful_of_safe hs⟩)
    (fun s e t hs hgood ht => hs.step hgood ht) init es Inv.init
  constructor
  · intro h
    exact hcongr.mpr h.2
  · intro h
    exact ⟨Inv.init.safe, hcongr.mp h⟩

/-- A callback raises, and the next request of the turn is announced beside the stale card. -/
def stacked : List Event := [.call 1 7 true, .announceFails 1, .call 2 7 true]

/-- The second request is cancelled between the release of the slot and its own next step. -/
def leftover : List Event := [.call 1 7 false, .call 2 7 false, .timeout 1, .cancelTask 2]

theorem stacked_runs : (run step init stacked).isSome := by decide

theorem leftover_runs : (run step init leftover).isSome := by decide

theorem stacked_and_leftover :
    ¬ (∀ before, before <+: stacked → ∀ t, run step init before = some t → Safe t) ∧
      ¬ (∀ before, before <+: leftover → ∀ t, run step init before = some t → Safe t) := by
  constructor
  · intro h
    have hsafe := h stacked (List.prefix_refl _) _ (Option.some_get stacked_runs).symm
    have hsame := hsafe.one 1 (by decide) 2 (by decide) (by decide)
    exact absurd hsame (by decide)
  · intro h
    have hsafe := h leftover (List.prefix_refl _) _ (Option.some_get leftover_runs).symm
    have hqueued : ((run step init leftover).get leftover_runs).queued = [] := by decide
    have hholders : ((run step init leftover).get leftover_runs).holders = [] := by decide
    have hnone := hsafe.empty 7 (fun r hr => by simp [Outstanding, hqueued, hholders] at hr)
    exact absurd hnone (by decide)

end MiqroForge.Kun.InputGate
