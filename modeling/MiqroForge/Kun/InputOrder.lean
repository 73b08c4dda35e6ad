import MiqroForge.Kun.InputGate

/-!
The requests of one turn in the order of the event loop. A `set` makes the waiters of `_free`
runnable in the order in which they wait; they run one after another, but a new request can run
before them.
-/

namespace MiqroForge.Kun.InputOrder

open Steps List

open scoped List

open InputGate (Slot)

/-- One turn: its slot in the table, the requests that wait for `_free`, and those that were woken,
one list for each `set`. -/
structure Queue where
  slot : Option Slot
  waiting : List Nat
  woken : List (List Nat)
  holders : List Nat
  called : List Nat
  served : List Nat

def start : Queue := ⟨none, [], [], [], [], []⟩

/-- A request may end before it is suspended: `on_pending` raises or answers the card. -/
inductive Event
  | call (r : Nat) (atOnce : Bool)
  | runWoken (atOnce : List Nat)
  | ends (r : Nat)
  | cancelTask (r : Nat)
  | cancelAll
  deriving DecidableEq

/-- `self._turn_slots.setdefault(turn_id, _TurnSlot())`. -/
def current (q : Queue) : Slot := q.slot.getD Slot.new

/-- Everybody who waits, the woken first. -/
def line (q : Queue) : List Nat := q.woken.flatten ++ q.waiting

/-- `if slot.idle: self._turn_slots.pop(turn_id, None)`. -/
def dropIdle (q : Queue) : Queue := if (current q).idle then { q with slot := none } else q

/-- `self._free.set()`. -/
def wakeAll (q : Queue) : Queue := { q with waiting := [], woken := q.woken ++ [q.waiting] }

/-- The `finally` clause around the body of a request. -/
def finish (q : Queue) : Queue := dropIdle (wakeAll { q with slot := some (current q).release })

/-- The request has the slot and is pending. -/
def hold (q : Queue) (r : Nat) (atOnce : Bool) : Queue :=
  let taken := { q with slot := some (current q).take, served := q.served ++ [r] }
  if atOnce then finish taken else { taken with holders := r :: q.holders }

/-- `self._waiters += 1`. -/
def startWaiting (q : Queue) (r : Nat) : Queue :=
  { q with
    slot := some { current q with waiters := (current q).waiters + 1 }
    called := q.called ++ [r] }

/-- `self._waiters -= 1`. -/
def stopWaiting (q : Queue) : Queue :=
  { q with slot := some { current q with waiters := (current q).waiters - 1 } }

/-- A request behind `await self._free.wait()`. -/
def resume (q : Queue) (r : Nat) (atOnce : Bool) : Queue :=
  if (current q).cancelled then dropIdle (stopWaiting q)
  else if (current q).held then { q with waiting := q.waiting ++ [r] }
  else hold (stopWaiting q) r atOnce

def step (q : Queue) : Event → Option Queue
  | .call r atOnce =>
    if r ∈ q.called then none
    else if (current q).cancelled ∨ (current q).free then
      some (resume (startWaiting q r) r atOnce)
    else some { startWaiting q r with waiting := q.waiting ++ [r] }
  | .runWoken atOnce =>
    match q.woken with
    | [] => none
    | batch :: rest =>
      some (batch.foldl (fun t r => resume t r (decide (r ∈ atOnce))) { q with woken := rest })
  | .ends r =>
    -- its card is answered, its time is over, its callback fails or its task is cancelled
    if r ∈ q.holders then some (finish { q with holders := q.holders.erase r }) else none
  | .cancelTask r =>
    if r ∈ line q then
      some { stopWaiting q with
        waiting := q.waiting.filter (· != r)
        woken := q.woken.map fun batch => batch.filter (· != r) }
    else none
  | .cancelAll =>
    match q.slot with
    | none => some q
    | some k => some (dropIdle (wakeAll { q with slot := some k.cancel }))

/-! ## First come, first served -/

/-- The requests became pending in the order of their calls, and nobody waits who came first. -/
structure FirstCome (q : Queue) : Prop where
  order : q.served <+ q.called
  behind : ∀ r ∈ q.served, ∀ r' ∈ line q, [r, r'] <+ q.called

/-- No request is called while one that was woken for the slot has not run yet. -/
def Prompt (q : Queue) : Event → Prop
  | .call r _ => r ∉ q.called → (current q).cancelled = false → q.woken.flatten = []
  | _ => True

variable {q : Queue}

theorem resume_cancelled (h : (current q).cancelled = true) (r : Nat)
    (atOnce : Bool) : resume q r atOnce = dropIdle (stopWaiting q) :=
  if_pos h

/-! ## What a slot counts -/

structure Counts (q : Queue) (n : Nat) : Prop where
  waiters : (current q).waiters = n
  held : q.holders.length = (current q).held.toNat
  free : (current q).free = ((current q).cancelled || !(current q).held)

theorem Counts.stop {n : Nat} (h : Counts q (n + 1)) : Counts (stopWaiting q) n := by
  refine ⟨?_, h.held, h.free⟩
  show (current q).waiters - 1 = n
  rw [h.waiters]
  rfl

theorem idle_iff {k : Slot} : k.idle = true ↔ k.held = false ∧ k.waiters = 0 := by
  simp [Slot.idle]

theorem Counts.drop {n : Nat} (h : Counts q n) : Counts (dropIdle q) n := by
  unfold dropIdle
  split
  case isTrue hidle =>
    obtain ⟨hheld, hwaiters⟩ := idle_iff.mp hidle
    refine ⟨h.waiters.symm.trans hwaiters |>.symm, ?_, rfl⟩
    show q.holders.length = 0
    rw [h.held, hheld]
    rfl
  case isFalse => exact h

@[simp] theorem dropIdle_waiting (q : Queue) : (dropIdle q).waiting = q.waiting := by
  unfold dropIdle
  split <;> rfl

@[simp] theorem dropIdle_woken (q : Queue) : (dropIdle q).woken = q.woken := by
  unfold dropIdle
  split <;> rfl

@[simp] theorem dropIdle_called (q : Queue) : (dropIdle q).called = q.called := by
  unfold dropIdle
  split <;> rfl

@[simp] theorem dropIdle_served (q : Queue) : (dropIdle q).served = q.served := by
  unfold dropIdle
  split <;> rfl

theorem dropIdle_held (h : (current (dropIdle q)).held = true) : dropIdle q = q := by
  unfold dropIdle at h ⊢
  split
  case isTrue hidle =>
    rw [if_pos hidle] at h
    cases h
  case isFalse => rfl

theorem Counts.resting_drop {n : Nat} (h : Counts q n)
    (hresting : (current q).free = true → q.waiting = [])
    (hfree : (current (dropIdle q)).free = true) : (dropIdle q).waiting = [] := by
  rw [dropIdle_waiting]
  unfold dropIdle at hfree
  split at hfree
  case isTrue hidle =>
    refine hresting ?_
    rw [h.free, (idle_iff.mp hidle).1]
    exact Bool.or_true _
  case isFalse => exact hresting hfree

/-! ## The invariant -/

/-- The line is in the order of the calls, and at most one `set` has woken somebody who has not run
yet. -/
structure Inv (q : Queue) : Prop where
  order : q.served ++ line q <+ q.called
  distinct : q.called.Nodup
  counts : Counts q (line q).length
  resting : (current q).free = true → q.waiting = []
  turned : (current q).held = true → (current q).cancelled = false → q.woken.flatten = []
  single : ∀ batch ∈ q.woken, batch = [] ∨ batch = q.woken.flatten

theorem Inv.firstCome (h : Inv q) : FirstCome q :=
  ⟨List.Sublist.trans (sublist_append_left _ _) h.order, fun _ hr _ hr' =>
    List.Sublist.trans
      ((singleton_sublist.mpr hr).append (singleton_sublist.mpr hr')) h.order⟩

theorem Inv.start : Inv start :=
  ⟨List.Sublist.refl _, nodup_nil, ⟨rfl, rfl, rfl⟩, fun _ => rfl, fun _ _ => rfl, nofun⟩

/-- While a list of woken requests runs: those that found the slot held wait in front of the
rest. -/
structure Running (batch : List Nat) (q : Queue) : Prop where
  order : q.served ++ (q.waiting ++ batch) <+ q.called
  distinct : q.called.Nodup
  counts : Counts q (q.waiting.length + batch.length)
  resting : (current q).free = true → q.waiting = []
  alone : q.woken.flatten = []

theorem Running.inv (h : Running [] q) : Inv q := by
  have hline : line q = q.waiting := by
    rw [line, h.alone, nil_append]
  refine ⟨?_, h.distinct, ?_, h.resting, fun _ _ => h.alone, fun batch hbatch => ?_⟩
  · have := h.order
    rwa [append_nil, ← hline] at this
  · rw [hline]
    exact h.counts
  · exact .inl (flatten_eq_nil_iff.mp h.alone batch hbatch)

theorem Inv.drop (h : Inv q) : Inv (dropIdle q) := by
  have hline : line (dropIdle q) = line q := by
    simp only [line, dropIdle_woken, dropIdle_waiting]
  refine ⟨?_, ?_, ?_, fun hfree => ?_, fun hheld => ?_, ?_⟩
  · rw [hline, dropIdle_served, dropIdle_called]
    exact h.order
  · rw [dropIdle_called]
    exact h.distinct
  · rw [hline]
    exact h.counts.drop
  · exact h.counts.resting_drop h.resting hfree
  · have hsame := dropIdle_held hheld
    rw [hsame] at hheld ⊢
    exact h.turned hheld
  · rw [dropIdle_woken]
    exact h.single

theorem single_append {woken : List (List Nat)} {waiting : List Nat}
    (h : ∀ batch ∈ woken, batch = [] ∨ batch = woken.flatten)
    (hone : woken.flatten = [] ∨ waiting = []) :
    ∀ batch ∈ woken ++ [waiting], batch = [] ∨ batch = (woken ++ [waiting]).flatten := by
  intro batch hbatch
  rw [flatten_append, flatten_singleton]
  rcases mem_append.mp hbatch with hold | hnew
  · rcases hone with hnone | rfl
    · exact .inl (flatten_eq_nil_iff.mp hnone batch hold)
    · rw [append_nil]
      exact h batch hold
  · obtain rfl := mem_singleton.mp hnew
    rcases hone with hnone | rfl
    · rw [hnone]
      exact .inr rfl
    · exact .inl rfl

theorem line_wakeAll (q : Queue) : line (wakeAll q) = line q := by
  simp [line, wakeAll]

theorem Inv.finish (horder : q.served ++ line q <+ q.called)
    (hdistinct : q.called.Nodup) (hwaiters : (current q).waiters = (line q).length)
    (hholders : q.holders = [])
    (hsingle : ∀ batch ∈ q.woken, batch = [] ∨ batch = q.woken.flatten)
    (hone : q.woken.flatten = [] ∨ q.waiting = []) : Inv (finish q) := by
  have hline : line (wakeAll { q with slot := some (current q).release }) = line q :=
    line_wakeAll _
  refine Inv.drop ⟨?_, hdistinct, ?_, fun _ => rfl, nofun, single_append hsingle hone⟩
  · rw [hline]
    exact horder
  · rw [hline]
    exact ⟨hwaiters, congrArg List.length hholders, (Bool.or_true _).symm⟩

/-! ## Woken requests run -/

variable {batch : List Nat}

theorem Running.drop {q : Queue} (h : Running batch q) :
    Running batch (dropIdle q) := by
  refine ⟨?_, ?_, ?_, h.counts.resting_drop h.resting, ?_⟩
  · rw [dropIdle_served, dropIdle_waiting, dropIdle_called]
    exact h.order
  · rw [dropIdle_called]
    exact h.distinct
  · rw [dropIdle_waiting]
    exact h.counts.drop
  · rw [dropIdle_woken]
    exact h.alone

theorem Running.step {q : Queue} {r : Nat} (h : Running (r :: batch) q)
    (atOnce : Bool) : Running batch (resume q r atOnce) := by
  have hcounts : Counts (stopWaiting q) (q.waiting.length + batch.length) := h.counts.stop
  unfold resume
  split
  case isTrue hcancelled =>
    have hwaiting : q.waiting = [] := by
      refine h.resting ?_
      rw [h.counts.free, hcancelled]
      rfl
    refine Running.drop ⟨?_, h.distinct, hcounts, fun _ => hwaiting, h.alone⟩
    refine List.Sublist.trans ?_ h.order
    exact ((sublist_cons_self r batch).append_left _).append_left _
  case isFalse hlive =>
    split
    case isTrue hheld =>
      -- it waits again, in front of those that have not run yet
      have hbusy : (current q).free = false := by
        rw [h.counts.free, Bool.eq_false_iff.mpr hlive, hheld]
        rfl
      refine ⟨?_, h.distinct, ?_, fun hfree => absurd (hbusy.symm.trans hfree) Bool.false_ne_true,
        h.alone⟩
      · rw [show q.waiting ++ [r] ++ batch = q.waiting ++ r :: batch by simp]
        exact h.order
      · have hlength : (q.waiting ++ [r]).length + batch.length =
            q.waiting.length + (r :: batch).length := by
          simp only [length_append, length_cons, length_nil]
          omega
        rw [hlength]
        exact ⟨h.counts.waiters, h.counts.held, h.counts.free⟩
    case isFalse hfree =>
      have hwaiting : q.waiting = [] := by
        refine h.resting ?_
        rw [h.counts.free, Bool.eq_false_iff.mpr hfree]
        exact Bool.or_true _
      have hnobody : q.holders = [] := by
        rw [← length_eq_zero_iff, h.counts.held, Bool.eq_false_iff.mpr hfree]
        rfl
      have horder : q.served ++ [r] ++ ([] ++ batch) <+ q.called := by
        have := h.order
        rw [hwaiting, nil_append] at this
        rwa [append_assoc, nil_append]
      rw [hwaiting] at hcounts
      unfold hold
      split
      case isTrue =>
        refine Running.drop ⟨horder, h.distinct, ?_, fun _ => rfl, ?_⟩
        · exact ⟨hcounts.waiters, congrArg List.length hnobody, (Bool.or_true _).symm⟩
        · show (q.woken ++ [q.waiting]).flatten = []
          rw [flatten_append, h.alone, hwaiting]
          rfl
      case isFalse =>
        refine ⟨?_, h.distinct, ?_, nofun, h.alone⟩
        · show q.served ++ [r] ++ (q.waiting ++ batch) <+ q.called
          rw [hwaiting]
          exact horder
        · show Counts _ (q.waiting.length + batch.length)
          rw [hwaiting]
          refine ⟨hcounts.waiters, congrArg (·.length + 1) hnobody, ?_⟩
          exact (Bool.or_false _).trans (Bool.eq_false_iff.mpr hlive) |>.symm

theorem Running.fold {q : Queue} (h : Running batch q) (atOnce : List Nat) :
    Inv (batch.foldl (fun t r => resume t r (decide (r ∈ atOnce))) q) := by
  induction batch generalizing q with
  | nil => exact h.inv
  | cons r batch ih => exact ih (h.step _)

/-! ## One step -/

theorem Inv.resting_woken (h : Inv q) (hwoken : q.woken.flatten ≠ []) :
    (current q).free = true ∧ q.waiting = [] := by
  have hfree : (current q).free = true := by
    rw [h.counts.free, Bool.or_eq_true, Bool.not_eq_true']
    by_cases hcancelled : (current q).cancelled = true
    · exact .inl hcancelled
    · refine .inr (Bool.eq_false_iff.mpr fun hheld => hwoken ?_)
      exact h.turned hheld (Bool.eq_false_iff.mpr hcancelled)
  exact ⟨hfree, h.resting hfree⟩

theorem Inv.running {rest : List (List Nat)} (h : Inv q)
    (hwoken : q.woken = batch :: rest) (hne : batch ≠ []) :
    Running batch { q with woken := rest } := by
  have hflat : q.woken.flatten = batch := by
    rcases h.single batch (by rw [hwoken]; exact mem_cons_self) with hnil | hflat
    · exact absurd hnil hne
    · exact hflat.symm
  have hrest : rest.flatten = [] := by
    rw [hwoken, flatten_cons] at hflat
    exact append_right_eq_self.mp hflat
  have hwaiting : q.waiting = [] := (h.resting_woken (by rwa [hflat])).2
  have hline : line q = q.waiting ++ batch := by
    rw [line, hflat, hwaiting, append_nil, nil_append]
  refine ⟨?_, h.distinct, ?_, h.resting, hrest⟩
  · rw [← hline]
    exact h.order
  · show Counts _ (q.waiting.length + batch.length)
    rw [← length_append, ← hline]
    exact ⟨h.counts.waiters, h.counts.held, h.counts.free⟩

theorem Inv.runWoken {q t : Queue} {atOnce : List Nat} (h : Inv q)
    (hstep : step q (.runWoken atOnce) = some t) : Inv t := by
  simp only [step] at hstep
  split at hstep
  case h_1 => cases hstep
  case h_2 batch rest hwoken =>
    cases hstep
    by_cases hne : batch = []
    · subst hne
      have hflat : q.woken.flatten = rest.flatten := by
        rw [hwoken, flatten_cons, nil_append]
      have hline : line q = rest.flatten ++ q.waiting := congrArg (· ++ q.waiting) hflat
      refine ⟨?_, h.distinct, ?_, h.resting, fun hheld hlive => ?_, fun batch hbatch => ?_⟩
      · have := h.order
        rwa [hline] at this
      · have := h.counts
        rw [hline] at this
        exact ⟨this.waiters, this.held, this.free⟩
      · exact hflat.symm.trans (h.turned hheld hlive)
      · have := h.single batch (by rw [hwoken]; exact mem_cons_of_mem _ hbatch)
        rwa [hflat] at this
    · exact (h.running hwoken hne).fold atOnce

theorem Inv.call {q t : Queue} {r : Nat} {atOnce : Bool} (h : Inv q)
    (hprompt : Prompt q (.call r atOnce)) (hstep : step q (.call r atOnce) = some t) : Inv t := by
  simp only [step, Option.ite_none_left_eq_some] at hstep
  obtain ⟨hnew, hstep⟩ := hstep
  have hdistinct : (q.called ++ [r]).Nodup :=
    h.distinct.append (nodup_singleton r) (disjoint_singleton.mpr hnew)
  have horder : q.served ++ line q ++ [r] <+ q.called ++ [r] := h.order.append_right [r]
  split at hstep
  case isTrue hthrough =>
    cases hstep
    by_cases hcancelled : (current q).cancelled = true
    · -- refused
      rw [resume_cancelled (q := startWaiting q r) hcancelled]
      refine Inv.drop ⟨?_, hdistinct, ?_, h.resting, h.turned, h.single⟩
      · exact List.Sublist.trans h.order (sublist_append_left _ _)
      · exact ⟨h.counts.waiters, h.counts.held, h.counts.free⟩
    · have hlive := Bool.eq_false_iff.mpr hcancelled
      have hflat := hprompt hnew hlive
      have hwaiting := h.resting (hthrough.resolve_left hcancelled)
      have hline : line q = q.waiting := by
        rw [line, hflat, nil_append]
      refine (Running.step (q := startWaiting q r) ⟨?_, hdistinct, ?_, h.resting, hflat⟩ atOnce).inv
      · rw [hline, append_assoc] at horder
        exact horder
      · have := h.counts.waiters
        rw [hline] at this
        exact ⟨congrArg (· + 1) this, h.counts.held, h.counts.free⟩
  case isFalse hbusy =>
    cases hstep
    have hbusyFree : (current q).free = false := Bool.eq_false_iff.mpr fun hf => hbusy (.inr hf)
    refine ⟨?_, hdistinct, ?_, fun hfree => absurd (hbusyFree.symm.trans hfree) Bool.false_ne_true,
      h.turned, h.single⟩
    · show q.served ++ (q.woken.flatten ++ (q.waiting ++ [r])) <+ q.called ++ [r]
      simp only [line, append_assoc] at horder
      exact horder
    · have := h.counts.waiters
      refine ⟨?_, h.counts.held, h.counts.free⟩
      show (current q).waiters + 1 = (q.woken.flatten ++ (q.waiting ++ [r])).length
      rw [this, line]
      simp only [length_append, length_singleton]
      omega

theorem Inv.ends {q t : Queue} {r : Nat} (h : Inv q) (hstep : step q (.ends r) = some t) :
    Inv t := by
  simp only [step, Option.ite_none_right_eq_some] at hstep
  obtain ⟨hholder, hstep⟩ := hstep
  cases hstep
  have hlength := h.counts.held
  have hpos := length_pos_of_mem hholder
  have hheld : (current q).held = true := by
    by_contra hnot
    rw [Bool.eq_false_iff.mpr hnot] at hlength
    exact absurd hlength (Nat.ne_of_gt hpos)
  refine Inv.finish h.order h.distinct h.counts.waiters ?_ h.single ?_
  · rw [hheld] at hlength
    rw [← length_eq_zero_iff, length_erase_of_mem hholder, hlength]
    rfl
  · by_cases hcancelled : (current q).cancelled = true
    · right
      refine h.resting ?_
      rw [h.counts.free, hcancelled]
      rfl
    · exact .inl (h.turned hheld (Bool.eq_false_iff.mpr hcancelled))

theorem Inv.cancelTask {q t : Queue} {r : Nat} (h : Inv q)
    (hstep : step q (.cancelTask r) = some t) : Inv t := by
  simp only [step, Option.ite_none_right_eq_some] at hstep
  obtain ⟨hwaits, hstep⟩ := hstep
  cases hstep
  have hflat : (q.woken.map fun batch => batch.filter (· != r)).flatten =
      q.woken.flatten.filter (· != r) := (filter_flatten).symm
  have hline : (q.woken.map fun batch => batch.filter (· != r)).flatten ++
      q.waiting.filter (· != r) = (line q).filter (· != r) := by
    rw [hflat, line, filter_append]
  have hnodup : (line q).Nodup :=
    (List.Sublist.trans (sublist_append_right q.served _) h.order).nodup h.distinct
  refine ⟨?_, h.distinct, ?_, fun hfree => ?_, fun hheld hlive => ?_, fun batch hbatch => ?_⟩
  · rw [line, hline]
    exact List.Sublist.trans (filter_sublist.append_left _) h.order
  · rw [line, hline]
    have hlength : ((line q).filter (· != r)).length + 1 = (line q).length := by
      rw [← List.Nodup.erase_eq_filter hnodup, length_erase_of_mem hwaits]
      exact Nat.succ_pred_eq_of_pos (length_pos_of_mem hwaits)
    have hcounts := h.counts
    rw [← hlength] at hcounts
    have hstop := hcounts.stop
    exact ⟨hstop.waiters, hstop.held, hstop.free⟩
  · show q.waiting.filter (· != r) = []
    rw [h.resting hfree]
    rfl
  · show (q.woken.map fun batch => batch.filter (· != r)).flatten = []
    rw [hflat, h.turned hheld hlive]
    rfl
  · obtain ⟨batch, hmem, rfl⟩ := mem_map.mp hbatch
    show _ ∨ _ = (q.woken.map fun batch => batch.filter (· != r)).flatten
    rw [hflat]
    rcases h.single batch hmem with rfl | heq
    · exact .inl rfl
    · rw [← heq]
      exact .inr rfl

theorem Inv.cancelAll {q t : Queue} (h : Inv q) (hstep : step q .cancelAll = some t) : Inv t := by
  simp only [step] at hstep
  split at hstep
  case h_1 =>
    cases hstep
    exact h
  case h_2 k hk =>
    cases hstep
    have hcurrent : current q = k := by
      rw [current, hk]
      rfl
    have hcounts := h.counts
    have hline : line (wakeAll { q with slot := some k.cancel }) = line q := line_wakeAll _
    have hone : q.woken.flatten = [] ∨ q.waiting = [] := by
      by_cases hflat : q.woken.flatten = []
      · exact .inl hflat
      · exact .inr (h.resting_woken hflat).2
    refine Inv.drop ⟨?_, h.distinct, ?_, fun _ => rfl, fun _ hlive => ?_,
      single_append h.single hone⟩
    · rw [hline]
      exact h.order
    · rw [hline]
      subst hcurrent
      exact ⟨hcounts.waiters, hcounts.held, rfl⟩
    · cases hlive

theorem Inv.step {q t : Queue} {e : Event} (h : Inv q) (hprompt : Prompt q e)
    (hstep : step q e = some t) : Inv t := by
  cases e with
  | call r atOnce => exact h.call hprompt hstep
  | runWoken atOnce => exact h.runWoken hstep
  | ends r => exact h.ends hstep
  | cancelTask r => exact h.cancelTask hstep
  | cancelAll => exact h.cancelAll hstep

/-! ## Who comes first -/

theorem hold_serves (q : Queue) (r : Nat) (atOnce : Bool) :
    (hold q r atOnce).served = q.served ++ [r] ∧ (hold q r atOnce).called = q.called ∧
      line (hold q r atOnce) = line q := by
  unfold hold
  split
  · refine ⟨dropIdle_served _, dropIdle_called _, ?_⟩
    rw [finish, line, dropIdle_woken, dropIdle_waiting]
    exact line_wakeAll _
  · exact ⟨rfl, rfl, rfl⟩

theorem not_before_last {l : List Nat} {r r' : Nat} (hr : r ∉ l) : ¬ [r, r'] <+ l ++ [r] := by
  intro h
  obtain ⟨l₁, l₂, hsplit, hfirst, hsecond⟩ := sublist_append_iff.mp h
  cases l₁ with
  | nil =>
    rw [nil_append] at hsplit
    rw [← hsplit] at hsecond
    exact Nat.lt_irrefl 1 hsecond.length_le
  | cons x l₁ =>
    obtain ⟨rfl, -⟩ := List.cons.inj hsplit
    exact hr (hfirst.subset mem_cons_self)

theorem prompt_of_firstCome {e : Event} (h : Inv q)
    (hfirst : ∀ t, step q e = some t → FirstCome t) : Prompt q e := by
  cases e with
  | call r atOnce =>
    intro hnew hlive
    by_contra hwoken
    obtain ⟨hfree, hwaiting⟩ := h.resting_woken hwoken
    have hheld : (current q).held ≠ true := fun hheld => hwoken (h.turned hheld hlive)
    have hresume : resume (startWaiting q r) r atOnce =
        hold (stopWaiting (startWaiting q r)) r atOnce := by
      unfold resume
      rw [if_neg (show ¬ (current (startWaiting q r)).cancelled = true from
        Bool.eq_false_iff.mp hlive), if_neg (show ¬ (current (startWaiting q r)).held = true
        from hheld)]
    have hstep : step q (.call r atOnce) =
        some (hold (stopWaiting (startWaiting q r)) r atOnce) := by
      simp only [step, if_neg hnew, hfree, or_true, if_true, hresume]
    obtain ⟨hserved, hcalled, hline⟩ := hold_serves (stopWaiting (startWaiting q r)) r atOnce
    have hbehind := (hfirst _ hstep).behind r (by rw [hserved]; simp)
    rw [hcalled, hline] at hbehind
    obtain ⟨r', hr'⟩ := exists_mem_of_ne_nil _ hwoken
    exact not_before_last hnew (hbehind r' (mem_append_left _ hr'))
  | _ => trivial

/-- **First come, first served.** In every state a run passes through the requests became pending in
the order of their calls, and none waits that was called before one of them: exactly when no request
is called while one that was woken for the slot has not run yet. -/
theorem first_come_iff (es : List Event) :
    (∀ before, before <+: es → ∀ t, run step start before = some t → FirstCome t) ↔
      GoodRun step Prompt start es := by
  rw [forall_prefix_iff]
  have hcongr := goodRun_congr step Prompt (fun q e => ∀ t, step q e = some t → FirstCome t) Inv
    (fun q e hq => ⟨fun hprompt t ht => (hq.step hprompt ht).firstCome, prompt_of_firstCome hq⟩)
    (fun q e t hq hprompt ht => hq.step hprompt ht) start es Inv.start
  constructor
  · intro h
    exact hcongr.mpr h.2
  · intro h
    exact ⟨Inv.start.firstCome, hcongr.mp h⟩

/-- The second request waits for the first; the third is called when the first has ended and before
the second runs. -/
def overtaken : List Event :=
  [.call 1 false, .call 2 false, .ends 1, .call 3 false, .runWoken [], .ends 3, .runWoken []]

theorem overtaken_served : ((run step start overtaken).map fun t => (t.called, t.served)) =
    some ([1, 2, 3], [1, 3, 2]) := by
  decide

theorem overtaken_out_of_order :
    ¬ ∀ before, before <+: overtaken → ∀ t, run step start before = some t → FirstCome t := by
  intro h
  obtain ⟨t, hrun, ht⟩ := Option.map_eq_some_iff.mp overtaken_served
  have horder := (h overtaken (List.prefix_refl _) t hrun).order
  rw [(Prod.mk.inj ht).1, (Prod.mk.inj ht).2] at horder
  exact absurd horder (by decide)

end MiqroForge.Kun.InputOrder
