import MiqroForge.Library.Steps

/-!
The status of a turn record. Three writers set it, each without a look at what is there:
the end of `run_turn`, `interrupt_turn`, and the pause for a user's answer.
-/

namespace MiqroForge.Kun.TurnStatus

open Steps

inductive Status
  | running
  | waitingForUser
  | completed
  | failed
  | aborted
  deriving DecidableEq

def Status.terminal : Status → Bool
  | .completed | .failed | .aborted => true
  | .running | .waitingForUser => false

/-- The statuses `finish_turn` takes; each has its event kind. -/
inductive Outcome
  | completed
  | failed
  | aborted
  deriving DecidableEq

def Outcome.status : Outcome → Status
  | .completed => .completed
  | .failed => .failed
  | .aborted => .aborted

inductive Phase
  | started
  | looping
  | returned
  deriving DecidableEq

/-- A turn: its record's status, the terminal events recorded for it, its abort token and
whether that is set, where `run_turn` stands, and the cards that are queued and announced. -/
structure Turn where
  status : Status
  events : List Outcome
  token : Option Bool
  phase : Phase
  queued : List Nat
  pending : List Nat

/-- After `start_turn`. -/
def start : Turn where
  status := .running
  events := []
  token := some false
  phase := .started
  queued := []
  pending := []

inductive Event
  | runTurn
  | ask (card : Nat)
  | announce (card : Nat)
  | resume (card : Nat)
  | loopEnds (outcome : Outcome)
  | interrupt
  deriving DecidableEq

/-- `finish_turn`, with which `run_turn` returns. -/
def finish (s : Turn) (outcome : Outcome) : Turn :=
  { s with
    status := outcome.status
    events := s.events ++ [outcome]
    token := none
    phase := .returned }

/-- `interrupt_turn`. -/
def interrupt (s : Turn) : Turn :=
  { s with
    status := .aborted
    events := s.events ++ [.aborted]
    token := s.token.map fun _ => true }

def step (s : Turn) : Event → Option Turn
  | .runTurn =>
    if s.phase = .started then
      match s.token with
      | none => some (finish s .failed)
      | some true => some (finish s .aborted)
      | some false => some { s with phase := .looping }
    else none
  | .ask card =>
    if s.phase = .looping then some { s with queued := card :: s.queued } else none
  | .announce card =>
    if card ∈ s.queued then
      some { s with
        status := .waitingForUser
        queued := s.queued.erase card
        pending := card :: s.pending }
    else none
  | .resume card =>
    -- the finally clause runs for a request that was never announced, too
    if card ∈ s.queued ∨ card ∈ s.pending then
      some { s with
        status := .running
        queued := s.queued.erase card
        pending := s.pending.erase card }
    else none
  | .loopEnds outcome =>
    -- the loop awaits its tools, and is aborted only by its token
    if s.phase = .looping ∧ s.queued = [] ∧ s.pending = [] ∧
        (outcome = .aborted → s.token = some true) then
      some (finish s outcome)
    else none
  | .interrupt => some (interrupt s)

/-- The turn is interrupted at most once and not after it finished, and an interrupted turn goes
no further. -/
def Undisturbed (s : Turn) : Event → Prop
  | .interrupt => s.phase ≠ .returned ∧ s.token ≠ some true
  | .ask _ => True
  | .runTurn | .announce _ | .resume _ | .loopEnds _ => s.token ≠ some true

instance (s : Turn) (e : Event) : Decidable (Undisturbed s e) := by
  cases e <;> unfold Undisturbed <;> infer_instance

/-- In every state the run passes through: a terminal status stays, there is at most one terminal
event, and exactly one once the status is terminal or `run_turn` returned. -/
structure Settles (es : List Event) : Prop where
  final : ∀ before mid after s t, es = before ++ mid ++ after → run step start before = some s →
    run step s mid = some t → s.status.terminal = true → t.status = s.status
  once : ∀ before s, before <+: es → run step start before = some s → s.events.length ≤ 1
  recorded : ∀ before s, before <+: es → run step start before = some s →
    s.status.terminal = true ∨ s.phase = .returned → s.events.length = 1

/-! ## Undisturbed turns -/

/-- The turn is going on, or it has ended once and for all. -/
inductive Steady (s : Turn) : Prop
  | going (hevents : s.events = []) (hstatus : s.status.terminal = false)
      (htoken : s.token = some false) (hphase : s.phase ≠ .returned)
  | finished (outcome : Outcome) (hevents : s.events = [outcome])
      (hstatus : s.status = outcome.status) (htoken : s.token = none) (hphase : s.phase = .returned)
      (hqueued : s.queued = []) (hpending : s.pending = [])
  | interrupted (hevents : s.events = [.aborted]) (hstatus : s.status = .aborted)
      (htoken : s.token = some true) (hphase : s.phase ≠ .returned)

/-- Cards are asked for while the loop runs. -/
def Idle (s : Turn) : Prop := s.phase = .started → s.queued = [] ∧ s.pending = []

theorem steady_start : Steady start := .going rfl rfl rfl (by decide)

theorem steady_finish {s : Turn} (outcome : Outcome) (hevents : s.events = [])
    (hqueued : s.queued = []) (hpending : s.pending = []) : Steady (finish s outcome) :=
  .finished outcome (by simp [finish, hevents]) rfl rfl rfl hqueued hpending

variable {s t : Turn}

theorem idle_step (h : Idle s) {e : Event} (hstep : step s e = some t) : Idle t := by
  cases e with
  | runTurn =>
    simp only [step, Option.ite_none_right_eq_some] at hstep
    obtain ⟨-, hstep⟩ := hstep
    split at hstep <;> obtain rfl := Option.some.inj hstep <;> exact fun hphase => nomatch hphase
  | ask card =>
    obtain ⟨hlooping, rfl⟩ := Steps.of_guard hstep
    intro hphase
    rw [show s.phase = .started from hphase] at hlooping
    cases hlooping
  | announce card =>
    obtain ⟨hmem, rfl⟩ := Steps.of_guard hstep
    intro hphase
    simp [(h hphase).1] at hmem
  | resume card =>
    obtain ⟨hmem, rfl⟩ := Steps.of_guard hstep
    intro hphase
    simp [(h hphase).1, (h hphase).2] at hmem
  | loopEnds outcome =>
    obtain ⟨-, rfl⟩ := Steps.of_guard hstep
    exact fun hphase => nomatch hphase
  | interrupt =>
    cases hstep
    exact h

/-- **One step** of an undisturbed turn. -/
theorem steady_step (h : Steady s) (hidle : Idle s) {e : Event}
    (hgood : Undisturbed s e) (hstep : step s e = some t) : Steady t := by
  cases e with
  | runTurn =>
    simp only [step, Option.ite_none_right_eq_some] at hstep
    obtain ⟨hstarted, hstep⟩ := hstep
    obtain ⟨hqueued, hpending⟩ := hidle hstarted
    cases h with
    | going hevents hstatus htoken hphase =>
      rw [htoken] at hstep
      cases hstep
      exact .going hevents hstatus rfl nofun
    | finished outcome hevents hstatus htoken hphase =>
      rw [hphase] at hstarted
      cases hstarted
    | interrupted hevents hstatus htoken => exact absurd htoken hgood
  | ask card =>
    obtain ⟨hlooping, rfl⟩ := Steps.of_guard hstep
    cases h with
    | going hevents hstatus htoken hphase => exact .going hevents hstatus htoken hphase
    | finished outcome hevents hstatus htoken hphase =>
      rw [hphase] at hlooping
      cases hlooping
    | interrupted hevents hstatus htoken hphase =>
      exact .interrupted hevents hstatus htoken hphase
  | announce card =>
    obtain ⟨hmem, rfl⟩ := Steps.of_guard hstep
    cases h with
    | going hevents hstatus htoken hphase => exact .going hevents rfl htoken hphase
    | finished outcome hevents hstatus htoken hphase hqueued => simp [hqueued] at hmem
    | interrupted hevents hstatus htoken => exact absurd htoken hgood
  | resume card =>
    obtain ⟨hmem, rfl⟩ := Steps.of_guard hstep
    cases h with
    | going hevents hstatus htoken hphase => exact .going hevents rfl htoken hphase
    | finished outcome hevents hstatus htoken hphase hqueued hpending =>
      simp [hqueued, hpending] at hmem
    | interrupted hevents hstatus htoken => exact absurd htoken hgood
  | loopEnds outcome =>
    obtain ⟨⟨hlooping, hqueued, hpending, -⟩, rfl⟩ := Steps.of_guard hstep
    cases h with
    | going hevents hstatus htoken hphase => exact steady_finish outcome hevents hqueued hpending
    | finished outcome hevents hstatus htoken hphase =>
      rw [hphase] at hlooping
      cases hlooping
    | interrupted hevents hstatus htoken => exact absurd htoken hgood
  | interrupt =>
    cases hstep
    cases h with
    | going hevents hstatus htoken hphase =>
      exact .interrupted (by simp [interrupt, hevents]) rfl (by simp [interrupt, htoken]) hphase
    | finished outcome hevents hstatus htoken hphase => exact absurd hphase hgood.1
    | interrupted hevents hstatus htoken => exact absurd htoken hgood.2

variable {es : List Event}

theorem steady_run (h : Steady s ∧ Idle s)
    (hrun : run step s es = some t) (hgood : GoodRun step Undisturbed s es) : Steady t ∧ Idle t :=
  goodRun_invariant step Undisturbed (fun s => Steady s ∧ Idle s)
    (fun _ _ _ h hg hs => ⟨steady_step h.1 h.2 hg hs, idle_step h.2 hs⟩) s t es h hrun hgood

theorem idle_start : Idle start := fun _ => ⟨rfl, rfl⟩

theorem status_step (h : Steady s) (hended : s.status.terminal = true) {e : Event}
    (hgood : Undisturbed s e) (hstep : step s e = some t) : t.status = s.status := by
  cases h with
  | going hevents hstatus =>
    rw [hstatus] at hended
    cases hended
  | finished outcome hevents hstatus htoken hphase hqueued hpending =>
    cases e with
    | runTurn | ask _ | loopEnds _ => simp [step, hphase] at hstep
    | announce _ | resume _ => simp [step, hqueued, hpending] at hstep
    | interrupt => exact absurd hphase hgood.1
  | interrupted hevents hstatus htoken hphase =>
    cases e with
    | ask card =>
      obtain ⟨-, rfl⟩ := Steps.of_guard hstep
      rfl
    | runTurn | announce _ | resume _ | loopEnds _ => exact absurd htoken hgood
    | interrupt => exact absurd htoken hgood.2

theorem status_run (h : Steady s ∧ Idle s)
    (hended : s.status.terminal = true) (hrun : run step s es = some t)
    (hgood : GoodRun step Undisturbed s es) : t.status = s.status := by
  induction es generalizing s with
  | nil =>
    cases hrun
    rfl
  | cons e es ih =>
    obtain ⟨u, hu, hrest⟩ := run_cons_some step hrun
    have hstatus := status_step h.1 hended hgood.1 hu
    rw [← hstatus] at hended
    rw [ih ⟨steady_step h.1 h.2 hgood.1 hu, idle_step h.2 hu⟩ hended hrest (hgood.2 u hu), hstatus]

theorem Steady.length_le {s : Turn} (h : Steady s) : s.events.length ≤ 1 := by
  cases h with
  | going hevents => simp [hevents]
  | finished _ hevents => simp [hevents]
  | interrupted hevents => simp [hevents]

theorem Steady.length_eq {s : Turn} (h : Steady s)
    (hended : s.status.terminal = true ∨ s.phase = .returned) : s.events.length = 1 := by
  cases h with
  | going hevents hstatus _ hphase =>
    rcases hended with hended | hended
    · rw [hstatus] at hended
      cases hended
    · exact absurd hended hphase
  | finished _ hevents => simp [hevents]
  | interrupted hevents => simp [hevents]

theorem settles_of_undisturbed (hgood : GoodRun step Undisturbed start es) :
    Settles es := by
  have hstarts : ∀ before s, before <+: es → run step start before = some s →
      Steady s ∧ Idle s := by
    rintro before s ⟨after, rfl⟩ hrun
    exact steady_run ⟨steady_start, idle_start⟩ hrun (goodRun_before step _ _ before after hgood)
  refine ⟨fun before mid after s t heq hs ht hended => ?_, fun before s hb hs => ?_,
    fun before s hb hs hended => ?_⟩
  · subst heq
    have hmid := goodRun_before step _ _ (before ++ mid) after hgood
    rw [goodRun_append step Undisturbed start s before mid hs] at hmid
    exact status_run (hstarts before s ⟨mid ++ after, by simp⟩ hs) hended ht hmid.2
  · exact (hstarts before s hb hs).1.length_le
  · exact (hstarts before s hb hs).1.length_eq hended

/-! ## Disturbed turns -/

theorem disturbed_step (h : Steady s) {e : Event} (hbad : ¬ Undisturbed s e)
    (hstep : step s e = some t) :
    t.events.length = 2 ∨ s.status.terminal = true ∧ t.status ≠ s.status := by
  have hset : s.token = some true → s.events = [.aborted] ∧ s.status = .aborted := by
    intro hset
    cases h with
    | going _ _ htoken | finished _ _ _ htoken =>
      rw [htoken] at hset
      cases hset
    | interrupted hevents hstatus => exact ⟨hevents, hstatus⟩
  cases e with
  | runTurn =>
    have htoken : s.token = some true := not_not.mp hbad
    simp only [step, htoken, Option.ite_none_right_eq_some, Option.some.injEq] at hstep
    obtain ⟨-, rfl⟩ := hstep
    simp [finish, (hset htoken).1]
  | ask card => exact absurd trivial hbad
  | announce card =>
    obtain ⟨-, hstatus⟩ := hset (not_not.mp hbad)
    obtain ⟨-, rfl⟩ := Steps.of_guard hstep
    simp [hstatus, Status.terminal]
  | resume card =>
    obtain ⟨-, hstatus⟩ := hset (not_not.mp hbad)
    obtain ⟨-, rfl⟩ := Steps.of_guard hstep
    simp [hstatus, Status.terminal]
  | loopEnds outcome =>
    obtain ⟨hevents, -⟩ := hset (not_not.mp hbad)
    obtain ⟨-, rfl⟩ := Steps.of_guard hstep
    simp [finish, hevents]
  | interrupt =>
    cases hstep
    have hone : s.events.length = 1 := by
      refine h.length_eq ?_
      by_cases hphase : s.phase = .returned
      · exact .inr hphase
      · refine .inl ?_
        have htoken : s.token = some true := by
          by_contra htoken
          exact hbad ⟨hphase, htoken⟩
        rw [(hset htoken).2]
        rfl
    simp [interrupt, hone]

theorem undisturbed_of_settles {t : Turn} (hrun : run step start es = some t)
    (h : Settles es) : GoodRun step Undisturbed start es := by
  by_contra hnot
  obtain ⟨before, e, after, u, v, rfl, hbefore, hgood, hstep, hbad⟩ :=
    exists_first_bad step Undisturbed start t es hrun hnot
  have hu := steady_run ⟨steady_start, idle_start⟩ hbefore hgood
  rcases disturbed_step hu.1 hbad hstep with hlength | ⟨hended, hchanged⟩
  · have hv : run step start (before ++ [e]) = some v := by
      rw [run_append, hbefore]
      exact run_cons_of_step step [] hstep
    have := h.once (before ++ [e]) v ⟨after, by simp⟩ hv
    omega
  · refine hchanged (h.final before [e] after u v (by simp) hbefore ?_ hended)
    exact run_cons_of_step step [] hstep

/-! ## Turns that returned -/

theorem token_step {e : Event} (h : s.token ≠ some true) (he : e ≠ .interrupt)
    (hstep : step s e = some t) : t.token ≠ some true := by
  cases e with
  | runTurn =>
    simp only [step, Option.ite_none_right_eq_some] at hstep
    obtain ⟨-, hstep⟩ := hstep
    split at hstep <;> obtain rfl := Option.some.inj hstep <;> simp [finish, *]
  | ask _ | announce _ | resume _ =>
    obtain ⟨-, rfl⟩ := Steps.of_guard hstep
    exact h
  | loopEnds outcome =>
    obtain ⟨-, rfl⟩ := Steps.of_guard hstep
    exact nofun
  | interrupt => exact absurd rfl he

theorem undisturbed_of_no_interrupt {s : Turn} {es : List Event} (h : s.token ≠ some true)
    (hes : .interrupt ∉ es) : GoodRun step Undisturbed s es := by
  induction es generalizing s with
  | nil => trivial
  | cons e es ih =>
    have he : e ≠ .interrupt := fun he => hes (he ▸ List.mem_cons_self)
    refine ⟨?_, fun t ht => ih (token_step h he ht) (fun hmem => hes (List.mem_cons_of_mem e hmem))⟩
    cases e with
    | interrupt => exact absurd rfl he
    | ask _ => trivial
    | runTurn | announce _ | resume _ | loopEnds _ => exact h

theorem stopped_step {e : Event} (h : s.token = some true ∧ s.phase ≠ .returned)
    (hgood : Undisturbed s e) (hstep : step s e = some t) :
    t.token = some true ∧ t.phase ≠ .returned := by
  cases e with
  | ask card =>
    obtain ⟨-, rfl⟩ := Steps.of_guard hstep
    exact h
  | runTurn | announce _ | resume _ | loopEnds _ => exact absurd h.1 hgood
  | interrupt => exact absurd h.1 hgood.2

theorem no_interrupt_of_undisturbed {t : Turn}
    (hrun : run step start es = some t) (hreturned : t.phase = .returned)
    (hgood : GoodRun step Undisturbed start es) : .interrupt ∉ es := by
  intro hmem
  obtain ⟨before, after, rfl⟩ := List.append_of_mem hmem
  rw [run_append] at hrun
  obtain ⟨u, hu, hrest⟩ := Option.bind_eq_some_iff.mp hrun
  rw [goodRun_append step Undisturbed start u before _ hu] at hgood
  obtain ⟨hbefore, hnow, hafter⟩ := hgood
  obtain ⟨v, hv, hrest⟩ := run_cons_some step hrest
  have hsteady := steady_step (steady_run ⟨steady_start, idle_start⟩ hu hbefore).1
    (steady_run ⟨steady_start, idle_start⟩ hu hbefore).2 hnow hv
  have hstopped : v.token = some true ∧ v.phase ≠ .returned := by
    cases hv
    cases hsteady with
    | going hevents => simp [interrupt] at hevents
    | finished _ _ _ _ hphase => exact absurd hphase hnow.1
    | interrupted _ _ htoken hphase => exact ⟨htoken, hphase⟩
  exact (goodRun_invariant step Undisturbed _ (fun _ _ _ h hg hs => stopped_step h hg hs) v t after
    hstopped hrest (hafter v hv)).2 hreturned

/-- **The status of a turn is final**, and one terminal event is recorded for it, iff the turn is
not interrupted after it finished or twice, and an interrupted turn goes no further; for a turn
that returned, iff it was never interrupted. -/
theorem turn_settles_iff (es : List Event) (t : Turn) (hrun : run step start es = some t) :
    (Settles es ↔ GoodRun step Undisturbed start es) ∧
      (t.phase = .returned → (Settles es ↔ .interrupt ∉ es)) := by
  refine ⟨⟨undisturbed_of_settles hrun, settles_of_undisturbed⟩, fun hreturned => ⟨fun h => ?_,
    fun hes => settles_of_undisturbed (undisturbed_of_no_interrupt (by decide) hes)⟩⟩
  exact no_interrupt_of_undisturbed hrun hreturned (undisturbed_of_settles hrun h)

/-- A turn with a card. -/
theorem turn_settles_iff_answered :
    (Settles [.runTurn, .ask 0, .announce 0, .resume 0, .loopEnds .completed] ↔
      GoodRun step Undisturbed start
        [.runTurn, .ask 0, .announce 0, .resume 0, .loopEnds .completed]) ∧
      (Phase.returned = .returned →
        (Settles [.runTurn, .ask 0, .announce 0, .resume 0, .loopEnds .completed] ↔
          .interrupt ∉ [Event.runTurn, .ask 0, .announce 0, .resume 0, .loopEnds .completed])) :=
  turn_settles_iff [.runTurn, .ask 0, .announce 0, .resume 0, .loopEnds .completed] _
    (Option.some_get (by decide)).symm

/-- An interrupt while a card is pending: the pause sets the turn running again, and the end of
`run_turn` records a second terminal event. -/
theorem interrupted_pause_unsettled :
    (run step start [.runTurn, .ask 0, .announce 0, .interrupt, .resume 0, .loopEnds .aborted]).map
      (fun t => (t.events, t.phase)) = some ([.aborted, .aborted], .returned) ∧
    (run step start [.runTurn, .ask 0, .announce 0, .interrupt]).map Turn.status =
      some .aborted ∧
    (run step start [.runTurn, .ask 0, .announce 0, .interrupt, .resume 0]).map Turn.status =
      some .running ∧
    ¬ Settles [.runTurn, .ask 0, .announce 0, .interrupt, .resume 0, .loopEnds .aborted] := by
  refine ⟨rfl, rfl, rfl, fun h => ?_⟩
  have := h.once _ _ (List.prefix_refl _) rfl
  revert this
  decide

end MiqroForge.Kun.TurnStatus
