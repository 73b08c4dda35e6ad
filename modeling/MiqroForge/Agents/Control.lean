import MiqroForge.Library.Steps

/-!
Sub-agents on the job path: `AgentControl.spawn` with `AgentJobRuntime`, the end of
`AgentJobRuntime._run`, `notify_completed` and `kill`. Between two suspension points
the event loop runs one of them alone, so each such stretch is one step: a spawn up
to the emission of its event, the rest of that spawn, the end of a job together with
its notification, and a kill.
-/

namespace MiqroForge.Agents

inductive AgentStatus where
  | idle
  | thinking
  | executing
  | waitingApproval
  | completed
  | error
  | aborted
  deriving DecidableEq, Repr

def validTransitions : AgentStatus → List AgentStatus
  | .idle => [.thinking, .aborted]
  | .thinking => [.executing, .waitingApproval, .completed, .error, .aborted]
  | .executing => [.thinking, .waitingApproval, .completed, .error, .aborted]
  | .waitingApproval => [.thinking, .executing, .aborted]
  | .completed => []
  | .error => []
  | .aborted => []

/-- `AgentStateMachine.transition`: `none` is the `ValueError`. -/
def transition (current target : AgentStatus) : Option AgentStatus :=
  if target ∈ validTransitions current then some target else none

def AgentStatus.isTerminal (s : AgentStatus) : Bool :=
  s == .completed || s == .error || s == .aborted

/-- The status a job ends with. -/
inductive JobStatus where
  | completed
  | error
  | aborted
  deriving DecidableEq, Repr

/-- The status `notify_completed` drives the state machine to. -/
def JobStatus.target : JobStatus → AgentStatus
  | .completed => .completed
  | .error => .error
  | .aborted => .aborted

/-- How far the `spawn` of an agent is. -/
inductive SpawnPhase where
  | suspended
  | returned
  | raised
  deriving DecidableEq, Repr

/-- A `LiveAgent` with its job: the job's final status once it has finished, and the calls
made to the completion callback. -/
structure LiveAgent where
  status : AgentStatus := .idle
  completionEmitted : Bool := false
  registered : Bool := true
  spawn : SpawnPhase := .suspended
  job : Option JobStatus := none
  callbacks : List JobStatus := []
  deriving DecidableEq, Repr

/-- Every agent spawned so far, in the order of spawning; its index is its id. -/
structure Control where
  maxConcurrent : Nat := 3
  agents : List LiveAgent := []
  deriving DecidableEq, Repr

/-- Counts against `max_concurrent`: registered and in no terminal status. -/
def LiveAgent.running (a : LiveAgent) : Bool := a.registered && !a.status.isTerminal

/-- `_emit_completed`: the callback is called the first time only. -/
def emitCompleted (a : LiveAgent) (status : JobStatus) : LiveAgent :=
  if a.completionEmitted then a
  else { a with completionEmitted := true, callbacks := a.callbacks ++ [status] }

/-- `notify_completed` for a registered agent. A `ValueError` of the transition is swallowed
by `_run`, and nothing is emitted then. -/
def notifyRegistered (a : LiveAgent) (status : JobStatus) : LiveAgent :=
  if a.status.isTerminal then emitCompleted a status
  else
    match transition a.status status.target with
    | some s => emitCompleted { a with status := s } status
    | none => a

/-- `notify_completed`: the agent is looked up in the registry first. -/
def notifyCompleted (a : LiveAgent) (status : JobStatus) : LiveAgent :=
  if a.registered then notifyRegistered a status else a

/-- The end of `_run`, with the notification in its `finally`. -/
def finishJob (a : LiveAgent) (status : JobStatus) : LiveAgent :=
  { notifyCompleted a status with job := some status }

/-- `spawn` behind the event and the hook: the transition to THINKING, or its `ValueError`. -/
def spawnReturn (a : LiveAgent) : LiveAgent :=
  match transition a.status .thinking with
  | some s => { a with status := s, spawn := .returned }
  | none => { a with spawn := .raised }

/-- `kill` of a registered agent: the agent leaves the registry before its transition,
and a `ValueError` of the transition ends the call before the emission. -/
def killRegistered (a : LiveAgent) : LiveAgent :=
  match transition a.status .aborted with
  | some s => emitCompleted { a with registered := false, status := s } .aborted
  | none => { a with registered := false }

/-- `kill`, which asks the job to cancel; the job finishes in a step of its own. -/
def killAgent (a : LiveAgent) : LiveAgent := if a.registered then killRegistered a else a

inductive Event where
  /-- `spawn` up to the emission of its event. -/
  | spawnBegin
  /-- The event and the hook are through. -/
  | spawnEnd (id : Nat)
  /-- The event or the hook raised, or the spawning task was cancelled there. -/
  | spawnFail (id : Nat)
  | finish (id : Nat) (status : JobStatus)
  | kill (id : Nat)
  deriving DecidableEq, Repr

/-- Change the agent `id` when it is there and meets `ok`. -/
def update (s : Control) (id : Nat) (ok : LiveAgent → Bool) (f : LiveAgent → LiveAgent) :
    Option Control :=
  match s.agents[id]? with
  | some a => if ok a then some { s with agents := s.agents.set id (f a) } else none
  | none => none

def step (s : Control) : Event → Option Control
  | .spawnBegin =>
    if s.maxConcurrent ≤ s.agents.countP LiveAgent.running then none
    else some { s with agents := s.agents ++ [{}] }
  | .spawnEnd id => update s id (fun a => a.spawn == .suspended) spawnReturn
  | .spawnFail id => update s id (fun a => a.spawn == .suspended) ({ · with spawn := .raised })
  | .finish id status => update s id (fun a => a.job == none) (finishJob · status)
  | .kill id => update s id (fun _ => true) killAgent

/-! ## Each step acts on one agent -/

theorem update_some (s s' : Control) (id : Nat) (ok : LiveAgent → Bool)
    (f : LiveAgent → LiveAgent) (h : update s id ok f = some s') :
    ∃ a, s.agents[id]? = some a ∧ ok a = true ∧
      s' = { s with agents := s.agents.set id (f a) } := by
  unfold update at h
  split at h
  case h_1 a ha =>
    split at h
    case isTrue hok => exact ⟨a, ha, hok, (Option.some.inj h).symm⟩
    case isFalse => cases h
  case h_2 => cases h

theorem step_forall (P : LiveAgent → Prop) (s s' : Control) (e : Event) (hnew : P {})
    (hkeep : ∀ id a, s.agents[id]? = some a → P a →
      (e = .spawnEnd id → a.spawn = .suspended → P (spawnReturn a)) ∧
      (e = .spawnFail id → a.spawn = .suspended → P { a with spawn := .raised }) ∧
      (∀ status, e = .finish id status → a.job = none → P (finishJob a status)) ∧
      (e = .kill id → P (killAgent a)))
    (hs : ∀ a ∈ s.agents, P a) (h : step s e = some s') : ∀ a ∈ s'.agents, P a := by
  have hset : ∀ id a b, s.agents[id]? = some a → P b →
      ∀ x ∈ (s.agents.set id b), P x := by
    intro id a b _ hb x hx
    rcases List.mem_or_eq_of_mem_set hx with hx | rfl
    · exact hs x hx
    · exact hb
  cases e with
  | spawnBegin =>
    simp only [step] at h
    split at h
    · cases h
    · cases h
      intro a ha
      rcases List.mem_append.mp ha with ha | ha
      · exact hs a ha
      · rw [List.mem_singleton.mp ha]
        exact hnew
  | spawnEnd id =>
    obtain ⟨a, ha, hok, rfl⟩ := update_some s s' id _ _ h
    have hk := hkeep id a ha (hs a (List.mem_of_getElem? ha))
    exact hset id a _ ha (hk.1 rfl (by simpa using hok))
  | spawnFail id =>
    obtain ⟨a, ha, hok, rfl⟩ := update_some s s' id _ _ h
    have hk := hkeep id a ha (hs a (List.mem_of_getElem? ha))
    exact hset id a _ ha (hk.2.1 rfl (by simpa using hok))
  | finish id status =>
    obtain ⟨a, ha, hok, rfl⟩ := update_some s s' id _ _ h
    have hk := hkeep id a ha (hs a (List.mem_of_getElem? ha))
    exact hset id a _ ha (hk.2.2.1 status rfl (by simpa using hok))
  | kill id =>
    obtain ⟨a, ha, -, rfl⟩ := update_some s s' id _ _ h
    have hk := hkeep id a ha (hs a (List.mem_of_getElem? ha))
    exact hset id a _ ha (hk.2.2.2 rfl)

/-! ## The invariant -/

/-- What holds of every agent, whatever the order of the steps. -/
structure Consistent (a : LiveAgent) : Prop where
  callbacks : a.callbacks.length = if a.completionEmitted then 1 else 0
  emitted : a.completionEmitted = a.status.isTerminal
  removed : a.registered = false → a.status.isTerminal = true
  status : a.status = .idle ∨ a.status = .thinking ∨ a.status.isTerminal = true

theorem consistent_new : Consistent {} := by
  refine ⟨rfl, rfl, ?_, Or.inl rfl⟩
  intro h
  cases h

theorem consistent_emit (a : LiveAgent) (target : AgentStatus) (status : JobStatus)
    (h : Consistent a) (ht : target.isTerminal = true) (reg : Bool) :
    Consistent (emitCompleted { a with status := target, registered := reg } status) ∧
      (emitCompleted { a with status := target, registered := reg } status).status = target := by
  have hcb := h.callbacks
  unfold emitCompleted
  cases he : a.completionEmitted with
  | true =>
    rw [he] at hcb
    refine ⟨⟨?_, ?_, fun _ => ht, Or.inr (Or.inr ht)⟩, rfl⟩
    · simpa [he] using hcb
    · simpa [he] using ht.symm
  | false =>
    rw [he] at hcb
    refine ⟨⟨?_, ?_, fun _ => ht, Or.inr (Or.inr ht)⟩, rfl⟩
    · simpa using hcb
    · simpa using ht.symm

theorem consistent_spawnReturn (a : LiveAgent) (h : Consistent a) :
    Consistent (spawnReturn a) ∧ (a.status.isTerminal = true →
      (spawnReturn a).status = a.status) := by
  rcases h.status with hs | hs | hs
  · have heq : spawnReturn a = { a with status := .thinking, spawn := .returned } := by
      simp [spawnReturn, transition, validTransitions, hs]
    have hem := h.emitted
    rw [hs] at hem
    rw [heq]
    refine ⟨⟨h.callbacks, hem, fun hr => ?_, Or.inr (Or.inl rfl)⟩, fun ht => ?_⟩
    · have := h.removed hr
      rw [hs] at this
      cases this
    · rw [hs] at ht
      cases ht
  · have heq : spawnReturn a = { a with spawn := .raised } := by
      simp [spawnReturn, transition, validTransitions, hs]
    rw [heq]
    exact ⟨⟨h.callbacks, h.emitted, h.removed, h.status⟩, fun _ => rfl⟩
  · have hno : transition a.status .thinking = none := by
      unfold transition
      cases hst : a.status <;> simp_all [AgentStatus.isTerminal, validTransitions]
    have heq : spawnReturn a = { a with spawn := .raised } := by
      simp [spawnReturn, hno]
    rw [heq]
    exact ⟨⟨h.callbacks, h.emitted, h.removed, h.status⟩, fun _ => rfl⟩

theorem consistent_kill (a : LiveAgent) (h : Consistent a) :
    Consistent (killAgent a) ∧ (killAgent a).status.isTerminal = true := by
  unfold killAgent
  split
  case isFalse hr => exact ⟨h, h.removed (by simpa using hr)⟩
  case isTrue =>
    unfold killRegistered
    rcases h.status with hs | hs | hs
    · rw [hs, show transition .idle .aborted = some .aborted from rfl]
      obtain ⟨hc, hst⟩ := consistent_emit a .aborted .aborted h rfl false
      exact ⟨hc, by rw [hst]; rfl⟩
    · rw [hs, show transition .thinking .aborted = some .aborted from rfl]
      obtain ⟨hc, hst⟩ := consistent_emit a .aborted .aborted h rfl false
      exact ⟨hc, by rw [hst]; rfl⟩
    · have hno : transition a.status .aborted = none := by
        unfold transition
        cases hst : a.status <;> simp_all [AgentStatus.isTerminal, validTransitions]
      rw [hno]
      exact ⟨⟨h.callbacks, h.emitted, fun _ => hs, h.status⟩, hs⟩

/-- The notification meets the state machine in IDLE with a status it cannot take there. -/
def NotifiedTooEarly (a : LiveAgent) (status : JobStatus) : Prop :=
  a.registered = true ∧ a.status = .idle ∧ status ≠ .aborted

instance (a : LiveAgent) (status : JobStatus) : Decidable (NotifiedTooEarly a status) :=
  inferInstanceAs (Decidable (_ ∧ _ ∧ _))

theorem consistent_finish (a : LiveAgent) (status : JobStatus) (h : Consistent a) :
    Consistent (finishJob a status) ∧
      (¬ NotifiedTooEarly a status → (finishJob a status).status.isTerminal = true) := by
  have hterm : status.target.isTerminal = true := by cases status <;> rfl
  have key : ∀ b : LiveAgent, Consistent b → Consistent { b with job := some status } :=
    fun b hb => ⟨hb.callbacks, hb.emitted, hb.removed, hb.status⟩
  unfold finishJob notifyCompleted
  split
  case isFalse hr => exact ⟨key a h, fun _ => h.removed (by simpa using hr)⟩
  case isTrue hr =>
    unfold notifyRegistered
    split
    case isTrue ht =>
      obtain ⟨hc, hst⟩ := consistent_emit a a.status status h ht a.registered
      refine ⟨key _ hc, fun _ => ?_⟩
      show (emitCompleted a status).status.isTerminal = true
      rw [show (emitCompleted a status).status = a.status from hst]
      exact ht
    case isFalse ht =>
      have hset : ∀ s', transition a.status status.target = some s' → s' = status.target := by
        intro s' hs'
        unfold transition at hs'
        split at hs'
        · exact (Option.some.inj hs').symm
        · cases hs'
      cases htr : transition a.status status.target with
      | some s' =>
        obtain rfl := hset s' htr
        obtain ⟨hc, hst⟩ := consistent_emit a status.target status h hterm a.registered
        refine ⟨key _ hc, fun _ => ?_⟩
        show (emitCompleted { a with status := status.target } status).status.isTerminal = true
        rw [show (emitCompleted { a with status := status.target } status).status =
          status.target from hst]
        exact hterm
      | none =>
        refine ⟨key a h, fun hearly => (hearly ⟨hr, ?_, ?_⟩).elim⟩
        · rcases h.status with hs | hs | hs
          · exact hs
          · rw [hs] at htr
            cases status <;> cases htr
          · exact absurd hs ht
        · rintro rfl
          rcases h.status with hs | hs | hs
          · rw [hs] at htr
            cases htr
          · rw [hs] at htr
            cases htr
          · exact absurd hs ht

/-! ## Runs -/

/-- No job ends with `completed` or `error` while its agent is registered and IDLE. -/
def FinishesAfterThinking (s : Control) : Event → Prop
  | .finish id status =>
    match s.agents[id]? with
    | some a => ¬ NotifiedTooEarly a status
    | none => True
  | _ => True

instance (s : Control) : ∀ e, Decidable (FinishesAfterThinking s e)
  | .finish id status =>
    match h : s.agents[id]? with
    | some a => decidable_of_iff (¬ NotifiedTooEarly a status) (by simp [FinishesAfterThinking, h])
    | none => isTrue (by simp [FinishesAfterThinking, h])
  | .spawnBegin | .spawnEnd _ | .spawnFail _ | .kill _ => isTrue trivial

/-- A finished job has a settled agent: terminal, so out of the count, and reported once. -/
structure Settled (a : LiveAgent) : Prop extends Consistent a where
  finished : a.job ≠ none → a.status.isTerminal = true

theorem step_settled (s s' : Control) (e : Event) (hs : ∀ a ∈ s.agents, Settled a)
    (hgood : FinishesAfterThinking s e) (h : step s e = some s') : ∀ a ∈ s'.agents, Settled a := by
  apply step_forall Settled s s' e ⟨consistent_new, fun hj => (hj rfl).elim⟩ _ hs h
  intro id a ha hset
  have hcon := hset.toConsistent
  refine ⟨fun _ _ => ?_, fun _ _ => ?_, fun status he _ => ?_, fun _ => ?_⟩
  · obtain ⟨hc, hst⟩ := consistent_spawnReturn a hcon
    refine ⟨hc, fun hj => ?_⟩
    have hjob : (spawnReturn a).job = a.job := by
      unfold spawnReturn
      split <;> rfl
    have ht := hset.finished (hjob ▸ hj)
    rw [hst ht]
    exact ht
  · exact ⟨⟨hcon.callbacks, hcon.emitted, hcon.removed, hcon.status⟩, hset.finished⟩
  · obtain ⟨hc, hst⟩ := consistent_finish a status hcon
    subst he
    have hready : ¬ NotifiedTooEarly a status := by
      simpa [FinishesAfterThinking, ha] using hgood
    exact ⟨hc, fun _ => hst hready⟩
  · obtain ⟨hc, hst⟩ := consistent_kill a hcon
    exact ⟨hc, fun _ => hst⟩

/-- **Completion protocol.** In every run in which no job ends with `completed` or `error`
while its agent is registered and IDLE, an agent whose job has finished and whose spawn is over
is removed or terminal, does not count as running, and was reported exactly once. -/
theorem finished_agent_settled (maxConcurrent : Nat) (events : List Event) (s : Control)
    (hrun : Steps.run step { maxConcurrent := maxConcurrent } events = some s)
    (hgood : Steps.GoodRun step FinishesAfterThinking { maxConcurrent := maxConcurrent } events) :
    ∀ a ∈ s.agents, a.job ≠ none → a.spawn ≠ .suspended →
      (a.registered = false ∨ a.status.isTerminal = true) ∧ a.running = false ∧
        a.callbacks.length = 1 := by
  have hall : ∀ a ∈ s.agents, Settled a := by
    refine Steps.goodRun_invariant step FinishesAfterThinking (fun s => ∀ a ∈ s.agents, Settled a)
      (fun s e s' hs hg h => step_settled s s' e hs hg h) _ s events ?_ hrun hgood
    intro a ha
    cases ha
  intro a ha hjob _
  have hset := hall a ha
  have ht := hset.finished hjob
  refine ⟨Or.inr ht, by simp [LiveAgent.running, ht], ?_⟩
  rw [hset.callbacks, hset.emitted, ht]
  rfl

/-- One job completes, another agent is killed while its spawn is suspended. -/
def settledEvents : List Event :=
  [.spawnBegin, .spawnEnd 0, .spawnBegin, .finish 0 .completed, .kill 1, .finish 1 .aborted,
    .spawnEnd 1]

theorem finished_agent_settled_run :
    ∃ s, Steps.run step { maxConcurrent := 3 } settledEvents = some s ∧
    ∀ a ∈ s.agents, a.job ≠ none → a.spawn ≠ .suspended →
      (a.registered = false ∨ a.status.isTerminal = true) ∧ a.running = false ∧
        a.callbacks.length = 1 := by
  refine ⟨_, rfl, finished_agent_settled 3 settledEvents _ rfl ?_⟩
  decide

/-- A job that ends too early leaves its agent running once the spawn goes on, unreported. -/
theorem notifiedTooEarly_lost (a : LiveAgent) (status : JobStatus) (h : Consistent a)
    (hearly : NotifiedTooEarly a status) :
    (spawnReturn (finishJob a status)).running = true ∧
      (spawnReturn (finishJob a status)).callbacks = [] := by
  obtain ⟨hr, hs, hst⟩ := hearly
  have hfin : finishJob a status = { a with job := some status } := by
    obtain ⟨st, em, reg, sp, job, cbs⟩ := a
    obtain rfl : reg = true := hr
    obtain rfl : st = .idle := hs
    cases status with
    | aborted => exact absurd rfl hst
    | completed => rfl
    | error => rfl
  have hcb : a.callbacks = [] := by
    have := h.callbacks
    rw [h.emitted, hs] at this
    exact List.length_eq_zero_iff.mp this
  rw [hfin]
  constructor
  · simp [spawnReturn, transition, validTransitions, hs, LiveAgent.running, hr,
      AgentStatus.isTerminal]
  · simpa [spawnReturn, transition, validTransitions, hs] using hcb

/-- The job completes while the spawned event is still being emitted. -/
theorem fastJob_leaves_running_agent :
    ∃ s, Steps.run step {} [.spawnBegin, .finish 0 .completed, .spawnEnd 0] = some s ∧
      ∃ a ∈ s.agents, a.job = some .completed ∧ a.spawn = .returned ∧ a.registered = true ∧
        a.status = .thinking ∧ a.running = true ∧ a.callbacks = [] :=
  ⟨_, rfl, _, List.mem_singleton.mpr rfl, by decide⟩

end MiqroForge.Agents
