import MiqroForge.Agents.Control

/-!
All the ways agents enter the registry of one `AgentControl` and become terminal: `spawn`
with an `AgentJobRuntime` or with the task of `_run_agent`, `fork`, `kill`, the end of a
job and the transitions of a task.

* `capKept_iff`: the registered agents in no terminal status stay within `max_concurrent`
  in every state of a run iff every fork of a known thread finds a free place;
* `control_run`: the runs without a fork on the job path are those of `Control`.
-/

namespace MiqroForge.Agents

/-- Who drives the state machine of an agent: its job, the task of `_run_agent`, or nobody. -/
inductive Owner where
  | job
  | task
  | fork
  deriving DecidableEq, Repr

/-- An entry of `_agents`. `taskRuns`: its `_run_agent` is going on. -/
structure Member where
  agent : LiveAgent := {}
  owner : Owner
  taskRuns : Bool := false
  deriving DecidableEq, Repr

/-- An `AgentControl`: whether it has an `AgentJobRuntime` and a provider, and every agent
registered so far. -/
structure Fleet where
  maxConcurrent : Nat := 3
  agentJobs : Bool := true
  provider : Bool := true
  members : List Member := []
  deriving DecidableEq, Repr

namespace Fleet

/-- `AgentControl.__init__`. -/
def initial (maxConcurrent : Nat) (agentJobs provider : Bool) : Fleet :=
  { maxConcurrent, agentJobs, provider }

/-- Registered and in no terminal status. -/
def running (s : Fleet) : Nat := s.members.countP fun m => m.agent.running

/-- The thread of the agent is in `_thread_agents`: both registries are changed together. -/
def knows (s : Fleet) (source : Nat) : Bool :=
  match s.members[source]? with
  | some m => m.agent.registered
  | none => false

/-- `spawn` behind the event and the hook. -/
def spawnReturn (provider : Bool) (m : Member) : Member :=
  match m.owner with
  | .job => { m with agent := Agents.spawnReturn m.agent }
  | .task =>
    if provider then
      { m with
        agent := Agents.spawnReturn m.agent
        taskRuns := (transition m.agent.status .thinking).isSome }
    else { m with agent := { m.agent with spawn := .returned } }
  | .fork => m

/-- A transition made by the task; its `ValueError` leaves the status as it is. -/
def work (m : Member) (target : AgentStatus) : Member :=
  match transition m.agent.status target with
  | some s => { m with agent := { m.agent with status := s } }
  | none => m

/-- The `finally` of `_run_agent`, in whatever status it finds the agent. -/
def taskEnd (m : Member) : Member :=
  { m with
    agent := emitCompleted m.agent
      (match m.agent.status with
        | .completed => .completed
        | .aborted => .aborted
        | _ => .error)
    taskRuns := false }

inductive Event where
  /-- A step of the job path; without an `AgentJobRuntime`, of the legacy path. -/
  | control (e : Agents.Event)
  /-- `fork` up to the emission of its event; the rest of it changes no agent. -/
  | fork (source : Nat)
  | work (id : Nat) (target : AgentStatus)
  | taskEnd (id : Nat)
  deriving DecidableEq, Repr

/-- Change the member `id` when it is there and meets `ok`. -/
def update (s : Fleet) (id : Nat) (ok : Member → Bool) (f : Member → Member) : Option Fleet :=
  match s.members[id]? with
  | some m => if ok m then some { s with members := s.members.set id (f m) } else none
  | none => none

def suspended (m : Member) : Bool := m.owner != .fork && m.agent.spawn == .suspended

def step (s : Fleet) : Event → Option Fleet
  | .control .spawnBegin =>
    if s.maxConcurrent ≤ s.running then none
    else
      some { s with members := s.members ++ [{ owner := if s.agentJobs then .job else .task }] }
  | .control (.spawnEnd id) => update s id suspended (spawnReturn s.provider)
  | .control (.spawnFail id) =>
    update s id suspended fun m => { m with agent := { m.agent with spawn := .raised } }
  | .control (.finish id status) =>
    update s id (fun m => m.owner == .job && m.agent.job == none)
      fun m => { m with agent := finishJob m.agent status }
  | .control (.kill id) =>
    update s id (fun _ => true) fun m => { m with agent := killAgent m.agent }
  | .fork source =>
    if s.knows source then some { s with members := s.members ++ [{ owner := .fork }] } else none
  | .work id target => update s id (fun m => m.taskRuns) (work · target)
  | .taskEnd id => update s id (fun m => m.taskRuns) taskEnd

theorem update_some (s s' : Fleet) (id : Nat) (ok : Member → Bool) (f : Member → Member)
    (h : update s id ok f = some s') :
    ∃ m, s.members[id]? = some m ∧ ok m = true ∧
      s' = { s with members := s.members.set id (f m) } := by
  unfold update at h
  split at h
  case h_1 m hm =>
    split at h
    case isTrue hok => exact ⟨m, hm, hok, (Option.some.inj h).symm⟩
    case isFalse => cases h
  case h_2 => cases h

/-! ## No step brings an agent back -/

end Fleet

theorem transition_of_terminal (s target : AgentStatus) (h : s.isTerminal = true) :
    transition s target = none := by
  unfold transition
  cases s <;> simp_all [AgentStatus.isTerminal, validTransitions]

variable (a : LiveAgent)

theorem running_emitCompleted (status : JobStatus) :
    (emitCompleted a status).running = a.running := by
  unfold emitCompleted
  split <;> rfl

theorem running_of_transition (target s : AgentStatus)
    (h : transition a.status target = some s) (hr : a.registered = true) : a.running = true := by
  have hlive : a.status.isTerminal = false := by
    cases ht : a.status.isTerminal with
    | false => rfl
    | true =>
      rw [transition_of_terminal a.status target ht] at h
      cases h
  simp [LiveAgent.running, hr, hlive]

theorem running_spawnReturn (h : (spawnReturn a).running = true) :
    a.running = true := by
  unfold spawnReturn at h
  split at h
  case h_1 s hs =>
    apply running_of_transition a .thinking s hs
    simp only [LiveAgent.running, Bool.and_eq_true] at h
    exact h.1
  case h_2 => exact h

theorem running_finishJob (status : JobStatus)
    (h : (finishJob a status).running = true) : a.running = true := by
  have hnotify : (notifyCompleted a status).running = true := h
  unfold notifyCompleted at hnotify
  split at hnotify
  case isFalse => exact hnotify
  case isTrue hr =>
    unfold notifyRegistered at hnotify
    split at hnotify
    case isTrue => rwa [running_emitCompleted] at hnotify
    case isFalse =>
      split at hnotify
      case h_1 s hs => exact running_of_transition a status.target s hs hr
      case h_2 => exact hnotify

theorem running_killAgent : (killAgent a).running = false := by
  unfold killAgent
  split
  case isFalse hr => simp [LiveAgent.running, hr]
  case isTrue =>
    unfold killRegistered
    split
    · rw [running_emitCompleted]
      rfl
    · rfl

namespace Fleet

theorem running_work (m : Member) (target : AgentStatus)
    (h : (work m target).agent.running = true) : m.agent.running = true := by
  unfold work at h
  split at h
  case h_1 s hs =>
    apply running_of_transition m.agent target s hs
    simp only [LiveAgent.running, Bool.and_eq_true] at h
    exact h.1
  case h_2 => exact h

theorem running_returned (provider : Bool) (m : Member)
    (h : (spawnReturn provider m).agent.running = true) : m.agent.running = true := by
  unfold spawnReturn at h
  split at h
  · exact running_spawnReturn m.agent h
  · split at h
    · exact running_spawnReturn m.agent h
    · exact h
  · exact h

theorem running_update (s s' : Fleet) (id : Nat) (ok : Member → Bool) (f : Member → Member)
    (hf : ∀ m, (f m).agent.running = true → m.agent.running = true)
    (h : update s id ok f = some s') :
    s'.maxConcurrent = s.maxConcurrent ∧ s'.running ≤ s.running := by
  obtain ⟨m, hm, -, rfl⟩ := update_some s s' id ok f h
  obtain ⟨hid, rfl⟩ := List.getElem?_eq_some_iff.mp hm
  refine ⟨rfl, ?_⟩
  have hset := List.countP_set (p := fun m : Member => m.agent.running) (a := f s.members[id]) hid
  have hmem := List.boole_getElem_le_countP (p := fun m : Member => m.agent.running) hid
  have himp := hf s.members[id]
  simp only [running]
  cases hafter : (f s.members[id]).agent.running with
  | false =>
    rw [hafter] at hset
    simp only [Bool.false_eq_true, if_false] at hset
    omega
  | true =>
    rw [himp hafter] at hset hmem
    rw [hafter] at hset
    simp only [if_true] at hset hmem
    omega

theorem running_append (s : Fleet) (owner : Owner) :
    running { s with members := s.members ++ [{ owner := owner }] } = s.running + 1 := by
  simp [running, LiveAgent.running, AgentStatus.isTerminal]

/-! ## The cap -/

/-- A fork of a known thread finds fewer running agents than `max_concurrent`. -/
def ForkHasRoom (s : Fleet) : Event → Prop
  | .fork source => s.knows source = true → s.running < s.maxConcurrent
  | _ => True

theorem step_within_iff (s : Fleet) (e : Event) (hs : s.running ≤ s.maxConcurrent) :
    (∀ t, step s e = some t → t.running ≤ t.maxConcurrent) ↔ ForkHasRoom s e := by
  have key : ∀ id ok f, (∀ m, (f m).agent.running = true → m.agent.running = true) →
      ∀ t, update s id ok f = some t → t.running ≤ t.maxConcurrent := by
    intro id ok f hf t ht
    obtain ⟨hmax, hle⟩ := running_update s t id ok f hf ht
    omega
  cases e with
  | control e =>
    refine iff_of_true ?_ trivial
    cases e with
    | spawnBegin =>
      intro t ht
      simp only [step] at ht
      split at ht
      case isTrue => cases ht
      case isFalse hroom =>
        cases ht
        rw [running_append]
        show s.running + 1 ≤ s.maxConcurrent
        omega
    | spawnEnd id => exact key id _ _ (running_returned s.provider)
    | spawnFail id => exact key id _ _ fun m h => h
    | finish id status => exact key id _ _ fun m => running_finishJob m.agent status
    | kill id =>
      apply key id
      intro m h
      rw [running_killAgent] at h
      cases h
  | fork source =>
    simp only [step, ForkHasRoom]
    split
    case isFalse hk => simp [hk]
    case isTrue hk =>
      simp only [Option.some.injEq, forall_eq', running_append, hk, forall_const]
      exact Nat.succ_le_iff
  | work id target => exact iff_of_true (key id _ _ (running_work · target)) trivial
  | taskEnd id =>
    refine iff_of_true (key id _ _ fun m h => ?_) trivial
    rwa [taskEnd, running_emitCompleted] at h

/-- **Cap on sub-agents.** Whatever the order of spawns, forks, kills and ends of jobs and tasks:
the running agents stay within `max_concurrent` throughout iff no fork takes a place that is not
there. -/
theorem capKept_iff (maxConcurrent : Nat) (agentJobs provider : Bool) (events : List Event) :
    (∀ before, before <+: events →
        ∀ s, Steps.run step (initial maxConcurrent agentJobs provider) before = some s →
          s.running ≤ s.maxConcurrent) ↔
      Steps.GoodRun step ForkHasRoom (initial maxConcurrent agentJobs provider) events := by
  have hstart : (initial maxConcurrent agentJobs provider).running ≤
      (initial maxConcurrent agentJobs provider).maxConcurrent := Nat.zero_le _
  rw [Steps.forall_prefix_iff step (fun s => s.running ≤ s.maxConcurrent)]
  rw [and_iff_right hstart]
  apply Steps.goodRun_congr step _ ForkHasRoom (fun s => s.running ≤ s.maxConcurrent)
  · exact step_within_iff
  · intro s e t _ hgood ht
    exact hgood t ht
  · exact hstart

/-- Three spawns and a fork of the first agent. -/
theorem fork_exceeds_cap :
    ¬ ∀ events before, before <+: events →
      ∀ s, Steps.run step (initial 3 true true) before = some s →
        s.running ≤ s.maxConcurrent := by
  intro h
  have hbad := h [.control .spawnBegin, .control .spawnBegin, .control .spawnBegin, .fork 0] _
    List.prefix_rfl _ rfl
  revert hbad
  decide

end Fleet

end MiqroForge.Agents
