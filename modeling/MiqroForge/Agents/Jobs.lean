import MiqroForge.Library.Steps

/-!
`AgentJobRuntime` with its `AgentGraphStore`: `start`, the first step of `_run`, the ways its
body ends, the stall watchdog, `kill`, and a restart that loads the stored rows. Each of
them runs alone between two suspension points and writes its row at most once, so the rows a
crash leaves behind are those of a state between two steps.

* `statusFinal_iff`: a final status stays and no restart reports a live job iff each step of
  the run is `Careful`.
-/

namespace MiqroForge.Agents.Jobs

/-- The values of `AgentJob.status`; `interrupted` is given by `_load_jobs` only. -/
inductive Status where
  | queued
  | running
  | completed
  | error
  | aborted
  | interrupted
  deriving DecidableEq, Repr

def Status.final (s : Status) : Bool := s == .completed || s == .error || s == .aborted

def Status.live (s : Status) : Bool := s == .queued || s == .running

/-- How far the task of `_run` is; a loaded job has no task. -/
inductive RunTask where
  | created
  | body
  | over
  deriving DecidableEq, Repr

/-- An `AgentJob` with its task. `cancelled`: `cancel` was called on the task before its first
step. `watching`: the watchdog has not returned. -/
structure AgentJob where
  status : Status := .queued
  result : Option String := none
  error : Option String := none
  task : RunTask := .created
  cancelled : Bool := false
  watching : Bool := false
  deriving DecidableEq, Repr

structure AgentJobRow where
  status : Status
  result : Option String
  error : Option String
  deriving DecidableEq, Repr

/-- The jobs in the order of their start, which is their id, and the rows under the same ids;
`none` is a runtime without a store. -/
structure AgentJobRuntime where
  jobs : List AgentJob := []
  store : Option (List AgentJobRow) := some []
  deriving DecidableEq, Repr

/-- What `save_job` and `update_job_status` write of a job. -/
def AgentJob.row (job : AgentJob) : AgentJobRow :=
  { status := job.status, result := job.result, error := job.error }

/-- `_load_jobs`, one row. -/
def loadJob (row : AgentJobRow) : AgentJob :=
  { status := if row.status = .running then .interrupted else row.status
    result := row.result
    error := row.error
    task := .over }

/-- `__init__` on a store. -/
def load (store : Option (List AgentJobRow)) : AgentJobRuntime :=
  { jobs := (store.getD []).map loadJob, store := store }

/-- Python's truth of `job.error`. -/
def truthy (error : Option String) : Bool :=
  match error with
  | some e => e != ""
  | none => false

/-- How `run_agent_job` ends. -/
inductive Outcome where
  | returned (result : Option String)
  | cancelled
  | raised (message : String)
  deriving DecidableEq, Repr

/-- `_run` up to its `try`. -/
def begin (job : AgentJob) : AgentJob :=
  { job with status := .running, task := .body, watching := true }

/-- The clauses of `_run` and its `finally`. -/
def finish (job : AgentJob) (outcome : Outcome) : AgentJob :=
  let job :=
    match outcome with
    | .returned result => { job with result := result, status := .completed }
    | .cancelled =>
      if truthy job.error then job else { job with error := some "Cancelled", status := .aborted }
    | .raised message => { job with error := some message, status := .error }
  { job with task := .over, watching := false }

/-- `_watch_stall` where it gives up on the job. -/
def stall (location : String) (job : AgentJob) : AgentJob :=
  { job with
    error := some ("stalled at " ++ location)
    status := .error
    watching := false }

/-- `kill`: the task is asked to cancel where it is not over. -/
def kill (job : AgentJob) : AgentJob :=
  { job with status := .aborted, cancelled := job.cancelled || job.task == .created }

inductive Event where
  | start
  | begin (id : Nat)
  /-- The first step of a task cancelled before it: no line of `_run` is executed. -/
  | drop (id : Nat)
  | finish (id : Nat) (outcome : Outcome)
  | stall (id : Nat) (location : String)
  | kill (id : Nat)
  /-- A crash, then `__init__` on the store it leaves. -/
  | restart
  deriving DecidableEq, Repr

/-- Change the job `id` in memory when it is there and meets `ok`. -/
def update (s : AgentJobRuntime) (id : Nat) (ok : AgentJob → Bool) (f : AgentJob → AgentJob) :
    Option AgentJobRuntime :=
  match s.jobs[id]? with
  | some job => if ok job then some { s with jobs := s.jobs.set id (f job) } else none
  | none => none

/-- `update_job_status` with the fields of the job; for a job without a row it changes nothing. -/
def persist (s : AgentJobRuntime) (id : Nat) : AgentJobRuntime :=
  match s.jobs[id]? with
  | some job => { s with store := s.store.map (·.set id job.row) }
  | none => s

def step (s : AgentJobRuntime) : Event → Option AgentJobRuntime
  | .start =>
    some { jobs := s.jobs ++ [{}], store := s.store.map (· ++ [AgentJob.row {}]) }
  | .begin id =>
    (update s id (fun job => job.task == .created && !job.cancelled) begin).map fun t =>
      { t with store := t.store.map (·.set id { status := .running, result := none, error := none }) }
  | .drop id =>
    update s id (fun job => job.task == .created && job.cancelled) ({ · with task := .over })
  | .finish id outcome =>
    (update s id (·.task == .body) (finish · outcome)).map (persist · id)
  | .stall id location =>
    -- the row keeps its status until the `finally` of `_run`
    update s id (fun job => job.task == .body && job.watching) (stall location)
  | .kill id =>
    match s.jobs[id]? with
    | some _ => (update s id (fun _ => true) kill).map (persist · id)
    | none => some s
  | .restart => some (load s.store)

/-! ## What a step keeps -/

/-- Every job with a final status has it still. -/
def Kept (s t : AgentJobRuntime) : Prop :=
  ∀ (id : Nat) (job : AgentJob), s.jobs[id]? = some job → job.status.final = true →
    ∃ job', t.jobs[id]? = some job' ∧ job'.status = job.status

variable (s : AgentJobRuntime)

theorem kept_refl : Kept s s := fun _ job h _ => ⟨job, h, rfl⟩

theorem kept_trans (s t u : AgentJobRuntime) (hst : Kept s t) (htu : Kept t u) : Kept s u := by
  intro id job hjob hfinal
  obtain ⟨job', hjob', hstatus⟩ := hst id job hjob hfinal
  rw [← hstatus] at hfinal
  obtain ⟨job'', hjob'', hstatus'⟩ := htu id job' hjob' hfinal
  exact ⟨job'', hjob'', hstatus'.trans hstatus⟩

@[simp] theorem persist_jobs (id : Nat) : (persist s id).jobs = s.jobs := by
  unfold persist
  split <;> rfl

theorem kept_set (id : Nat) (job job' : AgentJob)
    (h : s.jobs[id]? = some job) (t : AgentJobRuntime) (ht : t.jobs = s.jobs.set id job') :
    Kept s t ↔ (job.status.final = true → job'.status = job.status) := by
  obtain ⟨hid, rfl⟩ := List.getElem?_eq_some_iff.mp h
  constructor
  · intro hk hfinal
    obtain ⟨k, hkget, hstatus⟩ := hk id _ h hfinal
    rw [ht, List.getElem?_set_self hid] at hkget
    cases hkget
    exact hstatus
  · intro hk other k hget hfinal
    rw [ht]
    by_cases heq : id = other
    · subst heq
      rw [h] at hget
      cases hget
      exact ⟨job', List.getElem?_set_self hid, hk hfinal⟩
    · exact ⟨k, by rw [List.getElem?_set_ne heq]; exact hget, rfl⟩

theorem update_kept (id : Nat) (ok : AgentJob → Bool)
    (f : AgentJob → AgentJob) (write : AgentJobRuntime → AgentJobRuntime)
    (hwrite : ∀ t, (write t).jobs = t.jobs) :
    (∀ t, (update s id ok f).map write = some t → Kept s t) ↔
      ∀ job, s.jobs[id]? = some job → ok job = true → job.status.final = true →
        (f job).status = job.status := by
  unfold update
  cases hjob : s.jobs[id]? with
  | none => simp
  | some job =>
    by_cases hok : ok job = true
    · simp only [hok, if_true, Option.map_some, Option.some.injEq, forall_eq', forall_const]
      exact kept_set s id job (f job) hjob _ (hwrite _)
    · simp [hok]

/-- What holds of every job: one whose first step is to come is queued, and while `_run` is in
its `try` an error status has its error text. -/
structure JobOk (job : AgentJob) : Prop where
  created : job.task = .created → job.cancelled = false → job.status = .queued
  body : job.task = .body → job.status = .running ∨ job.status = .aborted ∨
    (job.status = .error ∧ truthy job.error = true)

theorem jobOk_over (job : AgentJob) (h : job.task = .over) : JobOk job := by
  constructor
  · intro hc
    rw [h] at hc
    cases hc
  · intro hb
    rw [h] at hb
    cases hb

theorem truthy_stalled (location : String) : truthy (some ("stalled at " ++ location)) = true := by
  simp only [truthy, bne_iff_ne, ne_eq]
  intro h
  have hlen := congrArg String.length h
  simp [String.length_append] at hlen

theorem jobOk_update (s t : AgentJobRuntime) (id : Nat) (ok : AgentJob → Bool)
    (f : AgentJob → AgentJob) (hs : ∀ x ∈ s.jobs, JobOk x)
    (hf : ∀ job, ok job = true → JobOk job → JobOk (f job)) (h : update s id ok f = some t) :
    ∀ x ∈ t.jobs, JobOk x := by
  unfold update at h
  split at h
  case h_1 job hjob =>
    split at h
    case isTrue hok =>
      cases h
      intro x hx
      rcases List.mem_or_eq_of_mem_set hx with hx | rfl
      · exact hs x hx
      · exact hf job hok (hs job (List.mem_of_getElem? hjob))
    case isFalse => cases h
  case h_2 => cases h

theorem step_jobOk (s t : AgentJobRuntime) (e : Event) (hs : ∀ x ∈ s.jobs, JobOk x)
    (h : step s e = some t) : ∀ x ∈ t.jobs, JobOk x := by
  cases e with
  | start =>
    cases h
    intro x hx
    rcases List.mem_append.mp hx with hx | hx
    · exact hs x hx
    · rw [List.mem_singleton.mp hx]
      exact ⟨fun _ _ => rfl, fun hbody => by cases hbody⟩
  | begin id =>
    obtain ⟨u, hu, rfl⟩ := Option.map_eq_some_iff.mp h
    apply jobOk_update s u id _ _ hs _ hu
    intro job _ _
    exact ⟨fun hc => (by cases hc), fun _ => Or.inl rfl⟩
  | drop id =>
    apply jobOk_update s t id _ _ hs _ h
    exact fun job _ _ => jobOk_over _ rfl
  | finish id outcome =>
    obtain ⟨u, hu, rfl⟩ := Option.map_eq_some_iff.mp h
    rw [persist_jobs]
    apply jobOk_update s u id _ _ hs _ hu
    exact fun job _ _ => jobOk_over _ rfl
  | stall id location =>
    apply jobOk_update s t id _ _ hs _ h
    intro job hbody _
    constructor
    · intro hc
      have hno : job.task = .created := hc
      simp [hno] at hbody
    · exact fun _ => Or.inr (Or.inr ⟨rfl, truthy_stalled location⟩)
  | kill id =>
    simp only [step] at h
    split at h
    · obtain ⟨u, hu, rfl⟩ := Option.map_eq_some_iff.mp h
      rw [persist_jobs]
      apply jobOk_update s u id _ _ hs _ hu
      intro job _ _
      constructor
      · intro hc hno
        have hcreated : job.task = .created := hc
        simp [kill, hcreated] at hno
      · exact fun _ => Or.inr (Or.inl rfl)
    · cases h
      exact hs
  | restart =>
    cases h
    intro x hx
    obtain ⟨row, -, rfl⟩ := List.mem_map.mp hx
    exact jobOk_over _ rfl

/-! ## The runs that keep their promises -/

/-- What the step is to keep: the final statuses, and after a restart that no job is live. -/
def Promised (s : AgentJobRuntime) (e : Event) (t : AgentJobRuntime) : Prop :=
  if e = .restart then ∀ job ∈ t.jobs, job.status.live = false else Kept s t

/-- `kill` names no completed or failed job; a body whose job was killed or found stalled
meanwhile does not return, and that of a killed one does not raise either; the watchdog gives
up on no killed job; a crash leaves no row of a job whose task has not begun. -/
def Careful (s : AgentJobRuntime) : Event → Prop
  | .kill id => ∀ job, s.jobs[id]? = some job → job.status ≠ .completed ∧ job.status ≠ .error
  | .finish id (.returned _) => ∀ job, s.jobs[id]? = some job → job.task = .body →
      job.status.final = false
  | .finish id (.raised _) => ∀ job, s.jobs[id]? = some job → job.task = .body →
      job.status ≠ .aborted
  | .stall id _ => ∀ job, s.jobs[id]? = some job → job.task = .body → job.watching = true →
      job.status ≠ .aborted
  | .restart => ∀ row ∈ s.store.getD [], row.status ≠ .queued
  | _ => True

theorem loadJob_live (row : AgentJobRow) :
    (loadJob row).status.live = false ↔ row.status ≠ .queued := by
  unfold loadJob
  cases row.status <;> simp [Status.live]

theorem finish_status (job : AgentJob) (outcome : Outcome) (hbody : job.task = .body)
    (hok : JobOk job) :
    (job.status.final = true → (finish job outcome).status = job.status) ↔
      match outcome with
      | .returned _ => job.status.final = false
      | .cancelled => True
      | .raised _ => job.status ≠ .aborted := by
  cases outcome with
  | returned result =>
    rcases hok.body hbody with hs | hs | ⟨hs, -⟩
    · simp [finish, hs, Status.final]
    · simp [finish, hs, Status.final]
    · simp [finish, hs, Status.final]
  | cancelled =>
    refine iff_of_true ?_ trivial
    intro hfinal
    unfold finish
    by_cases herr : truthy job.error = true
    · simp only [herr, if_true]
    · rcases hok.body hbody with hs | hs | ⟨-, htext⟩
      · rw [hs] at hfinal
        cases hfinal
      · simp [herr, hs]
      · exact absurd htext herr
  | raised message =>
    rcases hok.body hbody with hs | hs | ⟨hs, -⟩
    · simp [finish, hs, Status.final]
    · simp [finish, hs, Status.final]
    · simp [finish, hs, Status.final]

theorem step_promised_iff (e : Event) (hs : ∀ x ∈ s.jobs, JobOk x) :
    (∀ t, step s e = some t → Promised s e t) ↔ Careful s e := by
  have hsome : ∀ (id : Nat) (job : AgentJob), s.jobs[id]? = some job → JobOk job :=
    fun id job hjob => hs job (List.mem_of_getElem? hjob)
  cases e with
  | start =>
    refine iff_of_true ?_ trivial
    intro t ht
    cases ht
    intro id job hjob _
    have hid := (List.getElem?_eq_some_iff.mp hjob).1
    exact ⟨job, (List.getElem?_append_left hid).trans hjob, rfl⟩
  | begin id =>
    refine iff_of_true ((update_kept s id _ _ _ ?_).mpr ?_) trivial
    · exact fun t => rfl
    · intro job hjob hok hfinal
      simp only [Bool.and_eq_true, beq_iff_eq, Bool.not_eq_true'] at hok
      rw [(hsome id job hjob).created hok.1 hok.2] at hfinal
      cases hfinal
  | drop id =>
    have hkept := update_kept s id (fun job => job.task == .created && job.cancelled)
      ({ · with task := .over }) (fun t => t) fun t => rfl
    rw [Option.map_id'] at hkept
    exact iff_of_true (hkept.mpr fun job _ _ _ => rfl) trivial
  | finish id outcome =>
    have hkept := update_kept s id (·.task == .body) (finish · outcome) (persist · id)
      fun t => persist_jobs t id
    refine hkept.trans ?_
    have hiff : ∀ job, s.jobs[id]? = some job → job.task = .body → _ := fun job hjob hbody =>
      finish_status job outcome hbody (hsome id job hjob)
    simp only [beq_iff_eq]
    cases outcome with
    | returned result =>
      exact forall_congr' fun job => forall_congr' fun hjob => forall_congr' fun hbody =>
        hiff job hjob hbody
    | cancelled => exact iff_of_true (fun job hjob hbody => (hiff job hjob hbody).mpr trivial) trivial
    | raised message =>
      exact forall_congr' fun job => forall_congr' fun hjob => forall_congr' fun hbody =>
        hiff job hjob hbody
  | stall id location =>
    have hkept := update_kept s id (fun job => job.task == .body && job.watching) (stall location)
      (fun t => t) fun t => rfl
    rw [Option.map_id'] at hkept
    refine hkept.trans ?_
    simp only [Bool.and_eq_true, beq_iff_eq, and_imp]
    refine forall_congr' fun job => forall_congr' fun hjob => forall_congr' fun hbody =>
      forall_congr' fun _ => ?_
    rcases (hsome id job hjob).body hbody with hst | hst | ⟨hst, -⟩
    · simp [stall, hst, Status.final]
    · simp [stall, hst, Status.final]
    · simp [stall, hst, Status.final]
  | kill id =>
    simp only [step, Careful]
    cases hjob : s.jobs[id]? with
    | none =>
      refine iff_of_true (fun t ht => ?_) nofun
      cases ht
      exact kept_refl s
    | some job =>
      have hkept := update_kept s id (fun _ => true) kill (persist · id) fun t => persist_jobs t id
      refine hkept.trans ?_
      simp only [hjob, Option.some.injEq, forall_eq', forall_const]
      cases job.status <;> simp [kill, Status.final]
  | restart =>
    simp only [step, Promised, Careful, Option.some.injEq, forall_eq', if_true, load,
      List.forall_mem_map, loadJob_live]

theorem kept_run (s t : AgentJobRuntime) (events : List Event) (hno : .restart ∉ events)
    (hgood : Steps.GoodRun step (fun s e => ∀ t, step s e = some t → Promised s e t) s events)
    (hrun : Steps.run step s events = some t) : Kept s t := by
  induction events generalizing s with
  | nil =>
    obtain rfl := Option.some.inj hrun
    exact kept_refl s
  | cons e es ih =>
    obtain ⟨u, hu, hrest⟩ := Steps.run_cons_some step hrun
    have hne : e ≠ .restart := fun h => hno (h ▸ List.mem_cons_self)
    have hstep := hgood.1 u hu
    rw [Promised, if_neg hne] at hstep
    exact kept_trans s u t hstep
      (ih u (fun h => hno (List.mem_cons_of_mem e h)) (hgood.2 u hu) hrest)

/-- A final status stays as long as the process lives. -/
def FinalStays (start : AgentJobRuntime) (events : List Event) : Prop :=
  ∀ before between after, events = before ++ between ++ after → .restart ∉ between →
    ∀ s t, Steps.run step start before = some s → Steps.run step s between = some t → Kept s t

/-- No restart reports a job as queued or running. -/
def NoneLive (start : AgentJobRuntime) (events : List Event) : Prop :=
  ∀ before after, events = before ++ .restart :: after →
    ∀ s, Steps.run step start (before ++ [.restart]) = some s →
      ∀ job ∈ s.jobs, job.status.live = false

theorem promised_of_claims (start : AgentJobRuntime) (events : List Event)
    (hstays : FinalStays start events) (hlive : NoneLive start events) :
    Steps.GoodRun step (fun s e => ∀ t, step s e = some t → Promised s e t) start events := by
  apply (Steps.goodRun_iff_forall step _ _ _).mpr
  rintro before e after rfl s hs t ht
  have hone : Steps.run step s [e] = some t := Steps.run_cons_of_step step [] ht
  unfold Promised
  split
  case isTrue he =>
    subst he
    apply hlive before after rfl t
    rw [Steps.run_append, hs]
    exact hone
  case isFalse he =>
    apply hstays before [e] after (by simp) _ s t hs hone
    exact fun h => he (List.mem_singleton.mp h).symm

theorem claims_of_promised (start : AgentJobRuntime) (events : List Event)
    (hgood : Steps.GoodRun step (fun s e => ∀ t, step s e = some t → Promised s e t) start
      events) :
    FinalStays start events ∧ NoneLive start events := by
  constructor
  · rintro before between after rfl hno s t hs ht
    rw [List.append_assoc, Steps.goodRun_append step _ _ s _ _ hs] at hgood
    exact kept_run s t between hno (Steps.goodRun_before step _ s between after hgood.2) ht
  · rintro before after rfl u hu
    rw [Steps.run_append] at hu
    obtain ⟨s, hs, hstep⟩ := Option.bind_eq_some_iff.mp hu
    have hp := (Steps.goodRun_iff_forall step _ _ _).mp hgood before .restart after rfl s hs
    obtain ⟨v, hv, hvu⟩ := Steps.run_cons_some step hstep
    obtain rfl := Option.some.inj hvu
    have hlast := hp v hv
    rwa [Promised, if_pos rfl] at hlast

/-- **Job status is final.** For every order of starts, ends of bodies, stalls, kills and
restarts from any stored rows: no final status changes between two restarts and no restart
reports a job as queued or running iff every step of the run is careful. -/
theorem statusFinal_iff (store : Option (List AgentJobRow)) (events : List Event) :
    (FinalStays (load store) events ∧ NoneLive (load store) events) ↔
      Steps.GoodRun step Careful (load store) events := by
  have hstart : ∀ x ∈ (load store).jobs, JobOk x := by
    intro x hx
    obtain ⟨row, -, rfl⟩ := List.mem_map.mp hx
    exact jobOk_over _ rfl
  have hcongr := Steps.goodRun_congr step
    (fun s e => ∀ t, step s e = some t → Promised s e t) Careful
    (fun s => ∀ x ∈ s.jobs, JobOk x) (fun s e hs => step_promised_iff s e hs)
    (fun s e t hs _ ht => step_jobOk s t e hs ht) (load store) events hstart
  rw [← hcongr]
  constructor
  · rintro ⟨hstays, hlive⟩
    exact promised_of_claims (load store) events hstays hlive
  · exact claims_of_promised (load store) events

/-- A completed job is killed; a crash comes between a start and the first step of its task. -/
theorem completedKilled_queuedReloaded :
    (¬ ∀ events, FinalStays (load (some [])) events) ∧
      ¬ ∀ events, NoneLive (load (some [])) events := by
  constructor
  · intro h
    have hk := h _ [.start, .begin 0, .finish 0 (.returned (some "done"))] [.kill 0] [] rfl
      (by decide) _ _ rfl rfl
    obtain ⟨job, hjob, hstatus⟩ := hk 0 _ rfl rfl
    cases hjob
    cases hstatus
  · intro h
    have hlive := h _ [.start] [] rfl _ rfl _ List.mem_cons_self
    cases hlive

end MiqroForge.Agents.Jobs
