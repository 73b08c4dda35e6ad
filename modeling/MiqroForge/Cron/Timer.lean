import MiqroForge.Cron.Service

/-!
The invariants of the service, and what arming the timer keeps of them: `Inv` is about jobs and
tasks, `OnTime` about the occurrences while the service runs, `Awake` about the timer.
-/

namespace MiqroForge.Cron

open CronService

/-- The timer task is not in `_on_timer`. -/
def CronService.quiet (s : CronService) : Bool :=
  s.timerTask.all fun t => !(s.task t).onTimer

/-! ## The invariant -/

/-- Jobs and tasks, before and after `stop`. -/
structure Inv (s : CronService) : Prop where
  known : ∀ r ∈ s.jobs, r < s.created
  nodup : s.jobs.Nodup
  ids : ∀ r r', r < s.created → r' < s.created → (s.job r).id = (s.job r').id → r = r'
  fresh : ∀ t, s.tasks ≤ t → s.task t = {}
  timer : ∀ t, s.timerTask = some t → t < s.tasks
  held : ∀ t, ∀ r ∈ (s.task t).jobs, r < s.created
  own : ∀ t, (s.task t).jobs.Nodup
  apart : ∀ t t' r, r ∈ (s.task t).jobs → r ∈ (s.task t').jobs → t = t'
  flagged : ∀ t cause, (s.task t).onTimer = true → (s.task t).cancel = some cause →
    cause = .stopped ∧ s.running = false
  foremost : ∀ t, (s.task t).onTimer = true → s.timerTask = some t ∨ s.running = false
  halted : s.running = false → s.timerTask = none
  lone : ∀ t wake, s.task t = ⟨.sleeping wake, none⟩ → s.timerTask = some t
  cancelled : ∀ c ∈ s.cancelled, c.2 = .stopped

/-- The occurrences, before `stop`. -/
structure OnTime (s : CronService) : Prop where
  past : ∀ o ∈ s.started, o.1 < s.created ∧ o.2 ≤ s.now
  once : s.started.Nodup
  /-- An occurrence that was begun is not due again, other than while it is executed. -/
  replaced : ∀ r n, (r, n) ∈ s.started → (s.job r).wake = some n → r ∈ s.jobs →
    ∃ t e, (s.task t).current = some e ∧ e.job = r
  logged : ∀ t e, (s.task t).current = some e → ∀ n, e.occurrence = some n →
    (e.job, n) ∈ s.started
  /-- Nothing changes the jobs the timer is busy with. -/
  taken : ∀ t e rest, (s.task t).work = .timer e rest →
    (s.job e.job).wake = e.occurrence ∧ ∀ r ∈ rest, r ∈ s.jobs ∧ s.due r = (s.job r).wake
  pending : ∀ o ∈ s.cameDue, o ∈ s.started ∨ o ∈ s.withdrawn ∨
    (o.1 ∈ s.jobs ∧ s.due o.1 = some o.2)

/-- The timer is set for every job that will run. -/
def Awake (s : CronService) : Prop :=
  s.running = true → ∀ r ∈ s.jobs, ∀ n, (s.job r).wake = some n → ∃ t, s.timerTask = some t ∧
    ((s.task t).onTimer = true ∨
      ∃ wake, s.task t = ⟨.sleeping wake, none⟩ ∧ wake ≤ max n s.now)

/-! ## Tasks -/

section Tasks
variable {s : CronService} {t : Nat} {cause : Cause}

theorem request_work (task : Task) (cause : Cause) : (task.request cause).work = task.work := by
  unfold Task.request
  split <;> rfl

theorem work_current {a b : Task} (h : a.work = b.work) : a.current = b.current := by
  rw [Task.current, h, Task.current]

theorem work_rest {a b : Task} (h : a.work = b.work) : a.rest = b.rest := by
  rw [Task.rest, h, Task.rest]

theorem work_jobs {a b : Task} (h : a.work = b.work) : a.jobs = b.jobs := by
  rw [Task.jobs, work_current h, work_rest h, Task.jobs]

theorem work_onTimer {a b : Task} (h : a.work = b.work) : a.onTimer = b.onTimer := by
  rw [Task.onTimer, h, Task.onTimer]

theorem Inv.retask (h : Inv s) {s' : CronService} (hjobs : s'.jobs = s.jobs)
    (hcreated : s'.created = s.created) (hjob : s'.job = s.job)
    (hcancelled : ∀ c ∈ s'.cancelled, c.2 = .stopped)
    (hwork : ∀ t, (s'.task t).work = (s.task t).work ∨ (s'.task t).jobs = [])
    (hfresh : ∀ t, s'.tasks ≤ t → s'.task t = {})
    (htimer : ∀ t, s'.timerTask = some t → t < s'.tasks)
    (hflagged : ∀ t cause, (s'.task t).onTimer = true → (s'.task t).cancel = some cause →
      cause = .stopped ∧ s'.running = false)
    (hforemost : ∀ t, (s'.task t).onTimer = true → s'.timerTask = some t ∨ s'.running = false)
    (hhalted : s'.running = false → s'.timerTask = none)
    (hlone : ∀ t wake, s'.task t = ⟨.sleeping wake, none⟩ → s'.timerTask = some t) : Inv s' := by
  have hin : ∀ t r, r ∈ (s'.task t).jobs → r ∈ (s.task t).jobs := by
    intro t r hr
    rcases hwork t with hw | hw
    · rwa [work_jobs hw] at hr
    · rw [hw] at hr
      cases hr
  refine ⟨?_, hjobs ▸ h.nodup, ?_, hfresh, htimer, ?_, fun t => ?_, fun t t' r hr hr' => ?_,
    hflagged, hforemost, hhalted, hlone, hcancelled⟩
  · rw [hjobs, hcreated]
    exact h.known
  · rw [hcreated, hjob]
    exact h.ids
  · rw [hcreated]
    exact fun t r hr => h.held t r (hin t r hr)
  · rcases hwork t with hw | hw
    · rw [work_jobs hw]
      exact h.own t
    · rw [hw]
      exact List.nodup_nil
  · exact h.apart t t' r (hin t r hr) (hin t' r hr')

/-- Only tasks that sleep, and the timer, are others. -/
structure Kept (s s' : CronService) : Prop where
  now : s'.now = s.now
  job : s'.job = s.job
  created : s'.created = s.created
  jobs : s'.jobs = s.jobs
  started : s'.started = s.started
  cameDue : s'.cameDue = s.cameDue
  withdrawn : s'.withdrawn = s.withdrawn
  cancelled : s'.cancelled = s.cancelled
  running : s'.running = s.running
  work : ∀ t, (s'.task t).work = (s.task t).work

theorem Kept.trans {s₁ s₂ s₃ : CronService} (h : Kept s₁ s₂) (h' : Kept s₂ s₃) : Kept s₁ s₃ :=
  ⟨h'.now.trans h.now, h'.job.trans h.job, h'.created.trans h.created, h'.jobs.trans h.jobs,
    h'.started.trans h.started, h'.cameDue.trans h.cameDue, h'.withdrawn.trans h.withdrawn,
    h'.cancelled.trans h.cancelled, h'.running.trans h.running,
    fun t => (h'.work t).trans (h.work t)⟩

theorem OnTime.kept (h : OnTime s) {s' : CronService} (hk : Kept s s') : OnTime s' := by
  have hdue : ∀ r, s'.due r = s.due r := fun r => by rw [due, due, hk.job, hk.now]
  refine ⟨?_, hk.started ▸ h.once, fun r n hr hwake hwhere => ?_, fun t e he n hn => ?_,
    fun t e rest hphase => ?_, fun o ho => ?_⟩
  · rw [hk.started, hk.created, hk.now]
    exact h.past
  · rw [hk.started] at hr
    rw [hk.job] at hwake
    rw [hk.jobs] at hwhere
    simp only [work_current (hk.work _)]
    exact h.replaced r n hr hwake hwhere
  · rw [work_current (hk.work t)] at he
    rw [hk.started]
    exact h.logged t e he n hn
  · rw [hk.work t] at hphase
    obtain ⟨hcurrent, hrest⟩ := h.taken t e rest hphase
    rw [hk.job, hk.jobs]
    exact ⟨hcurrent, fun r hr => ⟨(hrest r hr).1, (hdue r).trans (hrest r hr).2⟩⟩
  · rw [hk.cameDue] at ho
    rw [hk.started, hk.withdrawn, hk.jobs, hdue]
    exact h.pending o ho

/-! ## Arming the timer -/

theorem cancelTimer_task (s : CronService) (cause : Cause) (t : Nat) :
    (s.cancelTimer cause).task t =
      if s.timerTask = some t then (s.task t).request cause else s.task t := by
  unfold cancelTimer
  cases s.timerTask with
  | none => rfl
  | some t' =>
    by_cases ht : t = t'
    · subst ht
      simp [setTask]
    · simp [setTask, ht, Ne.symm ht]

theorem cancelTimer_kept (s : CronService) (cause : Cause) : Kept s (s.cancelTimer cause) := by
  have hwork : ∀ t, ((s.cancelTimer cause).task t).work = (s.task t).work := by
    intro t
    rw [cancelTimer_task]
    split
    · exact request_work _ _
    · rfl
  unfold cancelTimer at hwork ⊢
  cases hs : s.timerTask with
  | none => exact ⟨rfl, rfl, rfl, rfl, rfl, rfl, rfl, rfl, rfl, fun _ => rfl⟩
  | some t =>
    rw [hs] at hwork
    exact ⟨rfl, rfl, rfl, rfl, rfl, rfl, rfl, rfl, rfl, hwork⟩

theorem cancelTimer_timer (s : CronService) (cause : Cause) :
    (s.cancelTimer cause).timerTask = s.timerTask ∧ (s.cancelTimer cause).tasks = s.tasks := by
  unfold cancelTimer
  cases hs : s.timerTask with
  | none => exact ⟨hs, rfl⟩
  | some t => exact ⟨hs, rfl⟩

theorem cancelTimer_flags (h : Inv s) (cause : Cause) (t : Nat) (wake : Int) :
    (s.cancelTimer cause).task t ≠ ⟨.sleeping wake, none⟩ := by
  rw [cancelTimer_task]
  split
  case isTrue heq =>
    intro hsleep
    unfold Task.request at hsleep
    split at hsleep
    case isTrue hdone =>
      rw [hsleep] at hdone
      cases hdone
    case isFalse =>
      have hcancel : (s.task t).cancel.or (some cause) = none := congrArg Task.cancel hsleep
      cases hc : (s.task t).cancel with
      | none =>
        rw [hc] at hcancel
        cases hcancel
      | some c =>
        rw [hc] at hcancel
        cases hcancel
  case isFalse hne => exact fun hsleep => hne (h.lone t wake hsleep)

theorem Inv.cancelTimer (h : Inv s) (hquiet : s.quiet = true) (cause : Cause) :
    Inv (s.cancelTimer cause) := by
  have hk := cancelTimer_kept s cause
  obtain ⟨htimer, htasks⟩ := cancelTimer_timer s cause
  have hsame : ∀ t, ((s.cancelTimer cause).task t).onTimer = true →
      (s.cancelTimer cause).task t = s.task t := by
    intro t ht
    rw [cancelTimer_task]
    split
    case isTrue heq =>
      rw [quiet, heq, Option.all_some, ← work_onTimer (hk.work t), ht] at hquiet
      cases hquiet
    case isFalse => rfl
  refine h.retask hk.jobs hk.created hk.job (hk.cancelled ▸ h.cancelled)
    (fun t => Or.inl (hk.work t)) (fun t ht => ?_) (fun t ht => ?_) (fun t c ht hc => ?_)
    (fun t ht => ?_) (fun hrun => ?_)
    fun t wake hsleep => absurd hsleep (cancelTimer_flags h cause t wake)
  · rw [htasks] at ht
    rw [cancelTimer_task, h.fresh t ht]
    split <;> rfl
  · rw [htimer] at ht
    rw [htasks]
    exact h.timer t ht
  · rw [hsame t ht] at hc
    rw [hk.running]
    exact h.flagged t c (hsame t ht ▸ ht) hc
  · rw [htimer, hk.running]
    exact h.foremost t (hsame t ht ▸ ht)
  · rw [hk.running] at hrun
    rw [htimer]
    exact h.halted hrun

theorem armTimer_cases (s : CronService) :
    ((s.nextWake = none ∨ s.running = false) ∧ s.armTimer = s.cancelTimer .rearmed) ∨
      ∃ wake, s.nextWake = some wake ∧ s.running = true ∧
        s.armTimer = { (s.cancelTimer .rearmed).setTask s.tasks
            { phase := .sleeping (max s.now wake) } with
          tasks := s.tasks + 1
          timerTask := some s.tasks } := by
  have hk := cancelTimer_kept s .rearmed
  have hwake : (s.cancelTimer .rearmed).nextWake = s.nextWake := by
    rw [nextWake, nextWake, hk.jobs, hk.job]
  unfold armTimer
  simp only [hwake, hk.running, hk.now, (cancelTimer_timer s .rearmed).2]
  cases hnext : s.nextWake with
  | none => exact Or.inl ⟨Or.inl rfl, rfl⟩
  | some wake =>
    cases hrun : s.running with
    | false => exact Or.inl ⟨Or.inr rfl, rfl⟩
    | true => exact Or.inr ⟨wake, rfl, rfl, rfl⟩

theorem armTimer_kept (h : Inv s) : Kept s s.armTimer := by
  have hk := cancelTimer_kept s .rearmed
  rcases armTimer_cases s with ⟨-, heq⟩ | ⟨wake, -, -, heq⟩
  · rw [heq]
    exact hk
  · rw [heq]
    refine hk.trans ⟨rfl, rfl, rfl, rfl, rfl, rfl, rfl, rfl, rfl, fun t => ?_⟩
    by_cases ht : t = s.tasks
    · subst ht
      rw [hk.work s.tasks, h.fresh s.tasks (Nat.le_refl _)]
      simp [setTask, Task.work]
    · simp [setTask, ht]

theorem Inv.armTimer (h : Inv s) (hquiet : s.quiet = true) : Inv s.armTimer := by
  have hc := h.cancelTimer hquiet .rearmed
  have hk := cancelTimer_kept s .rearmed
  obtain ⟨htimer, htasks⟩ := cancelTimer_timer s .rearmed
  rcases armTimer_cases s with ⟨-, heq⟩ | ⟨wake, -, hrun, heq⟩
  · rw [heq]
    exact hc
  · have hother : ∀ t, t ≠ s.tasks → s.armTimer.task t = (s.cancelTimer .rearmed).task t := by
      intro t ht
      rw [heq]
      simp [setTask, ht]
    have hnew : s.armTimer.task s.tasks = { phase := .sleeping (max s.now wake) } := by
      rw [heq]
      simp [setTask]
    have hcalm : ∀ t, s.armTimer.task t = (s.cancelTimer .rearmed).task t ∨
        (s.armTimer.task t).onTimer = false := by
      intro t
      by_cases ht : t = s.tasks
      · right
        rw [ht, hnew]
        rfl
      · exact Or.inl (hother t ht)
    have hcount : s.armTimer.tasks = s.tasks + 1 := by rw [heq]
    have hthere : s.armTimer.timerTask = some s.tasks := by rw [heq]
    have hstill : s.armTimer.running = true := by rw [(armTimer_kept h).running, hrun]
    have hka := armTimer_kept h
    refine h.retask hka.jobs hka.created hka.job (hka.cancelled ▸ h.cancelled)
      (fun t => Or.inl (hka.work t)) (fun t ht => ?_) (fun t ht => ?_) (fun t c ht hc' => ?_)
      (fun t ht => ?_) (fun hrun' => ?_) fun t wake' hsleep => ?_
    · rw [hcount] at ht
      rw [hother t (by omega)]
      exact hc.fresh t (by omega)
    · rw [hthere] at ht
      cases ht
      omega
    · rcases hcalm t with hsame | hnone
      · rw [hsame] at ht hc'
        obtain ⟨-, hoff⟩ := hc.flagged t c ht hc'
        rw [hk.running, hrun] at hoff
        cases hoff
      · rw [hnone] at ht
        cases ht
    · rcases hcalm t with hsame | hnone
      · rw [hsame] at ht
        rcases hc.foremost t ht with hfore | hoff
        · rw [htimer] at hfore
          rw [work_onTimer (hk.work t)] at ht
          rw [quiet, hfore, Option.all_some, ht] at hquiet
          cases hquiet
        · rw [hk.running, hrun] at hoff
          cases hoff
      · rw [hnone] at ht
        cases ht
    · rw [hstill] at hrun'
      cases hrun'
    · by_cases ht : t = s.tasks
      · rw [ht, hthere]
      · rw [hother t ht] at hsleep
        exact absurd hsleep (cancelTimer_flags h .rearmed t wake')

theorem nextWake_le {r : Nat} {n : Int} (hr : r ∈ s.jobs) (hn : (s.job r).wake = some n) :
    ∃ wake, s.nextWake = some wake ∧ wake ≤ n := by
  have hmem : n ∈ s.jobs.filterMap fun r => (s.job r).wake := List.mem_filterMap.mpr ⟨r, hr, hn⟩
  cases hmin : s.nextWake with
  | none =>
    rw [nextWake, List.min?_eq_none_iff] at hmin
    rw [hmin] at hmem
    cases hmem
  | some wake => exact ⟨wake, rfl, (List.min?_eq_some_iff.mp hmin).2 n hmem⟩

theorem armTimer_awake (s : CronService) (h : Inv s) : Awake s.armTimer := by
  have hk := armTimer_kept h
  intro hrun r hr n hn
  rw [hk.running] at hrun
  rw [hk.jobs] at hr
  rw [hk.job] at hn
  obtain ⟨wake, hwake, hle⟩ := nextWake_le hr hn
  rcases armTimer_cases s with ⟨hnone | hoff, -⟩ | ⟨wake', hwake', -, heq⟩
  · rw [hwake] at hnone
    cases hnone
  · rw [hrun] at hoff
    cases hoff
  · obtain rfl := Option.some.inj (hwake.symm.trans hwake')
    refine ⟨s.tasks, by rw [heq], Or.inr ⟨max s.now wake, ?_, ?_⟩⟩
    · rw [heq]
      simp [setTask]
    · rw [hk.now]
      omega

end Tasks

end MiqroForge.Cron
