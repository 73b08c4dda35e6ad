import MiqroForge.Cron.Timer

/-!
A job body: what its end changes, what its beginning takes down, and the loop of `_on_timer`.
-/

namespace MiqroForge.Cron

open CronService

/-! ## The end of a body -/

section Bodies
variable {env : Env} {s s' : CronService} {e : Execution} {t r : Nat}

theorem computeNextRun_later (hlaw : env.Lawful) {schedule : CronSchedule} {now n : Int}
    {last : Option Int} (h : computeNextRun env schedule now last = some n) : now < n := by
  unfold computeNextRun at h
  split at h
  case h_1 =>
    have hlater := (Option.filter_eq_some_iff.mp h).2
    exact (of_decide_eq_true hlater).2
  case h_2 =>
    split at h
    case h_1 => cases h
    case h_2 every _ =>
      split at h
      case isTrue => cases h
      case isFalse hpos =>
        split at h
        case h_1 last =>
          split at h
          case isTrue hlast =>
            cases h
            exact hlast
          case isFalse =>
            cases h
            omega
        case h_2 =>
          cases h
          omega
  case h_3 =>
    split at h
    case h_1 => cases h
    case h_2 =>
      split at h
      case isTrue => cases h
      case isFalse => exact hlaw _ _ _ _ h

theorem wake_next {job : CronJob} {n : Int} (h : job.wake = some n) :
    job.enabled = true ∧ job.nextRunAtMs = some n := by
  unfold CronJob.wake at h
  split at h
  case isTrue hen => exact ⟨hen, (Option.filter_eq_some_iff.mp h).1⟩
  case isFalse => cases h

/-- What the end of an execution changes. -/
structure Completed (s : CronService) (e : Execution) (s' : CronService) : Prop where
  now : s'.now = s.now
  created : s'.created = s.created
  task : s'.task = s.task
  tasks : s'.tasks = s.tasks
  timerTask : s'.timerTask = s.timerTask
  started : s'.started = s.started
  cameDue : s'.cameDue = s.cameDue
  withdrawn : s'.withdrawn = s.withdrawn
  cancelled : s'.cancelled = s.cancelled
  running : s'.running = s.running
  other : ∀ r, r ≠ e.job → s'.job r = s.job r
  id : ∀ r, (s'.job r).id = (s.job r).id
  sub : s'.jobs.Sublist s.jobs
  keeps : ∀ r ∈ s.jobs, r ≠ e.job → r ∈ s'.jobs
  /-- The job does not run before its next occurrence. -/
  later : e.job ∉ s'.jobs ∨ ∀ n, (s'.job e.job).wake = some n → s.now < n

variable (env) in
theorem record_id (job : CronJob) (startMs : Int) (outcome : Outcome) :
    (job.record env startMs outcome).id = job.id := by
  unfold CronJob.record
  split <;> rfl

theorem setJob_id {job : CronJob} (hid : job.id = (s.job e.job).id) (r : Nat) :
    ((s.setJob e.job job).job r).id = (s.job r).id := by
  by_cases hr : r = e.job
  · subst hr
    simpa [setJob] using hid
  · simp [setJob, hr]

theorem complete_spec (hlaw : env.Lawful) (h : Inv s) (he : e.job < s.created)
    (outcome : Outcome) : Completed s e (s.complete env e outcome) := by
  have hid := record_id env (s.job e.job) e.startMs outcome
  have hother : ∀ job r, r ≠ e.job → (s.setJob e.job job).job r = s.job r := by
    intro job r hr
    simp [setJob, hr]
  have hself : ∀ job, (s.setJob e.job job).job e.job = job := by
    intro job
    simp [setJob]
  unfold CronService.complete
  simp only
  split
  case isTrue =>
    split
    case isTrue =>
      refine ⟨rfl, rfl, rfl, rfl, rfl, rfl, rfl, rfl, rfl, rfl, hother _, setJob_id hid,
        List.filter_sublist, fun r hr hne => ?_, Or.inl fun hin => ?_⟩
      · refine List.mem_filter.mpr ⟨hr, bne_iff_ne.mpr fun heq => hne ?_⟩
        exact h.ids r e.job (h.known r hr) he (heq.trans hid)
      · have hne := (List.mem_filter.mp hin).2
        rw [bne_iff_ne, hid] at hne
        exact hne rfl
    case isFalse =>
      refine ⟨rfl, rfl, rfl, rfl, rfl, rfl, rfl, rfl, rfl, rfl, hother _, setJob_id hid,
        List.Sublist.refl _, fun r hr _ => hr, Or.inr fun n hn => ?_⟩
      rw [hself] at hn
      cases hn
  case isFalse =>
    refine ⟨rfl, rfl, rfl, rfl, rfl, rfl, rfl, rfl, rfl, rfl, hother _, setJob_id hid,
      List.Sublist.refl _, fun r hr _ => hr, Or.inr fun n hn => ?_⟩
    rw [hself] at hn
    have hnext : computeNextRun env ((s.job e.job).record env e.startMs outcome).schedule s.now
        none = some n := (wake_next hn).2
    exact computeNextRun_later hlaw hnext

theorem Inv.complete (h : Inv s) (hc : Completed s e s') : Inv s' := by
  refine ⟨fun r hr => ?_, hc.sub.nodup h.nodup, fun r r' hr hr' hid => ?_, ?_, ?_, ?_, ?_, ?_, ?_,
    ?_, ?_, ?_, ?_⟩
  · rw [hc.created]
    exact h.known r (hc.sub.subset hr)
  · rw [hc.created] at hr hr'
    rw [hc.id, hc.id] at hid
    exact h.ids r r' hr hr' hid
  · rw [hc.tasks, hc.task]
    exact h.fresh
  · rw [hc.timerTask, hc.tasks]
    exact h.timer
  · rw [hc.task, hc.created]
    exact h.held
  · rw [hc.task]
    exact h.own
  · rw [hc.task]
    exact h.apart
  · rw [hc.task, hc.running]
    exact h.flagged
  · rw [hc.task, hc.timerTask, hc.running]
    exact h.foremost
  · rw [hc.running, hc.timerTask]
    exact h.halted
  · rw [hc.task, hc.timerTask]
    exact h.lone
  · rw [hc.cancelled]
    exact h.cancelled

/-- **An execution ends.** Its occurrence is replaced by a later one. -/
theorem OnTime.complete (h : OnTime s) (hi : Inv s) (hc : Completed s e s') {task : Task}
    (ht : (s.task t).current = some e) (hdone : task.work = .done)
    (hown : ∀ n, s.due e.job = some n → e.occurrence = some n) :
    OnTime (s'.setTask t task) := by
  have hin : e.job ∈ (s.task t).jobs := by simp [Task.jobs, ht]
  have hdue : ∀ r, r ≠ e.job → s'.due r = s.due r := fun r hr => by
    rw [due, due, hc.other r hr, hc.now]
  have hself : (s'.setTask t task).task t = task := by simp [setTask]
  have hother : ∀ u, u ≠ t → (s'.setTask t task).task u = s.task u := by
    intro u hu
    simp [setTask, hu, hc.task]
  have hnone : task.current = none ∧ task.rest = [] := by
    rw [Task.current, Task.rest, hdone]
    exact ⟨rfl, rfl⟩
  refine ⟨?_, ?_, fun r n hr hwake hwhere => ?_, fun u x hx n hn => ?_,
    fun u x rest hphase => ?_, fun o ho => ?_⟩
  · show ∀ o ∈ s'.started, o.1 < s'.created ∧ o.2 ≤ s'.now
    rw [hc.started, hc.created, hc.now]
    exact h.past
  · show s'.started.Nodup
    rw [hc.started]
    exact h.once
  · have hr' : (r, n) ∈ s.started := hc.started ▸ hr
    by_cases hre : r = e.job
    · subst hre
      rcases hc.later with hgone | hlater
      · exact absurd hwhere hgone
      · have hpast : n ≤ s.now := (h.past _ hr').2
        have hnew := hlater n hwake
        omega
    · have hwake' : (s.job r).wake = some n := hc.other r hre ▸ hwake
      obtain ⟨u, x, hx, hxr⟩ := h.replaced r n hr' hwake' (hc.sub.subset hwhere)
      refine ⟨u, x, ?_, hxr⟩
      have hut : u ≠ t := by
        rintro rfl
        rw [ht] at hx
        cases hx
        exact hre hxr.symm
      rw [hother u hut]
      exact hx
  · have hut : u ≠ t := by
      rintro rfl
      rw [hself, hnone.1] at hx
      cases hx
    rw [hother u hut] at hx
    show (x.job, n) ∈ s'.started
    rw [hc.started]
    exact h.logged u x hx n hn
  · have hut : u ≠ t := by
      rintro rfl
      rw [hself, hdone] at hphase
      cases hphase
    rw [hother u hut] at hphase
    obtain ⟨hcurrent, hrest⟩ := h.taken u x rest hphase
    have hapart : ∀ r ∈ (s.task u).jobs, r ≠ e.job := by
      rintro r hr rfl
      exact hut (hi.apart u t _ hr hin)
    have hjobs : (s.task u).jobs = x.job :: rest := by
      simp [Task.jobs, Task.current, Task.rest, hphase]
    rw [hjobs] at hapart
    refine ⟨?_, fun r hr => ?_⟩
    · show (s'.job x.job).wake = _
      rw [hc.other _ (hapart _ List.mem_cons_self)]
      exact hcurrent
    · have hne := hapart r (List.mem_cons_of_mem _ hr)
      show r ∈ s'.jobs ∧ s'.due r = (s'.job r).wake
      rw [hdue r hne, hc.other r hne]
      exact ⟨hc.keeps r (hrest r hr).1 hne, (hrest r hr).2⟩
  · have ho' : o ∈ s.cameDue := hc.cameDue ▸ ho
    show o ∈ s'.started ∨ o ∈ s'.withdrawn ∨ (o.1 ∈ s'.jobs ∧ s'.due o.1 = some o.2)
    rw [hc.started, hc.withdrawn]
    rcases h.pending o ho' with hs | hw | ⟨hjob, hd⟩
    · exact Or.inl hs
    · exact Or.inr (Or.inl hw)
    · by_cases hoe : o.1 = e.job
      · have hlog := h.logged t e ht o.2 (hown _ (hoe ▸ hd))
        rw [← hoe] at hlog
        exact Or.inl hlog
      · exact Or.inr (Or.inr ⟨hc.keeps _ hjob hoe, by rw [hdue _ hoe, hd]⟩)

/-! ## The start of a body -/

theorem idle_jobs {task : Task} (h : task.work = .done) :
    task.current = none ∧ task.rest = [] ∧ task.jobs = [] ∧ task.onTimer = false := by
  simp [Task.jobs, Task.current, Task.rest, Task.onTimer, h]

theorem mem_noted {o : Nat × Int} :
    o ∈ (s.noted r).started ↔ o ∈ s.started ∨ ∃ n, s.due r = some n ∧ o = (r, n) := by
  cases hdue : s.due r with
  | none => simp [noted, hdue]
  | some n => simp [noted, hdue]

theorem Inv.begin (h : Inv s) {task : Task} {rest : List Nat} {n : Nat}
    (hidle : (s.task t).work = .done) (hjobs : task.jobs = r :: rest)
    (hnodup : (r :: rest).Nodup) (hknown : ∀ x ∈ r :: rest, x < s.created)
    (hfree : ∀ x ∈ r :: rest, ∀ u, x ∉ (s.task u).jobs) (hn : s.tasks ≤ n) (ht : t < n)
    (hflagged : ∀ cause, task.onTimer = true → task.cancel = some cause →
      cause = .stopped ∧ s.running = false)
    (hforemost : task.onTimer = true → s.timerTask = some t ∨ s.running = false) :
    Inv { (s.noted r).setTask t task with tasks := n } := by
  have hself : ((s.noted r).setTask t task).task t = task := by simp [setTask]
  have hother : ∀ u, u ≠ t → ((s.noted r).setTask t task).task u = s.task u := by
    intro u hu
    simp [setTask, noted, hu]
  refine ⟨h.known, h.nodup, h.ids, fun u hu => ?_, fun u hu => ?_, fun u x hx => ?_, fun u => ?_,
    fun u u' x hx hx' => ?_, fun u cause hon hc => ?_, fun u hon => ?_, h.halted,
    fun u wake hsleep => ?_, h.cancelled⟩
  · have hut : u ≠ t := fun heq => by
      have hle : n ≤ u := hu
      omega
    exact (hother u hut).trans (h.fresh u (Nat.le_trans hn hu))
  · exact Nat.lt_of_lt_of_le (h.timer u hu) hn
  · by_cases hut : u = t
    · subst hut
      refine hknown x ?_
      rwa [hself, hjobs] at hx
    · exact h.held u x (hother u hut ▸ hx)
  · by_cases hut : u = t
    · subst hut
      show (((s.noted r).setTask u task).task u).jobs.Nodup
      rwa [hself, hjobs]
    · exact (hother u hut).symm ▸ h.own u
  · by_cases hut : u = t
    · by_cases hut' : u' = t
      · rw [hut, hut']
      · subst hut
        rw [hself, hjobs] at hx
        rw [hother u' hut'] at hx'
        exact absurd hx' (hfree x hx u')
    · by_cases hut' : u' = t
      · subst hut'
        rw [hself, hjobs] at hx'
        rw [hother u hut] at hx
        exact absurd hx (hfree x hx' u)
      · rw [hother u hut] at hx
        rw [hother u' hut'] at hx'
        exact h.apart u u' x hx hx'
  · by_cases hut : u = t
    · subst hut
      rw [hself] at hon hc
      exact hflagged cause hon hc
    · rw [hother u hut] at hon hc
      exact h.flagged u cause hon hc
  · by_cases hut : u = t
    · subst hut
      rw [hself] at hon
      exact hforemost hon
    · rw [hother u hut] at hon
      exact h.foremost u hon
  · by_cases hut : u = t
    · subst hut
      have hsame : task = ⟨.sleeping wake, none⟩ := hself.symm.trans hsleep
      rw [hsame] at hjobs
      cases hjobs
    · exact h.lone u wake ((hother u hut).symm.trans hsleep)

/-- **An occurrence is begun.** It was not begun before. -/
theorem OnTime.begin (h : OnTime s) {task : Task} {n : Nat}
    (hidle : (s.task t).work = .done) (hcurrent : task.current = some (s.execution r))
    (hr : r ∈ s.jobs) (hknown : r < s.created) (hfree : ∀ u, r ∉ (s.task u).jobs)
    (htaken : ∀ e rest, task.work = .timer e rest → (s.job r).wake = s.due r ∧
      ∀ x ∈ rest, x ∈ s.jobs ∧ s.due x = (s.job x).wake) :
    OnTime { (s.noted r).setTask t task with tasks := n } := by
  have hself : ((s.noted r).setTask t task).task t = task := by simp [setTask]
  have hother : ∀ u, u ≠ t → ((s.noted r).setTask t task).task u = s.task u := by
    intro u hu
    simp [setTask, noted, hu]
  have hnew : ∀ n, s.due r = some n → (r, n) ∉ s.started := by
    intro n hdue hin
    obtain ⟨hwake, -⟩ := Option.filter_eq_some_iff.mp hdue
    obtain ⟨u, e, he, rfl⟩ := h.replaced r n hin hwake hr
    exact hfree u (by simp [Task.jobs, he])
  refine ⟨fun o ho => ?_, ?_, fun x n hx hwake hxjob => ?_, fun u e he n hn => ?_,
    fun u e rest hphase => ?_, fun o ho => ?_⟩
  · rcases mem_noted.mp ho with ho | ⟨n, hdue, rfl⟩
    · exact h.past o ho
    · exact ⟨hknown, of_decide_eq_true (Option.filter_eq_some_iff.mp hdue).2⟩
  · show (s.noted r).started.Nodup
    cases hdue : s.due r with
    | none =>
      simp only [noted, hdue, Option.map_none, Option.toList_none, List.append_nil]
      exact h.once
    | some n =>
      simp only [noted, hdue, Option.map_some, Option.toList_some]
      refine List.nodup_append.mpr ⟨h.once, List.pairwise_singleton _ _, fun o ho o' ho' heq => ?_⟩
      rw [List.mem_singleton.mp ho'] at heq
      exact hnew n hdue (heq ▸ ho)
  · rcases mem_noted.mp hx with hx | ⟨n', -, heq⟩
    · obtain ⟨u, e, he, hex⟩ := h.replaced x n hx hwake hxjob
      have hut : u ≠ t := by
        rintro rfl
        rw [(idle_jobs hidle).1] at he
        cases he
      exact ⟨u, e, (hother u hut).symm ▸ he, hex⟩
    · obtain ⟨rfl, -⟩ := Prod.mk.inj heq
      refine ⟨t, s.execution x, ?_, rfl⟩
      show (((s.noted x).setTask t task).task t).current = some (s.execution x)
      rw [hself, hcurrent]
  · refine mem_noted.mpr ?_
    by_cases hut : u = t
    · subst hut
      rw [hself, hcurrent] at he
      cases he
      exact Or.inr ⟨n, hn, rfl⟩
    · rw [hother u hut] at he
      exact Or.inl (h.logged u e he n hn)
  · by_cases hut : u = t
    · subst hut
      rw [hself] at hphase
      obtain ⟨hwake, hrest⟩ := htaken e rest hphase
      have he : e = s.execution r := by
        rw [Task.current, hphase] at hcurrent
        exact Option.some.inj hcurrent
      rw [he]
      exact ⟨hwake, hrest⟩
    · rw [hother u hut] at hphase
      exact h.taken u e rest hphase
  · rcases h.pending o ho with hs | hrest
    · exact Or.inl (mem_noted.mpr (Or.inl hs))
    · exact Or.inr hrest

/-! ## The loop over the due jobs -/

/-- A timer task that is between two jobs. -/
structure Between (s : CronService) (t : Nat) (rs : List Nat) : Prop where
  idle : (s.task t).work = .done
  lt : t < s.tasks
  nodup : rs.Nodup
  known : ∀ r ∈ rs, r < s.created
  free : ∀ r ∈ rs, ∀ u, r ∉ (s.task u).jobs
  flagged : ∀ cause, (s.task t).cancel = some cause → cause = .stopped ∧ s.running = false
  foremost : s.timerTask = some t ∨ s.running = false
  due : s.running = true → ∀ r ∈ rs, r ∈ s.jobs ∧ s.due r = (s.job r).wake

theorem Between.quiet {rs : List Nat} (h : Inv s) (hb : Between s t rs) : s.quiet = true := by
  rw [CronService.quiet]
  rcases hb.foremost with ht | hoff
  · rw [ht, Option.all_some, (idle_jobs hb.idle).2.2.2]
    rfl
  · rw [h.halted hoff]
    rfl

/-- What is kept of the invariants. -/
structure Held (s : CronService) : Prop where
  inv : Inv s
  onTime : s.running = true → OnTime s

theorem Held.armTimer (h : Held s) (hquiet : s.quiet = true) :
    Held s.armTimer ∧ Awake s.armTimer := by
  have hk := armTimer_kept h.inv
  exact ⟨⟨h.inv.armTimer hquiet, fun hrun => (h.onTime (hk.running ▸ hrun)).kept hk⟩,
    armTimer_awake s h.inv⟩

theorem Held.setTask (h : Held s) (ht : t < s.tasks) {task : Task}
    (hphase : task.phase = .done) (hidle : (s.task t).work = .done) :
    Held (s.setTask t task) := by
  have hwork : task.work = .done := by rw [Task.work, hphase]
  have hsame : ∀ u, ((s.setTask t task).task u).work = (s.task u).work := by
    intro u
    by_cases hu : u = t
    · subst hu
      simp [CronService.setTask, hwork, hidle]
    · simp [CronService.setTask, hu]
  have hother : ∀ u, u ≠ t → (s.setTask t task).task u = s.task u := by
    intro u hu
    simp [CronService.setTask, hu]
  have hon : ∀ u, ((s.setTask t task).task u).onTimer = true → u ≠ t := by
    rintro u hu rfl
    rw [work_onTimer (hsame u), (idle_jobs hidle).2.2.2] at hu
    cases hu
  refine ⟨h.inv.retask rfl rfl rfl h.inv.cancelled (fun u => Or.inl (hsame u)) (fun u hu => ?_)
    h.inv.timer (fun u c hu hc => ?_) (fun u hu => ?_) h.inv.halted fun u wake hsleep => ?_,
    fun hrun => ?_⟩
  · have hut : u ≠ t := fun heq => by
      have hle : s.tasks ≤ u := hu
      omega
    exact (hother u hut).trans (h.inv.fresh u hu)
  · have heq := hother u (hon u hu)
    exact h.inv.flagged u c (heq ▸ hu) (heq ▸ hc)
  · exact h.inv.foremost u (hother u (hon u hu) ▸ hu)
  · refine h.inv.lone u wake ?_
    by_cases hut : u = t
    · subst hut
      have heq : (s.setTask u task).task u = task := by simp [CronService.setTask]
      rw [← heq, hsleep] at hphase
      cases hphase
    · exact (hother u hut).symm.trans hsleep
  · exact (h.onTime hrun).kept ⟨rfl, rfl, rfl, rfl, rfl, rfl, rfl, rfl, rfl, hsame⟩

/-- **The loop.** -/
theorem Held.executeDue (h : Held s) {rs : List Nat} (hb : Between s t rs) :
    Held (s.executeDue t rs) ∧ Awake (s.executeDue t rs) := by
  cases rs with
  | nil =>
    have hdone : Held (s.setTask t { s.task t with phase := .done }) :=
      h.setTask hb.lt rfl hb.idle
    refine hdone.armTimer ?_
    have hb' : Between (s.setTask t { s.task t with phase := .done }) t [] := by
      refine ⟨?_, hb.lt, List.nodup_nil, List.forall_mem_nil _, List.forall_mem_nil _, ?_,
        hb.foremost, fun _ => List.forall_mem_nil _⟩
      · simp [CronService.setTask, Task.work]
      · simpa [CronService.setTask] using hb.flagged
    exact hb'.quiet hdone.inv
  | cons r rest =>
    have hjobs : ({ s.task t with phase := .timer (s.execution r) rest } : Task).jobs =
        r :: rest := rfl
    refine ⟨⟨h.inv.begin (n := s.tasks) hb.idle hjobs hb.nodup hb.known hb.free (Nat.le_refl _)
      hb.lt (fun cause _ hc => hb.flagged cause hc) fun _ => hb.foremost, fun hrun => ?_⟩, ?_⟩
    · have hdue := hb.due hrun
      refine (h.onTime hrun).begin (n := s.tasks) hb.idle rfl (hdue r List.mem_cons_self).1
        (hb.known r List.mem_cons_self) (hb.free r List.mem_cons_self) fun e rest' heq => ?_
      obtain ⟨-, rfl⟩ := Phase.timer.inj heq
      exact ⟨(hdue r List.mem_cons_self).2.symm, fun x hx => hdue x (List.mem_cons_of_mem _ hx)⟩
    · intro hrun x _ n _
      refine ⟨t, hb.foremost.resolve_right fun hoff => ?_, Or.inl ?_⟩
      · have hon : s.running = true := hrun
        rw [hon] at hoff
        cases hoff
      · show (((s.noted r).setTask t _).task t).onTimer = true
        simp [CronService.setTask, Task.onTimer, Task.work]

end Bodies

end MiqroForge.Cron
