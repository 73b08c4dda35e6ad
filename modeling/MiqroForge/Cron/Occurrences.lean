import MiqroForge.Cron.Execution
import Mathlib.Data.List.Nodup

/-!
How often a due occurrence of a job is executed.

* `once_per_occurrence`: as long as no call and no ended `run_job` arms the timer while it executes
  jobs, no job is begun while it is executed or about to be, and no due job is enabled again, no
  execution is cancelled but by `stop`, none overlaps one of its own job, and every occurrence that
  comes due is begun once, unless the job is removed or disabled before.
-/

namespace MiqroForge.Cron

open CronService CronService List

/-! ## The condition -/

/-- Some task executes the job or is about to. -/
def CronService.busy (s : CronService) (r : Nat) : Bool :=
  (List.range s.tasks).any fun t => (s.task t).jobs.contains r

def Event.good (env : Env) (s : CronService) : Event → Bool
  | .fire _ => s.dueJobs.all fun r => !s.busy r
  | .bodyEnds t _ =>
    match (s.task t).phase with
    | .manual e => s.quiet && (s.due e.job).all fun n => e.occurrence == some n
    | _ => true
  | .addJob _ schedule _ => !valid env schedule || s.quiet
  | .removeJob id => (s.find id).isNone || s.quiet
  | .enableJob id enabled =>
    (s.find id).all fun r => s.quiet && (!enabled || (s.due r).isNone)
  | .runJob id force =>
    (s.find id).all fun r => (!force && !(s.job r).enabled) || !s.busy r
  | _ => true

/-- What is asked of the service. -/
structure Orderly (s : CronService) : Prop where
  cancelled : ∀ c ∈ s.cancelled, c.2 = .stopped
  apart : ∀ t t' e e', (s.task t).current = some e → (s.task t').current = some e' →
    e.job = e'.job → t = t'
  once : s.running = true → s.started.Nodup
  /-- A due occurrence of a job was begun, or it was withdrawn, or the timer comes to it. -/
  attended : s.running = true → ∀ o ∈ s.cameDue, o ∈ s.started ∨ o ∈ s.withdrawn ∨
    (o.1 ∈ s.dueJobs ∧ s.due o.1 = some o.2 ∧ ∃ t, s.timerTask = some t ∧
      ((s.task t).onTimer = true ∨ ∃ wake, s.task t = ⟨.sleeping wake, none⟩ ∧ wake ≤ s.now))

theorem Inv.orderly {s : CronService} (h : Inv s) (htime : s.running = true → OnTime s)
    (hawake : Awake s) : Orderly s := by
  refine ⟨h.cancelled, fun t t' e e' he he' hsame => ?_, fun hrun => (htime hrun).once,
    fun hrun o ho => ?_⟩
  · refine h.apart t t' e.job ?_ ?_
    · simp [Task.jobs, he]
    · simp [Task.jobs, he', hsame]
  · rcases (htime hrun).pending o ho with hstarted | hwithdrawn | ⟨hjob, hdue⟩
    · exact Or.inl hstarted
    · exact Or.inr (Or.inl hwithdrawn)
    · obtain ⟨hwake, hle⟩ := Option.filter_eq_some_iff.mp hdue
      obtain ⟨t, ht, htimer⟩ := hawake hrun o.1 hjob o.2 hwake
      rw [Int.max_eq_right (of_decide_eq_true hle)] at htimer
      refine Or.inr (Or.inr ⟨mem_filter.mpr ⟨hjob, ?_⟩, hdue, t, ht, htimer⟩)
      rw [hdue]
      rfl

/-! ## The steps -/

section Steps
variable {env : Env} {s s' : CronService} {e : Execution} {t r : Nat}

theorem not_onTimer_of_quiet (h : Inv s) (hquiet : s.quiet = true) (hrun : s.running = true)
    (t : Nat) : (s.task t).onTimer = false := by
  cases hon : (s.task t).onTimer with
  | false => rfl
  | true =>
    rcases h.foremost t hon with ht | hoff
    · rw [quiet, ht, Option.all_some, hon] at hquiet
      cases hquiet
    · rw [hrun] at hoff
      cases hoff

theorem task_lt (h : Inv s) {task : Task} (ht : s.task t = task) (hne : task ≠ {}) :
    t < s.tasks := by
  by_contra hle
  exact hne (ht.symm.trans (h.fresh t (Nat.le_of_not_lt hle)))

theorem not_busy (h : Inv s) (hbusy : s.busy r = false) (u : Nat) : r ∉ (s.task u).jobs := by
  intro hr
  have hlt : u < s.tasks := by
    by_contra hle
    rw [h.fresh u (Nat.le_of_not_lt hle)] at hr
    cases hr
  rw [busy, any_eq_false] at hbusy
  exact hbusy u (mem_range.mpr hlt) (contains_iff_mem.mpr hr)

theorem executeDue_done (s : CronService) (t : Nat) (rs : List Nat) :
    (s.setTask t { s.task t with phase := .done }).executeDue t rs = s.executeDue t rs := by
  cases rs with
  | nil => simp [executeDue, setTask]
  | cons r rest =>
    simp only [executeDue, setTask, noted, due, execution,
      Function.update_self, Function.update_idem]
    rfl

theorem Held.finish (h : Held s) (hc : Completed s e s') (ht : (s.task t).current = some e)
    {task : Task} (hphase : task.phase = .done)
    (hown : s.running = true → ∀ n, s.due e.job = some n → e.occurrence = some n) :
    Held (s'.setTask t task) := by
  have hi := h.inv.complete hc
  have hwork : task.work = .done := by rw [Task.work, hphase]
  have hself : (s'.setTask t task).task t = task := by simp [CronService.setTask]
  have hother : ∀ u, u ≠ t → (s'.setTask t task).task u = s'.task u := by
    intro u hu
    simp [CronService.setTask, hu]
  have hon : ∀ u, ((s'.setTask t task).task u).onTimer = true → u ≠ t := by
    rintro u hu rfl
    rw [hself, (idle_jobs hwork).2.2.2] at hu
    cases hu
  have hlt : t < s'.tasks := by
    rw [hc.tasks]
    refine task_lt h.inv rfl fun heq => ?_
    rw [heq] at ht
    cases ht
  refine ⟨hi.retask rfl rfl rfl hi.cancelled (fun u => ?_) (fun u hu => ?_) hi.timer
    (fun u c hu hc => ?_) (fun u hu => ?_) hi.halted fun u wake hsleep => ?_,
    fun hrun => ?_⟩
  · by_cases hut : u = t
    · subst hut
      rw [hself]
      exact Or.inr (idle_jobs hwork).2.2.1
    · rw [hother u hut]
      exact Or.inl rfl
  · have hut : u ≠ t := fun heq => by
      have hle : s'.tasks ≤ u := hu
      omega
    exact (hother u hut).trans (hi.fresh u hu)
  · have heq := hother u (hon u hu)
    exact hi.flagged u c (heq ▸ hu) (heq ▸ hc)
  · exact hi.foremost u (hother u (hon u hu) ▸ hu)
  · refine hi.lone u wake ?_
    by_cases hut : u = t
    · subst hut
      rw [← hself, hsleep] at hphase
      cases hphase
    · exact (hother u hut).symm.trans hsleep
  · have hrun' : s.running = true := hc.running ▸ hrun
    exact (h.onTime hrun').complete h.inv hc ht hwork (hown hrun')

theorem advance_held (h : Held s) (hawake : Awake s) (ms : Nat) :
    Held { s with now := s.now + ms, cameDue := s.cameDue ++ s.comingDue ms } ∧
      Awake { s with now := s.now + ms, cameDue := s.cameDue ++ s.comingDue ms } := by
  have hi := h.inv
  refine ⟨⟨⟨hi.known, hi.nodup, hi.ids, hi.fresh, hi.timer, hi.held, hi.own, hi.apart, hi.flagged,
    hi.foremost, hi.halted, hi.lone, hi.cancelled⟩, fun hrun => ?_⟩, fun hrun r hr n hn => ?_⟩
  · have ho := h.onTime hrun
    have hdue : ∀ r n, s.due r = some n → due
        { s with now := s.now + ms, cameDue := s.cameDue ++ s.comingDue ms } r = some n := by
      intro r n hd
      obtain ⟨hwake, hle⟩ := Option.filter_eq_some_iff.mp hd
      have hle' := of_decide_eq_true hle
      refine Option.filter_eq_some_iff.mpr ⟨hwake, decide_eq_true ?_⟩
      show n ≤ s.now + ms
      omega
    refine ⟨fun o hs => ?_, ho.once, ho.replaced, ho.logged, fun t e rest hphase => ?_,
      fun o hc => ?_⟩
    · have hpast := ho.past o hs
      refine ⟨hpast.1, ?_⟩
      show o.2 ≤ s.now + ms
      omega
    · obtain ⟨hcurrent, hrest⟩ := ho.taken t e rest hphase
      refine ⟨hcurrent, fun r hr => ⟨(hrest r hr).1, ?_⟩⟩
      have hd := (hrest r hr).2
      show _ = (s.job r).wake
      cases hw : (s.job r).wake with
      | none => simp only [due, hw, Option.filter_none]
      | some n => exact hdue r n (hd.trans hw)
    · rcases mem_append.mp hc with hc | hc
      · exact (ho.pending o hc).imp_right fun hp => hp.imp_right fun hp => ⟨hp.1, hdue _ _ hp.2⟩
      · obtain ⟨r, hr, hmap⟩ := mem_filterMap.mp hc
        obtain ⟨n, hn, rfl⟩ := Option.map_eq_some_iff.mp hmap
        obtain ⟨hwake, hcoming⟩ := Option.filter_eq_some_iff.mp hn
        refine Or.inr (Or.inr ⟨hr, Option.filter_eq_some_iff.mpr ⟨hwake, decide_eq_true ?_⟩⟩)
        exact (of_decide_eq_true hcoming).2
  · obtain ⟨t, ht, hon | ⟨wake, hsleep, hle⟩⟩ := hawake hrun r hr n hn
    · exact ⟨t, ht, Or.inl hon⟩
    · refine ⟨t, ht, Or.inr ⟨wake, hsleep, ?_⟩⟩
      show wake ≤ max n (s.now + ms)
      omega

theorem fire_held (h : Held s) {wake : Int} (ht : s.task t = ⟨.sleeping wake, none⟩)
    (hgood : (s.dueJobs.all fun r => !s.busy r) = true) :
    Held (s.executeDue t s.dueJobs) ∧ Awake (s.executeDue t s.dueJobs) := by
  have hmem : ∀ r ∈ s.dueJobs, r ∈ s.jobs ∧ (s.due r).isSome = true :=
    fun r hr => mem_filter.mp hr
  refine h.executeDue ⟨by rw [ht]; rfl, task_lt h.inv ht (by simp), h.inv.nodup.filter _,
    fun r hr => h.inv.known r (hmem r hr).1, fun r hr => ?_, fun cause hc => ?_,
    Or.inl (h.inv.lone t wake ht), fun _ r hr => ⟨(hmem r hr).1, ?_⟩⟩
  · have hfree := all_eq_true.mp hgood r hr
    rw [Bool.not_eq_true'] at hfree
    exact not_busy h.inv hfree
  · rw [ht] at hc
    cases hc
  · obtain ⟨n, hn⟩ := Option.isSome_iff_exists.mp (hmem r hr).2
    rw [hn, (Option.filter_eq_some_iff.mp hn).1]

theorem timer_ends (h : Held s) {rest : List Nat} (ht : (s.task t).phase = .timer e rest)
    (hc : Completed s e s') :
    Held (s'.executeDue t rest) ∧ Awake (s'.executeDue t rest) := by
  have hwork : (s.task t).work = .timer e rest := by rw [Task.work, ht]
  have hcurrent : (s.task t).current = some e := by rw [Task.current, hwork]
  have hjobs : (s.task t).jobs = e.job :: rest := by
    rw [Task.jobs, hcurrent, Task.rest, hwork]
    rfl
  have hon : (s.task t).onTimer = true := by rw [Task.onTimer, hwork]
  have hown := h.inv.own t
  rw [hjobs] at hown
  obtain ⟨hnot, hnodup⟩ := nodup_cons.mp hown
  have hne : ∀ r ∈ rest, r ≠ e.job := fun r hr heq => hnot (heq ▸ hr)
  have hin : ∀ r ∈ rest, r ∈ (s.task t).jobs := fun r hr => by
    rw [hjobs]
    exact mem_cons_of_mem _ hr
  have hheld : Held (s'.setTask t { s'.task t with phase := .done }) := by
    refine h.finish hc hcurrent rfl fun hrun n hn => ?_
    rw [← ((h.onTime hrun).taken t e rest hwork).1]
    exact (Option.filter_eq_some_iff.mp hn).1
  rw [← executeDue_done]
  refine hheld.executeDue ⟨?_, ?_, hnodup, fun r hr => ?_, fun r hr u hu => ?_, fun cause hcause => ?_,
    ?_, fun hrun r hr => ?_⟩
  · simp [setTask, Task.work]
  · show t < s'.tasks
    rw [hc.tasks]
    refine task_lt h.inv rfl fun heq => ?_
    rw [heq] at ht
    cases ht
  · show r < s'.created
    rw [hc.created]
    exact h.inv.held t r (hin r hr)
  · by_cases hut : u = t
    · subst hut
      simp [setTask, Task.jobs, Task.current, Task.rest, Task.work] at hu
    · simp only [setTask, ne_eq, hut, not_false_eq_true, Function.update_of_ne,
        hc.task] at hu
      exact hut (h.inv.apart u t r hu (hin r hr))
  · have hcause' : (s.task t).cancel = some cause := by
      simpa [setTask, hc.task] using hcause
    have hflag := h.inv.flagged t cause hon hcause'
    exact ⟨hflag.1, hc.running.trans hflag.2⟩
  · show s'.timerTask = some t ∨ s'.running = false
    rw [hc.timerTask, hc.running]
    exact h.inv.foremost t hon
  · have hrun' : s.running = true := hc.running ▸ hrun
    have htaken := ((h.onTime hrun').taken t e rest hwork).2 r hr
    refine ⟨hc.keeps r htaken.1 (hne r hr), ?_⟩
    show s'.due r = (s'.job r).wake
    rw [due, hc.other r (hne r hr), hc.now]
    exact htaken.2

theorem manual_ends (h : Held s) (ht : (s.task t).phase = .manual e) (hc : Completed s e s')
    (hquiet : s.quiet = true) (hown : ∀ n, s.due e.job = some n → e.occurrence = some n) :
    Held (s'.setTask t {}).armTimer ∧ Awake (s'.setTask t {}).armTimer := by
  have hcurrent : (s.task t).current = some e := by rw [Task.current, Task.work, ht]
  refine (h.finish hc hcurrent rfl fun _ => hown).armTimer ?_
  rw [quiet] at hquiet ⊢
  show s'.timerTask.all _ = true
  rw [hc.timerTask]
  refine (Option.all_eq_true _ _).mpr fun u hu => ?_
  have hsame := (Option.all_eq_true _ _).mp hquiet u hu
  by_cases hut : u = t
  · subst hut
    simp [setTask, Task.onTimer, Task.work]
  · simpa [setTask, hut, hc.task] using hsame

theorem cancelled_held (h : Held s) (hawake : Awake s) {v : CronService}
    (hstep : step env s (.cancelled t) = some v) : Held v ∧ Awake v := by
  unfold step at hstep
  simp only at hstep
  split at hstep
  case h_1 cause wake hc hp =>
    cases hstep
    have hidle : (s.task t).work = .done := by rw [Task.work, hp]
    have hlt : t < s.tasks := task_lt h.inv rfl fun heq => by
      rw [heq] at hp
      cases hp
    refine ⟨h.setTask hlt rfl hidle, fun hrun r hr n hn => ?_⟩
    obtain ⟨u, hu, htimer⟩ := hawake hrun r hr n hn
    have hut : u ≠ t := by
      rintro rfl
      rcases htimer with hon | ⟨_, hsleep, -⟩
      · rw [(idle_jobs hidle).2.2.2] at hon
        cases hon
      · rw [hsleep] at hc
        cases hc
    have hsame : (s.setTask t {}).task u = s.task u := by simp [setTask, hut]
    exact ⟨u, hu, hsame.symm ▸ htimer⟩
  case h_2 cause e rest hc hp =>
    cases hstep
    have hwork : (s.task t).work = .timer e rest := by rw [Task.work, hp]
    obtain ⟨rfl, hoff⟩ := h.inv.flagged t cause (by rw [Task.onTimer, hwork]) hc
    have hi := h.inv
    have hother : ∀ u, u ≠ t → (s.setTask t {}).task u = s.task u := by
      intro u hu
      simp [setTask, hu]
    have hself : (s.setTask t {}).task t = {} := by simp [setTask]
    have hsub : ∀ u, (s.setTask t {}).task u = s.task u ∨ (s.setTask t {}).task u = {} := by
      intro u
      by_cases hut : u = t
      · rw [hut, hself]
        exact Or.inr rfl
      · exact Or.inl (hother u hut)
    have hnot : ∀ p : s.running = true, False := fun p => by
      rw [hoff] at p
      cases p
    refine ⟨⟨hi.retask rfl rfl rfl (fun c hin => ?_) (fun u => ?_) (fun u hu => ?_) hi.timer
      (fun u c hu hc => ?_) (fun u _ => Or.inr hoff) hi.halted fun u wake hsleep => ?_,
      fun hrun => (hnot hrun).elim⟩, fun hrun => (hnot hrun).elim⟩
    · rcases mem_append.mp hin with hin | hin
      · exact hi.cancelled c hin
      · rw [mem_singleton.mp hin]
    · rcases hsub u with heq | heq
      · exact Or.inl (congrArg Task.work heq)
      · exact Or.inr (congrArg Task.jobs heq)
    · rcases hsub u with heq | heq
      · exact heq.trans (hi.fresh u hu)
      · exact heq
    · rcases hsub u with heq | heq
      · exact hi.flagged u c (heq ▸ hu) (heq ▸ hc)
      · have hnone : ({} : Task).cancel = some c := heq ▸ hc
        cases hnone
    · rcases hsub u with heq | heq
      · exact hi.lone u wake (heq.symm.trans hsleep)
      · have hsame : ({} : Task) = ⟨.sleeping wake, none⟩ := heq.symm.trans hsleep
        cases hsame
  case h_3 => cases hstep

theorem manual_begins (h : Held s) (hawake : Awake s) (hr : r ∈ s.jobs)
    (hbusy : s.busy r = false) :
    Held { (s.noted r).setTask s.tasks { phase := .manual (s.execution r) } with
      tasks := s.tasks + 1 } ∧
    Awake { (s.noted r).setTask s.tasks { phase := .manual (s.execution r) } with
      tasks := s.tasks + 1 } := by
  have hidle : (s.task s.tasks).work = .done := by
    rw [h.inv.fresh s.tasks (Nat.le_refl _)]
    rfl
  have hknown := h.inv.known r hr
  have hfree := not_busy h.inv hbusy
  have hjobs : ({ phase := .manual (s.execution r) } : Task).jobs = [r] := rfl
  refine ⟨⟨h.inv.begin hidle hjobs (pairwise_singleton _ _) (fun x hx => ?_)
    (fun x hx => ?_) (Nat.le_succ _) (Nat.lt_succ_self _) (fun cause hon => ?_) fun hon => ?_,
    fun hrun => ?_⟩, fun hrun x hx n hn => ?_⟩
  · rw [mem_singleton.mp hx]
    exact hknown
  · rw [mem_singleton.mp hx]
    exact hfree
  · cases hon
  · cases hon
  · refine (h.onTime hrun).begin hidle rfl hr hknown hfree fun e rest heq => ?_
    cases heq
  · obtain ⟨u, hu, htimer⟩ := hawake hrun x hx n hn
    have hut : u ≠ s.tasks := Nat.ne_of_lt (h.inv.timer u hu)
    refine ⟨u, hu, ?_⟩
    have hsame : ((s.noted r).setTask s.tasks { phase := .manual (s.execution r) }).task u =
        s.task u := by
      simp [setTask, noted, hut]
    exact hsame.symm ▸ htimer

theorem stop_held (h : Held s) : Held (stop s) ∧ Awake (stop s) := by
  have hk := cancelTimer_kept s .stopped
  have hi := h.inv
  refine ⟨⟨hi.retask hk.jobs hk.created hk.job (hk.cancelled ▸ hi.cancelled)
    (fun u => Or.inl (hk.work u)) (fun u hu => ?_) (fun u hu => ?_) (fun u c hu hc => ?_)
    (fun u _ => Or.inr rfl) (fun _ => rfl)
    fun u wake hsleep => absurd hsleep (cancelTimer_flags hi .stopped u wake), fun hrun => ?_⟩,
    fun hrun => ?_⟩
  · have hu' : s.tasks ≤ u := (cancelTimer_timer s .stopped).2 ▸ hu
    show (s.cancelTimer .stopped).task u = {}
    rw [cancelTimer_task, hi.fresh u hu']
    split <;> rfl
  · cases hu
  · refine ⟨?_, rfl⟩
    have hon : (s.task u).onTimer = true := work_onTimer (hk.work u) ▸ hu
    have hc' : ((s.cancelTimer .stopped).task u).cancel = some c := hc
    rw [cancelTimer_task] at hc'
    cases hcancel : (s.task u).cancel with
    | some c' =>
      obtain ⟨rfl, -⟩ := hi.flagged u c' hon hcancel
      split at hc'
      case isTrue =>
        unfold Task.request at hc'
        split at hc'
        case isTrue => exact Option.some.inj (hc'.symm.trans hcancel)
        case isFalse =>
          rw [hcancel] at hc'
          exact (Option.some.inj hc').symm
      case isFalse => exact Option.some.inj (hc'.symm.trans hcancel)
    | none =>
      split at hc'
      case isTrue =>
        unfold Task.request at hc'
        split at hc'
        case isTrue =>
          rw [hcancel] at hc'
          cases hc'
        case isFalse =>
          rw [hcancel] at hc'
          exact (Option.some.inj hc').symm
      case isFalse =>
        rw [hcancel] at hc'
        cases hc'
  · cases hrun
  · cases hrun

/-- Other jobs while the timer does not execute any: each is as before, or does not run before its
next occurrence, and the due occurrences of those that are not as before are withdrawn. -/
theorem Held.rejob (h : Held s) (hquiet : s.quiet = true) (job : Nat → CronJob) (created : Nat)
    (jobs : List Nat) (withdrawn : List (Nat × Int)) (hcreated : s.created ≤ created)
    (hknown : ∀ r ∈ jobs, r < created) (hnodup : jobs.Nodup)
    (hids : ∀ r r', r < created → r' < created → (job r).id = (job r').id → r = r')
    (hjob : ∀ r ∈ jobs, (r ∈ s.jobs ∧ job r = s.job r) ∨
      ∀ n, (job r).wake = some n → s.now < n)
    (hpending : ∀ r n, r ∈ s.jobs → s.due r = some n →
      (r, n) ∈ withdrawn ∨ (r ∈ jobs ∧ job r = s.job r)) :
    Held { s with job, created, jobs, withdrawn := s.withdrawn ++ withdrawn } := by
  have hi := h.inv
  refine ⟨⟨hknown, hnodup, hids, hi.fresh, hi.timer, fun u r hr =>
    Nat.lt_of_lt_of_le (hi.held u r hr) hcreated, hi.own, hi.apart, hi.flagged, hi.foremost,
    hi.halted, hi.lone, hi.cancelled⟩, fun hrun => ?_⟩
  have ho := h.onTime hrun
  refine ⟨fun o hs => ⟨Nat.lt_of_lt_of_le (ho.past o hs).1 hcreated, (ho.past o hs).2⟩, ho.once,
    fun r n hs hwake hr => ?_, ho.logged, fun u e rest hphase => ?_, fun o hc => ?_⟩
  · rcases hjob r hr with ⟨hin, hsame⟩ | hlater
    · exact ho.replaced r n hs (hsame ▸ hwake) hin
    · have hpast : n ≤ s.now := (ho.past _ hs).2
      have hnew := hlater n hwake
      omega
  · have hcalm := not_onTimer_of_quiet hi hquiet hrun u
    have hon : (s.task u).onTimer = true := by
      rw [Task.onTimer, show (s.task u).work = .timer e rest from hphase]
    rw [hcalm] at hon
    cases hon
  · rcases ho.pending o hc with hs | hw | ⟨hin, hdue⟩
    · exact Or.inl hs
    · exact Or.inr (Or.inl (mem_append_left _ hw))
    · rcases hpending o.1 o.2 hin hdue with hw | ⟨hkept, hsame⟩
      · exact Or.inr (Or.inl (mem_append_right _ hw))
      · refine Or.inr (Or.inr ⟨hkept, ?_⟩)
        show (job o.1).wake.filter _ = some o.2
        rw [hsame]
        exact hdue

theorem addJob_held (hlaw : env.Lawful) (h : Held s) (hawake : Awake s) {id : String}
    {schedule : CronSchedule} (deleteAfterRun : Bool) (hnew : ∀ r < s.created, (s.job r).id ≠ id)
    (hgood : (!valid env schedule || s.quiet) = true) :
    Held (addJob env s id schedule deleteAfterRun) ∧
      Awake (addJob env s id schedule deleteAfterRun) := by
  unfold addJob
  split
  case isFalse => exact ⟨h, hawake⟩
  case isTrue hvalid =>
    rw [hvalid, Bool.not_true, Bool.false_or] at hgood
    have hi := h.inv
    have hother : ∀ job r, r < s.created → (s.setJob s.created job).job r = s.job r := by
      intro job r hr
      simp [setJob, Nat.ne_of_lt hr]
    have hself : ∀ job, (s.setJob s.created job).job s.created = job := by
      intro job
      simp [setJob]
    have hadded := h.rejob hgood (s.setJob s.created (newJob env s.now id schedule
      deleteAfterRun)).job (s.created + 1) (s.jobs ++ [s.created]) [] (Nat.le_succ _)
      (fun r hr => ?_) ?_
      (fun r r' hr hr' hid => ?_) (fun r hr => ?_) fun r n hr _ => Or.inr ⟨?_, ?_⟩
    · rw [append_nil] at hadded
      exact hadded.armTimer hgood
    · rcases mem_append.mp hr with hr | hr
      · exact Nat.lt_succ_of_lt (hi.known r hr)
      · rw [mem_singleton.mp hr]
        exact Nat.lt_succ_self _
    · refine nodup_append.mpr ⟨hi.nodup, pairwise_singleton _ _, fun r hr r' hr' => ?_⟩
      rw [mem_singleton.mp hr']
      exact Nat.ne_of_lt (hi.known r hr)
    · rcases Nat.lt_succ_iff_lt_or_eq.mp hr with hr | rfl
      · rcases Nat.lt_succ_iff_lt_or_eq.mp hr' with hr' | rfl
        · rw [hother _ r hr, hother _ r' hr'] at hid
          exact hi.ids r r' hr hr' hid
        · rw [hother _ r hr, hself] at hid
          exact absurd hid (hnew r hr)
      · rcases Nat.lt_succ_iff_lt_or_eq.mp hr' with hr' | rfl
        · rw [hother _ r' hr', hself] at hid
          exact absurd hid.symm (hnew r' hr')
        · rfl
    · rcases mem_append.mp hr with hr | hr
      · exact Or.inl ⟨hr, hother _ r (hi.known r hr)⟩
      · refine Or.inr fun n hn => ?_
        rw [mem_singleton.mp hr, hself] at hn
        have hnext : computeNextRun env schedule s.now none = some n := (wake_next hn).2
        exact computeNextRun_later hlaw hnext
    · exact mem_append_left _ hr
    · exact hother _ r (hi.known r hr)

theorem removeJob_held (h : Held s) (hawake : Awake s) {id : String}
    (hgood : ((s.find id).isNone || s.quiet) = true) :
    Held (removeJob s id) ∧ Awake (removeJob s id) := by
  unfold removeJob
  simp only
  split
  case isFalse => exact ⟨h, hawake⟩
  case isTrue hless =>
    have hquiet : s.quiet = true := by
      refine (Bool.or_eq_true_iff.mp hgood).resolve_left fun hnone => ?_
      rw [Option.isNone_iff_eq_none, find, find?_eq_none] at hnone
      have hall : s.jobs.filter (fun r => (s.job r).id != id) = s.jobs :=
        filter_eq_self.mpr fun r hr => by
          rw [bne, Bool.not_eq_true']
          exact Bool.eq_false_iff.mpr (hnone r hr)
      rw [hall] at hless
      omega
    have hi := h.inv
    have hkept := h.rejob hquiet s.job s.created (s.jobs.filter fun r => (s.job r).id != id)
      (s.dueOf (s.jobs.filter fun r => (s.job r).id == id)) (Nat.le_refl _)
      (fun r hr => hi.known r (mem_filter.mp hr).1) (hi.nodup.filter _) hi.ids
      (fun r hr => Or.inl ⟨(mem_filter.mp hr).1, rfl⟩) fun r n hr hn => ?_
    · exact hkept.armTimer hquiet
    · by_cases hid : (s.job r).id = id
      · refine Or.inl (mem_filterMap.mpr ⟨r, mem_filter.mpr ⟨hr, ?_⟩, ?_⟩)
        · exact beq_iff_eq.mpr hid
        · rw [hn]
          rfl
      · exact Or.inr ⟨mem_filter.mpr ⟨hr, bne_iff_ne.mpr hid⟩, rfl⟩

theorem enableJob_held (hlaw : env.Lawful) (h : Held s) (hawake : Awake s) {id : String}
    {enabled : Bool} (hgood : ((s.find id).all fun r =>
      s.quiet && (!enabled || (s.due r).isNone)) = true) :
    Held (enableJob env s id enabled) ∧ Awake (enableJob env s id enabled) := by
  unfold enableJob
  cases hfind : s.find id with
  | none => exact ⟨h, hawake⟩
  | some r =>
    rw [hfind, Option.all_some, Bool.and_eq_true] at hgood
    obtain ⟨hquiet, hdue⟩ := hgood
    have hi := h.inv
    have hr : r ∈ s.jobs := mem_of_find?_eq_some hfind
    have hother : ∀ job x, x ≠ r → (s.setJob r job).job x = s.job x := by
      intro job x hx
      simp [setJob, hx]
    have hself : ∀ job, (s.setJob r job).job r = job := by
      intro job
      simp [setJob]
    have hid : ∀ job : CronJob, job.id = (s.job r).id → ∀ x x', x < s.created → x' < s.created →
        ((s.setJob r job).job x).id = ((s.setJob r job).job x').id → x = x' := by
      intro job hjob x x' hx hx' heq
      have hsame : ∀ y, ((s.setJob r job).job y).id = (s.job y).id := by
        intro y
        by_cases hy : y = r
        · rw [hy, hself, hjob]
        · rw [hother _ y hy]
      rw [hsame, hsame] at heq
      exact hi.ids x x' hx hx' heq
    simp only
    cases enabled with
    | true =>
      rw [Bool.not_true, Bool.false_or, Option.isNone_iff_eq_none] at hdue
      have hnew := h.rejob hquiet (s.setJob r { s.job r with
        enabled := true
        nextRunAtMs := computeNextRun env (s.job r).schedule s.now none }).job s.created s.jobs []
        (Nat.le_refl _) hi.known hi.nodup (hid _ rfl) (fun x hx => ?_) fun x n hx hn => Or.inr ⟨hx, ?_⟩
      · rw [append_nil] at hnew
        exact hnew.armTimer hquiet
      · by_cases hxr : x = r
        · refine Or.inr fun n hn => ?_
          rw [hxr, hself] at hn
          have hnext : computeNextRun env (s.job r).schedule s.now none = some n := (wake_next hn).2
          exact computeNextRun_later hlaw hnext
        · exact Or.inl ⟨hx, hother _ x hxr⟩
      · refine hother _ x fun hxr => ?_
        rw [hxr, hdue] at hn
        cases hn
    | false =>
      have hnew := h.rejob hquiet
        (s.setJob r { s.job r with enabled := false, nextRunAtMs := none }).job s.created s.jobs
        (s.dueOf [r]) (Nat.le_refl _) hi.known hi.nodup (hid _ rfl) (fun x hx => ?_) fun x n hx hn => ?_
      · exact hnew.armTimer hquiet
      · by_cases hxr : x = r
        · refine Or.inr fun n hn => ?_
          rw [hxr, hself] at hn
          cases hn
        · exact Or.inl ⟨hx, hother _ x hxr⟩
      · by_cases hxr : x = r
        · refine Or.inl (mem_filterMap.mpr ⟨r, mem_singleton_self r, ?_⟩)
          rw [← hxr, hn]
          rfl
        · exact Or.inr ⟨hx, hother _ x hxr⟩

/-- **Step.** A good event keeps the invariants. -/
theorem step_held (hlaw : env.Lawful) {event : Event} {v : CronService} (h : Held s)
    (hawake : Awake s) (hgood : event.good env s = true) (hstep : step env s event = some v) :
    Held v ∧ Awake v := by
  cases event with
  | advance ms =>
    cases hstep
    exact advance_held h hawake ms
  | fire t =>
    unfold step at hstep
    simp only at hstep
    split at hstep
    case h_1 wake ht =>
      split at hstep
      case isTrue =>
        split at hstep
        case isTrue =>
          cases hstep
          exact fire_held h ht hgood
        case isFalse hoff =>
          have hrun : s.running = true := by
            by_contra hrun
            have hnone := h.inv.halted (Bool.not_eq_true _ ▸ hrun)
            rw [h.inv.lone t wake ht] at hnone
            cases hnone
          exact absurd hrun hoff
      case isFalse => cases hstep
    case h_2 => cases hstep
  | bodyEnds t outcome =>
    unfold step at hstep
    simp only at hstep
    have hcompleted : ∀ e, (s.task t).current = some e →
        Completed s e (s.complete env e outcome) := fun e he => by
      refine complete_spec hlaw h.inv (h.inv.held t e.job ?_) outcome
      simp [Task.jobs, he]
    split at hstep
    case h_1 e rest ht =>
      split at hstep
      case isTrue =>
        cases hstep
        exact timer_ends h ht (hcompleted e (by rw [Task.current, Task.work, ht]))
      case isFalse => cases hstep
    case h_2 e ht =>
      split at hstep
      case isTrue =>
        cases hstep
        simp only [Event.good, ht, Bool.and_eq_true] at hgood
        refine manual_ends h ht (hcompleted e (by rw [Task.current, Task.work, ht])) hgood.1
          fun n hn => ?_
        exact beq_iff_eq.mp ((Option.all_eq_true _ _).mp hgood.2 n hn)
      case isFalse => cases hstep
    case h_3 => cases hstep
  | cancelled t => exact cancelled_held h hawake hstep
  | addJob id schedule deleteAfterRun =>
    unfold step at hstep
    simp only at hstep
    split at hstep
    case isTrue => cases hstep
    case isFalse hnew =>
      cases hstep
      refine addJob_held hlaw h hawake deleteAfterRun (fun r hr heq => hnew ?_) hgood
      exact any_eq_true.mpr ⟨r, mem_range.mpr hr, beq_iff_eq.mpr heq⟩
  | removeJob id =>
    cases hstep
    exact removeJob_held h hawake hgood
  | enableJob id enabled =>
    cases hstep
    exact enableJob_held hlaw h hawake hgood
  | runJob id force =>
    cases hstep
    unfold runJob
    cases hfind : s.find id with
    | none => exact ⟨h, hawake⟩
    | some r =>
      simp only [Event.good, hfind, Option.all_some] at hgood
      simp only
      split
      case isTrue => exact ⟨h, hawake⟩
      case isFalse hforce =>
        have hbusy := (Bool.or_eq_true_iff.mp hgood).resolve_left hforce
        rw [Bool.not_eq_true'] at hbusy
        exact manual_begins h hawake (mem_of_find?_eq_some hfind) hbusy
  | stop =>
    cases hstep
    exact stop_held h

end Steps

/-! ## Runs -/

theorem loaded_job (env : Env) (now : Int) {jobs : List CronJob} {r : Nat} (hr : r < jobs.length) :
    (loaded env now jobs).job r = recomputed env now jobs[r] := by
  show ((jobs.map (recomputed env now))[r]?).getD _ = _
  rw [getElem?_map, getElem?_eq_getElem hr, Option.map_some, Option.getD_some]

theorem recomputed_id (env : Env) (now : Int) (job : CronJob) :
    (recomputed env now job).id = job.id := by
  unfold recomputed
  split <;> rfl

theorem loaded_held (env : Env) (now : Int) {jobs : List CronJob}
    (hids : (jobs.map (·.id)).Nodup) : Held (loaded env now jobs) := by
  refine ⟨⟨fun r hr => mem_range.mp hr, nodup_range, fun r r' hr hr' heq => ?_,
    fun _ _ => rfl, fun t ht => ?_, fun t r hr => ?_, fun t => nodup_nil,
    fun t t' r hr => ?_, fun t c hon => ?_, fun t hon => ?_, fun hoff => ?_,
    fun t wake hsleep => ?_, forall_mem_nil _⟩, fun _ => ⟨forall_mem_nil _,
    nodup_nil, fun r n hr => ?_, fun t e he => ?_, fun t e rest hphase => ?_,
    forall_mem_nil _⟩⟩
  · rw [loaded_job env now hr, loaded_job env now hr', recomputed_id, recomputed_id] at heq
    have hlt : r < (jobs.map (·.id)).length := by
      rw [length_map]
      exact hr
    refine (getElem?_inj hlt hids).mp ?_
    rw [getElem?_map, getElem?_map, getElem?_eq_getElem hr,
      getElem?_eq_getElem hr', Option.map_some, Option.map_some, heq]
  · cases ht
  · cases hr
  · cases hr
  · cases hon
  · cases hon
  · cases hoff
  · cases hsleep
  · cases hr
  · cases he
  · cases hphase

/-- **Occurrences.** In a run of good events of a started service every state is orderly. -/
theorem once_per_occurrence (env : Env) (hlaw : env.Lawful) (now : Int) (jobs : List CronJob)
    (hids : (jobs.map (·.id)).Nodup) (events : List Event) (s : CronService)
    (hrun : Steps.run (step env) (start env now jobs) events = some s)
    (hgood : Steps.GoodRun (step env) (fun s event => event.good env s = true)
      (start env now jobs) events) : Orderly s := by
  have hstart : Held (start env now jobs) ∧ Awake (start env now jobs) :=
    (loaded_held env now hids).armTimer rfl
  obtain ⟨hheld, hawake⟩ := Steps.goodRun_invariant (step env) _ (fun s => Held s ∧ Awake s)
    (fun s event v h hg hs => step_held hlaw h.1 h.2 hg hs) _ s events hstart hrun hgood
  exact hheld.inv.orderly hheld.onTime hawake

/-! ## Two jobs -/

/-- Without cron expressions. -/
def plainEnv : Env := ⟨fun _ _ _ => none, fun _ => false, 86400⟩

theorem plainEnv_lawful : plainEnv.Lawful := by
  intro expr tz now n h
  cases h

def everySecond (id : String) : CronJob :=
  { id, schedule := { kind := .every, everyMs := some 1000 } }

/-- A service with the jobs `a` and `b`, at time 1. -/
def twoJobs : CronService := start plainEnv 1 [everySecond "a", everySecond "b"]

/-- Both jobs come due, and a call adds a third one in between. -/
def twoRuns : List Event :=
  [.addJob "c" { kind := .at, atMs := some 5000 } true, .advance 1000, .fire 1, .bodyEnds 1 .ok,
    .advance 20, .bodyEnds 1 (.failed "no"), .runJob "a" false, .advance 100, .bodyEnds 3 .ok]

def behind (events : List Event) : CronService :=
  (Steps.run (step plainEnv) twoJobs events).getD twoJobs

theorem twoRuns_orderly : Orderly (behind twoRuns) := by
  have hrun : (Steps.run (step plainEnv) twoJobs twoRuns).isSome = true := by decide
  obtain ⟨s, hs⟩ := Option.isSome_iff_exists.mp hrun
  refine once_per_occurrence plainEnv plainEnv_lawful 1 [everySecond "a", everySecond "b"] ?_
    twoRuns _ ?_ ?_
  · decide
  · rw [behind, hs]
    exact hs
  · decide

/-- A body that adds a job is cancelled and begun again, a due job is begun by hand while the timer
executes it, and a due job that is enabled again is not executed. -/
theorem arming_not_orderly :
    ¬ Orderly (behind [.advance 1000, .fire 0,
      .addJob "c" { kind := .at, atMs := some 5000 } true, .cancelled 0, .fire 1]) ∧
    ¬ Orderly (behind [.advance 1000, .fire 0, .runJob "a" false]) ∧
    ¬ Orderly (behind [.advance 1000, .enableJob "a" true]) := by
  refine ⟨fun h => ?_, fun h => ?_, fun h => ?_⟩
  · have hcause := h.cancelled (0, .rearmed) (by decide)
    cases hcause
  · have hsame := h.apart 0 1 ⟨0, 1001, some 1001⟩ ⟨0, 1001, some 1001⟩ (by decide)
      (by decide) rfl
    cases hsame
  · rcases h.attended (by decide) (0, 1001) (by decide) with hs | hw | hd
    · exact absurd hs (by decide)
    · exact absurd hw (by decide)
    · exact absurd hd.1 (by decide)

end MiqroForge.Cron
