import MiqroForge.Store.Safety

/-!
Recovery of `RuntimeDb`. A recycle detaches the connection before it opens the next one, and
`_run_locked` tests for a missing connection before it tests the quarantine: as long as no
reopen fails the store recovers from every failure, and one failed reopen leaves it closed.
-/

namespace MiqroForge.Store

open Steps Function

section Recovery

variable {δ : Type}

/-- The reopen that a recycle waits for does not fail. -/
def ReopenSucceeds (s : State δ) : Event δ → Prop
  | .openFailed a => ∀ j why, s.job j ≠ .reopening why a
  | _ => True

def Event.isClose : Event δ → Bool
  | .callClose _ => true
  | _ => false

def Event.isOpen : Event δ → Bool
  | .callOpen => true
  | _ => false

/-- The steps that carry an operation to its body. -/
def Event.serves (j : Nat) : Event δ → Prop
  | .submit i | .acquire i | .closedOld i | .reopened i => i = j
  | .openDone _ => True
  | _ => False

/-- No operation was told that the store is closed, and a new one gets to its body, on an open
connection, which is a fresh one if the last was quarantined. -/
structure Recovers (s : State δ) : Prop where
  neverClosed : ∀ j, .refused j ∉ s.log
  serves : s.lock = none → ∀ j, s.job j = .absent → ∃ es t b c n, run step s es = some t ∧
    (∀ e ∈ es, e.serves j) ∧ t.job j = .executing b c n ∧ c ∉ t.closed ∧
    (s.dirty = true → s.nextConn ≤ c)

/-! ## While no reopen fails -/

/-- A job that waits for a reopen will find a connection. -/
def Reopens (attempts : Nat → Attempt) (db : Option Nat) : Job → Prop
  | .reopening _ a => attempts a = .running ∨ attempts a = .opened ∧ db.isSome
  | .executing _ _ _ => db.isSome
  | _ => True

structure Alive (s : State δ) : Prop where
  inv : Inv s
  closer : ∀ k, s.closer k = .absent
  db : s.lock = none → s.db.isSome
  reopens : ∀ j, Reopens s.attempts s.db (s.job j)
  refused : ∀ j, .refused j ∉ s.log

variable {s : State δ}

theorem reopens_of_idle {p : Job} (h : ¬ p.Holds) : Reopens s.attempts s.db p := by
  cases p <;> first | trivial | exact absurd trivial h

/-- What a turn of job `j` leaves behind. -/
structure Leaves (s t : State δ) (j : Nat) : Prop where
  closer : t.closer = s.closer
  refused : ∀ i, .refused i ∈ t.log → .refused i ∈ s.log
  others : ∀ i, i ≠ j → t.job i = s.job i
  db : t.lock = none → t.db.isSome
  reopens : Reopens t.attempts t.db (t.job j)

theorem leaves_leave (j : Nat) (hdb : s.db.isSome) : Leaves s (leave s j) j := by
  refine ⟨rfl, fun _ h => h, fun i hij => update_of_ne hij _ _, fun _ => hdb, ?_⟩
  simp [leave, Reopens]

theorem leaves_quarantined (j : Nat) (hdb : s.db.isSome) :
    Leaves s (leave (quarantine s) j) j := by
  refine ⟨rfl, fun _ h => h, fun i hij => update_of_ne hij _ _, fun _ => hdb, ?_⟩
  simp [leave, Reopens]

theorem leaves_enter (j : Nat) (replayed : Bool) (c : Nat) (hdb : s.db.isSome) :
    Leaves s (enter s j replayed c) j := by
  refine ⟨rfl, fun i h => ?_, fun i hij => update_of_ne hij _ _, fun _ => hdb, ?_⟩
  · simpa [enter] using h
  · simpa [enter, Reopens] using hdb

theorem leaves_resume (j : Nat) (why : Purpose) (hdb : s.db.isSome) :
    Leaves s (resume s j why) j := by
  obtain ⟨c, hc⟩ := Option.isSome_iff_exists.mp hdb
  cases why with
  | quarantined =>
    simp only [resume, hc]
    exact leaves_enter j false c hdb
  | replay modified =>
    cases modified with
    | true => exact leaves_quarantined j hdb
    | false =>
      simp only [resume, hc]
      exact leaves_enter j true c hdb

theorem attempts_joinOpening (s : State δ) :
    (joinOpening s).attempts (attemptOf s) = .running := by
  unfold joinOpening attemptOf
  cases h : inFlight s with
  | none => simp
  | some a =>
    obtain ⟨-, hrunning⟩ := Option.filter_eq_some_iff.mp h
    simpa using hrunning

theorem leaves_reopen {j : Nat} (why : Purpose) (hlock : s.lock = some j) :
    Leaves s (reopen s j why) j := by
  unfold reopen
  split
  case h_1 c hc => exact leaves_resume j why (by simp [hc])
  case h_2 =>
    have hrunning := attempts_joinOpening s
    obtain ⟨opening, attempts, n, hjoin⟩ := joinOpening_eq s
    rw [hjoin] at hrunning ⊢
    refine ⟨rfl, fun _ h => h, fun i hij => update_of_ne hij _ _, fun hl => ?_, ?_⟩
    · have hl : s.lock = none := hl
      rw [hlock] at hl
      cases hl
    · simpa [Reopens] using Or.inl hrunning

theorem leaves_recycle {j : Nat} (why : Purpose) (hlock : s.lock = some j) :
    Leaves s (recycle s j why) j := by
  unfold recycle
  split
  case h_1 =>
    refine ⟨rfl, fun _ h => h, fun i hij => update_of_ne hij _ _, fun hl => ?_, ?_⟩
    · have hl : s.lock = none := hl
      rw [hlock] at hl
      cases hl
    · simp [Reopens]
  case h_2 =>
    have h := leaves_reopen (s := { s with
      dirty := false, recycleCount := s.recycleCount + 1 }) why hlock
    exact ⟨h.closer, h.refused, h.others, h.db, h.reopens⟩

theorem leaves_locked (j : Nat) (hdb : s.db.isSome) : Leaves s (locked s j) j := by
  unfold locked
  split
  case h_1 hnone => simp [hnone] at hdb
  case h_2 c hc =>
    split
    case isTrue =>
      have h := leaves_recycle (s := { s with lock := some j }) .quarantined rfl
      exact ⟨h.closer, h.refused, h.others, h.db, h.reopens⟩
    case isFalse =>
      have h := leaves_enter (s := { s with lock := some j }) j false c hdb
      exact ⟨h.closer, h.refused, h.others, h.db, h.reopens⟩

theorem leaves_failBody {j : Nat} (stale replayed : Bool) (c before : Nat)
    (hlock : s.lock = some j) (hdb : s.db.isSome) :
    Leaves s (failBody s j stale replayed c before) j := by
  have hlog : ∀ i, .refused i ∈ s.log ++ [.failed j c] → .refused i ∈ s.log := fun i h => by
    simpa using h
  unfold failBody
  split
  · have h := leaves_recycle (s := { s with log := s.log ++ [.failed j c] })
      (.replay (s.totalChanges c != before)) hlock
    exact ⟨h.closer, fun i hi => hlog i (h.refused i hi), h.others, h.db, h.reopens⟩
  · have h := leaves_quarantined (s := { s with log := s.log ++ [.failed j c] }) j hdb
    exact ⟨h.closer, fun i hi => hlog i (h.refused i hi), h.others, h.db, h.reopens⟩

theorem Alive.leaves {s t : State δ} (h : Alive s) (hinv : Inv t) {j : Nat} (hl : Leaves s t j)
    (hlock : s.lock = none ∨ s.lock = some j) : Alive t := by
  refine ⟨hinv, fun k => ?_, hl.db, fun i => ?_, fun i hi => h.refused i (hl.refused i hi)⟩
  · rw [hl.closer]
    exact h.closer k
  · by_cases hij : i = j
    · subst hij
      exact hl.reopens
    · rw [hl.others i hij]
      exact reopens_of_idle (h.inv.idle hij hlock)

theorem Alive.congr {s t : State δ} (h : Alive s) (hinv : Inv t) (hcloser : t.closer = s.closer)
    (hdb : s.db.isSome → t.db.isSome) (hlock : t.lock = s.lock) (hlog : t.log = s.log)
    (hreopens : ∀ j, Reopens s.attempts s.db (s.job j) → Reopens t.attempts t.db (t.job j)) :
    Alive t := by
  refine ⟨hinv, fun k => ?_, fun hl => hdb (h.db (hlock ▸ hl)), fun j => hreopens j (h.reopens j),
    fun j => ?_⟩
  · rw [hcloser]
    exact h.closer k
  · rw [hlog]
    exact h.refused j

theorem Reopens.joined {p : Job}
    (h : Reopens s.attempts s.db p) : Reopens (joinOpening s).attempts (joinOpening s).db p := by
  unfold joinOpening
  split
  · exact h
  · cases p with
    | reopening why a =>
      show update s.attempts s.nextAttempt .running a = .running ∨
        update s.attempts s.nextAttempt .running a = .opened ∧ s.db.isSome
      by_cases ha : a = s.nextAttempt
      · exact .inl (by simp [ha])
      · simpa [Reopens, ha] using h
    | absent | waiting | closing _ | executing _ _ _ | finished => exact h

theorem Alive.joined (h : Alive s) : Alive (joinOpening s) := by
  have hreopens : ∀ j, Reopens (joinOpening s).attempts (joinOpening s).db (s.job j) :=
    fun j => (h.reopens j).joined
  have hinv := h.inv.joined
  obtain ⟨opening, attempts, n, hjoin⟩ := joinOpening_eq s
  rw [hjoin] at hreopens hinv ⊢
  exact h.congr hinv rfl id rfl rfl (fun j _ => hreopens j)

/-- **One step** without a close in which no reopen fails. -/
theorem Alive.step {s t : State δ} (h : Alive s) {e : Event δ} (hgood : ReopenSucceeds s e)
    (hclose : e.isClose = false) (hstep : step s e = some t) : Alive t := by
  have hinv := h.inv.step hstep
  have hheld : ∀ {j p}, s.job j = p → p.Holds → s.lock = some j := fun hjob hp =>
    (h.inv.held _).mp (by rw [hjob]; exact hp)
  cases e with
  | submit j =>
    obtain ⟨hjob, rfl⟩ := Steps.of_guard hstep
    refine h.congr hinv rfl id rfl rfl (fun i hi => ?_)
    by_cases hij : i = j
    · subst hij
      simp [Reopens]
    · simpa [hij, Reopens] using hi
  | acquire j =>
    obtain ⟨⟨-, hlock⟩, rfl⟩ := Steps.of_guard hstep
    exact h.leaves hinv (leaves_locked j (h.db hlock)) (.inl hlock)
  | closedOld j =>
    simp only [Store.step] at hstep
    split at hstep
    case h_2 => cases hstep
    case h_1 why hjob =>
      cases hstep
      have hlock := hheld hjob trivial
      have hl := leaves_reopen (s := { s with recycleCount := s.recycleCount + 1 }) why hlock
      exact h.leaves hinv ⟨hl.closer, hl.refused, hl.others, hl.db, hl.reopens⟩ (.inr hlock)
  | reopened j =>
    simp only [Store.step] at hstep
    split at hstep
    case h_2 => cases hstep
    case h_1 why a hjob =>
      have hreopens := h.reopens j
      rw [hjob] at hreopens
      split at hstep
      case h_1 hopened =>
        cases hstep
        have hdb : s.db.isSome := by
          rcases hreopens with hrunning | ⟨-, hdb⟩
          · rw [hopened] at hrunning
            cases hrunning
          · exact hdb
        exact h.leaves hinv (leaves_resume j why hdb) (.inr (hheld hjob trivial))
      case h_2 hfailed =>
        rcases hreopens with hrunning | ⟨hopened, -⟩
        · rw [hfailed] at hrunning
          cases hrunning
        · rw [hfailed] at hopened
          cases hopened
      case h_3 => cases hstep
  | statement j f =>
    simp only [Store.step] at hstep
    split at hstep
    case h_2 => cases hstep
    case h_1 =>
      cases hstep
      exact ⟨hinv, h.closer, h.db, h.reopens, fun i hi => h.refused i (by simpa using hi)⟩
  | finish j =>
    simp only [Store.step] at hstep
    split at hstep
    case h_2 => cases hstep
    case h_1 hjob =>
      cases hstep
      have hdb := h.reopens j
      rw [hjob] at hdb
      have hl := leaves_leave (s := { s with log := s.log ++ [.ended j] }) j hdb
      exact h.leaves hinv ⟨hl.closer, fun i hi => by simpa [leave] using hi, hl.others, hl.db,
        hl.reopens⟩ (.inr (hheld hjob trivial))
  | fail j stale =>
    simp only [Store.step] at hstep
    split at hstep
    case h_2 => cases hstep
    case h_1 b c n hjob =>
      cases hstep
      have hdb := h.reopens j
      rw [hjob] at hdb
      have hlock := hheld hjob trivial
      exact h.leaves hinv (leaves_failBody stale b c n hlock hdb) (.inr hlock)
  | cancel j =>
    obtain ⟨-, rfl⟩ := Steps.of_guard hstep
    refine h.congr hinv rfl id rfl rfl (fun _ hi => hi)
  | callOpen =>
    simp only [Store.step, Option.some.injEq] at hstep
    subst hstep
    split
    · exact h
    · exact h.joined
  | openDone a =>
    obtain ⟨-, rfl⟩ := Steps.of_guard hstep
    refine h.congr hinv rfl (fun _ => rfl) rfl rfl (fun i hi => ?_)
    show Reopens _ _ (s.job i)
    cases hjob : s.job i with
    | reopening why b =>
      rw [hjob] at hi
      show update s.attempts a .opened b = .running ∨
        update s.attempts a .opened b = .opened ∧ _
      by_cases hb : b = a
      · exact .inr ⟨by simp [hb], rfl⟩
      · rw [update_of_ne hb]
        exact hi.imp_right fun ho => ⟨ho.1, rfl⟩
    | executing _ _ _ => rfl
    | absent | waiting | closing _ | finished => trivial
  | openFailed a =>
    obtain ⟨-, rfl⟩ := Steps.of_guard hstep
    refine h.congr hinv rfl id rfl rfl (fun i hi => ?_)
    show Reopens _ _ (s.job i)
    cases hjob : s.job i with
    | reopening why b =>
      rw [hjob] at hi
      have hb : b ≠ a := fun hb => hgood i why (hb ▸ hjob)
      simpa [Reopens, hb] using hi
    | executing _ _ _ =>
      rw [hjob] at hi
      exact hi
    | absent | waiting | closing _ | finished => trivial
  | callClose k => cases hclose
  | awaited k | detach k | closedConn k | cancelClose k => simp [Store.step, h.closer k] at hstep
  | markDirty =>
    cases hstep
    refine h.congr hinv rfl id rfl rfl (fun _ hi => hi)
  | foreign f =>
    cases hstep
    refine h.congr hinv rfl id rfl rfl (fun _ hi => hi)

theorem alive_opened (data : δ) : Alive (opened data) :=
  ⟨inv_opened data, fun _ => rfl, fun _ => rfl, fun _ => trivial, fun _ => List.not_mem_nil⟩

theorem serves_clean (h : Alive s) (hlock : s.lock = none)
    (hdirty : s.dirty = false) {j : Nat} (hjob : s.job j = .absent) :
    ∃ t c n, run step s [.submit j, .acquire j] = some t ∧ t.job j = .executing false c n := by
  obtain ⟨c, hc⟩ := Option.isSome_iff_exists.mp (h.db hlock)
  refine ⟨locked { s with job := update s.job j .waiting } j, c, s.totalChanges c, ?_, ?_⟩
  · simp [run, step, hjob, hlock]
  · simp [locked, hc, hdirty, enter]

theorem reopen_none (j : Nat) (why : Purpose) (hdb : s.db = none) :
    (reopen s j why).job j = .reopening why (attemptOf s) ∧
      (reopen s j why).attempts (attemptOf s) = .running ∧
      (reopen s j why).nextConn = s.nextConn := by
  have hrunning := attempts_joinOpening s
  unfold reopen
  split
  case h_1 c hc =>
    rw [hdb] at hc
    cases hc
  case h_2 =>
    refine ⟨update_self .., hrunning, ?_⟩
    obtain ⟨opening, attempts, n, hjoin⟩ := joinOpening_eq s
    rw [hjoin]

theorem openDone_serves {j a : Nat} (hjob : s.job j = .reopening .quarantined a)
    (hrunning : s.attempts a = .running) :
    ∃ t n, run step s [.openDone a, .reopened j] = some t ∧
      t.job j = .executing false s.nextConn n := by
  refine ⟨resume { s with
    db := some s.nextConn
    nextConn := s.nextConn + 1
    attempts := update s.attempts a .opened } j .quarantined,
    s.totalChanges s.nextConn, ?_, ?_⟩
  · simp [run, step, hrunning, hjob]
  · simp [resume, enter]

theorem closedOld_serves {j : Nat} (hjob : s.job j = .closing .quarantined)
    (hdb : s.db = none) :
    ∃ t n, run step s [.closedOld j, .openDone (attemptOf s), .reopened j] = some t ∧
      t.job j = .executing false s.nextConn n := by
  have hclosed : step s (.closedOld j) =
      some (reopen { s with recycleCount := s.recycleCount + 1 } j .quarantined) := by
    simp [step, hjob]
  obtain ⟨hreopening, hrunning, hnext⟩ :=
    reopen_none (s := { s with recycleCount := s.recycleCount + 1 }) j .quarantined hdb
  obtain ⟨t, n, ht, hexecuting⟩ := openDone_serves hreopening hrunning
  rw [hnext] at hexecuting
  exact ⟨t, n, (run_cons_of_step step _ hclosed).trans ht, hexecuting⟩

theorem serves_dirty (h : Alive s) (hlock : s.lock = none)
    (hdirty : s.dirty = true) {j : Nat} (hjob : s.job j = .absent) :
    ∃ t n, run step s [.submit j, .acquire j, .closedOld j, .openDone (attemptOf s), .reopened j]
      = some t ∧ t.job j = .executing false s.nextConn n := by
  obtain ⟨c, hc⟩ := Option.isSome_iff_exists.mp (h.db hlock)
  have hacquire : run step s [.submit j, .acquire j] =
      some { s with
        db := none
        dirty := false
        lock := some j
        closed := c :: s.closed
        job := update (update s.job j .waiting) j (.closing .quarantined) } := by
    simp [run, step, hjob, hlock, locked, recycle, hc, hdirty]
  obtain ⟨t, n, ht, hexecuting⟩ := closedOld_serves (j := j) (s := { s with
    db := none
    dirty := false
    lock := some j
    closed := c :: s.closed
    job := update (update s.job j .waiting) j (.closing .quarantined) })
    (by simp) rfl
  refine ⟨t, n, ?_, hexecuting⟩
  rw [show [Event.submit j, .acquire j, .closedOld j, .openDone (attemptOf s), .reopened j] =
    [.submit j, .acquire j] ++ [.closedOld j, .openDone (attemptOf s), .reopened j] from rfl,
    run_append, hacquire]
  exact ht

theorem Alive.recovers (h : Alive s) : Recovers s := by
  have hlive : ∀ {es t j b c n}, run Store.step s es = some t → t.job j = .executing b c n →
      c ∉ t.closed := fun hrun hjob =>
    ((run_invariant Store.step Inv (fun _ _ _ h hs => h.step hs) s _ _ h.inv hrun).executing
      _ _ _ _ hjob).live
  refine ⟨h.refused, fun hlock j hjob => ?_⟩
  cases hdirty : s.dirty with
  | false =>
    obtain ⟨t, c, n, hrun, hexecuting⟩ := serves_clean h hlock hdirty hjob
    refine ⟨_, t, false, c, n, hrun, ?_, hexecuting, hlive hrun hexecuting, nofun⟩
    simp [Event.serves]
  | true =>
    obtain ⟨t, n, hrun, hexecuting⟩ := serves_dirty h hlock hdirty hjob
    refine ⟨_, t, false, s.nextConn, n, hrun, ?_, hexecuting, hlive hrun hexecuting,
      fun _ => Nat.le_refl _⟩
    simp [Event.serves]

/-- **Recovery.** Short of a close, the store recovers in every state of a run in which no reopen
of a recycle fails, whatever operations fail. -/
theorem recovers_while_reopens (data : δ) (es : List (Event δ)) (s : State δ)
    (hrun : run step (opened data) es = some s) (hclose : ∀ e ∈ es, e.isClose = false)
    (hgood : GoodRun step ReopenSucceeds (opened data) es) : Recovers s :=
  (goodRun_invariant step (fun s e => ReopenSucceeds s e ∧ e.isClose = false) Alive
    (fun _ _ _ h hg hs => h.step hg.1 hg.2 hs) (opened data) s es (alive_opened data) hrun
    (goodRun_and step ReopenSucceeds _ _ es hgood hclose)).recovers

/-! ## After a failed reopen -/

/-- Nothing is open, and nobody is opening. -/
structure Dead (s : State δ) : Prop where
  db : s.db = none
  idle : ∀ j, ¬ (s.job j).Holds
  attempts : ∀ a, s.attempts a ≠ .running

theorem Dead.inFlight (h : Dead s) : inFlight s = none := by
  unfold Store.inFlight
  cases s.opening with
  | none => rfl
  | some a => simp [h.attempts a]

/-- **One step** of a dead store: operations are refused, and nothing is opened again. -/
theorem Dead.step {s t : State δ} (h : Dead s) {e : Event δ} (hopen : e.isOpen = false)
    (hstep : step s e = some t) : Dead t := by
  have hnot : ∀ {j p}, s.job j = p → p.Holds → False := fun hjob hp => h.idle _ (hjob ▸ hp)
  cases e with
  | submit j =>
    obtain ⟨-, rfl⟩ := Steps.of_guard hstep
    refine ⟨h.db, fun i => ?_, h.attempts⟩
    by_cases hij : i = j
    · subst hij
      simp [Job.Holds]
    · simpa [hij] using h.idle i
  | acquire j =>
    obtain ⟨-, rfl⟩ := Steps.of_guard hstep
    simp only [locked, h.db]
    refine ⟨rfl, fun i => ?_, h.attempts⟩
    by_cases hij : i = j
    · subst hij
      simp [leave, Job.Holds]
    · simpa [leave, hij] using h.idle i
  | closedOld j | reopened j | statement j _ | finish j | fail j _ =>
    simp only [Store.step] at hstep
    split at hstep
    case h_1 hjob => exact (hnot hjob trivial).elim
    case h_2 => cases hstep
  | cancel j =>
    obtain ⟨-, rfl⟩ := Steps.of_guard hstep
    exact ⟨h.db, h.idle, h.attempts⟩
  | callOpen => cases hopen
  | openDone a | openFailed a => simp [Store.step, h.attempts a] at hstep
  | callClose k =>
    simp only [Store.step, Option.ite_none_right_eq_some, h.inFlight, Option.some.injEq] at hstep
    obtain ⟨-, rfl⟩ := hstep
    exact ⟨h.db, h.idle, h.attempts⟩
  | awaited k =>
    simp only [Store.step] at hstep
    split at hstep
    case h_2 => cases hstep
    case h_1 =>
      simp only [Option.ite_none_left_eq_some, Option.some.injEq] at hstep
      obtain ⟨-, rfl⟩ := hstep
      exact ⟨h.db, h.idle, h.attempts⟩
  | detach k =>
    simp only [Store.step, h.db, Option.ite_none_right_eq_some, Option.some.injEq] at hstep
    obtain ⟨-, rfl⟩ := hstep
    exact ⟨rfl, h.idle, h.attempts⟩
  | closedConn k =>
    obtain ⟨-, rfl⟩ := Steps.of_guard hstep
    exact ⟨h.db, h.idle, h.attempts⟩
  | cancelClose k =>
    simp only [Store.step, Option.ite_none_left_eq_some, Option.some.injEq] at hstep
    obtain ⟨-, rfl⟩ := hstep
    exact ⟨h.db, h.idle, h.attempts⟩
  | markDirty | foreign _ =>
    cases hstep
    exact ⟨h.db, h.idle, h.attempts⟩

/-- **Only a call of `open` brings a dead store back**: no operation reaches its body. -/
theorem dead_stays {s t : State δ} (es : List (Event δ)) (h : Dead s)
    (hopen : ∀ e ∈ es, e.isOpen = false) (hrun : run step s es = some t) (j : Nat) (b : Bool)
    (c n : Nat) : t.job j ≠ .executing b c n := by
  have hdead : Dead t := goodRun_invariant step (fun _ e => e.isOpen = false) Dead
    (fun _ _ _ h hg hs => h.step hg hs) s t es h hrun <| by
      have := goodRun_and step (fun _ _ => True) _ s es (goodRun_trivial step s es) hopen
      simpa using this
  exact not_executing (hdead.idle j) b c n

end Recovery

/-- An operation fails, and the next one finds the connection quarantined. -/
theorem recovers_after_failure : Recovers ((run step (opened 0)
    [.submit 0, .acquire 0, .fail 0 false, .submit 1, .acquire 1, .closedOld 1, .openDone 1,
      .reopened 1, .finish 1]).get (by decide)) :=
  recovers_while_reopens 0 _ _ (Option.some_get _).symm (by decide)
    (by simp [GoodRun, ReopenSucceeds])

/-- An operation fails, and the reopen of the recycle that follows fails too. -/
def failedReopen : List (Event Nat) :=
  [.submit 0, .acquire 0, .fail 0 false, .submit 1, .acquire 1, .closedOld 1, .openFailed 1,
    .reopened 1, .submit 2, .acquire 2]

theorem failedReopen_runs : (run step (opened 0) failedReopen).isSome := by decide

/-- From there on every operation is refused. -/
theorem failed_reopen_closes : ∃ s, run step (opened 0) failedReopen = some s ∧
    (∀ e ∈ failedReopen, e.isClose = false) ∧ ¬ Recovers s ∧
    ∀ es t, run step s es = some t → (∀ e ∈ es, e.isOpen = false) →
      ∀ j b c n, t.job j ≠ .executing b c n := by
  have hrun := (Option.some_get failedReopen_runs).symm
  have hinv := run_invariant step Inv (fun _ _ _ h hs => h.step hs) _ _ _ (inv_opened 0) hrun
  refine ⟨_, hrun, by decide, fun h => h.neverClosed 2 (by decide), fun es t hes hopen =>
    dead_stays es ⟨rfl, fun j hj => ?_, fun a => ?_⟩ hopen hes⟩
  · cases (hinv.held j).mp hj
  · match a with
    | 0 => decide
    | 1 => decide
    | _ + 2 => exact nofun

end MiqroForge.Store
