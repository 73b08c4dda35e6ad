import MiqroForge.Store.Connection
import Mathlib

/-!
What `RuntimeDb` guarantees under every schedule: bodies do not overlap, none runs on a
closed connection, a connection on which a body failed is not used again, and a body is
replayed only when it changed no row.
-/

namespace MiqroForge.Store

open Steps

/-! ## The log of a job -/

def Entry.begins (j : Nat) : Entry → Nat
  | .began i _ => if i = j then 1 else 0
  | _ => 0

def Entry.rows (j : Nat) : Entry → Nat
  | .changed i n => if i = j then n else 0
  | _ => 0

/-- How often the body of a job was entered. -/
def begun (j : Nat) (log : List Entry) : Nat := (log.map (Entry.begins j)).sum

/-- The rows its statements changed. -/
def written (j : Nat) (log : List Entry) : Nat := (log.map (Entry.rows j)).sum

@[simp] theorem begun_append (j : Nat) (log : List Entry) (e : Entry) :
    begun j (log ++ [e]) = begun j log + e.begins j := by
  simp [begun]

@[simp] theorem written_append (j : Nat) (log : List Entry) (e : Entry) :
    written j (log ++ [e]) = written j log + e.rows j := by
  simp [written]

theorem rows_eq_zero {j rows : Nat} {log : List Entry} (h : written j log = 0)
    (hmem : .changed j rows ∈ log) : rows = 0 := by
  have hzero := List.sum_eq_zero_iff_forall_eq_nat.mp h
  simpa [Entry.rows] using hzero _ (List.mem_map.mpr ⟨_, hmem, rfl⟩)

/-- What may come later in the log than an entry. -/
def Entry.Allows : Entry → Entry → Prop
  | .failed _ c, .began _ d => d ≠ c
  | .changed i rows, .began j _ => i = j → rows = 0
  | _, _ => True

section Safety

variable {δ : Type}

/-! ## The invariant -/

def Job.Holds : Job → Prop
  | .absent | .waiting | .finished => False
  | _ => True

/-- What the log has of a job at each point of `_run_locked`. -/
def Stage (totalChanges : Nat → Nat) (log : List Entry) (j : Nat) : Job → Prop
  | .absent | .waiting | .closing .quarantined | .reopening .quarantined _ =>
    begun j log = 0 ∧ written j log = 0
  | .executing false c before => begun j log = 1 ∧ totalChanges c = before + written j log
  | .closing (.replay m) | .reopening (.replay m) _ =>
    begun j log = 1 ∧ (m = false → written j log = 0)
  | .executing true _ _ | .finished => begun j log ≤ 2

/-- A connection that a body may use. -/
structure Usable (s : State δ) (c : Nat) : Prop where
  known : c < s.nextConn
  live : c ∉ s.closed
  clean : ∀ j, .failed j c ∉ s.log

/-- The connections that close or a recycle took are gone for good. -/
structure Conns (s : State δ) : Prop where
  closed : ∀ c ∈ s.closed, c < s.nextConn
  failed : ∀ j c, .failed j c ∈ s.log → c < s.nextConn
  db : ∀ c, s.db = some c → c < s.nextConn ∧ c ∉ s.closed

def Job.Recycling : Job → Prop
  | .closing _ | .reopening _ _ => True
  | _ => False

structure Inv (s : State δ) : Prop where
  held : ∀ j, (s.job j).Holds ↔ s.lock = some j
  conns : Conns s
  dirty : s.dirty = false → ∀ c, s.db = some c → Usable s c
  renewed : ∀ j, (s.job j).Recycling → ∀ c, s.db = some c → Usable s c
  executing : ∀ j b c n, s.job j = .executing b c n → Usable s c
  stage : ∀ j, Stage s.totalChanges s.log j (s.job j)
  ordered : s.log.Pairwise Entry.Allows

/-- What holds between two suspension points of job `j`, which has the lock. -/
structure Turn (s : State δ) (j : Nat) : Prop where
  lock : s.lock = some j
  idle : ∀ i, i ≠ j → ¬ (s.job i).Holds
  conns : Conns s
  stage : ∀ i, i ≠ j → Stage s.totalChanges s.log i (s.job i)
  ordered : s.log.Pairwise Entry.Allows

variable {s : State δ}

theorem Inv.idle (h : Inv s) {i j : Nat} (hij : i ≠ j)
    (hlock : s.lock = none ∨ s.lock = some j) : ¬ (s.job i).Holds := by
  rw [h.held i]
  rcases hlock with hl | hl <;> rw [hl]
  · exact nofun
  · exact fun h => hij (Option.some.inj h).symm

theorem Inv.turn (h : Inv s) {j : Nat} (hlock : s.lock = some j) : Turn s j :=
  ⟨hlock, fun _ hij => h.idle hij (.inr hlock), h.conns, fun i _ => h.stage i, h.ordered⟩

theorem Inv.take (h : Inv s) {j : Nat} (hlock : s.lock = none) :
    Turn { s with lock := some j } j :=
  ⟨rfl, fun _ hij => h.idle hij (.inl hlock), ⟨h.conns.closed, h.conns.failed, h.conns.db⟩,
    fun i _ => h.stage i, h.ordered⟩

/-! ## The pieces of `_run_locked` -/

theorem not_executing {p : Job} (h : ¬ p.Holds) (b : Bool) (c n : Nat) :
    p ≠ .executing b c n := by
  rintro rfl
  exact h trivial

theorem not_recycling {p : Job} (h : ¬ p.Holds) : ¬ p.Recycling := by
  cases p <;> first | exact fun h => h | exact fun _ => h trivial

variable {j : Nat}

theorem Turn.inv (h : Turn s j) (p : Job) (lock : Option Nat)
    (hheld : p.Holds ↔ lock = some j) (hlock : lock = some j ∨ lock = none)
    (hdirty : s.dirty = false → ∀ c, s.db = some c → Usable s c)
    (hrenewed : p.Recycling → ∀ c, s.db = some c → Usable s c)
    (hexecuting : ∀ b c n, p = .executing b c n → Usable s c)
    (hstage : Stage s.totalChanges s.log j p) :
    Inv { s with lock := lock, job := Function.update s.job j p } := by
  have hjob : ∀ i, i ≠ j → Function.update s.job j p i = s.job i := fun i hij =>
    Function.update_of_ne hij p s.job
  refine ⟨fun i => ?_, ⟨h.conns.closed, h.conns.failed, h.conns.db⟩, fun hd c hc => ?_,
    fun i hi c hc => ?_, fun i b c n hi => ?_, fun i => ?_, h.ordered⟩
  · by_cases hij : i = j
    · subst hij
      simpa using hheld
    · refine iff_of_false ?_ ?_
      · show ¬ (Function.update s.job j p i).Holds
        rw [hjob i hij]
        exact h.idle i hij
      · rcases hlock with rfl | rfl
        · exact fun heq => hij (Option.some.inj heq).symm
        · exact nofun
  · obtain ⟨hk, hl, hf⟩ := hdirty hd c hc
    exact ⟨hk, hl, hf⟩
  · by_cases hij : i = j
    · subst hij
      obtain ⟨hk, hl, hf⟩ := hrenewed (by simpa using hi) c hc
      exact ⟨hk, hl, hf⟩
    · simp only [hjob i hij] at hi
      exact absurd hi (not_recycling (h.idle i hij))
  · by_cases hij : i = j
    · subst hij
      obtain ⟨hk, hl, hf⟩ := hexecuting b c n (by simpa using hi)
      exact ⟨hk, hl, hf⟩
    · simp only [hjob i hij] at hi
      exact absurd hi (not_executing (h.idle i hij) b c n)
  · by_cases hij : i = j
    · subst hij
      simpa using hstage
    · show Stage s.totalChanges s.log i (Function.update s.job j p i)
      rw [hjob i hij]
      exact h.stage i hij

theorem Turn.leave (h : Turn s j)
    (hdirty : s.dirty = false → ∀ c, s.db = some c → Usable s c) (hbegun : begun j s.log ≤ 2) :
    Inv (leave s j) :=
  h.inv .finished none (by simp [Job.Holds]) (.inr rfl) hdirty (fun h => h.elim)
    (fun _ _ _ h => Job.noConfusion h) hbegun

theorem Stage.append_other {tc : Nat → Nat} {log : List Entry} {i : Nat} {p : Job} (e : Entry)
    (hb : e.begins i = 0) (hr : e.rows i = 0) (h : Stage tc log i p) :
    Stage tc (log ++ [e]) i p := by
  cases p with
  | closing why => cases why <;> simpa [Stage, hb, hr] using h
  | reopening why a => cases why <;> simpa [Stage, hb, hr] using h
  | executing b c n => cases b <;> simpa [Stage, hb, hr] using h
  | absent => simpa [Stage, hb, hr] using h
  | waiting => simpa [Stage, hb, hr] using h
  | finished => simpa [Stage, hb] using h

theorem Turn.append (h : Turn s j) (e : Entry)
    (hother : ∀ i, i ≠ j → e.begins i = 0 ∧ e.rows i = 0) (hallow : ∀ a ∈ s.log, a.Allows e)
    (hfailed : ∀ i c, e = .failed i c → c < s.nextConn) :
    Turn { s with log := s.log ++ [e] } j := by
  refine ⟨h.lock, h.idle, ⟨h.conns.closed, fun i c hmem => ?_, h.conns.db⟩, fun i hij => ?_, ?_⟩
  · rcases List.mem_append.mp hmem with hmem | hmem
    · exact h.conns.failed i c hmem
    · exact hfailed i c (List.mem_singleton.mp hmem).symm
  · exact (h.stage i hij).append_other e (hother i hij).1 (hother i hij).2
  · refine List.pairwise_append.mpr ⟨h.ordered, List.pairwise_singleton _ _, fun a ha b hb => ?_⟩
    rw [List.mem_singleton] at hb
    subst hb
    exact hallow a ha

theorem Turn.enter (h : Turn s j) (replayed : Bool) {c : Nat}
    (hu : Usable s c) (hdirty : s.dirty = false → ∀ c, s.db = some c → Usable s c)
    (hbegun : begun j s.log = if replayed then 1 else 0) (hwritten : written j s.log = 0) :
    Inv (enter s j replayed c) := by
  have hlog : Turn { s with log := s.log ++ [.began j c] } j := by
    refine h.append (.began j c) (fun i hij => ⟨?_, rfl⟩) (fun a ha => ?_) (fun _ _ h => nomatch h)
    · exact if_neg hij.symm
    · cases a with
      | failed i d =>
        rintro rfl
        exact hu.clean i ha
      | changed i rows =>
        rintro rfl
        exact rows_eq_zero hwritten ha
      | began i d => trivial
      | ended i => trivial
      | refused i => trivial
  have husable : ∀ d, Usable s d → Usable { s with log := s.log ++ [.began j c] } d := by
    rintro d ⟨hk, hl, hf⟩
    exact ⟨hk, hl, fun i => by simpa using hf i⟩
  refine hlog.inv (.executing replayed c (s.totalChanges c)) s.lock (by simp [Job.Holds, h.lock])
    (.inl h.lock) (fun hd d hc => husable d (hdirty hd d hc)) (fun hr => hr.elim) ?_ ?_
  · rintro _ _ _ ⟨⟩
    exact husable c hu
  · cases replayed <;> simp [Stage, hbegun, hwritten, Entry.begins, Entry.rows]

theorem Turn.leave_quarantined (h : Turn s j)
    (hbegun : begun j s.log ≤ 2) : Inv (Store.leave (quarantine s) j) :=
  Turn.leave (s := quarantine s)
    ⟨h.lock, h.idle, ⟨h.conns.closed, h.conns.failed, h.conns.db⟩, h.stage, h.ordered⟩
    (fun hd => nomatch hd) hbegun

theorem Turn.resume (h : Turn s j) {why : Purpose}
    (hdb : ∀ c, s.db = some c → Usable s c)
    (hstage : Stage s.totalChanges s.log j (.closing why)) : Inv (resume s j why) := by
  cases why with
  | quarantined =>
    obtain ⟨hbegun, hwritten⟩ := hstage
    cases hc : s.db with
    | some c =>
      simp only [Store.resume, hc]
      exact h.enter false (hdb c hc) (fun _ => hdb) hbegun hwritten
    | none =>
      simp only [Store.resume, hc]
      exact h.leave (fun _ => hdb) (by omega)
  | replay modified =>
    obtain ⟨hbegun, hwritten⟩ := hstage
    cases modified with
    | true => exact h.leave_quarantined (by omega)
    | false =>
      cases hc : s.db with
      | some c =>
        simp only [Store.resume, hc]
        exact h.enter true (hdb c hc) (fun _ => hdb) hbegun (hwritten rfl)
      | none =>
        simp only [Store.resume, hc]
        exact h.leave_quarantined (by omega)

theorem Turn.raised (h : Turn s j) {why : Purpose}
    (hdb : ∀ c, s.db = some c → Usable s c)
    (hstage : Stage s.totalChanges s.log j (.closing why)) : Inv (raised s j why) := by
  cases why with
  | quarantined =>
    obtain ⟨hbegun, -⟩ := hstage
    exact h.leave (fun _ => hdb) (by omega)
  | replay modified =>
    obtain ⟨hbegun, -⟩ := hstage
    exact h.leave_quarantined (by omega)

theorem joinOpening_eq (s : State δ) : ∃ opening attempts n,
    joinOpening s = { s with opening := opening, attempts := attempts, nextAttempt := n } := by
  unfold joinOpening
  split
  · exact ⟨s.opening, s.attempts, s.nextAttempt, rfl⟩
  · exact ⟨_, _, _, rfl⟩

theorem Turn.reopen (h : Turn s j) {why : Purpose}
    (hdb : ∀ c, s.db = some c → Usable s c)
    (hstage : Stage s.totalChanges s.log j (.closing why)) : Inv (reopen s j why) := by
  cases hc : s.db with
  | some c =>
    simp only [Store.reopen, hc]
    exact h.resume hdb hstage
  | none =>
    simp only [Store.reopen, hc]
    obtain ⟨opening, attempts, n, hjoin⟩ := joinOpening_eq s
    rw [hjoin]
    have hturn : Turn { s with opening := opening, attempts := attempts, nextAttempt := n } j :=
      ⟨h.lock, h.idle, ⟨h.conns.closed, h.conns.failed, h.conns.db⟩, h.stage, h.ordered⟩
    have hnone : ∀ c, s.db = some c → False := fun c hd => by simp [hc] at hd
    refine hturn.inv (.reopening why (attemptOf s)) s.lock (by simp [Job.Holds, h.lock])
      (.inl h.lock) (fun _ c hd => (hnone c hd).elim) (fun _ c hd => (hnone c hd).elim)
      (fun _ _ _ hp => Job.noConfusion hp) ?_
    cases why <;> exact hstage

theorem Turn.recycle (h : Turn s j) {why : Purpose}
    (hstage : Stage s.totalChanges s.log j (.closing why)) : Inv (recycle s j why) := by
  unfold Store.recycle
  split
  case h_1 c hc =>
    have hturn : Turn { s with db := none, dirty := false, closed := c :: s.closed } j := by
      refine ⟨h.lock, h.idle, ⟨fun d hd => ?_, h.conns.failed, nofun⟩, h.stage, h.ordered⟩
      rcases List.mem_cons.mp hd with rfl | hd
      · exact (h.conns.db d hc).1
      · exact h.conns.closed d hd
    exact hturn.inv (.closing why) s.lock (by simp [Job.Holds, h.lock]) (.inl h.lock)
      (fun _ => nofun) (fun _ => nofun) nofun hstage
  case h_2 hc =>
    refine Turn.reopen (s := { s with dirty := false, recycleCount := s.recycleCount + 1 })
      ⟨h.lock, h.idle, ⟨h.conns.closed, h.conns.failed, h.conns.db⟩, h.stage, h.ordered⟩
      (fun c hd => ?_) hstage
    have hd : s.db = some c := hd
    simp [hc] at hd

theorem Inv.locked (h : Inv s) {j : Nat} (hjob : s.job j = .waiting)
    (hlock : s.lock = none) : Inv (locked s j) := by
  have hturn := h.take (j := j) hlock
  have hstage : begun j s.log = 0 ∧ written j s.log = 0 := by
    have := h.stage j
    rwa [hjob] at this
  unfold Store.locked
  split
  case h_1 hc =>
    refine (hturn.append (.refused j) (fun _ _ => ⟨rfl, rfl⟩) (fun a _ => ?_)
      (fun _ _ h => nomatch h)).leave (fun _ c hd => ?_) ?_
    · cases a <;> trivial
    · have hd : s.db = some c := hd
      simp [hc] at hd
    · simp [hstage, Entry.begins]
  case h_2 c hc =>
    split
    case isTrue => exact hturn.recycle hstage
    case isFalse hd =>
      have hclean := h.dirty (by simpa using hd)
      have hsame : ∀ c, Usable s c → Usable { s with lock := some j } c :=
        fun c hu => ⟨hu.known, hu.live, hu.clean⟩
      exact hturn.enter false (hsame c (hclean c hc)) (fun _ c hd => hsame c (hclean c hd))
        hstage.1 hstage.2

theorem Inv.failBody (h : Inv s) {j c before : Nat} {replayed stale : Bool}
    (hjob : s.job j = .executing replayed c before) :
    Inv (failBody s j stale replayed c before) := by
  have hlock : s.lock = some j := (h.held j).mp (by rw [hjob]; trivial)
  have hstage := h.stage j
  rw [hjob] at hstage
  have hknown := (h.executing j _ _ _ hjob).known
  have hturn : Turn { s with log := s.log ++ [.failed j c] } j := by
    refine (h.turn hlock).append (.failed j c) (fun _ _ => ⟨rfl, rfl⟩) (fun a _ => ?_) ?_
    · cases a <;> trivial
    · rintro _ _ ⟨⟩
      exact hknown
  unfold Store.failBody
  split
  case isTrue hcond =>
    obtain ⟨-, rfl⟩ := hcond
    refine hturn.recycle ⟨?_, fun hmod => ?_⟩
    · simpa [Entry.begins] using hstage.1
    · have hsame : s.totalChanges c = before := by simpa using hmod
      have hsum := hstage.2
      simp only [written_append, Entry.rows]
      omega
  case isFalse =>
    refine hturn.leave_quarantined ?_
    simp only [begun_append, Entry.begins]
    cases replayed with
    | false =>
      have := hstage.1
      omega
    | true => exact hstage

/-! ## Steps -/

theorem Stage.idle {tc tc' : Nat → Nat} {log : List Entry} {j : Nat} {p : Job} (hidle : ¬ p.Holds)
    (h : Stage tc log j p) : Stage tc' log j p := by
  cases p <;> first | exact h | exact absurd trivial hidle

/-- The fields that the invariant is about. -/
def State.core (s : State δ) :=
  (s.db, s.lock, s.nextConn, s.totalChanges, s.closed, s.job, s.log)

theorem Inv.congr {s t : State δ} (h : Inv s) (hcore : t.core = s.core)
    (hdirty : t.dirty = false → s.dirty = false) : Inv t := by
  obtain ⟨hheld, ⟨hclosed, hfailed, hdb⟩, hclean, hrenewed, hexecuting, hstage, hordered⟩ := h
  cases s
  cases t
  simp only [State.core, Prod.mk.injEq] at hcore
  obtain ⟨rfl, rfl, rfl, rfl, rfl, rfl, rfl⟩ := hcore
  refine ⟨hheld, ⟨hclosed, hfailed, hdb⟩, fun hd c hc => ?_, fun j hj c hc => ?_,
    fun j b c n hj => ?_, hstage, hordered⟩
  · obtain ⟨hk, hl, hf⟩ := hclean (hdirty hd) c hc
    exact ⟨hk, hl, hf⟩
  · obtain ⟨hk, hl, hf⟩ := hrenewed j hj c hc
    exact ⟨hk, hl, hf⟩
  · obtain ⟨hk, hl, hf⟩ := hexecuting j b c n hj
    exact ⟨hk, hl, hf⟩

theorem Inv.submitted (h : Inv s) {j : Nat} (hjob : s.job j = .absent) :
    Inv { s with job := Function.update s.job j .waiting } := by
  have hstage := h.stage j
  have hheld := h.held j
  rw [hjob] at hstage hheld
  have hother : ∀ i p, Function.update s.job j .waiting i = p → p ≠ .waiting → s.job i = p := by
    intro i p hi hp
    by_cases hij : i = j
    · subst hij
      exact absurd (by simpa using hi.symm) hp
    · rwa [Function.update_of_ne hij] at hi
  refine ⟨fun i => ?_, ⟨h.conns.closed, h.conns.failed, h.conns.db⟩, fun hd c hc => ?_,
    fun i hi c hc => ?_, fun i b c n hi => ?_, fun i => ?_, h.ordered⟩
  · by_cases hij : i = j
    · subst hij
      simpa [Job.Holds] using hheld
    · simpa [hij] using h.held i
  · obtain ⟨hk, hl, hf⟩ := h.dirty hd c hc
    exact ⟨hk, hl, hf⟩
  · have hi : (Function.update s.job j .waiting i).Recycling := hi
    rw [← hother i _ rfl (by rintro heq; rw [heq] at hi; exact hi)] at hi
    obtain ⟨hk, hl, hf⟩ := h.renewed i hi c hc
    exact ⟨hk, hl, hf⟩
  · obtain ⟨hk, hl, hf⟩ := h.executing i b c n (hother i _ hi nofun)
    exact ⟨hk, hl, hf⟩
  · by_cases hij : i = j
    · subst hij
      simpa [Stage] using hstage
    · simpa [hij] using h.stage i

theorem Inv.wrote (h : Inv s) {j c before : Nat} {replayed : Bool}
    (hjob : s.job j = .executing replayed c before) (data : δ) (rows : Nat) :
    Inv { s with
      data := data
      totalChanges := Function.update s.totalChanges c (s.totalChanges c + rows)
      log := s.log ++ [.changed j rows] } := by
  have hlock : s.lock = some j := (h.held j).mp (by rw [hjob]; trivial)
  have hturn := (h.turn hlock).append (.changed j rows)
    (fun i hij => ⟨rfl, if_neg hij.symm⟩) (fun a _ => by cases a <;> trivial)
    (fun _ _ he => nomatch he)
  have husable : ∀ d, Usable s d → Usable { s with log := s.log ++ [.changed j rows] } d :=
    fun d hu => ⟨hu.known, hu.live, fun i => by simpa using hu.clean i⟩
  refine ⟨h.held, ⟨hturn.conns.closed, hturn.conns.failed, hturn.conns.db⟩, fun hd d hc => ?_,
    fun i hi d hc => ?_, fun i b d n hi => ?_, fun i => ?_, hturn.ordered⟩
  · obtain ⟨hk, hl, hf⟩ := husable d (h.dirty hd d hc)
    exact ⟨hk, hl, hf⟩
  · obtain ⟨hk, hl, hf⟩ := husable d (h.renewed i hi d hc)
    exact ⟨hk, hl, hf⟩
  · obtain ⟨hk, hl, hf⟩ := husable d (h.executing i b d n hi)
    exact ⟨hk, hl, hf⟩
  · show Stage (Function.update s.totalChanges c (s.totalChanges c + rows)) _ i (s.job i)
    by_cases hij : i = j
    · subst hij
      have hstage := h.stage i
      rw [hjob] at hstage ⊢
      cases replayed with
      | false =>
        obtain ⟨hbegun, hsum⟩ := hstage
        refine ⟨by simpa [Entry.begins] using hbegun, ?_⟩
        rw [Function.update_self, written_append, hsum]
        simp [Entry.rows, Nat.add_assoc]
      | true => simpa [Stage, Entry.begins] using hstage
    · have hstage := hturn.stage i hij
      have hidle := hturn.idle i hij
      exact hstage.idle hidle

theorem Inv.published (h : Inv s) (attempts : Nat → Attempt) :
    Inv { s with db := some s.nextConn, nextConn := s.nextConn + 1, attempts := attempts } := by
  have hfresh : Usable { s with
      db := some s.nextConn, nextConn := s.nextConn + 1, attempts := attempts } s.nextConn :=
    ⟨Nat.lt_succ_self _, fun hmem => Nat.lt_irrefl _ (h.conns.closed _ hmem),
      fun j hmem => Nat.lt_irrefl _ (h.conns.failed j _ hmem)⟩
  refine ⟨h.held, ⟨fun c hc => ?_, fun j c hc => ?_, ?_⟩, ?_, ?_, fun j b c n hj => ?_, h.stage,
    h.ordered⟩
  · exact Nat.lt_succ_of_lt (h.conns.closed c hc)
  · exact Nat.lt_succ_of_lt (h.conns.failed j c hc)
  · rintro _ ⟨⟩
    exact ⟨hfresh.known, hfresh.live⟩
  · rintro - _ ⟨⟩
    exact hfresh
  · rintro _ - _ ⟨⟩
    exact hfresh
  · obtain ⟨hk, hl, hf⟩ := h.executing j b c n hj
    exact ⟨Nat.lt_succ_of_lt hk, hl, hf⟩

theorem Inv.detached (h : Inv s) {c : Nat} (hc : s.db = some c)
    (hlock : s.lock = none) (closer : Nat → Closer) :
    Inv { s with db := none, closed := c :: s.closed, closer := closer } := by
  have hidle : ∀ j, ¬ (s.job j).Holds := fun j => by simp [h.held j, hlock]
  refine ⟨h.held, ⟨fun d hd => ?_, h.conns.failed, nofun⟩, fun _ => nofun, fun _ _ => nofun,
    fun j b d n hj => absurd hj (not_executing (hidle j) b d n), h.stage, h.ordered⟩
  rcases List.mem_cons.mp hd with rfl | hd
  · exact (h.conns.db d hc).1
  · exact h.conns.closed d hd

theorem Inv.joined (h : Inv s) : Inv (joinOpening s) := by
  obtain ⟨opening, attempts, n, hjoin⟩ := joinOpening_eq s
  rw [hjoin]
  exact h.congr rfl id

theorem Inv.resumable (h : Inv s) {j : Nat} (hr : (s.job j).Recycling) :
    Turn s j ∧ (∀ c, s.db = some c → Usable s c) := by
  refine ⟨h.turn ((h.held j).mp ?_), h.renewed j hr⟩
  cases hjob : s.job j with
  | closing _ | reopening _ _ => trivial
  | absent | waiting | executing _ _ _ | finished =>
    rw [hjob] at hr
    exact hr.elim

/-- **One step.** -/
theorem Inv.step {s t : State δ} (h : Inv s) {e : Event δ} (hstep : step s e = some t) :
    Inv t := by
  cases e with
  | submit j =>
    obtain ⟨hjob, rfl⟩ := Steps.of_guard hstep
    exact h.submitted hjob
  | acquire j =>
    obtain ⟨⟨hjob, hlock⟩, rfl⟩ := Steps.of_guard hstep
    exact h.locked hjob hlock
  | closedOld j =>
    simp only [Store.step] at hstep
    split at hstep
    case h_2 => cases hstep
    case h_1 why hjob =>
      cases hstep
      have h' : Inv { s with recycleCount := s.recycleCount + 1 } := h.congr rfl id
      obtain ⟨hturn, hdb⟩ := h'.resumable (j := j) (by show (s.job j).Recycling; rw [hjob]; trivial)
      have hstage := h.stage j
      rw [hjob] at hstage
      exact hturn.reopen hdb hstage
  | reopened j =>
    simp only [Store.step] at hstep
    split at hstep
    case h_2 => cases hstep
    case h_1 why a hjob =>
      obtain ⟨hturn, hdb⟩ := h.resumable (j := j) (by rw [hjob]; trivial)
      have hstage : Stage s.totalChanges s.log j (.closing why) := by
        have := h.stage j
        rw [hjob] at this
        cases why <;> exact this
      split at hstep
      case h_1 =>
        cases hstep
        exact hturn.resume hdb hstage
      case h_2 =>
        cases hstep
        exact hturn.raised hdb hstage
      case h_3 => cases hstep
  | statement j f =>
    simp only [Store.step] at hstep
    split at hstep
    case h_2 => cases hstep
    case h_1 hjob =>
      cases hstep
      exact h.wrote hjob _ _
  | finish j =>
    simp only [Store.step] at hstep
    split at hstep
    case h_2 => cases hstep
    case h_1 b c n hjob =>
      cases hstep
      have hturn := (h.turn ((h.held j).mp (by rw [hjob]; trivial))).append (.ended j)
        (fun _ _ => ⟨rfl, rfl⟩) (fun a _ => by cases a <;> trivial) (fun _ _ he => nomatch he)
      refine hturn.leave (fun hd c hc => ?_) ?_
      · obtain ⟨hk, hl, hf⟩ := h.dirty hd c hc
        exact ⟨hk, hl, fun i => by simpa using hf i⟩
      · have hstage := h.stage j
        rw [hjob] at hstage
        simp only [begun_append, Entry.begins, Nat.add_zero]
        cases b with
        | false =>
          have := hstage.1
          omega
        | true => exact hstage
  | fail j stale =>
    simp only [Store.step] at hstep
    split at hstep
    case h_2 => cases hstep
    case h_1 hjob =>
      cases hstep
      exact h.failBody hjob
  | cancel j =>
    obtain ⟨-, rfl⟩ := Steps.of_guard hstep
    exact h.congr rfl id
  | callOpen =>
    simp only [Store.step, Option.some.injEq] at hstep
    subst hstep
    split
    · exact h
    · exact h.joined
  | openDone a =>
    obtain ⟨-, rfl⟩ := Steps.of_guard hstep
    exact h.published _
  | openFailed a =>
    obtain ⟨-, rfl⟩ := Steps.of_guard hstep
    exact h.congr rfl id
  | callClose k =>
    simp only [Store.step, Option.ite_none_right_eq_some] at hstep
    obtain ⟨-, hstep⟩ := hstep
    split at hstep
    all_goals
      cases hstep
      exact h.congr rfl id
  | awaited k =>
    simp only [Store.step] at hstep
    split at hstep
    case h_2 => cases hstep
    case h_1 =>
      simp only [Option.ite_none_left_eq_some, Option.some.injEq] at hstep
      obtain ⟨-, rfl⟩ := hstep
      exact h.congr rfl id
  | detach k =>
    simp only [Store.step, Option.ite_none_right_eq_some] at hstep
    obtain ⟨⟨-, hlock⟩, hstep⟩ := hstep
    split at hstep
    case h_1 c hc =>
      cases hstep
      exact h.detached hc hlock _
    case h_2 =>
      cases hstep
      exact h.congr rfl id
  | closedConn k =>
    obtain ⟨-, rfl⟩ := Steps.of_guard hstep
    exact h.congr rfl id
  | cancelClose k =>
    simp only [Store.step, Option.ite_none_left_eq_some, Option.some.injEq] at hstep
    obtain ⟨-, rfl⟩ := hstep
    exact h.congr rfl id
  | markDirty =>
    cases hstep
    exact h.congr rfl (fun hd => nomatch hd)
  | foreign f =>
    cases hstep
    exact h.congr rfl id

theorem inv_opened (data : δ) : Inv (opened data) := by
  refine ⟨fun j => by simp [opened, Job.Holds], ⟨nofun, nofun, ?_⟩, ?_, fun _ h => h.elim, nofun,
    fun j => ⟨rfl, rfl⟩, List.Pairwise.nil⟩
  · rintro _ ⟨⟩
    exact ⟨Nat.one_pos, List.not_mem_nil⟩
  · rintro - _ ⟨⟩
    exact ⟨Nat.one_pos, List.not_mem_nil, fun _ => List.not_mem_nil⟩

theorem Stage.once {tc : Nat → Nat} {log : List Entry} {j : Nat} {p : Job}
    (h : Stage tc log j p) : begun j log ≤ 2 := by
  cases p with
  | closing why | reopening why _ =>
    have hone : begun j log ≤ 1 := by cases why <;> simp [h.1]
    omega
  | executing b c n =>
    cases b with
    | false => simp [h.1]
    | true => exact h
  | absent | waiting => simp [h.1]
  | finished => exact h

/-- What is claimed of every state: bodies do not overlap, none runs on a closed connection, none
begins on a connection that a body failed on, and one that changed rows is not entered again. -/
structure Safe (s : State δ) : Prop where
  alone : ∀ i j b c m b' d n, s.job i = .executing b c m → s.job j = .executing b' d n → i = j
  live : ∀ j b c n, s.job j = .executing b c n → c ∉ s.closed
  fresh : ∀ before after i j c d,
    s.log = before ++ .began j d :: after → .failed i c ∈ before → d ≠ c
  replayed : ∀ before after j c d rows, s.log = before ++ .began j d :: after →
    .began j c ∈ before → .changed j rows ∈ before → rows = 0
  once : ∀ j, begun j s.log ≤ 2

theorem Inv.safe (h : Inv s) : Safe s := by
  have hpair : ∀ before after j d, s.log = before ++ .began j d :: after →
      ∀ a ∈ before, a.Allows (.began j d) := by
    intro before after j d hlog a ha
    have hordered := h.ordered
    rw [hlog] at hordered
    exact (List.pairwise_append.mp hordered).2.2 a ha _ List.mem_cons_self
  refine ⟨fun i j b c m b' d n hi hj => ?_, fun j b c n hj => (h.executing j b c n hj).live,
    fun before after i j c d hlog hmem => hpair before after j d hlog _ hmem,
    fun before after j c d rows hlog _ hmem => hpair before after j d hlog _ hmem rfl,
    fun j => (h.stage j).once⟩
  have hlocki := (h.held i).mp (by rw [hi]; trivial)
  have hlockj := (h.held j).mp (by rw [hj]; trivial)
  exact Option.some.inj (hlocki.symm.trans hlockj)

/-- **Operation safety.** Under every schedule of operations, failures, cancellations and closes,
bodies do not overlap, run on open connections only, stay off a connection that a body failed on,
and run a second time only after a first run that changed no row. -/
theorem operations_safe (data : δ) (es : List (Event δ)) (s : State δ)
    (hrun : run step (opened data) es = some s) : Safe s :=
  (run_invariant step Inv (fun _ _ _ h hs => h.step hs) (opened data) s es (inv_opened data)
    hrun).safe

end Safety

/-- A stale snapshot, its replay and a close that waits for it. -/
theorem operations_safe_replayed : ∃ s, run step (opened 0)
    [.submit 0, .submit 1, .acquire 0, .statement 0 (fun n => (n, 0)), .cancel 0, .fail 0 true,
      .callClose 0, .closedOld 0, .openDone 1, .reopened 0, .statement 0 (fun n => (n + 1, 1)),
      .finish 0, .detach 0, .closedConn 0, .acquire 1] = some s ∧ Safe s :=
  ⟨_, Option.some_get (by decide) |>.symm, operations_safe 0 _ _ (Option.some_get _).symm⟩

end MiqroForge.Store
