import MiqroForge.Library.Steps

/-!
`RuntimeDb`: the owner of one store connection. Operations run one at a time under a lock,
in jobs that outlive their callers; a failure quarantines the connection, and the next
operation recycles it. A step goes from one suspension point to the next.
-/

namespace MiqroForge.Store

open Function

/-- Where `_recycle` was called from; a replay remembers whether rows were modified. -/
inductive Purpose
  | quarantined
  | replay (modified : Bool)
  deriving DecidableEq

/-- Where the job of a `run` call stands in `_run_locked`. -/
inductive Job
  | absent
  | waiting
  | closing (why : Purpose)
  | reopening (why : Purpose) (attempt : Nat)
  | executing (replayed : Bool) (conn before : Nat)
  | finished
  deriving DecidableEq

/-- An `_open` task. -/
inductive Attempt
  | absent
  | running
  | opened
  | failed
  deriving DecidableEq

/-- Where a `close` call stands. -/
inductive Closer
  | absent
  | awaiting (attempt : Nat)
  | locking
  | closing
  | finished
  deriving DecidableEq

/-- What happened, in order: bodies and the rows their statements changed. -/
inductive Entry
  | began (job conn : Nat)
  | changed (job rows : Nat)
  | failed (job conn : Nat)
  | ended (job : Nat)
  | refused (job : Nat)
  deriving DecidableEq

/-- A statement: the contents after it and the number of rows it changed. -/
abbrev Statement (δ : Type) := δ → δ × Nat

structure State (δ : Type) where
  data : δ
  db : Option Nat
  dirty : Bool
  lock : Option Nat
  opening : Option Nat
  attempts : Nat → Attempt
  nextAttempt : Nat
  nextConn : Nat
  totalChanges : Nat → Nat
  closed : List Nat
  job : Nat → Job
  left : Nat → Bool
  closer : Nat → Closer
  orphanedOps : Nat
  recycleCount : Nat
  log : List Entry

/-- A store whose first `open` returned. -/
def opened {δ : Type} (data : δ) : State δ where
  data := data
  db := some 0
  dirty := false
  lock := none
  opening := some 0
  attempts := update (fun _ => .absent) 0 .opened
  nextAttempt := 1
  nextConn := 1
  totalChanges := fun _ => 0
  closed := []
  job := fun _ => .absent
  left := fun _ => false
  closer := fun _ => .absent
  orphanedOps := 0
  recycleCount := 0
  log := []

inductive Event (δ : Type)
  | submit (j : Nat)
  | acquire (j : Nat)
  | closedOld (j : Nat)
  | reopened (j : Nat)
  | statement (j : Nat) (f : Statement δ)
  | finish (j : Nat)
  | fail (j : Nat) (stale : Bool)
  | cancel (j : Nat)
  | callOpen
  | openDone (a : Nat)
  | openFailed (a : Nat)
  | callClose (k : Nat)
  | awaited (k : Nat)
  | detach (k : Nat)
  | closedConn (k : Nat)
  | cancelClose (k : Nat)
  | markDirty
  | foreign (f : δ → δ)

section Operations

variable {δ : Type}

/-- Leaving `async with self._lock`. -/
def leave (s : State δ) (j : Nat) : State δ :=
  { s with lock := none, job := update s.job j .finished }

/-- `_quarantine`, and `mark_dirty`. -/
def quarantine (s : State δ) : State δ := { s with dirty := true }

/-- `fn(connection)` is entered. -/
def enter (s : State δ) (j : Nat) (replayed : Bool) (c : Nat) : State δ :=
  { s with
    job := update s.job j (.executing replayed c (s.totalChanges c))
    log := s.log ++ [.began j c] }

/-- After `_recycle` returned. -/
def resume (s : State δ) (j : Nat) : Purpose → State δ
  | .quarantined =>
    match s.db with
    | some c => enter s j false c
    | none => leave s j
  | .replay true => leave (quarantine s) j
  | .replay false =>
    match s.db with
    | some c => enter s j true c
    | none => leave (quarantine s) j

/-- After `_recycle` raised: only the stale branch is inside the `try`. -/
def raised (s : State δ) (j : Nat) : Purpose → State δ
  | .quarantined => leave s j
  | .replay _ => leave (quarantine s) j

/-- `opening is None or opening.done()` decides whether `open` starts an attempt. -/
def inFlight (s : State δ) : Option Nat := s.opening.filter fun a => s.attempts a = .running

def attemptOf (s : State δ) : Nat := (inFlight s).getD s.nextAttempt

/-- The attempt that `open` waits for is recorded. -/
def joinOpening (s : State δ) : State δ :=
  match inFlight s with
  | some _ => s
  | none =>
    { s with
      opening := some s.nextAttempt
      attempts := update s.attempts s.nextAttempt .running
      nextAttempt := s.nextAttempt + 1 }

/-- `await self.open()` in `_recycle`. -/
def reopen (s : State δ) (j : Nat) (why : Purpose) : State δ :=
  match s.db with
  | some _ => resume s j why
  | none =>
    { joinOpening s with
      job := update s.job j (.reopening why (attemptOf s)) }

/-- `_recycle` up to its first suspension. -/
def recycle (s : State δ) (j : Nat) (why : Purpose) : State δ :=
  match s.db with
  | some c =>
    { s with
      db := none
      dirty := false
      closed := c :: s.closed
      job := update s.job j (.closing why) }
  | none => reopen { s with dirty := false, recycleCount := s.recycleCount + 1 } j why

/-- `_run_locked` once it has the lock. -/
def locked (s : State δ) (j : Nat) : State δ :=
  match s.db with
  | none => leave { s with log := s.log ++ [.refused j] } j
  | some c =>
    if s.dirty then recycle { s with lock := some j } j .quarantined
    else enter { s with lock := some j } j false c

/-- The body raises: a stale snapshot of the first attempt is recycled and replayed. -/
def failBody (s : State δ) (j : Nat) (stale replayed : Bool) (c before : Nat) : State δ :=
  if stale = true ∧ replayed = false then
    recycle { s with log := s.log ++ [.failed j c] } j (.replay (s.totalChanges c != before))
  else leave (quarantine { s with log := s.log ++ [.failed j c] }) j

def step (s : State δ) : Event δ → Option (State δ)
  | .submit j =>
    if s.job j = .absent then some { s with job := update s.job j .waiting } else none
  | .acquire j => if s.job j = .waiting ∧ s.lock = none then some (locked s j) else none
  | .closedOld j =>
    match s.job j with
    | .closing why => some (reopen { s with recycleCount := s.recycleCount + 1 } j why)
    | _ => none
  | .reopened j =>
    match s.job j with
    | .reopening why a =>
      match s.attempts a with
      | .opened => some (resume s j why)
      | .failed => some (raised s j why)
      | _ => none
    | _ => none
  | .statement j f =>
    match s.job j with
    | .executing _ c _ =>
      some { s with
        data := (f s.data).1
        totalChanges :=
          update s.totalChanges c (s.totalChanges c + (f s.data).2)
        log := s.log ++ [.changed j (f s.data).2] }
    | _ => none
  | .finish j =>
    match s.job j with
    | .executing _ _ _ => some (leave { s with log := s.log ++ [.ended j] } j)
    | _ => none
  | .fail j stale =>
    match s.job j with
    | .executing replayed c before => some (failBody s j stale replayed c before)
    | _ => none
  | .cancel j =>
    -- the job is shielded: only its caller leaves
    if s.job j ≠ .absent ∧ s.left j = false then
      some { s with
        left := update s.left j true
        orphanedOps := s.orphanedOps + if s.job j = .finished then 0 else 1 }
    else none
  | .callOpen => some (if s.db.isSome then s else joinOpening s)
  | .openDone a =>
    if s.attempts a = .running then
      some { s with
        db := some s.nextConn
        nextConn := s.nextConn + 1
        attempts := update s.attempts a .opened }
    else none
  | .openFailed a =>
    if s.attempts a = .running then
      some { s with attempts := update s.attempts a .failed }
    else none
  | .callClose k =>
    if s.closer k = .absent then
      match inFlight s with
      | some a => some { s with closer := update s.closer k (.awaiting a) }
      | none => some { s with opening := none, closer := update s.closer k .locking }
    else none
  | .awaited k =>
    match s.closer k with
    | .awaiting a =>
      if s.attempts a = .running then none
      else some { s with opening := none, closer := update s.closer k .locking }
    | _ => none
  | .detach k =>
    if s.closer k = .locking ∧ s.lock = none then
      match s.db with
      | some c =>
        some { s with
          db := none
          closed := c :: s.closed
          closer := update s.closer k .closing }
      | none => some { s with closer := update s.closer k .finished }
    else none
  | .closedConn k =>
    if s.closer k = .closing then
      some { s with closer := update s.closer k .finished }
    else none
  | .cancelClose k =>
    if s.closer k = .absent ∨ s.closer k = .finished then none
    else some { s with closer := update s.closer k .finished }
  | .markDirty => some (quarantine s)
  | .foreign f => some { s with data := f s.data }

end Operations

end MiqroForge.Store
