import MiqroForge.Library.Steps
import MiqroForge.Library.PyText

/-!
The approval requests of `ToolOrchestrator`, each a task that waits for its future, with what
clients, timeouts, aborts of a thread and cancellation do to them. An `await` ends a step.
-/

set_option linter.unusedSectionVars false

namespace MiqroForge.Approvals

open PyText Function

inductive Answer where
  | once
  | session
  | always
  | deny
deriving DecidableEq

def Answer.permits : Answer → Bool
  | .deny => false
  | _ => true

/-- `_LEGACY_DECISION_MAP`, then `VALID_APPROVAL_DECISIONS`. -/
def normalize (decision : Text) : Option Answer :=
  if decision = "once".toList ∨ decision = "allow".toList then some .once
  else if decision = "session".toList then some .session
  else if decision = "always".toList ∨ decision = "allow_permanent".toList then some .always
  else if decision = "deny".toList then some .deny
  else none

/-- The decision of an `approval_resolved` item. -/
inductive Outcome where
  | user (answer : Answer)
  | timeout
  | abort
deriving DecidableEq

def Outcome.permits : Outcome → Bool
  | .user answer => answer.permits
  | _ => false

inductive Future where
  | pending
  | answered (answer : Answer)
  | aborted
  | cancelled
deriving DecidableEq

/-- Whether the result of a future is ALLOW. -/
def Future.verdict : Future → Option Bool
  | .answered answer => some answer.permits
  | .aborted => some false
  | _ => none

/-- Where a `_request_approval` stands. -/
inductive Phase where
  | idle
  /-- `ApprovalRequestedEvent` is out. -/
  | announced
  /-- The ledger has the request. -/
  | recorded
  /-- The future is registered and waited for. -/
  | waiting
  /-- The outcome is there, and not yet in the ledger. -/
  | settled (verdict : Bool) (outcome : Outcome)
  | written (verdict : Bool)
  | returned (verdict : Bool)
  | cancelled
deriving DecidableEq

/-- The request is registered and its cleanup has not run. -/
def Phase.Open : Phase → Prop
  | .waiting | .settled _ _ | .written _ => True
  | _ => False

theorem Phase.Open.begun {phase : Phase} (h : phase.Open) : phase ≠ .idle := by
  rintro rfl
  exact h

/-- A running `cancel_approvals_for_thread`; `writing` is the approval it has denied and not yet
written to the ledger. -/
structure Pass (Id Thread : Type) where
  thread : Thread
  todo : List Id
  writing : Option Id

/-- The `approval_requested` and `approval_resolved` items. -/
inductive Record (Id : Type) where
  | requested (id : Id)
  | resolved (id : Id) (outcome : Outcome)
deriving DecidableEq

def Record.id {Id : Type} : Record Id → Id
  | .requested i => i
  | .resolved i _ => i

/-- The approval id and the thread of each request. -/
structure Calls (R Id Thread : Type) where
  id : R → Id
  thread : R → Thread

structure State (R Id Thread : Type) where
  phase : R → Phase
  future : R → Future
  /-- `_pending_approvals` -/
  pending : Id → Option R
  /-- `_approval_meta`, by its `resolved_decision`. -/
  approvalMeta : Id → Option (Option Answer)
  /-- `_thread_approvals` -/
  listed : Thread → List Id
  passes : Nat → Option (Pass Id Thread)
  ledger : List (Record Id)
  /-- What has decided the request. -/
  effect : R → Option Outcome

inductive Event (R Id Thread : Type) where
  | announce (r : R)
  | record (r : R)
  | register (r : R)
  | wake (r : R)
  | expire (r : R)
  | write (r : R)
  | finish (r : R)
  | cancel (r : R)
  | resolve (id : Id) (decision : Text)
  | beginAbort (p : Nat) (thread : Thread)
  | takeAbort (p : Nat)
  | writeAbort (p : Nat)
  | endAbort (p : Nat)

section Step
variable {R Id Thread : Type} [DecidableEq R] [DecidableEq Id] [DecidableEq Thread]
  (calls : Calls R Id Thread)

def init : State R Id Thread where
  phase := fun _ => .idle
  future := fun _ => .pending
  pending := fun _ => none
  approvalMeta := fun _ => none
  listed := fun _ => []
  passes := fun _ => none
  ledger := []
  effect := fun _ => none

namespace State
variable (s : State R Id Thread)

def setPhase (r : R) (phase : Phase) : State R Id Thread :=
  { s with phase := update s.phase r phase }

@[simp] theorem setPhase_self (r : R) (phase : Phase) : (s.setPhase r phase).phase r = phase := by
  simp [setPhase]

@[simp] theorem setPhase_of_ne {r r' : R} (h : r' ≠ r) (phase : Phase) :
    (s.setPhase r phase).phase r' = s.phase r' := by
  simp [setPhase, h]

/-- The maps, from the registration to the wait. -/
def register (r : R) : State R Id Thread :=
  { s.setPhase r .waiting with
    future := update s.future r .pending
    pending := update s.pending (calls.id r) (some r)
    approvalMeta := update s.approvalMeta (calls.id r) (some none)
    listed := update s.listed (calls.thread r)
      (if calls.id r ∈ s.listed (calls.thread r) then s.listed (calls.thread r)
        else calls.id r :: s.listed (calls.thread r)) }

/-- `self._approval_meta.get(approval_id, {}).get("resolved_decision", "deny")` -/
def resolvedDecision (i : Id) : Answer := (s.approvalMeta i).join.getD .deny

/-- A task that no longer waits cancels its future, if that is pending. -/
def dropFuture (r : R) : State R Id Thread :=
  { s with
    future := update s.future r (if s.future r = .pending then .cancelled else s.future r) }

/-- The `finally` of `_request_approval`. -/
def forget (r : R) : State R Id Thread :=
  { s with
    pending := update s.pending (calls.id r) none
    approvalMeta := update s.approvalMeta (calls.id r) none
    listed := update s.listed (calls.thread r)
      ((s.listed (calls.thread r)).filter (· ≠ calls.id r)) }

def append (record : Record Id) : State R Id Thread := { s with ledger := s.ledger ++ [record] }

def setEffect (r : R) (outcome : Outcome) : State R Id Thread :=
  { s with effect := update s.effect r (some outcome) }

/-- The answer goes to the metadata, if they are there, and to the future. -/
def accept (i : Id) (r : R) (answer : Answer) : State R Id Thread :=
  { s.setEffect r (.user answer) with
    future := update s.future r (.answered answer)
    approvalMeta := update s.approvalMeta i
      ((s.approvalMeta i).map fun _ => some answer) }

/-- `resolve_approval`, with `resolved`. -/
def resolveApproval (i : Id) (decision : Text) : Bool × State R Id Thread :=
  match normalize decision with
  | none => (false, s)
  | some answer =>
    match s.pending i with
    | none => (false, s)
    | some r => if s.future r = .pending then (true, s.accept i r answer) else (false, s)

/-- An abort denies the request, if its future is pending. -/
def deny (r : R) : State R Id Thread :=
  if s.future r = .pending then
    { s.setEffect r .abort with future := update s.future r .aborted }
  else s

def denyPending (i : Id) : State R Id Thread :=
  match s.pending i with
  | none => s
  | some r => s.deny r

/-- One approval of a pass, up to the ledger. -/
def take (p : Nat) (thread : Thread) (i : Id) (rest : List Id) : State R Id Thread :=
  let denied := s.denyPending i
  { denied with
    pending := update denied.pending i none
    approvalMeta := update denied.approvalMeta i none
    passes := update denied.passes p (some ⟨thread, rest, some i⟩) }

def setPass (p : Nat) (pass : Option (Pass Id Thread)) : State R Id Thread :=
  { s with passes := update s.passes p pass }

end State

def step (s : State R Id Thread) : Event R Id Thread → Option (State R Id Thread)
  | .announce r => if s.phase r = .idle then some (s.setPhase r .announced) else none
  | .record r =>
    if s.phase r = .announced then
      some ((s.setPhase r .recorded).append (.requested (calls.id r)))
    else none
  | .register r => if s.phase r = .recorded then some (s.register calls r) else none
  | .wake r =>
    if s.phase r = .waiting then
      (s.future r).verdict.map fun verdict =>
        s.setPhase r (.settled verdict (.user (s.resolvedDecision (calls.id r))))
    else none
  | .expire r =>
    if s.phase r = .waiting then
      some (((s.setPhase r (.settled false .timeout)).dropFuture r).setEffect r .timeout)
    else none
  | .write r =>
    match s.phase r with
    | .settled verdict outcome =>
      some ((s.setPhase r (.written verdict)).append (.resolved (calls.id r) outcome))
    | _ => none
  | .finish r =>
    match s.phase r with
    | .written verdict => some ((s.setPhase r (.returned verdict)).forget calls r)
    | _ => none
  | .cancel r =>
    match s.phase r with
    | .announced | .recorded => some (s.setPhase r .cancelled)
    | .waiting | .settled _ _ | .written _ =>
      some (((s.setPhase r .cancelled).dropFuture r).forget calls r)
    | _ => none
  | .resolve i decision => some (s.resolveApproval i decision).2
  | .beginAbort p thread =>
    if (s.passes p).isNone then some (s.setPass p (some ⟨thread, s.listed thread, none⟩)) else none
  | .takeAbort p =>
    match s.passes p with
    | some ⟨thread, i :: rest, none⟩ => some (s.take p thread i rest)
    | _ => none
  | .writeAbort p =>
    match s.passes p with
    | some ⟨thread, todo, some i⟩ =>
      some ((s.setPass p (some ⟨thread, todo, none⟩)).append (.resolved i .abort))
    | _ => none
  | .endAbort p =>
    match s.passes p with
    | some ⟨thread, [], none⟩ =>
      some { s.setPass p none with listed := update s.listed thread [] }
    | _ => none

variable {calls} {s s' : State R Id Thread}

/-- What an event does, and when. -/
inductive Moves (calls : Calls R Id Thread) (s : State R Id Thread) :
    Event R Id Thread → State R Id Thread → Prop where
  | announce {r : R} (h : s.phase r = .idle) :
      Moves calls s (.announce r) (s.setPhase r .announced)
  | record {r : R} (h : s.phase r = .announced) :
      Moves calls s (.record r) ((s.setPhase r .recorded).append (.requested (calls.id r)))
  | register {r : R} (h : s.phase r = .recorded) : Moves calls s (.register r) (s.register calls r)
  | wake {r : R} {verdict : Bool} (h : s.phase r = .waiting)
      (hverdict : (s.future r).verdict = some verdict) :
      Moves calls s (.wake r)
        (s.setPhase r (.settled verdict (.user (s.resolvedDecision (calls.id r)))))
  | expire {r : R} (h : s.phase r = .waiting) :
      Moves calls s (.expire r)
        (((s.setPhase r (.settled false .timeout)).dropFuture r).setEffect r .timeout)
  | write {r : R} {verdict : Bool} {outcome : Outcome} (h : s.phase r = .settled verdict outcome) :
      Moves calls s (.write r)
        ((s.setPhase r (.written verdict)).append (.resolved (calls.id r) outcome))
  | finish {r : R} {verdict : Bool} (h : s.phase r = .written verdict) :
      Moves calls s (.finish r) ((s.setPhase r (.returned verdict)).forget calls r)
  | leave {r : R} (h : s.phase r = .announced ∨ s.phase r = .recorded) :
      Moves calls s (.cancel r) (s.setPhase r .cancelled)
  | drop {r : R} (h : (s.phase r).Open) :
      Moves calls s (.cancel r) (((s.setPhase r .cancelled).dropFuture r).forget calls r)
  | resolve (i : Id) (decision : Text) :
      Moves calls s (.resolve i decision) (s.resolveApproval i decision).2
  | beginAbort {p : Nat} (thread : Thread) (h : s.passes p = none) :
      Moves calls s (.beginAbort p thread) (s.setPass p (some ⟨thread, s.listed thread, none⟩))
  | takeAbort {p : Nat} {thread : Thread} {i : Id} {rest : List Id}
      (h : s.passes p = some ⟨thread, i :: rest, none⟩) :
      Moves calls s (.takeAbort p) (s.take p thread i rest)
  | writeAbort {p : Nat} {thread : Thread} {todo : List Id} {i : Id}
      (h : s.passes p = some ⟨thread, todo, some i⟩) :
      Moves calls s (.writeAbort p)
        ((s.setPass p (some ⟨thread, todo, none⟩)).append (.resolved i .abort))
  | endAbort {p : Nat} {thread : Thread} (h : s.passes p = some ⟨thread, [], none⟩) :
      Moves calls s (.endAbort p)
        { s.setPass p none with listed := update s.listed thread [] }

theorem moves_of_step {e : Event R Id Thread} (h : step calls s e = some s') :
    Moves calls s e s' := by
  cases e with
  | announce r =>
    obtain ⟨hguard, rfl⟩ := Steps.of_guard h
    exact .announce hguard
  | record r =>
    obtain ⟨hguard, rfl⟩ := Steps.of_guard h
    exact .record hguard
  | register r =>
    obtain ⟨hguard, rfl⟩ := Steps.of_guard h
    exact .register hguard
  | wake r =>
    dsimp only [step] at h
    split at h
    · obtain ⟨verdict, hverdict, rfl⟩ := Option.map_eq_some_iff.mp h
      exact .wake ‹_› hverdict
    · cases h
  | expire r =>
    obtain ⟨hguard, rfl⟩ := Steps.of_guard h
    exact .expire hguard
  | write r =>
    dsimp only [step] at h
    split at h
    · cases h
      exact .write ‹_›
    · cases h
  | finish r =>
    dsimp only [step] at h
    split at h
    · cases h
      exact .finish ‹_›
    · cases h
  | cancel r =>
    dsimp only [step] at h
    split at h
    case h_1 hr =>
      cases h
      exact .leave (Or.inl hr)
    case h_2 hr =>
      cases h
      exact .leave (Or.inr hr)
    case h_6 => cases h
    all_goals
      cases h
      exact .drop (by simp [Phase.Open, *])
  | resolve i decision =>
    cases h
    exact .resolve i decision
  | beginAbort p thread =>
    obtain ⟨hp, rfl⟩ := Steps.of_guard h
    exact .beginAbort thread (Option.isNone_iff_eq_none.mp hp)
  | takeAbort p =>
    dsimp only [step] at h
    split at h
    · cases h
      exact .takeAbort ‹_›
    · cases h
  | writeAbort p =>
    dsimp only [step] at h
    split at h
    · cases h
      exact .writeAbort ‹_›
    · cases h
  | endAbort p =>
    dsimp only [step] at h
    split at h
    · cases h
      exact .endAbort ‹_›
    · cases h

end Step

end MiqroForge.Approvals
