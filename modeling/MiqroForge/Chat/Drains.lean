import MiqroForge.Library.Feed
import MiqroForge.Library.Steps

/-!
The chat requests of one session: `_chat_send_handler` with its turn lock, the drains of
`_drain_chat_events`, and the session's event queue. A step goes from one suspension point to the
next. A task that is done is treated as gone, as every reader of the two tables does.
-/

namespace MiqroForge.Chat

open Steps Feeds

/-- What `_drain_chat_events` tells apart: the abort notice is an `ErrorEvent` of its own kind, and
`progress` stands for every event that is forwarded or dropped. -/
inductive Kind
  | message
  | aborted
  | error
  | notice
  | complete
  | progress
  deriving DecidableEq

/-- The terminal events of a turn. -/
def Kind.last : Kind → Bool
  | .aborted | .complete => true
  | _ => false

inductive Terminal
  | final
  | aborted
  | error
  deriving DecidableEq

/-- A message with the request's id; `source` is the event it was made from. -/
structure Reply where
  request : Nat
  terminal : Terminal
  source : Option (Item Kind)
  deriving DecidableEq

/-- Where a `chat.send` stands: between the in-progress check and `submit`, between `submit` and the
registration of its drain; then the drain before its first step, behind a predecessor, in its loop,
and done. -/
inductive Phase
  | idle
  | checked
  | submitted
  | registered
  | waiting (predecessor : Option Nat)
  | reading
  | done
  | refused
  deriving DecidableEq

structure State where
  /-- `_session_drain_tasks.get(session_id)`. -/
  lock : Option Nat
  /-- `_released_drain_tasks.get(session_id)`. -/
  released : Option Nat
  phase : Nat → Phase
  cancelling : Nat → Bool
  /-- The requests that gave up the lock before their drain was done. -/
  freed : Nat → Bool
  /-- The turn that the message of a request opens. -/
  turnOf : Nat → Option Nat
  feed : Feed Kind
  terminalSent : Nat → Bool
  replies : List Reply
  consumed : List (Nat × Item Kind)

def init : State where
  lock := none
  released := none
  phase := fun _ => .idle
  cancelling := fun _ => false
  freed := fun _ => false
  turnOf := fun _ => none
  feed := Feed.init
  terminalSent := fun _ => false
  replies := []
  consumed := []

inductive Event
  /-- `stale`: nothing has come for `STALE_TURN_TIMEOUT`. -/
  | check (r : Nat) (stale : Bool)
  | fails (r : Nat)
  | submit (r : Nat)
  | register (r : Nat)
  | start (r : Nat)
  | begin (r : Nat)
  | put (i : Item Kind)
  | read (r : Nat)
  | timeout (r : Nat)
  | crash (r : Nat)
  | cancelled (r : Nat)
  | release
  deriving DecidableEq

/-- `old is not None and not old.done()`. -/
def State.busy (s : State) : Option Nat := s.lock.filter fun r => s.phase r ≠ .done

def State.move (s : State) (r : Nat) (p : Phase) : State :=
  { s with phase := Function.update s.phase r p }

def State.emitTerminal (s : State) (r : Nat) (terminal : Terminal) (source : Option (Item Kind)) :
    State :=
  if s.terminalSent r then s
  else
    { s with
      terminalSent := Function.update s.terminalSent r true
      replies := ⟨r, terminal, source⟩ :: s.replies }

/-- The loop body of `_drain_chat_events` for one event. -/
def State.handle (s : State) (r : Nat) (i : Item Kind) : State :=
  match i.kind with
  | .message => s.emitTerminal r .final (some i)
  | .aborted => (s.emitTerminal r .aborted (some i)).move r .done
  | .notice => s
  | .error => (s.emitTerminal r .error (some i)).move r .done
  | .complete => (s.emitTerminal r .final (some i)).move r .done
  | .progress => s

/-- The drain is in its loop and no cancellation waits for it. -/
def State.Reads (s : State) (r : Nat) : Prop := s.phase r = .reading ∧ s.cancelling r = false

instance (s : State) (r : Nat) : Decidable (s.Reads r) :=
  inferInstanceAs (Decidable (_ ∧ _))

def step (s : State) : Event → Option State
  | .check r stale =>
    if s.phase r = .idle then
      match s.busy with
      | none => some (s.move r .checked)
      | some old =>
        if stale then
          some { s.move r .checked with
            lock := none
            cancelling := Function.update s.cancelling old true
            freed := Function.update s.freed old true }
        -- TURN_IN_PROGRESS
        else some (s.move r .refused)
    else none
  | .fails r => if s.phase r = .checked then some (s.move r .refused) else none
  | .submit r =>
    if s.phase r = .checked then
      some { s.move r .submitted with
        turnOf := Function.update s.turnOf r (some s.feed.turns)
        feed := s.feed.open }
    else none
  | .register r =>
    if s.phase r = .submitted then some { s.move r .registered with lock := some r } else none
  | .start r =>
    if s.phase r = .registered ∧ s.cancelling r = false then some (s.move r (.waiting s.released))
    else none
  | .begin r =>
    match s.phase r with
    | .waiting predecessor =>
      if s.cancelling r = false ∧ ∀ p ∈ predecessor, s.phase p = .done then some (s.move r .reading)
      else none
    | _ => none
  | .put i => if s.feed.May i then some { s with feed := s.feed.put Kind.last i } else none
  | .read r =>
    match s.feed.queue with
    | [] => none
    | i :: rest =>
      if s.Reads r then
        some (State.handle { s with
          feed := { s.feed with queue := rest }
          consumed := (r, i) :: s.consumed } r i)
      else none
  | .timeout r => if s.Reads r then some ((s.emitTerminal r .error none).move r .done) else none
  | .crash r => if s.Reads r then some ((s.emitTerminal r .error none).move r .done) else none
  | .cancelled r =>
    if s.cancelling r then
      match s.phase r with
      | .reading => some ((s.emitTerminal r .aborted none).move r .done)
      -- before the `try`: nothing is sent
      | .registered | .waiting _ => some (s.move r .done)
      | _ => none
    else none
  | .release =>
    match s.busy with
    | none => some { s with lock := none }
    | some r =>
      some { s with
        lock := none
        released := some r
        freed := Function.update s.freed r true }

/-! ## Outcomes -/

/-- The request is accepted and its drain is not done. -/
def State.Undrained (s : State) (r : Nat) : Prop :=
  s.phase r = .registered ∨ (∃ p, s.phase r = .waiting p) ∨ s.phase r = .reading

/-- A step that brings the drain further whatever the runtime does. -/
def State.Moves (s : State) (r : Nat) : Prop :=
  ∃ e ∈ [Event.start r, .begin r, .timeout r, .cancelled r], (step s e).isSome

/-- Each chat request gets its own turn's outcome. -/
structure Outcomes (s : State) : Prop where
  once : ∀ r, s.replies.countP (fun reply => reply.request = r) ≤ 1
  drained : ∀ r, s.phase r = .done → s.replies.countP (fun reply => reply.request = r) = 1
  progress : ∀ r, s.Undrained r → ∃ r', s.Undrained r' ∧ s.Moves r'
  own : ∀ reply ∈ s.replies, ∀ i, reply.source = some i →
    ∃ n, i.owner = some n ∧ s.turnOf reply.request = some n
  consumed : ∀ r i n, (r, i) ∈ s.consumed → i.owner = some n → s.turnOf r = some n
  single : ∀ r r', s.Undrained r → s.Undrained r' → s.freed r = false → s.freed r' = false → r = r'

/-- The sends do not overlap between check and registration, a drain that is given up is past its
first step, one that is cancelled is in its loop, a drain enters its loop when the turn of its
request is due, and what comes without a turn is an abort notice. -/
def Orderly (s : State) : Event → Prop
  | .check _ stale => (s.busy = none ∨ stale = true) →
      (∀ c, s.phase c ≠ .checked ∧ s.phase c ≠ .submitted) ∧
        ∀ old, s.busy = some old → s.phase old = .reading
  | .begin r => ∀ n, s.turnOf r = some n → Due s.feed n
  | .put i => i.owner = none → i.kind = .notice
  | .release => ∀ r, s.busy = some r → s.phase r ≠ .registered
  | _ => True

end MiqroForge.Chat
