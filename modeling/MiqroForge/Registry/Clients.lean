import MiqroForge.Library.Steps
import MiqroForge.Library.Table
import MiqroForge.Library.PyText
import Mathlib.Data.Finset.Erase
import Mathlib.Data.Finset.Insert

/-!
`ClientSessionRegistry` as its callers drive it, from any number of tasks. A task gives up control
where it waits for the lock, and where it awaits the start or the stop of a runtime or the end of a
sandbox. A runtime has the number of the call that makes it.
-/

set_option linter.unusedSectionVars false

namespace MiqroForge.Registry

open PyText Function

/-- A data-root workspace. -/
abbrev Root := Text

/-- The arguments of `create_session`, and the account root it samples. -/
structure Request where
  client : Text
  key : Text
  manager : Option Nat
  /-- The workspace is not the home, so the binding is written. -/
  folder : Bool
  root : Option Root
deriving DecidableEq

/-- `f"{client_id}:{session_key}"` -/
def sessionId (client key : Text) : Text := client ++ ':' :: key

def Request.id (req : Request) : Text := sessionId req.client req.key

/-- `session_id.split(":", 1)[1] if ":" in session_id else session_id` -/
def keyOfId (id : Text) : Text :=
  if ':' ∈ id then (id.dropWhile (· ≠ ':')).tail else id

/-- The arguments of `_discard_session`. -/
structure Discard where
  id : Text
  runtime : Nat
  manager : Option Nat
  key : Text
  client : Text
deriving DecidableEq

/-- What the caller of `_discard_session` does next. -/
inductive After where
  | make (req : Request)
  | fail
  | answer
deriving DecidableEq

/-- Where a call stands. -/
inductive Phase where
  | idle
  /-- `create_session` waits for the lock. -/
  | lining (req : Request)
  /-- `get_session` waits for the lock. -/
  | waiting (client id : Text)
  /-- `_discard_session` awaits the stop. -/
  | retiring (after : After) (d : Discard)
  /-- `_discard_session` awaits `manager.destroy`. -/
  | destroying (after : After) (d : Discard) (manager : Nat)
  | starting (req : Request)
  /-- The binding could not be written, and the new runtime is stopped. -/
  | rollingBack
  /-- `stop_session` awaits the stop, with these sessions still to come. -/
  | stopping (sweep : Bool) (id : Text) (runtime : Nat) (rest : List Text)
  | answered (result : Option Nat)
  | failed
  | done
deriving DecidableEq

/-- The call is over, or has not begun. -/
def Phase.over : Phase → Prop
  | .idle | .answered _ | .failed | .done => True
  | _ => False

instance : DecidablePred Phase.over := fun p => by
  cases p <;> unfold Phase.over <;> infer_instance

/-- The call holds the lock. -/
def Phase.inside : Phase → Prop
  | .retiring _ _ | .destroying _ _ _ | .starting _ | .rollingBack => True
  | _ => False

structure State where
  /-- `_client_sessions` -/
  clientSessions : Text → Finset Text
  /-- `_session_clients` -/
  sessionClients : Text → Finset Text
  /-- `_sessions` -/
  sessions : List (Text × Nat)
  /-- `_last_activity` -/
  lastActivity : List (Text × Nat)
  /-- `_session_account` -/
  sessionAccount : Text → Option Root
  /-- `_sandbox_manager` -/
  sandboxManager : Option Nat
  /-- The calls in line for `_lock`; the first one has it or gets it next. -/
  queue : List Nat
  phase : Nat → Phase
  /-- The root of the account in use. -/
  active : Root
  /-- The lookup of the account works. -/
  readable : Bool
  clock : Nat
  /-- The runtime has started, and no stop of it has ended. -/
  running : Nat → Bool
  /-- A stop of the runtime returned. -/
  stopped : Nat → Bool
  /-- The account root in force when the runtime was made, and what it was made for. -/
  madeUnder : Nat → Option Root
  madeFor : Nat → Option Request
  /-- The sandboxes of the managers, by session key and client, and who opened them. -/
  boxes : Nat × Text × Text → Option Nat
  /-- The runtimes that calls returned, with the account root in force. -/
  returned : List (Nat × Nat × Root)
  /-- The runtimes that calls refused. -/
  refused : List (Nat × Nat)
  /-- The sessions evicted, with the time and their last activity. -/
  evicted : List (Text × Nat × Option Nat)

def init (active : Root) : State where
  clientSessions := fun _ => ∅
  sessionClients := fun _ => ∅
  sessions := []
  lastActivity := []
  sessionAccount := fun _ => none
  sandboxManager := none
  queue := []
  phase := fun _ => .idle
  active := active
  readable := true
  clock := 0
  running := fun _ => false
  stopped := fun _ => false
  madeUnder := fun _ => none
  madeFor := fun _ => none
  boxes := fun _ => none
  returned := []
  refused := []
  evicted := []

inductive Event where
  | create (c : Nat) (client key : Text) (manager : Option Nat) (folder : Bool)
  | get (c : Nat) (client id : Text)
  | authorize (owner id target : Text)
  | stop (c : Nat) (id : Text)
  | stopAll (c : Nat)
  | evict (c : Nat)
  /-- The first call in line gets the lock. -/
  | woken (c : Nat)
  /-- `runtime.start()` ends, and the binding is or is not written. -/
  | started (c : Nat) (ok bound : Bool)
  /-- The stop that the call awaits ends. -/
  | ended (c : Nat) (ok : Bool)
  | destroyed (c : Nat) (ok : Bool)
  /-- A running runtime opens its sandbox. -/
  | opens (runtime : Nat)
  | switch (active : Root) (readable : Bool)
  | tick (seconds : Nat)

namespace State
variable (s : State)

/-- `_current_account_root()` -/
def currentAccountRoot : Option Root := if s.readable then some s.active else none

def accountMatches (id : Text) : Bool :=
  match s.sessionAccount id with
  | none => true
  | some recorded =>
    match s.currentAccountRoot with
    | none => false
    | some current => recorded = current

def setPhase (c : Nat) (phase : Phase) : State :=
  { s with phase := update s.phase c phase }

/-- The call gets in line for the lock; `create_session` has noted its manager. -/
def enlist (c : Nat) (manager : Option Nat) : State :=
  { s with
    sandboxManager := if manager.isSome then manager else s.sandboxManager
    queue := s.queue ++ [c] }

@[simp] theorem enlist_phase (c : Nat) (manager : Option Nat) :
    (s.enlist c manager).phase = s.phase := rfl

@[simp] theorem enlist_queue (c : Nat) (manager : Option Nat) :
    (s.enlist c manager).queue = s.queue ++ [c] := rfl

/-- The call is over and gives the lock back. -/
def leave (c : Nat) (phase : Phase) : State := { s.setPhase c phase with queue := s.queue.tail }

/-- `_last_activity[session_id] = time.time()` -/
def touch (id : Text) : State := { s with lastActivity := Table.set s.lastActivity id s.clock }

/-- Note what a call returns. -/
def returns (c : Nat) (result : Option Nat) : State :=
  { s with
    returned :=
      match result with
      | some runtime => (c, runtime, s.active) :: s.returned
      | none => s.returned }

/-- `_client_sessions.setdefault(client_id, set()).add(session_id)` and the same the other way. -/
def link (client id : Text) : State :=
  { s with
    clientSessions := update s.clientSessions client (insert id (s.clientSessions client))
    sessionClients := update s.sessionClients id (insert client (s.sessionClients id)) }

/-- What stopping and discarding forget of a session beside its runtime. -/
def unlink (id : Text) : State :=
  { s with
    clientSessions := fun client => (s.clientSessions client).erase id
    sessionClients := update s.sessionClients id ∅
    lastActivity := Table.remove s.lastActivity id
    sessionAccount := update s.sessionAccount id none }

/-- `_sessions.pop(session_id, None)` -/
def pop (id : Text) : State := { s with sessions := Table.remove s.sessions id }

/-- A stop of the runtime has ended. -/
def halted (runtime : Nat) (ok : Bool) : State :=
  { s with
    running := update s.running runtime false
    stopped := update s.stopped runtime (s.stopped runtime || ok) }

/-- `RuntimeSession.create`, up to the start. -/
def make (c : Nat) (req : Request) : State :=
  { s.setPhase c (.starting req) with
    madeUnder := update s.madeUnder c (some s.active)
    madeFor := update s.madeFor c (some req) }

/-- `_discard_session`, up to the stop. -/
def discard (c : Nat) (after : After) (d : Discard) : State :=
  { s.setPhase c (.retiring after d) with refused := (c, d.runtime) :: s.refused }

/-- The caller of `_discard_session` goes on. -/
def proceed (c : Nat) : After → State
  | .make req => s.make c req
  | .fail => s.leave c .failed
  | .answer => s.leave c (.answered none)

/-- The manager that `_discard_session` asks. -/
def managerFor (d : Discard) : Option Nat :=
  match d.manager with
  | some manager => some manager
  | none => s.sandboxManager

/-- The sandbox that `_discard_session` destroys. -/
def target (d : Discard) : Option (Nat × Text × Text) :=
  if d.key = [] then none else (s.managerFor d).map fun manager => (manager, d.client, d.key)

/-- `_discard_session`, behind the stop. -/
def forget (c : Nat) (after : After) (d : Discard) : State :=
  match s.target d with
  | some (manager, _, _) => ((s.pop d.id).unlink d.id).setPhase c (.destroying after d manager)
  | none => ((s.pop d.id).unlink d.id).proceed c after

/-- The section of `create_session` under the lock, up to its first await. -/
def enterCreate (c : Nat) (req : Request) : State :=
  match Table.get? s.sessions req.id with
  | some runtime =>
    if s.accountMatches req.id then
      (((s.link req.client req.id).touch req.id).returns c (some runtime)).leave c
        (.answered (some runtime))
    else s.discard c (.make req) ⟨req.id, runtime, req.manager, req.key, req.client⟩
  | none => s.make c req

/-- The section of `get_session` under the lock, up to its first await. -/
def enterGet (c : Nat) (client id : Text) : State :=
  match Table.get? s.sessions id with
  | some stale =>
    if s.accountMatches id then s.leave c (.answered none)
    else s.discard c .answer ⟨id, stale, none, keyOfId id, client⟩
  | none => s.leave c (.answered none)

/-- The runtime is up: it enters the registry. -/
def register (c : Nat) (req : Request) : State :=
  let entered := { s with
    sessions := Table.set s.sessions req.id c
    sessionAccount :=
      match req.root with
      | some root => update s.sessionAccount req.id (some root)
      | none => s.sessionAccount
    clientSessions :=
      update s.clientSessions req.client (insert req.id (s.clientSessions req.client))
    sessionClients := update s.sessionClients req.id {req.client} }
  ((entered.touch req.id).returns c (some c)).leave c (.answered (some c))

/-- `create_session`, behind the start. -/
def launched (c : Nat) (req : Request) (bound : Bool) : State :=
  let up := { s with running := update s.running c true }
  if req.folder && !bound then up.setPhase c .rollingBack
  else if s.currentAccountRoot ≠ req.root then
    up.discard c .fail ⟨req.id, c, req.manager, req.key, req.client⟩
  else up.register c req

/-- `stop_session` on the sessions in turn, up to the next await. -/
def stopNext (c : Nat) (sweep : Bool) : List Text → State
  | [] => s.setPhase c .done
  | id :: rest =>
    match Table.get? s.sessions id with
    | none => stopNext c sweep rest
    | some runtime =>
      { (s.pop id).setPhase c (.stopping sweep id runtime rest) with
        evicted := if sweep then (id, s.clock, Table.get? s.lastActivity id) :: s.evicted
          else s.evicted }

end State

section Step
variable (idleTimeout : Nat)

/-- The sessions that `evict_idle_sessions` goes through. -/
def State.idle (s : State) : List Text :=
  (s.lastActivity.filter fun entry => idleTimeout < s.clock - entry.2).map Prod.fst

def step (s : State) : Event → Option State
  | .create c client key manager folder =>
    match s.phase c with
    | .idle =>
      let req : Request := ⟨client, key, manager, folder, s.currentAccountRoot⟩
      if s.queue = [] then some ((s.enlist c manager).enterCreate c req)
      else some ((s.enlist c manager).setPhase c (.lining req))
    | _ => none
  | .get c client id =>
    match s.phase c with
    | .idle =>
      if client ∉ s.sessionClients id then some (s.setPhase c (.answered none))
      else if (Table.get? s.sessions id).isSome && !s.accountMatches id then
        if s.queue = [] then some ((s.enlist c none).enterGet c client id)
        else some ((s.enlist c none).setPhase c (.waiting client id))
      else
        let result := Table.get? s.sessions id
        some (((s.touch id).returns c result).setPhase c (.answered result))
    | _ => none
  | .authorize owner id target =>
    if owner ∈ s.sessionClients id then some (s.link target id) else some s
  | .stop c id =>
    match s.phase c with
    | .idle => some (s.stopNext c false [id])
    | _ => none
  | .stopAll c =>
    match s.phase c with
    | .idle => some (s.stopNext c false (s.sessions.map Prod.fst))
    | _ => none
  | .evict c =>
    match s.phase c with
    | .idle => some (s.stopNext c true (s.idle idleTimeout))
    | _ => none
  | .woken c =>
    if s.queue.head? = some c then
      match s.phase c with
      | .lining req => some (s.enterCreate c req)
      | .waiting client id => some (s.enterGet c client id)
      | _ => none
    else none
  | .started c ok bound =>
    match s.phase c with
    | .starting req => if ok then some (s.launched c req bound) else some (s.leave c .failed)
    | _ => none
  | .ended c ok =>
    match s.phase c with
    | .retiring after d => some ((s.halted d.runtime ok).forget c after d)
    | .rollingBack => some ((s.halted c ok).leave c .failed)
    | .stopping sweep id runtime rest =>
      some (((s.halted runtime ok).unlink id).stopNext c sweep rest)
    | _ => none
  | .destroyed c ok =>
    match s.phase c with
    | .destroying after d manager =>
      let s' := if ok then { s with boxes := update s.boxes (manager, d.client, d.key) none }
        else s
      some (s'.proceed c after)
    | _ => none
  | .opens runtime =>
    if s.running runtime then
      match s.madeFor runtime with
      | some ⟨client, key, some manager, _, _⟩ =>
        if s.boxes (manager, client, key) = none then
          some { s with boxes := update s.boxes (manager, client, key) (some runtime) }
        else some s
      | _ => none
    else none
  | .switch active readable => some { s with active := active, readable := readable }
  | .tick seconds => some { s with clock := s.clock + seconds }

variable {idleTimeout} {s s' : State}

/-- `create_session` or `get_session` has waited for the lock, or waits for nobody. -/
inductive Enters (s : State) (c : Nat) : State → Prop where
  | create (client key : Text) (manager : Option Nat) (folder : Bool) (h : s.phase c = .idle)
      (hq : s.queue = []) :
      Enters s c ((s.enlist c manager).enterCreate c
        ⟨client, key, manager, folder, s.currentAccountRoot⟩)
  | lining {req : Request} (h : s.phase c = .lining req) (hq : s.queue.head? = some c) :
      Enters s c (s.enterCreate c req)
  | get {client id : Text} (h : s.phase c = .idle) (hq : s.queue = []) :
      Enters s c ((s.enlist c none).enterGet c client id)
  | waiting {client id : Text} (h : s.phase c = .waiting client id) (hq : s.queue.head? = some c) :
      Enters s c (s.enterGet c client id)

/-- What an event does, and when. -/
inductive Moves (idleTimeout : Nat) (s : State) : Event → State → Prop where
  | enters {c : Nat} {e : Event} {t : State} (h : Enters s c t) : Moves idleTimeout s e t
  | lining {c : Nat} {client key : Text} {manager : Option Nat} {folder : Bool}
      (h : s.phase c = .idle) (hq : s.queue ≠ []) :
      Moves idleTimeout s (.create c client key manager folder) ((s.enlist c manager).setPhase c
        (.lining ⟨client, key, manager, folder, s.currentAccountRoot⟩))
  | unauthorized {c : Nat} {client id : Text} (h : s.phase c = .idle) :
      Moves idleTimeout s (.get c client id) (s.setPhase c (.answered none))
  | waiting {c : Nat} {client id : Text} (h : s.phase c = .idle) (hq : s.queue ≠ []) :
      Moves idleTimeout s (.get c client id)
        ((s.enlist c none).setPhase c (.waiting client id))
  | got {c : Nat} {client id : Text} (h : s.phase c = .idle) (hclient : client ∈ s.sessionClients id)
      (hmatch : (Table.get? s.sessions id).isSome → s.accountMatches id = true) :
      Moves idleTimeout s (.get c client id)
        (((s.touch id).returns c (Table.get? s.sessions id)).setPhase c
          (.answered (Table.get? s.sessions id)))
  | authorize {owner id target : Text} (h : owner ∈ s.sessionClients id) :
      Moves idleTimeout s (.authorize owner id target) (s.link target id)
  | stranger {owner id target : Text} : Moves idleTimeout s (.authorize owner id target) s
  | stop {c : Nat} {e : Event} {sweep : Bool} {ids : List Text} (h : s.phase c = .idle)
      (he : e = .evict c ∧ sweep = true ∧ ids = s.idle idleTimeout ∨
        sweep = false ∧ (e = .stopAll c ∨ ∃ id, e = .stop c id)) :
      Moves idleTimeout s e (s.stopNext c sweep ids)
  | launched {c : Nat} {req : Request} {bound : Bool} (h : s.phase c = .starting req) :
      Moves idleTimeout s (.started c true bound) (s.launched c req bound)
  | dead {c : Nat} {req : Request} {bound : Bool} (h : s.phase c = .starting req) :
      Moves idleTimeout s (.started c false bound) (s.leave c .failed)
  | retired {c : Nat} {after : After} {d : Discard} {ok : Bool} (h : s.phase c = .retiring after d) :
      Moves idleTimeout s (.ended c ok) ((s.halted d.runtime ok).forget c after d)
  | rolledBack {c : Nat} {ok : Bool} (h : s.phase c = .rollingBack) :
      Moves idleTimeout s (.ended c ok) ((s.halted c ok).leave c .failed)
  | ended {c : Nat} {sweep : Bool} {id : Text} {runtime : Nat} {rest : List Text} {ok : Bool}
      (h : s.phase c = .stopping sweep id runtime rest) :
      Moves idleTimeout s (.ended c ok) (((s.halted runtime ok).unlink id).stopNext c sweep rest)
  | destroyed {c : Nat} {after : After} {d : Discard} {manager : Nat} {ok : Bool}
      (h : s.phase c = .destroying after d manager) :
      Moves idleTimeout s (.destroyed c ok)
        ((if ok then { s with boxes := update s.boxes (manager, d.client, d.key) none }
          else s).proceed c after)
  | opens {runtime manager : Nat} {client key : Text} {folder : Bool} {root : Option Root}
      (h : s.running runtime = true)
      (hfor : s.madeFor runtime = some ⟨client, key, some manager, folder, root⟩)
      (hfree : s.boxes (manager, client, key) = none) :
      Moves idleTimeout s (.opens runtime)
        { s with boxes := update s.boxes (manager, client, key) (some runtime) }
  | open' {runtime : Nat} : Moves idleTimeout s (.opens runtime) s
  | switch {active : Root} {readable : Bool} :
      Moves idleTimeout s (.switch active readable) { s with active := active, readable := readable }
  | tick {seconds : Nat} :
      Moves idleTimeout s (.tick seconds) { s with clock := s.clock + seconds }

theorem moves_of_step {e : Event} (h : step idleTimeout s e = some s') :
    Moves idleTimeout s e s' := by
  cases e with
  | create c client key manager folder =>
    dsimp only [step] at h
    split at h
    case h_2 => cases h
    case h_1 hp =>
      split at h
      case isTrue hq =>
        cases h
        exact .enters (.create client key manager folder hp hq)
      case isFalse hq =>
        cases h
        exact .lining hp hq
  | get c client id =>
    dsimp only [step] at h
    split at h
    case h_2 => cases h
    case h_1 hp =>
      split at h
      case isTrue =>
        cases h
        exact .unauthorized hp
      case isFalse hclient =>
        split at h
        case isTrue =>
          split at h
          case isTrue hq =>
            cases h
            exact .enters (.get hp hq)
          case isFalse hq =>
            cases h
            exact .waiting hp hq
        case isFalse hmatch =>
          cases h
          refine .got hp (not_not.mp hclient) fun hsome => ?_
          rw [hsome] at hmatch
          simpa using hmatch
  | authorize owner id target =>
    dsimp only [step] at h
    split at h
    case isTrue hm =>
      cases h
      exact .authorize hm
    case isFalse =>
      cases h
      exact .stranger
  | stop c id =>
    dsimp only [step] at h
    split at h
    case h_2 => cases h
    case h_1 hp =>
      cases h
      exact .stop hp (Or.inr ⟨rfl, Or.inr ⟨id, rfl⟩⟩)
  | stopAll c =>
    dsimp only [step] at h
    split at h
    case h_2 => cases h
    case h_1 hp =>
      cases h
      exact .stop hp (Or.inr ⟨rfl, Or.inl rfl⟩)
  | evict c =>
    dsimp only [step] at h
    split at h
    case h_2 => cases h
    case h_1 hp =>
      cases h
      exact .stop hp (Or.inl ⟨rfl, rfl, rfl⟩)
  | woken c =>
    dsimp only [step] at h
    split at h
    case isFalse => cases h
    case isTrue hq =>
      split at h
      case h_1 hp =>
        cases h
        exact .enters (.lining hp hq)
      case h_2 hp =>
        cases h
        exact .enters (.waiting hp hq)
      case h_3 => cases h
  | started c ok bound =>
    dsimp only [step] at h
    split at h
    case h_2 => cases h
    case h_1 hp =>
      cases ok with
      | true =>
        cases h
        exact .launched hp
      | false =>
        cases h
        exact .dead hp
  | ended c ok =>
    dsimp only [step] at h
    split at h
    case h_1 hp =>
      cases h
      exact .retired hp
    case h_2 hp =>
      cases h
      exact .rolledBack hp
    case h_3 hp =>
      cases h
      exact .ended hp
    case h_4 => cases h
  | destroyed c ok =>
    dsimp only [step] at h
    split at h
    case h_2 => cases h
    case h_1 hp =>
      cases h
      exact .destroyed hp
  | opens runtime =>
    dsimp only [step] at h
    split at h
    case isFalse => cases h
    case isTrue hrun =>
      split at h
      case h_2 => cases h
      case h_1 hfor =>
        split at h
        case isTrue hfree =>
          cases h
          exact .opens hrun hfor hfree
        case isFalse =>
          cases h
          exact .open'
  | switch active readable =>
    cases h
    exact .switch
  | tick seconds =>
    cases h
    exact .tick

end Step

end MiqroForge.Registry
