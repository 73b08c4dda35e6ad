import MiqroForge.Library.PyText
import MiqroForge.Library.Steps
import MiqroForge.Library.Table

/-!
The registry of `WorkbenchProcessRuntime`: `spawn` and `spawn_background` with their runners,
`kill`, `kill_client`, `stop_all` and the history of a client, one step for what happens without
an `await` in between.
-/

namespace MiqroForge.Workbench

open PyText

/-! ## Processes -/

inductive TerminationReason where
  | exited
  | killed
  | timeout
  | clientDisconnected
  | serverShutdown
  deriving DecidableEq

/-- Where the task is that awaits `_run_process`. -/
inductive Runner where
  | running
  /-- `_run_process` has returned with this reason. -/
  | returned (reason : TerminationReason)
  /-- The entry is popped. -/
  | finished
  deriving DecidableEq

/-- `(client_id, handle_id)`. -/
abbrev Key := Text × Text

structure Handle where
  clientId : Text
  handleId : Text
  clientVisible : Bool
  /-- Of `spawn_background`. -/
  background : Bool
  /-- `process.returncode is None`. -/
  alive : Bool := true
  terminationReason : Option TerminationReason := none
  historyRecorded : Bool := false
  runner : Runner := .running
  deriving DecidableEq

def Handle.key (h : Handle) : Key := (h.clientId, h.handleId)

structure Snapshot where
  process : Nat
  terminationReason : Option TerminationReason
  deriving DecidableEq

/-- A call of `kill_client`, or of `stop_all`, which has no client. -/
structure Sweep where
  client : Option Text
  todo : List Nat
  /-- The process it is killing. -/
  current : Option Nat := none
  deriving DecidableEq

/-- The handles a sweep is for. -/
def Sweep.covers (client : Option Text) (key : Key) : Bool := client.all fun c => key.1 == c

def Sweep.reason (client : Option Text) : TerminationReason :=
  if client.isSome then .clientDisconnected else .serverShutdown

/-- The processes are numbered in the order of their start. -/
structure Registry where
  procs : List Handle := []
  handles : List (Key × Nat) := []
  history : List (Text × List Snapshot) := []
  /-- Every call of `_record_history`. -/
  records : List (Text × Snapshot) := []
  /-- The processes of the calls of `kill` that have not returned. -/
  kills : List Nat := []
  sweeps : List Sweep := []
  deriving DecidableEq

namespace Registry

/-- The handle of process `p` changes. -/
def modify (r : Registry) (p : Nat) (f : Handle → Handle) : Registry :=
  { r with procs := r.procs.modify p f }

def setReason (r : Registry) (p : Nat) (reason : TerminationReason) : Registry :=
  r.modify p fun h => { h with terminationReason := some reason }

/-- The snapshot of a process is recorded unless it has been; the history is bounded. -/
def recordHistory (historyMax : Nat) (r : Registry) (p : Nat)
    (reason : Option TerminationReason) : Registry :=
  match r.procs[p]? with
  | some h =>
    if h.clientVisible && !h.historyRecorded then
      let history := (Table.get? r.history h.clientId).getD [] ++ [⟨p, reason⟩]
      { r.modify p fun h => { h with historyRecorded := true } with
        history := Table.set r.history h.clientId (history.drop (history.length - historyMax))
        records := r.records ++ [(h.clientId, ⟨p, reason⟩)] }
    else r
  | none => r

end Registry

/-! ## Steps -/

inductive Action where
  /-- The locked part of `spawn` and `spawn_background`, with a command that starts. -/
  | spawn (client handleId : Text) (clientVisible background : Bool)
  /-- The process ends. -/
  | ends (p : Nat)
  /-- The timeout of the process is over. -/
  | timeout (p : Nat)
  /-- `_run_process` returns to the runner. -/
  | returns (p : Nat)
  /-- The runner pops the entry. -/
  | pop (p : Nat)
  | kill (client handleId : Text) (requireClientVisible : Bool)
  /-- The `i`-th open call of `kill` finds its process dead and returns. -/
  | killed (i : Nat)
  /-- `kill_client`, or `stop_all`, begins. -/
  | sweep (client : Option Text)
  /-- The `i`-th sweep takes its next handle. -/
  | mark (i : Nat)
  /-- The `i`-th sweep finds its process dead. -/
  | marked (i : Nat)
  /-- The `i`-th sweep removes the entries. -/
  | swept (i : Nat)
  deriving DecidableEq

section Step
variable (historyMax : Nat)

def act (r : Registry) : Action → Option Registry
  | .spawn client handleId clientVisible background =>
    if (Table.get? r.handles (client, handleId)).isSome then none
    else some { r with
      procs := r.procs ++ [{ clientId := client, handleId, clientVisible, background }]
      handles := Table.set r.handles (client, handleId) r.procs.length }
  | .ends p =>
    match r.procs[p]? with
    | some h => if h.alive then some (r.modify p fun h => { h with alive := false }) else none
    | none => none
  | .timeout p =>
    match r.procs[p]? with
    | some h => if h.alive then some (r.setReason p .timeout) else none
    | none => none
  | .returns p =>
    match r.procs[p]? with
    | some h =>
      if h.runner = .running ∧ h.alive = false then
        let reason := h.terminationReason.getD .exited
        let r := r.setReason p reason
        let r := if h.background then r.recordHistory historyMax p (some reason) else r
        some (r.modify p fun h => { h with runner := .returned reason })
      else none
    | none => none
  | .pop p =>
    match r.procs[p]? with
    | some h =>
      match h.runner with
      | .returned reason =>
        let r := { r with handles := Table.remove r.handles h.key }
        let r := if h.background then r else r.recordHistory historyMax p (some reason)
        some (r.modify p fun h => { h with runner := .finished })
      | _ => none
    | none => none
  | .kill client handleId requireClientVisible =>
    match Table.get? r.handles (client, handleId) with
    | some p =>
      match r.procs[p]? with
      | some h =>
        if requireClientVisible && !h.clientVisible then none
        else some { r.setReason p .killed with kills := r.kills ++ [p] }
      | none => none
    | none => none
  | .killed i =>
    match r.kills[i]? with
    | some p =>
      match r.procs[p]? with
      | some h =>
        if h.alive then none
        else
          let r := r.recordHistory historyMax p h.terminationReason
          some { r with kills := r.kills.eraseIdx i }
      | none => none
    | none => none
  | .sweep client =>
    let todo := (r.handles.filter fun e => Sweep.covers client e.1).map Prod.snd
    some { r with sweeps := r.sweeps ++ [{ client, todo }] }
  | .mark i =>
    match r.sweeps[i]? with
    | some { client, todo := p :: todo, current := none } =>
      some { r.setReason p (Sweep.reason client) with
        sweeps := r.sweeps.set i { client, todo, current := some p } }
    | _ => none
  | .marked i =>
    match r.sweeps[i]? with
    | some { client, todo, current := some p } =>
      match r.procs[p]? with
      | some h =>
        if h.alive then none
        else some { r with sweeps := r.sweeps.set i { client, todo, current := none } }
      | none => none
    | _ => none
  | .swept i =>
    match r.sweeps[i]? with
    | some { client, todo := [], current := none } =>
      some { r with
        handles := r.handles.filter fun e => !Sweep.covers client e.1
        sweeps := r.sweeps.eraseIdx i }
    | _ => none

end Step

/-! ## What the registry is for -/

/-- The records of a process. -/
def Registry.recordsOf (r : Registry) (p : Nat) : List (Text × Snapshot) :=
  r.records.filter fun e => e.2.process = p

def lastOf {α : Type} (n : Nat) (l : List α) : List α := l.drop (l.length - n)

/-- The history of each client has its last records. -/
def Registry.Bounded (historyMax : Nat) (r : Registry) : Prop :=
  ∀ client, (Table.get? r.history client).getD [] =
    lastOf historyMax ((r.records.filter fun e => e.1 = client).map Prod.snd)

/-- The registry as its callers see it. -/
structure Kempt (historyMax : Nat) (r : Registry) : Prop where
  /-- A process that is alive is found under its key. -/
  present : ∀ (p : Nat) (h : Handle), r.procs[p]? = some h → h.alive = true →
    Table.get? r.handles h.key = some p
  /-- A runner that pops its entry takes none of another process. -/
  apart : ∀ p r', act historyMax r (.pop p) = some r' → ∀ key q, q ≠ p →
    Table.get? r.handles key = some q → Table.get? r'.handles key = some q
  once : ∀ p, (r.recordsOf p).length ≤ 1
  /-- A visible process that is over is recorded with the reason its handle has. -/
  recorded : ∀ (p : Nat) (h : Handle), r.procs[p]? = some h → h.clientVisible = true →
    h.runner = .finished → r.recordsOf p = [(h.clientId, ⟨p, h.terminationReason⟩)]
  history : r.Bounded historyMax

/-- No key is taken again while the runner of an earlier process under it is not over, nothing
that is alive is swept away, and no kill reaches a process that has a result. -/
def Orderly (r : Registry) : Action → Prop
  | .spawn client handleId _ _ =>
    ∀ h ∈ r.procs, h.key = (client, handleId) → h.runner = .finished
  | .kill client handleId _ => ∀ p ∈ Table.get? r.handles (client, handleId),
    ∀ h ∈ r.procs[p]?, h.runner = .running ∧ h.historyRecorded = false
  | .mark i => ∀ s ∈ r.sweeps[i]?, ∀ p ∈ s.todo.head?,
    ∀ h ∈ r.procs[p]?, h.runner = .running ∧ h.historyRecorded = false
  | .swept i => ∀ s ∈ r.sweeps[i]?, ∀ e ∈ r.handles, Sweep.covers s.client e.1 = true →
    ∀ h ∈ r.procs[e.2]?, h.alive = false
  | _ => True

instance (r : Registry) : ∀ a, Decidable (Orderly r a)
  | .spawn client handleId _ _ => inferInstanceAs
    (Decidable (∀ h ∈ r.procs, h.key = (client, handleId) → h.runner = .finished))
  | .kill client handleId _ => inferInstanceAs
    (Decidable (∀ p ∈ Table.get? r.handles (client, handleId),
      ∀ h ∈ r.procs[p]?, h.runner = .running ∧ h.historyRecorded = false))
  | .mark i => inferInstanceAs (Decidable (∀ s ∈ r.sweeps[i]?, ∀ p ∈ s.todo.head?,
      ∀ h ∈ r.procs[p]?, h.runner = .running ∧ h.historyRecorded = false))
  | .swept i => inferInstanceAs (Decidable (∀ s ∈ r.sweeps[i]?, ∀ e ∈ r.handles,
      Sweep.covers s.client e.1 = true → ∀ h ∈ r.procs[e.2]?, h.alive = false))
  | .ends _ | .timeout _ | .returns _ | .pop _ | .killed _ | .sweep _ | .marked _ => isTrue trivial

end MiqroForge.Workbench
