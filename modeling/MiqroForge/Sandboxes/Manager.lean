import MiqroForge.Library.Steps
import MiqroForge.Library.PyText

/-!
`SandboxManager` as its callers drive it: `get_or_create`, `activate`, `destroy` and `destroy_all`
from any number of tasks. A task gives up control only where it awaits the probe of bwrap, the
start of a sandbox or the end of a stop. A sandbox has the number of the call that makes it.
-/

set_option linter.unusedSectionVars false

namespace MiqroForge.Sandboxes

open PyText

/-- Where a call stands. -/
inductive Phase where
  | idle
  /-- Enabled, and waits for the probe. -/
  | checking (key : Text) (activates : Bool)
  /-- Waits for the stop of the evicted sandbox. -/
  | evicting (key : Text) (activates : Bool) (victim : Text)
  | starting (key : Text) (activates : Bool)
  | got (box : Option Nat)
  | destroying (key : Text)
  /-- `destroy_all` waits for one stop, with these still to come. -/
  | clearing (rest : List Nat)
  | done

/-- The key that the call has put into `_creating`. -/
def Phase.creates : Phase → Option Text
  | .evicting key _ _ | .starting key _ => some key
  | _ => none

/-- The call still has to write the state file. -/
def Phase.owesSave : Phase → Prop
  | .evicting _ _ _ | .destroying _ | .clearing _ => True
  | _ => False

/-- The call is over, or has not begun. -/
def Phase.over : Phase → Prop
  | .idle | .got _ | .done => True
  | _ => False

structure State where
  enabled : Bool
  /-- `_sandboxes`, in its order. -/
  sandboxes : List (Text × Nat)
  creating : List Text
  activeKey : Option Text
  running : Nat → Bool
  /-- `session_key` of the sandbox. -/
  keyOf : Nat → Option Text
  /-- The keys in `sandbox_state.json`. -/
  stateFile : List Text
  phase : Nat → Phase

inductive Event where
  | get (c : Nat) (key : Text) (activates : Bool)
  | probed (c : Nat) (available : Bool)
  | evicted (c : Nat)
  | started (c : Nat) (ok : Bool)
  | destroy (c : Nat) (key : Text)
  | destroyed (c : Nat)
  | destroyAll (c : Nat)
  | stopped (c : Nat)
  | disable

section Step
variable (maxSandboxes : Nat)

def init : State where
  enabled := true
  sandboxes := []
  creating := []
  activeKey := none
  running := fun _ => false
  keyOf := fun _ => none
  stateFile := []
  phase := fun _ => .idle

namespace State
variable (s : State)

def keys : List Text := s.sandboxes.map Prod.fst

def lookup (key : Text) : Option Nat := (s.sandboxes.find? (·.1 = key)).map Prod.snd

def setPhase (c : Nat) (phase : Phase) : State :=
  { s with phase := Function.update s.phase c phase }

/-- `_sandboxes.pop(key)` -/
def pop (key : Text) : State := { s with sandboxes := s.sandboxes.filter (·.1 ≠ key) }

/-- `_sandboxes[key] = box` -/
def put (key : Text) (box : Nat) : State :=
  { s with
    sandboxes :=
      if (s.lookup key).isSome then
        s.sandboxes.map fun entry => if entry.1 = key then (key, box) else entry
      else s.sandboxes ++ [(key, box)] }

/-- `stop`, up to its first await. -/
def stop (box : Nat) : State := { s with running := Function.update s.running box false }

/-- `_save_state`. -/
def save : State := { s with stateFile := s.keys }

/-- The return of `get_or_create`, or of `activate` around it. -/
def finish (c : Nat) (key : Text) (activates : Bool) (box : Option Nat) : State :=
  { s.setPhase c (.got box) with activeKey := if activates then some key else s.activeKey }

/-- `_creating.discard(key)` -/
def discard (key : Text) : State := { s with creating := s.creating.filter (· ≠ key) }

/-- `if self._active_key == key: self._active_key = None` -/
def deactivate (key : Text) : State :=
  { s with activeKey := if s.activeKey = some key then none else s.activeKey }

/-- `_pick_eviction_candidate`. -/
def evictionCandidate : Option (Text × Nat) :=
  match s.sandboxes.find? fun entry => s.activeKey ≠ some entry.1 with
  | some entry => some entry
  | none => s.sandboxes.head?

/-- The creation, up to the start of the sandbox or the stop of another. -/
def create (c : Nat) (key : Text) (activates : Bool) : State :=
  let marked := { s with creating := key :: s.creating }
  if maxSandboxes ≤ s.sandboxes.length then
    match s.evictionCandidate with
    | some (victim, box) =>
      -- `_evict_oldest` takes an empty key for none
      if victim = [] then marked.setPhase c (.starting key activates)
      else ((marked.pop victim).stop box).setPhase c (.evicting key activates victim)
    | none => marked.setPhase c (.starting key activates)
  else marked.setPhase c (.starting key activates)

/-- The first section of `get_or_create` under the lock. -/
def test (c : Nat) (key : Text) (activates : Bool) : State :=
  match s.lookup key with
  | some box =>
    if s.running box then s.finish c key activates (some box)
    else if key ∈ s.creating then (s.pop key).finish c key activates none
    else (s.pop key).create maxSandboxes c key activates
  | none =>
    if key ∈ s.creating then s.finish c key activates none
    else s.create maxSandboxes c key activates

/-- The section behind the eviction. -/
def recheck (c : Nat) (key : Text) (activates : Bool) : State :=
  match s.lookup key with
  | some box =>
    if s.running box then (s.discard key).finish c key activates (some box)
    else s.setPhase c (.starting key activates)
  | none => s.setPhase c (.starting key activates)

/-- The sandbox has started. -/
def register (c : Nat) (key : Text) (activates : Bool) : State :=
  let box := { s with
    running := Function.update s.running c true
    keyOf := Function.update s.keyOf c (some key) }
  ((box.put key c).save.discard key).finish c key activates (some c)

/-- `destroy_all` stops the next sandbox, or is done. -/
def clear (c : Nat) : List Nat → State
  | [] => s.save.setPhase c .done
  | box :: rest => (s.stop box).setPhase c (.clearing rest)

end State

def step (s : State) : Event → Option (State)
  | .get c key activates =>
    match s.phase c with
    | .idle =>
      if s.enabled then some (s.setPhase c (.checking key activates))
      else some (s.finish c key activates none)
    | _ => none
  | .probed c available =>
    match s.phase c with
    | .checking key activates =>
      if available then some (s.test maxSandboxes c key activates)
      else some (s.finish c key activates none)
    | _ => none
  | .evicted c =>
    match s.phase c with
    | .evicting key activates victim => some ((s.save.deactivate victim).recheck c key activates)
    | _ => none
  | .started c ok =>
    match s.phase c with
    | .starting key activates =>
      if ok then some (s.register c key activates)
      else some ((s.discard key).finish c key activates none)
    | _ => none
  | .destroy c key =>
    match s.phase c with
    | .idle =>
      match s.lookup key with
      | none => some (s.setPhase c .done)
      | some box => some (((s.pop key).stop box).setPhase c (.destroying key))
    | _ => none
  | .destroyed c =>
    match s.phase c with
    | .destroying key => some ((s.save.deactivate key).setPhase c .done)
    | _ => none
  | .destroyAll c =>
    match s.phase c with
    | .idle =>
      some ({ s with sandboxes := [], activeKey := none }.clear c (s.sandboxes.map Prod.snd))
    | _ => none
  | .stopped c =>
    match s.phase c with
    | .clearing rest => some (s.clear c rest)
    | _ => none
  | .disable => some { s with enabled := false }

variable {maxSandboxes} {s s' : State}

/-- What an event does, and when. -/
inductive Moves (maxSandboxes : Nat) (s : State) : Event → State → Prop where
  | refused {c : Nat} (key : Text) (activates : Bool) (h : s.phase c = .idle) (hoff : s.enabled = false) :
      Moves maxSandboxes s (.get c key activates) (s.finish c key activates none)
  | get {c : Nat} (key : Text) (activates : Bool) (h : s.phase c = .idle) (hon : s.enabled = true) :
      Moves maxSandboxes s (.get c key activates) (s.setPhase c (.checking key activates))
  | unavailable {c : Nat} {key : Text} {activates : Bool} (h : s.phase c = .checking key activates) :
      Moves maxSandboxes s (.probed c false) (s.finish c key activates none)
  | test {c : Nat} {key : Text} {activates : Bool} (h : s.phase c = .checking key activates) :
      Moves maxSandboxes s (.probed c true) (s.test maxSandboxes c key activates)
  | evicted {c : Nat} {key : Text} {activates : Bool} {victim : Text}
      (h : s.phase c = .evicting key activates victim) :
      Moves maxSandboxes s (.evicted c) ((s.save.deactivate victim).recheck c key activates)
  | failed {c : Nat} {key : Text} {activates : Bool} (h : s.phase c = .starting key activates) :
      Moves maxSandboxes s (.started c false) ((s.discard key).finish c key activates none)
  | started {c : Nat} {key : Text} {activates : Bool} (h : s.phase c = .starting key activates) :
      Moves maxSandboxes s (.started c true) (s.register c key activates)
  | missing {c : Nat} {key : Text} (h : s.phase c = .idle) (hkey : s.lookup key = none) :
      Moves maxSandboxes s (.destroy c key) (s.setPhase c .done)
  | destroy {c : Nat} {key : Text} {box : Nat} (h : s.phase c = .idle) (hkey : s.lookup key = some box) :
      Moves maxSandboxes s (.destroy c key) (((s.pop key).stop box).setPhase c (.destroying key))
  | destroyed {c : Nat} {key : Text} (h : s.phase c = .destroying key) :
      Moves maxSandboxes s (.destroyed c) ((s.save.deactivate key).setPhase c .done)
  | destroyAll {c : Nat} (h : s.phase c = .idle) :
      Moves maxSandboxes s (.destroyAll c)
        ({ s with sandboxes := [], activeKey := none }.clear c (s.sandboxes.map Prod.snd))
  | stopped {c : Nat} {rest : List Nat} (h : s.phase c = .clearing rest) :
      Moves maxSandboxes s (.stopped c) (s.clear c rest)
  | disable : Moves maxSandboxes s .disable { s with enabled := false }

theorem moves_of_step {e : Event} (h : step maxSandboxes s e = some s') :
    Moves maxSandboxes s e s' := by
  cases e with
  | get c key activates =>
    dsimp only [step] at h
    split at h
    · split at h
      · cases h
        exact .get key activates ‹_› ‹_›
      · cases h
        exact .refused key activates ‹_› (by simpa using ‹¬s.enabled = true›)
    · cases h
  | probed c available =>
    dsimp only [step] at h
    split at h
    · cases available with
      | true =>
        cases h
        exact .test ‹_›
      | false =>
        cases h
        exact .unavailable ‹_›
    · cases h
  | evicted c =>
    dsimp only [step] at h
    split at h
    · cases h
      exact .evicted ‹_›
    · cases h
  | started c ok =>
    dsimp only [step] at h
    split at h
    · cases ok with
      | true =>
        cases h
        exact .started ‹_›
      | false =>
        cases h
        exact .failed ‹_›
    · cases h
  | destroy c key =>
    dsimp only [step] at h
    split at h
    · split at h
      · cases h
        exact .missing ‹_› ‹_›
      · cases h
        exact .destroy ‹_› ‹_›
    · cases h
  | destroyed c =>
    dsimp only [step] at h
    split at h
    · cases h
      exact .destroyed ‹_›
    · cases h
  | destroyAll c =>
    dsimp only [step] at h
    split at h
    · cases h
      exact .destroyAll ‹_›
    · cases h
  | stopped c =>
    dsimp only [step] at h
    split at h
    · cases h
      exact .stopped ‹_›
    · cases h
  | disable =>
    cases h
    exact .disable

end Step

end MiqroForge.Sandboxes
