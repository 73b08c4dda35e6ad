import MiqroForge.Execution.Permissions
import MiqroForge.Library.Steps

/-!
The permission profiles of several turns on one orchestrator.

* `profile_ends_with_turn`: as long as no allowlist entry that only an earlier profile has brought
  is the wildcard or the key of a later call, every call is decided by the engine's own lists and
  the profile of its own turn.
-/

namespace MiqroForge.Execution

open PyText Json

/-! ## Executions -/

/-- How far an execution comes: a hook blocks it before the profile is applied, or the tool is
unknown or its arguments are invalid, or it is checked. -/
inductive Screening where
  | blocked
  | rejected
  | checked
  deriving DecidableEq

inductive ExecutionEvent where
  /-- `execute` up to the permission check, for the arguments the hooks leave. -/
  | execute (call : Call) (screening : Screening)
  /-- `_record_session_approval`. -/
  | rememberSession (key : Text)
  /-- `_record_permanent_approval`. -/
  | rememberPermanent (key : Text)
  /-- The allowlist that all sessions share is replaced. -/
  | shared (keys : List Text)

/-- A call that was checked, the engine's own lists at that time, and the decision. -/
structure Checked where
  call : Call
  own : PermissionEngine
  decision : PermissionDecision

/-- The engine of an orchestrator; `own` is what it has without the profiles of the turns. -/
structure Orchestrator where
  engine : PermissionEngine
  own : PermissionEngine
  log : List Checked := []

/-- The entries a call's profile brings. -/
def Call.entries (call : Call) : List Text :=
  (call.permissionProfile.map (·.permanentAllowlist)).getD []

namespace PermissionEngine

variable (engine : PermissionEngine)

/-- `permanent_allowlist.update(profile.permanent_allowlist)`. -/
def withProfile (call : Call) : PermissionEngine :=
  { engine with permanentAllowlist := engine.permanentAllowlist ++ call.entries }

def rememberSession (key : Text) : PermissionEngine :=
  { engine with sessionAllowlist := engine.sessionAllowlist ++ [key] }

def rememberPermanent (key : Text) : PermissionEngine :=
  { engine with
    permanentAllowlist := engine.permanentAllowlist ++ [key]
    globalAllowlist := engine.globalAllowlist ++ [key] }

def share (keys : List Text) : PermissionEngine := { engine with globalAllowlist := keys }

end PermissionEngine

namespace Orchestrator

variable (host : Host)

def step (s : Orchestrator) : ExecutionEvent → Option Orchestrator
  | .execute _ .blocked => some s
  | .execute call .rejected => some { s with engine := s.engine.withProfile call }
  | .execute call .checked =>
    let engine := s.engine.withProfile call
    some { s with engine, log := s.log ++ [⟨call, s.own, engine.check host call⟩] }
  | .rememberSession key =>
    some { s with engine := s.engine.rememberSession key, own := s.own.rememberSession key }
  | .rememberPermanent key =>
    some { s with engine := s.engine.rememberPermanent key, own := s.own.rememberPermanent key }
  | .shared keys => some { s with engine := s.engine.share keys, own := s.own.share keys }

/-- An orchestrator with a configured engine. -/
def start (engine : PermissionEngine) : Orchestrator := { engine, own := engine }

/-- Each call was decided by the engine's own lists and the profile of its own turn. -/
def Scoped (s : Orchestrator) : Prop :=
  ∀ c ∈ s.log, c.decision = (c.own.withProfile c.call).check host c.call

/-- No entry that only an earlier profile has brought is the wildcard or the key of the call. -/
def Unleaked (s : Orchestrator) : ExecutionEvent → Prop
  | .execute call .checked =>
    ∀ entry ∈ s.engine.permanentAllowlist, entry = "*:*".toList ∨ entry = makeKey host call →
      entry ∈ s.own.permanentAllowlist ∨ entry ∈ call.entries
  | _ => True

/-- The engine differs from its own lists by entries of profiles only. -/
structure Widened (s : Orchestrator) : Prop where
  same : s.engine = { s.own with permanentAllowlist := s.engine.permanentAllowlist }
  own : s.own.permanentAllowlist ⊆ s.engine.permanentAllowlist

section Runs
variable {host} {s s' : Orchestrator} {call : Call}

theorem check_congr {engine : PermissionEngine} {list list' : List Text}
    (hwild : list.contains "*:*".toList = list'.contains "*:*".toList)
    (hkey : list.contains (makeKey host call) = list'.contains (makeKey host call)) :
    PermissionEngine.check host { engine with permanentAllowlist := list } call =
      PermissionEngine.check host { engine with permanentAllowlist := list' } call := by
  have hlisted : PermissionEngine.allowlisted host { engine with permanentAllowlist := list } call =
      PermissionEngine.allowlisted host { engine with permanentAllowlist := list' } call := by
    simp only [PermissionEngine.allowlisted, hwild, hkey]
  have hcheck : PermissionEngine.checkListed host { engine with permanentAllowlist := list } call =
      PermissionEngine.checkListed host { engine with permanentAllowlist := list' } call := by
    rw [PermissionEngine.checkListed, hlisted]
    rfl
  rw [PermissionEngine.check, hcheck]
  rfl

theorem contains_congr {list list' : List Text} {entry : Text}
    (h : entry ∈ list ↔ entry ∈ list') : list.contains entry = list'.contains entry := by
  rw [Bool.eq_iff_iff, List.contains_iff_mem, List.contains_iff_mem]
  exact h

theorem Widened.decision (h : Widened s) (hgood : Unleaked host s (.execute call .checked)) :
    (s.engine.withProfile call).check host call = (s.own.withProfile call).check host call := by
  have hentry : ∀ entry, entry = "*:*".toList ∨ entry = makeKey host call →
      (entry ∈ s.engine.permanentAllowlist ++ call.entries ↔
        entry ∈ s.own.permanentAllowlist ++ call.entries) := by
    intro entry hentry
    rw [List.mem_append, List.mem_append]
    constructor
    · rintro (hengine | hown)
      · exact hgood entry hengine hentry
      · exact Or.inr hown
    · rintro (hown | hentries)
      · exact Or.inl (h.own hown)
      · exact Or.inr hentries
  rw [PermissionEngine.withProfile, h.same]
  exact check_congr (contains_congr (hentry _ (Or.inl rfl))) (contains_congr (hentry _ (Or.inr rfl)))

theorem Widened.withProfile (h : Widened s) (call : Call) (log : List Checked) :
    Widened ⟨s.engine.withProfile call, s.own, log⟩ := by
  refine ⟨?_, List.Subset.trans h.own (List.subset_append_left _ _)⟩
  have hsame := congrArg (fun engine : PermissionEngine => engine.withProfile call) h.same
  exact hsame

/-- **A step.** -/
theorem step_scoped (h : Widened s ∧ Scoped host s) {e : ExecutionEvent} (hgood : Unleaked host s e)
    (hstep : step host s e = some s') : Widened s' ∧ Scoped host s' := by
  obtain ⟨hwide, hscoped⟩ := h
  cases e with
  | execute call screening =>
    cases screening with
    | blocked =>
      cases hstep
      exact ⟨hwide, hscoped⟩
    | rejected =>
      cases hstep
      exact ⟨hwide.withProfile call _, hscoped⟩
    | checked =>
      cases hstep
      refine ⟨hwide.withProfile call _, fun c hc => ?_⟩
      rcases List.mem_append.mp hc with hc | hc
      · exact hscoped c hc
      · rw [List.mem_singleton.mp hc]
        exact hwide.decision hgood
  | rememberSession key =>
    cases hstep
    refine ⟨⟨?_, hwide.own⟩, hscoped⟩
    exact congrArg (fun engine : PermissionEngine => engine.rememberSession key) hwide.same
  | rememberPermanent key =>
    cases hstep
    refine ⟨⟨?_, List.append_subset.mpr ⟨?_, ?_⟩⟩, hscoped⟩
    · exact congrArg (fun engine : PermissionEngine => engine.rememberPermanent key) hwide.same
    · exact List.Subset.trans hwide.own (List.subset_append_left _ _)
    · exact List.subset_append_right _ _
  | shared keys =>
    cases hstep
    exact ⟨⟨congrArg (fun engine : PermissionEngine => engine.share keys) hwide.same, hwide.own⟩,
      hscoped⟩

/-- **Profiles.** In a run in which no entry of an earlier profile matches a later call, every call
is decided by the engine's own lists and the profile of its own turn. -/
theorem profile_ends_with_turn (host : Host) (engine : PermissionEngine)
    (events : List ExecutionEvent) (s : Orchestrator)
    (hrun : Steps.run (step host) (start engine) events = some s)
    (hgood : Steps.GoodRun (step host) (Unleaked host) (start engine) events) : Scoped host s := by
  have hstart : Widened (start engine) ∧ Scoped host (start engine) :=
    ⟨⟨rfl, List.Subset.refl _⟩, List.forall_mem_nil _⟩
  exact (Steps.goodRun_invariant (step host) (Unleaked host) (fun s => Widened s ∧ Scoped host s)
    (fun s e s' h hg hs => step_scoped h hg hs) _ s events hstart hrun hgood).2

end Runs

/-- A host that knows ASCII letters only; the digest is not asked for below. -/
def plainHost : Host where
  printable c := 32 ≤ c.toNat && c.toNat ≤ 126
  number n := n.text
  isZero n := n.text == ['0']
  lower t := t.map Char.toLower
  isAbsolute t := ['/'].isPrefixOf t
  digest t := t

def execCall (command : String) (entries : List Text) : Call where
  toolName := "exec".toList
  arguments := [("command".toList, .str command.toList)]
  permissionProfile := some { permanentAllowlist := entries }

/-- A turn whose profile has `entries`, and a turn without. -/
def twoTurns (entries : List Text) : List ExecutionEvent :=
  [.execute (execCall "make" entries) .checked, .execute (execCall "rm x" []) .checked]

def behindTwo (entries : List Text) : Orchestrator :=
  (Steps.run (step plainHost) (start {}) (twoTurns entries)).getD (start {})

theorem twoTurns_scoped : Scoped plainHost (behindTwo ["exec:make".toList]) := by
  refine profile_ends_with_turn plainHost {} (twoTurns ["exec:make".toList]) _ rfl ?_
  refine ⟨List.forall_mem_nil _, fun s hs => ?_⟩
  cases hs
  refine ⟨fun entry hentry hmatch => ?_, fun _ _ => trivial⟩
  exfalso
  obtain rfl := List.mem_singleton.mp hentry
  revert hmatch
  decide

/-- Behind a turn whose profile has the wildcard, a call of another turn is allowed that its own
lists would ask for. -/
theorem wildcard_stays : ¬ Scoped plainHost (behindTwo ["*:*".toList]) := by
  intro h
  have hdecision := congrArg PermissionDecision.verdict
    (h ⟨execCall "rm x" [], {}, { verdict := .allow }⟩
      (List.mem_append_right _ (List.mem_singleton_self _)))
  revert hdecision
  decide

end Orchestrator

end MiqroForge.Execution
