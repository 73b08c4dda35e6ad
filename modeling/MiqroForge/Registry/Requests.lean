import MiqroForge.Registry.Runtimes

/-! What `get_session` and `create_session` answer when no other call comes between. -/

set_option linter.unusedSectionVars false

namespace MiqroForge.Registry

open PyText Function

/-- The event ends what call `c` awaits. -/
def Event.resumes (c : Nat) : Event → Bool
  | .started d _ _ | .ended d _ | .destroyed d _ => d = c
  | _ => false

section Call
variable (idleTimeout : Nat)

/-- A call that goes from its first event to its answer without another one. -/
def call (s : State) (c : Nat) (e : Event) (es : List Event) : Option (State × Option Nat) :=
  if es.all (Event.resumes c) then
    match Steps.run (step idleTimeout) s (e :: es) with
    | some t =>
      match t.phase c with
      | .answered result => some (t, result)
      | _ => none
    | none => none
  else none

end Call

/-- The runtime that `get_session` returns. -/
def State.lookup (s : State) (client id : Text) : Option Nat :=
  if client ∈ s.sessionClients id ∧ s.accountMatches id = true then Table.get? s.sessions id
  else none

variable {idleTimeout : Nat} {s t u : State} {c : Nat} {client key id : Text} {es : List Event}

variable {e : Event} {result : Option Nat}

theorem call_some (h : call idleTimeout s c e es = some (t, result)) :
    (∀ e' ∈ es, e'.resumes c = true) ∧ Steps.run (step idleTimeout) s (e :: es) = some t ∧
      t.phase c = .answered result := by
  unfold call at h
  split at h
  case isFalse => cases h
  case isTrue hall =>
    split at h
    case h_2 => cases h
    case h_1 t' hrun =>
      split at h
      case h_2 => cases h
      case h_1 result' hp =>
        cases h
        exact ⟨List.all_eq_true.mp hall, hrun, hp⟩

theorem call_induction {p : State → Prop}
    (h : call idleTimeout s c e es = some (t, result))
    (hfirst : ∀ u, step idleTimeout s e = some u → p u)
    (hnext : ∀ u v e', p u → e'.resumes c = true → step idleTimeout u e' = some v → p v) :
    p t ∧ t.phase c = .answered result := by
  obtain ⟨hall, hrun, hp⟩ := call_some h
  obtain ⟨u, hu, hrest⟩ := Steps.run_cons_some (step idleTimeout) hrun
  refine ⟨?_, hp⟩
  have hkeep : ∀ (es : List Event) (v : State), (∀ e' ∈ es, e'.resumes c = true) → p v →
      Steps.run (step idleTimeout) v es = some t → p t := by
    intro es
    induction es with
    | nil =>
      intro v _ hv hr
      exact Option.some.inj hr ▸ hv
    | cons e' es ih =>
      intro v hes hv hr
      obtain ⟨w, hw, hr'⟩ := Steps.run_cons_some (step idleTimeout) hr
      obtain ⟨he', hes'⟩ := List.forall_mem_cons.mp hes
      exact ih w hes' (hnext v w e' hv he' hw) hr'
  exact hkeep es u hall (hfirst u hu) hrest

theorem lookup_eq_some {r : Nat} : s.lookup client id = some r ↔
    client ∈ s.sessionClients id ∧ s.accountMatches id = true ∧
      Table.get? s.sessions id = some r := by
  unfold State.lookup
  split
  case isTrue h => simp [h]
  case isFalse h =>
    simp only [reduceCtorEq, false_iff]
    exact fun hall => h ⟨hall.1, hall.2.1⟩

/-- The tables have the same entries for the session, and the account is the same. -/
structure Same (s t : State) (x : Text) : Prop where
  sessions : Table.get? t.sessions x = Table.get? s.sessions x
  clients : t.sessionClients x = s.sessionClients x
  account : t.sessionAccount x = s.sessionAccount x
  root : t.currentAccountRoot = s.currentAccountRoot

/-- The tables have no entry for the session. -/
structure Cleared (t : State) (x : Text) : Prop where
  sessions : Table.get? t.sessions x = none
  clients : t.sessionClients x = ∅
  account : t.sessionAccount x = none

namespace Same
variable {x : Text}

theorem trans (h : Same s t x) (h' : Same t u x) : Same s u x where
  sessions := h'.sessions.trans h.sessions
  clients := h'.clients.trans h.clients
  account := h'.account.trans h.account
  root := h'.root.trans h.root

theorem accountMatches (h : Same s t x) : t.accountMatches x = s.accountMatches x := by
  unfold State.accountMatches
  rw [h.account, h.root]

theorem lookup (h : Same s t x) (client : Text) : t.lookup client x = s.lookup client x := by
  unfold State.lookup
  rw [h.clients, h.accountMatches, h.sessions]

end Same

theorem Cleared.of_same (h : Cleared t id) (hs : Same t u id) : Cleared u id where
  sessions := hs.sessions.trans h.sessions
  clients := hs.clients.trans h.clients
  account := hs.account.trans h.account

theorem Cleared.lookup (h : Cleared t id) (client : Text) : t.lookup client id = none := by
  unfold State.lookup
  rw [h.sessions, ite_self]

theorem cleared_unlink (s : State) (id : Text) : Cleared ((s.pop id).unlink id) id where
  sessions := Table.get?_remove_self s.sessions id
  clients := update_self id ∅ s.sessionClients
  account := by simp [State.unlink]

theorem same_unlink (s : State) {id x : Text} (hx : x ≠ id) :
    Same s ((s.pop id).unlink id) x where
  sessions := Table.get?_remove_of_ne s.sessions hx
  clients := update_of_ne hx ∅ s.sessionClients
  account := by simp [State.unlink, State.pop, hx]
  root := rfl

/-- What the end of an await does to the call. -/
inductive Resumed (t : State) (c : Nat) : State → Prop where
  | launched (req : Request) (bound : Bool) (hp : t.phase c = .starting req) :
      Resumed t c (t.launched c req bound)
  | dead (req : Request) (hp : t.phase c = .starting req) : Resumed t c (t.leave c .failed)
  | retired (after : After) (d : Discard) (ok : Bool) (hp : t.phase c = .retiring after d) :
      Resumed t c ((t.halted d.runtime ok).forget c after d)
  | rolledBack (ok : Bool) (hp : t.phase c = .rollingBack) :
      Resumed t c ((t.halted c ok).leave c .failed)
  | stopped (sweep : Bool) (id : Text) (runtime : Nat) (rest : List Text) (ok : Bool)
      (hp : t.phase c = .stopping sweep id runtime rest) :
      Resumed t c (((t.halted runtime ok).unlink id).stopNext c sweep rest)
  | destroyed (after : After) (d : Discard) (manager : Nat) (boxes : Nat × Text × Text → Option Nat)
      (hp : t.phase c = .destroying after d manager) :
      Resumed t c (State.proceed { t with boxes := boxes } c after)

theorem resumed_of_step (he : e.resumes c = true)
    (h : step idleTimeout t e = some u) : Resumed t c u := by
  cases e <;> simp only [Event.resumes, decide_eq_true_eq, Bool.false_eq_true] at he <;> subst he
  case started ok bound =>
    dsimp only [step] at h
    split at h
    case h_2 => cases h
    case h_1 req hp =>
      cases ok with
      | true =>
        cases h
        exact .launched req bound hp
      | false =>
        cases h
        exact .dead req hp
  case ended ok =>
    dsimp only [step] at h
    split at h
    case h_1 after d hp =>
      cases h
      exact .retired after d ok hp
    case h_2 hp =>
      cases h
      exact .rolledBack ok hp
    case h_3 sweep id runtime rest hp =>
      cases h
      exact .stopped sweep id runtime rest ok hp
    case h_4 => cases h
  case destroyed ok =>
    dsimp only [step] at h
    split at h
    case h_2 => cases h
    case h_1 after d manager hp =>
      cases h
      cases ok with
      | true => exact .destroyed after d manager _ hp
      | false => exact .destroyed after d manager t.boxes hp

/-- Where a `get_session` stands that began in `s`. -/
inductive Getting (s : State) (c : Nat) (client id : Text) (t : State) : Prop where
  | waiting (hp : t.phase c = .waiting client id)
  | retiring (d : Discard) (hp : t.phase c = .retiring .answer d) (hd : d.id = id)
      (hnone : s.lookup client id = none) (hsome : Table.get? s.sessions id ≠ none)
      (hsame : ∀ x, Same s t x)
  | destroying (d : Discard) (manager : Nat) (hp : t.phase c = .destroying .answer d manager)
      (hnone : s.lookup client id = none) (hsome : Table.get? s.sessions id ≠ none) (hclear : Cleared t id) (hsame : ∀ x, x ≠ id → Same s t x)
  | answered (result : Option Nat) (hp : t.phase c = .answered result)
      (hresult : result = s.lookup client id)
      (hid : Same s t id ∨ s.lookup client id = none ∧ Table.get? s.sessions id ≠ none ∧ Cleared t id)
      (hsame : ∀ x, x ≠ id → Same s t x)

theorem getting_of_step (h : step idleTimeout s (.get c client id) = some t) :
    Getting s c client id t := by
  dsimp only [step] at h
  split at h
  case h_2 => cases h
  case h_1 =>
    split at h
    case isTrue hclient =>
      cases h
      have hnone : s.lookup client id = none := if_neg fun hc => hclient hc.1
      exact .answered none (update_self ..) hnone.symm (.inl ⟨rfl, rfl, rfl, rfl⟩)
        fun _ _ => ⟨rfl, rfl, rfl, rfl⟩
    case isFalse hclient =>
      split at h
      case isTrue hstale =>
        obtain ⟨hsome, hmatch⟩ := Bool.and_eq_true_iff.mp hstale
        have hno : s.accountMatches id = false := by simpa using hmatch
        have hnone : s.lookup client id = none := if_neg fun hc => by simp [hno] at hc
        split at h
        case isFalse =>
          cases h
          exact .waiting (update_self ..)
        case isTrue =>
          cases h
          obtain ⟨stale, hget⟩ := Option.isSome_iff_exists.mp hsome
          have henter : (s.enlist c none).enterGet c client id =
              (s.enlist c none).discard c .answer ⟨id, stale, none, keyOfId id, client⟩ := by
            unfold State.enterGet
            rw [show Table.get? (s.enlist c none).sessions id = some stale from hget]
            exact if_neg (by rw [show (s.enlist c none).accountMatches id = false from hno]; decide)
          rw [henter]
          exact .retiring _ (update_self ..) rfl hnone (by simp [hget])
            fun _ => ⟨rfl, rfl, rfl, rfl⟩
      case isFalse hfresh =>
        cases h
        refine .answered _ (update_self ..) ?_ (.inl ⟨rfl, rfl, rfl, rfl⟩)
          fun _ _ => ⟨rfl, rfl, rfl, rfl⟩
        unfold State.lookup
        split
        case isTrue => rfl
        case isFalse hno =>
          have hm : ¬ s.accountMatches id = true := fun hm => hno ⟨not_not.mp hclient, hm⟩
          simpa [hm] using hfresh

theorem forget_cases (s : State) (c : Nat) (after : After) (d : Discard) :
    (∃ manager, s.forget c after d =
      ((s.pop d.id).unlink d.id).setPhase c (.destroying after d manager)) ∨
    s.forget c after d = ((s.pop d.id).unlink d.id).proceed c after := by
  unfold State.forget
  split
  case h_1 manager _ _ _ => exact .inl ⟨manager, rfl⟩
  case h_2 => exact .inr rfl

theorem Getting.next (h : Getting s c client id t) (hr : Resumed t c u) :
    Getting s c client id u := by
  cases h with
  | waiting hp => cases hr <;> simp_all
  | retiring d hp hd hnone hsome hsame =>
    cases hr <;> rename_i hp' <;> rw [hp] at hp' <;> cases hp'
    rename_i ok
    subst hd
    have hall : ∀ x, x ≠ d.id →
        Same s (((t.halted d.runtime ok).pop d.id).unlink d.id) x := fun x hx =>
      Same.trans (u := ((t.halted d.runtime ok).pop d.id).unlink d.id)
        ((hsame x).trans (u := t.halted d.runtime ok) ⟨rfl, rfl, rfl, rfl⟩)
        (same_unlink (t.halted d.runtime ok) hx)
    have hclear := cleared_unlink (t.halted d.runtime ok) d.id
    rcases forget_cases (t.halted d.runtime ok) c .answer d with ⟨manager, heq⟩ | heq
    · rw [heq]
      exact .destroying d manager (update_self ..) hnone hsome
        (hclear.of_same ⟨rfl, rfl, rfl, rfl⟩) fun x hx => (hall x hx).trans ⟨rfl, rfl, rfl, rfl⟩
    · rw [heq]
      exact .answered none (update_self ..) hnone.symm
        (.inr ⟨hnone, hsome, hclear.of_same ⟨rfl, rfl, rfl, rfl⟩⟩)
        fun x hx => (hall x hx).trans ⟨rfl, rfl, rfl, rfl⟩
  | destroying d manager hp hnone hsome hclear hsame =>
    cases hr <;> rename_i hp' <;> rw [hp] at hp' <;> cases hp'
    exact .answered none (update_self ..) hnone.symm
      (.inr ⟨hnone, hsome, hclear.of_same ⟨rfl, rfl, rfl, rfl⟩⟩)
      fun x hx => (hsame x hx).trans ⟨rfl, rfl, rfl, rfl⟩
  | answered result hp => cases hr <;> rename_i hp' <;> rw [hp] at hp' <;> cases hp'

theorem call_get (h : call idleTimeout s c (.get c client id) es = some (t, result)) :
    result = s.lookup client id ∧
      (Same s t id ∨
        s.lookup client id = none ∧ Table.get? s.sessions id ≠ none ∧ Cleared t id) ∧
      ∀ x, x ≠ id → Same s t x := by
  obtain ⟨hget, hp⟩ := call_induction h (fun _ => getting_of_step) fun _ _ _ hu he hv =>
    Getting.next hu (resumed_of_step he hv)
  cases hget with
  | waiting hp' => rw [hp] at hp'; cases hp'
  | retiring d hp' => rw [hp] at hp'; cases hp'
  | destroying d manager hp' => rw [hp] at hp'; cases hp'
  | answered result' hp' hresult hid hsame =>
    rw [hp] at hp'
    cases hp'
    exact ⟨hresult, hid, hsame⟩

theorem call_get_of_lookup {r : Nat} (hidle : s.phase c = .idle)
    (h : s.lookup client id = some r) : ∃ t, call idleTimeout s c (.get c client id) [] =
      some (t, some r) ∧ ∀ x, Same s t x := by
  obtain ⟨hclient, hmatch, hget⟩ := lookup_eq_some.mp h
  refine ⟨((s.touch id).returns c (some r)).setPhase c (.answered (some r)), ?_,
    fun _ => ⟨rfl, rfl, rfl, rfl⟩⟩
  have hstep : step idleTimeout s (.get c client id) =
      some (((s.touch id).returns c (some r)).setPhase c (.answered (some r))) := by
    simp [step, hidle, hclient, hmatch, hget]
  unfold call
  rw [if_pos (by rfl), Steps.run_cons_of_step _ _ hstep]
  simp [State.setPhase]

/-- The session has no runtime, the account recorded for it waits for a stop to end, and no account
can be looked up. -/
def State.stale (s : State) (id : Text) : Prop :=
  Table.get? s.sessions id = none ∧ s.sessionAccount id ≠ none ∧ s.currentAccountRoot = none

/-- The call will not answer with a runtime. -/
def Phase.doomed : Phase → Prop
  | .lining _ | .rollingBack | .retiring .fail _ | .destroying .fail _ _ | .failed => True
  | _ => False

/-- Where a `create_session` stands that began in `s`. -/
inductive Creating (s : State) (c : Nat) (client id : Text) (t : State) : Prop where
  | doomed (hp : (t.phase c).doomed)
  | retiring (req : Request) (d : Discard) (hp : t.phase c = .retiring (.make req) d)
      (hd : d.id = id) (hid : req.id = id) (hclient : req.client = client)
      (hroot : req.root = s.currentAccountRoot) (hother : s.accountMatches id = false)
      (hsome : Table.get? s.sessions id ≠ none) (hsame : ∀ x, Same s t x)
  | destroying (req : Request) (d : Discard) (manager : Nat)
      (hp : t.phase c = .destroying (.make req) d manager) (hid : req.id = id)
      (hclient : req.client = client) (hroot : req.root = s.currentAccountRoot)
      (hother : s.accountMatches id = false) (hsome : Table.get? s.sessions id ≠ none)
      (hclear : Cleared t id) (hsame : ∀ x, x ≠ id → Same s t x)
  | starting (req : Request) (hp : t.phase c = .starting req) (hid : req.id = id)
      (hclient : req.client = client) (hroot : req.root = s.currentAccountRoot)
      (hnew : Table.get? s.sessions id = none ∧ Same s t id ∨
        (Table.get? s.sessions id ≠ none ∧ s.accountMatches id = false) ∧ Cleared t id)
      (hsame : ∀ x, x ≠ id → Same s t x)
  | answered (r : Nat) (hp : t.phase c = .answered (some r))
      (hget : Table.get? t.sessions id = some r) (hclient : client ∈ t.sessionClients id)
      (hmatch : t.accountMatches id = true ↔ ¬ s.stale id)
      (hold : s.accountMatches id = true → ∀ r', Table.get? s.sessions id = some r' → r = r')
      (hsame : ∀ x, x ≠ id → Same s t x)

theorem creating_of_enter (s : State) (c : Nat) (manager : Option Nat) (req : Request)
    (hroot : req.root = s.currentAccountRoot) :
    Creating s c req.client req.id ((s.enlist c manager).enterCreate c req) := by
  unfold State.enterCreate
  split
  case h_1 r hget =>
    have hold : Table.get? s.sessions req.id = some r := hget
    split
    case isTrue hmatch =>
      refine .answered r (update_self ..) hget ?_ ?_ ?_ ?_
      · simp [State.leave, State.setPhase, State.returns, State.touch, State.link]
      · refine iff_of_true hmatch fun hstale => ?_
        have hnone : Table.get? s.sessions req.id = none := hstale.1
        rw [hold] at hnone
        cases hnone
      · intro _ r' hr'
        rw [hold] at hr'
        exact Option.some.inj hr'
      · intro x hx
        exact ⟨rfl, update_of_ne hx _ _, rfl, rfl⟩
    case isFalse hmatch =>
      have hother : s.accountMatches req.id = false := Bool.eq_false_iff.mpr hmatch
      exact .retiring req _ (update_self ..) rfl rfl rfl hroot hother (by simp [hold]) fun _ => ⟨rfl, rfl, rfl, rfl⟩
  case h_2 hget =>
    exact .starting req (update_self ..) rfl rfl hroot
      (.inl ⟨hget, ⟨rfl, rfl, rfl, rfl⟩⟩) fun _ _ => ⟨rfl, rfl, rfl, rfl⟩

theorem creating_of_step {manager : Option Nat} {folder : Bool}
    (h : step idleTimeout s (.create c client key manager folder) = some t) :
    Creating s c client (sessionId client key) t := by
  dsimp only [step] at h
  split at h
  case h_2 => cases h
  case h_1 =>
    split at h
    case isTrue =>
      cases h
      exact creating_of_enter s c manager ⟨client, key, manager, folder, s.currentAccountRoot⟩ rfl
    case isFalse =>
      cases h
      exact .doomed (by simp [State.setPhase, Phase.doomed])

theorem register_matches (s : State) (c : Nat) (req : Request)
    (hroot : s.currentAccountRoot = req.root) : (s.register c req).accountMatches req.id = true ↔
      ¬ (s.sessionAccount req.id ≠ none ∧ s.currentAccountRoot = none) := by
  have hcurrent : (s.register c req).currentAccountRoot = req.root := hroot
  unfold State.accountMatches
  rw [hcurrent, hroot]
  cases hreq : req.root with
  | none =>
    have haccount : (s.register c req).sessionAccount req.id = s.sessionAccount req.id := by
      simp [State.register, hreq, State.leave, State.setPhase, State.returns, State.touch]
    rw [haccount]
    cases s.sessionAccount req.id <;> simp
  | some root =>
    have haccount : (s.register c req).sessionAccount req.id = some root := by
      simp [State.register, hreq, State.leave, State.setPhase, State.returns, State.touch]
    rw [haccount]
    simp

theorem same_register (s : State) (c : Nat) (req : Request) {x : Text} (hx : x ≠ req.id) :
    Same s (s.register c req) x where
  sessions := Table.get?_set_of_ne s.sessions c hx
  clients := by
    simp [State.register, State.leave, State.setPhase, State.returns, State.touch, hx]
  account := by
    cases hreq : req.root <;>
      simp [State.register, hreq, State.leave, State.setPhase, State.returns, State.touch, hx]
  root := rfl

theorem Creating.next (h : Creating s c client id t) (hr : Resumed t c u) :
    Creating s c client id u := by
  cases h with
  | doomed hp =>
    refine .doomed ?_
    cases hr with
    | launched req bound hp' => rw [hp'] at hp; exact False.elim hp
    | dead req hp' => rw [hp'] at hp; exact False.elim hp
    | retired after d ok hp' =>
      rw [hp'] at hp
      cases after with
      | fail =>
        rcases forget_cases (t.halted d.runtime ok) c .fail d with ⟨manager, heq⟩ | heq
        · rw [heq]
          simp [State.setPhase, Phase.doomed]
        · rw [heq]
          simp [State.proceed, State.leave, State.setPhase, Phase.doomed]
      | make req => exact False.elim hp
      | answer => exact False.elim hp
    | rolledBack ok hp' => simp [State.leave, State.setPhase, Phase.doomed]
    | stopped sweep id runtime rest ok hp' => rw [hp'] at hp; exact False.elim hp
    | destroyed after d manager boxes hp' =>
      rw [hp'] at hp
      cases after with
      | fail => simp [State.proceed, State.leave, State.setPhase, Phase.doomed]
      | make req => exact False.elim hp
      | answer => exact False.elim hp
  | retiring req d hp hd hid hclient hroot hother hsome hsame =>
    cases hr <;> rename_i hp' <;> rw [hp] at hp' <;> cases hp'
    rename_i ok
    have hall : ∀ x, x ≠ id →
        Same s (((t.halted d.runtime ok).pop d.id).unlink d.id) x := fun x hx =>
      Same.trans (u := ((t.halted d.runtime ok).pop d.id).unlink d.id)
        ((hsame x).trans (u := t.halted d.runtime ok) ⟨rfl, rfl, rfl, rfl⟩)
        (same_unlink (t.halted d.runtime ok) (hd ▸ hx))
    have hclear : Cleared (((t.halted d.runtime ok).pop d.id).unlink d.id) id :=
      hd ▸ cleared_unlink (t.halted d.runtime ok) d.id
    rcases forget_cases (t.halted d.runtime ok) c (.make req) d with ⟨manager, heq⟩ | heq
    · rw [heq]
      exact .destroying req d manager (update_self ..) hid hclient hroot hother hsome
        (hclear.of_same ⟨rfl, rfl, rfl, rfl⟩) fun x hx => (hall x hx).trans ⟨rfl, rfl, rfl, rfl⟩
    · rw [heq]
      exact .starting req (update_self ..) hid hclient hroot
        (.inr ⟨⟨hsome, hother⟩, hclear.of_same ⟨rfl, rfl, rfl, rfl⟩⟩)
        fun x hx => (hall x hx).trans ⟨rfl, rfl, rfl, rfl⟩
  | destroying req d manager hp hid hclient hroot hother hsome hclear hsame =>
    cases hr <;> rename_i hp' <;> rw [hp] at hp' <;> cases hp'
    exact .starting req (update_self ..) hid hclient hroot
      (.inr ⟨⟨hsome, hother⟩, hclear.of_same ⟨rfl, rfl, rfl, rfl⟩⟩)
      fun x hx => (hsame x hx).trans ⟨rfl, rfl, rfl, rfl⟩
  | starting req hp hid hclient hroot hnew hsame =>
    subst hid
    subst hclient
    cases hr <;> rename_i hp' <;> rw [hp] at hp' <;> cases hp'
    case starting.dead.refl => exact .doomed (by simp [State.leave, State.setPhase, Phase.doomed])
    case starting.launched.refl bound =>
      unfold State.launched
      dsimp only
      split
      case isTrue => exact .doomed (by simp [State.setPhase, Phase.doomed])
      case isFalse =>
        split
        case isTrue => exact .doomed (by simp [State.discard, State.setPhase, Phase.doomed])
        case isFalse hsameRoot =>
          refine .answered c (update_self ..) (Table.get?_set_self ..) ?_ ?_ ?_ ?_
          · simp [State.register, State.leave, State.setPhase, State.returns, State.touch]
          · refine (register_matches _ c req (not_not.mp hsameRoot)).trans (not_congr ?_)
            show (t.sessionAccount req.id ≠ none ∧ t.currentAccountRoot = none) ↔ s.stale req.id
            have hcurrent : t.currentAccountRoot = s.currentAccountRoot :=
              (not_not.mp hsameRoot).trans hroot
            rw [hcurrent]
            rcases hnew with ⟨hnone, hsame'⟩ | ⟨⟨hsome, -⟩, hclear⟩
            · rw [hsame'.account]
              exact (and_iff_right hnone).symm
            · rw [hclear.account]
              exact iff_of_false (fun hc => hc.1 rfl) fun hc => hsome hc.1
          · intro hmatch r' hr'
            rcases hnew with ⟨hnone, -⟩ | ⟨⟨-, hother⟩, -⟩
            · rw [hnone] at hr'
              cases hr'
            · rw [hmatch] at hother
              cases hother
          · intro x hx
            have hup : Same s { t with running := update t.running c true } x :=
              (hsame x hx).trans ⟨rfl, rfl, rfl, rfl⟩
            exact hup.trans (same_register _ c req hx)
  | answered r hp => cases hr <;> rename_i hp' <;> rw [hp] at hp' <;> cases hp'

/-- What `create_session` answers and leaves: the client may use the runtime, unless a stop that is
not over has left a record of the account and no account can be looked up. -/
theorem call_create {manager : Option Nat} {folder : Bool} {r : Nat}
    (h : call idleTimeout s c (.create c client key manager folder) es = some (t, some r)) :
    Table.get? t.sessions (sessionId client key) = some r ∧
      client ∈ t.sessionClients (sessionId client key) ∧
      (t.accountMatches (sessionId client key) = true ↔ ¬ s.stale (sessionId client key)) ∧
      (s.accountMatches (sessionId client key) = true →
        ∀ r', Table.get? s.sessions (sessionId client key) = some r' → r = r') ∧
      ∀ x, x ≠ sessionId client key → Same s t x := by
  obtain ⟨hcreate, hp⟩ := call_induction h (fun _ => creating_of_step) fun _ _ _ hu he hv =>
    Creating.next hu (resumed_of_step he hv)
  cases hcreate with
  | doomed hp' => rw [hp] at hp'; exact False.elim hp'
  | retiring req d hp' => rw [hp] at hp'; cases hp'
  | destroying req d manager hp' => rw [hp] at hp'; cases hp'
  | starting req hp' => rw [hp] at hp'; cases hp'
  | answered r' hp' hget hclient hmatch hold hsame =>
    rw [hp] at hp'
    cases hp'
    exact ⟨hget, hclient, hmatch, hold, hsame⟩

theorem step_phase (h : step idleTimeout s e = some t) :
    t.phase = s.phase ∨ ∃ c q, t.phase = update s.phase c q := by
  have hproceed : ∀ (v : State) (c : Nat) (after : After),
      ∃ q, (v.proceed c after).phase = update v.phase c q := fun v c after => by
    cases after <;> exact ⟨_, rfl⟩
  have hcreate : ∀ (v : State) (c : Nat) (req : Request),
      ∃ q, (v.enterCreate c req).phase = update v.phase c q := fun v c req => by
    unfold State.enterCreate
    split
    · split <;> exact ⟨_, rfl⟩
    · exact ⟨_, rfl⟩
  have hget : ∀ (v : State) (c : Nat) (client id : Text),
      ∃ q, (v.enterGet c client id).phase = update v.phase c q := fun v c client id => by
    unfold State.enterGet
    split
    · split <;> exact ⟨_, rfl⟩
    · exact ⟨_, rfl⟩
  have hstop : ∀ (ids : List Text) (v : State) (c : Nat) (sweep : Bool),
      ∃ q, (v.stopNext c sweep ids).phase = update v.phase c q := fun ids v c sweep => by
    induction ids generalizing v with
    | nil => exact ⟨_, rfl⟩
    | cons id rest ih =>
      unfold State.stopNext
      split
      · exact ih v
      · exact ⟨_, rfl⟩
  cases moves_of_step h with
  | enters h =>
    cases h with
    | create client key manager folder _ _ =>
      obtain ⟨q, hq⟩ := hcreate (s.enlist _ manager) _
        ⟨client, key, manager, folder, s.currentAccountRoot⟩
      exact .inr ⟨_, q, hq⟩
    | lining _ _ =>
      obtain ⟨q, hq⟩ := hcreate s _ _
      exact .inr ⟨_, q, hq⟩
    | get _ _ =>
      obtain ⟨q, hq⟩ := hget (s.enlist _ none) _ _ _
      exact .inr ⟨_, q, hq⟩
    | waiting _ _ =>
      obtain ⟨q, hq⟩ := hget s _ _ _
      exact .inr ⟨_, q, hq⟩
  | lining => exact .inr ⟨_, _, rfl⟩
  | unauthorized => exact .inr ⟨_, _, rfl⟩
  | waiting => exact .inr ⟨_, _, rfl⟩
  | got => exact .inr ⟨_, _, rfl⟩
  | authorize => exact .inl rfl
  | stranger => exact .inl rfl
  | stop =>
    obtain ⟨q, hq⟩ := hstop _ s _ _
    exact .inr ⟨_, q, hq⟩
  | launched =>
    unfold State.launched
    dsimp only
    split
    · exact .inr ⟨_, _, rfl⟩
    · split <;> exact .inr ⟨_, _, rfl⟩
  | dead => exact .inr ⟨_, _, rfl⟩
  | @retired c after d ok _ =>
    rcases forget_cases (s.halted d.runtime ok) c after d with ⟨manager, heq⟩ | heq
    · exact .inr ⟨c, _, congrArg State.phase heq⟩
    · obtain ⟨q, hq⟩ := hproceed (((s.halted d.runtime ok).pop d.id).unlink d.id) c after
      exact .inr ⟨c, q, (congrArg State.phase heq).trans hq⟩
  | rolledBack => exact .inr ⟨_, _, rfl⟩
  | @ended c sweep id runtime rest ok _ =>
    obtain ⟨q, hq⟩ := hstop rest ((s.halted runtime ok).unlink id) c sweep
    exact .inr ⟨c, q, hq⟩
  | @destroyed c after d manager ok _ =>
    refine .inr ⟨c, ?_⟩
    cases ok with
    | true => exact hproceed _ c after
    | false => exact hproceed s c after
  | opens => exact .inl rfl
  | open' => exact .inl rfl
  | switch => exact .inl rfl
  | tick => exact .inl rfl

theorem exists_idle {active : Root} {events : List Event}
    (h : Steps.run (step idleTimeout) (init active) events = some s) :
    ∃ n, ∀ c, n ≤ c → s.phase c = .idle := by
  have hrun : ∀ (events : List Event) (v : State), (∃ n, ∀ c, n ≤ c → v.phase c = .idle) →
      Steps.run (step idleTimeout) v events = some s → ∃ n, ∀ c, n ≤ c → s.phase c = .idle := by
    intro events
    induction events with
    | nil =>
      intro v hv hr
      exact Option.some.inj hr ▸ hv
    | cons e events ih =>
      intro v ⟨n, hn⟩ hr
      obtain ⟨w, hw, hr'⟩ := Steps.run_cons_some (step idleTimeout) hr
      refine ih w ?_ hr'
      rcases step_phase hw with hsame | ⟨c, q, hchange⟩
      · exact ⟨n, fun x hx => by rw [hsame]; exact hn x hx⟩
      · refine ⟨max n (c + 1), fun x hx => ?_⟩
        rw [hchange, update_of_ne (by omega)]
        exact hn x (by omega)
  exact hrun events (init active) ⟨0, fun _ _ => rfl⟩ h

/-- The call can come to an answer with a runtime, alone. -/
def Answers (idleTimeout : Nat) (s : State) (c : Nat) : Prop :=
  ∃ es t r, (∀ e ∈ es, e.resumes c = true) ∧ Steps.run (step idleTimeout) s es = some t ∧
    t.phase c = .answered (some r)

theorem Answers.of_step (he : e.resumes c = true)
    (h : step idleTimeout s e = some t) (ha : Answers idleTimeout t c) :
    Answers idleTimeout s c := by
  obtain ⟨es, u, r, hes, hrun, hp⟩ := ha
  exact ⟨e :: es, u, r, List.forall_mem_cons.mpr ⟨he, hes⟩,
    (Steps.run_cons_of_step _ es h).trans hrun, hp⟩

theorem answers_starting {req : Request} (hp : s.phase c = .starting req)
    (hfolder : req.folder = false) (hroot : s.currentAccountRoot = req.root) :
    Answers idleTimeout s c := by
  have hstep : step idleTimeout s (.started c true true) = some (s.launched c req true) := by
    simp [step, hp]
  have hlaunched : s.launched c req true =
      State.register { s with running := update s.running c true } c req := by
    unfold State.launched
    dsimp only
    rw [if_neg (by simp [hfolder])]
    exact if_neg (not_not.mpr hroot)
  refine ⟨[.started c true true], _, c, by simp [Event.resumes],
    Steps.run_cons_of_step _ [] hstep, ?_⟩
  rw [hlaunched]
  exact update_self ..

theorem answers_destroying {req : Request} {d : Discard} {manager : Nat}
    (hp : s.phase c = .destroying (.make req) d manager) (hfolder : req.folder = false)
    (hroot : s.currentAccountRoot = req.root) : Answers idleTimeout s c := by
  have hstep : step idleTimeout s (.destroyed c false) = some (s.make c req) := by
    simp [step, hp, State.proceed]
  exact .of_step (by simp [Event.resumes]) hstep
    (answers_starting (update_self ..) hfolder hroot)

theorem answers_retiring {req : Request} {d : Discard} (hp : s.phase c = .retiring (.make req) d)
    (hfolder : req.folder = false) (hroot : s.currentAccountRoot = req.root) :
    Answers idleTimeout s c := by
  have hstep : step idleTimeout s (.ended c true) =
      some ((s.halted d.runtime true).forget c (.make req) d) := by simp [step, hp]
  refine .of_step (by simp [Event.resumes]) hstep ?_
  rcases forget_cases (s.halted d.runtime true) c (.make req) d with ⟨manager, heq⟩ | heq
  · rw [heq]
    exact answers_destroying (update_self ..) hfolder hroot
  · rw [heq]
    exact answers_starting (update_self ..) hfolder hroot

theorem exists_create (hidle : s.phase c = .idle) (hfree : s.queue = []) (client key : Text) :
    ∃ es t r, call idleTimeout s c (.create c client key none false) es = some (t, some r) := by
  have hstep : step idleTimeout s (.create c client key none false) =
      some ((s.enlist c none).enterCreate c ⟨client, key, none, false, s.currentAccountRoot⟩) := by
    simp [step, hidle, hfree]
  have hanswers : Answers idleTimeout
      ((s.enlist c none).enterCreate c ⟨client, key, none, false, s.currentAccountRoot⟩) c := by
    unfold State.enterCreate
    split
    case h_1 r _ =>
      split
      · exact ⟨[], _, r, by simp, rfl, update_self ..⟩
      · exact answers_retiring (update_self ..) rfl rfl
    case h_2 => exact answers_starting (update_self ..) rfl rfl
  obtain ⟨es, t, r, hes, hrun, hp⟩ := hanswers
  refine ⟨es, t, r, ?_⟩
  unfold call
  rw [if_pos (List.all_eq_true.mpr hes), Steps.run_cons_of_step _ es hstep, hrun]
  simp [hp]

/-- A call that began with the lock free has it, or is over. -/
def Alone (t : State) (c : Nat) : Prop :=
  (t.phase c).inside ∧ t.queue = [c] ∨ (t.phase c).over ∧ t.queue = []

theorem alone_proceed (after : After) (h : s.queue = [c]) : Alone (s.proceed c after) c := by
  cases after with
  | make req => exact .inl ⟨by simp [State.proceed, State.make, State.setPhase, Phase.inside], h⟩
  | fail =>
    exact .inr ⟨by simp [State.proceed, State.leave, State.setPhase, Phase.over],
      congrArg List.tail h⟩
  | answer =>
    exact .inr ⟨by simp [State.proceed, State.leave, State.setPhase, Phase.over],
      congrArg List.tail h⟩

theorem Alone.next (h : Alone t c) (hr : Resumed t c u) : Alone u c := by
  rcases h with ⟨hin, hq⟩ | ⟨hover, -⟩
  case inr => cases hr <;> rename_i hp <;> rw [hp] at hover <;> exact False.elim hover
  case inl =>
    cases hr with
    | launched req bound hp =>
      unfold State.launched
      dsimp only
      split
      case isTrue => exact .inl ⟨by simp [State.setPhase, Phase.inside], hq⟩
      case isFalse =>
        split
        case isTrue => exact .inl ⟨by simp [State.discard, State.setPhase, Phase.inside], hq⟩
        case isFalse =>
          exact .inr ⟨by simp [State.register, State.leave, State.setPhase, Phase.over],
            congrArg List.tail hq⟩
    | dead req hp =>
      exact .inr ⟨by simp [State.leave, State.setPhase, Phase.over], congrArg List.tail hq⟩
    | retired after d ok hp =>
      rcases forget_cases (t.halted d.runtime ok) c after d with ⟨manager, heq⟩ | heq
      · rw [heq]
        exact .inl ⟨by simp [State.setPhase, Phase.inside], hq⟩
      · rw [heq]
        exact alone_proceed after hq
    | rolledBack ok hp =>
      exact .inr ⟨by simp [State.leave, State.setPhase, Phase.over], congrArg List.tail hq⟩
    | stopped sweep id runtime rest ok hp => rw [hp] at hin; exact False.elim hin
    | destroyed after d manager boxes hp => exact alone_proceed after hq

theorem alone_get (hfree : s.queue = [])
    (h : step idleTimeout s (.get c client id) = some t) : Alone t c := by
  dsimp only [step] at h
  split at h
  case h_2 => cases h
  case h_1 =>
    split at h
    case isTrue =>
      cases h
      exact .inr ⟨by simp [State.setPhase, Phase.over], hfree⟩
    case isFalse =>
      split at h
      case isFalse =>
        cases h
        exact .inr ⟨by simp [State.setPhase, Phase.over], hfree⟩
      case isTrue =>
        cases h
        have hq : (s.enlist c none).queue = [c] := by simp [hfree]
        unfold State.enterGet
        split
        case h_2 =>
          exact .inr ⟨by simp [State.leave, State.setPhase, Phase.over], congrArg List.tail hq⟩
        case h_1 =>
          split
          case isTrue =>
            exact .inr ⟨by simp [State.leave, State.setPhase, Phase.over], congrArg List.tail hq⟩
          case isFalse =>
            exact .inl ⟨by simp [State.discard, State.setPhase, Phase.inside], hq⟩

theorem alone_create {manager : Option Nat} {folder : Bool} (hfree : s.queue = [])
    (h : step idleTimeout s (.create c client key manager folder) = some t) : Alone t c := by
  dsimp only [step] at h
  split at h
  case h_2 => cases h
  case h_1 =>
    rw [if_pos hfree] at h
    cases h
    have hq : (s.enlist c manager).queue = [c] := by simp [hfree]
    unfold State.enterCreate
    split
    case h_2 => exact .inl ⟨by simp [State.make, State.setPhase, Phase.inside], hq⟩
    case h_1 =>
      split
      case isTrue =>
        exact .inr ⟨by simp [State.leave, State.setPhase, Phase.over], congrArg List.tail hq⟩
      case isFalse => exact .inl ⟨by simp [State.discard, State.setPhase, Phase.inside], hq⟩

theorem call_free (h : call idleTimeout s c e es = some (t, result))
    (hfirst : ∀ u, step idleTimeout s e = some u → Alone u c) : t.queue = [] := by
  obtain ⟨halone, hp⟩ := call_induction h hfirst fun _ _ _ hu he hv =>
    hu.next (resumed_of_step he hv)
  rcases halone with ⟨hin, -⟩ | ⟨-, hq⟩
  · rw [hp] at hin
    exact False.elim hin
  · exact hq

end MiqroForge.Registry
