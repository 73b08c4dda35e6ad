import MiqroForge.Registry.Runtimes

/-!
The tables of the registry agree whenever no call is in progress, as long as no stop ends behind the
back of a newer session of the same id and no sweep evicts a session that has become active.
-/

set_option linter.unusedSectionVars false

namespace MiqroForge.Registry

open PyText Function Table

variable {idleTimeout : Nat} {s s' : State}

/-- The sessions, their clients and their timestamps agree on this id. -/
structure Links (s : State) (id : Text) : Prop where
  inverse : ∀ client, id ∈ s.clientSessions client ↔ client ∈ s.sessionClients id
  active : (get? s.sessions id).isSome = true →
    (get? s.lastActivity id).isSome = true ∧ (s.sessionClients id).Nonempty
  exactly : get? s.sessions id = none → s.sessionClients id = ∅

/-- What the registry promises when it is at rest. -/
structure Consistent (s : State) : Prop where
  links : ∀ id, Links s id
  /-- A runtime that runs is registered, and so at most one runs for a session id. -/
  running : ∀ runtime, s.running runtime = true →
    ∃ req, s.madeFor runtime = some req ∧ get? s.sessions req.id = some runtime

/-- The session had no activity during the idle timeout. -/
def Overdue (idleTimeout clock : Nat) (last : Option Nat) : Prop :=
  ∃ time ∈ last, idleTimeout < clock - time

instance (idleTimeout clock : Nat) (last : Option Nat) :
    Decidable (Overdue idleTimeout clock last) := by
  unfold Overdue
  infer_instance

/-- `s.sessions` has this id. -/
def State.has (s : State) (id : Text) : Bool := (get? s.sessions id).isSome

/-- The session that a stop comes to next. -/
def State.next (s : State) (ids : List Text) : Option Text := ids.find? s.has

/-- A stop that ends finds its id free, and a sweep goes on with a session that is still idle. -/
def Undisturbed (idleTimeout : Nat) (s : State) : Event → Prop
  | .ended c _ =>
    match s.phase c with
    | .stopping sweep id _ rest => s.has id = false ∧ (sweep = true →
        ∀ next ∈ s.next rest, Overdue idleTimeout s.clock (get? s.lastActivity next))
    | _ => True
  | _ => True

instance (idleTimeout : Nat) (s : State) (e : Event) :
    Decidable (Undisturbed idleTimeout s e) := by
  unfold Undisturbed
  split <;> try infer_instance
  split <;> infer_instance

/-- `stop_session` awaits a stop for this session. -/
def Phase.stops : Phase → Text → Prop
  | .stopping _ id _ _, id' => id = id'
  | _, _ => False

structure Tidy (idleTimeout : Nat) (s : State) : Prop where
  links : ∀ id, (∀ c, ¬ (s.phase c).stops id) → Links s id
  nodup : (s.lastActivity.map Prod.fst).Nodup
  evicted : ∀ e ∈ s.evicted, Overdue idleTimeout e.2.1 e.2.2

theorem tidy_init (active : Root) : Tidy idleTimeout (init active) where
  links := fun _ _ =>
    { inverse := fun _ => by simp [init]
      active := fun h => by cases h
      exactly := fun _ => rfl }
  nodup := List.nodup_nil
  evicted := fun _ h => by cases h

/-! ## The operations -/

theorem Links.congr {id : Text} (h : Links s id)
    (hclient : ∀ client, id ∈ s'.clientSessions client ↔ id ∈ s.clientSessions client)
    (hsession : s'.sessionClients id = s.sessionClients id)
    (hget : get? s'.sessions id = get? s.sessions id)
    (hlast : (get? s.lastActivity id).isSome = true →
      (get? s'.lastActivity id).isSome = true) : Links s' id where
  inverse := fun client => by rw [hclient, hsession, h.inverse]
  active := fun hsome => by
    rw [hget] at hsome
    rw [hsession]
    exact ⟨hlast (h.active hsome).1, (h.active hsome).2⟩
  exactly := fun hnone => by
    rw [hget] at hnone
    rw [hsession, h.exactly hnone]

theorem Links.same {id : Text} (h : Links s id) (hclient : s'.clientSessions = s.clientSessions)
    (hsession : s'.sessionClients = s.sessionClients) (hget : s'.sessions = s.sessions)
    (hlast : s'.lastActivity = s.lastActivity) : Links s' id :=
  h.congr (fun _ => by rw [hclient]) (by rw [hsession]) (by rw [hget]) (fun hs => by rwa [hlast])

theorem Links.touch {id : Text} (h : Links s id) (id' : Text) : Links (s.touch id') id := by
  refine h.congr (fun _ => Iff.rfl) rfl rfl fun hsome => ?_
  rw [show (s.touch id').lastActivity = set s.lastActivity id' s.clock from rfl,
    get?_set]
  split
  · rfl
  · exact hsome

theorem Links.link {id : Text} (h : Links s id) (client id' : Text)
    (hsome : id = id' → (get? s.sessions id').isSome = true) :
    Links (s.link client id') id where
  inverse := fun x => by
    simp only [State.link, update_apply]
    split
    case isTrue hx =>
      subst hx
      split
      case isTrue hid =>
        subst hid
        simp
      case isFalse hid => simp [Finset.mem_insert, hid, h.inverse]
    case isFalse hx =>
      split
      case isTrue hid =>
        subst hid
        simp [Finset.mem_insert, hx, h.inverse]
      case isFalse => exact h.inverse x
  active := fun hreg => by
    refine ⟨(h.active hreg).1, ?_⟩
    simp only [State.link, update_apply]
    split
    · exact ⟨client, Finset.mem_insert_self ..⟩
    · exact (h.active hreg).2
  exactly := fun hnone => by
    have hne : id ≠ id' := by
      intro hid
      have hreg := hsome hid
      rw [← hid, show get? s.sessions id = none from hnone] at hreg
      cases hreg
    simp only [State.link, update_of_ne hne]
    exact h.exactly hnone

theorem Links.unlinked {id : Text} (hnone : get? s.sessions id = none) :
    Links (s.unlink id) id where
  inverse := fun client => by simp [State.unlink]
  active := fun hsome => by
    rw [show (s.unlink id).sessions = s.sessions from rfl, hnone] at hsome
    cases hsome
  exactly := fun _ => by simp [State.unlink]

theorem Links.unlink_of_ne {id id' : Text} (h : Links s id) (hne : id ≠ id') :
    Links (s.unlink id') id := by
  refine h.congr (fun client => ?_) ?_ rfl fun hsome => ?_
  · simp [State.unlink, hne]
  · simp [State.unlink, hne]
  · rwa [show (s.unlink id').lastActivity = remove s.lastActivity id' from rfl,
      get?_remove_of_ne _ hne]

theorem nodup_remove {d : List (Text × Nat)} (h : (d.map Prod.fst).Nodup) (id : Text) :
    ((remove d id).map Prod.fst).Nodup :=
  h.sublist (List.filter_sublist.map Prod.fst)

theorem Tidy.change (h : Tidy idleTimeout s) {c : Nat} {q : Phase}
    (hphase : s'.phase = update s.phase c q)
    (hq : ∀ id, (s.phase c).stops id → q.stops id)
    (hlinks : ∀ id, Links s id → Links s' id)
    (hlast : (s'.lastActivity.map Prod.fst).Nodup) (hevicted : s'.evicted = s.evicted) :
    Tidy idleTimeout s' where
  links := fun id hid => by
    refine hlinks id (h.links id fun x hx => ?_)
    by_cases hxc : x = c
    · subst hxc
      refine hid x ?_
      rw [hphase, update_self]
      exact hq id hx
    · refine hid x ?_
      rwa [hphase, update_of_ne hxc]
  nodup := hlast
  evicted := fun e he => h.evicted e (hevicted ▸ he)

theorem Tidy.leave (h : Tidy idleTimeout s) {c : Nat} {q : Phase}
    (hp : ∀ id, ¬ (s.phase c).stops id) : Tidy idleTimeout (s.leave c q) :=
  h.change rfl (fun id hid => absurd hid (hp id)) (fun _ hl => hl.same rfl rfl rfl rfl) h.nodup rfl

theorem Tidy.make (h : Tidy idleTimeout s) {c : Nat} (req : Request)
    (hp : ∀ id, ¬ (s.phase c).stops id) : Tidy idleTimeout (s.make c req) :=
  h.change rfl (fun id hid => absurd hid (hp id)) (fun _ hl => hl.same rfl rfl rfl rfl) h.nodup rfl

theorem Tidy.discard (h : Tidy idleTimeout s) {c : Nat} (after : After) (d : Discard)
    (hp : ∀ id, ¬ (s.phase c).stops id) : Tidy idleTimeout (s.discard c after d) :=
  h.change rfl (fun id hid => absurd hid (hp id)) (fun _ hl => hl.same rfl rfl rfl rfl) h.nodup rfl

theorem Tidy.proceed (h : Tidy idleTimeout s) {c : Nat} (after : After)
    (hp : ∀ id, ¬ (s.phase c).stops id) : Tidy idleTimeout (s.proceed c after) := by
  cases after with
  | make req => exact h.make req hp
  | fail => exact h.leave hp
  | answer => exact h.leave hp

theorem Tidy.enterCreate (h : Tidy idleTimeout s) {c : Nat} (req : Request)
    (hp : ∀ id, ¬ (s.phase c).stops id) : Tidy idleTimeout (s.enterCreate c req) := by
  unfold State.enterCreate
  split
  case h_2 => exact h.make req hp
  case h_1 runtime hget =>
    split
    · refine h.change (q := .answered (some runtime)) rfl (fun id hid => absurd hid (hp id))
        (fun id hl => ?_) (nodup_keys_set h.nodup ..) rfl
      exact ((hl.link req.client req.id fun _ => by rw [hget]; rfl).touch req.id).same rfl rfl rfl rfl
    · exact h.discard _ _ hp

theorem Tidy.enterGet (h : Tidy idleTimeout s) {c : Nat} (client id : Text)
    (hp : ∀ id, ¬ (s.phase c).stops id) : Tidy idleTimeout (s.enterGet c client id) := by
  unfold State.enterGet
  split
  case h_2 => exact h.leave hp
  case h_1 stale hget =>
    split
    · exact h.leave hp
    · exact h.discard _ _ hp

theorem Tidy.enlist (h : Tidy idleTimeout s) (c : Nat) (manager : Option Nat) :
    Tidy idleTimeout (s.enlist c manager) where
  links := fun id hid => (h.links id hid).same rfl rfl rfl rfl
  nodup := h.nodup
  evicted := h.evicted

theorem Tidy.enters (h : Tidy idleTimeout s) {c : Nat} (he : Enters s c s') :
    Tidy idleTimeout s' := by
  cases he with
  | create client key manager folder hp hq =>
    refine (h.enlist c manager).enterCreate _ fun _ hs => ?_
    rw [State.enlist_phase, hp] at hs
    exact hs
  | lining hp hq => exact h.enterCreate _ fun _ hs => by rw [hp] at hs; exact hs
  | get hp hq =>
    refine (h.enlist c none).enterGet _ _ fun _ hs => ?_
    rw [State.enlist_phase, hp] at hs
    exact hs
  | waiting hp hq => exact h.enterGet _ _ fun _ hs => by rw [hp] at hs; exact hs

theorem Tidy.forget (h : Tidy idleTimeout s) {c : Nat} {after : After} {d : Discard}
    (hp : s.phase c = .retiring after d) (ok : Bool) :
    Tidy idleTimeout ((s.halted d.runtime ok).forget c after d) := by
  have hstops : ∀ id, ¬ (s.phase c).stops id := fun id hs => by
    rw [hp] at hs
    exact hs
  have hlinks : ∀ id, Links s id → Links (((s.halted d.runtime ok).pop d.id).unlink d.id) id := by
    intro id hl
    by_cases hid : id = d.id
    · subst hid
      exact Links.unlinked (get?_remove_self ..)
    · refine Links.unlink_of_ne (hl.congr (fun _ => Iff.rfl) rfl ?_ fun hsome => hsome) hid
      exact get?_remove_of_ne _ hid
  have hmid : Tidy idleTimeout (((s.halted d.runtime ok).pop d.id).unlink d.id) :=
    { links := fun id hid => hlinks id (h.links id hid)
      nodup := nodup_remove h.nodup d.id
      evicted := h.evicted }
  unfold State.forget
  split
  case h_1 =>
    exact hmid.change rfl (fun id hid => absurd hid (hstops id)) (fun _ hl => hl.same rfl rfl rfl rfl) hmid.nodup rfl
  case h_2 => exact hmid.proceed after hstops

theorem Tidy.launched (h : Tidy idleTimeout s) {c : Nat} {req : Request}
    (hp : s.phase c = .starting req) (bound : Bool) (hfree : get? s.sessions req.id = none) :
    Tidy idleTimeout (s.launched c req bound) := by
  have hstops : ∀ id, ¬ (s.phase c).stops id := fun id hs => by
    rw [hp] at hs
    exact hs
  unfold State.launched
  split
  case isTrue =>
    exact h.change rfl (fun id hid => absurd hid (hstops id)) (fun _ hl => hl.same rfl rfl rfl rfl) h.nodup rfl
  case isFalse =>
    split
    case isTrue =>
      exact h.change rfl (fun id hid => absurd hid (hstops id)) (fun _ hl => hl.same rfl rfl rfl rfl) h.nodup rfl
    case isFalse =>
      refine h.change (q := .answered (some c)) rfl (fun id hid => absurd hid (hstops id))
        (fun id hl => ?_) (nodup_keys_set h.nodup ..) rfl
      by_cases hid : id = req.id
      · subst hid
        constructor
        · intro client
          show req.id ∈ update s.clientSessions req.client
            (insert req.id (s.clientSessions req.client)) client ↔
              client ∈ update s.sessionClients req.id {req.client} req.id
          rw [update_self, Finset.mem_singleton, update_apply]
          split
          case isTrue hclient => simp [hclient]
          case isFalse hclient =>
            rw [hl.inverse, hl.exactly hfree]
            simp [hclient]
        · intro _
          refine ⟨?_, req.client, ?_⟩
          · show (get? (set s.lastActivity req.id s.clock) req.id).isSome = true
            rw [get?_set_self]
            rfl
          · show req.client ∈ update s.sessionClients req.id {req.client} req.id
            rw [update_self]
            exact Finset.mem_singleton_self _
        · intro hnone
          rw [show (State.sessions _) = set s.sessions req.id c from rfl,
            get?_set_self] at hnone
          cases hnone
      · refine hl.congr (fun client => ?_) ?_ (get?_set_of_ne _ _ hid) fun hsome => ?_
        · show id ∈ update s.clientSessions req.client
            (insert req.id (s.clientSessions req.client)) client ↔ id ∈ s.clientSessions client
          rw [update_apply]
          split
          case isTrue hclient => simp [hclient, hid]
          case isFalse => rfl
        · exact update_of_ne hid _ _
        · exact (congrArg Option.isSome (get?_set_of_ne _ _ hid)).trans hsome

theorem Tidy.stopNext {c : Nat} (sweep : Bool) (ids : List Text)
    (hlinks : ∀ id, (∀ x, x ≠ c → ¬ (s.phase x).stops id) → Links s id)
    (hnodup : (s.lastActivity.map Prod.fst).Nodup)
    (hevicted : ∀ e ∈ s.evicted, Overdue idleTimeout e.2.1 e.2.2)
    (hnext : sweep = true → ∀ id, s.next ids = some id →
      Overdue idleTimeout s.clock (get? s.lastActivity id)) :
    Tidy idleTimeout (s.stopNext c sweep ids) := by
  have hothers : ∀ (t : State) (q : Phase), t.phase = update s.phase c q → ∀ id,
      (∀ x, ¬ (t.phase x).stops id) → ∀ x, x ≠ c → ¬ (s.phase x).stops id := by
    intro t q hphase id hid x hx hs
    refine hid x ?_
    rwa [hphase, update_of_ne hx]
  induction ids with
  | nil =>
    exact
      { links := fun id hid => (hlinks id (hothers _ .done rfl id hid)).same rfl rfl rfl rfl
        nodup := hnodup
        evicted := hevicted }
  | cons id rest ih =>
    unfold State.stopNext
    split
    case h_1 hget =>
      refine ih fun hsweep id' hid' => hnext hsweep id' ?_
      rw [State.next, List.find?_cons_of_neg]
      · exact hid'
      · rw [State.has, hget]
        exact fun h => by cases h
    case h_2 runtime hget =>
      have hfirst : s.next (id :: rest) = some id := by
        rw [State.next, List.find?_cons_of_pos]
        rw [State.has, hget]
        rfl
      constructor
      case links =>
        intro id' hid'
        have hne : id' ≠ id := by
          rintro rfl
          refine hid' c ?_
          show Phase.stops (update s.phase c (.stopping sweep id' runtime rest) c) id'
          rw [update_self]
          exact rfl
        refine (hlinks id' (hothers _ _ rfl id' hid')).congr (fun _ => Iff.rfl) rfl ?_ fun hs => hs
        exact get?_remove_of_ne _ hne
      case nodup => exact hnodup
      case evicted =>
        intro e he
        cases sweep with
        | false => exact hevicted e he
        | true =>
          rcases List.mem_cons.mp he with rfl | he'
          · exact hnext rfl id hfirst
          · exact hevicted e he'

/-! ## Runs -/

theorem Tidy.step {e : Event} (h : Tidy idleTimeout s) (hinv : Inv s)
    (hgood : Undisturbed idleTimeout s e) (he : step idleTimeout s e = some s') :
    Tidy idleTimeout s' := by
  have hidle : ∀ c, s.phase c = .idle → ∀ id, ¬ (s.phase c).stops id := fun c hp id hs => by
    rw [hp] at hs
    exact hs
  cases moves_of_step he with
  | enters h' => exact h.enters h'
  | lining hp =>
    exact (h.enlist _ _).change rfl (fun id hs => absurd hs (hidle _ hp id))
      (fun _ hl => hl.same rfl rfl rfl rfl) h.nodup rfl
  | unauthorized hp =>
    exact h.change rfl (fun id hs => absurd hs (hidle _ hp id))
      (fun _ hl => hl.same rfl rfl rfl rfl) h.nodup rfl
  | waiting hp =>
    exact (h.enlist _ _).change rfl (fun id hs => absurd hs (hidle _ hp id))
      (fun _ hl => hl.same rfl rfl rfl rfl) h.nodup rfl
  | @got c client id hp =>
    exact h.change (q := .answered (get? s.sessions id)) rfl
      (fun id hs => absurd hs (hidle _ hp id)) (fun _ hl => (hl.touch id).same rfl rfl rfl rfl)
      (nodup_keys_set h.nodup ..) rfl
  | @authorize owner id target hm =>
    refine ⟨fun id' hid' => ?_, h.nodup, h.evicted⟩
    have hl := h.links id' hid'
    refine hl.link target id fun heq => ?_
    subst heq
    -- an id with clients and no stop to come is registered
    cases hget : get? s.sessions id' with
    | some r => rfl
    | none =>
      rw [hl.exactly hget] at hm
      exact absurd hm (Finset.notMem_empty owner)
  | stranger | open' => exact h
  | opens | switch | tick =>
    exact ⟨fun id hid => (h.links id hid).same rfl rfl rfl rfl, h.nodup, h.evicted⟩
  | @stop c _ sweep ids hp hcases =>
    refine Tidy.stopNext _ _ (fun id hid => h.links id fun x hx => ?_) h.nodup h.evicted ?_
    · by_cases hxc : x = c
      · subst hxc
        exact hidle _ hp id hx
      · exact hid x hxc hx
    · rintro rfl id hnext
      rcases hcases with ⟨-, -, rfl⟩ | ⟨hfalse, -⟩
      · obtain ⟨⟨id', time⟩, hmem, rfl⟩ := List.mem_map.mp (List.mem_of_find?_eq_some hnext)
        obtain ⟨hin, hover⟩ := List.mem_filter.mp hmem
        exact ⟨time, get?_of_mem h.nodup hin, by simpa using hover⟩
      · cases hfalse
  | launched hp => exact h.launched hp _ (hinv.free _ _ (by rw [hp]; rfl))
  | dead hp =>
    exact h.leave fun id hs => by
      rw [hp] at hs
      exact hs
  | retired hp => exact h.forget hp _
  | @rolledBack c ok hp =>
    have hmid : Tidy idleTimeout (s.halted c ok) :=
      ⟨fun id hid => (h.links id hid).same rfl rfl rfl rfl, h.nodup, h.evicted⟩
    refine hmid.leave fun id hs => ?_
    rw [show (s.halted c ok).phase c = .rollingBack from hp] at hs
    exact hs
  | @ended c sweep id runtime rest ok hp =>
    obtain ⟨hfree, hsweep⟩ : s.has id = false ∧ (sweep = true → ∀ next ∈ s.next rest,
        Overdue idleTimeout s.clock (get? s.lastActivity next)) := by
      simpa only [Undisturbed, hp] using hgood
    have hnone : get? s.sessions id = none := by simpa [State.has] using hfree
    refine Tidy.stopNext _ _ (fun id' hid' => ?_) (nodup_remove h.nodup id) h.evicted ?_
    · by_cases hid : id' = id
      · subst hid
        exact Links.unlinked hnone
      · refine Links.unlink_of_ne ((h.links id' fun x hx => ?_).same rfl rfl rfl rfl) hid
        by_cases hxc : x = c
        · subst hxc
          rw [hp] at hx
          exact hid hx.symm
        · exact hid' x hxc hx
    · intro hs next hnext
      have hne : next ≠ id := by
        rintro rfl
        have hhas : s.has next = true := List.find?_some hnext
        rw [hfree] at hhas
        cases hhas
      obtain ⟨time, htime, hover⟩ := hsweep hs next hnext
      exact ⟨time, (get?_remove_of_ne _ hne).trans htime, hover⟩
  | @destroyed c after d manager ok hp =>
    have hmid : ∀ t : State, t.phase = s.phase → t.clientSessions = s.clientSessions →
        t.sessionClients = s.sessionClients → t.sessions = s.sessions →
        t.lastActivity = s.lastActivity → t.evicted = s.evicted →
        Tidy idleTimeout (t.proceed c after) := by
      intro t hphase hclient hsession hget hlast hevicted
      have ht : Tidy idleTimeout t :=
        { links := fun id hid => (h.links id (by rwa [hphase] at hid)).same hclient hsession hget hlast
          nodup := by rw [hlast]; exact h.nodup
          evicted := by rw [hevicted]; exact h.evicted }
      refine ht.proceed after fun id hs => ?_
      rw [hphase, hp] at hs
      exact hs
    split
    · exact hmid _ rfl rfl rfl rfl rfl rfl
    · exact hmid _ rfl rfl rfl rfl rfl rfl

theorem tidy_run {active : Root} {events : List Event} {t : State}
    (hrun : Steps.run (Registry.step idleTimeout) (init active) events = some t)
    (hgood : Steps.GoodRun (Registry.step idleTimeout) (Undisturbed idleTimeout) (init active) events) :
    Inv t ∧ Tidy idleTimeout t :=
  Steps.goodRun_invariant (Registry.step idleTimeout) (Undisturbed idleTimeout)
    (fun s => Inv s ∧ Tidy idleTimeout s)
    (fun _ _ _ hs hgood he => ⟨hs.1.step he, hs.2.step hs.1 hgood he⟩) _ _ _
    ⟨inv_init active, tidy_init active⟩ hrun hgood

theorem Inv.registered_of_running (h : Inv s) (hrest : ∀ c, (s.phase c).over) {runtime : Nat}
    (hrun : s.running runtime = true) :
    ∃ req, s.madeFor runtime = some req ∧ get? s.sessions req.id = some runtime := by
  rcases h.held runtime hrun with ⟨id, hid⟩ | ⟨c, hc⟩
  · obtain ⟨-, -, req, hreq, rfl⟩ := h.registered id runtime hid
    exact ⟨req, hreq, hid⟩
  · have hover := hrest c
    cases hp : s.phase c <;> rw [hp] at hc hover <;> trivial

/-- **The registry is consistent.** In every run whose stops end undisturbed, sessions are evicted
only when they were idle, and the tables agree whenever no call is in progress. -/
theorem registry_consistent (idleTimeout : Nat) (active : Root) (events : List Event) (t : State)
    (hrun : Steps.run (step idleTimeout) (init active) events = some t)
    (hgood : Steps.GoodRun (step idleTimeout) (Undisturbed idleTimeout) (init active) events) :
    (∀ e ∈ t.evicted, Overdue idleTimeout e.2.1 e.2.2) ∧
      ((∀ c, (t.phase c).over) → Consistent t) := by
  obtain ⟨hinv, htidy⟩ := tidy_run hrun hgood
  refine ⟨htidy.evicted, fun hrest => ⟨fun id => htidy.links id fun c hc => ?_, fun runtime hr =>
    hinv.registered_of_running hrest hr⟩⟩
  have hover := hrest c
  cases hp : t.phase c <;> rw [hp] at hc hover <;> trivial

/-- A session is made, stopped, and made again. -/
def restart : List Event :=
  [.create 0 ['a'] ['k'] none false, .started 0 true true, .stop 1 ['a', ':', 'k'],
    .ended 1 true, .create 2 ['a'] ['k'] none false, .started 2 true true]

theorem registry_consistent_restart :
    ∃ t, Steps.run (step 3600) (init ['w']) restart = some t ∧ Consistent t := by
  refine ⟨_, rfl, (registry_consistent 3600 ['w'] restart _ rfl (by decide)).2 fun c => ?_⟩
  match c with
  | 0 | 1 | 2 => decide
  | _ + 3 => exact trivial

/-- A stop of `a:k` that ends after `a:k` has been made again takes the clients and the timestamp
of the new session with it. -/
theorem stop_unlinks_successor :
    ∃ t, Steps.run (step 3600) (init ['w'])
        [.create 0 ['a'] ['k'] none false, .started 0 true true, .stop 1 ['a', ':', 'k'],
          .create 2 ['a'] ['k'] none false, .started 2 true true, .ended 1 true] = some t ∧
      (∀ c, (t.phase c).over) ∧ get? t.sessions ['a', ':', 'k'] = some 2 ∧
      get? t.lastActivity ['a', ':', 'k'] = none ∧ ¬ Consistent t := by
  refine ⟨_, rfl, fun c => ?_, rfl, rfl, fun h => ?_⟩
  · match c with
    | 0 | 1 | 2 => decide
    | _ + 3 => exact trivial
  · have hlast := ((h.links ['a', ':', 'k']).active rfl).1
    cases hlast

end MiqroForge.Registry
