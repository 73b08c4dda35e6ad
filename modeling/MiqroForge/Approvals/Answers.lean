import MiqroForge.Approvals.Requests

/-! When an answer to a request that clients can see counts, and when an abort denies it. -/

set_option linter.unusedSectionVars false

namespace MiqroForge.Approvals

open PyText Function

variable {R Id Thread : Type} [DecidableEq R] [DecidableEq Id] [DecidableEq Thread]
  {calls : Calls R Id Thread} {s s' : State R Id Thread}

/-- A request is announced under a new approval id. -/
def Fresh (calls : Calls R Id Thread) (s : State R Id Thread) : Event R Id Thread → Prop
  | .announce r => ∀ r', calls.id r' = calls.id r → s.phase r' = .idle
  | _ => True

/-- How the maps and the requests belong together. -/
structure Known (calls : Calls R Id Thread) (s : State R Id Thread) : Prop where
  owner : ∀ i r, s.pending i = some r → calls.id r = i ∧ (s.phase r).Open
  present : ∀ r, s.phase r = .waiting → s.future r = .pending → s.pending (calls.id r) = some r
  alone : ∀ r r', calls.id r = calls.id r' → s.phase r ≠ .idle → s.phase r' ≠ .idle → r = r'
  listed : ∀ t, ∀ i ∈ s.listed t, ∃ r, calls.id r = i ∧ calls.thread r = t ∧ (s.phase r).Open

theorem known_init : Known calls (init : State R Id Thread) where
  owner := fun _ _ h => by cases h
  present := fun _ h => by cases h
  alone := fun r _ _ h => absurd rfl h
  listed := fun _ _ h => by cases h

theorem Known.congr (h : Known calls s) (hphase : s'.phase = s.phase) (hfuture : s'.future = s.future)
    (hpending : s'.pending = s.pending) (hlisted : s'.listed = s.listed) : Known calls s' where
  owner := by rw [hphase, hpending]; exact h.owner
  present := by rw [hphase, hfuture, hpending]; exact h.present
  alone := by rw [hphase]; exact h.alone
  listed := by rw [hphase, hlisted]; exact h.listed

theorem Known.apart (h : Known calls s) {r r' : R}
    (hnew : s.phase r ≠ .idle ∨ ∀ r', calls.id r' = calls.id r → s.phase r' = .idle)
    (hne : r' ≠ r) (hbegun : s.phase r' ≠ .idle) : calls.id r' ≠ calls.id r := by
  intro hid
  rcases hnew with hold | hfresh
  · exact hne (h.alone r' r hid hbegun hold)
  · exact hbegun (hfresh r' hid)

theorem Known.self (h : Known calls s) {r r' : R}
    (hnew : s.phase r ≠ .idle ∨ ∀ r', calls.id r' = calls.id r → s.phase r' = .idle)
    (hid : calls.id r' = calls.id r) (hopen : (s.phase r').Open) : r' = r := by
  by_contra hne
  exact h.apart hnew hne hopen.begun hid

theorem Known.change (h : Known calls s) {r : R}
    (hnew : s.phase r ≠ .idle ∨ ∀ r', calls.id r' = calls.id r → s.phase r' = .idle)
    (hphase : ∀ r', r' ≠ r → s'.phase r' = s.phase r')
    (hfuture : ∀ r', r' ≠ r → s'.future r' = s.future r')
    (hpending : ∀ i, i ≠ calls.id r → s'.pending i = s.pending i)
    (hown : ∀ r', s'.pending (calls.id r) = some r' → r' = r ∧ (s'.phase r).Open)
    (hpresent : s'.phase r = .waiting → s'.future r = .pending →
      s'.pending (calls.id r) = some r)
    (hlisted : ∀ t, ∀ i ∈ s'.listed t, i ≠ calls.id r ∨ t ≠ calls.thread r → i ∈ s.listed t)
    (hopen : calls.id r ∈ s'.listed (calls.thread r) → (s'.phase r).Open) : Known calls s' where
  owner := by
    intro i r' hr'
    by_cases hi : i = calls.id r
    · subst hi
      obtain ⟨rfl, hopen⟩ := hown r' hr'
      exact ⟨rfl, hopen⟩
    · rw [hpending i hi] at hr'
      obtain ⟨hid, hr'⟩ := h.owner i r' hr'
      have hne : r' ≠ r := fun heq => hi (heq ▸ hid.symm)
      exact ⟨hid, hphase r' hne ▸ hr'⟩
  present := by
    intro r' hr' hpend
    by_cases heq : r' = r
    · subst heq
      exact hpresent hr' hpend
    · rw [hphase r' heq] at hr'
      rw [hfuture r' heq] at hpend
      rw [hpending _ (h.apart hnew heq (by rw [hr']; exact Phase.noConfusion))]
      exact h.present r' hr' hpend
  alone := by
    intro a b hab ha hb
    by_cases har : a = r
    · by_cases hbr : b = r
      · exact har.trans hbr.symm
      · rw [hphase b hbr] at hb
        exact absurd (hab.symm.trans (congrArg calls.id har)) (h.apart hnew hbr hb)
    · rw [hphase a har] at ha
      by_cases hbr : b = r
      · exact absurd (hab.trans (congrArg calls.id hbr)) (h.apart hnew har ha)
      · rw [hphase b hbr] at hb
        exact h.alone a b hab ha hb
  listed := by
    intro t i hi
    by_cases hr : i = calls.id r ∧ t = calls.thread r
    · obtain ⟨rfl, rfl⟩ := hr
      exact ⟨r, rfl, rfl, hopen hi⟩
    · obtain ⟨r', hid, hthread, hr'⟩ := h.listed t i (hlisted t i hi (by tauto))
      have hne : r' ≠ r := fun heq => hr ⟨heq ▸ hid.symm, heq ▸ hthread.symm⟩
      exact ⟨r', hid, hthread, hphase r' hne ▸ hr'⟩

section Steps

theorem Known.setPhase (h : Known calls s) {r : R} {phase : Phase}
    (hopen : (s.phase r).Open → phase.Open) (hwait : phase ≠ .waiting)
    (hnew : s.phase r ≠ .idle ∨ ∀ r', calls.id r' = calls.id r → s.phase r' = .idle) :
    Known calls (s.setPhase r phase) := by
  have hself := s.setPhase_self r phase
  refine h.change hnew (fun r' hne => s.setPhase_of_ne hne phase) (fun _ _ => rfl)
    (fun _ _ => rfl) (fun r' hr' => ?_) (fun hr => absurd (hself.symm.trans hr) hwait)
    (fun _ _ hi _ => hi) (fun hi => ?_)
  · obtain ⟨hid, hr''⟩ := h.owner _ r' hr'
    obtain rfl := h.self hnew hid hr''
    rw [hself]
    exact ⟨rfl, hopen hr''⟩
  · obtain ⟨r', hid, -, hr'⟩ := h.listed _ _ hi
    obtain rfl := h.self hnew hid hr'
    rw [hself]
    exact hopen hr'

theorem Known.register (h : Known calls s) {r : R} (hr : s.phase r = .recorded) :
    Known calls (s.register calls r) := by
  have hopen : ((s.register calls r).phase r).Open := by
    simp [State.register, Phase.Open]
  refine h.change (Or.inl (by rw [hr]; exact Phase.noConfusion))
    (fun r' hne => by simp [State.register, hne]) (fun r' hne => by simp [State.register, hne])
    (fun i hne => by simp [State.register, hne]) (fun r' hr' => ?_)
    (fun _ _ => by simp [State.register]) (fun t i hi hne => ?_) (fun _ => hopen)
  · have hown : r = r' := by simpa [State.register] using hr'
    exact ⟨hown.symm, hopen⟩
  · by_cases ht : t = calls.thread r
    · subst ht
      have hi' : i ≠ calls.id r := hne.resolve_right (fun hne => hne rfl)
      simp only [State.register, update_self] at hi
      split at hi
      · exact hi
      · exact (List.mem_cons.mp hi).resolve_left hi'
    · simpa [State.register, ht] using hi

theorem Known.forget (h : Known calls s) {r : R} {phase : Phase} (hr : (s.phase r).Open)
    (hwait : phase ≠ .waiting) (hphase : s'.phase = update s.phase r phase)
    (hfuture : ∀ r', r' ≠ r → s'.future r' = s.future r')
    (hpending : s'.pending = update s.pending (calls.id r) none)
    (hlisted : s'.listed = update s.listed (calls.thread r)
      ((s.listed (calls.thread r)).filter (· ≠ calls.id r))) : Known calls s' := by
  refine h.change (Or.inl hr.begun)
    (fun r' hne => by rw [hphase, update_of_ne hne]) hfuture
    (fun i hne => by rw [hpending, update_of_ne hne])
    (fun r' hr' => ?_) (fun hr' => ?_) (fun t i hi hne => ?_) (fun hi => ?_)
  · rw [hpending, update_self] at hr'
    cases hr'
  · rw [hphase, update_self] at hr'
    exact absurd hr' hwait
  · rw [hlisted] at hi
    by_cases ht : t = calls.thread r
    · subst ht
      rw [update_self] at hi
      exact List.mem_of_mem_filter hi
    · rwa [update_of_ne ht] at hi
  · rw [hlisted, update_self] at hi
    simpa using List.of_mem_filter hi

theorem Known.setFuture (h : Known calls s) {r : R} {future : Future} (hfuture : future ≠ .pending)
    (hphase : s'.phase = s.phase) (hfut : s'.future = update s.future r future)
    (hpending : s'.pending = s.pending) (hlisted : s'.listed = s.listed) : Known calls s' where
  owner := by rw [hphase, hpending]; exact h.owner
  present := by
    intro r' hr' hpend
    rw [hphase] at hr'
    rw [hfut] at hpend
    by_cases heq : r' = r
    · subst heq
      rw [update_self] at hpend
      exact absurd hpend hfuture
    · rw [update_of_ne heq] at hpend
      rw [hpending]
      exact h.present r' hr' hpend
  alone := by rw [hphase]; exact h.alone
  listed := by rw [hphase, hlisted]; exact h.listed

theorem Known.accept (h : Known calls s) (i : Id) (r : R) (answer : Answer) :
    Known calls (s.accept i r answer) :=
  h.setFuture (show Future.answered answer ≠ .pending from Future.noConfusion) rfl rfl rfl rfl

theorem Known.deny (h : Known calls s) (r : R) : Known calls (s.deny r) := by
  unfold State.deny
  split
  · exact h.setFuture (show Future.aborted ≠ .pending from Future.noConfusion) rfl rfl rfl rfl
  · exact h

theorem Known.resolve (h : Known calls s) (i : Id) (decision : Text) :
    Known calls (s.resolveApproval i decision).2 := by
  unfold State.resolveApproval
  split
  · exact h
  · split
    · exact h
    · split
      · exact h.accept _ _ _
      · exact h

theorem deny_done (s : State R Id Thread) (r : R) : (s.deny r).future r ≠ .pending := by
  unfold State.deny
  split
  · simp
  · assumption

theorem denyPending_pending (s : State R Id Thread) (i : Id) :
    (s.denyPending i).pending = s.pending := by
  unfold State.denyPending State.deny
  split
  · rfl
  · split <;> rfl

theorem Known.denyPending (h : Known calls s) (i : Id) : Known calls (s.denyPending i) := by
  unfold State.denyPending
  split
  · exact h
  · exact h.deny _

theorem Known.take (h : Known calls s) (p : Nat) (thread : Thread) (i : Id) (rest : List Id) :
    Known calls (s.take p thread i rest) := by
  have hknown := h.denyPending i
  refine ⟨fun j r hr => ?_, fun r hr hpend => ?_, hknown.alone, hknown.listed⟩
  · by_cases hj : j = i
    · subst hj
      simp [State.take] at hr
    · exact hknown.owner j r (by simpa [State.take, hj] using hr)
  · have hr' := hknown.present r hr hpend
    have hne : calls.id r ≠ i := by
      rintro rfl
      rw [denyPending_pending] at hr'
      have hdenied : s.denyPending (calls.id r) = s.deny r := by rw [State.denyPending, hr']
      have hpend' : (s.denyPending (calls.id r)).future r = .pending := hpend
      rw [hdenied] at hpend'
      exact deny_done s r hpend'
    simpa [State.take, hne] using hr'

theorem Known.step (h : Known calls s) {e : Event R Id Thread} (hfresh : Fresh calls s e)
    (hs : step calls s e = some s') : Known calls s' := by
  cases moves_of_step hs with
  | announce hr =>
    exact h.setPhase (fun hopen => absurd hr hopen.begun) Phase.noConfusion (Or.inr hfresh)
  | @record r hr =>
    have hphase : Known calls (s.setPhase r .recorded) :=
      h.setPhase (fun hopen => by rw [hr] at hopen; exact hopen) Phase.noConfusion
        (Or.inl (by rw [hr]; exact Phase.noConfusion))
    exact hphase.congr rfl rfl rfl rfl
  | register hr => exact h.register hr
  | wake hr _ =>
    exact h.setPhase (fun _ => trivial) Phase.noConfusion
      (Or.inl (by rw [hr]; exact Phase.noConfusion))
  | @expire r hr =>
    have hphase : Known calls (s.setPhase r (.settled false .timeout)) :=
      h.setPhase (fun _ => trivial) Phase.noConfusion (Or.inl (by rw [hr]; exact Phase.noConfusion))
    refine hphase.setFuture ?_ rfl rfl rfl rfl
    split
    · exact Future.noConfusion
    · assumption
  | @write r verdict outcome hr =>
    have hphase : Known calls (s.setPhase r (.written verdict)) :=
      h.setPhase (fun _ => trivial) Phase.noConfusion (Or.inl (by rw [hr]; exact Phase.noConfusion))
    exact hphase.congr rfl rfl rfl rfl
  | @finish r verdict hr =>
    have hopen : (s.phase r).Open := by
      rw [hr]
      trivial
    exact h.forget hopen (show Phase.returned verdict ≠ .waiting from Phase.noConfusion) rfl
      (fun _ _ => rfl) rfl rfl
  | @leave r hr =>
    have hshut : ¬(s.phase r).Open := by
      rcases hr with hr | hr <;> rw [hr] <;> exact id
    refine h.setPhase (fun hopen => absurd hopen hshut) Phase.noConfusion (Or.inl ?_)
    rcases hr with hr | hr <;> rw [hr] <;> exact Phase.noConfusion
  | @drop r hr =>
    refine h.forget hr (show Phase.cancelled ≠ .waiting from Phase.noConfusion) rfl
      (fun r' hne => ?_) rfl rfl
    simp [State.forget, State.dropFuture, State.setPhase, hne]
  | resolve i decision => exact h.resolve i decision
  | beginAbort thread hp => exact h.congr rfl rfl rfl rfl
  | takeAbort hp => exact h.take _ _ _ _
  | writeAbort hp => exact h.congr rfl rfl rfl rfl
  | @endAbort p thread hp =>
    refine ⟨h.owner, h.present, h.alone, fun t i hi => h.listed t i ?_⟩
    by_cases ht : t = thread
    · subst ht
      simp at hi
    · simpa [State.setPass, ht] using hi

end Steps

/-! ## Futures and phases -/

section Phases

@[simp] theorem deny_phase (s : State R Id Thread) (r : R) : (s.deny r).phase = s.phase := by
  unfold State.deny
  split <;> rfl

@[simp] theorem take_phase (s : State R Id Thread) (p : Nat) (thread : Thread) (i : Id)
    (rest : List Id) : (s.take p thread i rest).phase = s.phase := by
  show (s.denyPending i).phase = s.phase
  unfold State.denyPending
  split
  · rfl
  · exact deny_phase s _

@[simp] theorem resolve_phase (s : State R Id Thread) (i : Id) (decision : Text) :
    (s.resolveApproval i decision).2.phase = s.phase := by
  unfold State.resolveApproval
  split
  · rfl
  · split
    · rfl
    · split <;> rfl

@[simp] theorem resolve_passes (s : State R Id Thread) (i : Id) (decision : Text) :
    (s.resolveApproval i decision).2.passes = s.passes := by
  unfold State.resolveApproval
  split
  · rfl
  · split
    · rfl
    · split <;> rfl

theorem denyPending_passes (s : State R Id Thread) (i : Id) :
    (s.denyPending i).passes = s.passes := by
  unfold State.denyPending State.deny
  split
  · rfl
  · split <;> rfl

theorem deny_future {r r' : R} (h : s.future r ≠ .pending ∨ r ≠ r') :
    (s.deny r').future r = s.future r := by
  unfold State.deny
  split
  case isTrue hpend =>
    have hne : r ≠ r' := by
      rintro rfl
      exact h.elim (fun h => h hpend) (fun h => h rfl)
    simp [hne]
  case isFalse => rfl

theorem denyPending_future {r : R} {i : Id} (h : s.future r ≠ .pending ∨ s.pending i ≠ some r) :
    (s.denyPending i).future r = s.future r := by
  unfold State.denyPending
  cases hi : s.pending i with
  | none => rfl
  | some r' =>
    refine deny_future (h.imp_right fun h => ?_)
    rintro rfl
    exact h hi

theorem resolve_future {r : R} (i : Id) (decision : Text) (h : s.future r ≠ .pending) :
    (s.resolveApproval i decision).2.future r = s.future r := by
  unfold State.resolveApproval
  split
  · rfl
  · split
    · rfl
    · split
      case isTrue hpend =>
        have hne : r ≠ _ := fun heq => h (heq ▸ hpend)
        simp [State.accept, hne]
      case isFalse => rfl

theorem step_future {e : Event R Id Thread} (hs : step calls s e = some s') {r : R}
    (h : s.future r ≠ .pending) (hphase : s.phase r ≠ .recorded) : s'.future r = s.future r := by
  have hdrop : ∀ (s : State R Id Thread) r', s.future r ≠ .pending →
      (s.dropFuture r').future r = s.future r := by
    intro s r' hdone
    by_cases heq : r = r'
    · subst heq
      simp [State.dropFuture, hdone]
    · simp [State.dropFuture, heq]
  cases moves_of_step hs with
  | @register r' hr' =>
    have hne : r ≠ r' := by
      rintro rfl
      exact hphase hr'
    simp [State.register, hne]
  | expire _ => exact hdrop _ _ h
  | drop _ => exact hdrop _ _ h
  | resolve i decision => exact resolve_future i decision h
  | takeAbort _ => exact denyPending_future (Or.inl h)
  | _ => rfl

/-- Clients can see the request, and nothing has decided it. -/
def State.Window (s : State R Id Thread) (r : R) : Prop :=
  s.phase r = .announced ∨ s.phase r = .recorded ∨ s.phase r = .waiting ∧ s.future r = .pending

/-- Something has decided the request. -/
structure State.Past (s : State R Id Thread) (r : R) : Prop where
  begun : s.phase r ≠ .idle ∧ s.phase r ≠ .announced ∧ s.phase r ≠ .recorded
  done : s.phase r = .waiting → s.future r ≠ .pending

theorem State.Past.shut {r : R} (h : s.Past r) : ¬s.Window r := by
  rintro (hr | hr | ⟨hr, hpend⟩)
  · exact h.begun.2.1 hr
  · exact h.begun.2.2 hr
  · exact h.done hr hpend

/-- The phases in their order. -/
inductive Phase.Follows : Phase → Phase → Prop where
  | announced : Follows .idle .announced
  | recorded : Follows .announced .recorded
  | registered : Follows .recorded .waiting
  | settled (verdict : Bool) (outcome : Outcome) : Follows .waiting (.settled verdict outcome)
  | written (verdict : Bool) (outcome : Outcome) :
      Follows (.settled verdict outcome) (.written verdict)
  | returned (verdict : Bool) : Follows (.written verdict) (.returned verdict)
  | cancelled {phase : Phase} (h : phase ≠ .idle) : Follows phase .cancelled

theorem setPhase_follows (s : State R Id Thread) {r : R} {phase : Phase}
    (h : Phase.Follows (s.phase r) phase) (r' : R) :
    (s.setPhase r phase).phase r' = s.phase r' ∨
      Phase.Follows (s.phase r') ((s.setPhase r phase).phase r') := by
  by_cases heq : r' = r
  · subst heq
    rw [s.setPhase_self]
    exact Or.inr h
  · exact Or.inl (s.setPhase_of_ne heq phase)

theorem step_phase {e : Event R Id Thread} (hs : step calls s e = some s') (r : R) :
    s'.phase r = s.phase r ∨ Phase.Follows (s.phase r) (s'.phase r) := by
  cases moves_of_step hs with
  | announce hr => exact setPhase_follows s (by rw [hr]; exact .announced) r
  | record hr => exact setPhase_follows s (by rw [hr]; exact .recorded) r
  | register hr => exact setPhase_follows s (by rw [hr]; exact .registered) r
  | wake hr _ => exact setPhase_follows s (by rw [hr]; exact .settled _ _) r
  | expire hr => exact setPhase_follows s (by rw [hr]; exact .settled _ _) r
  | @write r' verdict outcome hr =>
    exact setPhase_follows s (by rw [hr]; exact .written verdict outcome) r
  | @finish r' verdict hr => exact setPhase_follows s (by rw [hr]; exact .returned verdict) r
  | leave hr =>
    refine setPhase_follows s (.cancelled ?_) r
    rcases hr with hr | hr <;> rw [hr] <;> exact Phase.noConfusion
  | drop hr => exact setPhase_follows s (.cancelled hr.begun) r
  | resolve i decision => exact Or.inl (by rw [resolve_phase])
  | takeAbort _ => exact Or.inl (by rw [take_phase])
  | _ => exact Or.inl rfl

theorem State.Past.step {e : Event R Id Thread} {r : R} (h : s.Past r)
    (hs : step calls s e = some s') : s'.Past r := by
  have hfuture : s.future r ≠ .pending → s'.future r ≠ .pending := fun hdone => by
    rw [step_future hs hdone h.begun.2.2]
    exact hdone
  rcases step_phase hs r with hsame | hnext
  · refine ⟨by rw [hsame]; exact h.begun, fun hr => ?_⟩
    rw [hsame] at hr
    exact hfuture (h.done hr)
  · obtain ⟨hidle, hannounced, hrecorded⟩ := h.begun
    generalize hphase : s'.phase r = phase at hnext
    generalize s.phase r = before at hnext hidle hannounced hrecorded
    cases hnext with
    | announced => exact absurd rfl hidle
    | recorded => exact absurd rfl hannounced
    | registered => exact absurd rfl hrecorded
    | _ => exact ⟨by simp [hphase], by simp [hphase]⟩

theorem step_waiting {e : Event R Id Thread} (hs : step calls s e = some s') {r : R}
    (hr : s.phase r = .waiting) :
    s'.phase r = .waiting ∧ s'.future r = .pending ∨ s'.Past r := by
  rcases step_phase hs r with hsame | hnext
  · rw [hr] at hsame
    by_cases hpend : s'.future r = .pending
    · exact Or.inl ⟨hsame, hpend⟩
    · exact Or.inr ⟨by simp [hsame], fun _ => hpend⟩
  · rw [hr] at hnext
    generalize hphase : s'.phase r = phase at hnext
    cases hnext with
    | _ => exact Or.inr ⟨by simp [hphase], by simp [hphase]⟩

theorem step_settled {e : Event R Id Thread} (hs : step calls s e = some s') {r : R}
    (hr : s.phase r = .waiting) {verdict : Bool} {outcome : Outcome}
    (hr' : s'.phase r = .settled verdict outcome) :
    e = .wake r ∧ (s.future r).verdict = some verdict ∧
        outcome = .user (s.resolvedDecision (calls.id r)) ∨
      e = .expire r ∧ verdict = false ∧ outcome = .timeout := by
  have hother : ∀ (r' : R) (phase : Phase), (s.setPhase r' phase).phase r = .settled verdict outcome →
      r' = r ∧ phase = .settled verdict outcome := by
    intro r' phase h
    by_cases heq : r = r'
    · subst heq
      exact ⟨rfl, (s.setPhase_self r phase).symm.trans h⟩
    · rw [s.setPhase_of_ne heq, hr] at h
      cases h
  have hsame : s.phase r ≠ .settled verdict outcome := by
    rw [hr]
    exact Phase.noConfusion
  cases moves_of_step hs with
  | wake _ hverdict =>
    obtain ⟨rfl, hphase⟩ := hother _ _ hr'
    cases hphase
    exact Or.inl ⟨rfl, hverdict, rfl⟩
  | expire _ =>
    obtain ⟨rfl, hphase⟩ := hother _ _ hr'
    cases hphase
    exact Or.inr ⟨rfl, rfl, rfl⟩
  | resolve i decision =>
    rw [resolve_phase] at hr'
    exact absurd hr' hsame
  | takeAbort _ =>
    rw [take_phase] at hr'
    exact absurd hr' hsame
  | beginAbort _ _ => exact absurd hr' hsame
  | writeAbort _ => exact absurd hr' hsame
  | endAbort _ => exact absurd hr' hsame
  | announce _ => cases (hother _ _ hr').2
  | record _ => cases (hother _ _ hr').2
  | register _ => cases (hother _ _ hr').2
  | write _ => cases (hother _ _ hr').2
  | finish _ => cases (hother _ _ hr').2
  | leave _ => cases (hother _ _ hr').2
  | drop _ => cases (hother _ _ hr').2

end Phases

/-! ## An answer -/

section Answer

/-- An answer is accepted, and unless the time runs out the request returns it. -/
def Decides (calls : Calls R Id Thread) (s : State R Id Thread) (r : R) : Prop :=
  ∀ decision answer, normalize decision = some answer →
    (s.resolveApproval (calls.id r) decision).1 = true ∧
      ∀ events t, .expire r ∉ events →
        Steps.run (step calls) (s.resolveApproval (calls.id r) decision).2 events = some t →
          ∀ verdict, t.phase r = .returned verdict → verdict = answer.permits

/-- The request waits on the answer, or has got it, or is cancelled. -/
def Answered (answer : Answer) (s : State R Id Thread) (r : R) : Prop :=
  s.future r = .answered answer ∧
    (s.phase r = .waiting ∨ (∃ outcome, s.phase r = .settled answer.permits outcome) ∨
      s.phase r = .written answer.permits ∨ s.phase r = .returned answer.permits ∨
        s.phase r = .cancelled)

theorem Answered.step {answer : Answer} {e : Event R Id Thread} {r : R}
    (h : Answered answer s r) (he : e ≠ .expire r) (hs : step calls s e = some s') :
    Answered answer s' r := by
  obtain ⟨hfuture, hphase⟩ := h
  have hkept : s'.future r = .answered answer := by
    rw [← hfuture]
    refine step_future hs (by rw [hfuture]; exact Future.noConfusion) (fun hr => ?_)
    rcases hphase with h | ⟨_, h⟩ | h | h | h <;> rw [hr] at h <;> cases h
  refine ⟨hkept, ?_⟩
  rcases step_phase hs r with hsame | hnext
  · rwa [hsame]
  · generalize hphase' : s'.phase r = phase at hnext
    rcases hphase with hr | ⟨outcome, hr⟩ | hr | hr | hr
    · have hwait := hr
      rw [hr] at hnext
      cases hnext with
      | settled verdict outcome =>
        rcases step_settled hs hwait hphase' with ⟨-, hverdict, -⟩ | ⟨hexpire, -, -⟩
        · rw [hfuture] at hverdict
          cases hverdict
          exact Or.inr (Or.inl ⟨outcome, rfl⟩)
        · exact absurd hexpire he
      | cancelled _ => exact Or.inr (Or.inr (Or.inr (Or.inr rfl)))
    · rw [hr] at hnext
      cases hnext with
      | written _ _ => exact Or.inr (Or.inr (Or.inl rfl))
      | cancelled _ => exact Or.inr (Or.inr (Or.inr (Or.inr rfl)))
    · rw [hr] at hnext
      cases hnext with
      | returned _ => exact Or.inr (Or.inr (Or.inr (Or.inl rfl)))
      | cancelled _ => exact Or.inr (Or.inr (Or.inr (Or.inr rfl)))
    · rw [hr] at hnext
      cases hnext with
      | cancelled _ => exact Or.inr (Or.inr (Or.inr (Or.inr rfl)))
    · rw [hr] at hnext
      cases hnext with
      | cancelled _ => exact Or.inr (Or.inr (Or.inr (Or.inr rfl)))

theorem State.Window.begun {r : R} (h : s.Window r) : s.phase r ≠ .idle := by
  rcases h with h | h | ⟨h, -⟩ <;> rw [h] <;> exact Phase.noConfusion

theorem decides_iff (hknown : Known calls s) {r : R} (hr : s.Window r) :
    Decides calls s r ↔ s.phase r = .waiting := by
  constructor
  · intro h
    by_contra hwait
    have hnone : s.pending (calls.id r) = none := by
      cases hpending : s.pending (calls.id r) with
      | none => rfl
      | some r' =>
        obtain ⟨hid, hopen⟩ := hknown.owner _ r' hpending
        obtain rfl := hknown.self (Or.inl hr.begun) hid hopen
        rcases hr with hr | hr | ⟨hr, -⟩
        · rw [hr] at hopen
          exact absurd hopen id
        · rw [hr] at hopen
          exact absurd hopen id
        · exact absurd hr hwait
    have honce : normalize "once".toList = some .once := if_pos (Or.inl rfl)
    have haccepted := (h "once".toList .once honce).1
    rw [State.resolveApproval, honce] at haccepted
    dsimp only at haccepted
    rw [hnone] at haccepted
    cases haccepted
  · intro hwait decision answer hanswer
    have hpend : s.future r = .pending := by
      rcases hr with hr | hr | ⟨-, hpend⟩
      · rw [hwait] at hr
        cases hr
      · rw [hwait] at hr
        cases hr
      · exact hpend
    have hresolve : s.resolveApproval (calls.id r) decision =
        (true, s.accept (calls.id r) r answer) := by
      rw [State.resolveApproval, hanswer]
      dsimp only
      rw [hknown.present r hwait hpend]
      dsimp only
      rw [if_pos hpend]
    rw [hresolve]
    refine ⟨rfl, fun events t hexpire hrun verdict hverdict => ?_⟩
    have hstart : Answered answer (s.accept (calls.id r) r answer) r := by
      refine ⟨by simp [State.accept], Or.inl hwait⟩
    have hend := Steps.goodRun_invariant (step calls) (fun _ e => e ≠ .expire r)
      (fun s => Answered answer s r) (fun s e s' h he hs => h.step he hs) _ t events hstart hrun ?_
    · rcases hend.2 with h | ⟨_, h⟩ | h | h | h <;> rw [hverdict] at h <;> cases h
      rfl
    · refine (Steps.goodRun_iff_forall _ _ _ _).mpr fun before e after heq _ _ => ?_
      rintro rfl
      exact hexpire (by simp [heq])

end Answer

/-! ## An abort -/

section Abort

/-- An abort of the request's thread that begins now has decided the request when it is over. -/
def Denies (calls : Calls R Id Thread) (s : State R Id Thread) (r : R) : Prop :=
  ∀ p events t, .endAbort p ∉ events →
    Steps.GoodRun (step calls) (Fresh calls) s
      (.beginAbort p (calls.thread r) :: (events ++ [.endAbort p])) →
    Steps.run (step calls) s (.beginAbort p (calls.thread r) :: (events ++ [.endAbort p])) = some t →
      ¬t.Window r

/-- The pass `p` has the request before it, or the request is decided. -/
def OnWay (calls : Calls R Id Thread) (p : Nat) (s : State R Id Thread) (r : R) : Prop :=
  ∃ pass, s.passes p = some pass ∧
    (calls.id r ∈ pass.todo ∧ s.phase r = .waiting ∧ s.future r = .pending ∨ s.Past r)

theorem take_denies (hknown : Known calls s) {r : R} (hr : s.phase r = .waiting)
    (p : Nat) (thread : Thread) (rest : List Id) :
    (s.take p thread (calls.id r) rest).Past r := by
  refine ⟨by simp [hr], fun _ => ?_⟩
  show (s.denyPending (calls.id r)).future r ≠ .pending
  by_cases hpend : s.future r = .pending
  · rw [State.denyPending, hknown.present r hr hpend]
    exact deny_done s r
  · rw [denyPending_future (Or.inl hpend)]
    exact hpend

theorem step_pass {e : Event R Id Thread} (hs : step calls s e = some s') {p : Nat}
    {pass : Pass Id Thread} (hpass : s.passes p = some pass) (he : e ≠ .endAbort p) :
    ∃ pass', s'.passes p = some pass' ∧ (pass'.todo = pass.todo ∨
      ∃ i, pass.todo = i :: pass'.todo ∧ s' = s.take p pass.thread i pass'.todo) := by
  cases moves_of_step hs with
  | resolve i decision => exact ⟨pass, by rw [resolve_passes]; exact hpass, Or.inl rfl⟩
  | @beginAbort q thread hq =>
    have hne : p ≠ q := by
      rintro rfl
      rw [hq] at hpass
      cases hpass
    exact ⟨pass, by simpa [State.setPass, hne] using hpass, Or.inl rfl⟩
  | @takeAbort q thread i rest hq =>
    by_cases heq : p = q
    · subst heq
      obtain rfl := Option.some.inj (hpass.symm.trans hq)
      exact ⟨⟨thread, rest, some i⟩, by simp [State.take], Or.inr ⟨i, rfl, rfl⟩⟩
    · have hkept := denyPending_passes s i
      exact ⟨pass, by simpa [State.take, heq, hkept] using hpass, Or.inl rfl⟩
  | @writeAbort q thread todo i hq =>
    by_cases heq : p = q
    · subst heq
      obtain rfl := Option.some.inj (hpass.symm.trans hq)
      exact ⟨⟨thread, todo, none⟩, by simp [State.append, State.setPass], Or.inl rfl⟩
    · exact ⟨pass, by simpa [State.append, State.setPass, heq] using hpass, Or.inl rfl⟩
  | @endAbort q thread hq =>
    have hne : p ≠ q := fun heq => he (heq ▸ rfl)
    exact ⟨pass, by simpa [State.setPass, hne] using hpass, Or.inl rfl⟩
  | _ => exact ⟨pass, hpass, Or.inl rfl⟩

theorem OnWay.step (hknown : Known calls s) {p : Nat} {e : Event R Id Thread} {r : R}
    (h : OnWay calls p s r) (he : e ≠ .endAbort p) (hs : step calls s e = some s') :
    OnWay calls p s' r := by
  obtain ⟨pass, hpass, hway⟩ := h
  obtain ⟨pass', hpass', htodo⟩ := step_pass hs hpass he
  refine ⟨pass', hpass', ?_⟩
  rcases hway with ⟨hmem, hr, hpend⟩ | hpast
  · rcases htodo with hsame | ⟨i, hcons, rfl⟩
    · rcases step_waiting hs hr with hwait | hpast
      · exact Or.inl ⟨hsame ▸ hmem, hwait⟩
      · exact Or.inr hpast
    · rw [hcons] at hmem
      rcases List.mem_cons.mp hmem with rfl | hmem
      · exact Or.inr (take_denies hknown hr _ _ _)
      · rcases step_waiting hs hr with hwait | hpast
        · exact Or.inl ⟨hmem, hwait⟩
        · exact Or.inr hpast
  · exact Or.inr (hpast.step hs)

theorem sweep (hknown : Known calls s) {p : Nat} {thread : Thread} {todo : List Id}
    (hpass : s.passes p = some ⟨thread, todo, none⟩) {r : R} (hr : s.Window r)
    (hmiss : calls.id r ∉ todo ∨ s.phase r ≠ .waiting) :
    ∃ events t, .endAbort p ∉ events ∧
      Steps.GoodRun (step calls) (Fresh calls) s (events ++ [.endAbort p]) ∧
      Steps.run (step calls) s (events ++ [.endAbort p]) = some t ∧ t.Window r := by
  induction todo generalizing s with
  | nil =>
    have hs : step calls s (.endAbort p) =
        some { s.setPass p none with listed := update s.listed thread [] } := by
      dsimp only [step]
      rw [hpass]
    refine ⟨[], { s.setPass p none with listed := update s.listed thread [] },
      List.not_mem_nil, ⟨trivial, fun _ _ => trivial⟩, ?_, hr⟩
    rw [List.nil_append, Steps.run_cons_of_step (step calls) [] hs]
    rfl
  | cons i rest ih =>
    have htake : step calls s (.takeAbort p) = some (s.take p thread i rest) := by
      dsimp only [step]
      rw [hpass]
    have hwriting : (s.take p thread i rest).passes p = some ⟨thread, rest, some i⟩ := by
      simp [State.take]
    have hwrite : step calls (s.take p thread i rest) (.writeAbort p) =
        some (((s.take p thread i rest).setPass p (some ⟨thread, rest, none⟩)).append
          (.resolved i .abort)) := by
      dsimp only [step]
      rw [hwriting]
    have hother : s.pending i ≠ some r := by
      intro hpending
      obtain ⟨rfl, hopen⟩ := hknown.owner i r hpending
      rcases hmiss with hmiss | hmiss
      · exact hmiss List.mem_cons_self
      · rcases hr with hr | hr | ⟨hr, -⟩
        · rw [hr] at hopen
          exact hopen
        · rw [hr] at hopen
          exact hopen
        · exact hmiss hr
    have hfuture : (s.take p thread i rest).future r = s.future r :=
      denyPending_future (Or.inr hother)
    have hphase : (s.take p thread i rest).phase r = s.phase r := by rw [take_phase]
    have hwindow : (s.take p thread i rest).Window r := by
      unfold State.Window at hr ⊢
      rwa [hphase, hfuture]
    have hleft : calls.id r ∉ rest ∨ (s.take p thread i rest).phase r ≠ .waiting := by
      rw [hphase]
      exact hmiss.imp_left fun hmiss hmem => hmiss (List.mem_cons_of_mem i hmem)
    have hknown' : Known calls (((s.take p thread i rest).setPass p
        (some ⟨thread, rest, none⟩)).append (.resolved i .abort)) :=
      (hknown.take p thread i rest).congr rfl rfl rfl rfl
    have hpass' : (((s.take p thread i rest).setPass p
        (some ⟨thread, rest, none⟩)).append (.resolved i .abort)).passes p =
          some ⟨thread, rest, none⟩ := by
      simp [State.append, State.setPass]
    obtain ⟨events, t, hend, hfresh, hrun, hwindow⟩ := ih hknown' hpass' hwindow hleft
    refine ⟨.takeAbort p :: .writeAbort p :: events, t, ?_, ?_, ?_, hwindow⟩
    · simpa using hend
    · refine ⟨trivial, fun s₁ hs₁ => ⟨trivial, fun s₂ hs₂ => ?_⟩⟩
      obtain rfl := Option.some.inj (htake.symm.trans hs₁)
      obtain rfl := Option.some.inj (hwrite.symm.trans hs₂)
      exact hfresh
    · rw [List.cons_append, List.cons_append, Steps.run_cons_of_step (step calls) _ htake,
        Steps.run_cons_of_step (step calls) _ hwrite]
      exact hrun

theorem exists_free_pass {events : List (Event R Id Thread)}
    (hrun : Steps.run (step calls) init events = some s) : ∃ p, s.passes p = none := by
  have hbounded : ∃ n, ∀ p, n ≤ p → s.passes p = none := by
    refine Steps.run_invariant (step calls) (fun s => ∃ n, ∀ p, n ≤ p → s.passes p = none)
      (fun s e s' h hs => ?_) _ s events ⟨0, fun _ _ => rfl⟩ hrun
    obtain ⟨n, hn⟩ := h
    have hset : ∀ (s' : State R Id Thread) q pass, s'.passes = update s.passes q pass →
        ∃ n, ∀ p, n ≤ p → s'.passes p = none := by
      intro s' q pass hpasses
      refine ⟨max n (q + 1), fun p hp => ?_⟩
      rw [hpasses, update_of_ne (by omega)]
      exact hn p (by omega)
    cases moves_of_step hs with
    | resolve i decision => exact ⟨n, by rw [resolve_passes]; exact hn⟩
    | beginAbort _ _ => exact hset _ _ _ rfl
    | @takeAbort q thread i rest _ =>
      have hkept : (s.denyPending i).passes = s.passes := denyPending_passes s i
      exact hset _ q (some ⟨thread, rest, some i⟩) (by rw [← hkept]; rfl)
    | writeAbort _ => exact hset _ _ _ rfl
    | endAbort _ => exact hset _ _ _ rfl
    | _ => exact ⟨n, hn⟩
  obtain ⟨n, hn⟩ := hbounded
  exact ⟨n, hn n (Nat.le_refl n)⟩

theorem denies_iff (hknown : Known calls s) {r : R} (hr : s.Window r)
    (hfree : ∃ p, s.passes p = none) :
    Denies calls s r ↔ s.phase r = .waiting ∧ calls.id r ∈ s.listed (calls.thread r) := by
  have hbegin : ∀ p, s.passes p = none → step calls s (.beginAbort p (calls.thread r)) =
      some (s.setPass p (some ⟨calls.thread r, s.listed (calls.thread r), none⟩)) := by
    intro p hp
    dsimp only [step]
    rw [hp]
    rfl
  constructor
  · intro h
    by_contra hmiss
    obtain ⟨p, hp⟩ := hfree
    have hbegun : (s.setPass p (some ⟨calls.thread r, s.listed (calls.thread r), none⟩)).passes p =
        some ⟨calls.thread r, s.listed (calls.thread r), none⟩ := by
      simp [State.setPass]
    have hleft : calls.id r ∉ s.listed (calls.thread r) ∨ s.phase r ≠ .waiting := by tauto
    have hknown' : Known calls
        (s.setPass p (some ⟨calls.thread r, s.listed (calls.thread r), none⟩)) :=
      hknown.congr rfl rfl rfl rfl
    obtain ⟨events, t, hend, hfresh, hrun, hwindow⟩ := sweep hknown' hbegun hr hleft
    refine h p events t hend ⟨trivial, fun s₁ hs₁ => ?_⟩ ?_ hwindow
    · obtain rfl := Option.some.inj ((hbegin p hp).symm.trans hs₁)
      exact hfresh
    · rw [Steps.run_cons_of_step (step calls) _ (hbegin p hp)]
      exact hrun
  · rintro ⟨hwait, hlisted⟩ p events t hend hfresh hrun
    have hpend : s.future r = .pending := by
      rcases hr with hr | hr | ⟨-, hpend⟩
      · rw [hwait] at hr
        cases hr
      · rw [hwait] at hr
        cases hr
      · exact hpend
    obtain ⟨s₁, hs₁, hrun⟩ := Steps.run_cons_some (step calls) hrun
    have hfree : s.passes p = none := by
      cases moves_of_step hs₁
      assumption
    obtain rfl := Option.some.inj ((hbegin p hfree).symm.trans hs₁)
    have hgood := hfresh.2 _ (hbegin p hfree)
    rw [Steps.run_append] at hrun
    obtain ⟨s₂, hs₂, hlast⟩ := Option.bind_eq_some_iff.mp hrun
    have hknown' : Known calls
        (s.setPass p (some ⟨calls.thread r, s.listed (calls.thread r), none⟩)) :=
      hknown.congr rfl rfl rfl rfl
    have hstart : OnWay calls p
        (s.setPass p (some ⟨calls.thread r, s.listed (calls.thread r), none⟩)) r :=
      ⟨⟨calls.thread r, s.listed (calls.thread r), none⟩, by simp [State.setPass],
        Or.inl ⟨hlisted, hwait, hpend⟩⟩
    have hnever : Steps.GoodRun (step calls) (fun _ e => e ≠ .endAbort p)
        (s.setPass p (some ⟨calls.thread r, s.listed (calls.thread r), none⟩)) events := by
      refine (Steps.goodRun_iff_forall _ _ _ _).mpr fun before e after heq _ _ => ?_
      rintro rfl
      exact hend (by simp [heq])
    have hway := Steps.goodRun_invariant (step calls)
      (fun s e => Fresh calls s e ∧ e ≠ .endAbort p)
      (fun s => Known calls s ∧ OnWay calls p s r)
      (fun s e s' h he hs => ⟨h.1.step he.1 hs, h.2.step h.1 he.2 hs⟩) _ s₂ events
      ⟨hknown', hstart⟩ hs₂
      (Steps.goodRun_both _ _ _ _ _ (Steps.goodRun_before _ _ _ _ _ hgood) hnever)
    obtain ⟨-, pass, hpass, hleft⟩ := hway
    obtain ⟨s₃, hs₃, hnil⟩ := Steps.run_cons_some (step calls) hlast
    cases hnil
    have hpast : s₂.Past r := by
      rcases hleft with ⟨hmem, -⟩ | hpast
      · have hempty : pass.todo = [] := by
          cases moves_of_step hs₃ with
          | endAbort hp =>
            obtain rfl := Option.some.inj (hpass.symm.trans hp)
            rfl
        rw [hempty] at hmem
        cases hmem
      · exact hpast
    exact (hpast.step hs₃).shut

end Abort

def singleThread : Calls Nat Nat Nat := ⟨id, fun _ => 0⟩

end MiqroForge.Approvals
