import MiqroForge.Approvals.Answers

/-! When each request gets exactly one outcome in the ledger. -/

set_option linter.unusedSectionVars false

namespace MiqroForge.Approvals

open PyText Function

variable {R Id Thread : Type} [DecidableEq R] [DecidableEq Id] [DecidableEq Thread]
  {calls : Calls R Id Thread} {s s' : State R Id Thread}

/-- The items of an approval. -/
def State.records (s : State R Id Thread) (i : Id) : List (Record Id) :=
  s.ledger.filter (·.id = i)

/-- The abort `p` is between denying the approval and writing it to the ledger. -/
def State.Writing (s : State R Id Thread) (p : Nat) (i : Id) : Prop :=
  ∃ thread todo, s.passes p = some ⟨thread, todo, some i⟩

def State.Quiet (s : State R Id Thread) (i : Id) : Prop := ∀ p, ¬s.Writing p i

/-- A request has a new id; an abort takes only what still waits unanswered; a task whose approval
an abort has taken does not go on, and only such a task is cancelled, or one that has nothing to
write. -/
def Orderly (calls : Calls R Id Thread) (s : State R Id Thread) : Event R Id Thread → Prop
  | .announce r => ∀ r', calls.id r' = calls.id r → s.phase r' = .idle
  | .wake r => s.future r ≠ .aborted
  | .expire r => s.future r ≠ .aborted
  | .cancel r => s.phase r = .announced ∨ (∃ verdict, s.phase r = .written verdict) ∨
      s.phase r = .waiting ∧ s.future r = .aborted
  | .takeAbort p => ∀ thread i rest, s.passes p = some ⟨thread, i :: rest, none⟩ →
      ∃ r, s.pending i = some r ∧ s.future r = .pending
  | _ => True

/-- One outcome: at most one item settles a request that was asked for, with what has decided it,
and exactly one when its task is over and no abort is about to write; a tool runs only by an
outcome that permits it. -/
structure Consistent (calls : Calls R Id Thread) (s : State R Id Thread) (r : R) : Prop where
  once : s.records (calls.id r) = [] ∨ s.records (calls.id r) = [.requested (calls.id r)] ∨
    ∃ outcome, s.effect r = some outcome ∧
      s.records (calls.id r) = [.requested (calls.id r), .resolved (calls.id r) outcome]
  closed : ((∃ verdict, s.phase r = .returned verdict) ∨ s.phase r = .cancelled) →
    s.Quiet (calls.id r) → s.records (calls.id r) ≠ [.requested (calls.id r)]
  permitted : s.phase r = .returned true → ∃ outcome, outcome.permits = true ∧
    s.records (calls.id r) = [.requested (calls.id r), .resolved (calls.id r) outcome]

/-! ## The story of a request -/

section Story

def Opened (calls : Calls R Id Thread) (s : State R Id Thread) (r : R) : Prop :=
  s.records (calls.id r) = [.requested (calls.id r)] ∧ s.Quiet (calls.id r)

def Closed (calls : Calls R Id Thread) (s : State R Id Thread) (r : R) (outcome : Outcome) : Prop :=
  s.records (calls.id r) = [.requested (calls.id r), .resolved (calls.id r) outcome] ∧
    s.effect r = some outcome ∧ s.Quiet (calls.id r)

/-- One abort has denied the request, and has written it or is about to. -/
def Aborted (calls : Calls R Id Thread) (s : State R Id Thread) (r : R) : Prop :=
  Closed calls s r .abort ∨
    s.records (calls.id r) = [.requested (calls.id r)] ∧ s.effect r = some .abort ∧
      ∃ p, s.Writing p (calls.id r) ∧ ∀ q, s.Writing q (calls.id r) → q = p

/-- What has happened to a request that waits. -/
def Waits (calls : Calls R Id Thread) (s : State R Id Thread) (r : R) : Future → Prop
  | .pending => Opened calls s r ∧ s.approvalMeta (calls.id r) = some none
  | .answered answer => Opened calls s r ∧ s.approvalMeta (calls.id r) = some (some answer) ∧
      s.effect r = some (.user answer)
  | .aborted => Aborted calls s r
  | .cancelled => False

/-- What the ledger, the metadata and the aborts hold of a request in a phase. -/
def Story (calls : Calls R Id Thread) (s : State R Id Thread) (r : R) : Phase → Prop
  | .idle => True
  | .announced => s.records (calls.id r) = [] ∧ s.Quiet (calls.id r)
  | .recorded => Opened calls s r
  | .waiting => Waits calls s r (s.future r)
  | .settled verdict outcome => Opened calls s r ∧ s.effect r = some outcome ∧
      verdict = outcome.permits ∧ s.future r ≠ .pending
  | .written verdict => ∃ outcome, Closed calls s r outcome ∧ verdict = outcome.permits ∧
      s.future r ≠ .pending
  | .returned verdict => ∃ outcome, Closed calls s r outcome ∧ verdict = outcome.permits
  | .cancelled => s.records (calls.id r) = [] ∧ s.Quiet (calls.id r) ∨ Aborted calls s r ∨
      ∃ outcome, Closed calls s r outcome

theorem Story.congr {r : R} {phase : Phase} (h : Story calls s r phase)
    (hfuture : s'.future r = s.future r) (heffect : s'.effect r = s.effect r)
    (hmeta : s'.approvalMeta (calls.id r) = s.approvalMeta (calls.id r))
    (hrecords : s'.records (calls.id r) = s.records (calls.id r))
    (hwriting : ∀ p, s'.Writing p (calls.id r) ↔ s.Writing p (calls.id r)) :
    Story calls s' r phase := by
  have hquiet : s'.Quiet (calls.id r) ↔ s.Quiet (calls.id r) := by
    unfold State.Quiet
    simp only [hwriting]
  have hopened : Opened calls s' r ↔ Opened calls s r := by
    unfold Opened
    rw [hrecords, hquiet]
  have hclosed : ∀ outcome, Closed calls s' r outcome ↔ Closed calls s r outcome := by
    intro outcome
    unfold Closed
    rw [hrecords, heffect, hquiet]
  have haborted : Aborted calls s' r ↔ Aborted calls s r := by
    unfold Aborted
    simp only [hclosed, hrecords, heffect, hwriting]
  cases phase with
  | idle => trivial
  | announced => exact ⟨hrecords.trans h.1, hquiet.mpr h.2⟩
  | recorded => exact hopened.mpr h
  | waiting =>
    unfold Story at h ⊢
    rw [hfuture]
    cases hfut : s.future r with
    | cancelled =>
      rw [hfut] at h
      exact absurd h id
    | _ =>
      rw [hfut] at h
      simpa only [Waits, hopened, hmeta, heffect, haborted] using h
  | settled verdict outcome =>
    simpa only [Story, hopened, heffect, hfuture] using h
  | written verdict => simpa only [Story, hclosed, hfuture] using h
  | returned verdict => simpa only [Story, hclosed] using h
  | cancelled => simpa only [Story, hclosed, hrecords, hquiet, haborted] using h

structure Inv (calls : Calls R Id Thread) (s : State R Id Thread) : Prop where
  known : Known calls s
  story : ∀ r, Story calls s r (s.phase r)
  unasked : ∀ i, (∀ r, calls.id r = i → s.phase r = .idle) → s.records i = [] ∧ s.Quiet i

theorem inv_init : Inv calls (init : State R Id Thread) where
  known := known_init
  story := fun _ => trivial
  unasked := fun _ _ => ⟨rfl, by rintro p ⟨_, _, h⟩; cases h⟩

theorem Inv.change (h : Inv calls s) {r : R} (hknown : Known calls s')
    (hnew : s.phase r ≠ .idle ∨ ∀ r', calls.id r' = calls.id r → s.phase r' = .idle)
    (hbegun : s'.phase r ≠ .idle)
    (hother : ∀ r', r' ≠ r → s'.phase r' = s.phase r' ∧ s'.future r' = s.future r' ∧
      s'.effect r' = s.effect r')
    (hentries : ∀ i, i ≠ calls.id r → s'.approvalMeta i = s.approvalMeta i ∧
      s'.records i = s.records i ∧ ∀ p, s'.Writing p i ↔ s.Writing p i)
    (hstory : Story calls s' r (s'.phase r)) : Inv calls s' where
  known := hknown
  story := by
    intro r'
    by_cases heq : r' = r
    · subst heq
      exact hstory
    · obtain ⟨hphase, hfuture, heffect⟩ := hother r' heq
      rw [hphase]
      by_cases hidle : s.phase r' = .idle
      · rw [hidle]
        trivial
      · obtain ⟨hmeta, hrecords, hwriting⟩ := hentries _ (h.known.apart hnew heq hidle)
        exact (h.story r').congr hfuture heffect hmeta hrecords hwriting
  unasked := by
    intro i hi
    have hne : i ≠ calls.id r := fun heq => hbegun (hi r heq.symm)
    obtain ⟨-, hrecords, hwriting⟩ := hentries i hne
    have hold : s.records i = [] ∧ s.Quiet i := h.unasked i fun r' hr' => by
      have hr : r' ≠ r := fun heq => hne (heq ▸ hr'.symm)
      rw [← (hother r' hr).1]
      exact hi r' hr'
    exact ⟨hrecords.trans hold.1, fun p hp => hold.2 p ((hwriting p).mp hp)⟩

end Story

/-! ## The steps -/

section Steps

theorem records_congr (h : s'.ledger = s.ledger) (i : Id) : s'.records i = s.records i := by
  unfold State.records
  rw [h]

theorem writing_congr (h : s'.passes = s.passes) (p : Nat) (i : Id) :
    s'.Writing p i ↔ s.Writing p i := by
  unfold State.Writing
  rw [h]

variable {record : Record Id}

theorem records_append_self (h : s'.ledger = s.ledger ++ [record]) :
    s'.records record.id = s.records record.id ++ [record] := by
  unfold State.records
  rw [h, List.filter_append]
  simp

theorem records_append_of_ne {i : Id} (h : s'.ledger = s.ledger ++ [record]) (hi : i ≠ record.id) :
    s'.records i = s.records i := by
  unfold State.records
  rw [h, List.filter_append]
  simp [Ne.symm hi]

theorem writing_update {p : Nat} {pass : Option (Pass Id Thread)} {i : Id}
    (h : s'.passes = update s.passes p pass)
    (hwriting : (∃ thread todo, pass = some ⟨thread, todo, some i⟩) ↔ s.Writing p i) (q : Nat) :
    s'.Writing q i ↔ s.Writing q i := by
  by_cases hq : q = p
  · subst hq
    unfold State.Writing
    rw [h, update_self]
    exact hwriting
  · unfold State.Writing
    rw [h, update_of_ne hq]

theorem not_writing_of_passes {p : Nat} {thread : Thread} {todo : List Id} {i : Id}
    (h : s.passes p = some ⟨thread, todo, none⟩) : ¬s.Writing p i := by
  rintro ⟨_, _, hw⟩
  rw [h] at hw
  cases hw

theorem Inv.passes (h : Inv calls s) (hphase : s'.phase = s.phase) (hfuture : s'.future = s.future)
    (heffect : s'.effect = s.effect) (hmeta : s'.approvalMeta = s.approvalMeta)
    (hledger : s'.ledger = s.ledger) (hwriting : ∀ p i, s'.Writing p i ↔ s.Writing p i)
    (hknown : Known calls s') : Inv calls s' where
  known := hknown
  story := by
    intro r
    rw [hphase]
    exact (h.story r).congr (congrFun hfuture r) (congrFun heffect r) (congrFun hmeta _)
      (records_congr hledger _) (fun p => hwriting p _)
  unasked := by
    intro i hi
    rw [hphase] at hi
    obtain ⟨hrecords, hquiet⟩ := h.unasked i hi
    exact ⟨(records_congr hledger i).trans hrecords, fun p hp => hquiet p ((hwriting p i).mp hp)⟩

theorem Opened.not_writing {r : R} (h : Opened calls s r) {p : Nat} :
    ¬s.Writing p (calls.id r) :=
  h.2 p

theorem Inv.denied (h : Inv calls s) {p : Nat} {i : Id} (hp : s.Writing p i) :
    ∃ r, calls.id r = i ∧ (s.phase r = .waiting ∧ s.future r = .aborted ∨ s.phase r = .cancelled) ∧
      s.records i = [.requested i] ∧ s.effect r = some .abort ∧ ∀ q, s.Writing q i → q = p := by
  have hbegun : ∃ r, calls.id r = i ∧ s.phase r ≠ .idle := by
    by_contra hnone
    have hidle : ∀ r, calls.id r = i → s.phase r = .idle := fun r hr =>
      by_contra fun hbegun => hnone ⟨r, hr, hbegun⟩
    exact (h.unasked i hidle).2 p hp
  obtain ⟨r, rfl, hidle⟩ := hbegun
  have habort : Aborted calls s r → s.records (calls.id r) = [.requested (calls.id r)] ∧
      s.effect r = some .abort ∧ ∀ q, s.Writing q (calls.id r) → q = p := by
    rintro (hclosed | ⟨hrecords, heffect, q, hq, hunique⟩)
    · exact absurd hp (hclosed.2.2 p)
    · obtain rfl := hunique p hp
      exact ⟨hrecords, heffect, hunique⟩
  have hstory := h.story r
  refine ⟨r, rfl, ?_⟩
  cases hphase : s.phase r with
  | idle => exact absurd hphase hidle
  | announced =>
    rw [hphase] at hstory
    exact absurd hp (hstory.2 p)
  | recorded =>
    rw [hphase] at hstory
    exact absurd hp (hstory.2 p)
  | waiting =>
    rw [hphase] at hstory
    unfold Story at hstory
    cases hfuture : s.future r with
    | pending =>
      rw [hfuture] at hstory
      exact absurd hp (hstory.1.2 p)
    | answered answer =>
      rw [hfuture] at hstory
      exact absurd hp (hstory.1.2 p)
    | aborted =>
      rw [hfuture] at hstory
      exact ⟨Or.inl ⟨rfl, rfl⟩, habort hstory⟩
    | cancelled =>
      rw [hfuture] at hstory
      exact absurd hstory id
  | settled verdict outcome =>
    rw [hphase] at hstory
    exact absurd hp (hstory.1.2 p)
  | written verdict =>
    rw [hphase] at hstory
    obtain ⟨outcome, hclosed, -⟩ := hstory
    exact absurd hp (hclosed.2.2 p)
  | returned verdict =>
    rw [hphase] at hstory
    obtain ⟨outcome, hclosed, -⟩ := hstory
    exact absurd hp (hclosed.2.2 p)
  | cancelled =>
    rw [hphase] at hstory
    rcases hstory with ⟨-, hquiet⟩ | haborted | ⟨outcome, hclosed⟩
    · exact absurd hp (hquiet p)
    · exact ⟨Or.inr rfl, habort haborted⟩
    · exact absurd hp (hclosed.2.2 p)

theorem Inv.quiet (h : Inv calls s) {r : R} {phase : Phase} (hknown : Known calls s')
    (hnew : s.phase r ≠ .idle ∨ ∀ r', calls.id r' = calls.id r → s.phase r' = .idle)
    (hphase : s'.phase = update s.phase r phase) (hbegun : phase ≠ .idle)
    (hfuture : ∀ r', r' ≠ r → s'.future r' = s.future r')
    (heffect : ∀ r', r' ≠ r → s'.effect r' = s.effect r')
    (hmeta : ∀ i, i ≠ calls.id r → s'.approvalMeta i = s.approvalMeta i)
    (hledger : s'.ledger = s.ledger) (hpasses : s'.passes = s.passes)
    (hstory : Story calls s' r phase) : Inv calls s' := by
  have hself : s'.phase r = phase := by rw [hphase, update_self]
  refine h.change hknown hnew (hself ▸ hbegun) (fun r' hr' => ?_) (fun i hi => ?_) (hself ▸ hstory)
  · exact ⟨by rw [hphase, update_of_ne hr'], hfuture r' hr', heffect r' hr'⟩
  · exact ⟨hmeta i hi, records_congr hledger i, fun p => writing_congr hpasses p i⟩

theorem Inv.writes (h : Inv calls s) {r : R} {phase : Phase} {record : Record Id}
    (hrecord : record.id = calls.id r) (hbegun : s.phase r ≠ .idle) (hphase : phase ≠ .idle)
    (hknown : Known calls ((s.setPhase r phase).append record))
    (hstory : Story calls ((s.setPhase r phase).append record) r phase) :
    Inv calls ((s.setPhase r phase).append record) := by
  have hself : ((s.setPhase r phase).append record).phase r = phase := s.setPhase_self r phase
  refine h.change hknown (Or.inl hbegun) (by rw [hself]; exact hphase) (fun r' hr' => ?_)
    (fun i hi => ?_) (by rw [hself]; exact hstory)
  · exact ⟨s.setPhase_of_ne hr' phase, rfl, rfl⟩
  · exact ⟨rfl, records_append_of_ne rfl (hrecord ▸ hi), fun p => writing_congr rfl p i⟩

theorem Inv.waits (h : Inv calls s) {i : Id} {r : R} (hpending : s.pending i = some r)
    (hpend : s.future r = .pending) : calls.id r = i ∧ s.phase r = .waiting ∧
      Opened calls s r ∧ s.approvalMeta (calls.id r) = some none := by
  obtain ⟨hid, hopen⟩ := h.known.owner i r hpending
  have hstory := h.story r
  cases hphase : s.phase r with
  | waiting =>
    rw [hphase] at hstory
    unfold Story at hstory
    rw [hpend] at hstory
    exact ⟨hid, rfl, hstory⟩
  | settled verdict outcome =>
    rw [hphase] at hstory
    exact absurd hpend hstory.2.2.2
  | written verdict =>
    rw [hphase] at hstory
    obtain ⟨_, _, _, hdone⟩ := hstory
    exact absurd hpend hdone
  | _ =>
    rw [hphase] at hopen
    exact absurd hopen id

theorem Inv.accept (h : Inv calls s) {i : Id} {r : R} (hpending : s.pending i = some r)
    (hpend : s.future r = .pending) (answer : Answer) : Inv calls (s.accept i r answer) := by
  obtain ⟨rfl, hwait, hopened, hmeta⟩ := h.waits hpending hpend
  have hphase : s.phase = update s.phase r .waiting := by
    rw [← hwait, update_eq_self]
  have hfuture : (s.accept (calls.id r) r answer).future r = .answered answer :=
    update_self _ _ _
  refine h.quiet (h.known.accept _ _ _) (Or.inl (by rw [hwait]; exact Phase.noConfusion)) hphase
    Phase.noConfusion (fun r' hr' => update_of_ne hr' _ _)
    (fun r' hr' => update_of_ne hr' _ _) (fun j hj => update_of_ne hj _ _) rfl rfl ?_
  unfold Story
  rw [hfuture]
  refine ⟨hopened, ?_, update_self _ _ _⟩
  simp [State.accept, hmeta]

theorem Inv.resolve (h : Inv calls s) (i : Id) (decision : Text) :
    Inv calls (s.resolveApproval i decision).2 := by
  unfold State.resolveApproval
  split
  · exact h
  · split
    · exact h
    · split
      · exact h.accept ‹_› ‹_› _
      · exact h

theorem Inv.take (h : Inv calls s) {p : Nat} {thread : Thread} {i : Id} {rest : List Id} {r : R}
    (hpass : s.passes p = some ⟨thread, i :: rest, none⟩) (hpending : s.pending i = some r)
    (hpend : s.future r = .pending) : Inv calls (s.take p thread i rest) := by
  have hknown := h.known.take p thread i rest
  obtain ⟨rfl, hwait, hopened, -⟩ := h.waits hpending hpend
  have hdenied : s.denyPending (calls.id r) =
      { s.setEffect r .abort with future := update s.future r .aborted } := by
    rw [State.denyPending, hpending]
    exact if_pos hpend
  have hphase : (s.take p thread (calls.id r) rest).phase = s.phase := take_phase _ _ _ _ _
  have hfuture : (s.take p thread (calls.id r) rest).future = update s.future r .aborted := by
    simp only [State.take, hdenied]
  have heffect : (s.take p thread (calls.id r) rest).effect =
      update s.effect r (some .abort) := by
    simp only [State.take, hdenied]
    rfl
  have hmeta : (s.take p thread (calls.id r) rest).approvalMeta =
      update s.approvalMeta (calls.id r) none := by
    simp only [State.take, hdenied]
    rfl
  have hledger : (s.take p thread (calls.id r) rest).ledger = s.ledger := by
    simp only [State.take, hdenied]
    rfl
  have hpasses : (s.take p thread (calls.id r) rest).passes =
      update s.passes p (some ⟨thread, rest, some (calls.id r)⟩) := by
    simp only [State.take, hdenied]
    rfl
  refine h.change hknown (Or.inl (by rw [hwait]; exact Phase.noConfusion))
    (by rw [hphase, hwait]; exact Phase.noConfusion) (fun r' hr' => ?_) (fun i hi => ?_) ?_
  · rw [hphase, hfuture, heffect, update_of_ne hr', update_of_ne hr']
    exact ⟨rfl, rfl, rfl⟩
  · refine ⟨by rw [hmeta, update_of_ne hi], records_congr hledger i,
      writing_update hpasses (iff_of_false ?_ (not_writing_of_passes hpass))⟩
    rintro ⟨_, _, heq⟩
    cases heq
    exact hi rfl
  · rw [hphase, hwait]
    unfold Story
    rw [hfuture, update_self]
    refine Or.inr ⟨(records_congr hledger _).trans hopened.1, ?_, p, ?_, fun q hq => ?_⟩
    · rw [heffect, update_self]
    · exact ⟨thread, rest, by rw [hpasses, update_self]⟩
    · by_contra hne
      obtain ⟨t, todo, hq⟩ := hq
      rw [hpasses, update_of_ne hne] at hq
      exact hopened.2 q ⟨t, todo, hq⟩

theorem Inv.writeAbort (h : Inv calls s) {p : Nat} {thread : Thread} {todo : List Id} {i : Id}
    (hpass : s.passes p = some ⟨thread, todo, some i⟩) :
    Inv calls ((s.setPass p (some ⟨thread, todo, none⟩)).append (.resolved i .abort)) := by
  have hknown : Known calls ((s.setPass p (some ⟨thread, todo, none⟩)).append (.resolved i .abort)) :=
    h.known.congr rfl rfl rfl rfl
  obtain ⟨r, rfl, hphase, hrecords, heffect, hunique⟩ := h.denied ⟨thread, todo, hpass⟩
  have hbegun : s.phase r ≠ .idle := by
    rcases hphase with ⟨hphase, -⟩ | hphase <;> rw [hphase] <;> exact Phase.noConfusion
  have hclosed : Closed calls ((s.setPass p (some ⟨thread, todo, none⟩)).append
      (.resolved (calls.id r) .abort)) r .abort := by
    refine ⟨?_, heffect, fun q hq => ?_⟩
    · have happend : ((s.setPass p (some ⟨thread, todo, none⟩)).append
          (.resolved (calls.id r) .abort)).records
            (Record.resolved (calls.id r) .abort).id = s.records (calls.id r) ++
              [.resolved (calls.id r) .abort] := records_append_self rfl
      exact happend.trans (congrArg (· ++ [_]) hrecords)
    · obtain ⟨t, rest, hq⟩ := hq
      by_cases hqp : q = p
      · subst hqp
        simp [State.append, State.setPass] at hq
      · refine hqp (hunique q ⟨t, rest, ?_⟩)
        simpa [State.append, State.setPass, hqp] using hq
  refine h.change hknown (Or.inl hbegun) hbegun (fun r' _ => ⟨rfl, rfl, rfl⟩) (fun i hi => ?_) ?_
  · refine ⟨rfl, records_append_of_ne rfl hi, writing_update rfl (iff_of_false ?_ ?_)⟩
    · rintro ⟨_, _, heq⟩
      cases heq
    · rintro ⟨_, _, heq⟩
      rw [hpass] at heq
      cases heq
      exact hi rfl
  · show Story calls _ r (s.phase r)
    rcases hphase with ⟨hphase, hfuture⟩ | hphase
    · rw [hphase]
      unfold Story
      have hkept : ((s.setPass p (some ⟨thread, todo, none⟩)).append
        (.resolved (calls.id r) .abort)).future r = .aborted := hfuture
      rw [hkept]
      exact Or.inl hclosed
    · rw [hphase]
      exact Or.inr (Or.inl (Or.inl hclosed))

theorem Orderly.fresh {e : Event R Id Thread} (h : Orderly calls s e) : Fresh calls s e := by
  cases e with
  | announce r => exact h
  | _ => trivial

theorem Inv.step (h : Inv calls s) {e : Event R Id Thread} (horderly : Orderly calls s e)
    (hs : step calls s e = some s') : Inv calls s' := by
  have hknown := h.known.step horderly.fresh hs
  cases moves_of_step hs with
  | @announce r hr =>
    obtain ⟨hrecords, hquiet⟩ := h.unasked (calls.id r) horderly
    exact h.quiet hknown (Or.inr horderly) rfl Phase.noConfusion (fun _ _ => rfl) (fun _ _ => rfl)
      (fun _ _ => rfl) rfl rfl ⟨hrecords, hquiet⟩
  | @record r hr =>
    have hstory := h.story r
    rw [hr] at hstory
    have happend : ((s.setPhase r .recorded).append (.requested (calls.id r))).records
        (Record.requested (calls.id r)).id = s.records (calls.id r) ++ [.requested (calls.id r)] :=
      records_append_self rfl
    refine h.writes rfl (by rw [hr]; exact Phase.noConfusion) Phase.noConfusion hknown
      ⟨happend.trans ?_, hstory.2⟩
    rw [hstory.1]
    rfl
  | @register r hr =>
    have hstory := h.story r
    rw [hr] at hstory
    have hfuture : (s.register calls r).future r = .pending := update_self _ _ _
    refine h.quiet hknown (Or.inl (by rw [hr]; exact Phase.noConfusion)) rfl Phase.noConfusion
      (fun r' hr' => update_of_ne hr' _ _) (fun _ _ => rfl)
      (fun i hi => update_of_ne hi _ _) rfl rfl ?_
    unfold Story
    rw [hfuture]
    exact ⟨hstory, update_self _ _ _⟩
  | @wake r verdict hr hverdict =>
    have hstory := h.story r
    rw [hr] at hstory
    unfold Story at hstory
    refine h.quiet hknown (Or.inl (by rw [hr]; exact Phase.noConfusion)) rfl Phase.noConfusion
      (fun _ _ => rfl) (fun _ _ => rfl) (fun _ _ => rfl) rfl rfl ?_
    cases hfuture : s.future r with
    | answered answer =>
      rw [hfuture] at hstory hverdict
      obtain ⟨hopened, hmeta, heffect⟩ := hstory
      cases hverdict
      have hdecision : s.resolvedDecision (calls.id r) = answer := by
        simp [State.resolvedDecision, hmeta]
      rw [hdecision]
      refine ⟨hopened, heffect, rfl, fun hpend => ?_⟩
      rw [show (s.setPhase r _).future r = s.future r from rfl, hfuture] at hpend
      cases hpend
    | aborted => exact absurd hfuture horderly
    | _ =>
      rw [hfuture] at hverdict
      cases hverdict
  | @expire r hr =>
    have hstory := h.story r
    rw [hr] at hstory
    unfold Story at hstory
    have hopened : Opened calls s r := by
      cases hfuture : s.future r with
      | aborted => exact absurd hfuture horderly
      | cancelled =>
        rw [hfuture] at hstory
        exact absurd hstory id
      | _ =>
        rw [hfuture] at hstory
        exact hstory.1
    refine h.quiet hknown (Or.inl (by rw [hr]; exact Phase.noConfusion)) rfl Phase.noConfusion
      (fun r' hr' => update_of_ne hr' _ _) (fun r' hr' => update_of_ne hr' _ _)
      (fun _ _ => rfl) rfl rfl ⟨hopened, update_self _ _ _, rfl, ?_⟩
    show update s.future r _ r ≠ .pending
    rw [update_self]
    split
    · exact Future.noConfusion
    · assumption
  | @write r verdict outcome hr =>
    have hstory := h.story r
    rw [hr] at hstory
    obtain ⟨⟨hrecords, hquiet⟩, heffect, hverdict, hdone⟩ := hstory
    have happend : ((s.setPhase r (.written verdict)).append
        (.resolved (calls.id r) outcome)).records (Record.resolved (calls.id r) outcome).id =
          s.records (calls.id r) ++ [.resolved (calls.id r) outcome] := records_append_self rfl
    refine h.writes rfl (by rw [hr]; exact Phase.noConfusion) Phase.noConfusion hknown
      ⟨outcome, ⟨happend.trans ?_, heffect, hquiet⟩, hverdict, hdone⟩
    rw [hrecords]
    rfl
  | @finish r verdict hr =>
    have hstory := h.story r
    rw [hr] at hstory
    obtain ⟨outcome, hclosed, hverdict, -⟩ := hstory
    exact h.quiet hknown (Or.inl (by rw [hr]; exact Phase.noConfusion)) rfl Phase.noConfusion
      (fun _ _ => rfl) (fun _ _ => rfl) (fun i hi => update_of_ne hi _ _) rfl rfl
      ⟨outcome, hclosed, hverdict⟩
  | @leave r hr =>
    have hannounced : s.phase r = .announced := by
      rcases horderly with h | ⟨_, h⟩ | ⟨h, -⟩
      · exact h
      · rcases hr with hr | hr <;> rw [h] at hr <;> cases hr
      · rcases hr with hr | hr <;> rw [h] at hr <;> cases hr
    have hstory := h.story r
    rw [hannounced] at hstory
    exact h.quiet hknown (Or.inl (by rw [hannounced]; exact Phase.noConfusion)) rfl
      Phase.noConfusion (fun _ _ => rfl) (fun _ _ => rfl) (fun _ _ => rfl) rfl rfl (Or.inl hstory)
  | @drop r hr =>
    have hstory : Aborted calls s r ∨ ∃ outcome, Closed calls s r outcome := by
      have hstory := h.story r
      rcases horderly with hphase | ⟨verdict, hphase⟩ | ⟨hphase, hfuture⟩
      · rw [hphase] at hr
        exact absurd hr id
      · rw [hphase] at hstory
        obtain ⟨outcome, hclosed, -⟩ := hstory
        exact Or.inr ⟨outcome, hclosed⟩
      · rw [hphase] at hstory
        unfold Story at hstory
        rw [hfuture] at hstory
        exact Or.inl hstory
    exact h.quiet hknown (Or.inl hr.begun) rfl Phase.noConfusion
      (fun r' hr' => update_of_ne hr' _ _) (fun _ _ => rfl)
      (fun i hi => update_of_ne hi _ _) rfl rfl (Or.inr hstory)
  | resolve i decision => exact h.resolve i decision
  | @beginAbort p thread hp =>
    refine h.passes rfl rfl rfl rfl rfl (fun q i => writing_update rfl (iff_of_false ?_ ?_) q) hknown
    · rintro ⟨_, _, heq⟩
      cases heq
    · rintro ⟨_, _, heq⟩
      rw [hp] at heq
      cases heq
  | takeAbort hp =>
    obtain ⟨r, hpending, hpend⟩ := horderly _ _ _ hp
    exact h.take hp hpending hpend
  | writeAbort hp => exact h.writeAbort hp
  | @endAbort p thread hp =>
    refine h.passes rfl rfl rfl rfl rfl
      (fun q i => writing_update rfl (iff_of_false ?_ (not_writing_of_passes hp)) q) hknown
    rintro ⟨_, _, heq⟩
    cases heq

theorem Inv.consistent (h : Inv calls s) {r : R} (hbegun : s.phase r ≠ .idle) :
    Consistent calls s r := by
  have hstory := h.story r
  have honce : Aborted calls s r → s.records (calls.id r) = [.requested (calls.id r)] ∨
      ∃ outcome, s.effect r = some outcome ∧
        s.records (calls.id r) = [.requested (calls.id r), .resolved (calls.id r) outcome] := by
    rintro (⟨hrecords, heffect, -⟩ | ⟨hrecords, -⟩)
    · exact Or.inr ⟨.abort, heffect, hrecords⟩
    · exact Or.inl hrecords
  refine ⟨?_, fun hover hquiet hrecords => ?_, fun hreturned => ?_⟩
  · cases hphase : s.phase r with
    | idle => exact absurd hphase hbegun
    | announced =>
      rw [hphase] at hstory
      exact Or.inl hstory.1
    | recorded =>
      rw [hphase] at hstory
      exact Or.inr (Or.inl hstory.1)
    | waiting =>
      rw [hphase] at hstory
      unfold Story at hstory
      cases hfuture : s.future r with
      | aborted =>
        rw [hfuture] at hstory
        exact Or.inr (honce hstory)
      | cancelled =>
        rw [hfuture] at hstory
        exact absurd hstory id
      | _ =>
        rw [hfuture] at hstory
        exact Or.inr (Or.inl hstory.1.1)
    | settled verdict outcome =>
      rw [hphase] at hstory
      exact Or.inr (Or.inl hstory.1.1)
    | written verdict =>
      rw [hphase] at hstory
      obtain ⟨outcome, ⟨hrecords, heffect, -⟩, -⟩ := hstory
      exact Or.inr (Or.inr ⟨outcome, heffect, hrecords⟩)
    | returned verdict =>
      rw [hphase] at hstory
      obtain ⟨outcome, ⟨hrecords, heffect, -⟩, -⟩ := hstory
      exact Or.inr (Or.inr ⟨outcome, heffect, hrecords⟩)
    | cancelled =>
      rw [hphase] at hstory
      rcases hstory with ⟨hrecords, -⟩ | haborted | ⟨outcome, hrecords, heffect, -⟩
      · exact Or.inl hrecords
      · exact Or.inr (honce haborted)
      · exact Or.inr (Or.inr ⟨outcome, heffect, hrecords⟩)
  · have hshort : ∀ outcome, ¬Closed calls s r outcome := fun outcome hclosed => by
      rw [hclosed.1] at hrecords
      cases hrecords
    rcases hover with ⟨verdict, hphase⟩ | hphase
    · rw [hphase] at hstory
      obtain ⟨outcome, hclosed, -⟩ := hstory
      exact hshort outcome hclosed
    · rw [hphase] at hstory
      rcases hstory with ⟨hempty, -⟩ | (hclosed | ⟨-, -, p, hp, -⟩) | ⟨outcome, hclosed⟩
      · rw [hempty] at hrecords
        cases hrecords
      · exact hshort _ hclosed
      · exact hquiet p hp
      · exact hshort outcome hclosed
  · rw [hreturned] at hstory
    obtain ⟨outcome, ⟨hrecords, -⟩, hverdict⟩ := hstory
    exact ⟨outcome, hverdict.symm, hrecords⟩

end Steps

/-- **One outcome.** In an orderly run every request that has begun has exactly one outcome. -/
theorem exactly_one_outcome {events : List (Event R Id Thread)}
    (hrun : Steps.run (step calls) init events = some s)
    (horderly : Steps.GoodRun (step calls) (Orderly calls) init events) {r : R}
    (hbegun : s.phase r ≠ .idle) : Consistent calls s r :=
  (Steps.goodRun_invariant (step calls) (Orderly calls) (Inv calls)
    (fun _ _ _ h he hs => h.step he hs) init s events inv_init hrun horderly).consistent hbegun

theorem answered_once :
    ∃ s : State Nat Nat Nat, Steps.run (step singleThread) init [.announce 0, .record 0, .register 0,
        .resolve 0 "once".toList, .wake 0, .write 0, .finish 0] = some s ∧
      Consistent singleThread s 0 := by
  have horderly : Steps.GoodRun (step singleThread) (Orderly singleThread) init
      [.announce 0, .record 0, .register 0, .resolve 0 "once".toList, .wake 0, .write 0,
        .finish 0] := by
    refine ⟨fun _ _ => rfl, fun _ h₁ => ⟨trivial, fun _ h₂ => ⟨trivial, fun _ h₃ => ⟨trivial,
      fun _ h₄ => ⟨?_, fun _ _ => ⟨trivial, fun _ _ => ⟨trivial, fun _ _ => trivial⟩⟩⟩⟩⟩⟩⟩
    obtain rfl := Option.some.inj h₁
    obtain rfl := Option.some.inj h₂
    obtain rfl := Option.some.inj h₃
    obtain rfl := Option.some.inj h₄
    show Future.answered .once ≠ .aborted
    exact Future.noConfusion
  have hrun : ∃ s : State Nat Nat Nat, Steps.run (step singleThread) init [.announce 0, .record 0,
      .register 0, .resolve 0 "once".toList, .wake 0, .write 0, .finish 0] = some s ∧
        s.phase 0 = .returned true := ⟨_, rfl, rfl⟩
  obtain ⟨s, hrun, hphase⟩ := hrun
  exact ⟨s, hrun, exactly_one_outcome hrun horderly (by rw [hphase]; exact Phase.noConfusion)⟩

/-- A request that an abort denies is written twice when its task wakes up, the second time with a
decision that nobody made, and never when its task is cancelled as it waits. -/
theorem aborted_twice_cancelled_never :
    (∃ s : State Nat Nat Nat, Steps.run (step singleThread) init [.announce 0, .record 0, .register 0,
        .beginAbort 0 0, .takeAbort 0, .writeAbort 0, .endAbort 0, .wake 0, .write 0,
        .finish 0] = some s ∧ s.effect 0 = some .abort ∧
      s.ledger = [.requested 0, .resolved 0 .abort, .resolved 0 (.user .deny)]) ∧
    ∃ s : State Nat Nat Nat, Steps.run (step singleThread) init [.announce 0, .record 0, .register 0,
        .cancel 0] = some s ∧ s.phase 0 = .cancelled ∧ s.ledger = [.requested 0] :=
  ⟨⟨_, rfl, rfl, rfl⟩, ⟨_, rfl, rfl, by rfl⟩⟩

end MiqroForge.Approvals
