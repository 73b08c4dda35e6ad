import MiqroForge.Ledger.Thread

/-!
When a rollback keeps the ledger and the history in agreement. A compaction files the
whole history under an id that is no user turn's, so that a rollback can remove all of
it, or none of a removed turn it kept.
-/

namespace MiqroForge.Ledger

open List

/-! ## The ledger -/

def loggedIds (ledger : List LedgerItem) : List TurnId := ledger.filterMap LedgerItem.turnId

theorem mem_listTurnIds (ledger : List LedgerItem) (t : TurnId) :
    t ∈ listTurnIds ledger ↔ t ∈ loggedIds ledger ∧ t ∉ removedTurnIds ledger := by
  unfold listTurnIds loadEffectiveItems
  rw [mem_eraseDups, mem_filter, decide_eq_true_iff]
  rfl

theorem mem_toRemove {ledger : List LedgerItem} {k : Nat} {t : TurnId}
    (h : t ∈ toRemove ledger k) : t ∈ listTurnIds ledger := by
  unfold toRemove at h
  split at h
  · cases h
  · exact mem_of_mem_drop h

theorem loggedIds_append (a b : List LedgerItem) :
    loggedIds (a ++ b) = loggedIds a ++ loggedIds b := List.filterMap_append

theorem removedTurnIds_append (a b : List LedgerItem) :
    removedTurnIds (a ++ b) = removedTurnIds a ++ removedTurnIds b := List.flatMap_append

theorem turnItems_spec (t : TurnId) (n : Nat) :
    (∀ x, x ∈ loggedIds (turnItems t n) ↔ x = t) ∧ removedTurnIds (turnItems t n) = [] := by
  have hremoved : removedTurnIds (replicate n (LedgerItem.message t)) = [] := by
    induction n with
    | zero => rfl
    | succ n ih => exact ih
  have hmessages : ∀ x, x ∈ loggedIds (replicate n (LedgerItem.message t)) → x = t := by
    intro x hx
    obtain ⟨item, hitem, heq⟩ := mem_filterMap.mp hx
    obtain ⟨-, rfl⟩ := mem_replicate.mp hitem
    exact (Option.some.inj heq).symm
  constructor
  · intro x
    rw [turnItems, loggedIds_append]
    show x ∈ (t :: loggedIds (replicate n (LedgerItem.message t))) ++ [t] ↔ x = t
    simp only [mem_append, mem_cons, not_mem_nil, or_false]
    constructor
    · rintro ((h | h) | h)
      · exact h
      · exact hmessages x h
      · exact h
    · exact fun h => Or.inr h
  · rw [turnItems, removedTurnIds_append]
    show removedTurnIds (replicate n (LedgerItem.message t)) ++ [] = []
    rw [hremoved, append_nil]

/-! ## The invariant -/

/-- The history is what the last compaction wrote, followed by the turns' own rows. -/
structure Inv (s : Thread) : Prop where
  own : ∀ row ∈ s.history, ∀ t, row.turnId = .turn t → row.verbatim = some t ∧ row.covers = [t]
  single : ∀ row ∈ s.history, ∀ row' ∈ s.history, row.turnId.isCompaction = true →
    row'.turnId.isCompaction = true → row.turnId = row'.turnId
  disjoint : ∀ row ∈ s.history, ∀ row' ∈ s.history, ∀ t, row.turnId = TurnId.turn t →
    row'.turnId.isCompaction = true → t ∉ row'.covers
  covered : ∀ row ∈ s.history, ∀ t ∈ row.covers, t < s.nextId
  logged : ∀ t, TurnId.turn t ∈ loggedIds s.ledger → t < s.nextId
  removed : ∀ t ∈ removedTurnIds s.ledger, t ∈ loggedIds s.ledger
  queued : ∀ t, TurnId.turn t ∈ s.events → TurnId.turn t ∈ loggedIds s.ledger
  agrees : Agrees s

theorem inv_start : Inv {} := by
  refine ⟨?_, ?_, ?_, ?_, ?_, ?_, ?_, ⟨?_, ?_⟩⟩
  all_goals
    intros
    contradiction

/-! ## Compaction -/

theorem mem_compactHistory {history : List Row} {turnId : TurnId} {r : Replacement} {row : Row}
    (h : row ∈ compactHistory history turnId r) :
    row.turnId = turnId ∧ row.covers = history.flatMap Row.covers ∧
      ∀ t, row.verbatim = some t → ∃ old ∈ history, old.verbatim = some t := by
  obtain ⟨place, -, rfl⟩ := mem_map.mp h
  refine ⟨rfl, rfl, fun t ht => ?_⟩
  obtain ⟨i, -, hi⟩ := Option.bind_eq_some_iff.mp ht
  obtain ⟨old, hold, hv⟩ := Option.bind_eq_some_iff.mp hi
  exact ⟨old, mem_of_getElem? hold, hv⟩

theorem compactHistory_represents {history : List Row} {r : Replacement} (turnId : TurnId)
    (hfits : r.fits history = true) {t : Nat} (h : ∃ row ∈ history, t ∈ row.covers) :
    ∃ row ∈ compactHistory history turnId r, t ∈ row.covers := by
  obtain ⟨old, hold, ht⟩ := h
  have hne : r ≠ [] := by
    rintro rfl
    cases history with
    | nil => cases hold
    | cons => cases hfits
  obtain ⟨place, hplace⟩ := exists_mem_of_ne_nil r hne
  refine ⟨_, mem_map.mpr ⟨place, hplace, rfl⟩, ?_⟩
  exact mem_flatMap.mpr ⟨old, hold, ht⟩

theorem inv_compact (s : Thread) (turnId : TurnId) (r : Replacement) (h : Inv s)
    (hid : turnId.isCompaction = true) (hfits : r.fits s.history = true) :
    Inv { s with history := compactHistory s.history turnId r } := by
  have hno : ∀ row ∈ compactHistory s.history turnId r, ∀ t, row.turnId ≠ .turn t := by
    intro row hrow t ht
    rw [(mem_compactHistory hrow).1] at ht
    rw [ht] at hid
    cases hid
  refine ⟨?_, ?_, ?_, ?_, h.logged, h.removed, h.queued, ⟨?_, ?_⟩⟩
  · intro row hrow t ht
    exact absurd ht (hno row hrow t)
  · intro row hrow row' hrow' _ _
    rw [(mem_compactHistory hrow).1, (mem_compactHistory hrow').1]
  · intro row hrow row' _ t ht _
    exact absurd ht (hno row hrow t)
  · intro row hrow t ht
    rw [(mem_compactHistory hrow).2.1] at ht
    obtain ⟨old, hold, htold⟩ := mem_flatMap.mp ht
    exact h.covered old hold t htold
  · intro t ht
    exact compactHistory_represents turnId hfits (h.agrees.represented t ht)
  · intro row hrow t ht
    obtain ⟨old, hold, hv⟩ := (mem_compactHistory hrow).2.2 t ht
    exact h.agrees.removed old hold t hv

/-! ## Steps -/

theorem inv_addTurn (s : Thread) (n : Nat) (events : List TurnId) (h : Inv s)
    (hevents : ∀ t ∈ events, t ∈ s.events ∨ t = .turn s.nextId) :
    Inv {
      history := s.history ++ List.replicate (n + 1) (turnRow s.nextId)
      ledger := s.ledger ++ turnItems (.turn s.nextId) (n + 1)
      events := events
      nextId := s.nextId + 1 } := by
  obtain ⟨hids, hremoved⟩ := turnItems_spec (.turn s.nextId) (n + 1)
  have hlogged : ∀ x, x ∈ loggedIds (s.ledger ++ turnItems (.turn s.nextId) (n + 1)) ↔
      x ∈ loggedIds s.ledger ∨ x = .turn s.nextId := by
    intro x
    rw [loggedIds_append, mem_append, hids]
  have hgone : removedTurnIds (s.ledger ++ turnItems (.turn s.nextId) (n + 1)) =
      removedTurnIds s.ledger := by
    rw [removedTurnIds_append, hremoved, append_nil]
  have hfresh : ∀ row ∈ s.history, row.turnId ≠ .turn s.nextId := by
    intro row hrow ht
    have hcovers := (h.own row hrow s.nextId ht).2
    have hlt := h.covered row hrow s.nextId (by rw [hcovers]; exact mem_singleton_self _)
    omega
  have hnew : TurnId.turn s.nextId ∉ removedTurnIds s.ledger := by
    intro hmem
    have hlt := h.logged s.nextId (h.removed _ hmem)
    omega
  have hrows : ∀ row ∈ s.history ++ replicate (n + 1) (turnRow s.nextId),
      row ∈ s.history ∨ row = turnRow s.nextId := by
    intro row hrow
    rcases mem_append.mp hrow with hrow | hrow
    · exact Or.inl hrow
    · exact Or.inr (mem_replicate.mp hrow).2
  refine ⟨?_, ?_, ?_, ?_, ?_, ?_, ?_, ⟨?_, ?_⟩⟩
  · intro row hrow t ht
    rcases hrows row hrow with hrow | rfl
    · exact h.own row hrow t ht
    · cases ht
      exact ⟨rfl, rfl⟩
  · intro row hrow row' hrow' hc hc'
    rcases hrows row hrow with hrow | rfl
    · rcases hrows row' hrow' with hrow' | rfl
      · exact h.single row hrow row' hrow' hc hc'
      · cases hc'
    · cases hc
  · intro row hrow row' hrow' t ht hc
    rcases hrows row' hrow' with hrow' | rfl
    · rcases hrows row hrow with hrow | rfl
      · exact h.disjoint row hrow row' hrow' t ht hc
      · cases ht
        intro hmem
        have hlt := h.covered row' hrow' _ hmem
        omega
    · cases hc
  · intro row hrow t ht
    rcases hrows row hrow with hrow | rfl
    · have hlt := h.covered row hrow t ht
      show t < s.nextId + 1
      omega
    · rw [mem_singleton.mp ht]
      exact Nat.lt_succ_self _
  · intro t ht
    rcases (hlogged _).mp ht with ht | ht
    · have hlt := h.logged t ht
      show t < s.nextId + 1
      omega
    · cases ht
      exact Nat.lt_succ_self _
  · intro t ht
    rw [hgone] at ht
    exact (hlogged _).mpr (Or.inl (h.removed t ht))
  · intro t ht
    refine (hlogged _).mpr ?_
    rcases hevents _ ht with ht | ht
    · exact Or.inl (h.queued t ht)
    · exact Or.inr ht
  · intro t ht
    obtain ⟨hmem, hnot⟩ := (mem_listTurnIds _ _).mp ht
    rw [hgone] at hnot
    rcases (hlogged _).mp hmem with hmem | hmem
    · obtain ⟨row, hrow, hcov⟩ :=
        h.agrees.represented t ((mem_listTurnIds _ _).mpr ⟨hmem, hnot⟩)
      exact ⟨row, mem_append_left _ hrow, hcov⟩
    · cases hmem
      exact ⟨_, mem_append_right _ (mem_replicate.mpr ⟨by omega, rfl⟩),
        mem_singleton_self _⟩
  · intro row hrow t ht
    rw [hgone]
    rcases hrows row hrow with hrow | rfl
    · exact h.agrees.removed row hrow t ht
    · cases ht
      exact hnew

theorem inv_runTurn (s : Thread) (autoCompact : Option Replacement) (n : Nat) (h : Inv s)
    (hfits : (autoCompact.all fun r => r.fits s.history) = true) :
    Inv (runTurn s autoCompact n) := by
  cases autoCompact with
  | none => exact inv_addTurn s n s.events h fun t ht => Or.inl ht
  | some r =>
    have hcompact := inv_compact s (.autoCompact s.nextId) r h rfl hfits
    refine inv_addTurn _ n (s.events ++ [.turn s.nextId]) hcompact fun t ht => ?_
    rcases mem_append.mp ht with ht | ht
    · exact Or.inl ht
    · exact Or.inr (mem_singleton.mp ht)

theorem inv_compactCommand (s : Thread) (r : Replacement) (h : Inv s)
    (hfits : r.fits s.history = true) :
    Inv { s with
      history := compactHistory s.history (.compact s.nextId) r
      events := s.events ++ [.compact s.nextId]
      nextId := s.nextId + 1 } := by
  obtain ⟨hown, hsingle, hdisjoint, hcovered, hlogged, hremoved, hqueued, hagrees⟩ :=
    inv_compact s (.compact s.nextId) r h rfl hfits
  refine ⟨hown, hsingle, hdisjoint, ?_, ?_, hremoved, ?_, ⟨hagrees.represented, hagrees.removed⟩⟩
  · intro row hrow t ht
    exact Nat.lt_succ_of_lt (hcovered row hrow t ht)
  · intro t ht
    exact Nat.lt_succ_of_lt (hlogged t ht)
  · intro t ht
    rcases mem_append.mp ht with ht | ht
    · exact hqueued t ht
    · cases mem_singleton.mp ht

theorem inv_nextEvent (s : Thread) (x : TurnId) (rest : List TurnId) (h : Inv s)
    (hevents : s.events = x :: rest) :
    Inv { s with ledger := s.ledger ++ [LedgerItem.contextCompacted x], events := rest } := by
  have hlogged : ∀ t, t ∈ loggedIds (s.ledger ++ [LedgerItem.contextCompacted x]) ↔
      t ∈ loggedIds s.ledger ∨ t = x := by
    intro t
    rw [loggedIds_append, mem_append]
    show _ ∨ t ∈ [x] ↔ _
    rw [mem_singleton]
  have hgone : removedTurnIds (s.ledger ++ [LedgerItem.contextCompacted x]) =
      removedTurnIds s.ledger := by
    rw [removedTurnIds_append]
    exact append_nil _
  have hturn : ∀ t, TurnId.turn t ∈ loggedIds (s.ledger ++ [LedgerItem.contextCompacted x]) →
      TurnId.turn t ∈ loggedIds s.ledger := by
    intro t ht
    rcases (hlogged _).mp ht with ht | rfl
    · exact ht
    · exact h.queued t (by rw [hevents]; exact mem_cons_self)
  refine ⟨h.own, h.single, h.disjoint, h.covered, ?_, ?_, ?_, ⟨?_, ?_⟩⟩
  · intro t ht
    exact h.logged t (hturn t ht)
  · intro t ht
    rw [hgone] at ht
    exact (hlogged t).mpr (Or.inl (h.removed t ht))
  · intro t ht
    refine (hlogged _).mpr (Or.inl (h.queued t ?_))
    rw [hevents]
    exact mem_cons_of_mem x ht
  · intro t ht
    obtain ⟨hmem, hnot⟩ := (mem_listTurnIds _ _).mp ht
    rw [hgone] at hnot
    exact h.agrees.represented t ((mem_listTurnIds _ _).mpr ⟨hturn t hmem, hnot⟩)
  · intro row hrow t ht
    rw [hgone]
    exact h.agrees.removed row hrow t ht

/-! ## Rollback -/

section Rollback

variable (s : Thread) (k : Nat)

/-- The thread behind a rollback. -/
def rolledBack : Thread :=
  { s with
    ledger := s.ledger ++ [LedgerItem.threadRollback k (toRemove s.ledger k)]
    history := deleteTurnItems s.history (toRemove s.ledger k) }

theorem mem_rolledBack_history (row : Row) :
    row ∈ (rolledBack s k).history ↔ row ∈ s.history ∧ row.turnId ∉ toRemove s.ledger k := by
  show row ∈ List.filter _ _ ↔ _
  rw [mem_filter, decide_eq_true_iff]

theorem mem_rolledBack_removed (t : TurnId) :
    t ∈ removedTurnIds (rolledBack s k).ledger ↔
      t ∈ removedTurnIds s.ledger ∨ t ∈ toRemove s.ledger k := by
  show t ∈ removedTurnIds (s.ledger ++ [LedgerItem.threadRollback k (toRemove s.ledger k)]) ↔ _
  rw [removedTurnIds_append, mem_append]
  show _ ∨ t ∈ toRemove s.ledger k ++ [] ↔ _
  rw [append_nil]

theorem mem_rolledBack_turns (t : TurnId) :
    t ∈ listTurnIds (rolledBack s k).ledger ↔
      t ∈ listTurnIds s.ledger ∧ t ∉ toRemove s.ledger k := by
  have hlogged : loggedIds (rolledBack s k).ledger = loggedIds s.ledger := by
    show loggedIds (s.ledger ++ [LedgerItem.threadRollback k (toRemove s.ledger k)]) = _
    rw [loggedIds_append]
    exact append_nil _
  rw [mem_listTurnIds, mem_listTurnIds, hlogged, mem_rolledBack_removed, not_or, and_assoc]

/-- **One rollback.** From a thread in agreement it leads to one iff it is safe. -/
theorem rolledBack_agrees_iff (h : Inv s) : Agrees (rolledBack s k) ↔ Safe s (.rollback k) := by
  constructor
  · intro hagrees row hrow hcompaction
    split
    case isTrue hremoved =>
      intro t ht heffective
      by_contra hkept
      -- `t` stays effective, but only the compaction that goes represents it
      obtain ⟨row', hrow', ht'⟩ :=
        hagrees.represented t ((mem_rolledBack_turns s k _).mpr ⟨heffective, hkept⟩)
      obtain ⟨hold, hleft⟩ := (mem_rolledBack_history s k row').mp hrow'
      cases hid : row'.turnId with
      | turn t' =>
        have hcovers := (h.own row' hold t' hid).2
        rw [hcovers, mem_singleton] at ht'
        subst ht'
        exact h.disjoint row' hold row hrow t hid hcompaction ht
      | autoCompact i =>
        have hsame := h.single row' hold row hrow (by rw [hid]; rfl) hcompaction
        exact hleft (hsame ▸ hremoved)
      | compact i =>
        have hsame := h.single row' hold row hrow (by rw [hid]; rfl) hcompaction
        exact hleft (hsame ▸ hremoved)
    case isFalse hleft =>
      intro t ht hremoved
      have hrow' := (mem_rolledBack_history s k row).mpr ⟨hrow, hleft⟩
      exact hagrees.removed row hrow' t ht ((mem_rolledBack_removed s k _).mpr (Or.inr hremoved))
  · intro hsafe
    refine ⟨?_, ?_⟩
    · intro t ht
      obtain ⟨heffective, hkept⟩ := (mem_rolledBack_turns s k _).mp ht
      obtain ⟨row, hrow, hcov⟩ := h.agrees.represented t heffective
      refine ⟨row, (mem_rolledBack_history s k row).mpr ⟨hrow, ?_⟩, hcov⟩
      intro hremoved
      cases hc : row.turnId.isCompaction with
      | true =>
        have hrule := hsafe row hrow hc
        rw [if_pos hremoved] at hrule
        exact hkept (hrule t hcov heffective)
      | false =>
        cases hid : row.turnId with
        | turn t' =>
          have hcovers := (h.own row hrow t' hid).2
          rw [hcovers, mem_singleton] at hcov
          subst hcov
          exact hkept (hid ▸ hremoved)
        | autoCompact i =>
          rw [hid] at hc
          cases hc
        | compact i =>
          rw [hid] at hc
          cases hc
    · intro row hrow t ht hgone
      obtain ⟨hold, hleft⟩ := (mem_rolledBack_history s k row).mp hrow
      rcases (mem_rolledBack_removed s k _).mp hgone with hgone | hgone
      · exact h.agrees.removed row hold t ht hgone
      · cases hc : row.turnId.isCompaction with
        | true =>
          have hrule := hsafe row hold hc
          rw [if_neg hleft] at hrule
          exact hrule t ht hgone
        | false =>
          cases hid : row.turnId with
          | turn t' =>
            have hverbatim := (h.own row hold t' hid).1
            rw [hverbatim] at ht
            cases ht
            exact hleft (hid ▸ hgone)
          | autoCompact i =>
            rw [hid] at hc
            cases hc
          | compact i =>
            rw [hid] at hc
            cases hc

theorem inv_rolledBack (h : Inv s) (hagrees : Agrees (rolledBack s k)) : Inv (rolledBack s k) := by
  have hsub : ∀ row ∈ (rolledBack s k).history, row ∈ s.history := fun row hrow =>
    ((mem_rolledBack_history s k row).mp hrow).1
  have hlogged : loggedIds (rolledBack s k).ledger = loggedIds s.ledger := by
    show loggedIds (s.ledger ++ [LedgerItem.threadRollback k (toRemove s.ledger k)]) = _
    rw [loggedIds_append]
    exact append_nil _
  refine ⟨?_, ?_, ?_, ?_, ?_, ?_, ?_, hagrees⟩
  · exact fun row hrow => h.own row (hsub row hrow)
  · exact fun row hrow row' hrow' => h.single row (hsub row hrow) row' (hsub row' hrow')
  · exact fun row hrow row' hrow' => h.disjoint row (hsub row hrow) row' (hsub row' hrow')
  · exact fun row hrow => h.covered row (hsub row hrow)
  · intro t ht
    rw [hlogged] at ht
    exact h.logged t ht
  · intro t ht
    rw [hlogged]
    rcases (mem_rolledBack_removed s k t).mp ht with ht | ht
    · exact h.removed t ht
    · exact ((mem_listTurnIds _ _).mp (mem_toRemove ht)).1
  · intro t ht
    rw [hlogged]
    exact h.queued t ht

end Rollback

/-- A step from an invariant thread keeps the invariant if it ends in agreement, and it does
unless it is a rollback that is not safe. -/
theorem step_spec (s t : Thread) (e : Event) (h : Inv s) (hstep : step s e = some t) :
    (Agrees t ↔ Safe s e) ∧ (Agrees t → Inv t) := by
  have hdone : Inv t → Safe s e → (Agrees t ↔ Safe s e) ∧ (Agrees t → Inv t) := fun ht hsafe =>
    ⟨iff_of_true ht.agrees hsafe, fun _ => ht⟩
  cases e with
  | turn autoCompact messages =>
    obtain ⟨hfits, rfl⟩ := Steps.of_guard hstep
    exact hdone (inv_runTurn s autoCompact messages h hfits) trivial
  | compactCommand r =>
    obtain ⟨hfits, rfl⟩ := Steps.of_guard hstep
    exact hdone (inv_compactCommand s r h hfits) trivial
  | nextEvent =>
    simp only [step] at hstep
    split at hstep
    case h_1 x rest hevents =>
      cases hstep
      exact hdone (inv_nextEvent s x rest h hevents) trivial
    case h_2 => cases hstep
  | rollback k =>
    cases hstep
    exact ⟨rolledBack_agrees_iff s k h, inv_rolledBack s k h⟩

/-- **Ledger and history agree** in every state of a run exactly when every rollback of it is
safe. -/
theorem history_agrees_iff (events : List Event) :
    (∀ before, before <+: events → ∀ t, Steps.run step {} before = some t → Agrees t) ↔
      Steps.GoodRun step Safe {} events := by
  rw [Steps.forall_prefix_iff]
  have hcongr := Steps.goodRun_congr step (fun s e => ∀ t, step s e = some t → Agrees t) Safe Inv
    ?_ ?_ {} events inv_start
  · rw [hcongr]
    exact and_iff_right inv_start.agrees
  · intro s e h
    constructor
    · intro hall
      cases e with
      | rollback k => exact (step_spec s _ _ h rfl).1.mp (hall _ rfl)
      | turn _ _ => trivial
      | compactCommand _ => trivial
      | nextEvent => trivial
    · intro hsafe t ht
      exact (step_spec s t e h ht).1.mpr hsafe
  · intro s e t h hall ht
    exact (step_spec s t e h ht).2 (hall t ht)

/-- Two turns, a manual compaction and a rollback of one turn. -/
def rollbackAfterCompact : List Event :=
  [.turn none 1, .turn none 1, .compactCommand [none], .nextEvent, .rollback 1]

/-- An auto-compaction that keeps the message of the first turn, and a rollback of both. -/
def rollbackAfterAutoCompact : List Event :=
  [.turn none 0, .turn (some [some 0]) 0, .nextEvent, .rollback 2]

/-- In the first run the turn removed is the compaction, and the whole history goes with it; in
the second a removed turn's message stays. -/
theorem rollbackAfterCompact_disagrees :
    (∃ s, Steps.run step {} rollbackAfterCompact = some s ∧ s.history = [] ∧
      listTurnIds s.ledger = [.turn 0, .turn 1]) ∧
    (∃ s, Steps.run step {} rollbackAfterAutoCompact = some s ∧ listTurnIds s.ledger = [] ∧
      s.history.map Row.verbatim = [some 0]) :=
  ⟨⟨_, rfl, by decide, by decide⟩, ⟨_, rfl, by decide, by decide⟩⟩

/-! ## Several rollbacks -/

section Distinct

variable {α : Type} [DecidableEq α]

theorem eraseDups_filter (p : α → Bool) (l : List α) :
    (l.filter p).eraseDups = l.eraseDups.filter p := by
  induction hn : l.length using Nat.strongRecOn generalizing l with
  | ind n ih =>
    cases l with
    | nil => simp
    | cons a as =>
      have hlen := length_filter_le (fun b => !(b == a)) as
      have hrest := ih _ (by simp at hn; omega) (as.filter fun b => !(b == a)) rfl
      rw [eraseDups_cons, filter_cons, filter_cons, ← hrest, filter_filter]
      split
      case isTrue =>
        rw [eraseDups_cons, filter_filter]
        simp only [Bool.and_comm]
      case isFalse hp =>
        refine congrArg _ (filter_congr fun b _ => ?_)
        by_cases hb : b = a <;> simp_all

theorem nodup_eraseDups (l : List α) : l.eraseDups.Nodup := by
  induction hn : l.length using Nat.strongRecOn generalizing l with
  | ind n ih =>
    cases l with
    | nil => simp
    | cons a as =>
      have hlen := length_filter_le (fun b => !(b == a)) as
      rw [eraseDups_cons, nodup_cons]
      exact ⟨by simp, ih _ (by simp at hn; omega) _ rfl⟩

theorem filter_drop_eq_take {l : List α} (h : l.Nodup) (n : Nat) :
    l.filter (fun a => a ∉ l.drop n) = l.take n := by
  have hsplit := take_append_drop n l
  have hdisjoint := (nodup_append.mp (hsplit.symm ▸ h)).2.2
  have hkept : (l.take n).filter (fun a => a ∉ l.drop n) = l.take n :=
    filter_eq_self.mpr fun a ha => by simpa using fun hb => hdisjoint a ha a hb rfl
  have hgone : (l.drop n).filter (fun a => a ∉ l.drop n) = [] := by simp
  calc l.filter (fun a => a ∉ l.drop n)
      = (l.take n ++ l.drop n).filter (fun a => a ∉ l.drop n) := by rw [hsplit]
    _ = l.take n := by rw [filter_append, hkept, hgone, append_nil]

end Distinct

theorem toRemove_eq (ledger : List LedgerItem) (k : Nat) :
    toRemove ledger k = (listTurnIds ledger).drop ((listTurnIds ledger).length - k) := by
  unfold toRemove
  split
  case isTrue h => simp [h]
  case isFalse => rfl

section Several

variable (s : Thread)

theorem listTurnIds_rolledBack (k : Nat) :
    listTurnIds (rolledBack s k).ledger =
      (listTurnIds s.ledger).take ((listTurnIds s.ledger).length - k) := by
  have hturns : listTurnIds (rolledBack s k).ledger =
      (listTurnIds s.ledger).filter fun t => t ∉ toRemove s.ledger k := by
    unfold listTurnIds
    rw [← eraseDups_filter]
    congr 1
    show loadEffectiveItems (s.ledger ++ [LedgerItem.threadRollback k (toRemove s.ledger k)]) = _
    rw [loadEffectiveItems, filterMap_append, removedTurnIds_append, loadEffectiveItems,
      filter_filter]
    simp [LedgerItem.turnId, removedTurnIds, LedgerItem.removed, and_comm]
  rw [hturns, toRemove_eq]
  exact filter_drop_eq_take (nodup_eraseDups _) _

/-- A rollback of `j` turns and one of `k` more are one of `j + k`. -/
theorem rolledBack_add (j k : Nat) :
    (rolledBack (rolledBack s j) k).history = (rolledBack s (j + k)).history ∧
      listTurnIds (rolledBack (rolledBack s j) k).ledger =
        listTurnIds (rolledBack s (j + k)).ledger := by
  constructor
  · show filter _ (filter _ s.history) = filter _ s.history
    rw [filter_filter]
    refine filter_congr fun row _ => ?_
    have hmem : row.turnId ∈ toRemove s.ledger (j + k) ↔
        row.turnId ∈ toRemove s.ledger j ∨ row.turnId ∈ toRemove (rolledBack s j).ledger k := by
      rw [toRemove_eq, toRemove_eq, toRemove_eq, listTurnIds_rolledBack]
      generalize listTurnIds s.ledger = turns
      have hsplit : turns.drop (turns.length - (j + k)) =
          (turns.take (turns.length - j)).drop (turns.length - (j + k)) ++
            turns.drop (turns.length - j) := by
        rw [← drop_append_of_le_length (by rw [length_take]; omega),
          take_append_drop]
      rw [hsplit, mem_append, or_comm, length_take]
      have : min (turns.length - j) turns.length - k = turns.length - (j + k) := by omega
      rw [this]
    simp [hmem, not_or, Bool.and_comm]
  · rw [listTurnIds_rolledBack, listTurnIds_rolledBack, listTurnIds_rolledBack, take_take,
      length_take]
    congr 1
    omega

/-- **Rollbacks add up.** However a number of turns is rolled back, in one step or in many, the
history is the same, and so are the turns that stay effective. -/
theorem rollbacks_add (drops : List Nat) : ∃ t u,
    Steps.run step s (drops.map .rollback) = some t ∧
      step s (.rollback (drops.foldr (· + ·) 0)) = some u ∧
      t.history = u.history ∧ listTurnIds t.ledger = listTurnIds u.ledger := by
  induction drops generalizing s with
  | nil =>
    refine ⟨s, rolledBack s 0, rfl, rfl, ?_, ?_⟩
    · show s.history = filter _ s.history
      simp [toRemove]
    · simp [listTurnIds_rolledBack]
  | cons j rest ih =>
    obtain ⟨t, _, hrun, ⟨rfl⟩, hhistory, hturns⟩ := ih (rolledBack s j)
    obtain ⟨hhistory', hturns'⟩ := rolledBack_add s j (rest.foldr (· + ·) 0)
    exact ⟨t, _, hrun, rfl, hhistory.trans hhistory', hturns.trans hturns'⟩

end Several

end MiqroForge.Ledger
