import MiqroForge.Ledger.Export
import MiqroForge.Library.StampedLog
import Mathlib.Tactic.Linarith

/-!
`HistoryRuntime` under calls that overlap. An appended item takes its time when it is called, the
messages of a compaction take theirs when the compaction writes them; in between they wait for the
lock of the connection, in the order of the calls. Cancelling a caller stops none of them.
-/

namespace MiqroForge.Ledger.HistoryOrder

open PyText Json StampedLog List

structure HistoryItem where
  itemId : Text
  threadId : Text
  turnId : Text
  role : Text
  content : Text
  payload : Payload := []
  createdAt : ℚ

def nextHistoryCreatedAt (last preferred : ℚ) : ℚ :=
  if preferred ≤ last then last + 1 / 1000000 else preferred

/-- An operation that waits for the lock; an append may belong to a copy. -/
inductive Job where
  | append (copy : Option Nat) (item : HistoryItem)
  | load (copy : Nat) (sourceThreadId destThreadId : Text)
  | compact (threadId turnId : Text) (replacement : List (Text × Text × Payload))

def Job.copy? : Job → Option Nat
  | .append copy _ => copy
  | .load copy _ _ => some copy
  | .compact .. => none

def Job.item? : Job → Option HistoryItem
  | .append _ item => some item
  | _ => none

/-- The transaction of a compaction, with the messages it has not written and the rows that a
rollback brings back. -/
structure Transaction where
  threadId : Text
  turnId : Text
  left : List (Text × Text × Payload)
  saved : List HistoryItem
  inserted : Nat := 0
  replayed : Bool := false

/-- A `copy_thread_items` call that has loaded its items. -/
structure Copy where
  destThreadId : Text
  left : List HistoryItem

/-- The rows of the session in the order of their `rowid`, which is the order in which they were
written. -/
structure State where
  rows : List HistoryItem := []
  last : ℚ := 0
  jobs : List Job := []
  running : Option Transaction := none
  copies : Nat → Option Copy := fun _ => none

def loadItems (rows : List HistoryItem) (threadId : Text) : List HistoryItem :=
  (rows.filter fun item => item.threadId = threadId).insertionSort
    fun a b => a.createdAt ≤ b.createdAt

inductive Event where
  /-- `append_item` is called. -/
  | append (item : HistoryItem)
  /-- `copy_thread_items` is called. -/
  | copy (copy : Nat) (sourceThreadId destThreadId : Text)
  /-- A copy appends its next item, the one before written. -/
  | copyNext (copy : Nat) (itemId : Text)
  /-- `replace_messages_with_compaction` is called. -/
  | compact (threadId turnId : Text) (replacement : List (Text × Text × Payload))
  /-- The operation that waits longest gets the lock; its first statement may fail. -/
  | take (ok : Bool)
  | insert (itemId : Text) (now : ℚ)
  /-- The transaction fails, perhaps at a message that has its time; a body that has written
  nothing is replayed once. -/
  | fail (now : Option ℚ) (replay : Bool)
  | commit

section Step
variable (trunc : Truncation)

/-- `append_item` up to the lock. -/
def appendItem (s : State) (copy : Option Nat) (item : HistoryItem) : State :=
  let createdAt := nextHistoryCreatedAt s.last item.createdAt
  { s with
    last := createdAt
    jobs := s.jobs ++ [.append copy { item with
      content := sanitizeContent item.content
      payload := sanitizePayload trunc item.payload
      createdAt := createdAt }] }

/-- The copy is over. -/
def endCopy (s : State) (copy : Option Nat) : State :=
  match copy with
  | some k => { s with copies := Function.update s.copies k none }
  | none => s

/-- The next operation gets the lock: a row is written, a thread is loaded, a compaction begins
its transaction and deletes the thread's rows. -/
def takeJob (s : State) (ok : Bool) : Option State :=
  match s.running, s.jobs with
  | none, job :: jobs =>
    let s := { s with jobs := jobs }
    match job with
    | .append copy item =>
      if ok then some { s with rows := s.rows ++ [item] } else some (endCopy s copy)
    | .load k sourceThreadId destThreadId =>
      if ok then
        some { s with copies :=
          Function.update s.copies k (some ⟨destThreadId, loadItems s.rows sourceThreadId⟩) }
      else some s
    | .compact threadId turnId replacement =>
      if ok then
        some { s with
          rows := s.rows.filter fun item => item.threadId ≠ threadId
          running := some
            { threadId := threadId, turnId := turnId, left := replacement, saved := s.rows } }
      else some s
  | _, _ => none

/-- The row of a replacement message. -/
def compactionItem (tx : Transaction) (message : Text × Text × Payload) (itemId : Text)
    (createdAt : ℚ) : HistoryItem :=
  { itemId := itemId, threadId := tx.threadId, turnId := tx.turnId, role := message.1
    content := message.2.1, payload := fieldsPayload message.2.2, createdAt := createdAt }

def step (s : State) : Event → Option State
  | .append item =>
    if item.role ∈ validHistoryRoles then some (appendItem trunc s none item) else some s
  | .copy k sourceThreadId destThreadId =>
    if s.copies k = none ∧ s.jobs.all (·.copy? ≠ some k) then
      some { s with jobs := s.jobs ++ [.load k sourceThreadId destThreadId] }
    else none
  | .copyNext k itemId =>
    match s.copies k with
    | some ⟨destThreadId, item :: left⟩ =>
      if s.jobs.all (·.copy? ≠ some k) then
        if item.role ∈ validHistoryRoles then
          some { appendItem trunc s (some k)
              { item with itemId := itemId, threadId := destThreadId } with
            copies := Function.update s.copies k (some ⟨destThreadId, left⟩) }
        else some (endCopy s (some k))
      else none
    | _ => none
  | .compact threadId turnId replacement =>
    some { s with jobs := s.jobs ++ [.compact threadId turnId replacement] }
  | .take ok => takeJob s ok
  | .insert itemId now =>
    match s.running with
    | some tx =>
      match tx.left with
      | message :: left =>
        let createdAt := nextHistoryCreatedAt s.last now
        some { s with
          rows := s.rows ++ [compactionItem tx message itemId createdAt]
          last := createdAt
          running := some { tx with left := left, inserted := tx.inserted + 1 } }
      | [] => none
    | none => none
  | .fail now replay =>
    match s.running with
    | some tx =>
      let last := (now.map (nextHistoryCreatedAt s.last)).getD s.last
      -- The replay deletes what the first attempt would have deleted, and has all messages left.
      if replay then
        if tx.inserted = 0 ∧ tx.replayed = false then
          some { s with last := last, running := some { tx with replayed := true } }
        else none
      else some { s with rows := tx.saved, last := last, running := none }
    | none => none
  | .commit =>
    match s.running with
    | some tx => if tx.left = [] then some { s with running := none } else none
    | none => none

end Step

/-! ## The order of the rows -/

/-- The items that wait to be written. -/
def waiting (s : State) : List HistoryItem := s.jobs.filterMap Job.item?

/-- A compaction of the thread waits with messages to write, or has some of them left. -/
def Compacting (s : State) (threadId : Text) : Prop :=
  (∃ turnId replacement, .compact threadId turnId replacement ∈ s.jobs ∧ replacement ≠ []) ∨
    ∃ tx, s.running = some tx ∧ tx.threadId = threadId ∧ tx.left ≠ []

/-- An item takes its time while no compaction of its thread does so later and writes before. -/
def Clear (s : State) : Event → Prop
  | .append item => ¬Compacting s item.threadId
  | .copyNext k _ => ∀ copy, s.copies k = some copy → ¬Compacting s copy.destThreadId
  | _ => True

/-- The second operation appends to a thread that the first compacts. -/
def Overtaken : Job → Job → Prop
  | .compact threadId _ replacement, .append _ item =>
    replacement ≠ [] ∧ item.threadId = threadId
  | _, _ => False

/-- What a reader finds now, and what it would find after a rollback. -/
def tables (s : State) : List (List HistoryItem) :=
  s.rows :: (s.running.map Transaction.saved).toList

abbrev Timed (last : ℚ) (items : List HistoryItem) : Prop :=
  Ordered HistoryItem.threadId HistoryItem.createdAt last items

structure Inv (s : State) : Prop where
  timed : ∀ table ∈ tables s, Timed s.last (table ++ waiting s)
  behind : s.jobs.Pairwise fun a b => ¬Overtaken a b
  apart : ∀ tx, s.running = some tx → tx.left ≠ [] →
    ∀ item ∈ waiting s, item.threadId ≠ tx.threadId

theorem lt_nextHistoryCreatedAt (last preferred : ℚ) :
    last < nextHistoryCreatedAt last preferred := by
  unfold nextHistoryCreatedAt
  split
  · have hstep : (0 : ℚ) < 1 / 1000000 := by norm_num
    linarith
  · rename_i h
    exact not_le.mp h

theorem le_stamped (last : ℚ) (now : Option ℚ) :
    last ≤ (now.map (nextHistoryCreatedAt last)).getD last := by
  cases now with
  | none => exact le_rfl
  | some now => exact (lt_nextHistoryCreatedAt last now).le

theorem mem_waiting {s : State} {item : HistoryItem} :
    item ∈ waiting s ↔ ∃ copy, .append copy item ∈ s.jobs := by
  simp only [waiting, mem_filterMap]
  constructor
  · rintro ⟨job, hjob, hitem⟩
    cases job <;> simp only [Job.item?, Option.some.injEq, reduceCtorEq] at hitem
    obtain rfl := hitem
    exact ⟨_, hjob⟩
  · rintro ⟨copy, hjob⟩
    exact ⟨_, hjob, rfl⟩

theorem Inv.init : Inv {} where
  timed := by simp [tables, waiting, Ordered.nil]
  behind := List.Pairwise.nil
  apart := fun tx h => by cases h

section Steps
variable {trunc : Truncation} {s t : State}

theorem Inv.withCopies (h : Inv s) (copies : Nat → Option Copy) :
    Inv { s with copies := copies } :=
  ⟨h.timed, h.behind, h.apart⟩

theorem Inv.endCopy (h : Inv s) (copy : Option Nat) : Inv (endCopy s copy) := by
  cases copy with
  | none => exact h
  | some k => exact h.withCopies _

theorem Inv.appendItem (h : Inv s) (copy : Option Nat) {item : HistoryItem}
    (hclear : ¬Compacting s item.threadId) : Inv (appendItem trunc s copy item) where
  timed := by
    intro table htable
    have hnew := (h.timed table htable).concat (a := { item with
      content := sanitizeContent item.content
      payload := sanitizePayload trunc item.payload
      createdAt := nextHistoryCreatedAt s.last item.createdAt })
      (lt_nextHistoryCreatedAt s.last item.createdAt)
    simpa [HistoryOrder.appendItem, waiting, Job.item?] using hnew
  behind := by
    refine pairwise_append.mpr ⟨h.behind, by simp, fun job hjob new hnew => ?_⟩
    obtain rfl := mem_singleton.mp hnew
    cases job with
    | compact threadId turnId replacement =>
      rintro ⟨hmessages, heq⟩
      exact hclear (Or.inl ⟨turnId, replacement, heq ▸ hjob, hmessages⟩)
    | append => exact fun hno => hno
    | load => exact fun hno => hno
  apart := by
    intro tx htx hleft new hnew
    simp only [HistoryOrder.appendItem, waiting, filterMap_append, mem_append] at hnew
    rcases hnew with hnew | hnew
    · exact h.apart tx htx hleft new hnew
    · obtain rfl := mem_singleton.mp hnew
      exact fun heq => hclear (Or.inr ⟨tx, htx, heq.symm, hleft⟩)

theorem Inv.enqueue (h : Inv s) {job : Job} (hjob : job.item? = none)
    (hbehind : ∀ other, ¬Overtaken other job) : Inv { s with jobs := s.jobs ++ [job] } := by
  have hwaiting : waiting { s with jobs := s.jobs ++ [job] } = waiting s := by
    simp [waiting, hjob]
  refine ⟨?_, ?_, ?_⟩
  · rw [hwaiting]
    exact h.timed
  · refine pairwise_append.mpr ⟨h.behind, by simp, fun other _ new hnew => ?_⟩
    obtain rfl := mem_singleton.mp hnew
    exact hbehind other
  · rw [hwaiting]
    exact h.apart

theorem Inv.dequeue (h : Inv s) {job : Job} {jobs : List Job} (hjobs : s.jobs = job :: jobs)
    (hrunning : s.running = none) : Inv { s with jobs := jobs } := by
  have hsub : (waiting { s with jobs := jobs }).Sublist (waiting s) := by
    simp only [waiting, hjobs]
    exact (sublist_cons_self job jobs).filterMap _
  refine ⟨fun table htable => ?_, ?_, ?_⟩
  · exact (h.timed table htable).sublist (hsub.append_left table)
  · have hbehind := h.behind
    rw [hjobs] at hbehind
    exact (pairwise_cons.mp hbehind).2
  · intro tx htx
    rw [hrunning] at htx
    cases htx

theorem Inv.takeJob {ok : Bool} (h : Inv s) (hstep : takeJob s ok = some t) : Inv t := by
  unfold HistoryOrder.takeJob at hstep
  split at hstep
  case h_2 => cases hstep
  case h_1 job jobs hrunning hjobs =>
    have hrest := h.dequeue hjobs hrunning
    have hrows : Timed s.last (s.rows ++ waiting s) := h.timed s.rows mem_cons_self
    cases job with
    | append copy item =>
      simp only at hstep
      split at hstep
      · cases hstep
        refine ⟨fun table htable => ?_, hrest.behind, hrest.apart⟩
        simp only [tables, hrunning, Option.map_none, Option.toList_none,
          mem_singleton] at htable
        subst htable
        simpa [waiting, hjobs, Job.item?] using hrows
      · cases hstep
        exact hrest.endCopy copy
    | load k source dest =>
      simp only at hstep
      split at hstep <;> cases hstep
      · exact hrest.withCopies _
      · exact hrest
    | compact threadId turnId replacement =>
      simp only at hstep
      split at hstep
      · cases hstep
        have hkeep : Timed s.last (s.rows ++ waiting { s with jobs := jobs }) :=
          hrest.timed s.rows mem_cons_self
        refine ⟨fun table htable => ?_, hrest.behind, ?_⟩
        · simp only [tables, Option.map_some, Option.toList_some, mem_cons,
            not_mem_nil, or_false] at htable
          rcases htable with rfl | rfl
          · exact hkeep.sublist (filter_sublist.append_right _)
          · exact hkeep
        · rintro tx htx hleft item hitem
          cases htx
          obtain ⟨copy, hmem⟩ := mem_waiting.mp hitem
          have hbehind := h.behind
          rw [hjobs] at hbehind
          exact fun heq => (pairwise_cons.mp hbehind).1 _ hmem ⟨hleft, heq⟩
      · cases hstep
        exact hrest

theorem Inv.step {e : Event} (h : Inv s) (hclear : Clear s e)
    (hstep : step trunc s e = some t) : Inv t := by
  cases e with
  | append item =>
    simp only [HistoryOrder.step] at hstep
    split at hstep <;> cases hstep
    · exact h.appendItem none hclear
    · exact h
  | copy k source dest =>
    obtain ⟨-, rfl⟩ := Steps.of_guard hstep
    exact h.enqueue rfl fun other => by cases other <;> exact fun hno => hno
  | copyNext k itemId =>
    simp only [HistoryOrder.step] at hstep
    split at hstep
    case h_2 => cases hstep
    case h_1 dest item left hcopy =>
      split at hstep
      case isFalse => cases hstep
      case isTrue =>
        split at hstep <;> cases hstep
        · exact (h.appendItem (some k) (hclear _ hcopy)).withCopies _
        · exact h.endCopy (some k)
  | compact threadId turnId replacement =>
    simp only [HistoryOrder.step] at hstep
    cases hstep
    exact h.enqueue rfl fun other => by cases other <;> exact fun hno => hno
  | take ok => exact h.takeJob hstep
  | insert itemId now =>
    simp only [HistoryOrder.step] at hstep
    split at hstep
    case h_2 => cases hstep
    case h_1 tx htx =>
      split at hstep
      case h_2 => cases hstep
      case h_1 message left hleft =>
        cases hstep
        have hlast := lt_nextHistoryCreatedAt s.last now
        have hapart := h.apart tx htx (by simp [hleft])
        refine ⟨fun table htable => ?_, h.behind, fun tx' htx' _ => ?_⟩
        · simp only [tables, Option.map_some, Option.toList_some, mem_cons,
            not_mem_nil, or_false] at htable
          rcases htable with rfl | rfl
          · have hrows := h.timed s.rows mem_cons_self
            have hnew := hrows.insert (a := compactionItem tx message itemId
              (nextHistoryCreatedAt s.last now)) hlast hapart
            show Timed _ ((s.rows ++ [_]) ++ waiting s)
            rw [append_assoc]
            exact hnew
          · have hsaved := h.timed tx.saved (by simp [tables, htx])
            exact hsaved.mono hlast.le
        · cases htx'
          exact hapart
  | fail now replay =>
    simp only [HistoryOrder.step] at hstep
    split at hstep
    case h_2 => cases hstep
    case h_1 tx htx =>
      have hlast := le_stamped s.last now
      split at hstep
      · split at hstep
        · cases hstep
          refine ⟨fun table htable => ?_, h.behind, fun tx' htx' => ?_⟩
          · refine (h.timed table ?_).mono hlast
            simpa [tables, htx] using htable
          · cases htx'
            exact h.apart tx htx
        · cases hstep
      · cases hstep
        refine ⟨fun table htable => ?_, h.behind, fun tx' htx' => by cases htx'⟩
        refine (h.timed table ?_).mono hlast
        simp only [tables, Option.map_none, Option.toList_none, mem_singleton] at htable
        simp [tables, htx, htable]
  | commit =>
    simp only [HistoryOrder.step] at hstep
    split at hstep
    case h_2 => cases hstep
    case h_1 tx htx =>
      split at hstep
      · cases hstep
        refine ⟨fun table htable => h.timed table ?_, h.behind, fun tx' htx' => by cases htx'⟩
        simp only [tables, Option.map_none, Option.toList_none, mem_singleton] at htable
        simp [tables, htable]
      · cases hstep

end Steps

theorem inv_run (trunc : Truncation) {es : List Event} {t : State}
    (hrun : Steps.run (step trunc) {} es = some t)
    (hclear : Steps.GoodRun (step trunc) Clear {} es) : Inv t :=
  Steps.goodRun_invariant (step trunc) Clear Inv
    (fun _ _ _ h hgood hstep => h.step hgood hstep) {} t es Inv.init hrun hclear

theorem Inv.loadItems {t : State} (h : Inv t) (threadId : Text) :
    loadItems t.rows threadId = t.rows.filter fun item => item.threadId = threadId := by
  have htimed : Timed t.last t.rows :=
    (h.timed t.rows List.mem_cons_self).sublist (List.sublist_append_left _ _)
  exact htimed.insertionSort_filter _ threadId fun item h => of_decide_eq_true h

/-- **Insertion order.** Where items take their times only while no compaction of their thread
waits or has messages left, a thread is loaded in the order in which it was written. -/
theorem loadItems_written (trunc : Truncation) (es : List Event) (t : State)
    (hrun : Steps.run (step trunc) {} es = some t)
    (hclear : Steps.GoodRun (step trunc) Clear {} es) (threadId : Text) :
    loadItems t.rows threadId = t.rows.filter fun item => item.threadId = threadId :=
  (inv_run trunc hrun hclear).loadItems threadId

/-- An item takes its time when no other operation is going on. -/
def Sequential (s : State) : Event → Prop
  | .append _ | .copyNext .. => s.jobs = [] ∧ s.running = none
  | _ => True

instance (s : State) : (e : Event) → Decidable (Sequential s e)
  | .append _ | .copyNext .. => inferInstanceAs (Decidable (_ ∧ _))
  | .copy .. | .compact .. | .take _ | .insert .. | .fail .. | .commit => isTrue trivial

theorem Sequential.clear (trunc : Truncation) {s : State} {es : List Event}
    (h : Steps.GoodRun (step trunc) Sequential s es) : Steps.GoodRun (step trunc) Clear s es := by
  have hquiet : ∀ s : State, s.jobs = [] ∧ s.running = none → ∀ id, ¬Compacting s id := by
    rintro s ⟨hjobs, hrunning⟩ id (⟨turnId, replacement, hmem, -⟩ | ⟨tx, htx, -⟩)
    · rw [hjobs] at hmem
      exact not_mem_nil hmem
    · rw [hrunning] at htx
      cases htx
  refine Steps.goodRun_imp (step trunc) Sequential Clear (fun _ => True)
    (fun _ _ _ _ _ _ => trivial) (fun s e _ h => ?_) s es trivial h
  cases e with
  | append item => exact hquiet s h item.threadId
  | copyNext k itemId => exact fun copy _ => hquiet s h copy.destThreadId
  | copy | compact | take | insert | fail | commit => trivial

theorem loadItems_sequential (trunc : Truncation) (es : List Event) (t : State)
    (hrun : Steps.run (step trunc) {} es = some t)
    (hcalls : Steps.GoodRun (step trunc) Sequential {} es) (threadId : Text) :
    loadItems t.rows threadId = t.rows.filter fun item => item.threadId = threadId :=
  (inv_run trunc hrun (Sequential.clear trunc hcalls)).loadItems threadId

def plainTruncation : Truncation := ⟨fun _ => [], getField_nil⟩

def message (itemId : String) (createdAt : ℚ) : HistoryItem :=
  { itemId := itemId.toList, threadId := "t".toList, turnId := "turn".toList
    role := "user".toList, content := itemId.toList, createdAt := createdAt }

def summary : Text × Text × Payload := ("system".toList, "summary".toList, [])

/-- A compaction between appends, with a clock that goes back. -/
def apartCalls : List Event :=
  [.append (message "a" 5), .take true, .compact "t".toList "turn".toList [summary, summary],
    .take true, .insert "m".toList 1, .insert "n".toList 1, .commit, .append (message "c" 2),
    .take true]

theorem loadItems_apartCalls :
    ∃ t, Steps.run (step plainTruncation) {} apartCalls = some t ∧
      loadItems t.rows "t".toList = t.rows.filter fun item => item.threadId = "t".toList := by
  have hsome : (Steps.run (step plainTruncation) {} apartCalls).isSome := rfl
  obtain ⟨t, ht⟩ := Option.isSome_iff_exists.mp hsome
  have hcalls : Steps.GoodRun (step plainTruncation) Sequential {} apartCalls := by decide
  exact ⟨t, ht, loadItems_written plainTruncation apartCalls t ht
    (Sequential.clear plainTruncation hcalls) "t".toList⟩

/-- An append while a compaction writes its messages. -/
def overlappingCalls : List Event :=
  [.compact "t".toList "turn".toList [summary, summary], .take true, .insert "m".toList 1,
    .append (message "c" 2), .insert "n".toList 3, .commit, .take true]

theorem append_overtaken :
    ¬ ∀ (trunc : Truncation) (es : List Event) (t : State),
      Steps.run (step trunc) {} es = some t → ∀ threadId,
        loadItems t.rows threadId = t.rows.filter fun item => item.threadId = threadId := by
  intro h
  have hsome : (Steps.run (step plainTruncation) {} overlappingCalls).isSome := rfl
  obtain ⟨t, ht⟩ := Option.isSome_iff_exists.mp hsome
  have hids : (Steps.run (step plainTruncation) {} overlappingCalls).map (fun t =>
      ((loadItems t.rows "t".toList).map HistoryItem.itemId,
        (t.rows.filter fun item => item.threadId = "t".toList).map HistoryItem.itemId)) =
      some (["m".toList, "c".toList, "n".toList], ["m".toList, "n".toList, "c".toList]) := rfl
  rw [ht, Option.map_some, h plainTruncation overlappingCalls t ht "t".toList] at hids
  obtain ⟨hloaded, hwritten⟩ := Prod.mk.inj (Option.some.inj hids)
  exact absurd (hloaded.symm.trans hwritten) (by decide)

end MiqroForge.Ledger.HistoryOrder
