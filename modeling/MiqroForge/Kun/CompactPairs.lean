import MiqroForge.Kun.Compactor

/-!
Which items `ContextCompactor.compact` keeps, and when a kept tool result has its call: the cut is
made by the number of items.
-/

namespace MiqroForge.Kun.Compactor

open PyText Json List

/-- `summary_override or _build_compaction_summary(...)`. -/
def summaryText (py : Python) (override : Option Text) (head tail : List Dict)
    (pinned : List Text) (reason mode : Text) : Option Text :=
  match override.filter fun t => decide (t ≠ []) with
  | some text => some text
  | none => buildCompactionSummary py head tail pinned reason mode

/-- `ContextCompactor.compact` with a summary given from outside. -/
def compactOver (py : Python) (override : Option Text) (threadId turnId : Text)
    (history : List Dict) (pinned : List Text) (keepRecent : Nat) (reason mode : Text) (stamp : Nat)
    (now : Text) : Option Compaction :=
  let work := trimTrailingToolCalls history
  let keep := keepCount keepRecent work
  if work.length ≤ 1 ∨ work.length - keep ≤ 0 then
    some ⟨work, compactionItem ("compaction_".toList ++ turnId ++ "_noop".toList) threadId turnId
      now "no compaction needed".toList 0 pinned, 0⟩
  else do
    let head := work.take (work.length - keep)
    let tail := lastItems keep work
    let summary ← summaryText py override head tail pinned reason mode
    let itemId := "compaction_".toList ++ turnId ++ ['_'] ++ Nat.toDigits 10 stamp
    let replaced := estimateItemsTokens py head
    let item := compactionItem itemId threadId turnId now summary replaced pinned ++
      [("sourceItemIds".toList, .arr (sourceItemIds py head))]
    some ⟨item :: tail, item, replaced⟩

theorem compactOver_none (py : Python) (threadId turnId : Text) (history : List Dict)
    (pinned : List Text) (keepRecent : Nat) (reason mode : Text) (stamp : Nat) (now : Text) :
    compactOver py none threadId turnId history pinned keepRecent reason mode stamp now =
      compact py threadId turnId history pinned keepRecent reason mode stamp now := rfl

/-! ## Pairs -/

def isToolResult (item : Dict) : Bool := kind item == "tool_result".toList

/-- `item.get("callId", "")`. -/
def callId (item : Dict) : Value := get item "callId" (.str [])

/-- A call with the identifier of a result. -/
def Answers (call result : Dict) : Prop :=
  isToolCall call = true ∧ isToolResult result = true ∧ callId call = callId result

/-- Each tool result has an earlier call with its identifier. -/
def Matched (items : List Dict) : Prop :=
  ∀ before result after, items = before ++ result :: after → isToolResult result = true →
    ∃ call ∈ before, Answers call result

/-- Each item of the history stands once: folded and listed, kept, or dropped as a trailing call. -/
def Accounted (history : List Dict) (r : Compaction) : Prop :=
  ∃ head tail dropped, history = head ++ tail ++ dropped ∧
    (∀ item ∈ dropped, isToolCall item = true) ∧
    ((head = [] ∧ r.replacedTokens = 0 ∧ r.next = tail) ∨
      (r.next = r.summaryItem :: tail ∧ get r.summaryItem "sourceItemIds" .null =
        .arr (head.map fun item => get item "id" (.str []))))

/-- How many items are folded. -/
def cutIndex (keepRecent : Nat) (work : List Dict) : Nat :=
  if 1 < work.length then work.length - min keepRecent (work.length - 1) else 0

/-- What is folded, and what is kept. -/
def foldedItems (keepRecent : Nat) (history : List Dict) : List Dict :=
  (trimTrailingToolCalls history).take (cutIndex keepRecent (trimTrailingToolCalls history))

def keptItems (keepRecent : Nat) (history : List Dict) : List Dict :=
  (trimTrailingToolCalls history).drop (cutIndex keepRecent (trimTrailingToolCalls history))

/-- No result behind the cut has its calls in front of it only. -/
def Uncut (keepRecent : Nat) (history : List Dict) : Prop :=
  ∀ before result after, keptItems keepRecent history = before ++ result :: after →
    ∀ call ∈ foldedItems keepRecent history, Answers call result →
      ∃ call' ∈ before, Answers call' result

theorem folded_append_kept (keepRecent : Nat) (history : List Dict) :
    foldedItems keepRecent history ++ keptItems keepRecent history =
      trimTrailingToolCalls history :=
  take_append_drop _ _

/-! ## The summary item -/

theorem get_append_of_notMem {fields rest : Dict} {key : String} {default : Value}
    (h : key.toList ∉ fields.map Prod.fst) :
    get (fields ++ rest) key default = get rest key default := by
  unfold get
  rw [find?_append]
  have hnone : (fields.find? fun e => e.1 == key.toList) = none := by
    refine find?_eq_none.mpr fun e he heq => h ?_
    rw [← beq_iff_eq.mp heq]
    exact mem_map_of_mem he
  rw [hnone, Option.none_or]

theorem get_cons_self (key : String) (v default : Value) (rest : Dict) :
    get ((key.toList, v) :: rest) key default = v := by
  simp [get]

section

variable (itemId threadId turnId now summary : Text) (replaced : Nat) (pinned : List Text)
  (rest : Dict)

theorem compactionItem_kind : kind (compactionItem itemId threadId turnId now summary replaced
    pinned ++ rest) = "compaction".toList := by
  unfold kind
  rw [show compactionItem itemId threadId turnId now summary replaced pinned ++ rest =
    [("id".toList, .str itemId), ("turnId".toList, .str turnId), ("threadId".toList, .str threadId),
      ("role".toList, .str "system".toList), ("status".toList, .str "completed".toList)] ++
      (("kind".toList, .str "compaction".toList) :: (("createdAt".toList, .str now) ::
        ("summary".toList, .str summary) ::
        ("replacedTokens".toList, .num (Number.ofNat replaced)) ::
        ("pinnedConstraints".toList, .arr (pinned.map .str)) :: rest)) from rfl,
    get_append_of_notMem, get_cons_self]
  show "kind".toList ∉ ["id".toList, "turnId".toList, "threadId".toList, "role".toList,
    "status".toList]
  decide

theorem compactionItem_sources (ids : List Value) :
    get (compactionItem itemId threadId turnId now summary replaced pinned ++
      [("sourceItemIds".toList, .arr ids)]) "sourceItemIds" .null = .arr ids := by
  rw [get_append_of_notMem, get_cons_self]
  show "sourceItemIds".toList ∉ ["id".toList, "turnId".toList, "threadId".toList, "role".toList,
    "status".toList, "kind".toList, "createdAt".toList, "summary".toList, "replacedTokens".toList,
    "pinnedConstraints".toList]
  decide

end

theorem not_toolCall_of_kind {item : Dict} (h : kind item = "compaction".toList) :
    isToolCall item = false := by
  rw [isToolCall, h]
  decide

theorem not_toolResult_of_kind {item : Dict} (h : kind item = "compaction".toList) :
    isToolResult item = false := by
  rw [isToolResult, h]
  decide

theorem sourceItemIds_iff {py : Python} {head : List Dict} :
    sourceItemIds py head = head.map (fun item => get item "id" (.str [])) ↔
      ∀ item ∈ head, py.truthy (get item "id" .null) = true := by
  constructor
  · intro h
    have hlen := congrArg List.length h
    rw [sourceItemIds, length_map, length_map] at hlen
    exact length_filter_eq_length_iff.mp hlen
  · intro h
    rw [sourceItemIds, filter_eq_self.mpr h]

/-! ## One compaction -/

theorem compactOver_next {py : Python} {override : Option Text}
    {threadId turnId reason mode now : Text} {history : List Dict} {pinned : List Text}
    {keepRecent stamp : Nat} {r : Compaction} (hkeep : 1 ≤ keepRecent)
    (h : compactOver py override threadId turnId history pinned keepRecent reason mode stamp now =
      some r) :
    (foldedItems keepRecent history = [] ∧ r.replacedTokens = 0 ∧
        r.next = keptItems keepRecent history) ∨
      (keptItems keepRecent history ≠ [] ∧ r.replacedTokens ≠ 0 ∧
        r.next = r.summaryItem :: keptItems keepRecent history ∧
        kind r.summaryItem = "compaction".toList ∧ get r.summaryItem "sourceItemIds" .null =
          .arr (sourceItemIds py (foldedItems keepRecent history))) := by
  unfold compactOver at h
  dsimp only at h
  unfold foldedItems keptItems
  generalize trimTrailingToolCalls history = work at h ⊢
  split at h
  case isTrue hlen =>
    have hshort : work.length ≤ 1 := by
      unfold keepCount at hlen
      split_ifs at hlen <;> omega
    have hcut : cutIndex keepRecent work = 0 := by
      rw [cutIndex, if_neg (by omega)]
    cases h
    rw [hcut]
    exact .inl ⟨rfl, rfl, rfl⟩
  case isFalse hlen =>
    have hlong : 1 < work.length := by omega
    have hkept : keepCount keepRecent work = min keepRecent (work.length - 1) := by
      rw [keepCount, if_pos hlong]
    have hcut : work.length - keepCount keepRecent work = cutIndex keepRecent work := by
      rw [cutIndex, if_pos hlong, hkept]
    have hne : keepCount keepRecent work ≠ 0 := by omega
    obtain ⟨summary, -, h⟩ := Option.bind_eq_some_iff.mp h
    cases h
    refine .inr ⟨?_, ?_, ?_, compactionItem_kind .., ?_⟩
    · rw [Ne, drop_eq_nil_iff, ← hcut]
      omega
    · refine (estimate_pos py ?_).ne'
      rw [Ne, take_eq_nil_iff]
      rintro (hzero | rfl)
      · omega
      · cases hlong
    · rw [lastItems, if_neg hne, hcut]
    · rw [compactionItem_sources, hcut]

/-! ## Pairs across the cut -/

theorem matched_cons {summary : Dict} {items : List Dict}
    (hkind : kind summary = "compaction".toList) :
    Matched (summary :: items) ↔ Matched items := by
  constructor
  · intro h before result after hitems hresult
    obtain ⟨call, hmem, hans⟩ := h (summary :: before) result after (by rw [hitems]; rfl) hresult
    rcases mem_cons.mp hmem with rfl | hmem
    · rw [Answers, not_toolCall_of_kind hkind] at hans
      exact absurd hans.1 Bool.false_ne_true
    · exact ⟨call, hmem, hans⟩
  · intro h before result after hitems hresult
    cases before with
    | nil =>
      obtain rfl := (List.cons.inj hitems).1
      rw [not_toolResult_of_kind hkind] at hresult
      cases hresult
    | cons first before =>
      obtain ⟨call, hmem, hans⟩ := h before result after (List.cons.inj hitems).2 hresult
      exact ⟨call, mem_cons_of_mem _ hmem, hans⟩

theorem matched_concat {items : List Dict} {last : Dict} (h : Matched items)
    (hlast : isToolResult last = true → ∃ call ∈ items, Answers call last) :
    Matched (items ++ [last]) := by
  intro before result after hitems hresult
  rcases eq_nil_or_concat after with rfl | ⟨after, item, rfl⟩
  · obtain ⟨rfl, hone⟩ := append_inj' hitems rfl
    obtain rfl := (List.cons.inj hone).1
    exact hlast hresult
  · rw [concat_eq_append, ← cons_append, ← append_assoc] at hitems
    exact h before result after (append_inj' hitems rfl).1 hresult

theorem uncut_of_no_calls {keepRecent : Nat} {history : List Dict}
    (h : ∀ item ∈ foldedItems keepRecent history, isToolCall item = false) :
    Uncut keepRecent history := by
  intro before result after _ call hcall hans
  have hno := h call hcall
  rw [hans.1] at hno
  cases hno

theorem matched_kept_iff {keepRecent : Nat} {history : List Dict} (hmatched : Matched history) :
    Matched (keptItems keepRecent history) ↔ Uncut keepRecent history := by
  constructor
  · intro h before result after hkept call _ hans
    exact h before result after hkept hans.2.1
  · intro h before result after hkept hresult
    have hhistory : history = (foldedItems keepRecent history ++ before) ++
        result :: (after ++ history.rtakeWhile isToolCall) := by
      calc history = trimTrailingToolCalls history ++ history.rtakeWhile isToolCall :=
            (rdropWhile_append_rtakeWhile ..).symm
        _ = _ := by
            rw [← folded_append_kept keepRecent, hkept]
            simp only [append_assoc, cons_append]
    obtain ⟨call, hmem, hans⟩ := hmatched _ result _ hhistory hresult
    rcases mem_append.mp hmem with hfold | hbefore
    · exact h before result after hkept call hfold hans
    · exact ⟨call, hbefore, hans⟩

/-! ## Where each item goes -/

theorem rdropWhile_append_of_all {α : Type} {p : α → Bool} {xs ys : List α}
    (h : ∀ y ∈ ys, p y = true) : (xs ++ ys).rdropWhile p = xs.rdropWhile p := by
  induction ys using reverseRecOn with
  | nil => rw [append_nil]
  | append_singleton ys y ih =>
    rw [← append_assoc, rdropWhile_concat_pos _ _ _ (h y (by simp))]
    exact ih fun z hz => h z (by simp [hz])

theorem rdropWhile_of_kept {α : Type} {p : α → Bool} {xs ys zs : List α} (hys : ys ≠ [])
    (h : (zs ++ ys).rdropWhile p = zs ++ ys) : (xs ++ ys).rdropWhile p = xs ++ ys := by
  rw [rdropWhile_eq_self_iff] at h ⊢
  intro hne
  have hlast := h (append_ne_nil_of_right_ne_nil zs hys)
  rw [getLast_append_of_ne_nil _ hys] at hlast ⊢
  exact hlast

theorem head_eq_folded {keepRecent : Nat} {history head dropped : List Dict}
    (hhistory : history = head ++ keptItems keepRecent history ++ dropped)
    (hkept : keptItems keepRecent history ≠ [])
    (hdropped : ∀ item ∈ dropped, isToolCall item = true) :
    head = foldedItems keepRecent history := by
  have hwork : trimTrailingToolCalls history = head ++ keptItems keepRecent history := by
    have htrimmed : (foldedItems keepRecent history ++ keptItems keepRecent history).rdropWhile
        isToolCall = foldedItems keepRecent history ++ keptItems keepRecent history := by
      rw [folded_append_kept]
      exact rdropWhile_idempotent ..
    calc trimTrailingToolCalls history
        = (head ++ keptItems keepRecent history ++ dropped).rdropWhile isToolCall :=
          congrArg _ hhistory
      _ = (head ++ keptItems keepRecent history).rdropWhile isToolCall :=
          rdropWhile_append_of_all hdropped
      _ = head ++ keptItems keepRecent history := rdropWhile_of_kept hkept htrimmed
  rw [← folded_append_kept keepRecent] at hwork
  exact (append_cancel_right hwork).symm

theorem history_split (keepRecent : Nat) (history : List Dict) :
    history = foldedItems keepRecent history ++ keptItems keepRecent history ++
      history.rtakeWhile isToolCall := by
  rw [folded_append_kept]
  exact (rdropWhile_append_rtakeWhile ..).symm

theorem accounted_iff {py : Python} {keepRecent : Nat} {history : List Dict} {r : Compaction}
    (hkept : keptItems keepRecent history ≠ []) (hreplaced : r.replacedTokens ≠ 0)
    (hnext : r.next = r.summaryItem :: keptItems keepRecent history)
    (hsources : get r.summaryItem "sourceItemIds" .null =
      .arr (sourceItemIds py (foldedItems keepRecent history))) :
    Accounted history r ↔
      ∀ item ∈ foldedItems keepRecent history, py.truthy (get item "id" .null) = true := by
  constructor
  · rintro ⟨head, tail, dropped, hhistory, hdropped, ⟨-, hzero, -⟩ | ⟨htail, hlisted⟩⟩
    · exact absurd hzero hreplaced
    · obtain rfl := (List.cons.inj (hnext.symm.trans htail)).2
      obtain rfl := head_eq_folded hhistory hkept hdropped
      rw [hsources] at hlisted
      exact sourceItemIds_iff.mp (Value.arr.inj hlisted)
  · intro hids
    refine ⟨_, _, _, history_split keepRecent history, fun item => mem_rtakeWhile_imp, ?_⟩
    rw [hsources, sourceItemIds_iff.mpr hids]
    exact .inr ⟨hnext, rfl⟩

/-! ## The condition -/

/-- **What a compaction keeps together.** Each kept result has its call and each item is kept,
listed or a trailing call iff the cut is not between a result and its calls and each folded item has an
identifier. -/
theorem compact_keeps_iff {py : Python} {override : Option Text}
    {threadId turnId reason mode now : Text} {history : List Dict} {pinned : List Text}
    {keepRecent stamp : Nat} {r : Compaction} (hmatched : Matched history) (hkeep : 1 ≤ keepRecent)
    (h : compactOver py override threadId turnId history pinned keepRecent reason mode stamp now =
      some r) :
    (Matched r.next ∧ Accounted history r) ↔
      Uncut keepRecent history ∧
        ∀ item ∈ foldedItems keepRecent history, py.truthy (get item "id" .null) = true := by
  rcases compactOver_next hkeep h with ⟨hfolded, hzero, hnext⟩ |
    ⟨hkept, hreplaced, hnext, hkind, hsources⟩
  · have haccounted : Accounted history r := by
      refine ⟨_, _, _, history_split keepRecent history, fun item => List.mem_rtakeWhile_imp, ?_⟩
      exact .inl ⟨hfolded, hzero, hnext⟩
    rw [hnext, matched_kept_iff hmatched]
    exact ⟨fun hboth => ⟨hboth.1, by simp [hfolded]⟩, fun hboth => ⟨hboth.1, haccounted⟩⟩
  · rw [accounted_iff hkept hreplaced hnext hsources, hnext, matched_cons hkind,
      matched_kept_iff hmatched]

/-! ## One question, one call -/

def question : Dict := [("id".toList, .str ['1']), ("kind".toList, .str "user_message".toList)]

def lookup : Dict :=
  [("id".toList, .str ['2']), ("kind".toList, .str "tool_call".toList),
    ("callId".toList, .str ['c'])]

def found : Dict :=
  [("id".toList, .str ['3']), ("kind".toList, .str "tool_result".toList),
    ("callId".toList, .str ['c'])]

def oneCall : List Dict := [question, lookup, found]

/-- With `keep_recent` recent items kept. -/
def oneCompacted (keepRecent : Nat) : Option Compaction :=
  compactOver onlyStrings (some ['s']) ['t'] ['u'] oneCall [] keepRecent [] [] 5 ['n']

theorem found_answers : Answers lookup found :=
  ⟨by decide, by decide, rfl⟩

theorem oneCall_matched : Matched oneCall := by
  have hnil : Matched ([] : List Dict) := by
    intro before result after hitems
    cases before <;> cases hitems
  have hone : Matched ([] ++ [question]) :=
    matched_concat hnil fun h => absurd h (by decide)
  have htwo : Matched (([] ++ [question]) ++ [lookup]) :=
    matched_concat hone fun h => absurd h (by decide)
  exact matched_concat htwo fun _ =>
    ⟨lookup, mem_cons_of_mem _ mem_cons_self, found_answers⟩

theorem compact_keeps_two : ∃ r, oneCompacted 2 = some r ∧
    Matched r.next ∧ Accounted oneCall r := by
  have hsome : (oneCompacted 2).isSome := by decide
  obtain ⟨r, hr⟩ := Option.isSome_iff_exists.mp hsome
  refine ⟨r, hr, (compact_keeps_iff oneCall_matched (by decide) hr).mpr ⟨?_, ?_⟩⟩
  · exact uncut_of_no_calls (by decide)
  · decide

theorem oneCall_cut :
    foldedItems 1 oneCall = [question, lookup] ∧ keptItems 1 oneCall = [found] := by
  have hfound : ¬ isToolCall found = true := by decide
  have hwork : trimTrailingToolCalls oneCall = oneCall :=
    rdropWhile_eq_self_iff.mpr fun _ => hfound
  rw [foldedItems, keptItems, hwork]
  exact ⟨rfl, rfl⟩

/-- The newest item alone is kept: the result, and its call is in the summary. -/
theorem compact_parts_one : Matched oneCall ∧ ∃ r, oneCompacted 1 = some r ∧
    lookup ∈ foldedItems 1 oneCall ∧ found ∈ r.next ∧ ¬ Matched r.next := by
  have hsome : (oneCompacted 1).isSome := by decide
  obtain ⟨r, hr⟩ := Option.isSome_iff_exists.mp hsome
  obtain ⟨hfolded, hkept⟩ := oneCall_cut
  rcases compactOver_next (by decide) hr with ⟨hnone, -⟩ | ⟨-, -, hnext, hkind, -⟩
  · rw [hfolded] at hnone
    cases hnone
  · rw [hkept] at hnext
    refine ⟨oneCall_matched, r, hr, ?_, ?_, fun h => ?_⟩
    · rw [hfolded]
      exact List.mem_cons_of_mem _ List.mem_cons_self
    · rw [hnext]
      exact List.mem_cons_of_mem _ List.mem_cons_self
    · rw [hnext, matched_cons hkind] at h
      obtain ⟨call, hmem, -⟩ := h [] found [] rfl (by decide)
      cases hmem

end MiqroForge.Kun.Compactor
