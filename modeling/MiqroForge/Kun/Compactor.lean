import MiqroForge.Kun.SessionStore
import Mathlib

/-!
`ContextCompactor` and `AgentLoop._compact_if_needed`: a long history is folded into a summary
item, which is appended to the session store; the next step loads the store again.
-/

namespace MiqroForge.Kun.Compactor

open PyText Json List

/-- What `str` and truth make of values that are no strings. -/
structure Python where
  repr : Value → Text
  isZero : Number → Bool

def Python.str (py : Python) : Value → Text
  | .str s => s
  | v => py.repr v

/-- `bool(value)`. -/
def Python.truthy (py : Python) : Value → Bool
  | .null => false
  | .bool b => b
  | .num n => !py.isZero n
  | .str s => !s.isEmpty
  | .arr xs => !xs.isEmpty
  | .obj fields => !fields.isEmpty

/-- `item.get(key, default)`. -/
def get (item : Dict) (key : String) (default : Value) : Value :=
  match item.find? fun e => e.1 == key.toList with
  | some (_, v) => v
  | none => default

/-- The kind of an item, empty when it is no string. -/
def kind (item : Dict) : Text :=
  match get item "kind" (.str []) with
  | .str s => s
  | _ => []

/-! ## The estimate -/

/-- `max(1, int(len(text) / 2.5))`. -/
def estimateTokens (text : Text) : Nat := if text = [] then 0 else max 1 (2 * text.length / 5)

variable (py : Python)

def estimateField (item : Dict) (key : String) : Nat :=
  estimateTokens (py.str (get item key (.str [])))

def estimateItemTokens (item : Dict) : Nat :=
  let total :=
    if kind item = "user_message".toList then estimateField py item "text"
    else if kind item = "assistant_text".toList then estimateField py item "text"
    else if kind item = "assistant_reasoning".toList then estimateField py item "text"
    else if kind item = "tool_call".toList then
      estimateField py item "summary" + estimateTokens (print (get item "arguments" (.obj [])))
    else if kind item = "tool_result".toList then estimateField py item "output"
    else if kind item = "compaction".toList then estimateField py item "summary"
    else if kind item = "error".toList then estimateField py item "message"
    else 0
  max 1 total

def estimateItemsTokens (items : List Dict) : Nat := (items.map (estimateItemTokens py)).sum

/-! ## The plan -/

structure Thresholds where
  soft : Int
  hard : Int

structure Plan where
  mode : Text
  keepRecent : Nat
  reason : Text

/-- The mode and `keep_recent`; `0.6` is three fifths. -/
def planMode (c : Thresholds) (tokens : Nat) : Text × Nat :=
  if c.hard ≤ tokens then ("force".toList, 1)
  else if 5 * c.soft + 3 * (c.hard - c.soft) ≤ 5 * tokens then ("aggressive".toList, 2)
  else ("normal".toList, 4)

def planCompaction (c : Thresholds) (items : List Dict) (promptTokens : Option Nat) :
    Option Plan :=
  let tokens := max (estimateItemsTokens py items) (promptTokens.getD 0)
  if (tokens : Int) < c.soft then none
  else
    let (mode, keepRecent) := planMode c tokens
    some ⟨mode, keepRecent, "estimated ".toList ++ Nat.toDigits 10 tokens ++
      " tokens reached ".toList ++ mode ++ " compaction threshold".toList⟩

/-! ## The summary -/

/-- `none` where the value has no `split`. -/
def clip (value : Value) (maxChars : Nat) : Option Text :=
  match value with
  | .str text =>
    let compacted := [' '].intercalate (splitSpaces text)
    if compacted.length ≤ maxChars then some compacted
    else some (strip (compacted.take (maxChars - 3)) ++ "...".toList)
  | _ => none

/-- One line of a summary, `none` when it raises. -/
def summarizeItem (item : Dict) : Option Text :=
  let toolName := py.str (get item "toolName" (.str []))
  if kind item = "user_message".toList then
    (clip (get item "text" (.str [])) 360).map fun t => "- User: ".toList ++ t
  else if kind item = "assistant_text".toList then
    (clip (get item "text" (.str [])) 360).map fun t => "- Assistant: ".toList ++ t
  else if kind item = "assistant_reasoning".toList then some []
  else if kind item = "tool_call".toList then
    let summary := get item "summary" (.str [])
    let shown :=
      if py.truthy summary then summary else .str (py.str (get item "arguments" (.str [])))
    (clip shown 360).map fun t => "- Tool call ".toList ++ toolName ++ ": ".toList ++ t
  else if kind item = "tool_result".toList then
    let err := if py.truthy (get item "isError" .null) then " error".toList else []
    (clip (.str (py.str (get item "output" (.str [])))) 360).map fun t =>
      "- Tool result ".toList ++ toolName ++ err ++ ": ".toList ++ t
  else if kind item = "compaction".toList then
    (clip (get item "summary" (.str [])) 600).map fun t => "- Earlier compaction: ".toList ++ t
  else if kind item = "error".toList then
    (clip (get item "message" (.str [])) 360).map fun t => "- Error: ".toList ++ t
  else some []

def buildCompactionSummary (head tail : List Dict) (pinned : List Text) (reason mode : Text) :
    Option Text := do
  let lines ← head.mapM (summarizeItem py)
  some (['\n'].intercalate (
    (if reason = [] then [] else ["Reason: ".toList ++ reason]) ++
    (if mode = [] then [] else ["Mode: ".toList ++ mode]) ++
    ["Pinned constraints (preserved across compaction):".toList] ++
    pinned.map (fun p => "- ".toList ++ p) ++
    [[], "Summarized ".toList ++ Nat.toDigits 10 head.length ++ " item(s); ".toList ++
      Nat.toDigits 10 tail.length ++ " recent item(s) kept verbatim.".toList,
      "Conversation summary:".toList] ++
    lines.filter fun line => !line.isEmpty))

/-! ## The compaction -/

def isToolCall (item : Dict) : Bool := kind item == "tool_call".toList

def trimTrailingToolCalls (history : List Dict) : List Dict := history.rdropWhile isToolCall

def keepCount (keepRecent : Nat) (work : List Dict) : Nat :=
  if 1 < work.length then min keepRecent (work.length - 1) else work.length

/-- `work[-keep:]`. -/
def lastItems (keep : Nat) (work : List Dict) : List Dict :=
  if keep = 0 then work else work.drop (work.length - keep)

def compactionItem (itemId threadId turnId now summary : Text) (replaced : Nat)
    (pinned : List Text) : Dict :=
  [("id".toList, .str itemId), ("turnId".toList, .str turnId), ("threadId".toList, .str threadId),
    ("role".toList, .str "system".toList), ("status".toList, .str "completed".toList),
    ("kind".toList, .str "compaction".toList), ("createdAt".toList, .str now),
    ("summary".toList, .str summary), ("replacedTokens".toList, .num (Number.ofNat replaced)),
    ("pinnedConstraints".toList, .arr (pinned.map .str))]

/-- `[item.get("id", "") for item in head if item.get("id")]`. -/
def sourceItemIds (head : List Dict) : List Value :=
  (head.filter fun item => py.truthy (get item "id" .null)).map fun item => get item "id" (.str [])

structure Compaction where
  next : List Dict
  summaryItem : Dict
  replacedTokens : Nat

/-- `stamp` is the clock in milliseconds. -/
def compact (threadId turnId : Text) (history : List Dict) (pinned : List Text) (keepRecent : Nat)
    (reason mode : Text) (stamp : Nat) (now : Text) : Option Compaction :=
  let work := trimTrailingToolCalls history
  let keep := keepCount keepRecent work
  if work.length ≤ 1 ∨ work.length - keep ≤ 0 then
    some ⟨work, compactionItem ("compaction_".toList ++ turnId ++ "_noop".toList) threadId turnId
      now "no compaction needed".toList 0 pinned, 0⟩
  else do
    let head := work.take (work.length - keep)
    let tail := lastItems keep work
    let summary ← buildCompactionSummary py head tail pinned reason mode
    let itemId := "compaction_".toList ++ turnId ++ ['_'] ++ Nat.toDigits 10 stamp
    let replaced := estimateItemsTokens py head
    let item := compactionItem itemId threadId turnId now summary replaced pinned ++
      [("sourceItemIds".toList, .arr (sourceItemIds py head))]
    some ⟨item :: tail, item, replaced⟩

/-- The `compaction_completed` event. -/
def completedEvent (threadId turnId : Text) (result : Compaction) : Dict :=
  [("kind".toList, .str "compaction_completed".toList), ("threadId".toList, .str threadId),
    ("turnId".toList, .str turnId), ("itemId".toList, get result.summaryItem "id" .null),
    ("summary".toList, get result.summaryItem "summary" .null),
    ("replacedTokens".toList, .num (Number.ofNat result.replacedTokens))]

/-- The history to send, and the event if something was folded. -/
def compactIfNeeded (c : Thresholds) (files : Files) (items : List Dict) (threadId turnId : Text)
    (stamp : Nat) (now : Text) : Option (Files × List Dict × Option Dict) :=
  match planCompaction py c items none with
  | none => some (files, items, none)
  | some plan => do
    let result ← compact py threadId turnId items ["user: preserve recent turns".toList]
      plan.keepRecent plan.reason plan.mode stamp now
    if 0 < result.replacedTokens then
      some (appendItem files threadId result.summaryItem, result.next,
        some (completedEvent threadId turnId result))
    else some (files, result.next, none)

/-- What a compaction of the history folds into its summary. -/
def folded (c : Thresholds) (items : List Dict) : List Dict :=
  match planCompaction py c items none with
  | none => []
  | some plan =>
    let work := trimTrailingToolCalls items
    work.take (work.length - keepCount plan.keepRecent work)

/-! ## Longer histories -/

theorem estimate_append (xs ys : List Dict) :
    estimateItemsTokens py (xs ++ ys) = estimateItemsTokens py xs + estimateItemsTokens py ys := by
  simp [estimateItemsTokens]

theorem estimateItemTokens_pos (item : Dict) : 0 < estimateItemTokens py item :=
  Nat.lt_of_lt_of_le Nat.zero_lt_one (Nat.le_max_left 1 _)

theorem estimate_pos {items : List Dict} (h : items ≠ []) : 0 < estimateItemsTokens py items := by
  obtain ⟨item, items, rfl⟩ := exists_cons_of_ne_nil h
  have := estimateItemTokens_pos py item
  rw [estimateItemsTokens, map_cons, sum_cons]
  omega

theorem planMode_antitone (c : Thresholds) {m n : Nat} (h : m ≤ n) :
    (planMode c n).2 ≤ (planMode c m).2 := by
  unfold planMode
  split
  · split_ifs <;> decide
  · split_ifs <;> first | decide | omega

theorem planMode_pos (c : Thresholds) (n : Nat) : 0 < (planMode c n).2 := by
  unfold planMode
  split_ifs <;> simp

theorem plan_some {c : Thresholds} {items : List Dict} {plan : Plan}
    (h : planCompaction py c items none = some plan) :
    c.soft ≤ estimateItemsTokens py items ∧
      plan.keepRecent = (planMode c (estimateItemsTokens py items)).2 := by
  simp only [planCompaction, Option.getD_none, Nat.max_zero] at h
  split at h
  case isTrue => cases h
  case isFalse hsoft =>
    cases h
    exact ⟨Int.not_lt.mp hsoft, rfl⟩

theorem plan_grows {c : Thresholds} {items : List Dict} {plan : Plan}
    (h : planCompaction py c items none = some plan) (more : List Dict) :
    ∃ plan', planCompaction py c (items ++ more) none = some plan' ∧
      plan'.keepRecent ≤ plan.keepRecent := by
  obtain ⟨hsoft, hkeep⟩ := plan_some py h
  have hle : estimateItemsTokens py items ≤ estimateItemsTokens py (items ++ more) := by
    rw [estimate_append]
    omega
  have hreached : ¬ ((max (estimateItemsTokens py (items ++ more)) 0 : Nat) : Int) < c.soft := by
    omega
  refine ⟨_, by simp only [planCompaction, Option.getD_none, if_neg hreached]; rfl, ?_⟩
  rw [hkeep]
  simp only [Nat.max_zero]
  exact planMode_antitone c hle

theorem trim_append (items more : List Dict) :
    trimTrailingToolCalls items <+: trimTrailingToolCalls (items ++ more) := by
  induction more using reverseRecOn with
  | nil => exact (append_nil items).symm ▸ prefix_refl _
  | append_singleton more item ih =>
    rw [← append_assoc]
    unfold trimTrailingToolCalls at ih ⊢
    by_cases hcall : isToolCall item = true
    · rw [rdropWhile_concat_pos _ _ _ hcall]
      exact ih
    · rw [rdropWhile_concat_neg _ _ _ hcall, append_assoc]
      exact (List.rdropWhile_prefix _ _).trans (prefix_append items (more ++ [item]))

/-- **Folded again.** What is folded is the beginning of what is folded after the history has
grown. -/
theorem folded_grows (c : Thresholds) (items more : List Dict) :
    folded py c items <+: folded py c (items ++ more) := by
  cases hplan : planCompaction py c items none with
  | none =>
    simp only [folded, hplan]
    exact nil_prefix
  | some plan =>
    obtain ⟨plan', hplan', hkeep⟩ := plan_grows py hplan more
    obtain ⟨rest, hrest⟩ := trim_append items more
    have hlen := congrArg List.length hrest
    rw [length_append] at hlen
    simp only [folded, hplan, hplan']
    rw [← hrest]
    have htake : (trimTrailingToolCalls items).take ((trimTrailingToolCalls items).length -
        keepCount plan.keepRecent (trimTrailingToolCalls items)) =
        (trimTrailingToolCalls items ++ rest).take ((trimTrailingToolCalls items).length -
          keepCount plan.keepRecent (trimTrailingToolCalls items)) :=
      (take_append_of_le_length (Nat.sub_le _ _)).symm
    rw [htake]
    refine take_prefix_take_left ?_
    unfold keepCount
    rw [length_append]
    split_ifs <;> omega

/-! ## What the store holds afterwards -/

theorem loadText_append (xs ys : List Dict) :
    loadText ((xs ++ ys).flatMap itemLine) =
      loadText (xs.flatMap itemLine) ++ loadText (ys.flatMap itemLine) := by
  rw [loadText_lines, loadText_lines, loadText_lines, flatMap_append]

theorem load_grows {files : Files} {threadId : Text} {stored : List Dict}
    (hstored : (files (itemsPath threadId)).getD [] = stored.flatMap itemLine) (summary : Dict)
    (new : List Dict) :
    loadItems (appendItems (appendItem files threadId summary) threadId new) threadId =
      loadItems files threadId ++ loadText (itemLine summary) ++
        loadText (new.flatMap itemLine) := by
  have htext : (appendItem files threadId summary (itemsPath threadId)).getD [] =
      (stored ++ [summary]).flatMap itemLine := by
    simp [appendItem, hstored]
  rw [loadItems_eq, loadItems_eq, appendItems_text, htext, hstored, ← flatMap_append,
    loadText_append, loadText_append]
  simp

theorem loadText_line {item : Dict} (hwf : WellFormed (.obj item)) (h : Unbroken (.obj item)) :
    loadText (itemLine item) = [item] := by
  have hone := (loadText_eq_iff [item] (by simpa using hwf)).mpr (by simpa using h)
  simpa using hone

theorem loadItems_wellFormed (files : Files) (threadId : Text) :
    ∀ item ∈ loadItems files threadId, WellFormed (.obj item) := by
  intro item h
  rw [loadItems_eq] at h
  obtain ⟨line, -, hload⟩ := mem_filterMap.mp h
  exact parse_wellFormed (loadLine_parse hload)

theorem get_wellFormed {item : Dict} (h : WellFormed (.obj item)) (key : String) {default : Value}
    (hdefault : WellFormed default) : WellFormed (get item key default) := by
  unfold get
  split
  case h_1 k v hfind =>
    exact (fieldsWellFormed_iff item).mp h.2 _ (mem_of_find?_eq_some hfind)
  case h_2 => exact hdefault

theorem sourceItemIds_wellFormed {head : List Dict} (h : ∀ item ∈ head, WellFormed (.obj item)) :
    WellFormed (.arr (sourceItemIds py head)) := by
  refine (allWellFormed_iff _).mpr (fun v hv => ?_)
  obtain ⟨item, hitem, rfl⟩ := mem_map.mp hv
  exact get_wellFormed (h item (mem_of_mem_filter hitem)) "id" trivial

theorem strings_wellFormed (texts : List Text) : WellFormed (.arr (texts.map .str)) := by
  refine (allWellFormed_iff _).mpr (fun v hv => ?_)
  obtain ⟨t, -, rfl⟩ := mem_map.mp hv
  trivial

theorem compactionItem_wellFormed (itemId threadId turnId now summary : Text) (replaced : Nat)
    (pinned : List Text) {ids : List Value} (hids : WellFormed (.arr ids)) :
    WellFormed (.obj (compactionItem itemId threadId turnId now summary replaced pinned ++
      [("sourceItemIds".toList, .arr ids)])) := by
  refine ⟨show (["id", "turnId", "threadId", "role", "status", "kind", "createdAt", "summary",
    "replacedTokens", "pinnedConstraints", "sourceItemIds"].map String.toList).Nodup by decide,
    (fieldsWellFormed_iff _).mpr ?_⟩
  have hpinned := strings_wellFormed pinned
  simpa [compactionItem, WellFormed] using ⟨hpinned, hids⟩

theorem compact_cuts {threadId turnId reason mode now : Text} {history : List Dict}
    {pinned : List Text} {keepRecent stamp : Nat} {result : Compaction}
    (hhistory : ∀ item ∈ history, WellFormed (.obj item)) (hkeep : 0 < keepRecent)
    (h : compact py threadId turnId history pinned keepRecent reason mode stamp now =
      some result) (hreplaced : 0 < result.replacedTokens) :
    let work := trimTrailingToolCalls history
    let cut := work.length - keepCount keepRecent work
    0 < cut ∧ result.next = result.summaryItem :: work.drop cut ∧
      WellFormed (.obj result.summaryItem) := by
  simp only [compact] at h
  split at h
  case isTrue =>
    cases h
    exact absurd hreplaced (Nat.lt_irrefl 0)
  case isFalse hlen =>
    obtain ⟨summary, -, h⟩ := Option.bind_eq_some_iff.mp h
    cases h
    have hkept : keepCount keepRecent (trimTrailingToolCalls history) ≠ 0 := by
      unfold keepCount
      split_ifs <;> omega
    refine ⟨by omega, ?_, compactionItem_wellFormed _ _ _ _ _ _ _ ?_⟩
    · simp only [lastItems, if_neg hkept]
    · refine sourceItemIds_wellFormed py (fun item hitem => hhistory item ?_)
      exact (List.rdropWhile_prefix _ _).subset (mem_of_mem_take hitem)

/-- **One compaction.** The summary is appended to the store and sent in the place of what is
folded. -/
theorem compactIfNeeded_event {c : Thresholds} {files files' : Files} {items next : List Dict}
    {threadId turnId now : Text} {stamp : Nat} {event : Dict}
    (hitems : ∀ item ∈ items, WellFormed (.obj item))
    (h : compactIfNeeded py c files items threadId turnId stamp now =
      some (files', next, some event)) :
    ∃ summary tail, files' = appendItem files threadId summary ∧ next = summary :: tail ∧
      WellFormed (.obj summary) ∧ folded py c items ≠ [] ∧
      folded py c items ++ tail <+: items := by
  unfold compactIfNeeded at h
  split at h
  case h_1 => simp at h
  case h_2 plan hplan =>
    obtain ⟨result, hresult, h⟩ := Option.bind_eq_some_iff.mp h
    split at h
    case isFalse => simp at h
    case isTrue hreplaced =>
      simp only [Option.some.injEq, Prod.mk.injEq] at h
      obtain ⟨rfl, rfl, -⟩ := h
      have hkeep : 0 < plan.keepRecent := by
        rw [(plan_some py hplan).2]
        exact planMode_pos c _
      obtain ⟨hcut, hnext, hwf⟩ := compact_cuts py hitems hkeep hresult hreplaced
      refine ⟨result.summaryItem, _, rfl, hnext, hwf, ?_, ?_⟩
      · simp only [folded, hplan]
        rw [← length_pos_iff, length_take]
        omega
      · simp only [folded, hplan]
        rw [take_append_drop]
        exact rdropWhile_prefix _ _

theorem reloaded_ne {c : Thresholds} {files files' : Files} {threadId turnId now : Text}
    {stamp : Nat} {stored : List TurnDict} {new next : List Dict} {event : Dict}
    (hstored : (files (itemsPath threadId)).getD [] =
      (stored.map TurnDict.fields).flatMap itemLine)
    (hcompact : compactIfNeeded py c files (loadItems files threadId) threadId turnId stamp now =
      some (files', next, some event)) :
    loadItems (appendItems files' threadId new) threadId ≠
      next ++ loadText (new.flatMap itemLine) := by
  obtain ⟨summary, tail, rfl, rfl, hsummary, hne, rest, hrest⟩ :=
    compactIfNeeded_event py (loadItems_wellFormed files threadId) hcompact
  obtain ⟨first, others, hfolded⟩ := exists_cons_of_ne_nil hne
  rw [load_grows hstored, ← hrest, hfolded]
  intro heq
  have hcons := append_cancel_right heq
  simp only [cons_append, List.cons.injEq] at hcons
  obtain ⟨rfl, hcons⟩ := hcons
  have hlen := congrArg List.length hcons
  simp only [length_append] at hlen
  -- then the summary was there before, and its line is read back
  have hmem : first ∈ loadItems files threadId := by
    rw [← hrest, hfolded]
    exact mem_cons_self
  have hunbroken : Unbroken (.obj first) := by
    rw [loadItems_eq, hstored] at hmem
    refine loaded_unbroken _ (fun item hitem => ?_) first hmem
    obtain ⟨d, -, rfl⟩ := mem_map.mp hitem
    exact d.wellFormed
  rw [loadText_line hsummary hunbroken, length_singleton] at hlen
  omega

/-- **Compaction takes no effect.** After a compaction that folded something, what the next step
loads is not the compacted history; what was folded is loaded and folded again; and the estimate
exceeds the old one and that of the items appended since, by the summary itself when its line is
read back. -/
theorem compaction_ineffective (c : Thresholds) (files files' : Files)
    (threadId turnId now : Text) (stamp : Nat) (stored : List TurnDict) (new next : List Dict)
    (event : Dict)
    (hstored : (files (itemsPath threadId)).getD [] =
      (stored.map TurnDict.fields).flatMap itemLine)
    (hcompact : compactIfNeeded py c files (loadItems files threadId) threadId turnId stamp now =
      some (files', next, some event)) :
    let loaded := loadItems files threadId
    let reloaded := loadItems (appendItems files' threadId new) threadId
    let added := loadText (new.flatMap itemLine)
    ¬ reloaded = next ++ added ∧
      (folded py c loaded ≠ [] ∧ folded py c loaded <+: reloaded ∧
        folded py c loaded <+: folded py c reloaded) ∧
      ∀ summary, next.head? = some summary → Unbroken (.obj summary) →
        ¬ estimateItemsTokens py reloaded ≤
          estimateItemsTokens py loaded + estimateItemsTokens py added := by
  intro loaded reloaded added
  obtain ⟨summary, tail, hfiles, hnext, hsummary, hne, hcut⟩ :=
    compactIfNeeded_event py (loadItems_wellFormed files threadId) hcompact
  have hload : reloaded = loaded ++ loadText (itemLine summary) ++ added := by
    show loadItems (appendItems files' threadId new) threadId = _
    rw [hfiles]
    exact load_grows hstored summary new
  refine ⟨reloaded_ne py hstored hcompact, ⟨hne, ?_, ?_⟩, fun item hitem hunbroken => ?_⟩
  · rw [hload, List.append_assoc]
    exact ((List.prefix_append _ tail).trans hcut).trans (List.prefix_append _ _)
  · rw [hload, List.append_assoc]
    exact folded_grows py c loaded _
  · rw [hnext, List.head?_cons] at hitem
    cases hitem
    have hone : 0 < estimateItemsTokens py [summary] := estimate_pos py (by simp)
    rw [hload, loadText_line hsummary hunbroken, estimate_append, estimate_append]
    omega

def message (text : Text) : TurnDict where
  fields := [("id".toList, .str text), ("kind".toList, .str "user_message".toList),
    ("text".toList, .str text)]
  wellFormed := ⟨show (["id", "kind", "text"].map String.toList).Nodup by decide,
    trivial, trivial, trivial, trivial⟩

/-- Two messages in the store. -/
def twoMessages : List TurnDict := [message "one".toList, message "two".toList]

def twoFiles : Files := fun path =>
  if path = itemsPath "t".toList then
    some ((twoMessages.map TurnDict.fields).flatMap itemLine)
  else none

/-- All values of the two messages are strings. -/
def onlyStrings : Python := ⟨print, fun n => n.text == ['0']⟩

/-- The first is folded, the second kept. -/
def twoCompacted : Option (Files × List Dict × Option Dict) :=
  compactIfNeeded onlyStrings ⟨1, 1000⟩ twoFiles (loadItems twoFiles "t".toList) "t".toList
    "u".toList 5 "now".toList

theorem twoCompacted_event :
    ∃ files' next event, twoCompacted = some (files', next, some event) := by
  have hevent : (twoCompacted.bind fun r => r.2.2).isSome := by decide +kernel
  obtain ⟨event, hevent⟩ := Option.isSome_iff_exists.mp hevent
  obtain ⟨⟨files', next, _⟩, hsome, rfl⟩ := Option.bind_eq_some_iff.mp hevent
  exact ⟨files', next, event, hsome⟩

theorem compaction_ineffective_two : ∃ files' next event,
    twoCompacted = some (files', next, some event) ∧
      ¬ loadItems (appendItems files' "t".toList []) "t".toList = next ++ loadText [] ∧
      folded onlyStrings ⟨1, 1000⟩ (loadItems twoFiles "t".toList) <+:
        loadItems (appendItems files' "t".toList []) "t".toList := by
  obtain ⟨files', next, event, hsome⟩ := twoCompacted_event
  have h := compaction_ineffective onlyStrings ⟨1, 1000⟩ twoFiles files' "t".toList "u".toList
    "now".toList 5 twoMessages [] next event rfl hsome
  exact ⟨files', next, event, hsome, h.1, h.2.1.2.1⟩

/-- The items loaded again and the items sent, with the estimates before and after. -/
def twoReloaded : Option (Nat × Nat × Nat × Nat) :=
  twoCompacted.map fun r =>
    ((loadItems r.1 "t".toList).length, r.2.1.length,
      estimateItemsTokens onlyStrings (loadItems twoFiles "t".toList),
      estimateItemsTokens onlyStrings (loadItems r.1 "t".toList))

theorem twoReloaded_eq : twoReloaded = some (3, 2, 2, 99) := by
  decide +kernel

theorem twoCompacted_reloaded : ¬ ∀ files' next event,
    twoCompacted = some (files', next, some event) →
      loadItems files' "t".toList = next ∧
        estimateItemsTokens onlyStrings (loadItems files' "t".toList) ≤
          estimateItemsTokens onlyStrings (loadItems twoFiles "t".toList) := by
  intro h
  obtain ⟨files', next, event, hsome⟩ := twoCompacted_event
  obtain ⟨hloads, hbound⟩ := h files' next event hsome
  have hnumbers := twoReloaded_eq
  simp only [twoReloaded, hsome, Option.map_some, Option.some.injEq, Prod.mk.injEq] at hnumbers
  rw [hloads] at hnumbers
  omega

end MiqroForge.Kun.Compactor
