import MiqroForge.Messages.Compressor

/-!
Calls and results in what a compression returns. The cut may fall inside a run of tool messages;
their own calls are gone, and the repair pass, which looks ids up in the whole list, keeps those
whose id a later call of the tail uses again.

* `compressImpl_paired_iff`: the result is well paired iff no tool message in front of the tail
  has the id of a call in it and no call in the tail lacks an id.
-/

namespace MiqroForge.Messages

open List

/-! ## Pruning keeps the ids -/

/-- A message and what pruning made of it. -/
def Pruned (m m' : Message) : Prop := m' = m ∨ m.role = .tool ∧ m' = prunedResult m

theorem Pruned.role {m m' : Message} (h : Pruned m m') : m'.role = m.role := by
  rcases h with rfl | ⟨ht, rfl⟩
  · rfl
  · exact ht.symm

theorem Pruned.tool {m m' : Message} (h : Pruned m m') : m'.role = .tool ↔ m.role = .tool := by
  rw [h.role]

theorem Pruned.kind {m m' : Message} (h : Pruned m m')
    (hid : m.role = .tool → m.toolCallId.getD "" ≠ "") : m.kind = m'.kind := by
  rcases h with rfl | ⟨ht, rfl⟩
  · rfl
  · have hsome : some (m.toolCallId.getD "") = m.toolCallId := by
      cases hc : m.toolCallId with
      | none => exact absurd (by rw [hc]; rfl) (hid ht)
      | some s => rfl
    simp [Message.kind, ht, prunedResult, hsome]

theorem Pruned.opened {m m' : Message} (h : Pruned m m') :
    Pairing.openedIds Message.kind m' = Pairing.openedIds Message.kind m := by
  rcases h with rfl | ⟨ht, rfl⟩
  · rfl
  · simp [Pairing.openedIds, Message.kind, ht, prunedResult]

section Lists
variable {l l' : List Message} (h : List.Forall₂ Pruned l l')
include h

theorem pruned_mem {m' : Message} (hm : m' ∈ l') : ∃ m ∈ l, Pruned m m' := by
  induction h with
  | nil => cases hm
  | cons hab _ ih =>
    rcases mem_cons.mp hm with rfl | hm
    · exact ⟨_, mem_cons_self .., hab⟩
    · obtain ⟨m, hmem, hpr⟩ := ih hm
      exact ⟨m, mem_cons_of_mem _ hmem, hpr⟩

theorem mem_pruned {m : Message} (hm : m ∈ l) : ∃ m' ∈ l', Pruned m m' := by
  induction h with
  | nil => cases hm
  | cons hab _ ih =>
    rcases mem_cons.mp hm with rfl | hm
    · exact ⟨_, mem_cons_self .., hab⟩
    · obtain ⟨m', hmem, hpr⟩ := ih hm
      exact ⟨m', mem_cons_of_mem _ hmem, hpr⟩

theorem pruned_kinds (hid : ∀ m ∈ l, m.role = .tool → m.toolCallId.getD "" ≠ "") :
    l.map Message.kind = l'.map Message.kind := by
  induction h with
  | nil => rfl
  | cons hab _ ih =>
    rw [map_cons, map_cons, hab.kind (hid _ (mem_cons_self ..)),
      ih fun m hm => hid m (mem_cons_of_mem _ hm)]

end Lists

theorem pruneOldToolResults_pruned (callsJson : List CallEntry → Nat) (budget : Nat)
    (l : List Message) : List.Forall₂ Pruned l (pruneOldToolResults callsJson budget l).2 := by
  induction l with
  | nil => exact .nil
  | cons m l ih =>
    refine .cons ?_ ih
    show Pruned m (if _ then _ else _)
    split
    case isTrue h => exact Or.inr ⟨h.2, rfl⟩
    case isFalse => exact Or.inl rfl

/-! ## The repair pass -/

theorem callIds_eq (m : Message) :
    callIds m = ((Pairing.openedIds Message.kind m).map (·.getD "")).filter (· ≠ "") := by
  unfold callIds Pairing.openedIds Message.kind
  by_cases h : m.role = .assistant ∧ m.toolCalls ≠ []
  · simp [h]
  · by_cases ht : m.role = .tool <;> simp [h, ht]

theorem callIds_of_tool {m : Message} (h : m.role = .tool) : callIds m = [] := by
  simp [callIds, h]

theorem replyId_iff (m : Message) (i : Option String) :
    Pairing.replyId? Message.kind m = some i ↔ m.role = .tool ∧ m.toolCallId = i := by
  constructor
  · intro h
    have ht : m.role = .tool := by
      by_contra hnt
      unfold Pairing.replyId? Message.kind at h
      by_cases ha : m.role = .assistant ∧ m.toolCalls ≠ []
      · simp [ha] at h
      · simp [ha, hnt] at h
    rw [replyId_of_tool m ht, Option.some.injEq] at h
    exact ⟨ht, h⟩
  · rintro ⟨ht, rfl⟩
    exact replyId_of_tool m ht

theorem mem_callIds {m : Message} {i : String} :
    i ∈ callIds m ↔ i ≠ "" ∧ ∃ o ∈ Pairing.openedIds Message.kind m, o.getD "" = i := by
  rw [callIds_eq, mem_filter, mem_map, decide_eq_true_eq, and_comm]

theorem ne_empty_of_mem_callIds {l : List Message} {i : String} (h : i ∈ l.flatMap callIds) :
    i ≠ "" := by
  obtain ⟨m, -, hm⟩ := mem_flatMap.mp h
  exact (mem_callIds.mp hm).1

theorem sanitizeToolPairs_named (l : List Message) (m : Message) (hm : m ∈ sanitizeToolPairs l)
    (ht : m.role = .tool) : m.toolCallId.getD "" ≠ "" := by
  obtain ⟨a, ha, hma⟩ := mem_flatMap.mp hm
  split at hma
  · split at hma
    case isTrue hid =>
      rw [mem_singleton.mp hma]
      exact ne_empty_of_mem_callIds hid
    case isFalse => cases hma
  case isFalse hna =>
    rcases mem_cons.mp hma with rfl | hstub
    · exact absurd ht hna
    · obtain ⟨i, hi, rfl⟩ := mem_map.mp hstub
      exact (mem_callIds.mp (mem_of_mem_filter hi)).1

theorem mem_sanitizeToolPairs {l : List Message} {m : Message} (hm : m ∈ l)
    (ht : m.role ≠ .tool) : m ∈ sanitizeToolPairs l := by
  refine mem_flatMap.mpr ⟨m, hm, ?_⟩
  rw [if_neg ht]
  exact mem_cons_self ..

/-- No call of the messages is without an id, or has the empty one. -/
def Named (l : List Message) : Prop :=
  ∀ m ∈ l, ∀ i ∈ Pairing.openedIds Message.kind m, i.getD "" ≠ ""

theorem named_of_paired (l : List Message) (h : WellPaired (sanitizeToolPairs l)) : Named l := by
  intro m hm i hi hempty
  have hnt : m.role ≠ .tool := by
    intro ht
    simp [Pairing.openedIds, Message.kind, ht] at hi
  obtain ⟨a, ha, hreply⟩ := (h.matched i).mpr ⟨m, mem_sanitizeToolPairs hm hnt, hi⟩
  obtain ⟨hat, rfl⟩ := (replyId_iff a i).mp hreply
  exact sanitizeToolPairs_named l a ha hat hempty

section Parts
variable (calls results : List String)

/-- What the pass makes of one message, given the ids of the whole list. -/
def sanitizeOne (m : Message) : List Message :=
  if m.role = .tool then if m.toolCallId.getD "" ∈ calls then [m] else []
  else m :: ((callIds m).filter (· ∉ results)).map stubResult

theorem sanitizeToolPairs_eq (l : List Message) : sanitizeToolPairs l =
    l.flatMap (sanitizeOne (l.flatMap callIds) (l.filterMap resultId)) := rfl

theorem sanitizeOne_tools (l : List Message) (hl : ∀ m ∈ l, m.role = .tool) :
    l.flatMap (sanitizeOne calls results) = l.filter fun m => m.toolCallId.getD "" ∈ calls := by
  induction l with
  | nil => rfl
  | cons m l ih =>
    have hm := hl m (mem_cons_self ..)
    rw [flatMap_cons, ih fun a ha => hl a (mem_cons_of_mem _ ha), filter_cons]
    unfold sanitizeOne
    rw [if_pos hm]
    by_cases hc : m.toolCallId.getD "" ∈ calls <;> simp [hc]

theorem sanitizeOne_id (l : List Message)
    (htool : ∀ m ∈ l, m.role = .tool → m.toolCallId.getD "" ∈ calls)
    (hcall : ∀ m ∈ l, ∀ i ∈ callIds m, i ∈ results) :
    l.flatMap (sanitizeOne calls results) = l := by
  induction l with
  | nil => rfl
  | cons m l ih =>
    rw [flatMap_cons, ih (fun a ha => htool a (mem_cons_of_mem _ ha))
      (fun a ha => hcall a (mem_cons_of_mem _ ha))]
    unfold sanitizeOne
    by_cases ht : m.role = .tool
    · rw [if_pos ht, if_pos (htool m (mem_cons_self ..) ht)]
      rfl
    · have hnone : (callIds m).filter (· ∉ results) = [] := by
        rw [filter_eq_nil_iff]
        intro i hi
        simpa using hcall m (mem_cons_self ..) i hi
      rw [if_neg ht, hnone]
      rfl

end Parts

theorem paired_matched (l : List Message) (h : WellPaired l) (hn : Named l) :
    (∀ m ∈ l, m.role = .tool → m.toolCallId.getD "" ∈ l.flatMap callIds) ∧
      ∀ m ∈ l, ∀ i ∈ callIds m, i ∈ l.filterMap resultId := by
  constructor
  · intro m hm ht
    obtain ⟨o, ho, hi⟩ := (h.matched m.toolCallId).mp ⟨m, hm, replyId_of_tool m ht⟩
    exact mem_flatMap.mpr ⟨o, ho, mem_callIds.mpr ⟨hn o ho _ hi, _, hi, rfl⟩⟩
  · intro m hm i hi
    obtain ⟨hne, o, ho, rfl⟩ := mem_callIds.mp hi
    obtain ⟨a, ha, hreply⟩ := (h.matched o).mpr ⟨m, hm, ho⟩
    obtain ⟨hat, rfl⟩ := (replyId_iff a o).mp hreply
    refine mem_filterMap.mpr ⟨a, ha, ?_⟩
    unfold resultId
    rw [if_pos hat]
    generalize a.toolCallId = o at hne
    cases o with
    | none => exact absurd rfl hne
    | some s => simpa [Option.filter] using hne

/-! ## The tail -/

theorem plan_tail (callsJson : List CallEntry → Nat) (limit : Nat) (messages : List Message)
    (p : Plan) (hp : WellPaired messages) (h : plan callsJson limit messages = some p) :
    (∀ m ∈ p.systemMsgs, m.role = .system) ∧
      ∃ rs s, p.tail = rs ++ s ∧ (∀ m ∈ rs, m.role = .tool) ∧
        (∀ m ∈ s.head?, m.role ≠ .tool) ∧ (Named s → WellPaired s) := by
  unfold plan at h
  simp only [] at h
  split at h
  · cases h
  split at h
  · cases h
  cases h
  refine ⟨fun m hm => by simpa using (mem_filter.mp hm).2, ?_⟩
  simp only [drop_drop]
  generalize headProtectMsgs + _ = k
  have hsystem : ∀ m : Message, decide (m.role ≠ .system) = false → m.kind = .plain := by
    intro m hm
    have hrole : m.role = .system := by simpa using hm
    simp [Message.kind, hrole]
  obtain ⟨rs, s, hdrop, hrs, hs⟩ := (hp.filter _ hsystem).drop k
  have hpruned := forall₂_drop k (pruneOldToolResults_pruned callsJson 8000
    (messages.filter fun m => decide (m.role ≠ .system)))
  rw [hdrop] at hpruned
  generalize (pruneOldToolResults callsJson 8000
    (messages.filter fun m => decide (m.role ≠ .system))).2.drop k = out at hpruned ⊢
  have hleft := forall₂_take rs.length hpruned
  have hright := forall₂_drop rs.length hpruned
  rw [take_left] at hleft
  rw [drop_left] at hright
  refine ⟨out.take rs.length, out.drop rs.length, (take_append_drop ..).symm,
    fun m hm => ?_, fun m hm => ?_, fun hn => ?_⟩
  · obtain ⟨a, ha, hpr⟩ := pruned_mem hleft hm
    exact hpr.tool.mpr ((isReply_iff a).mp (hrs a ha))
  · generalize out.drop rs.length = rest at hright hm
    cases hright with
    | nil => cases hm
    | cons hab _ =>
      cases hm
      have hhead := hs.head _ _ rfl
      rw [isReply_eq, decide_eq_false_iff_not] at hhead
      exact fun ht => hhead (hab.tool.mp ht)
  · have hnamed : Named s := by
      intro m hm i hi
      obtain ⟨m', hm', hpr⟩ := mem_pruned hright hm
      exact hn m' hm' i (hpr.opened ▸ hi)
    refine hs.congr (pruned_kinds hright fun m hm ht => ?_)
    obtain ⟨o, ho, hi⟩ := (hs.matched m.toolCallId).mp ⟨m, hm, replyId_of_tool m ht⟩
    exact hnamed o ho _ hi

/-- What the repair pass needs of a tail: its calls have ids, and no tool message in front of it
has the id of one of them. -/
structure CutClean (tail : List Message) : Prop where
  named : Named tail
  orphans : ∀ m ∈ tail.takeWhile (·.role = .tool), m.toolCallId.getD "" ∉ tail.flatMap callIds

theorem wellPaired_plain_append (l m : List Message) (hl : ∀ a ∈ l, a.kind = .plain) :
    WellPaired (l ++ m) ↔ WellPaired m := by
  induction l with
  | nil => rfl
  | cons a l ih =>
    rw [cons_append, WellPaired, Pairing.paired_plain_cons _ _ _ (hl a (mem_cons_self ..)),
      ← ih fun b hb => hl b (mem_cons_of_mem _ hb)]

/-- **The repair pass**, on plain messages, a run of tool messages and a paired list. -/
theorem sanitized_paired_iff (plain rs s : List Message) (hplain : ∀ m ∈ plain, m.role = .system)
    (hrs : ∀ m ∈ rs, m.role = .tool) (hhead : ∀ m ∈ s.head?, m.role ≠ .tool)
    (hs : Named s → WellPaired s) :
    WellPaired (sanitizeToolPairs (plain ++ (rs ++ s))) ↔ CutClean (rs ++ s) := by
  have hfront : (rs ++ s).takeWhile (·.role = .tool) = rs := by
    rw [takeWhile_append_of_pos fun m hm => by simpa using hrs m hm]
    cases s with
    | nil => simp
    | cons a s =>
      have ha := hhead a rfl
      simp [ha]
  have hcallsPlain : plain.flatMap callIds = [] := by
    rw [flatMap_eq_nil_iff]
    intro m hm
    simp [callIds, hplain m hm]
  have hcallsRs : rs.flatMap callIds = [] :=
    flatMap_eq_nil_iff.mpr fun m hm => callIds_of_tool (hrs m hm)
  have hopenRs : ∀ m ∈ rs, Pairing.openedIds Message.kind m = [] := by
    intro m hm
    simp [Pairing.openedIds, Message.kind, hrs m hm]
  have hnamed : Named (rs ++ s) ↔ Named s := by
    constructor
    · exact fun h m hm => h m (mem_append_right _ hm)
    · intro h m hm i hi
      rcases mem_append.mp hm with hm | hm
      · rw [hopenRs m hm] at hi
        cases hi
      · exact h m hm i hi
  by_cases hn : Named s
  · have hp := hs hn
    obtain ⟨htool, hcall⟩ := paired_matched s hp hn
    -- the calls and the results the pass collects
    have hcalls : (plain ++ (rs ++ s)).flatMap callIds = s.flatMap callIds := by
      rw [flatMap_append, flatMap_append, hcallsPlain, hcallsRs]
      rfl
    have hplainKeep : plain.flatMap (sanitizeOne (s.flatMap callIds)
        ((plain ++ (rs ++ s)).filterMap resultId)) = plain := by
      apply sanitizeOne_id
      · intro m hm ht
        rw [hplain m hm] at ht
        cases ht
      · intro m hm i hi
        simp [callIds, hplain m hm] at hi
    have hsKeep : s.flatMap (sanitizeOne (s.flatMap callIds)
        ((plain ++ (rs ++ s)).filterMap resultId)) = s := by
      refine sanitizeOne_id _ _ s htool fun m hm i hi => ?_
      rw [filterMap_append, filterMap_append]
      exact mem_append_right _ (mem_append_right _ (hcall m hm i hi))
    rw [sanitizeToolPairs_eq, hcalls, flatMap_append, flatMap_append, hplainKeep, hsKeep,
      sanitizeOne_tools _ _ rs hrs, wellPaired_plain_append _ _ fun m hm => by
        simp [Message.kind, hplain m hm]]
    have horphans : CutClean (rs ++ s) ↔
        (rs.filter fun m => m.toolCallId.getD "" ∈ s.flatMap callIds) = [] := by
      rw [filter_eq_nil_iff]
      constructor
      · intro h m hm
        have hm' := h.orphans m (hfront.symm ▸ hm)
        rw [flatMap_append, hcallsRs, nil_append] at hm'
        simpa using hm'
      · intro h
        refine ⟨hnamed.mpr hn, fun m hm => ?_⟩
        rw [hfront] at hm
        rw [flatMap_append, hcallsRs, nil_append]
        simpa using h m hm
    rw [horphans]
    cases hf : rs.filter fun m => m.toolCallId.getD "" ∈ s.flatMap callIds with
    | nil => exact iff_of_true hp rfl
    | cons a kept =>
      have ha : a ∈ rs := (mem_filter.mp (hf ▸ mem_cons_self ..)).1
      refine iff_of_false ?_ (by simp)
      exact Pairing.not_paired_replies _ _ _ ((isReply_iff a).mpr (hrs a ha))
  · refine iff_of_false (fun h => hn ?_) fun h => hn (hnamed.mp h.named)
    intro m hm
    exact named_of_paired _ h m (by simp [hm])

/-- **Which compressions return a paired list.** From a paired conversation, for every summary and
every limit, the result is well paired iff the tail that is kept is clean. -/
theorem compressImpl_paired_iff (callsJson : List CallEntry → Nat) (c c' : Compressor)
    (messages result : List Message) (model : String) (hp : WellPaired messages)
    (h : compressImpl callsJson c messages model = (.ok result, c')) :
    WellPaired result ↔
      ∀ p, plan callsJson c.contextLimitChars messages = some p → CutClean p.tail := by
  unfold compressImpl at h
  cases hplan : plan callsJson c.contextLimitChars messages with
  | none =>
    rw [hplan] at h
    obtain ⟨h, -⟩ := Prod.mk.inj h
    obtain rfl := Except.ok.inj h
    exact iff_of_true hp fun p hnone => by cases hnone
  | some p =>
    rw [hplan] at h
    simp only [] at h
    split at h
    · cases (Prod.mk.inj h).1
    case h_2 summary _ _ =>
      obtain ⟨h, -⟩ := Prod.mk.inj h
      obtain rfl := Except.ok.inj h
      obtain ⟨hsystem, rs, s, htail, hrs, hhead, hs⟩ := plan_tail _ _ _ _ hp hplan
      have hplain : ∀ m ∈ p.systemMsgs ++ [summaryMsg summary], m.role = .system := by
        intro m hm
        rcases List.mem_append.mp hm with hm | hm
        · exact hsystem m hm
        · rw [List.mem_singleton.mp hm]
          rfl
      rw [htail, sanitized_paired_iff _ rs s hplain hrs hhead hs, ← htail]
      exact ⟨fun hc q hq => Option.some.inj hq ▸ hc, fun hc => hc p rfl⟩

/-! ## A reused id -/

def readCall (id : String) : Message :=
  { role := .assistant, toolCalls := [.call (some id) "read_file" "\x7b\x7d"] }

def readResult (id content : String) : Message :=
  { role := .tool, toolCallId := some id, name := some "read_file", content := some content }

def user (content : String) : Message := { role := .user, content := some content }

/-- Two tool calls in a row, the second with the result `text`. -/
def twoReads (id text : String) : List Message :=
  [user "1", user "2", user "3", user "4", user "5", readCall "c1", readResult "c1" "a",
    readCall id, readResult id text]

def longText : String := String.ofList (List.replicate 5000 'x')

theorem longText_length : longText.length = 5000 :=
  String.length_ofList.trans length_replicate

/-- The length of the JSON of one such call. -/
def readCallJson (_ : List CallEntry) : Nat := 88

section Long
variable (id : String) {text : String} (hlength : text.length = 5000)
include hlength

theorem twoReads_plan : plan readCallJson 5000 (twoReads id text) =
    some ⟨[], [user "1", user "2", user "3", user "4", user "5", readCall "c1"],
      [readResult "c1" "a", readCall id, readResult id text]⟩ := by
  have hlong : msgTokens readCallJson (readResult id text) = 2000 := by
    simp [msgTokens, msgChars, readResult, hlength, charTokens]
  have hcall : ∀ i, msgTokens readCallJson (readCall i) = 35 := by
    intro i
    simp [msgTokens, msgChars, readCall, readCallJson, charTokens]
  have hshort : msgTokens readCallJson (readResult "c1" "a") = 0 := rfl
  have hprune : (pruneOldToolResults readCallJson 8000 (twoReads id text)).2 =
      twoReads id text := by
    simp only [twoReads, pruneOldToolResults, hlong, hcall, hshort]
    rfl
  have hnone : (twoReads id text).filter (fun m => decide (m.role ≠ .system)) =
      twoReads id text := rfl
  have hcut : findTailCut readCallJson 2000 ((twoReads id text).drop 4) = 2 := by
    have hlast : (((twoReads id text).drop 4)[4]?.map (msgTokens readCallJson)).getD 0 = 2000 :=
      hlong
    show min (tailLoop readCallJson 2000 ((twoReads id text).drop 4) 5 0 5) 2 = 2
    rw [tailLoop, hlast]
    rfl
  have hbudget : tailTokenBudget readCallJson 5000 (twoReads id text) = 2000 := by
    simp [tailTokenBudget, charTokens, summaryTokensCeiling, minSummaryTokens]
  unfold plan headProtectMsgs
  simp only [hnone, hprune, hbudget, hcut]
  rfl

/-- A compressor whose summaries are the same text, with this limit. -/
def summarizer : Compressor := { llmCall := fun _ _ => .ok "done", contextLimitChars := 5000 }

theorem twoReads_compressed : ∃ c', compressImpl readCallJson summarizer (twoReads id text) "m" =
    (.ok (sanitizeToolPairs [summaryMsg "done", readResult "c1" "a", readCall id,
      readResult id text]), c') := by
  unfold compressImpl
  rw [show summarizer.contextLimitChars = 5000 from rfl, twoReads_plan id hlength]
  exact ⟨_, rfl⟩

end Long

theorem read_paired (id content : String) (l : List Message) (hl : WellPaired l) :
    WellPaired (readCall id :: readResult id content :: l) := by
  have hopen : (readCall id).kind = .opener [some id] := rfl
  have hreply : ∀ a ∈ [readResult id content], Pairing.isReply Message.kind a = true := by
    intro a ha
    rw [mem_singleton.mp ha]
    rfl
  have hids : Pairing.replyIds Message.kind [readResult id content] = [some id] := rfl
  exact hl.group_append hopen hreply (hids.symm ▸ ⟨by simp, by simp, fun _ => Iff.rfl⟩)

theorem twoReads_paired (id text : String) : WellPaired (twoReads id text) := by
  apply (wellPaired_plain_append [user "1", user "2", user "3", user "4", user "5"] _ ?_).mpr
  · exact read_paired _ _ _ (read_paired _ _ _ (Pairing.paired_nil _))
  · intro m hm
    simp only [mem_cons, not_mem_nil, or_false] at hm
    rcases hm with rfl | rfl | rfl | rfl | rfl <;> rfl

theorem compressImpl_paired_iff_fresh : ∃ result c',
    compressImpl readCallJson summarizer (twoReads "c2" longText) "m" = (.ok result, c') ∧
      WellPaired result := by
  have hlength := longText_length
  generalize longText = text at hlength ⊢
  obtain ⟨c', h⟩ := twoReads_compressed "c2" hlength
  refine ⟨_, c', h, (compressImpl_paired_iff readCallJson summarizer c' (twoReads "c2" text) _
    "m" (twoReads_paired "c2" text) h).mpr fun p hp => ?_⟩
  rw [show summarizer.contextLimitChars = 5000 from rfl, twoReads_plan "c2" hlength] at hp
  cases hp
  refine ⟨?_, ?_⟩
  · intro m hm i hi
    simp only [List.mem_cons, List.not_mem_nil, or_false] at hm
    rcases hm with rfl | rfl | rfl
    · cases hi
    · rw [List.mem_singleton.mp hi]
      decide
    · cases hi
  · intro m hm
    obtain rfl : m = readResult "c1" "a" := List.mem_singleton.mp hm
    simp [callIds, readCall, readResult, tcIds]

/-- The result of the first call is kept in front of the second, whose id is the same. -/
theorem reusedId_unpaired : ∃ result c', WellPaired (twoReads "c1" longText) ∧
    compressImpl readCallJson summarizer (twoReads "c1" longText) "m" = (.ok result, c') ∧
      result = [summaryMsg "done", readResult "c1" "a", readCall "c1", readResult "c1" longText] ∧
      ¬ WellPaired result := by
  have hlength := longText_length
  generalize longText = text at hlength ⊢
  obtain ⟨c', h⟩ := twoReads_compressed "c1" hlength
  refine ⟨_, c', twoReads_paired "c1" text, h, rfl, fun hp => ?_⟩
  exact Pairing.not_paired_replies _ _ _ rfl ((Pairing.paired_plain_cons _ _ _ rfl).mp hp)

end MiqroForge.Messages
