import MiqroForge.Messages.Context
import Mathlib.Data.List.Count

/-!
What `_prune_unpaired_tool_messages` returns, said of the places of the messages: a tool message
stands in the block behind an assistant message that names its id, and every named id is answered
once.
-/

namespace MiqroForge.Messages

open List

/-- `role == "assistant" and msg.get("tool_calls")`. -/
def Message.Calls (m : Message) : Prop := m.role = .assistant ∧ m.toolCalls ≠ []

instance (m : Message) : Decidable m.Calls := inferInstanceAs (Decidable (_ ∧ _))

/-- The tool messages directly behind a message. -/
def toolBlock (after : List Message) : List Message := after.takeWhile fun m => m.role = .tool

structure Formed (msgs : List Message) : Prop where
  tool : ∀ before m after, msgs = before ++ m :: after → m.role = .tool →
    ∃ front call run, before = front ++ call :: run ∧ call.Calls ∧ (∀ r ∈ run, r.role = .tool) ∧
      m.toolCallId ∈ tcIds call
  calls : ∀ before call after, msgs = before ++ call :: after → call.Calls →
    tcIds call ≠ [] ∧ ∀ id ∈ tcIds call, ((toolBlock after).map Message.toolCallId).count id = 1

theorem kind_calls {m : Message} (h : m.Calls) : m.kind = .opener (tcIds m) := by
  unfold Message.Calls at h
  simp [Message.kind, h]

theorem calls_of_kind {m : Message} {ids : List (Option String)} (h : m.kind = .opener ids) :
    m.Calls ∧ tcIds m = ids := by
  unfold Message.kind at h
  split at h
  · rename_i hc
    exact ⟨hc, by simpa using h⟩
  · split at h <;> cases h

theorem Message.Calls.not_tool {m : Message} (h : m.Calls) : m.role ≠ .tool := by
  rw [h.1]
  decide

theorem kind_tool {m : Message} (h : m.role = .tool) : m.kind = .reply m.toolCallId := by
  simp [Message.kind, h]

theorem toolBlock_append {run rest : List Message} (hrun : ∀ m ∈ run, m.role = .tool)
    (hrest : ∀ m ∈ rest.head?, m.role ≠ .tool) : toolBlock (run ++ rest) = run := by
  unfold toolBlock
  rw [takeWhile_append_of_pos (by simpa using hrun)]
  cases rest with
  | nil => simp
  | cons m rest => simp [hrest m rfl]

/-! ## Paired lists -/

theorem formed_nil : Formed [] :=
  ⟨fun before m after h => by simp at h, fun before call after h => by simp at h⟩

theorem Formed.cons_plain {a : Message} {l : List Message} (htool : a.role ≠ .tool)
    (hcalls : ¬ a.Calls) (h : Formed l) : Formed (a :: l) where
  tool before m after heq hm := by
    cases before with
    | nil =>
      obtain ⟨rfl, -⟩ := List.cons.inj heq
      exact absurd hm htool
    | cons b before =>
      obtain ⟨rfl, htail⟩ := List.cons.inj heq
      obtain ⟨front, call, run, rfl, hrest⟩ := h.tool before m after htail hm
      exact ⟨a :: front, call, run, rfl, hrest⟩
  calls before call after heq hcall := by
    cases before with
    | nil =>
      obtain ⟨rfl, -⟩ := List.cons.inj heq
      exact absurd hcall hcalls
    | cons b before =>
      obtain ⟨rfl, htail⟩ := List.cons.inj heq
      exact h.calls before call after htail hcall

theorem place_append {run l before after : List Message} {m : Message}
    (h : run ++ l = before ++ m :: after) :
    (∃ rest, run = before ++ m :: rest ∧ after = rest ++ l) ∨
      ∃ before', before = run ++ before' ∧ l = before' ++ m :: after := by
  rcases append_eq_append_iff.mp h with ⟨before', rfl, hl⟩ | ⟨rest, rfl, hl⟩
  · exact .inr ⟨before', rfl, hl⟩
  · cases rest with
    | nil => exact .inr ⟨[], by simp, by simpa using hl.symm⟩
    | cons r rest =>
      obtain ⟨rfl, rfl⟩ := List.cons.inj hl
      exact .inl ⟨rest, rfl, rfl⟩

theorem Formed.group {o : Message} {run l : List Message} (ho : o.Calls)
    (hrun : ∀ r ∈ run, r.role = .tool)
    (hanswered : Pairing.Answered (tcIds o) (run.map Message.toolCallId))
    (hhead : ∀ m ∈ l.head?, m.role ≠ .tool) (h : Formed l) : Formed (o :: run ++ l) where
  tool before m after heq hm := by
    cases before with
    | nil =>
      obtain ⟨rfl, -⟩ := List.cons.inj heq
      exact absurd hm ho.not_tool
    | cons b before =>
      obtain ⟨rfl, htail⟩ : o = b ∧ run ++ l = before ++ m :: after := by simpa using heq
      rcases place_append htail with ⟨rest, rfl, -⟩ | ⟨before', rfl, hl⟩
      · refine ⟨[], o, before, rfl, ho, fun r hr => hrun r (by simp [hr]), ?_⟩
        exact (hanswered.2.2 _).mp (mem_map_of_mem (by simp))
      · obtain ⟨front, call, run', rfl, hrest⟩ := h.tool before' m after hl hm
        exact ⟨o :: run ++ front, call, run', by simp, hrest⟩
  calls before call after heq hcall := by
    cases before with
    | nil =>
      obtain ⟨rfl, rfl⟩ : o = call ∧ run ++ l = after := by simpa using heq
      refine ⟨hanswered.1, fun id hid => ?_⟩
      rw [toolBlock_append hrun hhead]
      exact count_eq_one_of_mem hanswered.2.1 ((hanswered.2.2 id).mpr hid)
    | cons b before =>
      obtain ⟨rfl, htail⟩ : o = b ∧ run ++ l = before ++ call :: after := by simpa using heq
      rcases place_append htail with ⟨rest, rfl, -⟩ | ⟨before', rfl, hl⟩
      · exact absurd (hrun call (by simp)) hcall.not_tool
      · exact h.calls before' call after hl hcall

theorem head_not_tool {l : List Message} (h : WellPaired l) : ∀ m ∈ l.head?, m.role ≠ .tool := by
  intro m hm htool
  have hreply := (isReply_iff m).mpr htool
  rw [h.head Message.kind m hm] at hreply
  cases hreply

theorem formed_of_paired {l : List Message} (h : WellPaired l) : Formed l := by
  induction l, h using Pairing.Paired.induction with
  | nil => exact formed_nil
  | plain a l ha hl ih =>
    refine ih.cons_plain (fun htool => ?_) fun hcalls => ?_
    · rw [kind_tool htool] at ha
      cases ha
    · rw [kind_calls hcalls] at ha
      cases ha
  | group o ids rs l ho hr ha hl ih =>
    obtain ⟨hcalls, rfl⟩ := calls_of_kind ho
    have htool : ∀ r ∈ rs, r.role = .tool := fun r hmem => (isReply_iff r).mp (hr r hmem)
    rw [replyIds_eq_map rs htool] at ha
    exact ih.group hcalls htool ha (head_not_tool hl)

/-! ## Formed lists -/

theorem Formed.tail {a : Message} {l : List Message} (hcalls : ¬ a.Calls) (h : Formed (a :: l)) :
    Formed l where
  tool before m after heq hm := by
    obtain ⟨front, call, run, hfront, hcall, hrest⟩ :=
      h.tool (a :: before) m after (by rw [heq]; rfl) hm
    cases front with
    | nil =>
      obtain ⟨rfl, -⟩ := List.cons.inj hfront
      exact absurd hcall hcalls
    | cons b front =>
      exact ⟨front, call, run, (List.cons.inj hfront).2, hcall, hrest⟩
  calls before call after heq hcall := h.calls (a :: before) call after (by rw [heq]; rfl) hcall

theorem Formed.answers {o m : Message} {run after : List Message}
    (hrun : ∀ r ∈ run, r.role = .tool) (hm : m.role = .tool) (h : Formed (o :: run ++ m :: after)) :
    m.toolCallId ∈ tcIds o := by
  obtain ⟨front, call, run', hfront, hcall, -, hid⟩ := h.tool (o :: run) m after rfl hm
  cases front with
  | nil =>
    obtain ⟨rfl, -⟩ := List.cons.inj hfront
    exact hid
  | cons b front =>
    have hmem : call ∈ run := by
      rw [(List.cons.inj hfront).2]
      simp
    exact absurd (hrun call hmem) hcall.not_tool

theorem Formed.behind {o : Message} {run l : List Message} (hhead : ∀ m ∈ l.head?, m.role ≠ .tool)
    (h : Formed (o :: run ++ l)) : Formed l where
  tool before m after heq hm := by
    obtain ⟨front, call, run', hfront, hcall, hrun', hid⟩ :=
      h.tool (o :: run ++ before) m after (by rw [heq, append_assoc]) hm
    rcases place_append hfront with ⟨rest, -, hrest⟩ | ⟨before', -, hl⟩
    · -- the first message of `l` would be a tool message
      cases before with
      | nil =>
        rw [heq] at hhead
        exact absurd hm (hhead m rfl)
      | cons b before =>
        rw [heq] at hhead
        exact absurd (hrun' b (by rw [hrest]; simp)) (hhead b rfl)
    · exact ⟨before', call, run', hl, hcall, hrun', hid⟩
  calls before call after heq hcall :=
    h.calls (o :: run ++ before) call after (by rw [heq, append_assoc]) hcall

theorem paired_of_formed (l : List Message) (h : Formed l) : WellPaired l := by
  induction hn : l.length using Nat.strong_induction_on generalizing l with
  | _ n ih =>
    cases l with
    | nil => exact Pairing.paired_nil Message.kind
    | cons a rest =>
      rw [length_cons] at hn
      by_cases htool : a.role = .tool
      · obtain ⟨front, call, run, hfront, -⟩ := h.tool [] a rest rfl htool
        cases front <;> cases hfront
      · by_cases hcalls : a.Calls
        · let run := toolBlock rest
          let behind := rest.dropWhile fun m => m.role = .tool
          have hsplit : run ++ behind = rest := takeWhile_append_dropWhile
          have hrun : ∀ m ∈ run, m.role = .tool := fun m hm => by
            simpa using mem_takeWhile_imp hm
          have hhead : ∀ m ∈ behind.head?, m.role ≠ .tool := fun m hm => by
            have := head?_dropWhile_not (fun m : Message => m.role = .tool) rest
            rw [Option.mem_def.mp hm] at this
            simpa using this
          have hlen : behind.length ≤ rest.length := (dropWhile_sublist _).length_le
          rw [← hsplit, ← cons_append] at h ⊢
          have hbehind := ih behind.length (by omega) behind (h.behind hhead) rfl
          refine hbehind.group_append (kind_calls hcalls)
            (fun m hm => (isReply_iff m).mpr (hrun m hm)) ?_
          obtain ⟨hne, hcount⟩ := h.calls [] a (run ++ behind) rfl hcalls
          rw [toolBlock_append hrun hhead] at hcount
          rw [replyIds_eq_map run hrun]
          have hmem : ∀ id ∈ run.map Message.toolCallId, id ∈ tcIds a := by
            intro id hid
            obtain ⟨m, hm, rfl⟩ := mem_map.mp hid
            obtain ⟨before, after, hrunsplit⟩ := append_of_mem hm
            rw [hrunsplit, cons_append, append_assoc] at h
            exact Formed.answers (fun r hr => hrun r (by rw [hrunsplit]; simp [hr])) (hrun m hm) h
          refine ⟨hne, nodup_iff_count_le_one.mpr fun id => ?_,
            fun id => ⟨hmem id, fun hid => ?_⟩⟩
          · by_cases hid : id ∈ run.map Message.toolCallId
            · exact (hcount id (hmem id hid)).le
            · rw [count_eq_zero_of_not_mem hid]
              exact Nat.zero_le 1
          · exact count_pos_iff.mp (by rw [hcount id hid]; exact Nat.one_pos)
        · have hplain : a.kind = .plain := by
            unfold Message.Calls at hcalls
            simp [Message.kind, hcalls, htool]
          exact (ih rest.length (by omega) rest (h.tail hcalls) rfl).cons_plain hplain

/-- **The library's pairing is this form.** -/
theorem formed_iff_paired (l : List Message) : Formed l ↔ WellPaired l :=
  ⟨paired_of_formed l, formed_of_paired⟩

/-! ## Pruning -/

theorem isPlain_eq (m : Message) :
    Pairing.isPlain Message.kind m = decide (m.role ≠ .tool ∧ ¬ m.Calls) := by
  unfold Pairing.isPlain Message.kind Message.Calls
  by_cases hcalls : m.role = .assistant ∧ m.toolCalls ≠ []
  · simp [hcalls]
  · by_cases htool : m.role = .tool <;> simp [hcalls, htool]

/-- **Pair pruning.** What is returned is a part of the input in its order and is formed, a formed
list is returned as it is, only tool messages and messages with calls are dropped, and pruning again
drops nothing. -/
theorem pruneUnpairedToolMessages_formed (msgs : List Message) :
    (pruneUnpairedToolMessages msgs).Sublist msgs ∧
      Formed (pruneUnpairedToolMessages msgs) ∧
      (Formed msgs → pruneUnpairedToolMessages msgs = msgs) ∧
      ((pruneUnpairedToolMessages msgs).filter fun m => decide (m.role ≠ .tool ∧ ¬ m.Calls)) =
        (msgs.filter fun m => decide (m.role ≠ .tool ∧ ¬ m.Calls)) ∧
      pruneUnpairedToolMessages (pruneUnpairedToolMessages msgs) =
        pruneUnpairedToolMessages msgs := by
  have hplain : Pairing.isPlain Message.kind = fun m => decide (m.role ≠ .tool ∧ ¬ m.Calls) :=
    funext isPlain_eq
  simp only [pruneUnpairedToolMessages_eq, formed_iff_paired]
  refine ⟨Pairing.prune_sublist _ msgs, Pairing.paired_prune _ msgs, fun h => ?_, ?_, ?_⟩
  · exact (Pairing.prune_eq_self_iff _ msgs).mpr h
  · rw [← hplain]
    exact Pairing.prune_plain _ msgs
  · exact (Pairing.prune_eq_self_iff _ _).mpr (Pairing.paired_prune _ msgs)

end MiqroForge.Messages
