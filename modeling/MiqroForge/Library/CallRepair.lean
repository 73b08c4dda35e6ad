import Mathlib.Data.List.Basic

/-!
Calls and the replies to them in a list: replies to no call are dropped, and a stub is put behind
each call that no reply names. Whether the list is paired then is a matter of each identifier's own
calls and replies.
-/

namespace CallRepair

open List

/-- What an element is to the pairing. -/
inductive Role (κ : Type) where
  | call (id : κ)
  | reply (id : κ)
  | other
  deriving DecidableEq

variable {α κ : Type} [DecidableEq κ] (role : α → Role κ)

def call? (a : α) : Option κ :=
  match role a with
  | .call k => some k
  | _ => none

def reply? (a : α) : Option κ :=
  match role a with
  | .reply k => some k
  | _ => none

def callIds (l : List α) : List κ := l.filterMap (call? role)

def replyIds (l : List α) : List κ := l.filterMap (reply? role)

/-- What is left of an element, and what is put behind it. -/
def mend (calls replies : List κ) (stub : α → α) (a : α) : List α :=
  match role a with
  | .call k => if k ∈ replies then [a] else [a, stub a]
  | .reply k => if k ∈ calls then [a] else []
  | .other => [a]

def repair (stub : α → α) (l : List α) : List α :=
  l.flatMap (mend role (callIds role l) (replyIds role l) stub)

/-- Each call has exactly one reply behind it, and each reply a call in front of it. -/
structure Paired (l : List α) : Prop where
  answered : ∀ {before after : List α} {a : α} {k : κ}, l = before ++ a :: after →
    role a = .call k → after.countP (fun b => role b = .reply k) = 1
  announced : ∀ {before after : List α} {a : α} {k : κ}, l = before ++ a :: after →
    role a = .reply k → ∃ c ∈ before, role c = .call k

/-! ## The calls and replies of one identifier -/

omit [DecidableEq κ] in
theorem mem_callIds {l : List α} {k : κ} : k ∈ callIds role l ↔ ∃ a ∈ l, role a = .call k := by
  refine mem_filterMap.trans (exists_congr fun a => and_congr_right fun _ => ?_)
  cases h : role a <;> simp [call?, h]

omit [DecidableEq κ] in
theorem mem_replyIds {l : List α} {k : κ} : k ∈ replyIds role l ↔ ∃ a ∈ l, role a = .reply k := by
  refine mem_filterMap.trans (exists_congr fun a => and_congr_right fun _ => ?_)
  cases h : role a <;> simp [reply?, h]

/-- `true` for a call of the identifier, `false` for a reply. -/
def mark (k : κ) (a : α) : Option Bool :=
  match role a with
  | .call j => if j = k then some true else none
  | .reply j => if j = k then some false else none
  | .other => none

def trace (k : κ) (l : List α) : List Bool := l.filterMap (mark role k)

theorem mark_true {k : κ} {a : α} : mark role k a = some true ↔ role a = .call k := by
  cases h : role a <;> simp [mark, h]

theorem mark_false {k : κ} {a : α} : mark role k a = some false ↔ role a = .reply k := by
  cases h : role a <;> simp [mark, h]

theorem true_mem_trace {k : κ} {l : List α} : true ∈ trace role k l ↔ k ∈ callIds role l := by
  rw [mem_callIds, trace, mem_filterMap]
  exact exists_congr fun a => and_congr_right fun _ => mark_true role

theorem false_mem_trace {k : κ} {l : List α} : false ∈ trace role k l ↔ k ∈ replyIds role l := by
  rw [mem_replyIds, trace, mem_filterMap]
  exact exists_congr fun a => and_congr_right fun _ => mark_false role

theorem count_trace (k : κ) (l : List α) :
    (trace role k l).count false = l.countP fun b => role b = .reply k := by
  rw [List.count, trace, countP_filterMap]
  refine countP_congr fun b _ => ?_
  cases h : role b with
  | call j =>
    simp only [mark, h]
    split <;> simp
  | reply j =>
    by_cases hj : j = k <;> simp [mark, h, hj]
  | other => simp [mark, h]

/-- The marks of a paired list. -/
structure Good (t : List Bool) : Prop where
  answered : ∀ {before after}, t = before ++ true :: after → after.count false = 1
  announced : ∀ {before after}, t = before ++ false :: after → true ∈ before

theorem paired_iff (l : List α) : Paired role l ↔ ∀ k, Good (trace role k l) := by
  constructor
  · intro h k
    refine ⟨fun {before after} heq => ?_, fun {before after} heq => ?_⟩
    · obtain ⟨l₁, l₂, rfl, -, h₂⟩ := filterMap_eq_append_iff.mp heq
      obtain ⟨l₃, a, l₄, rfl, -, hmark, rfl⟩ := filterMap_eq_cons_iff.mp h₂
      have hone := h.answered (append_assoc l₁ l₃ (a :: l₄)).symm ((mark_true role).mp hmark)
      rw [← hone]
      exact count_trace role k l₄
    · obtain ⟨l₁, l₂, rfl, rfl, h₂⟩ := filterMap_eq_append_iff.mp heq
      obtain ⟨l₃, a, l₄, rfl, hnone, hmark, -⟩ := filterMap_eq_cons_iff.mp h₂
      obtain ⟨c, hc, hrole⟩ := h.announced (append_assoc l₁ l₃ (a :: l₄)).symm
        ((mark_false role).mp hmark)
      rcases mem_append.mp hc with hc | hc
      · exact mem_filterMap.mpr ⟨c, hc, (mark_true role).mpr hrole⟩
      · exact absurd ((mark_true role).mpr hrole) (by simp [hnone c hc])
  · intro h
    refine ⟨fun {before after a k} heq hrole => ?_, fun {before after a k} heq hrole => ?_⟩
    · have htrace : trace role k l = trace role k before ++ true :: trace role k after := by
        rw [heq, trace, filterMap_append,
          filterMap_cons_some ((mark_true role).mpr hrole)]
        rfl
      rw [← count_trace]
      exact (h k).answered htrace
    · have htrace : trace role k l = trace role k before ++ false :: trace role k after := by
        rw [heq, trace, filterMap_append,
          filterMap_cons_some ((mark_false role).mpr hrole)]
        rfl
      obtain ⟨c, hc, hmark⟩ := mem_filterMap.mp ((h k).announced htrace)
      exact ⟨c, hc, (mark_true role).mp hmark⟩

theorem good_iff (t : List Bool) :
    Good t ↔ t = [] ∨ ∃ n, t = List.replicate (n + 1) true ++ [false] := by
  constructor
  · intro h
    induction t with
    | nil => exact Or.inl rfl
    | cons b t ih =>
      cases b with
      | false => exact absurd (h.announced (nil_append (false :: t)).symm) not_mem_nil
      | true =>
        have hone : t.count false = 1 := h.answered (nil_append (true :: t)).symm
        refine Or.inr ?_
        cases t with
        | nil => simp at hone
        | cons b t =>
          cases b with
          | false =>
            -- Nothing is behind the reply: a call would have none, and it is the only reply.
            refine ⟨0, ?_⟩
            have hnone : t.count false = 0 := by simpa using hone
            cases t with
            | nil => rfl
            | cons b t =>
              cases b with
              | false => simp at hnone
              | true =>
                have := h.answered (show true :: false :: true :: t = [true, false] ++ true :: t from rfl)
                rw [count_cons_of_ne (by decide)] at hnone
                omega
          | true =>
            have hrest : Good (true :: t) := by
              refine ⟨fun {before after} heq => ?_, fun {before after} heq => ?_⟩
              · exact h.answered (show true :: true :: t = true :: before ++ true :: after by
                  rw [heq]; rfl)
              · cases before with
                | nil => cases heq
                | cons b before =>
                  obtain ⟨rfl, -⟩ := List.cons.inj heq
                  exact mem_cons_self
            obtain h0 | ⟨n, hn⟩ := ih hrest
            · cases h0
            · exact ⟨n + 1, by rw [hn]; rfl⟩
  · rintro (rfl | ⟨n, rfl⟩)
    · exact ⟨fun {before after} heq => by simp at heq, fun {before after} heq => by simp at heq⟩
    · refine ⟨fun {before after} heq => ?_, fun {before after} heq => ?_⟩
      · have hcount := congrArg (List.count false) heq
        have hbefore : before.count false = 0 := by
          rcases append_eq_append_iff.mp heq with ⟨more, rfl, hmore⟩ | ⟨more, hmore, -⟩
          · cases more with
            | nil => cases hmore
            | cons b more => simp at hmore
          · refine count_eq_zero.mpr fun hmem => ?_
            have := eq_of_mem_replicate (hmore ▸ mem_append_left more hmem)
            cases this
        simp only [count_append, count_replicate, count_cons, hbefore] at hcount
        simpa using hcount.symm
      · cases before with
        | nil => cases heq
        | cons b before =>
          obtain ⟨rfl, -⟩ := List.cons.inj heq
          exact mem_cons_self

/-! ## The repaired list -/

/-- What the repair makes of the marks of an identifier. -/
def settle (called replied : Prop) [Decidable called] [Decidable replied] (t : List Bool) :
    List Bool :=
  t.flatMap fun b =>
    if b then (if replied then [true] else [true, false]) else if called then [false] else []

variable {stub : α → α}

theorem trace_append (k : κ) (l m : List α) :
    trace role k (l ++ m) = trace role k l ++ trace role k m :=
  filterMap_append

theorem trace_mend (hstub : ∀ a k, role a = .call k → role (stub a) = .reply k) (k : κ)
    (calls replies : List κ) (a : α) : trace role k (mend role calls replies stub a) =
      settle (k ∈ calls) (k ∈ replies) (trace role k [a]) := by
  cases h : role a with
  | call j =>
    have hs := hstub a j h
    by_cases hj : j = k
    · subst hj
      by_cases hmem : j ∈ replies <;> simp [mend, settle, trace, mark, h, hs, hmem]
    · by_cases hmem : j ∈ replies <;> simp [mend, settle, trace, mark, h, hs, hmem, hj]
  | reply j =>
    by_cases hj : j = k
    · subst hj
      by_cases hmem : j ∈ calls <;> simp [mend, settle, trace, mark, h, hmem]
    · by_cases hmem : j ∈ calls <;> simp [mend, settle, trace, mark, h, hmem, hj]
  | other => simp [mend, settle, trace, mark, h]

theorem trace_repair (hstub : ∀ a k, role a = .call k → role (stub a) = .reply k) (k : κ)
    (l : List α) : trace role k (repair role stub l) =
      settle (k ∈ callIds role l) (k ∈ replyIds role l) (trace role k l) := by
  have hrest : ∀ (calls replies : List κ) (m : List α),
      trace role k (m.flatMap (mend role calls replies stub)) =
        settle (k ∈ calls) (k ∈ replies) (trace role k m) := by
    intro calls replies m
    induction m with
    | nil => rfl
    | cons a m ih =>
      have hcons : trace role k (a :: m) = trace role k [a] ++ trace role k m :=
        trace_append role k [a] m
      rw [flatMap_cons, trace_append, trace_mend role hstub, ih, hcons]
      exact flatMap_append.symm
  exact hrest _ _ l

theorem settle_uncalled {replied : Prop} [Decidable replied] {t : List Bool} (h : true ∉ t) :
    settle False replied t = [] := by
  refine flatMap_eq_nil_iff.mpr fun b hb => ?_
  cases b with
  | true => exact absurd hb h
  | false => rfl

theorem settle_replied (t : List Bool) : settle True True t = t := by
  have hsame : ∀ b : Bool, (if b = true then (if True then [true] else [true, false])
      else if True then [false] else []) = [b] := by decide
  rw [settle, funext hsame]
  exact flatMap_singleton' t

theorem settle_unreplied (n : Nat) :
    settle True False (List.replicate n true) = (List.replicate n [true, false]).flatten := by
  rw [settle, flatMap_replicate]
  rfl

theorem good_settle (t : List Bool) : Good (settle (true ∈ t) (false ∈ t) t) ↔
    true ∉ t ∨ t = [true] ∨ ∃ n, t = List.replicate (n + 1) true ++ [false] := by
  by_cases hcall : true ∈ t
  · by_cases hreply : false ∈ t
    · simp only [hcall, hreply, settle_replied, not_true, false_or]
      rw [good_iff]
      refine or_congr ⟨?_, ?_⟩ Iff.rfl
      · rintro rfl
        cases hcall
      · rintro rfl
        simp at hreply
    · -- Calls only: every stub counts as a reply to the first.
      obtain ⟨n, rfl⟩ : ∃ n, t = replicate (n + 1) true := by
        have hall : t = replicate t.length true :=
          eq_replicate_of_mem fun b hb => by
            cases b with
            | true => rfl
            | false => exact absurd hb hreply
        have hpos := length_pos_of_mem hcall
        exact ⟨t.length - 1, by rw [Nat.sub_add_cancel hpos]; exact hall⟩
      simp only [hcall, hreply, settle_unreplied, not_true, false_or]
      constructor
      · intro h
        have hsplit : (replicate (n + 1) [true, false]).flatten =
            [] ++ true :: false :: (replicate n [true, false]).flatten := by
          rw [replicate_succ, flatten_cons]
          rfl
        have hone := h.answered hsplit
        cases n with
        | zero => exact Or.inl rfl
        | succ n => simp [replicate_succ] at hone
      · rintro (h | ⟨m, h⟩)
        · obtain rfl : n = 0 := by simpa using congrArg List.length h
          exact (good_iff _).mpr (Or.inr ⟨0, rfl⟩)
        · exact absurd (h ▸ mem_append_right _ mem_cons_self) hreply
  · simp only [hcall, settle_uncalled hcall, not_false_eq_true, true_or, iff_true]
    exact (good_iff []).mpr (Or.inl rfl)

/-- **Repair.** The repaired list is paired exactly if each identifier that is called has a single
call and no reply, or a single reply behind all its calls. -/
theorem paired_repair_iff (hstub : ∀ a k, role a = .call k → role (stub a) = .reply k)
    (l : List α) : Paired role (repair role stub l) ↔
      ∀ k ∈ callIds role l, trace role k l = [true] ∨
        ∃ n, trace role k l = List.replicate (n + 1) true ++ [false] := by
  rw [paired_iff]
  refine forall_congr' fun k => ?_
  rw [trace_repair role hstub]
  have h := good_settle (trace role k l)
  simp only [true_mem_trace, false_mem_trace] at h
  rw [h]
  constructor
  · exact fun hgood hmem => hgood.resolve_left (not_not.mpr hmem)
  · intro hgood
    by_cases hmem : k ∈ callIds role l
    · exact Or.inr (hgood hmem)
    · exact Or.inl hmem

/-! ## Repairing again -/

theorem mem_repair {l : List α} {b : α} : b ∈ repair role stub l ↔
    (b ∈ l ∧ ∀ k, role b = .reply k → k ∈ callIds role l) ∨
      ∃ a ∈ l, ∃ k, role a = .call k ∧ k ∉ replyIds role l ∧ b = stub a := by
  have hmend : ∀ a, b ∈ mend role (callIds role l) (replyIds role l) stub a ↔
      (b = a ∧ ∀ k, role a = .reply k → k ∈ callIds role l) ∨
        ∃ k, role a = .call k ∧ k ∉ replyIds role l ∧ b = stub a := by
    intro a
    cases h : role a with
    | call j => by_cases hj : j ∈ replyIds role l <;> simp [mend, h, hj]
    | reply j => by_cases hj : j ∈ callIds role l <;> simp [mend, h, hj]
    | other => simp [mend, h]
  rw [repair, mem_flatMap]
  simp only [hmend]
  constructor
  · rintro ⟨a, ha, ⟨rfl, hk⟩ | hstub⟩
    · exact Or.inl ⟨ha, hk⟩
    · exact Or.inr ⟨a, ha, hstub⟩
  · rintro (⟨ha, hk⟩ | ⟨a, ha, hstub⟩)
    · exact ⟨b, ha, Or.inl ⟨rfl, hk⟩⟩
    · exact ⟨a, ha, Or.inr hstub⟩

theorem called_repair (hstub : ∀ a k, role a = .call k → role (stub a) = .reply k) {l : List α}
    {a : α} {k : κ} (ha : a ∈ l) (h : role a = .call k) :
    k ∈ callIds role (repair role stub l) ∧ k ∈ replyIds role (repair role stub l) := by
  have hkept : a ∈ repair role stub l := (mem_repair role).mpr (Or.inl ⟨ha, by simp [h]⟩)
  refine ⟨(mem_callIds role).mpr ⟨a, hkept, h⟩, (mem_replyIds role).mpr ?_⟩
  by_cases hk : k ∈ replyIds role l
  · obtain ⟨b, hb, hrole⟩ := (mem_replyIds role).mp hk
    refine ⟨b, (mem_repair role).mpr (Or.inl ⟨hb, fun j hj => ?_⟩), hrole⟩
    obtain rfl := Role.reply.inj (hrole.symm.trans hj)
    exact (mem_callIds role).mpr ⟨a, ha, h⟩
  · exact ⟨stub a, (mem_repair role).mpr (Or.inr ⟨a, ha, k, h, hk, rfl⟩), hstub a k h⟩

theorem repair_repair (hstub : ∀ a k, role a = .call k → role (stub a) = .reply k)
    (l : List α) : repair role stub (repair role stub l) = repair role stub l := by
  have hsame : ∀ b ∈ repair role stub l,
      mend role (callIds role (repair role stub l)) (replyIds role (repair role stub l)) stub b =
        [b] := by
    intro b hb
    cases h : role b with
    | call k =>
      have hl : b ∈ l := by
        rcases (mem_repair role).mp hb with ⟨hb, -⟩ | ⟨a, -, j, ha, -, rfl⟩
        · exact hb
        · rw [hstub a j ha] at h
          cases h
      simp [mend, h, (called_repair role hstub hl h).2]
    | reply k =>
      have hcalled : k ∈ callIds role (repair role stub l) := by
        rcases (mem_repair role).mp hb with ⟨-, hk⟩ | ⟨a, hl, j, ha, -, rfl⟩
        · obtain ⟨a, hl, ha⟩ := (mem_callIds role).mp (hk k h)
          exact (called_repair role hstub hl ha).1
        · obtain rfl := Role.reply.inj ((hstub a j ha).symm.trans h)
          exact (called_repair role hstub hl ha).1
      simp [mend, h, hcalled]
    | other => simp [mend, h]
  have hmap := flatMap_congr hsame
  rw [repair, hmap]
  exact flatMap_singleton' _

end CallRepair
