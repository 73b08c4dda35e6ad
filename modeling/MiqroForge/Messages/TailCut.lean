import MiqroForge.Messages.CompressPairing
import MiqroForge.Messages.Pruning
import Mathlib.Algebra.Order.BigOperators.Group.List
import Mathlib.Algebra.Order.Ring.Nat

/-!
Where `_find_tail_cut_by_tokens` cuts: the message at which the tail reaches its budget decides, and
the cut may fall between a call and its results.
-/

namespace MiqroForge.Messages

section

variable (callsJson : List CallEntry → Nat) (budget : Nat) (messages : List Message)

/-- The tokens of the messages from an index on. -/
def tokensFrom (i : Nat) : Nat := ((messages.drop i).map (msgTokens callsJson)).sum

/-- The tail reaches its budget with the message at `i`. -/
def Reaches (i : Nat) : Prop :=
  i < messages.length ∧ budget ≤ tokensFrom callsJson messages i ∧
    (i + 1 = messages.length ∨ tokensFrom callsJson messages (i + 1) < budget)

/-- The message at `i` is more than the tail may hold, and not the last one. -/
def TooBig (i : Nat) : Prop :=
  budget * 3 / 2 < tokensFrom callsJson messages i ∧ i + 1 < messages.length

instance (i : Nat) : Decidable (TooBig callsJson budget messages i) :=
  inferInstanceAs (Decidable (_ ∧ _))

/-- No tool message stands where the tail begins: behind a message that is too big, or else before
the group of the message that reaches the budget, three messages from the end at the latest. -/
structure Aligned : Prop where
  behind : ∀ i, Reaches callsJson budget messages i → TooBig callsJson budget messages i →
    isToolAt messages (min (i + 1) (messages.length - 3)) = false
  group : ∀ i, Reaches callsJson budget messages i → ¬ TooBig callsJson budget messages i →
    0 < i → ∀ j ≤ i, isToolAt messages j = false →
      (∀ k, j < k → k ≤ i → isToolAt messages k = true) →
      isToolAt messages (if j ≤ messages.length - 3 then j - 1 else messages.length - 3) = false

end

/-! ## The tokens of a tail -/

section

variable {callsJson : List CallEntry → Nat} {budget : Nat} {messages : List Message}

theorem tokensFrom_length : tokensFrom callsJson messages messages.length = 0 := by
  simp [tokensFrom]

theorem tokensFrom_succ {i : Nat} (h : i < messages.length) :
    tokensFrom callsJson messages (i + 1) + (messages[i]?.map (msgTokens callsJson)).getD 0 =
      tokensFrom callsJson messages i := by
  unfold tokensFrom
  rw [List.drop_eq_getElem_cons h, List.map_cons, List.sum_cons, List.getElem?_eq_getElem h]
  simp only [Option.map_some, Option.getD_some]
  omega

theorem tokensFrom_anti {i j : Nat} (h : i ≤ j) :
    tokensFrom callsJson messages j ≤ tokensFrom callsJson messages i := by
  unfold tokensFrom
  exact ((List.drop_sublist_drop_left messages h).map _).sum_le_sum fun _ _ => Nat.zero_le _

theorem Reaches.unique {i j : Nat} (hi : Reaches callsJson budget messages i)
    (hj : Reaches callsJson budget messages j) : i = j := by
  have hlt : ∀ {i j : Nat}, Reaches callsJson budget messages i →
      Reaches callsJson budget messages j → ¬ i < j := by
    intro i j hi hj h
    have hlen := hj.1
    have hanti := @tokensFrom_anti callsJson messages _ _ (show i + 1 ≤ j from h)
    have hbudget := hj.2.1
    rcases hi.2.2 with hlast | hless <;> omega
  exact Nat.le_antisymm (Nat.not_lt.mp (hlt hj hi)) (Nat.not_lt.mp (hlt hi hj))

/-! ## The loop -/

/-- What the loop returns: at the message that reaches the budget it stops behind or before the
group, or it takes all messages. -/
theorem tailLoop_spec (n : Nat) (hn : n ≤ messages.length)
    (hbelow : ∀ i, n ≤ i → i < messages.length → tokensFrom callsJson messages i < budget) :
    let cut := tailLoop callsJson budget messages n (tokensFrom callsJson messages n) n
    (∃ i, Reaches callsJson budget messages i ∧ TooBig callsJson budget messages i ∧ cut = i + 1) ∨
    (∃ i, Reaches callsJson budget messages i ∧ ¬ TooBig callsJson budget messages i ∧ 0 < i ∧
      cut = alignBoundaryBackward messages i) ∨
    (cut = 0 ∧ ∀ i, Reaches callsJson budget messages i →
      ¬ TooBig callsJson budget messages i ∧ i = 0) := by
  induction n with
  | zero =>
    refine .inr (.inr ⟨rfl, fun i hi => ?_⟩)
    have := hbelow i (Nat.zero_le i) hi.1
    have := hi.2.1
    omega
  | succ i ih =>
    have hi : i < messages.length := hn
    have hsize := @tokensFrom_succ callsJson _ _ hi
    have hnext : i + 1 = messages.length ∨ tokensFrom callsJson messages (i + 1) < budget := by
      by_cases hlast : i + 1 = messages.length
      · exact .inl hlast
      · exact .inr (hbelow (i + 1) le_rfl (by omega))
    simp only [tailLoop, hsize]
    by_cases hbig : TooBig callsJson budget messages i
    · rw [if_pos (show budget * 3 / 2 < _ ∧ _ from hbig)]
      have hreach : budget ≤ tokensFrom callsJson messages i := by
        have := hbig.1
        omega
      exact .inl ⟨i, ⟨hi, hreach, hnext⟩, hbig, rfl⟩
    · rw [if_neg (show ¬ (budget * 3 / 2 < _ ∧ _) from hbig)]
      by_cases hreach : budget ≤ tokensFrom callsJson messages i
      · by_cases hpos : 0 < i
        · rw [if_pos ⟨hreach, hpos⟩]
          exact .inr (.inl ⟨i, ⟨hi, hreach, hnext⟩, hbig, hpos, rfl⟩)
        · obtain rfl : i = 0 := by omega
          rw [if_neg (by simp)]
          refine .inr (.inr ⟨rfl, fun j hj => ?_⟩)
          obtain rfl := hj.unique ⟨hi, hreach, hnext⟩
          exact ⟨hbig, rfl⟩
      · rw [if_neg (by omega)]
        refine ih (by omega) fun j hj hlen => ?_
        rcases Nat.eq_or_lt_of_le hj with rfl | hj
        · omega
        · exact hbelow j hj hlen

/-! ## The alignment -/

theorem backToCall_spec (i : Nat) :
    backToCall messages i ≤ i ∧
      (backToCall messages i = 0 ∨ isToolAt messages (backToCall messages i) = false) ∧
      ∀ k, backToCall messages i < k → k ≤ i → isToolAt messages k = true := by
  induction i with
  | zero => exact ⟨le_rfl, .inl rfl, fun k hk hk' => by simp only [backToCall] at hk; omega⟩
  | succ i ih =>
    rw [backToCall]
    split
    · rename_i htool
      refine ⟨ih.1.trans (Nat.le_succ i), ih.2.1, fun k hk hk' => ?_⟩
      rcases Nat.eq_or_lt_of_le hk' with rfl | hk'
      · exact htool
      · exact ih.2.2 k hk (by omega)
    · rename_i htool
      exact ⟨le_rfl, .inr (by simpa using htool), fun k hk hk' => by omega⟩

theorem backOverTools_spec (i : Nat) :
    backOverTools messages i ≤ i ∧
      (backOverTools messages i = 0 ∨
        isToolAt messages (backOverTools messages i - 1) = false) ∧
      ∀ k, backOverTools messages i ≤ k → k < i → isToolAt messages k = true := by
  induction i with
  | zero => exact ⟨le_rfl, .inl rfl, fun k _ hk' => by omega⟩
  | succ i ih =>
    rw [backOverTools]
    split
    · rename_i htool
      refine ⟨ih.1.trans (Nat.le_succ i), ih.2.1, fun k hk hk' => ?_⟩
      rcases Nat.eq_or_lt_of_le (Nat.lt_succ_iff.mp hk') with rfl | hk'
      · exact htool
      · exact ih.2.2 k hk hk'
    · rename_i htool
      exact ⟨le_rfl, .inr (by simpa using htool), fun k hk hk' => by omega⟩

/-- The cut before the group of a message is at a tool message iff the message before the call is
one, or the third from the end where the call is behind it. -/
theorem align_tool (hfirst : isToolAt messages 0 = false) {i : Nat} (m : Nat) :
    isToolAt messages (min (alignBoundaryBackward messages i) m) =
      isToolAt messages (if backToCall messages i ≤ m then backToCall messages i - 1 else m) := by
  unfold alignBoundaryBackward
  generalize hj : backToCall messages i = j
  have hcall : isToolAt messages j = false := by
    obtain ⟨-, hstop, -⟩ := @backToCall_spec messages i
    rw [hj] at hstop
    rcases hstop with rfl | hstop
    · exact hfirst
    · exact hstop
  obtain ⟨hle, hstop, hrun⟩ := @backOverTools_spec messages j
  generalize backOverTools messages j = k at hle hstop hrun
  rcases Nat.eq_or_lt_of_le hle with rfl | hlt
  · -- no tool message directly before the call
    have hbefore : isToolAt messages (k - 1) = false := by
      rcases hstop with rfl | hstop
      · exact hfirst
      · exact hstop
    split
    · rename_i hm
      rw [Nat.min_eq_left hm, hcall, hbefore]
    · rename_i hm
      rw [Nat.min_eq_right (by omega)]
  · have hk := hrun k le_rfl hlt
    split
    · rename_i hm
      rw [Nat.min_eq_left (by omega), hk, hrun (j - 1) (by omega) (by omega)]
    · rename_i hm
      rcases Nat.le_total k m with hkm | hkm
      · rw [Nat.min_eq_left hkm, hk, hrun m hkm (by omega)]
      · rw [Nat.min_eq_right hkm]

/-! ## The cut -/

theorem isToolAt_zero (h : WellPaired messages) : isToolAt messages 0 = false := by
  unfold isToolAt
  cases hm : messages[0]? with
  | none => rfl
  | some m => simpa using head_not_tool h m (by rw [List.head?_eq_getElem?]; exact hm)

/-- **Exactly the aligned cuts.** The tail of a well paired list does not begin with a tool message
iff the cut is aligned. -/
theorem findTailCut_whole_iff (callsJson : List CallEntry → Nat) (budget : Nat)
    (messages : List Message) (h : WellPaired messages) :
    (∀ m ∈ (messages.drop (findTailCut callsJson budget messages)).head?, m.role ≠ .tool) ↔
      Aligned callsJson budget messages := by
  have hhead : (∀ m ∈ (messages.drop (findTailCut callsJson budget messages)).head?,
      m.role ≠ .tool) ↔ isToolAt messages (findTailCut callsJson budget messages) = false := by
    rw [List.head?_drop]
    unfold isToolAt
    cases messages[findTailCut callsJson budget messages]? <;> simp
  have hfirst := isToolAt_zero h
  have hspec := @tailLoop_spec callsJson budget _ messages.length le_rfl
    (fun i hi hlen => by omega)
  rw [tokensFrom_length] at hspec
  rw [hhead]
  unfold findTailCut
  rcases hspec with ⟨i, hreach, hbig, hcut⟩ | ⟨i, hreach, hbig, hpos, hcut⟩ | ⟨hcut, hall⟩
  · rw [hcut]
    constructor
    · refine fun htool => ⟨fun i' hi' _ => ?_, fun i' hi' hnot => ?_⟩
      · rwa [hi'.unique hreach]
      · exact absurd (hi'.unique hreach ▸ hbig) hnot
    · exact fun haligned => haligned.behind i hreach hbig
  · rw [hcut, align_tool hfirst]
    obtain ⟨hle, hstop, hrun⟩ := @backToCall_spec messages i
    have hcall : isToolAt messages (backToCall messages i) = false := by
      rcases hstop with hstop | hstop
      · rw [hstop]
        exact hfirst
      · exact hstop
    constructor
    · refine fun htool => ⟨fun i' hi' hyes => ?_, fun i' hi' _ _ j hj hjcall hjrun => ?_⟩
      · exact absurd (hi'.unique hreach ▸ hyes) hbig
      · obtain rfl := hi'.unique hreach
        have hsame : j = backToCall messages i' := by
          rcases Nat.lt_trichotomy j (backToCall messages i') with hlt | heq | hlt
          · rw [hjrun _ hlt hle] at hcall
            cases hcall
          · exact heq
          · rw [hrun j hlt hj] at hjcall
            cases hjcall
        rwa [hsame]
    · exact fun haligned => haligned.group i hreach hbig hpos _ hle hcall hrun
  · rw [hcut, Nat.zero_min]
    refine iff_of_true hfirst ⟨fun i hi hbig => ?_, fun i hi _ hpos => ?_⟩
    · exact absurd hbig (hall i hi).1
    · have := (hall i hi).2
      omega

end

/-- A read whose result has as many tokens as the budget. -/
theorem findTailCut_readResult :
    (∀ m ∈ ([user "u", readCall "c1", readResult "c1" "hello"].drop
        (findTailCut readCallJson 2 [user "u", readCall "c1", readResult "c1" "hello"])).head?,
      m.role ≠ .tool) ↔
      Aligned readCallJson 2 [user "u", readCall "c1", readResult "c1" "hello"] :=
  findTailCut_whole_iff readCallJson 2 [user "u", readCall "c1", readResult "c1" "hello"]
    ((read_paired "c1" "hello" [] (Pairing.paired_nil _)).cons_plain rfl)

/-- Before the second call stands the result of the first, and the alignment goes back over it. -/
theorem findTailCut_splits :
    WellPaired [user "u", readCall "c1", readResult "c1" "a", readCall "c2",
      readResult "c2" "hello"] ∧
      ∃ m ∈ ([user "u", readCall "c1", readResult "c1" "a", readCall "c2",
          readResult "c2" "hello"].drop (findTailCut readCallJson 2 [user "u", readCall "c1",
            readResult "c1" "a", readCall "c2", readResult "c2" "hello"])).head?,
        m.role = .tool :=
  ⟨(read_paired "c1" "a" _ (read_paired "c2" "hello" [] (Pairing.paired_nil _))).cons_plain rfl,
    readResult "c1" "a", by decide, rfl⟩

end MiqroForge.Messages
