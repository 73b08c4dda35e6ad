import MiqroForge.Messages.Pruning

/-!
`trim_for_model`: the pre-send guard. Whole turns are cut from the front until
the estimate fits, then unpaired tool messages are pruned. A list that is well
paired before the cut is well paired after it, so the pruning then keeps it all.
-/

namespace MiqroForge.Messages

open List

/-- Index of the first message of role `r` at or behind `start`, the last message excluded. -/
def findRole (r : Role) (work : List Message) (start : Nat) : Option Nat :=
  (List.range' start (work.length - 1 - start)).find? fun i => work[i]?.map Message.role == some r

/-- Where the oldest group begins, and whether it begins with a user message. -/
def cutStart (work : List Message) (headProtect : Nat) : Option (Nat × Role) :=
  match findRole .user work headProtect with
  | some i => some (i, .user)
  | none =>
    match findRole .assistant work headProtect with
    | some i => some (i, .assistant)
    | none => none

/-- The next group starts here. -/
def startsGroup (groupRole : Role) (m : Message) : Bool :=
  m.role == .user || (groupRole == .assistant && m.role == .assistant)

/-- Remove the group at `i`. -/
def cutGroup (work : List Message) (i : Nat) (groupRole : Role) : List Message :=
  work.take i ++ (work.drop (i + 1)).dropWhile fun m => !startsGroup groupRole m

theorem findRole_spec (r : Role) (work : List Message) (start i : Nat)
    (h : findRole r work start = some i) :
    i < work.length ∧ ∃ m, work[i]? = some m ∧ m.role = r := by
  have hp := find?_some h
  rw [beq_iff_eq, Option.map_eq_some_iff] at hp
  obtain ⟨m, hm, hr⟩ := hp
  exact ⟨(List.getElem?_eq_some_iff.mp hm).1, m, hm, hr⟩

theorem cutStart_spec (work : List Message) (headProtect i : Nat) (r : Role)
    (h : cutStart work headProtect = some (i, r)) :
    i < work.length ∧ ∃ m, work[i]? = some m ∧ m.role = r ∧ (r = .user ∨ r = .assistant) := by
  unfold cutStart at h
  split at h
  case h_1 j hj =>
    obtain ⟨rfl, rfl⟩ : j = i ∧ Role.user = r := by simpa using h
    obtain ⟨hlt, m, hm, hr⟩ := findRole_spec _ _ _ _ hj
    exact ⟨hlt, m, hm, hr, Or.inl rfl⟩
  case h_2 =>
    split at h
    case h_1 j hj =>
      obtain ⟨rfl, rfl⟩ : j = i ∧ Role.assistant = r := by simpa using h
      obtain ⟨hlt, m, hm, hr⟩ := findRole_spec _ _ _ _ hj
      exact ⟨hlt, m, hm, hr, Or.inr rfl⟩
    case h_2 => simp at h

theorem cutGroup_length (work : List Message) (i : Nat) (r : Role) (hi : i < work.length) :
    (cutGroup work i r).length < work.length := by
  have hd := (dropWhile_sublist (fun m => !startsGroup r m) (l := work.drop (i + 1))).length_le
  simp only [cutGroup, length_append, length_take, length_drop] at hd ⊢
  omega

section Trim
variable (estimate : List Message → Nat) (hardLimit : Nat)

/-- The trimming loop behind the protected head. -/
def trimLoop (headProtect : Nat) (work : List Message) : List Message :=
  if work.length ≤ headProtect + 1 then work
  else if estimate work ≤ hardLimit then work
  else
    match _cut : cutStart work headProtect with
    | none => work
    | some (i, r) => trimLoop headProtect (cutGroup work i r)
  termination_by work.length
  decreasing_by exact cutGroup_length work i r (cutStart_spec work headProtect i r _cut).1

/-- The system prompt and one message behind it are protected. -/
def headProtect (work : List Message) : Nat :=
  match work.head? with
  | some m => if m.role = .system then 2 else 1
  | none => 1

/-- `ContextRuntime.trim_for_model`, at the estimate and the limit of the model. -/
def trimForModel (messages : List Message) : List Message :=
  if estimate messages ≤ hardLimit then pruneUnpairedToolMessages messages
  else pruneUnpairedToolMessages (trimLoop estimate hardLimit (headProtect messages) messages)

theorem trimForModel_paired (messages : List Message) :
    WellPaired (trimForModel estimate hardLimit messages) := by
  unfold trimForModel
  split
  · rw [pruneUnpairedToolMessages_eq]
    exact Pairing.paired_prune _ _
  · rw [pruneUnpairedToolMessages_eq]
    exact Pairing.paired_prune _ _

end Trim

/-! ## What is cut -/

/-- One group leaves. It begins at the first user message behind the head and before the last
message, or at the first assistant message where there is no user message, and ends where the next
one begins. -/
def Cut (head : Nat) (work work' : List Message) : Prop :=
  ∃ before start run rest, work = before ++ (start :: run) ++ rest ∧ work' = before ++ rest ∧
    head ≤ before.length ∧
    ((start.role = .user ∧ ∀ m ∈ before.drop head, m.role ≠ .user) ∨
      (start.role = .assistant ∧ (∀ m ∈ (work.drop head).dropLast, m.role ≠ .user) ∧
        ∀ m ∈ before.drop head, m.role ≠ .assistant)) ∧
    (∀ m ∈ run, startsGroup start.role m = false) ∧
    ∀ m ∈ rest.head?, startsGroup start.role m = true

theorem findRole_some {r : Role} {work : List Message} {start i : Nat}
    (h : findRole r work start = some i) :
    start ≤ i ∧ i + 1 < work.length ∧ work[i]?.map Message.role = some r ∧
      ∀ j, start ≤ j → j < i → work[j]?.map Message.role ≠ some r := by
  obtain ⟨hi, hmem, hbefore⟩ := find?_range'_eq_some.mp h
  obtain ⟨hlow, hhigh⟩ := mem_range'_1.mp hmem
  refine ⟨hlow, by omega, by simpa using hi, fun j hj hji => ?_⟩
  simpa using hbefore j hj hji

theorem findRole_none {r : Role} {work : List Message} {start : Nat}
    (h : findRole r work start = none) :
    ∀ j, start ≤ j → j + 1 < work.length → work[j]?.map Message.role ≠ some r := by
  intro j hj hlen
  have := find?_eq_none.mp h j (mem_range'_1.mpr (by omega))
  simpa using this

variable {work : List Message}

theorem mem_drop_take {head i : Nat} {m : Message}
    (h : m ∈ (work.take i).drop head) : ∃ j, head ≤ j ∧ j < i ∧ work[j]? = some m := by
  obtain ⟨k, hk, rfl⟩ := mem_iff_getElem.mp h
  simp only [length_drop, length_take] at hk
  refine ⟨head + k, by omega, by omega, ?_⟩
  rw [getElem_drop, getElem_take]
  exact getElem?_eq_getElem _

theorem mem_dropLast_drop {head : Nat} {m : Message}
    (h : m ∈ (work.drop head).dropLast) :
    ∃ j, head ≤ j ∧ j + 1 < work.length ∧ work[j]? = some m := by
  obtain ⟨k, hk, rfl⟩ := mem_iff_getElem.mp h
  simp only [length_dropLast, length_drop] at hk
  refine ⟨head + k, by omega, by omega, ?_⟩
  rw [getElem_dropLast, getElem_drop]
  exact getElem?_eq_getElem _

theorem cut_of_cutStart {head i : Nat} {r : Role}
    (h : cutStart work head = some (i, r)) : Cut head work (cutGroup work i r) := by
  have hgroup : ∀ start : Message, work[i]? = some start → start.role = r → head ≤ i →
      ((start.role = .user ∧ ∀ m ∈ (work.take i).drop head, m.role ≠ .user) ∨
        (start.role = .assistant ∧ (∀ m ∈ (work.drop head).dropLast, m.role ≠ .user) ∧
          ∀ m ∈ (work.take i).drop head, m.role ≠ .assistant)) →
      Cut head work (cutGroup work i r) := by
    rintro start hstart rfl hhead hfirst
    obtain ⟨hi, rfl⟩ := List.getElem?_eq_some_iff.mp hstart
    let stay : Message → Bool := fun m => !startsGroup work[i].role m
    refine ⟨work.take i, work[i], (work.drop (i + 1)).takeWhile stay,
      (work.drop (i + 1)).dropWhile stay, ?_, rfl, ?_, hfirst, fun m hm => ?_, fun m hm => ?_⟩
    · rw [append_assoc, cons_append, takeWhile_append_dropWhile,
        ← drop_eq_getElem_cons hi]
      exact (take_append_drop i work).symm
    · rw [length_take]
      omega
    · have := mem_takeWhile_imp hm
      simpa [stay] using this
    · have := head?_dropWhile_not stay (work.drop (i + 1))
      rw [Option.mem_def.mp hm] at this
      simpa [stay] using this
  unfold cutStart at h
  split at h
  · rename_i j huser
    obtain ⟨rfl, rfl⟩ : j = i ∧ Role.user = r := by simpa using h
    obtain ⟨hlow, -, hrole, hfirst⟩ := findRole_some huser
    obtain ⟨start, hstart, hrole⟩ := Option.map_eq_some_iff.mp hrole
    refine hgroup start hstart hrole hlow (.inl ⟨hrole, fun m hm => ?_⟩)
    obtain ⟨k, hk, hki, hm⟩ := mem_drop_take hm
    simpa [hm] using hfirst k hk hki
  · rename_i huser
    split at h
    · rename_i j hassistant
      obtain ⟨rfl, rfl⟩ : j = i ∧ Role.assistant = r := by simpa using h
      obtain ⟨hlow, -, hrole, hfirst⟩ := findRole_some hassistant
      obtain ⟨start, hstart, hrole⟩ := Option.map_eq_some_iff.mp hrole
      refine hgroup start hstart hrole hlow (.inr ⟨hrole, fun m hm => ?_, fun m hm => ?_⟩)
      · obtain ⟨k, hk, hlen, hm⟩ := mem_dropLast_drop hm
        simpa [hm] using findRole_none huser k hk hlen
      · obtain ⟨k, hk, hki, hm⟩ := mem_drop_take hm
        simpa [hm] using hfirst k hk hki
    · cases h

theorem cutStart_none {head : Nat} (h : cutStart work head = none) :
    ∀ m ∈ (work.drop head).dropLast, m.role ≠ .user ∧ m.role ≠ .assistant := by
  unfold cutStart at h
  split at h
  · cases h
  · rename_i huser
    split at h
    · cases h
    · rename_i hassistant
      intro m hm
      obtain ⟨k, hk, hlen, hm⟩ := mem_dropLast_drop hm
      have hu := findRole_none huser k hk hlen
      have ha := findRole_none hassistant k hk hlen
      simp only [hm, Option.map_some, ne_eq, Option.some.injEq] at hu ha
      exact ⟨hu, ha⟩

/-- **The loop.** It cuts whole groups until the estimate fits or no group is left to cut. -/
theorem trimLoop_cuts (estimate : List Message → Nat) (hardLimit head : Nat) (work : List Message) :
    Relation.ReflTransGen (Cut head) work (trimLoop estimate hardLimit head work) ∧
      (estimate (trimLoop estimate hardLimit head work) ≤ hardLimit ∨
        ∀ m ∈ ((trimLoop estimate hardLimit head work).drop head).dropLast,
          m.role ≠ .user ∧ m.role ≠ .assistant) := by
  induction work using trimLoop.induct estimate hardLimit head with
  | case1 work hlen =>
    rw [trimLoop, if_pos hlen]
    refine ⟨.refl, .inr fun m hm => ?_⟩
    obtain ⟨j, hj, hjlen, -⟩ := mem_dropLast_drop hm
    omega
  | case2 work hlen hfit =>
    rw [trimLoop, if_neg hlen, if_pos hfit]
    exact ⟨.refl, .inl hfit⟩
  | case3 work hlen hfit hcut =>
    have heq : trimLoop estimate hardLimit head work = work := by
      rw [trimLoop, if_neg hlen, if_neg hfit]
      split
      case h_1 => rfl
      case h_2 i r h => simp [hcut] at h
    rw [heq]
    exact ⟨.refl, .inr (cutStart_none hcut)⟩
  | case4 work hlen hfit i r hcut ih =>
    have heq : trimLoop estimate hardLimit head work =
        trimLoop estimate hardLimit head (cutGroup work i r) := by
      rw [trimLoop, if_neg hlen, if_neg hfit]
      split
      case h_1 h => simp [hcut] at h
      case h_2 j s h =>
        obtain ⟨rfl, rfl⟩ : i = j ∧ r = s := by simpa [hcut] using h
        rfl
    rw [heq]
    exact ⟨.head (cut_of_cutStart hcut) ih.1, ih.2⟩

theorem Cut.sublist {head : Nat} {work work' : List Message} (h : Cut head work work') :
    work'.Sublist work := by
  obtain ⟨before, start, run, rest, rfl, rfl, -⟩ := h
  rw [append_assoc]
  exact (List.Sublist.refl before).append (sublist_append_right (start :: run) rest)

theorem Cut.take {head : Nat} {work work' : List Message} (h : Cut head work work') :
    work'.take head = work.take head := by
  obtain ⟨before, start, run, rest, rfl, rfl, hhead, -⟩ := h
  rw [append_assoc, take_append_of_le_length hhead, take_append_of_le_length hhead]

theorem cuts_sublist {head : Nat} {work work' : List Message}
    (h : Relation.ReflTransGen (Cut head) work work') : work'.Sublist work := by
  induction h with
  | refl => exact List.Sublist.refl _
  | tail _ hcut ih => exact hcut.sublist.trans ih

theorem cuts_take {head : Nat} {work work' : List Message}
    (h : Relation.ReflTransGen (Cut head) work work') : work'.take head = work.take head := by
  induction h with
  | refl => rfl
  | tail _ hcut ih => exact hcut.take.trans ih

theorem prune_head {msgs : List Message} {m : Message} (h : msgs.head? = some m)
    (hm : m.role = .system) : (pruneUnpairedToolMessages msgs).head? = some m := by
  cases msgs with
  | nil => cases h
  | cons a rest =>
    obtain rfl : a = m := by simpa using h
    rw [pruneUnpairedToolMessages, if_neg (by simp [hm]), if_neg (by simp [hm])]
    rfl

/-- **Pre-send trimming.** Whole groups are cut, the rest is pruned; the result is a part of the
input in its order, is formed and keeps a leading system message, and before the pruning the
estimate fits or no user or assistant message stands between the protected head and the last message. -/
theorem trimForModel_spec (estimate : List Message → Nat) (hardLimit : Nat)
    (messages : List Message) :
    ∃ work, Relation.ReflTransGen (Cut (headProtect messages)) messages work ∧
      trimForModel estimate hardLimit messages = pruneUnpairedToolMessages work ∧
      (estimate work ≤ hardLimit ∨ ∀ m ∈ (work.drop (headProtect messages)).dropLast,
        m.role ≠ .user ∧ m.role ≠ .assistant) ∧
      (trimForModel estimate hardLimit messages).Sublist messages ∧
      Formed (trimForModel estimate hardLimit messages) ∧
      ∀ m ∈ messages.head?, m.role = .system →
        (trimForModel estimate hardLimit messages).head? = some m := by
  obtain ⟨work, hcuts, heq, hfit⟩ :
      ∃ work, Relation.ReflTransGen (Cut (headProtect messages)) messages work ∧
        trimForModel estimate hardLimit messages = pruneUnpairedToolMessages work ∧
        (estimate work ≤ hardLimit ∨ ∀ m ∈ (work.drop (headProtect messages)).dropLast,
          m.role ≠ .user ∧ m.role ≠ .assistant) := by
    unfold trimForModel
    split
    · rename_i hfits
      exact ⟨messages, .refl, rfl, .inl hfits⟩
    · obtain ⟨hcuts, hfit⟩ := trimLoop_cuts estimate hardLimit (headProtect messages) messages
      exact ⟨_, hcuts, rfl, hfit⟩
  obtain ⟨hpruned, hformed, -⟩ := pruneUnpairedToolMessages_formed work
  refine ⟨work, hcuts, heq, hfit, ?_⟩
  rw [heq]
  refine ⟨hpruned.trans (cuts_sublist hcuts), hformed, fun m hm hsystem => prune_head ?_ hsystem⟩
  have hpos : headProtect messages ≠ 0 := by
    unfold headProtect
    split
    · split <;> decide
    · decide
  have hhead := congrArg List.head? (cuts_take hcuts)
  rw [List.head?_take, List.head?_take, if_neg hpos, if_neg hpos] at hhead
  rw [hhead]
  exact hm

end MiqroForge.Messages
