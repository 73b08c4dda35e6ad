import Mathlib.Data.List.Nodup
import Mathlib.Data.List.TakeWhile
import Mathlib.Data.List.Perm.Subperm

/-!
Openers and replies in a flat list. An opener announces identifiers, the run of
replies directly behind it answers them, and everything else is plain. The list
is cut into blocks; pairing and pruning are then statements about one block.
-/

namespace Pairing

open List

/-- What one entry is: plain, an opener announcing `ids`, or the reply to `id`. -/
inductive Kind (ι : Type) where
  | plain
  | opener (ids : List ι)
  | reply (id : ι)
  deriving DecidableEq, Repr

/-- A plain entry, a reply with no opener in front, or an opener with its run of replies. -/
inductive Block (α : Type) where
  | plain (a : α)
  | stray (a : α)
  | group (opener : α) (replies : List α)
  deriving Repr

variable {α ι : Type} (kind : α → Kind ι)

def isReply (a : α) : Bool :=
  match kind a with
  | .reply _ => true
  | _ => false

def openedIds (a : α) : List ι :=
  match kind a with
  | .opener ids => ids
  | _ => []

def replyId? (a : α) : Option ι :=
  match kind a with
  | .reply i => some i
  | _ => none

def replyIds (l : List α) : List ι := l.filterMap (replyId? kind)

def Block.toList : Block α → List α
  | .plain a => [a]
  | .stray a => [a]
  | .group o rs => o :: rs

/-- The leading strays of a block list, and what follows them. -/
def strays : List (Block α) → List α
  | .stray a :: bs => a :: strays bs
  | _ => []

def afterStrays : List (Block α) → List (Block α)
  | .stray _ :: bs => afterStrays bs
  | bs => bs

def push (a : α) (bs : List (Block α)) : List (Block α) :=
  match kind a with
  | .plain => .plain a :: bs
  | .reply _ => .stray a :: bs
  | .opener _ => .group a (strays bs) :: afterStrays bs

def blocks (l : List α) : List (Block α) := l.foldr (push kind) []

/-- Every announced identifier is answered exactly once and nothing else is. -/
def Answered (ids replies : List ι) : Prop :=
  ids ≠ [] ∧ replies.Nodup ∧ ∀ i, i ∈ replies ↔ i ∈ ids

def Block.Ok : Block α → Prop
  | .plain _ => True
  | .stray _ => False
  | .group o rs => Answered (openedIds kind o) (replyIds kind rs)

/-- Every reply stands behind its opener and every opener is completely answered. -/
def Paired (l : List α) : Prop := ∀ b ∈ blocks kind l, b.Ok kind

/-! ## Cutting a list into blocks -/

/-- The shape `blocks` gives to its parts. -/
def Block.Wf : Block α → Prop
  | .plain a => kind a = .plain
  | .stray a => isReply kind a = true
  | .group o rs => (∃ ids, kind o = .opener ids) ∧ ∀ a ∈ rs, isReply kind a = true

@[simp] theorem blocks_nil : blocks kind [] = [] := rfl

variable (a : α) (l : List α)

@[simp] theorem blocks_cons :
    blocks kind (a :: l) = push kind a (blocks kind l) := rfl

@[simp] theorem strays_nil : strays ([] : List (Block α)) = [] := rfl

variable (bs : List (Block α))

@[simp] theorem strays_plain : strays (.plain a :: bs) = [] := rfl

@[simp] theorem strays_stray :
    strays (.stray a :: bs) = a :: strays bs := rfl

@[simp] theorem strays_group (o : α) (rs : List α) (bs : List (Block α)) :
    strays (.group o rs :: bs) = [] := rfl

@[simp] theorem afterStrays_nil : afterStrays ([] : List (Block α)) = [] := rfl

@[simp] theorem afterStrays_plain :
    afterStrays (.plain a :: bs) = .plain a :: bs := rfl

@[simp] theorem afterStrays_stray :
    afterStrays (.stray a :: bs) = afterStrays bs := rfl

@[simp] theorem afterStrays_group (o : α) (rs : List α) (bs : List (Block α)) :
    afterStrays (.group o rs :: bs) = .group o rs :: bs := rfl

theorem replyIds_append (l m : List α) :
    replyIds kind (l ++ m) = replyIds kind l ++ replyIds kind m := by
  simp [replyIds]

theorem strays_append (bs cs : List (Block α)) (hc : strays cs = []) :
    strays (bs ++ cs) = strays bs := by
  induction bs with
  | nil => simpa using hc
  | cons b bs ih => cases b <;> simp [ih]

theorem afterStrays_append (bs cs : List (Block α)) (hc : strays cs = []) :
    afterStrays (bs ++ cs) = afterStrays bs ++ cs := by
  induction bs with
  | nil =>
    cases cs with
    | nil => rfl
    | cons c cs => cases c <;> simp_all
  | cons b bs ih => cases b <;> simp [ih]

theorem strays_toList :
    strays bs ++ (afterStrays bs).flatMap Block.toList = bs.flatMap Block.toList := by
  induction bs with
  | nil => rfl
  | cons b bs ih => cases b <;> simp [Block.toList, ih]

theorem blocks_toList : (blocks kind l).flatMap Block.toList = l := by
  induction l with
  | nil => rfl
  | cons a l ih =>
    rw [blocks_cons]
    cases h : kind a with
    | plain => simp [push, h, Block.toList, ih]
    | reply i => simp [push, h, Block.toList, ih]
    | opener ids =>
      simp only [push, h, flatMap_cons, Block.toList, cons_append]
      rw [strays_toList, ih]

theorem blocks_wf : ∀ b ∈ blocks kind l, b.Wf kind := by
  induction l with
  | nil => simp
  | cons a l ih =>
    have hs : ∀ bs : List (Block α), (∀ b ∈ bs, b.Wf kind) →
        (∀ x ∈ strays bs, isReply kind x = true) ∧ ∀ b ∈ afterStrays bs, b.Wf kind := by
      intro bs hbs
      induction bs with
      | nil => simp
      | cons b bs ihb =>
        have hb := hbs b (mem_cons_self ..)
        have hr := ihb (fun c hc => hbs c (mem_cons_of_mem _ hc))
        cases b with
        | plain x => simpa using hbs
        | stray x => exact ⟨by simpa using ⟨hb, hr.1⟩, by simpa using hr.2⟩
        | group o rs => simpa using hbs
    rw [blocks_cons]
    cases h : kind a with
    | plain => simpa [push, h, Block.Wf] using ih
    | reply i => simpa [push, h, Block.Wf, isReply] using ih
    | opener ids =>
      simp only [push, h, mem_cons, forall_eq_or_imp]
      exact ⟨⟨⟨ids, h⟩, (hs _ ih).1⟩, (hs _ ih).2⟩

theorem strays_blocks (hl : ∀ a ∈ l.head?, isReply kind a = false) :
    strays (blocks kind l) = [] := by
  cases l with
  | nil => rfl
  | cons a l =>
    have ha := hl a rfl
    rw [blocks_cons]
    cases h : kind a with
    | plain => simp [push, h]
    | opener ids => simp [push, h]
    | reply i => simp [isReply, h] at ha

theorem push_append (bs cs : List (Block α)) (hc : strays cs = []) :
    push kind a (bs ++ cs) = push kind a bs ++ cs := by
  cases h : kind a with
  | plain => simp [push, h]
  | reply i => simp [push, h]
  | opener ids => simp [push, h, strays_append _ _ hc, afterStrays_append _ _ hc]

theorem blocks_append (l m : List α) (hm : ∀ a ∈ m.head?, isReply kind a = false) :
    blocks kind (l ++ m) = blocks kind l ++ blocks kind m := by
  induction l with
  | nil => rfl
  | cons a l ih =>
    rw [cons_append, blocks_cons, blocks_cons, ih,
      push_append kind a _ _ (strays_blocks kind m hm)]

theorem paired_append (l m : List α) (hm : ∀ a ∈ m.head?, isReply kind a = false) :
    Paired kind (l ++ m) ↔ Paired kind l ∧ Paired kind m := by
  unfold Paired
  rw [blocks_append kind l m hm]
  simp only [mem_append, or_imp, forall_and]

theorem Paired.head {l : List α} (h : Paired kind l) :
    ∀ a ∈ l.head?, isReply kind a = false := by
  intro a ha
  cases l with
  | nil => simp at ha
  | cons b l =>
    obtain rfl : b = a := by simpa using ha
    cases hb : kind b with
    | plain => simp [isReply, hb]
    | opener ids => simp [isReply, hb]
    | reply i => exact (h (.stray b) (by simp [push, hb])).elim

theorem blocks_replies (rs : List α) (hr : ∀ a ∈ rs, isReply kind a = true) :
    blocks kind rs = rs.map Block.stray := by
  induction rs with
  | nil => rfl
  | cons a rs ih =>
    have ha := hr a (mem_cons_self ..)
    rw [blocks_cons, ih (fun b hb => hr b (mem_cons_of_mem _ hb))]
    cases h : kind a with
    | plain => simp [isReply, h] at ha
    | opener ids => simp [isReply, h] at ha
    | reply i => simp [push, h]

theorem strays_map (rs : List α) : strays (rs.map Block.stray) = rs := by
  induction rs with
  | nil => rfl
  | cons a rs ih => simp [ih]

theorem afterStrays_map (rs : List α) : afterStrays (rs.map Block.stray) = [] := by
  induction rs with
  | nil => rfl
  | cons a rs ih => simp [ih]

theorem blocks_group (o : α) (ids : List ι) (rs : List α) (ho : kind o = .opener ids)
    (hr : ∀ a ∈ rs, isReply kind a = true) :
    blocks kind (o :: rs) = [.group o rs] := by
  rw [blocks_cons, blocks_replies kind rs hr]
  simp [push, ho, strays_map, afterStrays_map]

theorem paired_group (o : α) (ids : List ι) (rs : List α) (ho : kind o = .opener ids)
    (hr : ∀ a ∈ rs, isReply kind a = true) :
    Paired kind (o :: rs) ↔ Answered ids (replyIds kind rs) := by
  simp [Paired, blocks_group kind o ids rs ho hr, Block.Ok, openedIds, ho]

theorem head_dropWhile :
    ∀ a ∈ (l.dropWhile (isReply kind)).head?, isReply kind a = false := by
  intro a ha
  have := head?_dropWhile_not (isReply kind) l
  rw [Option.mem_def.mp ha] at this
  simpa using this

theorem blocks_opener (o : α) (ids : List ι) (rest : List α) (ho : kind o = .opener ids) :
    blocks kind (o :: rest) =
      .group o (rest.takeWhile (isReply kind)) :: blocks kind (rest.dropWhile (isReply kind)) := by
  have hr : ∀ a ∈ rest.takeWhile (isReply kind), isReply kind a = true :=
    fun a ha => mem_takeWhile_imp ha
  have := blocks_append kind (o :: rest.takeWhile (isReply kind)) _ (head_dropWhile kind rest)
  rw [cons_append, takeWhile_append_dropWhile, blocks_group kind o ids _ ho hr] at this
  exact this

theorem paired_singleton (ha : kind a = .plain) : Paired kind [a] := by
  simp [Paired, push, ha, Block.Ok]

theorem paired_plain_cons (ha : kind a = .plain) :
    Paired kind (a :: l) ↔ Paired kind l := by
  simp [Paired, push, ha, Block.Ok]

theorem paired_of_plain (hl : ∀ a ∈ l, kind a = .plain) : Paired kind l := by
  induction l with
  | nil => simp [Paired]
  | cons a l ih =>
    have ha := hl a (mem_cons_self ..)
    have h := ih (fun b hb => hl b (mem_cons_of_mem _ hb))
    simpa [Paired, push, ha, Block.Ok] using h

theorem not_paired_replies (ha : isReply kind a = true) :
    ¬ Paired kind (a :: l) := by
  intro h
  have := h.head kind a (by simp)
  simp [ha] at this

/-! ## Induction over a paired list -/

theorem paired_nil : Paired kind [] := fun b hb => by cases hb

variable {kind}

theorem Paired.cons_plain {a : α} {l : List α} (ha : kind a = .plain) (hl : Paired kind l) :
    Paired kind (a :: l) := (paired_plain_cons kind a l ha).mpr hl

theorem Paired.group_append {o : α} {ids : List ι} {rs l : List α} (ho : kind o = .opener ids)
    (hr : ∀ a ∈ rs, isReply kind a = true) (ha : Answered ids (replyIds kind rs))
    (hl : Paired kind l) : Paired kind (o :: rs ++ l) :=
  (paired_append kind _ _ (hl.head kind)).mpr ⟨(paired_group kind o ids rs ho hr).mpr ha, hl⟩

/-- **Induction over a paired list**: an opener comes with its replies. -/
theorem Paired.induction {motive : (l : List α) → Paired kind l → Prop}
    (nil : motive [] (paired_nil kind))
    (plain : ∀ a l (ha : kind a = .plain) (hl : Paired kind l), motive l hl →
      motive (a :: l) (hl.cons_plain ha))
    (group : ∀ o ids rs l (ho : kind o = .opener ids) (hr : ∀ a ∈ rs, isReply kind a = true)
      (ha : Answered ids (replyIds kind rs)) (hl : Paired kind l), motive l hl →
      motive (o :: rs ++ l) (hl.group_append ho hr ha))
    (l : List α) (h : Paired kind l) : motive l h := by
  induction hn : l.length using Nat.strong_induction_on generalizing l with
  | _ n ih =>
    cases l with
    | nil => exact nil
    | cons a rest =>
      rw [length_cons] at hn
      cases hk : kind a with
      | plain =>
        have hrest := (paired_plain_cons kind a rest hk).mp h
        exact plain a rest hk hrest (ih rest.length (by omega) rest hrest rfl)
      | reply i => exact absurd h (not_paired_replies kind a rest (by simp [isReply, hk]))
      | opener ids =>
        have hr : ∀ b ∈ rest.takeWhile (isReply kind), isReply kind b = true :=
          fun b hb => mem_takeWhile_imp hb
        have hlen := (dropWhile_sublist (l := rest) (isReply kind)).length_le
        have hsplit : a :: rest.takeWhile (isReply kind) ++ rest.dropWhile (isReply kind) =
            a :: rest := by
          rw [cons_append, takeWhile_append_dropWhile]
        obtain ⟨hgroup, hrest⟩ :=
          (paired_append kind _ _ (head_dropWhile kind rest)).mp (hsplit.symm ▸ h)
        have hmotive := group a ids _ _ hk hr ((paired_group kind a ids _ hk hr).mp hgroup) hrest
          (ih _ (by omega) _ hrest rfl)
        simpa only [hsplit] using hmotive

theorem Paired.filter {l : List α} (h : Paired kind l) (p : α → Bool)
    (hp : ∀ a, p a = false → kind a = .plain) : Paired kind (l.filter p) := by
  induction l, h using Paired.induction with
  | nil => simp [Paired]
  | plain a l ha hl ih =>
    rw [filter_cons]
    split
    · exact ih.cons_plain ha
    · exact ih
  | group o ids rs l ho hr ha hl ih =>
    have hkeep : ∀ a ∈ o :: rs, p a = true := by
      intro a hmem
      by_contra hpa
      have hplain := hp a (by simpa using hpa)
      rcases mem_cons.mp hmem with rfl | hmem
      · rw [ho] at hplain
        cases hplain
      · have hreply := hr a hmem
        simp [isReply, hplain] at hreply
    rw [filter_append, filter_eq_self.mpr hkeep]
    exact ih.group_append ho hr ha

theorem Paired.drop {l : List α} (h : Paired kind l) (k : Nat) :
    ∃ rs s, l.drop k = rs ++ s ∧ (∀ a ∈ rs, isReply kind a = true) ∧ Paired kind s := by
  induction l, h using Paired.induction generalizing k with
  | nil => exact ⟨[], [], by simp, by simp, paired_nil kind⟩
  | plain a l ha hl ih =>
    cases k with
    | zero => exact ⟨[], a :: l, rfl, by simp, hl.cons_plain ha⟩
    | succ k => exact ih k
  | group o ids rs l ho hr ha hl ih =>
    cases k with
    | zero => exact ⟨[], _, rfl, by simp, hl.group_append ho hr ha⟩
    | succ k =>
      rw [cons_append, drop_succ_cons]
      by_cases hk : k ≤ rs.length
      · rw [drop_append_of_le_length hk]
        exact ⟨rs.drop k, l, rfl, fun a ha => hr a (mem_of_mem_drop ha), hl⟩
      · rw [drop_append, drop_eq_nil_of_le (by omega), nil_append]
        exact ih (k - rs.length)

theorem Paired.congr {l l' : List α} (h : Paired kind l) (hk : l.map kind = l'.map kind) :
    Paired kind l' := by
  induction l, h using Paired.induction generalizing l' with
  | nil =>
    obtain rfl := map_eq_nil_iff.mp hk.symm
    exact paired_nil kind
  | plain a l ha hl ih =>
    obtain ⟨a', t, rfl, ha', ht⟩ := map_eq_cons_iff.mp hk.symm
    exact (ih ht.symm).cons_plain (ha'.trans ha)
  | group o ids rs l ho hr ha hl ih =>
    rw [cons_append, map_cons, map_append] at hk
    obtain ⟨o', t, rfl, ho', ht⟩ := map_eq_cons_iff.mp hk.symm
    obtain ⟨rs', l'', rfl, hrs, hl''⟩ := map_eq_append_iff.mp ht
    have hids : replyIds kind rs' = replyIds kind rs := by
      have hmap : ∀ x : List α, replyIds kind x = (x.map kind).filterMap (replyId? id) := by
        intro x
        rw [filterMap_map]
        rfl
      rw [hmap, hmap, hrs]
    have hreply : ∀ a ∈ rs', isReply kind a = true := by
      intro a hmem
      have hmem' : kind a ∈ rs.map kind := hrs ▸ mem_map_of_mem hmem
      obtain ⟨b, hb, hab⟩ := mem_map.mp hmem'
      have hrb := hr b hb
      unfold isReply at hrb ⊢
      rwa [← hab]
    exact (ih hl''.symm).group_append (ho'.trans ho) hreply (hids ▸ ha)

theorem Paired.matched {l : List α} (h : Paired kind l) (i : ι) :
    (∃ a ∈ l, replyId? kind a = some i) ↔ ∃ o ∈ l, i ∈ openedIds kind o := by
  induction l, h using Paired.induction with
  | nil => simp
  | plain a l ha hl ih =>
    have hreply : replyId? kind a = none := by simp [replyId?, ha]
    have hopened : openedIds kind a = [] := by simp [openedIds, ha]
    simp [hreply, hopened, ih]
  | group o ids rs l ho hr ha hl ih =>
    have hnone : ∀ a ∈ rs, openedIds kind a = [] := by
      intro a hmem
      have hreply := hr a hmem
      unfold isReply at hreply
      unfold openedIds
      split at hreply
      case h_1 heq => rw [heq]
      case h_2 => cases hreply
    have hrs : (∃ a ∈ rs, replyId? kind a = some i) ↔ i ∈ ids := by
      rw [← ha.2.2 i]
      exact mem_filterMap.symm
    have hopen : (∃ a ∈ rs, i ∈ openedIds kind a) ↔ False := by
      rw [iff_false]
      rintro ⟨a, hmem, hi⟩
      rw [hnone a hmem] at hi
      cases hi
    simp only [cons_append, mem_cons, mem_append, or_and_right, exists_or,
      exists_eq_left, hrs, hopen, ih]
    simp [replyId?, openedIds, ho]

variable (kind)

/-- Neither a reply nor an opener. -/
def isPlain (a : α) : Bool :=
  match kind a with
  | .plain => true
  | _ => false

theorem isPlain_reply {a : α} (h : isReply kind a = true) : isPlain kind a = false := by
  unfold isReply at h
  unfold isPlain
  split at h
  · rename_i heq
    rw [heq]
  · cases h

/-! ## Pruning -/

section Pruning
variable [DecidableEq ι]

/-- The replies that answer one of `ids` for the first time. -/
def firstReplies (ids : List ι) : List α → List ι → List α
  | [], _ => []
  | a :: rest, seen =>
    match replyId? kind a with
    | some i =>
      if i ∈ ids ∧ i ∉ seen then a :: firstReplies ids rest (i :: seen)
      else firstReplies ids rest seen
    | none => firstReplies ids rest seen

def Block.prune : Block α → List α
  | .plain a => [a]
  | .stray _ => []
  | .group o rs =>
    let kept := firstReplies kind (openedIds kind o) rs []
    if openedIds kind o ≠ [] ∧ ∀ i ∈ openedIds kind o, i ∈ replyIds kind kept then o :: kept else []

/-- Keep plain entries and completely answered groups. -/
def prune (l : List α) : List α := (blocks kind l).flatMap (Block.prune kind)

theorem prune_append (l m : List α) (hm : ∀ a ∈ m.head?, isReply kind a = false) :
    prune kind (l ++ m) = prune kind l ++ prune kind m := by
  simp [prune, blocks_append kind l m hm]

theorem firstReplies_sublist (ids : List ι) (rs : List α) (seen : List ι) :
    (firstReplies kind ids rs seen).Sublist rs := by
  induction rs generalizing seen with
  | nil => exact List.Sublist.slnil
  | cons a rs ih =>
    unfold firstReplies
    split
    · split
      · exact (ih _).cons_cons a
      · exact (ih _).cons a
    · exact (ih _).cons a

theorem firstReplies_spec (ids : List ι) (rs : List α) (seen : List ι) :
    (replyIds kind (firstReplies kind ids rs seen)).Nodup ∧
      ∀ i ∈ replyIds kind (firstReplies kind ids rs seen), i ∈ ids ∧ i ∉ seen := by
  induction rs generalizing seen with
  | nil => simp [firstReplies, replyIds]
  | cons a rs ih =>
    unfold firstReplies
    split
    case h_1 i hi =>
      split
      case isTrue h =>
        obtain ⟨hn, hm⟩ := ih (i :: seen)
        have hc : replyIds kind (a :: firstReplies kind ids rs (i :: seen)) =
            i :: replyIds kind (firstReplies kind ids rs (i :: seen)) := by
          simp [replyIds, hi]
        rw [hc]
        refine ⟨nodup_cons.mpr ⟨fun hin => (hm i hin).2 (by simp), hn⟩, ?_⟩
        intro j hj
        rcases mem_cons.mp hj with rfl | hj
        · exact h
        · exact ⟨(hm j hj).1, fun hs => (hm j hj).2 (mem_cons_of_mem _ hs)⟩
      case isFalse => exact ih seen
    case h_2 => exact ih seen

theorem firstReplies_eq_self (ids : List ι) (rs : List α) (seen : List ι)
    (hr : ∀ a ∈ rs, isReply kind a = true) (hn : (replyIds kind rs).Nodup)
    (hi : ∀ i ∈ replyIds kind rs, i ∈ ids ∧ i ∉ seen) :
    firstReplies kind ids rs seen = rs := by
  induction rs generalizing seen with
  | nil => rfl
  | cons a rs ih =>
    have ha := hr a (mem_cons_self ..)
    cases hk : kind a with
    | plain => simp [isReply, hk] at ha
    | opener _ => simp [isReply, hk] at ha
    | reply i =>
      have hc : replyIds kind (a :: rs) = i :: replyIds kind rs := by
        simp [replyIds, replyId?, hk]
      rw [hc] at hn hi
      obtain ⟨hin, hn'⟩ := nodup_cons.mp hn
      have hfirst := hi i (mem_cons_self ..)
      have hrest : firstReplies kind ids rs (i :: seen) = rs := by
        apply ih _ (fun b hb => hr b (mem_cons_of_mem _ hb)) hn'
        intro j hj
        have := hi j (mem_cons_of_mem _ hj)
        refine ⟨this.1, fun hs => ?_⟩
        rcases mem_cons.mp hs with rfl | hs
        · exact hin hj
        · exact this.2 hs
      simp [firstReplies, replyId?, hk, hfirst, hrest]

theorem Block.prune_sublist (b : Block α) : (b.prune kind).Sublist b.toList := by
  cases b with
  | plain a => exact List.Sublist.refl _
  | stray a => exact nil_sublist _
  | group o rs =>
    simp only [Block.prune, Block.toList]
    split
    · exact (firstReplies_sublist kind _ rs []).cons_cons o
    · exact nil_sublist _

theorem prune_sublist (l : List α) : (prune kind l).Sublist l := by
  have h : ∀ bs : List (Block α),
      (bs.flatMap (Block.prune kind)).Sublist (bs.flatMap Block.toList) := by
    intro bs
    induction bs with
    | nil => exact List.Sublist.refl _
    | cons b bs ih => exact (b.prune_sublist kind).append ih
  have := h (blocks kind l)
  rwa [blocks_toList] at this

theorem Block.prune_eq_toList_iff (b : Block α) (hb : b.Wf kind) :
    b.prune kind = b.toList ↔ b.Ok kind := by
  cases b with
  | plain a => simp [Block.prune, Block.toList, Block.Ok]
  | stray a => simp [Block.prune, Block.toList, Block.Ok]
  | group o rs =>
    obtain ⟨hids, hr⟩ := hb
    obtain ⟨hn, hm⟩ := firstReplies_spec kind (openedIds kind o) rs []
    constructor
    · intro h
      simp only [Block.prune, Block.toList] at h
      split at h
      case isTrue hc =>
        have hk : firstReplies kind (openedIds kind o) rs [] = rs := by simpa using h
        rw [hk] at hn hm hc
        exact ⟨hc.1, hn, fun i => ⟨fun hi => (hm i hi).1, hc.2 i⟩⟩
      case isFalse => simp at h
    · rintro ⟨hne, hnd, hiff⟩
      have hk : firstReplies kind (openedIds kind o) rs [] = rs :=
        firstReplies_eq_self kind _ rs [] hr hnd (fun i hi => ⟨(hiff i).mp hi, by simp⟩)
      simp only [Block.prune, Block.toList]
      rw [hk, if_pos ⟨hne, fun i hi => (hiff i).mpr hi⟩]

/-- **Pruning changes nothing exactly on paired lists.** -/
theorem prune_eq_self_iff (l : List α) : prune kind l = l ↔ Paired kind l := by
  have hsub : ∀ bs : List (Block α),
      (bs.flatMap (Block.prune kind)).length ≤ (bs.flatMap Block.toList).length := by
    intro bs
    induction bs with
    | nil => simp
    | cons b bs ih =>
      have := (b.prune_sublist kind).length_le
      simp only [flatMap_cons, length_append]
      omega
  have key : ∀ bs : List (Block α), (∀ b ∈ bs, b.Wf kind) →
      (bs.flatMap (Block.prune kind) = bs.flatMap Block.toList ↔ ∀ b ∈ bs, b.Ok kind) := by
    intro bs hw
    induction bs with
    | nil => simp
    | cons b bs ih =>
      have hb := b.prune_eq_toList_iff kind (hw b (mem_cons_self ..))
      have hbs := ih (fun c hc => hw c (mem_cons_of_mem _ hc))
      simp only [flatMap_cons, mem_cons, forall_eq_or_imp]
      rw [← hb, ← hbs]
      constructor
      · intro h
        have hlen := congrArg List.length h
        have h1 := (b.prune_sublist kind).length_le
        have h2 := hsub bs
        simp only [length_append] at hlen
        exact append_inj h (by omega)
      · rintro ⟨h1, h2⟩
        rw [h1, h2]
  have := key (blocks kind l) (blocks_wf kind l)
  rw [blocks_toList] at this
  exact this

theorem Block.prune_paired (b : Block α) (hb : b.Wf kind) : Paired kind (b.prune kind) := by
  cases b with
  | plain a => exact paired_singleton kind a hb
  | stray a => simp [Block.prune, Paired]
  | group o rs =>
    obtain ⟨⟨ids, ho⟩, hr⟩ := hb
    obtain ⟨hn, hm⟩ := firstReplies_spec kind (openedIds kind o) rs []
    simp only [Block.prune]
    split
    case isTrue hc =>
      have hk : ∀ a ∈ firstReplies kind (openedIds kind o) rs [], isReply kind a = true :=
        fun a ha => hr a ((firstReplies_sublist kind _ rs []).subset ha)
      rw [paired_group kind o ids _ ho hk]
      have hids : openedIds kind o = ids := by simp [openedIds, ho]
      rw [← hids]
      exact ⟨hc.1, hn, fun i => ⟨fun hi => (hm i hi).1, hc.2 i⟩⟩
    case isFalse => simp [Paired]

/-- **What pruning keeps is paired.** -/
theorem paired_prune (l : List α) : Paired kind (prune kind l) := by
  have key : ∀ bs : List (Block α), (∀ b ∈ bs, b.Wf kind) →
      Paired kind (bs.flatMap (Block.prune kind)) := by
    intro bs hw
    induction bs with
    | nil => simp [Paired]
    | cons b bs ih =>
      have hbs := ih (fun c hc => hw c (mem_cons_of_mem _ hc))
      rw [flatMap_cons, paired_append kind _ _ (hbs.head kind)]
      exact ⟨b.prune_paired kind (hw b (mem_cons_self ..)), hbs⟩
  exact key _ (blocks_wf kind l)

theorem Block.prune_plain (b : Block α) (hb : b.Wf kind) :
    (b.prune kind).filter (isPlain kind) = b.toList.filter (isPlain kind) := by
  cases b with
  | plain a => rfl
  | stray a =>
    rw [Block.Wf] at hb
    simp [Block.prune, Block.toList, isPlain_reply kind hb]
  | group o rs =>
    obtain ⟨⟨ids, ho⟩, hr⟩ := hb
    have hopener : isPlain kind o = false := by simp [isPlain, ho]
    have hnone : ∀ l : List α, (∀ a ∈ l, isReply kind a = true) →
        (o :: l).filter (isPlain kind) = [] := by
      intro l hl
      refine filter_eq_nil_iff.mpr fun a ha => ?_
      rcases mem_cons.mp ha with rfl | ha
      · simp [hopener]
      · simp [isPlain_reply kind (hl a ha)]
    simp only [Block.prune, Block.toList]
    rw [hnone rs hr]
    split
    · exact hnone _ fun a ha => hr a ((firstReplies_sublist kind _ rs []).subset ha)
    · rfl

/-- **Pruning drops no plain entry.** -/
theorem prune_plain (l : List α) :
    (prune kind l).filter (isPlain kind) = l.filter (isPlain kind) := by
  have key : ∀ bs : List (Block α), (∀ b ∈ bs, b.Wf kind) →
      (bs.flatMap (Block.prune kind)).filter (isPlain kind) =
        (bs.flatMap Block.toList).filter (isPlain kind) := by
    intro bs hw
    induction bs with
    | nil => rfl
    | cons b bs ih =>
      rw [flatMap_cons, flatMap_cons, filter_append, filter_append,
        b.prune_plain kind (hw b mem_cons_self),
        ih fun c hc => hw c (mem_cons_of_mem b hc)]
  have := key (blocks kind l) (blocks_wf kind l)
  rwa [blocks_toList] at this

/-- Pruning drops no reply. -/
def KeepsReplies (l : List α) : Prop :=
  (prune kind l).filter (isReply kind) = l.filter (isReply kind)

theorem keepsReplies_append (l m : List α) (hm : ∀ a ∈ m.head?, isReply kind a = false) :
    KeepsReplies kind (l ++ m) ↔ KeepsReplies kind l ∧ KeepsReplies kind m := by
  have hl := ((prune_sublist kind l).filter (isReply kind)).length_le
  have hr := ((prune_sublist kind m).filter (isReply kind)).length_le
  unfold KeepsReplies
  rw [prune_append kind l m hm, filter_append, filter_append]
  constructor
  · intro h
    have hlen := congrArg List.length h
    simp only [length_append] at hlen
    exact append_inj h (by omega)
  · rintro ⟨h1, h2⟩
    rw [h1, h2]

theorem Paired.keepsReplies {l : List α} (h : Paired kind l) : KeepsReplies kind l := by
  rw [KeepsReplies, (prune_eq_self_iff kind l).mpr h]

theorem keepsReplies_plain (a : α) (rs : List α) (ha : kind a = .plain)
    (hr : ∀ b ∈ rs, isReply kind b = true) : KeepsReplies kind (a :: rs) ↔ rs = [] := by
  have hpa : isReply kind a = false := by simp [isReply, ha]
  have hprune : prune kind (a :: rs) = [a] := by
    have hs : ∀ l : List α, (l.map Block.stray).flatMap (Block.prune kind) = [] := by
      intro l
      induction l with
      | nil => rfl
      | cons b l ih => simp [Block.prune, ih]
    simp [prune, push, ha, Block.prune, blocks_replies kind rs hr, hs]
  rw [KeepsReplies, hprune, filter_cons_of_neg (by simp [hpa]),
    filter_cons_of_neg (by simp [hpa]), filter_eq_self.mpr hr]
  exact eq_comm

theorem KeepsReplies.length_le {o : α} {ids : List ι} {rs : List α}
    (h : KeepsReplies kind (o :: rs)) (ho : kind o = .opener ids)
    (hr : ∀ b ∈ rs, isReply kind b = true) : rs.length ≤ ids.length := by
  obtain ⟨hn, hm⟩ := firstReplies_spec kind (openedIds kind o) rs []
  have hkeep : ∀ l : List α, (∀ a ∈ l, isReply kind a = true) →
      (replyIds kind l).length = l.length := by
    intro l hl
    induction l with
    | nil => rfl
    | cons a l ih =>
      have ha := hl a (mem_cons_self ..)
      cases hk : kind a with
      | plain => simp [isReply, hk] at ha
      | opener _ => simp [isReply, hk] at ha
      | reply i =>
        have := ih (fun b hb => hl b (mem_cons_of_mem _ hb))
        simpa [replyIds, replyId?, hk] using this
  have hids : openedIds kind o = ids := by simp [openedIds, ho]
  have hbound : (firstReplies kind ids rs []).length ≤ ids.length := by
    rw [hids] at hn hm
    rw [← hkeep _ (fun a ha => hr a ((firstReplies_sublist kind ids rs []).subset ha))]
    exact (hn.subperm (fun i hi => (hm i hi).1)).length_le
  have ho' : isReply kind o = false := by simp [isReply, ho]
  have hlen := congrArg List.length h
  rw [prune, blocks_group kind o ids rs ho hr, filter_cons_of_neg (by simp [ho']),
    filter_eq_self.mpr hr] at hlen
  simp only [flatMap_cons, flatMap_nil, append_nil, Block.prune, hids] at hlen
  split at hlen
  · rw [filter_cons_of_neg (by simp [ho'])] at hlen
    have := length_filter_le (isReply kind) (firstReplies kind ids rs [])
    omega
  · simp at hlen
    simp [← hlen]

end Pruning

end Pairing
