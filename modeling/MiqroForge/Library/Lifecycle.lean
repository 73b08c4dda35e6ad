import MiqroForge.Library.Table
import Mathlib.Data.List.Induction

/-!
Operations that are opened and closed under a key. What is open is kept in a table, and closing
makes a record of it. An operation that is closed without being open makes a record too.
-/

namespace Lifecycle

open List

variable {κ ν ρ : Type} [DecidableEq κ]

inductive Action (κ ν ρ : Type) where
  | opens (k : κ) (v : ν)
  | touches (k : κ) (f : ν → ν)
  | closes (k : κ) (f : Option ν → ρ)
  | passes

def Action.opened? : Action κ ν ρ → Option κ
  | .opens k _ => some k
  | _ => none

def Action.closed? : Action κ ν ρ → Option κ
  | .closes k _ => some k
  | _ => none

structure Desk (κ ν ρ : Type) where
  opened : List (κ × ν) := []
  closed : List ρ := []

/-- What is open under the key is changed. -/
def Desk.touch (d : Desk κ ν ρ) (k : κ) (f : ν → ν) : Desk κ ν ρ :=
  match Table.get? d.opened k with
  | some v => { d with opened := Table.set d.opened k (f v) }
  | none => d

def Desk.act (d : Desk κ ν ρ) : Action κ ν ρ → Desk κ ν ρ
  | .opens k v => { d with opened := Table.set d.opened k v }
  | .touches k f => d.touch k f
  | .closes k f =>
    { opened := Table.remove d.opened k, closed := d.closed ++ [f (Table.get? d.opened k)] }
  | .passes => d

/-- What an action leaves open under a key. -/
def current (k : κ) (open? : Option ν) : Action κ ν ρ → Option ν
  | .opens k' v => if k' = k then some v else open?
  | .touches k' f => if k' = k then open?.map f else open?
  | .closes k' _ => if k' = k then none else open?
  | .passes => open?

variable (d : Desk κ ν ρ)

theorem closed_touch (k : κ) (f : ν → ν) : (d.touch k f).closed = d.closed := by
  unfold Desk.touch
  split <;> rfl

theorem get?_act (a : Action κ ν ρ) (k : κ) :
    Table.get? (d.act a).opened k = current k (Table.get? d.opened k) a := by
  cases a with
  | opens k' v =>
    by_cases h : k' = k
    · simp [Desk.act, current, h, Table.get?_set_self]
    · simp [Desk.act, current, h, Table.get?_set_of_ne _ _ (Ne.symm h)]
  | touches k' f =>
    cases hopen : Table.get? d.opened k' with
    | none =>
      by_cases h : k' = k
      · subst h
        simp [Desk.act, Desk.touch, current, hopen]
      · simp [Desk.act, Desk.touch, current, hopen, h]
    | some v =>
      by_cases h : k' = k
      · subst h
        simp [Desk.act, Desk.touch, current, hopen, Table.get?_set_self]
      · simp [Desk.act, Desk.touch, current, hopen, h, Table.get?_set_of_ne _ _ (Ne.symm h)]
  | closes k' f =>
    by_cases h : k' = k
    · simp [Desk.act, current, h, Table.get?_remove_self]
    · simp [Desk.act, current, h, Table.get?_remove_of_ne _ (Ne.symm h)]
  | passes => rfl

theorem get?_foldl (as : List (Action κ ν ρ)) (k : κ) :
    Table.get? (as.foldl Desk.act d).opened k = as.foldl (current k) (Table.get? d.opened k) := by
  induction as generalizing d with
  | nil => rfl
  | cons a as ih => rw [foldl_cons, foldl_cons, ih, get?_act]

/-- The keys of what is open are distinct. -/
def Desk.Keyed (d : Desk κ ν ρ) : Prop := (d.opened.map Prod.fst).Nodup

theorem Desk.Keyed.act {d : Desk κ ν ρ} (h : d.Keyed) (a : Action κ ν ρ) : (d.act a).Keyed := by
  cases a with
  | opens k v => exact Table.nodup_keys_set h k v
  | touches k f =>
    show (d.touch k f).Keyed
    unfold Desk.touch
    split
    · exact Table.nodup_keys_set h k _
    · exact h
  | closes k f => exact h.sublist (filter_sublist.map Prod.fst)
  | passes => exact h

theorem Desk.Keyed.foldl {d : Desk κ ν ρ} (h : d.Keyed) (as : List (Action κ ν ρ)) :
    (as.foldl Desk.act d).Keyed := by
  induction as generalizing d with
  | nil => exact h
  | cons a as ih => exact ih (h.act a)

theorem mem_opened_iff {d : Desk κ ν ρ} (h : d.Keyed) {k : κ} {v : ν} :
    (k, v) ∈ d.opened ↔ Table.get? d.opened k = some v := by
  constructor
  · exact Table.get?_of_mem h
  · intro hget
    obtain ⟨e, hfind, rfl⟩ := Option.map_eq_some_iff.mp hget
    have hkey : e.1 = k := by simpa using find?_some hfind
    exact hkey ▸ mem_of_find?_eq_some hfind

theorem closed_act (a : Action κ ν ρ) : d.closed <+: (d.act a).closed := by
  cases a with
  | touches k f => exact (closed_touch d k f) ▸ prefix_rfl
  | closes k f => exact prefix_append _ _
  | opens | passes => exact prefix_rfl

theorem mem_closed_foldl {d : Desk κ ν ρ} {as : List (Action κ ν ρ)} {r : ρ} :
    r ∈ (as.foldl Desk.act d).closed ↔ r ∈ d.closed ∨ ∃ before k f after,
      as = before ++ .closes k f :: after ∧
        r = f (Table.get? (before.foldl Desk.act d).opened k) := by
  induction as using reverseRecOn with
  | nil => simp
  | append_singleton as a ih =>
    rw [foldl_append, foldl_cons, foldl_nil]
    constructor
    · intro hr
      have hcases : r ∈ (as.foldl Desk.act d).closed ∨ ∃ k f, a = .closes k f ∧
          r = f (Table.get? (as.foldl Desk.act d).opened k) := by
        cases a with
        | closes k f =>
          rcases mem_append.mp hr with hr | hr
          · exact Or.inl hr
          · exact Or.inr ⟨k, f, rfl, mem_singleton.mp hr⟩
        | touches k f => exact Or.inl (closed_touch _ k f ▸ hr)
        | opens | passes => exact Or.inl hr
      rcases hcases with hr | ⟨k, f, rfl, hnew⟩
      · rcases ih.mp hr with hr | ⟨before, k, f, after, rfl, hold⟩
        · exact Or.inl hr
        · exact Or.inr ⟨before, k, f, after ++ [a], by simp, hold⟩
      · exact Or.inr ⟨as, k, f, [], rfl, hnew⟩
    · rintro (hr | ⟨before, k, f, after, heq, rfl⟩)
      · exact (closed_act _ a).subset (ih.mpr (Or.inl hr))
      · rcases eq_nil_or_concat after with rfl | ⟨after, a', rfl⟩
        · obtain ⟨rfl, hlast⟩ := append_inj' heq rfl
          obtain rfl := (List.cons.inj hlast).1
          simp [Desk.act]
        · rw [concat_eq_append, ← cons_append, ← append_assoc] at heq
          obtain ⟨hinit, -⟩ := append_inj' heq rfl
          exact (closed_act _ a).subset (ih.mpr (Or.inr ⟨before, k, f, after, hinit, rfl⟩))

theorem isSome_foldl_current {k : κ} (open? : Option ν) (as : List (Action κ ν ρ)) :
    (as.foldl (current k) open?).isSome ↔
      (∃ before a after, as = before ++ a :: after ∧ a.opened? = some k ∧
        ∀ b ∈ after, b.closed? ≠ some k) ∨
      open?.isSome ∧ ∀ b ∈ as, b.closed? ≠ some k := by
  induction as generalizing open? with
  | nil => simp
  | cons a as ih =>
    have hopened : (∃ before a' after, a :: as = before ++ a' :: after ∧ a'.opened? = some k ∧
        ∀ b ∈ after, b.closed? ≠ some k) ↔
        (a.opened? = some k ∧ ∀ b ∈ as, b.closed? ≠ some k) ∨
          ∃ before a' after, as = before ++ a' :: after ∧ a'.opened? = some k ∧
            ∀ b ∈ after, b.closed? ≠ some k := by
      constructor
      · rintro ⟨before, a', after, heq, h⟩
        cases before with
        | nil =>
          obtain ⟨rfl, rfl⟩ := List.cons.inj heq
          exact Or.inl h
        | cons _ before =>
          obtain ⟨rfl, htail⟩ := List.cons.inj heq
          exact Or.inr ⟨before, a', after, htail, h⟩
      · rintro (h | ⟨before, a', after, rfl, h⟩)
        · exact ⟨[], a, as, rfl, h⟩
        · exact ⟨a :: before, a', after, rfl, h⟩
    have hcurrent : (current k open? a).isSome ↔
        a.opened? = some k ∨ open?.isSome ∧ a.closed? ≠ some k := by
      cases a with
      | opens k' v => by_cases h : k' = k <;> simp [current, Action.opened?, Action.closed?, h]
      | touches k' f => by_cases h : k' = k <;> simp [current, Action.opened?, Action.closed?, h]
      | closes k' f => by_cases h : k' = k <;> simp [current, Action.opened?, Action.closed?, h]
      | passes => simp [current, Action.opened?, Action.closed?]
    rw [foldl_cons, ih, hcurrent, hopened, forall_mem_cons]
    constructor
    · rintro (h | ⟨h | ⟨hopen, hclosed⟩, hrest⟩)
      · exact Or.inl (Or.inr h)
      · exact Or.inl (Or.inl ⟨h, hrest⟩)
      · exact Or.inr ⟨hopen, hclosed, hrest⟩
    · rintro ((⟨h, hrest⟩ | h) | ⟨hopen, hclosed, hrest⟩)
      · exact Or.inr ⟨Or.inl h, hrest⟩
      · exact Or.inl h
      · exact Or.inr ⟨Or.inr ⟨hopen, hclosed⟩, hrest⟩

end Lifecycle
