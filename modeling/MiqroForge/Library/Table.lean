import Mathlib.Data.List.Basic

/-!
Dictionaries that keep the order of insertion, as Python's do: setting a key that is there
changes its value in place, and popping a key removes it.
-/

namespace Table

open List

variable {κ α : Type} [DecidableEq κ]

/-- `d[k] = v`. -/
def set (d : List (κ × α)) (k : κ) (v : α) : List (κ × α) :=
  if k ∈ d.map Prod.fst then d.map fun e => if e.1 = k then (k, v) else e else d ++ [(k, v)]

/-- `d.get(k)`. -/
def get? (d : List (κ × α)) (k : κ) : Option α := (d.find? fun e => e.1 = k).map Prod.snd

/-- The dictionary behind `d.pop(k)`. -/
def remove (d : List (κ × α)) (k : κ) : List (κ × α) := d.filter fun e => e.1 ≠ k

theorem mem_of_get? {d : List (κ × α)} {k : κ} {v : α} (h : get? d k = some v) : (k, v) ∈ d := by
  obtain ⟨e, he, rfl⟩ := Option.map_eq_some_iff.mp h
  obtain rfl : e.1 = k := by simpa using find?_some he
  exact mem_of_find?_eq_some he

variable (d : List (κ × α))

theorem keys_set (k : κ) (v : α) :
    (set d k v).map Prod.fst =
      if k ∈ d.map Prod.fst then d.map Prod.fst else d.map Prod.fst ++ [k] := by
  unfold set
  split
  case isFalse => rw [map_append, map_singleton]
  case isTrue =>
    rw [map_map]
    apply map_congr_left
    intro e _
    simp only [Function.comp_apply]
    split
    case isTrue he => exact he.symm
    case isFalse => rfl

theorem nodup_keys_set {d : List (κ × α)} (h : (d.map Prod.fst).Nodup) (k : κ) (v : α) :
    ((set d k v).map Prod.fst).Nodup := by
  rw [keys_set]
  split
  case isTrue => exact h
  case isFalse hk => exact nodup_append.mpr ⟨h, by simp, fun a ha b hb hab =>
      hk (mem_singleton.mp hb ▸ hab ▸ ha)⟩

theorem mem_keys_set (k x : κ) (v : α) :
    x ∈ (set d k v).map Prod.fst ↔ x = k ∨ x ∈ d.map Prod.fst := by
  rw [keys_set]
  split
  case isFalse =>
    rw [mem_append, mem_singleton]
    exact or_comm
  case isTrue hk =>
    constructor
    · exact Or.inr
    · rintro (rfl | hx)
      · exact hk
      · exact hx

theorem mem_keys_remove (k x : κ) :
    x ∈ (remove d k).map Prod.fst ↔ x ≠ k ∧ x ∈ d.map Prod.fst := by
  simp only [remove, mem_map, mem_filter, decide_eq_true_eq]
  constructor
  · rintro ⟨e, ⟨he, hne⟩, rfl⟩
    exact ⟨hne, e, he, rfl⟩
  · rintro ⟨hne, e, he, rfl⟩
    exact ⟨e, ⟨he, hne⟩, rfl⟩

theorem find_changed (k x : κ) (v : α) :
    (d.map fun e => if e.1 = k then (k, v) else e).find? (fun e => e.1 = x) =
      (d.find? fun e => e.1 = x).map fun e => if e.1 = k then (k, v) else e := by
  rw [find?_map]
  congr 2
  funext e
  simp only [Function.comp_apply]
  split
  case isTrue he => rw [he]
  case isFalse => rfl

theorem get?_set_self (k : κ) (v : α) : get? (set d k v) k = some v := by
  unfold set get?
  split
  case isTrue hk =>
    obtain ⟨e, he, rfl⟩ := mem_map.mp hk
    have hfind : (d.find? fun e' => decide (e'.1 = e.1)).isSome = true :=
      find?_isSome.mpr ⟨e, he, decide_eq_true rfl⟩
    obtain ⟨e', he'⟩ := Option.isSome_iff_exists.mp hfind
    have hkey : e'.1 = e.1 := by simpa using find?_some he'
    rw [find_changed, he', Option.map_some, Option.map_some, if_pos hkey]
  case isFalse hk =>
    have hnone : d.find? (fun e => decide (e.1 = k)) = none := by
      rw [find?_eq_none]
      exact fun e he heq => hk (mem_map.mpr ⟨e, he, of_decide_eq_true heq⟩)
    rw [find?_append, hnone]
    simp

theorem get?_set_of_ne {k x : κ} (v : α) (h : x ≠ k) :
    get? (set d k v) x = get? d x := by
  unfold set get?
  split
  case isTrue =>
    rw [find_changed]
    cases hfind : d.find? fun e => decide (e.1 = x) with
    | none => rfl
    | some e =>
      have hkey : e.1 = x := by simpa using find?_some hfind
      have hne : e.1 ≠ k := hkey ▸ h
      rw [Option.map_some, if_neg hne]
  case isFalse =>
    rw [find?_append]
    simp [Ne.symm h]

theorem get?_remove_self (k : κ) : get? (remove d k) k = none := by
  unfold get? remove
  rw [Option.map_eq_none_iff, find?_eq_none]
  intro e he
  simpa using (mem_filter.mp he).2

theorem get?_remove_of_ne {k x : κ} (h : x ≠ k) :
    get? (remove d k) x = get? d x := by
  unfold get? remove
  rw [find?_filter]
  congr 2
  funext e
  by_cases he : e.1 = x
  · simp [he, h]
  · simp [he]

theorem get?_eq_none {d : List (κ × α)} {k : κ} : get? d k = none ↔ k ∉ d.map Prod.fst := by
  rw [get?, Option.map_eq_none_iff, find?_eq_none, mem_map]
  constructor
  · rintro h ⟨e, he, rfl⟩
    exact h e he (decide_eq_true rfl)
  · intro h e he heq
    exact h ⟨e, he, of_decide_eq_true heq⟩

theorem get?_append (d d' : List (κ × α)) (k : κ) :
    get? (d ++ d') k = (get? d k).or (get? d' k) := by
  rw [get?, get?, get?, find?_append, Option.map_or]

theorem get?_set (k x : κ) (v : α) :
    get? (set d k v) x = if x = k then some v else get? d x := by
  split
  case isTrue h =>
    rw [h]
    exact get?_set_self d k v
  case isFalse h => exact get?_set_of_ne d v h

theorem get?_of_mem {d : List (κ × α)} (h : (d.map Prod.fst).Nodup) {k : κ} {v : α}
    (hm : (k, v) ∈ d) : get? d k = some v := by
  induction d with
  | nil => cases hm
  | cons e d ih =>
    obtain ⟨hnot, hd⟩ := nodup_cons.mp h
    rcases mem_cons.mp hm with heq | hrest
    · subst heq
      simp [get?]
    · have hne : e.1 ≠ k := fun he => hnot (he ▸ mem_map_of_mem hrest)
      rw [get?, find?_cons_of_neg (by simpa using hne)]
      exact ih hd hrest

end Table
