import MiqroForge.Library.LinkedFiles
import Mathlib.Data.List.Infix

/-!
Real paths in a tree of files with symbolic links, whether something is there or not, and the parts
of the tree below a directory.
-/

namespace RealPaths

open PyText Paths PosixPaths LinkedFiles List

variable (t : Tree)

/-- The way of names from a directory. A link is read by `jump`, from its own directory, and what
stands behind it goes on from there. What is not there is passed like a directory. -/
def realWith (jump : List Text → Text → Option (List Text)) :
    List Text → List Text → Option (List Text)
  | cur, [] => some cur
  | cur, c :: rest =>
    if c = dotdot then realWith jump cur.dropLast rest
    else
      match t (cur ++ [c]) with
      | some (.link target) => (jump cur target).bind fun d => realWith jump d rest
      | _ => realWith jump (cur ++ [c]) rest

/-- `os.path.realpath` of a text from a directory, where links lead to one another less than so many
times. There is no name with a NUL. -/
def realpath : Nat → List Text → Text → Option (List Text)
  | 0, _, _ => none
  | n + 1, cwd, text =>
    if text.contains '\x00' then none
    else realWith t (realpath n) (if isAbsolute text then [] else cwd) (segments text)

/-- A name that a directory can hold. -/
def Entry (c : Text) : Prop := Name c ∧ c ≠ dotdot ∧ '\x00' ∉ c

instance (c : Text) : Decidable (Entry c) :=
  inferInstanceAs (Decidable (Name c ∧ c ≠ dotdot ∧ '\x00' ∉ c))

/-- The names from the root to a place, without a link on the way. -/
structure Canonical (q : List Text) : Prop where
  entries : ∀ c ∈ q, Entry c
  direct : ∀ p, p <+: q → p ≠ [] → ∀ target, t p ≠ some (.link target)

variable {t}

theorem canonical_nil : Canonical t [] where
  entries _ h := by cases h
  direct p h hne := absurd (List.prefix_nil.mp h) hne

theorem Canonical.of_below {p q : List Text} (h : Canonical t q) (hp : p <+: q) :
    Canonical t p where
  entries c hc := h.entries c (hp.subset hc)
  direct p' hp' := h.direct p' (List.IsPrefix.trans hp' hp)

theorem Canonical.dropLast {q : List Text} (h : Canonical t q) : Canonical t q.dropLast :=
  h.of_below (List.dropLast_prefix q)

theorem Canonical.concat {q : List Text} {c : Text} (h : Canonical t q) (hc : Entry c)
    (hlink : ∀ target, t (q ++ [c]) ≠ some (.link target)) : Canonical t (q ++ [c]) where
  entries d hd := by
    rcases mem_append.mp hd with hd | hd
    · exact h.entries d hd
    · exact mem_singleton.mp hd ▸ hc
  direct p hp hne := by
    rcases prefix_concat_iff.mp hp with rfl | hp
    · exact hlink
    · exact h.direct p hp hne

/-! ## Where a path leads -/

theorem realWith_canonical {jump : List Text → Text → Option (List Text)}
    (hjump : ∀ cur target q, Canonical t cur → jump cur target = some q → Canonical t q)
    {cur cs q : List Text} (hcur : Canonical t cur) (hcs : ∀ c ∈ cs, Name c ∧ '\x00' ∉ c)
    (h : realWith t jump cur cs = some q) : Canonical t q := by
  induction cs generalizing cur with
  | nil =>
    cases h
    exact hcur
  | cons c cs ih =>
    have hrest := fun d hd => hcs d (mem_cons_of_mem c hd)
    rw [realWith] at h
    split at h
    · exact ih hcur.dropLast hrest h
    · rename_i hup
      have hc : Entry c := ⟨(hcs c mem_cons_self).1, hup, (hcs c mem_cons_self).2⟩
      split at h
      · obtain ⟨d, hd, h⟩ := Option.bind_eq_some_iff.mp h
        exact ih (hjump _ _ d hcur hd) hrest h
      · rename_i hlink
        exact ih (hcur.concat hc fun target htarget => hlink target htarget) hrest h

theorem nul_of_mem_segments {text c : Text} (hnul : text.contains '\x00' = false)
    (h : c ∈ segments text) : '\x00' ∉ c := by
  have hmem : ∀ {text c : Text}, c ∈ split text → ∀ x ∈ c, x ∈ text := by
    intro text
    induction text with
    | nil =>
      intro c hc x hx
      rw [mem_singleton.mp hc] at hx
      cases hx
    | cons y text ih =>
      intro c hc x hx
      simp only [split_cons] at hc
      split at hc
      · rcases mem_cons.mp hc with rfl | hc
        · cases hx
        · exact mem_cons_of_mem y (ih hc x hx)
      · cases hsplit : split text with
        | nil =>
          rw [hsplit] at hc
          rw [mem_singleton.mp hc] at hx
          exact mem_singleton.mp hx ▸ mem_cons_self
        | cons d ds =>
          rw [hsplit] at hc
          rcases mem_cons.mp hc with rfl | hc
          · rcases mem_cons.mp hx with rfl | hx
            · exact mem_cons_self
            · exact mem_cons_of_mem y (ih (hsplit ▸ mem_cons_self) x hx)
          · exact mem_cons_of_mem y (ih (hsplit ▸ mem_cons_of_mem d hc) x hx)
  intro hc
  have hin : '\x00' ∈ text := hmem (mem_filter.mp h).1 _ hc
  rw [contains_iff_mem.mpr hin] at hnul
  cases hnul

/-- **A real path is the names to a place.** -/
theorem realpath_canonical {n : Nat} {cwd q : List Text} {text : Text} (hcwd : Canonical t cwd)
    (h : realpath t n cwd text = some q) : Canonical t q := by
  induction n generalizing cwd text q with
  | zero => cases h
  | succ n ih =>
    rw [realpath] at h
    split at h
    · cases h
    · rename_i hnul
      refine realWith_canonical (fun cur target q hcur hq => ih hcur hq) ?_ (fun c hc => ?_) h
      · split
        · exact canonical_nil
        · exact hcwd
      · exact ⟨name_of_mem_segments hc, nul_of_mem_segments (Bool.not_eq_true _ ▸ hnul) hc⟩

theorem realWith_self (jump : List Text → Text → Option (List Text)) {cur cs : List Text}
    (h : Canonical t (cur ++ cs)) : realWith t jump cur cs = some (cur ++ cs) := by
  induction cs generalizing cur with
  | nil => rw [append_nil, realWith]
  | cons c cs ih =>
    have happend : cur ++ c :: cs = cur ++ [c] ++ cs := (append_assoc cur [c] cs).symm
    rw [happend] at h ⊢
    have hc : Entry c := h.entries c (by simp)
    rw [realWith, if_neg hc.2.1]
    split
    · rename_i target hlink
      exact absurd hlink (h.direct _ (prefix_append _ cs) (by simp) target)
    · exact ih h

theorem not_nul_join {q : List Text} (h : ∀ c ∈ q, Entry c) : '\x00' ∉ Paths.join q := by
  induction q with
  | nil => exact not_mem_nil
  | cons c q ih =>
    have hc := (h c mem_cons_self).2.2
    have hq := ih fun d hd => h d (mem_cons_of_mem c hd)
    cases q with
    | nil => exact hc
    | cons d q =>
      rw [join_cons_cons]
      intro hmem
      rcases mem_append.mp hmem with hmem | hmem
      · exact hc hmem
      · rcases mem_cons.mp hmem with hslash | hmem
        · cases hslash
        · exact hq hmem

theorem realpath_self (n : Nat) (cwd : List Text) {q : List Text} {text : Text}
    (h : Canonical t q) (habs : isAbsolute text = true) (hnul : '\x00' ∉ text)
    (hsegments : segments text = q) : realpath t (n + 1) cwd text = some q := by
  rw [realpath, if_neg fun hin => hnul (contains_iff_mem.mp hin), if_pos habs, hsegments]
  exact realWith_self _ h

/-! ## Parts of the tree -/

/-- Two directories, one of which lies in the other or is it. -/
def Nested (g f : List Text) : Prop := g <+: f ∨ f <+: g

/-- The inner one of two nested directories. -/
def inner (g f : List Text) : List Text := if g.isPrefixOf f then f else g

theorem inner_below {g f p : List Text} (hg : g <+: p) (hf : f <+: p) : inner g f <+: p := by
  unfold inner
  split
  · exact hf
  · exact hg

theorem nested_of_below {g f p : List Text} (hg : g <+: p) (hf : f <+: p) : Nested g f :=
  prefix_or_prefix_of_prefix hg hf

theorem Nested.prefix_inner {g f : List Text} (h : Nested g f) :
    g <+: inner g f ∧ f <+: inner g f := by
  unfold inner
  split
  · rename_i hg
    exact ⟨List.isPrefixOf_iff_prefix.mp hg, prefix_rfl⟩
  · rename_i hg
    rcases h with h | h
    · exact absurd (List.isPrefixOf_iff_prefix.mpr h) hg
    · exact ⟨prefix_rfl, h⟩

theorem inner_canonical {g f : List Text} (hg : Canonical t g) (hf : Canonical t f) :
    Canonical t (inner g f) := by
  unfold inner
  split
  · exact hf
  · exact hg

/-- What holds below a place is asked of all places in two directories iff it is asked of the inner
one, where they are nested. -/
theorem below_both_iff {P : List Text → Prop} (hP : ∀ {p q}, P p → p <+: q → P q)
    {g f : List Text} (hg : Canonical t g) (hf : Canonical t f) :
    (∀ q, Canonical t q → g <+: q → f <+: q → P q) ↔ (Nested g f → P (inner g f)) := by
  constructor
  · intro h hnested
    exact h _ (inner_canonical hg hf) hnested.prefix_inner.1 hnested.prefix_inner.2
  · intro h q _ hgq hfq
    exact hP (h (nested_of_below hgq hfq)) (inner_below hgq hfq)

end RealPaths
