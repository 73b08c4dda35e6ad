import MiqroForge.Library.PyText

/-!
Slash-separated paths as texts and as lists of components. A path text is its
components joined by slashes, so that a text prefix ending in a slash is exactly
a proper prefix of the components.
-/

namespace Paths

open PyText List

/-- Components joined by slashes. -/
def join : List Text → Text
  | [] => []
  | [c] => c
  | c :: cs => c ++ '/' :: join cs

/-- A component holds no slash. -/
def Plain (c : Text) : Prop := '/' ∉ c

theorem join_cons_cons (c d : Text) (cs : List Text) :
    join (c :: d :: cs) = c ++ '/' :: join (d :: cs) := rfl

theorem plain_append_inj (c d x y : Text) (hc : Plain c) (hd : Plain d)
    (h : c ++ '/' :: x = d ++ '/' :: y) : c = d ∧ x = y := by
  induction c generalizing d with
  | nil =>
    cases d with
    | nil => simpa using h
    | cons b d =>
      simp only [nil_append, cons_append, List.cons.injEq] at h
      exact absurd (h.1 ▸ mem_cons_self ..) hd
  | cons a c ih =>
    cases d with
    | nil =>
      simp only [nil_append, cons_append, List.cons.injEq] at h
      exact absurd (h.1 ▸ mem_cons_self ..) hc
    | cons b d =>
      simp only [cons_append, List.cons.injEq] at h
      obtain ⟨rfl, h⟩ := h
      obtain ⟨rfl, rfl⟩ := ih d (fun hm => hc (mem_cons_of_mem _ hm))
        (fun hm => hd (mem_cons_of_mem _ hm)) h
      exact ⟨rfl, rfl⟩

theorem join_inj (as bs : List Text) (ha : as ≠ []) (hb : bs ≠ [])
    (hpa : ∀ c ∈ as, Plain c) (hpb : ∀ c ∈ bs, Plain c) (h : join as = join bs) : as = bs := by
  induction as generalizing bs with
  | nil => exact absurd rfl ha
  | cons a as ih =>
    rcases bs with - | ⟨b, bs⟩
    · exact absurd rfl hb
    have hpa' := hpa a (mem_cons_self ..)
    have hpb' := hpb b (mem_cons_self ..)
    rcases as with - | ⟨a', as⟩ <;> rcases bs with - | ⟨b', bs⟩
    · exact congrArg (· :: []) h
    · have hin : '/' ∈ a := by
        rw [show a = join (b :: b' :: bs) from h]
        simp [join_cons_cons]
      exact absurd hin hpa'
    · have hin : '/' ∈ b := by
        rw [show b = join (a :: a' :: as) from h.symm]
        simp [join_cons_cons]
      exact absurd hin hpb'
    · rw [join_cons_cons, join_cons_cons] at h
      obtain ⟨rfl, hrest⟩ := plain_append_inj a b _ _ hpa' hpb' h
      rw [ih (b' :: bs) (by simp) (by simp) (fun c hc => hpa c (mem_cons_of_mem _ hc))
        (fun c hc => hpb c (mem_cons_of_mem _ hc)) hrest]

theorem join_append (as bs : List Text) (ha : as ≠ []) (hb : bs ≠ []) :
    join (as ++ bs) = join as ++ '/' :: join bs := by
  induction as with
  | nil => exact absurd rfl ha
  | cons a as ih =>
    rcases as with - | ⟨a', as⟩
    · rcases bs with - | ⟨b, bs⟩
      · exact absurd rfl hb
      · rfl
    · rw [cons_append, cons_append, join_cons_cons, ← cons_append, ih (by simp)]
      simp [join_cons_cons]

/-- **A text prefix that ends in a slash is a proper prefix of the components.** -/
theorem join_slash_prefix (as ps : List Text) (ha : as ≠ [])
    (hpa : ∀ c ∈ as, Plain c) (hpp : ∀ c ∈ ps, Plain c) (x : Text)
    (h : join ps = join as ++ '/' :: x) : ∃ bs, bs ≠ [] ∧ ps = as ++ bs ∧ x = join bs := by
  induction as generalizing ps with
  | nil => exact absurd rfl ha
  | cons a as ih =>
    rcases ps with - | ⟨p, ps⟩
    · cases hj : join (a :: as) ++ '/' :: x with
      | nil => simp at hj
      | cons _ _ => simp [hj, join] at h
    have hpa' := hpa a (mem_cons_self ..)
    have hpp' := hpp p (mem_cons_self ..)
    rcases ps with - | ⟨p', ps⟩
    · have hin : '/' ∈ p := by
        rw [show p = join (a :: as) ++ '/' :: x from h]
        simp
      exact absurd hin hpp'
    rw [join_cons_cons] at h
    rcases as with - | ⟨a', as⟩
    · obtain ⟨rfl, hrest⟩ := plain_append_inj p a _ _ hpp' hpa' h
      exact ⟨p' :: ps, by simp, rfl, hrest.symm⟩
    · rw [join_cons_cons, append_assoc, cons_append] at h
      obtain ⟨rfl, hrest⟩ := plain_append_inj p a _ _ hpp' hpa' h
      obtain ⟨bs, hne, hbs, hx⟩ := ih (p' :: ps) (by simp)
        (fun c hc => hpa c (mem_cons_of_mem _ hc))
        (fun c hc => hpp c (mem_cons_of_mem _ hc)) hrest
      exact ⟨bs, hne, by rw [hbs]; rfl, hx⟩

/-- The first component of a text: what stands before the first slash. -/
def firstPart (t : Text) : Text := t.takeWhile (· ≠ '/')

theorem firstPart_join (c : Text) (cs : List Text) (hc : Plain c) :
    firstPart (join (c :: cs)) = c := by
  have hall : ∀ x ∈ c, decide (x ≠ '/') = true := by
    intro x hx
    simp only [decide_eq_true_eq]
    rintro rfl
    exact hc hx
  rcases cs with - | ⟨d, cs⟩
  · exact takeWhile_eq_self_iff.mpr hall
  · rw [join_cons_cons, firstPart, takeWhile_append_of_pos hall]
    simp

/-- Split at every slash. -/
def split : Text → List Text
  | [] => [[]]
  | c :: cs =>
    if c = '/' then [] :: split cs
    else
      match split cs with
      | [] => [[c]]
      | d :: ds => (c :: d) :: ds

@[simp] theorem split_nil : split [] = [[]] := rfl

theorem split_cons (c : Char) (cs : Text) :
    split (c :: cs) =
      if c = '/' then [] :: split cs
      else match split cs with
        | [] => [[c]]
        | d :: ds => (c :: d) :: ds := rfl

/-- `rstrip("/")`. -/
def rstripSlash (t : Text) : Text := rstripBy (· == '/') t

theorem join_getLast? (cs : List Text) (c : Text) (hc : c ≠ []) :
    (join (cs ++ [c])).getLast? = c.getLast? := by
  rcases cs with - | ⟨d, cs⟩
  · rfl
  · rw [join_append _ _ (by simp) (by simp), getLast?_append]
    cases hx : c.getLast? with
    | none => exact absurd (getLast?_eq_none_iff.mp hx) hc
    | some x => simp [join, getLast?_cons, hx]

end Paths
