import Mathlib.Data.List.Basic

/-!
Runs of a guarded step function. `step s e` is `none` when the event `e` cannot
happen in `s`, and a run is the list of its events.
-/

namespace Steps

variable {σ ε : Type} (step : σ → ε → Option σ)

theorem of_guard {c : Prop} [Decidable c] {s t : σ} (h : (if c then some s else none) = some t) :
    c ∧ s = t := by
  split at h
  case isTrue hc => exact ⟨hc, Option.some.inj h⟩
  case isFalse => cases h

/-- The state a list of events leads to. -/
def run : σ → List ε → Option σ
  | s, [] => some s
  | s, e :: es =>
    match step s e with
    | some s' => run s' es
    | none => none

/-- Every step of the run meets the condition `good` in the state it is taken from. -/
def GoodRun (good : σ → ε → Prop) : σ → List ε → Prop
  | _, [] => True
  | s, e :: es => good s e ∧ ∀ s', step s e = some s' → GoodRun good s' es

instance GoodRun.decidable (good : σ → ε → Prop) [∀ s e, Decidable (good s e)] :
    ∀ (s : σ) (es : List ε), Decidable (GoodRun step good s es)
  | _, [] => isTrue trivial
  | s, e :: es =>
    match h : step s e with
    | none => decidable_of_iff (good s e) (by simp [GoodRun, h])
    | some s' =>
      have := GoodRun.decidable good s' es
      decidable_of_iff (good s e ∧ GoodRun step good s' es) (by simp [GoodRun, h])

@[simp] theorem run_nil (s : σ) : run step s [] = some s := rfl

theorem run_cons_of_step {s s' : σ} {e : ε} (es : List ε) (h : step s e = some s') :
    run step s (e :: es) = run step s' es := by
  simp [run, h]

theorem run_total {f : σ → ε → σ} (h : ∀ s e, step s e = some (f s e)) (s : σ) (es : List ε) :
    run step s es = some (es.foldl f s) := by
  induction es generalizing s with
  | nil => rfl
  | cons e es ih =>
    rw [run_cons_of_step step es (h s e), ih]
    rfl

theorem run_cons_some {s t : σ} {e : ε} {es : List ε} (h : run step s (e :: es) = some t) :
    ∃ s', step s e = some s' ∧ run step s' es = some t := by
  unfold run at h
  cases hs : step s e with
  | none =>
    rw [hs] at h
    cases h
  | some s' =>
    rw [hs] at h
    exact ⟨s', rfl, h⟩

theorem run_append (s : σ) (es fs : List ε) :
    run step s (es ++ fs) = (run step s es).bind fun t => run step t fs := by
  induction es generalizing s with
  | nil => rfl
  | cons e es ih =>
    simp only [List.cons_append, run]
    cases step s e with
    | none => rfl
    | some s' => exact ih s'

variable (good : σ → ε → Prop)

theorem goodRun_append (s t : σ) (es fs : List ε)
    (h : run step s es = some t) :
    GoodRun step good s (es ++ fs) ↔ GoodRun step good s es ∧ GoodRun step good t fs := by
  induction es generalizing s with
  | nil =>
    cases h
    simp [GoodRun]
  | cons e es ih =>
    obtain ⟨s', hs, hrun⟩ := run_cons_some step h
    have hi := ih s' hrun
    simp only [List.cons_append, GoodRun, hs, Option.some.injEq, forall_eq']
    rw [hi, and_assoc]

/-- **Invariant rule under a condition.** What good steps preserve holds at the end of a
good run. -/
theorem goodRun_invariant (inv : σ → Prop)
    (hstep : ∀ s e s', inv s → good s e → step s e = some s' → inv s')
    (s t : σ) (es : List ε) (hs : inv s) (hrun : run step s es = some t)
    (hgood : GoodRun step good s es) : inv t := by
  induction es generalizing s with
  | nil =>
    cases hrun
    exact hs
  | cons e es ih =>
    obtain ⟨s', hs', hrun'⟩ := run_cons_some step hrun
    exact ih s' (hstep s e s' hs hgood.1 hs') hrun' (hgood.2 s' hs')

theorem goodRun_and (p : ε → Prop) (s : σ) (es : List ε)
    (h : GoodRun step good s es) (hp : ∀ e ∈ es, p e) :
    GoodRun step (fun s e => good s e ∧ p e) s es := by
  induction es generalizing s with
  | nil => trivial
  | cons e es ih =>
    obtain ⟨he, hes⟩ := List.forall_mem_cons.mp hp
    exact ⟨⟨h.1, he⟩, fun s' hs' => ih s' (h.2 s' hs') hes⟩

theorem goodRun_both (good good' : σ → ε → Prop) (s : σ) (es : List ε)
    (h : GoodRun step good s es) (h' : GoodRun step good' s es) :
    GoodRun step (fun s e => good s e ∧ good' s e) s es := by
  induction es generalizing s with
  | nil => trivial
  | cons e es ih => exact ⟨⟨h.1, h'.1⟩, fun t ht => ih t (h.2 t ht) (h'.2 t ht)⟩

theorem exists_first_bad (s t : σ) (es : List ε)
    (hrun : run step s es = some t) (h : ¬ GoodRun step good s es) :
    ∃ before e after u v, es = before ++ e :: after ∧ run step s before = some u ∧
      GoodRun step good s before ∧ step u e = some v ∧ ¬ good u e := by
  induction es generalizing s with
  | nil => exact absurd trivial h
  | cons e es ih =>
    obtain ⟨v, hv, hrest⟩ := run_cons_some step hrun
    by_cases he : good s e
    · have hnot : ¬ GoodRun step good v es := fun hgood => h ⟨he, fun w hw => by
        obtain rfl := Option.some.inj (hv.symm.trans hw)
        exact hgood⟩
      obtain ⟨before, e', after, u, w, rfl, hbefore, hgood, hstep, hbad⟩ := ih v hrest hnot
      refine ⟨e :: before, e', after, u, w, rfl, ?_, ⟨he, fun x hx => ?_⟩, hstep, hbad⟩
      · rw [run_cons_of_step step before hv]
        exact hbefore
      · obtain rfl := Option.some.inj (hv.symm.trans hx)
        exact hgood
    · exact ⟨[], e, es, s, v, rfl, rfl, trivial, hv, he⟩

theorem goodRun_before (s : σ) (before after : List ε)
    (h : GoodRun step good s (before ++ after)) : GoodRun step good s before := by
  induction before generalizing s with
  | nil => trivial
  | cons e before ih => exact ⟨h.1, fun t ht => ih t (h.2 t ht)⟩

theorem goodRun_iff_forall (s : σ) (es : List ε) :
    GoodRun step good s es ↔
      ∀ before e after, es = before ++ e :: after → ∀ t, run step s before = some t → good t e := by
  induction es generalizing s with
  | nil => exact iff_of_true trivial fun before e after h => by cases before <;> cases h
  | cons e es ih =>
    constructor
    · rintro ⟨he, hes⟩ before e' after heq t ht
      cases before with
      | nil =>
        obtain ⟨rfl, -⟩ := List.cons.inj heq
        cases ht
        exact he
      | cons d before =>
        obtain ⟨rfl, htail⟩ := List.cons.inj heq
        obtain ⟨u, hu, hrun⟩ := run_cons_some step ht
        exact (ih u).mp (hes u hu) before e' after htail t hrun
    · intro h
      refine ⟨h [] e es rfl s rfl, fun u hu => (ih u).mpr fun before e' after heq t ht => ?_⟩
      apply h (e :: before) e' after
      · rw [heq]
        rfl
      · rw [run_cons_of_step step before hu]
        exact ht

theorem goodRun_trivial (s : σ) (es : List ε) : GoodRun step (fun _ _ => True) s es := by
  induction es generalizing s with
  | nil => trivial
  | cons e es ih => exact ⟨trivial, fun s' _ => ih s'⟩

/-- **Invariant rule.** -/
theorem run_invariant (inv : σ → Prop) (hstep : ∀ s e s', inv s → step s e = some s' → inv s')
    (s t : σ) (es : List ε) (hs : inv s) (hrun : run step s es = some t) : inv t :=
  goodRun_invariant step (fun _ _ => True) inv (fun s e s' h _ => hstep s e s' h) s t es hs hrun
    (goodRun_trivial step s es)

theorem goodRun_congr (good good' : σ → ε → Prop) (inv : σ → Prop)
    (hgood : ∀ s e, inv s → (good s e ↔ good' s e))
    (hstep : ∀ s e s', inv s → good s e → step s e = some s' → inv s') (s : σ) (es : List ε)
    (hs : inv s) : GoodRun step good s es ↔ GoodRun step good' s es := by
  induction es generalizing s with
  | nil => exact Iff.rfl
  | cons e es ih =>
    have hiff := hgood s e hs
    constructor
    · rintro ⟨h, hrest⟩
      exact ⟨hiff.mp h, fun s' hs' => (ih s' (hstep s e s' hs h hs')).mp (hrest s' hs')⟩
    · rintro ⟨h, hrest⟩
      exact ⟨hiff.mpr h, fun s' hs' =>
        (ih s' (hstep s e s' hs (hiff.mpr h) hs')).mpr (hrest s' hs')⟩

theorem goodRun_imp (good good' : σ → ε → Prop) (inv : σ → Prop)
    (hstep : ∀ s e s', inv s → good s e → step s e = some s' → inv s')
    (hgood : ∀ s e, inv s → good s e → good' s e) (s : σ) (es : List ε) (hs : inv s)
    (h : GoodRun step good s es) : GoodRun step good' s es := by
  induction es generalizing s with
  | nil => trivial
  | cons e es ih =>
    exact ⟨hgood s e hs h.1, fun s' hs' => ih s' (hstep s e s' hs h.1 hs') (h.2 s' hs')⟩

theorem forall_prefix_iff (p : σ → Prop) (s : σ) (es : List ε) :
    (∀ before, before <+: es → ∀ t, run step s before = some t → p t) ↔
      p s ∧ GoodRun step (fun s e => ∀ t, step s e = some t → p t) s es := by
  induction es generalizing s with
  | nil =>
    constructor
    · intro h
      exact ⟨h [] (List.prefix_refl []) s rfl, trivial⟩
    · rintro ⟨h, -⟩ before hbefore t ht
      obtain rfl := List.prefix_nil.mp hbefore
      cases ht
      exact h
  | cons e es ih =>
    constructor
    · intro h
      refine ⟨h [] (List.nil_prefix) s rfl, fun t ht => ?_, fun t ht => ?_⟩
      · refine h [e] (List.prefix_iff_exists_append_eq.mpr ⟨es, rfl⟩) t ?_
        rw [run_cons_of_step step [] ht]
        rfl
      · refine ((ih t).mp fun before hbefore u hu => ?_).2
        refine h (e :: before) ((List.prefix_cons_inj e).mpr hbefore) u ?_
        rw [run_cons_of_step step before ht]
        exact hu
    · rintro ⟨hs, hstep, hrest⟩ before hbefore u hu
      cases before with
      | nil =>
        cases hu
        exact hs
      | cons e' before =>
        obtain ⟨rfl, htail⟩ := List.cons_prefix_cons.mp hbefore
        obtain ⟨t, ht, hrun⟩ := run_cons_some step hu
        exact (ih t).mpr ⟨hstep t ht, hrest t ht⟩ before htail u hrun

end Steps
