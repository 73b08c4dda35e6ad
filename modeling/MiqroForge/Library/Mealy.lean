import Mathlib.Data.List.Basic

/-!
Machines that read events and put out any number of results for each, and the part of such a
machine that puts out what is seen through a view.
-/

namespace Mealy

variable {σ τ ε ξ ω μ : Type} (step : σ → ε → List ω × σ)

/-- What is put out on the events. -/
def outputs : σ → List ε → List ω
  | _, [] => []
  | s, e :: es => (step s e).1 ++ outputs (step s e).2 es

/-- The state behind the events. -/
def after (s : σ) (es : List ε) : σ := es.foldl (fun s e => (step s e).2) s

theorem outputs_append (s : σ) (es fs : List ε) :
    outputs step s (es ++ fs) = outputs step s es ++ outputs step (after step s es) fs := by
  induction es generalizing s with
  | nil => rfl
  | cons e es ih =>
    rw [List.cons_append, outputs, ih, outputs, List.append_assoc]
    rfl

theorem outputs_singleton (s : σ) (e : ε) : outputs step s [e] = (step s e).1 :=
  List.append_nil _

theorem after_append (s : σ) (es fs : List ε) :
    after step s (es ++ fs) = after step (after step s es) fs :=
  List.foldl_append

theorem outputs_forall {p : ω → Prop} {ok : ε → Prop}
    (h : ∀ s e, ok e → ∀ o ∈ (step s e).1, p o) (s : σ) {es : List ε} (hok : ∀ e ∈ es, ok e) :
    ∀ o ∈ outputs step s es, p o := by
  induction es generalizing s with
  | nil => exact List.forall_mem_nil _
  | cons e es ih =>
    obtain ⟨he, hes⟩ := List.forall_mem_cons.mp hok
    intro o ho
    rcases List.mem_append.mp ho with ho | ho
    · exact h s e he o ho
    · exact ih _ hes o ho

theorem exists_subset_outputs (s : σ) {es : List ε} {e : ε} (he : e ∈ es) :
    ∃ s', (step s' e).1 ⊆ outputs step s es := by
  induction es generalizing s with
  | nil => cases he
  | cons e' es ih =>
    rcases List.mem_cons.mp he with rfl | he
    · exact ⟨s, List.subset_append_left _ _⟩
    · obtain ⟨s', hsub⟩ := ih (step s e').2 he
      exact ⟨s', List.Subset.trans hsub (List.subset_append_right _ _)⟩

/-- **A part.** Where each event is either not seen by the part, and then neither changes it nor
puts out anything in view, or does what the part does on what it sees, the outputs in view are the
ones of the part. -/
theorem outputs_part {part : σ → τ} {next : τ → ξ → List μ × τ} {view : ω → Option μ}
    {see : ε → Option ξ} {ok : ε → Prop}
    (hnone : ∀ s e, ok e → see e = none →
      (step s e).1.filterMap view = [] ∧ part (step s e).2 = part s)
    (hsome : ∀ s e x, ok e → see e = some x →
      (step s e).1.filterMap view = (next (part s) x).1 ∧ part (step s e).2 = (next (part s) x).2)
    (s : σ) {es : List ε} (hok : ∀ e ∈ es, ok e) :
    (outputs step s es).filterMap view = outputs next (part s) (es.filterMap see) ∧
      part (after step s es) = after next (part s) (es.filterMap see) := by
  induction es generalizing s with
  | nil => exact ⟨rfl, rfl⟩
  | cons e es ih =>
    obtain ⟨he, hes⟩ := List.forall_mem_cons.mp hok
    obtain ⟨hout, hpart⟩ := ih (step s e).2 hes
    have hafter : after step s (e :: es) = after step (step s e).2 es := rfl
    rw [outputs, List.filterMap_append, hafter, hout, hpart]
    cases hsee : see e with
    | none =>
      obtain ⟨hview, hsame⟩ := hnone s e he hsee
      rw [List.filterMap_cons_none hsee, hview, hsame]
      exact ⟨rfl, rfl⟩
    | some x =>
      obtain ⟨hview, hnext⟩ := hsome s e x he hsee
      rw [List.filterMap_cons_some hsee, hview, hnext]
      exact ⟨rfl, rfl⟩

end Mealy
