import Mathlib.Data.List.Sort

/-!
Logs whose entries have a key and a stamp. Entries of one key have increasing stamps, and no stamp
is above the last one given out, so that a greater one may be written behind all of them.
-/

namespace StampedLog

variable {α κ τ : Type} [LinearOrder τ] (key : α → κ) (stamp : α → τ)

/-- The entries of one key are in the order of their stamps, none of them above `last`. -/
structure Ordered (last : τ) (log : List α) : Prop where
  increasing : log.Pairwise fun a b => key a = key b → stamp a < stamp b
  bounded : ∀ a ∈ log, stamp a ≤ last

variable {key stamp} {last last' : τ} {log log' : List α} {a : α}

theorem Ordered.nil : Ordered key stamp last [] := ⟨List.Pairwise.nil, by simp⟩

theorem Ordered.mono (h : Ordered key stamp last log) (hle : last ≤ last') :
    Ordered key stamp last' log :=
  ⟨h.increasing, fun a ha => (h.bounded a ha).trans hle⟩

theorem Ordered.sublist (h : Ordered key stamp last log) (hsub : log'.Sublist log) :
    Ordered key stamp last log' :=
  ⟨h.increasing.sublist hsub, fun a ha => h.bounded a (hsub.subset ha)⟩

theorem Ordered.insert (h : Ordered key stamp last (log ++ log')) (hlast : last < stamp a)
    (hkey : ∀ b ∈ log', key b ≠ key a) : Ordered key stamp (stamp a) (log ++ a :: log') := by
  obtain ⟨hlog, hlog', hbetween⟩ := List.pairwise_append.mp h.increasing
  refine ⟨List.pairwise_append.mpr ⟨hlog, List.pairwise_cons.mpr ⟨?_, hlog'⟩, ?_⟩, ?_⟩
  · exact fun b hb heq => absurd heq.symm (hkey b hb)
  · intro b hb c hc heq
    rcases List.mem_cons.mp hc with rfl | hc
    · exact (h.bounded b (List.mem_append_left log' hb)).trans_lt hlast
    · exact hbetween b hb c hc heq
  · intro b hb
    rcases List.mem_append.mp hb with hb | hb
    · exact (h.bounded b (List.mem_append_left log' hb)).trans hlast.le
    · rcases List.mem_cons.mp hb with rfl | hb
      · exact le_rfl
      · exact (h.bounded b (List.mem_append_right log hb)).trans hlast.le

theorem Ordered.concat (h : Ordered key stamp last log) (hlast : last < stamp a) :
    Ordered key stamp (stamp a) (log ++ [a]) :=
  Ordered.insert (by simpa using h) hlast (by simp)

theorem Ordered.insertionSort_filter (h : Ordered key stamp last log) (p : α → Bool) (k : κ)
    (hp : ∀ a, p a = true → key a = k) :
    (log.filter p).insertionSort (fun a b => stamp a ≤ stamp b) = log.filter p := by
  refine List.Pairwise.insertionSort_eq ?_
  refine (h.increasing.sublist List.filter_sublist).imp_of_mem fun ha hb hlt => ?_
  exact (hlt ((hp _ (List.mem_filter.mp ha).2).trans (hp _ (List.mem_filter.mp hb).2).symm)).le

end StampedLog
