import MiqroForge.Sandboxes.Manager
import Mathlib.Data.List.Nodup

/-! Which sandboxes run, who holds them, and what the state file lists, in every run. -/

set_option linter.unusedSectionVars false

namespace MiqroForge.Sandboxes

open PyText Function List

variable {maxSandboxes : Nat} {s s' : State}

/-! ## Lookups -/

section Lookups

theorem mem_of_lookup {key : Text} {box : Nat} (h : s.lookup key = some box) :
    (key, box) ∈ s.sandboxes := by
  obtain ⟨entry, hfind, rfl⟩ := Option.map_eq_some_iff.mp h
  have hkey : entry.1 = key := by simpa using find?_some hfind
  subst hkey
  exact mem_of_find?_eq_some hfind

theorem mem_keys {key : Text} {box : Nat} (h : (key, box) ∈ s.sandboxes) : key ∈ s.keys :=
  mem_map_of_mem (f := Prod.fst) h

theorem lookup_eq_none {key : Text} : s.lookup key = none ↔ key ∉ s.keys := by
  unfold State.lookup State.keys
  rw [Option.map_eq_none_iff, find?_eq_none]
  constructor
  · intro h hmem
    obtain ⟨entry, hentry, hkey⟩ := mem_map.mp hmem
    exact h entry hentry (by simpa using hkey)
  · intro h entry hentry hkey
    have hkey' : entry.1 = key := by simpa using hkey
    exact h (hkey' ▸ mem_map_of_mem hentry)

theorem mem_pop {key : Text} {entry : Text × Nat} :
    entry ∈ (s.pop key).sandboxes ↔ entry ∈ s.sandboxes ∧ entry.1 ≠ key := by
  unfold State.pop
  simp [mem_filter]

theorem put_of_free {key : Text} (h : key ∉ s.keys) (box : Nat) :
    (s.put key box).sandboxes = s.sandboxes ++ [(key, box)] := by
  unfold State.put
  simp [lookup_eq_none.mpr h]

theorem create_cases (maxSandboxes : Nat) (s : State) (c : Nat) (key : Text) (activates : Bool) :
    (∃ victim box, (victim, box) ∈ s.sandboxes ∧ maxSandboxes ≤ s.sandboxes.length ∧
      s.create maxSandboxes c key activates =
        ((({ s with creating := key :: s.creating }.pop victim).stop box).setPhase c
          (.evicting key activates victim))) ∨
    (s.create maxSandboxes c key activates =
        ({ s with creating := key :: s.creating }.setPhase c (.starting key activates)) ∧
      (maxSandboxes ≤ s.sandboxes.length → s.sandboxes = [] ∨ [] ∈ s.keys)) := by
  have hcandidate : ∀ entry, s.evictionCandidate = some entry → entry ∈ s.sandboxes := by
    intro entry h
    unfold State.evictionCandidate at h
    split at h
    case h_1 hfind =>
      cases h
      exact mem_of_find?_eq_some hfind
    case h_2 => exact mem_of_mem_head? h
  have hnone : s.evictionCandidate = none → s.sandboxes = [] := by
    intro h
    unfold State.evictionCandidate at h
    split at h
    · cases h
    · exact head?_eq_none_iff.mp h
  by_cases hfull : maxSandboxes ≤ s.sandboxes.length
  · cases hpick : s.evictionCandidate with
    | none =>
      refine Or.inr ⟨?_, fun _ => Or.inl (hnone hpick)⟩
      simp only [State.create, hpick, if_pos hfull]
    | some entry =>
      obtain ⟨victim, box⟩ := entry
      have hmem := hcandidate _ hpick
      by_cases hempty : victim = []
      · refine Or.inr ⟨?_, fun _ => Or.inr (hempty ▸ mem_keys hmem)⟩
        simp only [State.create, hpick, if_pos hfull, if_pos hempty]
      · refine Or.inl ⟨victim, box, hmem, hfull, ?_⟩
        simp only [State.create, hpick, if_pos hfull, if_neg hempty]
  · refine Or.inr ⟨?_, fun h => absurd h hfull⟩
    simp only [State.create, if_neg hfull]

end Lookups

/-! ## The invariant -/

/-- `_creating` holds the keys of the calls that create, a sandbox that runs is registered under its
key or has a stop to come, and the state file is the registry but for a save to come. -/
structure Inv (s : State) : Prop where
  nodup : s.keys.Nodup
  live : ∀ key box, (key, box) ∈ s.sandboxes →
    s.running box = true ∧ s.keyOf box = some key ∧ ∃ result, s.phase box = .got result
  held : ∀ box, s.running box = true → (∃ key, (key, box) ∈ s.sandboxes) ∨
    ∃ c rest, s.phase c = .clearing rest ∧ box ∈ rest
  queued : ∀ c rest box, s.phase c = .clearing rest → box ∈ rest →
    (∀ key, (key, box) ∉ s.sandboxes) ∧ ∃ result, s.phase box = .got result
  creating : ∀ key, key ∈ s.creating ↔ ∃ c, (s.phase c).creates = some key
  alone : ∀ c c' key, (s.phase c).creates = some key → (s.phase c').creates = some key → c = c'
  free : ∀ key ∈ s.creating, key ∉ s.keys
  once : s.creating.Nodup
  saved : s.stateFile = s.keys ∨ ∃ c, (s.phase c).owesSave

theorem inv_init : Inv init where
  nodup := List.nodup_nil
  live := fun _ _ h => by cases h
  held := fun _ h => by cases h
  queued := fun _ _ _ h => by cases h
  creating := fun key => by
    constructor
    · nofun
    · rintro ⟨c, h⟩
      cases h
  alone := fun _ _ _ h => by cases h
  free := fun _ h => by cases h
  once := List.nodup_nil
  saved := Or.inl rfl

theorem Inv.change (h : Inv s) {c : Nat} {p q : Phase} (hp : s.phase c = p)
    (hphase : s'.phase = update s.phase c q) (hgot : ∀ result, p ≠ .got result)
    (hkeyOf : s'.keyOf = s.keyOf) (hsub : s'.sandboxes.Sublist s.sandboxes)
    (hrunning : ∀ key box, (key, box) ∈ s'.sandboxes → s'.running box = true)
    (hheld : ∀ box, s'.running box = true → s.running box = true ∧
      ((∃ key, (key, box) ∈ s.sandboxes) →
        (∃ key, (key, box) ∈ s'.sandboxes) ∨ ∃ rest, q = .clearing rest ∧ box ∈ rest) ∧
      ∀ rest, p = .clearing rest → box ∈ rest → ∃ rest, q = .clearing rest ∧ box ∈ rest)
    (hqueued : ∀ rest box, q = .clearing rest → box ∈ rest →
      (∀ key, (key, box) ∉ s'.sandboxes) ∧ ∃ result, s.phase box = .got result)
    (hcreating : ∀ key, key ∈ s'.creating ↔
      key ∈ s.creating ∧ p.creates ≠ some key ∨ q.creates = some key)
    (hfree : ∀ key, q.creates = some key →
      (p.creates = some key ∨ key ∉ s.creating) ∧ key ∉ s.keys)
    (honce : s'.creating.Nodup)
    (hsaved : s'.stateFile = s'.keys ∨ q.owesSave ∨
      s'.stateFile = s.stateFile ∧ s'.keys = s.keys ∧ ¬p.owesSave) : Inv s' := by
  have hself : s'.phase c = q := by rw [hphase, update_self]
  have hother : ∀ c', c' ≠ c → s'.phase c' = s.phase c' := fun c' hne => by
    rw [hphase, update_of_ne hne]
  have hkept : ∀ box, (∃ result, s.phase box = .got result) → ∃ result, s'.phase box = .got result := by
    rintro box ⟨result, hbox⟩
    have hne : box ≠ c := by
      rintro rfl
      exact hgot result (hp.symm.trans hbox)
    exact ⟨result, (hother box hne).trans hbox⟩
  have hkeys : s'.keys.Sublist s.keys := hsub.map Prod.fst
  have hcreates : ∀ c' key, (s'.phase c').creates = some key →
      c' = c ∧ q.creates = some key ∨ c' ≠ c ∧ (s.phase c').creates = some key := by
    intro c' key hc'
    by_cases hne : c' = c
    · subst hne
      rw [hself] at hc'
      exact Or.inl ⟨rfl, hc'⟩
    · rw [hother c' hne] at hc'
      exact Or.inr ⟨hne, hc'⟩
  have hclash : ∀ c' key, c' ≠ c → (s.phase c').creates = some key → q.creates ≠ some key := by
    intro c' key hne hc' hq
    rcases (hfree key hq).1 with hold | hnew
    · exact hne (h.alone c' c key hc' (by rw [hp]; exact hold))
    · exact hnew ((h.creating key).mpr ⟨c', hc'⟩)
  exact {
    nodup := h.nodup.sublist hkeys
    live := fun key box hmem => by
      obtain ⟨-, hkey, hbox⟩ := h.live key box (hsub.subset hmem)
      exact ⟨hrunning key box hmem, hkeyOf ▸ hkey, hkept box hbox⟩
    held := fun box hrun => by
      obtain ⟨hold, hregistered, hpassed⟩ := hheld box hrun
      rcases h.held box hold with hmem | ⟨c', rest, hc', hmem⟩
      · rcases hregistered hmem with hmem | ⟨rest, hq, hmem⟩
        · exact Or.inl hmem
        · exact Or.inr ⟨c, rest, hself.trans hq, hmem⟩
      · by_cases hne : c' = c
        · subst hne
          obtain ⟨rest, hq, hmem⟩ := hpassed rest (hp.symm.trans hc') hmem
          exact Or.inr ⟨c', rest, hself.trans hq, hmem⟩
        · exact Or.inr ⟨c', rest, (hother c' hne).trans hc', hmem⟩
    queued := fun c' rest box hc' hmem => by
      by_cases hne : c' = c
      · subst hne
        obtain ⟨habsent, hbox⟩ := hqueued rest box (hself.symm.trans hc') hmem
        exact ⟨habsent, hkept box hbox⟩
      · obtain ⟨habsent, hbox⟩ := h.queued c' rest box ((hother c' hne).symm.trans hc') hmem
        exact ⟨fun key hin => habsent key (hsub.subset hin), hkept box hbox⟩
    creating := fun key => by
      rw [hcreating]
      constructor
      · rintro (⟨hin, hout⟩ | hq)
        · obtain ⟨c', hc'⟩ := (h.creating key).mp hin
          have hne : c' ≠ c := by
            rintro rfl
            exact hout (hp ▸ hc')
          exact ⟨c', (hother c' hne).symm ▸ hc'⟩
        · exact ⟨c, hself.symm ▸ hq⟩
      · rintro ⟨c', hc'⟩
        rcases hcreates c' key hc' with ⟨-, hq⟩ | ⟨hne, hold⟩
        · exact Or.inr hq
        · refine Or.inl ⟨(h.creating key).mpr ⟨c', hold⟩, fun hout => ?_⟩
          exact hne (h.alone c' c key hold (by rw [hp]; exact hout))
    alone := fun a b key ha hb => by
      rcases hcreates a key ha with ⟨rfl, hqa⟩ | ⟨hna, holda⟩ <;>
        rcases hcreates b key hb with ⟨rfl, hqb⟩ | ⟨hnb, holdb⟩
      · rfl
      · exact absurd hqa (hclash b key hnb holdb)
      · exact absurd hqb (hclash a key hna holda)
      · exact h.alone a b key holda holdb
    free := fun key hkey hin => by
      rcases (hcreating key).mp hkey with ⟨hold, -⟩ | hq
      · exact h.free key hold (hkeys.subset hin)
      · exact (hfree key hq).2 (hkeys.subset hin)
    once := honce
    saved := by
      rcases hsaved with hfile | howes | ⟨hfile, hsame, hclean⟩
      · exact Or.inl hfile
      · exact Or.inr ⟨c, hself.symm ▸ howes⟩
      · rcases h.saved with hold | ⟨c', hc'⟩
        · exact Or.inl (by rw [hfile, hsame, hold])
        · have hne : c' ≠ c := by
            rintro rfl
            exact hclean (hp ▸ hc')
          exact Or.inr ⟨c', (hother c' hne).symm ▸ hc'⟩ }

/-! ## The steps -/

section Steps

theorem Inv.move (h : Inv s) {c : Nat} {p q : Phase} (hp : s.phase c = p)
    (hphase : s'.phase = update s.phase c q)
    (hidle : p = .idle ∨ ∃ key activates, p = .checking key activates)
    (hq : q.creates = none) (hclear : ∀ rest, q ≠ .clearing rest)
    (hsandboxes : s'.sandboxes = s.sandboxes) (hrunning : s'.running = s.running)
    (hkeyOf : s'.keyOf = s.keyOf) (hcreating : s'.creating = s.creating)
    (hfile : s'.stateFile = s.stateFile) : Inv s' := by
  have hpc : p.creates = none ∧ ¬p.owesSave := by
    rcases hidle with rfl | ⟨key, activates, rfl⟩ <;> exact ⟨rfl, id⟩
  have hkeys : s'.keys = s.keys := by
    unfold State.keys
    rw [hsandboxes]
  refine h.change hp hphase ?_ hkeyOf (hsandboxes ▸ List.Sublist.refl _) ?_ ?_ ?_ ?_ ?_
    (hcreating ▸ h.once) (Or.inr (Or.inr ⟨hfile, hkeys, hpc.2⟩))
  · rintro result rfl
    rcases hidle with h | ⟨_, _, h⟩ <;> cases h
  · intro key box hmem
    rw [hsandboxes] at hmem
    rw [hrunning]
    exact (h.live key box hmem).1
  · intro box hrun
    rw [hrunning] at hrun
    refine ⟨hrun, fun hmem => Or.inl (hsandboxes ▸ hmem), fun rest hrest => ?_⟩
    rcases hidle with rfl | ⟨_, _, rfl⟩ <;> cases hrest
  · exact fun rest box hrest => absurd hrest (hclear rest)
  · intro key
    rw [hcreating, hpc.1, hq]
    simp
  · intro key hkey
    rw [hq] at hkey
    cases hkey

theorem Inv.pop_iff (h : Inv s) {victim : Text} {box : Nat} (hmem : (victim, box) ∈ s.sandboxes)
    {key : Text} {box' : Nat} (hin : (key, box') ∈ s.sandboxes) :
    (key, box') ∈ (s.pop victim).sandboxes ↔ box' ≠ box := by
  rw [mem_pop]
  constructor
  · rintro ⟨-, hne⟩ rfl
    have hkey := (h.live key _ hin).2.1.symm.trans (h.live victim _ hmem).2.1
    exact hne (Option.some.inj hkey)
  · refine fun hne => ⟨hin, ?_⟩
    rintro rfl
    have hsame : (key, box') = (key, box) := inj_on_of_nodup_map h.nodup hin hmem rfl
    exact hne (Prod.mk.inj hsame).2

theorem stop_running (s : State) (box : Nat) {box' : Nat} :
    (s.stop box).running box' = true ↔ box' ≠ box ∧ s.running box' = true := by
  by_cases hne : box' = box
  · subst hne
    simp [State.stop]
  · simp [State.stop, hne]

theorem Inv.create (h : Inv s) {c : Nat} {key : Text} {activates : Bool}
    (hc : s.phase c = .checking key activates) (hfree : key ∉ s.keys) (hnew : key ∉ s.creating) :
    Inv (s.create maxSandboxes c key activates) := by
  have hgot : ∀ result, Phase.checking key activates ≠ .got result := fun _ => Phase.noConfusion
  rcases create_cases maxSandboxes s c key activates with ⟨victim, box, hmem, -, heq⟩ | ⟨heq, -⟩
  · rw [heq]
    refine h.change hc rfl hgot rfl filter_sublist ?_ ?_ nofun ?_ ?_
      (nodup_cons.mpr ⟨hnew, h.once⟩) (Or.inr (Or.inl trivial))
    · intro key' box' hmem'
      have hin := (mem_pop.mp hmem').1
      exact (stop_running s box).mpr ⟨(h.pop_iff hmem hin).mp hmem', (h.live key' box' hin).1⟩
    · intro box' hrun
      obtain ⟨hne, hold⟩ := (stop_running s box).mp hrun
      refine ⟨hold, ?_, fun _ hrest => by cases hrest⟩
      rintro ⟨key', hin⟩
      exact Or.inl ⟨key', (h.pop_iff hmem hin).mpr hne⟩
    · intro key'
      show key' ∈ key :: s.creating ↔ _
      simp [Phase.creates, or_comm, eq_comm]
    · rintro key' hq
      cases hq
      exact ⟨Or.inr hnew, hfree⟩
  · rw [heq]
    refine h.change hc rfl hgot rfl (List.Sublist.refl _) (fun key' box hmem => (h.live key' box hmem).1)
      (fun box hrun => ⟨hrun, fun hmem => Or.inl hmem, fun _ hrest => by cases hrest⟩)
      nofun ?_ ?_ (nodup_cons.mpr ⟨hnew, h.once⟩)
      (Or.inr (Or.inr ⟨rfl, rfl, id⟩))
    · intro key'
      show key' ∈ key :: s.creating ↔ _
      simp [Phase.creates, or_comm, eq_comm]
    · rintro key' hq
      cases hq
      exact ⟨Or.inr hnew, hfree⟩

theorem Inv.lookup_running (h : Inv s) {key : Text} {box : Nat} (hkey : s.lookup key = some box) :
    s.running box = true :=
  (h.live key box (mem_of_lookup hkey)).1

theorem Inv.test_cases (h : Inv s) (maxSandboxes c : Nat) (key : Text) (activates : Bool) :
    (∃ box, s.lookup key = some box ∧
      s.test maxSandboxes c key activates = s.finish c key activates (some box)) ∨
    (s.lookup key = none ∧ key ∈ s.creating ∧
      s.test maxSandboxes c key activates = s.finish c key activates none) ∨
    (s.lookup key = none ∧ key ∉ s.creating ∧
      s.test maxSandboxes c key activates = s.create maxSandboxes c key activates) := by
  unfold State.test
  cases hkey : s.lookup key with
  | some box =>
    dsimp only
    rw [if_pos (h.lookup_running hkey)]
    exact Or.inl ⟨box, rfl, rfl⟩
  | none =>
    dsimp only
    by_cases hmem : key ∈ s.creating
    · exact Or.inr (Or.inl ⟨rfl, hmem, if_pos hmem⟩)
    · exact Or.inr (Or.inr ⟨rfl, hmem, if_neg hmem⟩)

theorem Inv.test (h : Inv s) {c : Nat} {key : Text} {activates : Bool}
    (hc : s.phase c = .checking key activates) : Inv (s.test maxSandboxes c key activates) := by
  have hchecking : Phase.checking key activates = .idle ∨
      ∃ key' activates', Phase.checking key activates = .checking key' activates' :=
    Or.inr ⟨key, activates, rfl⟩
  rcases h.test_cases maxSandboxes c key activates with
    ⟨box, -, heq⟩ | ⟨-, -, heq⟩ | ⟨hnone, hnew, heq⟩
  · rw [heq]
    exact h.move hc rfl hchecking rfl (fun _ => Phase.noConfusion) rfl rfl rfl rfl rfl
  · rw [heq]
    exact h.move hc rfl hchecking rfl (fun _ => Phase.noConfusion) rfl rfl rfl rfl rfl
  · rw [heq]
    exact h.create hc (lookup_eq_none.mp hnone) hnew

theorem Inv.lookup_creating (h : Inv s) {c : Nat} {key : Text}
    (hc : (s.phase c).creates = some key) : s.lookup key = none :=
  lookup_eq_none.mpr (h.free key ((h.creating key).mpr ⟨c, hc⟩))

theorem Inv.evicted (h : Inv s) {c : Nat} {key : Text} {activates : Bool} {victim : Text}
    (hc : s.phase c = .evicting key activates victim) :
    (s.save.deactivate victim).recheck c key activates =
      (s.save.deactivate victim).setPhase c (.starting key activates) := by
  have hnone : (s.save.deactivate victim).lookup key = none :=
    h.lookup_creating (by rw [hc]; rfl)
  unfold State.recheck
  rw [hnone]

theorem mem_discard {c : Nat} {key : Text} (hc : (s.phase c).creates = some key) (key' : Text) :
    key' ∈ (s.discard key).creating ↔
      key' ∈ s.creating ∧ (s.phase c).creates ≠ some key' ∨ none = some key' := by
  rw [hc]
  constructor
  · intro hin
    obtain ⟨hin, hne⟩ := mem_filter.mp hin
    refine Or.inl ⟨hin, fun heq => ?_⟩
    cases heq
    simp at hne
  · rintro (⟨hin, hne⟩ | hnone)
    · exact mem_filter.mpr ⟨hin, by simpa using fun heq : key' = key => hne (heq ▸ rfl)⟩
    · cases hnone

theorem Inv.register (h : Inv s) {c : Nat} {key : Text} {activates : Bool}
    (hc : s.phase c = .starting key activates) : Inv (s.register c key activates) := by
  have hcreates : (s.phase c).creates = some key := by
    rw [hc]
    rfl
  have hfree : key ∉ s.keys := lookup_eq_none.mp (h.lookup_creating hcreates)
  have hboxes : (s.register c key activates).sandboxes = s.sandboxes ++ [(key, c)] :=
    @put_of_free { s with
      running := update s.running c true
      keyOf := update s.keyOf c (some key) } key hfree c
  have hkeys : (s.register c key activates).keys = s.keys ++ [key] := by
    unfold State.keys
    rw [hboxes, map_append]
    rfl
  have hself : (s.register c key activates).phase c = .got (some c) := update_self _ _ _
  have hother : ∀ c', c' ≠ c → (s.register c key activates).phase c' = s.phase c' :=
    fun c' hne => update_of_ne hne _ _
  have hcreating : (s.register c key activates).creating = (s.discard key).creating := rfl
  have hgot : ∀ box, (∃ result, s.phase box = .got result) → box ≠ c := by
    rintro box ⟨result, hbox⟩ rfl
    rw [hc] at hbox
    cases hbox
  have hkept : ∀ box, (∃ result, s.phase box = .got result) →
      ∃ result, (s.register c key activates).phase box = .got result := by
    rintro box ⟨result, hbox⟩
    exact ⟨result, (hother box (hgot box ⟨result, hbox⟩)).trans hbox⟩
  have hclearing : ∀ c' rest, (s.register c key activates).phase c' = .clearing rest →
      s.phase c' = .clearing rest := by
    intro c' rest hc'
    have hne : c' ≠ c := by
      rintro rfl
      rw [hself] at hc'
      cases hc'
    exact (hother c' hne).symm.trans hc'
  have holds : ∀ c' key', ((s.register c key activates).phase c').creates = some key' →
      c' ≠ c ∧ (s.phase c').creates = some key' := by
    intro c' key' hc'
    have hne : c' ≠ c := by
      rintro rfl
      rw [hself] at hc'
      cases hc'
    exact ⟨hne, by rw [← hother c' hne]; exact hc'⟩
  exact {
    nodup := by
      rw [hkeys]
      refine nodup_append.mpr ⟨h.nodup, nodup_singleton key, fun a ha b hb hab => ?_⟩
      obtain rfl := mem_singleton.mp hb
      exact hfree (hab ▸ ha)
    live := fun key' box hmem => by
      rw [hboxes] at hmem
      rcases mem_append.mp hmem with hmem | hmem
      · obtain ⟨hrun, hkey, hbox⟩ := h.live key' box hmem
        have hne := hgot box hbox
        refine ⟨?_, ?_, hkept box hbox⟩
        · exact (update_of_ne hne _ _).trans hrun
        · exact (update_of_ne hne _ _).trans hkey
      · obtain ⟨rfl, rfl⟩ := Prod.mk.inj (mem_singleton.mp hmem)
        exact ⟨update_self _ _ _, update_self _ _ _, some _, hself⟩
    held := fun box hrun => by
      rw [hboxes]
      by_cases hne : box = c
      · subst hne
        exact Or.inl ⟨key, mem_append_right _ mem_cons_self⟩
      · have hold : s.running box = true := (update_of_ne hne _ _).symm.trans hrun
        rcases h.held box hold with ⟨key', hmem⟩ | ⟨c', rest, hc', hmem⟩
        · exact Or.inl ⟨key', mem_append_left _ hmem⟩
        · have hne' : c' ≠ c := by
            rintro rfl
            rw [hc] at hc'
            cases hc'
          exact Or.inr ⟨c', rest, (hother c' hne').trans hc', hmem⟩
    queued := fun c' rest box hc' hmem => by
      obtain ⟨habsent, hbox⟩ := h.queued c' rest box (hclearing c' rest hc') hmem
      refine ⟨fun key' hin => ?_, hkept box hbox⟩
      rw [hboxes] at hin
      rcases mem_append.mp hin with hin | hin
      · exact habsent key' hin
      · exact hgot box hbox (Prod.mk.inj (mem_singleton.mp hin)).2
    creating := fun key' => by
      rw [hcreating, mem_discard hcreates]
      constructor
      · rintro (⟨hin, hout⟩ | hnone)
        · obtain ⟨c', hc'⟩ := (h.creating key').mp hin
          have hne : c' ≠ c := by
            rintro rfl
            exact hout hc'
          exact ⟨c', by rw [hother c' hne]; exact hc'⟩
        · cases hnone
      · rintro ⟨c', hc'⟩
        obtain ⟨hne, hold⟩ := holds c' key' hc'
        exact Or.inl ⟨(h.creating key').mpr ⟨c', hold⟩, fun hin => hne (h.alone c' c key' hold hin)⟩
    alone := fun a b key' ha hb => h.alone a b key' (holds a key' ha).2 (holds b key' hb).2
    free := fun key' hin hmem => by
      rw [hcreating, mem_discard hcreates] at hin
      obtain ⟨hin, hout⟩ := hin.resolve_right (by rintro ⟨⟩)
      rw [hkeys] at hmem
      rcases mem_append.mp hmem with hmem | hmem
      · exact h.free key' hin hmem
      · obtain rfl := mem_singleton.mp hmem
        exact hout hcreates
    once := h.once.filter _
    saved := Or.inl rfl }

theorem Inv.clear (h : Inv s) {c : Nat} {p : Phase} {boxes : List Nat} (hp : s.phase c = p)
    (hcases : p = .idle ∧ s'.sandboxes = [] ∧ boxes = s.sandboxes.map Prod.snd ∨
      p = .clearing boxes ∧ s'.sandboxes = s.sandboxes)
    (hrunning : s'.running = s.running) (hkeyOf : s'.keyOf = s.keyOf)
    (hcreating : s'.creating = s.creating) (hphase : s'.phase = s.phase) :
    Inv (s'.clear c boxes) := by
  have hpc : p.creates = none ∧ ∀ result, p ≠ .got result := by
    rcases hcases with ⟨rfl, -⟩ | ⟨rfl, -⟩ <;> exact ⟨rfl, fun _ => Phase.noConfusion⟩
  have hsub : s'.sandboxes.Sublist s.sandboxes := by
    rcases hcases with ⟨-, hempty, -⟩ | ⟨-, hsame⟩
    · rw [hempty]
      exact nil_sublist _
    · rw [hsame]
  -- the sandboxes to stop are registered no more
  have habsent : ∀ box ∈ boxes, (∀ key, (key, box) ∉ s'.sandboxes) ∧
      ∃ result, s.phase box = .got result := by
    intro box hbox
    rcases hcases with ⟨-, hempty, rfl⟩ | ⟨rfl, hsame⟩
    · obtain ⟨entry, hentry, rfl⟩ := mem_map.mp hbox
      refine ⟨fun key hmem => ?_, (h.live entry.1 entry.2 hentry).2.2⟩
      rw [hempty] at hmem
      cases hmem
    · obtain ⟨hout, hgot⟩ := h.queued c boxes box hp hbox
      exact ⟨fun key hmem => hout key (hsame ▸ hmem), hgot⟩
  have hregistered : ∀ box, (∃ key, (key, box) ∈ s.sandboxes) →
      (∃ key, (key, box) ∈ s'.sandboxes) ∨ box ∈ boxes := by
    rintro box ⟨key, hmem⟩
    rcases hcases with ⟨-, -, rfl⟩ | ⟨-, hsame⟩
    · exact Or.inr (mem_map_of_mem (f := Prod.snd) hmem)
    · exact Or.inl ⟨key, hsame ▸ hmem⟩
  have hpassed : ∀ rest box, p = .clearing rest → box ∈ rest → box ∈ boxes := by
    rintro rest box hrest hbox
    rcases hcases with ⟨rfl, -⟩ | ⟨rfl, -⟩
    · cases hrest
    · cases hrest
      exact hbox
  have hlive : ∀ key box, (key, box) ∈ s'.sandboxes → s.running box = true := fun key box hmem =>
    (h.live key box (hsub.subset hmem)).1
  have hc : ∀ q : Phase, q.creates = none → ∀ key, key ∈ s'.creating ↔
      key ∈ s.creating ∧ p.creates ≠ some key ∨ q.creates = some key := by
    intro q hq key
    rw [hcreating, hpc.1, hq]
    simp
  cases boxes with
  | nil =>
    have hnext : (s'.clear c []).phase = update s.phase c .done := by
      rw [← hphase]
      rfl
    refine h.change hp hnext hpc.2 hkeyOf hsub (fun key box hmem => ?_) (fun box hrun => ?_) nofun
      (hc .done rfl) nofun (hcreating ▸ h.once) (Or.inl rfl)
    · exact (congrFun hrunning box).trans (hlive key box hmem)
    · refine ⟨(congrFun hrunning box).symm.trans hrun, fun hmem => ?_, fun rest hrest hbox => ?_⟩
      · exact Or.inl ((hregistered box hmem).resolve_right not_mem_nil)
      · exact absurd (hpassed rest box hrest hbox) not_mem_nil
  | cons first rest =>
    have hfirst := habsent first mem_cons_self
    have hstop : ∀ box, box ≠ first → (s'.clear c (first :: rest)).running box = s.running box := by
      intro box hne
      exact (update_of_ne hne _ _).trans (congrFun hrunning box)
    have hstopped : ∀ box, (s'.clear c (first :: rest)).running box = true → box ≠ first := by
      rintro box hrun rfl
      simp [State.clear, State.setPhase, State.stop] at hrun
    have hnext : (s'.clear c (first :: rest)).phase =
        update s.phase c (.clearing rest) := by
      rw [← hphase]
      rfl
    refine h.change hp hnext hpc.2 hkeyOf hsub (fun key box hmem => ?_) (fun box hrun => ?_) (fun rest' box hq hbox => ?_)
      (hc (.clearing rest) rfl) nofun (hcreating ▸ h.once)
      (Or.inr (Or.inl trivial))
    · have hne : box ≠ first := by
        rintro rfl
        exact hfirst.1 key hmem
      exact (hstop box hne).trans (hlive key box hmem)
    · have hne := hstopped box hrun
      refine ⟨(hstop box hne).symm.trans hrun, fun hmem => ?_, fun rest' hrest hbox => ?_⟩
      · refine (hregistered box hmem).imp_right fun hbox => ⟨rest, rfl, ?_⟩
        exact (mem_cons.mp hbox).resolve_left hne
      · exact ⟨rest, rfl, (mem_cons.mp (hpassed rest' box hrest hbox)).resolve_left hne⟩
    · cases hq
      exact habsent box (mem_cons_of_mem first hbox)

theorem Inv.step (h : Inv s) {e : Event} (hs : step maxSandboxes s e = some s') : Inv s' := by
  cases moves_of_step hs with
  | refused key activates hc hoff =>
    exact h.move hc rfl (Or.inl rfl) rfl (fun _ => Phase.noConfusion) rfl rfl rfl rfl rfl
  | get key activates hc hon =>
    exact h.move hc rfl (Or.inl rfl) rfl (fun _ => Phase.noConfusion) rfl rfl rfl rfl rfl
  | unavailable hc =>
    exact h.move hc rfl (Or.inr ⟨_, _, rfl⟩) rfl (fun _ => Phase.noConfusion) rfl rfl rfl rfl rfl
  | test hc => exact h.test hc
  | @evicted c key activates victim hc =>
    have hcreates : (s.phase c).creates = some key := by
      rw [hc]
      rfl
    have hin : key ∈ s.creating := (h.creating key).mpr ⟨c, hcreates⟩
    rw [h.evicted hc]
    refine h.change hc rfl (fun _ => Phase.noConfusion) rfl (List.Sublist.refl _)
      (fun key box hmem => (h.live key box hmem).1)
      (fun box hrun => ⟨hrun, fun hmem => Or.inl hmem, fun _ hrest => by cases hrest⟩)
      nofun (fun key' => ?_) (fun key' hq => ?_) h.once (Or.inl rfl)
    · show key' ∈ s.creating ↔ key' ∈ s.creating ∧ some key ≠ some key' ∨ some key = some key'
      by_cases heq : key = key'
      · subst heq
        simp [hin]
      · simp [heq]
    · cases hq
      exact ⟨Or.inl rfl, h.free key hin⟩
  | @failed c key activates hc =>
    have hcreates : (s.phase c).creates = some key := by
      rw [hc]
      rfl
    refine h.change hc rfl (fun _ => Phase.noConfusion) rfl (List.Sublist.refl _)
      (fun key box hmem => (h.live key box hmem).1)
      (fun box hrun => ⟨hrun, fun hmem => Or.inl hmem, fun _ hrest => by cases hrest⟩)
      nofun (fun key' => ?_) nofun (h.once.filter _)
      (Or.inr (Or.inr ⟨rfl, rfl, id⟩))
    rw [← hc]
    exact mem_discard hcreates key'
  | started hc => exact h.register hc
  | missing hc hkey =>
    exact h.move hc rfl (Or.inl rfl) rfl (fun _ => Phase.noConfusion) rfl rfl rfl rfl rfl
  | @destroy c key box hc hkey =>
    have hmem := mem_of_lookup hkey
    refine h.change hc rfl (fun _ => Phase.noConfusion) rfl filter_sublist
      (fun key' box' hmem' => ?_) (fun box' hrun => ?_) nofun
      (fun key' => ?_) nofun h.once (Or.inr (Or.inl trivial))
    · have hin := (mem_pop.mp hmem').1
      exact (stop_running s box).mpr ⟨(h.pop_iff hmem hin).mp hmem', (h.live key' box' hin).1⟩
    · obtain ⟨hne, hold⟩ := (stop_running s box).mp hrun
      refine ⟨hold, ?_, fun _ hrest => by cases hrest⟩
      rintro ⟨key', hin⟩
      exact Or.inl ⟨key', (h.pop_iff hmem hin).mpr hne⟩
    · show key' ∈ s.creating ↔ key' ∈ s.creating ∧ none ≠ some key' ∨ none = some key'
      simp
  | @destroyed c key hc =>
    refine h.change hc rfl (fun _ => Phase.noConfusion) rfl (List.Sublist.refl _)
      (fun key box hmem => (h.live key box hmem).1)
      (fun box hrun => ⟨hrun, fun hmem => Or.inl hmem, fun _ hrest => by cases hrest⟩)
      nofun (fun key' => ?_) nofun h.once (Or.inl rfl)
    show key' ∈ s.creating ↔ key' ∈ s.creating ∧ none ≠ some key' ∨ none = some key'
    simp
  | destroyAll hc => exact h.clear hc (Or.inl ⟨rfl, rfl, rfl⟩) rfl rfl rfl rfl
  | stopped hc => exact h.clear hc (Or.inr ⟨rfl, rfl⟩) rfl rfl rfl rfl
  | disable => exact ⟨h.nodup, h.live, h.held, h.queued, h.creating, h.alone, h.free, h.once, h.saved⟩

theorem inv_run {events : List Event} (h : Steps.run (step maxSandboxes) init events = some s) :
    Inv s :=
  Steps.run_invariant (step maxSandboxes) Inv (fun _ _ _ h hs => h.step hs) init s events inv_init h

end Steps

end MiqroForge.Sandboxes
