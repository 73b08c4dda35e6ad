import MiqroForge.Sandboxes.Custody

/-! What holds of the registry: its size, the sandboxes outside it, and the calls that get none. -/

set_option linter.unusedSectionVars false

namespace MiqroForge.Sandboxes

open PyText

variable {maxSandboxes : Nat} {s s' : State}

/-! ## The number of sandboxes -/

section Capacity

/-- A creation finds a sandbox to evict in a full registry, or room beside the other creations. -/
def Spare (maxSandboxes : Nat) (s : State) : Event → Prop
  | .probed c true => ∀ key activates, s.phase c = .checking key activates →
      maxSandboxes ≤ s.sandboxes.length ∧ s.sandboxes ≠ [] ∧ [] ∉ s.keys ∨
        s.sandboxes.length + s.creating.length < maxSandboxes
  | _ => True

def Fits (maxSandboxes : Nat) (s : State) : Prop :=
  s.sandboxes.length + s.creating.length ≤ maxSandboxes

theorem pop_length {key : Text} {box : Nat} (h : (key, box) ∈ s.sandboxes) :
    (s.pop key).sandboxes.length < s.sandboxes.length := by
  unfold State.pop
  refine lt_of_le_of_ne (List.length_filter_le _ _) fun heq => ?_
  have hall := List.length_filter_eq_length_iff.mp heq _ h
  simp at hall

theorem discard_length {key : Text} (h : key ∈ s.creating) :
    (s.discard key).creating.length < s.creating.length := by
  unfold State.discard
  refine lt_of_le_of_ne (List.length_filter_le _ _) fun heq => ?_
  have hall := List.length_filter_eq_length_iff.mp heq _ h
  simp at hall

theorem Fits.create (h : Fits maxSandboxes s) {c : Nat} {key : Text} {activates : Bool}
    (hspare : maxSandboxes ≤ s.sandboxes.length ∧ s.sandboxes ≠ [] ∧ [] ∉ s.keys ∨
      s.sandboxes.length + s.creating.length < maxSandboxes) :
    Fits maxSandboxes (s.create maxSandboxes c key activates) := by
  unfold Fits at h ⊢
  rcases create_cases maxSandboxes s c key activates with ⟨victim, box, hmem, -, heq⟩ | ⟨heq, hroom⟩
  · rw [heq]
    show (s.pop victim).sandboxes.length + (key :: s.creating).length ≤ maxSandboxes
    have hless := pop_length hmem
    rw [List.length_cons]
    omega
  · rw [heq]
    show s.sandboxes.length + (key :: s.creating).length ≤ maxSandboxes
    rw [List.length_cons]
    rcases hspare with ⟨hfull, hne, hnamed⟩ | hless
    · rcases hroom hfull with hempty | hmem
      · exact absurd hempty hne
      · exact absurd hmem hnamed
    · omega

theorem Fits.step (hinv : Inv s) (h : Fits maxSandboxes s) {e : Event}
    (hspare : Spare maxSandboxes s e) (hs : step maxSandboxes s e = some s') :
    Fits maxSandboxes s' := by
  cases moves_of_step hs with
  | refused _ _ _ _ => exact h
  | get _ _ _ _ => exact h
  | unavailable _ => exact h
  | @test c key activates hc =>
    rcases hinv.test_cases maxSandboxes c key activates with ⟨box, -, heq⟩ | ⟨-, -, heq⟩ | ⟨-, -, heq⟩
    · rw [heq]
      exact h
    · rw [heq]
      exact h
    · rw [heq]
      exact h.create (hspare key activates hc)
  | evicted hc =>
    rw [hinv.evicted hc]
    exact h
  | @failed c key activates hc =>
    have hle : (s.discard key).creating.length ≤ s.creating.length := List.length_filter_le _ _
    exact Nat.le_trans (Nat.add_le_add_left hle _) h
  | @started c key activates hc =>
    have hin : key ∈ s.creating := (hinv.creating key).mpr ⟨c, by rw [hc]; rfl⟩
    have hfree : key ∉ s.keys := hinv.free key hin
    have hboxes : (s.register c key activates).sandboxes = s.sandboxes ++ [(key, c)] :=
      @put_of_free { s with
        running := Function.update s.running c true
        keyOf := Function.update s.keyOf c (some key) } key hfree c
    have hless := discard_length hin
    unfold Fits at h ⊢
    rw [hboxes, List.length_append, List.length_singleton]
    show s.sandboxes.length + 1 + (s.discard key).creating.length ≤ maxSandboxes
    omega
  | missing _ _ => exact h
  | destroy _ hkey =>
    have hless := pop_length (mem_of_lookup hkey)
    exact Nat.le_trans (Nat.add_le_add_right (Nat.le_of_lt hless) _) h
  | destroyed _ => exact h
  | destroyAll _ =>
    have hle : 0 + s.creating.length ≤ s.sandboxes.length + s.creating.length := by omega
    cases hboxes : s.sandboxes.map Prod.snd with
    | nil => exact Nat.le_trans hle h
    | cons box rest => exact Nat.le_trans hle h
  | @stopped c rest hc =>
    cases rest with
    | nil => exact h
    | cons box rest => exact h
  | disable => exact h

end Capacity

/-! ## Calls that get none -/

/-- Why `get_or_create` returns `None`. -/
inductive Refuses (s : State) (c : Nat) : Event → Prop where
  | disabled (key : Text) (activates : Bool) (h : s.enabled = false) :
      Refuses s c (.get c key activates)
  | unavailable : Refuses s c (.probed c false)
  | failed : Refuses s c (.started c false)
  /-- Another call creates the sandbox. -/
  | busy {c' : Nat} {key : Text} {activates : Bool} (h : s.phase c = .checking key activates)
      (hother : (s.phase c').creates = some key) : Refuses s c (.probed c true)

theorem refuses_of_step (hinv : Inv s) {e : Event} (hs : step maxSandboxes s e = some s') {c : Nat}
    (hbefore : s.phase c ≠ .got none) (hnone : s'.phase c = .got none) : Refuses s c e := by
  -- only the call of the event moves
  have hown : ∀ (s₁ : State) (c' : Nat) (q : Phase), s₁.phase = Function.update s.phase c' q →
      s₁.phase c = .got none → c = c' ∧ q = .got none := by
    intro s₁ c' q hphase hgot
    by_cases hne : c = c'
    · subst hne
      rw [hphase, Function.update_self] at hgot
      exact ⟨rfl, hgot⟩
    · rw [hphase, Function.update_of_ne hne] at hgot
      exact absurd hgot hbefore
  cases moves_of_step hs with
  | @refused c' key activates hc hoff =>
    obtain ⟨rfl, -⟩ := hown _ c' _ rfl hnone
    exact .disabled key activates hoff
  | @get c' key activates hc hon => cases (hown _ c' _ rfl hnone).2
  | @unavailable c' key activates hc =>
    obtain ⟨rfl, -⟩ := hown _ c' _ rfl hnone
    exact .unavailable
  | @test c' key activates hc =>
    rcases hinv.test_cases maxSandboxes c' key activates with
      ⟨box, -, heq⟩ | ⟨-, hin, heq⟩ | ⟨-, -, heq⟩
    · rw [heq] at hnone
      cases (hown _ c' _ rfl hnone).2
    · rw [heq] at hnone
      obtain ⟨rfl, -⟩ := hown _ c' _ rfl hnone
      obtain ⟨other, hother⟩ := (hinv.creating key).mp hin
      exact .busy hc hother
    · rw [heq] at hnone
      rcases create_cases maxSandboxes s c' key activates with ⟨_, _, _, _, heq⟩ | ⟨heq, _⟩
      · rw [heq] at hnone
        cases (hown _ c' _ rfl hnone).2
      · rw [heq] at hnone
        cases (hown _ c' _ rfl hnone).2
  | @evicted c' key activates victim hc =>
    rw [hinv.evicted hc] at hnone
    cases (hown _ c' _ rfl hnone).2
  | @failed c' key activates hc =>
    obtain ⟨rfl, -⟩ := hown _ c' _ rfl hnone
    exact .failed
  | @started c' key activates hc => cases (hown _ c' _ rfl hnone).2
  | @missing c' key hc hkey => cases (hown _ c' _ rfl hnone).2
  | @destroy c' key box hc hkey => cases (hown _ c' _ rfl hnone).2
  | @destroyed c' key hc => cases (hown _ c' _ rfl hnone).2
  | @destroyAll c' hc =>
    cases hboxes : s.sandboxes.map Prod.snd with
    | nil =>
      rw [hboxes] at hnone
      cases (hown _ c' .done rfl hnone).2
    | cons box rest =>
      rw [hboxes] at hnone
      cases (hown _ c' (.clearing rest) rfl hnone).2
  | @stopped c' rest hc =>
    cases rest with
    | nil => cases (hown _ c' .done rfl hnone).2
    | cons box rest => cases (hown _ c' (.clearing rest) rfl hnone).2
  | disable => exact absurd hnone hbefore

/-! ## Switched off -/

section Off

/-- The call may still create a sandbox. -/
def Phase.gets : Phase → Prop
  | .checking _ _ | .evicting _ _ _ | .starting _ _ => True
  | _ => False

/-- Nothing is registered, and nothing will be. -/
structure Off (s : State) : Prop where
  disabled : s.enabled = false
  empty : s.sandboxes = []
  none : ∀ c, ¬(s.phase c).gets

theorem Off.setPhase (h : Off s) {c : Nat} {q : Phase} (hphase : s'.phase = Function.update s.phase c q)
    (hq : ¬q.gets) (henabled : s'.enabled = s.enabled) (hempty : s'.sandboxes = []) : Off s' where
  disabled := henabled.trans h.disabled
  empty := hempty
  none := by
    intro c'
    by_cases hne : c' = c
    · subst hne
      rwa [hphase, Function.update_self]
    · rw [hphase, Function.update_of_ne hne]
      exact h.none c'

theorem off_clear {c : Nat} {boxes : List Nat} (henabled : s.enabled = false)
    (hempty : s.sandboxes = []) (hnone : ∀ c, ¬(s.phase c).gets) : Off (s.clear c boxes) := by
  have h : Off s := ⟨henabled, hempty, hnone⟩
  cases boxes with
  | nil => exact h.setPhase rfl id rfl hempty
  | cons box rest =>
    exact h.setPhase (show _ = Function.update s.phase c (.clearing rest) from rfl) id rfl hempty

theorem Off.step (h : Off s) {e : Event} (hs : step maxSandboxes s e = some s') : Off s' := by
  have hgets : ∀ {c : Nat} {p : Phase}, s.phase c = p → p.gets → False := fun {c} {p} hc hp =>
    h.none c (hc ▸ hp)
  cases moves_of_step hs with
  | refused key activates hc hoff => exact h.setPhase rfl id rfl h.empty
  | get key activates hc hon => exact absurd (h.disabled.symm.trans hon) Bool.false_ne_true
  | unavailable hc => exact (hgets hc trivial).elim
  | test hc => exact (hgets hc trivial).elim
  | evicted hc => exact (hgets hc trivial).elim
  | failed hc => exact (hgets hc trivial).elim
  | started hc => exact (hgets hc trivial).elim
  | missing hc hkey => exact h.setPhase rfl id rfl h.empty
  | destroy hc hkey =>
    have hmem := mem_of_lookup hkey
    rw [h.empty] at hmem
    cases hmem
  | destroyed hc => exact h.setPhase rfl id rfl h.empty
  | destroyAll hc => exact off_clear h.disabled rfl h.none
  | stopped hc => exact off_clear h.disabled h.empty h.none
  | disable => exact ⟨rfl, h.empty, h.none⟩

theorem Off.stopped (h : Off s) (hinv : Inv s) (hover : ∀ c, (s.phase c).over) (box : Nat) :
    s.running box = false := by
  by_contra hrun
  rcases hinv.held box (by simpa using hrun) with ⟨key, hmem⟩ | ⟨c, rest, hc, -⟩
  · rw [h.empty] at hmem
    cases hmem
  · have hbusy := hover c
    rw [hc] at hbusy
    exact hbusy

end Off

/-- What holds in every state that is reached. -/
structure Kept (maxSandboxes : Nat) (s : State) : Prop where
  registered : ∀ box, s.running box = true →
    (∃ key, s.keyOf box = some key ∧ (key, box) ∈ s.sandboxes) ∨
      ∃ c rest, s.phase c = .clearing rest ∧ box ∈ rest
  listed : (∀ c, (s.phase c).over) → s.stateFile = s.keys
  refused : ∀ e s' c, step maxSandboxes s e = some s' → s.phase c ≠ .got none →
    s'.phase c = .got none → Refuses s c e
  switchedOff : s.enabled = false → (∀ c, ¬(s.phase c).gets) → ∀ c after t,
    Steps.run (step maxSandboxes) s (.destroyAll c :: after) = some t →
      (∀ c, (t.phase c).over) → ∀ box, t.running box = false

/-- **The registry.** A sandbox that runs is registered under its key or will be stopped by the
`destroy_all` that has taken it, the state file is right when no call is in progress, a call gets
none only if it is refused, and the registry is within its bound if the creations find room. -/
theorem registry_kept {events : List Event}
    (hrun : Steps.run (step maxSandboxes) init events = some s) :
    Kept maxSandboxes s ∧
      (Steps.GoodRun (step maxSandboxes) (Spare maxSandboxes) init events →
        s.sandboxes.length ≤ maxSandboxes) := by
  have hinv := inv_run hrun
  refine ⟨⟨fun box hbox => ?_, fun hover => ?_, fun e s' c hs => refuses_of_step hinv hs,
    fun hoff hnone c after t hall hover box => ?_⟩, fun hspare => ?_⟩
  · rcases hinv.held box hbox with ⟨key, hmem⟩ | hqueued
    · exact Or.inl ⟨key, (hinv.live key box hmem).2.1, hmem⟩
    · exact Or.inr hqueued
  · refine hinv.saved.resolve_right ?_
    rintro ⟨c, howes⟩
    have hc := hover c
    cases hphase : s.phase c with
    | _ =>
      rw [hphase] at howes hc
      first | exact hc | exact howes
  · obtain ⟨u, hu, hrest⟩ := Steps.run_cons_some (step maxSandboxes) hall
    have hoff' : Off u := by
      cases moves_of_step hu with
      | destroyAll hc => exact off_clear hoff rfl hnone
    have hend := Steps.run_invariant (step maxSandboxes) (fun s => Inv s ∧ Off s)
      (fun _ _ _ h hs => ⟨h.1.step hs, h.2.step hs⟩) u t after ⟨hinv.step hu, hoff'⟩ hrest
    exact hend.2.stopped hend.1 hover box
  · have hfits := (Steps.goodRun_invariant (step maxSandboxes) (Spare maxSandboxes)
      (fun s => Inv s ∧ Fits maxSandboxes s)
      (fun _ _ _ h he hs => ⟨h.1.step hs, h.2.step h.1 he hs⟩) init s events
      ⟨inv_init, Nat.zero_le _⟩ hrun hspare).2
    exact Nat.le_trans (Nat.le_add_right _ _) hfits

theorem one_sandbox_kept :
    ∃ s, Steps.run (step 1) init [.get 0 "a".toList true, .probed 0 true, .started 0 true] = some s ∧
      Kept 1 s ∧ s.sandboxes.length ≤ 1 := by
  have hspare : Steps.GoodRun (step 1) (Spare 1) init
      [.get 0 "a".toList true, .probed 0 true, .started 0 true] := by
    refine ⟨trivial, fun _ h => ⟨fun _ _ _ => Or.inr ?_, fun _ _ => ⟨trivial, fun _ _ => trivial⟩⟩⟩
    cases h
    exact Nat.zero_lt_one
  obtain ⟨s, hrun⟩ : ∃ s, Steps.run (step 1) init
      [.get 0 "a".toList true, .probed 0 true, .started 0 true] = some s := ⟨_, rfl⟩
  obtain ⟨hkept, hsize⟩ := registry_kept hrun
  exact ⟨s, hrun, hkept, hsize hspare⟩

/-- A second call for a session gets none as the first creates its sandbox; two sessions that start
at once exceed the bound; and a start that outlasts `destroy_all` leaves a sandbox running. -/
theorem concurrent_creations :
    (∃ s, Steps.run (step 1) init [.get 0 "a".toList true, .get 1 "a".toList true, .probed 0 true,
        .probed 1 true] = some s ∧ s.enabled = true ∧ s.phase 1 = .got none) ∧
    (∃ s, Steps.run (step 1) init [.get 0 "a".toList true, .get 1 "b".toList true, .probed 0 true,
        .probed 1 true, .started 0 true, .started 1 true] = some s ∧ s.sandboxes.length = 2) ∧
    ∃ s, Steps.run (step 1) init [.get 0 "a".toList true, .probed 0 true, .disable, .destroyAll 1,
        .started 0 true] = some s ∧ s.phase 1 = .done ∧ s.phase 0 = .got (some 0) ∧
      s.running 0 = true :=
  ⟨⟨_, rfl, rfl, rfl⟩, ⟨_, rfl, rfl⟩, _, rfl, rfl, rfl, rfl⟩

end MiqroForge.Sandboxes
