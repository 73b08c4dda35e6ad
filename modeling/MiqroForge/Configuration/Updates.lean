import MiqroForge.Library.Steps

/-!
The writers of `config.json`: `update_config_field`, which reads the disk under its lock, and the
handlers that call `load_config`, change the object it returns, and call `save_config`. The object
is shared with the cache and with every handler that has got it.
-/

set_option linter.unusedSectionVars false

namespace MiqroForge.Configuration

variable {K V W : Type} [DecidableEq W]

/-- The settings that a writer means to change, and how. -/
structure Change (K V : Type) where
  apply : (K → V) → K → V
  means : K → Prop
  frame : ∀ c k, ¬means k → apply c k = c k

def Change.put [DecidableEq K] (k : K) (v : V) : Change K V where
  apply := fun c => Function.update c k v
  means := (· = k)
  frame := fun c _ h => Function.update_of_ne h v c

/-- A config file. `broken` stands for what `json.load` or `Config.model_validate` refuses. -/
inductive File (K V : Type) where
  | absent
  | broken
  | valid (settings : K → V)

inductive Place where
  | preferred
  | legacy
deriving DecidableEq

structure State (K V W : Type) where
  file : Place → File K V
  /-- The `Config` objects of the process. -/
  object : Nat → K → V
  next : Nat
  /-- `_cache`, with the time of the entry. -/
  cache : Place → Option (Nat × Nat)
  now : Nat
  /-- The object that a handler has loaded. -/
  held : W → Option Nat
  /-- How often the file has been written. -/
  saves : Nat
  /-- The number of writes when the object was last read from the disk, or written to it. -/
  asOf : Nat → Option Nat

inductive Event (K V W : Type) where
  | pass (ticks : Nat)
  | update (change : Change K V)
  | load (w : W)
  /-- The handler saves its object, changed in place or as a changed copy. -/
  | save (w : W) (change : Change K V) (inPlace : Bool)
  /-- `save_config` raises, with the object already changed in place. -/
  | saveFails (w : W) (change : Change K V)

section Step

/-- `_CACHE_TTL_S`, in ticks. -/
def cacheTtl : Nat := 5

def start (file : Place → File K V) (settings : K → V) : State K V W where
  file := file
  object := fun _ => settings
  next := 0
  cache := fun _ => none
  now := 0
  held := fun _ => none
  saves := 0
  asOf := fun _ => none

namespace State
variable (s : State K V W)

/-- `path.exists()` -/
def pathExists (p : Place) : Bool :=
  match s.file p with
  | .absent => false
  | _ => true

/-- `_get_load_path`. -/
def loadPath : Place :=
  if s.pathExists .preferred || !s.pathExists .legacy then .preferred else .legacy

def put (p : Place) (settings : K → V) : State K V W :=
  { s with
    file := fun q => if q = p then .valid settings else s.file q
    cache := fun q => if q = p then none else s.cache q
    saves := s.saves + 1 }

/-- A new object, read now or not. -/
def allocate (w : W) (p : Place) (settings : K → V) (readNow : Bool) : State K V W :=
  { s with
    object := Function.update s.object s.next settings
    next := s.next + 1
    cache := fun q => if q = p then some (s.now, s.next) else s.cache q
    held := Function.update s.held w (some s.next)
    asOf := Function.update s.asOf s.next (if readNow then some s.saves else none) }

/-- `load_config` past its cache. -/
def read (w : W) (settings : K → V) : State K V W :=
  match s.file s.loadPath with
  | .valid c => s.allocate w s.loadPath c true
  | .absent => s.allocate w s.loadPath settings true
  | .broken => s.allocate w s.loadPath settings false

/-- `load_config`. -/
def load (w : W) (settings : K → V) : State K V W :=
  match s.cache s.loadPath with
  | some (time, o) =>
    if s.now - time < cacheTtl then { s with held := Function.update s.held w (some o) }
    else s.read w settings
  | none => s.read w settings

def updateConfigField (change : Change K V) (settings : K → V) : State K V W :=
  match s.file s.loadPath with
  | .valid c => s.put s.loadPath (change.apply c)
  | .absent => s.put s.loadPath (change.apply settings)
  | .broken => s

/-- `save_config` of a loaded object. -/
def save (w : W) (o : Nat) (change : Change K V) (inPlace : Bool) : State K V W :=
  let changed := change.apply (s.object o)
  let saved := s.put .preferred changed
  { saved with
    held := Function.update s.held w none
    object := if inPlace then Function.update s.object o changed else s.object
    asOf := if inPlace then Function.update s.asOf o (some saved.saves) else s.asOf }

def spoil (w : W) (o : Nat) (change : Change K V) : State K V W :=
  { s with
    held := Function.update s.held w none
    object := Function.update s.object o (change.apply (s.object o))
    asOf := Function.update s.asOf o none }

end State

/-- `settings` is `Config()`. -/
def step (settings : K → V) (s : State K V W) : Event K V W → Option (State K V W)
  | .pass ticks => some { s with now := s.now + ticks }
  | .update change => some (s.updateConfigField change settings)
  | .load w => some (s.load w settings)
  | .save w change inPlace => (s.held w).map fun o => s.save w o change inPlace
  | .saveFails w change => (s.held w).map fun o => s.spoil w o change

end Step

/-! ## The settings on disk -/

section Disk

/-- What the next reader of the disk gets. -/
def State.onDisk (settings : K → V) (s : State K V W) : Option (K → V) :=
  match s.file s.loadPath with
  | .valid c => some c
  | .absent => some settings
  | .broken => none

/-- The change that the event writes. -/
def Event.change : Event K V W → Option (Change K V)
  | .update change => some change
  | .save _ change _ => some change
  | _ => none

def Event.means (e : Event K V W) (k : K) : Prop := ∃ change, e.change = some change ∧ change.means k

/-- A handler saves an object that was read from a file that parses, or saved, when the file was
last written, and that no failed save has changed since. -/
def Current (s : State K V W) : Event K V W → Prop
  | .save w _ _ => ∀ o, s.held w = some o → s.asOf o = some s.saves
  | _ => True

/-- An event writes what it means to change over the settings on disk, and does not replace a file
that cannot be parsed. -/
structure Respects (settings : K → V) (s : State K V W) (e : Event K V W) (s' : State K V W) :
    Prop where
  kept : s.onDisk settings = none → s'.file = s.file
  written : ∀ c, s.onDisk settings = some c →
    s'.onDisk settings = some (e.change.elim c fun change => change.apply c)

variable {settings : K → V} {s s' : State K V W}

/-- An object that is as of the last write holds the settings on disk. -/
structure Inv (settings : K → V) (s : State K V W) : Prop where
  bound : ∀ o n, s.asOf o = some n → n ≤ s.saves
  current : ∀ o, s.asOf o = some s.saves → s.onDisk settings = some (s.object o)

theorem inv_start (file : Place → File K V) (settings : K → V) :
    Inv settings (start file settings : State K V W) where
  bound := fun _ _ h => by cases h
  current := fun _ h => by cases h

theorem onDisk_congr (h : s'.file = s.file) : s'.onDisk settings = s.onDisk settings := by
  unfold State.onDisk State.loadPath State.pathExists
  rw [h]

theorem onDisk_put {p : Place} (hp : p = .preferred ∨ p = s.loadPath) (c : K → V) :
    (s.put p c).onDisk settings = some c := by
  have hexists : ∀ q, (s.put p c).pathExists q = (q == p || s.pathExists q) := by
    intro q
    by_cases hq : q = p
    · simp [State.put, State.pathExists, hq]
    · simp [State.put, State.pathExists, hq]
  have hpath : (s.put p c).loadPath = p := by
    unfold State.loadPath
    rw [hexists, hexists]
    cases hq : p with
    | preferred => rfl
    | legacy =>
      rw [hq] at hp
      have hlegacy := hp.resolve_left Place.noConfusion
      unfold State.loadPath at hlegacy
      split at hlegacy
      · cases hlegacy
      · rename_i h
        simp only [Bool.or_eq_true, not_or, Bool.not_eq_true] at h
        simp [h.1]
  unfold State.onDisk
  rw [hpath]
  simp [State.put]

end Disk

/-! ## The steps -/

section Steps
variable {settings : K → V} {s s' : State K V W}

theorem onDisk_valid {c : K → V} (h : s.file s.loadPath = .valid c) :
    s.onDisk settings = some c := by
  unfold State.onDisk
  rw [h]

theorem onDisk_absent (h : s.file s.loadPath = .absent) : s.onDisk settings = some settings := by
  unfold State.onDisk
  rw [h]

theorem Inv.put (h : Inv settings s) (p : Place) (c : K → V) : Inv settings (s.put p c) where
  bound := fun o n hn => Nat.le_succ_of_le (h.bound o n hn)
  current := fun o ho => by
    have hle : s.saves + 1 ≤ s.saves := h.bound o _ ho
    omega

theorem Inv.allocate (h : Inv settings s) (w : W) (p : Place) {c : K → V} {readNow : Bool}
    (hread : readNow = true → s.onDisk settings = some c) :
    Inv settings (s.allocate w p c readNow) where
  bound := by
    intro o n hn
    by_cases ho : o = s.next
    · subst ho
      cases readNow with
      | false => simp [State.allocate] at hn
      | true =>
        have heq : s.saves = n := by simpa [State.allocate] using hn
        exact Nat.le_of_eq heq.symm
    · exact h.bound o n (by simpa [State.allocate, ho] using hn)
  current := by
    intro o ho
    have hdisk : (s.allocate w p c readNow).onDisk settings = s.onDisk settings := onDisk_congr rfl
    rw [hdisk]
    by_cases hnext : o = s.next
    · subst hnext
      cases readNow with
      | false => simp [State.allocate] at ho
      | true =>
        rw [hread rfl]
        simp [State.allocate]
    · rw [h.current o (by simpa [State.allocate, hnext] using ho)]
      simp [State.allocate, hnext]

theorem Inv.read (h : Inv settings s) (w : W) : Inv settings (s.read w settings) := by
  unfold State.read
  split
  · exact h.allocate w _ fun _ => onDisk_valid ‹_›
  · exact h.allocate w _ fun _ => onDisk_absent ‹_›
  · exact h.allocate w _ fun hread => by cases hread

theorem read_file (s : State K V W) (w : W) (settings : K → V) :
    (s.read w settings).file = s.file := by
  unfold State.read
  split <;> rfl

theorem load_file (s : State K V W) (w : W) (settings : K → V) :
    (s.load w settings).file = s.file := by
  unfold State.load
  split
  · split
    · rfl
    · exact read_file s w settings
  · exact read_file s w settings

theorem Inv.load (h : Inv settings s) (w : W) : Inv settings (s.load w settings) := by
  unfold State.load
  split
  · split
    · exact ⟨h.bound, fun o ho => (onDisk_congr rfl).trans (h.current o ho)⟩
    · exact h.read w
  · exact h.read w

theorem Inv.update (h : Inv settings s) (change : Change K V) :
    Inv settings (s.updateConfigField change settings) := by
  unfold State.updateConfigField
  split
  · exact h.put _ _
  · exact h.put _ _
  · exact h

theorem onDisk_save (s : State K V W) (w : W) (o : Nat) (change : Change K V) (inPlace : Bool) :
    (s.save w o change inPlace).onDisk settings = some (change.apply (s.object o)) := by
  have hput : (s.put .preferred (change.apply (s.object o))).onDisk settings =
      some (change.apply (s.object o)) := onDisk_put (Or.inl rfl) _
  rw [← hput]
  exact onDisk_congr rfl

theorem Inv.save (h : Inv settings s) (w : W) (o : Nat) (change : Change K V) (inPlace : Bool) :
    Inv settings (s.save w o change inPlace) where
  bound := by
    intro o' n hn
    have hold : s.asOf o' = some n → n ≤ s.saves + 1 := fun hn =>
      Nat.le_succ_of_le (h.bound o' n hn)
    cases inPlace with
    | false => exact hold hn
    | true =>
      by_cases ho : o' = o
      · subst ho
        have heq : s.saves + 1 = n := by simpa [State.save, State.put] using hn
        exact Nat.le_of_eq heq.symm
      · exact hold (by simpa [State.save, State.put, ho] using hn)
  current := by
    intro o' ho'
    have hlate : ¬s.asOf o' = some (s.saves + 1) := fun hn => by
      have hle := h.bound o' _ hn
      omega
    rw [onDisk_save]
    cases inPlace with
    | false => exact absurd ho' hlate
    | true =>
      by_cases ho : o' = o
      · subst ho
        simp [State.save]
      · exact absurd (by simpa [State.save, State.put, ho] using ho') hlate

theorem Inv.spoil (h : Inv settings s) (w : W) (o : Nat) (change : Change K V) :
    Inv settings (s.spoil w o change) where
  bound := by
    intro o' n hn
    by_cases ho : o' = o
    · subst ho
      simp [State.spoil] at hn
    · exact h.bound o' n (by simpa [State.spoil, ho] using hn)
  current := by
    intro o' ho'
    by_cases ho : o' = o
    · subst ho
      simp [State.spoil] at ho'
    · have hdisk : (s.spoil w o change).onDisk settings = s.onDisk settings := onDisk_congr rfl
      rw [hdisk, h.current o' (by simpa [State.spoil, ho] using ho')]
      simp [State.spoil, ho]

theorem Inv.step (h : Inv settings s) {e : Event K V W} (hs : step settings s e = some s') :
    Inv settings s' := by
  cases e with
  | pass ticks =>
    cases hs
    exact ⟨h.bound, fun o ho => (onDisk_congr rfl).trans (h.current o ho)⟩
  | update change =>
    cases hs
    exact h.update change
  | load w =>
    cases hs
    exact h.load w
  | save w change inPlace =>
    obtain ⟨o, -, rfl⟩ := Option.map_eq_some_iff.mp hs
    exact h.save w o change inPlace
  | saveFails w change =>
    obtain ⟨o, -, rfl⟩ := Option.map_eq_some_iff.mp hs
    exact h.spoil w o change

theorem respects_of_file {e : Event K V W} (hfile : s'.file = s.file) (he : e.change = none) :
    Respects settings s e s' where
  kept := fun _ => hfile
  written := fun c hc => by
    rw [onDisk_congr hfile, hc, he]
    rfl

theorem respects_update (s : State K V W) (change : Change K V) :
    Respects settings s (.update change) (s.updateConfigField change settings) := by
  unfold State.updateConfigField
  split
  case h_1 c hfile =>
    refine ⟨fun hnone => ?_, fun d hd => ?_⟩
    · rw [onDisk_valid hfile] at hnone
      cases hnone
    · obtain rfl := Option.some.inj ((onDisk_valid hfile).symm.trans hd)
      exact onDisk_put (Or.inr rfl) _
  case h_2 hfile =>
    refine ⟨fun hnone => ?_, fun d hd => ?_⟩
    · rw [onDisk_absent hfile] at hnone
      cases hnone
    · obtain rfl := Option.some.inj ((onDisk_absent hfile).symm.trans hd)
      exact onDisk_put (Or.inr rfl) _
  case h_3 hfile =>
    refine ⟨fun _ => rfl, fun d hd => ?_⟩
    unfold State.onDisk at hd
    rw [hfile] at hd
    cases hd

theorem respects_step (h : Inv settings s) {e : Event K V W} (hcurrent : Current s e)
    (hs : step settings s e = some s') : Respects settings s e s' := by
  cases e with
  | pass ticks =>
    cases hs
    exact respects_of_file rfl rfl
  | update change =>
    cases hs
    exact respects_update s change
  | load w =>
    cases hs
    exact respects_of_file (load_file s w settings) rfl
  | save w change inPlace =>
    obtain ⟨o, ho, rfl⟩ := Option.map_eq_some_iff.mp hs
    have hdisk := h.current o (hcurrent o ho)
    refine ⟨fun hnone => ?_, fun c hc => ?_⟩
    · rw [hdisk] at hnone
      cases hnone
    · obtain rfl := Option.some.inj (hdisk.symm.trans hc)
      exact onDisk_save s w o change inPlace
  | saveFails w change =>
    obtain ⟨o, -, rfl⟩ := Option.map_eq_some_iff.mp hs
    exact respects_of_file rfl rfl

theorem onDisk_run {events : List (Event K V W)} (h : Inv settings s)
    (hcurrent : Steps.GoodRun (step settings) Current s events)
    (hrun : Steps.run (step settings) s events = some s') {k : K} (hk : ∀ e ∈ events, ¬e.means k) :
    (s'.onDisk settings).map (· k) = (s.onDisk settings).map (· k) := by
  induction events generalizing s with
  | nil =>
    cases hrun
    rfl
  | cons e events ih =>
    obtain ⟨t, ht, hrest⟩ := Steps.run_cons_some (step settings) hrun
    obtain ⟨he, hes⟩ := List.forall_mem_cons.mp hk
    have hrespects := respects_step h hcurrent.1 ht
    rw [ih (h.step ht) (hcurrent.2 t ht) hrest hes]
    cases hdisk : s.onDisk settings with
    | none => rw [onDisk_congr (hrespects.kept hdisk), hdisk]
    | some c =>
      rw [hrespects.written c hdisk]
      cases hchange : e.change with
      | none => rfl
      | some change =>
        have hframe := change.frame c k fun hmeans => he ⟨change, hchange, hmeans⟩
        exact congrArg some hframe

end Steps

/-- **Kept settings.** In a run from any files, in which handlers save current objects only, every
event respects the settings on disk, and a setting has at the end the value that the last event
that means it has left. -/
theorem settings_kept {settings : K → V} {file : Place → File K V} {before after : List (Event K V W)}
    {e : Event K V W} {s t u : State K V W}
    (hbefore : Steps.run (step settings) (start file settings) before = some s)
    (hs : step settings s e = some t) (hafter : Steps.run (step settings) t after = some u)
    (hcurrent : Steps.GoodRun (step settings) Current (start file settings) (before ++ e :: after)) :
    Respects settings s e t ∧ ∀ k, (∀ e ∈ after, ¬e.means k) →
      (u.onDisk settings).map (· k) = (t.onDisk settings).map (· k) := by
  obtain ⟨hstart, he, hgood⟩ := (Steps.goodRun_append _ _ _ _ _ _ hbefore).mp hcurrent
  have hinv := Steps.goodRun_invariant (step settings) Current (Inv settings)
    (fun _ _ _ h _ hs => h.step hs) _ s before (inv_start file settings) hbefore hstart
  exact ⟨respects_step hinv he hs, fun k hk => onDisk_run (hinv.step hs) (hgood t hs) hafter hk⟩

/-- Two settings, both zero by default. -/
def twoSettings (file : File Bool Nat) : State Bool Nat Nat := start (fun _ => file) fun _ => 0

theorem kept_behind_update :
    ∃ s t u : State Bool Nat Nat,
      Steps.run (step fun _ => 0) (twoSettings .absent)
        [.update (Change.put true 1), .load 0] = some s ∧
      step (fun _ => 0) s (.save 0 (Change.put false 2) true) = some t ∧
      Steps.run (step fun _ => 0) t [.pass 9] = some u ∧
      Respects (fun _ => 0) s (.save 0 (Change.put false 2) true) t ∧
      ∀ k, (u.onDisk fun _ => 0).map (· k) = (t.onDisk fun _ => 0).map (· k) := by
  have hcurrent : Steps.GoodRun (step fun _ => 0) Current (twoSettings .absent)
      ([.update (Change.put true 1), .load 0] ++
        .save 0 (Change.put false 2) true :: [.pass 9]) := by
    refine ⟨trivial, fun _ h₁ => ⟨trivial, fun _ h₂ => ⟨fun o ho => ?_, fun _ _ =>
      ⟨trivial, fun _ _ => trivial⟩⟩⟩⟩
    obtain rfl := Option.some.inj h₁
    obtain rfl := Option.some.inj h₂
    cases ho
    rfl
  obtain ⟨hrespects, hkept⟩ := settings_kept rfl rfl rfl hcurrent
  refine ⟨_, _, _, rfl, rfl, rfl, hrespects, fun k => hkept k fun e he => ?_⟩
  obtain rfl := List.mem_singleton.mp he
  rintro ⟨_, h, -⟩
  cases h

/-- A handler that has loaded before another writer saved takes the setting of that writer back, and
one that has loaded the defaults for a broken file replaces it. -/
theorem stale_save_loses :
    (∃ s t : State Bool Nat Nat,
      Steps.run (step fun _ => 0) (twoSettings .absent)
        [.load 0, .update (Change.put true 1)] = some s ∧
      step (fun _ => 0) s (.save 0 (Change.put false 2) true) = some t ∧
      (s.onDisk fun _ => 0).map (· true) = some 1 ∧ (t.onDisk fun _ => 0).map (· true) = some 0) ∧
    ∃ t : State Bool Nat Nat,
      Steps.run (step fun _ => 0) (twoSettings .broken)
        [.load 0, .save 0 (Change.put false 2) true] = some t ∧
      (t.onDisk fun _ => 0).map (· true) = some 0 :=
  ⟨⟨_, _, rfl, rfl, rfl, rfl⟩, _, rfl, rfl⟩

end MiqroForge.Configuration
