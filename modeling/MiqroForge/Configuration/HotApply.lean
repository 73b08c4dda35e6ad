import MiqroForge.Configuration.HotReload

/-!
What a session makes of a saved configuration (`RuntimeServices.apply_config_update`), and which
provider its turns call with which model. The turns of the user and the jobs of the sub-agents run
on one `TurnRunner`.
-/

namespace MiqroForge.Configuration

open PyText (Text)

variable {α : Type} (same : α → α → Bool)

abbrev Fields (α : Type) := List (Text × Setting α)

def providers : Text := "providers".toList

def modelName : Text := "agents.defaults.model".toList

def modelGate : List Text := modelName :: settingPaths

def contextLimit : Text := "agents.defaults.context_limit_chars".toList

def approvalPolicy : List Text := ["approvals".toList, "agents.command_approval".toList]

def permanentApprovals : Text := "agents.permanent_approvals".toList

/-- The parts of a session that take settings, each as the configuration it has them from. -/
structure Services (α : Type) where
  provider : Fields α
  model : Fields α
  modelSettings : Fields α
  configSnapshot : Fields α
  approvalBypass : Fields α
  permanentAllowlist : Fields α
  compressor : Fields α
  /-- `turn_runner._provider`, `_pending_provider` and `_running` -/
  runner : Fields α
  pending : Option (Fields α) := none
  running : Bool := false

def sameModel (a b : Fields α) : Bool :=
  alike same (Setting.reach (some (.dict a)) (modelName.splitOn '.'))
    (Setting.reach (some (.dict b)) (modelName.splitOn '.'))

namespace Services
variable (s : Services α) (new : Fields α) (paths : List Text) (made : Bool)

/-- `applied["provider_rebuilt"]`; `made` tells whether `make_provider` returns. -/
def rebuilt : Bool := touched paths [providers, modelName] && made

def applyConfigUpdate : Services α where
  provider := if rebuilt paths made then new else s.provider
  model :=
    if touched paths modelGate then
      -- the rebuild failed while the model changed
      if !rebuilt paths made && !sameModel same s.model new then s.model else new
    else s.model
  modelSettings := if touched paths modelGate then new else s.modelSettings
  configSnapshot := new
  approvalBypass := if touched paths approvalPolicy then new else s.approvalBypass
  permanentAllowlist := if touched paths [permanentApprovals] then new else s.permanentAllowlist
  compressor := if rebuilt paths made || touched paths [contextLimit] then new else s.compressor
  runner := if rebuilt paths made && !s.running then new else s.runner
  pending := if rebuilt paths made && s.running then some new else s.pending
  running := s.running

/-- The provider that the next turn adopts. -/
def upcoming : Fields α := s.pending.getD s.runner

end Services

/-- A `TurnContext`, with the configuration that its model is from. -/
structure Turn (α : Type) where
  model : Fields α
  /-- `TurnRunner.run` has begun, and calls `turn_runner._provider`. -/
  begun : Bool

structure Session (α : Type) where
  config : Fields α
  services : Services α
  turns : Nat → Option (Turn α) := fun _ => none

open Session

inductive HotEvent (α : Type)
  | save (new : Fields α) (made : Bool)
  /-- The `TurnContext` of a user's turn is made. -/
  | capture (i : Nat)
  /-- `TurnRunner.run` begins. -/
  | adopt (i : Nat)
  /-- `run_agent_job`, with the model of the provider that the runner has before it adopts one. -/
  | job (i : Nat)
  | finish (i : Nat)

namespace Session

def start (config : Fields α) : Session α where
  config := config
  services := ⟨config, config, config, config, config, config, config, config, none, false⟩

def save (s : Session α) (new : Fields α) (made : Bool) : Session α :=
  { s with
    config := new
    services := s.services.applyConfigUpdate same new
      (classifyConfigUpdate same s.config new).applied made }

@[simp] theorem save_turns (s : Session α) (new : Fields α) (made : Bool) :
    (s.save same new made).turns = s.turns := rfl

def put (s : Session α) (i : Nat) (turn : Option (Turn α)) : Session α :=
  { s with turns := Function.update s.turns i turn }

/-- `_adopt_pending_provider`, and `_running = True`. -/
def begin (s : Session α) (i : Nat) (model : Fields α) : Session α :=
  { s.put i (some ⟨model, true⟩) with services :=
      { s.services with runner := s.services.upcoming, pending := none, running := true } }

def step (s : Session α) : HotEvent α → Option (Session α)
  | .save new made => some (s.save same new made)
  | .capture i =>
    if (s.turns i).isNone then some (s.put i (some ⟨s.services.model, false⟩)) else none
  | .adopt i => (s.turns i).bind fun turn => if turn.begun then none else some (s.begin i turn.model)
  | .job i => if (s.turns i).isNone then some (s.begin i s.services.runner) else none
  | .finish i =>
    if (s.turns i).isSome then
      some { s.put i none with services := { s.services with running := false } }
    else none

end Session

/-! ## The session follows the configuration -/

/-- Every hot-applied setting is used as it was saved last. -/
structure UpToDate (s : Services α) (config : Fields α) : Prop where
  provider : ∀ path ∈ [providers, modelName], AgreeAt same path s.provider config
  model : AgreeAt same modelName s.model config
  modelSettings : ∀ path ∈ settingPaths, AgreeAt same path s.modelSettings config
  configSnapshot : s.configSnapshot = config
  approvalBypass : ∀ path ∈ approvalPolicy, AgreeAt same path s.approvalBypass config
  permanentAllowlist : AgreeAt same permanentApprovals s.permanentAllowlist config
  compressor : AgreeAt same contextLimit s.compressor config

variable {same} {s : Services α} {old new d : Fields α} {path : Text}

theorem UpToDate.of_runner {config : Fields α} (h : UpToDate same s config) (runner : Fields α)
    (pending : Option (Fields α)) (running : Bool) :
    UpToDate same { s with runner, pending, running } config :=
  ⟨h.provider, h.model, h.modelSettings, h.configSnapshot, h.approvalBypass, h.permanentAllowlist,
    h.compressor⟩

section Equal
variable (hsame : Equivalence fun a b => same a b = true)
include hsame

theorem alike_refl (u : Option (Setting α)) : alike same u u = true := by
  rcases u with _ | _ | _
  · rfl
  · exact hsame.refl _
  · rfl

theorem alike_symm {u v : Option (Setting α)} (h : alike same u v = true) :
    alike same v u = true := by
  rcases u with _ | _ | _ <;> rcases v with _ | _ | _ <;> simp [alike] at h ⊢
  exact hsame.symm h

theorem alike_trans {u v w : Option (Setting α)} (huv : alike same u v = true)
    (hvw : alike same v w = true) : alike same u w = true := by
  rcases u with _ | _ | _ <;> rcases v with _ | _ | _ <;> rcases w with _ | _ | _ <;>
    simp [alike] at huv hvw ⊢
  exact hsame.trans hvw huv

/-- A part whose gate holds the setting follows it. -/
theorem AgreeAt.follow {prefixes : List Text} (h : AgreeAt same path d old) (hold : Dump old)
    (hnew : Dump new) (hpath : path ∈ tierAPrefixes) (hpre : path ∈ prefixes) :
    AgreeAt same path (if touched (classifyConfigUpdate same old new).applied prefixes then new
      else d) new := by
  split
  case isTrue => exact fun keys => alike_refl hsame _
  case isFalse hgate =>
    have hunchanged : AgreeAt same path old new := by
      by_contra hchanged
      exact hgate (touched_of_not_agree hold hnew hpath hpre hchanged)
    exact fun keys => alike_trans hsame (h keys) (hunchanged keys)

theorem UpToDate.save (h : UpToDate same s old) (hold : Dump old) (hnew : Dump new) :
    UpToDate same (s.applyConfigUpdate same new (classifyConfigUpdate same old new).applied true)
      new := by
  have hprovider : ∀ path ∈ [providers, modelName], path ∈ tierAPrefixes := by decide +kernel
  have hmodel : ∀ path ∈ modelGate, path ∈ tierAPrefixes := by decide +kernel
  have hpolicy : ∀ path ∈ approvalPolicy, path ∈ tierAPrefixes := by decide +kernel
  have hfollow := fun (path : Text) (hpath : path ∈ tierAPrefixes) prefixes
      (hpre : path ∈ prefixes) (d : Fields α) (hd : AgreeAt same path d old) =>
    hd.follow hsame hold hnew hpath hpre
  constructor
  · intro path hpath
    simpa [Services.applyConfigUpdate, Services.rebuilt] using
      hfollow path (hprovider path hpath) _ hpath _ (h.provider path hpath)
  · have hin : modelName ∈ [providers, modelName] := by simp
    have hkept := hfollow modelName (hprovider _ hin) _ hin _ h.model
    have hgate := hfollow modelName (hprovider _ hin) modelGate List.mem_cons_self _ h.model
    dsimp only [Services.applyConfigUpdate]
    split
    case isFalse htouched => rwa [if_neg htouched] at hgate
    case isTrue =>
      split
      case isFalse => exact fun keys => alike_refl hsame _
      case isTrue hfailed =>
        simp only [Services.rebuilt, Bool.and_true, Bool.and_eq_true, Bool.not_eq_true'] at hfailed
        rwa [hfailed.1] at hkept
  · intro path hpath
    have hin : path ∈ modelGate := List.mem_cons_of_mem _ hpath
    exact hfollow path (hmodel path hin) _ hin _ (h.modelSettings path hpath)
  · rfl
  · exact fun path hpath => hfollow path (hpolicy path hpath) _ hpath _ (h.approvalBypass path hpath)
  · exact hfollow _ (by decide +kernel) _ List.mem_cons_self _ h.permanentAllowlist
  · have hkept := hfollow contextLimit (by decide +kernel) [contextLimit] (by simp) _ h.compressor
    dsimp only [Services.applyConfigUpdate]
    split
    case isTrue => exact fun keys => alike_refl hsame _
    case isFalse hno =>
      simp only [Bool.or_eq_true, not_or] at hno
      rwa [if_neg hno.2] at hkept

/-- What is saved is a dump, and `make_provider` returns. -/
def HotEvent.Sound : HotEvent α → Prop
  | .save new made => made = true ∧ Dump new
  | _ => True

end Equal

/-! ## The provider and the model of a turn -/

/-- The model of the session is that of its provider, which the next turn adopts; every turn calls,
or will call, a provider of its own model. -/
structure Consistent (same : α → α → Bool) (s : Session α) : Prop where
  model : sameModel same s.services.model s.services.provider = true
  upcoming : s.services.upcoming = s.services.provider
  turns : ∀ i turn, s.turns i = some turn → sameModel same turn.model
    (if turn.begun then s.services.runner else s.services.upcoming) = true

/-- The turns that run would go on with the provider that is adopted. -/
def Fits (same : α → α → Bool) (s : Session α) : Prop :=
  ∀ i turn, s.turns i = some turn → turn.begun = true →
    sameModel same turn.model s.services.upcoming = true

/-- A save that has the provider made anew sets the model too, where it is another one; no provider
is left that the next turn would adopt instead, and no turn has a model that the provider it will
call is not for. A turn that adopts a provider leaves the others one of their model. -/
def Undisturbed (same : α → α → Bool) (s : Session α) : HotEvent α → Prop
  | .save new made =>
    let paths := (classifyConfigUpdate same s.config new).applied
    Services.rebuilt paths made = true →
      (touched paths modelGate = true ∨ sameModel same s.services.model new = true) ∧
      (s.services.running = true ∨ ∀ d, s.services.pending = some d → d = new) ∧
      ∀ i turn, s.turns i = some turn →
        (turn.begun = true ∧ s.services.running = true) ∨ sameModel same turn.model new = true
  | .adopt i => ∀ model, s.turns i = some ⟨model, false⟩ → Fits same s
  | .job i => s.turns i = none →
      sameModel same s.services.runner s.services.upcoming = true ∧ Fits same s
  | _ => True

theorem consistent_begin_iff {s : Session α} (h : Consistent same s) (i : Nat) (m : Fields α) :
    Consistent same (s.begin i m) ↔ sameModel same m s.services.upcoming = true ∧
      ∀ j turn, j ≠ i → s.turns j = some turn →
        sameModel same turn.model s.services.upcoming = true := by
  constructor
  · intro hc
    refine ⟨by simpa [begin, put] using hc.turns i ⟨m, true⟩, ?_⟩
    intro j turn hj hturn
    have hpaired := hc.turns j turn (by simp [begin, put, hj, hturn])
    simpa [begin, Services.upcoming] using hpaired
  · rintro ⟨hown, hothers⟩
    refine ⟨h.model, h.upcoming, fun j turn hturn => ?_⟩
    have hpaired : sameModel same turn.model s.services.upcoming = true := by
      by_cases hj : j = i
      · subst hj
        simp only [begin, put, Function.update_self, Option.some.injEq] at hturn
        rwa [← hturn]
      · refine hothers j turn hj ?_
        simpa [begin, put, hj] using hturn
    simpa [begin, Services.upcoming] using hpaired

theorem fits_iff {s : Session α} (h : Consistent same s) {i : Nat}
    (hi : ∀ turn, s.turns i = some turn → turn.begun = false) :
    (∀ j turn, j ≠ i → s.turns j = some turn →
      sameModel same turn.model s.services.upcoming = true) ↔ Fits same s := by
  constructor
  · intro hothers j turn hturn hbegun
    refine hothers j turn ?_ hturn
    rintro rfl
    simp [hi turn hturn] at hbegun
  · intro hfits j turn _ hturn
    cases hbegun : turn.begun with
    | true => exact hfits j turn hturn hbegun
    | false => simpa [hbegun] using h.turns j turn hturn

section Pairing
variable (hsame : Equivalence fun a b => same a b = true) {s t : Session α}
include hsame

theorem consistent_save_iff (h : Consistent same s) (new : Fields α) (made : Bool) :
    Consistent same (s.save same new made) ↔ Undisturbed same s (.save new made) := by
  have htrans : ∀ {a b c : Fields α}, sameModel same a b = true → sameModel same b c = true →
      sameModel same a c = true := alike_trans hsame
  have hself : ∀ a : Fields α, sameModel same a a = true := fun _ => alike_refl hsame _
  dsimp only [Undisturbed]
  generalize hpaths : (classifyConfigUpdate same s.config new).applied = paths
  have hsave : (s.save same new made).services =
      s.services.applyConfigUpdate same new paths made := by rw [← hpaths]; rfl
  cases hrebuilt : Services.rebuilt paths made with
  | false =>
    -- the provider stays, and a model that changes is no other one
    refine iff_of_true ⟨?_, ?_, ?_⟩ nofun
    · rw [hsave]
      simp only [Services.applyConfigUpdate, hrebuilt]
      by_cases hmodel : sameModel same s.services.model new = true
      · have hnew := htrans (alike_symm hsame hmodel) h.model
        split <;> simp [hmodel, hnew, h.model]
      · simp [hmodel, h.model]
    · simpa [hsave, Services.applyConfigUpdate, hrebuilt, Services.upcoming] using h.upcoming
    · simpa [hsave, Services.applyConfigUpdate, hrebuilt, Services.upcoming] using h.turns
  | true =>
    have hprovider : (s.save same new made).services.provider = new := by
      simp [hsave, Services.applyConfigUpdate, hrebuilt]
    have hmodel : sameModel same (s.save same new made).services.model
        (s.save same new made).services.provider = true ↔
        touched paths modelGate = true ∨ sameModel same s.services.model new = true := by
      rw [hprovider]
      simp only [hsave, Services.applyConfigUpdate, hrebuilt]
      cases touched paths modelGate <;> simp [hself]
    have hrunner : (s.save same new made).services.runner =
        if s.services.running then s.services.runner else new := by
      cases hrun : s.services.running <;>
        simp [hsave, Services.applyConfigUpdate, hrebuilt, hrun]
    have hupcoming : (s.save same new made).services.upcoming = new ↔
        s.services.running = true ∨ ∀ d, s.services.pending = some d → d = new := by
      cases hrun : s.services.running <;> cases hpending : s.services.pending <;>
        simp [hsave, Services.applyConfigUpdate, Services.upcoming, hrebuilt, hrun, hpending]
    constructor
    · intro hc _
      have hnew : (s.save same new made).services.upcoming = new := hc.upcoming.trans hprovider
      refine ⟨hmodel.mp hc.model, hupcoming.mp hnew, fun i turn hturn => ?_⟩
      have hpaired := hc.turns i turn hturn
      rw [hnew, hrunner] at hpaired
      cases hbegun : turn.begun <;> cases hrun : s.services.running <;>
        simp_all
    · intro hu
      obtain ⟨hset, hadopted, hturns⟩ := hu rfl
      have hnew := hupcoming.mpr hadopted
      refine ⟨hmodel.mpr hset, hnew.trans hprovider.symm, fun i turn hturn => ?_⟩
      have hold := h.turns i turn hturn
      rw [hnew, hrunner]
      rcases hturns i turn hturn with ⟨hbegun, hrun⟩ | hpaired
      · simpa [hbegun, hrun] using hold
      · cases hbegun : turn.begun <;> cases hrun : s.services.running <;> simp_all

/-- A step leads from a consistent session to a consistent one iff it does not disturb it. -/
theorem consistent_step_iff (h : Consistent same s) (e : HotEvent α) :
    (∀ t, Session.step same s e = some t → Consistent same t) ↔ Undisturbed same s e := by
  cases e with
  | save new made =>
    rw [← consistent_save_iff hsame h]
    exact ⟨fun hall => hall _ rfl, fun hc t hs => Option.some.inj hs ▸ hc⟩
  | capture i =>
    refine iff_of_true (fun t hs => ?_) trivial
    obtain ⟨-, rfl⟩ := Steps.of_guard hs
    refine ⟨h.model, h.upcoming, fun j turn hturn => ?_⟩
    by_cases hj : j = i
    · subst hj
      obtain rfl : _ = turn := by simpa [put] using hturn
      simpa [put, h.upcoming] using h.model
    · exact h.turns j turn (by simpa [put, hj] using hturn)
  | adopt i =>
    cases hturn : s.turns i with
    | none => simp [Session.step, Undisturbed, hturn]
    | some turn =>
      obtain ⟨m, begun⟩ := turn
      cases begun with
      | true => simp [Session.step, Undisturbed, hturn]
      | false =>
        have hown : sameModel same m s.services.upcoming = true := by
          simpa using h.turns i _ hturn
        have hfits := fits_iff h (i := i) fun turn hi => by
          rw [hturn] at hi
          rw [← Option.some.inj hi]
        simp [Session.step, Undisturbed, hturn, consistent_begin_iff h, hown, ← hfits]
  | job i =>
    cases hturn : s.turns i with
    | some turn => simp [Session.step, Undisturbed, hturn]
    | none =>
      have hfits := fits_iff h (i := i) fun turn hi => by simp [hturn] at hi
      simp [Session.step, Undisturbed, hturn, consistent_begin_iff h, ← hfits]
  | finish i =>
    refine iff_of_true (fun t hs => ?_) trivial
    obtain ⟨-, rfl⟩ := Steps.of_guard hs
    refine ⟨h.model, h.upcoming, fun j turn hturn => h.turns j turn ?_⟩
    by_cases hj : j = i
    · simp [put, hj] at hturn
    · simpa [put, hj] using hturn

end Pairing

theorem beq_equivalence : Equivalence fun a b : Bool => (a == b) = true :=
  ⟨by simp, fun h => beq_iff_eq.mpr (beq_iff_eq.mp h).symm, by simp_all⟩

/-- A save while a turn runs, and another one before the next turn. -/
def savesAround : List (HotEvent Bool) :=
  [.capture 0, .adopt 0, .save (smallConfig true true) true, .finish 0,
    .save (smallConfig false true) true, .capture 1, .adopt 1]

end MiqroForge.Configuration
