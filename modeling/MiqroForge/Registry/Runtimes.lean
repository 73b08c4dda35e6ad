import MiqroForge.Registry.Clients

/-! Which runtimes run, and who holds them, in every run of the registry. -/

set_option linter.unusedSectionVars false

namespace MiqroForge.Registry

open PyText Function Table

variable {idleTimeout : Nat} {s s' : State}

/-- The call has made no runtime yet. -/
def Phase.unmade : Phase → Prop
  | .idle | .lining _ | .retiring (.make _) _ | .destroying (.make _) _ _ | .starting _ => True
  | _ => False

/-- The call makes or starts a runtime for this request, and nothing is registered for it. -/
def Phase.makes : Phase → Request → Prop
  | .destroying (.make req) _ _, req' => req = req'
  | .starting req, req' => req = req'
  | _, _ => False

/-- Call `c` will have stopped the runtime. -/
def Phase.holds (c : Nat) : Phase → Nat → Prop
  | .retiring _ d, runtime => d.runtime = runtime
  | .stopping _ _ r _, runtime => r = runtime
  | .rollingBack, runtime => c = runtime
  | _, _ => False

/-- The runtime has been made for this session. -/
def Born (s : State) (runtime : Nat) (id : Text) : Prop :=
  ¬ (s.phase runtime).unmade ∧ ∃ req, s.madeFor runtime = some req ∧ req.id = id

theorem Born.unique {runtime : Nat} {id id' : Text} (h : Born s runtime id)
    (h' : Born s runtime id') : id = id' := by
  obtain ⟨-, req, hmade, rfl⟩ := h
  obtain ⟨-, req', hmade', rfl⟩ := h'
  rw [Option.some.inj (hmade.symm.trans hmade')]

theorem Born.step {runtime : Nat} {id : Text} (h : Born s runtime id) {c : Nat} {q : Phase}
    (hphase : s'.phase = update s.phase c q)
    (hmade : ∀ r, (r = c → ¬ (s.phase c).unmade) → s'.madeFor r = s.madeFor r)
    (hback : ¬ (s.phase c).unmade → ¬ q.unmade) : Born s' runtime id := by
  obtain ⟨hr, req, hreq, hid⟩ := h
  refine ⟨?_, req, (hmade runtime fun hrc => hrc ▸ hr).trans hreq, hid⟩
  rw [hphase]
  by_cases hrc : runtime = c
  · subst hrc
    rw [update_self]
    exact hback hr
  · rwa [update_of_ne hrc]

/-- One call at a time is inside, what it makes has no place in `_sessions` yet, and a runtime that
runs is in `_sessions` or has a stop to come. -/
structure Inv (s : State) : Prop where
  inside : ∀ c, (s.phase c).inside → s.queue.head? = some c
  unborn : ∀ c, (s.phase c).unmade → s.running c = false
  free : ∀ c req, (s.phase c).makes req → get? s.sessions req.id = none
  starting : ∀ c req, s.phase c = .starting req → s.madeFor c = some req
  cached : ∀ c after d, s.phase c = .retiring after d → Born s d.runtime d.id ∧
    (get? s.sessions d.id = some d.runtime ∨ get? s.sessions d.id = none) ∧
    ∀ req, after = .make req → d.id = req.id
  popped : ∀ c sweep id runtime rest, s.phase c = .stopping sweep id runtime rest →
    Born s runtime id ∧ get? s.sessions id ≠ some runtime
  rolling : ∀ c, s.phase c = .rollingBack → ∀ id, get? s.sessions id ≠ some c
  registered : ∀ id runtime, get? s.sessions id = some runtime →
    s.running runtime = true ∧ Born s runtime id
  held : ∀ runtime, s.running runtime = true →
    (∃ id, get? s.sessions id = some runtime) ∨ ∃ c, (s.phase c).holds c runtime

theorem Inv.holder (h : Inv s) (c : Nat) {runtime : Nat} (hr : s.running runtime = true) :
    (∃ id, get? s.sessions id = some runtime) ∨ (s.phase c).holds c runtime ∨
      ∃ x, x ≠ c ∧ (s.phase x).holds x runtime := by
  rcases h.held runtime hr with hreg | ⟨x, hx⟩
  · exact Or.inl hreg
  · by_cases hxc : x = c
    · subst hxc
      exact Or.inr (Or.inl hx)
    · exact Or.inr (Or.inr ⟨x, hxc, hx⟩)

theorem inv_init (active : Root) : Inv (init active) where
  inside := fun _ h => h.elim
  unborn := fun _ _ => rfl
  free := fun _ _ h => h.elim
  starting := nofun
  cached := nofun
  popped := nofun
  rolling := nofun
  registered := nofun
  held := nofun

theorem Inv.change (h : Inv s) {c : Nat} {q : Phase} (hphase : s'.phase = update s.phase c q)
    (hqueue : ∀ x, x ≠ c → (s.phase x).inside → s'.queue.head? = s.queue.head?)
    (hmade : ∀ r, (r = c → ¬ (s.phase c).unmade) → s'.madeFor r = s.madeFor r)
    (hback : ¬ (s.phase c).unmade → ¬ q.unmade)
    (hrunning : ∀ r, r ≠ c → s'.running r = true → s.running r = true)
    (hsessions : ∀ id r, get? s'.sessions id = some r → get? s.sessions id = some r ∨
      (s.phase c).inside ∧ (s.phase c).unmade ∧ r = c)
    (hinside : q.inside → s'.queue.head? = some c)
    (hunborn : q.unmade → s'.running c = false)
    (hfree : ∀ req, q.makes req → get? s'.sessions req.id = none)
    (hstarting : ∀ req, q = .starting req → s'.madeFor c = some req)
    (hcached : ∀ after d, q = .retiring after d → Born s' d.runtime d.id ∧
      (get? s'.sessions d.id = some d.runtime ∨ get? s'.sessions d.id = none) ∧
      ∀ req, after = .make req → d.id = req.id)
    (hpopped : ∀ sweep id runtime rest, q = .stopping sweep id runtime rest →
      Born s' runtime id ∧ get? s'.sessions id ≠ some runtime)
    (hrolling : q = .rollingBack → ∀ id, get? s'.sessions id ≠ some c)
    (hregistered : ∀ id runtime, get? s'.sessions id = some runtime →
      s'.running runtime = true ∧ Born s' runtime id)
    (hheld : ∀ runtime, s'.running runtime = true →
      (∃ id, get? s'.sessions id = some runtime) ∨ q.holds c runtime ∨
        ∃ x, x ≠ c ∧ (s.phase x).holds x runtime) : Inv s' := by
  have hself : s'.phase c = q := by rw [hphase, update_self]
  have hother : ∀ x, x ≠ c → s'.phase x = s.phase x := fun x hx => by
    rw [hphase, update_of_ne hx]
  have hborn : ∀ r id, Born s r id → Born s' r id := fun _ _ hb => hb.step hphase hmade hback
  have halone : ∀ x, x ≠ c → (s.phase x).inside → ¬ (s.phase c).inside := fun x hx hin hc =>
    hx (Option.some.inj ((h.inside x hin).symm.trans (h.inside c hc)))
  have hkept : ∀ x, x ≠ c → (s.phase x).inside → ∀ id r, get? s'.sessions id = some r →
      get? s.sessions id = some r := by
    intro x hx hin id r hr
    rcases hsessions id r hr with hold | ⟨hc, -, -⟩
    · exact hold
    · exact absurd hc (halone x hx hin)
  constructor
  case inside =>
    intro x hx
    by_cases hxc : x = c
    · subst hxc
      exact hinside (hself ▸ hx)
    · rw [hother x hxc] at hx
      exact (hqueue x hxc hx).trans (h.inside x hx)
  case unborn =>
    intro x hx
    by_cases hxc : x = c
    · subst hxc
      exact hunborn (hself ▸ hx)
    · rw [hother x hxc] at hx
      cases hrun : s'.running x with
      | false => rfl
      | true => exact absurd (hrunning x hxc hrun) (by rw [h.unborn x hx]; decide)
  case free =>
    intro x req hx
    by_cases hxc : x = c
    · subst hxc
      exact hfree req (hself ▸ hx)
    · rw [hother x hxc] at hx
      have hin : (s.phase x).inside := by
        cases hp : s.phase x <;> rw [hp] at hx <;> trivial
      cases hget : get? s'.sessions req.id with
      | none => rfl
      | some r => exact absurd (hkept x hxc hin _ _ hget) (by rw [h.free x req hx]; simp)
  case starting =>
    intro x req hx
    by_cases hxc : x = c
    · subst hxc
      exact hstarting req (hself ▸ hx)
    · rw [hother x hxc] at hx
      exact (hmade x fun hxc' => absurd hxc' hxc).trans (h.starting x req hx)
  case cached =>
    intro x after d hx
    by_cases hxc : x = c
    · subst hxc
      exact hcached after d (hself ▸ hx)
    · rw [hother x hxc] at hx
      obtain ⟨hb, hget, hreq⟩ := h.cached x after d hx
      refine ⟨hborn _ _ hb, ?_, hreq⟩
      cases hget' : get? s'.sessions d.id with
      | none => exact Or.inr rfl
      | some r =>
        have hold := hkept x hxc (by rw [hx]; trivial) _ _ hget'
        rcases hget with heq | hnone
        · exact Or.inl (congrArg some (Option.some.inj (hold.symm.trans heq)))
        · exact absurd hold (by rw [hnone]; simp)
  case popped =>
    intro x sweep id r rest hx
    by_cases hxc : x = c
    · subst hxc
      exact hpopped sweep id r rest (hself ▸ hx)
    · rw [hother x hxc] at hx
      obtain ⟨hb, hget⟩ := h.popped x sweep id r rest hx
      refine ⟨hborn _ _ hb, fun hget' => ?_⟩
      rcases hsessions _ _ hget' with hold | ⟨-, hun, rfl⟩
      · exact hget hold
      · exact hb.1 hun
  case rolling =>
    intro x hx id hget
    by_cases hxc : x = c
    · subst hxc
      exact hrolling (hself ▸ hx) id hget
    · rw [hother x hxc] at hx
      rcases hsessions id x hget with hold | ⟨-, -, rfl⟩
      · exact h.rolling x hx id hold
      · exact hxc rfl
  case registered => exact hregistered
  case held =>
    intro r hr
    rcases hheld r hr with hreg | hq | ⟨x, hx, hhold⟩
    · exact Or.inl hreg
    · exact Or.inr ⟨c, by rwa [hself]⟩
    · exact Or.inr ⟨x, by rwa [hother x hx]⟩

/-- The call waits for the lock, or is over. -/
def Phase.quiet : Phase → Prop
  | .lining _ | .waiting _ _ | .answered _ | .failed | .done => True
  | _ => False

theorem Inv.quiet (h : Inv s) {c : Nat} {q : Phase} (hphase : s'.phase = update s.phase c q)
    (hqueue : ∀ x, x ≠ c → (s.phase x).inside → s'.queue.head? = s.queue.head?)
    (hsessions : s'.sessions = s.sessions) (hrunning : s'.running = s.running)
    (hmade : s'.madeFor = s.madeFor) (hq : q.quiet) (hun : q.unmade → (s.phase c).unmade)
    (hheld : ∀ r, s.running r = true → (s.phase c).holds c r →
      ∃ id, get? s.sessions id = some r) : Inv s' := by
  refine h.change hphase hqueue (fun r _ => by rw [hmade]) (fun hb hu => hb (hun hu))
    (fun r _ hr => by rwa [hrunning] at hr) (fun id r hr => Or.inl (by rwa [hsessions] at hr))
    ?_ ?_ ?_ ?_ ?_ ?_ ?_ ?_ ?_
  · intro hin
    cases q <;> contradiction
  · intro hu
    rw [hrunning]
    exact h.unborn c (hun hu)
  · intro req hreq
    cases q <;> contradiction
  · rintro req rfl
    cases hq
  · rintro after d rfl
    cases hq
  · rintro sweep id r rest rfl
    cases hq
  · rintro rfl
    cases hq
  · intro id r hr
    rw [hsessions] at hr
    obtain ⟨hrun, hb⟩ := h.registered id r hr
    exact ⟨by rwa [hrunning], hb.step hphase (fun _ _ => by rw [hmade]) (mt hun)⟩
  · intro r hr
    rw [hrunning] at hr
    rw [hsessions]
    rcases h.holder c hr with hreg | hx | hx
    · exact Or.inl hreg
    · exact Or.inl (hheld r hr hx)
    · exact Or.inr (Or.inr hx)

theorem Inv.congr (h : Inv s) (hphase : s'.phase = s.phase)
    (hqueue : ∀ x, s.queue.head? = some x → s'.queue.head? = some x)
    (hsessions : s'.sessions = s.sessions) (hrunning : s'.running = s.running)
    (hmade : s'.madeFor = s.madeFor) : Inv s' := by
  have hborn : Born s' = Born s := by
    funext r id
    unfold Born
    rw [hphase, hmade]
  constructor
  · intro c hc
    exact hqueue c (h.inside c (by rwa [hphase] at hc))
  · simpa only [hphase, hrunning] using h.unborn
  · simpa only [hphase, hsessions] using h.free
  · simpa only [hphase, hmade] using h.starting
  · simpa only [hphase, hsessions, hborn] using h.cached
  · simpa only [hphase, hsessions, hborn] using h.popped
  · simpa only [hphase, hsessions] using h.rolling
  · simpa only [hsessions, hrunning, hborn] using h.registered
  · simpa only [hphase, hsessions, hrunning] using h.held

/-! ## The steps -/

section Moves

variable {c : Nat}

theorem Inv.alone (h : Inv s) (hc : s.queue.head? = some c) :
    ∀ x, x ≠ c → ¬ (s.phase x).inside := fun x hx hin =>
  hx (Option.some.inj ((h.inside x hin).symm.trans hc))

theorem Inv.enlist (h : Inv s) (manager : Option Nat) : Inv (s.enlist c manager) := by
  refine h.congr rfl (fun x hx => ?_) rfl rfl rfl
  rw [State.enlist_queue, List.head?_append, hx]
  rfl

theorem Inv.leave (h : Inv s) (hc : s.queue.head? = some c) {q : Phase} (hq : q.quiet)
    (hun : ¬ q.unmade) (hheld : ∀ r, s.running r = true → (s.phase c).holds c r →
      ∃ id, get? s.sessions id = some r) : Inv (s.leave c q) :=
  h.quiet rfl (fun x hx hin => absurd hin (h.alone hc x hx)) rfl rfl rfl hq
    (fun hu => absurd hu hun) hheld

theorem Inv.discard (h : Inv s) (hc : s.queue.head? = some c) (after : After) (d : Discard)
    (hget : get? s.sessions d.id = some d.runtime)
    (hafter : ∀ req, after = .make req → d.id = req.id ∧ (s.phase c).unmade)
    (hout : ∀ r, ¬ (s.phase c).holds c r) : Inv (s.discard c after d) := by
  have hun : (Phase.retiring after d).unmade → (s.phase c).unmade := by
    intro hu
    cases after with
    | make req => exact (hafter req rfl).2
    | fail => exact hu.elim
    | answer => exact hu.elim
  have hborn : ∀ r id, Born s r id → Born (s.discard c after d) r id :=
    fun _ _ hb => hb.step rfl (fun _ _ => rfl) (mt hun)
  have hregistered := h.registered d.id d.runtime hget
  refine h.change rfl (fun _ _ _ => rfl) (fun _ _ => rfl) (mt hun) (fun _ _ hr => hr)
    (fun _ _ hr => Or.inl hr) (fun _ => hc) (fun hu => h.unborn c (hun hu)) (fun _ hreq => hreq.elim)
    nofun ?_ nofun nofun ?_ ?_
  · intro after' d' hq
    cases hq
    exact ⟨hborn _ _ hregistered.2, Or.inl hget, fun req hreq => (hafter req hreq).1⟩
  · intro id r hr
    exact ⟨(h.registered id r hr).1, hborn _ _ (h.registered id r hr).2⟩
  · exact fun r hr => (h.holder c hr).imp_right (Or.imp_left fun hx => absurd hx (hout r))

theorem Inv.make (h : Inv s) (hc : s.queue.head? = some c) (req : Request)
    (hget : get? s.sessions req.id = none) (hun : (s.phase c).unmade)
    (hheld : ∀ r, s.running r = true → (s.phase c).holds c r →
      ∃ id, get? s.sessions id = some r) : Inv (s.make c req) := by
  have hmade : ∀ r, (r = c → ¬ (s.phase c).unmade) → (s.make c req).madeFor r = s.madeFor r :=
    fun r hr => update_of_ne (fun hrc => hr hrc hun) ..
  refine h.change rfl (fun _ _ _ => rfl) hmade (absurd hun) (fun _ _ hr => hr)
    (fun _ _ hr => Or.inl hr) (fun _ => hc) (fun _ => h.unborn c hun) ?_ ?_
    nofun nofun nofun ?_ ?_
  · rintro req' rfl
    exact hget
  · intro req' hq
    cases hq
    exact update_self ..
  · intro id r hr
    exact ⟨(h.registered id r hr).1, (h.registered id r hr).2.step rfl hmade (absurd hun)⟩
  · intro r hr
    rcases h.holder c hr with hreg | hx | hx
    · exact Or.inl hreg
    · exact Or.inl (hheld r hr hx)
    · exact Or.inr (Or.inr hx)

theorem Inv.enterCreate (h : Inv s) (hc : s.queue.head? = some c) (req : Request)
    (hun : (s.phase c).unmade) (hout : ∀ r, ¬ (s.phase c).holds c r) :
    Inv (s.enterCreate c req) := by
  unfold State.enterCreate
  split
  case h_1 runtime hget =>
    split
    · refine Inv.leave (s := ((s.link req.client req.id).touch req.id).returns c (some runtime))
        ?_ hc trivial (fun hu => hu) fun r _ hr => absurd hr (hout r)
      exact h.congr rfl (fun _ hx => hx) rfl rfl rfl
    · exact h.discard hc _ _ hget (fun req' hreq => by cases hreq; exact ⟨rfl, hun⟩) hout
  case h_2 hget => exact h.make hc req hget hun fun r _ hr => absurd hr (hout r)

theorem Inv.enterGet (h : Inv s) (hc : s.queue.head? = some c) (client id : Text)
    (hout : ∀ r, ¬ (s.phase c).holds c r) : Inv (s.enterGet c client id) := by
  have hleave : Inv (s.leave c (.answered none)) :=
    h.leave hc trivial (fun hu => hu) fun r _ hr => absurd hr (hout r)
  unfold State.enterGet
  split
  case h_1 stale hget =>
    split
    · exact hleave
    · exact h.discard hc _ _ hget nofun hout
  case h_2 => exact hleave

theorem Inv.halt (h : Inv s) {runtime : Nat} (hphase : s'.phase = s.phase)
    (hqueue : s'.queue = s.queue) (hmade : s'.madeFor = s.madeFor)
    (hrunning : s'.running = update s.running runtime false)
    (hless : ∀ id r, get? s'.sessions id = some r →
      get? s.sessions id = some r ∧ r ≠ runtime)
    (hmore : ∀ id r, get? s.sessions id = some r → r ≠ runtime →
      get? s'.sessions id = some r) : Inv s' := by
  have hborn : Born s' = Born s := by
    funext r id
    unfold Born
    rw [hphase, hmade]
  have hkept : ∀ r, r ≠ runtime → s'.running r = s.running r := fun r hr => by
    rw [hrunning, update_of_ne hr]
  have hnone : ∀ id, get? s.sessions id = none → get? s'.sessions id = none := by
    intro id hid
    cases hget : get? s'.sessions id with
    | none => rfl
    | some r => exact absurd (hless id r hget).1 (by rw [hid]; simp)
  constructor
  case inside => simpa only [hphase, hqueue] using h.inside
  case unborn =>
    intro c hc
    rw [hphase] at hc
    rw [hrunning]
    by_cases hrc : c = runtime
    · rw [hrc, update_self]
    · rw [update_of_ne hrc]
      exact h.unborn c hc
  case free =>
    intro c req hc
    rw [hphase] at hc
    exact hnone _ (h.free c req hc)
  case starting => simpa only [hphase, hmade] using h.starting
  case cached =>
    intro c after d hc
    rw [hphase] at hc
    obtain ⟨hb, hget, hreq⟩ := h.cached c after d hc
    refine ⟨by rwa [hborn], ?_, hreq⟩
    cases hget' : get? s'.sessions d.id with
    | none => exact Or.inr rfl
    | some r =>
      have hold := (hless _ _ hget').1
      rcases hget with heq | heq
      · exact Or.inl (hold.symm.trans heq)
      · exact absurd hold (by rw [heq]; simp)
  case popped =>
    intro c sweep id r rest hc
    rw [hphase] at hc
    obtain ⟨hb, hget⟩ := h.popped c sweep id r rest hc
    exact ⟨by rwa [hborn], fun hr => hget (hless id r hr).1⟩
  case rolling =>
    intro c hc id hr
    rw [hphase] at hc
    exact h.rolling c hc id (hless id c hr).1
  case registered =>
    intro id r hr
    obtain ⟨hold, hne⟩ := hless id r hr
    rw [hkept r hne, hborn]
    exact h.registered id r hold
  case held =>
    intro r hr
    have hne : r ≠ runtime := by
      rintro rfl
      rw [hrunning, update_self] at hr
      cases hr
    rw [hkept r hne] at hr
    rw [hphase]
    rcases h.held r hr with ⟨id, hid⟩ | hold
    · exact Or.inl ⟨id, hmore id r hid hne⟩
    · exact Or.inr hold

theorem Inv.retired (h : Inv s) {after : After} {d : Discard} (hp : s.phase c = .retiring after d)
    (ok : Bool) : Inv (((s.halted d.runtime ok).pop d.id).unlink d.id) := by
  obtain ⟨hb, hget, -⟩ := h.cached c after d hp
  refine h.halt rfl rfl rfl rfl ?_ ?_
  · intro id r hr
    have hne : id ≠ d.id := by
      rintro rfl
      rw [show (((s.halted d.runtime ok).pop d.id).unlink d.id).sessions =
        remove s.sessions d.id from rfl, get?_remove_self] at hr
      cases hr
    have hold : get? s.sessions id = some r := by
      rwa [show (((s.halted d.runtime ok).pop d.id).unlink d.id).sessions =
        remove s.sessions d.id from rfl, get?_remove_of_ne _ hne] at hr
    refine ⟨hold, ?_⟩
    rintro rfl
    exact hne ((h.registered id _ hold).2.unique hb)
  · intro id r hr hne
    have hid : id ≠ d.id := by
      rintro rfl
      rcases hget with heq | heq
      · exact hne (Option.some.inj (hr.symm.trans heq))
      · rw [heq] at hr
        cases hr
    exact (get?_remove_of_ne _ hid).trans hr

theorem Inv.proceed (h : Inv s) (hc : s.queue.head? = some c) (after : After)
    (hmake : ∀ req, after = .make req → get? s.sessions req.id = none ∧ (s.phase c).unmade)
    (hheld : ∀ r, s.running r = true → (s.phase c).holds c r →
      ∃ id, get? s.sessions id = some r) : Inv (s.proceed c after) := by
  cases after with
  | make req => exact h.make hc req (hmake req rfl).1 (hmake req rfl).2 hheld
  | fail => exact h.leave hc trivial (fun hu => hu) hheld
  | answer => exact h.leave hc trivial (fun hu => hu) hheld

theorem Inv.forget (h : Inv s) {after : After} {d : Discard} (hp : s.phase c = .retiring after d)
    (ok : Bool) : Inv ((s.halted d.runtime ok).forget c after d) := by
  have hc : s.queue.head? = some c := h.inside c (by rw [hp]; trivial)
  obtain ⟨-, -, hid⟩ := h.cached c after d hp
  have hgone : get? (((s.halted d.runtime ok).pop d.id).unlink d.id).sessions d.id = none :=
    get?_remove_self ..
  have hmid := h.retired hp ok
  have hheld : ∀ r, (((s.halted d.runtime ok).pop d.id).unlink d.id).running r = true →
      (s.phase c).holds c r → False := by
    intro r hr hhold
    rw [hp] at hhold
    obtain rfl : d.runtime = r := hhold
    rw [show (((s.halted d.runtime ok).pop d.id).unlink d.id).running =
      update s.running d.runtime false from rfl, update_self] at hr
    cases hr
  have hmake : ∀ req, after = .make req →
      get? (((s.halted d.runtime ok).pop d.id).unlink d.id).sessions req.id = none ∧
        (s.phase c).unmade := by
    rintro req rfl
    rw [← hid req rfl, hp]
    exact ⟨hgone, trivial⟩
  unfold State.forget
  split
  case h_2 => exact hmid.proceed hc after hmake fun r hr hhold => (hheld r hr hhold).elim
  case h_1 manager _ _ _ =>
    have hunmade : (Phase.destroying after d manager).unmade ↔ (s.phase c).unmade := by
      rw [hp]
      cases after <;> rfl
    refine hmid.change rfl (fun _ _ _ => rfl) (fun _ _ => rfl) (mt hunmade.mp) (fun _ _ hr => hr)
      (fun _ _ hr => Or.inl hr) (fun _ => hc) (fun hu => hmid.unborn c (hunmade.mp hu)) ?_
      nofun nofun nofun
      nofun ?_ ?_
    · intro req hreq
      cases after with
      | make req' =>
        obtain rfl : req' = req := hreq
        exact (hmake req' rfl).1
      | fail => exact hreq.elim
      | answer => exact hreq.elim
    · intro id r hr
      obtain ⟨hrun, hb⟩ := hmid.registered id r hr
      exact ⟨hrun, hb.step rfl (fun _ _ => rfl) (mt hunmade.mp)⟩
    · exact fun r hr => (hmid.holder c hr).imp_right (Or.imp_left fun hx => (hheld r hr hx).elim)

theorem Inv.launched (h : Inv s) {req : Request} (hp : s.phase c = .starting req) (bound : Bool) :
    Inv (s.launched c req bound) := by
  have hc : s.queue.head? = some c := h.inside c (by rw [hp]; trivial)
  have hget : get? s.sessions req.id = none := h.free c req (by rw [hp]; rfl)
  have hmade := h.starting c req hp
  have hnew : ∀ id r, get? s.sessions id = some r → r ≠ c := by
    rintro id r hr rfl
    have hrun := (h.registered id r hr).1
    rw [h.unborn r (by rw [hp]; trivial)] at hrun
    cases hrun
  have hrunning : ∀ r, r ≠ c → update s.running c true r = true → s.running r = true :=
    fun r hr hrun => by rwa [update_of_ne hr] at hrun
  have hold : ∀ r, r ≠ c → s.running r = true → (∃ id, get? s.sessions id = some r) ∨
      ∃ x, x ≠ c ∧ (s.phase x).holds x r := by
    intro r _ hr
    rcases h.holder c hr with hreg | hx | hx
    · exact Or.inl hreg
    · rw [hp] at hx
      exact hx.elim
    · exact Or.inr hx
  have hregistered : ∀ (t : State) (q : Phase), t.phase = update s.phase c q →
      t.madeFor = s.madeFor → t.running = update s.running c true → ∀ id r,
      get? s.sessions id = some r → t.running r = true ∧ Born t r id := by
    intro t q hphase hfor hrun id r hr
    rw [hrun, update_of_ne (hnew id r hr)]
    exact ⟨(h.registered id r hr).1, (h.registered id r hr).2.step hphase (fun _ _ => by rw [hfor])
      (absurd (by rw [hp]; trivial))⟩
  unfold State.launched
  split
  case isTrue =>
    refine h.change rfl (fun _ _ _ => rfl) (fun _ _ => rfl) (fun _ hu => hu) hrunning
      (fun _ _ hr => Or.inl hr) (fun _ => hc) (fun hu => hu.elim) (fun _ hq => hq.elim)
      nofun nofun nofun
      (fun _ id hr => hnew id c hr rfl) (hregistered _ _ rfl rfl rfl) ?_
    intro r hr
    by_cases hrc : r = c
    · exact Or.inr (Or.inl hrc.symm)
    · exact (hold r hrc (hrunning r hrc hr)).imp_right Or.inr
  case isFalse =>
    split
    case isTrue =>
      refine h.change rfl (fun _ _ _ => rfl) (fun _ _ => rfl) (fun _ hu => hu) hrunning
        (fun _ _ hr => Or.inl hr) (fun _ => hc) (fun hu => hu.elim) (fun _ hq => hq.elim)
        nofun ?_ nofun nofun
        (hregistered _ _ rfl rfl rfl) ?_
      · intro after d hq
        cases hq
        refine ⟨⟨?_, req, hmade, rfl⟩, Or.inr hget, nofun⟩
        show ¬ (update s.phase c _ c).unmade
        rw [update_self]
        exact fun hu => hu
      · intro r hr
        by_cases hrc : r = c
        · exact Or.inr (Or.inl hrc.symm)
        · exact (hold r hrc (hrunning r hrc hr)).imp_right Or.inr
    case isFalse =>
      have hentered : ∀ id r, get? (set s.sessions req.id c) id = some r →
          (id = req.id ∧ r = c) ∨ get? s.sessions id = some r := by
        intro id r hr
        by_cases hid : id = req.id
        · subst hid
          rw [get?_set_self] at hr
          exact Or.inl ⟨rfl, (Option.some.inj hr).symm⟩
        · rw [get?_set_of_ne _ _ hid] at hr
          exact Or.inr hr
      have hstays : ∀ id r, get? s.sessions id = some r →
          get? (set s.sessions req.id c) id = some r := by
        intro id r hr
        rw [get?_set_of_ne]
        · exact hr
        · rintro rfl
          rw [hget] at hr
          cases hr
      refine h.change (q := .answered (some c)) rfl
        (fun x hx hin => absurd hin (h.alone hc x hx)) (fun _ _ => rfl)
        (fun _ hu => hu) hrunning ?_ (fun hin => hin.elim) (fun hu => hu.elim) (fun _ hq => hq.elim)
        nofun nofun nofun
        nofun ?_ ?_
      · intro id r hr
        rcases hentered id r hr with ⟨-, rfl⟩ | hr'
        · exact Or.inr (by rw [hp]; exact ⟨trivial, trivial, rfl⟩)
        · exact Or.inl hr'
      · intro id r hr
        rcases hentered id r hr with ⟨rfl, rfl⟩ | hr'
        · refine ⟨update_self .., ?_, req, hmade, rfl⟩
          show ¬ (update s.phase r _ r).unmade
          rw [update_self]
          exact fun hu => hu
        · exact hregistered ({ s with running := update s.running c true }.register c req)
            (.answered (some c)) rfl rfl rfl id r hr'
      · intro r hr
        by_cases hrc : r = c
        · subst hrc
          exact Or.inl ⟨req.id, get?_set_self ..⟩
        · rcases hold r hrc (hrunning r hrc hr) with ⟨id, hid⟩ | hx
          · exact Or.inl ⟨id, hstays id r hid⟩
          · exact Or.inr (Or.inr hx)

theorem Inv.stopNext (h : Inv s) (sweep : Bool) (ids : List Text)
    (hheld : ∀ r, s.running r = true → (s.phase c).holds c r →
      ∃ id, get? s.sessions id = some r) : Inv (s.stopNext c sweep ids) := by
  induction ids with
  | nil =>
    exact h.quiet rfl (fun _ _ _ => rfl) rfl rfl rfl trivial (fun hu => hu.elim) hheld
  | cons id rest ih =>
    unfold State.stopNext
    split
    case h_1 => exact ih
    case h_2 runtime hget =>
      have hless : ∀ id' r, get? (remove s.sessions id) id' = some r →
          get? s.sessions id' = some r := by
        intro id' r hr
        by_cases hid : id' = id
        · subst hid
          rw [get?_remove_self] at hr
          cases hr
        · rwa [get?_remove_of_ne _ hid] at hr
      refine h.change (q := .stopping sweep id runtime rest) rfl (fun _ _ _ => rfl) (fun _ _ => rfl)
        (fun _ hu => hu) (fun _ _ hr => hr) (fun _ _ hr => Or.inl (hless _ _ hr))
        (fun hin => hin.elim) (fun hu => hu.elim) (fun _ hq => hq.elim) nofun
        nofun ?_ nofun ?_ ?_
      · intro _ _ _ _ hq
        cases hq
        refine ⟨(h.registered id runtime hget).2.step rfl (fun _ _ => rfl) fun _ hu => hu, ?_⟩
        rw [show (State.setPhase (s.pop id) c (.stopping sweep id runtime rest)).sessions =
          remove s.sessions id from rfl, get?_remove_self]
        exact nofun
      · intro id' r hr
        obtain ⟨hrun, hb⟩ := h.registered id' r (hless id' r hr)
        exact ⟨hrun, hb.step rfl (fun _ _ => rfl) fun _ hu => hu⟩
      · have hplace : ∀ r id', get? s.sessions id' = some r →
            (∃ id', get? (remove s.sessions id) id' = some r) ∨ runtime = r := by
          intro r id' hr
          by_cases hid : id' = id
          · subst hid
            exact Or.inr (Option.some.inj (hget.symm.trans hr))
          · exact Or.inl ⟨id', (get?_remove_of_ne _ hid).trans hr⟩
        intro r hr
        rcases h.holder c hr with ⟨id', hreg⟩ | hx | hx
        · exact (hplace r id' hreg).imp_right Or.inl
        · obtain ⟨id', hreg⟩ := hheld r hr hx
          exact (hplace r id' hreg).imp_right Or.inl
        · exact Or.inr (Or.inr hx)

theorem Inv.halted (h : Inv s) {sweep : Bool} {id : Text} {runtime : Nat} {rest : List Text}
    (hp : s.phase c = .stopping sweep id runtime rest) (ok : Bool) :
    Inv ((s.halted runtime ok).unlink id) := by
  obtain ⟨hb, hget⟩ := h.popped c sweep id runtime rest hp
  refine h.halt rfl rfl rfl rfl (fun id' r hr => ⟨hr, ?_⟩) (fun _ _ hr _ => hr)
  rintro rfl
  exact hget ((h.registered id' _ hr).2.unique hb ▸ hr)

theorem Inv.ended (h : Inv s) {sweep : Bool} {id : Text} {runtime : Nat} {rest : List Text}
    (hp : s.phase c = .stopping sweep id runtime rest) (ok : Bool) :
    Inv (((s.halted runtime ok).unlink id).stopNext c sweep rest) := by
  refine (h.halted hp ok).stopNext sweep rest fun r hr hx => ?_
  rw [show ((s.halted runtime ok).unlink id).phase c = .stopping sweep id runtime rest from hp] at hx
  obtain rfl : runtime = r := hx
  rw [show ((s.halted runtime ok).unlink id).running = update s.running runtime false
    from rfl, update_self] at hr
  cases hr

theorem Inv.enters (h : Inv s) (he : Enters s c s') : Inv s' := by
  have hlast : ∀ manager, s.queue = [] → (s.enlist c manager).queue.head? = some c := by
    intro manager hq
    rw [State.enlist_queue, hq]
    rfl
  cases he with
  | create client key manager folder hp hq =>
    refine (h.enlist manager).enterCreate (hlast _ hq) _ ?_ ?_ <;> rw [State.enlist_phase, hp]
    · trivial
    · exact fun _ hr => hr
  | lining hp hq => exact h.enterCreate hq _ (by rw [hp]; trivial) (by rw [hp]; exact fun _ hr => hr)
  | get hp hq =>
    refine (h.enlist none).enterGet (hlast _ hq) _ _ ?_
    rw [State.enlist_phase, hp]
    exact fun _ hr => hr
  | waiting hp hq => exact h.enterGet hq _ _ (by rw [hp]; exact fun _ hr => hr)

theorem Inv.begin (h : Inv s) (hp : s.phase c = .idle) {q : Phase}
    (hphase : s'.phase = update s.phase c q) (hqueue : s'.queue = s.queue)
    (hsessions : s'.sessions = s.sessions) (hrunning : s'.running = s.running)
    (hmade : s'.madeFor = s.madeFor) (hq : q.quiet) : Inv s' :=
  h.quiet hphase (fun _ _ _ => by rw [hqueue]) hsessions hrunning hmade hq
    (fun _ => by rw [hp]; trivial) fun _ _ hr => by
      rw [hp] at hr
      exact hr.elim

end Moves

theorem Inv.step {e : Event} (h : Inv s) (he : step idleTimeout s e = some s') : Inv s' := by
  cases moves_of_step he with
  | enters h' => exact h.enters h'
  | lining hp => exact (h.enlist _).begin hp rfl rfl rfl rfl rfl trivial
  | unauthorized hp => exact h.begin hp rfl rfl rfl rfl rfl trivial
  | waiting hp => exact (h.enlist _).begin hp rfl rfl rfl rfl rfl trivial
  | got hp => exact h.begin hp rfl rfl rfl rfl rfl trivial
  | authorize | opens | switch | tick => exact h.congr rfl (fun _ hx => hx) rfl rfl rfl
  | stranger | open' => exact h
  | stop hp =>
    refine h.stopNext _ _ fun r _ hr => ?_
    rw [hp] at hr
    exact hr.elim
  | launched hp => exact h.launched hp _
  | dead hp =>
    refine h.leave (h.inside _ (by rw [hp]; trivial)) trivial (fun hu => hu) fun r _ hr => ?_
    rw [hp] at hr
    exact hr.elim
  | retired hp => exact h.forget hp _
  | @rolledBack c ok hp =>
    have hmid : Inv (s.halted c ok) := h.halt rfl rfl rfl rfl
      (fun id r hr => ⟨hr, fun hrc => h.rolling c hp id (hrc ▸ hr)⟩) (fun _ _ hr _ => hr)
    refine hmid.leave (h.inside c (by rw [hp]; trivial)) trivial (fun hu => hu) fun r hr hx => ?_
    rw [show (s.halted c ok).phase c = .rollingBack from hp] at hx
    obtain rfl : c = r := hx
    rw [show (s.halted c ok).running = update s.running c false from rfl,
      update_self] at hr
    cases hr
  | ended hp => exact h.ended hp _
  | @destroyed c after d manager ok hp =>
    have hmid : ∀ t : State, t.phase = s.phase → t.queue = s.queue → t.sessions = s.sessions →
        t.running = s.running → t.madeFor = s.madeFor → Inv (t.proceed c after) := by
      intro t hphase hqueue hsessions hrunning hmade
      have ht : Inv t := h.congr hphase (fun _ hx => hqueue ▸ hx) hsessions hrunning hmade
      refine ht.proceed (hqueue ▸ h.inside c (by rw [hp]; trivial)) after ?_ ?_
      · rintro req rfl
        rw [hsessions, hphase, hp]
        exact ⟨h.free c req (by rw [hp]; rfl), trivial⟩
      · intro r _ hr
        rw [hphase, hp] at hr
        exact hr.elim
    split
    · exact hmid _ rfl rfl rfl rfl rfl
    · exact hmid _ rfl rfl rfl rfl rfl

theorem inv_run {active : Root} {events : List Event} {t : State}
    (h : Steps.run (step idleTimeout) (init active) events = some t) : Inv t :=
  Steps.run_invariant (step idleTimeout) Inv (fun _ _ _ hs he => hs.step he) _ _ _ (inv_init active) h

end MiqroForge.Registry
