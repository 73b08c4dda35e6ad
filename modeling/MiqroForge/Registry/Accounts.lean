import MiqroForge.Registry.Consistent

/-!
No account gets the runtime of another: what a call returns was made under the account in use, and
what a call refuses is stopped with its sandbox.
-/

set_option linter.unusedSectionVars false

namespace MiqroForge.Registry

open PyText Function

variable {idleTimeout : Nat} {s s' : State}

/-- Where the runtime opens its sandbox. -/
def State.place (s : State) (runtime : Nat) : Option (Nat × Text × Text) :=
  match s.madeFor runtime with
  | some ⟨client, key, some manager, _, _⟩ => some (manager, client, key)
  | _ => none

/-- A runtime enters the registry under the account root that it was made under, a stop that ends
finds its id free, and what is discarded stops, with its sandbox where the discarding looks. -/
def Faithful (s : State) : Event → Prop
  | .started c true bound =>
    match s.phase c with
    | .starting req => (req.folder = true → bound = true) → s.currentAccountRoot = req.root →
        req.root = s.madeUnder c
    | _ => True
  | .ended c ok =>
    match s.phase c with
    | .stopping _ id _ _ => s.has id = false
    | .retiring _ d => ok = true ∧ ∀ place ∈ s.place d.runtime,
        s.boxes place = some d.runtime → s.target d = some place
    | _ => True
  | .destroyed _ ok => ok = true
  | _ => True

instance (s : State) (e : Event) : Decidable (Faithful s e) := by
  delta Faithful
  induction e using Event.casesOn with
  | started c ok =>
    cases ok <;> dsimp only
    · infer_instance
    · generalize s.phase c = phase
      induction phase using Phase.casesOn <;> dsimp only <;> infer_instance
  | ended c =>
    dsimp only
    generalize s.phase c = phase
    induction phase using Phase.casesOn <;> dsimp only <;> infer_instance
  | _ => dsimp only; infer_instance

/-- The runtime has stopped, and so has its sandbox. -/
structure Retired (s : State) (runtime : Nat) : Prop where
  made : ¬ (s.phase runtime).unmade
  ended : s.running runtime = false
  stopped : s.stopped runtime = true
  closed : ∀ place, s.boxes place ≠ some runtime

/-- What has become of a runtime that the call refused. -/
inductive Fate (s : State) (c runtime : Nat) : Prop where
  | retiring (after : After) (d : Discard) (hp : s.phase c = .retiring after d)
      (hd : d.runtime = runtime)
  | destroying (after : After) (d : Discard) (manager : Nat)
      (hp : s.phase c = .destroying after d manager) (hmade : ¬ (s.phase runtime).unmade)
      (hrun : s.running runtime = false) (hstop : s.stopped runtime = true)
      (hbox : ∀ place, s.boxes place = some runtime → place = (manager, d.client, d.key))
  | retired (h : Retired s runtime)

structure Owned (s : State) : Prop where
  account : ∀ id runtime, Table.get? s.sessions id = some runtime →
    ∃ root, s.sessionAccount id = some root ∧ s.madeUnder runtime = some root
  starting : ∀ c req, s.phase c = .starting req → s.madeUnder c ≠ none
  boxes : ∀ place runtime, s.boxes place = some runtime →
    ¬ (s.phase runtime).unmade ∧ s.place runtime = some place
  returned : ∀ e ∈ s.returned, ¬ (s.phase e.2.1).unmade ∧ s.madeUnder e.2.1 = some e.2.2
  refused : ∀ e ∈ s.refused, Fate s e.1 e.2

theorem owned_init (active : Root) : Owned (init active) where
  account := nofun
  starting := nofun
  boxes := nofun
  returned := nofun
  refused := nofun

/-- What a step leaves alone. -/
structure Frame (s s' : State) (c : Nat) (q : Phase) : Prop where
  phase : s'.phase = update s.phase c q
  back : ¬ (s.phase c).unmade → ¬ q.unmade
  madeUnder : ∀ r, (r = c → ¬ (s.phase c).unmade) → s'.madeUnder r = s.madeUnder r
  madeFor : ∀ r, (r = c → ¬ (s.phase c).unmade) → s'.madeFor r = s.madeFor r
  running : ∀ r, (r = c → ¬ (s.phase c).unmade) → s'.running r = true → s.running r = true
  stopped : ∀ r, s.stopped r = true → s'.stopped r = true
  boxes : ∀ place r, s'.boxes place = some r → s.boxes place = some r

namespace Frame
variable {c : Nat} {q : Phase}

theorem settled (hf : Frame s s' c q) {r : Nat} (hr : ¬ (s.phase r).unmade) :
    ¬ (s'.phase r).unmade := by
  rw [hf.phase]
  by_cases hrc : r = c
  · subst hrc
    rw [update_self]
    exact hf.back hr
  · rwa [update_of_ne hrc]

theorem other (hf : Frame s s' c q) {x : Nat} (hx : x ≠ c) : s'.phase x = s.phase x := by
  rw [hf.phase, update_of_ne hx]

theorem stays_halted (hf : Frame s s' c q) {r : Nat} (hr : ¬ (s.phase r).unmade)
    (hrun : s.running r = false) : s'.running r = false := by
  cases hrun' : s'.running r with
  | false => rfl
  | true => exact absurd (hf.running r (fun hrc => hrc ▸ hr) hrun') (by rw [hrun]; decide)

theorem retired (hf : Frame s s' c q) {r : Nat} (h : Retired s r) : Retired s' r where
  made := hf.settled h.made
  ended := hf.stays_halted h.made h.ended
  stopped := hf.stopped r h.stopped
  closed := fun place hp => h.closed place (hf.boxes place r hp)

theorem fate (hf : Frame s s' c q) {x r : Nat} (hx : x ≠ c) (h : Fate s x r) : Fate s' x r := by
  cases h with
  | retiring after d hp hd => exact .retiring after d ((hf.other hx).trans hp) hd
  | destroying after d manager hp hmade hrun hstop hbox =>
    exact .destroying after d manager ((hf.other hx).trans hp) (hf.settled hmade)
      (hf.stays_halted hmade hrun) (hf.stopped r hstop) fun place h => hbox place (hf.boxes place r h)
  | retired h => exact .retired (hf.retired h)

theorem place (hf : Frame s s' c q) {r : Nat} (hr : ¬ (s.phase r).unmade) :
    s'.place r = s.place r := by
  unfold State.place
  rw [hf.madeFor r fun hrc => hrc ▸ hr]

end Frame

/-- The call is in the middle of `_discard_session`. -/
def Phase.discards : Phase → Prop
  | .retiring _ _ | .destroying _ _ _ => True
  | _ => False

theorem Fate.retired_of {c r : Nat} (h : Fate s c r) (hout : ¬ (s.phase c).discards) :
    Retired s r := by
  cases h with
  | retiring after d hp => exact absurd (by rw [hp]; trivial) hout
  | destroying after d manager hp => exact absurd (by rw [hp]; trivial) hout
  | retired h => exact h

theorem Fate.of_retiring {c r : Nat} {after : After} {d : Discard} (h : Fate s c r)
    (hp : s.phase c = .retiring after d) : d.runtime = r ∨ Retired s r := by
  cases h with
  | retiring after' d' hp' hd =>
    cases hp.symm.trans hp'
    exact Or.inl hd
  | destroying after' d' manager hp' => cases hp.symm.trans hp'
  | retired h => exact Or.inr h

theorem Owned.change (h : Owned s) {c : Nat} {q : Phase} (hf : Frame s s' c q)
    (haccount : ∀ id r, Table.get? s'.sessions id = some r →
      (Table.get? s.sessions id = some r ∧ s'.sessionAccount id = s.sessionAccount id ∧
        ¬ (s.phase r).unmade) ∨
      ∃ root, s'.sessionAccount id = some root ∧ s'.madeUnder r = some root)
    (hstarting : ∀ req, q = .starting req → s'.madeUnder c ≠ none)
    (hreturned : ∀ e ∈ s'.returned, e ∈ s.returned ∨
      ¬ (s'.phase e.2.1).unmade ∧ s'.madeUnder e.2.1 = some e.2.2)
    (hrefused : ∀ e ∈ s'.refused, e ∈ s.refused ∨ e.1 = c)
    (hfate : ∀ r, (c, r) ∈ s'.refused → Fate s' c r) : Owned s' where
  account := fun id r hr => by
    rcases haccount id r hr with ⟨hget, hsame, hmade⟩ | hnew
    · obtain ⟨root, hroot, hunder⟩ := h.account id r hget
      exact ⟨root, hsame.trans hroot, (hf.madeUnder r fun hrc => hrc ▸ hmade).trans hunder⟩
    · exact hnew
  starting := fun x req hx => by
    by_cases hxc : x = c
    · subst hxc
      rw [hf.phase, update_self] at hx
      exact hstarting req hx
    · rw [hf.other hxc] at hx
      rw [hf.madeUnder x fun hxc' => absurd hxc' hxc]
      exact h.starting x req hx
  boxes := fun place r hr => by
    obtain ⟨hmade, hplace⟩ := h.boxes place _ (hf.boxes place r hr)
    exact ⟨hf.settled hmade, (hf.place hmade).trans hplace⟩
  returned := fun e he => by
    rcases hreturned e he with hold | hnew
    · obtain ⟨hmade, hunder⟩ := h.returned e hold
      exact ⟨hf.settled hmade, (hf.madeUnder _ fun hrc => hrc ▸ hmade).trans hunder⟩
    · exact hnew
  refused := fun e he => by
    by_cases hec : e.1 = c
    · obtain ⟨x, r⟩ := e
      subst hec
      exact hfate r he
    · rcases hrefused e he with hold | hnew
      · exact hf.fate hec (h.refused e hold)
      · exact absurd hnew hec

theorem Retired.congr {r : Nat} (h : Retired s r) (hphase : s'.phase = s.phase)
    (hrunning : s'.running = s.running) (hstopped : s'.stopped = s.stopped)
    (hboxes : s'.boxes = s.boxes) : Retired s' r where
  made := by rw [hphase]; exact h.made
  ended := by rw [hrunning]; exact h.ended
  stopped := by rw [hstopped]; exact h.stopped
  closed := by rw [hboxes]; exact h.closed

theorem Owned.congr (h : Owned s) (hphase : s'.phase = s.phase) (hsessions : s'.sessions = s.sessions)
    (haccount : s'.sessionAccount = s.sessionAccount) (hunder : s'.madeUnder = s.madeUnder)
    (hmade : s'.madeFor = s.madeFor) (hrunning : s'.running = s.running)
    (hstopped : s'.stopped = s.stopped) (hboxes : s'.boxes = s.boxes)
    (hreturned : s'.returned = s.returned) (hrefused : s'.refused = s.refused) : Owned s' where
  account := by rw [hsessions, haccount, hunder]; exact h.account
  starting := by rw [hphase, hunder]; exact h.starting
  boxes := by
    rw [hboxes, hphase, show s'.place = s.place by unfold State.place; rw [hmade]]
    exact h.boxes
  returned := by rw [hreturned, hphase, hunder]; exact h.returned
  refused := by
    rw [hrefused]
    intro e he
    cases h.refused e he with
    | retiring after d hp hd => exact .retiring after d (by rw [hphase, hp]) hd
    | destroying after d manager hp hm hrun hstop hbox =>
      exact .destroying after d manager (by rw [hphase, hp]) (by rw [hphase]; exact hm)
        (by rw [hrunning]; exact hrun) (by rw [hstopped]; exact hstop) (by rw [hboxes]; exact hbox)
    | retired h => exact .retired (h.congr hphase hrunning hstopped hboxes)

theorem running_of_halted {runtime r : Nat}
    (hr : update s.running runtime false r = true) : s.running r = true := by
  by_cases hrd : r = runtime
  · rw [hrd, update_self] at hr
    cases hr
  · rwa [update_of_ne hrd] at hr

theorem halted_stopped {r : Nat} (hr : s.stopped r = true) (runtime : Nat) (ok : Bool) :
    update s.stopped runtime (s.stopped runtime || ok) r = true := by
  by_cases hrd : r = runtime
  · rw [hrd, update_self, ← hrd, hr]
    rfl
  · rwa [update_of_ne hrd]

section Moves

variable {c : Nat}

/-- All that the call has refused is retired. -/
def Settled (s : State) (c : Nat) : Prop := ∀ r, (c, r) ∈ s.refused → Retired s r

theorem Owned.settled (h : Owned s) {p : Phase} (hp : s.phase c = p) (hout : ¬ p.discards) :
    Settled s c := fun _ hr => (h.refused _ hr).retired_of (by rwa [hp])

theorem Owned.move (h : Owned s) (hinv : Inv s) (hs : Settled s c) {q : Phase}
    (hphase : s'.phase = update s.phase c q) (hback : ¬ (s.phase c).unmade → ¬ q.unmade)
    (hq : ∀ req, q ≠ .starting req) (hsessions : s'.sessions = s.sessions)
    (haccount : s'.sessionAccount = s.sessionAccount) (hunder : s'.madeUnder = s.madeUnder)
    (hmade : s'.madeFor = s.madeFor) (hrunning : s'.running = s.running)
    (hstopped : s'.stopped = s.stopped) (hboxes : s'.boxes = s.boxes)
    (hreturned : ∀ e ∈ s'.returned, e ∈ s.returned ∨
      ¬ (s.phase e.2.1).unmade ∧ s.madeUnder e.2.1 = some e.2.2)
    (hrefused : s'.refused = s.refused) : Owned s' := by
  have hf : Frame s s' c q :=
    ⟨hphase, hback, fun _ _ => by rw [hunder], fun _ _ => by rw [hmade],
      fun _ _ hr => by rwa [hrunning] at hr, fun _ hr => by rwa [hstopped],
      fun _ _ hr => by rwa [hboxes] at hr⟩
  refine h.change hf (fun id r hr => Or.inl ?_) (fun req hreq => absurd hreq (hq req)) ?_ ?_ ?_
  · rw [hsessions] at hr
    exact ⟨hr, by rw [haccount], (hinv.registered id r hr).2.1⟩
  · intro e he
    refine (hreturned e he).imp_right fun hnew => ⟨hf.settled hnew.1, ?_⟩
    rw [hunder]
    exact hnew.2
  · intro e he
    exact Or.inl (hrefused ▸ he)
  · intro r hr
    rw [hrefused] at hr
    exact .retired (hf.retired (hs r hr))

theorem Owned.leave (h : Owned s) (hinv : Inv s) (hs : Settled s c) {q : Phase}
    (hback : ¬ q.unmade) (hq : ∀ req, q ≠ .starting req) : Owned (s.leave c q) :=
  h.move hinv hs rfl (fun _ => hback) hq rfl rfl rfl rfl rfl rfl rfl (fun _ => Or.inl) rfl

theorem Owned.make (h : Owned s) (hinv : Inv s) (hs : Settled s c) (hun : (s.phase c).unmade)
    (req : Request) : Owned (s.make c req) := by
  have hne : ∀ r, (r = c → ¬ (s.phase c).unmade) → r ≠ c := fun r hr hrc => hr hrc hun
  have hf : Frame s (s.make c req) c (.starting req) :=
    ⟨rfl, fun hb => absurd hun hb, fun r hr => update_of_ne (hne r hr) _ _,
      fun r hr => update_of_ne (hne r hr) _ _, fun _ _ hr => hr, fun _ hr => hr,
      fun _ _ hr => hr⟩
  refine h.change hf (fun id r hr => Or.inl ⟨hr, rfl, (hinv.registered id r hr).2.1⟩) ?_
    (fun _ => Or.inl) (fun _ => Or.inl) fun r hr => .retired (hf.retired (hs r hr))
  intro _ _
  rw [show (s.make c req).madeUnder = update s.madeUnder c (some s.active) from rfl,
    update_self]
  exact nofun

theorem Owned.proceed (h : Owned s) (hinv : Inv s) (hs : Settled s c) (after : After)
    (hun : ∀ req, after = .make req → (s.phase c).unmade) : Owned (s.proceed c after) := by
  cases after with
  | make req => exact h.make hinv hs (hun req rfl) req
  | fail => exact h.leave hinv hs (fun hu => hu) nofun
  | answer => exact h.leave hinv hs (fun hu => hu) nofun

theorem Owned.discard (h : Owned s) (hinv : Inv s) (hs : Settled s c) (after : After) (d : Discard)
    (hback : ¬ (s.phase c).unmade → ¬ (Phase.retiring after d).unmade) :
    Owned (s.discard c after d) := by
  have hf : Frame s (s.discard c after d) c (.retiring after d) :=
    ⟨rfl, hback, fun _ _ => rfl, fun _ _ => rfl, fun _ _ hr => hr, fun _ hr => hr, fun _ _ hr => hr⟩
  refine h.change hf (fun id r hr => Or.inl ⟨hr, rfl, (hinv.registered id r hr).2.1⟩)
    nofun (fun _ => Or.inl) ?_ ?_
  · intro e he
    rcases List.mem_cons.mp he with rfl | he'
    · exact Or.inr rfl
    · exact Or.inl he'
  · intro r hr
    rcases List.mem_cons.mp hr with heq | hr'
    · cases heq
      exact .retiring after d (update_self ..) rfl
    · exact .retired (hf.retired (hs r hr'))

theorem active_of_matches {id : Text} {root : Root} (hroot : s.sessionAccount id = some root)
    (hmatch : s.accountMatches id = true) : s.active = root := by
  unfold State.accountMatches State.currentAccountRoot at hmatch
  rw [hroot] at hmatch
  by_cases hread : s.readable = true
  · simp only [hread, if_true, decide_eq_true_eq] at hmatch
    exact hmatch.symm
  · simp [hread] at hmatch

theorem Owned.matching (h : Owned s) {id : Text} {r : Nat} (hget : Table.get? s.sessions id = some r)
    (hmatch : s.accountMatches id = true) : s.madeUnder r = some s.active := by
  obtain ⟨root, hroot, hunder⟩ := h.account id r hget
  rw [hunder, active_of_matches hroot hmatch]

theorem Owned.enterCreate (h : Owned s) (hinv : Inv s) (hs : Settled s c) (req : Request)
    (hun : (s.phase c).unmade) : Owned (s.enterCreate c req) := by
  unfold State.enterCreate
  split
  case h_2 => exact h.make hinv hs hun req
  case h_1 runtime hget =>
    split
    case isTrue hmatch =>
      refine h.move hinv hs rfl (fun hb => absurd hun hb) nofun rfl rfl rfl rfl
        rfl rfl rfl ?_ rfl
      intro e he
      rcases List.mem_cons.mp he with rfl | he'
      · exact Or.inr ⟨(hinv.registered _ _ hget).2.1, h.matching hget hmatch⟩
      · exact Or.inl he'
    case isFalse => exact h.discard hinv hs _ _ fun hb => absurd hun hb

theorem Owned.enterGet (h : Owned s) (hinv : Inv s) (hs : Settled s c) (client id : Text) :
    Owned (s.enterGet c client id) := by
  have hleave : Owned (s.leave c (.answered none)) :=
    h.leave hinv hs (fun hu => hu) nofun
  unfold State.enterGet
  split
  case h_2 => exact hleave
  case h_1 stale hget =>
    split
    case isTrue => exact hleave
    case isFalse => exact h.discard hinv hs _ _ fun _ hu => hu

theorem Owned.enlist (h : Owned s) (manager : Option Nat) : Owned (s.enlist c manager) :=
  h.congr rfl rfl rfl rfl rfl rfl rfl rfl rfl rfl

theorem Owned.enters (h : Owned s) (hinv : Inv s) (he : Enters s c s') : Owned s' := by
  have hsettled : ∀ manager, s.phase c = .idle → Settled (s.enlist c manager) c := fun manager hp =>
    (h.enlist manager).settled hp fun hd => hd
  cases he with
  | create client key manager folder hp hq =>
    refine (h.enlist manager).enterCreate (hinv.enlist manager) (hsettled manager hp) _ ?_
    rw [State.enlist_phase, hp]
    trivial
  | lining hp hq =>
    exact h.enterCreate hinv (h.settled hp fun hd => hd) _ (by rw [hp]; trivial)
  | get hp hq => exact (h.enlist none).enterGet (hinv.enlist none) (hsettled none hp) _ _
  | waiting hp hq =>
    exact h.enterGet hinv (h.settled hp fun hd => hd) _ _

theorem Owned.forget (h : Owned s) (hinv : Inv s) {after : After} {d : Discard}
    (hp : s.phase c = .retiring after d)
    (hplace : ∀ place ∈ s.place d.runtime, s.boxes place = some d.runtime → s.target d = some place) :
    Owned ((s.halted d.runtime true).forget c after d) := by
  obtain ⟨hborn, -, -⟩ := hinv.cached c after d hp
  have hmidinv := hinv.retired hp true
  have hsame : update s.phase c (.retiring after d) = s.phase := by
    rw [← hp, update_eq_self]
  have hf : Frame s (((s.halted d.runtime true).pop d.id).unlink d.id) c (.retiring after d) :=
    ⟨hsame.symm, fun hb => hp ▸ hb, fun _ _ => rfl, fun _ _ => rfl,
      fun _ _ hr => running_of_halted hr, fun _ hr => halted_stopped hr _ _, fun _ _ hr => hr⟩
  have hmid : Owned (((s.halted d.runtime true).pop d.id).unlink d.id) := by
    refine h.change hf (fun id r hr => Or.inl ?_) nofun
      (fun _ => Or.inl) (fun _ => Or.inl) fun r hr => ?_
    · have hne : id ≠ d.id := by
        rintro rfl
        rw [show (((s.halted d.runtime true).pop d.id).unlink d.id).sessions =
          Table.remove s.sessions d.id from rfl, Table.get?_remove_self] at hr
        cases hr
      have hold : Table.get? s.sessions id = some r := (Table.get?_remove_of_ne _ hne).symm.trans hr
      exact ⟨hold, update_of_ne hne _ _, (hinv.registered id r hold).2.1⟩
    · rcases (h.refused _ hr).of_retiring hp with hd | h'
      · exact .retiring after d hp hd
      · exact .retired (hf.retired h')
  have hgone : (((s.halted d.runtime true).pop d.id).unlink d.id).running d.runtime = false :=
    update_self ..
  have hstopped : (((s.halted d.runtime true).pop d.id).unlink d.id).stopped d.runtime = true := by
    show update s.stopped d.runtime (s.stopped d.runtime || true) d.runtime = true
    rw [update_self, Bool.or_true]
  have hboxes : ∀ place, s.boxes place = some d.runtime → s.target d = some place := by
    intro place hbox
    exact hplace place (h.boxes place _ hbox).2 hbox
  have hunmade : ∀ req, after = .make req → (s.phase c).unmade := by
    rintro req rfl
    rw [hp]
    trivial
  unfold State.forget
  split
  case h_1 manager client key htarget =>
    have hat : s.target d = some (manager, client, key) := htarget
    have hkey : (manager, client, key) = (manager, d.client, d.key) := by
      unfold State.target at hat
      split at hat
      · cases hat
      · cases hm : s.managerFor d with
        | none =>
          rw [hm] at hat
          cases hat
        | some m =>
          rw [hm] at hat
          cases hat
          rfl
    have hf' : Frame (((s.halted d.runtime true).pop d.id).unlink d.id)
        ((((s.halted d.runtime true).pop d.id).unlink d.id).setPhase c
          (.destroying after d manager)) c (.destroying after d manager) := by
      refine ⟨rfl, fun hb => ?_, fun _ _ => rfl, fun _ _ => rfl, fun _ _ hr => hr, fun _ hr => hr,
        fun _ _ hr => hr⟩
      rw [show (((s.halted d.runtime true).pop d.id).unlink d.id).phase c = _ from hp] at hb
      cases after with
      | make req => exact absurd trivial hb
      | fail => exact fun hu => hu
      | answer => exact fun hu => hu
    refine hmid.change hf' (fun id r hr => Or.inl ⟨hr, rfl, (hmidinv.registered id r hr).2.1⟩)
      nofun (fun _ => Or.inl) (fun _ => Or.inl) fun r hr => ?_
    rcases (h.refused _ hr).of_retiring hp with rfl | hret
    · refine .destroying after d manager (update_self ..) (hf'.settled (hf.settled hborn.1))
        hgone hstopped fun place hbox => ?_
      rw [← hkey]
      exact Option.some.inj ((hboxes place hbox).symm.trans hat)
    · exact .retired (hf'.retired (hf.retired hret))
  case h_2 htarget =>
    have hat : s.target d = none := htarget
    refine hmid.proceed hmidinv (fun r hr => ?_) after fun req hreq => hunmade req hreq
    rcases (h.refused _ hr).of_retiring hp with rfl | hret
    · exact ⟨hf.settled hborn.1, hgone, hstopped, fun place hbox => by
        rw [hboxes place hbox] at hat
        cases hat⟩
    · exact hf.retired hret

theorem Owned.launched (h : Owned s) (hinv : Inv s) {req : Request} (hp : s.phase c = .starting req)
    (bound : Bool) (hgood : (req.folder = true → bound = true) → s.currentAccountRoot = req.root →
      req.root = s.madeUnder c) : Owned (s.launched c req bound) := by
  have hs : Settled s c := h.settled hp fun hd => hd
  have hun : (s.phase c).unmade := by
    rw [hp]
    trivial
  have hf : ∀ (t : State) (q : Phase), t.phase = update s.phase c q →
      t.madeUnder = s.madeUnder → t.madeFor = s.madeFor →
      t.running = update s.running c true → t.stopped = s.stopped → t.boxes = s.boxes →
      Frame s t c q := by
    intro t q hphase hunder hfor hrunning hstopped hboxes
    refine ⟨hphase, fun hb => absurd hun hb, fun _ _ => by rw [hunder], fun _ _ => by rw [hfor],
      fun r hr hrun => ?_, fun _ hr => by rwa [hstopped], fun _ _ hr => by rwa [hboxes] at hr⟩
    rwa [hrunning, update_of_ne fun hrc => hr hrc hun] at hrun
  have hsame : ∀ id r, Table.get? s.sessions id = some r → ¬ (s.phase r).unmade := fun id r hr =>
    (hinv.registered id r hr).2.1
  unfold State.launched
  split
  case isTrue =>
    have hf' := hf ({ s with running := update s.running c true }.setPhase c .rollingBack)
      .rollingBack rfl rfl rfl rfl rfl rfl
    exact h.change hf' (fun id r hr => Or.inl ⟨hr, rfl, hsame id r hr⟩) (by rintro _ ⟨⟩)
      (fun _ => Or.inl) (fun _ => Or.inl) fun r hr => .retired (hf'.retired (hs r hr))
  case isFalse hbound =>
    have hbound' : req.folder = true → bound = true := by
      intro hfolder
      rw [hfolder] at hbound
      simpa using hbound
    split
    case isTrue =>
      have hf' := hf ({ s with running := update s.running c true }.discard c .fail
        ⟨req.id, c, req.manager, req.key, req.client⟩) _ rfl rfl rfl rfl rfl rfl
      refine h.change hf' (fun id r hr => Or.inl ⟨hr, rfl, hsame id r hr⟩) (by rintro _ ⟨⟩)
        (fun _ => Or.inl) ?_ ?_
      · intro e he
        rcases List.mem_cons.mp he with rfl | he'
        · exact Or.inr rfl
        · exact Or.inl he'
      · intro r hr
        rcases List.mem_cons.mp hr with heq | hr'
        · cases heq
          exact .retiring _ _ (update_self ..) rfl
        · exact .retired (hf'.retired (hs r hr'))
    case isFalse hroot =>
      have hcurrent : s.currentAccountRoot = req.root := not_not.mp hroot
      have hunder := hgood hbound' hcurrent
      obtain ⟨root, hmade⟩ := Option.ne_none_iff_exists'.mp (h.starting c req hp)
      have hreq : req.root = some root := hunder.trans hmade
      have hactive : s.active = root := by
        rw [hreq] at hcurrent
        unfold State.currentAccountRoot at hcurrent
        split at hcurrent
        · exact Option.some.inj hcurrent
        · cases hcurrent
      have hf' := hf ({ s with running := update s.running c true }.register c req)
        (.answered (some c)) rfl rfl rfl rfl rfl rfl
      refine h.change hf' (fun id r hr => ?_) (by rintro _ ⟨⟩) ?_ (fun _ => Or.inl)
        fun r hr => .retired (hf'.retired (hs r hr))
      · by_cases hid : id = req.id
        · subst hid
          obtain rfl : c = r := Option.some.inj ((Table.get?_set_self ..).symm.trans hr)
          refine Or.inr ⟨root, ?_, hmade⟩
          simp only [State.register, hreq]
          exact update_self ..
        · have hold : Table.get? s.sessions id = some r :=
            (Table.get?_set_of_ne _ _ hid).symm.trans hr
          refine Or.inl ⟨hold, ?_, hsame id r hold⟩
          simp only [State.register, hreq]
          exact update_of_ne hid _ _
      · intro e he
        rcases List.mem_cons.mp he with rfl | he'
        · refine Or.inr ⟨?_, ?_⟩
          · rw [hf'.phase, update_self]
            exact fun hu => hu
          · show s.madeUnder c = some s.active
            rw [hmade, hactive]
        · exact Or.inl he'

theorem Owned.halt (h : Owned s) (hinv : Inv s) (hs : Settled s c) {runtime : Nat} {ok : Bool}
    {q : Phase} (hphase : s'.phase = update s.phase c q)
    (hback : ¬ (s.phase c).unmade → ¬ q.unmade) (hq : ∀ req, q ≠ .starting req)
    (hsessions : ∀ id r, Table.get? s'.sessions id = some r → Table.get? s.sessions id = some r ∧
      s'.sessionAccount id = s.sessionAccount id)
    (hunder : s'.madeUnder = s.madeUnder) (hmade : s'.madeFor = s.madeFor)
    (hrunning : s'.running = update s.running runtime false)
    (hstopped : s'.stopped = update s.stopped runtime (s.stopped runtime || ok))
    (hboxes : s'.boxes = s.boxes) (hreturned : s'.returned = s.returned)
    (hrefused : s'.refused = s.refused) : Owned s' := by
  have hf : Frame s s' c q :=
    ⟨hphase, hback, fun _ _ => by rw [hunder], fun _ _ => by rw [hmade],
      fun r _ hr => running_of_halted (hrunning ▸ hr),
      fun r hr => hstopped ▸ halted_stopped hr runtime ok, fun _ _ hr => by rwa [hboxes] at hr⟩
  refine h.change hf (fun id r hr => Or.inl ?_) (fun req hreq => absurd hreq (hq req))
    (fun e he => Or.inl (hreturned ▸ he)) (fun e he => Or.inl (hrefused ▸ he)) fun r hr => ?_
  · obtain ⟨hget, hsame⟩ := hsessions id r hr
    exact ⟨hget, hsame, (hinv.registered id r hget).2.1⟩
  · rw [hrefused] at hr
    exact .retired (hf.retired (hs r hr))

theorem Owned.stopNext (h : Owned s) (hinv : Inv s) (hs : Settled s c) (sweep : Bool)
    (ids : List Text) : Owned (s.stopNext c sweep ids) := by
  induction ids with
  | nil =>
    exact h.move hinv hs rfl (fun _ hu => hu) nofun rfl rfl rfl rfl rfl rfl rfl
      (fun _ => Or.inl) rfl
  | cons id rest ih =>
    unfold State.stopNext
    split
    case h_1 => exact ih
    case h_2 runtime hget =>
      have hf : Frame s { (s.pop id).setPhase c (.stopping sweep id runtime rest) with
          evicted := if sweep then (id, s.clock, Table.get? s.lastActivity id) :: s.evicted
            else s.evicted } c (.stopping sweep id runtime rest) :=
        ⟨rfl, fun _ hu => hu, fun _ _ => rfl, fun _ _ => rfl, fun _ _ hr => hr, fun _ hr => hr,
          fun _ _ hr => hr⟩
      refine h.change hf (fun id' r hr => Or.inl ?_) nofun
        (fun _ => Or.inl) (fun _ => Or.inl) fun r hr => .retired (hf.retired (hs r hr))
      have hold : Table.get? s.sessions id' = some r := by
        by_cases hid : id' = id
        · subst hid
          have hnone : Table.get? (Table.remove s.sessions id') id' = some r := hr
          rw [Table.get?_remove_self] at hnone
          cases hnone
        · exact (Table.get?_remove_of_ne _ hid).symm.trans hr
      exact ⟨hold, rfl, (hinv.registered id' r hold).2.1⟩

end Moves

theorem Owned.step {e : Event} (h : Owned s) (hinv : Inv s) (hgood : Faithful s e)
    (he : step idleTimeout s e = some s') : Owned s' := by
  cases moves_of_step he with
  | enters h' => exact h.enters hinv h'
  | @lining c client key manager folder hp =>
    exact (h.enlist manager).move (hinv.enlist manager) ((h.enlist manager).settled hp fun hd => hd) rfl
      (fun hb => absurd (by rw [State.enlist_phase, hp]; trivial) hb) (by rintro _ ⟨⟩)
      rfl rfl rfl rfl rfl rfl rfl (fun _ => Or.inl) rfl
  | @waiting c client id hp =>
    exact (h.enlist none).move (hinv.enlist none) ((h.enlist none).settled hp fun hd => hd) rfl
      (fun _ hu => hu) (by rintro _ ⟨⟩) rfl rfl rfl rfl rfl rfl rfl
      (fun _ => Or.inl) rfl
  | @unauthorized c client id hp =>
    exact h.move hinv (h.settled hp fun hd => hd) rfl (fun _ hu => hu) (by rintro _ ⟨⟩)
      rfl rfl rfl rfl rfl rfl rfl (fun _ => Or.inl) rfl
  | @got c client id hp hclient hmatch =>
    refine h.move hinv (h.settled hp fun hd => hd) rfl (fun _ hu => hu) (by rintro _ ⟨⟩)
      rfl rfl rfl rfl rfl rfl rfl ?_ rfl
    intro e he
    cases hget : Table.get? s.sessions id with
    | none =>
      rw [hget] at he
      exact Or.inl he
    | some r =>
      rw [hget] at he
      rcases List.mem_cons.mp he with rfl | he'
      · exact Or.inr ⟨(hinv.registered id r hget).2.1, h.matching hget (hmatch (by rw [hget]; rfl))⟩
      · exact Or.inl he'
  | authorize | switch | tick => exact h.congr rfl rfl rfl rfl rfl rfl rfl rfl rfl rfl
  | stranger | open' => exact h
  | @opens runtime manager client key folder root hrun hfor hfree =>
    have hmade : ¬ (s.phase runtime).unmade := fun hu => by
      rw [hinv.unborn runtime hu] at hrun
      cases hrun
    have hold : ∀ place r, update s.boxes (manager, client, key) (some runtime) place =
        some r → place = (manager, client, key) ∧ r = runtime ∨ s.boxes place = some r := by
      intro place r hp
      by_cases hplace : place = (manager, client, key)
      · rw [hplace, update_self] at hp
        exact Or.inl ⟨hplace, (Option.some.inj hp).symm⟩
      · rw [update_of_ne hplace] at hp
        exact Or.inr hp
    have hbox : ∀ place r, update s.boxes (manager, client, key) (some runtime) place =
        some r → s.running r = false → s.boxes place = some r := by
      intro place r hp hr
      rcases hold place r hp with ⟨-, rfl⟩ | hp'
      · rw [hrun] at hr
        cases hr
      · exact hp'
    refine ⟨h.account, h.starting, fun place r hp => ?_, h.returned, fun e he => ?_⟩
    · rcases hold place r hp with ⟨rfl, rfl⟩ | hp'
      · refine ⟨hmade, ?_⟩
        show State.place s r = _
        unfold State.place
        rw [hfor]
      · exact h.boxes place r hp'
    · cases h.refused e he with
      | retiring after d hp hd => exact .retiring after d hp hd
      | destroying after d m hp hm hr hstop hb =>
        exact .destroying after d m hp hm hr hstop fun place hp' => hb place (hbox place _ hp' hr)
      | retired h' =>
        exact .retired ⟨h'.made, h'.ended, h'.stopped, fun place hp' =>
          h'.closed place (hbox place _ hp' h'.ended)⟩
  | @stop c _ sweep ids hp => exact h.stopNext hinv (h.settled hp fun hd => hd) _ _
  | @launched c req bound hp =>
    refine h.launched hinv hp bound ?_
    simpa only [Faithful, hp] using hgood
  | @dead c req bound hp =>
    exact h.leave hinv (h.settled hp fun hd => hd) (fun hu => hu) (by rintro _ ⟨⟩)
  | @retired c after d ok hp =>
    obtain ⟨rfl, hplace⟩ : ok = true ∧ ∀ place ∈ s.place d.runtime,
        s.boxes place = some d.runtime → s.target d = some place := by
      simpa only [Faithful, hp] using hgood
    exact h.forget hinv hp hplace
  | @rolledBack c ok hp =>
    exact h.halt hinv (h.settled hp fun hd => hd) rfl (fun _ hu => hu) (by rintro _ ⟨⟩)
      (fun _ _ hr => ⟨hr, rfl⟩) rfl rfl rfl rfl rfl rfl rfl
  | @ended c sweep id runtime rest ok hp =>
    have hfree : s.has id = false := by simpa only [Faithful, hp] using hgood
    have hmid : Owned ((s.halted runtime ok).unlink id) := by
      refine h.halt (q := .stopping sweep id runtime rest) hinv (h.settled hp fun hd => hd) ?_
        (fun _ hu => hu) (by rintro _ ⟨⟩) (fun id' r hr => ⟨hr, ?_⟩) rfl rfl rfl rfl rfl rfl
        rfl
      · rw [← hp, update_eq_self]
        rfl
      · refine update_of_ne ?_ _ _
        rintro rfl
        rw [State.has, show Table.get? s.sessions id' = some r from hr] at hfree
        cases hfree
    exact hmid.stopNext (hinv.halted hp ok) (hmid.settled hp fun hd => hd) _ _
  | @destroyed c after d manager ok hp =>
    obtain rfl : ok = true := hgood
    rw [if_pos rfl]
    have hless : ∀ place r, update s.boxes (manager, d.client, d.key) none place = some r →
        place ≠ (manager, d.client, d.key) ∧ s.boxes place = some r := by
      intro place r hr
      have hne : place ≠ (manager, d.client, d.key) := by
        rintro rfl
        rw [update_self] at hr
        cases hr
      exact ⟨hne, by rwa [update_of_ne hne] at hr⟩
    have hf : Frame s { s with boxes := update s.boxes (manager, d.client, d.key) none } c
        (.destroying after d manager) :=
      ⟨by rw [← hp, update_eq_self], fun hb => hp ▸ hb, fun _ _ => rfl, fun _ _ => rfl,
        fun _ _ hr => hr, fun _ hr => hr, fun place r hr => (hless place r hr).2⟩
    have hsettled : Settled { s with
        boxes := update s.boxes (manager, d.client, d.key) none } c := by
      intro r hr
      cases h.refused _ hr with
      | retiring after' d' hp' => cases hp.symm.trans hp'
      | destroying after' d' manager' hp' hm hrun hstop hbox =>
        cases hp.symm.trans hp'
        exact ⟨hm, hrun, hstop, fun place hplace =>
          (hless place _ hplace).1 (hbox place (hless place _ hplace).2)⟩
      | retired h' => exact hf.retired h'
    have hmid : Owned { s with boxes := update s.boxes (manager, d.client, d.key) none } :=
      h.change hf (fun id r hr => Or.inl ⟨hr, rfl, (hinv.registered id r hr).2.1⟩)
        (by rintro _ ⟨⟩) (fun _ => Or.inl) (fun _ => Or.inl)
        fun r hr => .retired (hsettled r hr)
    refine hmid.proceed (hinv.congr rfl (fun _ hx => hx) rfl rfl rfl) hsettled after ?_
    rintro req rfl
    show (s.phase c).unmade
    rw [hp]
    trivial

theorem owned_run {active : Root} {events : List Event} {t : State}
    (hrun : Steps.run (Registry.step idleTimeout) (init active) events = some t)
    (hgood : Steps.GoodRun (Registry.step idleTimeout) Faithful (init active) events) :
    Inv t ∧ Owned t :=
  Steps.goodRun_invariant (Registry.step idleTimeout) Faithful (fun s => Inv s ∧ Owned s)
    (fun _ _ _ hs hgood he => ⟨hs.1.step he, hs.2.step hs.1 hgood he⟩) _ _ _
    ⟨inv_init active, owned_init active⟩ hrun hgood

/-- Account `a` has a runtime with a sandbox, and account `b` asks for the session. -/
def handover : List Event :=
  [.create 0 ['c'] ['k'] (some 7) false, .started 0 true true, .opens 0, .switch ['b'] true,
    .get 1 ['c'] ['c', ':', 'k'], .ended 1 true, .destroyed 1 true]

end MiqroForge.Registry
