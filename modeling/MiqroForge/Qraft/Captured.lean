import MiqroForge.Qraft.Sessions

/-!
The state that the refresh timer and the waiting flows have captured: its tokens are the stored ones,
as long as what waits for a refresh goes on as soon as it has ended.
-/

namespace MiqroForge.Qraft

open PyText State State

/-! ## The order of events -/

/-- What waits for a refresh goes on as soon as it has ended, before anything else happens; and
nobody logs in while a refresh is under way. -/
def Orderly (s : State) : Event → Prop
  | .settled _ => True
  | .login _ => s.inFlightRefresh = none ∧ ∀ f ∈ s.flows, (s.outcome f).isNone = true
  | _ => ∀ f ∈ s.flows, (s.outcome f).isNone = true

instance (s : State) : (e : Event) → Decidable (Orderly s e)
  | .settled _ => inferInstanceAs (Decidable True)
  | .login _ => inferInstanceAs (Decidable (_ ∧ ∀ f ∈ s.flows, _))
  | .logout | .ask _ | .refreshNow | .tick | .gatewayTick | .wait _ | .tokens _ _ | .balance _ _
  | .info _ _ => inferInstanceAs (Decidable (∀ f ∈ s.flows, _))

/-! ## Tokens in use -/

/-- How the refresh of an id ended. -/
def State.result (s : State) (id : Nat) : Option (Except Failure Unit) :=
  (s.refresh? id).bind Refresh.settled

/-- The refresh a stage waits for, with the state and the generation it has captured. -/
def Stage.waits : Stage → Option (Nat × StoredState × Nat)
  | .refreshNow id state generation _ | .tickRefresh id state generation =>
    some (id, state, generation)
  | _ => none

/-- The timer and the flows that may retry have captured the stored tokens; one refresh is under way
at most. -/
structure Kept (s : State) : Prop where
  timer : ∀ timer, s.refreshTimer = some timer → ∀ state, s.current = some state →
    timer.state.tokens = state.tokens
  generation : ∀ f ∈ s.flows, ∀ id state generation,
    f.stage.waits = some (id, state, generation) → generation ≤ s.authGeneration
  shared : ∀ f ∈ s.flows, ∀ id state, f.stage.waits = some (id, state, s.authGeneration) →
    s.result id = none → s.inFlightRefresh = some id
  captured : ∀ f ∈ s.flows, ∀ id state, f.stage.waits = some (id, state, s.authGeneration) →
    s.result id ≠ some (.ok ()) → ∀ stored, s.current = some stored → state.tokens = stored.tokens
  inFlight : ∀ id r, s.refresh? id = some r → r.settled = none →
    r.call.generation = s.authGeneration → s.inFlightRefresh = some id
  present : s.inFlightRefresh ≠ none → s.current ≠ none

section

variable {s t : State}

theorem core_fields (hcore : t.core = s.core) :
    t.flows = s.flows ∧ t.refreshes = s.refreshes ∧ t.authGeneration = s.authGeneration ∧
      t.inFlightRefresh = s.inFlightRefresh ∧ t.nextId = s.nextId := by
  simpa [core] using hcore

theorem result_of_core (hcore : t.core = s.core) (id : Nat) :
    t.refresh? id = s.refresh? id ∧ t.result id = s.result id := by
  have hrefreshes : t.refreshes = s.refreshes := (core_fields hcore).2.1
  have hrefresh : t.refresh? id = s.refresh? id := by
    rw [refresh?, refresh?, hrefreshes]
  exact ⟨hrefresh, by rw [result, result, hrefresh]⟩

theorem Kept.of_core (h : Kept s) (hcore : t.core = s.core)
    (htimer : ∀ timer, t.refreshTimer = some timer →
      ∃ timer', s.refreshTimer = some timer' ∧ timer'.state = timer.state)
    (hcurrent : ∀ state, t.current = some state →
      ∃ state', s.current = some state' ∧ state'.tokens = state.tokens)
    (hpresent : s.current ≠ none → t.current ≠ none) : Kept t := by
  obtain ⟨hflows, -, hgen, hin, -⟩ := core_fields hcore
  refine ⟨?_, ?_, ?_, ?_, ?_, fun hne => hpresent (h.present (hin ▸ hne))⟩
  · intro timer ht state hstate
    obtain ⟨timer', ht', heq⟩ := htimer timer ht
    obtain ⟨state', hstate', htokens⟩ := hcurrent state hstate
    rw [← heq, ← htokens]
    exact h.timer timer' ht' state' hstate'
  · rw [hflows, hgen]
    exact h.generation
  · intro f hf id state hwaits hnone
    rw [(result_of_core hcore id).2] at hnone
    rw [hin]
    exact h.shared f (hflows ▸ hf) id state (hgen ▸ hwaits) hnone
  · intro f hf id state hwaits hresult stored hstored
    rw [(result_of_core hcore id).2] at hresult
    obtain ⟨stored', hstored', htokens⟩ := hcurrent stored hstored
    rw [← htokens]
    exact h.captured f (hflows ▸ hf) id state (hgen ▸ hwaits) hresult stored' hstored'
  · intro id r hr hsettled hcall
    rw [(result_of_core hcore id).1] at hr
    rw [hin]
    exact h.inFlight id r hr hsettled (hgen ▸ hcall)

theorem Kept.same (h : Kept s) (hcore : t.core = s.core) (htimer : t.refreshTimer = s.refreshTimer)
    (hcurrent : t.current = s.current) : Kept t :=
  h.of_core hcore (fun timer ht => ⟨timer, htimer ▸ ht, rfl⟩)
    (fun state hstate => ⟨state, hcurrent ▸ hstate, rfl⟩) (hcurrent ▸ id)

theorem Kept.leave (h : Kept s) (id : Nat) : Kept (s.leave id) where
  timer := h.timer
  generation f hf := h.generation f (List.mem_of_mem_filter hf)
  shared f hf := h.shared f (List.mem_of_mem_filter hf)
  captured f hf := h.captured f (List.mem_of_mem_filter hf)
  inFlight := h.inFlight
  present := h.present

theorem Kept.await (h : Kept s) {stage : Stage} (hstage : stage.waits = none) :
    Kept (s.await stage) := by
  have hold : ∀ f ∈ (s.await stage).flows, ∀ w, f.stage.waits = some w → f ∈ s.flows := by
    intro f hf w hw
    rcases List.mem_cons.mp hf with rfl | hf
    · cases hstage.symm.trans hw
    · exact hf
  exact ⟨h.timer, fun f hf id state generation hw => h.generation f (hold f hf _ hw) _ _ _ hw,
    fun f hf id state hw => h.shared f (hold f hf _ hw) id state hw,
    fun f hf id state hw => h.captured f (hold f hf _ hw) id state hw, h.inFlight, h.present⟩

theorem Kept.awaitRefresh (h : Kept s) {stage : Stage} {id : Nat} {state : StoredState}
    (hstage : stage.waits = some (id, state, s.authGeneration)) (hin : s.inFlightRefresh = some id)
    (htokens : ∀ stored, s.current = some stored → state.tokens = stored.tokens) :
    Kept (s.await stage) := by
  refine ⟨h.timer, ?_, ?_, ?_, h.inFlight, h.present⟩
  · intro f hf id' state' generation hw
    rcases List.mem_cons.mp hf with rfl | hf
    · obtain ⟨-, -, rfl⟩ : id = id' ∧ state = state' ∧ s.authGeneration = generation := by
        simpa using hstage.symm.trans hw
      exact le_rfl
    · exact h.generation f hf _ _ _ hw
  · intro f hf id' state' hw hnone
    rcases List.mem_cons.mp hf with rfl | hf
    · obtain ⟨rfl, -⟩ : id = id' ∧ state = state' := by
        simpa [State.await] using hstage.symm.trans hw
      exact hin
    · exact h.shared f hf _ _ hw hnone
  · intro f hf id' state' hw hresult
    rcases List.mem_cons.mp hf with rfl | hf
    · obtain ⟨-, rfl⟩ : id = id' ∧ state = state' := by
        simpa [State.await] using hstage.symm.trans hw
      exact htokens
    · exact h.captured f hf _ _ hw hresult

/-! ## Refreshes -/

theorem refresh?_settle (r : Refresh) (outcome : Except Failure Unit) (id : Nat) :
    (s.settle r outcome).refresh? id = (s.refresh? id).map fun r' =>
      if r'.id = r.id then { r' with settled := some outcome } else r' := by
  have hid : ∀ r' : Refresh,
      (if r'.id = r.id then { r' with settled := some outcome } else r').id = r'.id := by
    intro r'
    split <;> rfl
  unfold settle refresh?
  rw [List.find?_map]
  congr 2
  funext r'
  exact congrArg (fun i => decide (i = id)) (hid r')

theorem result_settle_ne {r : Refresh} {outcome : Except Failure Unit} {id : Nat} (h : id ≠ r.id) :
    (s.settle r outcome).refresh? id = s.refresh? id := by
  rw [refresh?_settle]
  cases hr : s.refresh? id with
  | none => rfl
  | some r' =>
    have hid : r'.id = id := by simpa using List.find?_some hr
    rw [Option.map_some, if_neg (hid.symm ▸ h)]

theorem result_settle {r r' : Refresh} {outcome : Except Failure Unit}
    (hr : s.refresh? r.id = some r') : (s.settle r outcome).result r.id = some outcome := by
  have hid : r'.id = r.id := by simpa using List.find?_some hr
  rw [result, refresh?_settle, hr, Option.map_some, if_pos hid]
  rfl

theorem Kept.settle (h : Kept s) {r : Refresh} (hr : s.refresh? r.id = some r)
    (hsettled : r.settled = none) (outcome : Except Failure Unit) : Kept (s.settle r outcome) := by
  have hother : ∀ id, s.inFlightRefresh = some id → id ≠ r.id →
      (s.settle r outcome).inFlightRefresh = some id := by
    intro id hin hne
    have hgen : s.authGeneration ≠ r.call.generation := by
      intro hgen
      rw [h.inFlight r.id r hr hsettled hgen.symm] at hin
      exact hne (Option.some.inj hin).symm
    exact (if_neg hgen).trans hin
  have hpresent : (s.settle r outcome).inFlightRefresh ≠ none → s.current ≠ none := by
    intro hne
    refine h.present fun hnone => hne ?_
    rw [State.settle]
    dsimp only
    rw [hnone, ite_self]
  refine ⟨h.timer, h.generation, ?_, ?_, ?_, hpresent⟩
  · intro f hf id state hw hnone
    by_cases hid : id = r.id
    · rw [hid, result_settle hr] at hnone
      cases hnone
    · rw [result, result_settle_ne hid] at hnone
      exact hother id (h.shared f hf id state hw hnone) hid
  · intro f hf id state hw hresult stored hstored
    by_cases hid : id = r.id
    · subst hid
      have hunsettled : s.result r.id ≠ some (.ok ()) := by
        rw [result, hr, Option.bind_some, hsettled]
        exact (Option.some_ne_none _).symm
      exact h.captured f hf r.id state hw hunsettled stored hstored
    · rw [result, result_settle_ne hid] at hresult
      exact h.captured f hf id state hw hresult stored hstored
  · intro id r' hr' hnone hcall
    by_cases hid : id = r.id
    · rw [hid] at hr'
      have hresult : (s.settle r outcome).result r.id = some outcome := result_settle hr
      rw [result, hr', Option.bind_some, hnone] at hresult
      cases hresult
    · rw [result_settle_ne hid] at hr'
      exact hother id (h.inFlight id r' hr' hnone hcall) hid

theorem Kept.doRefresh (h : Kept s) (hinv : Inv s) (hcurrent : s.current ≠ none)
    (state : StoredState) : Kept (s.doRefresh state).1 ∧
      (s.doRefresh state).1.inFlightRefresh = some (s.doRefresh state).2 := by
  unfold State.doRefresh
  split
  · rename_i id hid
    exact ⟨h, hid⟩
  · rename_i hnone
    have hold : ∀ id, id ≠ s.nextId →
        refresh? { s with
          refreshes := ⟨s.nextId, state, ⟨s.session, s.authGeneration⟩, none⟩ :: s.refreshes
          inFlightRefresh := some s.nextId
          nextId := s.nextId + 1 } id = s.refresh? id := by
      intro id hne
      exact List.find?_cons_of_neg (by simpa using Ne.symm hne)
    have hnot : ∀ id, s.inFlightRefresh ≠ some id := by
      intro id
      rw [hnone]
      nofun
    refine ⟨⟨h.timer, h.generation, ?_, ?_, ?_, fun _ => hcurrent⟩, rfl⟩
    · intro f hf id state' hw hresult
      by_cases hid : id = s.nextId
      · rw [hid]
      · rw [result, hold id hid] at hresult
        exact absurd (h.shared f hf id state' hw hresult) (hnot id)
    · intro f hf id state' hw hresult stored hstored
      have hid : id ≠ s.nextId := by
        have hsound := (hinv.flow f hf).2
        unfold Stage.waits at hw
        split at hw
        · rename_i hstage
          rw [hstage] at hsound
          obtain ⟨rfl, -⟩ := Prod.mk.inj (Option.some.inj hw)
          exact hsound.1.ne
        · rename_i hstage
          rw [hstage] at hsound
          obtain ⟨rfl, -⟩ := Prod.mk.inj (Option.some.inj hw)
          exact hsound.1.ne
        · cases hw
      rw [result, hold id hid] at hresult
      exact h.captured f hf id state' hw hresult stored hstored
    · intro id r hr hsettled hcall
      by_cases hid : id = s.nextId
      · rw [hid]
      · rw [hold id hid] at hr
        exact absurd (h.inFlight id r hr hsettled hcall) (hnot id)

theorem Kept.logout (h : Kept s) (hinv : Inv s) : Kept s.logout := by
  refine ⟨?_, ?_, ?_, ?_, ?_, fun hne => absurd rfl hne⟩
  · nofun
  · intro f hf id state generation hw
    exact (h.generation f hf id state generation hw).trans (Nat.le_succ _)
  · intro f hf id state hw
    exact absurd (h.generation f hf id state _ hw) (Nat.not_succ_le_self _)
  · intro f hf id state hw
    exact absurd (h.generation f hf id state _ hw) (Nat.not_succ_le_self _)
  · intro id r hr _ hcall
    have hle := (hinv.refresh r (List.mem_of_find?_eq_some hr)).2
    rw [hcall] at hle
    exact absurd hle (Nat.not_succ_le_self _)

/-! ## Flows -/

theorem Kept.logoutSessionExpired (h : Kept s) (hinv : Inv s) (generation : Nat) :
    Kept (s.logoutSessionExpired generation) := by
  unfold State.logoutSessionExpired
  split
  · exact h
  · exact h.logout hinv

theorem Kept.handleRefreshFailure (h : Kept s) (hinv : Inv s) {code : ErrorCode}
    {state : StoredState} {generation : Nat}
    (htokens : generation = s.authGeneration → ∀ stored, s.current = some stored →
      state.tokens = stored.tokens) : Kept (s.handleRefreshFailure code state generation) := by
  have herror : Kept { s with refreshError := some code } := h.same rfl rfl rfl
  unfold State.handleRefreshFailure
  dsimp only
  split
  · exact h
  · rename_i hgen
    split
    · exact herror.logoutSessionExpired (hinv.of_core rfl) generation
    · refine ⟨?_, h.generation, h.shared, h.captured, h.inFlight, h.present⟩
      rintro timer ⟨⟩ stored hstored
      exact htokens (of_not_not hgen).symm stored hstored

theorem Kept.resume (h : Kept s) (caller : Caller) : Kept (s.resume caller) := by
  unfold State.resume
  split
  · exact h
  · split
    · exact h
    · split
      · exact h
      · exact h.await rfl

theorem Kept.syncAccountInfo (h : Kept s) (caller : Caller) : Kept (s.syncAccountInfo caller) := by
  unfold State.syncAccountInfo
  split
  · exact h.resume caller
  · exact h.await rfl

theorem Kept.notRefreshed (h : Kept s) (after : After) : Kept (s.notRefreshed after) := by
  unfold State.notRefreshed
  split
  · exact h
  · exact h.resume _

variable (state : StoredState)

theorem current_doRefresh :
    (s.doRefresh state).1.current = s.current := congrArg View.current (view_doRefresh s state)

theorem Kept.refreshNow (h : Kept s) (hinv : Inv s) (after : After) :
    Kept (s.refreshNow after) := by
  unfold State.refreshNow
  split
  · exact h.notRefreshed after
  · rename_i state hstate
    have hcurrent : s.current ≠ none := by rw [hstate]; nofun
    obtain ⟨hkept, hin⟩ := h.doRefresh hinv hcurrent state
    refine @Kept.awaitRefresh _ hkept _ _ state rfl hin ?_
    intro stored hstored
    rw [current_doRefresh, hstate] at hstored
    rw [Option.some.inj hstored]

theorem Kept.tickRefresh (h : Kept s) (hinv : Inv s) {state : StoredState}
    (htokens : ∀ stored, s.current = some stored → state.tokens = stored.tokens) :
    Kept (s.tickRefresh state) := by
  unfold State.tickRefresh
  split
  · exact h
  · rename_i hstate
    have hcurrent : s.current ≠ none := by rw [hstate]; nofun
    obtain ⟨hkept, hin⟩ := h.doRefresh hinv hcurrent state
    refine @Kept.awaitRefresh _ hkept _ _ state rfl hin ?_
    intro stored hstored
    rw [current_doRefresh] at hstored
    exact htokens stored hstored

theorem Kept.refreshed (h : Kept s) : Kept s.refreshed := h.same rfl rfl rfl

theorem Kept.afterRefreshNow (h : Kept s) (hinv : Inv s) {id : Nat} {state : StoredState}
    {generation : Nat} {after : After} {outcome : Except Failure Unit}
    (htokens : outcome ≠ .ok () → generation = s.authGeneration → ∀ stored,
      s.current = some stored → state.tokens = stored.tokens) :
    Kept (s.afterRefreshNow id state generation after outcome) := by
  unfold State.afterRefreshNow
  split
  · split
    · exact h.refreshed.syncAccountInfo _
    · split
      · exact h.refreshed.resume _
      · exact h.refreshed.await rfl
  · exact h.notRefreshed after
  · split
    · exact h.notRefreshed after
    · have hhandled : Kept { s with lastHandledRefreshFailure := some id } := h.same rfl rfl rfl
      exact (hhandled.handleRefreshFailure (hinv.of_core rfl) (htokens nofun)).notRefreshed after

theorem Kept.afterTickRefresh (h : Kept s) (hinv : Inv s) {id : Nat} {state : StoredState}
    {generation : Nat} {outcome : Except Failure Unit}
    (htokens : outcome ≠ .ok () → generation = s.authGeneration → ∀ stored,
      s.current = some stored → state.tokens = stored.tokens) :
    Kept (s.afterTickRefresh id state generation outcome) := by
  unfold State.afterTickRefresh
  split
  · exact h.refreshed.syncAccountInfo _
  · split
    · exact h
    · have hhandled : Kept { s with lastHandledRefreshFailure := some id } := h.same rfl rfl rfl
      exact hhandled.handleRefreshFailure (hinv.of_core rfl) (htokens nofun)

theorem Kept.showBalance (h : Kept s) (q : Query) (balance : Nat) :
    Kept (s.showBalance q balance) := by
  unfold State.showBalance
  split
  · split
    · exact h
    · exact h.same rfl rfl rfl
  · exact h.same rfl rfl rfl

theorem Kept.afterQuery (h : Kept s) (hinv : Inv s) (q : Query) (generation : Nat)
    (accountSub : Text) (reply : Except Failure Nat) :
    Kept (s.afterQuery q generation accountSub reply) := by
  unfold State.afterQuery
  split
  · exact h.showBalance q _
  · split
    · exact h.refreshNow hinv _
    · exact h

theorem Kept.afterQueryAgain (h : Kept s) (hinv : Inv s) (q : Query) (generation : Nat)
    (reply : Except Failure Nat) : Kept (s.afterQueryAgain q generation reply) := by
  unfold State.afterQueryAgain
  split
  · exact h.showBalance q _
  · split
    · exact h.logoutSessionExpired hinv generation
    · exact h

theorem Kept.gatewayRetry (h : Kept s) : Kept s.scheduleGatewayInfoRetry := by
  refine h.same (core_scheduleGatewayInfoRetry s) ?_ ?_
  · unfold scheduleGatewayInfoRetry
    split <;> rfl
  · unfold scheduleGatewayInfoRetry
    split <;> rfl

theorem Kept.saveInfo (h : Kept s) (generation : Nat) (accountSub : Text) (info : UserInfo) :
    Kept (s.saveInfo generation accountSub info) := by
  unfold State.saveInfo
  split
  · exact h
  · rename_i current hcurrent
    split
    · have hsaved : Kept (({ s with current := some (current.withInfo info) }).syncTokenFile
          (current.withInfo info)) := by
        refine h.of_core rfl (fun timer htimer => ⟨timer, htimer, rfl⟩) ?_ fun _ => nofun
        rintro state ⟨⟩
        exact ⟨current, hcurrent, rfl⟩
      dsimp only
      split
      · exact hsaved.same rfl rfl rfl
      · exact hsaved.gatewayRetry
    · exact h

theorem Kept.afterUserInfo (h : Kept s) (hinv : Inv s) (generation : Nat) (accountSub : Text)
    (caller : Caller) (reply : Except Failure UserInfo) :
    Kept (s.afterUserInfo generation accountSub caller reply) := by
  unfold State.afterUserInfo
  split
  · exact (h.saveInfo generation accountSub _).resume caller
  · split
    · exact h.refreshNow hinv _
    · exact h.gatewayRetry.resume caller

theorem Kept.afterUserInfoAgain (h : Kept s) (generation : Nat) (accountSub : Text)
    (caller : Caller) (reply : Except Failure UserInfo) :
    Kept (s.afterUserInfoAgain generation accountSub caller reply) := by
  unfold State.afterUserInfoAgain
  split
  · exact (h.saveInfo generation accountSub _).resume caller
  · exact h.gatewayRetry.resume caller

theorem Kept.ask (h : Kept s) (q : Query) : Kept (s.ask q) := by
  unfold State.ask
  split
  · exact h
  · exact h.await rfl

theorem scheduleRefresh_timer {timer : Timer}
    (h : (s.scheduleRefresh state).refreshTimer = some timer) : timer.state = state := by
  unfold scheduleRefresh at h
  dsimp only at h
  split at h <;> (cases h; rfl)

theorem scheduleRefresh_current :
    (s.scheduleRefresh state).current = s.current := by
  unfold scheduleRefresh
  dsimp only
  split <;> rfl

theorem Kept.fire (h : Kept s) (hinv : Inv s) {timer : Timer}
    (htimer : s.refreshTimer = some timer) : Kept (s.fire timer) := by
  have hfired : Kept { s with refreshTimer := none } := by
    refine h.of_core rfl ?_ (fun state hstate => ⟨state, hstate, rfl⟩) id
    rintro timer' ⟨⟩
  have hinv' : Inv { s with refreshTimer := none } := hinv.of_core rfl
  have htokens := h.timer timer htimer
  unfold State.fire
  dsimp only
  split
  · split
    · refine h.of_core (core_scheduleRefresh _ _) ?_ ?_ ?_
      · intro timer' ht
        exact ⟨timer, htimer, (scheduleRefresh_timer timer.state ht).symm⟩
      · intro state hstate
        rw [scheduleRefresh_current] at hstate
        exact ⟨state, hstate, rfl⟩
      · rw [scheduleRefresh_current]
        exact id
    · exact hfired.tickRefresh hinv' htokens
  · exact hfired.tickRefresh hinv' htokens

/-! ## A new login, and new tokens -/

/-- Nothing waits for a refresh that has ended. -/
def State.Settled (s : State) : Prop := ∀ f ∈ s.flows, (s.outcome f).isNone = true

theorem State.Settled.result (h : s.Settled) {f : Flow} (hf : f ∈ s.flows) {id : Nat}
    {state : StoredState} {generation : Nat} (hw : f.stage.waits = some (id, state, generation)) :
    s.result id = none := by
  have hnone := Option.isNone_iff_eq_none.mp (h f hf)
  have hrefresh : f.stage.refresh = some id := by
    generalize f.stage = stage at hw ⊢
    cases stage with
    | refreshNow | tickRefresh => exact congrArg some (Prod.mk.inj (Option.some.inj hw)).1
    | _ => cases hw
  rw [outcome, hrefresh] at hnone
  exact hnone

theorem persistLogin_timer {timer : Timer}
    (h : (s.persistLogin state).refreshTimer = some timer) : timer.state = state := by
  unfold persistLogin at h
  dsimp only at h
  split at h
  · exact scheduleRefresh_timer state h
  · unfold scheduleGatewayInfoRetry at h
    split at h
    · exact scheduleRefresh_timer state h
    · exact scheduleRefresh_timer state h

theorem persistLogin_current :
    (s.persistLogin state).current = some state := by
  unfold persistLogin
  dsimp only
  split
  · exact scheduleRefresh_current state
  · unfold scheduleGatewayInfoRetry
    split
    · exact scheduleRefresh_current state
    · exact scheduleRefresh_current state

theorem Kept.persistLogin (h : Kept s) (hin : s.inFlightRefresh = none) (hsettled : s.Settled)
    (state : StoredState) : Kept (s.persistLogin state) := by
  have hcore := core_persistLogin s state
  obtain ⟨hflows, -, hgen, hin', -⟩ := core_fields hcore
  have hnobody : ∀ f ∈ (s.persistLogin state).flows, ∀ id captured,
      f.stage.waits ≠ some (id, captured, (s.persistLogin state).authGeneration) := by
    intro f hf id captured hw
    rw [hflows] at hf
    rw [hgen] at hw
    have hshared := h.shared f hf id captured hw (hsettled.result hf hw)
    rw [hin] at hshared
    cases hshared
  have hpresent : (s.persistLogin state).current ≠ none := by
    rw [persistLogin_current]
    nofun
  refine ⟨?_, ?_, ?_, ?_, ?_, fun _ => hpresent⟩
  · intro timer htimer stored hstored
    rw [persistLogin_current] at hstored
    rw [persistLogin_timer state htimer, Option.some.inj hstored]
  · rw [hflows, hgen]
    exact h.generation
  · exact fun f hf id captured hw => absurd hw (hnobody f hf id captured)
  · exact fun f hf id captured hw => absurd hw (hnobody f hf id captured)
  · intro id r hr hnone hcall
    rw [(result_of_core hcore id).1] at hr
    rw [hin']
    exact h.inFlight id r hr hnone (hgen ▸ hcall)

theorem refresh?_id {id : Nat} {r : Refresh} (h : s.refresh? id = some r) : r.id = id := by
  simpa using List.find?_some h

theorem Kept.renewed (h : Kept s) (hsettled : s.Settled) {r : Refresh} {next : StoredState}
    (hr : s.refresh? r.id = some r) (hnone : r.settled = none)
    (hgen : s.authGeneration = r.call.generation) (hcore : t.core = s.core)
    (hcurrent : t.current = some next)
    (htimer : ∀ timer, t.refreshTimer = some timer → timer.state = next) :
    Kept (t.settle r (.ok ())) := by
  have hkept : Kept (s.settle r (.ok ())) := h.settle hr hnone _
  have hsettle : (t.settle r (.ok ())).core = (s.settle r (.ok ())).core := by
    simp only [core, Prod.mk.injEq] at hcore
    simp only [core, State.settle, hcore]
  obtain ⟨hflows, -, hgen', hin, -⟩ := core_fields hsettle
  have hresult : ∀ f ∈ (t.settle r (.ok ())).flows, ∀ id captured,
      f.stage.waits = some (id, captured, (t.settle r (.ok ())).authGeneration) →
      (t.settle r (.ok ())).result id = some (.ok ()) := by
    intro f hf id captured hw
    rw [hflows] at hf
    rw [hgen'] at hw
    have hshared := h.shared f hf id captured hw (hsettled.result hf hw)
    rw [h.inFlight r.id r hr hnone hgen.symm] at hshared
    rw [(result_of_core hsettle id).2, ← Option.some.inj hshared]
    exact result_settle hr
  have hpresent : (t.settle r (.ok ())).current ≠ none := by
    intro hcleared
    cases hcurrent.symm.trans hcleared
  refine ⟨?_, ?_, ?_, ?_, ?_, fun _ => hpresent⟩
  · intro timer ht state hstate
    rw [htimer timer ht, Option.some.inj (hcurrent.symm.trans hstate)]
  · rw [hflows, hgen']
    exact h.generation
  · intro f hf id captured hw hunsettled
    rw [hresult f hf id captured hw] at hunsettled
    cases hunsettled
  · exact fun f hf id captured hw hne => absurd (hresult f hf id captured hw) hne
  · intro id r' hr' hsettled' hcall
    rw [(result_of_core hsettle id).1] at hr'
    rw [hin]
    exact hkept.inFlight id r' hr' hsettled' (hgen' ▸ hcall)

theorem Kept.runRefresh (h : Kept s) (hsettled : s.Settled) {id : Nat} {r : Refresh}
    (hr : s.refresh? id = some r) (hnone : r.settled = none) (reply : Except Failure Tokens) :
    Kept (s.runRefresh r reply) := by
  have hown : s.refresh? r.id = some r := by rw [refresh?_id hr, hr]
  unfold State.runRefresh
  split
  · exact h.settle hown hnone _
  · rename_i tokens
    split
    · exact h.settle hown hnone _
    · rename_i hgen
      refine h.renewed hsettled hown hnone (of_not_not hgen) (core_scheduleRefresh _ _)
        (scheduleRefresh_current _) ?_
      exact fun timer ht => scheduleRefresh_timer { r.state with tokens := tokens } ht

/-! ## Runs -/

theorem Kept.step {e : Event} (h : Kept s) (hinv : Inv s) (horderly : Orderly s e)
    (hstep : step s e = some t) : Kept t := by
  cases e with
  | login state =>
    cases hstep
    exact (h.persistLogin horderly.1 horderly.2 state).ask .pointsBalance
  | logout =>
    cases hstep
    exact h.logout hinv
  | ask q =>
    cases hstep
    exact h.ask q
  | refreshNow =>
    cases hstep
    exact h.refreshNow hinv _
  | tick =>
    obtain ⟨timer, htimer, rfl⟩ := Option.map_eq_some_iff.mp hstep
    exact h.fire hinv htimer
  | gatewayTick =>
    obtain ⟨-, rfl⟩ := Steps.of_guard hstep
    have hticked : Kept { s with gatewayInfoTimer := false } := h.same rfl rfl rfl
    exact hticked.syncAccountInfo .nobody
  | wait ms =>
    cases hstep
    exact h.same rfl rfl rfl
  | tokens id reply =>
    obtain ⟨r, hr, hstep⟩ := Option.bind_eq_some_iff.mp hstep
    split at hstep
    · cases hstep
    · rename_i hnone
      cases hstep
      exact h.runRefresh horderly hr hnone reply
  | balance id reply =>
    obtain ⟨f, -, hstep⟩ := Option.bind_eq_some_iff.mp hstep
    split at hstep
    · cases hstep
      exact (h.leave id).afterQuery (hinv.leave id) _ _ _ reply
    · cases hstep
      exact (h.leave id).afterQueryAgain (hinv.leave id) _ _ reply
    · cases hstep
  | info id reply =>
    obtain ⟨f, -, hstep⟩ := Option.bind_eq_some_iff.mp hstep
    split at hstep
    · cases hstep
      exact (h.leave id).afterUserInfo (hinv.leave id) _ _ _ reply
    · cases hstep
      exact (h.leave id).afterUserInfoAgain _ _ _ reply
    · cases hstep
  | settled id =>
    obtain ⟨f, hf, hstep⟩ := Option.bind_eq_some_iff.mp hstep
    obtain ⟨outcome, houtcome, hstep⟩ := Option.bind_eq_some_iff.mp hstep
    have htokens : ∀ rid state generation, f.stage.waits = some (rid, state, generation) →
        f.stage.refresh = some rid → outcome ≠ .ok () → generation = s.authGeneration →
        ∀ stored, s.current = some stored → state.tokens = stored.tokens := by
      rintro rid state generation hw hrefresh hne rfl
      refine h.captured f (flow?_mem hf) rid state hw ?_
      rw [State.outcome, hrefresh] at houtcome
      rw [result]
      intro hok
      exact hne (Option.some.inj (houtcome.symm.trans hok))
    unfold afterRefresh at hstep
    split at hstep
    · rename_i hstage
      cases hstep
      exact (h.leave id).afterRefreshNow (hinv.leave id)
        (htokens _ _ _ (by rw [hstage]; rfl) (by rw [hstage]; rfl))
    · rename_i hstage
      cases hstep
      exact (h.leave id).afterTickRefresh (hinv.leave id)
        (htokens _ _ _ (by rw [hstage]; rfl) (by rw [hstage]; rfl))
    · cases hstep

theorem Kept.of_empty (hflows : s.flows = []) (hrefreshes : s.refreshes = [])
    (hin : s.inFlightRefresh = none)
    (htimer : ∀ timer, s.refreshTimer = some timer → s.current = some timer.state) : Kept s := by
  have hnot : ∀ f, f ∉ s.flows := by
    intro f
    rw [hflows]
    exact List.not_mem_nil
  refine ⟨?_, ?_, ?_, ?_, ?_, fun hne => absurd hin hne⟩
  · intro timer ht state hstate
    rw [Option.some.inj ((htimer timer ht).symm.trans hstate)]
  · exact fun f hf => absurd hf (hnot f)
  · exact fun f hf => absurd hf (hnot f)
  · exact fun f hf => absurd hf (hnot f)
  · intro id r hr
    rw [refresh?, hrefreshes] at hr
    cases hr

theorem start_kept (now : Int) (stored : Option StoredState) : Kept (start now stored) := by
  unfold start
  dsimp only
  split
  · exact Kept.of_empty rfl rfl rfl nofun
  · rename_i state
    refine Kept.syncAccountInfo (Kept.of_empty ?_ ?_ ?_ ?_) .nobody
    · exact (core_fields (core_scheduleRefresh _ state)).1
    · exact (core_fields (core_scheduleRefresh _ state)).2.1
    · exact (core_fields (core_scheduleRefresh _ state)).2.2.2.1
    · intro timer htimer
      rw [scheduleRefresh_timer state htimer]
      exact scheduleRefresh_current state

end

end MiqroForge.Qraft
