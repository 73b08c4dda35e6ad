import MiqroForge.Qraft.Service

/-!
The calls of a finished login: what they may change in a later one, and when they change nothing.
-/

namespace MiqroForge.Qraft

open PyText State

/-! ## What a login shows -/

/-- The login state, the credential file, the balance, the refresh error and the schedules. -/
structure View where
  current : Option StoredState
  tokenFile : Option TokenFile
  pointsBalance : Option Nat
  refreshError : Option ErrorCode
  refreshRetryAttempt : Nat
  refreshTimer : Option Timer
  refreshScheduledAt : Option Int
  gatewayInfo : Bool × Nat
  deriving DecidableEq

def State.view (s : State) : View where
  current := s.current
  tokenFile := s.tokenFile
  pointsBalance := s.pointsBalance
  refreshError := s.refreshError
  refreshRetryAttempt := s.refreshRetryAttempt
  refreshTimer := s.refreshTimer
  refreshScheduledAt := s.refreshScheduledAt
  gatewayInfo := (s.gatewayInfoTimer, s.gatewayInfoAttempt)

/-- The platform call whose outcome an event brings. -/
def State.callOf (s : State) : Event → Option Call
  | .tokens id _ => (s.refresh? id).map Refresh.call
  | .balance id _ | .info id _ => (s.flow? id).map Flow.call
  | .settled id => ((s.flow? id).bind fun f => f.stage.refresh.bind s.refresh?).map Refresh.call
  | _ => none

/-- The outcome of a call of another login session changes nothing. While nobody is logged in, the
retries for the gateway are nobody's. -/
def Untouched (s : State) (e : Event) : Prop :=
  ∀ t, step s e = some t → ∀ c ∈ s.callOf e, c.session ≠ s.session →
    { t.view with gatewayInfo := s.view.gatewayInfo } = s.view ∧
      (s.current ≠ none → t.view = s.view)

/-! ## The condition -/

namespace State

variable (s : State)

/-- A logout since a call was started. -/
def left (c : Call) : Bool := decide (c.generation ≠ s.authGeneration)

/-- No retry for the gateway is left to schedule. -/
def noGatewayRetry : Bool :=
  s.current.isNone || s.gatewayInfoTimer || decide (gatewayInfoRetryLimit ≤ s.gatewayInfoAttempt)

/-- A balance that is not shown, or is shown already. -/
def dropsBalance (q : Query) (balance : Nat) : Bool :=
  (decide (q = .pointsBalance) && s.current.isNone) || decide (s.pointsBalance = some balance)

def dropsTokens (c : Call) : Except Failure Tokens → Bool
  | .ok _ => s.left c
  | .error _ => true

def dropsQuery (c : Call) : Stage → Except Failure Nat → Bool
  | .query q _ _, .ok balance => s.dropsBalance q balance
  | .queryAgain q _, .ok balance => s.dropsBalance q balance
  | .queryAgain _ _, .error e => decide (e ≠ .qraft .sessionExpired) || s.left c
  | _, _ => true

def dropsInfo (c : Call) : Stage → Except Failure UserInfo → Bool
  | .userInfo generation accountSub _, .ok info =>
    s.left c || s.current.all fun current => !s.keepsInfo generation accountSub info current
  | .userInfoAgain generation accountSub _, .ok info =>
    s.left c || s.current.all fun current => !s.keepsInfo generation accountSub info current
  | .userInfo _ _ _, .error e => decide (e = .qraft .sessionExpired) || s.noGatewayRetry
  | .userInfoAgain _ _ _, .error _ => s.noGatewayRetry
  | _, _ => true

def dropsRefresh (c : Call) (stage : Stage) : Except Failure Unit → Bool
  | .ok () => decide (s.refreshRetryAttempt = 0) && decide (s.refreshError = none)
  | .error _ => s.left c || decide (s.lastHandledRefreshFailure = stage.refresh)

/-- Whether the service drops the outcome of a call of an earlier login. -/
def drops (c : Call) : Event → Bool
  | .tokens _ reply => s.dropsTokens c reply
  | .balance id reply => (s.flow? id).all fun f => s.dropsQuery c f.stage reply
  | .info id reply => (s.flow? id).all fun f => s.dropsInfo c f.stage reply
  | .settled id => (s.flow? id).all fun f => (s.outcome f).all fun r => s.dropsRefresh c f.stage r
  | _ => true

end State

open State

/-- A step without a defect: what the service does not drop is of the current login. -/
def Good (s : State) (e : Event) : Prop :=
  ∀ c ∈ s.callOf e, c.session ≠ s.session → s.drops c e = true

instance (s : State) (e : Event) : Decidable (Good s e) :=
  inferInstanceAs (Decidable (∀ c ∈ s.callOf e, c.session ≠ s.session → s.drops c e = true))

/-! ## What does not show -/

section

variable (s : State)

@[simp] theorem view_await (stage : Stage) : (s.await stage).view = s.view := rfl

@[simp] theorem view_leave (id : Nat) : (s.leave id).view = s.view := rfl

@[simp] theorem view_settle (r : Refresh) (result : Except Failure Unit) :
    (s.settle r result).view = s.view := rfl

@[simp] theorem view_doRefresh (state : StoredState) : (s.doRefresh state).1.view = s.view := by
  unfold doRefresh
  split <;> rfl

@[simp] theorem view_resume (caller : Caller) : (s.resume caller).view = s.view := by
  unfold resume
  split
  · rfl
  · split
    · rfl
    · split <;> rfl

@[simp] theorem view_syncAccountInfo (caller : Caller) :
    (s.syncAccountInfo caller).view = s.view := by
  unfold syncAccountInfo
  split
  · exact view_resume s caller
  · rfl

@[simp] theorem view_notRefreshed (after : After) : (s.notRefreshed after).view = s.view := by
  unfold notRefreshed
  split
  · rfl
  · exact view_resume s _

@[simp] theorem view_refreshNow (after : After) : (s.refreshNow after).view = s.view := by
  unfold refreshNow
  split
  · exact view_notRefreshed s after
  · exact view_doRefresh s _

theorem view_scheduleGatewayInfoRetry :
    { s.scheduleGatewayInfoRetry.view with gatewayInfo := s.view.gatewayInfo } = s.view := by
  unfold scheduleGatewayInfoRetry
  split <;> rfl

end

/-! ## Generations -/

/-- The generations a stage has captured, against the call it waits for. -/
def Stage.Sound (s : State) (c : Call) : Stage → Prop
  | .query .. => True
  | .queryAgain _ generation => generation = c.generation
  | .userInfo generation .. => generation ≤ c.generation
  | .userInfoAgain generation .. => generation ≤ c.generation
  | .refreshNow id _ generation after =>
    id < s.nextId ∧ (∀ r ∈ s.refreshes, r.id = id → r.call.generation = generation) ∧
      ∀ g accountSub caller, after = .fetchUserInfo g accountSub caller → g ≤ s.authGeneration
  | .tickRefresh id _ generation =>
    id < s.nextId ∧ ∀ r ∈ s.refreshes, r.id = id → r.call.generation = generation

/-- No generation is ahead of the counter, and a refresh is shared in its own generation only. -/
structure Inv (s : State) : Prop where
  refresh : ∀ r ∈ s.refreshes, r.id < s.nextId ∧ r.call.generation ≤ s.authGeneration
  inFlight : ∀ id, s.inFlightRefresh = some id → id < s.nextId ∧
    ∀ r ∈ s.refreshes, r.id = id → r.call.generation = s.authGeneration
  flow : ∀ f ∈ s.flows, f.call.generation ≤ s.authGeneration ∧ f.stage.Sound s f.call

theorem Stage.Sound.mono {s t : State} {c : Call} {stage : Stage} (h : stage.Sound s c)
    (hnext : s.nextId ≤ t.nextId) (hgen : s.authGeneration ≤ t.authGeneration)
    (hold : ∀ r ∈ t.refreshes, r.id < s.nextId →
      ∃ r' ∈ s.refreshes, r'.id = r.id ∧ r'.call = r.call) :
    stage.Sound t c := by
  have hsame : ∀ {id generation : Nat}, id < s.nextId →
      (∀ r ∈ s.refreshes, r.id = id → r.call.generation = generation) →
      ∀ r ∈ t.refreshes, r.id = id → r.call.generation = generation := by
    rintro id generation hid hs r hr rfl
    obtain ⟨r', hr', hid', hcall⟩ := hold r hr hid
    rw [← hcall]
    exact hs r' hr' hid'
  cases stage with
  | query | queryAgain | userInfo | userInfoAgain => exact h
  | refreshNow id state generation after =>
    exact ⟨h.1.trans_le hnext, hsame h.1 h.2.1, fun g accountSub caller hafter =>
      (h.2.2 g accountSub caller hafter).trans hgen⟩
  | tickRefresh id state generation => exact ⟨h.1.trans_le hnext, hsame h.1 h.2⟩

/-- What `Inv` is about. -/
def State.core (s : State) : List Flow × List Refresh × Nat × Option Nat × Nat :=
  (s.flows, s.refreshes, s.authGeneration, s.inFlightRefresh, s.nextId)

theorem Inv.of_core {s t : State} (h : Inv s) (hcore : t.core = s.core) : Inv t := by
  obtain ⟨hflows, hrefreshes, hgen, hin, hnext⟩ :
      t.flows = s.flows ∧ t.refreshes = s.refreshes ∧ t.authGeneration = s.authGeneration ∧
        t.inFlightRefresh = s.inFlightRefresh ∧ t.nextId = s.nextId := by
    simpa [core] using hcore
  refine ⟨?_, ?_, fun f hf => ?_⟩
  · rw [hrefreshes, hgen, hnext]
    exact h.refresh
  · rw [hrefreshes, hgen, hnext, hin]
    exact h.inFlight
  · obtain ⟨hle, hsound⟩ := h.flow f (hflows ▸ hf)
    exact ⟨hgen ▸ hle, hsound.mono hnext.ge hgen.ge fun r hr _ => ⟨r, hrefreshes ▸ hr, rfl, rfl⟩⟩

section

variable {s : State}

theorem Inv.await (h : Inv s) {stage : Stage}
    (hstage : stage.Sound s ⟨s.session, s.authGeneration⟩) : Inv (s.await stage) where
  refresh r hr := ⟨(h.refresh r hr).1.trans (Nat.lt_succ_self _), (h.refresh r hr).2⟩
  inFlight id hid := ⟨(h.inFlight id hid).1.trans (Nat.lt_succ_self _), (h.inFlight id hid).2⟩
  flow f hf := by
    have hgrow : ∀ {c : Call} {stage' : Stage}, stage'.Sound s c → stage'.Sound (s.await stage) c :=
      fun hsound => hsound.mono (Nat.le_succ _) le_rfl fun r hr _ => ⟨r, hr, rfl, rfl⟩
    rcases List.mem_cons.mp hf with rfl | hf
    · exact ⟨le_rfl, hgrow hstage⟩
    · exact ⟨(h.flow f hf).1, hgrow (h.flow f hf).2⟩

theorem Inv.leave (h : Inv s) (id : Nat) : Inv (s.leave id) where
  refresh := h.refresh
  inFlight := h.inFlight
  flow f hf := by
    obtain ⟨hle, hsound⟩ := h.flow f (List.mem_of_mem_filter hf)
    exact ⟨hle, hsound.mono le_rfl le_rfl fun r hr _ => ⟨r, hr, rfl, rfl⟩⟩

theorem Inv.doRefresh (h : Inv s) (state : StoredState) :
    Inv (s.doRefresh state).1 ∧ (s.doRefresh state).2 < (s.doRefresh state).1.nextId ∧
      ∀ r ∈ (s.doRefresh state).1.refreshes, r.id = (s.doRefresh state).2 →
        r.call.generation = (s.doRefresh state).1.authGeneration := by
  unfold State.doRefresh
  split
  · rename_i id hid
    exact ⟨h, h.inFlight id hid⟩
  · have hnew : ∀ r ∈
        (⟨s.nextId, state, ⟨s.session, s.authGeneration⟩, none⟩ : Refresh) :: s.refreshes,
        r.id = s.nextId → r.call.generation = s.authGeneration := by
      intro r hr hid
      rcases List.mem_cons.mp hr with rfl | hr
      · rfl
      · exact absurd hid (h.refresh r hr).1.ne
    refine ⟨⟨fun r hr => ?_, fun id hid => ?_, fun f hf => ?_⟩, Nat.lt_succ_self _, hnew⟩
    · rcases List.mem_cons.mp hr with rfl | hr
      · exact ⟨Nat.lt_succ_self _, le_rfl⟩
      · exact ⟨(h.refresh r hr).1.trans (Nat.lt_succ_self _), (h.refresh r hr).2⟩
    · cases hid
      exact ⟨Nat.lt_succ_self _, hnew⟩
    · refine ⟨(h.flow f hf).1, (h.flow f hf).2.mono (Nat.le_succ _) le_rfl fun r hr hlt => ?_⟩
      rcases List.mem_cons.mp hr with rfl | hr
      · exact absurd hlt (lt_irrefl _)
      · exact ⟨r, hr, rfl, rfl⟩

theorem Inv.settle (h : Inv s) (r : Refresh) (result : Except Failure Unit) :
    Inv (s.settle r result) := by
  have hold : ∀ r' ∈ (s.settle r result).refreshes,
      ∃ r₀ ∈ s.refreshes, r₀.id = r'.id ∧ r₀.call = r'.call := by
    refine List.forall_mem_map.mpr fun r₀ hr₀ => ⟨r₀, hr₀, ?_⟩
    split <;> exact ⟨rfl, rfl⟩
  refine ⟨fun r' hr' => ?_, fun id hid => ?_, fun f hf => ?_⟩
  · obtain ⟨r₀, hr₀, hid, hcall⟩ := hold r' hr'
    rw [← hid, ← hcall]
    exact h.refresh r₀ hr₀
  · have hin : s.inFlightRefresh = some id := by
      simp only [State.settle] at hid
      split at hid
      · cases hid
      · exact hid
    refine ⟨(h.inFlight id hin).1, fun r' hr' hid' => ?_⟩
    obtain ⟨r₀, hr₀, hid₀, hcall⟩ := hold r' hr'
    rw [← hcall]
    exact (h.inFlight id hin).2 r₀ hr₀ (hid₀.trans hid')
  · exact ⟨(h.flow f hf).1, (h.flow f hf).2.mono le_rfl le_rfl fun r' hr' _ => hold r' hr'⟩

theorem Inv.logout (h : Inv s) : Inv s.logout where
  refresh r hr := ⟨(h.refresh r hr).1, (h.refresh r hr).2.trans (Nat.le_succ _)⟩
  inFlight id hid := by cases hid
  flow f hf := ⟨(h.flow f hf).1.trans (Nat.le_succ _),
    (h.flow f hf).2.mono le_rfl (Nat.le_succ _) fun r hr _ => ⟨r, hr, rfl, rfl⟩⟩

/-! ## Operations that keep the generations -/

theorem core_scheduleRefresh (s : State) (state : StoredState) :
    (s.scheduleRefresh state).core = s.core := by
  unfold scheduleRefresh
  dsimp only
  split <;> rfl

theorem core_scheduleGatewayInfoRetry (s : State) : s.scheduleGatewayInfoRetry.core = s.core := by
  unfold scheduleGatewayInfoRetry
  split <;> rfl

theorem core_persistLogin (s : State) (state : StoredState) :
    (s.persistLogin state).core = s.core := by
  have hlogin := core_scheduleRefresh
    { s with session := s.session + 1, current := some state, refreshError := none,
             refreshRetryAttempt := 0 } state
  unfold persistLogin
  dsimp only
  split
  · exact hlogin
  · exact (core_scheduleGatewayInfoRetry _).trans hlogin

theorem core_saveInfo (s : State) (generation : Nat) (accountSub : Text) (info : UserInfo) :
    (s.saveInfo generation accountSub info).core = s.core := by
  unfold saveInfo
  split
  · rfl
  · split
    · dsimp only
      split
      · rfl
      · exact core_scheduleGatewayInfoRetry _
    · rfl

theorem core_showBalance (s : State) (q : Query) (balance : Nat) :
    (s.showBalance q balance).core = s.core := by
  unfold showBalance
  split
  · split <;> rfl
  · rfl

/-! ## Flows -/

theorem Inv.logoutSessionExpired (h : Inv s) (generation : Nat) :
    Inv (s.logoutSessionExpired generation) := by
  unfold State.logoutSessionExpired
  split
  · exact h
  · exact h.logout

theorem Inv.handleRefreshFailure (h : Inv s) (code : ErrorCode) (state : StoredState)
    (generation : Nat) : Inv (s.handleRefreshFailure code state generation) := by
  have herror : Inv { s with refreshError := some code } := h.of_core rfl
  unfold State.handleRefreshFailure
  dsimp only
  split
  · exact h
  · split
    · exact herror.logoutSessionExpired generation
    · exact herror.of_core rfl

theorem Inv.runRefresh (h : Inv s) (r : Refresh) (reply : Except Failure Tokens) :
    Inv (s.runRefresh r reply) := by
  unfold State.runRefresh
  split
  · exact h.settle r _
  · split
    · exact h.settle r _
    · refine Inv.settle (h.of_core ?_) r _
      exact core_scheduleRefresh _ _

theorem Inv.resume (h : Inv s) (caller : Caller) : Inv (s.resume caller) := by
  unfold State.resume
  split
  · exact h
  · split
    · exact h
    · split
      · exact h
      · rename_i hsame
        push Not at hsame
        exact h.await hsame.1.symm

theorem Inv.syncAccountInfo (h : Inv s) (caller : Caller) : Inv (s.syncAccountInfo caller) := by
  unfold State.syncAccountInfo
  split
  · exact h.resume caller
  · exact h.await le_rfl

theorem Inv.notRefreshed (h : Inv s) (after : After) : Inv (s.notRefreshed after) := by
  unfold State.notRefreshed
  split
  · exact h
  · exact h.resume _

theorem Inv.refreshNow (h : Inv s) (after : After)
    (hafter : ∀ g accountSub caller, after = .fetchUserInfo g accountSub caller →
      g ≤ s.authGeneration) : Inv (s.refreshNow after) := by
  unfold State.refreshNow
  split
  · exact h.notRefreshed after
  · rename_i state _
    obtain ⟨hinv, hid, hgen⟩ := h.doRefresh state
    have hcounter : (s.doRefresh state).1.authGeneration = s.authGeneration := by
      unfold State.doRefresh
      split <;> rfl
    exact hinv.await ⟨hid, hgen, hcounter ▸ hafter⟩

theorem Inv.tickRefresh (h : Inv s) (state : StoredState) : Inv (s.tickRefresh state) := by
  unfold State.tickRefresh
  split
  · exact h
  · obtain ⟨hinv, hid, hgen⟩ := h.doRefresh state
    exact hinv.await ⟨hid, hgen⟩

theorem Inv.afterRefreshNow (h : Inv s) (id : Nat) (state : StoredState) (generation : Nat)
    (after : After) (result : Except Failure Unit)
    (hafter : ∀ g accountSub caller, after = .fetchUserInfo g accountSub caller →
      g ≤ s.authGeneration) : Inv (s.afterRefreshNow id state generation after result) := by
  have hrefreshed : Inv s.refreshed := h.of_core rfl
  unfold State.afterRefreshNow
  split
  · split
    · exact hrefreshed.syncAccountInfo _
    · split
      · exact hrefreshed.resume _
      · exact hrefreshed.await (hafter _ _ _ rfl)
  · exact h.notRefreshed after
  · split
    · exact h.notRefreshed after
    · refine Inv.notRefreshed (Inv.handleRefreshFailure (h.of_core ?_) _ _ _) after
      rfl

theorem Inv.afterTickRefresh (h : Inv s) (id : Nat) (state : StoredState) (generation : Nat)
    (result : Except Failure Unit) : Inv (s.afterTickRefresh id state generation result) := by
  have hrefreshed : Inv s.refreshed := h.of_core rfl
  unfold State.afterTickRefresh
  split
  · exact hrefreshed.syncAccountInfo .nobody
  · split
    · exact h
    · refine Inv.handleRefreshFailure (h.of_core ?_) _ _ _
      rfl

theorem Inv.afterQuery (h : Inv s) (q : Query) (generation : Nat) (accountSub : Text)
    (reply : Except Failure Nat) : Inv (s.afterQuery q generation accountSub reply) := by
  unfold State.afterQuery
  split
  · exact h.of_core (core_showBalance s q _)
  · split
    · exact h.refreshNow _ fun g accountSub caller hafter => by cases hafter
    · exact h

theorem Inv.afterQueryAgain (h : Inv s) (q : Query) (generation : Nat)
    (reply : Except Failure Nat) : Inv (s.afterQueryAgain q generation reply) := by
  unfold State.afterQueryAgain
  split
  · exact h.of_core (core_showBalance s q _)
  · split
    · exact h.logoutSessionExpired generation
    · exact h

theorem Inv.afterUserInfo (h : Inv s) {generation : Nat} (hle : generation ≤ s.authGeneration)
    (accountSub : Text) (caller : Caller) (reply : Except Failure UserInfo) :
    Inv (s.afterUserInfo generation accountSub caller reply) := by
  unfold State.afterUserInfo
  split
  · exact (h.of_core (core_saveInfo s _ _ _)).resume caller
  · split
    · refine h.refreshNow _ fun g accountSub caller hafter => ?_
      obtain ⟨rfl, -, -⟩ := After.fetchUserInfo.inj hafter
      exact hle
    · exact (h.of_core (core_scheduleGatewayInfoRetry s)).resume caller

theorem Inv.afterUserInfoAgain (h : Inv s) (generation : Nat) (accountSub : Text) (caller : Caller)
    (reply : Except Failure UserInfo) :
    Inv (s.afterUserInfoAgain generation accountSub caller reply) := by
  unfold State.afterUserInfoAgain
  split
  · exact (h.of_core (core_saveInfo s _ _ _)).resume caller
  · exact (h.of_core (core_scheduleGatewayInfoRetry s)).resume caller

theorem Inv.ask (h : Inv s) (q : Query) : Inv (s.ask q) := by
  unfold State.ask
  split
  · exact h
  · exact h.await trivial

theorem Inv.fire (h : Inv s) (timer : Timer) : Inv (s.fire timer) := by
  have hfired : Inv { s with refreshTimer := none } := h.of_core rfl
  unfold State.fire
  dsimp only
  split
  · split
    · exact hfired.of_core (core_scheduleRefresh _ _)
    · exact hfired.tickRefresh _
  · exact hfired.tickRefresh _

end

/-! ## Runs -/

theorem State.flow?_mem {s : State} {id : Nat} {f : Flow} (h : s.flow? id = some f) : f ∈ s.flows :=
  List.mem_of_find?_eq_some h

theorem Inv.step {s t : State} {e : Event} (h : Inv s) (hstep : step s e = some t) : Inv t := by
  cases e with
  | login state =>
    cases hstep
    exact (h.of_core (core_persistLogin s state)).ask .pointsBalance
  | logout =>
    cases hstep
    exact h.logout
  | ask q =>
    cases hstep
    exact h.ask q
  | refreshNow =>
    cases hstep
    exact h.refreshNow _ fun g accountSub caller hafter => by cases hafter
  | tick =>
    obtain ⟨timer, -, rfl⟩ := Option.map_eq_some_iff.mp hstep
    exact h.fire timer
  | gatewayTick =>
    obtain ⟨-, rfl⟩ := Steps.of_guard hstep
    refine Inv.syncAccountInfo (h.of_core ?_) .nobody
    rfl
  | wait ms =>
    cases hstep
    exact h.of_core rfl
  | tokens id reply =>
    obtain ⟨r, -, hr⟩ := Option.bind_eq_some_iff.mp hstep
    split at hr
    · cases hr
    · cases hr
      exact h.runRefresh r reply
  | balance id reply =>
    obtain ⟨f, hf, hstep⟩ := Option.bind_eq_some_iff.mp hstep
    split at hstep
    · cases hstep
      exact (h.leave id).afterQuery _ _ _ reply
    · cases hstep
      exact (h.leave id).afterQueryAgain _ _ reply
    · cases hstep
  | info id reply =>
    obtain ⟨f, hf, hstep⟩ := Option.bind_eq_some_iff.mp hstep
    obtain ⟨hle, hsound⟩ := h.flow f (flow?_mem hf)
    split at hstep
    · rename_i hstage
      rw [hstage] at hsound
      cases hstep
      exact (h.leave id).afterUserInfo (le_trans hsound hle) _ _ reply
    · cases hstep
      exact (h.leave id).afterUserInfoAgain _ _ _ reply
    · cases hstep
  | settled id =>
    obtain ⟨f, hf, hstep⟩ := Option.bind_eq_some_iff.mp hstep
    obtain ⟨result, -, hstep⟩ := Option.bind_eq_some_iff.mp hstep
    obtain ⟨-, hsound⟩ := h.flow f (flow?_mem hf)
    unfold afterRefresh at hstep
    split at hstep
    · rename_i hstage
      rw [hstage] at hsound
      cases hstep
      exact (h.leave id).afterRefreshNow _ _ _ _ result hsound.2.2
    · cases hstep
      exact (h.leave id).afterTickRefresh _ _ _ result
    · cases hstep

theorem Inv.of_empty {s : State} (hflows : s.flows = []) (hrefreshes : s.refreshes = [])
    (hin : s.inFlightRefresh = none) : Inv s where
  refresh r hr := by
    rw [hrefreshes] at hr
    cases hr
  inFlight id hid := by
    rw [hin] at hid
    cases hid
  flow f hf := by
    rw [hflows] at hf
    cases hf

theorem Inv.scheduled {s : State} (h : Inv s) (state : StoredState) :
    Inv ((s.scheduleRefresh state).syncTokenFile state) :=
  h.of_core (core_scheduleRefresh s state)

theorem start_inv (now : Int) (stored : Option StoredState) : Inv (start now stored) := by
  unfold start
  dsimp only
  split
  · exact Inv.of_empty rfl rfl rfl
  · exact (Inv.scheduled (Inv.of_empty rfl rfl rfl) _).syncAccountInfo .nobody

/-! ## Stale outcomes -/

section

variable {s : State}

theorem logoutSessionExpired_left {generation : Nat} (h : generation ≠ s.authGeneration) :
    s.logoutSessionExpired generation = s := by
  unfold logoutSessionExpired
  rw [if_pos h.symm]

theorem handleRefreshFailure_left {code : ErrorCode} {state : StoredState} {generation : Nat}
    (h : generation ≠ s.authGeneration) : s.handleRefreshFailure code state generation = s := by
  unfold handleRefreshFailure
  rw [if_pos h.symm]

theorem view_refreshed (hattempt : s.refreshRetryAttempt = 0) (herror : s.refreshError = none) :
    s.refreshed.view = s.view := by
  simp [view, refreshed, hattempt, herror]

theorem view_runRefresh {r : Refresh} {reply : Except Failure Tokens}
    (h : s.dropsTokens r.call reply = true) : (s.runRefresh r reply).view = s.view := by
  unfold runRefresh
  cases reply with
  | error e => rfl
  | ok tokens =>
    have hleft : r.call.generation ≠ s.authGeneration := of_decide_eq_true h
    simp only
    rw [if_pos hleft.symm]
    rfl

theorem view_showBalance {q : Query} {balance : Nat} (h : s.dropsBalance q balance = true) :
    (s.showBalance q balance).view = s.view := by
  unfold dropsBalance at h
  unfold showBalance
  rcases Bool.or_eq_true_iff.mp h with h | h
  · obtain ⟨hq, hnone⟩ := Bool.and_eq_true_iff.mp h
    obtain rfl := of_decide_eq_true hq
    rw [Option.isNone_iff_eq_none.mp hnone]
  · have hsame := of_decide_eq_true h
    cases q with
    | pointsBalance =>
      simp only
      split
      · rfl
      · simp [view, hsame]
    | slurmCharge => simp [view, hsame]

theorem view_saveInfo {generation : Nat} {accountSub : Text} {info : UserInfo}
    (h : generation ≠ s.authGeneration ∨
      (s.current.all fun current => !s.keepsInfo generation accountSub info current) = true) :
    (s.saveInfo generation accountSub info).view = s.view := by
  unfold saveInfo
  cases hcurrent : s.current with
  | none => rfl
  | some current =>
    have hkeeps : s.keepsInfo generation accountSub info current = false := by
      rcases h with h | h
      · simp [keepsInfo, h.symm]
      · rw [hcurrent] at h
        simpa using h
    simp only [hkeeps, Bool.false_eq_true, if_false]

theorem view_noGatewayRetry (h : s.noGatewayRetry = true) :
    s.current ≠ none → s.scheduleGatewayInfoRetry.view = s.view := by
  intro hcurrent
  have hnone : s.current.isNone = false := by
    cases h : s.current with
    | none => exact absurd h hcurrent
    | some _ => rfl
  unfold scheduleGatewayInfoRetry
  rw [if_pos]
  simpa [noGatewayRetry, hnone] using h

theorem view_afterQuery {c : Call} {q : Query} {generation : Nat} {accountSub : Text}
    {reply : Except Failure Nat}
    (h : s.dropsQuery c (.query q generation accountSub) reply = true) :
    (s.afterQuery q generation accountSub reply).view = s.view := by
  unfold afterQuery
  cases reply with
  | ok balance => exact view_showBalance h
  | error e =>
    simp only
    split
    · exact view_refreshNow s _
    · rfl

theorem view_afterQueryAgain {c : Call} {q : Query} {generation : Nat}
    {reply : Except Failure Nat} (hsound : generation = c.generation)
    (h : s.dropsQuery c (.queryAgain q generation) reply = true) :
    (s.afterQueryAgain q generation reply).view = s.view := by
  unfold afterQueryAgain
  cases reply with
  | ok balance => exact view_showBalance h
  | error e =>
    simp only
    split
    · rename_i hexpired
      have hleft : s.left c = true := by simpa [dropsQuery, hexpired] using h
      rw [logoutSessionExpired_left (hsound ▸ of_decide_eq_true hleft)]
    · rfl

theorem view_afterTickRefresh {c : Call} {id : Nat} {state : StoredState} {generation : Nat}
    {result : Except Failure Unit} (hsound : c.generation = generation)
    (h : s.dropsRefresh c (.tickRefresh id state generation) result = true) :
    (s.afterTickRefresh id state generation result).view = s.view := by
  unfold afterTickRefresh
  cases result with
  | ok _ =>
    obtain ⟨hattempt, herror⟩ := Bool.and_eq_true_iff.mp h
    simp only [view_syncAccountInfo]
    exact view_refreshed (of_decide_eq_true hattempt) (of_decide_eq_true herror)
  | error e =>
    simp only
    split
    · rfl
    · rename_i hnot
      push Not at hnot
      have hleft : s.left c = true := by
        simpa [dropsRefresh, Stage.refresh, hnot.2] using h
      have hgen : generation ≠ s.authGeneration := hsound ▸ of_decide_eq_true hleft
      rw [handleRefreshFailure_left (s := { s with lastHandledRefreshFailure := some id }) hgen]
      rfl

theorem view_afterRefreshNow {c : Call} {id : Nat} {state : StoredState} {generation : Nat}
    {after : After} {result : Except Failure Unit} (hsound : c.generation = generation)
    (h : s.dropsRefresh c (.refreshNow id state generation after) result = true) :
    (s.afterRefreshNow id state generation after result).view = s.view := by
  unfold afterRefreshNow
  cases result with
  | ok _ =>
    obtain ⟨hattempt, herror⟩ := Bool.and_eq_true_iff.mp h
    have hrefreshed := view_refreshed (of_decide_eq_true hattempt) (of_decide_eq_true herror)
    cases after with
    | syncAccountInfo caller => simpa using hrefreshed
    | fetchUserInfo gen accountSub caller =>
      simp only
      split
      · simpa using hrefreshed
      · simpa using hrefreshed
  | error e =>
    cases e with
    | unknown => exact view_notRefreshed s after
    | qraft code =>
      simp only
      split
      · exact view_notRefreshed s after
      · rename_i hnot
        have hleft : s.left c = true := by
          simpa [dropsRefresh, Stage.refresh, hnot] using h
        have hgen : generation ≠ s.authGeneration := hsound ▸ of_decide_eq_true hleft
        rw [handleRefreshFailure_left (s := { s with lastHandledRefreshFailure := some id }) hgen,
          view_notRefreshed]
        rfl

theorem untouched_saveInfo {c : Call} {generation : Nat} {accountSub : Text} {info : UserInfo}
    (caller : Caller) (hle : generation ≤ c.generation) (hc : c.generation ≤ s.authGeneration)
    (h : (s.left c || s.current.all fun current =>
      !s.keepsInfo generation accountSub info current) = true) :
    ((s.saveInfo generation accountSub info).resume caller).view = s.view := by
  rw [view_resume]
  refine view_saveInfo ((Bool.or_eq_true_iff.mp h).imp_left fun hleft => ?_)
  have hne := of_decide_eq_true hleft
  omega

theorem untouched_gatewayRetry (caller : Caller) (h : s.noGatewayRetry = true) :
    { (s.scheduleGatewayInfoRetry.resume caller).view with gatewayInfo := s.view.gatewayInfo } =
        s.view ∧
      (s.current ≠ none → (s.scheduleGatewayInfoRetry.resume caller).view = s.view) := by
  rw [view_resume]
  exact ⟨view_scheduleGatewayInfoRetry s, view_noGatewayRetry h⟩

theorem untouched_of_view {v : View} (h : v = s.view) :
    { v with gatewayInfo := s.view.gatewayInfo } = s.view ∧ (s.current ≠ none → v = s.view) :=
  ⟨by rw [h], fun _ => h⟩

theorem Inv.untouched (h : Inv s) {e : Event} (hgood : Good s e) : Untouched s e := by
  intro t hstep c hc hstale
  have hdrops := hgood c hc hstale
  cases e with
  | login | logout | ask | refreshNow | tick | gatewayTick | wait => cases hc
  | tokens id reply =>
    obtain ⟨r, hr, rfl⟩ := Option.map_eq_some_iff.mp hc
    obtain ⟨r', hr', hstep⟩ := Option.bind_eq_some_iff.mp hstep
    obtain rfl := Option.some.inj (hr.symm.trans hr')
    split at hstep
    · cases hstep
    · cases hstep
      exact untouched_of_view (view_runRefresh hdrops)
  | balance id reply =>
    obtain ⟨f, hf, rfl⟩ := Option.map_eq_some_iff.mp hc
    obtain ⟨f', hf', hstep⟩ := Option.bind_eq_some_iff.mp hstep
    obtain rfl := Option.some.inj (hf.symm.trans hf')
    obtain ⟨-, hsound⟩ := h.flow f (flow?_mem hf)
    simp only [drops, hf, Option.all_some] at hdrops
    split at hstep
    · rename_i hstage
      rw [hstage] at hdrops
      cases hstep
      exact untouched_of_view (view_afterQuery (s := s.leave id) hdrops)
    · rename_i hstage
      rw [hstage] at hdrops hsound
      cases hstep
      exact untouched_of_view (view_afterQueryAgain (s := s.leave id) hsound hdrops)
    · cases hstep
  | info id reply =>
    obtain ⟨f, hf, rfl⟩ := Option.map_eq_some_iff.mp hc
    obtain ⟨f', hf', hstep⟩ := Option.bind_eq_some_iff.mp hstep
    obtain rfl := Option.some.inj (hf.symm.trans hf')
    obtain ⟨hle, hsound⟩ := h.flow f (flow?_mem hf)
    simp only [drops, hf, Option.all_some] at hdrops
    split at hstep
    · rename_i generation accountSub caller hstage
      rw [hstage] at hdrops hsound
      cases hstep
      unfold State.afterUserInfo
      cases reply with
      | ok info =>
        exact untouched_of_view (untouched_saveInfo (s := s.leave id) caller hsound hle hdrops)
      | error e =>
        simp only
        split
        · exact untouched_of_view (view_refreshNow (s.leave id) _)
        · rename_i hexpired
          have hretry : s.noGatewayRetry = true := by
            simpa [dropsInfo, hexpired] using hdrops
          exact untouched_gatewayRetry (s := s.leave id) caller hretry
    · rename_i generation accountSub caller hstage
      rw [hstage] at hdrops hsound
      cases hstep
      unfold State.afterUserInfoAgain
      cases reply with
      | ok info =>
        exact untouched_of_view (untouched_saveInfo (s := s.leave id) caller hsound hle hdrops)
      | error e => exact untouched_gatewayRetry (s := s.leave id) caller hdrops
    · cases hstep
  | settled id =>
    obtain ⟨r, hr, rfl⟩ := Option.map_eq_some_iff.mp hc
    obtain ⟨f, hf, hr⟩ := Option.bind_eq_some_iff.mp hr
    obtain ⟨rid, hrid, hr⟩ := Option.bind_eq_some_iff.mp hr
    obtain ⟨f', hf', hstep⟩ := Option.bind_eq_some_iff.mp hstep
    obtain rfl := Option.some.inj (hf.symm.trans hf')
    obtain ⟨result, hresult, hstep⟩ := Option.bind_eq_some_iff.mp hstep
    obtain ⟨-, hsound⟩ := h.flow f (flow?_mem hf)
    have hmem : r ∈ s.refreshes := List.mem_of_find?_eq_some hr
    have hid : r.id = rid := by simpa using List.find?_some hr
    simp only [drops, hf, Option.all_some, hresult] at hdrops
    unfold afterRefresh at hstep
    split at hstep
    · rename_i hstage
      rw [hstage] at hdrops hsound hrid
      cases hrid
      cases hstep
      exact untouched_of_view
        (view_afterRefreshNow (s := s.leave id) (hsound.2.1 r hmem hid) hdrops)
    · rename_i hstage
      rw [hstage] at hdrops hsound hrid
      cases hrid
      cases hstep
      exact untouched_of_view (view_afterTickRefresh (s := s.leave id) (hsound.2 r hmem hid) hdrops)
    · cases hstep

end

/-- **A finished login leaves the next one alone.** In a run where the service drops what comes too
late, the outcome of a call of an earlier login changes nothing. -/
theorem finished_login_untouched (now : Int) (stored : Option StoredState) (events : List Event)
    (hgood : Steps.GoodRun step Good (start now stored) events) :
    Steps.GoodRun step Untouched (start now stored) events :=
  Steps.goodRun_imp step Good Untouched Inv (fun _ _ _ h _ hstep => h.step hstep)
    (fun _ _ h hgood => h.untouched hgood) (start now stored) events (start_inv now stored) hgood

/-- The stored state of a user with tokens. -/
def stateOf (user token : Text) : StoredState where
  baseUrl := []
  clientId := []
  clientSecret := []
  redirectUri := []
  cookie := []
  account := ⟨[], user, user, user⟩
  tokens := ⟨token, token, 0⟩
  aiGateway := none
  mcpGatewayKey := none

/-- A refresh that is answered after a logout and the login of another user. -/
theorem refresh_dropped_after_logout :
    Steps.GoodRun step Untouched (start 0 none) [.login (stateOf ['a'] ['1']), .refreshNow, .logout,
      .login (stateOf ['b'] ['2']), .tokens 1 (.ok ⟨['3'], ['3'], 0⟩), .settled 2] :=
  finished_login_untouched 0 none _ (by decide)

/-- Without the logout the tokens of the first user replace the login of the second. -/
theorem relogin_replaced :
    ¬ Steps.GoodRun step Untouched (start 0 none) [.login (stateOf ['a'] ['1']), .refreshNow,
      .login (stateOf ['b'] ['2']), .tokens 1 (.ok ⟨['3'], ['3'], 0⟩)] := by
  intro h
  have hlast := ((h.2 _ rfl).2 _ rfl).2 _ rfl
  have hsame := (hlast.1 _ rfl _ rfl (by decide)).2 (by decide)
  exact absurd (congrArg View.current hsame) (by decide)

end MiqroForge.Qraft
