import MiqroForge.Qraft.Captured

/-!
What the updates of a login leave stored. A refresh saves the state it was started with and its new
tokens; an answer of `userinfo` saves the state of the moment and what it says.
-/

namespace MiqroForge.Qraft

open PyText State

/-! ## Updates -/

/-- The tokens of a refresh, or an answer of `userinfo`, that is saved. -/
inductive Update
  | tokens (reply : Tokens)
  | info (reply : UserInfo)

/-- An update changes its own part of what is stored. -/
def Update.apply (state : StoredState) : Update → StoredState
  | .tokens reply => { state with tokens := reply }
  | .info reply => state.withInfo reply

namespace State

variable (s : State)

/-- The refresh whose tokens are saved when it answers. -/
def answered (id : Nat) : Option Refresh :=
  (s.refresh? id).filter fun r =>
    r.settled.isNone && decide (s.authGeneration = r.call.generation)

/-- The update that an event makes. -/
def update? : Event → Option Update
  | .tokens id (.ok tokens) => (s.answered id).map fun _ => .tokens tokens
  | .info id (.ok info) =>
    (s.flow? id).bind fun f =>
      match f.stage with
      | .userInfo generation accountSub _ | .userInfoAgain generation accountSub _ =>
        if s.current.any (s.keepsInfo generation accountSub info) then some (.info info) else none
      | _ => none
  | _ => none

end State

/-- The updates of a run. -/
def updates : State → List Event → List Update
  | _, [] => []
  | s, e :: es => (s.update? e).toList ++
    match step s e with
    | some s' => updates s' es
    | none => []

/-- A refresh request that is sent in a step has the refresh token of the stored tokens. -/
def AsksCurrent (s : State) (e : Event) : Prop :=
  ∀ t, step s e = some t → ∀ r ∈ t.refreshes, s.nextId ≤ r.id →
    ∃ state, s.current = some state ∧ r.state.tokens.refreshToken = state.tokens.refreshToken

/-! ## The conditions -/

/-- A step neither logs in nor out. -/
def Stays (s : State) (e : Event) : Prop := ∀ t, step s e = some t → t.session = s.session

/-- Tokens come for the state that is stored: since their refresh captured it, no other part of it
has changed. -/
def Fresh (s : State) : Event → Prop
  | .tokens id (.ok _) => ∀ r ∈ s.answered id, ∀ state ∈ s.current,
      r.state = { state with tokens := r.state.tokens }
  | _ => True

instance (s : State) : (e : Event) → Decidable (Fresh s e)
  | .tokens _ (.ok _) => inferInstanceAs (Decidable (∀ r ∈ _, ∀ state ∈ s.current, _))
  | .tokens _ (.error _) | .login _ | .logout | .ask _ | .refreshNow | .tick | .gatewayTick
  | .wait _ | .balance _ _ | .info _ _ | .settled _ => inferInstanceAs (Decidable True)

instance (s : State) (e : Event) : Decidable (Stays s e) :=
  match h : step s e with
  | none => isTrue fun t ht => by rw [h] at ht; cases ht
  | some u => decidable_of_iff (u.session = s.session) (by simp [Stays, h])

/-! ## What a step stores and asks for -/

section

variable {s t : State}

/-- No refresh is added, and what is stored stays or the login session ends. -/
structure Quiet (s t : State) : Prop where
  refreshes : t.refreshes = s.refreshes
  stored : (t.session = s.session ∧ t.current = s.current) ∨ s.session < t.session

theorem Quiet.refl (s : State) : Quiet s s := ⟨rfl, .inl ⟨rfl, rfl⟩⟩

theorem Quiet.trans {u : State} (h : Quiet s t) (h' : Quiet t u) : Quiet s u := by
  refine ⟨h'.refreshes.trans h.refreshes, ?_⟩
  obtain ⟨hs, hc⟩ | hlt := h.stored <;> obtain ⟨hs', hc'⟩ | hlt' := h'.stored
  · exact .inl ⟨hs'.trans hs, hc'.trans hc⟩
  · exact .inr (hs ▸ hlt')
  · exact .inr (hs' ▸ hlt)
  · exact .inr (hlt.trans hlt')

theorem quiet_logoutSessionExpired (s : State) (generation : Nat) :
    Quiet s (s.logoutSessionExpired generation) := by
  unfold State.logoutSessionExpired
  split
  · exact Quiet.refl s
  · exact ⟨rfl, .inr (Nat.lt_succ_self _)⟩

theorem quiet_handleRefreshFailure (s : State) (code : ErrorCode) (state : StoredState)
    (generation : Nat) : Quiet s (s.handleRefreshFailure code state generation) := by
  unfold State.handleRefreshFailure
  dsimp only
  split
  · exact Quiet.refl s
  · have herror : Quiet s { s with refreshError := some code } := ⟨rfl, .inl ⟨rfl, rfl⟩⟩
    split
    · exact herror.trans (quiet_logoutSessionExpired _ generation)
    · exact ⟨rfl, .inl ⟨rfl, rfl⟩⟩

theorem quiet_resume (s : State) (caller : Caller) : Quiet s (s.resume caller) := by
  unfold State.resume
  split
  · exact Quiet.refl s
  · split
    · exact Quiet.refl s
    · split
      · exact Quiet.refl s
      · exact ⟨rfl, .inl ⟨rfl, rfl⟩⟩

theorem quiet_syncAccountInfo (s : State) (caller : Caller) :
    Quiet s (s.syncAccountInfo caller) := by
  unfold State.syncAccountInfo
  split
  · exact quiet_resume s caller
  · exact ⟨rfl, .inl ⟨rfl, rfl⟩⟩

theorem quiet_notRefreshed (s : State) (after : After) : Quiet s (s.notRefreshed after) := by
  unfold State.notRefreshed
  split
  · exact Quiet.refl s
  · exact quiet_resume s _

theorem quiet_refreshed (s : State) : Quiet s s.refreshed := ⟨rfl, .inl ⟨rfl, rfl⟩⟩

theorem quiet_afterRefreshNow (s : State) (id : Nat) (state : StoredState) (generation : Nat)
    (after : After) (outcome : Except Failure Unit) :
    Quiet s (s.afterRefreshNow id state generation after outcome) := by
  unfold State.afterRefreshNow
  split
  · split
    · exact (quiet_refreshed s).trans (quiet_syncAccountInfo _ _)
    · split
      · exact (quiet_refreshed s).trans (quiet_resume _ _)
      · exact ⟨rfl, .inl ⟨rfl, rfl⟩⟩
  · exact quiet_notRefreshed s after
  · split
    · exact quiet_notRefreshed s after
    · have hhandled : Quiet s { s with lastHandledRefreshFailure := some id } :=
        ⟨rfl, .inl ⟨rfl, rfl⟩⟩
      exact (hhandled.trans (quiet_handleRefreshFailure _ _ _ _)).trans (quiet_notRefreshed _ _)

theorem quiet_afterTickRefresh (s : State) (id : Nat) (state : StoredState) (generation : Nat)
    (outcome : Except Failure Unit) : Quiet s (s.afterTickRefresh id state generation outcome) := by
  unfold State.afterTickRefresh
  split
  · exact (quiet_refreshed s).trans (quiet_syncAccountInfo _ _)
  · split
    · exact Quiet.refl s
    · have hhandled : Quiet s { s with lastHandledRefreshFailure := some id } :=
        ⟨rfl, .inl ⟨rfl, rfl⟩⟩
      exact hhandled.trans (quiet_handleRefreshFailure _ _ _ _)

theorem quiet_gatewayRetry (s : State) : Quiet s s.scheduleGatewayInfoRetry := by
  unfold State.scheduleGatewayInfoRetry
  split
  · exact Quiet.refl s
  · exact ⟨rfl, .inl ⟨rfl, rfl⟩⟩

theorem quiet_showBalance (s : State) (q : Query) (balance : Nat) :
    Quiet s (s.showBalance q balance) := by
  unfold State.showBalance
  split
  · split
    · exact Quiet.refl s
    · exact ⟨rfl, .inl ⟨rfl, rfl⟩⟩
  · exact ⟨rfl, .inl ⟨rfl, rfl⟩⟩

theorem quiet_ask (s : State) (q : Query) : Quiet s (s.ask q) := by
  unfold State.ask
  split
  · exact Quiet.refl s
  · exact ⟨rfl, .inl ⟨rfl, rfl⟩⟩

theorem scheduleRefresh_rest (s : State) (state : StoredState) :
    (s.scheduleRefresh state).refreshes = s.refreshes ∧
      (s.scheduleRefresh state).session = s.session := by
  unfold State.scheduleRefresh
  dsimp only
  split <;> exact ⟨rfl, rfl⟩

theorem quiet_scheduleRefresh (s : State) (state : StoredState) :
    Quiet s (s.scheduleRefresh state) :=
  ⟨(scheduleRefresh_rest s state).1,
    .inl ⟨(scheduleRefresh_rest s state).2, scheduleRefresh_current state⟩⟩

/-- What a step sends and stores: the refreshes it adds have the stored refresh token, and its
update is made of what is stored. -/
structure Moves (s t : State) (update : Option Update) : Prop where
  asks : ∀ r ∈ t.refreshes, s.nextId ≤ r.id →
    ∃ state, s.current = some state ∧ r.state.tokens.refreshToken = state.tokens.refreshToken
  stored : (t.session = s.session ∧
    t.current = s.current.map fun state => update.toList.foldl Update.apply state) ∨
      s.session < t.session

theorem asks_of_old (hinv : Inv s) (h : ∀ r ∈ t.refreshes, ∃ r' ∈ s.refreshes, r'.id = r.id) :
    ∀ r ∈ t.refreshes, s.nextId ≤ r.id → ∃ state, s.current = some state ∧
      r.state.tokens.refreshToken = state.tokens.refreshToken := by
  intro r hr hid
  obtain ⟨r', hr', heq⟩ := h r hr
  exact absurd (hinv.refresh r' hr').1 (by omega)

theorem Quiet.moves (h : Quiet s t) (hinv : Inv s) : Moves s t none := by
  refine ⟨asks_of_old hinv fun r hr => ⟨r, h.refreshes ▸ hr, rfl⟩,
    h.stored.imp_left fun hkept => ⟨hkept.1, hkept.2.trans ?_⟩⟩
  cases s.current <;> rfl

theorem moves_doRefresh (hinv : Inv s) {state stored : StoredState} (stage : Nat → Stage)
    (hcurrent : s.current = some stored) (htokens : state.tokens = stored.tokens) :
    Moves s ((s.doRefresh state).1.await (stage (s.doRefresh state).2)) none := by
  refine ⟨?_, .inl ⟨?_, ?_⟩⟩
  · intro r hr hid
    unfold State.doRefresh at hr
    split at hr
    · exact absurd (hinv.refresh r hr).1 (Nat.not_lt.mpr hid)
    · rcases List.mem_cons.mp hr with rfl | hr
      · exact ⟨stored, hcurrent, congrArg Tokens.refreshToken htokens⟩
      · exact absurd (hinv.refresh r hr).1 (Nat.not_lt.mpr hid)
  · unfold State.doRefresh
    split <;> rfl
  · refine (current_doRefresh state).trans ?_
    cases s.current <;> rfl

theorem moves_refreshNow (hinv : Inv s) (after : After) : Moves s (s.refreshNow after) none := by
  unfold State.refreshNow
  split
  · exact (quiet_notRefreshed s after).moves hinv
  · rename_i state hstate
    exact moves_doRefresh hinv (fun id => .refreshNow id state _ after) hstate rfl

theorem moves_fire (h : Kept s) (hinv : Inv s) {timer : Timer}
    (htimer : s.refreshTimer = some timer) : Moves s (s.fire timer) none := by
  have htick : Moves s (State.tickRefresh { s with refreshTimer := none } timer.state) none := by
    unfold State.tickRefresh
    split
    · exact Quiet.moves ⟨rfl, .inl ⟨rfl, rfl⟩⟩ hinv
    · rename_i stored hstored
      have hmoves := moves_doRefresh (s := { s with refreshTimer := none }) (hinv.of_core rfl)
        (fun id => .tickRefresh id timer.state
          (State.doRefresh { s with refreshTimer := none } timer.state).1.authGeneration) hstored
        (h.timer timer htimer stored hstored)
      exact ⟨hmoves.asks, hmoves.stored⟩
  unfold State.fire
  dsimp only
  split
  · split
    · have hfired : Quiet s { s with refreshTimer := none } := ⟨rfl, .inl ⟨rfl, rfl⟩⟩
      exact (hfired.trans (quiet_scheduleRefresh _ _)).moves hinv
    · exact htick
  · exact htick

theorem refreshes_settle (s : State) (r : Refresh) (outcome : Except Failure Unit) :
    ∀ r' ∈ (s.settle r outcome).refreshes, ∃ r'' ∈ s.refreshes, r''.id = r'.id := by
  refine List.forall_mem_map.mpr fun r'' hr'' => ⟨r'', hr'', ?_⟩
  split <;> rfl

theorem moves_settle (hinv : Inv s) (r : Refresh) (outcome : Except Failure Unit) :
    Moves s (s.settle r outcome) none := by
  refine ⟨asks_of_old hinv (refreshes_settle s r outcome), .inl ⟨rfl, ?_⟩⟩
  change s.current = _
  cases s.current <;> rfl

theorem moves_runRefresh (h : Kept s) (hinv : Inv s) {id : Nat} {r : Refresh}
    (hr : s.refresh? id = some r) (hnone : r.settled = none) {reply : Except Failure Tokens}
    (hfresh : Fresh s (.tokens id reply)) :
    Moves s (s.runRefresh r reply) (s.update? (.tokens id reply)) := by
  unfold State.runRefresh
  cases reply with
  | error e => exact moves_settle hinv r _
  | ok tokens =>
    dsimp only
    by_cases hgen : s.authGeneration = r.call.generation
    · have hanswered : s.answered id = some r := by
        simp [State.answered, hr, hnone, hgen]
      have hupdate : s.update? (.tokens id (.ok tokens)) = some (.tokens tokens) := by
        rw [State.update?, hanswered, Option.map_some]
      have hin := h.inFlight id r hr hnone hgen.symm
      obtain ⟨stored, hstored⟩ := Option.ne_none_iff_exists'.mp
        (h.present (by rw [hin]; nofun))
      have hsame := hfresh r hanswered stored hstored
      obtain ⟨hrefreshes, hsession⟩ := scheduleRefresh_rest
        { s with current := some { r.state with tokens := tokens } } { r.state with tokens := tokens }
      rw [if_neg (not_not.mpr hgen), hupdate]
      refine ⟨asks_of_old hinv fun r' hr' => ?_, .inl ⟨hsession, ?_⟩⟩
      · obtain ⟨r'', hr'', hid⟩ := refreshes_settle _ r _ r' hr'
        exact ⟨r'', hrefreshes ▸ hr'', hid⟩
      · refine (scheduleRefresh_current _).trans ?_
        rw [hstored, hsame]
        rfl
    · have hnot : s.answered id = none := by
        simp [State.answered, hr, hgen]
      rw [if_pos hgen, State.update?, hnot]
      exact moves_settle hinv r _

theorem moves_saveInfo (hinv : Inv s) {generation : Nat} {accountSub : Text} {info : UserInfo} :
    Moves s (s.saveInfo generation accountSub info)
      (if s.current.any (s.keepsInfo generation accountSub info) then some (.info info)
        else none) := by
  unfold State.saveInfo
  cases hcurrent : s.current with
  | none => exact (Quiet.refl s).moves hinv
  | some current =>
    dsimp only
    rw [Option.any_some]
    split
    · have hrest : ∀ u, Quiet (({ s with current := some (current.withInfo info) }).syncTokenFile
          (current.withInfo info)) u → Moves s u (some (.info info)) := by
        intro u hquiet
        refine ⟨asks_of_old hinv fun r hr => ⟨r, hquiet.refreshes ▸ hr, rfl⟩,
          hquiet.stored.imp_left fun hkept => ⟨hkept.1, hkept.2.trans ?_⟩⟩
        rw [hcurrent]
        rfl
      split
      · exact hrest _ ⟨rfl, .inl ⟨rfl, rfl⟩⟩
      · exact hrest _ (quiet_gatewayRetry _)
    · exact (Quiet.refl s).moves hinv

theorem Moves.quiet {u : State} {update : Option Update} (h : Moves s t update)
    (h' : Quiet t u) : Moves s u update := by
  refine ⟨fun r hr => h.asks r (h'.refreshes ▸ hr), ?_⟩
  obtain ⟨hs, hc⟩ | hlt := h.stored <;> obtain ⟨hs', hc'⟩ | hlt' := h'.stored
  · exact .inl ⟨hs'.trans hs, hc'.trans hc⟩
  · exact .inr (hs ▸ hlt')
  · exact .inr (hs' ▸ hlt)
  · exact .inr (hlt.trans hlt')

theorem quiet_persistLogin (s : State) (state : StoredState) (q : Query) :
    ((s.persistLogin state).ask q).refreshes = s.refreshes ∧
      s.session < ((s.persistLogin state).ask q).session := by
  have hlogin : (s.persistLogin state).refreshes = s.refreshes ∧
      s.session < (s.persistLogin state).session := by
    refine ⟨(core_fields (core_persistLogin s state)).2.1, ?_⟩
    unfold State.persistLogin State.scheduleRefresh State.scheduleGatewayInfoRetry
    dsimp only
    repeat' split
    all_goals exact Nat.lt_succ_self _
  have hask := quiet_ask (s.persistLogin state) q
  refine ⟨hask.refreshes.trans hlogin.1, ?_⟩
  obtain ⟨hs, -⟩ | hlt := hask.stored
  · exact hs ▸ hlogin.2
  · exact hlogin.2.trans hlt

theorem Moves.of_leave {id : Nat} {update : Option Update} (h : Moves (s.leave id) t update) :
    Moves s t update := ⟨h.asks, h.stored⟩

theorem moves_afterQuery (hinv : Inv s) (q : Query) (generation : Nat) (accountSub : Text)
    (reply : Except Failure Nat) : Moves s (s.afterQuery q generation accountSub reply) none := by
  unfold State.afterQuery
  split
  · exact (quiet_showBalance s q _).moves hinv
  · split
    · exact moves_refreshNow hinv _
    · exact (Quiet.refl s).moves hinv

theorem moves_afterQueryAgain (hinv : Inv s) (q : Query) (generation : Nat)
    (reply : Except Failure Nat) : Moves s (s.afterQueryAgain q generation reply) none := by
  unfold State.afterQueryAgain
  split
  · exact (quiet_showBalance s q _).moves hinv
  · split
    · exact (quiet_logoutSessionExpired s generation).moves hinv
    · exact (Quiet.refl s).moves hinv

/-- The update an answer of `userinfo` makes. -/
def State.saved (s : State) (generation : Nat) (accountSub : Text) :
    Except Failure UserInfo → Option Update
  | .ok info =>
    if s.current.any (s.keepsInfo generation accountSub info) then some (.info info) else none
  | .error _ => none

theorem moves_afterUserInfo (hinv : Inv s) (generation : Nat) (accountSub : Text) (caller : Caller)
    (reply : Except Failure UserInfo) :
    Moves s (s.afterUserInfo generation accountSub caller reply)
      (s.saved generation accountSub reply) := by
  unfold State.afterUserInfo
  cases reply with
  | ok info => exact (moves_saveInfo hinv).quiet (quiet_resume _ caller)
  | error e =>
    dsimp only
    split
    · exact moves_refreshNow hinv _
    · exact ((quiet_gatewayRetry s).trans (quiet_resume _ caller)).moves hinv

theorem moves_afterUserInfoAgain (hinv : Inv s) (generation : Nat) (accountSub : Text)
    (caller : Caller) (reply : Except Failure UserInfo) :
    Moves s (s.afterUserInfoAgain generation accountSub caller reply)
      (s.saved generation accountSub reply) := by
  unfold State.afterUserInfoAgain
  cases reply with
  | ok info => exact (moves_saveInfo hinv).quiet (quiet_resume _ caller)
  | error e => exact ((quiet_gatewayRetry s).trans (quiet_resume _ caller)).moves hinv

theorem moves_step {e : Event} (h : Kept s) (hinv : Inv s) (hfresh : Fresh s e)
    (hstep : step s e = some t) : Moves s t (s.update? e) := by
  cases e with
  | login state =>
    cases hstep
    obtain ⟨hrefreshes, hlt⟩ := quiet_persistLogin s state .pointsBalance
    exact ⟨asks_of_old hinv fun r hr => ⟨r, hrefreshes ▸ hr, rfl⟩, .inr hlt⟩
  | logout =>
    cases hstep
    exact Quiet.moves ⟨rfl, .inr (Nat.lt_succ_self _)⟩ hinv
  | ask q =>
    cases hstep
    exact (quiet_ask s q).moves hinv
  | refreshNow =>
    cases hstep
    exact moves_refreshNow hinv _
  | tick =>
    obtain ⟨timer, htimer, rfl⟩ := Option.map_eq_some_iff.mp hstep
    exact moves_fire h hinv htimer
  | gatewayTick =>
    obtain ⟨-, rfl⟩ := Steps.of_guard hstep
    have hticked : Quiet s { s with gatewayInfoTimer := false } := ⟨rfl, .inl ⟨rfl, rfl⟩⟩
    exact (hticked.trans (quiet_syncAccountInfo _ .nobody)).moves hinv
  | wait ms =>
    cases hstep
    exact Quiet.moves ⟨rfl, .inl ⟨rfl, rfl⟩⟩ hinv
  | tokens id reply =>
    obtain ⟨r, hr, hstep⟩ := Option.bind_eq_some_iff.mp hstep
    split at hstep
    · cases hstep
    · rename_i hnone
      cases hstep
      exact moves_runRefresh h hinv hr hnone hfresh
  | balance id reply =>
    obtain ⟨f, -, hstep⟩ := Option.bind_eq_some_iff.mp hstep
    split at hstep
    · cases hstep
      exact (moves_afterQuery (hinv.leave id) _ _ _ reply).of_leave
    · cases hstep
      exact (moves_afterQueryAgain (hinv.leave id) _ _ reply).of_leave
    · cases hstep
  | info id reply =>
    obtain ⟨f, hf, hstep⟩ := Option.bind_eq_some_iff.mp hstep
    split at hstep
    case h_3 => cases hstep
    all_goals
      rename_i generation accountSub caller hstage
      cases hstep
      have hupdate : s.update? (.info id reply) = s.saved generation accountSub reply := by
        cases reply with
        | error e => rfl
        | ok info => rw [State.update?, hf, Option.bind_some, hstage]; rfl
      rw [hupdate]
    · exact (moves_afterUserInfo (hinv.leave id) _ _ _ reply).of_leave
    · exact (moves_afterUserInfoAgain (hinv.leave id) _ _ _ reply).of_leave
  | settled id =>
    have hleave : Quiet s (s.leave id) := ⟨rfl, .inl ⟨rfl, rfl⟩⟩
    obtain ⟨f, -, hstep⟩ := Option.bind_eq_some_iff.mp hstep
    obtain ⟨outcome, -, hstep⟩ := Option.bind_eq_some_iff.mp hstep
    unfold State.afterRefresh at hstep
    split at hstep
    · cases hstep
      exact (hleave.trans (quiet_afterRefreshNow _ _ _ _ _ _)).moves hinv
    · cases hstep
      exact (hleave.trans (quiet_afterTickRefresh _ _ _ _ _)).moves hinv
    · cases hstep

end

theorem stored_of_moves {s t : State} {events : List Event} (ht : Steps.run step s events = some t)
    (hmoves : Steps.GoodRun step (fun s e => ∀ t, step s e = some t → Moves s t (s.update? e)) s
      events) (hstays : Steps.GoodRun step Stays s events) :
    t.current = s.current.map fun state => (updates s events).foldl Update.apply state := by
  induction events generalizing s with
  | nil =>
    obtain rfl := Option.some.inj ht
    cases s.current <;> rfl
  | cons e es ih =>
    obtain ⟨u, hu, ht⟩ := Steps.run_cons_some step ht
    have hsession := hstays.1 u hu
    have hcurrent : u.current =
        s.current.map fun state => (s.update? e).toList.foldl Update.apply state := by
      obtain ⟨-, hcurrent⟩ | hlt := (hmoves.1 u hu).stored
      · exact hcurrent
      · omega
    rw [ih ht (hmoves.2 u hu) (hstays.2 u hu), hcurrent, updates, hu, Option.map_map]
    simp only [List.foldl_append]
    rfl

/-- **No update of a login is lost while refreshes answer for the stored state.** Within a login
session what is stored is what its updates make, each of its own part, and every refresh request has
the refresh token of the moment. -/
theorem no_lost_update (now : Int) (stored : Option StoredState) (before events : List Event)
    (s t : State) (hs : Steps.run step (start now stored) before = some s)
    (ht : Steps.run step s events = some t)
    (horderly : Steps.GoodRun step Orderly (start now stored) (before ++ events))
    (hfresh : Steps.GoodRun step Fresh s events) (hstays : Steps.GoodRun step Stays s events) :
    t.current = s.current.map (fun state => (updates s events).foldl Update.apply state) ∧
      Steps.GoodRun step AsksCurrent s events := by
  obtain ⟨hbefore, hafter⟩ :=
    (Steps.goodRun_append step Orderly (start now stored) s before events hs).mp horderly
  have hinv : Kept s ∧ Inv s :=
    Steps.goodRun_invariant step Orderly (fun s => Kept s ∧ Inv s)
      (fun _ _ _ h horder hstep => ⟨h.1.step h.2 horder hstep, h.2.step hstep⟩) (start now stored) s
      before ⟨start_kept now stored, start_inv now stored⟩ hs hbefore
  have hmoves : Steps.GoodRun step (fun s e => ∀ t, step s e = some t → Moves s t (s.update? e)) s
      events :=
    Steps.goodRun_imp step _ _ (fun s => Kept s ∧ Inv s)
      (fun _ _ _ h hgood hstep => ⟨h.1.step h.2 hgood.1 hstep, h.2.step hstep⟩)
      (fun _ _ h hgood _ hstep => moves_step h.1 h.2 hgood.2 hstep) s events hinv
      (Steps.goodRun_both step Orderly Fresh s events hafter hfresh)
  refine ⟨stored_of_moves ht hmoves hstays, ?_⟩
  exact Steps.goodRun_imp step _ AsksCurrent (fun _ => True) (fun _ _ _ _ _ _ => trivial)
    (fun _ _ _ hgood t hstep => (hgood t hstep).asks) s events trivial hmoves

/-! ## The timer of a login -/

/-- A usable gateway, as `userinfo` tells it. -/
def opened : UserInfo :=
  ⟨[], [], [], some ⟨['k'], ['a', 'c', 't', 'i', 'v', 'e'], none, none, none⟩, none⟩

theorem manual_refresh_keeps :
    (Steps.run step (start 0 (some (stateOf ['a'] ['1'])))
        [.info 0 (.ok opened), .refreshNow, .tokens 1 (.ok ⟨['2'], ['2'], 0⟩)]).map State.current =
      some ((some (stateOf ['a'] ['1'])).map fun state =>
        [.info opened, .tokens ⟨['2'], ['2'], 0⟩].foldl Update.apply state) ∧
      Steps.GoodRun step AsksCurrent (start 0 (some (stateOf ['a'] ['1'])))
        [.info 0 (.ok opened), .refreshNow, .tokens 1 (.ok ⟨['2'], ['2'], 0⟩)] := by
  have h := no_lost_update 0 (some (stateOf ['a'] ['1'])) []
    [.info 0 (.ok opened), .refreshNow, .tokens 1 (.ok ⟨['2'], ['2'], 0⟩)] _ _ rfl rfl
    (by decide) (by decide) (by decide)
  exact ⟨congrArg some h.1, h.2⟩

/-- The refresh of the timer that was armed at the start takes the gateway away again. -/
theorem timer_loses_gateway :
    Steps.GoodRun step Stays (start 0 (some (stateOf ['a'] ['1'])))
        [.info 0 (.ok opened), .tick, .tokens 1 (.ok ⟨['2'], ['2'], 0⟩)] ∧
      Steps.GoodRun step Orderly (start 0 (some (stateOf ['a'] ['1'])))
        [.info 0 (.ok opened), .tick, .tokens 1 (.ok ⟨['2'], ['2'], 0⟩)] ∧
      ∀ t, Steps.run step (start 0 (some (stateOf ['a'] ['1'])))
          [.info 0 (.ok opened), .tick, .tokens 1 (.ok ⟨['2'], ['2'], 0⟩)] = some t →
        (t.current.bind StoredState.aiGateway = none ∧
          t.current ≠ (start 0 (some (stateOf ['a'] ['1']))).current.map fun state =>
            (updates (start 0 (some (stateOf ['a'] ['1'])))
              [.info 0 (.ok opened), .tick, .tokens 1 (.ok ⟨['2'], ['2'], 0⟩)]).foldl
              Update.apply state) := by
  refine ⟨by decide, by decide, ?_⟩
  intro t ht
  cases ht
  decide

end MiqroForge.Qraft
