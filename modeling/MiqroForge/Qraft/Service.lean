import MiqroForge.Library.PyText
import MiqroForge.Library.Steps
import Mathlib.Algebra.Ring.Int.Defs

/-!
The login state of the desktop: `QraftService` in `service.ts`, with the platform calls of its flows
in any order.
-/

namespace MiqroForge.Qraft

open PyText

/-! ## What is stored -/

/-- `QraftAccount`. -/
structure Account where
  phone : Text
  sub : Text
  username : Text
  nickname : Text
  deriving DecidableEq

/-- `QraftTokens`. -/
structure Tokens where
  accessToken : Text
  refreshToken : Text
  expiresAt : Int
  deriving DecidableEq

/-- `QraftAiGateway`. -/
structure AiGateway where
  encryptedApiKey : Text
  status : Text
  configVersion : Option Int
  consumerId : Option Text
  consumerGroupId : Option Text
  deriving DecidableEq

/-- `QraftStoredState`. -/
structure StoredState where
  baseUrl : Text
  clientId : Text
  clientSecret : Text
  redirectUri : Text
  cookie : Text
  account : Account
  tokens : Tokens
  aiGateway : Option AiGateway
  mcpGatewayKey : Option Text
  deriving DecidableEq

/-- What the credential file holds. -/
structure TokenFile where
  accessToken : Text
  expiresAt : Int
  baseUrl : Text
  mcpGatewayKey : Option Text
  aiGateway : Option AiGateway
  deriving DecidableEq

def StoredState.tokenFile (state : StoredState) : TokenFile where
  accessToken := state.tokens.accessToken
  expiresAt := state.tokens.expiresAt
  baseUrl := state.baseUrl
  mcpGatewayKey := state.mcpGatewayKey.filter fun key => decide (key ≠ [])
  aiGateway := state.aiGateway

def isGatewayUsable (state : StoredState) : Bool :=
  state.aiGateway.any fun g =>
    decide (g.encryptedApiKey ≠ []) && decide (g.status = ['a', 'c', 't', 'i', 'v', 'e'])

/-- What `getUserInfo` returns. -/
structure UserInfo where
  sub : Text
  username : Text
  nickname : Text
  aiGateway : Option AiGateway
  mcpGatewayKey : Option Text
  deriving DecidableEq

/-- The error codes the service tells apart. -/
inductive ErrorCode
  | sessionExpired
  | refreshTokenInvalid
  | refreshFailed
  | other (code : Text)
  deriving DecidableEq

def isPermanentRefreshError (code : ErrorCode) : Bool := decide (code = .refreshTokenInvalid)

/-- How a platform call fails: with a `QraftError` or with another error. -/
inductive Failure
  | qraft (code : ErrorCode)
  | unknown
  deriving DecidableEq

/-! ## Constants, in milliseconds -/

def refreshAdvance : Int := 15 * 60000

def refreshRetryBase : Int := 60000

def refreshRetryMax : Int := 30 * 60000

def gatewayInfoRetryLimit : Nat := 5

def maxTimeout : Int := 2147483647

/-! ## Flows -/

/-- A platform call: the login session and the generation it was started in. The service keeps no
number of login sessions. -/
structure Call where
  session : Nat
  generation : Nat
  deriving DecidableEq

/-- A refresh of the tokens, and how it ended. -/
structure Refresh where
  id : Nat
  state : StoredState
  call : Call
  settled : Option (Except Failure Unit)

/-- The calls whose answer is a balance: `getPointsBalance` and `deductPoints`. -/
inductive Query
  | pointsBalance
  | slurmCharge
  deriving DecidableEq

/-- What waits for the end of `syncAccountInfo`. -/
inductive Caller
  | nobody
  | query (query : Query) (generation : Nat) (accountSub : Text)
  deriving DecidableEq

/-- What follows `refreshNow`. -/
inductive After
  | syncAccountInfo (caller : Caller)
  | fetchUserInfo (generation : Nat) (accountSub : Text) (caller : Caller)
  deriving DecidableEq

/-- What a flow waits for, with what it has captured. -/
inductive Stage
  | query (query : Query) (generation : Nat) (accountSub : Text)
  | queryAgain (query : Query) (generation : Nat)
  | userInfo (generation : Nat) (accountSub : Text) (caller : Caller)
  | userInfoAgain (generation : Nat) (accountSub : Text) (caller : Caller)
  | refreshNow (refresh : Nat) (state : StoredState) (generation : Nat) (after : After)
  | tickRefresh (refresh : Nat) (state : StoredState) (generation : Nat)
  deriving DecidableEq

structure Flow where
  id : Nat
  call : Call
  stage : Stage

/-- The refresh timer: the state it captured, and before which time it only schedules again. -/
structure Timer where
  state : StoredState
  fireAt : Option Int
  deriving DecidableEq

structure State where
  now : Int
  session : Nat
  current : Option StoredState
  tokenFile : Option TokenFile
  pointsBalance : Option Nat
  refreshError : Option ErrorCode
  refreshRetryAttempt : Nat
  refreshTimer : Option Timer
  refreshScheduledAt : Option Int
  gatewayInfoTimer : Bool
  gatewayInfoAttempt : Nat
  authGeneration : Nat
  inFlightRefresh : Option Nat
  lastHandledRefreshFailure : Option Nat
  refreshes : List Refresh
  flows : List Flow
  nextId : Nat

namespace State

variable (s : State)

/-! ## Timers and files -/

def syncTokenFile (state : StoredState) : State := { s with tokenFile := some state.tokenFile }

def cancelRefresh : State := { s with refreshTimer := none, refreshScheduledAt := none }

def scheduleRefresh (state : StoredState) : State :=
  let fireAt := state.tokens.expiresAt - refreshAdvance
  if fireAt ≤ s.now then
    { s with refreshScheduledAt := some s.now, refreshTimer := some ⟨state, none⟩ }
  else
    { s with
      refreshScheduledAt := some (s.now + min (fireAt - s.now) maxTimeout)
      refreshTimer := some ⟨state, some fireAt⟩ }

def scheduleGatewayInfoRetry : State :=
  if s.gatewayInfoTimer ∨ gatewayInfoRetryLimit ≤ s.gatewayInfoAttempt then s
  else { s with gatewayInfoTimer := true, gatewayInfoAttempt := s.gatewayInfoAttempt + 1 }

def cancelGatewayInfoRetry : State := { s with gatewayInfoTimer := false, gatewayInfoAttempt := 0 }

/-! ## Login and logout -/

def persistLogin (state : StoredState) : State :=
  let s := { s with
    session := s.session + 1
    current := some state
    refreshError := none
    refreshRetryAttempt := 0 }
  let s := ((s.scheduleRefresh state).syncTokenFile state).cancelGatewayInfoRetry
  if isGatewayUsable state then s else s.scheduleGatewayInfoRetry

def logout : State :=
  { s.cancelRefresh.cancelGatewayInfoRetry with
    session := s.session + 1
    authGeneration := s.authGeneration + 1
    inFlightRefresh := none
    current := none
    tokenFile := none
    refreshError := none
    refreshRetryAttempt := 0
    pointsBalance := none }

def logoutSessionExpired (generation : Nat) : State :=
  if s.authGeneration ≠ generation then s else s.logout

/-! ## Refreshes -/

/-- A flow that waits from now on. -/
def await (stage : Stage) : State :=
  { s with
    flows := ⟨s.nextId, ⟨s.session, s.authGeneration⟩, stage⟩ :: s.flows
    nextId := s.nextId + 1 }

/-- `doRefresh`, up to its platform call. -/
def doRefresh (state : StoredState) : State × Nat :=
  match s.inFlightRefresh with
  | some id => (s, id)
  | none =>
    ({ s with
        refreshes := ⟨s.nextId, state, ⟨s.session, s.authGeneration⟩, none⟩ :: s.refreshes
        inFlightRefresh := some s.nextId
        nextId := s.nextId + 1 }, s.nextId)

/-- The retry of a refresh that failed for a while. -/
def retryRefresh (state : StoredState) : State :=
  { s with
    refreshRetryAttempt := s.refreshRetryAttempt + 1
    refreshScheduledAt :=
      some (s.now + min (refreshRetryBase * 2 ^ s.refreshRetryAttempt) refreshRetryMax)
    refreshTimer := some ⟨state, none⟩ }

def handleRefreshFailure (code : ErrorCode) (state : StoredState) (generation : Nat) : State :=
  if s.authGeneration ≠ generation then s
  else
    let s := { s with refreshError := some code }
    if isPermanentRefreshError code then s.logoutSessionExpired generation else s.retryRefresh state

/-- How a refresh ends. -/
def settle (r : Refresh) (result : Except Failure Unit) : State :=
  { s with
    refreshes := s.refreshes.map fun r' =>
      if r'.id = r.id then { r' with settled := some result } else r'
    inFlightRefresh := if s.authGeneration = r.call.generation then none else s.inFlightRefresh }

/-- `runRefresh` from the answer of the platform on, with the `finally` of `doRefresh`. -/
def runRefresh (r : Refresh) (reply : Except Failure Tokens) : State :=
  match reply with
  | .error e => s.settle r (.error e)
  | .ok tokens =>
    if s.authGeneration ≠ r.call.generation then s.settle r (.ok ())
    else
      let next := { r.state with tokens := tokens }
      let s := (({ s with current := some next }).scheduleRefresh next).syncTokenFile next
      s.settle r (.ok ())

/-! ## Flows -/

/-- What waits for `syncAccountInfo` goes on: a query is asked again in an unchanged login. -/
def resume (caller : Caller) : State :=
  match caller with
  | .nobody => s
  | .query q generation accountSub =>
    match s.current with
    | none => s
    | some fresh =>
      if s.authGeneration ≠ generation ∨ fresh.account.sub ≠ accountSub then s
      else s.await (.queryAgain q generation)

def syncAccountInfo (caller : Caller) : State :=
  match s.current with
  | none => s.resume caller
  | some state => s.await (.userInfo s.authGeneration state.account.sub caller)

/-- What follows a `refreshNow` that failed. -/
def notRefreshed (after : After) : State :=
  match after with
  | .syncAccountInfo _ => s
  | .fetchUserInfo _ _ caller => s.resume caller

def refreshNow (after : After) : State :=
  match s.current with
  | none => s.notRefreshed after
  | some state =>
    let (s, id) := s.doRefresh state
    s.await (.refreshNow id state s.authGeneration after)

def tickRefresh (state : StoredState) : State :=
  match s.current with
  | none => s
  | some _ =>
    let (s, id) := s.doRefresh state
    s.await (.tickRefresh id state s.authGeneration)

/-- A refresh that succeeded, for those who wait for it. -/
def refreshed : State := { s with refreshRetryAttempt := 0, refreshError := none }

/-- `refreshNow` after its refresh. -/
def afterRefreshNow (id : Nat) (state : StoredState) (generation : Nat) (after : After) :
    Except Failure Unit → State
  | .ok () =>
    match after with
    | .syncAccountInfo caller => s.refreshed.syncAccountInfo caller
    | .fetchUserInfo gen accountSub caller =>
      match s.current with
      | none => s.refreshed.resume caller
      | some _ => s.refreshed.await (.userInfoAgain gen accountSub caller)
  | .error .unknown => s.notRefreshed after
  | .error (.qraft code) =>
    if s.lastHandledRefreshFailure = some id then s.notRefreshed after
    else
      (({ s with lastHandledRefreshFailure := some id }).handleRefreshFailure code state
        generation).notRefreshed after

/-- `tickRefresh` after its refresh. -/
def afterTickRefresh (id : Nat) (state : StoredState) (generation : Nat) :
    Except Failure Unit → State
  | .ok () => s.refreshed.syncAccountInfo .nobody
  | .error e =>
    if s.current = none ∨ s.lastHandledRefreshFailure = some id then s
    else
      let code := match e with
        | .qraft code => code
        | .unknown => .refreshFailed
      ({ s with lastHandledRefreshFailure := some id }).handleRefreshFailure code state generation

/-- A balance: `fetchPointsBalance` drops it after a logout. -/
def showBalance (q : Query) (balance : Nat) : State :=
  match q with
  | .pointsBalance =>
    match s.current with
    | none => s
    | some _ => { s with pointsBalance := some balance }
  | .slurmCharge => { s with pointsBalance := some balance }

/-- The first answer of a query. -/
def afterQuery (q : Query) (generation : Nat) (accountSub : Text) : Except Failure Nat → State
  | .ok balance => s.showBalance q balance
  | .error e =>
    if e = .qraft .sessionExpired then
      s.refreshNow (.syncAccountInfo (.query q generation accountSub))
    else s

/-- The answer of a query that was asked again. -/
def afterQueryAgain (q : Query) (generation : Nat) : Except Failure Nat → State
  | .ok balance => s.showBalance q balance
  | .error e => if e = .qraft .sessionExpired then s.logoutSessionExpired generation else s

end State

/-- What a new answer of `userinfo` makes of the stored state. -/
def StoredState.withInfo (state : StoredState) (info : UserInfo) : StoredState :=
  { state with
    account := { state.account with
      sub := if info.sub = [] then state.account.sub else info.sub
      username := if info.username = [] then state.account.username else info.username
      nickname := if info.nickname = [] then state.account.nickname else info.nickname }
    aiGateway := info.aiGateway.or state.aiGateway
    mcpGatewayKey :=
      (info.mcpGatewayKey.filter fun key => decide (key ≠ [])).or state.mcpGatewayKey }

namespace State

variable (s : State)

/-- Whether `syncAccountInfo` keeps an answer: the login has not changed, and the answer is about
its account. -/
def keepsInfo (generation : Nat) (accountSub : Text) (info : UserInfo) (current : StoredState) :
    Bool :=
  decide (s.authGeneration = generation ∧ current.account.sub = accountSub ∧
    ¬ (info.sub ≠ [] ∧ accountSub ≠ [] ∧ info.sub ≠ accountSub))

/-- `syncAccountInfo` with its answer. -/
def saveInfo (generation : Nat) (accountSub : Text) (info : UserInfo) : State :=
  match s.current with
  | none => s
  | some current =>
    if s.keepsInfo generation accountSub info current then
      let next := current.withInfo info
      let s := ({ s with current := some next }).syncTokenFile next
      if isGatewayUsable next then s.cancelGatewayInfoRetry else s.scheduleGatewayInfoRetry
    else s

/-- `syncAccountInfo` after its first call. -/
def afterUserInfo (generation : Nat) (accountSub : Text) (caller : Caller) :
    Except Failure UserInfo → State
  | .ok info => (s.saveInfo generation accountSub info).resume caller
  | .error e =>
    if e = .qraft .sessionExpired then s.refreshNow (.fetchUserInfo generation accountSub caller)
    else s.scheduleGatewayInfoRetry.resume caller

/-- `syncAccountInfo` after its call with the refreshed token. -/
def afterUserInfoAgain (generation : Nat) (accountSub : Text) (caller : Caller) :
    Except Failure UserInfo → State
  | .ok info => (s.saveInfo generation accountSub info).resume caller
  | .error _ => s.scheduleGatewayInfoRetry.resume caller

/-- A balance is asked for: `fetchPointsBalance`, or `runSlurmCharge` of a job not billed yet. -/
def ask (q : Query) : State :=
  match s.current with
  | none => s
  | some state => s.await (.query q s.authGeneration state.account.sub)

/-- The refresh timer fires. -/
def fire (timer : Timer) : State :=
  let s := { s with refreshTimer := none }
  match timer.fireAt with
  | some fireAt =>
    if s.now < fireAt then s.scheduleRefresh timer.state else s.tickRefresh timer.state
  | none => s.tickRefresh timer.state

end State

/-! ## Runs -/

inductive Event
  /-- The end of `login` or `loginWithCode`, with the balance it asks for. -/
  | login (state : StoredState)
  | logout
  | ask (query : Query)
  | refreshNow
  | tick
  | gatewayTick
  | wait (ms : Nat)
  /-- The answers of the platform to a refresh and to the call of a flow. -/
  | tokens (refresh : Nat) (reply : Except Failure Tokens)
  | balance (flow : Nat) (reply : Except Failure Nat)
  | info (flow : Nat) (reply : Except Failure UserInfo)
  /-- A flow goes on after the refresh it waits for. -/
  | settled (flow : Nat)

namespace State

variable (s : State)

def flow? (id : Nat) : Option Flow := s.flows.find? fun f => decide (f.id = id)

def refresh? (id : Nat) : Option Refresh := s.refreshes.find? fun r => decide (r.id = id)

/-- The state without a flow that goes on. -/
def leave (id : Nat) : State := { s with flows := s.flows.filter fun f => decide (f.id ≠ id) }

end State

/-- The refresh a stage waits for. -/
def Stage.refresh : Stage → Option Nat
  | .refreshNow id .. => some id
  | .tickRefresh id .. => some id
  | _ => none

/-- A flow after the refresh it waited for. -/
def State.afterRefresh (s : State) (stage : Stage) (result : Except Failure Unit) : Option State :=
  match stage with
  | .refreshNow id state generation after =>
    some (s.afterRefreshNow id state generation after result)
  | .tickRefresh id state generation => some (s.afterTickRefresh id state generation result)
  | _ => none

/-- How the refresh of a flow ended. -/
def State.outcome (s : State) (f : Flow) : Option (Except Failure Unit) :=
  (f.stage.refresh.bind s.refresh?).bind Refresh.settled

def step (s : State) : Event → Option State
  | .login state => some ((s.persistLogin state).ask .pointsBalance)
  | .logout => some s.logout
  | .ask q => some (s.ask q)
  | .refreshNow => some (s.refreshNow (.syncAccountInfo .nobody))
  | .tick => s.refreshTimer.map s.fire
  | .gatewayTick =>
    if s.gatewayInfoTimer then some (({ s with gatewayInfoTimer := false }).syncAccountInfo .nobody)
    else none
  | .wait ms => some { s with now := s.now + ms }
  | .tokens id reply =>
    (s.refresh? id).bind fun r =>
      match r.settled with
      | some _ => none
      | none => some (s.runRefresh r reply)
  | .balance id reply =>
    (s.flow? id).bind fun f =>
      match f.stage with
      | .query q generation accountSub =>
        some ((s.leave id).afterQuery q generation accountSub reply)
      | .queryAgain q generation => some ((s.leave id).afterQueryAgain q generation reply)
      | _ => none
  | .info id reply =>
    (s.flow? id).bind fun f =>
      match f.stage with
      | .userInfo generation accountSub caller =>
        some ((s.leave id).afterUserInfo generation accountSub caller reply)
      | .userInfoAgain generation accountSub caller =>
        some ((s.leave id).afterUserInfoAgain generation accountSub caller reply)
      | _ => none
  | .settled id =>
    (s.flow? id).bind fun f =>
      (s.outcome f).bind fun result => (s.leave id).afterRefresh f.stage result

/-- A new process with the state its store loads. -/
def start (now : Int) (stored : Option StoredState) : State :=
  let s : State :=
    { now := now
      session := 0
      current := stored
      tokenFile := none
      pointsBalance := none
      refreshError := none
      refreshRetryAttempt := 0
      refreshTimer := none
      refreshScheduledAt := none
      gatewayInfoTimer := false
      gatewayInfoAttempt := 0
      authGeneration := 0
      inFlightRefresh := none
      lastHandledRefreshFailure := none
      refreshes := []
      flows := []
      nextId := 0 }
  match stored with
  | none => s
  | some state => ((s.scheduleRefresh state).syncTokenFile state).syncAccountInfo .nobody

end MiqroForge.Qraft
