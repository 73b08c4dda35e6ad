import MiqroForge.Library.PyText
import MiqroForge.Library.Steps

/-!
The billing of Slurm jobs: `chargeSlurmJob` of `QraftService` in `service.ts` with the requests of
`QraftClient`, over all orders of reports, replies, logins, logouts and restarts.
-/

namespace MiqroForge.Billing

open PyText

/-! ## Accounts and deductions -/

/-- A login's account. The user of an account without a name is not known to the desktop. -/
structure Account where
  user : Text
  named : Bool
  deriving DecidableEq

def Account.sub (a : Account) : Text := if a.named then a.user else []

/-- What the platform is asked to bill: a job of a server, to an account. -/
structure Deduction where
  account : Account
  serverName : Text
  jobId : Text
  deriving DecidableEq

def slurmJobKey (accountSub serverName jobId : Text) : Text :=
  accountSub ++ ':' :: ':' :: (serverName ++ ':' :: ':' :: jobId)

/-- The key of a job for an account with a name. -/
def Deduction.jobKey (d : Deduction) : Text := slurmJobKey d.account.sub d.serverName d.jobId

inductive BillingStatus
  | billed
  | insufficient
  | error
  deriving DecidableEq

/-- `QraftBillingHistoryEntry`, as far as it is read again. -/
structure HistoryEntry where
  chargeId : Text
  status : BillingStatus
  deduction : Deduction

/-- The key of an entry. -/
def HistoryEntry.jobKey (e : HistoryEntry) : Text := e.deduction.jobKey

def maxBillingHistory : Nat := 200

/-- `DEFAULT_RETRIES`. -/
def retries : Nat := 3

/-! ## States -/

/-- Where a call of `runSlurmCharge` waits: for the reply to a request, which is an attempt of the
first or of the second deduction, or for a new token. -/
inductive Stage
  | deducting (attempt : Nat)
  | refreshing
  | retrying (attempt : Nat)
  deriving DecidableEq

structure Charge where
  id : Nat
  chargeId : Text
  deduction : Deduction
  generation : Nat
  stage : Stage

/-- A report of `chargeSlurmJob`: its identifiers, cut, and the account logged in. -/
structure Report where
  account : Option Account
  chargeId : Text
  serverName : Text
  jobId : Text
  deriving DecidableEq

/-- The keys of `inFlightCharges`. -/
inductive InFlightKey
  | charge (chargeId : Text)
  | job (key : Text)
  deriving DecidableEq

structure Answer where
  report : Report
  ok : Bool

structure State where
  current : Option Account
  authGeneration : Nat
  history : List HistoryEntry
  /-- The file of billed job keys. -/
  billedIndex : List Text
  billedChargeIds : List Text
  billedJobIds : List Text
  inFlight : InFlightKey → Option Nat
  charges : List Charge
  nextId : Nat
  /-- The reports that wait for the result of a charge. -/
  waiting : List (Report × Nat)
  answers : List Answer
  /-- The deductions the platform has applied. -/
  applied : List Deduction
  /-- All reports so far that hold their identifiers. -/
  reports : List Report

def initial : State where
  current := none
  authGeneration := 0
  history := []
  billedIndex := []
  billedChargeIds := []
  billedJobIds := []
  inFlight := fun _ => none
  charges := []
  nextId := 0
  waiting := []
  answers := []
  applied := []
  reports := []

namespace State

variable (s : State)

/-! ## Reports -/

/-- The job key of an account, none without a name. -/
def jobKeyOf (a : Account) (serverName jobId : Text) : Option Text :=
  if a.sub = [] then none else some (slurmJobKey a.sub serverName jobId)

/-- The charge in flight that a report joins. -/
def joined (r : Report) : Option Nat :=
  (s.inFlight (.charge r.chargeId)).or
    ((r.account.bind fun a => jobKeyOf a r.serverName r.jobId).bind fun key =>
      s.inFlight (.job key))

/-- The entry of the history that answers a report. -/
def recorded (chargeId : Text) (key : Option Text) : Option HistoryEntry :=
  (s.history.find? fun e => decide (e.chargeId = chargeId)).or
    (key.bind fun k =>
      s.history.find? fun e => decide (e.status = .billed) && decide (e.jobKey = k))

/-- The first deduction of a charge. -/
def start (a : Account) (r : Report) : State :=
  let charge : Charge :=
    { id := s.nextId
      chargeId := r.chargeId
      deduction := ⟨a, r.serverName, r.jobId⟩
      generation := s.authGeneration
      stage := .deducting 0 }
  { s with
    charges := charge :: s.charges
    nextId := s.nextId + 1
    waiting := (r, s.nextId) :: s.waiting
    inFlight := fun k =>
      if k = .charge r.chargeId ∨ some k = (jobKeyOf a r.serverName r.jobId).map .job then
        some s.nextId
      else s.inFlight k }

def answer (r : Report) (ok : Bool) : State := { s with answers := ⟨r, ok⟩ :: s.answers }

/-- `runSlurmCharge` up to its first request. -/
def runSlurmCharge (r : Report) : State :=
  match r.account with
  | none => s.answer r false
  | some a =>
    let key := jobKeyOf a r.serverName r.jobId
    match s.recorded r.chargeId key with
    | some e => s.answer r (decide (e.status = .billed))
    | none =>
      if r.chargeId ∈ s.billedChargeIds ∨ ∃ k ∈ key, k ∈ s.billedJobIds then s.answer r true
      else s.start a r

/-- A report of the account logged in. -/
def reportOf (chargeId serverName jobId : Text) : Report where
  account := s.current
  chargeId := chargeId.take 128
  serverName := serverName.take 64
  jobId := jobId.take 64

def chargeSlurmJob (chargeId serverName jobId : Text) : State :=
  let r := s.reportOf chargeId serverName jobId
  if r.chargeId = [] ∨ r.jobId = [] then s.answer r false
  else
    let s' := { s with reports := r :: s.reports }
    match s.joined r with
    | some id => { s' with waiting := (r, id) :: s.waiting }
    | none => s'.runSlurmCharge r

/-! ## The end of a charge -/

/-- The answer to all who wait for a charge, and the `finally` of the one that began it. -/
def finish (c : Charge) (ok : Bool) : State :=
  { s with
    charges := s.charges.filter fun c' => decide (c'.id ≠ c.id)
    waiting := s.waiting.filter fun w => decide (w.2 ≠ c.id)
    answers := (s.waiting.filter fun w => decide (w.2 = c.id)).map (fun w => ⟨w.1, ok⟩) ++ s.answers
    inFlight := fun k =>
      if k = .charge c.chargeId ∨
          some k = (jobKeyOf c.deduction.account c.deduction.serverName c.deduction.jobId).map .job
        then none
      else s.inFlight k }

/-- `appendBillingHistory`. -/
def appendHistory (c : Charge) (status : BillingStatus) : State :=
  { s with history := (⟨c.chargeId, status, c.deduction⟩ :: s.history).take maxBillingHistory }

/-- The keys of a billed charge in memory and in the file. -/
def recordBilled (c : Charge) : State :=
  match jobKeyOf c.deduction.account c.deduction.serverName c.deduction.jobId with
  | some key =>
    { s with
      billedChargeIds := c.chargeId :: s.billedChargeIds
      billedJobIds := key :: s.billedJobIds
      billedIndex := if key ∈ s.billedIndex then s.billedIndex else s.billedIndex ++ [key] }
  | none => { s with billedChargeIds := c.chargeId :: s.billedChargeIds }

def succeed (c : Charge) : State := ((s.recordBilled c).appendHistory c .billed).finish c true

def fail (c : Charge) (status : BillingStatus) : State := (s.appendHistory c status).finish c false

/-- A charge that goes on waiting. -/
def setStage (c : Charge) (stage : Stage) : State :=
  { s with
    charges := s.charges.map fun c' => if c'.id = c.id then { c' with stage := stage } else c' }

/-- `logout`, as far as charges go. -/
def logout : State :=
  { s with current := none, authGeneration := s.authGeneration + 1, inFlight := fun _ => none }

/-! ## Replies -/

/-- What becomes of a request: it is applied, refused for one of the reasons the code tells apart,
or fails in another way, with the deduction applied or not. -/
inductive Reply
  | done
  | insufficient
  | expired
  | broken (applied : Bool)
  | lost (applied : Bool)
  deriving DecidableEq

/-- Whether the platform has applied the deduction. -/
def Reply.applied : Reply → Bool
  | .done => true
  | .broken applied => applied
  | .lost applied => applied
  | _ => false

/-- The platform's side of a request. -/
def apply (d : Deduction) (applied : Bool) : State :=
  if applied then { s with applied := d :: s.applied } else s

/-- The desktop's side of the reply to a charge. -/
def receive (c : Charge) (reply : Reply) : State :=
  match reply with
  | .done => s.succeed c
  | .insufficient => s.fail c .insufficient
  | .broken _ => s.fail c .error
  | .lost _ =>
    match c.stage with
    | .deducting attempt =>
      if attempt < retries then s.setStage c (.deducting (attempt + 1)) else s.fail c .error
    | .retrying attempt =>
      if attempt < retries then s.setStage c (.retrying (attempt + 1)) else s.fail c .error
    | .refreshing => s
  | .expired =>
    match c.stage with
    | .deducting _ => s.setStage c .refreshing
    | .retrying _ =>
      -- A platform that refuses the new token ends the login of this charge.
      (if s.authGeneration = c.generation then s.logout else s).fail c .error
    | .refreshing => s

/-- The end of the refresh a charge waits for. -/
def resume (c : Charge) (refreshed : Bool) : State :=
  match refreshed, s.current with
  | true, some fresh =>
    if s.authGeneration = c.generation ∧ fresh.sub = c.deduction.account.sub then
      { s with
        charges := s.charges.map fun c' =>
          if c'.id = c.id then
            { c' with stage := .retrying 0, deduction := { c'.deduction with account := fresh } }
          else c' }
    else s.fail c .error
  | _, _ => s.fail c .error

/-- A new process. -/
def restart : State :=
  { s with
    authGeneration := 0
    billedChargeIds :=
      (s.history.filter fun e => decide (e.status = .billed)).map HistoryEntry.chargeId
    billedJobIds := s.billedIndex
    inFlight := fun _ => none
    charges := []
    waiting := [] }

end State

/-! ## Runs -/

inductive Event
  | report (chargeId serverName jobId : Text)
  | reply (id : Nat) (reply : State.Reply)
  | refreshed (id : Nat) (ok : Bool)
  | login (account : Account)
  /-- The name of the account comes with its details. -/
  | identify
  | logout
  /-- A new process, with the requests still out that the platform applies. -/
  | restart (applied : List Nat)

/-- A charge whose request is out. -/
def Charge.isOut (c : Charge) : Bool := decide (c.stage ≠ .refreshing)

def step (s : State) : Event → Option State
  | .report chargeId serverName jobId => some (s.chargeSlurmJob chargeId serverName jobId)
  | .reply id reply =>
    match s.charges.find? fun c => decide (c.id = id) with
    | none => none
    | some c => if c.isOut then some ((s.apply c.deduction reply.applied).receive c reply) else none
  | .refreshed id ok =>
    match s.charges.find? fun c => decide (c.id = id) with
    | none => none
    | some c => if c.isOut then none else some (s.resume c ok)
  | .login account => some { s with current := some account }
  | .identify => some { s with current := s.current.map fun a => { a with named := true } }
  | .logout => some s.logout
  | .restart applied =>
    some ({ s with
      applied := ((s.charges.filter fun c => c.isOut && applied.contains c.id).map
        Charge.deduction) ++ s.applied } : State).restart

end MiqroForge.Billing
