import MiqroForge.Library.Steps
import MiqroForge.Kun.SessionStore
import Mathlib.Data.List.Sort

/-!
One turn of `AgentLoop`: rounds of a model stream and the dispatch of the calls it made,
with the repeat-loop guard and the budget gate of the fast mode. A step goes from one
suspension point to the next.
-/

namespace MiqroForge.Kun.Loop

open PyText Json

/-! ## The repeat-loop guard -/

/-- A tool call as received from the model. -/
structure ToolCall where
  callId : Text
  toolName : Text
  arguments : Dict

mutual

/-- The fields of every dictionary in the order of `sort_keys=True`. -/
def sortKeys : Value → Value
  | .arr xs => .arr (sortKeysAll xs)
  | .obj fields => .obj ((sortKeysFields fields).insertionSort fun a b => a.1 ≤ b.1)
  | v => v

def sortKeysAll : List Value → List Value
  | [] => []
  | x :: xs => sortKeys x :: sortKeysAll xs

def sortKeysFields : Dict → Dict
  | [] => []
  | (k, v) :: fields => (k, sortKeys v) :: sortKeysFields fields

end

/-- `_stable_json`: arguments that came as JSON can be dumped. -/
def stableJson (args : Dict) : Text := print (sortKeys (.obj args))

/-- What the guard compares calls by. -/
def ToolCall.fingerprint (call : ToolCall) : Text × Text :=
  (call.toolName, stableJson call.arguments)

def stormExemptTools : List Text :=
  ["request_user_input".toList, "user_input".toList, "ask_user".toList,
    "ask_user_confirm_card".toList]

def ToolCall.exempt (call : ToolCall) : Bool := stormExemptTools.contains call.toolName

structure ToolStormBreaker where
  windowSize : Nat
  threshold : Nat
  recent : List (Text × Text)

def ToolStormBreaker.new (windowSize threshold : Int) : ToolStormBreaker :=
  ⟨(max 1 windowSize).toNat, (max 2 threshold).toNat, []⟩

/-- The records of the same call in the window. -/
def ToolStormBreaker.count (b : ToolStormBreaker) (call : ToolCall) : Nat :=
  b.recent.count call.fingerprint

def ToolStormBreaker.suppresses (b : ToolStormBreaker) (call : ToolCall) : Bool :=
  !call.exempt && decide (b.threshold - 1 ≤ b.count call)

def ToolStormBreaker.reason (b : ToolStormBreaker) (call : ToolCall) : Text :=
  call.toolName ++ " was called with identical arguments ".toList ++
    (toString (b.count call + 1)).toList ++
    " times in this turn; repeat-loop guard suppressed the duplicate.".toList

/-- What `inspect` leaves in the window of a call that it lets pass. -/
def ToolStormBreaker.record (b : ToolStormBreaker) (call : ToolCall) : ToolStormBreaker :=
  if call.exempt then b
  else
    { b with
      recent := (b.recent ++ [call.fingerprint]).drop (b.recent.length + 1 - b.windowSize) }

/-! ## The turn -/

/-- What the turn appends to the session store. -/
inductive Item where
  | userMessage (text : Text)
  | compaction (summary : Text)
  | assistantText (text : Text)
  | assistantReasoning (text : Text)
  | toolCall (call : ToolCall)
  | toolResult (callId toolName status output : Text) (isError : Bool)

/-- What happens to the calls, in order. -/
inductive Act where
  | ready (call : ToolCall)
  | executed (call : ToolCall)
  | suppressed (call : ToolCall)
  | skipped (call : ToolCall)

/-- What one model stream has given so far. -/
structure Stream where
  text : Text := []
  reasoning : Text := []
  calls : List ToolCall := []
  stopReason : Text := "stop".toList

inductive Chunk where
  | assistantTextDelta (text : Text)
  | assistantReasoningDelta (text : Text)
  | toolCallComplete (call : ToolCall)
  | usage
  | completed (stopReason : Text)
  | error (message : Text)

inductive Status where
  | completed
  | failed
  | aborted
  deriving DecidableEq

/-- The suspension points of `_loop`, with the calls still to dispatch. -/
inductive Phase where
  | idle
  | streaming (acc : Stream)
  | dispatching (calls : List ToolCall)
  | executing (call : ToolCall) (calls : List ToolCall)
  | batching (batch calls : List ToolCall)
  | gathering (batch calls : List ToolCall)
  | ended (status : Status)

/-- What `tool_host.execute` did: the fields of its result item, or an exception. -/
inductive Outcome where
  | returned (status output : Text) (isError : Bool)
  | raised (message : Text)

/-- The options of the loop and the tool policy of the thread's mode. -/
structure Options where
  toolStorm : Option (Int × Int)
  approvalPolicy : Text
  maxToolRounds : Option Nat
  parallelLimit : Option Nat
  maxSearchPhase : Option Nat
  timeBudget : Option Nat
  finalizationGrace : Nat

/-- `value or default`. -/
def orDefault (value : Option Nat) (default : Nat) : Nat :=
  match value with
  | some (n + 1) => n + 1
  | _ => default

structure LoopState where
  breaker : Option ToolStormBreaker
  finalizing : Bool
  searchPhases : Nat
  rounds : Nat
  items : List Item
  acts : List Act
  phase : Phase

def start (opts : Options) : LoopState where
  breaker := opts.toolStorm.map fun p => ToolStormBreaker.new p.1 p.2
  finalizing := false
  searchPhases := 0
  rounds := 0
  items := []
  acts := []
  phase := .idle

inductive Event where
  | round (elapsed : Nat) (steering : List Text) (summary : Option Text)
  | chunk (c : Chunk)
  | streamEnds
  | streamRaises
  | next
  | returns (status output : Text) (isError : Bool)
  | raises
  | gathered (outcomes : List Outcome)
  | abort

def parallelReadOnlyToolNames : List Text :=
  ["read".toList, "grep".toList, "find".toList, "ls".toList, "read_file".toList,
    "list_dir".toList, "web_search".toList, "web_fetch".toList, "paper_search".toList,
    "paper_get".toList]

def isParallelSafe (opts : Options) (call : ToolCall) : Bool :=
  parallelReadOnlyToolNames.contains call.toolName &&
    opts.approvalPolicy != "untrusted".toList && opts.approvalPolicy != "never".toList

/-- `_budget_skip_reason`, with the reason for a call that is skipped. -/
def budgetSkipReason (opts : Options) (s : LoopState) (call : ToolCall) : Option Text :=
  if s.finalizing then some "时间预算已到（极速模式收尾阶段，不再调用工具）".toList
  else if call.toolName = "web_search".toList ∧
      orDefault opts.maxSearchPhase 99 ≤ s.searchPhases then
    some "极速模式搜索预算已用尽（最多一轮搜索，已并行抓取）".toList
  else none

/-- The search phase that the gate counts for a call it lets pass. -/
def countSearch (s : LoopState) (call : ToolCall) : LoopState :=
  if call.toolName = "web_search".toList then { s with searchPhases := s.searchPhases + 1 } else s

def isSuppressed (s : LoopState) (call : ToolCall) : Bool := s.breaker.any (·.suppresses call)

def suppressReason (s : LoopState) (call : ToolCall) : Text :=
  match s.breaker with
  | some b => b.reason call
  | none => "duplicate tool call suppressed by repeat-loop guard".toList

/-- `_persist_suppressed_tool_call`. -/
def persistSuppressed (s : LoopState) (call : ToolCall) (reason : Text) (act : Act) : LoopState :=
  { s with
    items := s.items ++ [.toolResult call.callId call.toolName "failed".toList reason true]
    acts := s.acts ++ [act] }

def recordCall (s : LoopState) (call : ToolCall) : LoopState :=
  { s with breaker := s.breaker.map (·.record call) }

/-- The gate and the guard before a call is dispatched; `false` when it has its result. -/
def admitCall (opts : Options) (s : LoopState) (call : ToolCall) : LoopState × Bool :=
  match budgetSkipReason opts s call with
  | some reason => (persistSuppressed s call reason (.skipped call), false)
  | none =>
    if isSuppressed (countSearch s call) call then
      (persistSuppressed (countSearch s call) call (suppressReason s call) (.suppressed call), false)
    else (recordCall (countSearch s call) call, true)

/-- The chunk of a complete tool call. -/
def receiveCall (s : LoopState) (acc : Stream) (call : ToolCall) : LoopState :=
  if isSuppressed s call then
    persistSuppressed s call (suppressReason s call) (.suppressed call)
  else
    { recordCall s call with
      items := s.items ++ [.toolCall call]
      acts := s.acts ++ [.ready call]
      phase := .streaming { acc with calls := acc.calls ++ [call] } }

def receive (s : LoopState) (acc : Stream) : Chunk → LoopState
  | .assistantTextDelta text => { s with phase := .streaming { acc with text := acc.text ++ text } }
  | .assistantReasoningDelta text =>
    { s with phase := .streaming { acc with reasoning := acc.reasoning ++ text } }
  | .toolCallComplete call => receiveCall s acc call
  | .usage => s
  | .completed stopReason =>
    { s with phase := .streaming { acc with
        stopReason := if stopReason = [] then "stop".toList else stopReason } }
  | .error _ => { s with phase := .streaming { acc with stopReason := "error".toList } }

/-- The text items of a stream that ended. -/
def textItems (acc : Stream) : List Item :=
  (if acc.text = [] then [] else [.assistantText acc.text]) ++
    if acc.reasoning = [] then [] else [.assistantReasoning acc.reasoning]

def afterStream (acc : Stream) : Phase :=
  if acc.stopReason = "error".toList then .ended .failed
  else if acc.calls.isEmpty then .ended .completed
  else .dispatching acc.calls

/-- The time budget is used up, but for a grace period. -/
def spent (opts : Options) (elapsed grace : Nat) : Bool :=
  match opts.timeBudget with
  | some (budget + 1) => decide (budget + 1 ≤ elapsed + grace)
  | _ => false

/-- The top of `_loop`: the round cap, the hard stop, finalization, steering, compaction. -/
def beginRound (opts : Options) (s : LoopState) (elapsed : Nat) (steering : List Text)
    (summary : Option Text) : LoopState :=
  if s.rounds = orDefault opts.maxToolRounds 100 || spent opts elapsed 0 then
    { s with phase := .ended .completed }
  else
    { s with
      rounds := s.rounds + 1
      finalizing := s.finalizing || spent opts elapsed opts.finalizationGrace
      items := s.items ++ steering.map .userMessage ++ (summary.map .compaction).toList
      phase := .streaming {} }

/-- One pass of the dispatch loop. -/
def dispatch (opts : Options) (s : LoopState) : List ToolCall → LoopState
  | [] => { s with phase := .idle }
  | call :: calls =>
    match admitCall opts s call with
    | (t, false) => { t with phase := .dispatching calls }
    | (t, true) =>
      if isParallelSafe opts call then { t with phase := .batching [call] calls }
      else { t with phase := .executing call calls, acts := t.acts ++ [.executed call] }

def gather (s : LoopState) (batch calls : List ToolCall) : LoopState :=
  { s with phase := .gathering batch calls, acts := s.acts ++ batch.map .executed }

/-- One pass of the loop that fills a batch. -/
def extend (opts : Options) (s : LoopState) (batch : List ToolCall) : List ToolCall → LoopState
  | [] => gather s batch []
  | call :: calls =>
    if batch.length < orDefault opts.parallelLimit 3 ∧ isParallelSafe opts call then
      match admitCall opts s call with
      | (t, false) => { t with phase := .batching batch calls }
      | (t, true) => { t with phase := .batching (batch ++ [call]) calls }
    else gather s batch (call :: calls)

/-- The result item of a call of a batch. -/
def outcomeItem (call : ToolCall) : Outcome → Item
  | .returned status output isError => .toolResult call.callId call.toolName status output isError
  | .raised message =>
    .toolResult call.callId call.toolName "failed".toList
      ("Tool execution failed: ".toList ++ message) true

def step (opts : Options) (s : LoopState) : Event → Option LoopState
  | .round elapsed steering summary =>
    match s.phase with
    | .idle => some (beginRound opts s elapsed steering summary)
    | _ => none
  | .chunk c =>
    match s.phase with
    | .streaming acc => some (receive s acc c)
    | _ => none
  | .streamEnds =>
    match s.phase with
    | .streaming acc =>
      some { s with items := s.items ++ textItems acc, phase := afterStream acc }
    | _ => none
  | .streamRaises =>
    match s.phase with
    | .streaming _ => some { s with phase := .ended .failed }
    | _ => none
  | .next =>
    match s.phase with
    | .dispatching calls => some (dispatch opts s calls)
    | .batching batch calls => some (extend opts s batch calls)
    | _ => none
  | .returns status output isError =>
    match s.phase with
    | .executing call calls =>
      some { s with
        items := s.items ++ [.toolResult call.callId call.toolName status output isError]
        phase := .dispatching calls }
    | _ => none
  | .raises =>
    match s.phase with
    | .executing _ _ => some { s with phase := .ended .failed }
    | _ => none
  | .gathered outcomes =>
    match s.phase with
    | .gathering batch calls =>
      if outcomes.length = batch.length then
        some { s with
          items := s.items ++ List.zipWith outcomeItem batch outcomes
          phase := .dispatching calls }
      else none
    | _ => none
  | .abort =>
    -- where the token is looked at
    match s.phase with
    | .idle | .streaming _ | .dispatching _ => some { s with phase := .ended .aborted }
    | _ => none

end MiqroForge.Kun.Loop
