import MiqroForge.Session.UserTurn

/-!
When an accepted turn ends. Every part of the handler follows the list of its calls, so
a turn ends properly exactly when no call before the main `try` fails and no call of the
`except` clause it enters does.
-/

namespace MiqroForge.Session

open Calls

/-- The terminal events of a turn the handler put. -/
def Runner.terminals (turnId : String) (r : Runner) : Nat :=
  r.events.countP (TurnEvent.terminates turnId)

/-- `p` makes the calls `calls` and puts `n` terminal events of the turn. -/
abbrev Makes (env : Env) (turnId : String) (calls : List Call) (n : Nat) (p : Turn Unit) : Prop :=
  Follows env.fault (Runner.terminals turnId) calls n p

/-! ## The calls of each part -/

/-- The calls of a `try` block with an `except Exception` clause. -/
def excepted (env : Env) (calls handler : List Call) : List Call :=
  match calls.findSome? env.fault with
  | none => calls
  | some .raised => handler
  | some .cancelled => calls

/-- The calls that are made when one of them faults. -/
def faultCalls (calls handler : List Call) : Fault → List Call
  | .raised => handler
  | .cancelled => calls

def prepareCalls (env : Env) (msg : UserMessage) : List Call :=
  List.flatten
    [[.resolveAgent],
      [if env.capabilityResolver then .resolveCapabilities else .getDefinitions],
      if env.workspace then [.describeExecEnvironment] else [],
      if env.workspace then excepted env [.buildSkillsSummary] [] else [],
      if msg.content.startsWith "/" && env.pluginManager then [.getSlashCommand] else [],
      if given msg.resumeTurnId && env.historyRuntime then excepted env [.getSnapshot] [] else [],
      [.permissionProfile]]

def autoCompactCalls (env : Env) : List Call :=
  excepted env [.compactThread, .putContextCompacted, .reloadMessages] [.putCompactionError]

def startTurnCalls (env : Env) (msg : UserMessage) (threadId : String) : List Call :=
  List.flatten
    [if given msg.dropFromTurnId && env.historyRuntime then [.truncateFromTurn] else [],
      if given msg.dropFromTurnId && env.historyRuntime && !env.removedTurnIds.isEmpty &&
          env.ledgerRuntime then [.appendRollbackMarker] else [],
      if env.historyRuntime then [.startTurn] else [],
      if env.historyRuntime then [.loadMessages] else [],
      if env.ledgerRuntime then [.ledgerTurnStarted] else [],
      if env.historyRuntime && env.contextRuntime && env.contextLimitChars != 0 then
        .shouldAutoCompact :: if env.shouldCompact then autoCompactCalls env else []
      else [],
      [.putTurnStarted],
      if !resumes env msg threadId then
        List.flatten
          [excepted env [.saveUserMessage] [],
            if env.historyRuntime then [.appendUserMessage] else [],
            if env.ledgerRuntime then [.ledgerUserMessage] else []]
      else []]

def abortBeforeStartCalls (env : Env) : List Call :=
  List.flatten
    [if env.historyRuntime then [.completeAborted] else [],
      if env.ledgerRuntime then [.ledgerTurnAborted] else [],
      [.putTurnAborted]]

def persistCalls (env : Env) (i : Nat) : List Call :=
  List.flatten
    [excepted env [.saveMessage i] [],
      if env.historyRuntime then [.appendMessage i] else [],
      if env.ledgerRuntime then [.ledgerMessage i] else []]

def runTurnCalls (env : Env) (msg : UserMessage) (threadId : String) : List Call :=
  List.flatten
    [[.runTurn],
      (List.range env.deltaLength).flatMap (persistCalls env),
      if env.historyRuntime then [.completeTurn] else [],
      if resumes env msg threadId && env.historyRuntime then [.deleteSnapshot] else [],
      if env.ledgerRuntime then [.ledgerTurnCompleted] else [],
      [.putAgentMessage],
      [.putTurnComplete]]

def tryCalls (env : Env) (msg : UserMessage) (threadId : String) : List Call :=
  startTurnCalls env msg threadId ++
    if env.cancelSet then abortBeforeStartCalls env else runTurnCalls env msg threadId

def exceptCancelledCalls (env : Env) : List Call :=
  List.flatten
    [if env.historyRuntime then [.completeCancelled] else [],
      if env.ledgerRuntime then [.ledgerCancelled] else [],
      [.putCancelled]]

def exceptExceptionCalls (env : Env) : List Call :=
  List.flatten
    [[.classifyChain],
      if env.historyRuntime then [.completeFailed] else [],
      if env.ledgerRuntime then [.ledgerError] else [],
      [.putError],
      [.putTurnFailed]]

/-! ## Every part makes its calls -/

section Parts

variable (env : Env) (turnId threadId : String)

theorem makes_await (c : Call) : Makes env turnId [c] 0 (await env c) :=
  follows_call (fun c => onRegistry (env.others c)) (fun _ _ => rfl) c

theorem makes_put (c : Call) (event : TurnEvent) (n : Nat)
    (hn : n = if event.terminates turnId then 1 else 0) :
    Makes env turnId [c] n (put env c event) := by
  refine (makes_await env turnId c).seq (follows_update fun r => ?_)
  show (r.events ++ [event]).countP _ = r.events.countP _ + n
  rw [List.countP_append, List.countP_singleton, hn]

theorem makes_appendItem (c : Call) (item : Replay.Body) :
    Makes env turnId [c] 0 (appendItem env c item) := by
  unfold appendItem when
  split
  · have hwrite : Makes env turnId [] 0
        (update fun r => { r with ledger := r.ledger ++ [item] }) := follows_update fun _ => rfl
    exact hwrite.seq (makes_await env turnId c)
  · exact follows_pure.seq (makes_await env turnId c)

theorem makes_excepted {calls handler : List Call} {p h : Turn Unit}
    (hp : Makes env turnId calls 0 p) (hh : Makes env turnId handler 0 h) :
    Makes env turnId (excepted env calls handler) 0 (tryCatch p (onException h)) := by
  have key := hp.tryCatch (h := onException h)
    (faultCalls calls handler) ?_
  · unfold excepted
    cases hc : calls.findSome? env.fault with
    | none => simpa only [hc] using key
    | some e => cases e <;> simpa only [hc, faultCalls] using key
  · intro e he
    cases e with
    | raised => exact hh
    | cancelled => exact follows_throw he

variable (msg : UserMessage)

theorem prepare_makes :
    Makes env turnId (prepareCalls env msg) 0 (prepare env msg) := by
  have hskip : Makes env turnId [] 0 (pure ()) := follows_pure
  unfold prepareCalls prepare
  exact (makes_await _ _ _).seq
    ((makes_await _ _ _).seq
    ((follows_when (makes_await _ _ _)).seq
    ((follows_when (makes_excepted _ _ (makes_await _ _ _) hskip)).seq
    ((follows_when (makes_await _ _ _)).seq
    ((follows_when (makes_excepted _ _ (makes_await _ _ _) hskip)).seq
    (makes_await _ _ _).last)))))

theorem autoCompact_makes :
    Makes env turnId (autoCompactCalls env) 0 (autoCompact env turnId threadId) := by
  have hinner : Makes env turnId [.compactThread, .putContextCompacted, .reloadMessages] 0 (do
      await env .compactThread
      put env .putContextCompacted (.contextCompacted turnId threadId)
      await env .reloadMessages) :=
    (makes_await _ _ _).seq ((makes_put _ _ _ _ 0 rfl).seq (makes_await _ _ _))
  exact makes_excepted _ _ hinner (makes_put _ _ _ _ 0 rfl)

theorem startTurn_makes :
    Makes env turnId (startTurnCalls env msg threadId) 0 (startTurn env msg turnId threadId) := by
  have hskip : Makes env turnId [] 0 (pure ()) := follows_pure
  have hcompact := (makes_await env turnId .shouldAutoCompact).seq
    (follows_when (b := env.shouldCompact) (autoCompact_makes env turnId threadId))
  have huser := (makes_excepted env turnId (makes_await env turnId .saveUserMessage) hskip).seq
    ((follows_when (b := env.historyRuntime) (makes_await env turnId .appendUserMessage)).seq
    (follows_when (b := env.ledgerRuntime) (makes_appendItem env turnId .ledgerUserMessage
      (.message (some "user") (userContent env msg)))).last)
  unfold startTurnCalls startTurn
  exact (follows_when (makes_await _ _ _)).seq
    ((follows_when (makes_await _ _ _)).seq
    ((follows_when (makes_await _ _ _)).seq
    ((follows_when (makes_await _ _ _)).seq
    ((follows_when (makes_appendItem _ _ _ _)).seq
    ((follows_when hcompact).seq
    ((makes_put _ _ _ _ 0 rfl).seq
    (follows_when huser).last))))))

theorem abortBeforeStart_makes :
    Makes env turnId (abortBeforeStartCalls env) 1 (abortBeforeStart env turnId threadId) := by
  unfold abortBeforeStartCalls abortBeforeStart
  exact (follows_when (makes_await _ _ _)).seq
    ((follows_when (makes_appendItem _ _ _ _)).seq
    (makes_put _ _ _ _ 1 (by simp [TurnEvent.terminates])).last)

theorem persist_makes (i : Nat) :
    Makes env turnId (persistCalls env i) 0 (persist env i) := by
  unfold persistCalls persist
  exact (makes_excepted _ _ (makes_await _ _ _) follows_pure).seq
    ((follows_when (makes_await _ _ _)).seq
    (follows_when (makes_appendItem _ _ _ _)).last)

theorem runTurn_makes :
    Makes env turnId (runTurnCalls env msg threadId) 1 (runTurn env msg turnId threadId) := by
  unfold runTurnCalls runTurn
  exact (makes_await _ _ _).seq
    ((follows_forM fun i _ => persist_makes env turnId i).seq
    ((follows_when (makes_await _ _ _)).seq
    ((follows_when (makes_await _ _ _)).seq
    ((follows_when (makes_appendItem _ _ _ _)).seq
    ((makes_put _ _ _ _ 0 rfl).seq
    (makes_put _ _ _ _ 1 (by simp [TurnEvent.terminates])).last)))))

theorem tryBlock_makes :
    Makes env turnId (tryCalls env msg threadId) 1 (tryBlock env msg turnId threadId) := by
  unfold tryCalls tryBlock
  exact (startTurn_makes env turnId threadId msg).seq
    (follows_ite (abortBeforeStart_makes env turnId threadId)
      (runTurn_makes env turnId threadId msg))

theorem exceptCancelled_makes :
    Makes env turnId (exceptCancelledCalls env) 1 (exceptCancelled env turnId threadId) := by
  unfold exceptCancelledCalls exceptCancelled
  exact (follows_when (makes_await _ _ _)).seq
    ((follows_when (makes_appendItem _ _ _ _)).seq
    (makes_put _ _ _ _ 1 (by simp [TurnEvent.terminates])).last)

theorem exceptException_makes :
    Makes env turnId (exceptExceptionCalls env) 1 (exceptException env turnId threadId) := by
  unfold exceptExceptionCalls exceptException
  exact (makes_await _ _ _).seq
    ((follows_when (makes_await _ _ _)).seq
    ((follows_when (makes_appendItem _ _ _ _)).seq
    ((makes_put _ _ _ _ 0 rfl).seq
    (makes_put _ _ _ _ 1 (by simp [TurnEvent.terminates])).last)))

end Parts

/-! ## The whole handler -/

/-- No call of the `except` clause fails that the first failure of the main `try` enters. -/
def ClauseReturns (env : Env) (msg : UserMessage) (threadId : String) : Prop :=
  match (tryCalls env msg threadId).findSome? env.fault with
  | none => True
  | some .cancelled => (exceptCancelledCalls env).findSome? env.fault = none
  | some .raised => (exceptExceptionCalls env).findSome? env.fault = none

/-- A turn has ended: one terminal event was put for it, and the runner has forgotten it. -/
structure TurnEnded (turnId threadId : String) (evt : Nat) (r t : Runner) : Prop where
  terminal : t.terminals turnId = r.terminals turnId + 1
  inactive : t.registry.activeTurnIds threadId ≠ some turnId
  noQueue : t.registry.turnSteerQueues turnId = false
  noEvent : t.registry.turnCancelEvents threadId ≠ some evt

theorem cleanUp_forgets (threadId turnId : String) (evt : Nat) (r : Registry) :
    (cleanUp threadId turnId evt r).activeTurnIds threadId ≠ some turnId ∧
      (cleanUp threadId turnId evt r).turnSteerQueues turnId = false ∧
      (cleanUp threadId turnId evt r).turnCancelEvents threadId ≠ some evt := by
  unfold cleanUp
  refine ⟨?_, ?_, ?_⟩
  · simp only []
    split
    · simp
    · assumption
  · simp
  · simp only []
    split
    · simp
    · assumption

theorem Makes.terminals_iff {env : Env} {turnId : String} {calls : List Call} {p : Turn Unit}
    (h : Makes env turnId calls 1 p) (r : Runner) :
    (p r).2.terminals turnId = r.terminals turnId + 1 ↔ calls.findSome? env.fault = none := by
  cases hc : calls.findSome? env.fault with
  | none =>
    obtain ⟨t, ht, hm⟩ := h.returns hc r
    simp [ht, hm]
  | some e =>
    obtain ⟨t, ht, hm⟩ := h.fails hc r
    simp [ht, hm]

theorem guarded_terminals_iff (env : Env) (msg : UserMessage) (turnId threadId : String)
    (r : Runner) :
    ((tryCatch (tryBlock env msg turnId threadId) (handleFault env turnId threadId) :
      Turn Unit) r).2.terminals turnId = r.terminals turnId + 1 ↔
      ClauseReturns env msg threadId := by
  have htry := tryBlock_makes env turnId threadId msg
  unfold ClauseReturns
  cases hc : (tryCalls env msg threadId).findSome? env.fault with
  | none =>
    obtain ⟨t, ht, hm⟩ := htry.returns hc r
    rw [tryCatch_of_ok _ ht]
    simp [hm]
  | some fault =>
    obtain ⟨t, ht, hm⟩ := htry.fails hc r
    rw [tryCatch_of_error _ ht, ← hm]
    cases fault with
    | cancelled =>
      have hclause := exceptCancelled_makes env turnId threadId
      -- the clause ends with a raise, which leaves the state as it is
      have hstate : (handleFault env turnId threadId .cancelled t).2 =
          (exceptCancelled env turnId threadId t).2 := by
        cases hrun : exceptCancelled env turnId threadId t with
        | mk result u =>
          cases result with
          | ok _ =>
            show ((exceptCancelled env turnId threadId >>= fun _ => throw .cancelled) t).2 = u
            rw [bind_of_ok _ hrun]
            rfl
          | error _ =>
            show ((exceptCancelled env turnId threadId >>= fun _ => throw .cancelled) t).2 = u
            rw [bind_of_error _ hrun]
      rw [hstate]
      exact hclause.terminals_iff t
    | raised => exact Makes.terminals_iff (exceptException_makes env turnId threadId) t

/-- **An accepted turn ends**, with exactly one terminal event and all its state gone, exactly
when no call ahead of the main `try` fails and none of the `except` clause that is entered. -/
theorem turn_ended_iff (env : Env) (msg : UserMessage) (r : Runner) :
    TurnEnded (orElse msg.turnId env.uuid) (orElse msg.threadId "cli:default")
        (cancelEvent r.registry (orElse msg.threadId "cli:default")) r
        (handleUserMessage env msg r).2 ↔
      (prepareCalls env msg).findSome? env.fault = none ∧
        ClauseReturns env msg (orElse msg.threadId "cli:default") := by
  unfold handleUserMessage
  simp only []
  generalize orElse msg.turnId env.uuid = turnId
  generalize orElse msg.threadId "cli:default" = threadId
  generalize cancelEvent r.registry threadId = evt
  have hregister : update (onRegistry (register threadId turnId)) r =
      ((.ok (), onRegistry (register threadId turnId) r) : Except Fault Unit × Runner) := rfl
  rw [bind_of_ok _ hregister]
  have hprepare := prepare_makes env turnId msg
  cases hc : (prepareCalls env msg).findSome? env.fault with
  | some fault =>
    obtain ⟨t, ht, hm⟩ := hprepare.fails hc (onRegistry (register threadId turnId) r)
    rw [bind_of_error _ ht]
    constructor
    · rintro ⟨hterminal, -, -, -⟩
      have ht' : t.terminals turnId = r.terminals turnId := hm
      have ht'' : t.terminals turnId = r.terminals turnId + 1 := hterminal
      omega
    · rintro ⟨h, -⟩
      cases h
  | none =>
    obtain ⟨t, ht, hm⟩ := hprepare.returns hc (onRegistry (register threadId turnId) r)
    rw [bind_of_ok _ ht]
    have hiff := guarded_terminals_iff env msg turnId threadId t
    have ht' : t.terminals turnId = r.terminals turnId := hm
    rw [ht'] at hiff
    obtain ⟨hactive, hqueue, hevent⟩ := cleanUp_forgets threadId turnId evt
      ((tryCatch (tryBlock env msg turnId threadId) (handleFault env turnId threadId) :
        Turn Unit) t).2.registry
    constructor
    · rintro ⟨hterminal, -, -, -⟩
      exact ⟨rfl, hiff.mp hterminal⟩
    · rintro ⟨-, h⟩
      exact ⟨hiff.mpr h, hactive, hqueue, hevent⟩

/-- The snapshot of the turn to resume is being read when the turn is cancelled. -/
def cancelledLookup : Env :=
  { fault := fun c => if c = .getSnapshot then some .cancelled else none }

/-- No terminal event is put, and the thread still has its active turn and its queue. -/
theorem cancelledLookup_leaks :
    let r := (handleUserMessage cancelledLookup
      { turnId := some "u", threadId := some "t", resumeTurnId := some "v" } {}).2
    r.events = [] ∧ r.registry.activeTurnIds "t" = some "u" ∧
      r.registry.turnSteerQueues "u" = true ∧ r.registry.turnCancelEvents "t" = some 0 := by
  decide

end MiqroForge.Session
