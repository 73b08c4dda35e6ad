import MiqroForge.Session.TurnEnds

/-!
How a turn ended, as its timeline tells it. The handler of a turn writes the items, the replay
reads them, and the two agree on completed and aborted turns whose last item was stored.

* `exit_reported_iff`: the timeline has the status of the exit iff the turn did not fail and,
  when it was cancelled, a `turn_aborted` item was stored.
-/

namespace MiqroForge.Replay

open Session Calls List

/-! ## The items that give a status -/

def statuses (r : Runner) : List TurnStatus := r.ledger.filterMap Body.status?

section Items
variable (env : Env)

/-- The item of an append is in the ledger: it returned, or failed behind the commit. -/
def ItemStored (c : Call) : Prop := env.fault c = none ∨ env.stored c = true

instance (c : Call) : Decidable (ItemStored env c) := inferInstanceAs (Decidable (_ ∨ _))

theorem await_keeps_ledger (c : Call) : Keeps Runner.ledger (await env c) := by
  have hothers : ∀ c r, (onRegistry (env.others c) r).ledger = r.ledger := fun _ _ => rfl
  exact keeps_call env.fault hothers c

theorem keeps_await (c : Call) : Keeps statuses (await env c) :=
  fun r => congrArg (filterMap Body.status?) (await_keeps_ledger env c r)

theorem keeps_put (c : Call) (event : TurnEvent) : Keeps statuses (put env c event) :=
  (keeps_await env c).seq (keeps_update fun _ => rfl)

theorem appendItem_statuses (c : Call) (item : Body) (r : Runner) :
    statuses (appendItem env c item r).2 =
      statuses r ++ if ItemStored env c then item.status?.toList else [] := by
  have hwrite : ∀ b : Bool, statuses
      ((when b (update fun r => { r with ledger := r.ledger ++ [item] }) >>= fun _ =>
        await env c : Session.Turn Unit) r).2 =
      statuses r ++ if b then item.status?.toList else [] := by
    intro b
    cases b with
    | false => exact (keeps_await env c r).trans (append_nil _).symm
    | true =>
      refine (keeps_await env c { r with ledger := r.ledger ++ [item] }).trans ?_
      simp only [statuses, filterMap_append, filterMap_cons, filterMap_nil, if_true]
      cases item.status? <;> rfl
  refine (hwrite (env.fault c == none || env.stored c)).trans ?_
  by_cases hs : ItemStored env c
  · rw [if_pos hs, if_pos (by simpa [ItemStored] using hs)]
  · rw [if_neg hs, if_neg (by simpa [ItemStored] using hs)]

theorem keeps_appendItem (c : Call) (item : Body) (h : item.status? = none) :
    Keeps statuses (appendItem env c item) := by
  intro r
  rw [appendItem_statuses, h, Option.toList_none, ite_self, append_nil]

theorem appends_appendItem (c : Call) (item : Body) (status : TurnStatus)
    (h : item.status? = some status) :
    Appends env.fault statuses [] (if ItemStored env c then [status] else [])
      (appendItem env c item) := by
  intro r
  rw [appendItem_statuses, h]
  rfl

theorem keeps_excepted {p h : Session.Turn Unit} (hp : Keeps statuses p)
    (hh : Keeps statuses h) : Keeps statuses (tryCatch p (onException h)) := by
  apply hp.tryCatch
  intro e
  cases e with
  | raised => exact hh
  | cancelled => exact keeps_throw _

end Items

/-! ## What each part writes -/

section Parts
variable (env : Env) (msg : UserMessage) (turnId threadId : String)

theorem prepare_keeps_ledger : Keeps Runner.ledger (prepare env msg) := by
  have hexcepted : ∀ c, Keeps Runner.ledger (tryCatch (await env c) (onException (pure ()))) := by
    intro c
    apply (await_keeps_ledger env c).tryCatch
    intro e
    cases e with
    | raised => exact keeps_pure
    | cancelled => exact keeps_throw _
  unfold prepare
  exact (await_keeps_ledger _ _).seq
    ((await_keeps_ledger _ _).seq
    ((keeps_when (await_keeps_ledger _ _)).seq
    ((keeps_when (hexcepted _)).seq
    ((keeps_when (await_keeps_ledger _ _)).seq
    ((keeps_when (hexcepted _)).seq
    (await_keeps_ledger _ _))))))

theorem startTurn_keeps : Keeps statuses (startTurn env msg turnId threadId) := by
  have hcompact : Keeps statuses (autoCompact env turnId threadId) :=
    keeps_excepted ((keeps_await _ _).seq ((keeps_put _ _ _).seq (keeps_await _ _)))
      (keeps_put _ _ _)
  unfold startTurn
  exact (keeps_when (keeps_await _ _)).seq
    ((keeps_when (keeps_await _ _)).seq
    ((keeps_when (keeps_await _ _)).seq
    ((keeps_when (keeps_await _ _)).seq
    ((keeps_when (keeps_appendItem _ _ _ rfl)).seq
    ((keeps_when ((keeps_await _ _).seq (keeps_when hcompact))).seq
    ((keeps_put _ _ _).seq
    (keeps_when ((keeps_excepted (keeps_await _ _) keeps_pure).seq
      ((keeps_when (keeps_await _ _)).seq
      (keeps_when (keeps_appendItem _ _ _ rfl)))))))))))

theorem persist_keeps (i : Nat) : Keeps statuses (persist env i) := by
  unfold persist
  exact (keeps_excepted (keeps_await _ _) keeps_pure).seq
    ((keeps_when (keeps_await _ _)).seq
    (keeps_when (keeps_appendItem _ _ _ rfl)))

theorem exceptException_keeps : Keeps statuses (exceptException env turnId threadId) := by
  unfold exceptException
  exact (keeps_await _ _).seq
    ((keeps_when (keeps_await _ _)).seq
    ((keeps_when (keeps_appendItem _ _ _ rfl)).seq
    ((keeps_put _ _ _).seq
    (keeps_put _ _ _))))

/-- The calls of the abort path before its item, and those of `except CancelledError`. -/
def historyCall (c : Call) : List Call := if env.historyRuntime then [c] else []

theorem aborting_appends (hl : env.ledgerRuntime = true) (c₁ c₂ c₃ : Call) (event : TurnEvent) :
    Appends env.fault statuses (historyCall env c₁)
      (if ItemStored env c₂ then [.aborted] else []) (do
        when env.historyRuntime (await env c₁)
        when env.ledgerRuntime (appendItem env c₂ .turnAborted)
        put env c₃ event) := by
  have hitem : Appends env.fault statuses [] (if ItemStored env c₂ then [.aborted] else [])
      (when env.ledgerRuntime (appendItem env c₂ .turnAborted)) := by
    rw [hl]
    exact appends_appendItem env c₂ .turnAborted .aborted rfl
  have h := (keeps_when (keeps_await env c₁)).appends
    (follows_when (b := env.historyRuntime) (makes_await env "" c₁))
    (hitem.keeps (keeps_put env c₃ event))
  rwa [append_nil] at h

/-- The calls of a turn that runs, up to its last item. -/
def runCalls : List Call :=
  [.runTurn] ++ ((List.range env.deltaLength).flatMap (persistCalls env) ++
    (historyCall env .completeTurn ++
      if resumes env msg threadId && env.historyRuntime then [.deleteSnapshot] else []))

theorem runTurn_appends (hl : env.ledgerRuntime = true) :
    Appends env.fault statuses (runCalls env msg threadId)
      (if ItemStored env .ledgerTurnCompleted then [.completed] else [])
      (runTurn env msg turnId threadId) := by
  have hitem : Appends env.fault statuses []
      (if ItemStored env .ledgerTurnCompleted then [.completed] else [])
      (when env.ledgerRuntime (appendItem env .ledgerTurnCompleted .turnCompleted)) := by
    rw [hl]
    exact appends_appendItem env _ .turnCompleted .completed rfl
  have hmessages : Keeps statuses ((range env.deltaLength).forM (persist env)) :=
    keeps_forM fun i _ => persist_keeps env i
  have hcalls : Makes env turnId ((range env.deltaLength).flatMap (persistCalls env)) 0
      ((range env.deltaLength).forM (persist env)) :=
    follows_forM fun i _ => persist_makes env turnId i
  have h := (keeps_await env .runTurn).appends (makes_await env turnId .runTurn)
    (hmessages.appends hcalls
    ((keeps_when (keeps_await env .completeTurn)).appends
      (follows_when (b := env.historyRuntime) (makes_await env turnId .completeTurn))
    ((keeps_when (keeps_await env .deleteSnapshot)).appends
      (follows_when (b := resumes env msg threadId && env.historyRuntime)
        (makes_await env turnId .deleteSnapshot))
    (hitem.keeps ((keeps_put env .putAgentMessage (.agentMessage turnId)).seq
      (keeps_put env .putTurnComplete (.turnComplete turnId threadId "success")))))))
  rwa [append_nil] at h

end Parts

/-! ## The whole handler -/

section Handler
variable (env : Env) (msg : UserMessage) (turnId threadId : String)

/-- The calls of the main `try` up to the item that ends the turn. -/
def itemCalls : List Call :=
  startTurnCalls env msg threadId ++
    if env.cancelSet then historyCall env .completeAborted else runCalls env msg threadId

/-- The call that appends the item. -/
def itemCall : Call := if env.cancelSet then .ledgerTurnAborted else .ledgerTurnCompleted

/-- The status it gives, which is that of a main `try` that returns. -/
def returnStatus : TurnStatus := if env.cancelSet then .aborted else .completed

/-- What the main `try` writes. -/
def tryStatuses : List TurnStatus :=
  if (itemCalls env msg threadId).findSome? env.fault = none then
    if ItemStored env (itemCall env) then [returnStatus env] else []
  else []

theorem tryBlock_statuses (hl : env.ledgerRuntime = true) (r : Runner) :
    statuses (tryBlock env msg turnId threadId r).2 =
      statuses r ++ tryStatuses env msg threadId := by
  have hstart := startTurn_keeps env msg turnId threadId
  have hcalls := startTurn_makes env turnId threadId msg
  unfold tryBlock tryStatuses itemCalls itemCall returnStatus
  cases hc : env.cancelSet with
  | true =>
    exact hstart.appends hcalls (aborting_appends env hl .completeAborted .ledgerTurnAborted
      .putTurnAborted (.turnAborted turnId threadId "Turn aborted before start.")) r
  | false => exact hstart.appends hcalls (runTurn_appends env msg turnId threadId hl) r

theorem tryCalls_eq (hl : env.ledgerRuntime = true) : ∃ rest, tryCalls env msg threadId =
    itemCalls env msg threadId ++ itemCall env :: rest := by
  unfold tryCalls itemCalls itemCall abortBeforeStartCalls runTurnCalls runCalls historyCall
  cases hc : env.cancelSet with
  | true =>
    refine ⟨[.putTurnAborted], ?_⟩
    simp [hl]
  | false =>
    refine ⟨[.putAgentMessage, .putTurnComplete], ?_⟩
    simp [hl]

theorem tryStatuses_of_returns (hl : env.ledgerRuntime = true)
    (h : (tryCalls env msg threadId).findSome? env.fault = none) :
    tryStatuses env msg threadId = [returnStatus env] := by
  obtain ⟨rest, hcalls⟩ := tryCalls_eq env msg threadId hl
  rw [hcalls, findSome?_append, Option.or_eq_none_iff] at h
  have hstored : ItemStored env (itemCall env) :=
    Or.inl (findSome?_eq_none_iff.mp h.2 _ (mem_cons_self ..))
  unfold tryStatuses
  rw [if_pos h.1, if_pos hstored]

/-- The item of `except CancelledError` is in the ledger. -/
def CancelItem : Prop :=
  (historyCall env .completeCancelled).findSome? env.fault = none ∧
    ItemStored env .ledgerCancelled

instance : Decidable (CancelItem env) := inferInstanceAs (Decidable (_ ∧ _))

/-- What the `except` clauses write. -/
def clauseStatuses : List TurnStatus :=
  match (tryCalls env msg threadId).findSome? env.fault with
  | some .cancelled => if CancelItem env then [.aborted] else []
  | _ => []

theorem cancelled_statuses (hl : env.ledgerRuntime = true) (r : Runner) :
    statuses (handleFault env turnId threadId .cancelled r).2 =
      statuses r ++ if CancelItem env then [.aborted] else [] := by
  have hclause := aborting_appends env hl .completeCancelled .ledgerCancelled .putCancelled
    (.turnAborted turnId threadId "Turn was cancelled.")
  refine (hclause.keeps (keeps_throw .cancelled) r).trans ?_
  congr 1
  unfold CancelItem
  split <;> rename_i hc
  · simp [hc]
  · simp [hc]

/-- **What a turn writes** behind its start: the item of the main `try`, then that of the clause. -/
theorem handler_statuses (hl : env.ledgerRuntime = true) (r : Runner)
    (hprepare : (prepareCalls env msg).findSome? env.fault = none) :
    statuses (handleUserMessage env msg r).2 = statuses r ++
      (tryStatuses env msg (orElse msg.threadId "cli:default") ++
        clauseStatuses env msg (orElse msg.threadId "cli:default")) := by
  unfold handleUserMessage
  simp only []
  generalize orElse msg.turnId env.uuid = turnId
  generalize orElse msg.threadId "cli:default" = threadId
  generalize cancelEvent r.registry threadId = evt
  have hregister : update (onRegistry (register threadId turnId)) r =
      ((.ok (), onRegistry (register threadId turnId) r) : Except Fault Unit × Runner) := rfl
  rw [bind_of_ok _ hregister]
  have hkeep := prepare_keeps_ledger env msg (onRegistry (register threadId turnId) r)
  obtain ⟨t, ht, -⟩ := (prepare_makes env turnId msg).returns hprepare
    (onRegistry (register threadId turnId) r)
  rw [bind_of_ok _ ht]
  rw [ht] at hkeep
  have hstart : statuses t = statuses r := congrArg (filterMap Body.status?) hkeep
  show statuses ((tryCatch (tryBlock env msg turnId threadId) (handleFault env turnId threadId) :
    Session.Turn Unit) t).2 = _
  rw [← hstart, ← append_assoc]
  have htry := tryBlock_makes env turnId threadId msg
  have hwrites := tryBlock_statuses env msg turnId threadId hl t
  unfold clauseStatuses
  cases hc : (tryCalls env msg threadId).findSome? env.fault with
  | none =>
    obtain ⟨u, hu, -⟩ := htry.returns hc t
    rw [hu] at hwrites
    rw [tryCatch_of_ok _ hu, hwrites, append_nil]
  | some fault =>
    obtain ⟨u, hu, -⟩ := htry.fails hc t
    rw [hu] at hwrites
    rw [tryCatch_of_error _ hu, ← hwrites]
    cases fault with
    | cancelled => exact cancelled_statuses env turnId threadId hl u
    | raised => exact (exceptException_keeps env turnId threadId u).trans (append_nil _).symm

/-! ## The exits -/

/-- The exit of a turn behind its start: the main `try` returned, or failed in one of two ways. -/
def exitStatus : TurnStatus :=
  match (tryCalls env msg threadId).findSome? env.fault with
  | none => returnStatus env
  | some .cancelled => .aborted
  | some .raised => .error

/-- The exit is one that the ledger tells: a return, or a cancellation whose item, or that of the
abort it came behind, was stored. -/
def ExitTold : Prop :=
  match (tryCalls env msg threadId).findSome? env.fault with
  | none => True
  | some .cancelled => CancelItem env ∨
      env.cancelSet = true ∧ (itemCalls env msg threadId).findSome? env.fault = none ∧
        ItemStored env .ledgerTurnAborted
  | some .raised => False

theorem mem_tryStatuses (status : TurnStatus) (h : status ∈ tryStatuses env msg threadId) :
    status = returnStatus env := by
  unfold tryStatuses at h
  split at h
  · split at h
    · exact mem_singleton.mp h
    · cases h
  · cases h

theorem returnStatus_cases :
    returnStatus env = .aborted ∧ env.cancelSet = true ∨
      returnStatus env = .completed ∧ env.cancelSet = false := by
  unfold returnStatus
  cases env.cancelSet <;> simp

theorem last_status_iff (hl : env.ledgerRuntime = true) :
    ((tryStatuses env msg threadId ++ clauseStatuses env msg threadId).getLast?).getD .incomplete =
      exitStatus env msg threadId ↔ ExitTold env msg threadId := by
  unfold clauseStatuses exitStatus ExitTold
  cases hc : (tryCalls env msg threadId).findSome? env.fault with
  | none =>
    simp only [append_nil, tryStatuses_of_returns env msg threadId hl hc]
    simp
  | some fault =>
    cases fault with
    | raised =>
      simp only [append_nil, iff_false]
      intro hlast
      cases hg : (tryStatuses env msg threadId).getLast? with
      | none =>
        rw [hg] at hlast
        cases hlast
      | some status =>
        rw [hg, Option.getD_some] at hlast
        have hmem := mem_tryStatuses env msg threadId status (mem_of_getLast? hg)
        rw [hlast] at hmem
        rcases returnStatus_cases env with ⟨h, -⟩ | ⟨h, -⟩ <;> rw [h] at hmem <;> cases hmem
    | cancelled =>
      simp only []
      by_cases hitem : CancelItem env
      · rw [if_pos hitem]
        simp [hitem]
      · rw [if_neg hitem, append_nil]
        simp only [hitem, false_or]
        unfold tryStatuses
        rcases returnStatus_cases env with ⟨h, hset⟩ | ⟨h, hset⟩
        · have hcall : itemCall env = .ledgerTurnAborted := if_pos hset
          rw [h, hcall]
          split <;> rename_i hcalls
          · split <;> rename_i hstored <;> simp [hset, hcalls, hstored]
          · simp [hcalls]
        · rw [h]
          simp only [hset, Bool.false_eq_true, false_and, iff_false]
          split
          · split <;> simp
          · simp

/-- **How turns end in the replay.** When a turn with a ledger wrote its start item, its timeline
has the status of its exit, whatever other writers put among its items, and so is not reported
incomplete, iff it did not fail and, if it was cancelled, an abort item was stored. -/
theorem exit_reported_iff (hl : env.ledgerRuntime = true) (r : Runner) (hr : r.ledger = [])
    (hstart : Body.turnStarted ∈ (handleUserMessage env msg r).2.ledger)
    (items : List Item)
    (hitems : items.filterMap (fun item => item.body.status?) =
      statuses (handleUserMessage env msg r).2) :
    ((buildTimeline threadId turnId items).status =
        exitStatus env msg (orElse msg.threadId "cli:default") ∧
      incompleteTurns [buildTimeline threadId turnId items] = []) ↔
      ExitTold env msg (orElse msg.threadId "cli:default") := by
  have hprepare : (prepareCalls env msg).findSome? env.fault = none := by
    cases hc : (prepareCalls env msg).findSome? env.fault with
    | none => rfl
    | some fault =>
      exfalso
      unfold handleUserMessage at hstart
      simp only [] at hstart
      generalize orElse msg.turnId env.uuid = turnId' at hstart
      generalize orElse msg.threadId "cli:default" = threadId' at hstart
      have hregister : update (onRegistry (register threadId' turnId')) r =
          ((.ok (), onRegistry (register threadId' turnId') r) : Except Fault Unit × Runner) := rfl
      have hkeep := prepare_keeps_ledger env msg (onRegistry (register threadId' turnId') r)
      obtain ⟨t, ht, -⟩ := (prepare_makes env turnId' msg).fails hc
        (onRegistry (register threadId' turnId') r)
      rw [ht] at hkeep
      have hempty : t.ledger = [] := hkeep.trans hr
      rw [bind_of_ok _ hregister, bind_of_error _ ht, hempty] at hstart
      cases hstart
  have hstatuses := handler_statuses env msg hl r hprepare
  have hnone : statuses r = [] := by rw [statuses, hr]; rfl
  rw [hnone, List.nil_append] at hstatuses
  rw [← last_status_iff env msg _ hl, ← hstatuses, ← hitems, buildTimeline_status]
  apply and_iff_left_of_imp
  intro hexit
  have hended : exitStatus env msg (orElse msg.threadId "cli:default") ≠ .incomplete := by
    unfold exitStatus
    split
    · rcases returnStatus_cases env with ⟨h, -⟩ | ⟨h, -⟩ <;> rw [h] <;> decide
    · decide
    · decide
  have hstatus := (buildTimeline_status threadId turnId items).trans hexit
  simp [incompleteTurns, hstatus, hended]

end Handler

/-! ## A completed turn and a failed one -/

theorem exit_reported_iff_completed :
    (buildTimeline "t" "u" [{ body := .turnStarted }, { body := .turnCompleted }]).status =
      .completed := by
  have h := exit_reported_iff {} { turnId := some "u", threadId := some "t", content := "hi" }
    "u" "t" rfl {} rfl (by decide +kernel) [{ body := .turnStarted }, { body := .turnCompleted }]
    (by decide +kernel)
  exact (h.mpr trivial).1

/-- The provider call of the turn raises. -/
def failedProvider : Env := { fault := fun c => if c = .runTurn then some .raised else none }

/-- The timeline has the error, but no status, and the turn is reported incomplete. -/
theorem failedProvider_incomplete :
    let msg : UserMessage := { turnId := some "u", threadId := some "t", content := "hi" }
    let r := (handleUserMessage failedProvider msg {}).2
    let tl := buildTimeline "t" "u" (r.ledger.map fun b => { body := b })
    r.ledger = [.turnStarted, .message (some "user") "hi", .error "task_runner" "fatal" false] ∧
      r.events.getLast? = some (.turnComplete "u" "t" "error") ∧
      exitStatus failedProvider msg "t" = .error ∧
      tl.status = .incomplete ∧ incompleteTurns [tl] = ["u"] := by
  decide +kernel

end MiqroForge.Replay
