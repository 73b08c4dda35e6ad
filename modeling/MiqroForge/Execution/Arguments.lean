import MiqroForge.Execution.Permissions
import MiqroForge.Library.Table

/-!
The arguments a tool receives: `_normalize_tool_args`, the injection of
`ToolOrchestrator._execute_in_sandbox`, and the one of `MiQiToolHost.execute` with
`ToolRegistry.execute`.

* `harness_arguments_iff`: the reserved arguments come from the harness on the first path iff the
  model supplies none that the harness leaves out, and on the second iff it supplies none at all,
  `_user_roots` apart.
-/

namespace MiqroForge.Execution

open PyText Json Table

/-! ## Aliases -/

section Aliases
variable {α : Type}

def argAliases : List (Text × Text) :=
  [("file_path".toList, "path".toList), ("filename".toList, "path".toList),
    ("cmd".toList, "command".toList)]

/-- `kwargs[name] = kwargs.pop(alias)`, or the alias is dropped where `name` is there. -/
def moveArg (kwargs : List (Text × α)) (argAlias : Text) (v : α) (name : Text) : List (Text × α) :=
  if (get? kwargs name).isSome then remove kwargs argAlias
  else set (remove kwargs argAlias) name v

/-- One alias; `props` are the declared properties, where the tool is known. -/
def normalizeAlias (props : Option (List Text)) (kwargs : List (Text × α)) (e : Text × Text) :
    List (Text × α) :=
  match get? kwargs e.1 with
  | none => kwargs
  | some v =>
    if e.2 = "path".toList ∧ props.any fun ps => !ps.contains "path".toList then
      if e.1 = "filename".toList ∧ props.any fun ps => ps.contains "file_path".toList then
        moveArg kwargs e.1 v "file_path".toList
      else kwargs
    else moveArg kwargs e.1 v e.2

def normalizeToolArgs (props : Option (List Text)) (kwargs : List (Text × α)) : List (Text × α) :=
  argAliases.foldl (normalizeAlias props) kwargs

/-- The arguments the aliases are about. -/
def aliasNames : List Text :=
  ["file_path", "filename", "cmd", "path", "command"].map String.toList

theorem moveArg_get? (kwargs : List (Text × α)) {argAlias name k : Text} (v : α) (ha : k ≠ argAlias)
    (hn : k ≠ name) : get? (moveArg kwargs argAlias v name) k = get? kwargs k := by
  rw [moveArg]
  split
  · exact get?_remove_of_ne kwargs ha
  · rw [get?_set_of_ne _ _ hn]
    exact get?_remove_of_ne kwargs ha

theorem normalizeAlias_get? (props : Option (List Text)) (kwargs : List (Text × α))
    {e : Text × Text} {k : Text} (hk : k ≠ e.1 ∧ k ≠ e.2 ∧ k ≠ "file_path".toList) :
    get? (normalizeAlias props kwargs e) k = get? kwargs k := by
  rw [normalizeAlias]
  split
  · rfl
  · split
    · split
      · exact moveArg_get? kwargs _ hk.1 hk.2.2
      · rfl
    · exact moveArg_get? kwargs _ hk.1 hk.2.1

theorem foldl_normalizeAlias_get? (props : Option (List Text)) (aliases : List (Text × Text))
    {k : Text} (hk : ∀ e ∈ aliases, k ≠ e.1 ∧ k ≠ e.2 ∧ k ≠ "file_path".toList)
    (kwargs : List (Text × α)) :
    get? (aliases.foldl (normalizeAlias props) kwargs) k = get? kwargs k := by
  induction aliases generalizing kwargs with
  | nil => rfl
  | cons e aliases ih =>
    obtain ⟨he, hrest⟩ := List.forall_mem_cons.mp hk
    rw [List.foldl_cons, ih hrest, normalizeAlias_get? props kwargs he]

theorem normalizeToolArgs_get? (props : Option (List Text)) (kwargs : List (Text × α)) {k : Text}
    (hk : k ∉ aliasNames) :
    get? (normalizeToolArgs props kwargs) k = get? kwargs k := by
  simp only [aliasNames, List.map_cons, List.map_nil, List.mem_cons, List.not_mem_nil, or_false,
    not_or] at hk
  obtain ⟨hfile, hname, hcmd, hpath, hcommand⟩ := hk
  refine foldl_normalizeAlias_get? props argAliases (fun e he => ?_) kwargs
  simp only [argAliases, List.mem_cons, List.not_mem_nil, or_false] at he
  rcases he with rfl | rfl | rfl
  · exact ⟨hfile, hpath, hfile⟩
  · exact ⟨hname, hpath, hfile⟩
  · exact ⟨hcmd, hcommand, hfile⟩

end Aliases

/-! ## Injection -/

inductive SandboxType where
  | none
  | bwrap
  | landlock
  | restricted
  deriving DecidableEq

/-- An argument of a tool: a value of the model, or an object of the harness. -/
inductive Arg where
  | model (v : Value)
  | sandbox (kind : SandboxType)
  | text (t : Text)
  | roots (rs : List Text)
  | eventEmitter
  | cancelEvent (event : Nat)
  | ledgerRuntime
  | searchStrategy (strategy : Nat)

abbrev Kwargs := List (Text × Arg)

/-- The arguments that belong to the harness. -/
def reserved : List Text :=
  ["_sandbox", "_session_key", "_user_roots", "_turn_id", "_tool_call_id", "_event_emitter",
    "_cancel_event", "_ledger_runtime", "_thread_id", "_search_strategy", "_mode"].map String.toList

/-- `kwargs[k] = v` for each of them. -/
def setAll (kwargs : Kwargs) (entries : Kwargs) : Kwargs :=
  entries.foldl (fun d e => set d e.1 e.2) kwargs

/-- The arguments of the model without `_user_roots`. -/
def withoutUserRoots (arguments : Dict) : Kwargs :=
  remove (arguments.map fun e => (e.1, .model e.2)) "_user_roots".toList

def fileMutationTools : List Text :=
  ["write_file", "edit_file", "delete_file", "apply_patch", "read_file", "list_dir", "docx_write",
    "pptx_write", "xlsx_write", "create_docx", "create_pptx", "create_xlsx", "create_pdf",
    "pdf_write", "pdf_read", "edit_docx", "append_xlsx", "paper_download", "graph_render",
    "declare_result_files", "spawn"].map String.toList

def streamingTools : List Text :=
  ["exec", "paper_download", "paper_search", "web_search", "web_fetch"].map String.toList

/-- What `_execute_in_sandbox` reads of its context; `writeGrants` are the session's, sorted. -/
structure SandboxContext where
  toolName : Text
  sessionId : Text
  turnId : Text
  toolCallId : Text
  threadId : Text
  userMentionedRoots : List Text
  writeGrants : List Text
  cancelEvent : Option Nat
  hasLedger : Bool
  sandbox : SandboxType

def callIds (turnId toolCallId : Text) : Kwargs :=
  [("_turn_id".toList, .text turnId), ("_tool_call_id".toList, .text toolCallId)]

namespace SandboxContext

variable (ctx : SandboxContext)

/-- The arguments for the family of the tool. -/
def familyArgs : Kwargs :=
  if ctx.toolName = "exec".toList ∨ ctx.toolName ∈ fileMutationTools then
    [("_sandbox".toList, .sandbox ctx.sandbox), ("_session_key".toList, .text ctx.sessionId),
      ("_user_roots".toList, .roots (ctx.userMentionedRoots ++ ctx.writeGrants))]
  else if "mcp_".toList <+: ctx.toolName then
    ("_session_key".toList, .text ctx.sessionId) :: callIds ctx.turnId ctx.toolCallId
  else if ctx.sandbox ≠ .none then [("_sandbox".toList, .sandbox ctx.sandbox)]
  else []

/-- The arguments for streaming and cancellation. -/
def streamArgs : Kwargs :=
  if ctx.toolName ∈ streamingTools then
    ("_event_emitter".toList, .eventEmitter) :: callIds ctx.turnId ctx.toolCallId ++
      (match ctx.cancelEvent with
        | some event => [("_cancel_event".toList, .cancelEvent event)]
        | none => []) ++
      if ctx.hasLedger then
        [("_ledger_runtime".toList, .ledgerRuntime), ("_thread_id".toList, .text ctx.threadId)]
      else []
  else []

/-- What the harness sets. -/
def injected : Kwargs := ctx.familyArgs ++ ctx.streamArgs

/-- The arguments `_execute_in_sandbox` gives to the tool; `props` are its declared properties. -/
def received (props : List Text) (arguments : Dict) : Kwargs :=
  normalizeToolArgs (some props) (setAll (withoutUserRoots arguments) ctx.injected)

end SandboxContext

/-! ## The second path -/

def sessionKeyTools : List Text :=
  ["exec", "write_file", "edit_file", "delete_file", "apply_patch", "read_file", "list_dir",
    "docx_write", "pptx_write", "xlsx_write", "create_docx", "create_pptx", "create_xlsx",
    "create_pdf", "pdf_write", "pdf_read", "edit_docx", "append_xlsx", "paper_download",
    "graph_render", "declare_result_files"].map String.toList

def userRootsTools : List Text :=
  ["write_file", "edit_file", "read_file", "list_dir", "apply_patch", "graph_render",
    "spawn"].map String.toList

/-- What `MiQiToolHost.execute` reads of the call and of its context; `sessionKey` is
`thread_id_to_session_key(thread_id)`. -/
structure HostContext where
  toolName : Text
  callId : Text
  threadId : Text
  turnId : Text
  sessionKey : Option Text
  userMentionedRoots : List Text
  searchStrategy : Option Nat
  mode : Option Text

namespace HostContext

variable (ctx : HostContext)

/-- `thread_id_to_session_key(context.thread_id) or context.thread_id`. -/
def key : Text :=
  match ctx.sessionKey with
  | some (c :: rest) => c :: rest
  | _ => ctx.threadId

def extra : Kwargs :=
  setAll [] ((if ctx.toolName ∈ sessionKeyTools ∧ ctx.key ≠ [] then
      [("_session_key".toList, .text ctx.key)] else []) ++
    (if "mcp_".toList <+: ctx.toolName then
      ("_session_key".toList, .text ctx.key) :: callIds ctx.turnId ctx.callId else []) ++
    (if ctx.toolName ∈ userRootsTools then
      [("_user_roots".toList, .roots ctx.userMentionedRoots)] else []) ++
    if ctx.toolName = "web_search".toList then
      match ctx.searchStrategy with
      | some strategy => [("_search_strategy".toList, .searchStrategy strategy),
          ("_mode".toList, .text (ctx.mode.getD []))]
      | none => []
    else [])

end HostContext

/-- What becomes of a call in `ToolRegistry.execute`. -/
inductive Outcome where
  | unknownTool
  | invalid (errors : List Text)
  /-- `tool.execute(**params, **extra)` with one argument in both. -/
  | duplicate
  | received (kwargs : Kwargs)

/-- `ToolRegistry.execute`; a registered tool is given by its `validate_params`. -/
def registryExecute (tool : Option (Kwargs → List Text)) (params extra : Kwargs) : Outcome :=
  let params := remove params "_user_roots".toList
  match tool with
  | none => .unknownTool
  | some validate =>
    if validate params ≠ [] then .invalid (validate params)
    else if params.any fun e => (get? extra e.1).isSome then .duplicate
    else .received (params ++ extra)

/-- `MiQiToolHost.execute`, from the execution on. -/
def hostExecute (tool : Option (Kwargs → List Text)) (ctx : HostContext) (arguments : Dict) :
    Outcome :=
  registryExecute tool (withoutUserRoots arguments) ctx.extra

/-! ## Reserved arguments -/

/-- The model supplies a reserved argument that is not stripped. -/
def Supplies (arguments : Dict) (k : Text) : Prop :=
  k ∈ reserved ∧ k ≠ "_user_roots".toList ∧ k ∈ keys arguments

/-- The arguments of the model that are not reserved. -/
def unreserved (arguments : Dict) : Dict := arguments.filter fun e => e.1 ∉ reserved

/-- Every reserved argument has the value that the harness has set, or is absent with it. -/
def FromHarness (kwargs harness : Kwargs) : Prop :=
  ∀ k ∈ reserved, get? kwargs k = get? harness k

section Reserved
variable {arguments : Dict} {k : Text}

theorem reserved_not_alias : ∀ k ∈ reserved, k ∉ aliasNames := by decide

theorem setAll_get? (kwargs entries : Kwargs) (k : Text) :
    get? (setAll kwargs entries) k =
      (get? (setAll [] entries) k).or (get? kwargs k) := by
  induction entries generalizing kwargs with
  | nil => rfl
  | cons e entries ih =>
    rw [setAll, List.foldl_cons]
    refine (ih _).trans ?_
    have hsame : get? (setAll [] (e :: entries)) k =
        (get? (setAll [] entries) k).or (get? (set [] e.1 e.2) k) := ih _
    rw [hsame, Option.or_assoc, get?_set, get?_set]
    split <;> rfl

theorem keys_model (arguments : Dict) :
    (arguments.map fun e => (e.1, Arg.model e.2)).map Prod.fst = keys arguments := by
  rw [List.map_map]
  rfl

theorem withoutUserRoots_none (hk : k ∈ reserved) :
    get? (withoutUserRoots arguments) k = none ↔ ¬ Supplies arguments k := by
  rw [get?_eq_none, withoutUserRoots, mem_keys_remove, keys_model, Supplies]
  simp [hk]

/-- **The orchestrator's path.** -/
theorem received_iff (ctx : SandboxContext) (props : List Text) (arguments : Dict) :
    FromHarness (ctx.received props arguments) (setAll [] ctx.injected) ↔
      ∀ k, Supplies arguments k → (get? (setAll [] ctx.injected) k).isSome = true := by
  have hget : ∀ k ∈ reserved, get? (ctx.received props arguments) k =
      (get? (setAll [] ctx.injected) k).or
        (get? (withoutUserRoots arguments) k) := by
    intro k hk
    rw [SandboxContext.received, normalizeToolArgs_get? _ _ (reserved_not_alias k hk)]
    exact setAll_get? _ _ k
  constructor
  · intro h k hsupplies
    have hsame := (hget k hsupplies.1).symm.trans (h k hsupplies.1)
    cases hin : get? (setAll [] ctx.injected) k with
    | some arg => rfl
    | none =>
      rw [hin, Option.none_or] at hsame
      exact absurd hsupplies ((withoutUserRoots_none hsupplies.1).mp hsame)
  · intro h k hk
    rw [hget k hk]
    by_cases hsupplies : Supplies arguments k
    · obtain ⟨arg, harg⟩ := Option.isSome_iff_exists.mp (h k hsupplies)
      rw [harg, Option.some_or]
    · rw [(withoutUserRoots_none hk).mpr hsupplies, Option.or_none]

theorem withoutUserRoots_unreserved (h : ∀ k, ¬ Supplies arguments k) :
    withoutUserRoots (unreserved arguments) = withoutUserRoots arguments := by
  rw [withoutUserRoots, withoutUserRoots, unreserved, remove, remove,
    List.filter_map, List.filter_map, List.filter_filter]
  congr 1
  refine List.filter_congr fun e he => ?_
  have hnot : e.1 ≠ "_user_roots".toList → e.1 ∉ reserved :=
    fun hroots hk => h e.1 ⟨hk, hroots, List.mem_map_of_mem he⟩
  rw [Bool.eq_iff_iff, Function.comp_apply, Bool.and_eq_true, decide_eq_true_eq,
    decide_eq_true_eq]
  exact and_iff_left_of_imp hnot

theorem remove_remove (kwargs : Kwargs) (k : Text) :
    remove (remove kwargs k) k = remove kwargs k := by
  rw [remove, remove, List.filter_filter]
  congr 1
  funext e
  simp

theorem hostExecute_received {tool : Option (Kwargs → List Text)} {ctx : HostContext}
    {kwargs : Kwargs} (h : hostExecute tool ctx arguments = .received kwargs) :
    kwargs = withoutUserRoots arguments ++ ctx.extra ∧
      ∀ e ∈ withoutUserRoots arguments, get? ctx.extra e.1 = none := by
  have hremove : remove (withoutUserRoots arguments) "_user_roots".toList =
      withoutUserRoots arguments := remove_remove _ _
  simp only [hostExecute, registryExecute, hremove] at h
  split at h
  · cases h
  · split at h
    · cases h
    · split at h
      case isTrue => cases h
      case isFalse hany =>
        refine ⟨(Outcome.received.inj h).symm, fun e he => ?_⟩
        by_contra hsome
        exact hany (List.any_eq_true.mpr ⟨e, he, Option.isSome_iff_ne_none.mpr hsome⟩)

/-- **The registry's path.** A call that would reach the tool without reserved arguments. -/
theorem hostExecute_iff (tool : Option (Kwargs → List Text)) (ctx : HostContext)
    (arguments : Dict) :
    (∀ kwargs, hostExecute tool ctx (unreserved arguments) = .received kwargs →
      ∃ kwargs', hostExecute tool ctx arguments = .received kwargs' ∧
        FromHarness kwargs' ctx.extra) ↔
      ((∃ kwargs, hostExecute tool ctx (unreserved arguments) = .received kwargs) →
        ∀ k, ¬ Supplies arguments k) := by
  constructor
  · rintro h ⟨kwargs, hkwargs⟩ k hsupplies
    obtain ⟨kwargs', hreceived, hharness⟩ := h kwargs hkwargs
    obtain ⟨rfl, hextra⟩ := hostExecute_received hreceived
    have hsame := hharness k hsupplies.1
    rw [get?_append] at hsame
    cases hmodel : get? (withoutUserRoots arguments) k with
    | none => exact (withoutUserRoots_none hsupplies.1).mp hmodel hsupplies
    | some arg =>
      have hmem : k ∈ (withoutUserRoots arguments).map Prod.fst := by
        by_contra hnone
        rw [get?_eq_none.mpr hnone] at hmodel
        cases hmodel
      obtain ⟨e, he, rfl⟩ := List.mem_map.mp hmem
      rw [hmodel, hextra e he] at hsame
      cases hsame
  · intro h kwargs hkwargs
    have hnone := h ⟨kwargs, hkwargs⟩
    refine ⟨kwargs, ?_, ?_⟩
    · rw [hostExecute, ← withoutUserRoots_unreserved hnone]
      exact hkwargs
    · obtain ⟨rfl, -⟩ := hostExecute_received hkwargs
      intro k hk
      rw [withoutUserRoots_unreserved hnone, get?_append,
        (withoutUserRoots_none hk).mpr (hnone k), Option.none_or]

end Reserved

/-- **Reserved arguments.** -/
theorem harness_arguments_iff (sandboxCtx : SandboxContext) (props : List Text)
    (tool : Option (Kwargs → List Text)) (hostCtx : HostContext) (arguments : Dict) :
    (FromHarness (sandboxCtx.received props arguments) (setAll [] sandboxCtx.injected) ↔
      ∀ k, Supplies arguments k →
        (get? (setAll [] sandboxCtx.injected) k).isSome = true) ∧
    ((∀ kwargs, hostExecute tool hostCtx (unreserved arguments) = .received kwargs →
      ∃ kwargs', hostExecute tool hostCtx arguments = .received kwargs' ∧
        FromHarness kwargs' hostCtx.extra) ↔
      ((∃ kwargs, hostExecute tool hostCtx (unreserved arguments) = .received kwargs) →
        ∀ k, ¬ Supplies arguments k)) :=
  ⟨received_iff sandboxCtx props arguments, hostExecute_iff tool hostCtx arguments⟩

/-- A search of another session, and a file read, as the model asks for them. -/
def foreignKey : Dict := [("_session_key".toList, .str "other".toList)]

def searchContext : SandboxContext where
  toolName := "session_search".toList
  sessionId := "session".toList
  turnId := "turn".toList
  toolCallId := "call".toList
  threadId := "thread".toList
  userMentionedRoots := []
  writeGrants := []
  cancelEvent := none
  hasLedger := true
  sandbox := .none

def readContext : HostContext where
  toolName := "read_file".toList
  callId := "call".toList
  threadId := "thread".toList
  turnId := "turn".toList
  sessionKey := none
  userMentionedRoots := []
  searchStrategy := none
  mode := none

/-- The model's session key reaches `session_search`, and makes the read fail. -/
theorem model_supplies_session :
    ¬ FromHarness (searchContext.received [] foreignKey) (setAll [] searchContext.injected) ∧
      hostExecute (some fun _ => []) readContext foreignKey = .duplicate ∧
      ∃ kwargs, hostExecute (some fun _ => []) readContext (unreserved foreignKey) =
        .received kwargs := by
  refine ⟨fun h => ?_, ?_, readContext.extra, ?_⟩
  · have hsome := congrArg Option.isSome (h "_session_key".toList (by decide))
    revert hsome
    decide
  · rw [hostExecute, registryExecute, if_neg (not_not.mpr rfl), if_pos (by decide)]
  · rw [hostExecute, registryExecute, if_neg (not_not.mpr rfl), if_neg (by decide)]
    congr 1

end MiqroForge.Execution
