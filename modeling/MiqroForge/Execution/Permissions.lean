import Mathlib.Data.List.Infix
import MiqroForge.Library.PyRepr

/-!
`PermissionEngine` with the policies it asks: `ExecPolicy`, `ApprovalPolicy`, the approval bypass
and the permission profile of a turn.
-/

namespace MiqroForge.Execution

open PyText Json PyRepr

/-- What the engine asks of Python: `str.lower`, `Path(p).is_absolute()` and the first 16 hex
digits of `sha256`. -/
structure Host extends Python where
  lower : Text → Text
  isAbsolute : Text → Bool
  digest : Text → Text

abbrev Dict := List (Text × Value)

/-- `arguments.get(key)`. -/
def Dict.get (arguments : Dict) (key : String) : Option Value :=
  (arguments.find? fun e => e.1 == key.toList).map Prod.snd

/-! ## Policies -/

inductive PolicyVerdict where
  | allow
  | deny
  | prompt
  deriving DecidableEq

structure PolicyDecision where
  verdict : PolicyVerdict
  source : Text

/-- A rule of the policy; `words` is its `prefix`. -/
structure CommandRule where
  words : List Text
  decision : Text
  source : Text

structure ExecPolicy where
  commandRules : List CommandRule

section Policy
variable (host : Host)

def applyMatches (rules : List CommandRule) : PolicyDecision :=
  match rules.find? fun rule => host.lower rule.decision == "deny".toList with
  | some rule => ⟨.deny, rule.source⟩
  | none =>
    match rules.find? fun rule => host.lower rule.decision == "allow".toList with
    | some rule => ⟨.allow, rule.source⟩
    | none => ⟨.prompt, []⟩

def ExecPolicy.evaluateCommand (policy : ExecPolicy) (cmd : Text) : PolicyDecision :=
  applyMatches host (policy.commandRules.filter fun rule => rule.words.isPrefixOf (splitSpaces cmd))

end Policy

inductive ApprovalMode where
  | unlessTrusted
  | onFailure
  | onRequest
  | granular
  | never
  deriving DecidableEq

def ApprovalMode.value : ApprovalMode → Text
  | .unlessTrusted => "unless_trusted".toList
  | .onFailure => "on_failure".toList
  | .onRequest => "on_request".toList
  | .granular => "granular".toList
  | .never => "never".toList

structure ApprovalPolicy where
  mode : ApprovalMode
  trusted : List Text
  granular : List (Text × Text)

def ApprovalPolicy.requiresPrompt (policy : ApprovalPolicy) (category : Text) (failed : Bool) :
    Bool :=
  match policy.mode with
  | .never => false
  | .onRequest => true
  | .onFailure => failed
  | .unlessTrusted => !policy.trusted.contains category
  | .granular =>
    match (policy.granular.find? fun e => e.1 == category).map Prod.snd with
    | some result =>
      if result = "never".toList then false
      else if result = "on_failure".toList then failed
      else true
    | none => true

/-- `ApprovalBypassConfig`. -/
structure ApprovalBypass where
  bypassAll : Bool := false
  bypassCommandApproval : Bool := false
  bypassFileWriteApproval : Bool := false
  bypassToolConfirmation : Bool := false
  bypassNetworkApproval : Bool := false

def ApprovalBypass.bypassesCategory (bypass : ApprovalBypass) (category : Text) : Bool :=
  if bypass.bypassAll then true
  else if category = "exec".toList then bypass.bypassCommandApproval
  else if category = "file_write".toList then bypass.bypassFileWriteApproval
  else if category = "network".toList then bypass.bypassNetworkApproval
  else bypass.bypassToolConfirmation

/-- What the engine reads of a `PermissionProfile`. -/
structure PermissionProfile where
  permanentAllowlist : List Text := []
  execAllowPrefixes : List (List Text) := []
  execDenyPrefixes : List (List Text) := []
  execPolicy : Option ExecPolicy := none
  approvalPolicy : Option ApprovalPolicy := none

/-- What the engine reads of a `ToolExecutionContext`. -/
structure Call where
  toolName : Text
  arguments : Dict
  permissionProfile : Option PermissionProfile := none
  bypassApproval : Bool := false
  forceApproval : Bool := false

inductive PermissionVerdict where
  | allow
  | deny
  | approvalRequired
  deriving DecidableEq

structure PermissionDecision where
  verdict : PermissionVerdict
  category : Text := []
  description : Text := []
  reason : Text := []
  details : Dict := []
  allowPermanent : Bool := false

/-! ## Tools -/

def readOnlyTools : List Text :=
  ["read_file", "list_dir", "session_search", "trace_search", "docx_read", "pptx_read",
    "xlsx_read", "declare_result_files"].map String.toList

def networkTools : List Text :=
  ["web_search", "web_fetch", "paper_search", "paper_get", "paper_download"].map String.toList

def fileWriteTools : List Text :=
  ["write_file", "edit_file", "delete_file", "apply_patch", "docx_write", "pptx_write",
    "xlsx_write", "create_docx", "create_pptx", "create_xlsx", "edit_docx",
    "append_xlsx"].map String.toList

def toolConfirmationTools : List Text :=
  ["memory", "message", "skill_manage", "plan_create", "plan_update", "spawn", "task_begin",
    "task_end", "cron", "mcp_sure_sure_check", "mcp_sure_sure_get_report",
    "mcp_sure_sure_get_repair", "mcp_sure_sure_recheck", "mcp_sure_sure_status"].map String.toList

def sureProjectTools : List Text :=
  ["mcp_sure_sure_check", "mcp_sure_sure_recheck", "mcp_sure_sure_get_repair"].map String.toList

def safeCommandPrefixes : List Text :=
  ["ls ", "cat ", "head ", "tail ", "wc ", "grep ", "find ", "which ", "pwd ", "echo ", "date ",
    "whoami ", "git status", "git log", "git diff", "git branch", "python --version",
    "node --version", "cargo --version", "npm --version", "pip list", "poetry --version",
    "uv --version", "dir ", "type "].map String.toList

/-- `_SHELL_METACHAR_PATTERN`. -/
def isShellMetachar (c : Char) : Bool := ";&|`$(){}[]<>!\n\r".toList.contains c

/-! ## Keys -/

section Keys
variable (host : Host)

/-- `str.rfind` of one character, with no index where it does not occur. -/
def rfind (c : Char) (t : Text) : Option Nat :=
  (t.reverse.findIdx? fun d => d == c).map fun i => t.length - 1 - i

/-- The first of the values that is true, or the last one. -/
def firstTrue (host : Host) : List Value → Value
  | [] => .str []
  | [v] => v
  | v :: vs => if truthy host.toPython v then v else firstTrue host vs

/-- The suffix `_office_target_path` gives the tool. -/
def suffixByTool (toolName : Text) : Option Text :=
  ([("create_docx", ".docx"), ("docx_write", ".docx"), ("edit_docx", ".docx"),
      ("create_xlsx", ".xlsx"), ("xlsx_write", ".xlsx"), ("append_xlsx", ".xlsx"),
      ("create_pptx", ".pptx"), ("pptx_write", ".pptx")].find? fun e =>
    e.1.toList == toolName).map fun e => e.2.toList

/-- The name with the suffix, as `_office_target_path` puts it. -/
def withTargetSuffix (suffix path : Text) : Text :=
  let slash := max (((rfind '/' path).map (· + 1)).getD 0) (((rfind '\\' path).map (· + 1)).getD 0)
  match rfind '.' path with
  | some dot =>
    -- the indices behind the separators, 0 for none
    if dot + 1 > slash then
      if (host.lower path).drop dot = suffix then path else path.take dot ++ suffix
    else path ++ suffix
  | none => path ++ suffix

def officeTargetPath (toolName : Text) (arguments : Dict) : Text :=
  let path := firstTrue host [(arguments.get "path").getD (.str []),
    (arguments.get "file_path").getD (.str []), (arguments.get "filename").getD (.str [])]
  if !truthy host.toPython path then []
  else
    match suffixByTool toolName with
    | none => str host.toPython path
    | some suffix => withTargetSuffix host suffix (str host.toPython path)

mutual

/-- The value with the keys of its dictionaries in order. -/
def sortKeys : Value → Value
  | .arr xs => .arr (sortKeysItems xs)
  | .obj fields => .obj ((sortKeysFields fields).mergeSort fun a b => !(b.1 < a.1))
  | v => v

def sortKeysItems : List Value → List Value
  | [] => []
  | x :: xs => sortKeys x :: sortKeysItems xs

def sortKeysFields : Dict → Dict
  | [] => []
  | (k, v) :: fields => (k, sortKeys v) :: sortKeysFields fields

end

def keyFor (toolName : Text) (arguments : Dict) : Text :=
  toolName ++ ':' :: host.digest (print (sortKeys (.obj arguments)))

def makeKey (call : Call) : Text :=
  if call.toolName = "exec".toList then
    "exec:".toList ++ str host.toPython ((call.arguments.get "command").getD (.str []))
  else if fileWriteTools.contains call.toolName then
    call.toolName ++ ':' :: officeTargetPath host call.toolName call.arguments
  else keyFor host call.toolName call.arguments

end Keys

/-! ## The engine -/

/-- The engine, with the allowlist all sessions share. -/
structure PermissionEngine where
  permanentAllowlist : List Text := []
  denyPatterns : List Text := []
  sessionAllowlist : List Text := []
  approvalBypass : Option ApprovalBypass := none
  globalAllowlist : List Text := []

section Texts
variable (host : Host)

/-- The value of the first key that has a true one, as text. -/
def firstText (arguments : Dict) (keys : List String) : Text :=
  match (keys.filterMap arguments.get).find? fun v => truthy host.toPython v with
  | some v => str host.toPython v
  | none => []

def formatManualHint (toolName : Text) (arguments : Dict) : Text :=
  let headed := fun (head : String) (body other : Text) =>
    if body = [] then other else head.toList ++ body
  if (["write_file", "edit_file", "apply_patch"].map String.toList).contains toolName then
    headed "修改文件: " (firstText host arguments ["path", "file_path"]) "修改文件".toList
  else if toolName = "exec".toList then
    headed "执行命令: " ((str host.toPython ((arguments.get "command").getD (.str []))).take 80)
      "执行命令".toList
  else if toolName = "delete".toList then
    headed "删除: " (firstText host arguments ["path"]) toolName
  else if toolName = "move".toList then
    headed "移动: " (firstText host arguments ["path"]) toolName
  else if (["web_search", "web_fetch"].map String.toList).contains toolName then
    headed "网络请求: " ((firstText host arguments ["query", "url"]).take 60) "网络请求".toList
  else toolName

/-- `_network_target` and `_tool_target`. -/
def targetOf (arguments : Dict) (keys : List String) : Text :=
  match (keys.filterMap arguments.get).find? fun v => truthy host.toPython v with
  | some v => str host.toPython v
  | none => (repr host.toPython (.obj arguments)).take 120

def networkTarget (arguments : Dict) : Text :=
  targetOf host arguments ["url", "query", "paper_id", "doi", "title"]

def toolTarget (arguments : Dict) : Text :=
  targetOf host arguments ["action", "content", "title", "name"]

def isSafeCommand (cmd : Text) : Bool :=
  !(strip cmd).any isShellMetachar &&
    safeCommandPrefixes.any fun p => p.isPrefixOf (host.lower (strip cmd))

end Texts

namespace PermissionEngine

variable (host : Host) (engine : PermissionEngine) (call : Call)

def bypassesApproval (category : Text) : Bool :=
  match engine.approvalBypass with
  | some bypass => bypass.bypassesCategory category
  | none => false

/-- `_apply_approval_policy`, which is only asked before anything has failed. -/
def applyApprovalPolicy (decision : PermissionDecision) (profile : Option PermissionProfile) :
    PermissionDecision :=
  if decision.verdict ≠ .approvalRequired then decision
  else if engine.bypassesApproval decision.category then
    { decision with verdict := .allow, reason := "Auto-approved by approval bypass".toList }
  else
    match profile.bind (·.approvalPolicy) with
    | none => decision
    | some policy =>
      if policy.requiresPrompt decision.category false then decision
      else
        { decision with
          verdict := .allow
          reason := "Auto-approved by policy (".toList ++ policy.mode.value ++ [')'] }

/-- The deny pattern that is found in the name of the tool or in the rendering of its arguments. -/
def matchedDenyPattern : Option Text :=
  engine.denyPatterns.find? fun pattern =>
    decide (pattern <:+: call.toolName) ||
      decide (pattern <:+: repr host.toPython (.obj call.arguments))

/-- What is wrong with the project of a SURE tool. -/
def sureFault : Option Text :=
  if sureProjectTools.contains call.toolName then
    match call.arguments.get "project" with
    | some (.str project) =>
      if strip project = [] then some missing
      else if host.isAbsolute project then none
      else some ("project 必须是绝对路径（收到：".toList ++ reprString host.toPython project ++
        "）。请传该项目在工作区中的绝对路径后重试。".toList)
    | _ => some missing
  else none
where
  missing : Text := "缺少 project 参数。SURE 核查工具必须显式传项目绝对路径——".toList ++
    "省略时 SURE 会核查它自己的启动目录，而不是用户的项目。".toList ++
    "请把 project 设为该项目的绝对路径后重试。".toList

/-- The call is on one of the allowlists. -/
def allowlisted : Bool :=
  engine.sessionAllowlist.contains (makeKey host call) ||
    engine.permanentAllowlist.contains "*:*".toList ||
    engine.permanentAllowlist.contains (makeKey host call) ||
    engine.globalAllowlist.contains "*:*".toList ||
    engine.globalAllowlist.contains (makeKey host call)

/-- An approval for a command. -/
def askForCommand (description cmd : Text) (allowPermanent : Bool) : PermissionDecision :=
  engine.applyApprovalPolicy
    { verdict := .approvalRequired, category := "exec".toList, description
      details := [("command".toList, .str cmd)], allowPermanent } call.permissionProfile

/-- The safety check at the end of the exec branch. -/
def checkSafety (cmd : Text) : PermissionDecision :=
  if isSafeCommand host cmd then { verdict := .allow }
  else engine.askForCommand call ("Run: ".toList ++ cmd.take 100) cmd true

/-- The words of a prefix rule, joined by blanks. -/
def joined (words : List Text) : Text := [' '].intercalate words

/-- The prefix rules of a profile without an exec policy. -/
def checkPrefixes (profile : PermissionProfile) (cmd : Text) : PermissionDecision :=
  match profile.execDenyPrefixes.find? fun words => words.isPrefixOf (splitSpaces cmd) with
  | some words =>
    { verdict := .deny, reason := "Denied by permission profile prefix: ".toList ++ joined words }
  | none =>
    match profile.execAllowPrefixes.find? fun words => words.isPrefixOf (splitSpaces cmd) with
    | some words =>
      if isSafeCommand host cmd then
        { verdict := .allow
          reason := "Allowed by permission profile prefix: ".toList ++ joined words }
      else
        engine.askForCommand call
          ("Allowed prefix but command contains shell metacharacters: ".toList ++ cmd.take 100)
          cmd false
    | none => engine.checkSafety host call cmd

/-- The exec policy of a profile. -/
def checkPolicy (policy : ExecPolicy) (cmd : Text) : PermissionDecision :=
  let decision := policy.evaluateCommand host cmd
  match decision.verdict with
  | .deny => { verdict := .deny, reason := "Denied by exec policy: ".toList ++ decision.source }
  | .allow =>
    if (strip cmd).any isShellMetachar then
      engine.askForCommand call
        ("Policy allowed but command contains shell metacharacters: ".toList ++ cmd.take 100)
        cmd true
    else { verdict := .allow, reason := "Allowed by exec policy: ".toList ++ decision.source }
  | .prompt => engine.askForCommand call ("Run: ".toList ++ cmd.take 100) cmd true

/-- The command of an exec call. -/
def commandOf : Text := str host.toPython ((call.arguments.get "command").getD (.str []))

/-- The exec branch. -/
def checkExec : PermissionDecision :=
  let cmd := commandOf host call
  match call.permissionProfile with
  | none => engine.checkSafety host call cmd
  | some profile =>
    match profile.execPolicy with
    | some policy => engine.checkPolicy host call policy cmd
    | none => engine.checkPrefixes host call profile cmd

/-- The tools behind the exec branch: file writes, network, confirmation, and unknown ones. -/
def checkCategory : PermissionDecision :=
  engine.applyApprovalPolicy
    (if fileWriteTools.contains call.toolName then
      let path := officeTargetPath host call.toolName call.arguments
      { verdict := .approvalRequired, category := "file_write".toList
        description := call.toolName ++ ": ".toList ++ path
        details := [("path".toList, .str path), ("operation".toList, .str call.toolName)]
        allowPermanent := true }
    else if networkTools.contains call.toolName then
      let target := networkTarget host call.arguments
      { verdict := .approvalRequired, category := "network".toList
        description := (call.toolName ++ ": ".toList ++ target).take 200
        details := [("tool_name".toList, .str call.toolName), ("target".toList, .str target)]
        allowPermanent := true }
    else if toolConfirmationTools.contains call.toolName then
      { verdict := .approvalRequired, category := "tool_confirmation".toList
        description := (call.toolName ++ ": ".toList ++ toolTarget host call.arguments).take 200
        details := [("tool_name".toList, .str call.toolName),
          ("arguments".toList, .obj call.arguments)]
        allowPermanent := true }
    else
      { verdict := .approvalRequired, category := "tool_confirmation".toList
        description := "Unknown tool: ".toList ++ call.toolName
        details := [("tool_name".toList, .str call.toolName)] })
    call.permissionProfile

/-- The checks from the allowlists on. -/
def checkListed : PermissionDecision :=
  if engine.allowlisted host call then { verdict := .allow }
  else if readOnlyTools.contains call.toolName then { verdict := .allow }
  else if call.toolName = "exec".toList then engine.checkExec host call
  else engine.checkCategory host call

def check : PermissionDecision :=
  match engine.matchedDenyPattern host call with
  | some pattern => { verdict := .deny, reason := "Matches deny pattern: ".toList ++ pattern }
  | none =>
    match sureFault host call with
    | some fault => { verdict := .deny, reason := fault }
    | none =>
      if call.toolName = "ask_user_confirm_card".toList then { verdict := .allow }
      else if call.bypassApproval then
        { verdict := .allow, category := "run".toList
          reason := "Bypassed by execution policy (bypass mode)".toList }
      else if call.forceApproval then
        { verdict := .approvalRequired, category := "run".toList
          reason := "Approval required by execution policy (manual mode)".toList
          description := "手动模式 · ".toList ++ formatManualHint host call.toolName call.arguments }
      else engine.checkListed host call

end PermissionEngine

end MiqroForge.Execution
