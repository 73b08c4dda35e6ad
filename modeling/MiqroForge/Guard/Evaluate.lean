import MiqroForge.Guard.Payload

/-!
The command guard: the destructive operations of a subcommand, the checks of their operands,
payloads and redirect targets, and the verdict on a command line.
-/

namespace MiqroForge.Guard

open PyText Regex Regex.Re

/-! ## Vocabulary -/

def deleteWords : List Text := ["rm", "rmdir", "del", "unlink", "shred"].map String.toList

def copyMoveWords : List Text := ["cp", "mv"].map String.toList

def writeWords : List Text := ["tee", "mkdir", "touch", "ln"].map String.toList

def scriptLaunchers : List Text :=
  ["python", "python2", "python3", "py", "perl", "ruby", "node", "nodejs", "php"].map
    String.toList

def shellLaunchers : List Text := ["bash", "sh", "zsh", "dash", "ksh", "ash"].map String.toList

def scriptFlags : List Text := ["-c", "-e", "-r"].map String.toList

def stdinLauncherFlags : List Text := ["-", "-s"].map String.toList

def installExcludePrev : List Text :=
  ["pip", "pip2", "pip3", "npm", "yarn", "pnpm", "make", "run", "apt", "apt-get", "dnf", "yum",
    "zypper", "apk", "pacman", "brew", "cargo", "go", "gem", "bundle", "poetry", "uv", "composer",
    "conda", "mamba", "pdm", "hatch", "rye", "meson", "ninja", "cmake", "xcodebuild", "dotnet",
    "nuget", "choco", "scoop", "flatpak", "snap", "emerge"].map String.toList

def devNullTargets : List Text :=
  ["/dev/null", "/dev/stdout", "/dev/stderr", "/dev/tty", "/dev/zero", "/dev/random",
    "/dev/urandom"].map String.toList

/-! ## Refusals -/

inductive PolicyKind where
  | delete
  | write
  | move
  | uncertain
  | workspaceRoot
  | authorizedRoot
  | findExec
  | privilege
  deriving DecidableEq

def header : String := "Error: 命令被沙箱护栏拦截。"

/-- `_REASON_TEXTS`. -/
def reasonText : ReasonCode → String
  | .privilege => "检测到提权操作（sudo）——沙箱内不提供 root 权限。"
  | .systemPath => "目标解析后位于系统路径（受保护）。"
  | .otherSession => "目标位于其他 session 的目录。"
  | .outsideWorkspace => "目标解析后位于当前 session 可操作范围之外。"
  | .workspaceLevel1 => "目标位于全局工作区内、但不在当前 session 可操作范围内（全局工作区只读）。"
  | .workspaceRoot => "目标是工作区或 session 根目录本身。"
  | .authorizedRoot => "目标是用户授权目录本身。"
  | .uncertainPath => "目标含变量/通配符/命令替换等无法静态解析的成分。"
  | .scriptUncertain => "内联脚本中的破坏性操作无法静态确定目标路径。"
  | .findExec => "find 的 -exec/-execdir 会执行任意程序，无法静态验证删除范围。"

/-- `_POLICY_TEXTS`. -/
def policyText : PolicyKind → String
  | .delete => "只允许删除当前 session 工作区或用户授权目录内的文件。"
  | .write => "只允许写入当前 session 工作区或用户授权目录内的文件。"
  | .move => "只允许在当前 session 工作区或用户授权目录内移动/重命名文件。"
  | .uncertain => "无法确认作用范围的破坏性操作一律拒绝（宁可误拒）。"
  | .workspaceRoot => "禁止删除工作区或 session 根目录。"
  | .authorizedRoot => "授权目录内的文件可写可删，但目录本身不可删除。"
  | .findExec => "无法确认删除范围的 find 操作一律拒绝。"
  | .privilege => "沙箱为无特权环境，系统目录只读，提权命令不可用。"

/-- `_SAFE_TEXTS`. -/
def safeText : PolicyKind → String
  | .delete =>
    "请将目标限定在当前 session 目录内，例如：rm -rf ./run-output；" ++
      "会话外目录请让用户在消息中点名该目录（本轮即授权）。"
  | .write =>
    "请将写入目标限定在当前 session 目录内；写入会话外目录请用文件工具" ++
      "（write_file），或让用户在消息中点名该目录（本轮即授权 exec 写入）。"
  | .move => "请将源与目标都限定在当前 session 目录或用户授权目录内。"
  | .uncertain => "请使用明确的目录名（如 rm -rf ./run-output），不要使用 $变量、通配符或命令替换。"
  | .workspaceRoot => "请指定根目录下的具体子目录，例如：rm -rf ./run-output"
  | .authorizedRoot =>
    "请删除授权目录内的具体文件（例如 rm -rf <授权目录>/sub），目录本身请让用户处理。"
  | .findExec => "请用 rm 加明确路径逐个删除，或对 session 目录内的明确子目录执行 find。"
  | .privilege =>
    "用户级安装：python3 -m pip install --user <包名>；" ++
      "系统包安装：请在 设置 > 沙箱隔离 中开启「允许系统包安装」后，" ++
      "sudo apt-get install ... 会自动路由到 WSL 发行版以 root 执行" ++
      "（仅 Windows + WSL；沙箱环境授权时会出现确认卡，也可选「允许本次安装」）。"

def refusal (opDesc : String) (code : ReasonCode) (target : Text) (policy : PolicyKind) : String :=
  header ++ "\n原因：检测到" ++ opDesc ++ "，" ++ reasonText code ++ "\n当前策略：" ++
    policyText policy ++ "\n目标：" ++ String.ofList target ++ "\n安全替代：" ++ safeText policy

def privilegeMsg : String :=
  header ++ "\n原因：" ++ reasonText .privilege ++ "\n当前策略：" ++ policyText .privilege ++
    "\n安全替代：" ++ safeText .privilege

/-! ## Operations -/

inductive OpKind where
  | delete
  | copy
  | move
  | write
  | findDelete
  | inlineScript
  deriving DecidableEq

structure FileOp where
  kind : OpKind
  display : Text
  operands : List Token := []
  extra : Text := []

/-- `_op_descriptions()[kind].format(verb=display)`. -/
def opDescription (kind : OpKind) (display : Text) : String :=
  let verb := String.ofList display
  match kind with
  | .delete => "删除操作（" ++ verb ++ "）"
  | .copy => "复制操作（" ++ verb ++ "）"
  | .move => "移动操作（" ++ verb ++ "）"
  | .write => "写入操作（" ++ verb ++ "）"
  | .findDelete => "find 批量删除"
  | .inlineScript => "内联脚本破坏性调用（" ++ verb ++ "）"

/-- `^/[A-Za-z]+$`. -/
def isWindowsFlag : Text → Bool
  | '/' :: rest => rest.takeWhile isAsciiLetter ≠ [] && atEnd (rest.dropWhile isAsciiLetter)
  | _ => false

/-- `_is_flag` on the text of a token. -/
def isFlag (text : Text) (windowsFlags : Bool) : Bool :=
  text.head? == some '-' || (windowsFlags && isWindowsFlag text)

def hasAngle (text : Text) : Bool := text.any fun c => c == '<' || c == '>'

/-- The operands among the tokens behind an operator. -/
def operandsOf (rest : List Token) (windowsFlags : Bool) : List Token :=
  rest.filter fun t => !isFlag t.text windowsFlags && !hasAngle t.text

def stripQuotes (t : Text) : Text := stripBy isQuoteChar t

def startsHeredoc (tok : Token) : Bool := "<<".toList.isPrefixOf tok.text

section Detect
variable (env : GuardEnv)

def rawHeredocBody (command delim : Text) : Option Text := do
  let quote := opt (char isQuoteChar)
  let opener := all [lit "<<", opt (lit "-"), spaces, quote, lit (String.ofList delim), quote]
  let (_, e) ← search (isWordChar env) command opener
  let nl ← findFrom? ['\n'] e command
  let stop := ((findFrom? ('\n' :: delim) nl command).or (findFrom? delim nl command)).getD
    command.length
  some (slice command (nl + 1) stop)

def extractHeredocPayload (tokens : List Token) (raw : Option Text) : Text :=
  match tokens.dropWhile fun tok => !startsHeredoc tok with
  | [] => []
  | tok :: rest =>
    let opened := tok.text.drop 2
    let opened := if opened.head? = some '-' then opened.drop 1 else opened
    let opened :=
      match rest with
      | next :: _ => if opened = [] then stripQuotes next.text else opened
      | [] => opened
    let delim := stripQuotes opened
    if delim = [] then []
    else
      match raw.bind fun command => rawHeredocBody env command delim with
      | some body => body
      | none => [' '].intercalate ((rest.takeWhile fun t => t.text ≠ delim).map Token.text)

/-- The launcher branch of `_detect_ops`, on the tokens behind the launcher. -/
def scriptOps (display : Text) (raw : Option Text) : List Token → List FileOp
  | [] => []
  | flag :: rest =>
    let script (payload : Text) : List FileOp :=
      if payload = [] then [] else [⟨.inlineScript, display, [], payload⟩]
    if flag.text ∈ scriptFlags then
      match rest with
      | next :: _ => script next.text
      | [] => []
    else
      (if flag.text ∈ stdinLauncherFlags then script (extractHeredocPayload env rest raw)
        else []) ++ scriptOps display raw rest

/-- The `find` branch of `_detect_ops`, on the tokens behind the word. -/
def findOps (rest : List Token) : List FileOp :=
  let hasDelete := rest.any fun t => t.text == "-delete".toList
  let hasExec := rest.any fun t => t.text == "-exec".toList || t.text == "-execdir".toList
  let isTest (t : Token) : Bool :=
    !t.quoted && (t.text.head? == some '-' || t.text == ['!'] || t.text == ['('] || t.text == [')'])
  if hasDelete || hasExec then
    [⟨.findDelete, "find".toList, rest.takeWhile fun t => !isTest t,
      if hasExec then "exec".toList else "delete".toList⟩]
  else []

/-- The operations one token stands for: `prev` is the text of the token before it, `rest` the
tokens behind it. -/
def opsAt (raw : Option Text) (prev : Text) (text : Text) (rest : List Token) : List FileOp :=
  if text ∈ deleteWords then
    [⟨.delete, text, operandsOf rest (text == "del".toList || text == "rmdir".toList), []⟩]
  else if text ∈ copyMoveWords then
    [⟨if text = "mv".toList then .move else .copy, text, operandsOf rest false, []⟩]
  else if text = "install".toList then
    if prev ∈ installExcludePrev then [] else [⟨.copy, text, operandsOf rest false, []⟩]
  else if text = "find".toList then findOps rest
  else if text ∈ scriptLaunchers ∨ text ∈ shellLaunchers then scriptOps env text raw rest
  else if text ∈ writeWords then
    let operands := operandsOf rest false
    -- only the name of the link is a write target
    let operands := if text = "ln".toList then operands.drop (operands.length - 1) else operands
    [⟨.write, text, operands, []⟩]
  else []

/-- The loop of `_detect_ops` from index `i`. -/
def detectFrom (positions : List Nat) (raw : Option Text) :
    (i : Nat) → (prev : Text) → List Token → List FileOp
  | _, _, [] => []
  | i, prev, tok :: rest =>
    -- a quoted argument is never an operator
    (if tok.quoted ∧ i ∉ positions then [] else opsAt env raw prev tok.text rest) ++
      detectFrom positions raw (i + 1) tok.text rest

def detectOps (tokens : List Token) (raw : Option Text) : List FileOp :=
  detectFrom env (commandPositions tokens) raw 0 [] tokens

end Detect

/-! ## Checks -/

/-- The target part of a text that `_REDIRECT_RE` matches: `^(?:[12]?&?)?>{1,2}(.*)$`. -/
def redirectTarget (text : Text) : Option Text :=
  let body := match text with
    | '1' :: rest => rest
    | '2' :: rest => rest
    | rest => rest
  let body := match body with
    | '&' :: rest => rest
    | rest => rest
  let target := match body with
    | '>' :: '>' :: rest => some rest
    | '>' :: rest => some rest
    | _ => none
  target.bind fun rest =>
    if atEnd (rest.dropWhile (· ≠ '\n')) then some (rest.takeWhile (· ≠ '\n')) else none

section Check
variable (env : GuardEnv)

/-- `_check_redirects`: the first refused target. -/
def checkRedirects (rt : RuntimePaths) (strict : Bool) :
    List Token → Option (ReasonCode × Text)
  | [] => none
  | tok :: rest =>
    let next := checkRedirects rt strict rest
    -- the operator itself was quoted or escaped
    if (tok.quoted ∧ tok.firstQuoted) ∨ tok.firstEscaped then next
    else
      match redirectTarget tok.text with
      | none => next
      | some attached =>
        if attached.head? = some '&' then next
        else
          let target := if attached ≠ [] then some attached else rest.head?.map Token.text
          match target with
          | none => next
          | some target =>
            let text := stripQuotes target
            if text = [] ∨ text.head? = some '&' then next
            else if text ∈ devNullTargets then next
            else if text.head? = some '(' then
              if strict then some (.uncertainPath, text) else next
            else
              match classifyOperand env text rt true with
              | .refused code display => some (code, display)
              | .ok _ => next

/-- A workspace or session root whose contents `find` may delete. -/
def findMayEmpty (rt : RuntimePaths) (display : Text) : Bool :=
  let d := pathStr env display
  let ws := dirText env rt.hostWorkspace
  let sess := dirText env rt.sessionFilesDir
  let key := rt.sessionKey env
  if d = "/home/miqi".toList ∨ d = "/home/miqi/workspace".toList then true
  else if ws ≠ [] ∧ (d = ws ∨ d = ws ++ sessionsSuffix) then false
  else if sess ≠ [] ∧ d = sess then true
  else decide (ws ≠ [] ∧ key ≠ [] ∧ d = ws ++ sessionsSuffix ++ '/' :: key)

/-- `_check_find_op`: code and message of a refusal. -/
def checkFindOp (op : FileOp) (rt : RuntimePaths) (sub : Text) : Option (ReasonCode × String) :=
  let desc := opDescription .findDelete op.display
  if op.extra = "exec".toList then
    some (.findExec, refusal desc .findExec (sub.take 200) .findExec)
  else
    let targets := if op.operands = [] then [['.']] else op.operands.map Token.text
    targets.findSome? fun t =>
      match classifyOperand env t rt true with
      | .ok _ => none
      | .refused code display =>
        if code = .workspaceRoot ∧ findMayEmpty env rt display then none
        else some (code, refusal desc code display .delete)

/-- The refusal of one operand, if it is refused. -/
def checkOperand (rt : RuntimePaths) (desc : String) (policy : PolicyKind) (forWrite : Bool)
    (t : Token) : Option (ReasonCode × String) :=
  match classifyOperand env t.text rt forWrite with
  | .ok _ => none
  | .refused code display => some (code, refusal desc code display policy)

/-- The refusal of one operand that is removed: it may not be an authorized root itself. -/
def checkRemoved (rt : RuntimePaths) (desc : String) (policy rootPolicy : PolicyKind)
    (t : Token) : Option (ReasonCode × String) :=
  match classifyOperand env t.text rt true with
  | .ok display =>
    if isAuthorizedRootItself env display rt then
      some (.authorizedRoot, refusal desc .authorizedRoot display rootPolicy)
    else none
  | .refused code display => some (code, refusal desc code display policy)

def checkOpsOperands (op : FileOp) (rt : RuntimePaths) : Option (ReasonCode × String) :=
  let desc := opDescription op.kind op.display
  let sources := op.operands.dropLast
  let target := op.operands.getLast?
  match op.kind with
  | .delete => op.operands.findSome? (checkRemoved env rt desc .delete .authorizedRoot)
  | .write => op.operands.findSome? (checkOperand env rt desc .write true)
  | .copy =>
    if op.operands.length < 2 then none
    else (sources.findSome? (checkOperand env rt desc .write false)).or
      (target.bind (checkOperand env rt desc .write true))
  | .move =>
    if op.operands.length < 2 then none
    else ((sources.findSome? (checkOperand env rt desc .move false)).or
      (sources.findSome? (checkRemoved env rt desc .move .move))).or
        (target.bind (checkOperand env rt desc .move true))
  | .findDelete => none
  | .inlineScript => none

/-- The check of one path literal of a payload. -/
def checkLiteral (payload : Text) (rt : RuntimePaths) (desc : String) (lit : Text) :
    Option (ReasonCode × String) :=
  let policy : PolicyKind :=
    if (search (isWordChar env) payload deleteCallRe).isSome then .delete else .write
  let removal := (search (isWordChar env) payload removalCallRe).isSome
  let forWrite := !onlyAsCopySource payload lit (copySourceSpans env payload)
  match classifyOperand env lit rt forWrite with
  | .ok display =>
    if forWrite ∧ removal ∧ isAuthorizedRootItself env display rt then
      some (.authorizedRoot, refusal desc .authorizedRoot display .authorizedRoot)
    else none
  | .refused code display =>
    some (code, refusal desc code display
      (if code = .authorizedRoot then .authorizedRoot
        else if forWrite then policy else .uncertain))

def checkScriptPayload (payload : Text) (rt : RuntimePaths) (desc : String) :
    Option (ReasonCode × String) :=
  if !payloadIsDestructive env payload then none
  else
    let literals := (extractStringLiterals payload).filter isPathLiteral
    if literals = [] then
      some (.scriptUncertain, refusal desc .scriptUncertain (payload.take 200) .uncertain)
    else literals.findSome? (checkLiteral env payload rt desc)

/-- An operation inside the payload of a shell launcher. -/
def checkInner (rt : RuntimePaths) (payload display : Text) (inner : FileOp) :
    Option (ReasonCode × String) :=
  let inner := { inner with display := display ++ " -c".toList }
  match inner.kind with
  | .inlineScript =>
    checkScriptPayload env inner.extra rt (opDescription .inlineScript inner.display)
  | .findDelete => checkFindOp env inner rt (payload.take 200)
  | _ => checkOpsOperands env inner rt

/-- The payload of a shell launcher, as a small subcommand of its own. -/
def checkNestedShell (rt : RuntimePaths) (payload display : Text) :
    Option (ReasonCode × String) :=
  let innerTokens := tokenize payload
  let innerOps := detectOps env innerTokens none
  match checkRedirects env rt (!innerOps.isEmpty) innerTokens with
  | some (code, target) =>
    some (code, refusal (String.ofList display ++ " -c 中的写入操作（重定向）") code target .write)
  | none => innerOps.findSome? (checkInner env rt payload display)

/-- One operation of a subcommand. -/
def checkOp (rt : RuntimePaths) (sub : Text) (op : FileOp) : Option (ReasonCode × String) :=
  match op.kind with
  | .findDelete => checkFindOp env op rt sub
  | .inlineScript =>
    if op.display ∈ shellLaunchers then checkNestedShell env rt op.extra op.display
    else checkScriptPayload env op.extra rt (opDescription .inlineScript op.display)
  | _ => checkOpsOperands env op rt

/-! ## The verdict -/

structure GuardVerdict where
  allowed : Bool
  message : String
  reasonCode : Option ReasonCode
  subcommands : List Text
  handled : List Nat

/-- `sudo` in command position. -/
def asksPrivilege (tokens : List Token) : Bool :=
  (commandPositions tokens).any fun i => (tokens[i]?.map Token.text) == some "sudo".toList

/-- The checks of one subcommand in their order. -/
def checkSubcommand (rt : RuntimePaths) (sub : Text) : Option (ReasonCode × String) :=
  let tokens := tokenize sub
  let ops := detectOps env tokens (some sub)
  if asksPrivilege tokens then some (.privilege, privilegeMsg)
  else
    match checkRedirects env rt (!ops.isEmpty) tokens with
    | some (code, target) => some (code, refusal "写入操作（重定向）" code target .write)
    | none => ops.findSome? (checkOp env rt sub)

/-- Whether the capability engine gets to the file operations of the subcommand. -/
def isHandled (rt : RuntimePaths) (sub : Text) : Bool :=
  let tokens := tokenize sub
  let ops := detectOps env tokens (some sub)
  !asksPrivilege tokens && (checkRedirects env rt (!ops.isEmpty) tokens).isNone && !ops.isEmpty

/-- The loop of `evaluate_command` from index `idx`. -/
def evaluateFrom (rt : RuntimePaths) (subcommands : List Text) :
    (idx : Nat) → (handled : List Nat) → List Text → GuardVerdict
  | _, handled, [] => ⟨true, "", none, subcommands, handled⟩
  | idx, handled, sub :: rest =>
    let handled := if isHandled env rt sub then handled ++ [idx] else handled
    match checkSubcommand env rt sub with
    | some (code, message) => ⟨false, message, some code, subcommands, handled⟩
    | none => evaluateFrom rt subcommands (idx + 1) handled rest

def evaluateCommand (command : Text) (rt : RuntimePaths) : GuardVerdict :=
  let subcommands := splitSubcommands env command
  evaluateFrom env rt subcommands 0 [] subcommands

end Check

end MiqroForge.Guard
