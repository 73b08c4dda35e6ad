import MiqroForge.Library.Paths

/-!
The path classifier of the command guard: one operand text is resolved and matched
against the session scope. Texts are compared in the form `_norm_str` gives them.
-/

namespace MiqroForge.Guard

open PyText Paths

/-- The host: `os.name`, `str.lower`, `str.isalnum` of one character, `os.path.expanduser`,
and `resolve` of `base / path` (or of `path` alone), which gives no path when it raises. -/
structure GuardEnv where
  nt : Bool := false
  lower : Text → Text := id
  lower_slash : lower ['/'] = ['/'] := by rfl
  isalnum : Char → Bool := Char.isAlphanum
  expanduser : Text → Text := id
  resolve : Option Text → Text → Option Text

theorem id_slash : id (['/'] : Text) = ['/'] := rfl

/-- `RuntimePaths`: host and sandbox context of one evaluation. -/
structure RuntimePaths where
  hostCwd : Text
  hostWorkspace : Option Text := none
  sessionFilesDir : Option Text := none
  sandboxActive : Bool := false
  sandboxCwd : Text := "/home/miqi/workspace".toList
  miqiHome : Option Text := none
  hostHome : Option Text := none
  extraWriteRoots : List Text := []

inductive ReasonCode where
  | privilege
  | systemPath
  | otherSession
  | outsideWorkspace
  | workspaceLevel1
  | workspaceRoot
  | authorizedRoot
  | uncertainPath
  | scriptUncertain
  | findExec
  deriving DecidableEq, Repr

/-- The result of a classification, with the target as displayed. -/
inductive Classified where
  | ok (display : Text)
  | refused (code : ReasonCode) (display : Text)
  deriving DecidableEq, Repr

/-! ## Path machinery -/

/-- One segment of `_lex_norm`, on the reversed parts. -/
def lexStep (parts : List Text) (seg : Text) : List Text :=
  if seg = [] ∨ seg = ".".toList then parts
  else if seg = "..".toList then
    match parts with
    | [] => []
    | p :: rest => if p = "..".toList then seg :: p :: rest else rest
  else seg :: parts

def lexNorm (path : Text) : Text :=
  let slashed := path.map fun c => if c = '\\' then '/' else c
  '/' :: join ((split slashed).foldl lexStep []).reverse

section Env
variable (env : GuardEnv)

/-- `_norm_str`: forward slashes, lower case on Windows. -/
def normStr (path : Text) : Text :=
  let s := path.map fun c => if c = '\\' then '/' else c
  if env.nt then env.lower s else s

def under (path parent : Text) : Bool :=
  if parent = [] then false
  else
    let p := normStr env path
    let q := rstripSlash (normStr env parent)
    (q ++ ['/']).isPrefixOf p || p == q

def authorizedWrite (pstr : Text) (rt : RuntimePaths) : Bool :=
  rt.extraWriteRoots.any fun root => under env pstr root

def isAuthorizedRootItself (pstr : Text) (rt : RuntimePaths) : Bool :=
  let p := rstripSlash (normStr env pstr)
  rt.extraWriteRoots.any fun root => p ≠ [] && p == rstripSlash (normStr env root)

def systemPosixRoots : List Text :=
  ["/etc", "/usr", "/bin", "/sbin", "/lib", "/lib64", "/opt", "/var", "/root", "/boot", "/dev",
    "/proc", "/sys", "/run", "/mnt", "/tmp", "/var/tmp"].map String.toList

/-- `n == root or n.startswith(root + "/")`. -/
def atOrBelow (n root : Text) : Bool := n == root || (root ++ ['/']).isPrefixOf n

/-- The end of a text, or the place before its final newline. -/
def atEnd (rest : Text) : Bool := rest == [] || rest == ['\n']

def protectedDriveTrees : List Text :=
  ["windows", "program files", "program files (x86)", "programdata", "system32"].map String.toList

/-- A drive root or a protected tree of a drive, in lower case. -/
def isDriveSystemPath : Text → Bool
  | c :: ':' :: rest =>
    'a' ≤ c && c ≤ 'z' &&
      (atEnd rest ||
        match rest with
        | '/' :: tail => atEnd tail || protectedDriveTrees.any fun tree =>
            tree.isPrefixOf tail &&
              ((tail.drop tree.length).head? == some '/' || atEnd (tail.drop tree.length))
        | _ => false)
  | _ => false

/-- `x` when it is set and not empty. -/
def setText (x : Option Text) : Option Text := x.filter (· ≠ [])

def isSystemPath (pstr : Text) (rt : RuntimePaths) : Bool :=
  let n := rstripSlash (normStr env pstr)
  (if env.nt then isDriveSystemPath n else systemPosixRoots.any (atOrBelow n)) ||
    (match setText rt.hostHome with
      | some h =>
        let home := rstripSlash (normStr env h)
        n == home || (home ++ "/.ssh".toList).isPrefixOf n
      | none => false) ||
    match setText rt.miqiHome with
      | some h => atOrBelow n (rstripSlash (normStr env h))
      | none => false

/-- The name components of `Path(s)`, its drive or share left out. -/
def pathParts (s : Text) : List Text :=
  let rest :=
    if env.nt then
      match s.map fun c => if c = '\\' then '/' else c with
      | '/' :: '/' :: unc => join ((split unc).drop 2)
      | _ :: ':' :: tail => tail
      | other => other
    else s
  (split rest).filter fun c => c ≠ [] ∧ c ≠ ".".toList

/-- `Path(s).parent.name`. -/
def parentName (s : Text) : Text := (pathParts env s).dropLast.getLast?.getD []

def RuntimePaths.currentSessionKey (rt : RuntimePaths) : Option Text :=
  (setText rt.sessionFilesDir).map (parentName env)

/-- `_norm_str(rt.current_session_key or "")`. -/
def RuntimePaths.sessionKey (rt : RuntimePaths) : Text :=
  normStr env ((rt.currentSessionKey env).getD [])

/-- The comparison text of an optional directory, empty when it is not set. -/
def dirText (dir : Option Text) : Text :=
  match setText dir with
  | some d => rstripSlash (normStr env d)
  | none => []

/-! ## Classification -/

/-- The comparison text of a resolved path: `_norm_str(str(p)).rstrip("/") or "/"`. -/
def pathStr (resolved : Text) : Text :=
  let t := rstripSlash (normStr env resolved)
  if t = [] then ['/'] else t

def sessionsSuffix : Text := "/sessions".toList

/-- The rules of `_classify_host` on the comparison text of the resolved path. -/
def classifyResolved (pstr : Text) (rt : RuntimePaths) (forWrite : Bool) : Classified :=
  let ws := dirText env rt.hostWorkspace
  let sess := dirText env rt.sessionFilesDir
  let cwd := rstripSlash (normStr env rt.hostCwd)
  let sessions := ws ++ sessionsSuffix
  -- 1. the workspace root, 2. the session files dir
  if ws ≠ [] ∧ pstr = ws then
    if forWrite then .refused .workspaceRoot pstr else .ok pstr
  else if sess ≠ [] ∧ pstr = sess then
    if forWrite then .refused .workspaceRoot pstr else .ok pstr
  -- 3. session trees
  else if ws ≠ [] ∧ atOrBelow pstr sessions then
    let key := firstPart (pstr.drop (sessions.length + 1))
    if key ≠ rt.sessionKey env then .refused .otherSession pstr
    else if forWrite ∧ pstr = sessions ++ '/' :: key then .refused .workspaceRoot pstr
    else .ok pstr
  -- 4. the cwd subtree, 5. reads
  else if under env pstr cwd then .ok pstr
  else if !forWrite then .ok pstr
  -- 6. system paths, 6b. authorized roots, 7. the rest of the workspace
  else if isSystemPath env pstr rt then .refused .systemPath pstr
  else if authorizedWrite env pstr rt then .ok pstr
  else if ws ≠ [] ∧ under env pstr ws then .refused .workspaceLevel1 pstr
  else .refused .outsideWorkspace pstr

def classifyHost (path : Text) (rt : RuntimePaths) (forWrite relative : Bool) : Classified :=
  match env.resolve (if relative then some rt.hostCwd else none) path with
  | none => .refused .uncertainPath path
  | some p => classifyResolved env (pathStr env p) rt forWrite

def isAsciiLetter (c : Char) : Bool := ('a' ≤ c && c ≤ 'z') || ('A' ≤ c && c ≤ 'Z')

/-- `^/([a-zA-Z])/(.+)$` rewritten to `X:/rest`, with the prefix given. -/
def driveForm : Text → Option Text
  | '/' :: c :: '/' :: rest =>
    let body := rest.takeWhile (· ≠ '\n')
    if isAsciiLetter c && body ≠ [] && atEnd (rest.dropWhile (· ≠ '\n')) then
      some (c.toUpper :: ':' :: '/' :: body)
    else none
  | _ => none

def mntPrefix : Text := "/mnt".toList

def classifySandboxAbs (path : Text) (rt : RuntimePaths) (forWrite : Bool) : Classified :=
  let norm := lexNorm path
  if norm = "/home/miqi".toList ∨ norm = "/home/miqi/workspace".toList then
    if forWrite then .refused .workspaceRoot norm else .ok norm
  else if "/home/miqi/".toList.isPrefixOf norm then .ok norm
  else if atOrBelow norm "/tmp".toList ∨ atOrBelow norm "/var/tmp".toList then .ok norm
  else if "/mnt/".toList.isPrefixOf norm then
    match driveForm (norm.drop mntPrefix.length) with
    | some p => classifyHost env p rt forWrite false
    | none => .refused .outsideWorkspace norm
  else if normStr env norm = ['/'] ∨ systemPosixRoots.any (atOrBelow (normStr env norm)) ∨
      isSystemPath env norm rt then
    if forWrite then .refused .systemPath norm else .ok norm
  else if forWrite ∧ authorizedWrite env norm rt then .ok norm
  else if forWrite then .refused .outsideWorkspace norm
  else .ok norm

/-- `raw.strip().strip('\'"')`. -/
def operandText (raw : Text) : Text := stripBy (fun c => c == '\x27' || c == '\x22') (strip raw)

/-- A Windows drive or UNC path. -/
def isWinAbs : Text → Bool
  | '\\' :: '\\' :: _ => true
  | c :: ':' :: d :: _ => isAsciiLetter c && (d == '\\' || d == '/')
  | _ => false

/-- Shell expansion, globbing and escapes cannot be resolved statically. -/
def isExpansion (text : Text) : Bool :=
  text.any fun c => c == '$' || c == '\x60' || c == '*' || c == '?' || c == '['

/-- The tilde expansion of a text that begins with a tilde. -/
def expandTilde (text : Text) (rt : RuntimePaths) : Option Text :=
  if rt.sandboxActive then
    match text with
    | ['~'] => some "/home/miqi".toList
    | '~' :: '/' :: rest => some ("/home/miqi/".toList ++ rest)
    | _ => none
  else if env.expanduser text = text then none
  else some (env.expanduser text)

/-- The branches of `_classify_operand` behind the tilde expansion. -/
def classifyExpanded (text : Text) (rt : RuntimePaths) (forWrite : Bool) : Classified :=
  match if rt.sandboxActive then none else driveForm text with
  | some p => classifyHost env p rt forWrite false
  | none =>
    if text.head? = some '/' then
      if rt.sandboxActive then classifySandboxAbs env text rt forWrite
      else classifyHost env text rt forWrite false
    else if rt.sandboxActive then
      classifySandboxAbs env (lexNorm (rt.sandboxCwd ++ '/' :: text)) rt forWrite
    else classifyHost env text rt forWrite true

def classifyOperand (raw : Text) (rt : RuntimePaths) (forWrite : Bool) : Classified :=
  let text := operandText raw
  if text = [] then .refused .uncertainPath text
  else if isExpansion text then .refused .uncertainPath text
  else if !isWinAbs text && text.any (· == '\\') then .refused .uncertainPath text
  else if isWinAbs text then classifyHost env text rt forWrite false
  else if text.head? = some '~' then
    match expandTilde env text rt with
    | none => .refused .uncertainPath text
    | some t => classifyExpanded env t rt forWrite
  else classifyExpanded env text rt forWrite

end Env

end MiqroForge.Guard
