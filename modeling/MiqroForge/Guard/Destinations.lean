import MiqroForge.Guard.DeleteSound
import MiqroForge.Library.GetOpt

/-!
The destinations of `cp`, `mv`, `install` and `find -delete`: what the programs make of their words,
what the guard picks from the tokens behind the command word, and where the two agree.
-/

namespace MiqroForge.Guard.Destinations

open PyText GetOpt List

/-! ## The programs -/

inductive Tool where
  | cp
  | mv
  | install
  | find
  deriving DecidableEq

def Tool.name : Tool → Text
  | .cp => "cp".toList
  | .mv => "mv".toList
  | .install => "install".toList
  | .find => "find".toList

def letters (flags required : String) (c : Char) : Option Arity :=
  if flags.toList.contains c then some .flag
  else if required.toList.contains c then some .required
  else none

def longNames (flags required optional : List String) : List (Text × Arity) :=
  flags.map (fun s => (s.toList, .flag)) ++ required.map (fun s => (s.toList, .required)) ++
    optional.map fun s => (s.toList, .optional)

def cpOptions : Table where
  short := letters "abdfHilLnprsuvxPRTZ" "tS"
  long := longNames
    ["archive", "attributes-only", "copy-contents", "debug", "dereference", "force", "interactive",
      "keep-directory-symlink", "link", "no-clobber", "no-dereference", "no-target-directory",
      "one-file-system", "parents", "path", "recursive", "remove-destination",
      "strip-trailing-slashes", "symbolic-link", "verbose", "help", "version"]
    ["no-preserve", "sparse", "suffix", "target-directory"]
    ["backup", "context", "preserve", "reflink", "update"]

def mvOptions : Table where
  short := letters "bfinuvTZ" "tS"
  long := longNames
    ["context", "debug", "exchange", "force", "interactive", "no-clobber", "no-copy",
      "no-target-directory", "strip-trailing-slashes", "verbose", "help", "version"]
    ["suffix", "target-directory"] ["backup", "update"]

def installOptions : Table where
  short := letters "bcCsDdpTvZ" "gmotS"
  long := longNames
    ["compare", "debug", "directory", "no-target-directory", "preserve-timestamps",
      "preserve-context", "strip", "verbose", "help", "version"]
    ["group", "mode", "owner", "strip-program", "suffix", "target-directory"]
    ["backup", "context"]

/-- The option under one of its two names. -/
def isOpt (c : Char) (name : String) : Opt → Bool
  | .short c' _ => c' == c
  | .long name' _ => name' == name.toList

def targetDirectory : Opt → Option Text
  | .short 't' arg => arg
  | .long name arg => if name = "target-directory".toList then arg else none
  | _ => none

/-- What is written to, nothing where the program ends with a message. -/
def copyTargets (opts : List Opt) (operands : List Text) : List Text :=
  let exact := opts.any (isOpt 'T' "no-target-directory")
  if opts.any fun o => o = .long "help".toList none ∨ o = .long "version".toList none then []
  else
    match opts.filterMap targetDirectory with
    | [] =>
      if operands.length < 2 ∨ (exact ∧ operands.length ≠ 2) then [] else operands.getLast?.toList
    | [dir] => if operands = [] ∨ exact then [] else [dir]
    | _ => []

/-- `install -d` makes every operand a directory. -/
def installTargets (opts : List Opt) (operands : List Text) : List Text :=
  if opts.any (isOpt 'd' "directory") then
    if (opts.filterMap targetDirectory).isEmpty then operands else []
  else copyTargets opts operands

/-- The words behind the leading options of `find`; `skip` says that one is the argument of `-D`. -/
def behindLeading : (skip : Bool) → List Text → List Text
  | _, [] => []
  | true, _ :: words => behindLeading false words
  | false, word :: words =>
    if word ∈ ["-H", "-L", "-P"].map String.toList ∨ "-O".toList.isPrefixOf word then
      behindLeading false words
    else if word = "-D".toList then behindLeading true words
    else if word = "--".toList then words
    else word :: words

/-- The first word of an expression. -/
def startsExpression (word : Text) : Bool :=
  (word.head? == some '-' && word != ['-']) || word == ['('] || word == ['!']

/-- What of an expression is passed over: the arguments of a test, or a command to its `;`. -/
inductive Skip where
  | args (n : Nat)
  | command

def findTests : List Text :=
  ["-amin", "-anewer", "-atime", "-cmin", "-cnewer", "-context", "-ctime", "-fls", "-fprint",
    "-fprint0", "-fstype", "-gid", "-group", "-ilname", "-iname", "-inum", "-ipath", "-iregex",
    "-iwholename", "-links", "-lname", "-maxdepth", "-mindepth", "-mmin", "-mtime", "-name",
    "-path", "-perm", "-printf", "-regex", "-regextype", "-samefile", "-size", "-type", "-uid",
    "-used", "-user", "-wholename", "-xtype"].map String.toList

/-- What belongs to a word of an expression. -/
def skipOf (word : Text) : Skip :=
  if word ∈ ["-exec", "-execdir", "-ok", "-okdir"].map String.toList then .command
  else if word = "-fprintf".toList then .args 2
  else if word ∈ findTests ∨ "-newer".toList.isPrefixOf word then .args 1
  else .args 0

/-- Whether `-delete` stands in an expression as an action. -/
def deletes : Skip → List Text → Bool
  | _, [] => false
  | .args (n + 1), _ :: words => deletes (.args n) words
  | .command, word :: words => deletes (if word = [';'] then .args 0 else .command) words
  | .args 0, word :: words => word == "-delete".toList || deletes (skipOf word) words

/-- The starting points under which `find` deletes. -/
def findTargets (words : List Text) : List Text :=
  let rest := behindLeading false words
  let points := rest.takeWhile fun word => !startsExpression word
  if deletes (.args 0) (rest.dropWhile fun word => !startsExpression word) then
    if points = [] then [['.']] else points
  else []

def Tool.options : Tool → Table
  | .mv => mvOptions
  | .install => installOptions
  | _ => cpOptions

def Tool.places : Tool → List Opt → List Text → List Text
  | .install => installTargets
  | _ => copyTargets

/-- What a program writes to, or deletes under, for the words behind its name. -/
def Tool.targets (tool : Tool) (words : List Text) : List Text :=
  if tool = .find then findTargets words
  else
    match parse tool.options none words with
    | some (opts, operands) => tool.places opts operands
    | none => []

/-! ## What the guard sees -/

def isPipe (tok : Token) : Bool := !tok.quoted && tok.text == ['|']

/-- A redirection, with the target that stands in the same token. -/
def redirection (tok : Token) : Option Text :=
  if (tok.quoted ∧ tok.firstQuoted) ∨ tok.firstEscaped then none
  else
    (redirectTarget tok.text).or
      (if tok.text.head? = some '<' then some (tok.text.dropWhile (· == '<')) else none)

/-- The words a program gets: the tokens up to a pipe, without redirections and their targets. -/
def wordsOf : (skip : Bool) → List Token → List Text
  | _, [] => []
  | true, _ :: rest => wordsOf false rest
  | false, tok :: rest =>
    if isPipe tok then []
    else
      match redirection tok with
      | none => tok.text :: wordsOf false rest
      | some attached => wordsOf (attached == []) rest

/-- A test of `find` as `_detect_ops` has it. -/
def isFindTest (t : Token) : Bool :=
  !t.quoted && (t.text.head? == some '-' || t.text == ['!'] || t.text == ['('] || t.text == [')'])

/-- The destinations the guard picks: the last operand, or the starting points. -/
def picked (tool : Tool) (args : List Token) : List Text :=
  if tool = .find then
    let points := args.takeWhile fun t => !isFindTest t
    if points = [] then [['.']] else points.map Token.text
  else
    let operands := operandsOf args false
    if operands.length < 2 then [] else (operands.map Token.text).getLast?.toList

/-- A command word of a command line, with the tokens of its subcommand. -/
structure Invocation (env : GuardEnv) (command : Text) where
  tool : Tool
  sub : Text
  before : List Token
  verb : Token
  args : List Token
  mem : sub ∈ splitSubcommands env command
  tokens : tokenize sub = before ++ verb :: args
  named : verb.text = tool.name
  position : before.length ∈ commandPositions (tokenize sub)

/-- The destination was classified for writing: it was accepted, or it is a root whose contents
`find` may delete. -/
def Accepted (env : GuardEnv) (rt : RuntimePaths) (tool : Tool) (p : Text) : Prop :=
  (∃ display, classifyOperand env p rt true = .ok display) ∨
    (tool = .find ∧ ∃ display, classifyOperand env p rt true = .refused .workspaceRoot display ∧
      findMayEmpty env rt display = true)

/-! ## Detection -/

theorem before_position {expect : Bool} {i k : Nat} {ts : List Token}
    (h : k ∈ positionsFrom expect i ts) :
    (k = i ∧ expect = true) ∨
      ∃ j tok, k = i + (j + 1) ∧ ts[j]? = some tok ∧
        (isAssignment tok.text = true ∨ tok.text = ['|']) := by
  induction ts generalizing expect i with
  | nil => cases expect <;> cases h
  | cons tok ts ih =>
    have hlater : ∀ expect', k ∈ positionsFrom expect' (i + 1) ts →
        (expect' = true → isAssignment tok.text = true ∨ tok.text = ['|']) →
        ∃ j tok', k = i + (j + 1) ∧ (tok :: ts)[j]? = some tok' ∧
          (isAssignment tok'.text = true ∨ tok'.text = ['|']) := by
      intro expect' hk hfirst
      rcases ih hk with ⟨rfl, hexpect⟩ | ⟨j, tok', rfl, hget, hkind⟩
      · exact ⟨0, tok, rfl, rfl, hfirst hexpect⟩
      · exact ⟨j + 1, tok', by omega, hget, hkind⟩
    cases expect with
    | true =>
      cases hassign : isAssignment tok.text with
      | true =>
        have hrest : positionsFrom true i (tok :: ts) = positionsFrom true (i + 1) ts :=
          if_pos hassign
        exact Or.inr (hlater true (hrest ▸ h) fun _ => Or.inl hassign)
      | false =>
        have hno : ¬ isAssignment tok.text = true := hassign ▸ Bool.false_ne_true
        have hrest : positionsFrom true i (tok :: ts) = i :: positionsFrom false (i + 1) ts :=
          if_neg hno
        rw [hrest] at h
        rcases mem_cons.mp h with rfl | h
        · exact Or.inl ⟨rfl, rfl⟩
        · exact Or.inr (hlater false h nofun)
    | false =>
      refine Or.inr (hlater _ h fun hpipe => Or.inr ?_)
      exact eq_of_beq (Bool.and_eq_true_iff.mp hpipe).2

theorem not_excluded {ts us : List Token} {tok : Token}
    (h : ts.length ∈ commandPositions (ts ++ tok :: us)) :
    (ts.getLast?.map Token.text).getD [] ∉ installExcludePrev := by
  have hkinds : ∀ w ∈ installExcludePrev, isAssignment w = false ∧ w ≠ ['|'] ∧ w ≠ [] := by decide
  intro hmem
  rcases before_position h with ⟨hzero, -⟩ | ⟨j, prev, hj, hget, hkind⟩
  · obtain rfl := length_eq_zero_iff.mp hzero
    exact (hkinds _ hmem).2.2 rfl
  · have hlen : j + 1 = ts.length := by omega
    have hlast : ts.getLast? = some prev := by
      rw [getLast?_eq_getElem?, ← hlen]
      rw [getElem?_append_left (by omega)] at hget
      exact hget
    rw [hlast] at hmem
    obtain ⟨hassign, hpipe, -⟩ := hkinds _ hmem
    rcases hkind with hkind | hkind
    · rw [show isAssignment prev.text = false from hassign] at hkind
      cases hkind
    · exact hpipe hkind

theorem opsAt_subset (env : GuardEnv) {positions : List Nat} {raw : Option Text} {tok : Token}
    (ts us : List Token) (i : Nat) (prev : Text)
    (hpos : tok.quoted = true → i + ts.length ∈ positions) {op : FileOp}
    (hop : op ∈ opsAt env raw ((ts.getLast?.map Token.text).getD prev) tok.text us) :
    op ∈ detectFrom env positions raw i prev (ts ++ tok :: us) := by
  induction ts generalizing i prev with
  | nil =>
    rw [nil_append, detectFrom, if_neg fun h => h.2 (hpos h.1)]
    exact mem_append_left _ hop
  | cons first ts ih =>
    rw [cons_append, detectFrom]
    refine mem_append_right _ (ih (i + 1) first.text (fun hq => ?_) ?_)
    · have h := hpos hq
      rw [length_cons] at h
      rwa [Nat.add_right_comm, Nat.add_assoc]
    · rw [getLast?_cons] at hop
      cases hlast : ts.getLast? with
      | none => rw [hlast] at hop; exact hop
      | some last => rw [hlast] at hop; exact hop

/-! ## Targets of `find` -/

theorem mem_of_mem_wordsOf {skip : Bool} {args : List Token} {w : Text}
    (h : w ∈ wordsOf skip args) : ∃ t ∈ args, t.text = w := by
  induction args generalizing skip with
  | nil => cases skip <;> cases h
  | cons tok args ih =>
    have hlater : ∀ skip', w ∈ wordsOf skip' args → ∃ t ∈ tok :: args, t.text = w := by
      intro skip' hw
      obtain ⟨t, ht, heq⟩ := ih hw
      exact ⟨t, mem_cons_of_mem tok ht, heq⟩
    cases skip with
    | true => exact hlater false h
    | false =>
      rw [wordsOf] at h
      split at h
      · cases h
      · split at h
        · rcases mem_cons.mp h with rfl | h
          · exact ⟨tok, mem_cons_self, rfl⟩
          · exact hlater false h
        · exact hlater _ h

theorem mem_of_mem_behindLeading {skip : Bool} {words : List Text} {w : Text}
    (h : w ∈ behindLeading skip words) : w ∈ words := by
  induction words generalizing skip with
  | nil => cases skip <;> cases h
  | cons word words ih =>
    cases skip with
    | true => exact mem_cons_of_mem word (ih h)
    | false =>
      rw [behindLeading] at h
      split at h
      · exact mem_cons_of_mem word (ih h)
      · split at h
        · exact mem_cons_of_mem word (ih h)
        · split at h
          · exact mem_cons_of_mem word h
          · exact h

theorem delete_mem {skip : Skip} {words : List Text} (h : deletes skip words = true) :
    "-delete".toList ∈ words := by
  induction words generalizing skip with
  | nil => cases skip <;> cases h
  | cons word words ih =>
    match skip with
    | .args (n + 1) => exact mem_cons_of_mem word (ih h)
    | .command => exact mem_cons_of_mem word (ih h)
    | .args 0 =>
      rcases Bool.or_eq_true_iff.mp h with h | h
      · exact eq_of_beq h ▸ mem_cons_self
      · exact mem_cons_of_mem word (ih h)

theorem delete_token {args : List Token} {p : Text} (h : p ∈ findTargets (wordsOf false args)) :
    ∃ t ∈ args, t.text = "-delete".toList := by
  unfold findTargets at h
  dsimp only at h
  split at h
  case isTrue hdelete =>
    have hword := mem_of_mem_behindLeading ((dropWhile_sublist _).subset (delete_mem hdelete))
    exact mem_of_mem_wordsOf hword
  case isFalse => cases h

/-! ## The checks -/

section Checks
variable (env : GuardEnv) {rt : RuntimePaths} {code : ReasonCode} {display : Text}

theorem checkOp_destination (sub : Text) {op : FileOp} {tok : Token}
    (hkind : op.kind = .copy ∨ op.kind = .move) (hlen : ¬ op.operands.length < 2)
    (htok : op.operands.getLast? = some tok)
    (hrefused : classifyOperand env tok.text rt true = .refused code display) :
    checkOp env rt sub op ≠ none := by
  have htarget : ∀ desc policy,
      op.operands.getLast?.bind (checkOperand env rt desc policy true) ≠ none := by
    intro desc policy h
    rw [htok, Option.bind_some, checkOperand, hrefused] at h
    cases h
  intro hnone
  unfold checkOp checkOpsOperands at hnone
  rcases hkind with hkind | hkind
  · rw [hkind] at hnone
    dsimp only at hnone
    rw [if_neg hlen] at hnone
    exact htarget _ _ (Option.or_eq_none_iff.mp hnone).2
  · rw [hkind] at hnone
    dsimp only at hnone
    rw [if_neg hlen] at hnone
    exact htarget _ _ (Option.or_eq_none_iff.mp hnone).2

theorem checkOp_startingPoint (sub : Text) {op : FileOp} {p : Text} (hkind : op.kind = .findDelete)
    (hp : p ∈ if op.operands = [] then [['.']] else op.operands.map Token.text)
    (hrefused : classifyOperand env p rt true = .refused code display)
    (hroot : ¬(code = .workspaceRoot ∧ findMayEmpty env rt display = true)) :
    checkOp env rt sub op ≠ none := by
  intro hnone
  unfold checkOp checkFindOp at hnone
  rw [hkind] at hnone
  dsimp only at hnone
  split at hnone
  · cases hnone
  · refine findSome_ne_none hp ?_ hnone
    rw [hrefused]
    dsimp only
    rw [if_neg hroot]
    exact nofun

end Checks

/-! ## The operations of the four programs -/

theorem opsAt_copy (env : GuardEnv) (raw : Option Text) {prev : Text}
    (hprev : prev ∉ installExcludePrev) {tool : Tool} (htool : tool ≠ .find) (args : List Token) :
    ∃ op ∈ opsAt env raw prev tool.name args,
      (op.kind = .copy ∨ op.kind = .move) ∧ op.operands = operandsOf args false := by
  cases tool with
  | cp => exact ⟨_, mem_singleton_self _, Or.inl rfl, rfl⟩
  | mv => exact ⟨_, mem_singleton_self _, Or.inr rfl, rfl⟩
  | install =>
    have hops : opsAt env raw prev "install".toList args =
        if prev ∈ installExcludePrev then []
        else [⟨.copy, "install".toList, operandsOf args false, []⟩] := rfl
    refine ⟨⟨.copy, "install".toList, operandsOf args false, []⟩, ?_, Or.inl rfl, rfl⟩
    show _ ∈ opsAt env raw prev "install".toList args
    rw [hops, if_neg hprev]
    exact mem_singleton_self _
  | find => exact absurd rfl htool

theorem opsAt_find (env : GuardEnv) (raw : Option Text) (prev : Text) {args : List Token}
    (hdelete : ∃ t ∈ args, t.text = "-delete".toList) :
    ∃ op ∈ opsAt env raw prev "find".toList args,
      op.kind = .findDelete ∧ op.operands = args.takeWhile fun t => !isFindTest t := by
  obtain ⟨t, ht, htext⟩ := hdelete
  have hany : (args.any fun t => t.text == "-delete".toList) = true :=
    any_eq_true.mpr ⟨t, ht, beq_iff_eq.mpr htext⟩
  have hops : opsAt env raw prev "find".toList args = findOps args := rfl
  rw [hops]
  unfold findOps
  dsimp only
  rw [hany, Bool.true_or, if_pos rfl]
  exact ⟨_, mem_singleton_self _, rfl, rfl⟩

theorem Invocation.refused {env : GuardEnv} {command : Text} (inv : Invocation env command)
    {rt : RuntimePaths} {op : FileOp}
    (hop : op ∈ opsAt env (some inv.sub) ((inv.before.getLast?.map Token.text).getD [])
      inv.tool.name inv.args) (hcheck : checkOp env rt inv.sub op ≠ none) :
    (evaluateCommand env command rt).allowed = false := by
  have hpos : inv.verb.quoted = true → 0 + inv.before.length ∈ commandPositions (tokenize inv.sub) :=
    fun _ => (Nat.zero_add _).symm ▸ inv.position
  rw [← inv.named] at hop
  have hdetected := opsAt_subset env inv.before inv.args 0 [] hpos hop
  rw [← inv.tokens] at hdetected
  exact evaluateFrom_refused env rt _ inv.mem (checkSubcommand_refused env rt hdetected hcheck) 0 []

/-- `cp -r a b`, its destination last. -/
def copyCall : Invocation sandboxEnv "cp -r a b".toList where
  tool := .cp
  sub := "cp -r a b".toList
  before := []
  verb := { text := "cp".toList }
  args := ["-r", "a", "b"].map fun s => { text := s.toList }
  mem := by decide
  tokens := by decide
  named := rfl
  position := by decide

/-- `find . -delete`, in the workspace of the sandbox. -/
def emptying : Invocation sandboxEnv "find . -delete".toList where
  tool := .find
  sub := "find . -delete".toList
  before := []
  verb := { text := "find".toList }
  args := [".", "-delete"].map fun s => { text := s.toList }
  mem := by decide
  tokens := by decide
  named := rfl
  position := by decide

structure PlainArgs (tool : Tool) (args : List Token) : Prop where
  copies : tool ≠ .find
  words : wordsOf false args = args.map Token.text
  plain : Plain tool.options (args.map Token.text)
  shown : ∀ t ∈ args, hasAngle t.text = false ∧ t.text ≠ ['-']
  inPlace : ∀ opts operands, parse tool.options none (args.map Token.text) = some (opts, operands) →
    opts.filterMap targetDirectory = [] ∧ opts.any (isOpt 'd' "directory") = false

theorem copyTargets_inPlace {opts : List Opt} {operands : List Text}
    (h : opts.filterMap targetDirectory = []) {p : Text} (hp : p ∈ copyTargets opts operands) :
    ¬ operands.length < 2 ∧ p ∈ operands.getLast?.toList := by
  unfold copyTargets at hp
  dsimp only at hp
  rw [h] at hp
  split at hp
  · cases hp
  · dsimp only at hp
    split at hp
    · cases hp
    case isFalse hmany => exact ⟨fun hlt => hmany (Or.inl hlt), hp⟩

theorem places_inPlace (tool : Tool) {opts : List Opt}
    (h : opts.any (isOpt 'd' "directory") = false) (operands : List Text) :
    tool.places opts operands = copyTargets opts operands := by
  have hinstall : installTargets opts operands = copyTargets opts operands := by
    rw [installTargets, h]
    rfl
  cases tool with
  | install => exact hinstall
  | cp | mv | find => rfl

/-- In a plain arrangement the guard picks the destination. -/
theorem picked_of_plain {tool : Tool} {args : List Token} (h : PlainArgs tool args) {p : Text}
    (hp : p ∈ tool.targets (wordsOf false args)) : p ∈ picked tool args := by
  rw [Tool.targets, if_neg h.copies, h.words] at hp
  split at hp
  case h_2 => cases hp
  case h_1 opts operands hparse =>
    obtain ⟨hdirs, hdirectory⟩ := h.inPlace opts operands hparse
    rw [places_inPlace tool hdirectory] at hp
    obtain ⟨hlen, hlast⟩ := copyTargets_inPlace hdirs hp
    have hoperands : operands = (operandsOf args false).map Token.text := by
      rw [operands_of_plain h.plain hparse, filter_map]
      refine congrArg (List.map Token.text) (filter_congr fun t ht => ?_)
      obtain ⟨hangle, hdash⟩ := h.shown t ht
      have hdash' : (t.text == ['-']) = false := beq_eq_false_iff_ne.mpr hdash
      show (t.text.head? != some '-' || t.text == ['-']) = (!isFlag t.text false && !hasAngle t.text)
      rw [hangle, hdash', isFlag, Bool.false_and, Bool.or_false, Bool.or_false]
      exact (Bool.and_true _).symm
    rw [hoperands, length_map] at hlen
    rw [hoperands] at hlast
    rw [picked, if_neg h.copies]
    dsimp only
    rw [if_neg hlen]
    exact hlast

end MiqroForge.Guard.Destinations
