import MiqroForge.Library.BashExpansion
import MiqroForge.Library.Regex

/-!
System package installs of `ExecTool`: which commands are run as root in the distro, as what text,
and what a package manager is told by it.
-/

namespace MiqroForge.Execution

open PyText BashQuoting
open List hiding find?

/-! ## Package managers -/

/-- The managers of `_SYSTEM_INSTALL_SAFE_FLAGS`. -/
inductive Manager where
  | aptGet | apt | dnf | yum | zypper | apk | pacman
deriving DecidableEq

namespace Manager

def all : List Manager := [aptGet, apt, dnf, yum, zypper, apk, pacman]

def name : Manager → Text
  | aptGet => ['a', 'p', 't', '-', 'g', 'e', 't']
  | apt => ['a', 'p', 't']
  | dnf => ['d', 'n', 'f']
  | yum => ['y', 'u', 'm']
  | zypper => ['z', 'y', 'p', 'p', 'e', 'r']
  | apk => ['a', 'p', 'k']
  | pacman => ['p', 'a', 'c', 'm', 'a', 'n']

/-- `_SYSTEM_INSTALL_SAFE_FLAGS` -/
def safeFlags : Manager → List Text
  | aptGet | apt => ["-y", "--assume-yes", "-n", "--no-install-recommends",
      "--no-install-suggests", "-q", "-qq", "--quiet", "--print-uris", "-f", "--fix-broken",
      "--only-upgrade", "-u"].map String.toList
  | dnf => ["-y", "--assume-yes", "-q", "--quiet", "--print-uris", "--nobest",
      "--skip-broken"].map String.toList
  | yum => ["-y", "--assume-yes", "-q", "--quiet", "--skip-broken"].map String.toList
  | zypper => ["-y", "-n", "--non-interactive", "-q", "--quiet",
      "--no-recommends"].map String.toList
  | apk => ["--no-cache", "-q", "--quiet", "--no-progress"].map String.toList
  | pacman => ["--noconfirm", "--needed", "-q", "--quiet", "--print", "-p", "--asdeps",
      "--asexplicit"].map String.toList

/-- `_SYSTEM_INSTALL_VERBS` -/
def verbs : Manager → List Text
  | aptGet | apt | dnf | yum => ["update", "upgrade", "install", "reinstall"].map String.toList
  | zypper => ["update", "upgrade", "install"].map String.toList
  | apk => ["update", "upgrade", "add"].map String.toList
  | pacman => []

end Manager

/-- The matches of `^-S(?:yu|yy|y|u)?$`. -/
def syncOperations : List Text := ["-S", "-Syu", "-Syy", "-Sy", "-Su"].map String.toList

/-- `str.lower`, of the characters whose lower case is ASCII. -/
def lowerChar (c : Char) : Char := if c = '\u212a' then 'k' else c.toLower

def lower (t : Text) : Text := t.map lowerChar

/-- `_SYSTEM_INSTALL_SAFE_FLAGS.get(manager)` finds the manager. -/
def Manager.ofName? (t : Text) : Option Manager := Manager.all.find? fun m => m.name == t

/-! ## `_is_system_install_command` -/

/-- A letter with `re.IGNORECASE`. -/
def caseless (c d : Char) : Bool :=
  lowerChar d == c || (c == 'i' && (d == '\u0130' || d == '\u0131')) || (c == 's' && d == '\u017f')

def caselessLit (s : String) : Regex.Re :=
  s.toList.foldr (fun c r => .seq (.char (caseless c)) r) .empty

open Regex.Re in
/-- `\s+` -/
def spaces1 : Regex.Re := seq (char isSpace) spaces

open Regex.Re in
/-- `(?:-{1,2}[^\s]+\s+)*` -/
def flagCluster : Regex.Re :=
  star (all [lit "-", opt (lit "-"), char (!isSpace ·), star (char (!isSpace ·)), spaces1])

open Regex.Re in
/-- `^(?:yes\s*\|\s*)?(?:sudo\s+)?(?:-{1,2}[^\s]+\s+)*` -/
def installPrefix (word : String → Regex.Re) : Regex.Re :=
  all [opt (all [word "yes", spaces, lit "|", spaces]), opt (seq (word "sudo") spaces1), flagCluster]

open Regex.Re in
def installFamily (manager : String) (verbs : List String) : Regex.Re :=
  all [caselessLit manager, spaces1, flagCluster, oneOf (verbs.map caselessLit)]

open Regex.Re in
def pkgInstallRe : Regex.Re :=
  let apt := ["update", "upgrade", "dist-upgrade", "full-upgrade", "install", "reinstall"]
  let dnf := ["update", "upgrade", "install", "reinstall"]
  all [installPrefix caselessLit,
    oneOf [installFamily "apt-get" apt, installFamily "apt" apt, installFamily "dnf" dnf,
      installFamily "yum" dnf, installFamily "zypper" ["update", "upgrade", "install"],
      installFamily "apk" ["update", "upgrade", "add"],
      all [caselessLit "pacman", spaces1, lit "-", caselessLit "s",
        opt (oneOf (["yu", "yy", "y", "u"].map caselessLit))]],
    boundary]

/-! ## `_normalize_system_install` -/

/-- `_PKG_TOKEN_RE` -/
def isPkgChar (c : Char) : Bool := c.isAlphanum || "+._~:=/-".toList.contains c

/-- The endings of package files. -/
def packageSuffixes : List Text :=
  [".deb", ".rpm", ".apk", ".pkg.tar.zst", ".pkg.tar.xz", ".pkg.tar.gz", ".pkg.tar"].map
    String.toList

/-- A token that is refused because it looks like a path. -/
def pathLike (tok : Text) : Bool :=
  tok.contains '/' || (tok.head? == some '~' && !tok.contains '=') ||
    packageSuffixes.any fun suffix => suffix.isSuffixOf (lower tok)

/-- The walk over the tokens: the ones that are kept, `none` where one is refused. -/
def walkTokens (m : Manager) : (verbSeen : Bool) → List Text → Option (List Text)
  | verbSeen, [] => if verbSeen then some [] else none
  | verbSeen, tok :: rest =>
    if tok.head? = some '-' then
      if m = .pacman ∧ tok ∈ syncOperations then
        -- only one -S family operation
        if verbSeen then none else (walkTokens m true rest).map (tok :: ·)
      else if tok ∈ m.safeFlags then (walkTokens m verbSeen rest).map (tok :: ·)
      else none
    else if tok = [] ∨ !tok.all isPkgChar then none
    else if pathLike tok then none
    else if m ≠ .pacman ∧ verbSeen = false then
      if tok ∈ m.verbs then (walkTokens m true rest).map (tok :: ·) else none
    else (walkTokens m verbSeen rest).map (tok :: ·)

/-- The command behind the tolerated prefix. -/
def stripPrefix (command : Text) : Text :=
  let text := strip command
  text.drop ((Regex.matchStart (fun _ => false) text (installPrefix Regex.Re.lit)).getD 0)

/-- The manager and the tokens behind it. -/
def readInstall (command : Text) : Option (Manager × List Text) :=
  match splitSpaces (strip (stripPrefix command)) with
  | [] => none
  | head :: tokens => (Manager.ofName? (lower head)).map (·, tokens)

def normalizeSystemInstall (command : Text) : Option Text :=
  match readInstall command with
  | none => none
  | some (m, tokens) => (walkTokens m false tokens).map fun kept => joinSpaces (m.name :: kept)

/-! ## `_inject_noninteractive_flags` -/

/-- `re.match(r"^(name)(\s+\S+)", cmd, re.IGNORECASE)`: both groups and the rest. -/
def headAt (cmd name : Text) : Option (Text × Text × Text) :=
  let tail := cmd.drop name.length
  let blanks := tail.takeWhile isSpace
  let arg := (tail.dropWhile isSpace).takeWhile (!isSpace ·)
  if lower (cmd.take name.length) = name ∧ blanks ≠ [] ∧ arg ≠ [] then
    some (cmd.take name.length, blanks ++ arg, (tail.dropWhile isSpace).dropWhile (!isSpace ·))
  else none

/-- The same with alternatives for the name. -/
def splitHead (names : List Text) (cmd : Text) : Option (Text × Text × Text) :=
  names.findSome? (headAt cmd)

/-- `re.search(r"(^|\s)word(\s|$)", cmd)` -/
def hasWord (word cmd : Text) : Bool := (splitSpaces cmd).contains word

/-- `pat in cmd` -/
def occurs (pat cmd : Text) : Bool := (find? pat cmd).isSome

def aptFamily : List Text := [Manager.aptGet, .apt, .dnf, .yum].map Manager.name

def nonInteractive : Text := "--non-interactive".toList

def noConfirm : Text := "--noconfirm".toList

def injectNoninteractiveFlags (cmd : Text) : Text :=
  match splitHead aptFamily cmd, hasWord ['-', 'y'] cmd with
  | some (manager, arg, rest), false => manager ++ arg ++ [' ', '-', 'y'] ++ rest
  | _, _ =>
    match splitHead [Manager.zypper.name] cmd,
        hasWord ['-', 'n'] cmd || occurs nonInteractive cmd with
    | some (manager, arg, rest), false => manager ++ ' ' :: nonInteractive ++ arg ++ rest
    | _, _ =>
      match splitHead [Manager.pacman.name] cmd, occurs noConfirm cmd with
      | some (manager, arg, rest), false =>
        match arg.dropWhile isSpace with
        | '-' :: _ :: _ => manager ++ arg ++ ' ' :: noConfirm ++ rest
        | _ => cmd
      | _, _ => cmd

/-! ## `_maybe_route_system_install` -/

/-- What the card, or the lack of one, answers. -/
inductive Decision where
  | once | always | deny | denyNoChannel
deriving DecidableEq

/-- What a call of the tool finds. -/
structure Routing where
  sandboxManager : Bool
  /-- `sandbox_selection` is absent or `BWRAP`. -/
  bwrap : Bool
  networkBlocked : Bool
  enabled : Bool
  /-- `\w` -/
  isWord : Char → Bool
  /-- A deny pattern matches, or an allowlist is set and does not. -/
  patternsRefuse : Text → Bool
  allowSystemInstalls : Bool
  /-- `_request_system_install_approval` -/
  card : Text → Decision
  /-- `check_dangerous_command`, where a callback is wired. -/
  approved : Text → Bool
  sandboxRunning : Bool
  supportsSystemInstalls : Bool
  cancelled : Bool

inductive Routed where
  /-- The command goes on as any other. -/
  | pass
  | refused
  /-- What the card showed, if there was one, and what is run as root. -/
  | executed (shown : Option Text) (command : Text)

open Regex.Re in
/-- `\b(?:dist-upgrade|full-upgrade)\b` -/
def distUpgradeRe : Regex.Re :=
  all [boundary, oneOf [lit "dist-upgrade", lit "full-upgrade"], boundary]

def isSystemInstallCommand (isWord : Char → Bool) (command : Text) : Bool :=
  (Regex.matchStart isWord (strip command) pkgInstallRe).isSome

/-- `_guard_system_install_command` -/
def guardRefuses (r : Routing) (command : Text) : Bool :=
  r.patternsRefuse (strip command) ||
    (Regex.search r.isWord (stripPrefix command) distUpgradeRe).isSome ||
    (normalizeSystemInstall command).isNone

def maybeRouteSystemInstall (r : Routing) (command : Text) : Routed :=
  if !r.sandboxManager then .pass
  else if !isSystemInstallCommand r.isWord command then .pass
  else if !r.bwrap then .pass
  else if r.networkBlocked then .refused
  else if !r.enabled then .pass
  else if guardRefuses r command then .refused
  else
    match normalizeSystemInstall command with
    | none => .refused
    | some canonical =>
      let normalized := injectNoninteractiveFlags canonical
      let shown := if r.allowSystemInstalls then none else some normalized
      if ∃ text ∈ shown, r.card text ≠ .once ∧ r.card text ≠ .always then .refused
      else if !r.approved command then .refused
      else if !r.sandboxRunning then .refused
      else if !r.supportsSystemInstalls then .refused
      else if r.cancelled then .refused
      -- `_execute_system_install` injects the flags once more
      else .executed shown (injectNoninteractiveFlags normalized)

/-! ## What is asked of an install -/

/-- The token names a local file. -/
def NamesFile (tok : Text) : Prop :=
  '/' ∈ tok ∨ ∃ suffix ∈ packageSuffixes, suffix <:+ lower tok

namespace Manager

/-- The manager reads the token as a package to be removed. -/
def removes (m : Manager) (tok : Text) : Bool :=
  match m with
  | .aptGet | .apt => tok.getLast? == some '-'
  | .zypper => tok.head? == some '~' || tok.head? == some '-' || tok.head? == some '!'
  | _ => false

def operations (m : Manager) : List Text := if m = .pacman then syncOperations else m.verbs

end Manager

structure Package (m : Manager) (tok : Text) : Prop where
  notFlag : tok.head? ≠ some '-'
  notFile : ¬ NamesFile tok
  kept : m.removes tok = false

/-- The arguments are one operation of the install family with allowlisted flags and packages. But
for `pacman`, the operation is the first argument that is not a flag. -/
def Installs (m : Manager) (args : List Text) : Prop :=
  ∃ before op after, args = before ++ op :: after ∧ op ∈ m.operations ∧
    (∀ tok ∈ before, tok ∈ m.safeFlags ∨ m = .pacman ∧ Package m tok) ∧
    (∀ tok ∈ after, tok ∈ m.safeFlags ∨ Package m tok) ∧
    (m = .pacman → ∀ tok ∈ before ++ after, tok ∉ syncOperations)

/-- What is run is what was shown, and bash reads it as the words that it shows: one install. -/
structure AsShown (h : Homes) (shown : Option Text) (command : Text) : Prop where
  same : ∀ text ∈ shown, text = command
  simple : simpleCommand h command = some (splitSpaces command)
  install : ∃ m args, splitSpaces command = Manager.name m :: args ∧ Installs m args

/-- No package of the command is read as a removal or has a tilde that the shell expands. -/
def Harmless (h : Homes) (command : Text) : Prop :=
  ∀ m tokens, readInstall command = some (m, tokens) → ∀ tok ∈ tokens, tok.head? ≠ some '-' →
    m.removes tok = false ∧ ¬ HasTilde h tok

/-! ## The walk -/

/-- A token that the walk takes for a package. -/
structure Taken (tok : Text) : Prop where
  notFlag : tok.head? ≠ some '-'
  nonempty : tok ≠ []
  chars : ∀ c ∈ tok, isPkgChar c = true
  notPath : pathLike tok = false

/-- Flags and packages. -/
def Rest (m : Manager) (tokens : List Text) : Prop :=
  ∀ tok ∈ tokens, (tok ∈ m.safeFlags ∨ Taken tok) ∧ (m = .pacman → tok ∉ syncOperations)

/-- One operation among flags and packages. -/
def Operates (m : Manager) (tokens : List Text) : Prop :=
  ∃ before op after, tokens = before ++ op :: after ∧ op ∈ m.operations ∧
    (∀ tok ∈ before, (tok ∈ m.safeFlags ∨ m = .pacman ∧ Taken tok) ∧
      (m = .pacman → tok ∉ syncOperations)) ∧ Rest m after

variable {tok : Text}

theorem flag_notSync : tok ∈ Manager.pacman.safeFlags → tok ∉ syncOperations := by
  have hall : ∀ tok ∈ Manager.pacman.safeFlags, tok ∉ syncOperations := by decide
  exact hall tok

theorem sync_flag : tok ∈ syncOperations → tok.head? = some '-' := by
  have hall : ∀ tok ∈ syncOperations, tok.head? = some '-' := by decide
  exact hall tok

variable {m : Manager} {tokens : List Text}

theorem Operates.cons (h : Operates m tokens)
    (htok : tok ∈ m.safeFlags ∨ m = .pacman ∧ Taken tok)
    (hsync : m = .pacman → tok ∉ syncOperations) : Operates m (tok :: tokens) := by
  obtain ⟨before, op, after, rfl, hop, hbefore, hafter⟩ := h
  exact ⟨tok :: before, op, after, rfl, hop, forall_mem_cons.mpr ⟨⟨htok, hsync⟩, hbefore⟩,
    hafter⟩

theorem Operates.begin {op : Text} {tokens : List Text} (hop : op ∈ m.operations)
    (h : Rest m tokens) : Operates m (op :: tokens) :=
  ⟨[], op, tokens, rfl, hop, by simp, h⟩

theorem walk_spec {verbSeen : Bool} {tokens kept : List Text}
    (hw : walkTokens m verbSeen tokens = some kept) :
    kept = tokens ∧ if verbSeen then Rest m tokens else Operates m tokens := by
  induction tokens generalizing verbSeen kept with
  | nil =>
    unfold walkTokens at hw
    split at hw
    case isFalse => cases hw
    case isTrue hseen =>
      cases hw
      rw [if_pos hseen]
      exact ⟨rfl, by simp [Rest]⟩
  | cons tok rest ih =>
    unfold walkTokens at hw
    split at hw
    case isTrue hdash =>
      split at hw
      case isTrue hsync =>
        obtain ⟨rfl, hsync⟩ := hsync
        split at hw
        case isTrue => cases hw
        case isFalse hseen =>
          obtain ⟨kept', hkept, rfl⟩ := Option.map_eq_some_iff.mp hw
          obtain ⟨rfl, hrest⟩ := ih hkept
          rw [if_neg hseen]
          exact ⟨rfl, .begin hsync hrest⟩
      case isFalse hsync =>
        split at hw
        case isFalse => cases hw
        case isTrue hflag =>
          obtain ⟨kept', hkept, rfl⟩ := Option.map_eq_some_iff.mp hw
          obtain ⟨rfl, hrest⟩ := ih hkept
          have hnot : m = .pacman → tok ∉ syncOperations := fun hm hs => hsync ⟨hm, hs⟩
          refine ⟨rfl, ?_⟩
          cases verbSeen with
          | true => exact forall_mem_cons.mpr ⟨⟨.inl hflag, hnot⟩, hrest⟩
          | false => exact Operates.cons hrest (.inl hflag) hnot
    case isFalse hdash =>
      split at hw
      case isTrue => cases hw
      case isFalse hchars =>
        split at hw
        case isTrue => cases hw
        case isFalse hpath =>
          obtain ⟨hne, hall⟩ := not_or.mp hchars
          have htaken : Taken tok :=
            ⟨hdash, hne, by simpa using hall, Bool.eq_false_iff.mpr hpath⟩
          have hnot : m = .pacman → tok ∉ syncOperations := fun _ hs => hdash (sync_flag hs)
          split at hw
          case isTrue hfirst =>
            obtain ⟨hm, rfl⟩ := hfirst
            split at hw
            case isFalse => cases hw
            case isTrue hverb =>
              obtain ⟨kept', hkept, rfl⟩ := Option.map_eq_some_iff.mp hw
              obtain ⟨rfl, hrest⟩ := ih hkept
              have hop : tok ∈ m.operations := by
                rw [Manager.operations, if_neg hm]
                exact hverb
              exact ⟨rfl, .begin hop hrest⟩
          case isFalse hlater =>
            obtain ⟨kept', hkept, rfl⟩ := Option.map_eq_some_iff.mp hw
            obtain ⟨rfl, hrest⟩ := ih hkept
            refine ⟨rfl, ?_⟩
            cases verbSeen with
            | true => exact forall_mem_cons.mpr ⟨⟨.inr htaken, hnot⟩, hrest⟩
            | false =>
              have hm : m = .pacman := by
                by_contra hm
                exact hlater ⟨hm, rfl⟩
              exact Operates.cons hrest (.inr ⟨hm, htaken⟩) hnot

theorem Operates.insert {flag : Text} {pre post : List Text}
    (h : Operates m (pre ++ post)) (hflag : flag ∈ m.safeFlags)
    (hsync : m = .pacman → flag ∉ syncOperations) : Operates m (pre ++ flag :: post) := by
  obtain ⟨before, op, after, heq, hop, hbefore, hafter⟩ := h
  rcases append_eq_append_iff.mp heq with ⟨as, rfl, rfl⟩ | ⟨bs, rfl, hpost⟩
  · refine ⟨pre ++ flag :: as, op, after, by simp, hop, fun tok htok => ?_, hafter⟩
    rcases mem_append.mp htok with htok | htok
    · exact hbefore tok (mem_append_left _ htok)
    · rcases mem_cons.mp htok with rfl | htok
      · exact ⟨.inl hflag, hsync⟩
      · exact hbefore tok (mem_append_right _ htok)
  · cases bs with
    | nil =>
      obtain rfl : op :: after = post := by simpa using hpost
      refine ⟨before ++ [flag], op, after, by simp, hop, fun tok htok => ?_, hafter⟩
      rcases mem_append.mp htok with htok | htok
      · exact hbefore tok htok
      · obtain rfl := mem_singleton.mp htok
        exact ⟨.inl hflag, hsync⟩
    | cons b bs =>
      obtain ⟨rfl, rfl⟩ := cons_eq_cons.mp hpost
      refine ⟨before, op, bs ++ flag :: post, by simp, hop, hbefore, fun tok htok => ?_⟩
      rcases mem_append.mp htok with htok | htok
      · exact hafter tok (mem_append_left _ htok)
      · rcases mem_cons.mp htok with rfl | htok
        · exact ⟨.inl hflag, hsync⟩
        · exact hafter tok (mem_append_right _ htok)

/-! ## The words of the command -/

/-- A word that neither the shell nor `str.split` takes apart. -/
structure Solid (w : Text) : Prop where
  nonempty : w ≠ []
  plain : ∀ c ∈ w, isPlain c = true
  unspaced : ∀ c ∈ w, isSpace c = false

instance (w : Text) : Decidable (Solid w) :=
  decidable_of_iff (w ≠ [] ∧ w.all isPlain = true ∧ w.all (fun c => !isSpace c) = true)
    ⟨fun ⟨hn, hp, hs⟩ =>
      ⟨hn, List.all_eq_true.mp hp, fun c hc => by simpa using List.all_eq_true.mp hs c hc⟩,
    fun ⟨hn, hp, hs⟩ =>
      ⟨hn, List.all_eq_true.mpr hp, List.all_eq_true.mpr fun c hc => by simp [hs c hc]⟩⟩

theorem isPlain_pkgChar {c : Char} (hc : isPkgChar c = true) : isPlain c = true := by
  have hbad : ∀ d ∈ " \t\n|&;<>()'\"\\$#\x60\x00*?[]\x7b\x7d".toList, isPkgChar d = false :=
    forall_of_all (by decide)
  by_contra hno
  have hmem : c ∈ " \t\n|&;<>()'\"\\$#\x60\x00*?[]\x7b\x7d".toList := by
    simp only [isPlain, isWordChar, isMeta, isExpanding, Bool.and_eq_true, Bool.not_eq_true',
      contains_eq_mem, decide_eq_false_iff_not, not_and_or, not_not] at hno
    simp at hno ⊢
    grind
  rw [hbad c hmem] at hc
  cases hc

theorem isSpace_pkgChar {c : Char} (hc : isPkgChar c = true) : isSpace c = false := by
  have hrange : 33 ≤ c.toNat ∧ c.toNat < 128 := by
    unfold isPkgChar at hc
    rcases Bool.or_eq_true_iff.mp hc with ha | hm
    · delta Char.isAlphanum Char.isAlpha Char.isUpper Char.isLower Char.isDigit at ha
      simp only [Bool.or_eq_true, Bool.and_eq_true, decide_eq_true_eq,
        UInt32.le_iff_toNat_le] at ha
      have hval : c.toNat = c.val.toNat := rfl
      simp at ha
      omega
    · have hall : ∀ d ∈ "+._~:=/-".toList, 33 ≤ d.toNat ∧ d.toNat < 128 :=
        forall_of_all (by decide)
      exact hall c (by simpa using hm)
  simp only [isSpace, Bool.or_eq_false_iff, Bool.and_eq_false_iff, decide_eq_false_iff_not,
    beq_eq_false_iff_ne]
  omega

theorem Taken.solid (h : Taken tok) : Solid tok where
  nonempty := h.nonempty
  plain := fun c hc => isPlain_pkgChar (h.chars c hc)
  unspaced := fun c hc => isSpace_pkgChar (h.chars c hc)

theorem safeFlag_solid : tok ∈ m.safeFlags → Solid tok := by
  have hall : ∀ tok ∈ m.safeFlags, Solid tok := by cases m <;> decide
  exact hall tok

theorem operation_solid : tok ∈ m.operations → Solid tok := by
  have hall : ∀ tok ∈ m.operations, Solid tok := by cases m <;> decide
  exact hall tok

theorem name_solid (m : Manager) : Solid m.name := by
  cases m <;> decide

/-! ## The injected flag -/

theorem lower_name (m : Manager) : lower m.name = m.name := by
  cases m <;> decide

theorem headAt_join {name manager a r : Text} (hname : ∀ c ∈ name, isSpace c = false)
    (hmanager : Solid manager) (hlower : lower manager = manager) (ha : Solid a)
    (hr : ∀ c, r.head? = some c → isSpace c = true) :
    headAt (manager ++ (' ' :: a ++ r)) name =
      if name = manager then some (manager, ' ' :: a, r) else none := by
  obtain ⟨a₀, a', rfl⟩ := exists_cons_of_ne_nil ha.nonempty
  have ha₀ : isSpace a₀ = false := ha.unspaced a₀ mem_cons_self
  split
  case isTrue heq =>
    subst heq
    have hstop : (a₀ :: a' ++ r).takeWhile (!isSpace ·) = a₀ :: a' ∧
        (a₀ :: a' ++ r).dropWhile (!isSpace ·) = r := by
      have hall : ∀ c ∈ a₀ :: a', (!isSpace c) = true := fun c hc => by
        rw [ha.unspaced c hc]
        rfl
      rw [takeWhile_append_of_pos hall, dropWhile_append_of_pos hall]
      cases r with
      | nil => simp
      | cons c r =>
        have hc := hr c rfl
        simp [hc]
    have hgap : (' ' :: (a₀ :: a' ++ r)).takeWhile isSpace = [' '] ∧
        (' ' :: (a₀ :: a' ++ r)).dropWhile isSpace = a₀ :: a' ++ r := by
      have hblank : isSpace ' ' = true := rfl
      simp [hblank, ha₀]
    unfold headAt
    simp only [cons_append, take_left, drop_left] at hgap hstop ⊢
    rw [hgap.1, hgap.2, hstop.1, hstop.2, hlower]
    simp
  case isFalse hne =>
    unfold headAt
    refine if_neg fun ⟨hlow, hblanks, _⟩ => ?_
    rcases Nat.lt_trichotomy name.length manager.length with hlt | heq | hgt
    · -- the name ends inside the manager, and no blank follows
      refine hblanks ?_
      rw [drop_append_of_le_length (Nat.le_of_lt hlt)]
      cases hdrop : manager.drop name.length with
      | nil => exact absurd (drop_eq_nil_iff.mp hdrop) (by omega)
      | cons c rest =>
        have hc : c ∈ manager := mem_of_mem_drop (hdrop ▸ mem_cons_self)
        simp [hmanager.unspaced c hc]
    · rw [heq, take_left, hlower] at hlow
      exact hne hlow.symm
    · -- the name would have to go on with the blank
      have hblank : ' ' ∈ (manager ++ (' ' :: (a₀ :: a') ++ r)).take name.length := by
        rw [take_append]
        obtain ⟨k, hk⟩ : ∃ k, name.length - manager.length = k + 1 :=
          ⟨name.length - manager.length - 1, by omega⟩
        rw [hk]
        simp
      have hmem : lowerChar ' ' ∈ name := hlow ▸ mem_map_of_mem hblank
      exact absurd (hname _ hmem) (by decide)

theorem splitHead_join {names : List Text} {manager a r : Text}
    (hnames : ∀ name ∈ names, ∀ c ∈ name, isSpace c = false) (hmanager : Solid manager)
    (hlower : lower manager = manager) (ha : Solid a)
    (hr : ∀ c, r.head? = some c → isSpace c = true) :
    splitHead names (manager ++ (' ' :: a ++ r)) =
      if manager ∈ names then some (manager, ' ' :: a, r) else none := by
  unfold splitHead
  induction names with
  | nil => rfl
  | cons name rest ih =>
    obtain ⟨hname, hrest⟩ := forall_mem_cons.mp hnames
    rw [findSome?_cons, headAt_join hname hmanager hlower ha hr]
    by_cases heq : name = manager
    · simp [heq]
    · rw [if_neg heq]
      refine (ih hrest).trans ?_
      simp [Ne.symm heq]

theorem hasWord_join {words : List Text} (hw : ∀ w ∈ words, Solid w) (word : Text) :
    hasWord word (joinSpaces words) = decide (word ∈ words) := by
  unfold hasWord
  rw [splitSpaces_join (fun w hm => (hw w hm).nonempty) fun w hm => (hw w hm).unspaced]
  exact contains_eq_mem word words

theorem occurs_append (pat a b : Text) : occurs pat (a ++ (pat ++ b)) = true := by
  unfold occurs
  induction a with
  | nil =>
    cases pat with
    | nil => cases b <;> simp [find?]
    | cons c pat => simp [find?]
  | cons c a ih =>
    rw [cons_append, find?]
    split
    case isTrue => rfl
    case isFalse => simpa using ih

/-- What the flags are injected into, word by word. -/
def injectTokens (m : Manager) (tokens : List Text) : List Text :=
  match m with
  | .apk => tokens
  | .zypper =>
    if ['-', 'n'] ∈ tokens ∨ occurs nonInteractive (joinSpaces (m.name :: tokens)) then tokens
    else nonInteractive :: tokens
  | .pacman =>
    match tokens with
    | [] => []
    | first :: rest =>
      if occurs noConfirm (joinSpaces (m.name :: first :: rest)) then first :: rest
      else if first.head? = some '-' ∧ 2 ≤ first.length then first :: noConfirm :: rest
      else first :: rest
  | _ =>
    match tokens with
    | [] => []
    | first :: rest =>
      if ['-', 'y'] ∈ first :: rest then first :: rest else first :: ['-', 'y'] :: rest

theorem nonInteractive_flag : nonInteractive ∈ Manager.zypper.safeFlags := by decide

theorem noConfirm_flag : noConfirm ∈ Manager.pacman.safeFlags := by decide

theorem space_flatMap (words : List Text) (c : Char)
    (h : (words.flatMap (' ' :: ·)).head? = some c) : isSpace c = true := by
  cases words with
  | nil => cases h
  | cons w words =>
    cases h
    rfl

theorem names_unspaced {names : List Manager} :
    ∀ name ∈ names.map Manager.name, ∀ c ∈ name, isSpace c = false := by
  intro name hname
  obtain ⟨m, -, rfl⟩ := mem_map.mp hname
  exact (name_solid m).unspaced

theorem name_inj {m m' : Manager} (h : m.name = m'.name) : m = m' := by
  have hall : ∀ m ∈ Manager.all, ∀ m' ∈ Manager.all, m.name = m'.name → m = m' := by decide
  have hmem : ∀ m : Manager, m ∈ Manager.all := fun m => by cases m <;> decide
  exact hall m (hmem m) m' (hmem m') h

theorem name_mem {ms : List Manager} :
    m.name ∈ ms.map Manager.name ↔ m ∈ ms :=
  ⟨fun h => by
    obtain ⟨m', hm', heq⟩ := mem_map.mp h
    exact name_inj heq ▸ hm', mem_map_of_mem⟩

/-- **The injection**, on the words of a canonical command. -/
theorem inject_join (m : Manager) {tokens : List Text} (hne : tokens ≠ [])
    (hw : ∀ tok ∈ tokens, Solid tok) :
    injectNoninteractiveFlags (joinSpaces (m.name :: tokens)) =
      joinSpaces (m.name :: injectTokens m tokens) := by
  obtain ⟨first, rest, rfl⟩ := exists_cons_of_ne_nil hne
  have hfirst := hw first mem_cons_self
  have hwords : ∀ w ∈ m.name :: first :: rest, Solid w :=
    forall_mem_cons.mpr ⟨name_solid m, hw⟩
  have hcmd : joinSpaces (m.name :: first :: rest) =
      m.name ++ (' ' :: first ++ rest.flatMap (' ' :: ·)) := by
    rw [joinSpaces_cons, flatMap_cons]
  have hhead : ∀ ms : List Manager, splitHead (ms.map Manager.name)
      (joinSpaces (m.name :: first :: rest)) =
      if m ∈ ms then some (m.name, ' ' :: first, rest.flatMap (' ' :: ·)) else none := fun ms => by
    rw [hcmd, splitHead_join names_unspaced (name_solid m) (lower_name m) hfirst
      (space_flatMap rest)]
    simp only [name_mem]
  have hdash : ∀ word : Text, word.head? = some '-' →
      hasWord word (joinSpaces (m.name :: first :: rest)) = decide (word ∈ first :: rest) :=
    fun word hword => by
      rw [hasWord_join hwords]
      have hname : word ≠ m.name := fun heq => by
        rw [heq] at hword
        cases m <;> exact absurd hword (by decide)
      simp [hname]
  unfold injectNoninteractiveFlags
  rw [show aptFamily = [Manager.aptGet, .apt, .dnf, .yum].map Manager.name from rfl, hhead,
    hdash _ rfl, hdash _ rfl, show [Manager.zypper.name] = [Manager.zypper].map Manager.name from rfl,
    hhead, show [Manager.pacman.name] = [Manager.pacman].map Manager.name from rfl, hhead]
  cases m with
  | apk => simp [injectTokens]
  | zypper =>
    by_cases hset : ['-', 'n'] ∈ first :: rest ∨
        occurs nonInteractive (joinSpaces (Manager.zypper.name :: first :: rest)) = true
    · have hor : (decide (['-', 'n'] ∈ first :: rest) ||
          occurs nonInteractive (joinSpaces (Manager.zypper.name :: first :: rest))) = true := by
        simpa using hset
      rw [injectTokens, if_pos hset, hor]
      simp
    · have hor : (decide (['-', 'n'] ∈ first :: rest) ||
          occurs nonInteractive (joinSpaces (Manager.zypper.name :: first :: rest))) = false := by
        simpa using hset
      rw [injectTokens, if_neg hset, hor]
      simp [joinSpaces_cons]
  | pacman =>
    by_cases hset : occurs noConfirm (joinSpaces (Manager.pacman.name :: first :: rest)) = true
    · simp [injectTokens, hset]
    · have hunset : occurs noConfirm (joinSpaces (Manager.pacman.name :: first :: rest)) = false :=
        Bool.eq_false_iff.mpr hset
      have hdrop : (' ' :: first).dropWhile isSpace = first := by
        obtain ⟨c, tail, rfl⟩ := exists_cons_of_ne_nil hfirst.nonempty
        have hblank : isSpace ' ' = true := rfl
        simp [hblank, hfirst.unspaced c mem_cons_self]
      rw [injectTokens, if_neg hset, hunset]
      simp only [mem_cons, reduceCtorEq, not_mem_nil, or_false, or_self, ↓reduceIte,
        hdrop]
      rcases first with _ | ⟨c, _ | ⟨d, tail⟩⟩
      · simp
      · simp
      · by_cases hc : c = '-'
        · subst hc
          simp [joinSpaces_cons]
        · simp [hc]
  | _ =>
    by_cases hset : ['-', 'y'] ∈ first :: rest
    · simp [injectTokens, hset]
    · simp [injectTokens, hset, joinSpaces_cons]

theorem yes_flag :
    m ∈ [Manager.aptGet, .apt, .dnf, .yum] → ['-', 'y'] ∈ m.safeFlags := by
  have hall : ∀ m ∈ [Manager.aptGet, .apt, .dnf, .yum], ['-', 'y'] ∈ m.safeFlags := by
    decide
  exact hall m

theorem injectTokens_cases (m : Manager) (tokens : List Text) : injectTokens m tokens = tokens ∨
    ∃ pre post flag, tokens = pre ++ post ∧ injectTokens m tokens = pre ++ flag :: post ∧
      flag ∈ m.safeFlags := by
  cases m with
  | apk => exact .inl rfl
  | zypper =>
    unfold injectTokens
    dsimp only
    split
    case isTrue => exact .inl rfl
    case isFalse => exact .inr ⟨[], tokens, nonInteractive, rfl, rfl, nonInteractive_flag⟩
  | pacman =>
    cases tokens with
    | nil => exact .inl rfl
    | cons first rest =>
      unfold injectTokens
      dsimp only
      split
      case isTrue => exact .inl rfl
      case isFalse =>
        split
        case isTrue => exact .inr ⟨[first], rest, noConfirm, rfl, rfl, noConfirm_flag⟩
        case isFalse => exact .inl rfl
  | _ =>
    cases tokens with
    | nil => exact .inl rfl
    | cons first rest =>
      unfold injectTokens
      dsimp only
      split
      case isTrue => exact .inl rfl
      case isFalse => exact .inr ⟨[first], rest, ['-', 'y'], rfl, rfl, yes_flag (by decide)⟩

theorem injectTokens_idem (m : Manager) (tokens : List Text) :
    injectTokens m (injectTokens m tokens) = injectTokens m tokens := by
  cases m with
  | apk => rfl
  | zypper =>
    by_cases hset : ['-', 'n'] ∈ tokens ∨
        occurs nonInteractive (joinSpaces (Manager.zypper.name :: tokens)) = true
    · have hsame : injectTokens .zypper tokens = tokens := if_pos hset
      rw [hsame, hsame]
    · have hnew : injectTokens .zypper tokens = nonInteractive :: tokens := if_neg hset
      have hocc : occurs nonInteractive
          (joinSpaces (Manager.zypper.name :: nonInteractive :: tokens)) = true := by
        rw [joinSpaces_cons, flatMap_cons, cons_append, ← singleton_append,
          ← append_assoc]
        exact occurs_append ..
      rw [hnew]
      exact if_pos (.inr hocc)
  | pacman =>
    cases tokens with
    | nil => rfl
    | cons first rest =>
      by_cases hset : occurs noConfirm (joinSpaces (Manager.pacman.name :: first :: rest)) = true
      · have hsame : injectTokens .pacman (first :: rest) = first :: rest := if_pos hset
        rw [hsame, hsame]
      · by_cases hfirst : first.head? = some '-' ∧ 2 ≤ first.length
        · have hnew : injectTokens .pacman (first :: rest) = first :: noConfirm :: rest :=
            (if_neg hset).trans (if_pos hfirst)
          have hocc : occurs noConfirm
              (joinSpaces (Manager.pacman.name :: first :: noConfirm :: rest)) = true := by
            have hjoin : joinSpaces (Manager.pacman.name :: first :: noConfirm :: rest) =
                (Manager.pacman.name ++ ' ' :: first ++ [' ']) ++
                  (noConfirm ++ rest.flatMap (' ' :: ·)) := by
              simp [joinSpaces_cons]
            rw [hjoin]
            exact occurs_append ..
          rw [hnew]
          exact if_pos hocc
        · have hsame : injectTokens .pacman (first :: rest) = first :: rest :=
            (if_neg hset).trans (if_neg hfirst)
          rw [hsame, hsame]
  | _ =>
    cases tokens with
    | nil => rfl
    | cons first rest =>
      by_cases hset : ['-', 'y'] ∈ first :: rest
      · simp only [injectTokens, if_pos hset]
      · simp only [injectTokens, if_neg hset]
        rw [if_pos (by simp)]

/-! ## The theorem -/

theorem Package.of_taken (h : Taken tok) (hkept : m.removes tok = false) :
    Package m tok where
  notFlag := h.notFlag
  notFile := by
    have hpath := h.notPath
    simp only [pathLike, Bool.or_eq_false_iff] at hpath
    rintro (hslash | ⟨suffix, hmem, hsuf⟩)
    · simp [hslash] at hpath
    · have hany := any_eq_false.mp hpath.2 suffix hmem
      exact hany (isSuffixOf_iff_suffix.mpr hsuf)
  kept := hkept

theorem safeFlag_plain :
    tok ∈ m.safeFlags → tok.head? = some '-' ∧ '~' ∉ tok := by
  have hall : ∀ tok ∈ m.safeFlags, tok.head? = some '-' ∧ '~' ∉ tok := by
    cases m <;> decide
  exact hall tok

theorem operation_plain :
    tok ∈ m.operations → (tok.head? = some '-' ∨ m.removes tok = false) ∧ '~' ∉ tok := by
  have hall : ∀ tok ∈ m.operations,
      (tok.head? = some '-' ∨ m.removes tok = false) ∧ '~' ∉ tok := by cases m <;> decide
  exact hall tok

theorem name_plain (m : Manager) :
    splitAssignment m.name = none ∧ m.name ∉ reserved ∧ '~' ∉ m.name := by
  cases m <;> decide

theorem Operates.mem (h : Operates m tokens) {tok : Text}
    (htok : tok ∈ tokens) : tok ∈ m.safeFlags ∨ tok ∈ m.operations ∨ Taken tok := by
  obtain ⟨before, op, after, rfl, hop, hbefore, hafter⟩ := h
  rcases mem_append.mp htok with htok | htok
  · exact (hbefore tok htok).1.imp_right fun hm => .inr hm.2
  · rcases mem_cons.mp htok with rfl | htok
    · exact .inr (.inl hop)
    · exact (hafter tok htok).1.imp_right .inr

theorem Operates.solid (h : Operates m tokens) :
    ∀ tok ∈ tokens, Solid tok := fun _ htok => by
  rcases h.mem htok with hflag | hop | htaken
  · exact safeFlag_solid hflag
  · exact operation_solid hop
  · exact htaken.solid

theorem Operates.inject (h : Operates m tokens) :
    Operates m (injectTokens m tokens) := by
  rcases injectTokens_cases m tokens with heq | ⟨pre, post, flag, rfl, heq, hflag⟩
  · rwa [heq]
  · rw [heq]
    exact h.insert hflag fun hm => flag_notSync (hm ▸ hflag)

theorem mem_injectTokens {tok : Text}
    (h : tok ∈ tokens) : tok ∈ injectTokens m tokens := by
  rcases injectTokens_cases m tokens with heq | ⟨pre, post, flag, rfl, heq, -⟩
  · rwa [heq]
  · rw [heq]
    rcases mem_append.mp h with h | h
    · exact mem_append_left _ h
    · exact mem_append_right _ (mem_cons_of_mem _ h)

theorem of_mem_injectTokens {tok : Text}
    (h : tok ∈ injectTokens m tokens) : tok ∈ tokens ∨ tok ∈ m.safeFlags := by
  rcases injectTokens_cases m tokens with heq | ⟨pre, post, flag, rfl, heq, hflag⟩
  · exact .inl (heq ▸ h)
  · rw [heq] at h
    rcases mem_append.mp h with h | h
    · exact .inl (mem_append_left _ h)
    · rcases mem_cons.mp h with rfl | h
      · exact .inr hflag
      · exact .inl (mem_append_right _ h)

theorem installs_iff {args : List Text} (h : Operates m args) :
    Installs m args ↔ ∀ tok ∈ args, tok.head? ≠ some '-' → m.removes tok = false := by
  constructor
  · rintro ⟨before, op, after, rfl, hop, hbefore, hafter, -⟩ tok htok hdash
    have hflag : tok ∉ m.safeFlags := fun hflag => hdash (safeFlag_plain hflag).1
    rcases mem_append.mp htok with htok | htok
    · rcases hbefore tok htok with hsafe | ⟨-, hpackage⟩
      · exact absurd hsafe hflag
      · exact hpackage.kept
    · rcases mem_cons.mp htok with rfl | htok
      · exact (operation_plain hop).1.resolve_left hdash
      · rcases hafter tok htok with hsafe | hpackage
        · exact absurd hsafe hflag
        · exact hpackage.kept
  · intro hkept
    obtain ⟨before, op, after, rfl, hop, hbefore, hafter⟩ := h
    refine ⟨before, op, after, rfl, hop, fun tok htok => ?_, fun tok htok => ?_, fun hm tok htok => ?_⟩
    · refine (hbefore tok htok).1.imp_right fun ⟨hm, htaken⟩ => ⟨hm, .of_taken htaken ?_⟩
      exact hkept tok (mem_append_left _ htok) htaken.notFlag
    · refine (hafter tok htok).1.imp_right fun htaken => .of_taken htaken ?_
      exact hkept tok (mem_append_right _ (mem_cons_of_mem _ htok)) htaken.notFlag
    · rcases mem_append.mp htok with htok | htok
      · exact (hbefore tok htok).2 hm
      · exact (hafter tok htok).2 hm

theorem routed_cases {r : Routing} {command executed : Text} {shown : Option Text}
    (hr : maybeRouteSystemInstall r command = .executed shown executed) :
    ∃ canonical, normalizeSystemInstall command = some canonical ∧
      executed = injectNoninteractiveFlags (injectNoninteractiveFlags canonical) ∧
      ∀ text ∈ shown, text = injectNoninteractiveFlags canonical := by
  unfold maybeRouteSystemInstall at hr
  split at hr
  case isTrue => cases hr
  split at hr
  case isTrue => cases hr
  split at hr
  case isTrue => cases hr
  split at hr
  case isTrue => cases hr
  split at hr
  case isTrue => cases hr
  split at hr
  case isTrue => cases hr
  split at hr
  case h_1 => cases hr
  case h_2 canonical hcanonical =>
    dsimp only at hr
    refine ⟨canonical, hcanonical, ?_⟩
    generalize hshown : (if r.allowSystemInstalls = true then none
      else some (injectNoninteractiveFlags canonical)) = card at hr
    split at hr
    case isTrue => cases hr
    split at hr
    case isTrue => cases hr
    split at hr
    case isTrue => cases hr
    split at hr
    case isTrue => cases hr
    split at hr
    case isTrue => cases hr
    case isFalse =>
      cases hr
      refine ⟨rfl, fun text htext => ?_⟩
      split at hshown
      case isTrue =>
        subst hshown
        cases htext
      case isFalse =>
        subst hshown
        exact (Option.some.inj htext).symm

theorem executed_cases {r : Routing} {command executed : Text} {shown : Option Text}
    (hr : maybeRouteSystemInstall r command = .executed shown executed) :
    ∃ m tokens, readInstall command = some (m, tokens) ∧ Operates m tokens ∧
      executed = joinSpaces (m.name :: injectTokens m tokens) ∧
      ∀ text ∈ shown, text = executed := by
  obtain ⟨canonical, hcanonical, rfl, hshown⟩ := routed_cases hr
  unfold normalizeSystemInstall at hcanonical
  split at hcanonical
  case h_1 => cases hcanonical
  case h_2 m tokens hread =>
    obtain ⟨kept, hwalk, rfl⟩ := Option.map_eq_some_iff.mp hcanonical
    obtain ⟨rfl, hop⟩ := walk_spec hwalk
    have hop' : Operates m kept := hop
    have hne : ∀ {tokens : List Text}, Operates m tokens → tokens ≠ [] := by
      rintro _ ⟨before, op, after, rfl, -⟩
      simp
    have honce := inject_join m (hne hop') hop'.solid
    have htwice := inject_join m (hne hop'.inject) hop'.inject.solid
    rw [injectTokens_idem] at htwice
    rw [honce] at hshown ⊢
    exact ⟨m, kept, hread, hop', htwice, fun text htext => (hshown text htext).trans htwice.symm⟩

section Words
variable {h : Homes} {r : Routing} {command executed : Text} {shown : Option Text}

theorem executed_words (hexec : ∃ m tokens, readInstall command = some (m, tokens) ∧
    Operates m tokens ∧ executed = joinSpaces (m.name :: injectTokens m tokens)) :
    ∃ m tokens, readInstall command = some (m, tokens) ∧ Operates m tokens ∧
      splitSpaces executed = m.name :: injectTokens m tokens ∧
      simpleCommand h executed =
        some ((m.name :: injectTokens m tokens).map (expandWord h)) := by
  obtain ⟨m, tokens, hread, hop, rfl⟩ := hexec
  have hsolid : ∀ w ∈ m.name :: injectTokens m tokens, Solid w :=
    forall_mem_cons.mpr ⟨name_solid m, hop.inject.solid⟩
  refine ⟨m, tokens, hread, hop, ?_, ?_⟩
  · exact splitSpaces_join (fun w hw => (hsolid w hw).nonempty) fun w hw => (hsolid w hw).unspaced
  · exact simpleCommand_join h (fun w hw => (hsolid w hw).nonempty)
      (fun w hw => (hsolid w hw).plain) (name_plain m).1 (name_plain m).2.1

theorem harmless_of_asShown (hr : maybeRouteSystemInstall r command = .executed shown executed)
    (hs : AsShown h shown executed) : Harmless h command := by
  obtain ⟨m, tokens, hread, hop, hexec, -⟩ := executed_cases hr
  obtain ⟨m, tokens, hread, hop, hsplit, hsimple⟩ :=
    executed_words (h := h) ⟨m, tokens, hread, hop, hexec⟩
  obtain ⟨-, hwords, m', args, hargs, hinstalls⟩ := hs
  intro m'' tokens'' hread'' tok htok hdash
  rw [hread] at hread''
  cases hread''
  rw [hsplit] at hargs
  obtain ⟨hname, rfl⟩ := cons_eq_cons.mp hargs
  obtain rfl := name_inj hname
  have hin : tok ∈ injectTokens m tokens := mem_injectTokens htok
  refine ⟨(installs_iff hop.inject).mp hinstalls tok hin hdash, ?_⟩
  rw [hsimple, hsplit] at hwords
  exact (map_expandWord h _).mp (Option.some.inj hwords) tok (mem_cons_of_mem _ hin)

theorem asShown_of_harmless (hr : maybeRouteSystemInstall r command = .executed shown executed)
    (hharmless : Harmless h command) : AsShown h shown executed := by
  obtain ⟨m, tokens, hread, hop, hexec, hshown⟩ := executed_cases hr
  obtain ⟨m, tokens, hread, hop, hsplit, hsimple⟩ :=
    executed_words (h := h) ⟨m, tokens, hread, hop, hexec⟩
  have hkept : ∀ tok ∈ tokens, tok.head? ≠ some '-' → m.removes tok = false ∧ ¬ HasTilde h tok :=
    hharmless m tokens hread
  refine ⟨hshown, ?_, m, injectTokens m tokens, hsplit, (installs_iff hop.inject).mpr ?_⟩
  · rw [hsimple, hsplit]
    refine congrArg some ((map_expandWord h _).mpr fun w hw ht => ?_)
    have htilde := hasTilde_mem h ht
    rcases mem_cons.mp hw with rfl | hw
    · exact (name_plain m).2.2 htilde
    · rcases of_mem_injectTokens hw with hold | hflag
      · rcases hop.mem hold with hflag | hverb | htaken
        · exact (safeFlag_plain hflag).2 htilde
        · exact (operation_plain hverb).2 htilde
        · exact (hkept w hold htaken.notFlag).2 ht
      · exact (safeFlag_plain hflag).2 htilde
  · intro tok htok hdash
    rcases of_mem_injectTokens htok with hold | hflag
    · exact (hkept tok hold hdash).1
    · exact absurd (safeFlag_plain hflag).1 hdash

end Words

/-- **Root installs**: what is run is what was shown, and is one install, exactly where no package
is read as a removal or has a tilde that the shell expands. -/
theorem install_as_shown (h : Homes) (r : Routing) (command executed : Text) (shown : Option Text)
    (hr : maybeRouteSystemInstall r command = .executed shown executed) :
    AsShown h shown executed ↔ Harmless h command :=
  ⟨harmless_of_asShown hr, asShown_of_harmless hr⟩

/-- The shell of `root`, whose home is `/root`. -/
def rootHomes : Homes where
  dir := fun name => if name = [] then some "/root".toList else none
  absolute := fun name d hd => by
    split at hd
    case isTrue =>
      cases hd
      decide
    case isFalse => cases hd

/-- A sandbox that can install, and a user who allows it once. -/
def allowedOnce : Routing where
  sandboxManager := true
  bwrap := true
  networkBlocked := false
  enabled := true
  isWord := fun c => c.isAlphanum || c == '_'
  patternsRefuse := fun _ => false
  allowSystemInstalls := false
  card := fun _ => .once
  approved := fun _ => true
  sandboxRunning := true
  supportsSystemInstalls := true
  cancelled := false

theorem routed_once {command : Text} {m : Manager} {tokens : List Text}
    (hinstall : isSystemInstallCommand allowedOnce.isWord command = true)
    (hdist : Regex.search allowedOnce.isWord (stripPrefix command) distUpgradeRe = none)
    (hread : readInstall command = some (m, tokens))
    (hwalk : walkTokens m false tokens = some tokens) :
    maybeRouteSystemInstall allowedOnce command =
      .executed (some (joinSpaces (m.name :: injectTokens m tokens)))
        (joinSpaces (m.name :: injectTokens m tokens)) := by
  have hop : Operates m tokens := (walk_spec hwalk).2
  have hne : ∀ {tokens : List Text}, Operates m tokens → tokens ≠ [] := by
    rintro _ ⟨before, op, after, rfl, -⟩
    simp
  have hnormal : normalizeSystemInstall command = some (joinSpaces (m.name :: tokens)) := by
    rw [normalizeSystemInstall, hread]
    exact congrArg (Option.map fun kept => joinSpaces (m.name :: kept)) hwalk
  have honce := inject_join m (hne hop) hop.solid
  have htwice := inject_join m (hne hop.inject) hop.inject.solid
  rw [injectTokens_idem] at htwice
  have hguard : guardRefuses allowedOnce command = false := by
    rw [guardRefuses, hdist, hnormal]
    rfl
  unfold maybeRouteSystemInstall
  rw [hinstall, hguard, hnormal]
  simp only [honce, htwice]
  rfl

theorem read_words {command : Text} (head : Text) {tokens : List Text}
    (hstrip : strip (stripPrefix command) = joinSpaces (head :: tokens))
    (hwords : ∀ w ∈ head :: tokens, Solid w) :
    readInstall command = (Manager.ofName? (lower head)).map (·, tokens) := by
  unfold readInstall
  rw [hstrip, splitSpaces_join (fun w hw => (hwords w hw).nonempty)
    fun w hw => (hwords w hw).unspaced]

/-- A package named like `curl` is installed as shown. -/
theorem install_as_shown_curl :
    AsShown rootHomes (some "apt-get install -y curl".toList) "apt-get install -y curl".toList := by
  have hread : readInstall "sudo apt-get install curl".toList =
      some (.aptGet, ["install".toList, "curl".toList]) :=
    read_words "apt-get".toList (by decide) (by decide)
  have hrun : maybeRouteSystemInstall allowedOnce "sudo apt-get install curl".toList =
      .executed (some "apt-get install -y curl".toList) "apt-get install -y curl".toList :=
    routed_once (by decide) (by decide) hread (by decide)
  refine (install_as_shown rootHomes allowedOnce _ _ _ hrun).mpr fun m tokens hread' => ?_
  rw [hread] at hread'
  cases hread'
  have hno : ∀ w : Text, '~' ∉ w → ¬ HasTilde rootHomes w := fun w hw ht =>
    hw (hasTilde_mem rootHomes ht)
  exact List.forall_mem_cons.mpr ⟨fun _ => ⟨by decide, hno _ (by decide)⟩,
    List.forall_mem_cons.mpr ⟨fun _ => ⟨by decide, hno _ (by decide)⟩, by simp⟩⟩

/-- `apt-get install curl-` removes a package as root. -/
theorem install_removes :
    maybeRouteSystemInstall allowedOnce "sudo apt-get install curl-".toList =
      .executed (some "apt-get install -y curl-".toList) "apt-get install -y curl-".toList ∧
    ¬ AsShown rootHomes (some "apt-get install -y curl-".toList)
      "apt-get install -y curl-".toList := by
  have hread : readInstall "sudo apt-get install curl-".toList =
      some (.aptGet, ["install".toList, "curl-".toList]) :=
    read_words "apt-get".toList (by decide) (by decide)
  have hrun : maybeRouteSystemInstall allowedOnce "sudo apt-get install curl-".toList =
      .executed (some "apt-get install -y curl-".toList) "apt-get install -y curl-".toList :=
    routed_once (by decide) (by decide) hread (by decide)
  refine ⟨hrun, fun hs => ?_⟩
  have hkept := harmless_of_asShown hrun hs _ _ hread "curl-".toList (by simp) (by decide)
  exact absurd hkept.1 (by decide)

end MiqroForge.Execution
