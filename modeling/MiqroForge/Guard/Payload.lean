import MiqroForge.Guard.Tokens
import MiqroForge.Library.Regex

/-!
What the guard reads off an inline script: whether the payload calls something
destructive, its string literals, and the literals a copy only reads.
-/

namespace MiqroForge.Guard

open PyText Regex Regex.Re

/-! ## The vocabulary -/

section Vocabulary
variable (env : GuardEnv)

/-- The class of word characters. -/
def isWordChar (c : Char) : Bool := env.isalnum c || c == '_'

/-- A dotted name between word boundaries. -/
def word (s : String) : Re := all [boundary, lit s, boundary]

/-- A module followed by one of its names, between word boundaries. -/
def member (module : String) (names : List String) : Re :=
  all [boundary, lit module, oneOf (names.map lit), boundary]

def wordChars : Re := star (char (isWordChar env))

def notIn (s : String) : Re := char fun c => !s.toList.contains c

def destructiveCallRe : Re := oneOf
  [word "shutil.rmtree", word "shutil.move",
   all [boundary, lit "shutil.copy", wordChars env, boundary],
   member "os." ["remove", "unlink", "rmdir", "removedirs"], word "os.system",
   member "os." ["rename", "replace"],
   all [boundary, lit "pathlib.", star (notIn ";)"), lit ".unlink("],
   all [lit ".unlink(", spaces, lit ")"],
   all [boundary, lit "fs.",
     oneOf (["rmSync", "rmdirSync", "unlinkSync", "rm", "rmdir", "unlink"].map lit), spaces,
     lit "("],
   member "File." ["delete", "unlink"],
   member "FileUtils." ["rm", "rm_r", "rm_rf", "rmdir", "remove_dir"],
   word "unlink", word "rmtree", word "write_text", word "write_bytes",
   all [boundary, lit "mkdir", spaces, lit "("], all [boundary, lit "makedirs", spaces, lit "("],
   all [boundary, lit "rm", char isSpace, spaces, lit "-", star (char isAsciiLetter), lit "r"]]

def deleteCallRe : Re := oneOf
  [word "shutil.rmtree", member "os." ["remove", "unlink", "rmdir", "removedirs"], word "unlink",
   word "rmtree",
   all [boundary, lit "rm", char isSpace, spaces, lit "-", star (char isAsciiLetter), lit "r"]]

def removalCallRe : Re := oneOf
  [member "shutil." ["rmtree", "move"],
   member "os." ["remove", "unlink", "rmdir", "removedirs", "rename", "replace"], word "unlink",
   word "rmtree",
   all [boundary, lit "rm", char isSpace, spaces, lit "-", star (char isAsciiLetter), lit "r"]]

def openCallRe : Re := all [boundary, lit "open", spaces, lit "("]

def isQuoteChar (c : Char) : Bool := c == '\x27' || c == '\x22'

def modeLiteralRe : Re :=
  all [char isQuoteChar, repeated (char fun c => "rwxabt+".toList.contains c) 1 7, char isQuoteChar]

def copyCallRe : Re := all [boundary, lit "shutil.copy", wordChars env, spaces, lit "("]

def copySrcKeywordRe : Re := all [spaces, lit "src", spaces, lit "=", spaces]

end Vocabulary

/-! ## Argument lists -/

def openArgsLimit : Nat := 400

/-- The loop of `_top_level_call_arg_spans` over the text up to the limit, at index `i`. -/
def argSpansFrom : (quote : Option Char) → (argStart depth i : Nat) → Text → List (Nat × Nat)
  | _, argStart, _, i, [] => [(argStart, i)]
  | some q, argStart, depth, i, '\\' :: _ :: rest =>
    argSpansFrom (some q) argStart depth (i + 2) rest
  | some q, argStart, depth, i, ch :: rest =>
    argSpansFrom (if ch = q then none else some q) argStart depth (i + 1) rest
  | none, argStart, depth, i, ch :: rest =>
    if isQuoteChar ch then argSpansFrom (some ch) argStart depth (i + 1) rest
    else if ch = '(' ∨ ch = '[' ∨ ch = '\x7b' then
      argSpansFrom none argStart (depth + 1) (i + 1) rest
    else if ch = ')' ∨ ch = ']' ∨ ch = '\x7d' then
      if depth = 1 then [(argStart, i)] else argSpansFrom none argStart (depth - 1) (i + 1) rest
    else if ch = ',' ∧ depth = 1 then
      (argStart, i) :: argSpansFrom none (i + 1) depth (i + 1) rest
    else argSpansFrom none argStart depth (i + 1) rest

def topLevelCallArgSpans (text : Text) (start : Nat) : List (Nat × Nat) :=
  argSpansFrom none start 1 start ((text.drop start).take openArgsLimit)

/-- `text[a:b]`. -/
def slice (text : Text) (a b : Nat) : Text := (text.take b).drop a

def topLevelCallArgs (text : Text) (start : Nat) : List Text :=
  (topLevelCallArgSpans text start).map fun (a, b) => slice text a b

section Payload
variable (env : GuardEnv)

/-- The mode literal of one argument: a write mode of the call's `idx`-th argument. -/
def isWriteModeArg (isMethod : Bool) (idx : Nat) (raw : Text) : Bool :=
  let arg := strip raw
  let keyword := "mode=".toList.isPrefixOf arg
  let lit := if keyword then strip (arg.drop 5) else arg
  (keyword || idx == if isMethod then 0 else 1) &&
    fullMatch (isWordChar env) lit modeLiteralRe && lit.any fun c => "wax+".toList.contains c

def openCallWrites (payload : Text) : Bool :=
  (findIter (isWordChar env) payload openCallRe).any fun (s, e) =>
    let isMethod := decide (s > 0) && payload[s - 1]? == some '.'
    (topLevelCallArgs payload e).zipIdx.any fun (raw, idx) => isWriteModeArg env isMethod idx raw

def payloadIsDestructive (payload : Text) : Bool :=
  (search (isWordChar env) payload (destructiveCallRe env)).isSome || openCallWrites env payload

/-- The spans of one copy call: the value of its first `src=` argument, else its first
argument. -/
def copySourceSpan (payload : Text) (args : List (Nat × Nat)) : Option (Nat × Nat) :=
  (args.findSome? fun (a, b) =>
    (matchStart (isWordChar env) (slice payload a b) copySrcKeywordRe).map fun n => (a + n, b)).or
      args.head?

def copySourceSpans (payload : Text) : List (Nat × Nat) :=
  (findIter (isWordChar env) payload (copyCallRe env)).filterMap fun (_, e) =>
    copySourceSpan env payload (topLevelCallArgSpans payload e)

/-- The places where a literal occurs, overlapping ones included. -/
def occurrences (lit payload : Text) : List Nat :=
  (List.range (payload.length + 1)).filter fun i => lit.isPrefixOf (payload.drop i)

def onlyAsCopySource (payload lit : Text) (spans : List (Nat × Nat)) : Bool :=
  lit ≠ [] && spans ≠ [] && occurrences lit payload ≠ [] &&
    (occurrences lit payload).all fun pos =>
      spans.any fun (a, b) => a ≤ pos && pos + lit.length ≤ b

/-- The loop of `_extract_string_literals`, inside a literal when `lit` is given. -/
def literalsFrom : (lit : Option (Char × Text)) → Text → List Text
  | _, [] => []
  | none, c :: rest => literalsFrom (if isQuoteChar c then some (c, []) else none) rest
  | some (q, buf), '\\' :: d :: rest => literalsFrom (some (q, buf ++ ['\\', d])) rest
  | some (q, buf), c :: rest =>
    if c = q then buf :: literalsFrom none rest else literalsFrom (some (q, buf ++ [c])) rest

def extractStringLiterals (payload : Text) : List Text := literalsFrom none payload

/-- A literal that looks like a path. -/
def isPathLiteral (lit : Text) : Bool :=
  lit.contains '/' || lit.contains '\\' || lit.head? == some '.' || lit.head? == some '~'

end Payload

end MiqroForge.Guard
