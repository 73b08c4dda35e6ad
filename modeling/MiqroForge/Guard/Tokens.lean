import MiqroForge.Guard.Classify

/-!
The scanners of the command guard: `split_subcommands` cuts a command line at its
separators, `_tokenize` cuts a subcommand into words with their quote marks removed,
and `_command_positions` finds the words that name a command.
-/

namespace MiqroForge.Guard

open PyText

/-- `_Token`: one shell word with its quote information. -/
structure Token where
  text : Text
  quoted : Bool := false
  fullyQuoted : Bool := false
  firstQuoted : Bool := false
  firstEscaped : Bool := false
  deriving DecidableEq, Repr

/-! ## `_tokenize` -/

/-- The word under construction. -/
structure WordBuf where
  buf : Text := []
  nQuoted : Nat := 0
  sawQuote : Bool := false
  firstQuoted : Bool := false
  firstEscaped : Bool := false
  firstSeen : Bool := false
  deriving DecidableEq, Repr

def WordBuf.append (w : WordBuf) (ch : Char) (quoted escaped : Bool) : WordBuf :=
  { w with
    buf := w.buf ++ [ch]
    nQuoted := if quoted then w.nQuoted + 1 else w.nQuoted
    firstQuoted := if w.firstSeen then w.firstQuoted else quoted
    firstEscaped := if w.firstSeen then w.firstEscaped else escaped
    firstSeen := true }

/-- `_flush`: the token of the word, unless nothing of a word was seen. -/
def WordBuf.flush (w : WordBuf) : List Token :=
  if w.buf ≠ [] ∨ w.sawQuote then
    [{ text := w.buf
       quoted := decide (w.nQuoted > 0) || w.sawQuote
       fullyQuoted := decide (w.nQuoted > 0 ∧ w.nQuoted = w.buf.length)
       firstQuoted := w.firstQuoted
       firstEscaped := w.firstEscaped }]
  else []

inductive QuoteMode where
  | bare
  | single
  | double
  deriving DecidableEq, Repr

/-- `_DQ_ESCAPED_CHARS`. -/
def isDqEscaped (c : Char) : Bool :=
  c == '$' || c == '\x60' || c == '\x22' || c == '\\' || c == '\n'

/-- The loop of `_tokenize`. -/
def tokenizeFrom : QuoteMode → WordBuf → Text → List Token
  | _, w, [] => w.flush
  | .single, w, ch :: rest =>
    if ch = '\x27' then tokenizeFrom .bare w rest
    else tokenizeFrom .single (w.append ch true false) rest
  | .double, w, '\\' :: d :: rest =>
    if isDqEscaped d then tokenizeFrom .double (w.append d true true) rest
    else tokenizeFrom .double (w.append '\\' true false) (d :: rest)
  | .double, w, ch :: rest =>
    if ch = '\x22' then tokenizeFrom .bare w rest
    else tokenizeFrom .double (w.append ch true false) rest
  | .bare, w, '\\' :: d :: rest => tokenizeFrom .bare (w.append d false true) rest
  | .bare, w, ch :: rest =>
    if ch = '\x27' then tokenizeFrom .single { w with sawQuote := true } rest
    else if ch = '\x22' then tokenizeFrom .double { w with sawQuote := true } rest
    -- a dangling escape at the end of the input is dropped
    else if ch = '\\' then tokenizeFrom .bare w rest
    else if isSpace ch then w.flush ++ tokenizeFrom .bare {} rest
    else tokenizeFrom .bare (w.append ch false false) rest

theorem tokenizeFrom_nil (m : QuoteMode) (w : WordBuf) : tokenizeFrom m w [] = w.flush := by
  cases m <;> rfl

variable (w : WordBuf)

theorem tokenizeFrom_single_cons (ch : Char) (rest : Text) :
    tokenizeFrom .single w (ch :: rest) =
      if ch = '\x27' then tokenizeFrom .bare w rest
      else tokenizeFrom .single (w.append ch true false) rest := rfl

theorem tokenizeFrom_double_escape (d : Char) (rest : Text) :
    tokenizeFrom .double w ('\\' :: d :: rest) =
      if isDqEscaped d then tokenizeFrom .double (w.append d true true) rest
      else tokenizeFrom .double (w.append '\\' true false) (d :: rest) := rfl

theorem tokenizeFrom_double_close (rest : Text) :
    tokenizeFrom .double w ('\x22' :: rest) = tokenizeFrom .bare w rest := rfl

theorem tokenizeFrom_bare_escape (d : Char) (rest : Text) :
    tokenizeFrom .bare w ('\\' :: d :: rest) =
      tokenizeFrom .bare (w.append d false true) rest := rfl

theorem tokenizeFrom_bare_single (rest : Text) :
    tokenizeFrom .bare w ('\x27' :: rest) =
      tokenizeFrom .single { w with sawQuote := true } rest := rfl

theorem tokenizeFrom_bare_double (rest : Text) :
    tokenizeFrom .bare w ('\x22' :: rest) =
      tokenizeFrom .double { w with sawQuote := true } rest := rfl

def tokenize (text : Text) : List Token := tokenizeFrom .bare {} text

/-! ## `_command_positions` -/

def isNameChar (c : Char) : Bool := isAsciiLetter c || c == '_' || ('0' ≤ c && c ≤ '9')

/-- `_ASSIGNMENT_RE`: `^[A-Za-z_][A-Za-z0-9_]*=`. -/
def isAssignment : Text → Bool
  | [] => false
  | c :: rest => (isAsciiLetter c || c == '_') && (rest.dropWhile isNameChar).head? == some '='

/-- The loop of `_command_positions` from index `i`. -/
def positionsFrom (expect : Bool) (i : Nat) : List Token → List Nat
  | [] => []
  | tok :: rest =>
    if expect then
      if isAssignment tok.text then positionsFrom true (i + 1) rest
      else i :: positionsFrom false (i + 1) rest
    else positionsFrom (!tok.quoted && tok.text == ['|']) (i + 1) rest

def commandPositions (tokens : List Token) : List Nat := positionsFrom true 0 tokens

/-! ## `split_subcommands` -/

/-- Where the splitter stands: the text since the last cut, the character before, the
characters that a heredoc still passes over, and whether the second character of a
separator comes next. -/
structure SplitState where
  cur : Text := []
  prev : Option Char := none
  quote : Option Char := none
  paren : Nat := 0
  backtick : Bool := false
  skip : Nat := 0
  half : Bool := false
  deriving DecidableEq, Repr

def SplitState.push (st : SplitState) (ch : Char) : SplitState :=
  { st with cur := st.cur ++ [ch], prev := some ch }

/-- The state behind a separator that begins with `ch`. -/
def SplitState.cut (st : SplitState) (ch : Char) (half : Bool) : SplitState :=
  { st with cur := [], prev := some ch, half := half }

section Split
variable (env : GuardEnv)

/-- How far a heredoc reaches behind its two opening characters, `rest` being the text
behind them; `none` where no delimiter follows. -/
def heredocLength (rest : Text) : Option Nat :=
  let dash := if rest.head? = some '-' then 1 else 0
  let blanks := ((rest.drop dash).takeWhile fun c => c == ' ' || c == '\t').length
  let raw := (rest.drop (dash + blanks)).takeWhile
    fun c => env.isalnum c || c == '_' || c == '\x27'
  let delim := stripBy (fun c => c == '\x27' || c == '\x22') raw
  let j := dash + blanks + raw.length
  if delim = [] then none
  else
    -- the delimiter line, else any place of the delimiter, else the whole rest
    match (findFrom? ('\n' :: delim) j rest).or (findFrom? delim j rest) with
    | some idx => some (idx + delim.length)
    | none => some rest.length

/-- The loop of `split_subcommands`, its parts not stripped yet. -/
def splitFrom (st : SplitState) : Text → List Text
  | [] => [st.cur]
  | ch :: rest =>
    if st.half then splitFrom { st with prev := some ch, half := false } rest
    else if st.skip > 0 then splitFrom { st.push ch with skip := st.skip - 1 } rest
    else if st.quote.isSome then
      splitFrom { st.push ch with quote := if st.quote = some ch then none else st.quote } rest
    else if ch = '\x27' ∨ ch = '\x22' then splitFrom { st.push ch with quote := some ch } rest
    else if ch = '\x60' then splitFrom { st.push ch with backtick := !st.backtick } rest
    else if st.backtick then splitFrom (st.push ch) rest
    else if ch = '<' ∧ rest.head? = some '<' then
      splitFrom { st.push ch with skip := ((heredocLength env (rest.drop 1)).map (· + 1)).getD 0 }
        rest
    else if ch = '(' then splitFrom { st.push ch with paren := st.paren + 1 } rest
    else if ch = ')' ∧ st.paren > 0 then splitFrom { st.push ch with paren := st.paren - 1 } rest
    else if st.paren > 0 then splitFrom (st.push ch) rest
    else if (ch = '&' ∨ ch = '|') ∧ rest.head? = some ch then
      st.cur :: splitFrom (st.cut ch true) rest
    else if ch = ';' then st.cur :: splitFrom (st.cut ch false) rest
    -- a redirect of both streams, or of one descriptor to another, is no separator
    else if ch = '&' ∧ ¬(rest.head? = some '>' ∨ st.prev = some '>') then
      st.cur :: splitFrom (st.cut ch false) rest
    else splitFrom (st.push ch) rest

def splitSubcommands (command : Text) : List Text :=
  ((splitFrom env {} command).map strip).filter (· ≠ [])

end Split

end MiqroForge.Guard
