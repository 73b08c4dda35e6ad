import Mathlib.Data.List.Chain
import MiqroForge.Library.ShellWords

/-!
Command lines with groups and redirections, as a flat list of marks: where the shell expects a
command word, and which commands it runs by their names.
-/

namespace ShellWords

open PyText

/-- The operators of a redirection, here-documents left out. -/
inductive Redirect where
  | input
  | output
  | append
  | clobber
  | both
  | appendBoth
  | readWrite
  | dupInput
  | dupOutput
  deriving DecidableEq

inductive Mark where
  | atom (a : Atom)
  | redirect (r : Redirect)
  | opening
  | closing

def Redirect.render : Redirect → Text
  | .input => ['<']
  | .output => ['>']
  | .append => ['>', '>']
  | .clobber => ['>', '|']
  | .both => ['&', '>']
  | .appendBoth => ['&', '>', '>']
  | .readWrite => ['<', '>']
  | .dupInput => ['<', '&']
  | .dupOutput => ['>', '&']

def Mark.render : Mark → Text
  | .atom a => a.render
  | .redirect r => r.render
  | .opening => ['(']
  | .closing => [')']

def renderMarks (ms : List Mark) : Text := ms.flatMap Mark.render

@[simp] theorem renderMarks_nil : renderMarks [] = [] := rfl

@[simp] theorem renderMarks_cons (m : Mark) (ms : List Mark) :
    renderMarks (m :: ms) = m.render ++ renderMarks ms := rfl

@[simp] theorem renderMarks_append (ms ns : List Mark) :
    renderMarks (ms ++ ns) = renderMarks ms ++ renderMarks ns := List.flatMap_append

def Word.marks (w : Word) : List Mark := w.atoms.map .atom

def blankMarks (bs : List Blank) : List Mark := bs.map fun b => .atom (.blank b)

/-- The marks of a text of plain characters. -/
def plainMarks (t : Text) : List Mark :=
  t.filterMap fun c => if h : isPlain c = true then some (.atom (.piece (.plain c h))) else none

theorem render_plainMarks {t : Text} (ht : ∀ c ∈ t, isPlain c = true) :
    renderMarks (plainMarks t) = t := by
  induction t with
  | nil => rfl
  | cons c t ih =>
    have hc := ht c List.mem_cons_self
    have hcons : plainMarks (c :: t) = .atom (.piece (.plain c hc)) :: plainMarks t := by
      rw [plainMarks, List.filterMap_cons, dif_pos hc]
      rfl
    rw [hcons, renderMarks_cons, ih fun d hd => ht d (List.mem_cons_of_mem c hd)]
    rfl

def blankMark : Mark := .atom (.blank .space)

/-- The marks of a text of plain characters and spaces. -/
def words (s : String) : List Mark :=
  s.toList.filterMap fun c =>
    if h : isPlain c = true then some (.atom (.piece (.plain c h)))
    else if c = ' ' then some blankMark else none

theorem renderMarks_atoms (as : List Atom) : renderMarks (as.map .atom) = render as :=
  List.flatMap_map ..

@[simp] theorem Word.render_marks (w : Word) : renderMarks w.marks = render w.atoms :=
  renderMarks_atoms w.atoms

/-! ## Marks stand apart -/

/-- The operators are not read as one operator when they touch. -/
def Op.parts (o : Op) (r : Redirect) : Bool :=
  !(o == .amp && (r.render.head? == some '>' || r.render.head? == some '&')) &&
    !(o == .pipe && r.render.head? == some '&')

/-- The second mark may touch the first one. -/
def Mark.mayPrecede : Mark → Mark → Bool
  | .redirect _, .atom (.piece _) => true
  | .redirect _, .atom (.blank _) => true
  | .redirect _, _ => false
  | .atom (.op o), .atom (.op o') => o' == .newline || (o == .pipe && o' == .amp)
  | .atom (.op o), .redirect r => o.parts r
  | _, _ => true

/-- No two marks of the line are read as one operator. -/
def Apart (ms : List Mark) : Prop := ms.IsChain fun m n => m.mayPrecede n = true

instance (ms : List Mark) : Decidable (Apart ms) := by unfold Apart; infer_instance

/-- What begins a word or stands between words. -/
def Mark.isWordly : Mark → Bool
  | .atom (.piece _) => true
  | .atom (.blank _) => true
  | _ => false

def Mark.isPiece : Mark → Bool
  | .atom a => a.isPiece
  | _ => false

/-- Words, blanks and redirections: what a simple command is made of. -/
def Mark.isSimple : Mark → Bool
  | .atom (.op _) => false
  | .opening => false
  | .closing => false
  | _ => true

/-- White space between words. -/
def Mark.isSpace : Mark → Bool
  | .atom (.blank _) => true
  | .atom (.op o) => o == .newline
  | _ => false

theorem piece_head (p : Piece) (rest : Text) {c : Char} (hc : c ∈ "&|<>;()".toList) :
    (p.render ++ rest).head? ≠ some c := by
  have hne : ∀ d : Char, "\\\x27\x22".toList.contains d = true → d ≠ c := by
    rintro d hd rfl
    rw [List.contains_iff_mem] at hd
    revert hc
    simp only [String.reduceToList, List.mem_cons, List.not_mem_nil, or_false] at hd
    rcases hd with rfl | rfl | rfl <;> decide
  intro h
  cases p with
  | plain d hd =>
    have hdc : d = c := Option.some.inj h
    subst hdc
    have hbad : isPlain d = false := by
      simp only [String.reduceToList, List.mem_cons, List.not_mem_nil, or_false] at hc
      rcases hc with rfl | rfl | rfl | rfl | rfl | rfl | rfl <;> rfl
    rw [hbad] at hd
    cases hd
  | escaped d => exact hne '\\' rfl (Option.some.inj h)
  | single s hs => exact hne '\x27' rfl (Option.some.inj h)
  | double items => exact hne '\x22' rfl (Option.some.inj h)

theorem wordly_head {m : Mark} (hm : m.isWordly = true) (ms : List Mark) {c : Char}
    (hc : c ∈ "&|<>;()".toList) : (renderMarks (m :: ms)).head? ≠ some c := by
  rw [renderMarks_cons]
  cases m with
  | atom a =>
    cases a with
    | piece p => exact piece_head p _ hc
    | blank b =>
      rintro h
      have hb : b.char = c := Option.some.inj h
      subst hb
      cases b <;> revert hc <;> decide
    | op o => cases hm
  | redirect r => cases hm
  | opening => cases hm
  | closing => cases hm

theorem Apart.tail {m : Mark} {ms : List Mark} (h : Apart (m :: ms)) : Apart ms := List.IsChain.tail h

theorem Apart.behind_redirect {r : Redirect} {ms : List Mark} (h : Apart (.redirect r :: ms))
    {c : Char} (hc : c ∈ "&|<>;()".toList) : (renderMarks ms).head? ≠ some c := by
  cases ms with
  | nil => exact fun h => by cases h
  | cons m ms =>
    have hm : Mark.mayPrecede (.redirect r) m = true := (List.isChain_cons_cons.mp h).1
    apply wordly_head _ ms hc
    cases m with
    | atom a =>
      cases a with
      | piece p => rfl
      | blank b => rfl
      | op o => cases hm
    | redirect r => cases hm
    | opening => cases hm
    | closing => cases hm

theorem Apart.behind_amp {ms : List Mark} (h : Apart (.atom (.op .amp) :: ms)) :
    (renderMarks ms).head? ≠ some '&' ∧ (renderMarks ms).head? ≠ some '>' := by
  cases ms with
  | nil => simp
  | cons m ms =>
    have hm : Mark.mayPrecede (.atom (.op .amp)) m = true := (List.isChain_cons_cons.mp h).1
    have hwordly : m.isWordly = true → (renderMarks (m :: ms)).head? ≠ some '&' ∧
        (renderMarks (m :: ms)).head? ≠ some '>' :=
      fun hm => ⟨wordly_head hm ms (by decide), wordly_head hm ms (by decide)⟩
    cases m with
    | atom a =>
      cases a with
      | piece p => exact hwordly rfl
      | blank b => exact hwordly rfl
      | op o =>
        have ho : o = .newline := by simpa [Mark.mayPrecede] using hm
        subst ho
        simp [Mark.render, Atom.render, Op.render]
    | redirect r =>
      cases r <;> simp [Mark.mayPrecede, Op.parts, Redirect.render] at hm <;>
        simp [Mark.render, Redirect.render]
    | opening => simp [Mark.render]
    | closing => simp [Mark.render]

theorem Apart.behind_pipe {ms : List Mark} (h : Apart (.atom (.op .pipe) :: ms)) :
    (renderMarks ms).head? ≠ some '|' := by
  cases ms with
  | nil => exact fun h => by cases h
  | cons m ms =>
    have hm : Mark.mayPrecede (.atom (.op .pipe)) m = true := (List.isChain_cons_cons.mp h).1
    cases m with
    | atom a =>
      cases a with
      | piece p => exact wordly_head rfl ms (by decide)
      | blank b => exact wordly_head rfl ms (by decide)
      | op o =>
        have ho : o = .newline ∨ o = .amp := by simpa [Mark.mayPrecede] using hm
        rcases ho with rfl | rfl <;> simp [Mark.render, Atom.render, Op.render]
    | redirect r => cases r <;> simp [Mark.render, Redirect.render]
    | opening => simp [Mark.render]
    | closing => simp [Mark.render]

/-! ## Commands by their names -/

def Piece.isPlain : Piece → Bool
  | .plain _ _ => true
  | _ => false

/-- The unquoted text that the word begins with. -/
def Word.bareText (w : Word) : Text := (w.pieces.takeWhile Piece.isPlain).flatMap Piece.text

def isNameStart (c : Char) : Bool := c.isAlpha || c == '_'

def isNameRest (c : Char) : Bool := c.isAlphanum || c == '_'

/-- A variable assignment: the name and the operator are not quoted. -/
def Word.assigns (w : Word) : Bool :=
  match w.bareText with
  | c :: rest =>
    let op := rest.dropWhile isNameRest
    isNameStart c && (op.head? == some '=' || "+=".toList.isPrefixOf op)
  | [] => false

/-- The reserved words with a command behind them. -/
def reservedWords : List Text :=
  ["!", "\x7b", "if", "then", "elif", "else", "while", "until", "do", "time"].map String.toList

def Word.isReserved (w : Word) : Bool := w.pieces.all Piece.isPlain && reservedWords.contains w.text

/-- A simple command begins behind the marks. -/
inductive CommandBegins : List Mark → Prop where
  | start : CommandBegins []
  | op (front : List Mark) (o : Op) : CommandBegins (front ++ [.atom (.op o)])
  | opening (front : List Mark) : CommandBegins (front ++ [.opening])
  | blank {front : List Mark} (b : Blank) (h : CommandBegins front) :
      CommandBegins (front ++ [.atom (.blank b)])
  | reserved {front : List Mark} (w : Word) (hw : w.isReserved = true) (g : Gap)
      (h : CommandBegins front) : CommandBegins (front ++ w.marks ++ g.atoms.map .atom)

/-- The next word behind the marks names a simple command: only assignments and redirections
stand between them. -/
inductive NameNext : List Mark → Prop where
  | begins {front : List Mark} (h : CommandBegins front) : NameNext front
  | assignment {front : List Mark} (w : Word) (hw : w.assigns = true) (g : Gap)
      (h : NameNext front) : NameNext (front ++ w.marks ++ g.atoms.map .atom)
  | redirection {front : List Mark} (fd : List Mark) (hfd : ∀ m ∈ fd, m.isPiece = true)
      (r : Redirect) (bs : List Blank) (target : Word) (g : Gap) (h : NameNext front) :
      NameNext (front ++ (fd ++ .redirect r :: blankMarks bs ++ target.marks) ++
        g.atoms.map .atom)

/-- A simple command in a command line, at its name. -/
structure Invocation where
  front : List Mark
  name : Word
  back : List Mark
  next : NameNext front
  ends : ∀ m, back.head? = some m → m.isPiece = false
  apart : Apart (front ++ name.marks ++ back)

def Invocation.line (i : Invocation) : Text := renderMarks (i.front ++ i.name.marks ++ i.back)

/-- An option of a shell that takes the next word for its commands, such as `-c` and `-lc`. -/
def isCommandOption : Text → Bool
  | '-' :: c :: t => c != '-' && (c :: t).contains 'c'
  | _ => false

/-- A shell that a command line starts on a word of its own. -/
structure Launch where
  shell : Invocation
  options : List (Gap × Word)
  gap : Gap
  option : Word
  takes : isCommandOption option.text = true
  gap' : Gap
  payload : Word
  rest : List Mark
  back : shell.back =
    (following (options ++ [(gap, option), (gap', payload)])).map .atom ++ rest

/-- A simple command that the shell runs for the line, `shells` naming the shells: one of its
own, or one of the commands it gives to another shell. -/
inductive Run (shells : List Text) : Text → Type where
  | here (i : Invocation) : Run shells i.line
  | nested (l : Launch) (known : l.shell.name.text ∈ shells) {text : Text}
      (given : l.payload.text = text) (inner : Run shells text) : Run shells l.shell.line

/-- The word that names the command. -/
def Run.name {shells : List Text} {line : Text} : Run shells line → Word
  | .here i => i.name
  | .nested _ _ _ inner => inner.name

end ShellWords
