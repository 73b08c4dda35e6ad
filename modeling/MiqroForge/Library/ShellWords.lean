import MiqroForge.Library.PyText

/-!
Command lines as a POSIX shell reads them, without expansions, redirects and groups: words
made of plain characters, escapes and quotes, simple commands, and the operators between them.
-/

namespace ShellWords

open PyText List

/-- A character that stands for itself outside quotes. -/
def isPlain (c : Char) : Bool := !(" \t\n|&;<>()\\\x27\x22\x60".toList.contains c)

/-- A character that stands for itself in double quotes. -/
def isDqPlain (c : Char) : Bool := !("\\\x22\x60".toList.contains c)

/-- A character that a backslash escapes in double quotes. -/
def isDqEscapable (c : Char) : Bool := "$\x60\x22\\\n".toList.contains c

inductive DqItem where
  | plain (c : Char) (h : isDqPlain c = true)
  | escaped (c : Char) (h : isDqEscapable c = true)
  | backslash (c : Char) (h : isDqEscapable c = false)

/-- A part of a word. An escaped newline is a line continuation. -/
inductive Piece where
  | plain (c : Char) (h : isPlain c = true)
  | escaped (c : Char)
  | single (s : Text) (h : '\x27' ∉ s)
  | double (items : List DqItem)

structure Word where
  pieces : List Piece
  nonempty : pieces ≠ []

inductive Blank where
  | space
  | tab

inductive Op where
  | newline
  | semi
  | and
  | or
  | amp
  | pipe
  deriving DecidableEq

/-- What a command line is made of. -/
inductive Atom where
  | piece (p : Piece)
  | blank (b : Blank)
  | op (o : Op)

/-- The blanks between two words. -/
structure Gap where
  first : Blank
  more : List Blank

/-- An operator with the blanks around it. -/
structure Sep where
  before : List Blank
  op : Op
  after : List Blank

structure Command where
  first : Word
  more : List (Gap × Word)

/-! ## Texts -/

def DqItem.render : DqItem → Text
  | .plain c _ => [c]
  | .escaped c _ => ['\\', c]
  | .backslash c _ => ['\\', c]

def DqItem.text : DqItem → Text
  | .plain c _ => [c]
  | .escaped c _ => if c = '\n' then [] else [c]
  | .backslash c _ => ['\\', c]

def Piece.render : Piece → Text
  | .plain c _ => [c]
  | .escaped c => ['\\', c]
  | .single s _ => '\x27' :: s ++ ['\x27']
  | .double items => '\x22' :: items.flatMap DqItem.render ++ ['\x22']

def Piece.text : Piece → Text
  | .plain c _ => [c]
  | .escaped c => if c = '\n' then [] else [c]
  | .single s _ => s
  | .double items => items.flatMap DqItem.text

/-- The word after quote removal. -/
def Word.text (w : Word) : Text := w.pieces.flatMap Piece.text

def Blank.char : Blank → Char
  | .space => ' '
  | .tab => '\t'

def Op.render : Op → Text
  | .newline => ['\n']
  | .semi => [';']
  | .and => ['&', '&']
  | .or => ['|', '|']
  | .amp => ['&']
  | .pipe => ['|']

def Atom.render : Atom → Text
  | .piece p => p.render
  | .blank b => [b.char]
  | .op o => o.render

def render (as : List Atom) : Text := as.flatMap Atom.render

/-! ## Lines -/

def Word.atoms (w : Word) : List Atom := w.pieces.map .piece

def Gap.atoms (g : Gap) : List Atom := .blank g.first :: g.more.map .blank

def Sep.atoms (s : Sep) : List Atom := s.before.map .blank ++ .op s.op :: s.after.map .blank

/-- Words that follow another one. -/
def following (more : List (Gap × Word)) : List Atom :=
  more.flatMap fun (g, w) => g.atoms ++ w.atoms

def Command.atoms (c : Command) : List Atom := c.first.atoms ++ following c.more

/-- Commands in front of another one. -/
def inFront (before : List (Command × Sep)) : List Atom :=
  before.flatMap fun (c, s) => c.atoms ++ s.atoms

/-- Commands behind another one. -/
def behind (after : List (Sep × Command)) : List Atom :=
  after.flatMap fun (s, c) => s.atoms ++ c.atoms

/-- The command line of a non-empty list of commands, with one of them singled out. -/
def commandLine (before : List (Command × Sep)) (c : Command) (after : List (Sep × Command)) :
    Text :=
  render (inFront before ++ c.atoms ++ behind after)

/-- Words in front of another one. -/
def leading (lead : List (Word × Gap)) : List Atom :=
  lead.flatMap fun (w, g) => w.atoms ++ g.atoms

/-- The command with the given words in front of `w` and behind it. -/
def Command.around : (lead : List (Word × Gap)) → (w : Word) → (more : List (Gap × Word)) → Command
  | [], w, more => ⟨w, more⟩
  | (v, g) :: lead, w, more =>
    let c := Command.around lead w more
    ⟨v, (g, c.first) :: c.more⟩

@[simp] theorem render_nil : render [] = [] := rfl

@[simp] theorem render_cons (a : Atom) (as : List Atom) :
    render (a :: as) = a.render ++ render as := rfl

@[simp] theorem render_append (as bs : List Atom) : render (as ++ bs) = render as ++ render bs :=
  flatMap_append

theorem Command.around_atoms (lead : List (Word × Gap)) (w : Word) (more : List (Gap × Word)) :
    (Command.around lead w more).atoms = leading lead ++ w.atoms ++ following more := by
  induction lead with
  | nil => rfl
  | cons v lead ih =>
    have hc : (Command.around (v :: lead) w more).atoms =
        v.1.atoms ++ (v.2.atoms ++ (Command.around lead w more).atoms) := by
      simp [Command.around, Command.atoms, following]
    rw [hc, ih]
    simp [leading]

/-! ## Operators stand apart -/

def Atom.isOp : Atom → Bool
  | .op _ => true
  | _ => false

def Atom.isPiece : Atom → Bool
  | .piece _ => true
  | _ => false

/-- The atoms begin with something other than an operator. -/
def NoOpFirst (as : List Atom) : Prop := ∃ a rest, as = a :: rest ∧ a.isOp = false

/-- Something other than an operator follows every operator. -/
def OpsApart : List Atom → Prop
  | [] => True
  | a :: as => (a.isOp = true → NoOpFirst as) ∧ OpsApart as

theorem OpsApart.append {as bs : List Atom} (has : ∀ a ∈ as, a.isOp = false) (hbs : OpsApart bs) :
    OpsApart (as ++ bs) := by
  induction as with
  | nil => exact hbs
  | cons a as ih =>
    refine ⟨fun ha => ?_, ih fun b hb => has b (mem_cons_of_mem a hb)⟩
    rw [has a mem_cons_self] at ha
    cases ha

theorem Word.not_op (w : Word) : ∀ a ∈ w.atoms, a.isOp = false := by
  intro a ha
  obtain ⟨p, -, rfl⟩ := mem_map.mp ha
  rfl

theorem blanks_not_op (bs : List Blank) : ∀ a ∈ bs.map Atom.blank, a.isOp = false := by
  intro a ha
  obtain ⟨b, -, rfl⟩ := mem_map.mp ha
  rfl

theorem Gap.not_op (g : Gap) : ∀ a ∈ g.atoms, a.isOp = false := blanks_not_op (g.first :: g.more)

theorem following_not_op (more : List (Gap × Word)) : ∀ a ∈ following more, a.isOp = false := by
  intro a ha
  obtain ⟨⟨g, w⟩, -, ha⟩ := mem_flatMap.mp ha
  rcases mem_append.mp ha with ha | ha
  · exact g.not_op a ha
  · exact w.not_op a ha

theorem Command.not_op (c : Command) : ∀ a ∈ c.atoms, a.isOp = false := by
  intro a ha
  rcases mem_append.mp ha with ha | ha
  · exact c.first.not_op a ha
  · exact following_not_op c.more a ha

theorem Command.noOpFirst (c : Command) (as : List Atom) : NoOpFirst (c.atoms ++ as) := by
  obtain ⟨p, ps, hps⟩ := exists_cons_of_ne_nil c.first.nonempty
  exact ⟨.piece p, ps.map .piece ++ following c.more ++ as,
    by simp [Command.atoms, Word.atoms, hps], rfl⟩

theorem OpsApart.sep (s : Sep) {as : List Atom} (hfirst : NoOpFirst as) (has : OpsApart as) :
    OpsApart (s.atoms ++ as) := by
  have hafter : OpsApart (s.after.map .blank ++ as) := has.append (blanks_not_op s.after)
  have hop : OpsApart (.op s.op :: (s.after.map .blank ++ as)) := by
    refine ⟨fun _ => ?_, hafter⟩
    cases s.after with
    | nil => exact hfirst
    | cons b bs => exact ⟨.blank b, bs.map .blank ++ as, rfl, rfl⟩
  have h := hop.append (blanks_not_op s.before)
  simpa [Sep.atoms] using h

theorem OpsApart.behind (after : List (Sep × Command)) : OpsApart (behind after) := by
  induction after with
  | nil => trivial
  | cons sc after ih =>
    obtain ⟨s, c⟩ := sc
    have h := OpsApart.sep s (c.noOpFirst _) (ih.append c.not_op)
    simpa [ShellWords.behind] using h

variable (before : List (Command × Sep))

theorem noOpFirst_inFront {as : List Atom} (has : NoOpFirst as) :
    NoOpFirst (inFront before ++ as) := by
  cases before with
  | nil => exact has
  | cons cs before =>
    have h := cs.1.noOpFirst (cs.2.atoms ++ (inFront before ++ as))
    simpa [inFront] using h

theorem OpsApart.inFront {as : List Atom} (hfirst : NoOpFirst as)
    (has : OpsApart as) : OpsApart (inFront before ++ as) := by
  induction before with
  | nil => exact has
  | cons cs before ih =>
    obtain ⟨c, s⟩ := cs
    have h := (OpsApart.sep s (noOpFirst_inFront before hfirst) ih).append c.not_op
    simpa [ShellWords.inFront] using h

theorem OpsApart.commandLine (c : Command)
    (after : List (Sep × Command)) :
    OpsApart (ShellWords.inFront before ++ c.atoms ++ ShellWords.behind after) := by
  have h := OpsApart.inFront before (c.noOpFirst _) ((OpsApart.behind after).append c.not_op)
  simpa using h

/-! ## Ends of a word -/

theorem Word.render_atoms (w : Word) : render w.atoms =
    render (w.pieces.dropLast.map .piece) ++ (w.pieces.getLast w.nonempty).render := by
  have hpieces : w.pieces = w.pieces.dropLast ++ [w.pieces.getLast w.nonempty] :=
    (dropLast_append_getLast w.nonempty).symm
  calc render w.atoms
      = render ((w.pieces.dropLast ++ [w.pieces.getLast w.nonempty]).map .piece) := by
        rw [← hpieces]
        rfl
    _ = _ := by simp [Atom.render]

theorem Gap.not_piece (g : Gap) : ∀ a ∈ g.atoms, a.isPiece = false := by
  intro a ha
  rcases mem_cons.mp ha with rfl | ha
  · rfl
  · obtain ⟨b, -, rfl⟩ := mem_map.mp ha
    rfl

theorem Sep.not_piece (s : Sep) : ∀ a ∈ s.atoms, a.isPiece = false := by
  intro a ha
  simp only [Sep.atoms, mem_append, mem_cons, mem_map] at ha
  rcases ha with ⟨b, -, rfl⟩ | rfl | ⟨b, -, rfl⟩ <;> rfl

theorem Sep.atoms_ne_nil (s : Sep) : s.atoms ≠ [] := by simp [Sep.atoms]

theorem getLast_not_piece {as bs : List Atom} (hne : bs ≠ []) (hbs : ∀ a ∈ bs, a.isPiece = false)
    {a : Atom} (ha : (as ++ bs).getLast? = some a) : a.isPiece = false := by
  rw [getLast?_append_of_ne_nil as hne] at ha
  exact hbs a (mem_of_getLast? ha)

theorem front_not_piece (lead : List (Word × Gap)) {a : Atom}
    (ha : (inFront before ++ leading lead).getLast? = some a) : a.isPiece = false := by
  rcases eq_nil_or_concat' lead with rfl | ⟨lead, ⟨w, g⟩, rfl⟩
  · rcases eq_nil_or_concat' before with rfl | ⟨before, ⟨c, s⟩, rfl⟩
    · simp [inFront, leading] at ha
    · have hsplit : inFront (before ++ [(c, s)]) ++ leading [] =
          (inFront before ++ c.atoms) ++ s.atoms := by
        simp [inFront, leading]
      rw [hsplit] at ha
      exact getLast_not_piece s.atoms_ne_nil s.not_piece ha
  · have hsplit : inFront before ++ leading (lead ++ [(w, g)]) =
        (inFront before ++ leading lead ++ w.atoms) ++ g.atoms := by
      simp [leading]
    rw [hsplit] at ha
    exact getLast_not_piece (cons_ne_nil _ _) g.not_piece ha

theorem back_not_piece (later : List (Gap × Word)) (after : List (Sep × Command)) {a : Atom}
    (ha : (following later ++ behind after).head? = some a) : a.isPiece = false := by
  cases later with
  | nil =>
    cases after with
    | nil => cases ha
    | cons sc after =>
      obtain ⟨b, bs, hbs⟩ := exists_cons_of_ne_nil sc.1.atoms_ne_nil
      apply sc.1.not_piece a
      have hb : b = a := by simpa [following, behind, hbs] using ha
      rw [hbs, hb]
      exact mem_cons_self
  | cons gw later =>
    cases ha
    rfl

end ShellWords
