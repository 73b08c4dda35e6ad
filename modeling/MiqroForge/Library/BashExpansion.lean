import MiqroForge.Library.BashWords

/-!
What bash makes of a simple command without quotes: its words, and what they are after the
expansions. Tildes are expanded; a script with a character of another expansion is not read.
-/

namespace BashQuoting

open PyText List

/-! ## Tildes -/

/-- The directories that tilde-prefixes stand for, by what is behind the tilde: nothing, a login
name, a sign, or a number. -/
structure Homes where
  dir : Text → Option Text
  absolute : ∀ name d, dir name = some d → d.head? = some '/'

variable (h : Homes)

def beforeSlash (t : Text) : Text := t.takeWhile (· ≠ '/')

/-- A tilde-prefix at the start. -/
def expandTilde : Text → Text
  | '~' :: rest =>
    match h.dir (beforeSlash rest) with
    | some d => d ++ rest.dropWhile (· ≠ '/')
    | none => '~' :: rest
  | t => t

/-- The text begins with a tilde-prefix that stands for a directory. -/
def StartsTilde (t : Text) : Prop :=
  t.head? = some '~' ∧ h.dir (beforeSlash t.tail) ≠ none

def isNameStart (c : Char) : Bool := c.isAlpha || c == '_'

def isNameChar (c : Char) : Bool := c.isAlphanum || c == '_'

/-- A word of the form of an assignment, cut behind its sign. -/
def splitAssignment (t : Text) : Option (Text × Text) :=
  if (t.head?.map isNameStart).getD false then
    match t.dropWhile isNameChar with
    | '=' :: value => some (t.takeWhile isNameChar ++ ['='], value)
    | '+' :: '=' :: value => some (t.takeWhile isNameChar ++ ['+', '='], value)
    | _ => none
  else none

/-- The parts of a value in front of which a tilde is expanded. -/
def expandValue (value : Text) : Text :=
  [':'].intercalate ((value.splitOn ':').map (expandTilde h))

/-- An argument that has the form of an assignment has tildes expanded as in one. -/
def expandWord (w : Text) : Text :=
  match splitAssignment w with
  | some (left, value) => left ++ expandValue h value
  | none => expandTilde h w

/-- A tilde of the word is expanded. -/
def HasTilde (w : Text) : Prop :=
  match splitAssignment w with
  | some (_, value) => ∃ part ∈ value.splitOn ':', StartsTilde h part
  | none => StartsTilde h w

theorem expandTilde_cases (t : Text) :
    (StartsTilde h t ∧ (expandTilde h t).head? = some '/') ∨
      (¬ StartsTilde h t ∧ expandTilde h t = t) := by
  unfold expandTilde
  split
  case h_1 rest =>
    cases hdir : h.dir (beforeSlash rest) with
    | none => exact .inr ⟨fun hs => hs.2 hdir, rfl⟩
    | some d =>
      refine .inl ⟨⟨rfl, by simp [hdir]⟩, ?_⟩
      have habs := h.absolute _ _ hdir
      cases d with
      | nil => cases habs
      | cons c d => exact habs
  case h_2 hnot =>
    refine .inr ⟨fun hs => ?_, rfl⟩
    cases t with
    | nil => cases hs.1
    | cons c rest =>
      obtain rfl := Option.some.inj hs.1
      exact hnot rest rfl

theorem expandTilde_eq_self (t : Text) : expandTilde h t = t ↔ ¬ StartsTilde h t := by
  rcases expandTilde_cases h t with ⟨hs, hhead⟩ | ⟨hs, heq⟩
  · refine iff_of_false (fun heq => ?_) (not_not.mpr hs)
    rw [heq, hs.1] at hhead
    cases hhead
  · exact iff_of_true heq hs

theorem intercalate_expand (parts : List Text) :
    [':'].intercalate (parts.map (expandTilde h)) = [':'].intercalate parts ↔
      ∀ part ∈ parts, ¬ StartsTilde h part := by
  induction parts with
  | nil => simp
  | cons part rest ih =>
    rw [forall_mem_cons, ← ih, ← expandTilde_eq_self]
    rcases expandTilde_cases h part with ⟨hs, hhead⟩ | ⟨hs, heq⟩
    · have hne : expandTilde h part ≠ part := fun heq => (expandTilde_eq_self h part).mp heq hs
      refine iff_of_false (fun hall => ?_) fun hall => hne hall.1
      obtain ⟨c, tail, hpart⟩ : ∃ c tail, part = c :: tail := by
        cases part with
        | nil => cases hs.1
        | cons c tail => exact ⟨c, tail, rfl⟩
      obtain ⟨d, dir, hexp⟩ : ∃ d dir, expandTilde h part = d :: dir := by
        cases hexp : expandTilde h part with
        | nil => rw [hexp] at hhead; cases hhead
        | cons d dir => exact ⟨d, dir, rfl⟩
      have hheads := congrArg head? hall
      have hleft : ([':'].intercalate (expandTilde h part :: rest.map (expandTilde h))).head? =
          some '/' := by
        rw [← hhead, hexp]
        cases rest.map (expandTilde h) <;> simp [intercalate]
      have hright : ([':'].intercalate (part :: rest)).head? = some '~' := by
        rw [← hs.1, hpart]
        cases rest <;> simp [intercalate]
      rw [map_cons, hleft, hright] at hheads
      cases hheads
    · rw [map_cons, heq]
      cases rest with
      | nil => simp
      | cons next rest =>
        simp only [map_cons, intercalate_cons_cons, true_and]
        exact append_right_inj _

theorem splitAssignment_append {w left value : Text} (hs : splitAssignment w = some (left, value)) :
    w = left ++ value := by
  unfold splitAssignment at hs
  split at hs
  case isFalse => cases hs
  case isTrue =>
    split at hs
    case h_3 => cases hs
    case h_1 v hdrop =>
      cases hs
      have happ := takeWhile_append_dropWhile (p := isNameChar) (l := w)
      rw [hdrop] at happ
      simpa using happ.symm
    case h_2 v hdrop =>
      cases hs
      have happ := takeWhile_append_dropWhile (p := isNameChar) (l := w)
      rw [hdrop] at happ
      simpa using happ.symm

theorem mem_intercalate {sep part : Text} {parts : List Text} {c : Char} (hpart : part ∈ parts)
    (hc : c ∈ part) : c ∈ sep.intercalate parts := by
  induction parts with
  | nil => cases hpart
  | cons first rest ih =>
    cases rest with
    | nil =>
      obtain rfl := mem_singleton.mp hpart
      rwa [intercalate_singleton]
    | cons next rest =>
      rw [intercalate_cons_cons]
      rcases mem_cons.mp hpart with rfl | hpart
      · exact mem_append_left _ (mem_append_left _ hc)
      · exact mem_append_right _ (ih hpart)

theorem hasTilde_mem {w : Text} (ht : HasTilde h w) : '~' ∈ w := by
  unfold HasTilde at ht
  split at ht
  case h_1 left value hsplit =>
    obtain ⟨part, hpart, hs⟩ := ht
    have hmem : '~' ∈ [':'].intercalate (value.splitOn ':') :=
      mem_intercalate hpart (mem_of_head? hs.1)
    rw [intercalate_splitOn] at hmem
    rw [splitAssignment_append hsplit]
    exact mem_append_right _ hmem
  case h_2 => exact mem_of_head? ht.1

theorem expandWord_eq_self (w : Text) : expandWord h w = w ↔ ¬ HasTilde h w := by
  unfold expandWord HasTilde
  cases hsplit : splitAssignment w with
  | none => exact expandTilde_eq_self h w
  | some cut =>
    obtain ⟨left, value⟩ := cut
    have hw := splitAssignment_append hsplit
    dsimp only
    conv_lhs => rhs; rw [hw]
    rw [append_right_inj, expandValue]
    have hparts : [':'].intercalate (value.splitOn ':') = value := intercalate_splitOn ':'
    conv_lhs => rhs; rw [← hparts]
    rw [intercalate_expand]
    exact ⟨fun hall ⟨part, hpart, hs⟩ => hall part hpart hs,
      fun hno part hpart hs => hno ⟨part, hpart, hs⟩⟩

theorem map_expandWord (words : List Text) :
    words.map (expandWord h) = words ↔ ∀ w ∈ words, ¬ HasTilde h w := by
  induction words with
  | nil => simp
  | cons w words ih =>
    rw [map_cons, cons_eq_cons, forall_mem_cons, expandWord_eq_self, ih]

/-! ## Simple commands -/

/-- A character of an expansion that is not modelled, or of a parenthesis. -/
def isExpanding (c : Char) : Bool := "$*?[]\x7b\x7d()".toList.contains c

/-- The reserved words. -/
def reserved : List Text :=
  ["!", "[[", "]]", "\x7b", "\x7d", "case", "coproc", "do", "done", "elif", "else", "esac", "fi", "for",
    "function", "if", "in", "select", "then", "time", "until", "while"].map String.toList

def bareChar : Sym → Option Char
  | .bare c => if isExpanding c then none else some c
  | _ => none

/-- A word without quotes. -/
def bareWord : Token → Option Text
  | .word w => w.mapM bareChar
  | _ => none

/-- The words of a script that is one simple command, behind the expansions. -/
def simpleCommand (script : Text) : Option (List Text) :=
  match (parse script).bind (List.mapM bareWord) with
  | some (name :: args) =>
    if (splitAssignment name).isSome ∨ name ∈ reserved then none
    else some ((name :: args).map (expandWord h))
  | _ => none

/-- A character that nothing but a tilde expansion changes. -/
def isPlain (c : Char) : Bool := isWordChar c && !isExpanding c

theorem tokenStep_first {c : Char} (hc : isWordChar c = true) :
    tokenStep none (.bare c) = ([], some (.word [.bare c])) := by
  have hp := isPiece_word hc
  simp only [Sym.isPiece, Bool.not_eq_true', Bool.or_eq_false_iff, beq_eq_false_iff_ne] at hp
  obtain ⟨⟨hblank, hnl⟩, hop⟩ := hp
  simp only [tokenStep, hblank, if_neg hnl, hop, Bool.false_eq_true, if_false]
  rfl

theorem tokens_one {w : Text} (hne : w ≠ []) (hw : ∀ c ∈ w, isWordChar c = true) :
    Mealy.outputs tokenStep none (w.map .bare) = [] ∧
      Mealy.after tokenStep none (w.map .bare) = some (.word (w.map .bare)) := by
  cases w with
  | nil => exact absurd rfl hne
  | cons c w =>
    obtain ⟨hc, hrest⟩ := forall_mem_cons.mp hw
    have hpieces : ∀ s ∈ w.map Sym.bare, s.isPiece = true := by
      intro s hs
      obtain ⟨d, hd, rfl⟩ := mem_map.mp hs
      exact isPiece_word (hrest d hd)
    have hkept : (w.map Sym.bare).filter (· ≠ .null) = w.map Sym.bare := by
      rw [filter_eq_self]
      intro s hs
      obtain ⟨d, -, rfl⟩ := mem_map.mp hs
      rfl
    obtain ⟨hout, hafter⟩ := tokens_pieces hpieces [.bare c]
    rw [hkept] at hafter
    rw [map_cons, Mealy.outputs, Mealy.after, foldl_cons, tokenStep_first hc]
    exact ⟨hout, hafter⟩

/-- Words with a blank between them. -/
def joinSpaces (words : List Text) : Text := [' '].intercalate words

theorem joinSpaces_cons (w : Text) (words : List Text) :
    joinSpaces (w :: words) = w ++ words.flatMap (' ' :: ·) := by
  unfold joinSpaces
  induction words generalizing w with
  | nil => simp
  | cons next rest ih =>
    rw [intercalate_cons_cons, ih next, flatMap_cons, append_assoc]
    rfl

theorem splitSpaces_join {words : List Text} (hne : ∀ w ∈ words, w ≠ [])
    (hw : ∀ w ∈ words, ∀ c ∈ w, isSpace c = false) : splitSpaces (joinSpaces words) = words := by
  unfold splitSpaces joinSpaces
  induction words with
  | nil => rfl
  | cons w rest ih =>
    obtain ⟨hne', hrest⟩ := forall_mem_cons.mp hne
    obtain ⟨hw', hwrest⟩ := forall_mem_cons.mp hw
    cases rest with
    | nil =>
      rw [intercalate_singleton, splitOnP_eq_singleton hw']
      simp [hne']
    | cons next rest =>
      rw [intercalate_cons_cons, append_assoc, singleton_append,
        splitOnP_append_cons_of_forall_mem hw' ' ' rfl, filter_cons_of_pos (by simp [hne']),
        ih hrest hwrest]

theorem tokens_join {words : List Text} (hne : ∀ w ∈ words, w ≠ [])
    (hw : ∀ w ∈ words, ∀ c ∈ w, isWordChar c = true) :
    tokens ((joinSpaces words).map .bare) = words.map fun w => .word (w.map .bare) := by
  unfold tokens joinSpaces
  induction words with
  | nil => rfl
  | cons w rest ih =>
    obtain ⟨hne', hrest⟩ := forall_mem_cons.mp hne
    obtain ⟨hw', hwrest⟩ := forall_mem_cons.mp hw
    obtain ⟨hout, hafter⟩ := tokens_one hne' hw'
    cases rest with
    | nil => simp [hout, hafter]
    | cons next rest =>
      have ih' := ih hrest hwrest
      have hblank : tokenStep (some (.word (w.map .bare))) (.bare ' ') =
          ([.word (w.map .bare)], none) := rfl
      rw [intercalate_cons_cons, map_append, map_append, append_assoc,
        Mealy.outputs_append, Mealy.after_append, hout, hafter, map_singleton,
        singleton_append, Mealy.outputs, Mealy.after, foldl_cons, hblank,
        map_cons, ← ih']
      rfl

theorem outputs_blanks {t : Text} (ht : ∀ c ∈ t, isWordChar c = true ∨ c = ' ') (prev : Char) :
    Mealy.outputs step (.plain prev) t = t.map .bare ∧
      (Mealy.after step (.plain prev) t).closed = true := by
  induction t generalizing prev with
  | nil => exact ⟨rfl, rfl⟩
  | cons c t ih =>
    obtain ⟨hc, hrest⟩ := forall_mem_cons.mp ht
    obtain ⟨hout, hafter⟩ := ih hrest c
    have hstep : step (.plain prev) c = ([.bare c], .plain c) := by
      rcases hc with hc | rfl
      · exact plainStep_word hc prev
      · simp [step, plainStep]
    rw [Mealy.outputs, Mealy.after, foldl_cons, hstep]
    exact ⟨congrArg (Sym.bare c :: ·) hout, hafter⟩

theorem mem_joinSpaces {words : List Text} {c : Char} (hc : c ∈ joinSpaces words) :
    c = ' ' ∨ ∃ w ∈ words, c ∈ w := by
  unfold joinSpaces at hc
  induction words with
  | nil => simp at hc
  | cons w rest ih =>
    cases rest with
    | nil => exact .inr ⟨w, mem_cons_self, by simpa using hc⟩
    | cons next rest =>
      rw [intercalate_cons_cons, mem_append, mem_append, mem_singleton] at hc
      rcases hc with (hc | hc) | hc
      · exact .inr ⟨w, mem_cons_self, hc⟩
      · exact .inl hc
      · rcases ih hc with heq | ⟨w', hw', hc'⟩
        · exact .inl heq
        · exact .inr ⟨w', mem_cons_of_mem w hw', hc'⟩

theorem bareWord_plain {w : Text} (hw : ∀ c ∈ w, isPlain c = true) :
    bareWord (.word (w.map .bare)) = some w := by
  show (w.map Sym.bare).mapM bareChar = some w
  induction w with
  | nil => rfl
  | cons c w ih =>
    obtain ⟨hc, hrest⟩ := forall_mem_cons.mp hw
    have hexp : isExpanding c = false := by
      simp only [isPlain, Bool.and_eq_true, Bool.not_eq_true'] at hc
      exact hc.2
    rw [map_cons, mapM_cons, ih hrest]
    simp [bareChar, hexp]

/-- **Words of plain characters** with a blank between them are one simple command, unless the first
is an assignment or a reserved word; only tildes are expanded. -/
theorem simpleCommand_join {name : Text} {args : List Text}
    (hne : ∀ w ∈ name :: args, w ≠ []) (hw : ∀ w ∈ name :: args, ∀ c ∈ w, isPlain c = true)
    (hassign : splitAssignment name = none) (hres : name ∉ reserved) :
    simpleCommand h (joinSpaces (name :: args)) = some ((name :: args).map (expandWord h)) := by
  have hword : ∀ w ∈ name :: args, ∀ c ∈ w, isWordChar c = true := fun w hm c hc => by
    have hp := hw w hm c hc
    simp only [isPlain, Bool.and_eq_true] at hp
    exact hp.1
  have hchars : ∀ c ∈ joinSpaces (name :: args), isWordChar c = true ∨ c = ' ' := fun c hc => by
    rcases mem_joinSpaces hc with heq | ⟨w, hm, hc'⟩
    · exact .inr heq
    · exact .inl (hword w hm c hc')
  have hnul : '\x00' ∉ joinSpaces (name :: args) := fun hmem => by
    rcases hchars _ hmem with hc | heq
    · exact absurd hc (by decide)
    · cases heq
  obtain ⟨hout, hclosed⟩ := outputs_blanks hchars '\n'
  have hparse : parse (joinSpaces (name :: args)) =
      some ((name :: args).map fun w => .word (w.map .bare)) := by
    rw [parse, quote, filter_nul hnul, if_pos hclosed, Option.map_some, hout,
      tokens_join hne hword]
  have hmap : ((name :: args).map fun w => Token.word (w.map .bare)).mapM bareWord =
      some (name :: args) := by
    rw [mapM_map]
    have hall : ∀ ws : List Text, (∀ w ∈ ws, ∀ c ∈ w, isPlain c = true) →
        ws.mapM (fun w => bareWord (.word (w.map .bare))) = some ws := by
      intro ws hws
      induction ws with
      | nil => rfl
      | cons w ws ih =>
        obtain ⟨hw', hws'⟩ := forall_mem_cons.mp hws
        rw [mapM_cons, bareWord_plain hw', ih hws']
        rfl
    exact hall _ hw
  unfold simpleCommand
  rw [hparse, Option.bind_some, hmap]
  simp [hassign, hres]

end BashQuoting
