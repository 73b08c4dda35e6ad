import MiqroForge.Library.BashQuoting

/-!
The words of a script that is read line by line: what an assignment is read as, and what a word can
begin with.
-/

namespace BashQuoting

open PyText Mealy
open List hiding after

/-! ## Words -/

/-- A character that goes on with a word. -/
def Sym.isPiece : Sym → Bool
  | .bare c => !(isBlank c || c == '\n' || isOp c)
  | _ => true

/-- The rest of the word that the characters go on with. -/
def wordRest : List Sym → List Sym
  | [] => []
  | .null :: syms => wordRest syms
  | s :: syms => if s.isPiece then s :: wordRest syms else []

theorem tokenStep_piece {s : Sym} (h : s.isPiece = true) (w : List Sym) :
    tokenStep (some (.word w)) s = ([], some (.word (w ++ [s].filter (· ≠ .null)))) := by
  cases s with
  | bare c =>
    simp only [Sym.isPiece, Bool.not_eq_true', Bool.or_eq_false_iff, beq_eq_false_iff_ne] at h
    obtain ⟨⟨hblank, hline⟩, hop⟩ := h
    simp only [tokenStep, hblank, if_neg hline, hop, Bool.false_eq_true, if_false]
    rfl
  | _ => rfl

theorem tokenStep_break {s : Sym} (h : s.isPiece = false) (w : List Sym) :
    ∃ more cur, tokenStep (some (.word w)) s = (.word w :: more, cur) := by
  cases s with
  | bare c =>
    unfold tokenStep
    dsimp only
    split
    · exact ⟨_, _, rfl⟩
    · split
      · exact ⟨_, _, rfl⟩
      · rename_i hblank hline
        split
        · exact ⟨_, _, rfl⟩
        · rename_i hop
          simp [Sym.isPiece, hblank, hline, hop] at h
  | _ => cases h

theorem tokenStep_null (w : List Sym) : tokenStep (some (.word w)) .null = ([], some (.word w)) := by
  show ([], some (Token.word (w ++ []))) = _
  rw [append_nil]

theorem tokens_pieces {syms : List Sym} (h : ∀ s ∈ syms, s.isPiece = true) (w : List Sym) :
    outputs tokenStep (some (.word w)) syms = [] ∧
      after tokenStep (some (.word w)) syms =
        some (.word (w ++ syms.filter (· ≠ .null))) := by
  induction syms generalizing w with
  | nil => exact ⟨rfl, by rw [filter_nil, append_nil]; rfl⟩
  | cons s syms ih =>
    obtain ⟨hs, hsyms⟩ := forall_mem_cons.mp h
    obtain ⟨hout, hafter⟩ := ih hsyms (w ++ [s].filter (· ≠ .null))
    rw [outputs, after, foldl_cons, tokenStep_piece hs]
    refine ⟨hout, hafter.trans ?_⟩
    rw [append_assoc, ← filter_append]
    rfl

theorem tokens_word (w syms : List Sym) :
    ∃ more, outputs tokenStep (some (.word w)) syms ++
      (after tokenStep (some (.word w)) syms).toList = .word (w ++ wordRest syms) :: more := by
  induction syms generalizing w with
  | nil =>
    rw [wordRest, append_nil]
    exact ⟨[], rfl⟩
  | cons s syms ih =>
    rw [outputs, after, foldl_cons]
    by_cases hnull : s = .null
    · subst hnull
      rw [tokenStep_null]
      exact ih w
    · rw [wordRest]
      · cases hs : s.isPiece with
        | true =>
          obtain ⟨more, heq⟩ := ih (w ++ [s])
          rw [tokenStep_piece hs, filter_singleton, decide_eq_true hnull, if_pos rfl]
          refine ⟨more, heq.trans ?_⟩
          rw [append_assoc]
          rfl
        | false =>
          obtain ⟨more, cur, heq⟩ := tokenStep_break hs w
          rw [heq, if_neg Bool.false_ne_true, append_nil]
          exact ⟨_, rfl⟩
      · exact hnull

/-- The characters at the front that stand for themselves. -/
def leading : List Sym → Text
  | .literal c :: syms => c :: leading syms
  | .null :: syms => leading syms
  | _ => []

theorem leading_of_wordRest {syms : List Sym} {t : Text} (h : wordRest syms = t.map .literal) :
    leading syms = t := by
  induction syms generalizing t with
  | nil =>
    exact (map_eq_nil_iff.mp h.symm).symm
  | cons s syms ih =>
    cases s with
    | null => exact ih h
    | literal c =>
      cases t with
      | nil => cases h
      | cons d t =>
        obtain ⟨hc, hrest⟩ := cons_eq_cons.mp h
        injection hc with hc
        rw [leading, ih hrest, hc]
    | bare c =>
      rw [wordRest] at h
      split at h
      · cases t with
        | nil => cases h
        | cons d t => cases (cons_eq_cons.mp h).1
      · exact (map_eq_nil_iff.mp h.symm).symm
      · exact Sym.noConfusion
    | double c =>
      cases t with
      | nil => cases h
      | cons d t => cases (cons_eq_cons.mp h).1
    | raw n =>
      cases t with
      | nil => cases h
      | cons d t => cases (cons_eq_cons.mp h).1

theorem leading_literals (t : Text) (syms : List Sym) :
    leading (t.map .literal ++ syms) = t ++ leading syms := by
  induction t with
  | nil => rfl
  | cons c t ih => exact congrArg (c :: ·) ih

theorem leading_length_le (syms : List Sym) : (leading syms).length ≤ syms.length := by
  induction syms with
  | nil => exact Nat.le_refl 0
  | cons s syms ih =>
    cases s with
    | literal c => exact Nat.succ_le_succ ih
    | null => exact Nat.le_succ_of_le ih
    | _ => exact Nat.zero_le _

theorem leading_append_le (syms more : List Sym) :
    (leading (syms ++ more)).length ≤ (leading syms).length + (leading more).length := by
  induction syms with
  | nil => exact Nat.le_of_eq (Nat.zero_add _).symm
  | cons s syms ih =>
    cases s with
    | literal c =>
      rw [cons_append, leading, leading, length_cons, length_cons]
      omega
    | null => exact ih
    | _ => exact Nat.zero_le _

/-! ## Lines -/

/-- Whole lines without NUL, and what they are read as. -/
structure Reads (t : Text) (toks : List Token) : Prop where
  nul : '\x00' ∉ t
  mode : after step (.plain '\n') t = .plain '\n'
  between : after tokenStep none (outputs step (.plain '\n') t) = none
  toks : outputs tokenStep none (outputs step (.plain '\n') t) = toks

theorem Reads.append {s t : Text} {a b : List Token} (hs : Reads s a) (ht : Reads t b) :
    Reads (s ++ t) (a ++ b) where
  nul := fun h => (List.mem_append.mp h).elim hs.nul ht.nul
  mode := by rw [after_append, hs.mode, ht.mode]
  between := by
    rw [outputs_append, hs.mode, after_append, hs.between, ht.between]
  toks := by
    rw [outputs_append, hs.mode, outputs_append, hs.between, hs.toks, ht.toks]

theorem filter_nul {t : Text} (h : '\x00' ∉ t) : t.filter (· ≠ '\x00') = t := by
  rw [filter_eq_self]
  intro c hc
  exact decide_eq_true fun heq => h (heq ▸ hc)

theorem Reads.parse {t : Text} {toks : List Token} (h : Reads t toks) : parse t = some toks := by
  have hclosed : (Mode.plain '\n').closed = true := rfl
  rw [BashQuoting.parse, quote, filter_nul h.nul, h.mode, if_pos hclosed, Option.map_some, tokens, h.toks,
    h.between]
  exact congrArg some (append_nil _)

/-- Whole lines without single quotes, and what they are read as. -/
def Unquoted (t : Text) (toks : List Token) : Prop := '\'' ∉ t ∧ Reads t toks

theorem Unquoted.append {s t : Text} {a b : List Token} (hs : Unquoted s a) (ht : Unquoted t b) :
    Unquoted (s ++ t) (a ++ b) :=
  ⟨fun h => (mem_append.mp h).elim hs.1 ht.1, hs.2.append ht.2⟩

theorem Unquoted.nil : Unquoted [] [] := ⟨List.not_mem_nil, List.not_mem_nil, rfl, rfl, rfl⟩

/-- The text is whole lines with neither NUL nor single quotes. -/
def IsLines (t : Text) : Prop := ∃ toks, Unquoted t toks

theorem IsLines.unquoted {t : Text} (h : IsLines t) :
    Unquoted t ((BashQuoting.parse t).getD []) := by
  obtain ⟨toks, hquote, hreads⟩ := h
  rw [hreads.parse]
  exact ⟨hquote, hreads⟩

theorem IsLines.append {s t : Text} (hs : IsLines s) (ht : IsLines t) : IsLines (s ++ t) :=
  ⟨_, hs.unquoted.append ht.unquoted⟩

theorem IsLines.ite {t : Text} (b : Bool) (h : IsLines t) : IsLines (if b then t else []) := by
  cases b with
  | true => exact h
  | false => exact ⟨[], Unquoted.nil⟩

def whole (t : Text) : Bool :=
  !t.contains '\'' && (!t.contains '\x00' &&
    (decide (after step (.plain '\n') t = .plain '\n') &&
      decide (after tokenStep none (outputs step (.plain '\n') t) = none)))

theorem IsLines.line {s : String} {t : Text} (hs : s = String.ofList t) (h : whole t = true) :
    IsLines s.toList := by
  simp only [whole, Bool.and_eq_true, Bool.not_eq_true', contains_eq_mem,
    decide_eq_false_iff_not, decide_eq_true_eq] at h
  obtain ⟨hquote, hnul, hmode, hbetween⟩ := h
  rw [hs, String.toList_ofList]
  exact ⟨_, hquote, hnul, hmode, hbetween, rfl⟩

/-- A character of a word that is not quoted. -/
def isWordChar (c : Char) : Bool := !isMeta c && !"'\"\\$#\x60\x00".toList.contains c

theorem plainStep_word {c : Char} (h : isWordChar c = true) (prev : Char) :
    plainStep prev c = ([.bare c], .plain c) := by
  have hne : ∀ d, isWordChar d = false → c ≠ d := fun d hd => char_ne h hd
  rw [plainStep, if_neg (hne _ rfl), if_neg (hne _ rfl), if_neg (hne _ rfl), if_neg (hne _ rfl),
    if_neg fun heq => hne _ rfl heq.1, if_neg]
  rintro (heq | heq)
  · exact hne _ rfl heq
  · exact hne _ rfl heq.1

theorem isPiece_word {c : Char} (h : isWordChar c = true) : (Sym.bare c).isPiece = true := by
  have hne : ∀ d, isWordChar d = false → c ≠ d := fun d hd => char_ne h hd
  have hop : isOp c = false := by
    rw [isOp, contains_eq_any_beq, any_eq_false]
    intro d hd
    have hbad : ∀ d ∈ "|&;<>".toList, isWordChar d = false := forall_of_all (by decide)
    exact fun heq => hne d (hbad d hd) (beq_iff_eq.mp heq)
  rw [Sym.isPiece, isBlank, beq_eq_false_iff_ne.mpr (hne ' ' rfl),
    beq_eq_false_iff_ne.mpr (hne '\t' rfl), beq_eq_false_iff_ne.mpr (hne '\n' rfl), hop]
  rfl

theorem outputs_word {t : Text} (h : ∀ c ∈ t, isWordChar c = true) (prev : Char) :
    outputs step (.plain prev) t = t.map .bare ∧
      after step (.plain prev) t = .plain (t.getLast?.getD prev) := by
  induction t generalizing prev with
  | nil => exact ⟨rfl, rfl⟩
  | cons c t ih =>
    obtain ⟨hc, ht⟩ := forall_mem_cons.mp h
    obtain ⟨hout, hafter⟩ := ih ht c
    have hstep : step (.plain prev) c = ([.bare c], .plain c) := plainStep_word hc prev
    rw [outputs, after, foldl_cons, hstep]
    refine ⟨congrArg (Sym.bare c :: ·) hout, hafter.trans ?_⟩
    rw [getLast?_cons]
    rfl

/-- The tokens of an assignment on a line of its own. -/
def assignment (name : Text) (value : List Sym) : List Token :=
  [.word (name.map .bare ++ .bare '=' :: value), .newline]

theorem Reads.assignment {c prev : Char} {name v : Text} {syms : List Sym}
    (hname : ∀ d ∈ c :: name, isWordChar d = true) (hnul : '\x00' ∉ v)
    (hout : outputs step (.plain '=') v = syms)
    (hmode : after step (.plain '=') v = .plain prev)
    (hsyms : ∀ s ∈ syms, s.isPiece = true) :
    Reads (c :: name ++ ['='] ++ v ++ ['\n'])
      (BashQuoting.assignment (c :: name) (syms.filter (· ≠ .null))) := by
  have hword : ∀ d ∈ c :: name ++ ['='], isWordChar d = true := by
    intro d hd
    rcases mem_append.mp hd with hd | hd
    · exact hname d hd
    · rw [mem_singleton.mp hd]
      rfl
  obtain ⟨hrun, hlast⟩ := outputs_word hword '\n'
  rw [getLast?_append, getLast?_singleton] at hlast
  have hline : outputs step (.plain prev) ['\n'] = [.bare '\n'] := rfl
  have hnext : after step (.plain prev) ['\n'] = .plain '\n' := rfl
  have hafter : after step (.plain '\n') (c :: name ++ ['='] ++ v) = .plain prev := by
    rw [after_append, hlast]
    exact hmode
  have houts : outputs step (.plain '\n') (c :: name ++ ['='] ++ v ++ ['\n']) =
      .bare c :: ((name ++ ['=']).map .bare ++ syms) ++ [.bare '\n'] := by
    rw [outputs_append, hafter, hline, outputs_append, hrun, hlast]
    exact congrArg (fun out => Sym.bare c :: ((name ++ ['=']).map Sym.bare ++ out) ++ _) hout
  have hpieces : ∀ s ∈ (name ++ ['=']).map Sym.bare ++ syms, s.isPiece = true := by
    intro s hs
    rcases mem_append.mp hs with hs | hs
    · obtain ⟨d, hd, rfl⟩ := mem_map.mp hs
      exact isPiece_word (hword d (mem_cons_of_mem c hd))
    · exact hsyms s hs
  have hkept : ((name ++ ['=']).map Sym.bare).filter (· ≠ .null) = (name ++ ['=']).map Sym.bare := by
    rw [filter_eq_self]
    intro s hs
    obtain ⟨d, -, rfl⟩ := mem_map.mp hs
    rfl
  have hfirst : tokenStep none (.bare c) = ([], some (.word [.bare c])) := by
    have hc := isPiece_word (hname c mem_cons_self)
    simp only [Sym.isPiece, Bool.not_eq_true', Bool.or_eq_false_iff, beq_eq_false_iff_ne] at hc
    obtain ⟨⟨hblank, hnl⟩, hop⟩ := hc
    simp only [tokenStep, hblank, if_neg hnl, hop, Bool.false_eq_true, if_false]
    rfl
  obtain ⟨hnone, hcur⟩ := tokens_pieces hpieces [.bare c]
  rw [filter_append, hkept] at hcur
  have hcut : after tokenStep none (.bare c :: ((name ++ ['=']).map Sym.bare ++ syms)) =
      some (.word ((c :: name).map .bare ++ .bare '=' :: syms.filter (· ≠ .null))) := by
    rw [after, foldl_cons, hfirst]
    refine hcur.trans ?_
    rw [map_append, append_assoc]
    rfl
  refine ⟨?_, ?_, ?_, ?_⟩
  · intro hmem
    rcases mem_append.mp hmem with hmem | hmem
    · rcases mem_append.mp hmem with hmem | hmem
      · exact absurd (hword _ hmem) (by decide)
      · exact hnul hmem
    · cases mem_singleton.mp hmem
  · rw [after_append, hafter, hnext]
  · rw [houts, after_append, hcut]
    rfl
  · rw [houts, outputs_append, hcut, outputs, hfirst, hnone]
    rfl

/-- A character of a text in double quotes that means the same without them, if not behind `$`. -/
def isDoubleChar (c : Char) : Bool := !"'\"\\\x60(\x7b\x00".toList.contains c

theorem outputs_double {t : Text} (h : ∀ c ∈ t, isDoubleChar c = true) (prev : Char) :
    outputs step (.double prev) t = t.map .double ∧
      after step (.double prev) t = .double (t.getLast?.getD prev) := by
  induction t generalizing prev with
  | nil => exact ⟨rfl, rfl⟩
  | cons c t ih =>
    obtain ⟨hc, ht⟩ := forall_mem_cons.mp h
    obtain ⟨hout, hafter⟩ := ih ht c
    have hne : ∀ d, isDoubleChar d = false → c ≠ d := fun d hd => char_ne hc hd
    have hstep : step (.double prev) c = ([.double c], .double c) := by
      rw [step, if_neg (hne _ rfl), if_neg (hne _ rfl), if_neg]
      rintro (heq | ⟨-, heq | heq⟩)
      · exact hne _ rfl heq
      · exact hne _ rfl heq
      · exact hne _ rfl heq
    rw [outputs, after, foldl_cons, hstep]
    refine ⟨congrArg (Sym.double c :: ·) hout, hafter.trans ?_⟩
    rw [getLast?_cons]
    rfl

theorem Reads.double {c : Char} {name t : Text} (hname : ∀ d ∈ c :: name, isWordChar d = true)
    (ht : ∀ d ∈ t, isDoubleChar d = true) :
    Reads (c :: name ++ ['='] ++ ('"' :: t ++ ['"']) ++ ['\n'])
      (BashQuoting.assignment (c :: name) (t.map .double)) := by
  obtain ⟨hout, hafter⟩ := outputs_double ht '"'
  have hopen : step (.plain '=') '"' = ([.null], .double '"') := rfl
  have hkept : (.null :: t.map .double : List Sym).filter (· ≠ .null) = t.map .double := by
    rw [filter_cons_of_neg (by decide), filter_eq_self]
    intro s hs
    obtain ⟨d, -, rfl⟩ := mem_map.mp hs
    rfl
  rw [← hkept]
  have hclose : after step (.plain '=') ('"' :: t ++ ['"']) = .plain '"' := by
    rw [cons_append, after, foldl_cons, hopen]
    refine (after_append step _ t ['"']).trans ?_
    rw [hafter]
    rfl
  have hnul : '\x00' ∉ '"' :: t ++ ['"'] := by
    intro hmem
    rcases mem_append.mp hmem with hmem | hmem
    · rcases mem_cons.mp hmem with heq | hmem
      · cases heq
      · exact absurd (ht _ hmem) (by decide)
    · cases mem_singleton.mp hmem
  refine Reads.assignment hname hnul ?_ hclose ?_
  · rw [cons_append, outputs, hopen, outputs_append, hout, hafter]
    exact congrArg (Sym.null :: ·) (append_nil _)
  · intro s hs
    rcases mem_cons.mp hs with rfl | hs
    · rfl
    · obtain ⟨d, -, rfl⟩ := mem_map.mp hs
      rfl

end BashQuoting
