import MiqroForge.Guard.Tokens
import MiqroForge.Library.ShellWords

/-!
`_tokenize` on a shell command line: a word without a line continuation becomes one token with
the text that the shell gives it, and `strip` takes no more than a trailing escaped blank from it.
-/

namespace MiqroForge.Guard

open PyText ShellWords List

/-! ## What a text is read as -/

/-- Whatever follows, the tokenizer passes `t` with the given tokens and states. -/
def Reads (m : QuoteMode) (w : WordBuf) (t : Text) (toks : List Token) (m' : QuoteMode)
    (w' : WordBuf) : Prop :=
  ∀ rest, tokenizeFrom m w (t ++ rest) = toks ++ tokenizeFrom m' w' rest

theorem Reads.nil (m : QuoteMode) (w : WordBuf) : Reads m w [] [] m w := fun _ => rfl

theorem Reads.append {m m' m'' : QuoteMode} {w w' w'' : WordBuf} {s t : Text}
    {toks toks' : List Token} (h : Reads m w s toks m' w') (h' : Reads m' w' t toks' m'' w'') :
    Reads m w (s ++ t) (toks ++ toks') m'' w'' := by
  intro rest
  rw [append_assoc, h, h', append_assoc]

def readItem (w : WordBuf) : DqItem → WordBuf
  | .plain c _ => w.append c true false
  | .escaped c _ => w.append c true true
  | .backslash c _ => (w.append '\\' true false).append c true false

/-- What a piece adds to the word under construction. -/
def readPiece (w : WordBuf) : Piece → WordBuf
  | .plain c _ => w.append c false false
  | .escaped c => w.append c false true
  | .single s _ => s.foldl (fun w c => w.append c true false) { w with sawQuote := true }
  | .double items => items.foldl readItem { w with sawQuote := true }

/-- A piece that is no white space to the tokenizer. -/
def staysWhole : Piece → Bool
  | .plain c _ => !isSpace c
  | _ => true

variable (w : WordBuf)

theorem tokenize_double_char {c : Char} (rest : Text) (hback : c ≠ '\\')
    (hquote : c ≠ '\x22') :
    tokenizeFrom .double w (c :: rest) = tokenizeFrom .double (w.append c true false) rest := by
  rw [tokenizeFrom, if_neg hquote]
  exact fun _ _ h => absurd h hback

theorem tokenize_bare_unquoted {c : Char} (rest : Text) (hback : c ≠ '\\')
    (hsingle : c ≠ '\x27') (hdouble : c ≠ '\x22') :
    tokenizeFrom .bare w (c :: rest) =
      if isSpace c then w.flush ++ tokenizeFrom .bare {} rest
      else tokenizeFrom .bare (w.append c false false) rest := by
  rw [tokenizeFrom, if_neg hsingle, if_neg hdouble, if_neg hback]
  exact fun _ _ h => absurd h hback

theorem tokenize_bare_char {c : Char} (rest : Text) (hback : c ≠ '\\')
    (hsingle : c ≠ '\x27') (hdouble : c ≠ '\x22') (hspace : isSpace c = false) :
    tokenizeFrom .bare w (c :: rest) = tokenizeFrom .bare (w.append c false false) rest := by
  rw [tokenize_bare_unquoted w rest hback hsingle hdouble, hspace]
  rfl

theorem tokenize_bare_space {c : Char} (rest : Text) (hspace : isSpace c = true) :
    tokenizeFrom .bare w (c :: rest) = w.flush ++ tokenizeFrom .bare {} rest := by
  have hne : c ≠ '\\' ∧ c ≠ '\x27' ∧ c ≠ '\x22' :=
    ⟨char_ne hspace rfl, char_ne hspace rfl, char_ne hspace rfl⟩
  rw [tokenize_bare_unquoted w rest hne.1 hne.2.1 hne.2.2, if_pos hspace]

theorem reads_space {c : Char} (hspace : isSpace c = true) :
    Reads .bare w [c] w.flush .bare {} := fun rest => tokenize_bare_space w rest hspace

theorem reads_single (s : Text) (hs : '\x27' ∉ s) :
    Reads .single w s [] .single (s.foldl (fun w c => w.append c true false) w) := by
  induction s generalizing w with
  | nil => exact Reads.nil _ _
  | cons c s ih =>
    obtain ⟨hc, hs⟩ := ne_and_not_mem_of_not_mem_cons hs
    intro rest
    rw [cons_append, tokenizeFrom_single_cons, if_neg (Ne.symm hc)]
    exact ih _ hs rest

theorem reads_item (item : DqItem) :
    Reads .double w item.render [] .double (readItem w item) := by
  intro rest
  cases item with
  | plain c hc => exact tokenize_double_char w rest (char_ne hc rfl) (char_ne hc rfl)
  | escaped c hc =>
    have hesc : isDqEscaped c = true := by
      simpa [isDqEscapable, isDqEscaped, or_assoc] using hc
    simp [DqItem.render, tokenizeFrom_double_escape, hesc, readItem]
  | backslash c hc =>
    have hesc : isDqEscaped c = false := by
      simpa [isDqEscapable, isDqEscaped, and_assoc] using hc
    have hback : c ≠ '\\' := (char_ne (p := isDqEscapable) rfl hc).symm
    have hquote : c ≠ '\x22' := (char_ne (p := isDqEscapable) rfl hc).symm
    simp [DqItem.render, tokenizeFrom_double_escape, hesc, tokenize_double_char _ _ hback hquote,
      readItem]

theorem reads_items (items : List DqItem) :
    Reads .double w (items.flatMap DqItem.render) [] .double (items.foldl readItem w) := by
  induction items generalizing w with
  | nil => exact Reads.nil _ _
  | cons item items ih => exact (reads_item w item).append (ih _)

variable {p : Piece}

theorem reads_piece (hp : staysWhole p = true) :
    Reads .bare w p.render [] .bare (readPiece w p) := by
  intro rest
  cases p with
  | plain c hc =>
    have hspace : isSpace c = false := by simpa [staysWhole] using hp
    exact tokenize_bare_char w rest (char_ne hc rfl) (char_ne hc rfl) (char_ne hc rfl) hspace
  | escaped c => exact tokenizeFrom_bare_escape w c rest
  | single s hs =>
    have hopen : tokenizeFrom .bare w ('\x27' :: (s ++ '\x27' :: rest)) =
        tokenizeFrom .single { w with sawQuote := true } (s ++ '\x27' :: rest) :=
      tokenizeFrom_bare_single w _
    have htext : (Piece.single s hs).render ++ rest = '\x27' :: (s ++ '\x27' :: rest) := by
      simp [Piece.render]
    rw [htext, hopen, reads_single _ s hs, nil_append, tokenizeFrom_single_cons, if_pos rfl]
    rfl
  | double items =>
    have hopen : tokenizeFrom .bare w ('\x22' :: (items.flatMap DqItem.render ++ '\x22' :: rest)) =
        tokenizeFrom .double { w with sawQuote := true }
          (items.flatMap DqItem.render ++ '\x22' :: rest) := tokenizeFrom_bare_double w _
    have htext : (Piece.double items).render ++ rest =
        '\x22' :: (items.flatMap DqItem.render ++ '\x22' :: rest) := by
      simp [Piece.render]
    rw [htext, hopen, reads_items, nil_append, tokenizeFrom_double_close]
    rfl

variable {ps : List Piece}

theorem reads_pieces (hps : ∀ p ∈ ps, staysWhole p = true) :
    Reads .bare w (render (ps.map .piece)) [] .bare (ps.foldl readPiece w) := by
  induction ps generalizing w with
  | nil => exact Reads.nil _ _
  | cons p ps ih =>
    have hrest := ih (readPiece w p) fun q hq => hps q (mem_cons_of_mem p hq)
    exact (reads_piece w (hps p mem_cons_self)).append hrest

theorem reads_atoms (as : List Atom) :
    ∃ toks w', Reads .bare w (render as) toks .bare w' := by
  induction as generalizing w with
  | nil => exact ⟨[], w, Reads.nil _ _⟩
  | cons a as ih =>
    have hatom : ∃ toks w', Reads .bare w a.render toks .bare w' := by
      cases a with
      | piece p =>
        cases hp : staysWhole p with
        | true => exact ⟨[], _, reads_piece w hp⟩
        | false =>
          cases p with
          | plain c hc => exact ⟨w.flush, {}, reads_space w (by simpa [staysWhole] using hp)⟩
          | escaped c => cases hp
          | single s hs => cases hp
          | double items => cases hp
      | blank b => exact ⟨w.flush, {}, reads_space w (by cases b <;> rfl)⟩
      | op o =>
        have hchar : ∀ (w : WordBuf) (c : Char), c = ';' ∨ c = '&' ∨ c = '|' →
            Reads .bare w [c] [] .bare (w.append c false false) := by
          rintro w c (rfl | rfl | rfl) rest <;>
            exact tokenize_bare_char w rest (by decide) (by decide) (by decide) (by decide)
        cases o with
        | newline => exact ⟨w.flush, {}, reads_space w rfl⟩
        | semi => exact ⟨[], _, hchar w ';' (by simp)⟩
        | amp => exact ⟨[], _, hchar w '&' (by simp)⟩
        | pipe => exact ⟨[], _, hchar w '|' (by simp)⟩
        | and => exact ⟨[], _, (hchar w '&' (by simp)).append (hchar _ '&' (by simp))⟩
        | or => exact ⟨[], _, (hchar w '|' (by simp)).append (hchar _ '|' (by simp))⟩
    obtain ⟨toks, w', h⟩ := hatom
    obtain ⟨toks', w'', h'⟩ := ih w'
    exact ⟨toks ++ toks', w'', h.append h'⟩

/-! ## Words -/

/-- The tokenizer keeps the newline of a line continuation. -/
def continuesLine : Piece → Bool
  | .escaped c => c == '\n'
  | .double items => items.any fun item => item.render == ['\\', '\n']
  | _ => false

/-- The tokenizer gives the piece the text that the shell gives it. -/
def readsAsShell (p : Piece) : Bool := staysWhole p && !continuesLine p

theorem readsAsShell_iff (p : Piece) :
    readsAsShell p = true ↔ staysWhole p = true ∧ continuesLine p = false := by
  simp [readsAsShell]

def isQuoted : Piece → Bool
  | .single _ _ => true
  | .double _ => true
  | _ => false

/-- The word of the pieces. -/
def wordBuf (ps : List Piece) : WordBuf := ps.foldl readPiece {}

theorem foldl_single_buf (s : Text) :
    (s.foldl (fun w c => w.append c true false) w).buf = w.buf ++ s ∧
      (s.foldl (fun w c => w.append c true false) w).sawQuote = w.sawQuote := by
  induction s generalizing w with
  | nil => simp
  | cons c s ih =>
    obtain ⟨hbuf, hsaw⟩ := ih (w.append c true false)
    exact ⟨by rw [foldl_cons, hbuf]; simp [WordBuf.append], hsaw⟩

theorem foldl_items_buf {items : List DqItem}
    (h : items.any (fun item => item.render == ['\\', '\n']) = false) :
    (items.foldl readItem w).buf = w.buf ++ items.flatMap DqItem.text := by
  induction items generalizing w with
  | nil => simp
  | cons item items ih =>
    simp only [any_cons, Bool.or_eq_false_iff] at h
    have hitem : (readItem w item).buf = w.buf ++ item.text := by
      cases item with
      | plain c hc => rfl
      | escaped c hc =>
        have hc : c ≠ '\n' := by simpa [DqItem.render] using h.1
        simp [readItem, WordBuf.append, DqItem.text, hc]
      | backslash c hc => simp [readItem, WordBuf.append, DqItem.text]
    rw [foldl_cons, ih _ h.2, hitem]
    simp

theorem foldl_items_sawQuote (items : List DqItem) :
    (items.foldl readItem w).sawQuote = w.sawQuote := by
  induction items generalizing w with
  | nil => rfl
  | cons item items ih =>
    rw [foldl_cons, ih]
    cases item <;> rfl

theorem readPiece_buf (hp : continuesLine p = false) :
    (readPiece w p).buf = w.buf ++ p.text := by
  cases p with
  | plain c hc => rfl
  | escaped c =>
    have hc : c ≠ '\n' := by simpa [continuesLine] using hp
    simp [readPiece, WordBuf.append, Piece.text, hc]
  | single s hs => exact (foldl_single_buf _ s).1
  | double items => exact foldl_items_buf _ hp

theorem readPiece_sawQuote (p : Piece) :
    (readPiece w p).sawQuote = (w.sawQuote || isQuoted p) := by
  cases p with
  | plain c hc => simp [readPiece, WordBuf.append, isQuoted]
  | escaped c => simp [readPiece, WordBuf.append, isQuoted]
  | single s hs => simp [readPiece, isQuoted, foldl_single_buf]
  | double items => simp [readPiece, isQuoted, foldl_items_sawQuote]

theorem readPiece_nQuoted (hp : isQuoted p = false) :
    (readPiece w p).nQuoted = w.nQuoted := by
  cases p with
  | plain c hc => rfl
  | escaped c => rfl
  | single s hs => cases hp
  | double items => cases hp

theorem foldl_readPiece (hps : ∀ p ∈ ps, continuesLine p = false) :
    (ps.foldl readPiece w).buf = w.buf ++ ps.flatMap Piece.text ∧
      (ps.foldl readPiece w).sawQuote = (w.sawQuote || ps.any isQuoted) := by
  induction ps generalizing w with
  | nil => simp
  | cons p ps ih =>
    obtain ⟨hbuf, hsaw⟩ := ih (readPiece w p) fun q hq => hps q (mem_cons_of_mem p hq)
    constructor
    · rw [foldl_cons, hbuf, readPiece_buf w (hps p mem_cons_self)]
      simp
    · rw [foldl_cons, hsaw, readPiece_sawQuote]
      simp [Bool.or_assoc]

theorem foldl_nQuoted (hps : ps.any isQuoted = false) :
    (ps.foldl readPiece w).nQuoted = w.nQuoted := by
  induction ps generalizing w with
  | nil => rfl
  | cons p ps ih =>
    simp only [any_cons, Bool.or_eq_false_iff] at hps
    rw [foldl_cons, ih _ hps.2, readPiece_nQuoted w hps.1]

theorem text_or_quoted (hp : continuesLine p = false) :
    p.text ≠ [] ∨ isQuoted p = true := by
  cases p with
  | plain c hc => exact Or.inl (cons_ne_nil _ _)
  | escaped c =>
    have hc : c ≠ '\n' := by simpa [continuesLine] using hp
    exact Or.inl (by simp [Piece.text, hc])
  | single s hs => exact Or.inr rfl
  | double items => exact Or.inr rfl

theorem flush_wordBuf (hne : ps ≠ [])
    (hps : ∀ p ∈ ps, continuesLine p = false) :
    ∃ tok : Token, (wordBuf ps).flush = [tok] ∧ tok.text = ps.flatMap Piece.text ∧
      (ps.any isQuoted = false → tok.quoted = false) := by
  obtain ⟨hbuf, hsaw⟩ := foldl_readPiece {} hps
  have hseen : (wordBuf ps).buf ≠ [] ∨ (wordBuf ps).sawQuote = true := by
    obtain ⟨p, ps', rfl⟩ := exists_cons_of_ne_nil hne
    rcases text_or_quoted (hps p mem_cons_self) with h | h
    · left
      intro hnil
      rw [wordBuf, hbuf] at hnil
      simp [h] at hnil
    · right
      rw [wordBuf, hsaw]
      simp [h]
  refine ⟨_, if_pos hseen, hbuf, fun hq => ?_⟩
  have hcount : (wordBuf ps).nQuoted = 0 := foldl_nQuoted {} hq
  have hmark : (wordBuf ps).sawQuote = false := hsaw.trans (by simp [hq])
  simp [hcount, hmark]

/-! ## The last word of a part -/

/-- `strip` takes the end of the piece for white space. -/
def lostAtEnd : Piece → Bool
  | .escaped c => isSpace c
  | _ => false

/-- The pieces of a word that the tokenizer sees, where nothing but white space may follow the
word in its part. -/
def seen (exposed : Bool) (w : Word) : List Piece :=
  if exposed && lostAtEnd (w.pieces.getLast w.nonempty) then w.pieces.dropLast else w.pieces

theorem tokenize_strip (t : Text) : tokenize (strip t) = tokenize (rstripBy isSpace t) := by
  induction t with
  | nil => rfl
  | cons c t ih =>
    cases hc : isSpace c with
    | false =>
      unfold strip stripBy lstripBy
      rw [dropWhile_cons_of_neg (by simp [hc])]
    | true =>
      have hstrip : strip (c :: t) = strip t := by
        unfold strip stripBy lstripBy
        rw [dropWhile_cons_of_pos hc]
      have hlast : rstripBy isSpace [c] = [] := rstripBy_spaces (by simpa using hc)
      have happend := rstripBy_append isSpace [c] t
      rw [singleton_append] at happend
      rw [hstrip, ih, happend]
      split
      case isTrue ht => rw [ht, hlast]
      case isFalse => exact (tokenize_bare_space {} _ hc).symm

theorem lostAtEnd_cases (h : lostAtEnd p = true) :
    ∃ c, p = .escaped c ∧ isSpace c = true := by
  cases p with
  | escaped c => exact ⟨c, rfl, h⟩
  | plain c hc => cases h
  | single s hs => cases h
  | double items => cases h

theorem render_last (hwhole : staysWhole p = true) (hlost : lostAtEnd p = false) :
    ∃ t c, p.render = t ++ [c] ∧ isSpace c = false := by
  cases p with
  | plain c hc => exact ⟨[], c, rfl, by simpa [staysWhole] using hwhole⟩
  | escaped c => exact ⟨['\\'], c, rfl, hlost⟩
  | single s hs => exact ⟨'\x27' :: s, '\x27', rfl, rfl⟩
  | double items => exact ⟨'\x22' :: items.flatMap DqItem.render, '\x22', rfl, rfl⟩

theorem tokenize_exposed {front : Text} {toks : List Token} (w : Word) {sp : Text}
    (hfront : Reads .bare {} front toks .bare {})
    (hw : ∀ p ∈ w.pieces, staysWhole p = true) (hsp : ∀ c ∈ sp, isSpace c = true) :
    tokenize (strip (front ++ render w.atoms ++ sp)) =
      toks ++ (wordBuf (seen true w)).flush := by
  have hread : ∀ {ps : List Piece}, (∀ p ∈ ps, staysWhole p = true) →
      Reads .bare {} (front ++ render (ps.map .piece)) (toks ++ []) .bare (wordBuf ps) :=
    fun h => hfront.append (reads_pieces {} h)
  rw [tokenize_strip, rstripBy_append, if_pos (rstripBy_spaces hsp)]
  cases hlost : lostAtEnd (w.pieces.getLast w.nonempty) with
  | true =>
    have hinit : ∀ p ∈ w.pieces.dropLast, staysWhole p = true :=
      fun p hp => hw p (dropLast_subset _ hp)
    obtain ⟨c, hc, hspace⟩ := lostAtEnd_cases hlost
    have htext : front ++ render w.atoms =
        (front ++ render (w.pieces.dropLast.map .piece) ++ ['\\']) ++ [c] := by
      rw [Word.render_atoms, hc]
      simp [Piece.render]
    have hlast : rstripBy isSpace [c] = [] := rstripBy_spaces (by simpa using hspace)
    have hseen : seen true w = w.pieces.dropLast := by simp [seen, hlost]
    -- the backslash stays behind and is dropped as a dangling escape
    rw [htext, rstripBy_append, if_pos hlast, rstripBy_concat_not rfl, hseen]
    have h := hread hinit ['\\']
    rw [tokenize, h, append_nil]
    congr 1
  | false =>
    obtain ⟨t, c, hc, hspace⟩ := render_last (hw _ (getLast_mem w.nonempty)) hlost
    have htext : front ++ render w.atoms =
        (front ++ render (w.pieces.dropLast.map .piece) ++ t) ++ [c] := by
      rw [Word.render_atoms, hc]
      simp
    have hseen : seen true w = w.pieces := by simp [seen, hlost]
    have h := hread hw []
    rw [htext, rstripBy_concat_not hspace, ← htext, hseen]
    rw [append_nil, append_nil] at h
    exact h

theorem tokenize_followed {front : Text} {toks : List Token} (w : Word) {c d : Char} {sp t : Text}
    (hfront : Reads .bare {} front toks .bare {})
    (hw : ∀ p ∈ w.pieces, staysWhole p = true) (hc : isSpace c = true) (hd : isSpace d = false) :
    ∃ more, tokenize (strip (front ++ render w.atoms ++ (c :: sp) ++ (d :: t))) =
      toks ++ (wordBuf (seen false w)).flush ++ more := by
  have hrest : rstripBy isSpace (d :: t) ≠ [] := by
    rw [rstripBy_cons_not hd]
    exact cons_ne_nil _ _
  have hread : Reads .bare {} (front ++ render w.atoms ++ [c])
      (toks ++ [] ++ (wordBuf w.pieces).flush) .bare {} :=
    (hfront.append (reads_pieces {} hw)).append (reads_space _ hc)
  refine ⟨tokenizeFrom .bare {} (sp ++ rstripBy isSpace (d :: t)), ?_⟩
  rw [tokenize_strip, rstripBy_append, if_neg hrest]
  have h := hread (sp ++ rstripBy isSpace (d :: t))
  simpa [tokenize, seen] using h

theorem seen_subset (exposed : Bool) (w : Word) : seen exposed w ⊆ w.pieces := by
  unfold seen
  split
  · exact dropLast_subset _
  · exact List.Subset.refl _

theorem text_seen (exposed : Bool) (w : Word) (hw : ∀ p ∈ w.pieces, continuesLine p = false) :
    w.text = (seen exposed w).flatMap Piece.text ∨
      ∃ c, isSpace c = true ∧ w.text = (seen exposed w).flatMap Piece.text ++ [c] := by
  unfold seen
  split
  case isFalse => exact Or.inl rfl
  case isTrue h =>
    rw [Bool.and_eq_true] at h
    obtain ⟨c, hc, hspace⟩ := lostAtEnd_cases h.2
    have hlast := hw _ (getLast_mem w.nonempty)
    rw [hc] at hlast
    have hnl : c ≠ '\n' := by simpa [continuesLine] using hlast
    refine Or.inr ⟨c, hspace, ?_⟩
    calc w.text
        = (w.pieces.dropLast ++ [w.pieces.getLast w.nonempty]).flatMap Piece.text := by
          rw [dropLast_append_getLast]
          rfl
      _ = _ := by
          rw [hc]
          simp [Piece.text, hnl]

end MiqroForge.Guard
