import MiqroForge.Guard.Splitting
import MiqroForge.Guard.Tokenizing
import MiqroForge.Library.ShellLines

/-!
The splitter and the tokenizer on command lines with groups and redirections: where the last cut
lies behind a part of the line, and which tokens the text since then makes.
-/

namespace MiqroForge.Guard

open PyText ShellWords List

/-! ## Where the splitter cuts -/

/-- The marks since the last cut of the splitter, and the groups that are open behind them. -/
structure Part where
  depth : Nat := 0
  marks : List Mark := []

/-- The splitter cuts at the mark outside groups: an operator, or the ampersand in `<&`. -/
def markCuts : Mark → Bool
  | .atom a => atomCuts a
  | .redirect r => r == .dupInput
  | _ => false

def depthBehind (depth : Nat) : Mark → Nat
  | .opening => depth + 1
  | .closing => depth - 1
  | _ => depth

def Part.pass (p : Part) (m : Mark) : Part :=
  if p.depth = 0 ∧ markCuts m = true then {}
  else { depth := depthBehind p.depth m, marks := p.marks ++ [m] }

/-- The part behind the marks. -/
def partOf (p : Part) (ms : List Mark) : Part := ms.foldl Part.pass p

/-- In a group the splitter reads the piece as the shell does. -/
def staysInGroup (rest : Text) : Piece → Bool
  | .plain _ _ => true
  | .escaped c =>
    !("\x27\x22\x60()".toList.contains c) && !(c == '<' && rest.head? == some '<')
  | .single _ _ => true
  | .double items => !(items.flatMap DqItem.render).contains '\x22'

/-- The splitter reads the mark as the shell does, `rest` being the text behind it. -/
def markSafe (depth : Nat) (rest : Text) : Mark → Bool
  | .atom (.piece p) =>
    if depth = 0 then
      splitsAsShell rest p && !(p.render == ['\\', '<'] && rest.head? == some '<')
    else staysInGroup rest p
  | _ => true

/-- No mark misleads the splitter, `back` being the marks behind. -/
def lineSafe (back : List Mark) : Part → List Mark → Bool
  | _, [] => true
  | p, m :: ms => markSafe p.depth (renderMarks (ms ++ back)) m && lineSafe back (p.pass m) ms

theorem partOf_append (p : Part) (ms ns : List Mark) :
    partOf p (ms ++ ns) = partOf (partOf p ms) ns := List.foldl_append

theorem Part.pass_kept {p : Part} {m : Mark} (hm : markCuts m = false) :
    p.pass m = { depth := depthBehind p.depth m, marks := p.marks ++ [m] } :=
  if_neg (by simp [hm])

/-- A mark that neither ends a part nor a group, whatever the depth. -/
def Mark.stays : Mark → Bool
  | .atom (.piece _) => true
  | .atom (.blank _) => true
  | .redirect r => r != .dupInput
  | _ => false

theorem partOf_stays (p : Part) {ms : List Mark} (hms : ∀ m ∈ ms, Mark.stays m = true) :
    partOf p ms = { p with marks := p.marks ++ ms } := by
  induction ms generalizing p with
  | nil => simp [partOf]
  | cons m ms ih =>
    have hpass : p.pass m = { p with marks := p.marks ++ [m] } := by
      have hm := hms m mem_cons_self
      cases m with
      | atom a =>
        cases a with
        | piece q => exact Part.pass_kept rfl
        | blank b => exact Part.pass_kept rfl
        | op o => cases hm
      | redirect r => exact Part.pass_kept (by simpa [markCuts, Mark.stays] using hm)
      | opening => cases hm
      | closing => cases hm
    have hcons : partOf p (m :: ms) = partOf (p.pass m) ms := rfl
    rw [hcons, hpass, ih _ fun n hn => hms n (mem_cons_of_mem m hn)]
    simp

theorem word_stays (w : Word) : ∀ m ∈ w.marks, Mark.stays m = true := by
  intro m hm
  obtain ⟨a, ha, rfl⟩ := mem_map.mp hm
  obtain ⟨q, -, rfl⟩ := mem_map.mp ha
  rfl

/-! ## Steps of the splitter -/

/-- Outside quotes and heredocs, in `depth` groups. -/
structure SplitState.Quiet (st : SplitState) (depth : Nat) : Prop where
  quote : st.quote = none
  paren : st.paren = depth
  backtick : st.backtick = false
  skip : st.skip = 0
  half : st.half = false

/-- The splitter does not act on the character, `prev` standing in front of it. -/
def charPasses (depth : Nat) (prev : Option Char) (c : Char) (rest : Text) : Bool :=
  !("\x27\x22\x60()".toList.contains c) && !(c == '<' && rest.head? == some '<') &&
    (depth != 0 || (c != ';' && !(c == '|' && rest.head? == some '|') &&
      !(c == '&' && (rest.head? == some '&' || !(rest.head? == some '>' || prev == some '>')))))

def textPasses (depth : Nat) (prev : Option Char) : Text → Text → Bool
  | [], _ => true
  | c :: t, rest => charPasses depth prev c (t ++ rest) && textPasses depth (some c) t rest

theorem SplitState.Quiet.pass {st : SplitState} {d : Nat} (hst : st.Quiet d) (t : Text) :
    (st.pass t).Quiet d := ⟨hst.quote, hst.paren, hst.backtick, hst.skip, hst.half⟩

section Split
variable (env : GuardEnv)

variable {st : SplitState}

theorem split_char {d : Nat} {c : Char} {rest : Text} (hst : st.Quiet d)
    (hc : charPasses d st.prev c rest = true) :
    splitFrom env st (c :: rest) = splitFrom env (st.pass [c]) rest := by
  simp only [charPasses, Bool.and_eq_true, Bool.not_eq_true', Bool.and_eq_false_iff,
    Bool.or_eq_true, Bool.or_eq_false_iff, Bool.not_eq_false', bne_iff_ne, beq_eq_false_iff_ne,
    beq_iff_eq] at hc
  obtain ⟨⟨hquotes, hlt⟩, hcut⟩ := hc
  have hne : c ≠ '\x27' ∧ c ≠ '\x22' ∧ c ≠ '\x60' ∧ c ≠ '(' ∧ c ≠ ')' := by
    simpa [contains_iff_mem] using hquotes
  obtain ⟨hsingle, hdouble, htick, hopen, hclose⟩ := hne
  have hheredoc : ¬(c = '<' ∧ rest.head? = some '<') := fun h => hlt.elim (· h.1) (· h.2)
  rw [← st.push_eq, splitFrom]
  by_cases hd : d = 0
  · subst hd
    obtain ⟨⟨hsemi, hbar⟩, hamp⟩ := hcut.resolve_left fun h => h rfl
    have hjoined : ¬((c = '&' ∨ c = '|') ∧ rest.head? = some c) := by
      rintro ⟨rfl | rfl, hnext⟩
      · exact hamp.elim (fun h => h rfl) fun h => h.1 hnext
      · exact hbar.elim (fun h => h rfl) fun h => h hnext
    have hlone : ¬(c = '&' ∧ ¬(rest.head? = some '>' ∨ st.prev = some '>')) := by
      rintro ⟨rfl, hredirect⟩
      exact hamp.elim (fun h => h rfl) fun h => hredirect h.2
    simp only [hst.half, hst.skip, hst.quote, hst.backtick, hst.paren, hsingle, hdouble, htick,
      hopen, hclose, hsemi, hheredoc, hjoined, hlone, Option.isSome_none, Nat.lt_irrefl,
      Bool.false_eq_true, or_self, false_and, gt_iff_lt, if_false]
  · have hparen : 0 < d := Nat.pos_of_ne_zero hd
    simp only [hst.half, hst.skip, hst.quote, hst.backtick, hst.paren, hsingle, hdouble, htick,
      hopen, hclose, hheredoc, hparen, Option.isSome_none, Nat.lt_irrefl,
      Bool.false_eq_true, or_self, false_and, gt_iff_lt, if_false, if_true]

theorem split_text {d : Nat} {t rest : Text} (hst : st.Quiet d)
    (ht : textPasses d st.prev t rest = true) :
    splitFrom env st (t ++ rest) = splitFrom env (st.pass t) rest := by
  induction t generalizing st with
  | nil => simp
  | cons c t ih =>
    rw [textPasses, Bool.and_eq_true] at ht
    have hstep := split_char env hst ht.1
    have hrun := ih (hst.pass [c]) ht.2
    rw [SplitState.pass_pass] at hrun
    exact hstep.trans hrun

theorem split_piece_inside {d : Nat} {p : Piece} {rest : Text}
    (hst : st.Quiet (d + 1)) (hp : staysInGroup rest p = true) :
    splitFrom env st (p.render ++ rest) = splitFrom env (st.pass p.render) rest := by
  cases p with
  | plain c hc =>
    apply split_text env hst
    have hlt : c ≠ '<' := char_ne hc rfl
    have hquotes : c ∉ "\x27\x22\x60()".toList := by
      intro h
      have hcases : c = '\x27' ∨ c = '\x22' ∨ c = '\x60' ∨ c = '(' ∨ c = ')' := by simpa using h
      rcases hcases with h | h | h | h | h <;> exact char_ne hc rfl h
    simpa [Piece.render, textPasses, charPasses, hlt] using hquotes
  | escaped c =>
    apply split_text env hst
    simpa [Piece.render, textPasses, charPasses, staysInGroup] using hp
  | single s hs => exact split_quotes_kept env hst.half hst.skip hst.quote (Or.inl rfl) hs
  | double items =>
    have hs : '\x22' ∉ items.flatMap DqItem.render := by simpa [staysInGroup] using hp
    exact split_quotes_kept env hst.half hst.skip hst.quote (Or.inr rfl) hs

/-! ## Marks -/

/-- Where the splitter stands behind marks that did not mislead it. -/
structure SplitState.At (st : SplitState) (p : Part) (rest : Text) : Prop where
  quiet : st.Quiet p.depth
  cur : st.cur = renderMarks p.marks
  redirect : p.depth = 0 → st.prev = some '>' → loneAmp rest = false

variable {p : Part}

theorem SplitState.At.bare {rest : Text} (h : st.At p rest)
    (hd : p.depth = 0) : st.Bare rest :=
  ⟨h.quiet.quote, h.quiet.paren.trans hd, h.quiet.backtick, h.quiet.skip, h.quiet.half,
    h.redirect hd⟩

theorem loneAmp_head {rest : Text} (h : rest.head? ≠ some '&') : loneAmp rest = false := by
  cases rest with
  | nil => rfl
  | cons c rest =>
    rw [loneAmp]
    rintro rest' h'
    cases h'
    exact absurd rfl h

theorem passed {m : Mark} {rest : Text}
    (hat : st.At p (m.render ++ rest)) (hcut : p.depth = 0 → markCuts m = false)
    (hdepth : depthBehind p.depth m = p.depth)
    (hrun : splitFrom env st (m.render ++ rest) = splitFrom env (st.pass m.render) rest)
    (hredirect : p.depth = 0 → (st.pass m.render).prev = some '>' → loneAmp rest = false) :
    ∃ st' parts, splitFrom env st (m.render ++ rest) = parts ++ splitFrom env st' rest ∧
      st'.At (p.pass m) rest := by
  have hpass : p.pass m = { p with marks := p.marks ++ [m] } := by
    rw [Part.pass, if_neg fun h => by simp [hcut h.1] at h, hdepth]
  refine ⟨st.pass m.render, [], hrun, ?_⟩
  rw [hpass]
  exact ⟨hat.quiet.pass _, by simp [SplitState.pass, hat.cur], hredirect⟩

theorem cut_at {m : Mark} {c : Char} {rest : Text}
    (hquiet : st.Quiet p.depth) (hd : p.depth = 0) (hm : markCuts m = true) (hc : c ≠ '>') :
    (st.cut c false).At (p.pass m) rest := by
  have hpass : p.pass m = {} := if_pos ⟨hd, hm⟩
  rw [hpass]
  rw [hd] at hquiet
  exact ⟨⟨hquiet.quote, hquiet.paren, hquiet.backtick, hquiet.skip, rfl⟩, rfl,
    fun _ h => absurd (Option.some.inj h) hc⟩

theorem split_op {o : Op} {ms : List Mark}
    (hat : st.At p (renderMarks (.atom (.op o) :: ms))) (hapart : Apart (.atom (.op o) :: ms)) :
    ∃ st' parts, splitFrom env st (renderMarks (.atom (.op o) :: ms)) =
        parts ++ splitFrom env st' (renderMarks ms) ∧
      st'.At (p.pass (.atom (.op o))) (renderMarks ms) := by
  rw [renderMarks_cons] at hat ⊢
  by_cases hcut : p.depth = 0 ∧ opCuts o = true
  · obtain ⟨c, hc, hrun⟩ := split_cut env (hat.bare hcut.1) hcut.2
      (by rintro rfl; exact hapart.behind_amp)
    exact ⟨st.cut c false, [st.cur], hrun, cut_at hat.quiet hcut.1 hcut.2 hc⟩
  · have hpasses : textPasses p.depth st.prev o.render (renderMarks ms) = true := by
      cases o with
      | newline => simp [Op.render, textPasses, charPasses]
      | pipe =>
        have hbar := hapart.behind_pipe
        simp [Op.render, textPasses, charPasses, hbar]
      | semi =>
        have hd : p.depth ≠ 0 := fun h => hcut ⟨h, rfl⟩
        simp [Op.render, textPasses, charPasses, hd]
      | and =>
        have hd : p.depth ≠ 0 := fun h => hcut ⟨h, rfl⟩
        simp [Op.render, textPasses, charPasses, hd]
      | or =>
        have hd : p.depth ≠ 0 := fun h => hcut ⟨h, rfl⟩
        simp [Op.render, textPasses, charPasses, hd]
      | amp =>
        have hd : p.depth ≠ 0 := fun h => hcut ⟨h, rfl⟩
        simp [Op.render, textPasses, charPasses, hd]
    refine passed env hat (fun hd => ?_) rfl (split_text env hat.quiet hpasses) fun _ h => ?_
    · exact Bool.eq_false_iff.mpr fun ho => hcut ⟨hd, ho⟩
    · cases o <;> simp [SplitState.pass, Mark.render, Atom.render, Op.render] at h

theorem split_redirect {r : Redirect} {ms : List Mark}
    (hat : st.At p (renderMarks (.redirect r :: ms))) (hapart : Apart (.redirect r :: ms)) :
    ∃ st' parts, splitFrom env st (renderMarks (.redirect r :: ms)) =
        parts ++ splitFrom env st' (renderMarks ms) ∧
      st'.At (p.pass (.redirect r)) (renderMarks ms) := by
  have hamp : (renderMarks ms).head? ≠ some '&' := hapart.behind_redirect (by decide)
  have hbar : (renderMarks ms).head? ≠ some '|' := hapart.behind_redirect (by decide)
  have hlt : (renderMarks ms).head? ≠ some '<' := hapart.behind_redirect (by decide)
  rw [renderMarks_cons] at hat ⊢
  by_cases hcut : p.depth = 0 ∧ r = .dupInput
  · obtain ⟨hd, rfl⟩ := hcut
    have hquiet := hat.quiet
    rw [hd] at hquiet
    have hless : splitFrom env st ('<' :: '&' :: renderMarks ms) =
        splitFrom env (st.pass ['<']) ('&' :: renderMarks ms) :=
      split_char env hquiet (by simp [charPasses])
    have hgt : (renderMarks ms).head? ≠ some '>' := hapart.behind_redirect (by decide)
    have hlone : (st.pass ['<']).Bare (Op.amp.render ++ renderMarks ms) :=
      ⟨hquiet.quote, hquiet.paren, hquiet.backtick, hquiet.skip, hquiet.half, fun h => by cases h⟩
    obtain ⟨c, hc, hrun⟩ := split_cut env hlone rfl fun _ => ⟨hamp, hgt⟩
    exact ⟨(st.pass ['<']).cut c false, [(st.pass ['<']).cur], hless.trans hrun,
      cut_at (hat.quiet.pass _) hd rfl hc⟩
  · have hpasses : textPasses p.depth st.prev r.render (renderMarks ms) = true := by
      cases r with
      | dupInput =>
        have hd : p.depth ≠ 0 := fun h => hcut ⟨h, rfl⟩
        simp [Redirect.render, textPasses, charPasses, hd]
      | input => simp [Redirect.render, textPasses, charPasses, hlt]
      | output => simp [Redirect.render, textPasses, charPasses]
      | append => simp [Redirect.render, textPasses, charPasses]
      | clobber => simp [Redirect.render, textPasses, charPasses, hbar]
      | both => simp [Redirect.render, textPasses, charPasses]
      | appendBoth => simp [Redirect.render, textPasses, charPasses]
      | readWrite => simp [Redirect.render, textPasses, charPasses]
      | dupOutput => simp [Redirect.render, textPasses, charPasses, hamp]
    refine passed env hat (fun hd => ?_) rfl (split_text env hat.quiet hpasses)
      fun _ _ => loneAmp_head hamp
    exact Bool.eq_false_iff.mpr fun hr => hcut ⟨hd, by simpa [markCuts] using hr⟩

theorem split_piece_mark {q : Piece} {rest : Text}
    (hat : st.At p (q.render ++ rest)) (hsafe : markSafe p.depth rest (.atom (.piece q)) = true) :
    ∃ st' parts, splitFrom env st (q.render ++ rest) = parts ++ splitFrom env st' rest ∧
      st'.At (p.pass (.atom (.piece q))) rest := by
  cases hd : p.depth with
  | zero =>
    simp only [markSafe, hd, if_true, Bool.and_eq_true, Bool.not_eq_true', Bool.and_eq_false_iff,
      beq_eq_false_iff_ne] at hsafe
    have hrest : q = .escaped '<' → rest.head? ≠ some '<' := by
      rintro rfl
      exact hsafe.2.resolve_left fun h => h rfl
    obtain ⟨hrun, hbare⟩ := split_piece env (hat.bare hd) hsafe.1 hrest
    exact passed env (m := .atom (.piece q)) hat (fun _ => rfl) rfl hrun fun _ => hbare.redirect
  | succ d =>
    have hquiet := hat.quiet
    rw [hd] at hquiet
    simp only [markSafe, hd, Nat.add_one_ne_zero, if_false] at hsafe
    exact passed env (m := .atom (.piece q)) hat (fun _ => rfl) rfl
      (split_piece_inside env hquiet hsafe) fun h => by rw [hd] at h; cases h

theorem split_paren {m : Mark} {rest : Text}
    (hat : st.At p (m.render ++ rest)) (hm : m = .opening ∨ m = .closing) :
    ∃ st' parts, splitFrom env st (m.render ++ rest) = parts ++ splitFrom env st' rest ∧
      st'.At (p.pass m) rest := by
  obtain ⟨hquote, hparen, htick, hskip, hhalf⟩ := hat.quiet
  rcases hm with rfl | rfl
  · refine ⟨{ st.pass ['('] with paren := st.paren + 1 }, [], ?_, ?_⟩
    · rw [← st.push_eq]
      simp [Mark.render, splitFrom, hquote, htick, hskip, hhalf]
    · rw [Part.pass_kept rfl]
      refine ⟨⟨hquote, congrArg (· + 1) hparen, htick, hskip, hhalf⟩, ?_, fun h => by cases h⟩
      simp [SplitState.pass, hat.cur, Mark.render]
  · refine ⟨{ st.pass [')'] with paren := st.paren - 1 }, [], ?_, ?_⟩
    · rw [← st.push_eq]
      cases hp : st.paren <;>
        simp [Mark.render, splitFrom, hquote, htick, hskip, hhalf, hp, SplitState.push]
    · rw [Part.pass_kept rfl]
      refine ⟨⟨hquote, congrArg (· - 1) hparen, htick, hskip, hhalf⟩, ?_, fun _ h => by cases h⟩
      simp [SplitState.pass, hat.cur, Mark.render]

theorem split_mark {m : Mark} {ms : List Mark}
    (hat : st.At p (renderMarks (m :: ms))) (hsafe : markSafe p.depth (renderMarks ms) m = true)
    (hapart : Apart (m :: ms)) :
    ∃ st' parts, splitFrom env st (renderMarks (m :: ms)) =
        parts ++ splitFrom env st' (renderMarks ms) ∧ st'.At (p.pass m) (renderMarks ms) := by
  cases m with
  | atom a =>
    cases a with
    | piece q => exact split_piece_mark env hat hsafe
    | blank b =>
      have hpasses : textPasses p.depth st.prev [b.char] (renderMarks ms) = true := by
        cases b <;> simp [Blank.char, textPasses, charPasses]
      refine passed env hat (fun _ => rfl) rfl (split_text env hat.quiet hpasses) fun _ h => ?_
      cases b <;> simp [SplitState.pass, Mark.render, Atom.render, Blank.char] at h
    | op o => exact split_op env hat hapart
  | redirect r => exact split_redirect env hat hapart
  | opening => exact split_paren env hat (Or.inl rfl)
  | closing => exact split_paren env hat (Or.inr rfl)

theorem split_marks (front back : List Mark) {st : SplitState} {p : Part}
    (hapart : Apart (front ++ back)) (hsafe : lineSafe back p front = true)
    (hat : st.At p (renderMarks (front ++ back))) :
    ∃ st' parts, splitFrom env st (renderMarks (front ++ back)) =
        parts ++ splitFrom env st' (renderMarks back) ∧
      st'.At (partOf p front) (renderMarks back) := by
  induction front generalizing st p with
  | nil => exact ⟨st, [], rfl, hat⟩
  | cons m front ih =>
    rw [lineSafe, Bool.and_eq_true] at hsafe
    obtain ⟨st', parts, hstep, hat'⟩ := split_mark env hat hsafe.1 hapart
    obtain ⟨st'', parts', hrun, hat''⟩ := ih hapart.tail hsafe.2 hat'
    refine ⟨st'', parts ++ parts', ?_, hat''⟩
    rw [append_assoc]
    exact hstep.trans (congrArg (parts ++ ·) hrun)

/-! ## The subcommand at a place -/

/-- The word in front of the marks ends there, for the tokenizer as for the shell. -/
def EndsToken (depth : Nat) (back : List Mark) : Prop :=
  ∀ m, back.head? = some m →
    m.isSpace = true ∨ depth = 0 ∧ ∃ o, m = .atom (.op o) ∧ opCuts o = true

/-- Nothing or white space comes first. -/
def SpaceFirst (t : Text) : Prop := ∀ c, t.head? = some c → isSpace c = true

theorem space_mark {m : Mark} (hm : m.isSpace = true) : ∃ c, m.render = [c] ∧ isSpace c = true := by
  cases m with
  | atom a =>
    cases a with
    | piece p => cases hm
    | blank b => exact ⟨b.char, rfl, by cases b <;> rfl⟩
    | op o =>
      have ho : o = .newline := by simpa [Mark.isSpace] using hm
      exact ⟨'\n', by rw [ho]; rfl, rfl⟩
  | redirect r => cases hm
  | opening => cases hm
  | closing => cases hm

/-- Nothing but white space is left of the part behind the place. -/
def endsPart (t : Text) : Bool := rstripBy isSpace t == []

theorem split_end {back : List Mark}
    (hat : st.At p (renderMarks back)) (hapart : Apart back) (hends : EndsToken p.depth back) :
    ∃ t parts, splitFrom env st (renderMarks back) = (st.cur ++ t) :: parts ∧ SpaceFirst t := by
  cases back with
  | nil => exact ⟨[], [], by simp [splitFrom], fun c h => by cases h⟩
  | cons m back =>
    rcases hends m rfl with hspace | ⟨hd, o, rfl, ho⟩
    · obtain ⟨c, hm, hc⟩ := space_mark hspace
      have hcut : cutsAt (c :: renderMarks back) = false := by
        have hne : c ≠ ';' ∧ c ≠ '|' ∧ c ≠ '&' :=
          ⟨char_ne hc rfl, char_ne hc rfl, char_ne hc rfl⟩
        unfold cutsAt
        split <;> simp_all
      obtain ⟨t, parts, hrun⟩ := split_joins env hat.quiet.half hcut
      rw [renderMarks_cons, hm]
      exact ⟨c :: t, parts, hrun, fun d hd => by cases hd; exact hc⟩
    · have hcuts : cutsAt (renderMarks (.atom (.op o) :: back)) = true := by
        cases o with
        | newline => cases ho
        | pipe => cases ho
        | semi => rfl
        | and => rfl
        | or => rfl
        | amp => exact decide_eq_true hapart.behind_amp.2
      obtain ⟨parts, hrun⟩ := split_cutsAt env (hat.bare hd) hcuts
      exact ⟨[], parts, by rw [hrun, append_nil], fun c h => by cases h⟩

theorem endsPart_split {rest t : Text} {parts : List Text} (hst : st.Bare rest)
    (h : splitFrom env st rest = (st.cur ++ t) :: parts) : endsPart t = exposedEnd rest := by
  obtain ⟨sp, tail, parts', hrun, hsp, hexposed, hmore⟩ := split_behind env hst
  rw [hrun, List.cons.injEq, append_assoc, append_cancel_left_eq] at h
  have hspaces : ∀ c ∈ sp, isSpace c = true := by
    rw [hsp]
    exact fun c hc => mem_takeWhile_imp hc
  rw [endsPart, ← h.1]
  cases hx : exposedEnd rest with
  | true =>
    rw [hexposed hx, append_nil, rstripBy_spaces hspaces]
    rfl
  | false =>
    obtain ⟨c, tail', htail, hc⟩ := hmore hx
    rw [htail, rstripBy_append, rstripBy_cons_not hc]
    simp

theorem subcommand_at {front back : List Mark} (hapart : Apart (front ++ back))
    (hsafe : lineSafe back {} front = true) (hends : EndsToken (partOf {} front).depth back) :
    ∃ t, SpaceFirst t ∧
      ((partOf {} front).depth = 0 → endsPart t = exposedEnd (renderMarks back)) ∧
      ∀ sub, sub = strip (renderMarks (partOf {} front).marks ++ t) → sub ≠ [] →
        sub ∈ splitSubcommands env (renderMarks (front ++ back)) := by
  have hstart : ({} : SplitState).At {} (renderMarks (front ++ back)) :=
    ⟨⟨rfl, rfl, rfl, rfl, rfl⟩, rfl, fun _ h => by cases h⟩
  obtain ⟨st, parts, hrun, hat⟩ := split_marks env front back hapart hsafe hstart
  obtain ⟨t, parts', hsplit, ht⟩ := split_end env hat (isChain_append.mp hapart).2.1 hends
  refine ⟨t, ht, fun hd => endsPart_split env (hat.bare hd) hsplit, ?_⟩
  rintro sub rfl hne
  rw [splitSubcommands, hrun, hsplit, hat.cur]
  refine mem_filter.mpr ⟨mem_map_of_mem ?_, decide_eq_true hne⟩
  exact mem_append_right _ mem_cons_self

end Split

/-! ## Tokens -/

theorem reads_bare (w : WordBuf) {t : Text}
    (ht : ∀ c ∈ t, isSpace c = false ∧ c ≠ '\\' ∧ c ≠ '\x27' ∧ c ≠ '\x22') :
    Reads .bare w t [] .bare (t.foldl (fun w c => w.append c false false) w) := by
  induction t generalizing w with
  | nil => exact Reads.nil _ _
  | cons c t ih =>
    obtain ⟨hspace, hback, hsingle, hdouble⟩ := ht c mem_cons_self
    have hchar : Reads .bare w [c] [] .bare (w.append c false false) :=
      fun rest => tokenize_bare_char w rest hback hsingle hdouble hspace
    exact hchar.append (ih _ fun d hd => ht d (mem_cons_of_mem c hd))

theorem redirect_bare (r : Redirect) : ∀ c ∈ r.render,
    isSpace c = false ∧ c ≠ '\\' ∧ c ≠ '\x27' ∧ c ≠ '\x22' := by
  cases r <;> exact forall_of_all (by decide)

theorem reads_marks (w : WordBuf) (ms : List Mark) :
    ∃ toks w', Reads .bare w (renderMarks ms) toks .bare w' := by
  induction ms generalizing w with
  | nil => exact ⟨[], w, Reads.nil _ _⟩
  | cons m ms ih =>
    have hmark : ∃ toks w', Reads .bare w m.render toks .bare w' := by
      cases m with
      | atom a =>
        obtain ⟨toks, w', h⟩ := reads_atoms w [a]
        exact ⟨toks, w', by simpa [Mark.render] using h⟩
      | redirect r => exact ⟨[], _, reads_bare w (redirect_bare r)⟩
      | opening => exact ⟨[], _, reads_bare w (t := ['(']) (forall_of_all (by decide))⟩
      | closing => exact ⟨[], _, reads_bare w (t := [')']) (forall_of_all (by decide))⟩
    obtain ⟨toks, w', h⟩ := hmark
    obtain ⟨toks', w'', h'⟩ := ih w'
    exact ⟨toks ++ toks', w'', h.append h'⟩

theorem reads_part {ms : List Mark} (hlast : ∀ m, ms.getLast? = some m → m.isSpace = true) :
    ∃ toks, Reads .bare {} (renderMarks ms) toks .bare {} := by
  rcases eq_nil_or_concat' ms with rfl | ⟨ms, m, rfl⟩
  · exact ⟨[], Reads.nil _ _⟩
  · obtain ⟨toks, w, h⟩ := reads_marks {} ms
    obtain ⟨c, hm, hc⟩ := space_mark (hlast m getLast?_concat)
    refine ⟨toks ++ w.flush, ?_⟩
    rw [renderMarks_append, renderMarks_cons, hm]
    exact h.append (reads_space w hc)

theorem SpaceFirst.rstrip {t : Text} (ht : SpaceFirst t) : SpaceFirst (rstripBy isSpace t) := by
  cases t with
  | nil => exact ht
  | cons c t =>
    have happend := rstripBy_append isSpace [c] t
    rw [singleton_append] at happend
    rw [happend]
    split
    · rw [rstripBy_spaces (by simpa using ht c rfl)]
      exact fun d h => by cases h
    · exact ht

theorem reads_spaceFirst (w : WordBuf) {t : Text} (ht : SpaceFirst t) :
    ∃ more, tokenizeFrom .bare w t = w.flush ++ more := by
  cases t with
  | nil => exact ⟨[], by simp [tokenizeFrom_nil]⟩
  | cons c t => exact ⟨_, tokenize_bare_space w t (ht c rfl)⟩

theorem tokenize_word {front : Text} {toks : List Token} {buf : WordBuf} (w : Word) {t : Text}
    (hfront : Reads .bare {} front toks .bare buf) (hw : ∀ p ∈ w.pieces, staysWhole p = true)
    (ht : SpaceFirst t) :
    ∃ more, tokenize (strip (front ++ render w.atoms ++ t)) =
      toks ++ ((seen (endsPart t) w).foldl readPiece buf).flush ++ more := by
  have hread : ∀ ps : List Piece, (∀ p ∈ ps, staysWhole p = true) →
      Reads .bare {} (front ++ render (ps.map .piece)) toks .bare (ps.foldl readPiece buf) :=
    fun ps h => by simpa using hfront.append (reads_pieces buf h)
  have hinit : ∀ p ∈ w.pieces.dropLast, staysWhole p = true :=
    fun p hp => hw p (dropLast_subset _ hp)
  have hwhole : ∀ t', SpaceFirst t' → ∃ more, tokenize (front ++ render w.atoms ++ t') =
      toks ++ (w.pieces.foldl readPiece buf).flush ++ more := by
    intro t' ht'
    obtain ⟨more, h⟩ := reads_spaceFirst (w.pieces.foldl readPiece buf) ht'
    exact ⟨more, by rw [tokenize, append_assoc toks, ← h]; exact hread _ hw t'⟩
  rw [tokenize_strip, rstripBy_append]
  cases hend : endsPart t with
  | false =>
    rw [if_neg (by simpa [endsPart] using hend)]
    exact hwhole _ ht.rstrip
  | true =>
    rw [if_pos (by simpa [endsPart] using hend)]
    cases hlost : lostAtEnd (w.pieces.getLast w.nonempty) with
    | false =>
      obtain ⟨s, c, hc, hspace⟩ := render_last (hw _ (getLast_mem w.nonempty)) hlost
      have htext : front ++ render w.atoms =
          (front ++ render (w.pieces.dropLast.map .piece) ++ s) ++ [c] := by
        rw [Word.render_atoms, hc]
        simp
      have hseen : seen true w = w.pieces := by simp [seen, hlost]
      rw [htext, rstripBy_concat_not hspace, ← htext, hseen]
      simpa using hwhole [] fun c h => by cases h
    | true =>
      obtain ⟨c, hc, hspace⟩ := lostAtEnd_cases hlost
      have htext : front ++ render w.atoms =
          (front ++ render (w.pieces.dropLast.map .piece) ++ ['\\']) ++ [c] := by
        rw [Word.render_atoms, hc]
        simp [Piece.render]
      have hlast : rstripBy isSpace [c] = [] := rstripBy_spaces (by simpa using hspace)
      have hseen : seen true w = w.pieces.dropLast := by simp [seen, hlost]
      -- the backslash stays behind and is dropped as a dangling escape
      refine ⟨[], ?_⟩
      rw [htext, rstripBy_append, if_pos hlast, rstripBy_concat_not rfl, append_nil, hseen]
      have h := hread w.pieces.dropLast hinit ['\\']
      rw [tokenize, h]
      congr 1

end MiqroForge.Guard
