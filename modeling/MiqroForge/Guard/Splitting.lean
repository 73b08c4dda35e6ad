import MiqroForge.Guard.Tokens
import MiqroForge.Library.ShellWords

/-!
`split_subcommands` on a shell command line: it follows the line atom by atom as long as no
escape misleads it.
-/

namespace MiqroForge.Guard

open PyText ShellWords

/-! ## Where the splitter cuts -/

def opCuts : Op → Bool
  | .semi | .and | .or | .amp => true
  | .newline | .pipe => false

def atomCuts : Atom → Bool
  | .op o => opCuts o
  | _ => false

/-- The atoms since the last cut, `acc` standing in front. -/
def sinceCut (acc as : List Atom) : List Atom :=
  as.foldl (fun acc a => if atomCuts a then [] else acc ++ [a]) acc

/-- A single `&` comes next. -/
def loneAmp : Text → Bool
  | '&' :: rest => rest.head? ≠ some '&'
  | _ => false

/-- A separator of the splitter comes next. -/
def cutsAt : Text → Bool
  | ';' :: _ => true
  | '|' :: '|' :: _ => true
  | '&' :: rest => rest.head? ≠ some '>'
  | _ => false

/-- Nothing but white space follows in the same part. -/
def exposedEnd (rest : Text) : Bool :=
  let tail := rest.dropWhile isSpace
  tail.isEmpty || cutsAt tail

/-- The splitter reads the piece as the shell does, `rest` being the text behind it: it knows
no escapes, so an escaped character must be none that it acts on. -/
def splitsAsShell (rest : Text) : Piece → Bool
  | .plain _ _ => true
  | .escaped c =>
    !("\x27\x22\x60(;&".toList.contains c) && !(c == '|' && rest.head? == some '|') &&
      !(c == '>' && loneAmp rest)
  | .single _ _ => true
  | .double items => !(items.flatMap DqItem.render).contains '\x22'

/-- No piece misleads the splitter, `back` being the atoms behind. -/
def splitSafe (back : List Atom) : List Atom → Bool
  | [] => true
  | .piece p :: as => splitsAsShell (render (as ++ back)) p && splitSafe back as
  | .blank _ :: as => splitSafe back as
  | .op _ :: as => splitSafe back as

@[simp] theorem sinceCut_nil (acc : List Atom) : sinceCut acc [] = acc := rfl

@[simp] theorem sinceCut_cons (acc : List Atom) (a : Atom) (as : List Atom) :
    sinceCut acc (a :: as) = sinceCut (if atomCuts a then [] else acc ++ [a]) as := rfl

theorem sinceCut_append (acc as bs : List Atom) :
    sinceCut acc (as ++ bs) = sinceCut (sinceCut acc as) bs := List.foldl_append

theorem sinceCut_noOp (acc : List Atom) {as : List Atom} (has : ∀ a ∈ as, a.isOp = false) :
    sinceCut acc as = acc ++ as := by
  induction as generalizing acc with
  | nil => simp
  | cons a as ih =>
    have ha : atomCuts a = false := by
      cases a with
      | op o => cases has _ List.mem_cons_self
      | piece p => rfl
      | blank b => rfl
    rw [sinceCut_cons, ha, ih _ fun b hb => has b (List.mem_cons_of_mem a hb)]
    simp

/-! ## First characters -/

theorem render_head_not_redirect (as : List Atom) :
    (render as).head? ≠ some '<' ∧ (render as).head? ≠ some '>' := by
  cases as with
  | nil => simp
  | cons a as =>
    cases a with
    | piece p =>
      cases p with
      | plain c hc =>
        exact ⟨fun h => char_ne hc rfl (Option.some.inj h),
          fun h => char_ne hc rfl (Option.some.inj h)⟩
      | escaped c => simp [Atom.render, Piece.render]
      | single s hs => simp [Atom.render, Piece.render]
      | double items => simp [Atom.render, Piece.render]
    | blank b => cases b <;> simp [Atom.render, Blank.char]
    | op o => cases o <;> simp [Atom.render, Op.render]

theorem render_head_not_op {as : List Atom} (has : NoOpFirst as) :
    (render as).head? ≠ some '&' ∧ (render as).head? ≠ some '|' := by
  obtain ⟨a, rest, rfl, ha⟩ := has
  cases a with
  | piece p =>
    cases p with
    | plain c hc =>
      exact ⟨fun h => char_ne hc rfl (Option.some.inj h),
        fun h => char_ne hc rfl (Option.some.inj h)⟩
    | escaped c => simp [Atom.render, Piece.render]
    | single s hs => simp [Atom.render, Piece.render]
    | double items => simp [Atom.render, Piece.render]
  | blank b => cases b <;> simp [Atom.render, Blank.char]
  | op o => cases ha

theorem acts_cases {c : Char} (h : c ∈ "\x27\x22\x60(;&".toList) :
    c = '\x27' ∨ c = '\x22' ∨ c = '\x60' ∨ c = '(' ∨ c = ';' ∨ c = '&' := by
  simpa using h

theorem plain_not_acts {c : Char} (hc : isPlain c = true) : c ∉ "\x27\x22\x60(;&".toList := by
  intro h
  rcases acts_cases h with h | h | h | h | h | h <;> exact char_ne hc rfl h

theorem space_not_acts {c : Char} (hc : isSpace c = true) : c ∉ "\x27\x22\x60(;&".toList := by
  intro h
  rcases acts_cases h with h | h | h | h | h | h <;> exact char_ne hc rfl h

theorem exposedEnd_cut {o : Op} (ho : opCuts o = true) {rest : Text}
    (hgt : rest.head? ≠ some '>') : exposedEnd (o.render ++ rest) = true := by
  have hfirst : ∀ (c : Char) (t : Text), isSpace c = false → cutsAt (c :: t) = true →
      exposedEnd (c :: t) = true := by
    intro c t hc ht
    simp [exposedEnd, hc, ht]
  cases o with
  | newline => cases ho
  | pipe => cases ho
  | semi => exact hfirst _ _ rfl rfl
  | and => exact hfirst _ _ rfl rfl
  | or => exact hfirst _ _ rfl rfl
  | amp => exact hfirst _ _ rfl (decide_eq_true hgt)

/-! ## Steps of the splitter -/

/-- Outside quotes, groups, heredocs and separators, and not between `>` and an `&` that
belongs to it. -/
structure SplitState.Bare (st : SplitState) (rest : Text) : Prop where
  quote : st.quote = none
  paren : st.paren = 0
  backtick : st.backtick = false
  skip : st.skip = 0
  half : st.half = false
  redirect : st.prev = some '>' → loneAmp rest = false

/-- The state behind a passed text. -/
def SplitState.pass (st : SplitState) (t : Text) : SplitState :=
  { st with cur := st.cur ++ t, prev := t.getLast?.or st.prev }

@[simp] theorem SplitState.pass_nil (st : SplitState) : st.pass [] = st := by
  simp [SplitState.pass]

theorem SplitState.push_eq (st : SplitState) (c : Char) : st.push c = st.pass [c] := rfl

theorem SplitState.pass_pass (st : SplitState) (s t : Text) :
    (st.pass s).pass t = st.pass (s ++ t) := by
  simp [SplitState.pass, List.getLast?_append, Option.or_assoc]

theorem SplitState.Bare.pass {st : SplitState} {rest : Text} (hst : st.Bare rest) (t : Text)
    (rest' : Text) (h : (st.pass t).prev = some '>' → loneAmp rest' = false) :
    (st.pass t).Bare rest' :=
  ⟨hst.quote, hst.paren, hst.backtick, hst.skip, hst.half, h⟩

theorem SplitState.Bare.cut {st : SplitState} {rest : Text} (hst : st.Bare rest) {c : Char}
    (hc : c ≠ '>') (rest' : Text) : (st.cut c false).Bare rest' :=
  ⟨hst.quote, hst.paren, hst.backtick, hst.skip, rfl, fun h => absurd (Option.some.inj h) hc⟩

section Split
variable (env : GuardEnv)

variable {st : SplitState}

theorem split_push {c : Char} {rest : Text} (hst : st.Bare (c :: rest))
    (hc : c ∉ "\x27\x22\x60(;&".toList) (hlt : c = '<' → rest.head? ≠ some '<')
    (hpipe : c = '|' → rest.head? ≠ some '|') :
    splitFrom env st (c :: rest) = splitFrom env (st.pass [c]) rest := by
  have hne : c ≠ '\x27' ∧ c ≠ '\x22' ∧ c ≠ '\x60' ∧ c ≠ '(' ∧ c ≠ ';' ∧ c ≠ '&' := by
    simpa using hc
  obtain ⟨hsingle, hdouble, htick, hparen, hsemi, hamp⟩ := hne
  have hheredoc : ¬(c = '<' ∧ rest.head? = some '<') := fun h => hlt h.1 h.2
  have hbars : c = '|' → rest.head? ≠ some c := by
    rintro rfl
    exact hpipe rfl
  rw [← st.push_eq, splitFrom]
  simp [hst.half, hst.skip, hst.quote, hst.backtick, hst.paren, hsingle, hdouble, htick, hparen,
    hsemi, hamp, hheredoc]
  exact fun h h' => absurd h' (hbars h)

theorem split_quoted {q : Char} {s rest : Text} (hhalf : st.half = false)
    (hskip : st.skip = 0) (hquote : st.quote = some q) (hs : q ∉ s) :
    splitFrom env st (s ++ q :: rest) =
      splitFrom env { st.pass (s ++ [q]) with quote := none } rest := by
  induction s generalizing st with
  | nil => simp [splitFrom, hhalf, hskip, hquote, SplitState.push, SplitState.pass]
  | cons c s ih =>
    obtain ⟨hc, hs⟩ := List.ne_and_not_mem_of_not_mem_cons hs
    have hstep : splitFrom env st (c :: (s ++ q :: rest)) =
        splitFrom env (st.pass [c]) (s ++ q :: rest) := by
      rw [← st.push_eq, splitFrom]
      simp [hhalf, hskip, hquote, hc, SplitState.push]
    rw [List.cons_append, hstep, ih (by exact hhalf) (by exact hskip) (by exact hquote) hs,
      SplitState.pass_pass]
    rfl

theorem split_quotes_kept {q : Char} {s rest : Text} (hhalf : st.half = false)
    (hskip : st.skip = 0) (hquote : st.quote = none) (hq : q = '\x27' ∨ q = '\x22') (hs : q ∉ s) :
    splitFrom env st (q :: s ++ [q] ++ rest) = splitFrom env (st.pass (q :: s ++ [q])) rest := by
  have hlast : (q :: (s ++ [q])).getLast? = some q := List.getLast?_concat (l := q :: s)
  have hopen : splitFrom env st (q :: (s ++ q :: rest)) =
      splitFrom env { st.push q with quote := some q } (s ++ q :: rest) := by
    rw [splitFrom]
    simp [hhalf, hskip, hquote, hq]
  have htext : q :: s ++ [q] ++ rest = q :: (s ++ q :: rest) := by simp
  rw [htext, hopen, split_quoted env (by exact hhalf) (by exact hskip) rfl hs]
  congr 1
  simp [SplitState.pass, SplitState.push, hquote, hlast]

theorem split_quotes {q : Char} {s rest : Text}
    (hst : st.Bare (q :: s ++ [q] ++ rest)) (hq : q = '\x27' ∨ q = '\x22') (hs : q ∉ s) :
    splitFrom env st (q :: s ++ [q] ++ rest) = splitFrom env (st.pass (q :: s ++ [q])) rest ∧
      (st.pass (q :: s ++ [q])).Bare rest := by
  refine ⟨split_quotes_kept env hst.half hst.skip hst.quote hq hs, hst.pass _ _ fun h => ?_⟩
  have hlast : (q :: (s ++ [q])).getLast? = some q := List.getLast?_concat (l := q :: s)
  have hprev : (st.pass (q :: s ++ [q])).prev = some q := by simp [SplitState.pass, hlast]
  rw [hprev] at h
  rcases hq with rfl | rfl <;> cases h

theorem split_piece {p : Piece} {rest : Text} (hst : st.Bare (p.render ++ rest))
    (hsafe : splitsAsShell rest p = true) (hrest : p = .escaped '<' → rest.head? ≠ some '<') :
    splitFrom env st (p.render ++ rest) = splitFrom env (st.pass p.render) rest ∧
      (st.pass p.render).Bare rest := by
  cases p with
  | plain c hc =>
    refine ⟨split_push env hst (plain_not_acts hc) ?_ ?_, hst.pass _ _ ?_⟩
    · exact fun h => absurd h (char_ne hc rfl)
    · exact fun h => absurd h (char_ne hc rfl)
    · exact fun h => absurd (Option.some.inj h) (char_ne hc rfl)
  | escaped c =>
    simp only [splitsAsShell, Bool.and_eq_true, Bool.not_eq_true', Bool.and_eq_false_iff,
      beq_eq_false_iff_ne] at hsafe
    obtain ⟨⟨hc, hpipe⟩, hgt⟩ := hsafe
    have hback : splitFrom env st ('\\' :: c :: rest) =
        splitFrom env (st.pass ['\\']) (c :: rest) :=
      split_push env hst (by decide) (fun h => absurd h (by decide))
        (fun h => absurd h (by decide))
    have hst' : (st.pass ['\\']).Bare (c :: rest) := hst.pass _ _ fun h => by cases h
    have hchar := split_push env hst' (by simpa using hc) (fun h => hrest (by rw [h]))
      (fun h => hpipe.resolve_left fun hn => hn h)
    rw [SplitState.pass_pass] at hchar
    refine ⟨hback.trans hchar, hst.pass _ _ fun h => ?_⟩
    cases h
    exact hgt.resolve_left fun hn => hn rfl
  | single s hs => exact split_quotes env hst (Or.inl rfl) hs
  | double items =>
    have hs : '\x22' ∉ items.flatMap DqItem.render := by
      simpa [splitsAsShell] using hsafe
    exact split_quotes env hst (Or.inr rfl) hs

theorem split_space {c : Char} {rest : Text} (hst : st.Bare (c :: rest))
    (hc : isSpace c = true) :
    splitFrom env st (c :: rest) = splitFrom env (st.pass [c]) rest ∧ (st.pass [c]).Bare rest := by
  refine ⟨split_push env hst (space_not_acts hc) ?_ ?_, hst.pass _ _ ?_⟩
  · exact fun h => absurd h (char_ne hc rfl)
  · exact fun h => absurd h (char_ne hc rfl)
  · exact fun h => absurd (Option.some.inj h) (char_ne hc rfl)

theorem split_cut {o : Op} {rest : Text} (hst : st.Bare (o.render ++ rest))
    (ho : opCuts o = true)
    (hnext : o = .amp → rest.head? ≠ some '&' ∧ rest.head? ≠ some '>') :
    ∃ c, c ≠ '>' ∧ splitFrom env st (o.render ++ rest) =
      st.cur :: splitFrom env (st.cut c false) rest := by
  have hbare := And.intro hst.half (And.intro hst.skip (And.intro hst.quote
    (And.intro hst.backtick hst.paren)))
  cases o with
  | newline => cases ho
  | pipe => cases ho
  | semi =>
    refine ⟨';', by decide, ?_⟩
    simp [Op.render, splitFrom, hbare]
  | and =>
    refine ⟨'&', by decide, ?_⟩
    simp [Op.render, splitFrom, hbare, SplitState.cut]
  | or =>
    refine ⟨'|', by decide, ?_⟩
    simp [Op.render, splitFrom, hbare, SplitState.cut]
  | amp =>
    refine ⟨'&', by decide, ?_⟩
    obtain ⟨hamp, hgt⟩ := hnext rfl
    have hprev : st.prev ≠ some '>' := by
      intro h
      have hlone := hst.redirect h
      simp [Op.render, loneAmp, hamp] at hlone
    simp [Op.render, splitFrom, hbare, hamp, hgt, hprev]

theorem split_run (front back : List Atom) (acc : List Atom) {st : SplitState}
    (hops : OpsApart (front ++ back)) (hsafe : splitSafe back front = true)
    (hst : st.Bare (render (front ++ back))) (hcur : st.cur = render acc) :
    ∃ st' parts, splitFrom env st (render (front ++ back)) =
        parts ++ splitFrom env st' (render back) ∧
      st'.Bare (render back) ∧ st'.cur = render (sinceCut acc front) := by
  induction front generalizing acc st with
  | nil => exact ⟨st, [], rfl, hst, hcur⟩
  | cons a front ih =>
    rw [List.cons_append, render_cons] at hst
    have hpush : ∀ h : splitFrom env st (a.render ++ render (front ++ back)) =
          splitFrom env (st.pass a.render) (render (front ++ back)) ∧
        (st.pass a.render).Bare (render (front ++ back)), atomCuts a = false →
        splitSafe back front = true →
        ∃ st' parts, splitFrom env st (render (a :: front ++ back)) =
            parts ++ splitFrom env st' (render back) ∧
          st'.Bare (render back) ∧ st'.cur = render (sinceCut acc (a :: front)) := by
      intro h ha hsafe
      have hacc : (st.pass a.render).cur = render (acc ++ [a]) := by
        simp [SplitState.pass, hcur]
      obtain ⟨st', parts, hrun, hst', hcur'⟩ := ih (acc ++ [a]) hops.2 hsafe h.2 hacc
      refine ⟨st', parts, ?_, hst', ?_⟩
      · rw [List.cons_append, render_cons, h.1, hrun]
      · rw [hcur', sinceCut_cons, ha]
        rfl
    cases a with
    | piece p =>
      simp only [splitSafe, Bool.and_eq_true] at hsafe
      exact hpush (split_piece env hst hsafe.1 fun _ => (render_head_not_redirect _).1) rfl hsafe.2
    | blank b =>
      have hspace : isSpace b.char = true := by cases b <;> rfl
      exact hpush (split_space env hst hspace) rfl hsafe
    | op o =>
      have hnext := render_head_not_op (hops.1 rfl)
      cases ho : opCuts o with
      | true =>
        obtain ⟨c, hc, hcut⟩ :=
          split_cut env hst ho fun _ => ⟨hnext.1, (render_head_not_redirect _).2⟩
        obtain ⟨st', parts, hrun, hst', hcur'⟩ := ih [] hops.2 hsafe (hst.cut hc _) rfl
        refine ⟨st', st.cur :: parts, ?_, hst', ?_⟩
        · exact hcut.trans (congrArg (st.cur :: ·) hrun)
        · rw [hcur', sinceCut_cons]
          simp [atomCuts, ho]
      | false =>
        cases o with
        | newline => exact hpush (split_space env hst rfl) rfl hsafe
        | pipe =>
          refine hpush ⟨split_push env hst (by decide) (fun h => absurd h (by decide))
            (fun _ => hnext.2), hst.pass _ _ fun h => ?_⟩ rfl hsafe
          cases h
        | semi => cases ho
        | and => cases ho
        | or => cases ho
        | amp => cases ho

/-- What is left to do behind a character of a subcommand: it was passed over, or a separator
begins there and ends the part. -/
def PassedOrCut (st : SplitState) (c : Char) (rest : Text) (parts : List Text) : Prop :=
  (∃ st' : SplitState, st'.half = false ∧ st'.cur = st.cur ++ [c] ∧
      parts = splitFrom env st' rest) ∨
    cutsAt (c :: rest) = true ∧ ∃ more, parts = st.cur :: more

theorem split_step (c : Char) (rest : Text) (hhalf : st.half = false) :
    PassedOrCut env st c rest (splitFrom env st (c :: rest)) := by
  have hpass : ∀ st' : SplitState, st'.half = false → st'.cur = st.cur ++ [c] →
      PassedOrCut env st c rest (splitFrom env st' rest) :=
    fun st' h h' => Or.inl ⟨st', h, h', rfl⟩
  rw [splitFrom, if_neg (by simp [hhalf])]
  -- heredocs, quotes, backticks and groups pass the character over
  iterate 9
    refine iteInduction (motive := PassedOrCut env st c rest) (fun _ => hpass _ hhalf rfl)
      (fun _ => ?_)
  refine iteInduction (motive := PassedOrCut env st c rest) (fun h => ?_) (fun _ => ?_)
  · obtain ⟨hc, hnext⟩ := h
    obtain ⟨rest', rfl⟩ : ∃ rest', rest = c :: rest' := by
      cases rest with
      | nil => cases hnext
      | cons d rest' => exact ⟨rest', by rw [Option.some.inj hnext]⟩
    refine Or.inr ⟨?_, _, rfl⟩
    rcases hc with rfl | rfl <;> simp [cutsAt]
  refine iteInduction (motive := PassedOrCut env st c rest) (fun h => ?_) (fun _ => ?_)
  · exact Or.inr ⟨by rw [h, cutsAt], _, rfl⟩
  refine iteInduction (motive := PassedOrCut env st c rest) (fun h => ?_)
    (fun _ => hpass _ hhalf rfl)
  obtain ⟨rfl, hgt⟩ := h
  refine Or.inr ⟨?_, _, rfl⟩
  simp only [cutsAt, decide_eq_true_eq]
  exact fun h => hgt (Or.inl h)

theorem split_first (rest : Text) (hhalf : st.half = false) :
    ∃ t parts, splitFrom env st rest = (st.cur ++ t) :: parts := by
  induction rest generalizing st with
  | nil => exact ⟨[], [], by simp [splitFrom]⟩
  | cons c rest ih =>
    rcases split_step env c rest hhalf with ⟨st', hhalf', hcur, h⟩ | ⟨-, parts, h⟩
    · obtain ⟨t, parts, hrest⟩ := ih hhalf'
      exact ⟨c :: t, parts, by rw [h, hrest, hcur]; simp⟩
    · exact ⟨[], parts, by rw [h]; simp⟩

theorem split_joins {c : Char} {rest : Text} (hhalf : st.half = false)
    (hcut : cutsAt (c :: rest) = false) :
    ∃ t parts, splitFrom env st (c :: rest) = (st.cur ++ c :: t) :: parts := by
  rcases split_step env c rest hhalf with ⟨st', hhalf', hcur, h⟩ | ⟨hcut', -⟩
  · obtain ⟨t, parts, hrest⟩ := split_first env rest hhalf'
    exact ⟨t, parts, by rw [h, hrest, hcur]; simp⟩
  · rw [hcut] at hcut'
    cases hcut'

theorem split_cutsAt {rest : Text} (hst : st.Bare rest)
    (hcut : cutsAt rest = true) : ∃ parts, splitFrom env st rest = st.cur :: parts := by
  obtain ⟨hquote, hparen, htick, hskip, hhalf, hredirect⟩ := hst
  unfold cutsAt at hcut
  split at hcut
  · simp [splitFrom, hquote, hparen, htick, hskip, hhalf]
  · simp [splitFrom, hquote, hparen, htick, hskip, hhalf]
  · rename_i rest'
    by_cases hamp : rest'.head? = some '&'
    · simp [splitFrom, hquote, hparen, htick, hskip, hhalf, hamp]
    · have hprev : st.prev ≠ some '>' := by
        intro h
        have hlone := hredirect h
        simp [loneAmp, hamp] at hlone
      have hgt : rest'.head? ≠ some '>' := by simpa using hcut
      simp [splitFrom, hquote, hparen, htick, hskip, hhalf, hamp, hprev, hgt]
  · cases hcut

theorem split_spaces {sp rest : Text} (hst : st.Bare (sp ++ rest))
    (hsp : ∀ c ∈ sp, isSpace c = true) :
    splitFrom env st (sp ++ rest) = splitFrom env (st.pass sp) rest ∧ (st.pass sp).Bare rest := by
  induction sp generalizing st with
  | nil => exact ⟨by simp, by simpa using hst⟩
  | cons c sp ih =>
    obtain ⟨hstep, hst'⟩ := split_space env hst (hsp c List.mem_cons_self)
    obtain ⟨hrun, hst''⟩ := ih hst' fun d hd => hsp d (List.mem_cons_of_mem c hd)
    rw [SplitState.pass_pass] at hrun hst''
    exact ⟨hstep.trans hrun, hst''⟩

theorem split_behind {rest : Text} (hst : st.Bare rest) :
    ∃ sp t parts, splitFrom env st rest = (st.cur ++ sp ++ t) :: parts ∧
      sp = rest.takeWhile isSpace ∧
      (exposedEnd rest = true → t = []) ∧
      (exposedEnd rest = false → ∃ c t', t = c :: t' ∧ isSpace c = false) := by
  have hsplit : rest = rest.takeWhile isSpace ++ rest.dropWhile isSpace :=
    List.takeWhile_append_dropWhile.symm
  have hst' : st.Bare (rest.takeWhile isSpace ++ rest.dropWhile isSpace) := by rwa [← hsplit]
  obtain ⟨hrun, hbare⟩ := split_spaces env hst' fun c hc => List.mem_takeWhile_imp hc
  rw [← hsplit] at hrun
  cases htail : rest.dropWhile isSpace with
  | nil =>
    refine ⟨_, [], [], ?_, rfl, fun _ => rfl, fun h => ?_⟩
    · rw [hrun, htail]
      simp [splitFrom, SplitState.pass]
    · simp [exposedEnd, htail] at h
  | cons c tail =>
    rw [htail] at hrun hbare
    have hc : isSpace c = false := by
      have h := List.head?_dropWhile_not isSpace rest
      rw [htail] at h
      simpa using h
    cases hcut : cutsAt (c :: tail) with
    | true =>
      obtain ⟨parts, h⟩ := split_cutsAt env hbare hcut
      refine ⟨_, [], parts, ?_, rfl, fun _ => rfl, fun h => ?_⟩
      · rw [hrun, h]
        simp [SplitState.pass]
      · simp [exposedEnd, htail, hcut] at h
    | false =>
      obtain ⟨t, parts, h⟩ := split_joins env hbare.half hcut
      refine ⟨_, c :: t, parts, ?_, rfl, fun h => ?_, fun _ => ⟨c, t, rfl, hc⟩⟩
      · rw [hrun, h]
        rfl
      · simp [exposedEnd, htail, hcut] at h

end Split

end MiqroForge.Guard
