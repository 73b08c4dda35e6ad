import MiqroForge.Guard.Tokens

/-!
The two scanners of the command guard side by side: where `split_subcommands` cuts, and where the
separators stand that `_tokenize` sees outside quotes.
-/

namespace MiqroForge.Guard

open PyText

/-! ## What the tokenizer makes of each character -/

inductive Role
  | bare
  | opens
  | closes
  | slash
  | escaped
  | quoted
  | quotedEscaped
  deriving DecidableEq

/-- Each character with the branch of `_tokenize` that reads it. -/
def roles : QuoteMode → Text → List (Char × Role)
  | _, [] => []
  | .single, ch :: rest =>
    if ch = '\x27' then (ch, .closes) :: roles .bare rest else (ch, .quoted) :: roles .single rest
  | .double, '\\' :: d :: rest =>
    if isDqEscaped d then ('\\', .slash) :: (d, .quotedEscaped) :: roles .double rest
    else ('\\', .quoted) :: roles .double (d :: rest)
  | .double, ch :: rest =>
    if ch = '\x22' then (ch, .closes) :: roles .bare rest else (ch, .quoted) :: roles .double rest
  | .bare, '\\' :: d :: rest => ('\\', .slash) :: (d, .escaped) :: roles .bare rest
  | .bare, ch :: rest =>
    if ch = '\x27' then (ch, .opens) :: roles .single rest
    else if ch = '\x22' then (ch, .opens) :: roles .double rest
    else if ch = '\\' then (ch, .slash) :: roles .bare rest
    else (ch, .bare) :: roles .bare rest

/-- The tokens that the roles make. -/
def wordsOf (w : WordBuf) : List (Char × Role) → List Token
  | [] => w.flush
  | (ch, role) :: rest =>
    match role with
    | .opens => wordsOf { w with sawQuote := true } rest
    | .closes | .slash => wordsOf w rest
    | .escaped => wordsOf (w.append ch false true) rest
    | .quoted => wordsOf (w.append ch true false) rest
    | .quotedEscaped => wordsOf (w.append ch true true) rest
    | .bare =>
      if isSpace ch then w.flush ++ wordsOf {} rest else wordsOf (w.append ch false false) rest

/-- The roles are those of the tokenizer. -/
theorem tokenizeFrom_roles (mode : QuoteMode) (w : WordBuf) (text : Text) :
    tokenizeFrom mode w text = wordsOf w (roles mode text) := by
  fun_induction tokenizeFrom mode w text <;> simp_all [roles, wordsOf]

theorem roles_text (mode : QuoteMode) (text : Text) : (roles mode text).map Prod.fst = text := by
  fun_induction roles mode text <;> simp_all

/-! ## The separators -/

/-- A character of a part, the one a separator begins with, or its second one. -/
inductive CutMark
  | kept
  | cut
  | second
  deriving DecidableEq

/-- Backticks and parentheses outside quotes, whether a redirect stands directly in front, and
whether the second character of a separator comes next. -/
structure Scan where
  backtick : Bool := false
  paren : Nat := 0
  redirect : Bool := false
  half : Bool := false

/-- One character where no backtick and no parenthesis is open. -/
def Scan.top (s : Scan) (ch : Char) (next : Option Char) : CutMark × Scan :=
  if (ch = '&' ∨ ch = '|') ∧ next = some ch then (.cut, { s with redirect := false, half := true })
  else if ch = ';' then (.cut, { s with redirect := false })
  else if ch = '&' ∧ ¬(next = some '>' ∨ s.redirect) then (.cut, { s with redirect := false })
  else (.kept, { s with redirect := ch == '>' })

/-- One character outside quotes and its place among the separators. -/
def Scan.bare (s : Scan) (ch : Char) (next : Option Char) : CutMark × Scan :=
  let t := { s with redirect := false }
  if s.half then (.second, { t with half := false })
  else if ch = '\x60' then (.kept, { t with backtick := !s.backtick })
  else if s.backtick then (.kept, t)
  else if ch = '(' then (.kept, { t with paren := s.paren + 1 })
  else if ch = ')' then (.kept, { t with paren := s.paren - 1 })
  else if s.paren > 0 then (.kept, t)
  else s.top ch next

def Scan.read (s : Scan) (ch : Char) (role : Role) (next : Option Char) : CutMark × Scan :=
  match role with
  | .bare => s.bare ch next
  | _ => (.kept, { s with redirect := false })

/-- The separators outside quotes and backticks at depth zero. -/
def separators (s : Scan) : List (Char × Role) → List (Char × CutMark)
  | [] => []
  | (ch, role) :: rest =>
    (ch, (s.read ch role (rest.head?.map Prod.fst)).1) ::
      separators (s.read ch role (rest.head?.map Prod.fst)).2 rest

/-! ## The cuts -/

section Split
variable (env : GuardEnv)

/-- One character of `split_subcommands` where nothing is open. -/
def SplitState.top (st : SplitState) (ch : Char) (rest : Text) : CutMark × SplitState :=
  if (ch = '&' ∨ ch = '|') ∧ rest.head? = some ch then (.cut, st.cut ch true)
  else if ch = ';' then (.cut, st.cut ch false)
  else if ch = '&' ∧ ¬(rest.head? = some '>' ∨ st.prev = some '>') then (.cut, st.cut ch false)
  else (.kept, st.push ch)

/-- One character of `split_subcommands`. -/
def SplitState.read (st : SplitState) (ch : Char) (rest : Text) : CutMark × SplitState :=
  if st.half then (.second, { st with prev := some ch, half := false })
  else if st.skip > 0 then (.kept, { st.push ch with skip := st.skip - 1 })
  else if st.quote.isSome then
    (.kept, { st.push ch with quote := if st.quote = some ch then none else st.quote })
  else if ch = '\x27' ∨ ch = '\x22' then (.kept, { st.push ch with quote := some ch })
  else if ch = '\x60' then (.kept, { st.push ch with backtick := !st.backtick })
  else if st.backtick then (.kept, st.push ch)
  else if ch = '<' ∧ rest.head? = some '<' then
    (.kept, { st.push ch with
      skip := ((heredocLength env (rest.drop 1)).map (· + 1)).getD 0 })
  else if ch = '(' then (.kept, { st.push ch with paren := st.paren + 1 })
  else if ch = ')' ∧ st.paren > 0 then (.kept, { st.push ch with paren := st.paren - 1 })
  else if st.paren > 0 then (.kept, st.push ch)
  else st.top ch rest

/-- Where the splitter cuts. -/
def splitMarks (st : SplitState) : Text → List (Char × CutMark)
  | [] => []
  | ch :: rest => (ch, (st.read env ch rest).1) :: splitMarks (st.read env ch rest).2 rest

/-- The texts between the cuts. -/
def partsOf (cur : Text) : List (Char × CutMark) → List Text
  | [] => [cur]
  | (ch, .kept) :: rest => partsOf (cur ++ [ch]) rest
  | (_, .cut) :: rest => cur :: partsOf [] rest
  | (_, .second) :: rest => partsOf cur rest

/-- What is put out in front of the rest. -/
def SplitState.out (st : SplitState) : CutMark → List Text
  | .cut => [st.cur]
  | _ => []

theorem splitFrom_cons (st : SplitState) (ch : Char) (rest : Text) :
    splitFrom env st (ch :: rest) =
      st.out (st.read env ch rest).1 ++ splitFrom env (st.read env ch rest).2 rest := by
  have branch : ∀ {c : Prop} [Decidable c] {x y : List Text} {p q : CutMark × SplitState},
      x = st.out p.1 ++ splitFrom env p.2 rest → y = st.out q.1 ++ splitFrom env q.2 rest →
        (if c then x else y) = st.out (if c then p else q).1 ++
          splitFrom env (if c then p else q).2 rest := by
    intro c _ x y p q hp hq
    split
    · exact hp
    · exact hq
  rw [splitFrom, SplitState.read, SplitState.top]
  -- one branch after the other, as the source has them
  exact branch rfl (branch rfl (branch rfl (branch rfl (branch rfl (branch rfl (branch rfl
    (branch rfl (branch rfl (branch rfl (branch rfl (branch rfl (branch rfl rfl))))))))))))

/-- The text since the last cut. -/
def SplitState.Follows (st : SplitState) (ch : Char) (p : CutMark × SplitState) : Prop :=
  p.2.cur = match p.1 with
    | .kept => st.cur ++ [ch]
    | .cut => []
    | .second => st.cur

theorem read_cur (st : SplitState) (ch : Char) (rest : Text) :
    SplitState.Follows st ch (st.read env ch rest) := by
  have branch : ∀ {c : Prop} [Decidable c] {p q : CutMark × SplitState},
      SplitState.Follows st ch p → SplitState.Follows st ch q →
        SplitState.Follows st ch (if c then p else q) := by
    intro c _ p q hp hq
    split
    · exact hp
    · exact hq
  rw [SplitState.read, SplitState.top]
  exact branch rfl (branch rfl (branch rfl (branch rfl (branch rfl (branch rfl (branch rfl
    (branch rfl (branch rfl (branch rfl (branch rfl (branch rfl (branch rfl rfl))))))))))))

theorem splitFrom_marks (st : SplitState) (text : Text) :
    splitFrom env st text = partsOf st.cur (splitMarks env st text) := by
  induction text generalizing st with
  | nil => rw [splitFrom, splitMarks, partsOf]
  | cons ch rest ih =>
    rw [splitFrom_cons, splitMarks, ih, read_cur env st ch rest]
    cases (st.read env ch rest).1 <;> rfl

end Split

/-! ## Nothing is lost -/

/-- The characters that belong to no separator. -/
def keptText (marks : List (Char × CutMark)) : Text := (marks.filter (·.2 = .kept)).map Prod.fst

theorem partsOf_flatten (cur : Text) (marks : List (Char × CutMark)) :
    (partsOf cur marks).flatten = cur ++ keptText marks := by
  induction marks generalizing cur with
  | nil => rfl
  | cons m rest ih =>
    obtain ⟨ch, mark⟩ := m
    cases mark with
    | kept =>
      rw [partsOf, ih, List.append_assoc]
      rfl
    | cut =>
      rw [partsOf, List.flatten_cons, ih]
      rfl
    | second =>
      rw [partsOf, ih]
      rfl

/-- `c` is no white space. -/
def inked (c : Char) : Bool := !isSpace c

theorem strip_inked (t : Text) : (strip t).filter inked = t.filter inked := by
  obtain ⟨a, b, heq, ha, hb⟩ := strip_decomp t
  have hnone : ∀ u : Text, (∀ c ∈ u, isSpace c = true) → u.filter inked = [] := by
    intro u hu
    refine List.filter_eq_nil_iff.mpr fun c hc => ?_
    rw [inked, hu c hc]
    decide
  conv_rhs => rw [heq, List.filter_append, List.filter_append, hnone a ha, hnone b hb]
  simp

theorem flatten_inked (parts : List Text) :
    ((parts.map strip).filter (· ≠ [])).flatten.filter inked = parts.flatten.filter inked := by
  induction parts with
  | nil => rfl
  | cons p parts ih =>
    rw [List.flatten_cons, List.filter_append, ← strip_inked p, ← ih, List.map_cons]
    by_cases hempty : strip p = []
    · simp [hempty]
    · simp [hempty]

/-! ## Escapes that mislead -/

/-- A single `&` that is no `&>` comes next. -/
def ampersandNext : Text → Bool
  | '&' :: rest => rest.head? != some '&' && rest.head? != some '>'
  | _ => false

/-- The mark of a quotation. -/
def QuoteMode.mark : QuoteMode → Option Char
  | .bare => none
  | .single => some '\x27'
  | .double => some '\x22'

section Agreement
variable (env : GuardEnv)

/-- The splitter passes over a text that it takes for a heredoc. -/
def opensHeredoc (ch : Char) (rest : Text) : Bool :=
  ch == '<' && rest.head? == some '<' && (heredocLength env (rest.drop 1)).isSome

/-- What the splitter does not only pass over outside quotes. -/
def acts (s : Scan) (ch : Char) (rest : Text) : Bool :=
  ch == '\x27' || ch == '\x22' || ch == '\x60' ||
    !s.backtick && (opensHeredoc env ch rest || ch == '(' || ch == ')' && decide (0 < s.paren) ||
      s.paren == 0 && (ch == ';' || ch == '&' && rest.head? != some '>' ||
        ch == '|' && rest.head? == some '|' || ch == '>' && ampersandNext rest))

/-- The splitter reads the character as the tokenizer does. -/
def readAlike (s : Scan) (ch : Char) (rest : Text) : Role → Bool
  | .escaped => !acts env s ch rest
  | .quotedEscaped => ch != '\x22'
  | .bare => s.backtick || !opensHeredoc env ch rest
  | _ => true

/-- No escape misleads the splitter, and it takes nothing for a heredoc. -/
def unmisled (s : Scan) : List (Char × Role) → Bool
  | [] => true
  | (ch, role) :: rest =>
    readAlike env s ch (rest.map Prod.fst) role &&
      unmisled (s.read ch role (rest.head?.map Prod.fst)).2 rest

/-- The splitter and the separators of the tokenizer stand alike. -/
structure Same (mode : QuoteMode) (s : Scan) (st : SplitState) (text : Text) : Prop where
  quote : st.quote = mode.mark
  backtick : st.backtick = s.backtick
  paren : st.paren = s.paren
  half : st.half = s.half
  skip : st.skip = 0
  second : s.half = true → mode = .bare ∧ (text.head? = some '&' ∨ text.head? = some '|')
  redirect : mode = .bare → s.backtick = false → s.paren = 0 → ampersandNext text = true →
    (st.prev = some '>' ↔ s.redirect = true)

theorem SplitState.push_bare {st : SplitState} {ch : Char} (hquote : st.quote = none) :
    st.push ch = { st.push ch with quote := QuoteMode.bare.mark } := by
  show st.push ch = { st.push ch with quote := none }
  rw [← hquote]
  rfl

theorem read_quoted {st : SplitState} {q ch : Char} {rest : Text} (hhalf : st.half = false)
    (hskip : st.skip = 0) (hquote : st.quote = some q) :
    st.read env ch rest =
      (.kept, { st.push ch with quote := if some q = some ch then none else some q }) := by
  rw [SplitState.read, if_neg (by simp [hhalf]), if_neg (by simp [hskip]),
    if_pos (by simp [hquote]), hquote]

theorem read_opens {st : SplitState} {ch : Char} {rest : Text} (hhalf : st.half = false)
    (hskip : st.skip = 0) (hquote : st.quote = none) (hch : ch = '\x27' ∨ ch = '\x22') :
    st.read env ch rest = (.kept, { st.push ch with quote := some ch }) := by
  rw [SplitState.read, if_neg (by simp [hhalf]), if_neg (by simp [hskip]),
    if_neg (by simp [hquote]), if_pos hch]

theorem skip_of_not_heredoc {ch : Char} {rest : Text} (h : opensHeredoc env ch rest = false)
    (hopens : ch = '<' ∧ rest.head? = some '<') :
    ((heredocLength env (rest.drop 1)).map (· + 1)).getD 0 = 0 := by
  rw [opensHeredoc, hopens.1, hopens.2] at h
  have hnone : heredocLength env (rest.drop 1) = none := by
    simpa using h
  rw [hnone]
  rfl

theorem read_passive {s : Scan} {st : SplitState} {ch : Char} {rest : Text}
    (h : Same .bare s st (ch :: rest)) (hhalf : s.half = false)
    (hacts : acts env s ch rest = false) : st.read env ch rest = (.kept, st.push ch) := by
  have hquote : st.quote = none := h.quote
  simp only [acts, Bool.or_eq_false_iff, beq_eq_false_iff_ne, Bool.and_eq_false_imp,
    Bool.not_eq_true', beq_iff_eq, bne_eq_false_iff_eq, decide_eq_false_iff_not] at hacts
  obtain ⟨⟨⟨hsingle, hdouble⟩, htick⟩, hbare⟩ := hacts
  rw [SplitState.read, if_neg (by simp [h.half, hhalf]), if_neg (by simp [h.skip]),
    if_neg (by simp [hquote]), if_neg (by simp [hsingle, hdouble]), if_neg htick]
  by_cases hback : s.backtick = true
  · rw [if_pos (h.backtick.trans hback)]
  · have hoff := Bool.eq_false_iff.mpr hback
    obtain ⟨⟨⟨hdoc, hopen⟩, hclose⟩, hsep⟩ := hbare hoff
    rw [if_neg (by simp [h.backtick, hoff])]
    by_cases hopens : ch = '<' ∧ rest.head? = some '<'
    · rw [if_pos hopens, skip_of_not_heredoc env hdoc hopens, ← h.skip]
      rfl
    · rw [if_neg hopens, if_neg hopen, if_neg (by rw [h.paren]; exact fun hc => hclose hc.1 hc.2)]
      by_cases hdeep : s.paren = 0
      · obtain ⟨⟨⟨hsemi, hamp⟩, hpipe⟩, -⟩ := hsep hdeep
        have htwo : ¬ ((ch = '&' ∨ ch = '|') ∧ rest.head? = some ch) := by
          rintro ⟨rfl | rfl, hhead⟩
          · rw [hamp rfl] at hhead
            cases hhead
          · exact hpipe rfl hhead
        have hone : ¬ (ch = '&' ∧ ¬ (rest.head? = some '>' ∨ st.prev = some '>')) :=
          fun hc => hc.2 (.inl (hamp hc.1))
        rw [if_neg (by simp [h.paren, hdeep]), SplitState.top, if_neg htwo, if_neg hsemi,
          if_neg hone]
      · rw [if_pos (by rw [h.paren]; exact Nat.pos_of_ne_zero hdeep)]

/-! ## One character -/

theorem Same.pass {mode mode' : QuoteMode} {s : Scan} {st : SplitState} {ch : Char} {rest : Text}
    (h : Same mode s st (ch :: rest)) (hhalf : s.half = false)
    (hredirect : mode' = .bare → s.backtick = false → s.paren = 0 → ch = '>' →
      ampersandNext rest = false) :
    Same mode' { s with redirect := false } { st.push ch with quote := mode'.mark } rest := by
  refine ⟨rfl, h.backtick, h.paren, h.half, h.skip, fun hs => ?_, fun hbare hback hdeep hnext => ?_⟩
  · exact absurd (hhalf.symm.trans hs) Bool.false_ne_true
  · refine iff_of_false (fun hprev => ?_) Bool.false_ne_true
    have := hredirect hbare hback hdeep (Option.some.inj hprev)
    exact absurd (this.symm.trans hnext) Bool.false_ne_true

theorem Same.of_prev {s : Scan} {st : SplitState} {ch : Char} {rest : Text}
    (hquote : st.quote = none) (hback : st.backtick = s.backtick) (hparen : st.paren = s.paren)
    (hhalf : st.half = s.half) (hskip : st.skip = 0) (hprev : st.prev = some ch)
    (hsecond : s.half = true → rest.head? = some '&' ∨ rest.head? = some '|')
    (hredirect : s.backtick = false → s.paren = 0 → s.redirect = (ch == '>')) :
    Same .bare s st rest := by
  refine ⟨hquote, hback, hparen, hhalf, hskip, fun hs => ⟨rfl, hsecond hs⟩, ?_⟩
  intro _ hoff hzero _
  rw [hprev, hredirect hoff hzero, Option.some.injEq, beq_iff_eq]

theorem beq_gt_of_eq {ch c : Char} (h : ch = c) (hc : c ≠ '>') : false = (ch == '>') := by
  rw [h]
  exact (beq_eq_false_iff_ne.mpr hc).symm

theorem read_top {s : Scan} {st : SplitState} {ch : Char} {rest : Text}
    (h : Same .bare s st (ch :: rest)) (hhalf : s.half = false) (hback : s.backtick = false)
    (hzero : s.paren = 0) :
    (st.top ch rest).1 = (s.top ch rest.head?).1 ∧
      Same .bare (s.top ch rest.head?).2 (st.top ch rest).2 rest := by
  rw [SplitState.top, Scan.top]
  have hwhole : ∀ {P : Prop}, s.half = true → P := fun hs =>
    absurd (hhalf.symm.trans hs) Bool.false_ne_true
  by_cases htwo : (ch = '&' ∨ ch = '|') ∧ rest.head? = some ch
  · rw [if_pos htwo, if_pos htwo]
    refine ⟨rfl, Same.of_prev h.quote h.backtick h.paren rfl h.skip rfl (fun _ => ?_) fun _ _ => ?_⟩
    · rw [htwo.2]
      exact htwo.1.imp (congrArg some) (congrArg some)
    · exact htwo.1.elim (fun hc => beq_gt_of_eq hc (by decide))
        fun hc => beq_gt_of_eq hc (by decide)
  by_cases hsemi : ch = ';'
  · rw [if_neg htwo, if_neg htwo, if_pos hsemi, if_pos hsemi]
    exact ⟨rfl, Same.of_prev h.quote h.backtick h.paren hhalf.symm h.skip rfl hwhole
      fun _ _ => beq_gt_of_eq hsemi (by decide)⟩
  -- the splitter looks at the character in front, whether it is escaped or not
  have hlone : (ch = '&' ∧ ¬ (rest.head? = some '>' ∨ st.prev = some '>')) ↔
      (ch = '&' ∧ ¬ (rest.head? = some '>' ∨ s.redirect = true)) := by
    refine and_congr_right fun hamp => not_congr (or_congr_right' fun hgt => ?_)
    refine h.redirect rfl hback hzero ?_
    have hsingle : rest.head? ≠ some '&' := fun hand => htwo ⟨.inl hamp, by rw [hamp, hand]⟩
    simp [hamp, ampersandNext, hsingle, hgt]
  by_cases hamp : ch = '&' ∧ ¬ (rest.head? = some '>' ∨ s.redirect = true)
  · rw [if_neg htwo, if_neg htwo, if_neg hsemi, if_neg hsemi, if_pos (hlone.mpr hamp), if_pos hamp]
    exact ⟨rfl, Same.of_prev h.quote h.backtick h.paren hhalf.symm h.skip rfl hwhole
      fun _ _ => beq_gt_of_eq hamp.1 (by decide)⟩
  · rw [if_neg htwo, if_neg htwo, if_neg hsemi, if_neg hsemi, if_neg fun hc => hamp (hlone.mp hc),
      if_neg hamp]
    exact ⟨rfl, Same.of_prev h.quote h.backtick h.paren h.half h.skip rfl hwhole fun _ _ => rfl⟩

theorem read_bare {s : Scan} {st : SplitState} {ch : Char} {rest : Text}
    (h : Same .bare s st (ch :: rest)) (hmarks : ¬ (ch = '\x27' ∨ ch = '\x22'))
    (hdoc : s.backtick = true ∨ opensHeredoc env ch rest = false) :
    (st.read env ch rest).1 = (s.bare ch rest.head?).1 ∧
      Same .bare (s.bare ch rest.head?).2 (st.read env ch rest).2 rest := by
  have hquote : st.quote = none := h.quote
  rw [SplitState.read, Scan.bare]
  dsimp only
  by_cases hhalf : s.half = true
  · rw [if_pos (h.half.trans hhalf), if_pos hhalf]
    refine ⟨rfl, Same.of_prev hquote h.backtick h.paren rfl h.skip rfl nofun fun _ _ => ?_⟩
    exact (h.second hhalf).2.elim (fun hc => beq_gt_of_eq (Option.some.inj hc) (by decide))
      fun hc => beq_gt_of_eq (Option.some.inj hc) (by decide)
  have hwhole : ∀ {P : Prop}, s.half = true → P := fun hs => absurd hs hhalf
  have hoff : ¬ st.half = true := fun hs => hhalf (h.half.symm.trans hs)
  rw [if_neg hoff, if_neg hhalf, if_neg (by simp [h.skip]), if_neg (by simp [hquote]),
    if_neg hmarks]
  by_cases htick : ch = '\x60'
  · rw [if_pos htick, if_pos htick]
    exact ⟨rfl, Same.of_prev hquote (congrArg (! ·) h.backtick) h.paren h.half h.skip rfl hwhole
      fun _ _ => beq_gt_of_eq htick (by decide)⟩
  rw [if_neg htick, if_neg htick]
  by_cases hback : s.backtick = true
  · rw [if_pos (h.backtick.trans hback), if_pos hback]
    exact ⟨rfl, Same.of_prev hquote h.backtick h.paren h.half h.skip rfl hwhole
      fun hopen => absurd (hopen.symm.trans hback) Bool.false_ne_true⟩
  rw [if_neg fun hs => hback (h.backtick.symm.trans hs), if_neg hback]
  have htop := read_top h (Bool.eq_false_iff.mpr hhalf) (Bool.eq_false_iff.mpr hback)
  by_cases hopens : ch = '<' ∧ rest.head? = some '<'
  · have hskip := skip_of_not_heredoc env (hdoc.resolve_left hback) hopens
    rw [if_pos hopens, if_neg (by simp [hopens.1]), if_neg (by simp [hopens.1])]
    by_cases hdeep : s.paren > 0
    · rw [if_pos hdeep]
      exact ⟨rfl, Same.of_prev hquote h.backtick h.paren h.half hskip rfl hwhole
        fun _ hzero => absurd hzero hdeep.ne'⟩
    · rw [if_neg hdeep, Scan.top, if_neg (by simp [hopens.1]), if_neg (by simp [hopens.1]),
        if_neg (by simp [hopens.1])]
      exact ⟨rfl, Same.of_prev hquote h.backtick h.paren h.half hskip rfl hwhole fun _ _ => rfl⟩
  rw [if_neg hopens]
  by_cases hopen : ch = '('
  · rw [if_pos hopen, if_pos hopen]
    exact ⟨rfl, Same.of_prev hquote h.backtick (congrArg (· + 1) h.paren) h.half h.skip rfl hwhole
      fun _ hzero => absurd hzero (Nat.succ_ne_zero _)⟩
  rw [if_neg hopen, if_neg hopen]
  by_cases hzero : s.paren = 0
  · have hflat : ¬ st.paren > 0 := by
      rw [h.paren, hzero]
      exact Nat.lt_irrefl 0
    rw [if_neg fun hc => hflat hc.2, if_neg hflat]
    by_cases hclose : ch = ')'
    · rw [if_pos hclose, SplitState.top, if_neg (by simp [hclose]), if_neg (by simp [hclose]),
        if_neg (by simp [hclose])]
      refine ⟨rfl, Same.of_prev hquote h.backtick ?_ h.half h.skip rfl hwhole
        fun _ _ => beq_gt_of_eq hclose (by decide)⟩
      show st.paren = s.paren - 1
      rw [h.paren, hzero]
    · rw [if_neg hclose, if_neg (show ¬ s.paren > 0 from hzero ▸ Nat.lt_irrefl 0)]
      exact htop hzero
  · have hdeep : s.paren > 0 := Nat.pos_of_ne_zero hzero
    have hdeep' : st.paren > 0 := h.paren ▸ hdeep
    by_cases hclose : ch = ')'
    · rw [if_pos ⟨hclose, hdeep'⟩, if_pos hclose]
      exact ⟨rfl, Same.of_prev hquote h.backtick (congrArg (· - 1) h.paren) h.half h.skip rfl hwhole
        fun _ _ => beq_gt_of_eq hclose (by decide)⟩
    · rw [if_neg fun hc => hclose hc.1, if_neg hclose, if_pos hdeep', if_pos hdeep]
      exact ⟨rfl, Same.of_prev hquote h.backtick h.paren h.half h.skip rfl hwhole
        fun _ hflat => absurd hflat hzero⟩

/-! ## The whole command -/

theorem roles_head (mode : QuoteMode) (text : Text) :
    (roles mode text).head?.map Prod.fst = text.head? := by
  rw [← List.head?_map, roles_text]

theorem Same.whole {mode : QuoteMode} {s : Scan} {st : SplitState} {ch : Char} {rest : Text}
    (h : Same mode s st (ch :: rest)) (hch : mode ≠ .bare ∨ ch ≠ '&' ∧ ch ≠ '|') :
    s.half = false := by
  refine Bool.eq_false_iff.mpr fun hhalf => ?_
  obtain ⟨hbare, hhead⟩ := h.second hhalf
  rcases hch with hmode | ⟨hand, hbar⟩
  · exact hmode hbare
  · exact hhead.elim (fun hc => hand (Option.some.inj hc)) fun hc => hbar (Option.some.inj hc)

theorem acts_gt {s : Scan} {ch : Char} {rest : Text} (h : acts env s ch rest = false)
    (hback : s.backtick = false) (hzero : s.paren = 0) (hgt : ch = '>') :
    ampersandNext rest = false := by
  have hboth : opensHeredoc env '>' rest = false ∧ ampersandNext rest = false := by
    simpa [acts, hback, hzero, hgt] using h
  exact hboth.2

theorem splitMarks_kept {mode : QuoteMode} (mode' : QuoteMode) {s : Scan} {st : SplitState}
    {ch : Char} {rest : Text} {role : Role} {more : List (Char × Role)} (h : Same mode s st (ch :: rest))
    (hwhole : s.half = false) (hrole : role ≠ .bare)
    (hread : st.read env ch rest = (.kept, { st.push ch with quote := mode'.mark }))
    (hredirect : mode' = .bare → s.backtick = false → s.paren = 0 → ch = '>' →
      ampersandNext rest = false)
    (hsafe : unmisled env s ((ch, role) :: more) = true)
    (hmore : ∀ {s : Scan} {st : SplitState}, Same mode' s st rest → s.half = false →
      unmisled env s more = true → splitMarks env st rest = separators s more) :
    splitMarks env st (ch :: rest) = separators s ((ch, role) :: more) := by
  have hscan : ∀ next, s.read ch role next = (.kept, { s with redirect := false }) := by
    intro next
    cases role with
    | bare => exact absurd rfl hrole
    | _ => rfl
  rw [unmisled, Bool.and_eq_true, hscan] at hsafe
  rw [splitMarks, separators, hread, hscan, hmore (h.pass hwhole hredirect) hwhole hsafe.2]

theorem splitMarks_eq {mode : QuoteMode} {text : Text} {s : Scan} {st : SplitState}
    (h : Same mode s st text) (hsafe : unmisled env s (roles mode text) = true) :
    splitMarks env st text = separators s (roles mode text) := by
  induction mode, text using roles.induct generalizing s st with
  | case1 mode => rw [roles, splitMarks, separators]
  | case2 rest ih =>
    have hwhole := h.whole (.inl nofun)
    rw [roles, if_pos rfl] at hsafe ⊢
    refine splitMarks_kept env .bare h hwhole nofun ?_ (fun _ _ _ hgt => absurd hgt (by decide))
      hsafe fun h _ => ih h
    rw [read_quoted env (h.half.trans hwhole) h.skip h.quote, if_pos rfl]
    rfl
  | case3 ch rest hne ih =>
    have hwhole := h.whole (.inl nofun)
    rw [roles, if_neg hne] at hsafe ⊢
    refine splitMarks_kept env .single h hwhole nofun ?_ nofun hsafe fun h _ => ih h
    rw [read_quoted env (h.half.trans hwhole) h.skip h.quote,
      if_neg fun heq => hne (Option.some.inj heq).symm]
    rfl
  | case4 d rest hd ih =>
    have hwhole := h.whole (.inl nofun)
    rw [roles, if_pos hd] at hsafe ⊢
    refine splitMarks_kept env .double h hwhole nofun ?_ nofun hsafe fun h hwhole hsafe => ?_
    · rw [read_quoted env (h.half.trans hwhole) h.skip h.quote, if_neg (by decide)]
      rfl
    · refine splitMarks_kept env .double h hwhole nofun ?_ nofun hsafe fun h _ => ih h
      rw [unmisled, Bool.and_eq_true, readAlike, bne_iff_ne] at hsafe
      rw [read_quoted env (h.half.trans hwhole) h.skip h.quote,
        if_neg fun heq => hsafe.1 (Option.some.inj heq).symm]
      rfl
  | case5 d rest hd ih =>
    have hwhole := h.whole (.inl nofun)
    rw [roles, if_neg hd] at hsafe ⊢
    refine splitMarks_kept env .double h hwhole nofun ?_ nofun hsafe fun h _ => ih h
    rw [read_quoted env (h.half.trans hwhole) h.skip h.quote, if_neg (by decide)]
    rfl
  | case6 rest hlone ih =>
    have hwhole := h.whole (.inl nofun)
    have hroles : roles .double ('\x22' :: rest) = ('\x22', .closes) :: roles .bare rest := by
      simp [roles]
    rw [hroles] at hsafe ⊢
    refine splitMarks_kept env .bare h hwhole nofun ?_ (fun _ _ _ hgt => absurd hgt (by decide))
      hsafe fun h _ => ih h
    rw [read_quoted env (h.half.trans hwhole) h.skip h.quote, if_pos rfl]
    rfl
  | case7 ch rest hlone hne ih =>
    have hwhole := h.whole (.inl nofun)
    have hroles : roles .double (ch :: rest) = (ch, .quoted) :: roles .double rest := by
      rw [roles, if_neg hne]
      exact hlone
    rw [hroles] at hsafe ⊢
    refine splitMarks_kept env .double h hwhole nofun ?_ nofun hsafe fun h _ => ih h
    rw [read_quoted env (h.half.trans hwhole) h.skip h.quote,
      if_neg fun heq => hne (Option.some.inj heq).symm]
    rfl
  | case8 d rest ih =>
    have hwhole := h.whole (.inr (by decide))
    have hpassive : st.read env '\\' (d :: rest) =
        (.kept, { st.push '\\' with quote := QuoteMode.bare.mark }) := by
      rw [read_passive env h hwhole (by simp [acts, opensHeredoc])]
      exact congrArg _ (SplitState.push_bare h.quote)
    rw [roles] at hsafe ⊢
    refine splitMarks_kept env .bare h hwhole nofun hpassive
      (fun _ _ _ hgt => absurd hgt (by decide)) hsafe fun {s st} h hwhole hsafe => ?_
    have hacts : acts env s d rest = false := by
      rw [unmisled, Bool.and_eq_true, readAlike, roles_text, Bool.not_eq_true'] at hsafe
      exact hsafe.1
    refine splitMarks_kept env .bare h hwhole nofun ?_ (fun _ => acts_gt env hacts) hsafe
      fun h _ => ih h
    rw [read_passive env h hwhole hacts]
    exact congrArg _ (SplitState.push_bare h.quote)
  | case9 rest hlone ih =>
    have hwhole := h.whole (.inr (by decide))
    have hroles : roles .bare ('\x27' :: rest) = ('\x27', .opens) :: roles .single rest := by
      simp [roles]
    rw [hroles] at hsafe ⊢
    refine splitMarks_kept env .single h hwhole nofun ?_ nofun hsafe fun h _ => ih h
    exact read_opens env (h.half.trans hwhole) h.skip h.quote (.inl rfl)
  | case10 rest hlone hne ih =>
    have hwhole := h.whole (.inr (by decide))
    have hroles : roles .bare ('\x22' :: rest) = ('\x22', .opens) :: roles .double rest := by
      simp [roles]
    rw [hroles] at hsafe ⊢
    refine splitMarks_kept env .double h hwhole nofun ?_ nofun hsafe fun h _ => ih h
    exact read_opens env (h.half.trans hwhole) h.skip h.quote (.inr rfl)
  | case11 rest hlone hsingle hdouble ih =>
    have hwhole := h.whole (.inr (by decide))
    have hroles : roles .bare ('\\' :: rest) = ('\\', .slash) :: roles .bare rest := by
      rw [roles, if_neg hsingle, if_neg hdouble, if_pos rfl]
      exact hlone
    rw [hroles] at hsafe ⊢
    refine splitMarks_kept env .bare h hwhole nofun ?_ (fun _ _ _ hgt => absurd hgt (by decide))
      hsafe fun h _ => ih h
    rw [read_passive env h hwhole (by simp [acts, opensHeredoc])]
    exact congrArg _ (SplitState.push_bare h.quote)
  | case12 ch rest hlone hsingle hdouble hslash ih =>
    have hroles : roles .bare (ch :: rest) = (ch, .bare) :: roles .bare rest := by
      rw [roles, if_neg hsingle, if_neg hdouble, if_neg hslash]
      exact hlone
    rw [hroles] at hsafe ⊢
    rw [unmisled, Bool.and_eq_true, readAlike, Bool.or_eq_true, Bool.not_eq_true', roles_text,
      roles_head] at hsafe
    obtain ⟨hmark, hsame⟩ := read_bare env h (fun hc => hc.elim hsingle hdouble) hsafe.1
    rw [splitMarks, separators, roles_head, ih hsame hsafe.2, hmark]
    rfl

/-- The splitter cuts exactly at the separators, it returns the texts between them, and every other
character that is no white space stands in the returned texts once and in order. -/
structure CutsAtSeparators (command : Text) : Prop where
  cuts : splitMarks env {} command = separators {} (roles .bare command)
  parts : splitSubcommands env command =
    ((partsOf [] (separators {} (roles .bare command))).map strip).filter (· ≠ [])
  once : (splitSubcommands env command).flatten.filter inked =
    (keptText (separators {} (roles .bare command))).filter inked

theorem cutsAtSeparators_of_cuts {command : Text}
    (h : splitMarks env {} command = separators {} (roles .bare command)) :
    CutsAtSeparators env command := by
  have hparts : splitSubcommands env command =
      ((partsOf [] (separators {} (roles .bare command))).map strip).filter (· ≠ []) := by
    rw [splitSubcommands, splitFrom_marks, h]
  refine ⟨h, hparts, ?_⟩
  rw [hparts, flatten_inked, partsOf_flatten, List.nil_append]

/-- **The splitter and the tokenizer.** Where no escape misleads the splitter, and nothing is taken
for a heredoc, it cuts exactly at the separators that the tokenizer sees outside quotes. -/
theorem split_agrees {command : Text} (h : unmisled env {} (roles .bare command) = true) :
    CutsAtSeparators env command := by
  refine cutsAtSeparators_of_cuts env (splitMarks_eq env ?_ h)
  exact ⟨rfl, rfl, rfl, rfl, rfl, nofun, fun _ _ _ _ => iff_of_false nofun nofun⟩

end Agreement

/-- Nothing resolves. -/
def unresolvedEnv : GuardEnv where
  lower_slash := id_slash
  resolve _ _ := none

/-- `echo a\ b && ls`: the escaped blank misleads nobody. -/
theorem split_agrees_blank : CutsAtSeparators unresolvedEnv "echo a\\ b && ls".toList ∧
    splitSubcommands unresolvedEnv "echo a\\ b && ls".toList =
      ["echo a\\ b".toList, "ls".toList] :=
  ⟨split_agrees unresolvedEnv (by decide), by decide⟩

/-- `echo \'; ls`: the quote mark is escaped, and the splitter waits for its end. -/
theorem split_misled_quote :
    ¬ CutsAtSeparators unresolvedEnv "echo \\'; ls".toList ∧
      splitSubcommands unresolvedEnv "echo \\'; ls".toList = ["echo \\'; ls".toList] ∧
      (separators {} (roles .bare "echo \\'; ls".toList)).filter (·.2 = .cut) = [(';', .cut)] := by
  have hone : splitSubcommands unresolvedEnv "echo \\'; ls".toList = ["echo \\'; ls".toList] := by
    decide
  refine ⟨fun h => ?_, hone, by decide⟩
  have hparts := h.parts
  rw [hone] at hparts
  exact absurd hparts (by decide)

end MiqroForge.Guard
