import MiqroForge.Guard.DeleteSound
import MiqroForge.Guard.Lines

/-!
Write redirections: an output redirection anywhere in a simple command, what the guard takes for
its target, and that a refused target refuses the command.
-/

namespace MiqroForge.Guard

open PyText ShellWords List

/-! ## The check of redirections -/

section Check
variable (env : GuardEnv) (rt : RuntimePaths)

/-- The target text behind an operator token, `attached` being the end of that token. -/
def targetText (attached : Text) (rest : List Token) : Option Text :=
  if attached ≠ [] then some attached else rest.head?.map Token.text

theorem checkRedirects_behind (strict : Bool) (ts : List Token) {us : List Token}
    (h : checkRedirects env rt strict us ≠ none) :
    checkRedirects env rt strict (ts ++ us) ≠ none := by
  induction ts with
  | nil => exact h
  | cons t ts ih =>
    rw [cons_append, checkRedirects]
    refine iteInduction (motive := (· ≠ none)) (fun _ => ih) (fun _ => ?_)
    split
    · exact ih
    · refine iteInduction (motive := (· ≠ none)) (fun _ => ih) (fun _ => ?_)
      dsimp only
      split
      · exact ih
      · iterate 2
          refine iteInduction (motive := (· ≠ none)) (fun _ => ih) (fun _ => ?_)
        refine iteInduction (motive := (· ≠ none)) (fun _ => ?_) (fun _ => ?_)
        · exact iteInduction (motive := (· ≠ none)) nofun (fun _ => ih)
        · split
          · exact fun h => by cases h
          · exact ih

theorem checkRedirects_refused (strict : Bool) {tok : Token} {us : List Token}
    {attached target : Text} (hquoted : tok.firstQuoted = false)
    (hescaped : tok.firstEscaped = false) (hmatch : redirectTarget tok.text = some attached)
    (hamp : attached.head? ≠ some '&') (htarget : targetText attached us = some target)
    (hne : stripQuotes target ≠ []) (hamp' : (stripQuotes target).head? ≠ some '&')
    (hparen : (stripQuotes target).head? ≠ some '(')
    (hdevice : stripQuotes target ∉ devNullTargets) {code : ReasonCode} {display : Text}
    (hrefused : classifyOperand env (stripQuotes target) rt true = .refused code display) :
    checkRedirects env rt strict (tok :: us) ≠ none := by
  have hskip : ¬((tok.quoted = true ∧ tok.firstQuoted = true) ∨ tok.firstEscaped = true) := by
    simp [hquoted, hescaped]
  have hempty : ¬(stripQuotes target = [] ∨ (stripQuotes target).head? = some '&') :=
    fun h => h.elim hne hamp'
  unfold targetText at htarget
  rw [checkRedirects, if_neg hskip, hmatch]
  dsimp only
  rw [if_neg hamp, htarget]
  dsimp only
  rw [if_neg hempty, if_neg hdevice, if_neg hparen, hrefused]
  exact fun h => by cases h

theorem checkSubcommand_redirect {sub : Text}
    (h : ∀ strict, checkRedirects env rt strict (tokenize sub) ≠ none) :
    checkSubcommand env rt sub ≠ none := by
  unfold checkSubcommand
  dsimp only
  refine iteInduction (motive := (· ≠ none)) nofun (fun _ => ?_)
  split
  · exact fun h => by cases h
  · rename_i hnone
    exact absurd hnone (h _)

end Check

/-! ## Operator tokens -/

/-- The word under construction began with a character that is neither quoted nor escaped. -/
structure WordBuf.BeginsBare (w : WordBuf) : Prop where
  seen : w.firstSeen = true
  quoted : w.firstQuoted = false
  escaped : w.firstEscaped = false

theorem WordBuf.BeginsBare.append {w : WordBuf} (h : w.BeginsBare) (c : Char) (q e : Bool) :
    (w.append c q e).BeginsBare := by
  refine ⟨rfl, ?_, ?_⟩
  · simp [WordBuf.append, h.seen, h.quoted]
  · simp [WordBuf.append, h.seen, h.escaped]

theorem WordBuf.BeginsBare.pieces {w : WordBuf} (h : w.BeginsBare) (ps : List Piece) :
    (ps.foldl readPiece w).BeginsBare := by
  refine foldlRecOn ps readPiece h fun w hw p _ => ?_
  cases p with
  | plain c hc => exact hw.append c false false
  | escaped c => exact hw.append c false true
  | single s hs =>
    have hopen : WordBuf.BeginsBare { w with sawQuote := true } := ⟨hw.seen, hw.quoted, hw.escaped⟩
    exact foldlRecOn s _ hopen fun w hw c _ => hw.append c true false
  | double items =>
    have hopen : WordBuf.BeginsBare { w with sawQuote := true } := ⟨hw.seen, hw.quoted, hw.escaped⟩
    refine foldlRecOn items _ hopen fun w hw item _ => ?_
    cases item with
    | plain c hc => exact hw.append c true false
    | escaped c hc => exact hw.append c true true
    | backslash c hc => exact (hw.append '\\' true false).append c true false

/-- The word under construction behind an operator. -/
def operatorBuf (t : Text) : WordBuf := t.foldl (fun w c => w.append c false false) {}

theorem operatorBuf_begins (c : Char) (t : Text) : (operatorBuf (c :: t)).BeginsBare := by
  have hstart : WordBuf.BeginsBare (WordBuf.append {} c false false) := ⟨rfl, rfl, rfl⟩
  exact foldlRecOn t _ hstart fun w hw d _ => hw.append d false false

theorem operatorBuf_buf (t : Text) : (operatorBuf t).buf = t := by
  have hfold : ∀ (t : Text) (w : WordBuf),
      (t.foldl (fun w c => w.append c false false) w).buf = w.buf ++ t := by
    intro t
    induction t with
    | nil => simp
    | cons c t ih =>
      intro w
      rw [foldl_cons, ih]
      simp [WordBuf.append]
  exact hfold t {}

theorem flush_operator (c : Char) (t : Text) {ps : List Piece}
    (hps : ∀ p ∈ ps, continuesLine p = false) :
    ∃ tok : Token, (ps.foldl readPiece (operatorBuf (c :: t))).flush = [tok] ∧
      tok.text = c :: t ++ ps.flatMap Piece.text ∧ tok.firstQuoted = false ∧
      tok.firstEscaped = false := by
  have hbuf := (foldl_readPiece (operatorBuf (c :: t)) hps).1
  rw [operatorBuf_buf] at hbuf
  have hbegins := (operatorBuf_begins c t).pieces ps
  have hne : (ps.foldl readPiece (operatorBuf (c :: t))).buf ≠ [] := by
    rw [hbuf]
    exact cons_ne_nil _ _
  exact ⟨_, if_pos (Or.inl hne), hbuf, hbegins.quoted, hbegins.escaped⟩

theorem redirectTarget_operator {fd : Text} (hfd : fd ∈ ["", "1", "2"].map String.toList)
    {op : Redirect} (hop : op ∈ [.output, .append, .both, .appendBoth]) {t : Text}
    (hgt : op ∈ [Redirect.output, .both] → t.head? ≠ some '>') (hnl : '\n' ∉ t.dropLast) :
    redirectTarget (fd ++ op.render ++ t) = some (t.takeWhile (· ≠ '\n')) := by
  have hend : atEnd (t.dropWhile (· ≠ '\n')) = true := by
    cases hdrop : t.dropWhile (· ≠ '\n') with
    | nil => rfl
    | cons c rest =>
      have hc : c = '\n' := by
        have h := head?_dropWhile_not (· ≠ '\n') t
        rw [hdrop] at h
        simpa using h
      have hrest : rest = [] := by
        by_contra hne
        apply hnl
        have htext : t = t.takeWhile (· ≠ '\n') ++ c :: rest := by
          rw [← hdrop, takeWhile_append_dropWhile]
        rw [htext, dropLast_append_of_ne_nil (cons_ne_nil _ _),
          dropLast_cons_of_ne_nil hne, hc]
        simp
      rw [hc, hrest]
      rfl
  have hbody : ∀ body : Text, body = '>' :: '>' :: t ∨ body = '>' :: t ∧ t.head? ≠ some '>' →
      redirectTarget body = some (t.takeWhile (· ≠ '\n')) := by
    rintro body (rfl | ⟨rfl, hhead⟩)
    · simpa [redirectTarget] using hend
    · cases t with
      | nil => rfl
      | cons c t =>
        have hc : c ≠ '>' := fun hc => hhead (by rw [hc]; rfl)
        simpa [redirectTarget, hc] using hend
  have hfds : fd = [] ∨ fd = ['1'] ∨ fd = ['2'] := by simpa using hfd
  have hskip : ∀ body : Text, body.head? = some '>' →
      redirectTarget (fd ++ body) = redirectTarget body ∧
        redirectTarget (fd ++ '&' :: body) = redirectTarget body := by
    intro body hbody
    cases body with
    | nil => cases hbody
    | cons c body =>
      have hc : c = '>' := Option.some.inj hbody
      subst hc
      rcases hfds with rfl | rfl | rfl <;> exact ⟨rfl, rfl⟩
  simp only [mem_cons, not_mem_nil, or_false] at hop hgt
  rw [append_assoc]
  rcases hop with rfl | rfl | rfl | rfl
  · exact ((hskip _ rfl).1).trans (hbody _ (Or.inr ⟨rfl, hgt (Or.inl rfl)⟩))
  · exact ((hskip _ rfl).1).trans (hbody _ (Or.inl rfl))
  · exact ((hskip ('>' :: t) rfl).2).trans (hbody _ (Or.inr ⟨rfl, hgt (Or.inr rfl)⟩))
  · exact ((hskip ('>' :: '>' :: t) rfl).2).trans (hbody _ (Or.inl rfl))

/-! ## An output redirection in a simple command -/

/-- An output redirection of a simple command: `fd` is its descriptor, and it is glued to its
target when `gap` is empty. -/
structure WriteRedirect where
  front : List Mark
  fd : Text
  op : Redirect
  gap : List Blank
  target : Word
  back : List Mark
  simple : ∀ m ∈ front ++ back, m.isSimple = true
  digits : ∀ c ∈ fd, c.isDigit = true
  writes : op ∈ [.output, .append, .clobber] ∨ fd = [] ∧ op ∈ [.both, .appendBoth]
  number : fd ≠ [] → ∀ m, front.getLast? = some m → m.isPiece = false
  ends : ∀ m, back.head? = some m → m.isPiece = false
  apart : Apart (front ++ (plainMarks fd ++ .redirect op :: blankMarks gap ++ target.marks) ++ back)

namespace WriteRedirect

/-- The marks of the redirection. -/
def marks (r : WriteRedirect) : List Mark :=
  plainMarks r.fd ++ .redirect r.op :: blankMarks r.gap ++ r.target.marks

def line (r : WriteRedirect) : Text := renderMarks (r.front ++ r.marks ++ r.back)

/-- What the splitter leaves in front of the redirection. -/
def part (r : WriteRedirect) : Part := partOf {} r.front

/-- The text of the target as the tokenizer gives it. -/
def shown (r : WriteRedirect) : Text :=
  (seen (exposedEnd (renderMarks r.back)) r.target).flatMap Piece.text

/-- The end of the operator token: `(.*)` reaches to the end of its line. -/
def attached (r : WriteRedirect) : Text :=
  if r.gap = [] then r.shown.takeWhile (· ≠ '\n') else []

/-- The text that the guard takes for the target. -/
def taken (r : WriteRedirect) : Text := if r.gap = [] then r.attached else r.shown

/-- The text that the guard classifies. -/
def read (r : WriteRedirect) : Text := stripQuotes r.taken

/-- Nothing misleads the guard about the redirection. -/
structure Clear (r : WriteRedirect) : Prop where
  /-- No escape is taken for a quote mark, a group, a separator or a here-document. -/
  splits : lineSafe r.back {} (r.front ++ r.marks) = true
  /-- No line continuation, and no white space but blanks. -/
  target : ∀ p ∈ r.target.pieces, readsAsShell p = true
  /-- The operator and its descriptor are glued to nothing, and the target only to them. -/
  left : ∀ m, r.part.marks.getLast? = some m → m.isSpace = true
  right : ∀ m, r.back.head? = some m → m.isSpace = true
  /-- `_REDIRECT_RE` knows the operator and the descriptor. -/
  known : r.op ≠ .clobber ∧ r.fd ∈ ["", "1", "2"].map String.toList
  /-- A glued target is no part of the operator and ends with its line. -/
  glued : r.gap = [] → (r.op ∈ [.output, .both] → r.shown.head? ≠ some '>') ∧
    '\n' ∉ r.shown.dropLast ∧ r.shown.head? ≠ some '&'
  /-- What is read is not passed over, and it is the target but for white space and quote marks
  at its ends. -/
  nonempty : r.read ≠ []
  starts : r.read.head? ≠ some '&' ∧ r.read.head? ≠ some '('
  same : r.read = r.target.text ∨
    r.read ∉ devNullTargets ∧ operandText r.read = operandText r.target.text

variable (r : WriteRedirect)

theorem depth_simple {ms : List Mark} (hms : ∀ m ∈ ms, m.isSimple = true) {p : Part}
    (hp : p.depth = 0) : (partOf p ms).depth = 0 := by
  induction ms generalizing p with
  | nil => exact hp
  | cons m ms ih =>
    refine ih (fun n hn => hms n (mem_cons_of_mem m hn)) ?_
    have hm := hms m mem_cons_self
    unfold Part.pass
    split
    · rfl
    · cases m with
      | atom a => exact hp
      | redirect op => exact hp
      | opening => cases hm
      | closing => cases hm

theorem digit_plain {c : Char} (hc : c.isDigit = true) : isPlain c = true := by
  have hnone : ∀ d ∈ " \t\n|&;<>()\\\x27\x22\x60".toList, d.isDigit = false :=
    forall_of_all (by decide)
  rw [isPlain, Bool.not_eq_true', Bool.eq_false_iff, ne_eq, contains_iff_mem]
  intro hbad
  rw [hnone c hbad] at hc
  cases hc

theorem digit_not_space {c : Char} (hc : c.isDigit = true) : isSpace c = false := by
  have hrange : 48 ≤ c.toNat ∧ c.toNat ≤ 57 := by
    simpa [Char.isDigit, UInt32.le_iff_toNat_le] using hc
  simp only [isSpace, Bool.or_eq_false_iff, Bool.and_eq_false_iff, decide_eq_false_iff_not,
    beq_eq_false_iff_ne]
  omega

theorem marks_stay : ∀ m ∈ r.marks, Mark.stays m = true := by
  have hop : r.op ≠ .dupInput := by
    intro h
    have hwrites := r.writes
    rw [h] at hwrites
    simp at hwrites
  intro m hm
  simp only [marks, mem_append, mem_cons] at hm
  rcases hm with (hm | rfl | hm) | hm
  · obtain ⟨c, -, hc⟩ := mem_filterMap.mp hm
    split at hc
    · cases hc
      rfl
    · cases hc
  · simpa [Mark.stays] using hop
  · obtain ⟨b, -, rfl⟩ := mem_map.mp hm
    rfl
  · exact word_stays r.target m hm

theorem part_marks : partOf {} (r.front ++ r.marks) =
    { r.part with marks := r.part.marks ++ r.marks } := by
  rw [partOf_append, partOf_stays _ r.marks_stay]
  rfl

/-- The descriptor and the operator. -/
def operator (r : WriteRedirect) : Text := r.fd ++ r.op.render

theorem operator_cons : ∃ c t, r.operator = c :: t := by
  have hop : ∃ c t, r.op.render = c :: t := by
    cases r.op <;> exact ⟨_, _, rfl⟩
  obtain ⟨c, t, hop⟩ := hop
  rw [operator, hop]
  cases r.fd with
  | nil => exact ⟨c, t, rfl⟩
  | cons d fd => exact ⟨d, fd ++ c :: t, rfl⟩

theorem render_marks : renderMarks r.marks =
    r.operator ++ renderMarks (blankMarks r.gap) ++ render r.target.atoms := by
  have hfd := render_plainMarks fun c hc => digit_plain (r.digits c hc)
  simp [marks, operator, hfd, Mark.render]

theorem reads_operator :
    Reads .bare {} r.operator [] .bare (operatorBuf r.operator) := by
  apply reads_bare
  intro c hc
  rcases mem_append.mp hc with hc | hc
  · have hplain := digit_plain (r.digits c hc)
    exact ⟨digit_not_space (r.digits c hc), char_ne hplain rfl, char_ne hplain rfl, char_ne hplain rfl⟩
  · exact redirect_bare r.op c hc

theorem taken_ne_nil (hclear : r.Clear) : r.taken ≠ [] := by
  intro h
  apply hclear.nonempty
  rw [read, h]
  rfl

theorem tokens_operator (hclear : r.Clear) {front : Text} {toks : List Token}
    (hfront : Reads .bare {} front toks .bare {}) {t : Text} (ht : SpaceFirst t)
    (hend : endsPart t = exposedEnd (renderMarks r.back)) :
    ∃ (tok : Token) (us : List Token),
      tokenize (strip (front ++ renderMarks r.marks ++ t)) = toks ++ tok :: us ∧
      tok.firstQuoted = false ∧ tok.firstEscaped = false ∧
      tok.text = r.operator ++ (if r.gap = [] then r.shown else []) ∧
      targetText r.attached us = some r.taken := by
  have hpiece : ∀ p ∈ r.target.pieces, staysWhole p = true ∧ continuesLine p = false :=
    fun p hp => (readsAsShell_iff p).mp (hclear.target p hp)
  have hwhole : ∀ p ∈ r.target.pieces, staysWhole p = true := fun p hp => (hpiece p hp).1
  have hseen : ∀ p ∈ seen (exposedEnd (renderMarks r.back)) r.target, continuesLine p = false :=
    fun p hp => (hpiece p (seen_subset _ _ hp)).2
  have hoperator := hfront.append r.reads_operator
  obtain ⟨c, s, hcons⟩ := r.operator_cons
  have htaken := r.taken_ne_nil hclear
  rw [render_marks]
  cases hgap : r.gap with
  | nil =>
    rw [taken, if_pos hgap] at htaken
    obtain ⟨more, htokens⟩ := tokenize_word r.target hoperator hwhole ht
    rw [hend] at htokens
    obtain ⟨tok, hflush, htext, hquoted, hescaped⟩ := flush_operator c s hseen
    refine ⟨tok, more, ?_, hquoted, hescaped, ?_, ?_⟩
    · have hline : front ++ (r.operator ++ renderMarks (blankMarks []) ++ render r.target.atoms) ++
          t = front ++ r.operator ++ render r.target.atoms ++ t := by
        simp [blankMarks]
      rw [hline, htokens, hcons, hflush]
      simp
    · rw [htext, hcons, if_pos rfl]
      rfl
    · rw [targetText, if_pos htaken, taken, if_pos hgap]
  | cons b bs =>
    have hne : r.gap ≠ [] := by simp [hgap]
    rw [taken, if_neg hne] at htaken
    have hpieces : seen (exposedEnd (renderMarks r.back)) r.target ≠ [] := by
      intro h
      rw [shown, h] at htaken
      exact htaken rfl
    have hblanks := hoperator.append (Target.reads_gap (operatorBuf r.operator) ⟨b, bs⟩)
    obtain ⟨more, htokens⟩ := tokenize_word r.target hblanks hwhole ht
    obtain ⟨tok, hflush, htext, hquoted, hescaped⟩ :=
      flush_operator c s (forall_mem_nil fun p => continuesLine p = false)
    obtain ⟨operand, hoperand, hshown, -⟩ := flush_wordBuf hpieces hseen
    have hbuf : (operatorBuf r.operator).flush = [tok] := by rwa [hcons]
    rw [hend] at htokens
    have hword : ((seen (exposedEnd (renderMarks r.back)) r.target).foldl readPiece {}).flush =
        [operand] := hoperand
    refine ⟨tok, operand :: more, ?_, hquoted, hescaped, ?_, ?_⟩
    · have hline : front ++ (r.operator ++ renderMarks (blankMarks (b :: bs)) ++
          render r.target.atoms) ++ t =
            front ++ r.operator ++ render (Gap.atoms ⟨b, bs⟩) ++ render r.target.atoms ++ t := by
        have hrender : renderMarks (blankMarks (b :: bs)) = render (Gap.atoms ⟨b, bs⟩) := by
          rw [← renderMarks_atoms]
          simp [blankMarks, Gap.atoms, Function.comp_def]
        rw [hrender]
        simp
      rw [hline, htokens, hbuf, hword]
      simp
    · rw [htext, hcons, if_neg (cons_ne_nil b bs)]
      simp
    · rw [targetText, attached, if_neg hne, if_neg (fun h => h rfl), taken, if_neg hne]
      exact congrArg some hshown

end WriteRedirect

/-- **Write redirections.** Where nothing misleads the guard about an output redirection, a simple
command is refused whenever the classifier refuses the target and it is no harmless device. -/
theorem redirect_refused (env : GuardEnv) (rt : RuntimePaths) (r : WriteRedirect)
    (hdevice : r.target.text ∉ devNullTargets) {code : ReasonCode} {display : Text}
    (hrefused : classifyOperand env r.target.text rt true = .refused code display)
    (hclear : r.Clear) : (evaluateCommand env r.line rt).allowed = false := by
  have hread : r.read ∉ devNullTargets ∧
      classifyOperand env r.read rt true = .refused code display := by
    rcases hclear.same with h | ⟨hnull, hsame⟩
    · rw [h]
      exact ⟨hdevice, hrefused⟩
    · refine ⟨hnull, ?_⟩
      rw [← hrefused, classifyOperand, classifyOperand, hsame]
  have hdepth : r.part.depth = 0 :=
    WriteRedirect.depth_simple (fun m hm => r.simple m (List.mem_append_left _ hm)) rfl
  have hends : EndsToken (partOf {} (r.front ++ r.marks)).depth r.back :=
    fun m hm => Or.inl (hclear.right m hm)
  obtain ⟨toks, hfront⟩ := reads_part hclear.left
  have hapart : Apart (r.front ++ r.marks ++ r.back) := r.apart
  obtain ⟨t, ht, hend, hsub⟩ := subcommand_at env hapart hclear.splits hends
  rw [r.part_marks] at hend hsub
  rw [renderMarks_append] at hsub
  obtain ⟨tok, us, htokens, hquoted, hescaped, htext, htarget⟩ :=
    r.tokens_operator hclear hfront ht (hend hdepth)
  have hwrites : r.op ∈ [.output, .append, .both, .appendBoth] := by
    have hclobber := hclear.known.1
    rcases r.writes with h | ⟨-, h⟩ <;> revert h hclobber <;> cases r.op <;> simp
  have hglued : (r.op ∈ [Redirect.output, .both] →
        (if r.gap = [] then r.shown else []).head? ≠ some '>') ∧
      '\n' ∉ (if r.gap = [] then r.shown else []).dropLast ∧ r.attached.head? ≠ some '&' := by
    by_cases hgap : r.gap = []
    · obtain ⟨hgt, hnl, hamp⟩ := hclear.glued hgap
      rw [if_pos hgap, WriteRedirect.attached, if_pos hgap]
      refine ⟨hgt, hnl, fun h => hamp ?_⟩
      cases hshown : r.shown with
      | nil => rw [hshown] at h; cases h
      | cons c s =>
        rw [hshown, List.takeWhile_cons] at h
        split at h
        · exact h
        · cases h
    · rw [if_neg hgap, WriteRedirect.attached, if_neg hgap]
      simp
  have hmatch : redirectTarget tok.text = some r.attached := by
    rw [htext, WriteRedirect.operator,
      redirectTarget_operator hclear.known.2 hwrites hglued.1 hglued.2.1, WriteRedirect.attached]
    split <;> rfl
  have hcheck : ∀ strict, checkRedirects env rt strict (toks ++ tok :: us) ≠ none := fun strict =>
    checkRedirects_behind env rt strict toks <|
      checkRedirects_refused env rt strict hquoted hescaped hmatch hglued.2.2 htarget
        hclear.nonempty hclear.starts.1 hclear.starts.2 hread.1 hread.2
  have hmem := hsub _ rfl fun hnil => by
    rw [hnil] at htokens
    have hempty : toks ++ tok :: us = [] := htokens.symm
    simp at hempty
  refine evaluateFrom_refused env rt _ hmem (checkSubcommand_redirect env rt fun strict => ?_) 0 []
  rw [htokens]
  exact hcheck strict

/-! ## Commands with redirections -/

/-- `make 2>>"/etc/f" all`. -/
def quotedRedirect : WriteRedirect where
  front := words "make "
  fd := ['2']
  op := .append
  gap := []
  target := ⟨[.double [.plain '/' rfl, .plain 'e' rfl, .plain 't' rfl, .plain 'c' rfl,
    .plain '/' rfl, .plain 'f' rfl]], List.cons_ne_nil _ _⟩
  back := words " all"
  simple := by decide
  digits := forall_of_all (by decide)
  writes := by decide
  number := by decide
  ends := by decide
  apart := by decide

theorem quotedRedirect_clear : quotedRedirect.Clear where
  splits := by decide
  target := by decide
  left := by decide
  right := by decide
  known := by decide
  glued := by decide
  nonempty := by decide
  starts := by decide
  same := Or.inl (by decide)

theorem quotedRedirect_refused :
    (evaluateCommand sandboxEnv quotedRedirect.line sandboxed).allowed = false := by
  have hrefused : classifyOperand sandboxEnv quotedRedirect.target.text sandboxed true =
      .refused .systemPath "/etc/f".toList := by decide
  exact redirect_refused sandboxEnv sandboxed quotedRedirect (by decide) hrefused
    quotedRedirect_clear

/-- A redirection to `/etc/f`. -/
def plainRedirect (front : String) (fd : Text) (op : Redirect)
    (simple : ∀ m ∈ words front ++ [], m.isSimple = true) (digits : ∀ c ∈ fd, c.isDigit = true)
    (writes : op ∈ [.output, .append, .clobber] ∨ fd = [] ∧ op ∈ [.both, .appendBoth])
    (number : fd ≠ [] → ∀ m, (words front).getLast? = some m → m.isPiece = false)
    (apart : Apart (words front ++ (plainMarks fd ++ .redirect op :: blankMarks [] ++
      (plainWord "/etc/f" (by decide)).marks) ++ [])) : WriteRedirect :=
  ⟨words front, fd, op, [], plainWord "/etc/f" (by decide), [], simple, digits, writes, number,
    fun m hm => (by cases hm), apart⟩

/-- An operator glued to a word, a descriptor beside 1 and 2, and `>|`. -/
def missedRedirects : List WriteRedirect :=
  [plainRedirect "echo x" [] .output (by decide) (forall_of_all (by decide)) (by decide)
     (by decide) (by decide),
   plainRedirect "echo x " ['3'] .output (by decide) (forall_of_all (by decide)) (by decide)
     (by decide) (by decide),
   plainRedirect "echo x " [] .clobber (by decide) (forall_of_all (by decide)) (by decide)
     (by decide) (by decide)]

theorem missedRedirects_allowed :
    missedRedirects.map WriteRedirect.line =
      ["echo x>/etc/f", "echo x 3>/etc/f", "echo x >|/etc/f"].map String.toList ∧
    ∀ r ∈ missedRedirects, r.target.text ∉ devNullTargets ∧
      classifyOperand sandboxEnv r.target.text sandboxed true =
        .refused .systemPath "/etc/f".toList ∧
      (evaluateCommand sandboxEnv r.line sandboxed).allowed = true := by
  constructor <;> decide

end MiqroForge.Guard
