import MiqroForge.Guard.Evaluate
import MiqroForge.Guard.Splitting
import MiqroForge.Guard.Tokenizing

/-!
Delete soundness of the command guard: a delete anywhere in a command line, what keeps the three
scanners on the side of the shell, and that the guard then refuses the line.
-/

namespace MiqroForge.Guard

open PyText ShellWords List

/-! ## From a refused operand to the verdict -/

section Verdict
variable (env : GuardEnv)

variable (rt : RuntimePaths)

theorem evaluateFrom_refused (all : List Text) {subs : List Text} {sub : Text}
    (hsub : sub ∈ subs) (hcheck : checkSubcommand env rt sub ≠ none) (idx : Nat)
    (handled : List Nat) : (evaluateFrom env rt all idx handled subs).allowed = false := by
  induction subs generalizing idx handled with
  | nil => cases hsub
  | cons first subs ih =>
    rw [evaluateFrom]
    cases h : checkSubcommand env rt first with
    | some refused => rfl
    | none =>
      rcases mem_cons.mp hsub with rfl | hsub
      · exact absurd h hcheck
      · exact ih hsub _ _

theorem findSome_ne_none {α β : Type} {f : α → Option β} {l : List α} {a : α} (ha : a ∈ l)
    (hf : f a ≠ none) : l.findSome? f ≠ none := by
  intro h
  exact hf (findSome?_eq_none_iff.mp h a ha)

theorem checkSubcommand_refused {sub : Text} {op : FileOp}
    (hop : op ∈ detectOps env (tokenize sub) (some sub)) (hcheck : checkOp env rt sub op ≠ none) :
    checkSubcommand env rt sub ≠ none := by
  have hops := findSome_ne_none hop hcheck
  unfold checkSubcommand
  dsimp only
  split
  · exact fun h => by cases h
  · split
    · exact fun h => by cases h
    · exact hops

theorem checkOp_delete (sub : Text) {op : FileOp} {tok : Token}
    (hkind : op.kind = .delete) (htok : tok ∈ op.operands) {code : ReasonCode} {display : Text}
    (hrefused : classifyOperand env tok.text rt true = .refused code display) :
    checkOp env rt sub op ≠ none := by
  have hremoved : ∀ desc policy rootPolicy,
      checkRemoved env rt desc policy rootPolicy tok ≠ none := by
    intro desc policy rootPolicy h
    rw [checkRemoved, hrefused] at h
    cases h
  unfold checkOp checkOpsOperands
  rw [hkind]
  exact findSome_ne_none htok (hremoved _ _ _)

/-! ## Detection -/

theorem positionsFrom_append (expect : Bool) (i : Nat) (ts us : List Token) :
    ∃ expect', positionsFrom expect i (ts ++ us) =
      positionsFrom expect i ts ++ positionsFrom expect' (i + ts.length) us := by
  induction ts generalizing expect i with
  | nil => exact ⟨expect, rfl⟩
  | cons tok ts ih =>
    have hlen : i + (tok :: ts).length = i + 1 + ts.length := by simp only [length_cons]; omega
    cases expect with
    | false =>
      obtain ⟨expect', h⟩ := ih (!tok.quoted && tok.text == ['|']) (i + 1)
      exact ⟨expect', by rw [hlen]; simpa [positionsFrom] using h⟩
    | true =>
      cases hassign : isAssignment tok.text with
      | true =>
        obtain ⟨expect', h⟩ := ih true (i + 1)
        exact ⟨expect', by rw [hlen]; simpa [positionsFrom, hassign] using h⟩
      | false =>
        obtain ⟨expect', h⟩ := ih false (i + 1)
        exact ⟨expect', by rw [hlen]; simpa [positionsFrom, hassign] using h⟩

/-- The last of the tokens names a command. -/
def LastIsCommand (tokens : List Token) : Prop :=
  tokens.length - 1 ∈ commandPositions tokens

theorem LastIsCommand.position {ts us : List Token} {tok : Token}
    (h : LastIsCommand (ts ++ [tok])) : ts.length ∈ commandPositions (ts ++ tok :: us) := by
  obtain ⟨expect, happend⟩ := positionsFrom_append true 0 (ts ++ [tok]) us
  have hlast : ts.length ∈ commandPositions (ts ++ [tok]) := by
    simpa [LastIsCommand] using h
  have htext : ts ++ tok :: us = (ts ++ [tok]) ++ us := by simp
  rw [htext, commandPositions, happend]
  exact mem_append_left _ hlast

theorem detectFrom_delete {positions : List Nat} {raw : Option Text} {tok : Token}
    (hname : tok.text ∈ deleteWords) (ts us : List Token) (i : Nat) (prev : Text)
    (hpos : tok.quoted = true → i + ts.length ∈ positions) :
    ⟨.delete, tok.text, operandsOf us (tok.text == "del".toList || tok.text == "rmdir".toList), []⟩
      ∈ detectFrom env positions raw i prev (ts ++ tok :: us) := by
  induction ts generalizing i prev with
  | nil =>
    rw [nil_append, detectFrom]
    apply mem_append_left
    rw [if_neg (fun h => h.2 (hpos h.1)), opsAt, if_pos hname]
    exact mem_singleton_self _
  | cons first ts ih =>
    rw [cons_append, detectFrom]
    apply mem_append_right
    apply ih
    intro hq
    have h := hpos hq
    rw [length_cons] at h
    rwa [Nat.add_right_comm, Nat.add_assoc]

theorem delete_checked (sub : Text) {ts us vs : List Token}
    {name operand : Token} (htokens : tokenize sub = ts ++ name :: (us ++ operand :: vs))
    (hname : name.text ∈ deleteWords)
    (hpos : name.quoted = false ∨ LastIsCommand (ts ++ [name]))
    (hflag : isFlag operand.text (name.text == "del".toList || name.text == "rmdir".toList) = false)
    (hangle : hasAngle operand.text = false) {code : ReasonCode} {display : Text}
    (hrefused : classifyOperand env operand.text rt true = .refused code display) :
    checkSubcommand env rt sub ≠ none := by
  have hposition : name.quoted = true → 0 + ts.length ∈ commandPositions (tokenize sub) := by
    intro hq
    rw [htokens, Nat.zero_add]
    rcases hpos with h | h
    · rw [h] at hq
      cases hq
    · exact h.position
  have hop : _ ∈ detectFrom env (commandPositions (tokenize sub)) (some sub) 0 []
      (ts ++ name :: (us ++ operand :: vs)) := detectFrom_delete env hname ts _ 0 [] hposition
  rw [← htokens] at hop
  refine checkSubcommand_refused env rt hop (checkOp_delete env rt sub rfl ?_ hrefused)
  apply mem_filter.mpr
  exact ⟨by simp, by rw [hflag, hangle]; rfl⟩

end Verdict

/-! ## A delete in a command line -/

/-- The command word passes over operands of the form `/x` as flags. -/
def dropsWindowsFlags (name : Text) : Bool := name == "del".toList || name == "rmdir".toList

/-- An operand of a simple command in a command line. `lead` holds what stands in front of the
command word: assignments, or a command that runs another one. -/
structure Target where
  before : List (Command × Sep)
  lead : List (Word × Gap)
  name : Word
  mid : List (Gap × Word)
  gap : Gap
  operand : Word
  later : List (Gap × Word)
  after : List (Sep × Command)

namespace Target

def command (t : Target) : Command :=
  Command.around t.lead t.name (t.mid ++ (t.gap, t.operand) :: t.later)

def line (t : Target) : Text := commandLine t.before t.command t.after

/-- The atoms in front of the command word. -/
def front (t : Target) : List Atom := inFront t.before ++ leading t.lead

/-- The atoms between the command word and the operand. -/
def args (t : Target) : List Atom := following t.mid ++ t.gap.atoms

/-- The atoms up to the end of the operand. -/
def upTo (t : Target) : List Atom := t.front ++ (t.name.atoms ++ t.args ++ t.operand.atoms)

/-- The atoms behind the operand. -/
def back (t : Target) : List Atom := following t.later ++ behind t.after

/-- The pieces of the operand that the tokenizer sees. -/
def shown (t : Target) : List Piece := seen (exposedEnd (render t.back)) t.operand

/-- Nothing misleads the guard about the operand. -/
structure Clear (t : Target) : Prop where
  /-- No escape is taken for a quote mark, a group or a separator. -/
  splits : splitSafe t.back t.upTo = true
  /-- The word and the operand hold no line continuation, and no white space but blanks ends
  them. -/
  name : ∀ p ∈ t.name.pieces, readsAsShell p = true
  operand : ∀ p ∈ t.operand.pieces, readsAsShell p = true
  /-- No pipe is glued to the command word or to the operand. -/
  left : t.front.getLast? ≠ some (.op .pipe)
  right : t.back.head? ≠ some (.op .pipe)
  /-- A quoted command word stands where `_command_positions` expects a command. -/
  position : t.name.pieces.any isQuoted = false ∨
    LastIsCommand (tokenize (render (sinceCut [] t.front ++ t.name.atoms)))
  /-- The operand is not passed over as a redirect, a Windows flag or white space. -/
  angle : hasAngle t.operand.text = false
  windows : dropsWindowsFlags t.name.text = true →
    isWindowsFlag (t.shown.flatMap Piece.text) = false
  shown : t.shown ≠ []

variable (t : Target)

theorem atoms_eq : inFront t.before ++ t.command.atoms ++ behind t.after = t.upTo ++ t.back := by
  have hmore : following (t.mid ++ (t.gap, t.operand) :: t.later) =
      t.args ++ t.operand.atoms ++ following t.later := by
    simp [following, args]
  rw [command, Command.around_atoms, hmore]
  simp [upTo, front, back]

theorem line_eq : t.line = render (t.upTo ++ t.back) := congrArg render t.atoms_eq

theorem opsApart : OpsApart (t.upTo ++ t.back) :=
  t.atoms_eq ▸ OpsApart.commandLine t.before t.command t.after

theorem sinceCut_upTo :
    sinceCut [] t.upTo = sinceCut [] t.front ++ (t.name.atoms ++ t.args ++ t.operand.atoms) := by
  rw [upTo, sinceCut_append]
  apply sinceCut_noOp
  intro a ha
  simp only [args, mem_append] at ha
  rcases ha with (ha | ha | ha) | ha
  · exact t.name.not_op a ha
  · exact following_not_op t.mid a ha
  · exact t.gap.not_op a ha
  · exact t.operand.not_op a ha

theorem reads_front (hleft : t.front.getLast? ≠ some (.op .pipe)) :
    ∃ toks, Reads .bare {} (render (sinceCut [] t.front)) toks .bare {} := by
  rcases eq_nil_or_concat' t.front with hfront | ⟨as, a, hfront⟩
  · rw [hfront]
    exact ⟨[], Reads.nil _ _⟩
  have hpiece : a.isPiece = false := front_not_piece t.before t.lead
    (by rw [show inFront t.before ++ leading t.lead = as ++ [a] from hfront, getLast?_concat])
  have hpipe : a ≠ .op .pipe := by
    rintro rfl
    exact hleft (by rw [hfront, getLast?_concat])
  rw [hfront, sinceCut_append]
  have hspace : ∀ c, isSpace c = true → a.render = [c] → atomCuts a = false →
      ∃ toks, Reads .bare {} (render (sinceCut (sinceCut [] as) [a])) toks .bare {} := by
    intro c hc hrender hcut
    obtain ⟨toks, w, h⟩ := reads_atoms {} (sinceCut [] as)
    refine ⟨toks ++ w.flush, ?_⟩
    have htext : render (sinceCut (sinceCut [] as) [a]) = render (sinceCut [] as) ++ [c] := by
      simp [hcut, hrender]
    rw [htext]
    exact h.append (reads_space w hc)
  cases a with
  | piece p => cases hpiece
  | blank b => exact hspace b.char (by cases b <;> rfl) rfl rfl
  | op o =>
    cases o with
    | newline => exact hspace '\n' rfl rfl rfl
    | pipe => exact absurd rfl hpipe
    | semi => exact ⟨[], Reads.nil _ _⟩
    | and => exact ⟨[], Reads.nil _ _⟩
    | or => exact ⟨[], Reads.nil _ _⟩
    | amp => exact ⟨[], Reads.nil _ _⟩

theorem reads_gap (w : WordBuf) (g : Gap) : Reads .bare w (render g.atoms) w.flush .bare {} := by
  have hblank : ∀ (b : Blank) (w : WordBuf), Reads .bare w [b.char] w.flush .bare {} :=
    fun b w => reads_space w (by cases b <;> rfl)
  have hmore : ∀ bs : List Blank, Reads .bare {} (render (bs.map .blank)) [] .bare {} := by
    intro bs
    induction bs with
    | nil => exact Reads.nil _ _
    | cons b bs ih => exact (hblank b {}).append ih
  have h := (hblank g.first w).append (hmore g.more)
  rwa [append_nil] at h

theorem reads_args (w : WordBuf) :
    ∃ more, Reads .bare w (render t.args) (w.flush ++ more) .bare {} := by
  unfold args
  cases t.mid with
  | nil => exact ⟨[], by rw [append_nil]; exact reads_gap w t.gap⟩
  | cons gw mid =>
    obtain ⟨toks, w', h⟩ := reads_atoms {} (gw.2.atoms ++ following mid)
    refine ⟨toks ++ w'.flush, ?_⟩
    have htext : render (following (gw :: mid) ++ t.gap.atoms) =
        render gw.1.atoms ++ render (gw.2.atoms ++ following mid) ++ render t.gap.atoms := by
      simp [following]
    rw [htext, ← append_assoc]
    exact ((reads_gap w gw.1).append h).append (reads_gap w' t.gap)

theorem back_next (hright : t.back.head? ≠ some (.op .pipe)) :
    exposedEnd (render t.back) = true ∨
      ∃ c sp, (render t.back).takeWhile isSpace = c :: sp ∧ isSpace c = true := by
  have hpiece : ∀ a, t.back.head? = some a → a.isPiece = false :=
    fun a => back_not_piece t.later t.after
  cases hback : t.back with
  | nil => exact Or.inl rfl
  | cons a as =>
    rw [hback] at hright hpiece
    have hspace : ∀ c, isSpace c = true → a.render = [c] →
        ∃ c sp, (render (a :: as)).takeWhile isSpace = c :: sp ∧ isSpace c = true := by
      intro c hc h
      exact ⟨c, (render as).takeWhile isSpace, by simp [h, hc], hc⟩
    cases a with
    | piece p => cases hpiece _ rfl
    | blank b => exact Or.inr (hspace b.char (by cases b <;> rfl) rfl)
    | op o =>
      cases ho : opCuts o with
      | true => exact Or.inl (exposedEnd_cut ho (render_head_not_redirect as).2)
      | false =>
        cases o with
        | newline => exact Or.inr (hspace '\n' rfl rfl)
        | pipe => exact absurd rfl hright
        | semi => cases ho
        | and => cases ho
        | or => cases ho
        | amp => cases ho

theorem reads_upTo (hclear : t.Clear) : ∃ ts us, ∃ name : Token,
    Reads .bare {} (render (sinceCut [] t.front ++ t.name.atoms ++ t.args)) (ts ++ name :: us)
      .bare {} ∧
    name.text = t.name.text ∧ (name.quoted = false ∨ LastIsCommand (ts ++ [name])) := by
  have hname : ∀ p ∈ t.name.pieces, staysWhole p = true ∧ continuesLine p = false :=
    fun p hp => (readsAsShell_iff p).mp (hclear.name p hp)
  obtain ⟨ts, hfront⟩ := t.reads_front hclear.left
  obtain ⟨name, hflush, htext, hquoted⟩ :=
    flush_wordBuf t.name.nonempty fun p hp => (hname p hp).2
  obtain ⟨us, hargs⟩ := t.reads_args (wordBuf t.name.pieces)
  have hword : Reads .bare {} (render t.name.atoms) [] .bare (wordBuf t.name.pieces) :=
    reads_pieces {} fun p hp => (hname p hp).1
  have hread := hfront.append hword
  refine ⟨ts, us, name, ?_, htext, ?_⟩
  · have h := hread.append hargs
    rw [hflush] at h
    simpa using h
  · rcases hclear.position with h | h
    · exact Or.inl (hquoted h)
    · right
      have htokens : tokenize (render (sinceCut [] t.front ++ t.name.atoms)) = ts ++ [name] := by
        have hend := hread []
        rw [tokenizeFrom_nil, hflush] at hend
        simpa [tokenize] using hend
      rwa [htokens] at h

theorem tokens (hclear : t.Clear) (env : GuardEnv) :
    ∃ sub ts us vs, ∃ name operand : Token,
      sub ∈ splitSubcommands env t.line ∧
      tokenize sub = ts ++ name :: (us ++ operand :: vs) ∧
      name.text = t.name.text ∧ (name.quoted = false ∨ LastIsCommand (ts ++ [name])) ∧
      operand.text = t.shown.flatMap Piece.text := by
  have hoperand : ∀ p ∈ t.operand.pieces, staysWhole p = true ∧ continuesLine p = false :=
    fun p hp => (readsAsShell_iff p).mp (hclear.operand p hp)
  have hwhole : ∀ p ∈ t.operand.pieces, staysWhole p = true := fun p hp => (hoperand p hp).1
  obtain ⟨ts, us, name, hread, hname, hpos⟩ := t.reads_upTo hclear
  obtain ⟨operand, hflush, htext, -⟩ := flush_wordBuf hclear.shown
    fun p hp => (hoperand p (seen_subset _ _ hp)).2
  have hst : ({} : SplitState).Bare (render (t.upTo ++ t.back)) :=
    ⟨rfl, rfl, rfl, rfl, rfl, fun h => by cases h⟩
  obtain ⟨st, parts, hrun, hbare, hcur⟩ :=
    split_run env t.upTo t.back [] t.opsApart hclear.splits hst rfl
  obtain ⟨sp, tail, parts', hsplit, hsp, hexposed, hmore⟩ := split_behind env hbare
  have hpart : st.cur = render (sinceCut [] t.front ++ t.name.atoms ++ t.args) ++
      render t.operand.atoms := by
    rw [hcur, sinceCut_upTo]
    simp
  have htokens : ∃ vs, tokenize (strip (st.cur ++ sp ++ tail)) =
      (ts ++ name :: us) ++ (wordBuf t.shown).flush ++ vs := by
    rw [hpart]
    cases hx : exposedEnd (render t.back) with
    | true =>
      have hspaces : ∀ c ∈ sp, isSpace c = true := by
        rw [hsp]
        exact fun c hc => mem_takeWhile_imp hc
      refine ⟨[], ?_⟩
      rw [hexposed hx, append_nil, tokenize_exposed t.operand hread hwhole hspaces, shown, hx,
        append_nil]
    | false =>
      obtain ⟨d, tail', rfl, hd⟩ := hmore hx
      rcases t.back_next hclear.right with h | ⟨c, sp', hsp', hc⟩
      · rw [hx] at h
        cases h
      · rw [hsp, hsp', shown, hx]
        exact tokenize_followed t.operand hread hwhole hc hd
  obtain ⟨vs, htokens⟩ := htokens
  rw [hflush] at htokens
  refine ⟨strip (st.cur ++ sp ++ tail), ts, us, vs, name, operand, ?_, ?_, hname, hpos, htext⟩
  · have hne : strip (st.cur ++ sp ++ tail) ≠ [] := by
      intro h
      rw [h] at htokens
      simp [tokenize, tokenizeFrom_nil, WordBuf.flush] at htokens
    rw [splitSubcommands, t.line_eq, hrun, hsplit]
    have hmem : st.cur ++ sp ++ tail ∈ parts ++ (st.cur ++ sp ++ tail) :: parts' :=
      mem_append_right _ mem_cons_self
    exact mem_filter.mpr ⟨mem_map_of_mem hmem, decide_eq_true hne⟩
  · simpa using htokens

end Target

theorem classifyOperand_concat (env : GuardEnv) (text : Text) {c : Char} (hc : isSpace c = true)
    (rt : RuntimePaths) (forWrite : Bool) :
    classifyOperand env (text ++ [c]) rt forWrite = classifyOperand env text rt forWrite := by
  have htext : operandText (text ++ [c]) = operandText text := by
    rw [operandText, strip_concat_space hc]
    rfl
  rw [classifyOperand, htext]
  rfl

/-- **Delete soundness.** Where nothing misleads the guard about an operand that is no flag, a
command line that deletes it is refused whenever the classifier refuses the operand. -/
theorem delete_refused (env : GuardEnv) (rt : RuntimePaths) (t : Target)
    (hname : t.name.text ∈ deleteWords) (hflag : t.operand.text.head? ≠ some '-')
    {code : ReasonCode} {display : Text}
    (hrefused : classifyOperand env t.operand.text rt true = .refused code display)
    (hclear : t.Clear) : (evaluateCommand env t.line rt).allowed = false := by
  obtain ⟨sub, ts, us, vs, name, operand, hsub, htokens, hnameText, hpos, htext⟩ :=
    t.tokens hclear env
  have hshown : t.operand.text = operand.text ∨
      ∃ c, isSpace c = true ∧ t.operand.text = operand.text ++ [c] := by
    rw [htext]
    exact text_seen _ t.operand fun p hp => ((readsAsShell_iff p).mp (hclear.operand p hp)).2
  have hclassified : classifyOperand env operand.text rt true = .refused code display := by
    rcases hshown with h | ⟨c, hc, h⟩
    · rwa [← h]
    · rwa [← classifyOperand_concat env operand.text hc, ← h]
  have hangle : hasAngle operand.text = false := by
    have h := hclear.angle
    rcases hshown with h' | ⟨c, -, h'⟩
    · rwa [h'] at h
    · rw [h', hasAngle, List.any_append, Bool.or_eq_false_iff] at h
      exact h.1
  have hdash : operand.text.head? ≠ some '-' := by
    rcases hshown with h | ⟨c, -, h⟩
    · rwa [← h]
    · intro hd
      apply hflag
      rw [h, List.head?_append, hd]
      rfl
  have hwindows : isFlag operand.text (dropsWindowsFlags name.text) = false := by
    rw [isFlag, hnameText, Bool.or_eq_false_iff]
    refine ⟨beq_eq_false_iff_ne.mpr hdash, ?_⟩
    cases h : dropsWindowsFlags t.name.text with
    | false => rfl
    | true => rw [htext, hclear.windows h, Bool.and_false]
  rw [← hnameText] at hname
  exact evaluateFrom_refused env rt _ hsub
    (delete_checked env rt sub htokens hname hpos hwindows hangle hclassified) 0 []

/-! ## Two command lines -/

def plainPieces (s : String) : List Piece :=
  s.toList.filterMap fun c => if h : isPlain c = true then some (.plain c h) else none

def plainWord (s : String) (h : plainPieces s ≠ []) : Word := ⟨plainPieces s, h⟩

theorem foo_ne_nil : plainPieces "FOO=1" ≠ [] := by decide

def oneSpace : Gap := ⟨.space, []⟩

/-- A session whose commands run in the sandbox. -/
def sandboxed : RuntimePaths := { hostCwd := "/w".toList, sandboxActive := true }

def sandboxEnv : GuardEnv where
  lower := fun t => t.map Char.toLower
  resolve := fun _ path => some path

/-- `FOO=1 'rm' -rf /etc; ls`. -/
def quotedDelete : Target where
  before := []
  lead := [(plainWord "FOO=1" foo_ne_nil, oneSpace)]
  name := ⟨[.single "rm".toList (by decide)], List.cons_ne_nil _ _⟩
  mid := [(oneSpace, plainWord "-rf" (by decide))]
  gap := oneSpace
  operand := plainWord "/etc" (by decide)
  later := []
  after := [(⟨[], .semi, [.space]⟩, ⟨plainWord "ls" (by decide), []⟩)]

theorem quotedDelete_clear : quotedDelete.Clear where
  splits := by decide
  name := by simp [quotedDelete, readsAsShell, staysWhole, continuesLine]
  operand := by decide
  left := by simp [quotedDelete, Target.front, leading, inFront, Gap.atoms, oneSpace]
  right := by simp [quotedDelete, Target.back, following, behind, Sep.atoms]
  position := Or.inr (by unfold LastIsCommand; decide)
  angle := by decide
  windows := by decide
  shown := by decide

theorem quotedDelete_refused :
    (evaluateCommand sandboxEnv quotedDelete.line sandboxed).allowed = false := by
  have hrefused : classifyOperand sandboxEnv quotedDelete.operand.text sandboxed true =
      .refused .systemPath "/etc".toList := by decide
  exact delete_refused sandboxEnv sandboxed quotedDelete (by decide) (by decide) hrefused
    quotedDelete_clear

/-- `echo a|rm -rf /etc`: the pipe makes one word of `a` and the command word. -/
def gluedPipe : Target where
  before := [(⟨plainWord "echo" (by decide), [(oneSpace, plainWord "a" (by decide))]⟩,
    ⟨[], .pipe, []⟩)]
  lead := []
  name := plainWord "rm" (by decide)
  mid := [(oneSpace, plainWord "-rf" (by decide))]
  gap := oneSpace
  operand := plainWord "/etc" (by decide)
  later := []
  after := []

theorem gluedPipe_allowed : gluedPipe.line = "echo a|rm -rf /etc".toList ∧
    gluedPipe.lead = [] ∧ gluedPipe.name.text ∈ deleteWords ∧
    gluedPipe.operand.text.head? ≠ some '-' ∧
    classifyOperand sandboxEnv gluedPipe.operand.text sandboxed true =
      .refused .systemPath "/etc".toList ∧
    (evaluateCommand sandboxEnv gluedPipe.line sandboxed).allowed = true := by
  refine ⟨?_, ?_, ?_, ?_, ?_, ?_⟩ <;> decide

end MiqroForge.Guard
