import MiqroForge.Guard.DeleteSound
import MiqroForge.Guard.Lines

/-!
Privilege escalation: a command named `sudo` anywhere in a command line, in its groups and in the
payloads of the shells it starts, and where the guard sees it.
-/

namespace MiqroForge.Guard

open PyText ShellWords

/-! ## Command positions -/

theorem positionsFrom_assigns {ts : List Token} {tok : Token}
    (hts : ∀ t ∈ ts, isAssignment t.text = true) (htok : isAssignment tok.text = false) (i : Nat) :
    positionsFrom true i (ts ++ [tok]) = [i + ts.length] := by
  induction ts generalizing i with
  | nil => simp [positionsFrom, htok]
  | cons t ts ih =>
    have hrest := ih (fun u hu => hts u (List.mem_cons_of_mem t hu)) (i + 1)
    have hlen : i + (t :: ts).length = i + 1 + ts.length := by rw [List.length_cons]; omega
    rw [hlen, ← hrest]
    simp [positionsFrom, hts t List.mem_cons_self]

theorem lastIsCommand_assigns {ts : List Token} {tok : Token}
    (hts : ∀ t ∈ ts, isAssignment t.text = true) (htok : isAssignment tok.text = false) :
    LastIsCommand (ts ++ [tok]) := by
  have h := positionsFrom_assigns hts htok 0
  unfold LastIsCommand commandPositions
  rw [h]
  simp

theorem checkSubcommand_privilege (env : GuardEnv) (rt : RuntimePaths) {sub : Text}
    (h : asksPrivilege (tokenize sub) = true) : checkSubcommand env rt sub ≠ none := by
  unfold checkSubcommand
  dsimp only
  rw [if_pos h]
  exact fun h => by cases h

/-- Nothing but assignments, as the guard reads them. -/
inductive OnlyAssigns : List Mark → Prop where
  | nil : OnlyAssigns []
  | space {ms : List Mark} {m : Mark} (h : OnlyAssigns ms) (hm : m.isSpace = true) :
      OnlyAssigns (ms ++ [m])
  | assignment {ms : List Mark} {w : Word} {m : Mark} (h : OnlyAssigns ms)
      (hw : isAssignment w.text = true) (hread : ∀ p ∈ w.pieces, readsAsShell p = true)
      (hm : m.isSpace = true) : OnlyAssigns (ms ++ w.marks ++ [m])

theorem OnlyAssigns.reads {ms : List Mark} (h : OnlyAssigns ms) :
    ∃ toks, Reads .bare {} (renderMarks ms) toks .bare {} ∧
      ∀ t ∈ toks, isAssignment t.text = true := by
  induction h with
  | nil => exact ⟨[], Reads.nil _ _, fun t ht => by cases ht⟩
  | space h hm ih =>
    obtain ⟨toks, hread, htoks⟩ := ih
    obtain ⟨c, hm, hc⟩ := space_mark hm
    refine ⟨toks ++ [], ?_, by simpa using htoks⟩
    rw [renderMarks_append, renderMarks_cons, hm]
    exact hread.append (reads_space {} hc)
  | assignment h hw hpieces hm ih =>
    rename_i ms w m
    obtain ⟨toks, hread, htoks⟩ := ih
    obtain ⟨c, hm, hc⟩ := space_mark hm
    have hpiece : ∀ p ∈ w.pieces, staysWhole p = true ∧ continuesLine p = false :=
      fun p hp => (readsAsShell_iff p).mp (hpieces p hp)
    obtain ⟨tok, hflush, htext, -⟩ := flush_wordBuf w.nonempty fun p hp => (hpiece p hp).2
    have hword : Reads .bare {} (render w.atoms) [] .bare (wordBuf w.pieces) :=
      reads_pieces {} fun p hp => (hpiece p hp).1
    refine ⟨toks ++ [] ++ [tok], ?_, ?_⟩
    · rw [renderMarks_append, renderMarks_append, renderMarks_cons, hm, Word.render_marks, ← hflush]
      exact (hread.append hword).append (reads_space _ hc)
    · intro t ht
      rcases List.mem_append.mp ht with ht | ht
      · exact htoks t (by simpa using ht)
      · rw [List.mem_singleton.mp ht, htext]
        exact hw

/-! ## Where the guard sees the name -/

/-- What the splitter leaves in front of the name. -/
def partBefore (i : Invocation) : Part := partOf {} i.front

/-- Nothing misleads the guard about the name of a command. -/
structure SeesName (i : Invocation) : Prop where
  /-- No escape is taken for a quote mark, a group, a separator or a here-document. -/
  splits : lineSafe i.back {} (i.front ++ i.name.marks) = true
  /-- No line continuation, and no white space but blanks. -/
  name : ∀ p ∈ i.name.pieces, readsAsShell p = true
  /-- No operator, parenthesis or redirection that the splitter passes is glued to the name. -/
  left : ∀ m, (partBefore i).marks.getLast? = some m → m.isSpace = true
  right : EndsToken (partBefore i).depth i.back
  /-- Nothing but assignments stand in front of it, or else `_command_positions` expects a
  command there. -/
  position : OnlyAssigns (partBefore i).marks ∨
    LastIsCommand (tokenize (renderMarks ((partBefore i).marks ++ i.name.marks)))

/-- The guard sees names in the line itself and none in the payload of another shell. -/
def SeesRun {line : Text} : Run shellLaunchers line → Prop
  | .here i => SeesName i
  | .nested .. => False

theorem SeesName.tokens {i : Invocation} (h : SeesName i) (hname : i.name.text = "sudo".toList) :
    ∃ toks, Reads .bare {} (renderMarks (partBefore i).marks) toks .bare {} ∧
      ∀ tok : Token, (wordBuf i.name.pieces).flush = [tok] → tok.text = i.name.text →
        LastIsCommand (toks ++ [tok]) := by
  rcases h.position with hassigns | hlast
  · obtain ⟨toks, hread, htoks⟩ := hassigns.reads
    refine ⟨toks, hread, fun tok _ htext => lastIsCommand_assigns htoks ?_⟩
    rw [htext, hname]
    rfl
  · obtain ⟨toks, hread⟩ := reads_part h.left
    refine ⟨toks, hread, fun tok hflush _ => ?_⟩
    have hword : Reads .bare {} (render i.name.atoms) [] .bare (wordBuf i.name.pieces) :=
      reads_pieces {} fun p hp => ((readsAsShell_iff p).mp (h.name p hp)).1
    have htokens : tokenize (renderMarks ((partBefore i).marks ++ i.name.marks)) =
        toks ++ [tok] := by
      have hend := hread.append hword []
      rw [tokenizeFrom_nil, hflush] at hend
      simpa [tokenize] using hend
    rwa [htokens] at hlast

theorem SeesName.asked (env : GuardEnv) {i : Invocation} (h : SeesName i)
    (hname : i.name.text = "sudo".toList) :
    ∃ sub ∈ splitSubcommands env i.line, asksPrivilege (tokenize sub) = true := by
  have hpiece : ∀ p ∈ i.name.pieces, staysWhole p = true ∧ continuesLine p = false :=
    fun p hp => (readsAsShell_iff p).mp (h.name p hp)
  obtain ⟨toks, hread, hlast⟩ := h.tokens hname
  obtain ⟨tok, hflush, htext, -⟩ := flush_wordBuf i.name.nonempty fun p hp => (hpiece p hp).2
  have hpart : partOf {} (i.front ++ i.name.marks) =
      { partBefore i with marks := (partBefore i).marks ++ i.name.marks } := by
    rw [partOf_append, partOf_stays _ (word_stays i.name)]
    rfl
  have hends : EndsToken (partOf {} (i.front ++ i.name.marks)).depth i.back := by
    rw [hpart]
    exact h.right
  obtain ⟨t, ht, -, hsub⟩ := subcommand_at env i.apart h.splits hends
  rw [hpart, renderMarks_append, Word.render_marks] at hsub
  obtain ⟨more, htokens⟩ := tokenize_word i.name hread (fun p hp => (hpiece p hp).1) ht
  have hwhole : seen (endsPart t) i.name = i.name.pieces := by
    rw [seen, if_neg]
    intro h
    rw [Bool.and_eq_true] at h
    obtain ⟨c, hc, hspace⟩ := lostAtEnd_cases h.2
    have hnl : c ≠ '\n' := by
      have hlast := (hpiece _ (List.getLast_mem i.name.nonempty)).2
      rw [hc] at hlast
      simpa [continuesLine] using hlast
    have htext : i.name.pieces.dropLast.flatMap Piece.text ++ [c] = "sud".toList ++ ['o'] := by
      have hsudo : i.name.text = "sud".toList ++ ['o'] := hname
      rw [← hsudo, Word.text, ← List.dropLast_append_getLast i.name.nonempty, hc]
      simp [Piece.text, hnl]
    have hco : c = 'o' := by simpa using (List.append_inj' htext rfl).2
    rw [hco] at hspace
    cases hspace
  have htokens' : tokenize (strip (renderMarks (partBefore i).marks ++ render i.name.atoms ++ t)) =
      toks ++ tok :: more := by
    rw [htokens, hwhole]
    have hbuf : i.name.pieces.foldl readPiece {} = wordBuf i.name.pieces := rfl
    rw [hbuf, hflush]
    simp
  have hposition : toks.length ∈ commandPositions (toks ++ tok :: more) :=
    (hlast tok hflush htext).position
  refine ⟨_, hsub _ rfl fun hnil => ?_, ?_⟩
  · rw [hnil] at htokens'
    have hempty : toks ++ tok :: more = [] := htokens'.symm
    simp at hempty
  · have hsudo : tok.text = "sudo".toList := htext.trans hname
    rw [htokens', asksPrivilege, List.any_eq_true]
    exact ⟨toks.length, hposition, by simp [hsudo]⟩

/-- **Privilege escalation.** Where the guard sees the name of the command, a line for which the
shell runs `sudo` is refused. -/
theorem privilege_refused (env : GuardEnv) (rt : RuntimePaths) {line : Text}
    (run : Run shellLaunchers line) (hname : run.name.text = "sudo".toList)
    (hseen : SeesRun run) : (evaluateCommand env line rt).allowed = false := by
  cases run with
  | here i =>
    obtain ⟨sub, hsub, hasks⟩ := SeesName.asked env hseen hname
    exact evaluateFrom_refused env rt _ hsub (checkSubcommand_privilege env rt hasks) 0 []
  | nested l known given inner => exact hseen.elim

/-! ## Command lines -/

def sudoWord : Word := plainWord "sudo" (by decide)

theorem words_id_ends (m : Mark) (h : (words " id").head? = some m) : m.isPiece = false := by
  cases h
  rfl

/-- `cd /w && FOO=1 s"udo" id`. -/
def quotedSudo : Invocation where
  front := words "cd /w " ++ [.atom (.op .and)] ++ [blankMark] ++
    (plainWord "FOO=1" foo_ne_nil).marks ++ [blankMark]
  name := ⟨plainPieces "s" ++ [.double [.plain 'u' rfl, .plain 'd' rfl, .plain 'o' rfl]],
    List.append_ne_nil_of_right_ne_nil _ (List.cons_ne_nil _ _)⟩
  back := words " id"
  next := (NameNext.begins ((CommandBegins.op _ .and).blank .space)).assignment
    (plainWord "FOO=1" foo_ne_nil) (by decide) oneSpace
  ends := words_id_ends
  apart := by decide

theorem quotedSudo_seen : SeesName quotedSudo where
  splits := by decide
  name := by decide
  left := by decide
  right := by
    intro m hm
    cases hm
    exact Or.inl rfl
  position := Or.inl ((OnlyAssigns.nil.space (m := blankMark) rfl).assignment
    (w := plainWord "FOO=1" foo_ne_nil) (by decide) (by decide) (m := blankMark) rfl)

theorem quotedSudo_refused :
    (evaluateCommand sandboxEnv quotedSudo.line sandboxed).allowed = false :=
  privilege_refused sandboxEnv sandboxed (.here quotedSudo) (by decide) quotedSudo_seen

/-- `sudo id` behind the marks, which end a command before. -/
def plainSudo (front : List Mark) (next : NameNext front) (back : List Mark)
    (ends : ∀ m, back.head? = some m → m.isPiece = false)
    (apart : Apart (front ++ sudoWord.marks ++ back)) : Invocation :=
  ⟨front, sudoWord, back, next, ends, apart⟩

/-- Behind a newline. -/
def newlineSudo : Invocation :=
  plainSudo (words "ls" ++ [.atom (.op .newline)]) (.begins (.op _ .newline)) (words " id")
    words_id_ends (by decide)

/-- Behind a pipe that is glued to it. -/
def pipedSudo : Invocation :=
  plainSudo (words "echo a" ++ [.atom (.op .pipe)]) (.begins (.op _ .pipe)) (words " id")
    words_id_ends (by decide)

/-- In a group. -/
def groupedSudo : Invocation :=
  plainSudo [.opening] (.begins (.opening [])) (words " id" ++ [.closing]) (by decide) (by decide)

/-- On a line of its own. -/
def innerSudo : Invocation :=
  plainSudo [] (.begins .start) (words " id") words_id_ends (by decide)

def sudoPayload : Word := ⟨[.single "sudo id".toList (by decide)], List.cons_ne_nil _ _⟩

/-- In the payload of a shell. -/
def nestedSudo : Launch where
  shell :=
    { front := []
      name := plainWord "bash" (by decide)
      back := words " -c " ++ sudoPayload.marks
      next := .begins .start
      ends := by decide
      apart := by decide }
  options := []
  gap := oneSpace
  option := plainWord "-c" (by decide)
  takes := by decide
  gap' := oneSpace
  payload := sudoPayload
  rest := []
  back := by rfl

/-- Four lines for which the shell runs `sudo`. -/
def missedSudo : List (Sigma (Run shellLaunchers)) :=
  [⟨_, .here newlineSudo⟩, ⟨_, .here pipedSudo⟩, ⟨_, .here groupedSudo⟩,
    ⟨_, .nested nestedSudo (by decide) rfl (.here innerSudo)⟩]

theorem missedSudo_allowed :
    missedSudo.map (fun r => r.1) =
      ["ls\nsudo id", "echo a|sudo id", "(sudo id)", "bash -c \x27sudo id\x27"].map
        String.toList ∧
    (∀ r ∈ missedSudo, r.2.name.text = "sudo".toList) ∧
    ∀ r ∈ missedSudo, (evaluateCommand sandboxEnv r.1 sandboxed).allowed = true := by
  refine ⟨?_, ?_, ?_⟩ <;> decide

end MiqroForge.Guard
