import MiqroForge.Patch.Diff

/-! What `parse_patch` reads in a printed patch. -/

namespace MiqroForge.Patch

open PyText List

def Unbroken (t : Text) : Prop := ∀ c ∈ t, isLineBreak c = false

/-- The printed lines are the lines that `splitlines` finds, and none is taken for a header. -/
structure Section.Readable (s : Section) : Prop where
  heading : Unbroken (chomp s.heading)
  unbroken : ∀ c ∈ s.changes, Unbroken c.line.body
  plain : ∀ c ∈ s.changes, c.op = .delete → startsWith c.line.body "-- ".toList = false

structure FileDiff.Readable (d : FileDiff) : Prop where
  oldName : Unbroken (chomp d.oldName)
  newName : Unbroken (chomp d.newName)
  sections : ∀ s ∈ d.sections, s.Readable

/-- The blank lines behind a file section are read as lines of its last hunk. -/
def extra (blank : Nat) (ss : List Section) : Nat := if ss = [] then blank else 0

/-- The hunks read. -/
def hunksFrom (blank o n : Nat) : List Section → List Hunk
  | [] => []
  | s :: ss =>
    ⟨firstLine (o + s.gap.length) s.old.length, s.old.length,
      firstLine (n + s.gap.length) s.new.length, s.new.length,
      s.changes.map Change.written ++ List.replicate (extra blank ss) [' ']⟩ ::
    hunksFrom blank (o + s.gap.length + s.old.length) (n + s.gap.length + s.new.length) ss

section Header
variable {host : Host}

theorem int_digits {digits : Text} (h : ∀ c ∈ digits, c.isDigit = true) :
    int host digits = Nat.ofDigitChars 10 digits 0 := by
  have hfold : ∀ n, digits.foldl (fun n c => 10 * n + (host.decimal c).getD 0) n =
      Nat.ofDigitChars 10 digits n := by
    induction digits with
    | nil => intro n; rfl
    | cons c digits ih =>
      intro n
      obtain ⟨hc, hdigits⟩ := forall_mem_cons.mp h
      rw [foldl_cons, ih hdigits, Nat.ofDigitChars_cons, host.decimal_digit c hc]
      rfl
  exact hfold 0

theorem isDigit_lineNumber {n : Nat} {c : Char} (h : c ∈ lineNumber n) : c.isDigit = true :=
  Nat.isDigit_of_mem_toDigits (by decide) (by decide) h

theorem number?_lineNumber (n : Nat) {t : Text} (ht : ∀ c ∈ t.head?, host.decimal c = none) :
    number? host (lineNumber n ++ t) = some (n, t) := by
  have hdigits : ∀ c ∈ lineNumber n, (host.decimal c).isSome = true := fun c hc => by
    rw [host.decimal_digit c (isDigit_lineNumber hc)]
    rfl
  have hstop : t.takeWhile (fun c => (host.decimal c).isSome) = [] := by
    cases t with
    | nil => rfl
    | cons c t =>
      rw [takeWhile_cons_of_neg]
      rw [ht c rfl]
      simp
  unfold number?
  dsimp only
  rw [takeWhile_append_of_pos hdigits, hstop, append_nil, drop_left,
    if_neg (show lineNumber n ≠ [] from Nat.toDigits_ne_nil),
    int_digits fun c hc => isDigit_lineNumber hc]
  exact congrArg (fun k => some (k, t)) Nat.ofDigitChars_ten_toDigits

theorem decimal_space : host.decimal ' ' = none := host.decimal_ascii ' ' (by decide) (by decide)

theorem range?_rangeText (start count : Nat) (t : Text) :
    range? host (rangeText start count ++ ' ' :: t) = some ((start, count), ' ' :: t) := by
  have hspace : ∀ c ∈ (' ' :: t).head?, host.decimal c = none := by
    rintro _ ⟨⟩
    exact decimal_space
  unfold range? rangeText
  by_cases hone : count = 1
  · subst hone
    rw [if_pos rfl, append_nil, number?_lineNumber start hspace]
    rfl
  · have hcomma : ∀ c ∈ (',' :: (lineNumber count ++ ' ' :: t)).head?, host.decimal c = none := by
      rintro _ ⟨⟩
      exact host.decimal_ascii ',' (by decide) (by decide)
    rw [if_neg hone, append_assoc, cons_append, number?_lineNumber start hcomma]
    simp only [bind, Option.bind, number?_lineNumber count hspace]
    rfl

theorem literal?_append (pattern t : Text) : literal? pattern (pattern ++ t) = some t := by
  have hstart : startsWith (pattern ++ t) pattern = true := by simp [startsWith]
  rw [literal?, if_pos hstart, drop_left]

theorem literal?_cons (c : Char) (t : Text) : literal? [c] (c :: t) = some t :=
  literal?_append [c] t

theorem spaces?_cons {c : Char} (hc : isSpace c = false) (t : Text) :
    spaces? (' ' :: c :: t) = some (c :: t) := by
  have hspace : isSpace ' ' = true := by decide
  rw [spaces?, if_pos hspace, dropWhile_cons_of_neg (by simp [hc])]

theorem hunkRe_headerLine (oldStart oldCount newStart newCount : Nat) (heading : Text) :
    hunkRe host (headerLine oldStart oldCount newStart newCount heading) =
      some ((oldStart, oldCount), (newStart, newCount)) := by
  have hsigns : "@@ -".toList = "@@".toList ++ [' ', '-'] ∧ " +".toList = [' ', '+'] ∧
      " @@".toList = ' ' :: "@@".toList ∧ "@@".toList = ['@', '@'] := by decide
  obtain ⟨hminus, hplus, hclose, hat⟩ := hsigns
  have hclosing : spaces? (' ' :: ("@@".toList ++ heading)) = some ("@@".toList ++ heading) := by
    rw [hat]
    exact spaces?_cons (by decide) ('@' :: heading)
  unfold hunkRe headerLine
  rw [hminus, hplus, hclose, append_assoc, literal?_append]
  simp only [bind, Option.bind, cons_append, nil_append,
    spaces?_cons (show isSpace '-' = false by decide),
    spaces?_cons (show isSpace '+' = false by decide), literal?_cons, range?_rangeText, hclosing,
    literal?_append]
  rfl

end Header

/-! ## The lines of a hunk -/

section Lines
variable {host : Host}

theorem startsWith_head {c d : Char} (h : c ≠ d) (t pattern : Text) :
    startsWith (c :: t) (d :: pattern) = false := by
  simp [startsWith, isPrefixOf, Ne.symm h]

theorem headers : "@@".toList = ['@', '@'] ∧ "--- ".toList = '-' :: "-- ".toList ∧
    "+++ ".toList = ['+', '+', '+', ' '] := by decide

theorem inHunk_written {c : Change}
    (h : c.op = .delete → startsWith c.line.body "-- ".toList = false) :
    inHunk c.written = true := by
  obtain ⟨hat, hminus, -⟩ := headers
  unfold inHunk Change.written
  rw [hat, hminus]
  cases hop : c.op with
  | keep =>
    rw [startsWith_head (by decide), startsWith_head (by decide)]
    rfl
  | insert =>
    rw [startsWith_head (by decide), startsWith_head (by decide)]
    rfl
  | delete =>
    have hbody : startsWith (Op.sign .delete :: c.line.body) ('-' :: "-- ".toList) =
        startsWith c.line.body "-- ".toList := by
      simp [startsWith, Op.sign, isPrefixOf]
    rw [startsWith_head (by decide), hbody, h hop]
    rfl

theorem inHunk_lines {cs : List Change}
    (h : ∀ c ∈ cs, c.op = .delete → startsWith c.line.body "-- ".toList = false) (blank : Nat) :
    ∀ l ∈ cs.flatMap Change.lines ++ List.replicate blank [], inHunk l = true := by
  have hmarker : inHunk "\\ No newline at end of file".toList = true := by decide
  have hempty : inHunk [] = true := by decide
  intro l hl
  rcases mem_append.mp hl with hl | hl
  · obtain ⟨c, hc, hl⟩ := mem_flatMap.mp hl
    rcases mem_cons.mp hl with rfl | hl
    · exact inHunk_written (h c hc)
    · split at hl
      · cases hl
      · rwa [mem_singleton.mp hl]
  · rwa [eq_of_mem_replicate hl]

theorem readHunkLines_append {i : Nat} {a b x y : List Text}
    (ha : readHunkLines host i a = .ok x) (hb : ∀ j, readHunkLines host j b = .ok y) :
    readHunkLines host i (a ++ b) = .ok (x ++ y) := by
  induction a generalizing i x with
  | nil =>
    cases ha
    exact hb i
  | cons inner a ih =>
    rw [readHunkLines] at ha
    cases hline : readHunkLine host i inner with
    | error e => rw [hline] at ha; cases ha
    | ok read =>
      cases hlines : readHunkLines host (i + 1) a with
      | error e => rw [hline, hlines] at ha; cases ha
      | ok lines =>
        rw [hline, hlines] at ha
        cases ha
        rw [cons_append, readHunkLines, hline, ih hlines]
        simp only [bind, Except.bind, pure, Except.pure, append_assoc]

theorem readHunkLine_written (i : Nat) (c : Change) :
    readHunkLine host i c.written = .ok [c.written] := by
  unfold Change.written
  cases c.op <;> rfl

theorem readHunkLines_change (i : Nat) (c : Change) :
    readHunkLines host i c.lines = .ok [c.written] := by
  have hmarker : ∀ j, readHunkLine host j "\\ No newline at end of file".toList = .ok [] := fun j => by
    have hhead : "\\ No newline at end of file".toList =
        '\\' :: " No newline at end of file".toList := by decide
    rw [hhead]
    rfl
  unfold Change.lines
  rw [readHunkLines, readHunkLine_written]
  cases c.line.ended with
  | true => rfl
  | false =>
    simp only [Bool.false_eq_true, if_false, readHunkLines, hmarker]
    rfl

theorem readHunkLines_changes (i : Nat) (cs : List Change) :
    readHunkLines host i (cs.flatMap Change.lines) = .ok (cs.map Change.written) := by
  induction cs generalizing i with
  | nil => rfl
  | cons c cs ih =>
    exact readHunkLines_append (readHunkLines_change i c) fun j => ih j

theorem readHunkLines_blank (i blank : Nat) :
    readHunkLines host i (List.replicate blank []) = .ok (List.replicate blank [' ']) := by
  induction blank generalizing i with
  | zero => rfl
  | succ blank ih =>
    rw [replicate_succ, readHunkLines, ih]
    rfl

end Lines

/-! ## The lines of a patch -/

section Printed

theorem unbroken_append {s t : Text} (hs : Unbroken s) (ht : Unbroken t) : Unbroken (s ++ t) :=
  fun c hc => (mem_append.mp hc).elim (hs c) (ht c)

theorem unbroken_cons {c : Char} (hc : isLineBreak c = false) {t : Text} (ht : Unbroken t) :
    Unbroken (c :: t) :=
  forall_mem_cons.mpr ⟨hc, ht⟩

theorem unbroken_lineNumber (n : Nat) : Unbroken (lineNumber n) := by
  intro c hc
  have hdigit : 48 ≤ c.toNat ∧ c.toNat ≤ 57 := by
    simpa [Char.isDigit, UInt32.le_iff_toNat_le] using isDigit_lineNumber hc
  unfold isLineBreak
  simp only [Bool.or_eq_false_iff, Bool.and_eq_false_iff, decide_eq_false_iff_not, beq_eq_false_iff_ne]
  omega

theorem unbroken_rangeText (start count : Nat) : Unbroken (rangeText start count) := by
  unfold rangeText
  refine unbroken_append (unbroken_lineNumber start) ?_
  split
  · nofun
  · exact unbroken_cons (by decide) (unbroken_lineNumber count)

theorem unbroken_literals : Unbroken "@@ -".toList ∧ Unbroken " +".toList ∧
    Unbroken " @@".toList ∧ Unbroken "--- ".toList ∧ Unbroken "+++ ".toList ∧
    Unbroken "\\ No newline at end of file".toList := by
  refine ⟨?_, ?_, ?_, ?_, ?_, ?_⟩ <;> exact forall_of_all (by decide)

theorem unbroken_headerLine {heading : Text} (h : Unbroken heading)
    (oldStart oldCount newStart newCount : Nat) :
    Unbroken (headerLine oldStart oldCount newStart newCount heading) := by
  obtain ⟨hminus, hplus, hat, -⟩ := unbroken_literals
  exact unbroken_append hminus <| unbroken_append (unbroken_rangeText _ _) <|
    unbroken_append hplus <| unbroken_append (unbroken_rangeText _ _) <| unbroken_append hat h

theorem chomp_headerLine (oldStart oldCount newStart newCount : Nat) (heading : Text) :
    chomp (headerLine oldStart oldCount newStart newCount heading) =
      headerLine oldStart oldCount newStart newCount (chomp heading) := by
  have hsplit : ∀ t, headerLine oldStart oldCount newStart newCount t =
      headerLine oldStart oldCount newStart newCount [] ++ t := fun t => by simp [headerLine]
  have hlast : (headerLine oldStart oldCount newStart newCount []).getLast? ≠ some '\r' := by
    intro h
    have hnone : Unbroken [] := fun c hc => by cases hc
    have hbreak := unbroken_headerLine hnone oldStart oldCount newStart newCount _
      (mem_of_getLast? h)
    exact ne_return hbreak rfl
  rw [hsplit heading, hsplit (chomp heading), chomp_append hlast]

theorem unbroken_changes {s : Section} (h : s.Readable) :
    ∀ l ∈ s.changes.flatMap Change.lines, Unbroken l := by
  intro l hl
  obtain ⟨c, hc, hl⟩ := mem_flatMap.mp hl
  rcases mem_cons.mp hl with rfl | hl
  · refine unbroken_cons ?_ (h.unbroken c hc)
    cases c.op <;> decide
  · split at hl
    · cases hl
    · rw [mem_singleton.mp hl]
      exact unbroken_literals.2.2.2.2.2

theorem chomp_changes {s : Section} (h : s.Readable) :
    (s.changes.flatMap Change.lines).map chomp = s.changes.flatMap Change.lines :=
  (map_congr_left fun l hl => chomp_unbroken (unbroken_changes h l hl)).trans (map_id' _)

theorem unbroken_sectionLines {ss : List Section} (h : ∀ s ∈ ss, s.Readable) (o n : Nat) :
    ∀ l ∈ sectionLines o n ss, Unbroken (chomp l) := by
  induction ss generalizing o n with
  | nil =>
    intro l hl
    cases hl
  | cons s ss ih =>
    obtain ⟨hs, hss⟩ := forall_mem_cons.mp h
    intro l hl
    rcases mem_cons.mp hl with rfl | hl
    · rw [chomp_headerLine]
      exact unbroken_headerLine hs.heading _ _ _ _
    · rcases mem_append.mp hl with hl | hl
      · rw [chomp_unbroken (unbroken_changes hs l hl)]
        exact unbroken_changes hs l hl
      · exact ih hss _ _ l hl

theorem chomp_minus (t : Text) : chomp ("--- ".toList ++ t) = "--- ".toList ++ chomp t :=
  chomp_append (by decide) t

theorem chomp_plus (t : Text) : chomp ("+++ ".toList ++ t) = "+++ ".toList ++ chomp t :=
  chomp_append (by decide) t

theorem unbroken_lines {d : FileDiff} (h : d.Readable) : ∀ l ∈ d.lines, Unbroken (chomp l) := by
  obtain ⟨-, -, -, hminus, hplus, -⟩ := unbroken_literals
  intro l hl
  unfold FileDiff.lines at hl
  rcases mem_cons.mp hl with rfl | hl
  · rw [chomp_minus]
    exact unbroken_append hminus h.oldName
  rcases mem_cons.mp hl with rfl | hl
  · rw [chomp_plus]
    exact unbroken_append hplus h.newName
  rcases mem_append.mp hl with hl | hl
  · exact unbroken_sectionLines h.sections 0 0 l hl
  · rw [eq_of_mem_replicate hl]
    intro c hc
    cases hc

theorem splitlines_patchText {ds : List FileDiff} (h : ∀ d ∈ ds, d.Readable) :
    splitlines (patchText ds) = ds.flatMap fun d => d.lines.map chomp := by
  unfold patchText
  rw [splitlines_chomped, map_flatMap]
  intro l hl
  obtain ⟨d, hd, hl⟩ := mem_flatMap.mp hl
  exact unbroken_lines (h d hd) l hl

end Printed

/-! ## The patch read -/

section Read
variable {host : Host}

theorem startsWith_headerLine (oldStart oldCount newStart newCount : Nat) (heading : Text) :
    startsWith (headerLine oldStart oldCount newStart newCount heading) "@@".toList = true := by
  have hat : "@@ -".toList = "@@".toList ++ [' ', '-'] := by decide
  unfold startsWith headerLine
  rw [hat, append_assoc, isPrefixOf_iff_prefix]
  exact prefix_append _ _

theorem readHunks_hunk {i j : Nat} (oldStart oldCount newStart newCount : Nat) (heading : Text)
    {block behind rest read : List Text} {hunks : List Hunk} (hblock : ∀ l ∈ block, inHunk l = true)
    (hbehind : ∀ l ∈ behind.head?, inHunk l = false)
    (hread : readHunkLines host (i + 1) block = .ok read)
    (hhunks : readHunks host (i + 1 + block.length) behind = .ok (hunks, j, rest)) :
    readHunks host i (headerLine oldStart oldCount newStart newCount heading :: (block ++ behind)) =
      .ok (⟨oldStart, oldCount, newStart, newCount, read⟩ :: hunks, j, rest) := by
  have hat := startsWith_headerLine oldStart oldCount newStart newCount heading
  have hend : (startsWith (headerLine oldStart oldCount newStart newCount heading) "--- ".toList ||
      startsWith (headerLine oldStart oldCount newStart newCount heading) "+++ ".toList) = false := by
    obtain ⟨hatTwo, hminus, hplus⟩ := headers
    obtain ⟨t, ht⟩ := isPrefixOf_iff_prefix.mp hat
    rw [← ht, hatTwo, hminus, hplus, cons_append, startsWith_head (by decide),
      startsWith_head (by decide)]
    rfl
  have hstop : behind.takeWhile inHunk = [] ∧ behind.dropWhile inHunk = behind := by
    cases behind with
    | nil => exact ⟨rfl, rfl⟩
    | cons l behind =>
      have hl : ¬inHunk l = true := by simp [hbehind l rfl]
      exact ⟨takeWhile_cons_of_neg hl, dropWhile_cons_of_neg hl⟩
  rw [readHunks, hend, if_neg Bool.false_ne_true, hat, Bool.not_true, if_neg Bool.false_ne_true,
    hunkRe_headerLine]
  dsimp only
  rw [takeWhile_append_of_pos hblock, dropWhile_append_of_pos hblock, hstop.1, hstop.2,
    append_nil, hread]
  simp only [bind, Except.bind, hhunks]
  rfl

theorem readHunks_end (i : Nat) {rest : List Text}
    (h : ∀ l ∈ rest.head?, startsWith l "--- ".toList = true) :
    readHunks host i rest = .ok ([], i, rest) := by
  cases rest with
  | nil => rw [readHunks]
  | cons l rest => rw [readHunks, h l rfl, Bool.true_or, if_pos rfl]

theorem inHunk_header {l : Text} (h : startsWith l "@@".toList = true ∨
    startsWith l "--- ".toList = true) : inHunk l = false := by
  unfold inHunk
  rcases h with h | h <;> simp only [h, Bool.true_or, Bool.or_true, Bool.not_true]

theorem readHunks_sections {ss : List Section} (hread : ∀ s ∈ ss, s.Readable) {rest : List Text}
    (hrest : ∀ l ∈ rest.head?, startsWith l "--- ".toList = true) (blank o n i : Nat) :
    ∃ j, readHunks host i ((sectionLines o n ss).map chomp ++
      (List.replicate (if ss = [] then 0 else blank) [] ++ rest)) =
        .ok (hunksFrom blank o n ss, j, rest) := by
  induction ss generalizing o n i with
  | nil => exact ⟨i, readHunks_end i hrest⟩
  | cons s ss ih =>
    obtain ⟨hs, hss⟩ := forall_mem_cons.mp hread
    have hblock := inHunk_lines hs.plain (extra blank ss)
    obtain ⟨j, hj⟩ := ih hss (o + s.gap.length + s.old.length) (n + s.gap.length + s.new.length)
      (i + 1 + (s.changes.flatMap Change.lines ++ replicate (extra blank ss) []).length)
    refine ⟨j, ?_⟩
    have hlines : (sectionLines o n (s :: ss)).map chomp ++ (replicate blank [] ++ rest) =
        headerLine (firstLine (o + s.gap.length) s.old.length) s.old.length
          (firstLine (n + s.gap.length) s.new.length) s.new.length (chomp s.heading) ::
        ((s.changes.flatMap Change.lines ++ replicate (extra blank ss) []) ++
          ((sectionLines (o + s.gap.length + s.old.length) (n + s.gap.length + s.new.length)
            ss).map chomp ++ (replicate (if ss = [] then 0 else blank) [] ++ rest))) := by
      rw [sectionLines, map_cons, chomp_headerLine, map_append, chomp_changes hs]
      cases ss <;> simp [extra, sectionLines]
    have hbehind : ∀ l ∈ ((sectionLines (o + s.gap.length + s.old.length)
        (n + s.gap.length + s.new.length) ss).map chomp ++
          (replicate (if ss = [] then 0 else blank) [] ++ rest)).head?, inHunk l = false := by
      intro l hl
      cases ss with
      | nil => exact inHunk_header (Or.inr (hrest l (by simpa [sectionLines] using hl)))
      | cons s' ss =>
        rw [sectionLines, map_cons, chomp_headerLine, cons_append, head?_cons] at hl
        rw [← Option.mem_some_iff.mp hl]
        exact inHunk_header (Or.inl (startsWith_headerLine _ _ _ _ _))
    rw [if_neg (cons_ne_nil s ss), hlines]
    exact readHunks_hunk _ _ _ _ _ hblock hbehind
      (readHunkLines_append (readHunkLines_changes _ _) fun k => readHunkLines_blank k _) hj

theorem hunksFrom_ne_nil {ss : List Section} (h : ss ≠ []) (blank o n : Nat) :
    hunksFrom blank o n ss ≠ [] := by
  cases ss with
  | nil => exact absurd rfl h
  | cons s ss => exact cons_ne_nil _ _

theorem parseFiles_cons {i j : Nat} {oldName newName : Text} {lines rest : List Text}
    {hunks : List Hunk} (hhunks : readHunks host (i + 2) lines = .ok (hunks, j, rest))
    (hne : hunks ≠ []) {patches : List FilePatch} (hrest : parseFiles host j rest = .ok patches) :
    ∃ path, parseFiles host i
      (("--- ".toList ++ oldName) :: ("+++ ".toList ++ newName) :: lines) =
        .ok (⟨path, hunks⟩ :: patches) := by
  have hblank : isBlank ("--- ".toList ++ oldName) = false := by
    rw [headers.2.1]
    rfl
  have hminus : startsWith ("--- ".toList ++ oldName) "--- ".toList = true := by simp [startsWith]
  have hplus : startsWith ("+++ ".toList ++ newName) "+++ ".toList = true := by simp [startsWith]
  refine ⟨filePath ("--- ".toList ++ oldName) ("+++ ".toList ++ newName), ?_⟩
  rw [parseFiles, hblank, if_neg Bool.false_ne_true, hminus, Bool.not_true,
    if_neg Bool.false_ne_true]
  dsimp only
  rw [hplus, Bool.not_true, if_neg Bool.false_ne_true]
  split
  case h_1 e he => rw [hhunks] at he; cases he
  case h_2 hunks' j' rest' hok =>
    rw [hhunks] at hok
    cases hok
    rw [if_neg hne]
    simp only [bind, Except.bind, hrest]
    rfl

theorem parseFiles_lines {ds : List FileDiff} (hread : ∀ d ∈ ds, d.Readable) (i : Nat) :
    ∃ patches, parseFiles host i (ds.flatMap fun d => d.lines.map chomp) = .ok patches ∧
      List.Forall₂ (fun d p => p.hunks = hunksFrom d.blank 0 0 d.sections) ds patches := by
  induction ds generalizing i with
  | nil => exact ⟨[], by simp [parseFiles], List.Forall₂.nil⟩
  | cons d ds ih =>
    obtain ⟨hd, hds⟩ := forall_mem_cons.mp hread
    have hrest : ∀ l ∈ (ds.flatMap fun d => d.lines.map chomp).head?,
        startsWith l "--- ".toList = true := by
      intro l hl
      cases ds with
      | nil => cases hl
      | cons d' ds =>
        have hl' : chomp ("--- ".toList ++ d'.oldName) = l := by
          simpa [FileDiff.lines] using hl
        rw [← hl', chomp_minus]
        simp [startsWith]
    have hempty : chomp [] = [] := rfl
    obtain ⟨j, hj⟩ := @readHunks_sections host _ hd.sections _ hrest d.blank 0 0 (i + 2)
    obtain ⟨patches, hpatches, hall⟩ := ih hds j
    obtain ⟨path, hpath⟩ := parseFiles_cons hj (hunksFrom_ne_nil d.hunk_exists _ _ _) hpatches
    refine ⟨⟨path, hunksFrom d.blank 0 0 d.sections⟩ :: patches, ?_, List.Forall₂.cons rfl hall⟩
    rw [if_neg d.hunk_exists] at hpath
    rw [flatMap_cons, FileDiff.lines, map_cons, map_cons, chomp_minus, chomp_plus,
      map_append, map_replicate, hempty, cons_append, cons_append,
      append_assoc]
    exact hpath

theorem parsePatch_patchText {ds : List FileDiff} (hne : ds ≠ []) (hread : ∀ d ∈ ds, d.Readable) :
    ∃ patches, parsePatch host (patchText ds) = .ok patches ∧
      List.Forall₂ (fun d p => p.hunks = hunksFrom d.blank 0 0 d.sections) ds patches := by
  obtain ⟨patches, hpatches, hall⟩ := @parseFiles_lines host _ hread 0
  have hsome : patches ≠ [] := by
    rintro rfl
    cases hall
    exact hne rfl
  refine ⟨patches, ?_, hall⟩
  rw [parsePatch, splitlines_patchText hread, hpatches]
  simp only [bind, Except.bind, if_neg hsome]
  rfl

end Read

end MiqroForge.Patch
