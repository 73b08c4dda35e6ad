import MiqroForge.Patch.Reading

/-! When a printed patch, read and applied to the original, gives the new text. -/

namespace MiqroForge.Patch

open PyText List

def bodies (ls : List Line) : List Text := ls.map (·.body)

@[simp] theorem bodies_nil : bodies [] = [] := rfl

@[simp] theorem bodies_append (a b : List Line) : bodies (a ++ b) = bodies a ++ bodies b :=
  map_append

@[simp] theorem length_bodies (ls : List Line) : (bodies ls).length = ls.length := List.length_map _

/-- A line of the original that `splitlines` leaves in one piece. -/
def Line.Whole (l : Line) : Prop := Unbroken (if l.ended then chomp l.body else l.body.dropLast)

/-- What the printed patch means is what `apply_file_patch` looks for, hunk by hunk. A hunk is
looked for at its line in the original, moved by `drift`: by nothing for the first hunk, and for
a later one by the number of lines that the hunk before it leaves (by one where it leaves none). A
hunk without old lines is looked for one line early. -/
def PlacedFrom (blank : Nat) (tail : List Line) : List Text → Nat → Int → List Section → Prop
  | _, _, _, [] => True
  | done, o, drift, s :: ss =>
    let before := done ++ bodies s.gap
    let context := bodies s.old ++ List.replicate (extra blank ss) []
    let target : Int := ((o + s.gap.length : Nat) : Int) - (if s.old = [] then 1 else 0) + drift
    Nearest (before ++ (bodies s.old ++ (bodies (oldLines ss) ++ bodies tail))) context target
        before.length ∧
      PlacedFrom blank tail (before ++ bodies s.new) (o + s.gap.length + s.old.length)
        (max s.new.length 1 : Nat) ss

/-- The lines of the original are found as they are, the blank lines behind the file section
stand for empty lines behind its last hunk, and every hunk is found at its own place first. -/
structure FileDiff.Placed (d : FileDiff) : Prop where
  whole : ∀ l ∈ oldLines d.sections ++ d.tail, l.Whole
  blank_kept : List.replicate d.blank ⟨[], true⟩ <+: d.tail
  near : PlacedFrom d.blank d.tail [] 0 0 d.sections

/-- The patch is read, and applied to each original it gives the new text. -/
def Applied (host : Host) (ds : List FileDiff) : Prop :=
  ∃ patches, parsePatch host (patchText ds) = .ok patches ∧
    List.Forall₂ (fun d p => applyFilePatch host d.original p = .ok d.new) ds patches

/-! ## The lines of the original -/

section Lines

theorem rstripNewline_plain {t : Text} (h : '\n' ∉ t) : rstripNewline t = t := by
  rcases eq_nil_or_concat t with rfl | ⟨u, c, rfl⟩
  · rfl
  · have hc : (c == '\n') = false := by
      rw [beq_eq_false_iff_ne]
      rintro rfl
      exact h (by simp)
    simp [rstripNewline, rstripBy, hc]

theorem rstripNewline_text {l : Line} (h : '\n' ∉ l.body) : rstripNewline l.text = l.body := by
  unfold Line.text
  split
  · have hlast : rstripBy (· == '\n') ['\n'] = [] := rfl
    unfold rstripNewline
    rw [rstripBy_append, if_pos hlast]
    exact rstripNewline_plain h
  · rw [append_nil]
    exact rstripNewline_plain h

theorem IsText.newline_notMem {ls : List Line} (h : IsText ls) : ∀ l ∈ ls, '\n' ∉ l.body := by
  induction ls with
  | nil =>
    intro l hl
    cases hl
  | cons l ls ih =>
    obtain ⟨hbody, -, hls⟩ := h
    exact forall_mem_cons.mpr ⟨hbody, ih hls⟩

theorem splitLinesKeepends_eq (t : Text) : splitLinesKeepends t = splitlinesKeepends t := by
  unfold splitLinesKeepends
  split
  case isTrue h => rw [h, splitlinesKeepends]
  case isFalse => rfl

theorem splitLinesKeepends_textOf {ls : List Line} (htext : IsText ls)
    (hwhole : ∀ l ∈ ls, l.Whole) : splitLinesKeepends (textOf ls) = ls.map Line.text := by
  rw [splitLinesKeepends_eq]
  induction ls with
  | nil => rfl
  | cons l ls ih =>
    obtain ⟨-, hended, hls⟩ := htext
    obtain ⟨hl, hwhole⟩ := forall_mem_cons.mp hwhole
    have hcons : textOf (l :: ls) = l.text ++ textOf ls := flatMap_cons
    rw [hcons, map_cons]
    unfold Line.Whole at hl
    cases hend : l.ended with
    | true =>
      have hline : l.text = l.body ++ ['\n'] := by rw [Line.text, if_pos hend]
      rw [if_pos hend] at hl
      rw [hline, append_assoc, singleton_append, splitlinesKeepends_line hl,
        ih hls hwhole]
    | false =>
      obtain ⟨rfl, hbody⟩ := hended hend
      have hline : l.text = l.body := by rw [Line.text, if_neg (by simp [hend]), append_nil]
      rw [if_neg (by simp [hend])] at hl
      rw [hline]
      simpa [textOf] using splitlinesKeepends_last hbody hl

theorem bare_textOf {ls : List Line} (htext : IsText ls) (hwhole : ∀ l ∈ ls, l.Whole) :
    (splitLinesKeepends (textOf ls)).map rstripNewline = bodies ls := by
  rw [splitLinesKeepends_textOf htext hwhole, map_map]
  exact map_congr_left fun l hl => rstripNewline_text (htext.newline_notMem l hl)

theorem textOf_cons {l : Line} {ls : List Line} (h : IsText (l :: ls)) :
    textOf (l :: ls) = ['\n'].intercalate (bodies (l :: ls)) ++
      (if endsWithNewline (textOf (l :: ls)) then ['\n'] else []) := by
  induction ls generalizing l with
  | nil =>
    obtain ⟨hbody, hended, -⟩ := h
    have htext : textOf [l] = l.body ++ if l.ended then ['\n'] else [] := append_nil _
    have hend : endsWithNewline (textOf [l]) = l.ended := by
      rw [htext]
      unfold endsWithNewline
      cases hl : l.ended with
      | true => simp
      | false =>
        rw [if_neg Bool.false_ne_true, append_nil, beq_eq_false_iff_ne]
        exact fun hlast => hbody (mem_of_getLast? hlast)
    rw [hend, htext]
    simp [bodies]
  | cons l' ls ih =>
    obtain ⟨-, hended, hls⟩ := h
    have hl : l.ended = true := by
      cases hl : l.ended with
      | true => rfl
      | false => exact absurd (hended hl).1 (cons_ne_nil l' ls)
    have htext : textOf (l :: l' :: ls) = (l.body ++ ['\n']) ++ textOf (l' :: ls) := by
      simp [textOf, Line.text, hl]
    have hne : textOf (l' :: ls) ≠ [] := by
      cases hl' : l'.ended with
      | true => simp [textOf, Line.text, hl']
      | false => simp [textOf, Line.text, (hls.2.1 hl').2]
    have hend : endsWithNewline (textOf (l :: l' :: ls)) = endsWithNewline (textOf (l' :: ls)) := by
      unfold endsWithNewline
      rw [htext, getLast?_append_of_ne_nil _ hne]
    rw [hend, htext]
    nth_rewrite 1 [ih hls]
    simp [bodies, intercalate_cons_cons]

theorem rejoin_bodies {ls : List Line} (h : IsText ls) (hadTrailingNewline : Bool) :
    rejoin hadTrailingNewline (bodies ls) = textOf ls ↔
      hadTrailingNewline = endsWithNewline (textOf ls) := by
  cases ls with
  | nil => cases hadTrailingNewline <;> simp [rejoin, textOf, endsWithNewline]
  | cons l ls =>
    have hne : bodies (l :: ls) ≠ [] := cons_ne_nil _ _
    have htext := textOf_cons h
    unfold rejoin
    rw [if_neg fun hempty => hne hempty.1]
    generalize endsWithNewline (textOf (l :: ls)) = ends at htext ⊢
    rw [htext]
    cases hadTrailingNewline <;> cases ends <;> simp

end Lines

/-! ## The hunks -/

section Hunks
variable {host : Host}

theorem filterMap_blank {f : Text → Option Text} (hf : f [' '] = some []) (n : Nat) :
    (List.replicate n [' ']).filterMap f = List.replicate n [] := by
  induction n with
  | zero => rfl
  | succ n ih => rw [replicate_succ, filterMap_cons_some hf, ih, replicate_succ]

theorem filterMap_written {f : Text → Option Text} {skipped : Op}
    (hf : ∀ c : Change, f c.written = if c.op = skipped then none else some c.line.body)
    (cs : List Change) :
    (cs.map Change.written).filterMap f =
      bodies ((cs.filter (·.op ≠ skipped)).map (·.line)) := by
  induction cs with
  | nil => rfl
  | cons c cs ih =>
    rw [map_cons, filterMap_cons, hf c, ih]
    by_cases hop : c.op = skipped
    · rw [if_pos hop, filter_cons_of_neg (by simp [hop])]
    · rw [if_neg hop, filter_cons_of_pos (by simp [hop])]
      rfl

theorem context_written (c : Change) :
    contextLine? c.written = if c.op = .insert then none else some c.line.body := by
  unfold Change.written
  cases c.op <;> rfl

theorem replacement_written (c : Change) :
    replacementLine? c.written = if c.op = .delete then none else some c.line.body := by
  unfold Change.written
  cases c.op <;> rfl

variable {blank : Nat} {tail : List Line}

theorem hunk_lines (oldStart newStart k : Nat) (s : Section) :
    let hunk : Hunk := ⟨oldStart, s.old.length, newStart, s.new.length,
      s.changes.map Change.written ++ List.replicate k [' ']⟩
    hunk.context = bodies s.old ++ List.replicate k [] ∧
      hunk.replacement = bodies s.new ++ List.replicate k [] := by
  dsimp only [Hunk.context, Hunk.replacement]
  rw [filterMap_append, filterMap_append, filterMap_written context_written,
    filterMap_written replacement_written, filterMap_blank rfl, filterMap_blank rfl]
  exact ⟨rfl, rfl⟩

theorem exists_after {ss : List Section} (hblank : List.replicate blank ⟨[], true⟩ <+: tail) :
    ∃ after, bodies (oldLines ss) ++ bodies tail =
      List.replicate (extra blank ss) [] ++ after := by
  unfold extra
  split
  case isTrue h =>
    obtain ⟨rest, rfl⟩ := hblank
    exact ⟨bodies rest, by simp [h, oldLines, bodies]⟩
  case isFalse => exact ⟨_, (nil_append _).symm⟩

theorem target_eq (o : Nat) (olds : List Line) (drift : Int) :
    (firstLine o olds.length : Int) - 1 + drift = (o : Int) - (if olds = [] then 1 else 0) + drift := by
  unfold firstLine
  cases olds <;> simp

theorem context_plain {s : Section} (h : ∀ l ∈ s.old, '\n' ∉ l.body) (k : Nat) :
    ∀ l ∈ bodies s.old ++ List.replicate k [], rstripNewline l = l := by
  intro t ht
  rcases mem_append.mp ht with ht | ht
  · obtain ⟨l, hl, rfl⟩ := mem_map.mp ht
    exact rstripNewline_plain (h l hl)
  · rw [eq_of_mem_replicate ht]
    rfl

theorem applyHunks_hunk {before behind : List Text} {s : Section} {o k : Nat} {drift : Int}
    (hbehind : ∃ after, behind = List.replicate k [] ++ after) (hold : ∀ l ∈ s.old, '\n' ∉ l.body)
    (hnear : Nearest (before ++ (bodies s.old ++ behind)) (bodies s.old ++ List.replicate k [])
      ((o : Int) - (if s.old = [] then 1 else 0) + drift) before.length) (hunks : List Hunk) :
    applyHunks host (before ++ (bodies s.old ++ behind)) drift
        (⟨firstLine o s.old.length, s.old.length, firstLine before.length s.new.length,
          s.new.length, s.changes.map Change.written ++ List.replicate k [' ']⟩ :: hunks) =
      applyHunks host (before ++ (bodies s.new ++ behind))
        (((before.length + (s.new.length + k) : Nat) : Int) -
          (firstLine before.length s.new.length - 1)) hunks := by
  obtain ⟨after, rfl⟩ := hbehind
  obtain ⟨hcontext, hreplacement⟩ := hunk_lines (firstLine o s.old.length)
    (firstLine before.length s.new.length) k s
  have hregroup : ∀ ls : List Text, before ++ (ls ++ (replicate k [] ++ after)) =
      before ++ (ls ++ replicate k []) ++ after := fun ls => by simp only [append_assoc]
  rw [hregroup, ← target_eq, ← hcontext] at hnear
  rw [hregroup, hregroup, ← hcontext, applyHunks_nearest hunks (hcontext ▸ context_plain hold k) hnear,
    hreplacement]
  simp

theorem offset_eq (n count : Nat) :
    ((n + (count + 0) : Nat) : Int) - (firstLine n count - 1) = (max count 1 : Nat) := by
  unfold firstLine
  split <;> omega

theorem applyHunks_sections (hblank : List.replicate blank ⟨[], true⟩ <+: tail)
    {ss : List Section} (hlines : ∀ l ∈ oldLines ss, '\n' ∉ l.body) {done : List Text}
    {o : Nat} {drift : Int} (h : PlacedFrom blank tail done o drift ss) :
    applyHunks host (done ++ (bodies (oldLines ss) ++ bodies tail)) drift
      (hunksFrom blank o done.length ss) = .ok (done ++ (bodies (newLines ss) ++ bodies tail)) := by
  induction ss generalizing done o drift with
  | nil => rfl
  | cons s ss ih =>
    obtain ⟨hnear, hrest⟩ := h
    have hold : ∀ l ∈ s.old, '\n' ∉ l.body := fun l hl => hlines l (by simp [oldLines, hl])
    have hlater : ∀ l ∈ oldLines ss, '\n' ∉ l.body := fun l hl => by
      refine hlines l ?_
      rw [oldLines, flatMap_cons]
      exact mem_append_right _ hl
    have hstart : done ++ (bodies (oldLines (s :: ss)) ++ bodies tail) =
        (done ++ bodies s.gap) ++ (bodies s.old ++ (bodies (oldLines ss) ++ bodies tail)) := by
      simp [oldLines]
    have hend : done ++ (bodies (newLines (s :: ss)) ++ bodies tail) =
        (done ++ bodies s.gap ++ bodies s.new) ++ (bodies (newLines ss) ++ bodies tail) := by
      simp [newLines]
    have hbefore : done.length + s.gap.length = (done ++ bodies s.gap).length := by simp
    have hdone : (done ++ bodies s.gap).length + s.new.length =
        (done ++ bodies s.gap ++ bodies s.new).length := by simp [Nat.add_assoc]
    rw [hstart, hend, hunksFrom, hbefore, hdone,
      applyHunks_hunk (exists_after hblank) hold hnear, ← append_assoc _ (bodies s.new)]
    cases ss with
    | nil => rfl
    | cons s' ss =>
      have hextra : extra blank (s' :: ss) = 0 := rfl
      rw [hextra, offset_eq]
      exact ih hlater hrest

theorem applyFilePatch_placed {d : FileDiff} (hplaced : d.Placed) {p : FilePatch}
    (hp : p.hunks = hunksFrom d.blank 0 0 d.sections) :
    applyFilePatch host d.original p = .ok (rejoin (endsWithNewline d.original)
      (bodies (newLines d.sections ++ d.tail))) := by
  have hlines : ∀ l ∈ oldLines d.sections, '\n' ∉ l.body := fun l hl =>
    d.old_lines.newline_notMem l (mem_append_left _ hl)
  have happly : applyHunks host ([] ++ (bodies (oldLines d.sections) ++ bodies d.tail)) 0
      (hunksFrom d.blank 0 0 d.sections) =
        .ok ([] ++ (bodies (newLines d.sections) ++ bodies d.tail)) :=
    applyHunks_sections hplaced.blank_kept hlines hplaced.near
  have hbare : (splitLinesKeepends d.original).map rstripNewline =
      bodies (oldLines d.sections) ++ bodies d.tail := by
    rw [FileDiff.original, bare_textOf d.old_lines hplaced.whole, bodies_append]
  rw [nil_append, nil_append, ← hbare, ← hp] at happly
  rw [applyFilePatch, happly, bodies_append]
  rfl

end Hunks

theorem forall₂_iff_forall {α β : Type} {R S : α → β → Prop} {P : α → Prop} {as : List α}
    {bs : List β} (h : List.Forall₂ R as bs) (hS : ∀ a ∈ as, ∀ b, R a b → (S a b ↔ P a)) :
    List.Forall₂ S as bs ↔ ∀ a ∈ as, P a := by
  induction h with
  | nil => simp
  | cons hab _ ih =>
    obtain ⟨ha, hrest⟩ := forall_mem_cons.mp hS
    rw [forall₂_cons, forall_mem_cons, ha _ hab, ih hrest]

/-- Where the printed patch is read as printed and every hunk is found at its own place, the new
texts come out exactly if each of them ends in a newline when its original does. -/
theorem applied_iff (host : Host) {ds : List FileDiff} (hne : ds ≠ [])
    (hread : ∀ d ∈ ds, d.Readable) (hplaced : ∀ d ∈ ds, d.Placed) :
    Applied host ds ↔ ∀ d ∈ ds, endsWithNewline d.original = endsWithNewline d.new := by
  obtain ⟨patches, hparse, hpatches⟩ := parsePatch_patchText hne hread
  have hunique : Applied host ds ↔
      List.Forall₂ (fun d p => applyFilePatch host d.original p = .ok d.new) ds patches := by
    unfold Applied
    rw [hparse]
    simp
  rw [hunique]
  refine forall₂_iff_forall hpatches fun d hd p hp => ?_
  rw [applyFilePatch_placed (hplaced d hd) hp, Except.ok.injEq]
  exact rejoin_bodies d.new_lines (endsWithNewline d.original)

/-! ## Three diffs -/

section Examples

def ascii : Host where
  printable := fun c => 32 ≤ c.toNat && c.toNat < 127
  number := Json.Number.text
  isZero := fun n => n.text == ['0']
  decimal := fun c => if c.isDigit then some (c.toNat - '0'.toNat) else none
  decimal_digit := fun c h => by simp [h]
  decimal_ascii := fun c _ h => by simp [h]

def line (c : Char) : Line := ⟨[c], true⟩

/-- "a\nb\n\nc\n" becomes "x\nb\ny\n\nc\n"; a blank line follows in the patch. -/
def edited : FileDiff where
  oldName := "a/f".toList
  newName := "b/f".toList
  sections := [⟨[], [⟨.delete, line 'a'⟩, ⟨.insert, line 'x'⟩], []⟩,
    ⟨[line 'b'], [⟨.insert, line 'y'⟩], []⟩]
  tail := [⟨[], true⟩, line 'c']
  blank := 1
  hunk_exists := List.cons_ne_nil _ _
  old_lines := by simp [oldLines, Section.old, IsText, line]
  new_lines := by simp [newLines, Section.new, IsText, line]

/-- The empty text becomes "a\n". -/
def created : FileDiff where
  oldName := "/dev/null".toList
  newName := "b/f".toList
  sections := [⟨[], [⟨.insert, line 'a'⟩], []⟩]
  tail := []
  blank := 0
  hunk_exists := List.cons_ne_nil _ _
  old_lines := by simp [oldLines, Section.old, IsText]
  new_lines := by simp [newLines, Section.new, IsText, line]

/-- Two lines change, each with three lines of context. -/
def distant : FileDiff where
  oldName := "a/f".toList
  newName := "b/f".toList
  sections := [
    ⟨[], [⟨.keep, line 'a'⟩, ⟨.keep, line 'b'⟩, ⟨.keep, line 'c'⟩, ⟨.delete, line 'd'⟩,
      ⟨.insert, line 'x'⟩, ⟨.keep, line 'e'⟩, ⟨.keep, line 'f'⟩, ⟨.keep, line 'g'⟩], []⟩,
    ⟨[line 'h'], [⟨.keep, line 'i'⟩, ⟨.keep, line 'j'⟩, ⟨.keep, line 'k'⟩, ⟨.delete, line 'l'⟩,
      ⟨.insert, line 'y'⟩, ⟨.keep, line 'm'⟩, ⟨.keep, line 'n'⟩, ⟨.keep, line 'o'⟩], []⟩]
  tail := []
  blank := 0
  hunk_exists := List.cons_ne_nil _ _
  old_lines := by simp [oldLines, Section.old, IsText, line]
  new_lines := by simp [newLines, Section.new, IsText, line]

theorem edited_readable : edited.Readable where
  oldName := forall_of_all (by decide)
  newName := forall_of_all (by decide)
  sections := by
    intro s hs
    have hs : s = ⟨[], [⟨.delete, line 'a'⟩, ⟨.insert, line 'x'⟩], []⟩ ∨
        s = ⟨[line 'b'], [⟨.insert, line 'y'⟩], []⟩ := by simpa [edited] using hs
    rcases hs with rfl | rfl
    · exact ⟨by simp [Unbroken, chomp], by simp [Unbroken, line, isLineBreak], by simp; rfl⟩
    · exact ⟨by simp [Unbroken, chomp], by simp [Unbroken, line, isLineBreak], by simp⟩

theorem edited_placed : edited.Placed where
  whole := by
    simp [edited, oldLines, Section.old, Line.Whole, Unbroken, chomp, line, isLineBreak]
  blank_kept := by simp [edited]
  near := ⟨nearest_target _ _ 0, nearest_target _ _ 2, trivial⟩

theorem edited_applied : Applied ascii [edited] :=
  (applied_iff ascii (List.cons_ne_nil _ _) (List.forall_mem_singleton.mpr edited_readable)
    (List.forall_mem_singleton.mpr edited_placed)).mpr
      (List.forall_mem_singleton.mpr (by decide))

theorem applied_single {host : Host} {d : FileDiff} {p : FilePatch}
    (hp : (parsePatch host (patchText [d])).toOption = some [p]) (h : Applied host [d]) :
    (applyFilePatch host d.original p).toOption = some d.new := by
  obtain ⟨patches, hparse, hall⟩ := h
  rw [hparse] at hp
  cases hp
  have hnew := (forall₂_cons.mp hall).1
  rw [hnew]
  rfl

/-- The new file comes out without its newline, and the second of two hunks finds no place. -/
theorem diffs_not_applied : ¬Applied ascii [created] ∧ ¬Applied ascii [distant] := by
  have hcreated : (parsePatch ascii (patchText [created])).toOption =
      some [⟨['f'], hunksFrom 0 0 0 created.sections⟩] := by decide +kernel
  have hdistant : (parsePatch ascii (patchText [distant])).toOption =
      some [⟨['f'], hunksFrom 0 0 0 distant.sections⟩] := by decide +kernel
  constructor
  · intro h
    have hnew := applied_single hcreated h
    revert hnew
    decide
  · intro h
    have hnew := applied_single hdistant h
    revert hnew
    decide

end Examples

end MiqroForge.Patch
