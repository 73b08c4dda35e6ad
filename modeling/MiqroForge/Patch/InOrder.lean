import MiqroForge.Patch.Applied

/-!
When the hunks of a file patch apply in order: every hunk is found behind what the hunk before it
put in, and so at lines of the original.
-/

namespace MiqroForge.Patch

open PyText List

/-- The lines of a text as `apply_file_patch` works on them. -/
def bareLines (original : Text) : List Text := (splitLinesKeepends original).map rstripNewline

/-! ## Windows of the original -/

/-- The hunks' old lines stand at the positions, each window behind the one before it; positions
strictly increase, so that one line stands between the windows of two hunks without old lines. -/
def Windows (lines : List Text) : (start : Nat) → List Nat → List Hunk → Prop
  | _, [], [] => True
  | start, q :: qs, hunk :: hunks =>
    start ≤ q ∧ q + hunk.context.length ≤ lines.length ∧
      (lines.drop q).take hunk.context.length = hunk.context ∧
      Windows lines (q + max 1 hunk.context.length) qs hunks
  | _, _, _ => False

/-- The lines from `start` on with the windows replaced. -/
def replaced (lines : List Text) : (start : Nat) → List Nat → List Hunk → List Text
  | start, q :: qs, hunk :: hunks =>
    (lines.drop start).take (q - start) ++ hunk.replacement ++
      replaced lines (q + hunk.context.length) qs hunks
  | start, _, _ => lines.drop start

/-- Where the windows stand once the hunks before them are put in. -/
def shifted : (shift : Int) → List Nat → List Hunk → List Int
  | shift, q :: qs, hunk :: hunks =>
    (q + shift) ::
      shifted (shift + hunk.replacement.length - hunk.context.length) qs hunks
  | _, _, _ => []

/-! ## The places found -/

/-- The lines with a hunk put in at a place. -/
def putIn (lines : List Text) (hunk : Hunk) (position : Int) : List Text :=
  lines.take position.toNat ++ hunk.replacement ++
    lines.drop (position.toNat + hunk.context.length)

/-- The offset behind a hunk. -/
def nextOffset (hunk : Hunk) (position : Int) : Int :=
  (position + hunk.replacement.length) - (hunk.newStart - 1)

section Places
variable (host : Host)

/-- The places at which `_find_hunk_position` finds the hunks. -/
def places : List Text → Int → List Hunk → List Int
  | _, _, [] => []
  | lines, offset, hunk :: hunks =>
    match findHunkPosition host lines hunk offset with
    | .ok (position, _) =>
      position :: places (putIn lines hunk position) (nextOffset hunk position) hunks
    | .error _ => []

/-- The first place that is tried and holds the hunk's old lines is not in front of `front`. -/
def FoundBehind (lines : List Text) (hunk : Hunk) (offset front : Int) : Prop :=
  ∀ p, (p - (hunk.oldStart - 1 + offset)).natAbs ≤ 5 → p < front →
    matchAt lines hunk.context p = true →
    ∃ p', front ≤ p' ∧ Before (hunk.oldStart - 1 + offset) p' p ∧
      matchAt lines hunk.context p' = true

/-- What the text must be before each hunk: the places tried lead behind what the hunk before put
in, and not directly behind a hunk without old lines. -/
def Ahead : List Text → Int → Int → List Hunk → Prop
  | _, _, _, [] => True
  | lines, offset, front, hunk :: hunks =>
    FoundBehind lines hunk offset front ∧
      ∀ position context, findHunkPosition host lines hunk offset = .ok (position, context) →
        Ahead (putIn lines hunk position) (nextOffset hunk position)
          (position + hunk.replacement.length + if hunk.context = [] then 1 else 0) hunks

/-- The hunks are put into the original at the places found, in their order. -/
def InOrder (original : Text) (patch : FilePatch) (result : Text) : Prop :=
  rejoin (endsWithNewline original) (bareLines original) = original ∧
    ∃ qs, Windows (bareLines original) 0 qs patch.hunks ∧
      places host (bareLines original) 0 patch.hunks = shifted 0 qs patch.hunks ∧
      result = rejoin (endsWithNewline original) (replaced (bareLines original) 0 qs patch.hunks)

end Places

/-! ## One hunk -/

section Step
variable {host : Host}

theorem rstripNewline_idem (t : Text) : rstripNewline (rstripNewline t) = rstripNewline t := by
  unfold rstripNewline rstripBy
  rw [reverse_reverse, dropWhile_idempotent]

theorem rstripNewline_bare {original l : Text} (h : l ∈ bareLines original) :
    rstripNewline l = l := by
  obtain ⟨raw, -, rfl⟩ := mem_map.mp h
  exact rstripNewline_idem raw

theorem findHunkPosition_context {lines context : List Text} {hunk : Hunk} {offset position : Int}
    (h : findHunkPosition host lines hunk offset = .ok (position, context)) :
    context = hunk.context := by
  unfold findHunkPosition at h
  dsimp only at h
  split at h
  · exact (Prod.mk.inj (Except.ok.inj h)).2.symm
  · split at h
    · exact (Prod.mk.inj (Except.ok.inj h)).2.symm
    · cases h

theorem findHunkPosition_first {lines context : List Text} {hunk : Hunk} {offset own : Int}
    (h : findHunkPosition host lines hunk offset = .ok (own, context)) :
    ((hunk.oldStart - 1 + offset) :: nearby (hunk.oldStart - 1 + offset)).find?
      (matchAt lines hunk.context) = some own := by
  obtain rfl := findHunkPosition_context h
  cases hfind : ((hunk.oldStart - 1 + offset) :: nearby (hunk.oldStart - 1 + offset)).find?
      (matchAt lines hunk.context) with
  | some first =>
    rw [findHunkPosition_eq lines hunk offset first hfind] at h
    rw [(Prod.mk.inj (Except.ok.inj h)).1]
  | none =>
    obtain ⟨hmatch, hnear⟩ := findHunkPosition_sound h
    have hmiss := find?_eq_none.mp hfind own (mem_tried hnear)
    exact absurd hmatch hmiss

theorem before_total {target p q : Int} (h : p ≠ q) (hno : ¬ Before target p q) :
    Before target q p := by
  unfold Before at hno ⊢
  omega

theorem not_hit_of_find? {α : Type} {R : α → α → Prop} {f : α → Bool} {l : List α} {a : α}
    (hl : l.Pairwise R) (h : l.find? f = some a) {b : α} (hb : b ∈ l) (hba : ¬ R a b)
    (hne : a ≠ b) : f b = false := by
  induction l with
  | nil => cases hb
  | cons c l ih =>
    obtain ⟨hc, hl⟩ := pairwise_cons.mp hl
    by_cases hfc : f c = true
    · rw [find?_cons_of_pos hfc] at h
      cases h
      rcases mem_cons.mp hb with rfl | hb
      · exact absurd rfl hne
      · exact absurd (hc b hb) hba
    · rw [find?_cons_of_neg hfc] at h
      rcases mem_cons.mp hb with rfl | hb
      · exact Bool.eq_false_iff.mpr hfc
      · exact ih hl h hb

theorem foundBehind_iff {lines context : List Text} {hunk : Hunk} {offset own : Int}
    (h : findHunkPosition host lines hunk offset = .ok (own, context)) (front : Int) :
    FoundBehind lines hunk offset front ↔ front ≤ own := by
  obtain rfl := findHunkPosition_context h
  obtain ⟨hmatch, hnear⟩ := findHunkPosition_sound h
  have hfirst := findHunkPosition_first h
  have hbefore : ∀ p, Before (hunk.oldStart - 1 + offset) p own →
      matchAt lines hunk.context p = false := by
    intro p hp
    have htried : p ∈ (hunk.oldStart - 1 + offset) :: nearby (hunk.oldStart - 1 + offset) := by
      refine mem_tried ?_
      unfold Before at hp
      omega
    refine not_hit_of_find? (tried_sorted _) hfirst htried ?_ ?_
    · unfold Before at hp ⊢
      omega
    · rintro rfl
      unfold Before at hp
      omega
  constructor
  · intro hbehind
    by_contra hlt
    obtain ⟨p', -, hp', hmatch'⟩ := hbehind own hnear (Int.not_le.mp hlt) hmatch
    rw [hbefore p' hp'] at hmatch'
    cases hmatch'
  · intro hle p _ hp hpmatch
    refine ⟨own, hle, before_total (by omega) fun hp' => ?_, hmatch⟩
    rw [hbefore p hp'] at hpmatch
    cases hpmatch

theorem matchAt_rest {lines done : List Text} {k : Nat} (hk : k ≤ lines.length)
    (hplain : ∀ l ∈ lines, rstripNewline l = l) (context : List Text) {q : Nat} (hq : k ≤ q) :
    matchAt (done ++ lines.drop k) context ((done.length : Int) + q - k) = true ↔
      q + context.length ≤ lines.length ∧ (lines.drop q).take context.length = context := by
  have hplace : ((done.length : Int) + q - k).toNat = done.length + (q - k) := by omega
  have hdrop : (done ++ lines.drop k).drop (done.length + (q - k)) = lines.drop q := by
    rw [drop_length_add_append, drop_drop]
    congr 1
    omega
  have hsame : ((lines.drop q).take context.length).map rstripNewline =
      (lines.drop q).take context.length :=
    (map_congr_left fun l hl =>
      hplain l (mem_of_mem_drop (mem_of_mem_take hl))).trans (map_id' _)
  have hrange : ((done.length : Int) + q - k < 0 ∨
      ((done ++ lines.drop k).length : Int) < (done.length : Int) + q - k + context.length) ↔
        ¬ q + context.length ≤ lines.length := by
    rw [length_append, length_drop]
    omega
  unfold matchAt
  rw [hplace, hdrop, hsame]
  by_cases hin : q + context.length ≤ lines.length
  · rw [if_neg fun h => hrange.mp h hin, beq_iff_eq]
    exact (and_iff_right hin).symm
  · rw [if_pos (hrange.mpr hin)]
    exact iff_of_false nofun fun h => hin h.1

theorem putIn_rest {lines done : List Text} {k : Nat} (hunk : Hunk) {q : Nat} (hq : k ≤ q) :
    putIn (done ++ lines.drop k) hunk ((done.length : Int) + q - k) =
      (done ++ (lines.drop k).take (q - k) ++ hunk.replacement) ++
        lines.drop (q + hunk.context.length) := by
  have hplace : ((done.length : Int) + q - k).toNat = done.length + (q - k) := by omega
  have hdrop : (done ++ lines.drop k).drop (done.length + (q - k) + hunk.context.length) =
      lines.drop (q + hunk.context.length) := by
    rw [Nat.add_assoc, drop_length_add_append, drop_drop]
    congr 1
    omega
  have htake : (done ++ lines.drop k).take (done.length + (q - k)) =
      done ++ (lines.drop k).take (q - k) := take_length_add_append _
  unfold putIn
  rw [hplace, hdrop, htake]

end Step

/-! ## All hunks -/

section Run
variable {host : Host}

theorem applyHunks_cons {lines : List Text} {offset position : Int} {context : List Text}
    {hunk : Hunk} (h : findHunkPosition host lines hunk offset = .ok (position, context))
    (hunks : List Hunk) :
    applyHunks host lines offset (hunk :: hunks) =
      applyHunks host (putIn lines hunk position) (nextOffset hunk position) hunks := by
  obtain rfl := findHunkPosition_context h
  rw [applyHunks, h]
  rfl

theorem exists_found {lines final : List Text} {offset : Int} {hunk : Hunk} {hunks : List Hunk}
    (h : applyHunks host lines offset (hunk :: hunks) = .ok final) :
    ∃ position, findHunkPosition host lines hunk offset = .ok (position, hunk.context) := by
  cases hfind : findHunkPosition host lines hunk offset with
  | ok found =>
    obtain ⟨position, context⟩ := found
    exact ⟨position, by rw [findHunkPosition_context hfind]⟩
  | error e =>
    rw [applyHunks, hfind] at h
    cases h

/-- **The hunks are put into the original in their order** exactly where every search leads behind
the hunk before. The induction is on the hunks: `done` is the text up to the end of the last one,
and the lines of the original from `k` on follow it. -/
theorem applyHunks_inOrder {lines final : List Text} (hplain : ∀ l ∈ lines, rstripNewline l = l)
    {hunks : List Hunk} {done : List Text} {k : Nat} (hk : k ≤ lines.length) {offset : Int}
    {gap : Nat} (h : applyHunks host (done ++ lines.drop k) offset hunks = .ok final) :
    (Ahead host (done ++ lines.drop k) offset (done.length + gap : Nat) hunks →
      ∃ qs, Windows lines (k + gap) qs hunks ∧
        places host (done ++ lines.drop k) offset hunks =
          shifted ((done.length : Int) - k) qs hunks ∧
        final = done ++ replaced lines k qs hunks) ∧
    ∀ qs, Windows lines (k + gap) qs hunks →
      places host (done ++ lines.drop k) offset hunks =
        shifted ((done.length : Int) - k) qs hunks →
      Ahead host (done ++ lines.drop k) offset (done.length + gap : Nat) hunks := by
  induction hunks generalizing done k offset gap with
  | nil =>
    have hfinal : done ++ lines.drop k = final := Except.ok.inj h
    exact ⟨fun _ => ⟨[], trivial, rfl, hfinal.symm⟩, fun _ _ _ => trivial⟩
  | cons hunk hunks ih =>
    obtain ⟨position, hfound⟩ := exists_found h
    rw [applyHunks_cons hfound] at h
    have hplaces : places host (done ++ lines.drop k) offset (hunk :: hunks) =
        position :: places host (putIn (done ++ lines.drop k) hunk position)
          (nextOffset hunk position) hunks := by
      rw [places, hfound]
    have hahead : Ahead host (done ++ lines.drop k) offset (done.length + gap : Nat)
        (hunk :: hunks) ↔ ((done.length + gap : Nat) : Int) ≤ position ∧
          Ahead host (putIn (done ++ lines.drop k) hunk position) (nextOffset hunk position)
            (position + hunk.replacement.length + if hunk.context = [] then 1 else 0) hunks := by
      rw [Ahead, foundBehind_iff hfound]
      refine and_congr_right fun _ => ⟨fun hall => hall position _ hfound, fun hone p c hp => ?_⟩
      rw [hfound] at hp
      obtain ⟨rfl, -⟩ := Prod.mk.inj (Except.ok.inj hp)
      exact hone
    rw [hahead, hplaces]
    -- what is left behind this hunk, once its window in the original is known
    have hrest : ∀ q : Nat, k + gap ≤ q → position = (done.length : Int) + q - k →
        (q + hunk.context.length ≤ lines.length ∧
          (lines.drop q).take hunk.context.length = hunk.context) ∧
        (Ahead host (putIn (done ++ lines.drop k) hunk position) (nextOffset hunk position)
            (position + hunk.replacement.length + if hunk.context = [] then 1 else 0) hunks →
          ∃ qs, Windows lines (q + max 1 hunk.context.length) qs hunks ∧
            places host (putIn (done ++ lines.drop k) hunk position)
              (nextOffset hunk position) hunks =
              shifted ((done.length : Int) - k + hunk.replacement.length - hunk.context.length)
                qs hunks ∧
            final = done ++ ((lines.drop k).take (q - k) ++ (hunk.replacement ++
              replaced lines (q + hunk.context.length) qs hunks))) ∧
        ∀ qs, Windows lines (q + max 1 hunk.context.length) qs hunks →
          places host (putIn (done ++ lines.drop k) hunk position)
            (nextOffset hunk position) hunks =
            shifted ((done.length : Int) - k + hunk.replacement.length - hunk.context.length)
              qs hunks →
          Ahead host (putIn (done ++ lines.drop k) hunk position) (nextOffset hunk position)
            (position + hunk.replacement.length + if hunk.context = [] then 1 else 0) hunks := by
      intro q hq hposition
      have hkq : k ≤ q := Nat.le_trans (Nat.le_add_right k gap) hq
      have hmatch := (findHunkPosition_sound hfound).1
      rw [hposition] at hmatch
      have hwindow := (matchAt_rest hk hplain hunk.context hkq).mp hmatch
      refine ⟨hwindow, ?_⟩
      have hput : putIn (done ++ lines.drop k) hunk position =
          (done ++ (lines.drop k).take (q - k) ++ hunk.replacement) ++
            lines.drop (q + hunk.context.length) := hposition ▸ putIn_rest hunk hkq
      have hlength : (done ++ (lines.drop k).take (q - k) ++ hunk.replacement).length =
          done.length + (q - k) + hunk.replacement.length := by
        have hwithin : q - k ≤ (lines.drop k).length := by
          rw [length_drop]
          omega
        rw [length_append, length_append, length_take_of_le hwithin]
      have hgap : max 1 hunk.context.length =
          hunk.context.length + if hunk.context = [] then 1 else 0 := by
        cases hunk.context with
        | nil => rfl
        | cons l ls => rw [if_neg (cons_ne_nil l ls), length_cons]; omega
      rw [hput] at h
      have hnext := @ih _ _ hwindow.1 _ (if hunk.context = [] then 1 else 0) h
      have hfront : position + hunk.replacement.length +
          (if hunk.context = [] then 1 else 0 : Int) =
          (((done ++ (lines.drop k).take (q - k) ++ hunk.replacement).length +
            if hunk.context = [] then 1 else 0 : Nat) : Int) := by
        rw [hlength]
        split <;> omega
      have hshift : (((done ++ (lines.drop k).take (q - k) ++ hunk.replacement).length : Int) -
          (q + hunk.context.length : Nat)) =
          (done.length : Int) - k + hunk.replacement.length - hunk.context.length := by
        rw [hlength]
        omega
      rw [← hfront, hshift, Nat.add_assoc, ← hgap, ← hput] at hnext
      simpa only [append_assoc] using hnext
    constructor
    · rintro ⟨hle, htail⟩
      have hq : k + gap ≤ (position - done.length + k).toNat := by omega
      have hposition : position = (done.length : Int) + (position - done.length + k).toNat - k := by
        omega
      obtain ⟨⟨hin, hwindow⟩, hlater, -⟩ := hrest _ hq hposition
      obtain ⟨qs, hwindows, hshifted, hfinal⟩ := hlater htail
      refine ⟨(position - done.length + k).toNat :: qs, ⟨hq, hin, hwindow, hwindows⟩, ?_,
        hfinal.trans (by rw [replaced, append_assoc])⟩
      rw [hshifted, shifted]
      congr 1
      omega
    · intro qs hwindows hshifted
      cases qs with
      | nil => exact absurd hwindows id
      | cons q qs =>
        obtain ⟨hq, -, -, hwindows⟩ := hwindows
        rw [shifted] at hshifted
        obtain ⟨hhead, htail⟩ := List.cons.inj hshifted
        have hposition : position = (done.length : Int) + q - k := by omega
        exact ⟨by omega, (hrest q hq hposition).2.2 qs hwindows htail⟩

/-- **Hunks apply in order to the original** exactly where its lines end in newlines and every search
leads behind the hunk before. -/
theorem inOrder_iff (original : Text) (patch : FilePatch) (result : Text)
    (h : applyFilePatch host original patch = .ok result) :
    InOrder host original patch result ↔
      rejoin (endsWithNewline original) (bareLines original) = original ∧
        Ahead host (bareLines original) 0 0 patch.hunks := by
  have hplain : ∀ l ∈ bareLines original, rstripNewline l = l := fun l hl => rstripNewline_bare hl
  cases hrun : applyHunks host (bareLines original) 0 patch.hunks with
  | error e =>
    have hfail : applyFilePatch host original patch = .error e := by
      unfold applyFilePatch
      rw [show (splitLinesKeepends original).map rstripNewline = bareLines original from rfl]
      simp only [hrun, bind, Except.bind]
    rw [hfail] at h
    cases h
  | ok final =>
    have hresult : result = rejoin (endsWithNewline original) final := by
      unfold applyFilePatch at h
      rw [show (splitLinesKeepends original).map rstripNewline = bareLines original from rfl] at h
      simp only [hrun, bind, Except.bind] at h
      exact (Except.ok.inj h).symm
    have hall := @applyHunks_inOrder host _ _ hplain _ [] _ (Nat.zero_le _) _ 0 hrun
    refine and_congr_right fun _ => ⟨?_, fun hahead => ?_⟩
    · rintro ⟨qs, hwindows, hshifted, -⟩
      exact hall.2 qs hwindows hshifted
    · obtain ⟨qs, hwindows, hshifted, hfinal⟩ := hall.1 hahead
      refine ⟨qs, hwindows, hshifted, ?_⟩
      rw [hresult, hfinal]
      rfl

end Run

/-- One line of the original replaced. -/
def secondLine : FilePatch :=
  ⟨['f'], [⟨2, 1, 2, 1, ["-b".toList, "+c".toList]⟩]⟩

theorem inOrder_secondLine : InOrder ascii "a\nb\n".toList secondLine "a\nc\n".toList ↔
    rejoin (endsWithNewline "a\nb\n".toList) (bareLines "a\nb\n".toList) = "a\nb\n".toList ∧
      Ahead ascii (bareLines "a\nb\n".toList) 0 0 secondLine.hunks :=
  inOrder_iff "a\nb\n".toList secondLine "a\nc\n".toList rfl

/-- The second hunk takes away the line that the first puts in; the original has no such line. -/
def strayText : Text :=
  "--- a/f\n+++ b/f\n@@ -1,1 +1,2 @@\n a\n+x\n@@ -2,1 +3,1 @@\n-x\n+y\n".toList

def stray : FilePatch :=
  ⟨['f'], [⟨1, 1, 1, 2, [" a".toList, "+x".toList]⟩, ⟨2, 1, 3, 1, ["-x".toList, "+y".toList]⟩]⟩

theorem stray_not_inOrder : ¬ ∀ (host : Host) (text original result : Text) (patch : FilePatch),
    (parsePatch host text).toOption = some [patch] →
      applyFilePatch host original patch = .ok result → InOrder host original patch result := by
  intro h
  obtain ⟨-, qs, hwindows, hshifted, -⟩ :=
    h ascii strayText "a\nb\n".toList "a\ny\nb\n".toList stray (by decide +kernel) rfl
  have hplaces : places ascii (bareLines "a\nb\n".toList) 0 stray.hunks = [0, 1] := rfl
  rw [hplaces] at hshifted
  rcases qs with - | ⟨q, - | ⟨q', qs⟩⟩
  · exact hwindows
  · exact hwindows.2.2.2
  · obtain ⟨-, -, -, hbehind, -⟩ := hwindows
    obtain ⟨-, htail⟩ := List.cons.inj hshifted
    have hsecond := (List.cons.inj htail).1
    have hle : q + 1 ≤ q' := hbehind
    have hq' : (1 : Int) = q' + (0 + (2 : Nat) - (1 : Nat)) := hsecond
    omega

end MiqroForge.Patch
