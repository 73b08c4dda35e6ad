import MiqroForge.Patch.Parse

/-! A file patch applied to a text: the search for a hunk's place, and what is put there. -/

namespace MiqroForge.Patch

open PyText List

/-- `rstrip("\n")` -/
def rstripNewline (t : Text) : Text := rstripBy (· == '\n') t

def endsWithNewline (t : Text) : Bool := t.getLast? == some '\n'

def splitLinesKeepends (text : Text) : List Text :=
  if text = [] then [] else splitlinesKeepends text

def matchAt (lines context : List Text) (start : Int) : Bool :=
  if start < 0 ∨ (lines.length : Int) < start + context.length then false
  else ((lines.drop start.toNat).take context.length).map rstripNewline == context

/-- A hunk line among the lines it looks for. -/
def contextLine? : Text → Option Text
  | [] => some []
  | c :: body => if c = '+' then none else if c = ' ' ∨ c = '-' then some body else none

/-- A hunk line among the lines it leaves. -/
def replacementLine? : Text → Option Text
  | [] => some []
  | c :: body => if c = ' ' ∨ c = '+' then some body else none

def Hunk.context (hunk : Hunk) : List Text := hunk.lines.filterMap contextLine?

def Hunk.replacement (hunk : Hunk) : List Text := hunk.lines.filterMap replacementLine?

/-- The places tried after the target itself. -/
def nearby (target : Int) : List Int :=
  ([1, 2, 3, 4, 5] : List Int).flatMap fun delta => [target - delta, target + delta]

section Apply
variable (host : Host)

def findHunkPosition (lines : List Text) (hunk : Hunk) (offset : Int) :
    Except Text (Int × List Text) :=
  let context := hunk.context
  let target : Int := hunk.oldStart - 1 + offset
  if matchAt lines context target then .ok (target, context)
  else
    let found := (nearby target).find? fun candidate =>
      !decide (candidate < 0 ∨ candidate > (lines.length : Int) - context.length) &&
        matchAt lines context candidate
    match found with
    | some candidate => .ok (candidate, context)
    | none => .error ("Could not apply hunk at line ".toList ++ lineNumber hunk.oldStart ++
        " for ".toList ++ PyRepr.repr host.toPython (.arr (context.map .str)))

def applyHunks : List Text → Int → List Hunk → Except Text (List Text)
  | bare, _, [] => .ok bare
  | bare, offset, hunk :: hunks => do
    let (position, context) ← findHunkPosition host bare hunk offset
    let replacement := hunk.replacement
    let bare := bare.take position.toNat ++ replacement ++
      bare.drop (position.toNat + context.length)
    applyHunks bare ((position + replacement.length) - (hunk.newStart - 1)) hunks

/-- The text is put together with the final newline of the original. -/
def rejoin (hadTrailingNewline : Bool) (bare : List Text) : Text :=
  if bare = [] ∧ hadTrailingNewline = false then []
  else if hadTrailingNewline then ['\n'].intercalate bare ++ ['\n']
  else ['\n'].intercalate bare

def applyFilePatch (original : Text) (filePatch : FilePatch) : Except Text Text := do
  let bare := (splitLinesKeepends original).map rstripNewline
  let bare ← applyHunks host bare 0 filePatch.hunks
  return rejoin (endsWithNewline original) bare

end Apply

/-! ## The search -/

section Search
variable {host : Host} {lines : List Text} {target : Int}

/-- `p` is tried before `q`. -/
def Before (target p q : Int) : Prop :=
  (p - target).natAbs < (q - target).natAbs ∨ (p - target).natAbs = (q - target).natAbs ∧ p < q

/-- The lines are looked for at `own`, and are found at no place that is tried before. -/
def Nearest (lines context : List Text) (target own : Int) : Prop :=
  (own - target).natAbs ≤ 5 ∧ ∀ p, Before target p own → matchAt lines context p = false

theorem nearest_target (lines context : List Text) (target : Int) :
    Nearest lines context target target := by
  refine ⟨by simp, fun p hp => ?_⟩
  unfold Before at hp
  omega

theorem find?_of_pairwise {α : Type} {R : α → α → Prop} {p : α → Bool} {l : List α} {a : α}
    (hl : l.Pairwise R) (hmem : a ∈ l) (ha : p a = true) (hbefore : ∀ b, R b a → p b = false) :
    l.find? p = some a := by
  induction l with
  | nil => cases hmem
  | cons b l ih =>
    obtain ⟨hb, hl⟩ := pairwise_cons.mp hl
    rcases mem_cons.mp hmem with rfl | hmem
    · exact find?_cons_of_pos ha
    · have hmiss : ¬p b = true := by simp [hbefore b (hb a hmem)]
      rw [find?_cons_of_neg hmiss]
      exact ih hl hmem

theorem tried_eq (target : Int) : target :: nearby target =
    ([0, -1, 1, -2, 2, -3, 3, -4, 4, -5, 5] : List Int).map (target + ·) := by
  simp [nearby, Int.sub_eq_add_neg]

theorem tried_sorted (target : Int) : (target :: nearby target).Pairwise (Before target) := by
  have hshifts : ([0, -1, 1, -2, 2, -3, 3, -4, 4, -5, 5] : List Int).Pairwise
      fun a b => a.natAbs < b.natAbs ∨ a.natAbs = b.natAbs ∧ a < b := by decide
  rw [tried_eq, pairwise_map]
  refine hshifts.imp fun h => ?_
  unfold Before
  omega

theorem mem_tried {target own : Int} (h : (own - target).natAbs ≤ 5) :
    own ∈ target :: nearby target := by
  simp only [nearby, flatMap_cons, flatMap_nil, cons_append, nil_append,
    mem_cons, not_mem_nil]
  omega

theorem matchAt_inside {lines context : List Text} {start : Int}
    (h : matchAt lines context start = true) :
    ¬(start < 0 ∨ start > (lines.length : Int) - context.length) := by
  unfold matchAt at h
  split at h
  · cases h
  · omega

theorem findHunkPosition_eq (lines : List Text) (hunk : Hunk) (offset own : Int)
    (h : ((hunk.oldStart - 1 + offset) :: nearby (hunk.oldStart - 1 + offset)).find?
      (matchAt lines hunk.context) = some own) :
    findHunkPosition host lines hunk offset = .ok (own, hunk.context) := by
  have hguard : (fun candidate => !decide (candidate < 0 ∨
      candidate > (lines.length : Int) - hunk.context.length) &&
        matchAt lines hunk.context candidate) = matchAt lines hunk.context := by
    funext candidate
    cases hmatch : matchAt lines hunk.context candidate with
    | false => simp
    | true => simpa using matchAt_inside hmatch
  unfold findHunkPosition
  dsimp only
  rw [hguard]
  by_cases hmatch : matchAt lines hunk.context (hunk.oldStart - 1 + offset) = true
  · rw [find?_cons_of_pos hmatch] at h
    rw [if_pos hmatch, Option.some.inj h]
  · rw [find?_cons_of_neg hmatch] at h
    rw [if_neg hmatch, h]

theorem findHunkPosition_sound {hunk : Hunk} {offset position : Int} {context : List Text}
    (h : findHunkPosition host lines hunk offset = .ok (position, context)) :
    matchAt lines context position = true ∧
      (position - (hunk.oldStart - 1 + offset)).natAbs ≤ 5 := by
  unfold findHunkPosition at h
  dsimp only at h
  split at h
  case isTrue hmatch =>
    cases h
    exact ⟨hmatch, by omega⟩
  case isFalse =>
    split at h
    case h_1 candidate hfound =>
      cases h
      have hnear := mem_of_find?_eq_some hfound
      have hmatch := find?_some hfound
      refine ⟨(Bool.and_eq_true_iff.mp hmatch).2, ?_⟩
      simp only [nearby, flatMap_cons, flatMap_nil, cons_append, nil_append,
        mem_cons, not_mem_nil, or_false] at hnear
      omega
    case h_2 => cases h

theorem matchAt_own {before context after : List Text}
    (h : ∀ l ∈ context, rstripNewline l = l) :
    matchAt (before ++ context ++ after) context before.length = true := by
  have hinside : ¬(((before.length : Int) < 0) ∨
      ((before ++ context ++ after).length : Int) < before.length + context.length) := by
    simp only [length_append]
    omega
  have hdrop : (before ++ context ++ after).drop before.length = context ++ after := by
    rw [append_assoc, drop_left]
  unfold matchAt
  rw [if_neg hinside, Int.toNat_natCast, hdrop, take_left, map_congr_left h, map_id']
  exact beq_self_eq_true context

theorem findHunkPosition_nearest {before after : List Text} {hunk : Hunk} {offset : Int}
    (hcontext : ∀ l ∈ hunk.context, rstripNewline l = l)
    (h : Nearest (before ++ hunk.context ++ after) hunk.context (hunk.oldStart - 1 + offset)
      before.length) :
    findHunkPosition host (before ++ hunk.context ++ after) hunk offset =
      .ok ((before.length : Int), hunk.context) :=
  findHunkPosition_eq _ _ _ _ <|
    find?_of_pairwise (tried_sorted _) (mem_tried h.1) (matchAt_own hcontext) h.2

theorem applyHunks_nearest {before after : List Text} {hunk : Hunk} {offset : Int}
    (hunks : List Hunk) (hcontext : ∀ l ∈ hunk.context, rstripNewline l = l)
    (h : Nearest (before ++ hunk.context ++ after) hunk.context (hunk.oldStart - 1 + offset)
      before.length) :
    applyHunks host (before ++ hunk.context ++ after) offset (hunk :: hunks) =
      applyHunks host (before ++ hunk.replacement ++ after)
        ((before.length + hunk.replacement.length : Int) - (hunk.newStart - 1)) hunks := by
  have htake : (before ++ hunk.context ++ after).take before.length = before := by
    rw [append_assoc, take_left]
  have hdrop : (before ++ hunk.context ++ after).drop (before.length + hunk.context.length) =
      after := by
    rw [← length_append, drop_left]
  rw [applyHunks, findHunkPosition_nearest hcontext h]
  simp only [bind, Except.bind, Int.toNat_natCast, htake, hdrop]

end Search

end MiqroForge.Patch
