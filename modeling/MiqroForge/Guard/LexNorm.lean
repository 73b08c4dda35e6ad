import MiqroForge.Guard.Classify
import MiqroForge.Library.PosixPaths

/-!
`_lex_norm` as a walk from the root: the sandbox classification of an operand depends on the
directory it names and on nothing else of its text.
-/

namespace MiqroForge.Guard

open PyText Paths PosixPaths List

/-- `path.replace("\\", "/")`: both slashes separate segments. -/
def slashed (path : Text) : Text := path.map fun c => if c = '\\' then '/' else c

/-- The names from the root that a text leads to; `..` at the root stays there. -/
def walked (path : Text) : List Text := walk [] (segments (slashed path))

/-- What a segment of a normalized path may be. -/
def Proper (seg : Text) : Prop := Name seg ∧ seg ≠ dotdot

/-! ## One segment -/

theorem lexStep_skip {seg : Text} (h : ¬(seg ≠ [] ∧ seg ≠ ['.'])) (parts : List Text) :
    lexStep parts seg = parts := by
  have hskip : seg = [] ∨ seg = ".".toList := by
    by_contra hno
    exact h (not_or.mp hno)
  exact if_pos hskip

theorem lexStep_name {seg : Text} (h : seg ≠ [] ∧ seg ≠ ['.']) {dir : List Text}
    (hdir : dotdot ∉ dir) :
    lexStep dir.reverse seg = (enter dir seg).reverse := by
  have hkeep : ¬(seg = [] ∨ seg = ".".toList) := not_or.mpr h
  by_cases hup : seg = dotdot
  · have henter : enter dir seg = dir.dropLast := if_pos hup
    rw [henter]
    refine ((if_neg hkeep).trans (if_pos hup)).trans ?_
    rcases eq_nil_or_concat dir with rfl | ⟨init, last, rfl⟩
    · rfl
    · rw [concat_eq_append] at hdir ⊢
      have hlast : last ≠ "..".toList := fun he =>
        hdir (mem_append_right init (mem_singleton.mpr he.symm))
      rw [reverse_append, dropLast_concat]
      exact if_neg hlast
  · have hstep : lexStep dir.reverse seg = seg :: dir.reverse := (if_neg hkeep).trans (if_neg hup)
    have henter : enter dir seg = dir ++ [seg] := if_neg hup
    rw [hstep, henter, reverse_append]
    rfl

theorem dotdot_not_mem_enter {dir : List Text} (hdir : dotdot ∉ dir) (seg : Text) :
    dotdot ∉ enter dir seg := by
  unfold enter
  split
  · exact fun hm => hdir (dropLast_subset dir hm)
  case isFalse hname =>
    intro hm
    rcases mem_append.mp hm with hm | hm
    · exact hdir hm
    · exact hname (mem_singleton.mp hm).symm

/-! ## Whole paths -/

/-- **The loop of `_lex_norm` walks the segments that name something.** -/
theorem foldl_lexStep (segs : List Text) {dir : List Text} (hdir : dotdot ∉ dir) :
    segs.foldl lexStep dir.reverse =
      (walk dir (segs.filter fun c => decide (c ≠ [] ∧ c ≠ ['.']))).reverse := by
  induction segs generalizing dir with
  | nil => rfl
  | cons seg segs ih =>
    by_cases hname : seg ≠ [] ∧ seg ≠ ['.']
    · rw [filter_cons_of_pos (by exact decide_eq_true hname), foldl_cons,
        lexStep_name hname hdir, ih (dotdot_not_mem_enter hdir seg)]
      rfl
    · rw [filter_cons_of_neg (by simpa using hname), foldl_cons,
        lexStep_skip hname, ih hdir]

theorem lexNorm_eq (path : Text) : lexNorm path = '/' :: join (walked path) := by
  have hfold := foldl_lexStep (split (slashed path)) (not_mem_nil : dotdot ∉ [])
  exact congrArg (fun parts => '/' :: join parts.reverse) hfold |>.trans
    (congrArg (fun parts => '/' :: join parts) (reverse_reverse _))

theorem mem_walk {segs dir : List Text} {c : Text} (h : c ∈ walk dir segs) :
    c ∈ dir ∨ c ∈ segs := by
  induction segs generalizing dir with
  | nil => exact Or.inl h
  | cons seg segs ih =>
    rcases ih h with hin | hin
    · unfold enter at hin
      split at hin
      · exact Or.inl (dropLast_subset dir hin)
      · rcases mem_append.mp hin with hin | hin
        · exact Or.inl hin
        · exact Or.inr (mem_singleton.mp hin ▸ mem_cons_self)
    · exact Or.inr (mem_cons_of_mem seg hin)

theorem dotdot_not_mem_walk (segs : List Text) {dir : List Text} (hdir : dotdot ∉ dir) :
    dotdot ∉ walk dir segs := by
  induction segs generalizing dir with
  | nil => exact hdir
  | cons seg segs ih => exact ih (dotdot_not_mem_enter hdir seg)

theorem mem_walked {path seg : Text} (h : seg ∈ walked path) :
    seg ∈ segments (slashed path) :=
  (mem_walk h).resolve_left not_mem_nil

theorem proper_walked {path seg : Text} (h : seg ∈ walked path) : Proper seg :=
  ⟨name_of_mem_segments (mem_walked h),
    fun he => dotdot_not_mem_walk _ not_mem_nil (he ▸ h)⟩

theorem walk_proper (dir : List Text) {segs : List Text} (h : ∀ c ∈ segs, Proper c) :
    walk dir segs = dir ++ segs := by
  induction segs generalizing dir with
  | nil => exact (append_nil dir).symm
  | cons seg segs ih =>
    have henter : enter dir seg = dir ++ [seg] := if_neg (h seg mem_cons_self).2
    calc walk dir (seg :: segs)
        = walk (dir ++ [seg]) segs := congrArg (walk · segs) henter
      _ = dir ++ [seg] ++ segs := ih _ fun c hc => h c (mem_cons_of_mem seg hc)
      _ = dir ++ seg :: segs := append_assoc dir [seg] segs

/-! ## Backslashes -/

theorem backslash_not_mem_slashed (path : Text) : '\\' ∉ slashed path := by
  intro hm
  obtain ⟨c, -, hc⟩ := mem_map.mp hm
  split at hc
  · exact absurd hc (by decide)
  case isFalse hne => exact hne hc

theorem slashed_of_not_mem {path : Text} (h : '\\' ∉ path) : slashed path = path := by
  refine (map_congr_left fun c hc => ?_).trans (map_id path)
  have hne : c ≠ '\\' := fun he => h (he ▸ hc)
  exact if_neg hne

theorem slashed_append (a b : Text) : slashed (a ++ '/' :: b) = slashed a ++ '/' :: slashed b :=
  map_append

theorem mem_of_mem_split {t seg : Text} (h : seg ∈ split t) {c : Char} (hc : c ∈ seg) : c ∈ t := by
  induction t generalizing seg with
  | nil => exact absurd (mem_singleton.mp h ▸ hc) not_mem_nil
  | cons d t ih =>
    rw [split_cons] at h
    split at h
    · rcases mem_cons.mp h with rfl | h
      · exact absurd hc not_mem_nil
      · exact mem_cons_of_mem d (ih h hc)
    · split at h
      · rcases mem_cons.mp (mem_singleton.mp h ▸ hc) with rfl | hc
        · exact mem_cons_self
        · exact absurd hc not_mem_nil
      case h_2 first rest hsplit =>
        rcases mem_cons.mp h with rfl | h
        · rcases mem_cons.mp hc with rfl | hc
          · exact mem_cons_self
          · exact mem_cons_of_mem d (ih (hsplit ▸ mem_cons_self) hc)
        · exact mem_cons_of_mem d (ih (hsplit ▸ mem_cons_of_mem first h) hc)

theorem mem_of_mem_join {segs : List Text} {c : Char} (h : c ∈ join segs) :
    c = '/' ∨ ∃ seg ∈ segs, c ∈ seg := by
  induction segs with
  | nil => exact absurd h not_mem_nil
  | cons seg segs ih =>
    cases segs with
    | nil => exact Or.inr ⟨seg, mem_cons_self, h⟩
    | cons next segs =>
      rw [join_cons_cons] at h
      rcases mem_append.mp h with h | h
      · exact Or.inr ⟨seg, mem_cons_self, h⟩
      rcases mem_cons.mp h with h | h
      · exact Or.inl h
      · obtain rfl | ⟨d, hd, hc⟩ := ih h
        · exact Or.inl rfl
        · exact Or.inr ⟨d, mem_cons_of_mem seg hd, hc⟩

theorem backslash_not_mem_lexNorm (path : Text) : '\\' ∉ lexNorm path := by
  rw [lexNorm_eq]
  intro h
  rcases mem_cons.mp h with h | h
  · exact absurd h (by decide)
  obtain h | ⟨seg, hseg, hc⟩ := mem_of_mem_join h
  · exact absurd h (by decide)
  · have hsplit : seg ∈ split (slashed path) := mem_of_mem_filter (mem_walked hseg)
    exact backslash_not_mem_slashed path (mem_of_mem_split hsplit hc)

/-! ## The laws -/

theorem segments_lexNorm (path : Text) : segments (slashed (lexNorm path)) = walked path := by
  rw [slashed_of_not_mem (backslash_not_mem_lexNorm path), lexNorm_eq, segments_slash]
  exact segments_join fun c hc => (proper_walked hc).1

theorem walked_lexNorm (path : Text) : walked (lexNorm path) = walked path := by
  rw [walked, segments_lexNorm]
  exact walk_proper [] fun c hc => proper_walked hc

theorem walked_append (a b : Text) :
    walked (a ++ '/' :: b) = walk (walked a) (segments (slashed b)) := by
  rw [walked, slashed_append, segments_append, walk_append]
  rfl

/-- **Normalization is the clamped walk from the root**: it gives an absolute path of proper
segments, is a fixed point of itself, and may be taken of the text in front of a slash first. -/
theorem lexNorm_spec (path a b : Text) :
    lexNorm path = '/' :: join (walked path) ∧
    (∀ seg ∈ walked path, Plain seg ∧ seg ≠ [] ∧ seg ≠ ".".toList ∧ seg ≠ "..".toList) ∧
    lexNorm (lexNorm path) = lexNorm path ∧
    lexNorm (a ++ '/' :: b) = lexNorm (lexNorm a ++ '/' :: b) := by
  refine ⟨lexNorm_eq path, fun seg h => ?_, ?_, ?_⟩
  · obtain ⟨⟨hplain, hne, hdot⟩, hup⟩ := proper_walked h
    exact ⟨hplain, hne, hdot, hup⟩
  · rw [lexNorm_eq (lexNorm path), walked_lexNorm, lexNorm_eq path]
  · rw [lexNorm_eq (a ++ '/' :: b), lexNorm_eq (lexNorm a ++ '/' :: b), walked_append,
      walked_append, walked_lexNorm]

example : lexNorm "/a\\./b//../../../c".toList = "/c".toList := by decide

end MiqroForge.Guard
