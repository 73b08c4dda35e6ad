import MiqroForge.Library.Occurrences
import MiqroForge.Workspace.FileTools

/-!
# What an edit leaves of the bytes around it

`edit_file` reads and writes in text mode. The bytes outside the match stay as they are where the
two newline translations undo each other there; uniqueness is decided on the translated text, by a
count that does not see overlapping occurrences.
-/

namespace MiqroForge.Workspace.FileTools

open PyText TextFiles ToolPaths List

/-! ## Newlines of a part of a text -/

theorem universalNewlines_append {s t : Text} (h : s.getLast? ≠ some '\r') :
    universalNewlines (s ++ t) = universalNewlines s ++ universalNewlines t := by
  fun_induction universalNewlines s with
  | case1 => rfl
  | case2 s ih =>
    have hs : s.getLast? ≠ some '\r' := by
      intro hlast
      apply h
      rw [getLast?_cons_cons, getLast?_cons, hlast]
      rfl
    simp only [cons_append, universalNewlines, ih hs]
  | case3 c s hnot ih =>
    have hs : s.getLast? ≠ some '\r' := by
      intro hlast
      apply h
      rw [getLast?_cons, hlast]
      rfl
    have hhead : ∀ rest, c = '\r' → s ++ t = '\n' :: rest → False := by
      intro rest hc hrest
      cases s with
      | nil =>
        rw [hc] at h
        exact h rfl
      | cons d s =>
        obtain ⟨rfl, -⟩ := List.cons.inj hrest
        exact hnot s hc rfl
    rw [cons_append, universalNewlines, ih hs, cons_append]
    exact hhead

theorem platformNewlines_append (windows : Bool) (s t : Text) :
    platformNewlines windows (s ++ t) = platformNewlines windows s ++ platformNewlines windows t := by
  cases windows with
  | false => rfl
  | true => exact flatMap_append

theorem getLast?_platformNewlines {windows : Bool} {t : Text} (h : '\r' ∉ t) :
    (platformNewlines windows t).getLast? ≠ some '\r' := by
  cases windows with
  | false =>
    intro hlast
    exact h (mem_of_getLast? hlast)
  | true =>
    cases t using reverseRecOn with
    | nil => nofun
    | append_singleton t c =>
      rw [platformNewlines_append]
      by_cases hc : c = '\n'
      · rw [hc]
        simp [platformNewlines]
      · have hr : c ≠ '\r' := by
          rintro rfl
          exact h (mem_append_right _ (mem_singleton_self _))
        simpa [platformNewlines, hc] using hr

/-! ## The file after an edit -/

/-- The count of `edit_file` is one, and its occurrence is at the position. -/
def CountedAt (old t : Text) (i : Nat) : Prop :=
  find? old t = some i ∧ Snapshots.occursAgain old t i = false

theorem replaceOnce_of_counted {old new t : Text} {i : Nat} (h : CountedAt old t i) :
    Snapshots.replaceOnce old new t = some (t.take i ++ new ++ t.drop (i + old.length)) := by
  rw [Snapshots.replaceOnce, h.1]
  dsimp only
  rw [h.2, if_neg Bool.false_ne_true]

theorem replaceOnce_eq_some {old new t r : Text} (h : Snapshots.replaceOnce old new t = some r) :
    ∃ i, CountedAt old t i ∧ r = t.take i ++ new ++ t.drop (i + old.length) := by
  unfold Snapshots.replaceOnce at h
  split at h
  · cases h
  · next i hfind =>
    split at h
    · cases h
    · next hagain => exact ⟨i, ⟨hfind, by simpa using hagain⟩, (Option.some.inj h).symm⟩

theorem splice_parts (before old after new : Text) :
    (before ++ old ++ after).take before.length ++ new ++
      (before ++ old ++ after).drop (before.length + old.length) = before ++ new ++ after := by
  have htake : (before ++ old ++ after).take before.length = before := by
    rw [append_assoc, take_left]
  have hdrop : (before ++ old ++ after).drop (before.length + old.length) = after := by
    rw [← length_append, drop_left]
  rw [htake, hdrop]

theorem CountedAt.of_occursOnce {old t : Text} {i : Nat} (honce : OccursOnce old t)
    (h : OccursAt old t i) : CountedAt old t i := by
  refine ⟨honce.find? h, ?_⟩
  rw [Snapshots.occursAgain]
  split
  case isTrue hnil =>
    subst hnil
    rw [honce.eq_nil]
    rfl
  case isFalse hold =>
    rw [← Bool.not_eq_true]
    intro hsome
    obtain ⟨j, hj⟩ := Option.isSome_iff_exists.mp hsome
    have hagain := (find?_eq_some_iff.mp hj).1.of_drop h.end_le
    have heq := (occursOnce_iff h).mp honce _ hagain
    have hpos : 0 < old.length := length_pos_iff.mpr hold
    omega

namespace Session

variable {host : Host} (ss : Session host)

/-- What stands at a place once `edit_file` has answered. -/
def left (given : Given) (d : Disk) (path old new : Text) (w : Place) : Option Entry :=
  match ss.editFile given d path old new with
  | some (_, d') => d' w
  | none => bootstrap host d given.roots w

/-- The edit changes the text it is for and no byte around it, and nothing else changes the
file. -/
structure ChangesOnlyMatch (given : Given) (d : Disk) (path old new : Text) (w : Place)
    (t : Text) : Prop where
  replaced : OccursOnce old t → ∀ before after, t = before ++ old ++ after →
    ∃ d', ss.editFile given d path old new = some (w, d') ∧
      d' w = some (.file (encode (before ++ new ++ after)))
  kept : ¬OccursOnce old t → ss.left given d path old new w = some (.file (encode t))

end Session

/-- The newline translations leave alone what the edit goes by: the texts it is given and the bytes
on both sides of the match. -/
structure Untranslated (windows : Bool) (t old new : Text) : Prop where
  reads : '\r' ∉ old
  once : OccursOnce old (universalNewlines t)
  writes : platformNewlines windows new = new
  around : ∀ before after, t = before ++ old ++ after →
    platformNewlines windows (universalNewlines before) = before ∧
      platformNewlines windows (universalNewlines after) = after

/-- The new text puts back the bytes that reading the file has changed, and no others. -/
def PutsBack (windows : Bool) (t old new : Text) : Prop :=
  ∀ before after, CountedAt old (universalNewlines t) before.length →
    universalNewlines t = before ++ old ++ after →
    t = platformNewlines windows (before ++ new ++ after)

/-- When `edit_file` changes the text it is for and no byte around it. -/
def Exact (windows : Bool) (t old new : Text) : Prop :=
  (OccursOnce old t → Untranslated windows t old new) ∧
    (¬OccursOnce old t → PutsBack windows t old new)

section Edits
variable {host : Host} {ss : Session host} {given : Given} {d : Disk} {path old new : Text}
  {w : Place} {t : Text}

theorem editFile_eq (hlocated : ss.located given d path = some w)
    (hfile : d w = some (.file (encode t))) :
    ss.editFile given d path old new =
      (Snapshots.replaceOnce old new (universalNewlines t)).map fun r =>
        (w, overwrite (bootstrap host d given.roots) w (writeText ss.windows r)) := by
  have hready : bootstrap host d given.roots w = some (.file (encode t)) := bootstrap_some hfile
  have hread : Session.readAt (bootstrap host d given.roots) w = some (w, universalNewlines t) := by
    rw [Session.readAt, hready]
    dsimp only
    rw [readText, decode?_encode]
    rfl
  rw [Session.editFile, hlocated, Option.bind_some]
  dsimp only
  rw [hread, Option.bind_some]

theorem left_of_counted (hlocated : ss.located given d path = some w)
    (hfile : d w = some (.file (encode t))) {i : Nat} (h : CountedAt old (universalNewlines t) i) :
    ss.left given d path old new w = some (.file (writeText ss.windows
      ((universalNewlines t).take i ++ new ++ (universalNewlines t).drop (i + old.length)))) := by
  rw [Session.left, editFile_eq hlocated hfile, replaceOnce_of_counted h]
  exact if_pos rfl

theorem left_of_not_counted (hlocated : ss.located given d path = some w)
    (hfile : d w = some (.file (encode t)))
    (h : Snapshots.replaceOnce old new (universalNewlines t) = none) :
    ss.left given d path old new w = some (.file (encode t)) := by
  rw [Session.left, editFile_eq hlocated hfile, h]
  exact bootstrap_some hfile

theorem kept_iff (hlocated : ss.located given d path = some w)
    (hfile : d w = some (.file (encode t))) :
    ss.left given d path old new w = some (.file (encode t)) ↔
      PutsBack ss.windows t old new := by
  constructor
  · intro hleft before after hcounted hsplit
    rw [left_of_counted hlocated hfile hcounted] at hleft
    have hbytes := encode_injective (Entry.file.inj (Option.some.inj hleft))
    rw [← splice_parts before old after new, ← hsplit]
    exact hbytes.symm
  · intro h
    cases hr : Snapshots.replaceOnce old new (universalNewlines t) with
    | none => exact left_of_not_counted hlocated hfile hr
    | some r =>
      obtain ⟨i, hcounted, -⟩ := replaceOnce_eq_some hr
      have hocc := (find?_eq_some_iff.mp hcounted.1).1
      have hlength : ((universalNewlines t).take i).length = i :=
        length_take_of_le hocc.1
      have hback := h _ _ (hlength.symm ▸ hcounted) hocc.split
      rw [left_of_counted hlocated hfile hcounted, writeText, ← hback]

theorem Untranslated.reading {windows : Bool} (h : Untranslated windows t old new)
    {before after : Text} (hsplit : t = before ++ old ++ after) :
    universalNewlines t = universalNewlines before ++ old ++ universalNewlines after := by
  have hbefore : before.getLast? ≠ some '\r' := by
    rw [← (h.around before after hsplit).1]
    exact getLast?_platformNewlines (no_carriage_return before)
  have hold : old.getLast? ≠ some '\r' := fun hlast => h.reads (mem_of_getLast? hlast)
  rw [hsplit, append_assoc, universalNewlines_append hbefore, universalNewlines_append hold,
    universalNewlines_of_no_return h.reads, append_assoc]

theorem replaced_of_untranslated (hlocated : ss.located given d path = some w)
    (hfile : d w = some (.file (encode t))) (h : Untranslated ss.windows t old new)
    {before after : Text} (hsplit : t = before ++ old ++ after) :
    ∃ d', ss.editFile given d path old new = some (w, d') ∧
      d' w = some (.file (encode (before ++ new ++ after))) := by
  have hreading := h.reading hsplit
  obtain ⟨hbefore, hafter⟩ := h.around before after hsplit
  have hcounted : CountedAt old (universalNewlines t) (universalNewlines before).length :=
    CountedAt.of_occursOnce h.once (hreading ▸ occursAt_append _ _ _)
  have hwritten : writeText ss.windows (universalNewlines before ++ new ++
      universalNewlines after) = encode (before ++ new ++ after) := by
    rw [writeText, platformNewlines_append, platformNewlines_append, hbefore, hafter, h.writes]
  refine ⟨overwrite (bootstrap host d given.roots) w (encode (before ++ new ++ after)), ?_,
    if_pos rfl⟩
  rw [editFile_eq hlocated hfile, replaceOnce_of_counted hcounted, hreading, splice_parts,
    Option.map_some, hwritten]

theorem no_return_of_replaced {i : Nat} {before after : Text}
    (hcounted : CountedAt old (universalNewlines t) i) (hsplit : t = before ++ old ++ after)
    (h : (universalNewlines t).take i ++ new ++ (universalNewlines t).drop (i + old.length) =
      before ++ new ++ after) : '\r' ∉ t := by
  have hread : (universalNewlines t).count '\r' = 0 :=
    count_eq_zero.mpr (no_carriage_return t)
  have hparts := congrArg (List.count '\r') (find?_eq_some_iff.mp hcounted.1).1.split
  have hcount := congrArg (List.count '\r') h
  have ht := congrArg (List.count '\r') hsplit
  simp only [count_append] at hparts hcount ht
  rw [← count_eq_zero]
  omega

theorem untranslated_of_no_return (hreturn : '\r' ∉ t) (honce : OccursOnce old t) :
    Untranslated false t old new := by
  have hread : universalNewlines t = t := universalNewlines_of_no_return hreturn
  obtain ⟨i, hocc, -⟩ := id honce
  refine ⟨?_, hread.symm ▸ honce, rfl, ?_⟩
  · intro hold
    apply hreturn
    rw [hocc.split]
    exact mem_append_left _ (mem_append_right _ hold)
  · rintro before after rfl
    rw [mem_append, mem_append, not_or, not_or] at hreturn
    exact ⟨universalNewlines_of_no_return hreturn.1.1, universalNewlines_of_no_return hreturn.2⟩

/-- **When an edit changes only the matched text.** The condition is enough everywhere; where
newlines are written as they are it is also needed. -/
theorem changesOnlyMatch (ss : Session host) (given : Given) (d : Disk) (path old new : Text)
    (w : Place) (t : Text) (hlocated : ss.located given d path = some w)
    (hfile : d w = some (.file (encode t))) :
    (Exact ss.windows t old new → ss.ChangesOnlyMatch given d path old new w t) ∧
      (ss.windows = false →
        (ss.ChangesOnlyMatch given d path old new w t ↔ Exact false t old new)) := by
  have henough : Exact ss.windows t old new → ss.ChangesOnlyMatch given d path old new w t := by
    intro h
    constructor
    · intro honce before after hsplit
      exact replaced_of_untranslated hlocated hfile (h.1 honce) hsplit
    · intro honce
      exact (kept_iff hlocated hfile).mpr (h.2 honce)
  refine ⟨henough, fun hposix => ⟨fun h => ⟨fun honce => ?_, fun honce => ?_⟩, fun h => ?_⟩⟩
  · obtain ⟨i, hocc, -⟩ := id honce
    obtain ⟨d', hedit, hbytes⟩ := h.replaced honce _ _ hocc.split
    rw [editFile_eq hlocated hfile] at hedit
    obtain ⟨r, hr, heq⟩ := Option.map_eq_some_iff.mp hedit
    obtain ⟨j, hcounted, rfl⟩ := replaceOnce_eq_some hr
    obtain ⟨-, rfl⟩ := Prod.mk.inj heq
    have hwritten := Entry.file.inj (Option.some.inj ((if_pos rfl).symm.trans hbytes))
    rw [hposix] at hwritten
    exact untranslated_of_no_return
      (no_return_of_replaced hcounted hocc.split (encode_injective hwritten)) honce
  · rw [← hposix]
    exact (kept_iff hlocated hfile).mp (h.kept honce)
  · exact henough (hposix ▸ h)

end Edits

/-! ## A file of another platform -/

/-- The file of the workspace root has a line that ends in a carriage return and a newline. -/
def returnFile : Disk := fun p =>
  if p = ["w".toList, "notes.md".toList] then some (.file (encode "a\r\nb".toList)) else none

theorem changesOnlyMatch_notes :
    plainSession.ChangesOnlyMatch plainGiven rootFile "/w/notes.md".toList "l".toList "x\ny".toList
      ["w".toList, "notes.md".toList] "old".toList :=
  (changesOnlyMatch plainSession plainGiven rootFile _ _ _ _ _ (by decide +kernel)
    (if_pos rfl)).1
    ⟨untranslated_of_no_return (by decide), fun honce => absurd (by decide) honce⟩

/-- An edit of the second line takes the carriage return off the first. -/
theorem return_lost :
    plainSession.located plainGiven returnFile "/w/notes.md".toList =
        some ["w".toList, "notes.md".toList] ∧
      returnFile ["w".toList, "notes.md".toList] = some (.file (encode "a\r\nb".toList)) ∧
      plainSession.left plainGiven returnFile "/w/notes.md".toList "b".toList "c".toList
        ["w".toList, "notes.md".toList] = some (.file (encode "a\nc".toList)) ∧
      ¬plainSession.ChangesOnlyMatch plainGiven returnFile "/w/notes.md".toList "b".toList
        "c".toList ["w".toList, "notes.md".toList] "a\r\nb".toList := by
  have hlocated : plainSession.located plainGiven returnFile "/w/notes.md".toList =
      some ["w".toList, "notes.md".toList] := by
    decide +kernel
  have hfile : returnFile ["w".toList, "notes.md".toList] =
      some (.file (encode "a\r\nb".toList)) := if_pos rfl
  have hcounted : CountedAt "b".toList (universalNewlines "a\r\nb".toList) 2 := ⟨rfl, rfl⟩
  have hleft : plainSession.left plainGiven returnFile "/w/notes.md".toList "b".toList "c".toList
      ["w".toList, "notes.md".toList] = _ := left_of_counted hlocated hfile hcounted
  refine ⟨hlocated, hfile, hleft, fun h => ?_⟩
  obtain ⟨d', hedit, hbytes⟩ := h.replaced (by decide) "a\r\n".toList [] rfl
  rw [Session.left, hedit] at hleft
  have hwritten := Entry.file.inj (Option.some.inj (hleft.symm.trans hbytes))
  exact absurd (encode_injective hwritten) (by decide)

end MiqroForge.Workspace.FileTools
