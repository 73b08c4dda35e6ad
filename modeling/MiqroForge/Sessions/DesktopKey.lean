import MiqroForge.Sessions.Directory

/-!
The session directory as the desktop names it: `sessionFilesDirKey` of `workspace-path.ts`, which
is to mirror `session_files_dir_key`, and the keys for which it does.
-/

namespace MiqroForge.Sessions

open PyText List

/-! ## The name of the desktop -/

namespace Desktop

/-- The code units of a character, of which a string of the desktop is made. -/
def codeUnits (c : Char) : List Nat :=
  if c.toNat < 0x10000 then [c.toNat]
  else [0xd800 + (c.toNat - 0x10000) / 0x400, 0xdc00 + (c.toNat - 0x10000) % 0x400]

/-- `[A-Za-z0-9._-]`. -/
def keepsUnit (unit : Nat) : Bool :=
  (65 ≤ unit && unit ≤ 90) || (97 ≤ unit && unit ≤ 122) || (48 ≤ unit && unit ≤ 57) ||
    unit == 46 || unit == 95 || unit == 45

def replaceUnit (unit : Nat) : Char := if keepsUnit unit then Char.ofNat unit else '_'

def sessionFilesDirKey (sessionKey : Text) : Text :=
  let parts := sessionKey.splitOn ':'
  let joined := ['_'].intercalate (if 3 ≤ parts.length then parts.drop 1 else parts)
  (joined.flatMap codeUnits).map replaceUnit

end Desktop

/-! ## Characters -/

/-- The segments that name the directory, joined. -/
def joinedSegments (key : Text) : Text :=
  let parts := key.splitOn ':'
  ['_'].intercalate (if 3 ≤ parts.length then parts.drop 1 else parts)

/-- A character that both sides keep, or both replace. -/
def foldedAlike (c : Char) : Bool := Desktop.keepsUnit c.toNat || forbiddenChars.contains c

def desktopChar (c : Char) : Text := (Desktop.codeUnits c).map Desktop.replaceUnit

theorem desktop_eq (key : Text) :
    Desktop.sessionFilesDirKey key = (joinedSegments key).flatMap desktopChar := by
  rw [Desktop.sessionFilesDirKey, map_flatMap]
  rfl

theorem runtime_eq (key : Text) :
    sessionFilesDirKey key = strip ((joinedSegments key).map safeChar) :=
  safeFilename_eq (joinedSegments key)

theorem desktopChar_kept {c : Char} (h : Desktop.keepsUnit c.toNat = true) :
    desktopChar c = [c] := by
  have hlt : c.toNat < 0x10000 := by
    simp only [Desktop.keepsUnit, Bool.or_eq_true, Bool.and_eq_true, decide_eq_true_eq,
      beq_iff_eq] at h
    omega
  rw [desktopChar, Desktop.codeUnits, if_pos hlt, map_singleton, Desktop.replaceUnit, if_pos h,
    Char.ofNat_toNat]

theorem keepsUnit_high {unit : Nat} (h : 128 ≤ unit) : Desktop.keepsUnit unit = false := by
  simp only [Desktop.keepsUnit, Bool.or_eq_false_iff, Bool.and_eq_false_iff,
    decide_eq_false_iff_not, beq_eq_false_iff_ne]
  omega

theorem desktopChar_replaced {c : Char} (h : Desktop.keepsUnit c.toNat = false) :
    desktopChar c = ['_'] ∨ desktopChar c = ['_', '_'] := by
  unfold desktopChar Desktop.codeUnits
  split
  · rw [map_singleton, Desktop.replaceUnit, h]
    exact Or.inl rfl
  · have hhigh : Desktop.keepsUnit (0xd800 + (c.toNat - 0x10000) / 0x400) = false :=
      keepsUnit_high (by omega)
    have hlow : Desktop.keepsUnit (0xdc00 + (c.toNat - 0x10000) % 0x400) = false :=
      keepsUnit_high (by omega)
    simp only [map_cons, map_nil, Desktop.replaceUnit, hhigh, hlow]
    exact Or.inr rfl

theorem desktopChar_length (c : Char) : 1 ≤ (desktopChar c).length := by
  cases h : Desktop.keepsUnit c.toNat with
  | true =>
    rw [desktopChar_kept h]
    exact Nat.le_refl 1
  | false =>
    rcases desktopChar_replaced h with heq | heq
    · rw [heq]
      exact Nat.le_refl 1
    · rw [heq]
      exact Nat.le_succ 1

theorem desktopChar_eq_iff (c : Char) : desktopChar c = [safeChar c] ↔ foldedAlike c = true := by
  have hforbidden : ∀ c ∈ forbiddenChars, desktopChar c = ['_'] := forall_of_all (by decide)
  have hkept : ∀ c ∈ forbiddenChars, Desktop.keepsUnit c.toNat = false :=
    forall_of_all (by decide)
  rw [foldedAlike, Bool.or_eq_true, contains_iff_mem]
  by_cases hc : c ∈ forbiddenChars
  · rw [safeChar, if_pos hc]
    exact iff_of_true (hforbidden c hc) (Or.inr hc)
  · rw [safeChar, if_neg hc]
    cases h : Desktop.keepsUnit c.toNat with
    | true => exact iff_of_true (desktopChar_kept h) (Or.inl rfl)
    | false =>
      refine iff_of_false (fun heq => ?_) (by simp [hc])
      rcases desktopChar_replaced h with hone | htwo
      · rw [hone] at heq
        obtain rfl := singleton_inj.mp heq
        cases h
      · rw [htwo] at heq
        cases heq

/-! ## Names -/

theorem length_le_flatMap {f : Char → Text} (hf : ∀ c, 1 ≤ (f c).length) (t : Text) :
    t.length ≤ (t.flatMap f).length := by
  induction t with
  | nil => exact Nat.le_refl 0
  | cons c t ih =>
    have hc := hf c
    simp only [flatMap_cons, length_append, length_cons]
    omega

theorem flatMap_eq_map {f : Char → Text} (hf : ∀ c, 1 ≤ (f c).length) (g : Char → Char)
    {t : Text} (h : t.flatMap f = t.map g) : ∀ c ∈ t, f c = [g c] := by
  induction t with
  | nil =>
    intro c hc
    cases hc
  | cons c t ih =>
    obtain ⟨x, xs, hx⟩ := exists_cons_of_length_pos (hf c)
    rw [flatMap_cons, map_cons, hx, cons_append] at h
    obtain ⟨hhead, htail⟩ := cons_eq_cons.mp h
    have hxs : xs = [] := by
      have hsum := congrArg List.length htail
      have hle := length_le_flatMap hf t
      rw [length_append, length_map] at hsum
      exact length_eq_zero_iff.mp (by omega)
    subst hxs
    intro d hd
    rcases mem_cons.mp hd with rfl | hd
    · rw [hx, hhead]
    · exact ih htail d hd

theorem strip_length (t : Text) : (strip t).length ≤ t.length := by
  obtain ⟨a, b, heq, -, -⟩ := strip_decomp t
  have hlength := congrArg List.length heq
  rw [length_append, length_append] at hlength
  omega

theorem strip_eq_of_length {t : Text} (h : (strip t).length = t.length) : strip t = t := by
  obtain ⟨a, b, heq, -, -⟩ := strip_decomp t
  have hlength := congrArg List.length heq
  rw [length_append, length_append] at hlength
  have ha : a = [] := length_eq_zero_iff.mp (by omega)
  have hb : b = [] := length_eq_zero_iff.mp (by omega)
  rw [ha, hb, nil_append, append_nil] at heq
  exact heq.symm

theorem strip_eq_self {t : Text} (h : ∀ c ∈ t, isSpace c = false) : strip t = t := by
  obtain ⟨a, b, heq, ha, hb⟩ := strip_decomp t
  have hnone : ∀ c ∈ t, isSpace c = true → False := fun c hc hspace => by
    rw [h c hc] at hspace
    cases hspace
  have ha : a = [] := eq_nil_iff_forall_not_mem.mpr fun c hc =>
    hnone c (heq ▸ mem_append_left b (mem_append_left _ hc)) (ha c hc)
  have hb : b = [] := eq_nil_iff_forall_not_mem.mpr fun c hc =>
    hnone c (heq ▸ mem_append_right _ hc) (hb c hc)
  rw [ha, hb, nil_append, append_nil] at heq
  exact heq.symm

theorem keepsUnit_not_space {c : Char} (h : Desktop.keepsUnit c.toNat = true) :
    isSpace c = false := by
  simp only [Desktop.keepsUnit, Bool.or_eq_true, Bool.and_eq_true, decide_eq_true_eq,
    beq_iff_eq] at h
  simp only [isSpace, Bool.or_eq_false_iff, Bool.and_eq_false_iff, decide_eq_false_iff_not,
    beq_eq_false_iff_ne]
  omega

theorem same_name_iff (key : Text) : Desktop.sessionFilesDirKey key = sessionFilesDirKey key ↔
    ∀ c ∈ joinedSegments key, foldedAlike c = true := by
  rw [desktop_eq, runtime_eq]
  generalize joinedSegments key = t
  constructor
  · intro h c hc
    have hpieces := length_le_flatMap desktopChar_length t
    have hstrip := strip_length (t.map safeChar)
    have hlength := congrArg List.length h
    rw [length_map] at hstrip
    have hself := @strip_eq_of_length (t.map safeChar) (by rw [length_map]; omega)
    rw [hself] at h
    exact (desktopChar_eq_iff c).mp (flatMap_eq_map desktopChar_length safeChar h c hc)
  · intro h
    have hpieces : t.flatMap desktopChar = t.map safeChar := by
      rw [← flatMap_pure_eq_map]
      exact flatMap_congr fun c hc => (desktopChar_eq_iff c).mpr (h c hc)
    rw [hpieces, strip_eq_self]
    intro x hx
    obtain ⟨c, hc, rfl⟩ := mem_map.mp hx
    have hforbidden : ∀ c ∈ forbiddenChars, isSpace c = false :=
      forall_of_all (by decide)
    rw [isSpace_safeChar]
    rcases Bool.or_eq_true _ _ ▸ h c hc with hkept | hforbid
    · exact keepsUnit_not_space hkept
    · exact hforbidden c (contains_iff_mem.mp hforbid)

/-- **Directories.** For the keys of a set the desktop looks where the runtime writes, and keeps
apart what the runtime keeps apart, iff behind their client segment the keys are made of ASCII
letters, digits, `.`, `_`, `-` and the characters the runtime replaces. -/
theorem same_directories_iff (keys : Set Text) :
    ((∀ key ∈ keys, Desktop.sessionFilesDirKey key = sessionFilesDirKey key) ∧
      ∀ key ∈ keys, ∀ key' ∈ keys, sessionFilesDirKey key ≠ sessionFilesDirKey key' →
        Desktop.sessionFilesDirKey key ≠ Desktop.sessionFilesDirKey key') ↔
      ∀ key ∈ keys, ∀ c ∈ joinedSegments key, foldedAlike c = true := by
  constructor
  · rintro ⟨hsame, -⟩ key hkey
    exact (same_name_iff key).mp (hsame key hkey)
  · intro hplain
    have hsame : ∀ key ∈ keys, Desktop.sessionFilesDirKey key = sessionFilesDirKey key :=
      fun key hkey => (same_name_iff key).mpr (hplain key hkey)
    refine ⟨hsame, fun key hkey key' hkey' hne => ?_⟩
    rw [hsame key hkey, hsame key' hkey']
    exact hne

/-- A blank inside a key is kept by the runtime and replaced by the desktop. -/
theorem blank_folded :
    Desktop.sessionFilesDirKey "desktop:a b".toList ≠ sessionFilesDirKey "desktop:a b".toList ∧
      sessionFilesDirKey "desktop:a b".toList ≠ sessionFilesDirKey "desktop:a_b".toList ∧
      Desktop.sessionFilesDirKey "desktop:a b".toList =
        Desktop.sessionFilesDirKey "desktop:a_b".toList := by
  refine ⟨by decide, by decide, by decide⟩

end MiqroForge.Sessions
