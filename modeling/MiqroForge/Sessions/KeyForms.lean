import MiqroForge.Sessions.Directory

/-!
The forms of a session key, bare and behind a client id, and the directory names
`session_files_dir_key` derives from them.
-/

namespace MiqroForge.Sessions

open PyText List

theorem sessionFilesDirKey_idem (key : Text) :
    sessionFilesDirKey (sessionFilesDirKey key) = sessionFilesDirKey key := by
  have hsafe : ∀ c, safeChar (safeChar c) = safeChar c := by
    intro c
    unfold safeChar
    split <;> rfl
  obtain ⟨name, hname⟩ : ∃ name : Text, sessionFilesDirKey key = strip (name.map safeChar) := by
    unfold sessionFilesDirKey
    exact ⟨_, safeFilename_eq _⟩
  rw [hname, strip_map isSpace_safeChar]
  have hcolon : ':' ∉ (strip name).map safeChar := by
    intro hmem
    obtain ⟨c, -, hc⟩ := mem_map.mp hmem
    unfold safeChar at hc
    split at hc
    · cases hc
    · rename_i hforbidden
      subst hc
      exact hforbidden (by decide)
  rw [dirKey_single _ hcolon, ← strip_map isSpace_safeChar name, strip_strip,
    strip_map isSpace_safeChar, map_map]
  exact map_congr_left fun c _ => hsafe c

theorem length_segments (key : Text) : (key.splitOn ':').length = key.count ':' + 1 := by
  induction key with
  | nil => rfl
  | cons c key ih =>
    rw [splitOn_cons_eq_if_modifyHead]
    split
    case isTrue h =>
      rw [length_cons, ih, eq_of_beq h, count_cons_self]
    case isFalse h =>
      have hne : c ≠ ':' := fun heq => h (beq_iff_eq.mpr heq)
      rw [length_modifyHead, ih, count_cons_of_ne hne]

/-- Characters that are not stripped. -/
def solid (t : Text) : Nat := t.countP fun c => !isSpace c

theorem solid_strip (t : Text) : solid (strip t) = solid t := by
  obtain ⟨a, b, ht, ha, hb⟩ := strip_decomp t
  have hnone : ∀ s : Text, (∀ c ∈ s, isSpace c = true) → solid s = 0 := fun s hs => by
    rw [solid, countP_eq_zero]
    exact fun c hc => by simp [hs c hc]
  conv_rhs => rw [ht]
  rw [solid, solid, countP_append, countP_append]
  have h1 := hnone a ha
  have h2 := hnone b hb
  unfold solid at h1 h2
  omega

theorem solid_safeFilename (name : Text) : solid (safeFilename name) = solid name := by
  rw [safeFilename_eq, solid_strip, solid, solid, countP_map]
  exact countP_congr fun c _ => by simp [isSpace_safeChar]

theorem safeFilename_segment_ne (a r : Text) :
    safeFilename (a ++ '_' :: r) ≠ safeFilename r := by
  intro h
  have hsolid := congrArg solid h
  rw [solid_safeFilename, solid_safeFilename] at hsolid
  simp only [solid, countP_append, countP_cons] at hsolid
  have hspace : isSpace '_' = false := by decide
  simp only [hspace, Bool.not_false, if_true] at hsolid
  omega

theorem segments_namespaced {client : Text} (hclient : ':' ∉ client) (key : Text) :
    (client ++ ':' :: key).splitOn ':' = client :: key.splitOn ':' :=
  splitOn_append_cons_self_of_not_mem hclient key

theorem namespaced_single {client key : Text} (hclient : ':' ∉ client) (hkey : ':' ∉ key) :
    sessionFilesDirKey (client ++ ':' :: key) ≠ sessionFilesDirKey key := by
  have hsplit := splitOn_eq_singleton hkey
  rw [sessionFilesDirKey, sessionFilesDirKey, segments_namespaced hclient, hsplit,
    if_neg (by simp), if_neg (by simp), intercalate_cons_cons, intercalate_singleton,
    append_assoc, singleton_append]
  exact safeFilename_segment_ne client key

theorem namespaced_dropped {client key : Text} (hclient : ':' ∉ client)
    (hkey : 2 ≤ (key.splitOn ':').length) : sessionFilesDirKey (client ++ ':' :: key) =
      safeFilename (['_'].intercalate (key.splitOn ':')) := by
  have hlong : 3 ≤ (client :: key.splitOn ':').length := Nat.succ_le_succ hkey
  rw [sessionFilesDirKey, segments_namespaced hclient, if_pos hlong, drop_one, tail_cons]

/-- **One directory.** A bare key and its form behind a client id name one directory exactly if the
key has two segments; a derived name always derives itself. -/
theorem namespaced_agrees_iff {client : Text} (hclient : ':' ∉ client) (key : Text) :
    (sessionFilesDirKey (client ++ ':' :: key) = sessionFilesDirKey key ∧
      sessionFilesDirKey (sessionFilesDirKey key) = sessionFilesDirKey key) ↔
      key.count ':' = 1 := by
  have hlen := length_segments key
  rw [and_iff_left (sessionFilesDirKey_idem key)]
  constructor
  · intro h
    by_contra hcount
    by_cases hcolon : ':' ∈ key
    · -- Three segments or more: the first is taken for a client id.
      have hpos := List.count_pos_iff.mpr hcolon
      rw [namespaced_dropped hclient (by omega), sessionFilesDirKey, if_pos (by omega)] at h
      match hparts : key.splitOn ':', hlen with
      | [], hlen => simp at hlen
      | [_], hlen =>
        rw [List.length_singleton] at hlen
        omega
      | a :: b :: rest, _ =>
        rw [hparts, List.intercalate_cons_cons, List.append_assoc, List.singleton_append] at h
        exact safeFilename_segment_ne a _ h
    · exact namespaced_single hclient hcolon h
  · intro hcount
    rw [namespaced_dropped hclient (by omega), sessionFilesDirKey, if_neg (by omega)]

theorem namespaced_agrees_desktop :
    sessionFilesDirKey "miqi-desktop:desktop:1786".toList = sessionFilesDirKey "desktop:1786".toList :=
  have hclient : ':' ∉ "miqi-desktop".toList := by decide
  ((namespaced_agrees_iff hclient "desktop:1786".toList).mpr (by decide)).1

theorem channel_key_apart :
    ¬ ∀ client : Text, ':' ∉ client → ∀ key,
      sessionFilesDirKey (client ++ ':' :: key) = sessionFilesDirKey key ∧
        sessionFilesDirKey (sessionFilesDirKey key) = sessionFilesDirKey key := by
  intro h
  have heq := (h "miqi-desktop".toList (by decide) "slack:C1:T2".toList).1
  exact absurd heq (by decide)

end MiqroForge.Sessions
