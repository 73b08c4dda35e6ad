import MiqroForge.Library.Json
import Mathlib.Data.List.Nodup

/-! The reader inverts the writer on well-formed values. -/

namespace Json

open PyText List

/-! ## Dictionaries -/

section Dictionaries

variable {α : Type}

variable (d : List (Text × α))

theorem setField_new (k : Text) (v : α) (h : k ∉ keys d) :
    setField d k v = d ++ [(k, v)] := by
  unfold setField
  rw [if_neg]
  intro hany
  obtain ⟨e, he, hk⟩ := any_eq_true.mp hany
  exact h (mem_map.mpr ⟨e, he, by simpa using hk⟩)

theorem merge_disjoint (d fields : List (Text × α)) (h : (keys (d ++ fields)).Nodup) :
    merge d fields = d ++ fields := by
  induction fields generalizing d with
  | nil => exact (append_nil d).symm
  | cons e fields ih =>
    obtain ⟨k, v⟩ := e
    have hk : k ∉ keys d := by
      intro hmem
      unfold keys at h hmem
      rw [map_append, nodup_append] at h
      exact h.2.2 k hmem k (by simp) rfl
    have hnext : merge d ((k, v) :: fields) = merge (d ++ [(k, v)]) fields := by
      show merge (setField d k v) fields = _
      rw [setField_new d k v hk]
    rw [hnext, ih _ (by simpa using h)]
    simp

theorem merge_nil (fields : List (Text × α)) (h : (keys fields).Nodup) : merge [] fields = fields :=
  merge_disjoint [] fields h

theorem mem_setField {d : List (Text × α)} {k : Text} {v : α} {e : Text × α}
    (h : e ∈ setField d k v) : e ∈ d ∨ e = (k, v) := by
  unfold setField at h
  split at h
  · obtain ⟨x, hx, he⟩ := mem_map.mp h
    split at he
    · exact Or.inr he.symm
    · exact Or.inl (he ▸ hx)
  · rcases mem_append.mp h with h | h
    · exact Or.inl h
    · exact Or.inr (mem_singleton.mp h)

theorem mem_merge {d patch : List (Text × α)} {e : Text × α} (h : e ∈ merge d patch) :
    e ∈ d ∨ e ∈ patch := by
  induction patch generalizing d with
  | nil => exact Or.inl h
  | cons p patch ih =>
    rcases ih h with h | h
    · rcases mem_setField h with h | h
      · exact Or.inl h
      · exact Or.inr (h ▸ mem_cons_self)
    · exact Or.inr (mem_cons_of_mem p h)

theorem keys_setField (k : Text) (v : α) :
    keys (setField d k v) = if k ∈ keys d then keys d else keys d ++ [k] := by
  by_cases hk : k ∈ keys d
  · have hany : (d.any fun e => e.1 == k) = true := by
      obtain ⟨e, he, rfl⟩ := mem_map.mp hk
      exact any_eq_true.mpr ⟨e, he, by simp⟩
    rw [if_pos hk, setField, if_pos hany]
    unfold keys
    rw [map_map]
    refine map_congr_left fun e _ => ?_
    show (if e.1 = k then (k, v) else e).1 = e.1
    split
    case isTrue h => exact h.symm
    case isFalse => rfl
  · rw [if_neg hk, setField_new d k v hk]
    simp [keys]

theorem keys_merge_nodup (d patch : List (Text × α)) (h : (keys d).Nodup) :
    (keys (merge d patch)).Nodup := by
  induction patch generalizing d with
  | nil => exact h
  | cons p patch ih =>
    refine ih (setField d p.1 p.2) ?_
    rw [keys_setField]
    split
    · exact h
    case isFalse hk =>
      refine nodup_append.mpr ⟨h, nodup_singleton _, ?_⟩
      rintro x hx y hy rfl
      rw [mem_singleton] at hy
      exact hk (hy ▸ hx)

theorem mem_setField_self (k : Text) (v : α) : (k, v) ∈ setField d k v := by
  by_cases hk : k ∈ keys d
  · obtain ⟨e, he, rfl⟩ := mem_map.mp hk
    have hany : (d.any fun x => x.1 == e.1) = true := any_eq_true.mpr ⟨e, he, by simp⟩
    rw [setField, if_pos hany]
    exact mem_map.mpr ⟨e, he, if_pos rfl⟩
  · rw [setField_new d k v hk]
    simp

theorem mem_setField_of_ne {d : List (Text × α)} {k : Text} {v : α} {e : Text × α} (he : e ∈ d)
    (hk : e.1 ≠ k) : e ∈ setField d k v := by
  unfold setField
  split
  · exact mem_map.mpr ⟨e, he, if_neg hk⟩
  · exact mem_append_left _ he

theorem lookup_setField (k : Text) (v : α) :
    (setField d k v).lookup k = some v := by
  by_cases hk : k ∈ keys d
  · have hany : (d.any fun x => x.1 == k) = true := by
      obtain ⟨e, he, rfl⟩ := mem_map.mp hk
      exact any_eq_true.mpr ⟨e, he, by simp⟩
    rw [setField, if_pos hany]
    clear hany
    induction d with
    | nil => cases hk
    | cons e d ih =>
      by_cases he : e.1 = k
      · simp [he]
      · have hd : k ∈ keys d := (mem_cons.mp hk).resolve_left fun h => he h.symm
        have hne : (k == e.1) = false := beq_eq_false_iff_ne.mpr fun h => he h.symm
        rw [map_cons, if_neg he, lookup_cons, hne]
        exact ih hd
  · rw [setField_new d k v hk, lookup_append, lookup_eq_none_iff.mpr]
    · simp
    · intro e he
      exact bne_iff_ne.mpr fun h => hk (h ▸ mem_map_of_mem he)

theorem lookup_setField_of_ne {k k' : Text} (v : α) (h : k' ≠ k) :
    (setField d k v).lookup k' = d.lookup k' := by
  have hne : (k' == k) = false := beq_eq_false_iff_ne.mpr h
  have hmap : (d.map fun e => if e.1 = k then (k, v) else e).lookup k' = d.lookup k' := by
    induction d with
    | nil => rfl
    | cons e d ih =>
      by_cases he : e.1 = k
      · have hne' : (k' == e.1) = false := by rw [he, hne]
        rw [map_cons, if_pos he, lookup_cons, lookup_cons, hne, hne', ih]
      · rw [map_cons, if_neg he, lookup_cons, lookup_cons, ih]
  unfold setField
  split
  · exact hmap
  · simp [lookup_append, lookup_cons, hne]

theorem mem_merge_of_not_key {d patch : List (Text × α)} {e : Text × α} (he : e ∈ d)
    (hk : e.1 ∉ keys patch) : e ∈ merge d patch := by
  induction patch generalizing d with
  | nil => exact he
  | cons p patch ih =>
    simp only [keys, map_cons, mem_cons, not_or] at hk
    exact ih (mem_setField_of_ne he hk.1) hk.2

theorem mem_merge_patch {d patch : List (Text × α)} (hp : (keys patch).Nodup) {e : Text × α}
    (he : e ∈ patch) : e ∈ merge d patch := by
  induction patch generalizing d with
  | nil => cases he
  | cons p patch ih =>
    simp only [keys, map_cons, nodup_cons] at hp
    rcases mem_cons.mp he with rfl | he
    · have hself : e ∈ setField d e.1 e.2 := mem_setField_self d e.1 e.2
      show e ∈ merge (setField d e.1 e.2) patch
      exact mem_merge_of_not_key hself hp.1
    · exact ih hp.2 he

end Dictionaries

/-! ## Strings -/

theorem hexValue_hexDigit : ∀ n, n < 16 → hexValue (hexDigit n) = some n := by decide

theorem simpleEscape_eq (e c : Char) (r t u : Text) (he : simpleEscape e = some c) (hu : e ≠ 'u')
    (h : parseString r = some (t, u)) : parseString ('\\' :: e :: r) = some (c :: t, u) := by
  unfold parseString
  split
  case h_1 heq => cases heq
  case h_2 heq => cases heq
  case h_3 heq =>
    cases heq
    exact absurd rfl hu
  case h_4 heq =>
    cases heq
    simp [he, h]
  case h_5 hne heq =>
    cases heq
    exact (hne e r rfl rfl).elim

theorem parseString_escapeChar (c : Char) (r t u : Text) (h : parseString r = some (t, u)) :
    parseString (escapeChar c ++ r) = some (c :: t, u) := by
  unfold escapeChar
  split_ifs with h1 h2 h3 h4 h5 h6 h7 h8
  · subst h1
    exact simpleEscape_eq _ _ _ _ _ rfl (by decide) h
  · subst h2
    exact simpleEscape_eq _ _ _ _ _ rfl (by decide) h
  · subst h3
    exact simpleEscape_eq _ _ _ _ _ rfl (by decide) h
  · subst h4
    exact simpleEscape_eq _ _ _ _ _ rfl (by decide) h
  · subst h5
    exact simpleEscape_eq _ _ _ _ _ rfl (by decide) h
  · subst h6
    exact simpleEscape_eq _ _ _ _ _ rfl (by decide) h
  · subst h7
    exact simpleEscape_eq _ _ _ _ _ rfl (by decide) h
  · have hhigh := hexValue_hexDigit (c.toNat / 16) (by omega)
    have hlow := hexValue_hexDigit (c.toNat % 16) (by omega)
    have hzero : hexValue '0' = some 0 := by decide
    have hvalue : hexValue4 '0' '0' (hexDigit (c.toNat / 16)) (hexDigit (c.toNat % 16)) =
        some c.toNat := by
      simp only [hexValue4, hzero, hhigh, hlow]
      congr 1
      omega
    have hrange : ¬ (0xd800 ≤ c.toNat ∧ c.toNat < 0xe000) := by omega
    simp only [cons_append, nil_append]
    rw [parseString]
    simp [hvalue, hrange, h]
  · rw [singleton_append, parseString]
    · simp [h2, h8, h]
    · exact h1
    · intro _ _ _ _ _ hc
      exact absurd hc h2
    · intro _ _ hc
      exact absurd hc h2

theorem parseString_print (s r : Text) :
    parseString (s.flatMap escapeChar ++ '\x22' :: r) = some (s, r) := by
  induction s with
  | nil => simp [parseString]
  | cons c s ih =>
    rw [flatMap_cons, append_assoc]
    exact parseString_escapeChar c _ _ _ ih

/-! ## Words -/

/-- What follows a word ends it. -/
def Stops (r : Text) : Prop := ∀ c ∈ r.head?, isWordChar c = false

theorem stops_cons {c : Char} {r : Text} (h : isWordChar c = false) : Stops (c :: r) := by
  intro x hx
  cases hx
  exact h

theorem takeWhile_word {w r : Text} (hw : w.all isWordChar = true) (hr : Stops r) :
    (w ++ r).takeWhile isWordChar = w ∧ (w ++ r).dropWhile isWordChar = r := by
  induction w with
  | nil =>
    cases r with
    | nil => exact ⟨rfl, rfl⟩
    | cons c r =>
      have hc : isWordChar c = false := hr c rfl
      simp [hc]
  | cons c w ih =>
    obtain ⟨hc, hw⟩ : isWordChar c = true ∧ w.all isWordChar = true := by
      simpa using hw
    obtain ⟨ht, hd⟩ := ih (by simpa using hw)
    simp [hc, ht, hd]

theorem parseValue_word {n : Nat} {c : Char} {w r : Text} {v : Value}
    (hw : (c :: w).all isWordChar = true) (hr : Stops r) (hv : parseWord (c :: w) = some v) :
    parseValue (n + 1) (c :: w ++ r) = some (v, r) := by
  have hc : isWordChar c = true := by
    simp only [all_cons, Bool.and_eq_true] at hw
    exact hw.1
  obtain ⟨ht, hd⟩ := takeWhile_word hw hr
  have hne : ∀ x, isWordChar x = false → c ≠ x := by
    rintro x hx rfl
    rw [hc] at hx
    cases hx
  rw [cons_append] at ht hd ⊢
  rw [parseValue]
  · simp [ht, hd, hv]
  · intro _ heq
    exact hne '\x22' (by decide) (List.cons.inj heq).1
  · intro _ heq
    exact hne '[' (by decide) (List.cons.inj heq).1
  · intro _ heq
    exact hne '{' (by decide) (List.cons.inj heq).1

theorem isNumber_word {t : Text} (h : isNumber t = true) : t.all isWordChar = true := by
  unfold isNumber at h
  simp only [Bool.and_eq_true] at h
  exact h.1

theorem parseWord_number (n : Number) : parseWord n.text = some (.num n) := by
  have hvalid := n.valid
  unfold parseWord
  split_ifs with h1 h2 h3
  · rw [h1] at hvalid
    exact absurd hvalid (by decide)
  · rw [h2] at hvalid
    exact absurd hvalid (by decide)
  · rw [h3] at hvalid
    exact absurd hvalid (by decide)
  · rfl

/-! ## Values -/

theorem print_head (v : Value) :
    ∃ c t, print v = c :: t ∧ isWhitespace c = false ∧ c ≠ ']' ∧ c ≠ '}' := by
  cases v with
  | null => exact ⟨'n', _, rfl, by decide, by decide, by decide⟩
  | bool b => cases b <;> exact ⟨_, _, rfl, by decide, by decide, by decide⟩
  | str s => exact ⟨'\x22', _, rfl, by decide, by decide, by decide⟩
  | arr xs => cases xs <;> exact ⟨'[', _, rfl, by decide, by decide, by decide⟩
  | obj fields =>
    rcases fields with _ | ⟨⟨k, v⟩, fields⟩ <;>
      exact ⟨'{', _, rfl, by decide, by decide, by decide⟩
  | num n =>
    obtain ⟨t, hvalid⟩ := n
    cases t with
    | nil => exact absurd hvalid (by decide)
    | cons c t =>
      have hword := isNumber_word hvalid
      simp only [all_cons, Bool.and_eq_true] at hword
      have hne : ∀ x, isWordChar x = false → c ≠ x := by
        rintro x hx rfl
        rw [hword.1] at hx
        cases hx
      refine ⟨c, t, rfl, ?_, hne _ (by decide), hne _ (by decide)⟩
      have h1 := hne ' ' (by decide)
      have h2 := hne '\t' (by decide)
      have h3 := hne '\n' (by decide)
      have h4 := hne '\r' (by decide)
      simp [isWhitespace, h1, h2, h3, h4]

theorem skipWhitespace_cons {c : Char} {t : Text} (h : isWhitespace c = false) :
    skipWhitespace (c :: t) = c :: t := by
  unfold skipWhitespace
  rw [dropWhile_cons, h]
  rfl

theorem skipWhitespace_space (t : Text) : skipWhitespace (' ' :: t) = skipWhitespace t := rfl

theorem skipWhitespace_print (v : Value) (r : Text) :
    skipWhitespace (print v ++ r) = print v ++ r := by
  obtain ⟨c, t, hp, hc, -, -⟩ := print_head v
  rw [hp, cons_append]
  exact skipWhitespace_cons hc

/-- `v` is read back, whatever follows that stops a word. -/
def ReadBack (v : Value) : Prop :=
  ∀ n r, (print v).length < n → Stops r → parseValue n (print v ++ r) = some (v, r)

theorem readBack_word {v : Value} (hword : (print v).all isWordChar = true) (hne : print v ≠ [])
    (hv : parseWord (print v) = some v) : ReadBack v := by
  intro n r hn hr
  obtain ⟨c, w, hw⟩ := exists_cons_of_ne_nil hne
  rw [hw] at hword hv ⊢
  cases n with
  | zero => cases hn
  | succ n => exact parseValue_word hword hr hv

theorem parseField_print {v : Value} (hv : ReadBack v) (k : Text) (n : Nat) (r : Text)
    (hn : (print v).length < n) (hr : Stops r) :
    parseField (n + 1) (printString k ++ ':' :: ' ' :: print v ++ r) = some ((k, v), r) := by
  have hstring := parseString_print k (':' :: ' ' :: print v ++ r)
  have hcolon : skipWhitespace (':' :: ' ' :: print v ++ r) = ':' :: ' ' :: print v ++ r :=
    skipWhitespace_cons (by decide)
  have hspace : skipWhitespace (' ' :: (print v ++ r)) = print v ++ r := by
    rw [skipWhitespace_space, skipWhitespace_print]
  have hvalue := hv n r hn hr
  simp only [printString, cons_append, append_assoc, nil_append] at hstring ⊢
  rw [parseField, hstring]
  simp only [cons_append] at hcolon
  simp [hcolon, hspace, hvalue]

theorem stops_printMore (xs : List Value) (r : Text) : Stops (printMore xs ++ ']' :: r) := by
  cases xs with
  | nil => exact stops_cons (by decide)
  | cons x xs => exact stops_cons (by decide)

theorem stops_printMoreFields (fields : List (Text × Value)) (r : Text) :
    Stops (printMoreFields fields ++ '}' :: r) := by
  cases fields with
  | nil => exact stops_cons (by decide)
  | cons f fields => exact stops_cons (by decide)

theorem skipWhitespace_printMore (xs : List Value) (r : Text) :
    skipWhitespace (printMore xs ++ ']' :: r) = printMore xs ++ ']' :: r := by
  cases xs with
  | nil => exact skipWhitespace_cons (by decide)
  | cons x xs => exact skipWhitespace_cons (by decide)

theorem skipWhitespace_printMoreFields (fields : List (Text × Value)) (r : Text) :
    skipWhitespace (printMoreFields fields ++ '}' :: r) = printMoreFields fields ++ '}' :: r := by
  cases fields with
  | nil => exact skipWhitespace_cons (by decide)
  | cons f fields => exact skipWhitespace_cons (by decide)

theorem parseValue_arr {n : Nat} {c : Char} {s t u : Text} {v : Value} {vs : List Value}
    (hs : skipWhitespace s = c :: t) (hc : c ≠ ']') {t' : Text}
    (hv : parseValue n (c :: t) = some (v, t'))
    (hvs : parseMore n (skipWhitespace t') = some (vs, u)) :
    parseValue (n + 1) ('[' :: s) = some (.arr (v :: vs), u) := by
  rw [parseValue, hs]
  split
  case h_1 heq => exact absurd (List.cons.inj heq).1 hc
  case h_2 => simp [hv, hvs]

theorem parseValue_obj {n : Nat} {c : Char} {s t u : Text} {f : Text × Value}
    {fs : List (Text × Value)} (hs : skipWhitespace s = c :: t) (hc : c ≠ '}') {t' : Text}
    (hf : parseField n (c :: t) = some (f, t'))
    (hfs : parseMoreFields n (skipWhitespace t') = some (fs, u)) :
    parseValue (n + 1) ('{' :: s) = some (.obj (merge [] (f :: fs)), u) := by
  rw [parseValue, hs]
  split
  case h_1 heq => exact absurd (List.cons.inj heq).1 hc
  case h_2 => simp [hf, hfs]

mutual

theorem readBack_print : ∀ v : Value, WellFormed v → ReadBack v
  | .null, _ => readBack_word (by decide) (by decide) rfl
  | .bool true, _ => readBack_word (by decide) (by decide) rfl
  | .bool false, _ => readBack_word (by decide) (by decide) rfl
  | .num n, _ => by
    refine readBack_word (isNumber_word n.valid) ?_ (parseWord_number n)
    intro h
    have hvalid := n.valid
    rw [show n.text = [] from h] at hvalid
    exact absurd hvalid (by decide)
  | .str s, _ => by
    intro n r hn _
    cases n with
    | zero => cases hn
    | succ n =>
      have hstring := parseString_print s r
      simp only [print, printString, List.cons_append, List.append_assoc, List.nil_append]
      rw [parseValue, hstring]
      rfl
  | .arr [], _ => by
    intro n r hn _
    cases n with
    | zero => cases hn
    | succ n => rfl
  | .arr (x :: xs), h => by
    obtain ⟨hx, hxs⟩ := h
    intro n r hn _
    cases n with
    | zero => cases hn
    | succ n =>
      simp only [print, List.length_cons, List.length_append, List.length_nil] at hn
      have hhead := readBack_print x hx n (printMore xs ++ ']' :: r) (by omega)
        (stops_printMore xs r)
      have hmore := parseMore_print xs hxs n r (by omega)
      have hskip := skipWhitespace_print x (printMore xs ++ ']' :: r)
      obtain ⟨c, t, hp, -, hc, -⟩ := print_head x
      rw [hp] at hskip hhead
      simp only [print, hp, List.cons_append, List.append_assoc, List.nil_append]
        at hskip hhead ⊢
      refine parseValue_arr hskip hc hhead ?_
      rw [skipWhitespace_printMore]
      exact hmore
  | .obj [], _ => by
    intro n r hn _
    cases n with
    | zero => cases hn
    | succ n => rfl
  | .obj ((k, v) :: fields), h => by
    obtain ⟨hkeys, hv, hfields⟩ := h
    intro n r hn _
    cases n with
    | zero => cases hn
    | succ n =>
      cases n with
      | zero => simp [print] at hn
      | succ n =>
        simp only [print, printString, List.length_cons, List.length_append, List.length_nil] at hn
        have hfield := parseField_print (readBack_print v hv) k n
          (printMoreFields fields ++ '}' :: r) (by omega) (stops_printMoreFields fields r)
        have hmore := parseMoreFields_print fields hfields (n + 1) r (by omega)
        simp only [print, printString, List.cons_append, List.append_assoc, List.nil_append]
          at hfield ⊢
        rw [← merge_nil ((k, v) :: fields) hkeys]
        refine parseValue_obj (skipWhitespace_cons (by decide)) (by decide) hfield ?_
        rw [skipWhitespace_printMoreFields]
        exact hmore

theorem parseMore_print : ∀ (xs : List Value), AllWellFormed xs → ∀ n r,
    (printMore xs).length < n → parseMore n (printMore xs ++ ']' :: r) = some (xs, r)
  | [], _ => by
    intro n r hn
    cases n with
    | zero => cases hn
    | succ n => rfl
  | x :: xs, h => by
    obtain ⟨hx, hxs⟩ := h
    intro n r hn
    cases n with
    | zero => cases hn
    | succ n =>
      simp only [printMore, List.length_cons, List.length_append] at hn
      have hhead := readBack_print x hx n (printMore xs ++ ']' :: r) (by omega)
        (stops_printMore xs r)
      have hmore := parseMore_print xs hxs n r (by omega)
      simp only [printMore, List.cons_append, List.append_assoc]
      rw [parseMore, skipWhitespace_space, skipWhitespace_print, hhead]
      simp [skipWhitespace_printMore, hmore]

theorem parseMoreFields_print : ∀ (fields : List (Text × Value)), FieldsWellFormed fields → ∀ n r,
    (printMoreFields fields).length < n →
      parseMoreFields n (printMoreFields fields ++ '}' :: r) = some (fields, r)
  | [], _ => by
    intro n r hn
    cases n with
    | zero => cases hn
    | succ n => rfl
  | (k, v) :: fields, h => by
    obtain ⟨hv, hfields⟩ := h
    intro n r hn
    cases n with
    | zero => cases hn
    | succ n =>
      cases n with
      | zero => simp [printMoreFields] at hn
      | succ n =>
        simp only [printMoreFields, printString, List.length_cons, List.length_append,
          List.length_nil] at hn
        have hfield := parseField_print (readBack_print v hv) k n
          (printMoreFields fields ++ '}' :: r) (by omega) (stops_printMoreFields fields r)
        have hmore := parseMoreFields_print fields hfields (n + 1) r (by omega)
        have hskip : skipWhitespace (' ' :: (printString k ++ ':' :: ' ' :: print v ++
            (printMoreFields fields ++ '}' :: r))) = printString k ++ ':' :: ' ' :: print v ++
            (printMoreFields fields ++ '}' :: r) := by
          rw [skipWhitespace_space]
          exact skipWhitespace_cons (by decide)
        simp only [printMoreFields, cons_append, append_assoc] at hfield hskip ⊢
        rw [parseMoreFields, hskip, hfield]
        simp [skipWhitespace_printMoreFields, hmore]

end

/-- **Round trip.** -/
theorem parse_print (v : Value) (h : WellFormed v) : parse (print v) = some v := by
  have hskip := skipWhitespace_print v []
  have hvalue := readBack_print v h ((print v).length + 1) [] (by omega) nofun
  rw [append_nil] at hskip hvalue
  unfold parse
  rw [hskip, hvalue]
  rfl

end Json
