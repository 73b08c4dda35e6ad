import MiqroForge.Library.JsonScan

/-!
Written JSON split at line breaks. The writer leaves three line breaks unescaped, all
inside strings. A value without them is written on one line; the pieces of one with them
yield at most values that have none.
-/

namespace Json

open PyText List

/-- A line break the writer does not escape: U+0085, U+2028 or U+2029. -/
def isRawBreak (c : Char) : Bool := isLineBreak c && 32 ≤ c.toNat

/-- The value has no line break that is written as it is. -/
def Unbroken (v : Value) : Prop := ∀ c ∈ chars v, isRawBreak c = false

/-- Every line break of the text is inside a string. -/
def BreaksInside : Scan → Text → Prop
  | _, [] => True
  | st, c :: s => (isLineBreak c = true → st = .inside) ∧ BreaksInside (st.step c) s

theorem breaksInside_append (st : Scan) (s t : Text) :
    BreaksInside st (s ++ t) ↔ BreaksInside st s ∧ BreaksInside (scan st s) t := by
  induction s generalizing st with
  | nil => simp [BreaksInside]
  | cons c s ih =>
    rw [cons_append, BreaksInside, BreaksInside, ih, scan_cons, and_assoc]

/-- A text that scans from `st` to `st'` with its line breaks inside strings. -/
def Written (st st' : Scan) (s : Text) : Prop := scan st s = st' ∧ BreaksInside st s

theorem Written.append {st st' st'' : Scan} {s t : Text} (hs : Written st st' s)
    (ht : Written st' st'' t) : Written st st'' (s ++ t) := by
  obtain ⟨hs1, hs2⟩ := hs
  refine ⟨?_, (breaksInside_append st s t).mpr ⟨hs2, ?_⟩⟩
  · rw [scan_append, hs1, ht.1]
  · rw [hs1]
    exact ht.2

theorem Written.cons {st st' : Scan} {c : Char} {s : Text} (hc : isLineBreak c = false)
    (hs : Written (st.step c) st' s) : Written st st' (c :: s) := by
  refine ⟨hs.1, ?_, hs.2⟩
  intro h
  rw [hc] at h
  cases h

theorem written_nil (st : Scan) : Written st st [] := ⟨rfl, trivial⟩

theorem isWordChar_not_break {c : Char} (h : isWordChar c = true) : isLineBreak c = false := by
  have hrange : 43 ≤ c.toNat ∧ c.toNat ≤ 122 := by
    unfold isWordChar at h
    simp only [Bool.or_eq_true, beq_iff_eq] at h
    rcases h with ((h | rfl) | rfl) | rfl
    · have hclasses : c.isAlphanum =
          ((decide (c.val ≥ 'A'.val ∧ c.val ≤ 'Z'.val) || c.val ≥ 'a'.val && c.val ≤ 'z'.val) ||
            c.val ≥ '0'.val && c.val ≤ '9'.val) := rfl
      simp only [hclasses, Bool.or_eq_true, Bool.and_eq_true, decide_eq_true_eq,
        UInt32.le_iff_toNat_le, ge_iff_le] at h
      have hval : c.toNat = c.val.toNat := rfl
      have h65 : 'A'.val.toNat = 65 := rfl
      have h90 : 'Z'.val.toNat = 90 := rfl
      have h97 : 'a'.val.toNat = 97 := rfl
      have h122 : 'z'.val.toNat = 122 := rfl
      have h48 : '0'.val.toNat = 48 := rfl
      have h57 : '9'.val.toNat = 57 := rfl
      omega
    · decide
    · decide
    · decide
  unfold isLineBreak
  simp only [Bool.or_eq_false_iff, Bool.and_eq_false_iff, decide_eq_false_iff_not,
    beq_eq_false_iff_ne]
  omega

theorem written_word {w : Text} (h : w.all isWordChar = true) : Written .outside .outside w := by
  induction w with
  | nil => exact written_nil _
  | cons c w ih =>
    simp only [all_cons, Bool.and_eq_true] at h
    have hstep := (step_plain (isWordChar_plain h.1)).1
    refine Written.cons (isWordChar_not_break h.1) ?_
    rw [hstep]
    exact ih h.2

theorem hexDigit_spec : ∀ n, n < 16 →
    isPlain (hexDigit n) = true ∧ isLineBreak (hexDigit n) = false := by decide

theorem written_escapeChar (c : Char) : Written .inside .inside (escapeChar c) := by
  have htwo : ∀ e, isLineBreak e = false → Written .inside .inside ['\\', e] := fun e he =>
    Written.cons (by decide) (Written.cons he (written_nil _))
  unfold escapeChar
  split_ifs with h1 h2 h3 h4 h5 h6 h7 h8
  · exact htwo _ (by decide)
  · exact htwo _ (by decide)
  · exact htwo _ (by decide)
  · exact htwo _ (by decide)
  · exact htwo _ (by decide)
  · exact htwo _ (by decide)
  · exact htwo _ (by decide)
  · obtain ⟨hp1, hb1⟩ := hexDigit_spec (c.toNat / 16) (by omega)
    obtain ⟨hp2, hb2⟩ := hexDigit_spec (c.toNat % 16) (by omega)
    have hplain : ∀ x, isPlain x = true → isLineBreak x = false → ∀ s, Written .inside .inside s →
        Written .inside .inside (x :: s) := by
      intro x hx hb s hs
      refine Written.cons hb ?_
      rw [(step_plain hx).2]
      exact hs
    have hdigits := hplain _ hp1 hb1 _ (hplain _ hp2 hb2 _ (written_nil .inside))
    exact Written.cons (by decide) (Written.cons (by decide)
      (hplain '0' (by decide) (by decide) _ (hplain '0' (by decide) (by decide) _ hdigits)))
  · have hplain : isPlain c = true := by simp [isPlain, h1, h2]
    have hstep := (step_plain hplain).2
    exact ⟨hstep, fun _ => rfl, trivial⟩

theorem written_printString (s : Text) : Written .outside .outside (printString s) := by
  have hbody : ∀ s : Text, Written .inside .inside (s.flatMap escapeChar) := by
    intro s
    induction s with
    | nil => exact written_nil _
    | cons c s ih => exact (written_escapeChar c).append ih
  have hclose : Written .inside .outside ['\x22'] := Written.cons (by decide) (written_nil _)
  exact Written.cons (by decide) ((hbody s).append hclose)

theorem written_mark {c : Char} {s : Text} (hs : Written .outside .outside s)
    (h : isPlain c = true ∧ isLineBreak c = false) : Written .outside .outside (c :: s) := by
  refine Written.cons h.2 ?_
  rw [(step_plain h.1).1]
  exact hs

theorem written_entry {k : Text} {s : Text} (hs : Written .outside .outside s) :
    Written .outside .outside (printString k ++ ':' :: ' ' :: s) :=
  (written_printString k).append (written_mark (written_mark hs (by decide)) (by decide))

mutual

theorem written_print : ∀ v : Value, Written .outside .outside (print v)
  | .null => written_word (by decide)
  | .bool true => written_word (by decide)
  | .bool false => written_word (by decide)
  | .num n => written_word (isNumber_word n.valid)
  | .str s => written_printString s
  | .arr [] => written_mark (written_mark (written_nil _) (by decide)) (by decide)
  | .arr (x :: xs) => by
    have hclose : Written .outside .outside [']'] := written_mark (written_nil _) (by decide)
    exact ((written_mark (written_print x) (by decide)).append (written_printMore xs)).append hclose
  | .obj [] => written_mark (written_mark (written_nil _) (by decide)) (by decide)
  | .obj ((k, v) :: fields) => by
    have hclose : Written .outside .outside ['}'] := written_mark (written_nil _) (by decide)
    have hfirst := written_mark (c := '{') (written_entry (k := k)
      ((written_print v).append ((written_printMoreFields fields).append hclose))) (by decide)
    simpa [print] using hfirst

theorem written_printMore : ∀ xs : List Value, Written .outside .outside (printMore xs)
  | [] => written_nil _
  | x :: xs => by
    have hhead := written_mark (c := ',') (written_mark (c := ' ') (written_print x) (by decide))
      (by decide)
    exact Written.append (s := ',' :: ' ' :: print x) hhead (written_printMore xs)

theorem written_printMoreFields : ∀ fields : List (Text × Value),
    Written .outside .outside (printMoreFields fields)
  | [] => written_nil _
  | (k, v) :: fields => by
    have hentry := written_entry (k := k) ((written_print v).append (written_printMoreFields fields))
    have hhead := written_mark (c := ',') (written_mark (c := ' ') hentry (by decide)) (by decide)
    simpa [printMoreFields] using hhead

end

/-! ## Where the unescaped breaks are -/

variable {b : Char}

theorem isLineBreak_cases (hb : isLineBreak b = true) :
    (10 ≤ b.toNat ∧ b.toNat ≤ 30) ∨ b.toNat = 0x85 ∨ b.toNat = 0x2028 ∨ b.toNat = 0x2029 := by
  unfold isLineBreak at hb
  simp only [Bool.or_eq_true, Bool.and_eq_true, decide_eq_true_eq, beq_iff_eq] at hb
  omega

theorem not_mem_of_range {s : Text} (hb : isLineBreak b = true)
    (hs : ∀ c ∈ s, 32 ≤ c.toNat ∧ c.toNat < 127) : b ∉ s := by
  intro hmem
  have := hs b hmem
  rcases isLineBreak_cases hb with h | h | h | h <;> omega

theorem hexDigit_range : ∀ n, n < 16 → 32 ≤ (hexDigit n).toNat ∧ (hexDigit n).toNat < 127 := by
  decide

theorem mem_escapeChar {b c : Char} (hb : isLineBreak b = true) :
    b ∈ escapeChar c ↔ b = c ∧ 32 ≤ b.toNat := by
  have htwo : ∀ e d : Char, d.toNat < 32 ∨ isLineBreak d = false → 32 ≤ e.toNat ∧ e.toNat < 127 →
      (b ∈ ['\\', e] ↔ b = d ∧ 32 ≤ b.toNat) := by
    intro e d hd he
    refine iff_of_false (not_mem_of_range hb ?_) ?_
    · intro x hx
      simp only [mem_cons, not_mem_nil, or_false] at hx
      rcases hx with rfl | rfl
      · decide
      · exact he
    · rintro ⟨rfl, hlow⟩
      rcases hd with hd | hd
      · omega
      · rw [hb] at hd
        cases hd
  unfold escapeChar
  split_ifs with h1 h2 h3 h4 h5 h6 h7 h8
  · subst h1
    exact htwo _ _ (by decide) (by decide)
  · subst h2
    exact htwo _ _ (by decide) (by decide)
  · subst h3
    exact htwo _ _ (by decide) (by decide)
  · subst h4
    exact htwo _ _ (by decide) (by decide)
  · subst h5
    exact htwo _ _ (by decide) (by decide)
  · subst h6
    exact htwo _ _ (by decide) (by decide)
  · subst h7
    exact htwo _ _ (by decide) (by decide)
  · refine iff_of_false (not_mem_of_range hb ?_) ?_
    · intro x hx
      simp only [mem_cons, not_mem_nil, or_false] at hx
      rcases hx with rfl | rfl | rfl | rfl | rfl | rfl
      · decide
      · decide
      · decide
      · decide
      · exact hexDigit_range _ (by omega)
      · exact hexDigit_range _ (by omega)
    · rintro ⟨rfl, hlow⟩
      omega
  · rw [mem_singleton]
    constructor
    · rintro rfl
      exact ⟨rfl, by omega⟩
    · exact fun h => h.1

theorem mem_printString (hb : isLineBreak b = true) (s : Text) :
    b ∈ printString s ↔ b ∈ s ∧ 32 ≤ b.toNat := by
  have hquote : b ≠ '\x22' := by
    rintro rfl
    exact absurd hb (by decide)
  simp only [printString, mem_append, mem_cons, not_mem_nil, or_false, hquote,
    false_or, mem_flatMap, mem_escapeChar hb]
  constructor
  · rintro ⟨c, hc, rfl, hlow⟩
    exact ⟨hc, hlow⟩
  · rintro ⟨hmem, hlow⟩
    exact ⟨b, hmem, rfl, hlow⟩

theorem ne_mark {b c : Char} (hb : isLineBreak b = true) (hc : isLineBreak c = false) : b ≠ c := by
  rintro rfl
  rw [hb] at hc
  cases hc

theorem not_mem_word {w : Text} (hb : isLineBreak b = true)
    (hw : w.all isWordChar = true) : b ∉ w := by
  intro hmem
  have hword := isWordChar_not_break (all_eq_true.mp hw b hmem)
  rw [hb] at hword
  cases hword

theorem ne_punctuation (hb : isLineBreak b = true) :
    b ≠ ',' ∧ b ≠ ' ' ∧ b ≠ ':' ∧ b ≠ '[' ∧ b ≠ ']' ∧ b ≠ '{' ∧ b ≠ '}' :=
  ⟨ne_mark hb (by decide), ne_mark hb (by decide), ne_mark hb (by decide), ne_mark hb (by decide),
    ne_mark hb (by decide), ne_mark hb (by decide), ne_mark hb (by decide)⟩

theorem not_mem_print_word (hb : isLineBreak b = true) {w : Text}
    (hw : w.all isWordChar = true) : b ∈ w ↔ b ∈ ([] : Text) ∧ 32 ≤ b.toNat := by
  refine iff_of_false (not_mem_word hb hw) ?_
  rintro ⟨h, -⟩
  cases h

mutual

theorem mem_print {b : Char} (hb : isLineBreak b = true) :
    ∀ v : Value, b ∈ print v ↔ b ∈ chars v ∧ 32 ≤ b.toNat
  | .null => not_mem_print_word hb (by decide)
  | .bool true => not_mem_print_word hb (by decide)
  | .bool false => not_mem_print_word hb (by decide)
  | .num n => not_mem_print_word hb (isNumber_word n.valid)
  | .str s => mem_printString hb s
  | .arr [] => by
    obtain ⟨-, -, -, h4, h5, -⟩ := ne_punctuation hb
    simp [print, chars, charsList, h4, h5]
  | .arr (x :: xs) => by
    obtain ⟨-, -, -, h4, h5, -⟩ := ne_punctuation hb
    simp only [print, chars, charsList, List.mem_append, List.mem_cons, List.not_mem_nil, h4, h5,
      false_or, or_false, mem_print hb x, mem_printMore hb xs]
    tauto
  | .obj [] => by
    obtain ⟨-, -, -, -, -, h6, h7⟩ := ne_punctuation hb
    simp [print, chars, charsFields, h6, h7]
  | .obj ((k, v) :: fields) => by
    obtain ⟨-, h2, h3, -, -, h6, h7⟩ := ne_punctuation hb
    simp only [print, chars, charsFields, List.mem_append, List.mem_cons, List.not_mem_nil, h2, h3,
      h6, h7, false_or, or_false, mem_printString hb, mem_print hb v, mem_printMoreFields hb fields]
    tauto

theorem mem_printMore {b : Char} (hb : isLineBreak b = true) : ∀ xs : List Value,
    b ∈ printMore xs ↔ b ∈ charsList xs ∧ 32 ≤ b.toNat
  | [] => by simp [printMore, charsList]
  | x :: xs => by
    obtain ⟨h1, h2, -⟩ := ne_punctuation hb
    simp only [printMore, charsList, List.mem_append, List.mem_cons, h1, h2, false_or,
      mem_print hb x, mem_printMore hb xs]
    tauto

theorem mem_printMoreFields {b : Char} (hb : isLineBreak b = true) :
    ∀ fields : List (Text × Value),
      b ∈ printMoreFields fields ↔ b ∈ charsFields fields ∧ 32 ≤ b.toNat
  | [] => by simp [printMoreFields, charsFields]
  | (k, v) :: fields => by
    obtain ⟨h1, h2, h3, -⟩ := ne_punctuation hb
    simp only [printMoreFields, charsFields, List.mem_append, List.mem_cons, h1, h2, h3, false_or,
      mem_printString hb, mem_print hb v, mem_printMoreFields hb fields]
    tauto

end

theorem unbroken_iff (v : Value) : Unbroken v ↔ ∀ c ∈ print v, isLineBreak c = false := by
  constructor
  · intro h c hc
    by_contra hb
    have hb' : isLineBreak c = true := by simpa using hb
    obtain ⟨hmem, hlow⟩ := (mem_print hb' v).mp hc
    have hraw := h c hmem
    simp [isRawBreak, hb', hlow] at hraw
  · intro h c hc
    by_contra hraw
    have hraw' : isRawBreak c = true := by simpa using hraw
    unfold isRawBreak at hraw'
    rw [Bool.and_eq_true, decide_eq_true_eq] at hraw'
    have hprint := h c ((mem_print hraw'.1 v).mpr ⟨hc, hraw'.2⟩)
    rw [hraw'.1] at hprint
    cases hprint

/-! ## Pieces -/

theorem pieces_scan (s : Text) (st : Scan) (hs : Written st .outside s) :
    ∃ p ps, pieces s = p :: ps ∧ (ps = [] → p = s) ∧ (ps ≠ [] → scan st p = .inside) ∧
      ∀ q ∈ ps, scan .inside q = .inside ∨ scan .inside q = .outside := by
  induction s generalizing st with
  | nil => exact ⟨[], [], rfl, fun _ => rfl, fun h => absurd rfl h, by simp⟩
  | cons c s ih =>
    obtain ⟨hscan, hbreak, hinside⟩ := hs
    obtain ⟨p, ps, hp, hone, hfirst, hrest⟩ := ih (st.step c) ⟨hscan, hinside⟩
    by_cases hc : isLineBreak c = true
    · have hst : st = .inside := hbreak hc
      have hplain : isPlain c = true := by
        have hquote : c ≠ '\x22' := ne_mark hc (by decide)
        have hback : c ≠ '\\' := ne_mark hc (by decide)
        simp [isPlain, hquote, hback]
      subst hst
      rw [(step_plain hplain).2] at hfirst
      refine ⟨[], p :: ps, by rw [pieces, if_pos hc, hp], by simp, fun _ => rfl, ?_⟩
      intro q hq
      rcases mem_cons.mp hq with rfl | hq
      · by_cases hps : ps = []
        · rw [hone hps]
          rw [scan_cons, (step_plain hplain).2] at hscan
          exact Or.inr hscan
        · exact Or.inl (hfirst hps)
      · exact hrest q hq
    · refine ⟨c :: p, ps, by rw [pieces, if_neg hc, hp]; rfl, ?_, ?_, hrest⟩
      · intro h
        rw [hone h]
      · intro h
        rw [scan_cons]
        exact hfirst h

theorem isSpace_plain {c : Char} (h : isSpace c = true) : isPlain c = true := by
  unfold isPlain
  rw [Bool.and_eq_true, bne_iff_ne, bne_iff_ne]
  constructor
  · rintro rfl
    exact absurd h (by decide)
  · rintro rfl
    exact absurd h (by decide)

theorem parse_strip {s : Text} {v : Value} (h : parse (strip s) = some v) :
    scan .outside s = .outside ∧ ('\\' ∉ s → ∀ c ∈ chars v, c ∈ s) := by
  obtain ⟨a, b, hs, ha, hb⟩ := strip_decomp s
  obtain ⟨hscan, hchars⟩ := parse_reads h
  have hsub : ∀ c ∈ strip s, c ∈ s := by
    intro c hc
    rw [hs]
    simp [hc]
  refine ⟨?_, fun hback c hc => hsub c (hchars (fun h => hback (hsub _ h)) c hc)⟩
  rw [hs, scan_append, scan_append, (scan_plain fun c hc => isSpace_plain (ha c hc)).1, hscan]
  exact (scan_plain fun c hc => isSpace_plain (hb c hc)).1

/-- **A broken line yields no broken value.** Either the written text has no line break, or all
that is read from its pieces is unbroken. -/
theorem pieces_unbroken_values (s : Text) (hs : Written .outside .outside s) :
    pieces s = [s] ∨ ∀ q ∈ pieces s, ∀ v, parse (strip q) = some v → Unbroken v := by
  obtain ⟨p, ps, hp, hone, hfirst, hrest⟩ := pieces_scan s .outside hs
  by_cases hps : ps = []
  · rw [hp, hone hps, hps]
    exact Or.inl rfl
  · refine Or.inr fun q hq v hv => ?_
    obtain ⟨hscan, hchars⟩ := parse_strip hv
    have hclean := mem_pieces_unbroken hq
    rw [hp] at hq
    rcases mem_cons.mp hq with rfl | hq
    · rw [hfirst hps] at hscan
      cases hscan
    · have hin : scan .inside q ≠ .broken := by
        rcases hrest q hq with h | h <;> rw [h] <;> decide
      have hout : scan .outside q ≠ .broken := by
        rw [hscan]
        decide
      have hback := (scan_flip q hin hout).1
      intro c hc
      unfold isRawBreak
      rw [hclean c (hchars hback c hc)]
      rfl

/-! ## One object a line -/

theorem strip_braces (s : Text) : strip ('{' :: s ++ ['}']) = '{' :: s ++ ['}'] := by
  have hopen : isSpace '{' = false := by decide
  have hclose : isSpace '}' = false := by decide
  simp [strip, stripBy, lstripBy, rstripBy, hopen, hclose]

theorem strip_print (fields : List (Text × Value)) :
    strip (print (.obj fields)) = print (.obj fields) := by
  rcases fields with _ | ⟨⟨k, v⟩, fields⟩
  · rfl
  · exact strip_braces _

theorem not_mem_print (hb : isLineBreak b = true) (hlow : b.toNat < 32) (v : Value) :
    b ∉ print v := by
  rw [mem_print hb]
  rintro ⟨-, h⟩
  omega

end Json
