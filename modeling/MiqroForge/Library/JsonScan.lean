import MiqroForge.Library.JsonRoundTrip
import MiqroForge.Library.Lines

/-!
What a reader can make of a piece of written JSON. A scanner follows the quotes and
escapes of a text. Read from the inside of a string, a piece is scanned the other way
round, and then its strings are made of punctuation only.
-/

namespace Json

open PyText List

/-- Where a scan is: outside the strings, in one, behind a backslash in one, or at fault with a
backslash outside. -/
inductive Scan where
  | outside
  | inside
  | escaped
  | broken
  deriving DecidableEq, Repr

def Scan.step : Scan → Char → Scan
  | .outside, c => if c = '\x22' then .inside else if c = '\\' then .broken else .outside
  | .inside, c => if c = '\x22' then .outside else if c = '\\' then .escaped else .inside
  | .escaped, _ => .inside
  | .broken, _ => .broken

def scan (st : Scan) (s : Text) : Scan := s.foldl Scan.step st

@[simp] theorem scan_nil (st : Scan) : scan st [] = st := rfl

@[simp] theorem scan_cons (st : Scan) (c : Char) (s : Text) :
    scan st (c :: s) = scan (st.step c) s := rfl

@[simp] theorem scan_append (st : Scan) (s t : Text) : scan st (s ++ t) = scan (scan st s) t :=
  foldl_append

/-- A character that is neither a quote nor a backslash. -/
def isPlain (c : Char) : Bool := c != '\x22' && c != '\\'

variable {c : Char}

theorem step_plain (h : isPlain c = true) :
    Scan.outside.step c = .outside ∧ Scan.inside.step c = .inside := by
  unfold isPlain at h
  simp only [Bool.and_eq_true, bne_iff_ne] at h
  simp [Scan.step, h.1, h.2]

theorem scan_plain {s : Text} (h : ∀ c ∈ s, isPlain c = true) :
    scan .outside s = .outside ∧ scan .inside s = .inside := by
  induction s with
  | nil => exact ⟨rfl, rfl⟩
  | cons c s ih =>
    obtain ⟨ho, hi⟩ := step_plain (h c mem_cons_self)
    rw [scan_cons, scan_cons, ho, hi]
    exact ih fun x hx => h x (mem_cons_of_mem c hx)

theorem scan_broken (s : Text) : scan .broken s = .broken := by
  induction s with
  | nil => rfl
  | cons c s ih => exact ih

/-- **The other way round.** A text that scans without fault from inside and from outside a
string has no backslash, and the two scans end in opposite states. -/
theorem scan_flip (s : Text) (hi : scan .inside s ≠ .broken) (ho : scan .outside s ≠ .broken) :
    '\\' ∉ s ∧ ((scan .inside s = .inside ∧ scan .outside s = .outside) ∨
      (scan .inside s = .outside ∧ scan .outside s = .inside)) := by
  induction s with
  | nil => exact ⟨by simp, Or.inl ⟨rfl, rfl⟩⟩
  | cons c s ih =>
    by_cases hq : c = '\x22'
    · subst hq
      have hi' : scan .outside s ≠ .broken := hi
      have ho' : scan .inside s ≠ .broken := ho
      obtain ⟨hb, hends⟩ := ih ho' hi'
      refine ⟨?_, ?_⟩
      · simp [hb]
      · rcases hends with ⟨h1, h2⟩ | ⟨h1, h2⟩
        · exact Or.inr ⟨h2, h1⟩
        · exact Or.inl ⟨h2, h1⟩
    · by_cases hb : c = '\\'
      · subst hb
        exact absurd (scan_broken s) ho
      · have hplain : isPlain c = true := by simp [isPlain, hq, hb]
        obtain ⟨h1, h2⟩ := step_plain hplain
        rw [scan_cons, h2] at hi ⊢
        rw [scan_cons, h1] at ho ⊢
        obtain ⟨hmem, hends⟩ := ih hi ho
        refine ⟨?_, hends⟩
        rw [mem_cons, not_or]
        exact ⟨fun h => hb h.symm, hmem⟩

/-! ## The characters of a value -/

mutual

/-- All characters of the strings and keys of a value. -/
def chars : Value → Text
  | .str s => s
  | .arr xs => charsList xs
  | .obj fields => charsFields fields
  | _ => []

def charsList : List Value → Text
  | [] => []
  | x :: xs => chars x ++ charsList xs

def charsFields : List (Text × Value) → Text
  | [] => []
  | (k, v) :: fields => k ++ chars v ++ charsFields fields

end

variable {fields : List (Text × Value)}

theorem mem_charsFields :
    c ∈ charsFields fields ↔ ∃ f ∈ fields, c ∈ f.1 ∨ c ∈ chars f.2 := by
  induction fields with
  | nil => simp [charsFields]
  | cons f fields ih =>
    obtain ⟨k, v⟩ := f
    simp only [charsFields, mem_append, mem_cons, ih]
    constructor
    · rintro (h | ⟨f, hf, h⟩)
      · exact ⟨(k, v), Or.inl rfl, h⟩
      · exact ⟨f, Or.inr hf, h⟩
    · rintro ⟨f, rfl | hf, h⟩
      · exact Or.inl h
      · exact Or.inr ⟨f, hf, h⟩

theorem charsFields_merge {d patch : List (Text × Value)}
    (h : c ∈ charsFields (merge d patch)) : c ∈ charsFields d ∨ c ∈ charsFields patch := by
  obtain ⟨f, hf, hc⟩ := mem_charsFields.mp h
  rcases mem_merge hf with hf | hf
  · exact Or.inl (mem_charsFields.mpr ⟨f, hf, hc⟩)
  · exact Or.inr (mem_charsFields.mpr ⟨f, hf, hc⟩)

/-! ## What the reader reads -/

/-- The reader gets from `s` to its rest `r` in step with the scan; without a backslash on the
way the characters `cs` of what it read are among those it passed. -/
def Reads (st : Scan) (s r cs : Text) : Prop :=
  ∃ pre, s = pre ++ r ∧ scan st pre = .outside ∧ ('\\' ∉ pre → ∀ c ∈ cs, c ∈ pre)

theorem Reads.trans {st : Scan} {s t u cs ds : Text} (h : Reads st s t cs)
    (h' : Reads .outside t u ds) : Reads st s u (cs ++ ds) := by
  obtain ⟨p, hs, hp, hc⟩ := h
  obtain ⟨q, ht, hq, hd⟩ := h'
  refine ⟨p ++ q, by rw [hs, ht, append_assoc], by rw [scan_append, hp, hq], ?_⟩
  intro hb c hcd
  rw [mem_append, not_or] at hb
  rcases mem_append.mp hcd with h | h
  · exact mem_append_left q (hc hb.1 c h)
  · exact mem_append_right p (hd hb.2 c h)

theorem Reads.mono {st : Scan} {s r cs ds : Text} (h : Reads st s r cs)
    (hsub : ∀ c ∈ ds, c ∈ cs) : Reads st s r ds := by
  obtain ⟨p, hs, hp, hc⟩ := h
  exact ⟨p, hs, hp, fun hb c hd => hc hb c (hsub c hd)⟩

theorem reads_plain (r : Text) (h : isPlain c = true) :
    Reads .outside (c :: r) r [] := by
  refine ⟨[c], rfl, (step_plain h).1, ?_⟩
  intro _ x hx
  cases hx

theorem isWhitespace_plain (h : isWhitespace c = true) : isPlain c = true := by
  unfold isWhitespace at h
  simp only [Bool.or_eq_true, beq_iff_eq] at h
  rcases h with ((rfl | rfl) | rfl) | rfl <;> decide

theorem reads_dropWhile (p : Char → Bool) (hp : ∀ c, p c = true → isPlain c = true) (s : Text) :
    Reads .outside s (s.dropWhile p) [] := by
  refine ⟨s.takeWhile p, takeWhile_append_dropWhile.symm, ?_, ?_⟩
  · exact (scan_plain fun c hc => hp c (mem_takeWhile_imp hc)).1
  · nofun

theorem reads_skip (s : Text) : Reads .outside s (skipWhitespace s) [] :=
  reads_dropWhile isWhitespace (fun _ => isWhitespace_plain) s

theorem isWordChar_plain (h : isWordChar c = true) : isPlain c = true := by
  unfold isPlain
  rw [Bool.and_eq_true, bne_iff_ne, bne_iff_ne]
  constructor
  · rintro rfl
    exact absurd h (by decide)
  · rintro rfl
    exact absurd h (by decide)

theorem hexValue_plain {n : Nat} (h : hexValue c = some n) : isPlain c = true := by
  unfold isPlain
  rw [Bool.and_eq_true, bne_iff_ne, bne_iff_ne]
  constructor
  · rintro rfl
    cases h
  · rintro rfl
    cases h

theorem hexValue4_plain {a b c d : Char} {n : Nat} (h : hexValue4 a b c d = some n) :
    ∀ x ∈ [a, b, c, d], isPlain x = true := by
  unfold hexValue4 at h
  split at h
  case h_1 ha hb hc hd =>
    intro x hx
    simp only [mem_cons, not_mem_nil, or_false] at hx
    rcases hx with rfl | rfl | rfl | rfl
    · exact hexValue_plain ha
    · exact hexValue_plain hb
    · exact hexValue_plain hc
    · exact hexValue_plain hd
  case h_2 => cases h

theorem Reads.escape {q r u t : Text} (t' : Text) (h : Reads .inside r u t)
    (hq : scan .escaped q = .inside) : Reads .inside ('\\' :: q ++ r) u t' := by
  obtain ⟨p, hr, hp, -⟩ := h
  refine ⟨'\\' :: q ++ p, by rw [hr, append_assoc], ?_, ?_⟩
  · show scan .escaped (q ++ p) = .outside
    rw [scan_append, hq, hp]
  · intro hb
    simp at hb

theorem scan_unicode {a b c d : Char} {n : Nat} (h : hexValue4 a b c d = some n) :
    scan .escaped ['u', a, b, c, d] = .inside :=
  (scan_plain (hexValue4_plain h)).2

theorem parseString_reads {s t r : Text} (h : parseString s = some (t, r)) :
    Reads .inside s r t := by
  induction s using parseString.induct generalizing t r with
  | case1 => cases h
  | case2 s =>
    rw [parseString] at h
    cases h
    refine ⟨['\x22'], rfl, rfl, ?_⟩
    intro _ c hc
    cases hc
  | case3 a b c d s hpair ih =>
    rw [parseString] at h
    obtain ⟨n, hn, h⟩ := Option.bind_eq_some_iff.mp h
    split at h
    case isTrue =>
      split at h
      case h_1 a' b' c' d' s' =>
        obtain ⟨m, hm, h⟩ := Option.bind_eq_some_iff.mp h
        obtain ⟨x, -, h⟩ := Option.bind_eq_some_iff.mp h
        obtain ⟨⟨t', r'⟩, ht, h⟩ := Option.bind_eq_some_iff.mp h
        cases h
        have hlow := (hpair ht).escape t' (scan_unicode hm)
        exact hlow.escape _ (scan_unicode hn)
      case h_2 => cases h
    case isFalse =>
      obtain ⟨⟨t', r'⟩, ht, h⟩ := Option.bind_eq_some_iff.mp h
      cases h
      exact (ih ht).escape _ (scan_unicode hn)
  | case4 e s hu ih =>
    rw [parseString] at h
    · obtain ⟨x, -, h⟩ := Option.bind_eq_some_iff.mp h
      obtain ⟨⟨t', r'⟩, ht, h⟩ := Option.bind_eq_some_iff.mp h
      cases h
      exact (ih ht).escape (q := [e]) _ rfl
    · exact hu
  | case5 c s hq hu he hc =>
    rw [parseString] at h
    · rw [if_pos hc] at h
      cases h
    · exact hq
    · exact hu
    · exact he
  | case6 c s hq hu he hc ih =>
    rw [parseString] at h
    · rw [if_neg hc] at h
      obtain ⟨⟨t', r'⟩, ht, h⟩ := Option.bind_eq_some_iff.mp h
      cases h
      obtain ⟨p, hs, hp, hsub⟩ := ih ht
      have hplain : isPlain c = true := by
        rw [not_or] at hc
        simp [isPlain, hc.1, show c ≠ '\x22' from hq]
      refine ⟨c :: p, by rw [hs, cons_append], ?_, ?_⟩
      · rw [scan_cons, (step_plain hplain).2, hp]
      · intro hb x hx
        rw [mem_cons, not_or] at hb
        rcases mem_cons.mp hx with rfl | hx
        · exact mem_cons_self
        · exact mem_cons_of_mem c (hsub hb.2 x hx)
    · exact hq
    · exact hu
    · exact he

theorem reads_quote {s r t : Text} (h : Reads .inside s r t) :
    Reads .outside ('\x22' :: s) r t := by
  obtain ⟨p, hs, hp, hsub⟩ := h
  refine ⟨'\x22' :: p, by rw [hs, cons_append], hp, ?_⟩
  intro hb c hc
  rw [mem_cons, not_or] at hb
  exact mem_cons_of_mem _ (hsub hb.2 c hc)

/-! ## Well-formed dictionaries -/

theorem fieldsWellFormed_iff (fields : List (Text × Value)) :
    FieldsWellFormed fields ↔ ∀ f ∈ fields, WellFormed f.2 := by
  induction fields with
  | nil => simp [FieldsWellFormed]
  | cons f fields ih =>
    obtain ⟨k, v⟩ := f
    simp [FieldsWellFormed, ih]

theorem allWellFormed_iff (xs : List Value) : AllWellFormed xs ↔ ∀ x ∈ xs, WellFormed x := by
  induction xs with
  | nil => simp [AllWellFormed]
  | cons x xs ih => simp [AllWellFormed, ih]

theorem merged_wellFormed (h : FieldsWellFormed fields) :
    WellFormed (.obj (merge [] fields)) := by
  refine ⟨keys_merge_nodup [] fields nodup_nil, (fieldsWellFormed_iff _).mpr fun f hf => ?_⟩
  rcases mem_merge hf with hf | hf
  · cases hf
  · exact (fieldsWellFormed_iff fields).mp h f hf

theorem setField_wellFormed {k : Text} {v : Value}
    (h : WellFormed (.obj fields)) (hv : WellFormed v) :
    WellFormed (.obj (setField fields k v)) := by
  refine ⟨keys_merge_nodup fields [(k, v)] h.1, (fieldsWellFormed_iff _).mpr fun f hf => ?_⟩
  rcases mem_setField hf with hf | rfl
  · exact (fieldsWellFormed_iff fields).mp h.2 f hf
  · exact hv

theorem lookup_wellFormed {k : Text} {v : Value}
    (h : WellFormed (.obj fields)) (hv : fields.lookup k = some v) : WellFormed v := by
  obtain ⟨before, after, rfl, -⟩ := lookup_eq_some_iff.mp hv
  exact (fieldsWellFormed_iff _).mp h.2 (k, v) (by simp)

/-! ## The reading functions -/

/-- The four reading functions, with fuel `n`: what they read scans in step, and is well formed. -/
structure ReadsInStep (n : Nat) : Prop where
  value : ∀ s v r, parseValue n s = some (v, r) → Reads .outside s r (chars v) ∧ WellFormed v
  more : ∀ s vs r, parseMore n s = some (vs, r) →
    Reads .outside s r (charsList vs) ∧ AllWellFormed vs
  field : ∀ s f r, parseField n s = some (f, r) →
    Reads .outside s r (f.1 ++ chars f.2) ∧ WellFormed f.2
  moreFields : ∀ s fs r, parseMoreFields n s = some (fs, r) →
    Reads .outside s r (charsFields fs) ∧ FieldsWellFormed fs

theorem parseWord_chars {w : Text} {v : Value} (h : parseWord w = some v) : chars v = [] := by
  unfold parseWord at h
  split_ifs at h <;> (obtain rfl := Option.some.inj h; rfl)

theorem parseWord_wellFormed {w : Text} {v : Value} (h : parseWord w = some v) :
    WellFormed v := by
  unfold parseWord at h
  split_ifs at h <;> (obtain rfl := Option.some.inj h; trivial)

theorem readsInStep (n : Nat) : ReadsInStep n := by
  induction n with
  | zero =>
    refine ⟨?_, ?_, ?_, ?_⟩
    · nofun
    · intro s vs r h
      simp [parseMore] at h
    · intro s f r h
      simp [parseField] at h
    · intro s fs r h
      simp [parseMoreFields] at h
  | succ n ih =>
    refine ⟨?_, ?_, ?_, ?_⟩
    · intro s v r h
      unfold parseValue at h
      split at h
      case h_1 heq => cases heq
      case h_2 m t heq =>
        obtain ⟨⟨u, r'⟩, hu, h⟩ := Option.bind_eq_some_iff.mp h
        cases h
        exact ⟨reads_quote (parseString_reads hu), trivial⟩
      case h_3 m t heq =>
        obtain rfl : n = m := Nat.succ.inj heq
        have hskip := (reads_plain t (by decide : isPlain '[' = true)).trans (reads_skip t)
        split at h
        case h_1 r' hr =>
          cases h
          rw [hr] at hskip
          exact ⟨hskip.trans (reads_plain r (by decide)), trivial⟩
        case h_2 =>
          obtain ⟨⟨x, r1⟩, hx, h⟩ := Option.bind_eq_some_iff.mp h
          obtain ⟨⟨xs, r2⟩, hxs, h⟩ := Option.bind_eq_some_iff.mp h
          cases h
          obtain ⟨hfirst, hwf⟩ := ih.value _ _ _ hx
          obtain ⟨hrest, hwfs⟩ := ih.more _ _ _ hxs
          exact ⟨(hskip.trans hfirst).trans ((reads_skip r1).trans hrest), hwf, hwfs⟩
      case h_4 m t heq =>
        obtain rfl : n = m := Nat.succ.inj heq
        have hskip := (reads_plain t (by decide : isPlain '{' = true)).trans (reads_skip t)
        split at h
        case h_1 r' hr =>
          cases h
          rw [hr] at hskip
          exact ⟨hskip.trans (reads_plain r (by decide)), nodup_nil, trivial⟩
        case h_2 =>
          obtain ⟨⟨f, r1⟩, hf, h⟩ := Option.bind_eq_some_iff.mp h
          obtain ⟨⟨fs, r2⟩, hfs, h⟩ := Option.bind_eq_some_iff.mp h
          cases h
          obtain ⟨hfirst, hwf⟩ := ih.field _ _ _ hf
          obtain ⟨hrest, hwfs⟩ := ih.moreFields _ _ _ hfs
          have hread := (hskip.trans hfirst).trans ((reads_skip r1).trans hrest)
          refine ⟨hread.mono fun c hc => ?_, merged_wellFormed ⟨hwf, hwfs⟩⟩
          rcases charsFields_merge hc with hc | hc
          · cases hc
          · exact hc
      case h_5 =>
        obtain ⟨w, hw, h⟩ := Option.bind_eq_some_iff.mp h
        cases h
        rw [parseWord_chars hw]
        exact ⟨reads_dropWhile isWordChar (fun _ => isWordChar_plain) _, parseWord_wellFormed hw⟩
    · intro s vs r h
      unfold parseMore at h
      split at h
      case h_1 =>
        cases h
        exact ⟨reads_plain _ (by decide), trivial⟩
      case h_2 m t heq =>
        obtain rfl : n = m := Nat.succ.inj heq
        obtain ⟨⟨x, r1⟩, hx, h⟩ := Option.bind_eq_some_iff.mp h
        obtain ⟨⟨xs, r2⟩, hxs, h⟩ := Option.bind_eq_some_iff.mp h
        cases h
        have hskip := (reads_plain t (by decide : isPlain ',' = true)).trans (reads_skip t)
        obtain ⟨hfirst, hwf⟩ := ih.value _ _ _ hx
        obtain ⟨hrest, hwfs⟩ := ih.more _ _ _ hxs
        exact ⟨(hskip.trans hfirst).trans ((reads_skip r1).trans hrest), hwf, hwfs⟩
      case h_3 => cases h
    · intro s f r h
      unfold parseField at h
      split at h
      case h_1 m t heq =>
        obtain rfl : n = m := Nat.succ.inj heq
        obtain ⟨⟨k, r1⟩, hk, h⟩ := Option.bind_eq_some_iff.mp h
        have hkey := (reads_quote (parseString_reads hk)).trans (reads_skip r1)
        simp only at h
        split at h
        case h_1 r2 hr =>
          obtain ⟨⟨v, r3⟩, hv, h⟩ := Option.bind_eq_some_iff.mp h
          cases h
          rw [hr, append_nil] at hkey
          have hskip := (reads_plain r2 (by decide : isPlain ':' = true)).trans (reads_skip r2)
          obtain ⟨hread, hwf⟩ := ih.value _ _ _ hv
          exact ⟨hkey.trans (hskip.trans hread), hwf⟩
        case h_2 => cases h
      case h_2 => cases h
    · intro s fs r h
      unfold parseMoreFields at h
      split at h
      case h_1 =>
        cases h
        exact ⟨reads_plain _ (by decide), trivial⟩
      case h_2 m t heq =>
        obtain rfl : n = m := Nat.succ.inj heq
        obtain ⟨⟨f, r1⟩, hf, h⟩ := Option.bind_eq_some_iff.mp h
        obtain ⟨⟨fs', r2⟩, hfs, h⟩ := Option.bind_eq_some_iff.mp h
        cases h
        have hskip := (reads_plain t (by decide : isPlain ',' = true)).trans (reads_skip t)
        obtain ⟨hfirst, hwf⟩ := ih.field _ _ _ hf
        obtain ⟨hrest, hwfs⟩ := ih.moreFields _ _ _ hfs
        exact ⟨(hskip.trans hfirst).trans ((reads_skip r1).trans hrest), hwf, hwfs⟩
      case h_3 => cases h

/-- **What is read scans from outside to outside**, and without a backslash its strings are made
of the characters of the text. -/
theorem parse_reads {s : Text} {v : Value} (h : parse s = some v) :
    scan .outside s = .outside ∧ ('\\' ∉ s → ∀ c ∈ chars v, c ∈ s) := by
  unfold parse at h
  obtain ⟨⟨w, r⟩, hw, h⟩ := Option.bind_eq_some_iff.mp h
  dsimp only at h
  split at h
  case isTrue hr =>
    cases h
    have hread := ((reads_skip s).trans ((readsInStep _).value _ _ _ hw).1).trans (reads_skip r)
    obtain ⟨p, hs, hp, hsub⟩ := hread
    rw [hr, append_nil] at hs
    subst hs
    refine ⟨hp, fun hb c hc => hsub hb c ?_⟩
    simpa using hc
  case isFalse => cases h

theorem parse_wellFormed {s : Text} {v : Value} (h : parse s = some v) : WellFormed v := by
  unfold parse at h
  obtain ⟨⟨w, r⟩, hw, h⟩ := Option.bind_eq_some_iff.mp h
  dsimp only at h
  split at h
  case isTrue =>
    cases h
    exact ((readsInStep _).value _ _ _ hw).2
  case isFalse => cases h

end Json
