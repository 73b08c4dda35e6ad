import MiqroForge.Library.Mealy
import MiqroForge.Library.PyText

/-!
How bash reads the quotes of a script: the characters that are left with what quotes each of them,
and the words and operators they form. Backquotes, here-documents and the expansions with braces or
parentheses inside double quotes are left out: such a script is not read.
-/

namespace BashQuoting

open PyText List

/-- A character that is left: not quoted, in double quotes, or standing for itself. `raw` is what an
escape puts in that is no character, and `null` marks an opening quote. -/
inductive Sym
  | bare (c : Char)
  | double (c : Char)
  | literal (c : Char)
  | raw (n : Nat)
  | null
  deriving DecidableEq

/-! ## ANSI-C quotes -/

def hexValue (c : Char) : Option Nat :=
  if '0' ≤ c ∧ c ≤ '9' then some (c.toNat - 48)
  else if 'a' ≤ c ∧ c ≤ 'f' then some (c.toNat - 87)
  else if 'A' ≤ c ∧ c ≤ 'F' then some (c.toNat - 55)
  else none

def octalValue (c : Char) : Option Nat := if '0' ≤ c ∧ c ≤ '7' then some (c.toNat - 48) else none

/-- At most `n` digits: their value, and what is behind them. -/
def digits (value : Char → Option Nat) (base : Nat) : Nat → Nat → Text → Nat × Text
  | 0, acc, t => (acc, t)
  | _, acc, [] => (acc, [])
  | n + 1, acc, c :: t =>
    match value c with
    | some d => digits value base n (acc * base + d) t
    | none => (acc, c :: t)

/-- The escapes of one character. -/
def simpleEscape (c : Char) : Option Char :=
  match c with
  | 'a' => some '\x07'
  | 'b' => some '\x08'
  | 'e' | 'E' => some '\x1b'
  | 'f' => some '\x0c'
  | 'n' => some '\n'
  | 'r' => some '\r'
  | 't' => some '\t'
  | 'v' => some '\x0b'
  | '\\' => some '\\'
  | '\'' => some '\''
  | '"' => some '"'
  | '?' => some '?'
  | _ => none

/-- What an escape with a number puts in. A NUL ends the string. -/
def numbered (n : Nat) (rest : List Sym) : List Sym :=
  if n = 0 then [] else (if n < 128 then .literal (Char.ofNat n) else .raw n) :: rest

/-- A code point puts in its character, if it has one. -/
def coded (n : Nat) (rest : List Sym) : List Sym :=
  if n = 0 then []
  else (if n.isValidChar then .literal (Char.ofNat n) else .raw n) :: rest

/-- `\c`: the control character of an ASCII character. -/
def control (c : Char) : Nat :=
  if c = '?' then 127
  else if c.toNat < 128 then c.toUpper.toNat % 32
  else c.toNat

/-- The escape behind a backslash: its number, how it is put in, and what is behind it; `none` where
backslash and character stay. -/
def escape (c : Char) (t : Text) : Option (Nat × Bool × Text) :=
  match simpleEscape c with
  | some x => some (x.toNat, true, t)
  | none =>
    match octalValue c with
    | some d =>
      let (n, t) := digits octalValue 8 2 d t
      some (n % 256, false, t)
    | none =>
      match c, t with
      | 'x', '{' :: t =>
        let (n, t') := digits hexValue 16 t.length 0 t
        some (n % 256, false, if t'.head? = some '}' then t'.tail else t')
      | 'x', h :: t =>
        if (hexValue h).isSome then
          let (n, t) := digits hexValue 16 2 0 (h :: t)
          some (n, false, t)
        else none
      | 'u', h :: t =>
        if (hexValue h).isSome then
          let (n, t) := digits hexValue 16 4 0 (h :: t)
          some (n, true, t)
        else none
      | 'U', h :: t =>
        if (hexValue h).isSome then
          let (n, t) := digits hexValue 16 8 0 (h :: t)
          some (n, true, t)
        else none
      | 'c', '\\' :: '\\' :: t => some (control '\\', false, t)
      | 'c', h :: t => some (control h, false, t)
      | _, _ => none

/-- The text between `$'` and `'`. -/
def decode : Nat → Text → List Sym
  | 0, _ => []
  | _, [] => []
  | fuel + 1, '\\' :: c :: t =>
    match escape c t with
    | some (n, true, t') => coded n (decode fuel t')
    | some (n, false, t') => numbered n (decode fuel t')
    | none => .literal '\\' :: .literal c :: decode fuel t
  | fuel + 1, c :: t => .literal c :: decode fuel t

def ansi (raw : Text) : List Sym := decode raw.length raw

/-! ## Quotes -/

/-- A character that ends a word outside quotes. -/
def isMeta (c : Char) : Bool := " \t\n|&;<>()".toList.contains c

/-- What the characters read so far leave open; outside quotes and in double quotes the character
before is kept. -/
inductive Mode
  | plain (prev : Char)
  | escape (prev : Char)
  | dollar
  | single
  | ansi (raw : Text)
  | ansiEscape (raw : Text)
  | double (prev : Char)
  | doubleEscape
  | comment
  | unread
  deriving DecidableEq

/-- A character outside quotes. -/
def plainStep (prev c : Char) : List Sym × Mode :=
  if c = '\'' then ([.null], .single)
  else if c = '"' then ([.null], .double '"')
  else if c = '\\' then ([], .escape prev)
  else if c = '$' then ([], .dollar)
  else if c = '#' ∧ isMeta prev = true then ([], .comment)
  else if c = '`' ∨ c = '<' ∧ prev = '<' then ([], .unread)
  else ([.bare c], .plain c)

def step : Mode → Char → List Sym × Mode
  | .plain prev, c => plainStep prev c
  | .escape prev, c => if c = '\n' then ([], .plain prev) else ([.literal c], .plain '\'')
  | .dollar, c =>
    if c = '\'' then ([.null], .ansi [])
    else if c = '"' then ([.null], .double '"')
    else if c = '$' then ([.bare '$', .bare '$'], .plain '$')
    else (.bare '$' :: (plainStep '$' c).1, (plainStep '$' c).2)
  | .single, c => if c = '\'' then ([], .plain '\'') else ([.literal c], .single)
  | .ansi raw, c =>
    if c = '\'' then (BashQuoting.ansi raw, .plain '\'')
    else if c = '\\' then ([], .ansiEscape raw)
    else ([], .ansi (raw ++ [c]))
  | .ansiEscape raw, c => ([], .ansi (raw ++ ['\\', c]))
  | .double prev, c =>
    if c = '"' then ([], .plain '"')
    else if c = '\\' then ([], .doubleEscape)
    else if c = '`' ∨ prev = '$' ∧ (c = '(' ∨ c = '{') then ([], .unread)
    else ([.double c], .double c)
  | .doubleEscape, c =>
    if c = '\n' then ([], .double '\n')
    else if c = '$' ∨ c = '`' ∨ c = '"' ∨ c = '\\' then ([.literal c], .double '"')
    else ([.double '\\', .double c], .double c)
  | .comment, c => if c = '\n' then ([.bare '\n'], .plain '\n') else ([], .comment)
  | .unread, _ => ([], .unread)

/-- Nothing is left open. -/
def Mode.closed : Mode → Bool
  | .plain _ | .comment => true
  | _ => false

/-- What is left of a script; a NUL is not read. -/
def quote (script : Text) : Option (List Sym) :=
  let t := script.filter (· ≠ '\x00')
  if (Mealy.after step (.plain '\n') t).closed then
    some (Mealy.outputs step (.plain '\n') t)
  else none

/-! ## Words -/

/-- A word, a run of operator characters, or the end of a line. Parentheses stay in the words. -/
inductive Token
  | word (w : List Sym)
  | op (cs : Text)
  | newline
  deriving DecidableEq

def isBlank (c : Char) : Bool := c == ' ' || c == '\t'

def isOp (c : Char) : Bool := "|&;<>".toList.contains c

/-- A piece of a word joins the word before it. -/
def addPiece (piece : List Sym) : Option Token → List Token × Option Token
  | some (.word w) => ([], some (.word (w ++ piece)))
  | cur => (cur.toList, some (.word piece))

def tokenStep (cur : Option Token) (s : Sym) : List Token × Option Token :=
  match s with
  | .null => addPiece [] cur
  | .bare c =>
    if isBlank c then (cur.toList, none)
    else if c = '\n' then (cur.toList ++ [.newline], none)
    else if isOp c then
      match cur with
      | some (.op cs) => ([], some (.op (cs ++ [c])))
      | _ => (cur.toList, some (.op [c]))
    else addPiece [s] cur
  | _ => addPiece [s] cur

def tokens (syms : List Sym) : List Token :=
  Mealy.outputs tokenStep none syms ++ (Mealy.after tokenStep none syms).toList

/-- The words and operators of a script. -/
def parse (script : Text) : Option (List Token) := (quote script).map tokens

/-! ## What ANSI-C quotes do -/

theorem digits_cons (value : Char → Option Nat) (base n acc : Nat) (c : Char) (t : Text) :
    digits value base (n + 1) acc (c :: t) =
      match value c with
      | some d => digits value base n (acc * base + d) t
      | none => (acc, c :: t) := rfl

theorem digits_length_le (value : Char → Option Nat) (base n acc : Nat) (t : Text) :
    (digits value base n acc t).2.length ≤ t.length := by
  induction n generalizing acc t with
  | zero => exact Nat.le_refl t.length
  | succ n ih =>
    cases t with
    | nil => exact Nat.le_refl 0
    | cons c t =>
      rw [digits_cons]
      cases value c with
      | none => exact Nat.le_refl _
      | some d => exact Nat.le_succ_of_le (ih _ t)

variable {c : Char}

theorem escape_length_le {t t' : Text} {n : Nat} {b : Bool}
    (h : escape c t = some (n, b, t')) : t'.length ≤ t.length := by
  unfold escape at h
  dsimp only at h
  split at h
  · obtain ⟨-, -, rfl⟩ := h
    exact Nat.le_refl _
  · split at h
    · obtain ⟨-, -, rfl⟩ := h
      exact digits_length_le ..
    · split at h
      · rename_i t _ _
        obtain ⟨-, -, rfl⟩ := h
        have hle := digits_length_le hexValue 16 t.length 0 t
        split
        · simp only [length_tail, length_cons]
          omega
        · exact Nat.le_succ_of_le hle
      · split at h
        · obtain ⟨-, -, rfl⟩ := h
          exact digits_length_le ..
        · cases h
      · split at h
        · obtain ⟨-, -, rfl⟩ := h
          exact digits_length_le ..
        · cases h
      · split at h
        · obtain ⟨-, -, rfl⟩ := h
          exact digits_length_le ..
        · cases h
      · obtain ⟨-, -, rfl⟩ := h
        simp only [length_cons]
        omega
      · obtain ⟨-, -, rfl⟩ := h
        exact Nat.le_succ _
      · cases h

theorem decode_plain (hc : c ≠ '\\') (n : Nat) (t : Text) :
    decode (n + 1) (c :: t) = .literal c :: decode n t := by
  rw [decode]
  intro c' t' heq _
  exact absurd heq hc

theorem decode_backslash (n : Nat) (c : Char) (t : Text) :
    decode (n + 1) ('\\' :: c :: t) =
      match escape c t with
      | some (k, true, t') => coded k (decode n t')
      | some (k, false, t') => numbered k (decode n t')
      | none => .literal '\\' :: .literal c :: decode n t := rfl

theorem decode_nil (n : Nat) : decode n [] = [] := by
  cases n <;> rfl

theorem decode_fuel {n m : Nat} {t : Text} (hn : t.length ≤ n) (hm : t.length ≤ m) :
    decode n t = decode m t := by
  induction n generalizing m t with
  | zero =>
    obtain rfl := length_eq_zero_iff.mp (Nat.le_zero.mp hn)
    rw [decode_nil, decode_nil]
  | succ n ih =>
    cases m with
    | zero =>
      obtain rfl := length_eq_zero_iff.mp (Nat.le_zero.mp hm)
      rw [decode_nil, decode_nil]
    | succ m =>
      cases t with
      | nil => rfl
      | cons c t =>
        rw [length_cons] at hn hm
        by_cases hc : c = '\\'
        · subst hc
          cases t with
          | nil =>
            show Sym.literal '\\' :: decode n [] = Sym.literal '\\' :: decode m []
            rw [decode_nil, decode_nil]
          | cons c t =>
            rw [length_cons] at hn hm
            rw [decode_backslash, decode_backslash]
            cases hesc : escape c t with
            | none =>
              dsimp only
              rw [ih (m := m) (by omega) (by omega)]
            | some r =>
              obtain ⟨k, b, t'⟩ := r
              have hle := escape_length_le hesc
              have heq : decode n t' = decode m t' := ih (by omega) (by omega)
              cases b <;> dsimp only <;> rw [heq]
        · rw [decode_plain hc, decode_plain hc, ih (m := m) (by omega) (by omega)]

theorem ansi_plain (hc : c ≠ '\\') (t : Text) :
    ansi (c :: t) = .literal c :: ansi t :=
  decode_plain hc t.length t

variable {t : Text}

theorem ansi_kept (h : escape c t = none) :
    ansi ('\\' :: c :: t) = .literal '\\' :: .literal c :: ansi t := by
  rw [ansi, length_cons, decode_backslash, h]
  dsimp only [length_cons]
  rw [decode_fuel (Nat.le_succ t.length) (Nat.le_refl t.length)]
  rfl

theorem ansi_escaped {t t' : Text} {n : Nat} {b : Bool}
    (h : escape c t = some (n, b, t')) :
    (ansi ('\\' :: c :: t)).length ≤ (ansi t').length + 1 := by
  have hle := escape_length_le h
  have hfuel : decode (c :: t).length t' = ansi t' :=
    decode_fuel (by rw [length_cons]; omega) (Nat.le_refl _)
  rw [ansi, length_cons, decode_backslash, h]
  cases b with
  | true =>
    dsimp only
    rw [hfuel, coded]
    split <;> simp only [length_nil, length_cons] <;> omega
  | false =>
    dsimp only
    rw [hfuel, numbered]
    split <;> simp only [length_nil, length_cons] <;> omega

theorem ansi_induction {p : Text → Prop} (nil : p []) (dangling : p ['\\'])
    (plain : ∀ c t, c ≠ '\\' → p t → p (c :: t))
    (kept : ∀ c t, escape c t = none → p t → p ('\\' :: c :: t))
    (escaped : ∀ c t n b t', escape c t = some (n, b, t') → p t' → p ('\\' :: c :: t))
    (t : Text) : p t := by
  induction hn : t.length using Nat.strongRecOn generalizing t with
  | ind n ih =>
    subst hn
    match t with
    | [] => exact nil
    | c :: t =>
      by_cases hc : c = '\\'
      · subst hc
        match t with
        | [] => exact dangling
        | c :: t =>
          cases hesc : escape c t with
          | none => exact kept c t hesc (ih t.length (by simp only [length_cons]; omega) t rfl)
          | some r =>
            obtain ⟨k, b, t'⟩ := r
            have hle := escape_length_le hesc
            have hlt : t'.length < ('\\' :: c :: t).length := by
              simp only [length_cons]
              omega
            exact escaped c t k b t' hesc (ih t'.length hlt t' rfl)
      · exact plain c t hc (ih t.length (Nat.lt_succ_self _) t rfl)

theorem ansi_length_le (t : Text) : (ansi t).length ≤ t.length := by
  induction t using ansi_induction with
  | nil => exact Nat.le_refl 0
  | dangling => exact Nat.le_refl 1
  | plain c t hc ih =>
    rw [ansi_plain hc]
    exact Nat.succ_le_succ ih
  | kept c t h ih =>
    rw [ansi_kept h]
    exact Nat.succ_le_succ (Nat.succ_le_succ ih)
  | escaped c t n b t' h ih =>
    have hread := escape_length_le h
    have hone := ansi_escaped h
    simp only [length_cons]
    omega

/-- A text whose backslashes are each followed by a character. -/
def paired : Text → Bool
  | [] => true
  | '\\' :: t =>
    match t with
    | [] => false
    | _ :: t => paired t
  | _ :: t => paired t

/-- A text with no escape in it, and whose backslashes are each followed by a character. -/
def inert : Text → Bool
  | [] => true
  | '\\' :: t =>
    match t with
    | [] => false
    | c :: t => (escape c t).isNone && inert t
  | _ :: t => inert t

theorem paired_plain (hc : c ≠ '\\') (t : Text) : paired (c :: t) = paired t := by
  rw [paired]
  exact hc

theorem inert_plain (hc : c ≠ '\\') (t : Text) : inert (c :: t) = inert t := by
  rw [inert]
  exact hc

theorem inert_backslash (c : Char) (t : Text) :
    inert ('\\' :: c :: t) = ((escape c t).isNone && inert t) := rfl

theorem inert_spec (t : Text) : inert t = true → paired t = true ∧ ansi t = t.map .literal := by
  induction t using ansi_induction with
  | nil => exact fun _ => ⟨rfl, rfl⟩
  | dangling =>
    intro h
    cases h
  | plain c t hc ih =>
    rw [inert_plain hc, paired_plain hc, ansi_plain hc, map_cons]
    intro h
    obtain ⟨hpaired, heq⟩ := ih h
    exact ⟨hpaired, congrArg _ heq⟩
  | kept c t h ih =>
    rw [inert_backslash, h, ansi_kept h]
    intro hinert
    obtain ⟨hpaired, heq⟩ := ih hinert
    exact ⟨hpaired, congrArg _ (congrArg _ heq)⟩
  | escaped c t n b t' h ih =>
    rw [inert_backslash, h]
    intro hinert
    cases hinert

theorem inert_of_length (hp : paired t = true) (h : t.length ≤ (ansi t).length) :
    inert t = true := by
  induction t using ansi_induction with
  | nil => rfl
  | dangling => cases hp
  | plain c t hc ih =>
    rw [paired_plain hc] at hp
    rw [ansi_plain hc] at h
    rw [inert_plain hc]
    exact ih hp (Nat.le_of_succ_le_succ h)
  | kept c t hesc ih =>
    rw [ansi_kept hesc] at h
    rw [inert_backslash, hesc]
    exact ih hp (Nat.le_of_succ_le_succ (Nat.le_of_succ_le_succ h))
  | escaped c t n b t' hesc ih =>
    have hread := escape_length_le hesc
    have hone := ansi_escaped hesc
    have hle := ansi_length_le t'
    simp only [length_cons] at h
    omega

/-! ## A backslash before the closing quote -/

/-- Two quotes, each behind a backslash. -/
def twoQuotes : Text := ['\\', '\'', '\\', '\'']

/-- What an escape leaves of a paired text that two quotes follow. -/
def Left (t t' : Text) : Prop := ∃ s, t' = s ++ twoQuotes ∧ paired s = true ∧ s.length ≤ t.length

theorem digits_left {value : Char → Option Nat} (hv : value '\\' = none) (base n acc : Nat)
    {t : Text} (h : paired t = true) : Left t (digits value base n acc (t ++ twoQuotes)).2 := by
  induction n generalizing acc t with
  | zero => exact ⟨t, rfl, h, Nat.le_refl _⟩
  | succ n ih =>
    cases t with
    | nil =>
      rw [nil_append, twoQuotes, digits_cons, hv]
      exact ⟨[], rfl, rfl, Nat.le_refl 0⟩
    | cons c t =>
      rw [cons_append, digits_cons]
      cases hc : value c with
      | none => exact ⟨c :: t, rfl, h, Nat.le_refl _⟩
      | some d =>
        have hne : c ≠ '\\' := by
          rintro rfl
          rw [hv] at hc
          cases hc
        rw [paired_plain hne] at h
        obtain ⟨s, heq, hs, hle⟩ := ih (acc * base + d) h
        exact ⟨s, heq, hs, Nat.le_succ_of_le hle⟩

theorem Left.tail {t u : Text} {c : Char} (hc : c ≠ '\\') (h : Left t (c :: u)) : Left t u := by
  obtain ⟨s, heq, hs, hle⟩ := h
  cases s with
  | nil =>
    rw [nil_append, twoQuotes, cons_eq_cons] at heq
    exact absurd heq.1 hc
  | cons d s =>
    obtain ⟨rfl, rfl⟩ := cons_eq_cons.mp heq
    rw [paired_plain hc] at hs
    exact ⟨s, rfl, hs, Nat.le_of_succ_le hle⟩

theorem Left.start {t u : Text} (hp : paired t = true) (h : t ++ twoQuotes = u) : Left t u :=
  ⟨t, h.symm, hp, Nat.le_refl _⟩

theorem escape_left {t t' : Text} {n : Nat} {b : Bool} (hp : paired t = true)
    (h : escape c (t ++ twoQuotes) = some (n, b, t')) :
    Left t t' ∨ t' = ['\'', '\\', '\''] := by
  unfold escape at h
  dsimp only at h
  split at h
  · obtain ⟨-, -, rfl⟩ := h
    exact Or.inl ⟨t, rfl, hp, Nat.le_refl _⟩
  · split at h
    · obtain ⟨-, -, rfl⟩ := h
      exact Or.inl (digits_left rfl 8 2 _ hp)
    · split at h
      · rename_i heq _ _
        obtain ⟨-, -, rfl⟩ := h
        obtain ⟨s, rfl, hs, hle⟩ := (Left.start hp heq).tail (by decide)
        have hdigits : Left s (digits hexValue 16 (s ++ twoQuotes).length 0 (s ++ twoQuotes)).2 :=
          digits_left rfl 16 _ 0 hs
        obtain ⟨s', heq', hs', hle'⟩ := hdigits
        have hleft : Left t (digits hexValue 16 (s ++ twoQuotes).length 0 (s ++ twoQuotes)).2 :=
          ⟨s', heq', hs', Nat.le_trans hle' hle⟩
        left
        split
        · rename_i hhead
          obtain ⟨u, hu⟩ := head?_eq_some_iff.mp hhead
          rw [hu] at hleft
          rw [hu]
          exact hleft.tail (by decide)
        · exact hleft
      · rename_i heq _ _
        split at h
        · rw [← heq] at h
          obtain ⟨-, -, rfl⟩ := h
          exact Or.inl (digits_left rfl 16 2 0 hp)
        · cases h
      · rename_i heq _ _
        split at h
        · rw [← heq] at h
          obtain ⟨-, -, rfl⟩ := h
          exact Or.inl (digits_left rfl 16 4 0 hp)
        · cases h
      · rename_i heq _ _
        split at h
        · rw [← heq] at h
          obtain ⟨-, -, rfl⟩ := h
          exact Or.inl (digits_left rfl 16 8 0 hp)
        · cases h
      · rename_i heq _ _
        obtain ⟨-, -, rfl⟩ := h
        match t with
        | [] => cases heq
        | [d] =>
          obtain ⟨rfl, -⟩ := cons_eq_cons.mp heq
          cases hp
        | d :: e :: t =>
          obtain ⟨rfl, hrest⟩ := cons_eq_cons.mp heq
          obtain ⟨rfl, rfl⟩ := cons_eq_cons.mp hrest
          refine Or.inl ⟨t, rfl, hp, ?_⟩
          simp only [length_cons]
          omega
      · rename_i hne heq _ _
        obtain ⟨-, -, rfl⟩ := h
        match t with
        | [] =>
          obtain ⟨-, rfl⟩ := cons_eq_cons.mp heq
          exact Or.inr rfl
        | d :: t =>
          obtain ⟨rfl, rfl⟩ := cons_eq_cons.mp heq
          refine Or.inl ⟨t, rfl, ?_, Nat.le_succ _⟩
          by_cases hd : d = '\\'
          · subst hd
            match t with
            | [] => cases hp
            | e :: t =>
              have he : e ≠ '\\' := by
                rintro rfl
                exact hne _ rfl rfl
              rw [paired_plain he]
              exact hp
          · rw [paired_plain hd] at hp
            exact hp
      · cases h

/-- Two quotes behind a paired text put in no more than the text has characters, and the quotes; as
many only where the text stands for itself. -/
theorem ansi_twoQuotes (hp : paired t = true) :
    (ansi (t ++ twoQuotes)).length ≤ t.length + 2 ∧
      (t.length + 2 ≤ (ansi (t ++ twoQuotes)).length →
        ansi (t ++ twoQuotes) = (t ++ ['\'', '\'']).map .literal) := by
  induction hn : t.length using Nat.strongRecOn generalizing t with
  | ind n ih =>
    subst hn
    match t with
    | [] => exact ⟨Nat.le_refl 2, fun _ => rfl⟩
    | c :: t =>
      by_cases hc : c = '\\'
      · subst hc
        match t with
        | [] => cases hp
        | c :: t =>
          cases hesc : escape c (t ++ twoQuotes) with
          | none =>
            have hlt : t.length < ('\\' :: c :: t).length := by
              simp only [length_cons]
              omega
            obtain ⟨hle, heq⟩ := ih t.length hlt (t := t) hp rfl
            rw [cons_append, cons_append, ansi_kept hesc]
            simp only [length_cons]
            refine ⟨by omega, fun h => ?_⟩
            rw [heq (by omega)]
            rfl
          | some r =>
            obtain ⟨n, b, t'⟩ := r
            have hone := ansi_escaped hesc
            have hshort : (ansi t').length ≤ t.length + 2 := by
              rcases escape_left (t := t) hp hesc with ⟨s, rfl, hs, hle⟩ | rfl
              · have hlt : s.length < ('\\' :: c :: t).length := by
                  simp only [length_cons]
                  omega
                have := (ih s.length hlt hs rfl).1
                omega
              · show 2 ≤ _
                omega
            rw [cons_append, cons_append]
            simp only [length_cons]
            constructor
            · omega
            · intro h
              omega
      · obtain ⟨hle, heq⟩ := ih t.length (Nat.lt_succ_self _) ((paired_plain hc t).symm.trans hp) rfl
        rw [cons_append, ansi_plain hc]
        simp only [length_cons]
        refine ⟨by omega, fun h => ?_⟩
        rw [heq (by omega)]
        rfl

/-! ## Texts without a quote -/

theorem paired_append {a : Text} (ha : paired a = true) (b : Text) : paired (a ++ b) = paired b := by
  induction a using paired.induct with
  | case1 => rfl
  | case2 => cases ha
  | case3 c a ih => exact ih ha
  | case4 c a hc ih =>
    have hne : c ≠ '\\' := hc
    rw [paired_plain hne] at ha
    rw [cons_append, paired_plain hne]
    exact ih ha

theorem ansi_run (hq : '\'' ∉ t) (raw : Text) :
    Mealy.outputs step (.ansi raw) t = [] ∧
      ((paired t = true ∧ Mealy.after step (.ansi raw) t = .ansi (raw ++ t)) ∨
        ∃ u, t = u ++ ['\\'] ∧ paired u = true ∧
          Mealy.after step (.ansi raw) t = .ansiEscape (raw ++ u)) := by
  induction t using paired.induct generalizing raw with
  | case1 => exact ⟨rfl, Or.inl ⟨rfl, by rw [append_nil]; rfl⟩⟩
  | case2 => exact ⟨rfl, Or.inr ⟨[], rfl, rfl, by rw [append_nil]; rfl⟩⟩
  | case3 c t ih =>
    obtain ⟨hout, hrun⟩ := ih (fun hm => hq (.tail _ (.tail _ hm))) (raw ++ ['\\', c])
    refine ⟨hout, ?_⟩
    rcases hrun with ⟨hp, hafter⟩ | ⟨u, rfl, hp, hafter⟩
    · rw [append_assoc] at hafter
      exact Or.inl ⟨hp, hafter⟩
    · rw [append_assoc] at hafter
      exact Or.inr ⟨'\\' :: c :: u, rfl, hp, hafter⟩
  | case4 c t hc ih =>
    have hne : c ≠ '\\' := hc
    have hquote : c ≠ '\'' := fun heq => hq (heq ▸ mem_cons_self)
    have hstep : step (.ansi raw) c = ([], .ansi (raw ++ [c])) :=
      (if_neg hquote).trans (if_neg hne)
    obtain ⟨hout, hrun⟩ := ih (fun hm => hq (.tail _ hm)) (raw ++ [c])
    rw [Mealy.outputs, Mealy.after, foldl_cons, hstep]
    refine ⟨hout, ?_⟩
    rcases hrun with ⟨hp, hafter⟩ | ⟨u, rfl, hp, hafter⟩
    · rw [append_assoc] at hafter
      exact Or.inl ⟨(paired_plain hne t).trans hp, hafter⟩
    · rw [append_assoc] at hafter
      exact Or.inr ⟨c :: u, rfl, (paired_plain hne u).trans hp, hafter⟩

theorem single_open (hq : '\'' ∉ t) :
    (Mealy.after step .single t).closed = false := by
  induction t with
  | nil => rfl
  | cons c t ih =>
    have hquote : c ≠ '\'' := fun heq => hq (heq ▸ mem_cons_self)
    have hstep : step .single c = ([.literal c], .single) := if_neg hquote
    rw [Mealy.after, foldl_cons, hstep]
    exact ih fun hm => hq (.tail _ hm)

theorem ansi_open (hq : '\'' ∉ t) (raw : Text) :
    (Mealy.after step (.ansi raw) t).closed = false := by
  rcases (ansi_run hq raw).2 with ⟨-, hafter⟩ | ⟨u, -, -, hafter⟩
  · rw [hafter]
    rfl
  · rw [hafter]
    rfl

end BashQuoting
