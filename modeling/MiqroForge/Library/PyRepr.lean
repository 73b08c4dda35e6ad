import MiqroForge.Library.Json

/-!
`repr` and `str` of the values of `json.loads`, and the texts that can be found in a `repr`.
-/

namespace PyRepr

open PyText Json

/-- `str.isprintable` of one character, `repr` of a number, truth of a number. -/
structure Python where
  printable : Char → Bool
  number : Number → Text
  isZero : Number → Bool

variable (py : Python)

/-- The digits of `n` in base 16, at least `width` of them. -/
def hex (width n : Nat) : Text :=
  let digits := Nat.toDigits 16 n
  List.replicate (width - digits.length) '0' ++ digits

/-- A character inside the quotes. -/
def escape (quote : Char) (c : Char) : Text :=
  if c = quote ∨ c = '\\' then ['\\', c]
  else if c = '\n' then ['\\', 'n']
  else if c = '\r' then ['\\', 'r']
  else if c = '\t' then ['\\', 't']
  else if py.printable c then [c]
  else if c.toNat < 0x100 then '\\' :: 'x' :: hex 2 c.toNat
  else if c.toNat < 0x10000 then '\\' :: 'u' :: hex 4 c.toNat
  else '\\' :: 'U' :: hex 8 c.toNat

/-- Double quotes are used where they save the escapes. -/
def quoteOf (s : Text) : Char := if '\'' ∈ s ∧ '\x22' ∉ s then '\x22' else '\''

def reprString (s : Text) : Text :=
  quoteOf s :: s.flatMap (escape py (quoteOf s)) ++ [quoteOf s]

mutual

def repr : Value → Text
  | .null => "None".toList
  | .bool true => "True".toList
  | .bool false => "False".toList
  | .num n => py.number n
  | .str s => reprString py s
  | .arr xs => '[' :: reprItems xs ++ [']']
  | .obj fields => '\x7b' :: reprFields fields ++ ['\x7d']

def reprItems : List Value → Text
  | [] => []
  | [x] => repr x
  | x :: xs => repr x ++ ',' :: ' ' :: reprItems xs

def reprFields : List (Text × Value) → Text
  | [] => []
  | [(k, v)] => reprString py k ++ ':' :: ' ' :: repr v
  | (k, v) :: fields => reprString py k ++ ':' :: ' ' :: repr v ++ ',' :: ' ' :: reprFields fields

end

/-- `str(value)`. -/
def str : Value → Text
  | .str s => s
  | v => repr py v

/-- `bool(value)`. -/
def truthy : Value → Bool
  | .null => false
  | .bool b => b
  | .num n => !py.isZero n
  | .str s => !s.isEmpty
  | .arr xs => !xs.isEmpty
  | .obj fields => !fields.isEmpty

/-! ## Texts inside a value -/

mutual

/-- The texts inside a value, the keys of dictionaries included. -/
def texts : Value → List Text
  | .str s => [s]
  | .arr xs => textsOf xs
  | .obj fields => textsOfFields fields
  | _ => []

def textsOf : List Value → List Text
  | [] => []
  | x :: xs => texts x ++ textsOf xs

def textsOfFields : List (Text × Value) → List Text
  | [] => []
  | (k, v) :: fields => k :: texts v ++ textsOfFields fields

end

section Found
variable {py} {pattern : Text}

theorem reprItems_cons (x : Value) (xs : List Value) :
    ∃ rest, reprItems py (x :: xs) = repr py x ++ rest ∧ reprItems py xs <:+ rest := by
  cases xs with
  | nil => exact ⟨[], (List.append_nil _).symm, List.suffix_refl _⟩
  | cons y ys => exact ⟨_, rfl, ⟨[',', ' '], rfl⟩⟩

theorem reprFields_cons (k : Text) (v : Value) (fields : List (Text × Value)) :
    ∃ rest, reprFields py ((k, v) :: fields) = reprString py k ++ ':' :: ' ' :: repr py v ++ rest ∧
      reprFields py fields <:+ rest := by
  cases fields with
  | nil => exact ⟨[], (List.append_nil _).symm, List.suffix_refl _⟩
  | cons f fields => exact ⟨',' :: ' ' :: reprFields py (f :: fields), by simp [reprFields],
      ⟨[',', ' '], rfl⟩⟩

end Found

/-! ## Length -/

section Length

theorem escape_ne_nil (quote c : Char) : escape py quote c ≠ [] := by
  unfold escape
  split_ifs <;> exact List.cons_ne_nil _ _

theorem length_le_reprString (s : Text) : s.length ≤ (reprString py s).length := by
  have hinside : s.length ≤ (s.flatMap (escape py (quoteOf s))).length := by
    generalize quoteOf s = quote
    induction s with
    | nil => exact Nat.zero_le _
    | cons c s ih =>
      have hc := List.length_pos_iff.mpr (escape_ne_nil py quote c)
      simp only [List.flatMap_cons, List.length_append, List.length_cons]
      omega
  simp only [reprString, List.cons_append, List.length_cons, List.length_append]
  omega

theorem length_repr_le_fields {k : Text} {v : Value} {fields : List (Text × Value)}
    (h : (k, v) ∈ fields) : (repr py v).length ≤ (reprFields py fields).length := by
  induction fields with
  | nil => cases h
  | cons field fields ih =>
    obtain ⟨k', v'⟩ := field
    obtain ⟨rest, heq, hrest⟩ := @reprFields_cons py k' v' fields
    have hlength := congrArg List.length heq
    simp only [List.length_append, List.length_cons] at hlength
    rcases List.mem_cons.mp h with hfirst | htail
    · cases hfirst
      omega
    · have htail := ih htail
      have hsuffix := hrest.length_le
      omega

end Length

end PyRepr
