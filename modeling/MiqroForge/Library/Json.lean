import MiqroForge.Library.PyText

/-!
JSON as Python's `json` module writes and reads it: `json.dumps` with its default
separators and `ensure_ascii=False`, and `json.loads`. The reader inverts the writer.
-/

namespace Json

open PyText

/-! ## Values -/

/-- The characters a word (number or name) is made of. -/
def isWordChar (c : Char) : Bool := c.isAlphanum || c == '+' || c == '-' || c == '.'

def isExponent : Text → Bool
  | [] => true
  | e :: '+' :: r => (e == 'e' || e == 'E') && !r.isEmpty && r.all Char.isDigit
  | e :: '-' :: r => (e == 'e' || e == 'E') && !r.isEmpty && r.all Char.isDigit
  | e :: r => (e == 'e' || e == 'E') && !r.isEmpty && r.all Char.isDigit

def isFraction : Text → Bool
  | '.' :: d :: r => d.isDigit && isExponent (r.dropWhile Char.isDigit)
  | r => isExponent r

def isUnsigned : Text → Bool
  | '0' :: r => isFraction r
  | c :: r => c.isDigit && isFraction (r.dropWhile Char.isDigit)
  | [] => false

/-- A number as the reader accepts it, with the three names for values that are none. -/
def isNumber (t : Text) : Bool :=
  t.all isWordChar &&
    (t == "NaN".toList || t == "Infinity".toList || t == "-Infinity".toList ||
      match t with
      | '-' :: r => isUnsigned r
      | r => isUnsigned r)

/-- A number, by the text that stands for it. -/
structure Number where
  text : Text
  valid : isNumber text = true
  deriving DecidableEq

inductive Value where
  | null
  | bool (b : Bool)
  | num (n : Number)
  | str (s : Text)
  | arr (xs : List Value)
  | obj (fields : List (Text × Value))

/-! ## Dictionaries -/

/-- `d[k] = v`. -/
def setField {α : Type} (d : List (Text × α)) (k : Text) (v : α) : List (Text × α) :=
  if d.any fun e => e.1 == k then d.map fun e => if e.1 = k then (k, v) else e
  else d ++ [(k, v)]

/-- `{**d, **patch}`. -/
def merge {α : Type} (d patch : List (Text × α)) : List (Text × α) :=
  patch.foldl (fun d e => setField d e.1 e.2) d

def keys {α : Type} (d : List (Text × α)) : List Text := d.map Prod.fst

mutual

/-- The keys of every dictionary are distinct. -/
def WellFormed : Value → Prop
  | .arr xs => AllWellFormed xs
  | .obj fields => (keys fields).Nodup ∧ FieldsWellFormed fields
  | _ => True

def AllWellFormed : List Value → Prop
  | [] => True
  | x :: xs => WellFormed x ∧ AllWellFormed xs

def FieldsWellFormed : List (Text × Value) → Prop
  | [] => True
  | (_, v) :: fields => WellFormed v ∧ FieldsWellFormed fields

end

/-! ## Writing -/

def hexDigit (n : Nat) : Char := Char.ofNat (if n < 10 then 48 + n else 87 + n)

def escapeChar (c : Char) : Text :=
  if c = '\x22' then ['\\', '\x22']
  else if c = '\\' then ['\\', '\\']
  else if c = '\n' then ['\\', 'n']
  else if c = '\r' then ['\\', 'r']
  else if c = '\t' then ['\\', 't']
  else if c = '\x08' then ['\\', 'b']
  else if c = '\x0c' then ['\\', 'f']
  else if c.toNat < 32 then
    ['\\', 'u', '0', '0', hexDigit (c.toNat / 16), hexDigit (c.toNat % 16)]
  else [c]

def printString (s : Text) : Text := '\x22' :: s.flatMap escapeChar ++ ['\x22']

mutual

/-- `json.dumps(value, ensure_ascii=False)`. -/
def print : Value → Text
  | .null => "null".toList
  | .bool true => "true".toList
  | .bool false => "false".toList
  | .num n => n.text
  | .str s => printString s
  | .arr [] => ['[', ']']
  | .arr (x :: xs) => '[' :: print x ++ printMore xs ++ [']']
  | .obj [] => ['{', '}']
  | .obj ((k, v) :: fields) =>
    '{' :: printString k ++ ':' :: ' ' :: print v ++ printMoreFields fields ++ ['}']

def printMore : List Value → Text
  | [] => []
  | x :: xs => ',' :: ' ' :: print x ++ printMore xs

def printMoreFields : List (Text × Value) → Text
  | [] => []
  | (k, v) :: fields =>
    ',' :: ' ' :: printString k ++ ':' :: ' ' :: print v ++ printMoreFields fields

end

/-! ## Reading -/

def isWhitespace (c : Char) : Bool := c == ' ' || c == '\t' || c == '\n' || c == '\r'

def skipWhitespace (s : Text) : Text := s.dropWhile isWhitespace

def hexValue (c : Char) : Option Nat :=
  let n := c.toNat
  if 48 ≤ n ∧ n ≤ 57 then some (n - 48)
  else if 97 ≤ n ∧ n ≤ 102 then some (n - 87)
  else if 65 ≤ n ∧ n ≤ 70 then some (n - 55)
  else none

def hexValue4 (a b c d : Char) : Option Nat :=
  match hexValue a, hexValue b, hexValue c, hexValue d with
  | some a, some b, some c, some d => some (((a * 16 + b) * 16 + c) * 16 + d)
  | _, _, _, _ => none

def simpleEscape (c : Char) : Option Char :=
  if c = '\x22' ∨ c = '\\' ∨ c = '/' then some c
  else if c = 'b' then some '\x08'
  else if c = 'f' then some '\x0c'
  else if c = 'n' then some '\n'
  else if c = 'r' then some '\r'
  else if c = 't' then some '\t'
  else none

/-- The two halves of an escaped pair of surrogates; half a pair is no character. -/
def surrogates (n m : Nat) : Option Char :=
  if 0xd800 ≤ n ∧ n < 0xdc00 ∧ 0xdc00 ≤ m ∧ m < 0xe000 then
    some (Char.ofNat (0x10000 + (n - 0xd800) * 0x400 + (m - 0xdc00)))
  else none

/-- A string behind its opening quote. -/
def parseString : Text → Option (Text × Text)
  | [] => none
  | '\x22' :: r => some ([], r)
  | '\\' :: 'u' :: a :: b :: c :: d :: r => do
    let n ← hexValue4 a b c d
    if 0xd800 ≤ n ∧ n < 0xe000 then
      match r with
      | '\\' :: 'u' :: a :: b :: c :: d :: r =>
        let m ← hexValue4 a b c d
        let x ← surrogates n m
        let (t, r) ← parseString r
        some (x :: t, r)
      | _ => none
    else
      let (t, r) ← parseString r
      some (Char.ofNat n :: t, r)
  | '\\' :: e :: r => do
    let x ← simpleEscape e
    let (t, r) ← parseString r
    some (x :: t, r)
  | c :: r =>
    if c = '\\' ∨ c.toNat < 32 then none
    else do
      let (t, r) ← parseString r
      some (c :: t, r)

def parseWord (w : Text) : Option Value :=
  if w = "null".toList then some .null
  else if w = "true".toList then some (.bool true)
  else if w = "false".toList then some (.bool false)
  else if h : isNumber w = true then some (.num ⟨w, h⟩)
  else none

mutual

def parseValue : Nat → Text → Option (Value × Text)
  | 0, _ => none
  | _ + 1, '\x22' :: r => do
    let (t, r) ← parseString r
    some (.str t, r)
  | n + 1, '[' :: r =>
    match skipWhitespace r with
    | ']' :: r => some (.arr [], r)
    | r => do
      let (v, r) ← parseValue n r
      let (vs, r) ← parseMore n (skipWhitespace r)
      some (.arr (v :: vs), r)
  | n + 1, '{' :: r =>
    match skipWhitespace r with
    | '}' :: r => some (.obj [], r)
    | r => do
      let (f, r) ← parseField n r
      let (fs, r) ← parseMoreFields n (skipWhitespace r)
      some (.obj (merge [] (f :: fs)), r)
  | _ + 1, s => do
    let v ← parseWord (s.takeWhile isWordChar)
    some (v, s.dropWhile isWordChar)

def parseMore : Nat → Text → Option (List Value × Text)
  | _ + 1, ']' :: r => some ([], r)
  | n + 1, ',' :: r => do
    let (v, r) ← parseValue n (skipWhitespace r)
    let (vs, r) ← parseMore n (skipWhitespace r)
    some (v :: vs, r)
  | _, _ => none

def parseField : Nat → Text → Option ((Text × Value) × Text)
  | n + 1, '\x22' :: r => do
    let (k, r) ← parseString r
    match skipWhitespace r with
    | ':' :: r =>
      let (v, r) ← parseValue n (skipWhitespace r)
      some ((k, v), r)
    | _ => none
  | _, _ => none

def parseMoreFields : Nat → Text → Option (List (Text × Value) × Text)
  | _ + 1, '}' :: r => some ([], r)
  | n + 1, ',' :: r => do
    let (f, r) ← parseField n (skipWhitespace r)
    let (fs, r) ← parseMoreFields n (skipWhitespace r)
    some (f :: fs, r)
  | _, _ => none

end

/-- `json.loads`, `none` for a `JSONDecodeError`. The fuel suffices: every nested call is made
behind a character of its own. -/
def parse (s : Text) : Option Value := do
  let (v, r) ← parseValue (s.length + 1) (skipWhitespace s)
  if skipWhitespace r = [] then some v else none

/-! ## Numbers -/

theorem isUnsigned_digits {t : Text} (h : ∀ c ∈ t, c.isDigit = true) (hne : t ≠ [])
    (hhead : t = ['0'] ∨ t.head? ≠ some '0') : isUnsigned t = true := by
  cases t with
  | nil => exact absurd rfl hne
  | cons c r =>
    have hrest : r.dropWhile Char.isDigit = [] :=
      List.dropWhile_eq_nil_iff.mpr fun x hx => h x (List.mem_cons_of_mem c hx)
    rcases hhead with hzero | hhead
    · cases hzero
      rfl
    · have hc : c ≠ '0' := by simpa using hhead
      unfold isUnsigned
      split
      case h_1 heq => simp_all
      case h_2 heq =>
        cases heq
        rw [hrest, h _ List.mem_cons_self]
        rfl
      case h_3 heq => cases heq

theorem toDigits_head (n : Nat) :
    Nat.toDigits 10 n = ['0'] ∨ (Nat.toDigits 10 n).head? ≠ some '0' := by
  induction n using Nat.strongRecOn with
  | ind n ih =>
    by_cases h : n < 10
    · rw [Nat.toDigits_of_lt_base h]
      have hall : ∀ d < 10, [Nat.digitChar d] = ['0'] ∨ [Nat.digitChar d].head? ≠ some '0' := by
        decide
      exact hall n h
    · right
      rw [Nat.toDigits_of_base_le (by decide) (by omega)]
      have hne : Nat.toDigits 10 (n / 10) ≠ [] := Nat.toDigits_ne_nil
      rw [List.head?_append_of_ne_nil _ hne]
      rcases ih (n / 10) (by omega) with hzero | hhead
      · have := Nat.ofDigitChars_ten_toDigits (n := n / 10)
        rw [hzero] at this
        have : n / 10 = 0 := this.symm
        omega
      · exact hhead

theorem isNumber_toDigits (n : Nat) : isNumber (Nat.toDigits 10 n) = true := by
  have hdigits : ∀ c ∈ Nat.toDigits 10 n, c.isDigit = true := fun c hc =>
    Nat.isDigit_of_mem_toDigits (by decide) (by decide) hc
  have hunsigned := isUnsigned_digits hdigits Nat.toDigits_ne_nil (toDigits_head n)
  have hword : (Nat.toDigits 10 n).all isWordChar = true := by
    refine List.all_eq_true.mpr fun c hc => ?_
    simp [isWordChar, Char.isAlphanum, hdigits c hc]
  unfold isNumber
  rw [hword]
  simp only [Bool.true_and, Bool.or_eq_true]
  right
  split
  case h_1 r heq =>
    have := hdigits '-' (by rw [heq]; exact List.mem_cons_self)
    exact absurd this (by decide)
  case h_2 => exact hunsigned

/-- `str(n)`. -/
def Number.ofNat (n : Nat) : Number := ⟨Nat.toDigits 10 n, isNumber_toDigits n⟩

end Json
