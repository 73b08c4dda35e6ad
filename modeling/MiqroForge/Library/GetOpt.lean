import MiqroForge.Library.PyText

/-!
How a program reads its arguments with `getopt_long`: operands stand anywhere between the options,
an option takes its argument from its own word or from the next one, and `--` ends the options.
-/

namespace GetOpt

open PyText

inductive Arity where
  | flag
  | required
  | optional
  deriving DecidableEq

/-- The options a program declares. -/
structure Table where
  short : Char → Option Arity
  long : List (Text × Arity)

/-- An option that was given, with its argument. -/
inductive Opt where
  | short (c : Char) (arg : Option Text)
  | long (name : Text) (arg : Option Text)
  deriving DecidableEq

/-- An option whose argument is the next word. -/
inductive Await where
  | short (c : Char)
  | long (name : Text)
  deriving DecidableEq

def Await.take (arg : Text) : Await → Opt
  | .short c => .short c (some arg)
  | .long name => .long name (some arg)

/-- What one word is. -/
inductive Reading where
  | operand
  | stop
  | options (opts : List Opt) (await : Option Await)
  | bad
  deriving DecidableEq

section Read
variable (T : Table)

/-- A long option, by its name or by the beginning of no other one. -/
def findLong (name : Text) : Option (Text × Arity) :=
  (T.long.find? fun e => e.1 == name).or
    (match T.long.filter fun e => name.isPrefixOf e.1 with
    | [e] => some e
    | _ => none)

def readLong (body : Text) : Reading :=
  let value := if body.contains '=' then some ((body.dropWhile (· ≠ '=')).drop 1) else none
  match findLong T (body.takeWhile (· ≠ '=')) with
  | none => .bad
  | some (name, .flag) => if value.isSome then .bad else .options [.long name none] none
  | some (name, .optional) => .options [.long name value] none
  | some (name, .required) =>
    if value.isSome then .options [.long name value] none else .options [] (some (.long name))

/-- The letters of one word. -/
def readShort : Text → Reading
  | [] => .options [] none
  | c :: cs =>
    match T.short c with
    | none => .bad
    | some .flag =>
      match readShort cs with
      | .options opts await => .options (.short c none :: opts) await
      | other => other
    | some .optional => .options [.short c (if cs = [] then none else some cs)] none
    | some .required =>
      if cs = [] then .options [] (some (.short c)) else .options [.short c (some cs)] none

/-- A word that is read where no argument is awaited. -/
def read (word : Text) : Reading :=
  if word = "--".toList then .stop
  else if word.head? ≠ some '-' ∨ word = ['-'] then .operand
  else if "--".toList.isPrefixOf word then readLong T (word.drop 2)
  else readShort T (word.drop 1)

/-- The options and the operands, nothing where the program ends with an error. -/
def parse : Option Await → List Text → Option (List Opt × List Text)
  | none, [] => some ([], [])
  | some _, [] => none
  | some await, word :: words =>
    (parse none words).map fun (opts, operands) => (await.take word :: opts, operands)
  | none, word :: words =>
    match read T word with
    | .operand => (parse none words).map fun (opts, operands) => (opts, word :: operands)
    | .stop => some ([], words)
    | .options opts await =>
      (parse await words).map fun (opts', operands) => (opts ++ opts', operands)
    | .bad => none

end Read

/-! ## Arrangements -/

section Arrangement

variable {T : Table}

/-- Every word stands for itself: no option takes the next word, and the options do not end. -/
def Plain (T : Table) (words : List Text) : Prop :=
  ∀ word ∈ words, read T word ≠ .stop ∧ ∀ opts await, read T word ≠ .options opts (some await)

theorem readLong_ne_operand (body : Text) : readLong T body ≠ .operand := by
  unfold readLong
  simp only
  split
  · exact nofun
  · split <;> exact nofun
  · exact nofun
  · split <;> exact nofun

theorem readShort_ne_operand (letters : Text) : readShort T letters ≠ .operand := by
  induction letters with
  | nil => exact nofun
  | cons c cs ih =>
    unfold readShort
    split
    · exact nofun
    · split
      · exact nofun
      · exact ih
    · exact nofun
    · split <;> exact nofun

theorem read_operand_iff (word : Text) :
    read T word = .operand ↔ word.head? ≠ some '-' ∨ word = ['-'] := by
  unfold read
  split
  case isTrue h => simp [h]
  case isFalse h =>
    split
    case isTrue h => simpa using h
    case isFalse h =>
      refine iff_of_false ?_ h
      split
      · exact readLong_ne_operand _
      · exact readShort_ne_operand _

/-- Between options that stand for themselves, the operands are the other words in their order. -/
theorem operands_of_plain {words : List Text} (hplain : Plain T words) {opts : List Opt}
    {operands : List Text} (h : parse T none words = some (opts, operands)) :
    operands = words.filter fun word => word.head? != some '-' || word == ['-'] := by
  induction words generalizing opts operands with
  | nil =>
    obtain ⟨-, rfl⟩ := Prod.mk.inj (Option.some.inj h)
    rfl
  | cons word words ih =>
    obtain ⟨hstop, hawait⟩ := hplain word List.mem_cons_self
    have hrest : Plain T words := fun w hw => hplain w (List.mem_cons_of_mem _ hw)
    have hkeep : read T word = .operand ↔ word.head? ≠ some '-' ∨ word = ['-'] :=
      read_operand_iff word
    rw [parse] at h
    cases hread : read T word with
    | operand =>
      rw [hread] at h
      obtain ⟨⟨os, xs⟩, hparse, heq⟩ := Option.map_eq_some_iff.mp h
      obtain ⟨-, rfl⟩ := Prod.mk.inj heq
      rw [List.filter_cons_of_pos (by simpa using hkeep.mp hread), ih hrest hparse]
    | stop => exact absurd hread hstop
    | options os await =>
      cases await with
      | some await => exact absurd hread (hawait os await)
      | none =>
        rw [hread] at h
        obtain ⟨⟨os', xs⟩, hparse, heq⟩ := Option.map_eq_some_iff.mp h
        obtain ⟨-, rfl⟩ := Prod.mk.inj heq
        have hnot : ¬ (word.head? ≠ some '-' ∨ word = ['-']) := by
          rw [← hkeep, hread]
          exact nofun
        rw [List.filter_cons_of_neg (by simpa using hnot), ih hrest hparse]
    | bad =>
      rw [hread] at h
      cases h

end Arrangement

end GetOpt
