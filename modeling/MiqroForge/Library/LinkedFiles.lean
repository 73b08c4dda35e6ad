import MiqroForge.Library.PosixPaths

/-!
Where a path leads in a tree of files with symbolic links: to something that is there, to a place in
a directory where nothing is, or nowhere.
-/

namespace LinkedFiles

open PyText Paths PosixPaths

inductive Node
  | dir
  | file
  | link (target : Text)
  deriving DecidableEq

/-- What is at a place, which is the names from the root without a link on the way. The root is a
directory, and nothing is read below what is none. -/
abbrev Tree := List Text → Option Node

inductive Place
  | present (p : List Text)
  | absent (p : List Text)
  | nowhere
  deriving DecidableEq

variable (t : Tree)

/-- The way of a path from a directory. A link is followed by `jump`, from the directory where its
target begins. -/
def stepsWith (jump : List Text → List Text → Place) : List Text → List Text → Place
  | cur, [] => .present cur
  | cur, c :: rest =>
    if c = [] ∨ c = ['.'] then stepsWith jump cur rest
    else if c = dotdot then stepsWith jump cur.dropLast rest
    else
      match t (cur ++ [c]) with
      | none => if rest = [] then .absent (cur ++ [c]) else .nowhere
      | some .dir => stepsWith jump (cur ++ [c]) rest
      | some .file => if rest = [] then .present (cur ++ [c]) else .nowhere
      | some (.link target) =>
        jump (if isAbsolute target then [] else cur) (split target ++ rest)

/-- The way of a path with at most so many links. -/
def follow : Nat → List Text → List Text → Place
  | 0 => stepsWith t fun _ _ => .nowhere
  | n + 1 => stepsWith t (follow n)

/-- How many links the system follows. -/
def linkLimit : Nat := 40

/-- Where a path from the root leads. -/
def lookup (path : List Text) : Place :=
  if path.any (·.contains '\x00') then .nowhere else follow t linkLimit [] path

/-! ## The last name -/

variable {t}

/-- A name of a directory that leads to a place where nothing is: there is no such name, or it is a
link. -/
def Missing (t : Tree) (d : List Text) (c : Text) (p : List Text) : Prop :=
  (t (d ++ [c]) = none ∧ p = d ++ [c]) ∨ ∃ target, t (d ++ [c]) = some (.link target)

theorem stepsWith_absent {jump : List Text → List Text → Place} {c : Text} {p : List Text}
    (hjump : ∀ cur cs, jump cur (cs ++ [c]) = .absent p →
      ∃ d, jump cur cs = .present d ∧ Missing t d c p)
    (cur cs : List Text) (h : stepsWith t jump cur (cs ++ [c]) = .absent p) :
    ∃ d, stepsWith t jump cur cs = .present d ∧ Missing t d c p := by
  induction cs generalizing cur with
  | nil =>
    refine ⟨cur, rfl, ?_⟩
    rw [List.nil_append, stepsWith] at h
    split at h
    · cases h
    · split at h
      · cases h
      · cases hnode : t (cur ++ [c]) with
        | none =>
          rw [hnode] at h
          obtain rfl := Place.absent.inj h
          exact Or.inl ⟨hnode, rfl⟩
        | some node =>
          rw [hnode] at h
          cases node with
          | dir => cases h
          | file => cases h
          | link target => exact Or.inr ⟨target, hnode⟩
  | cons s cs ih =>
    have hrest : cs ++ [c] ≠ [] := List.append_ne_nil_of_right_ne_nil cs (List.cons_ne_nil c [])
    rw [List.cons_append, stepsWith, if_neg hrest, if_neg hrest] at h
    rw [stepsWith]
    split at h
    · rename_i hstay
      rw [if_pos hstay]
      exact ih cur h
    · rename_i hstay
      rw [if_neg hstay]
      split at h
      · rename_i hup
        rw [if_pos hup]
        exact ih cur.dropLast h
      · rename_i hup
        rw [if_neg hup]
        cases hnode : t (cur ++ [s]) with
        | none =>
          rw [hnode] at h
          cases h
        | some node =>
          rw [hnode] at h
          cases node with
          | dir => exact ih (cur ++ [s]) h
          | file =>
            cases h
          | link target =>
            dsimp only at h ⊢
            rw [← List.append_assoc] at h
            exact hjump _ _ h

/-- A path that leads to a place where nothing is has a directory that is there, and its last name
is missing in it or is a link. -/
theorem follow_absent {c : Text} {p : List Text} (n : Nat) (cur cs : List Text)
    (h : follow t n cur (cs ++ [c]) = .absent p) :
    ∃ d, follow t n cur cs = .present d ∧ Missing t d c p := by
  induction n generalizing cur cs with
  | zero =>
    refine stepsWith_absent (fun _ _ hnowhere => ?_) cur cs h
    cases hnowhere
  | succ n ih => exact stepsWith_absent ih cur cs h

theorem lookup_absent {path : List Text} {c : Text} {p : List Text}
    (h : lookup t (path ++ [c]) = .absent p) :
    ∃ d, lookup t path = .present d ∧ Missing t d c p := by
  unfold lookup at h ⊢
  split at h
  · cases h
  · rename_i hnul
    rw [if_neg]
    · exact follow_absent linkLimit [] path h
    · intro hany
      apply hnul
      rw [List.any_append, hany]
      rfl

theorem lookup_nil : lookup t [] = .present [] := rfl

end LinkedFiles
