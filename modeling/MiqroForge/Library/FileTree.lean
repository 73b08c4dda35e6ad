import MiqroForge.Library.PyText
import Mathlib.Data.List.Infix

/-!
A file tree with the operations of `pathlib` and `shutil` that programs use on it. An
operation that raises keeps the changes it has made. `Within root ps op` says that `op`,
started where `root` is a directory, changes nothing outside the subtrees at `ps`; the
rules below compose it along a program.
-/

namespace FileTree

open PyText

/-- The components of a resolved absolute path. -/
abbrev Path := List Text

inductive Node where
  | dir
  | file (content : Text)
  deriving DecidableEq, Repr

abbrev Tree := Path → Option Node

/-- The subclasses of `OSError` raised here. -/
inductive Fault where
  | fileNotFound
  | fileExists
  | notADirectory
  | isADirectory
  deriving DecidableEq, Repr

/-- An operation; `ε` are the exceptions of the program itself. -/
abbrev Op (ε α : Type) := EStateM (Fault ⊕ ε) Tree α

/-- The tree an operation leaves behind, also where it raises. -/
def after {ε α : Type} (op : Op ε α) (t : Tree) : Tree :=
  match op t with
  | .ok _ t' => t'
  | .error _ t' => t'

section Operations
variable {ε : Type}

def isDir (t : Tree) (p : Path) : Bool := t p == some .dir

def isFile (t : Tree) (p : Path) : Bool := (t p).isSome && t p != some .dir

/-- `path.exists()`. -/
def pathExists (p : Path) : Op ε Bool := do
  let t ← get
  return (t p).isSome

/-- `path.read_text()`. -/
def readText (p : Path) : Op ε Text := do
  let t ← get
  match t p with
  | some (.file content) => return content
  | some .dir => throw (.inl .isADirectory)
  | none => throw (.inl .fileNotFound)

def setNode (t : Tree) (p : Path) (n : Option Node) : Tree := fun q => if q = p then n else t q

/-- `path.mkdir(parents=True, exist_ok=True)`. -/
def mkdirs (p : Path) : Op ε Unit := do
  let t ← get
  if isFile t p then throw (.inl .fileExists)
  else if p.inits.any (isFile t) then throw (.inl .notADirectory)
  else set (fun q => if q <+: p then some Node.dir else t q)

/-- `path.write_text(content)`. -/
def writeText (p : Path) (content : Text) : Op ε Unit := do
  let t ← get
  if isDir t p then throw (.inl .isADirectory)
  else if isDir t p.dropLast then set (setNode t p (some (.file content)))
  else throw (.inl .fileNotFound)

/-- `path.touch()`. -/
def touch (p : Path) : Op ε Unit := do
  let t ← get
  if (t p).isNone then writeText p [] else return ()

/-- `path.unlink(missing_ok=...)`. -/
def unlink (missingOk : Bool) (p : Path) : Op ε Unit := do
  let t ← get
  match t p with
  | some (.file _) => set (setNode t p none)
  | some .dir => throw (.inl .isADirectory)
  | none => if missingOk then return () else throw (.inl .fileNotFound)

/-- `shutil.rmtree(path)`. -/
def rmtree (p : Path) : Op ε Unit := do
  let t ← get
  match t p with
  | some .dir => set (fun q => if p <+: q then none else t q)
  | some (.file _) => throw (.inl .notADirectory)
  | none => throw (.inl .fileNotFound)

/-- `shutil.move(src, dst)` to a name that is free, and `src.replace(dst)` over a file: the
subtree at `src` moves to `dst`. -/
def move (src dst : Path) : Op ε Unit := do
  let t ← get
  if (t src).isNone then throw (.inl .fileNotFound)
  else if src <+: dst then throw (.inl .fileExists)
  else if isDir t dst then throw (.inl .isADirectory)
  else if isDir t dst.dropLast then
    set (fun q =>
      if src <+: q then none
      else if dst <+: q then t (src ++ q.drop dst.length) else t q)
  else throw (.inl .fileNotFound)

end Operations

section Runs
variable {ε : Type}

theorem get_bind {α : Type} (f : Tree → Op ε α) (t : Tree) : (get >>= f) t = f t t := rfl

theorem bind_run {α β : Type} (x : Op ε α) (f : α → Op ε β) (t : Tree) :
    (x >>= f) t = match x t with
      | .ok a t' => f a t'
      | .error e t' => .error e t' := by
  show EStateM.bind x f t = _
  unfold EStateM.bind
  cases x t <;> rfl

theorem mkdirs_run (p : Path) (t : Tree) : (mkdirs p : Op ε Unit) t =
    if isFile t p then .error (.inl .fileExists) t
    else if p.inits.any (isFile t) then .error (.inl .notADirectory) t
    else .ok () (fun q => if q <+: p then some Node.dir else t q) := by
  show (if isFile t p then throw (.inl .fileExists)
    else if p.inits.any (isFile t) then throw (.inl .notADirectory)
    else set (fun q => if q <+: p then some Node.dir else t q) : Op ε Unit) t = _
  split
  · rfl
  · split <;> rfl

theorem writeText_run (p : Path) (content : Text) (t : Tree) :
    (writeText p content : Op ε Unit) t =
      if isDir t p then .error (.inl .isADirectory) t
      else if isDir t p.dropLast then .ok () (setNode t p (some (.file content)))
      else .error (.inl .fileNotFound) t := by
  show (if isDir t p then throw (.inl .isADirectory)
    else if isDir t p.dropLast then set (setNode t p (some (.file content)))
    else throw (.inl .fileNotFound) : Op ε Unit) t = _
  split
  · rfl
  · split <;> rfl

theorem mkdirs_keeps_file {p q : Path} {content : Text} {t : Tree}
    (h : t q = some (.file content)) :
    after (mkdirs p : Op ε Unit) t q = some (.file content) := by
  unfold after
  rw [mkdirs_run]
  split_ifs with hfile habove
  · exact h
  · exact h
  · show (if q <+: p then some Node.dir else t q) = _
    rw [if_neg, h]
    intro hpre
    apply habove
    refine List.any_eq_true.mpr ⟨q, (List.mem_inits q p).mpr hpre, ?_⟩
    simp [isFile, h]

@[simp] theorem setNode_self (t : Tree) (p : Path) (n : Option Node) : setNode t p n p = n :=
  if_pos rfl

end Runs

/-! ## What an operation leaves alone -/

/-- The path lies in one of the subtrees at `ps`. -/
def Under (ps : List Path) (q : Path) : Prop := ∃ p ∈ ps, p <+: q

/-- `root` and what is above it are directories. -/
def Ready (root : Path) (t : Tree) : Prop := ∀ q, q <+: root → t q = some .dir

theorem mkdirs_ready {ε : Type} {root : Path} {t : Tree} (h : Ready root t) :
    (mkdirs root : Op ε Unit) t = .ok () t := by
  have hfile : ∀ q, q <+: root → isFile t q = false := fun q hq => by simp [isFile, h q hq]
  have habove : root.inits.any (isFile t) = false := by
    refine List.any_eq_false.mpr fun q hq => ?_
    rw [hfile q ((List.mem_inits q root).mp hq)]
    exact Bool.false_ne_true
  have hsame : (fun q => if q <+: root then some Node.dir else t q) = t := by
    funext q
    split
    case isTrue hq => exact (h q hq).symm
    case isFalse => rfl
  rw [mkdirs_run, hfile root List.prefix_rfl, if_neg Bool.false_ne_true, habove,
    if_neg Bool.false_ne_true, hsame]

theorem mkdirs_cases {ε : Type} (root : Path) (t : Tree) :
    (∃ fault, (mkdirs root : Op ε Unit) t = .error (.inl fault) t) ∨
      (mkdirs root : Op ε Unit) t = .ok () (fun q => if q <+: root then some Node.dir else t q) := by
  rw [mkdirs_run]
  split_ifs
  · exact Or.inl ⟨_, rfl⟩
  · exact Or.inl ⟨_, rfl⟩
  · exact Or.inr rfl

theorem move_run {ε : Type} (src dst : Path) (t : Tree) : (move src dst : Op ε Unit) t =
    if (t src).isNone then .error (.inl .fileNotFound) t
    else if src <+: dst then .error (.inl .fileExists) t
    else if isDir t dst then .error (.inl .isADirectory) t
    else if isDir t dst.dropLast then
      .ok () (fun q =>
        if src <+: q then none
        else if dst <+: q then t (src ++ q.drop dst.length) else t q)
    else .error (.inl .fileNotFound) t := by
  show (if (t src).isNone then throw (.inl .fileNotFound)
    else if src <+: dst then throw (.inl .fileExists)
    else if isDir t dst then throw (.inl .isADirectory)
    else if isDir t dst.dropLast then
      set (fun q =>
        if src <+: q then none
        else if dst <+: q then t (src ++ q.drop dst.length) else t q)
    else throw (.inl .fileNotFound) : Op ε Unit) t = _
  split_ifs <;> rfl

theorem move_ok {ε : Type} {src dst : Path} {t t' : Tree}
    (h : (move src dst : Op ε Unit) t = .ok () t') : t' dst = t src ∧ t src ≠ none := by
  rw [move_run] at h
  split_ifs at h with hsrc hinside hdst hparent
  obtain rfl := (EStateM.Result.ok.inj h).2
  refine ⟨?_, fun hnone => hsrc (by rw [hnone]; rfl)⟩
  show (if src <+: dst then none
    else if dst <+: dst then t (src ++ dst.drop dst.length) else t dst) = t src
  rw [if_neg hinside, if_pos List.prefix_rfl, List.drop_length, List.append_nil]

theorem move_inside {ε : Type} {src dst : Path} (h : src <+: dst) (t : Tree) :
    ∃ fault, (move src dst : Op ε Unit) t = .error (.inl fault) t := by
  rw [move_run, if_pos h]
  split
  · exact ⟨_, rfl⟩
  · exact ⟨_, rfl⟩

def Within {ε α : Type} (root : Path) (ps : List Path) (op : Op ε α) : Prop :=
  ∀ t, Ready root t → ∀ q, ¬ Under ps q → after op t q = t q

/-- The subtrees do not hold `root`. -/
def Below (root : Path) (ps : List Path) : Prop := ∀ p ∈ ps, ¬ p <+: root

theorem under_trans {ps : List Path} {p q : Path} (hp : Under ps p) (hpq : p <+: q) :
    Under ps q := by
  obtain ⟨r, hr, hrp⟩ := hp
  exact ⟨r, hr, hrp.trans hpq⟩

theorem under_self {ps : List Path} {p : Path} (hp : p ∈ ps) : Under ps p :=
  ⟨p, hp, List.prefix_rfl⟩

theorem not_under_root {root : Path} {ps : List Path} (h : Below root ps) {q : Path}
    (hq : q <+: root) : ¬ Under ps q := by
  rintro ⟨p, hp, hpq⟩
  exact h p hp (hpq.trans hq)

section Rules
variable {ε α β : Type} {root : Path} {ps : List Path}

theorem Within.ready {op : Op ε α} (h : Within root ps op) (hb : Below root ps) {t : Tree}
    (ht : Ready root t) : Ready root (after op t) := by
  intro q hq
  rw [h t ht q (not_under_root hb hq)]
  exact ht q hq

theorem within_of_after {op : Op ε α} (h : ∀ t, after op t = t) : Within root ps op := by
  intro t _ q _
  rw [h t]

theorem within_pure (a : α) : Within root ps (pure a : Op ε α) := within_of_after fun _ => rfl

theorem within_throw (e : Fault ⊕ ε) : Within root ps (throw e : Op ε α) :=
  within_of_after fun _ => rfl

theorem after_bind (x : Op ε α) (f : α → Op ε β) (t : Tree) :
    after (x >>= f) t = after x t ∨ ∃ a, after (x >>= f) t = after (f a) (after x t) := by
  cases hx : x t with
  | ok a t' =>
    refine Or.inr ⟨a, ?_⟩
    simp [after, bind, EStateM.bind, hx]
  | error e t' =>
    refine Or.inl ?_
    simp [after, bind, EStateM.bind, hx]

theorem within_bind {x : Op ε α} {f : α → Op ε β} (hb : Below root ps) (hx : Within root ps x)
    (hf : ∀ a, Within root ps (f a)) : Within root ps (x >>= f) := by
  intro t ht q hq
  rcases after_bind x f t with h | ⟨a, h⟩
  · rw [h, hx t ht q hq]
  · rw [h, hf a _ (hx.ready hb ht) q hq, hx t ht q hq]

theorem within_of_get {f : Tree → Op ε α}
    (h : ∀ t, Ready root t → ∀ q, ¬ Under ps q → after (f t) t q = t q) :
    Within root ps (get >>= f) := h

theorem within_pathExists (p : Path) : Within root ps (pathExists p : Op ε Bool) :=
  within_of_after fun _ => rfl

theorem prefix_concat_cases {q p : Path} {c : Text} (h : q <+: p ++ [c]) :
    q = p ++ [c] ∨ q <+: p := by
  rcases List.prefix_concat_iff.mp h with h | h
  · exact Or.inl h
  · exact Or.inr h

theorem within_mkdirs {c : Text} (hp : root ++ [c] ∈ ps) :
    Within root ps (mkdirs (root ++ [c]) : Op ε Unit) := by
  apply within_of_get
  intro t ht q hq
  split
  · rfl
  · split
    · rfl
    · show (if q <+: root ++ [c] then some Node.dir else t q) = t q
      split
      case isFalse => rfl
      case isTrue hpre =>
        rcases prefix_concat_cases hpre with rfl | hroot
        · exact absurd (under_self hp) hq
        · exact (ht q hroot).symm

theorem setNode_of_not_under {p q : Path} (hp : Under ps p) (hq : ¬ Under ps q) (t : Tree)
    (n : Option Node) : setNode t p n q = t q := by
  unfold setNode
  rw [if_neg]
  rintro rfl
  exact hq hp

theorem within_writeText {p : Path} (hp : Under ps p) (content : Text) :
    Within root ps (writeText p content : Op ε Unit) := by
  apply within_of_get
  intro t _ q hq
  split
  · rfl
  · split
    · exact setNode_of_not_under hp hq t _
    · rfl

theorem within_touch {p : Path} (hp : Under ps p) : Within root ps (touch p : Op ε Unit) := by
  apply within_of_get
  intro t ht q hq
  split
  · exact within_writeText hp [] t ht q hq
  · rfl

theorem within_unlink {p : Path} (hp : Under ps p) (missingOk : Bool) :
    Within root ps (unlink missingOk p : Op ε Unit) := by
  apply within_of_get
  intro t _ q hq
  split
  · exact setNode_of_not_under hp hq t none
  · rfl
  · split <;> rfl

theorem within_rmtree {p : Path} (hp : Under ps p) : Within root ps (rmtree p : Op ε Unit) := by
  apply within_of_get
  intro t _ q hq
  split
  · show (if p <+: q then none else t q) = t q
    rw [if_neg fun hpre => hq (under_trans hp hpre)]
  · rfl
  · rfl

theorem within_move {src dst : Path} (hsrc : Under ps src) (hdst : Under ps dst) :
    Within root ps (move src dst : Op ε Unit) := by
  apply within_of_get
  intro t _ q hq
  split
  · rfl
  split
  · rfl
  split
  · rfl
  split
  · show (if src <+: q then none
      else if dst <+: q then t (src ++ q.drop dst.length) else t q) = t q
    rw [if_neg fun hpre => hq (under_trans hsrc hpre),
      if_neg fun hpre => hq (under_trans hdst hpre)]
  · rfl

end Rules

end FileTree
