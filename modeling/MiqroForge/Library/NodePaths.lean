import MiqroForge.Library.PosixPaths

/-!
The paths of Node: its `path` module for Windows and for POSIX, over normalized paths that are kept
apart in drive or share, root and names. Devices with `\\?\` and characters whose lower case is more
than one character are left out.
-/

namespace NodePaths

open PyText PosixPaths

/-- A normalized path. The names of one without a root may begin with `..`. -/
structure Path where
  device : Text
  rooted : Bool
  names : List Text
  deriving DecidableEq

/-- What the functions read from the system. -/
structure Host where
  win32 : Bool
  /-- The drive or share of the current directory; empty on POSIX. -/
  device : Text
  cwd : List Text
  cwd_plain : dotdot ∉ cwd
  /-- The current directory of a drive. -/
  driveCwd : Text → List Text
  drive_plain : ∀ device, dotdot ∉ driveCwd device
  /-- `toLowerCase` of a character. -/
  lower : Char → Char

variable (h : Host)

def sep : Char := if h.win32 then '\\' else '/'

def isSep (c : Char) : Bool := c == '/' || (h.win32 && c == '\\')

def isLetter (c : Char) : Bool :=
  (65 ≤ c.toNat && c.toNat ≤ 90) || (97 ≤ c.toNat && c.toNat ≤ 122)

/-- The text as it is compared: in lower case on Windows. -/
def fold (t : Text) : Text := if h.win32 then t.map h.lower else t

/-! ## Texts -/

/-- The names between the separators, without `.` and empty ones. -/
def components (t : Text) : List Text :=
  (t.splitOnP (isSep h)).filter fun c => decide (c ≠ [] ∧ c ≠ ['.'])

/-- The share that a text names behind two separators, and the rest. -/
def uncRoot (t : Text) : Option (Text × Text) :=
  let server := t.takeWhile fun c => !isSep h c
  let behind := (t.dropWhile fun c => !isSep h c).dropWhile (isSep h)
  let share := behind.takeWhile fun c => !isSep h c
  if server = [] ∨ share = [] then none
  else some (['\\', '\\'] ++ server ++ '\\' :: share, behind.dropWhile fun c => !isSep h c)

/-- The device of a text, whether the text begins at a root, and the rest. -/
def splitRoot (t : Text) : Text × Bool × Text :=
  match t with
  | a :: b :: rest =>
    if isSep h a then
      if h.win32 && isSep h b then
        match uncRoot h rest with
        | some (device, rest) => (device, true, rest)
        | none => ([], true, t)
      else ([], true, t)
    else if h.win32 && isLetter a && b == ':' then
      ([a, b], (rest.head?.map (isSep h)).getD false, rest)
    else ([], false, t)
  | [a] => ([], isSep h a, t)
  | [] => ([], false, [])

/-- `path.normalize`. -/
def parse (t : Text) : Path :=
  let (device, rooted, rest) := splitRoot h t
  ⟨device, rooted, (components h rest).foldl (collapse (!rooted)) []⟩

def joinNames (names : List Text) : Text := [sep h].intercalate names

/-- The text of a normalized path. -/
def text (p : Path) : Text :=
  p.device ++ (if p.rooted then [sep h] else []) ++
    (if p.names = [] ∧ p.rooted = false then ['.'] else joinNames h p.names)

/-- Joined texts begin with two separators only where the first text begins with exactly two. -/
def oneRoot (first joined : Text) : Text :=
  let keeps :=
    match first with
    | a :: b :: c :: _ => isSep h a && isSep h b && !isSep h c
    | _ => false
  if h.win32 && !keeps && ((joined.take 2).all (isSep h) && decide (2 ≤ joined.length)) then
    '\\' :: joined.dropWhile (isSep h)
  else joined

/-- `path.join` of a text and a name. -/
def joinText (t name : Text) : Path :=
  parse h (oneRoot h t (if t = [] then name else t ++ sep h :: name))

/-- `path.join` of a normalized path and a name. -/
def join (p : Path) (name : Text) : Path :=
  { p with names := collapse (!p.rooted) p.names name }

def resolve (p : Path) : Path where
  device := if p.device = [] then h.device else p.device
  rooted := true
  names :=
    if p.rooted then walk [] p.names
    else walk (if p.device = [] then h.cwd else h.driveCwd p.device) p.names

def isAbsolute (t : Text) : Bool :=
  match t with
  | a :: rest =>
    isSep h a || (h.win32 && isLetter a &&
      match rest with
      | b :: c :: _ => b == ':' && isSep h c
      | _ => false)
  | [] => false

/-! ## Places -/

/-- The drive, or the server and its share, and the names behind it. -/
def segs (p : Path) : List Text := components h p.device ++ p.names

/-- Where a path leads: paths with the same place are the same. -/
def place (p : Path) : List Text := (segs h (resolve h p)).map (fold h)

/-- How many names two lists have in common at the front. -/
def common : List Text → List Text → Nat
  | a :: as, b :: bs => if a = b then common as bs + 1 else 0
  | _, _ => 0

def relative (origin p : Path) : Text :=
  let a := segs h (resolve h origin)
  let b := segs h (resolve h p)
  let k := common (a.map (fold h)) (b.map (fold h))
  if h.win32 ∧ k = 0 ∧ a ≠ [] ∧ b ≠ [] then text h (resolve h p)
  else joinNames h (List.replicate (a.length - k) dotdot ++ b.drop k)

/-! ## Facts -/

theorem common_prefix {a b : List Text} (hab : a <+: b) : common a b = a.length := by
  induction a generalizing b with
  | nil => rw [common, List.length_nil]; simp
  | cons x a ih =>
    obtain ⟨t, rfl⟩ := hab
    rw [List.cons_append, common, if_pos rfl, ih (List.prefix_append a t), List.length_cons]

/-- The names behind a directory on the way. -/
def below (dir p : Path) : Text :=
  joinNames h ((segs h (resolve h p)).drop (segs h (resolve h dir)).length)

theorem relative_of_prefix {dir p : Path} (hp : place h dir <+: place h p) :
    relative h dir p = below h dir p := by
  have hk := common_prefix hp
  rw [place, place, List.length_map] at hk
  rw [relative, below, hk, if_neg]
  · rw [Nat.sub_self]
    rfl
  · rintro ⟨-, hzero, hne, -⟩
    exact hne (List.length_eq_zero_iff.mp hzero)

theorem walk_plain {dir : List Text} (hdir : dotdot ∉ dir) (cs : List Text) :
    dotdot ∉ walk dir cs := by
  induction cs generalizing dir with
  | nil => exact hdir
  | cons c cs ih =>
    refine ih ?_
    rw [enter]
    split
    · exact fun hm => hdir (List.dropLast_subset dir hm)
    · rename_i hc
      intro hm
      rcases List.mem_append.mp hm with hm | hm
      · exact hdir hm
      · exact hc (List.mem_singleton.mp hm).symm

theorem walk_names (dir : List Text) {names : List Text} (hnames : dotdot ∉ names) :
    walk dir names = dir ++ names := by
  induction names generalizing dir with
  | nil => exact (List.append_nil dir).symm
  | cons c names ih =>
    have hc : c ≠ dotdot := fun heq => hnames (heq ▸ List.mem_cons_self)
    have hstep : walk dir (c :: names) = walk (dir ++ [c]) names := by
      rw [walk, List.foldl_cons, enter, if_neg hc]
      rfl
    rw [hstep, ih (dir ++ [c]) (fun hm => hnames (List.mem_cons_of_mem c hm)), List.append_assoc]
    rfl

theorem resolve_resolve (p : Path) : resolve h (resolve h p) = resolve h p := by
  have hplain : dotdot ∉ (resolve h p).names := by
    rw [resolve]
    dsimp only
    split
    · exact walk_plain List.not_mem_nil _
    · split
      · exact walk_plain h.cwd_plain _
      · exact walk_plain (h.drive_plain _) _
  have hdevice : (if (resolve h p).device = [] then h.device else (resolve h p).device) =
      (resolve h p).device := by
    split
    · rename_i hnone
      rw [hnone]
      rw [resolve] at hnone
      dsimp only at hnone
      split at hnone
      · exact hnone
      · contradiction
    · rfl
  rw [resolve, hdevice]
  have hrooted : (resolve h p).rooted = true := rfl
  rw [hrooted, if_pos rfl, walk_names [] hplain]
  rfl

theorem place_resolve (p : Path) : place h (resolve h p) = place h p := by
  rw [place, place, resolve_resolve]

theorem walk_append_name {dir names : List Text} {c : Text} (hc : c ≠ dotdot) :
    walk dir (names ++ [c]) = walk dir names ++ [c] := by
  rw [walk_append, walk, List.foldl_cons, List.foldl_nil, enter, if_neg hc]

theorem place_join (p : Path) {c : Text} (hc : c ≠ dotdot) :
    place h (join p c) = place h p ++ [fold h c] := by
  have hnames : (join p c).names = p.names ++ [c] := if_neg hc
  have hresolve : (resolve h (join p c)).names = (resolve h p).names ++ [c] := by
    rw [resolve, resolve, hnames]
    cases hrooted : p.rooted with
    | true =>
      have hjoin : (join p c).rooted = true := hrooted
      rw [hjoin, if_pos rfl, if_pos rfl]
      exact walk_append_name hc
    | false =>
      have hjoin : (join p c).rooted = false := hrooted
      rw [hjoin, if_neg Bool.false_ne_true, if_neg Bool.false_ne_true]
      exact walk_append_name hc
  have hdevice : (resolve h (join p c)).device = (resolve h p).device := rfl
  rw [place, place, segs, segs, hresolve, hdevice, ← List.append_assoc, List.map_append]
  rfl

end NodePaths
