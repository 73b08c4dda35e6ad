import MiqroForge.Library.Paths

/-!
POSIX path texts without symbolic links: the directory a text names from a working directory, and
normalization and joining of texts, which keep it.
-/

namespace PosixPaths

open PyText Paths List

def dotdot : Text := ['.', '.']

/-- The components of a text that name something. -/
def segments (t : Text) : List Text := (split t).filter fun c => decide (c ≠ [] ∧ c ≠ ['.'])

def enter (dir : List Text) (c : Text) : List Text := if c = dotdot then dir.dropLast else dir ++ [c]

def walk (dir : List Text) (cs : List Text) : List Text := cs.foldl enter dir

def isAbsolute (t : Text) : Bool := t.head? == some '/'

/-- The names from the root to what the text names. -/
def resolve (cwd : List Text) (t : Text) : List Text :=
  walk (if isAbsolute t then [] else cwd) (segments t)

/-- One more component behind those that are left of a path. Above the root there is nothing. -/
def collapse (relative : Bool) (cs : List Text) (c : Text) : List Text :=
  if c = dotdot then
    match cs.getLast? with
    | some last => if last = dotdot then cs ++ [c] else cs.dropLast
    | none => if relative then [c] else []
  else cs ++ [c]

def normalize (t : Text) : Text :=
  let cs := (segments t).foldl (collapse (!isAbsolute t)) []
  let body := if cs = [] ∧ isAbsolute t = false then ['.'] else Paths.join cs
  (if isAbsolute t then ['/'] else []) ++ body ++
    (if t.getLast? = some '/' ∧ (cs ≠ [] ∨ isAbsolute t = false) then ['/'] else [])

/-- `path.join` of two texts. -/
def join (a b : Text) : Text :=
  if a = [] then normalize b else if b = [] then normalize a else normalize (a ++ '/' :: b)

/-! ## Components -/

theorem split_append (a b : Text) : split (a ++ '/' :: b) = split a ++ split b := by
  induction a with
  | nil => rfl
  | cons c a ih =>
    simp only [cons_append, split_cons, ih]
    split
    · rfl
    · cases hsplit : split a with
      | nil =>
        cases a <;> simp only [split_nil, split_cons] at hsplit
        · cases hsplit
        · split at hsplit
          · cases hsplit
          · split at hsplit <;> cases hsplit
      | cons d ds => rfl

theorem split_plain {c : Text} (h : Plain c) : split c = [c] := by
  induction c with
  | nil => rfl
  | cons x c ih =>
    have hx : x ≠ '/' := fun heq => h (heq ▸ mem_cons_self)
    have hc : Plain c := fun hm => h (mem_cons_of_mem x hm)
    simp [split_cons, hx, ih hc]

theorem plain_of_mem_split {t c : Text} (h : c ∈ split t) : Plain c := by
  induction t generalizing c with
  | nil =>
    obtain rfl := mem_singleton.mp h
    exact not_mem_nil
  | cons x t ih =>
    simp only [split_cons] at h
    split at h
    · rcases mem_cons.mp h with rfl | h
      · exact not_mem_nil
      · exact ih h
    case isFalse hx =>
      cases hsplit : split t with
      | nil =>
        rw [hsplit] at h
        obtain rfl := mem_singleton.mp h
        exact fun hm => hx (mem_singleton.mp hm).symm
      | cons d ds =>
        rw [hsplit] at h
        rcases mem_cons.mp h with rfl | h
        · intro hm
          rcases mem_cons.mp hm with heq | hm
          · exact hx heq.symm
          · exact ih (hsplit ▸ mem_cons_self) hm
        · exact ih (hsplit ▸ mem_cons_of_mem d h)

/-- A component that names something. -/
def Name (c : Text) : Prop := Plain c ∧ c ≠ [] ∧ c ≠ ['.']

instance (c : Text) : Decidable (Name c) :=
  inferInstanceAs (Decidable ('/' ∉ c ∧ c ≠ [] ∧ c ≠ ['.']))

theorem name_of_mem_segments {t c : Text} (h : c ∈ segments t) : Name c := by
  obtain ⟨hmem, hkeep⟩ := mem_filter.mp h
  exact ⟨plain_of_mem_split hmem, of_decide_eq_true hkeep⟩

theorem segments_append (a b : Text) : segments (a ++ '/' :: b) = segments a ++ segments b := by
  rw [segments, split_append, filter_append]
  rfl

theorem segments_slash (t : Text) : segments ('/' :: t) = segments t := segments_append [] t

theorem segments_name {c : Text} (h : Name c) : segments c = [c] := by
  rw [segments, split_plain h.1]
  simp [h.2]

theorem segments_join {cs : List Text} (h : ∀ c ∈ cs, Name c) : segments (Paths.join cs) = cs := by
  induction cs with
  | nil => rfl
  | cons c cs ih =>
    have hc := segments_name (h c mem_cons_self)
    have hcs := ih fun d hd => h d (mem_cons_of_mem c hd)
    cases cs with
    | nil => exact hc
    | cons d cs =>
      rw [join_cons_cons, segments_append, hc, hcs]
      rfl

/-! ## Walks -/

theorem walk_append (dir cs ds : List Text) : walk dir (cs ++ ds) = walk (walk dir cs) ds :=
  foldl_append

theorem walk_collapse (relative : Bool) {dir : List Text} (hroot : relative = true ∨ dir = [])
    (cs : List Text) (c : Text) : walk dir (collapse relative cs c) = enter (walk dir cs) c := by
  unfold collapse
  split
  case isFalse => exact walk_append dir cs [c]
  case isTrue hc =>
    subst hc
    rcases eq_nil_or_concat cs with rfl | ⟨init, last, rfl⟩
    · rcases hroot with rfl | rfl
      · rfl
      · cases relative <;> rfl
    · simp only [concat_eq_append, getLast?_append, getLast?_singleton,
        Option.some_or]
      split
      · exact walk_append dir _ [dotdot]
      case isFalse hlast =>
        rw [dropLast_concat, walk_append]
        simp [walk, enter, hlast]

theorem walk_collapsed (relative : Bool) {dir : List Text} (hroot : relative = true ∨ dir = [])
    (cs acc : List Text) : walk dir (cs.foldl (collapse relative) acc) = walk (walk dir acc) cs := by
  induction cs generalizing acc with
  | nil => rfl
  | cons c cs ih =>
    rw [foldl_cons, ih, walk_collapse relative hroot]
    rfl

theorem name_of_collapsed (relative : Bool) {cs acc : List Text} (hcs : ∀ c ∈ cs, Name c)
    (hacc : ∀ c ∈ acc, Name c) : ∀ c ∈ cs.foldl (collapse relative) acc, Name c := by
  induction cs generalizing acc with
  | nil => exact hacc
  | cons c cs ih =>
    refine ih (fun d hd => hcs d (mem_cons_of_mem c hd)) fun d hd => ?_
    have hc := hcs c mem_cons_self
    unfold collapse at hd
    split at hd
    · split at hd
      · split at hd
        · rcases mem_append.mp hd with hd | hd
          · exact hacc d hd
          · exact mem_singleton.mp hd ▸ hc
        · exact hacc d (dropLast_subset acc hd)
      · split at hd
        · exact mem_singleton.mp hd ▸ hc
        · cases hd
    · rcases mem_append.mp hd with hd | hd
      · exact hacc d hd
      · exact mem_singleton.mp hd ▸ hc

theorem segments_dir (t : Text) : segments (t ++ ['/']) = segments t := by
  rw [segments_append]
  exact append_nil _

theorem segments_trail (t : Text) (p : Prop) [Decidable p] :
    segments (t ++ if p then ['/'] else []) = segments t := by
  split
  · exact segments_dir t
  · rw [append_nil]

/-- **Normalization keeps what a text names.** -/
theorem resolve_normalize (cwd : List Text) (t : Text) :
    resolve cwd (normalize t) = resolve cwd t := by
  have hnames := name_of_collapsed (!isAbsolute t) (fun c => name_of_mem_segments (t := t))
    (fun c (hc : c ∈ []) => by cases hc)
  generalize hcs : (segments t).foldl (collapse (!isAbsolute t)) [] = cs at hnames
  have hwalk : ∀ dir, isAbsolute t = false ∨ dir = [] → walk dir cs = walk dir (segments t) := by
    intro dir hdir
    rw [← hcs, walk_collapsed _ (by simpa using hdir)]
    rfl
  have hbody : segments (if cs = [] ∧ isAbsolute t = false then ['.'] else Paths.join cs) = cs := by
    split
    case isTrue h =>
      rw [h.1]
      rfl
    case isFalse => exact segments_join hnames
  have hsegments : segments (normalize t) = cs := by
    unfold normalize
    rw [hcs, segments_trail]
    generalize (if cs = [] ∧ isAbsolute t = false then ['.'] else Paths.join cs) = body at hbody ⊢
    cases isAbsolute t with
    | true => exact (segments_slash body).trans hbody
    | false => exact hbody
  have habsolute : isAbsolute (normalize t) = isAbsolute t := by
    unfold normalize
    rw [hcs]
    cases habs : isAbsolute t with
    | true => rfl
    | false =>
      simp only [Bool.false_eq_true, if_false, nil_append, and_true]
      cases cs with
      | nil =>
        simp only [if_true]
        split <;> rfl
      | cons c cs =>
        have hc := hnames c mem_cons_self
        rw [if_neg (cons_ne_nil c cs)]
        obtain ⟨x, c, rfl⟩ := exists_cons_of_ne_nil hc.2.1
        have hx : x ≠ '/' := fun heq => hc.1 (heq ▸ mem_cons_self)
        cases cs <;> simp [isAbsolute, Paths.join, hx]
  rw [resolve, resolve, hsegments, habsolute]
  cases habs : isAbsolute t with
  | true => exact hwalk [] (.inr rfl)
  | false => exact hwalk cwd (.inl habs)

theorem resolve_join (cwd : List Text) {a : Text} (ha : a ≠ []) (b : Text) :
    resolve cwd (join a b) = walk (resolve cwd a) (segments b) := by
  unfold join
  rw [if_neg ha]
  split
  case isTrue hb =>
    rw [hb, resolve_normalize]
    rfl
  case isFalse hb =>
    rw [resolve_normalize, resolve, resolve, segments_append, walk_append]
    obtain ⟨x, a, rfl⟩ := exists_cons_of_ne_nil ha
    rfl

theorem normalize_ne_nil (t : Text) : normalize t ≠ [] := by
  have hnames := name_of_collapsed (!isAbsolute t) (fun c => name_of_mem_segments (t := t))
    (fun c (hc : c ∈ []) => by cases hc)
  unfold normalize
  generalize (segments t).foldl (collapse (!isAbsolute t)) [] = cs at hnames
  cases isAbsolute t with
  | true => simp
  | false =>
    cases cs with
    | nil => simp
    | cons c cs =>
      obtain ⟨x, c, rfl⟩ := exists_cons_of_ne_nil (hnames c mem_cons_self).2.1
      cases cs <;> simp [Paths.join]

theorem join_ne_nil (a b : Text) : join a b ≠ [] := by
  unfold join
  split
  · exact normalize_ne_nil b
  · split
    · exact normalize_ne_nil a
    · exact normalize_ne_nil _

theorem resolve_join_name (cwd : List Text) {a c : Text} (ha : a ≠ []) (hc : Name c)
    (hdot : c ≠ dotdot) : resolve cwd (join a c) = resolve cwd a ++ [c] := by
  rw [resolve_join cwd ha, segments_name hc]
  simp [walk, enter, hdot]

end PosixPaths
