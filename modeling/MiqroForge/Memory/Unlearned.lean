import MiqroForge.Memory.Lessons
import MiqroForge.Library.Steps

/-!
What stays of a lesson that was taken back, over runs of the store of lessons.
-/

namespace MiqroForge.Memory

open PyText Store List

/-! ## Lessons of one key -/

/-- A lesson that no prompt gets. -/
def Hidden (l : Lesson) : Prop := l.enabled = false ∨ l.state = .archived

/-- What is stored under a key comes from what was, and is hidden if that was. -/
def Keeps (key : Text) (ls ls' : List Lesson) : Prop :=
  ∀ l' ∈ ls', l'.key = key → ∃ l ∈ ls, l.key = key ∧ (Hidden l → Hidden l')

namespace Keeps

variable {key : Text} {ls ls' ls'' : List Lesson}

theorem refl (key : Text) (ls : List Lesson) : Keeps key ls ls := fun l hl hkey => ⟨l, hl, hkey, id⟩

theorem trans (h : Keeps key ls ls') (h' : Keeps key ls' ls'') : Keeps key ls ls'' := by
  intro l'' hl'' hkey''
  obtain ⟨l', hl', hkey', hhidden'⟩ := h' l'' hl'' hkey''
  obtain ⟨l, hl, hkey, hhidden⟩ := h l' hl' hkey'
  exact ⟨l, hl, hkey, hhidden' ∘ hhidden⟩

theorem of_subset (h : ls' ⊆ ls) : Keeps key ls ls' := fun l hl hkey => ⟨l, h hl, hkey, id⟩

theorem append {l : Lesson} (hl : l.key ≠ key) : Keeps key ls (ls ++ [l]) := by
  intro l' hl' hkey
  rcases mem_append.mp hl' with hl' | hl'
  · exact ⟨l', hl', hkey, id⟩
  · exact absurd (mem_singleton.mp hl' ▸ hkey) hl

theorem map {f : Lesson → Lesson} (hkey : ∀ l, (f l).key = l.key)
    (hf : ∀ l ∈ ls, Hidden l → Hidden (f l)) : Keeps key ls (ls.map f) := by
  intro l' hl' hl'key
  obtain ⟨l, hl, rfl⟩ := mem_map.mp hl'
  exact ⟨l, hl, hkey l ▸ hl'key, hf l hl⟩

theorem updateFirst {p : Lesson → Bool} {f : Lesson → Lesson} (hkey : ∀ l, (f l).key = l.key)
    (hf : ∀ l, ls.find? p = some l → l.key = key → Hidden l → Hidden (f l)) :
    Keeps key ls (updateFirst p f ls) := by
  induction ls with
  | nil => exact refl key []
  | cons l ls ih =>
    unfold Memory.updateFirst
    intro l' hl' hl'key
    split at hl'
    · rename_i hp
      rcases mem_cons.mp hl' with rfl | hl'
      · have hlkey : l.key = key := hkey l ▸ hl'key
        exact ⟨l, mem_cons_self, hlkey, hf l (find?_cons_of_pos hp) hlkey⟩
      · exact ⟨l', mem_cons_of_mem l hl', hl'key, id⟩
    · rename_i hp
      rcases mem_cons.mp hl' with rfl | hl'
      · exact ⟨l', mem_cons_self, hl'key, id⟩
      · obtain ⟨m, hm, hmkey, hhidden⟩ := ih (fun m hm => hf m (by
          rw [find?_cons_of_neg hp]
          exact hm)) l' hl' hl'key
        exact ⟨m, mem_cons_of_mem l hm, hmkey, hhidden⟩

end Keeps

/-! ## Compaction -/

theorem keepPass_subset {takes : List Lesson → Lesson → Bool} {kept ls all : List Lesson}
    (hkept : kept ⊆ all) (hls : ls ⊆ all) : keepPass takes kept ls ⊆ all := by
  induction ls generalizing kept with
  | nil => exact hkept
  | cons l ls ih =>
    have hl := hls mem_cons_self
    have hrest : ls ⊆ all := fun m hm => hls (mem_cons_of_mem l hm)
    rw [keepPass]
    split
    · refine ih ?_ hrest
      intro m hm
      rcases mem_append.mp hm with hm | hm
      · exact hkept hm
      · exact mem_singleton.mp hm ▸ hl
    · exact ih hkept hrest

theorem compacted_subset (cfg : Config) (maxKeep : Nat) (lessons : List Lesson) :
    compacted cfg maxKeep lessons ⊆ lessons := by
  have hsorted : lessons.insertionSort (fun a b => isAhead a b = true) ⊆ lessons :=
    (perm_insertionSort _ lessons).subset
  intro l hl
  exact keepPass_subset (keepPass_subset (nil_subset _) hsorted) hsorted
    ((take_subset _ _) hl)

theorem compactLessons_subset (cfg : Config) (s : Store) (now : Now) (maxLessons : Option Nat) :
    (s.compactLessons cfg now maxLessons).lessons ⊆ s.lessons := by
  unfold compactLessons
  split
  · exact fun _ hl => hl
  · dsimp only
    generalize max 1 (if maxLessons.getD 0 = 0 then cfg.maxLessons else maxLessons.getD 0) = maxKeep
    split
    · exact filter_subset_self _
    · exact fun l hl => mem_of_mem_filter (compacted_subset _ _ _ hl)

/-! ## Learning -/

variable (py : Python) (cfg : Config)

variable {key : Text}

theorem keeps_noted (s : Store) (now : Now) (o : Observation)
    (hstored : ∃ l ∈ s.lessons, l.key = key) :
    Keeps key s.lessons (s.noted py cfg now o).lessons := by
  unfold noted
  split
  · exact Keeps.updateFirst (fun _ => rfl) fun l _ _ hhidden => hhidden
  · rename_i hnew
    refine Keeps.append fun hkey => hnew ?_
    obtain ⟨l, hl, hlkey⟩ := hstored
    have hsame : l.key = o.key py := hlkey.trans hkey.symm
    exact any_eq_true.mpr ⟨l, hl, decide_eq_true hsame⟩

theorem stored_noted (s : Store) (now : Now) (o : Observation)
    (hstored : ∃ l ∈ s.lessons, l.key = key) :
    ∃ l ∈ (s.noted py cfg now o).lessons, l.key = key := by
  obtain ⟨l, hl, hkey⟩ := hstored
  unfold noted
  split
  · have hmem : ∀ {p : Lesson → Bool} {f : Lesson → Lesson} {ls : List Lesson},
        (∀ m, (f m).key = m.key) → l ∈ ls → ∃ m ∈ updateFirst p f ls, m.key = key := by
      intro p f ls hf hin
      induction ls with
      | nil => cases hin
      | cons m ls ih =>
        unfold updateFirst
        split
        · rcases mem_cons.mp hin with rfl | hin
          · exact ⟨f l, mem_cons_self, (hf l).trans hkey⟩
          · exact ⟨l, mem_cons_of_mem _ hin, hkey⟩
        · rcases mem_cons.mp hin with rfl | hin
          · exact ⟨l, mem_cons_self, hkey⟩
          · obtain ⟨m', hm', hm'key⟩ := ih hin
            exact ⟨m', mem_cons_of_mem _ hm', hm'key⟩
    exact hmem (fun _ => rfl) hl
  · exact ⟨l, mem_append_left _ hl, hkey⟩

theorem keeps_maybePromote (s : Store) (now : Now) (trigger betterAction source : Text)
    (hstored : ∃ l ∈ s.lessons, l.key = key)
    (harchived : s.promotes py cfg trigger betterAction source = true →
      globalKey py trigger betterAction = key →
        ∀ l ∈ s.lessons, l.key = key → l.scope = .global ∧ l.state = .archived) :
    Keeps key s.lessons (s.maybePromote py cfg now trigger betterAction source).lessons := by
  unfold maybePromote
  split
  · exact Keeps.refl key s.lessons
  · rename_i hpromotes
    rw [Bool.not_eq_false] at hpromotes
    have hall := harchived hpromotes
    dsimp only
    refine Keeps.trans ?_ (Keeps.map (fun l => ?_) fun l _ hhidden => ?_)
    · split
      · refine Keeps.updateFirst (fun _ => rfl) fun l hl hkey _ => Or.inr ?_
        have hglobal := find?_some hl
        unfold isPromoted at hglobal
        rw [Bool.and_eq_true, decide_eq_true_eq, decide_eq_true_eq] at hglobal
        exact (hall (hglobal.2.symm.trans hkey) l (mem_of_find?_eq_some hl) hkey).2
      · rename_i hnone
        refine Keeps.append fun hkey => hnone ?_
        obtain ⟨l, hl, hlkey⟩ := hstored
        have hscope := (hall hkey l hl hlkey).1
        refine any_eq_true.mpr ⟨l, hl, ?_⟩
        rw [isPromoted, hscope, decide_eq_true rfl, Bool.true_and]
        exact decide_eq_true (hlkey.trans hkey.symm)
    · split <;> rfl
    · split
      · exact hhidden
      · exact hhidden

/-- Whether learning these texts promotes a lesson of the key. -/
def Promotes (s : Store) (now : Now) (o : Observation) (key : Text) : Prop :=
  o.scope = .session ∧
    (s.noted py cfg now o).promotes py cfg o.cleanTrigger o.cleanBetter o.source = true ∧
    globalKey py o.cleanTrigger o.cleanBetter = key

theorem keeps_learn (s : Store) (now : Now) (o : Observation)
    (hstored : ∃ l ∈ s.lessons, l.key = key)
    (harchived : Promotes py cfg s now o key →
      ∀ l ∈ (s.noted py cfg now o).lessons, l.key = key → l.scope = .global ∧ l.state = .archived) :
    Keeps key s.lessons (s.learn py cfg now o).lessons := by
  unfold learn
  split
  · exact Keeps.refl key s.lessons
  · refine Keeps.trans ?_ (Keeps.of_subset (compactLessons_subset cfg _ now _))
    refine (keeps_noted py cfg s now o hstored).trans ?_
    unfold promoted
    dsimp only
    split
    · rename_i hscope
      exact keeps_maybePromote py cfg _ now _ _ _ (stored_noted py cfg s now o hstored)
        fun hpromotes hkey => harchived ⟨hscope, hpromotes, hkey⟩
    · exact Keeps.refl key _

/-! ## One operation -/

/-- What an operation learns. -/
def Op.observation : Op → Option (Now × Observation)
  | .learn now o => some (now, o)
  | .recordToolFeedback now sessionKey toolName result =>
    if isToolError py result then some (now, toolObservation py sessionKey toolName result) else none
  | .recordUserFeedback now sessionKey userMessage previousAssistant actorKey =>
    (userObservation py cfg sessionKey userMessage previousAssistant actorKey).map fun o => (now, o)
  | _ => none

variable {s : Store}

theorem learn_disabled {now : Now} {o : Observation} (h : cfg.enabled = false) :
    s.learn py cfg now o = s := by
  rw [learn, if_pos (Or.inl h)]

theorem act_observation {op : Op} {now : Now} {o : Observation}
    (h : op.observation py cfg = some (now, o)) : act py cfg s op = s.learn py cfg now o := by
  cases op with
  | learn now' o' =>
    obtain ⟨rfl, rfl⟩ := Prod.mk.inj (Option.some.inj h)
    rfl
  | recordToolFeedback now' sessionKey toolName result =>
    rw [Op.observation] at h
    split at h
    · rename_i herror
      obtain ⟨rfl, rfl⟩ := Prod.mk.inj (Option.some.inj h)
      rw [act, recordToolFeedback]
      split
      · rename_i hoff
        rw [learn_disabled py cfg hoff]
      · rfl
    · cases h
  | recordUserFeedback now' sessionKey userMessage previousAssistant actorKey =>
    obtain ⟨o', ho', heq⟩ := Option.map_eq_some_iff.mp h
    obtain ⟨rfl, rfl⟩ := Prod.mk.inj heq
    rw [act, recordUserFeedback, ho']
    dsimp only
    split
    · rename_i hoff
      rw [learn_disabled py cfg hoff]
    · rfl
  | _ => cases h

/-- An operation that neither lets the key go nor switches a lesson of it on again: the key stays
stored, no lesson of it is enabled, a promotion of it meets archived lessons only, and the file is read
back when all is saved and the keys are those of the texts. -/
structure Quiet (key : Text) (s : Store) (op : Op) : Prop where
  stays : ∃ l ∈ (act py cfg s op).lessons, l.key = key
  notEnabled : ∀ now lessonId, op = .setEnabled now lessonId true →
    ∀ l, s.lessons.find? (fun l => decide (l.id = strip lessonId)) = some l → l.key ≠ key
  notPromoted : ∀ now o, op.observation py cfg = some (now, o) → Promotes py cfg s now o key →
    ∀ l ∈ (s.noted py cfg now o).lessons, l.key = key → l.scope = .global ∧ l.state = .archived
  loads : op = .load → s.dirty = false ∧
    ∀ l ∈ s.lessons, ∀ l', loadLesson py l = some l' → l'.key = l.key

/-- What is not yet saved is marked, or the file holds the lessons, or they were read from it. -/
def Saved (s : Store) : Prop :=
  s.dirty = true ∨ s.file = some s.lessons ∨
    ∃ rows, s.file = some rows ∧ s.lessons = rows.filterMap (loadLesson py)

theorem updateFirst_none {p : Lesson → Bool} {f : Lesson → Lesson} {ls : List Lesson}
    (h : ls.any p = false) : updateFirst p f ls = ls := by
  induction ls with
  | nil => rfl
  | cons l ls ih =>
    rw [any_cons, Bool.or_eq_false_iff] at h
    rw [updateFirst, if_neg (by rw [h.1]; exact Bool.false_ne_true), ih h.2]

theorem map_self {f : Lesson → Lesson} {ls : List Lesson} (h : ∀ l ∈ ls, f l = l) : ls.map f = ls := by
  rw [map_congr_left h, map_id']

theorem dirty_compactLessons {now : Now} {maxLessons : Option Nat} :
    (s.compactLessons cfg now maxLessons).dirty = true ∨ s.compactLessons cfg now maxLessons = s := by
  unfold compactLessons
  split
  · exact Or.inr rfl
  · dsimp only
    generalize max 1 (if maxLessons.getD 0 = 0 then cfg.maxLessons else maxLessons.getD 0) = maxKeep
    split
    · by_cases hevicted :
        (s.lessons.filter fun l => !isExpired now l).length < s.lessons.length
      · exact Or.inl (by rw [decide_eq_true hevicted, Bool.or_true])
      · have hall : (s.lessons.filter fun l => !isExpired now l) = s.lessons :=
          filter_sublist.eq_of_length_le (Nat.le_of_not_lt hevicted)
        rw [hall, decide_eq_false (Nat.lt_irrefl _), Bool.or_false]
        exact Or.inr rfl
    · exact Or.inl rfl

theorem dirty_learn {now : Now} {o : Observation} :
    (s.learn py cfg now o).dirty = true ∨ s.learn py cfg now o = s := by
  unfold learn
  split
  · exact Or.inr rfl
  · left
    rcases dirty_compactLessons cfg
      (s := ({ s.promoted py cfg now o with dirty := true } : Store)) with h | h
    · exact h
    · rw [h]

theorem dirty_act {op : Op} (hflush : op ≠ .flush) (hload : op ≠ .load) :
    (act py cfg s op).dirty = true ∨ act py cfg s op = s := by
  cases op with
  | learn now o => exact dirty_learn py cfg
  | recordToolFeedback now sessionKey toolName result =>
    rw [act, recordToolFeedback]
    split
    · exact Or.inr rfl
    · split
      · exact dirty_learn py cfg
      · split
        · exact Or.inl rfl
        · exact Or.inr rfl
  | recordUserFeedback now sessionKey userMessage previousAssistant actorKey =>
    rw [act, recordUserFeedback]
    split
    · exact Or.inr rfl
    · split
      · exact Or.inr rfl
      · exact dirty_learn py cfg
  | compactLessons now maxLessons => exact dirty_compactLessons cfg
  | updateLifecycleStates now =>
    rw [act, updateLifecycleStates]
    cases hany : s.lessons.any fun l => nextState cfg now l != l.state with
    | true => exact Or.inl (Bool.or_true _)
    | false =>
      have hsame : (s.lessons.map fun l => { l with state := nextState cfg now l }) = s.lessons := by
        refine map_self fun l hl => ?_
        have hstate : nextState cfg now l = l.state := by
          by_contra hne
          have htrue : (s.lessons.any fun l => nextState cfg now l != l.state) = true :=
            any_eq_true.mpr ⟨l, hl, bne_iff_ne.mpr hne⟩
          rw [hany] at htrue
          cases htrue
        rw [hstate]
      rw [hsame, Bool.or_false]
      exact Or.inr rfl
  | flush => exact absurd rfl hflush
  | load => exact absurd rfl hload
  | setEnabled now lessonId enabled =>
    rw [act, setEnabled]
    split
    · exact Or.inr rfl
    · exact Or.inl rfl
  | unlearnById now lessonId =>
    rw [act, unlearnById]
    cases hany : s.lessons.any (matchesId lessonId) with
    | true => exact Or.inl (Bool.or_true _)
    | false =>
      rw [updateFirst_none hany, Bool.or_false]
      exact Or.inr rfl
  | unlearnByKeyword now keyword =>
    rw [act, unlearnByKeyword]
    cases hany : s.lessons.any (matchesKeyword py keyword) with
    | true => exact Or.inl (Bool.or_true _)
    | false =>
      have hsame : (s.lessons.map fun l => if matchesKeyword py keyword l then archive now l else l) =
          s.lessons := by
        refine map_self fun l hl => if_neg fun hmatch => ?_
        rw [any_eq_true.mpr ⟨l, hl, hmatch⟩] at hany
        cases hany
      rw [hsame, Bool.or_false]
      exact Or.inr rfl

theorem saved_act {op : Op} (h : Saved py s)
    (hquiet : Quiet py cfg key s op) : Saved py (act py cfg s op) := by
  by_cases hflush : op = .flush
  · subst hflush
    rw [act, flush]
    rcases h with hdirty | hfile | ⟨rows, hfile, hrows⟩
    · exact Or.inr (Or.inl (if_pos hdirty))
    · right
      left
      show (if s.dirty = true then _ else _) = _
      rw [hfile, ite_self]
    · right
      by_cases hdirty : s.dirty = true
      · exact Or.inl (if_pos hdirty)
      · exact Or.inr ⟨rows, (if_neg hdirty).trans hfile, hrows⟩
  by_cases hload : op = .load
  · subst hload
    rw [act, load]
    rcases h with hdirty | hfile | ⟨rows, hfile, hrows⟩
    · rw [(hquiet.loads rfl).1] at hdirty
      cases hdirty
    · rw [hfile]
      exact Or.inr (Or.inr ⟨_, rfl, rfl⟩)
    · rw [hfile]
      exact Or.inr (Or.inr ⟨rows, rfl, rfl⟩)
  · rcases dirty_act py cfg (s := s) hflush hload with hdirty | hsame
    · exact Or.inl hdirty
    · rw [hsame]
      exact h

theorem keeps_load (h : Saved py s) (hdirty : s.dirty = false)
    (hkeys : ∀ l ∈ s.lessons, ∀ l', loadLesson py l = some l' → l'.key = l.key) :
    Keeps key s.lessons (s.load py).lessons := by
  have hrows : ∀ {rows : List Lesson}, s.file = some rows →
      (s.load py).lessons = rows.filterMap (loadLesson py) := by
    intro rows hfile
    rw [load, hfile]
  rcases h with hmarked | hfile | ⟨rows, hfile, hlessons⟩
  · rw [hdirty] at hmarked
    cases hmarked
  · intro l' hl' hkey
    rw [hrows hfile] at hl'
    obtain ⟨l, hl, hread⟩ := mem_filterMap.mp hl'
    refine ⟨l, hl, (hkeys l hl l' hread) ▸ hkey, fun hhidden => ?_⟩
    unfold loadLesson at hread
    dsimp only at hread
    split at hread
    · cases hread
    · cases hread
      exact hhidden
  · rw [hrows hfile, ← hlessons]
    exact Keeps.refl key s.lessons

theorem nextState_archived {now : Now} {l : Lesson} (h : l.state = .archived) :
    nextState cfg now l = .archived := by
  unfold nextState
  dsimp only
  rw [if_pos (Or.inl h)]
  exact h

/-- **A quiet operation keeps the lessons of the key hidden.** -/
theorem keeps_act {op : Op} (hsaved : Saved py s)
    (hstored : ∃ l ∈ s.lessons, l.key = key) (hquiet : Quiet py cfg key s op) :
    Keeps key s.lessons (act py cfg s op).lessons := by
  cases hobs : op.observation py cfg with
  | some p =>
    obtain ⟨now, o⟩ := p
    rw [act_observation py cfg hobs]
    exact keeps_learn py cfg s now o hstored (hquiet.notPromoted now o hobs)
  | none =>
    cases op with
    | learn now o => cases hobs
    | recordToolFeedback now sessionKey toolName result =>
      rw [Op.observation] at hobs
      rw [act, recordToolFeedback]
      split
      · exact Keeps.refl key s.lessons
      · split
        · rename_i herror
          rw [if_pos herror] at hobs
          cases hobs
        · split
          · exact Keeps.updateFirst (fun _ => rfl) fun l _ _ hhidden => hhidden
          · exact Keeps.refl key s.lessons
    | recordUserFeedback now sessionKey userMessage previousAssistant actorKey =>
      have hnone := Option.map_eq_none_iff.mp hobs
      rw [act, recordUserFeedback, hnone]
      dsimp only
      split <;> exact Keeps.refl key s.lessons
    | compactLessons now maxLessons =>
      exact Keeps.of_subset (compactLessons_subset cfg s now maxLessons)
    | updateLifecycleStates now =>
      refine Keeps.map (fun _ => rfl) fun l _ hhidden => ?_
      rcases hhidden with hoff | harchived
      · exact Or.inl hoff
      · exact Or.inr (nextState_archived cfg harchived)
    | flush => exact Keeps.refl key s.lessons
    | load => exact keeps_load py hsaved (hquiet.loads rfl).1 (hquiet.loads rfl).2
    | setEnabled now lessonId enabled =>
      rw [act, setEnabled]
      split
      · exact Keeps.refl key s.lessons
      · refine Keeps.updateFirst (fun _ => rfl) fun l hl hkey _ => ?_
        cases enabled with
        | false => exact Or.inl rfl
        | true => exact absurd hkey (hquiet.notEnabled now lessonId rfl l hl)
    | unlearnById now lessonId =>
      exact Keeps.updateFirst (fun _ => rfl) fun l _ _ _ => Or.inl rfl
    | unlearnByKeyword now keyword =>
      refine Keeps.map (fun l => ?_) fun l _ hhidden => ?_
      · split <;> rfl
      · split
        · exact Or.inl rfl
        · exact hhidden

/-! ## Taking a lesson back -/

/-- An operation that takes back a lesson of the key. -/
def Unlearns (s : Store) (op : Op) (key : Text) : Prop :=
  match op with
  | .setEnabled _ lessonId false =>
    strip lessonId ≠ [] ∧
      ∃ l, s.lessons.find? (fun l => decide (l.id = strip lessonId)) = some l ∧ l.key = key
  | .unlearnById _ lessonId => ∃ l, s.lessons.find? (matchesId lessonId) = some l ∧ l.key = key
  | .unlearnByKeyword _ keyword => ∃ l ∈ s.lessons, matchesKeyword py keyword l = true ∧ l.key = key
  | _ => False

theorem updateFirst_found {p : Lesson → Bool} {f : Lesson → Lesson} {ls : List Lesson} {l : Lesson}
    (hnodup : (ls.map Lesson.key).Nodup) (hfind : ls.find? p = some l) :
    f l ∈ updateFirst p f ls ∧ ∀ m ∈ updateFirst p f ls, m.key = l.key → m = f l := by
  induction ls with
  | nil => cases hfind
  | cons a ls ih =>
    obtain ⟨hnew, hrest⟩ := nodup_cons.mp hnodup
    unfold updateFirst
    by_cases hp : p a = true
    · rw [find?_cons_of_pos hp] at hfind
      cases hfind
      rw [if_pos hp]
      refine ⟨mem_cons_self, fun m hm hkey => ?_⟩
      rcases mem_cons.mp hm with rfl | hm
      · rfl
      · exact absurd (mem_map.mpr ⟨m, hm, hkey⟩) hnew
    · rw [find?_cons_of_neg hp] at hfind
      obtain ⟨hin, hall⟩ := ih hrest hfind
      rw [if_neg hp]
      refine ⟨mem_cons_of_mem a hin, fun m hm hkey => ?_⟩
      rcases mem_cons.mp hm with rfl | hm
      · exact absurd (mem_map.mpr ⟨l, mem_of_find?_eq_some hfind, hkey.symm⟩) hnew
      · exact hall m hm hkey

/-- The lessons of a key are hidden, one is there, and nothing of it is lost by saving. -/
structure Silent (key : Text) (s : Store) : Prop where
  hidden : ∀ l ∈ s.lessons, l.key = key → Hidden l
  stored : ∃ l ∈ s.lessons, l.key = key
  saved : Saved py s

theorem silent_unlearns {op : Op} {key : Text} (h : Unlearns py s op key)
    (hnodup : (s.lessons.map Lesson.key).Nodup) : Silent py key (act py cfg s op) := by
  cases op with
  | setEnabled now lessonId enabled =>
    cases enabled with
    | true => exact False.elim h
    | false =>
      obtain ⟨hid, l, hfind, rfl⟩ := h
      have hany : s.lessons.any (fun l => decide (l.id = strip lessonId)) = true := by
        have hfound := find?_some hfind
        exact any_eq_true.mpr ⟨l, mem_of_find?_eq_some hfind, hfound⟩
      have hskip : ¬ (strip lessonId = [] ∨
          s.lessons.any (fun l => decide (l.id = strip lessonId)) = false) := by
        rw [hany]
        exact not_or.mpr ⟨hid, Bool.noConfusion⟩
      obtain ⟨hin, hall⟩ := updateFirst_found
        (f := fun l => { l with enabled := false, updatedAt := now.stamp }) hnodup hfind
      rw [act, setEnabled, if_neg hskip]
      exact ⟨fun m hm hkey => Or.inl (by rw [hall m hm hkey]), ⟨_, hin, rfl⟩, Or.inl rfl⟩
  | unlearnById now lessonId =>
    obtain ⟨l, hfind, rfl⟩ := h
    have hany : s.lessons.any (matchesId lessonId) = true :=
      any_eq_true.mpr ⟨l, mem_of_find?_eq_some hfind, find?_some hfind⟩
    obtain ⟨hin, hall⟩ := updateFirst_found (f := archive now) hnodup hfind
    refine ⟨fun m hm hkey => Or.inl ?_, ⟨_, hin, rfl⟩, Or.inl ?_⟩
    · rw [hall m hm hkey]
      rfl
    · show (s.dirty || s.lessons.any (matchesId lessonId)) = true
      rw [hany, Bool.or_true]
  | unlearnByKeyword now keyword =>
    obtain ⟨l, hl, hmatch, rfl⟩ := h
    refine ⟨fun m hm hkey => ?_, ⟨archive now l, ?_, rfl⟩, Or.inl ?_⟩
    · obtain ⟨x, hx, rfl⟩ := mem_map.mp hm
      have hxkey : x.key = l.key := by
        rw [← hkey]
        split <;> rfl
      obtain rfl := inj_on_of_nodup_map hnodup hx hl hxkey
      rw [if_pos hmatch]
      exact Or.inl rfl
    · exact mem_map.mpr ⟨l, hl, if_pos hmatch⟩
    · show (s.dirty || s.lessons.any (matchesKeyword py keyword)) = true
      rw [any_eq_true.mpr ⟨l, hl, hmatch⟩, Bool.or_true]
  | _ => exact False.elim h

/-- The operations as a step function. -/
def step (s : Store) (op : Op) : Option Store := some (act py cfg s op)

theorem Silent.step {op : Op} {t : Store} (h : Silent py key s)
    (hquiet : Quiet py cfg key s op) (ht : Memory.step py cfg s op = some t) : Silent py key t := by
  cases ht
  refine ⟨fun l' hl' hkey => ?_, hquiet.stays, saved_act py cfg h.saved hquiet⟩
  obtain ⟨l, hl, hlkey, hhidden⟩ := keeps_act py cfg h.saved h.stored hquiet l' hl' hkey
  exact hhidden (h.hidden l hl hlkey)

/-! ## The lessons of a prompt -/

theorem pick_subset (n : Nat) (seen : List (Text × Text)) (ls : List Lesson) :
    pick py n seen ls ⊆ ls := by
  induction ls generalizing n seen with
  | nil => exact fun _ hl => hl
  | cons l ls ih =>
    show (if (normalizeText py l.trigger, normalizeText py l.betterAction) ∈ seen then pick py n seen ls
      else l :: if n ≤ 1 then [] else pick py (n - 1) (_ :: seen) ls) ⊆ _
    split
    · exact fun m hm => mem_cons_of_mem l (ih n seen hm)
    · intro m hm
      rcases mem_cons.mp hm with rfl | hm
      · exact mem_cons_self
      · split at hm
        · cases hm
        · exact mem_cons_of_mem l (ih _ _ hm)

theorem eligible_of_returned {Score : Type} [LinearOrder Score] {score : Lesson → Score}
    {sessionKey : Option Text} {limit : Option Nat} {l : Lesson}
    (h : l ∈ s.getLessonsForContext py cfg score sessionKey limit) :
    l ∈ s.lessons ∧ isEligible cfg sessionKey l = true := by
  unfold getLessonsForContext at h
  split at h
  · cases h
  · have hsorted := (perm_insertionSort _ _).subset (pick_subset py _ _ _ h)
    exact ⟨mem_of_mem_filter hsorted, of_mem_filter hsorted⟩

theorem not_hidden_of_eligible {sessionKey : Option Text} {l : Lesson}
    (h : isEligible cfg sessionKey l = true) : ¬ Hidden l := by
  simp only [isEligible, Bool.and_eq_true, decide_eq_true_eq] at h
  rintro (hoff | harchived)
  · rw [h.1.1.1.1] at hoff
    cases hoff
  · exact h.1.1.1.2 harchived

/-- **A lesson that was taken back stays away as long as an entry of its key is stored and nothing
switches it on; and no session gets the lesson of another.** -/
theorem unlearned_not_returned :
    (∀ (u : Store) (Score : Type) [LinearOrder Score] (score : Lesson → Score)
      (sessionKey : Option Text) (limit : Option Nat),
      ∀ l ∈ u.getLessonsForContext py cfg score sessionKey limit,
        l.scope = .session → l.sessionKey = sessionKey) ∧
    ∀ (s : Store) (op : Op) (key : Text), Unlearns py s op key →
      (s.lessons.map Lesson.key).Nodup → ∀ (ops : List Op) (t : Store),
      Steps.run (step py cfg) (act py cfg s op) ops = some t →
      Steps.GoodRun (step py cfg) (Quiet py cfg key) (act py cfg s op) ops →
      ∀ (Score : Type) [LinearOrder Score] (score : Lesson → Score) (sessionKey : Option Text)
        (limit : Option Nat),
        ∀ l ∈ t.getLessonsForContext py cfg score sessionKey limit, l.key ≠ key := by
  constructor
  · intro u Score _ score sessionKey limit l hl hscope
    have heligible := (eligible_of_returned py cfg hl).2
    simp only [isEligible, hscope, Bool.and_eq_true, Bool.or_eq_true, decide_eq_true_eq] at heligible
    rcases heligible.2 with hglobal | hown
    · cases hglobal
    · exact hown.2
  · intro s op key hunlearns hnodup ops t hrun hquiet Score _ score sessionKey limit l hl hkey
    have hsilent := Steps.goodRun_invariant (step py cfg) (Quiet py cfg key) (Silent py key)
      (fun _ _ _ h hq ht => h.step py cfg hq ht) _ t ops
      (silent_unlearns py cfg hunlearns hnodup) hrun hquiet
    obtain ⟨hstored, heligible⟩ := eligible_of_returned py cfg hl
    exact not_hidden_of_eligible cfg heligible (hsilent.hidden l hstored hkey)

/-! ## A store that learns one thing again -/

def asciiPython : Python where
  lower := fun t => t.map Char.toLower
  jsonNotOk := fun _ => false
  extractParamName := fun _ => []
  extractPathHint := fun _ => []
  summarizeBadAction := fun t => t

/-- A store of so many lessons, without promotion. -/
def storeOf (maxLessons : Nat) : Config where
  enabled := true
  maxLessonsInPrompt := 5
  minLessonConfidence := 1
  maxLessons := maxLessons
  lessonStaleDays := 30
  lessonArchiveDays := 90
  feedbackMaxMessageChars := 220
  feedbackRequirePrefix := true
  promotionEnabled := false
  promotionMinUsers := 3
  promotionTriggers := []

def noon : Now where
  stamp := ['t']
  millis := 7
  cutoff := []
  idleDays := fun _ => none

/-- What the session `s` learns for a trigger. -/
def tells (trigger : Text) (delta : Int) : Observation where
  trigger := trigger
  badAction := []
  betterAction := ['b']
  sessionKey := some ['s']
  actorKey := none
  source := ['u']
  scope := .session
  confidenceDelta := delta

def emptyStore : Store where
  lessons := []
  dirty := false
  file := none

/-- A store that has learned one lesson. -/
def oneLesson (maxLessons : Nat) : Store :=
  emptyStore.learn asciiPython (storeOf maxLessons) noon (tells ['a'] 2)

/-- Switching the lesson off. -/
def switchOff : Op := .setEnabled noon ['l', 'e', 's', 's', 'o', 'n', '_', '7', '_', '1'] false

def oneKey : Text := (tells ['a'] 2).key asciiPython

/-- Learning it once more, where nothing has made room, does not bring it back. -/
theorem learned_again_stays_away :
    ∀ l ∈ ((oneLesson 200).setEnabled noon
        ['l', 'e', 's', 's', 'o', 'n', '_', '7', '_', '1'] false |>.learn asciiPython (storeOf 200)
          noon (tells ['a'] 2)).getLessonsForContext asciiPython (storeOf 200) Lesson.hits
            (some ['s']) none, l.key ≠ oneKey := by
  refine (unlearned_not_returned asciiPython (storeOf 200)).2 (oneLesson 200) switchOff oneKey
    ⟨by decide, _, rfl, by decide⟩ (by decide) [.learn noon (tells ['a'] 2)] _ rfl
    ⟨⟨?_, ?_, ?_, ?_⟩, fun _ _ => trivial⟩ Int Lesson.hits (some ['s']) none
  · decide
  · intro now lessonId h
    cases h
  · intro now o h hpromotes
    have hoff := hpromotes.2.1
    rw [promotes] at hoff
    cases hoff
  · nofun

/-- A lesson that was switched off does not always stay away: when compaction has let it go, it is
learned anew. -/
theorem evicted_returns :
    ¬ ∀ (py : Python) (cfg : Config) (s : Store) (op : Op) (key : Text) (ops : List Op),
      Unlearns py s op key → (s.lessons.map Lesson.key).Nodup →
      (∀ o ∈ ops, ∀ now lessonId, o ≠ .setEnabled now lessonId true) →
      ∀ (score : Lesson → Int) (sessionKey : Option Text) (limit : Option Nat),
        ∀ l ∈ (ops.foldl (act py cfg) (act py cfg s op)).getLessonsForContext py cfg score sessionKey
          limit, l.key ≠ key := by
  intro h
  have hnone := h asciiPython (storeOf 1) (oneLesson 1) switchOff oneKey
    [.learn noon (tells ['c'] 1), .learn noon (tells ['a'] 2)]
    ⟨by decide, _, rfl, by decide⟩ (by decide) ?_ Lesson.hits (some ['s']) none
  · have hback : ∃ l ∈ ([.learn noon (tells ['c'] 1), .learn noon (tells ['a'] 2)].foldl
        (act asciiPython (storeOf 1)) (act asciiPython (storeOf 1) (oneLesson 1)
          switchOff)).getLessonsForContext asciiPython (storeOf 1) Lesson.hits (some ['s']) none,
        l.key = oneKey := by
      decide
    obtain ⟨l, hl, hkey⟩ := hback
    exact hnone l hl hkey
  · intro o ho now lessonId heq
    subst heq
    simp at ho

end MiqroForge.Memory
