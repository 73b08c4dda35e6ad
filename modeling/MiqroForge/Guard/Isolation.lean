import MiqroForge.Guard.Classify

/-!
Session isolation of the path classifier. Normalized absolute paths are component
lists; the classifier's text comparisons are component prefixes on them, so what
the rules accept can be said in terms of directories and ancestors.
-/

namespace MiqroForge.Guard

open PyText Paths List

/-- A normalized absolute path in comparison form: the first component is the anchor
(empty on POSIX, a drive on Windows). -/
structure HostPath (env : GuardEnv) where
  comps : List Text
  ne : comps ≠ []
  plain : ∀ c ∈ comps, Plain c
  tight : comps.length = 1 ∨ comps.getLast ne ≠ []
  normal : normStr env (join comps) = join comps

namespace HostPath
variable {env : GuardEnv}

def text (P : HostPath env) : Text := join P.comps

/-- The POSIX file system root, whose stripped text is empty. -/
def IsRoot (P : HostPath env) : Prop := P.comps = [[]]

theorem text_eq_nil_iff (P : HostPath env) : P.text = [] ↔ P.IsRoot := by
  constructor
  · intro h
    exact join_inj P.comps [[]] P.ne (by simp) P.plain (by simp [Plain]) h
  · intro h
    show join P.comps = []
    rw [h]
    rfl

theorem text_getLast? (P : HostPath env) : P.text.getLast? ≠ some '/' := by
  have hlast := P.plain _ (getLast_mem P.ne)
  have hno : (P.comps.getLast P.ne).getLast? ≠ some '/' :=
    fun h => hlast (mem_of_getLast? h)
  unfold text
  rcases P.tight with h1 | h1
  · obtain ⟨c, hc⟩ := length_eq_one_iff.mp h1
    simp only [hc, join]
    simpa [hc] using hno
  · rw [← dropLast_concat_getLast P.ne, join_getLast? _ _ h1]
    exact hno

end HostPath

/-- The text `s` names the path `P`. -/
def Denotes (env : GuardEnv) (s : Text) (P : HostPath env) : Prop :=
  rstripSlash (normStr env s) = P.text

theorem Denotes.unique {env : GuardEnv} {s : Text} {P Q : HostPath env}
    (hP : Denotes env s P) (hQ : Denotes env s Q) : P.comps = Q.comps :=
  join_inj _ _ P.ne Q.ne P.plain Q.plain (hP.symm.trans hQ)

/-! ## Comparison texts -/

section Texts
variable {env : GuardEnv}

/-- The displayed text of `P`. -/
def HostPath.shown (P : HostPath env) : Text := if P.text = [] then ['/'] else P.text

theorem pathStr_eq (s : Text) (P : HostPath env) (h : Denotes env s P) :
    pathStr env s = P.shown := by
  unfold pathStr
  rw [h]
  rfl

theorem shown_eq_iff (P : HostPath env) (cs : List Text) (hne : cs ≠ [])
    (hp : ∀ c ∈ cs, Plain c) (hroot : join cs ≠ []) (hlast : (join cs).getLast? ≠ some '/') :
    P.shown = join cs ↔ P.comps = cs := by
  unfold HostPath.shown
  split
  case isTrue h =>
    constructor
    · intro he
      rw [← he] at hlast
      simp at hlast
    · intro he
      exact absurd (he ▸ h) hroot
  case isFalse =>
    constructor
    · intro he
      exact join_inj _ _ P.ne hne P.plain hp he
    · intro he
      show join P.comps = join cs
      rw [he]

theorem shown_prefix_iff (P : HostPath env) (cs : List Text) (hne : cs ≠ [])
    (hp : ∀ c ∈ cs, Plain c) (hroot : join cs ≠ []) :
    (join cs ++ ['/']) <+: P.shown ↔ ∃ rest, rest ≠ [] ∧ P.comps = cs ++ rest := by
  unfold HostPath.shown
  split
  case isTrue h =>
    have hcomps := P.text_eq_nil_iff.mp h
    constructor
    · rintro ⟨x, hx⟩
      have := congrArg List.length hx
      have hpos := length_pos_iff.mpr hroot
      simp only [length_append, length_cons, length_nil] at this
      omega
    · rintro ⟨rest, hrest, he⟩
      rw [hcomps] at he
      have := congrArg List.length he
      have h1 := length_pos_iff.mpr hne
      have h2 := length_pos_iff.mpr hrest
      simp only [length_append, length_cons, length_nil] at this
      omega
  case isFalse =>
    constructor
    · rintro ⟨x, hx⟩
      rw [append_assoc, cons_append, nil_append] at hx
      obtain ⟨bs, hbs, he, -⟩ := join_slash_prefix cs P.comps hne hp P.plain x hx.symm
      exact ⟨bs, hbs, he⟩
    · rintro ⟨rest, hrest, he⟩
      refine ⟨join rest, ?_⟩
      rw [HostPath.text, he, join_append _ _ hne hrest]
      simp

end Texts

/-! ## The rules on directories -/

/-- The paths the host directories of `rt` name. -/
structure Layout (env : GuardEnv) (rt : RuntimePaths) where
  workspace : HostPath env
  workspace_set : ∃ w, rt.hostWorkspace = some w ∧ w ≠ [] ∧ Denotes env w workspace
  sessionFiles : Option (HostPath env)
  sessionFiles_set :
    match sessionFiles with
    | none => rt.sessionFilesDir = none
    | some S => ∃ s, rt.sessionFilesDir = some s ∧ s ≠ [] ∧ Denotes env s S

section Rules
variable {env : GuardEnv} {rt : RuntimePaths} (lay : Layout env rt)

theorem Layout.workspace_text : dirText env rt.hostWorkspace = lay.workspace.text := by
  obtain ⟨w, hw, hne, hd⟩ := lay.workspace_set
  simp only [dirText, setText, hw, Option.filter_some, decide_eq_true hne, if_true]
  exact hd

/-- `<workspace>/sessions`. -/
def Layout.sessionsDir : List Text := lay.workspace.comps ++ ["sessions".toList]

theorem Layout.sessionsDir_plain : ∀ c ∈ lay.sessionsDir, Plain c := by
  intro c hc
  rcases mem_append.mp hc with hc | hc
  · exact lay.workspace.plain c hc
  · rw [mem_singleton.mp hc]
    unfold Plain
    decide

theorem Layout.sessionsDir_text :
    join lay.sessionsDir = dirText env rt.hostWorkspace ++ sessionsSuffix := by
  rw [lay.workspace_text]
  exact join_append _ _ lay.workspace.ne (by simp)

/-- Rules 1 and 2: the workspace root or the session files dir itself. -/
def Layout.IsProtectedRoot (P : HostPath env) : Prop :=
  (¬ lay.workspace.IsRoot ∧ P.comps = lay.workspace.comps) ∨
    ∃ S ∈ lay.sessionFiles, ¬ S.IsRoot ∧ P.comps = S.comps

/-- Rules 4 to 6b: in the cwd subtree, or no system path and in an authorized root. -/
def Reached (env : GuardEnv) (rt : RuntimePaths) (P : HostPath env) : Prop :=
  under env P.shown (rstripSlash (normStr env rt.hostCwd)) = true ∨
    isSystemPath env P.shown rt = false ∧ authorizedWrite env P.shown rt = true

/-- The paths the rules accept for writing. -/
def Layout.Accepts (P : HostPath env) : Prop :=
  ¬ lay.IsProtectedRoot P ∧
    ((¬ lay.workspace.IsRoot ∧ P.comps = lay.sessionsDir ∧ rt.sessionKey env = []) ∨
      (¬ lay.workspace.IsRoot ∧
        ∃ rest, rest ≠ [] ∧ P.comps = lay.sessionsDir ++ rt.sessionKey env :: rest) ∨
      ((lay.workspace.IsRoot ∨ ¬ lay.sessionsDir <+: P.comps) ∧ Reached env rt P))

theorem shown_eq_text_iff (P Q : HostPath env) (hQ : ¬ Q.IsRoot) :
    P.shown = Q.text ↔ P.comps = Q.comps :=
  shown_eq_iff P Q.comps Q.ne Q.plain (fun h => hQ (Q.text_eq_nil_iff.mp h)) Q.text_getLast?

variable (P : HostPath env)

theorem Layout.protectedRoot_iff :
    lay.IsProtectedRoot P ↔
      (dirText env rt.hostWorkspace ≠ [] ∧ P.shown = dirText env rt.hostWorkspace) ∨
        (dirText env rt.sessionFilesDir ≠ [] ∧ P.shown = dirText env rt.sessionFilesDir) := by
  unfold IsProtectedRoot
  apply or_congr
  · rw [lay.workspace_text, ne_eq, lay.workspace.text_eq_nil_iff]
    exact and_congr_right fun h => (shown_eq_text_iff P _ h).symm
  · have hset := lay.sessionFiles_set
    cases hS : lay.sessionFiles with
    | none =>
      rw [hS] at hset
      simp only [] at hset
      simp [hset, dirText, setText]
    | some S =>
      rw [hS] at hset
      obtain ⟨s, hs, hne, hd⟩ := hset
      have ht : dirText env rt.sessionFilesDir = S.text := by
        simp only [dirText, setText, hs, Option.filter_some, decide_eq_true hne, if_true]
        exact hd
      rw [ht, ne_eq, S.text_eq_nil_iff]
      simp only [Option.mem_def, Option.some.injEq, exists_eq_left']
      exact and_congr_right fun h => (shown_eq_text_iff P _ h).symm

theorem sessionsSuffix_last : sessionsSuffix.getLast? = some 's' := by decide

theorem Layout.sessionsDir_last : (join lay.sessionsDir).getLast? ≠ some '/' := by
  rw [lay.sessionsDir_text, getLast?_append, sessionsSuffix_last]
  simp

theorem Layout.sessions_ne : join lay.sessionsDir ≠ [] := by
  intro h
  have hlen := congrArg List.length (lay.sessionsDir_text.symm.trans h)
  rw [length_append, show sessionsSuffix.length = 9 by decide, length_nil] at hlen
  omega

theorem Layout.below_sessions_iff :
    atOrBelow P.shown (join lay.sessionsDir) = true ↔ lay.sessionsDir <+: P.comps := by
  have hne : lay.sessionsDir ≠ [] := by simp [Layout.sessionsDir]
  unfold atOrBelow
  rw [Bool.or_eq_true, beq_iff_eq, isPrefixOf_iff_prefix,
    shown_eq_iff P _ hne lay.sessionsDir_plain lay.sessions_ne lay.sessionsDir_last,
    shown_prefix_iff P _ hne lay.sessionsDir_plain lay.sessions_ne]
  constructor
  · rintro (h | ⟨rest, -, h⟩)
    · exact h ▸ prefix_refl _
    · exact ⟨rest, h.symm⟩
  · rintro ⟨rest, h⟩
    rcases rest with - | ⟨k, rest⟩
    · exact Or.inl (by rw [← h, append_nil])
    · exact Or.inr ⟨k :: rest, by simp, h.symm⟩

theorem Layout.shown_below (k : Text) (rest : List Text)
    (h : P.comps = lay.sessionsDir ++ k :: rest) :
    P.shown = join lay.sessionsDir ++ '/' :: join (k :: rest) := by
  have hroot : P.text ≠ [] := by
    rw [ne_eq, P.text_eq_nil_iff]
    intro hr
    have hlen := congrArg List.length (h.symm.trans hr)
    simp only [Layout.sessionsDir, length_append, length_cons, length_nil] at hlen
    omega
  unfold HostPath.shown
  rw [if_neg hroot, HostPath.text, h]
  exact join_append _ _ (by simp [Layout.sessionsDir]) (by simp)

theorem classifyResolved_ok (pstr : Text) (forWrite : Bool) (d : Text)
    (h : classifyResolved env pstr rt forWrite = .ok d) : d = pstr := by
  unfold classifyResolved at h
  simp only [] at h
  repeat' split at h
  all_goals first
    | exact (Classified.ok.inj h).symm
    | cases h

theorem Layout.sessions_rule (h : lay.sessionsDir <+: P.comps) :
    (rt.sessionKey env = firstPart (P.shown.drop ((join lay.sessionsDir).length + 1)) ∧
        P.shown ≠ join lay.sessionsDir ++
          '/' :: firstPart (P.shown.drop ((join lay.sessionsDir).length + 1))) ↔
      (P.comps = lay.sessionsDir ∧ rt.sessionKey env = []) ∨
        ∃ rest, rest ≠ [] ∧ P.comps = lay.sessionsDir ++ rt.sessionKey env :: rest := by
  obtain ⟨below, hbelow⟩ := h
  rcases below with - | ⟨k, rest⟩
  · rw [append_nil] at hbelow
    have hshown : P.shown = join lay.sessionsDir :=
      (shown_eq_iff P _ (by simp [Layout.sessionsDir]) lay.sessionsDir_plain lay.sessions_ne
        lay.sessionsDir_last).mpr hbelow.symm
    have hdrop : P.shown.drop ((join lay.sessionsDir).length + 1) = [] := by
      rw [hshown]
      exact drop_eq_nil_of_le (by omega)
    rw [hdrop, hshown]
    constructor
    · rintro ⟨hk, -⟩
      exact Or.inl ⟨hbelow.symm, hk⟩
    · rintro (⟨-, hk⟩ | ⟨rest, -, hr⟩)
      · refine ⟨hk, fun he => ?_⟩
        have := congrArg List.length he
        simp [firstPart] at this
      · have := congrArg List.length (hbelow.trans hr)
        simp at this
  · have hshown := lay.shown_below P k rest hbelow.symm
    have hk : Plain k := P.plain k (by rw [← hbelow]; simp)
    have hdrop : P.shown.drop ((join lay.sessionsDir).length + 1) = join (k :: rest) := by
      rw [hshown, drop_append, drop_eq_nil_of_le (by omega)]
      simp
    rw [hdrop, firstPart_join k rest hk, hshown]
    have hne : P.comps ≠ lay.sessionsDir := by
      rw [← hbelow]
      simp
    constructor
    · rintro ⟨hkey, hrest⟩
      right
      refine ⟨rest, ?_, by rw [hkey, hbelow]⟩
      rintro rfl
      exact hrest rfl
    · rintro (⟨he, -⟩ | ⟨rest', hne', he⟩)
      · exact absurd he hne
      · have hcons := append_cancel_left (hbelow.trans he)
        obtain ⟨hkk, rfl⟩ := List.cons.inj hcons
        refine ⟨hkk.symm, fun heq => ?_⟩
        obtain ⟨d, ds, rfl⟩ := exists_cons_of_ne_nil hne'
        have := congrArg List.length heq
        simp [join_cons_cons] at this

/-- **The rules on directories.** -/
theorem Layout.accepts_iff :
    classifyResolved env P.shown rt true = .ok P.shown ↔ lay.Accepts P := by
  have hroot := lay.protectedRoot_iff P
  have hws : dirText env rt.hostWorkspace ≠ [] ↔ ¬ lay.workspace.IsRoot := by
    rw [lay.workspace_text, ne_eq, lay.workspace.text_eq_nil_iff]
  have hbelow := lay.below_sessions_iff P
  have hrule := lay.sessions_rule P
  rw [lay.sessionsDir_text] at hbelow hrule
  unfold classifyResolved Layout.Accepts
  simp only [if_true, true_and, Bool.not_true, Bool.false_eq_true, if_false]
  by_cases h1 : dirText env rt.hostWorkspace ≠ [] ∧ P.shown = dirText env rt.hostWorkspace
  · have hp := hroot.mpr (Or.inl h1)
    rw [if_pos h1]
    simp [hp]
  by_cases h2 : dirText env rt.sessionFilesDir ≠ [] ∧ P.shown = dirText env rt.sessionFilesDir
  · have hp := hroot.mpr (Or.inr h2)
    rw [if_neg h1, if_pos h2]
    simp [hp]
  have hp : ¬ lay.IsProtectedRoot P := fun h => (hroot.mp h).elim h1 h2
  rw [if_neg h1, if_neg h2, and_iff_right hp]
  by_cases h3 : dirText env rt.hostWorkspace ≠ [] ∧
      atOrBelow P.shown (dirText env rt.hostWorkspace ++ sessionsSuffix) = true
  · have hb := hbelow.mp h3.2
    have hw := hws.mp h3.1
    rw [if_pos h3]
    simp only [hw, hb, not_true, or_self, false_and, or_false, not_false_iff, true_and]
    rw [← hrule hb]
    split
    case isTrue hk => exact iff_of_false Classified.noConfusion fun h => hk h.1.symm
    case isFalse hk =>
      rw [ne_eq, not_not] at hk
      split
      case isTrue hs => exact iff_of_false Classified.noConfusion fun h => h.2 hs
      case isFalse hs => exact iff_of_true rfl ⟨hk.symm, hs⟩
  · rw [if_neg h3]
    have hout : lay.workspace.IsRoot ∨ ¬ lay.sessionsDir <+: P.comps := by
      by_contra hc
      rw [not_or, not_not] at hc
      exact h3 ⟨hws.mpr hc.1, hbelow.mpr hc.2⟩
    have hno1 : ¬ (¬ lay.workspace.IsRoot ∧ P.comps = lay.sessionsDir ∧
        rt.sessionKey env = []) := by
      rintro ⟨hw, he, -⟩
      exact hout.elim hw fun hn => hn (he ▸ prefix_refl _)
    have hno2 : ¬ (¬ lay.workspace.IsRoot ∧
        ∃ rest, rest ≠ [] ∧ P.comps = lay.sessionsDir ++ rt.sessionKey env :: rest) := by
      rintro ⟨hw, rest, -, he⟩
      exact hout.elim hw fun hn => hn ⟨_, he.symm⟩
    simp only [hno1, hno2, false_or, hout, true_and]
    unfold Reached
    by_cases h4 : under env P.shown (rstripSlash (normStr env rt.hostCwd)) = true
    · simp [h4]
    by_cases h6 : isSystemPath env P.shown rt = true
    · simp [h4, h6]
    by_cases h7 : authorizedWrite env P.shown rt = true
    · simp [h4, h6, h7]
    · simp only [h4, h6, h7, Bool.false_eq_true, if_false, and_false, or_self, iff_false]
      split <;> simp

/-! ## Isolation -/

/-- `ws/sessions/k` is another session's: the session files dir does not lie in it. -/
def Layout.IsOther (k : Text) : Prop :=
  ∀ S ∈ lay.sessionFiles, ¬ (lay.sessionsDir ++ [k]) <+: S.comps

/-- Neither at or above a protected directory nor in another session's. -/
structure Layout.Isolated (P : HostPath env) : Prop where
  workspace : ¬ P.comps <+: lay.workspace.comps
  sessions : ¬ P.comps <+: lay.sessionsDir
  sessionFiles : ∀ S ∈ lay.sessionFiles, ¬ P.comps <+: S.comps
  others : ∀ k, Plain k → lay.IsOther k →
    ¬ P.comps <+: lay.sessionsDir ++ [k] ∧ ¬ (lay.sessionsDir ++ [k]) <+: P.comps

/-- At or above the session files dir. -/
def Layout.AboveFiles (P : HostPath env) : Prop := ∃ S ∈ lay.sessionFiles, P.comps <+: S.comps

/-- The paths that get through the rules although they are not isolated: the sessions
directory when there is no session key; a path below the directory the session key names,
when it lies above the session files dir or that directory is another session's; an ancestor of
the workspace or of the session files dir that rules 4 to 6b reach; and, in a workspace that is
the file system root, whatever they reach. -/
def Layout.Exposed (P : HostPath env) : Prop :=
  isAuthorizedRootItself env P.shown rt = false ∧ ¬ lay.IsProtectedRoot P ∧
    ((¬ lay.workspace.IsRoot ∧ P.comps = lay.sessionsDir ∧ rt.sessionKey env = []) ∨
      (¬ lay.workspace.IsRoot ∧
        (∃ rest, rest ≠ [] ∧ P.comps = lay.sessionsDir ++ rt.sessionKey env :: rest) ∧
        (lay.AboveFiles P ∨ lay.IsOther (rt.sessionKey env))) ∨
      (¬ lay.workspace.IsRoot ∧ ¬ lay.sessionsDir <+: P.comps ∧ Reached env rt P ∧
        (P.comps <+: lay.workspace.comps ∨ lay.AboveFiles P)) ∨
      (lay.workspace.IsRoot ∧ Reached env rt P ∧
        (P.comps <+: lay.sessionsDir ∨ lay.AboveFiles P ∨
          ∃ k, Plain k ∧ lay.IsOther k ∧ (lay.sessionsDir ++ [k]) <+: P.comps)))

theorem prefix_snoc {l m : List Text} {c : Text} (h : l <+: m ++ [c]) : l = m ++ [c] ∨ l <+: m :=
  prefix_concat_iff.mp h

theorem Layout.not_isolated_iff :
    ¬ lay.Isolated P ↔ P.comps <+: lay.sessionsDir ∨ lay.AboveFiles P ∨
      ∃ k, Plain k ∧ lay.IsOther k ∧ (lay.sessionsDir ++ [k]) <+: P.comps := by
  constructor
  · intro h
    by_contra hc
    simp only [not_or, Layout.AboveFiles, not_exists, not_and] at hc
    obtain ⟨h1, h2, h3⟩ := hc
    apply h
    refine ⟨fun hw => h1 (hw.trans (prefix_append _ _)), h1, h2, ?_⟩
    intro k hk ho
    refine ⟨fun hp => ?_, h3 k hk ho⟩
    rcases prefix_snoc hp with he | hp
    · exact h3 k hk ho (he ▸ prefix_refl _)
    · exact h1 hp
  · rintro (h | ⟨S, hS, h⟩ | ⟨k, hk, ho, h⟩) hi
    · exact hi.sessions h
    · exact hi.sessionFiles S hS h
    · exact (hi.others k hk ho).2 h

/-- **Which accepted paths are not isolated.** -/
theorem Layout.exposed_iff :
    lay.Exposed P ↔ isAuthorizedRootItself env P.shown rt = false ∧ lay.Accepts P ∧
      ¬ lay.Isolated P := by
  unfold Layout.Exposed Layout.Accepts
  rw [lay.not_isolated_iff]
  constructor
  · rintro ⟨hr, hp, ⟨hw, he, hk⟩ | ⟨hw, ⟨rest, hne, he⟩, hx⟩ | ⟨hw, hs, hreach, hx⟩ |
      ⟨hw, hreach, hx⟩⟩
    · exact ⟨hr, ⟨hp, Or.inl ⟨hw, he, hk⟩⟩, Or.inl (he ▸ prefix_refl _)⟩
    · refine ⟨hr, ⟨hp, Or.inr (Or.inl ⟨hw, rest, hne, he⟩)⟩, ?_⟩
      rcases hx with hx | hx
      · exact Or.inr (Or.inl hx)
      · refine Or.inr (Or.inr ⟨rt.sessionKey env, P.plain _ (by rw [he]; simp), hx, rest, ?_⟩)
        rw [he, append_assoc]
        rfl
    · refine ⟨hr, ⟨hp, Or.inr (Or.inr ⟨Or.inr hs, hreach⟩)⟩, ?_⟩
      rcases hx with hx | hx
      · exact Or.inl (hx.trans (prefix_append _ _))
      · exact Or.inr (Or.inl hx)
    · exact ⟨hr, ⟨hp, Or.inr (Or.inr ⟨Or.inl hw, hreach⟩)⟩, hx⟩
  · rintro ⟨hr, ⟨hp, hacc⟩, hbad⟩
    refine ⟨hr, hp, ?_⟩
    by_cases hw : lay.workspace.IsRoot
    · rcases hacc with ⟨hn, -⟩ | ⟨hn, -⟩ | ⟨-, hreach⟩
      · exact absurd hw hn
      · exact absurd hw hn
      · exact Or.inr (Or.inr (Or.inr ⟨hw, hreach, hbad⟩))
    rcases hacc with h | ⟨-, rest, hne, he⟩ | ⟨ho, hreach⟩
    · exact Or.inl h
    · refine Or.inr (Or.inl ⟨hw, ⟨rest, hne, he⟩, ?_⟩)
      rcases hbad with hx | hx | ⟨k, hk, hother, hx⟩
      · have hlen := hx.length_le
        rw [he] at hlen
        simp only [length_append, length_cons] at hlen
        omega
      · exact Or.inl hx
      · right
        obtain ⟨t, ht⟩ := hx
        rw [he, append_assoc] at ht
        have hcons := append_cancel_left ht
        obtain ⟨rfl, -⟩ := List.cons.inj hcons
        exact hother
    · have hs : ¬ lay.sessionsDir <+: P.comps := ho.resolve_left hw
      refine Or.inr (Or.inr (Or.inl ⟨hw, hs, hreach, ?_⟩))
      rcases hbad with hx | hx | ⟨k, -, -, hx⟩
      · rcases prefix_snoc hx with he | hx
        · exact absurd (he ▸ prefix_refl _) hs
        · exact Or.inl hx
      · exact Or.inr hx
      · exact absurd ((prefix_append _ _).trans hx) hs

end Rules

/-! ## From operand texts to paths -/

/-- The path `_classify_operand` resolves in host execution, and whether it is relative. -/
def hostTarget (env : GuardEnv) (rt : RuntimePaths) (raw : Text) : Option (Bool × Text) :=
  let text := operandText raw
  if text = [] then none
  else if isExpansion text then none
  else if !isWinAbs text && text.any (· == '\\') then none
  else if isWinAbs text then some (false, text)
  else
    match if text.head? = some '~' then expandTilde env text rt else some text with
    | none => none
    | some t =>
      match driveForm t with
      | some p => some (false, p)
      | none => some (t.head? != some '/', t)

theorem classifyOperand_host (env : GuardEnv) (rt : RuntimePaths) (raw : Text) (forWrite : Bool)
    (hhost : rt.sandboxActive = false) :
    classifyOperand env raw rt forWrite =
      match hostTarget env rt raw with
      | none => .refused .uncertainPath (operandText raw)
      | some (relative, path) => classifyHost env path rt forWrite relative := by
  have hexp : ∀ t, classifyExpanded env t rt forWrite =
      match driveForm t with
      | some p => classifyHost env p rt forWrite false
      | none => classifyHost env t rt forWrite (t.head? != some '/') := by
    intro t
    unfold classifyExpanded
    simp only [hhost, Bool.false_eq_true, if_false]
    cases driveForm t with
    | some p => rfl
    | none =>
      by_cases h : t.head? = some '/'
      · simp [h]
      · simp [h, bne, beq_eq_false_iff_ne.mpr h]
  have hdrive : ∀ t, (match (match driveForm t with
        | some p => some (false, p)
        | none => some (t.head? != some '/', t)) with
      | none => Classified.refused .uncertainPath (operandText raw)
      | some (relative, path) => classifyHost env path rt forWrite relative) =
        classifyExpanded env t rt forWrite := by
    intro t
    rw [hexp]
    cases driveForm t <;> rfl
  unfold classifyOperand hostTarget
  simp only []
  by_cases h1 : operandText raw = []
  · rw [if_pos h1, if_pos h1]
  rw [if_neg h1, if_neg h1]
  by_cases h2 : isExpansion (operandText raw) = true
  · rw [if_pos h2, if_pos h2]
  rw [if_neg h2, if_neg h2]
  by_cases h3 : (!isWinAbs (operandText raw) && (operandText raw).any (· == '\\')) = true
  · rw [if_pos h3, if_pos h3]
  rw [if_neg h3, if_neg h3]
  by_cases h4 : isWinAbs (operandText raw) = true
  · rw [if_pos h4, if_pos h4]
  rw [if_neg h4, if_neg h4]
  by_cases h5 : (operandText raw).head? = some '~'
  · rw [if_pos h5, if_pos h5]
    cases expandTilde env (operandText raw) rt with
    | none => rfl
    | some t => exact (hdrive t).symm
  · rw [if_neg h5, if_neg h5]
    exact (hdrive _).symm

/-- The operand resolves to `P`. -/
def Resolves (env : GuardEnv) (rt : RuntimePaths) (raw : Text) (P : HostPath env) : Prop :=
  ∃ relative path s, hostTarget env rt raw = some (relative, path) ∧
    env.resolve (if relative then some rt.hostCwd else none) path = some s ∧ Denotes env s P

/-- Resolution returns normalized absolute paths. -/
def ResolvesNormal (env : GuardEnv) : Prop :=
  ∀ base path s, env.resolve base path = some s → ∃ P : HostPath env, Denotes env s P

theorem classify_resolved (env : GuardEnv) (rt : RuntimePaths) (raw : Text) (P : HostPath env)
    (hhost : rt.sandboxActive = false) (h : Resolves env rt raw P) :
    classifyOperand env raw rt true = classifyResolved env P.shown rt true := by
  obtain ⟨relative, path, s, ht, hs, hd⟩ := h
  rw [classifyOperand_host env rt raw true hhost, ht]
  simp only [classifyHost, hs]
  rw [pathStr_eq s P hd]

theorem resolves_of_ok (env : GuardEnv) (hres : ResolvesNormal env) (rt : RuntimePaths)
    (raw display : Text) (hhost : rt.sandboxActive = false)
    (h : classifyOperand env raw rt true = .ok display) : ∃ P, Resolves env rt raw P := by
  rw [classifyOperand_host env rt raw true hhost] at h
  cases ht : hostTarget env rt raw with
  | none =>
    rw [ht] at h
    cases h
  | some target =>
    obtain ⟨relative, path⟩ := target
    rw [ht] at h
    simp only [classifyHost] at h
    cases hs : env.resolve (if relative then some rt.hostCwd else none) path with
    | none =>
      rw [hs] at h
      cases h
    | some s =>
      obtain ⟨P, hP⟩ := hres _ _ _ hs
      exact ⟨P, relative, path, s, ht, hs, hP⟩

theorem Resolves.unique {env : GuardEnv} {rt : RuntimePaths} {raw : Text} {P Q : HostPath env}
    (hP : Resolves env rt raw P) (hQ : Resolves env rt raw Q) : P.comps = Q.comps := by
  obtain ⟨r, p, s, ht, hs, hd⟩ := hP
  obtain ⟨r', p', s', ht', hs', hd'⟩ := hQ
  rw [ht, Option.some.injEq, Prod.mk.injEq] at ht'
  obtain ⟨rfl, rfl⟩ := ht'
  rw [hs, Option.some.injEq] at hs'
  subst hs'
  exact hd.unique hd'

/-- **Session isolation of an accepted delete.** An operand that the classifier accepts for
writing, and that is no authorized root itself, names an isolated path iff it resolves to no
exposed one. -/
theorem delete_isolated_iff (env : GuardEnv) (hres : ResolvesNormal env) (rt : RuntimePaths)
    (hhost : rt.sandboxActive = false) (lay : Layout env rt) (raw : Text) :
    (∀ display, classifyOperand env raw rt true = .ok display →
        isAuthorizedRootItself env display rt = false →
        ∃ P, Resolves env rt raw P ∧ lay.Isolated P) ↔
      ∀ P, Resolves env rt raw P → ¬ lay.Exposed P := by
  constructor
  · intro h P hP hexp
    obtain ⟨hroot, hacc, hbad⟩ := (lay.exposed_iff P).mp hexp
    have hok := (classify_resolved env rt raw P hhost hP).trans ((lay.accepts_iff P).mpr hacc)
    obtain ⟨Q, hQ, hiso⟩ := h _ hok hroot
    apply hbad
    obtain ⟨h1, h2, h3, h4⟩ := hiso
    rw [← hP.unique hQ] at h1 h2
    refine ⟨h1, h2, fun S hS => ?_, fun k hk ho => ?_⟩
    · rw [hP.unique hQ]
      exact h3 S hS
    · rw [hP.unique hQ]
      exact h4 k hk ho
  · intro h display hok hroot
    obtain ⟨P, hP⟩ := resolves_of_ok env hres rt raw display hhost hok
    refine ⟨P, hP, ?_⟩
    by_contra hbad
    rw [classify_resolved env rt raw P hhost hP] at hok
    obtain rfl := classifyResolved_ok _ _ _ hok
    exact h P hP ((lay.exposed_iff P).mpr ⟨hroot, (lay.accepts_iff P).mp hok, hbad⟩)

/-! ## Two layouts -/

instance (c : Text) : Decidable (Plain c) := inferInstanceAs (Decidable ('/' ∉ c))

/-- A POSIX host that can resolve the given absolute paths only. -/
def posixEnv (known : List Text) : GuardEnv where
  lower_slash := id_slash
  resolve := fun _ path => if path ∈ known then some path else none

def filesDir : Text := "/ws/sessions/k/files".toList

def outDir : Text := "/ws/sessions/k/files/out".toList

/-- A session in the workspace `/ws`. -/
def inSession : RuntimePaths :=
  { hostCwd := filesDir, hostWorkspace := some "/ws".toList, sessionFilesDir := some filesDir }

/-- The workspace `/ws` without a session. -/
def noSession : RuntimePaths := { hostCwd := "/x".toList, hostWorkspace := some "/ws".toList }

def posixPath (known : List Text) (comps : List String) (ne : comps.map String.toList ≠ [])
    (plain : ∀ c ∈ comps.map String.toList, Plain c)
    (tight : (comps.map String.toList).getLast ne ≠ [])
    (normal : (join (comps.map String.toList)).map (fun c => if c = '\\' then '/' else c) =
      join (comps.map String.toList)) : HostPath (posixEnv known) where
  comps := comps.map String.toList
  ne := ne
  plain := plain
  tight := Or.inr tight
  normal := normal

def inSessionLayout : Layout (posixEnv [outDir]) inSession where
  workspace := posixPath _ ["", "ws"] (by decide) (by decide) (by decide) (by decide)
  workspace_set := ⟨_, rfl, by decide, by unfold Denotes; decide⟩
  sessionFiles := some (posixPath _ ["", "ws", "sessions", "k", "files"] (by decide) (by decide)
    (by decide) (by decide))
  sessionFiles_set := ⟨_, rfl, by decide, by unfold Denotes; decide⟩

def noSessionLayout : Layout (posixEnv ["/ws/sessions".toList]) noSession where
  workspace := posixPath _ ["", "ws"] (by decide) (by decide) (by decide) (by decide)
  workspace_set := ⟨_, rfl, by decide, by unfold Denotes; decide⟩
  sessionFiles := none
  sessionFiles_set := rfl

theorem delete_isolated_iff_inSession : (∃ P, Resolves (posixEnv [outDir]) inSession outDir P) ∧
    ((∀ display, classifyOperand (posixEnv [outDir]) outDir inSession true = .ok display →
        isAuthorizedRootItself (posixEnv [outDir]) display inSession = false →
        ∃ P, Resolves (posixEnv [outDir]) inSession outDir P ∧ inSessionLayout.Isolated P) ↔
      ∀ P, Resolves (posixEnv [outDir]) inSession outDir P → ¬ inSessionLayout.Exposed P) := by
  let P : HostPath (posixEnv [outDir]) := posixPath _ ["", "ws", "sessions", "k", "files", "out"]
    (by decide) (by decide) (by decide) (by decide)
  have hden : Denotes (posixEnv [outDir]) outDir P := by
    unfold Denotes
    decide
  refine ⟨⟨P, false, outDir, outDir, by decide, by decide, hden⟩, ?_⟩
  apply delete_isolated_iff
  · intro base path s h
    simp only [posixEnv, List.mem_singleton] at h
    split at h
    case isTrue he => exact ⟨P, by rw [← Option.some.inj h, he]; exact hden⟩
    case isFalse => cases h
  · rfl

/-- Without a session the empty session key matches the sessions directory itself. -/
theorem noSession_exposes_sessions : ∃ P,
    Resolves (posixEnv ["/ws/sessions".toList]) noSession "/ws/sessions".toList P ∧
    classifyOperand (posixEnv ["/ws/sessions".toList]) "/ws/sessions".toList noSession true =
      .ok "/ws/sessions".toList ∧
    isAuthorizedRootItself (posixEnv ["/ws/sessions".toList]) "/ws/sessions".toList noSession =
      false ∧
    ¬ noSessionLayout.Isolated P := by
  refine ⟨posixPath _ ["", "ws", "sessions"] (by decide) (by decide) (by decide) (by decide),
    ⟨false, "/ws/sessions".toList, "/ws/sessions".toList, by decide, by decide, ?_⟩,
    by decide, by decide, ?_⟩
  · unfold Denotes
    decide
  · intro h
    exact h.sessions (List.prefix_refl _)

end MiqroForge.Guard
