import MiqroForge.Guard.Classify

/-!
What a grant can open. An operand leads to a place, on the host or inside the sandbox; the rules
there refuse a system path before they look at the authorized roots, and no root takes back what
another one opened.
-/

namespace MiqroForge.Guard

open PyText Paths List

namespace Grants

/-- Where an operand leads. -/
inductive Place where
  | host (path : Text)
  | sandbox (path : Text)
  deriving DecidableEq

/-- The resolved path. -/
def Place.text : Place → Text
  | .host path => path
  | .sandbox path => path

def accepted : Classified → Bool
  | .ok _ => true
  | .refused _ _ => false

section Env
variable (env : GuardEnv)

def hostPlace (path : Text) (rt : RuntimePaths) (relative : Bool) : Option Place :=
  (env.resolve (if relative then some rt.hostCwd else none) path).map fun p =>
    .host (pathStr env p)

/-- A path inside the sandbox; a drive that is bridged into it is of the host. -/
def sandboxPlace (path : Text) (rt : RuntimePaths) : Option Place :=
  let norm := lexNorm path
  if "/mnt/".toList.isPrefixOf norm then
    match driveForm (norm.drop mntPrefix.length) with
    | some p => hostPlace env p rt false
    | none => some (.sandbox norm)
  else some (.sandbox norm)

def expandedPlace (text : Text) (rt : RuntimePaths) : Option Place :=
  if rt.sandboxActive then
    sandboxPlace env (if text.head? = some '/' then text else lexNorm (rt.sandboxCwd ++ '/' :: text))
      rt
  else
    match driveForm text with
    | some p => hostPlace env p rt false
    | none => hostPlace env text rt (text.head? != some '/')

/-- The place an operand resolves to, nothing where its text does not say. -/
def operandPlace (raw : Text) (rt : RuntimePaths) : Option Place :=
  let text := operandText raw
  if text = [] ∨ isExpansion text ∨ (!isWinAbs text && text.any (· == '\\')) then none
  else if isWinAbs text then hostPlace env text rt false
  else if text.head? = some '~' then (expandTilde env text rt).bind fun t => expandedPlace env t rt
  else expandedPlace env text rt

/-! ## The claim's terms -/

/-- `path` is `dir` or below it. -/
def Within (dir path : Text) : Prop := path = dir ∨ ∃ rest, path = dir ++ '/' :: rest

/-- The tree of the current session; without a session there is none. -/
def InSessionTree (rt : RuntimePaths) (path : Text) : Prop :=
  dirText env rt.hostWorkspace ≠ [] ∧ rt.sessionKey env ≠ [] ∧
    Within (dirText env rt.hostWorkspace ++ sessionsSuffix ++ '/' :: rt.sessionKey env) path

def UnderCwd (rt : RuntimePaths) (path : Text) : Prop :=
  under env path (rstripSlash (normStr env rt.hostCwd)) = true

/-- The sandbox's own home and its overlays. -/
def InOverlay (path : Text) : Prop :=
  Within "/home/miqi".toList path ∨ Within "/tmp".toList path ∨ Within "/var/tmp".toList path

/-- What a session may write to without a grant. -/
def Own (rt : RuntimePaths) : Place → Prop
  | .host path => InSessionTree env rt path ∨ UnderCwd env rt path
  | .sandbox path => InOverlay path

def withRoots (rt : RuntimePaths) (roots : List Text) : RuntimePaths :=
  { rt with extraWriteRoots := roots }

/-- No grant opens a system path, and no further root closes anything. -/
structure GrantSafe (rt : RuntimePaths) (raw : Text) : Prop where
  closed : ∀ place, operandPlace env raw rt = some place → isSystemPath env place.text rt = true →
    ¬ Own env rt place → accepted (classifyOperand env raw rt true) = false
  grows : ∀ roots, rt.extraWriteRoots ⊆ roots → accepted (classifyOperand env raw rt true) = true →
    accepted (classifyOperand env raw (withRoots rt roots) true) = true

/-- Without a session, the path is `<workspace>/sessions`: no name stands behind it. -/
def Unnamed (rt : RuntimePaths) (path : Text) : Prop :=
  let ws := dirText env rt.hostWorkspace
  ws ≠ [] ∧ rt.sessionKey env = [] ∧ path ≠ dirText env rt.sessionFilesDir ∧
    Within (ws ++ sessionsSuffix) path ∧
    firstPart (path.drop ((ws ++ sessionsSuffix).length + 1)) = []

end Env

/-! ## Texts -/

theorem atOrBelow_iff (path dir : Text) : atOrBelow path dir = true ↔ Within dir path := by
  unfold atOrBelow Within
  rw [Bool.or_eq_true, beq_iff_eq, isPrefixOf_iff_prefix]
  refine or_congr_right ⟨?_, ?_⟩
  · rintro ⟨rest, rfl⟩
    exact ⟨rest, by simp⟩
  · rintro ⟨rest, rfl⟩
    exact ⟨rest, by simp⟩

theorem getLast?_rstripSlash (t : Text) : (rstripSlash t).getLast? ≠ some '/' := by
  intro h
  rw [rstripSlash, rstripBy, getLast?_reverse] at h
  have hnot := head?_dropWhile_not (· == '/') t.reverse
  rw [h] at hnot
  simp at hnot

theorem pathStr_last (env : GuardEnv) {s : Text} (hlen : 2 ≤ (pathStr env s).length) :
    (pathStr env s).getLast? ≠ some '/' := by
  unfold pathStr at hlen ⊢
  simp only at hlen ⊢
  split
  case isTrue h => simp [h] at hlen
  case isFalse => exact getLast?_rstripSlash _

theorem within_key {sessions path : Text} (hne : firstPart (path.drop (sessions.length + 1)) ≠ [])
    (h : Within sessions path) :
    Within (sessions ++ '/' :: firstPart (path.drop (sessions.length + 1))) path := by
  rcases h with rfl | ⟨rest, rfl⟩
  · simp [firstPart] at hne
  · have hdrop : (sessions ++ '/' :: rest).drop (sessions.length + 1) = rest := by
      simp [drop_append]
    rw [hdrop]
    have hsplit : firstPart rest ++ rest.dropWhile (· ≠ '/') = rest := takeWhile_append_dropWhile
    cases hafter : rest.dropWhile (· ≠ '/') with
    | nil =>
      rw [hafter, append_nil] at hsplit
      exact .inl (by rw [hsplit])
    | cons c after =>
      have hc : c = '/' := by
        have h := head?_dropWhile_not (fun c => decide (c ≠ '/')) rest
        rw [hafter] at h
        simpa using h
      rw [hafter, hc] at hsplit
      exact .inr ⟨after, by rw [append_assoc, cons_append, hsplit]⟩

/-! ## The rules on the host -/

section Host
variable {env : GuardEnv} {rt : RuntimePaths} {path : Text}

theorem ne_nil_of_within {dir path : Text} (hdir : dir ≠ []) (h : Within dir path) : path ≠ [] := by
  rcases h with rfl | ⟨rest, rfl⟩
  · exact hdir
  · simp

theorem suffix_ne : sessionsSuffix ≠ [] := by decide

theorem sessions_ne (ws : Text) : ws ++ sessionsSuffix ≠ [] :=
  append_ne_nil_of_right_ne_nil ws suffix_ne

theorem own_or_unnamed (hok : accepted (classifyResolved env path rt true) = true)
    (hsys : isSystemPath env path rt = true) :
    Own env rt (.host path) ∨ Unnamed env rt path := by
  unfold classifyResolved at hok
  simp only [hsys, Bool.not_true, if_true] at hok
  split at hok
  case isTrue => simp [accepted] at hok
  case isFalse hroot =>
    split at hok
    case isTrue => simp [accepted] at hok
    case isFalse hsess =>
      split at hok
      case isTrue htree =>
        obtain ⟨hws, hbelow⟩ := htree
        have hwithin := (atOrBelow_iff _ _).mp hbelow
        split at hok
        case isTrue => simp [accepted] at hok
        case isFalse hkey =>
          have hkey := not_ne_iff.mp hkey
          by_cases hempty : rt.sessionKey env = []
          · refine .inr ⟨hws, hempty, fun he => ?_, hwithin, hkey.trans hempty⟩
            have hpath := ne_nil_of_within (sessions_ne _) hwithin
            exact hsess ⟨he ▸ hpath, he⟩
          · refine .inl (.inl ⟨hws, hempty, ?_⟩)
            have h := within_key (hkey ▸ hempty) hwithin
            rwa [hkey] at h
      case isFalse =>
        split at hok
        case isTrue hcwd => exact .inl (.inr hcwd)
        case isFalse => simp [accepted] at hok

theorem not_own_of_unnamed (h : Unnamed env rt path) (hcwd : ¬ UnderCwd env rt path) :
    ¬ Own env rt (.host path) := by
  rintro (⟨-, hkey, -⟩ | hunder)
  · exact hkey h.2.1
  · exact hcwd hunder

theorem accepted_of_unnamed (h : Unnamed env rt path) (hlast : path.getLast? ≠ some '/') :
    accepted (classifyResolved env path rt true) = true := by
  obtain ⟨hws, hkey, hsess, hwithin, hpart⟩ := h
  have hroot : path ≠ dirText env rt.hostWorkspace := by
    rintro he
    rcases hwithin with h | ⟨rest, h⟩
    · exact suffix_ne (append_right_eq_self.mp (h.symm.trans he))
    · rw [he, append_assoc] at h
      simpa using self_eq_append_right.mp h
  have hend : path ≠ dirText env rt.hostWorkspace ++ sessionsSuffix ++ ['/'] := by
    rintro rfl
    simp at hlast
  have hbelow := (atOrBelow_iff _ _).mpr hwithin
  unfold classifyResolved
  simp only [hkey, hpart, hroot, hsess, hbelow, hend, and_false, if_false, ne_eq, hws,
    not_false_eq_true, and_self, if_true, not_true]
  rfl

variable (roots : List Text)

theorem authorizedWrite_grows (hroots : rt.extraWriteRoots ⊆ roots)
    (h : authorizedWrite env path rt = true) :
    authorizedWrite env path (withRoots rt roots) = true := by
  obtain ⟨root, hmem, hunder⟩ := any_eq_true.mp h
  exact any_eq_true.mpr ⟨root, hroots hmem, hunder⟩

@[simp] theorem withRoots_hostWorkspace :
    (withRoots rt roots).hostWorkspace = rt.hostWorkspace := rfl

@[simp] theorem withRoots_sessionFilesDir :
    (withRoots rt roots).sessionFilesDir = rt.sessionFilesDir := rfl

@[simp] theorem withRoots_hostCwd :
    (withRoots rt roots).hostCwd = rt.hostCwd := rfl

@[simp] theorem withRoots_sandboxActive :
    (withRoots rt roots).sandboxActive = rt.sandboxActive := rfl

@[simp] theorem withRoots_sandboxCwd :
    (withRoots rt roots).sandboxCwd = rt.sandboxCwd := rfl

@[simp] theorem withRoots_sessionKey :
    (withRoots rt roots).sessionKey env = rt.sessionKey env := rfl

theorem classifyResolved_grows (hroots : rt.extraWriteRoots ⊆ roots)
    (hok : accepted (classifyResolved env path rt true) = true) :
    accepted (classifyResolved env path (withRoots rt roots) true) = true := by
  have hauth : authorizedWrite env path rt = true →
    authorizedWrite env path (withRoots rt roots) = true := authorizedWrite_grows roots hroots
  unfold classifyResolved at hok ⊢
  simp only [withRoots_hostWorkspace, withRoots_sessionFilesDir, withRoots_sessionKey] at hok ⊢
  have hunder : under env path (rstripSlash (normStr env (withRoots rt roots).hostCwd)) =
    under env path (rstripSlash (normStr env rt.hostCwd)) := rfl
  have hsystem : isSystemPath env path (withRoots rt roots) = isSystemPath env path rt := rfl
  split at hok
  case isTrue => cases hok
  case isFalse hroot =>
    split at hok
    case isTrue => cases hok
    case isFalse hsess =>
      rw [if_neg hroot, if_neg hsess]
      split at hok
      case isTrue htree => rwa [if_pos htree]
      case isFalse htree =>
        rw [if_neg htree]
        split at hok
        case isTrue hcwd =>
          rw [if_pos (hunder.trans hcwd)]
          rfl
        case isFalse hcwd =>
          rw [if_neg (hunder ▸ hcwd)]
          simp only [Bool.not_true, Bool.false_eq_true, if_false] at hok ⊢
          split at hok
          case isTrue => cases hok
          case isFalse hsys =>
            rw [if_neg (hsystem ▸ hsys)]
            split at hok
            case isTrue h =>
              rw [if_pos (hauth h)]
              rfl
            case isFalse =>
              split at hok
              · cases hok
              · cases hok

variable {place : Place}

theorem classifyHost_place {relative forWrite : Bool}
    (h : hostPlace env path rt relative = some place) :
    classifyHost env path rt forWrite relative = classifyResolved env place.text rt forWrite := by
  obtain ⟨p, hp, rfl⟩ := Option.map_eq_some_iff.mp h
  simp [classifyHost, hp, Place.text]

theorem hostPlace_host {relative : Bool}
    (h : hostPlace env path rt relative = some place) :
    ∃ s, place = .host (pathStr env s) := by
  obtain ⟨p, -, rfl⟩ := Option.map_eq_some_iff.mp h
  exact ⟨p, rfl⟩

theorem classifyHost_grows {relative : Bool} (roots : List Text)
    (hroots : rt.extraWriteRoots ⊆ roots)
    (hok : accepted (classifyHost env path rt true relative) = true) :
    accepted (classifyHost env path (withRoots rt roots) true relative) = true := by
  unfold classifyHost at hok ⊢
  rw [withRoots_hostCwd]
  split at hok
  · cases hok
  · exact classifyResolved_grows roots hroots hok

/-! ## The rules inside the sandbox -/

theorem bridged_not_own {norm : Text} (h : "/mnt/".toList.isPrefixOf norm = true) :
    ¬ (norm = "/home/miqi".toList ∨ norm = "/home/miqi/workspace".toList) ∧
      ¬ "/home/miqi/".toList.isPrefixOf norm = true ∧
      ¬ (atOrBelow norm "/tmp".toList = true ∨ atOrBelow norm "/var/tmp".toList = true) := by
  obtain ⟨rest, rfl⟩ := isPrefixOf_iff_prefix.mp h
  have hhome : ("/mnt/".toList ++ rest == "/home/miqi".toList) = false := rfl
  have hwork : ("/mnt/".toList ++ rest == "/home/miqi/workspace".toList) = false := rfl
  refine ⟨?_, Bool.false_ne_true, ?_⟩
  · rintro (h | h)
    · exact beq_eq_false_iff_ne.mp hhome h
    · exact beq_eq_false_iff_ne.mp hwork h
  · rintro (h | h)
    · exact Bool.false_ne_true h
    · exact Bool.false_ne_true h

theorem classifySandboxAbs_host {p : Text} {forWrite : Bool}
    (h : sandboxPlace env path rt = some (.host p)) :
    classifySandboxAbs env path rt forWrite = classifyResolved env p rt forWrite := by
  unfold sandboxPlace at h
  simp only at h
  split at h
  case isTrue hmnt =>
    split at h
    case h_1 drive hdrive =>
      obtain ⟨h1, h2, h3⟩ := bridged_not_own hmnt
      unfold classifySandboxAbs
      simp only
      rw [if_neg h1, if_neg h2, if_neg h3, if_pos hmnt, hdrive]
      exact classifyHost_place h
    case h_2 => cases h
  case isFalse => cases h

theorem inOverlay_of_rules {norm : Text}
    (h : (norm = "/home/miqi".toList ∨ norm = "/home/miqi/workspace".toList) ∨
      "/home/miqi/".toList.isPrefixOf norm = true ∨
      atOrBelow norm "/tmp".toList = true ∨ atOrBelow norm "/var/tmp".toList = true) :
    InOverlay norm := by
  rcases h with (h | h) | h | h | h
  · exact .inl (.inl h)
  · exact .inl (.inr ⟨"workspace".toList, h⟩)
  · obtain ⟨rest, rfl⟩ := isPrefixOf_iff_prefix.mp h
    exact .inl (.inr ⟨rest, rfl⟩)
  · exact .inr (.inl ((atOrBelow_iff _ _).mp h))
  · exact .inr (.inr ((atOrBelow_iff _ _).mp h))

theorem classifySandboxAbs_sandbox {norm : Text}
    (h : sandboxPlace env path rt = some (.sandbox norm)) (hsys : isSystemPath env norm rt = true)
    (hown : ¬ InOverlay norm) : accepted (classifySandboxAbs env path rt true) = false := by
  have hrefused : lexNorm path = norm → ("/mnt/".toList.isPrefixOf norm = true →
      driveForm (norm.drop mntPrefix.length) = none) →
      accepted (classifySandboxAbs env path rt true) = false := by
    rintro rfl hdrive
    unfold classifySandboxAbs
    simp only
    rw [if_neg fun h => hown (inOverlay_of_rules (.inl h)),
      if_neg fun h => hown (inOverlay_of_rules (.inr (.inl h))),
      if_neg fun h => hown (inOverlay_of_rules (.inr (.inr h)))]
    split
    case isTrue hmnt =>
      rw [hdrive hmnt]
      rfl
    case isFalse =>
      rw [if_pos (.inr (.inr hsys))]
      rfl
  unfold sandboxPlace at h
  simp only at h
  split at h
  case isTrue hmnt =>
    split at h
    case h_1 =>
      obtain ⟨s, hs⟩ := hostPlace_host h
      cases hs
    case h_2 hdrive =>
      have hnorm := Place.sandbox.inj (Option.some.inj h)
      exact hrefused hnorm fun _ => hnorm ▸ hdrive
  case isFalse hmnt =>
    have hnorm := Place.sandbox.inj (Option.some.inj h)
    exact hrefused hnorm fun h => absurd (hnorm ▸ h) hmnt

theorem classifySandboxAbs_grows (hroots : rt.extraWriteRoots ⊆ roots)
    (hok : accepted (classifySandboxAbs env path rt true) = true) :
    accepted (classifySandboxAbs env path (withRoots rt roots) true) = true := by
  unfold classifySandboxAbs at hok ⊢
  simp only at hok ⊢
  split at hok
  case isTrue => cases hok
  case isFalse hhome =>
    rw [if_neg hhome]
    split at hok
    case isTrue hin => rwa [if_pos hin]
    case isFalse hin =>
      rw [if_neg hin]
      split at hok
      case isTrue htmp => rwa [if_pos htmp]
      case isFalse htmp =>
        rw [if_neg htmp]
        split at hok
        case isTrue hmnt =>
          rw [if_pos hmnt]
          split at hok
          case h_1 drive hdrive =>
            exact classifyHost_grows roots hroots hok
          case h_2 => cases hok
        case isFalse hmnt =>
          rw [if_neg hmnt]
          split at hok
          case isTrue => cases hok
          case isFalse hsys =>
            have hsystem : isSystemPath env (lexNorm path) (withRoots rt roots) =
              isSystemPath env (lexNorm path) rt := rfl
            rw [if_neg (hsystem ▸ hsys)]
            split at hok
            case isTrue hauth =>
              rw [if_pos ⟨trivial, authorizedWrite_grows roots hroots hauth.2⟩]
              rfl
            case isFalse => cases hok

/-! ## Operands -/

/-- What the classifier says about an operand that leads to `place`. -/
def Obeys (env : GuardEnv) (rt : RuntimePaths) (place : Place) (c : Classified) : Prop :=
  match place with
  | .host p => c = classifyResolved env p rt true
  | .sandbox norm => isSystemPath env norm rt = true → ¬ InOverlay norm → accepted c = false

theorem classifyHost_obeys {relative : Bool}
    (h : hostPlace env path rt relative = some place) :
    Obeys env rt place (classifyHost env path rt true relative) := by
  obtain ⟨s, rfl⟩ := hostPlace_host h
  exact classifyHost_place h

theorem classifySandboxAbs_obeys (h : sandboxPlace env path rt = some place) :
    Obeys env rt place (classifySandboxAbs env path rt true) := by
  cases place with
  | host p => exact classifySandboxAbs_host h
  | sandbox norm => exact classifySandboxAbs_sandbox h

theorem classifyExpanded_active {forWrite : Bool} (h : rt.sandboxActive = true) :
    classifyExpanded env path rt forWrite = classifySandboxAbs env
      (if path.head? = some '/' then path else lexNorm (rt.sandboxCwd ++ '/' :: path)) rt
      forWrite := by
  simp only [classifyExpanded, h, if_true]
  split
  · rfl
  · rfl

theorem classifyExpanded_inactive {forWrite : Bool} (h : rt.sandboxActive = false) :
    classifyExpanded env path rt forWrite = match driveForm path with
      | some p => classifyHost env p rt forWrite false
      | none => classifyHost env path rt forWrite (path.head? != some '/') := by
  simp only [classifyExpanded, h, Bool.false_eq_true, if_false]
  cases driveForm path with
  | some p => rfl
  | none =>
    by_cases hslash : path.head? = some '/'
    · simp [hslash]
    · have hne : (path.head? != some '/') = true := bne_iff_ne.mpr hslash
      simp only [hslash, if_false, hne]

theorem classifyExpanded_obeys (h : expandedPlace env path rt = some place) :
    Obeys env rt place (classifyExpanded env path rt true) := by
  unfold expandedPlace at h
  split at h
  case isTrue hactive =>
    rw [classifyExpanded_active hactive]
    exact classifySandboxAbs_obeys h
  case isFalse hactive =>
    rw [classifyExpanded_inactive (Bool.not_eq_true _ ▸ hactive)]
    split at h
    · exact classifyHost_obeys h
    · exact classifyHost_obeys h

theorem classifyExpanded_grows (hroots : rt.extraWriteRoots ⊆ roots)
    (hok : accepted (classifyExpanded env path rt true) = true) :
    accepted (classifyExpanded env path (withRoots rt roots) true) = true := by
  cases hactive : rt.sandboxActive with
  | true =>
    rw [classifyExpanded_active hactive] at hok
    have hactive' : (withRoots rt roots).sandboxActive = true := hactive
    rw [classifyExpanded_active hactive']
    exact classifySandboxAbs_grows roots hroots hok
  | false =>
    rw [classifyExpanded_inactive hactive] at hok
    have hactive' : (withRoots rt roots).sandboxActive = false := hactive
    rw [classifyExpanded_inactive hactive']
    split at hok
    · exact classifyHost_grows roots hroots hok
    · exact classifyHost_grows roots hroots hok

theorem classifyOperand_obeys (h : operandPlace env path rt = some place) :
    Obeys env rt place (classifyOperand env path rt true) := by
  unfold operandPlace at h
  simp only at h
  unfold classifyOperand
  simp only
  split at h
  case isTrue => cases h
  case isFalse hclear =>
    rw [if_neg fun he => hclear (.inl he), if_neg fun he => hclear (.inr (.inl he)),
      if_neg fun he => hclear (.inr (.inr he))]
    split at h
    case isTrue hwin =>
      rw [if_pos hwin]
      exact classifyHost_obeys h
    case isFalse hwin =>
      rw [if_neg hwin]
      split at h
      case isTrue htilde =>
        obtain ⟨text, htext, h⟩ := Option.bind_eq_some_iff.mp h
        rw [if_pos htilde, htext]
        exact classifyExpanded_obeys h
      case isFalse htilde =>
        rw [if_neg htilde]
        exact classifyExpanded_obeys h

theorem expandTilde_withRoots :
    expandTilde env path (withRoots rt roots) = expandTilde env path rt := rfl

theorem classifyOperand_grows (hroots : rt.extraWriteRoots ⊆ roots)
    (hok : accepted (classifyOperand env path rt true) = true) :
    accepted (classifyOperand env path (withRoots rt roots) true) = true := by
  unfold classifyOperand at hok ⊢
  simp only [expandTilde_withRoots] at hok ⊢
  split at hok
  case isTrue => cases hok
  case isFalse hempty =>
    split at hok
    case isTrue => cases hok
    case isFalse hexp =>
      split at hok
      case isTrue => cases hok
      case isFalse hback =>
        rw [if_neg hempty, if_neg hexp, if_neg hback]
        split at hok
        case isTrue hwin =>
          rw [if_pos hwin]
          exact classifyHost_grows roots hroots hok
        case isFalse hwin =>
          rw [if_neg hwin]
          split at hok
          case isTrue htilde =>
            rw [if_pos htilde]
            split at hok
            case h_1 => cases hok
            case h_2 => exact classifyExpanded_grows roots hroots hok
          case isFalse htilde =>
            rw [if_neg htilde]
            exact classifyExpanded_grows roots hroots hok

/-! ## The exact condition -/

theorem hostPlace_path {p : Text} {relative : Bool}
    (h : hostPlace env path rt relative = some (.host p)) : ∃ s, p = pathStr env s := by
  obtain ⟨s, hs⟩ := hostPlace_host h
  exact ⟨s, Place.host.inj hs⟩

theorem sandboxPlace_path {p : Text} (h : sandboxPlace env path rt = some (.host p)) :
    ∃ s, p = pathStr env s := by
  unfold sandboxPlace at h
  simp only at h
  split at h
  · split at h
    · exact hostPlace_path h
    · cases h
  · cases h

theorem expandedPlace_path {p : Text} (h : expandedPlace env path rt = some (.host p)) :
    ∃ s, p = pathStr env s := by
  unfold expandedPlace at h
  split at h
  · exact sandboxPlace_path h
  · split at h
    · exact hostPlace_path h
    · exact hostPlace_path h

theorem operandPlace_path {p : Text} (h : operandPlace env path rt = some (.host p)) :
    ∃ s, p = pathStr env s := by
  unfold operandPlace at h
  simp only at h
  split at h
  · cases h
  · split at h
    · exact hostPlace_path h
    · split at h
      · obtain ⟨text, -, h⟩ := Option.bind_eq_some_iff.mp h
        exact expandedPlace_path h
      · exact expandedPlace_path h

theorem Unnamed.length (h : Unnamed env rt path) : 2 ≤ path.length := by
  obtain ⟨-, -, -, h, -⟩ := h
  have hsuffix : sessionsSuffix.length = 9 := by decide
  rcases h with h | ⟨rest, h⟩
  · simp only [h, length_append]
    omega
  · simp only [h, length_append]
    omega

end Host

/-- **Grants and system paths.** The only system path that a write is let through to outside the
session's own places is `<workspace>/sessions` while there is no session; a root only adds. -/
theorem grantSafe_iff (env : GuardEnv) (rt : RuntimePaths) (raw : Text) :
    GrantSafe env rt raw ↔
      ∀ path, operandPlace env raw rt = some (.host path) → isSystemPath env path rt = true →
        ¬ UnderCwd env rt path → ¬ Unnamed env rt path := by
  constructor
  · intro hsafe path hplace hsys hcwd hunnamed
    obtain ⟨s, rfl⟩ := operandPlace_path hplace
    have hclosed := hsafe.closed _ hplace hsys (not_own_of_unnamed hunnamed hcwd)
    have hc : classifyOperand env raw rt true = classifyResolved env (pathStr env s) rt true :=
      classifyOperand_obeys hplace
    rw [hc, accepted_of_unnamed hunnamed (pathStr_last env hunnamed.length)] at hclosed
    cases hclosed
  · intro hnamed
    refine ⟨fun place hplace hsys hown => ?_, fun roots => classifyOperand_grows roots⟩
    have hobeys := classifyOperand_obeys hplace
    cases place with
    | sandbox norm => exact hobeys hsys hown
    | host path =>
      have hc : classifyOperand env raw rt true = classifyResolved env path rt true := hobeys
      rw [hc]
      refine Bool.not_eq_true _ ▸ fun hok => ?_
      rcases own_or_unnamed hok hsys with h | h
      · exact hown h
      · exact hnamed path hplace hsys (fun hcwd => hown (.inr hcwd)) h

/-- A POSIX host where every path is resolved already. -/
def plainEnv : GuardEnv where
  lower_slash := id_slash
  resolve _ path := some path

/-- The default workspace in the configuration home, and a working directory elsewhere. -/
def homeRt : RuntimePaths where
  hostCwd := "/work".toList
  hostWorkspace := some "/home/u/.miqi/workspace".toList
  miqiHome := some "/home/u/.miqi".toList

theorem sessions_opened :
    ¬ GrantSafe plainEnv homeRt "/home/u/.miqi/workspace/sessions".toList := by
  intro h
  have hunnamed : Unnamed plainEnv homeRt "/home/u/.miqi/workspace/sessions".toList :=
    ⟨by decide, by decide, by decide, .inl rfl, by decide⟩
  have hclosed := h.closed (.host "/home/u/.miqi/workspace/sessions".toList) (by decide) (by decide)
    (not_own_of_unnamed hunnamed (by unfold UnderCwd; decide))
  exact absurd hclosed (by decide)

end Grants

end MiqroForge.Guard
