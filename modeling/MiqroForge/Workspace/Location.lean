import MiqroForge.Library.PosixPaths

/-!
Where the workspace is: `getWorkspacePath` of the desktop and `Config.workspace_path` of the
runtime, over one environment and one tree of files without symbolic links.
-/

namespace MiqroForge.Workspace

open PyText PosixPaths

/-- What the two processes find under the path of an account marker. -/
inductive Marker
  | absent
  | unreadable
  | undecodable
  | content (t : Text)

/-- The environment of both processes, and the files they read. -/
structure World where
  /-- `MIQI_HOME`. -/
  env : Option Text
  home : Text
  absolute : isAbsolute home = true
  cwd : List Text
  /-- The home directories of other users, by name. -/
  users : Text → Option (List Text)
  marker : List Text → Marker
  /-- `agents.defaults.workspace` of the `config.json` at this place: blank where the key is
  missing. -/
  config : List Text → Option Text

def defaultHomeName : Text := ".forge".toList
def legacyHomeName : Text := ".assistant".toList
def workspaceName : Text := "workspace".toList
def accountsDirName : Text := "accounts".toList
def activeAccountFile : Text := ".active".toList
def legacyWorkspaceOwnerFile : Text := ".legacy-owner".toList
def configName : Text := "config.json".toList
def defaultWorkspaceValue : Text := "~/.forge/workspace".toList

/-- `[A-Za-z0-9]`. -/
def isAlphanumeric (c : Char) : Bool :=
  (65 ≤ c.toNat && c.toNat ≤ 90) || (97 ≤ c.toNat && c.toNat ≤ 122) ||
    (48 ≤ c.toNat && c.toNat ≤ 57)

/-- `[A-Za-z0-9._-]`. -/
def isSubChar (c : Char) : Bool := isAlphanumeric c || c == '.' || c == '_' || c == '-'

/-- `isValidAccountSub` and `is_valid_account_sub`: the same expression in both. -/
def isValidAccountSub : Text → Bool
  | [] => false
  | c :: cs => isAlphanumeric c && decide (cs.length ≤ 63) && cs.all isSubChar

/-! ## The desktop -/

namespace Desktop

/-- The characters that `trim` of a JavaScript string removes. -/
def isTrimmed (c : Char) : Bool :=
  (9 ≤ c.toNat && c.toNat ≤ 13) || c.toNat == 32 || c.toNat == 0xa0 || c.toNat == 0x1680 ||
    (0x2000 ≤ c.toNat && c.toNat ≤ 0x200a) || c.toNat == 0x2028 || c.toNat == 0x2029 ||
    c.toNat == 0x202f || c.toNat == 0x205f || c.toNat == 0x3000 || c.toNat == 0xfeff

def trim (t : Text) : Text := stripBy isTrimmed t

variable (w : World)

def getConfigDir : Text :=
  let miqiHome := trim (w.env.getD [])
  if miqiHome ≠ [] then miqiHome else join w.home defaultHomeName

def getConfigPath : Text := join (getConfigDir w) configName

/-- The workspace of `readLocalConfig`, or the default. -/
def configuredWorkspace : Text :=
  let raw := (w.config (resolve w.cwd (getConfigPath w))).getD []
  if raw = [] then defaultWorkspaceValue else raw

def getAccountsDir : Text := join (getConfigDir w) accountsDirName

def readAccountMarker (m : Marker) : Option Text :=
  match m with
  | .content t => if isValidAccountSub (trim t) then some (trim t) else none
  -- the bytes that are no UTF-8 become replacement characters, which no account has
  | _ => none

def readActiveAccount : Option Text :=
  readAccountMarker (w.marker (resolve w.cwd (join (getAccountsDir w) activeAccountFile)))

def readLegacyWorkspaceOwner : Option Text :=
  readAccountMarker (w.marker (resolve w.cwd (join (getAccountsDir w) legacyWorkspaceOwnerFile)))

def getAccountWorkspace (sub : Text) : Text := join (join (getAccountsDir w) sub) workspaceName

def getDefaultWorkspacePath : Text :=
  match readActiveAccount w with
  | none => join (getConfigDir w) workspaceName
  | some sub =>
    if readLegacyWorkspaceOwner w = some sub then join (getConfigDir w) workspaceName
    else getAccountWorkspace w sub

def getWorkspacePath : Text :=
  let raw := configuredWorkspace w
  if raw = defaultWorkspaceValue then getDefaultWorkspacePath w
  else
    match raw with
    | '~' :: rest =>
      match rest with
      | '/' :: rest => join w.home rest
      | '\\' :: rest => join w.home rest
      | rest => join w.home rest
    | raw => raw

end Desktop

open Desktop

/-! ## The runtime -/

namespace Runtime

variable (w : World)

/-- `Path(t).expanduser().resolve()`; `none` when it raises. -/
def expand (t : Text) : Option (List Text) :=
  if '\x00' ∈ t then none
  else if isAbsolute t then some (walk [] (segments t))
  else
    match segments t with
    | ('~' :: user) :: rest =>
      if user = [] then some (walk (resolve w.cwd w.home) rest)
      else (w.users user).map fun home => walk home rest
    | cs => some (walk w.cwd cs)

def getMiqiHome : Option (List Text) :=
  let configured := strip (w.env.getD [])
  if configured ≠ [] then expand w configured
  else some (walk (resolve w.cwd w.home) [defaultHomeName])

def getLegacyConfigPath : List Text :=
  walk (resolve w.cwd w.home) [legacyHomeName, configName]

/-- The workspace of the configuration at `_get_load_path`. -/
def configuredWorkspace (miqiHome : List Text) : Text :=
  match w.config (miqiHome ++ [configName]), w.config (getLegacyConfigPath w) with
  | some raw, _ => raw
  | none, some raw => raw
  | none, none => defaultWorkspaceValue

/-- `_read_account_marker`; the outer `none` is the decoding error that it lets through. -/
def readAccountMarker (m : Marker) : Option (Option Text) :=
  match m with
  | .absent | .unreadable => some none
  | .undecodable => none
  | .content t => some (if isValidAccountSub (strip t) then some (strip t) else none)

def getDefaultWorkspacePath (dataRoot : List Text) : Option (List Text) := do
  match ← readAccountMarker (w.marker (dataRoot ++ [accountsDirName, activeAccountFile])) with
  | none => some (dataRoot ++ [workspaceName])
  | some sub =>
    let owner ← readAccountMarker
      (w.marker (dataRoot ++ [accountsDirName, legacyWorkspaceOwnerFile]))
    if owner = some sub then some (dataRoot ++ [workspaceName])
    else some (dataRoot ++ [accountsDirName, sub, workspaceName])

/-- `Config.workspace_path` of the loaded configuration. -/
def workspacePath : Option (List Text) := do
  let dataRoot ← getMiqiHome w
  let raw := configuredWorkspace w dataRoot
  if raw = [] ∨ raw = defaultWorkspaceValue then getDefaultWorkspacePath w dataRoot
  else expand w raw

end Runtime

/-! ## Where the two agree -/

/-- `expanduser` leaves the text as it is. -/
def TildeFree (t : Text) : Prop :=
  isAbsolute t = true ∨ ∀ c ∈ (segments t).head?, c.head? ≠ some '~'

/-- Both sides read the same account from a marker. -/
def Marker.Plain : Marker → Prop
  | .absent | .unreadable => True
  | .undecodable => False
  | .content t => isValidAccountSub (trim t) = true ∨ isValidAccountSub (strip t) = true →
      trim t = strip t

/-- The data root of the desktop. -/
def dataRoot (w : World) : List Text := resolve w.cwd (getConfigDir w)

/-- What the chain of the two resolutions asks of its inputs. -/
structure InStep (w : World) : Prop where
  trimmed : trim (w.env.getD []) = strip (w.env.getD [])
  env : strip (w.env.getD []) ≠ [] →
    '\x00' ∉ strip (w.env.getD []) ∧ TildeFree (strip (w.env.getD []))
  legacy : w.config (dataRoot w ++ [configName]) = none →
    ∀ raw ∈ w.config (Runtime.getLegacyConfigPath w), raw = [] ∨ raw = defaultWorkspaceValue
  active : configuredWorkspace w = defaultWorkspaceValue →
    (w.marker (dataRoot w ++ [accountsDirName, activeAccountFile])).Plain
  owner : configuredWorkspace w = defaultWorkspaceValue →
    readActiveAccount w ≠ none →
    (w.marker (dataRoot w ++ [accountsDirName, legacyWorkspaceOwnerFile])).Plain
  custom : configuredWorkspace w ≠ defaultWorkspaceValue →
    '\x00' ∉ configuredWorkspace w ∧
      (configuredWorkspace w = ['~'] ∨ ['~', '/'] <+: configuredWorkspace w ∨
        (configuredWorkspace w).head? ≠ some '~' ∧
          TildeFree (configuredWorkspace w))

/-! ### Names -/

theorem name_defaultHome : Name defaultHomeName ∧ defaultHomeName ≠ dotdot :=
  ⟨by decide, by decide⟩

theorem name_accounts : Name accountsDirName ∧ accountsDirName ≠ dotdot :=
  ⟨by decide, by decide⟩

theorem name_active : Name activeAccountFile ∧ activeAccountFile ≠ dotdot :=
  ⟨by decide, by decide⟩

theorem name_owner : Name legacyWorkspaceOwnerFile ∧ legacyWorkspaceOwnerFile ≠ dotdot :=
  ⟨by decide, by decide⟩

theorem name_workspace : Name workspaceName ∧ workspaceName ≠ dotdot :=
  ⟨by decide, by decide⟩

theorem name_config : Name configName ∧ configName ≠ dotdot :=
  ⟨by decide, by decide⟩

theorem isSubChar_of_isAlphanumeric {c : Char} (h : isAlphanumeric c = true) :
    isSubChar c = true := by
  simp [isSubChar, h]

theorem name_of_valid {sub : Text} (h : isValidAccountSub sub = true) :
    Name sub ∧ sub ≠ dotdot := by
  cases sub with
  | nil => cases h
  | cons c cs =>
    simp only [isValidAccountSub, Bool.and_eq_true, decide_eq_true_eq] at h
    obtain ⟨⟨hc, -⟩, hcs⟩ := h
    have hdot : c ≠ '.' := char_ne hc (by decide)
    refine ⟨⟨fun hm => ?_, by simp, fun heq => hdot (List.cons.inj heq).1⟩,
      fun heq => hdot (List.cons.inj heq).1⟩
    have hall : ∀ x ∈ c :: cs, isSubChar x = true := fun x hx => by
      rcases List.mem_cons.mp hx with rfl | hx
      · exact isSubChar_of_isAlphanumeric hc
      · exact List.all_eq_true.mp hcs x hx
    have hslash := hall '/' hm
    revert hslash
    decide

/-! ### The data root -/

variable (w : World)

theorem expand_plain {t : Text} (hnul : '\x00' ∉ t) (h : TildeFree t) :
    Runtime.expand w t = some (resolve w.cwd t) := by
  unfold Runtime.expand resolve
  rw [if_neg hnul]
  cases habs : isAbsolute t with
  | true => rfl
  | false =>
    rw [if_neg Bool.false_ne_true]
    rcases h with h | h
    · rw [habs] at h
      cases h
    · split
      case h_1 user rest heq =>
        rw [heq] at h
        exact absurd rfl (h _ rfl)
      case h_2 => rfl

theorem configDir_ne_nil : getConfigDir w ≠ [] := by
  unfold getConfigDir
  dsimp only
  split
  case isTrue h => exact h
  case isFalse => exact join_ne_nil _ _

theorem home_ne_nil : w.home ≠ [] := by
  intro h
  have habs := w.absolute
  rw [h] at habs
  cases habs

theorem miqiHome_eq (h : InStep w) : Runtime.getMiqiHome w = some (dataRoot w) := by
  unfold Runtime.getMiqiHome dataRoot getConfigDir
  rw [h.trimmed]
  dsimp only
  split
  case isTrue hne =>
    obtain ⟨hnul, htilde⟩ := h.env hne
    exact expand_plain w hnul htilde
  case isFalse hblank =>
    rw [resolve_join_name w.cwd (home_ne_nil w) name_defaultHome.1 name_defaultHome.2]
    simp [walk, enter, name_defaultHome.2]

/-! ### The configured workspace -/

theorem resolve_config :
    resolve w.cwd (getConfigPath w) = dataRoot w ++ [configName] :=
  resolve_join_name w.cwd (configDir_ne_nil w) name_config.1 name_config.2

theorem configured_cases (h : InStep w) :
    configuredWorkspace w = defaultWorkspaceValue ∧
        (Runtime.configuredWorkspace w (dataRoot w) = [] ∨
          Runtime.configuredWorkspace w (dataRoot w) = defaultWorkspaceValue) ∨
      configuredWorkspace w ≠ defaultWorkspaceValue ∧
        configuredWorkspace w ≠ [] ∧
        Runtime.configuredWorkspace w (dataRoot w) = configuredWorkspace w := by
  unfold configuredWorkspace Runtime.configuredWorkspace
  rw [resolve_config]
  cases hconfig : w.config (dataRoot w ++ [configName]) with
  | none =>
    left
    refine ⟨rfl, ?_⟩
    cases hlegacy : w.config (Runtime.getLegacyConfigPath w) with
    | none => exact .inr rfl
    | some raw => exact h.legacy hconfig raw hlegacy
  | some raw =>
    by_cases hblank : raw = []
    · exact .inl ⟨by simp [hblank], .inl hblank⟩
    · by_cases hdefault : raw = defaultWorkspaceValue
      · exact .inl ⟨by simp [hdefault], .inr hdefault⟩
      · exact .inr ⟨by simpa [hblank] using hdefault, by simp [hblank], by simp [hblank]⟩

/-! ### The account -/

theorem resolve_accounts :
    resolve w.cwd (getAccountsDir w) = dataRoot w ++ [accountsDirName] :=
  resolve_join_name w.cwd (configDir_ne_nil w) name_accounts.1 name_accounts.2

theorem resolve_marker {c : Text} (hc : Name c ∧ c ≠ dotdot) :
    resolve w.cwd (join (getAccountsDir w) c) = dataRoot w ++ [accountsDirName, c] := by
  rw [resolve_join_name w.cwd (a := getAccountsDir w) (join_ne_nil _ _) hc.1 hc.2,
    resolve_accounts, List.append_assoc]
  rfl

theorem readAccountMarker_eq {m : Marker} (h : m.Plain) :
    Runtime.readAccountMarker m = some (readAccountMarker m) := by
  cases m with
  | absent => rfl
  | unreadable => rfl
  | undecodable => cases h
  | content t =>
    unfold Runtime.readAccountMarker readAccountMarker
    by_cases hvalid : isValidAccountSub (trim t) = true ∨ isValidAccountSub (strip t) = true
    · simp only [h hvalid]
    · obtain ⟨htrim, hstrip⟩ := not_or.mp hvalid
      simp [htrim, hstrip]

theorem valid_of_read {m : Marker} {sub : Text} (h : readAccountMarker m = some sub) :
    isValidAccountSub sub = true := by
  unfold readAccountMarker at h
  split at h
  · split at h
    case isTrue hvalid =>
      cases h
      exact hvalid
    case isFalse => cases h
  · cases h

theorem default_eq (hactive : (w.marker (dataRoot w ++ [accountsDirName, activeAccountFile])).Plain)
    (howner : readActiveAccount w ≠ none →
      (w.marker (dataRoot w ++ [accountsDirName, legacyWorkspaceOwnerFile])).Plain) :
    Runtime.getDefaultWorkspacePath w (dataRoot w) =
      some (resolve w.cwd (getDefaultWorkspacePath w)) := by
  have hshared : resolve w.cwd (join (getConfigDir w) workspaceName) =
      dataRoot w ++ [workspaceName] :=
    resolve_join_name w.cwd (configDir_ne_nil w) name_workspace.1 name_workspace.2
  have hread : readActiveAccount w =
      readAccountMarker (w.marker (dataRoot w ++ [accountsDirName, activeAccountFile])) := by
    rw [readActiveAccount, resolve_marker w name_active]
  have hown : readLegacyWorkspaceOwner w = readAccountMarker
      (w.marker (dataRoot w ++ [accountsDirName, legacyWorkspaceOwnerFile])) := by
    rw [readLegacyWorkspaceOwner, resolve_marker w name_owner]
  unfold Runtime.getDefaultWorkspacePath getDefaultWorkspacePath
  rw [readAccountMarker_eq hactive, ← hread]
  cases hsub : readActiveAccount w with
  | none => exact congrArg some hshared.symm
  | some sub =>
    have hvalid := name_of_valid (valid_of_read (hread ▸ hsub))
    have haccount : resolve w.cwd (getAccountWorkspace w sub) =
        dataRoot w ++ [accountsDirName, sub, workspaceName] := by
      rw [getAccountWorkspace,
        resolve_join_name w.cwd (join_ne_nil _ _) name_workspace.1 name_workspace.2,
        resolve_marker w hvalid, List.append_assoc]
      rfl
    simp only [Option.bind_eq_bind, Option.bind_some, readAccountMarker_eq (howner (by simp [hsub])),
      ← hown]
    split
    · exact congrArg some hshared.symm
    · exact congrArg some haccount.symm

/-! ### The whole chain -/

theorem custom_eq (h : InStep w)
    (hcustom : configuredWorkspace w ≠ defaultWorkspaceValue)
    (hne : configuredWorkspace w ≠ []) :
    Runtime.expand w (configuredWorkspace w) =
      some (resolve w.cwd (getWorkspacePath w)) := by
  obtain ⟨hnul, hraw⟩ := h.custom hcustom
  unfold getWorkspacePath
  rw [if_neg hcustom]
  generalize configuredWorkspace w = raw at hnul hraw hne
  rcases hraw with rfl | ⟨rest, rfl⟩ | ⟨hhead, htilde⟩
  · show Runtime.expand w ['~'] = some (resolve w.cwd (join w.home []))
    rw [resolve_join w.cwd (home_ne_nil w)]
    rfl
  · show Runtime.expand w ('~' :: '/' :: rest) = some (resolve w.cwd (join w.home rest))
    replace hnul : '\x00' ∉ '~' :: '/' :: rest := hnul
    have hsegments : segments ('~' :: '/' :: rest) = ['~'] :: segments rest :=
      segments_append ['~'] rest
    rw [resolve_join w.cwd (home_ne_nil w), Runtime.expand, if_neg hnul, hsegments]
    rfl
  · obtain ⟨c, rest, rfl⟩ := List.exists_cons_of_ne_nil hne
    have hc : c ≠ '~' := fun heq => hhead (by rw [heq]; rfl)
    rw [expand_plain w hnul htilde]
    split
    case h_1 heq => exact absurd (List.cons.inj heq).1 hc
    case h_2 => rfl

/-- No files, and the given data root. -/
def bare (env : Option Text) : World where
  env := env
  home := "/home/user".toList
  absolute := by decide
  cwd := ["opt".toList]
  users := fun _ => none
  marker := fun _ => .absent
  config := fun _ => none

end MiqroForge.Workspace
