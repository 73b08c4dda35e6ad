import MiqroForge.Library.Steps
import MiqroForge.Library.Table
import MiqroForge.Library.PyText
import Mathlib.Data.List.Infix

/-!
What a saved configuration changes at once, in new sessions, or at the next start
(`hot_reload.py`), and what a session makes of it (`RuntimeServices.apply_config_update`).
-/

namespace MiqroForge.Configuration

open List

open PyText (Text)

/-- A dumped setting: a dictionary, or a value that is compared as a whole. -/
inductive Setting (α : Type)
  | leaf (a : α)
  | dict (fields : List (Text × Setting α))

/-- `f"{prefix}.{key}" if prefix else key` -/
def pathOf (pre key : Text) : Text := if pre = [] then key else pre ++ '.' :: key

section Diff
variable {α : Type} (same : α → α → Bool)

/-- The keys of `old` that are not in `new`. -/
def removedKeys (old new : List (Text × Setting α)) (pre : Text) : List Text :=
  (old.filter fun e => (Table.get? new e.1).isNone).map fun e => pathOf pre e.1

mutual

/-- The loop over `new.items()`. -/
def changedKeys (old : List (Text × Setting α)) (pre : Text) : List (Text × Setting α) → List Text
  | [] => []
  | (key, newVal) :: rest =>
    (match Table.get? old key with
      | none => [pathOf pre key]
      | some oldVal => changedValue oldVal (pathOf pre key) newVal) ++ changedKeys old pre rest

def changedValue (oldVal : Setting α) (path : Text) : Setting α → List Text
  | .dict new =>
    match oldVal with
    | .dict old => changedKeys old path new ++ removedKeys old new path
    | .leaf _ => [path]
  | .leaf b =>
    match oldVal with
    | .leaf a => if same b a then [] else [path]
    | .dict _ => [path]

end

def diffPaths (old new : List (Text × Setting α)) (pre : Text) : List Text :=
  changedKeys same old pre new ++ removedKeys old new pre

/-! ## What differs -/

/-- The setting at a path of keys. -/
def Setting.reach : Option (Setting α) → List Text → Option (Setting α)
  | s, [] => s
  | some (.dict fields), key :: keys => Setting.reach (Table.get? fields key) keys
  | _, _ :: _ => none

theorem reach_cons (s : Option (Setting α)) (key : Text) (keys : List Text) :
    Setting.reach s (key :: keys) = Setting.reach (Setting.reach s [key]) keys := by
  rcases s with _ | _ | fields
  · cases keys <;> rfl
  · cases keys <;> rfl
  · rfl

/-- Neither is there, or they are dictionaries, or values that are equal. -/
def alike : Option (Setting α) → Option (Setting α) → Bool
  | none, none => true
  | some (.dict _), some (.dict _) => true
  | some (.leaf a), some (.leaf b) => same b a
  | _, _ => false

/-- The two differ at the path, and at no path on the way to it. -/
def FirstDiffers (old new : Option (Setting α)) : List Text → Prop
  | [] => ¬alike same old new
  | key :: keys => alike same old new ∧
      FirstDiffers (Setting.reach old [key]) (Setting.reach new [key]) keys

/-- The keys of a dictionary differ, as in Python. -/
inductive Setting.Proper : Setting α → Prop
  | leaf (a : α) : Proper (.leaf a)
  | dict {fields : List (Text × Setting α)} (hkeys : (fields.map Prod.fst).Nodup)
      (hvalues : ∀ e ∈ fields, Proper e.2) : Proper (.dict fields)

variable {same}

theorem firstDiffers_unlike {u v : Option (Setting α)} (h : ¬alike same u v) (keys : List Text) :
    FirstDiffers same u v keys ↔ keys = [] := by
  cases keys with
  | nil => exact iff_of_true h rfl
  | cons => exact iff_of_false (fun hd => h hd.1) (cons_ne_nil _ _)

theorem not_firstDiffers_none : ∀ keys, ¬FirstDiffers same none none keys
  | [], h => h rfl
  | _ :: keys, h => not_firstDiffers_none keys h.2

theorem mem_unlike {u v : Option (Setting α)} (h : ¬alike same u v) (path p : Text) :
    p ∈ [path] ↔ ∃ keys, p = List.foldl pathOf path keys ∧ FirstDiffers same u v keys := by
  simp [firstDiffers_unlike h]

theorem mem_changedKeys {old fields : List (Text × Setting α)} {path p : Text} :
    p ∈ changedKeys same old path fields ↔ ∃ e ∈ fields, p ∈ match Table.get? old e.1 with
      | none => [pathOf path e.1]
      | some oldVal => changedValue same oldVal (pathOf path e.1) e.2 := by
  induction fields with
  | nil => simp [changedKeys]
  | cons e rest ih => rw [changedKeys, mem_append, ih, exists_mem_cons_iff]

theorem mem_removedKeys {old new : List (Text × Setting α)} {path p : Text} :
    p ∈ removedKeys old new path ↔
      ∃ key u, Table.get? old key = some u ∧ Table.get? new key = none ∧ p = pathOf path key := by
  simp only [removedKeys, mem_map, mem_filter, Option.isNone_iff_eq_none]
  constructor
  · rintro ⟨e, ⟨he, hnone⟩, rfl⟩
    cases hget : Table.get? old e.1 with
    | none => exact absurd (mem_map_of_mem he) (Table.get?_eq_none.mp hget)
    | some u => exact ⟨e.1, u, hget, hnone, rfl⟩
  · rintro ⟨key, u, hget, hnone, rfl⟩
    exact ⟨(key, u), ⟨Table.mem_of_get? hget, hnone⟩, rfl⟩

/-- The paths of a value are those at which it first differs from the old one. -/
theorem mem_changedValue {new : Setting α} (hnew : new.Proper) : ∀ (old : Setting α) (path p : Text),
    p ∈ changedValue same old path new ↔
      ∃ keys, p = List.foldl pathOf path keys ∧ FirstDiffers same (some old) (some new) keys := by
  induction hnew with
  | leaf b =>
    intro old path p
    cases old with
    | dict => exact mem_unlike (u := some _) (v := some _) (by simp [alike]) path p
    | leaf a =>
      rw [changedValue]
      split
      case isTrue hsame =>
        refine iff_of_false not_mem_nil ?_
        rintro ⟨_ | ⟨key, keys⟩, -, hdiff⟩
        · exact hdiff hsame
        · exact not_firstDiffers_none keys hdiff.2
      case isFalse hsame => exact mem_unlike (u := some (.leaf a)) (v := some (.leaf b)) hsame path p
  | @dict fields hkeys _ ih =>
    intro old path p
    cases old with
    | leaf => exact mem_unlike (u := some _) (v := some _) (by simp [alike]) path p
    | dict old =>
      rw [changedValue, mem_append, mem_changedKeys, mem_removedKeys]
      constructor
      · rintro (⟨e, he, hp⟩ | ⟨key, u, hold, hnone, rfl⟩)
        · have hget : Table.get? fields e.1 = some e.2 := Table.get?_of_mem hkeys he
          have hfirst : ∃ keys, p = List.foldl pathOf (pathOf path e.1) keys ∧
              FirstDiffers same (Table.get? old e.1) (some e.2) keys := by
            cases hold : Table.get? old e.1 with
            | none =>
              rw [hold] at hp
              exact (mem_unlike (by simp [alike]) _ p).mp hp
            | some oldVal =>
              rw [hold] at hp
              exact (ih e he oldVal _ p).mp hp
          obtain ⟨keys, rfl, hdiff⟩ := hfirst
          refine ⟨e.1 :: keys, rfl, rfl, ?_⟩
          show FirstDiffers same (Table.get? old e.1) (Table.get? fields e.1) keys
          rw [hget]
          exact hdiff
        · refine ⟨[key], rfl, rfl, ?_⟩
          show ¬alike same (Table.get? old key) (Table.get? fields key)
          rw [hold, hnone]
          cases u <;> exact Bool.false_ne_true
      · rintro ⟨_ | ⟨key, keys⟩, rfl, hdiff⟩
        · exact absurd rfl hdiff
        · have hbelow : FirstDiffers same (Table.get? old key) (Table.get? fields key) keys := hdiff.2
          cases hget : Table.get? fields key with
          | some v =>
            refine Or.inl ⟨(key, v), Table.mem_of_get? hget, ?_⟩
            rw [hget] at hbelow
            cases hold : Table.get? old key with
            | none =>
              rw [hold] at hbelow
              exact (mem_unlike (by simp [alike]) _ _).mpr ⟨keys, rfl, hbelow⟩
            | some oldVal =>
              rw [hold] at hbelow
              exact (ih _ (Table.mem_of_get? hget) oldVal _ _).mpr ⟨keys, rfl, hbelow⟩
          | none =>
            rw [hget] at hbelow
            cases hold : Table.get? old key with
            | none =>
              rw [hold] at hbelow
              exact absurd hbelow (not_firstDiffers_none keys)
            | some u =>
              rw [hold] at hbelow
              have hempty : keys = [] := (firstDiffers_unlike (by cases u <;> exact Bool.false_ne_true) keys).mp hbelow
              exact Or.inr ⟨key, u, hold, hget, by rw [hempty]; rfl⟩

theorem exists_firstDiffers (keys : List Text) : ∀ old new : Option (Setting α),
    ¬alike same (Setting.reach old keys) (Setting.reach new keys) →
      ∃ before, before <+: keys ∧ FirstDiffers same old new before := by
  induction keys with
  | nil => exact fun old new h => ⟨[], nil_prefix, h⟩
  | cons key keys ih =>
    intro old new h
    rw [reach_cons, reach_cons new] at h
    by_cases halike : alike same old new
    · obtain ⟨before, hbefore, hdiff⟩ := ih _ _ h
      exact ⟨key :: before, (prefix_cons_inj key).mpr hbefore, halike, hdiff⟩
    · exact ⟨[], nil_prefix, halike⟩

/-- **The diff is exact.** A path is reported iff the dictionaries differ there and nowhere on the
way to it, and whatever differs lies at or below a reported path. -/
theorem diffPaths_exact {old new : List (Text × Setting α)} (hnew : (Setting.dict new).Proper) :
    (∀ p, p ∈ diffPaths same old new [] ↔ ∃ keys, p = List.foldl pathOf [] keys ∧
      FirstDiffers same (some (.dict old)) (some (.dict new)) keys) ∧
    ∀ keys, ¬alike same (Setting.reach (some (.dict old)) keys) (Setting.reach (some (.dict new)) keys) →
      ∃ before, before <+: keys ∧ List.foldl pathOf [] before ∈ diffPaths same old new [] := by
  have hmem := @mem_changedValue _ same _ hnew (.dict old) []
  refine ⟨hmem, fun keys h => ?_⟩
  obtain ⟨before, hbefore, hdiff⟩ := exists_firstDiffers keys _ _ h
  exact ⟨before, hbefore, (hmem _).mpr ⟨before, rfl, hdiff⟩⟩

end Diff

/-! ## The tiers -/

def tierCPaths : List (Text × Text) := [
  ("tools.sandbox.wsl_distro".toList, "WSL 发行版在进程启动时检测，修改后需重启应用".toList),
  ("tools.sandbox.wsl_base_dir".toList, "沙箱目录在进程启动时初始化，修改后需重启应用".toList),
  ("tools.sandbox.sandbox_distro_name".toList, "沙箱发行版在进程启动时导入，修改后需重启应用".toList),
  ("gateway.host".toList, "网关监听地址在进程启动时绑定，修改后需重启应用".toList),
  ("gateway.port".toList, "网关监听端口在进程启动时绑定，修改后需重启应用".toList),
  ("agents.defaults.runtime".toList, "运行时引擎在会话创建时选择，修改后需重启应用".toList),
  ("agents.sessions.use_sqlite".toList, "会话存储后端在启动时选择，修改后需重启应用".toList)]

/-- The model settings, in the order of `TIER_A_PREFIXES`. -/
def settingPaths : List Text := ["agents.defaults.temperature".toList,
  "agents.defaults.max_tokens".toList, "agents.defaults.max_tool_result_chars".toList,
  "agents.defaults.context_limit_chars".toList, "agents.defaults.max_tool_iterations".toList,
  "agents.defaults.name".toList]

def tierAPrefixes : List Text :=
  ["providers".toList, "agents.defaults.model".toList] ++ settingPaths ++
    ["approvals".toList, "agents.command_approval".toList, "agents.permanent_approvals".toList,
      "desktop".toList]

/-- `path == p or path.startswith(p + ".")` -/
def under (path p : Text) : Bool := path == p || (p ++ ['.']).isPrefixOf path

def cReason (path : Text) : Option Text := (tierCPaths.find? fun e => under path e.1).map Prod.snd

structure ConfigChangeReport where
  applied : List Text := []
  newSessionsOnly : List Text := []
  restartRequired : List Text := []
  restartReasons : List Text := []

/-- The reasons, each as it comes first. -/
def addReason (reasons : List Text) (reason : Text) : List Text :=
  if reason ∈ reasons then reasons else reasons ++ [reason]

def classifyPath (r : ConfigChangeReport) (path : Text) : ConfigChangeReport :=
  match cReason path with
  | some reason => { r with
      restartRequired := r.restartRequired ++ [path]
      restartReasons := addReason r.restartReasons reason }
  | none =>
    if tierAPrefixes.any (under path) then { r with applied := r.applied ++ [path] }
    else { r with newSessionsOnly := r.newSessionsOnly ++ [path] }

section Classify
variable {α : Type} (same : α → α → Bool) (old new : List (Text × Setting α))

def classifyConfigUpdate : ConfigChangeReport := (diffPaths same old new []).foldl classifyPath {}

/-- The paths in which the current configuration differs from that of the start, and the reasons;
nothing is known without the latter. -/
def pendingRestartPaths (current : List (Text × Setting α)) :
    Option (List (Text × Setting α)) → List Text × List Text
  | none => ([], [])
  | some startup => (diffPaths same startup current []).foldl (fun (paths, reasons) path =>
      match cReason path with
      | some reason => (paths ++ [path], addReason reasons reason)
      | none => (paths, reasons)) ([], [])

theorem foldl_classifyPath (paths : List Text) : ∀ r : ConfigChangeReport,
    paths.foldl classifyPath r = {
      applied := r.applied ++
        paths.filter fun p => (cReason p).isNone && tierAPrefixes.any (under p)
      newSessionsOnly := r.newSessionsOnly ++
        paths.filter fun p => (cReason p).isNone && !tierAPrefixes.any (under p)
      restartRequired := r.restartRequired ++ paths.filter fun p => (cReason p).isSome
      restartReasons := (paths.filterMap cReason).foldl addReason r.restartReasons } := by
  induction paths with
  | nil => intro r; simp
  | cons path paths ih =>
    intro r
    rw [foldl_cons, ih, classifyPath]
    cases hreason : cReason path with
    | some reason => simp [hreason]
    | none => cases ha : tierAPrefixes.any (under path) <;> simp [hreason, ha]

theorem pendingRestartPaths_eq : (pendingRestartPaths same new (some old)).1 =
    (diffPaths same old new []).filter fun p => (cReason p).isSome := by
  have hfold : ∀ (paths done reasons : List Text), (paths.foldl (fun (paths, reasons) path =>
      match cReason path with
      | some reason => (paths ++ [path], addReason reasons reason)
      | none => (paths, reasons)) (done, reasons)).1 =
        done ++ paths.filter fun p => (cReason p).isSome := by
    intro paths
    induction paths with
    | nil => simp
    | cons path paths ih =>
      intro done reasons
      rw [foldl_cons]
      cases hreason : cReason path <;> simp [hreason, ih]
  rw [pendingRestartPaths, hfold, nil_append]

end Classify

/-! ## What is reported of a setting -/

section Reported
variable {α : Type} {same : α → α → Bool} {old new : List (Text × Setting α)} {path p pre : Text}

theorem under_iff : under path p = true ↔ p ++ ['.'] <+: path ++ ['.'] := by
  rw [prefix_concat_iff, append_cancel_right_eq, @eq_comm _ p]
  simp [under]

theorem under_foldl (keys : List Text) (hpre : pre ≠ []) (h : under pre p = true) :
    under (keys.foldl pathOf pre) p = true := by
  induction keys generalizing pre with
  | nil => exact h
  | cons key keys ih =>
    refine ih (by simp [pathOf, hpre]) ?_
    rw [under_iff] at h ⊢
    rw [pathOf, if_neg hpre]
    exact h.trans ⟨key ++ ['.'], by simp⟩

/-- The dictionaries that the settings of the tables are in. -/
def sections : List (List Text) := ["tools", "tools.sandbox", "gateway", "agents",
  "agents.defaults", "agents.sessions"].map fun path => path.toList.splitOn '.'

def isDict : Option (Setting α) → Bool
  | some (.dict _) => true
  | _ => false

/-- What `Config.model_dump` returns. -/
structure Dump (fields : List (Text × Setting α)) : Prop where
  proper : (Setting.dict fields).Proper
  shaped : ∀ keys ∈ sections, isDict (Setting.reach (some (.dict fields)) keys) = true

/-- The two agree in the setting, and in everything below it. -/
def AgreeAt (same : α → α → Bool) (path : Text) (old new : List (Text × Setting α)) : Prop :=
  ∀ keys, alike same (Setting.reach (some (.dict old)) (path.splitOn '.' ++ keys))
    (Setting.reach (some (.dict new)) (path.splitOn '.' ++ keys)) = true

theorem alike_of_isDict {u v : Option (Setting α)} (hu : isDict u = true) (hv : isDict v = true) :
    alike same u v = true := by
  rcases u with _ | _ | _ <;> rcases v with _ | _ | _ <;> simp [isDict] at hu hv ⊢
  rfl

theorem tables_keys : ∀ path ∈ tierAPrefixes ++ tierCPaths.map Prod.fst,
    path ≠ [] ∧ (path.splitOn '.').foldl pathOf [] = path ∧
      ∀ before ∈ (path.splitOn '.').inits, before = path.splitOn '.' ∨ before ∈ [] :: sections := by
  decide +kernel

theorem tables_apart : ∀ a ∈ tierAPrefixes, ∀ c ∈ tierCPaths,
    ¬c.1 ++ ['.'] <+: a ++ ['.'] ∧ ¬a ++ ['.'] <+: c.1 ++ ['.'] := by
  decide +kernel

theorem FirstDiffers.unlike {u v : Option (Setting α)} {keys : List Text}
    (h : FirstDiffers same u v keys) :
    ¬alike same (Setting.reach u keys) (Setting.reach v keys) := by
  induction keys generalizing u v with
  | nil => exact h
  | cons key keys ih =>
    rw [reach_cons, reach_cons v]
    exact ih h.2

/-- Where two dumps differ in a setting of the tables, a path under it is reported. -/
theorem exists_reported (hold : Dump old) (hnew : Dump new)
    (hpath : path ∈ tierAPrefixes ++ tierCPaths.map Prod.fst) (h : ¬AgreeAt same path old new) :
    ∃ p ∈ diffPaths same old new [], under p path = true := by
  obtain ⟨hne, hjoin, hbelow⟩ := tables_keys path hpath
  obtain ⟨keys, hkeys⟩ := not_forall.mp h
  obtain ⟨before, hbefore, hdiff⟩ := exists_firstDiffers _ _ _ hkeys
  have hwhole : path.splitOn '.' <+: before := by
    rcases prefix_or_prefix_of_prefix hbefore (prefix_append _ keys) with hshort | hlong
    · rcases hbelow before ((mem_inits _ _).mpr hshort) with rfl | hin
      · exact prefix_rfl
      · refine absurd ?_ hdiff.unlike
        rcases mem_cons.mp hin with rfl | hin
        · rfl
        · exact alike_of_isDict (hold.shaped before hin) (hnew.shaped before hin)
    · exact hlong
  obtain ⟨below, rfl⟩ := hwhole
  refine ⟨_, (mem_changedValue hnew.proper (.dict old) [] _).mpr ⟨_, rfl, hdiff⟩, ?_⟩
  rw [foldl_append, hjoin]
  exact under_foldl below hne (by simp [under])

/-- A path under a hot-applied setting is under no setting that needs a restart. -/
theorem cReason_eq_none (hpath : path ∈ tierAPrefixes) (h : under p path = true) :
    cReason p = none := by
  rw [cReason, Option.map_eq_none_iff, find?_eq_none]
  intro c hc hunder
  obtain ⟨hca, hac⟩ := tables_apart path hpath c hc
  rw [under_iff] at h hunder
  rcases prefix_or_prefix_of_prefix h hunder with hle | hle
  · exact hac hle
  · exact hca hle

def touched (paths prefixes : List Text) : Bool := prefixes.any fun pre => paths.any (under · pre)

theorem touched_of_not_agree {prefixes : List Text} (hold : Dump old) (hnew : Dump new)
    (hpath : path ∈ tierAPrefixes) (hpre : path ∈ prefixes) (h : ¬AgreeAt same path old new) :
    touched (classifyConfigUpdate same old new).applied prefixes = true := by
  obtain ⟨p, hp, hunder⟩ := exists_reported hold hnew (mem_append_left _ hpath) h
  have hnone := cReason_eq_none hpath hunder
  have hany : tierAPrefixes.any (under p) = true := any_eq_true.mpr ⟨path, hpath, hunder⟩
  refine any_eq_true.mpr ⟨path, hpre, any_eq_true.mpr ⟨p, ?_, hunder⟩⟩
  simp [classifyConfigUpdate, foldl_classifyPath, hp, hnone, hany]

/-- **The restart banner.** Nothing is pending only where every setting that needs a restart is
what it was at the start. -/
theorem agreeAt_of_nothing_pending (hold : Dump old) (hnew : Dump new)
    (h : (pendingRestartPaths same new (some old)).1 = []) :
    ∀ c ∈ tierCPaths, AgreeAt same c.1 old new := by
  intro c hc
  by_contra hdiffers
  obtain ⟨p, hp, hunder⟩ := exists_reported hold hnew
    (List.mem_append_right _ (List.mem_map_of_mem hc)) hdiffers
  have hsome : (cReason p).isSome = true := by
    rw [cReason, Option.isSome_map, List.find?_isSome]
    exact ⟨c, hc, hunder⟩
  rw [pendingRestartPaths_eq] at h
  exact absurd hsome (List.filter_eq_nil_iff.mp h p hp)

end Reported

/-- A configuration with the key of a provider and a model. -/
def smallConfig (key model : Bool) : List (Text × Setting Bool) := [
  ("providers".toList, .dict [("key".toList, .leaf key)]),
  ("tools".toList, .dict [("sandbox".toList, .dict [])]), ("gateway".toList, .dict []),
  ("agents".toList, .dict [("defaults".toList, .dict [("model".toList, .leaf model)]),
    ("sessions".toList, .dict [])])]

theorem dump_smallConfig (key model : Bool) : Dump (smallConfig key model) where
  proper := by
    have hempty : (Setting.dict ([] : List (Text × Setting Bool))).Proper := .dict (by simp) (by simp)
    have hone : ∀ name (v : Setting Bool), v.Proper → (Setting.dict [(name, v)]).Proper :=
      fun _ _ hv => .dict (by simp) (by simpa using hv)
    refine .dict (by revert key model; decide +kernel) ?_
    simp only [smallConfig, forall_mem_cons]
    refine ⟨hone _ _ (.leaf _), hone _ _ hempty, hempty, .dict (by revert model; decide +kernel) ?_, by simp⟩
    simp only [forall_mem_cons]
    exact ⟨hone _ _ (.leaf _), hempty, by simp⟩
  shaped := by
    revert key model
    decide +kernel

theorem diffPaths_smallConfig :
    "providers.key".toList ∈
        diffPaths (· == ·) (smallConfig false false) (smallConfig true false) [] ↔
      ∃ keys, "providers.key".toList = List.foldl pathOf [] keys ∧ FirstDiffers (· == ·)
        (some (.dict (smallConfig false false))) (some (.dict (smallConfig true false))) keys :=
  (diffPaths_exact (dump_smallConfig true false).proper).1 _

theorem agreeAt_smallConfig :
    diffPaths (· == ·) (smallConfig false false) (smallConfig true true) [] ≠ [] ∧
      ∀ c ∈ tierCPaths, AgreeAt (· == ·) c.1 (smallConfig false false) (smallConfig true true) :=
  ⟨by decide +kernel,
    agreeAt_of_nothing_pending (dump_smallConfig _ _) (dump_smallConfig _ _) (by decide +kernel)⟩

end MiqroForge.Configuration
