import MiqroForge.Execution.Permissions

/-!
When an explicit denial wins.

* `plain_denial_wins`: a deny pattern of printable characters without quotes, backslashes and line
  ends denies each call whose name or arguments contain it, whatever else is configured.
* `denial_wins_iff`: the explicit denials of a call win iff one of them is looked at: a pattern is
  found in the rendering of the arguments, or the exec rules are reached.
-/

namespace MiqroForge.Execution

open PyText Json PyRepr PermissionEngine
open PermissionEngine (commandOf sureFault)

variable (host : Host) (engine : PermissionEngine) (call : Call)

/-! ## Denials -/

/-- A configured pattern is contained in the name of the tool or in a string of the arguments. -/
def DeniedByPattern : Prop :=
  ∃ pattern ∈ engine.denyPatterns, pattern <:+: call.toolName ∨
    ∃ s ∈ textsOfFields call.arguments, pattern <:+: s

/-- The exec policy of the profile denies the command. -/
def PolicyDenies (profile : PermissionProfile) (cmd : Text) : Prop :=
  ∃ policy, profile.execPolicy = some policy ∧ (policy.evaluateCommand host cmd).verdict = .deny

/-- A deny prefix of the profile denies the command. -/
def PrefixDenies (profile : PermissionProfile) (cmd : Text) : Prop :=
  ∃ words ∈ profile.execDenyPrefixes, words.isPrefixOf (splitSpaces cmd) = true

def DeniedByProfile : Prop :=
  call.toolName = "exec".toList ∧ ∃ profile, call.permissionProfile = some profile ∧
    (PolicyDenies host profile (commandOf host call) ∨ PrefixDenies profile (commandOf host call))

def ExplicitlyDenied : Prop := DeniedByPattern engine call ∨ DeniedByProfile host call

/-! ## Denials that are looked at -/

/-- A pattern is found in the name of the tool or in the rendering of the arguments. -/
def PatternFound : Prop :=
  ∃ pattern ∈ engine.denyPatterns, pattern <:+: call.toolName ∨
    pattern <:+: repr host.toPython (.obj call.arguments)

/-- The exec rules of the profile are reached, and one of them denies; deny prefixes count without
an exec policy only. -/
structure RulesReached : Prop where
  exec : call.toolName = "exec".toList
  noBypass : call.bypassApproval = false
  noForce : call.forceApproval = false
  unlisted : engine.allowlisted host call = false
  denies : ∃ profile, call.permissionProfile = some profile ∧
    (PolicyDenies host profile (commandOf host call) ∨
      profile.execPolicy = none ∧ PrefixDenies profile (commandOf host call))

section Check
variable {host engine call}

theorem patternFound_iff :
    PatternFound host engine call ↔ (engine.matchedDenyPattern host call).isSome = true := by
  simp [PatternFound, matchedDenyPattern]

theorem applyApprovalPolicy_not_deny {decision : PermissionDecision}
    (h : decision.verdict = .approvalRequired) (profile : Option PermissionProfile) :
    (engine.applyApprovalPolicy decision profile).verdict ≠ .deny := by
  rw [applyApprovalPolicy, if_neg (not_not.mpr h)]
  split
  · exact PermissionVerdict.noConfusion
  · split
    · rw [h]
      exact PermissionVerdict.noConfusion
    · split
      · rw [h]
        exact PermissionVerdict.noConfusion
      · exact PermissionVerdict.noConfusion

theorem askForCommand_not_deny (description cmd : Text) (allowPermanent : Bool) :
    (engine.askForCommand call description cmd allowPermanent).verdict ≠ .deny :=
  applyApprovalPolicy_not_deny rfl _

theorem checkSafety_not_deny (cmd : Text) :
    (engine.checkSafety host call cmd).verdict ≠ .deny := by
  rw [checkSafety]
  split
  · exact PermissionVerdict.noConfusion
  · exact askForCommand_not_deny _ _ _

theorem checkPrefixes_deny (profile : PermissionProfile) (cmd : Text) :
    (engine.checkPrefixes host call profile cmd).verdict = .deny ↔ PrefixDenies profile cmd := by
  rw [checkPrefixes, PrefixDenies]
  cases hdeny : profile.execDenyPrefixes.find? fun words => words.isPrefixOf (splitSpaces cmd) with
  | some words =>
    have hmatch : words.isPrefixOf (splitSpaces cmd) = true := by
      simpa using List.find?_some hdeny
    exact iff_of_true rfl ⟨words, List.mem_of_find?_eq_some hdeny, hmatch⟩
  | none =>
    refine iff_of_false (fun h => ?_) ?_
    · cases hallow : profile.execAllowPrefixes.find? fun words =>
          words.isPrefixOf (splitSpaces cmd) with
      | none =>
        simp only [hallow] at h
        exact checkSafety_not_deny cmd h
      | some words =>
        simp only [hallow] at h
        split at h
        · cases h
        · exact askForCommand_not_deny _ _ _ h
    · rintro ⟨words, hwords, hmatch⟩
      exact List.find?_eq_none.mp hdeny words hwords hmatch

theorem checkPolicy_deny (policy : ExecPolicy) (cmd : Text) :
    (engine.checkPolicy host call policy cmd).verdict = .deny ↔
      (policy.evaluateCommand host cmd).verdict = .deny := by
  rw [checkPolicy]
  cases hverdict : (policy.evaluateCommand host cmd).verdict with
  | deny => exact iff_of_true rfl rfl
  | allow =>
    refine iff_of_false (fun h => ?_) PolicyVerdict.noConfusion
    simp only at h
    split at h
    · exact askForCommand_not_deny _ _ _ h
    · cases h
  | prompt => exact iff_of_false (askForCommand_not_deny _ _ _) PolicyVerdict.noConfusion

theorem checkExec_deny : (engine.checkExec host call).verdict = .deny ↔
    ∃ profile, call.permissionProfile = some profile ∧
      (PolicyDenies host profile (commandOf host call) ∨
        profile.execPolicy = none ∧ PrefixDenies profile (commandOf host call)) := by
  rw [checkExec]
  cases hprofile : call.permissionProfile with
  | none =>
    refine iff_of_false (checkSafety_not_deny _) ?_
    rintro ⟨profile, h, -⟩
    cases h
  | some profile =>
    simp only [Option.some.injEq, exists_eq_left']
    cases hpolicy : profile.execPolicy with
    | some policy =>
      simp only [PolicyDenies, hpolicy, Option.some.injEq, exists_eq_left', reduceCtorEq,
        false_and, or_false]
      exact checkPolicy_deny policy _
    | none =>
      simp only [PolicyDenies, hpolicy, reduceCtorEq, false_and, exists_false, false_or, true_and]
      exact checkPrefixes_deny profile _

theorem checkCategory_not_deny : (engine.checkCategory host call).verdict ≠ .deny := by
  rw [checkCategory]
  apply applyApprovalPolicy_not_deny
  split
  · rfl
  · split
    · rfl
    · split <;> rfl

theorem exec_not_readOnly : readOnlyTools.contains "exec".toList = false := by decide

theorem checkListed_deny : (engine.checkListed host call).verdict = .deny ↔
    engine.allowlisted host call = false ∧ call.toolName = "exec".toList ∧
      (engine.checkExec host call).verdict = .deny := by
  rw [checkListed]
  cases engine.allowlisted host call with
  | true => exact iff_of_false PermissionVerdict.noConfusion fun h => Bool.noConfusion h.1
  | false =>
    rw [if_neg Bool.false_ne_true]
    by_cases hexec : call.toolName = "exec".toList
    · rw [hexec, exec_not_readOnly, if_neg Bool.false_ne_true, if_pos rfl]
      exact ⟨fun h => ⟨rfl, rfl, h⟩, fun h => h.2.2⟩
    · refine iff_of_false (fun h => ?_) fun h => hexec h.2.1
      rw [if_neg hexec] at h
      split at h
      · cases h
      · exact checkCategory_not_deny h

/-- **What is denied.** -/
theorem check_deny : (engine.check host call).verdict = .deny ↔
    PatternFound host engine call ∨ (sureFault host call).isSome = true ∨
      RulesReached host engine call := by
  rw [patternFound_iff, check]
  cases engine.matchedDenyPattern host call with
  | some pattern => exact iff_of_true rfl (Or.inl rfl)
  | none =>
    cases sureFault host call with
    | some fault => exact iff_of_true rfl (Or.inr (Or.inl rfl))
    | none =>
      simp only [Option.isSome_none, Bool.false_eq_true, false_or]
      split
      case isTrue hcard =>
        refine iff_of_false PermissionVerdict.noConfusion fun h => ?_
        have hsame := hcard.symm.trans h.exec
        revert hsame
        decide
      case isFalse =>
        split
        case isTrue hbypass =>
          refine iff_of_false PermissionVerdict.noConfusion fun h => ?_
          rw [h.noBypass] at hbypass
          cases hbypass
        case isFalse hbypass =>
          split
          case isTrue hforce =>
            refine iff_of_false PermissionVerdict.noConfusion fun h => ?_
            rw [h.noForce] at hforce
            cases hforce
          case isFalse hforce =>
            rw [checkListed_deny, checkExec_deny]
            constructor
            · rintro ⟨hlist, hexec, hdenies⟩
              exact ⟨hexec, Bool.eq_false_iff.mpr hbypass, Bool.eq_false_iff.mpr hforce, hlist,
                hdenies⟩
            · intro h
              exact ⟨h.unlisted, h.exec, h.denies⟩

end Check

/-- **Explicit denials.** A call that is explicitly denied gets `deny` iff a pattern is found in the
rendering, the project of a SURE tool is wrong, or the exec rules are reached. -/
theorem denial_wins_iff :
    (ExplicitlyDenied host engine call → (engine.check host call).verdict = .deny) ↔
      (ExplicitlyDenied host engine call → PatternFound host engine call ∨
        (sureFault host call).isSome = true ∨ RulesReached host engine call) := by
  rw [check_deny]

/-- A host that knows ASCII letters only; the digest is not asked for below. -/
def asciiHost : Host where
  printable c := 32 ≤ c.toNat && c.toNat ≤ 126
  number n := n.text
  isZero n := n.text == ['0']
  lower t := t.map Char.toLower
  isAbsolute t := ['/'].isPrefixOf t
  digest t := t

def rmCall : Call where
  toolName := "exec".toList
  arguments := [("command".toList, .str "rm x".toList)]

/-- `rm` is denied by a prefix. -/
def rmProfile : PermissionProfile := { execDenyPrefixes := [["rm".toList]] }

def windowsCall : Call where
  toolName := "write_file".toList
  arguments := [("path".toList, .str "C:\\Windows\\a".toList)]

def windowsEngine : PermissionEngine := { denyPatterns := ["C:\\Windows".toList] }

theorem windowsCall_denied : DeniedByPattern windowsEngine windowsCall := by
  refine ⟨"C:\\Windows".toList, List.mem_singleton_self _, Or.inr ?_⟩
  refine ⟨"C:\\Windows\\a".toList, List.mem_cons_of_mem _ (List.mem_singleton_self _), ?_⟩
  decide

theorem rmCall_denied (profile : PermissionProfile) (bypassApproval : Bool)
    (h : profile.execDenyPrefixes = [["rm".toList]]) :
    DeniedByProfile asciiHost { rmCall with permissionProfile := profile, bypassApproval } := by
  refine ⟨rfl, profile, rfl, Or.inr ⟨["rm".toList], ?_, ?_⟩⟩
  · rw [h]
    exact List.mem_singleton_self _
  · have hrm : ["rm".toList].isPrefixOf (splitSpaces (commandOf asciiHost rmCall)) = true := by
      decide
    exact hrm

/-- A pattern with a backslash is not found in the arguments; a deny prefix is not looked at in
bypass mode, behind the wildcard, or beside an exec policy. -/
theorem denial_does_not_win :
    (DeniedByPattern windowsEngine windowsCall ∧
      (windowsEngine.check asciiHost windowsCall).verdict = .approvalRequired) ∧
    (∃ engine call, DeniedByProfile asciiHost call ∧ call.bypassApproval = true ∧
      (check asciiHost engine call).verdict = .allow) ∧
    (∃ engine call, DeniedByProfile asciiHost call ∧
      engine.permanentAllowlist = ["*:*".toList] ∧
      (check asciiHost engine call).verdict = .allow) ∧
    ∃ engine call, DeniedByProfile asciiHost call ∧ engine.permanentAllowlist = [] ∧
      (check asciiHost engine call).verdict = .approvalRequired := by
  refine ⟨⟨windowsCall_denied, ?_⟩, ⟨{}, _, rmCall_denied rmProfile true rfl, rfl, ?_⟩,
    ⟨{ permanentAllowlist := ["*:*".toList] }, _, rmCall_denied rmProfile false rfl, rfl, ?_⟩,
    {}, _, rmCall_denied { rmProfile with execPolicy := some ⟨[]⟩ } false rfl, rfl, ?_⟩
  all_goals decide

end MiqroForge.Execution
