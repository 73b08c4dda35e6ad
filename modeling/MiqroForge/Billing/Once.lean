import MiqroForge.Billing.Charges
import Mathlib.Data.List.Nodup

/-!
A Slurm job is billed at most once: what a run of the billing keeps, and the condition on its steps.
-/

namespace MiqroForge.Billing

open PyText State List

/-- What a report asks to be billed. -/
def Report.deduction (r : Report) : Option Deduction :=
  r.account.map fun a => ⟨a, r.serverName, r.jobId⟩

theorem Report.deduction_of {r : Report} {a : Account} (h : r.account = some a) :
    r.deduction = some ⟨a, r.serverName, r.jobId⟩ := by
  rw [Report.deduction, h]
  rfl

/-- One job of one user, whether the desktop knows the user's name or not. -/
def Deduction.SameJob (d d' : Deduction) : Prop :=
  d.account.user = d'.account.user ∧ d.serverName = d'.serverName ∧ d.jobId = d'.jobId

instance (d d' : Deduction) : Decidable (d.SameJob d') := inferInstanceAs (Decidable (_ ∧ _ ∧ _))

/-! ## The invariant -/

structure Inv (s : State) : Prop where
  ids : (s.charges.map Charge.id).Nodup
  next : ∀ c ∈ s.charges, c.id < s.nextId
  /-- A job of an account with a name has one charge that runs, and it is not applied yet. -/
  single : ∀ c ∈ s.charges, ∀ c' ∈ s.charges, c.deduction.account.sub ≠ [] →
    c.deduction = c'.deduction → c.id = c'.id
  pending : ∀ c ∈ s.charges, c.deduction.account.sub ≠ [] → c.deduction ∉ s.applied
  once : ∀ d : Deduction, d.account.sub ≠ [] → s.applied.count d ≤ 1
  /-- What is applied is recorded, and what is recorded is applied. -/
  kept : ∀ d ∈ s.applied, d.account.sub ≠ [] → d.jobKey ∈ s.billedJobIds ∧ d.jobKey ∈ s.billedIndex
  billedJob : ∀ k, k ∈ s.billedJobIds ∨ k ∈ s.billedIndex →
    ∃ d ∈ s.applied, d.account.sub ≠ [] ∧ d.jobKey = k
  billedCharge : ∀ x ∈ s.billedChargeIds,
    ∃ r ∈ s.reports, r.chargeId = x ∧ ∃ d ∈ s.applied, r.deduction = some d
  billedEntry : ∀ e ∈ s.history, e.status = .billed →
    e.deduction ∈ s.applied ∧
      ∃ r ∈ s.reports, r.chargeId = e.chargeId ∧ r.deduction = some e.deduction
  /-- Charges and deductions come from reports. -/
  appliedReport : ∀ d ∈ s.applied, ∃ r ∈ s.reports, r.deduction = some d
  chargeReport : ∀ c ∈ s.charges,
    ∃ r ∈ s.reports, r.chargeId = c.chargeId ∧ r.deduction = some c.deduction
  known : ∀ r ∈ s.reports, ∀ r' ∈ s.reports, ∀ d d', r.deduction = some d → r'.deduction = some d' →
    d.SameJob d' → d = d'
  /-- The table holds charges that run, under their own keys. -/
  tableCharge : ∀ x id, s.inFlight (.charge x) = some id →
    ∃ c ∈ s.charges, c.id = id ∧ c.chargeId = x
  tableJob : ∀ k id, s.inFlight (.job k) = some id →
    ∃ c ∈ s.charges, c.id = id ∧ c.deduction.account.sub ≠ [] ∧ c.deduction.jobKey = k
  waits : ∀ w ∈ s.waiting, ∃ c ∈ s.charges, c.id = w.2 ∧ w.1.deduction = some c.deduction
  answered : ∀ a ∈ s.answers, a.ok = true → ∃ d ∈ s.applied, a.report.deduction = some d

theorem initial_inv : Inv initial where
  ids := List.nodup_nil
  next _ h := by cases h
  single _ h := by cases h
  pending _ h := by cases h
  once _ _ := Nat.zero_le 1
  kept _ h := by cases h
  billedJob _ h := by rcases h with h | h <;> cases h
  billedCharge _ h := by cases h
  billedEntry _ h := by cases h
  appliedReport _ h := by cases h
  chargeReport _ h := by cases h
  known _ h := by cases h
  tableCharge _ _ h := by cases h
  tableJob _ _ h := by cases h
  waits _ h := by cases h
  answered _ h := by cases h

/-! ## The condition -/

/-- A report by identifiers that tell it from all others: its charge identifier was not used for
another job or account, its job key is not another job's, its job was not reported while the account
had no name (or the other way), and a charge of its job that runs is still in the table. -/
structure Distinct (s : State) (r : Report) : Prop where
  fresh : ∀ r' ∈ s.reports, r'.chargeId = r.chargeId → ∀ d ∈ r'.deduction, r.deduction = some d
  apart : ∀ d ∈ r.deduction, d.account.sub ≠ [] →
    ∀ r' ∈ s.reports, ∀ d' ∈ r'.deduction, d'.jobKey = d.jobKey → d' = d
  known : ∀ d ∈ r.deduction, ∀ r' ∈ s.reports, ∀ d' ∈ r'.deduction, d'.SameJob d → d' = d
  found : ∀ d ∈ r.deduction, d.account.sub ≠ [] →
    (∃ c ∈ s.charges, c.deduction = d) → s.joined r ≠ none

/-- A step without a defect: a report with identifiers is distinct, no deduction is applied without
its reply, and a charge is not resumed for another account without a name. -/
def Good (s : State) : Event → Prop
  | .report chargeId serverName jobId =>
    (s.reportOf chargeId serverName jobId).chargeId = [] ∨
      (s.reportOf chargeId serverName jobId).jobId = [] ∨
      Distinct s (s.reportOf chargeId serverName jobId)
  | .reply _ reply => reply = .done ∨ reply.applied = false
  | .refreshed id _ => ∀ c ∈ s.charges, c.id = id → ∀ fresh ∈ s.current,
      fresh.sub = c.deduction.account.sub → fresh = c.deduction.account
  | .restart applied => ∀ c ∈ s.charges, c.isOut = true → c.id ∉ applied
  | _ => True

instance (s : State) (r : Report) : Decidable (Distinct s r) :=
  decidable_of_iff
    ((∀ r' ∈ s.reports, r'.chargeId = r.chargeId → ∀ d ∈ r'.deduction, r.deduction = some d) ∧
      (∀ d ∈ r.deduction, d.account.sub ≠ [] →
        ∀ r' ∈ s.reports, ∀ d' ∈ r'.deduction, d'.jobKey = d.jobKey → d' = d) ∧
      (∀ d ∈ r.deduction, ∀ r' ∈ s.reports, ∀ d' ∈ r'.deduction, d'.SameJob d → d' = d) ∧
      ∀ d ∈ r.deduction, d.account.sub ≠ [] →
        (∃ c ∈ s.charges, c.deduction = d) → s.joined r ≠ none)
    ⟨fun h => ⟨h.1, h.2.1, h.2.2.1, h.2.2.2⟩, fun h => ⟨h.fresh, h.apart, h.known, h.found⟩⟩

instance (s : State) : ∀ e, Decidable (Good s e)
  | .report .. => inferInstanceAs (Decidable (_ ∨ _ ∨ _))
  | .reply .. => inferInstanceAs (Decidable (_ ∨ _))
  | .refreshed id _ => inferInstanceAs (Decidable (∀ c ∈ s.charges, c.id = id → ∀ fresh ∈ s.current,
      fresh.sub = c.deduction.account.sub → fresh = c.deduction.account))
  | .restart applied =>
    inferInstanceAs (Decidable (∀ c ∈ s.charges, c.isOut = true → c.id ∉ applied))
  | .login _ | .identify | .logout => isTrue trivial

/-! ## Job keys -/

theorem jobKeyOf_eq (d : Deduction) :
    jobKeyOf d.account d.serverName d.jobId =
      if d.account.sub = [] then none else some d.jobKey := rfl

theorem jobKeyOf_some {d : Deduction} {k : Text}
    (h : jobKeyOf d.account d.serverName d.jobId = some k) : d.account.sub ≠ [] ∧ k = d.jobKey := by
  rw [jobKeyOf_eq] at h
  split at h
  · cases h
  · rename_i hsub
    exact ⟨hsub, (Option.some.inj h).symm⟩

theorem jobKeyOf_named {d : Deduction} (h : d.account.sub ≠ []) :
    jobKeyOf d.account d.serverName d.jobId = some d.jobKey := by
  rw [jobKeyOf_eq, if_neg h]

/-! ## Reports -/

section

variable {s : State}

theorem Inv.same (h : Inv s) {c c' : Charge} (hc : c ∈ s.charges) (hc' : c' ∈ s.charges)
    (hid : c.id = c'.id) : c = c' :=
  inj_on_of_nodup_map h.ids hc hc' hid

theorem Inv.answer (h : Inv s) (r : Report) (ok : Bool)
    (hok : ok = true → ∃ d ∈ s.applied, r.deduction = some d) : Inv (s.answer r ok) :=
  { h with
    answered := fun a ha => by
      rcases mem_cons.mp ha with rfl | ha
      · exact hok
      · exact h.answered a ha }

theorem Inv.wait (h : Inv s) {r : Report} {c : Charge} (hc : c ∈ s.charges)
    (hr : r.deduction = some c.deduction) :
    Inv { s with waiting := (r, c.id) :: s.waiting } :=
  { h with
    waits := fun w hw => by
      rcases mem_cons.mp hw with rfl | hw
      · exact ⟨c, hc, rfl, hr⟩
      · exact h.waits w hw }

theorem Distinct.reported {r : Report} (hr : Distinct s r) :
    Distinct { s with reports := r :: s.reports } r where
  fresh r' hr' hx d hd := by
    rcases mem_cons.mp hr' with rfl | hr'
    · exact hd
    · exact hr.fresh r' hr' hx d hd
  apart d hd hsub r' hr' d' hd' hkey := by
    rcases mem_cons.mp hr' with rfl | hr'
    · exact Option.some.inj (hd'.symm.trans hd)
    · exact hr.apart d hd hsub r' hr' d' hd' hkey
  known d hd r' hr' d' hd' hsame := by
    rcases mem_cons.mp hr' with rfl | hr'
    · exact Option.some.inj (hd'.symm.trans hd)
    · exact hr.known d hd r' hr' d' hd' hsame
  found := hr.found

theorem Inv.reported (h : Inv s) {r : Report} (hr : Distinct s r) :
    Inv { s with reports := r :: s.reports } :=
  { h with
    billedCharge := fun x hx => by
      obtain ⟨r', hr', hrest⟩ := h.billedCharge x hx
      exact ⟨r', mem_cons_of_mem r hr', hrest⟩
    billedEntry := fun e he hbilled => by
      obtain ⟨happ, r', hr', hrest⟩ := h.billedEntry e he hbilled
      exact ⟨happ, r', mem_cons_of_mem r hr', hrest⟩
    appliedReport := fun d hd => by
      obtain ⟨r', hr', hrest⟩ := h.appliedReport d hd
      exact ⟨r', mem_cons_of_mem r hr', hrest⟩
    chargeReport := fun c hc => by
      obtain ⟨r', hr', hrest⟩ := h.chargeReport c hc
      exact ⟨r', mem_cons_of_mem r hr', hrest⟩
    known := fun r₁ h₁ r₂ h₂ d d' hd hd' hsame => by
      rcases mem_cons.mp h₁ with rfl | m₁ <;> rcases mem_cons.mp h₂ with rfl | m₂
      · exact Option.some.inj (hd.symm.trans hd')
      · exact (hr.known d hd r₂ m₂ d' hd' ⟨hsame.1.symm, hsame.2.1.symm, hsame.2.2.symm⟩).symm
      · exact hr.known d' hd' r₁ m₁ d hd hsame
      · exact h.known r₁ m₁ r₂ m₂ d d' hd hd' hsame }

theorem Inv.joined (h : Inv s) {r : Report} (hr : Distinct s r) {id : Nat}
    (hid : s.joined r = some id) :
    ∃ c ∈ s.charges, c.id = id ∧ r.deduction = some c.deduction := by
  unfold State.joined at hid
  rcases Option.or_eq_some_iff.mp hid with hcharge | ⟨-, hjob⟩
  · obtain ⟨c, hc, hcid, hx⟩ := h.tableCharge _ _ hcharge
    obtain ⟨r', hr', hr'x, hr'd⟩ := h.chargeReport c hc
    exact ⟨c, hc, hcid, hr.fresh r' hr' (hr'x.trans hx) _ hr'd⟩
  · obtain ⟨key, hkey, htable⟩ := Option.bind_eq_some_iff.mp hjob
    obtain ⟨a, ha, hkey⟩ := Option.bind_eq_some_iff.mp hkey
    have hrd := Report.deduction_of ha
    obtain ⟨hsub, rfl⟩ := jobKeyOf_some (d := ⟨a, r.serverName, r.jobId⟩) hkey
    obtain ⟨c, hc, hcid, -, hckey⟩ := h.tableJob _ _ htable
    obtain ⟨r', hr', -, hr'd⟩ := h.chargeReport c hc
    have heq := hr.apart _ hrd hsub r' hr' _ hr'd hckey
    exact ⟨c, hc, hcid, by rw [hrd, heq]⟩

theorem Inv.recorded (h : Inv s) {r : Report} (hr : Distinct s r) {a : Account}
    (ha : r.account = some a) {e : HistoryEntry}
    (he : s.recorded r.chargeId (jobKeyOf a r.serverName r.jobId) = some e)
    (hbilled : e.status = .billed) : ∃ d ∈ s.applied, r.deduction = some d := by
  have hrd := Report.deduction_of ha
  unfold State.recorded at he
  rcases Option.or_eq_some_iff.mp he with hfind | ⟨-, hfind⟩
  · have hx : e.chargeId = r.chargeId := by simpa using find?_some hfind
    obtain ⟨happ, r', hr', hr'x, hr'd⟩ := h.billedEntry e (mem_of_find?_eq_some hfind) hbilled
    exact ⟨e.deduction, happ, hr.fresh r' hr' (hr'x.trans hx) _ hr'd⟩
  · obtain ⟨key, hkey, hfind⟩ := Option.bind_eq_some_iff.mp hfind
    obtain ⟨hsub, rfl⟩ := jobKeyOf_some (d := ⟨a, r.serverName, r.jobId⟩) hkey
    have hx : e.status = .billed ∧ e.jobKey = (⟨a, r.serverName, r.jobId⟩ : Deduction).jobKey := by
      simpa using find?_some hfind
    obtain ⟨happ, r', hr', -, hr'd⟩ := h.billedEntry e (mem_of_find?_eq_some hfind) hbilled
    have heq := hr.apart _ hrd hsub r' hr' _ hr'd hx.2
    exact ⟨e.deduction, happ, by rw [hrd, heq]⟩

theorem Inv.remembered (h : Inv s) {r : Report} (hr : Distinct s r) {a : Account}
    (ha : r.account = some a)
    (hmem : r.chargeId ∈ s.billedChargeIds ∨
      ∃ k ∈ jobKeyOf a r.serverName r.jobId, k ∈ s.billedJobIds) :
    ∃ d ∈ s.applied, r.deduction = some d := by
  have hrd := Report.deduction_of ha
  rcases hmem with hx | ⟨k, hk, hmem⟩
  · obtain ⟨r', hr', hr'x, d, happ, hr'd⟩ := h.billedCharge _ hx
    exact ⟨d, happ, hr.fresh r' hr' hr'x d hr'd⟩
  · obtain ⟨hsub, rfl⟩ := jobKeyOf_some (d := ⟨a, r.serverName, r.jobId⟩) hk
    obtain ⟨d, happ, -, hkey⟩ := h.billedJob _ (.inl hmem)
    obtain ⟨r', hr', hr'd⟩ := h.appliedReport d happ
    have heq := hr.apart _ hrd hsub r' hr' d hr'd hkey
    exact ⟨d, happ, by rw [hrd, heq]⟩

theorem Inv.start (h : Inv s) {r : Report} (hr : r ∈ s.reports) {a : Account}
    (ha : r.account = some a)
    (hfree : a.sub ≠ [] → (∀ c ∈ s.charges, c.deduction ≠ ⟨a, r.serverName, r.jobId⟩) ∧
      (⟨a, r.serverName, r.jobId⟩ : Deduction) ∉ s.applied) :
    Inv (s.start a r) where
  ids := List.nodup_cons.mpr ⟨fun hid => by
    obtain ⟨c, hc, hcid⟩ := List.mem_map.mp hid
    have := h.next c hc
    simp only at hcid
    omega, h.ids⟩
  next c hc := by
    rcases mem_cons.mp hc with rfl | hc
    · exact Nat.lt_succ_self s.nextId
    · exact (h.next c hc).trans (Nat.lt_succ_self s.nextId)
  single c hc c' hc' hsub heq := by
    rcases mem_cons.mp hc with rfl | hc <;> rcases mem_cons.mp hc' with rfl | hc'
    · rfl
    · exact absurd heq.symm ((hfree hsub).1 c' hc')
    · rw [heq] at hsub
      exact absurd heq ((hfree hsub).1 c hc)
    · exact h.single c hc c' hc' hsub heq
  pending c hc hsub := by
    rcases mem_cons.mp hc with rfl | hc
    · exact (hfree hsub).2
    · exact h.pending c hc hsub
  once := h.once
  kept := h.kept
  billedJob := h.billedJob
  billedCharge := h.billedCharge
  billedEntry := h.billedEntry
  appliedReport := h.appliedReport
  chargeReport c hc := by
    rcases mem_cons.mp hc with rfl | hc
    · exact ⟨r, hr, rfl, Report.deduction_of ha⟩
    · exact h.chargeReport c hc
  known := h.known
  tableCharge x id hid := by
    simp only [State.start] at hid
    split at hid
    · rename_i hkey
      cases hid
      refine ⟨_, mem_cons_self, rfl, ?_⟩
      rcases hkey with hkey | hkey
      · exact (InFlightKey.charge.inj hkey).symm
      · cases hk : jobKeyOf a r.serverName r.jobId <;> rw [hk] at hkey <;> cases hkey
    · obtain ⟨c, hc, hrest⟩ := h.tableCharge x id hid
      exact ⟨c, mem_cons_of_mem _ hc, hrest⟩
  tableJob k id hid := by
    simp only [State.start] at hid
    split at hid
    · rename_i hkey
      cases hid
      refine ⟨_, mem_cons_self, rfl, ?_⟩
      rcases hkey with hkey | hkey
      · cases hkey
      · cases hk : jobKeyOf a r.serverName r.jobId with
        | none =>
          rw [hk] at hkey
          cases hkey
        | some key =>
          rw [hk] at hkey
          obtain rfl := InFlightKey.job.inj (Option.some.inj hkey)
          obtain ⟨hsub, rfl⟩ := jobKeyOf_some (d := ⟨a, r.serverName, r.jobId⟩) hk
          exact ⟨hsub, rfl⟩
    · obtain ⟨c, hc, hrest⟩ := h.tableJob k id hid
      exact ⟨c, mem_cons_of_mem _ hc, hrest⟩
  waits w hw := by
    rcases mem_cons.mp hw with rfl | hw
    · exact ⟨_, mem_cons_self, rfl, Report.deduction_of ha⟩
    · obtain ⟨c, hc, hrest⟩ := h.waits w hw
      exact ⟨c, mem_cons_of_mem _ hc, hrest⟩
  answered := h.answered

theorem Inv.runSlurmCharge (h : Inv s) {r : Report} (hmem : r ∈ s.reports) (hr : Distinct s r)
    (hjoined : s.joined r = none) : Inv (s.runSlurmCharge r) := by
  unfold State.runSlurmCharge
  cases ha : r.account with
  | none => exact h.answer r false (by simp)
  | some a =>
    simp only
    cases he : s.recorded r.chargeId (jobKeyOf a r.serverName r.jobId) with
    | some e => exact h.answer r _ fun hok => h.recorded hr ha he (of_decide_eq_true hok)
    | none =>
      simp only
      split
      · rename_i hremembered
        exact h.answer r true fun _ => h.remembered hr ha hremembered
      · rename_i hnot
        refine h.start hmem ha fun hsub => ⟨fun c hc heq => ?_, fun happ => ?_⟩
        · exact hr.found _ (Report.deduction_of ha) hsub ⟨c, hc, heq⟩ hjoined
        · refine hnot (.inr ⟨_, ?_, (h.kept _ happ hsub).1⟩)
          exact jobKeyOf_named (d := ⟨a, r.serverName, r.jobId⟩) hsub

theorem Inv.chargeSlurmJob (h : Inv s) (chargeId serverName jobId : Text)
    (hgood : Good s (.report chargeId serverName jobId)) :
    Inv (s.chargeSlurmJob chargeId serverName jobId) := by
  have hempty : Inv (s.answer (s.reportOf chargeId serverName jobId) false) :=
    h.answer _ false (by simp)
  unfold State.chargeSlurmJob
  dsimp only
  split
  · exact hempty
  · rename_i hids
    push Not at hids
    have hr : Distinct s (s.reportOf chargeId serverName jobId) :=
      (hgood.resolve_left hids.1).resolve_left hids.2
    have h' := h.reported hr
    cases hid : s.joined (s.reportOf chargeId serverName jobId) with
    | some id =>
      obtain ⟨c, hc, rfl, hd⟩ := h.joined hr hid
      exact h'.wait hc hd
    | none => exact h'.runSlurmCharge mem_cons_self hr.reported hid

/-! ## The end of a charge -/

/-- The state without a charge, what waits for it and its keys. -/
def State.drop (s : State) (c : Charge) : State :=
  { s with
    charges := s.charges.filter fun c' => decide (c'.id ≠ c.id)
    waiting := s.waiting.filter fun w => decide (w.2 ≠ c.id)
    inFlight := fun k =>
      if k = .charge c.chargeId ∨
          some k = (jobKeyOf c.deduction.account c.deduction.serverName c.deduction.jobId).map .job
        then none
      else s.inFlight k }

/-- The answers to those who wait for a charge. -/
def State.answersOf (s : State) (c : Charge) (ok : Bool) : List Answer :=
  (s.waiting.filter fun w => decide (w.2 = c.id)).map fun w => ⟨w.1, ok⟩

theorem finish_eq (s : State) (c : Charge) (ok : Bool) :
    s.finish c ok = { s.drop c with answers := s.answersOf c ok ++ s.answers } := rfl

theorem Inv.drop (h : Inv s) {c : Charge} (hc : c ∈ s.charges) : Inv (s.drop c) where
  ids := (List.filter_sublist.map Charge.id).nodup h.ids
  next c' hc' := h.next c' (List.mem_of_mem_filter hc')
  single c₁ h₁ c₂ h₂ := h.single c₁ (List.mem_of_mem_filter h₁) c₂ (List.mem_of_mem_filter h₂)
  pending c' hc' := h.pending c' (List.mem_of_mem_filter hc')
  once := h.once
  kept := h.kept
  billedJob := h.billedJob
  billedCharge := h.billedCharge
  billedEntry := h.billedEntry
  appliedReport := h.appliedReport
  chargeReport c' hc' := h.chargeReport c' (List.mem_of_mem_filter hc')
  known := h.known
  tableCharge x id hid := by
    simp only [State.drop] at hid
    split at hid
    · cases hid
    · rename_i hkey
      push Not at hkey
      obtain ⟨c', hc', rfl, rfl⟩ := h.tableCharge x id hid
      refine ⟨c', mem_filter.mpr ⟨hc', decide_eq_true fun heq => ?_⟩, rfl, rfl⟩
      obtain rfl := h.same hc' hc heq
      exact hkey.1 rfl
  tableJob k id hid := by
    simp only [State.drop] at hid
    split at hid
    · cases hid
    · rename_i hkey
      push Not at hkey
      obtain ⟨c', hc', rfl, hsub, rfl⟩ := h.tableJob k id hid
      refine ⟨c', mem_filter.mpr ⟨hc', decide_eq_true fun heq => ?_⟩, rfl, hsub, rfl⟩
      obtain rfl := h.same hc' hc heq
      exact hkey.2 (by rw [jobKeyOf_named hsub]; rfl)
  waits w hw := by
    obtain ⟨hw, hne⟩ := mem_filter.mp hw
    obtain ⟨c', hc', hid, hd⟩ := h.waits w hw
    exact ⟨c', mem_filter.mpr ⟨hc', by simpa [hid] using hne⟩, hid, hd⟩
  answered := h.answered

theorem Inv.answersOf (h : Inv s) {c : Charge} (hc : c ∈ s.charges) {ok : Bool} {a : Answer}
    (ha : a ∈ s.answersOf c ok) : a.ok = ok ∧ a.report.deduction = some c.deduction := by
  obtain ⟨w, hw, rfl⟩ := mem_map.mp ha
  obtain ⟨hw, hid⟩ := mem_filter.mp hw
  obtain ⟨c', hc', hc'w, hd⟩ := h.waits w hw
  obtain rfl := h.same hc' hc (hc'w.trans (of_decide_eq_true hid))
  exact ⟨rfl, hd⟩

theorem Inv.fail (h : Inv s) {c : Charge} (hc : c ∈ s.charges) {status : BillingStatus}
    (hstatus : status ≠ .billed) : Inv (s.fail c status) :=
  { h.drop hc with
    billedEntry := fun e he hbilled => by
      rcases mem_cons.mp (mem_of_mem_take he) with rfl | he
      · exact absurd hbilled hstatus
      · exact h.billedEntry e he hbilled
    answered := fun a ha hok => by
      rcases mem_append.mp ha with ha | ha
      · rw [(h.answersOf hc ha).1] at hok
        cases hok
      · exact h.answered a ha hok }

theorem Inv.alone (h : Inv s) {c : Charge} (hc : c ∈ s.charges)
    (hsub : c.deduction.account.sub ≠ []) :
    ∀ c' ∈ (s.drop c).charges, c'.deduction ≠ c.deduction := by
  intro c' hc' heq
  obtain ⟨hc', hne⟩ := mem_filter.mp hc'
  refine of_decide_eq_true hne (h.single c' hc' c hc ?_ heq)
  rw [heq]
  exact hsub

theorem Inv.billed (h : Inv s) {c : Charge} (hc : c ∈ s.charges) (jobs index : List Text)
    (hjobs : ∀ k, k ∈ jobs ↔
      (c.deduction.account.sub ≠ [] ∧ k = c.deduction.jobKey) ∨ k ∈ s.billedJobIds)
    (hindex : ∀ k, k ∈ index ↔
      (c.deduction.account.sub ≠ [] ∧ k = c.deduction.jobKey) ∨ k ∈ s.billedIndex) :
    Inv { s.drop c with
      applied := c.deduction :: s.applied
      billedChargeIds := c.chargeId :: s.billedChargeIds
      billedJobIds := jobs
      billedIndex := index
      history := (⟨c.chargeId, .billed, c.deduction⟩ :: s.history).take maxBillingHistory
      answers := s.answersOf c true ++ s.answers } := by
  obtain ⟨r, hr, hrx, hrd⟩ := h.chargeReport c hc
  exact { h.drop hc with
    pending := fun c' hc' hsub happ => by
      rcases mem_cons.mp happ with heq | happ
      · exact h.alone hc (heq ▸ hsub) c' hc' heq
      · exact h.pending c' (mem_of_mem_filter hc') hsub happ
    once := fun d hsub => by
      by_cases hd : d = c.deduction
      · subst hd
        rw [count_cons_self, count_eq_zero_of_not_mem (h.pending c hc hsub)]
      · rw [count_cons_of_ne (Ne.symm hd)]
        exact h.once d hsub
    kept := fun d hd hsub => by
      rcases mem_cons.mp hd with rfl | hd
      · exact ⟨(hjobs _).mpr (.inl ⟨hsub, rfl⟩), (hindex _).mpr (.inl ⟨hsub, rfl⟩)⟩
      · obtain ⟨hjob, hstored⟩ := h.kept d hd hsub
        exact ⟨(hjobs _).mpr (.inr hjob), (hindex _).mpr (.inr hstored)⟩
    billedJob := fun k hk => by
      have hold : (c.deduction.account.sub ≠ [] ∧ k = c.deduction.jobKey) ∨
          k ∈ s.billedJobIds ∨ k ∈ s.billedIndex := by
        rcases hk with hk | hk
        · exact ((hjobs k).mp hk).imp_right .inl
        · exact ((hindex k).mp hk).imp_right .inr
      rcases hold with ⟨hsub, rfl⟩ | hold
      · exact ⟨c.deduction, mem_cons_self, hsub, rfl⟩
      · obtain ⟨d, hd, hrest⟩ := h.billedJob k hold
        exact ⟨d, mem_cons_of_mem _ hd, hrest⟩
    billedCharge := fun x hx => by
      rcases mem_cons.mp hx with rfl | hx
      · exact ⟨r, hr, hrx, c.deduction, mem_cons_self, hrd⟩
      · obtain ⟨r', hr', hr'x, d, hd, hr'd⟩ := h.billedCharge x hx
        exact ⟨r', hr', hr'x, d, mem_cons_of_mem _ hd, hr'd⟩
    billedEntry := fun e he hbilled => by
      rcases mem_cons.mp (mem_of_mem_take he) with rfl | he
      · exact ⟨mem_cons_self, r, hr, hrx, hrd⟩
      · obtain ⟨hd, hrest⟩ := h.billedEntry e he hbilled
        exact ⟨mem_cons_of_mem _ hd, hrest⟩
    appliedReport := fun d hd => by
      rcases mem_cons.mp hd with rfl | hd
      · exact ⟨r, hr, hrd⟩
      · exact h.appliedReport d hd
    answered := fun a ha hok => by
      rcases mem_append.mp ha with ha | ha
      · exact ⟨c.deduction, mem_cons_self, (h.answersOf hc ha).2⟩
      · obtain ⟨d, hd, hrest⟩ := h.answered a ha hok
        exact ⟨d, mem_cons_of_mem _ hd, hrest⟩ }

theorem Inv.succeed (h : Inv s) {c : Charge} (hc : c ∈ s.charges) :
    Inv ((s.apply c.deduction true).succeed c) := by
  unfold State.succeed
  rw [finish_eq]
  unfold State.appendHistory State.recordBilled
  rw [jobKeyOf_eq]
  by_cases hsub : c.deduction.account.sub = []
  · rw [if_pos hsub]
    exact h.billed hc s.billedJobIds s.billedIndex (by simp [hsub]) (by simp [hsub])
  · rw [if_neg hsub]
    refine h.billed hc (c.deduction.jobKey :: s.billedJobIds)
      (if c.deduction.jobKey ∈ s.billedIndex then s.billedIndex
        else s.billedIndex ++ [c.deduction.jobKey]) (by simp [hsub]) fun k => ?_
    split
    · rename_i hmem
      have hk : k = c.deduction.jobKey → k ∈ s.billedIndex := fun hk => hk ▸ hmem
      simpa [hsub] using hk
    · simp [hsub, or_comm]

/-! ## The steps of a charge -/

theorem Inv.moved (h : Inv s) {f : Charge → Charge} (hid : ∀ c, (f c).id = c.id)
    (hx : ∀ c, (f c).chargeId = c.chargeId) (hd : ∀ c ∈ s.charges, (f c).deduction = c.deduction) :
    Inv { s with charges := s.charges.map f } where
  ids := by
    have hcomp : Charge.id ∘ f = Charge.id := funext hid
    rw [map_map, hcomp]
    exact h.ids
  next := forall_mem_map.mpr fun c hc => by
    rw [hid]
    exact h.next c hc
  single := forall_mem_map.mpr fun c hc => forall_mem_map.mpr fun c' hc' => by
    rw [hid, hid, hd c hc, hd c' hc']
    exact h.single c hc c' hc'
  pending := forall_mem_map.mpr fun c hc => by
    rw [hd c hc]
    exact h.pending c hc
  once := h.once
  kept := h.kept
  billedJob := h.billedJob
  billedCharge := h.billedCharge
  billedEntry := h.billedEntry
  appliedReport := h.appliedReport
  chargeReport := forall_mem_map.mpr fun c hc => by
    rw [hx, hd c hc]
    exact h.chargeReport c hc
  known := h.known
  tableCharge x id hid' := by
    obtain ⟨c, hc, hrest⟩ := h.tableCharge x id hid'
    exact ⟨f c, mem_map_of_mem hc, by rwa [hid, hx]⟩
  tableJob k id hid' := by
    obtain ⟨c, hc, hrest⟩ := h.tableJob k id hid'
    exact ⟨f c, mem_map_of_mem hc, by rwa [hid, hd c hc]⟩
  waits w hw := by
    obtain ⟨c, hc, hrest⟩ := h.waits w hw
    exact ⟨f c, mem_map_of_mem hc, by rwa [hid, hd c hc]⟩
  answered := h.answered

theorem Inv.setStage (h : Inv s) (c : Charge) (stage : Stage) : Inv (s.setStage c stage) := by
  refine h.moved (f := fun c' => if c'.id = c.id then { c' with stage := stage } else c')
    (fun c' => ?_) (fun c' => ?_) fun c' _ => ?_ <;>
  · split <;> rfl

theorem Inv.logout (h : Inv s) : Inv s.logout :=
  { h with
    tableCharge := fun x id hid => by cases hid
    tableJob := fun k id hid => by cases hid }

theorem apply_false (s : State) (d : Deduction) : s.apply d false = s := rfl

theorem Inv.receive (h : Inv s) {c : Charge} (hc : c ∈ s.charges) {reply : Reply}
    (hgood : reply = .done ∨ reply.applied = false) :
    Inv ((s.apply c.deduction reply.applied).receive c reply) := by
  rcases hgood with rfl | happ
  · exact h.succeed hc
  · have hfail : Inv (s.fail c .error) := h.fail hc (by decide)
    rw [happ, apply_false]
    cases reply with
    | done => cases happ
    | insufficient => exact h.fail hc (by decide)
    | broken _ => exact hfail
    | lost _ =>
      simp only [State.receive]
      cases c.stage with
      | refreshing => exact h
      | deducting attempt | retrying attempt =>
        simp only
        split
        · exact h.setStage c _
        · exact hfail
    | expired =>
      simp only [State.receive]
      cases c.stage with
      | deducting attempt => exact h.setStage c _
      | refreshing => exact h
      | retrying attempt =>
        by_cases hgen : s.authGeneration = c.generation
        · have hlogout : Inv (s.logout.fail c .error) := h.logout.fail hc (by decide)
          rw [if_pos hgen]
          exact hlogout
        · rw [if_neg hgen]
          exact hfail

theorem Inv.resume (h : Inv s) {c : Charge} (hc : c ∈ s.charges) (refreshed : Bool)
    (hgood : ∀ fresh ∈ s.current, fresh.sub = c.deduction.account.sub →
      fresh = c.deduction.account) :
    Inv (s.resume c refreshed) := by
  have hfail : Inv (s.fail c .error) := h.fail hc (by decide)
  unfold State.resume
  split
  · rename_i fresh hfresh
    split
    · rename_i hsame
      refine h.moved (f := fun c' => if c'.id = c.id then
          { c' with stage := .retrying 0, deduction := { c'.deduction with account := fresh } }
        else c') (fun c' => ?_) (fun c' => ?_) fun c' hc' => ?_
      · split <;> rfl
      · split <;> rfl
      · split
        · rename_i hid
          obtain rfl := h.same hc' hc hid
          rw [hgood fresh hfresh hsame.2]
        · rfl
    · exact hfail
  · exact hfail

theorem Inv.restart (h : Inv s) : Inv s.restart where
  ids := List.nodup_nil
  next _ hc := by cases hc
  single _ hc := by cases hc
  pending _ hc := by cases hc
  once := h.once
  kept d hd hsub := ⟨(h.kept d hd hsub).2, (h.kept d hd hsub).2⟩
  billedJob k hk := h.billedJob k (.inr (or_self_iff.mp hk))
  billedCharge x hx := by
    obtain ⟨e, he, rfl⟩ := mem_map.mp hx
    obtain ⟨he, hbilled⟩ := mem_filter.mp he
    obtain ⟨hd, r, hr, hrx, hrd⟩ := h.billedEntry e he (of_decide_eq_true hbilled)
    exact ⟨r, hr, hrx, e.deduction, hd, hrd⟩
  billedEntry := h.billedEntry
  appliedReport := h.appliedReport
  chargeReport _ hc := by cases hc
  known := h.known
  tableCharge _ _ hid := by cases hid
  tableJob _ _ hid := by cases hid
  waits _ hw := by cases hw
  answered := h.answered

end

/-! ## Runs -/

theorem Inv.step {s s' : State} {e : Event} (h : Inv s) (hgood : Good s e)
    (hstep : step s e = some s') : Inv s' := by
  cases e with
  | report chargeId serverName jobId =>
    cases hstep
    exact h.chargeSlurmJob chargeId serverName jobId hgood
  | reply id reply =>
    simp only [Billing.step] at hstep
    split at hstep
    · cases hstep
    · rename_i c hfind
      split at hstep
      · cases hstep
        exact h.receive (mem_of_find?_eq_some hfind) hgood
      · cases hstep
  | refreshed id ok =>
    simp only [Billing.step] at hstep
    split at hstep
    · cases hstep
    · rename_i c hfind
      split at hstep
      · cases hstep
      · cases hstep
        have hc := mem_of_find?_eq_some hfind
        exact h.resume hc ok (hgood c hc (by simpa using find?_some hfind))
  | login account | identify =>
    cases hstep
    exact { h with }
  | logout =>
    cases hstep
    exact h.logout
  | restart applied =>
    cases hstep
    have hnone : (s.charges.filter fun c => c.isOut && applied.contains c.id) = [] := by
      refine filter_eq_nil_iff.mpr fun c hc hout => ?_
      obtain ⟨hout, hmem⟩ := Bool.and_eq_true_iff.mp hout
      exact hgood c hc hout (contains_iff_mem.mp hmem)
    rw [hnone]
    exact h.restart

theorem run_inv {s : State} {events : List Event} (hrun : Steps.run step initial events = some s)
    (hgood : Steps.GoodRun step Good initial events) : Inv s :=
  Steps.goodRun_invariant step Good Inv (fun _ _ _ h hgood hstep => h.step hgood hstep) initial s
    events initial_inv hrun hgood

theorem Inv.countP_sameJob {s : State} (h : Inv s) {d : Deduction} (hd : d ∈ s.applied)
    (hsub : d.account.sub ≠ []) : s.applied.countP (fun d' => decide (d.SameJob d')) ≤ 1 := by
  obtain ⟨r, hr, hrd⟩ := h.appliedReport d hd
  refine le_trans (countP_mono_left (q := fun d' => d' == d) fun d' hd' hsame => ?_)
    (h.once d hsub)
  obtain ⟨r', hr', hr'd⟩ := h.appliedReport d' hd'
  exact beq_iff_eq.mpr (h.known r hr r' hr' d d' hrd hr'd (of_decide_eq_true hsame)).symm

end MiqroForge.Billing
