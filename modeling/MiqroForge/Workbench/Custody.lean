import MiqroForge.Workbench.Registry
import Mathlib.Data.List.Nodup

/-!
The registry over whole runs: in a run of orderly actions every live process is found under its
key, a runner takes no entry but its own, and each visible process is recorded once, with the
reason it ended for.
-/

namespace MiqroForge.Workbench

open PyText List

/-! ## The invariant -/

/-- What is true of one handle. -/
structure Handle.Sound (h : Handle) : Prop where
  alive : h.alive = true → h.runner = .running ∧ h.historyRecorded = false
  recorded : h.historyRecorded = true →
    h.clientVisible = true ∧ h.terminationReason.isSome = true
  returned : ∀ reason, h.runner = .returned reason → h.terminationReason = some reason ∧
    (h.background = true → h.clientVisible = true → h.historyRecorded = true)
  finished : h.runner = .finished → h.clientVisible = true → h.historyRecorded = true

/-- The records that a handle has got. -/
def Handle.records (h : Handle) (p : Nat) : List (Text × Snapshot) :=
  if h.historyRecorded then [(h.clientId, ⟨p, h.terminationReason⟩)] else []

structure Inv (r : Registry) : Prop where
  sound : ∀ (p : Nat) (h : Handle), r.procs[p]? = some h → h.Sound
  entries : ∀ e ∈ r.handles, ∃ h, r.procs[e.2]? = some h ∧ h.key = e.1 ∧ h.runner ≠ .finished
  alone : ∀ (p q : Nat) (h h' : Handle), r.procs[p]? = some h → r.procs[q]? = some h' →
    h.key = h'.key → h.runner ≠ .finished → h'.runner ≠ .finished → p = q
  present : ∀ (p : Nat) (h : Handle), r.procs[p]? = some h → h.alive = true →
    Table.get? r.handles h.key = some p
  records : ∀ p, r.recordsOf p = r.procs[p]?.elim [] fun h => h.records p
  kills : ∀ p ∈ r.kills, ∃ h, r.procs[p]? = some h ∧ h.terminationReason.isSome = true

/-! ## Changes -/

section Changes
variable {r r' : Registry} {p : Nat} {h : Handle} {f : Handle → Handle}

theorem modify_self (hp : r.procs[p]? = some h) : (r.procs.modify p f)[p]? = some (f h) := by
  rw [getElem?_modify, hp]
  simp

theorem modify_ne {q : Nat} (hq : q ≠ p) : (r.procs.modify p f)[q]? = r.procs[q]? := by
  rw [getElem?_modify]
  cases r.procs[q]? with
  | none => rfl
  | some h' => simp [Ne.symm hq]

theorem modify_cases {q : Nat} {h' : Handle} (hp : r.procs[p]? = some h)
    (hq : (r.procs.modify p f)[q]? = some h') :
    q = p ∧ h' = f h ∨ q ≠ p ∧ r.procs[q]? = some h' := by
  by_cases heq : q = p
  · subst heq
    rw [modify_self hp] at hq
    exact Or.inl ⟨rfl, (Option.some.inj hq).symm⟩
  · rw [modify_ne heq] at hq
    exact Or.inr ⟨heq, hq⟩

theorem Inv.change (hinv : Inv r) (hp : r.procs[p]? = some h) {new : List (Text × Snapshot)}
    (hprocs : r'.procs = r.procs.modify p f) (hhandles : r'.handles = r.handles)
    (hkills : r'.kills = r.kills) (hrecords : r'.records = r.records ++ new)
    (hkey : (f h).key = h.key) (hsound : (f h).Sound)
    (halive : (f h).alive = true → h.alive = true)
    (hfinished : h.runner = .finished → (f h).runner = .finished)
    (hover : (f h).runner = .finished → ∀ e ∈ r.handles, e.2 ≠ p)
    (hreason : h.terminationReason.isSome = true → (f h).terminationReason.isSome = true)
    (hnew : ∀ e ∈ new, e.2.process = p) (hdue : h.records p ++ new = (f h).records p) : Inv r' := by
  refine ⟨?_, ?_, ?_, ?_, ?_, ?_⟩
  · intro q h' hq
    rw [hprocs] at hq
    rcases modify_cases hp hq with ⟨-, rfl⟩ | ⟨-, hq⟩
    · exact hsound
    · exact hinv.sound q h' hq
  · intro e he
    rw [hhandles] at he
    obtain ⟨h', hh', hk, hrun⟩ := hinv.entries e he
    rw [hprocs]
    by_cases heq : e.2 = p
    · rw [heq, hp] at hh'
      cases hh'
      rw [heq]
      exact ⟨f h, modify_self hp, hkey.trans hk, fun hfin => hover hfin e he heq⟩
    · exact ⟨h', (modify_ne heq).trans hh', hk, hrun⟩
  · intro q q' a b hq hq' hab ha hb
    rw [hprocs] at hq hq'
    -- both were there before, under the same keys and as unfinished
    have hold : ∀ (q : Nat) (a : Handle), (r.procs.modify p f)[q]? = some a → a.runner ≠ .finished →
        ∃ a', r.procs[q]? = some a' ∧ a'.key = a.key ∧ a'.runner ≠ .finished := by
      intro q a hq ha
      rcases modify_cases hp hq with ⟨rfl, rfl⟩ | ⟨-, hq⟩
      · exact ⟨h, hp, hkey.symm, fun hfin => ha (hfinished hfin)⟩
      · exact ⟨a, hq, rfl, ha⟩
    obtain ⟨a', hqa, hka, hra⟩ := hold q a hq ha
    obtain ⟨b', hqb, hkb, hrb⟩ := hold q' b hq' hb
    exact hinv.alone q q' a' b' hqa hqb (hka.trans (hab.trans hkb.symm)) hra hrb
  · intro q h' hq hlive
    rw [hprocs] at hq
    rw [hhandles]
    rcases modify_cases hp hq with ⟨rfl, rfl⟩ | ⟨-, hq⟩
    · rw [hkey]
      exact hinv.present q h hp (halive hlive)
    · exact hinv.present q h' hq hlive
  · intro q
    have hbefore := hinv.records q
    rw [Registry.recordsOf, hrecords, filter_append, hprocs]
    by_cases heq : q = p
    · subst heq
      have hall : new.filter (fun e => e.2.process = q) = new :=
        filter_eq_self.mpr fun e he => decide_eq_true (hnew e he)
      rw [modify_self hp, hall]
      rw [hp] at hbefore
      unfold Registry.recordsOf at hbefore
      rw [hbefore]
      exact hdue
    · have hnone : new.filter (fun e => e.2.process = q) = [] :=
        filter_eq_nil_iff.mpr fun e he hq =>
          heq ((of_decide_eq_true hq).symm.trans (hnew e he))
      rw [modify_ne heq, hnone, append_nil]
      exact hbefore
  · intro q hq
    rw [hkills] at hq
    obtain ⟨h', hh', hsome⟩ := hinv.kills q hq
    rw [hprocs]
    by_cases heq : q = p
    · subst heq
      rw [hp] at hh'
      cases hh'
      exact ⟨f h, modify_self hp, hreason hsome⟩
    · exact ⟨h', (modify_ne heq).trans hh', hsome⟩

theorem Inv.drop (hinv : Inv r) (hprocs : r'.procs = r.procs) (hkills : r'.kills = r.kills)
    (hrecords : r'.records = r.records) (hsub : ∀ e ∈ r'.handles, e ∈ r.handles)
    (hkept : ∀ (q : Nat) (h : Handle), r.procs[q]? = some h → h.alive = true →
      Table.get? r'.handles h.key = Table.get? r.handles h.key) : Inv r' := by
  refine ⟨hprocs ▸ hinv.sound, fun e he => ?_, hprocs ▸ hinv.alone, fun q h hq hlive => ?_,
    fun q => ?_, fun q hq => ?_⟩
  · rw [hprocs]
    exact hinv.entries e (hsub e he)
  · rw [hprocs] at hq
    rw [hkept q h hq hlive]
    exact hinv.present q h hq hlive
  · rw [Registry.recordsOf, hrecords, hprocs]
    exact hinv.records q
  · rw [hprocs]
    exact hinv.kills q (hkills ▸ hq)

theorem Inv.no_entry (hinv : Inv r) (hp : r.procs[p]? = some h) (hfinished : h.runner = .finished) :
    ∀ e ∈ r.handles, e.2 ≠ p := by
  intro e he heq
  obtain ⟨h', hh', -, hrun⟩ := hinv.entries e he
  rw [heq, hp] at hh'
  cases hh'
  exact hrun hfinished

theorem Inv.kills_of (hinv : Inv r) (hprocs : r'.procs = r.procs)
    (hhandles : r'.handles = r.handles)
    (hrecords : r'.records = r.records)
    (hkills : ∀ q ∈ r'.kills, ∃ h, r.procs[q]? = some h ∧ h.terminationReason.isSome = true) :
    Inv r' := by
  refine ⟨hprocs ▸ hinv.sound, ?_, hprocs ▸ hinv.alone, ?_, fun q => ?_, hprocs ▸ hkills⟩
  · rw [hprocs, hhandles]
    exact hinv.entries
  · rw [hprocs, hhandles]
    exact hinv.present
  · rw [Registry.recordsOf, hrecords, hprocs]
    exact hinv.records q

theorem Inv.setReason (hinv : Inv r) (hp : r.procs[p]? = some h) (hrunning : h.runner = .running)
    (hnew : h.historyRecorded = false) (reason : TerminationReason) :
    Inv (r.setReason p reason) := by
  have hnot : ∀ {runner : Runner}, runner ≠ .running → h.runner ≠ runner :=
    fun hne heq => hne (heq.symm.trans hrunning)
  refine hinv.change hp rfl rfl rfl (append_nil _).symm rfl ⟨?_, ?_, ?_, ?_⟩ id id ?_
    (fun _ => rfl) (fun _ he => (not_mem_nil he).elim) ?_
  · exact (hinv.sound p h hp).alive
  · intro hrecorded
    rw [hnew] at hrecorded
    cases hrecorded
  · exact fun reason hreturned => (hnot (by simp) hreturned).elim
  · exact fun hfinished => (hnot (by simp) hfinished).elim
  · exact fun hfinished => (hnot (by simp) hfinished).elim
  · simp [Handle.records, hnew]

end Changes

section Steps
variable {historyMax : Nat} {r r' : Registry} {p : Nat} {h : Handle}

/-! ## Records -/

theorem recordHistory_self (hsound : h.Sound) (hp : r.procs[p]? = some h)
    (reason : Option TerminationReason) :
    (r.recordHistory historyMax p reason).procs[p]? =
      some { h with historyRecorded := h.clientVisible } := by
  unfold Registry.recordHistory
  simp only [hp]
  split
  case isTrue hdue =>
    obtain ⟨hvisible, -⟩ := Bool.and_eq_true_iff.mp hdue
    exact (modify_self hp).trans (by rw [hvisible])
  case isFalse hnot =>
    have hsame : h.clientVisible = h.historyRecorded := by
      cases hrecorded : h.historyRecorded with
      | true => exact (hsound.recorded hrecorded).1
      | false =>
        rw [hrecorded, Bool.not_false, Bool.and_true] at hnot
        exact Bool.eq_false_iff.mpr hnot
    have hself : { h with historyRecorded := h.clientVisible } = h := by
      cases h
      simp only at hsame
      rw [hsame]
    rw [hp, hself]

theorem recordHistory_rest (r : Registry) (p : Nat) (reason : Option TerminationReason) :
    (r.recordHistory historyMax p reason).handles = r.handles ∧
      (r.recordHistory historyMax p reason).kills = r.kills := by
  unfold Registry.recordHistory
  split
  · split
    · exact ⟨rfl, rfl⟩
    · exact ⟨rfl, rfl⟩
  · exact ⟨rfl, rfl⟩

theorem Inv.recordHistory (hinv : Inv r) (hp : r.procs[p]? = some h) (hdead : h.alive = false)
    (hsome : h.terminationReason.isSome = true) :
    Inv (r.recordHistory historyMax p h.terminationReason) := by
  have hsound := hinv.sound p h hp
  unfold Registry.recordHistory
  simp only [hp]
  split
  case isFalse => exact hinv
  case isTrue hdue =>
    obtain ⟨hvisible, hnew⟩ := Bool.and_eq_true_iff.mp hdue
    rw [Bool.not_eq_true'] at hnew
    refine hinv.change hp rfl rfl rfl rfl rfl ⟨?_, ?_, ?_, ?_⟩ id id ?_ id ?_ ?_
    · intro halive
      rw [hdead] at halive
      cases halive
    · exact fun _ => ⟨hvisible, hsome⟩
    · exact fun reason hreturned => ⟨(hsound.returned reason hreturned).1, fun _ _ => rfl⟩
    · exact fun _ _ => rfl
    · exact fun hfinished => hinv.no_entry hp hfinished
    · intro e he
      rw [mem_singleton.mp he]
    · simp [Handle.records, hnew]

/-! ## Steps -/

theorem inv_ends (hinv : Inv r) (hp : r.procs[p]? = some h) :
    Inv (r.modify p fun h => { h with alive := false }) := by
  have hsound := hinv.sound p h hp
  exact hinv.change hp rfl rfl rfl (append_nil _).symm rfl
    ⟨fun halive => (Bool.false_ne_true halive).elim, hsound.recorded, hsound.returned,
      hsound.finished⟩
    (fun halive => (Bool.false_ne_true halive).elim) id
    (fun hfinished => hinv.no_entry hp hfinished) id (fun _ he => (not_mem_nil he).elim)
    (append_nil _)

theorem inv_returns (hinv : Inv r) (hp : r.procs[p]? = some h) (hrunning : h.runner = .running)
    (hdead : h.alive = false) :
    ∀ r', act historyMax r (.returns p) = some r' → Inv r' := by
  intro r' hact
  have hsound := hinv.sound p h hp
  have hnot : ∀ {runner : Runner}, runner ≠ .running → h.runner ≠ runner :=
    fun hne heq => hne (heq.symm.trans hrunning)
  simp only [act, hp, hrunning, hdead, and_self, if_true] at hact
  cases hact
  generalize hreason : h.terminationReason.getD .exited = reason
  -- the reason is set; one that was recorded stays
  have hset : Inv (r.setReason p reason) := by
    refine hinv.change hp rfl rfl rfl (append_nil _).symm rfl ⟨?_, ?_, ?_, ?_⟩ id id ?_
      (fun _ => rfl) (fun _ he => (not_mem_nil he).elim) ?_
    · exact hsound.alive
    · exact fun hrecorded => ⟨(hsound.recorded hrecorded).1, rfl⟩
    · exact fun reason hreturned => (hnot (by simp) hreturned).elim
    · exact fun hfinished => (hnot (by simp) hfinished).elim
    · exact fun hfinished => (hnot (by simp) hfinished).elim
    · cases hrecorded : h.historyRecorded with
      | false => simp [Handle.records, hrecorded]
      | true =>
        obtain ⟨old, hold⟩ := Option.isSome_iff_exists.mp (hsound.recorded hrecorded).2
        rw [hold, Option.getD_some] at hreason
        simp [Handle.records, hrecorded, hold, hreason]
  have hpset : (r.setReason p reason).procs[p]? =
      some { h with terminationReason := some reason } := modify_self hp
  have hfinish : ∀ {r₁ : Registry} {h₁ : Handle}, Inv r₁ → r₁.procs[p]? = some h₁ →
      h₁.alive = false → h₁.terminationReason = some reason →
      (h₁.background = true → h₁.clientVisible = true → h₁.historyRecorded = true) →
      h₁.runner = .running →
      Inv (r₁.modify p fun h => { h with runner := .returned reason }) := by
    intro r₁ h₁ hinv₁ hp₁ hdead₁ hreason₁ hbackground hrunning₁
    refine hinv₁.change hp₁ rfl rfl rfl (append_nil _).symm rfl ⟨?_, ?_, ?_, ?_⟩ id ?_ ?_ id
      (fun _ he => (not_mem_nil he).elim) (append_nil _)
    · intro halive
      rw [hdead₁] at halive
      cases halive
    · exact (hinv₁.sound p h₁ hp₁).recorded
    · intro reason' hreturned
      obtain rfl := Runner.returned.inj hreturned
      exact ⟨hreason₁, hbackground⟩
    · exact fun hfinished => Runner.noConfusion hfinished
    · intro hfinished
      rw [hrunning₁] at hfinished
      cases hfinished
    · exact fun hfinished => Runner.noConfusion hfinished
  split
  case isTrue hback =>
    have hsoundset := hset.sound p _ hpset
    exact hfinish (hset.recordHistory hpset hdead rfl) (recordHistory_self hsoundset hpset _)
      hdead rfl (fun _ hvisible => hvisible) hrunning
  case isFalse hfore =>
    exact hfinish hset hpset hdead rfl (fun hback => absurd hback hfore) hrunning

theorem inv_pop (hinv : Inv r) (hp : r.procs[p]? = some h) {reason : TerminationReason}
    (hreturned : h.runner = .returned reason) :
    ∀ r', act historyMax r (.pop p) = some r' → Inv r' := by
  intro r' hact
  have hsound := hinv.sound p h hp
  obtain ⟨hreason, hbackground⟩ := hsound.returned reason hreturned
  have hunfinished : h.runner ≠ .finished := by
    rw [hreturned]
    exact Runner.noConfusion
  have hdead : h.alive = false := by
    cases halive : h.alive with
    | false => rfl
    | true =>
      have hrunning := (hsound.alive halive).1
      rw [hreturned] at hrunning
      cases hrunning
  simp only [act, hp, hreturned] at hact
  cases hact
  have hdrop : Inv { r with handles := Table.remove r.handles h.key } := by
    refine hinv.drop rfl rfl rfl (fun e he => (mem_filter.mp he).1) ?_
    intro q h' hq hlive
    refine Table.get?_remove_of_ne r.handles fun hkey => ?_
    have hunfinished' : h'.runner ≠ .finished := by
      rw [((hinv.sound q h' hq).alive hlive).1]
      exact Runner.noConfusion
    obtain rfl := hinv.alone q p h' h hq hp hkey hunfinished' hunfinished
    rw [hp] at hq
    cases hq
    rw [hdead] at hlive
    cases hlive
  have hgone : ∀ e ∈ Table.remove r.handles h.key, e.2 ≠ p := by
    intro e he heq
    obtain ⟨hmem, hne⟩ := mem_filter.mp he
    obtain ⟨h', hh', hkey, -⟩ := hinv.entries e hmem
    rw [heq, hp] at hh'
    cases hh'
    exact of_decide_eq_true hne hkey.symm
  have hfinish : ∀ {r₁ : Registry} {h₁ : Handle}, Inv r₁ → r₁.procs[p]? = some h₁ →
      r₁.handles = Table.remove r.handles h.key → h₁.alive = false →
      (h₁.clientVisible = true → h₁.historyRecorded = true) →
      Inv (r₁.modify p fun h => { h with runner := .finished }) := by
    intro r₁ h₁ hinv₁ hp₁ hhandles hdead₁ hrecorded
    refine hinv₁.change hp₁ rfl rfl rfl (append_nil _).symm rfl ⟨?_, ?_, ?_, ?_⟩ id ?_ ?_ id
      (fun _ he => (not_mem_nil he).elim) (append_nil _)
    · intro halive
      rw [hdead₁] at halive
      cases halive
    · exact (hinv₁.sound p h₁ hp₁).recorded
    · exact fun reason hreturned => Runner.noConfusion hreturned
    · exact fun _ => hrecorded
    · exact fun _ => rfl
    · rw [hhandles]
      exact fun _ => hgone
  split
  case isTrue hback => exact hfinish hdrop hp rfl hdead (hbackground hback)
  case isFalse hfore =>
    have hrecord := @Inv.recordHistory historyMax _ p h hdrop hp hdead (by rw [hreason]; rfl)
    rw [hreason] at hrecord
    have hself := @recordHistory_self historyMax
      { r with handles := Table.remove r.handles h.key } p h hsound hp (some reason)
    exact hfinish hrecord hself (recordHistory_rest _ p _).1 hdead fun hvisible => hvisible

theorem Inv.add (hinv : Inv r) {new : Handle} (hfree : Table.get? r.handles new.key = none)
    (hover : ∀ h ∈ r.procs, h.key = new.key → h.runner = .finished) (hsound : new.Sound)
    (hrunning : new.runner ≠ .finished) (hnew : new.historyRecorded = false) :
    Inv { r with
      procs := r.procs ++ [new]
      handles := Table.set r.handles new.key r.procs.length } := by
  have hlt : ∀ {q : Nat} {h : Handle}, r.procs[q]? = some h → q < r.procs.length :=
    fun hq => (List.getElem?_eq_some_iff.mp hq).1
  have hcases : ∀ {q : Nat} {h : Handle}, (r.procs ++ [new])[q]? = some h →
      r.procs[q]? = some h ∨ q = r.procs.length ∧ h = new := by
    intro q h hq
    by_cases hq' : q < r.procs.length
    · rw [List.getElem?_append_left hq'] at hq
      exact Or.inl hq
    · have hle := (List.getElem?_eq_some_iff.mp hq).1
      rw [List.length_append, List.length_singleton] at hle
      obtain rfl : q = r.procs.length := by omega
      rw [List.getElem?_concat_length] at hq
      exact Or.inr ⟨rfl, (Option.some.inj hq).symm⟩
  have hold : ∀ {q : Nat} {h : Handle}, r.procs[q]? = some h →
      (r.procs ++ [new])[q]? = some h := fun hq => (getElem?_append_left (hlt hq)).trans hq
  refine ⟨?_, ?_, ?_, ?_, ?_, ?_⟩
  · intro q h hq
    rcases hcases hq with hq | ⟨-, rfl⟩
    · exact hinv.sound q h hq
    · exact hsound
  · intro e he
    rw [Table.set, if_neg (Table.get?_eq_none.mp hfree)] at he
    rcases mem_append.mp he with he | he
    · obtain ⟨h, hh, hkey, hrun⟩ := hinv.entries e he
      exact ⟨h, hold hh, hkey, hrun⟩
    · obtain rfl := mem_singleton.mp he
      exact ⟨new, getElem?_concat_length, rfl, hrunning⟩
  · intro p q h h' hp hq hkey hrun hrun'
    rcases hcases hp with hin | ⟨rfl, rfl⟩
    · rcases hcases hq with hin' | ⟨rfl, rfl⟩
      · exact hinv.alone p q h h' hin hin' hkey hrun hrun'
      · exact absurd (hover h (mem_of_getElem? hin) hkey) hrun
    · rcases hcases hq with hin' | ⟨rfl, -⟩
      · exact absurd (hover h' (mem_of_getElem? hin') hkey.symm) hrun'
      · rfl
  · intro q h hq hlive
    rcases hcases hq with hq | ⟨rfl, rfl⟩
    · have hne : h.key ≠ new.key := by
        intro hkey
        have hfinished := hover h (mem_of_getElem? hq) hkey
        rw [((hinv.sound q h hq).alive hlive).1] at hfinished
        cases hfinished
      exact (Table.get?_set_of_ne r.handles _ hne).trans (hinv.present q h hq hlive)
    · exact Table.get?_set_self r.handles h.key r.procs.length
  · intro q
    have hbefore := hinv.records q
    by_cases hq : q < r.procs.length
    · rw [getElem?_append_left hq]
      exact hbefore
    · rw [getElem?_eq_none (Nat.le_of_not_gt hq)] at hbefore
      refine hbefore.trans ?_
      cases hfind : (r.procs ++ [new])[q]? with
      | none => rfl
      | some h =>
        rcases hcases hfind with hq' | ⟨-, rfl⟩
        · exact absurd (hlt hq') hq
        · simp [Handle.records, hnew]
  · intro q hq
    obtain ⟨h, hh, hsome⟩ := hinv.kills q hq
    exact ⟨h, hold hh, hsome⟩

theorem inv_spawn (hinv : Inv r) {client handleId : Text} {clientVisible background : Bool}
    (hgood : Orderly r (.spawn client handleId clientVisible background)) :
    ∀ r', act historyMax r (.spawn client handleId clientVisible background) = some r' →
      Inv r' := by
  intro r' hact
  simp only [act] at hact
  split at hact
  · cases hact
  case isFalse hfree =>
  cases hact
  exact hinv.add (Option.not_isSome_iff_eq_none.mp hfree) hgood
    ⟨fun _ => ⟨rfl, rfl⟩, fun hrecorded => (Bool.false_ne_true hrecorded).elim,
      fun _ hreturned => Runner.noConfusion hreturned,
      fun hfinished => Runner.noConfusion hfinished⟩ Runner.noConfusion rfl

theorem inv_kill (hinv : Inv r) {client handleId : Text} {requireClientVisible : Bool}
    (hgood : Orderly r (.kill client handleId requireClientVisible)) :
    ∀ r', act historyMax r (.kill client handleId requireClientVisible) = some r' → Inv r' := by
  intro r' hact
  simp only [act] at hact
  split at hact
  case h_2 => cases hact
  case h_1 p hentry =>
  split at hact
  case h_2 => cases hact
  case h_1 h hp =>
  split at hact
  · cases hact
  · cases hact
    obtain ⟨hrunning, hnew⟩ := hgood p hentry h hp
    have hset := hinv.setReason hp hrunning hnew .killed
    refine hset.kills_of rfl rfl rfl fun q hq => ?_
    rcases mem_append.mp hq with hq | hq
    · exact hset.kills q hq
    · obtain rfl := mem_singleton.mp hq
      exact ⟨_, modify_self hp, rfl⟩

theorem inv_killed (hinv : Inv r) {i : Nat} :
    ∀ r', act historyMax r (.killed i) = some r' → Inv r' := by
  intro r' hact
  simp only [act] at hact
  split at hact
  case h_2 => cases hact
  case h_1 p hkill =>
  split at hact
  case h_2 => cases hact
  case h_1 h hp =>
  split at hact
  · cases hact
  case isFalse hdead =>
  cases hact
  obtain ⟨h', hh', hsome⟩ := hinv.kills p (mem_of_getElem? hkill)
  rw [hp] at hh'
  cases hh'
  have hrecord := @Inv.recordHistory historyMax r p h hinv hp (Bool.not_eq_true _ ▸ hdead) hsome
  exact hrecord.kills_of rfl rfl rfl fun q hq =>
    hrecord.kills q ((eraseIdx_sublist _ i).subset hq)

theorem inv_mark (hinv : Inv r) {i : Nat} (hgood : Orderly r (.mark i)) :
    ∀ r', act historyMax r (.mark i) = some r' → Inv r' := by
  intro r' hact
  simp only [act] at hact
  split at hact
  case h_2 => cases hact
  case h_1 client p todo hsweep =>
  cases hact
  cases hp : r.procs[p]? with
  | none =>
    have hnone : r.procs.modify p (fun h => { h with
        terminationReason := some (Sweep.reason client) }) = r.procs :=
      modify_eq_self (getElem?_eq_none_iff.mp hp)
    exact hinv.kills_of hnone rfl rfl hinv.kills
  | some h =>
    obtain ⟨hrunning, hnew⟩ := hgood _ hsweep p rfl h hp
    have hset := hinv.setReason hp hrunning hnew (Sweep.reason client)
    exact hset.kills_of rfl rfl rfl hset.kills

theorem inv_swept (hinv : Inv r) {i : Nat} (hgood : Orderly r (.swept i)) :
    ∀ r', act historyMax r (.swept i) = some r' → Inv r' := by
  intro r' hact
  simp only [act] at hact
  split at hact
  case h_2 => cases hact
  case h_1 client hsweep =>
  cases hact
  refine hinv.drop rfl rfl rfl (fun e he => (mem_filter.mp he).1) fun q h hq hlive => ?_
  have hpresent := hinv.present q h hq hlive
  have hkeep : Sweep.covers client h.key = false := by
    cases hcovers : Sweep.covers client h.key with
    | false => rfl
    | true =>
      obtain ⟨e, hfind, hsnd⟩ := Option.map_eq_some_iff.mp hpresent
      have hkey : e.1 = h.key := by simpa using find?_some hfind
      have hdead := hgood _ hsweep e (mem_of_find?_eq_some hfind) (hkey ▸ hcovers) h
        (hsnd ▸ hq)
      rw [hlive] at hdead
      cases hdead
  rw [Table.get?, Table.get?, find?_filter]
  congr 2
  funext e
  by_cases hkey : e.1 = h.key
  · simp [hkey, hkeep]
  · simp [hkey]

theorem inv_act {a : Action} (hinv : Inv r) (hgood : Orderly r a)
    (hact : act historyMax r a = some r') : Inv r' := by
  cases a with
  | spawn client handleId clientVisible background => exact inv_spawn hinv hgood r' hact
  | ends p =>
    simp only [act] at hact
    split at hact
    case h_2 => cases hact
    case h_1 h hp =>
    split at hact
    · cases hact
      exact inv_ends hinv hp
    · cases hact
  | timeout p =>
    simp only [act] at hact
    split at hact
    case h_2 => cases hact
    case h_1 h hp =>
    split at hact
    case isTrue hlive =>
      cases hact
      obtain ⟨hrunning, hnew⟩ := (hinv.sound p h hp).alive hlive
      exact hinv.setReason hp hrunning hnew .timeout
    case isFalse => cases hact
  | returns p =>
    have hkeep := hact
    simp only [act] at hkeep
    split at hkeep
    case h_2 => cases hkeep
    case h_1 h hp =>
    split at hkeep
    case isTrue hdone => exact inv_returns hinv hp hdone.1 hdone.2 r' hact
    case isFalse => cases hkeep
  | pop p =>
    have hkeep := hact
    simp only [act] at hkeep
    split at hkeep
    case h_2 => cases hkeep
    case h_1 h hp =>
    split at hkeep
    case h_1 reason hreturned => exact inv_pop hinv hp hreturned r' hact
    case h_2 => cases hkeep
  | kill client handleId requireClientVisible => exact inv_kill hinv hgood r' hact
  | killed i => exact inv_killed hinv r' hact
  | sweep client =>
    simp only [act] at hact
    cases hact
    exact hinv.kills_of rfl rfl rfl hinv.kills
  | mark i => exact inv_mark hinv hgood r' hact
  | marked i =>
    simp only [act] at hact
    split at hact
    case h_2 => cases hact
    split at hact
    case h_2 => cases hact
    split at hact
    · cases hact
    · cases hact
      exact hinv.kills_of rfl rfl rfl hinv.kills
  | swept i => exact inv_swept hinv hgood r' hact

/-! ## The history -/

theorem bounded_recordHistory (h : r.Bounded historyMax) (p : Nat)
    (reason : Option TerminationReason) :
    (r.recordHistory historyMax p reason).Bounded historyMax := by
  unfold Registry.recordHistory
  split
  case h_2 => exact h
  case h_1 handle hp =>
  split
  case isFalse => exact h
  case isTrue =>
  intro client
  have hclient := h client
  dsimp only
  rw [Table.get?_set, filter_append, map_append]
  by_cases heq : client = handle.clientId
  · subst heq
    have hlast : ∀ l : List Snapshot, ∀ s, lastOf historyMax (lastOf historyMax l ++ [s]) =
        lastOf historyMax (l ++ [s]) := by
      intro l s
      simp only [lastOf, length_append, length_drop, length_singleton]
      rw [drop_append, drop_append, drop_drop, length_drop]
      congr 2
      all_goals omega
    rw [if_pos rfl, hclient, Option.getD_some]
    exact (hlast _ _).trans (by simp)
  · rw [if_neg heq]
    simpa [Ne.symm heq] using hclient

theorem bounded_act {a : Action} (h : r.Bounded historyMax) (hact : act historyMax r a = some r') :
    r'.Bounded historyMax := by
  cases a with
  | spawn client handleId clientVisible background =>
    simp only [act] at hact
    split at hact
    · cases hact
    · cases hact
      exact h
  | ends p =>
    simp only [act] at hact
    split at hact
    · split at hact
      · cases hact
        exact h
      · cases hact
    · cases hact
  | timeout p =>
    simp only [act] at hact
    split at hact
    · split at hact
      · cases hact
        exact h
      · cases hact
    · cases hact
  | returns p =>
    simp only [act] at hact
    split at hact
    · split at hact
      · cases hact
        have hset : ∀ reason, (r.setReason p reason).Bounded historyMax := fun _ => h
        split
        · exact bounded_recordHistory (hset _) p _
        · exact h
      · cases hact
    · cases hact
  | pop p =>
    simp only [act] at hact
    split at hact
    · split at hact
      · cases hact
        have hremove : ∀ handles, { r with handles := handles }.Bounded historyMax := fun _ => h
        split
        · exact h
        · exact bounded_recordHistory (hremove _) p _
      · cases hact
    · cases hact
  | kill client handleId requireClientVisible =>
    simp only [act] at hact
    split at hact
    · split at hact
      · split at hact
        · cases hact
        · cases hact
          exact h
      · cases hact
    · cases hact
  | killed i =>
    simp only [act] at hact
    split at hact
    · split at hact
      · split at hact
        · cases hact
        · cases hact
          exact bounded_recordHistory h _ _
      · cases hact
    · cases hact
  | sweep client =>
    simp only [act] at hact
    cases hact
    exact h
  | mark i =>
    simp only [act] at hact
    split at hact
    · cases hact
      exact h
    · cases hact
  | marked i =>
    simp only [act] at hact
    split at hact
    · split at hact
      · split at hact
        · cases hact
        · cases hact
          exact h
      · cases hact
    · cases hact
  | swept i =>
    simp only [act] at hact
    split at hact
    · cases hact
      exact h
    · cases hact

/-! ## Runs -/

theorem pop_apart (hinv : Inv r) (hact : act historyMax r (.pop p) = some r') (key : Key) (q : Nat)
    (hne : q ≠ p) (hq : Table.get? r.handles key = some q) :
    Table.get? r'.handles key = some q := by
  simp only [act] at hact
  split at hact
  case h_2 => cases hact
  case h_1 h hp =>
  split at hact
  case h_2 => cases hact
  case h_1 reason hreturned =>
  cases hact
  have hkey : key ≠ h.key := by
    rintro rfl
    obtain ⟨e, hfind, hsnd⟩ := Option.map_eq_some_iff.mp hq
    have hekey : e.1 = h.key := by simpa using find?_some hfind
    obtain ⟨h', hh', hkey', hrun⟩ := hinv.entries e (mem_of_find?_eq_some hfind)
    have hunfinished : h.runner ≠ .finished := by
      rw [hreturned]
      exact Runner.noConfusion
    exact hne (hsnd.symm.trans (hinv.alone e.2 p h' h hh' hp (hkey'.trans hekey) hrun hunfinished))
  have hremoved := (Table.get?_remove_of_ne r.handles hkey).trans hq
  split
  · exact hremoved
  · exact (congrArg (fun handles => Table.get? handles key) (recordHistory_rest _ p _).1).trans
      hremoved

theorem Inv.kempt (hinv : Inv r) (hhistory : r.Bounded historyMax) : Kempt historyMax r := by
  have hrecords : ∀ {q : Nat} {h : Handle}, r.procs[q]? = some h →
      r.recordsOf q = h.records q := by
    intro q h hq
    rw [hinv.records q, hq]
    rfl
  refine ⟨hinv.present, fun p r' hact => pop_apart hinv hact, fun q => ?_,
    fun q h hq hvisible hfinished => ?_, hhistory⟩
  · cases hq : r.procs[q]? with
    | none =>
      rw [hinv.records q, hq]
      exact Nat.zero_le 1
    | some h =>
      rw [hrecords hq, Handle.records]
      split
      · exact Nat.le_refl 1
      · exact Nat.zero_le 1
  · rw [hrecords hq, Handle.records, if_pos ((hinv.sound q h hq).finished hfinished hvisible)]

/-- **Registry.** In every state of a run of orderly actions live processes are found, runners
take no entry but their own, and what is over is recorded once, with its reason. -/
theorem registry_kempt (historyMax : Nat) {as : List Action} {r : Registry}
    (hrun : Steps.run (act historyMax) {} as = some r)
    (hgood : Steps.GoodRun (act historyMax) Orderly {} as) : Kempt historyMax r := by
  have hstart : Inv {} := by
    refine ⟨fun _ _ hq => ?_, fun _ he => (List.not_mem_nil he).elim, fun _ _ _ _ hq => ?_,
      fun _ _ hq => ?_, fun _ => rfl, fun _ hq => (List.not_mem_nil hq).elim⟩
    · cases hq
    · cases hq
    · cases hq
  have hinv := Steps.goodRun_invariant (act historyMax) Orderly Inv
    (fun r a r' hinv ha hact => inv_act hinv ha hact) {} r as hstart hrun hgood
  exact hinv.kempt (Steps.run_invariant (act historyMax) (Registry.Bounded historyMax)
    (fun r a r' h hact => bounded_act h hact) {} r as (fun _ => List.drop_nil.symm) hrun)

end Steps

/-! ## Runs of few steps -/

def spawnOf (handleId : String) : Action := .spawn "c".toList handleId.toList true false

/-- A client leaves while its process runs, comes back, takes the key again and kills. -/
def returningClient : List Action :=
  [spawnOf "a", .sweep (some "c".toList), .mark 0, .ends 0, .returns 0, .pop 0, .marked 0,
    .swept 0, spawnOf "a", .kill "c".toList "a".toList false, .ends 1, .killed 0, .returns 1,
    .pop 1]

theorem returningClient_kempt :
    ∃ r, Steps.run (act 200) {} returningClient = some r ∧ Kempt 200 r := by
  obtain ⟨r, hrun⟩ : ∃ r, Steps.run (act 200) {} returningClient = some r := ⟨_, rfl⟩
  exact ⟨r, hrun, registry_kempt 200 hrun (by decide)⟩

/-- A process that starts while the client's processes are killed is removed alive; a key that is
taken again before the runner of the killed process is over is popped by that runner; a process
that has its record gets another reason. -/
theorem registry_not_kempt :
    (∃ r, Steps.run (act 200) {} [spawnOf "a", .sweep (some "c".toList), .mark 0, .ends 0,
        spawnOf "b", .marked 0, .swept 0] = some r ∧ ¬ Kempt 200 r) ∧
    (∃ r, Steps.run (act 200) {} [spawnOf "a", .sweep (some "c".toList), .mark 0, .ends 0,
        .marked 0, .swept 0, spawnOf "a", .returns 0, .pop 0] = some r ∧ ¬ Kempt 200 r) ∧
    ∃ r, Steps.run (act 200) {} [spawnOf "a", .ends 0, .returns 0,
        .kill "c".toList "a".toList false, .pop 0] = some r ∧ ¬ Kempt 200 r := by
  refine ⟨⟨_, rfl, fun h => ?_⟩, ⟨_, rfl, fun h => ?_⟩, ⟨_, rfl, fun h => ?_⟩⟩
  · exact absurd (h.present 1 _ rfl rfl) (by decide)
  · exact absurd (h.present 1 _ rfl rfl) (by decide)
  · exact absurd (h.recorded 0 _ rfl rfl rfl) (by decide)

end MiqroForge.Workbench
