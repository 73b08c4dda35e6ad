import MiqroForge.Session.Conservation

/-!
Which tasks an abort cancels. The loop has one active task for all threads, and an abort
taken from the get task asks that task and every auxiliary one to cancel, whichever
thread they belong to.
-/

namespace MiqroForge.Session

/-- An abort the loop processes comes when all unfinished tasks belong to its thread. -/
def AbortsOwn (s : RuntimeSession) (e : Event) : Prop :=
  match e, s.pc, s.get with
  | .dispatch, .batch (.get :: _), .got { id := _, sub := .abortTurn threadId } =>
    ∀ task ∈ s.running, task.item.sub.turnThread = some (abortThread threadId)
  | _, _, _ => True

/-- What one step adds to the record of aborted tasks. -/
def newAborts (s : RuntimeSession) (e : Event) : List (String × Submission) :=
  match e, s.pc, s.get with
  | .dispatch, .batch (.get :: _), .got { id := _, sub := .abortTurn threadId } =>
    abortTargets s threadId
  | _, _, _ => []

variable (s : RuntimeSession)

theorem abortsOwn_iff (e : Event) :
    AbortsOwn s e ↔ ∀ p ∈ newAborts s e, p.2.turnThread = some p.1 := by
  unfold AbortsOwn newAborts
  split
  · simp [abortTargets]
  · simp

instance (s : RuntimeSession) (e : Event) : Decidable (AbortsOwn s e) :=
  decidable_of_iff (∀ p ∈ newAborts s e, p.2.turnThread = some p.1) (abortsOwn_iff s e).symm

/-- What a step does to the record and to the active task apart from an abort. -/
structure Keeps (s t : RuntimeSession) : Prop where
  aborted : t.aborted = s.aborted
  consumed : t.consumed = s.consumed
  active : ∀ task, t.active = some task → task.cancelRequested = true →
    ∃ old, s.active = some old ∧ old.cancelRequested = true ∧ old.item = task.item

open Keeps

theorem Keeps.of_eq {s t : RuntimeSession} (ha : t.aborted = s.aborted)
    (hc : t.consumed = s.consumed) (hact : t.active = s.active) : Keeps s t :=
  ⟨ha, hc, fun task h hr => ⟨task, hact ▸ h, hr, rfl⟩⟩

theorem Keeps.of_none {s t : RuntimeSession} (ha : t.aborted = s.aborted)
    (hc : t.consumed = s.consumed) (hact : t.active = none) : Keeps s t := by
  refine ⟨ha, hc, fun task h _ => ?_⟩
  rw [hact] at h
  cases h

theorem Keeps.trans {s t u : RuntimeSession} (h : Keeps s t) (h' : Keeps t u) : Keeps s u := by
  refine ⟨h'.aborted.trans h.aborted, h'.consumed.trans h.consumed, fun task ht hr => ?_⟩
  obtain ⟨old, ho, hor, hoi⟩ := h'.active task ht hr
  obtain ⟨older, hs, hsr, hsi⟩ := h.active old ho hor
  exact ⟨older, hs, hsr, hsi.trans hoi⟩

theorem takeItem_keeps (item : Item) : Keeps s (takeItem s item) := by
  unfold takeItem
  split
  · exact of_eq rfl rfl rfl
  · exact of_eq rfl rfl rfl
  · refine ⟨rfl, rfl, fun task h hr => ?_⟩
    cases h
    cases hr

theorem loopTop_keeps : Keeps s (loopTop s) := by
  unfold loopTop
  split
  · exact of_eq rfl rfl rfl
  · refine trans ?_ (takeItem_keeps _ _)
    exact of_eq rfl rfl rfl
  · refine trans ?_ (takeItem_keeps _ _)
    exact of_eq rfl rfl rfl
  · exact of_eq rfl rfl rfl

theorem cancelGet_keeps : Keeps s (cancelGet s) := by
  unfold cancelGet
  split <;> exact of_eq rfl rfl rfl

theorem afterAux_keeps (rest : List Done) (next : AfterAux) :
    Keeps s (afterAux s rest next) := by
  cases next <;> exact of_eq rfl rfl rfl

theorem cancelAuxTasks_keeps (next : AfterAux) (rest : List Done) :
    Keeps s (cancelAuxTasks s next rest) := by
  rcases cancelAuxTasks_cases s next rest with he | ⟨aux, he⟩
  · rw [he]
    exact afterAux_keeps s rest next
  · rw [he]
    exact of_eq rfl rfl rfl

theorem activeReported_keeps (rest : List Done) :
    Keeps s (activeReported s rest) :=
  (cancelGet_keeps s).trans (cancelAuxTasks_keeps _ _ _)

theorem report_keeps (active : Bool) (rest : List Done)
    (next : RuntimeSession → RuntimeSession) (hnext : ∀ s, Keeps s (next s)) :
    Keeps s (report s active rest next) := by
  unfold report
  split
  · exact of_eq rfl rfl rfl
  · refine trans ?_ (hnext _)
    exact of_eq rfl rfl rfl

theorem processActive_keeps (task : Task) (rest : List Done) :
    Keeps s (processActive s task rest) := by
  have hcleared : Keeps s { s with active := none } := of_none rfl rfl rfl
  unfold processActive
  simp only []
  split
  · exact hcleared.trans (report_keeps _ _ _ _ fun s => activeReported_keeps s rest)
  · exact hcleared.trans (activeReported_keeps _ rest)

theorem processAux_keeps (task : Task) (rest : List Done) :
    Keeps s (processAux s task rest) := by
  have hcleared : Keeps s { s with aux := s.aux.erase task } := of_eq rfl rfl rfl
  unfold processAux
  simp only []
  split
  · exact hcleared.trans (report_keeps _ _ _ _ fun s => of_eq rfl rfl rfl)
  · exact of_eq rfl rfl rfl

theorem endBatch_keeps : Keeps s (endBatch s) := by
  unfold endBatch
  split <;> exact of_eq rfl rfl rfl

/-- The active task was asked to cancel only by an abort the loop consumed, and the record
says so. -/
def CancelNoted (s : RuntimeSession) : Prop :=
  ∀ task, s.active = some task → task.cancelRequested = true →
    ∃ item ∈ s.consumed, ∃ threadId, item.sub = .abortTurn threadId ∧
      (abortThread threadId, task.item.sub) ∈ s.aborted

theorem Keeps.cancelNoted {s t : RuntimeSession} (h : Keeps s t) (hs : CancelNoted s) :
    CancelNoted t := by
  intro task ht hr
  obtain ⟨old, ho, hor, hoi⟩ := h.active task ht hr
  rw [h.consumed, h.aborted, ← hoi]
  exact hs old ho hor

/-- What every step does to the record. -/
def Noted (s : RuntimeSession) (e : Event) (t : RuntimeSession) : Prop :=
  t.aborted = s.aborted ++ newAborts s e ∧ (CancelNoted s → CancelNoted t)

theorem Keeps.noted {s t : RuntimeSession} {e : Event} (h : Keeps s t) (hn : newAborts s e = []) :
    Noted s e t := by
  refine ⟨?_, h.cancelNoted⟩
  rw [hn, List.append_nil]
  exact h.aborted

theorem cancel_noted (task : Task) (item : Item) (threadId : Option String)
    (hact : s.active = some task) (hsub : item.sub = .abortTurn threadId) (hs : CancelNoted s) :
    CancelNoted { s with
      get := .none, active := some task.cancel, consumed := s.consumed ++ [item],
      aborted := s.aborted ++ abortTargets s threadId } := by
  intro t ht hr
  cases ht
  have hitem : task.cancel.item = task.item := by
    unfold Task.cancel
    split <;> rfl
  rw [hitem]
  cases hdone : task.done with
  | true =>
    have hsame : task.cancel = task := by simp [Task.cancel, hdone]
    rw [hsame] at hr
    obtain ⟨old, ho, th, hth, hmem⟩ := hs task hact hr
    exact ⟨old, List.mem_append_left _ ho, th, hth, List.mem_append_left _ hmem⟩
  | false =>
    refine ⟨item, by simp, threadId, hsub, List.mem_append_right _ ?_⟩
    refine List.mem_map.mpr ⟨task, ?_, rfl⟩
    simp [RuntimeSession.running, hact, hdone]

theorem processItem_noted (item : Item) (rest : List Done)
    (hpc : s.pc = .batch (.get :: rest)) (hg : s.get = .got item) :
    Noted s .dispatch (processItem { s with get := .none } item rest) := by
  obtain ⟨id, sub⟩ := item
  unfold processItem
  split
  case h_1 threadId hsub =>
    obtain rfl : sub = .abortTurn threadId := hsub
    have hnew : newAborts s .dispatch = abortTargets s threadId := by simp only [newAborts, hpc, hg]
    simp only []
    split
    case h_1 task hact =>
      have hk := cancelAuxTasks_keeps { s with
        get := .none, active := some task.cancel,
        consumed := s.consumed ++ [{ id := id, sub := .abortTurn threadId }],
        aborted := s.aborted ++ abortTargets s threadId }
        (.abortActive { id := id, sub := .abortTurn threadId }) rest
      refine ⟨?_, fun hs => hk.cancelNoted (cancel_noted s task _ threadId hact rfl hs)⟩
      rw [hnew]
      exact hk.aborted
    case h_2 hact =>
      have hk := cancelAuxTasks_keeps { s with
        get := .none, aborted := s.aborted ++ abortTargets s threadId }
        (.abortIdle { id := id, sub := .abortTurn threadId }) rest
      refine ⟨?_, fun _ => hk.cancelNoted ?_⟩
      · rw [hnew]
        exact hk.aborted
      · intro task ht _
        have hact' : s.active = none := hact
        rw [show s.active = some task from ht] at hact'
        cases hact'
  case h_2 threadId turnId hsub =>
    obtain rfl : sub = .steerTurn threadId turnId := hsub
    have hk : Keeps s { s with
      get := .none, handed := s.handed ++ [{ id := id, sub := .steerTurn threadId turnId }],
      pc := .handling (some rest) } := of_eq rfl rfl rfl
    exact hk.noted (by simp only [newAborts, hpc, hg])
  case h_3 threadId turnId hsub =>
    obtain rfl : sub = .runUserShellCommand threadId turnId := hsub
    refine noted (of_eq rfl rfl rfl) ?_
    simp only [newAborts, hpc, hg]
  case h_4 habort _ _ =>
    refine noted (of_eq rfl rfl rfl) ?_
    unfold newAborts
    split
    case h_1 threadId _ _ hgot =>
      rw [hg] at hgot
      cases hgot
      exact absurd rfl (habort threadId)
    case h_2 => rfl

theorem process_noted (d : Done) (rest : List Done)
    (hpc : s.pc = .batch (d :: rest)) : Noted s .dispatch (process s d rest) := by
  cases d with
  | active =>
    have hnew : newAborts s .dispatch = [] := by simp only [newAborts, hpc]
    unfold process
    simp only []
    split
    · exact (processActive_keeps s _ rest).noted hnew
    · exact ((cancelGet_keeps s).trans (of_eq rfl rfl rfl)).noted hnew
  | get =>
    unfold process
    simp only []
    split
    case h_1 item hg => exact processItem_noted s item rest hpc hg
    case h_2 hg =>
      refine noted (of_eq rfl rfl rfl) ?_
      unfold newAborts
      split
      case h_1 hgot => exact absurd hgot (hg _)
      case h_2 => rfl
  | aux id =>
    have hnew : newAborts s .dispatch = [] := by simp only [newAborts, hpc]
    unfold process
    simp only []
    split
    · exact (processAux_keeps s _ rest).noted hnew
    · exact ((cancelGet_keeps s).trans (of_eq rfl rfl rfl)).noted hnew

theorem dispatch_keeps (s t : RuntimeSession) (hpc : ∀ rest, s.pc ≠ .batch rest)
    (hd : dispatch s = some t) : Keeps s t := by
  unfold dispatch at hd
  split at hd
  case h_1 =>
    cases hd
    exact loopTop_keeps s
  case h_2 =>
    split at hd
    · cases hd
      refine trans ?_ (takeItem_keeps _ _)
      exact of_eq rfl rfl rfl
    · cases hd
  case h_3 h => exact absurd h (hpc _)
  case h_4 h => exact absurd h (hpc _)
  case h_5 =>
    cases hd
    exact of_eq rfl rfl rfl
  case h_6 =>
    cases hd
    exact of_eq rfl rfl rfl
  case h_7 =>
    split at hd
    · cases hd
    · cases hd
      split
      · refine trans ?_ (activeReported_keeps _ _)
        exact of_eq rfl rfl rfl
      · exact of_eq rfl rfl rfl
  case h_8 =>
    split at hd
    · cases hd
      refine trans ?_ (afterAux_keeps _ _ _)
      exact of_eq rfl rfl rfl
    · cases hd
  case h_9 =>
    split at hd
    · split at hd
      · split at hd
        · cases hd
        · cases hd
          exact of_none rfl rfl rfl
      · split at hd
        · cases hd
          exact of_none rfl rfl rfl
        · cases hd
    · cases hd
      exact of_eq rfl rfl rfl
  case h_10 => cases hd
  case h_11 => cases hd

theorem outside_keeps (s t : RuntimeSession) (e : Event) (ho : outside s e = some t) :
    Keeps s t := by
  cases e with
  | activeEnds outcome =>
    simp only [outside] at ho
    split at ho
    case h_1 task hact =>
      split at ho
      · cases ho
      · cases ho
        refine ⟨rfl, rfl, fun ended ht hr => ⟨task, hact, ?_⟩⟩
        cases ht
        exact ⟨hr, rfl⟩
    case h_2 => cases ho
  | submit sub =>
    cases ho
    exact of_eq rfl rfl rfl
  | eventTaken =>
    cases ho
    exact of_eq rfl rfl rfl
  | getTakes | auxEnds _ _ =>
    simp only [outside] at ho
    split at ho
    · cases ho
      exact of_eq rfl rfl rfl
    · cases ho
  | idleTimeout | wake _ =>
    simp only [outside] at ho
    split at ho
    · cases ho
      exact of_eq rfl rfl rfl
    · cases ho
  | eventPut =>
    simp only [outside] at ho
    split at ho
    · cases ho
    · cases ho
      exact of_eq rfl rfl rfl
  | handlerRaises =>
    simp only [outside] at ho
    split at ho
    · cases ho
      exact of_eq rfl rfl rfl
    · cases ho
      exact of_eq rfl rfl rfl
    · cases ho
  | dispatch => cases ho

theorem step_noted (s t : RuntimeSession) (e : Event) (h : step s e = some t) : Noted s e t := by
  unfold step at h
  split at h
  case h_1 =>
    cases hpc : s.pc with
    | batch rest =>
      cases rest with
      | nil =>
        simp only [dispatch, hpc] at h
        cases h
        exact (endBatch_keeps s).noted (by simp only [newAborts, hpc])
      | cons d rest =>
        simp only [dispatch, hpc] at h
        cases h
        exact process_noted s d rest hpc
    | _ =>
      refine (dispatch_keeps s t ?_ h).noted (by simp only [newAborts, hpc])
      intro rest hb
      rw [hpc] at hb
      cases hb
  case h_2 hne =>
    split at h
    · refine (outside_keeps s t e h).noted ?_
      unfold newAborts
      split
      case h_1 => exact absurd rfl hne
      case h_2 => rfl
    · cases h

theorem run_noted (s t : RuntimeSession) (events : List Event)
    (hrun : Steps.run step s events = some t) (hs : CancelNoted s) :
    CancelNoted t ∧ ∃ new, t.aborted = s.aborted ++ new ∧
      ((∀ p ∈ new, p.2.turnThread = some p.1) ↔ Steps.GoodRun step AbortsOwn s events) := by
  induction events generalizing s with
  | nil =>
    cases hrun
    refine ⟨hs, [], by simp, ?_⟩
    simp [Steps.GoodRun]
  | cons e events ih =>
    obtain ⟨s', hstep, hrun'⟩ := Steps.run_cons_some step hrun
    obtain ⟨haborted, hnoted⟩ := step_noted s s' e hstep
    obtain ⟨ht, new, hnew, hiff⟩ := ih s' hrun' (hnoted hs)
    refine ⟨ht, newAborts s e ++ new, ?_, ?_⟩
    · rw [hnew, haborted, List.append_assoc]
    · have hgood : Steps.GoodRun step AbortsOwn s (e :: events) ↔
          AbortsOwn s e ∧ Steps.GoodRun step AbortsOwn s' events := by
        simp [Steps.GoodRun, hstep]
      rw [hgood, abortsOwn_iff, ← hiff]
      constructor
      · intro h
        exact ⟨fun p hp => h p (List.mem_append_left _ hp),
          fun p hp => h p (List.mem_append_right _ hp)⟩
      · rintro ⟨h1, h2⟩ p hp
        rcases List.mem_append.mp hp with hp | hp
        · exact h1 p hp
        · exact h2 p hp

/-- **An abort cancels tasks of its own thread only** exactly when each one the loop processes
comes while no task of another thread is unfinished; and then an active task that was asked to
cancel was so by an abort of its own thread. -/
theorem abort_own_thread_iff (room : Nat) (events : List Event) (s : RuntimeSession)
    (hrun : Steps.run step { eventRoom := room } events = some s) :
    ((∀ p ∈ s.aborted, p.2.turnThread = some p.1) ↔
      Steps.GoodRun step AbortsOwn { eventRoom := room } events) ∧
    (Steps.GoodRun step AbortsOwn { eventRoom := room } events →
      ∀ task, s.active = some task → task.cancelRequested = true →
        ∃ item ∈ s.consumed, ∃ threadId, item.sub = .abortTurn threadId ∧
          task.item.sub.turnThread = some (abortThread threadId)) := by
  have hstart : CancelNoted { eventRoom := room } := by
    intro task h
    cases h
  obtain ⟨hnoted, new, hnew, hiff⟩ := run_noted _ s events hrun hstart
  have hiff' : (∀ p ∈ s.aborted, p.2.turnThread = some p.1) ↔
      Steps.GoodRun step AbortsOwn { eventRoom := room } events := by
    rw [hnew]
    exact hiff
  refine ⟨hiff', fun hgood task hact hr => ?_⟩
  obtain ⟨item, hitem, threadId, hsub, hmem⟩ := hnoted task hact hr
  exact ⟨item, hitem, threadId, hsub, hiff'.mpr hgood _ hmem⟩

/-- A turn of thread `a` is running when an abort for thread `b` comes. -/
def foreignAbort : List Event :=
  [.dispatch, .submit (.userMessage (some "a")), .dispatch, .dispatch,
    .submit (.abortTurn (some "b")), .getTakes, .wake [.get], .dispatch]

theorem foreignAbort_cancels :
    ∃ s task, Steps.run step { eventRoom := 1 } foreignAbort = some s ∧ s.active = some task ∧
      task.item.sub = .userMessage (some "a") ∧ task.cancelRequested = true ∧
      s.aborted = [("b", .userMessage (some "a"))] :=
  ⟨_, _, rfl, rfl, rfl, rfl, by decide⟩

theorem abort_own_thread_iff_abortedTurn :
    ∃ s, Steps.run step { eventRoom := 1 } abortedTurn = some s ∧
      ∀ p ∈ s.aborted, p.2.turnThread = some p.1 := by
  refine ⟨_, rfl, ?_⟩
  exact (abort_own_thread_iff 1 abortedTurn _ rfl).1.mpr (by decide)

end MiqroForge.Session
