import MiqroForge.Session.Stations
import Mathlib.Data.List.Nodup

/-!
The dispatch loop neither loses nor duplicates a submission. Every step of the loop and
of its surroundings is a move of an item between stations, as long as the get task takes
nothing while the loop waits for room to report a failed task.
-/

namespace MiqroForge.Session

open RuntimeSession

/-! ## The loop moves items -/

def GetTask.items : GetTask → List Item
  | .got item => [item]
  | _ => []

/-- The abort the loop holds while it waits for the auxiliary tasks it cancelled. -/
def Pc.hand : Pc → List Item
  | .cancellingAux (.abortIdle item) _ => [item]
  | _ => []

def RuntimeSession.stations (s : RuntimeSession) : Stations where
  submitted := s.submitted
  queue := s.queue
  got := s.get.items
  pending := s.pending
  hand := s.pc.hand
  handed := s.handed
  consumed := s.consumed
  lost := s.lost

/-- The get task is in the rest of a batch iff it holds an item. -/
def Awaited (g : GetTask) (rest : List Done) : Prop := rest.count .get = g.items.length

/-- What the get task and the pending list are at each place of the loop. -/
def PcOk (s : RuntimeSession) : Prop :=
  match s.pc with
  | .top => s.get = .none
  | .waitGet => s.get = .none ∧ s.pending = []
  | .waiting => True
  | .batch rest => Awaited s.get rest
  | .handling none => s.get = .none
  | .handling (some rest) => Awaited s.get rest ∧ s.get ≠ .waiting
  | .reporting _ rest => Awaited s.get rest
  | .cancellingAux next rest => Awaited s.get rest ∧ s.get ≠ .waiting ∧
      ∀ item, next = .abortIdle item → item.sub.isAbort = true
  | .aborting _ rest => Awaited s.get rest ∧ s.get ≠ .waiting
  | .dead => s.get ≠ .waiting

/-- Moves the items of `s` and ends in order. -/
def Moves (s t : RuntimeSession) : Prop := Move s.stations t.stations ∧ PcOk t

theorem moves_of_eq {s t : RuntimeSession} (h : t.stations = s.stations) (ht : PcOk t) :
    Moves s t := ⟨h ▸ Move.stay _, ht⟩

variable (s : RuntimeSession)

theorem takeItem_pcOk (item : Item) (hg : s.get = .none) :
    PcOk (takeItem s item) := by
  unfold takeItem
  split <;> exact hg

theorem takeItem_stations (item : Item) :
    (takeItem s item).stations =
      { s.stations with handed := s.handed ++ [item], hand := [] } := by
  unfold takeItem
  split <;> rfl

theorem loopTop_moves (hpc : s.pc = .top) (hg : s.get = .none) :
    Moves s (loopTop s) := by
  have hgot : s.stations.got = [] := by
    show s.get.items = []
    rw [hg]
    rfl
  unfold loopTop
  split
  case h_1 =>
    refine moves_of_eq ?_ trivial
    simp only [stations, hg, hpc]
    rfl
  case h_2 item rest _ hp =>
    refine ⟨?_, takeItem_pcOk _ _ hg⟩
    rw [takeItem_stations]
    have hm := Move.startPending s.stations item rest hp
    simp only [stations, hpc] at hm ⊢
    exact hm
  case h_3 item rest _ hp hq =>
    refine ⟨?_, takeItem_pcOk _ _ hg⟩
    rw [takeItem_stations]
    have hm := Move.startQueued s.stations item rest hq hp hgot
    simp only [stations, hpc] at hm ⊢
    exact hm
  case h_4 _ hp _ =>
    refine moves_of_eq ?_ ⟨hg, hp⟩
    simp only [stations, hpc]
    rfl

theorem cancelGet_stations : (cancelGet s).stations = s.stations := by
  unfold cancelGet
  split
  case h_1 h => simp [stations, h, GetTask.items]
  case h_2 => rfl

theorem cancelGet_spec (rest : List Done) (h : Awaited s.get rest) :
    Awaited (cancelGet s).get rest ∧ (cancelGet s).get ≠ .waiting := by
  unfold cancelGet
  split
  case h_1 hw =>
    rw [hw] at h
    exact ⟨h, GetTask.noConfusion⟩
  case h_2 hw => exact ⟨h, hw⟩

theorem cancelAuxTasks_cases (next : AfterAux) (rest : List Done) :
    cancelAuxTasks s next rest = afterAux s rest next ∨
      ∃ aux, cancelAuxTasks s next rest = { s with aux := aux, pc := .cancellingAux next rest } := by
  unfold cancelAuxTasks
  split
  · exact Or.inl rfl
  · exact Or.inr ⟨_, rfl⟩

theorem activeReported_spec (rest : List Done) (h : Awaited s.get rest) :
    (activeReported s rest).stations = { s.stations with hand := [] } ∧
      PcOk (activeReported s rest) := by
  obtain ⟨haw, hnw⟩ := cancelGet_spec s rest h
  have hst := cancelGet_stations s
  have key : ∀ aux pc, pc.hand = [] →
      ({ cancelGet s with aux := aux, pc := pc } : RuntimeSession).stations =
        { s.stations with hand := [] } := by
    intro aux pc hpc
    rw [← hst]
    simp only [stations, hpc]
  unfold activeReported
  rcases cancelAuxTasks_cases (cancelGet s) .activeDone rest with he | ⟨aux, he⟩
  · rw [he]
    exact ⟨key _ _ rfl, haw⟩
  · rw [he]
    refine ⟨key _ _ rfl, haw, hnw, ?_⟩
    intro item hi
    cases hi

theorem report_spec (active : Bool) (rest : List Done)
    (next : RuntimeSession → RuntimeSession) (h : Awaited s.get rest)
    (hnext : ∀ room, (next { s with eventRoom := room }).stations = { s.stations with hand := [] } ∧
      PcOk (next { s with eventRoom := room })) :
    (report s active rest next).stations = { s.stations with hand := [] } ∧
      PcOk (report s active rest next) := by
  unfold report
  split
  · exact ⟨rfl, h⟩
  · exact hnext _

theorem processActive_spec (task : Task) (rest : List Done)
    (h : Awaited s.get rest) :
    (processActive s task rest).stations = { s.stations with hand := [] } ∧
      PcOk (processActive s task rest) := by
  unfold processActive
  simp only []
  split
  · exact report_spec { s with active := none } true rest _ h
      fun room => activeReported_spec { s with active := none, eventRoom := room } rest h
  · exact activeReported_spec { s with active := none } rest h

theorem processAux_spec (task : Task) (rest : List Done)
    (h : Awaited s.get rest) :
    (processAux s task rest).stations = { s.stations with hand := [] } ∧
      PcOk (processAux s task rest) := by
  unfold processAux
  simp only []
  split
  · exact report_spec { s with aux := s.aux.erase task } false rest _ h fun room => ⟨rfl, h⟩
  · exact ⟨rfl, h⟩

theorem processItem_moves (item : Item) (rest : List Done)
    (hpc : s.pc.hand = []) (hg : s.get = .got item) (hrest : rest.count .get = 0) :
    Moves s (processItem { s with get := .none } item rest) := by
  have hgot : s.stations.got = [item] := by
    show s.get.items = [item]
    rw [hg]
    rfl
  have haw : Awaited .none rest := hrest
  unfold processItem
  split
  case h_1 threadId hsub =>
    have habort : item.sub.isAbort = true := by rw [hsub]; rfl
    simp only []
    split
    case h_1 task _ =>
      have hm := Move.consume s.stations item hgot habort
      rcases cancelAuxTasks_cases { s with
          get := .none, active := some task.cancel, consumed := s.consumed ++ [item],
          aborted := s.aborted ++ abortTargets { s with get := .none } threadId }
        (.abortActive item) rest with he | ⟨aux, he⟩
      · refine ⟨?_, ?_⟩
        · rw [he]
          simp only [stations, hpc] at hm ⊢
          exact hm
        · rw [he]
          exact ⟨haw, GetTask.noConfusion⟩
      · refine ⟨?_, ?_⟩
        · rw [he]
          simp only [stations, hpc] at hm ⊢
          exact hm
        · rw [he]
          refine ⟨haw, GetTask.noConfusion, ?_⟩
          intro x hx
          cases hx
    case h_2 =>
      rcases cancelAuxTasks_cases { s with
          get := .none,
          aborted := s.aborted ++ abortTargets { s with get := .none } threadId }
        (.abortIdle item) rest with he | ⟨aux, he⟩
      · have hm := Move.bypass s.stations item hgot (opensTurn_of_isAbort _ habort)
        refine ⟨?_, ?_⟩
        · rw [he]
          simp only [stations, hpc] at hm ⊢
          exact hm
        · rw [he]
          exact ⟨haw, GetTask.noConfusion⟩
      · have hm := Move.hold s.stations item hgot hpc habort
        refine ⟨?_, ?_⟩
        · rw [he]
          simp only [stations, hpc] at hm ⊢
          exact hm
        · rw [he]
          refine ⟨haw, GetTask.noConfusion, ?_⟩
          intro x hx
          obtain rfl := AfterAux.abortIdle.inj hx
          exact habort
  case h_2 hsub =>
    have hm := Move.bypass s.stations item hgot (by rw [hsub]; rfl)
    refine ⟨?_, haw, GetTask.noConfusion⟩
    simp only [stations, hpc] at hm ⊢
    exact hm
  case h_3 hsub =>
    have hm := Move.bypass s.stations item hgot (by rw [hsub]; rfl)
    refine ⟨?_, haw⟩
    simp only [stations, hpc] at hm ⊢
    exact hm
  case h_4 =>
    have hm := Move.postpone s.stations item hgot
    refine ⟨?_, haw⟩
    simp only [stations, hpc] at hm ⊢
    exact hm

theorem moves_of_spec {s t : RuntimeSession} (hpc : s.pc.hand = [])
    (h : t.stations = { s.stations with hand := [] } ∧ PcOk t) : Moves s t := by
  refine moves_of_eq ?_ h.2
  rw [h.1]
  simp only [stations, hpc]

theorem awaited_cons_of_ne {g : GetTask} {d : Done} {rest : List Done} (hd : d ≠ .get)
    (h : Awaited g (d :: rest)) : Awaited g rest := by
  unfold Awaited at h ⊢
  rwa [List.count_cons_of_ne hd] at h

theorem awaited_cons_get {g : GetTask} {rest : List Done} (h : Awaited g (.get :: rest)) :
    ∃ item, g = .got item ∧ rest.count .get = 0 := by
  unfold Awaited at h
  rw [List.count_cons_self] at h
  cases g with
  | none => cases h
  | waiting => cases h
  | got item =>
    refine ⟨item, rfl, ?_⟩
    have hlen : (GetTask.got item).items.length = 1 := rfl
    omega

theorem process_moves (d : Done) (rest : List Done)
    (hpc : s.pc = .batch (d :: rest)) (h : Awaited s.get (d :: rest)) :
    Moves s (process s d rest) := by
  have hhand : s.pc.hand = [] := by
    rw [hpc]
    rfl
  cases d with
  | active =>
    have haw := awaited_cons_of_ne Done.noConfusion h
    unfold process
    simp only []
    split
    · exact moves_of_spec hhand (processActive_spec s _ rest haw)
    · refine moves_of_spec hhand ⟨?_, (cancelGet_spec s rest haw).1⟩
      rw [← cancelGet_stations s]
      rfl
  | get =>
    obtain ⟨item, hg, hrest⟩ := awaited_cons_get h
    unfold process
    simp only [hg]
    exact processItem_moves s item rest hhand hg hrest
  | aux id =>
    have haw := awaited_cons_of_ne Done.noConfusion h
    unfold process
    simp only []
    split
    · exact moves_of_spec hhand (processAux_spec s _ rest haw)
    · refine moves_of_spec hhand ⟨?_, (cancelGet_spec s rest haw).1⟩
      rw [← cancelGet_stations s]
      rfl

theorem endBatch_moves (hpc : s.pc = .batch []) (h : Awaited s.get []) :
    Moves s (endBatch s) := by
  have hhand : s.pc.hand = [] := by
    rw [hpc]
    rfl
  unfold endBatch
  split
  case h_1 item hg =>
    rw [hg] at h
    cases h
  case h_2 hng =>
    have hgot : s.get.items = [] := by
      cases hg : s.get with
      | got item => exact absurd hg (hng item)
      | none => rfl
      | waiting => rfl
    refine moves_of_spec hhand ⟨?_, rfl⟩
    simp only [stations, hgot]
    rfl

theorem afterAux_moves (next : AfterAux) (rest : List Done)
    (hpc : s.pc = .cancellingAux next rest) (h : PcOk s) :
    Moves s (afterAux { s with aux := [] } rest next) := by
  simp only [PcOk, hpc] at h
  obtain ⟨haw, hnw, habort⟩ := h
  cases next with
  | activeDone =>
    refine moves_of_eq ?_ haw
    simp only [stations, hpc]
    rfl
  | abortActive item =>
    refine moves_of_eq ?_ ⟨haw, hnw⟩
    simp only [stations, hpc]
    rfl
  | abortIdle item =>
    have hhand : s.stations.hand = [item] := by
      show s.pc.hand = [item]
      rw [hpc]
      rfl
    have hm := Move.release s.stations item hhand (habort item rfl)
    exact ⟨hm, haw, hnw⟩

theorem dispatch_moves (s t : RuntimeSession) (h : PcOk s) (hd : dispatch s = some t) :
    Moves s t := by
  unfold dispatch at hd
  cases hpc : s.pc with
  | top =>
    simp only [hpc] at hd
    cases hd
    simp only [PcOk, hpc] at h
    exact loopTop_moves s hpc h
  | waitGet =>
    simp only [PcOk, hpc] at h
    obtain ⟨hg, hp⟩ := h
    cases hq : s.queue with
    | nil =>
      simp only [hpc, hq] at hd
      cases hd
    | cons item rest =>
      simp only [hpc, hq] at hd
      cases hd
      have hgot : s.stations.got = [] := by
        show s.get.items = []
        rw [hg]
        rfl
      have hm := Move.startQueued s.stations item rest hq hp hgot
      refine ⟨?_, takeItem_pcOk _ _ hg⟩
      rw [takeItem_stations]
      simp only [stations, hpc] at hm ⊢
      exact hm
  | waiting =>
    simp only [hpc] at hd
    cases hd
  | dead =>
    simp only [hpc] at hd
    cases hd
  | batch rest =>
    simp only [PcOk, hpc] at h
    cases rest with
    | nil =>
      simp only [hpc] at hd
      cases hd
      exact endBatch_moves s hpc h
    | cons d rest =>
      simp only [hpc] at hd
      cases hd
      exact process_moves s d rest hpc h
  | handling rest =>
    simp only [PcOk, hpc] at h
    cases rest with
    | none =>
      simp only [hpc] at hd
      cases hd
      refine moves_of_eq ?_ h
      simp only [stations, hpc]
      rfl
    | some rest =>
      simp only [hpc] at hd
      cases hd
      refine moves_of_eq ?_ h.1
      simp only [stations, hpc]
      rfl
  | reporting active rest =>
    simp only [PcOk, hpc] at h
    have hhand : s.pc.hand = [] := by
      rw [hpc]
      rfl
    simp only [hpc] at hd
    split at hd
    · cases hd
    · cases hd
      split
      · exact moves_of_spec hhand
          (activeReported_spec
            { s with eventRoom := s.eventRoom - 1, pc := .reporting active rest } rest h)
      · exact moves_of_spec hhand ⟨rfl, h⟩
  | cancellingAux next rest =>
    simp only [hpc] at hd
    split at hd
    · cases hd
      exact afterAux_moves s next rest hpc h
    · cases hd
  | aborting item rest =>
    simp only [PcOk, hpc] at h
    have hhand : s.pc.hand = [] := by
      rw [hpc]
      rfl
    have hbatch : ∀ active room,
        Moves s { s with active := active, eventRoom := room, pc := .batch rest } := fun _ _ =>
      moves_of_spec hhand ⟨rfl, h.1⟩
    simp only [hpc] at hd
    split at hd
    · split at hd
      · split at hd
        · cases hd
        · cases hd
          exact hbatch _ _
      · split at hd
        · cases hd
          exact hbatch _ _
        · cases hd
    · cases hd
      exact hbatch _ _

theorem count_get_doneTasks :
    (doneTasks s).count .get = s.get.items.length := by
  have haux : ((s.aux.filter Task.done).map fun t => Done.aux t.item.id).count Done.get = 0 := by
    refine List.count_eq_zero.mpr fun hmem => ?_
    obtain ⟨t, -, ht⟩ := List.mem_map.mp hmem
    cases ht
  unfold doneTasks
  rw [List.count_append, List.count_append, haux]
  cases s.active with
  | none => cases s.get <;> rfl
  | some task =>
    cases h : task.done
    · simp only [h]
      cases s.get <;> rfl
    · simp only [h]
      cases s.get <;> rfl

/-- The get task takes nothing while the loop waits for room to report a failed task. -/
def NoTakeWhileReporting (s : RuntimeSession) (e : Event) : Prop :=
  match e, s.pc with
  | .getTakes, .reporting _ _ => False
  | _, _ => True

instance (s : RuntimeSession) (e : Event) : Decidable (NoTakeWhileReporting s e) := by
  unfold NoTakeWhileReporting
  split <;> infer_instance

theorem get_waiting (h : PcOk s) (hs : s.pc.suspended = true)
    (hg : s.get = .waiting) : s.pc = .waiting ∨ ∃ active rest, s.pc = .reporting active rest := by
  cases hpc : s.pc with
  | waiting => exact Or.inl rfl
  | reporting active rest => exact Or.inr ⟨active, rest, rfl⟩
  | top =>
    rw [hpc] at hs
    cases hs
  | batch rest =>
    rw [hpc] at hs
    cases hs
  | waitGet =>
    simp only [PcOk, hpc, hg] at h
    cases h.1
  | handling rest =>
    cases rest with
    | none =>
      simp only [PcOk, hpc, hg] at h
      cases h
    | some rest =>
      simp only [PcOk, hpc] at h
      exact absurd hg h.2
  | cancellingAux next rest =>
    simp only [PcOk, hpc] at h
    exact absurd hg h.2.1
  | aborting item rest =>
    simp only [PcOk, hpc] at h
    exact absurd hg h.2
  | dead =>
    simp only [PcOk, hpc] at h
    exact absurd hg h

theorem outside_moves (s t : RuntimeSession) (e : Event) (h : PcOk s)
    (hs : s.pc.suspended = true) (hgood : NoTakeWhileReporting s e)
    (ho : outside s e = some t) : Moves s t := by
  cases e with
  | submit sub =>
    cases ho
    exact ⟨Move.arrive s.stations { id := s.submitted.length, sub := sub } rfl, h⟩
  | getTakes =>
    simp only [outside] at ho
    split at ho
    case h_1 item rest hg hq =>
      cases ho
      rcases get_waiting s h hs hg with hpc | ⟨active, done, hpc⟩
      · have hgot : s.stations.got = [] := by
          show s.get.items = []
          rw [hg]
          rfl
        refine ⟨Move.take s.stations item rest hq hgot, ?_⟩
        simp only [PcOk, hpc]
      · simp only [NoTakeWhileReporting, hpc] at hgood
    case h_2 => cases ho
  | activeEnds outcome =>
    simp only [outside] at ho
    split at ho
    · split at ho
      · cases ho
      · cases ho
        exact moves_of_eq rfl h
    · cases ho
  | auxEnds id outcome =>
    simp only [outside] at ho
    split at ho
    · cases ho
      exact moves_of_eq rfl h
    · cases ho
  | eventTaken =>
    cases ho
    exact moves_of_eq rfl h
  | eventPut =>
    simp only [outside] at ho
    split at ho
    · cases ho
    · cases ho
      exact moves_of_eq rfl h
  | idleTimeout =>
    simp only [outside] at ho
    split at ho
    case isTrue hpc =>
      cases ho
      simp only [PcOk, hpc] at h
      refine moves_of_eq ?_ h.1
      simp only [stations, hpc]
      rfl
    case isFalse => cases ho
  | wake order =>
    simp only [outside] at ho
    split at ho
    case isTrue hw =>
      obtain ⟨hpc, -, hperm⟩ := hw
      cases ho
      refine moves_of_eq ?_ ?_
      · simp only [stations, hpc]
        rfl
      · show order.count .get = s.get.items.length
        rw [hperm.count_eq, count_get_doneTasks]
    case isFalse => cases ho
  | handlerRaises =>
    simp only [outside] at ho
    split at ho
    case h_3 => cases ho
    all_goals
      rename_i hpc
      cases ho
      refine moves_of_eq ?_ ?_
      · simp only [stations, hpc]
        rfl
      · intro hg
        rcases get_waiting s h hs hg with hw | ⟨active, done, hr⟩
        · rw [hpc] at hw
          cases hw
        · rw [hpc] at hr
          cases hr
  | dispatch => cases ho

/-- **Every step is a move.** -/
theorem step_moves (s t : RuntimeSession) (e : Event) (h : PcOk s)
    (hgood : NoTakeWhileReporting s e) (hstep : step s e = some t) : Moves s t := by
  unfold step at hstep
  split at hstep
  · exact dispatch_moves s t h hstep
  · split at hstep
    case isTrue hs => exact outside_moves s t e h hs hgood hstep
    case isFalse => cases hstep

theorem run_conserved (room : Nat) (events : List Event) (s : RuntimeSession)
    (hrun : Steps.run step { eventRoom := room } events = some s)
    (hgood : Steps.GoodRun step NoTakeWhileReporting { eventRoom := room } events) :
    Conserved s.stations ∧ PcOk s := by
  refine Steps.goodRun_invariant step NoTakeWhileReporting
    (fun s => Conserved s.stations ∧ PcOk s) ?_ _ s events ?_ hrun hgood
  · rintro s e t ⟨hc, hok⟩ hg hs
    obtain ⟨hm, ht⟩ := step_moves s t e hok hg hs
    exact ⟨hm.conserved hc, ht⟩
  · refine ⟨⟨fun _ => rfl, rfl, ?_, rfl, rfl⟩, rfl⟩
    intro item h
    cases h

/-- The items that are submitted and neither handed over nor consumed. -/
def RuntimeSession.waiting (s : RuntimeSession) : List Item :=
  s.pc.hand ++ s.pending ++ s.get.items ++ s.queue

/-- A turn of thread `a` is running when its abort comes. -/
def abortedTurn : List Event :=
  [.dispatch, .submit (.userMessage (some "a")), .dispatch, .dispatch,
    .submit (.abortTurn (some "a")), .getTakes, .wake [.get], .dispatch, .activeEnds .cancelled,
    .dispatch, .dispatch, .dispatch]

/-- A shell command of thread `a` comes behind a message that waits for the turn of `a`. -/
def shellDuringTurn : List Event :=
  [.dispatch, .submit (.userMessage (some "a")), .dispatch, .dispatch,
    .submit (.userMessage (some "b")), .getTakes, .wake [.get], .dispatch, .dispatch, .dispatch,
    .submit (.runUserShellCommand "a" "t"), .getTakes, .wake [.get], .dispatch]

end MiqroForge.Session
