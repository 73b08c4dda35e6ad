import MiqroForge.Library.SlidingWindow
import MiqroForge.Library.Steps

/-!
The reload of a crashed renderer (`crashRecovery.ts`). A window emits `close` once at most, and
`closed` when it is destroyed. An id names one open window; a later window may get the id of one
that is gone.
-/

namespace MiqroForge.Desktop

open SlidingWindow

def reloadWindowMs : Int := 10 * 60 * 1000

def maxReloadsPerWindow : Nat := 3

structure ReloadBudget where
  allowed : Bool
  attempt : Nat
  recent : List Int

def evaluateReloadBudget (history : List Int) (now : Int) : ReloadBudget :=
  let recent := SlidingWindow.recent reloadWindowMs history now
  ⟨recent.length < maxReloadsPerWindow, recent.length + 1, recent⟩

structure CrashRecoveryTracker where
  reloadHistory : List Int := []

def CrashRecoveryTracker.recordReload (t : CrashRecoveryTracker) (now : Int) :
    Nat × CrashRecoveryTracker :=
  let budget := evaluateReloadBudget t.reloadHistory now
  (budget.attempt, ⟨budget.recent ++ [now]⟩)

def CrashRecoveryTracker.onRendererCrash (t : CrashRecoveryTracker) (now : Int) : ReloadBudget :=
  evaluateReloadBudget t.reloadHistory now

/-- A window, with what has happened to it. -/
structure BrowserWindow where
  id : Nat
  destroyed : Bool := false
  contentsDestroyed : Bool := false
  /-- The listeners that `watch` has registered and that have not run. -/
  onClose : Bool := false
  onClosed : Bool := false
  /-- `close` has been emitted. -/
  closing : Bool := false
  /-- The times of the attempts to reload it. -/
  reloads : List Int := []

structure CrashRecoveryRegistry where
  trackers : Nat → Option CrashRecoveryTracker := fun _ => none
  watched : Nat → Bool := fun _ => false
  closing : Nat → Bool := fun _ => false

open CrashRecoveryRegistry

/-- What a crash is answered with, as the log shows it. -/
inductive Answer
  | ignored
  | skipped (reloadsInWindow : Nat)
  | reloaded (attempt : Nat)
  | failed (attempt : Nat)
  deriving DecidableEq

namespace CrashRecoveryRegistry
variable (r : CrashRecoveryRegistry) (win : BrowserWindow)

def watch : CrashRecoveryRegistry × BrowserWindow :=
  if r.watched win.id then (r, win)
  else ({ r with watched := Function.update r.watched win.id true },
    { win with onClose := true, onClosed := true })

def canRecover : Bool := !win.destroyed && !win.contentsDestroyed && !r.closing win.id

def trackerFor : CrashRecoveryTracker × CrashRecoveryRegistry × BrowserWindow :=
  match r.trackers win.id with
  | some existing => (existing, r, win)
  | none => ({}, watch { r with trackers := Function.update r.trackers win.id (some {}) } win)

def forget (id : Nat) : CrashRecoveryRegistry where
  trackers := Function.update r.trackers id none
  watched := Function.update r.watched id false
  closing := Function.update r.closing id false

/-- `handleRendererCrash`; `ok` tells whether `reload()` returns. -/
def handleRendererCrash (now : Int) (ok : Bool) : Answer × CrashRecoveryRegistry × BrowserWindow :=
  if r.canRecover win then
    let (tracker, r, win) := r.trackerFor win
    let budget := tracker.onRendererCrash now
    if budget.allowed then
      let (attempt, tracker) := tracker.recordReload now
      (if ok then .reloaded attempt else .failed attempt,
        { r with trackers := Function.update r.trackers win.id (some tracker) },
        { win with reloads := win.reloads ++ [now] })
    else (.skipped budget.recent.length, r, win)
  else (.ignored, r, win)

/-- An entry of a window is left. -/
def Knows (id : Nat) : Prop :=
  r.watched id = true ∨ r.closing id = true ∨ r.trackers id ≠ none

def history (id : Nat) : List Int := (r.trackers id).elim [] CrashRecoveryTracker.reloadHistory

end CrashRecoveryRegistry

structure MainProcess where
  /-- The last window of each id. -/
  windows : Nat → Option BrowserWindow := fun _ => none
  registry : CrashRecoveryRegistry := {}

inductive Event
  | create (id : Nat)
  | close (id : Nat)
  | closed (id : Nat)
  | contentsGone (id : Nat)
  | crash (id : Nat) (now : Int) (ok : Bool)

namespace MainProcess
variable (s : MainProcess) (id : Nat)

def put (entry : CrashRecoveryRegistry × BrowserWindow) : MainProcess :=
  ⟨Function.update s.windows id (some entry.2), entry.1⟩

/-- The window, while it is not destroyed. -/
def opened : Option BrowserWindow := (s.windows id).filter fun win => !win.destroyed

def step : Event → Option MainProcess
  | .create id =>
    -- `createWindow`, which has the window watched at once
    if (s.opened id).isNone then some (s.put id (s.registry.watch { id := id })) else none
  | .close id => (s.opened id).bind fun win =>
    if win.closing then none
    else some (s.put id ({ s.registry with closing :=
        if win.onClose then Function.update s.registry.closing win.id true
        else s.registry.closing }, { win with onClose := false, closing := true }))
  | .closed id => (s.opened id).map fun win =>
    s.put id (if win.onClosed then s.registry.forget win.id else s.registry,
      { win with destroyed := true, onClosed := false })
  | .contentsGone id => (s.opened id).map fun win =>
    s.put id (s.registry, { win with contentsDestroyed := true })
  | .crash id now ok => (s.windows id).map fun win =>
    s.put id (s.registry.handleRendererCrash win now ok).2

end MainProcess

/-! ## The invariant -/

/-- The registry knows the open window as it is, and each of its reloads that counts. -/
structure Sound (r : CrashRecoveryRegistry) (win : BrowserWindow) : Prop where
  watched : r.watched win.id = true
  listens : win.onClosed = true ∧ win.onClose = !win.closing
  closing : r.closing win.id = win.closing
  keeps : win.reloads.Pairwise (· ≤ ·) → Keeps reloadWindowMs (r.history win.id) win.reloads

/-- An open window is known as it is, and of a window that is gone no entry is left. -/
def Fine (r : CrashRecoveryRegistry) (id : Nat) : Option BrowserWindow → Prop
  | none => ¬r.Knows id
  | some win => win.id = id ∧
      (win.reloads.Pairwise (· ≤ ·) → Bounded reloadWindowMs maxReloadsPerWindow win.reloads) ∧
      if win.destroyed then ¬r.Knows id else Sound r win

def Inv (s : MainProcess) : Prop := ∀ id, Fine s.registry id (s.windows id)

variable {s t : MainProcess} {r r' : CrashRecoveryRegistry} {win : BrowserWindow} {id : Nat}

/-- The entries of the two registries under an id are the same. -/
def SameAt (r r' : CrashRecoveryRegistry) (id : Nat) : Prop :=
  r'.trackers id = r.trackers id ∧ r'.watched id = r.watched id ∧ r'.closing id = r.closing id

theorem Fine.frame {w : Option BrowserWindow} (h : Fine r id w) (hsame : SameAt r r' id) :
    Fine r' id w := by
  obtain ⟨htrackers, hwatched, hclosing⟩ := hsame
  have hknows : r'.Knows id ↔ r.Knows id := by
    simp [Knows, htrackers, hwatched, hclosing]
  cases w with
  | none => rwa [Fine, hknows]
  | some win =>
    obtain ⟨rfl, hbounded, hknown⟩ := h
    refine ⟨rfl, hbounded, ?_⟩
    split
    case isTrue hgone => rwa [if_pos hgone, ← hknows] at hknown
    case isFalse hopen =>
      rw [if_neg hopen] at hknown
      refine ⟨hwatched.trans hknown.watched, hknown.listens, hclosing.trans hknown.closing, ?_⟩
      simpa [history, htrackers] using hknown.keeps

/-- An event of one window changes its own entries only. -/
theorem Inv.change (h : Inv s) (hframe : ∀ id', id' ≠ id → SameAt s.registry r' id')
    (hfine : Fine r' id (some win)) : Inv (s.put id (r', win)) := by
  intro id'
  by_cases hid : id' = id
  · subst hid
    simpa [MainProcess.put] using hfine
  · simpa [MainProcess.put, hid] using (h id').frame (hframe id' hid)

theorem Inv.opened (h : Inv s) (hwin : s.opened id = some win) :
    win.id = id ∧ win.destroyed = false ∧ Sound s.registry win ∧
      (win.reloads.Pairwise (· ≤ ·) → Bounded reloadWindowMs maxReloadsPerWindow win.reloads) := by
  obtain ⟨hat, hopen⟩ := Option.filter_eq_some_iff.mp hwin
  have hfine := h id
  rw [Bool.not_eq_true'] at hopen
  rw [hat, Fine, hopen] at hfine
  exact ⟨hfine.1, hopen, hfine.2.2, hfine.2.1⟩

theorem Inv.unknown (h : Inv s) (hnone : s.opened id = none) : ¬s.registry.Knows id := by
  have hfine := h id
  cases hwin : s.windows id with
  | none => rwa [hwin] at hfine
  | some win =>
    simp only [MainProcess.opened, hwin, Option.filter_eq_none_iff, Option.some.injEq, forall_eq',
      Bool.not_eq_true', Bool.not_eq_false] at hnone
    rw [hwin, Fine, hnone] at hfine
    exact hfine.2.2

/-! ## The events -/

/-- The tracker of a watched window, made when it is asked for first. -/
theorem trackerFor_eq (h : Sound r win) : r.trackerFor win = (⟨r.history win.id⟩,
    { r with trackers := Function.update r.trackers win.id (some ⟨r.history win.id⟩) }, win) := by
  unfold trackerFor history
  cases ht : r.trackers win.id with
  | none => simp [watch, h.watched]
  | some existing =>
    have hself : Function.update r.trackers win.id (some existing) = r.trackers := by
      rw [← ht, Function.update_eq_self]
    simp [hself]

/-- A crash is answered as the reloads of the window itself tell. -/
theorem handleRendererCrash_eq (h : Sound r win) (hcan : r.canRecover win = true) (now : Int)
    (ok : Bool) : r.handleRendererCrash win now ok =
      let counted := recent reloadWindowMs (r.history win.id) now
      if counted.length < maxReloadsPerWindow then
        (if ok then .reloaded (counted.length + 1) else .failed (counted.length + 1),
          { r with trackers := Function.update r.trackers win.id (some ⟨counted ++ [now]⟩) },
          { win with reloads := win.reloads ++ [now] })
      else (.skipped counted.length,
        { r with trackers := Function.update r.trackers win.id (some ⟨r.history win.id⟩) }, win) := by
  simp [handleRendererCrash, hcan, trackerFor_eq h,
    CrashRecoveryTracker.onRendererCrash, CrashRecoveryTracker.recordReload, evaluateReloadBudget]

theorem Inv.crash (h : Inv s) (hwin : s.windows id = some win) (now : Int) (ok : Bool) :
    Inv (s.put id (s.registry.handleRendererCrash win now ok).2) := by
  by_cases hcan : s.registry.canRecover win = true
  · have hopen : win.destroyed = false := by
      simp only [canRecover, Bool.and_eq_true, Bool.not_eq_true'] at hcan
      exact hcan.1.1
    obtain ⟨rfl, -, hsound, hbounded⟩ := h.opened (Option.filter_eq_some_iff.mpr ⟨hwin, by simp [hopen]⟩)
    have hframe : ∀ (tracker : CrashRecoveryTracker) (id' : Nat), id' ≠ win.id →
        SameAt s.registry { s.registry with
          trackers := Function.update s.registry.trackers win.id (some tracker) } id' :=
      fun tracker id' hid => ⟨Function.update_of_ne hid _ _, rfl, rfl⟩
    rw [handleRendererCrash_eq hsound hcan]
    dsimp only
    split
    case isTrue hroom =>
      refine h.change (hframe _) ⟨rfl, fun hp => ?_, ?_⟩
      · obtain ⟨hold, -, hnow⟩ := List.pairwise_append.mp hp
        refine (hbounded hold).record ?_
        rwa [← hsound.keeps hold now fun t ht => hnow t ht now (by simp)]
      · rw [if_neg (by simp [hopen])]
        refine ⟨hsound.watched, hsound.listens, hsound.closing, fun hp => ?_⟩
        simpa [CrashRecoveryRegistry.history] using
          @Keeps.record _ now _ _ (hsound.keeps (List.pairwise_append.mp hp).1)
    case isFalse =>
      refine h.change (hframe _) ⟨rfl, hbounded, ?_⟩
      rw [if_neg (by simp [hopen])]
      refine ⟨hsound.watched, hsound.listens, hsound.closing, fun hp => ?_⟩
      simpa [CrashRecoveryRegistry.history] using hsound.keeps hp
  · rw [handleRendererCrash, if_neg hcan]
    exact h.change (fun _ _ => ⟨rfl, rfl, rfl⟩) (hwin ▸ h id)

theorem Inv.step (h : Inv s) {e : Event} (hs : s.step e = some t) : Inv t := by
  cases e with
  | create id =>
    obtain ⟨hnone, rfl⟩ := Steps.of_guard hs
    have hunknown := h.unknown (Option.isNone_iff_eq_none.mp hnone)
    obtain ⟨hwatched, hclosing, htrackers⟩ : s.registry.watched id = false ∧
        s.registry.closing id = false ∧ s.registry.trackers id = none := by
      simpa [Knows, not_or] using hunknown
    simp only [watch, hwatched, Bool.false_eq_true, if_false]
    refine h.change (fun id' hid => ⟨rfl, Function.update_of_ne hid _ _, rfl⟩)
      ⟨rfl, fun _ _ => Nat.zero_le _, ?_⟩
    refine ⟨Function.update_self .., ⟨rfl, rfl⟩, hclosing, fun _ now _ => ?_⟩
    simp [CrashRecoveryRegistry.history, htrackers]
  | close id =>
    obtain ⟨win, hwin, hs⟩ := Option.bind_eq_some_iff.mp hs
    obtain ⟨rfl, hopen, hsound, hbounded⟩ := h.opened hwin
    split at hs
    · cases hs
    rename_i hclosing
    obtain rfl := Option.some.inj hs
    have hlistens : win.onClose = true := by simpa [hclosing] using hsound.listens.2
    rw [if_pos hlistens]
    refine h.change (fun id' hid => ⟨rfl, rfl, Function.update_of_ne hid _ _⟩) ⟨rfl, hbounded, ?_⟩
    rw [if_neg (by simp [hopen])]
    exact ⟨hsound.watched, ⟨hsound.listens.1, rfl⟩, Function.update_self .., hsound.keeps⟩
  | closed id =>
    obtain ⟨win, hwin, rfl⟩ := Option.map_eq_some_iff.mp hs
    obtain ⟨rfl, hopen, hsound, hbounded⟩ := h.opened hwin
    rw [if_pos hsound.listens.1]
    refine h.change (fun id' hid => ⟨Function.update_of_ne hid _ _, Function.update_of_ne hid _ _,
      Function.update_of_ne hid _ _⟩) ⟨rfl, hbounded, ?_⟩
    simp [Knows, CrashRecoveryRegistry.forget]
  | contentsGone id =>
    obtain ⟨win, hwin, rfl⟩ := Option.map_eq_some_iff.mp hs
    obtain ⟨rfl, hopen, hsound, hbounded⟩ := h.opened hwin
    refine h.change (fun _ _ => ⟨rfl, rfl, rfl⟩) ⟨rfl, hbounded, ?_⟩
    rw [if_neg (by simp [hopen])]
    exact ⟨hsound.watched, hsound.listens, hsound.closing, hsound.keeps⟩
  | crash id now ok =>
    obtain ⟨win, hwin, rfl⟩ := Option.map_eq_some_iff.mp hs
    exact h.crash hwin now ok

theorem inv_run {events : List Event} (hrun : Steps.run MainProcess.step {} events = some s) :
    Inv s := by
  refine Steps.run_invariant MainProcess.step Inv (fun _ _ _ h hs => h.step hs) _ s events
    (fun id => ?_) hrun
  show ¬Knows {} id
  simp [Knows]

/-- **The budget.** As long as the clock does not go back, a window is reloaded at most three times
within any ten minutes, whatever happens to the windows. -/
theorem reloads_bounded {events : List Event}
    (hrun : Steps.run MainProcess.step {} events = some s) (hwin : s.windows id = some win)
    (hclock : win.reloads.Pairwise (· ≤ ·)) :
    Bounded reloadWindowMs maxReloadsPerWindow win.reloads := by
  have hfine := inv_run hrun id
  rw [hwin] at hfine
  exact hfine.2.1 hclock

/-- **No entry is left.** The registry has entries of the open windows, and of no others. -/
theorem knows_iff {events : List Event} (hrun : Steps.run MainProcess.step {} events = some s) :
    s.registry.Knows id ↔ (s.opened id).isSome := by
  have hinv := inv_run hrun
  cases hwin : s.opened id with
  | none => exact iff_of_false (hinv.unknown hwin) Bool.false_ne_true
  | some win =>
    obtain ⟨rfl, -, hsound, -⟩ := hinv.opened hwin
    exact iff_of_true (Or.inl hsound.watched) rfl

/-- Four crashes, the reload that the third asks for fails, and another window under the id. -/
def crashes : List Event := [.create 1, .crash 1 0 true, .crash 1 1000 true, .crash 1 2000 false,
  .crash 1 3000 true, .close 1, .closed 1, .create 1, .crash 1 4000 true]

theorem reloads_crashes : ∃ s win, Steps.run MainProcess.step {} crashes = some s ∧
    s.windows 1 = some win ∧ Bounded reloadWindowMs maxReloadsPerWindow win.reloads :=
  ⟨_, _, rfl, rfl, @reloads_bounded _ _ 1 crashes rfl rfl (by decide)⟩

theorem knows_crashes : ∃ s, Steps.run MainProcess.step {} crashes = some s ∧
    (s.registry.Knows 1 ↔ (s.opened 1).isSome) :=
  ⟨_, rfl, @knows_iff _ _ crashes rfl⟩

end MiqroForge.Desktop
