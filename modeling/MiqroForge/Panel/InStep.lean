import MiqroForge.Panel.WindowSync
import Mathlib.Data.List.Nodup
import Mathlib.Data.List.Pairwise

/-!
The panel and the window over any order of calls, frames and answers: one send of a generation at a
time, what a quiet queue has answered, and what becomes of the released drags.
-/

namespace MiqroForge.Panel

open State List

/-! ## Answers -/

def Answer.increment : Answer → Option Rat
  | .result applied false => some applied
  | _ => none

def Answer.isResult : Answer → Bool
  | .result _ _ => true
  | .rejected => false

/-- The increment that the window has, as the last answer that moved it says. -/
def lastApplied (answers : List (Int × Answer)) : Option Rat :=
  answers.findSome? fun a => a.2.increment

/-- The target of the last answer that was not a rejection. -/
def lastLanded (answers : List (Int × Answer)) : Option Int :=
  answers.findSome? fun a => if a.2.isResult then some a.1 else none

/-- A target was rejected just now, or is the one the last answer but for rejections is for. -/
def Answered (answers : List (Int × Answer)) (target : Int) : Prop :=
  answers.head? = some (target, .rejected) ∨ lastLanded answers = some target

namespace State

/-- The sends of the current generation. -/
def own (s : State) : List Send := s.sends.filter fun x => decide (x.generation = s.generation)

/-- What the history tells of the anchor. -/
def drag? (s : State) : Option (Nat × Bool × Bool) :=
  s.anchor.map fun a => (a.drag, a.released, a.windowFollowed)

end State

open State

/-! ## Invariants -/

/-- The drags: every released one is under way, replaced or committed, and committed once. -/
structure Drags (h : History) (drag : Option (Nat × Bool × Bool)) : Prop where
  current : ∀ k released followed, drag = some (k, released, followed) →
    k < h.begun ∧ k ∉ h.abandoned ∧ k ∉ h.commits.map (·.anchor.drag) ∧
      (followed = true ↔ k ∈ h.followed) ∧ (k ∈ h.released → released = true)
  begun : ∀ k, k ∈ h.released ∨ k ∈ h.abandoned ∨ k ∈ h.followed ∨
    k ∈ h.commits.map (·.anchor.drag) → k < h.begun
  once : (h.commits.map (·.anchor.drag)).Nodup
  accounted : ∀ k ∈ h.released, (∃ released followed, drag = some (k, released, followed)) ∨
    k ∈ h.abandoned ∨ k ∈ h.commits.map (·.anchor.drag)
  width : ∀ c ∈ h.commits, c.anchor.released = true ∧
    c.width = if c.anchor.drag ∈ h.followed then panelWidthForApplied c.anchor c.applied
      else clampPanelWidth c.anchor.targetWidth

/-- What holds at every moment. -/
structure Sound (s : State) : Prop where
  free : s.inFlight = false → s.own = []
  busy : s.inFlight = true → ∃ x, s.own = [x]
  bound : ∀ x ∈ s.sends, x.generation ≤ s.generation ∧ x.id < s.nextSend
  ids : s.sends.Pairwise fun x y => x.id ≠ y.id
  raf : s.raf = true → s.inFlight = false ∧ s.pending.isSome = true
  requested : s.requested = lastLanded s.history.answers
  pending : ∀ target, s.pending = some target → s.history.asked = some target
  flight : s.pending = none → ∀ x ∈ s.own, s.history.asked = some x.target
  landed : ∀ x ∈ s.own, x.landed = true →
    ∃ answer, s.history.answers.head? = some (x.target, answer)
  increment : s.history.synced = false → s.pendingBaseline = none ∧
    ∀ a, lastApplied s.history.answers = some a → s.applied = a
  drags : Drags s.history s.drag?

/-- What holds when an event is over. -/
structure Stable (s : State) : Prop where
  waiting : s.pending.isSome = true → s.raf = true ∨ s.inFlight = true
  idle : s.quiet = true → ∀ a, s.anchor = some a → a.released = false
  answered : s.quiet = true → ∀ target, s.history.asked = some target →
    Answered s.history.answers target

section Parts

variable {s : State}

theorem Sound.outside (h : Sound s) (notify : Bool) (last : Option Int) (outputs : List Output)
    (width : Option Rat) : Sound { s with
      notifyOnSettle := notify
      lastAppliedWidth := last
      outputs := outputs
      pendingWidth := width } :=
  ⟨h.free, h.busy, h.bound, h.ids, h.raf, h.requested, h.pending, h.flight, h.landed, h.increment,
    h.drags⟩

theorem Stable.outside (h : Stable s) (notify : Bool) (last : Option Int) (outputs : List Output)
    (width : Option Rat) : Stable { s with
      notifyOnSettle := notify
      lastAppliedWidth := last
      outputs := outputs
      pendingWidth := width } :=
  ⟨h.waiting, h.idle, h.answered⟩

theorem apply_eq (s : State) (width : Int) : ∃ last outputs,
    s.apply width = { s with lastAppliedWidth := last, outputs := outputs } := by
  unfold apply
  split
  · exact ⟨s.lastAppliedWidth, s.outputs, rfl⟩
  · exact ⟨_, _, rfl⟩

theorem notify_eq (s : State) : ∃ notify outputs,
    s.notifyRequestSettled = { s with notifyOnSettle := notify, outputs := outputs } := by
  unfold notifyRequestSettled
  split
  · exact ⟨_, _, rfl⟩
  · exact ⟨s.notifyOnSettle, s.outputs, rfl⟩

theorem Sound.notify (h : Sound s) : Sound s.notifyRequestSettled := by
  obtain ⟨notify, outputs, heq⟩ := notify_eq s
  rw [heq]
  exact h.outside notify s.lastAppliedWidth outputs s.pendingWidth

theorem Stable.notify (h : Stable s) : Stable s.notifyRequestSettled := by
  obtain ⟨notify, outputs, heq⟩ := notify_eq s
  rw [heq]
  exact h.outside notify s.lastAppliedWidth outputs s.pendingWidth

/-! ## The baseline -/

theorem Sound.shift (h : Sound s) : Sound s.shiftToPendingBaseline := by
  unfold shiftToPendingBaseline
  split
  · exact h
  · rename_i baseline hbaseline
    have hdrag : drag? { s with
        applied := baseline
        anchor := s.anchor.map fun a => { a with applied := a.applied + (baseline - s.applied) }
        pendingBaseline := none } = s.drag? := by
      unfold drag?
      cases s.anchor <;> rfl
    refine ⟨h.free, h.busy, h.bound, h.ids, h.raf, h.requested, h.pending, h.flight, h.landed, ?_,
      hdrag ▸ h.drags⟩
    intro hsynced
    have hnone := (h.increment hsynced).1
    rw [hbaseline] at hnone
    cases hnone

theorem Stable.shift (h : Stable s) : Stable s.shiftToPendingBaseline := by
  unfold shiftToPendingBaseline
  split
  · exact h
  · refine ⟨h.waiting, ?_, h.answered⟩
    intro hquiet a ha
    obtain ⟨a', ha', rfl⟩ := Option.map_eq_some_iff.mp ha
    exact h.idle hquiet a' ha'

theorem Sound.consume (h : Sound s) : Sound s.consumePendingBaseline := by
  unfold consumePendingBaseline
  split
  · exact h.shift
  · exact h

theorem Stable.consume (h : Stable s) : Stable s.consumePendingBaseline := by
  unfold consumePendingBaseline
  split
  · exact h.shift
  · exact h

/-! ## Settling -/

theorem Drags.commit {h : History} {anchor : PanelDragAnchor}
    (hd : Drags h (some (anchor.drag, true, anchor.windowFollowed)))
    (hreleased : anchor.released = true) (applied : Rat) {width : Int}
    (hwidth : width = if anchor.windowFollowed then panelWidthForApplied anchor applied
      else clampPanelWidth anchor.targetWidth) :
    Drags { h with commits := ⟨anchor, applied, width⟩ :: h.commits } none := by
  obtain ⟨hbegun, -, hfresh, hfollowed, -⟩ := hd.current _ _ _ rfl
  refine ⟨nofun, ?_, nodup_cons.mpr ⟨hfresh, hd.once⟩, ?_, ?_⟩
  · intro k hk
    rw [map_cons, mem_cons] at hk
    obtain hk | hk | hk | rfl | hk := hk
    · exact hd.begun k (.inl hk)
    · exact hd.begun k (.inr (.inl hk))
    · exact hd.begun k (.inr (.inr (.inl hk)))
    · exact hbegun
    · exact hd.begun k (.inr (.inr (.inr hk)))
  · intro k hk
    rw [map_cons, mem_cons]
    obtain ⟨released, followed, heq⟩ | hk | hk := hd.accounted k hk
    · exact .inr (.inr (.inl (Prod.mk.inj (Option.some.inj heq)).1.symm))
    · exact .inr (.inl hk)
    · exact .inr (.inr (.inr hk))
  · intro c hc
    obtain rfl | hc := mem_cons.mp hc
    · refine ⟨hreleased, hwidth.trans ?_⟩
      by_cases hf : anchor.windowFollowed = true
      · rw [if_pos hf, if_pos (hfollowed.mp hf)]
      · rw [if_neg hf, if_neg fun hmem => hf (hfollowed.mpr hmem)]
    · exact hd.width c hc

theorem Sound.settle (h : Sound s) : Sound s.settle := by
  unfold State.settle
  split
  · exact h
  · rename_i anchor hanchor
    split
    · rename_i hgo
      have hreleased : anchor.released = true := (Bool.and_eq_true_iff.mp hgo).1
      have hdrags : Drags s.history (some (anchor.drag, true, anchor.windowFollowed)) := by
        have hd := h.drags
        rw [drag?, hanchor, Option.map_some, hreleased] at hd
        exact hd
      have hcommitted := @Drags.commit _ _ hdrags hreleased s.applied (s.settled anchor) rfl
      obtain ⟨last, outputs, heq⟩ := apply_eq s (s.settled anchor)
      unfold commit
      rw [heq]
      exact ⟨h.free, h.busy, h.bound, h.ids, h.raf, h.requested, h.pending, h.flight, h.landed,
        h.increment, hcommitted⟩
    · exact h

theorem stable_settle (hwaiting : s.pending.isSome = true → s.raf = true ∨ s.inFlight = true)
    (hanswered : s.quiet = true → ∀ target, s.history.asked = some target →
      Answered s.history.answers target) : Stable s.settle := by
  unfold settle
  split
  · rename_i hnone
    refine ⟨hwaiting, fun _ a ha => ?_, hanswered⟩
    rw [hnone] at ha
    cases ha
  · rename_i anchor hanchor
    split
    · obtain ⟨last, outputs, heq⟩ := apply_eq s (s.settled anchor)
      unfold commit
      rw [heq]
      exact ⟨hwaiting, nofun, hanswered⟩
    · rename_i hstay
      refine ⟨hwaiting, fun hquiet a ha => ?_, hanswered⟩
      obtain rfl := Option.some.inj (hanchor.symm.trans ha)
      rw [hquiet, Bool.and_true] at hstay
      exact Bool.not_eq_true _ ▸ hstay

/-! ## Targets -/

theorem Sound.maybeQueue (h : Sound s) : Sound s.maybeQueue := by
  unfold State.maybeQueue
  split
  · exact h
  · rename_i hgo
    refine ⟨h.free, h.busy, h.bound, h.ids, fun _ => ?_, h.requested, h.pending, h.flight, h.landed,
      h.increment, h.drags⟩
    simp only [Bool.or_eq_true, not_or, Bool.not_eq_true] at hgo
    refine ⟨hgo.1.2, ?_⟩
    rw [Option.isNone_eq_false_iff] at hgo
    exact hgo.2

theorem waiting_maybeQueue : (s.maybeQueue).pending.isSome = true →
    s.maybeQueue.raf = true ∨ s.maybeQueue.inFlight = true := by
  unfold maybeQueue
  split
  · rename_i hstay
    intro hpending
    simp only [Bool.or_eq_true, Option.isNone_iff_eq_none] at hstay
    obtain (hraf | hflight) | hnone := hstay
    · exact .inl hraf
    · exact .inr hflight
    · rw [hnone] at hpending
      cases hpending
  · exact fun _ => .inl rfl

theorem quiet_maybeQueue (h : s.maybeQueue.quiet = true) : s.maybeQueue = s := by
  unfold maybeQueue at h ⊢
  split
  · rfl
  · rename_i hgo
    rw [if_neg hgo] at h
    simp [quiet] at h

theorem not_quiet_of_pending {target : Int} (h : s.pending = some target) : s.quiet = false := by
  simp [quiet, h]

theorem Sound.ask (h : Sound s) (target : Int) (width : Option Rat) : Sound (s.ask target width) := by
  refine ⟨h.free, h.busy, h.bound, h.ids, fun hraf => ⟨(h.raf hraf).1, rfl⟩, h.requested, ?_, nofun,
    h.landed, h.increment, ?_⟩
  · rintro target' ⟨⟩
    rfl
  · exact ⟨h.drags.current, h.drags.begun, h.drags.once, h.drags.accounted, h.drags.width⟩

theorem pending_maybeQueue (s : State) : s.maybeQueue.pending = s.pending := by
  unfold maybeQueue
  split <;> rfl

theorem stable_ask (s : State) (target : Int) (width : Option Rat) :
    Stable (s.ask target width).maybeQueue := by
  have hbusy : (s.ask target width).maybeQueue.quiet = false :=
    not_quiet_of_pending (pending_maybeQueue _)
  refine ⟨waiting_maybeQueue, ?_, ?_⟩ <;>
  · intro hquiet
    rw [hbusy] at hquiet
    cases hquiet

/-! ## Sends -/

theorem own_filter (s : State) (p : Send → Bool) :
    own { s with sends := s.sends.filter p } = s.own.filter p := by
  simp only [own, filter_filter, Bool.and_comm]

theorem own_mark (s : State) (id : Nat) : (s.mark id).own =
    s.own.map fun x => if x.id = id then { x with landed := true } else x := by
  unfold own mark
  rw [filter_map]
  congr 2
  funext x
  simp only [Function.comp_apply]
  split <;> rfl

theorem bound_mark (h : Sound s) (id : Nat) :
    ∀ x ∈ (s.mark id).sends, x.generation ≤ s.generation ∧ x.id < s.nextSend := by
  intro x hx
  obtain ⟨y, hy, rfl⟩ := mem_map.mp hx
  split <;> exact h.bound y hy

theorem ids_mark (h : Sound s) (id : Nat) :
    (s.mark id).sends.Pairwise fun x y => x.id ≠ y.id := by
  refine pairwise_map.mpr (h.ids.imp fun {a b} hne => ?_)
  split <;> split <;> exact hne

theorem Sound.mark (h : Sound s) {id : Nat} (hother : ∀ x ∈ s.own, x.id ≠ id) :
    Sound (s.mark id) := by
  have hown : (s.mark id).own = s.own := by
    rw [own_mark]
    exact (map_congr_left fun x hx => if_neg (hother x hx)).trans (map_id s.own)
  refine ⟨?_, ?_, bound_mark h id, ids_mark h id, h.raf, h.requested, h.pending, ?_, ?_,
    h.increment, h.drags⟩
  · rw [hown]
    exact h.free
  · rw [hown]
    exact h.busy
  · rw [hown]
    exact h.flight
  · rw [hown]
    exact h.landed

theorem own_ne {send : Send} (h : Sound s) (hsend : send ∈ s.sends)
    (hgen : send.generation ≠ s.generation) : ∀ x ∈ s.own, x.id ≠ send.id := by
  intro x hx heq
  obtain ⟨hx, hown⟩ := mem_filter.mp hx
  have hxs : x = send := by
    by_contra hne
    have : Std.Symm fun x y : Send => x.id ≠ y.id := ⟨fun _ _ => Ne.symm⟩
    exact h.ids.forall hx hsend hne heq
  rw [hxs] at hown
  exact hgen (of_decide_eq_true hown)

theorem own_eq {send : Send} (h : Sound s) (hsend : send ∈ s.sends)
    (hgen : send.generation = s.generation) : s.inFlight = true ∧ s.own = [send] := by
  have hmem : send ∈ s.own := mem_filter.mpr ⟨hsend, decide_eq_true hgen⟩
  have hbusy : s.inFlight = true := by
    rw [← Bool.not_eq_false]
    intro hfree
    rw [h.free hfree] at hmem
    cases hmem
  obtain ⟨x, hx⟩ := h.busy hbusy
  rw [hx, mem_singleton] at hmem
  exact ⟨hbusy, hmem ▸ hx⟩

theorem busy_not_quiet (h : s.inFlight = true) : s.quiet = false := by
  simp [quiet, h]

theorem stable_busy (h : s.inFlight = true) : Stable s := by
  have hbusy := busy_not_quiet h
  refine ⟨fun _ => .inr h, ?_, ?_⟩ <;>
  · intro hquiet
    rw [hbusy] at hquiet
    cases hquiet

theorem Drags.answers {h : History} {drag : Option (Nat × Bool × Bool)} (hd : Drags h drag)
    (asked : Option Int) (answers : List (Int × Answer)) (synced : Bool) :
    Drags { h with asked := asked, answers := answers, synced := synced } drag :=
  ⟨hd.current, hd.begun, hd.once, hd.accounted, hd.width⟩

theorem Drags.follow {h : History} {anchor : Option PanelDragAnchor}
    (hd : Drags h (anchor.map fun a => (a.drag, a.released, a.windowFollowed))) :
    Drags { h with followed := (anchor.map PanelDragAnchor.drag).toList ++ h.followed }
      (anchor.map fun a => (a.drag, a.released, true)) := by
  cases anchor with
  | none => exact ⟨nofun, hd.begun, hd.once, hd.accounted, hd.width⟩
  | some anchor =>
    rw [Option.map_some] at hd ⊢
    obtain ⟨hbegun, habandoned, hfresh, -, hreleased⟩ := hd.current _ _ _ rfl
    refine ⟨?_, ?_, hd.once, ?_, ?_⟩
    · rintro k released followed ⟨⟩
      exact ⟨hbegun, habandoned, hfresh, by simp, hreleased⟩
    · intro k hk
      obtain hk | hk | hk | hk := hk
      · exact hd.begun k (.inl hk)
      · exact hd.begun k (.inr (.inl hk))
      · obtain rfl | hk := mem_cons.mp hk
        · exact hbegun
        · exact hd.begun k (.inr (.inr (.inl hk)))
      · exact hd.begun k (.inr (.inr (.inr hk)))
    · intro k hk
      obtain ⟨released, followed, heq⟩ | hk | hk := hd.accounted k hk
      · obtain rfl := (Prod.mk.inj (Option.some.inj heq)).1
        exact .inl ⟨anchor.released, true, rfl⟩
      · exact .inr (.inl hk)
      · exact .inr (.inr hk)
    · intro c hc
      have hne : c.anchor.drag ≠ anchor.drag := by
        intro heq
        exact hfresh (heq ▸ mem_map.mpr ⟨c, hc, rfl⟩)
      obtain ⟨hreleased', hwidth⟩ := hd.width c hc
      refine ⟨hreleased', hwidth.trans ?_⟩
      simp [hne]

theorem follow_eq (s : State) (applied : Rat) : ∃ anchor last outputs,
    s.follow applied = { s with
      applied := applied
      pendingBaseline := none
      anchor := anchor
      lastAppliedWidth := last
      outputs := outputs
      history := { s.history with
        synced := false
        followed := (s.anchor.map PanelDragAnchor.drag).toList ++ s.history.followed } } ∧
    anchor.map (fun a => (a.drag, a.released, a.windowFollowed)) =
      s.anchor.map fun a => (a.drag, a.released, true) := by
  unfold follow shiftToPendingBaseline
  cases hbaseline : s.pendingBaseline <;> cases hanchor : s.anchor
  · exact ⟨none, s.lastAppliedWidth, s.outputs, by simp [hbaseline, hanchor], rfl⟩
  · dsimp only
    rw [hanchor]
    dsimp only
    split
    · obtain ⟨last, outputs, heq⟩ := apply_eq _ _
      rw [heq, hbaseline]
      exact ⟨_, last, outputs, rfl, rfl⟩
    · rw [hbaseline]
      exact ⟨_, _, _, rfl, rfl⟩
  · exact ⟨none, s.lastAppliedWidth, s.outputs, rfl, rfl⟩
  · dsimp only [Option.map_some]
    split
    · obtain ⟨last, outputs, heq⟩ := apply_eq _ _
      rw [heq]
      exact ⟨_, last, outputs, rfl, rfl⟩
    · exact ⟨_, _, _, rfl, rfl⟩

theorem skip_eq (s : State) (desired : Option Rat) : ∃ last outputs,
    s.skip desired = { s with lastAppliedWidth := last, outputs := outputs } := by
  unfold skip
  split
  · split
    · exact apply_eq s _
    · exact ⟨s.lastAppliedWidth, s.outputs, rfl⟩
  · exact ⟨s.lastAppliedWidth, s.outputs, rfl⟩

theorem Sound.hear (h : Sound s) {send : Send} (hbusy : s.inFlight = true) (hown : s.own = [send])
    {answer : Answer} {t : State} (hsends : t.sends = (s.mark send.id).sends)
    (hnext : t.nextSend = s.nextSend) (hgen : t.generation = s.generation)
    (hflight : t.inFlight = s.inFlight) (hraf : t.raf = s.raf) (hpending : t.pending = s.pending)
    (hasked : t.history.asked = s.history.asked)
    (hanswers : t.history.answers = (send.target, answer) :: s.history.answers)
    (hrequested : t.requested = lastLanded ((send.target, answer) :: s.history.answers))
    (hincrement : t.history.synced = false → t.pendingBaseline = none ∧
      ∀ a, lastApplied ((send.target, answer) :: s.history.answers) = some a → t.applied = a)
    (hdrags : Drags t.history t.drag?) : Sound t := by
  have htown : t.own = [{ send with landed := true }] := by
    have hmark := own_mark s send.id
    rw [hown, map_singleton, if_pos rfl] at hmark
    rw [← hmark, own, own, hsends, hgen]
    rfl
  refine ⟨?_, ?_, ?_, ?_, ?_, hanswers ▸ hrequested, ?_, ?_, ?_, hanswers ▸ hincrement, hdrags⟩
  · intro hfree
    rw [hflight, hbusy] at hfree
    cases hfree
  · exact fun _ => ⟨_, htown⟩
  · rw [hsends, hgen, hnext]
    exact bound_mark h send.id
  · rw [hsends]
    exact ids_mark h send.id
  · rw [hraf, hflight, hpending]
    exact h.raf
  · rw [hpending, hasked]
    exact h.pending
  · intro hnone x hx
    rw [htown, mem_singleton] at hx
    rw [hasked, hx]
    exact h.flight (hpending ▸ hnone) send (hown ▸ mem_singleton_self send)
  · intro x hx _
    rw [htown, mem_singleton] at hx
    exact ⟨answer, by rw [hanswers, hx]; rfl⟩

/-- The first continuation of a send leaves the others as they are. -/
theorem land_keeps (s : State) (send : Send) (answer : Answer) :
    (s.land send answer).inFlight = s.inFlight ∧
      (s.land send answer).sends = (s.mark send.id).sends ∧
      (s.land send answer).nextSend = s.nextSend ∧
      (s.land send answer).generation = s.generation := by
  unfold land
  dsimp only
  split
  · exact ⟨rfl, rfl, rfl, rfl⟩
  · cases answer with
    | rejected => exact ⟨rfl, rfl, rfl, rfl⟩
    | result applied skipped =>
      dsimp only
      split
      · obtain ⟨last, outputs, heq⟩ := skip_eq { (s.mark send.id).hear send.target
          (.result applied skipped) with requested := some send.target } send.desired
        rw [heq]
        exact ⟨rfl, rfl, rfl, rfl⟩
      · obtain ⟨anchor, last, outputs, heq, -⟩ := follow_eq { (s.mark send.id).hear send.target
          (.result applied skipped) with requested := some send.target } applied
        rw [heq]
        exact ⟨rfl, rfl, rfl, rfl⟩

theorem Sound.land (h : Sound s) {send : Send} (hsend : send ∈ s.sends) (answer : Answer) :
    Sound (s.land send answer) := by
  unfold State.land
  dsimp only
  split
  · rename_i hgen
    exact h.mark (own_ne h hsend hgen)
  · rename_i hgen
    obtain ⟨hbusy, hown⟩ := own_eq h hsend (of_not_not hgen)
    have hdrags : Drags ((s.mark send.id).hear send.target answer).history s.drag? :=
      ⟨h.drags.current, h.drags.begun, h.drags.once, h.drags.accounted, h.drags.width⟩
    cases answer with
    | rejected =>
      exact h.hear hbusy hown rfl rfl rfl rfl rfl rfl rfl rfl h.requested h.increment hdrags
    | result applied skipped =>
      dsimp only
      cases skipped with
      | true =>
        obtain ⟨last, outputs, heq⟩ := skip_eq { (s.mark send.id).hear send.target
          (.result applied true) with requested := some send.target } send.desired
        rw [if_pos rfl, heq]
        exact h.hear hbusy hown rfl rfl rfl rfl rfl rfl rfl rfl rfl h.increment hdrags
      | false =>
        obtain ⟨anchor, last, outputs, heq, hkey⟩ := follow_eq { (s.mark send.id).hear send.target
          (.result applied false) with requested := some send.target } applied
        rw [if_neg Bool.false_ne_true, heq]
        refine h.hear hbusy hown rfl rfl rfl rfl rfl rfl rfl rfl rfl ?_ ?_
        · exact fun _ => ⟨rfl, fun a ha => Option.some.inj ha⟩
        · rw [drag?]
          dsimp only
          rw [hkey]
          have hd : Drags s.history (s.anchor.map fun a =>
              (a.drag, a.released, a.windowFollowed)) := h.drags
          exact hd.follow.answers s.history.asked
            ((send.target, .result applied false) :: s.history.answers) false

theorem Stable.land (hstable : Stable s) (h : Sound s) {send : Send} (hsend : send ∈ s.sends)
    (answer : Answer) : Stable (s.land send answer) := by
  by_cases hgen : send.generation = s.generation
  · exact stable_busy ((land_keeps s send answer).1.trans (own_eq h hsend hgen).1)
  · unfold State.land
    dsimp only
    rw [if_pos hgen]
    exact ⟨hstable.waiting, hstable.idle, hstable.answered⟩

theorem Sound.drop (h : Sound s) (id : Nat) (flight : Bool)
    (hfree : flight = false → ∀ x ∈ s.own, x.id = id)
    (hbusy : flight = true → s.inFlight = true ∧ ∀ x ∈ s.own, x.id ≠ id)
    (hraf : s.raf = true → flight = false) :
    Sound { s with
      sends := s.sends.filter fun x => decide (x.id ≠ id)
      inFlight := flight } := by
  have hown := own_filter s fun x => decide (x.id ≠ id)
  refine ⟨?_, ?_, ?_, ?_, ?_, h.requested, h.pending, ?_, ?_, h.increment, h.drags⟩
  · intro hflight
    refine hown.trans (filter_eq_nil_iff.mpr fun x hx => ?_)
    simpa using hfree hflight x hx
  · intro hflight
    obtain ⟨hs, hne⟩ := hbusy hflight
    obtain ⟨x, hx⟩ := h.busy hs
    refine ⟨x, hown.trans ?_⟩
    rw [hx]
    have hx' := hne x (hx ▸ mem_singleton_self x)
    simp [hx']
  · exact fun x hx => h.bound x (mem_of_mem_filter hx)
  · exact h.ids.filter _
  · exact fun hr => ⟨hraf hr, (h.raf hr).2⟩
  · exact fun hnone x hx => h.flight hnone x (mem_of_mem_filter (hown ▸ hx))
  · exact fun x hx => h.landed x (mem_of_mem_filter (hown ▸ hx))

theorem answered_landed (h : Sound s) {send : Send} (hown : s.own = [send])
    (hlanded : send.landed = true) (hpending : s.pending = none) {target : Int}
    (hasked : s.history.asked = some target) : Answered s.history.answers target := by
  have hmem : send ∈ s.own := hown ▸ mem_singleton_self send
  obtain ⟨answer, hhead⟩ := h.landed send hmem hlanded
  obtain rfl := Option.some.inj ((h.flight hpending send hmem).symm.trans hasked)
  cases answer with
  | rejected => exact .inl hhead
  | result applied skipped =>
    right
    obtain ⟨rest, hrest⟩ := head?_eq_some_iff.mp hhead
    rw [hrest]
    rfl

theorem Sound.finish (h : Sound s) (hstable : Stable s) {send : Send} (hsend : send ∈ s.sends)
    (hlanded : send.landed = true) : Sound (s.finish send) ∧ Stable (s.finish send) := by
  unfold State.finish
  dsimp only
  split
  · rename_i hgen
    have hne := own_ne h hsend hgen
    refine ⟨h.drop send.id s.inFlight ?_ (fun hbusy => ⟨hbusy, hne⟩) fun hraf => (h.raf hraf).1,
      ⟨hstable.waiting, hstable.idle, hstable.answered⟩⟩
    intro hfree x hx
    rw [h.free hfree] at hx
    cases hx
  · rename_i hgen
    obtain ⟨hbusy, hown⟩ := own_eq h hsend (of_not_not hgen)
    have hdone : Sound { s with
        sends := s.sends.filter fun x => decide (x.id ≠ send.id)
        inFlight := false } := by
      refine h.drop send.id false (fun _ x hx => ?_) nofun fun _ => rfl
      rw [hown, mem_singleton] at hx
      rw [hx]
    have hsettled := stable_settle (s := State.maybeQueue { s with
        sends := s.sends.filter fun x => decide (x.id ≠ send.id)
        inFlight := false }) waiting_maybeQueue ?_
    · exact ⟨hdone.maybeQueue.settle.consume.notify, hsettled.consume.notify⟩
    · intro hquiet target hasked
      have hsame := quiet_maybeQueue hquiet
      rw [hsame] at hquiet hasked ⊢
      have hpending : s.pending = none := by
        simpa using (Bool.and_eq_true_iff.mp hquiet).2
      exact answered_landed h hown hlanded hpending hasked

/-! ## The frame -/

theorem Sound.frame (h : Sound s) (hraf : s.raf = true) : Sound s.frame ∧ Stable s.frame := by
  obtain ⟨hflight, hpending⟩ := h.raf hraf
  obtain ⟨target, htarget⟩ := Option.isSome_iff_exists.mp hpending
  have hasked := h.pending target htarget
  have hown := h.free hflight
  unfold State.frame
  rw [htarget]
  dsimp only
  split
  · rename_i hsame
    have hdone : Sound { s with raf := false, pending := none, pendingWidth := none } := by
      refine ⟨h.free, h.busy, h.bound, h.ids, nofun, h.requested, nofun, ?_, h.landed, h.increment,
        h.drags⟩
      intro _ x hx
      change x ∈ s.own at hx
      rw [hown] at hx
      cases hx
    have hsettled := stable_settle (s := { s with
      raf := false, pending := none, pendingWidth := none }) nofun ?_
    · exact ⟨hdone.settle.notify, hsettled.notify⟩
    · intro _ target' hasked'
      obtain rfl := Option.some.inj (hasked.symm.trans hasked')
      exact .inr (h.requested.symm.trans hsame)
  · have hnew : ∀ x ∈ s.sends, s.nextSend ≠ x.id := fun x hx => (h.bound x hx).2.ne'
    have hsent : own { s with
        raf := false
        pending := none
        pendingWidth := none
        inFlight := true
        sends := ⟨s.nextSend, s.generation, target, s.pendingWidth, false⟩ :: s.sends
        nextSend := s.nextSend + 1 } =
        [⟨s.nextSend, s.generation, target, s.pendingWidth, false⟩] := by
      change (Send.mk s.nextSend s.generation target s.pendingWidth false :: s.sends).filter
        (fun x => decide (x.generation = s.generation)) = _
      refine (@filter_cons_of_pos _ (fun x : Send => decide (x.generation = s.generation)) _ _
        (decide_eq_true rfl)).trans ?_
      exact congrArg _ hown
    refine ⟨⟨nofun, fun _ => ⟨_, hsent⟩, ?_, pairwise_cons.mpr ⟨hnew, h.ids⟩, nofun,
      h.requested, nofun, ?_, ?_, h.increment, h.drags⟩, stable_busy rfl⟩
    · intro x hx
      obtain rfl | hx := mem_cons.mp hx
      · exact ⟨le_rfl, Nat.lt_succ_self _⟩
      · exact ⟨(h.bound x hx).1, (h.bound x hx).2.trans (Nat.lt_succ_self _)⟩
    · intro _ x hx
      rw [hsent, mem_singleton] at hx
      rw [hx]
      exact hasked
    · intro x hx hlanded
      rw [hsent, mem_singleton] at hx
      rw [hx] at hlanded
      cases hlanded

/-! ## The calls -/

theorem Drags.abandon {h : History} {drag : Option (Nat × Bool × Bool)} (hd : Drags h drag)
    (anchor : Option PanelDragAnchor) (hanchor : drag = anchor.map fun a =>
      (a.drag, a.released, a.windowFollowed)) :
    Drags { h with abandoned := (anchor.map PanelDragAnchor.drag).toList ++ h.abandoned } none := by
  subst hanchor
  cases anchor with
  | none => exact ⟨nofun, hd.begun, hd.once, hd.accounted, hd.width⟩
  | some anchor =>
    have hbegun := (hd.current _ _ _ rfl).1
    refine ⟨nofun, ?_, hd.once, ?_, hd.width⟩
    · intro k hk
      obtain hk | hk | hk | hk := hk
      · exact hd.begun k (.inl hk)
      · obtain rfl | hk := mem_cons.mp hk
        · exact hbegun
        · exact hd.begun k (.inr (.inl hk))
      · exact hd.begun k (.inr (.inr (.inl hk)))
      · exact hd.begun k (.inr (.inr (.inr hk)))
    · intro k hk
      obtain ⟨released, followed, heq⟩ | hk | hk := hd.accounted k hk
      · obtain rfl := (Prod.mk.inj (Option.some.inj heq)).1
        exact .inr (.inl mem_cons_self)
      · exact .inr (.inl (mem_cons_of_mem _ hk))
      · exact .inr (.inr hk)

theorem Drags.begin {h : History} (hd : Drags h none) :
    Drags { h with begun := h.begun + 1 } (some (h.begun, false, false)) := by
  have hnot : ∀ k, k ∈ h.released ∨ k ∈ h.abandoned ∨ k ∈ h.followed ∨
      k ∈ h.commits.map (·.anchor.drag) → k ≠ h.begun := fun k hk => (hd.begun k hk).ne
  refine ⟨?_, fun k hk => (hd.begun k hk).trans (Nat.lt_succ_self _), hd.once, ?_, hd.width⟩
  · rintro k released followed ⟨⟩
    refine ⟨Nat.lt_succ_self _, fun hk => hnot _ (.inr (.inl hk)) rfl,
      fun hk => hnot _ (.inr (.inr (.inr hk))) rfl, ⟨nofun, ?_⟩, ?_⟩
    · exact fun hk => absurd rfl (hnot _ (.inr (.inr (.inl hk))))
    · exact fun hk => absurd rfl (hnot _ (.inl hk))
  · intro k hk
    obtain ⟨released, followed, heq⟩ | hk := hd.accounted k hk
    · cases heq
    · exact .inr hk

theorem Sound.beginDrag (h : Sound s) (hstable : Stable s) (clientX width : Rat) :
    Sound (s.beginDrag clientX width) ∧ Stable (s.beginDrag clientX width) := by
  have hc := h.consume
  have hcs := hstable.consume
  unfold State.beginDrag
  dsimp only
  generalize s.consumePendingBaseline = u at hc hcs ⊢
  refine ⟨⟨hc.free, hc.busy, hc.bound, hc.ids, hc.raf, hc.requested, hc.pending, hc.flight,
    hc.landed, hc.increment, ?_⟩, ⟨hcs.waiting, ?_, hcs.answered⟩⟩
  · exact (hc.drags.abandon u.anchor rfl).begin
  · rintro - a ⟨⟩
    rfl

theorem Sound.anchored (h : Sound s) {anchor : PanelDragAnchor} (hanchor : s.anchor = some anchor)
    {anchor' : PanelDragAnchor} (hdrag : anchor'.drag = anchor.drag)
    (hreleased : anchor'.released = anchor.released)
    (hfollowed : anchor'.windowFollowed = anchor.windowFollowed) :
    Sound { s with anchor := some anchor' } := by
  refine ⟨h.free, h.busy, h.bound, h.ids, h.raf, h.requested, h.pending, h.flight, h.landed,
    h.increment, ?_⟩
  have hd := h.drags
  rw [drag?, hanchor, Option.map_some] at hd
  rw [drag?, Option.map_some, hdrag, hreleased, hfollowed]
  exact hd

theorem Sound.dragTo (h : Sound s) (hstable : Stable s) (width : Rat) :
    Sound (s.dragTo width) ∧ Stable (s.dragTo width) := by
  unfold State.dragTo
  split
  · exact ⟨h, hstable⟩
  · rename_i anchor hanchor
    have hmoved : Sound { s with anchor := some { anchor with targetWidth := width } } :=
      h.anchored hanchor rfl rfl rfl
    exact ⟨(hmoved.ask _ _).maybeQueue, stable_ask _ _ _⟩

theorem Drags.release {h : History} {k : Nat} {released followed : Bool}
    (hd : Drags h (some (k, released, followed))) :
    Drags { h with released := k :: h.released } (some (k, true, followed)) := by
  obtain ⟨hbegun, habandoned, hfresh, hfollowed, -⟩ := hd.current _ _ _ rfl
  refine ⟨?_, ?_, hd.once, ?_, hd.width⟩
  · rintro _ _ _ ⟨⟩
    exact ⟨hbegun, habandoned, hfresh, hfollowed, fun _ => rfl⟩
  · intro k' hk
    obtain hk | hk := hk
    · obtain rfl | hk := mem_cons.mp hk
      · exact hbegun
      · exact hd.begun k' (.inl hk)
    · exact hd.begun k' (.inr hk)
  · intro k' hk
    obtain rfl | hk := mem_cons.mp hk
    · exact .inl ⟨true, followed, rfl⟩
    · obtain ⟨released', followed', heq⟩ | hk := hd.accounted k' hk
      · obtain rfl := (Prod.mk.inj (Option.some.inj heq)).1
        exact .inl ⟨true, followed, rfl⟩
      · exact .inr hk

theorem Sound.endDrag (h : Sound s) (hstable : Stable s) : Sound s.endDrag ∧ Stable s.endDrag := by
  unfold State.endDrag
  split
  · exact ⟨h, hstable⟩
  · rename_i anchor hanchor
    have hreleased : Sound { s with
        anchor := some { anchor with released := true }
        history := { s.history with released := anchor.drag :: s.history.released } } := by
      have hd := h.drags
      rw [drag?, hanchor, Option.map_some] at hd
      exact ⟨h.free, h.busy, h.bound, h.ids, h.raf, h.requested, h.pending, h.flight, h.landed,
        h.increment, hd.release⟩
    have hqueued := (hreleased.ask (targetFor anchor anchor.targetWidth)
      (some anchor.targetWidth)).maybeQueue
    have hsettled := stable_settle (s := (State.ask { s with
        anchor := some { anchor with released := true }
        history := { s.history with released := anchor.drag :: s.history.released } }
      (targetFor anchor anchor.targetWidth) (some anchor.targetWidth)).maybeQueue) waiting_maybeQueue
      (stable_ask _ _ _).answered
    exact ⟨hqueued.settle.consume, hsettled.consume⟩

theorem Sound.request (h : Sound s) (extra : Rat) :
    Sound (s.request extra) ∧ Stable (s.request extra) := by
  unfold State.request
  have hasked := h.ask (round extra) none
  refine ⟨(hasked.outside true s.lastAppliedWidth s.outputs none).maybeQueue, ?_⟩
  have hbusy : quiet (State.maybeQueue { s.ask (round extra) none with
      notifyOnSettle := true }) = false := not_quiet_of_pending (pending_maybeQueue _)
  refine ⟨waiting_maybeQueue, ?_, ?_⟩ <;>
  · intro hquiet
    rw [hbusy] at hquiet
    cases hquiet

theorem Sound.syncApplied (h : Sound s) (hstable : Stable s) (value : Option Rat) :
    Sound (s.syncApplied value) ∧ Stable (s.syncApplied value) := by
  unfold State.syncApplied
  split
  · exact ⟨h, hstable⟩
  · have hdrags := h.drags.answers s.history.asked s.history.answers true
    dsimp only
    split
    · exact ⟨⟨h.free, h.busy, h.bound, h.ids, h.raf, h.requested, h.pending, h.flight, h.landed,
        nofun, hdrags⟩, ⟨hstable.waiting, hstable.idle, hstable.answered⟩⟩
    · exact ⟨⟨h.free, h.busy, h.bound, h.ids, h.raf, h.requested, h.pending, h.flight, h.landed,
        nofun, hdrags⟩, ⟨hstable.waiting, hstable.idle, hstable.answered⟩⟩

theorem Sound.dispose (h : Sound s) : Sound s.dispose ∧ Stable s.dispose := by
  have hown : s.dispose.own = [] := by
    refine filter_eq_nil_iff.mpr fun x hx => ?_
    have hle := (h.bound x hx).1
    rw [decide_eq_true_eq]
    exact (Nat.lt_succ_of_le hle).ne
  have hnot : ∀ x, x ∉ s.dispose.own := by
    intro x
    rw [hown]
    exact not_mem_nil
  refine ⟨⟨fun _ => hown, nofun, ?_, h.ids, nofun, rfl, nofun, fun _ x hx => absurd hx (hnot x),
    fun x hx => absurd hx (hnot x), fun _ => ⟨rfl, nofun⟩, ?_⟩, ⟨nofun, nofun, nofun⟩⟩
  · exact fun x hx => ⟨(h.bound x hx).1.trans (Nat.le_succ _), (h.bound x hx).2⟩
  · exact (h.drags.abandon s.anchor rfl).answers none [] false

/-! ## Runs -/

theorem mem_of_send? {id : Nat} {send : Send} (h : s.send? id = some send) : send ∈ s.sends :=
  mem_of_find?_eq_some h

theorem Sound.step (h : Sound s) (hstable : Stable s) {e : Event} {t : State}
    (hstep : step s e = some t) : Sound t ∧ Stable t := by
  cases e with
  | beginDrag clientX width =>
    cases hstep
    exact h.beginDrag hstable clientX width
  | dragTo width =>
    cases hstep
    exact h.dragTo hstable width
  | endDrag =>
    cases hstep
    exact h.endDrag hstable
  | request extra =>
    cases hstep
    exact h.request extra
  | syncApplied value =>
    cases hstep
    exact h.syncApplied hstable value
  | dispose =>
    cases hstep
    exact h.dispose
  | frame =>
    simp only [Panel.step] at hstep
    split at hstep
    · rename_i hraf
      cases hstep
      exact h.frame hraf
    · cases hstep
  | landed id answer =>
    obtain ⟨send, hsend, hstep⟩ := Option.bind_eq_some_iff.mp hstep
    split at hstep
    · cases hstep
    · cases hstep
      have hmem := mem_of_send? hsend
      exact ⟨h.land hmem answer, hstable.land h hmem answer⟩
  | finished id =>
    obtain ⟨send, hsend, hstep⟩ := Option.bind_eq_some_iff.mp hstep
    split at hstep
    · rename_i hlanded
      cases hstep
      exact h.finish hstable (mem_of_send? hsend) hlanded
    · cases hstep

theorem start_sound : Sound start ∧ Stable start := by
  have hdrags : Drags start.history start.drag? :=
    ⟨nofun, by simp [start], nodup_nil, nofun, nofun⟩
  exact ⟨⟨fun _ => rfl, nofun, nofun, List.Pairwise.nil, nofun, rfl, nofun, nofun, nofun,
    fun _ => ⟨rfl, nofun⟩, hdrags⟩, ⟨nofun, nofun, nofun⟩⟩

theorem run_sound {events : List Event} (h : Steps.run step start events = some s) :
    Sound s ∧ Stable s :=
  Steps.run_invariant step (fun s => Sound s ∧ Stable s)
    (fun _ _ _ h hstep => h.1.step h.2 hstep) start s events start_sound h

/-! ## Sends of an earlier generation -/

/-- The sends on their way, the number of the next one and the generation. -/
def State.wire (s : State) : List Send × Nat × Nat := (s.sends, s.nextSend, s.generation)

theorem wire_apply (s : State) (width : Int) : (s.apply width).wire = s.wire := by
  obtain ⟨last, outputs, heq⟩ := apply_eq s width
  rw [heq]
  rfl

theorem wire_notify (s : State) : s.notifyRequestSettled.wire = s.wire := by
  obtain ⟨notify, outputs, heq⟩ := notify_eq s
  rw [heq]
  rfl

theorem wire_consume (s : State) : s.consumePendingBaseline.wire = s.wire := by
  unfold consumePendingBaseline shiftToPendingBaseline
  split
  · split <;> rfl
  · rfl

theorem wire_settle (s : State) : s.settle.wire = s.wire := by
  unfold settle
  split
  · rfl
  · split
    · exact wire_apply s _
    · rfl

theorem wire_maybeQueue (s : State) : s.maybeQueue.wire = s.wire := by
  unfold maybeQueue
  split <;> rfl

theorem wire_land (s : State) (send : Send) (answer : Answer) :
    (s.land send answer).wire = (s.mark send.id).wire := by
  obtain ⟨-, hsends, hnext, hgeneration⟩ := land_keeps s send answer
  rw [wire, hsends, hnext, hgeneration]
  rfl

theorem wire_finish (s : State) (send : Send) : (s.finish send).wire =
    (s.sends.filter fun x => decide (x.id ≠ send.id), s.nextSend, s.generation) := by
  unfold finish
  dsimp only
  split
  · rfl
  · rw [wire_notify, wire_consume, wire_settle, wire_maybeQueue]
    rfl

/-- Sends keep their number and generation, and numbers are not used again. -/
structure Later (s t : State) : Prop where
  next : s.nextSend ≤ t.nextSend
  generation : s.generation ≤ t.generation
  old : ∀ x ∈ t.sends, x.id < s.nextSend → ∃ y ∈ s.sends, y.id = x.id ∧ y.generation = x.generation

theorem Later.of_wire {t : State} (h : t.wire = s.wire) : Later s t := by
  obtain ⟨hsends, hnext, hgen⟩ : t.sends = s.sends ∧ t.nextSend = s.nextSend ∧
      t.generation = s.generation := by simpa [wire] using h
  exact ⟨hnext.ge, hgen.ge, fun x hx _ => ⟨x, hsends ▸ hx, rfl, rfl⟩⟩

theorem Later.trans {t u : State} (h : Later s t) (h' : Later t u) : Later s u := by
  refine ⟨h.next.trans h'.next, h.generation.trans h'.generation, fun x hx hid => ?_⟩
  obtain ⟨y, hy, hid', hgen⟩ := h'.old x hx (hid.trans_le h.next)
  obtain ⟨z, hz, hid'', hgen'⟩ := h.old y hy (hid' ▸ hid)
  exact ⟨z, hz, hid''.trans hid', hgen'.trans hgen⟩

theorem later_frame (s : State) : Later s s.frame := by
  unfold frame
  split
  · exact Later.of_wire rfl
  · dsimp only
    split
    · refine Later.of_wire ?_
      rw [wire_notify, wire_settle]
      rfl
    · refine ⟨Nat.le_succ _, le_rfl, fun x hx hid => ?_⟩
      obtain rfl | hx := mem_cons.mp hx
      · exact absurd hid (Nat.lt_irrefl _)
      · exact ⟨x, hx, rfl, rfl⟩

theorem later_step {e : Event} {t : State} (hstep : step s e = some t) : Later s t := by
  cases e with
  | beginDrag clientX width =>
    cases hstep
    exact Later.of_wire (wire_consume s)
  | dragTo width =>
    cases hstep
    unfold State.dragTo
    split
    · exact Later.of_wire rfl
    · exact Later.of_wire (wire_maybeQueue _)
  | endDrag =>
    cases hstep
    unfold State.endDrag
    split
    · exact Later.of_wire rfl
    · refine Later.of_wire ?_
      rw [wire_consume, wire_settle, wire_maybeQueue]
      rfl
  | request extra =>
    cases hstep
    exact Later.of_wire (wire_maybeQueue _)
  | syncApplied value =>
    cases hstep
    unfold State.syncApplied
    split
    · exact Later.of_wire rfl
    · dsimp only
      split <;> exact Later.of_wire rfl
  | dispose =>
    cases hstep
    exact ⟨le_rfl, Nat.le_succ _, fun x hx _ => ⟨x, hx, rfl, rfl⟩⟩
  | frame =>
    obtain ⟨-, rfl⟩ := Steps.of_guard hstep
    exact later_frame s
  | landed id answer =>
    obtain ⟨send, -, hstep⟩ := Option.bind_eq_some_iff.mp hstep
    split at hstep
    · cases hstep
    · cases hstep
      obtain ⟨hsends, hnext, hgen⟩ : (s.land send answer).sends = (s.mark send.id).sends ∧
          (s.land send answer).nextSend = s.nextSend ∧
          (s.land send answer).generation = s.generation := by
        simpa [wire, mark] using wire_land s send answer
      refine ⟨hnext.ge, hgen.ge, fun x hx _ => ?_⟩
      rw [hsends] at hx
      obtain ⟨y, hy, rfl⟩ := mem_map.mp hx
      refine ⟨y, hy, ?_⟩
      split <;> exact ⟨rfl, rfl⟩
  | finished id =>
    obtain ⟨send, -, hstep⟩ := Option.bind_eq_some_iff.mp hstep
    split at hstep
    · cases hstep
      obtain ⟨hsends, hnext, hgen⟩ : (s.finish send).sends =
          (s.sends.filter fun x => decide (x.id ≠ send.id)) ∧
          (s.finish send).nextSend = s.nextSend ∧
          (s.finish send).generation = s.generation := by
        simpa [wire] using wire_finish s send
      refine ⟨hnext.ge, hgen.ge, fun x hx _ => ⟨x, ?_, rfl, rfl⟩⟩
      rw [hsends] at hx
      exact mem_of_mem_filter hx
    · cases hstep

theorem later_run {t : State} {events : List Event} (h : Steps.run step s events = some t) :
    Later s t := by
  induction events generalizing s with
  | nil =>
    cases h
    exact Later.of_wire rfl
  | cons e es ih =>
    obtain ⟨u, hu, hrun⟩ := Steps.run_cons_some step h
    exact (later_step hu).trans (ih hrun)

/-- The continuations of a send. -/
def Continues (id : Nat) : Event → Prop
  | .landed id' _ | .finished id' => id' = id
  | _ => False

theorem stale_step {e : Event} {t : State} {id : Nat} (hcontinues : Continues id e)
    (hold : ∀ x ∈ s.sends, x.id = id → x.generation ≠ s.generation)
    (hstep : step s e = some t) : t = { s with sends := t.sends } := by
  cases e with
  | landed id' answer =>
    obtain ⟨send, hsend, hstep⟩ := Option.bind_eq_some_iff.mp hstep
    have hid : send.id = id := by
      have hfound : send.id = id' := by simpa using find?_some hsend
      exact hfound.trans hcontinues
    split at hstep
    · cases hstep
    · cases hstep
      unfold land
      dsimp only
      rw [if_pos (hold send (mem_of_send? hsend) hid)]
      rfl
  | finished id' =>
    obtain ⟨send, hsend, hstep⟩ := Option.bind_eq_some_iff.mp hstep
    have hid : send.id = id := by
      have hfound : send.id = id' := by simpa using find?_some hsend
      exact hfound.trans hcontinues
    split at hstep
    · cases hstep
      unfold finish
      dsimp only
      rw [if_pos (hold send (mem_of_send? hsend) hid)]
    · cases hstep
  | beginDrag | dragTo | endDrag | request | syncApplied | dispose | frame => cases hcontinues

end Parts

/-! ## The panel and the window -/

/-- What holds after any order of calls, frames and answers. -/
structure InStep (s : State) : Prop where
  /-- One send of the generation is in flight at most. -/
  single : s.own.length ≤ 1
  /-- A queue that is not quiet waits for a frame or an answer of its own. -/
  progress : s.quiet = true ∨ s.raf = true ∨ s.own ≠ []
  /-- A quiet queue has an answer to the last target. -/
  answered : s.quiet = true → ∀ target, s.history.asked = some target →
    Answered s.history.answers target
  /-- The increment is the one the window told last. -/
  increment : s.history.synced = false → ∀ a, lastApplied s.history.answers = some a →
    s.applied = a
  once : ∀ k, (s.history.commits.filter fun c => decide (c.anchor.drag = k)).length ≤ 1
  /-- In a quiet queue every released drag is committed or replaced. -/
  settled : s.quiet = true → ∀ k ∈ s.history.released, k ∉ s.history.abandoned →
    (s.history.commits.filter fun c => decide (c.anchor.drag = k)).length = 1
  width : ∀ c ∈ s.history.commits,
    c.width = if c.anchor.drag ∈ s.history.followed then panelWidthForApplied c.anchor c.applied
      else clampPanelWidth c.anchor.targetWidth

theorem commits_of_drag (commits : List Commit) (k : Nat) :
    (commits.filter fun c => decide (c.anchor.drag = k)).length =
      (commits.map (·.anchor.drag)).count k := by
  rw [List.count, countP_map, countP_eq_length_filter]
  rfl

theorem Sound.inStep {s : State} (h : Sound s) (hstable : Stable s) : InStep s := by
  refine ⟨?_, ?_, hstable.answered, fun hsynced => (h.increment hsynced).2, ?_, ?_,
    fun c hc => (h.drags.width c hc).2⟩
  · cases hflight : s.inFlight with
    | false => simp [h.free hflight]
    | true =>
      obtain ⟨x, hx⟩ := h.busy hflight
      simp [hx]
  · cases hflight : s.inFlight with
    | true =>
      obtain ⟨x, hx⟩ := h.busy hflight
      exact .inr (.inr (by simp [hx]))
    | false =>
      cases hpending : s.pending with
      | some target =>
        have hwaiting := hstable.waiting (by rw [hpending]; rfl)
        rw [hflight] at hwaiting
        exact .inr (.inl (hwaiting.resolve_right Bool.false_ne_true))
      | none =>
        cases hraf : s.raf with
        | true => exact .inr (.inl rfl)
        | false => exact .inl (by simp [quiet, hflight, hpending, hraf])
  · intro k
    rw [commits_of_drag]
    exact nodup_iff_count_le_one.mp h.drags.once k
  · intro hquiet k hk hkept
    rw [commits_of_drag]
    refine count_eq_one_of_mem h.drags.once ?_
    obtain ⟨released, followed, hdrag⟩ | hgone | hcommitted := h.drags.accounted k hk
    · obtain ⟨anchor, hanchor, hkey⟩ := Option.map_eq_some_iff.mp hdrag
      have hreleased := (h.drags.current k released followed hdrag).2.2.2.2 hk
      have hidle := hstable.idle hquiet anchor hanchor
      rw [(Prod.mk.inj (Prod.mk.inj hkey).2).1, hreleased] at hidle
      cases hidle
    · exact absurd hgone hkept
    · exact hcommitted

/-- **Panel and window stay in step.** -/
theorem panel_in_step (events : List Event) (s : State) (h : Steps.run step start events = some s) :
    InStep s ∧ ∀ before after u, events = before ++ .dispose :: after →
      Steps.run step start before = some u → ∀ x ∈ u.sends, ∀ e t, Continues x.id e →
      step s e = some t → t = { s with sends := t.sends } := by
  obtain ⟨hsound, hstable⟩ := run_sound h
  refine ⟨hsound.inStep hstable, ?_⟩
  rintro before after u rfl hu x hx e t hcontinues hstep
  obtain ⟨husound, -⟩ := run_sound hu
  rw [Steps.run_append, hu, Option.bind_some] at h
  obtain ⟨v, hv, hafter⟩ := Steps.run_cons_some step h
  cases hv
  have hlater := later_run hafter
  refine stale_step hcontinues ?_ hstep
  intro y hy hid heq
  have hlt : y.id < u.dispose.nextSend := hid ▸ (husound.bound x hx).2
  obtain ⟨z, hz, -, hgen⟩ := hlater.old y hy hlt
  have hbound := (husound.bound z hz).1
  have hgrown : u.generation + 1 ≤ s.generation := hlater.generation
  omega

/-! ## The window at the edge of the screen -/

/-- A drag that the window follows in part. -/
def edgeRun : List Event :=
  [.beginDrag 500 280, .dragTo 400, .frame, .landed 0 (.result 60 false), .finished 0]

theorem edgeRun_in_step : ∃ s, Steps.run step start edgeRun = some s ∧ InStep s := by
  obtain ⟨s, hs⟩ := Option.isSome_iff_exists.mp
    (show (Steps.run step start edgeRun).isSome = true by decide +kernel)
  exact ⟨s, hs, (panel_in_step edgeRun s hs).1⟩

/-- The queue is quiet, the last target is 120, and the window has 60: it was not skipped. -/
theorem edgeRun_partial : (Steps.run step start edgeRun).map (fun s =>
    (s.quiet, s.history.asked, s.applied)) = some (true, some 120, 60) := by
  decide +kernel

end MiqroForge.Panel
