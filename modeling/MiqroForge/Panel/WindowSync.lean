import MiqroForge.Library.Steps
import Mathlib.Data.Rat.Floor

/-!
`createPanelWindowSync` of `panelWindowSync.ts`: the queue by which the window follows the width of
the assets panel. A step is a call, the scheduled frame, or one of the two continuations of a send.
-/

namespace MiqroForge.Panel

def round (x : Rat) : Int := (x + 1 / 2).floor

def panelMinWidth : Int := 200

def panelMaxWidth : Int := 500

def clampPanelWidth (width : Rat) : Int := max panelMinWidth (min panelMaxWidth (round width))

structure PanelDragAnchor where
  /-- Drags are numbered here; the code keeps no number. -/
  drag : Nat
  clientX : Rat
  width : Rat
  applied : Rat
  released : Bool
  targetWidth : Rat
  windowFollowed : Bool

def panelWidthForApplied (anchor : PanelDragAnchor) (applied : Rat) : Int :=
  clampPanelWidth (anchor.width + (applied - anchor.applied))

/-- How a send ends: `PanelWindowExtraResult`, or a rejection. -/
inductive Answer where
  | result (applied : Rat) (skipped : Bool)
  | rejected

/-- A send and what its continuations have captured; it has landed once the first has run. -/
structure Send where
  id : Nat
  generation : Nat
  target : Int
  desired : Option Rat
  landed : Bool

/-- `commitWidth`, with the anchor and the increment it is computed from. -/
structure Commit where
  anchor : PanelDragAnchor
  applied : Rat
  width : Int

inductive Output where
  | applyWidth (width : Int)
  | commitWidth (width : Int)
  | requestSettled

/-- What has happened: nothing that the queue looks at. -/
structure History where
  begun : Nat
  released : List Nat
  /-- Drags that a new drag or `dispose` has replaced. -/
  abandoned : List Nat
  /-- Drags in which the window has followed. -/
  followed : List Nat
  commits : List Commit
  /-- The target requested last, and the answers so far, the latest first, since `dispose`. -/
  asked : Option Int
  answers : List (Int × Answer)
  /-- A baseline was synced since the window last followed. -/
  synced : Bool

structure State where
  raf : Bool
  pending : Option Int
  pendingWidth : Option Rat
  inFlight : Bool
  applied : Rat
  generation : Nat
  notifyOnSettle : Bool
  requested : Option Int
  anchor : Option PanelDragAnchor
  lastAppliedWidth : Option Int
  pendingBaseline : Option Rat
  sends : List Send
  nextSend : Nat
  outputs : List Output
  history : History

namespace State
variable (s : State)

/-- No frame is scheduled, no target waits, and nothing is in flight. -/
def quiet : Bool := !s.inFlight && !s.raf && s.pending.isNone

def apply (width : Int) : State :=
  if s.lastAppliedWidth = some width then s
  else { s with
    lastAppliedWidth := some width
    outputs := .applyWidth width :: s.outputs }

def notifyRequestSettled : State :=
  if s.notifyOnSettle && s.quiet then { s with
    notifyOnSettle := false
    outputs := .requestSettled :: s.outputs }
  else s

def shiftToPendingBaseline : State :=
  match s.pendingBaseline with
  | none => s
  | some baseline => { s with
    applied := baseline
    anchor := s.anchor.map fun a => { a with applied := a.applied + (baseline - s.applied) }
    pendingBaseline := none }

def consumePendingBaseline : State := if s.quiet then s.shiftToPendingBaseline else s

/-- The width a released drag settles at. -/
def settled (anchor : PanelDragAnchor) : Int :=
  if anchor.windowFollowed then panelWidthForApplied anchor s.applied
  else clampPanelWidth anchor.targetWidth

def commit (anchor : PanelDragAnchor) : State := { s.apply (s.settled anchor) with
  anchor := none
  outputs := .commitWidth (s.settled anchor) :: (s.apply (s.settled anchor)).outputs
  history := { s.history with
    commits := ⟨anchor, s.applied, s.settled anchor⟩ :: s.history.commits } }

def settle : State :=
  match s.anchor with
  | none => s
  | some anchor => if anchor.released && s.quiet then s.commit anchor else s

def maybeQueue : State :=
  if s.raf || s.inFlight || s.pending.isNone then s else { s with raf := true }

/-- A target is requested. -/
def ask (target : Int) (width : Option Rat) : State := { s with
  pending := some target
  pendingWidth := width
  history := { s.history with asked := some target } }

/-! ## The frame and the continuations of a send -/

/-- The scheduled frame. -/
def frame : State :=
  let next := { s with raf := false }
  match s.pending with
  | none => next
  | some target =>
    let next := { next with pending := none, pendingWidth := none }
    if s.requested = some target then next.settle.notifyRequestSettled
    else { next with
      inFlight := true
      sends := ⟨s.nextSend, s.generation, target, s.pendingWidth, false⟩ :: s.sends
      nextSend := s.nextSend + 1 }

def send? (id : Nat) : Option Send := s.sends.find? fun x => decide (x.id = id)

/-- A send has landed. -/
def mark (id : Nat) : State := { s with
  sends := s.sends.map fun x => if x.id = id then { x with landed := true } else x }

/-- The answer is one of the current generation. -/
def hear (target : Int) (answer : Answer) : State := { s with
  history := { s.history with answers := (target, answer) :: s.history.answers } }

/-- The window has followed. -/
def follow (applied : Rat) : State :=
  let next := { s.shiftToPendingBaseline with
    applied := applied
    history := { s.history with synced := false } }
  match next.anchor with
  | none => next
  | some anchor =>
    let next := { next with
      anchor := some { anchor with windowFollowed := true }
      history := { next.history with followed := anchor.drag :: next.history.followed } }
    if s.pending.isNone then next.apply (panelWidthForApplied anchor applied) else next

/-- The window has not moved. -/
def skip (desired : Option Rat) : State :=
  match s.anchor, desired with
  | some _, some desired => if s.pending.isNone then s.apply (clampPanelWidth desired) else s
  | _, _ => s

/-- `then` and `catch` of a send. -/
def land (send : Send) (answer : Answer) : State :=
  let next := s.mark send.id
  if send.generation ≠ s.generation then next
  else
    let next := next.hear send.target answer
    match answer with
    | .rejected => next
    | .result applied skipped =>
      let next := { next with requested := some send.target }
      if skipped then next.skip send.desired else next.follow applied

/-- `finally` of a send. -/
def finish (send : Send) : State :=
  let next := { s with sends := s.sends.filter fun x => decide (x.id ≠ send.id) }
  if send.generation ≠ s.generation then next
  else
    ({ next with inFlight := false }.maybeQueue).settle.consumePendingBaseline.notifyRequestSettled

/-! ## The calls -/

/-- The anchor goes without being settled. -/
def abandon : History := { s.history with
  abandoned := (s.anchor.map PanelDragAnchor.drag).toList ++ s.history.abandoned }

def beginDrag (clientX width : Rat) : State :=
  let next := s.consumePendingBaseline
  { next with
    anchor := some ⟨next.history.begun, clientX, width, next.applied, false, width, false⟩
    lastAppliedWidth := some (clampPanelWidth width)
    history := { next.abandon with begun := next.history.begun + 1 } }

/-- The increment at which the panel is as wide as asked. -/
def targetFor (anchor : PanelDragAnchor) (width : Rat) : Int :=
  round (anchor.applied + (width - anchor.width))

def dragTo (width : Rat) : State :=
  match s.anchor with
  | none => s
  | some anchor =>
    (({ s with anchor := some { anchor with targetWidth := width } }.ask (targetFor anchor width)
      (some width))).maybeQueue

def endDrag : State :=
  match s.anchor with
  | none => s
  | some anchor =>
    let next := { s with
      anchor := some { anchor with released := true }
      history := { s.history with released := anchor.drag :: s.history.released } }
    (next.ask (targetFor anchor anchor.targetWidth)
      (some anchor.targetWidth)).maybeQueue.settle.consumePendingBaseline

def request (extra : Rat) : State :=
  { s.ask (round extra) none with notifyOnSettle := true }.maybeQueue

/-- A value that is not a finite number is ignored. -/
def syncApplied (value : Option Rat) : State :=
  match value with
  | none => s
  | some value =>
    let next := { s with history := { s.history with synced := true } }
    if s.anchor.isSome || !s.quiet then { next with pendingBaseline := some value }
    else { next with applied := value }

def dispose : State := { s with
  generation := s.generation + 1
  raf := false
  pending := none
  pendingWidth := none
  notifyOnSettle := false
  inFlight := false
  anchor := none
  requested := none
  applied := 0
  lastAppliedWidth := none
  pendingBaseline := none
  history := { s.abandon with asked := none, answers := [], synced := false } }

end State

/-! ## Runs -/

inductive Event where
  | beginDrag (clientX width : Rat)
  | dragTo (width : Rat)
  | endDrag
  | request (extra : Rat)
  | syncApplied (value : Option Rat)
  | dispose
  | frame
  | landed (id : Nat) (answer : Answer)
  | finished (id : Nat)

def step (s : State) : Event → Option State
  | .beginDrag clientX width => some (s.beginDrag clientX width)
  | .dragTo width => some (s.dragTo width)
  | .endDrag => some s.endDrag
  | .request extra => some (s.request extra)
  | .syncApplied value => some (s.syncApplied value)
  | .dispose => some s.dispose
  | .frame => if s.raf then some s.frame else none
  | .landed id answer =>
    (s.send? id).bind fun send => if send.landed then none else some (s.land send answer)
  | .finished id =>
    (s.send? id).bind fun send => if send.landed then some (s.finish send) else none

/-- `createPanelWindowSync` -/
def start : State where
  raf := false
  pending := none
  pendingWidth := none
  inFlight := false
  applied := 0
  generation := 0
  notifyOnSettle := false
  requested := none
  anchor := none
  lastAppliedWidth := none
  pendingBaseline := none
  sends := []
  nextSend := 0
  outputs := []
  history := ⟨0, [], [], [], [], none, [], false⟩

end MiqroForge.Panel
