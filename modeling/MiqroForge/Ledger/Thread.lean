import MiqroForge.Library.Steps

/-!
One thread in its two stores: the rows of the provider history, which a compaction
replaces under an id of its own, and the append-only ledger, in which a rollback marks
turns as removed.
-/

namespace MiqroForge.Ledger

/-- The ids rows and ledger items are filed under: a user turn's, `compact-{turn_id}` of its
auto-compaction, and the fresh `compact-…` of a `CompactCommand`. -/
inductive TurnId where
  | turn (id : Nat)
  | autoCompact (id : Nat)
  | compact (id : Nat)
  deriving DecidableEq, Repr

def TurnId.isCompaction : TurnId → Bool
  | .turn _ => false
  | _ => true

/-- A row of `runtime_history_items`. Of its message the model keeps the turn it came from word
for word, if any, and the turns it was built from. -/
structure Row where
  turnId : TurnId
  verbatim : Option Nat
  covers : List Nat
  deriving DecidableEq, Repr

inductive LedgerItem where
  | turnStarted (turnId : TurnId)
  | message (turnId : TurnId)
  | turnCompleted (turnId : TurnId)
  | contextCompacted (turnId : TurnId)
  | threadRollback (dropLastTurns : Nat) (removedTurnIds : List TurnId)
  deriving DecidableEq, Repr

def LedgerItem.turnId : LedgerItem → Option TurnId
  | .turnStarted t | .message t | .turnCompleted t | .contextCompacted t => some t
  | .threadRollback _ _ => none

def LedgerItem.removed : LedgerItem → List TurnId
  | .threadRollback _ removed => removed
  | _ => []

/-- The thread: its rows, its ledger, and the `ContextCompactedEvent`s not drained yet. -/
structure Thread where
  history : List Row := []
  ledger : List LedgerItem := []
  events : List TurnId := []
  nextId : Nat := 0
  deriving DecidableEq, Repr

/-! ## The ledger -/

def removedTurnIds (ledger : List LedgerItem) : List TurnId := ledger.flatMap LedgerItem.removed

/-- `load_effective_items`, by the turn ids; rollback markers have none. -/
def loadEffectiveItems (ledger : List LedgerItem) : List TurnId :=
  (ledger.filterMap LedgerItem.turnId).filter fun t => t ∉ removedTurnIds ledger

/-- `list_turn_ids`: in the order of their first items. -/
def listTurnIds (ledger : List LedgerItem) : List TurnId := (loadEffectiveItems ledger).eraseDups

/-- What `append_rollback_marker` removes, `turn_ids[-drop_last_turns:]`. -/
def toRemove (ledger : List LedgerItem) (dropLastTurns : Nat) : List TurnId :=
  if dropLastTurns = 0 then []
  else (listTurnIds ledger).drop ((listTurnIds ledger).length - dropLastTurns)

/-! ## Compaction -/

/-- What the compressor makes of a history: old messages, by their place, and new ones. -/
abbrev Replacement := List (Option Nat)

/-- A history that is not empty is not compressed to nothing. -/
def Replacement.fits (r : Replacement) (history : List Row) : Bool :=
  (!r.isEmpty || history.isEmpty) && r.all fun place =>
    match place with
    | some i => i < history.length
    | none => true

/-- `replace_messages_with_compaction`. -/
def compactHistory (history : List Row) (turnId : TurnId) (r : Replacement) : List Row :=
  r.map fun place =>
    { turnId := turnId
      verbatim := place.bind fun i => history[i]?.bind Row.verbatim
      covers := history.flatMap Row.covers }

/-! ## Steps -/

inductive Event where
  | turn (autoCompact : Option Replacement) (messages : Nat)
  | compactCommand (r : Replacement)
  | nextEvent
  | rollback (dropLastTurns : Nat)
  deriving DecidableEq, Repr

/-- The ledger items of a completed turn. -/
def turnItems (t : TurnId) (messages : Nat) : List LedgerItem :=
  .turnStarted t :: List.replicate messages (.message t) ++ [.turnCompleted t]

/-- A message of turn `t` in the history. -/
def turnRow (t : Nat) : Row := { turnId := .turn t, verbatim := some t, covers := [t] }

/-- A completed user turn, auto-compaction first; its messages, the user's at least, go to both
stores. -/
def runTurn (s : Thread) (autoCompact : Option Replacement) (messages : Nat) : Thread :=
  let t := s.nextId
  let compacted :=
    match autoCompact with
    | some r => compactHistory s.history (.autoCompact t) r
    | none => s.history
  { history := compacted ++ List.replicate (messages + 1) (turnRow t)
    ledger := s.ledger ++ turnItems (.turn t) (messages + 1)
    events := if autoCompact.isSome then s.events ++ [.turn t] else s.events
    nextId := t + 1 }

def deleteTurnItems (history : List Row) (turnIds : List TurnId) : List Row :=
  history.filter fun row => row.turnId ∉ turnIds

def step (s : Thread) : Event → Option Thread
  | .turn autoCompact messages =>
    if autoCompact.all fun r => r.fits s.history then some (runTurn s autoCompact messages) else none
  | .compactCommand r =>
    if r.fits s.history then
      some { s with
        history := compactHistory s.history (.compact s.nextId) r
        events := s.events ++ [.compact s.nextId]
        nextId := s.nextId + 1 }
    else none
  | .nextEvent =>
    match s.events with
    | t :: rest => some { s with ledger := s.ledger ++ [.contextCompacted t], events := rest }
    | [] => none
  | .rollback dropLastTurns =>
    let removed := toRemove s.ledger dropLastTurns
    some { s with
      ledger := s.ledger ++ [.threadRollback dropLastTurns removed]
      history := deleteTurnItems s.history removed }

/-! ## Agreement -/

/-- The ledger and the history agree: every effective user turn is represented, and no message
stands word for word that came from a removed one. -/
structure Agrees (s : Thread) : Prop where
  represented : ∀ t, .turn t ∈ listTurnIds s.ledger → ∃ row ∈ s.history, t ∈ row.covers
  removed : ∀ row ∈ s.history, ∀ t, row.verbatim = some t → .turn t ∉ removedTurnIds s.ledger

/-- A rollback does no harm to what a compaction wrote: if it removes the compaction's id, it
removes every turn the compaction was built from; if not, no message the compaction kept is from
a turn it removes. -/
def Safe (s : Thread) (e : Event) : Prop :=
  match e with
  | .rollback dropLastTurns =>
    ∀ row ∈ s.history, row.turnId.isCompaction = true →
      if row.turnId ∈ toRemove s.ledger dropLastTurns then
        ∀ t ∈ row.covers, .turn t ∈ listTurnIds s.ledger → .turn t ∈ toRemove s.ledger dropLastTurns
      else ∀ t, row.verbatim = some t → .turn t ∉ toRemove s.ledger dropLastTurns
  | _ => True

end MiqroForge.Ledger
