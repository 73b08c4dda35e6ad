import MiqroForge.Library.PyText
import Mathlib.Algebra.Ring.Int.Defs
import Mathlib.Data.List.Sort

/-!
The store of lessons: `LessonStore` of `lessons.py` with the text operations of `TextProcessor` it
keys lessons by.
-/

namespace MiqroForge.Memory

open PyText

/-! ## Texts -/

/-- `re.sub(r"\s+", " ", text)`. -/
def collapse : Text → Text
  | [] => []
  | c :: cs =>
    if isSpace c then
      match cs with
      | [] => [' ']
      | d :: _ => if isSpace d then collapse cs else ' ' :: collapse cs
    else c :: collapse cs

def cleanText (t : Text) (maxLen : Nat) : Text :=
  let cleaned := collapse (strip t)
  if maxLen < cleaned.length then cleaned.take (maxLen - 3) ++ ['.', '.', '.'] else cleaned

def cleanTextWithTail (t : Text) (maxLen headChars : Nat) : Text :=
  let cleaned := collapse (strip t)
  if cleaned.length ≤ maxLen then cleaned
  else
    let head := cleaned.take (max 20 (min headChars (maxLen - 20)))
    let tailLen := maxLen - head.length - 5
    strip (head ++ " ... ".toList ++ cleaned.drop (cleaned.length - tailLen))

/-- What the store uses of Python and of its own text patterns. -/
structure Python where
  /-- `str.lower`. -/
  lower : Text → Text
  /-- Whether the text is a JSON object with `ok` false. -/
  jsonNotOk : Text → Bool
  extractParamName : Text → Text
  extractPathHint : Text → Text
  /-- `_summarize_bad_action`. -/
  summarizeBadAction : Text → Text

def contains (t part : Text) : Bool := (find? part t).isSome

/-! ## Lessons -/

inductive Scope
  | session
  | global
  deriving DecidableEq

inductive LifeState
  | active
  | stale
  | archived
  deriving DecidableEq

structure Lesson where
  id : Text
  key : Text
  trigger : Text
  badAction : Text
  betterAction : Text
  scope : Scope
  /-- `None` for a session's lesson that was learned without a session. -/
  sessionKey : Option Text
  actorKey : Text
  source : Text
  confidence : Int
  hits : Int
  enabled : Bool
  state : LifeState
  createdAt : Text
  updatedAt : Text
  lastAppliedAt : Text
  promotedGlobalKey : Text
  deriving DecidableEq

structure Config where
  enabled : Bool
  maxLessonsInPrompt : Nat
  minLessonConfidence : Int
  maxLessons : Nat
  lessonStaleDays : Nat
  lessonArchiveDays : Nat
  feedbackMaxMessageChars : Nat
  feedbackRequirePrefix : Bool
  promotionEnabled : Bool
  promotionMinUsers : Nat
  promotionTriggers : List Text

/-- What an operation reads of the clock. -/
structure Now where
  /-- `timestamp()`. -/
  stamp : Text
  /-- `int(time.time() * 1000)`. -/
  millis : Nat
  /-- The time stamp of the day before which sessions' lessons are too old. -/
  cutoff : Text
  /-- Whole days since a time stamp; `none` for one that cannot be read. -/
  idleDays : Text → Option Nat

structure Store where
  lessons : List Lesson
  dirty : Bool
  /-- `LESSONS.jsonl`, by the lessons of its lines. -/
  file : Option (List Lesson)

section Keys

variable (py : Python)

def normalizeText (t : Text) : Text := collapse (py.lower (strip t))

def Scope.text : Scope → Text
  | .session => "session".toList
  | .global => "global".toList

def lessonKey (trigger betterAction : Text) (scope : Scope) (sessionKey : Option Text) : Text :=
  normalizeText py trigger ++ '|' :: (normalizeText py betterAction ++ '|' :: (scope.text ++ '|' ::
    if scope = .session then sessionKey.getD [] else []))

/-- The key of a lesson by its texts. -/
def Lesson.ownKey (l : Lesson) : Text := lessonKey py l.trigger l.betterAction l.scope l.sessionKey

end Keys

/-- `str` of a session key. -/
def sessionText (sessionKey : Option Text) : Text := sessionKey.getD "None".toList

def userKeyFromSession (sessionKey : Text) : Text :=
  let text := strip sessionKey
  if ':' ∈ text then strip ((text.dropWhile (· ≠ ':')).drop 1) else text

/-- A change of the first lesson that meets a condition. -/
def updateFirst (p : Lesson → Bool) (f : Lesson → Lesson) : List Lesson → List Lesson
  | [] => []
  | l :: ls => if p l then f l :: ls else l :: updateFirst p f ls

/-! ## Operations -/

namespace Store

variable (py : Python) (cfg : Config) (s : Store)

/-- One line of the file. -/
def loadLesson (l : Lesson) : Option Lesson :=
  let trigger := cleanText l.trigger 120
  let betterAction := cleanText l.betterAction 260
  if trigger = [] ∨ betterAction = [] then none
  else
    let sessionKey := if l.scope = .session then some (sessionText l.sessionKey) else some []
    some { l with
      key := lessonKey py trigger betterAction l.scope sessionKey
      trigger := trigger
      badAction := cleanText l.badAction 260
      betterAction := betterAction
      sessionKey := sessionKey }

def load : Store :=
  match s.file with
  | none => s
  | some rows => { s with lessons := rows.filterMap (loadLesson py) }

def flush : Store := { s with file := if s.dirty then some s.lessons else s.file, dirty := false }

def nextState (now : Now) (l : Lesson) : LifeState :=
  let anchor := if l.lastAppliedAt = [] then l.updatedAt else l.lastAppliedAt
  if l.state = .archived ∨ anchor = [] then l.state
  else
    match now.idleDays anchor with
    | none => l.state
    | some days =>
      if l.state = .active ∧ cfg.lessonArchiveDays ≤ days then .archived
      else if l.state = .active ∧ cfg.lessonStaleDays ≤ days then .stale
      else if l.state = .stale ∧ cfg.lessonArchiveDays ≤ days then .archived
      else l.state

def updateLifecycleStates (now : Now) : Store :=
  { s with
    lessons := s.lessons.map fun l => { l with state := nextState cfg now l }
    dirty := s.dirty || s.lessons.any fun l => nextState cfg now l != l.state }

/-! ### Compaction -/

/-- A session's lesson that is too old. -/
def isExpired (now : Now) (l : Lesson) : Bool :=
  let anchor := if l.updatedAt = [] then l.createdAt else l.updatedAt
  decide (l.scope = .session) && decide (anchor ≠ []) && decide (anchor < now.cutoff)

/-- The order of compaction: confidence, hits and time, from above. -/
def isAhead (a b : Lesson) : Bool :=
  decide (b.confidence < a.confidence) || (decide (a.confidence = b.confidence) &&
    (decide (b.hits < a.hits) || (decide (a.hits = b.hits) && !decide (a.updatedAt < b.updatedAt))))

/-- The lessons a pass adds to those that are kept, one for a key. -/
def keepPass (takes : List Lesson → Lesson → Bool) : List Lesson → List Lesson → List Lesson
  | kept, [] => kept
  | kept, l :: ls =>
    if takes kept l && decide (l.key ≠ []) && !(kept.map Lesson.key).contains l.key then
      keepPass takes (kept ++ [l]) ls
    else keepPass takes kept ls

def compacted (maxKeep : Nat) (lessons : List Lesson) : List Lesson :=
  let sorted := lessons.insertionSort fun a b => isAhead a b = true
  let enabledOnes :=
    keepPass (fun _ l => l.enabled && decide (cfg.minLessonConfidence ≤ l.confidence)) [] sorted
  let all :=
    keepPass (fun kept l => !l.enabled && decide (kept.length < maxKeep)) enabledOnes sorted
  all.take maxKeep

def compactLessons (now : Now) (maxLessons : Option Nat) : Store :=
  if cfg.enabled = false then s
  else
    let limit := maxLessons.getD 0
    let maxKeep := max 1 (if limit = 0 then cfg.maxLessons else limit)
    let fresh := s.lessons.filter fun l => !isExpired now l
    let evicted := decide (fresh.length < s.lessons.length)
    if fresh.length ≤ maxKeep then { s with lessons := fresh, dirty := s.dirty || evicted }
    else { s with lessons := compacted cfg maxKeep fresh, dirty := true }

/-! ### Learning -/

def userFeedbackSource : Text := "user_feedback".toList

/-- The user behind a lesson. -/
def actorOf (l : Lesson) : Text :=
  if strip l.actorKey = [] then userKeyFromSession (sessionText l.sessionKey) else strip l.actorKey

/-- The lessons that speak for a promotion. -/
def isSupporting (trigger betterAction : Text) (l : Lesson) : Bool :=
  decide (l.scope = .session) && decide (l.source = userFeedbackSource) &&
    decide (l.trigger = trigger) &&
    decide (normalizeText py l.betterAction = normalizeText py betterAction) &&
    decide (actorOf l ≠ [])

def supporting (trigger betterAction : Text) : List Lesson :=
  s.lessons.filter (isSupporting py trigger betterAction)

def actorCount (trigger betterAction : Text) : Nat :=
  ((s.supporting py trigger betterAction).map actorOf).eraseDups.length

/-- Whether a lesson learned by these texts is promoted. -/
def promotes (trigger betterAction source : Text) : Bool :=
  cfg.promotionEnabled && decide (source = userFeedbackSource) &&
    decide (trigger ∈ cfg.promotionTriggers) &&
    decide (normalizeText py betterAction ≠ []) &&
    decide (cfg.promotionMinUsers ≤ s.actorCount py trigger betterAction)

def globalKey (trigger betterAction : Text) : Text :=
  lessonKey py trigger betterAction .global none

/-- The global lesson of a promotion. -/
def isPromoted (trigger betterAction : Text) (l : Lesson) : Bool :=
  decide (l.scope = .global) && decide (l.key = globalKey py trigger betterAction)

/-- `_maybe_promote_session_lesson`. -/
def maybePromote (now : Now) (trigger betterAction source : Text) : Store :=
  if s.promotes py cfg trigger betterAction source = false then s
  else
    let support := s.supporting py trigger betterAction
    let users : Int := s.actorCount py trigger betterAction
    let supportHits := (support.map Lesson.hits).sum
    let lessons :=
      if s.lessons.any (isPromoted py trigger betterAction) then
        updateFirst (isPromoted py trigger betterAction) (fun l =>
          { l with
            updatedAt := now.stamp
            enabled := true
            hits := max l.hits supportHits
            confidence := min 10 (max l.confidence (users + 1)) }) s.lessons
      else
        s.lessons ++
          [{ id := "lesson_global_".toList ++ (toString now.millis).toList
             key := globalKey py trigger betterAction
             trigger := trigger
             badAction := (support.getLast?.map Lesson.badAction).getD []
             betterAction := betterAction
             scope := .global
             sessionKey := some []
             actorKey := []
             source := "auto_promoted".toList
             confidence := min 10 (max cfg.minLessonConfidence (users + 1))
             hits := max 1 supportHits
             enabled := true
             state := .active
             createdAt := now.stamp
             updatedAt := now.stamp
             lastAppliedAt := []
             promotedGlobalKey := [] }]
    { s with
      lessons := lessons.map fun l =>
        if isSupporting py trigger betterAction l then
          { l with promotedGlobalKey := globalKey py trigger betterAction }
        else l }

/-- What one calls `learn` with. -/
structure Observation where
  trigger : Text
  badAction : Text
  betterAction : Text
  sessionKey : Option Text
  actorKey : Option Text
  source : Text
  scope : Scope
  confidenceDelta : Int

namespace Observation

variable (o : Observation)

def cleanTrigger : Text := cleanText o.trigger 120

def cleanBetter : Text := cleanText o.betterAction 260

def cleanBad : Text := cleanTextWithTail o.badAction 260 180

def key : Text := lessonKey py o.cleanTrigger o.cleanBetter o.scope o.sessionKey

def isEmpty : Bool := decide (o.cleanTrigger = []) || decide (o.cleanBetter = [])

/-- A lesson that is learned again. -/
def renew (now : Now) (l : Lesson) : Lesson :=
  { l with
    updatedAt := now.stamp
    badAction := if o.cleanBad = [] then l.badAction else o.cleanBad
    betterAction := o.cleanBetter
    hits := l.hits + 1
    confidence := min 10 (l.confidence + max 1 o.confidenceDelta)
    actorKey :=
      match o.actorKey with
      | some actor => if actor ≠ [] ∧ o.scope = .session then actor else l.actorKey
      | none => l.actorKey }

/-- A lesson that is new. -/
def fresh (now : Now) (number : Nat) : Lesson where
  id := "lesson_".toList ++ (toString now.millis).toList ++ '_' :: (toString number).toList
  key := o.key py
  trigger := o.cleanTrigger
  badAction := o.cleanBad
  betterAction := o.cleanBetter
  scope := o.scope
  sessionKey := if o.scope = .session then o.sessionKey else some []
  actorKey := if o.scope = .session then o.actorKey.getD [] else []
  source := o.source
  confidence := max cfg.minLessonConfidence (max 1 o.confidenceDelta)
  hits := 1
  enabled := true
  state := .active
  createdAt := now.stamp
  updatedAt := now.stamp
  lastAppliedAt := []
  promotedGlobalKey := []

end Observation

/-- The store with the lesson itself. -/
def noted (now : Now) (o : Observation) : Store :=
  if s.lessons.any fun l => decide (l.key = o.key py) then
    { s with lessons := updateFirst (fun l => decide (l.key = o.key py)) (o.renew now) s.lessons }
  else { s with lessons := s.lessons ++ [o.fresh py cfg now (s.lessons.length + 1)] }

/-- The store with its promotion. -/
def promoted (now : Now) (o : Observation) : Store :=
  let s' := s.noted py cfg now o
  if o.scope = .session then s'.maybePromote py cfg now o.cleanTrigger o.cleanBetter o.source else s'

def learn (now : Now) (o : Observation) : Store :=
  if cfg.enabled = false ∨ o.isEmpty = true then s
  else
    ({ s.promoted py cfg now o with dirty := true } : Store).compactLessons cfg now
      (some cfg.maxLessons)

/-! ### Feedback -/

def suggestToolBetterAction (toolName result : Text) : Text :=
  let lower := py.lower result
  let param := py.extractParamName result
  let path := py.extractPathHint result
  let quoted (t : Text) : Text := '\x60' :: (t ++ ['\x60'])
  if contains lower "invalid parameters".toList then
    if param ≠ [] then
      "Fix ".toList ++ quoted param ++ " in ".toList ++ quoted toolName ++
        " args, then validate the full argument schema before retrying.".toList
    else
      "Validate ".toList ++ quoted toolName ++ " arguments against its schema before calling.".toList
  else if contains lower "not found".toList then
    if path ≠ [] then
      "Check that ".toList ++ quoted path ++ " exists and is readable before calling ".toList ++
        quoted toolName ++ ['.']
    else "Check path/resource existence before calling ".toList ++ quoted toolName ++ ['.']
  else if contains lower "permission".toList || contains lower "outside allowed directory".toList then
    if path ≠ [] then
      "Ensure ".toList ++ quoted path ++
        " is inside allowed workspace and has permissions before ".toList ++ quoted toolName ++ ['.']
    else "Check permissions/workspace boundaries before ".toList ++ quoted toolName ++ ['.']
  else if contains lower "timeout".toList then
    "Use smaller scope or lighter parameters when calling ".toList ++ quoted toolName ++ ['.']
  else
    "Inspect ".toList ++ quoted toolName ++
      " result and adjust arguments before retrying once.".toList

def isToolError (result : Text) : Bool :=
  let stripped := strip result
  "error:".toList.isPrefixOf (py.lower stripped) ||
    (stripped.head? == some '{' && py.jsonNotOk stripped)

def toolTrigger (toolName : Text) : Text := "tool:".toList ++ toolName ++ ":error".toList

/-- A lesson that a tool's success confirms. -/
def isConfirmed (sessionKey toolName : Text) (l : Lesson) : Bool :=
  l.enabled && decide (l.scope = .session) && decide (l.sessionKey = some sessionKey) &&
    decide (l.trigger = toolTrigger toolName)

/-- What a tool's error teaches. -/
def toolObservation (sessionKey toolName result : Text) : Observation where
  trigger := toolTrigger toolName
  badAction := result
  betterAction := suggestToolBetterAction py toolName result
  sessionKey := some sessionKey
  actorKey := none
  source := "tool_feedback".toList
  scope := .session
  confidenceDelta := 1

def recordToolFeedback (now : Now) (sessionKey toolName result : Text) : Store :=
  if cfg.enabled = false then s
  else if isToolError py result then s.learn py cfg now (toolObservation py sessionKey toolName result)
  else if s.lessons.any (isConfirmed sessionKey toolName) then
    { s with
      lessons := updateFirst (isConfirmed sessionKey toolName) (fun l =>
        { l with
          confidence := min 10 (l.confidence + 1)
          updatedAt := now.stamp
          hits := l.hits + 1
          lastAppliedAt := now.stamp }) s.lessons
      dirty := true }
  else s

def feedbackPrefixes : List Text :=
  ["不对", "不是这个意思", "你刚才", "你上一个", "别这样", "不要这样", "wrong", "incorrect",
    "not what i meant", "too verbose", "too long"].map String.toList

def hasFeedbackPrefix (userMessage : Text) : Bool :=
  let text := strip userMessage
  text != [] && (feedbackPrefixes.any (·.isPrefixOf (py.lower text)) ||
    feedbackPrefixes.any (·.isPrefixOf text))

def correctionMarkers : List Text :=
  ["不对", "不是这个意思", "别这样", "不要这样", "太啰嗦", "太长", "wrong", "incorrect",
    "not what i meant", "too verbose", "too long"].map String.toList

/-- Whether the text holds one of some phrases, or in lower case one of some words. -/
def mentions (text : Text) (phrases words : List String) : Bool :=
  phrases.any (fun part => contains text part.toList) ||
    words.any fun part => contains (py.lower text) part.toList

def extractFeedbackSignal (userMessage : Text) : Option (Text × Text) :=
  let text := strip userMessage
  if text = [] then none
  else if !(correctionMarkers.any (contains (py.lower text)) ||
      correctionMarkers.any (contains text)) then none
  else
    let trigger :=
      if mentions py text ["中文", "英文", "英语"] ["chinese", "english", "language"] then
        "response:language".toList
      else if mentions py text ["简短", "简洁", "太长", "太啰嗦"]
          ["concise", "shorter", "too verbose", "too long"] then
        "response:length".toList
      else if mentions py text ["错误", "不对", "事实"] ["wrong", "incorrect", "factual"] then
        "response:accuracy".toList
      else "response:alignment".toList
    some (trigger, cleanText text 240)

/-- What a user's correction teaches. -/
def userObservation (sessionKey userMessage : Text) (previousAssistant actorKey : Option Text) :
    Option Observation :=
  let text := strip userMessage
  match previousAssistant with
  | none => none
  | some previous =>
    if strip previous = [] ∨ text = [] ∨ cfg.feedbackMaxMessageChars < text.length then none
    else if cfg.feedbackRequirePrefix && !hasFeedbackPrefix py text then none
    else
      (extractFeedbackSignal py text).map fun (trigger, betterAction) =>
        let actor := actorKey.getD []
        { trigger := trigger
          badAction := py.summarizeBadAction previous
          betterAction := betterAction
          sessionKey := some sessionKey
          actorKey := some (if actor = [] then userKeyFromSession sessionKey else actor)
          source := userFeedbackSource
          scope := .session
          confidenceDelta := 2 }

def recordUserFeedback (now : Now) (sessionKey userMessage : Text)
    (previousAssistant actorKey : Option Text) : Store :=
  if cfg.enabled = false then s
  else
    match userObservation py cfg sessionKey userMessage previousAssistant actorKey with
    | none => s
    | some o => s.learn py cfg now o

/-! ### Switching off -/

def setEnabled (now : Now) (lessonId : Text) (enabled : Bool) : Store :=
  let id := strip lessonId
  if id = [] ∨ s.lessons.any (fun l => decide (l.id = id)) = false then s
  else
    { s with
      lessons := updateFirst (fun l => decide (l.id = id))
        (fun l => { l with enabled := enabled, updatedAt := now.stamp }) s.lessons
      dirty := true }

/-- A lesson taken back. -/
def archive (now : Now) (l : Lesson) : Lesson :=
  { l with state := .archived, enabled := false, updatedAt := now.stamp }

/-- The lessons `unlearn_by_keyword` takes back. -/
def matchesKeyword (keyword : Text) (l : Lesson) : Bool :=
  let kw := py.lower (strip keyword)
  decide (kw ≠ []) && decide (l.state ≠ .archived) &&
    (contains (py.lower l.trigger) kw || contains (py.lower l.betterAction) kw)

def unlearnByKeyword (now : Now) (keyword : Text) : Store :=
  { s with
    lessons := s.lessons.map fun l => if matchesKeyword py keyword l then archive now l else l
    dirty := s.dirty || s.lessons.any (matchesKeyword py keyword) }

/-- The lesson `unlearn_by_id` takes back. -/
def matchesId (lessonId : Text) (l : Lesson) : Bool :=
  decide (strip lessonId ≠ []) && decide (l.id = strip lessonId) && decide (l.state ≠ .archived)

def unlearnById (now : Now) (lessonId : Text) : Store :=
  { s with
    lessons := updateFirst (matchesId lessonId) (archive now) s.lessons
    dirty := s.dirty || s.lessons.any (matchesId lessonId) }

/-! ### The lessons of a prompt -/

/-- A lesson that can be given to a session. -/
def isEligible (sessionKey : Option Text) (l : Lesson) : Bool :=
  l.enabled && decide (l.state ≠ .archived) && decide (cfg.minLessonConfidence ≤ l.confidence) &&
    decide (0 < l.confidence) &&
    (decide (l.scope = .global) ||
      (decide (sessionKey.getD [] ≠ []) && decide (l.sessionKey = sessionKey)))

/-- The first lessons, one for the same texts. -/
def pick : Nat → List (Text × Text) → List Lesson → List Lesson
  | _, _, [] => []
  | n, seen, l :: ls =>
    let signature := (normalizeText py l.trigger, normalizeText py l.betterAction)
    if signature ∈ seen then pick n seen ls
    else l :: if n ≤ 1 then [] else pick (n - 1) (signature :: seen) ls

/-- `get_lessons_for_context`, by the score of a lesson for the current message. -/
def getLessonsForContext {Score : Type} [LinearOrder Score] (score : Lesson → Score)
    (sessionKey : Option Text) (limit : Option Nat) : List Lesson :=
  if cfg.enabled = false then []
  else
    let asked := limit.getD 0
    let maxItems := max 1 (if asked = 0 then cfg.maxLessonsInPrompt else asked)
    pick py maxItems [] ((s.lessons.filter (isEligible cfg sessionKey)).insertionSort
      fun a b => score b ≤ score a)

end Store

/-! ## Runs -/

inductive Op
  | learn (now : Now) (o : Store.Observation)
  | recordToolFeedback (now : Now) (sessionKey toolName result : Text)
  | recordUserFeedback (now : Now) (sessionKey userMessage : Text)
      (previousAssistant actorKey : Option Text)
  | compactLessons (now : Now) (maxLessons : Option Nat)
  | updateLifecycleStates (now : Now)
  | flush
  | load
  | setEnabled (now : Now) (lessonId : Text) (enabled : Bool)
  | unlearnById (now : Now) (lessonId : Text)
  | unlearnByKeyword (now : Now) (keyword : Text)

def act (py : Python) (cfg : Config) (s : Store) : Op → Store
  | .learn now o => s.learn py cfg now o
  | .recordToolFeedback now sessionKey toolName result =>
    s.recordToolFeedback py cfg now sessionKey toolName result
  | .recordUserFeedback now sessionKey userMessage previousAssistant actorKey =>
    s.recordUserFeedback py cfg now sessionKey userMessage previousAssistant actorKey
  | .compactLessons now maxLessons => s.compactLessons cfg now maxLessons
  | .updateLifecycleStates now => s.updateLifecycleStates cfg now
  | .flush => s.flush
  | .load => s.load py
  | .setEnabled now lessonId enabled => s.setEnabled now lessonId enabled
  | .unlearnById now lessonId => s.unlearnById now lessonId
  | .unlearnByKeyword now keyword => s.unlearnByKeyword py now keyword

end MiqroForge.Memory
