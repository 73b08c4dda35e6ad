import MiqroForge.Library.Steps
import MiqroForge.Messages.CompressPairing

/-!
`ContextRuntime.compact_thread` on the threads of one session. All threads share one compressor,
so the summary of one is what the next compaction, of any thread, starts from.

* `threads_apart`: what a compaction of another thread asks and stores does not depend on the
  thread `a`, as long as none is made with a compressor that `a` had a summary from.
-/

namespace MiqroForge.Messages

/-! ## The context runtime -/

structure ContextRuntime where
  compressor : Option Compressor := none
  contextLimitChars : Nat := 0
  compressionThresholdChars : Nat := 0

/-- One call of `compact_thread`, with what the hooks before it decide and what the clock shows. -/
structure Compaction where
  threadId : String
  model : String := ""
  blocked : Bool := false
  now : Int
  failedAt : Int

structure CompactionResult where
  threadId : String
  messagesBefore : Nat
  messagesAfter : Nat
  tokensSaved : Nat
  replacementMessages : List Message
  deriving DecidableEq

/-- The runtime of a session and the histories of its threads. -/
structure World where
  runtime : ContextRuntime
  histories : String → List Message

inductive Op where
  | append (threadId : String) (messages : List Message)
  | compact (x : Compaction)
  | setLlmCallFn (f : Option (String → String → Except String String)) (limit : Option Nat)

/-- The thread an operation is about. -/
def Op.thread? : Op → Option String
  | .append t _ => some t
  | .compact x => some x.threadId
  | .setLlmCallFn _ _ => none

section Runtime
variable (callsJson : List CallEntry → Nat) (estimateTokens : List Message → Nat)

def contentChars (messages : List Message) : Nat :=
  (messages.map fun m => (m.content.getD "").length).foldl (· + ·) 0

def ContextRuntime.belowThreshold (rt : ContextRuntime) (messages : List Message) : Bool :=
  0 < rt.compressionThresholdChars && contentChars messages < rt.compressionThresholdChars

def compressMessages (rt : ContextRuntime) (x : Compaction) (messages : List Message) :
    List Message × ContextRuntime :=
  if x.blocked then (messages, rt)
  else
    match rt.compressor with
    | none => (messages, rt)
    | some c =>
      if rt.belowThreshold messages then (messages, rt)
      else
        let (result, c') := compress callsJson c x.now x.failedAt messages x.model
        (result, { rt with compressor := some c' })

/-- `set_llm_call_fn`: a new compressor, or none. -/
def setLlmCallFn (rt : ContextRuntime) (f : Option (String → String → Except String String))
    (limit : Option Nat) : ContextRuntime :=
  let rt := { rt with contextLimitChars := limit.getD rt.contextLimitChars }
  { rt with
    compressor := f.map fun llm => { llmCall := llm, contextLimitChars := rt.contextLimitChars } }

def setHistory (w : World) (threadId : String) (messages : List Message) : World :=
  { w with histories := fun t => if t = threadId then messages else w.histories t }

def compactThread (w : World) (x : Compaction) : CompactionResult × World :=
  let messages := w.histories x.threadId
  let (replacement, rt) := compressMessages callsJson w.runtime x messages
  ({ threadId := x.threadId
     messagesBefore := messages.length
     messagesAfter := replacement.length
     tokensSaved := estimateTokens messages - estimateTokens replacement
     replacementMessages := replacement },
   setHistory { w with runtime := rt } x.threadId replacement)

def step (w : World) : Op → Option World
  | .append t messages => some (setHistory w t (w.histories t ++ messages))
  | .compact x => some (compactThread callsJson estimateTokens w x).2
  | .setLlmCallFn f limit => some { w with runtime := setLlmCallFn w.runtime f limit }

/-! ## The summary prompt -/

/-- The prompt a compression asks the summary with. -/
def Compressor.prompt? (c : Compressor) (now : Int) (messages : List Message) : Option String :=
  if now - c.lastFailureTime < failureCooldown then none
  else if messages.length < 6 then none
  else (plan callsJson c.contextLimitChars messages).map fun p => summaryPrompt c p.toSummarise

/-- The prompt of a compaction, if it gets that far: no hook blocks it and there is a compressor,
the threshold is reached, the last failure is long ago and there is something to summarise. -/
def sentPrompt? (w : World) (x : Compaction) : Option String :=
  if x.blocked then none
  else
    match w.runtime.compressor with
    | none => none
    | some c =>
      if w.runtime.belowThreshold (w.histories x.threadId) then none
      else c.prompt? callsJson x.now (w.histories x.threadId)

theorem compress_of_no_prompt (c : Compressor) (now failedAt : Int) (messages : List Message)
    (model : String) (h : c.prompt? callsJson now messages = none) :
    compress callsJson c now failedAt messages model = (messages, c) := by
  unfold Compressor.prompt? at h
  unfold compress
  split at h
  case isTrue hcool => rw [if_pos hcool]
  case isFalse hcool =>
    rw [if_neg hcool]
    split at h
    case isTrue hlen => rw [if_pos hlen]
    case isFalse hlen =>
      have hplan := Option.map_eq_none_iff.mp h
      rw [if_neg hlen, compressImpl, hplan]

theorem compress_of_prompt (c : Compressor) (now failedAt : Int) (messages : List Message)
    (model prompt : String) (h : c.prompt? callsJson now messages = some prompt) :
    (compress callsJson c now failedAt messages model).2 =
      match c.llmCall prompt model with
      | .error _ => { c with lastFailureTime := failedAt }
      | .ok answer => { c with previousSummary := stripFences answer } := by
  unfold Compressor.prompt? at h
  unfold compress
  split at h
  · cases h
  case isFalse hcool =>
    rw [if_neg hcool]
    split at h
    · cases h
    case isFalse hlen =>
      obtain ⟨p, hplan, rfl⟩ := Option.map_eq_some_iff.mp h
      rw [if_neg hlen]
      simp only [compressImpl, hplan]
      unfold generateSummary
      cases c.llmCall (summaryPrompt c p.toSummarise) model <;> rfl

theorem compressMessages_of_no_prompt (w : World) (x : Compaction)
    (h : sentPrompt? callsJson w x = none) :
    compressMessages callsJson w.runtime x (w.histories x.threadId) =
      (w.histories x.threadId, w.runtime) := by
  unfold sentPrompt? at h
  unfold compressMessages
  split at h
  case isTrue hb => rw [if_pos hb]
  case isFalse hb =>
    rw [if_neg hb]
    cases hc : w.runtime.compressor with
    | none => rfl
    | some c =>
      rw [hc] at h
      simp only [] at h ⊢
      split at h
      case isTrue hbelow => rw [if_pos hbelow]
      case isFalse hbelow =>
        rw [if_neg hbelow, compress_of_no_prompt callsJson c _ _ _ _ h]
        simp only [← hc]

theorem compactThread_compressor (w : World) (x : Compaction) (c : Compressor)
    (hb : x.blocked = false) (hc : w.runtime.compressor = some c)
    (ht : w.runtime.belowThreshold (w.histories x.threadId) = false) :
    (compactThread callsJson estimateTokens w x).2.runtime.compressor =
      some (compress callsJson c x.now x.failedAt (w.histories x.threadId) x.model).2 := by
  show (compressMessages callsJson w.runtime x (w.histories x.threadId)).2.compressor = _
  unfold compressMessages
  simp only [hb, hc, ht, Bool.false_eq_true, if_false]

theorem compactThread_other (w : World) (x : Compaction) (t : String) (ht : t ≠ x.threadId) :
    (compactThread callsJson estimateTokens w x).2.histories t = w.histories t := if_neg ht

theorem compressMessages_settings (rt : ContextRuntime) (x : Compaction)
    (messages : List Message) :
    (compressMessages callsJson rt x messages).2.contextLimitChars = rt.contextLimitChars ∧
      (compressMessages callsJson rt x messages).2.compressionThresholdChars =
        rt.compressionThresholdChars := by
  unfold compressMessages
  split
  · exact ⟨rfl, rfl⟩
  · split
    · exact ⟨rfl, rfl⟩
    · split <;> exact ⟨rfl, rfl⟩

theorem compactThread_threshold (w : World) (x : Compaction) :
    (compactThread callsJson estimateTokens w x).2.runtime.compressionThresholdChars =
      w.runtime.compressionThresholdChars :=
  (compressMessages_settings callsJson w.runtime x (w.histories x.threadId)).2

/-! ## Two runs -/

variable (a : String)

/-- Whether the compressor has asked for a summary of `a` since it was made. -/
def taintAfter (w : World) (tainted : Bool) : Op → Bool
  | .append _ _ => tainted
  | .compact x => tainted || (x.threadId == a && (sentPrompt? callsJson w x).isSome)
  | .setLlmCallFn _ _ => false

def trackedStep (s : World × Bool) (op : Op) : Option (World × Bool) :=
  (step callsJson estimateTokens s.1 op).map fun v => (v, taintAfter callsJson a s.1 s.2 op)

/-- Another thread is compacted with an untainted compressor only. -/
def CleanStep (s : World × Bool) (op : Op) : Prop :=
  ∀ x, op = .compact x → x.threadId ≠ a → s.2 = false

/-- Two worlds that differ at most in the thread `a` and, if it is tainted, in the compressor. -/
structure Agree (tainted : Bool) (w w' : World) : Prop where
  limit : w.runtime.contextLimitChars = w'.runtime.contextLimitChars
  threshold : w.runtime.compressionThresholdChars = w'.runtime.compressionThresholdChars
  compressor : tainted = false → w.runtime.compressor = w'.runtime.compressor
  others : ∀ t, t ≠ a → w.histories t = w'.histories t

/-- The operations that are not about `a`. -/
def others (ops : List Op) : List Op := ops.filter fun op => op.thread? ≠ some a

variable {a}

theorem Agree.symm {b : Bool} {w w' : World} (h : Agree a b w w') : Agree a b w' w :=
  ⟨h.limit.symm, h.threshold.symm, fun hb => (h.compressor hb).symm, fun t ht => (h.others t ht).symm⟩

theorem Agree.trans {b : Bool} {u v w : World} (h : Agree a b u v) (h' : Agree a b v w) :
    Agree a b u w :=
  ⟨h.limit.trans h'.limit, h.threshold.trans h'.threshold,
    fun hb => (h.compressor hb).trans (h'.compressor hb),
    fun t ht => (h.others t ht).trans (h'.others t ht)⟩

theorem Agree.runtime {w w' : World} (h : Agree a false w w') : w.runtime = w'.runtime := by
  obtain ⟨⟨c, l, t⟩, hist⟩ := w
  obtain ⟨⟨c', l', t'⟩, hist'⟩ := w'
  obtain rfl : l = l' := h.limit
  obtain rfl : t = t' := h.threshold
  obtain rfl : c = c' := h.compressor rfl
  rfl

theorem Agree.setHistory {b : Bool} {w w' : World} (h : Agree a b w w') (t : String)
    (messages : List Message) : Agree a b (setHistory w t messages) (setHistory w' t messages) := by
  refine ⟨h.limit, h.threshold, h.compressor, fun u hu => ?_⟩
  show (if _ then _ else _) = if _ then _ else _
  split
  · rfl
  · exact h.others u hu

theorem Agree.compactThread {w w' : World} (h : Agree a false w w') (x : Compaction)
    (hx : x.threadId ≠ a) :
    (compactThread callsJson estimateTokens w x).1 =
        (compactThread callsJson estimateTokens w' x).1 ∧
      Agree a false (compactThread callsJson estimateTokens w x).2
        (compactThread callsJson estimateTokens w' x).2 := by
  unfold Messages.compactThread
  simp only [h.runtime, h.others x.threadId hx, true_and]
  generalize compressMessages callsJson w'.runtime x (w'.histories x.threadId) = result
  have hmid : Agree a false { w with runtime := result.2 } { w' with runtime := result.2 } :=
    ⟨rfl, rfl, fun _ => rfl, h.others⟩
  exact hmid.setHistory _ _

theorem Agree.sentPrompt {w w' : World} (h : Agree a false w w') (x : Compaction)
    (hx : x.threadId ≠ a) : sentPrompt? callsJson w x = sentPrompt? callsJson w' x := by
  unfold sentPrompt?
  rw [h.runtime, h.others x.threadId hx]

theorem Agree.step {b : Bool} {w w' v : World} (h : Agree a b w w') (op : Op)
    (hop : op.thread? ≠ some a) (hclean : CleanStep a (w, b) op)
    (hv : step callsJson estimateTokens w op = some v) :
    ∃ v', step callsJson estimateTokens w' op = some v' ∧
      Agree a (taintAfter callsJson a w b op) v v' := by
  cases op with
  | append t messages =>
    cases hv
    have ht : t ≠ a := fun hta => hop (congrArg some hta)
    refine ⟨_, rfl, ?_⟩
    rw [h.others t ht]
    exact h.setHistory t _
  | compact x =>
    cases hv
    have hx : x.threadId ≠ a := fun hxa => hop (congrArg some hxa)
    obtain rfl : b = false := hclean x rfl hx
    have htaint : taintAfter callsJson a w false (.compact x) = false := by
      simp [taintAfter, hx]
    rw [htaint]
    exact ⟨_, rfl, (h.compactThread callsJson estimateTokens x hx).2⟩
  | setLlmCallFn f limit =>
    cases hv
    refine ⟨_, rfl, ?_, h.threshold, fun _ => ?_, h.others⟩
    · simp only [setLlmCallFn, h.limit]
    · simp only [setLlmCallFn, h.limit]

theorem own_step {b : Bool} {w v : World} (op : Op) (hop : op.thread? = some a)
    (hv : step callsJson estimateTokens w op = some v) :
    Agree a (taintAfter callsJson a w b op) v w := by
  cases op with
  | append t messages =>
    cases hop
    cases hv
    exact ⟨rfl, rfl, fun _ => rfl, fun _ ht => if_neg ht⟩
  | compact x =>
    cases hop
    cases hv
    obtain ⟨hlimit, hthreshold⟩ :=
      compressMessages_settings callsJson w.runtime x (w.histories x.threadId)
    refine ⟨hlimit, hthreshold, fun htaint => ?_, fun _ ht => if_neg ht⟩
    have hsilent : sentPrompt? callsJson w x = none := by
      simp only [taintAfter, beq_self_eq_true, Bool.true_and, Bool.or_eq_false_iff] at htaint
      exact Option.not_isSome_iff_eq_none.mp (by simp [htaint.2])
    show (compressMessages callsJson w.runtime x (w.histories x.threadId)).2.compressor = _
    rw [compressMessages_of_no_prompt callsJson w x hsilent]
  | setLlmCallFn f limit => cases hop

theorem Agree.weaken {b b' : Bool} {w w' : World} (h : Agree a b w w')
    (hb : b' = false → b = false) : Agree a b' w w' :=
  ⟨h.limit, h.threshold, fun hb' => h.compressor (hb hb'), h.others⟩

/-- **Run lemma.** A clean run ends, but for `a` and what it tainted, where the run of the other
operations does. -/
theorem run_others (w w' : World) (b : Bool) (ops : List Op) (t : World × Bool)
    (h : Agree a b w w') (hrun : Steps.run (trackedStep callsJson estimateTokens a) (w, b) ops = some t)
    (hclean : Steps.GoodRun (trackedStep callsJson estimateTokens a) (CleanStep a) (w, b) ops) :
    ∃ v', Steps.run (step callsJson estimateTokens) w' (others a ops) = some v' ∧
      Agree a t.2 t.1 v' := by
  induction ops generalizing w w' b with
  | nil =>
    cases hrun
    exact ⟨w', rfl, h⟩
  | cons op ops ih =>
    obtain ⟨s, hs, hrest⟩ := Steps.run_cons_some _ hrun
    obtain ⟨u, hu, rfl⟩ := Option.map_eq_some_iff.mp hs
    by_cases hop : op.thread? = some a
    · have hothers : others a (op :: ops) = others a ops := by simp [others, hop]
      have hkeep : taintAfter callsJson a w b op = false → b = false := by
        cases op with
        | append t messages => exact fun hb => hb
        | compact x => exact fun hb => (Bool.or_eq_false_iff.mp hb).1
        | setLlmCallFn f limit => cases hop
      rw [hothers]
      exact ih u w' _ ((own_step callsJson estimateTokens op hop hu).trans (h.weaken hkeep)) hrest
        (hclean.2 _ hs)
    · have hothers : others a (op :: ops) = op :: others a ops := by simp [others, hop]
      obtain ⟨u', hu', hagree⟩ := h.step callsJson estimateTokens op hop hclean.1 hu
      rw [hothers, Steps.run_cons_of_step _ _ hu']
      exact ih u u' _ hagree hrest (hclean.2 _ hs)

/-- **Threads do not mix** until `a` has a summary. From two worlds that differ only in thread
`a`, two runs that differ only in what they do with `a` lead to the same prompt and the same
result of a compaction of another thread, if every compaction of other threads is made with a
compressor that has asked for no summary of `a`. -/
theorem threads_apart (w w' v v' : World) (ops ops' : List Op)
    (hruntime : w.runtime = w'.runtime) (hsame : ∀ t, t ≠ a → w.histories t = w'.histories t)
    (hops : others a ops = others a ops')
    (hrun : Steps.run (trackedStep callsJson estimateTokens a) (w, false) ops = some (v, false))
    (hrun' : Steps.run (trackedStep callsJson estimateTokens a) (w', false) ops' =
      some (v', false))
    (hclean : Steps.GoodRun (trackedStep callsJson estimateTokens a) (CleanStep a) (w, false) ops)
    (hclean' : Steps.GoodRun (trackedStep callsJson estimateTokens a) (CleanStep a) (w', false)
      ops') (x : Compaction) (hx : x.threadId ≠ a) :
    sentPrompt? callsJson v x = sentPrompt? callsJson v' x ∧
      (compactThread callsJson estimateTokens v x).1 =
        (compactThread callsJson estimateTokens v' x).1 := by
  have hstart : Agree a false w w' := by
    refine ⟨?_, ?_, fun _ => ?_, hsame⟩ <;> rw [hruntime]
  obtain ⟨u, hu, hvu⟩ := run_others callsJson estimateTokens w w' false ops _ hstart hrun hclean
  obtain ⟨u', hu', hvu'⟩ := run_others callsJson estimateTokens w' w' false ops' _
    ⟨rfl, rfl, fun _ => rfl, fun _ _ => rfl⟩ hrun' hclean'
  obtain rfl : u = u' := Option.some.inj (hu.symm.trans (hops ▸ hu'))
  have hagree : Agree a false v v' := hvu.trans hvu'.symm
  exact ⟨hagree.sentPrompt callsJson x hx, (hagree.compactThread callsJson estimateTokens x hx).1⟩

end Runtime

/-! ## Two threads -/

/-- A session whose thread `a` has this history, and every other thread that one. -/
def session (ofA ofOthers : List Message) : World :=
  { runtime := { compressor := some summarizer, contextLimitChars := 5000 }
    histories := fun t => if t = "a" then ofA else ofOthers }

def compaction (threadId : String) : Compaction :=
  { threadId := threadId, now := 1000, failedAt := 1000 }

theorem threads_apart_appended : ∃ v v',
    Steps.run (trackedStep readCallJson List.length "a") (session [] [user "1"], false)
        [.append "a" [user "x"], .compact (compaction "b")] = some (v, false) ∧
      Steps.run (trackedStep readCallJson List.length "a") (session [user "2"] [user "1"], false)
        [.compact (compaction "b")] = some (v', false) ∧
      (compactThread readCallJson List.length v (compaction "b")).1 =
        (compactThread readCallJson List.length v' (compaction "b")).1 := by
  refine ⟨_, _, rfl, rfl, ?_⟩
  refine (threads_apart readCallJson List.length (session [] [user "1"])
    (session [user "2"] [user "1"]) _ _ [.append "a" [user "x"], .compact (compaction "b")]
    [.compact (compaction "b")] rfl (fun t ht => ?_) rfl rfl rfl ?_ ?_ (compaction "b")
    (by decide)).2
  · simp [session, ht]
  · refine ⟨fun x hx => (by cases hx), fun s hs => ⟨fun _ _ _ => ?_, fun _ _ => trivial⟩⟩
    rw [← Option.some.inj hs]
    rfl
  · exact ⟨fun _ _ _ => rfl, fun _ _ => trivial⟩

/-- What a compaction of `twoReads` summarises. -/
def firstReads : List Message :=
  [user "1", user "2", user "3", user "4", user "5", readCall "c1"]

section Asked
variable {text : String} (hlength : text.length = 5000)
include hlength

theorem twoReads_prompt (c : Compressor) (hlimit : c.contextLimitChars = 5000)
    (hlast : c.lastFailureTime = 0) :
    c.prompt? readCallJson 1000 (twoReads "c2" text) = some (summaryPrompt c firstReads) := by
  unfold Compressor.prompt?
  rw [hlimit, hlast, twoReads_plan "c2" hlength]
  rfl

theorem sentPrompt_twoReads (w : World) (c : Compressor) (hc : w.runtime.compressor = some c)
    (hbelow : w.runtime.belowThreshold (w.histories "b") = false)
    (hhist : w.histories "b" = twoReads "c2" text) (hlimit : c.contextLimitChars = 5000)
    (hlast : c.lastFailureTime = 0) :
    sentPrompt? readCallJson w (compaction "b") = some (summaryPrompt c firstReads) := by
  unfold sentPrompt?
  simp only [compaction, hc, hbelow, Bool.false_eq_true, if_false]
  rw [hhist]
  exact twoReads_prompt hlength c hlimit hlast

end Asked

theorem updated_ne_initial (summary turns turns' : String) :
    updateSummaryPrompt summary turns ≠ initialSummaryPrompt turns' := by
  have hupdate : "You are u".toList <+: (updateSummaryPrompt summary turns).toList := by
    unfold updateSummaryPrompt
    simp only [String.toList_append, List.append_assoc]
    refine List.IsPrefix.trans ?_ (List.prefix_append _ _)
    decide
  have hinitial : "You are s".toList <+: (initialSummaryPrompt turns').toList := by
    unfold initialSummaryPrompt
    simp only [String.toList_append, List.append_assoc]
    refine List.IsPrefix.trans ?_ (List.prefix_append _ _)
    decide
  intro h
  rw [← h] at hinitial
  have hsame := List.prefix_of_prefix_length_le hupdate hinitial (by decide)
  exact absurd hsame (by decide)

/-- The world behind a compaction of thread `a`. -/
def afterA (ofA ofOthers : List Message) : World :=
  (compactThread readCallJson List.length (session ofA ofOthers) (compaction "a")).2

/-- Thread `b` is summarised with the summary of `a` as its previous one, or for a first time,
by what the thread `a` holds when it is compacted. -/
theorem sharedSummary_mixes :
    sentPrompt? readCallJson (afterA (twoReads "c2" longText) (twoReads "c2" longText))
        (compaction "b") =
      some (updateSummaryPrompt "done" (serializeForSummary firstReads)) ∧
    sentPrompt? readCallJson (afterA [] (twoReads "c2" longText)) (compaction "b") =
      some (initialSummaryPrompt (serializeForSummary firstReads)) ∧
    sentPrompt? readCallJson (afterA (twoReads "c2" longText) (twoReads "c2" longText))
        (compaction "b") ≠
      sentPrompt? readCallJson (afterA [] (twoReads "c2" longText)) (compaction "b") := by
  have hlength := longText_length
  generalize longText = text at hlength ⊢
  have hcompressor : (afterA (twoReads "c2" text) (twoReads "c2" text)).runtime.compressor =
      some { summarizer with previousSummary := "done" } := by
    have hafter := compress_of_prompt readCallJson summarizer 1000 1000 _ "" _
      (twoReads_prompt hlength summarizer rfl rfl)
    have hdone : stripFences "done" = "done" := by decide
    rw [afterA, compactThread_compressor readCallJson List.length _ _ summarizer rfl rfl rfl]
    exact congrArg some (hafter.trans (by rw [← hdone]; rfl))
  have hbelow : ∀ ofA, (afterA ofA (twoReads "c2" text)).runtime.belowThreshold
      ((afterA ofA (twoReads "c2" text)).histories "b") = false := by
    intro ofA
    have hthreshold := compactThread_threshold readCallJson List.length
      (session ofA (twoReads "c2" text)) (compaction "a")
    unfold ContextRuntime.belowThreshold
    rw [show (afterA ofA (twoReads "c2" text)).runtime.compressionThresholdChars = 0 from hthreshold]
    rfl
  have hhistory : ∀ ofA, (afterA ofA (twoReads "c2" text)).histories "b" = twoReads "c2" text :=
    fun ofA => compactThread_other readCallJson List.length _ (compaction "a") "b" (by decide)
  have hv := sentPrompt_twoReads hlength _ _ hcompressor (hbelow _) (hhistory _) rfl rfl
  have hv' := sentPrompt_twoReads hlength (afterA [] (twoReads "c2" text)) summarizer rfl (hbelow _)
    (hhistory _) rfl rfl
  refine ⟨hv, hv', ?_⟩
  rw [hv, hv']
  exact fun h => updated_ne_initial _ _ _ (Option.some.inj h)

end MiqroForge.Messages
