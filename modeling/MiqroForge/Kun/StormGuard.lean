import MiqroForge.Kun.Transcript

/-!
What the repeat-loop guard counts. A call is recorded when it is streamed and again when
it is dispatched, so the window holds records of calls that were never executed.
-/

namespace MiqroForge.Kun.Loop

open PyText Steps ToolStormBreaker

def Act.executes (call : ToolCall) : Act → Bool
  | .executed c => c.fingerprint == call.fingerprint
  | _ => false

/-- How often a call with this name and these arguments was executed. -/
def executions (call : ToolCall) (acts : List Act) : Nat := acts.countP (Act.executes call)

/-- A call is suppressed only after `threshold - 1` executions of the same call. -/
def Guards (threshold : Int) (acts : List Act) : Prop :=
  ∀ before after call, acts = before ++ .suppressed call :: after →
    threshold ≤ executions call before + 1

theorem guards_of_none {acts : List Act} (h : ∀ call, .suppressed call ∉ acts) (threshold : Int) :
    Guards threshold acts := by
  rintro before after call rfl
  exact absurd (List.mem_append_right before List.mem_cons_self) (h call)

/-! ## Guards that never fire -/

/-- The calls that are still to be inspected when they are dispatched. -/
def Phase.uninspected : Phase → List ToolCall
  | .streaming acc => acc.calls
  | .dispatching calls | .executing _ calls | .batching _ calls | .gathering _ calls => calls
  | .idle | .ended _ => []

/-- The calls that an event streams. -/
def Event.calls : Event → List ToolCall
  | .chunk (.toolCallComplete call) => [call]
  | _ => []

/-- A property of the guard, the calls streamed and the calls to come that keeps it from firing,
as long as the streamed calls are `ok`. -/
structure Lenient (ok : List ToolCall → Prop)
    (inv : List ToolCall → ToolStormBreaker → List ToolCall → Prop) : Prop where
  stream : ∀ streamed b todo call, inv streamed b todo → ok (streamed ++ [call]) →
    b.suppresses call = false ∧ inv (streamed ++ [call]) (b.record call) (todo ++ [call])
  dispatch : ∀ streamed b call todo, inv streamed b (call :: todo) →
    b.suppresses call = false ∧ inv streamed (b.record call) todo
  skip : ∀ streamed b call todo, inv streamed b (call :: todo) → inv streamed b todo
  clear : ∀ streamed b todo, inv streamed b todo → inv streamed b []

/-- The property holds, and nothing was suppressed. -/
def Quiet (inv : List ToolCall → ToolStormBreaker → List ToolCall → Prop)
    (streamed : List ToolCall) (s : LoopState) (todo : List ToolCall) : Prop :=
  (∃ b, s.breaker = some b ∧ inv streamed b todo) ∧ ∀ call, .suppressed call ∉ s.acts

section Quiet

variable {ok : List ToolCall → Prop}
  {inv : List ToolCall → ToolStormBreaker → List ToolCall → Prop} {opts : Options}
  {s t : LoopState} {streamed todo : List ToolCall}

theorem Quiet.congr (h : Quiet inv streamed s todo) (hbreaker : t.breaker = s.breaker)
    (hacts : ∀ call, .suppressed call ∈ t.acts → .suppressed call ∈ s.acts) :
    Quiet inv streamed t todo :=
  ⟨by rw [hbreaker]; exact h.1, fun call hmem => h.2 call (hacts call hmem)⟩

theorem Quiet.countSearch (h : Quiet inv streamed s todo) (call : ToolCall) :
    Quiet inv streamed (countSearch s call) todo := by
  unfold Loop.countSearch
  split
  · exact h.congr rfl (fun _ hmem => hmem)
  · exact h

theorem Quiet.admitCall (opts : Options) (hl : Lenient ok inv) {call : ToolCall}
    (h : Quiet inv streamed s (call :: todo)) :
    Quiet inv streamed (admitCall opts s call).1 todo := by
  unfold Loop.admitCall
  split
  · obtain ⟨⟨b, hbreaker, hb⟩, hacts⟩ := h
    exact ⟨⟨b, hbreaker, hl.skip _ b call todo hb⟩, fun c hmem =>
      hacts c (by simpa [persistSuppressed] using hmem)⟩
  · obtain ⟨⟨b, hbreaker, hb⟩, hacts⟩ := h.countSearch call
    obtain ⟨hpass, hrecord⟩ := hl.dispatch _ b call todo hb
    rw [if_neg (by simp [isSuppressed, hbreaker, hpass])]
    exact ⟨⟨b.record call, by simp [recordCall, hbreaker], hrecord⟩, hacts⟩

theorem Quiet.dispatch (hl : Lenient ok inv) (calls : List ToolCall)
    (h : Quiet inv streamed s calls) :
    Quiet inv streamed (dispatch opts s calls) (dispatch opts s calls).phase.uninspected := by
  cases calls with
  | nil => exact h.congr rfl (fun _ hmem => hmem)
  | cons call calls =>
    have hadmitted := h.admitCall opts hl
    simp only [Loop.dispatch]
    split
    case h_1 t heq =>
      rw [heq] at hadmitted
      exact hadmitted.congr rfl (fun _ hmem => hmem)
    case h_2 t heq =>
      rw [heq] at hadmitted
      split
      · exact hadmitted.congr rfl (fun _ hmem => hmem)
      · exact hadmitted.congr rfl (fun _ hmem => by simpa using hmem)

theorem Quiet.gather (batch calls : List ToolCall) (h : Quiet inv streamed s calls) :
    Quiet inv streamed (gather s batch calls) calls :=
  h.congr rfl (fun _ hmem => by simpa [Loop.gather] using hmem)

theorem Quiet.extend (hl : Lenient ok inv) (batch calls : List ToolCall)
    (h : Quiet inv streamed s calls) :
    Quiet inv streamed (extend opts s batch calls)
      (extend opts s batch calls).phase.uninspected := by
  cases calls with
  | nil => exact h.gather batch []
  | cons call calls =>
    have hadmitted := h.admitCall opts hl
    simp only [Loop.extend]
    split
    case isFalse => exact h.gather batch (call :: calls)
    case isTrue =>
      split
      case h_1 t heq =>
        rw [heq] at hadmitted
        exact hadmitted.congr rfl (fun _ hmem => hmem)
      case h_2 t heq =>
        rw [heq] at hadmitted
        exact hadmitted.congr rfl (fun _ hmem => hmem)

theorem Quiet.receive (hl : Lenient ok inv) {acc : Stream} (hphase : s.phase = .streaming acc)
    (h : Quiet inv streamed s acc.calls) (c : Chunk)
    (hok : ok (streamed ++ (Event.chunk c).calls)) :
    Quiet inv (streamed ++ (Event.chunk c).calls) (receive s acc c)
      (receive s acc c).phase.uninspected := by
  cases c with
  | toolCallComplete call =>
    obtain ⟨⟨b, hbreaker, hb⟩, hacts⟩ := h
    obtain ⟨hpass, hrecord⟩ := hl.stream _ b acc.calls call hb hok
    have hsup : isSuppressed s call = false := by simp [isSuppressed, hbreaker, hpass]
    simp only [Loop.receive, receiveCall, hsup, Bool.false_eq_true, if_false]
    exact ⟨⟨b.record call, by simp [recordCall, hbreaker], hrecord⟩, fun c hmem =>
      hacts c (by simpa [recordCall] using hmem)⟩
  | assistantTextDelta _ | assistantReasoningDelta _ | completed _ | error _ =>
    simp only [Event.calls, List.append_nil]
    exact h.congr rfl (fun _ hmem => hmem)
  | usage =>
    simp only [Event.calls, List.append_nil]
    show Quiet inv streamed s s.phase.uninspected
    rw [hphase]
    exact h

theorem Quiet.clear (hl : Lenient ok inv) (h : Quiet inv streamed s todo) :
    Quiet inv streamed s [] := by
  obtain ⟨⟨b, hbreaker, hb⟩, hacts⟩ := h
  exact ⟨⟨b, hbreaker, hl.clear _ b todo hb⟩, hacts⟩

/-- **One step.** -/
theorem Quiet.step (hl : Lenient ok inv) (h : Quiet inv streamed s s.phase.uninspected) {e : Event}
    (hok : ok (streamed ++ e.calls)) (hstep : step opts s e = some t) :
    Quiet inv (streamed ++ e.calls) t t.phase.uninspected := by
  cases e with
  | chunk c =>
    simp only [Loop.step] at hstep
    split at hstep
    case h_2 => cases hstep
    case h_1 acc hphase =>
      cases hstep
      rw [hphase] at h
      exact h.receive hl hphase c hok
  | round elapsed steering summary =>
    simp only [Event.calls, List.append_nil]
    simp only [Loop.step] at hstep
    split at hstep
    case h_2 => cases hstep
    case h_1 =>
      cases hstep
      unfold beginRound
      split <;> exact (h.clear hl).congr rfl (fun _ hmem => hmem)
  | streamEnds =>
    simp only [Event.calls, List.append_nil]
    simp only [Loop.step] at hstep
    split at hstep
    case h_2 => cases hstep
    case h_1 acc hphase =>
      cases hstep
      have hclear := h.clear hl
      rw [hphase] at h
      show Quiet inv streamed _ (afterStream acc).uninspected
      unfold afterStream
      split
      · exact hclear.congr rfl (fun _ hmem => hmem)
      · split
        · exact hclear.congr rfl (fun _ hmem => hmem)
        · exact h.congr rfl (fun _ hmem => hmem)
  | streamRaises | raises =>
    simp only [Event.calls, List.append_nil]
    simp only [Loop.step] at hstep
    split at hstep
    case h_2 => cases hstep
    case h_1 =>
      cases hstep
      exact (h.clear hl).congr rfl (fun _ hmem => hmem)
  | next =>
    simp only [Event.calls, List.append_nil]
    simp only [Loop.step] at hstep
    split at hstep
    case h_1 calls hphase =>
      cases hstep
      rw [hphase] at h
      exact h.dispatch hl calls
    case h_2 batch calls hphase =>
      cases hstep
      rw [hphase] at h
      exact h.extend hl batch calls
    case h_3 => cases hstep
  | returns status output isError =>
    simp only [Event.calls, List.append_nil]
    simp only [Loop.step] at hstep
    split at hstep
    case h_2 => cases hstep
    case h_1 hphase =>
      cases hstep
      rw [hphase] at h
      exact h.congr rfl (fun _ hmem => hmem)
  | gathered outcomes =>
    simp only [Event.calls, List.append_nil]
    simp only [Loop.step] at hstep
    split at hstep
    case h_2 => cases hstep
    case h_1 hphase =>
      simp only [Option.ite_none_right_eq_some, Option.some.injEq] at hstep
      obtain ⟨-, rfl⟩ := hstep
      rw [hphase] at h
      exact h.congr rfl (fun _ hmem => hmem)
  | abort =>
    simp only [Event.calls, List.append_nil]
    simp only [Loop.step] at hstep
    split at hstep
    case h_4 => cases hstep
    all_goals
      cases hstep
      exact (h.clear hl).congr rfl (fun _ hmem => hmem)

/-- **A run** whose streamed calls are `ok` at every point. -/
theorem Quiet.run (hl : Lenient ok inv) (streamed : List ToolCall) (es : List Event)
    (hok : ∀ calls, calls <+: es.flatMap Event.calls → ok (streamed ++ calls))
    (h : Quiet inv streamed s s.phase.uninspected)
    (hrun : Steps.run (Loop.step opts) s es = some t) : ∀ call, .suppressed call ∉ t.acts := by
  induction es generalizing s streamed with
  | nil =>
    cases hrun
    exact h.2
  | cons e es ih =>
    obtain ⟨u, hu, hrest⟩ := run_cons_some (Loop.step opts) hrun
    rw [List.flatMap_cons] at hok
    refine ih (streamed ++ e.calls) (fun calls hcalls => ?_)
      (h.step hl (hok _ (List.prefix_append _ _)) hu) hrest
    rw [List.append_assoc]
    exact hok _ ((List.prefix_append_right_inj _).mpr hcalls)

end Quiet

theorem lenient_window (window threshold : Nat) (hsmall : window + 1 < threshold) :
    Lenient (fun _ => True) (fun _ b _ => b.threshold = threshold ∧ b.windowSize = window ∧
      b.recent.length ≤ window) := by
  have hpass : ∀ (b : ToolStormBreaker) (call : ToolCall), b.threshold = threshold →
      b.recent.length ≤ window → b.suppresses call = false := by
    intro b call hthreshold hlen
    have hcount : b.recent.count call.fingerprint ≤ b.recent.length := List.count_le_length
    simp only [suppresses, count, Bool.and_eq_false_iff]
    exact .inr (decide_eq_false (by omega))
  have hrecord : ∀ (b : ToolStormBreaker) (call : ToolCall), b.threshold = threshold →
      b.windowSize = window → b.recent.length ≤ window → (b.record call).threshold = threshold ∧
      (b.record call).windowSize = window ∧ (b.record call).recent.length ≤ window := by
    intro b call hthreshold hwindow hlen
    unfold record
    split
    · exact ⟨hthreshold, hwindow, hlen⟩
    · refine ⟨hthreshold, hwindow, ?_⟩
      simp only [List.length_drop, List.length_append, List.length_singleton]
      omega
  exact ⟨fun _ b _ call ⟨ht, hw, hlen⟩ _ => ⟨hpass b call ht hlen, hrecord b call ht hw hlen⟩,
    fun _ b call _ ⟨ht, hw, hlen⟩ => ⟨hpass b call ht hlen, hrecord b call ht hw hlen⟩,
    fun _ _ _ _ h => h, fun _ _ _ h => h⟩

/-! ## Few copies -/

/-- How often a list has a call with this name and these arguments. -/
def copies (call : ToolCall) (calls : List ToolCall) : Nat :=
  (calls.map ToolCall.fingerprint).count call.fingerprint

theorem copies_append (call : ToolCall) (a b : List ToolCall) :
    copies call (a ++ b) = copies call a + copies call b := by
  simp [copies]

theorem copies_cons_le (call c : ToolCall) (calls : List ToolCall) :
    copies call calls ≤ copies call (c :: calls) := by
  simp [copies, List.count_cons]

/-- Every call is streamed less often than half the threshold. -/
def Few (threshold : Nat) (calls : List ToolCall) : Prop :=
  ∀ call, call.exempt = false → 2 * copies call calls < threshold

theorem count_record (b : ToolStormBreaker) (call c : ToolCall) :
    (b.record c).count call ≤ b.count call + copies call [c] := by
  unfold record count
  split
  · exact Nat.le_add_right _ _
  · refine (List.Sublist.count_le _ (List.drop_sublist _ _)).trans ?_
    rw [List.count_append]
    rfl

theorem threshold_record (b : ToolStormBreaker) (c : ToolCall) :
    (b.record c).threshold = b.threshold := by
  unfold record
  split <;> rfl

theorem lenient_few (threshold : Nat) :
    Lenient (Few threshold) (fun streamed b todo => b.threshold = threshold ∧
      Few threshold streamed ∧
      ∀ call, b.count call + copies call todo ≤ 2 * copies call streamed) := by
  have hpass : ∀ (b : ToolStormBreaker) (call : ToolCall) (n : Nat), b.threshold = threshold →
      (call.exempt = false → 2 * n < threshold) → b.count call + 1 ≤ 2 * n →
      b.suppresses call = false := by
    intro b call n hthreshold hfew hcount
    cases hexempt : call.exempt with
    | true => simp [suppresses, hexempt]
    | false =>
      have := hfew hexempt
      simp only [suppresses, Bool.and_eq_false_iff]
      exact .inr (decide_eq_false (by omega))
  have hself : ∀ call : ToolCall, copies call [call] = 1 := fun call => by simp [copies]
  refine ⟨?_, ?_, ?_, ?_⟩
  · rintro streamed b todo call ⟨hthreshold, hfew, hcount⟩ hok
    refine ⟨hpass b call (copies call (streamed ++ [call])) hthreshold (hok call) ?_,
      (threshold_record b call).trans hthreshold, hok, fun c => ?_⟩
    · have := hcount call
      rw [copies_append, hself]
      omega
    · have := hcount c
      have := count_record b c call
      rw [copies_append, copies_append]
      omega
  · rintro streamed b call todo ⟨hthreshold, hfew, hcount⟩
    have hsplit : ∀ c, copies c (call :: todo) = copies c [call] + copies c todo := fun c =>
      copies_append c [call] todo
    refine ⟨hpass b call (copies call streamed) hthreshold (hfew call) ?_,
      (threshold_record b call).trans hthreshold, hfew, fun c => ?_⟩
    · have := hcount call
      rw [hsplit, hself] at this
      omega
    · have := hcount c
      have := count_record b c call
      rw [hsplit] at *
      omega
  · rintro streamed b call todo ⟨hthreshold, hfew, hcount⟩
    refine ⟨hthreshold, hfew, fun c => ?_⟩
    have := hcount c
    have := copies_cons_le c call todo
    omega
  · rintro streamed b todo ⟨hthreshold, hfew, hcount⟩
    refine ⟨hthreshold, hfew, fun c => ?_⟩
    have := hcount c
    have hnil : copies c [] = 0 := rfl
    omega

/-! ## A window that is not -/

/-- The copies of one call that a stream brings. -/
def copy (i : Nat) : ToolCall := readCall (List.replicate i 'a')

def copyChunk (i : Nat) : Event := .chunk (.toolCallComplete (copy i))

theorem copies_recorded (opts : Options) {window threshold : Nat}
    (hstorm : (start opts).breaker = some ⟨window, threshold, []⟩) (k : Nat)
    (hk : k + 1 ≤ threshold) (hwindow : k ≤ window) :
    ∃ t acc, run (step opts) (start opts) (.round 0 [] none :: (List.range k).map copyChunk) =
      some t ∧ t.phase = .streaming acc ∧
      t.breaker = some ⟨window, threshold, List.replicate k (copy 0).fingerprint⟩ ∧
      t.acts = (List.range k).map fun i => .ready (copy i) := by
  induction k with
  | zero =>
    have hround : step opts (start opts) (.round 0 [] none) =
        some (beginRound opts (start opts) 0 [] none) := rfl
    have hcap : (start opts).rounds ≠ orDefault opts.maxToolRounds 100 := by
      unfold orDefault
      split <;> simp [start]
    have hspent : spent opts 0 0 = false := by
      unfold spent
      split <;> simp
    refine ⟨_, {}, run_cons_of_step (step opts) [] hround, ?_, ?_, ?_⟩ <;>
      simp [beginRound, hcap, hspent, hstorm]
    rfl
  | succ k ih =>
    obtain ⟨t, acc, hrun, hphase, hbreaker, hacts⟩ := ih (by omega) (by omega)
    have hpass : isSuppressed t (copy k) = false := by
      have hfp : (copy k).fingerprint = (copy 0).fingerprint := rfl
      simp only [isSuppressed, hbreaker, Option.any_some, suppresses,
        count, hfp, List.count_replicate_self, Bool.and_eq_false_iff,
        decide_eq_false_iff_not]
      omega
    have hstep : step opts t (copyChunk k) = some (receiveCall t acc (copy k)) := by
      simp only [copyChunk, step, hphase, receive]
    refine ⟨receiveCall t acc (copy k), { acc with calls := acc.calls ++ [copy k] }, ?_, ?_, ?_, ?_⟩
    · rw [List.range_succ, List.map_append, ← List.cons_append, run_append, hrun]
      exact run_cons_of_step (step opts) [] hstep
    · simp only [receiveCall, hpass, Bool.false_eq_true, if_false]
    · simp only [receiveCall, hpass, Bool.false_eq_true, if_false, recordCall, hbreaker,
        Option.map_some, record, List.length_replicate]
      have hexempt : (copy k).exempt = false := rfl
      have hdrop : k + 1 - window = 0 := by omega
      simp only [hexempt, Bool.false_eq_true, if_false, hdrop, List.drop_zero]
      rw [List.replicate_succ']
      rfl
    · simp only [receiveCall, hpass, Bool.false_eq_true, if_false, recordCall, hacts,
        List.range_succ, List.map_append, List.map_singleton]

theorem executions_ready (call : ToolCall) (calls : List ToolCall) :
    executions call (calls.map .ready) = 0 := by
  simp [executions, Act.executes]

/-- Where the window can hold `threshold - 1` records, that many copies in one stream are recorded,
and the next one is suppressed before anything was executed. -/
theorem copies_suppressed (opts : Options) {window threshold : Nat}
    (hstorm : (start opts).breaker = some ⟨window, threshold, []⟩) (n : Nat)
    (hthreshold : threshold = n + 2) (hwindow : n + 1 ≤ window) :
    ∃ es t, run (step opts) (start opts) es = some t ∧ ¬ Guards threshold t.acts := by
  obtain ⟨t, acc, hrun, hphase, hrecorded, hacts⟩ :=
    copies_recorded opts hstorm (n + 1) (by omega) hwindow
  have hsup : isSuppressed t (copy (n + 1)) = true := by
    have hfp : (copy (n + 1)).fingerprint = (copy 0).fingerprint := rfl
    have hexempt : (copy (n + 1)).exempt = false := rfl
    simp only [isSuppressed, hrecorded, Option.any_some, suppresses, hexempt,
      count, hfp, List.count_replicate_self, Bool.not_false, Bool.true_and]
    exact decide_eq_true (by omega)
  have hstep : step opts t (copyChunk (n + 1)) = some (receiveCall t acc (copy (n + 1))) := by
    simp only [copyChunk, step, hphase, receive]
  refine ⟨(.round 0 [] none :: (List.range (n + 1)).map copyChunk) ++ [copyChunk (n + 1)],
    receiveCall t acc (copy (n + 1)), ?_, fun hguards => ?_⟩
  · rw [run_append, hrun]
    exact run_cons_of_step (step opts) [] hstep
  · have hfew := hguards t.acts [] (copy (n + 1))
      (by simp only [receiveCall, hsup, if_true, persistSuppressed])
    have hnone : executions (copy (n + 1)) t.acts = 0 := by
      rw [hacts]
      simpa [Function.comp_def] using
        executions_ready (copy (n + 1)) ((List.range (n + 1)).map copy)
    omega

/-- **The guard's threshold.** Over all turns, a call is suppressed only after `threshold - 1`
executions iff the window is too small to hold that many records; under any window it is so in the
turns that stream every call less often than half the threshold. -/
theorem storm_guard_iff (opts : Options) (window threshold : Int)
    (hstorm : opts.toolStorm = some (window, threshold)) (h : 2 ≤ threshold) :
    ((∀ es t, run (step opts) (start opts) es = some t → Guards threshold t.acts) ↔
      max 1 window + 1 < threshold) ∧
    ∀ es t, run (step opts) (start opts) es = some t →
      Few threshold.toNat (es.flatMap Event.calls) → Guards threshold t.acts := by
  have hbreaker : (start opts).breaker =
      some ⟨(max 1 window).toNat, (max 2 threshold).toNat, []⟩ := by
    simp [start, hstorm, new]
  refine ⟨⟨fun hguards => ?_, fun hwindow es t hrun => ?_⟩, fun es t hrun hfew => ?_⟩
  · by_contra hwindow
    obtain ⟨es, t, hrun, hnot⟩ := copies_suppressed opts hbreaker (threshold - 2).toNat
      (by omega) (by omega)
    refine hnot ?_
    rw [show ((max 2 threshold).toNat : Int) = threshold by omega]
    exact hguards es t hrun
  · have hl := lenient_window (max 1 window).toNat (max 2 threshold).toNat (by omega)
    exact guards_of_none (Quiet.run hl [] es (fun _ _ => trivial)
      ⟨⟨_, hbreaker, rfl, rfl, Nat.zero_le _⟩, fun _ => List.not_mem_nil⟩ hrun) threshold
  · have hthreshold : (max 2 threshold).toNat = threshold.toNat := by omega
    rw [hthreshold] at hbreaker
    refine guards_of_none (Quiet.run (lenient_few threshold.toNat) [] es
      (fun calls hprefix call hexempt => ?_) ⟨⟨_, hbreaker, rfl, fun call _ => ?_, fun call => ?_⟩,
        fun _ => List.not_mem_nil⟩ hrun) threshold
    · obtain ⟨rest, hrest⟩ := hprefix
      have hall := hfew call hexempt
      rw [← hrest, copies_append] at hall
      rw [List.nil_append]
      omega
    · simp only [copies, List.map_nil, List.count_nil]
      omega
    · simp [copies, count, start, Phase.uninspected]

/-- A guard that never fires: three records are needed, and the window holds one. -/
theorem storm_guard_iff_narrow :
    ((∀ es t, run (step { guarded with toolStorm := some (1, 4) })
      (start { guarded with toolStorm := some (1, 4) }) es = some t → Guards 4 t.acts) ↔
      max 1 1 + 1 < (4 : Int)) ∧
    ∀ es t, run (step { guarded with toolStorm := some (1, 4) })
      (start { guarded with toolStorm := some (1, 4) }) es = some t →
      Few (4 : Int).toNat (es.flatMap Event.calls) → Guards 4 t.acts :=
  storm_guard_iff { guarded with toolStorm := some (1, 4) } 1 4 rfl (by decide)

/-- With the defaults two identical calls of one stream are both suppressed when they are
dispatched, and none was executed. -/
theorem twice_streamed_suppressed : ∃ t, run (step guarded) (start guarded)
    [.round 0 [] none, copyChunk 0, copyChunk 1, .streamEnds, .next, .next, .next] = some t ∧
    t.acts = [.ready (copy 0), .ready (copy 1), .suppressed (copy 0), .suppressed (copy 1)] ∧
    ¬ Guards 3 t.acts := by
  have hruns : (run (step guarded) (start guarded)
    [.round 0 [] none, copyChunk 0, copyChunk 1, .streamEnds, .next, .next, .next]).isSome := by
    decide
  refine ⟨_, (Option.some_get hruns).symm, rfl, fun h => ?_⟩
  have hfew := h [.ready (copy 0), .ready (copy 1)] [.suppressed (copy 1)] (copy 0) rfl
  have hnone : executions (copy 0) [.ready (copy 0), .ready (copy 1)] = 0 := rfl
  omega

end MiqroForge.Kun.Loop
