import MiqroForge.Workbench.Output

/-!
What reaches the buffers and the callback: a run gives the complete output of both streams iff
it ends no reader that has something left to read below the cap.
-/

namespace MiqroForge.Workbench

open PyText List

section Draining
variable {cap : Option Nat} {onChunk : Bool} {decode : Bytes → Text}

/-! ## Clipping -/

theorem clip_eq_self {seen : Bytes} (h : exceeds cap seen = false) : clip cap seen = seen := by
  cases cap with
  | none => rfl
  | some cap => exact take_of_length_le (by simpa [exceeds] using h)

theorem clip_append {seen more : Bytes} (h : exceeds cap seen = true) :
    clip cap (seen ++ more) = clip cap seen := by
  cases cap with
  | none => cases h
  | some cap =>
    have hlt : cap < seen.length := by simpa [exceeds] using h
    exact take_append_of_le_length (Nat.le_of_lt hlt)

theorem exceeds_append {seen : Bytes} (more : Bytes) (h : exceeds cap seen = true) :
    exceeds cap (seen ++ more) = true := by
  cases cap with
  | none => cases h
  | some cap =>
    have hlt : cap < seen.length := by simpa [exceeds] using h
    simp only [exceeds, Option.any_some, decide_eq_true_eq, length_append]
    omega

/-! ## One chunk -/

/-- What a reader has done with `seen`. -/
structure Holds (cap : Option Nat) (r : Reader) (seen : Bytes) : Prop where
  buffer : r.buffer = clip cap seen
  capReached : r.capReached = exceeds cap seen

/-- A chunk is added to the buffer as far as the cap allows, and reported as it is added; the
first chunk beyond the cap is reported as such. -/
theorem accept_spec {r : Reader} {seen : Bytes} (h : Holds cap r seen) (chunk : Bytes) :
    Holds cap (r.accept cap chunk).1 (seen ++ chunk) ∧
      (r.accept cap chunk).1.pending = r.pending ∧
      (r.accept cap chunk).1.buffer =
        r.buffer ++ ((r.accept cap chunk).2.map Prod.fst).getD [] ∧
      (if (r.accept cap chunk).1.capReached then 1 else 0) =
        (if r.capReached then 1 else 0) +
          if ((r.accept cap chunk).2.map Prod.snd).getD false then 1 else 0 := by
  unfold Reader.accept
  cases hover : exceeds cap seen with
  | true =>
    have hreached : r.capReached = true := h.capReached.trans hover
    rw [if_pos hreached]
    refine ⟨⟨?_, ?_⟩, rfl, (append_nil _).symm, rfl⟩
    · rw [h.buffer, clip_append hover]
    · rw [hreached, exceeds_append chunk hover]
  | false =>
    have hreached : r.capReached = false := h.capReached.trans hover
    have hbuffer : r.buffer = seen := h.buffer.trans (clip_eq_self hover)
    rw [if_neg (by rw [hreached]; exact Bool.false_ne_true), hbuffer, ← length_append]
    cases cap with
    | none => exact ⟨⟨rfl, hreached⟩, rfl, rfl, by simp [hreached]⟩
    | some cap =>
      have hle : seen.length ≤ cap := by simpa [exceeds] using hover
      simp only [Option.any_some, decide_eq_true_eq, Option.getD_some]
      by_cases hlong : cap < (seen ++ chunk).length
      · have hlonger : exceeds (some cap) (seen ++ chunk) = true := by simpa [exceeds] using hlong
        have hclip : clip (some cap) (seen ++ chunk) = seen ++ chunk.take (cap - seen.length) := by
          change (seen ++ chunk).take cap = _
          rw [take_append, take_of_length_le hle]
        rw [if_pos hlong]
        by_cases hroom : 0 < cap - seen.length
        · rw [if_pos hroom]
          exact ⟨⟨hclip.symm, hlonger.symm⟩, rfl, rfl, by simp [hreached]⟩
        · have hzero : cap - seen.length = 0 := by omega
          rw [if_neg hroom]
          refine ⟨⟨?_, hlonger.symm⟩, rfl, ?_, by simp [hreached]⟩
          · rw [hclip, hzero, take_zero, append_nil]
          · exact (append_nil seen).symm
      · have hshort : exceeds (some cap) (seen ++ chunk) = false := by simpa [exceeds] using hlong
        rw [if_neg hlong]
        exact ⟨⟨(clip_eq_self hshort).symm, hreached.trans hshort.symm⟩, rfl, rfl,
          by simp [hreached]⟩

/-! ## One step -/

/-- What is true of a stream of which `written` is written. -/
structure Kept (cap : Option Nat) (onChunk : Bool) (written : Bytes) (st : Run) (s : Stream) :
    Prop where
  nonempty : ∀ chunk ∈ (st.readers s).pending, chunk ≠ []
  holds : ∃ seen, written = seen ++ (st.readers s).pending.flatten ∧
    Holds cap (st.readers s) seen
  chunks : onChunk = true →
    (chunksOf s st.log).flatMap OutputChunk.data = (st.readers s).buffer
  reported : onChunk = true → (chunksOf s st.log).countP OutputChunk.capReached =
    if (st.readers s).capReached then 1 else 0

/-- A change that leaves what a reader has read and reported. -/
structure SameOutput (st st' : Run) (s : Stream) : Prop where
  pending : (st'.readers s).pending = (st.readers s).pending
  buffer : (st'.readers s).buffer = (st.readers s).buffer
  capReached : (st'.readers s).capReached = (st.readers s).capReached
  log : chunksOf s st'.log = chunksOf s st.log

variable {written : Bytes}

theorem SameOutput.kept {st st' : Run} {s : Stream} (h : SameOutput st st' s)
    (hkept : Kept cap onChunk written st s) : Kept cap onChunk written st' s := by
  obtain ⟨seen, hwritten, hholds⟩ := hkept.holds
  refine ⟨h.pending ▸ hkept.nonempty, ⟨seen, h.pending ▸ hwritten, ?_, ?_⟩, ?_, ?_⟩
  · exact h.buffer.trans hholds.buffer
  · exact h.capReached.trans hholds.capReached
  · rw [h.log, h.buffer]
    exact hkept.chunks
  · rw [h.log, h.capReached]
    exact hkept.reported

theorem setReader_self (st : Run) (s : Stream) (r : Reader) :
    (st.setReader s r).readers s = r := by
  simp [Run.setReader]

theorem setReader_of_ne {st : Run} {s s' : Stream} {r : Reader} (h : s' ≠ s) :
    (st.setReader s r).readers s' = st.readers s' := by
  simp [Run.setReader, h]

theorem sameOutput_setReader (st : Run) (s s' : Stream) {r : Reader}
    (hpending : r.pending = (st.readers s).pending) (hbuffer : r.buffer = (st.readers s).buffer)
    (hcap : r.capReached = (st.readers s).capReached) : SameOutput st (st.setReader s r) s' := by
  by_cases h : s' = s
  · rw [h]
    exact ⟨by rw [setReader_self, hpending], by rw [setReader_self, hbuffer],
      by rw [setReader_self, hcap], rfl⟩
  · exact ⟨by rw [setReader_of_ne h], by rw [setReader_of_ne h], by rw [setReader_of_ne h], rfl⟩

theorem sameOutput_stop (st : Run) (s s' : Stream) (main : Main) :
    SameOutput st { st.stop s with main := main } s' := by
  unfold Run.stop
  dsimp only
  split
  · exact ⟨rfl, rfl, rfl, rfl⟩
  · have h := sameOutput_setReader st s s' (r := { st.readers s with phase := .cancelled }) rfl rfl
      rfl
    exact ⟨h.pending, h.buffer, h.capReached, h.log⟩

variable {st st' : Run} {e : Event}

theorem step_cases (h : step cap onChunk decode st e = some st') :
    (∃ s chunk rest, e = .read s ∧ (st.readers s).phase = .reading ∧
      (st.readers s).pending = chunk :: rest ∧ st' = st.read cap onChunk s chunk rest) ∨
    ∀ s, SameOutput st st' s := by
  cases e with
  | read s =>
    simp only [step] at h
    split at h
    · cases h
      exact Or.inl ⟨s, _, _, rfl, by assumption, by assumption, rfl⟩
    · cases h
  | resume s =>
    simp only [step] at h
    split at h
    · cases h
      exact Or.inr fun s' => sameOutput_setReader st s s' rfl rfl rfl
    · cases h
  | eof s =>
    simp only [step] at h
    split at h
    · cases h
      exact Or.inr fun s' => sameOutput_setReader st s s' rfl rfl rfl
    · cases h
  | exited code =>
    simp only [step] at h
    split at h
    · cases h
      exact Or.inr fun s' => ⟨rfl, rfl, rfl, rfl⟩
    · cases h
  | stop =>
    simp only [step] at h
    split at h
    · cases h
      exact Or.inr fun s' => sameOutput_stop st .stdout s' _
    · cases h
      exact Or.inr fun s' => sameOutput_stop st .stderr s' _
    · cases h

theorem chunksOf_append_of_ne {s s' : Stream} (h : s' ≠ s) (log : List OutputChunk)
    (given : Option (Bytes × Bool)) :
    chunksOf s' (log ++ (given.map fun out => ⟨s, out.1, out.2⟩).toList) = chunksOf s' log := by
  cases given with
  | none => exact congrArg (chunksOf s') (append_nil log)
  | some out => simp [chunksOf, Ne.symm h]

theorem chunksOf_append_self (s : Stream) (log : List OutputChunk)
    (given : Option (Bytes × Bool)) :
    chunksOf s (log ++ (given.map fun out => ⟨s, out.1, out.2⟩).toList) =
      chunksOf s log ++ (given.map fun out => ⟨s, out.1, out.2⟩).toList := by
  cases given with
  | none => simp [chunksOf]
  | some out => simp [chunksOf]

theorem Kept.read {st : Run} {s s' : Stream} {chunk : Bytes} {rest : List Bytes}
    (hpending : (st.readers s).pending = chunk :: rest)
    (h : Kept cap onChunk written st s') :
    Kept cap onChunk written (st.read cap onChunk s chunk rest) s' := by
  by_cases hs : s' = s
  · subst hs
    obtain ⟨seen, hwritten, hholds⟩ := h.holds
    have hstart : Holds cap { st.readers s' with pending := rest } seen :=
      ⟨hholds.buffer, hholds.capReached⟩
    obtain ⟨hseen, hrest, hbuffer, hcount⟩ := accept_spec hstart chunk
    have hnonempty := h.nonempty
    rw [hpending] at hnonempty hwritten
    refine ⟨?_, ⟨seen ++ chunk, ?_, ?_⟩, ?_, ?_⟩
    · simp only [Run.read, setReader_self, hrest]
      exact fun c hc => hnonempty c (mem_cons_of_mem chunk hc)
    · simp only [Run.read, setReader_self, hrest]
      rw [hwritten, flatten_cons, append_assoc]
    · simp only [Run.read, setReader_self]
      exact ⟨hseen.buffer, hseen.capReached⟩
    · intro hon
      simp only [Run.read, setReader_self, hon, if_true, chunksOf_append_self, hbuffer,
        flatMap_append, h.chunks hon]
      cases (Reader.accept cap { st.readers s' with pending := rest } chunk).2 with
      | none => rfl
      | some out => simp
    · intro hon
      simp only [Run.read, setReader_self, hon, if_true, chunksOf_append_self, hcount,
        countP_append, h.reported hon]
      cases (Reader.accept cap { st.readers s' with pending := rest } chunk).2 with
      | none => rfl
      | some out => simp [countP_singleton]
  · refine SameOutput.kept ⟨?_, ?_, ?_, ?_⟩ h
    · exact congrArg Reader.pending (setReader_of_ne hs)
    · exact congrArg Reader.buffer (setReader_of_ne hs)
    · exact congrArg Reader.capReached (setReader_of_ne hs)
    · exact chunksOf_append_of_ne hs st.log _

theorem Kept.step {st st' : Run} {e : Event} {s : Stream}
    (h : Kept cap onChunk written st s) (hstep : step cap onChunk decode st e = some st') :
    Kept cap onChunk written st' s := by
  rcases step_cases hstep with ⟨s', chunk, rest, -, -, hpending, rfl⟩ | hsame
  · exact h.read hpending
  · exact (hsame s).kept h

/-! ## The end of the readers -/

/-- The reader of `s` has been ended. -/
def Run.Stopped (st : Run) (s : Stream) : Prop :=
  match st.main with
  | .waiting => False
  | .stopping _ next => s = .stdout ∧ next = .stderr
  | .returned _ => True

def TaskPhase.ended (phase : TaskPhase) : Bool := phase = .done || phase = .cancelled

theorem stop_reader (st : Run) (s s' : Stream) (main : Main)
    (h : s' = s → ((st.readers s).phase).ended = true) :
    ({ st.stop s with main := main }).readers s' = st.readers s' := by
  unfold Run.stop
  dsimp only
  split
  case isTrue => rfl
  case isFalse hdone =>
    by_cases hs : s' = s
    · have hcancelled : (st.readers s).phase = .cancelled := by
        have hended := h hs
        simp only [TaskPhase.ended, Bool.or_eq_true, decide_eq_true_eq] at hended
        exact hended.resolve_left hdone
      have hself : { st.readers s with phase := TaskPhase.cancelled } = st.readers s := by
        rw [← hcancelled]
      rw [hs]
      exact (setReader_self st s _).trans hself
    · exact setReader_of_ne hs

theorem step_ended {s : Stream}
    (h : step cap onChunk decode st e = some st') (hended : ((st.readers s).phase).ended = true) :
    st'.readers s = st.readers s := by
  have hne : ∀ s', ((st.readers s').phase).ended = false → s ≠ s' := by
    rintro s' hphase rfl
    rw [hended] at hphase
    cases hphase
  cases e with
  | read s' =>
    simp only [step] at h
    split at h
    case h_1 _ _ _ _ hphase _ =>
      cases h
      exact setReader_of_ne (hne s' (by rw [hphase]; rfl))
    case h_2 => cases h
  | resume s' =>
    simp only [step] at h
    split at h
    case isTrue hphase =>
      cases h
      exact setReader_of_ne (hne s' (by rw [hphase]; rfl))
    case isFalse => cases h
  | eof s' =>
    simp only [step] at h
    split at h
    case h_1 _ _ hphase _ =>
      cases h
      exact setReader_of_ne (hne s' (by rw [hphase]; rfl))
    case h_2 => cases h
  | exited code =>
    simp only [step] at h
    split at h
    · cases h
      rfl
    · cases h
  | stop =>
    simp only [step] at h
    split at h
    · cases h
      exact stop_reader st .stdout s _ fun hs => hs ▸ hended
    · cases h
      exact stop_reader st .stderr s _ fun hs => hs ▸ hended
    · cases h

theorem stop_ended (st : Run) (s : Stream) (main : Main) :
    ((({ st.stop s with main := main }).readers s).phase).ended = true := by
  unfold Run.stop
  dsimp only
  split
  case isTrue hdone =>
    rw [hdone]
    rfl
  case isFalse =>
    have hself : (st.setReader s { st.readers s with phase := .cancelled }).readers s = _ :=
      setReader_self st s _
    rw [hself]
    rfl

theorem step_stop (h : step cap onChunk decode st .stop = some st') :
    ∃ code s, st.main = .stopping code s ∧ ((st'.readers s).phase).ended = true ∧
      ∀ s', st'.Stopped s' → s' = s ∨ st.Stopped s' := by
  simp only [step] at h
  split at h
  case h_1 code hmain =>
    cases h
    exact ⟨code, .stdout, hmain, stop_ended st .stdout _, fun s' hs' => Or.inl hs'.1⟩
  case h_2 code hmain =>
    cases h
    refine ⟨code, .stderr, hmain, stop_ended st .stderr _, fun s' _ => ?_⟩
    cases s' with
    | stdout =>
      refine Or.inr ?_
      rw [Run.Stopped, hmain]
      exact ⟨rfl, rfl⟩
    | stderr => exact Or.inl rfl
  case h_3 => cases h

theorem main_of_step (he : e ≠ .stop)
    (h : step cap onChunk decode st e = some st') :
    st'.main = st.main ∨ ∃ code, st'.main = .stopping code .stdout := by
  cases e with
  | read s' =>
    simp only [step] at h
    split at h
    · cases h
      exact Or.inl rfl
    · cases h
  | resume s' =>
    simp only [step] at h
    split at h
    · cases h
      exact Or.inl rfl
    · cases h
  | eof s' =>
    simp only [step] at h
    split at h
    · cases h
      exact Or.inl rfl
    · cases h
  | exited code =>
    simp only [step] at h
    split at h
    · cases h
      exact Or.inr ⟨code, rfl⟩
    · cases h
  | stop => exact absurd rfl he

theorem stopped_of_step {s : Stream} (he : e ≠ .stop)
    (h : step cap onChunk decode st e = some st') (hs : st'.Stopped s) : st.Stopped s := by
  unfold Run.Stopped at hs ⊢
  rcases main_of_step he h with hmain | ⟨code, hmain⟩
  · rw [hmain] at hs
    exact hs
  · rw [hmain] at hs
    cases hs.2

/-- The readers that were ended have ended, and could be ended. -/
def EndedWell (cap : Option Nat) (onChunk : Bool) (st : Run) : Prop :=
  ∀ s, st.Stopped s →
    ((st.readers s).phase).ended = true ∧ Settled cap onChunk (st.readers s)

theorem endedWell_step (h : EndedWell cap onChunk st)
    (hgood : Drained cap onChunk st e) (hstep : step cap onChunk decode st e = some st') :
    EndedWell cap onChunk st' := by
  intro s hs
  have hbefore : st.Stopped s → ((st'.readers s).phase).ended = true ∧
      Settled cap onChunk (st'.readers s) := by
    intro hstopped
    obtain ⟨hended, hsettled⟩ := h s hstopped
    rw [step_ended hstep hended]
    exact ⟨hended, hsettled⟩
  by_cases he : e = .stop
  · subst he
    obtain ⟨code, s', hmain, hended, hstopped⟩ := step_stop hstep
    rcases hstopped s hs with rfl | hstopped
    · refine ⟨hended, ?_⟩
      have hsettled := hgood code s hmain
      rcases step_cases hstep with ⟨s', chunk, rest, he, -⟩ | hsame
      · cases he
      · have hout := hsame s
        unfold Settled
        rw [hout.pending, hout.buffer, hout.capReached]
        exact hsettled
    · exact hbefore hstopped
  · exact hbefore (stopped_of_step he hstep hs)

theorem drained_iff {st t : Run} {es : List Event} {exit : ProcessExit} (hmain : st.main = .waiting)
    (hrun : Steps.run (step cap onChunk decode) st es = some t)
    (hreturned : t.main = .returned exit) :
    Steps.GoodRun (step cap onChunk decode) (Drained cap onChunk) st es ↔
      ∀ s, Settled cap onChunk (t.readers s) := by
  have hstopped : ∀ s, t.Stopped s := by
    intro s
    rw [Run.Stopped, hreturned]
    trivial
  constructor
  · intro hgood s
    have hstart : EndedWell cap onChunk st := by
      intro s hs
      rw [Run.Stopped, hmain] at hs
      cases hs
    exact (Steps.goodRun_invariant _ (Drained cap onChunk) (EndedWell cap onChunk)
      (fun u e v hu he hstep => endedWell_step hu he hstep) st t es hstart hrun hgood s
      (hstopped s)).2
  · intro hsettled
    by_contra hbad
    obtain ⟨before, e, after, u, v, rfl, hbefore, -, hstep, hnot⟩ :=
      Steps.exists_first_bad _ _ st t es hrun hbad
    have he : e = .stop := by
      cases e with
      | stop => rfl
      | _ => exact absurd trivial hnot
    subst he
    obtain ⟨code, s, hstop, hended, -⟩ := step_stop hstep
    have hunsettled : ¬ Settled cap onChunk (u.readers s) := by
      intro h
      refine hnot fun code' s' hmain' => ?_
      rw [hstop] at hmain'
      cases hmain'
      exact h
    -- behind its end the reader stays as it is
    have hafter : Steps.run (step cap onChunk decode) v after = some t := by
      rw [Steps.run_append, hbefore, Option.bind_some, Steps.run_cons_of_step _ _ hstep] at hrun
      exact hrun
    have hlast : t.readers s = v.readers s :=
      Steps.run_invariant (step cap onChunk decode) (fun w => w.readers s = v.readers s)
        (fun w e w' hw hstep => (step_ended hstep (hw ▸ hended)).trans hw) v t after rfl hafter
    have hfinal := hsettled s
    rw [hlast] at hfinal
    refine hunsettled ?_
    rcases step_cases hstep with ⟨s', chunk, rest, he, -⟩ | hsame
    · cases he
    · have hout := hsame s
      unfold Settled at hfinal ⊢
      rw [hout.pending, hout.buffer, hout.capReached] at hfinal
      exact hfinal

/-! ## The exit -/

/-- The ended readers have ended, and a result has the texts of the buffers. -/
structure Reported (decode : Bytes → Text) (st : Run) : Prop where
  ended : ∀ s, st.Stopped s → ((st.readers s).phase).ended = true
  exit : ∀ exit, st.main = .returned exit → exit.stdout = decode (st.readers .stdout).buffer ∧
    exit.stderr = decode (st.readers .stderr).buffer

theorem reported_step (h : Reported decode st)
    (hstep : step cap onChunk decode st e = some st') : Reported decode st' := by
  have hkeep : ∀ s, st.Stopped s → ((st'.readers s).phase).ended = true := by
    intro s hs
    rw [step_ended hstep (h.ended s hs)]
    exact h.ended s hs
  by_cases he : e = .stop
  · subst he
    refine ⟨fun s hs => ?_, fun exit hexit => ?_⟩
    · obtain ⟨code, s', -, hended, hstopped⟩ := step_stop hstep
      rcases hstopped s hs with rfl | hs
      · exact hended
      · exact hkeep s hs
    · simp only [step] at hstep
      split at hstep
      · cases hstep
        cases hexit
      · cases hstep
        cases hexit
        exact ⟨rfl, rfl⟩
      · cases hstep
  · refine ⟨fun s hs => hkeep s (stopped_of_step he hstep hs), fun exit hexit => ?_⟩
    rcases main_of_step he hstep with hmain | ⟨code, hmain⟩
    · rw [hmain] at hexit
      have hstopped : ∀ s, st.Stopped s := by
        intro s
        rw [Run.Stopped, hexit]
        trivial
      rw [step_ended hstep (h.ended .stdout (hstopped .stdout)),
        step_ended hstep (h.ended .stderr (hstopped .stderr))]
      exact h.exit exit hexit
    · rw [hmain] at hexit
      cases hexit

theorem kept_start (stdout stderr : Chunking) :
    Kept cap onChunk stdout.bytes (start stdout stderr) .stdout ∧
      Kept cap onChunk stderr.bytes (start stdout stderr) .stderr := by
  have hunder : exceeds cap [] = false := by cases cap <;> simp [exceeds]
  have hnothing : clip cap [] = [] := clip_eq_self hunder
  exact ⟨⟨stdout.nonempty, ⟨[], rfl, hnothing.symm, hunder.symm⟩, fun _ => rfl, fun _ => rfl⟩,
    ⟨stderr.nonempty, ⟨[], rfl, hnothing.symm, hunder.symm⟩, fun _ => rfl, fun _ => rfl⟩⟩

theorem complete_iff {st : Run} {s : Stream} {text : Text}
    (h : Kept cap onChunk written st s) (htext : text = decode (st.readers s).buffer) :
    Complete cap onChunk decode written st s text ↔ Settled cap onChunk (st.readers s) := by
  obtain ⟨seen, hwritten, hbuffer, hreached⟩ := h.holds
  constructor
  · intro hcomplete
    by_cases hpending : (st.readers s).pending = []
    · exact Or.inl hpending
    cases hover : exceeds cap seen with
    | true => exact Or.inr (Or.inl (hreached.trans hover))
    | false =>
      -- all that was seen is in the buffer, and it is all that fits
      obtain ⟨chunk, rest, hcons⟩ := exists_cons_of_ne_nil hpending
      have hchunk := h.nonempty chunk (hcons ▸ mem_cons_self)
      have hlonger : seen.length < written.length := by
        have hpos := length_pos_iff.mpr hchunk
        rw [hwritten, hcons, flatten_cons, length_append, length_append]
        omega
      rw [clip_eq_self hover] at hbuffer
      have hclip : seen = clip cap written := hbuffer.symm.trans hcomplete.buffer
      cases cap with
      | none =>
        rw [hclip] at hlonger
        exact absurd hlonger (Nat.lt_irrefl _)
      | some cap =>
        have hlength := congrArg List.length hclip
        have htake : (clip (some cap) written).length = min cap written.length :=
          length_take
        rw [htake] at hlength
        have hfull : cap = seen.length := by omega
        have hdropped : exceeds (some cap) written = true := by
          simp only [exceeds, Option.any_some, decide_eq_true_eq]
          omega
        cases hon : onChunk with
        | false => exact Or.inr (Or.inr ⟨rfl, by rw [hbuffer, hfull]⟩)
        | true =>
          have hcount := hcomplete.capReached hon
          rw [h.reported hon, hreached, hover, hdropped] at hcount
          cases hcount
  · intro hsettled
    have hsame : clip cap seen = clip cap written ∧
        (onChunk = true → exceeds cap seen = exceeds cap written) := by
      rcases hsettled with hpending | hover | ⟨hon, hcap⟩
      · rw [hpending, flatten_nil, append_nil] at hwritten
        rw [hwritten]
        exact ⟨rfl, fun _ => rfl⟩
      · have hover := hreached.symm.trans hover
        rw [hwritten, clip_append hover, hover, exceeds_append _ hover]
        exact ⟨rfl, fun _ => rfl⟩
      · refine ⟨?_, fun htrue => absurd (htrue.symm.trans hon) Bool.noConfusion⟩
        subst hcap
        have hlength := congrArg List.length hbuffer
        have htake : (clip (some (st.readers s).buffer.length) seen).length =
            min (st.readers s).buffer.length seen.length := length_take
        rw [htake] at hlength
        rw [hwritten]
        exact (take_append_of_le_length (by omega)).symm
    obtain ⟨hclip, hover⟩ := hsame
    refine ⟨hbuffer.trans hclip, ?_, fun hon => ?_, fun hon => ?_⟩
    · rw [htext, hbuffer, hclip]
    · rw [h.chunks hon, hbuffer, hclip]
    · rw [h.reported hon, hreached, hover hon]

end Draining

/-! ## Two runs -/

/-- Two reads of one byte each. -/
def twoReads : Chunking := ⟨[[97], [98]], by decide⟩

def silent : Chunking := ⟨[], by decide⟩

def drainedEvents : List Event :=
  [.read .stdout, .resume .stdout, .read .stdout, .resume .stdout, .eof .stdout, .eof .stderr,
    .exited 0, .stop, .stop]

end MiqroForge.Workbench
