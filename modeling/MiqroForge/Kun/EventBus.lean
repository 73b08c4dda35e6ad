import MiqroForge.Library.NumberedLog
import MiqroForge.Library.Steps
import Mathlib.Data.List.ReduceOption

/-!
`EventBus` and `RuntimeEventRecorder.record`: the numbered events of a thread, and subscribers
that replay the history and then follow their queue. A step of a subscriber goes from one `yield`
to the next, or to the `que.get()` where it waits.
-/

namespace MiqroForge.Kun.EventBus

open Steps NumberedLog Function EventBus List

/-- An event as the recorder stores it. -/
structure Event (α : Type) where
  payload : α
  seq : Nat
  timestamp : String
  deriving DecidableEq

/-- A generator of `subscribe` that has been started: the rest of its history replay, its queue
(`none` is the sentinel), and what its consumer has received. -/
structure Subscriber (α : Type) where
  thread : String
  replay : List (Event α)
  queue : List (Option (Event α))
  received : List (Event α)
  finished : Bool

structure Bus (α : Type) where
  events : String → List (Event α)
  nextSeq : String → Nat
  queues : String → List Nat
  subscribers : Nat → Option (Subscriber α)

variable {α : Type}

def init : Bus α where
  events := fun _ => []
  nextSeq := fun _ => 0
  queues := fun _ => []
  subscribers := fun _ => none

def allocateSeq (s : Bus α) (thread : String) : Bus α × Nat :=
  let seq := s.nextSeq thread + 1
  ({ s with nextSeq := update s.nextSeq thread seq }, seq)

def Subscriber.push (x : Option (Event α)) (g : Subscriber α) : Subscriber α :=
  { g with queue := g.queue ++ [x] }

/-- `que.put_nowait(x)`; the queues are unbounded. -/
def put (x : Option (Event α)) (subs : Nat → Option (Subscriber α)) (i : Nat) :
    Nat → Option (Subscriber α) :=
  update subs i ((subs i).map (Subscriber.push x))

def notifySubscribers (s : Bus α) (thread : String) (e : Event α) : Bus α :=
  { s with subscribers := (s.queues thread).foldl (put (some e)) s.subscribers }

def append (s : Bus α) (thread : String) (e : Event α) : Bus α :=
  notifySubscribers { s with
    events := update s.events thread (s.events thread ++ [e]) } thread e

def history (s : Bus α) (thread : String) (since : Int) : List (Event α) :=
  if since ≤ 0 then s.events thread else (s.events thread).filter fun e => since < e.seq

/-- `RuntimeEventRecorder.record`: no `await` between the number and the notification. -/
def record (s : Bus α) (thread : String) (payload : α) (now : String) : Bus α :=
  let (t, seq) := allocateSeq s thread
  append t thread ⟨payload, seq, now⟩

def setSubscriber (s : Bus α) (i : Nat) (g : Subscriber α) : Bus α :=
  { s with subscribers := update s.subscribers i (some g) }

/-- The `finally` clause of the generator. -/
def detach (s : Bus α) (i : Nat) (g : Subscriber α) : Bus α :=
  { setSubscriber s i { g with finished := true } with
    queues := update s.queues g.thread ((s.queues g.thread).erase i) }

/-- From one `yield` to the next. -/
def resume (s : Bus α) (i : Nat) (g : Subscriber α) : Bus α :=
  match g.replay with
  | e :: replay => setSubscriber s i { g with replay := replay, received := g.received ++ [e] }
  | [] =>
    match g.queue with
    | some e :: queue => setSubscriber s i { g with queue := queue, received := g.received ++ [e] }
    | none :: queue => detach s i { g with queue := queue }
    -- `await que.get()`
    | [] => setSubscriber s i g

def register (s : Bus α) (i : Nat) (thread : String) : Bus α :=
  { s with queues := update s.queues thread (s.queues thread ++ [i]) }

/-- The first step of the generator: it registers its queue and takes the history without a
suspension in between. -/
def subscribe (s : Bus α) (i : Nat) (thread : String) (since : Int) : Bus α :=
  let t := register s i thread
  resume t i ⟨thread, history t thread since, [], [], false⟩

def unsubscribeAll (s : Bus α) (thread : String) : Bus α :=
  { s with
    queues := update s.queues thread []
    subscribers := (s.queues thread).foldl (put none) s.subscribers }

inductive Action (α : Type)
  | record (thread : String) (payload : α) (now : String)
  | subscribe (i : Nat) (thread : String) (since : Int)
  | next (i : Nat)
  | close (i : Nat)
  | unsubscribeAll (thread : String)

def step (s : Bus α) : Action α → Option (Bus α)
  | .record thread payload now =>
    -- "event must have a non-empty threadId"
    if thread = "" then none else some (record s thread payload now)
  | .subscribe i thread since =>
    match s.subscribers i with
    | some _ => none
    | none => some (subscribe s i thread since)
  | .next i =>
    match s.subscribers i with
    | some g => if g.finished then none else some (resume s i g)
    | none => none
  | .close i =>
    match s.subscribers i with
    | some g => if g.finished then none else some (detach s i g)
    | none => none
  | .unsubscribeAll thread => some (unsubscribeAll s thread)

/-! ## Queues -/

theorem foldl_put (x : Option (Event α)) (is : List Nat) (his : is.Nodup)
    (subs : Nat → Option (Subscriber α)) (j : Nat) :
    is.foldl (put x) subs j = if j ∈ is then (subs j).map (Subscriber.push x) else subs j := by
  induction is generalizing subs with
  | nil => rfl
  | cons i is ih =>
    obtain ⟨hi, his⟩ := nodup_cons.mp his
    rw [foldl_cons, ih his]
    by_cases hj : j = i
    · subst hj
      simp [hi, put]
    · simp [hj, put]

/-- What a subscriber has received and what is on its way to it. -/
def Subscriber.sent (g : Subscriber α) : List (Event α) :=
  g.received ++ g.replay ++ g.queue.reduceOption

@[simp] theorem sent_push_some (g : Subscriber α) (e : Event α) :
    (g.push (some e)).sent = g.sent ++ [e] := by
  simp [Subscriber.sent, Subscriber.push, reduceOption_append]

@[simp] theorem sent_push_none (g : Subscriber α) : (g.push none).sent = g.sent := by
  simp [Subscriber.sent, Subscriber.push, reduceOption_append]

/-! ## The bus -/

structure Inv (s : Bus α) : Prop where
  numbered : ∀ thread, Numbered Event.seq (s.events thread)
  next : ∀ thread, s.nextSeq thread = (s.events thread).length
  distinct : ∀ thread, (s.queues thread).Nodup
  registered : ∀ thread, ∀ i ∈ s.queues thread,
    ∃ g, s.subscribers i = some g ∧ g.thread = thread

theorem Inv.init : Inv (init : Bus α) :=
  ⟨fun _ => numbered_nil, fun _ => rfl, fun _ => nodup_nil, nofun⟩

/-- The subscriber `i` is sent the events above `low`, all of them as long as it is registered. -/
structure Follows (s : Bus α) (i : Nat) (thread : String) (low : Int) (g : Subscriber α) :
    Prop where
  known : s.subscribers i = some g
  same : g.thread = thread
  started : low ≤ (s.events thread).length
  sent : g.sent <+: above Event.seq low (s.events thread)
  all : i ∈ s.queues thread → g.sent = above Event.seq low (s.events thread)

variable {s : Bus α} {i : Nat}

variable {g : Subscriber α}

theorem setSubscriber_self (h : s.subscribers i = some g) : setSubscriber s i g = s := by
  rw [setSubscriber, ← h, update_eq_self]

theorem Inv.changed (h : Inv (setSubscriber s i g))
    (g' : Subscriber α) (hthread : g'.thread = g.thread) :
    Inv (setSubscriber s i g') := by
  refine ⟨h.numbered, h.next, h.distinct, fun thread j hj => ?_⟩
  obtain ⟨g₀, hg₀, hsame⟩ := h.registered thread j hj
  by_cases hji : j = i
  · subst hji
    obtain rfl : g = g₀ := by simpa [setSubscriber] using hg₀
    exact ⟨g', by simp [setSubscriber], hthread.trans hsame⟩
  · exact ⟨g₀, by simpa [setSubscriber, hji] using hg₀, hsame⟩

theorem mem_detach {i j : Nat} {g : Subscriber α} {thread : String}
    (h : j ∈ (detach s i g).queues thread) : j ∈ s.queues thread := by
  simp only [detach] at h
  by_cases hthread : thread = g.thread
  · subst hthread
    rw [update_self] at h
    exact mem_of_mem_erase h
  · rwa [update_of_ne hthread] at h

theorem Inv.detach (h : Inv (setSubscriber s i g)) :
    Inv (detach s i g) := by
  have hset := h.changed { g with finished := true } rfl
  refine ⟨hset.numbered, hset.next, fun thread => ?_, fun thread j hj =>
    hset.registered thread j (mem_detach hj)⟩
  simp only [EventBus.detach]
  by_cases hthread : thread = g.thread
  · subst hthread
    rw [update_self]
    exact (h.distinct g.thread).erase i
  · rw [update_of_ne hthread]
    exact h.distinct thread

theorem Inv.resume (h : Inv (setSubscriber s i g)) :
    Inv (resume s i g) := by
  unfold EventBus.resume
  split
  · exact h.changed _ rfl
  · split
    · exact h.changed _ rfl
    · exact Inv.detach (h.changed _ rfl)
    · exact h

/-! ## What a subscriber is sent -/

theorem Follows.frame {s t : Bus α} {i : Nat} {thread : String} {low : Int} {g : Subscriber α}
    (h : Follows s i thread low g) (hevents : t.events = s.events)
    (hknown : t.subscribers i = s.subscribers i)
    (hqueues : i ∈ t.queues thread → i ∈ s.queues thread) : Follows t i thread low g := by
  refine ⟨hknown.trans h.known, h.same, ?_, ?_, fun hi => ?_⟩
  · exact hevents ▸ h.started
  · exact hevents ▸ h.sent
  · exact hevents ▸ h.all (hqueues hi)

variable {thread : String}

theorem Follows.changed {low : Int}
    {g : Subscriber α} (h : Follows (setSubscriber s i g) i thread low g) (g' : Subscriber α)
    (hthread : g'.thread = g.thread) (hsent : g'.sent = g.sent) :
    Follows (setSubscriber s i g') i thread low g' := by
  refine ⟨by simp [setSubscriber], hthread.trans h.same, h.started, ?_, fun hi => ?_⟩
  · exact hsent ▸ h.sent
  · exact hsent.trans (h.all hi)

theorem Follows.detach {low : Int} {g : Subscriber α}
    (h : Follows (setSubscriber s i g) i thread low g) :
    Follows (detach s i g) i thread low { g with finished := true } :=
  (h.changed { g with finished := true } rfl rfl).frame rfl rfl mem_detach

theorem Follows.resume {low : Int} {g : Subscriber α}
    (h : Follows (setSubscriber s i g) i thread low g) :
    ∃ g', Follows (resume s i g) i thread low g' := by
  unfold EventBus.resume
  split
  case h_1 e replay hreplay =>
    exact ⟨_, h.changed _ rfl (by simp [Subscriber.sent, hreplay])⟩
  case h_2 hreplay =>
    split
    case h_1 e queue hqueue =>
      exact ⟨_, h.changed _ rfl (by simp [Subscriber.sent, hreplay, hqueue])⟩
    case h_2 queue hqueue =>
      exact ⟨_, Follows.detach (h.changed _ rfl (by simp [Subscriber.sent, hqueue]))⟩
    case h_3 => exact ⟨g, h⟩

theorem resume_frame (s : Bus α) {i j : Nat} (g : Subscriber α) (hj : j ≠ i) :
    (resume s i g).events = s.events ∧ (resume s i g).subscribers j = s.subscribers j ∧
      ∀ thread, j ∈ (resume s i g).queues thread → j ∈ s.queues thread := by
  unfold resume
  split
  · exact ⟨rfl, update_of_ne hj _ _, fun _ hq => hq⟩
  · split
    · exact ⟨rfl, update_of_ne hj _ _, fun _ hq => hq⟩
    · exact ⟨rfl, update_of_ne hj _ _, fun _ hq => mem_detach hq⟩
    · exact ⟨rfl, update_of_ne hj _ _, fun _ hq => hq⟩

theorem Follows.thread_of_mem (hs : Inv s) {i : Nat} {thread thread' : String}
    {low : Int} {g : Subscriber α} (h : Follows s i thread low g) (hi : i ∈ s.queues thread') :
    thread' = thread := by
  obtain ⟨g₀, hg₀, hsame⟩ := hs.registered thread' i hi
  obtain rfl := Option.some.inj (h.known.symm.trans hg₀)
  exact hsame.symm.trans h.same

theorem Inv.put (h : Inv s) (thread : String) (x : Option (Event α)) :
    ∀ thread', ∀ i ∈ s.queues thread', ∃ g,
      (s.queues thread).foldl (put x) s.subscribers i = some g ∧ g.thread = thread' := by
  intro thread' i hi
  obtain ⟨g, hg, hsame⟩ := h.registered thread' i hi
  rw [foldl_put x _ (h.distinct thread), hg]
  split
  · exact ⟨g.push x, rfl, hsame⟩
  · exact ⟨g, rfl, hsame⟩

theorem Inv.record (h : Inv s) (thread : String) (payload : α) (now : String) :
    Inv (record s thread payload now) := by
  refine ⟨fun thread' => ?_, fun thread' => ?_, h.distinct, h.put thread _⟩
  · show Numbered Event.seq (update s.events thread _ thread')
    by_cases hthread : thread' = thread
    · subst hthread
      rw [update_self]
      exact (h.numbered thread').snoc (congrArg (· + 1) (h.next thread'))
    · rw [update_of_ne hthread]
      exact h.numbered thread'
  · show update s.nextSeq thread _ thread' =
      (update s.events thread _ thread').length
    by_cases hthread : thread' = thread
    · subst hthread
      rw [update_self, update_self, length_append, length_singleton,
        h.next]
    · rw [update_of_ne hthread, update_of_ne hthread]
      exact h.next thread'

theorem Follows.record (hs : Inv s) {i : Nat} {thread : String} {low : Int}
    {g : Subscriber α} (h : Follows s i thread low g) (thread' : String) (payload : α)
    (now : String) : ∃ g', Follows (record s thread' payload now) i thread low g' := by
  have hput := foldl_put (some ⟨payload, s.nextSeq thread' + 1, now⟩) _ (hs.distinct thread')
    s.subscribers i
  rw [h.known] at hput
  by_cases hthread : thread' = thread
  · subst hthread
    have hlow : low < ((s.nextSeq thread' + 1 : Nat) : Int) := by
      have := h.started
      rw [hs.next]
      omega
    have hevents : (EventBus.record s thread' payload now).events thread' =
        s.events thread' ++ [⟨payload, s.nextSeq thread' + 1, now⟩] := update_self ..
    have habove := above_snoc Event.seq
      ⟨payload, s.nextSeq thread' + 1, now⟩ hlow (s.events thread')
    by_cases hi : i ∈ s.queues thread'
    · rw [if_pos hi] at hput
      have hsent : (g.push (some ⟨payload, s.nextSeq thread' + 1, now⟩)).sent =
          above Event.seq low ((EventBus.record s thread' payload now).events thread') := by
        rw [hevents, habove, sent_push_some, h.all hi]
      refine ⟨_, hput, h.same, ?_, hsent ▸ prefix_refl _, fun _ => hsent⟩
      rw [hevents, length_append]
      have := h.started
      omega
    · rw [if_neg hi] at hput
      refine ⟨g, hput, h.same, ?_, ?_, fun hin => absurd hin hi⟩
      · rw [hevents, length_append]
        have := h.started
        omega
      · rw [hevents, habove]
        exact h.sent.trans (prefix_append _ _)
  · have hi : i ∉ s.queues thread' := fun hi => hthread (h.thread_of_mem hs hi)
    rw [if_neg hi] at hput
    have hevents : (EventBus.record s thread' payload now).events thread = s.events thread :=
      update_of_ne (Ne.symm hthread) _ _
    refine ⟨g, hput, h.same, ?_, ?_, fun hin => ?_⟩
    · exact hevents ▸ h.started
    · exact hevents ▸ h.sent
    · exact hevents ▸ h.all hin

theorem Inv.unsubscribeAll (h : Inv s) (thread : String) :
    Inv (unsubscribeAll s thread) := by
  have hsub : ∀ thread', ∀ i ∈ (EventBus.unsubscribeAll s thread).queues thread',
      i ∈ s.queues thread' := by
    intro thread' i hi
    simp only [EventBus.unsubscribeAll] at hi
    by_cases hthread : thread' = thread
    · subst hthread
      rw [update_self] at hi
      cases hi
    · rwa [update_of_ne hthread] at hi
  refine ⟨h.numbered, h.next, fun thread' => ?_, fun thread' i hi =>
    h.put thread none thread' i (hsub thread' i hi)⟩
  show (update s.queues thread [] thread').Nodup
  by_cases hthread : thread' = thread
  · subst hthread
    rw [update_self]
    exact nodup_nil
  · rw [update_of_ne hthread]
    exact h.distinct thread'

theorem Follows.unsubscribeAll (hs : Inv s) {i : Nat} {thread : String} {low : Int}
    {g : Subscriber α} (h : Follows s i thread low g) (thread' : String) :
    ∃ g', Follows (unsubscribeAll s thread') i thread low g' := by
  have hput := foldl_put none _ (hs.distinct thread') s.subscribers i
  rw [h.known] at hput
  by_cases hi : i ∈ s.queues thread'
  · obtain rfl := h.thread_of_mem hs hi
    rw [if_pos hi] at hput
    refine ⟨_, hput, h.same, h.started, ?_, fun hin => ?_⟩
    · exact (sent_push_none g).symm ▸ h.sent
    · simp [EventBus.unsubscribeAll] at hin
  · rw [if_neg hi] at hput
    refine ⟨g, hput, h.same, h.started, h.sent, fun hin => h.all ?_⟩
    simp only [EventBus.unsubscribeAll] at hin
    by_cases hthread : thread = thread'
    · subst hthread
      simp at hin
    · rwa [update_of_ne hthread] at hin

theorem mem_register {i j : Nat} {thread thread' : String} :
    j ∈ (register s i thread).queues thread' ↔
      j ∈ s.queues thread' ∨ j = i ∧ thread' = thread := by
  unfold register
  by_cases hthread : thread' = thread
  · subst hthread
    simp
  · simp [hthread]

theorem Inv.not_mem_of_new (h : Inv s) {i : Nat} (hnew : s.subscribers i = none)
    (thread : String) : i ∉ s.queues thread := by
  intro hi
  obtain ⟨g, hg, -⟩ := h.registered thread i hi
  rw [hnew] at hg
  cases hg

theorem Inv.register (h : Inv s) {i : Nat} (hnew : s.subscribers i = none)
    {thread : String} {g : Subscriber α} (hthread : g.thread = thread) :
    Inv (setSubscriber (register s i thread) i g) := by
  refine ⟨h.numbered, h.next, fun thread' => ?_, fun thread' j hj => ?_⟩
  · show (update s.queues thread _ thread').Nodup
    by_cases hth : thread' = thread
    · subst hth
      rw [update_self]
      exact nodup_append.mpr ⟨h.distinct thread', pairwise_singleton _ _,
        fun a ha b hb => by
          obtain rfl := mem_singleton.mp hb
          rintro rfl
          exact h.not_mem_of_new hnew thread' ha⟩
    · rw [update_of_ne hth]
      exact h.distinct thread'
  · show ∃ g', update s.subscribers i (some g) j = some g' ∧ _
    rcases mem_register.mp hj with hold | ⟨rfl, rfl⟩
    · have hji : j ≠ i := by
        rintro rfl
        exact h.not_mem_of_new hnew thread' hold
      rw [update_of_ne hji]
      exact h.registered thread' j hold
    · exact ⟨g, update_self .., hthread⟩

theorem Inv.subscribe (h : Inv s) {i : Nat} (hnew : s.subscribers i = none)
    (thread : String) (since : Int) : Inv (subscribe s i thread since) :=
  Inv.resume (h.register hnew rfl)

theorem Inv.history (h : Inv s) (thread : String) (since : Int) :
    history s thread since =
      above Event.seq (min since (s.nextSeq thread)) (s.events thread) := by
  unfold EventBus.history
  have hnumbered := h.numbered thread
  rw [h.next]
  split
  case isTrue hsince =>
    rw [hnumbered.above_of_nonpos (by omega)]
  case isFalse =>
    by_cases hlow : since ≤ (s.events thread).length
    · have hmin : min since ((s.events thread).length : Int) = since := by omega
      rw [hmin]
      rfl
    · have hmin : min since ((s.events thread).length : Int) = (s.events thread).length := by omega
      rw [hmin, hnumbered.above_of_length_le (Int.le_refl _)]
      exact hnumbered.above_of_length_le (by omega)

theorem Follows.subscribe (h : Inv s) (i : Nat) (thread : String) (since : Int) :
    ∃ g, Follows (subscribe s i thread since) i thread (min since (s.nextSeq thread)) g := by
  have hsent : (⟨thread, history s thread since, [], [], false⟩ : Subscriber α).sent =
      above Event.seq (min since (s.nextSeq thread)) (s.events thread) := by
    rw [← h.history]
    simp [Subscriber.sent]
  refine Follows.resume ⟨update_self .., rfl, ?_, ?_, fun _ => hsent⟩
  · show min since (s.nextSeq thread : Int) ≤ (s.events thread).length
    rw [← h.next]
    omega
  · exact hsent ▸ prefix_refl _

/-! ## Runs -/

theorem Inv.step {s t : Bus α} {e : Action α} (h : Inv s) (hstep : step s e = some t) : Inv t := by
  cases e with
  | record thread payload now =>
    simp only [EventBus.step] at hstep
    split at hstep
    case isTrue => cases hstep
    case isFalse =>
      cases hstep
      exact h.record thread payload now
  | subscribe i thread since =>
    simp only [EventBus.step] at hstep
    split at hstep
    case h_1 => cases hstep
    case h_2 hnew =>
      cases hstep
      exact h.subscribe hnew thread since
  | next i =>
    simp only [EventBus.step] at hstep
    split at hstep
    case h_2 => cases hstep
    case h_1 g hg =>
      split at hstep
      case isTrue => cases hstep
      case isFalse =>
        cases hstep
        exact Inv.resume ((setSubscriber_self hg).symm ▸ h)
  | close i =>
    simp only [EventBus.step] at hstep
    split at hstep
    case h_2 => cases hstep
    case h_1 g hg =>
      split at hstep
      case isTrue => cases hstep
      case isFalse =>
        cases hstep
        exact Inv.detach ((setSubscriber_self hg).symm ▸ h)
  | unsubscribeAll thread =>
    cases hstep
    exact h.unsubscribeAll thread

theorem Follows.step {s t : Bus α} (hs : Inv s) {i : Nat} {thread : String} {low : Int}
    {g : Subscriber α} (h : Follows s i thread low g) {e : Action α}
    (hstep : step s e = some t) : ∃ g', Follows t i thread low g' := by
  cases e with
  | record thread' payload now =>
    simp only [EventBus.step] at hstep
    split at hstep
    case isTrue => cases hstep
    case isFalse =>
      cases hstep
      exact h.record hs thread' payload now
  | subscribe j thread' since =>
    simp only [EventBus.step] at hstep
    split at hstep
    case h_1 => cases hstep
    case h_2 hnew =>
      cases hstep
      have hij : i ≠ j := by
        rintro rfl
        rw [h.known] at hnew
        cases hnew
      obtain ⟨hevents, hknown, hqueues⟩ := resume_frame (register s j thread')
        ⟨thread', history s thread' since, [], [], false⟩ hij
      refine ⟨g, h.frame hevents hknown fun hi => ?_⟩
      exact (mem_register.mp (hqueues thread hi)).resolve_right fun hj => hij hj.1
  | next j =>
    simp only [EventBus.step] at hstep
    split at hstep
    case h_2 => cases hstep
    case h_1 g₀ hg₀ =>
      split at hstep
      case isTrue => cases hstep
      case isFalse =>
        cases hstep
        by_cases hij : i = j
        · subst hij
          obtain rfl := Option.some.inj (h.known.symm.trans hg₀)
          exact Follows.resume ((setSubscriber_self hg₀).symm ▸ h)
        · obtain ⟨hevents, hknown, hqueues⟩ := resume_frame s g₀ hij
          exact ⟨g, h.frame hevents hknown (hqueues thread)⟩
  | close j =>
    simp only [EventBus.step] at hstep
    split at hstep
    case h_2 => cases hstep
    case h_1 g₀ hg₀ =>
      split at hstep
      case isTrue => cases hstep
      case isFalse =>
        cases hstep
        by_cases hij : i = j
        · subst hij
          obtain rfl := Option.some.inj (h.known.symm.trans hg₀)
          exact ⟨_, Follows.detach ((setSubscriber_self hg₀).symm ▸ h)⟩
        · exact ⟨g, h.frame rfl (update_of_ne hij _ _) mem_detach⟩
  | unsubscribeAll thread' =>
    cases hstep
    exact h.unsubscribeAll hs thread'

/-- The events the consumer of a subscriber has received. -/
def received (s : Bus α) (i : Nat) : List (Event α) :=
  match s.subscribers i with
  | some g => g.received
  | none => []

theorem Follows.received {low : Int} {g : Subscriber α}
    (h : Follows s i thread low g) :
    received s i <+: above Event.seq low (s.events thread) := by
  rw [EventBus.received, h.known]
  refine List.IsPrefix.trans ?_ h.sent
  rw [Subscriber.sent, append_assoc]
  exact prefix_append _ _

theorem follows_after {before after : List (Action α)} {i : Nat} {thread : String} {since : Int}
    {u t : Bus α} (hbefore : run step init before = some u)
    (hrun : run step u (.subscribe i thread since :: after) = some t) :
    Inv t ∧ ∃ g, Follows t i thread (min since (u.nextSeq thread)) g := by
  have hu := run_invariant step Inv (fun _ _ _ h hstep => h.step hstep) init u before Inv.init
    hbefore
  obtain ⟨v, hv, hafter⟩ := run_cons_some step hrun
  have hfollows : ∃ g, Follows v i thread (min since (u.nextSeq thread)) g := by
    simp only [step] at hv
    split at hv
    case h_1 => cases hv
    case h_2 =>
      cases hv
      exact Follows.subscribe hu i thread since
  refine run_invariant step
    (fun s => Inv s ∧ ∃ g, Follows s i thread (min since (u.nextSeq thread)) g) ?_ v t after
    ⟨hu.step hv, hfollows⟩ hafter
  rintro s e s' ⟨hs, g, hg⟩ hstep
  exact ⟨hs.step hstep, hg.step hs hstep⟩

/-- **Delivery.** A subscriber started with `since` when the last number of the thread is `n` has
received, at any point, the first of the events above `min since n`, in the order of their
numbers, without gap and without duplicate: the events above `since` when `since ≤ n`, and the
events recorded after the start in every case. -/
theorem delivered (before after : List (Action α)) (i : Nat) (thread : String) (since : Int)
    (u t : Bus α) (hbefore : run step init before = some u)
    (hrun : run step u (.subscribe i thread since :: after) = some t) :
    received t i <+: (t.events thread).filter
        (fun e => min since (u.nextSeq thread) < (e.seq : Int)) ∧
      (received t i).map Event.seq =
        List.range' ((min since (u.nextSeq thread)).toNat + 1) (received t i).length := by
  obtain ⟨ht, g, hg⟩ := follows_after hbefore hrun
  exact ⟨hg.received, (ht.numbered thread).map_initial hg.received⟩

/-- A registered subscriber that waits in `que.get()` has received all of them. -/
theorem caught_up {before after : List (Action α)} {i : Nat} {thread : String} {since : Int}
    {u t : Bus α} (hbefore : run step init before = some u)
    (hrun : run step u (.subscribe i thread since :: after) = some t)
    (hregistered : i ∈ t.queues thread)
    (hwaits : ∀ g, t.subscribers i = some g → g.replay = [] ∧ g.queue = []) :
    received t i =
      (t.events thread).filter fun e => min since (u.nextSeq thread) < (e.seq : Int) := by
  obtain ⟨-, g, hg⟩ := follows_after hbefore hrun
  obtain ⟨hreplay, hqueue⟩ := hwaits g hg.known
  have hall := hg.all hregistered
  rw [Subscriber.sent, hreplay, hqueue] at hall
  rw [received, hg.known]
  simpa [above] using hall

/-- Two events before the start, one between the replay and the live events. -/
def recorded : List (Action Unit) := [.record "a" () "t0", .record "a" () "t1"]

def followed : List (Action Unit) := [.subscribe 0 "a" 1, .record "a" () "t2", .next 0]

theorem recorded_runs : (run step init recorded).isSome := by decide

theorem followed_runs :
    (run step ((run step init recorded).get recorded_runs) followed).isSome := by
  decide

theorem delivered_followed : ∃ t : Bus Unit, (received t 0).map Event.seq = [2, 3] ∧
    received t 0 <+: (t.events "a").filter (fun e => (1 : Int) < e.seq) := by
  have h := delivered recorded [.record "a" () "t2", .next 0] 0 "a" 1 _ _
    (Option.some_get recorded_runs).symm (Option.some_get followed_runs).symm
  refine ⟨_, ?_, h.1⟩
  exact h.2

/-- A subscriber that starts above the last number. -/
def ahead : List (Action Unit) := [.subscribe 0 "a" 5, .record "a" () "t0", .next 0]

theorem ahead_runs : (run step init ahead).isSome := by decide

theorem ahead_received : ¬ ∀ u t : Bus Unit, run step init [] = some u →
    run step u ahead = some t →
    received t 0 <+: (t.events "a").filter (fun e => (5 : Int) < e.seq) := by
  intro h
  have hprefix := h init _ rfl (Option.some_get ahead_runs).symm
  exact absurd hprefix.length_le (by decide)

end MiqroForge.Kun.EventBus
