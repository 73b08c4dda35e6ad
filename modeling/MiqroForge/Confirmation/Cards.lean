import MiqroForge.Kun.InputGate
import MiqroForge.Library.PyText

/-!
Confirm cards on the chat path: the emitters of the drains, the threads they serve, and who may
resolve a card. The cards themselves wait in the gate of `Kun.InputGate`.
-/

namespace MiqroForge.Confirmation

open Steps PyText Function
open Kun (InputGate.Gate)

/-- What a `_drain_chat_events` task closes over. -/
structure Drain where
  session : Text
  key : Text
  thread : Text
  deriving DecidableEq

/-- A request of `ask_user_confirm_card`: whose turn makes it, and the emitter it has found. -/
structure Card where
  session : Text
  thread : Text
  rememberKey : Option Text
  emitter : Drain

structure State where
  running : Nat → Option Drain
  emitters : Text → Option Drain
  threadSessions : Text → Option Text
  sessions : Text → List Text
  remembered : Text → Text → Bool
  cards : Nat → Option Card
  gate : InputGate.Gate
  /-- Each card with the session its `user_input_requested` event went to. -/
  emitted : List (Nat × Text)
  /-- Each resolved card with the client that resolved it. -/
  resolved : List (Nat × Text)

def init : State where
  running := fun _ => none
  emitters := fun _ => none
  threadSessions := fun _ => none
  sessions := fun _ => []
  remembered := fun _ _ => false
  cards := fun _ => none
  gate := Kun.InputGate.init
  emitted := []
  resolved := []

inductive Event
  | authorize (client session : Text)
  | stopSession (session : Text)
  | drainStarts (n : Nat) (d : Drain)
  | drainEnds (n : Nat)
  | request (r : Nat) (session thread : Text) (turn : Nat) (rememberKey : Option Text)
  | gate (e : Kun.InputGate.Event)
  | resolve (client : Text) (r : Nat) (remember : Bool)

/-- `session_for_thread(thread_id) or thread_id`. -/
def sessionFor (s : State) (thread : Text) : Text :=
  match s.threadSessions thread with
  | some key => if key = [] then thread else key
  | none => thread

/-- `sid == owner_session or sid.endswith(f":{owner_session}")`. -/
def Matches (sid ownerSession : Text) : Prop :=
  sid = ownerSession ∨ ':' :: ownerSession <:+ sid

instance (sid ownerSession : Text) : Decidable (Matches sid ownerSession) :=
  inferInstanceAs (Decidable (_ ∨ _))

/-- `owned` in the handler of `userInput.resolve`. -/
def Owned (s : State) (client ownerSession : Text) : Prop :=
  ∃ sid ∈ s.sessions client, Matches sid ownerSession

instance (s : State) (client ownerSession : Text) : Decidable (Owned s client ownerSession) :=
  inferInstanceAs (Decidable (∃ sid ∈ s.sessions client, _))

/-- The requests that have become pending announce their cards. -/
def advance (s : State) (gate : InputGate.Gate) : State :=
  { s with
    gate := gate
    emitted := ((gate.pending.filter fun r => decide (r ∉ s.gate.pending)).filterMap fun r =>
      (s.cards r).map fun card => (r, card.emitter.session)) ++ s.emitted }

/-- The steps that the gate takes without the bridge. -/
def Inner : Kun.InputGate.Event → Prop
  | .call _ _ _ => False
  | .resolve _ => False
  | _ => True

instance : DecidablePred Inner := fun e => by
  cases e <;> (unfold Inner; infer_instance)

def step (s : State) : Event → Option State
  | .authorize client session =>
    some { s with sessions := update s.sessions client (session :: s.sessions client) }
  | .stopSession session =>
    some { s with sessions := fun client => (s.sessions client).filter (· ≠ session) }
  | .drainStarts n d =>
    if (s.running n).isSome then none
    else
      some { s with
        running := update s.running n (some d)
        emitters := update s.emitters d.key (some d)
        threadSessions := update s.threadSessions d.thread (some d.key) }
  | .drainEnds n =>
    match s.running n with
    | none => none
    | some d =>
      some { s with
        running := update s.running n none
        emitters := update s.emitters d.key none
        threadSessions := update s.threadSessions d.thread none }
  | .request r session thread turn rememberKey =>
    if (s.cards r).isSome then none
    -- reused WITHOUT popping a card
    else if ∃ key ∈ rememberKey, s.remembered thread key = true then some s
    else
      match s.emitters (sessionFor s thread) with
      | none => some s
      | some emitter =>
        (Kun.InputGate.step s.gate (.call r turn true)).map fun gate =>
          advance { s with
            cards := update s.cards r (some ⟨session, thread, rememberKey, emitter⟩) } gate
  | .gate e => if Inner e then (Kun.InputGate.step s.gate e).map (advance s) else none
  | .resolve client r remember =>
    match s.cards r with
    | none => some s
    | some card =>
      if r ∈ s.gate.pending ∧ Owned s client (sessionFor s card.thread) then
        (Kun.InputGate.step s.gate (.resolve r)).map fun gate =>
          { advance s gate with
            resolved := (r, client) :: s.resolved
            remembered := fun thread key =>
              s.remembered thread key ||
                remember && decide (thread = card.thread) && decide (card.rememberKey = some key) }
      else some s

/-! ## Cards belong to their session -/

/-- What a step owes the cards: a card is announced to its own session, a request made while a
drain of its session runs gets a card unless its choice is remembered, and only a client of the
card's session resolves it. -/
structure Belongs (s : State) (e : Event) (t : State) : Prop where
  emitted : ∀ r session card, (r, session) ∈ t.emitted → t.cards r = some card →
    session = card.session
  announced : ∀ r, r ∈ t.gate.pending → ∃ session, (r, session) ∈ t.emitted
  raised : ∀ r session thread turn rememberKey, e = .request r session thread turn rememberKey →
    (∃ n d, s.running n = some d ∧ d.session = session) →
    (¬ ∃ key ∈ rememberKey, s.remembered thread key = true) → (t.cards r).isSome
  answered : ∀ r client, (r, client) ∈ t.resolved → (r, client) ∈ s.resolved ∨
    ∃ card, s.cards r = some card ∧ card.session ∈ s.sessions client

/-- The running drain that the thread leads to is one of the session, or none runs that could be
taken for it. -/
def Reaches (s : State) (session thread : Text) : Prop :=
  (∃ n d, s.running n = some d ∧ d.session = session ∧
    (d.thread = thread ∨
      d.key = thread ∧ ∀ m d', s.running m = some d' → d'.thread ≠ thread)) ∨
  ∀ n d, s.running n = some d → d.session ≠ session ∧ d.thread ≠ thread ∧ d.key ≠ thread

/-- Drains run under names of their own, a turn's thread leads to its session, and no session id
of a foreign client can be taken for the card's. -/
def Distinct (s : State) : Event → Prop
  | .drainStarts _ d => d.key ≠ [] ∧
      ∀ m d', s.running m = some d' → d'.key ≠ d.key ∧ d'.thread ≠ d.thread
  | .request _ session thread _ _ => Reaches s session thread
  | .resolve client r _ => ∀ card, s.cards r = some card → card.session ∉ s.sessions client →
      ∀ sid ∈ s.sessions client, ¬ Matches sid (sessionFor s card.thread)
  | _ => True

/-! ## The tables of distinct drains -/

/-- The tables say exactly what the running drains have registered. -/
structure Tables (s : State) : Prop where
  emitters : ∀ key d, s.emitters key = some d ↔ ∃ n, s.running n = some d ∧ d.key = key
  threads : ∀ thread key, s.threadSessions thread = some key ↔
    ∃ n d, s.running n = some d ∧ d.thread = thread ∧ d.key = key
  named : ∀ n d, s.running n = some d → d.key ≠ []
  keys : ∀ n m d d', s.running n = some d → s.running m = some d' → d.key = d'.key → n = m
  apart : ∀ n m d d', s.running n = some d → s.running m = some d' → d.thread = d'.thread → n = m

theorem Tables.init : Tables init where
  emitters := fun key d => by simp [Confirmation.init]
  threads := fun thread key => by simp [Confirmation.init]
  named := fun n d h => by cases h
  keys := fun n m d d' h => by cases h
  apart := fun n m d d' h => by cases h

variable {s : State}

theorem Tables.emitter (h : Tables s) (thread : Text) {d : Drain} :
    s.emitters (sessionFor s thread) = some d ↔
      ∃ n, s.running n = some d ∧ (d.thread = thread ∨
        d.key = thread ∧ ∀ m d', s.running m = some d' → d'.thread ≠ thread) := by
  unfold sessionFor
  cases hthread : s.threadSessions thread with
  | some key =>
    obtain ⟨n, d₀, hn, hd₀, rfl⟩ := (h.threads thread key).mp hthread
    simp only [h.named n d₀ hn, if_false, h.emitters]
    constructor
    · rintro ⟨m, hm, hkey⟩
      obtain rfl := h.keys m n d d₀ hm hn hkey
      obtain rfl := Option.some.inj (hm.symm.trans hn)
      exact ⟨m, hm, .inl hd₀⟩
    · rintro ⟨m, hm, hd | ⟨-, hnone⟩⟩
      · obtain rfl := h.apart m n d d₀ hm hn (hd.trans hd₀.symm)
        obtain rfl := Option.some.inj (hm.symm.trans hn)
        exact ⟨m, hm, rfl⟩
      · exact absurd hd₀ (hnone n d₀ hn)
  | none =>
    have hnone : ∀ m d', s.running m = some d' → d'.thread ≠ thread := by
      intro m d' hm hd'
      have := (h.threads thread d'.key).mpr ⟨m, d', hm, hd', rfl⟩
      rw [hthread] at this
      cases this
    simp only [h.emitters]
    constructor
    · rintro ⟨m, hm, hkey⟩
      exact ⟨m, hm, .inr ⟨hkey, hnone⟩⟩
    · rintro ⟨m, hm, hd | ⟨hkey, -⟩⟩
      · exact absurd hd (hnone m d hm)
      · exact ⟨m, hm, hkey⟩

theorem Tables.starts (h : Tables s) {n : Nat} {d : Drain}
    (hn : s.running n = none) (hkey : d.key ≠ [])
    (hfresh : ∀ m d', s.running m = some d' → d'.key ≠ d.key ∧ d'.thread ≠ d.thread) :
    Tables { s with
      running := update s.running n (some d)
      emitters := update s.emitters d.key (some d)
      threadSessions := update s.threadSessions d.thread (some d.key) } := by
  have hrun : ∀ m d', update s.running n (some d) m = some d' ↔
      m = n ∧ d' = d ∨ s.running m = some d' := by
    intro m d'
    by_cases hm : m = n
    · subst hm
      simp [hn, eq_comm]
    · simp [hm]
  refine ⟨fun key d' => ?_, fun thread key => ?_, fun m d' hm => ?_, fun m m' e e' hm hm' heq => ?_,
    fun m m' e e' hm hm' heq => ?_⟩
  · simp only [hrun]
    by_cases hk : key = d.key
    · subst hk
      rw [update_self]
      constructor
      · intro heq
        cases heq
        exact ⟨n, .inl ⟨rfl, rfl⟩, rfl⟩
      · rintro ⟨m, ⟨-, rfl⟩ | hm, heq⟩
        · rfl
        · exact absurd heq (hfresh m d' hm).1
    · rw [update_of_ne hk, h.emitters]
      constructor
      · rintro ⟨m, hm, heq⟩
        exact ⟨m, .inr hm, heq⟩
      · rintro ⟨m, ⟨-, rfl⟩ | hm, heq⟩
        · exact absurd heq.symm hk
        · exact ⟨m, hm, heq⟩
  · simp only [hrun]
    by_cases ht : thread = d.thread
    · subst ht
      rw [update_self]
      constructor
      · intro heq
        exact ⟨n, d, .inl ⟨rfl, rfl⟩, rfl, Option.some.inj heq⟩
      · rintro ⟨m, d', ⟨-, rfl⟩ | hm, heq, rfl⟩
        · rfl
        · exact absurd heq (hfresh m d' hm).2
    · rw [update_of_ne ht, h.threads]
      constructor
      · rintro ⟨m, d', hm, heq⟩
        exact ⟨m, d', .inr hm, heq⟩
      · rintro ⟨m, d', ⟨-, rfl⟩ | hm, heq, hkey'⟩
        · exact absurd heq.symm ht
        · exact ⟨m, d', hm, heq, hkey'⟩
  · rcases (hrun m d').mp hm with ⟨-, rfl⟩ | hm
    · exact hkey
    · exact h.named m d' hm
  · rcases (hrun m e).mp hm with ⟨rfl, rfl⟩ | hold <;>
      rcases (hrun m' e').mp hm' with ⟨rfl, rfl⟩ | hold'
    · rfl
    · exact absurd heq.symm (hfresh m' e' hold').1
    · exact absurd heq (hfresh m e hold).1
    · exact h.keys m m' e e' hold hold' heq
  · rcases (hrun m e).mp hm with ⟨rfl, rfl⟩ | hold <;>
      rcases (hrun m' e').mp hm' with ⟨rfl, rfl⟩ | hold'
    · rfl
    · exact absurd heq.symm (hfresh m' e' hold').2
    · exact absurd heq (hfresh m e hold).2
    · exact h.apart m m' e e' hold hold' heq

theorem Tables.ends (h : Tables s) {n : Nat} {d : Drain} (hn : s.running n = some d) :
    Tables { s with
      running := update s.running n none
      emitters := update s.emitters d.key none
      threadSessions := update s.threadSessions d.thread none } := by
  have hrun : ∀ m d', update s.running n none m = some d' ↔
      m ≠ n ∧ s.running m = some d' := by
    intro m d'
    by_cases hm : m = n
    · subst hm
      simp
    · simp [hm]
  refine ⟨fun key d' => ?_, fun thread key => ?_, fun m d' hm => ?_, fun m m' e e' hm hm' heq => ?_,
    fun m m' e e' hm hm' heq => ?_⟩
  · simp only [hrun]
    by_cases hk : key = d.key
    · subst hk
      simp only [update_self, reduceCtorEq, false_iff]
      rintro ⟨m, ⟨hne, hm⟩, heq⟩
      exact hne (h.keys m n d' d hm hn heq)
    · rw [update_of_ne hk, h.emitters]
      constructor
      · rintro ⟨m, hm, heq⟩
        refine ⟨m, ⟨?_, hm⟩, heq⟩
        rintro rfl
        obtain rfl := Option.some.inj (hm.symm.trans hn)
        exact hk heq.symm
      · rintro ⟨m, ⟨-, hm⟩, heq⟩
        exact ⟨m, hm, heq⟩
  · simp only [hrun]
    by_cases ht : thread = d.thread
    · subst ht
      simp only [update_self, reduceCtorEq, false_iff]
      rintro ⟨m, d', ⟨hne, hm⟩, heq, -⟩
      exact hne (h.apart m n d' d hm hn heq)
    · rw [update_of_ne ht, h.threads]
      constructor
      · rintro ⟨m, d', hm, heq, hkey⟩
        refine ⟨m, d', ⟨?_, hm⟩, heq, hkey⟩
        rintro rfl
        obtain rfl := Option.some.inj (hm.symm.trans hn)
        exact ht heq.symm
      · rintro ⟨m, d', ⟨-, hm⟩, heq⟩
        exact ⟨m, d', hm, heq⟩
  · exact h.named m d' ((hrun m d').mp hm).2
  · exact h.keys m m' e e' ((hrun m e).mp hm).2 ((hrun m' e').mp hm').2 heq
  · exact h.apart m m' e e' ((hrun m e).mp hm).2 ((hrun m' e').mp hm').2 heq

/-! ## The gate under the bridge -/

/-- The cards of the gate, and where those that were announced have gone. -/
structure Announced (s : State) : Prop where
  cards : ∀ r, r ∈ s.gate.queued ∨ r ∈ s.gate.pending → (s.cards r).isSome
  emitters : ∀ r card, s.cards r = some card → card.emitter.session = card.session
  emitted : ∀ r session card, (r, session) ∈ s.emitted → s.cards r = some card →
    session = card.session
  known : ∀ r session, (r, session) ∈ s.emitted → (s.cards r).isSome
  announced : ∀ r, r ∈ s.gate.pending → ∃ session, (r, session) ∈ s.emitted

theorem Announced.init : Announced init where
  cards := fun r h => by simp [Confirmation.init, Kun.InputGate.init] at h
  emitters := fun r card h => by cases h
  emitted := fun r session card h => by cases h
  known := fun r session h => by cases h
  announced := fun r h => by cases h

theorem mem_advance {gate : InputGate.Gate} {r : Nat} {session : Text} :
    (r, session) ∈ (advance s gate).emitted ↔
      (r, session) ∈ s.emitted ∨ r ∈ gate.pending ∧ r ∉ s.gate.pending ∧
        ∃ card, s.cards r = some card ∧ card.emitter.session = session := by
  simp only [advance, List.mem_append, List.mem_filterMap, List.mem_filter, decide_eq_true_eq,
    Option.map_eq_some_iff, Prod.mk.injEq]
  constructor
  · rintro (⟨r', ⟨hmem, hnot⟩, card, hcard, rfl, rfl⟩ | h)
    · exact .inr ⟨hmem, hnot, card, hcard, rfl⟩
    · exact .inl h
  · rintro (h | ⟨hmem, hnot, card, hcard, rfl⟩)
    · exact .inr h
    · exact .inl ⟨r, ⟨hmem, hnot⟩, card, hcard, rfl, rfl⟩

theorem Announced.advance (h : Announced s) {gate : InputGate.Gate}
    (hknown : ∀ r, r ∈ gate.queued ∨ r ∈ gate.pending → (s.cards r).isSome) :
    Announced (advance s gate) where
  cards := hknown
  emitters := h.emitters
  emitted := fun r session card hr hcard => by
    rcases mem_advance.mp hr with hr | ⟨-, -, card', hcard', rfl⟩
    · exact h.emitted r session card hr hcard
    · obtain rfl := Option.some.inj (hcard'.symm.trans hcard)
      exact h.emitters r card' hcard'
  known := fun r session hr => by
    rcases mem_advance.mp hr with hr | ⟨-, -, card, hcard, -⟩
    · exact h.known r session hr
    · exact Option.isSome_of_eq_some hcard
  announced := fun r hr => by
    by_cases hold : r ∈ s.gate.pending
    · obtain ⟨session, hmem⟩ := h.announced r hold
      exact ⟨session, mem_advance.mpr (.inl hmem)⟩
    · obtain ⟨card, hcard⟩ := Option.isSome_iff_exists.mp (hknown r (.inr hr))
      exact ⟨card.emitter.session, mem_advance.mpr (.inr ⟨hr, hold, card, hcard, rfl⟩)⟩

theorem Announced.add (h : Announced s) {r : Nat} {card : Card}
    (hnew : s.cards r = none) (hsession : card.emitter.session = card.session) :
    Announced { s with cards := update s.cards r (some card) } := by
  have hother : ∀ r', (s.cards r').isSome → r' ≠ r := by
    rintro r' hsome rfl
    rw [hnew] at hsome
    cases hsome
  have hkeep : ∀ r', (s.cards r').isSome → (update s.cards r (some card) r').isSome := by
    intro r' hsome
    rw [update_of_ne (hother r' hsome)]
    exact hsome
  refine ⟨fun r' hr' => hkeep r' (h.cards r' hr'), fun r' card' hcard => ?_,
    fun r' session card' hr' hcard => ?_, fun r' session hr' => hkeep r' (h.known r' session hr'),
    h.announced⟩
  · by_cases hrr : r' = r
    · subst hrr
      obtain rfl : card = card' := by simpa using hcard
      exact hsession
    · exact h.emitters r' card' (by simpa [hrr] using hcard)
  · have hrr := hother r' (h.known r' session hr')
    exact h.emitted r' session card' hr' (by simpa [hrr] using hcard)

/-! ## Runs -/

structure Inv (s : State) : Prop where
  tables : Tables s
  announced : Announced s

theorem Inv.init : Inv init := ⟨Tables.init, Announced.init⟩

theorem Tables.reaches (h : Tables s) {session thread : Text}
    (hreach : Reaches s session thread) :
    (∃ d, s.emitters (sessionFor s thread) = some d ∧ d.session = session) ∨
      s.emitters (sessionFor s thread) = none ∧ ∀ n d, s.running n = some d → d.session ≠ session := by
  rcases hreach with ⟨n, d, hn, hsession, hd⟩ | hnone
  · exact .inl ⟨d, (h.emitter thread).mpr ⟨n, hn, hd⟩, hsession⟩
  · refine .inr ⟨?_, fun n d hn => (hnone n d hn).1⟩
    cases hfound : s.emitters (sessionFor s thread) with
    | none => rfl
    | some d =>
      obtain ⟨n, hn, hd | ⟨hd, -⟩⟩ := (h.emitter thread).mp hfound
      · exact absurd hd (hnone n d hn).2.1
      · exact absurd hd (hnone n d hn).2.2

theorem Announced.call (h : Announced s) {r turn : Nat} (card : Card)
    {gate : InputGate.Gate} (hnew : s.cards r = none)
    (hsession : card.emitter.session = card.session)
    (hgate : Kun.InputGate.step s.gate (.call r turn true) = some gate) :
    Announced (Confirmation.advance
      { s with cards := update s.cards r (some card) } gate) := by
  have hadd := h.add hnew hsession
  refine hadd.advance fun r' hr' => ?_
  rcases Kun.InputGate.known_of_step hgate hr' with hr' | ⟨_, _, heq⟩
  · exact hadd.cards r' hr'
  · obtain ⟨rfl, -, -⟩ := Kun.InputGate.Event.call.inj heq
    simp

theorem Announced.inner (h : Announced s) {e : Kun.InputGate.Event}
    {gate : InputGate.Gate} (hcall : ∀ r turn callback, e ≠ .call r turn callback)
    (hgate : Kun.InputGate.step s.gate e = some gate) :
    Announced (Confirmation.advance s gate) := by
  refine h.advance fun r hr => ?_
  rcases Kun.InputGate.known_of_step hgate hr with hr | ⟨turn, callback, heq⟩
  · exact h.cards r hr
  · exact absurd heq (hcall r turn callback)

/-- **Step lemma.** A step of distinct drains keeps the tables and gives the cards their due. -/
theorem Inv.step {s t : State} {e : Event} (h : Inv s) (hgood : Distinct s e)
    (hs : step s e = some t) : Inv t ∧ Belongs s e t := by
  have hbelongs : ∀ t : State, Announced t → t.resolved = s.resolved →
      (∀ r session thread turn rememberKey, e = .request r session thread turn rememberKey →
        (∃ n d, s.running n = some d ∧ d.session = session) →
        (¬ ∃ key ∈ rememberKey, s.remembered thread key = true) → (t.cards r).isSome) →
      Belongs s e t := by
    intro t ht hresolved hraised
    refine ⟨ht.emitted, ht.announced, hraised, fun r client hr => .inl ?_⟩
    rwa [hresolved] at hr
  cases e with
  | authorize | stopSession =>
    cases hs
    refine ⟨⟨⟨h.tables.emitters, h.tables.threads, h.tables.named, h.tables.keys,
      h.tables.apart⟩, ?_⟩, hbelongs _ ?_ rfl nofun⟩
    all_goals exact ⟨h.announced.cards, h.announced.emitters, h.announced.emitted,
      h.announced.known, h.announced.announced⟩
  | drainStarts n d =>
    simp only [Confirmation.step, Option.ite_none_left_eq_some, Option.some.injEq,
      Option.not_isSome_iff_eq_none] at hs
    obtain ⟨hn, rfl⟩ := hs
    have htables := h.tables.starts hn hgood.1 hgood.2
    have hann : Announced { s with
        running := update s.running n (some d)
        emitters := update s.emitters d.key (some d)
        threadSessions := update s.threadSessions d.thread (some d.key) } :=
      ⟨h.announced.cards, h.announced.emitters, h.announced.emitted, h.announced.known,
        h.announced.announced⟩
    refine ⟨⟨htables, hann⟩, hbelongs _ hann rfl ?_⟩
    intro _ _ _ _ _ heq
    cases heq
  | drainEnds n =>
    simp only [Confirmation.step] at hs
    cases hn : s.running n with
    | none =>
      rw [hn] at hs
      cases hs
    | some d =>
      rw [hn] at hs
      cases hs
      have hann : Announced { s with
          running := update s.running n none
          emitters := update s.emitters d.key none
          threadSessions := update s.threadSessions d.thread none } :=
        ⟨h.announced.cards, h.announced.emitters, h.announced.emitted, h.announced.known,
          h.announced.announced⟩
      refine ⟨⟨h.tables.ends hn, hann⟩, hbelongs _ hann rfl ?_⟩
      intro _ _ _ _ _ heq
      cases heq
  | request r session thread turn rememberKey =>
    simp only [Confirmation.step, Option.ite_none_left_eq_some,
      Option.not_isSome_iff_eq_none] at hs
    obtain ⟨hnew, hs⟩ := hs
    split at hs
    case isTrue hremembered =>
      cases hs
      refine ⟨h, hbelongs _ h.announced rfl ?_⟩
      rintro _ _ _ _ _ ⟨⟩ - hnot
      exact absurd hremembered hnot
    case isFalse hfresh =>
      rcases h.tables.reaches hgood with ⟨d, hd, hsession⟩ | ⟨hnone, hidle⟩
      · rw [hd] at hs
        obtain ⟨gate, hgate, rfl⟩ := Option.map_eq_some_iff.mp hs
        have hann := h.announced.call ⟨session, thread, rememberKey, d⟩ hnew hsession hgate
        refine ⟨⟨⟨h.tables.emitters, h.tables.threads, h.tables.named, h.tables.keys,
          h.tables.apart⟩, hann⟩, hbelongs _ hann rfl ?_⟩
        rintro _ _ _ _ _ ⟨⟩ - -
        simp [Confirmation.advance]
      · rw [hnone] at hs
        cases hs
        refine ⟨h, hbelongs _ h.announced rfl ?_⟩
        rintro _ _ _ _ _ ⟨⟩ ⟨n, d, hn, hsession⟩ -
        exact absurd hsession (hidle n d hn)
  | gate e =>
    simp only [Confirmation.step, Option.ite_none_right_eq_some] at hs
    obtain ⟨hinner, hs⟩ := hs
    obtain ⟨gate, hgate, rfl⟩ := Option.map_eq_some_iff.mp hs
    have hann := h.announced.inner (by rintro r turn callback rfl; exact hinner) hgate
    refine ⟨⟨⟨h.tables.emitters, h.tables.threads, h.tables.named, h.tables.keys,
      h.tables.apart⟩, hann⟩, hbelongs _ hann rfl ?_⟩
    intro _ _ _ _ _ heq
    cases heq
  | resolve client r remember =>
    simp only [Confirmation.step] at hs
    cases hcard : s.cards r with
    | none =>
      rw [hcard] at hs
      cases hs
      refine ⟨h, hbelongs _ h.announced rfl ?_⟩
      intro _ _ _ _ _ heq
      cases heq
    | some card =>
      simp only [hcard] at hs
      split at hs
      case isFalse =>
        cases hs
        refine ⟨h, hbelongs _ h.announced rfl ?_⟩
        intro _ _ _ _ _ heq
        cases heq
      case isTrue howned =>
        obtain ⟨gate, hgate, rfl⟩ := Option.map_eq_some_iff.mp hs
        have hinner := h.announced.inner (by rintro r turn callback ⟨⟩) hgate
        refine ⟨⟨⟨h.tables.emitters, h.tables.threads, h.tables.named, h.tables.keys,
          h.tables.apart⟩, ⟨hinner.cards, hinner.emitters, hinner.emitted, hinner.known,
          hinner.announced⟩⟩, ⟨hinner.emitted, hinner.announced, ?_, fun r' client' hr' => ?_⟩⟩
        · nofun
        · rcases List.mem_cons.mp hr' with heq | hold
          · obtain ⟨rfl, rfl⟩ := Prod.mk.inj heq
            refine .inr ⟨card, hcard, ?_⟩
            by_contra hforeign
            obtain ⟨sid, hsid, hmatch⟩ := howned.2
            exact hgood card hcard hforeign sid hsid hmatch
          · exact .inl hold

/-- **Cards belong to their session.** In a run of drains with distinct names, every step announces
cards to their own sessions only, gives each request made while a drain of its session runs a card,
and lets no foreign client resolve one. -/
theorem cards_belong (es : List Event) (hgood : GoodRun step Distinct init es) :
    GoodRun step (fun s e => ∀ t, step s e = some t → Belongs s e t) init es :=
  goodRun_imp step Distinct _ Inv (fun _ _ _ hinv hd ht => (hinv.step hd ht).1)
    (fun _ _ hinv hd _ ht => (hinv.step hd ht).2) init es Inv.init hgood

/-! ## Two clients with the same key -/

def desk (client : Char) (thread : String) : Drain :=
  ⟨[client] ++ ":desk".toList, "desk".toList, thread.toList⟩

/-- One client's drain runs, and its card is resolved by it. -/
def alone : List Event :=
  [.authorize ['a'] "a:desk".toList, .drainStarts 0 (desk 'a' "t1"),
    .request 7 "a:desk".toList "t1".toList 1 none, .resolve ['a'] 7 false]

theorem alone_belongs :
    GoodRun step (fun s e => ∀ t, step s e = some t → Belongs s e t) init alone :=
  cards_belong alone (by
    refine ⟨trivial, fun s₁ h₁ => ⟨⟨by decide, fun m d' hm => ?_⟩, fun s₂ h₂ =>
      ⟨.inl ⟨0, desk 'a' "t1", ?_, ?_, .inl rfl⟩, fun s₃ h₃ => ⟨?_, fun _ _ => trivial⟩⟩⟩⟩
    · obtain rfl := Option.some.inj h₁
      cases hm
    · obtain rfl := Option.some.inj h₁
      obtain rfl := Option.some.inj h₂
      rfl
    · decide
    · obtain rfl := Option.some.inj h₁
      obtain rfl := Option.some.inj h₂
      obtain rfl := Option.some.inj h₃
      intro card hcard hforeign
      cases hcard
      exact absurd (by decide) hforeign)

/-- Two clients use the same key: the second drain takes the emitter of the first, gets its card,
and its client resolves it. -/
def shared : List Event :=
  [.authorize ['a'] "a:desk".toList, .authorize ['b'] "b:desk".toList,
    .drainStarts 0 (desk 'a' "t1"), .drainStarts 1 (desk 'b' "t2"),
    .request 7 "a:desk".toList "t1".toList 1 none, .resolve ['b'] 7 false]

theorem shared_runs : (run step init shared).isSome := by decide

theorem shared_key_misroutes : ¬ ∀ es, (run step init es).isSome →
    GoodRun step (fun s e => ∀ t, step s e = some t → Belongs s e t) init es := by
  intro h
  have hrun := (goodRun_iff_forall step _ init shared).mp (h shared shared_runs)
  have hlast := hrun (shared.take 5) (.resolve ['b'] 7 false) [] rfl _ rfl _ rfl
  have hcard := hlast.emitted 7 "b:desk".toList ⟨"a:desk".toList, "t1".toList, none, desk 'b' "t2"⟩
    (by decide) rfl
  exact absurd hcard (by decide)

end MiqroForge.Confirmation
