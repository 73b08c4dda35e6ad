import MiqroForge.Chat.Drains

/-! The invariant of orderly chat requests: turns, the turn lock, and the replies. -/

namespace MiqroForge.Chat

open Steps Feeds Function

variable {s t : State}

/-! ## Phases -/

def Phase.accepted : Phase → Bool
  | .registered | .waiting _ | .reading | .done => true
  | _ => false

def Phase.between : Phase → Bool
  | .checked | .submitted => true
  | _ => false

theorem undrained_iff (r : Nat) :
    s.Undrained r ↔ (s.phase r).accepted = true ∧ s.phase r ≠ .done := by
  unfold State.Undrained
  cases s.phase r <;> simp [Phase.accepted]

theorem busy_eq_some {r : Nat} : s.busy = some r ↔ s.lock = some r ∧ s.phase r ≠ .done := by
  unfold State.busy
  rw [Option.filter_eq_some_iff]
  simp

theorem busy_eq_none : s.busy = none ↔ ∀ r, s.lock = some r → s.phase r = .done := by
  unfold State.busy
  cases s.lock <;> simp

@[simp] theorem move_phase_self (r : Nat) (p : Phase) : (s.move r p).phase r = p := by
  simp [State.move]

theorem move_phase_of_ne {r r' : Nat} (p : Phase) (h : r' ≠ r) :
    (s.move r p).phase r' = s.phase r' := by
  simp [State.move, h]

/-! ## Replies -/

structure Replied (s : State) : Prop where
  count : ∀ r, s.replies.countP (fun reply => reply.request = r) =
    if s.terminalSent r then 1 else 0
  done : ∀ r, s.phase r = .done → s.terminalSent r = true
  own : ∀ reply ∈ s.replies, ∀ i, reply.source = some i →
    ∃ n, i.owner = some n ∧ s.turnOf reply.request = some n
  consumed : ∀ r i n, (r, i) ∈ s.consumed → i.owner = some n → s.turnOf r = some n

theorem Replied.init : Replied init where
  count := fun r => rfl
  done := fun r h => by cases h
  own := fun reply h => by cases h
  consumed := fun r i n h => by cases h

theorem Replied.frame (h : Replied s) (hreplies : t.replies = s.replies)
    (hsent : t.terminalSent = s.terminalSent) (hconsumed : t.consumed = s.consumed)
    (hdone : ∀ r, t.phase r = .done → s.phase r = .done)
    (hturn : ∀ r n, s.turnOf r = some n → t.turnOf r = some n) : Replied t where
  count := by
    rw [hreplies, hsent]
    exact h.count
  done := fun r hr => by
    rw [hsent]
    exact h.done r (hdone r hr)
  own := fun reply hmem i hi => by
    rw [hreplies] at hmem
    obtain ⟨n, hn, hown⟩ := h.own reply hmem i hi
    exact ⟨n, hn, hturn _ n hown⟩
  consumed := fun r i n hmem hn => by
    rw [hconsumed] at hmem
    exact hturn r n (h.consumed r i n hmem hn)

theorem Replied.consume (h : Replied s) {r : Nat} {i : Item Kind} (rest : List (Item Kind))
    (hown : ∀ n, i.owner = some n → s.turnOf r = some n) :
    Replied { s with feed := { s.feed with queue := rest }, consumed := (r, i) :: s.consumed } where
  count := h.count
  done := h.done
  own := h.own
  consumed := fun r' j n hmem hn => by
    rcases List.mem_cons.mp hmem with heq | hmem
    · obtain ⟨rfl, rfl⟩ := Prod.mk.inj heq
      exact hown n hn
    · exact h.consumed r' j n hmem hn

theorem Replied.emit (h : Replied s) {r : Nat} {terminal : Terminal} {source : Option (Item Kind)}
    (hown : ∀ i, source = some i → ∃ n, i.owner = some n ∧ s.turnOf r = some n) :
    Replied (s.emitTerminal r terminal source) := by
  unfold State.emitTerminal
  split
  case isTrue => exact h
  case isFalse hsent =>
    refine ⟨fun r' => ?_, fun r' hr' => ?_, fun reply hmem i hi => ?_, h.consumed⟩
    · rw [List.countP_cons, h.count r']
      by_cases hr : r' = r
      · subst hr
        simp [hsent]
      · simp [update_of_ne hr, Ne.symm hr]
    · by_cases hr : r' = r
      · subst hr
        exact update_self r' true s.terminalSent
      · exact (update_of_ne hr true s.terminalSent).trans (h.done r' hr')
    · rcases List.mem_cons.mp hmem with rfl | hmem
      · exact hown i hi
      · exact h.own reply hmem i hi

theorem emit_sent (r : Nat) (terminal : Terminal) (source : Option (Item Kind)) :
    (s.emitTerminal r terminal source).terminalSent r = true := by
  unfold State.emitTerminal
  split
  case isTrue h => exact h
  case isFalse => exact update_self r true s.terminalSent

theorem Replied.finish (h : Replied s) {r : Nat} (hsent : s.terminalSent r = true) :
    Replied (s.move r .done) where
  count := h.count
  done := fun r' hr' => by
    by_cases hr : r' = r
    · rw [hr]
      exact hsent
    · rw [move_phase_of_ne .done hr] at hr'
      exact h.done r' hr'
  own := h.own
  consumed := h.consumed

/-! ## Turns -/

/-- The turns of the requests, and what their drains find in the queue. -/
structure Turned (s : State) : Prop where
  ordered : Ordered Kind.last s.feed
  notice : ∀ i ∈ s.feed.queue, i.owner = none → i.kind = .notice
  opened : ∀ r n, s.turnOf r = some n → n < s.feed.turns
  injective : ∀ r r' n, s.turnOf r = some n → s.turnOf r' = some n → r = r'
  known : ∀ r, s.phase r = .submitted ∨ (s.phase r).accepted = true → ∃ n, s.turnOf r = some n
  fresh : ∀ r, s.phase r = .idle ∨ s.phase r = .checked → s.turnOf r = none
  whole : ∀ r n, s.turnOf r = some n → s.phase r ≠ .done → Whole Kind.last s.feed n
  due : ∀ r n, s.phase r = .reading → s.turnOf r = some n → Due s.feed n

theorem Turned.init : Turned init where
  ordered := Ordered.init
  notice := fun i h => by cases h
  opened := fun r n h => by cases h
  injective := fun r r' n h => by cases h
  known := fun r h => by
    rcases h with h | h
    · cases h
    · cases h
  fresh := fun r h => rfl
  whole := fun r n h => by cases h
  due := fun r n h => by cases h

theorem Turned.place (h : Turned s) {r : Nat} {p : Phase} (hfeed : t.feed = s.feed)
    (hturn : t.turnOf = s.turnOf) (hphase : t.phase = update s.phase r p)
    (hknown : p = .submitted ∨ p.accepted = true → ∃ n, s.turnOf r = some n)
    (hfresh : p = .idle ∨ p = .checked → s.turnOf r = none)
    (hwhole : p ≠ .done → s.phase r ≠ .done)
    (hdue : p = .reading → ∀ n, s.turnOf r = some n → Due s.feed n) : Turned t := by
  refine ⟨hfeed ▸ h.ordered, hfeed ▸ h.notice, ?_, ?_, fun r' hr' => ?_, fun r' hr' => ?_,
    fun r' n hn hr' => ?_, fun r' n hr' hn => ?_⟩
  · rw [hfeed, hturn]
    exact h.opened
  · rw [hturn]
    exact h.injective
  · rw [hturn]
    by_cases hr : r' = r
    · subst hr
      exact hknown (by simpa [hphase] using hr')
    · exact h.known r' (by simpa [hphase, hr] using hr')
  · rw [hturn]
    by_cases hr : r' = r
    · subst hr
      exact hfresh (by simpa [hphase] using hr')
    · exact h.fresh r' (by simpa [hphase, hr] using hr')
  · rw [hfeed]
    rw [hturn] at hn
    by_cases hr : r' = r
    · subst hr
      exact h.whole r' n hn (hwhole (by simpa [hphase] using hr'))
    · exact h.whole r' n hn (by simpa [hphase, hr] using hr')
  · rw [hfeed]
    rw [hturn] at hn
    by_cases hr : r' = r
    · subst hr
      exact hdue (by simpa [hphase] using hr') n hn
    · exact h.due r' n (by simpa [hphase, hr] using hr') hn

theorem Turned.same (h : Turned s) (hfeed : t.feed = s.feed) (hturn : t.turnOf = s.turnOf)
    (hphase : t.phase = s.phase) : Turned t := by
  refine ⟨hfeed ▸ h.ordered, hfeed ▸ h.notice, ?_, ?_, ?_, ?_, ?_, ?_⟩
  · rw [hfeed, hturn]
    exact h.opened
  · rw [hturn]
    exact h.injective
  · rw [hturn, hphase]
    exact h.known
  · rw [hturn, hphase]
    exact h.fresh
  · rw [hfeed, hturn, hphase]
    exact h.whole
  · rw [hfeed, hturn, hphase]
    exact h.due

theorem Turned.submit (h : Turned s) {r : Nat} (hr : s.phase r = .checked) :
    Turned { s.move r .submitted with
      turnOf := update s.turnOf r (some s.feed.turns)
      feed := s.feed.open } := by
  have hturn : ∀ r' n, update s.turnOf r (some s.feed.turns) r' = some n ↔
      r' = r ∧ n = s.feed.turns ∨ r' ≠ r ∧ s.turnOf r' = some n := by
    intro r' n
    by_cases hrr : r' = r
    · subst hrr
      simp [eq_comm]
    · simp [hrr]
  refine ⟨h.ordered.open, h.notice, fun r' n hn => ?_, fun r' r'' n hn hn' => ?_,
    fun r' hr' => ?_, fun r' hr' => ?_, fun r' n hn hr' => ?_, fun r' n hr' hn => ?_⟩
  · rcases (hturn r' n).mp hn with ⟨-, rfl⟩ | ⟨-, hn⟩
    · exact Nat.lt_succ_self _
    · exact Nat.lt_succ_of_lt (h.opened r' n hn)
  · rcases (hturn r' n).mp hn with ⟨hr', hturns⟩ | ⟨-, hold⟩ <;>
      rcases (hturn r'' n).mp hn' with ⟨hr'', hturns'⟩ | ⟨-, hold'⟩
    · exact hr'.trans hr''.symm
    · exact absurd (hturns ▸ h.opened r'' n hold') (Nat.lt_irrefl _)
    · exact absurd (hturns' ▸ h.opened r' n hold) (Nat.lt_irrefl _)
    · exact h.injective r' r'' n hold hold'
  · by_cases hrr : r' = r
    · exact ⟨s.feed.turns, (hturn r' _).mpr (.inl ⟨hrr, rfl⟩)⟩
    · obtain ⟨n, hn⟩ := h.known r' (by simpa [State.move, hrr] using hr')
      exact ⟨n, (hturn r' n).mpr (.inr ⟨hrr, hn⟩)⟩
  · have hrr : r' ≠ r := by
      rintro rfl
      simp [State.move] at hr'
    show update s.turnOf r (some s.feed.turns) r' = none
    rw [update_of_ne hrr]
    exact h.fresh r' (by simpa [State.move, hrr] using hr')
  · rcases (hturn r' n).mp hn with ⟨-, rfl⟩ | ⟨hrr, hn⟩
    · exact h.ordered.whole_turns
    · exact (h.whole r' n hn (by simpa [State.move, hrr] using hr')).open
  · rcases (hturn r' n).mp hn with ⟨rfl, -⟩ | ⟨hrr, hn⟩
    · simp [State.move] at hr'
    · exact (h.due r' n (by simpa [State.move, hrr] using hr') hn).open

theorem Turned.put (h : Turned s) {i : Item Kind} (hmay : s.feed.May i)
    (hnotice : i.owner = none → i.kind = .notice) :
    Turned { s with feed := s.feed.put Kind.last i } where
  ordered := h.ordered.put hmay
  notice := fun j hj hnone => by
    rcases List.mem_append.mp hj with hj | hj
    · exact h.notice j hj hnone
    · obtain rfl := List.mem_singleton.mp hj
      exact hnotice hnone
  opened := h.opened
  injective := h.injective
  known := h.known
  fresh := h.fresh
  whole := fun r n hn hr => (h.whole r n hn hr).put i
  due := fun r n hr hn => (h.due r n hr hn).put hmay

theorem Turned.owner (h : Turned s) {r : Nat} (hr : s.phase r = .reading) {i : Item Kind}
    {rest : List (Item Kind)} (hqueue : s.feed.queue = i :: rest) {n : Nat}
    (hn : i.owner = some n) : s.turnOf r = some n := by
  obtain ⟨m, hm⟩ := h.known r (.inr (by rw [hr]; rfl))
  have howner := h.ordered.head_owner (h.due r m hr hm) (h.whole r m hm (by simp [hr])) hqueue hn
  rw [howner]
  exact hm

theorem Turned.take (h : Turned s) {r : Nat} (hr : s.phase r = .reading) {i : Item Kind}
    {rest : List (Item Kind)} (hqueue : s.feed.queue = i :: rest)
    (hfeed : t.feed = { s.feed with queue := rest }) (hturn : t.turnOf = s.turnOf)
    (hphase : t.phase = s.phase ∧ i.kind.last = false ∨
      t.phase = update s.phase r .done) : Turned t := by
  have hmem : ∀ j ∈ rest, j ∈ s.feed.queue := fun j hj => hqueue ▸ List.mem_cons_of_mem i hj
  have hback : ∀ r', t.phase r' = s.phase r' ∨ r' = r ∧ t.phase r' = .done := by
    intro r'
    rcases hphase with ⟨hphase, -⟩ | hphase
    · exact .inl (by rw [hphase])
    · by_cases hrr : r' = r
      · exact .inr ⟨hrr, by simp [hphase, hrr]⟩
      · exact .inl (by simp [hphase, hrr])
  refine ⟨hfeed ▸ h.ordered.pop hqueue, fun j hj => ?_, ?_, ?_, fun r' hr' => ?_,
    fun r' hr' => ?_, fun r' n hn hr' => ?_, fun r' n hr' hn => ?_⟩
  · rw [hfeed] at hj
    exact h.notice j (hmem j hj)
  · rw [hfeed, hturn]
    exact h.opened
  · rw [hturn]
    exact h.injective
  · rw [hturn]
    rcases hback r' with hp | ⟨rfl, -⟩
    · rw [hp] at hr'
      exact h.known r' hr'
    · exact h.known r' (.inr (by rw [hr]; rfl))
  · rw [hturn]
    rcases hback r' with hp | ⟨-, hp⟩
    · rw [hp] at hr'
      exact h.fresh r' hr'
    · rw [hp] at hr'
      rcases hr' with hr' | hr' <;> cases hr'
  · rw [hfeed]
    rw [hturn] at hn
    rcases hback r' with hp | ⟨-, hp⟩
    · rw [hp] at hr'
      refine (h.whole r' n hn hr').pop hqueue fun howner => ?_
      obtain rfl := h.injective r' r n hn (h.owner hr hqueue howner)
      rcases hphase with ⟨-, hlast⟩ | hphase
      · exact hlast
      · exact absurd (hp.symm.trans (by simp [hphase])) hr'
    · exact absurd hp hr'
  · rw [hfeed]
    rw [hturn] at hn
    rcases hback r' with hp | ⟨-, hp⟩
    · rw [hp] at hr'
      exact (h.due r' n hr' hn).pop hqueue
    · rw [hp] at hr'
      cases hr'

/-! ## The turn lock -/

/-- Who holds the turn lock, who has given it up, and who waits for whom. -/
structure Locked (s : State) : Prop where
  held : ∀ r, (s.phase r).accepted = true → s.phase r ≠ .done → s.freed r = false →
    s.lock = some r
  accepted : ∀ r, s.lock = some r → (s.phase r).accepted = true
  freed : ∀ r, s.freed r = true → (s.phase r).accepted = true ∧ s.phase r ≠ .registered
  released : ∀ p, s.released = some p → s.freed p = true
  between : ∀ c, (s.phase c).between = true →
    s.busy = none ∧ ∀ c', (s.phase c').between = true → c' = c
  newest : ∀ r n, s.phase r = .submitted ∨
    ((s.phase r).accepted = true ∧ s.phase r ≠ .done ∧ s.freed r = false) →
    s.turnOf r = some n → n + 1 = s.feed.turns
  behind : ∀ r p, s.phase r = .waiting (some p) → (s.phase p).accepted = true ∧
    ∀ m n, s.turnOf p = some m → s.turnOf r = some n → m < n
  cancelling : ∀ r, s.cancelling r = true → s.phase r = .reading ∨ s.phase r = .done

theorem Locked.init : Locked init where
  held := fun r h => by cases h
  accepted := fun r h => by cases h
  freed := fun r h => by cases h
  released := fun p h => by cases h
  between := fun c h => by cases h
  newest := fun r n _ h => by cases h
  behind := fun r p h => by cases h
  cancelling := fun r h => by cases h

/-- The lock and the turns are as before. -/
structure SameLock (s t : State) : Prop where
  lock : t.lock = s.lock
  released : t.released = s.released
  freed : t.freed = s.freed
  cancelling : t.cancelling = s.cancelling
  turnOf : t.turnOf = s.turnOf
  turns : t.feed.turns = s.feed.turns

theorem Locked.same (h : Locked s) (hs : SameLock s t) (hphase : t.phase = s.phase) :
    Locked t := by
  obtain ⟨hlock, hreleased, hfreed, hcancelling, hturn, hturns⟩ := hs
  have hbusy : t.busy = s.busy := by
    unfold State.busy
    rw [hlock, hphase]
  refine ⟨?_, ?_, ?_, ?_, ?_, ?_, ?_, ?_⟩
  · rw [hlock, hphase, hfreed]
    exact h.held
  · rw [hlock, hphase]
    exact h.accepted
  · rw [hphase, hfreed]
    exact h.freed
  · rw [hreleased, hfreed]
    exact h.released
  · rw [hbusy, hphase]
    exact h.between
  · rw [hphase, hfreed, hturn, hturns]
    exact h.newest
  · rw [hphase, hturn]
    exact h.behind
  · rw [hphase, hcancelling]
    exact h.cancelling

theorem Locked.place (h : Locked s) (hs : SameLock s t) {r : Nat} {p : Phase}
    (hphase : t.phase = update s.phase r p)
    (hside : p.accepted = (s.phase r).accepted) (hdone : s.phase r = .done → p = .done)
    (hplain : p ≠ .registered ∧ p ≠ .submitted)
    (hbetween : p.between = true → s.busy = none ∧ ∀ c, (s.phase c).between = true → c = r)
    (hbehind : ∀ q, p = .waiting (some q) → (s.phase q).accepted = true ∧
      ∀ m n, s.turnOf q = some m → s.turnOf r = some n → m < n)
    (hcancelled : s.cancelling r = true → p = .reading ∨ p = .done) : Locked t := by
  obtain ⟨hlock, hreleased, hfreed, hcancelling, hturn, hturns⟩ := hs
  have hsame : ∀ r', (t.phase r').accepted = (s.phase r').accepted := by
    intro r'
    by_cases hr : r' = r
    · subst hr
      simp [hphase, hside]
    · simp [hphase, hr]
  have hbusy : s.busy = none → t.busy = none := by
    rw [busy_eq_none, busy_eq_none, hlock]
    intro hidle r' hr'
    by_cases hr : r' = r
    · subst hr
      simpa [hphase] using hdone (hidle r' hr')
    · simpa [hphase, hr] using hidle r' hr'
  have halive : ∀ r', t.phase r' ≠ .done → s.phase r' ≠ .done := by
    intro r' hr' hold
    by_cases hr : r' = r
    · subst hr
      exact hr' (by simpa [hphase] using hdone hold)
    · exact hr' (by simpa [hphase, hr] using hold)
  refine ⟨fun r' hacc hne hfree => ?_, fun r' hr' => ?_, fun r' hr' => ?_, ?_, fun c hc => ?_,
    fun r' n hr' hn => ?_, fun r' q hr' => ?_, fun r' hr' => ?_⟩
  · rw [hlock]
    exact h.held r' (hsame r' ▸ hacc) (halive r' hne) (hfreed ▸ hfree)
  · rw [hsame]
    exact h.accepted r' (hlock ▸ hr')
  · obtain ⟨hacc, hne⟩ := h.freed r' (hfreed ▸ hr')
    refine ⟨(hsame r').trans hacc, ?_⟩
    by_cases hr : r' = r
    · subst hr
      simpa [hphase] using hplain.1
    · simpa [hphase, hr] using hne
  · rw [hreleased, hfreed]
    exact h.released
  · have hfrom : ∀ c', (t.phase c').between = true → c' ≠ r → (s.phase c').between = true := by
      intro c' hc' hr
      simpa [hphase, hr] using hc'
    by_cases hr : c = r
    · subst hr
      obtain ⟨hidle, honly⟩ := hbetween (by simpa [hphase] using hc)
      refine ⟨hbusy hidle, fun c' hc' => ?_⟩
      by_contra hne
      exact hne (honly c' (hfrom c' hc' hne))
    · obtain ⟨hidle, honly⟩ := h.between c (hfrom c hc hr)
      refine ⟨hbusy hidle, fun c' hc' => ?_⟩
      by_cases hcr : c' = r
      · subst hcr
        obtain ⟨-, honly'⟩ := hbetween (by simpa [hphase] using hc')
        exact absurd (honly' c (hfrom c hc hr)) hr
      · exact honly c' (hfrom c' hc' hcr)
  · rw [hturns]
    rw [hturn] at hn
    refine h.newest r' n ?_ hn
    rcases hr' with hr' | ⟨hacc, hne, hfree⟩
    · left
      by_cases hr : r' = r
      · subst hr
        exact absurd (by simpa [hphase] using hr') hplain.2
      · simpa [hphase, hr] using hr'
    · exact .inr ⟨hsame r' ▸ hacc, halive r' hne, hfreed ▸ hfree⟩
  · rw [hsame, hturn]
    by_cases hr : r' = r
    · subst hr
      exact hbehind q (by simpa [hphase] using hr')
    · exact h.behind r' q (by simpa [hphase, hr] using hr')
  · rw [hcancelling] at hr'
    by_cases hr : r' = r
    · subst hr
      simpa [hphase] using hcancelled hr'
    · simpa [hphase, hr] using h.cancelling r' hr'

theorem between_of_busy (h : Locked s) {r : Nat} (hr : s.busy = some r) (c : Nat) :
    (s.phase c).between = false := by
  cases hc : (s.phase c).between with
  | false => rfl
  | true =>
    have hidle := (h.between c hc).1
    rw [hr] at hidle
    cases hidle

theorem Locked.submit (h : Locked s) {r : Nat} (hr : s.phase r = .checked) :
    Locked { s.move r .submitted with
      turnOf := update s.turnOf r (some s.feed.turns)
      feed := s.feed.open } := by
  obtain ⟨hidle, honly⟩ := h.between r (by rw [hr]; rfl)
  have hother : ∀ r', (s.phase r').accepted = true → r' ≠ r := by
    rintro r' hacc rfl
    rw [hr] at hacc
    cases hacc
  have hback : ∀ r', ((s.move r .submitted).phase r').accepted = true →
      r' ≠ r ∧ (s.move r .submitted).phase r' = s.phase r' := by
    intro r' hacc
    have hrr : r' ≠ r := by
      rintro rfl
      rw [move_phase_self] at hacc
      cases hacc
    exact ⟨hrr, move_phase_of_ne _ hrr⟩
  have hforth : ∀ r', (s.phase r').accepted = true →
      (s.move r .submitted).phase r' = s.phase r' :=
    fun r' hacc => move_phase_of_ne _ (hother r' hacc)
  have hbusy : ∀ r', s.lock = some r' → (s.move r .submitted).phase r' = .done := by
    intro r' hr'
    rw [hforth r' (h.accepted r' hr')]
    exact busy_eq_none.mp hidle r' hr'
  have hnone : ∀ r', (s.phase r').accepted = true → s.phase r' ≠ .done → s.freed r' = true := by
    intro r' hacc hne
    cases hfree : s.freed r' with
    | true => rfl
    | false => exact absurd (busy_eq_none.mp hidle r' (h.held r' hacc hne hfree)) hne
  refine ⟨fun r' hacc hne hfree => ?_, fun r' hr' => ?_, fun r' hr' => ?_, h.released,
    fun c hc => ⟨busy_eq_none.mpr hbusy, fun c' hc' => ?_⟩, fun r' n hr' hn => ?_,
    fun r' q hr' => ?_, fun r' hr' => ?_⟩
  · obtain ⟨-, hsame⟩ := hback r' hacc
    exact h.held r' (hsame ▸ hacc) (hsame ▸ hne) hfree
  · exact (congrArg Phase.accepted (hforth r' (h.accepted r' hr'))).trans (h.accepted r' hr')
  · obtain ⟨hacc, hne⟩ := h.freed r' hr'
    show ((s.move r .submitted).phase r').accepted = true ∧
      (s.move r .submitted).phase r' ≠ .registered
    rw [hforth r' hacc]
    exact ⟨hacc, hne⟩
  · have hmine : ∀ d, ((s.move r .submitted).phase d).between = true → d = r := by
      intro d hd
      by_contra hne
      rw [move_phase_of_ne _ hne] at hd
      exact hne (honly d hd)
    exact (hmine c' hc').trans (hmine c hc).symm
  · rcases hr' with hr' | ⟨hacc, hne, hfree⟩
    · have hrr : r' = r := by
        by_contra hne
        have hold : s.phase r' = .submitted := (move_phase_of_ne _ hne).symm.trans hr'
        exact hne (honly r' (by rw [hold]; rfl))
      subst hrr
      obtain rfl : s.feed.turns = n := by simpa using hn
      rfl
    · obtain ⟨-, hsame⟩ := hback r' hacc
      have hfreed := hnone r' (hsame ▸ hacc) (hsame ▸ hne)
      exact absurd (hfree.symm.trans hfreed) Bool.false_ne_true
  · obtain ⟨hrr, hsame⟩ := hback r' (by
      show ((s.move r .submitted).phase r').accepted = true
      rw [show (s.move r .submitted).phase r' = .waiting (some q) from hr']
      rfl)
    obtain ⟨hacc, hlt⟩ := h.behind r' q (hsame ▸ hr')
    refine ⟨(congrArg Phase.accepted (hforth q hacc)).trans hacc, fun m n hm hn => ?_⟩
    exact hlt m n (by simpa [hother q hacc] using hm) (by simpa [hrr] using hn)
  · have hacc : (s.phase r').accepted = true := by
      rcases h.cancelling r' hr' with hp | hp <;> rw [hp] <;> rfl
    show (s.move r .submitted).phase r' = .reading ∨ (s.move r .submitted).phase r' = .done
    rw [hforth r' hacc]
    exact h.cancelling r' hr'

theorem Locked.register (h : Locked s) {r : Nat} (hr : s.phase r = .submitted) :
    Locked { s.move r .registered with lock := some r } := by
  obtain ⟨hidle, honly⟩ := h.between r (by rw [hr]; rfl)
  have hnone : ∀ r', (s.phase r').accepted = true → s.phase r' ≠ .done → s.freed r' = true := by
    intro r' hacc hne
    cases hfree : s.freed r' with
    | true => rfl
    | false => exact absurd (busy_eq_none.mp hidle r' (h.held r' hacc hne hfree)) hne
  have hmine : ∀ r', r' ≠ r → (s.move r .registered).phase r' = s.phase r' :=
    fun r' => move_phase_of_ne _
  have hother : ∀ r', (s.phase r').accepted = true → r' ≠ r := by
    rintro r' hacc rfl
    rw [hr] at hacc
    cases hacc
  refine ⟨fun r' hacc hne hfree => ?_, fun r' hr' => ?_, fun r' hr' => ?_, h.released,
    fun c hc => ?_, fun r' n hr' hn => ?_, fun r' q hr' => ?_, fun r' hr' => ?_⟩
  · by_cases hrr : r' = r
    · rw [hrr]
    · have hsame := hmine r' hrr
      have hfreed := hnone r' (hsame ▸ hacc) (hsame ▸ hne)
      exact absurd (hfree.symm.trans hfreed) Bool.false_ne_true
  · cases hr'
    exact congrArg Phase.accepted (move_phase_self r .registered)
  · obtain ⟨hacc, hne⟩ := h.freed r' hr'
    show ((s.move r .registered).phase r').accepted = true ∧
      (s.move r .registered).phase r' ≠ .registered
    rw [hmine r' (hother r' hacc)]
    exact ⟨hacc, hne⟩
  · exfalso
    have hrr : c ≠ r := by
      rintro rfl
      have hfalse : ((s.move c .registered).phase c).between = true := hc
      rw [move_phase_self] at hfalse
      cases hfalse
    have hold : ((s.move r .registered).phase c).between = true := hc
    rw [hmine c hrr] at hold
    exact hrr (honly c hold)
  · rcases hr' with hr' | ⟨hacc, hne, hfree⟩
    · exfalso
      have hrr : r' ≠ r := by
        rintro rfl
        have hfalse : (s.move r' .registered).phase r' = .submitted := hr'
        rw [move_phase_self] at hfalse
        cases hfalse
      have hold : (s.move r .registered).phase r' = .submitted := hr'
      rw [hmine r' hrr] at hold
      exact hrr (honly r' (by rw [hold]; rfl))
    · by_cases hrr : r' = r
      · subst hrr
        exact h.newest r' n (.inl hr) hn
      · have hsame := hmine r' hrr
        have hfreed := hnone r' (hsame ▸ hacc) (hsame ▸ hne)
        exact absurd (hfree.symm.trans hfreed) Bool.false_ne_true
  · have hrr : r' ≠ r := by
      rintro rfl
      have hfalse : (s.move r' .registered).phase r' = .waiting (some q) := hr'
      rw [move_phase_self] at hfalse
      cases hfalse
    obtain ⟨hacc, hlt⟩ := h.behind r' q ((hmine r' hrr).symm.trans hr')
    exact ⟨(congrArg Phase.accepted (hmine q (hother q hacc))).trans hacc, hlt⟩
  · have hacc : (s.phase r').accepted = true := by
      rcases h.cancelling r' hr' with hp | hp <;> rw [hp] <;> rfl
    show (s.move r .registered).phase r' = .reading ∨ (s.move r .registered).phase r' = .done
    rw [hmine r' (hother r' hacc)]
    exact h.cancelling r' hr'

theorem Locked.unlock (h : Locked s) (hbusy : s.busy = none) : Locked { s with lock := none } where
  held := fun r hacc hne hfree =>
    absurd (busy_eq_none.mp hbusy r (h.held r hacc hne hfree)) hne
  accepted := fun r hr => by cases hr
  freed := h.freed
  released := h.released
  between := fun c hc => ⟨rfl, (h.between c hc).2⟩
  newest := h.newest
  behind := h.behind
  cancelling := h.cancelling

theorem Locked.giveUp (h : Locked s) {r : Nat} (hbusy : s.busy = some r)
    (hstarted : s.phase r ≠ .registered) {released : Option Nat} {cancelling : Nat → Bool}
    (hreleased : ∀ p, released = some p → s.released = some p ∨ p = r)
    (hcancelling : ∀ r', cancelling r' = true →
      s.cancelling r' = true ∨ r' = r ∧ s.phase r = .reading) :
    Locked { s with
      lock := none
      released := released
      cancelling := cancelling
      freed := update s.freed r true } := by
  obtain ⟨hlock, halive⟩ := busy_eq_some.mp hbusy
  have hfreed : ∀ r', update s.freed r true r' = false → r' ≠ r ∧ s.freed r' = false := by
    intro r' hr'
    have hrr : r' ≠ r := by
      rintro rfl
      simp at hr'
    exact ⟨hrr, by simpa [hrr] using hr'⟩
  refine ⟨fun r' hacc hne hfree => ?_, fun r' hr' => (by cases hr'), fun r' hr' => ?_,
    fun p hp => ?_, fun c hc => ?_, fun r' n hr' hn => ?_, h.behind, fun r' hr' => ?_⟩
  · obtain ⟨hrr, hfree'⟩ := hfreed r' hfree
    have heq := h.held r' hacc hne hfree'
    rw [hlock] at heq
    exact absurd (Option.some.inj heq).symm hrr
  · by_cases hrr : r' = r
    · rw [hrr]
      exact ⟨h.accepted r hlock, hstarted⟩
    · exact h.freed r' (by simpa [hrr] using hr')
  · show update s.freed r true p = true
    by_cases hpr : p = r
    · simp [hpr]
    · rw [update_of_ne hpr]
      rcases hreleased p hp with hold | heq
      · exact h.released p hold
      · exact absurd heq hpr
  · have hfalse : (s.phase c).between = true := hc
    rw [between_of_busy h hbusy c] at hfalse
    cases hfalse
  · refine h.newest r' n ?_ hn
    rcases hr' with hr' | ⟨hacc, hne, hfree⟩
    · exact .inl hr'
    · exact .inr ⟨hacc, hne, (hfreed r' hfree).2⟩
  · rcases hcancelling r' hr' with hold | ⟨rfl, hreading⟩
    · exact h.cancelling r' hold
    · exact .inl hreading

/-! ## Orderly runs -/

structure Inv (s : State) : Prop where
  replied : Replied s
  turned : Turned s
  locked : Locked s

theorem Inv.init : Inv init := ⟨Replied.init, Turned.init, Locked.init⟩

theorem emit_frame (r : Nat) (terminal : Terminal) (source : Option (Item Kind)) :
    SameLock s (s.emitTerminal r terminal source) ∧
      (s.emitTerminal r terminal source).phase = s.phase ∧
      (s.emitTerminal r terminal source).feed = s.feed := by
  unfold State.emitTerminal
  split <;> exact ⟨⟨rfl, rfl, rfl, rfl, rfl, rfl⟩, rfl, rfl⟩

/-- A drain sends what it has and is done. -/
def State.close (s : State) (r : Nat) (terminal : Terminal) (source : Option (Item Kind)) : State :=
  (s.emitTerminal r terminal source).move r .done

theorem close_frame (r : Nat) (terminal : Terminal) (source : Option (Item Kind)) :
    SameLock s (s.close r terminal source) ∧
      (s.close r terminal source).phase = update s.phase r .done ∧
      (s.close r terminal source).feed = s.feed := by
  obtain ⟨hlock, hphase, hfeed⟩ := emit_frame (s := s) r terminal source
  refine ⟨⟨hlock.lock, hlock.released, hlock.freed, hlock.cancelling, hlock.turnOf, hlock.turns⟩,
    ?_, hfeed⟩
  show update (s.emitTerminal r terminal source).phase r .done = _
  rw [hphase]

theorem Locked.close (h : Locked s) (hs : SameLock s t) {r : Nat} (hr : s.phase r = .reading)
    (hphase : t.phase = update s.phase r .done) : Locked t := by
  refine h.place hs hphase (by rw [hr]; rfl) (fun _ => rfl) ⟨by simp, by simp⟩ ?_ ?_
    (fun _ => .inr rfl)
  · nofun
  · nofun

theorem Inv.close (h : Inv s) {r : Nat} (hr : s.phase r = .reading) (terminal : Terminal) :
    Inv (s.close r terminal none) := by
  obtain ⟨hlock, hphase, hfeed⟩ := close_frame (s := s) r terminal none
  refine ⟨(h.replied.emit (fun i hi => by cases hi)).finish (emit_sent r terminal none),
    h.turned.place hfeed hlock.turnOf hphase ?_ ?_ ?_ ?_, h.locked.close hlock hr hphase⟩
  · exact fun _ => h.turned.known r (.inr (by rw [hr]; rfl))
  · rintro (hfalse | hfalse) <;> cases hfalse
  · exact fun hfalse => absurd rfl hfalse
  · nofun

theorem handle_cases (r : Nat) (i : Item Kind) :
    (s.handle r i = s ∧ i.kind.last = false) ∨
      i.kind ≠ .notice ∧
        ((∃ terminal, s.handle r i = s.emitTerminal r terminal (some i)) ∧ i.kind.last = false ∨
          ∃ terminal, s.handle r i = s.close r terminal (some i)) := by
  unfold State.handle
  cases i.kind with
  | message => exact .inr ⟨by simp, .inl ⟨⟨_, rfl⟩, rfl⟩⟩
  | aborted => exact .inr ⟨by simp, .inr ⟨_, rfl⟩⟩
  | error => exact .inr ⟨by simp, .inr ⟨_, rfl⟩⟩
  | notice => exact .inl ⟨rfl, rfl⟩
  | complete => exact .inr ⟨by simp, .inr ⟨_, rfl⟩⟩
  | progress => exact .inl ⟨rfl, rfl⟩

theorem Inv.read (h : Inv s) {r : Nat} (hr : s.phase r = .reading) {i : Item Kind}
    {rest : List (Item Kind)} (hqueue : s.feed.queue = i :: rest) :
    Inv (State.handle { s with
      feed := { s.feed with queue := rest }, consumed := (r, i) :: s.consumed } r i) := by
  have howner : ∀ n, i.owner = some n → s.turnOf r = some n :=
    fun n hn => h.turned.owner hr hqueue hn
  have hconsume := h.replied.consume rest howner
  have hsource : i.kind ≠ .notice → ∀ j, some i = some j →
      ∃ n, j.owner = some n ∧ s.turnOf r = some n := by
    rintro hkind j heq
    cases heq
    cases hnone : i.owner with
    | none => exact absurd (h.turned.notice i (hqueue ▸ List.mem_cons_self) hnone) hkind
    | some n => exact ⟨n, rfl, howner n hnone⟩
  rcases handle_cases (s := { s with
      feed := { s.feed with queue := rest }, consumed := (r, i) :: s.consumed }) r i with
    ⟨heq, hlast⟩ | ⟨hkind, ⟨⟨terminal, heq⟩, hlast⟩ | ⟨terminal, heq⟩⟩
  · rw [heq]
    exact ⟨hconsume, h.turned.take hr hqueue rfl rfl (.inl ⟨rfl, hlast⟩),
      h.locked.same ⟨rfl, rfl, rfl, rfl, rfl, rfl⟩ rfl⟩
  · rw [heq]
    obtain ⟨hlock, hphase, hfeed⟩ := emit_frame (s := { s with
      feed := { s.feed with queue := rest }, consumed := (r, i) :: s.consumed }) r terminal (some i)
    exact ⟨hconsume.emit (hsource hkind),
      h.turned.take hr hqueue hfeed hlock.turnOf (.inl ⟨hphase, hlast⟩),
      h.locked.same ⟨hlock.lock, hlock.released, hlock.freed, hlock.cancelling, hlock.turnOf,
        hlock.turns⟩ hphase⟩
  · rw [heq]
    obtain ⟨hlock, hphase, hfeed⟩ := close_frame (s := { s with
      feed := { s.feed with queue := rest }, consumed := (r, i) :: s.consumed }) r terminal (some i)
    exact ⟨(hconsume.emit (hsource hkind)).finish (emit_sent r terminal (some i)),
      h.turned.take hr hqueue hfeed hlock.turnOf (.inr hphase),
      h.locked.close ⟨hlock.lock, hlock.released, hlock.freed, hlock.cancelling, hlock.turnOf,
        hlock.turns⟩ hr hphase⟩

theorem Inv.move (h : Inv s) {r : Nat} {p : Phase} (hne : p ≠ .done)
    (hknown : p = .submitted ∨ p.accepted = true → ∃ n, s.turnOf r = some n)
    (hfresh : p = .idle ∨ p = .checked → s.turnOf r = none) (hold : s.phase r ≠ .done)
    (hdue : p = .reading → ∀ n, s.turnOf r = some n → Due s.feed n)
    (hlocked : Locked (s.move r p)) : Inv (s.move r p) := by
  refine ⟨h.replied.frame rfl rfl rfl (fun r' hr' => ?_) (fun _ _ hn => hn),
    h.turned.place rfl rfl rfl hknown hfresh (fun _ => hold) hdue, hlocked⟩
  by_cases hrr : r' = r
  · subst hrr
    rw [move_phase_self] at hr'
    exact absurd hr' hne
  · rwa [move_phase_of_ne _ hrr] at hr'

theorem Inv.before (h : Inv s) {r : Nat} {p : Phase}
    (hr : s.phase r = .idle ∨ s.phase r = .checked) (hp : p = .checked ∨ p = .refused)
    (hbetween : p = .checked → s.busy = none ∧ ∀ c, (s.phase c).between = true → c = r) :
    Inv (s.move r p) := by
  have hside : (s.phase r).accepted = false := by
    rcases hr with hr | hr <;> rw [hr] <;> rfl
  have hlive : s.phase r ≠ .done := by
    rcases hr with hr | hr <;> simp [hr]
  refine h.move ?_ ?_ (fun _ => h.turned.fresh r hr) hlive ?_ (h.locked.place
    ⟨rfl, rfl, rfl, rfl, rfl, rfl⟩ rfl ?_ (fun hdone => absurd hdone hlive) ?_ ?_ ?_ ?_)
  · rcases hp with rfl | rfl <;> simp
  · rcases hp with rfl | rfl <;> simp [Phase.accepted]
  · rcases hp with rfl | rfl <;> simp
  · rw [hside]
    rcases hp with rfl | rfl <;> rfl
  · rcases hp with rfl | rfl <;> simp
  · rcases hp with rfl | rfl
    · exact fun _ => hbetween rfl
    · nofun
  · rcases hp with rfl | rfl <;> simp
  · intro hcancelling
    rcases h.locked.cancelling r hcancelling with hp | hp <;> rw [hp] at hside <;> cases hside

theorem Inv.start (h : Inv s) {r : Nat} (hr : s.phase r = .registered)
    (hcancel : s.cancelling r = false) : Inv (s.move r (.waiting s.released)) := by
  have hfree : s.freed r = false := by
    cases hfreed : s.freed r with
    | false => rfl
    | true => exact absurd hr (h.locked.freed r hfreed).2
  have hlive : s.phase r ≠ .done := by simp [hr]
  have hacc : (s.phase r).accepted = true := by rw [hr]; rfl
  refine h.move (by simp) (fun _ => h.turned.known r (.inr hacc)) (by simp) hlive (by simp)
    (h.locked.place ⟨rfl, rfl, rfl, rfl, rfl, rfl⟩ rfl hacc.symm (fun hdone => absurd hdone hlive)
      ⟨by simp, by simp⟩ (by simp [Phase.between]) (fun q hq => ?_)
      (fun hcancelling => absurd (hcancel.symm.trans hcancelling) Bool.false_ne_true))
  have hq' : s.released = some q := by simpa using hq
  have hfreed := h.locked.released q hq'
  refine ⟨(h.locked.freed q hfreed).1, fun m n hm hn => ?_⟩
  -- the request with the lock has the newest turn, and `q` has given the lock up
  have hnewest := h.locked.newest r n (.inr ⟨hacc, hlive, hfree⟩) hn
  have hopened := h.turned.opened q m hm
  have hne : m ≠ n := by
    rintro rfl
    obtain rfl := h.turned.injective q r m hm hn
    exact Bool.false_ne_true (hfree.symm.trans hfreed)
  omega

theorem Inv.begin (h : Inv s) {r : Nat} {p : Option Nat} (hr : s.phase r = .waiting p)
    (hcancel : s.cancelling r = false) (hdue : ∀ n, s.turnOf r = some n → Due s.feed n) :
    Inv (s.move r .reading) := by
  have hlive : s.phase r ≠ .done := by simp [hr]
  have hacc : (s.phase r).accepted = true := by rw [hr]; rfl
  exact h.move (by simp) (fun _ => h.turned.known r (.inr hacc)) (by simp) hlive (fun _ => hdue)
    (h.locked.place ⟨rfl, rfl, rfl, rfl, rfl, rfl⟩ rfl hacc.symm (fun hdone => absurd hdone hlive)
      ⟨by simp, by simp⟩ (by simp [Phase.between]) nofun
      (fun hcancelling => absurd (hcancel.symm.trans hcancelling) Bool.false_ne_true))

/-- **Step lemma.** -/
theorem Inv.step {e : Event} (h : Inv s) (hgood : Orderly s e) (hs : step s e = some t) :
    Inv t := by
  cases e with
  | check r stale =>
    simp only [Chat.step, Option.ite_none_right_eq_some] at hs
    obtain ⟨hr, hs⟩ := hs
    split at hs
    case h_1 hbusy =>
      cases hs
      obtain ⟨hnone, -⟩ := hgood (.inl hbusy)
      refine h.before (.inl hr) (.inl rfl) fun _ => ⟨hbusy, fun c hc => ?_⟩
      obtain ⟨hchecked, hsubmitted⟩ := hnone c
      cases hphase : s.phase c <;> rw [hphase] at hc <;> simp_all [Phase.between]
    case h_2 old hbusy =>
      split at hs
      case isFalse =>
        cases hs
        exact h.before (.inl hr) (.inr rfl) fun hfalse => by cases hfalse
      case isTrue hstale =>
        cases hs
        obtain ⟨hnone, hreading⟩ := hgood (.inr hstale)
        have hold := hreading old hbusy
        have hgive : Locked { s with
            lock := none
            released := s.released
            cancelling := update s.cancelling old true
            freed := update s.freed old true } := by
          refine h.locked.giveUp hbusy (by simp [hold]) (fun p hp => .inl hp) fun r' hr' => ?_
          by_cases hrr : r' = old
          · exact .inr ⟨hrr, hold⟩
          · exact .inl (by simpa [hrr] using hr')
        have hgiven : Inv { s with
            lock := none
            released := s.released
            cancelling := update s.cancelling old true
            freed := update s.freed old true } :=
          ⟨h.replied.frame rfl rfl rfl (fun _ hd => hd) (fun _ _ hn => hn),
            h.turned.same rfl rfl rfl, hgive⟩
        refine hgiven.before (r := r) (.inl hr) (.inl rfl) fun _ => ⟨rfl, fun c hc => ?_⟩
        obtain ⟨hchecked, hsubmitted⟩ := hnone c
        cases hphase : s.phase c <;> simp_all [Phase.between]
  | fails r =>
    obtain ⟨hr, rfl⟩ := Steps.of_guard hs
    exact h.before (.inr hr) (.inr rfl) fun hfalse => by cases hfalse
  | submit r =>
    obtain ⟨hr, rfl⟩ := Steps.of_guard hs
    refine ⟨h.replied.frame rfl rfl rfl (fun r' hr' => ?_) (fun r' n hn => ?_),
      h.turned.submit hr, h.locked.submit hr⟩
    · by_cases hrr : r' = r
      · subst hrr
        exact absurd hr' (by simp [State.move])
      · exact (move_phase_of_ne .submitted hrr).symm.trans hr'
    · have hrr : r' ≠ r := by
        rintro rfl
        have hnone := h.turned.fresh r' (.inr hr)
        rw [hn] at hnone
        cases hnone
      exact (update_of_ne hrr _ s.turnOf).trans hn
  | register r =>
    obtain ⟨hr, rfl⟩ := Steps.of_guard hs
    refine ⟨h.replied.frame rfl rfl rfl (fun r' hr' => ?_) (fun r' n hn => hn),
      h.turned.place rfl rfl rfl (fun _ => h.turned.known r (.inl hr)) (by simp)
        (fun _ => by simp [hr]) (by simp), h.locked.register hr⟩
    by_cases hrr : r' = r
    · subst hrr
      exact absurd hr' (by simp [State.move])
    · exact (move_phase_of_ne .registered hrr).symm.trans hr'
  | start r =>
    obtain ⟨⟨hr, hcancel⟩, rfl⟩ := Steps.of_guard hs
    exact h.start hr hcancel
  | begin r =>
    simp only [Chat.step] at hs
    split at hs
    case h_1 p hr =>
      simp only [Option.ite_none_right_eq_some, Option.some.injEq] at hs
      obtain ⟨⟨hcancel, -⟩, rfl⟩ := hs
      exact h.begin hr hcancel hgood
    case h_2 => cases hs
  | put i =>
    obtain ⟨hmay, rfl⟩ := Steps.of_guard hs
    exact ⟨h.replied.frame rfl rfl rfl (fun _ hd => hd) (fun _ _ hn => hn),
      h.turned.put hmay hgood, h.locked.same ⟨rfl, rfl, rfl, rfl, rfl, rfl⟩ rfl⟩
  | read r =>
    simp only [Chat.step] at hs
    split at hs
    case h_1 => cases hs
    case h_2 i rest hqueue =>
      simp only [Option.ite_none_right_eq_some, Option.some.injEq] at hs
      obtain ⟨hr, rfl⟩ := hs
      exact h.read hr.1 hqueue
  | timeout r =>
    obtain ⟨hr, rfl⟩ := Steps.of_guard hs
    exact h.close hr.1 .error
  | crash r =>
    obtain ⟨hr, rfl⟩ := Steps.of_guard hs
    exact h.close hr.1 .error
  | cancelled r =>
    simp only [Chat.step, Option.ite_none_right_eq_some] at hs
    obtain ⟨hcancel, hs⟩ := hs
    rcases h.locked.cancelling r hcancel with hr | hr
    · simp only [hr, Option.some.injEq] at hs
      obtain rfl := hs
      exact h.close hr .aborted
    · simp only [hr] at hs
      cases hs
  | release =>
    simp only [Chat.step] at hs
    split at hs
    case h_1 hbusy =>
      cases hs
      exact ⟨h.replied.frame rfl rfl rfl (fun _ hd => hd) (fun _ _ hn => hn),
        h.turned.same rfl rfl rfl, h.locked.unlock hbusy⟩
    case h_2 r hbusy =>
      cases hs
      refine ⟨h.replied.frame rfl rfl rfl (fun _ hd => hd) (fun _ _ hn => hn),
        h.turned.same rfl rfl rfl, h.locked.giveUp hbusy (hgood r hbusy) (fun p hp => ?_)
          fun r' hr' => .inl hr'⟩
      exact .inr (Option.some.inj hp).symm

theorem Inv.progress (h : Inv s) (n : Nat) (r : Nat) (hr : s.Undrained r)
    (hn : s.turnOf r = some n) : ∃ r', s.Undrained r' ∧ s.Moves r' := by
  induction n using Nat.strongRecOn generalizing r with
  | ind n ih =>
    cases hcancel : s.cancelling r with
    | true =>
      refine ⟨r, hr, .cancelled r, by simp, ?_⟩
      rcases h.locked.cancelling r hcancel with hp | hp
      · simp [Chat.step, hcancel, hp]
      · exact absurd hp ((undrained_iff r).mp hr).2
    | false =>
      rcases hr with hp | ⟨predecessor, hp⟩ | hp
      · exact ⟨r, .inl hp, .start r, by simp, by simp [Chat.step, hp, hcancel]⟩
      · cases predecessor with
        | none =>
          exact ⟨r, .inr (.inl ⟨none, hp⟩), .begin r, by simp, by simp [Chat.step, hp, hcancel]⟩
        | some q =>
          by_cases hdone : s.phase q = .done
          · exact ⟨r, .inr (.inl ⟨some q, hp⟩), .begin r, by simp,
              by simp [Chat.step, hp, hcancel, hdone]⟩
          · obtain ⟨hacc, hlt⟩ := h.locked.behind r q hp
            obtain ⟨m, hm⟩ := h.turned.known q (.inr hacc)
            exact ih m (hlt m n hm hn) q ((undrained_iff q).mpr ⟨hacc, hdone⟩) hm
      · exact ⟨r, .inr (.inr hp), .timeout r, by simp, by simp [Chat.step, State.Reads, hp, hcancel]⟩

theorem Inv.outcomes (h : Inv s) : Outcomes s where
  once := fun r => by
    rw [h.replied.count r]
    split <;> omega
  drained := fun r hr => by
    rw [h.replied.count r, h.replied.done r hr]
    rfl
  progress := fun r hr => by
    obtain ⟨n, hn⟩ := h.turned.known r (.inr ((undrained_iff r).mp hr).1)
    exact h.progress n r hr hn
  own := h.replied.own
  consumed := h.replied.consumed
  single := fun r r' hr hr' hfree hfree' => by
    obtain ⟨hacc, hlive⟩ := (undrained_iff r).mp hr
    obtain ⟨hacc', hlive'⟩ := (undrained_iff r').mp hr'
    have hlock := h.locked.held r hacc hlive hfree
    rw [h.locked.held r' hacc' hlive' hfree'] at hlock
    exact (Option.some.inj hlock).symm

/-- One request that gets its message. -/
def oneTurn : List Event :=
  [.check 1 false, .submit 1, .register 1, .start 1, .begin 1, .put ⟨some 0, .message⟩,
    .put ⟨some 0, .complete⟩, .read 1, .read 1]

theorem oneTurn_runs : (run step init oneTurn).isSome := by decide

/-- The first turn fails: its drain ends on the error, and the end of the turn stays in the queue
for the drain of the second request. -/
def failedTurn : List Event :=
  [.check 1 false, .submit 1, .register 1, .start 1, .begin 1, .put ⟨some 0, .error⟩,
    .put ⟨some 0, .complete⟩, .read 1, .check 2 false, .submit 2, .register 2, .start 2, .begin 2,
    .read 2]

theorem failedTurn_runs : (run step init failedTurn).isSome := by decide

end MiqroForge.Chat
