import MiqroForge.Registry.Requests

/-!
The ids of a session on the way of a `chat.send`: the transport derives one, the handler looks the
runtime up under it and has it created under another, and the lock, the subscription and a later
`chat.abort` go by the first.
-/

set_option linter.unusedSectionVars false

namespace MiqroForge.Registry

open PyText

/-- The parameters of `chat.send` and `chat.abort` that name a session or a thread. -/
structure Params where
  sessionKey : Option Text
  sessionId : Option Text
  threadId : Option Text

namespace Params
variable (p : Params)

/-- `params.get("session_key") or params.get("session_id")` -/
def named : Option Text :=
  match p.sessionKey with
  | some (ch :: key) => some (ch :: key)
  | _ => p.sessionId

/-- `params.get("session_key", "desktop:default")` -/
def key : Text :=
  p.sessionKey.getD ['d', 'e', 's', 'k', 't', 'o', 'p', ':', 'd', 'e', 'f', 'a', 'u', 'l', 't']

/-- `params.get("thread_id", session_key)` -/
def thread : Text := p.threadId.getD p.key

/-- `typed.thread_id or params.get("session_key") or "default"` -/
def abortThread : Text :=
  match p.threadId, p.sessionKey with
  | some (ch :: thread), _ => ch :: thread
  | _, some (ch :: key) => ch :: key
  | _, _ => ['d', 'e', 'f', 'a', 'u', 'l', 't']

end Params

/-- `prefix = f"{client_id}:"` -/
def clientPrefix (client : Text) : Text := client ++ [':']

/-- The session id that `_dispatch_one_line` derives. -/
def derive (client : Text) (p : Params) : Option Text :=
  match p.named with
  | some (ch :: name) =>
    if clientPrefix client <+: ch :: name then some (ch :: name)
    else some (sessionId client (ch :: name))
  | unnamed => unnamed

/-- `runtime_id = session_id or f"{client_id}:{session_key}"` -/
def runtimeId (client : Text) (p : Params) : Text :=
  match derive client p with
  | some (ch :: id) => ch :: id
  | _ => sessionId client p.key

/-- The calls of the registry that a request makes, what ends their awaits, and the rest of what it
passes to `create_session`. -/
structure Serving where
  get : Nat
  getEvents : List Event
  create : Nat
  createEvents : List Event
  manager : Option Nat
  folder : Bool

inductive Submission where
  | userMessage (thread : Text)
  | abortTurn (thread : Text)

/-- `_drain_chat_events` for one turn: the runtime it reads and the session it emits to. -/
structure Drain where
  runtime : Nat
  session : Text
  done : Bool
  /-- Not active for `STALE_TURN_TIMEOUT`. -/
  stale : Bool

structure Bridge where
  registry : State
  /-- `_session_drain_tasks`: who has one that is not done holds the turn lock. -/
  drains : Text → Option Drain
  /-- `_subscriptions` -/
  subscriptions : Text → Finset Text
  submissions : Nat → List Submission

section Requests
variable (idleTimeout : Nat)

/-- How `_chat_send_handler` comes to its runtime. -/
def reach (s : State) (client : Text) (p : Params) (v : Serving) : Option (State × Nat) :=
  match call idleTimeout s v.get (.get v.get client (runtimeId client p)) v.getEvents with
  | none => none
  | some (t, some runtime) => some (t, runtime)
  | some (t, none) =>
    match call idleTimeout t v.create (.create v.create client p.key v.manager v.folder)
        v.createEvents with
    | some (u, some runtime) => some (u, runtime)
    | _ => none

/-- `_chat_send_handler`, when it accepts: `none` is an error, or an await that has not ended. -/
def send (b : Bridge) (client : Text) (p : Params) (v : Serving) : Option (Bridge × Nat) :=
  -- a request without a client id is refused
  if client = [] then none
  else
    match reach idleTimeout b.registry client p v with
    | none => none
    | some (t, runtime) =>
      let id := runtimeId client p
      -- TURN_IN_PROGRESS
      if (b.drains id).any fun d => !d.done && !d.stale then none
      else some ({
        registry := t
        drains := Function.update b.drains id (some ⟨runtime, id, false, false⟩)
        -- `subscribe` ignores a client that the session does not know
        subscriptions := if client ∈ t.sessionClients id then
            Function.update b.subscriptions id (insert client (b.subscriptions id))
          else b.subscriptions
        submissions := Function.update b.submissions runtime
          (b.submissions runtime ++ [.userMessage p.thread]) }, runtime)

/-- `_chat_abort`, when it answers `aborted`. -/
def abort (b : Bridge) (client : Text) (p : Params) (c : Nat) (es : List Event) : Option Bridge :=
  match derive client p with
  -- nobody is authorized for `None`
  | none => none
  | some id =>
    match call idleTimeout b.registry c (.get c client id) es with
    | some (t, some runtime) => some { b with
        registry := t
        -- `release_turn_lock`
        drains := if id = [] then b.drains else Function.update b.drains id none
        submissions := Function.update b.submissions runtime
          (b.submissions runtime ++ [.abortTurn p.abortThread]) }
    | _ => none

/-- The session key reaches one runtime on every path: the runtime is registered under the id that
the transport derives, the turn holds the lock of this id and the client hears its events, an abort
with the same parameters reaches the runtime and frees the lock, and the bare and the prefixed
spelling lead to it as long as the client may use it. -/
structure Reached (b : Bridge) (client : Text) (p : Params) (runtime : Nat) (id : Text) :
    Prop where
  derived : derive client p = some id
  registered : Table.get? b.registry.sessions id = some runtime
  locked : ∃ d, b.drains id = some d ∧ d.runtime = runtime ∧ d.done = false ∧
    client ∈ b.subscriptions d.session
  aborts : ∀ c, b.registry.phase c = .idle → ∃ b', abort idleTimeout b client p c [] = some b' ∧
    Submission.abortTurn p.abortThread ∈ b'.submissions runtime ∧ b'.drains id = none
  later : ∀ events t, Steps.run (step idleTimeout) b.registry events = some t →
    t.lookup client id = some runtime → ∀ q key, q.sessionKey = some key →
    sessionId client key = id ∨ key = id → ∀ v u runtime',
    reach idleTimeout t client q v = some (u, runtime') → runtime' = runtime

end Requests

/-- The name of the session, without one prefix. -/
def Params.plain (p : Params) (client : Text) : Option Text :=
  match p.named with
  | some (ch :: name) =>
    if clientPrefix client <+: ch :: name then some ((ch :: name).drop (clientPrefix client).length)
    else some (ch :: name)
  | _ => none

/-- The parameters name a session, and by a name that is not prefixed twice. The client may use a
runtime under its id already, or the name is the key that the handler creates the session with. -/
def Addressed (s : State) (client : Text) (p : Params) : Prop :=
  ∃ name, p.plain client = some name ∧ name ≠ [] ∧ ¬ clientPrefix client <+: name ∧
    (s.lookup client (sessionId client name) ≠ none ∨
      p.key = name ∧ ¬ s.stale (sessionId client name))

variable {idleTimeout : Nat} {s t : State} {client name id : Text} {p : Params}

theorem sessionId_eq (client name : Text) : sessionId client name = clientPrefix client ++ name := by
  simp [sessionId, clientPrefix]

theorem sessionId_ne_nil (client name : Text) : sessionId client name ≠ [] := by
  simp [sessionId]

theorem sessionId_inj {name' : Text} (h : sessionId client name = sessionId client name') :
    name = name' := by
  rw [sessionId_eq, sessionId_eq] at h
  exact List.append_cancel_left h

theorem derive_of_plain (h : p.plain client = some name) :
    derive client p = some (sessionId client name) := by
  unfold Params.plain at h
  unfold derive
  split at h
  case h_2 => cases h
  case h_1 ch rest _ =>
    split at h
    case isFalse hno =>
      rw [if_neg hno, Option.some.inj h]
    case isTrue hpre =>
      rw [if_pos hpre, ← Option.some.inj h, sessionId_eq,
        List.prefix_iff_eq_append.mp hpre]

theorem runtimeId_of_derive (h : derive client p = some (sessionId client name)) :
    runtimeId client p = sessionId client name := by
  unfold runtimeId
  rw [h]
  cases hid : sessionId client name with
  | nil => exact absurd hid (sessionId_ne_nil client name)
  | cons => rfl

theorem derive_of_unnamed (h : p.plain client = none) (hid : derive client p = some id) :
    id = [] := by
  unfold Params.plain at h
  unfold derive at hid
  split at h
  case h_1 => split at h <;> cases h
  case h_2 hnot =>
    split at hid
    case h_1 hnamed => exact absurd hnamed (hnot _ _)
    case h_2 =>
      cases id with
      | nil => rfl
      | cons ch rest => exact absurd hid (hnot ch rest)

theorem plain_of_bare {key : Text} (hkey : p.sessionKey = some key) (hne : key ≠ [])
    (hpre : ¬ clientPrefix client <+: key) : p.plain client = some key := by
  cases key with
  | nil => exact absurd rfl hne
  | cons ch rest => simp [Params.plain, Params.named, hkey, hpre]

theorem plain_of_prefixed (hkey : p.sessionKey = some (sessionId client name)) :
    p.plain client = some name := by
  have hpre : clientPrefix client <+: sessionId client name :=
    ⟨name, (sessionId_eq client name).symm⟩
  have hdrop : (sessionId client name).drop (clientPrefix client).length = name := by
    rw [sessionId_eq, List.drop_left]
  cases hid : sessionId client name with
  | nil => exact absurd hid (sessionId_ne_nil client name)
  | cons ch rest =>
    rw [hid] at hpre hdrop hkey
    simp [Params.plain, Params.named, hkey, hpre, hdrop]

theorem reach_cases {v : Serving} {r : Nat} (h : reach idleTimeout s client p v = some (t, r)) :
    (s.lookup client (runtimeId client p) = some r ∧ ∀ x, Same s t x) ∨
    s.lookup client (runtimeId client p) = none ∧
      (runtimeId client p = sessionId client p.key ∨ t.lookup client (runtimeId client p) = none) ∧
      Table.get? t.sessions (sessionId client p.key) = some r ∧
      client ∈ t.sessionClients (sessionId client p.key) ∧
      (runtimeId client p = sessionId client p.key →
        (t.lookup client (sessionId client p.key) ≠ none ↔
          ¬ s.stale (sessionId client p.key))) := by
  unfold reach at h
  split at h
  case h_1 => cases h
  case h_2 t' r' hget =>
    cases h
    obtain ⟨hresult, hid, hsame⟩ := call_get hget
    refine .inl ⟨hresult.symm, fun x => ?_⟩
    by_cases hx : x = runtimeId client p
    · rcases hid with hid | ⟨hnone, -⟩
      · exact hx ▸ hid
      · rw [hnone] at hresult
        cases hresult
    · exact hsame x hx
  case h_3 t' hget =>
    obtain ⟨hresult, hid, hsame⟩ := call_get hget
    split at h
    case h_2 => cases h
    case h_1 u r' hcreate =>
      cases h
      obtain ⟨hreg, hclient, hmatch, -, hother⟩ := call_create hcreate
      refine .inr ⟨hresult.symm, ?_, hreg, hclient, fun heq => ?_⟩
      · by_cases heq : runtimeId client p = sessionId client p.key
        · exact .inl heq
        · refine .inr (((hother _ heq).lookup client).trans ?_)
          rcases hid with hid | ⟨-, -, hclear⟩
          · exact (hid.lookup client).trans hresult.symm
          · exact hclear.lookup client
      · have hlookup : t.lookup client (sessionId client p.key) ≠ none ↔
            t.accountMatches (sessionId client p.key) = true := by
          unfold State.lookup
          rw [hreg]
          simp [hclient]
        rw [hlookup, hmatch, not_iff_not, ← heq]
        rcases hid with hid | ⟨-, hsome, hclear⟩
        · unfold State.stale
          rw [hid.sessions, hid.account, hid.root]
        · exact iff_of_false (fun hc => hc.2.1 hclear.account) fun hc => hsome hc.1

theorem reach_of_lookup {v : Serving} {u : State} {r r' : Nat}
    (hr : s.lookup client (runtimeId client p) = some r)
    (h : reach idleTimeout s client p v = some (u, r')) : r' = r := by
  rcases reach_cases h with ⟨hlookup, -⟩ | ⟨hlookup, -⟩
  · rw [hr] at hlookup
    exact (Option.some.inj hlookup).symm
  · rw [hr] at hlookup
    cases hlookup

theorem runtimeId_of_spelling {key : Text} (hne : name ≠ []) (hpre : ¬ clientPrefix client <+: name)
    (hkey : p.sessionKey = some key)
    (hspell : sessionId client key = sessionId client name ∨ key = sessionId client name) :
    runtimeId client p = sessionId client name := by
  rcases hspell with heq | heq
  · have hname := sessionId_inj heq
    subst hname
    exact runtimeId_of_derive (derive_of_plain (plain_of_bare hkey hne hpre))
  · subst heq
    exact runtimeId_of_derive (derive_of_plain (plain_of_prefixed hkey))

theorem send_some {b b' : Bridge} {v : Serving} {r : Nat}
    (h : send idleTimeout b client p v = some (b', r)) :
    client ≠ [] ∧ reach idleTimeout b.registry client p v = some (b'.registry, r) ∧
      b'.drains = Function.update b.drains (runtimeId client p)
        (some ⟨r, runtimeId client p, false, false⟩) ∧
      (client ∈ b'.registry.sessionClients (runtimeId client p) →
        client ∈ b'.subscriptions (runtimeId client p)) := by
  unfold send at h
  split at h
  case isTrue => cases h
  case isFalse hclient =>
    split at h
    case h_1 => cases h
    case h_2 t r' hreach =>
      dsimp only at h
      split at h
      case isTrue => cases h
      case isFalse =>
        cases h
        refine ⟨hclient, hreach, rfl, fun hm => ?_⟩
        simp [hm]

theorem lookup_of_abort {b b' : Bridge} {c : Nat} {es : List Event}
    (hid : derive client p = some id) (h : abort idleTimeout b client p c es = some b') :
    b.registry.lookup client id ≠ none := by
  unfold abort at h
  rw [hid] at h
  dsimp only at h
  split at h
  case h_2 => cases h
  case h_1 t r hget =>
    rw [← (call_get hget).1]
    simp

theorem abort_of_lookup {b : Bridge} {c r : Nat} (hid : derive client p = some id) (hne : id ≠ [])
    (hidle : b.registry.phase c = .idle) (h : b.registry.lookup client id = some r) :
    ∃ b', abort idleTimeout b client p c [] = some b' ∧
      Submission.abortTurn p.abortThread ∈ b'.submissions r ∧ b'.drains id = none := by
  obtain ⟨t, hcall, -⟩ : ∃ t, call idleTimeout b.registry c (.get c client id) [] =
      some (t, some r) ∧ ∀ x, Same b.registry t x := call_get_of_lookup hidle h
  have habort : abort idleTimeout b client p c [] = some { b with
      registry := t
      drains := Function.update b.drains id none
      submissions := Function.update b.submissions r
        (b.submissions r ++ [.abortTurn p.abortThread]) } := by
    unfold abort
    rw [hid]
    simp only [hcall, hne, ↓reduceIte]
  refine ⟨_, habort, ?_, Function.update_self ..⟩
  simp

theorem reached_of_addressed {b b' : Bridge} {v : Serving} {r : Nat}
    (h : send idleTimeout b client p v = some (b', r)) (ha : Addressed b.registry client p) :
    ∃ id, Reached idleTimeout b' client p r id := by
  obtain ⟨name, hplain, hne, hpre, hway⟩ := ha
  obtain ⟨-, hreach, hdrains, hsub⟩ := send_some h
  have hderive := derive_of_plain hplain
  have hid := runtimeId_of_derive hderive
  have hlookup : b'.registry.lookup client (sessionId client name) = some r := by
    rcases reach_cases hreach with ⟨hold, hsame⟩ | ⟨hold, -, hreg, hclient, hstale⟩
    · rw [hid] at hold
      exact ((hsame _).lookup client).trans hold
    · rw [hid] at hold hstale
      rcases hway with hway | ⟨hkey, hnot⟩
      · exact absurd hold hway
      · rw [hkey] at hstale hreg
        obtain ⟨r', hr'⟩ := Option.ne_none_iff_exists'.mp ((hstale rfl).mpr hnot)
        have hreg' := (lookup_eq_some.mp hr').2.2
        rw [hr', ← hreg', hreg]
  obtain ⟨hclient, -, hreg⟩ := lookup_eq_some.mp hlookup
  rw [hid] at hdrains hsub
  refine ⟨sessionId client name, hderive, hreg, ⟨⟨r, sessionId client name, false, false⟩, ?_, rfl,
    rfl, hsub hclient⟩, fun c hidle => abort_of_lookup hderive (sessionId_ne_nil client name) hidle
    hlookup, ?_⟩
  · rw [hdrains, Function.update_self]
  · intro events t _ ht q key hkey hspell v' u r' hreach'
    refine reach_of_lookup ?_ hreach'
    rw [runtimeId_of_spelling hne hpre hkey hspell]
    exact ht

theorem reach_run {v : Serving} {r : Nat} (h : reach idleTimeout s client p v = some (t, r)) :
    ∃ es, Steps.run (step idleTimeout) s es = some t := by
  unfold reach at h
  split at h
  case h_1 => cases h
  case h_2 t' r' hget =>
    cases h
    exact ⟨_, (call_some hget).2.1⟩
  case h_3 t' hget =>
    split at h
    case h_2 => cases h
    case h_1 u r' hcreate =>
      cases h
      refine ⟨(.get v.get client (runtimeId client p) :: v.getEvents) ++
        .create v.create client p.key v.manager v.folder :: v.createEvents, ?_⟩
      rw [Steps.run_append, (call_some hget).2.1]
      exact (call_some hcreate).2.1

theorem reach_free {v : Serving} {r : Nat} (hfree : s.queue = [])
    (h : reach idleTimeout s client p v = some (t, r)) : t.queue = [] := by
  unfold reach at h
  split at h
  case h_1 => cases h
  case h_2 t' r' hget =>
    cases h
    exact call_free hget fun _ => alone_get hfree
  case h_3 t' hget =>
    have hfree' : t'.queue = [] := call_free hget fun _ => alone_get hfree
    split at h
    case h_2 => cases h
    case h_1 u r' hcreate =>
      cases h
      exact call_free hcreate fun _ => alone_create hfree'

theorem lookup_inj {active : Root} {events : List Event}
    (hrun : Steps.run (step idleTimeout) (init active) events = some s) {id' : Text} {r : Nat}
    {client' : Text} (h : s.lookup client id = some r) (h' : s.lookup client' id' = some r) :
    id = id' := by
  have hinv : Inv s := inv_run hrun
  have hborn := (hinv.registered id r (lookup_eq_some.mp h).2.2).2
  exact hborn.unique (hinv.registered id' r (lookup_eq_some.mp h').2.2).2

theorem matches_readable (h : s.accountMatches id = true) :
    ({ s with readable := true } : State).accountMatches id = true := by
  unfold State.accountMatches at h ⊢
  cases haccount : s.sessionAccount id with
  | none => rfl
  | some recorded =>
    rw [haccount] at h
    cases hreadable : s.readable with
    | false => simp [State.currentAccountRoot, hreadable] at h
    | true => simpa [State.currentAccountRoot, hreadable] using h

theorem exists_other {active : Root} {events : List Event} {r : Nat}
    (hrun : Steps.run (step idleTimeout) (init active) events = some s) (hfree : s.queue = [])
    (h : s.lookup client id = some r) (key : Text) (hne : sessionId client key ≠ id) :
    ∃ es t r', Steps.run (step idleTimeout) s es = some t ∧ t.lookup client id = some r ∧
      t.lookup client (sessionId client key) = some r' := by
  obtain ⟨n, hn⟩ := exists_idle hrun
  obtain ⟨es, t, r', hcall⟩ : ∃ es t r', call idleTimeout { s with readable := true } n
      (.create n client key none false) es = some (t, some r') :=
    exists_create (s := { s with readable := true }) (hn n le_rfl) hfree client key
  obtain ⟨hreg, hclient, hmatch, -, hother⟩ := call_create hcall
  refine ⟨.switch s.active true :: .create n client key none false :: es, t, r', ?_, ?_, ?_⟩
  · have hswitch : step idleTimeout s (.switch s.active true) =
        some { s with readable := true } := rfl
    rw [Steps.run_cons_of_step _ _ hswitch]
    exact (call_some hcall).2.1
  · rw [(hother id hne.symm).lookup client]
    obtain ⟨hc, hm, hget⟩ := lookup_eq_some.mp h
    exact lookup_eq_some.mpr ⟨hc, matches_readable hm, hget⟩
  · refine lookup_eq_some.mpr ⟨hclient, hmatch.mpr fun hstale => ?_, hreg⟩
    exact absurd hstale.2.2 (by simp [State.currentAccountRoot])

theorem exists_astray (hclient : client ≠ []) (hbad : name = [] ∨ clientPrefix client <+: name) :
    ∃ q key, Params.sessionKey q = some name ∧ runtimeId client q = sessionId client key ∧
      key ≠ name := by
  rcases hbad with rfl | ⟨key, rfl⟩
  · have hpre : ¬ clientPrefix client <+: ['x'] := fun h => by
      have hlen := h.length_le
      have hpos := List.length_pos_of_ne_nil hclient
      simp only [clientPrefix, List.length_append, List.length_singleton] at hlen
      omega
    refine ⟨⟨some [], some ['x'], none⟩, ['x'], rfl, ?_, by decide⟩
    refine runtimeId_of_derive (derive_of_plain ?_)
    simp [Params.plain, Params.named, hpre]
  · refine ⟨⟨some (clientPrefix client ++ key), none, none⟩, key, rfl, ?_, fun heq => ?_⟩
    · refine runtimeId_of_derive (derive_of_plain (plain_of_prefixed ?_))
      rw [sessionId_eq]
    · have hlen := congrArg List.length heq
      simp only [clientPrefix, List.length_append, List.length_singleton] at hlen
      omega

theorem addressed_of_reached {active : Root} {events : List Event} {b b' : Bridge} {v : Serving}
    {r : Nat} (hrun : Steps.run (step idleTimeout) (init active) events = some b.registry)
    (hfree : b.registry.queue = []) (h : send idleTimeout b client p v = some (b', r))
    (hr : Reached idleTimeout b' client p r id) : Addressed b.registry client p := by
  obtain ⟨hclient, hreach, -, -⟩ := send_some h
  obtain ⟨es, hes⟩ := reach_run hreach
  have hrun' : Steps.run (step idleTimeout) (init active) (events ++ es) = some b'.registry := by
    rw [Steps.run_append, hrun]
    exact hes
  have hinv : Inv b'.registry := inv_run hrun'
  cases hplain : p.plain client with
  | none =>
    -- without a name the turn would have to run under the empty id
    have hid := derive_of_unnamed hplain hr.derived
    obtain ⟨-, -, req, -, hreq⟩ := hinv.registered id r hr.registered
    rw [hid] at hreq
    exact absurd hreq (sessionId_ne_nil _ _)
  | some name =>
    have hderive := derive_of_plain hplain
    obtain rfl : sessionId client name = id := Option.some.inj (hderive.symm.trans hr.derived)
    have hid := runtimeId_of_derive hderive
    obtain ⟨n, hn⟩ := exists_idle hrun'
    have hlookup : b'.registry.lookup client (sessionId client name) = some r := by
      obtain ⟨b'', habort, -⟩ := hr.aborts n (hn n le_rfl)
      obtain ⟨r', hr'⟩ := Option.ne_none_iff_exists'.mp (lookup_of_abort hderive habort)
      rw [hr', ← hr.registered, (lookup_eq_some.mp hr').2.2]
    have hname : ¬ (name = [] ∨ clientPrefix client <+: name) := fun hbad => by
      obtain ⟨q, key, hkey, hq, hne⟩ := exists_astray hclient hbad
      obtain ⟨es', t, r', hes', ht, ht'⟩ := exists_other hrun' (reach_free hfree hreach) hlookup key
        fun heq => hne (sessionId_inj heq)
      have hrun'' : Steps.run (step idleTimeout) (init active) ((events ++ es) ++ es') = some t := by
        rw [Steps.run_append, hrun']
        exact hes'
      obtain ⟨n', hn'⟩ := exists_idle hrun''
      obtain ⟨u, hu, -⟩ : ∃ u, call idleTimeout t n' (.get n' client (sessionId client key)) [] =
          some (u, some r') ∧ ∀ x, Same t u x := call_get_of_lookup (hn' n' le_rfl) ht'
      have hreach' : reach idleTimeout t client q ⟨n', [], 0, [], none, false⟩ = some (u, r') := by
        unfold reach
        rw [hq, hu]
      have hsame := hr.later es' t hes' ht q name hkey (.inl rfl) _ u r' hreach'
      rw [hsame] at ht'
      exact hne (sessionId_inj (lookup_inj hrun'' ht' ht))
    obtain ⟨hne, hpre⟩ := not_or.mp hname
    refine ⟨name, hplain, hne, hpre, ?_⟩
    rcases reach_cases hreach with ⟨hold, -⟩ | ⟨-, hway, -, -, hstale⟩
    · rw [hid] at hold
      exact .inl (by simp [hold])
    · rw [hid] at hway hstale
      rcases hway with heq | hnone
      · have hkey : p.key = name := (sessionId_inj heq).symm
        rw [hkey] at hstale
        exact .inr ⟨hkey, (hstale rfl).mp (by simp [hlookup])⟩
      · rw [hlookup] at hnone
        cases hnone

/-- **Which requests keep to one runtime**: those whose parameters address the session, from every
state that is reached; from those in which nobody holds the lock, no others. -/
theorem send_reaches_iff (idleTimeout : Nat) (active : Root) (events : List Event) (b b' : Bridge)
    (client : Text) (p : Params) (v : Serving) (runtime : Nat)
    (hrun : Steps.run (step idleTimeout) (init active) events = some b.registry)
    (h : send idleTimeout b client p v = some (b', runtime)) :
    (Addressed b.registry client p → ∃ id, Reached idleTimeout b' client p runtime id) ∧
    (b.registry.queue = [] → (∃ id, Reached idleTimeout b' client p runtime id) →
      Addressed b.registry client p) :=
  ⟨reached_of_addressed h, fun hfree ⟨_, hr⟩ => addressed_of_reached hrun hfree h hr⟩

/-- A bridge that nobody has used. -/
def Bridge.fresh (registry : State) : Bridge where
  registry := registry
  drains := fun _ => none
  subscriptions := fun _ => ∅
  submissions := fun _ => []

theorem send_reaches_bare : ∃ b' id, send 3600 (.fresh (init ['w'])) ['d'] ⟨some ['k'], none, none⟩
      ⟨0, [], 1, [.started 1 true true], none, false⟩ = some (b', 1) ∧
    Reached 3600 b' ['d'] ⟨some ['k'], none, none⟩ 1 id := by
  obtain ⟨id, hr⟩ := (send_reaches_iff 3600 ['w'] [] (.fresh (init ['w'])) _ ['d']
    ⟨some ['k'], none, none⟩ ⟨0, [], 1, [.started 1 true true], none, false⟩ 1 rfl rfl).1
    ⟨['k'], rfl, by decide, by decide, .inr ⟨rfl, fun h => h.2.1 rfl⟩⟩
  exact ⟨_, id, rfl, hr⟩

/-- The first message under `d:k` from the client `d` makes its runtime under `d:d:k`, where neither
the turn lock nor an abort looks. -/
theorem prefixed_key_astray : ∃ b', send 3600 (.fresh (init ['w'])) ['d']
      ⟨some ['d', ':', 'k'], none, none⟩ ⟨0, [], 1, [.started 1 true true], none, false⟩ =
        some (b', 1) ∧
    Table.get? b'.registry.sessions ['d', ':', 'd', ':', 'k'] = some 1 ∧
    b'.subscriptions ['d', ':', 'k'] = ∅ ∧
    abort 3600 b' ['d'] ⟨some ['d', ':', 'k'], none, none⟩ 2 [] = none ∧
    ¬ ∃ id, Reached 3600 b' ['d'] ⟨some ['d', ':', 'k'], none, none⟩ 1 id := by
  refine ⟨_, rfl, rfl, rfl, rfl, fun ⟨id, hr⟩ => ?_⟩
  have hid : ['d', ':', 'k'] = id := Option.some.inj hr.derived
  have hreg := hr.registered
  rw [← hid] at hreg
  cases hreg

end MiqroForge.Registry
