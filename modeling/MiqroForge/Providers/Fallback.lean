import Mathlib.Data.List.Infix
import MiqroForge.Providers.Response

/-!
`ProviderFallbackChain`.

* `takes_effect_iff`: a call does what the chain is for iff it names no other model than the active
  one, and no provider before the first that succeeds reports its failure as a response.
-/

namespace MiqroForge.Providers

open PyText List

/-! ## The chain -/

/-- What a provider makes of a request. -/
inductive Reply where
  | response (response : LLMResponse)
  | raises (message : Text)

def retriableKeywords : List Text :=
  ["401", "403", "429", "500", "502", "503", "529", "unauthorized", "rate limit", "overloaded",
    "service unavailable", "bad gateway", "connection", "timeout", "timed out"].map String.toList

/-- `_is_retriable_error`, of the message of an exception. -/
def isRetriableError (lower : Text → Text) (message : Text) : Bool :=
  retriableKeywords.any fun keyword => decide (keyword <:+: lower message)

/-- The `chat` of a provider, which answers an exception of its client with a response. -/
def chatReply (outcome : Except (Text × Option Text) LLMResponse) : Reply :=
  match outcome with
  | .ok response => .response response
  | .error (message, kind) =>
    .response
      { content := some ("Error calling LLM: ".toList ++ message)
        finishReason := "error".toList, errorKind := kind }

/-- The chain by the models of its providers; `active` counts from the primary, at 0. -/
structure ProviderFallbackChain where
  primaryModel : Text
  fallbackModels : List Text
  active : Nat
  active_le : active ≤ fallbackModels.length

/-- A call's answer, the providers that were tried with the models they were given, and the
provider that is active then. -/
structure CallResult where
  reply : Reply
  tried : List (Nat × Text)
  active : Nat

/-- The loop of `chat_with_fallback`: the provider at `position` is asked for `model`, and `rest`
are the models behind it. -/
def tryProviders (lower : Text → Text) (replies : Nat → Text → Reply) :
    Nat → Text → List Text → CallResult
  | position, model, rest =>
    match replies position model with
    | .response response => ⟨.response response, [(position, model)], position⟩
    | .raises message =>
      if !isRetriableError lower message then ⟨.raises message, [(position, model)], position⟩
      else
        match rest with
        | [] => ⟨.raises message, [(position, model)], position⟩
        | next :: rest =>
          let result := tryProviders lower replies (position + 1) next rest
          { result with tried := (position, model) :: result.tried }
  termination_by structural _ _ rest => rest

namespace ProviderFallbackChain

/-- `__init__`, where `builds` says for which models a provider can be built. -/
def init (primaryModel : Text) (entries : List Text) (builds : Text → Bool) :
    ProviderFallbackChain :=
  ⟨primaryModel, entries.filter fun model => !model.isEmpty && builds model, 0, Nat.zero_le _⟩

variable (lower : Text → Text) (chain : ProviderFallbackChain)

def models : List Text := chain.primaryModel :: chain.fallbackModels

theorem active_lt : chain.active < chain.models.length := Nat.lt_succ_of_le chain.active_le

def activeModel : Text := chain.models.get ⟨chain.active, chain.active_lt⟩

def restorePrimary : ProviderFallbackChain := { chain with active := 0, active_le := Nat.zero_le _ }

/-- `model or self.active_model`. -/
def effectiveModel (model : Option Text) : Text :=
  if model.getD [] = [] then chain.activeModel else model.getD []

def chatWithFallback (replies : Nat → Text → Reply) (model : Option Text) : CallResult :=
  tryProviders lower replies chain.active (chain.effectiveModel model)
    (chain.models.drop (chain.active + 1))

/-- The replies of the providers from the active one on, each to its own model. -/
def ownReplies (replies : Nat → Text → Reply) : List Reply :=
  (chain.models.drop chain.active).zipIdx chain.active |>.map fun e => replies e.2 e.1

end ProviderFallbackChain

/-! ## What the chain is for -/

/-- The reply is a success. -/
def Reply.Succeeds (reply : Reply) (response : LLMResponse) : Prop :=
  reply = .response response ∧ response.failed = false

/-- A failure that another provider is to be tried for, raised or reported. -/
def Reply.failsRetriably (lower : Text → Text) : Reply → Bool
  | .raises message => isRetriableError lower message
  | .response r => r.failed && isRetriableError lower (r.content.getD [])

def Reply.isRaised : Reply → Bool
  | .raises _ => true
  | .response _ => false

section Effect
variable (lower : Text → Text)

/-- The first success of the providers, all before it having failed with a retriable error. -/
def FirstSuccess (replies : List Reply) (before : List Reply) (response : LLMResponse) : Prop :=
  ∃ reply behind, replies = before ++ reply :: behind ∧ reply.Succeeds response ∧
    ∀ r ∈ before, r.failsRetriably lower = true

/-- What is asked of a call. -/
structure TakesEffect (chain : ProviderFallbackChain) (replies : Nat → Text → Reply)
    (model : Option Text) : Prop where
  first : ∀ before response, FirstSuccess lower (chain.ownReplies replies) before response →
    (chain.chatWithFallback lower replies model).reply = .response response
  once : ((chain.chatWithFallback lower replies model).tried.map Prod.fst).Nodup
  own : ∀ e ∈ (chain.chatWithFallback lower replies model).tried, chain.models[e.1]? = some e.2
  restored : ((chain.restorePrimary.chatWithFallback lower replies model).tried.head?).map
    Prod.fst = some 0

/-- The call names no model, or the active one. -/
def NamesActive (chain : ProviderFallbackChain) (model : Option Text) : Prop :=
  ∀ name, model = some name → name = [] ∨ name = chain.activeModel

/-- The providers before the first success raise their failures. -/
def FailuresRaised (chain : ProviderFallbackChain) (replies : Nat → Text → Reply) : Prop :=
  ∀ before response, FirstSuccess lower (chain.ownReplies replies) before response →
    ∀ r ∈ before, r.isRaised = true

/-! ## The loop -/

/-- The providers with their models, from a position on. -/
def slots (position : Nat) : List Text → List (Nat × Text)
  | [] => []
  | model :: models => (position, model) :: slots (position + 1) models

variable {lower} {replies : Nat → Text → Reply} {position : Nat} {model : Text} {rest : List Text}

theorem slots_fst (position : Nat) (models : List Text) :
    (slots position models).map Prod.fst = List.range' position models.length := by
  induction models generalizing position with
  | nil => rfl
  | cons model models ih =>
    rw [slots, map_cons, ih, length_cons, range'_succ]

theorem mem_slots {models : List Text} {e : Nat × Text} (he : e ∈ slots position models) :
    position ≤ e.1 ∧ models[e.1 - position]? = some e.2 := by
  induction models generalizing position with
  | nil => cases he
  | cons m models ih =>
    rcases mem_cons.mp he with rfl | he
    · exact ⟨Nat.le_refl _, by simp⟩
    · obtain ⟨hle, hget⟩ := ih he
      refine ⟨by omega, ?_⟩
      rw [show e.1 - position = (e.1 - (position + 1)) + 1 by omega, getElem?_cons_succ]
      exact hget

theorem tried_initial (lower : Text → Text) (replies : Nat → Text → Reply) (position : Nat)
    (model : Text) (rest : List Text) :
    (tryProviders lower replies position model rest).tried <+:
      slots position (model :: rest) ∧
    (tryProviders lower replies position model rest).tried.head? = some (position, model) := by
  induction rest generalizing position model with
  | nil =>
    rw [tryProviders]
    split
    · exact ⟨prefix_refl _, rfl⟩
    · split <;> exact ⟨prefix_refl _, rfl⟩
  | cons next rest ih =>
    have hone : [(position, model)] <+: slots position (model :: next :: rest) :=
      ⟨slots (position + 1) (next :: rest), rfl⟩
    rw [tryProviders]
    split
    · exact ⟨hone, rfl⟩
    · split
      · exact ⟨hone, rfl⟩
      · exact ⟨(prefix_cons_inj _).mpr (ih (position + 1) next).1, rfl⟩

/-- The replies of the slots. -/
def slotReplies (replies : Nat → Text → Reply) (slots : List (Nat × Text)) : List Reply :=
  slots.map fun e => replies e.1 e.2

/-- The first reply that ends the loop. -/
def lastReply (lower : Text → Text) : Reply → List Reply → Reply
  | reply, [] => reply
  | reply, next :: rest =>
    match reply with
    | .response response => .response response
    | .raises message =>
      if isRetriableError lower message then lastReply lower next rest else .raises message

theorem tryProviders_reply (lower : Text → Text) (replies : Nat → Text → Reply) (position : Nat)
    (model : Text) (rest : List Text) :
    (tryProviders lower replies position model rest).reply =
      lastReply lower (replies position model)
        (slotReplies replies (slots (position + 1) rest)) := by
  induction rest generalizing position model with
  | nil =>
    rw [tryProviders]
    cases replies position model with
    | response response => rfl
    | raises message =>
      simp only
      split <;> rfl
  | cons next rest ih =>
    rw [tryProviders, slots, slotReplies, map_cons]
    cases replies position model with
    | response response => rfl
    | raises message =>
      simp only [lastReply]
      cases hretriable : isRetriableError lower message with
      | false => rfl
      | true => exact ih (position + 1) next

theorem firstSuccess_cons {reply : Reply} {replies before : List Reply} {response : LLMResponse} :
    FirstSuccess lower (reply :: replies) before response ↔
      (before = [] ∧ reply.Succeeds response) ∨
        ∃ before', before = reply :: before' ∧ reply.failsRetriably lower = true ∧
          FirstSuccess lower replies before' response := by
  constructor
  · rintro ⟨r, behind, heq, hr, hbefore⟩
    cases before with
    | nil =>
      obtain ⟨rfl, -⟩ := List.cons.inj heq
      exact Or.inl ⟨rfl, hr⟩
    | cons b before =>
      obtain ⟨rfl, rfl⟩ := List.cons.inj heq
      obtain ⟨hb, hrest⟩ := forall_mem_cons.mp hbefore
      exact Or.inr ⟨before, rfl, hb, r, behind, rfl, hr, hrest⟩
  · rintro (⟨rfl, hr⟩ | ⟨before', rfl, hb, r, behind, rfl, hr, hrest⟩)
    · exact ⟨reply, replies, rfl, hr, forall_mem_nil _⟩
    · exact ⟨r, behind, rfl, hr, forall_mem_cons.mpr ⟨hb, hrest⟩⟩

theorem lastReply_first (lower : Text → Text) (reply : Reply) (rest : List Reply) :
    (∀ before response, FirstSuccess lower (reply :: rest) before response →
      lastReply lower reply rest = .response response) ↔
      ∀ before response, FirstSuccess lower (reply :: rest) before response →
        ∀ r ∈ before, r.isRaised = true := by
  induction rest generalizing reply with
  | nil =>
    refine iff_of_true (fun before response h => ?_) (fun before response h => ?_)
    · rcases firstSuccess_cons.mp h with ⟨-, hr⟩ | ⟨_, -, -, r, behind, heq, -⟩
      · exact hr.1
      · exact absurd heq (by simp)
    · rcases firstSuccess_cons.mp h with ⟨rfl, -⟩ | ⟨_, -, -, r, behind, heq, -⟩
      · exact forall_mem_nil _
      · exact absurd heq (by simp)
  | cons next rest ih =>
    cases reply with
    | response r =>
      -- the loop ends here, so no success may lie behind
      constructor
      · intro h before response hfirst
        rcases firstSuccess_cons.mp hfirst with ⟨rfl, -⟩ | ⟨before', rfl, hfails, hrest⟩
        · exact forall_mem_nil _
        · obtain rfl := Reply.response.inj (h _ response hfirst)
          obtain ⟨_, _, -, hsucceeds, -⟩ := hrest
          rw [Reply.failsRetriably, hsucceeds.2] at hfails
          cases hfails
      · intro h before response hfirst
        rcases firstSuccess_cons.mp hfirst with ⟨rfl, hr⟩ | ⟨before', rfl, -, -⟩
        · exact hr.1
        · have hraised := h _ response hfirst _ mem_cons_self
          cases hraised
    | raises message =>
      cases hretriable : isRetriableError lower message with
      | false =>
        have hnone : ∀ before response,
            ¬ FirstSuccess lower (.raises message :: next :: rest) before response := by
          intro before response hfirst
          rcases firstSuccess_cons.mp hfirst with ⟨-, hr, -⟩ | ⟨_, -, hfails, -⟩
          · cases hr
          · rw [Reply.failsRetriably, hretriable] at hfails
            cases hfails
        exact iff_of_true (fun _ _ h => absurd h (hnone _ _)) (fun _ _ h => absurd h (hnone _ _))
      | true =>
        have hlast : lastReply lower (.raises message) (next :: rest) =
            lastReply lower next rest := by
          simp only [lastReply]
          rw [if_pos hretriable]
        rw [hlast]
        constructor
        · intro h before response hfirst
          rcases firstSuccess_cons.mp hfirst with ⟨-, hr, -⟩ | ⟨before', rfl, -, hrest⟩
          · cases hr
          · refine forall_mem_cons.mpr ⟨rfl, ?_⟩
            refine (ih next).mp (fun b resp hb => ?_) before' response hrest
            exact h (.raises message :: b) resp
              (firstSuccess_cons.mpr (Or.inr ⟨b, rfl, hretriable, hb⟩))
        · intro h before response hfirst
          rcases firstSuccess_cons.mp hfirst with ⟨-, hr, -⟩ | ⟨before', rfl, -, hrest⟩
          · cases hr
          · refine (ih next).mpr (fun b resp hb => ?_) before' response hrest
            have hcons := h (.raises message :: b) resp
              (firstSuccess_cons.mpr (Or.inr ⟨b, rfl, hretriable, hb⟩))
            exact (forall_mem_cons.mp hcons).2

end Effect

/-! ## A call -/

section Call
variable {lower : Text → Text} {chain : ProviderFallbackChain} {replies : Nat → Text → Reply}
  {model : Option Text}

theorem drop_active (chain : ProviderFallbackChain) :
    chain.models.drop chain.active =
      chain.activeModel :: chain.models.drop (chain.active + 1) := by
  rw [drop_eq_getElem_cons chain.active_lt]
  rfl

theorem slotReplies_zipIdx (replies : Nat → Text → Reply) (position : Nat) (models : List Text) :
    slotReplies replies (slots position models) =
      (models.zipIdx position).map fun e => replies e.2 e.1 := by
  induction models generalizing position with
  | nil => rfl
  | cons model models ih =>
    rw [slots, zipIdx_cons, slotReplies, map_cons, map_cons, ← ih]
    rfl

theorem ownReplies_cons (chain : ProviderFallbackChain) (replies : Nat → Text → Reply) :
    chain.ownReplies replies = replies chain.active chain.activeModel ::
      slotReplies replies (slots (chain.active + 1) (chain.models.drop (chain.active + 1))) := by
  rw [ProviderFallbackChain.ownReplies, drop_active, zipIdx_cons, map_cons,
    slotReplies_zipIdx]

theorem chatWithFallback_active (h : NamesActive chain model) :
    chain.chatWithFallback lower replies model =
      tryProviders lower replies chain.active chain.activeModel
        (chain.models.drop (chain.active + 1)) := by
  have hmodel : chain.effectiveModel model = chain.activeModel := by
    rw [ProviderFallbackChain.effectiveModel]
    split
    case isTrue => rfl
    case isFalse hne =>
      cases model with
      | none => exact absurd rfl hne
      | some name => exact (h name rfl).resolve_left hne
  rw [ProviderFallbackChain.chatWithFallback, hmodel]

theorem once_tried : ((chain.chatWithFallback lower replies model).tried.map Prod.fst).Nodup := by
  rw [ProviderFallbackChain.chatWithFallback]
  have hprefix := (tried_initial lower replies chain.active (chain.effectiveModel model)
    (chain.models.drop (chain.active + 1))).1
  have hmap := hprefix.map Prod.fst
  rw [slots_fst] at hmap
  exact hmap.sublist.nodup nodup_range'

theorem restored_tried :
    ((chain.restorePrimary.chatWithFallback lower replies model).tried.head?).map Prod.fst =
      some 0 := by
  rw [ProviderFallbackChain.chatWithFallback, (tried_initial _ _ _ _ _).2]
  rfl

theorem own_tried (h : NamesActive chain model) :
    ∀ e ∈ (chain.chatWithFallback lower replies model).tried, chain.models[e.1]? = some e.2 := by
  rw [chatWithFallback_active h]
  intro e he
  have hmem := (tried_initial lower replies chain.active chain.activeModel _).1.subset he
  rw [← drop_active] at hmem
  obtain ⟨hle, hget⟩ := mem_slots hmem
  rwa [getElem?_drop, Nat.add_sub_of_le hle] at hget

/-- **The chain.** In every state it can be in between calls. -/
theorem takes_effect_iff (lower : Text → Text) (chain : ProviderFallbackChain)
    (replies : Nat → Text → Reply) (model : Option Text) :
    TakesEffect lower chain replies model ↔
      NamesActive chain model ∧ FailuresRaised lower chain replies := by
  have hiff : NamesActive chain model →
      ((∀ before response, FirstSuccess lower (chain.ownReplies replies) before response →
        (chain.chatWithFallback lower replies model).reply = .response response) ↔
          FailuresRaised lower chain replies) := by
    intro hactive
    rw [chatWithFallback_active hactive, tryProviders_reply, FailuresRaised, ownReplies_cons]
    exact lastReply_first lower _ _
  constructor
  · intro h
    have hactive : NamesActive chain model := by
      rintro name rfl
      by_cases hname : name = []
      · exact Or.inl hname
      · right
        have hmodel : chain.effectiveModel (some name) = name := if_neg hname
        have hhead := (tried_initial lower replies chain.active name
          (chain.models.drop (chain.active + 1))).2
        have hown := h.own (chain.active, name) ?_
        · rw [List.getElem?_eq_getElem chain.active_lt] at hown
          exact (Option.some.inj hown).symm
        · rw [ProviderFallbackChain.chatWithFallback, hmodel]
          exact List.mem_of_mem_head? hhead
    exact ⟨hactive, (hiff hactive).mp h.first⟩
  · rintro ⟨hactive, hraised⟩
    exact ⟨(hiff hactive).mpr hraised, once_tried, own_tried hactive, restored_tried⟩

/-- Two providers, of which the first is not available. -/
def outage : Nat → Text → Reply
  | 0, _ => chatReply (.error ("503".toList, some "transient".toList))
  | _, _ => chatReply (.ok { content := some "hello".toList })

/-- The first provider reports its failure as a response, which is returned. -/
theorem outage_returned : ¬ TakesEffect id
    ⟨"a".toList, ["b".toList], 0, Nat.zero_le _⟩ outage none := by
  intro h
  have hfirst := h.first [chatReply (.error ("503".toList, some "transient".toList))]
    { content := some "hello".toList } ?_
  · have hfailed := congrArg (Reply.failsRetriably id) hfirst
    revert hfailed
    decide
  · refine ⟨_, [], rfl, ⟨rfl, by decide⟩, List.forall_mem_singleton.mpr ?_⟩
    decide

end Call

end MiqroForge.Providers
