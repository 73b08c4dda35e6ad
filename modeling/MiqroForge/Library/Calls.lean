import Mathlib.Data.List.Basic

/-!
Programs that call services which may fail. Such a program follows a list of calls when
it fails as the first failing call of the list does, and returns when none fails.
-/

namespace Calls

/-- A program over a state; the state survives a failure. -/
def Prog (ε σ α : Type) := σ → Except ε α × σ

section Programs

variable {ε σ ι α β : Type}

instance : Monad (Prog ε σ) where
  pure a s := (.ok a, s)
  bind p f s :=
    match p s with
    | (.ok a, t) => f a t
    | (.error e, t) => (.error e, t)

instance : MonadExceptOf ε (Prog ε σ) where
  throw e s := (.error e, s)
  tryCatch p h s :=
    match p s with
    | (.ok a, t) => (.ok a, t)
    | (.error e, t) => h e t

/-- Change the state. -/
def update (f : σ → σ) : Prog ε σ Unit := fun s => (.ok (), f s)

/-- Run `p` and change the state behind it, whether it fails or not. -/
def ensure (p : Prog ε σ α) (f : σ → σ) : Prog ε σ α := fun s => ((p s).1, f (p s).2)

/-- Run `p` if `b`. -/
def when (b : Bool) (p : Prog ε σ Unit) : Prog ε σ Unit := if b then p else pure ()

/-- Call `c`, which fails as `reply c` says; others may change the state meanwhile. -/
def call (reply : ι → Option ε) (others : ι → σ → σ) (c : ι) : Prog ε σ Unit := do
  update (others c)
  match reply c with
  | none => pure ()
  | some e => throw e

variable {p : Prog ε σ α}

theorem bind_of_ok {s t : σ} {a : α} (f : α → Prog ε σ β)
    (h : p s = (.ok a, t)) : (p >>= f) s = f a t := by
  show (match p s with
    | (.ok a, t) => f a t
    | (.error e, t) => (.error e, t)) = f a t
  rw [h]

theorem bind_of_error {s t : σ} {e : ε} (f : α → Prog ε σ β)
    (h : p s = (.error e, t)) : (p >>= f) s = (.error e, t) := by
  show (match p s with
    | (.ok a, t) => f a t
    | (.error e, t) => (.error e, t)) = (.error e, t)
  rw [h]

theorem tryCatch_of_ok {s t : σ} {a : α} (f : ε → Prog ε σ α)
    (h : p s = (.ok a, t)) : (tryCatch p f : Prog ε σ α) s = (.ok a, t) := by
  show (match p s with
    | (.ok a, t) => (.ok a, t)
    | (.error e, t) => f e t) = (.ok a, t)
  rw [h]

theorem tryCatch_of_error {s t : σ} {e : ε} (f : ε → Prog ε σ α)
    (h : p s = (.error e, t)) : (tryCatch p f : Prog ε σ α) s = f e t := by
  show (match p s with
    | (.ok a, t) => (.ok a, t)
    | (.error e, t) => f e t) = f e t
  rw [h]

end Programs

/-! ## Following a list of calls -/

section Follows

variable {ε σ ι : Type} (reply : ι → Option ε) (m : σ → Nat)

/-- How `p` ends from every state: as the first failing call of `calls` does, with the measure
`m` unchanged, or normally when none fails, with `m` raised by `n`. -/
def Follows (calls : List ι) (n : Nat) (p : Prog ε σ Unit) : Prop :=
  ∀ s, match calls.findSome? reply with
    | none => ∃ t, p s = (.ok (), t) ∧ m t = m s + n
    | some e => ∃ t, p s = (.error e, t) ∧ m t = m s

variable {reply m}

variable {calls : List ι}

theorem Follows.returns {n : Nat} {p : Prog ε σ Unit}
    (h : Follows reply m calls n p) (hc : calls.findSome? reply = none) (s : σ) :
    ∃ t, p s = (.ok (), t) ∧ m t = m s + n := by
  have hs := h s
  rw [hc] at hs
  exact hs

theorem Follows.fails {n : Nat} {p : Prog ε σ Unit} {e : ε}
    (h : Follows reply m calls n p) (hc : calls.findSome? reply = some e) (s : σ) :
    ∃ t, p s = (.error e, t) ∧ m t = m s := by
  have hs := h s
  rw [hc] at hs
  exact hs

theorem follows_of_cases {n : Nat} {p : Prog ε σ Unit}
    (hok : calls.findSome? reply = none → ∀ s, ∃ t, p s = (.ok (), t) ∧ m t = m s + n)
    (herr : ∀ e, calls.findSome? reply = some e → ∀ s, ∃ t, p s = (.error e, t) ∧ m t = m s) :
    Follows reply m calls n p := by
  intro s
  split
  case h_1 h => exact hok h s
  case h_2 e h => exact herr e h s

theorem follows_pure : Follows reply m [] 0 (pure ()) := fun s => ⟨s, rfl, rfl⟩

theorem follows_update {n : Nat} {f : σ → σ} (hf : ∀ s, m (f s) = m s + n) :
    Follows reply m [] n (update f) := fun s => ⟨f s, rfl, hf s⟩

theorem follows_call (others : ι → σ → σ) (hm : ∀ c s, m (others c s) = m s) (c : ι) :
    Follows reply m [c] 0 (call reply others c) := by
  have hrun : ∀ s, call reply others c s =
      match reply c with
      | none => (.ok (), others c s)
      | some e => (.error e, others c s) := by
    intro s
    show (match reply c with
      | none => (pure () : Prog ε σ Unit)
      | some e => throw e) (others c s) = _
    cases reply c <;> rfl
  intro s
  simp only [List.findSome?_cons, List.findSome?_nil, hrun]
  cases reply c with
  | none => exact ⟨_, rfl, hm c s⟩
  | some e => exact ⟨_, rfl, hm c s⟩

/-- **Sequencing**: the calls of the second program come behind those of the first. -/
theorem Follows.seq {calls calls' : List ι} {n : Nat} {p q : Prog ε σ Unit}
    (hp : Follows reply m calls 0 p) (hq : Follows reply m calls' n q) :
    Follows reply m (calls ++ calls') n (p >>= fun _ => q) := by
  refine follows_of_cases ?_ ?_
  · intro h s
    rw [List.findSome?_append, Option.or_eq_none_iff] at h
    obtain ⟨t, ht, hmt⟩ := hp.returns h.1 s
    obtain ⟨u, hu, hmu⟩ := hq.returns h.2 t
    refine ⟨u, ?_, by omega⟩
    rw [bind_of_ok _ ht]
    exact hu
  · intro e h s
    rw [List.findSome?_append] at h
    cases hfirst : calls.findSome? reply with
    | none =>
      rw [hfirst, Option.none_or] at h
      obtain ⟨t, ht, hmt⟩ := hp.returns hfirst s
      obtain ⟨u, hu, hmu⟩ := hq.fails h t
      refine ⟨u, ?_, by omega⟩
      rw [bind_of_ok _ ht]
      exact hu
    | some e' =>
      rw [hfirst, Option.some_or] at h
      cases h
      obtain ⟨t, ht, hmt⟩ := hp.fails hfirst s
      exact ⟨t, bind_of_error _ ht, hmt⟩

theorem Follows.last {n : Nat} {p : Prog ε σ Unit}
    (hp : Follows reply m calls n p) : Follows reply m (calls ++ []) n p := by
  rwa [List.append_nil]

theorem follows_ite {b : Bool} {calls calls' : List ι} {n : Nat} {p q : Prog ε σ Unit}
    (hp : Follows reply m calls n p) (hq : Follows reply m calls' n q) :
    Follows reply m (if b then calls else calls') n (if b then p else q) := by
  split
  · exact hp
  · exact hq

theorem follows_when {b : Bool} {calls : List ι} {p : Prog ε σ Unit}
    (hp : Follows reply m calls 0 p) :
    Follows reply m (if b then calls else []) 0 (when b p) := follows_ite hp follows_pure

theorem follows_forM {α : Type} {xs : List α} {calls : α → List ι} {p : α → Prog ε σ Unit}
    (h : ∀ x ∈ xs, Follows reply m (calls x) 0 (p x)) :
    Follows reply m (xs.flatMap calls) 0 (xs.forM p) := by
  induction xs with
  | nil => exact follows_pure
  | cons x xs ih =>
    have hx := h x List.mem_cons_self
    have hxs := ih fun y hy => h y (List.mem_cons_of_mem x hy)
    rw [List.flatMap_cons]
    exact hx.seq hxs

/-- **Catching**: the handler of the first failure comes instead of the calls. -/
theorem Follows.tryCatch {p : Prog ε σ Unit} {h : ε → Prog ε σ Unit}
    (hp : Follows reply m calls 0 p) (hcalls : ε → List ι)
    (hh : ∀ e, calls.findSome? reply = some e → Follows reply m (hcalls e) 0 (h e)) :
    Follows reply m (match calls.findSome? reply with
      | none => calls
      | some e => hcalls e) 0 (tryCatch p h) := by
  intro s
  cases hfirst : calls.findSome? reply with
  | none =>
    obtain ⟨t, ht, hmt⟩ := hp.returns hfirst s
    simp only [hfirst]
    exact ⟨t, tryCatch_of_ok h ht, hmt⟩
  | some e =>
    obtain ⟨t, ht, hmt⟩ := hp.fails hfirst s
    have hrun := tryCatch_of_error h ht
    have hhs := hh e hfirst t
    simp only []
    cases hsecond : (hcalls e).findSome? reply with
    | none =>
      simp only [hsecond] at hhs ⊢
      obtain ⟨u, hu, hmu⟩ := hhs
      exact ⟨u, hrun.trans hu, by omega⟩
    | some e' =>
      simp only [hsecond] at hhs ⊢
      obtain ⟨u, hu, hmu⟩ := hhs
      exact ⟨u, hrun.trans hu, by omega⟩

theorem follows_throw {n : Nat} {e : ε} (h : calls.findSome? reply = some e) :
    Follows reply m calls n (throw e) := by
  intro s
  rw [h]
  exact ⟨s, rfl, rfl⟩

end Follows

/-! ## What programs leave and write -/

section Keeps

variable {ε σ ι β : Type} {g : σ → β}

/-- `p` leaves `g` of the state as it is, whether it fails or not. -/
def Keeps (g : σ → β) (p : Prog ε σ Unit) : Prop := ∀ s, g (p s).2 = g s

theorem keeps_pure : Keeps g (pure () : Prog ε σ Unit) := fun _ => rfl

theorem keeps_throw (e : ε) : Keeps g (throw e : Prog ε σ Unit) := fun _ => rfl

theorem keeps_update {f : σ → σ} (hf : ∀ s, g (f s) = g s) :
    Keeps g (update f : Prog ε σ Unit) := hf

theorem Keeps.seq {p q : Prog ε σ Unit} (hp : Keeps g p) (hq : Keeps g q) :
    Keeps g (p >>= fun _ => q) := by
  intro s
  rcases hs : p s with ⟨_ | _, t⟩
  · rw [bind_of_error _ hs, ← hp s, hs]
  · rw [bind_of_ok _ hs, hq t, ← hp s, hs]

theorem keeps_call (reply : ι → Option ε) {others : ι → σ → σ}
    (hg : ∀ c s, g (others c s) = g s) (c : ι) : Keeps g (call reply others c) := by
  apply (keeps_update (hg c)).seq
  cases reply c with
  | none => exact keeps_pure
  | some e => exact keeps_throw e

theorem keeps_when {b : Bool} {p : Prog ε σ Unit} (hp : Keeps g p) : Keeps g (when b p) := by
  unfold when
  split
  · exact hp
  · exact keeps_pure

theorem keeps_forM {α : Type} {xs : List α} {p : α → Prog ε σ Unit} (h : ∀ x ∈ xs, Keeps g (p x)) :
    Keeps g (xs.forM p) := by
  induction xs with
  | nil => exact keeps_pure
  | cons x xs ih =>
    have hx := h x List.mem_cons_self
    have hxs := ih fun y hy => h y (List.mem_cons_of_mem x hy)
    exact hx.seq hxs

theorem Keeps.tryCatch {p : Prog ε σ Unit} {h : ε → Prog ε σ Unit} (hp : Keeps g p)
    (hh : ∀ e, Keeps g (h e)) : Keeps g (tryCatch p h) := by
  intro s
  rcases hs : p s with ⟨e | _, t⟩
  · rw [tryCatch_of_error h hs, hh e t, ← hp s, hs]
  · rw [tryCatch_of_ok h hs, ← hp s, hs]

end Keeps

section Appends

variable {ε σ ι β : Type} {reply : ι → Option ε} {m : σ → Nat} {g : σ → List β}

/-- `p` writes `xs` behind the log `g` of the state if the calls return, and nothing otherwise. -/
def Appends (reply : ι → Option ε) (g : σ → List β) (calls : List ι) (xs : List β)
    (p : Prog ε σ Unit) : Prop :=
  ∀ s, g (p s).2 = g s ++ if calls.findSome? reply = none then xs else []

theorem Keeps.appends {calls : List ι} {p q : Prog ε σ Unit} {calls' : List ι} {xs : List β}
    (hk : Keeps g p) (hf : Follows reply m calls 0 p) (hq : Appends reply g calls' xs q) :
    Appends reply g (calls ++ calls') xs (p >>= fun _ => q) := by
  intro s
  have hs := hk s
  rw [List.findSome?_append]
  cases hc : calls.findSome? reply with
  | none =>
    obtain ⟨t, ht, -⟩ := hf.returns hc s
    rw [ht] at hs
    rw [bind_of_ok _ ht, hq t, hs, Option.none_or]
  | some e =>
    obtain ⟨t, ht, -⟩ := hf.fails hc s
    rw [ht] at hs
    rw [bind_of_error _ ht, hs, Option.some_or, if_neg (by simp), List.append_nil]

theorem Appends.keeps {calls : List ι} {p q : Prog ε σ Unit} {xs : List β}
    (hp : Appends reply g calls xs p) (hq : Keeps g q) :
    Appends reply g calls xs (p >>= fun _ => q) := by
  intro s
  rw [← hp s]
  rcases hs : p s with ⟨_ | _, t⟩
  · rw [bind_of_error _ hs]
  · rw [bind_of_ok _ hs, hq t]

end Appends

/-! ## Outcomes -/

section Outcomes

variable {ε σ α β : Type} {P : σ → Prop} {Q : α → σ → Prop} {E : σ → Prop}

/-- Started where `P` holds, `p` returns with `Q` or fails with `E`. -/
def Outcome (P : σ → Prop) (p : Prog ε σ α) (Q : α → σ → Prop) (E : σ → Prop) : Prop :=
  ∀ s, P s → match p s with
    | (.ok a, t) => Q a t
    | (.error _, t) => E t

theorem outcome_pure {a : α} (h : ∀ s, P s → Q a s) : Outcome P (pure a : Prog ε σ α) Q E := h

theorem outcome_throw {e : ε} (h : ∀ s, P s → E s) : Outcome P (throw e : Prog ε σ α) Q E := h

theorem outcome_update {f : σ → σ} {R : σ → Prop} (h : ∀ s, P s → R (f s)) :
    Outcome P (update f : Prog ε σ Unit) (fun _ => R) E := h

theorem outcome_of_run {p : Prog ε σ α} (h : ∀ s, P s → ∃ a t, p s = (.ok a, t) ∧ Q a t) :
    Outcome P p Q E := by
  intro s hs
  obtain ⟨a, t, hrun, hq⟩ := h s hs
  rw [hrun]
  exact hq

theorem Outcome.pre {P' : σ → Prop} {p : Prog ε σ α} (h : Outcome P p Q E)
    (hp : ∀ s, P' s → P s) : Outcome P' p Q E := fun s hs => h s (hp s hs)

theorem Outcome.weaken {Q' : α → σ → Prop} {E' : σ → Prop} {p : Prog ε σ α}
    (h : Outcome P p Q E) (hq : ∀ a s, Q a s → Q' a s) (he : ∀ s, E s → E' s) :
    Outcome P p Q' E' := by
  intro s hs
  have hrun := h s hs
  rcases hps : p s with ⟨e | a, t⟩
  · rw [hps] at hrun
    exact he t hrun
  · rw [hps] at hrun
    exact hq a t hrun

theorem Outcome.behind {R : σ → Prop} {p : Prog ε σ α} (h : Outcome P p (fun _ => R) R) {s : σ}
    (hs : P s) : R (p s).2 := by
  have hrun := h s hs
  rcases hps : p s with ⟨_ | _, t⟩
  · rw [hps] at hrun
    exact hrun
  · rw [hps] at hrun
    exact hrun

theorem Outcome.bind {R : α → σ → Prop} {Q : β → σ → Prop} {p : Prog ε σ α}
    {f : α → Prog ε σ β} (hp : Outcome P p R E) (hf : ∀ a, Outcome (R a) (f a) Q E) :
    Outcome P (p >>= f) Q E := by
  intro s hs
  have hrun := hp s hs
  rcases h : p s with ⟨e | a, t⟩
  · rw [h] at hrun
    rw [bind_of_error f h]
    exact hrun
  · rw [h] at hrun
    rw [bind_of_ok f h]
    exact hf a t hrun

theorem Outcome.ignore {R : σ → Prop} {p : Prog ε σ α} (h : Outcome P p (fun _ => R) E) (b : β) :
    Outcome P (do
      let _ ← p
      return b) (fun _ => R) E :=
  h.bind fun _ => outcome_pure fun _ hs => hs

theorem Outcome.tryCatch {R : σ → Prop} {p : Prog ε σ α} {h : ε → Prog ε σ α}
    (hp : Outcome P p Q R) (hh : ∀ e, Outcome R (h e) Q E) : Outcome P (tryCatch p h) Q E := by
  intro s hs
  have hrun := hp s hs
  rcases hps : p s with ⟨e | a, t⟩
  · rw [hps] at hrun
    rw [tryCatch_of_error h hps]
    exact hh e t hrun
  · rw [hps] at hrun
    rw [tryCatch_of_ok h hps]
    exact hrun

end Outcomes

end Calls
