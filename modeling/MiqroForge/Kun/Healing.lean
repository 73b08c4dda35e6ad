import MiqroForge.Kun.Compactor
import MiqroForge.Library.CallRepair

/-!
`heal_loaded_history_items`: loaded items are normalized, results of no call are dropped, and a
stub is put behind each call without a result.
-/

namespace MiqroForge.Kun.Healing

open PyText Json CallRepair List
open Compactor (get kind)

/-- What Python makes of JSON values: `key` is what a set tells them apart by, `none` where they
cannot be hashed; `dumps` is `json.dumps(items, sort_keys=True, default=str)`. -/
structure Python (κ : Type) extends Compactor.Python where
  key : Value → Option κ
  dumps : List Value → Text

variable {κ : Type} (py : Python κ)

def toolCall : Text := "tool_call".toList
def toolResult : Text := "tool_result".toList

def callId (item : Dict) : Value := get item "callId" (.str [])

/-! ## Normalizing -/

/-- `item["id"] = f"item_healed_{index}_{kind}"` where there is no id. -/
def withId (item : Dict) (index : Nat) (kindText : Text) : Dict :=
  if py.truthy (get item "id" .null) then item
  else setField item "id".toList
    (.str ("item_healed_".toList ++ Nat.toDigits 10 index ++ '_' :: kindText))

/-- `_normalize_loaded_item`: the item as it is left, and what is returned. -/
def normalizeLoadedItem (item : Value) (index : Nat) : Value × Option Dict :=
  match item with
  | .obj item =>
    let kindText := py.str (get item "kind" (.str []))
    if kindText = [] then (.obj item, none)
    else
      let item := withId py item index kindText
      if (kindText = toolCall ∨ kindText = toolResult) ∧
          (py.truthy (get item "callId" .null) = false ∨
            py.truthy (get item "toolName" .null) = false) then (.obj item, none)
      else (.obj item, some item)
  | v => (v, none)

/-! ## Repairing -/

/-- The ids of the items of a kind. -/
def collectIds (name : Text) : List Dict → Option (List κ)
  | [] => some []
  | item :: items =>
    if kind item = name ∧ py.truthy (callId item) then do
      let k ← py.key (callId item)
      let ks ← collectIds name items
      some (k :: ks)
    else collectIds name items

/-- The result that stands in for a missing one. -/
def stub (item : Dict) : Dict :=
  [("kind".toList, .str toolResult),
    ("id".toList, .str ("item_healed_".toList ++ py.str (callId item) ++ "_stub".toList)),
    ("turnId".toList, get item "turnId" (.str [])),
    ("threadId".toList, get item "threadId" (.str [])),
    ("role".toList, .str "tool".toList),
    ("status".toList, .str "completed".toList),
    ("createdAt".toList, get item "createdAt" (.str [])),
    ("toolName".toList, get item "toolName" (.str [])),
    ("callId".toList, callId item),
    ("toolKind".toList, get item "toolKind" (.str toolCall)),
    ("output".toList, .str "[result not available — context was compressed]".toList),
    ("isError".toList, .bool false)]

section Healed
variable [DecidableEq κ]

/-- The second loop of `repair_model_history_items`. -/
def repairFrom (callIds resultIds : List κ) : List Dict → Option (List Dict)
  | [] => some []
  | item :: items =>
    if kind item = toolResult then do
      let k ← py.key (callId item)
      let rest ← repairFrom callIds resultIds items
      some (if k ∈ callIds then item :: rest else rest)
    else if kind item = toolCall ∧ py.truthy (callId item) then do
      let k ← py.key (callId item)
      let rest ← repairFrom callIds resultIds items
      some (if k ∈ resultIds then item :: rest else item :: stub py item :: rest)
    else do
      let rest ← repairFrom callIds resultIds items
      some (item :: rest)

/-- `repair_model_history_items`; `none` where an id cannot be hashed. -/
def repairModelHistoryItems (items : List Dict) : Option (List Dict) :=
  if items = [] then some items
  else do
    let callIds ← collectIds py toolCall items
    let resultIds ← collectIds py toolResult items
    repairFrom py callIds resultIds items

/-- What normalizing keeps of the items. -/
def normalized (items : List Value) : List Dict :=
  (items.zipIdx.map fun p => normalizeLoadedItem py p.1 p.2).filterMap Prod.snd

def healLoadedHistoryItems (items : List Value) : Option (List Dict × Bool) := do
  let repaired ← repairModelHistoryItems py (normalized py items)
  let items := items.zipIdx.map fun p => (normalizeLoadedItem py p.1 p.2).1
  some (repaired, decide (py.dumps items ≠ py.dumps (repaired.map .obj)))

end Healed

/-! ## Dictionaries -/

theorem find_setField (item : Dict) (name k : Text) (v : Value) :
    (setField item name v).find? (fun e => e.1 == k) =
      if name = k then some (name, v) else item.find? fun e => e.1 == k := by
  unfold setField
  split
  case isTrue hany =>
    rw [find?_map]
    by_cases hk : name = k
    · subst hk
      have hsame : (fun e : Text × Value => e.1 == name) ∘
          (fun e => if e.1 = name then (name, v) else e) = fun e => e.1 == name := by
        funext e
        by_cases he : e.1 = name <;> simp [he]
      obtain ⟨e, he⟩ := Option.isSome_iff_exists.mp (find?_isSome.mpr (any_eq_true.mp hany))
      have hname : e.1 = name := by simpa using find?_some he
      rw [hsame, he, if_pos rfl, Option.map_some, if_pos hname]
    · have hsame : (fun e : Text × Value => e.1 == k) ∘
          (fun e => if e.1 = name then (name, v) else e) = fun e => e.1 == k := by
        funext e
        by_cases he : e.1 = name <;> simp [he]
      rw [hsame, if_neg hk]
      cases hfind : item.find? fun e => e.1 == k with
      | none => rfl
      | some e =>
        have hne : e.1 ≠ name := fun heq =>
          hk (heq.symm.trans (by simpa using find?_some hfind))
        rw [Option.map_some, if_neg hne]
  case isFalse hany =>
    rw [find?_append]
    by_cases hk : name = k
    · have hnone : (item.find? fun e => e.1 == k) = none :=
        find?_eq_none.mpr fun e he heq => hany (any_eq_true.mpr ⟨e, he, hk ▸ heq⟩)
      rw [hnone, if_pos hk]
      simp [hk]
    · rw [if_neg hk]
      simp [hk]

theorem get_setField (item : Dict) (name key : String) (v default : Value) :
    get (setField item name.toList v) key default =
      if name = key then v else get item key default := by
  rw [Compactor.get, find_setField]
  by_cases h : name = key
  · rw [if_pos (by rw [h]), if_pos h]
  · rw [if_neg fun heq => h (String.toList_inj.mp heq), if_neg h]
    rfl

theorem get_cons (k : Text) (v : Value) (item : Dict) (key : String) (default : Value) :
    get ((k, v) :: item) key default = if k = key.toList then v else get item key default := by
  rw [Compactor.get, find?_cons]
  by_cases h : k = key.toList
  · simp [h]
  · rw [if_neg h, beq_false_of_ne h]
    rfl

theorem get_truthy {py : Compactor.Python} {item : Dict} {key : String}
    (h : py.truthy (get item key .null) = true) (default : Value) :
    get item key default = get item key .null := by
  unfold Compactor.get at h ⊢
  split
  case h_1 => rfl
  case h_2 hnone =>
    rw [hnone] at h
    cases h

theorem kind_str {item : Dict} {name : Text} (hname : name ≠ []) (h : kind item = name) :
    get item "kind" (.str []) = .str name := by
  unfold kind at h
  split at h
  case h_1 s hs =>
    rw [hs, h]
  case h_2 => exact absurd h.symm hname

/-! ## Normalized items -/

/-- An item that normalizing leaves as it is. -/
structure Settled (item : Dict) : Prop where
  kinded : py.str (get item "kind" (.str [])) ≠ []
  named : py.truthy (get item "id" .null) = true
  tools : py.str (get item "kind" (.str [])) = toolCall ∨
    py.str (get item "kind" (.str [])) = toolResult →
      py.truthy (get item "callId" .null) = true ∧ py.truthy (get item "toolName" .null) = true

theorem Settled.normalize {item : Dict} (h : Settled py item) (index : Nat) :
    normalizeLoadedItem py (.obj item) index = (.obj item, some item) := by
  have hid : withId py item index (py.str (get item "kind" (.str []))) = item := if_pos h.named
  simp only [normalizeLoadedItem, if_neg h.kinded, hid]
  refine if_neg fun ⟨htool, hmissing⟩ => ?_
  obtain ⟨hcall, hname⟩ := h.tools htool
  rw [hcall, hname] at hmissing
  rcases hmissing with hmissing | hmissing <;> cases hmissing

theorem withId_kind (item : Dict) (index : Nat) (kindText : Text) {key : String} (h : "id" ≠ key)
    (default : Value) : get (withId py item index kindText) key default = get item key default := by
  unfold withId
  split
  · rfl
  · rw [get_setField, if_neg h]

theorem settled_of_normalize {v : Value} {index : Nat} {item : Dict}
    (h : (normalizeLoadedItem py v index).2 = some item) : Settled py item := by
  unfold normalizeLoadedItem at h
  split at h
  case h_2 => cases h
  case h_1 item₀ =>
    dsimp only at h
    split at h
    case isTrue => cases h
    case isFalse hkind =>
      split at h
      case isTrue => cases h
      case isFalse hkept =>
        cases h
        refine ⟨?_, ?_, ?_⟩
        · rw [withId_kind py item₀ index _ (by decide)]
          exact hkind
        · unfold withId
          split
          case isTrue hid => exact hid
          case isFalse =>
            rw [get_setField, if_pos rfl]
            simp [Compactor.Python.truthy]
        · rw [withId_kind py item₀ index _ (by decide)]
          intro htool
          rw [not_and_or] at hkept
          have hfields := hkept.resolve_left (not_not.mpr htool)
          simpa [not_or] using hfields

theorem settled_normalized {items : List Value} {item : Dict} (h : item ∈ normalized py items) :
    Settled py item := by
  obtain ⟨p, hp, heq⟩ := mem_filterMap.mp h
  obtain ⟨q, -, rfl⟩ := mem_map.mp hp
  exact settled_of_normalize py heq

theorem str_kind {item : Dict} {name : Text} (hname : name ≠ []) (h : kind item = name) :
    py.str (get item "kind" (.str [])) = name := by
  rw [kind_str hname h]
  rfl

theorem Settled.callId {item : Dict} (h : Settled py item)
    (htool : kind item = toolCall ∨ kind item = toolResult) :
    py.truthy (callId item) = true ∧ py.truthy (get item "toolName" .null) = true := by
  have hstr : py.str (get item "kind" (.str [])) = toolCall ∨
      py.str (get item "kind" (.str [])) = toolResult :=
    htool.imp (str_kind py (by decide)) (str_kind py (by decide))
  obtain ⟨hcall, hname⟩ := h.tools hstr
  refine ⟨?_, hname⟩
  rw [Healing.callId, get_truthy hcall]
  exact hcall

theorem get_stub (item : Dict) (default : Value) :
    get (stub py item) "kind" default = .str toolResult ∧
      py.truthy (get (stub py item) "id" default) = true ∧
      get (stub py item) "toolName" default = get item "toolName" (.str []) ∧
      get (stub py item) "callId" default = callId item := by
  refine ⟨?_, ?_, ?_, ?_⟩
  · rw [stub, get_cons, if_pos rfl]
  · rw [stub, get_cons, if_neg (by decide), get_cons, if_pos rfl, Compactor.Python.truthy,
      append_assoc]
    rfl
  · simp only [stub, get_cons, String.toList_inj]
    rfl
  · simp only [stub, get_cons, String.toList_inj]
    rfl

theorem kind_stub (item : Dict) : kind (stub py item) = toolResult := by
  rw [kind, (get_stub py item _).1]

theorem callId_stub (item : Dict) : callId (stub py item) = callId item := (get_stub py item _).2.2.2

theorem settled_stub {item : Dict} (h : Settled py item) (hcall : kind item = toolCall) :
    Settled py (stub py item) := by
  obtain ⟨hid, hname⟩ := h.callId py (Or.inl hcall)
  obtain ⟨-, hnamed, htool, hcallId⟩ := get_stub py item .null
  refine ⟨?_, hnamed, fun _ => ⟨hcallId ▸ hid, ?_⟩⟩
  · rw [(get_stub py item _).1]
    exact cons_ne_nil _ _
  · rw [htool, get_truthy hname]
    exact hname

/-! ## Repairing normalized items -/

/-- What an item is to the pairing. -/
def role (item : Dict) : Role κ :=
  match py.key (callId item) with
  | none => .other
  | some k =>
    if kind item = toolCall then .call k
    else if kind item = toolResult then .reply k
    else .other

/-- The id of a tool item can be hashed. -/
def Hashed (item : Dict) : Prop :=
  kind item = toolCall ∨ kind item = toolResult → (py.key (callId item)).isSome

theorem call_ne_result : toolCall ≠ toolResult := by decide

theorem role_call {item : Dict} {k : κ} :
    role py item = .call k ↔ kind item = toolCall ∧ py.key (callId item) = some k := by
  unfold role
  cases hkey : py.key (callId item) with
  | none => simp
  | some j =>
    by_cases hcall : kind item = toolCall
    · simp [hcall]
    · by_cases hresult : kind item = toolResult <;> simp [hcall, hresult, call_ne_result.symm]

theorem role_reply {item : Dict} {k : κ} :
    role py item = .reply k ↔ kind item = toolResult ∧ py.key (callId item) = some k := by
  unfold role
  cases hkey : py.key (callId item) with
  | none => simp
  | some j =>
    by_cases hcall : kind item = toolCall
    · simp [hcall, call_ne_result]
    · by_cases hresult : kind item = toolResult <;> simp [hcall, hresult, call_ne_result.symm]

theorem role_stub (item : Dict) (k : κ) (h : role py item = .call k) :
    role py (stub py item) = .reply k := by
  rw [role_reply, kind_stub, callId_stub]
  exact ⟨rfl, ((role_call py).mp h).2⟩

theorem collectIds_none {name : Text} {items : List Dict} {item : Dict} (hmem : item ∈ items)
    (hkind : kind item = name) (hid : py.truthy (callId item) = true)
    (hkey : py.key (callId item) = none) : collectIds py name items = none := by
  induction items with
  | nil => cases hmem
  | cons first items ih =>
    rw [collectIds]
    rcases mem_cons.mp hmem with rfl | hmem
    · rw [if_pos ⟨hkind, hid⟩, hkey]
      rfl
    · rw [ih hmem]
      split
      · cases py.key (callId first) <;> rfl
      · rfl

theorem collectIds_eq {name : Text} {items : List Dict} (h : ∀ item ∈ items, kind item = name →
      py.truthy (callId item) = true ∧ (py.key (callId item)).isSome) :
    collectIds py name items =
      some (items.filterMap fun item => if kind item = name then py.key (callId item) else none) := by
  induction items with
  | nil => rfl
  | cons item items ih =>
    have hrest := ih fun i hi => h i (mem_cons_of_mem item hi)
    rw [collectIds, hrest]
    by_cases hname : kind item = name
    · obtain ⟨hid, hkey⟩ := h item mem_cons_self hname
      obtain ⟨k, hk⟩ := Option.isSome_iff_exists.mp hkey
      rw [if_pos ⟨hname, hid⟩, hk, filterMap_cons_some (by rw [if_pos hname]; exact hk)]
      rfl
    · rw [if_neg fun hboth => hname hboth.1, filterMap_cons, if_neg hname]

theorem collectIds_roles {items : List Dict} (h : ∀ item ∈ items, Settled py item ∧ Hashed py item) :
    collectIds py toolCall items = some (callIds (role py) items) ∧
      collectIds py toolResult items = some (replyIds (role py) items) := by
  have hcalls : call? (role py) =
      fun item => if kind item = toolCall then py.key (callId item) else none := by
    funext item
    by_cases hname : kind item = toolCall
    · cases hkey : py.key (callId item) <;> simp [call?, role, hname, hkey]
    · cases hkey : py.key (callId item) <;>
        by_cases hresult : kind item = toolResult <;>
          simp [call?, role, hname, hkey, hresult, call_ne_result.symm]
  have hreplies : reply? (role py) =
      fun item => if kind item = toolResult then py.key (callId item) else none := by
    funext item
    by_cases hname : kind item = toolResult
    · cases hkey : py.key (callId item) <;> simp [reply?, role, hname, hkey, call_ne_result.symm]
    · cases hkey : py.key (callId item) <;>
        by_cases hcall : kind item = toolCall <;>
          simp [reply?, role, hname, hkey, hcall, call_ne_result]
  rw [callIds, replyIds, hcalls, hreplies]
  exact ⟨collectIds_eq py fun item hi hk =>
      ⟨((h item hi).1.callId py (Or.inl hk)).1, (h item hi).2 (Or.inl hk)⟩,
    collectIds_eq py fun item hi hk =>
      ⟨((h item hi).1.callId py (Or.inr hk)).1, (h item hi).2 (Or.inr hk)⟩⟩

section Repaired
variable [DecidableEq κ]

theorem repairFrom_eq (calls replies : List κ) {items : List Dict}
    (h : ∀ item ∈ items, Settled py item ∧ Hashed py item) :
    repairFrom py calls replies items =
      some (items.flatMap (mend (role py) calls replies (stub py))) := by
  induction items with
  | nil => rfl
  | cons item items ih =>
    have hrest := ih fun i hi => h i (mem_cons_of_mem item hi)
    obtain ⟨hsettled, hhashed⟩ := h item mem_cons_self
    rw [repairFrom, hrest, flatMap_cons]
    by_cases hresult : kind item = toolResult
    · obtain ⟨k, hk⟩ := Option.isSome_iff_exists.mp (hhashed (Or.inr hresult))
      have hrole := (role_reply py).mpr ⟨hresult, hk⟩
      rw [if_pos hresult, hk]
      by_cases hmem : k ∈ calls <;> simp [mend, hrole, hmem]
    · rw [if_neg hresult]
      by_cases hcall : kind item = toolCall
      · obtain ⟨k, hk⟩ := Option.isSome_iff_exists.mp (hhashed (Or.inl hcall))
        have hrole := (role_call py).mpr ⟨hcall, hk⟩
        rw [if_pos ⟨hcall, (hsettled.callId py (Or.inl hcall)).1⟩, hk]
        by_cases hmem : k ∈ replies <;> simp [mend, hrole, hmem]
      · have hrole : role py item = .other := by
          unfold role
          cases py.key (callId item) <;> simp [hcall, hresult]
        rw [if_neg fun hboth => hcall hboth.1]
        simp [mend, hrole]

theorem repair_eq {items : List Dict} (h : ∀ item ∈ items, Settled py item ∧ Hashed py item) :
    repairModelHistoryItems py items = some (repair (role py) (stub py) items) := by
  unfold repairModelHistoryItems
  split
  case isTrue hnil =>
    rw [hnil]
    rfl
  case isFalse =>
    rw [(collectIds_roles py h).1, (collectIds_roles py h).2]
    exact repairFrom_eq py _ _ h

theorem repair_none {items : List Dict} {item : Dict} (hmem : item ∈ items)
    (hsettled : Settled py item) (h : ¬ Hashed py item) :
    repairModelHistoryItems py items = none := by
  have htool : kind item = toolCall ∨ kind item = toolResult := by
    by_contra hno
    exact h fun htool => absurd htool hno
  have hkey : py.key (callId item) = none := by
    by_contra hno
    exact h fun _ => Option.isSome_iff_ne_none.mpr hno
  have hid := (hsettled.callId py htool).1
  unfold repairModelHistoryItems
  rw [if_neg (ne_nil_of_mem hmem)]
  rcases htool with hcall | hresult
  · rw [collectIds_none py hmem hcall hid hkey]
    rfl
  · rw [collectIds_none py hmem hresult hid hkey]
    cases collectIds py toolCall items <;> rfl

/-! ## Healing -/

theorem repaired_settled {items : List Dict}
    (h : ∀ item ∈ items, Settled py item ∧ Hashed py item) :
    ∀ item ∈ repair (role py) (stub py) items, Settled py item ∧ Hashed py item := by
  intro item hitem
  rcases (mem_repair (role py)).mp hitem with ⟨hmem, -⟩ | ⟨call, hmem, k, hrole, -, rfl⟩
  · exact h item hmem
  · obtain ⟨hkind, hkey⟩ := (role_call py).mp hrole
    refine ⟨settled_stub py (h call hmem).1 hkind, fun _ => ?_⟩
    rw [callId_stub, hkey]
    rfl

omit [DecidableEq κ] in
theorem normalize_settled {items : List Dict} (h : ∀ item ∈ items, Settled py item) (n : Nat) :
    (((items.map Value.obj).zipIdx n).map fun p => normalizeLoadedItem py p.1 p.2) =
      items.map fun item => (.obj item, some item) := by
  induction items generalizing n with
  | nil => rfl
  | cons item items ih =>
    rw [map_cons, zipIdx_cons, map_cons,
      ih (fun i hi => h i (mem_cons_of_mem item hi)),
      (h item mem_cons_self).normalize, map_cons]

theorem heal_repaired {items : List Dict}
    (h : ∀ item ∈ items, Settled py item ∧ Hashed py item) :
    healLoadedHistoryItems py ((repair (role py) (stub py) items).map .obj) =
      some (repair (role py) (stub py) items, false) := by
  have hall := repaired_settled py h
  have hmap := normalize_settled py (fun item hi => (hall item hi).1) 0
  have hnormal : normalized py ((repair (role py) (stub py) items).map .obj) =
      repair (role py) (stub py) items := by
    rw [normalized, hmap, filterMap_map]
    exact filterMap_some
  have hleft : (((repair (role py) (stub py) items).map Value.obj).zipIdx.map
      fun p => (normalizeLoadedItem py p.1 p.2).1) =
        (repair (role py) (stub py) items).map .obj := by
    have := congrArg (List.map Prod.fst) hmap
    rw [map_map, map_map] at this
    exact this
  rw [healLoadedHistoryItems, hnormal, repair_eq py hall, hleft,
    repair_repair (role py) (role_stub py)]
  simp

/-- **Healing.** A history is healed to paired items, which healing leaves as they are, exactly if
the ids of its tool items can be hashed, and each id that is called has a single call and no
result, or a single result behind all its calls. -/
theorem healed_iff (items : List Value) :
    (∃ healed changed, healLoadedHistoryItems py items = some (healed, changed) ∧
      Paired (role py) healed ∧
      healLoadedHistoryItems py (healed.map .obj) = some (healed, false)) ↔
    (∀ item ∈ normalized py items, Hashed py item) ∧
      ∀ k ∈ callIds (role py) (normalized py items),
        trace (role py) k (normalized py items) = [true] ∨
          ∃ n, trace (role py) k (normalized py items) =
            List.replicate (n + 1) true ++ [false] := by
  rw [← paired_repair_iff (role py) (role_stub py)]
  constructor
  · rintro ⟨healed, changed, hheal, hpaired, -⟩
    rw [healLoadedHistoryItems] at hheal
    have hhashed : ∀ item ∈ normalized py items, Hashed py item := by
      by_contra hno
      push Not at hno
      obtain ⟨item, hmem, hnot⟩ := hno
      rw [repair_none py hmem (settled_normalized py hmem) hnot] at hheal
      cases hheal
    rw [repair_eq py fun item hi => ⟨settled_normalized py hi, hhashed item hi⟩] at hheal
    obtain ⟨rfl, -⟩ := Prod.mk.inj (Option.some.inj hheal)
    exact ⟨hhashed, hpaired⟩
  · rintro ⟨hhashed, hpaired⟩
    have hall : ∀ item ∈ normalized py items, Settled py item ∧ Hashed py item :=
      fun item hi => ⟨settled_normalized py hi, hhashed item hi⟩
    rw [healLoadedHistoryItems, repair_eq py hall]
    exact ⟨_, _, rfl, hpaired, heal_repaired py hall⟩

end Repaired

/-- Python on values that are strings or hold them. -/
def onStrings : Python Text where
  repr := print
  isZero n := n.text == ['0']
  key
    | .str s => some s
    | .arr _ => none
    | .obj _ => none
    | v => some (print v)
  dumps items := print (.arr items)

def item (kind id : String) : Dict :=
  [("kind".toList, .str kind.toList), ("id".toList, .str id.toList),
    ("callId".toList, .str "c1".toList), ("toolName".toList, .str "read".toList)]

/-- A result in front of its call is kept there. -/
theorem early_result_kept :
    ¬ ∀ items : List Value, ∃ healed changed,
      healLoadedHistoryItems onStrings items = some (healed, changed) ∧
        Paired (role onStrings) healed ∧
        healLoadedHistoryItems onStrings (healed.map .obj) = some (healed, false) := by
  intro h
  obtain ⟨healed, changed, hheal, hpaired, -⟩ :=
    h [.obj (item "tool_result" "r1"), .obj (item "tool_call" "t1")]
  have hkept : (healLoadedHistoryItems onStrings
      [.obj (item "tool_result" "r1"), .obj (item "tool_call" "t1")]).map Prod.fst =
        some [item "tool_result" "r1", item "tool_call" "t1"] := rfl
  rw [hheal] at hkept
  cases hkept
  have hrole : role onStrings (item "tool_result" "r1") = .reply "c1".toList := rfl
  obtain ⟨c, hc, -⟩ := hpaired.announced (List.nil_append _).symm hrole
  cases hc

end MiqroForge.Kun.Healing
