import MiqroForge.Library.JsonLines

/-!
`FileSessionStore`: turn items as lines of JSON. Items are appended as one line each and
read back by `str.splitlines`, lines that do not parse being skipped.
-/

namespace MiqroForge.Kun

open PyText Json List

abbrev Dict := List (Text × Value)

/-- A turn item, or a patch of one. -/
structure TurnDict where
  fields : Dict
  wellFormed : WellFormed (.obj fields)

/-- The files of the store, by name. -/
abbrev Files := Text → Option Text

def itemsPath (threadId : Text) : Text :=
  threadId.map (fun c => if c = '\\' ∨ c = '/' then '_' else c) ++ ".jsonl".toList

/-- `json.dumps(item, ensure_ascii=False) + "\n"`. -/
def itemLine (item : Dict) : Text := print (.obj item) ++ ['\n']

def loadLine (line : Text) : Option Dict :=
  if strip line = [] then none
  else
    match parse (strip line) with
    | some (.obj data) => some data
    | _ => none

def loadText (text : Text) : List Dict := (splitlines text).filterMap loadLine

def loadItems (files : Files) (threadId : Text) : List Dict :=
  match files (itemsPath threadId) with
  | some text => loadText text
  | none => []

def appendItem (files : Files) (threadId : Text) (item : Dict) : Files :=
  Function.update files (itemsPath threadId)
    (some ((files (itemsPath threadId)).getD [] ++ itemLine item))

def rewriteItemsFile (files : Files) (threadId : Text) (items : List Dict) : Files :=
  Function.update files (itemsPath threadId) (some (items.flatMap itemLine))

/-- `item.get("id") == item_id`. -/
def hasId (itemId : Text) (item : Dict) : Bool :=
  match item.find? fun e => e.1 == "id".toList with
  | some (_, .str s) => s == itemId
  | _ => false

/-- The loop of `update_item`: the items and the updated one, if any has the id. -/
def patchItem (itemId : Text) (patch : Dict) : List Dict → Option (List Dict × Dict)
  | [] => none
  | item :: items =>
    if hasId itemId item then some (merge item patch :: items, merge item patch)
    else (patchItem itemId patch items).map fun p => (item :: p.1, p.2)

def updateItem (files : Files) (threadId itemId : Text) (patch : Dict) : Files × Option Dict :=
  match patchItem itemId patch (loadItems files threadId) with
  | none => (files, none)
  | some (items, updated) => (rewriteItemsFile files threadId items, some updated)

/-- A run of `append_item` calls for one thread. -/
def appendItems (files : Files) (threadId : Text) (items : List Dict) : Files :=
  items.foldl (fun files item => appendItem files threadId item) files

/-! ## Reading what was written -/

theorem loadLine_nil : loadLine [] = none := rfl

theorem loadText_eq (text : Text) : loadText text = (pieces text).filterMap loadLine :=
  filterMap_splitlines loadLine loadLine_nil text

theorem loadText_lines (items : List Dict) :
    loadText (items.flatMap itemLine) =
      items.flatMap fun item => (pieces (print (.obj item))).filterMap loadLine := by
  rw [loadText_eq]
  induction items with
  | nil => rfl
  | cons item items ih =>
    have hline : itemLine item ++ items.flatMap itemLine =
        print (.obj item) ++ '\n' :: items.flatMap itemLine := by
      simp [itemLine]
    rw [flatMap_cons, flatMap_cons, hline, pieces_append _ _ _ (by decide),
      filterMap_append, ih]

theorem loadLine_print (item : Dict) (h : WellFormed (.obj item)) :
    loadLine (print (.obj item)) = some item := by
  have hne : print (.obj item) ≠ [] := by
    obtain ⟨c, t, hp, -⟩ := print_head (.obj item)
    rw [hp]
    exact cons_ne_nil c t
  unfold loadLine
  rw [strip_print, if_neg hne, parse_print _ h]

theorem pieces_print (item : Dict) (h : Unbroken (.obj item)) :
    pieces (print (.obj item)) = [print (.obj item)] :=
  pieces_unbroken _ ((unbroken_iff _).mp h)

theorem loadLine_parse {line : Text} {item : Dict} (h : loadLine line = some item) :
    parse (strip line) = some (.obj item) := by
  unfold loadLine at h
  split at h
  · cases h
  · split at h
    case h_1 heq =>
      cases h
      exact heq
    case h_2 => cases h

theorem loaded_unbroken (items : List Dict) (hwf : ∀ item ∈ items, WellFormed (.obj item)) :
    ∀ item ∈ loadText (items.flatMap itemLine), Unbroken (.obj item) := by
  rw [loadText_lines]
  intro loaded hmem
  obtain ⟨item, hitem, hmem⟩ := mem_flatMap.mp hmem
  obtain ⟨piece, hpiece, hload⟩ := mem_filterMap.mp hmem
  rcases pieces_unbroken_values _ (written_print (.obj item)) with hone | hall
  · rw [hone, mem_singleton] at hpiece
    subst hpiece
    rw [loadLine_print item (hwf item hitem)] at hload
    obtain rfl := Option.some.inj hload
    refine (unbroken_iff _).mpr (mem_pieces_unbroken (s := print (.obj item)) ?_)
    rw [hone]
    exact mem_singleton_self _
  · exact hall piece hpiece _ (loadLine_parse hload)

/-- **Round trip of a file.** -/
theorem loadText_eq_iff (items : List Dict) (hwf : ∀ item ∈ items, WellFormed (.obj item)) :
    loadText (items.flatMap itemLine) = items ↔ ∀ item ∈ items, Unbroken (.obj item) := by
  constructor
  · intro h item hitem
    refine loaded_unbroken items hwf item ?_
    rw [h]
    exact hitem
  · intro h
    rw [loadText_lines]
    induction items with
    | nil => rfl
    | cons item items ih =>
      have hrest := ih (fun x hx => hwf x (mem_cons_of_mem item hx))
        fun x hx => h x (mem_cons_of_mem item hx)
      rw [flatMap_cons, hrest, pieces_print item (h item mem_cons_self)]
      simp [loadLine_print item (hwf item mem_cons_self)]

/-! ## Patches -/

/-- What an update is for: the first item with the id is patched, the others stay. -/
def patchFirst (itemId : Text) (patch : Dict) (items : List Dict) : List Dict :=
  match items.findIdx? (hasId itemId) with
  | some i => items.modify i fun item => merge item patch
  | none => items

theorem patchItem_eq (itemId : Text) (patch : Dict) (items : List Dict) :
    (patchItem itemId patch items = none ∧ (∀ item ∈ items, hasId itemId item = false) ∧
      patchFirst itemId patch items = items) ∨
    ∃ before item after, items = before ++ item :: after ∧ hasId itemId item = true ∧
      patchItem itemId patch items =
        some (before ++ merge item patch :: after, merge item patch) ∧
      patchFirst itemId patch items = before ++ merge item patch :: after := by
  induction items with
  | nil => exact Or.inl ⟨rfl, by simp, rfl⟩
  | cons item items ih =>
    cases hid : hasId itemId item with
    | true =>
      refine Or.inr ⟨[], item, items, rfl, hid, ?_, ?_⟩
      · simp [patchItem, hid]
      · simp [patchFirst, findIdx?_cons, hid]
    | false =>
      rcases ih with ⟨hnone, hall, hfirst⟩ | ⟨before, x, after, hitems, hx, hpatch, hfirst⟩
      · refine Or.inl ⟨by simp [patchItem, hid, hnone], ?_, ?_⟩
        · intro y hy
          rcases mem_cons.mp hy with rfl | hy
          · exact hid
          · exact hall y hy
        · unfold patchFirst at hfirst ⊢
          have hidx : items.findIdx? (hasId itemId) = none :=
            findIdx?_eq_none_iff.mpr hall
          simp [findIdx?_cons, hid, hidx]
      · refine Or.inr ⟨item :: before, x, after, by rw [hitems]; rfl, hx, ?_, ?_⟩
        · simp [patchItem, hid, hpatch]
        · unfold patchFirst at hfirst ⊢
          cases hidx : items.findIdx? (hasId itemId) with
          | none =>
            have hx' := findIdx?_eq_none_iff.mp hidx x (by rw [hitems]; simp)
            rw [hx] at hx'
            cases hx'
          | some i =>
            rw [hidx] at hfirst
            simp only [findIdx?_cons, hid, hidx]
            simpa using hfirst

theorem merge_wellFormed {item patch : Dict} (hi : WellFormed (.obj item))
    (hp : WellFormed (.obj patch)) : WellFormed (.obj (merge item patch)) := by
  obtain ⟨hkeys, hvalues⟩ := hi
  refine ⟨keys_merge_nodup item patch hkeys, ?_⟩
  rw [fieldsWellFormed_iff] at hvalues ⊢
  intro f hf
  rcases mem_merge hf with hf | hf
  · exact hvalues f hf
  · exact (fieldsWellFormed_iff patch).mp hp.2 f hf

theorem merge_unbroken_iff {item patch : Dict} (hi : Unbroken (.obj item))
    (hp : WellFormed (.obj patch)) :
    Unbroken (.obj (merge item patch)) ↔ Unbroken (.obj patch) := by
  constructor
  · intro h c hc
    obtain ⟨f, hf, hcf⟩ := mem_charsFields.mp hc
    exact h c (mem_charsFields.mpr ⟨f, mem_merge_patch hp.1 hf, hcf⟩)
  · intro h c hc
    rcases charsFields_merge hc with hc | hc
    · exact hi c hc
    · exact h c hc

/-! ## The store -/

theorem loadItems_eq (files : Files) (threadId : Text) :
    loadItems files threadId = loadText ((files (itemsPath threadId)).getD []) := by
  unfold loadItems
  cases files (itemsPath threadId) with
  | none => rfl
  | some text => rfl

theorem appendItems_text (files : Files) (threadId : Text) (items : List Dict) :
    (appendItems files threadId items (itemsPath threadId)).getD [] =
      (files (itemsPath threadId)).getD [] ++ items.flatMap itemLine := by
  induction items generalizing files with
  | nil => simp [appendItems]
  | cons item items ih =>
    have hnext := ih (appendItem files threadId item)
    show (appendItems (appendItem files threadId item) threadId items _).getD [] = _
    rw [hnext]
    simp [appendItem]

theorem loadItems_appended (files : Files) (threadId : Text) (items : List Dict)
    (hnew : files (itemsPath threadId) = none) :
    loadItems (appendItems files threadId items) threadId = loadText (items.flatMap itemLine) := by
  rw [loadItems_eq, appendItems_text, hnew]
  rfl

theorem loadItems_rewritten (files : Files) (threadId : Text) (items : List Dict) :
    loadItems (rewriteItemsFile files threadId items) threadId =
      loadText (items.flatMap itemLine) := by
  rw [loadItems_eq]
  simp [rewriteItemsFile]

theorem updateItem_iff (files : Files) (threadId itemId : Text) (patch : TurnDict)
    (items : List Dict) (hwf : ∀ item ∈ items, WellFormed (.obj item))
    (hbreaks : ∀ item ∈ items, Unbroken (.obj item)) (hload : loadItems files threadId = items) :
    loadItems (updateItem files threadId itemId patch.fields).1 threadId =
        patchFirst itemId patch.fields items ↔
      ((∃ item ∈ items, hasId itemId item = true) → Unbroken (.obj patch.fields)) := by
  unfold updateItem
  rw [hload]
  rcases patchItem_eq itemId patch.fields items with
    ⟨hnone, hall, hfirst⟩ | ⟨before, item, after, hitems, hid, hpatch, hfirst⟩
  · rw [hnone, hfirst]
    refine iff_of_true hload ?_
    rintro ⟨item, hitem, hid⟩
    rw [hall item hitem] at hid
    cases hid
  · rw [hpatch, hfirst]
    subst hitems
    have hwfItem := hwf item (by simp)
    have hiff := loadText_eq_iff (before ++ merge item patch.fields :: after) ?_
    · simp only []
      rw [loadItems_rewritten, hiff]
      constructor
      · intro h _
        exact (merge_unbroken_iff (hbreaks item (by simp)) patch.wellFormed).mp (h _ (by simp))
      · intro h x hx
        have hpatched := h ⟨item, by simp, hid⟩
        rcases mem_append.mp hx with hx | hx
        · exact hbreaks x (mem_append_left _ hx)
        · rcases mem_cons.mp hx with rfl | hx
          · exact (merge_unbroken_iff (hbreaks item (by simp)) patch.wellFormed).mpr hpatched
          · exact hbreaks x (mem_append_right _ (mem_cons_of_mem item hx))
    · intro x hx
      rcases mem_append.mp hx with hx | hx
      · exact hwf x (mem_append_left _ hx)
      · rcases mem_cons.mp hx with rfl | hx
        · exact merge_wellFormed hwfItem patch.wellFormed
        · exact hwf x (mem_append_right _ (mem_cons_of_mem item hx))

/-- **The store keeps its items**, over appends and an update, exactly when no string of them has
a line break the writer leaves unescaped, nor has the patch if it is used. -/
theorem session_store_iff (files : Files) (threadId itemId : Text) (items : List TurnDict)
    (patch : TurnDict) (hnew : files (itemsPath threadId) = none) :
    (loadItems (appendItems files threadId (items.map TurnDict.fields)) threadId =
        items.map TurnDict.fields ∧
      loadItems (updateItem (appendItems files threadId (items.map TurnDict.fields)) threadId
          itemId patch.fields).1 threadId =
        patchFirst itemId patch.fields (items.map TurnDict.fields)) ↔
    (∀ item ∈ items, Unbroken (.obj item.fields)) ∧
      ((∃ item ∈ items, hasId itemId item.fields = true) → Unbroken (.obj patch.fields)) := by
  have hwf : ∀ item ∈ items.map TurnDict.fields, WellFormed (.obj item) := by
    intro item hitem
    obtain ⟨d, -, rfl⟩ := List.mem_map.mp hitem
    exact d.wellFormed
  have hload := loadItems_appended files threadId (items.map TurnDict.fields) hnew
  have hiff := loadText_eq_iff (items.map TurnDict.fields) hwf
  rw [← hload] at hiff
  constructor
  · rintro ⟨hround, hupdate⟩
    have hbreaks := hiff.mp hround
    refine ⟨fun item hitem => hbreaks _ (List.mem_map_of_mem hitem), ?_⟩
    rintro ⟨item, hitem, hid⟩
    exact (updateItem_iff _ threadId itemId patch _ hwf hbreaks hround).mp hupdate
      ⟨_, List.mem_map_of_mem hitem, hid⟩
  · rintro ⟨hitems, hpatch⟩
    have hbreaks : ∀ item ∈ items.map TurnDict.fields, Unbroken (.obj item) := by
      intro item hitem
      obtain ⟨d, hd, rfl⟩ := List.mem_map.mp hitem
      exact hitems d hd
    have hround := hiff.mpr hbreaks
    refine ⟨hround, (updateItem_iff _ threadId itemId patch _ hwf hbreaks hround).mpr ?_⟩
    rintro ⟨item, hitem, hid⟩
    obtain ⟨d, hd, rfl⟩ := List.mem_map.mp hitem
    exact hpatch ⟨d, hd, hid⟩

def plainItem : TurnDict where
  fields := [("id".toList, .str "1".toList), ("text".toList, .str "a\tb\n\"c\"".toList)]
  wellFormed := ⟨by decide, trivial, trivial, trivial⟩

/-- A line separator in the text. -/
def separatorItem : TurnDict where
  fields := [("id".toList, .str "2".toList), ("text".toList, .str ['a', '\u2028', 'b'])]
  wellFormed := ⟨by decide, trivial, trivial, trivial⟩

theorem plainItem_unbroken : Unbroken (.obj plainItem.fields) := by
  have hall : (chars (.obj plainItem.fields)).all (fun c => !isRawBreak c) = true := by decide
  intro c hc
  simpa using all_eq_true.mp hall c hc

theorem session_store_iff_plain :
    let files := appendItems (fun _ => none) "t".toList [plainItem.fields]
    loadItems files "t".toList = [plainItem.fields] ∧
      loadItems (updateItem files "t".toList "1".toList plainItem.fields).1 "t".toList =
        patchFirst "1".toList plainItem.fields [plainItem.fields] := by
  have h := session_store_iff (fun _ => none) "t".toList "1".toList [plainItem] plainItem rfl
  refine h.mpr ⟨?_, fun _ => plainItem_unbroken⟩
  intro item hitem
  obtain rfl := List.mem_singleton.mp hitem
  exact plainItem_unbroken

/-- The appended item is not read back, and the update of another one loses it for good. -/
theorem separatorItem_lost :
    let files := appendItems (fun _ => none) "t".toList [separatorItem.fields, plainItem.fields]
    (loadItems files "t".toList).length = 1 ∧
      (updateItem files "t".toList "1".toList []).1 (itemsPath "t".toList) =
        some (itemLine plainItem.fields) := by
  decide

end MiqroForge.Kun
