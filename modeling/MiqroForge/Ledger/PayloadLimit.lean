import MiqroForge.Ledger.Export
import MiqroForge.Library.JsonRoundTrip
import Mathlib.Algebra.Group.Nat.Defs

/-!
The stored text of a history payload. A payload over the limit is replaced by a note with a
preview of its text, and the preview is cut shorter until the note with its escapes fits.
-/

namespace MiqroForge.Ledger

open PyText Json

/-- `sys.maxsize`: the length of the longest `str`. -/
def sysMaxsize : Nat := 2 ^ 63 - 1

/-- A text that `json.dumps` returned. -/
structure Str where
  text : Text
  fits : text.length ≤ sysMaxsize

def truncateText (value : Text) (limit : Nat) : Text :=
  if limit ≤ truncatedSuffix.length then truncatedSuffix.take limit
  else value.take (limit - truncatedSuffix.length) ++ truncatedSuffix

/-- The note that stands for a payload of `size` characters. -/
def truncationNote (size : Nat) (preview : Text) : Payload :=
  [("truncated".toList, .bool true), ("original_size_chars".toList, .num (Number.ofNat size)),
    ("preview".toList, .str preview)]

/-- `final_json` of one round. -/
def finalJson (payloadJson : Text) (previewLimit : Nat) : Text :=
  print (.obj (truncationNote payloadJson.length (truncateText payloadJson previewLimit)))

/-- The loop of `_sanitize_payload`, from a round with this limit on. -/
def shrink (payloadJson : Text) (previewLimit : Nat) : Text :=
  let final := finalJson payloadJson previewLimit
  if final.length ≤ maxHistoryPayloadJsonChars ∨ previewLimit = 0 then final
  else
    let excess := final.length - maxHistoryPayloadJsonChars
    -- every round takes at least one character from the limit
    shrink payloadJson (previewLimit - max 1 excess)
termination_by previewLimit
decreasing_by omega

/-- `_sanitize_payload`, from the text of the payload on. -/
def storedPayload (payloadJson : Str) : Text :=
  if payloadJson.text.length ≤ maxHistoryPayloadJsonChars then payloadJson.text
  else shrink payloadJson.text (maxHistoryPayloadJsonChars - 80)

/-! ## The loop -/

/-- **What the loop ends with**: a round whose note fits, or the round without a preview. -/
theorem shrink_round (payloadJson : Text) (previewLimit : Nat) :
    ∃ limit ≤ previewLimit, shrink payloadJson previewLimit = finalJson payloadJson limit ∧
      ((finalJson payloadJson limit).length ≤ maxHistoryPayloadJsonChars ∨ limit = 0) := by
  induction previewLimit using Nat.strongRecOn with
  | ind previewLimit ih =>
    by_cases hdone : (finalJson payloadJson previewLimit).length ≤ maxHistoryPayloadJsonChars ∨
        previewLimit = 0
    · refine ⟨previewLimit, Nat.le_refl previewLimit, ?_, hdone⟩
      rw [shrink]
      exact if_pos hdone
    · let next := previewLimit -
        max 1 ((finalJson payloadJson previewLimit).length - maxHistoryPayloadJsonChars)
      have hnext : shrink payloadJson previewLimit = shrink payloadJson next := by
        rw [shrink]
        exact if_neg hdone
      have hpos : previewLimit ≠ 0 := fun h => hdone (Or.inr h)
      have hlt : next < previewLimit :=
        Nat.sub_lt (Nat.pos_of_ne_zero hpos) (Nat.lt_of_lt_of_le Nat.one_pos (Nat.le_max_left 1 _))
      obtain ⟨limit, hle, heq, hend⟩ := ih next hlt
      exact ⟨limit, Nat.le_trans hle (Nat.le_of_lt hlt), hnext.trans heq, hend⟩

/-! ## The note -/

theorem length_note (size : Nat) (preview : Text) :
    (print (.obj (truncationNote size preview))).length =
      57 + (Nat.toDigits 10 size).length + (printString preview).length := by
  have hfirst : (printString "truncated".toList).length = 11 := rfl
  have hsize : (printString "original_size_chars".toList).length = 21 := rfl
  have hpreview : (printString "preview".toList).length = 9 := rfl
  have htrue : "true".toList.length = 4 := rfl
  simp only [truncationNote, print, printMoreFields, Number.ofNat, List.length_cons,
    List.length_append, List.length_nil, hfirst, hsize, hpreview, htrue]
  omega

theorem truncateText_zero (value : Text) : truncateText value 0 = [] := rfl

theorem finalJson_zero (payloadJson : Str) :
    (finalJson payloadJson.text 0).length ≤ maxHistoryPayloadJsonChars := by
  have hbound : payloadJson.text.length < 10 ^ 19 :=
    Nat.lt_of_le_of_lt payloadJson.fits (by decide)
  have hdigits := (Nat.length_toDigits_le_iff (b := 10) (by decide) (by decide)).mpr hbound
  have hempty : (printString []).length = 2 := rfl
  rw [finalJson, truncateText_zero, length_note, hempty]
  calc 57 + (Nat.toDigits 10 payloadJson.text.length).length + 2
      ≤ 57 + 19 + 2 := by omega
    _ ≤ maxHistoryPayloadJsonChars := by decide

/-- **The loop ends within the limit**, whatever the escapes of the preview add. -/
theorem length_shrink (payloadJson : Str) (previewLimit : Nat) :
    (shrink payloadJson.text previewLimit).length ≤ maxHistoryPayloadJsonChars := by
  obtain ⟨limit, -, heq, hfits | rfl⟩ := shrink_round payloadJson.text previewLimit
  · rw [heq]
    exact hfits
  · rw [heq]
    exact finalJson_zero payloadJson

theorem parse_finalJson (payloadJson : Text) (limit : Nat) :
    parse (finalJson payloadJson limit) =
      some (.obj (truncationNote payloadJson.length (truncateText payloadJson limit))) := by
  have hkeys : (keys (truncationNote payloadJson.length (truncateText payloadJson limit))).Nodup :=
    show ["truncated".toList, "original_size_chars".toList, "preview".toList].Nodup by decide
  exact parse_print _ ⟨hkeys, trivial, trivial, trivial, trivial⟩

/-! ## The note of the thread store -/

/-- The payload that a reader of the stored text gets. -/
def loadedNote (payloadJson : Text) : Payload :=
  match parse (shrink payloadJson (maxHistoryPayloadJsonChars - 80)) with
  | some (.obj fields) => fields
  | _ => []

theorem loadedNote_eq (payloadJson : Text) :
    ∃ limit, loadedNote payloadJson =
        truncationNote payloadJson.length (truncateText payloadJson limit) ∧
      shrink payloadJson (maxHistoryPayloadJsonChars - 80) = finalJson payloadJson limit := by
  obtain ⟨limit, -, heq, -⟩ := shrink_round payloadJson (maxHistoryPayloadJsonChars - 80)
  refine ⟨limit, ?_, heq⟩
  unfold loadedNote
  rw [heq, parse_finalJson]

/-- The note of the runs of a thread, as this code writes it. -/
def shrinking : Truncation where
  note payload := loadedNote (print (.obj payload))
  no_fields payload := by
    obtain ⟨limit, hnote, -⟩ := loadedNote_eq (print (.obj payload))
    rw [hnote]
    rfl

theorem print_sanitizePayload (payload : Payload) (h : (print (.obj payload)).length ≤ sysMaxsize) :
    print (.obj (sanitizePayload shrinking payload)) = storedPayload ⟨print (.obj payload), h⟩ := by
  unfold sanitizePayload storedPayload
  split
  · rfl
  · obtain ⟨limit, hnote, hshrink⟩ := loadedNote_eq (print (.obj payload))
    calc print (.obj (loadedNote (print (.obj payload))))
        = finalJson (print (.obj payload)) limit := congrArg (fun note => print (.obj note)) hnote
      _ = shrink (print (.obj payload)) (maxHistoryPayloadJsonChars - 80) := hshrink.symm

/-- **Truncation terminates within the limit**: the loop gives a text of at most
`MAX_HISTORY_PAYLOAD_JSON_CHARS` characters that reads back as the note of one of its rounds, and
so what is stored is never longer. -/
theorem storedPayload_bounded (payloadJson : Str) (previewLimit : Nat) :
    (shrink payloadJson.text previewLimit).length ≤ maxHistoryPayloadJsonChars ∧
    (∃ limit ≤ previewLimit, parse (shrink payloadJson.text previewLimit) =
      some (.obj (truncationNote payloadJson.text.length
        (truncateText payloadJson.text limit)))) ∧
    (storedPayload payloadJson).length ≤ maxHistoryPayloadJsonChars := by
  refine ⟨length_shrink payloadJson previewLimit, ?_, ?_⟩
  · obtain ⟨limit, hle, heq, -⟩ := shrink_round payloadJson.text previewLimit
    exact ⟨limit, hle, heq ▸ parse_finalJson payloadJson.text limit⟩
  · unfold storedPayload
    split
    · assumption
    · exact length_shrink payloadJson _

end MiqroForge.Ledger
