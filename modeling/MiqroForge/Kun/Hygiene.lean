import MiqroForge.Kun.Healing
import MiqroForge.Library.Measures
import MiqroForge.Library.Regex

/-!
`apply_request_history_hygiene`: tool results that are too large are cut before a request. A text
of several lines keeps the first, the last and the telling ones of them, a text of one line its
beginning.
-/

namespace MiqroForge.Kun.Hygiene

open PyText Json Regex Regex.Re List
open Compactor (get)
open Healing (toolResult get_setField)

structure Limits where
  maxLines : Nat := 320
  maxBytes : Nat := 32 * 1024
  maxTokens : Nat := 8000

/-! ## Telling lines -/

/-- A letter as `re.IGNORECASE` compares it with one of the pattern. -/
def sameLetter (x c : Char) : Bool :=
  c == x || c.toLower == x || (x == 'i' && (c == 'ı' || c == 'İ')) || (x == 's' && c == 'ſ') ||
    (x == 'k' && c == '\u212A')

def word (s : String) : Re := all (s.toList.map fun x => char (sameLetter x))

def signalRe : Re :=
  all [boundary,
    oneOf [word "error", all [word "faile", opt (word "d")], word "fatal", word "panic",
      word "exception", word "traceback", word "warning", word "warn", word "denied",
      word "timeout", word "timed out", word "not found", word "cannot", word "invalid"],
    boundary]

variable (isalnum : Char → Bool)

def isSignalLine (line : Text) : Bool :=
  (search (fun c => isalnum c || c == '_') line signalRe).isSome

/-! ## Trimming -/

def isOversized (limits : Limits) (text : Text) : Bool :=
  limits.maxLines < lineCount text || limits.maxBytes < bytes text ||
    limits.maxTokens < text.length / 4

def byteMarker (maxBytes size : Nat) : Text :=
  "\n[cache hygiene: showing ".toList ++ Nat.toDigits 10 maxBytes ++ "B of ".toList ++
    Nat.toDigits 10 size ++ "B]".toList

def lineMarker (shown total : Nat) : Text :=
  "\n[cache hygiene: showing ".toList ++ Nat.toDigits 10 shown ++ " of ".toList ++
    Nat.toDigits 10 total ++ " lines]".toList

def head (maxLines : Nat) : Nat := min 80 (max 1 (maxLines / 4))

def tail (maxLines : Nat) : Nat := min 120 (max 1 (maxLines / 3))

/-- The loop over the lines that adds the first 48 signal lines. -/
def signals (index signalCount : Nat) : List Text → List Nat
  | [] => []
  | line :: lines =>
    if isSignalLine isalnum line && signalCount < 48 then
      index :: signals (index + 1) (signalCount + 1) lines
    else signals (index + 1) signalCount lines

/-- The set `selected`. -/
def selected (lines : List Text) (maxLines : Nat) : List Nat :=
  let n := lines.length
  List.range (min (head maxLines) n) ++
    List.range' (n - tail maxLines) (n - (n - tail maxLines)) ++ signals isalnum 0 0 lines

/-- The lines at the first `max_lines` of the indices, which are in order. -/
def linesAt (lines : List Text) (maxLines : Nat) (indices : List Nat) : List Text :=
  (indices.take maxLines).filterMap (lines[·]?)

def sortedLines (lines : List Text) (maxLines : Nat) : List Text :=
  linesAt lines maxLines
    ((List.range lines.length).filter (· ∈ selected isalnum lines maxLines))

/-- The loop that fits the lines to the byte budget. -/
def fit (markerBytes maxBytes : Nat) (result : List Text) (byteCount : Nat) :
    List Text → List Text
  | [] => result
  | line :: lines =>
    let lb := bytes line + if result = [] then 0 else 1
    if byteCount + lb + markerBytes > maxBytes then result
    else fit markerBytes maxBytes (result ++ [line]) (byteCount + lb) lines

def trimText (limits : Limits) (text : Text) : Text :=
  let lines := text.splitOn '\n'
  if lines.length ≤ limits.maxLines ∧ bytes text ≤ limits.maxBytes then text
  else if lines.length = 1 then
    let marker := byteMarker limits.maxBytes (bytes text)
    takeTo text ((limits.maxBytes : Int) - bytes marker) ++ marker
  else
    let lines' := sortedLines isalnum lines limits.maxLines
    let marker := lineMarker lines'.length lines.length
    joinLines (fit (bytes marker) limits.maxBytes [] 0 lines') ++ marker

/-- The text of a tool result. -/
def output? (item : Dict) : Option Text :=
  match get item "kind" .null, get item "output" .null with
  | .str kind, .str output => if kind = toolResult then some output else none
  | _, _ => none

def applyRequestHistoryHygiene (limits : Limits) (items : List Dict) : List Dict :=
  items.map fun item =>
    match output? item with
    | some output =>
      if isOversized limits output then
        setField item "output".toList (.str (trimText isalnum limits output))
      else item
    | none => item

/-! ## The markers -/

/-- ASCII text on one line. -/
def Plain (t : Text) : Prop := ∀ c ∈ t, c.val ≤ 127 ∧ c ≠ '\n'

theorem Plain.append {s t : Text} (hs : Plain s) (ht : Plain t) : Plain (s ++ t) := by
  intro c hc
  rcases mem_append.mp hc with h | h
  · exact hs c h
  · exact ht c h

theorem plain_digits (n : Nat) : Plain (Nat.toDigits 10 n) := by
  intro c hc
  have hdigit := Nat.isDigit_of_mem_toDigits (by decide) (by decide) hc
  rw [Char.isDigit, Bool.and_eq_true, decide_eq_true_eq, decide_eq_true_eq] at hdigit
  have hnine : (57 : UInt32) ≤ 127 := by decide
  refine ⟨UInt32.le_trans hdigit.2 hnine, ?_⟩
  rintro rfl
  exact absurd hdigit.1 (by decide)

/-- A marker: a line break and a line of ASCII text. -/
def IsMarker (t : Text) : Prop := ∃ plain, t = '\n' :: plain ∧ Plain plain

theorem isMarker_between (before : Text) (m : Nat) {middle : Text} (n : Nat) {after : Text}
    (hbefore : Plain before) (hmiddle : Plain middle) (hafter : Plain after) :
    IsMarker ('\n' :: before ++ Nat.toDigits 10 m ++ middle ++ Nat.toDigits 10 n ++ after) :=
  ⟨before ++ Nat.toDigits 10 m ++ middle ++ Nat.toDigits 10 n ++ after, rfl,
    (((hbefore.append (plain_digits m)).append hmiddle).append (plain_digits n)).append hafter⟩

theorem isMarker_byteMarker (maxBytes size : Nat) : IsMarker (byteMarker maxBytes size) :=
  isMarker_between "[cache hygiene: showing ".toList maxBytes size (forall_of_all (by decide))
    (forall_of_all (by decide)) (forall_of_all (by decide))

theorem isMarker_lineMarker (shown total : Nat) : IsMarker (lineMarker shown total) :=
  isMarker_between "[cache hygiene: showing ".toList shown total (forall_of_all (by decide))
    (forall_of_all (by decide)) (forall_of_all (by decide))

theorem IsMarker.bytes_eq {t : Text} (h : IsMarker t) : bytes t = t.length := by
  obtain ⟨plain, rfl, hplain⟩ := h
  have hle := (bytes_le_length_iff plain).mpr fun c hc => (hplain c hc).1
  have hge := length_le_bytes plain
  have hnewline : ('\n' : Char).utf8Size = 1 := rfl
  simp only [bytes_cons, hnewline, length_cons]
  omega

theorem IsMarker.lineCount_append {t : Text} (h : IsMarker t) (body : Text) :
    lineCount (body ++ t) = lineCount body + 1 := by
  obtain ⟨plain, rfl, hplain⟩ := h
  have hnone : plain.count '\n' = 0 :=
    count_eq_zero.mpr fun hmem => (hplain _ hmem).2 rfl
  simp only [lineCount_eq, count_append, count_cons_self, hnone]

/-! ## The lines that are kept -/

/-- A line is kept for being among the first, among the last, or a signal line with fewer than
48 of them before it. -/
def Chosen (lines : List Text) (maxLines i : Nat) : Prop :=
  i < head maxLines ∨ lines.length - tail maxLines ≤ i ∨
    ((lines[i]?).any (isSignalLine isalnum) = true ∧
      (lines.take i).countP (isSignalLine isalnum) < 48)

instance (lines : List Text) (maxLines i : Nat) : Decidable (Chosen isalnum lines maxLines i) :=
  inferInstanceAs (Decidable (_ ∨ _ ∨ (_ ∧ _)))

/-- The lines that are kept, at most `maxLines` of them. -/
def chosen (limits : Limits) (text : Text) : List Text :=
  let lines := text.splitOn '\n'
  linesAt lines limits.maxLines
    ((List.range lines.length).filter (Chosen isalnum lines limits.maxLines))

theorem mem_signals (index signalCount : Nat) (lines : List Text) (i : Nat) :
    i ∈ signals isalnum index signalCount lines ↔
      index ≤ i ∧ (lines[i - index]?).any (isSignalLine isalnum) = true ∧
        signalCount + (lines.take (i - index)).countP (isSignalLine isalnum) < 48 := by
  induction lines generalizing index signalCount with
  | nil => simp [signals]
  | cons line lines ih =>
    rcases Nat.lt_trichotomy i index with h | rfl | h
    · have hnot : ¬index ≤ i := by omega
      have hnot' : ¬index + 1 ≤ i := by omega
      have hne : i ≠ index := by omega
      rw [signals]
      split <;> simp [ih, hnot, hnot', hne]
    · have hnot : ¬i + 1 ≤ i := by omega
      rw [signals]
      by_cases hline : isSignalLine isalnum line = true <;> by_cases hcount : signalCount < 48 <;>
        simp [ih, hline, hcount, hnot]
    · obtain ⟨k, rfl⟩ : ∃ k, i = index + 1 + k := ⟨i - (index + 1), by omega⟩
      have hne : index + 1 + k ≠ index := by omega
      have hle : index ≤ index + 1 + k := by omega
      have hle' : index + 1 ≤ index + 1 + k := by omega
      have hsub : index + 1 + k - index = k + 1 := by omega
      have hsub' : index + 1 + k - (index + 1) = k := by omega
      rw [signals]
      by_cases hline : isSignalLine isalnum line = true <;> by_cases hcount : signalCount < 48 <;>
        simp [ih, hline, hcount, hne, hle, hle', hsub, hsub'] <;> omega

theorem sortedLines_eq (limits : Limits) (text : Text) :
    sortedLines isalnum (text.splitOn '\n') limits.maxLines = chosen isalnum limits text := by
  unfold sortedLines chosen
  congr 1
  refine filter_congr fun i hi => ?_
  have hlt := mem_range.mp hi
  have hselected : i ∈ selected isalnum (text.splitOn '\n') limits.maxLines ↔
      Chosen isalnum (text.splitOn '\n') limits.maxLines i := by
    simp only [selected, Chosen, mem_append, mem_range, mem_range'_1, mem_signals,
      Nat.sub_zero, Nat.zero_add, Nat.zero_le, true_and, or_assoc]
    refine or_congr (by omega) (or_congr (by omega) Iff.rfl)
  simp only [hselected]

theorem length_chosen (limits : Limits) (text : Text) :
    (chosen isalnum limits text).length ≤ limits.maxLines :=
  (length_filterMap_le _ _).trans (length_take_le _ _)

theorem chosen_unbroken {limits : Limits} {text line : Text}
    (h : line ∈ chosen isalnum limits text) : '\n' ∉ line := by
  obtain ⟨i, -, hi⟩ := mem_filterMap.mp h
  exact not_mem_of_mem_splitOn (mem_of_getElem? hi)

theorem fit_spec {markerBytes maxBytes : Nat} (result lines : List Text)
    (hfits : bytes (joinLines result) + markerBytes ≤ maxBytes) :
    ∃ m, fit markerBytes maxBytes result (bytes (joinLines result)) lines = result ++ lines.take m ∧
      bytes (joinLines (result ++ lines.take m)) + markerBytes ≤ maxBytes ∧
      ∀ n, bytes (joinLines (result ++ lines.take n)) + markerBytes ≤ maxBytes →
        lines.take n <+: lines.take m := by
  induction lines generalizing result with
  | nil => exact ⟨0, by simpa [fit] using hfits⟩
  | cons line lines ih =>
    have hconcat := bytes_joinLines_concat result line
    rw [fit]
    by_cases hover : bytes (joinLines result) + (bytes line + if result = [] then 0 else 1) +
        markerBytes > maxBytes
    · refine ⟨0, by simp [hover], by simpa using hfits, fun n hn => ?_⟩
      cases n with
      | zero => simp
      | succ n =>
        -- Already the first line is too much.
        have hle := bytes_mono (prefix_joinLines
          (prefix_append (result ++ [line]) (lines.take n)))
        rw [append_assoc, singleton_append] at hle
        rw [take_succ_cons] at hn
        omega
    · obtain ⟨m, hkept, hm, hmax⟩ := ih (result ++ [line]) (by omega)
      rw [hconcat] at hkept
      refine ⟨m + 1, ?_, ?_, fun n hn => ?_⟩
      · rw [if_neg hover, hkept, take_succ_cons, append_assoc, singleton_append]
      · simpa using hm
      · cases n with
        | zero => simp
        | succ n =>
          rw [take_succ_cons, take_succ_cons]
          exact (cons_prefix_cons).mpr ⟨rfl, hmax n (by simpa using hn)⟩

/-! ## Budgets -/

/-- The marker that stands behind a text that is cut. -/
def marker (limits : Limits) (text : Text) : Text :=
  if lineCount text = 1 then byteMarker limits.maxBytes (bytes text)
  else lineMarker (chosen isalnum limits text).length (lineCount text)

theorem isMarker_marker (limits : Limits) (text : Text) :
    IsMarker (marker isalnum limits text) := by
  unfold marker
  split
  · exact isMarker_byteMarker _ _
  · exact isMarker_lineMarker _ _

section Cases
variable {isalnum} {limits : Limits} {text : Text}

/-- The text is within the budgets of bytes and lines. -/
def Within (limits : Limits) (text : Text) : Prop :=
  lineCount text ≤ limits.maxLines ∧ bytes text ≤ limits.maxBytes

instance : Decidable (Within limits text) := inferInstanceAs (Decidable (_ ∧ _))

theorem trimText_within (h : Within limits text) : trimText isalnum limits text = text :=
  if_pos h

theorem trimText_line (h : ¬Within limits text) (hline : lineCount text = 1)
    (hroom : (marker isalnum limits text).length ≤ limits.maxBytes) :
    trimText isalnum limits text =
      text.take (limits.maxBytes - (marker isalnum limits text).length) ++
        marker isalnum limits text := by
  have hmarker : marker isalnum limits text = byteMarker limits.maxBytes (bytes text) :=
    if_pos hline
  have hbytes := (isMarker_marker isalnum limits text).bytes_eq
  rw [hmarker] at hroom hbytes ⊢
  have hsub : (limits.maxBytes : Int) - (byteMarker limits.maxBytes (bytes text)).length =
      ((limits.maxBytes - (byteMarker limits.maxBytes (bytes text)).length : Nat) : Int) := by
    omega
  refine (if_neg h).trans ((if_pos hline).trans ?_)
  show takeTo text ((limits.maxBytes : Int) - bytes (byteMarker limits.maxBytes (bytes text))) ++
    byteMarker limits.maxBytes (bytes text) = _
  rw [hbytes, hsub, takeTo, if_pos (Int.natCast_nonneg _), Int.toNat_natCast]

theorem trimText_lines (h : ¬Within limits text) (hlines : lineCount text ≠ 1)
    (hroom : (marker isalnum limits text).length ≤ limits.maxBytes) :
    ∃ m, trimText isalnum limits text = joinLines ((chosen isalnum limits text).take m) ++
        marker isalnum limits text ∧
      bytes (joinLines ((chosen isalnum limits text).take m)) +
        (marker isalnum limits text).length ≤ limits.maxBytes ∧
      ∀ n, bytes (joinLines ((chosen isalnum limits text).take n)) +
          (marker isalnum limits text).length ≤ limits.maxBytes →
        (chosen isalnum limits text).take n <+: (chosen isalnum limits text).take m := by
  have hmarker : marker isalnum limits text =
      lineMarker (chosen isalnum limits text).length (lineCount text) := if_neg hlines
  have hbytes := (isMarker_marker isalnum limits text).bytes_eq
  obtain ⟨m, hkept, hm, hmax⟩ := fit_spec [] (chosen isalnum limits text)
    (by simpa [joinLines] using hroom)
  refine ⟨m, ?_, hm, hmax⟩
  refine (if_neg h).trans ((if_neg hlines).trans ?_)
  rw [sortedLines_eq]
  rw [← hbytes, hmarker] at hkept
  rw [hmarker]
  exact congrArg (joinLines · ++ _) hkept

end Cases

theorem isOversized_eq_false {limits : Limits} {text : Text} :
    isOversized limits text = false ↔ Within limits text ∧ text.length / 4 ≤ limits.maxTokens := by
  simp [isOversized, Within, and_assoc]

/-- Trimmed, a text has at most `max_bytes` bytes, and at most `max_lines` lines besides the
marker. -/
structure Budgeted (limits : Limits) (text : Text) : Prop where
  size : bytes (trimText isalnum limits text) ≤ limits.maxBytes
  content : (trimText isalnum limits text = text ∧ lineCount text ≤ limits.maxLines) ∨
    ∃ body, trimText isalnum limits text = body ++ marker isalnum limits text ∧
      lineCount body ≤ limits.maxLines

/-- The texts that are trimmed to their budgets. A text within its bytes and lines has no more
tokens than it may; a line begins with ASCII characters up to the marker, with room for the
marker's line and for the tokens of `max_bytes` characters; and of several lines, those that fit
leave a line for the marker and stay within the tokens. -/
def Trimmable (limits : Limits) (text : Text) : Prop :=
  if Within limits text then text.length / 4 ≤ limits.maxTokens
  else if lineCount text = 1 then
    limits.maxBytes - (marker isalnum limits text).length ≤ text.length ∧
      (∀ c ∈ text.take (limits.maxBytes - (marker isalnum limits text).length), c.val ≤ 127) ∧
      2 ≤ limits.maxLines ∧ limits.maxBytes / 4 ≤ limits.maxTokens
  else ∀ n, bytes (joinLines ((chosen isalnum limits text).take n)) +
      (marker isalnum limits text).length ≤ limits.maxBytes →
    max 1 ((chosen isalnum limits text).take n).length < limits.maxLines ∧
      ((joinLines ((chosen isalnum limits text).take n)).length +
        (marker isalnum limits text).length) / 4 ≤ limits.maxTokens

section Verdict
variable {isalnum} {limits : Limits} {text : Text}

/-- The beginning of a line that is left next to the marker is as long as its bytes are many
exactly if it is ASCII and does not end before. -/
theorem bytes_take_le_iff {room : Nat} (hlong : room < bytes text) :
    bytes (text.take room) ≤ room ↔ room ≤ text.length ∧ ∀ c ∈ text.take room, c.val ≤ 127 := by
  constructor
  · intro h
    have hroom : room ≤ text.length := by
      by_contra hshort
      rw [take_of_length_le (by omega)] at h
      omega
    refine ⟨hroom, (bytes_le_length_iff _).mp ?_⟩
    rwa [length_take_of_le hroom]
  · rintro ⟨hroom, hascii⟩
    have hle := (bytes_le_length_iff _).mpr hascii
    rwa [length_take_of_le hroom] at hle

theorem trimmable_line (hlines : 0 < limits.maxLines) (h : ¬Within limits text)
    (hline : lineCount text = 1) (hroom : (marker isalnum limits text).length < limits.maxBytes) :
    (Budgeted isalnum limits text ∧ isOversized limits (trimText isalnum limits text) = false) ↔
      Trimmable isalnum limits text := by
  have htrim := trimText_line h hline hroom.le
  have hmarker := isMarker_marker isalnum limits text
  have hlong : limits.maxBytes < bytes text := by
    by_contra hle
    exact h ⟨by omega, by omega⟩
  rw [Trimmable, if_neg h, if_pos hline, isOversized_eq_false, Within]
  generalize hm : marker isalnum limits text = m at *
  generalize hr : limits.maxBytes - m.length = room at *
  have hbody : lineCount (text.take room) = 1 := by
    have hnone : text.count '\n' = 0 := by
      rw [lineCount_eq] at hline
      omega
    have hnotin : '\n' ∉ text.take room :=
      fun hmem => count_eq_zero.mp hnone (mem_of_mem_take hmem)
    rw [lineCount_eq, count_eq_zero.mpr hnotin]
  have hcount : lineCount (trimText isalnum limits text) = 2 := by
    rw [htrim, hmarker.lineCount_append, hbody]
  have hbytes : bytes (trimText isalnum limits text) ≤ limits.maxBytes ↔
      room ≤ text.length ∧ ∀ c ∈ text.take room, c.val ≤ 127 := by
    rw [← bytes_take_le_iff (by omega), htrim, bytes_append, hmarker.bytes_eq]
    omega
  have hlength : room ≤ text.length → (trimText isalnum limits text).length = limits.maxBytes := by
    intro hle
    rw [htrim, length_append, length_take_of_le hle]
    omega
  constructor
  · rintro ⟨hbudget, ⟨htwo, hsize⟩, htokens⟩
    obtain ⟨hle, hascii⟩ := hbytes.mp hsize
    rw [hlength hle] at htokens
    exact ⟨hle, hascii, by omega, htokens⟩
  · rintro ⟨hle, hascii, htwo, htokens⟩
    have hsize := hbytes.mpr ⟨hle, hascii⟩
    refine ⟨⟨hsize, Or.inr ⟨text.take room, ?_, by omega⟩⟩, ⟨by omega, hsize⟩, ?_⟩
    · rw [hm, htrim]
    · rwa [hlength hle]

theorem trimmable_lines (hlines : 0 < limits.maxLines) (h : ¬Within limits text)
    (hmany : lineCount text ≠ 1) (hroom : (marker isalnum limits text).length < limits.maxBytes) :
    (Budgeted isalnum limits text ∧ isOversized limits (trimText isalnum limits text) = false) ↔
      Trimmable isalnum limits text := by
  obtain ⟨m, htrim, hfits, hmax⟩ := trimText_lines h hmany hroom.le
  have hmarker := isMarker_marker isalnum limits text
  rw [Trimmable, if_neg h, if_neg hmany, isOversized_eq_false, Within]
  have hbody : lineCount (joinLines ((chosen isalnum limits text).take m)) =
      max 1 ((chosen isalnum limits text).take m).length :=
    lineCount_joinLines fun line hline => chosen_unbroken isalnum (mem_of_mem_take hline)
  have hfew : ((chosen isalnum limits text).take m).length ≤ limits.maxLines :=
    (length_take_le' _ _).trans (length_chosen isalnum limits text)
  have hsize : bytes (trimText isalnum limits text) ≤ limits.maxBytes := by
    rw [htrim, bytes_append, hmarker.bytes_eq]
    exact hfits
  have hcount : lineCount (trimText isalnum limits text) =
      max 1 ((chosen isalnum limits text).take m).length + 1 := by
    rw [htrim, hmarker.lineCount_append, hbody]
  have hbudget : Budgeted isalnum limits text := ⟨hsize, Or.inr ⟨_, htrim, by omega⟩⟩
  rw [hcount]
  constructor
  · rintro ⟨-, ⟨hle, -⟩, htokens⟩ n hn
    -- Fewer lines need less.
    have hsub := hmax n hn
    have hjoined := (prefix_joinLines hsub).length_le
    have hshort := hsub.length_le
    rw [htrim, length_append] at htokens
    exact ⟨by omega, by omega⟩
  · intro hall
    obtain ⟨hle, htokens⟩ := hall m hfits
    refine ⟨hbudget, ⟨by omega, hsize⟩, ?_⟩
    rwa [htrim, length_append]

theorem trimmable_iff (hlines : 0 < limits.maxLines)
    (hroom : (marker isalnum limits text).length < limits.maxBytes) :
    (Budgeted isalnum limits text ∧
      isOversized limits (if isOversized limits text then trimText isalnum limits text
        else text) = false) ↔ Trimmable isalnum limits text := by
  by_cases h : Within limits text
  · have htrim : trimText isalnum limits text = text := trimText_within h
    have hbudget : Budgeted isalnum limits text := by
      refine ⟨?_, Or.inl ⟨htrim, h.1⟩⟩
      rw [htrim]
      exact h.2
    rw [Trimmable, if_pos h, htrim, ite_self, isOversized_eq_false]
    exact ⟨fun hall => hall.2.2, fun htokens => ⟨hbudget, h, htokens⟩⟩
  · have hover : isOversized limits text = true := by
      rw [← Bool.not_eq_false, isOversized_eq_false]
      exact fun hall => h hall.1
    rw [if_pos hover]
    by_cases hline : lineCount text = 1
    · exact trimmable_line hlines h hline hroom
    · exact trimmable_lines hlines h hline hroom

end Verdict

/-! ## Histories -/

theorem output?_hygiene (limits : Limits) (item : Dict) :
    output? (match output? item with
      | some output =>
        if isOversized limits output then
          setField item "output".toList (.str (trimText isalnum limits output))
        else item
      | none => item) =
    (output? item).map fun output =>
      if isOversized limits output then trimText isalnum limits output else output := by
  cases h : output? item with
  | none => exact h
  | some output =>
    rw [Option.map_some]
    dsimp only
    by_cases hover : isOversized limits output = true
    · rw [if_pos hover, if_pos hover]
      unfold output? at h ⊢
      rw [get_setField, get_setField, if_neg (by decide), if_pos rfl]
      split at h
      case h_1 kind _ hkind _ =>
        rw [hkind]
        by_cases hk : kind = toolResult
        · exact if_pos hk
        · rw [if_neg hk] at h
          cases h
      case h_2 => cases h
    · rw [if_neg hover, if_neg hover]
      exact h

/-- **Hygiene.** Every tool result is trimmed to its budgets, and none is oversized afterwards,
exactly if all of them are trimmable. -/
theorem hygiene_iff (limits : Limits) (hlines : 0 < limits.maxLines) (items : List Dict)
    (hroom : ∀ text ∈ items.filterMap output?,
      (marker isalnum limits text).length < limits.maxBytes) :
    ((∀ text ∈ items.filterMap output?, Budgeted isalnum limits text) ∧
      ∀ text ∈ (applyRequestHistoryHygiene isalnum limits items).filterMap output?,
        isOversized limits text = false) ↔
      ∀ text ∈ items.filterMap output?, Trimmable isalnum limits text := by
  have hafter : (applyRequestHistoryHygiene isalnum limits items).filterMap output? =
      (items.filterMap output?).map fun output =>
        if isOversized limits output then trimText isalnum limits output else output := by
    rw [applyRequestHistoryHygiene, List.filterMap_map, List.map_filterMap]
    exact List.filterMap_congr fun item _ => output?_hygiene isalnum limits item
  rw [hafter, List.forall_mem_map, ← forall₂_and]
  exact forall₂_congr fun text htext => trimmable_iff hlines (hroom text htext)

/-- A tool result. -/
def result (text : Text) : Dict :=
  [("kind".toList, .str toolResult), ("output".toList, .str text)]

def tight : Limits := ⟨10, 60, 20⟩

def letters : Text := List.replicate 80 'x'

theorem hygiene_letters :
    (∀ text ∈ [result letters].filterMap output?, Budgeted Char.isAlphanum tight text) ∧
      ∀ text ∈ (applyRequestHistoryHygiene Char.isAlphanum tight [result letters]).filterMap output?,
        isOversized tight text = false := by
  have houtput : [result letters].filterMap output? = [letters] := rfl
  have hmarker : (marker Char.isAlphanum tight letters).length = 36 := rfl
  have hline : lineCount letters = 1 := rfl
  refine (hygiene_iff Char.isAlphanum tight (by decide) [result letters] ?_).mpr ?_
  · rw [houtput, List.forall_mem_singleton, hmarker]
    decide
  · rw [houtput, List.forall_mem_singleton, Trimmable, if_neg (by decide), if_pos hline, hmarker]
    exact ⟨by decide, forall_of_all (by decide), by decide, by decide⟩

/-- Forty times "é": the line is cut after so many characters as bytes are left. -/
def accents : Text := List.replicate 40 'é'

theorem accents_too_long :
    ¬ ∀ (isalnum : Char → Bool) (limits : Limits), 0 < limits.maxLines → 0 < limits.maxTokens →
      ∀ items : List Dict, (∀ text ∈ items.filterMap output?,
          (marker isalnum limits text).length < limits.maxBytes) →
        (∀ text ∈ items.filterMap output?, Budgeted isalnum limits text) ∧
          ∀ text ∈ (applyRequestHistoryHygiene isalnum limits items).filterMap output?,
            isOversized limits text = false := by
  intro h
  have houtput : [result accents].filterMap output? = [accents] := rfl
  have hmarker : (marker Char.isAlphanum tight accents).length < tight.maxBytes := by decide
  have hroom : ∀ text ∈ [result accents].filterMap output?,
      (marker Char.isAlphanum tight text).length < tight.maxBytes := by
    rwa [houtput, List.forall_mem_singleton]
  have hbudget := (h Char.isAlphanum tight (by decide) (by decide) [result accents] hroom).1
  rw [houtput, List.forall_mem_singleton] at hbudget
  exact absurd hbudget.size (by decide)

end MiqroForge.Kun.Hygiene
