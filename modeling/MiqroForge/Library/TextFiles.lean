import MiqroForge.Library.PyText

/-!
Python's `read_text` and `write_text` in UTF-8: bytes that are not UTF-8 are replaced or refused,
and newlines are translated on the way in and, on Windows, on the way out.
-/

namespace TextFiles

open PyText

abbrev Bytes := List UInt8

/-- `text.encode("utf-8")` -/
def encode (t : Text) : Bytes := t.flatMap String.utf8EncodeChar

/-- `data.decode("utf-8")`, with no text where it raises. -/
def decode? (data : Bytes) : Option Text := data.toByteArray.utf8Decode?.map Array.toList

def isContinuation (byte : UInt8) : Bool := 0x80 ≤ byte && byte ≤ 0xbf

/-- Whether a byte can follow the lead byte of a sequence of three or four. -/
def follows (lead byte : UInt8) : Bool :=
  if lead = 0xe0 then 0xa0 ≤ byte && byte ≤ 0xbf
  else if lead = 0xed then 0x80 ≤ byte && byte ≤ 0x9f
  else if lead = 0xf0 then 0x90 ≤ byte && byte ≤ 0xbf
  else if lead = 0xf4 then 0x80 ≤ byte && byte ≤ 0x8f
  else isContinuation byte

/-- How many bytes at the head one replacement character stands for. -/
def illFormed : Bytes → Nat
  | lead :: second :: rest =>
    if (0xe0 ≤ lead && lead ≤ 0xf4) && follows lead second then
      match rest with
      | third :: _ => if 0xf0 ≤ lead && isContinuation third then 3 else 2
      | [] => 2
    else 1
  | _ => 1

def decodeReplacing : Nat → Bytes → Text
  | 0, _ => []
  | _ + 1, [] => []
  | fuel + 1, byte :: data =>
    match (byte :: data).toByteArray.utf8DecodeChar? 0 with
    | some c => c :: decodeReplacing fuel ((byte :: data).drop c.utf8Size)
    | none => '\uFFFD' :: decodeReplacing fuel ((byte :: data).drop (illFormed (byte :: data)))

/-- `data.decode("utf-8", errors="replace")` -/
def decodeReplace (data : Bytes) : Text := (decode? data).getD (decodeReplacing data.length data)

/-- What reading a text file does to its newlines. -/
def universalNewlines : Text → Text
  | [] => []
  | '\r' :: '\n' :: t => '\n' :: universalNewlines t
  | c :: t => (if c = '\r' then '\n' else c) :: universalNewlines t

/-- What writing a text file does to its newlines. -/
def platformNewlines (windows : Bool) (t : Text) : Text :=
  if windows then t.flatMap fun c => if c = '\n' then ['\r', '\n'] else [c] else t

/-- `read_text(encoding="utf-8")` -/
def readText (data : Bytes) : Option Text := (decode? data).map universalNewlines

/-- `read_text(encoding="utf-8", errors="replace")` -/
def readTextReplace (data : Bytes) : Text := universalNewlines (decodeReplace data)

/-- `write_text(text, encoding="utf-8")` -/
def writeText (windows : Bool) (t : Text) : Bytes := encode (platformNewlines windows t)

theorem decode?_encode (t : Text) : decode? (encode t) = some t := by
  have h : (encode t).toByteArray = t.utf8Encode := by simp [encode, List.utf8Encode]
  simp [decode?, h]

theorem encode_injective {s t : Text} (h : encode s = encode t) : s = t := by
  have hdecoded : decode? (encode s) = decode? (encode t) := congrArg decode? h
  rw [decode?_encode, decode?_encode] at hdecoded
  exact Option.some.inj hdecoded

theorem readTextReplace_encode (t : Text) : readTextReplace (encode t) = universalNewlines t := by
  simp [readTextReplace, decodeReplace, decode?_encode]

theorem universalNewlines_eq_nil {t : Text} : universalNewlines t = [] ↔ t = [] := by
  fun_cases universalNewlines t <;> simp

theorem encode_eq_nil {t : Text} : encode t = [] ↔ t = [] := by
  constructor
  · intro h
    exact encode_injective (t := []) h
  · rintro rfl
    rfl

theorem no_carriage_return (t : Text) : '\r' ∉ universalNewlines t := by
  fun_induction universalNewlines t with
  | case1 => simp
  | case2 t ih => simpa using ih
  | case3 c t _ ih =>
    intro hmem
    rcases List.mem_cons.mp hmem with h | h
    · split at h
      · cases h
      · next hc => exact hc h.symm
    · exact ih h

theorem universalNewlines_of_no_return {t : Text} (h : '\r' ∉ t) : universalNewlines t = t := by
  fun_induction universalNewlines t with
  | case1 => rfl
  | case2 t _ => simp at h
  | case3 c t _ ih =>
    obtain ⟨hc, ht⟩ := not_or.mp (mt List.mem_cons.mpr h)
    rw [if_neg (Ne.symm hc), ih ht]

theorem writeText_readTextReplace {windows : Bool} {data : Bytes} :
    writeText windows (readTextReplace data) = data ↔
      ∃ t, data = encode t ∧ platformNewlines windows (universalNewlines t) = t := by
  constructor
  · intro h
    have hdata : data = encode (platformNewlines windows (readTextReplace data)) := h.symm
    refine ⟨_, hdata, ?_⟩
    rw [← readTextReplace_encode, ← hdata]
  · rintro ⟨t, rfl, ht⟩
    rw [writeText, readTextReplace_encode, ht]

theorem readText_writeText (windows : Bool) (t : Text) :
    readText (writeText windows t) = some (universalNewlines (platformNewlines windows t)) := by
  rw [readText, writeText, decode?_encode]
  rfl

theorem universalNewlines_platformNewlines {windows : Bool} {t : Text} :
    universalNewlines (platformNewlines windows t) = t ↔ '\r' ∉ t := by
  constructor
  · intro h
    rw [← h]
    exact no_carriage_return _
  · intro h
    cases windows with
    | false => exact universalNewlines_of_no_return h
    | true =>
      induction t with
      | nil => rfl
      | cons c t ih =>
        obtain ⟨hc, ht⟩ := not_or.mp (mt List.mem_cons.mpr h)
        have hrest := ih ht
        change universalNewlines ((if c = '\n' then ['\r', '\n'] else [c]) ++
          platformNewlines true t) = c :: t
        by_cases hnewline : c = '\n'
        · rw [if_pos hnewline, hnewline]
          exact congrArg ('\n' :: ·) hrest
        · rw [if_neg hnewline, List.singleton_append, universalNewlines, hrest,
            if_neg (Ne.symm hc)]
          rintro _ rfl
          exact absurd rfl hc

theorem readTextReplace_eq_nil {windows : Bool} {data : Bytes}
    (h : writeText windows (readTextReplace data) = data) :
    readTextReplace data = [] ↔ data = [] := by
  obtain ⟨t, rfl, -⟩ := writeText_readTextReplace.mp h
  rw [readTextReplace_encode, universalNewlines_eq_nil, encode_eq_nil]

end TextFiles
