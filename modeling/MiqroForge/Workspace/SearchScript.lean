import MiqroForge.Library.BashWords
import MiqroForge.Sessions.DesktopKey
import MiqroForge.Workspace.Location

/-!
The script that looks for a file in WSL: `buildWslSearchScript` of `workspace-path.ts`, and the paths
that it carries to bash unchanged.
-/

namespace MiqroForge.Workspace

open PyText BashQuoting Mealy List

namespace Desktop

/-- A quote for a text in single quotes: `'\''`. -/
def escapedQuote : Text := ['\'', '\\', '\'', '\'']

def shellEscape (s : Text) : Text := s.flatMap fun c => if c = '\'' then escapedQuote else [c]

def sanitizeSessionKeyForPath (sessionKey : Text) : Text :=
  (sessionKey.flatMap Sessions.Desktop.codeUnits).map Sessions.Desktop.replaceUnit

def wslGlobalWorkspaceSubpath (w : World) : Text :=
  match readActiveAccount w with
  | none => ".forge/workspace".toList
  | some sub =>
    if readLegacyWorkspaceOwner w = some sub then ".forge/workspace".toList
    else ".forge/accounts/".toList ++ sub ++ "/workspace".toList

/-- The directories of the sandbox and of the session, as the script puts them together. -/
def sandboxDir (sandboxKey : Text) : Text :=
  "/tmp/miqi-sandboxes/".toList ++ sandboxKey ++ "/home/miqi/workspace".toList

def sessionDir (root sessionFilesKey : Text) : Text :=
  root ++ "/sessions/".toList ++ sessionFilesKey ++ "/files".toList

/-- The lines that use no input. -/
def searchLines (allowGlobal : Bool) : Text :=
  "found=\"\"\n".toList ++ "root=\"\"\n".toList ++
  "if [ -f \"$W/$RP\" ]; then found=\"$W/$RP\"; root=\"$W\"; fi\n".toList ++
  "if [ -z \"$found\" ] && [ -f \"$S/$RP\" ]; then found=\"$S/$RP\"; root=\"$W\"; fi\n".toList ++
  (if allowGlobal then
    "if [ -z \"$found\" ] && [ -f \"$ws/$RP\" ]; then found=\"$ws/$RP\"; root=\"$ws\"; fi\n".toList ++
    "if [ -z \"$found\" ] && [ -f \"$s/$RP\" ]; then found=\"$s/$RP\"; root=\"$ws\"; fi\n".toList
  else []) ++
  "if [ -z \"$found\" ]; then exit 1; fi\n".toList ++
  "canon=$(readlink -f \"$found\") || exit 1\n".toList ++
  "root_canon=$(readlink -f \"$root\") || exit 1\n".toList ++
  "case \"$canon\" in\n".toList ++
  "  \"$root_canon\"|\"$root_canon\"/*) echo \"$found\"; exit 0 ;;\n".toList ++
  "  *) exit 1 ;;\n".toList ++
  "esac\n".toList

/-- A line that assigns a text in double quotes. -/
def quotedLine (name t : Text) : Text := name ++ ['='] ++ ('"' :: t ++ ['"']) ++ ['\n']

/-- The lines behind the one that assigns the path. -/
def laterLines (w : World) (sessionKey : Text) (allowGlobal : Bool) : Text :=
  let sandboxKey := sanitizeSessionKeyForPath sessionKey
  let sessionFilesKey := Sessions.Desktop.sessionFilesDirKey sessionKey
  quotedLine "W".toList (sandboxDir sandboxKey) ++
  quotedLine "S".toList (sessionDir "$W".toList sessionFilesKey) ++
  (if allowGlobal then
    quotedLine "ws".toList ("$HOME/".toList ++ wslGlobalWorkspaceSubpath w) ++
    quotedLine "s".toList (sessionDir "$ws".toList sessionFilesKey)
  else []) ++
  searchLines allowGlobal

def buildWslSearchScript (w : World) (relPath sessionKey : Text) (allowGlobal : Bool) : Text :=
  let escapedRelPath := shellEscape relPath
  -- the escape of single quotes, between the quotes of `RP=$'…'`
  ['R', 'P', '=', '$', '\''] ++ escapedRelPath ++ ['\'', '\n'] ++ laterLines w sessionKey allowGlobal

end Desktop

open Desktop

/-! ## What the script says -/

/-- The commands behind the one that assigns the path: no character of the key is more than a
character of a value. -/
def laterCommands (w : World) (sessionKey : Text) (allowGlobal : Bool) : List Token :=
  let sandboxKey := sanitizeSessionKeyForPath sessionKey
  let sessionFilesKey := Sessions.Desktop.sessionFilesDirKey sessionKey
  assignment "W".toList ((sandboxDir sandboxKey).map .double) ++
  assignment "S".toList ((sessionDir "$W".toList sessionFilesKey).map .double) ++
  (if allowGlobal then
    assignment "ws".toList (("$HOME/".toList ++ wslGlobalWorkspaceSubpath w).map .double) ++
    assignment "s".toList ((sessionDir "$ws".toList sessionFilesKey).map .double)
  else []) ++
  (parse (searchLines allowGlobal)).getD []

/-- The commands of the script as they are for a plain path: the path is the value of `RP`, and what
follows does not depend on it. -/
def searchCommands (w : World) (relPath sessionKey : Text) (allowGlobal : Bool) : List Token :=
  assignment ['R', 'P'] (relPath.map .literal) ++ laterCommands w sessionKey allowGlobal

/-! ## The lines behind the path -/

theorem isLines_searchLines (allowGlobal : Bool) : IsLines (searchLines allowGlobal) :=
  .append (.append (.append (.append (.append (.append (.append (.append (.append (.append (.append
    (.line rfl (by decide)) (.line rfl (by decide)))
    (.line rfl (by decide))) (.line rfl (by decide)))
    (.ite allowGlobal (.append (.line rfl (by decide)) (.line rfl (by decide)))))
    (.line rfl (by decide))) (.line rfl (by decide)))
    (.line rfl (by decide))) (.line rfl (by decide)))
    (.line rfl (by decide))) (.line rfl (by decide)))
    (.line rfl (by decide))

theorem isDoubleChar_of_isSubChar {c : Char} (h : isSubChar c = true) : isDoubleChar c = true := by
  have hbad : ∀ d ∈ "'\"\\\x60(\x7b\x00".toList, isSubChar d = false := forall_of_all (by decide)
  rw [isDoubleChar, Bool.not_eq_true', contains_eq_any_beq, any_eq_false]
  exact fun d hd heq => char_ne h (hbad d hd) (beq_iff_eq.mp heq)

theorem isSubChar_replaceUnit (unit : Nat) : isSubChar (Sessions.Desktop.replaceUnit unit) = true := by
  rw [Sessions.Desktop.replaceUnit]
  split
  · rename_i h
    simp only [Sessions.Desktop.keepsUnit, Bool.or_eq_true, Bool.and_eq_true, decide_eq_true_eq,
      beq_iff_eq] at h
    have hvalid : (Char.ofNat unit).toNat = unit := by
      have hlt : unit.isValidChar := Or.inl (by omega)
      rw [Char.ofNat, dif_pos hlt]
      rfl
    have hchar : ∀ n d, unit = n → Char.ofNat n = d → Char.ofNat unit = d := by
      rintro _ _ rfl rfl
      rfl
    simp only [isSubChar, isAlphanumeric, hvalid, Bool.or_eq_true, Bool.and_eq_true,
      decide_eq_true_eq, beq_iff_eq]
    rcases h with ((((hup | hlow) | hdigit) | hdot) | hunder) | hhyphen
    · exact Or.inl (Or.inl (Or.inl (Or.inl (Or.inl hup))))
    · exact Or.inl (Or.inl (Or.inl (Or.inl (Or.inr hlow))))
    · exact Or.inl (Or.inl (Or.inl (Or.inr hdigit)))
    · exact Or.inl (Or.inl (Or.inr (hchar 46 '.' hdot rfl)))
    · exact Or.inl (Or.inr (hchar 95 '_' hunder rfl))
    · exact Or.inr (hchar 45 '-' hhyphen rfl)
  · rfl

theorem double_sanitized (units : List Nat) :
    ∀ c ∈ units.map Sessions.Desktop.replaceUnit, isDoubleChar c = true := by
  intro c hc
  obtain ⟨unit, -, rfl⟩ := mem_map.mp hc
  exact isDoubleChar_of_isSubChar (isSubChar_replaceUnit unit)

theorem double_between {a t b : Text} (ha : ∀ c ∈ a, isDoubleChar c = true)
    (ht : ∀ c ∈ t, isDoubleChar c = true) (hb : ∀ c ∈ b, isDoubleChar c = true) :
    ∀ c ∈ a ++ t ++ b, isDoubleChar c = true :=
  forall_mem_append.mpr ⟨forall_mem_append.mpr ⟨ha, ht⟩, hb⟩

theorem double_sandboxDir (sessionKey : Text) :
    ∀ c ∈ sandboxDir (sanitizeSessionKeyForPath sessionKey), isDoubleChar c = true :=
  double_between (forall_of_all (by decide)) (double_sanitized _) (forall_of_all (by decide))

theorem double_sessionDir {root : Text} (h : ∀ c ∈ root, isDoubleChar c = true) (sessionKey : Text) :
    ∀ c ∈ sessionDir root (Sessions.Desktop.sessionFilesDirKey sessionKey), isDoubleChar c = true :=
  double_between (forall_mem_append.mpr ⟨h, forall_of_all (by decide)⟩)
    (double_sanitized _) (forall_of_all (by decide))

theorem all_isSubChar {sub : Text} (h : isValidAccountSub sub = true) :
    ∀ c ∈ sub, isSubChar c = true := by
  cases sub with
  | nil => cases h
  | cons c cs =>
    simp only [isValidAccountSub, Bool.and_eq_true, decide_eq_true_eq] at h
    obtain ⟨⟨hc, -⟩, hcs⟩ := h
    exact forall_mem_cons.mpr ⟨isSubChar_of_isAlphanumeric hc, all_eq_true.mp hcs⟩

theorem double_subpath (w : World) :
    ∀ c ∈ wslGlobalWorkspaceSubpath w, isDoubleChar c = true := by
  have hplain : ∀ c ∈ ".forge/workspace".toList, isDoubleChar c = true :=
    forall_of_all (by decide)
  rw [wslGlobalWorkspaceSubpath]
  split
  · exact hplain
  · split
    · exact hplain
    · rename_i sub hread _
      have hsub := all_isSubChar (valid_of_read hread)
      exact double_between (forall_of_all (by decide))
        (fun c hc => isDoubleChar_of_isSubChar (hsub c hc)) (forall_of_all (by decide))

theorem unquoted_quotedLine {c : Char} {name t : Text}
    (hname : ∀ d ∈ c :: name, isWordChar d = true) (ht : ∀ d ∈ t, isDoubleChar d = true) :
    Unquoted (quotedLine (c :: name) t) (assignment (c :: name) (t.map .double)) := by
  refine ⟨?_, Reads.double hname ht⟩
  have hn : '\'' ∉ c :: name := fun hm => absurd (hname _ hm) (by decide)
  have hv : '\'' ∉ t := fun hm => absurd (ht _ hm) (by decide)
  simp only [quotedLine, mem_append, mem_cons, not_mem_nil, or_false] at hn ⊢
  rintro (((hm | hm) | (hm | hm) | hm) | hm)
  · exact hn hm
  · cases hm
  · cases hm
  · exact hv hm
  · cases hm
  · cases hm

theorem unquoted_laterLines (w : World) (sessionKey : Text) (allowGlobal : Bool) :
    Unquoted (laterLines w sessionKey allowGlobal) (laterCommands w sessionKey allowGlobal) := by
  have hglobal : ∀ c ∈ "$HOME/".toList ++ wslGlobalWorkspaceSubpath w, isDoubleChar c = true :=
    forall_mem_append.mpr ⟨forall_of_all (by decide), double_subpath w⟩
  refine ((Unquoted.append ?_ ?_).append ?_).append (isLines_searchLines allowGlobal).unquoted
  · exact unquoted_quotedLine (forall_of_all (by decide)) (double_sandboxDir sessionKey)
  · exact unquoted_quotedLine (forall_of_all (by decide))
      (double_sessionDir (forall_of_all (by decide)) sessionKey)
  · cases allowGlobal with
    | false => exact Unquoted.nil
    | true =>
      refine Unquoted.append ?_ ?_
      · exact unquoted_quotedLine (forall_of_all (by decide)) hglobal
      · exact unquoted_quotedLine (forall_of_all (by decide))
          (double_sessionDir (forall_of_all (by decide)) sessionKey)

/-! ## A path that is carried -/

theorem single_shellEscape (t : Text) :
    (∀ s ∈ outputs step .single (shellEscape t), s.isPiece = true) ∧
      (outputs step .single (shellEscape t)).filter (· ≠ .null) = t.map .literal ∧
      after step .single (shellEscape t) = .single := by
  induction t with
  | nil => exact ⟨forall_mem_nil _, rfl, rfl⟩
  | cons c t ih =>
    obtain ⟨hpieces, hout, hafter⟩ := ih
    rw [shellEscape, flatMap_cons, outputs_append, after_append,
      filter_append, map_cons]
    by_cases hc : c = '\''
    · subst hc
      have hquote : outputs step .single escapedQuote = [.literal '\'', .null] := rfl
      have hsingle : after step .single escapedQuote = .single := rfl
      rw [if_pos rfl, hquote, hsingle]
      refine ⟨?_, congrArg (Sym.literal '\'' :: ·) hout, hafter⟩
      exact forall_mem_append.mpr ⟨by decide, hpieces⟩
    · have hstep : step .single c = ([.literal c], .single) := if_neg hc
      rw [if_neg hc, outputs_singleton, hstep]
      have hsingle : after step .single [c] = .single := congrArg Prod.snd hstep
      rw [hsingle]
      refine ⟨?_, congrArg (Sym.literal c :: ·) hout, hafter⟩
      exact forall_mem_append.mpr ⟨forall_mem_singleton.mpr rfl, hpieces⟩

theorem shellEscape_plain {t : Text} (hq : '\'' ∉ t) : shellEscape t = t := by
  induction t with
  | nil => rfl
  | cons c t ih =>
    have hc : c ≠ '\'' := fun heq => hq (heq ▸ mem_cons_self)
    rw [shellEscape, flatMap_cons, if_neg hc]
    exact congrArg (c :: ·) (ih fun hm => hq (.tail _ hm))

theorem shellEscape_append (s t : Text) : shellEscape (s ++ t) = shellEscape s ++ shellEscape t :=
  flatMap_append

theorem shellEscape_quote (t : Text) : shellEscape ('\'' :: t) = escapedQuote ++ shellEscape t :=
  rfl

theorem split_quote (t : Text) : '\'' ∉ t.takeWhile (· ≠ '\'') ∧
    (t = t.takeWhile (· ≠ '\'') ∨ ∃ r, t = t.takeWhile (· ≠ '\'') ++ '\'' :: r) := by
  refine ⟨fun hm => ?_, ?_⟩
  · have := mem_takeWhile_imp hm
    revert this
    decide
  · have happ := takeWhile_append_dropWhile (p := (· ≠ '\'')) (l := t)
    cases hdrop : t.dropWhile (· ≠ '\'') with
    | nil =>
      rw [hdrop, append_nil] at happ
      exact Or.inl happ.symm
    | cons c r =>
      have hc := head?_dropWhile_not (· ≠ '\'') t
      rw [hdrop] at hc
      rw [hdrop, not_not.mp (of_decide_eq_false hc)] at happ
      exact Or.inr ⟨r, happ.symm⟩

theorem ansi_filled {raw : Text} (hq : '\'' ∉ raw) (hp : paired raw = true) :
    after step (.ansi []) raw = .ansi raw := by
  rcases (ansi_run hq []).2 with ⟨-, hafter⟩ | ⟨u, rfl, hu, -⟩
  · exact hafter
  · rw [paired_append hu] at hp
    cases hp

/-- The path in its quotes. -/
def pathValue (relPath : Text) : Text := ['$', '\''] ++ shellEscape relPath ++ ['\'']

theorem pathValue_carried {relPath : Text}
    (h : inert (relPath.takeWhile (· ≠ '\'')) = true) :
    (∀ s ∈ outputs step (.plain '=') (pathValue relPath), s.isPiece = true) ∧
      (outputs step (.plain '=') (pathValue relPath)).filter (· ≠ .null) =
        relPath.map Sym.literal ∧
      after step (.plain '=') (pathValue relPath) = .plain '\'' := by
  obtain ⟨hq, hsplit⟩ := split_quote relPath
  generalize relPath.takeWhile (· ≠ '\'') = raw at h hq hsplit
  obtain ⟨hp, hansi⟩ := inert_spec raw h
  have hopen : outputs step (.plain '=') ['$', '\''] = [.null] := rfl
  have hmode : after step (.plain '=') ['$', '\''] = .ansi [] := rfl
  have hfill := ansi_filled hq hp
  have hpieces : ∀ s ∈ raw.map Sym.literal, s.isPiece = true := by
    intro s hs
    obtain ⟨c, -, rfl⟩ := mem_map.mp hs
    rfl
  have hkept : (raw.map Sym.literal).filter (· ≠ .null) = raw.map Sym.literal := by
    rw [filter_eq_self]
    intro s hs
    obtain ⟨c, -, rfl⟩ := mem_map.mp hs
    rfl
  simp only [pathValue, outputs_append, after_append, hopen, hmode]
  rcases hsplit with rfl | ⟨r, rfl⟩
  · have hclose : outputs step (.ansi relPath) ['\''] = relPath.map Sym.literal := by
      rw [outputs_singleton, ← hansi]
      rfl
    rw [shellEscape_plain hq, hfill, (ansi_run hq []).1, append_nil, hclose]
    exact ⟨forall_mem_cons.mpr ⟨rfl, hpieces⟩, hkept, rfl⟩
  · obtain ⟨hrest, hvalue, hsingle⟩ := single_shellEscape r
    have hquote : outputs step (.ansi raw) escapedQuote =
        raw.map Sym.literal ++ [Sym.literal '\'', .null] := by
      rw [← hansi]
      rfl
    have hleft : after step (.ansi raw) escapedQuote = .single := rfl
    have hend : outputs step .single ['\''] = [] := rfl
    rw [shellEscape_append, shellEscape_plain hq, shellEscape_quote, outputs_append,
      outputs_append, after_append, after_append, hfill, hleft, hsingle, hend,
      (ansi_run hq []).1, hquote]
    refine ⟨?_, ?_, rfl⟩
    · simp only [forall_mem_append, nil_append, append_nil]
      exact ⟨by decide, ⟨hpieces, by decide⟩, hrest⟩
    · simp only [filter_append, nil_append, append_nil, hkept, hvalue,
        map_append, map_cons]
      simp

theorem nul_shellEscape (t : Text) : '\x00' ∈ shellEscape t ↔ '\x00' ∈ t := by
  rw [shellEscape, mem_flatMap]
  constructor
  · rintro ⟨c, hc, hmem⟩
    split at hmem
    · exact absurd hmem (by decide)
    · rw [mem_singleton.mp hmem]
      exact hc
  · exact fun hm => ⟨_, hm, by decide⟩

theorem script_split (w : World) (relPath sessionKey : Text) (allowGlobal : Bool) :
    buildWslSearchScript w relPath sessionKey allowGlobal =
      ['R', 'P'] ++ ['='] ++ pathValue relPath ++ ['\n'] ++ laterLines w sessionKey allowGlobal := by
  rw [buildWslSearchScript, pathValue]
  simp only [append_assoc]
  rfl

theorem script_carries {relPath : Text} (hnul : '\x00' ∉ relPath)
    (h : inert (relPath.takeWhile (· ≠ '\'')) = true) (w : World) (sessionKey : Text)
    (allowGlobal : Bool) :
    parse (buildWslSearchScript w relPath sessionKey allowGlobal) =
      some (searchCommands w relPath sessionKey allowGlobal) := by
  obtain ⟨hpieces, hvalue, hafter⟩ := pathValue_carried h
  have hname : ∀ d ∈ 'R' :: ['P'], isWordChar d = true := forall_of_all (by decide)
  have hvnul : '\x00' ∉ pathValue relPath := by
    rw [pathValue]
    simp [nul_shellEscape, hnul]
  have hline := Reads.assignment hname hvnul rfl hafter hpieces
  rw [hvalue] at hline
  rw [script_split]
  exact (hline.append (unquoted_laterLines w sessionKey allowGlobal).2).parse

/-! ## A path that is not carried -/

/-- How many characters of a value can be put in by what is read and not put out yet. -/
def weight : Mode → Nat
  | .escape _ => 1
  | .doubleEscape => 1
  | .ansi raw => raw.length
  | .ansiEscape raw => raw.length + 1
  | .plain _ | .dollar | .single | .double _ | .comment | .unread => 0

/-- The backslashes read after `$'` are each followed by a character. -/
def Aligned : Mode → Prop
  | .ansi raw => paired raw = true
  | .ansiEscape raw => paired raw = true
  | _ => True

theorem plainStep_cases (prev c : Char) : plainStep prev c = ([.bare c], .plain c) ∨
    ((plainStep prev c).1 = [] ∨ (plainStep prev c).1 = [.null]) ∧
      weight (plainStep prev c).2 ≤ 1 ∧ Aligned (plainStep prev c).2 := by
  unfold plainStep
  repeat' split
  all_goals simp [weight, Aligned]

/-- What is put out ends the front of the word, or is worth at most one character. -/
def Worth (m m' : Mode) (out : List Sym) : Prop :=
  (∀ more, leading (out ++ more) = []) ∨ (leading out).length + weight m' ≤ weight m + 1

theorem Worth.le {m m' : Mode} {out more : List Sym} {k : Nat} (h : Worth m m' out)
    (hmore : (leading more).length ≤ weight m' + k) :
    (leading (out ++ more)).length ≤ weight m + (k + 1) := by
  rcases h with hnone | hle
  · rw [hnone]
    exact Nat.zero_le _
  · have := leading_append_le out more
    omega

theorem worth_step {m : Mode} {c : Char} (hc : c ≠ '\'') (ha : Aligned m) :
    Worth m (step m c).2 (step m c).1 ∧ Aligned (step m c).2 := by
  cases m with
  | plain prev =>
    have hstep : step (.plain prev) c = plainStep prev c := rfl
    rw [hstep]
    rcases plainStep_cases prev c with heq | ⟨hout | hout, hle, hnext⟩
    · rw [heq]
      exact ⟨Or.inl fun _ => rfl, trivial⟩
    · rw [hout]
      exact ⟨Or.inr (by simpa [leading, weight] using hle), hnext⟩
    · rw [hout]
      exact ⟨Or.inr (by simpa [leading, weight] using hle), hnext⟩
  | dollar =>
    rw [step, if_neg hc]
    split
    · exact ⟨Or.inr (by decide), trivial⟩
    · split
      · exact ⟨Or.inl fun _ => rfl, trivial⟩
      · refine ⟨Or.inl fun _ => rfl, ?_⟩
        rcases plainStep_cases '$' c with heq | ⟨-, -, hnext⟩
        · rw [heq]
          exact trivial
        · exact hnext
  | single =>
    have hstep : step .single c = ([.literal c], .single) := if_neg hc
    rw [hstep]
    exact ⟨Or.inr (Nat.le_refl 1), trivial⟩
  | ansi raw =>
    have hp : paired raw = true := ha
    rw [step, if_neg hc]
    split
    · exact ⟨Or.inr (Nat.le_of_eq (Nat.zero_add _)), hp⟩
    · rename_i hne
      refine ⟨Or.inr ?_, ?_⟩
      · simp [leading, weight]
      · show paired (raw ++ [c]) = true
        rw [paired_append hp, paired_plain hne]
        rfl
  | ansiEscape raw =>
    have hp : paired raw = true := ha
    refine ⟨Or.inr ?_, paired_append hp ['\\', c]⟩
    simp [step, leading, weight]
  | escape prev =>
    rw [step]
    split
    · exact ⟨Or.inr (by decide : 0 ≤ 2), trivial⟩
    · exact ⟨Or.inr (by decide : 1 ≤ 2), trivial⟩
  | double prev =>
    rw [step]
    repeat' split
    · exact ⟨Or.inr (by decide : 0 ≤ 1), trivial⟩
    · exact ⟨Or.inr (by decide : 1 ≤ 1), trivial⟩
    · exact ⟨Or.inr (by decide : 0 ≤ 1), trivial⟩
    · exact ⟨Or.inl fun _ => rfl, trivial⟩
  | doubleEscape =>
    rw [step]
    repeat' split
    · exact ⟨Or.inr (by decide : 0 ≤ 2), trivial⟩
    · exact ⟨Or.inr (by decide : 1 ≤ 2), trivial⟩
    · exact ⟨Or.inl fun _ => rfl, trivial⟩
  | comment =>
    rw [step]
    split
    · exact ⟨Or.inl fun _ => rfl, trivial⟩
    · exact ⟨Or.inr (by decide : 0 ≤ 1), trivial⟩
  | unread => exact ⟨Or.inr (by decide : 0 ≤ 1), trivial⟩

theorem worth_quote {m : Mode} (ha : Aligned m) :
    Worth m (after step m escapedQuote) (outputs step m escapedQuote) ∧
      Aligned (after step m escapedQuote) := by
  cases m with
  | ansi raw =>
    refine ⟨Or.inr ?_, trivial⟩
    show (leading (ansi raw ++ [Sym.literal '\'', .null])).length + 0 ≤ raw.length + 1
    have happ := leading_append_le (ansi raw) [.literal '\'', .null]
    have hone : (leading [.literal '\'', .null]).length = 1 := rfl
    have hle := leading_length_le (ansi raw)
    have hraw := ansi_length_le raw
    omega
  | ansiEscape raw =>
    have hp : paired raw = true := ha
    have houts : outputs step (.ansiEscape raw) escapedQuote = ansi (raw ++ twoQuotes) := by
      show [] ++ ([] ++ ([] ++ (ansi (raw ++ ['\\', '\''] ++ ['\\', '\'']) ++ []))) = _
      rw [nil_append, nil_append, nil_append, append_nil, append_assoc]
      rfl
    rw [houts]
    refine ⟨Or.inr ?_, trivial⟩
    show (leading (ansi (raw ++ twoQuotes))).length + 0 ≤ raw.length + 1 + 1
    have hle := leading_length_le (ansi (raw ++ twoQuotes))
    have hraw := (ansi_twoQuotes hp).1
    omega
  | plain prev => exact ⟨Or.inr (by decide : 1 ≤ 1), trivial⟩
  | escape prev => exact ⟨Or.inr (by decide : 2 ≤ 2), trivial⟩
  | dollar => exact ⟨Or.inr (by decide : 1 ≤ 1), trivial⟩
  | single => exact ⟨Or.inr (by decide : 1 ≤ 1), trivial⟩
  | double prev =>
    have hstep : step (.double prev) '\'' = ([.double '\''], .double '\'') := if_neg (by simp)
    have hsplit : escapedQuote = ['\''] ++ ['\\', '\'', '\''] := rfl
    rw [hsplit, outputs_append, after_append, outputs_singleton, hstep]
    have hafter : after step (.double prev) ['\''] = .double '\'' := congrArg Prod.snd hstep
    rw [hafter]
    exact ⟨Or.inl fun _ => rfl, trivial⟩
  | doubleEscape => exact ⟨Or.inl fun _ => rfl, trivial⟩
  | comment => exact ⟨Or.inr (by decide : 0 ≤ 1), trivial⟩
  | unread => exact ⟨Or.inr (by decide : 0 ≤ 1), trivial⟩

theorem unread_open (t : Text) : (after step .unread t).closed = false := by
  induction t with
  | nil => rfl
  | cons c t ih => exact ih

theorem leading_end {m : Mode} {tail : Text} (hq : '\'' ∉ tail)
    (h : (after step m ('\'' :: '\n' :: tail)).closed = true) :
    (leading (outputs step m ('\'' :: '\n' :: tail))).length ≤ weight m := by
  have hq' : '\'' ∉ '\n' :: tail := fun hm => by
    rcases mem_cons.mp hm with heq | hm
    · cases heq
    · exact hq hm
  cases m with
  | plain prev =>
    have hopen : (after step .single ('\n' :: tail)).closed = true := h
    rw [single_open hq'] at hopen
    cases hopen
  | dollar =>
    have hopen : (after step (.ansi []) ('\n' :: tail)).closed = true := h
    rw [ansi_open hq'] at hopen
    cases hopen
  | ansiEscape raw =>
    have hopen : (after step (.ansi (raw ++ ['\\', '\''])) ('\n' :: tail)).closed = true := h
    rw [ansi_open hq'] at hopen
    cases hopen
  | unread =>
    have hopen : (after step .unread ('\n' :: tail)).closed = true := h
    rw [unread_open] at hopen
    cases hopen
  | ansi raw =>
    have hcut : outputs step (.ansi raw) ('\'' :: '\n' :: tail) =
        ansi raw ++ Sym.bare '\n' :: outputs step (.plain '\n') tail := rfl
    have happ := leading_append_le (ansi raw)
      (.bare '\n' :: outputs step (.plain '\n') tail)
    have hnone : leading (.bare '\n' :: outputs step (.plain '\n') tail) = [] := rfl
    have hle := leading_length_le (ansi raw)
    have hraw := ansi_length_le raw
    rw [hcut]
    rw [hnone, length_nil] at happ
    show _ ≤ raw.length
    omega
  | escape prev => exact Nat.le_refl 1
  | double prev =>
    have hstep : step (.double prev) '\'' = ([.double '\''], .double '\'') := if_neg (by simp)
    rw [outputs, hstep]
    exact Nat.zero_le _
  | single => exact Nat.zero_le _
  | doubleEscape => exact Nat.zero_le _
  | comment => exact Nat.zero_le _

theorem leading_path {tail : Text} (hq : '\'' ∉ tail) (t : Text) {m : Mode} (ha : Aligned m)
    (h : (after step m (shellEscape t ++ '\'' :: '\n' :: tail)).closed = true) :
    (leading (outputs step m (shellEscape t ++ '\'' :: '\n' :: tail))).length ≤
      weight m + t.length := by
  induction t generalizing m with
  | nil => exact leading_end hq h
  | cons c t ih =>
    rw [shellEscape, flatMap_cons, append_assoc, after_append] at h
    rw [shellEscape, flatMap_cons, append_assoc, outputs_append]
    by_cases hc : c = '\''
    · subst hc
      rw [if_pos rfl] at h ⊢
      obtain ⟨hworth, hnext⟩ := worth_quote ha
      exact hworth.le (ih hnext h)
    · rw [if_neg hc] at h ⊢
      obtain ⟨hworth, hnext⟩ := worth_step hc ha
      have hone : after step m [c] = (step m c).2 := rfl
      rw [hone] at h ⊢
      rw [outputs_singleton]
      exact hworth.le (ih hnext h)

theorem leading_of_carried {w : World} {relPath sessionKey : Text} {allowGlobal : Bool}
    {script : Text} {syms : List Sym}
    (h : parse script = some (searchCommands w relPath sessionKey allowGlobal))
    (hquote : quote script = some (['R', 'P', '='].map Sym.bare ++ syms)) :
    leading syms = relPath := by
  rw [parse, hquote, Option.map_some] at h
  have hcut : tokens (['R', 'P', '='].map Sym.bare ++ syms) =
      outputs tokenStep (some (.word (['R', 'P', '='].map Sym.bare))) syms ++
        (after tokenStep (some (.word (['R', 'P', '='].map Sym.bare))) syms).toList := rfl
  obtain ⟨more, hword⟩ := tokens_word (['R', 'P', '='].map Sym.bare) syms
  rw [hcut, hword] at h
  have hhead := (cons_eq_cons.mp (Option.some.inj h)).1
  injection hhead with hhead
  have hsplit : ['R', 'P'].map Sym.bare ++ Sym.bare '=' :: relPath.map Sym.literal =
      ['R', 'P', '='].map Sym.bare ++ relPath.map Sym.literal := rfl
  rw [hsplit] at hhead
  exact leading_of_wordRest (append_cancel_left hhead)

theorem filter_script (w : World) (relPath sessionKey : Text) (allowGlobal : Bool) :
    (buildWslSearchScript w relPath sessionKey allowGlobal).filter (· ≠ '\x00') =
      buildWslSearchScript w (relPath.filter (· ≠ '\x00')) sessionKey allowGlobal := by
  have hescape : ∀ t : Text, (shellEscape t).filter (· ≠ '\x00') =
      shellEscape (t.filter (· ≠ '\x00')) := by
    intro t
    induction t with
    | nil => rfl
    | cons c t ih =>
      rw [shellEscape, flatMap_cons, filter_append, filter_cons]
      by_cases hnul : c = '\x00'
      · subst hnul
        rw [if_neg (by decide)]
        exact ih
      · rw [if_pos (decide_eq_true hnul), shellEscape, flatMap_cons]
        refine congrArg₂ (· ++ ·) ?_ ih
        split
        · rfl
        · rw [filter_singleton, decide_eq_true hnul]
          rfl
  rw [buildWslSearchScript, buildWslSearchScript, filter_append, filter_append,
    filter_append, hescape, filter_nul (unquoted_laterLines w sessionKey allowGlobal).2.nul]
  rfl

theorem path_of_carried {w : World} {relPath sessionKey : Text} {allowGlobal : Bool}
    (h : parse (buildWslSearchScript w relPath sessionKey allowGlobal) =
      some (searchCommands w relPath sessionKey allowGlobal)) :
    let rest := shellEscape (relPath.filter (· ≠ '\x00')) ++
      '\'' :: '\n' :: laterLines w sessionKey allowGlobal
    leading (outputs step (.ansi []) rest) = relPath ∧
      (after step (.ansi []) rest).closed = true := by
  intro rest
  have hscript : (buildWslSearchScript w relPath sessionKey allowGlobal).filter (· ≠ '\x00') =
      ['R', 'P', '=', '$', '\''] ++ rest := by
    rw [filter_script, buildWslSearchScript, append_assoc, append_assoc]
    rfl
  have hquote : quote (buildWslSearchScript w relPath sessionKey allowGlobal) =
      if (after step (.ansi []) rest).closed then
        some (['R', 'P', '='].map Sym.bare ++ Sym.null :: outputs step (.ansi []) rest)
      else none := by
    rw [quote, hscript]
    rfl
  cases hclosed : (after step (.ansi []) rest).closed with
  | true =>
    rw [hclosed, if_pos rfl] at hquote
    have hlead : leading (.null :: outputs step (.ansi []) rest) = relPath :=
      leading_of_carried h hquote
    exact ⟨hlead, rfl⟩
  | false =>
    rw [hclosed] at hquote
    rw [parse, hquote] at h
    cases h

theorem ansi_start {raw more : Text} (hq : '\'' ∉ raw) :
    outputs step (.ansi []) (raw ++ more) =
      outputs step (after step (.ansi []) raw) more := by
  rw [outputs_append, (ansi_run hq []).1, nil_append]

theorem inert_of_unquoted {raw tail : Text} (hq : '\'' ∉ tail) (hqraw : '\'' ∉ raw)
    (hlead : leading (outputs step (.ansi []) (raw ++ '\'' :: '\n' :: tail)) = raw)
    (hclosed : (after step (.ansi []) (raw ++ '\'' :: '\n' :: tail)).closed = true) :
    inert raw = true := by
  rw [ansi_start hqraw] at hlead
  rw [after_append] at hclosed
  rcases (ansi_run hqraw []).2 with ⟨hp, hafter⟩ | ⟨u, -, -, hafter⟩
  · rw [hafter] at hlead
    have hcut : outputs step (.ansi raw) ('\'' :: '\n' :: tail) =
        ansi raw ++ Sym.bare '\n' :: outputs step (.plain '\n') tail := rfl
    have happ := leading_append_le (ansi raw)
      (.bare '\n' :: outputs step (.plain '\n') tail)
    have hnone : leading (.bare '\n' :: outputs step (.plain '\n') tail) = [] := rfl
    have hle := leading_length_le (ansi raw)
    rw [← hcut, hnone, length_nil] at happ
    rw [nil_append] at hlead
    rw [hlead] at happ
    exact inert_of_length hp (Nat.le_trans happ hle)
  -- the backslash at the end takes the closing quote
  · rw [hafter] at hclosed
    have hopen : (after step (.ansi ([] ++ u ++ ['\\', '\''])) ('\n' :: tail)).closed = true :=
      hclosed
    rw [ansi_open (by simpa using hq)] at hopen
    cases hopen

theorem inert_of_quoted {raw r tail : Text} (hq : '\'' ∉ tail) (hqraw : '\'' ∉ raw)
    (hlead : leading (outputs step (.ansi [])
      (raw ++ (escapedQuote ++ (shellEscape r ++ '\'' :: '\n' :: tail)))) = raw ++ '\'' :: r)
    (hclosed : (after step (.ansi [])
      (raw ++ (escapedQuote ++ (shellEscape r ++ '\'' :: '\n' :: tail)))).closed = true) :
    inert raw = true := by
  rw [ansi_start hqraw] at hlead
  rw [after_append] at hclosed
  rcases (ansi_run hqraw []).2 with ⟨hp, hafter⟩ | ⟨u, rfl, hu, hafter⟩
  · rw [hafter, nil_append] at hlead hclosed
    have hrest := leading_path hq r (m := .single) trivial hclosed
    generalize hmore : outputs step .single (shellEscape r ++ '\'' :: '\n' :: tail) = more
      at hrest
    have hcut : outputs step (.ansi raw)
        (escapedQuote ++ (shellEscape r ++ '\'' :: '\n' :: tail)) =
          ansi raw ++ (Sym.literal '\'' :: Sym.null :: more) := by
      rw [← hmore]
      rfl
    have happ := leading_append_le (ansi raw) (Sym.literal '\'' :: Sym.null :: more)
    have hle := leading_length_le (ansi raw)
    have hone : (leading (Sym.literal '\'' :: Sym.null :: more)).length =
        (leading more).length + 1 := rfl
    have hweight : weight .single = 0 := rfl
    rw [← hcut, hlead, length_append, length_cons] at happ
    exact inert_of_length hp (by omega)
  -- the backslash takes the first quote, and the text in quotes ends with two of them
  · rw [hafter, nil_append] at hlead hclosed
    have hrest := leading_path hq r (m := .plain '\'') trivial hclosed
    generalize hmore : outputs step (.plain '\'') (shellEscape r ++ '\'' :: '\n' :: tail) = more
      at hrest
    have htwo : u ++ ['\\', '\''] ++ ['\\', '\''] = u ++ twoQuotes := by
      rw [append_assoc]
      rfl
    have hcut : outputs step (.ansiEscape u)
        (escapedQuote ++ (shellEscape r ++ '\'' :: '\n' :: tail)) = ansi (u ++ twoQuotes) ++ more := by
      rw [← hmore, ← htwo]
      rfl
    rw [hcut] at hlead
    have happ := leading_append_le (ansi (u ++ twoQuotes)) more
    have hle := leading_length_le (ansi (u ++ twoQuotes))
    have hweight : weight (.plain '\'') = 0 := rfl
    rw [hlead, length_append, length_append, length_singleton, length_cons]
      at happ
    rw [(ansi_twoQuotes hu).2 (by omega), leading_literals, append_assoc, append_assoc]
      at hlead
    have hhead := (cons_eq_cons.mp (append_cancel_left hlead)).1
    cases hhead

theorem inert_of_carried {w : World} {relPath sessionKey : Text} {allowGlobal : Bool}
    (h : parse (buildWslSearchScript w relPath sessionKey allowGlobal) =
      some (searchCommands w relPath sessionKey allowGlobal)) :
    '\x00' ∉ relPath ∧ inert (relPath.takeWhile (· ≠ '\'')) = true := by
  obtain ⟨hlead, hclosed⟩ := path_of_carried h
  have hq := (unquoted_laterLines w sessionKey allowGlobal).1
  generalize laterLines w sessionKey allowGlobal = tail at hlead hclosed hq
  have hbound := leading_path hq (relPath.filter (· ≠ '\x00')) (m := .ansi []) rfl hclosed
  have hnul : relPath.filter (· ≠ '\x00') = relPath := by
    have hle := length_filter_le (· ≠ '\x00') relPath
    rw [hlead] at hbound
    rw [filter_eq_self, ← length_filter_eq_length_iff]
    have hweight : weight (.ansi []) = 0 := rfl
    omega
  rw [hnul] at hlead hclosed
  have hnotin : '\x00' ∉ relPath := fun hm => absurd (filter_eq_self.mp hnul _ hm) (by decide)
  refine ⟨hnotin, ?_⟩
  obtain ⟨hqraw, hsplit⟩ := split_quote relPath
  generalize relPath.takeWhile (· ≠ '\'') = raw at hqraw hsplit ⊢
  rcases hsplit with rfl | ⟨r, rfl⟩
  · rw [shellEscape_plain hqraw] at hlead hclosed
    exact inert_of_unquoted hq hqraw hlead hclosed
  · rw [shellEscape_append, shellEscape_plain hqraw, shellEscape_quote] at hlead hclosed
    rw [append_assoc, append_assoc] at hlead hclosed
    exact inert_of_quoted hq hqraw hlead hclosed

/-- **Search script.** The script is read as the commands of a plain path, with the path as the value
of `RP` and the key within the values of the directories, exactly where the path has no NUL and no
backslash that `$'…'` reads: before the first single quote no backslash begins an escape, and none
is the last character. -/
theorem search_script_carries (w : World) (relPath sessionKey : Text) (allowGlobal : Bool) :
    parse (buildWslSearchScript w relPath sessionKey allowGlobal) =
        some (searchCommands w relPath sessionKey allowGlobal) ↔
      '\x00' ∉ relPath ∧ inert (relPath.takeWhile (· ≠ '\'')) = true :=
  ⟨inert_of_carried, fun h => script_carries h.1 h.2 w sessionKey allowGlobal⟩

/-- A path that ends its quotes: `touch x` is a command of the script. -/
theorem path_runs_command : ¬ ∀ (w : World) (relPath sessionKey : Text) (allowGlobal : Bool),
    parse (buildWslSearchScript w relPath sessionKey allowGlobal) =
      some (searchCommands w relPath sessionKey allowGlobal) := by
  intro h
  have hinert := (inert_of_carried (h (bare none) "\\';touch x;#".toList [] true)).2
  revert hinert
  decide

end MiqroForge.Workspace
