import MiqroForge.Library.Regex
import MiqroForge.Library.Retry

/-!
The classification of provider errors, and the retries it decides on: the tests on the type of an
exception, on its status code and on its message, in their order.
-/

namespace MiqroForge.Providers.Resilience

open PyText Regex Regex.Re

inductive ErrorKind where
  | transient
  | rateLimit
  | auth
  | paymentRequired
  | contentBlocked
  | contextLength
  | invalidRequest
  | fatal
  deriving DecidableEq, Repr

def isRetryable (kind : ErrorKind) : Bool := kind == .transient || kind == .rateLimit

/-! ## Exceptions -/

/-- An attribute that may be missing; only an `int` is a code. -/
inductive Attr where
  | absent
  | int (n : Int)
  | other (equals429 : Bool)
  deriving DecidableEq

structure Response where
  statusCode : Attr := .absent
  status : Attr := .absent

/-- The type tests that both SDKs have; all fail where the SDK cannot be imported. -/
structure SdkTests where
  connection : Bool := false
  timeout : Bool := false
  rateLimit : Bool := false
  authOrPermission : Bool := false
  notFound : Bool := false
  badRequest : Bool := false

/-- An exception as the classifier sees it. -/
structure Exc where
  /-- `str(exc).lower()` -/
  message : Text
  statusCode : Attr := .absent
  response : Option Response := none
  openai : SdkTests := {}
  openaiConflict : Bool := false
  openaiInternal : Bool := false
  openaiStatus : Bool := false
  /-- `httpx.NetworkError` or `httpx.TimeoutException` -/
  httpx : Bool := false
  anthropic : SdkTests := {}
  anthropicOverloaded : Bool := false
  anthropicInternal : Bool := false
  assertion : Bool := false
  /-- whether `except Exception` catches it -/
  isException : Bool := true

/-! ## Messages -/

def mentions (signals : List String) (message : Text) : Bool :=
  signals.any fun s => (find? s.toList message).isSome

def contextLengthSignals : List String :=
  ["context length", "context_length", "token limit", "too many tokens", "context window",
    "max_tokens", "maximum context"]

def paymentRequiredSignals : List String :=
  ["insufficient balance", "insufficient quota", "payment required", "payment_required",
    "balance exceeded", "quota exceeded", "quota exhausted", "credit exhausted", "out of credits",
    "credit balance is too low", "exceeded your current quota"]

def contentPolicySignals : List String :=
  ["sensitive_word_detected", "security_violation", "content_filter", "content_policy",
    "content policy violation"]

def transientSignals : List String :=
  ["apiconnectionerror", "connection reset", "connection aborted", "temporary failure",
    "timed out", "timeout", "502", "503", "504", "bad gateway", "service unavailable",
    "overloaded", "host not found", "server not found", "name resolution"]

def rateLimitSignals : List String := ["rate limit", "too many requests"]

def authSignals : List String := ["invalid api key", "unauthorized", "forbidden"]

def invalidRequestSignals : List String := ["not found", "bad request", "invalid request"]

def quoteMark : Re := char fun c => c == '\x27' || c == '"'

def quotaFieldPattern : Re :=
  all [oneOf [lit "code", lit "type"], opt quoteMark, spaces, char fun c => c == ':' || c == '=',
    spaces, quoteMark, opt (lit "consumer_token_"), lit "quota_exceeded", quoteMark]

/-- `connection.{0,40}not found`. -/
def connectionNotFound : Re :=
  all [lit "connection", repeated (char (· != '\n')) 0 40, lit "not found"]

section Classify
variable (isWord : Char → Bool) (decimal : Char → Option Nat)

def isContextLengthError (exc : Exc) : Bool := mentions contextLengthSignals exc.message

def isPaymentRequiredError (exc : Exc) : Bool :=
  (search isWord exc.message quotaFieldPattern).isSome || mentions paymentRequiredSignals exc.message

def isContentPolicyError (exc : Exc) : Bool := mentions contentPolicySignals exc.message

def classifyTransientByMessage (exc : Exc) : Bool :=
  mentions transientSignals exc.message || (search isWord exc.message connectionNotFound).isSome

def classifyByMessage (exc : Exc) : Option ErrorKind :=
  if isPaymentRequiredError isWord exc then some .paymentRequired
  else if mentions rateLimitSignals exc.message then some .rateLimit
  else if isContentPolicyError exc then some .contentBlocked
  else if mentions authSignals exc.message then some .auth
  else if isContextLengthError exc then some .contextLength
  else if mentions invalidRequestSignals exc.message then some .invalidRequest
  else none

/-! ## Status codes -/

def Attr.code? : Attr → Option Int
  | .int n => some n
  | _ => none

/-- `\b(\d{3})\b`. -/
def threeDigits : Re :=
  let digit := char fun c => (decimal c).isSome
  all [boundary, digit, digit, digit, boundary]

/-- `int` of a matched text. -/
def digitsValue (digits : Text) : Nat :=
  digits.foldl (fun n c => 10 * n + (decimal c).getD 0) 0

/-- The first three-digit number of a message that is an error status. -/
def messageCode (message : Text) : Option Int :=
  ((findIter isWord message (threeDigits decimal)).map fun (s, e) =>
    (digitsValue decimal ((message.drop s).take (e - s)) : Int)).find?
      fun code => 400 ≤ code ∧ code < 600

def statusCode (exc : Exc) : Option Int :=
  exc.statusCode.code?.or
    ((exc.response.bind fun r => r.statusCode.code?.or r.status.code?).or
      (messageCode isWord decimal exc.message))

def classifyByStatusCode (exc : Exc) : Option ErrorKind :=
  match statusCode isWord decimal exc with
  | none => none
  | some code =>
    if code = 429 then
      if isPaymentRequiredError isWord exc then some .paymentRequired else some .rateLimit
    else if code = 401 ∨ code = 403 then
      if isContentPolicyError exc then some .contentBlocked else some .auth
    else if code = 402 then some .paymentRequired
    else if code = 408 ∨ (500 ≤ code ∧ code < 600) then some .transient
    else if code = 409 then some .invalidRequest
    else if code = 400 ∨ code = 404 then
      if isContextLengthError exc then some .contextLength else some .invalidRequest
    else if code = 413 then
      if isContextLengthError exc then some .contextLength else some .invalidRequest
    else none

/-! ## The classifier -/

/-- The tests of an SDK between its connection errors and its own ones. -/
def classifyBySdk (exc : Exc) (tests : SdkTests) : Option ErrorKind :=
  if tests.timeout then some .transient
  else if tests.rateLimit then
    if isPaymentRequiredError isWord exc then some .paymentRequired else some .rateLimit
  else if tests.authOrPermission then
    if isContentPolicyError exc then some .contentBlocked else some .auth
  else if tests.notFound then
    if isContextLengthError exc then some .contextLength else some .invalidRequest
  else if tests.badRequest then
    if isContextLengthError exc then some .contextLength
    else some ((classifyByStatusCode isWord decimal exc).getD .invalidRequest)
  else none

/-- The `openai` block. -/
def classifyByOpenai (exc : Exc) : Option ErrorKind :=
  if exc.openai.connection then
    if exc.statusCode = .int 429 ∨ exc.statusCode = .other true then some .rateLimit
    else some .transient
  else
    (classifyBySdk isWord decimal exc exc.openai).or
      (if exc.openaiConflict then some .invalidRequest
      else if exc.openaiInternal then some .transient
      else if exc.openaiStatus then classifyByStatusCode isWord decimal exc
      else none)

/-- The `anthropic` block. -/
def classifyByAnthropic (exc : Exc) : Option ErrorKind :=
  if exc.anthropic.connection then some .transient
  else
    (classifyBySdk isWord decimal exc exc.anthropic).or
      (if exc.anthropicOverloaded then some .transient
      else if exc.anthropicInternal then some .transient
      else none)

/-- The tests behind the SDK types. -/
def classifyUntyped (exc : Exc) : ErrorKind :=
  match classifyByStatusCode isWord decimal exc with
  | some kind => kind
  | none =>
    if classifyTransientByMessage isWord exc then .transient
    else
      match classifyByMessage isWord exc with
      | some kind => kind
      | none => if exc.assertion then .transient else .fatal

def classifyError (exc : Exc) : ErrorKind :=
  match classifyByOpenai isWord decimal exc with
  | some kind => kind
  | none =>
    if exc.httpx then .transient
    else
      match classifyByAnthropic isWord decimal exc with
      | some kind => kind
      | none => classifyUntyped isWord decimal exc

/-- `with_retry`: how often the factory is called, and how the last call ended. -/
def withRetry {α : Type} (maxAttempts : Nat) (factory : Nat → Except Exc α) :
    Nat × Option (Except Exc α) :=
  Retry.run (fun exc => exc.isException && isRetryable (classifyError isWord decimal exc)) factory
    maxAttempts 0

/-! ## The test that decides -/

/-- The kinds of tests on the type of an exception; an exception is untyped where its status code and
its message decide. -/
inductive TypeTest where
  | limitedConnection
  | transient
  | rateLimit
  | identity
  | notFound
  | badRequest
  | conflict
  | untyped
  deriving DecidableEq

def TypeTest.kind (exc : Exc) : TypeTest → ErrorKind
  | .limitedConnection => .rateLimit
  | .transient => .transient
  | .rateLimit => if isPaymentRequiredError isWord exc then .paymentRequired else .rateLimit
  | .identity => if isContentPolicyError exc then .contentBlocked else .auth
  | .notFound => if isContextLengthError exc then .contextLength else .invalidRequest
  | .badRequest =>
    if isContextLengthError exc then .contextLength
    else (classifyByStatusCode isWord decimal exc).getD .invalidRequest
  | .conflict => .invalidRequest
  | .untyped => classifyUntyped isWord decimal exc

def sdkTest (tests : SdkTests) : Option TypeTest :=
  if tests.timeout then some .transient
  else if tests.rateLimit then some .rateLimit
  else if tests.authOrPermission then some .identity
  else if tests.notFound then some .notFound
  else if tests.badRequest then some .badRequest
  else none

/-- The codes that say what kind of error it is. -/
def knownCode (code : Int) : Prop :=
  code ∈ ([400, 401, 402, 403, 404, 408, 409, 413, 429] : List Int) ∨ (500 ≤ code ∧ code < 600)

instance (code : Int) : Decidable (knownCode code) := inferInstanceAs (Decidable (_ ∨ _))

def hasKnownCode (exc : Exc) : Prop := ∃ code, statusCode isWord decimal exc = some code ∧ knownCode code

instance (exc : Exc) : Decidable (hasKnownCode isWord decimal exc) :=
  decidable_of_iff ((statusCode isWord decimal exc).any fun code => decide (knownCode code)) <| by
    unfold hasKnownCode
    cases statusCode isWord decimal exc <;> simp

def openaiTest (exc : Exc) : Option TypeTest :=
  if exc.openai.connection then
    some (if exc.statusCode = .int 429 ∨ exc.statusCode = .other true then .limitedConnection
      else .transient)
  else
    (sdkTest exc.openai).or
      (if exc.openaiConflict then some .conflict
      else if exc.openaiInternal then some .transient
      else if exc.openaiStatus ∧ hasKnownCode isWord decimal exc then some .untyped
      else none)

def anthropicTest (exc : Exc) : Option TypeTest :=
  if exc.anthropic.connection then some .transient
  else
    (sdkTest exc.anthropic).or
      (if exc.anthropicOverloaded ∨ exc.anthropicInternal then some .transient else none)

/-- The first test on the type that an exception meets. -/
def firstTest (exc : Exc) : TypeTest :=
  (openaiTest isWord decimal exc).getD
    (if exc.httpx then .transient else (anthropicTest exc).getD .untyped)

variable (exc : Exc)

theorem classifyBySdk_eq (tests : SdkTests) :
    classifyBySdk isWord decimal exc tests =
      (sdkTest tests).map (TypeTest.kind isWord decimal exc) := by
  unfold classifyBySdk sdkTest
  split_ifs
  case pos => rfl
  all_goals
    simp only [Option.map_some, Option.map_none, TypeTest.kind, *]
    try rfl

theorem hasKnownCode_iff : hasKnownCode isWord decimal exc ↔
    (classifyByStatusCode isWord decimal exc).isSome = true := by
  unfold hasKnownCode classifyByStatusCode
  cases statusCode isWord decimal exc with
  | none => simp
  | some code =>
    have hone : (∃ code', some code = some code' ∧ knownCode code') ↔ knownCode code :=
      ⟨fun ⟨_, heq, h⟩ => Option.some.inj heq ▸ h, fun h => ⟨code, rfl, h⟩⟩
    rw [hone]
    simp only [knownCode, List.mem_cons, List.not_mem_nil, or_false]
    split_ifs <;> simp only [Option.isSome_some, Option.isSome_none, Bool.false_eq_true, iff_true,
      iff_false] <;> omega

theorem classifyByOpenai_eq :
    classifyByOpenai isWord decimal exc =
      (openaiTest isWord decimal exc).map (TypeTest.kind isWord decimal exc) := by
  have hstatus : hasKnownCode isWord decimal exc →
      classifyByStatusCode isWord decimal exc = some (classifyUntyped isWord decimal exc) := by
    intro h
    obtain ⟨kind, hkind⟩ := Option.isSome_iff_exists.mp ((hasKnownCode_iff isWord decimal exc).mp h)
    unfold classifyUntyped
    rw [hkind]
  have hnone : ¬ hasKnownCode isWord decimal exc →
      classifyByStatusCode isWord decimal exc = none := fun h =>
    Option.not_isSome_iff_eq_none.mp fun hs => h ((hasKnownCode_iff isWord decimal exc).mpr hs)
  unfold classifyByOpenai openaiTest
  rw [classifyBySdk_eq]
  cases sdkTest exc.openai with
  | some test => split_ifs <;> rfl
  | none =>
    simp only [Option.map_none, Option.none_or]
    split_ifs <;> simp_all [TypeTest.kind]

theorem classifyByAnthropic_eq :
    classifyByAnthropic isWord decimal exc =
      (anthropicTest exc).map (TypeTest.kind isWord decimal exc) := by
  unfold classifyByAnthropic anthropicTest
  rw [classifyBySdk_eq]
  cases sdkTest exc.anthropic with
  | some test => split_ifs <;> rfl
  | none =>
    simp only [Option.map_none, Option.none_or]
    split_ifs <;> simp_all [TypeTest.kind]

/-- **The first test on the type decides the kind.** -/
theorem classifyError_eq :
    classifyError isWord decimal exc =
      (firstTest isWord decimal exc).kind isWord decimal exc := by
  unfold classifyError firstTest
  rw [classifyByOpenai_eq, classifyByAnthropic_eq]
  cases openaiTest isWord decimal exc with
  | some test => rfl
  | none =>
    by_cases hhttpx : exc.httpx = true
    · simp only [hhttpx, Option.map_none, Option.getD_none, if_true]
      rfl
    · simp only [hhttpx, Option.map_none, Option.getD_none]
      cases anthropicTest exc <;> rfl

/-! ## Terminal errors -/

/-- Where a quota signal is seen: the first type test is that of a rate limit; it is that of a bad
request without words on the context length, and the status is 402 or 429; or none decides, and
the status is 402 or 429, or neither the status nor a transient signal says anything. -/
def QuotaSeen (exc : Exc) : Prop :=
  match firstTest isWord decimal exc with
  | .rateLimit => True
  | .badRequest => isContextLengthError exc = false ∧
      (statusCode isWord decimal exc = some 402 ∨ statusCode isWord decimal exc = some 429)
  | .untyped =>
    statusCode isWord decimal exc = some 402 ∨ statusCode isWord decimal exc = some 429 ∨
      (¬ hasKnownCode isWord decimal exc ∧ classifyTransientByMessage isWord exc = false)
  | _ => False

/-- Where a content signal without a quota signal is seen, the status being 401, 403 or absent. -/
def ContentSeen (exc : Exc) : Prop :=
  match firstTest isWord decimal exc with
  | .identity => True
  | .badRequest => isContextLengthError exc = false ∧ statusCode isWord decimal exc ≠ none
  | .untyped => statusCode isWord decimal exc ≠ none ∨
      (classifyTransientByMessage isWord exc = false ∧
        mentions rateLimitSignals exc.message = false)
  | _ => False

theorem classifyByStatusCode_payment {exc : Exc} (h : isPaymentRequiredError isWord exc = true) :
    classifyByStatusCode isWord decimal exc = some .paymentRequired ↔
      statusCode isWord decimal exc = some 402 ∨ statusCode isWord decimal exc = some 429 := by
  unfold classifyByStatusCode
  cases statusCode isWord decimal exc with
  | none => simp
  | some code =>
    simp only [h, if_true, Option.some.injEq]
    split_ifs <;> simp <;> omega

theorem classifyByStatusCode_none_iff :
    classifyByStatusCode isWord decimal exc = none ↔ ¬ hasKnownCode isWord decimal exc := by
  rw [hasKnownCode_iff, Option.not_isSome_iff_eq_none]

theorem classifyUntyped_payment {exc : Exc} (h : isPaymentRequiredError isWord exc = true) :
    classifyUntyped isWord decimal exc = .paymentRequired ↔
      statusCode isWord decimal exc = some 402 ∨ statusCode isWord decimal exc = some 429 ∨
        (¬ hasKnownCode isWord decimal exc ∧ classifyTransientByMessage isWord exc = false) := by
  have hmessage : classifyByMessage isWord exc = some .paymentRequired := if_pos h
  rw [← classifyByStatusCode_none_iff, ← or_assoc, ← classifyByStatusCode_payment isWord decimal h]
  unfold classifyUntyped
  cases classifyByStatusCode isWord decimal exc with
  | some kind => simp
  | none => cases classifyTransientByMessage isWord exc <;> simp [hmessage]

/-- **A quota signal is recognised** exactly where the tests before it let it through. -/
theorem classifyError_payment {exc : Exc} (h : isPaymentRequiredError isWord exc = true) :
    classifyError isWord decimal exc = .paymentRequired ↔ QuotaSeen isWord decimal exc := by
  rw [classifyError_eq, QuotaSeen]
  cases firstTest isWord decimal exc with
  | limitedConnection => exact iff_of_false nofun id
  | transient => exact iff_of_false nofun id
  | rateLimit => exact iff_of_true (if_pos h) trivial
  | identity =>
    refine iff_of_false ?_ id
    simp only [TypeTest.kind]
    split_ifs <;> exact nofun
  | notFound =>
    refine iff_of_false ?_ id
    simp only [TypeTest.kind]
    split_ifs <;> exact nofun
  | badRequest =>
    simp only [TypeTest.kind, ← classifyByStatusCode_payment isWord decimal h]
    cases isContextLengthError exc with
    | true => exact iff_of_false nofun nofun
    | false => cases classifyByStatusCode isWord decimal exc <;> simp
  | conflict => exact iff_of_false nofun id
  | untyped => exact classifyUntyped_payment isWord decimal h

section Content
variable {exc : Exc} (hcontent : isContentPolicyError exc = true)
  (hpayment : isPaymentRequiredError isWord exc = false)
  (hstatus : statusCode isWord decimal exc = none ∨ statusCode isWord decimal exc = some 401 ∨
    statusCode isWord decimal exc = some 403)
include hcontent hstatus

theorem classifyByStatusCode_content :
    classifyByStatusCode isWord decimal exc =
      if statusCode isWord decimal exc = none then none else some .contentBlocked := by
  unfold classifyByStatusCode
  rcases hstatus with h | h | h <;> rw [h] <;> simp [hcontent]

include hpayment

theorem classifyUntyped_content :
    classifyUntyped isWord decimal exc = .contentBlocked ↔
      statusCode isWord decimal exc ≠ none ∨
        (classifyTransientByMessage isWord exc = false ∧
          mentions rateLimitSignals exc.message = false) := by
  unfold classifyUntyped classifyByMessage
  rw [classifyByStatusCode_content isWord decimal hcontent hstatus, hpayment, hcontent]
  cases statusCode isWord decimal exc with
  | some code => simp
  | none =>
    cases classifyTransientByMessage isWord exc <;> cases mentions rateLimitSignals exc.message <;>
      simp

/-- **A content signal is recognised** exactly where the tests before it let it through. -/
theorem classifyError_content :
    classifyError isWord decimal exc = .contentBlocked ↔ ContentSeen isWord decimal exc := by
  rw [classifyError_eq, ContentSeen]
  cases firstTest isWord decimal exc with
  | limitedConnection => exact iff_of_false nofun id
  | transient => exact iff_of_false nofun id
  | rateLimit =>
    refine iff_of_false ?_ id
    simp only [TypeTest.kind, hpayment]
    exact nofun
  | identity => exact iff_of_true (if_pos hcontent) trivial
  | notFound =>
    refine iff_of_false ?_ id
    simp only [TypeTest.kind]
    split_ifs <;> exact nofun
  | badRequest =>
    simp only [TypeTest.kind, classifyByStatusCode_content isWord decimal hcontent hstatus]
    cases isContextLengthError exc with
    | true => exact iff_of_false nofun nofun
    | false => cases statusCode isWord decimal exc <;> simp
  | conflict => exact iff_of_false nofun id
  | untyped => exact classifyUntyped_content isWord decimal hcontent hpayment hstatus

end Content

/-- A factory whose first call raises the exception is called once. -/
def CalledOnce (exc : Exc) : Prop :=
  ∀ (α : Type) (maxAttempts : Nat) (factory : Nat → Except Exc α), factory 0 = .error exc →
    (withRetry isWord decimal (maxAttempts + 1) factory).1 = 1

theorem calledOnce_of_kind {exc : Exc}
    (h : isRetryable (classifyError isWord decimal exc) = false) :
    CalledOnce isWord decimal exc := by
  intro α maxAttempts factory hfirst
  have hterminal : (exc.isException && isRetryable (classifyError isWord decimal exc)) = false := by
    rw [h, Bool.and_false]
  exact congrArg Prod.fst (Retry.run_terminal maxAttempts 0 hfirst hterminal)

/-- A terminal error is classified as such, and not tried again. -/
def Terminal (exc : Exc) : Prop :=
  (isPaymentRequiredError isWord exc = true →
    classifyError isWord decimal exc = .paymentRequired ∧ CalledOnce isWord decimal exc) ∧
  (isContentPolicyError exc = true → isPaymentRequiredError isWord exc = false →
    (statusCode isWord decimal exc = none ∨ statusCode isWord decimal exc = some 401 ∨
      statusCode isWord decimal exc = some 403) →
    classifyError isWord decimal exc = .contentBlocked ∧ CalledOnce isWord decimal exc)

/-- No test comes before the one that sees the signal of the message. -/
def SignalSeen (exc : Exc) : Prop :=
  (isPaymentRequiredError isWord exc = true → QuotaSeen isWord decimal exc) ∧
  (isContentPolicyError exc = true → isPaymentRequiredError isWord exc = false →
    (statusCode isWord decimal exc = none ∨ statusCode isWord decimal exc = some 401 ∨
      statusCode isWord decimal exc = some 403) → ContentSeen isWord decimal exc)

/-- **Terminal errors are not retried** exactly where their signal is seen. -/
theorem terminal_iff (exc : Exc) : Terminal isWord decimal exc ↔ SignalSeen isWord decimal exc := by
  constructor
  · rintro ⟨hquota, hcontent⟩
    refine ⟨fun h => ?_, fun h hpayment hstatus => ?_⟩
    · exact (classifyError_payment isWord decimal h).mp (hquota h).1
    · exact (classifyError_content isWord decimal h hpayment hstatus).mp
        (hcontent h hpayment hstatus).1
  · rintro ⟨hquota, hcontent⟩
    refine ⟨fun h => ?_, fun h hpayment hstatus => ?_⟩
    · have hkind := (classifyError_payment isWord decimal h).mpr (hquota h)
      exact ⟨hkind, calledOnce_of_kind isWord decimal (by rw [hkind]; rfl)⟩
    · have hkind := (classifyError_content isWord decimal h hpayment hstatus).mpr
        (hcontent h hpayment hstatus)
      exact ⟨hkind, calledOnce_of_kind isWord decimal (by rw [hkind]; rfl)⟩

end Classify

/-- `RuntimeError("503: insufficient balance")`. -/
def balanceAt503 : Exc := { message := "503: insufficient balance".toList }

def asciiDecimal (c : Char) : Option Nat := if c.isDigit then some (c.toNat - 48) else none

/-- Its status counts before its message: a factory that raises it is called three times. -/
theorem balanceAt503_retried :
    ¬ Terminal Char.isAlphanum asciiDecimal balanceAt503 ∧
      (withRetry Char.isAlphanum asciiDecimal 3
        fun _ => (.error balanceAt503 : Except Exc Unit)).1 = 3 := by
  refine ⟨fun h => ?_, by decide⟩
  have hkind := (h.1 (by decide)).1
  exact absurd hkind (by decide)

end MiqroForge.Providers.Resilience
