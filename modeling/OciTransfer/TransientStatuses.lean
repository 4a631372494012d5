import OciTransfer.CopyStream
import OciTransfer.FailureRecording
import OciTransfer.ServiceErrors
import OciTransfer.TextSearch

/-!
Registry errors that name a transient status, from the service to the queue.

An error leaves the service in one of two encodings, an event of the copy stream
or the body of an error response, and both carry what `classify` has found.  It
looks for the number 429 and for a few words, so the other transient numbers are
retried only if the text around them happens to hold one of the words.
-/

namespace OciTransfer

/-- The event `copy` emits for an error, with the version that `emit` adds. -/
def failedJson (error : ServiceError) (message : String) : JsonValue :=
  .dict [("type", .str "failed"), ("code", .str (classification error).1),
    ("message", .str message), ("retryable", .bool (classification error).2),
    ("protocol_version", .int 1)]

/-- The body `serviceError` writes: the same map without its type. -/
def serviceErrorJson (error : ServiceError) (message : String) : JsonValue :=
  .dict [("code", .str (classification error).1), ("message", .str message),
    ("retryable", .bool (classification error).2)]

/-- The error `_execute` raises for a `failed` event. -/
def failedEventError (event : JsonValue) : Option TransferError := do
  let message ← event.textAt "message" "transfer failed"
  let code ← event.textAt "code" "transfer_failed"
  let retryAfter ← event.numberAt "retry_after"
  some
    { message := message
      code := code
      retryable := event.truthAt "retryable"
      retryAfter := retryAfter }

/-- `_service_error`, for a body that was loaded; `detail` is the text
`extract_http_error_detail` finds in it. -/
def clientServiceError (sanitize : String → String) (detail : Option String) (loaded : Loaded)
    (status : Nat) : Option Outcome :=
  let returned := "transfer service returned HTTP " ++ toString status
  let unreadable := protocolError (match detail with
    | some text => returned ++ ": " ++ text
    | none => returned)
  match loaded with
  | .crashed => some .crashed
  | .malformed => some unreadable
  | .value value =>
      if !value.isDict then some unreadable
      else do
        let message ← value.textAt "message" "transfer failed"
        let code ← value.textAt "code" "transfer_failed"
        let retryAfter ← value.numberAt "retry_after"
        some (.raised
          { message := returned ++ ": " ++ sanitize message
            code := code
            retryable := value.truthAt "retryable"
            retryAfter := retryAfter })

/-- The value holds what `classify` has found, and no delay. -/
structure Carries (value : JsonValue) (error : ServiceError) (message : String) : Prop where
  code : value.get? "code" = some (.str (classification error).1)
  message : value.get? "message" = some (.str message)
  retryable : value.get? "retryable" = some (.bool (classification error).2)
  noDelay : value.get? "retry_after" = none

private theorem failedJson_carries (error : ServiceError) (message : String) :
    Carries (failedJson error message) error message := by
  have distinct : ["type", "code", "message", "retryable", "protocol_version"].Nodup := by decide
  constructor
  · exact JsonValue.get?_dict (by exact distinct) (by simp)
  · exact JsonValue.get?_dict (by exact distinct) (by simp)
  · exact JsonValue.get?_dict (by exact distinct) (by simp)
  · exact JsonValue.get?_dict_absent (by simp)

private theorem serviceErrorJson_carries (error : ServiceError) (message : String) :
    Carries (serviceErrorJson error message) error message := by
  have distinct : ["code", "message", "retryable"].Nodup := by decide
  constructor
  · exact JsonValue.get?_dict (by exact distinct) (by simp)
  · exact JsonValue.get?_dict (by exact distinct) (by simp)
  · exact JsonValue.get?_dict (by exact distinct) (by simp)
  · exact JsonValue.get?_dict_absent (by simp)

section Decoding

variable {value : JsonValue} {error : ServiceError} {message : String}

private theorem Carries.failedEventError (carries : Carries value error message) :
    failedEventError value = some (classify error message).failure := by
  simp only [OciTransfer.failedEventError, JsonValue.textAt, JsonValue.numberAt, JsonValue.truthAt,
    carries.code, carries.message, carries.retryable, carries.noDelay]
  rfl

/-- What an error response of the service is raised as. -/
def planError (error : ServiceError) (message : String) (sanitize : String → String) :
    TransferError :=
  { message := "transfer service returned HTTP 502: " ++ sanitize message
    code := (classification error).1
    retryable := (classification error).2
    retryAfter := none }

theorem Carries.clientServiceError (carries : Carries value error message)
    (isDict : value.isDict = true) (sanitize : String → String) (detail : Option String) :
    clientServiceError sanitize detail (.value value) 502 =
      some (.raised (planError error message sanitize)) := by
  simp only [OciTransfer.clientServiceError, isDict, JsonValue.textAt, JsonValue.numberAt,
    JsonValue.truthAt, carries.code, carries.message, carries.retryable, carries.noDelay]
  rfl

end Decoding

/-- Within the timeouts the manager lets the job wait for a retry, whatever
happens to the queue between its awaits. -/
def ManagerConfig.RetriesInTime (config : ManagerConfig) (error : TransferError) : Prop :=
  ∀ (execution : Execution) (details : JobRow) (asked read written : Awaited)
    (askedRow readRow writtenRow : JobRow),
    asked.Holds execution askedRow → askedRow.state ≠ .cancelRequested →
    read.Holds execution readRow → written.Holds execution writtenRow →
    config.InTime readRow read.reading.current →
    ∃ after row, execution.handles config details error asked read written = some after ∧
      after.jobs.find? execution.job = some row ∧ row.state = .retryWait

private theorem ManagerConfig.retriesInTime {config : ManagerConfig} {error : TransferError}
    (retryable : error.retryable = true) (notMismatch : error.code ≠ "digest_mismatch")
    (notRefused : error.code ≠ "authentication_failed") : config.RetriesInTime error := by
  intro execution details asked read written askedRow readRow writtenRow current notCancelled
    atRead atWrite inTime
  obtain ⟨after, row, handled, found, recorded⟩ := Execution.handles_found config details notRefused
    current notCancelled atRead atWrite
  have retries : config.Retries readRow error read.reading.current :=
    Retries.mk retryable (fun mismatch => absurd mismatch notMismatch) inTime.progress
      inTime.overall
  refine ⟨after, row, handled, found, ?_⟩
  rw [recorded.state, if_pos (recorded_retryable.mpr retries)]

/-- The error reaches the manager as retryable in both encodings, and is retried. -/
structure ServiceError.Retried (error : ServiceError) : Prop where
  streamed : ∀ message, ∃ raised, failedEventError (failedJson error message) = some raised ∧
    raised.retryable = true ∧ ∀ config : ManagerConfig, config.RetriesInTime raised
  planned : ∀ message sanitize detail, ∃ raised,
    clientServiceError sanitize detail (.value (serviceErrorJson error message)) 502 =
      some (.raised raised) ∧
    raised.retryable = true ∧ ∀ config : ManagerConfig, config.RetriesInTime raised

/-- The tests that come before the transient ones, and those that leave an error retryable. -/
def Refused (lower : List Char) : Prop :=
  mentions lower "401" = true ∨ mentions lower "authentication" = true ∨
    mentions lower "403" = true ∨ mentions lower "denied" = true

def NamesTransient (lower : List Char) : Prop :=
  mentions lower "429" = true ∨ mentions lower "timeout" = true ∨
    (mentions lower "digest" = false ∧
      (mentions lower "connection" = true ∨ mentions lower "temporary" = true))

private theorem classification_retryable (text : String) :
    (classification (.other text)).2 = true ↔
      ¬ Refused (goLower text) ∧ NamesTransient (goLower text) := by
  unfold Refused NamesTransient
  simp only [classification]
  split_ifs <;> grind

private theorem classification_code_of_retryable {error : ServiceError}
    (retryable : (classification error).2 = true) :
    (classification error).1 ≠ "digest_mismatch" ∧
      (classification error).1 ≠ "authentication_failed" := by
  cases error with
  | canceled => cases retryable
  | deadlineExceeded => decide
  | other text =>
      simp only [classification] at retryable ⊢
      split_ifs at retryable ⊢ <;> decide

private theorem retried_iff_retryable (error : ServiceError) :
    error.Retried ↔ (classification error).2 = true := by
  constructor
  · intro retried
    obtain ⟨raised, decoded, retryable, -⟩ := retried.streamed ""
    rw [(failedJson_carries error "").failedEventError] at decoded
    cases decoded
    exact retryable
  · intro retryable
    obtain ⟨notMismatch, notRefused⟩ := classification_code_of_retryable retryable
    constructor
    · intro message
      exact ⟨_, (failedJson_carries error message).failedEventError, retryable,
        fun config => config.retriesInTime retryable notMismatch notRefused⟩
    · intro message sanitize detail
      exact ⟨_, (serviceErrorJson_carries error message).clientServiceError rfl sanitize detail,
        retryable,
        fun config => config.retriesInTime retryable notMismatch notRefused⟩

def lowerChar (char : Char) : Char := if char = 'İ' then 'i' else char.toLower

private theorem toLower_eq_digit {char digit : Char} (isDigit : digit.isDigit = true) :
    char.toLower = digit ↔ char = digit := by
  have digits : 48 ≤ digit.val.toNat ∧ digit.val.toNat ≤ 57 := by
    simpa [Char.isDigit, UInt32.le_iff_toNat_le] using isDigit
  by_cases upper : char.val ≥ 'A'.val ∧ char.val ≤ 'Z'.val
  · have letters : 65 ≤ char.val.toNat ∧ char.val.toNat ≤ 90 := by
      simpa [UInt32.le_iff_toNat_le] using upper
    have lowered : char.toLower.val = char.val + 32 := congrArg Char.val (dif_pos upper)
    have letter : char.toLower.val.toNat = char.val.toNat + 32 := by
      rw [lowered, UInt32.toNat_add]
      exact Nat.mod_eq_of_lt (by change _ + 32 < _; omega)
    constructor
    · rintro rfl
      omega
    · rintro rfl
      omega
  · rw [show char.toLower = char from dif_neg upper]

private theorem lowerChar_eq_digit {char digit : Char} (isDigit : digit.isDigit = true) :
    lowerChar char = digit ↔ char = digit := by
  unfold lowerChar
  split
  · rename_i dotted
    constructor
    · rintro rfl
      cases isDigit
    · rintro rfl
      cases dotted
      cases isDigit
  · exact toLower_eq_digit isDigit

private theorem mentions_number {number : String} (digits : number.toList.all Char.isDigit = true)
    (text : String) :
    mentions (goLower text) number = true ↔ number.toList <:+: text.toList := by
  unfold mentions
  rw [decide_eq_true_iff]
  exact TextSearch.infix_map_iff_of_fixed fun _ wanted member =>
    lowerChar_eq_digit (List.all_eq_true.mp digits wanted member)

def transientStatuses : List String := ["408", "429", "500", "502", "503", "504"]

/-- The number stands in the text with no digit next to it. -/
def StandsAlone (number : String) (text : List Char) : Prop :=
  ∃ before after, text = before ++ number.toList ++ after ∧
    (∀ char, before.getLast? = some char → char.isDigit = false) ∧
    ∀ char, after.head? = some char → char.isDigit = false

/-- The text of a registry error that names a transient status and none of the
texts that speak against a retry. -/
structure TransientText (text : String) : Prop where
  status : ∃ number ∈ transientStatuses, StandsAlone number text.toList
  unspoiled : ∀ word ∈ ["401", "403", "authentication", "denied", "digest"],
    ¬ word.toList <:+: text.toList

/-- A transient status is retried exactly if it is 429, or the text happens to
name a timeout, a connection or something temporary, and does not name a refusal
in capital letters. -/
theorem transient_status_retried_iff {text : String} (transient : TransientText text) :
    (ServiceError.other text).Retried ↔
      (mentions (goLower text) "authentication" = false ∧
        mentions (goLower text) "denied" = false) ∧
        NamesTransient (goLower text) := by
  have no401 : mentions (goLower text) "401" = false := by
    rw [← Bool.not_eq_true, mentions_number (by decide)]
    exact transient.unspoiled "401" (by decide)
  have no403 : mentions (goLower text) "403" = false := by
    rw [← Bool.not_eq_true, mentions_number (by decide)]
    exact transient.unspoiled "403" (by decide)
  rw [retried_iff_retryable, classification_retryable]
  unfold Refused
  simp only [no401, no403, Bool.false_eq_true, false_or, not_or, Bool.not_eq_true]

def statusText (number : String) : String := "request failed: HTTP " ++ number

private theorem statusText_transient {number : String} (listed : number ∈ transientStatuses) :
    TransientText (statusText number) := by
  have unspoiled : ∀ number ∈ transientStatuses,
      ∀ word ∈ ["401", "403", "authentication", "denied", "digest"],
        ¬ word.toList <:+: (statusText number).toList := by decide
  have blank : "request failed: HTTP ".toList.getLast? = some ' ' := by decide
  have split : (statusText number).toList =
      "request failed: HTTP ".toList ++ number.toList ++ [] :=
    (String.toList_append).trans (List.append_nil _).symm
  constructor
  · refine Exists.intro number (And.intro listed ?_)
    unfold StandsAlone
    refine Exists.intro "request failed: HTTP ".toList (Exists.intro [] (And.intro split ?_))
    constructor
    · intro char last
      rw [blank] at last
      cases last
      rfl
    · intro char first
      cases first
  · exact unspoiled number listed

theorem transient_status_retried_iff_for_429 : (ServiceError.other (statusText "429")).Retried := by
  have unspoken : mentions (goLower (statusText "429")) "authentication" = false ∧
      mentions (goLower (statusText "429")) "denied" = false := by decide
  have names429 : mentions (goLower (statusText "429")) "429" = true := by decide
  have listed : "429" ∈ transientStatuses := by decide
  exact (transient_status_retried_iff (statusText_transient listed)).mpr
    ⟨unspoken, Or.inl names429⟩

/-- A 503 in such a text is no transient failure to the service. -/
theorem service_unavailable_is_final :
    ¬ ∀ text, TransientText text → (ServiceError.other text).Retried := by
  intro claimed
  have retried := claimed (statusText "503") (statusText_transient (by decide))
  have retryable := (retried_iff_retryable _).mp retried
  exact absurd retryable (by decide)

end OciTransfer
