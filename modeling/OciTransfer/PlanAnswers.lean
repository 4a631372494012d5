import OciTransfer.EventLines
import OciTransfer.PlanCoverage
import OciTransfer.TransientStatuses
import OciTransfer.WireFormat

/-!
The answer to a plan request on its way from the service to the client.

The service writes a struct, whose fields stand in their own order, or the map of an
error.  The client reads the bytes back, and gets the plan or the error the handler
has decided on: an answer is lost only if its body is too long for the client, and a
plan only if a blob of it has no digest of the one accepted form or a negative size.
-/

namespace OciTransfer

open JsonValue

/-! ### What the service writes -/

namespace Wire

/-- A descriptor as `json.Marshal` writes it, its fields in the order of the struct. -/
def Descriptor.fields (item : Descriptor) : JsonValue :=
  .obj [("digest", .str item.digest), ("media_type", .str item.mediaType),
    ("size", .ofOption (fun size : Int64 => .int size.toInt) item.size)]

def ManifestRecord.fields (item : ManifestRecord) : JsonValue :=
  .obj ([("digest", .str item.digest), ("media_type", .str item.mediaType),
    ("size", .int item.size.toInt), ("kind", .str item.kind)] ++
    omitEmpty "subject_digest" item.subjectDigest ++ omitEmpty "platform" item.platform)

def PlanResponse.fields (response : PlanResponse) : JsonValue :=
  .obj [("protocol_version", .int response.protocolVersion.toInt),
    ("resolved_source", .str response.resolvedSource), ("root_digest", .str response.rootDigest),
    ("root_media_type", .str response.rootMediaType), ("root_size", .int response.rootSize.toInt),
    ("manifests", .arr (response.manifests.map ManifestRecord.fields)),
    ("blobs", .arr (response.blobs.map Descriptor.fields))]

/-- The body of the answer to a plan that succeeds. -/
def PlanResponse.body (float : ℚ → List Char) (response : PlanResponse) : List UInt8 :=
  utf8 ((Style.go float).write response.fields)

end Wire

def ErrorBody.items (refusal : ErrorBody) : List (String × JsonValue) :=
  [("code", .str refusal.code), ("message", .str refusal.message)] ++
    Event.entry "retryable" .bool refusal.retryable

/-- The body of an error; the keys of a map are written in order. -/
def ErrorBody.body (float : ℚ → List Char) (refusal : ErrorBody) : List UInt8 :=
  utf8 ((Style.go float).write (.dict refusal.items))

/-! ### What the client makes of it -/

section Client

variable (loads : List UInt8 → Loaded) (sanitize : String → String)
  (detail : List UInt8 → Option String) (text : Client.JsonText) (payload : Client.PlanPayload)

/-- `AsyncOCIClient.plan` on a response; `detail` is `extract_http_error_detail`. -/
def OCIClient.plan (status : Nat) (body : List UInt8) :
    Option (Except Outcome Client.ImageSnapshot) :=
  if Client.maxResponse < body.length then
    some (.error (protocolError "oversized service response"))
  else if status ≠ 200 then
    (clientServiceError sanitize (detail body) (loads body) status).map .error
  else
    some (match loads body with
      | .crashed => .error .crashed
      | .malformed => .error (protocolError "malformed service response")
      | .value value =>
          (Client.plan { text with length := fun _ => body.length } payload value).mapError
            protocolError)

end Client

/-! ### The structs as dictionaries -/

namespace Wire

variable {float : ℚ → List Char}

theorem Descriptor.regular (item : Descriptor) : item.fields.Regular := by
  refine .obj (by simp) fun entry member => ?_
  simp only [List.mem_cons, List.not_mem_nil, or_false] at member
  rcases member with rfl | rfl | rfl
  · exact .str _
  · exact .str _
  · cases item.size with
    | none => exact .null
    | some size => exact .int _

private theorem Descriptor.canon_fields (item : Descriptor) : item.fields.canon = item.json := by
  obtain ⟨digest, mediaType, size⟩ := item
  cases size <;> rfl

theorem ManifestRecord.regular (item : ManifestRecord) : item.fields.Regular := by
  have optional : ∀ name given, ∀ entry ∈ omitEmpty name given, entry.2.Regular := by
    intro name given entry member
    obtain ⟨text, -, rfl⟩ := List.mem_map.mp member
    exact .str text
  refine .obj ?_ fun entry member => ?_
  · obtain ⟨digest, mediaType, size, kind, subjectDigest, platform⟩ := item
    cases subjectDigest <;> cases platform <;> simp [omitEmpty]
  · rcases List.mem_append.mp member with early | platform
    · rcases List.mem_append.mp early with always | subject
      · simp only [List.mem_cons, List.not_mem_nil, or_false] at always
        rcases always with rfl | rfl | rfl | rfl
        · exact .str _
        · exact .str _
        · exact .int _
        · exact .str _
      · exact optional _ _ entry subject
    · exact optional _ _ entry platform

private theorem ManifestRecord.canon_fields (item : ManifestRecord) :
    item.fields.canon = item.json := by
  obtain ⟨digest, mediaType, size, kind, subjectDigest, platform⟩ := item
  cases subjectDigest <;> cases platform <;> rfl

theorem PlanResponse.regular (response : PlanResponse) : response.fields.Regular := by
  refine .obj (by simp) fun entry member => ?_
  simp only [List.mem_cons, List.not_mem_nil, or_false] at member
  rcases member with rfl | rfl | rfl | rfl | rfl | rfl | rfl
  · exact .int _
  · exact .str _
  · exact .str _
  · exact .str _
  · exact .int _
  · refine .arr fun value inList => ?_
    obtain ⟨item, -, rfl⟩ := List.mem_map.mp inList
    exact item.regular
  · refine .arr fun value inList => ?_
    obtain ⟨item, -, rfl⟩ := List.mem_map.mp inList
    exact item.regular

/-- What the struct is written as reads back as the dictionary of its fields. -/
theorem PlanResponse.canon_fields (response : PlanResponse) :
    response.fields.canon = response.json := by
  have manifests : canonItems (response.manifests.map ManifestRecord.fields) =
      response.manifests.map ManifestRecord.json := by
    rw [canonItems_eq, List.map_map]
    exact List.map_congr_left fun item _ => item.canon_fields
  have blobs : canonItems (response.blobs.map Descriptor.fields) =
      response.blobs.map Descriptor.json := by
    rw [canonItems_eq, List.map_map]
    exact List.map_congr_left fun item _ => item.canon_fields
  unfold fields json items
  simp only [canon, canonEntries, manifests, blobs]

private theorem PlanResponse.loads_body {readFloat : List Char → JsonValue}
    {other : List UInt8 → Loaded}
    (response : PlanResponse) :
    OCIClient.jsonLoads readFloat other (response.body float) = .value response.json := by
  have read := @jsonLoads_write readFloat other (Style.go float) _ (List.cons_ne_nil _ _)
    response.regular
  change _ = Loaded.value response.fields.canon at read
  rw [response.canon_fields] at read
  exact read

end Wire

/-! ### The errors of the service -/

section Errors

variable {Ref : Type} {service : Service} {client : PlanClient Ref}

private theorem Service.prepare_error {decoded : Option PlanRequest} {response : Response}
    (rejected : service.prepare client decoded = .error response) :
    ∃ status refusal, response = .json status refusal ∧ status ≠ 200 := by
  unfold Service.prepare at rejected
  cases decoded with
  | none =>
      cases rejected
      exact ⟨400, _, rfl, by decide⟩
  | some request =>
      dsimp only at rejected
      split at rejected
      · cases rejected
        exact ⟨400, _, rfl, by decide⟩
      · split at rejected
        · cases rejected
          exact ⟨400, _, rfl, by decide⟩
        · split at rejected
          · cases rejected
            exact ⟨400, _, rfl, by decide⟩
          · split at rejected
            · cases rejected
              exact ⟨502, _, rfl, by decide⟩
            · split at rejected
              · cases rejected
                exact ⟨409, _, rfl, by decide⟩
              · split at rejected
                · cases rejected
                  exact ⟨409, _, rfl, by decide⟩
                · split at rejected
                  · cases rejected
                    exact ⟨400, _, rfl, by decide⟩
                  · cases rejected

private theorem Service.plan_error {fuel : Nat} {decoded : Option PlanRequest} {response : Response}
    (rejected : (service.plan client fuel decoded).2 = .error (.answered response)) :
    ∃ status refusal, response = .json status refusal ∧ status ≠ 200 := by
  unfold Service.plan at rejected
  cases prepared : service.prepare client decoded with
  | error early =>
      rw [prepared] at rejected
      cases rejected
      exact Service.prepare_error prepared
  | ok start =>
      rw [prepared] at rejected
      dsimp only at rejected
      split at rejected
      · cases rejected
      · cases rejected
        exact ⟨502, _, rfl, by decide⟩
      · cases rejected

end Errors

namespace ErrorBody

variable {float : ℚ → List Char} {readFloat : List Char → JsonValue} {other : List UInt8 → Loaded}
  (refusal : ErrorBody)

theorem distinct : (refusal.items.map Prod.fst).Nodup := by
  obtain ⟨code, message, retryable⟩ := refusal
  cases retryable <;> simp [items, Event.entry]

theorem canonical : (JsonValue.dict refusal.items).Canonical := by
  refine .dict refusal.distinct fun entry member => ?_
  simp only [items, List.mem_append, List.mem_cons, List.not_mem_nil, or_false] at member
  rcases member with (rfl | rfl) | given
  · exact .str _
  · exact .str _
  · exact Emitted.canonical_entry (fun _ => .bool _) _ _ _ given

private theorem loads_body : OCIClient.jsonLoads readFloat other (refusal.body float) =
    .value (.dict refusal.items) := by
  have read := @jsonLoads_write readFloat other (Style.go float) _
    (sortKeys_ne_nil (List.cons_ne_nil _ _)) refusal.canonical.regular
  change _ = Loaded.value (JsonValue.dict refusal.items).canon at read
  rw [refusal.canonical.canon_eq] at read
  exact read

/-- What the client raises for this answer. -/
def raisedAs (sanitize : String → String) (status : Nat) : TransferError :=
  { message := "transfer service returned HTTP " ++ toString status ++ ": " ++
      sanitize refusal.message
    code := refusal.code
    retryable := refusal.retryable.getD false
    retryAfter := none }

private theorem clientServiceError_items (sanitize : String → String) (detail : Option String)
    (status : Nat) :
    clientServiceError sanitize detail (.value (.dict refusal.items)) status =
      some (.raised (refusal.raisedAs sanitize status)) := by
  have found : ∀ name, (JsonValue.dict refusal.items).get? name = refusal.items.lookup name :=
    fun name => get?_dict_lookup refusal.distinct
  have code : (JsonValue.dict refusal.items).get? "code" = some (.str refusal.code) := by
    rw [found]
    rfl
  have message : (JsonValue.dict refusal.items).get? "message" = some (.str refusal.message) := by
    rw [found]
    rfl
  have retryable : (JsonValue.dict refusal.items).get? "retryable" =
      refusal.retryable.map .bool := by
    rw [found]
    obtain ⟨_, _, given⟩ := refusal
    cases given <;> rfl
  have noDelay : (JsonValue.dict refusal.items).get? "retry_after" = none := by
    rw [found]
    obtain ⟨_, _, given⟩ := refusal
    cases given <;> rfl
  have truth : ((refusal.retryable.map JsonValue.bool).any truthy) =
      refusal.retryable.getD false := by
    generalize refusal.retryable = given
    cases given <;> rfl
  simp only [clientServiceError, textAt, numberAt, truthAt, code, message, retryable, noDelay,
    truth]
  rfl

end ErrorBody

private theorem plan_json_malformed {text : Client.JsonText} (payload : Client.PlanPayload)
    {response : Wire.PlanResponse} (fits : text.length response.json ≤ Client.maxResponse)
    (version : response.protocolVersion = 1)
    (invalid : ¬ response.blobs.all (fun item => item.record.valid) = true) :
    Client.plan text payload response.json = .error "malformed plan response" := by
  have distinct : (response.items.map Prod.fst).Nodup := by
    simp [Wire.PlanResponse.items]
  have sameVersion : (response.json.getD "protocol_version" .null).equalsInt 1 = true := by
    unfold Wire.PlanResponse.json
    rw [getD_dict distinct]
    simp only [Wire.PlanResponse.items, List.lookup_cons, String.reduceBEq, Option.getD_some,
      version]
    rfl
  unfold Client.plan
  rw [if_neg (Nat.not_lt.mpr fits), if_neg (by simp [Wire.PlanResponse.json, dict, isDict]),
    sameVersion, if_neg (by simp), snapshotOf_json, if_neg invalid]

/-- The handler's verdict reaches the client: a plan as the snapshot of its fields, an
error with its code, its message and whether it may be retried; unless the body is
too long, or a blob of the plan is no descriptor to the client. -/
theorem plan_answers_cross_the_wire {Ref : Type} (service : Service) (client : PlanClient Ref)
    {fuel : Nat} (enough : 34 ≤ fuel) (decoded : Option PlanRequest) (float : ℚ → List Char)
    (readFloat : List Char → JsonValue) (other : List UInt8 → Loaded) (sanitize : String → String)
    (detail : List UInt8 → Option String) (text : Client.JsonText) (payload : Client.PlanPayload) :
    (∃ response, (service.plan client fuel decoded).2 = .ok response ∧
      OCIClient.plan (OCIClient.jsonLoads readFloat other) sanitize detail text payload 200
          (response.body float) =
        some (if Client.maxResponse < (response.body float).length then
            .error (protocolError "oversized service response")
          else if response.blobs.all fun item => item.record.valid then
            .ok (payload.snapshot text response)
          else .error (protocolError "malformed plan response"))) ∨
    (∃ status refusal, (service.plan client fuel decoded).2 =
        .error (.answered (.json status refusal)) ∧
      OCIClient.plan (OCIClient.jsonLoads readFloat other) sanitize detail text payload status
          (refusal.body float) =
        some (.error (if Client.maxResponse < (refusal.body float).length then
            protocolError "oversized service response"
          else .raised (refusal.raisedAs sanitize status)))) := by
  cases answered : (service.plan client fuel decoded).2 with
  | ok response =>
      refine Or.inl ⟨response, rfl, ?_⟩
      obtain ⟨start, state, -, -, -, rfl⟩ := plan_ok answered
      unfold OCIClient.plan
      by_cases long : Client.maxResponse < ((start.response state).body float).length
      · rw [if_pos long, if_pos long]
      · rw [if_neg long, if_neg long, if_neg (not_not.mpr rfl), Wire.PlanResponse.loads_body]
        have fits := Nat.le_of_not_lt long
        by_cases valid : ((start.response state).blobs.all fun item => item.record.valid) = true
        · rw [if_pos valid]
          dsimp only
          rw [@plan_json_ok
            { text with length := fun _ => ((start.response state).body float).length }
            payload _ fits rfl valid]
          rfl
        · rw [if_neg valid]
          dsimp only
          rw [@plan_json_malformed
            { text with length := fun _ => ((start.response state).body float).length } payload _
            fits rfl valid]
          rfl
  | error failure =>
      cases failure with
      | unfinished => exact absurd answered (plan_finishes enough)
      | answered rejection =>
          obtain ⟨status, refusal, rfl, notOk⟩ := Service.plan_error answered
          refine Or.inr ⟨status, refusal, rfl, ?_⟩
          unfold OCIClient.plan
          rw [refusal.loads_body, refusal.clientServiceError_items, if_pos notOk]
          split <;> rfl

/-! ### The answer to a plan of one image -/

def oneImage : Registry :=
  { tagged := fun _ => .ok imageDigest
    manifestGet := fun _ => .ok (sampleImage imageDigest layerDigest layerDigest)
    referrerList := fun _ => .ok [] }

def oneImageClient : PlanClient SampleRef :=
  { samplePlanClient [] with connect := fun _ _ => oneImage }

def oneImageRequest : PlanRequest :=
  { samplePlanRequest with source := "target.test/image:v1" }

/-- The length of the body of this plan, and the sum over the canonical text of its snapshot. -/
def oneImageText : Client.JsonText :=
  { length := fun _ => 561
    sha256 := fun _ => "25a9d780a6b037502cba99569fee82db47d6bab3a5da3b5d4b73a2aab6de505e" }

theorem one_image_plan_crosses_the_wire :
    ∃ body snapshot, OCIClient.plan (OCIClient.jsonLoads (fun _ => .null) fun _ => .malformed) id
        (fun _ => none) oneImageText indexPayload 200 body = some (.ok snapshot) ∧
      snapshot.blobs.length = 1 := by
  have planned : ((sampleService.plan oneImageClient 34 (some oneImageRequest)).2.toOption.map
      fun response => (decide ((response.body fun _ => []).length ≤ Client.maxResponse),
        response.blobs.all fun item => item.record.valid, response.blobs.length)) =
      some (true, true, 1) := by
    decide +kernel
  obtain ⟨response, answered, view⟩ := exists_answer planned
  obtain ⟨short, rest⟩ := Prod.mk.inj view
  obtain ⟨valid, count⟩ := Prod.mk.inj rest
  rcases plan_answers_cross_the_wire sampleService oneImageClient le_rfl (some oneImageRequest)
      (fun _ => []) (fun _ => .null) (fun _ => .malformed) id (fun _ => none) oneImageText
      indexPayload with ⟨other, sameAnswer, received⟩ | ⟨status, refusal, refused, -⟩
  · rw [answered] at sameAnswer
    cases sameAnswer
    rw [if_neg (Nat.not_lt.mpr (of_decide_eq_true short)), if_pos valid] at received
    refine ⟨_, _, received, ?_⟩
    change (response.blobs.map Wire.Descriptor.record).length = 1
    rw [List.length_map, count]
  · rw [answered] at refused
    cases refused

end OciTransfer
