import OciTransfer.Dialogue
import OciTransfer.Guards
import OciTransfer.ServiceErrors
import OciTransfer.WorkerExecution

/-!
The copy handler of the transfer service.

The handler checks a request, asks the registries through regclient, and
answers with one JSON object or with a stream of events.  What regclient does
with its calls is not assumed: the handler is a dialogue whose questions are
the calls, and the blob callbacks of a copy are part of the reply to it.  The
references of regclient are a parameter as well.
-/

namespace OciTransfer

open Guards

/-! ### Requests -/

structure Credentials where
  username : String
  password : String
  deriving DecidableEq, Repr

/-- The fields of the snapshot that `copy` reads. -/
structure CopySnapshot where
  resolvedSource : String
  destination : String
  rootDigest : String
  platforms : List String
  copyReferrers : Bool
  copyDigestTags : Bool
  replacementPolicy : String
  deriving DecidableEq, Repr

structure CopyRequest where
  protocolVersion : Int
  snapshot : CopySnapshot
  sourceCredentials : Option Credentials
  destinationCredentials : Option Credentials
  deriving DecidableEq, Repr

/-- `ref.New` and what the service reads of a reference and derives from it. -/
structure References (Ref : Type) where
  new : String → Option Ref
  registry : Ref → String
  repository : Ref → String
  tag : Ref → String
  digest : Ref → String
  setDigest : Ref → String → Ref
  setTag : Ref → String → Ref

def References.parseReference {Ref : Type} (references : References Ref) (value : String) :
    Option Ref :=
  (references.new value).filter fun parsed =>
    references.registry parsed ≠ "" && references.repository parsed ≠ "" &&
      (references.tag parsed ≠ "" || references.digest parsed ≠ "")

/-! ### Responses -/

structure ErrorBody where
  code : String
  message : String
  retryable : Option Bool
  deriving DecidableEq, Repr

inductive Response where
  | json (status : Nat) (body : ErrorBody)
  | stream (events : List Event)
  deriving DecidableEq, Repr

def Response.status : Response → Nat
  | .json status _ => status
  | .stream _ => 200

def refused (status : Nat) (code message : String) (retryable : Option Bool) : Response :=
  .json status
    { code := code
      message := message
      retryable := retryable }

/-! ### Calls of regclient -/

structure Host where
  name : String
  reqConcurrent : Int
  tlsDisabled : Bool
  regCert : String
  user : String
  pass : String
  deriving DecidableEq, Repr

/-- The platform option of a copy: none, `ImageWithPlatform` or `ImageWithPlatforms`. -/
inductive PlatformOption where
  | all
  | one (platform : String)
  | several (platforms : List String)
  deriving DecidableEq, Repr

def platformOption : List String → PlatformOption
  | [] => .all
  | [platform] => .one platform
  | platforms => .several platforms

structure ImageOptions where
  forceRecursive : Bool
  referrers : Bool
  digestTags : Bool
  platforms : PlatformOption
  deriving DecidableEq, Repr

inductive CallbackState where
  | skipped
  | finished
  | other
  deriving DecidableEq, Repr

/-- A call of the image callback; only those about blobs are reported. -/
structure Callback where
  isBlob : Bool
  digest : String
  state : CallbackState
  cur : Int
  total : Int
  deriving DecidableEq, Repr

inductive RegistryCall (Ref : Type) where
  | connect (hosts : List Host)
  | manifestHead (target : Ref)
  | imageCopy (source target : Ref) (options : ImageOptions)
  | close (target : Ref)

/-- What regclient returns; a copy comes with the callbacks made while it runs. -/
def RegistryCall.Reply {Ref : Type} : RegistryCall Ref → Type
  | .connect _ | .close _ => Unit
  | .manifestHead _ => Except ServiceError String
  | .imageCopy _ _ _ => List Callback × Option ServiceError

/-! ### Events -/

def callbackDisposition : CallbackState → BlobDisposition
  | .skipped => .reused
  | .finished => .completed
  | .other => .transferring

def Callback.event (callback : Callback) : Event :=
  { kind := .progress
    digest := some callback.digest
    phase := none
    offset := some callback.cur
    networkBytes := some callback.cur
    bytesPerSecond := none
    disposition := some (callbackDisposition callback.state)
    code := none
    message := none
    retryable := false
    retryAfter := none }

def mismatchEvent (message : String) : Event :=
  { kind := .failed
    digest := none
    phase := none
    offset := none
    networkBytes := none
    bytesPerSecond := none
    disposition := none
    code := some "digest_mismatch"
    message := some message
    retryable := false
    retryAfter := none }

def completedEvent (digest : String) : Event :=
  { kind := .completed
    digest := some digest
    phase := none
    offset := none
    networkBytes := none
    bytesPerSecond := none
    disposition := none
    code := none
    message := none
    retryable := false
    retryAfter := none }

/-! ### The handler -/

/-- The server while it holds the lock; `describe` renders an error with its
type, its text sanitised. -/
structure Service where
  operations : List String
  maximum : Nat
  requests : Int
  insecure : List String
  certs : List (String × String)
  describe : ServiceError → String

namespace Service

variable (service : Service)

def failedEvent (error : ServiceError) : Event := classify error (service.describe error)

def serviceError (error : ServiceError) : Response :=
  .json 502
    { code := (classification error).1
      message := service.describe error
      retryable := some (classification error).2 }

/-- The checks up to the registration of the operation; a body that does not
decode is `none`. -/
def accept (id : String) (decoded : Option CopyRequest) : Except Response CopyRequest :=
  if id = "" ∨ 128 < id.utf8ByteSize then
    .error (refused 400 "protocol_error" "invalid operation id" none)
  else
    match decoded with
    | none => .error (refused 400 "protocol_error" "invalid request" none)
    | some request =>
        if request.protocolVersion ≠ 1 then
          .error (refused 400 "protocol_error" "unsupported protocol" none)
        else if service.maximum ≤ service.operations.length then
          .error (refused 429 "rate_limited" "too many operations" (some true))
        else if id ∈ service.operations then
          .error (refused 409 "protocol_error" "duplicate operation id" none)
        else .ok request

/-- The checks before the context is made; they look at the request alone. -/
def check (id : String) (decoded : Option CopyRequest) : Except Response CopyRequest :=
  if id = "" ∨ 128 < id.utf8ByteSize then
    .error (refused 400 "protocol_error" "invalid operation id" none)
  else
    match decoded with
    | none => .error (refused 400 "protocol_error" "invalid request" none)
    | some request =>
        if request.protocolVersion ≠ 1 then
          .error (refused 400 "protocol_error" "unsupported protocol" none)
        else .ok request

/-- The checks under the lock. -/
def lockedCheck (id : String) : Except Response Unit :=
  if service.maximum ≤ service.operations.length then
    .error (refused 429 "rate_limited" "too many operations" (some true))
  else if id ∈ service.operations then
    .error (refused 409 "protocol_error" "duplicate operation id" none)
  else .ok ()

end Service

structure Transfer (Ref : Type) where
  request : CopyRequest
  source : Ref
  destination : Ref

namespace Transfer

variable {Ref : Type} (references : References Ref) (transfer : Transfer Ref)

def rootDigest : String := transfer.request.snapshot.rootDigest

def sourceByDigest : Ref := references.setDigest transfer.source transfer.rootDigest

def destinationByDigest : Ref := references.setDigest transfer.destination transfer.rootDigest

def destinationByTag : Ref :=
  references.setTag transfer.destination (references.tag transfer.destination)

/-- The destination is published under its tag if it has one. -/
def destinationPublish : Ref :=
  if references.tag transfer.destination ≠ "" then transfer.destinationByTag references
  else transfer.destinationByDigest references

def options : ImageOptions :=
  { forceRecursive := true
    referrers := transfer.request.snapshot.copyReferrers
    digestTags := transfer.request.snapshot.copyDigestTags
    platforms := platformOption transfer.request.snapshot.platforms }

/-- The destination is known to hold other content, which must not be replaced. -/
def conflicts (existing : Except ServiceError String) : Bool :=
  match existing with
  | .error _ => false
  | .ok digest =>
      digest ≠ transfer.rootDigest && transfer.request.snapshot.replacementPolicy = "no_clobber"

end Transfer

namespace Service

variable {Ref : Type} (service : Service) (references : References Ref)

/-- The checks between the registration and the first call of regclient. -/
def validate (request : CopyRequest) : Except Response (Transfer Ref) :=
  if request.snapshot.replacementPolicy ≠ "no_clobber" ∧
      request.snapshot.replacementPolicy ≠ "overwrite" then
    .error (refused 400 "protocol_error" "invalid replacement policy" none)
  else
    match references.parseReference request.snapshot.resolvedSource with
    | none => .error (service.serviceError (.other "invalid OCI reference"))
    | some source =>
        match references.parseReference request.snapshot.destination with
        | none => .error (service.serviceError (.other "invalid OCI reference"))
        | some destination =>
            if references.digest source = "" ∨
                references.digest source ≠ request.snapshot.rootDigest then
              .error (refused 409 "digest_mismatch"
                "resolved source does not match planned digest" (some false))
            else if references.digest destination ≠ "" ∧
                references.digest destination ≠ request.snapshot.rootDigest then
              .error (refused 409 "digest_mismatch"
                "destination digest does not match planned content" (some false))
            else .ok
              { request := request
                source := source
                destination := destination }

def host (target : Ref) (credentials : Option Credentials) : Host :=
  let name := (references.registry target).toLower
  { name := references.registry target
    reqConcurrent := service.requests
    tlsDisabled := name ∈ service.insecure
    regCert := (service.certs.lookup name).getD ""
    user := (credentials.map Credentials.username).getD ""
    pass := (credentials.map Credentials.password).getD "" }

def hosts (source destination : Ref)
    (sourceCredentials destinationCredentials : Option Credentials) :
    List Host :=
  service.host references source sourceCredentials ::
    if references.registry destination ≠ references.registry source ∨
        destinationCredentials.isSome then
      [service.host references destination destinationCredentials]
    else []

/-- The last event of a copy that has succeeded. -/
def verify (transfer : Transfer Ref) : Dialogue (@RegistryCall.Reply Ref) Event :=
  .ask (.manifestHead (transfer.destinationByDigest references)) fun
    | .error error => .done (service.failedEvent error)
    | .ok digest =>
        if digest ≠ transfer.rootDigest then .done (mismatchEvent "destination digest mismatch")
        else if references.tag transfer.destination ≠ "" then
          .ask (.manifestHead (transfer.destinationByTag references)) fun
            | .error error => .done (service.failedEvent error)
            | .ok tagged =>
                if tagged ≠ transfer.rootDigest then
                  .done (mismatchEvent "destination tag does not resolve to copied digest")
                else .done (completedEvent transfer.rootDigest)
        else .done (completedEvent transfer.rootDigest)

/-- The calls between the two ends of the client, and the response they lead to. -/
def exchange (transfer : Transfer Ref) : Dialogue (@RegistryCall.Reply Ref) Response :=
  .ask (.manifestHead (transfer.destinationPublish references)) fun existing =>
    if transfer.conflicts existing then
      .done (refused 409 "destination_conflict"
        "destination tag already references different content"
        (some false))
    else
      .ask (.imageCopy (transfer.sourceByDigest references) (transfer.destinationPublish references)
          transfer.options) fun (callbacks, failure) =>
        let opening := phaseEvent .copying ::
          ((callbacks.filter Callback.isBlob).map Callback.event)
        match failure with
        | some error => .done (.stream (opening ++ [service.failedEvent error]))
        | none =>
            (service.verify references transfer).bind fun last =>
              .done (.stream (opening ++ [phaseEvent .verifying, last]))

def copy (id : String) (decoded : Option CopyRequest) :
    Dialogue (@RegistryCall.Reply Ref) Response :=
  match service.accept id decoded with
  | .error response => .done response
  | .ok request =>
      match service.validate references request with
      | .error response => .done response
      | .ok transfer =>
          .ask (.connect (service.hosts references (transfer.sourceByDigest references)
              (transfer.destinationPublish references) request.sourceCredentials
              request.destinationCredentials)) fun _ =>
            (service.exchange references transfer).bind fun response =>
              .ask (.close (transfer.sourceByDigest references)) fun _ => .done response

end Service

/-! ### What a response promises -/

/-- One copying phase, progress, at most one verifying phase, and one last event. -/
def StreamShape (events : List Event) (last : Event) : Prop :=
  ∃ progress verifying, events = phaseEvent .copying :: (progress ++ verifying ++ [last]) ∧
    (∀ event ∈ progress, event.kind = .progress) ∧
    (verifying = [] ∨ verifying = [phaseEvent .verifying]) ∧
    (last.kind = .completed ∨ last.kind = .failed)

namespace Transfer

variable {Ref : Type} (references : References Ref) (transfer : Transfer Ref)

/-- The calls begin by reading the destination under each of its names, and
every read returns the planned digest. -/
def ReadBack (calls : List (Dialogue.Exchange (@RegistryCall.Reply Ref))) : Prop :=
  ∃ later, calls =
      ⟨.manifestHead (transfer.destinationByDigest references), .ok transfer.rootDigest⟩ :: later ∧
    (references.tag transfer.destination ≠ "" →
      ⟨.manifestHead (transfer.destinationByTag references), .ok transfer.rootDigest⟩ ∈ later)

/-- A copy has succeeded, and the destination has been read back after it. -/
def CopiedAndReadBack (calls : List (Dialogue.Exchange (@RegistryCall.Reply Ref))) : Prop :=
  ∃ earlier callbacks later, transfer.ReadBack references later ∧
    calls = earlier ++ ⟨.imageCopy (transfer.sourceByDigest references)
      (transfer.destinationPublish references) transfer.options, (callbacks, none)⟩ :: later

variable {references transfer} {calls : List (Dialogue.Exchange (@RegistryCall.Reply Ref))}

theorem ReadBack.append (read : transfer.ReadBack references calls)
    (more : List (Dialogue.Exchange (@RegistryCall.Reply Ref))) :
    transfer.ReadBack references (calls ++ more) := by
  obtain ⟨later, rfl, tagged⟩ := read
  exact ⟨later ++ more, rfl, fun named => List.mem_append_left more (tagged named)⟩

theorem CopiedAndReadBack.within (copied : transfer.CopiedAndReadBack references calls)
    (before after : List (Dialogue.Exchange (@RegistryCall.Reply Ref))) :
    transfer.CopiedAndReadBack references (before ++ (calls ++ after)) := by
  obtain ⟨earlier, callbacks, later, read, rfl⟩ := copied
  refine ⟨before ++ earlier, callbacks, later ++ after, read.append after, ?_⟩
  simp only [List.append_assoc, List.cons_append]

end Transfer

namespace Service

variable {Ref : Type} {service : Service} {references : References Ref} {id : String}
  {decoded : Option CopyRequest} {request : CopyRequest} {transfer : Transfer Ref}
  {response : Response} {transcript : List (Dialogue.Exchange (@RegistryCall.Reply Ref))}

private theorem accept_eq (service : Service) (id : String) (decoded : Option CopyRequest) :
    service.accept id decoded =
      (check id decoded).bind fun request => (service.lockedCheck id).map fun _ => request := by
  unfold accept check lockedCheck
  by_cases invalid : id = "" ∨ 128 < id.utf8ByteSize
  · rw [if_pos invalid, if_pos invalid]
    rfl
  · rw [if_neg invalid, if_neg invalid]
    cases decoded with
    | none => rfl
    | some request =>
        dsimp only
        by_cases unsupported : request.protocolVersion ≠ 1
        · rw [if_pos unsupported, if_pos unsupported]
          rfl
        · rw [if_neg unsupported, if_neg unsupported]
          by_cases full : service.maximum ≤ service.operations.length
          · rw [if_pos full, if_pos full]
            rfl
          · rw [if_neg full, if_neg full]
            by_cases duplicate : id ∈ service.operations
            · rw [if_pos duplicate, if_pos duplicate]
              rfl
            · rw [if_neg duplicate, if_neg duplicate]
              rfl

private theorem check_error (rejected : check id decoded = .error response) :
    response.status ≠ 200 := by
  unfold check at rejected
  split at rejected
  · cases rejected
    decide
  · cases decoded with
    | none =>
        cases rejected
        decide
    | some request =>
        simp only [] at rejected
        split at rejected
        · cases rejected
          decide
        · cases rejected

private theorem lockedCheck_error (rejected : service.lockedCheck id = .error response) :
    response.status ≠ 200 := by
  unfold lockedCheck at rejected
  split at rejected
  · cases rejected
    decide
  · split at rejected
    · cases rejected
      decide
    · cases rejected

private theorem check_ok (passed : check id decoded = .ok request) : decoded = some request := by
  unfold check at passed
  obtain ⟨-, passed⟩ := ok_of_guard passed
  cases decoded with
  | none => cases passed
  | some body =>
      obtain ⟨-, passed⟩ := ok_of_guard passed
      cases passed
      rfl

theorem accept_error (rejected : service.accept id decoded = .error response) :
    response.status ≠ 200 := by
  rw [accept_eq] at rejected
  cases checked : check id decoded with
  | error refusal =>
      rw [checked] at rejected
      cases rejected
      exact check_error checked
  | ok request =>
      rw [checked] at rejected
      cases locked : service.lockedCheck id with
      | error refusal =>
          simp only [Except.bind, locked] at rejected
          cases rejected
          exact lockedCheck_error locked
      | ok free =>
          simp only [Except.bind, locked] at rejected
          cases rejected

theorem accept_ok (accepted : service.accept id decoded = .ok request) :
    decoded = some request := by
  rw [accept_eq] at accepted
  cases checked : check id decoded with
  | error refusal =>
      rw [checked] at accepted
      cases accepted
  | ok body =>
      rw [checked] at accepted
      cases locked : service.lockedCheck id with
      | error refusal =>
          simp only [Except.bind, locked] at accepted
          cases accepted
      | ok free =>
          simp only [Except.bind, locked] at accepted
          cases accepted
          exact check_ok checked

private theorem serviceError_status (service : Service) (error : ServiceError) :
    (service.serviceError error).status ≠ 200 := by
  change 502 ≠ 200
  decide

theorem validate_error (rejected : service.validate references request = .error response) :
    response.status ≠ 200 := by
  unfold validate at rejected
  split at rejected
  · cases rejected
    decide
  · split at rejected
    · cases rejected
      exact service.serviceError_status _
    · split at rejected
      · cases rejected
        exact service.serviceError_status _
      · split at rejected
        · cases rejected
          decide
        · split at rejected <;> cases rejected
          decide

theorem validate_ok (valid : service.validate references request = .ok transfer) :
    transfer.request = request ∧
      references.parseReference request.snapshot.resolvedSource = some transfer.source ∧
      references.parseReference request.snapshot.destination = some transfer.destination ∧
      references.digest transfer.source = transfer.rootDigest ∧
      (references.digest transfer.destination ≠ "" →
        references.digest transfer.destination = transfer.rootDigest) := by
  unfold validate at valid
  obtain ⟨-, valid⟩ := ok_of_guard valid
  split at valid
  · cases valid
  · rename_i source sourceEq
    split at valid
    · cases valid
    · rename_i destination destinationEq
      obtain ⟨sourcePlanned, valid⟩ := ok_of_guard valid
      obtain ⟨destinationPlanned, valid⟩ := ok_of_guard valid
      cases valid
      refine ⟨rfl, sourceEq, destinationEq, ?_, fun named => ?_⟩
      · exact not_not.mp fun other => sourcePlanned (Or.inr other)
      · exact not_not.mp fun other => destinationPlanned ⟨named, other⟩

private theorem verify_concludes {last : Event}
    (concludes : (service.verify references transfer).Concludes transcript last) :
    last.kind = .failed ∨
      (last.kind = .completed ∧ transfer.ReadBack references transcript) := by
  obtain ⟨reply, later, rfl, rest⟩ := Dialogue.concludes_ask.mp concludes
  cases reply with
  | error error =>
      obtain ⟨rfl, rfl⟩ := Dialogue.concludes_done.mp rest
      exact Or.inl rfl
  | ok digest =>
      simp only [] at rest
      split at rest
      · obtain ⟨rfl, rfl⟩ := Dialogue.concludes_done.mp rest
        exact Or.inl rfl
      · rename_i planned
        obtain rfl : digest = transfer.rootDigest := not_not.mp planned
        split at rest
        · obtain ⟨taggedReply, last, rfl, ending⟩ := Dialogue.concludes_ask.mp rest
          cases taggedReply with
          | error error =>
              obtain ⟨rfl, rfl⟩ := Dialogue.concludes_done.mp ending
              exact Or.inl rfl
          | ok tagged =>
              simp only [] at ending
              split at ending
              · obtain ⟨rfl, rfl⟩ := Dialogue.concludes_done.mp ending
                exact Or.inl rfl
              · rename_i taggedPlanned
                obtain rfl : tagged = transfer.rootDigest := not_not.mp taggedPlanned
                obtain ⟨rfl, rfl⟩ := Dialogue.concludes_done.mp ending
                exact Or.inr ⟨rfl, _, rfl, fun _ => List.mem_cons_self⟩
        · rename_i untagged
          obtain ⟨rfl, rfl⟩ := Dialogue.concludes_done.mp rest
          exact Or.inr ⟨rfl, [], rfl, fun tagged => absurd tagged untagged⟩

/-- After the first call of regclient a response is a conflict or a stream; a
stream has its shape, and completes only after a copy and its verification. -/
theorem exchange_concludes
    (concludes : (service.exchange references transfer).Concludes transcript response) :
    response.status = 409 ∨ ∃ events last, response = .stream events ∧ StreamShape events last ∧
      (last.kind = .completed → transfer.CopiedAndReadBack references transcript) := by
  obtain ⟨existing, rest, rfl, going⟩ := Dialogue.concludes_ask.mp concludes
  split at going
  · obtain ⟨rfl, rfl⟩ := Dialogue.concludes_done.mp going
    exact Or.inl rfl
  · right
    obtain ⟨⟨callbacks, failure⟩, later, rfl, ending⟩ := Dialogue.concludes_ask.mp going
    have progress : ∀ event ∈ (callbacks.filter Callback.isBlob).map Callback.event,
        event.kind = .progress := by
      intro event member
      obtain ⟨callback, -, rfl⟩ := List.mem_map.mp member
      rfl
    cases failure with
    | some error =>
        obtain ⟨rfl, rfl⟩ := Dialogue.concludes_done.mp ending
        refine ⟨_, service.failedEvent error, rfl, ⟨_, [], ?_, progress, Or.inl rfl, Or.inr rfl⟩,
          fun completed => by cases completed⟩
        rw [List.append_nil, List.cons_append]
    | none =>
        obtain ⟨verifying, last, tail, rfl, verified, done⟩ := Dialogue.concludes_bind.mp ending
        obtain ⟨rfl, rfl⟩ := Dialogue.concludes_done.mp done
        rw [List.append_nil]
        have outcome := verify_concludes verified
        refine ⟨_, last, rfl, ⟨_, [phaseEvent .verifying], ?_, progress, Or.inr rfl, ?_⟩, ?_⟩
        · rw [List.cons_append, List.append_assoc]
          rfl
        · rcases outcome with failed | ⟨completed, -⟩
          · exact Or.inr failed
          · exact Or.inl completed
        · intro completed
          rcases outcome with failed | ⟨-, read⟩
          · rw [failed] at completed
            cases completed
          · exact ⟨[_], callbacks, verifying, read, rfl⟩

theorem copy_concludes
    (concludes : (service.copy references id decoded).Concludes transcript response) :
    (transcript = [] ∧ response.status ≠ 200) ∨ ∃ request transfer hosts calls,
      service.accept id decoded = .ok request ∧
      service.validate references request = .ok transfer ∧
      (service.exchange references transfer).Concludes calls response ∧
      transcript = ⟨.connect hosts, ()⟩ ::
        (calls ++ [⟨.close (transfer.sourceByDigest references), ()⟩]) := by
  unfold copy at concludes
  cases accepted : service.accept id decoded with
  | error refusal =>
      simp only [accepted] at concludes
      obtain ⟨rfl, rfl⟩ := Dialogue.concludes_done.mp concludes
      exact Or.inl ⟨rfl, accept_error accepted⟩
  | ok request =>
      simp only [accepted] at concludes
      cases valid : service.validate references request with
      | error refusal =>
          simp only [valid] at concludes
          obtain ⟨rfl, rfl⟩ := Dialogue.concludes_done.mp concludes
          exact Or.inl ⟨rfl, validate_error valid⟩
      | ok transfer =>
          simp only [valid] at concludes
          obtain ⟨_, rest, rfl, going⟩ := Dialogue.concludes_ask.mp concludes
          obtain ⟨calls, middle, later, rfl, exchanged, closing⟩ := Dialogue.concludes_bind.mp going
          obtain ⟨_, final, rfl, ending⟩ := Dialogue.concludes_ask.mp closing
          obtain ⟨rfl, rfl⟩ := Dialogue.concludes_done.mp ending
          exact Or.inr ⟨request, transfer, _, calls, rfl, valid, exchanged, rfl⟩

end Service

structure SampleRef where
  registry : String
  repository : String
  tag : String
  digest : String
  deriving DecidableEq, Repr

def sampleReferences : References SampleRef :=
  { new := fun value =>
      if value = "source.test/image@sha256:aa" then some ⟨"source.test", "image", "", "sha256:aa"⟩
      else if value = "target.test/image:v1" then some ⟨"target.test", "image", "v1", ""⟩
      else none
    registry := SampleRef.registry
    repository := SampleRef.repository
    tag := SampleRef.tag
    digest := SampleRef.digest
    setDigest := fun target digest => { target with tag := "", digest := digest }
    setTag := fun target tag => { target with tag := tag, digest := "" } }

def sampleService : Service :=
  { operations := []
    maximum := 1
    requests := 3
    insecure := []
    certs := []
    describe := fun _ => "registry operation failed" }

def sampleRequest : CopyRequest :=
  { protocolVersion := 1
    snapshot :=
      { resolvedSource := "source.test/image@sha256:aa"
        destination := "target.test/image:v1"
        rootDigest := "sha256:aa"
        platforms := []
        copyReferrers := false
        copyDigestTags := false
        replacementPolicy := "no_clobber" }
    sourceCredentials := none
    destinationCredentials := none }

def sampleRegistries (reading : List (Dialogue.Exchange (@RegistryCall.Reply SampleRef)) →
    Except ServiceError String) (said : List (Dialogue.Exchange (@RegistryCall.Reply SampleRef))) :
    (call : RegistryCall SampleRef) → call.Reply
  | .connect _ | .close _ => ()
  | .manifestHead _ => reading said
  | .imageCopy _ _ _ => ([⟨true, "sha256:bb", .finished, 10, 10⟩], none)

end OciTransfer
