import OciTransfer.ClientRecords
import OciTransfer.PlanGraph

/-!
The plan and the snapshot on their way between the two languages.

The service encodes a plan response and leaves out the pointers that are nil; the
client builds its records from it, in which the missing values are `None`; the copy
request carries them as null, and the service decodes them to nil pointers again.
-/

namespace OciTransfer

/-! ### The structs of the service -/

namespace Wire

def Descriptor.json (item : Descriptor) : JsonValue :=
  .dict [("digest", .str item.digest), ("media_type", .str item.mediaType),
    ("size", .ofOption (fun size : Int64 => .int size.toInt) item.size)]

/-- A pointer with `omitempty`. -/
def omitEmpty (name : String) (given : Option String) : List (String × JsonValue) :=
  given.toList.map fun text => (name, .str text)

def ManifestRecord.json (item : ManifestRecord) : JsonValue :=
  .dict ([("digest", .str item.digest), ("media_type", .str item.mediaType),
    ("size", .int item.size.toInt), ("kind", .str item.kind)] ++
    omitEmpty "subject_digest" item.subjectDigest ++ omitEmpty "platform" item.platform)

def PlanResponse.items (response : PlanResponse) : List (String × JsonValue) :=
  [("protocol_version", .int response.protocolVersion.toInt),
    ("resolved_source", .str response.resolvedSource), ("root_digest", .str response.rootDigest),
    ("root_media_type", .str response.rootMediaType), ("root_size", .int response.rootSize.toInt),
    ("manifests", .arr (response.manifests.map ManifestRecord.json)),
    ("blobs", .arr (response.blobs.map Descriptor.json))]

def PlanResponse.json (response : PlanResponse) : JsonValue := .dict response.items

structure Snapshot where
  source : String
  resolvedSource : String
  destination : String
  rootDigest : String
  rootMediaType : String
  rootSize : Int64
  platforms : List String
  manifests : List ManifestRecord
  blobs : List Descriptor
  digest : String
  copyReferrers : Bool
  copyDigestTags : Bool
  replacementPolicy : String
  deriving DecidableEq, Repr

structure Credentials where
  username : String
  password : String
  expiresAt : Option String
  deriving DecidableEq, Repr

structure CopyRequest where
  protocolVersion : Int64
  snapshot : Snapshot
  sourceCredentials : Option Credentials
  destinationCredentials : Option Credentials
  deriving DecidableEq, Repr

open JsonValue

def decodeDescriptor : JsonValue → Option Descriptor :=
  goStruct ["digest", "media_type", "size"] fun field => do
    return { digest := ← goString (field "digest")
             mediaType := ← goString (field "media_type")
             size := ← goPointer goInt64 (field "size") }

def decodeManifestRecord : JsonValue → Option ManifestRecord :=
  goStruct ["digest", "media_type", "size", "kind", "subject_digest", "platform"] fun field => do
    return { digest := ← goString (field "digest")
             mediaType := ← goString (field "media_type")
             size := ← goInt64 (field "size")
             kind := ← goString (field "kind")
             subjectDigest := ← goPointer goString (field "subject_digest")
             platform := ← goPointer goString (field "platform") }

def snapshotFields : List String :=
  ["source", "resolved_source", "destination", "root_digest", "root_media_type", "root_size",
    "platforms", "manifests", "blobs", "digest", "copy_referrers", "copy_digest_tags",
    "replacement_policy"]

def decodeSnapshot : JsonValue → Option Snapshot :=
  goStruct snapshotFields fun field => do
    return { source := ← goString (field "source")
             resolvedSource := ← goString (field "resolved_source")
             destination := ← goString (field "destination")
             rootDigest := ← goString (field "root_digest")
             rootMediaType := ← goString (field "root_media_type")
             rootSize := ← goInt64 (field "root_size")
             platforms := ← goSlice goString (field "platforms")
             manifests := ← goSlice decodeManifestRecord (field "manifests")
             blobs := ← goSlice decodeDescriptor (field "blobs")
             digest := ← goString (field "digest")
             copyReferrers := ← goBool (field "copy_referrers")
             copyDigestTags := ← goBool (field "copy_digest_tags")
             replacementPolicy := ← goString (field "replacement_policy") }

def decodeCredentials : JsonValue → Option Credentials :=
  goStruct ["username", "password", "expires_at"] fun field => do
    return { username := ← goString (field "username")
             password := ← goString (field "password")
             expiresAt := ← goPointer goString (field "expires_at") }

def maxBody : Nat := 2 <<< 20

/-- `decode` into a `copyRequest`; `none` is answered with `invalid request`. -/
def decodeCopyRequest (text : Client.JsonText) (body : JsonValue) : Option CopyRequest :=
  if maxBody < text.length body then none
  else
    goStruct ["protocol_version", "snapshot", "source_credentials", "destination_credentials"]
      (fun field => do
        return { protocolVersion := ← goInt64 (field "protocol_version")
                 snapshot := ← decodeSnapshot (field "snapshot")
                 sourceCredentials := ← goPointer decodeCredentials (field "source_credentials")
                 destinationCredentials :=
                   ← goPointer decodeCredentials (field "destination_credentials") }) body

end Wire

/-! ### The copy request of the client -/

namespace Client

structure RegistryCredentials where
  username : String
  password : String
  expiresAt : Option String
  deriving DecidableEq, Repr

/-- `_credential_dict`. -/
def RegistryCredentials.json (credentials : RegistryCredentials) : JsonValue :=
  .dict [("username", .str credentials.username), ("password", .str credentials.password),
    ("expires_at", .ofOption .str credentials.expiresAt)]

def copyPayload (snapshot : JsonValue)
    (sourceCredentials destinationCredentials : Option RegistryCredentials) : JsonValue :=
  .dict [("protocol_version", .int 1), ("snapshot", snapshot),
    ("source_credentials", .ofOption RegistryCredentials.json sourceCredentials),
    ("destination_credentials", .ofOption RegistryCredentials.json destinationCredentials)]

end Client

/-! ### The same value on both sides -/

namespace Wire

/-- The record of the interpreter with the same fields; a nil pointer is `None`. -/
def Descriptor.record (item : Descriptor) : Client.Descriptor :=
  { digest := .str item.digest
    mediaType := .str item.mediaType
    size := .ofOption (fun size : Int64 => .int size.toInt) item.size }

def ManifestRecord.record (item : ManifestRecord) : Client.ManifestRecord :=
  { digest := .str item.digest
    mediaType := .str item.mediaType
    size := .int item.size.toInt
    kind := .str item.kind
    subjectDigest := .ofOption .str item.subjectDigest
    platform := .ofOption .str item.platform }

def Snapshot.record (snapshot : Snapshot) : Client.ImageSnapshot :=
  { source := snapshot.source
    resolvedSource := .str snapshot.resolvedSource
    destination := snapshot.destination
    rootDigest := .str snapshot.rootDigest
    rootMediaType := .str snapshot.rootMediaType
    rootSize := .int snapshot.rootSize.toInt
    platforms := snapshot.platforms
    manifests := snapshot.manifests.map ManifestRecord.record
    blobs := snapshot.blobs.map Descriptor.record
    copyReferrers := snapshot.copyReferrers
    copyDigestTags := snapshot.copyDigestTags
    replacementPolicy := snapshot.replacementPolicy
    digest := snapshot.digest }

def Credentials.record (credentials : Credentials) : Client.RegistryCredentials :=
  { username := credentials.username
    password := credentials.password
    expiresAt := credentials.expiresAt }

end Wire

open JsonValue

/-! ### From the service to the client -/

private theorem manifestRecordOf_json (item : Wire.ManifestRecord) :
    Client.manifestRecordOf item.json = some item.record := by
  obtain ⟨digest, mediaType, size, kind, subjectDigest, platform⟩ := item
  unfold Client.manifestRecordOf Wire.ManifestRecord.json
  cases subjectDigest <;> cases platform <;>
    · rw [keywords_dict (by simp [Wire.omitEmpty]) (by simp [Wire.omitEmpty])
        (by simp [Wire.omitEmpty])]
      simp [Wire.omitEmpty, Wire.ManifestRecord.record, List.lookup_cons, ofOption]

private theorem descriptorOf_json (item : Wire.Descriptor) :
    Client.descriptorOf item.json =
      if item.record.valid then some item.record else none := by
  unfold Client.descriptorOf Wire.Descriptor.json
  rw [keywords_dict (by simp) (by simp) (by simp)]
  rfl

/-- The snapshot a client builds from these fields of the payload and of the response. -/
def Client.PlanPayload.snapshot (payload : Client.PlanPayload) (text : Client.JsonText)
    (response : Wire.PlanResponse) : Client.ImageSnapshot :=
  Client.ImageSnapshot.create text
    { source := payload.source
      resolvedSource := .str response.resolvedSource
      destination := payload.destination
      rootDigest := .str response.rootDigest
      rootMediaType := .str response.rootMediaType
      rootSize := .int response.rootSize.toInt
      platforms := payload.platforms
      manifests := response.manifests.map Wire.ManifestRecord.record
      blobs := response.blobs.map Wire.Descriptor.record
      copyReferrers := payload.copyReferrers
      copyDigestTags := payload.copyDigestTags
      replacementPolicy := payload.replacementPolicy
      digest := "" }

theorem snapshotOf_json (text : Client.JsonText) (payload : Client.PlanPayload)
    (response : Wire.PlanResponse) :
    Client.snapshotOf text payload response.json =
      if response.blobs.all fun item => item.record.valid then
        some (payload.snapshot text response) else none := by
  have distinct : (response.items.map Prod.fst).Nodup := by
    simp [Wire.PlanResponse.items]
  have manifests : (response.manifests.map Wire.ManifestRecord.json).mapM Client.manifestRecordOf =
      some (response.manifests.map Wire.ManifestRecord.record) :=
    mapM_map manifestRecordOf_json response.manifests
  have blobs := mapM_map_guard descriptorOf_json response.blobs
  unfold Client.snapshotOf Wire.PlanResponse.json
  simp only [getD_dict distinct, get?_dict_lookup distinct]
  simp only [Client.elements, Wire.PlanResponse.items, List.lookup_cons, String.reduceBEq,
    Option.getD_some, Option.pure_def, Option.bind_eq_bind, Option.bind_some, manifests, blobs]
  split <;> rfl

/-! ### From the client to the service -/

private theorem goPointer_size (size : Option Int64) :
    goPointer goInt64 (ofOption (fun size : Int64 => .int size.toInt) size) = some size :=
  @goPointer_ofOption _ goInt64 (fun size => .int size.toInt) (fun _ same => nomatch same)
    goInt64_toInt size

private theorem goPointer_text (text : Option String) :
    goPointer goString (ofOption .str text) = some text :=
  @goPointer_ofOption _ goString .str (fun _ same => nomatch same) (fun _ => rfl) text

private theorem goSlice_map {α β : Type} {decode : JsonValue → Option α} {encode : β → JsonValue}
    {back : α → β} (inverse : ∀ item, decode (encode (back item)) = some item) (given : List α) :
    goSlice decode (.arr ((given.map back).map encode)) = some given := by
  change ((given.map back).map encode).mapM decode = some given
  rw [List.map_map, @mapM_map _ _ decode (encode ∘ back) id inverse, List.map_id]

private theorem decodeDescriptor_record (item : Wire.Descriptor) :
    Wire.decodeDescriptor (.dict item.record.items) = some item := by
  unfold Wire.decodeDescriptor
  rw [@goStruct_dict _ _ ["digest", "media_type", "size"] _ _ rfl (by decide) (by decide)
    (by decide)]
  simp only [Client.Descriptor.items, Wire.Descriptor.record, List.lookup_cons, String.reduceBEq,
    Option.getD_some, goString, goPointer_size, Option.pure_def, Option.bind_eq_bind,
    Option.bind_some]

private theorem decodeManifestRecord_record (item : Wire.ManifestRecord) :
    Wire.decodeManifestRecord (.dict item.record.items) = some item := by
  unfold Wire.decodeManifestRecord
  rw [@goStruct_dict _ _ ["digest", "media_type", "size", "kind", "subject_digest", "platform"] _ _
    rfl (by decide) (by decide) (by decide)]
  simp only [Client.ManifestRecord.items, Wire.ManifestRecord.record, List.lookup_cons,
    String.reduceBEq, Option.getD_some, goString, goInt64_toInt, goPointer_text, Option.pure_def,
    Option.bind_eq_bind, Option.bind_some]

private theorem decodeSnapshot_record (snapshot : Wire.Snapshot) :
    Wire.decodeSnapshot snapshot.record.roundTripped = some snapshot := by
  have platforms : goSlice goString (.arr (snapshot.platforms.map .str)) =
      some snapshot.platforms := by
    have all := @goSlice_map _ _ goString .str id (fun _ => rfl) snapshot.platforms
    rwa [List.map_id] at all
  have manifests := @goSlice_map Wire.ManifestRecord Client.ManifestRecord
    Wire.decodeManifestRecord (fun item => .dict item.items) Wire.ManifestRecord.record
    decodeManifestRecord_record snapshot.manifests
  have blobs := @goSlice_map Wire.Descriptor Client.Descriptor Wire.decodeDescriptor
    (fun item => .dict item.items) Wire.Descriptor.record decodeDescriptor_record snapshot.blobs
  unfold Wire.decodeSnapshot Client.ImageSnapshot.roundTripped
  rw [@goStruct_dict _ _ ["source", "resolved_source", "destination", "root_digest",
    "root_media_type", "root_size", "platforms", "manifests", "blobs", "copy_referrers",
    "copy_digest_tags", "replacement_policy", "digest"] _ _ rfl (by decide) (by decide) (by decide)]
  simp only [Client.ImageSnapshot.items, Client.ImageSnapshot.canonical, Wire.Snapshot.record,
    List.cons_append, List.nil_append, List.lookup_cons, String.reduceBEq, Option.getD_some,
    goString, goBool, goInt64_toInt, platforms, manifests, blobs, Option.pure_def,
    Option.bind_eq_bind, Option.bind_some]

theorem decodeCredentials_record (credentials : Wire.Credentials) :
    Wire.decodeCredentials credentials.record.json = some credentials := by
  unfold Wire.decodeCredentials Client.RegistryCredentials.json
  rw [@goStruct_dict _ _ ["username", "password", "expires_at"] _ _ rfl (by decide) (by decide)
    (by decide)]
  simp only [Wire.Credentials.record, List.lookup_cons, String.reduceBEq, Option.getD_some,
    goString, goPointer_text, Option.pure_def, Option.bind_eq_bind, Option.bind_some]

/-- The body of a copy request comes apart into what it was made of. -/
theorem decodeCopyRequest_payload (text : Client.JsonText) (snapshot : Wire.Snapshot)
    (source destination : Option Wire.Credentials)
    (fits : text.length (Client.copyPayload snapshot.record.roundTripped
      (source.map Wire.Credentials.record) (destination.map Wire.Credentials.record)) ≤
        Wire.maxBody) :
    Wire.decodeCopyRequest text (Client.copyPayload snapshot.record.roundTripped
      (source.map Wire.Credentials.record) (destination.map Wire.Credentials.record)) =
    some
      { protocolVersion := 1
        snapshot := snapshot
        sourceCredentials := source
        destinationCredentials := destination } := by
  have pointers : ∀ given : Option Wire.Credentials,
      goPointer Wire.decodeCredentials
        (ofOption Client.RegistryCredentials.json (given.map Wire.Credentials.record)) =
          some given := by
    intro given
    have all := @goPointer_ofOption _ Wire.decodeCredentials (fun item => item.record.json)
      (fun _ same => nomatch same) decodeCredentials_record given
    cases given with
    | none => rfl
    | some item => exact all
  have one : goInt64 (.int 1) = some 1 := goInt64_toInt 1
  unfold Wire.decodeCopyRequest
  rw [if_neg (Nat.not_lt.mpr fits)]
  unfold Client.copyPayload
  rw [@goStruct_dict _ _ ["protocol_version", "snapshot", "source_credentials",
    "destination_credentials"] _ _ rfl (by decide) (by decide) (by decide)]
  simp only [List.lookup_cons, String.reduceBEq, Option.getD_some, one, decodeSnapshot_record,
    pointers, Option.pure_def, Option.bind_eq_bind, Option.bind_some]

/-- The snapshot that a copy of this plan names. -/
def Wire.PlanResponse.snapshot (response : Wire.PlanResponse) (payload : Client.PlanPayload)
    (digest : String) : Wire.Snapshot :=
  { source := payload.source
    resolvedSource := response.resolvedSource
    destination := payload.destination
    rootDigest := response.rootDigest
    rootMediaType := response.rootMediaType
    rootSize := response.rootSize
    platforms := payload.platforms
    manifests := response.manifests
    blobs := response.blobs
    digest := digest
    copyReferrers := payload.copyReferrers
    copyDigestTags := payload.copyDigestTags
    replacementPolicy := payload.replacementPolicy }

theorem plan_json {text : Client.JsonText} {payload : Client.PlanPayload}
    {response : Wire.PlanResponse} {snapshot : Client.ImageSnapshot}
    (built : Client.plan text payload response.json = .ok snapshot) :
    snapshot = (response.snapshot payload snapshot.digest).record := by
  unfold Client.plan at built
  rw [snapshotOf_json] at built
  split at built
  · cases built
  · split at built
    · cases built
    · split at built
      · cases built
      · split at built
        · cases built
        · rename_i given guarded
          split at guarded
          · cases guarded
            split at built
            · cases built
            · cases built
              rfl
          · cases guarded

theorem plan_json_ok {text : Client.JsonText} (payload : Client.PlanPayload)
    {response : Wire.PlanResponse} (fits : text.length response.json ≤ Client.maxResponse)
    (version : response.protocolVersion = 1)
    (valid : response.blobs.all (fun item => item.record.valid) = true) :
    Client.plan text payload response.json = .ok (payload.snapshot text response) := by
  have distinct : (response.items.map Prod.fst).Nodup := by
    simp [Wire.PlanResponse.items]
  have sameVersion : (response.json.getD "protocol_version" .null).equalsInt 1 = true := by
    unfold Wire.PlanResponse.json
    rw [getD_dict distinct]
    simp only [Wire.PlanResponse.items, List.lookup_cons, String.reduceBEq, Option.getD_some,
      version]
    rfl
  have uncontradicted : ∀ digest, Client.contradicted response.json digest = false := by
    intro digest
    unfold Client.contradicted Wire.PlanResponse.json
    rw [getD_dict distinct]
    simp only [Wire.PlanResponse.items, List.lookup_cons, String.reduceBEq, List.lookup_nil,
      Option.getD_none]
    rfl
  unfold Client.plan
  rw [if_neg (Nat.not_lt.mpr fits), if_neg (by simp [Wire.PlanResponse.json, dict, isDict]),
    sameVersion, if_neg (by simp), snapshotOf_json, if_pos valid]
  dsimp only
  rw [uncontradicted, if_neg Bool.false_ne_true]

def Client.RegistryCredentials.wire (credentials : Client.RegistryCredentials) : Wire.Credentials :=
  { username := credentials.username
    password := credentials.password
    expiresAt := credentials.expiresAt }

private theorem map_wire_record (credentials : Option Client.RegistryCredentials) :
    (credentials.map Client.RegistryCredentials.wire).map Wire.Credentials.record =
      credentials := by
  cases credentials <;> rfl

theorem decodeCopyRequest_planned {text : Client.JsonText} {payload : Client.PlanPayload}
    {response : Wire.PlanResponse} {snapshot : Client.ImageSnapshot}
    (built : Client.plan text payload response.json = .ok snapshot)
    (source destination : Option Client.RegistryCredentials)
    (fits : text.length (Client.copyPayload snapshot.loaded source destination) ≤ Wire.maxBody) :
    Wire.decodeCopyRequest text (Client.copyPayload snapshot.loaded source destination) =
      some
        { protocolVersion := 1
          snapshot := response.snapshot payload snapshot.digest
          sourceCredentials := source.map Client.RegistryCredentials.wire
          destinationCredentials := destination.map Client.RegistryCredentials.wire } := by
  have samePayload : Client.copyPayload snapshot.loaded source destination =
      Client.copyPayload (response.snapshot payload snapshot.digest).record.roundTripped
        ((source.map Client.RegistryCredentials.wire).map Wire.Credentials.record)
        ((destination.map Client.RegistryCredentials.wire).map Wire.Credentials.record) := by
    rw [map_wire_record, map_wire_record, ← plan_json built, snapshot.roundTripped_eq_loaded]
  rw [samePayload] at fits ⊢
  exact decodeCopyRequest_payload text _ _ _ fits

/-- The payloads of a first and of a resumed run are one JSON object, the service
accepts it in a body that is not too long, and decodes from it every field of the
snapshot, with the manifests and the blobs of its own plan response. -/
theorem wire_format_does_not_drift {text : Client.JsonText} {payload : Client.PlanPayload}
    {response : Wire.PlanResponse} {snapshot : Client.ImageSnapshot}
    (built : Client.plan text payload response.json = .ok snapshot)
    (source destination : Option Client.RegistryCredentials)
    (fits : text.length (Client.copyPayload snapshot.loaded source destination) ≤ Wire.maxBody) :
    snapshot.roundTripped = snapshot.loaded ∧
    ∃ request, Wire.decodeCopyRequest text
        (Client.copyPayload snapshot.loaded source destination) = some request ∧
      request.protocolVersion = 1 ∧ request.snapshot.record = snapshot ∧
      request.snapshot.manifests = response.manifests ∧
      request.snapshot.blobs = response.blobs ∧
      request.sourceCredentials.map Wire.Credentials.record = source ∧
      request.destinationCredentials.map Wire.Credentials.record = destination :=
  ⟨snapshot.roundTripped_eq_loaded, _, decodeCopyRequest_planned built source destination fits, rfl,
    (plan_json built).symm, rfl, rfl, map_wire_record source, map_wire_record destination⟩

/-- The part of a decoded request that the handler of a copy reads. -/
def handledCopy (request : Wire.CopyRequest) : CopyRequest :=
  { protocolVersion := request.protocolVersion.toInt
    snapshot :=
      { resolvedSource := request.snapshot.resolvedSource
        destination := request.snapshot.destination
        rootDigest := request.snapshot.rootDigest
        platforms := request.snapshot.platforms
        copyReferrers := request.snapshot.copyReferrers
        copyDigestTags := request.snapshot.copyDigestTags
        replacementPolicy := request.snapshot.replacementPolicy }
    sourceCredentials := request.sourceCredentials.map fun item => ⟨item.username, item.password⟩
    destinationCredentials :=
      request.destinationCredentials.map fun item => ⟨item.username, item.password⟩ }

/-! ### A plan of an index with one image -/

def indexDigest : String :=
  "sha256:aaaaaaaaaaaaaaaaaaaaaaaaaaaaaaaaaaaaaaaaaaaaaaaaaaaaaaaaaaaaaaaa"

def imageDigest : String :=
  "sha256:bbbbbbbbbbbbbbbbbbbbbbbbbbbbbbbbbbbbbbbbbbbbbbbbbbbbbbbbbbbbbbbb"

def layerDigest : String :=
  "sha256:cccccccccccccccccccccccccccccccccccccccccccccccccccccccccccccccc"

def indexPlan : Wire.PlanResponse :=
  { protocolVersion := 1
    resolvedSource := "a.example/x@" ++ indexDigest
    rootDigest := indexDigest
    rootMediaType := "application/vnd.oci.image.index.v1+json"
    rootSize := 7
    manifests :=
      [{ digest := indexDigest
         mediaType := "application/vnd.oci.image.index.v1+json"
         size := 7
         kind := "root"
         subjectDigest := none
         platform := none },
        { digest := imageDigest
          mediaType := "application/vnd.oci.image.manifest.v1+json"
          size := 5
          kind := "manifest"
          subjectDigest := none
          platform := some "linux/amd64" }]
    blobs :=
      [{ digest := layerDigest
         mediaType := "application/vnd.oci.image.layer.v1.tar"
         size := some 3 }] }

def indexPayload : Client.PlanPayload :=
  { source := "a.example/x:v1"
    destination := "b.example/x:v1"
    platforms := []
    copyReferrers := true
    copyDigestTags := true
    replacementPolicy := "no_clobber" }

/-- The lengths of this plan response and of the copy request made of it, and the
sum over the canonical text of its snapshot. -/
def indexText : Client.JsonText :=
  { length := fun value => if (value.get? "snapshot").isSome then 1234 else 818
    sha256 := fun _ => "007d2275b4b70dbe2685f5ccea25505eecb01380d5ef182271ceff7160496860" }

theorem index_plan_comes_back :
    ∃ snapshot request, Client.plan indexText indexPayload indexPlan.json = .ok snapshot ∧
      Wire.decodeCopyRequest indexText (Client.copyPayload snapshot.loaded none
        (some ⟨"user", "pass", none⟩)) = some request ∧
      request.snapshot.manifests = indexPlan.manifests ∧
      request.snapshot.blobs = indexPlan.blobs := by
  have bounded : ∀ value, indexText.length value ≤ 1234 := by
    intro value
    change (if _ then 1234 else 818) ≤ 1234
    split <;> omega
  have built := @plan_json_ok indexText indexPayload indexPlan
    ((bounded _).trans (by decide)) rfl (by decide +kernel)
  obtain ⟨-, request, decoded, -, -, manifests, blobs, -, -⟩ :=
    wire_format_does_not_drift built none (some ⟨"user", "pass", none⟩)
      ((bounded _).trans (by decide))
  exact ⟨_, request, built, decoded, manifests, blobs⟩

end OciTransfer
