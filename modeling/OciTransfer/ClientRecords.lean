import OciTransfer.JsonRecords
import OciTransfer.OciReference
import OciTransfer.PinnedCopies

/-!
The records the client builds from a plan response.

The classes of the interpreter do not check the types of their fields, so a field
holds whatever the response held; only the digest and the size of a descriptor are
looked at.  A snapshot becomes JSON on two ways, and both give the same object.
-/

namespace OciTransfer

namespace Client

structure Descriptor where
  digest : JsonValue
  mediaType : JsonValue
  size : JsonValue

structure ManifestRecord where
  digest : JsonValue
  mediaType : JsonValue
  size : JsonValue
  kind : JsonValue
  subjectDigest : JsonValue
  platform : JsonValue

structure ImageSnapshot where
  source : String
  resolvedSource : JsonValue
  destination : String
  rootDigest : JsonValue
  rootMediaType : JsonValue
  rootSize : JsonValue
  platforms : List String
  manifests : List ManifestRecord
  blobs : List Descriptor
  copyReferrers : Bool
  copyDigestTags : Bool
  replacementPolicy : String
  digest : String

/-- `value < 0`; `none` if the value cannot be compared. -/
def negative? : JsonValue → Option Bool
  | .int number => some (number < 0)
  | .real number => some (number < 0)
  | .bool _ => some false
  | .nonfinite name => some (name = "-Infinity")
  | _ => none

/-- `__post_init__` of a descriptor does not raise. -/
def Descriptor.valid (item : Descriptor) : Bool :=
  (match item.digest with
    | .str text => digestPattern text.toList
    | _ => false) &&
  match item.size with
  | .null => true
  | size => negative? size = some false

/-- `Descriptor(**item)`. -/
def descriptorOf (item : JsonValue) : Option Descriptor :=
  (item.keywords ["digest", "media_type", "size"] []).bind fun given =>
    let built : Descriptor :=
      { digest := given "digest"
        mediaType := given "media_type"
        size := given "size" }
    if built.valid then some built else none

/-- `ManifestRecord(**item)`. -/
def manifestRecordOf (item : JsonValue) : Option ManifestRecord :=
  (item.keywords ["digest", "media_type", "size", "kind"] ["subject_digest", "platform"]).map
    fun given =>
      { digest := given "digest"
        mediaType := given "media_type"
        size := given "size"
        kind := given "kind"
        subjectDigest := given "subject_digest"
        platform := given "platform" }

def elements : JsonValue → Option (List JsonValue)
  | .arr items => some items
  | .obj items => some (items.map fun entry => .str entry.1)
  | .str text => some (text.toList.map fun char => .str (String.singleton char))
  | _ => none

/-- The payload of a plan request, without what `plan` only passes on. -/
structure PlanPayload where
  source : String
  destination : String
  platforms : List String
  copyReferrers : Bool
  copyDigestTags : Bool
  replacementPolicy : String
  deriving DecidableEq, Repr

/-- What depends on the text of a JSON value: its length, and the hex digest of
its SHA-256 sum when it is written with sorted keys. -/
structure JsonText where
  length : JsonValue → Nat
  sha256 : JsonValue → String

def Descriptor.items (item : Descriptor) : List (String × JsonValue) :=
  [("digest", item.digest), ("media_type", item.mediaType), ("size", item.size)]

def ManifestRecord.items (item : ManifestRecord) : List (String × JsonValue) :=
  [("digest", item.digest), ("media_type", item.mediaType), ("size", item.size),
    ("kind", item.kind), ("subject_digest", item.subjectDigest), ("platform", item.platform)]

/-- The fields of a snapshot but its digest, the nested records made dictionaries. -/
def ImageSnapshot.canonical (snapshot : ImageSnapshot)
    (dictionary : List (String × JsonValue) → JsonValue) : List (String × JsonValue) :=
  [("source", .str snapshot.source), ("resolved_source", snapshot.resolvedSource),
    ("destination", .str snapshot.destination), ("root_digest", snapshot.rootDigest),
    ("root_media_type", snapshot.rootMediaType), ("root_size", snapshot.rootSize),
    ("platforms", .arr (snapshot.platforms.map .str)),
    ("manifests", .arr (snapshot.manifests.map fun item => dictionary item.items)),
    ("blobs", .arr (snapshot.blobs.map fun item => dictionary item.items)),
    ("copy_referrers", .bool snapshot.copyReferrers),
    ("copy_digest_tags", .bool snapshot.copyDigestTags),
    ("replacement_policy", .str snapshot.replacementPolicy)]

def ImageSnapshot.create (text : JsonText) (snapshot : ImageSnapshot) : ImageSnapshot :=
  { snapshot with digest := "sha256:" ++ text.sha256 (.dict (snapshot.canonical .dict)) }

/-- The part of `plan` that may raise a `KeyError`, a `TypeError` or a `ValueError`. -/
def snapshotOf (text : JsonText) (payload : PlanPayload) (value : JsonValue) :
    Option ImageSnapshot := do
  let manifests ← (← elements (value.getD "manifests" (.arr []))).mapM manifestRecordOf
  let blobs ← (← elements (value.getD "blobs" (.arr []))).mapM descriptorOf
  let resolvedSource ← value.get? "resolved_source"
  let rootDigest ← value.get? "root_digest"
  let rootMediaType ← value.get? "root_media_type"
  let rootSize ← value.get? "root_size"
  return ImageSnapshot.create text
    { source := payload.source
      resolvedSource := resolvedSource
      destination := payload.destination
      rootDigest := rootDigest
      rootMediaType := rootMediaType
      rootSize := rootSize
      platforms := payload.platforms
      manifests := manifests
      blobs := blobs
      copyReferrers := payload.copyReferrers
      copyDigestTags := payload.copyDigestTags
      replacementPolicy := payload.replacementPolicy
      digest := "" }

/-- The response names a digest that is not the one of the snapshot. -/
def contradicted (value : JsonValue) (digest : String) : Bool :=
  match value.getD "snapshot_digest" .null with
  | .str supplied => supplied ≠ "" && supplied ≠ digest
  | supplied => supplied.truthy

def maxResponse : Nat := 2 * 1024 * 1024

/-- `AsyncOCIClient.plan` on a response with status 200 and this body; an error is
the message of an `OCITransferError` with the code `protocol_error`. -/
def plan (text : JsonText) (payload : PlanPayload) (value : JsonValue) :
    Except String ImageSnapshot :=
  if maxResponse < text.length value then .error "oversized service response"
  else if !value.isDict then .error "malformed service response"
  else if !(value.getD "protocol_version" .null).equalsInt 1 then
    .error "incompatible plan response"
  else
    match snapshotOf text payload value with
    | none => .error "malformed plan response"
    | some snapshot =>
        if contradicted value snapshot.digest then .error "invalid snapshot digest"
        else .ok snapshot

namespace ImageSnapshot

def items (snapshot : ImageSnapshot) (dictionary : List (String × JsonValue) → JsonValue) :
    List (String × JsonValue) :=
  snapshot.canonical dictionary ++ [("digest", .str snapshot.digest)]

/-- What `store.snapshot` returns: `asdict`, written with sorted keys and read back. -/
def loaded (snapshot : ImageSnapshot) : JsonValue :=
  let sorted (items : List (String × JsonValue)) : JsonValue := .dict (JsonValue.sortKeys items)
  sorted (snapshot.items sorted)

/-- What a first run makes of its plan: each `__dict__`, written and read back. -/
def roundTripped (snapshot : ImageSnapshot) : JsonValue :=
  .dict (snapshot.items .dict)

theorem roundTripped_eq_loaded (snapshot : ImageSnapshot) :
    snapshot.roundTripped = snapshot.loaded :=
  (JsonValue.sorted_eq_dict snapshot.items).symm

end ImageSnapshot

end Client

def Descriptor.untyped (item : Descriptor) : Client.Descriptor :=
  { digest := .str item.digest
    mediaType := .str item.mediaType
    size := .ofOption (fun size : Nat => .int size) item.size }

def ManifestRecord.untyped (item : ManifestRecord) : Client.ManifestRecord :=
  { digest := .str item.digest
    mediaType := .str item.mediaType
    size := .int item.size
    kind := .str item.kind
    subjectDigest := .ofOption .str item.subjectDigest
    platform := .ofOption .str item.platform }

/-- A snapshot with typed fields, as the client has built it. -/
def ImageSnapshot.untyped (snapshot : ImageSnapshot) : Client.ImageSnapshot :=
  { source := snapshot.source
    resolvedSource := .str snapshot.resolvedSource
    destination := snapshot.destination
    rootDigest := .str snapshot.rootDigest
    rootMediaType := .str snapshot.rootMediaType
    rootSize := .int snapshot.rootSize
    platforms := snapshot.platforms
    manifests := snapshot.manifests.map ManifestRecord.untyped
    blobs := snapshot.blobs.map Descriptor.untyped
    copyReferrers := snapshot.copyReferrers
    copyDigestTags := snapshot.copyDigestTags
    replacementPolicy := snapshot.replacementPolicy.text
    digest := snapshot.digest }

private theorem ImageSnapshot.items_untyped (snapshot : ImageSnapshot)
    (dictionary : List (String × JsonValue) → JsonValue) :
    snapshot.untyped.items dictionary = snapshot.items dictionary := by
  have manifests : (snapshot.manifests.map ManifestRecord.untyped).map
      (fun item => dictionary item.items) =
        snapshot.manifests.map fun item => dictionary item.items := by
    rw [List.map_map]
    rfl
  have blobs : (snapshot.blobs.map Descriptor.untyped).map (fun item => dictionary item.items) =
      snapshot.blobs.map fun item => dictionary item.items := by
    rw [List.map_map]
    rfl
  simp only [Client.ImageSnapshot.items, Client.ImageSnapshot.canonical, untyped, manifests, blobs,
    items, List.cons_append, List.nil_append]

theorem ImageSnapshot.loaded_untyped (snapshot : ImageSnapshot) :
    snapshot.untyped.loaded = snapshot.loaded :=
  congrArg (fun items => JsonValue.dict (JsonValue.sortKeys items)) (snapshot.items_untyped _)

end OciTransfer
