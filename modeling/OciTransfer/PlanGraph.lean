import OciTransfer.CopyHandler
import OciTransfer.KeyedTable
import OciTransfer.Traversal

/-!
The planning of a copy by the transfer service.

A plan lists the manifests that will be copied, beginning with the root, and
collects their blobs.  `walk` goes down the indexes to a limited depth and
expands no manifest twice.  The referrers are looked up afterwards, for each
record the walk from the root has left.
-/

namespace OciTransfer

/-- A descriptor of regclient, with its platform written out. -/
structure RegistryDescriptor where
  digest : String
  mediaType : String
  size : Int64
  platform : Option String
  deriving DecidableEq, Repr

structure Imager where
  config : Except ServiceError RegistryDescriptor
  layers : Except ServiceError (List RegistryDescriptor)

/-- A manifest; `manifestList` is there if it is an `Indexer`, and `imager` if it is one. -/
structure Manifest where
  descriptor : RegistryDescriptor
  isList : Bool
  manifestList : Option (Except ServiceError (List RegistryDescriptor))
  imager : Option Imager

/-- The repository of the source: the digests of its tags, its manifests and
their referrers. -/
structure Registry where
  tagged : String → Except ServiceError String
  manifestGet : String → Except ServiceError Manifest
  referrerList : String → Except ServiceError (List RegistryDescriptor)

namespace Wire

structure Descriptor where
  digest : String
  mediaType : String
  size : Option Int64
  deriving DecidableEq, Repr

structure ManifestRecord where
  digest : String
  mediaType : String
  size : Int64
  kind : String
  subjectDigest : Option String
  platform : Option String
  deriving DecidableEq, Repr

structure PlanResponse where
  protocolVersion : Int64
  resolvedSource : String
  rootDigest : String
  rootMediaType : String
  rootSize : Int64
  manifests : List ManifestRecord
  blobs : List Descriptor
  deriving DecidableEq, Repr

end Wire

namespace RegistryDescriptor

def rootRecord (descriptor : RegistryDescriptor) : Wire.ManifestRecord :=
  { digest := descriptor.digest
    mediaType := descriptor.mediaType
    size := descriptor.size
    kind := "root"
    subjectDigest := none
    platform := none }

def childRecord (descriptor : RegistryDescriptor) : Wire.ManifestRecord :=
  { digest := descriptor.digest
    mediaType := descriptor.mediaType
    size := descriptor.size
    kind := "manifest"
    subjectDigest := none
    platform := descriptor.platform }

def referrerRecord (subject : String) (descriptor : RegistryDescriptor) : Wire.ManifestRecord :=
  { digest := descriptor.digest
    mediaType := descriptor.mediaType
    size := descriptor.size
    kind := "referrer"
    subjectDigest := some subject
    platform := none }

def blob (descriptor : RegistryDescriptor) : Wire.Descriptor :=
  { digest := descriptor.digest
    mediaType := descriptor.mediaType
    size := some descriptor.size }

end RegistryDescriptor

structure PlanState where
  records : List Wire.ManifestRecord
  blobs : KeyedTable Wire.Descriptor.digest
  seen : List String

namespace PlanState

def empty : PlanState :=
  { records := []
    blobs := KeyedTable.empty
    seen := [] }

def record (state : PlanState) (item : Wire.ManifestRecord) : PlanState :=
  { state with records := state.records ++ [item] }

def mark (state : PlanState) (digest : String) : PlanState :=
  { state with seen := digest :: state.seen }

def setBlob (state : PlanState) (descriptor : RegistryDescriptor) : PlanState :=
  { state with blobs := state.blobs.set descriptor.blob }

end PlanState

/-- A walk ends with an error, or has not ended with the fuel it was given. -/
inductive WalkError where
  | raised (error : ServiceError)
  | unfinished
  deriving DecidableEq, Repr

/-- A child without a platform is taken only if no platform is selected. -/
def admits (selected : List String) (child : RegistryDescriptor) : Bool :=
  match child.platform with
  | some value => selected.isEmpty || value ∈ selected
  | none => selected.isEmpty

/-- Read the manifest of a record, append the record, and go on from there. -/
def enter (registry : Registry) (next : Manifest → PlanState → Except WalkError PlanState)
    (state : PlanState) (item : Wire.ManifestRecord) : Except WalkError PlanState :=
  match registry.manifestGet item.digest with
  | .error raised => .error (.raised raised)
  | .ok manifest => next manifest (state.record item)

/-- The part of `walk` for a manifest that is no index. -/
def collect (manifest : Manifest) (state : PlanState) : Except WalkError PlanState :=
  match manifest.imager with
  | none => .error (.raised (.other "unsupported manifest"))
  | some imager =>
      match imager.config with
      | .error raised => .error (.raised raised)
      | .ok config =>
          match imager.layers with
          | .error raised => .error (.raised raised)
          | .ok layers => .ok (layers.foldl PlanState.setBlob (state.setBlob config))

def walk (registry : Registry) (selected : List String) :
    Nat → Nat → Manifest → PlanState → Except WalkError PlanState
  | 0, _, _, _ => .error .unfinished
  | fuel + 1, depth, manifest, state =>
      if 32 < depth ∨ 10000 < state.records.length then
        .error (.raised (.other "manifest graph limit exceeded"))
      else if manifest.descriptor.digest ∈ state.seen then .ok state
      else if manifest.isList then
        match manifest.manifestList with
        | none => .error (.raised (.other "invalid index"))
        | some (.error raised) => .error (.raised raised)
        | some (.ok children) =>
            ((children.filter (admits selected)).map RegistryDescriptor.childRecord).foldlM
              (enter registry (walk registry selected fuel (depth + 1)))
              (state.mark manifest.descriptor.digest)
      else collect manifest (state.mark manifest.descriptor.digest)

/-- The loop over the records of the walk from the root, with the digests whose
referrers were looked up. -/
def discover (registry : Registry) (fuel : Nat) :
    List Wire.ManifestRecord → PlanState → List String × Except WalkError PlanState
  | [], state => ([], .ok state)
  | base :: rest, state =>
      match registry.referrerList base.digest with
      | .error raised => ([base.digest], .error (.raised raised))
      | .ok descriptors =>
          match (descriptors.map (RegistryDescriptor.referrerRecord base.digest)).foldlM
              (enter registry (walk registry [] fuel 1)) state with
          | .error raised => ([base.digest], .error raised)
          | .ok next =>
              let later := discover registry fuel rest next
              (base.digest :: later.1, later.2)

/-- The graph part of `plan`. -/
def planGraph (registry : Registry) (selected : List String) (copyReferrers : Bool) (fuel : Nat)
    (root : Manifest) : List String × Except WalkError PlanState :=
  match walk registry selected fuel 0 root (PlanState.empty.record root.descriptor.rootRecord) with
  | .error raised => ([], .error raised)
  | .ok walked =>
      if copyReferrers then discover registry fuel walked.records walked else ([], .ok walked)

/-- The fields of a plan request that `plan` reads. -/
structure PlanRequest where
  protocolVersion : Int
  source : String
  destination : String
  platforms : List String
  copyReferrers : Bool
  sourceCredentials : Option Credentials
  destinationCredentials : Option Credentials
  deriving DecidableEq, Repr

/-- What `plan` uses of regclient; `parsePlatform` also writes the platform out,
and a client with these hosts reads the repository of a reference. -/
structure PlanClient (Ref : Type) where
  references : References Ref
  commonName : Ref → String
  parsePlatform : String → Option String
  connect : List Host → Ref → Registry

/-- `strings.LastIndex`. -/
def lastIndex (text : List Char) (char : Char) : Int :=
  if char ∈ text then text.length - 1 - text.reverse.idxOf char else -1

def References.parseExplicitReference {Ref : Type} (references : References Ref) (value : String) :
    Option Ref :=
  if '@' ∉ value.toList ∧ lastIndex value.toList ':' ≤ lastIndex value.toList '/' then none
  else references.parseReference value

/-- The manifest a reference stands for; a digest is authoritative beside a tag. -/
def Registry.rootManifest {Ref : Type} (registry : Registry) (references : References Ref)
    (source : Ref) : Except ServiceError Manifest :=
  if references.digest source ≠ "" then registry.manifestGet (references.digest source)
  else (registry.tagged (references.tag source)).bind registry.manifestGet

/-- A plan request after its checks. -/
structure PlanStart where
  registry : Registry
  root : Manifest
  resolved : String
  selected : List String
  copyReferrers : Bool

inductive PlanFailure where
  | answered (response : Response)
  | unfinished
  deriving DecidableEq, Repr

namespace Service

variable {Ref : Type} (service : Service) (client : PlanClient Ref)

/-- The part of `plan` before the walk; a body that does not decode is `none`. -/
def prepare (decoded : Option PlanRequest) : Except Response PlanStart :=
  match decoded with
  | none => .error (refused 400 "protocol_error" "invalid request" none)
  | some request =>
      if request.protocolVersion ≠ 1 then
        .error (refused 400 "protocol_error" "unsupported protocol" none)
      else
        match client.references.parseExplicitReference request.source with
        | none => .error (refused 400 "invalid_reference" "invalid source" none)
        | some source =>
            match client.references.parseExplicitReference request.destination with
            | none => .error (refused 400 "invalid_reference" "invalid destination" none)
            | some destination =>
                let registry := client.connect (service.hosts client.references source destination
                  request.sourceCredentials request.destinationCredentials) source
                match registry.rootManifest client.references source with
                | .error raised => .error (service.serviceError raised)
                | .ok root =>
                    let digest := root.descriptor.digest
                    let pinned := client.references.digest source
                    let wanted := client.references.digest destination
                    if client.references.tag source ≠ "" ∧ pinned ≠ "" ∧ digest ≠ pinned then
                      .error (refused 409 "digest_mismatch"
                        "source digest does not match the supplied digest" (some false))
                    else if wanted ≠ "" ∧ wanted ≠ digest then
                      .error (refused 409 "digest_mismatch"
                        "destination digest does not match source content" (some false))
                    else
                      match request.platforms.mapM client.parsePlatform with
                      | none =>
                          .error (refused 400 "unsupported_operation" "invalid platform" none)
                      | some selected => .ok
                          { registry := registry
                            root := root
                            resolved :=
                              client.commonName (client.references.setDigest source digest)
                            selected := selected
                            copyReferrers := request.copyReferrers }

end Service

/-- The blobs in the order of their digests. -/
def PlanState.blobList (state : PlanState) : List Wire.Descriptor :=
  state.blobs.rows.insertionSort fun left right => left.digest ≤ right.digest

def PlanStart.response (start : PlanStart) (state : PlanState) : Wire.PlanResponse :=
  { protocolVersion := 1
    resolvedSource := start.resolved
    rootDigest := start.root.descriptor.digest
    rootMediaType := start.root.descriptor.mediaType
    rootSize := start.root.descriptor.size
    manifests := state.records
    blobs := state.blobList }

/-- `server.plan`, with the digests whose referrers were looked up. -/
def Service.plan {Ref : Type} (service : Service) (client : PlanClient Ref) (fuel : Nat)
    (decoded : Option PlanRequest) : List String × Except PlanFailure Wire.PlanResponse :=
  match service.prepare client decoded with
  | .error response => ([], .error (.answered response))
  | .ok start =>
      let graph := planGraph start.registry start.selected start.copyReferrers fuel start.root
      (graph.1,
        match graph.2 with
        | .error .unfinished => .error .unfinished
        | .error (.raised raised) => .error (.answered (service.serviceError raised))
        | .ok state => .ok (start.response state))

end OciTransfer
