import OciTransfer.PlanWalk

/-!
A plan covers what is selected.

The walk from the root records all that the selection admits.  In a whole plan
the records are the nodes that were expanded, whatever the walk that expanded
them, and the blobs are those of the images among them.
-/

namespace OciTransfer

/-- The records are of the nodes seen, which could be read, and the blobs are theirs. -/
structure PlanState.Complete (registry : Registry) (state : PlanState) : Prop where
  recorded : ∀ digest, digest ∈ recordDigests state.records ↔ digest ∈ state.seen
  readable : ∀ digest ∈ state.seen, ∃ manifest, registry.manifestGet digest = .ok manifest ∧
    manifest.Readable
  blobs : ∀ digest, digest ∈ state.blobDigests ↔
    ∃ node ∈ state.seen, digest ∈ registry.blobDigests node
  bounded : state.records.length ≤ 10000

private theorem PlanState.complete_empty (registry : Registry) :
    PlanState.empty.Complete registry :=
  { recorded := fun _ => Iff.rfl
    readable := fun _ member => nomatch member
    blobs := fun digest => by
      refine iff_of_false (fun member => nomatch member) ?_
      rintro ⟨node, member, -⟩
      cases member
    bounded := Nat.zero_le _ }

theorem Walked.complete {registry : Registry} {selected named expanded : List String}
    {before after : PlanState} {added : List Wire.ManifestRecord}
    (walked : Walked registry selected named before after expanded added)
    (complete : before.Complete registry) : after.Complete registry where
  recorded := by
    intro digest
    have sameRecords : recordDigests after.records =
        recordDigests before.records ++ recordDigests added := by
      rw [walked.records]
      exact List.map_append
    rw [sameRecords, walked.seen, List.mem_append, List.mem_append, complete.recorded]
    constructor
    · rintro (wasSeen | isAdded)
      · exact Or.inr wasSeen
      · exact List.mem_append.mp (walked.traversal.listed_met isAdded)
    · rintro (isExpanded | wasSeen)
      · exact Or.inr (walked.traversal.recorded digest isExpanded)
      · exact Or.inl wasSeen
  readable := by
    intro digest member
    rw [walked.seen] at member
    rcases List.mem_append.mp member with isExpanded | wasSeen
    · exact walked.readable digest isExpanded
    · exact complete.readable digest wasSeen
  blobs := by
    intro digest
    rw [walked.blobs, complete.blobs, walked.seen]
    constructor
    · rintro (⟨node, member, isBlob⟩ | ⟨node, member, isBlob⟩)
      · exact ⟨node, List.mem_append_right _ member, isBlob⟩
      · exact ⟨node, List.mem_append_left _ member, isBlob⟩
    · rintro ⟨node, member, isBlob⟩
      rcases List.mem_append.mp member with isExpanded | wasSeen
      · exact Or.inr ⟨node, isExpanded, isBlob⟩
      · exact Or.inl ⟨node, wasSeen, isBlob⟩
  bounded := walked.bounded complete.bounded

/-- The configuration and the layers of an image are among these digests. -/
def Manifest.BlobsIn (manifest : Manifest) (digests : List String) : Prop :=
  manifest.isList = false → ∃ config layers, manifest.imager = some ⟨.ok config, .ok layers⟩ ∧
    config.digest ∈ digests ∧ ∀ layer ∈ layers, layer.digest ∈ digests

namespace PlanState.Complete

variable {registry : Registry} {state : PlanState}

private theorem blobsIn (complete : state.Complete registry) {digest : String}
    (recorded : digest ∈ recordDigests state.records) :
    ∃ manifest, registry.manifestGet digest = .ok manifest ∧
      manifest.BlobsIn state.blobDigests := by
  have seen := (complete.recorded digest).mp recorded
  obtain ⟨manifest, read, readable⟩ := complete.readable digest seen
  refine ⟨manifest, read, fun notList => ?_⟩
  cases readable with
  | index children isList listed =>
      rw [notList] at isList
      cases isList
  | image config layers _ imager =>
      have own : registry.blobDigests digest =
          config.digest :: layers.map RegistryDescriptor.digest := by
        simp only [Registry.blobDigests, read, Manifest.blobDigests, notList, imager]
      have isBlob : ∀ blob ∈ registry.blobDigests digest, blob ∈ state.blobDigests :=
        fun blob member => (complete.blobs blob).mpr ⟨digest, seen, member⟩
      rw [own] at isBlob
      refine ⟨config, layers, imager, isBlob _ List.mem_cons_self, fun layer member => ?_⟩
      exact isBlob _ (List.mem_cons_of_mem _ (List.mem_map_of_mem member))

private theorem blob_of_recorded (complete : state.Complete registry) {blob : String}
    (member : blob ∈ state.blobDigests) :
    ∃ digest ∈ recordDigests state.records, ∃ manifest,
      registry.manifestGet digest = .ok manifest ∧ blob ∈ manifest.blobDigests := by
  obtain ⟨digest, seen, isBlob⟩ := (complete.blobs blob).mp member
  obtain ⟨manifest, read, -⟩ := complete.readable digest seen
  refine ⟨digest, (complete.recorded digest).mpr seen, manifest, read, ?_⟩
  simp only [Registry.blobDigests, read] at isBlob
  exact isBlob

end PlanState.Complete

/-- What a plan response promises about its manifests and blobs. -/
structure Wire.PlanResponse.Covers (response : Wire.PlanResponse) (registry : Registry) : Prop where
  sorted : response.blobs.Pairwise fun left right => left.digest < right.digest
  images : ∀ item ∈ response.manifests, ∃ manifest,
    registry.manifestGet item.digest = .ok manifest ∧
      manifest.BlobsIn (response.blobs.map Wire.Descriptor.digest)
  needed : ∀ blob ∈ response.blobs, ∃ item ∈ response.manifests, ∃ manifest,
    registry.manifestGet item.digest = .ok manifest ∧ blob.digest ∈ manifest.blobDigests
  bounded : response.manifests.length ≤ 10000

private theorem mem_blobList_digests (state : PlanState) (digest : String) :
    digest ∈ state.blobList.map Wire.Descriptor.digest ↔ digest ∈ state.blobDigests :=
  ((List.perm_insertionSort _ _).map _).mem_iff

theorem blobList_sorted (state : PlanState) :
    state.blobList.Pairwise fun left right => left.digest < right.digest := by
  have total : Std.Total fun left right : Wire.Descriptor => left.digest ≤ right.digest :=
    ⟨fun left right => le_total left.digest right.digest⟩
  have trans : IsTrans Wire.Descriptor fun left right => left.digest ≤ right.digest :=
    ⟨fun _ _ _ first second => le_trans first second⟩
  have ordered : state.blobList.Pairwise fun left right => left.digest ≤ right.digest :=
    List.pairwise_insertionSort _ _
  have distinct : (state.blobList.map Wire.Descriptor.digest).Nodup :=
    ((List.perm_insertionSort _ _).map _).nodup_iff.mpr state.blobs.distinct
  have differ := List.pairwise_map.mp distinct
  exact (ordered.and differ).imp fun both => lt_of_le_of_ne both.1 both.2

theorem PlanState.Complete.covers {registry : Registry} {state : PlanState} {start : PlanStart}
    (complete : state.Complete registry) : (start.response state).Covers registry where
  sorted := blobList_sorted state
  images := by
    intro item member
    obtain ⟨manifest, read, blobsIn⟩ := complete.blobsIn (List.mem_map_of_mem member)
    refine ⟨manifest, read, fun notList => ?_⟩
    obtain ⟨config, layers, imager, hasConfig, hasLayers⟩ := blobsIn notList
    exact ⟨config, layers, imager, (mem_blobList_digests state _).mpr hasConfig,
      fun layer layerMember => (mem_blobList_digests state _).mpr (hasLayers layer layerMember)⟩
  needed := by
    intro blob member
    have inState := (mem_blobList_digests state blob.digest).mp (List.mem_map_of_mem member)
    obtain ⟨digest, recorded, manifest, read, isBlob⟩ := complete.blob_of_recorded inState
    obtain ⟨item, itemMember, rfl⟩ := List.mem_map.mp recorded
    exact ⟨item, itemMember, manifest, read, isBlob⟩
  bounded := complete.bounded

def rootWalk (registry : Registry) (selected : List String) (fuel : Nat) (root : Manifest) :
    Except WalkError PlanState :=
  walk registry selected fuel 0 root (PlanState.empty.record root.descriptor.rootRecord)

/-- The walk from the root ends, and if it succeeds every manifest the selection leads
to is recorded, with the blobs of the images. -/
def Registry.WalkCovers (registry : Registry) (selected : List String) (fuel : Nat)
    (root : Manifest) : Prop :=
  rootWalk registry selected fuel root ≠ .error .unfinished ∧
  ∀ walked, rootWalk registry selected fuel root = .ok walked → ∀ digest,
    Reaches (registry.childDigests selected) root.descriptor.digest digest →
    digest ∈ recordDigests walked.records ∧ ∃ manifest,
      registry.manifestGet digest = .ok manifest ∧ manifest.BlobsIn walked.blobDigests

private theorem walkCovers {registry : Registry} {fuel : Nat} {root : Manifest}
    (addressed : registry.Addressed) (enough : 34 ≤ fuel) (selected : List String)
    (read : registry.manifestGet root.descriptor.digest = .ok root) :
    registry.WalkCovers selected fuel root := by
  refine ⟨walk_finishes fuel 0 (by omega) (by omega) _ _, fun walked succeeded digest reaches => ?_⟩
  obtain ⟨expanded, added, all⟩ := walk_walked addressed fuel 0 root.descriptor.rootRecord root
    PlanState.empty walked read succeeded
  have isExpanded := all.traversal.covers (fun _ _ wasSeen => nomatch wasSeen)
    (List.mem_singleton_self _) reaches
  have complete := all.complete (PlanState.complete_empty registry)
  have recorded : digest ∈ recordDigests walked.records := by
    rw [all.records]
    exact all.traversal.recorded digest isExpanded
  exact ⟨recorded, complete.blobsIn recorded⟩

/-- Every walk from a root ends and covers what is selected, and every plan ends,
its answer is complete, and it too covers what is selected. -/
theorem plan_covers_selected_graph {Ref : Type} (service : Service) (client : PlanClient Ref)
    (addressed : client.Addressed) (fuel : Nat) (enough : 34 ≤ fuel) :
    (∀ hosts source root selected,
      (client.connect hosts source).manifestGet root.descriptor.digest = .ok root →
      (client.connect hosts source).WalkCovers selected fuel root) ∧
    ∀ decoded, (service.plan client fuel decoded).2 ≠ .error .unfinished ∧
      ∀ response, (service.plan client fuel decoded).2 = .ok response →
        ∃ start, service.prepare client decoded = .ok start ∧ response.Covers start.registry ∧
          ∀ digest, Reaches (start.registry.childDigests start.selected)
            start.root.descriptor.digest digest → digest ∈ recordDigests response.manifests := by
  refine ⟨fun hosts source root selected read =>
    walkCovers (addressed hosts source) enough selected read,
    fun decoded => ⟨plan_finishes enough, fun response planned => ?_⟩⟩
  obtain ⟨start, state, prepared, succeeded, -, rfl⟩ := plan_ok planned
  obtain ⟨own, read⟩ := prepare_ok addressed prepared
  obtain ⟨walked, _, _, _, first, -, later⟩ := planGraph_walked own read succeeded
  have complete := later.complete (first.complete (PlanState.complete_empty start.registry))
  refine ⟨start, prepared, complete.covers, fun digest reaches => ?_⟩
  have isExpanded := first.traversal.covers (fun _ _ wasSeen => nomatch wasSeen)
    (List.mem_singleton_self _) reaches
  refine (complete.recorded digest).mpr ?_
  rw [later.seen, first.seen]
  exact List.mem_append_right _ (List.mem_append_left _ isExpanded)

def sampleDescriptor (digest : String) (platform : Option String) : RegistryDescriptor :=
  { digest := digest
    mediaType := "application/json"
    size := 7
    platform := platform }

def sampleImage (digest config layer : String) : Manifest :=
  { descriptor := sampleDescriptor digest none
    isList := false
    manifestList := none
    imager := some ⟨.ok (sampleDescriptor config none), .ok [sampleDescriptor layer none]⟩ }

def sampleManifest (children : List RegistryDescriptor) (digest : String) :
    Except ServiceError Manifest :=
  if digest = "sha256:aa" then .ok
    { descriptor := sampleDescriptor "sha256:aa" none
      isList := true
      manifestList := some (.ok children)
      imager := none }
  else if digest = "sha256:bb" then .ok (sampleImage "sha256:bb" "sha256:b0" "sha256:ff")
  else if digest = "sha256:cc" then .ok (sampleImage "sha256:cc" "sha256:c0" "sha256:ff")
  else if digest = "sha256:dd" then .ok (sampleImage "sha256:dd" "sha256:d0" "sha256:d1")
  else .error (.other "not found")

def sampleRepository (children : List RegistryDescriptor) : Registry :=
  { tagged := fun _ => .error (.other "not found")
    manifestGet := sampleManifest children
    referrerList := fun digest =>
      if digest = "sha256:aa" then .ok [sampleDescriptor "sha256:dd" none] else .ok [] }

def samplePlanClient (children : List RegistryDescriptor) : PlanClient SampleRef :=
  { references := sampleReferences
    commonName := fun source => source.registry ++ "/" ++ source.repository ++ "@" ++ source.digest
    parsePlatform := some
    connect := fun _ _ => sampleRepository children }

def samplePlanRequest : PlanRequest :=
  { protocolVersion := 1
    source := "source.test/image@sha256:aa"
    destination := "target.test/image:v1"
    platforms := []
    copyReferrers := true
    sourceCredentials := none
    destinationCredentials := none }

def amd64Child : RegistryDescriptor := sampleDescriptor "sha256:bb" (some "linux/amd64")

def arm64Child : RegistryDescriptor := sampleDescriptor "sha256:cc" (some "linux/arm64")

theorem samplePlanClient_addressed (children : List RegistryDescriptor) :
    (samplePlanClient children).Addressed := by
  intro hosts source digest manifest read
  change sampleManifest children digest = .ok manifest at read
  unfold sampleManifest at read
  split at read
  · cases read
    symm
    assumption
  · split at read
    · cases read
      symm
      assumption
    · split at read
      · cases read
        symm
        assumption
      · split at read
        · cases read
          symm
          assumption
        · cases read

theorem exists_answer {outcome : Except PlanFailure Wire.PlanResponse} {α : Type}
    {view : Wire.PlanResponse → α} {value : α} (run : outcome.toOption.map view = some value) :
    ∃ response, outcome = .ok response ∧ view response = value := by
  cases outcome with
  | error failure => cases run
  | ok response => exact ⟨response, rfl, Option.some.inj run⟩

theorem plan_covers_an_index_and_its_signature :
    ∃ response, (sampleService.plan (samplePlanClient [amd64Child, arm64Child]) 34
        (some samplePlanRequest)).2 = .ok response ∧
      response.blobs.map Wire.Descriptor.digest =
        ["sha256:b0", "sha256:c0", "sha256:d0", "sha256:d1", "sha256:ff"] ∧
      response.Covers (sampleRepository [amd64Child, arm64Child]) := by
  have covered := plan_covers_selected_graph sampleService
    (samplePlanClient [amd64Child, arm64Child]) (samplePlanClient_addressed _) 34 (by decide)
  have run : ((sampleService.plan (samplePlanClient [amd64Child, arm64Child]) 34
      (some samplePlanRequest)).2.toOption.map fun response =>
        response.blobs.map Wire.Descriptor.digest) =
      some ["sha256:b0", "sha256:c0", "sha256:d0", "sha256:d1", "sha256:ff"] := by
    decide +kernel
  obtain ⟨response, planned, blobs⟩ := exists_answer run
  obtain ⟨start, prepared, covers, -⟩ := (covered.2 (some samplePlanRequest)).2 response planned
  have sameRegistry : (sampleService.prepare (samplePlanClient [amd64Child, arm64Child])
      (some samplePlanRequest)).map PlanStart.registry =
        .ok (sampleRepository [amd64Child, arm64Child]) := rfl
  rw [prepared] at sameRegistry
  rw [Except.ok.inj sameRegistry] at covers
  exact ⟨response, planned, blobs, covers⟩

end OciTransfer
