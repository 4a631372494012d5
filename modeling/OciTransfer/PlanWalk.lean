import OciTransfer.PlanGraph

/-!
What a walk leaves behind when it succeeds.

A walk is a traversal of the graph of digests: the state it is given is
extended by records and by expanded nodes that account for one another, and the
blobs it adds are those of the images among the nodes it has expanded.
-/

namespace OciTransfer

open Guards

namespace Manifest

def admitted (manifest : Manifest) (selected : List String) : List RegistryDescriptor :=
  match manifest.isList, manifest.manifestList with
  | true, some (.ok children) => children.filter (admits selected)
  | _, _ => []

def blobDigests (manifest : Manifest) : List String :=
  match manifest.isList, manifest.imager with
  | false, some ⟨.ok config, .ok layers⟩ => config.digest :: layers.map RegistryDescriptor.digest
  | _, _ => []

/-- The manifest is an index with its children, or an image with its blobs. -/
inductive Readable (manifest : Manifest) : Prop where
  | index (children : List RegistryDescriptor) (isList : manifest.isList = true)
      (listed : manifest.manifestList = some (.ok children))
  | image (config : RegistryDescriptor) (layers : List RegistryDescriptor)
      (notList : manifest.isList = false) (imager : manifest.imager = some ⟨.ok config, .ok layers⟩)

end Manifest

namespace Registry

def childDigests (registry : Registry) (selected : List String) (digest : String) : List String :=
  match registry.manifestGet digest with
  | .error _ => []
  | .ok manifest => (manifest.admitted selected).map RegistryDescriptor.digest

def blobDigests (registry : Registry) (digest : String) : List String :=
  match registry.manifestGet digest with
  | .error _ => []
  | .ok manifest => manifest.blobDigests

/-- A manifest that is read by its digest has that digest. -/
def Addressed (registry : Registry) : Prop :=
  ∀ digest manifest, registry.manifestGet digest = .ok manifest →
    manifest.descriptor.digest = digest

end Registry

def PlanState.blobDigests (state : PlanState) : List String :=
  state.blobs.rows.map Wire.Descriptor.digest

def recordDigests (records : List Wire.ManifestRecord) : List String :=
  records.map Wire.ManifestRecord.digest

structure Walked (registry : Registry) (selected named : List String) (before after : PlanState)
    (expanded : List String) (added : List Wire.ManifestRecord) : Prop where
  seen : after.seen = expanded ++ before.seen
  records : after.records = before.records ++ added
  traversal : Traversal (registry.childDigests selected) named expanded before.seen
    (recordDigests added)
  blobs : ∀ digest, digest ∈ after.blobDigests ↔
    digest ∈ before.blobDigests ∨ ∃ node ∈ expanded, digest ∈ registry.blobDigests node
  readable : ∀ node ∈ expanded, ∃ manifest, registry.manifestGet node = .ok manifest ∧
    manifest.Readable
  bounded : before.records.length ≤ 10000 → after.records.length ≤ 10000

namespace Walked

variable {registry : Registry} {selected named expanded : List String}
  {before middle after : PlanState} {added : List Wire.ManifestRecord}

theorem nil (registry : Registry) (selected : List String) (state : PlanState) :
    Walked registry selected [] state state [] [] :=
  { seen := rfl
    records := (List.append_nil _).symm
    traversal := Traversal.nil
    blobs := fun digest => by simp
    readable := fun _ member => nomatch member
    bounded := id }

theorem append {laterNamed laterExpanded : List String} {laterAdded : List Wire.ManifestRecord}
    (first : Walked registry selected named before middle expanded added)
    (later : Walked registry selected laterNamed middle after laterExpanded laterAdded) :
    Walked registry selected (named ++ laterNamed) before after (laterExpanded ++ expanded)
      (added ++ laterAdded) where
  seen := by rw [later.seen, first.seen, List.append_assoc]
  records := by rw [later.records, first.records, List.append_assoc]
  traversal := by
    have rest := later.traversal
    rw [first.seen] at rest
    unfold recordDigests
    rw [List.map_append]
    exact first.traversal.append rest
  blobs := by
    intro digest
    rw [later.blobs, first.blobs, or_assoc]
    refine or_congr Iff.rfl ?_
    constructor
    · rintro (⟨node, member, isBlob⟩ | ⟨node, member, isBlob⟩)
      · exact ⟨node, List.mem_append_right _ member, isBlob⟩
      · exact ⟨node, List.mem_append_left _ member, isBlob⟩
    · rintro ⟨node, member, isBlob⟩
      rcases List.mem_append.mp member with inLater | inFirst
      · exact Or.inr ⟨node, inLater, isBlob⟩
      · exact Or.inl ⟨node, inFirst, isBlob⟩
  readable := by
    intro node member
    rcases List.mem_append.mp member with inLater | inFirst
    · exact later.readable node inLater
    · exact first.readable node inFirst
  bounded := fun fits => later.bounded (first.bounded fits)

end Walked

/-! ### One manifest -/

private theorem setBlob_blobDigests (state : PlanState) (descriptor : RegistryDescriptor)
    (digest : String) :
    digest ∈ (state.setBlob descriptor).blobDigests ↔
      digest ∈ state.blobDigests ∨ digest = descriptor.digest :=
  state.blobs.mem_keys_set descriptor.blob

private theorem setBlobs (descriptors : List RegistryDescriptor) (state : PlanState) :
    (descriptors.foldl PlanState.setBlob state).seen = state.seen ∧
    (descriptors.foldl PlanState.setBlob state).records = state.records ∧
    ∀ digest, digest ∈ (descriptors.foldl PlanState.setBlob state).blobDigests ↔
      digest ∈ state.blobDigests ∨ digest ∈ descriptors.map RegistryDescriptor.digest := by
  induction descriptors generalizing state with
  | nil => simp
  | cons first rest ih =>
      obtain ⟨seen, records, blobs⟩ := ih (state.setBlob first)
      refine ⟨seen, records, fun digest => ?_⟩
      rw [List.foldl_cons, blobs, setBlob_blobDigests, or_assoc, List.map_cons, List.mem_cons]

private theorem collect_ok {manifest : Manifest} {state after : PlanState}
    (collected : collect manifest state = .ok after) :
    ∃ config layers, manifest.imager = some ⟨.ok config, .ok layers⟩ ∧
      after = layers.foldl PlanState.setBlob (state.setBlob config) := by
  unfold collect at collected
  split at collected
  · cases collected
  · rename_i imager isImager
    obtain ⟨config, layers⟩ := imager
    cases config with
    | error raised => cases collected
    | ok config =>
        cases layers with
        | error raised => cases collected
        | ok layers =>
            cases collected
            exact ⟨config, layers, isImager, rfl⟩

/-! ### The walk -/

section Walk

variable {registry : Registry} {selected : List String} {before middle after : PlanState}
  {item : Wire.ManifestRecord} {manifest : Manifest}

theorem Walked.known (member : item.digest ∈ before.seen)
    (limited : (before.record item).records.length ≤ 10000) :
    Walked registry selected [item.digest] before (before.record item) [] [item] :=
  { seen := rfl
    records := rfl
    traversal := Traversal.known member
    blobs := fun digest => by
      change digest ∈ before.blobDigests ↔ _
      simp
    readable := fun _ member => nomatch member
    bounded := fun _ => limited }

theorem Walked.expand {expanded : List String} {added : List Wire.ManifestRecord}
    (read : registry.manifestGet item.digest = .ok manifest) (readable : manifest.Readable)
    (fresh : item.digest ∉ before.seen) (limited : (before.record item).records.length ≤ 10000)
    (rest : Walked registry selected (registry.childDigests selected item.digest)
      ((before.record item).mark item.digest) middle expanded added)
    (sameSeen : after.seen = middle.seen) (sameRecords : after.records = middle.records)
    (ownBlobs : ∀ digest, digest ∈ after.blobDigests ↔
      digest ∈ middle.blobDigests ∨ digest ∈ registry.blobDigests item.digest) :
    Walked registry selected [item.digest] before after (expanded ++ [item.digest])
      (item :: added) where
  seen := by
    rw [sameSeen, rest.seen, List.append_assoc]
    rfl
  records := by
    rw [sameRecords, rest.records]
    exact List.append_assoc before.records [item] added
  traversal := Traversal.expand fresh rest.traversal
  blobs := by
    intro digest
    rw [ownBlobs, rest.blobs]
    change (digest ∈ before.blobDigests ∨ _) ∨ _ ↔ _
    rw [or_assoc]
    refine or_congr Iff.rfl ?_
    constructor
    · rintro (⟨node, member, isBlob⟩ | isBlob)
      · exact ⟨node, List.mem_append_left _ member, isBlob⟩
      · exact ⟨item.digest, by simp, isBlob⟩
    · rintro ⟨node, member, isBlob⟩
      rcases List.mem_append.mp member with inRest | isItem
      · exact Or.inl ⟨node, inRest, isBlob⟩
      · rw [List.mem_singleton.mp isItem] at isBlob
        exact Or.inr isBlob
  readable := by
    intro node member
    rcases List.mem_append.mp member with inRest | isItem
    · exact rest.readable node inRest
    · rw [List.mem_singleton.mp isItem]
      exact ⟨manifest, read, readable⟩
  bounded := by
    intro _
    rw [sameRecords]
    exact rest.bounded limited

/-- What `next` does with the manifest of a record it was just given. -/
def EntersSoundly (registry : Registry) (selected : List String)
    (next : Manifest → PlanState → Except WalkError PlanState) : Prop :=
  ∀ item manifest before after, registry.manifestGet item.digest = .ok manifest →
    next manifest (before.record item) = .ok after →
    ∃ expanded added, Walked registry selected [item.digest] before after expanded (item :: added)

private theorem enter_ok {next : Manifest → PlanState → Except WalkError PlanState}
    {before after : PlanState}
    {item : Wire.ManifestRecord} (entered : enter registry next before item = .ok after) :
    ∃ manifest, registry.manifestGet item.digest = .ok manifest ∧
      next manifest (before.record item) = .ok after := by
  unfold enter at entered
  cases read : registry.manifestGet item.digest with
  | error raised =>
      rw [read] at entered
      cases entered
  | ok manifest =>
      rw [read] at entered
      exact ⟨manifest, rfl, entered⟩

private theorem enter_all {next : Manifest → PlanState → Except WalkError PlanState}
    (sound : EntersSoundly registry selected next) (items : List Wire.ManifestRecord)
    (before after : PlanState) (entered : items.foldlM (enter registry next) before = .ok after) :
    ∃ expanded added,
      Walked registry selected (recordDigests items) before after expanded added := by
  induction items generalizing before with
  | nil =>
      cases entered
      exact ⟨[], [], Walked.nil registry selected _⟩
  | cons item rest ih =>
      rw [List.foldlM_cons] at entered
      obtain ⟨middle, here, goesOn⟩ := ok_of_bind entered
      obtain ⟨manifest, read, stepped⟩ := enter_ok here
      obtain ⟨expanded, added, first⟩ := sound item manifest _ middle read stepped
      obtain ⟨laterExpanded, laterAdded, later⟩ := ih middle goesOn
      exact ⟨laterExpanded ++ expanded, (item :: added) ++ laterAdded, first.append later⟩

private theorem recordDigests_children (children : List RegistryDescriptor) :
    recordDigests (children.map RegistryDescriptor.childRecord) =
      children.map RegistryDescriptor.digest := by
  unfold recordDigests
  rw [List.map_map]
  rfl

theorem Walked.index {children : List RegistryDescriptor} {expanded : List String}
    {added : List Wire.ManifestRecord} (read : registry.manifestGet item.digest = .ok manifest)
    (isList : manifest.isList = true) (listed : manifest.manifestList = some (.ok children))
    (fresh : item.digest ∉ before.seen) (limited : (before.record item).records.length ≤ 10000)
    (rest : Walked registry selected
      (recordDigests ((children.filter (admits selected)).map RegistryDescriptor.childRecord))
      ((before.record item).mark item.digest) after expanded added) :
    Walked registry selected [item.digest] before after (expanded ++ [item.digest])
      (item :: added) := by
  have named : registry.childDigests selected item.digest =
      (children.filter (admits selected)).map RegistryDescriptor.digest := by
    simp only [Registry.childDigests, read, Manifest.admitted, isList, listed]
  have noBlobs : registry.blobDigests item.digest = [] := by
    simp only [Registry.blobDigests, read, Manifest.blobDigests, isList]
  rw [recordDigests_children, ← named] at rest
  refine Walked.expand read (.index children isList listed) fresh limited rest rfl rfl
    fun digest => ?_
  rw [noBlobs]
  simp

theorem Walked.image {config : RegistryDescriptor} {layers : List RegistryDescriptor}
    (read : registry.manifestGet item.digest = .ok manifest) (notList : manifest.isList = false)
    (imager : manifest.imager = some ⟨.ok config, .ok layers⟩) (fresh : item.digest ∉ before.seen)
    (limited : (before.record item).records.length ≤ 10000) :
    Walked registry selected [item.digest] before
      (layers.foldl PlanState.setBlob
        (((before.record item).mark item.digest).setBlob config)) ([] ++ [item.digest]) [item] := by
  have noChildren : registry.childDigests selected item.digest = [] := by
    simp only [Registry.childDigests, read, Manifest.admitted, notList, List.map_nil]
  have ownBlobs : registry.blobDigests item.digest =
      config.digest :: layers.map RegistryDescriptor.digest := by
    simp only [Registry.blobDigests, read, Manifest.blobDigests, notList, imager]
  obtain ⟨sameSeen, sameRecords, blobs⟩ :=
    setBlobs layers (((before.record item).mark item.digest).setBlob config)
  have rest : Walked registry selected (registry.childDigests selected item.digest)
      ((before.record item).mark item.digest) ((before.record item).mark item.digest) [] [] := by
    rw [noChildren]
    exact Walked.nil registry selected _
  refine Walked.expand read (.image config layers notList imager) fresh limited rest sameSeen
    sameRecords fun digest => ?_
  rw [blobs, setBlob_blobDigests, or_assoc, ownBlobs, List.mem_cons]

private theorem walk_ok {fuel depth : Nat}
    (walked : walk registry selected (fuel + 1) depth manifest before = .ok after) :
    before.records.length ≤ 10000 ∧
    ((manifest.descriptor.digest ∈ before.seen ∧ after = before) ∨
      (manifest.descriptor.digest ∉ before.seen ∧
        ((∃ children, manifest.isList = true ∧ manifest.manifestList = some (.ok children) ∧
          ((children.filter (admits selected)).map RegistryDescriptor.childRecord).foldlM
            (enter registry (walk registry selected fuel (depth + 1)))
            (before.mark manifest.descriptor.digest) = .ok after) ∨
        (manifest.isList = false ∧
          collect manifest (before.mark manifest.descriptor.digest) = .ok after)))) := by
  unfold walk at walked
  split at walked
  · cases walked
  · rename_i inLimits
    have limited : before.records.length ≤ 10000 := by omega
    refine ⟨limited, ?_⟩
    split at walked
    · rename_i seen
      cases walked
      exact Or.inl ⟨seen, rfl⟩
    · rename_i fresh
      refine Or.inr ⟨fresh, ?_⟩
      split at walked
      · rename_i isList
        split at walked
        · cases walked
        · cases walked
        · rename_i children listed
          exact Or.inl ⟨children, isList, listed, walked⟩
      · rename_i notList
        exact Or.inr ⟨Bool.eq_false_iff.mpr notList, walked⟩

/-- A successful walk, by induction on its fuel. -/
theorem walk_walked (addressed : registry.Addressed) (fuel depth : Nat) :
    EntersSoundly registry selected (walk registry selected fuel depth) := by
  induction fuel generalizing depth with
  | zero =>
      intro item manifest before after _ walked
      cases walked
  | succ fuel ih =>
      intro item manifest before after read walked
      obtain ⟨limited, outcome⟩ := walk_ok walked
      rw [addressed item.digest manifest read] at outcome
      rcases outcome with ⟨seen, rfl⟩ |
        ⟨fresh, ⟨children, isList, listed, entered⟩ | ⟨notList, collected⟩⟩
      · exact ⟨[], [], Walked.known seen limited⟩
      · obtain ⟨expanded, added, rest⟩ := enter_all (ih (depth + 1)) _ _ _ entered
        exact ⟨_, _, Walked.index read isList listed fresh limited rest⟩
      · obtain ⟨config, layers, imager, rfl⟩ := collect_ok collected
        exact ⟨_, _, Walked.image read notList imager fresh limited⟩

/-! ### Termination -/

/-- An outcome that did not run out of fuel. -/
def Finishes {α : Type} (outcome : Except WalkError α) : Prop :=
  outcome ≠ .error .unfinished

private theorem finishes_ok {α : Type} (value : α) : Finishes (.ok value : Except WalkError α) :=
  fun same => nomatch same

private theorem finishes_raised {α : Type} (error : ServiceError) :
    Finishes (.error (.raised error) : Except WalkError α) :=
  fun same => nomatch same

private theorem enter_all_finishes {next : Manifest → PlanState → Except WalkError PlanState}
    (finishes : ∀ manifest state, Finishes (next manifest state))
    (items : List Wire.ManifestRecord) (state : PlanState) :
    Finishes (items.foldlM (enter registry next) state) := by
  induction items generalizing state with
  | nil => exact finishes_ok state
  | cons item rest ih =>
      rw [List.foldlM_cons]
      cases read : registry.manifestGet item.digest with
      | error raised =>
          simp only [enter, read]
          exact finishes_raised raised
      | ok manifest =>
          simp only [enter, read]
          have notHere := finishes manifest (state.record item)
          cases stepped : next manifest (state.record item) with
          | error raised =>
              rw [stepped] at notHere
              exact notHere
          | ok middle => exact ih middle

private theorem collect_finishes (manifest : Manifest) (state : PlanState) :
    Finishes (collect manifest state) := by
  unfold collect
  split
  · exact finishes_raised _
  · split
    · exact finishes_raised _
    · split
      · exact finishes_raised _
      · exact finishes_ok _

/-- No walk needs more calls inside one another than the depth limit lets it make. -/
theorem walk_finishes (fuel depth : Nat) (shallow : depth ≤ 33) (enough : 34 ≤ fuel + depth)
    (manifest : Manifest) (state : PlanState) :
    Finishes (walk registry selected fuel depth manifest state) := by
  induction fuel generalizing depth manifest state with
  | zero => omega
  | succ fuel ih =>
      unfold walk
      split
      · exact finishes_raised _
      · rename_i inLimits
        have deeper : depth + 1 ≤ 33 := by omega
        have next := ih (depth + 1) deeper (by omega)
        split
        · exact finishes_ok _
        · split
          · split
            · exact finishes_raised _
            · exact finishes_raised _
            · exact enter_all_finishes next _ _
          · exact collect_finishes _ _

end Walk

/-! ### The plan -/

/-- The digests of the referrers a lookup gives. -/
def Registry.referrerDigests (registry : Registry) (digest : String) : List String :=
  match registry.referrerList digest with
  | .error _ => []
  | .ok descriptors => descriptors.map RegistryDescriptor.digest

private theorem recordDigests_referrers (subject : String) (descriptors : List RegistryDescriptor) :
    recordDigests (descriptors.map (RegistryDescriptor.referrerRecord subject)) =
      descriptors.map RegistryDescriptor.digest := by
  unfold recordDigests
  rw [List.map_map]
  rfl

section Plan

variable {registry : Registry} {selected : List String} {copyReferrers : Bool} {fuel : Nat}
  {root : Manifest} {before after : PlanState} {lookups : List String}

theorem discover_lookups (records : List Wire.ManifestRecord) (state : PlanState) :
    (discover registry fuel records state).1 <+: recordDigests records := by
  induction records generalizing state with
  | nil => exact List.prefix_rfl
  | cons base rest ih =>
      unfold discover
      have one : [base.digest] <+: recordDigests (base :: rest) :=
        List.cons_prefix_cons.mpr ⟨rfl, List.nil_prefix⟩
      split
      · exact one
      · split
        · exact one
        · exact List.cons_prefix_cons.mpr ⟨rfl, ih _⟩

/-- A loop that succeeds has looked up every record and walked through the referrers. -/
theorem discover_walked (addressed : registry.Addressed) (records : List Wire.ManifestRecord)
    (before after : PlanState)
    (discovered : (discover registry fuel records before).2 = .ok after) :
    (discover registry fuel records before).1 = recordDigests records ∧
    ∃ expanded added, Walked registry []
      ((recordDigests records).flatMap registry.referrerDigests) before after expanded added := by
  induction records generalizing before with
  | nil =>
      cases discovered
      exact ⟨rfl, [], [], Walked.nil registry [] _⟩
  | cons base rest ih =>
      unfold discover at discovered ⊢
      cases listed : registry.referrerList base.digest with
      | error raised =>
          simp only [listed] at discovered
          cases discovered
      | ok descriptors =>
          simp only [listed] at discovered ⊢
          cases followed : (descriptors.map (RegistryDescriptor.referrerRecord base.digest)).foldlM
              (enter registry (walk registry [] fuel 1)) before with
          | error raised =>
              simp only [followed] at discovered
              cases discovered
          | ok middle =>
              simp only [followed] at discovered ⊢
              obtain ⟨lookups, laterExpanded, laterAdded, later⟩ := ih middle discovered
              obtain ⟨expanded, added, first⟩ :=
                enter_all (walk_walked addressed fuel 1) _ before middle followed
              have named : registry.referrerDigests base.digest =
                  descriptors.map RegistryDescriptor.digest := by
                simp only [Registry.referrerDigests, listed]
              rw [recordDigests_referrers, ← named] at first
              exact ⟨congrArg (base.digest :: ·) lookups, _, _, first.append later⟩

private theorem discover_finishes (enough : 34 ≤ fuel) (records : List Wire.ManifestRecord)
    (state : PlanState) : Finishes (discover registry fuel records state).2 := by
  induction records generalizing state with
  | nil => exact finishes_ok state
  | cons base rest ih =>
      unfold discover
      split
      · exact finishes_raised _
      · rename_i descriptors _
        have finishes := @enter_all_finishes registry _
          (@walk_finishes registry [] fuel 1 (by omega) (by omega))
          (descriptors.map (RegistryDescriptor.referrerRecord base.digest)) state
        split
        · rename_i raised failed
          rw [failed] at finishes
          exact finishes
        · exact ih _

/-- A plan is two walks, from the root and from the referrers of what the first has recorded. -/
theorem planGraph_walked (addressed : registry.Addressed)
    (read : registry.manifestGet root.descriptor.digest = .ok root)
    (planned : (planGraph registry selected copyReferrers fuel root).2 = .ok after) :
    ∃ walked expanded laterExpanded laterAdded,
      Walked registry selected [root.descriptor.digest] PlanState.empty walked expanded
        walked.records ∧
      (planGraph registry selected copyReferrers fuel root).1 =
        (if copyReferrers then recordDigests walked.records else []) ∧
      Walked registry []
        ((planGraph registry selected copyReferrers fuel root).1.flatMap registry.referrerDigests)
        walked after laterExpanded laterAdded := by
  unfold planGraph at planned ⊢
  split at planned
  · cases planned
  · rename_i walked rootWalked
    obtain ⟨expanded, added, first⟩ := walk_walked addressed fuel 0 root.descriptor.rootRecord root
      PlanState.empty walked read rootWalked
    have allRecords : walked.records = root.descriptor.rootRecord :: added := first.records
    rw [← allRecords] at first
    cases copyReferrers with
    | true =>
        obtain ⟨lookups, laterExpanded, laterAdded, later⟩ :=
          discover_walked addressed walked.records walked after planned
        rw [if_pos rfl, lookups]
        exact ⟨walked, expanded, laterExpanded, laterAdded, first, rfl, later⟩
    | false =>
        cases planned
        exact ⟨_, expanded, [], [], first, rfl, Walked.nil registry [] _⟩

private theorem planGraph_finishes (enough : 34 ≤ fuel) :
    Finishes (planGraph registry selected copyReferrers fuel root).2 := by
  unfold planGraph
  have rootFinishes := @walk_finishes registry selected fuel 0 (by omega) (by omega) root
    (PlanState.empty.record root.descriptor.rootRecord)
  split
  · rename_i raised failed
    rw [failed] at rootFinishes
    exact rootFinishes
  · rename_i walked _
    cases copyReferrers with
    | false => exact finishes_ok walked
    | true => exact discover_finishes enough walked.records walked

end Plan

/-! ### The request handler -/

section Handler

variable {Ref : Type} {service : Service} {client : PlanClient Ref} {fuel : Nat}
  {decoded : Option PlanRequest}

/-- Every repository the client can be connected to serves manifests under their own digests. -/
def PlanClient.Addressed (client : PlanClient Ref) : Prop :=
  ∀ hosts source, (client.connect hosts source).Addressed

private theorem rootManifest_read {registry : Registry} {references : References Ref} {source : Ref}
    {root : Manifest} (found : registry.rootManifest references source = .ok root) :
    ∃ digest, registry.manifestGet digest = .ok root := by
  unfold Registry.rootManifest at found
  split at found
  · exact ⟨_, found⟩
  · cases named : registry.tagged (references.tag source) with
    | error raised =>
        rw [named] at found
        cases found
    | ok digest =>
        rw [named] at found
        exact ⟨digest, found⟩

/-- The walk starts at a manifest of a repository, which is read under its own digest. -/
theorem prepare_ok (addressed : client.Addressed) {start : PlanStart}
    (prepared : service.prepare client decoded = .ok start) :
    start.registry.Addressed ∧
      start.registry.manifestGet start.root.descriptor.digest = .ok start.root := by
  unfold Service.prepare at prepared
  cases decoded with
  | none => cases prepared
  | some request =>
      obtain ⟨-, prepared⟩ := ok_of_guard prepared
      split at prepared
      · cases prepared
      · split at prepared
        · cases prepared
        · dsimp only at prepared
          split at prepared
          · cases prepared
          · rename_i root found
            obtain ⟨-, prepared⟩ := ok_of_guard prepared
            obtain ⟨-, prepared⟩ := ok_of_guard prepared
            split at prepared
            · cases prepared
            · cases prepared
              obtain ⟨digest, read⟩ := rootManifest_read found
              have sameDigest := addressed _ _ digest root read
              refine ⟨addressed _ _, ?_⟩
              dsimp only
              rw [sameDigest]
              exact read

theorem plan_ok {response : Wire.PlanResponse}
    (planned : (service.plan client fuel decoded).2 = .ok response) :
    ∃ start state, service.prepare client decoded = .ok start ∧
      (planGraph start.registry start.selected start.copyReferrers fuel start.root).2 = .ok state ∧
      (service.plan client fuel decoded).1 =
        (planGraph start.registry start.selected start.copyReferrers fuel start.root).1 ∧
      response = start.response state := by
  unfold Service.plan at planned ⊢
  cases prepared : service.prepare client decoded with
  | error refusal =>
      simp only [prepared] at planned
      cases planned
  | ok start =>
      simp only [prepared] at planned ⊢
      split at planned
      · cases planned
      · cases planned
      · rename_i state ended
        cases planned
        exact ⟨start, state, rfl, ended, rfl, rfl⟩

theorem plan_finishes (enough : 34 ≤ fuel) :
    (service.plan client fuel decoded).2 ≠ .error .unfinished := by
  unfold Service.plan
  split
  · intro impossible
    cases impossible
  · rename_i start _
    have finishes := @planGraph_finishes start.registry start.selected start.copyReferrers fuel
      start.root enough
    dsimp only
    split
    · rename_i stuck
      exact fun _ => finishes stuck
    · intro impossible
      cases impossible
    · intro impossible
      cases impossible

end Handler

end OciTransfer
