import OciTransfer.ClientRecords
import OciTransfer.JsonDumps
import OciTransfer.SnapshotPinning

/-!
The digest of a snapshot.

`create` hashes the text of the snapshot's fields.  That text tells the fields of two
snapshots apart, whatever stands in them, so the digests of two snapshots agree only if
the snapshots do or the hash collides; and the fields of a stored snapshot, read back,
have the text that was hashed.
-/

namespace OciTransfer

open JsonValue

namespace Client

attribute [ext] Descriptor ManifestRecord ImageSnapshot

/-- The fields are made of texts, integers, booleans and nothing else. -/
structure Descriptor.FloatFree (item : Descriptor) : Prop where
  digest : item.digest.FloatFree
  mediaType : item.mediaType.FloatFree
  size : item.size.FloatFree

structure ManifestRecord.FloatFree (item : ManifestRecord) : Prop where
  digest : item.digest.FloatFree
  mediaType : item.mediaType.FloatFree
  size : item.size.FloatFree
  kind : item.kind.FloatFree
  subjectDigest : item.subjectDigest.FloatFree
  platform : item.platform.FloatFree

structure ImageSnapshot.FloatFree (snapshot : ImageSnapshot) : Prop where
  resolvedSource : snapshot.resolvedSource.FloatFree
  rootDigest : snapshot.rootDigest.FloatFree
  rootMediaType : snapshot.rootMediaType.FloatFree
  rootSize : snapshot.rootSize.FloatFree
  manifests : ∀ item ∈ snapshot.manifests, item.FloatFree
  blobs : ∀ item ∈ snapshot.blobs, item.FloatFree

/-! ### Items of the records -/

private theorem floatFree_dict {items : List (String × JsonValue)}
    (floatFree : ∀ entry ∈ items, entry.2.FloatFree) :
    (dict items).FloatFree :=
  .obj fun entry member => floatFree entry ((List.mem_insertionSort _).mp member)

theorem Descriptor.FloatFree.dict {item : Descriptor} (floatFree : item.FloatFree) :
    (dict item.items).FloatFree := by
  apply floatFree_dict
  intro entry member
  simp only [Descriptor.items, List.mem_cons, List.not_mem_nil, or_false] at member
  rcases member with rfl | rfl | rfl
  · exact floatFree.digest
  · exact floatFree.mediaType
  · exact floatFree.size

theorem ManifestRecord.FloatFree.dict {item : ManifestRecord} (floatFree : item.FloatFree) :
    (dict item.items).FloatFree := by
  apply floatFree_dict
  intro entry member
  simp only [ManifestRecord.items, List.mem_cons, List.not_mem_nil, or_false] at member
  rcases member with rfl | rfl | rfl | rfl | rfl | rfl
  · exact floatFree.digest
  · exact floatFree.mediaType
  · exact floatFree.size
  · exact floatFree.kind
  · exact floatFree.subjectDigest
  · exact floatFree.platform

theorem Descriptor.dict_injective {item other : Descriptor}
    (same : dict item.items = dict other.items) : item = other := by
  have keys : (item.items.map Prod.fst).Nodup := by
    change ["digest", "media_type", "size"].Nodup
    decide
  have sameItems : item.items = other.items := JsonValue.dict_injective rfl keys same
  simp only [items, List.cons.injEq, Prod.mk.injEq, true_and, and_true] at sameItems
  exact Descriptor.ext sameItems.1 sameItems.2.1 sameItems.2.2

theorem ManifestRecord.dict_injective {item other : ManifestRecord}
    (same : dict item.items = dict other.items) : item = other := by
  have keys : (item.items.map Prod.fst).Nodup := by
    change ["digest", "media_type", "size", "kind", "subject_digest", "platform"].Nodup
    decide
  have sameItems : item.items = other.items := JsonValue.dict_injective rfl keys same
  simp only [items, List.cons.injEq, Prod.mk.injEq, true_and, and_true] at sameItems
  obtain ⟨digest, mediaType, size, kind, subject, platform⟩ := sameItems
  exact ManifestRecord.ext digest mediaType size kind subject platform

namespace ImageSnapshot

def fieldNames : List String :=
  ["source", "resolved_source", "destination", "root_digest", "root_media_type", "root_size",
    "platforms", "manifests", "blobs", "copy_referrers", "copy_digest_tags", "replacement_policy"]

private theorem keys_canonical (snapshot : ImageSnapshot)
    (dictionary : List (String × JsonValue) → JsonValue) :
    (snapshot.canonical dictionary).map Prod.fst = fieldNames := rfl

theorem FloatFree.dict {snapshot : ImageSnapshot} (floatFree : snapshot.FloatFree) :
    (dict (snapshot.canonical .dict)).FloatFree := by
  apply floatFree_dict
  intro entry member
  simp only [canonical, List.mem_cons, List.not_mem_nil, or_false] at member
  rcases member with
    rfl | rfl | rfl | rfl | rfl | rfl | rfl | rfl | rfl | rfl | rfl | rfl
  · exact .str _
  · exact floatFree.resolvedSource
  · exact .str _
  · exact floatFree.rootDigest
  · exact floatFree.rootMediaType
  · exact floatFree.rootSize
  · apply FloatFree.arr
    intro item listed
    obtain ⟨platform, -, rfl⟩ := List.mem_map.mp listed
    exact .str _
  · apply FloatFree.arr
    intro item listed
    obtain ⟨manifest, inManifests, rfl⟩ := List.mem_map.mp listed
    exact (floatFree.manifests manifest inManifests).dict
  · apply FloatFree.arr
    intro item listed
    obtain ⟨blob, inBlobs, rfl⟩ := List.mem_map.mp listed
    exact (floatFree.blobs blob inBlobs).dict
  · exact .bool _
  · exact .bool _
  · exact .str _

private theorem canonical_injective {one other : ImageSnapshot}
    (same : dict (one.canonical .dict) = dict (other.canonical .dict)) :
    { one with digest := other.digest } = other := by
  have keys : ((one.canonical .dict).map Prod.fst).Nodup := by
    rw [keys_canonical]
    decide
  have sameItems : one.canonical .dict = other.canonical .dict :=
    JsonValue.dict_injective (by rw [keys_canonical, keys_canonical]) keys same
  simp only [canonical, List.cons.injEq, Prod.mk.injEq, true_and, and_true, JsonValue.str.injEq,
    JsonValue.arr.injEq, JsonValue.bool.injEq] at sameItems
  obtain ⟨source, resolved, destination, rootDigest, mediaType, rootSize, platforms, manifests,
    blobs, referrers, digestTags, policy⟩ := sameItems
  have samePlatforms : one.platforms = other.platforms :=
    (List.map_injective_iff.mpr fun _ _ => JsonValue.str.inj) platforms
  have sameManifests : one.manifests = other.manifests :=
    (List.map_injective_iff.mpr fun _ _ => ManifestRecord.dict_injective) manifests
  have sameBlobs : one.blobs = other.blobs :=
    (List.map_injective_iff.mpr fun _ _ => Descriptor.dict_injective) blobs
  exact ImageSnapshot.ext source resolved destination rootDigest mediaType rootSize samePlatforms
    sameManifests sameBlobs referrers digestTags policy rfl

def text (float : ℚ → List Char) (snapshot : ImageSnapshot) : List Char :=
  dumps float (.dict (snapshot.canonical .dict))

private theorem text_injective {float : ℚ → List Char} {one other : ImageSnapshot}
    (floatFree : one.FloatFree) (otherFree : other.FloatFree)
    (same : one.text float = other.text float) : { one with digest := other.digest } = other :=
  canonical_injective (dumps_injective floatFree.dict otherFree.dict same)

end ImageSnapshot

/-- What the client takes from the text of a value, with the hash given. -/
def hashing (float : ℚ → List Char) (hash : List Char → String) (length : JsonValue → Nat) :
    JsonText :=
  { length := length
    sha256 := fun value => hash (dumps float value) }

/-- The digest of the fields of a stored snapshot. -/
def recomputedDigest (float : ℚ → List Char) (hash : List Char → String) (stored : JsonValue) :
    String :=
  "sha256:" ++ hash (dumps float
    (.dict (ImageSnapshot.fieldNames.map fun name => (name, stored.getD name .null))))

section Hash

variable {float : ℚ → List Char} {hash : List Char → String}

private theorem ImageSnapshot.digest_create {length : JsonValue → Nat} (snapshot : ImageSnapshot) :
    (create (hashing float hash length) snapshot).digest =
      "sha256:" ++ hash (snapshot.text float) :=
  rfl

private theorem ImageSnapshot.recomputedDigest_loaded (snapshot : ImageSnapshot) :
    recomputedDigest float hash snapshot.loaded = "sha256:" ++ hash (snapshot.text float) := by
  have distinct : ((snapshot.items .dict).map Prod.fst).Nodup := by
    rw [items, List.map_append, keys_canonical]
    change (fieldNames ++ ["digest"]).Nodup
    decide
  have fields := JsonValue.map_getD_dict distinct
  rw [keys_canonical] at fields
  unfold recomputedDigest text
  rw [← roundTripped_eq_loaded]
  unfold roundTripped items
  rw [fields]

private theorem created_of_snapshotOf {text : JsonText} {payload : PlanPayload} {value : JsonValue}
    {snapshot : ImageSnapshot} (made : snapshotOf text payload value = some snapshot) :
    ∃ fields, snapshot = ImageSnapshot.create text fields := by
  simp only [snapshotOf, Option.bind_eq_bind, Option.bind_eq_some_iff, Option.pure_def,
    Option.some.injEq] at made
  obtain ⟨_, _, _, _, _, _, _, _, _, _, _, _, _, _, _, _, created⟩ := made
  exact ⟨_, created.symm⟩

private theorem digest_of_plan {length : JsonValue → Nat} {payload : PlanPayload}
    {value : JsonValue}
    {snapshot : ImageSnapshot}
    (planned : plan (hashing float hash length) payload value = .ok snapshot) :
    snapshot.digest = "sha256:" ++ hash (snapshot.text float) := by
  unfold plan at planned
  split at planned
  · cases planned
  · split at planned
    · cases planned
    · split at planned
      · cases planned
      · split at planned
        · cases planned
        · rename_i made
          split at planned
          · cases planned
          · cases planned
            obtain ⟨fields, rfl⟩ := created_of_snapshotOf made
            exact fields.digest_create

end Hash

end Client

/-- The snapshot has the digest that `create` gives to its fields. -/
def ImageSnapshot.Created (float : ℚ → List Char) (hash : List Char → String)
    (snapshot : ImageSnapshot) : Prop :=
  snapshot.digest = "sha256:" ++ hash (snapshot.untyped.text float)

/-- What is saved for a job has been made by `create`, as the client makes it. -/
def SavesCreated (float : ℚ → List Char) (hash : List Char → String) (_ : System) : Action → Prop
  | .commit (.call _ _ (.saveSnapshot snapshot) _) => snapshot.Created float hash
  | _ => True

section Stored

variable {float : ℚ → List Char} {hash : List Char → String}

private theorem created_of_stored {system : System}
    (run : interleaved.Run (SavesCreated float hash) System.initial system) {job : String}
    {row : JobRow} (found : system.store.jobs.find? job = some row) {snapshot : ImageSnapshot}
    (stored : row.snapshotJson = some snapshot) : snapshot.Created float hash := by
  refine System.job_invariant
    (fun row _ => ∀ snapshot, row.snapshotJson = some snapshot → snapshot.Created float hash)
    ?_ ?_ run found snapshot stored
  · intro values job current snapshot impossible
    cases impossible
  · intro before transaction job old row blobs saves present changed created snapshot stored
    cases changed with
    | changed changed writesNone =>
        cases changed with
        | pinned => cases writesNone
        | swept | taken | beat | entered | tallied | finished | failed | givenBack | released
        | cancelWritten | retryWritten => exact created snapshot stored
    | pinned =>
        cases stored
        exact saves
    | recorded | tallied => exact created snapshot stored

/-- The digest column is the digest of the fields of the stored snapshot. -/
theorem snapshotDigest_recomputed {system : System}
    (run : interleaved.Run (SavesCreated float hash) System.initial system) {job : String}
    {row : JobRow} (found : system.store.jobs.find? job = some row) {snapshot : ImageSnapshot}
    (stored : row.snapshotJson = some snapshot) :
    row.snapshotDigest = some (Client.recomputedDigest float hash snapshot.loaded) := by
  have follows := followsSnapshot_of_found ⟨System.initial, rfl, run.always⟩ found
  rw [follows.digest, stored, Option.map_some, created_of_stored run found stored,
    ← snapshot.loaded_untyped, Client.ImageSnapshot.recomputedDigest_loaded]

end Stored

/-- The digest identifies the snapshot: the text that is hashed tells the fields apart, two
snapshots of one digest are one unless their texts collide, and the fields of a stored
snapshot have the stored digest, if what is saved is what the client returns of a plan. -/
theorem snapshot_digest_identifies (float : ℚ → List Char) (hash : List Char → String)
    (length : JsonValue → Nat) :
    (∀ one other : Client.ImageSnapshot, one.FloatFree → other.FloatFree →
      one.text float = other.text float → { one with digest := other.digest } = other) ∧
    (∀ one other : Client.ImageSnapshot, one.FloatFree → other.FloatFree →
      (hash (one.text float) = hash (other.text float) → one.text float = other.text float) →
        (one.create (Client.hashing float hash length)).digest =
            (other.create (Client.hashing float hash length)).digest →
          one.create (Client.hashing float hash length) =
            other.create (Client.hashing float hash length)) ∧
    (∀ system, interleaved.Run (SavesCreated float hash) System.initial system →
      ∀ job row snapshot, system.store.jobs.find? job = some row →
        row.snapshotJson = some snapshot →
          row.snapshotDigest = some (Client.recomputedDigest float hash snapshot.loaded)) ∧
    ∀ payload value (snapshot : ImageSnapshot),
      Client.plan (Client.hashing float hash length) payload value = .ok snapshot.untyped →
        ∀ system job token current, SavesCreated float hash system
          (.commit (.call job token (.saveSnapshot snapshot) current)) := by
  refine ⟨?_, ?_, ?_, ?_⟩
  · intro one other floatFree otherFree same
    exact Client.ImageSnapshot.text_injective floatFree otherFree same
  · intro one other floatFree otherFree noCollision sameDigest
    have sameHash : hash (one.text float) = hash (other.text float) :=
      (String.append_right_inj "sha256:").mp sameDigest
    have same := Client.ImageSnapshot.text_injective floatFree otherFree (noCollision sameHash)
    -- `create` does not look at the digest it is given
    calc
      one.create (Client.hashing float hash length)
          = { one with digest := other.digest }.create (Client.hashing float hash length) := rfl
      _ = other.create (Client.hashing float hash length) := by rw [same]
  · intro system run job row snapshot found stored
    exact snapshotDigest_recomputed run found stored
  · intro payload value snapshot planned system job token current
    exact Client.digest_of_plan planned

private theorem Descriptor.floatFree_untyped (item : Descriptor) : item.untyped.FloatFree := by
  refine ⟨.str _, .str _, ?_⟩
  change (JsonValue.ofOption (fun size : Nat => .int size) item.size).FloatFree
  cases item.size with
  | none => exact .null
  | some size => exact .int _

private theorem ManifestRecord.floatFree_untyped (item : ManifestRecord) :
    item.untyped.FloatFree := by
  have optional : ∀ text : Option String, (JsonValue.ofOption JsonValue.str text).FloatFree := by
    intro text
    cases text with
    | none => exact .null
    | some text => exact .str _
  exact ⟨.str _, .str _, .int _, .str _, optional _, optional _⟩

private theorem ImageSnapshot.floatFree_untyped (snapshot : ImageSnapshot) :
    snapshot.untyped.FloatFree := by
  refine ⟨.str _, .str _, .str _, .int _, ?_, ?_⟩
  · intro item listed
    obtain ⟨manifest, -, rfl⟩ := List.mem_map.mp listed
    exact manifest.floatFree_untyped
  · intro item listed
    obtain ⟨blob, -, rfl⟩ := List.mem_map.mp listed
    exact blob.floatFree_untyped

def otherSnapshot : ImageSnapshot := { sampleSnapshot with rootSize := 11 }

/-- SHA-256 on the texts of the two snapshots. -/
def sampleHash (text : List Char) : String :=
  if text = sampleSnapshot.untyped.text fun _ => [] then
    "e2b024beca5ceb159510380e41e469e12f55fbe8301a855c974adc013d830af2"
  else "2cb89e7d2a6e6715c189da857519b0325abae9e52544d4b9c7df6accaa631930"

/-- The first of the snapshots, as `create` makes it. -/
def createdSnapshot : ImageSnapshot :=
  { sampleSnapshot with
    digest := "sha256:e2b024beca5ceb159510380e41e469e12f55fbe8301a855c974adc013d830af2" }

def savedCreated : List Action :=
  [.commit (.enqueue sampleValues "job" 0), .commit (.claim "worker" 60 1 "token"),
    .commit (.call "job" "token" (.saveSnapshot createdSnapshot) 2)]

private theorem savedCreated_creates (system : System) {action : Action}
    (member : action ∈ savedCreated) :
    SavesCreated (fun _ => []) sampleHash system action := by
  simp only [savedCreated, List.mem_cons, List.not_mem_nil, or_false] at member
  rcases member with rfl | rfl | rfl
  · trivial
  · trivial
  · have hashed : sampleHash (createdSnapshot.untyped.text fun _ => []) =
        "e2b024beca5ceb159510380e41e469e12f55fbe8301a855c974adc013d830af2" := if_pos rfl
    change createdSnapshot.digest = "sha256:" ++ _
    rw [hashed]
    decide

theorem snapshot_digest_identifies_by_root_size :
    (sampleSnapshot.untyped.create (Client.hashing (fun _ => []) sampleHash fun _ => 0)).digest ≠
      (otherSnapshot.untyped.create (Client.hashing (fun _ => []) sampleHash fun _ => 0)).digest ∧
    ∃ system row, interleaved.Run (SavesCreated (fun _ => []) sampleHash) System.initial system ∧
      system.store.jobs.find? "job" = some row ∧ row.snapshotJson = some createdSnapshot ∧
      row.snapshotDigest =
        some (Client.recomputedDigest (fun _ => []) sampleHash createdSnapshot.loaded) := by
  have identifies := snapshot_digest_identifies (fun _ => []) sampleHash fun _ => 0
  constructor
  · intro sameDigest
    have noCollision : sampleHash (sampleSnapshot.untyped.text fun _ => []) =
        sampleHash (otherSnapshot.untyped.text fun _ => []) →
          (sampleSnapshot.untyped.text fun _ => []) = otherSnapshot.untyped.text fun _ => [] := by
      intro sameHash
      by_contra differs
      unfold sampleHash at sameHash
      rw [if_pos rfl, if_neg (Ne.symm differs)] at sameHash
      exact absurd sameHash (by decide)
    have same := identifies.2.1 _ _ sampleSnapshot.floatFree_untyped
      otherSnapshot.floatFree_untyped noCollision sameDigest
    have sameSize : JsonValue.int 10 = JsonValue.int 11 :=
      congrArg Client.ImageSnapshot.rootSize same
    cases sameSize
  · have run : ((interleaved.execute (fun _ action => action ∈ savedCreated) savedCreated
        System.initial).any fun system => (system.store.jobs.find? "job").any fun row =>
          row.snapshotJson = some createdSnapshot) = true := by decide +kernel
    obtain ⟨system, ran, stored⟩ := interleaved.exists_run_of_execute _ run
    obtain ⟨row, found, isSaved⟩ := (Option.any_eq_true _ _).mp stored
    have saved := of_decide_eq_true isSaved
    have admitted := ran.weaken (SavesCreated (fun _ => []) sampleHash) fun system action =>
      savedCreated_creates system
    exact ⟨system, row, admitted, found, saved,
      identifies.2.2.1 system admitted "job" row createdSnapshot found saved⟩

end OciTransfer
