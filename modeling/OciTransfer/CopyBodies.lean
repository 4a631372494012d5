import OciTransfer.JsonOrder
import OciTransfer.PinnedCopies
import OciTransfer.WireFormat

/-!
The bodies of copy requests.

The column holds the snapshot with its keys sorted, and a resumed run sends what it reads
there; a first run sends the fields in the order of the classes.  The two bodies are not
the same bytes, but they are equally long and mean the same, so a copy that has once been
sent is never too large to be resumed.
-/

namespace OciTransfer

open JsonValue

/-- The fields of a snapshot and of the records in it in their order: what `json.loads`
makes of `json.dumps(planned, default=...)`. -/
def ImageSnapshot.ordered (snapshot : ImageSnapshot) : JsonValue := .obj (snapshot.items .obj)

/-- `json.dumps(planned, default=...)`. -/
def ImageSnapshot.plannedText (float : ℚ → List Char) (snapshot : ImageSnapshot) : List Char :=
  (Style.spaced float).write snapshot.ordered

/-- The column `snapshot_json`: `asdict` with sorted keys and without blanks. -/
def ImageSnapshot.columnText (float : ℚ → List Char) (snapshot : ImageSnapshot) : List Char :=
  dumps float snapshot.loaded

namespace Client

/-- `_credential_dict` in the order it is written in. -/
def RegistryCredentials.ordered (credentials : RegistryCredentials) : JsonValue :=
  .obj [("username", .str credentials.username), ("password", .str credentials.password),
    ("expires_at", .ofOption .str credentials.expiresAt)]

def orderedPayload (snapshot : JsonValue)
    (sourceCredentials destinationCredentials : Option RegistryCredentials) : JsonValue :=
  .obj [("protocol_version", .int 1), ("snapshot", snapshot),
    ("source_credentials", .ofOption RegistryCredentials.ordered sourceCredentials),
    ("destination_credentials", .ofOption RegistryCredentials.ordered destinationCredentials)]

/-- `_encode`; the error is a `ValueError`. -/
def encode (float : ℚ → List Char) (payload : JsonValue) : Except String (List UInt8) :=
  let body := utf8 ((Style.compact float).write payload)
  if maxResponse < body.length then .error "request is too large" else .ok body

end Client

def CanonicalFields {α : Type} (fields : α → List (String × JsonValue)) : Prop :=
  ∀ item, ((fields item).map Prod.fst).Nodup ∧ ∀ entry ∈ fields item, entry.2.Canonical

private theorem canonical_ofOption {α : Type} {encode : α → JsonValue}
    (canonical : ∀ value, (encode value).Canonical) (given : Option α) :
    (JsonValue.ofOption encode given).Canonical := by
  cases given with
  | none => exact .null
  | some value => exact canonical value

private theorem Descriptor.canonical_items : CanonicalFields Descriptor.items := by
  intro item
  refine ⟨by change ["digest", "media_type", "size"].Nodup; decide, ?_⟩
  simp only [items, List.forall_mem_cons]
  exact ⟨.str _, .str _, canonical_ofOption (fun size => .int _) _,
    List.forall_mem_nil _⟩

private theorem ManifestRecord.canonical_items : CanonicalFields ManifestRecord.items := by
  intro item
  refine ⟨by
    change ["digest", "media_type", "size", "kind", "subject_digest", "platform"].Nodup
    decide, ?_⟩
  simp only [items, List.forall_mem_cons]
  exact ⟨.str _, .str _, .int _, .str _, canonical_ofOption .str _, canonical_ofOption .str _,
    List.forall_mem_nil _⟩

private theorem canonEntries_of_canonical {entries : List (String × JsonValue)}
    (canonical : ∀ entry ∈ entries, entry.2.Canonical) : canonEntries entries = entries := by
  rw [canonEntries_eq]
  refine (List.map_congr_left fun entry member => ?_).trans (List.map_id' entries)
  rw [(canonical entry member).canon_eq]

section Records

variable {α : Type} {fields : α → List (String × JsonValue)}

private theorem canonical_records (canonical : CanonicalFields fields) (records : List α) :
    (JsonValue.arr (records.map fun item => .dict (fields item))).Canonical := by
  refine .arr fun value member => ?_
  obtain ⟨item, -, rfl⟩ := List.mem_map.mp member
  exact .dict (canonical item).1 (canonical item).2

private theorem regular_records (canonical : CanonicalFields fields) (records : List α) :
    (JsonValue.arr (records.map fun item => .obj (fields item))).Regular := by
  refine .arr fun value member => ?_
  obtain ⟨item, -, rfl⟩ := List.mem_map.mp member
  exact .obj (canonical item).1 fun entry listed => ((canonical item).2 entry listed).regular

private theorem canon_records (canonical : CanonicalFields fields) (records : List α) :
    (JsonValue.arr (records.map fun item => .obj (fields item))).canon =
      .arr (records.map fun item => .dict (fields item)) := by
  rw [canon, canonItems_eq, List.map_map]
  refine congrArg JsonValue.arr (List.map_congr_left fun item _ => ?_)
  exact congrArg JsonValue.dict (canonEntries_of_canonical (canonical item).2)

end Records

private theorem canonical_texts (texts : List String) :
    (JsonValue.arr (texts.map JsonValue.str)).Canonical := by
  refine .arr fun value member => ?_
  obtain ⟨text, -, rfl⟩ := List.mem_map.mp member
  exact .str text

namespace ImageSnapshot

variable (snapshot : ImageSnapshot)

private theorem distinct_items (dictionary : List (String × JsonValue) → JsonValue) :
    ((snapshot.items dictionary).map Prod.fst).Nodup := by
  change ["source", "resolved_source", "destination", "root_digest", "root_media_type",
    "root_size", "platforms", "manifests", "blobs", "copy_referrers", "copy_digest_tags",
    "replacement_policy", "digest"].Nodup
  decide

private theorem canonical_loaded : snapshot.loaded.Canonical := by
  rw [← snapshot.roundTripped_eq_loaded]
  refine .dict (snapshot.distinct_items .dict) ?_
  simp only [items, List.forall_mem_cons]
  exact ⟨.str _, .str _, .str _, .str _, .str _, .int _, canonical_texts _,
    canonical_records ManifestRecord.canonical_items _,
    canonical_records Descriptor.canonical_items _,
    .bool _, .bool _, .str _, .str _, List.forall_mem_nil _⟩

private theorem regular_ordered : snapshot.ordered.Regular := by
  refine .obj (snapshot.distinct_items .obj) ?_
  simp only [items, List.forall_mem_cons]
  exact ⟨.str _, .str _, .str _, .str _, .str _, .int _, (canonical_texts _).regular,
    regular_records ManifestRecord.canonical_items _, regular_records Descriptor.canonical_items _,
    .bool _, .bool _, .str _, .str _, List.forall_mem_nil _⟩

private theorem canon_ordered : snapshot.ordered.canon = snapshot.loaded := by
  rw [← snapshot.roundTripped_eq_loaded]
  refine congrArg JsonValue.dict ?_
  simp only [items, canonEntries, canon_records ManifestRecord.canonical_items,
    canon_records Descriptor.canonical_items, (canonical_texts _).canon_eq]
  simp only [canon]

end ImageSnapshot

namespace Client

private theorem RegistryCredentials.canonical_items (credentials : RegistryCredentials) :
    ∀ entry ∈ [("username", JsonValue.str credentials.username),
      ("password", .str credentials.password),
      ("expires_at", .ofOption .str credentials.expiresAt)], entry.2.Canonical := by
  simp only [List.forall_mem_cons]
  exact ⟨.str _, .str _, canonical_ofOption .str _, List.forall_mem_nil _⟩

private theorem RegistryCredentials.regular_ordered (given : Option RegistryCredentials) :
    (JsonValue.ofOption RegistryCredentials.ordered given).Regular := by
  cases given with
  | none => exact .null
  | some credentials =>
      refine .obj (by change ["username", "password", "expires_at"].Nodup; decide) ?_
      exact fun entry member => (credentials.canonical_items entry member).regular

private theorem RegistryCredentials.canon_ordered (given : Option RegistryCredentials) :
    (JsonValue.ofOption RegistryCredentials.ordered given).canon =
      .ofOption RegistryCredentials.json given := by
  cases given with
  | none => rfl
  | some credentials =>
      exact congrArg JsonValue.dict (canonEntries_of_canonical credentials.canonical_items)

variable {snapshot : JsonValue} (source destination : Option RegistryCredentials)

private theorem regular_orderedPayload (regular : snapshot.Regular) :
    (orderedPayload snapshot source destination).Regular := by
  refine .obj ?_ ?_
  · change ["protocol_version", "snapshot", "source_credentials", "destination_credentials"].Nodup
    decide
  · simp only [List.forall_mem_cons]
    exact ⟨.int 1, regular, RegistryCredentials.regular_ordered source,
      RegistryCredentials.regular_ordered destination, List.forall_mem_nil _⟩

private theorem canon_orderedPayload :
    (orderedPayload snapshot source destination).canon =
      copyPayload snapshot.canon source destination := by
  refine congrArg JsonValue.dict ?_
  simp only [canonEntries, RegistryCredentials.canon_ordered]
  simp only [canon]

end Client

/-- Both payloads are refused as too large, or both are sent, in equally many bytes that
the service reads and that mean the same. -/
structure SentAlike (float : ℚ → List Char) (readFloat : List Char → JsonValue)
    (payload first resumed : JsonValue) : Prop where
  refused : ∀ error, Client.encode float first = .error error ↔
    Client.encode float resumed = .error error
  sent : ∀ body, Client.encode float first = .ok body → ∃ other,
    Client.encode float resumed = .ok other ∧ body.length = other.length ∧
    body.length ≤ Wire.maxBody ∧ loadsUtf8 readFloat body = some payload ∧
    loadsUtf8 readFloat other = some payload

private theorem sentAlike {float : ℚ → List Char} (readFloat : List Char → JsonValue)
    {payload first resumed : JsonValue} (regular : first.Regular) (otherRegular : resumed.Regular)
    (means : first.canon = payload) (meansToo : resumed.canon = payload) :
    SentAlike float readFloat payload first resumed := by
  have alike := length_utf8_write (Style.compact float) regular otherRegular
    (means.trans meansToo.symm)
  constructor
  · intro error
    simp only [Client.encode, alike]
    by_cases long : Client.maxResponse < (utf8 ((Style.compact float).write resumed)).length
    · rw [if_pos long, if_pos long]
    · rw [if_neg long, if_neg long]
      constructor <;> intro impossible <;> cases impossible
  · intro body sent
    simp only [Client.encode] at sent ⊢
    split at sent
    · cases sent
    · rename_i short
      cases sent
      rw [alike] at short
      refine ⟨_, if_neg short, alike, ?_, ?_, ?_⟩
      · rw [alike]
        exact Nat.not_lt.mp short
      · rw [loadsUtf8_write readFloat _ regular, means]
      · rw [loadsUtf8_write readFloat _ otherRegular, meansToo]

/-- In every run, with whatever credentials a copy call of a job is made: the column reads
back to what the call carries, as does the text that a first run makes of its plan; and a
first run's request is refused as too large if and only if a resumed run's is, and else
takes as many bytes, which the service reads to the same value. -/
theorem resumed_copies_are_sent_alike {config : ManagerConfig}
    {state : Deployment × List CopyRecord}
    (reached : ((deployed config).recorded copyReport).Reachable state)
    {job : String} {payload : JsonValue} (called : .copied job payload ∈ state.2)
    (float : ℚ → List Char) (readFloat : List Char → JsonValue)
    (source destination : Option Client.RegistryCredentials) :
    ∃ snapshot : ImageSnapshot, .persisted job snapshot ∈ state.2 ∧
      loads readFloat (snapshot.columnText float) = some payload ∧
      loads readFloat (snapshot.plannedText float) = some payload ∧
      SentAlike float readFloat (Client.copyPayload payload source destination)
        (Client.orderedPayload snapshot.ordered source destination)
        (Client.orderedPayload snapshot.loaded source destination) := by
  have record : PinnedRecord state.1 state.2 := by
    refine reached.recorded_invariant PinnedRecord ?_ ?_
    · rintro deployment rfl
      exact PinnedRecord.initial
    · intro before label after log reachedBefore moved record
      exact record.step reachedBefore moved
  obtain ⟨snapshot, persisted, rfl⟩ := record.copied job payload called
  have canonical := snapshot.canonical_loaded
  refine ⟨snapshot, persisted, loads_dumps float readFloat canonical, ?_,
    sentAlike readFloat (Client.regular_orderedPayload source destination snapshot.regular_ordered)
      (Client.regular_orderedPayload source destination canonical.regular) ?_ ?_⟩
  · unfold ImageSnapshot.plannedText
    rw [loads_write _ readFloat snapshot.regular_ordered, snapshot.canon_ordered]
  · rw [Client.canon_orderedPayload, snapshot.canon_ordered]
  · rw [Client.canon_orderedPayload, canonical.canon_eq]

theorem resumed_copies_are_sent_alike_when_planned_twice :
    ∃ state payload, ((deployed sampleConfig).recorded copyReport).Reachable state ∧
      .copied "job" payload ∈ state.2 ∧ ∃ snapshot : ImageSnapshot,
        .persisted "job" snapshot ∈ state.2 ∧
        loads (fun _ => .null) (snapshot.columnText fun _ => []) = some payload ∧
        SentAlike (fun _ => []) (fun _ => .null)
          (Client.copyPayload payload none (some ⟨"user", "pass", none⟩))
          (Client.orderedPayload snapshot.ordered none (some ⟨"user", "pass", none⟩))
          (Client.orderedPayload snapshot.loaded none (some ⟨"user", "pass", none⟩)) := by
  have run : ((((deployed sampleConfig).recorded copyReport).execute Machine.Always plannedTwice
      (Deployment.initial, [])).any fun state =>
        state.2.any fun record => record.isCopyOf "job") = true := by decide +kernel
  have started : ((deployed sampleConfig).recorded copyReport).start (Deployment.initial, []) :=
    ⟨rfl, rfl⟩
  obtain ⟨state, reached, logged⟩ := Machine.exists_reachable_of_execute _ started run
  obtain ⟨record, member, isCopy⟩ := List.any_eq_true.mp logged
  cases record with
  | persisted job snapshot => cases isCopy
  | copied job payload =>
      cases of_decide_eq_true isCopy
      obtain ⟨snapshot, persisted, column, -, alike⟩ :=
        resumed_copies_are_sent_alike reached member (fun _ => []) (fun _ => .null) none
          (some ⟨"user", "pass", none⟩)
      exact ⟨state, payload, reached, member, snapshot, persisted, column, alike⟩

end OciTransfer
