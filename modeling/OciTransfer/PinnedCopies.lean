import OciTransfer.ExecutionSteps
import OciTransfer.JsonValue
import OciTransfer.RecordedRuns
import OciTransfer.SnapshotPinning

/-!
What the copy calls of a job carry.

A first run sends the snapshot it has planned and saved, a resumed run the one
it has loaded, and the two become JSON on different paths.  The record of a run
holds every snapshot that a transaction stores and every payload that an
execution sends.  The fenced save and the write-once column together make all
the payloads of a job the one snapshot stored for it.
-/

namespace OciTransfer

/-! ### Snapshots as JSON -/

def ReplacementPolicy.text : ReplacementPolicy → String
  | .noClobber => "no_clobber"
  | .overwrite => "overwrite"

def Descriptor.items (item : Descriptor) : List (String × JsonValue) :=
  [("digest", .str item.digest), ("media_type", .str item.mediaType),
    ("size", .ofOption (fun size : Nat => .int size) item.size)]

def ManifestRecord.items (item : ManifestRecord) : List (String × JsonValue) :=
  [("digest", .str item.digest), ("media_type", .str item.mediaType), ("size", .int item.size),
    ("kind", .str item.kind), ("subject_digest", .ofOption .str item.subjectDigest),
    ("platform", .ofOption .str item.platform)]

/-- The fields of a snapshot in their order, the nested records made dictionaries. -/
def ImageSnapshot.items (snapshot : ImageSnapshot)
    (dictionary : List (String × JsonValue) → JsonValue) : List (String × JsonValue) :=
  [("source", .str snapshot.source), ("resolved_source", .str snapshot.resolvedSource),
    ("destination", .str snapshot.destination), ("root_digest", .str snapshot.rootDigest),
    ("root_media_type", .str snapshot.rootMediaType), ("root_size", .int snapshot.rootSize),
    ("platforms", .arr (snapshot.platforms.map .str)),
    ("manifests", .arr (snapshot.manifests.map fun item => dictionary item.items)),
    ("blobs", .arr (snapshot.blobs.map fun item => dictionary item.items)),
    ("copy_referrers", .bool snapshot.copyReferrers),
    ("copy_digest_tags", .bool snapshot.copyDigestTags),
    ("replacement_policy", .str snapshot.replacementPolicy.text), ("digest", .str snapshot.digest)]

/-- What `store.snapshot` returns: `asdict`, written with sorted keys and read back. -/
def ImageSnapshot.loaded (snapshot : ImageSnapshot) : JsonValue :=
  let sorted (items : List (String × JsonValue)) : JsonValue := .dict (JsonValue.sortKeys items)
  sorted (snapshot.items sorted)

/-- What a first run makes of its plan: each `__dict__`, written and read back. -/
def ImageSnapshot.roundTripped (snapshot : ImageSnapshot) : JsonValue :=
  .dict (snapshot.items .dict)

theorem ImageSnapshot.roundTripped_eq_loaded (snapshot : ImageSnapshot) :
    snapshot.roundTripped = snapshot.loaded :=
  (JsonValue.sorted_eq_dict snapshot.items).symm

private theorem ImageSnapshot.get?_loaded (snapshot : ImageSnapshot) :
    snapshot.loaded.get? "root_digest" = some (.str snapshot.rootDigest) ∧
      snapshot.loaded.get? "resolved_source" = some (.str snapshot.resolvedSource) := by
  rw [← snapshot.roundTripped_eq_loaded]
  have distinct : ((snapshot.items .dict).map Prod.fst).Nodup := by
    change ["source", "resolved_source", "destination", "root_digest", "root_media_type",
      "root_size", "platforms", "manifests", "blobs", "copy_referrers", "copy_digest_tags",
      "replacement_policy", "digest"].Nodup
    decide
  exact ⟨JsonValue.get?_dict distinct (by simp [items]),
    JsonValue.get?_dict distinct (by simp [items])⟩

/-! ### The copy calls of an execution -/

/-- The await lies in the loop over the events of a copy call. -/
def Point.streaming : Point → Bool
  | .stream _ _ | .checkCancelled _ _ _ | .progress _ _ _ => true
  | _ => false

namespace Execution

/-- The snapshot in the payload of the copy call that the step makes, if it makes one. -/
def copyPayload (execution : Execution) (store : Store) (reading : Reading) : Option JsonValue :=
  match execution.point with
  | .loadSnapshot _ => (store.snapshot execution.job).map ImageSnapshot.loaded
  | .saveSnapshot _ planned =>
      match store.saveSnapshot execution.job execution.token planned reading.current with
      | .ok (_, true) => some planned.roundTripped
      | _ => none
  | _ => none

/-- A copy call is made exactly when the execution enters the loop over its events. -/
theorem copyPayload_isSome_iff {config : ManagerConfig} {store : Store} {execution : Execution}
    {reading : Reading} {action : Action} {point : Point}
    (stepped : execution.step config store reading = some (action, point)) :
    (execution.copyPayload store reading).isSome = true ↔
      point.streaming = true ∧ execution.point.streaming = false := by
  have advance := advance_of_step stepped
  unfold copyPayload
  generalize execution.point = here at advance ⊢
  cases advance with
  | unplanned missing | loaded missing => simp [missing, Point.streaming]
  | saved result | notSaved result | saveRaised result => simp [result, Point.streaming]
  | @detailsMissing frame | @failureRaised frame =>
      cases frame <;> simp [Frame.raised, Point.streaming]
  | _ => simp [Point.streaming]

end Execution

private theorem Store.saveSnapshot_accepted {store after : Store} {job token : String}
    {snapshot : ImageSnapshot} {current : Instant}
    (accepted : store.saveSnapshot job token snapshot current = .ok (after, true)) :
    ∃ row, after.jobs.find? job = some row ∧ row.snapshotJson = some snapshot := by
  obtain ⟨-, bound⟩ := Guards.ok_of_guard accepted
  split at bound
  · rename_i oneRow
    obtain ⟨row, found, chosen⟩ := (store.jobs.count_eq_one_iff _ job fun row chosen =>
      (JobRow.holdsClaim_iff.mp ((Bool.and_eq_true _ _).mp chosen).1).1).mp oneRow
    obtain ⟨filled, filledEq, same⟩ := Guards.ok_of_map bound
    cases same
    refine ⟨row.pin snapshot current, ?_, rfl⟩
    rw [jobs_insertBlobs job current snapshot.blobs
      ((Transaction.insertPending_eq_ok job current).mp filledEq).2]
    exact find?_updateJobs_selected found chosen
  · cases bound

/-! ### The record of a run -/

inductive CopyRecord where
  | persisted (job : String) (snapshot : ImageSnapshot)
  | copied (job : String) (payload : JsonValue)

/-- The snapshots that are stored after a move and were not before it. -/
def Store.persistedBy (before after : Store) : List CopyRecord :=
  after.jobs.rows.filterMap fun row => row.snapshotJson.bind fun snapshot =>
    if before.snapshot row.id = some snapshot then none else some (.persisted row.id snapshot)

def Deployment.copiedBy (deployment : Deployment) : Label → List CopyRecord
  | .work index reading =>
      match deployment.workers[index]? with
      | none => []
      | some execution =>
          ((execution.copyPayload deployment.system.store reading).map
            (.copied execution.job)).toList
  | _ => []

def copyReport (before : Deployment) (label : Label) (after : Deployment) : List CopyRecord :=
  before.system.store.persistedBy after.system.store ++ before.copiedBy label

private theorem Store.mem_persistedBy {before after : Store} {job : String}
    {snapshot : ImageSnapshot} :
    CopyRecord.persisted job snapshot ∈ before.persistedBy after ↔
      (∃ row, after.jobs.find? job = some row ∧ row.snapshotJson = some snapshot) ∧
        before.snapshot job ≠ some snapshot := by
  unfold persistedBy
  rw [List.mem_filterMap]
  constructor
  · rintro ⟨row, member, noted⟩
    obtain ⟨stored, storedEq, noted⟩ := Option.bind_eq_some_iff.mp noted
    split at noted
    · cases noted
    · rename_i isNew
      cases noted
      exact ⟨⟨row, after.jobs.find?_of_mem member, storedEq⟩, isNew⟩
  · rintro ⟨⟨row, found, stored⟩, isNew⟩
    have rowId : row.id = job := after.jobs.find?_key found
    refine ⟨row, after.jobs.find?_mem found, ?_⟩
    rw [stored, Option.bind_some, rowId, if_neg isNew]

private theorem Store.copied_not_persistedBy {before after : Store} {job : String}
    {payload : JsonValue} :
    CopyRecord.copied job payload ∉ before.persistedBy after := by
  intro member
  obtain ⟨row, -, noted⟩ := List.mem_filterMap.mp member
  obtain ⟨stored, -, noted⟩ := Option.bind_eq_some_iff.mp noted
  split at noted <;> cases noted

private theorem Deployment.mem_copiedBy {deployment : Deployment} {label : Label}
    {record : CopyRecord}
    (member : record ∈ deployment.copiedBy label) :
    ∃ index reading execution payload, label = .work index reading ∧
      deployment.workers[index]? = some execution ∧
      execution.copyPayload deployment.system.store reading = some payload ∧
      record = .copied execution.job payload := by
  unfold copiedBy at member
  split at member
  · rename_i index reading
    split at member
    · cases member
    · rename_i execution found
      obtain ⟨payload, sent, rfl⟩ := Option.map_eq_some_iff.mp (Option.mem_toList.mp member)
      exact ⟨index, reading, execution, payload, rfl, found, sent, rfl⟩
  · cases member

/-- What the record of a run says of the snapshots stored and sent so far. -/
structure PinnedRecord (deployment : Deployment) (log : List CopyRecord) : Prop where
  stored : ∀ job row snapshot, deployment.system.store.jobs.find? job = some row →
    row.snapshotJson = some snapshot → .persisted job snapshot ∈ log
  drawn : ∀ job snapshot, .persisted job snapshot ∈ log → job ∈ deployment.system.jobIds
  kept : ∀ job snapshot row, .persisted job snapshot ∈ log →
    deployment.system.store.jobs.find? job = some row → row.snapshotJson = some snapshot
  once : ∀ job snapshot other, .persisted job snapshot ∈ log → .persisted job other ∈ log →
    snapshot = other
  copied : ∀ job payload, .copied job payload ∈ log →
    ∃ snapshot, .persisted job snapshot ∈ log ∧ payload = snapshot.loaded

namespace PinnedRecord

variable {config : ManagerConfig} {before after : Deployment} {label : Label}
  {log : List CopyRecord}

theorem initial : PinnedRecord Deployment.initial [] where
  stored := fun _ _ _ found => by cases found
  drawn := fun _ _ member => by cases member
  kept := fun _ _ _ member => by cases member
  once := fun _ _ _ member => by cases member
  copied := fun _ _ member => by cases member

private theorem persisted_cases {job : String} {snapshot : ImageSnapshot}
    (member : .persisted job snapshot ∈ log ++ copyReport before label after) :
    .persisted job snapshot ∈ log ∨
      ∃ row, after.system.store.jobs.find? job = some row ∧ row.snapshotJson = some snapshot := by
  rcases List.mem_append.mp member with earlier | reported
  · exact Or.inl earlier
  · rcases List.mem_append.mp reported with stored | sent
    · exact Or.inr (Store.mem_persistedBy.mp stored).1
    · obtain ⟨_, _, _, _, -, -, -, impossible⟩ := Deployment.mem_copiedBy sent
      cases impossible

private theorem stored_step (record : PinnedRecord before log) {job : String} {row : JobRow}
    {snapshot : ImageSnapshot} (found : after.system.store.jobs.find? job = some row)
    (stored : row.snapshotJson = some snapshot) :
    .persisted job snapshot ∈ log ++ copyReport before label after := by
  by_cases already : before.system.store.snapshot job = some snapshot
  · obtain ⟨old, oldFound, oldStored⟩ := Option.bind_eq_some_iff.mp already
    exact List.mem_append_left _ (record.stored job old snapshot oldFound oldStored)
  · exact List.mem_append_right _ (List.mem_append_left _
      (Store.mem_persistedBy.mpr ⟨⟨row, found, stored⟩, already⟩))

private theorem kept_step (record : PinnedRecord before log)
    (reached : (deployed config).Reachable before)
    (moved : before.next config label = some after) {job : String} {row : JobRow}
    {snapshot : ImageSnapshot} (member : .persisted job snapshot ∈ log)
    (found : after.system.store.jobs.find? job = some row) : row.snapshotJson = some snapshot := by
  obtain ⟨action, -, stepped⟩ := Deployment.next_eq_some.mp moved
  have stays : interleaved.Run Machine.Always before.system before.system := Machine.Run.refl _
  rcases System.next_row stepped found with ⟨old, oldFound, -⟩ | ⟨-, undrawn, -⟩
  · exact snapshotJson_kept (Deployment.reachable_system reached) (stays.tail trivial stepped)
      oldFound found (record.kept job snapshot old member oldFound)
  · exact absurd (record.drawn job snapshot member) undrawn

/-- The payload of a copy call is the snapshot that is stored when it is made. -/
theorem copied_step (moved : before.next config label = some after)
    {job : String} {payload : JsonValue} (sent : .copied job payload ∈ before.copiedBy label) :
    ∃ snapshot, payload = snapshot.loaded ∧
      ((∃ row, before.system.store.jobs.find? job = some row ∧ row.snapshotJson = some snapshot) ∨
        ∃ row, after.system.store.jobs.find? job = some row ∧
          row.snapshotJson = some snapshot) := by
  obtain ⟨index, reading, execution, sentPayload, rfl, found, called, same⟩ :=
    Deployment.mem_copiedBy sent
  cases same
  obtain ⟨action, acted, stepped⟩ := Deployment.next_eq_some.mp moved
  simp only [Deployment.act, found, Option.bind_some] at acted
  obtain ⟨⟨stepAction, point⟩, executed, same⟩ := Option.map_eq_some_iff.mp acted
  obtain ⟨rfl, -⟩ := Prod.mk.inj same
  have advance := Execution.advance_of_step executed
  unfold Execution.copyPayload at called
  generalize execution.point = here at advance called
  cases advance with
  | @loaded details snapshot stored =>
      simp only [stored, Option.map_some, Option.some.injEq] at called
      exact ⟨snapshot, called.symm, Or.inl (Option.bind_eq_some_iff.mp stored)⟩
  | @saved details planned saved accepted =>
      simp only [accepted, Option.some.injEq] at called
      have committed : after.system.store = saved := by
        rw [System.next_commit_store stepped]
        simp only [Transaction.commit, ClaimCall.run, accepted]
      refine ⟨planned, ?_, Or.inr ?_⟩
      · rw [← called, planned.roundTripped_eq_loaded]
      · rw [committed]
        exact Store.saveSnapshot_accepted accepted
  | unplanned missing => simp [missing] at called
  | notSaved refused | saveRaised refused => simp [refused] at called
  | _ => cases called

theorem step (record : PinnedRecord before log) (reached : (deployed config).Reachable before)
    (moved : before.next config label = some after) :
    PinnedRecord after (log ++ copyReport before label after) where
  stored := fun _ _ _ found stored => record.stored_step found stored
  drawn := by
    intro job snapshot member
    obtain ⟨action, -, stepped⟩ := Deployment.next_eq_some.mp moved
    rcases persisted_cases member with earlier | ⟨row, found, -⟩
    · exact (System.next_drawn stepped).2 (record.drawn job snapshot earlier)
    · exact System.drawn_of_found
        (Deployment.reachable_system (reached.step moved)) found
  kept := by
    intro job snapshot row member found
    rcases persisted_cases member with earlier | ⟨other, otherFound, stored⟩
    · exact record.kept_step reached moved earlier found
    · rw [found] at otherFound
      cases otherFound
      exact stored
  once := by
    intro job snapshot other member otherMember
    rcases persisted_cases member with earlier | ⟨row, found, stored⟩
    · rcases persisted_cases otherMember with otherEarlier | ⟨row, found, stored⟩
      · exact record.once job snapshot other earlier otherEarlier
      · have kept := record.kept_step reached moved earlier found
        exact Option.some.inj (kept.symm.trans stored)
    · rcases persisted_cases otherMember with otherEarlier | ⟨again, foundAgain, storedAgain⟩
      · have kept := record.kept_step reached moved otherEarlier found
        exact Option.some.inj (stored.symm.trans kept)
      · rw [found] at foundAgain
        cases foundAgain
        exact Option.some.inj (stored.symm.trans storedAgain)
  copied := by
    intro job payload member
    rcases List.mem_append.mp member with earlier | reported
    · obtain ⟨snapshot, persisted, same⟩ := record.copied job payload earlier
      exact ⟨snapshot, List.mem_append_left _ persisted, same⟩
    · rcases List.mem_append.mp reported with impossible | sent
      · exact absurd impossible Store.copied_not_persistedBy
      · obtain ⟨snapshot, same, ⟨row, found, stored⟩ | ⟨row, found, stored⟩⟩ :=
          copied_step moved sent
        · exact ⟨snapshot, List.mem_append_left _ (record.stored job row snapshot found stored),
            same⟩
        · exact ⟨snapshot, record.stored_step found stored, same⟩

end PinnedRecord

/-- In every run of any number of workers, clients and other managers, each copy
call of a job carries the snapshot persisted for the job, and only one ever is. -/
theorem copies_carry_the_persisted_snapshot {config : ManagerConfig}
    {state : Deployment × List CopyRecord}
    (reached : ((deployed config).recorded copyReport).Reachable state)
    {job : String} {payload : JsonValue} (sent : .copied job payload ∈ state.2) :
    ∃ snapshot, .persisted job snapshot ∈ state.2 ∧
      (∀ other, .persisted job other ∈ state.2 → other = snapshot) ∧
      payload = snapshot.loaded ∧
      payload.get? "root_digest" = some (.str snapshot.rootDigest) ∧
      payload.get? "resolved_source" = some (.str snapshot.resolvedSource) := by
  have record : PinnedRecord state.1 state.2 := by
    refine reached.recorded_invariant PinnedRecord ?_ ?_
    · rintro deployment rfl
      exact PinnedRecord.initial
    · intro before label after log reachedBefore moved record
      exact record.step reachedBefore moved
  obtain ⟨snapshot, persisted, rfl⟩ := record.copied job payload sent
  exact ⟨snapshot, persisted, fun other member => record.once job other snapshot member persisted,
    rfl, snapshot.get?_loaded.1, snapshot.get?_loaded.2⟩

/-- Two workers plan the job with different answers, and the second saves first. -/
def plannedTwice : List Label :=
  [.environment (.commit (.enqueue sampleValues "job" 0)), .claim "manager-0" 1 1 "old",
    .work 0 (replied .done 2), .work 0 (replied .done 2), .work 0 (replied .done 2),
    .work 0 (replied .done 2), .claim "manager-1" 60 2000000 "new",
    .work 1 (replied .done 2000001), .work 1 (replied .done 2000001),
    .work 1 (replied .done 2000001), .work 1 (replied .done 2000001),
    .work 0 (replied (.planned { sampleSnapshot with rootDigest := "sha256:ee" }) 2000002),
    .work 1 (replied (.planned sampleSnapshot) 2000002), .work 1 (replied .done 2000003),
    .work 0 (replied .done 2000004)]

def CopyRecord.isCopyOf (job : String) : CopyRecord → Bool
  | .copied owner _ => owner = job
  | .persisted _ _ => false

theorem copies_carry_the_persisted_snapshot_when_planned_twice :
    ∃ state payload snapshot, ((deployed sampleConfig).recorded copyReport).Reachable state ∧
      .copied "job" payload ∈ state.2 ∧ .persisted "job" snapshot ∈ state.2 ∧
      payload = snapshot.loaded := by
  have run : ((((deployed sampleConfig).recorded copyReport).execute Machine.Always plannedTwice
      (Deployment.initial, [])).any fun state =>
        state.2.any fun record => record.isCopyOf "job") = true := by decide +kernel
  have started : ((deployed sampleConfig).recorded copyReport).start (Deployment.initial, []) :=
    ⟨rfl, rfl⟩
  obtain ⟨state, reached, logged⟩ := Machine.exists_reachable_of_execute _ started run
  obtain ⟨record, member, isCopy⟩ := List.any_eq_true.mp logged
  cases record with
  | persisted job snapshot => cases isCopy
  | copied job payload =>
      cases of_decide_eq_true isCopy
      obtain ⟨snapshot, persisted, -, same, -⟩ :=
        copies_carry_the_persisted_snapshot reached member
      exact ⟨state, payload, snapshot, reached, member, persisted, same⟩

end OciTransfer
