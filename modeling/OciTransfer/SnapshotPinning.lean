import OciTransfer.BlobRows

/-!
The snapshot of a job is written once, and the blob rows always match it.

The guard of `save_snapshot` looks at the state and not at the snapshot column.
What makes the column write-once is that no transaction, in any order, brings
a row with a snapshot back to the planning state.  The blob rows are filled in
the same transaction, and later events change neither their number nor the
columns that describe them.
-/

namespace OciTransfer

/-- The part of a blob row that the snapshot fixes. -/
def BlobRow.descriptor (blob : BlobRow) : Descriptor :=
  { digest := blob.digest
    mediaType := blob.mediaType
    size := blob.size }

private theorem BlobRow.descriptors_recordIn (digest : String) (event : Event) (current : Instant)
    (blobs : List BlobRow) :
    (BlobRow.recordIn digest event current blobs).map BlobRow.descriptor =
      blobs.map BlobRow.descriptor := by
  unfold recordIn
  rw [List.map_map]
  apply List.map_congr_left
  intro blob _member
  by_cases same : blob.digest = digest
  · simp only [Function.comp_apply, if_pos same]
    rfl
  · simp only [Function.comp_apply, if_neg same]

/-- The columns that `save_snapshot` writes and the blob rows follow the stored snapshot. -/
structure JobRow.FollowsSnapshot (row : JobRow) (blobs : List BlobRow) : Prop where
  planning : row.state = .planning → row.snapshotJson = none
  digest : row.snapshotDigest = row.snapshotJson.map fun snapshot => snapshot.digest
  resolved : row.resolvedSource = row.snapshotJson.map fun snapshot => snapshot.resolvedSource
  expected : row.expectedBytes = row.snapshotJson.bind fun snapshot => snapshot.expectedBytes
  total : row.totalBlobs = row.snapshotJson.map fun snapshot => snapshot.blobs.length
  described : blobs.map BlobRow.descriptor =
    (row.snapshotJson.map fun snapshot => snapshot.blobs).getD []
  counted : row.completedBlobs ≤ blobs.length

namespace JobRow.FollowsSnapshot

theorem fresh (values : EnqueueValues) (job : String) (current : Instant) :
    (JobRow.fresh values job current).FollowsSnapshot [] where
  planning := fun impossible => by cases impossible
  digest := rfl
  resolved := rfl
  expected := rfl
  total := rfl
  described := rfl
  counted := Nat.le_refl 0

private theorem sameColumns {row after : JobRow} {blobs : List BlobRow}
    (follows : row.FollowsSnapshot blobs)
    (planning : after.state = .planning → after.snapshotJson = none)
    (stored : after.snapshotJson = row.snapshotJson)
    (digest : after.snapshotDigest = row.snapshotDigest)
    (resolved : after.resolvedSource = row.resolvedSource)
    (expected : after.expectedBytes = row.expectedBytes)
    (total : after.totalBlobs = row.totalBlobs)
    (counted : after.completedBlobs = row.completedBlobs) : after.FollowsSnapshot blobs where
  planning := planning
  digest := by rw [digest, stored, follows.digest]
  resolved := by rw [resolved, stored, follows.resolved]
  expected := by rw [expected, stored, follows.expected]
  total := by rw [total, stored, follows.total]
  described := by rw [stored, follows.described]
  counted := by rw [counted]; exact follows.counted

private theorem rowStep {transaction : Transaction} {row after : JobRow} {blobs : List BlobRow}
    (changed : RowStep transaction row after) (writesNone : transaction.writesBlobs = false)
    (follows : row.FollowsSnapshot blobs) : after.FollowsSnapshot blobs := by
  cases changed with
  | taken _eligible =>
      refine follows.sameColumns (fun planning => ?_) rfl rfl rfl rfl rfl rfl
      -- a row that has its snapshot is taken into the copying state
      cases stored : row.snapshotJson with
      | none => exact stored
      | some snapshot => simp [JobRow.take, stored] at planning
  | beat _sameId _holds _live =>
      exact follows.sameColumns follows.planning rfl rfl rfl rfl rfl rfl
  | entered _sameId _holds _named wanted =>
      refine follows.sameColumns (fun planning => ?_) rfl rfl rfl rfl rfl rfl
      obtain ⟨name, -, asked⟩ := Option.bind_eq_some_iff.mp wanted
      cases planning
      cases name <;> cases asked
  | givenBack _sameId _holds _working =>
      refine follows.sameColumns (fun planning => ?_) rfl rfl rfl rfl rfl rfl
      cases stored : row.snapshotJson <;> simp [JobRow.release, stored] at planning
  | released _owned _working =>
      refine follows.sameColumns (fun planning => ?_) rfl rfl rfl rfl rfl rfl
      cases stored : row.snapshotJson <;> simp [JobRow.release, stored] at planning
  | @finished _ _ state _ _ _ _ _sameId _holds =>
      refine follows.sameColumns (fun planning => ?_) rfl rfl rfl rfl rfl rfl
      cases state <;> cases planning
  | @failed _ _ failure _ _ _sameId _holds =>
      refine follows.sameColumns (fun planning => ?_) rfl rfl rfl rfl rfl rfl
      cases retried : failure.retryable <;> simp [JobRow.failOrRetry, retried] at planning
  | @cancelWritten _ target _ _ _sameId =>
      refine follows.sameColumns (fun planning => ?_) rfl rfl rfl rfl rfl rfl
      cases target <;> cases planning
  | swept | retryWritten =>
      exact follows.sameColumns (fun planning => by cases planning) rfl rfl rfl rfl rfl rfl
  | pinned => cases writesNone
  | tallied _sameId _holds named =>
      simp [Transaction.writesBlobs, named] at writesNone

theorem pin {row : JobRow} {blobs : List BlobRow} (follows : row.FollowsSnapshot blobs)
    (planning : row.state = .planning) (snapshot : ImageSnapshot) (job : String)
    (current : Instant) :
    (row.pin snapshot current).FollowsSnapshot
      (blobs ++ snapshot.blobs.map (.pending job current)) := by
  have noBlobs : blobs = [] := by
    have described := follows.described
    rw [follows.planning planning] at described
    exact List.map_eq_nil_iff.mp described
  subst noBlobs
  have noneDone : row.completedBlobs = 0 := Nat.le_zero.mp follows.counted
  exact
    { planning := fun impossible => by cases impossible
      digest := rfl
      resolved := rfl
      expected := rfl
      total := rfl
      described := by
        change ([] ++ snapshot.blobs.map (BlobRow.pending job current)).map BlobRow.descriptor =
          snapshot.blobs
        rw [List.nil_append, List.map_map]
        exact List.map_id _
      counted := by
        change row.completedBlobs ≤ _
        rw [noneDone]
        exact Nat.zero_le _ }

theorem step {transaction : Transaction} {row after : JobRow} {blobs blobsAfter : List BlobRow}
    (changed : JobStep transaction row blobs after blobsAfter)
    (follows : row.FollowsSnapshot blobs) :
    after.FollowsSnapshot blobsAfter := by
  cases changed with
  | changed changed writesNone => exact follows.rowStep changed writesNone
  | pinned _sameId _holds planning => exact follows.pin planning _ _ _
  | recorded _sameId _notHeld _named _member _sameDigest =>
      exact
        { follows with
          described := by rw [BlobRow.descriptors_recordIn, follows.described]
          counted := by
            unfold BlobRow.recordIn
            rw [List.length_map]
            exact follows.counted }
  | tallied _sameId _holds _named _member _sameDigest =>
      exact
        { follows with
          described := by
            rw [BlobRow.descriptors_recordIn]
            exact follows.described
          counted := List.countP_le_length }

end JobRow.FollowsSnapshot

theorem followsSnapshot_of_found {system : System} (reached : interleaved.Reachable system)
    {job : String} {row : JobRow} (found : system.store.jobs.find? job = some row) :
    row.FollowsSnapshot (system.store.jobBlobs job) := by
  obtain ⟨first, rfl, run⟩ := reached
  exact System.job_invariant JobRow.FollowsSnapshot JobRow.FollowsSnapshot.fresh
    (fun _ _ _ _ _ _ _ _ changed follows => follows.step changed) run found

/-- A stored snapshot is stored for as long as the row is. -/
theorem snapshotJson_kept {first last : System} (reached : interleaved.Reachable first)
    (run : interleaved.Run Machine.Always first last) {job : String} {earlier later : JobRow}
    (foundFirst : first.store.jobs.find? job = some earlier)
    (foundLast : last.store.jobs.find? job = some later) {snapshot : ImageSnapshot}
    (stored : earlier.snapshotJson = some snapshot) : later.snapshotJson = some snapshot := by
  refine System.job_along_run
    (fun earlier later => ∀ snapshot, earlier.1.snapshotJson = some snapshot →
      later.1.snapshotJson = some snapshot)
    (fun _ _ stored => stored)
    (fun _ _ _ toMiddle toLast snapshot stored => toLast snapshot (toMiddle snapshot stored))
    ?_ reached run foundFirst foundLast snapshot stored
  intro before transaction job old row blobs _admitted reachedBefore present changed snapshot stored
  cases changed with
  | changed changed _writesNone =>
      cases changed with
      | pinned _sameId _holds planning =>
          rw [(followsSnapshot_of_found reachedBefore present).planning planning] at stored
          cases stored
      | swept | taken | beat | entered | tallied | finished | failed | givenBack | released
      | cancelWritten | retryWritten => exact stored
  | pinned _sameId _holds planning =>
      rw [(followsSnapshot_of_found reachedBefore present).planning planning] at stored
      cases stored
  | recorded | tallied => exact stored

private theorem expectedBytes_of_descriptors {blobs : List BlobRow} {snapshot : ImageSnapshot}
    (described : blobs.map BlobRow.descriptor = snapshot.blobs) :
    snapshot.expectedBytes =
      if blobs.any fun blob => blob.size.isNone then none
      else some (blobs.map fun blob => blob.size.getD 0).sum := by
  unfold ImageSnapshot.expectedBytes
  rw [← described, List.any_map, List.map_map]
  rfl

/-- In every interleaved run, a job without a stored snapshot has no blobs.  Of
a stored snapshot the blob rows are the blobs, one row each, the totals are
those of the rows, and the columns it fixes stay until the row is deleted. -/
theorem snapshot_written_once {system : System} (reached : interleaved.Reachable system)
    {job : String} {row : JobRow} (found : system.store.jobs.find? job = some row) :
    (row.snapshotJson = none → system.store.jobBlobs job = []) ∧
    ∀ snapshot, row.snapshotJson = some snapshot →
      ((system.store.jobBlobs job).map BlobRow.descriptor = snapshot.blobs ∧
        ((system.store.jobBlobs job).map fun blob => blob.digest).Nodup) ∧
      (∃ total, row.totalBlobs = some total ∧ total = (system.store.jobBlobs job).length ∧
        row.completedBlobs ≤ total) ∧
      row.expectedBytes =
        (if (system.store.jobBlobs job).any fun blob => blob.size.isNone then none
          else some ((system.store.jobBlobs job).map fun blob => blob.size.getD 0).sum) ∧
      ∀ last later, interleaved.Run Machine.Always system last →
        last.store.jobs.find? job = some later →
        later.snapshotJson = row.snapshotJson ∧ later.snapshotDigest = row.snapshotDigest ∧
          later.resolvedSource = row.resolvedSource ∧ later.expectedBytes = row.expectedBytes ∧
          later.totalBlobs = row.totalBlobs := by
  have follows := followsSnapshot_of_found reached found
  constructor
  · intro absent
    have described := follows.described
    rw [absent] at described
    exact List.map_eq_nil_iff.mp described
  · intro snapshot stored
    have described : (system.store.jobBlobs job).map BlobRow.descriptor = snapshot.blobs := by
      rw [follows.described, stored]
      rfl
    have total : row.totalBlobs = some (system.store.jobBlobs job).length := by
      rw [follows.total, stored, ← List.length_map BlobRow.descriptor, described]
      rfl
    have expected : row.expectedBytes = snapshot.expectedBytes := by
      rw [follows.expected, stored]
      rfl
    refine ⟨⟨described, system.store.jobBlobs_digests_nodup job⟩,
      ⟨_, total, rfl, follows.counted⟩, ?_, ?_⟩
    · rw [expected]
      exact expectedBytes_of_descriptors described
    · intro last later run foundLast
      have kept := snapshotJson_kept reached run found foundLast stored
      have followsLast := followsSnapshot_of_found (reached.run run) foundLast
      have same : later.snapshotJson = row.snapshotJson := kept.trans stored.symm
      refine ⟨same, ?_, ?_, ?_, ?_⟩
      · rw [followsLast.digest, same, follows.digest]
      · rw [followsLast.resolved, same, follows.resolved]
      · rw [followsLast.expected, same, follows.expected]
      · rw [followsLast.total, same, follows.total]

/-- Two workers have claimed the job, and the second has stored its snapshot. -/
def pinnedByTheSecond : List Action :=
  [.commit (.enqueue sampleValues "job" 0), .commit (.claim "first" 1 1 "old"),
    .commit (.claim "second" 1 2000000 "new"),
    .commit (.call "job" "new" (.saveSnapshot sampleSnapshot) 2000001)]

theorem snapshot_written_once_by_the_second :
    ∃ system row, interleaved.Reachable system ∧ system.store.jobs.find? "job" = some row ∧
      (system.store.jobBlobs "job").map BlobRow.descriptor = sampleSnapshot.blobs ∧
      ∀ last later, interleaved.Run Machine.Always system last →
        last.store.jobs.find? "job" = some later → later.snapshotJson = row.snapshotJson := by
  have run :
      ((interleaved.execute Machine.Always pinnedByTheSecond System.initial).any fun system =>
      (system.store.jobs.find? "job").any fun row =>
        decide (row.snapshotJson = some sampleSnapshot)) = true := by decide
  obtain ⟨system, reached, stored⟩ := interleaved.exists_reachable_of_execute rfl run
  obtain ⟨row, found, isStored⟩ := (Option.any_eq_true _ _).mp stored
  obtain ⟨⟨described, -⟩, -, -, kept⟩ :=
    (snapshot_written_once reached found).2 sampleSnapshot (of_decide_eq_true isStored)
  exact ⟨system, row, reached, found, described,
    fun last later run foundLast => (kept last later run foundLast).1⟩

end OciTransfer
