import OciTransfer.QueueRuns

/-!
What `prune` lists and what it removes.

The counts of a result come from queries that run before the `DELETE`, and the rows
of the other two tables go by the cascade of the foreign keys.  A preview runs the
same queries and leaves out the `DELETE`.  They name every job by a parameter; the
bound that SQLite has on these is left out.
-/

namespace OciTransfer

namespace Store

/-- The row passes both filters of `prune`; an empty tuple of states is no filter. -/
structure PruneMatches (states : Option (List JobState)) (olderThan : Option String)
    (row : JobRow) : Prop where
  state : states.getD [] = [] ∨ row.state ∈ states.getD []
  age : ∀ cutoff, olderThan = some cutoff →
    ∃ instant, row.completedAt = some instant ∧ timestamp instant < cutoff

theorem prunable_iff {states : Option (List JobState)} {olderThan : Option String} {row : JobRow} :
    prunable states olderThan row = true ↔
      row.state.terminal = true ∧ PruneMatches states olderThan row := by
  unfold prunable
  rw [Bool.and_eq_true, Bool.and_eq_true, Bool.or_eq_true, List.isEmpty_iff, List.contains_iff_mem]
  constructor
  · rintro ⟨⟨terminal, state⟩, age⟩
    refine ⟨terminal, state, ?_⟩
    rintro cutoff rfl
    obtain ⟨instant, completed, before⟩ := (Option.any_eq_true _ _).mp age
    exact ⟨instant, completed, of_decide_eq_true before⟩
  · rintro ⟨terminal, state, age⟩
    refine ⟨⟨terminal, state⟩, ?_⟩
    cases olderThan with
    | none => rfl
    | some cutoff =>
        obtain ⟨instant, completed, before⟩ := age cutoff rfl
        exact (Option.any_eq_true _ _).mpr ⟨instant, completed, decide_eq_true before⟩

def pruneResult (store : Store) (ids : List String) (dryRun : Bool) : PruneResult :=
  { jobIds := ids
    jobs := ids.length
    errors := store.errors.countP fun error => ids.contains error.jobId
    blobs := store.blobs.rows.countP fun blob => ids.contains blob.jobId
    snapshots := store.jobs.rows.countP fun row => ids.contains row.id && row.snapshotJson.isSome
    dryRun := dryRun }

variable {store after : Store} {states : Option (List JobState)} {olderThan : Option String}

def prunableIds (store : Store) (states : Option (List JobState)) (olderThan : Option String) :
    List String :=
  (store.jobs.rows.filter (prunable states olderThan)).map (·.id)

/-- Filters that `prune` accepts in one mode it accepts in both, with one result. -/
theorem prune_modes {dryRun : Bool} {outcome : Store × PruneResult}
    (accepted : store.prune states olderThan dryRun = .ok outcome) (mode : Bool) :
    store.prune states olderThan mode =
      .ok (if mode then store
          else store.deleteJobs fun row => (store.prunableIds states olderThan).contains row.id,
        store.pruneResult (store.prunableIds states olderThan) mode) := by
  unfold prune at accepted ⊢
  split at accepted
  · cases accepted
  · rename_i filtered
    split at accepted
    · cases accepted
    · rename_i allTerminal
      rw [if_neg filtered, if_neg allTerminal]
      cases mode <;> rfl

theorem id_mem_prunableIds {row : JobRow} (member : row ∈ store.jobs.rows) :
    row.id ∈ store.prunableIds states olderThan ↔ prunable states olderThan row = true := by
  unfold prunableIds
  constructor
  · intro listed
    obtain ⟨other, selected, sameId⟩ := List.mem_map.mp listed
    obtain ⟨present, passes⟩ := List.mem_filter.mp selected
    rw [← store.jobs.key_injective present member sameId]
    exact passes
  · intro passes
    exact List.mem_map_of_mem (List.mem_filter.mpr ⟨member, passes⟩)

private theorem nodup_prunableIds : (store.prunableIds states olderThan).Nodup :=
  (List.filter_sublist.map JobRow.key).nodup store.jobs.distinct

private theorem cascade_ids {α : Type} (owner : α → String) (items : List α)
    (owned : ∀ item ∈ items, ∃ row ∈ store.jobs.rows, row.id = owner item) (ids : List String) :
    (items.filter fun item => store.jobs.rows.any fun row =>
        row.id = owner item && !ids.contains row.id) =
      items.filter fun item => !ids.contains (owner item) := by
  refine List.filter_congr fun item member => ?_
  obtain ⟨row, present, sameId⟩ := owned item member
  rw [Bool.eq_iff_iff, List.any_eq_true]
  constructor
  · rintro ⟨other, -, both⟩
    obtain ⟨same, notListed⟩ := (Bool.and_eq_true _ _).mp both
    rw [← of_decide_eq_true same]
    exact notListed
  · intro notListed
    exact ⟨row, present, by rw [sameId, decide_eq_true rfl, notListed]; rfl⟩

/-- What a prune of these ids leaves. -/
structure PruneLeaves (before after : Store) (ids : List String) : Prop where
  jobs : after.jobs.rows = before.jobs.rows.filter fun row => !ids.contains row.id
  blobs : after.blobs.rows = before.blobs.rows.filter fun blob => !ids.contains blob.jobId
  errors : after.errors = before.errors.filter fun error => !ids.contains error.jobId
  sequence : after.errorSequence = before.errorSequence
  blobsOwned : ∀ blob ∈ after.blobs.rows, ∃ row ∈ after.jobs.rows, row.id = blob.jobId
  errorsOwned : ∀ error ∈ after.errors, ∃ row ∈ after.jobs.rows, row.id = error.jobId

private theorem deleteJobs_leaves (store : Store) (ids : List String) :
    store.PruneLeaves (store.deleteJobs fun row => ids.contains row.id) ids where
  jobs := rfl
  blobs := by
    have cascaded := cascade_ids BlobRow.jobId store.blobs.rows store.blobsOwned ids
    unfold deleteJobs KeyedTable.delete
    simp only [Bool.not_not]
    exact cascaded
  errors := cascade_ids ErrorRow.jobId store.errors store.errorsOwned ids
  sequence := rfl
  blobsOwned := (store.deleteJobs _).blobsOwned
  errorsOwned := (store.deleteJobs _).errorsOwned

/-- The rows that a prune of these ids removes, counted. -/
structure PruneCounts (before : Store) (result : PruneResult) : Prop where
  jobs : result.jobs = (before.jobs.rows.filter fun row => result.jobIds.contains row.id).length
  errors : result.errors =
    (before.errors.filter fun error => result.jobIds.contains error.jobId).length
  blobs : result.blobs =
    (before.blobs.rows.filter fun blob => result.jobIds.contains blob.jobId).length
  snapshots : result.snapshots =
    ((before.jobs.rows.filter fun row => result.jobIds.contains row.id).filter fun row =>
      row.snapshotJson.isSome).length

private theorem pruneResult_counts (store : Store) (states : Option (List JobState))
    (olderThan : Option String) (dryRun : Bool) :
    store.PruneCounts (store.pruneResult (store.prunableIds states olderThan) dryRun) where
  jobs := by
    have removed : (store.jobs.rows.filter fun row =>
        (store.prunableIds states olderThan).contains row.id) =
          store.jobs.rows.filter (prunable states olderThan) := by
      refine List.filter_congr fun row member => ?_
      rw [Bool.eq_iff_iff, List.contains_iff_mem, id_mem_prunableIds member]
    change (store.prunableIds states olderThan).length = _
    simp only [pruneResult, removed]
    exact List.length_map _
  errors := List.countP_eq_length_filter
  blobs := List.countP_eq_length_filter
  snapshots := by
    rw [List.filter_filter, ← List.countP_eq_length_filter]
    simp only [pruneResult, Bool.and_comm]

theorem not_mem_pruned_iff {result : PruneResult}
    (pruned : store.prune states olderThan false = .ok (after, result)) {row : JobRow}
    (member : row ∈ store.jobs.rows) :
    row ∉ after.jobs.rows ↔ row.state.terminal = true ∧ PruneMatches states olderThan row := by
  have outcome := prune_modes pruned false
  rw [pruned] at outcome
  cases outcome
  rw [← prunable_iff, ← id_mem_prunableIds member]
  change row ∉ store.jobs.rows.filter (fun row =>
    !(store.prunableIds states olderThan).contains row.id) ↔ _
  simp [member]

/-- A preview leaves the queue alone and reports what the prune would; the prune
removes the jobs that pass both filters with their blob and error rows, and counts
what it removes. -/
theorem prune_preview_is_true {dryRun : Bool} {outcome : Store × PruneResult}
    (accepted : store.prune states olderThan dryRun = .ok outcome) :
    ∃ after result,
      store.prune states olderThan true = .ok (store, { result with dryRun := true }) ∧
      store.prune states olderThan false = .ok (after, result) ∧
      (∀ id, id ∈ result.jobIds ↔ ∃ row ∈ store.jobs.rows, row.id = id ∧
        row.state.terminal = true ∧ PruneMatches states olderThan row) ∧
      result.jobIds.Nodup ∧ store.PruneLeaves after result.jobIds ∧ store.PruneCounts result := by
  refine ⟨_, store.pruneResult (store.prunableIds states olderThan) false,
    prune_modes accepted true,
    prune_modes accepted false, ?_, nodup_prunableIds, store.deleteJobs_leaves _,
    store.pruneResult_counts states olderThan false⟩
  intro id
  change id ∈ (store.jobs.rows.filter (prunable states olderThan)).map (·.id) ↔ _
  simp only [List.mem_map, List.mem_filter, prunable_iff]
  constructor
  · rintro ⟨row, ⟨member, terminal, passes⟩, sameId⟩
    exact ⟨row, member, sameId, terminal, passes⟩
  · rintro ⟨row, member, sameId, terminal, passes⟩
    exact ⟨row, ⟨member, terminal, passes⟩, sameId⟩

end Store

def cancelledJob : Store :=
  (Transaction.cancelWrite "first" .cancelled 1).commit
    ((Transaction.enqueue { sampleValues with destination := "c.example/x:v1" } "second" 0).commit
      ((Transaction.enqueue sampleValues "first" 0).commit Store.empty))

theorem prune_preview_is_true_for_cancelled_job :
    ∃ after result,
      cancelledJob.prune (some [.cancelled]) none true =
        .ok (cancelledJob, { result with dryRun := true }) ∧
      cancelledJob.prune (some [.cancelled]) none false = .ok (after, result) ∧
      result.jobIds = ["first"] ∧ after.jobs.rows.map (·.id) = ["second"] := by
  have accepted : cancelledJob.prune (some [.cancelled]) none true =
      .ok (cancelledJob, cancelledJob.pruneResult ["first"] true) := rfl
  obtain ⟨after, result, preview, pruned, -, -, leaves, -⟩ := Store.prune_preview_is_true accepted
  have ids : result.jobIds = ["first"] := by
    rw [accepted] at preview
    exact congrArg (fun outcome => outcome.2.jobIds) (Except.ok.inj preview).symm
  refine ⟨after, result, preview, pruned, ids, ?_⟩
  rw [leaves.jobs, ids]
  decide

end OciTransfer
