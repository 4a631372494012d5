import OciTransfer.QueueRuns

/-!
What one committed transaction does to a job together with its blob rows.

Two methods write the second table: `save_snapshot` fills it for its job, and
a blob event changes one row of it, whether or not the event comes under the
job's token.  `JobStep` lists every way in which a transaction changes a job
and its blobs, and `commit_job` says that the list is complete.  A relation
that every listed step keeps relates a job to itself along every run.
-/

namespace OciTransfer

structure BlobTotals where
  bytes : Nat
  networkBytes : Nat
  finished : Nat
  deriving DecidableEq, Repr

def BlobTotals.of (blobs : List BlobRow) : BlobTotals :=
  { bytes := (blobs.map fun blob => blob.offset).sum
    networkBytes := (blobs.map fun blob => blob.networkOffset).sum
    finished := blobs.countP fun blob => blob.disposition.done }

/-- The sums over the `copy_blobs` rows of a job. -/
def Store.totals (store : Store) (job : String) : BlobTotals :=
  BlobTotals.of (store.jobBlobs job)

/-- The blob rows of a job after an event for one of them. -/
def BlobRow.recordIn (digest : String) (event : Event) (current : Instant)
    (blobs : List BlobRow) : List BlobRow :=
  blobs.map fun blob => if blob.digest = digest then blob.record event current else blob

/-- The columns of a job after an event for one of its blobs under its token. -/
def JobRow.tallied (row : JobRow) (blobs : List BlobRow) (event : Event) (progressed : Bool)
    (current : Instant) : JobRow :=
  row.tally (BlobTotals.of blobs).bytes (BlobTotals.of blobs).networkBytes
    (BlobTotals.of blobs).finished event.bytesPerSecond progressed current

def Transaction.writesBlobs : Transaction → Bool
  | .call _ _ (.saveSnapshot _) _ => true
  | .call _ _ (.progress event) _ => event.namedDigest.isSome
  | _ => false

/-- A change of a job row and its blob rows by a transaction. -/
inductive JobStep : Transaction → JobRow → List BlobRow → JobRow → List BlobRow → Prop where
  | changed {transaction row after blobs} :
      RowStep transaction row after → transaction.writesBlobs = false →
      JobStep transaction row blobs after blobs
  | pinned {job token snapshot current row blobs} :
      row.id = job → row.claimToken = some token → row.state = .planning →
      JobStep (.call job token (.saveSnapshot snapshot) current) row blobs
        (row.pin snapshot current) (blobs ++ snapshot.blobs.map (.pending job current))
  | recorded {job token digest event current row blob blobs} :
      row.id = job → row.claimToken ≠ some token → event.namedDigest = some digest →
      blob ∈ blobs → blob.digest = digest →
      JobStep (.call job token (.progress event) current) row blobs
        row (BlobRow.recordIn digest event current blobs)
  | tallied {job token digest event current row blob blobs} :
      row.id = job → row.claimToken = some token → event.namedDigest = some digest →
      blob ∈ blobs → blob.digest = digest →
      JobStep (.call job token (.progress event) current) row blobs
        (row.tallied (BlobRow.recordIn digest event current blobs) event
          (blob.progressedBy event) current)
        (BlobRow.recordIn digest event current blobs)

/-! ### The blob rows of one job -/

namespace Store

theorem mem_jobBlobs {store : Store} {job : String} {blob : BlobRow} :
    blob ∈ store.jobBlobs job ↔ blob ∈ store.blobs.rows ∧ blob.jobId = job := by
  unfold jobBlobs
  rw [List.mem_filter, decide_eq_true_iff]

private theorem jobBlobs_congr {store other : Store} (same : other.blobs = store.blobs)
    (job : String) :
    other.jobBlobs job = store.jobBlobs job := by
  unfold jobBlobs
  rw [same]

@[simp] theorem jobBlobs_updateJobs (store : Store) (selected : JobRow → Bool)
    (change : JobRow → JobRow) (keepsKey : ∀ row, (change row).key = row.key) (job : String) :
    (store.updateJobs selected change keepsKey).jobBlobs job = store.jobBlobs job := rfl

theorem find?_blob {store : Store} {job digest : String} {blob : BlobRow}
    (found : store.blobs.find? (job, digest) = some blob) :
    blob ∈ store.jobBlobs job ∧ blob.digest = digest := by
  have sameKey := store.blobs.find?_key found
  exact ⟨mem_jobBlobs.mpr ⟨store.blobs.find?_mem found, congrArg Prod.fst sameKey⟩,
    congrArg Prod.snd sameKey⟩

theorem find?_of_mem_jobBlobs {store : Store} {job : String} {blob : BlobRow}
    (member : blob ∈ store.jobBlobs job) : store.blobs.find? (job, blob.digest) = some blob := by
  obtain ⟨present, owner⟩ := mem_jobBlobs.mp member
  rw [← owner]
  exact store.blobs.find?_of_mem present

theorem jobBlobs_digests_nodup (store : Store) (job : String) :
    ((store.jobBlobs job).map fun blob => blob.digest).Nodup := by
  have keys : ((store.jobBlobs job).map BlobRow.key).Nodup :=
    (List.filter_sublist.map BlobRow.key).nodup store.blobs.distinct
  have sameJob : (store.jobBlobs job).map BlobRow.key =
      ((store.jobBlobs job).map fun blob => blob.digest).map fun digest => (job, digest) := by
    rw [List.map_map]
    apply List.map_congr_left
    intro blob member
    exact Prod.ext (mem_jobBlobs.mp member).2 rfl
  rw [sameJob] at keys
  exact List.Nodup.of_map _ keys

theorem jobBlobs_unowned {store : Store} {job : String} (absent : store.jobs.find? job = none) :
    store.jobBlobs job = [] := by
  refine List.filter_eq_nil_iff.mpr fun blob member isOwned => ?_
  obtain ⟨row, rowMember, sameId⟩ := store.blobsOwned blob member
  exact store.jobs.find?_eq_none.mp absent row rowMember
    (sameId.trans (of_decide_eq_true isOwned))

private theorem jobBlobs_deleteJobs {store : Store} {selected : JobRow → Bool} {job : String}
    {row : JobRow}
    (found : (store.deleteJobs selected).jobs.find? job = some row) :
    (store.deleteJobs selected).jobBlobs job = store.jobBlobs job := by
  have remaining : (store.deleteJobs selected).blobs.rows =
      store.blobs.rows.filter fun blob => store.jobs.rows.any fun other =>
        other.id = blob.jobId && !selected other := by
    apply List.filter_congr
    intro blob _member
    exact Bool.not_not _
  unfold jobBlobs
  rw [remaining]
  exact cascade_spares found BlobRow.jobId store.blobs.rows

theorem blobs_updateBlobs (store : Store) (selected : BlobRow → Bool)
    (change : BlobRow → BlobRow) (keepsKey : ∀ row, (change row).key = row.key) :
    (store.updateBlobs selected change keepsKey).blobs =
      store.blobs.update selected change keepsKey := rfl

private theorem blobs_insertJob? {store inserted : Store} {row : JobRow}
    (accepted : store.insertJob? row = some inserted) : inserted.blobs = store.blobs :=
  (insertJob?_some accepted).blobs

private theorem blobs_insertError? {store logged : Store} {error : ErrorRow}
    (accepted : store.insertError? error = some logged) : logged.blobs = store.blobs :=
  (insertError?_some accepted).blobs

private theorem jobBlobs_recordBlob (store : Store) (job digest : String) (event : Event)
    (current : Instant) :
    (store.recordBlob job digest event current).jobBlobs job =
      BlobRow.recordIn digest event current (store.jobBlobs job) := by
  change (store.blobs.rows.map fun blob =>
      if decide (blob.key = (job, digest)) = true then blob.record event current else blob).filter
        (fun blob => blob.jobId = job) =
    (store.blobs.rows.filter fun blob => blob.jobId = job).map fun blob =>
      if blob.digest = digest then blob.record event current else blob
  induction store.blobs.rows with
  | nil => rfl
  | cons blob rest ih =>
      rw [List.map_cons, List.filter_cons, List.filter_cons, ih]
      by_cases owner : blob.jobId = job
      · by_cases same : blob.digest = digest
        · have sameKey : blob.key = (job, digest) := Prod.ext owner same
          have stillOwner : (blob.record event current).jobId = job := owner
          simp [sameKey, stillOwner, owner, same]
        · have otherKey : blob.key ≠ (job, digest) := fun key => same (congrArg Prod.snd key)
          simp [otherKey, owner, same]
      · have otherKey : blob.key ≠ (job, digest) := fun key => owner (congrArg Prod.fst key)
        simp [otherKey, owner]

theorem jobBlobs_recordBlob_other {store : Store} {job digest other : String}
    (otherJob : other ≠ job) (event : Event) (current : Instant) :
    (store.recordBlob job digest event current).jobBlobs other = store.jobBlobs other := by
  have outside : ∀ blob : BlobRow, decide (blob.key = (job, digest)) = true →
      decide (blob.jobId = other) = false ∧
        decide ((blob.record event current).jobId = other) = false := by
    intro blob chosen
    have owner : blob.jobId = job := congrArg Prod.fst (of_decide_eq_true chosen)
    have notOther : blob.jobId ≠ other := fun same => otherJob (same.symm.trans owner)
    exact ⟨decide_eq_false notOther, decide_eq_false notOther⟩
  exact store.blobs.filter_update_outside _ _ (BlobRow.key_record event current) _ outside

private theorem jobBlobs_insertBlob? {store filled : Store} {job : String} {blob : BlobRow}
    (accepted : store.insertBlob? blob = some filled) :
    filled.jobBlobs job = store.jobBlobs job ++ [blob].filter fun blob => blob.jobId = job := by
  have extended := (insertBlob?_some accepted).blobs
  unfold jobBlobs
  rw [(store.blobs.insert?_rows filled.blobs blob extended).1, List.filter_append]

theorem jobBlobs_insertBlobs (job owner : String) (current : Instant) (blobs : List Descriptor) :
    ∀ {store filled : Store},
      blobs.foldlM (fun store blob => store.insertBlob? (.pending owner current blob)) store =
        some filled →
      filled.jobBlobs job = store.jobBlobs job ++
        (blobs.map (BlobRow.pending owner current)).filter fun blob => blob.jobId = job := by
  induction blobs with
  | nil =>
      intro store filled accepted
      cases accepted
      exact (List.append_nil _).symm
  | cons blob rest ih =>
      intro store filled accepted
      rw [List.foldlM_cons] at accepted
      obtain ⟨middle, first, later⟩ := Option.bind_eq_some_iff.mp accepted
      rw [ih later, jobBlobs_insertBlob? first, List.append_assoc, List.map_cons,
        ← List.filter_append, List.singleton_append]

end Store

/-! ### What each transaction does to a job -/

namespace Transaction

variable {store : Store} {job : String} {after : JobRow}

theorem jobBlobs_commit {transaction : Transaction} (writesNone : transaction.writesBlobs = false)
    {row : JobRow} (found : (transaction.commit store).jobs.find? job = some row) :
    (transaction.commit store).jobBlobs job = store.jobBlobs job := by
  cases transaction with
  | enqueue values jobId current =>
      rcases commit_enqueue store values jobId current with same | ⟨-, inserted, accepted, same⟩
      · rw [same]
      · rw [same]
        exact Store.jobBlobs_congr (Store.blobs_insertJob? accepted) job
  | claim worker leaseSeconds current token =>
      apply Store.jobBlobs_congr
      simp only [commit, Store.claim]
      cases ((store.sweep current).eligibleRows current).head? <;> rfl
  | call callJob token request current =>
      cases request with
      | heartbeat | finish | releaseClaim => rfl
      | saveSnapshot snapshot => cases writesNone
      | progress event =>
          have unnamed : event.namedDigest = none :=
            Option.isNone_iff_eq_none.mp (Option.isSome_eq_false_iff.mp writesNone)
          apply Store.jobBlobs_congr
          rw [commit_phase unnamed, Store.progressPhase]
          cases event.phase.bind PhaseName.state? <;> rfl
      | failOrRetry failure =>
          rcases commit_failOrRetry store callJob token failure current with
            ⟨-, same⟩ | ⟨error, logged, -, -, loggedEq, written⟩
          · rw [same]
          · rw [written]
            exact Store.jobBlobs_congr (Store.blobs_insertError? loggedEq) job
  | cancelWrite | retryWrite | release => rfl
  | dismiss dismissed =>
      rcases commit_dismiss store dismissed with same | deleted
      · rw [same]
      · rw [deleted] at found ⊢
        exact Store.jobBlobs_deleteJobs found
  | prune states olderThan dryRun =>
      rcases commit_prune store states olderThan dryRun with same | ⟨selected, deleted⟩
      · rw [same]
      · rw [deleted] at found ⊢
        exact Store.jobBlobs_deleteJobs found

private theorem saveSnapshot_job {callJob token : String} {snapshot : ImageSnapshot}
    {current : Instant}
    {filled : Store}
    (committed : (Transaction.call callJob token (.saveSnapshot snapshot) current).commit store =
      filled)
    (found : filled.jobs.find? job = some after) :
    ∃ row, store.jobs.find? job = some row ∧
      ((after = row ∧ filled.jobBlobs job = store.jobBlobs job) ∨
        JobStep (.call callJob token (.saveSnapshot snapshot) current) row (store.jobBlobs job)
          after (filled.jobBlobs job)) := by
  rcases commit_saveSnapshot store callJob token snapshot current with
    same | ⟨row, stored, rowFound, holds, planning, storedEq, saved⟩
  · rw [same] at committed
    rw [← committed] at found ⊢
    exact ⟨after, found, Or.inl ⟨rfl, rfl⟩⟩
  · rw [saved] at committed
    rw [← committed] at found ⊢
    rw [Store.jobs_insertBlobs callJob current snapshot.blobs storedEq, Store.find?_updateJobs]
      at found
    have rows := Store.jobBlobs_insertBlobs job callJob current snapshot.blobs storedEq
    rw [Store.jobBlobs_updateJobs] at rows
    obtain ⟨old, oldFound, rfl⟩ := Option.map_eq_some_iff.mp found
    have rowId : row.id = callJob := store.jobs.find?_key rowFound
    have oldId : old.id = job := store.jobs.find?_key oldFound
    refine ⟨old, oldFound, ?_⟩
    by_cases sameJob : callJob = job
    · subst sameJob
      rw [rowFound] at oldFound
      cases oldFound
      have chosen : (row.holdsClaim callJob token && decide (row.state = .planning)) = true :=
        (Bool.and_eq_true _ _).mpr
          ⟨JobRow.holdsClaim_iff.mpr ⟨rowId, holds⟩, decide_eq_true planning⟩
      have allOwned : ((snapshot.blobs.map (BlobRow.pending callJob current)).filter fun blob =>
          blob.jobId = callJob) = snapshot.blobs.map (BlobRow.pending callJob current) := by
        refine List.filter_eq_self.mpr fun blob member => ?_
        obtain ⟨item, -, rfl⟩ := List.mem_map.mp member
        exact decide_eq_true rfl
      rw [rows, allOwned, if_pos chosen]
      exact Or.inr (.pinned rowId holds planning)
    · have notChosen :
          (old.holdsClaim callJob token && decide (old.state = .planning)) = false := by
        rw [Bool.and_eq_false_iff, ← Bool.not_eq_true, JobRow.holdsClaim_iff]
        exact Or.inl fun holdsOld => sameJob (holdsOld.1.symm.trans oldId)
      have noneOwned : ((snapshot.blobs.map (BlobRow.pending callJob current)).filter fun blob =>
          blob.jobId = job) = [] := by
        refine List.filter_eq_nil_iff.mpr fun blob member isOwned => ?_
        obtain ⟨item, -, rfl⟩ := List.mem_map.mp member
        exact sameJob (of_decide_eq_true isOwned)
      rw [rows, noneOwned, List.append_nil, notChosen, if_neg Bool.false_ne_true]
      exact Or.inl ⟨rfl, rfl⟩

private theorem blobEvent_job {callJob token digest : String} {event : Event} {current : Instant}
    (named : event.namedDigest = some digest)
    (found : (store.progressBlob callJob token digest event current).1.jobs.find? job =
      some after) :
    ∃ row, store.jobs.find? job = some row ∧
      ((after = row ∧ (store.progressBlob callJob token digest event current).1.jobBlobs job =
          store.jobBlobs job) ∨
        JobStep (.call callJob token (.progress event) current) row (store.jobBlobs job)
          after ((store.progressBlob callJob token digest event current).1.jobBlobs job)) := by
  unfold Store.progressBlob at found ⊢
  cases blobFound : store.blobs.find? (callJob, digest) with
  | none =>
      simp only [blobFound] at found ⊢
      exact ⟨after, found, Or.inl ⟨rfl, trivial⟩⟩
  | some blob =>
      simp only [blobFound, Store.find?_updateJobs] at found ⊢
      obtain ⟨row, present, rfl⟩ := Option.map_eq_some_iff.mp found
      have rowFound : store.jobs.find? job = some row := present
      have rowId : row.id = job := store.jobs.find?_key rowFound
      refine ⟨row, rowFound, ?_⟩
      rw [Store.jobBlobs_updateJobs]
      by_cases sameJob : job = callJob
      · subst sameJob
        obtain ⟨member, sameDigest⟩ := Store.find?_blob blobFound
        rw [Store.jobBlobs_recordBlob]
        right
        by_cases holds : row.claimToken = some token
        · rw [if_pos (JobRow.holdsClaim_iff.mpr ⟨rowId, holds⟩)]
          exact .tallied rowId holds named member sameDigest
        · have notHeld : ¬ row.holdsClaim job token = true := fun held =>
            holds (JobRow.holdsClaim_iff.mp held).2
          rw [if_neg notHeld]
          exact .recorded rowId holds named member sameDigest
      · have notHeld : ¬ row.holdsClaim callJob token = true := fun held =>
          sameJob (rowId.symm.trans (JobRow.holdsClaim_iff.mp held).1)
        rw [if_neg notHeld]
        exact Or.inl ⟨rfl, Store.jobBlobs_recordBlob_other sameJob event current⟩

/-- A job after a transaction is a job before it, unchanged or changed by one
listed step, or the one that an `enqueue` has just inserted, without blobs. -/
theorem commit_job (transaction : Transaction)
    (found : (transaction.commit store).jobs.find? job = some after) :
    (∃ row, store.jobs.find? job = some row ∧
      ((after = row ∧ (transaction.commit store).jobBlobs job = store.jobBlobs job) ∨
        JobStep transaction row (store.jobBlobs job) after
          ((transaction.commit store).jobBlobs job))) ∨
      (∃ values current, transaction = .enqueue values job current ∧
        store.jobs.find? job = none ∧ after = .fresh values job current ∧
        (transaction.commit store).jobBlobs job = []) := by
  cases writes : transaction.writesBlobs with
  | false =>
      have sameBlobs := jobBlobs_commit writes found
      rcases transaction.commit_row found with
        ⟨row, present, unchanged | changed⟩ | ⟨values, current, inserts, absent, inserted⟩
      · exact Or.inl ⟨row, present, Or.inl ⟨unchanged, sameBlobs⟩⟩
      · rw [sameBlobs]
        exact Or.inl ⟨row, present, Or.inr (.changed changed writes)⟩
      · rw [sameBlobs]
        exact Or.inr ⟨values, current, inserts, absent, inserted, Store.jobBlobs_unowned absent⟩
  | true =>
      cases transaction with
      | call callJob token request current =>
          cases request with
          | saveSnapshot snapshot => exact Or.inl (saveSnapshot_job rfl found)
          | progress event =>
              obtain ⟨digest, named⟩ := Option.isSome_iff_exists.mp writes
              rw [commit_progress named] at found ⊢
              split at found
              · rename_i overflows
                rw [if_pos overflows]
                exact Or.inl ⟨after, found, Or.inl ⟨rfl, rfl⟩⟩
              · rename_i fits
                rw [if_neg fits]
                exact Or.inl (blobEvent_job named found)
          | heartbeat | finish | failOrRetry | releaseClaim => cases writes
      | enqueue | claim | cancelWrite | retryWrite | dismiss | release | prune => cases writes

end Transaction

/-! ### Jobs along a run -/

namespace System

variable {admits : System → Action → Prop}

/-- One action changes a job by one listed step, or leaves it alone, or
inserts it without blobs under an identifier never drawn before. -/
theorem next_job {before after : System} {action : Action}
    (moved : before.next action = some after) {job : String} {row : JobRow}
    (found : after.store.jobs.find? job = some row) :
    (∃ old, before.store.jobs.find? job = some old ∧
      ((row = old ∧ after.store.jobBlobs job = before.store.jobBlobs job) ∨
        ∃ transaction, action = .commit transaction ∧
          JobStep transaction old (before.store.jobBlobs job) row (after.store.jobBlobs job))) ∨
    (before.store.jobs.find? job = none ∧ job ∉ before.jobIds ∧
      after.store.jobBlobs job = [] ∧ ∃ values current, row = .fresh values job current) := by
  rcases next_store moved with same | ⟨transaction, rfl, committed⟩
  · rw [same] at found ⊢
    exact Or.inl ⟨row, found, Or.inl ⟨rfl, rfl⟩⟩
  · rw [committed] at found ⊢
    rcases transaction.commit_job found with
      ⟨old, present, unchanged | changed⟩ | ⟨values, current, rfl, absent, inserted, noBlobs⟩
    · exact Or.inl ⟨old, present, Or.inl unchanged⟩
    · exact Or.inl ⟨old, present, Or.inr ⟨transaction, rfl, changed⟩⟩
    · exact Or.inr ⟨absent, (next_enqueue moved).1, noBlobs, values, current, inserted⟩

/-- What every admitted step preserves holds of every job of every admitted run. -/
theorem job_invariant (holds : JobRow → List BlobRow → Prop)
    (fresh : ∀ values job current, holds (.fresh values job current) [])
    (keeps : ∀ before transaction job old row blobs, admits before (.commit transaction) →
      before.store.jobs.find? job = some old →
      JobStep transaction old (before.store.jobBlobs job) row blobs →
      holds old (before.store.jobBlobs job) → holds row blobs)
    {system : System} (run : interleaved.Run admits System.initial system) {job : String}
    {row : JobRow} (found : system.store.jobs.find? job = some row) :
    holds row (system.store.jobBlobs job) := by
  have everyJob : ∀ job row, system.store.jobs.find? job = some row →
      holds row (system.store.jobBlobs job) := by
    refine run.preserves (fun system => ∀ job row, system.store.jobs.find? job = some row →
      holds row (system.store.jobBlobs job)) ?_ ?_
    · intro before action after admitted moved ih job row found
      rcases next_job moved found with
        ⟨old, present, ⟨rfl, sameBlobs⟩ | ⟨transaction, rfl, changed⟩⟩ |
        ⟨-, -, noBlobs, values, current, rfl⟩
      · rw [sameBlobs]
        exact ih job row present
      · exact keeps before transaction job old row _ admitted present changed (ih job old present)
      · rw [noBlobs]
        exact fresh values job current
    · intro job row found
      cases found
  exact everyJob job row found

/-- A preorder that every admitted step keeps relates a stored job to what is
stored of it later in an admitted run. -/
theorem job_along_run (related : JobRow × List BlobRow → JobRow × List BlobRow → Prop)
    (refl : ∀ entry, related entry entry)
    (trans : ∀ first middle last, related first middle → related middle last → related first last)
    (steps : ∀ before transaction job old row blobs, admits before (.commit transaction) →
      interleaved.Reachable before → before.store.jobs.find? job = some old →
      JobStep transaction old (before.store.jobBlobs job) row blobs →
      related (old, before.store.jobBlobs job) (row, blobs))
    {first last : System} (reached : interleaved.Reachable first)
    (run : interleaved.Run admits first last) {job : String} {earlier later : JobRow}
    (foundFirst : first.store.jobs.find? job = some earlier)
    (foundLast : last.store.jobs.find? job = some later) :
    related (earlier, first.store.jobBlobs job) (later, last.store.jobBlobs job) := by
  have alongRun : interleaved.Reachable last ∧ job ∈ last.jobIds ∧
      ∀ row, last.store.jobs.find? job = some row →
        related (earlier, first.store.jobBlobs job) (row, last.store.jobBlobs job) := by
    refine run.preserves (fun system => interleaved.Reachable system ∧ job ∈ system.jobIds ∧
      ∀ row, system.store.jobs.find? job = some row →
        related (earlier, first.store.jobBlobs job) (row, system.store.jobBlobs job)) ?_ ?_
    · rintro before action after admitted moved ⟨reachedBefore, drawn, ih⟩
      refine ⟨reachedBefore.step moved, (next_drawn moved).2 drawn, fun row found => ?_⟩
      rcases next_job moved found with
        ⟨old, present, ⟨rfl, sameBlobs⟩ | ⟨transaction, rfl, changed⟩⟩ | ⟨-, undrawn, -⟩
      · rw [sameBlobs]
        exact ih row present
      · exact trans _ _ _ (ih old present)
          (steps before transaction job old row _ admitted reachedBefore present changed)
      · exact absurd drawn undrawn
    · refine ⟨reached, drawn_of_found reached foundFirst, fun row found => ?_⟩
      rw [foundFirst] at found
      cases found
      exact refl _
  exact alongRun.2.2 later foundLast

/-- A preorder that every admitted event keeps on the blob it names relates a
blob to what is stored of it later, as long as its job is. -/
theorem blob_along_run (related : BlobRow → BlobRow → Prop) (refl : ∀ blob, related blob blob)
    (trans : ∀ first middle last, related first middle → related middle last → related first last)
    (records : ∀ before job token event digest current blob,
      admits before (.commit (.call job token (.progress event) current)) →
      interleaved.Reachable before → event.namedDigest = some digest →
      before.store.blobs.find? (job, digest) = some blob →
      related blob (blob.record event current))
    {first last : System} (reached : interleaved.Reachable first)
    (run : interleaved.Run admits first last) {job digest : String} {blob : BlobRow}
    {later : JobRow}
    (found : first.store.blobs.find? (job, digest) = some blob)
    (foundLast : last.store.jobs.find? job = some later) :
    ∃ now, last.store.blobs.find? (job, digest) = some now ∧ related blob now := by
  obtain ⟨member, sameDigest⟩ := Store.find?_blob found
  obtain ⟨owner, ownerMember, ownerId⟩ :=
    first.store.blobsOwned blob (Store.mem_jobBlobs.mp member).1
  have foundFirst : first.store.jobs.find? job = some owner :=
    first.store.jobs.find?_eq_some.mpr ⟨ownerMember, ownerId.trans (Store.mem_jobBlobs.mp member).2⟩
  have allRelated := job_along_run
    (fun earlier later => ∀ blob ∈ earlier.2, ∃ now ∈ later.2,
      now.digest = blob.digest ∧ related blob now)
    (fun _ blob member => ⟨blob, member, rfl, refl blob⟩)
    (fun _ _ _ toMiddle toLast blob member => by
      obtain ⟨middle, middleMember, middleDigest, middleRelated⟩ := toMiddle blob member
      obtain ⟨now, nowMember, nowDigest, nowRelated⟩ := toLast middle middleMember
      exact ⟨now, nowMember, nowDigest.trans middleDigest,
        trans _ _ _ middleRelated nowRelated⟩) ?_ reached run foundFirst foundLast
  · obtain ⟨now, nowMember, nowDigest, nowRelated⟩ := allRelated blob member
    refine ⟨now, ?_, nowRelated⟩
    rw [← sameDigest, ← nowDigest]
    exact Store.find?_of_mem_jobBlobs nowMember
  · intro before transaction job old row blobs admitted reachedBefore present changed
    have oldId : old.id = job := before.store.jobs.find?_key present
    have recordIn : ∀ {token event digest current},
        transaction = .call old.id token (.progress event) current →
        event.namedDigest = some digest → ∀ blob ∈ before.store.jobBlobs job,
          ∃ now ∈ BlobRow.recordIn digest event current (before.store.jobBlobs job),
            now.digest = blob.digest ∧ related blob now := by
      rintro token event digest current rfl named blob member
      refine ⟨_, List.mem_map.mpr ⟨blob, member, rfl⟩, ?_⟩
      by_cases same : blob.digest = digest
      · rw [if_pos same]
        refine ⟨rfl, ?_⟩
        have blobFound := Store.find?_of_mem_jobBlobs member
        rw [same, ← oldId] at blobFound
        exact records before old.id token event digest current blob admitted reachedBefore named
          blobFound
      · rw [if_neg same]
        exact ⟨rfl, refl blob⟩
    cases changed with
    | changed => exact fun blob member => ⟨blob, member, rfl, refl blob⟩
    | pinned => exact fun blob member => ⟨blob, List.mem_append_left _ member, rfl, refl blob⟩
    | recorded sameId _notHeld named => exact recordIn (by rw [sameId]) named
    | tallied sameId _holds named => exact recordIn (by rw [sameId]) named

end System

end OciTransfer
