import OciTransfer.BlobRows

/-!
The aggregates of a job and the rows of its blobs.

The three aggregate columns of a job are written only by a blob event that
arrives under the job's current token, while the blob's own row is written
under any token.  So the aggregates agree with the blob rows in exactly those
interleaved runs in which an event under another token adds nothing to the row
it names.
-/

namespace OciTransfer

def JobRow.counted (row : JobRow) : BlobTotals :=
  { bytes := row.completedBytes
    networkBytes := row.networkBytes
    finished := row.completedBlobs }

def Store.AggregatesAgree (store : Store) : Prop :=
  ∀ job row, store.jobs.find? job = some row → row.counted = store.totals job

/-- The row counts every byte that the event reports of the blob. -/
def BlobRow.CoversOffset (blob : BlobRow) (event : Event) : Prop :=
  match event.reportedDisposition.done, blob.size with
  | true, some size => blob.offset = size
  | _, _ => event.reportedOffset ≤ blob.offset

/-- The event reports nothing that the blob's row does not already count. -/
def BlobRow.Covers (blob : BlobRow) (event : Event) : Prop :=
  blob.CoversOffset event ∧ event.reportedNetwork ≤ blob.networkOffset ∧
    event.reportedDisposition.done = blob.disposition.done

private theorem BlobRow.logicalAfter_eq_offset {blob : BlobRow} {event : Event} :
    blob.logicalAfter event = blob.offset ↔ blob.CoversOffset event := by
  unfold logicalAfter CoversOffset
  cases event.reportedDisposition.done with
  | false => exact max_eq_left_iff
  | true =>
      cases blob.size with
      | none => exact max_eq_left_iff
      | some size => exact eq_comm

/-- An event for a stored blob comes under the job's current token or adds nothing,
unless it overflows and is rolled back. -/
def BlobWriteCounted (system : System) : Action → Prop
  | .commit (.call job token (.progress event) current) => ∀ digest blob,
      event.namedDigest = some digest → system.store.blobs.find? (job, digest) = some blob →
      system.store.overflows job digest event current = false →
      blob.Covers event ∨
        ∃ row, system.store.jobs.find? job = some row ∧ row.claimToken = some token
  | _ => True

/-! ### The job columns -/

theorem counted_of_rowStep {transaction : Transaction} {old row : JobRow}
    (changed : RowStep transaction old row)
    (notBlob : ∀ job token event digest current,
      transaction = .call job token (.progress event) current → event.namedDigest ≠ some digest) :
    row.counted = old.counted := by
  cases changed with
  | tallied _sameId _holds named => exact absurd named (notBlob _ _ _ _ _ rfl)
  | swept | taken | beat | pinned | entered | finished | failed | givenBack | released
  | cancelWritten | retryWritten => rfl

/-! ### The blob rows -/

namespace Store

private theorem totals_append_idle (blobs : List BlobRow) {added : List BlobRow}
    (idle : ∀ blob ∈ added,
      blob.offset = 0 ∧ blob.networkOffset = 0 ∧ blob.disposition.done = false) :
    BlobTotals.of (blobs ++ added) = BlobTotals.of blobs := by
  induction added with
  | nil => rw [List.append_nil]
  | cons blob rest ih =>
      obtain ⟨noBytes, noNetwork, notDone⟩ := idle blob List.mem_cons_self
      rw [← ih fun other member => idle other (List.mem_cons_of_mem _ member)]
      simp [BlobTotals.of, noBytes, noNetwork, notDone]

private theorem totals_insertBlobs {store filled : Store} (job owner : String) (current : Instant)
    (blobs : List Descriptor)
    (accepted : blobs.foldlM
      (fun store blob => store.insertBlob? (.pending owner current blob)) store = some filled) :
    filled.totals job = store.totals job := by
  unfold totals
  rw [jobBlobs_insertBlobs job owner current blobs accepted]
  refine totals_append_idle _ fun blob member => ?_
  obtain ⟨descriptor, -, rfl⟩ := List.mem_map.mp (List.mem_of_mem_filter member)
  exact ⟨rfl, rfl, rfl⟩

/-! ### A blob event -/

private theorem totals_record_other {store : Store} {job digest other : String}
    (otherJob : other ≠ job)
    (event : Event) (current : Instant) :
    (store.recordBlob job digest event current).totals other = store.totals other :=
  congrArg BlobTotals.of (jobBlobs_recordBlob_other otherJob event current)

private theorem totals_record {store : Store} {job digest : String} {blob : BlobRow}
    (found : store.blobs.find? (job, digest) = some blob) (event : Event) (current : Instant) :
    (store.recordBlob job digest event current).totals job = store.totals job ↔
      blob.Covers event := by
  obtain ⟨left, right, rowsEq, updated⟩ := store.blobs.update_split found
  have owner : blob.jobId = job := congrArg Prod.fst (store.blobs.find?_key found)
  have after := updated (BlobRow.record event current) (BlobRow.key_record event current)
  have recordedOwner : (blob.record event current).jobId = job := owner
  unfold totals jobBlobs recordBlob
  rw [blobs_updateBlobs, after, rowsEq]
  simp only [List.filter_append, List.filter_cons, owner, recordedOwner, decide_true, if_true,
    BlobTotals.of, List.map_append, List.map_cons, List.sum_append, List.sum_cons,
    List.countP_append, List.countP_cons, BlobTotals.mk.injEq]
  have bytes : (blob.record event current).offset = blob.logicalAfter event := rfl
  have network : (blob.record event current).networkOffset =
      max blob.networkOffset event.reportedNetwork := rfl
  have disposition : (blob.record event current).disposition = event.reportedDisposition := rfl
  rw [bytes, network, disposition]
  unfold BlobRow.Covers
  rw [← BlobRow.logicalAfter_eq_offset]
  constructor
  · rintro ⟨sameBytes, sameNetwork, sameFinished⟩
    refine ⟨by omega, by omega, ?_⟩
    cases was : blob.disposition.done <;> cases now : event.reportedDisposition.done <;>
      simp [was, now] at sameFinished ⊢
  · rintro ⟨sameBytes, covered, sameDone⟩
    refine ⟨by omega, by omega, by rw [sameDone]⟩

section BlobEvent

variable {store : Store} {job token digest : String} {blob : BlobRow}

theorem find?_progressBlob (found : store.blobs.find? (job, digest) = some blob) (event : Event)
    (current : Instant) (other : String) :
    (store.progressBlob job token digest event current).1.jobs.find? other =
      (store.jobs.find? other).map fun row =>
        if row.holdsClaim job token then
          let totals := (store.recordBlob job digest event current).totals job
          row.tally totals.bytes totals.networkBytes totals.finished event.bytesPerSecond
            (blob.progressedBy event) current
        else row := by
  simp only [progressBlob, found, find?_updateJobs]
  rfl

private theorem totals_progressBlob (found : store.blobs.find? (job, digest) = some blob)
    (event : Event)
    (current : Instant) (other : String) :
    (store.progressBlob job token digest event current).1.totals other =
      (store.recordBlob job digest event current).totals other := by
  simp only [progressBlob, found]
  rfl

private theorem covers_of_agrees (agree : store.AggregatesAgree)
    (found : store.blobs.find? (job, digest) = some blob) (event : Event) (current : Instant)
    (agreeAfter : (store.progressBlob job token digest event current).1.AggregatesAgree)
    (notHeld : ¬ ∃ row, store.jobs.find? job = some row ∧ row.claimToken = some token) :
    blob.Covers event := by
  obtain ⟨row, member, rowId⟩ := store.blobsOwned blob (store.blobs.find?_mem found)
  have owner : blob.jobId = job := congrArg Prod.fst (store.blobs.find?_key found)
  have rowFound : store.jobs.find? job = some row := by
    rw [← owner, ← rowId]
    exact store.jobs.find?_of_mem member
  have holdsNot : row.holdsClaim job token = false := by
    rw [← Bool.not_eq_true, JobRow.holdsClaim_iff]
    exact fun holds => notHeld ⟨row, rowFound, holds.2⟩
  have unchanged : (store.progressBlob job token digest event current).1.jobs.find? job =
      some row := by
    rw [find?_progressBlob found, rowFound, Option.map_some, holdsNot, if_neg Bool.false_ne_true]
  have counted := agreeAfter job row unchanged
  rw [totals_progressBlob found, agree job row rowFound] at counted
  exact (totals_record found event current).mp counted.symm

theorem agrees_of_counted (agree : store.AggregatesAgree)
    (found : store.blobs.find? (job, digest) = some blob) (event : Event) (current : Instant)
    (counted : blob.Covers event ∨
      ∃ row, store.jobs.find? job = some row ∧ row.claimToken = some token) :
    (store.progressBlob job token digest event current).1.AggregatesAgree := by
  intro other row rowFound
  rw [find?_progressBlob found] at rowFound
  obtain ⟨old, oldFound, rowEq⟩ := Option.map_eq_some_iff.mp rowFound
  have oldId : old.id = other := store.jobs.find?_key oldFound
  rw [totals_progressBlob found]
  by_cases sameJob : other = job
  · subst sameJob
    cases held : old.holdsClaim other token with
    | true =>
        rw [held, if_pos rfl] at rowEq
        rw [← rowEq]
        rfl
    | false =>
        rw [held, if_neg Bool.false_ne_true] at rowEq
        rcases counted with covers | ⟨holder, holderFound, holds⟩
        · rw [← rowEq, (totals_record found event current).mpr covers]
          exact agree other old oldFound
        · rw [oldFound] at holderFound
          cases holderFound
          rw [JobRow.holdsClaim_iff.mpr ⟨oldId, holds⟩] at held
          cases held
  · have notHeld : old.holdsClaim job token = false := by
      rw [← Bool.not_eq_true, JobRow.holdsClaim_iff]
      exact fun holds => sameJob (oldId.symm.trans holds.1)
    rw [notHeld, if_neg Bool.false_ne_true] at rowEq
    rw [← rowEq, totals_record_other sameJob]
    exact agree other old oldFound

/-- After a blob event the aggregates agree exactly when the event came under
the job's token or added nothing. -/
theorem progressBlob_agrees (agree : store.AggregatesAgree)
    (found : store.blobs.find? (job, digest) = some blob) (event : Event) (current : Instant) :
    (store.progressBlob job token digest event current).1.AggregatesAgree ↔
      (blob.Covers event ∨
        ∃ row, store.jobs.find? job = some row ∧ row.claimToken = some token) := by
  constructor
  · intro agreeAfter
    by_cases held : ∃ row, store.jobs.find? job = some row ∧ row.claimToken = some token
    · exact Or.inr held
    · exact Or.inl (covers_of_agrees agree found event current agreeAfter held)
  · exact agrees_of_counted agree found event current

end BlobEvent

private theorem totals_commit {store : Store} {transaction : Transaction}
    (notBlob : ∀ job token event digest current,
      transaction = .call job token (.progress event) current → event.namedDigest ≠ some digest)
    {job : String} {row : JobRow} (found : (transaction.commit store).jobs.find? job = some row) :
    (transaction.commit store).totals job = store.totals job := by
  cases writes : transaction.writesBlobs with
  | false => exact congrArg BlobTotals.of (Transaction.jobBlobs_commit writes found)
  | true =>
      cases transaction with
      | call callJob token request current =>
          cases request with
          | saveSnapshot snapshot =>
              rcases Transaction.commit_saveSnapshot store callJob token snapshot current with
                same | ⟨_, filled, -, -, -, filledEq, saved⟩
              · rw [same]
              · rw [saved]
                refine (totals_insertBlobs job callJob current snapshot.blobs filledEq).trans ?_
                exact congrArg BlobTotals.of (jobBlobs_updateJobs store _ _ _ job)
          | progress event =>
              obtain ⟨digest, named⟩ := Option.isSome_iff_exists.mp writes
              exact absurd named (notBlob callJob token event digest current rfl)
          | heartbeat | finish | failOrRetry | releaseClaim => cases writes
      | enqueue | claim | cancelWrite | retryWrite | dismiss | release | prune => cases writes

private theorem commit_agrees {store : Store} {transaction : Transaction}
    (notBlob : ∀ job token event digest current,
      transaction = .call job token (.progress event) current → event.namedDigest ≠ some digest)
    (agree : store.AggregatesAgree) : (transaction.commit store).AggregatesAgree := by
  intro job row found
  rw [totals_commit notBlob found]
  rcases transaction.commit_row found with
    ⟨old, present, rfl | changed⟩ | ⟨values, current, -, absent, rfl⟩
  · exact agree job row present
  · rw [counted_of_rowStep changed notBlob]
    exact agree job old present
  · unfold totals
    rw [jobBlobs_unowned absent]
    rfl

end Store

/-- A move from a state in which the aggregates agree keeps that exactly when
it meets the condition. -/
theorem aggregates_step {before after : System} {action : Action}
    (moved : before.next action = some after) (agree : before.store.AggregatesAgree) :
    after.store.AggregatesAgree ↔ BlobWriteCounted before action := by
  cases action with
  | commit transaction =>
      have stored := System.next_commit_store moved
      rw [stored]
      by_cases isBlob : ∃ job token event digest current,
          transaction = .call job token (.progress event) current ∧ event.namedDigest = some digest
      · obtain ⟨job, token, event, digest, current, rfl, named⟩ := isBlob
        rw [Transaction.commit_progress named]
        have counted :
            BlobWriteCounted before (.commit (.call job token (.progress event) current)) ↔
            ∀ blob, before.store.blobs.find? (job, digest) = some blob →
              before.store.overflows job digest event current = false → blob.Covers event ∨
                ∃ row, before.store.jobs.find? job = some row ∧ row.claimToken = some token := by
          constructor
          · intro counted blob
            exact counted digest blob named
          · intro counted other blob otherNamed
            rw [named] at otherNamed
            cases otherNamed
            exact counted blob
        rw [counted]
        cases overflows : before.store.overflows job digest event current with
        | true => exact iff_of_true agree fun blob _ impossible => by cases impossible
        | false =>
            rw [if_neg Bool.false_ne_true]
            cases found : before.store.blobs.find? (job, digest) with
            | none =>
                have unchanged : (before.store.progressBlob job token digest event current).1 =
                    before.store := by
                  simp only [Store.progressBlob, found]
                rw [unchanged]
                exact iff_of_true agree fun blob impossible => by cases impossible
            | some blob =>
                rw [Store.progressBlob_agrees agree found]
                constructor
                · intro counted other otherFound _
                  cases otherFound
                  exact counted
                · intro counted
                  exact counted blob rfl rfl
      · have notBlob : ∀ job token event digest current,
            transaction = .call job token (.progress event) current →
              event.namedDigest ≠ some digest :=
          fun job token event digest current isCall named =>
            isBlob ⟨job, token, event, digest, current, isCall, named⟩
        refine ⟨fun _ => ?_, fun _ => Store.commit_agrees notBlob agree⟩
        unfold BlobWriteCounted
        split
        · rename_i job token event current isCall
          cases isCall
          exact fun digest blob named _found => absurd named (notBlob _ _ _ _ _ rfl)
        · trivial
  | cancelRead | retryRead | abandon | observe =>
      rw [System.next_other moved fun transaction impossible => by cases impossible]
      exact ⟨fun _ => trivial, fun _ => agree⟩

/-- The aggregates agree with the blob rows in every state of a run whose blob
events all come under the job's token or add nothing, and any other blob event
then ends that agreement. -/
theorem aggregates_agree_unless_superseded_write {system : System}
    (run : interleaved.Run BlobWriteCounted System.initial system) :
    system.store.AggregatesAgree ∧
    ∀ action after, interleaved.next system action = some after →
      (after.store.AggregatesAgree ↔ BlobWriteCounted system action) := by
  have agree : system.store.AggregatesAgree := by
    refine run.preserves (fun system => system.store.AggregatesAgree) ?_ ?_
    · intro before action after counted moved agree
      exact (aggregates_step moved agree).mpr counted
    · intro job row found
      cases found
  exact ⟨agree, fun action after moved => aggregates_step moved agree⟩

def sampleProgress : Event :=
  { kind := .progress
    digest := some "sha256:bb"
    phase := none
    offset := some 5
    networkBytes := none
    bytesPerSecond := none
    disposition := none
    code := none
    message := none
    retryable := false
    retryAfter := none }

def pinnedThenReclaimed : List Action :=
  [.commit (.enqueue sampleValues "job" 0), .commit (.claim "first" 1 1 "old"),
    .commit (.call "job" "old" (.saveSnapshot sampleSnapshot) 2),
    .commit (.claim "second" 1 2000000 "new")]

def progressOfSecond : Action := .commit (.call "job" "new" (.progress sampleProgress) 2000001)

theorem aggregates_agree_after_reclaim :
    ∃ system row, interleaved.Run BlobWriteCounted System.initial system ∧
      system.store.AggregatesAgree ∧ system.store.jobs.find? "job" = some row ∧
      row.completedBytes = 5 := by
  have counted : ∀ (system : System) action, action ∈ pinnedThenReclaimed ∨
      (action = progressOfSecond ∧
        (system.store.jobs.find? "job").any (fun row => row.claimToken = some "new") = true) →
      BlobWriteCounted system action := by
    intro system action admitted
    rcases admitted with member | ⟨rfl, held⟩
    · simp only [pinnedThenReclaimed, List.mem_cons, List.not_mem_nil, or_false] at member
      rcases member with rfl | rfl | rfl | rfl <;> trivial
    · obtain ⟨row, found, holds⟩ := (Option.any_eq_true _ _).mp held
      exact fun _ _ _ _ _ => Or.inr ⟨row, found, of_decide_eq_true holds⟩
  have run : ((interleaved.execute (fun system action => action ∈ pinnedThenReclaimed ∨
      (action = progressOfSecond ∧
        (system.store.jobs.find? "job").any (fun row => row.claimToken = some "new") = true))
      (pinnedThenReclaimed ++ [progressOfSecond]) System.initial).any fun system =>
        (system.store.jobs.find? "job").any fun row => row.completedBytes = 5) = true := by
    decide +kernel
  obtain ⟨system, ran, stored⟩ := interleaved.exists_run_of_execute _ run
  obtain ⟨row, found, five⟩ := (Option.any_eq_true _ _).mp stored
  have admitted := ran.weaken BlobWriteCounted counted
  exact ⟨system, row, admitted, (aggregates_agree_unless_superseded_write admitted).1, found,
    of_decide_eq_true five⟩

/-- The first worker's next event reaches the blob row and not the aggregates. -/
theorem superseded_write_splits_aggregates :
    ¬ ∀ system, interleaved.Reachable system → system.store.AggregatesAgree := by
  intro claimed
  have run : ((interleaved.execute Machine.Always
      (pinnedThenReclaimed ++ [.commit (.call "job" "old" (.progress sampleProgress) 2000001)])
      System.initial).any fun system =>
        (system.store.jobs.find? "job").any fun row =>
          decide (row.counted ≠ system.store.totals "job")) = true := by decide
  obtain ⟨system, reached, split⟩ := interleaved.exists_reachable_of_execute rfl run
  obtain ⟨row, found, differs⟩ := (Option.any_eq_true _ _).mp split
  exact of_decide_eq_true differs (claimed system reached "job" row found)

end OciTransfer
