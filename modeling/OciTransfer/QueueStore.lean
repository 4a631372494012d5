import OciTransfer.KeyedTable
import OciTransfer.Records
import Mathlib.Data.List.Sort
import Mathlib.Data.String.Basic

/-!
The SQLite queue store, one definition for each of its methods.

A store is the three tables together with the foreign keys that SQLite
enforces on them.  Every method takes the clock reading and the random
identifier it draws as arguments.  A method that raises returns an error and
no store, since its transaction is rolled back; messages are stored as
`safe_error` leaves them.
-/

namespace OciTransfer

inductive StoreError where
  | jobNotFound (id : String)
  | jobConflict (message : String)
  | valueError (message : String)
  | integrityError
  | overflow
  deriving DecidableEq, Repr

structure Store where
  jobs : KeyedTable JobRow.key
  blobs : KeyedTable BlobRow.key
  errors : List ErrorRow
  errorSequence : Nat
  blobsOwned : ∀ blob ∈ blobs.rows, ∃ row ∈ jobs.rows, row.id = blob.jobId
  errorsOwned : ∀ error ∈ errors, ∃ row ∈ jobs.rows, row.id = error.jobId

namespace Store

def empty : Store :=
  { jobs := KeyedTable.empty
    blobs := KeyedTable.empty
    errors := []
    errorSequence := 0
    blobsOwned := by intro blob member; cases member
    errorsOwned := by intro error member; cases member }

/-! ### The statements the methods are made of -/

private theorem update_keeps_owner {jobs : KeyedTable JobRow.key} {selected : JobRow → Bool}
    {change : JobRow → JobRow} {keepsKey : ∀ row, (change row).key = row.key} {owner : String}
    (owned : ∃ row ∈ jobs.rows, row.id = owner) :
    ∃ row ∈ (jobs.update selected change keepsKey).rows, row.id = owner := by
  obtain ⟨row, member, rfl⟩ := owned
  refine ⟨if selected row then change row else row, List.mem_map.mpr ⟨row, member, rfl⟩, ?_⟩
  by_cases chosen : selected row = true
  · rw [if_pos chosen]
    exact keepsKey row
  · rw [if_neg chosen]

/-- `UPDATE copy_jobs SET change WHERE selected`. -/
def updateJobs (store : Store) (selected : JobRow → Bool) (change : JobRow → JobRow)
    (keepsKey : ∀ row, (change row).key = row.key) : Store :=
  { store with
    jobs := store.jobs.update selected change keepsKey
    blobsOwned := fun blob member => update_keeps_owner (store.blobsOwned blob member)
    errorsOwned := fun error member => update_keeps_owner (store.errorsOwned error member) }

def updateBlobs (store : Store) (selected : BlobRow → Bool) (change : BlobRow → BlobRow)
    (keepsKey : ∀ row, (change row).key = row.key) : Store :=
  { store with
    blobs := store.blobs.update selected change keepsKey
    blobsOwned := by
      intro blob member
      obtain ⟨original, present, rfl⟩ := List.mem_map.mp member
      obtain ⟨row, rowMember, sameId⟩ := store.blobsOwned original present
      refine ⟨row, rowMember, sameId.trans ?_⟩
      by_cases chosen : selected original = true
      · rw [if_pos chosen]
        exact (congrArg Prod.fst (keepsKey original)).symm
      · rw [if_neg chosen] }

private theorem extended_owner {jobs extended : KeyedTable JobRow.key} {row : JobRow}
    {owner : String}
    (accepted : jobs.insert? row = some extended) (owned : ∃ row ∈ jobs.rows, row.id = owner) :
    ∃ row ∈ extended.rows, row.id = owner := by
  obtain ⟨old, member, same⟩ := owned
  refine ⟨old, ?_, same⟩
  rw [(jobs.insert?_rows extended row accepted).1]
  exact List.mem_append_left _ member

def insertJob? (store : Store) (row : JobRow) : Option Store :=
  match accepted : store.jobs.insert? row with
  | none => none
  | some jobs => some
    { store with
      jobs := jobs
      blobsOwned := fun blob member => extended_owner accepted (store.blobsOwned blob member)
      errorsOwned := fun error member => extended_owner accepted (store.errorsOwned error member) }

/-- A blob row needs its job and a fresh key. -/
def insertBlob? (store : Store) (blob : BlobRow) : Option Store :=
  if owned : ∃ row ∈ store.jobs.rows, row.id = blob.jobId then
    match accepted : store.blobs.insert? blob with
    | none => none
    | some blobs => some
      { store with
        blobs := blobs
        blobsOwned := by
          intro other member
          rw [(store.blobs.insert?_rows blobs blob accepted).1, List.mem_append,
            List.mem_singleton] at member
          rcases member with old | rfl
          · exact store.blobsOwned other old
          · exact owned }
  else none

/-- An error row needs its job; its number is never reused. -/
def insertError? (store : Store) (error : ErrorRow) : Option Store :=
  if owned : ∃ row ∈ store.jobs.rows, row.id = error.jobId then some
    { store with
      errors := store.errors ++ [{ error with id := store.errorSequence + 1 }]
      errorSequence := store.errorSequence + 1
      errorsOwned := by
        intro other member
        rw [List.mem_append, List.mem_singleton] at member
        rcases member with old | rfl
        · exact store.errorsOwned other old
        · exact owned }
  else none

/-- `DELETE FROM copy_jobs WHERE selected`, cascading to both other tables. -/
def deleteJobs (store : Store) (selected : JobRow → Bool) : Store :=
  let kept (owner : String) : Bool :=
    store.jobs.rows.any fun row => row.id = owner && !selected row
  have keptOwner : ∀ owner, kept owner = true →
      ∃ row ∈ (store.jobs.delete selected).rows, row.id = owner := by
    intro owner isKept
    obtain ⟨row, member, both⟩ := List.any_eq_true.mp isKept
    obtain ⟨sameId, notSelected⟩ := (Bool.and_eq_true _ _).mp both
    exact ⟨row, List.mem_filter.mpr ⟨member, notSelected⟩, of_decide_eq_true sameId⟩
  { jobs := store.jobs.delete selected
    blobs := store.blobs.delete fun blob => !kept blob.jobId
    errors := store.errors.filter fun error => kept error.jobId
    errorSequence := store.errorSequence
    blobsOwned := by
      intro blob member
      have isKept := (List.mem_filter.mp member).2
      rw [Bool.not_not] at isKept
      exact keptOwner blob.jobId isKept
    errorsOwned := fun error member => keptOwner error.jobId (List.mem_filter.mp member).2 }

end Store

/-! ### Conditions and assignments on a job row -/

namespace JobRow

/-- A comparison with a NULL column selects nothing. -/
def holdsClaim (job token : String) (row : JobRow) : Bool :=
  row.id = job && row.claimToken = some token

def leaseBefore (current : Instant) (row : JobRow) : Bool :=
  row.leaseExpiresAt.any (· < current)

def sweepDue (current : Instant) (row : JobRow) : Bool :=
  row.state = .cancelRequested && (row.workerId.isNone || row.leaseBefore current)

def eligible (current : Instant) (row : JobRow) : Bool :=
  row.state = .queued ||
    (row.state = .retryWait && row.nextRetryAt.any (· ≤ current)) ||
    (row.state.working && row.leaseBefore current)

/-- `ORDER BY created_at,id`. -/
def ClaimOrder (left right : JobRow) : Prop :=
  left.createdAt < right.createdAt ∨ (left.createdAt = right.createdAt ∧ left.id ≤ right.id)

instance : DecidableRel ClaimOrder := fun _ _ => inferInstanceAs (Decidable (_ ∨ _))

/-- `ORDER BY created_at DESC`. -/
def NewestFirst (left right : JobRow) : Prop := right.createdAt ≤ left.createdAt

instance : DecidableRel NewestFirst := fun _ _ => inferInstanceAs (Decidable (_ ≤ _))

def sweep (current : Instant) (row : JobRow) : JobRow :=
  { row with
    state := .cancelled
    completedAt := some current
    updatedAt := current
    workerId := none
    claimToken := none
    leaseExpiresAt := none }

def take (worker token : String) (leaseSeconds : Int) (current : Instant) (row : JobRow) : JobRow :=
  { row with
    state := if row.snapshotJson.isNone then .planning else .copying
    workerId := some worker
    claimToken := some token
    leaseExpiresAt := some (current + seconds leaseSeconds)
    heartbeatAt := some current
    runCount := row.runCount + 1
    startedAt := row.startedAt.or (some current)
    updatedAt := current
    nextRetryAt := none
    errorCode := none
    errorMessage := none }

def beat (leaseSeconds : Int) (current : Instant) (row : JobRow) : JobRow :=
  { row with
    leaseExpiresAt := some (current + seconds leaseSeconds)
    heartbeatAt := some current }

def pin (snapshot : ImageSnapshot) (current : Instant) (row : JobRow) : JobRow :=
  { row with
    resolvedSource := some snapshot.resolvedSource
    snapshotDigest := some snapshot.digest
    snapshotJson := some snapshot
    expectedBytes := snapshot.expectedBytes
    totalBlobs := some snapshot.blobs.length
    state := .copying
    updatedAt := current }

def enter (phase : JobState) (current : Instant) (row : JobRow) : JobRow :=
  { row with
    state := phase
    updatedAt := current }

def tally (bytes network blobs : Nat) (rate : Option Int) (progressed : Bool)
    (current : Instant) (row : JobRow) : JobRow :=
  { row with
    completedBytes := bytes
    networkBytes := network
    completedBlobs := blobs
    bytesPerSecond := rate
    lastProgressAt := if progressed then current else row.lastProgressAt
    updatedAt := current }

def finish (state : TerminalState) (code message : Option String) (current : Instant)
    (row : JobRow) : JobRow :=
  { row with
    state := state.toJobState
    errorCode := code
    errorMessage := message
    completedAt := some current
    updatedAt := current
    workerId := none
    claimToken := none
    leaseExpiresAt := none }

def failOrRetry (code message : String) (retryable : Bool) (delay : Option ℚ)
    (integrityFailure : Bool) (current : Instant) (row : JobRow) : JobRow :=
  { row with
    state := if retryable then .retryWait else .failed
    consecutiveFailures := row.consecutiveFailures + 1
    integrityFailures := row.integrityFailures + integrityFailure.toNat
    nextRetryAt := if retryable then some (current + timedelta (delay.getD 0)) else none
    errorCode := some code
    errorMessage := some message
    completedAt := if retryable then none else some current
    updatedAt := current
    workerId := none
    claimToken := none
    leaseExpiresAt := none }

def cancelWrite (target : CancelTarget) (current : Instant) (row : JobRow) : JobRow :=
  { row with
    state := target.toJobState
    updatedAt := current
    completedAt := if target = .cancelled then some current else row.completedAt }

def retryWrite (current : Instant) (row : JobRow) : JobRow :=
  { row with
    state := .queued
    errorCode := none
    errorMessage := none
    completedAt := none
    nextRetryAt := none
    updatedAt := current }

/-- The assignment that `release_claim` and `release` share. -/
def release (current : Instant) (row : JobRow) : JobRow :=
  { row with
    state := if row.snapshotJson.isNone then .queued else .retryWait
    nextRetryAt := some current
    workerId := none
    claimToken := none
    leaseExpiresAt := none
    heartbeatAt := none
    updatedAt := current }

/-- The row `enqueue` inserts; the other columns take their declared defaults. -/
def fresh (values : EnqueueValues) (jobId : String) (current : Instant) : JobRow :=
  { id := jobId
    source := values.source
    resolvedSource := none
    destination := values.destination
    state := .queued
    completedBytes := 0
    expectedBytes := none
    networkBytes := 0
    completedBlobs := 0
    totalBlobs := none
    bytesPerSecond := none
    runCount := 0
    consecutiveFailures := 0
    nextRetryAt := none
    lastProgressAt := current
    snapshotDigest := none
    errorCode := none
    errorMessage := none
    createdAt := current
    updatedAt := current
    startedAt := none
    completedAt := none
    workerId := none
    leaseExpiresAt := none
    heartbeatAt := none
    platformsJson := values.platformsJson
    sourceProviderId := values.sourceProviderId
    destinationProviderId := values.destinationProviderId
    copyReferrers := values.copyReferrers
    copyDigestTags := values.copyDigestTags
    replacementPolicy := values.replacementPolicy
    snapshotJson := none
    claimToken := none
    integrityFailures := 0 }

/-! No assignment touches the primary key. -/

theorem key_sweep (current : Instant) (row : JobRow) : (row.sweep current).key = row.key := rfl

theorem key_take (worker token : String) (leaseSeconds : Int) (current : Instant) (row : JobRow) :
    (row.take worker token leaseSeconds current).key = row.key := rfl

private theorem key_beat (leaseSeconds : Int) (current : Instant) (row : JobRow) :
    (row.beat leaseSeconds current).key = row.key := rfl

theorem key_pin (snapshot : ImageSnapshot) (current : Instant) (row : JobRow) :
    (row.pin snapshot current).key = row.key := rfl

private theorem key_enter (phase : JobState) (current : Instant) (row : JobRow) :
    (row.enter phase current).key = row.key := rfl

private theorem key_tally (bytes network blobs : Nat) (rate : Option Int) (progressed : Bool)
    (current : Instant) (row : JobRow) :
    (row.tally bytes network blobs rate progressed current).key = row.key := rfl

private theorem key_finish (state : TerminalState) (code message : Option String)
    (current : Instant)
    (row : JobRow) : (row.finish state code message current).key = row.key := rfl

theorem key_failOrRetry (code message : String) (retryable : Bool) (delay : Option ℚ)
    (integrityFailure : Bool) (current : Instant) (row : JobRow) :
    (row.failOrRetry code message retryable delay integrityFailure current).key = row.key := rfl

theorem key_cancelWrite (target : CancelTarget) (current : Instant) (row : JobRow) :
    (row.cancelWrite target current).key = row.key := rfl

theorem key_retryWrite (current : Instant) (row : JobRow) :
    (row.retryWrite current).key = row.key := rfl

private theorem key_release (current : Instant) (row : JobRow) :
    (row.release current).key = row.key := rfl

def equivalent (row : JobRow) (values : EnqueueValues) : Bool :=
  row.source = values.source && row.destination = values.destination &&
    row.sourceProviderId = values.sourceProviderId &&
    row.destinationProviderId = values.destinationProviderId &&
    row.copyReferrers = values.copyReferrers && row.copyDigestTags = values.copyDigestTags &&
    row.replacementPolicy = values.replacementPolicy && row.platformsJson = values.platformsJson

end JobRow

/-- SQL `LIKE`: `%` any text, `_` any character, ASCII letters without case. -/
def sqlLike : List Char → List Char → Bool
  | [], text => text.isEmpty
  | '%' :: pattern, text => text.tails.any fun rest => sqlLike pattern rest
  | _ :: _, [] => false
  | wanted :: pattern, found :: text =>
      (wanted = '_' || wanted.toLower = found.toLower) && sqlLike pattern text

/-- `worker_id=? OR worker_id LIKE ?` with the pattern `prefix-%`. -/
def JobRow.ownedBy (workerPrefix : String) (row : JobRow) : Bool :=
  row.workerId.any fun worker =>
    worker = workerPrefix || sqlLike (workerPrefix ++ "-%").toList worker.toList

def BlobRow.pending (job : String) (current : Instant) (blob : Descriptor) : BlobRow :=
  { jobId := job
    digest := blob.digest
    mediaType := blob.mediaType
    size := blob.size
    offset := 0
    networkOffset := 0
    disposition := .pending
    createdAt := current
    updatedAt := current
    completedAt := none }

namespace Event

/-- `max(0, int(event.get("offset", 0)))`. -/
def reportedOffset (event : Event) : Nat := (event.offset.getD 0).toNat

def reportedDisposition (event : Event) : BlobDisposition :=
  event.disposition.getD .transferring

def reportedNetwork (event : Event) : Nat :=
  (event.networkBytes.getD
    (if event.reportedDisposition = .transferring then event.reportedOffset else 0)).toNat

end Event

namespace BlobRow

/-- The logical offset after an event: a finished blob of known size counts in full. -/
def logicalAfter (row : BlobRow) (event : Event) : Nat :=
  match event.reportedDisposition.done, row.size with
  | true, some size => size
  | _, _ => max row.offset event.reportedOffset

def record (event : Event) (current : Instant) (row : BlobRow) : BlobRow :=
  { row with
    offset := row.logicalAfter event
    networkOffset := max row.networkOffset event.reportedNetwork
    disposition := event.reportedDisposition
    updatedAt := current
    completedAt :=
      row.completedAt.or (if event.reportedDisposition.done then some current else none) }

theorem key_record (event : Event) (current : Instant) (row : BlobRow) :
    (row.record event current).key = row.key := rfl

/-- Whether the event moves the no-progress clock. -/
def progressedBy (row : BlobRow) (event : Event) : Bool :=
  row.offset < row.logicalAfter event || (event.reportedDisposition.done && !row.disposition.done)

end BlobRow

/-! ### The methods -/

namespace Store

def get (store : Store) (jobId : String) : Except StoreError CopyJob :=
  match store.jobs.find? jobId with
  | none => .error (.jobNotFound jobId)
  | some row => .ok row.toCopyJob

def details (store : Store) (jobId : String) : Except StoreError JobRow :=
  match store.jobs.find? jobId with
  | none => .error (.jobNotFound jobId)
  | some row => .ok row

def enqueue (store : Store) (values : EnqueueValues) (jobId : String) (current : Instant) :
    Except StoreError (Store × CopyJob) :=
  let rows := (store.jobs.rows.filter fun row => row.destination = values.destination).insertionSort
    JobRow.NewestFirst
  match rows.find? fun row => row.state.active with
  | some row =>
      if row.equivalent values then .ok (store, row.toCopyJob)
      else .error (.jobConflict ("an active copy already targets this destination: " ++ row.id))
  | none =>
      match store.insertJob? (.fresh values jobId current) with
      | none => .error .integrityError
      | some inserted => .ok (inserted, (JobRow.fresh values jobId current).toCopyJob)

/-- The first statement of `claim`: expired cancellations become final. -/
def sweep (store : Store) (current : Instant) : Store :=
  store.updateJobs (JobRow.sweepDue current) (JobRow.sweep current)
    (JobRow.key_sweep current)

/-- The set `claim` selects from, in its order. -/
def eligibleRows (store : Store) (current : Instant) : List JobRow :=
  (store.jobs.rows.filter (JobRow.eligible current)).insertionSort JobRow.ClaimOrder

def takeJob (store : Store) (jobId worker token : String) (leaseSeconds : Int)
    (current : Instant) : Store :=
  store.updateJobs (fun row => row.id = jobId) (JobRow.take worker token leaseSeconds current)
    (JobRow.key_take worker token leaseSeconds current)

def claim (store : Store) (worker : String) (leaseSeconds : Int) (current : Instant)
    (token : String) : Store × Option (CopyJob × String) :=
  let swept := store.sweep current
  match (swept.eligibleRows current).head? with
  | none => (swept, none)
  | some row =>
      let taken := swept.takeJob row.id worker token leaseSeconds current
      (taken, some ((row.take worker token leaseSeconds current).toCopyJob, token))

def heartbeat (store : Store) (job token : String) (leaseSeconds : Int) (current : Instant) :
    Store × Bool :=
  let held (row : JobRow) : Bool := row.holdsClaim job token && !row.state.terminal
  (store.updateJobs held (JobRow.beat leaseSeconds current) (JobRow.key_beat leaseSeconds current),
    store.jobs.count held = 1)

/-- An `INTEGER` column holds the number; binding another raises `OverflowError`. -/
def fitsInteger (number : Int) : Bool :=
  decide (-9223372036854775808 ≤ number ∧ number ≤ 9223372036854775807)

def optionFits (number : Option Nat) : Bool := number.all fun number => fitsInteger number

def insertPending (job : String) (current : Instant) (store : Store) (blob : Descriptor) :
    Except StoreError Store :=
  if !optionFits blob.size then .error .overflow
  else
    match store.insertBlob? (.pending job current blob) with
    | none => .error .integrityError
    | some filled => .ok filled

def saveSnapshot (store : Store) (job token : String) (snapshot : ImageSnapshot)
    (current : Instant) : Except StoreError (Store × Bool) :=
  let planned (row : JobRow) : Bool := row.holdsClaim job token && row.state = .planning
  let pinned := store.updateJobs planned (JobRow.pin snapshot current)
    (JobRow.key_pin snapshot current)
  if !optionFits snapshot.expectedBytes then .error .overflow
  else if store.jobs.count planned = 1 then
    (snapshot.blobs.foldlM (insertPending job current) pinned).map fun filled => (filled, true)
  else .ok (store, false)

def snapshot (store : Store) (job : String) : Option ImageSnapshot :=
  (store.jobs.find? job).bind fun row => row.snapshotJson

def jobBlobs (store : Store) (job : String) : List BlobRow :=
  store.blobs.rows.filter fun blob => blob.jobId = job

/-- A phase event; a phase the queue does not know is ignored. -/
def progressPhase (store : Store) (job token : String) (phase : Option PhaseName)
    (current : Instant) : Store × Bool :=
  match phase.bind PhaseName.state? with
  | none => (store, true)
  | some state =>
      (store.updateJobs (JobRow.holdsClaim job token) (JobRow.enter state current)
          (JobRow.key_enter state current),
        store.jobs.count (JobRow.holdsClaim job token) = 1)

def recordBlob (store : Store) (job digest : String) (event : Event) (current : Instant) : Store :=
  store.updateBlobs (fun blob => blob.key = (job, digest)) (BlobRow.record event current)
    (BlobRow.key_record event current)

/-- A blob event: the blob row is written without looking at the token, the
aggregates only under it, and both are committed either way. -/
def progressBlob (store : Store) (job token digest : String) (event : Event)
    (current : Instant) : Store × Bool :=
  match store.blobs.find? (job, digest) with
  | none => (store, false)
  | some row =>
      let recorded := store.recordBlob job digest event current
      let blobs := recorded.jobBlobs job
      (recorded.updateJobs (JobRow.holdsClaim job token)
          (JobRow.tally (blobs.map (·.offset)).sum (blobs.map (·.networkOffset)).sum
            (blobs.countP (·.disposition.done)) event.bytesPerSecond
              (row.progressedBy event) current)
          (JobRow.key_tally _ _ _ _ _ current),
        recorded.jobs.count (JobRow.holdsClaim job token) = 1)

/-- The event leaves offsets that `SUM` overflows at, or names a rate that fits no column;
an offset that fits none does not fit its sum either. -/
def overflows (store : Store) (job digest : String) (event : Event) (current : Instant) : Bool :=
  (store.blobs.find? (job, digest)).isSome &&
    let blobs := (store.recordBlob job digest event current).jobBlobs job
    !(fitsInteger ((blobs.map (·.offset)).sum : Nat) &&
      fitsInteger ((blobs.map (·.networkOffset)).sum : Nat) && event.bytesPerSecond.all fitsInteger)

def progress (store : Store) (job token : String) (event : Event) (current : Instant) :
    Except StoreError (Store × Bool) :=
  match event.namedDigest with
  | none => .ok (store.progressPhase job token event.phase current)
  | some digest =>
      if store.overflows job digest event current then .error .overflow
      else .ok (store.progressBlob job token digest event current)

def finish (store : Store) (job token : String) (state : TerminalState)
    (code message : Option String) (current : Instant) : Store × Bool :=
  (store.updateJobs (JobRow.holdsClaim job token) (JobRow.finish state code message current)
      (JobRow.key_finish state code message current),
    store.jobs.count (JobRow.holdsClaim job token) = 1)

def failOrRetry (store : Store) (job token code message : String) (retryable : Bool)
    (delay : Option ℚ) (httpStatus : Option Int) (integrityFailure : Bool) (current : Instant) :
    Except StoreError (Store × Bool) :=
  match store.insertError?
      { id := 0
        jobId := job
        occurredAt := current
        errorCode := code
        message := message
        retryable := retryable
        httpStatus := httpStatus
        retryAfter := delay } with
  | none => .error .integrityError
  | some logged =>
      .ok (logged.updateJobs (JobRow.holdsClaim job token)
          (JobRow.failOrRetry code message retryable delay integrityFailure current)
          (JobRow.key_failOrRetry code message retryable delay integrityFailure current),
        logged.jobs.count (JobRow.holdsClaim job token) = 1)

/-- The state `cancel` decides to write from the state it read, if it writes. -/
def cancelTarget (state : JobState) : Option CancelTarget :=
  if state.terminal then none
  else if state = .queued ∨ state = .retryWait then some .cancelled
  else some .cancelRequested

def cancelWrite (store : Store) (job : String) (target : CancelTarget) (current : Instant) :
    Store :=
  store.updateJobs (fun row => row.id = job) (JobRow.cancelWrite target current)
    (JobRow.key_cancelWrite target current)

def retryWrite (store : Store) (job : String) (current : Instant) : Store :=
  store.updateJobs (fun row => row.id = job) (JobRow.retryWrite current)
    (JobRow.key_retryWrite current)

/-- `cancel`, its read and its write with nothing in between. -/
def cancel (store : Store) (job : String) (current : Instant) :
    Except StoreError (Store × CopyJob) :=
  match store.get job with
  | .error raised => .error raised
  | .ok read =>
      match cancelTarget read.state with
      | none => .ok (store, read)
      | some target =>
          let written := store.cancelWrite job target current
          (written.get job).map fun reread => (written, reread)

/-- `retry`, its read and its write with nothing in between. -/
def retry (store : Store) (job : String) (current : Instant) :
    Except StoreError (Store × CopyJob) :=
  match store.get job with
  | .error raised => .error raised
  | .ok read =>
      if read.state ≠ .failed then .error (.jobConflict "job is not retryable")
      else
        let written := store.retryWrite job current
        (written.get job).map fun reread => (written, reread)

def dismiss (store : Store) (job : String) : Except StoreError Store :=
  match store.jobs.find? job with
  | none => .error (.jobNotFound job)
  | some row =>
      if row.state.terminal then .ok (store.deleteJobs fun row => row.id = job)
      else .error (.jobConflict "only terminal copy jobs can be dismissed")

def cancellationRequested (store : Store) (job token : String) : Bool :=
  match store.jobs.find? job with
  | none => true
  | some row => row.claimToken ≠ some token || row.state = .cancelRequested

def releaseClaim (store : Store) (job token : String) (current : Instant) : Store × Bool :=
  let running (row : JobRow) : Bool := row.holdsClaim job token && row.state.working
  (store.updateJobs running (JobRow.release current) (JobRow.key_release current),
    store.jobs.count running = 1)

def release (store : Store) (workerPrefix : String) (current : Instant) : Store :=
  store.updateJobs (fun row => row.ownedBy workerPrefix && row.state.working)
    (JobRow.release current) (JobRow.key_release current)

structure PruneResult where
  jobIds : List String
  jobs : Nat
  errors : Nat
  blobs : Nat
  snapshots : Nat
  dryRun : Bool
  deriving DecidableEq, Repr

def prunable (states : Option (List JobState)) (olderThan : Option String) (row : JobRow) : Bool :=
  row.state.terminal &&
    ((states.getD []).isEmpty || (states.getD []).contains row.state) &&
    olderThan.all fun cutoff => row.completedAt.any fun instant => timestamp instant < cutoff

def prune (store : Store) (states : Option (List JobState)) (olderThan : Option String)
    (dryRun : Bool) : Except StoreError (Store × PruneResult) :=
  if (states.getD []).isEmpty && olderThan.isNone then
    .error (.valueError "prune requires states or older_than")
  else if (states.getD []).any fun state => !state.terminal then
    .error (.valueError "prune states must be terminal")
  else
    let chosen := store.jobs.rows.filter (prunable states olderThan)
    let ids := chosen.map (·.id)
    let result : PruneResult :=
      { jobIds := ids
        jobs := ids.length
        errors := store.errors.countP fun error => ids.contains error.jobId
        blobs := store.blobs.rows.countP fun blob => ids.contains blob.jobId
        snapshots := store.jobs.rows.countP fun row =>
          ids.contains row.id && row.snapshotJson.isSome
        dryRun := dryRun }
    if dryRun then .ok (store, result)
    else .ok (store.deleteJobs fun row => ids.contains row.id, result)

end Store

end OciTransfer
