import OciTransfer.Timestamp

/-!
The records the queue stores and hands out.

Field names are the source's, in camel case.  A nullable column is an `Option`,
a count or a byte offset a natural number.  `snapshotJson` holds the snapshot
itself in place of its JSON text.  The public job record is the part of a row
that leaves the store; the row adds the columns that stay inside.
-/

namespace OciTransfer

inductive JobState where
  | queued
  | planning
  | copying
  | retryWait
  | publishing
  | verifying
  | completed
  | failed
  | cancelRequested
  | cancelled
  deriving DecidableEq, Repr

def JobState.terminal : JobState → Bool
  | .completed | .failed | .cancelled => true
  | _ => false

def JobState.active : JobState → Bool
  | .queued | .planning | .copying | .retryWait | .publishing | .verifying
  | .cancelRequested => true
  | _ => false

/-- The list `('planning','copying','publishing','verifying')` of the SQL texts. -/
def JobState.working : JobState → Bool
  | .planning | .copying | .publishing | .verifying => true
  | _ => false

theorem JobState.active_eq_not_terminal (state : JobState) :
    state.active = !state.terminal := by
  cases state <;> rfl

theorem JobState.active_of_working {state : JobState} (working : state.working = true) :
    state.active = true := by
  cases state <;> first | rfl | cases working

inductive TerminalState where
  | completed
  | failed
  | cancelled
  deriving DecidableEq, Repr

def TerminalState.toJobState : TerminalState → JobState
  | .completed => .completed
  | .failed => .failed
  | .cancelled => .cancelled

@[simp] theorem TerminalState.terminal_toJobState (state : TerminalState) :
    state.toJobState.terminal = true := by
  cases state <;> rfl

/-- The two states `cancel` writes. -/
inductive CancelTarget where
  | cancelled
  | cancelRequested
  deriving DecidableEq, Repr

def CancelTarget.toJobState : CancelTarget → JobState
  | .cancelled => .cancelled
  | .cancelRequested => .cancelRequested

inductive ReplacementPolicy where
  | noClobber
  | overwrite
  deriving DecidableEq, Repr

/-- The disposition column takes whatever text an event carries. -/
inductive BlobDisposition where
  | pending
  | transferring
  | reused
  | mounted
  | completed
  | failed
  | other (text : String)
  deriving DecidableEq, Repr

def BlobDisposition.done : BlobDisposition → Bool
  | .completed | .reused | .mounted => true
  | _ => false

structure Descriptor where
  digest : String
  mediaType : String
  size : Option Nat
  deriving DecidableEq, Repr

structure ManifestRecord where
  digest : String
  mediaType : String
  size : Nat
  kind : String
  subjectDigest : Option String
  platform : Option String
  deriving DecidableEq, Repr

structure ImageSnapshot where
  source : String
  resolvedSource : String
  destination : String
  rootDigest : String
  rootMediaType : String
  rootSize : Nat
  platforms : List String
  manifests : List ManifestRecord
  blobs : List Descriptor
  copyReferrers : Bool
  copyDigestTags : Bool
  replacementPolicy : ReplacementPolicy
  digest : String
  deriving DecidableEq, Repr

def ImageSnapshot.expectedBytes (snapshot : ImageSnapshot) : Option Nat :=
  if snapshot.blobs.any fun item => item.size.isNone then none
  else some (snapshot.blobs.map fun item => item.size.getD 0).sum

/-- The public record of a job. -/
structure CopyJob where
  id : String
  source : String
  resolvedSource : Option String
  destination : String
  state : JobState
  completedBytes : Nat
  expectedBytes : Option Nat
  networkBytes : Nat
  completedBlobs : Nat
  totalBlobs : Option Nat
  bytesPerSecond : Option Int
  runCount : Nat
  consecutiveFailures : Nat
  nextRetryAt : Option Instant
  lastProgressAt : Instant
  snapshotDigest : Option String
  errorCode : Option String
  errorMessage : Option String
  createdAt : Instant
  updatedAt : Instant
  startedAt : Option Instant
  completedAt : Option Instant
  workerId : Option String
  leaseExpiresAt : Option Instant
  heartbeatAt : Option Instant
  deriving DecidableEq, Repr

/-- A row of `copy_jobs`. -/
structure JobRow extends CopyJob where
  platformsJson : String
  sourceProviderId : String
  destinationProviderId : String
  copyReferrers : Int
  copyDigestTags : Int
  replacementPolicy : ReplacementPolicy
  snapshotJson : Option ImageSnapshot
  claimToken : Option String
  integrityFailures : Nat
  deriving DecidableEq, Repr

abbrev JobRow.key (row : JobRow) : String := row.id

structure BlobRow where
  jobId : String
  digest : String
  mediaType : String
  size : Option Nat
  offset : Nat
  networkOffset : Nat
  disposition : BlobDisposition
  createdAt : Instant
  updatedAt : Instant
  completedAt : Option Instant
  deriving DecidableEq, Repr

def BlobRow.key (row : BlobRow) : String × String := (row.jobId, row.digest)

structure ErrorRow where
  id : Nat
  jobId : String
  occurredAt : Instant
  errorCode : String
  message : String
  retryable : Bool
  httpStatus : Option Int
  retryAfter : Option ℚ
  deriving DecidableEq, Repr

structure EnqueueValues where
  source : String
  destination : String
  platformsJson : String
  sourceProviderId : String
  destinationProviderId : String
  copyReferrers : Int
  copyDigestTags : Int
  replacementPolicy : ReplacementPolicy
  deriving DecidableEq, Repr

inductive EventKind where
  | phase
  | progress
  | completed
  | failed
  | other (text : String)
  deriving DecidableEq, Repr

inductive PhaseName where
  | copying
  | publishing
  | verifying
  | other (text : String)
  deriving DecidableEq, Repr

/-- The job state a phase event asks for; any other phase asks for none. -/
def PhaseName.state? : PhaseName → Option JobState
  | .copying => some .copying
  | .publishing => some .publishing
  | .verifying => some .verifying
  | .other _ => none

/-- One event of the service's stream; an absent key is `none`. -/
structure Event where
  kind : EventKind
  digest : Option String
  phase : Option PhaseName
  offset : Option Int
  networkBytes : Option Int
  bytesPerSecond : Option Int
  disposition : Option BlobDisposition
  code : Option String
  message : Option String
  retryable : Bool
  retryAfter : Option ℚ
  deriving DecidableEq, Repr

/-- The digest an event names; Python takes an empty text for absent. -/
def Event.namedDigest (event : Event) : Option String :=
  event.digest.filter fun digest => digest ≠ ""

end OciTransfer
