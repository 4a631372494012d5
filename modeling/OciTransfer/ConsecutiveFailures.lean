import OciTransfer.JobNotes
import OciTransfer.RetrySchedule

/-!
The counter of consecutive failures.

`fail_or_retry` adds one and nothing ever takes it back, so the counter is what
its name says only as long as no job that has failed makes progress: the first
progress after a failure leaves it one too high for good.
-/

namespace OciTransfer

/-- No event that is stored under a job's token advances its clock once the job has failed. -/
def NoProgressAfterFailure (system : System) : Action → Prop
  | .commit (.call job token (.progress event) current) =>
      ∀ row, system.store.jobs.find? job = some row → row.claimToken = some token →
        0 < row.consecutiveFailures → ∀ digest, event.namedDigest = some digest →
          ∀ blob, system.store.blobs.find? (job, digest) = some blob →
            blob.progressedBy event = true →
            system.store.overflows job digest event current = false →
              current ≤ row.lastProgressAt
  | _ => True

instance : DecidableRel NoProgressAfterFailure := fun system action =>
  match action with
  | .commit (.call job token (.progress event) current) =>
      inferInstanceAs (Decidable (∀ row ∈ system.store.jobs.find? job, row.claimToken = some token →
        0 < row.consecutiveFailures → ∀ digest ∈ event.namedDigest,
          ∀ blob ∈ system.store.blobs.find? (job, digest),
            blob.progressedBy event = true →
            system.store.overflows job digest event current = false →
              current ≤ row.lastProgressAt))
  | .commit (.call _ _ (.heartbeat _) _) | .commit (.call _ _ (.saveSnapshot _) _)
  | .commit (.call _ _ (.finish _ _ _) _) | .commit (.call _ _ (.failOrRetry _) _)
  | .commit (.call _ _ .releaseClaim _) | .commit (.enqueue _ _ _) | .commit (.claim _ _ _ _)
  | .commit (.cancelWrite _ _ _) | .commit (.retryWrite _ _) | .commit (.dismiss _)
  | .commit (.release _ _) | .commit (.prune _ _ _) | .cancelRead _ | .retryRead _ | .abandon _
  | .observe => isTrue trivial

def FailuresCounted (system : System) (log : List (String × JobNote)) : Prop :=
  ∀ job row, system.store.jobs.find? job = some row →
    row.consecutiveFailures = failuresSinceProgress log job

section Move

variable {before after : System} {action : Action} {log : List (String × JobNote)}

private theorem clock_of_progress {job token digest : String} {event : Event} {current : Instant}
    {row : JobRow} {blob : BlobRow}
    (moved : before.next (.commit (.call job token (.progress event) current)) = some after)
    (found : before.store.jobs.find? job = some row) (holds : row.claimToken = some token)
    (named : event.namedDigest = some digest)
    (blobFound : before.store.blobs.find? (job, digest) = some blob)
    (progressed : blob.progressedBy event = true)
    (fits : before.store.overflows job digest event current = false) :
    ∃ now, after.store.jobs.find? job = some now ∧ now.lastProgressAt = current ∧
      now.consecutiveFailures = row.consecutiveFailures := by
  have afterStore : after.store =
      (before.store.progressBlob job token digest event current).1 := by
    rw [System.next_commit_store moved, Transaction.commit_progress named,
      if_neg (Bool.eq_false_iff.mp fits)]
  rw [afterStore, Store.find?_progressBlob blobFound, found, Option.map_some,
    if_pos (JobRow.holdsClaim_iff.mpr ⟨before.store.jobs.find?_key found, holds⟩), progressed]
  exact ⟨_, rfl, rfl, rfl⟩

theorem FailuresCounted.step (counted : FailuresCounted before log)
    (moved : before.next action = some after) (admitted : NoProgressAfterFailure before action) :
    FailuresCounted after (log ++ noteReport before action after) := by
  intro job row found
  rw [failuresSinceProgress_append]
  cases present : before.store.jobs.find? job with
  | none =>
      obtain ⟨current, notes, -, none⟩ := notesOf_report_fresh moved present found
      rw [notes, none]
      rfl
  | some old =>
      rw [← counted job old present]
      rcases notesOf_report moved present found with
        ⟨notes, same⟩ | ⟨notes, -, oneMore⟩ | ⟨idle, -, same⟩
      · rw [notes, same]
        change _ = if old.lastProgressAt < row.lastProgressAt then 0 else old.consecutiveFailures
        split
        · rename_i advanced
          obtain ⟨token, event, digest, current, blob, rfl, holds, named, blobFound, -, progressed,
            clock⟩ := clock_moved moved present found (ne_of_gt advanced)
          have fits : before.store.overflows job digest event current = false := by
            by_contra overflows
            have unchanged := System.next_commit_store moved
            rw [Transaction.commit_progress named,
              if_pos ((Bool.not_eq_false _).mp overflows)] at unchanged
            rw [unchanged, present] at found
            cases found
            exact lt_irrefl _ advanced
          by_contra positive
          have late := admitted old present holds (Nat.pos_of_ne_zero positive) digest named blob
            blobFound progressed fits
          rw [← clock] at late
          exact absurd advanced (not_lt.mpr late)
        · rfl
      · rw [notes, oneMore]
        rfl
      · rw [foldl_failuresAfter_idle idle, same]

theorem FailuresCounted.broken (moved : before.next action = some after)
    (notAdmitted : ¬ NoProgressAfterFailure before action) :
    ¬ FailuresCounted after (log ++ noteReport before action after) := by
  unfold NoProgressAfterFailure at notAdmitted
  split at notAdmitted
  · rename_i job token event current
    push Not at notAdmitted
    obtain ⟨row, found, holds, positive, digest, named, blob, blobFound, progressed, fits, later⟩ :=
      notAdmitted
    obtain ⟨now, nowFound, clock, failures⟩ :=
      clock_of_progress moved found holds named blobFound progressed fits
    intro counted
    have count := counted job now nowFound
    have differs : row.lastProgressAt ≠ now.lastProgressAt := by
      rw [clock]
      exact ne_of_lt later
    rw [failuresSinceProgress_append] at count
    simp only [noteReport] at count
    rw [notesOf_clockNotes found nowFound, if_neg differs, clock] at count
    have reset : [JobNote.clockMoved row.lastProgressAt current].foldl JobNote.failuresAfter
        (failuresSinceProgress log job) = 0 := if_pos later
    omega
  · exact absurd trivial notAdmitted

end Move

private theorem ManagerConfig.delay_le_initialBackoff {config : ManagerConfig}
    (valid : config.Valid)
    {row : JobRow} (unfailed : row.consecutiveFailures = 0) {error : TransferError}
    (unnamed : error.retryAfter = none) (draw : Nat) :
    config.delay row error draw ≤ config.initialBackoff := by
  have bounds := ManagerConfig.cap_le_power valid.backoff.1 row.consecutiveFailures
  rw [unfailed, pow_zero, mul_one] at bounds
  have drawn : config.delay row error draw ≤ config.cap row.consecutiveFailures :=
    ManagerConfig.delay_le_cap valid.backoff.1 valid.backoff.2 unnamed draw
  rw [unfailed] at drawn
  exact drawn.trans bounds

/-- In every run in which no job progresses after a failure, the counter of each
job is the number of its failures since its clock last advanced, and a job with
none backs off from the initial backoff.  The first move that does not meet the
condition ends that. -/
theorem failures_counted_until_progress {state : System × List (String × JobNote)}
    (run : (interleaved.recorded noteReport).Run (Machine.Unrecorded NoProgressAfterFailure)
      (System.initial, []) state) :
    FailuresCounted state.1 state.2 ∧
    (∀ action after, (interleaved.recorded noteReport).next state action = some after →
      (FailuresCounted after.1 after.2 ↔ NoProgressAfterFailure state.1 action)) ∧
    ∀ job row, state.1.store.jobs.find? job = some row →
      failuresSinceProgress state.2 job = 0 → ∀ config : ManagerConfig, config.Valid →
        ∀ error : TransferError, error.retryAfter = none → ∀ draw,
          config.delay row error draw ≤ config.initialBackoff := by
  have counted : FailuresCounted state.1 state.2 := by
    refine run.recorded_preserves FailuresCounted ?_ ⟨System.initial, rfl, Machine.Run.refl _⟩ ?_
    · intro before action after log admitted _ moved counted
      exact counted.step moved admitted
    · intro job row found
      cases found
  refine ⟨counted, fun action after moved => ?_, ?_⟩
  · obtain ⟨stepped, written⟩ := Machine.recorded_next.mp moved
    rw [written]
    refine ⟨fun stillCounted => ?_, counted.step stepped⟩
    by_contra notAdmitted
    exact FailuresCounted.broken stepped notAdmitted stillCounted
  · intro job row found unfailed config valid error unnamed draw
    exact config.delay_le_initialBackoff valid ((counted job row found).trans unfailed) unnamed draw

def failedOnce : List Action :=
  claimedAndPinned ++ [blobReport "first" 5 .transferring 3,
    .commit (.call "job" "first" (.failOrRetry (sampleFailureOf "registry_unavailable")) 4)]

theorem failures_counted_until_progress_after_one :
    ∃ (state : System × List (String × JobNote)) (row : JobRow),
      (interleaved.recorded noteReport).Run (Machine.Unrecorded NoProgressAfterFailure)
        (System.initial, []) state ∧ state.1.store.jobs.find? "job" = some row ∧
      failuresSinceProgress state.2 "job" = 1 ∧ row.consecutiveFailures = 1 := by
  have run : (((interleaved.recorded noteReport).execute
      (Machine.Unrecorded NoProgressAfterFailure) failedOnce (System.initial, [])).any fun state =>
        (state.1.store.jobs.find? "job").isSome &&
          decide (failuresSinceProgress state.2 "job" = 1)) = true := by decide +kernel
  obtain ⟨state, ran, both⟩ := Machine.exists_run_of_execute _ _ run
  obtain ⟨stored, noted⟩ := (Bool.and_eq_true _ _).mp both
  obtain ⟨row, found⟩ := Option.isSome_iff_exists.mp stored
  have one := of_decide_eq_true noted
  refine ⟨state, row, ran, found, one, ?_⟩
  rw [(failures_counted_until_progress ran).1 "job" row found]
  exact one

/-- After the retry the blob is finished; the counter still holds the failure
from before, and the next failure would wait up to twice the initial backoff. -/
theorem progress_leaves_failures_counted :
    ¬ ∀ state, (interleaved.recorded noteReport).Reachable state →
      FailuresCounted state.1 state.2 := by
  intro claimed
  have started : (interleaved.recorded noteReport).start (System.initial, []) := ⟨rfl, rfl⟩
  have run : (((interleaved.recorded noteReport).execute Machine.Always
      (failedOnce ++ [.commit (.claim "worker" 60 2000000 "second"),
        blobReport "second" 10 .completed 2000001]) (System.initial, [])).any fun state =>
          (state.1.store.jobs.find? "job").any fun row => decide (row.consecutiveFailures = 1 ∧
            failuresSinceProgress state.2 "job" = 0)) = true := by decide +kernel
  obtain ⟨state, reached, tested⟩ := Machine.exists_reachable_of_execute _ started run
  obtain ⟨row, found, facts⟩ := (Option.any_eq_true _ _).mp tested
  obtain ⟨counter, noted⟩ := of_decide_eq_true facts
  have counted := claimed state reached "job" row found
  omega

end OciTransfer
