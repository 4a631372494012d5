import OciTransfer.FailureRecording
import OciTransfer.JobNotes

/-!
What the no-progress timeout measures.

The clock of a job is set when the job is enqueued and by progress events, and
by nothing else: neither a claim nor a retry by hand winds it back.  So the time
a job waits in the queue counts against it like any other.
-/

namespace OciTransfer

namespace JobNote

/-- The first claim since the job was enqueued or retried by hand. -/
def firstClaimAfter (first : Option Instant) : JobNote → Option Instant
  | .enqueued _ | .retried _ => none
  | .claimed current => first.or (some current)
  | .clockMoved _ _ | .failed => first

end JobNote

def firstClaim (log : List (String × JobNote)) (job : String) : Option Instant :=
  (notesOf log job).foldl JobNote.firstClaimAfter none

namespace ManagerConfig

variable {config : ManagerConfig} {details : JobRow} {current : Instant} {error : TransferError}

private theorem recorded_unlimited (unlimited : config.overallTimeout = 0)
    (notMismatch : error.code ≠ "digest_mismatch") :
    config.recorded details error current =
      config.noProgressRule details (config.safeError error.message) current error := by
  change config.overallRule details (config.safeError error.message) current
    (config.noProgressRule details (config.safeError error.message) current
      (config.integrityRule details (config.safeError error.message) error)) = _
  rw [integrityRule_other notMismatch]
  exact overallRule_inTime fun overdue => overdue.1 unlimited

private theorem noProgressRule_moving (moving : elapsed details.lastProgressAt current <
    config.noProgressTimeout) (detail : String) :
    config.noProgressRule details detail current error = error := by
  unfold noProgressRule
  exact if_neg fun both => absurd both.2 (not_le.mpr moving)

private theorem noProgressRule_stalled (retryable : error.retryable = true)
    (stalled : config.noProgressTimeout ≤ elapsed details.lastProgressAt current)
    (detail : String) :
    config.noProgressRule details detail current error =
      rejected ("Copy made no progress before the configured timeout: " ++ detail)
        "no_progress_timeout" := by
  unfold noProgressRule
  exact if_pos ⟨retryable, stalled⟩

private theorem recordFailure_unlimited (config : ManagerConfig)
    (unlimited : config.overallTimeout = 0)
    {store : Store} {job token : String} {row : JobRow} (found : store.jobs.find? job = some row)
    (holds : row.claimToken = some token) (error : TransferError)
    (retryable : error.retryable = true) (notMismatch : error.code ≠ "digest_mismatch")
    (read : Instant) (draw : Nat) (written : Instant) :
    ∃ after changed, config.recordFailure store job token error read draw written = .ok after ∧
      after.jobs.find? job = some changed ∧
      (elapsed row.lastProgressAt read < config.noProgressTimeout →
        changed.state = .retryWait ∧ changed.errorCode = some error.code) ∧
      (config.noProgressTimeout ≤ elapsed row.lastProgressAt read →
        changed.state = .failed ∧ changed.errorCode = some "no_progress_timeout") := by
  obtain ⟨after, changed, ran, stored, recordedAs⟩ := config.recordFailure_found found holds error
    read draw written
  rw [recorded_unlimited unlimited notMismatch] at recordedAs
  refine ⟨after, changed, ran, stored, fun moving => ?_, fun stalled => ?_⟩
  · rw [noProgressRule_moving moving] at recordedAs
    exact ⟨recordedAs.state.trans (if_pos retryable), recordedAs.code⟩
  · rw [noProgressRule_stalled retryable stalled] at recordedAs
    exact ⟨recordedAs.state, recordedAs.code⟩

end ManagerConfig

/-- A retryable failure that an execution records is retried exactly while the no-progress
timeout has not passed since the job's clock was last set, by progress or by its enqueue,
however long the job has waited in between. -/
theorem no_progress_timeout_since_clock (config : ManagerConfig)
    (unlimited : config.overallTimeout = 0) {state : System × List (String × JobNote)}
    (reached : (interleaved.recorded noteReport).Reachable state) {job token : String}
    {row : JobRow} (found : state.1.store.jobs.find? job = some row)
    (holds : row.claimToken = some token) (error : TransferError)
    (retryable : error.retryable = true) (notMismatch : error.code ≠ "digest_mismatch")
    (read : Instant) (draw : Nat) (written : Instant) :
    ∃ clock store after, clockOf state.2 job = some clock ∧
      config.recordFailure state.1.store job token error read draw written = .ok store ∧
      (∀ (execution : Execution) (frame : Frame) (first second : Reading),
        execution.job = job → execution.token = token → first.current = read →
          first.draw = draw → second.current = written →
            config.RecordedBy execution frame error state.1.store store first second) ∧
      store.jobs.find? job = some after ∧
      (elapsed clock read < config.noProgressTimeout →
        after.state = .retryWait ∧ after.errorCode = some error.code) ∧
      (config.noProgressTimeout ≤ elapsed clock read →
        after.state = .failed ∧ after.errorCode = some "no_progress_timeout") := by
  obtain ⟨store, after, ran, changed, outcome⟩ := config.recordFailure_unlimited unlimited
    found holds error retryable notMismatch read draw written
  refine ⟨row.lastProgressAt, store, after, clock_on_record reached found, ran, ?_, changed,
    outcome⟩
  rintro execution frame first second rfl rfl rfl rfl rfl
  exact ManagerConfig.recordFailure_steps ran

def claimedAfterAnHour : List Action :=
  [.commit (.enqueue sampleValues "job" 0), .commit (.claim "worker" 60 3600000000 "token")]

def refusedConnection : TransferError :=
  { message := "connection refused"
    code := "registry_unavailable"
    retryable := true
    retryAfter := none }

private theorem exists_claimed_late : ∃ (state : System × List (String × JobNote)) (row : JobRow),
    (interleaved.recorded noteReport).Reachable state ∧
      state.1.store.jobs.find? "job" = some row ∧ row.claimToken = some "token" ∧
      row.lastProgressAt = 0 ∧ clockOf state.2 "job" = some 0 ∧
      firstClaim state.2 "job" = some 3600000000 := by
  have started : (interleaved.recorded noteReport).start (System.initial, []) := ⟨rfl, rfl⟩
  have run : (((interleaved.recorded noteReport).execute Machine.Always claimedAfterAnHour
      (System.initial, [])).any fun state =>
        (state.1.store.jobs.find? "job").any fun row =>
          decide (row.claimToken = some "token" ∧ row.lastProgressAt = 0 ∧
            clockOf state.2 "job" = some 0 ∧
            firstClaim state.2 "job" = some 3600000000)) = true := by decide
  obtain ⟨state, reached, held⟩ := Machine.exists_reachable_of_execute _ started run
  obtain ⟨row, found, facts⟩ := (Option.any_eq_true _ _).mp held
  exact ⟨state, row, reached, found, of_decide_eq_true facts⟩

theorem no_progress_timeout_since_clock_after_an_hour :
    ∃ (state : System × List (String × JobNote)) (store : Store) (after : JobRow),
      (interleaved.recorded noteReport).Reachable state ∧
      sampleConfig.recordFailure state.1.store "job" "token" refusedConnection 3600000001 0
        3600000001 = .ok store ∧
      store.jobs.find? "job" = some after ∧ after.errorCode = some "no_progress_timeout" := by
  obtain ⟨state, row, reached, found, holds, -, clockEq, -⟩ := exists_claimed_late
  obtain ⟨clock, store, after, clockIs, ran, -, changed, -, late⟩ :=
    no_progress_timeout_since_clock sampleConfig rfl reached found holds refusedConnection rfl
      (by decide) 3600000001 0 3600000001
  rw [clockEq] at clockIs
  cases clockIs
  refine ⟨state, store, after, reached, ran, changed, (late ?_).2⟩
  norm_num [sampleConfig, elapsed]

/-- A microsecond after its first claim the job fails for good: the hour it has
waited for that claim is charged to it. -/
theorem queue_wait_is_charged :
    ¬ ∀ config : ManagerConfig, config.Valid → config.overallTimeout = 0 →
      ∀ state, (interleaved.recorded noteReport).Reachable state →
      ∀ job token row, state.1.store.jobs.find? job = some row → row.claimToken = some token →
      ∀ error : TransferError, error.retryable = true → error.code ≠ "digest_mismatch" →
      ∀ claimed, firstClaim state.2 job = some claimed →
      ∀ read draw written, claimed ≤ read → read ≤ written →
        elapsed claimed read < config.noProgressTimeout →
        ∃ store after, config.recordFailure state.1.store job token error read draw written =
            .ok store ∧
          store.jobs.find? job = some after ∧ after.state = .retryWait := by
  intro claimed
  obtain ⟨state, row, reached, found, holds, clock, -, first⟩ := exists_claimed_late
  obtain ⟨store, after, ran, changed, retried⟩ := claimed sampleConfig sampleConfig_valid rfl state
    reached "job" "token" row found holds refusedConnection rfl (by decide) 3600000000 first
    3600000001 0 3600000001 (by decide) (le_refl _) (by norm_num [sampleConfig, elapsed])
  obtain ⟨final, failed, ranFinal, failedFound, -, late⟩ :=
    sampleConfig.recordFailure_unlimited rfl found holds refusedConnection rfl (by decide)
      3600000001 0 3600000001
  rw [ranFinal] at ran
  cases ran
  rw [failedFound] at changed
  cases changed
  rw [clock] at late
  have isFailed := (late (by norm_num [sampleConfig, elapsed])).1
  rw [retried] at isFailed
  cases isFailed

end OciTransfer
