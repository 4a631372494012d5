import OciTransfer.ExecutionSteps
import OciTransfer.QueueTransactions

/-!
What `_record_failure` writes.

It reads the row at one instant and writes at another; with nothing in between,
a job that holds the token gets the failure the rules make of the error and of
the row that was read.
-/

namespace OciTransfer

namespace ManagerConfig

variable (config : ManagerConfig)

/-- What the constructor of the manager checks of these parameters. -/
structure Valid : Prop where
  backoff : 0 < config.initialBackoff ∧ config.initialBackoff ≤ config.maxBackoff
  noProgress : 0 < config.noProgressTimeout
  overall : 0 ≤ config.overallTimeout

/-- `_record_failure`, its read at one instant and its write at another with
nothing in between. -/
def recordFailure (store : Store) (job token : String) (error : TransferError) (read : Instant)
    (draw : Nat) (written : Instant) : Except StoreError Store :=
  match store.details job with
  | .error raised => .error raised
  | .ok details =>
      ((ClaimCall.failOrRetry (config.failure details error read draw)).run store job token
        written).map Prod.fst

structure InTime (details : JobRow) (current : Instant) : Prop where
  progress : elapsed details.lastProgressAt current < config.noProgressTimeout
  overall : config.overallTimeout ≠ 0 → ∀ started, details.startedAt = some started →
    elapsed started current < config.overallTimeout

def Overdue (details : JobRow) (current : Instant) : Prop :=
  config.overallTimeout ≠ 0 ∧ ∃ started, details.startedAt = some started ∧
    config.overallTimeout ≤ elapsed started current

variable {config}

section Rules

variable {details : JobRow} {detail : String} {current : Instant} {error : TransferError}

theorem integrityRule_other (other : error.code ≠ "digest_mismatch") :
    config.integrityRule details detail error = error := by
  unfold integrityRule
  exact if_neg fun both => other both.1

theorem noProgressRule_final (final : error.retryable = false) :
    config.noProgressRule details detail current error = error := by
  unfold noProgressRule
  apply if_neg
  intro both
  rw [final] at both
  cases both.1

theorem overallRule_overdue (overdue : config.Overdue details current) :
    config.overallRule details detail current error =
      rejected ("Copy exceeded the configured overall timeout: " ++ detail) "overall_timeout" := by
  obtain ⟨limited, started, startedEq, late⟩ := overdue
  unfold overallRule
  simp only [startedEq]
  exact if_pos ⟨limited, late⟩

theorem overallRule_inTime (inTime : ¬ config.Overdue details current) :
    config.overallRule details detail current error = error := by
  unfold overallRule
  cases startedEq : details.startedAt with
  | none => rfl
  | some started =>
      apply if_neg
      intro late
      exact inTime ⟨late.1, started, startedEq, late.2⟩

end Rules

/-- The execution records the failure in two steps, the read and the write. -/
def RecordedBy (execution : Execution) (frame : Frame) (error : TransferError)
    (store after : Store) (first second : Reading) : Prop :=
  ∃ failure,
    ({ execution with point := .recordFailure frame error } : Execution).step config store first =
      some (.observe, .failOrRetry frame failure) ∧
    ({ execution with point := .failOrRetry frame failure } : Execution).step config store second =
      some (execution.calls (.failOrRetry failure) second.current, .returned) ∧
    (Transaction.call execution.job execution.token (.failOrRetry failure)
      second.current).commit store = after

theorem recordFailure_steps {store after : Store} {execution : Execution} {frame : Frame}
    {error : TransferError} {first second : Reading}
    (recorded : config.recordFailure store execution.job execution.token error first.current
      first.draw second.current = .ok after) :
    config.RecordedBy execution frame error store after first second := by
  unfold recordFailure at recorded
  cases detailsEq : store.details execution.job with
  | error raised =>
      simp only [detailsEq] at recorded
      cases recorded
  | ok details =>
      simp only [detailsEq] at recorded
      refine ⟨config.failure details error first.current first.draw, ?_, ?_, ?_⟩
      · simp only [Execution.step, detailsEq]
      · cases result : (ClaimCall.failOrRetry (config.failure details error first.current
            first.draw)).run store execution.job execution.token second.current with
        | error raised =>
            rw [result] at recorded
            cases recorded
        | ok outcome =>
            obtain ⟨written, accepted⟩ := outcome
            cases accepted <;> simp [Execution.step, Execution.call, Execution.calls, result]
      · cases result : (ClaimCall.failOrRetry (config.failure details error first.current
            first.draw)).run store execution.job execution.token second.current with
        | error raised =>
            rw [result] at recorded
            cases recorded
        | ok outcome =>
            rw [result] at recorded
            simp only [Transaction.commit, result]
            exact Except.ok.inj recorded

structure RecordedAs (config : ManagerConfig) (row : JobRow) (error : TransferError) : Prop where
  state : row.state = if error.retryable = true then .retryWait else .failed
  code : row.errorCode = some error.code
  message : row.errorMessage = some (config.safeError error.message)

private theorem recordedAs_failOrRetry (config : ManagerConfig) (details : JobRow)
    (error : TransferError)
    (read : Instant) (draw : Nat) (row : JobRow) (written : Instant) :
    config.RecordedAs (row.failOrRetry (config.failure details error read draw).code
      (config.failure details error read draw).message
      (config.failure details error read draw).retryable
      (config.failure details error read draw).delay
      (config.failure details error read draw).integrityFailure written)
      (config.recorded details error read) :=
  RecordedAs.mk rfl rfl rfl

/-- A job that holds the token gets what the rules make of the error. -/
theorem recordFailure_found (config : ManagerConfig) {store : Store} {job token : String}
    {row : JobRow} (found : store.jobs.find? job = some row) (holds : row.claimToken = some token)
    (error : TransferError) (read : Instant) (draw : Nat) (written : Instant) :
    ∃ after now, config.recordFailure store job token error read draw written = .ok after ∧
      after.jobs.find? job = some now ∧
      config.RecordedAs now (config.recorded row error read) := by
  have detailsEq : store.details job = .ok row := Store.details_ok.mpr found
  have recordedAs := config.recordedAs_failOrRetry row error read draw row written
  generalize failureEq : config.failure row error read draw = failure at recordedAs
  have changed : ((Transaction.call job token (.failOrRetry failure) written).commit
      store).jobs.find? job = some (row.failOrRetry failure.code failure.message failure.retryable
        failure.delay failure.integrityFailure written) :=
    Transaction.find?_failOrRetry found holds
  cases result : (ClaimCall.failOrRetry failure).run store job token written with
  | error raised =>
      have absent := Transaction.failOrRetry_raises.mp ⟨raised, result⟩
      rw [found] at absent
      cases absent
  | ok outcome =>
      have ran : config.recordFailure store job token error read draw written = .ok outcome.1 := by
        unfold recordFailure
        simp only [detailsEq, failureEq, result]
        rfl
      simp only [Transaction.commit, result] at changed
      exact ⟨outcome.1, _, ran, changed, recordedAs⟩

end ManagerConfig

structure Awaited where
  store : Store
  reading : Reading

def Awaited.Holds (awaited : Awaited) (execution : Execution) (row : JobRow) : Prop :=
  awaited.store.jobs.find? execution.job = some row ∧ row.claimToken = some execution.token

namespace Execution

/-- The handler of `_execute`, from the exception on to the write of the failure.
The queue of each await is arbitrary: anything may happen in between. -/
def handles (config : ManagerConfig) (execution : Execution) (details : JobRow)
    (error : TransferError) (asked read written : Awaited) : Option Store := do
  let (_, first) ← ({ execution with point := .handle details error } : Execution).step config
    asked.store asked.reading
  let (_, second) ← ({ execution with point := first } : Execution).step config read.store
    read.reading
  let (action, _) ← ({ execution with point := second } : Execution).step config written.store
    written.reading
  match action with
  | .commit transaction => some (transaction.commit written.store)
  | _ => none

variable {config : ManagerConfig} {execution : Execution} {details : JobRow}
  {error : TransferError} {asked read written : Awaited} {askedRow readRow writtenRow : JobRow}

private theorem handles_eq (notRefused : error.code ≠ "authentication_failed")
    (current : asked.Holds execution askedRow) (notCancelled : askedRow.state ≠ .cancelRequested)
    (atRead : read.Holds execution readRow) :
    execution.handles config details error asked read written =
      some ((Transaction.call execution.job execution.token
        (.failOrRetry (config.failure readRow error read.reading.current read.reading.draw))
        written.reading.current).commit written.store) := by
  have undisturbed : asked.store.cancellationRequested execution.job execution.token = false := by
    unfold Store.cancellationRequested
    simp only [current.1, current.2]
    simp [notCancelled]
  have detailsEq : read.store.details execution.job = .ok readRow :=
    Store.details_ok.mpr atRead.1
  have asks : ({ execution with point := .handle details error } : Execution).step config
      asked.store asked.reading = some (.observe, .recordFailure .execute error) := by
    simp [step, undisturbed, notRefused]
  have reads : ({ execution with point := .recordFailure .execute error } : Execution).step config
      read.store read.reading = some (.observe, .failOrRetry .execute
        (config.failure readRow error read.reading.current read.reading.draw)) := by
    simp [step, detailsEq]
  unfold handles
  simp only [asks, reads, Option.bind_eq_bind, Option.bind_some]
  rfl

theorem handles_found (config : ManagerConfig) (details : JobRow)
    (notRefused : error.code ≠ "authentication_failed") (current : asked.Holds execution askedRow)
    (notCancelled : askedRow.state ≠ .cancelRequested) (atRead : read.Holds execution readRow)
    (atWrite : written.Holds execution writtenRow) :
    ∃ after now, execution.handles config details error asked read written = some after ∧
      after.jobs.find? execution.job = some now ∧
      config.RecordedAs now (config.recorded readRow error read.reading.current) :=
  ⟨_, _, handles_eq notRefused current notCancelled atRead,
    Transaction.find?_failOrRetry atWrite.1 atWrite.2,
    config.recordedAs_failOrRetry readRow error _ _ writtenRow _⟩

end Execution

theorem sampleConfig_valid : sampleConfig.Valid := by
  constructor <;> norm_num [sampleConfig]

theorem exists_claimed_job : ∃ (system : System) (row : JobRow), interleaved.Reachable system ∧
    system.store.jobs.find? "job" = some row ∧ row.claimToken = some "token" ∧
      row.state = .planning ∧ row.lastProgressAt = 0 ∧ row.startedAt = some 0 := by
  have started : interleaved.start System.initial := rfl
  have run : ((interleaved.execute Machine.Always
      [.commit (.enqueue sampleValues "job" 0), .commit (.claim "worker" 60 0 "token")]
      System.initial).any fun system =>
        (system.store.jobs.find? "job").any fun row =>
          decide (row.claimToken = some "token" ∧ row.state = .planning ∧
            row.lastProgressAt = 0 ∧ row.startedAt = some 0)) = true := by decide
  obtain ⟨system, reached, held⟩ := Machine.exists_reachable_of_execute _ started run
  obtain ⟨row, found, facts⟩ := (Option.any_eq_true _ _).mp held
  exact ⟨system, row, reached, found, of_decide_eq_true facts⟩

end OciTransfer
