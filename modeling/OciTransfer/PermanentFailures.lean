import OciTransfer.FailureRecording

/-!
What is left of the code of a failure that is final by itself.

Of the three rules of `_record_failure` the integrity rule looks for one code
and the no-progress rule spares an error that is not retryable.  The overall
rule asks for neither, so a final failure keeps its code only while the overall
timeout has not been reached.  A message is a text that SQLite can store, without a
lone surrogate, and the due date of a retry lies in the years of a `datetime`.
-/

namespace OciTransfer

structure TransferError.Permanent (error : TransferError) : Prop where
  final : error.retryable = false
  notMismatch : error.code ≠ "digest_mismatch"
  notRefused : error.code ≠ "authentication_failed"

namespace ManagerConfig

variable (config : ManagerConfig)

def overdueMessage (error : TransferError) : String :=
  "Copy exceeded the configured overall timeout: " ++ config.safeError error.message

variable {config} {details : JobRow} {current : Instant} {error : TransferError}

private theorem recorded_permanent (permanent : error.Permanent) :
    config.recorded details error current =
      config.overallRule details (config.safeError error.message) current error := by
  change config.overallRule details (config.safeError error.message) current
    (config.noProgressRule details (config.safeError error.message) current
      (config.integrityRule details (config.safeError error.message) error)) = _
  rw [integrityRule_other permanent.notMismatch, noProgressRule_final permanent.final]

private theorem recorded_overdue (permanent : error.Permanent)
    (overdue : config.Overdue details current) :
    config.recorded details error current =
      rejected (config.overdueMessage error) "overall_timeout" := by
  rw [recorded_permanent permanent, overallRule_overdue overdue]
  rfl

private theorem recorded_inTime (permanent : error.Permanent)
    (inTime : ¬ config.Overdue details current) :
    config.recorded details error current = error := by
  rw [recorded_permanent permanent, overallRule_inTime inTime]

private theorem recorded_final (permanent : error.Permanent) :
    (config.recorded details error current).retryable = false := by
  by_cases overdue : config.Overdue details current
  · rw [recorded_overdue permanent overdue]
    rfl
  · rw [recorded_inTime permanent overdue, permanent.final]

end ManagerConfig

namespace Execution

/-- The job ends as failed, with the failure's own code and message. -/
def KeepsFailure (config : ManagerConfig) (execution : Execution) (details : JobRow)
    (error : TransferError) (asked read written : Awaited) : Prop :=
  ∃ after row, execution.handles config details error asked read written = some after ∧
    after.jobs.find? execution.job = some row ∧ row.state = .failed ∧
      row.errorCode = some error.code ∧ row.errorMessage = some (config.safeError error.message)

variable {config : ManagerConfig} {execution : Execution} {details : JobRow}
  {error : TransferError} {asked read written : Awaited} {askedRow readRow writtenRow : JobRow}

/-- Of a permanent failure the job keeps what the overall rule leaves of it. -/
theorem keepsFailure_iff_recorded (permanent : error.Permanent)
    (current : asked.Holds execution askedRow) (notCancelled : askedRow.state ≠ .cancelRequested)
    (atRead : read.Holds execution readRow) (atWrite : written.Holds execution writtenRow) :
    execution.KeepsFailure config details error asked read written ↔
      (config.recorded readRow error read.reading.current).code = error.code ∧
      config.safeError (config.recorded readRow error read.reading.current).message =
        config.safeError error.message := by
  have final : (config.recorded readRow error read.reading.current).retryable = false :=
    ManagerConfig.recorded_final permanent
  obtain ⟨after, row, handled, found, recorded⟩ := handles_found config details
    permanent.notRefused current notCancelled atRead atWrite
  constructor
  · rintro ⟨other, same, handledAs, foundAs, -, code, message⟩
    rw [handled] at handledAs
    cases handledAs
    rw [found] at foundAs
    cases foundAs
    rw [recorded.code] at code
    rw [recorded.message] at message
    exact ⟨Option.some.inj code, Option.some.inj message⟩
  · rintro ⟨code, message⟩
    have isFailed := recorded.state
    rw [final] at isFailed
    exact ⟨after, row, handled, found, isFailed, recorded.code.trans (congrArg some code),
      recorded.message.trans (congrArg some message)⟩

/-- A permanent failure keeps its code exactly if the overall timeout is not
reached, or the error is already the one the timeout makes of it. -/
theorem permanent_failure_kept_iff (permanent : error.Permanent)
    (current : asked.Holds execution askedRow) (notCancelled : askedRow.state ≠ .cancelRequested)
    (atRead : read.Holds execution readRow) (atWrite : written.Holds execution writtenRow) :
    execution.KeepsFailure config details error asked read written ↔
      ¬ config.Overdue readRow read.reading.current ∨
      (error.code = "overall_timeout" ∧
        config.safeError (config.overdueMessage error) = config.safeError error.message) := by
  rw [keepsFailure_iff_recorded permanent current notCancelled atRead atWrite]
  by_cases overdue : config.Overdue readRow read.reading.current
  · rw [ManagerConfig.recorded_overdue permanent overdue]
    constructor
    · rintro ⟨code, message⟩
      exact Or.inr ⟨code.symm, message⟩
    · rintro (inTime | ⟨code, message⟩)
      · exact absurd overdue inTime
      · exact ⟨code.symm, message⟩
  · rw [ManagerConfig.recorded_inTime permanent overdue]
    exact ⟨fun _ => Or.inl overdue, fun _ => ⟨rfl, rfl⟩⟩

end Execution

def tenSeconds : ManagerConfig :=
  { sampleConfig with overallTimeout := 10 }

private theorem tenSeconds_valid : tenSeconds.Valid := by
  constructor <;> norm_num [tenSeconds, sampleConfig]

def denial : TransferError := rejected "denied" "authorization_denied"

private theorem denial_permanent : denial.Permanent := by
  constructor <;> decide

/-- Every permanent failure of a run that nothing disturbs is kept. -/
def ManagerConfig.KeepsPermanentFailures (config : ManagerConfig) : Prop :=
  ∀ system, interleaved.Reachable system → ∀ (execution : Execution) (row : JobRow),
    (∀ reading, Awaited.Holds ⟨system.store, reading⟩ execution row) →
    row.state ≠ .cancelRequested →
    ∀ (details : JobRow) (error : TransferError), error.Permanent → ∀ asked read written,
      execution.KeepsFailure config details error ⟨system.store, asked⟩ ⟨system.store, read⟩
        ⟨system.store, written⟩

private theorem overdue_tenSeconds {row : JobRow} (started : row.startedAt = some 0)
    {current : Instant} :
    tenSeconds.Overdue row current ↔ 10000000 ≤ current := by
  have late : tenSeconds.overallTimeout ≤ elapsed 0 current ↔ 10000000 ≤ current := by
    unfold elapsed
    rw [le_div_iff₀ (by norm_num), sub_zero]
    change (10 : ℚ) * 1000000 ≤ (current : ℚ) ↔ _
    rw [show (10 : ℚ) * 1000000 = ((10000000 : Int) : ℚ) from by norm_num]
    exact Int.cast_le
  constructor
  · rintro ⟨-, start, same, reached⟩
    rw [started] at same
    cases same
    exact late.mp reached
  · intro reached
    exact ⟨by norm_num [tenSeconds], 0, started, late.mpr reached⟩

theorem permanent_failure_kept_iff_within_ten_seconds :
    ∃ (system : System) (execution : Execution), interleaved.Reachable system ∧
      ∀ details asked read written,
        execution.KeepsFailure tenSeconds details denial ⟨system.store, asked⟩
          ⟨system.store, read⟩ ⟨system.store, written⟩ ↔ read.current < 10000000 := by
  obtain ⟨system, row, reached, found, holds, planning, -, started⟩ := exists_claimed_job
  have held : ∀ reading, Awaited.Holds ⟨system.store, reading⟩ ⟨"job", "token", .start⟩ row :=
    fun _ => ⟨found, holds⟩
  refine ⟨system, ⟨"job", "token", .start⟩, reached, fun details asked read written => ?_⟩
  rw [Execution.permanent_failure_kept_iff denial_permanent (held asked)
    (by rw [planning]; decide) (held read) (held written), overdue_tenSeconds started, not_le]
  constructor
  · rintro (early | ⟨impossible, -⟩)
    · exact early
    · exact absurd impossible (by decide)
  · exact Or.inl

/-- Ten seconds after its start the job's denial is recorded as a timeout. -/
theorem overdue_denial_is_relabelled :
    ¬ ∀ config : ManagerConfig, config.Valid → config.KeepsPermanentFailures := by
  intro claimed
  obtain ⟨system, row, reached, found, holds, planning, -, started⟩ := exists_claimed_job
  have held : ∀ reading, Awaited.Holds ⟨system.store, reading⟩ ⟨"job", "token", .start⟩ row :=
    fun _ => ⟨found, holds⟩
  have notCancelled : row.state ≠ .cancelRequested := by
    rw [planning]
    decide
  have kept := claimed tenSeconds tenSeconds_valid system reached ⟨"job", "token", .start⟩ row held
    notCancelled row denial denial_permanent (replied .done 10000000) (replied .done 10000000)
    (replied .done 10000000)
  have overdue : tenSeconds.Overdue row 10000000 := (overdue_tenSeconds started).mpr (le_refl _)
  obtain ⟨code, -⟩ := (Execution.keepsFailure_iff_recorded denial_permanent (held _) notCancelled
    (held _) (held _)).mp kept
  have relabelled := ManagerConfig.recorded_overdue denial_permanent overdue
  change (tenSeconds.recorded row denial 10000000).code = _ at code
  rw [relabelled] at code
  exact absurd code (by decide)

end OciTransfer
