import OciTransfer.CopyHandler
import OciTransfer.ErrorHistory
import OciTransfer.FailureRecording

/-!
The retry budget of integrity failures.

The store counts the digest mismatches of a job and the manager compares the
count with `integrity_retries`, but only to make the failure final: a mismatch
stays as retryable as the service has reported it, and the service reports
every mismatch as not retryable.  So the budget is kept only when it is zero.
-/

namespace OciTransfer

def integrityCount (log : List (String × Failure)) (job : String) : Nat :=
  (failuresOf log job).countP fun failure => failure.integrityFailure

structure IntegrityRecord (system : System) (log : List (String × Failure)) : Prop where
  drawn : ∀ entry ∈ log, entry.1 ∈ system.jobIds
  counted : ∀ job row, system.store.jobs.find? job = some row →
    row.integrityFailures = integrityCount log job

namespace IntegrityRecord

variable {before after : System} {action : Action} {log : List (String × Failure)}

private theorem counted_other (record : IntegrityRecord before log)
    (moved : before.next action = some after)
    (notFailure : ∀ job token failure current,
      action ≠ .commit (.call job token (.failOrRetry failure) current)) :
    ∀ job row, after.store.jobs.find? job = some row →
      row.integrityFailures = integrityCount log job := by
  intro job row found
  rcases System.next_row moved found with
    ⟨old, present, rfl | ⟨transaction, rfl, changed⟩⟩ | ⟨-, undrawn, -, values, current, rfl⟩
  · exact record.counted job row present
  · rw [← record.counted job old present]
    cases changed with
    | failed => exact absurd rfl (notFailure _ _ _ _)
    | swept | taken | beat | pinned | entered | tallied | finished | givenBack | released
    | cancelWritten | retryWritten => rfl
  · unfold integrityCount
    rw [failuresOf_undrawn record.drawn undrawn]
    rfl

private theorem counted_failure (record : IntegrityRecord before log) {job token : String}
    {failure : Failure} {current : Instant}
    (stored : after.store =
      (Transaction.call job token (.failOrRetry failure) current).commit before.store) :
    ∀ other row, after.store.jobs.find? other = some row →
      row.integrityFailures = integrityCount
        (log ++ failureReport before (.commit (.call job token (.failOrRetry failure) current))
          after) other := by
  intro other row found
  unfold integrityCount
  rw [failuresOf_append, List.countP_append]
  cases target : before.store.jobs.find? job with
  | none =>
      have unchanged : after.store = before.store :=
        stored.trans (failOrRetry_missing target token failure current)
      have unreported :
          failureReport before (.commit (.call job token (.failOrRetry failure) current)) after =
            [] := by
        simp [failureReport, Store.movedToFailure, unchanged, target]
      rw [unchanged] at found
      rw [unreported]
      exact record.counted other row found
  | some targetRow =>
      rw [failuresOf_report target stored other]
      rw [stored] at found
      obtain ⟨old, oldFound, outcome⟩ := Transaction.call_row found
      have oldId : old.id = other := before.store.jobs.find?_key oldFound
      have counted := record.counted other old oldFound
      unfold integrityCount at counted
      by_cases hit : targetRow.claimToken = some token ∧ job = other
      · obtain ⟨holds, rfl⟩ := hit
        rw [Transaction.find?_failOrRetry target holds] at found
        cases found
        rw [target] at oldFound
        cases oldFound
        rw [if_pos ⟨holds, rfl⟩, ← counted, List.countP_singleton]
        change targetRow.integrityFailures + failure.integrityFailure.toNat = _
        cases failure.integrityFailure <;> rfl
      · rw [if_neg hit]
        rcases outcome with rfl | changed
        · exact counted
        · cases changed with
          | failed sameId holds =>
              cases sameId.symm.trans oldId
              rw [target] at oldFound
              cases oldFound
              exact absurd ⟨holds, rfl⟩ hit

end IntegrityRecord

private theorem integrityFailures_on_record {state : System × List (String × Failure)}
    (reached : (interleaved.recorded failureReport).Reachable state) {job : String} {row : JobRow}
    (found : state.1.store.jobs.find? job = some row) :
    row.integrityFailures = integrityCount state.2 job := by
  have record : IntegrityRecord state.1 state.2 := by
    refine reached.recorded_invariant IntegrityRecord ?_ ?_
    · rintro system rfl
      exact IntegrityRecord.mk (fun entry member => by cases member)
        (fun job row found => by cases found)
    · intro before action after log reachedBefore moved record
      refine ⟨HistoryRecord.drawn_step record.drawn reachedBefore moved, ?_⟩
      by_cases isFailure : ∃ job token failure current,
          action = .commit (.call job token (.failOrRetry failure) current)
      · obtain ⟨job, token, failure, current, rfl⟩ := isFailure
        exact record.counted_failure (System.next_commit_store moved)
      · have notFailure : ∀ job token failure current,
            action ≠ .commit (.call job token (.failOrRetry failure) current) :=
          fun job token failure current same => isFailure ⟨job, token, failure, current, same⟩
        rw [failureReport_other notFailure, List.append_nil]
        exact record.counted_other moved notFailure
  exact record.counted job row found

/-- The service reports every mismatch as final, and names no delay. -/
structure Event.ReportsMismatch (event : Event) : Prop where
  failed : event.kind = .failed
  code : event.code = some "digest_mismatch"
  final : event.retryable = false
  noDelay : event.retryAfter = none

private theorem Event.ReportsMismatch.failure_eq {event : Event}
    (mismatch : event.ReportsMismatch) :
    event.failure = rejected (event.message.getD "transfer failed") "digest_mismatch" := by
  unfold Event.failure rejected
  rw [mismatch.code, mismatch.final, mismatch.noDelay]
  rfl

namespace ManagerConfig

variable (config : ManagerConfig)

/-- The first failures of a job by digest mismatch, as many as the budget says,
are retried, and the next one is final. -/
def KeepsIntegrityBudget : Prop :=
  ∀ state, (interleaved.recorded failureReport).Reachable state →
    ∀ job token row, state.1.store.jobs.find? job = some row → row.claimToken = some token →
    ∀ event : Event, event.ReportsMismatch → ∀ read draw written, config.InTime row read →
      ∃ store after, config.recordFailure state.1.store job token event.failure read draw written =
          .ok store ∧
        store.jobs.find? job = some after ∧
        (integrityCount state.2 job < config.integrityRetries → after.state = .retryWait) ∧
        (integrityCount state.2 job = config.integrityRetries →
          after.state = .failed ∧ after.errorCode = some "integrity_retries_exhausted")

variable {config}

private theorem integrityRule_of_mismatch {details : JobRow} {detail : String}
    {error : TransferError}
    (mismatch : error.code = "digest_mismatch") :
    config.integrityRule details detail error =
      if config.integrityRetries ≤ details.integrityFailures then
        rejected ("Copy failed repeated integrity verification: " ++ detail)
          "integrity_retries_exhausted"
      else error := by
  unfold integrityRule
  by_cases spent : config.integrityRetries ≤ details.integrityFailures
  · rw [if_pos spent, if_pos (And.intro mismatch spent)]
  · rw [if_neg spent, if_neg fun both => spent both.2]

private theorem recorded_mismatch {details : JobRow} {current : Instant}
    (inTime : config.InTime details current) (message : String) :
    config.recorded details (rejected message "digest_mismatch") current =
      if config.integrityRetries ≤ details.integrityFailures then
        rejected ("Copy failed repeated integrity verification: " ++ config.safeError message)
          "integrity_retries_exhausted"
      else rejected message "digest_mismatch" := by
  have finalStays : ∀ detail code,
      config.overallRule details (config.safeError message) current
        (config.noProgressRule details (config.safeError message) current (rejected detail code)) =
      rejected detail code := by
    intro detail code
    have notRetried : config.noProgressRule details (config.safeError message) current
        (rejected detail code) = rejected detail code := by
      unfold noProgressRule
      exact if_neg fun both => by cases both.1
    rw [notRetried]
    unfold overallRule
    cases startedEq : details.startedAt with
    | none => rfl
    | some started =>
        apply if_neg
        intro late
        exact absurd late.2 (not_le.mpr (inTime.overall late.1 started startedEq))
  change config.overallRule details (config.safeError message) current
    (config.noProgressRule details (config.safeError message) current
      (config.integrityRule details (config.safeError message)
        (rejected message "digest_mismatch"))) = _
  rw [integrityRule_of_mismatch rfl]
  split
  · exact finalStays _ _
  · exact finalStays _ _

/-- A mismatch under the job's token makes it failed, whatever is left of the
budget; the budget only decides between two codes. -/
theorem recordFailure_mismatch {store : Store} {job token : String} {row : JobRow}
    (found : store.jobs.find? job = some row) (holds : row.claimToken = some token)
    {message : String} {read : Instant} (inTime : config.InTime row read) (draw : Nat)
    (written : Instant) :
    ∃ after changed, config.recordFailure store job token (rejected message "digest_mismatch") read
        draw written = .ok after ∧ after.jobs.find? job = some changed ∧ changed.state = .failed ∧
      changed.errorCode = some (if config.integrityRetries ≤ row.integrityFailures then
        "integrity_retries_exhausted" else "digest_mismatch") := by
  obtain ⟨after, changed, ran, stored, recordedAs⟩ := config.recordFailure_found found holds
    (rejected message "digest_mismatch") read draw written
  rw [recorded_mismatch inTime] at recordedAs
  refine ⟨after, changed, ran, stored, ?_, ?_⟩
  · rw [recordedAs.state]
    split <;> rfl
  · rw [recordedAs.code]
    split <;> rfl

end ManagerConfig

private theorem mismatch_is_final (config : ManagerConfig)
    {state : System × List (String × Failure)}
    (reached : (interleaved.recorded failureReport).Reachable state) {job token : String}
    {row : JobRow} (found : state.1.store.jobs.find? job = some row)
    (holds : row.claimToken = some token) {event : Event} (mismatch : event.ReportsMismatch)
    {read : Instant} (inTime : config.InTime row read) (draw : Nat) (written : Instant) :
    ∃ store after, config.recordFailure state.1.store job token event.failure read draw written =
        .ok store ∧
      store.jobs.find? job = some after ∧ after.state = .failed ∧
      after.errorCode = some (if config.integrityRetries ≤ integrityCount state.2 job then
        "integrity_retries_exhausted" else "digest_mismatch") := by
  rw [mismatch.failure_eq, ← integrityFailures_on_record reached found]
  exact ManagerConfig.recordFailure_mismatch found holds inTime draw written

private theorem exists_held_job : ∃ (state : System × List (String × Failure)) (row : JobRow),
    (interleaved.recorded failureReport).Reachable state ∧
      state.1.store.jobs.find? "job" = some row ∧ row.claimToken = some "token" ∧
      row.lastProgressAt = 0 ∧ row.startedAt = some 0 ∧ integrityCount state.2 "job" = 0 := by
  have started : (interleaved.recorded failureReport).start (System.initial, []) := ⟨rfl, rfl⟩
  have run : (((interleaved.recorded failureReport).execute Machine.Always
      [.commit (.enqueue sampleValues "job" 0), .commit (.claim "worker" 60 0 "token")]
      (System.initial, [])).any fun state =>
        (state.1.store.jobs.find? "job").any fun row =>
          decide (row.claimToken = some "token" ∧ row.lastProgressAt = 0 ∧
            row.startedAt = some 0 ∧ integrityCount state.2 "job" = 0)) = true := by decide
  obtain ⟨state, reached, held⟩ := Machine.exists_reachable_of_execute _ started run
  obtain ⟨row, found, facts⟩ := (Option.any_eq_true _ _).mp held
  obtain ⟨token, progress, start, count⟩ := of_decide_eq_true facts
  exact ⟨state, row, reached, found, token, progress, start, count⟩

private theorem mismatchEvent_reports (message : String) :
    (mismatchEvent message).ReportsMismatch :=
  Event.ReportsMismatch.mk rfl rfl rfl rfl

private theorem integrityRetries_of_kept {config : ManagerConfig} (valid : config.Valid)
    (kept : config.KeepsIntegrityBudget) : config.integrityRetries = 0 := by
  by_contra positive
  obtain ⟨state, row, reached, found, holds, progress, started, count⟩ := exists_held_job
  have still : elapsed 0 0 = 0 := by
    unfold elapsed
    norm_num
  have inTime : config.InTime row 0 := by
    constructor
    · rw [progress, still]
      exact valid.noProgress
    · intro limited start same
      rw [started] at same
      cases same
      rw [still]
      exact lt_of_le_of_ne valid.overall (Ne.symm limited)
  obtain ⟨store, after, recorded, stored, retried, -⟩ :=
    kept state reached "job" "token" row found holds _ (mismatchEvent_reports "") 0 0 0 inTime
  obtain ⟨final, changed, recordedFinal, storedFinal, isFailed, -⟩ :=
    mismatch_is_final config reached found holds (mismatchEvent_reports "") inTime 0 0
  rw [recordedFinal] at recorded
  cases recorded
  rw [storedFinal] at stored
  cases stored
  rw [retried (by omega)] at isFailed
  cases isFailed

/-- The budget of integrity failures is kept exactly if it is zero. -/
theorem integrity_budget_kept_iff_zero {config : ManagerConfig} (valid : config.Valid) :
    config.KeepsIntegrityBudget ↔ config.integrityRetries = 0 := by
  constructor
  · exact integrityRetries_of_kept valid
  · intro zero state reached job token row found holds event mismatch read draw written inTime
    obtain ⟨store, after, recorded, stored, isFailed, code⟩ :=
      mismatch_is_final config reached found holds mismatch inTime draw written
    refine ⟨store, after, recorded, stored, fun short => ?_, fun _ => ⟨isFailed, ?_⟩⟩
    · omega
    · rw [code, if_pos (by omega)]

theorem integrity_budget_kept_iff_zero_by_default :
    ¬ sampleConfig.KeepsIntegrityBudget ∧
      ({ sampleConfig with integrityRetries := 0 } : ManagerConfig).KeepsIntegrityBudget := by
  have noBudget : ({ sampleConfig with integrityRetries := 0 } : ManagerConfig).Valid :=
    ManagerConfig.Valid.mk sampleConfig_valid.backoff sampleConfig_valid.noProgress
      sampleConfig_valid.overall
  constructor
  · intro kept
    have zero := (integrity_budget_kept_iff_zero sampleConfig_valid).mp kept
    cases zero
  · exact (integrity_budget_kept_iff_zero noBudget).mpr rfl

/-- With two retries, a job's first mismatch is already the last. -/
theorem first_mismatch_is_final :
    ¬ ∀ config : ManagerConfig, config.Valid → config.KeepsIntegrityBudget := by
  intro claimed
  have zero := integrityRetries_of_kept sampleConfig_valid (claimed sampleConfig sampleConfig_valid)
  cases zero

end OciTransfer
