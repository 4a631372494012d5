import OciTransfer.QueueRuns
import OciTransfer.RecordedRuns

/-!
The error history of a job and its failures.

`fail_or_retry` writes a row of history and then, under the job's token, the
job itself, and commits both whether or not the second found its row.  The
record of a run holds every call that moved its job, and the history of a job
equals it in exactly those runs in which no such call on a stored job comes
under a token other than the current one.
-/

namespace OciTransfer

def Store.errorCodes (store : Store) (job : String) : List String :=
  (store.errors.filter fun error => error.jobId = job).map fun error => error.errorCode

def Store.movedToFailure (before after : Store) (job : String) : Bool :=
  after.jobs.find? job ≠ before.jobs.find? job &&
    (after.jobs.find? job).any fun row => row.state = .retryWait || row.state = .failed

def failureReport (before : System) (action : Action) (after : System) : List (String × Failure) :=
  match action with
  | .commit (.call job _ (.failOrRetry failure) _) =>
      if before.store.movedToFailure after.store job then [(job, failure)] else []
  | _ => []

def failuresOf (log : List (String × Failure)) (job : String) : List Failure :=
  (log.filter fun entry => entry.1 = job).map Prod.snd

def failureCodes (log : List (String × Failure)) (job : String) : List String :=
  (failuresOf log job).map fun failure => failure.code

/-- A failure of a stored job is reported under its current token. -/
def FailureUnderClaim (system : System) : Action → Prop
  | .commit (.call job token (.failOrRetry _) _) => ∀ row,
      system.store.jobs.find? job = some row → row.claimToken = some token
  | _ => True

instance : DecidableRel FailureUnderClaim := fun system action =>
  match action with
  | .commit (.call job token (.failOrRetry _) _) =>
      inferInstanceAs
        (Decidable (∀ row ∈ system.store.jobs.find? job, row.claimToken = some token))
  | .commit (.call _ _ (.heartbeat _) _) | .commit (.call _ _ (.saveSnapshot _) _)
  | .commit (.call _ _ (.progress _) _) | .commit (.call _ _ (.finish _ _ _) _)
  | .commit (.call _ _ .releaseClaim _) | .commit (.enqueue _ _ _) | .commit (.claim _ _ _ _)
  | .commit (.cancelWrite _ _ _) | .commit (.retryWrite _ _) | .commit (.dismiss _)
  | .commit (.release _ _) | .commit (.prune _ _ _) | .cancelRead _ | .retryRead _ | .abandon _
  | .observe => isTrue trivial

/-! ### What each transaction does to the history of a job -/

namespace Store

private theorem errorCodes_congr {store other : Store} (same : other.errors = store.errors)
    (job : String) :
    other.errorCodes job = store.errorCodes job := by
  unfold errorCodes
  rw [same]

private theorem errorCodes_updateJobs (store : Store) (selected : JobRow → Bool)
    (change : JobRow → JobRow) (keepsKey : ∀ row, (change row).key = row.key) (job : String) :
    (store.updateJobs selected change keepsKey).errorCodes job = store.errorCodes job := rfl

private theorem errorCodes_unowned {store : Store} {job : String}
    (absent : store.jobs.find? job = none) :
    store.errorCodes job = [] := by
  have noErrors : (store.errors.filter fun error => error.jobId = job) = [] := by
    refine List.filter_eq_nil_iff.mpr fun error member isOwned => ?_
    obtain ⟨row, rowMember, sameId⟩ := store.errorsOwned error member
    exact store.jobs.find?_eq_none.mp absent row rowMember
      (sameId.trans (of_decide_eq_true isOwned))
  unfold errorCodes
  rw [noErrors]
  rfl

private theorem errorCodes_deleteJobs {store : Store} {selected : JobRow → Bool} {job : String}
    {row : JobRow} (found : (store.deleteJobs selected).jobs.find? job = some row) :
    (store.deleteJobs selected).errorCodes job = store.errorCodes job :=
  congrArg (List.map ErrorRow.errorCode)
    (cascade_spares found ErrorRow.jobId store.errors)

private theorem errors_insertJob? {store inserted : Store} {row : JobRow}
    (accepted : store.insertJob? row = some inserted) : inserted.errors = store.errors :=
  (insertJob?_some accepted).errors

private theorem errors_insertBlob? {store filled : Store} {blob : BlobRow}
    (accepted : store.insertBlob? blob = some filled) : filled.errors = store.errors :=
  (insertBlob?_some accepted).errors

private theorem errors_insertBlobs (job : String) (current : Instant) (blobs : List Descriptor)
    {store filled : Store}
    (accepted : blobs.foldlM
      (fun store blob => store.insertBlob? (.pending job current blob)) store = some filled) :
    filled.errors = store.errors :=
  insertBlobs_keeps Store.errors errors_insertBlob? job current blobs accepted

private theorem errorCodes_insertError? {store logged : Store} {error : ErrorRow} (job : String)
    (accepted : store.insertError? error = some logged) :
    logged.errorCodes job =
      store.errorCodes job ++ if error.jobId = job then [error.errorCode] else [] := by
  unfold errorCodes
  rw [(insertError?_some accepted).errors, List.filter_append, List.map_append]
  congr 1
  by_cases owner : error.jobId = job
  · rw [if_pos owner, List.filter_singleton, decide_eq_true owner]
    rfl
  · rw [if_neg owner, List.filter_singleton, decide_eq_false owner]
    rfl

private theorem errorCodes_commit {store : Store} {transaction : Transaction}
    (notFailure : ∀ job token failure current,
      transaction ≠ .call job token (.failOrRetry failure) current)
    {job : String} {row : JobRow} (found : (transaction.commit store).jobs.find? job = some row) :
    (transaction.commit store).errorCodes job = store.errorCodes job := by
  cases transaction with
  | enqueue values jobId current =>
      rcases Transaction.commit_enqueue store values jobId current with
        same | ⟨-, inserted, accepted, same⟩
      · rw [same]
      · rw [same]
        exact errorCodes_congr (errors_insertJob? accepted) job
  | claim worker leaseSeconds current token =>
      apply errorCodes_congr
      simp only [Transaction.commit, claim]
      cases ((store.sweep current).eligibleRows current).head? <;> rfl
  | call callJob token request current =>
      cases request with
      | heartbeat | finish | releaseClaim => rfl
      | saveSnapshot snapshot =>
          rcases Transaction.commit_saveSnapshot store callJob token snapshot current with
            same | ⟨_, filled, -, -, -, filledEq, saved⟩
          · rw [same]
          · rw [saved]
            exact errorCodes_congr (errors_insertBlobs callJob current snapshot.blobs filledEq) job
      | progress event =>
          exact errorCodes_congr
            (Transaction.errors_progress store callJob token event current).1 job
      | failOrRetry failure => exact absurd rfl (notFailure callJob token failure current)
  | cancelWrite | retryWrite | release => rfl
  | dismiss dismissed =>
      rcases Transaction.commit_dismiss store dismissed with same | deleted
      · rw [same]
      · rw [deleted] at found ⊢
        exact errorCodes_deleteJobs found
  | prune states olderThan dryRun =>
      rcases Transaction.commit_prune store states olderThan dryRun with same | ⟨selected, deleted⟩
      · rw [same]
      · rw [deleted] at found ⊢
        exact errorCodes_deleteJobs found

end Store

structure HistoryRecord (system : System) (log : List (String × Failure)) : Prop where
  drawn : ∀ entry ∈ log, entry.1 ∈ system.jobIds
  codes : ∀ job row, system.store.jobs.find? job = some row →
    system.store.errorCodes job = failureCodes log job

theorem failuresOf_append (log later : List (String × Failure)) (job : String) :
    failuresOf (log ++ later) job = failuresOf log job ++ failuresOf later job := by
  unfold failuresOf
  rw [List.filter_append, List.map_append]

theorem failuresOf_undrawn {system : System} {log : List (String × Failure)}
    (drawn : ∀ entry ∈ log, entry.1 ∈ system.jobIds) {job : String}
    (undrawn : job ∉ system.jobIds) :
    failuresOf log job = [] := by
  unfold failuresOf
  rw [List.map_eq_nil_iff, List.filter_eq_nil_iff]
  intro entry member same
  rw [← of_decide_eq_true same] at undrawn
  exact undrawn (drawn entry member)

/-- What a failure call does to the history and to the record, by the row it finds. -/
theorem failOrRetry_history (store : Store) (job token : String) (failure : Failure)
    (current : Instant) {row : JobRow} (found : store.jobs.find? job = some row) :
    let after := (Transaction.call job token (.failOrRetry failure) current).commit store
    (∀ other, after.errorCodes other =
      store.errorCodes other ++ if job = other then [failure.code] else []) ∧
    store.movedToFailure after job = decide (row.claimToken = some token) := by
  rcases Transaction.commit_failOrRetry store job token failure current with
    ⟨absent, -⟩ | ⟨error, logged, owner, code, loggedEq, written⟩
  · rw [found] at absent
    cases absent
  · rw [written]
    constructor
    · intro other
      rw [Store.errorCodes_updateJobs, Store.errorCodes_insertError? other loggedEq, owner, code]
    · unfold Store.movedToFailure
      rw [Store.find?_updateJobs, Store.jobs_insertError? loggedEq, found, Option.map_some]
      by_cases holds : row.claimToken = some token
      · have selected := JobRow.holdsClaim_iff.mpr ⟨store.jobs.find?_key found, holds⟩
        rw [if_pos selected, decide_eq_true holds]
        have cleared : (row.failOrRetry failure.code failure.message failure.retryable
            failure.delay failure.integrityFailure current).claimToken = none := rfl
        have settled : ((row.failOrRetry failure.code failure.message failure.retryable
            failure.delay failure.integrityFailure current).state = .retryWait ||
          (row.failOrRetry failure.code failure.message failure.retryable
            failure.delay failure.integrityFailure current).state = .failed) = true := by
          cases retried : failure.retryable <;> simp [JobRow.failOrRetry]
        generalize row.failOrRetry failure.code failure.message failure.retryable failure.delay
          failure.integrityFailure current = changed at cleared settled ⊢
        have differs : some changed ≠ some row := by
          intro same
          rw [← Option.some.inj same, cleared] at holds
          cases holds
        rw [decide_eq_true differs, Bool.true_and]
        exact settled
      · have notSelected : ¬ row.holdsClaim job token = true := fun held =>
          holds (JobRow.holdsClaim_iff.mp held).2
        rw [if_neg notSelected, decide_eq_false holds]
        simp

theorem failureReport_other {before after : System} {action : Action}
    (notFailure : ∀ job token failure current,
      action ≠ .commit (.call job token (.failOrRetry failure) current)) :
    failureReport before action after = [] := by
  unfold failureReport
  split
  · exact absurd rfl (notFailure _ _ _ _)
  · rfl

theorem failuresOf_report {before after : System} {job token : String} {failure : Failure}
    {current : Instant} {row : JobRow} (found : before.store.jobs.find? job = some row)
    (stored : after.store =
      (Transaction.call job token (.failOrRetry failure) current).commit before.store)
    (other : String) :
    failuresOf (failureReport before (.commit (.call job token (.failOrRetry failure) current))
      after) other = if row.claimToken = some token ∧ job = other then [failure] else [] := by
  have movedIff := (failOrRetry_history before.store job token failure current found).2
  rw [← stored] at movedIff
  simp only [failureReport, movedIff, decide_eq_true_eq]
  by_cases holds : row.claimToken = some token <;> by_cases same : job = other <;>
    simp [failuresOf, holds, same]

theorem failOrRetry_missing {store : Store} {job : String}
    (absent : store.jobs.find? job = none) (token : String) (failure : Failure)
    (current : Instant) :
    (Transaction.call job token (.failOrRetry failure) current).commit store = store := by
  rcases Transaction.commit_failOrRetry store job token failure current with
    ⟨-, same⟩ | ⟨error, logged, owner, -, loggedEq, -⟩
  · exact same
  · obtain ⟨row, present⟩ := (Store.insertError?_some loggedEq).owned
    rw [owner, absent] at present
    cases present

namespace HistoryRecord

variable {before after : System} {action : Action} {log : List (String × Failure)}

theorem drawn_step (drawn : ∀ entry ∈ log, entry.1 ∈ before.jobIds)
    (reached : interleaved.Reachable before) (moved : interleaved.next before action = some after) :
    ∀ entry ∈ log ++ failureReport before action after, entry.1 ∈ after.jobIds := by
  intro entry member
  rcases List.mem_append.mp member with earlier | reported
  · exact (System.next_drawn moved).2 (drawn entry earlier)
  · unfold failureReport at reported
    split at reported
    · rename_i job token failure current
      split at reported
      · rename_i movedJob
        rw [List.mem_singleton.mp reported]
        obtain ⟨row, found, -⟩ :=
          (Option.any_eq_true _ _).mp ((Bool.and_eq_true _ _).mp movedJob).2
        exact System.drawn_of_found (reached.step moved) found
      · cases reported
    · cases reported

private theorem codes_other (record : HistoryRecord before log)
    (moved : before.next action = some after)
    (notFailure : ∀ job token failure current,
      action ≠ .commit (.call job token (.failOrRetry failure) current)) :
    ∀ job row, after.store.jobs.find? job = some row →
      after.store.errorCodes job = failureCodes log job := by
  intro job row found
  have sameCodes : after.store.errorCodes job = before.store.errorCodes job := by
    rcases System.next_store moved with same | ⟨transaction, rfl, committed⟩
    · rw [same]
    · rw [committed] at found ⊢
      refine Store.errorCodes_commit (fun callJob token failure current isFailure => ?_) found
      exact notFailure callJob token failure current (congrArg Action.commit isFailure)
  rw [sameCodes]
  rcases System.next_row moved found with ⟨old, present, -⟩ | ⟨absent, undrawn, -⟩
  · exact record.codes job old present
  · unfold failureCodes
    rw [Store.errorCodes_unowned absent, failuresOf_undrawn record.drawn undrawn]
    rfl

/-- The history and the record stay equal exactly when the move meets the condition. -/
theorem codes_step (record : HistoryRecord before log) (moved : before.next action = some after) :
    (∀ job row, after.store.jobs.find? job = some row →
      after.store.errorCodes job =
        failureCodes (log ++ failureReport before action after) job) ↔
      FailureUnderClaim before action := by
  by_cases isFailure : ∃ job token failure current,
      action = .commit (.call job token (.failOrRetry failure) current)
  · obtain ⟨job, token, failure, current, rfl⟩ := isFailure
    have stored := System.next_commit_store moved
    change _ ↔ ∀ row, before.store.jobs.find? job = some row → row.claimToken = some token
    cases found : before.store.jobs.find? job with
    | none =>
        have unchanged : after.store = before.store :=
          stored.trans (failOrRetry_missing found token failure current)
        have unreported :
            failureReport before (.commit (.call job token (.failOrRetry failure) current)) after =
              [] := by
          simp [failureReport, Store.movedToFailure, unchanged, found]
        rw [unreported, List.append_nil, unchanged]
        exact ⟨fun _ => (fun row impossible => by cases impossible), fun _ => record.codes⟩
    | some row =>
        have codes := (failOrRetry_history before.store job token failure current found).1
        rw [← stored] at codes
        have reported := failuresOf_report found stored
        constructor
        · intro agree other sameRow
          cases sameRow
          obtain ⟨changed, changedFound, -⟩ :=
            Transaction.call_found found job token (.failOrRetry failure) current
          rw [← stored] at changedFound
          have both := agree job changed changedFound
          unfold failureCodes at both
          rw [codes, failuresOf_append, reported, record.codes job row found,
            List.map_append] at both
          by_contra notHeld
          simp [notHeld, failureCodes] at both
        · intro holds other changed changedFound
          have held := holds row rfl
          rw [stored] at changedFound
          obtain ⟨old, oldFound, -⟩ := Transaction.call_row changedFound
          unfold failureCodes
          rw [codes, failuresOf_append, reported, record.codes other old oldFound, List.map_append]
          by_cases same : job = other <;> simp [held, same, failureCodes]
  · have notFailure : ∀ job token failure current,
        action ≠ .commit (.call job token (.failOrRetry failure) current) :=
      fun job token failure current same => isFailure ⟨job, token, failure, current, same⟩
    rw [failureReport_other notFailure, List.append_nil]
    refine ⟨fun _ => ?_, fun _ => record.codes_other moved notFailure⟩
    unfold FailureUnderClaim
    split
    · exact absurd rfl (notFailure _ _ _ _)
    · trivial

end HistoryRecord

private theorem historyRecord_of_run {state : System × List (String × Failure)}
    (run : (interleaved.recorded failureReport).Run (Machine.Unrecorded FailureUnderClaim)
      (System.initial, []) state) : HistoryRecord state.1 state.2 := by
  refine Machine.Run.recorded_preserves HistoryRecord ?_ ⟨System.initial, rfl, Machine.Run.refl _⟩
    run ?_
  · intro before action after log underClaim reached moved record
    exact ⟨HistoryRecord.drawn_step record.drawn reached moved,
      (record.codes_step moved).mpr underClaim⟩
  · exact HistoryRecord.mk (fun entry member => by cases member)
      (fun job row found => by cases found)

/-- A failure call that returns False has written nothing exactly if it could not. -/
theorem failOrRetry_refused (store : Store) (job token : String) (failure : Failure)
    (current : Instant) :
    (∀ after, (ClaimCall.failOrRetry failure).run store job token current = .ok (after, false) →
      after = store) ↔
    ∀ row, store.jobs.find? job = some row → row.claimToken = some token := by
  simp only [ClaimCall.run, Store.failOrRetry]
  split
  · rename_i refused
    have absent : store.jobs.find? job = none := Store.insertError?_none refused
    refine ⟨fun _ row found => ?_, fun _ after impossible => by cases impossible⟩
    rw [absent] at found
    cases found
  · rename_i logged loggedEq
    have sequence := (Store.insertError?_some loggedEq).sequence
    have oneRow := store.count_holdsClaim_eq_one job token
    rw [Store.jobs_insertError? loggedEq]
    constructor
    · intro unchanged row found
      by_contra notHeld
      have refused : ¬ store.jobs.count (JobRow.holdsClaim job token) = 1 := by
        rw [oneRow]
        rintro ⟨other, otherFound, held⟩
        rw [found] at otherFound
        cases otherFound
        exact notHeld held
      have same := unchanged _ (by rw [decide_eq_false refused])
      have sameSequence := congrArg Store.errorSequence same
      change logged.errorSequence = store.errorSequence at sameSequence
      omega
    · intro held after returned
      obtain ⟨row, found⟩ := (Store.insertError?_some loggedEq).owned
      rw [decide_eq_true (oneRow.mpr ⟨row, found, held row found⟩)] at returned
      cases returned

/-- In every run whose failure calls on stored jobs all come under the current
token, the history of each stored job is the list of the calls that moved it.
Any other failure call then ends that, and returns False with a row written. -/
theorem error_history_of_claimed_failures {state : System × List (String × Failure)}
    (run : (interleaved.recorded failureReport).Run (Machine.Unrecorded FailureUnderClaim)
      (System.initial, []) state) :
    (∀ job row, state.1.store.jobs.find? job = some row →
      state.1.store.errorCodes job = failureCodes state.2 job) ∧
    (∀ action after, (interleaved.recorded failureReport).next state action = some after →
      ((∀ job row, after.1.store.jobs.find? job = some row →
          after.1.store.errorCodes job = failureCodes after.2 job) ↔
        FailureUnderClaim state.1 action)) ∧
    ∀ job token failure current,
      (∀ store, (ClaimCall.failOrRetry failure).run state.1.store job token current =
          .ok (store, false) → store = state.1.store) ↔
        FailureUnderClaim state.1 (.commit (.call job token (.failOrRetry failure) current)) := by
  have record := historyRecord_of_run run
  refine ⟨record.codes, fun action after moved => ?_, fun job token failure current =>
    failOrRetry_refused state.1.store job token failure current⟩
  obtain ⟨stepped, written⟩ := Machine.recorded_next.mp moved
  rw [written]
  exact record.codes_step stepped

def sampleFailureOf (code : String) : Failure :=
  { code := code
    message := "registry error"
    retryable := true
    delay := some 1
    httpStatus := none
    integrityFailure := false }

theorem error_history_of_claimed_failures_after_one :
    ∃ (state : System × List (String × Failure)) (row : JobRow),
      (interleaved.recorded failureReport).Run (Machine.Unrecorded FailureUnderClaim)
        (System.initial, []) state ∧ state.1.store.jobs.find? "job" = some row ∧
      failureCodes state.2 "job" = ["registry_unavailable"] ∧
      state.1.store.errorCodes "job" = ["registry_unavailable"] := by
  have run : (((interleaved.recorded failureReport).execute (Machine.Unrecorded FailureUnderClaim)
      [.commit (.enqueue sampleValues "job" 0), .commit (.claim "worker" 60 1 "token"),
        .commit (.call "job" "token" (.failOrRetry (sampleFailureOf "registry_unavailable")) 2)]
      (System.initial, [])).any fun state => (state.1.store.jobs.find? "job").isSome &&
        decide (failureCodes state.2 "job" = ["registry_unavailable"])) = true := by decide
  obtain ⟨state, ran, both⟩ := Machine.exists_run_of_execute _ _ run
  obtain ⟨stored, logged⟩ := (Bool.and_eq_true _ _).mp both
  obtain ⟨row, found⟩ := Option.isSome_iff_exists.mp stored
  have isLogged := of_decide_eq_true logged
  refine ⟨state, row, ran, found, isLogged, ?_⟩
  rw [(error_history_of_claimed_failures ran).1 "job" row found]
  exact isLogged

def claimedTwice : List Action :=
  [.commit (.enqueue sampleValues "job" 0), .commit (.claim "first" 1 1 "old"),
    .commit (.claim "second" 60 2000000 "new")]

/-- A failure that the first worker then reports stays in the history, though
the call moves nothing and returns False. -/
theorem superseded_failure_enters_history :
    (¬ ∀ state, (interleaved.recorded failureReport).Reachable state →
      ∀ job row, state.1.store.jobs.find? job = some row →
        state.1.store.errorCodes job = failureCodes state.2 job) ∧
    ¬ ∀ system, interleaved.Reachable system → ∀ job token failure current store,
      (ClaimCall.failOrRetry failure).run system.store job token current = .ok (store, false) →
        store = system.store := by
  constructor
  · intro claimed
    have started : (interleaved.recorded failureReport).start (System.initial, []) := ⟨rfl, rfl⟩
    have run : (((interleaved.recorded failureReport).execute Machine.Always
        (claimedTwice ++ [.commit (.call "job" "old"
          (.failOrRetry (sampleFailureOf "registry_unavailable")) 2000001)])
        (System.initial, [])).any fun state =>
          (state.1.store.jobs.find? "job").isSome &&
            decide (state.1.store.errorCodes "job" ≠ failureCodes state.2 "job")) = true := by
      decide
    obtain ⟨state, reached, both⟩ := Machine.exists_reachable_of_execute _ started run
    obtain ⟨stored, differs⟩ := (Bool.and_eq_true _ _).mp both
    obtain ⟨row, found⟩ := Option.isSome_iff_exists.mp stored
    exact of_decide_eq_true differs (claimed state reached "job" row found)
  · intro claimed
    have run : ((interleaved.execute Machine.Always claimedTwice System.initial).any fun system =>
        (system.store.jobs.find? "job").any fun row =>
          decide (row.claimToken ≠ some "old")) = true := by decide
    obtain ⟨system, reached, lost⟩ := interleaved.exists_reachable_of_execute rfl run
    obtain ⟨row, found, differs⟩ := (Option.any_eq_true _ _).mp lost
    have unchanged :=
      claimed system reached "job" "old" (sampleFailureOf "registry_unavailable") 2000001
    exact of_decide_eq_true differs ((failOrRetry_refused _ _ _ _ _).mp unchanged row found)

end OciTransfer
