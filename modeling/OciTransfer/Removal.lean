import OciTransfer.Pruning
import OciTransfer.Serialization
import OciTransfer.StoreReads

/-!
Jobs that are removed.

Only `dismiss` and `prune` take a job's row away, and only one in a terminal
state; its blob and error rows go with it.  No identifier is drawn twice, so the
job never comes back, and whoever still holds its identifier or an old token is
told so by every method.
-/

namespace OciTransfer

namespace Transaction

variable {transaction : Transaction} {store : Store} {job : String} {row : JobRow}

private theorem claim_found (found : store.jobs.find? job = some row) (worker token : String)
    (leaseSeconds : Int) (current : Instant) :
    ∃ after, (store.claim worker leaseSeconds current token).1.jobs.find? job = some after := by
  cases chosen : ((store.sweep current).eligibleRows current).head? with
  | none =>
      simp only [Store.claim, chosen]
      simp only [Store.sweep, Store.find?_updateJobs, found, Option.map_some]
      exact ⟨_, rfl⟩
  | some first =>
      simp only [Store.claim, chosen]
      simp only [Store.takeJob, Store.sweep, Store.find?_updateJobs, found, Option.map_some]
      exact ⟨_, rfl⟩

theorem removes (found : store.jobs.find? job = some row)
    (removed : (transaction.commit store).jobs.find? job = none) :
    row.state.terminal = true ∧ (transaction = .dismiss job ∨
      ∃ states olderThan, transaction = .prune states olderThan false) := by
  have updated : ∀ {selected : JobRow → Bool} {change : JobRow → JobRow}
      {keepsKey : ∀ row, (change row).key = row.key},
      (store.updateJobs selected change keepsKey).jobs.find? job ≠ none := by
    intro selected change keepsKey absent
    rw [Store.find?_updateJobs, found] at absent
    cases absent
  cases transaction with
  | enqueue values jobId current =>
      rcases commit_enqueue store values jobId current with same | ⟨-, inserted, accepted, same⟩
      · rw [same, found] at removed
        cases removed
      · rw [same, Store.find?_insertJob? accepted] at removed
        split at removed
        · cases removed
        · rw [found] at removed
          cases removed
  | claim worker leaseSeconds current token =>
      obtain ⟨after, stillFound⟩ := claim_found found worker token leaseSeconds current
      have absent : (store.claim worker leaseSeconds current token).1.jobs.find? job = none :=
        removed
      rw [stillFound] at absent
      cases absent
  | call callJob token request current =>
      obtain ⟨changed, stillFound, -⟩ := call_found found callJob token request current
      rw [stillFound] at removed
      cases removed
  | cancelWrite | retryWrite | release => exact absurd removed updated
  | dismiss target =>
      simp only [commit, Store.dismiss] at removed
      cases targetFound : store.jobs.find? target with
      | none =>
          simp only [targetFound] at removed
          rw [found] at removed
          cases removed
      | some targetRow =>
          simp only [targetFound] at removed
          by_cases terminal : targetRow.state.terminal = true
          · simp only [terminal, if_true, Store.find?_deleteJobs, found] at removed
            have selected : row.id = target := by
              by_contra other
              rw [Option.filter_some, if_pos (by simp [other])] at removed
              cases removed
            have rowId : row.id = job := store.jobs.find?_key found
            rw [← selected, rowId, found] at targetFound
            cases targetFound
            exact ⟨terminal, Or.inl (by rw [← selected, rowId])⟩
          · simp only [terminal, if_false, Bool.false_eq_true] at removed
            rw [found] at removed
            cases removed
  | prune states olderThan dryRun =>
      simp only [commit] at removed
      cases outcome : store.prune states olderThan dryRun with
      | error raised =>
          simp only [outcome] at removed
          rw [found] at removed
          cases removed
      | ok result =>
          simp only [outcome] at removed
          have asPruned := Store.prune_modes outcome dryRun
          rw [outcome] at asPruned
          cases asPruned
          cases dryRun with
          | true =>
              have absent : store.jobs.find? job = none := removed
              rw [found] at absent
              cases absent
          | false =>
              have member := store.jobs.find?_mem found
              have listed : row.id ∈ store.prunableIds states olderThan := by
                by_contra notListed
                have absent : (store.deleteJobs fun row =>
                    (store.prunableIds states olderThan).contains row.id).jobs.find? job =
                      none := removed
                rw [Store.find?_deleteJobs, found, Option.filter_some,
                  if_pos (by simp [notListed])] at absent
                cases absent
              have selected := (Store.id_mem_prunableIds member).mp listed
              exact ⟨(Store.prunable_iff.mp selected).1, Or.inr ⟨states, olderThan, rfl⟩⟩

end Transaction

/-- A progress call that `progress` passes over without looking at the queue. -/
def ClaimCall.ignored : ClaimCall → Bool
  | .progress event => event.namedDigest.isNone && (event.phase.bind PhaseName.state?).isNone
  | _ => false

/-- The statement of the call can be sent at all, whatever rows it would find. -/
def ClaimCall.binds : ClaimCall → Bool
  | .saveSnapshot snapshot => Store.optionFits snapshot.expectedBytes
  | _ => true

/-- The store knows nothing of the job, and says so to whoever asks: the methods
that name a job raise, a worker is told to stop, and its calls are refused and
change nothing, the report of a failure by the foreign key of its row. -/
structure Store.Forgot (store : Store) (job : String) : Prop where
  row : store.jobs.find? job = none
  blobs : store.jobBlobs job = []
  errors : store.jobErrors job = []
  get : store.get job = .error (.jobNotFound job)
  details : store.details job = .error (.jobNotFound job)
  cancel : ∀ current, store.cancel job current = .error (.jobNotFound job)
  retry : ∀ current, store.retry job current = .error (.jobNotFound job)
  dismiss : store.dismiss job = .error (.jobNotFound job)
  stops : ∀ token, store.cancellationRequested job token = true
  failures : ∀ (token : String) (failure : Failure) (current : Instant),
    (ClaimCall.failOrRetry failure).run store job token current = .error .integrityError
  calls : ∀ (token : String) (request : ClaimCall) (current : Instant),
    (∀ failure, request ≠ .failOrRetry failure) →
    request.run store job token current =
      if request.binds then .ok (store, request.ignored) else .error .overflow

namespace Store

variable {store : Store} {job : String}

private theorem not_held_of_absent (absent : store.jobs.find? job = none) (token : String) :
    ∀ row ∈ store.jobs.rows, row.holdsClaim job token = false := by
  refine Unclaimed.not_holdsClaim fun row found => ?_
  rw [absent] at found
  cases found

private theorem blob_of_absent (absent : store.jobs.find? job = none) (digest : String) :
    store.blobs.find? (job, digest) = none := by
  refine store.blobs.find?_eq_none.mpr fun blob member sameKey => ?_
  obtain ⟨row, rowMember, rowId⟩ := store.blobsOwned blob member
  exact store.jobs.find?_eq_none.mp absent row rowMember (rowId.trans (congrArg Prod.fst sameKey))

/-- A call for a job that is not there finds nothing to write. -/
theorem run_of_absent (absent : store.jobs.find? job = none) (token : String)
    (request : ClaimCall) (current : Instant)
    (notFailure : ∀ failure, request ≠ .failOrRetry failure) :
    request.run store job token current =
      if request.binds then .ok (store, request.ignored) else .error .overflow := by
  have notHeld := not_held_of_absent absent token
  have guarded : ∀ extra : JobRow → Bool, ∀ row ∈ store.jobs.rows,
      (row.holdsClaim job token && extra row) = false := by
    intro extra row member
    rw [notHeld row member, Bool.false_and]
  have countedOut : ∀ {selected : JobRow → Bool}, (∀ row ∈ store.jobs.rows, selected row = false) →
      decide (store.jobs.count selected = 1) = false := by
    intro selected unselected
    have zero : store.jobs.count selected = 0 :=
      List.countP_eq_zero.mpr fun row member => by
        rw [unselected row member]
        exact Bool.false_ne_true
    rw [zero]
    rfl
  cases request with
  | heartbeat leaseSeconds =>
      simp only [ClaimCall.run, heartbeat]
      rw [updateJobs_self (guarded fun row => !row.state.terminal),
        countedOut (guarded fun row => !row.state.terminal)]
      rfl
  | saveSnapshot snapshot =>
      have unplanned := countedOut (guarded fun row => decide (row.state = .planning))
      simp only [ClaimCall.run, saveSnapshot, if_neg (of_decide_eq_false unplanned)]
      by_cases fits : (ClaimCall.saveSnapshot snapshot).binds = true
      · have bound : optionFits snapshot.expectedBytes = true := fits
        rw [if_pos fits, bound]
        rfl
      · have large : optionFits snapshot.expectedBytes = false := Bool.eq_false_iff.mpr fits
        rw [if_neg fits, large]
        rfl
  | progress event =>
      simp only [ClaimCall.run, progress, ClaimCall.ignored]
      cases named : event.namedDigest with
      | none =>
          simp only [progressPhase]
          cases wanted : event.phase.bind PhaseName.state? with
          | none => rfl
          | some phase =>
              simp only []
              rw [updateJobs_self notHeld, countedOut notHeld]
              rfl
      | some digest =>
          simp only [overflows, progressBlob, blob_of_absent absent digest]
          rfl
  | finish state code message =>
      simp only [ClaimCall.run, finish]
      rw [updateJobs_self notHeld, countedOut notHeld]
      rfl
  | releaseClaim =>
      simp only [ClaimCall.run, releaseClaim]
      rw [updateJobs_self (guarded fun row => row.state.working),
        countedOut (guarded fun row => row.state.working)]
      rfl
  | failOrRetry failure => exact absurd rfl (notFailure failure)

private theorem failOrRetry_of_absent (absent : store.jobs.find? job = none) (token : String)
    (failure : Failure) (current : Instant) :
    (ClaimCall.failOrRetry failure).run store job token current = .error .integrityError := by
  simp only [ClaimCall.run, failOrRetry]
  split
  · rfl
  · rename_i logged loggedEq
    obtain ⟨row, found⟩ := (insertError?_some loggedEq).owned
    rw [absent] at found
    cases found

private theorem forgot_of_absent (absent : store.jobs.find? job = none) : store.Forgot job := by
  have raises : store.get job = .error (.jobNotFound job) := by
    unfold get
    rw [absent]
  have unowned : ∀ row ∈ store.jobs.rows, row.id ≠ job := store.jobs.find?_eq_none.mp absent
  exact
    { row := absent
      blobs := List.filter_eq_nil_iff.mpr fun blob member owned => by
        obtain ⟨row, rowMember, rowId⟩ := store.blobsOwned blob member
        exact unowned row rowMember (rowId.trans (of_decide_eq_true owned))
      errors := by
        have none : (store.errors.filter fun error => error.jobId = job) = [] :=
          List.filter_eq_nil_iff.mpr fun error member owned => by
            obtain ⟨row, rowMember, rowId⟩ := store.errorsOwned error member
            exact unowned row rowMember (rowId.trans (of_decide_eq_true owned))
        unfold jobErrors
        rw [none]
        rfl
      get := raises
      details := by
        unfold details
        rw [absent]
      cancel := fun current => by simp only [Store.cancel, raises]
      retry := fun current => by simp only [Store.retry, raises]
      dismiss := by
        unfold dismiss
        rw [absent]
      stops := fun token => by simp only [cancellationRequested, absent]
      failures := failOrRetry_of_absent absent
      calls := run_of_absent absent }

private theorem deleteJobs_spares {selected : JobRow → Bool} {other : String} {row : JobRow}
    (found : (store.deleteJobs selected).jobs.find? other = some row) :
    store.jobs.find? other = some row ∧
      (store.deleteJobs selected).jobBlobs other = store.jobBlobs other ∧
      (store.deleteJobs selected).jobErrors other = store.jobErrors other := by
  refine ⟨row_of_deleteJobs found, ?_, ?_⟩
  · have spared := cascade_spares found BlobRow.jobId store.blobs.rows
    unfold jobBlobs deleteJobs KeyedTable.delete
    simp only [Bool.not_not]
    exact spared
  · have spared := cascade_spares found ErrorRow.jobId store.errors
    exact congrArg (List.insertionSort fun left right : ErrorRow => left.id ≤ right.id) spared

end Store

private theorem Transaction.deletes_of_removes {transaction : Transaction} {store : Store}
    {job : String}
    {row : JobRow} (found : store.jobs.find? job = some row)
    (removed : (transaction.commit store).jobs.find? job = none) :
    ∃ selected, transaction.commit store = store.deleteJobs selected := by
  rcases (removes found removed).2 with rfl | ⟨states, olderThan, rfl⟩
  · rcases commit_dismiss store job with same | deleted
    · rw [same, found] at removed
      cases removed
    · exact ⟨_, deleted⟩
  · rcases commit_prune store states olderThan false with same | ⟨selected, deleted⟩
    · rw [same, found] at removed
      cases removed
    · exact ⟨selected, deleted⟩

theorem System.absent_step {before after : System} {action : Action} {job : String}
    (moved : before.next action = some after) (drawn : job ∈ before.jobIds)
    (absent : before.store.jobs.find? job = none) : after.store.jobs.find? job = none := by
  refine Option.eq_none_iff_forall_ne_some.mpr fun row found => ?_
  rcases System.next_row moved found with ⟨old, present, -⟩ | ⟨-, undrawn, -⟩
  · rw [absent] at present
    cases present
  · exact undrawn drawn

/-- A job is removed only when it has ended, by `dismiss` or by `prune`, and without
a trace in the jobs that stay.  From then on the store knows nothing of it, in any
run of any clients and workers, whatever tokens they still hold. -/
theorem removed_jobs_are_forgotten {before after later : System} {action : Action}
    (reached : interleaved.Reachable before) (moved : before.next action = some after)
    {job : String} {row : JobRow} (found : before.store.jobs.find? job = some row)
    (removed : after.store.jobs.find? job = none)
    (run : interleaved.Run Machine.Always after later) :
    row.state.terminal = true ∧
    (action = .commit (.dismiss job) ∨
      ∃ states olderThan, action = .commit (.prune states olderThan false)) ∧
    (∀ other kept, after.store.jobs.find? other = some kept →
      before.store.jobs.find? other = some kept ∧
      after.store.jobBlobs other = before.store.jobBlobs other ∧
      after.store.jobErrors other = before.store.jobErrors other) ∧
    later.store.Forgot job := by
  rcases System.next_store moved with same | ⟨transaction, rfl, committed⟩
  · rw [same, found] at removed
    cases removed
  · have gone := removed
    rw [committed] at gone
    obtain ⟨terminal, which⟩ := Transaction.removes found gone
    obtain ⟨selected, deleted⟩ := Transaction.deletes_of_removes found gone
    refine ⟨terminal, ?_, ?_, ?_⟩
    · rcases which with rfl | ⟨states, olderThan, rfl⟩
      · exact Or.inl rfl
      · exact Or.inr ⟨states, olderThan, rfl⟩
    · rw [committed, deleted]
      exact fun other kept keptFound => Store.deleteJobs_spares keptFound
    · refine Store.forgot_of_absent ?_
      have stays := run.preserves
        (fun system => job ∈ system.jobIds ∧ system.store.jobs.find? job = none) ?_
        ⟨(System.next_drawn moved).2 (System.drawn_of_found reached found), removed⟩
      · exact stays.2
      · rintro middle label next - stepped ⟨drawn, absent⟩
        exact ⟨(System.next_drawn stepped).2 drawn, System.absent_step stepped drawn absent⟩

theorem removed_jobs_are_forgotten_after_dismissal :
    ∃ before after later row, interleaved.Reachable before ∧
      before.next (.commit (.dismiss "job")) = some after ∧
      before.store.jobs.find? "job" = some row ∧ row.state.terminal = true ∧
      interleaved.Run Machine.Always after later ∧ later.store.Forgot "job" := by
  have runs : ((interleaved.execute Machine.Always cancelledAroundEnqueue System.initial).any
      fun before => (before.store.jobs.find? "job").isSome &&
        (before.next (.commit (.dismiss "job"))).any fun after =>
          (after.store.jobs.find? "job").isNone &&
            (interleaved.execute Machine.Always
              [.commit (.call "job" "token" (.failOrRetry timeoutFailure) 3)] after).any
                fun _ => true) = true := by
    decide
  obtain ⟨before, reached, both⟩ := interleaved.exists_reachable_of_execute rfl runs
  obtain ⟨stored, dismisses⟩ := (Bool.and_eq_true _ _).mp both
  obtain ⟨row, found⟩ := Option.isSome_iff_exists.mp stored
  obtain ⟨after, moved, continues⟩ := (Option.any_eq_true _ _).mp dismisses
  obtain ⟨removed, reports⟩ := (Bool.and_eq_true _ _).mp continues
  obtain ⟨later, run, -⟩ := interleaved.exists_run_of_execute Machine.Always reports
  obtain ⟨terminal, -, -, forgot⟩ := removed_jobs_are_forgotten reached moved found
    (Option.isNone_iff_eq_none.mp removed) run
  exact ⟨before, after, later, row, reached, moved, found, terminal, run, forgot⟩

end OciTransfer
