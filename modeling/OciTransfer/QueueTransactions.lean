import OciTransfer.Guards
import OciTransfer.QueueStore

/-!
What one committed transaction does to one job row.

The transactions are the atomic units of the store: every method is one of
them, except `cancel` and `retry`, which read in one and write in another.
`RowStep` lists, guard by guard, every way a transaction changes a row, and
`commit_row` says that the list is complete.  Invariants of the queue are
proved by cases on it; no later module unfolds a method again for them.
-/

namespace OciTransfer

structure Failure where
  code : String
  message : String
  retryable : Bool
  delay : Option ℚ
  httpStatus : Option Int
  integrityFailure : Bool
  deriving DecidableEq, Repr

/-- The six methods that name a job and the token of a claim on it. -/
inductive ClaimCall where
  | heartbeat (leaseSeconds : Int)
  | saveSnapshot (snapshot : ImageSnapshot)
  | progress (event : Event)
  | finish (state : TerminalState) (code message : Option String)
  | failOrRetry (failure : Failure)
  | releaseClaim
  deriving DecidableEq, Repr

def ClaimCall.run (call : ClaimCall) (store : Store) (job token : String) (current : Instant) :
    Except StoreError (Store × Bool) :=
  match call with
  | .heartbeat leaseSeconds => .ok (store.heartbeat job token leaseSeconds current)
  | .saveSnapshot snapshot => store.saveSnapshot job token snapshot current
  | .progress event => store.progress job token event current
  | .finish state code message => .ok (store.finish job token state code message current)
  | .failOrRetry failure =>
      store.failOrRetry job token failure.code failure.message failure.retryable failure.delay
        failure.httpStatus failure.integrityFailure current
  | .releaseClaim => .ok (store.releaseClaim job token current)

inductive Transaction where
  | enqueue (values : EnqueueValues) (jobId : String) (current : Instant)
  | claim (worker : String) (leaseSeconds : Int) (current : Instant) (token : String)
  | call (job token : String) (request : ClaimCall) (current : Instant)
  | cancelWrite (job : String) (target : CancelTarget) (current : Instant)
  | retryWrite (job : String) (current : Instant)
  | dismiss (job : String)
  | release (workerPrefix : String) (current : Instant)
  | prune (states : Option (List JobState)) (olderThan : Option String) (dryRun : Bool)
  deriving DecidableEq, Repr

/-- The store a transaction leaves: a method that raises has rolled back. -/
def Transaction.commit (transaction : Transaction) (store : Store) : Store :=
  match transaction with
  | .enqueue values jobId current =>
      match store.enqueue values jobId current with
      | .ok (after, _) => after
      | .error _ => store
  | .claim worker leaseSeconds current token =>
      (store.claim worker leaseSeconds current token).1
  | .call job token request current =>
      match request.run store job token current with
      | .ok (after, _) => after
      | .error _ => store
  | .cancelWrite job target current => store.cancelWrite job target current
  | .retryWrite job current => store.retryWrite job current
  | .dismiss job =>
      match store.dismiss job with
      | .ok after => after
      | .error _ => store
  | .release workerPrefix current => store.release workerPrefix current
  | .prune states olderThan dryRun =>
      match store.prune states olderThan dryRun with
      | .ok (after, _) => after
      | .error _ => store

/-- A change of one job row by a transaction, with the guard under which it happens. -/
inductive RowStep : Transaction → JobRow → JobRow → Prop where
  | swept {worker leaseSeconds current token row} :
      row.sweepDue current = true →
      RowStep (.claim worker leaseSeconds current token) row (row.sweep current)
  | taken {worker leaseSeconds current token row} :
      row.eligible current = true →
      RowStep (.claim worker leaseSeconds current token) row
        (row.take worker token leaseSeconds current)
  | beat {job token leaseSeconds current row} :
      row.id = job → row.claimToken = some token → row.state.terminal = false →
      RowStep (.call job token (.heartbeat leaseSeconds) current) row
        (row.beat leaseSeconds current)
  | pinned {job token snapshot current row} :
      row.id = job → row.claimToken = some token → row.state = .planning →
      RowStep (.call job token (.saveSnapshot snapshot) current) row (row.pin snapshot current)
  | entered {job token event phase current row} :
      row.id = job → row.claimToken = some token →
      event.namedDigest = none → event.phase.bind PhaseName.state? = some phase →
      RowStep (.call job token (.progress event) current) row (row.enter phase current)
  | tallied {job token digest event bytes network blobs progressed current row} :
      row.id = job → row.claimToken = some token → event.namedDigest = some digest →
      RowStep (.call job token (.progress event) current) row
        (row.tally bytes network blobs event.bytesPerSecond progressed current)
  | finished {job token state code message current row} :
      row.id = job → row.claimToken = some token →
      RowStep (.call job token (.finish state code message) current) row
        (row.finish state code message current)
  | failed {job token failure current row} :
      row.id = job → row.claimToken = some token →
      RowStep (.call job token (.failOrRetry failure) current) row
        (row.failOrRetry failure.code failure.message failure.retryable failure.delay
          failure.integrityFailure current)
  | givenBack {job token current row} :
      row.id = job → row.claimToken = some token → row.state.working = true →
      RowStep (.call job token .releaseClaim current) row (row.release current)
  | released {workerPrefix current row} :
      row.ownedBy workerPrefix = true → row.state.working = true →
      RowStep (.release workerPrefix current) row (row.release current)
  | cancelWritten {job target current row} :
      row.id = job → RowStep (.cancelWrite job target current) row (row.cancelWrite target current)
  | retryWritten {job current row} :
      row.id = job → RowStep (.retryWrite job current) row (row.retryWrite current)

namespace JobRow

@[simp] theorem holdsClaim_iff {job token : String} {row : JobRow} :
    row.holdsClaim job token = true ↔ row.id = job ∧ row.claimToken = some token := by
  simp [holdsClaim]

@[simp] theorem sweepDue_iff {current : Instant} {row : JobRow} :
    row.sweepDue current = true ↔
      row.state = .cancelRequested ∧ (row.workerId = none ∨ row.leaseBefore current = true) := by
  simp [sweepDue]

@[simp] theorem eligible_iff {current : Instant} {row : JobRow} :
    row.eligible current = true ↔
      row.state = .queued ∨
      (row.state = .retryWait ∧ ∃ due, row.nextRetryAt = some due ∧ due ≤ current) ∨
      (row.state.working = true ∧ row.leaseBefore current = true) := by
  simp only [eligible, Bool.or_eq_true, Bool.and_eq_true, decide_eq_true_eq, Option.any_eq_true,
    or_assoc]

theorem live_of_eligible {current : Instant} {row : JobRow}
    (eligible : row.eligible current = true) :
    row.state.terminal = false ∧ row.state ≠ .cancelRequested := by
  rcases eligible_iff.mp eligible with queued | ⟨waiting, -⟩ | ⟨working, -⟩
  · rw [queued]
    exact ⟨rfl, by decide⟩
  · rw [waiting]
    exact ⟨rfl, by decide⟩
  · cases stateEq : row.state <;> rw [stateEq] at working <;>
      first | exact ⟨rfl, by decide⟩ | cases working

theorem sweep_not_eligible (current : Instant) (row : JobRow) :
    (row.sweep current).eligible current = false := by
  simp [eligible, sweep, JobState.working]

theorem not_eligible_of_sweepDue {current : Instant} {row : JobRow}
    (due : row.sweepDue current = true) : row.eligible current = false := by
  obtain ⟨requested, -⟩ := sweepDue_iff.mp due
  simp [eligible, requested, JobState.working]

end JobRow

namespace Store

/-! ### Lookups after the elementary statements -/

@[simp] theorem find?_updateJobs (store : Store) (selected : JobRow → Bool)
    (change : JobRow → JobRow) (keepsKey : ∀ row, (change row).key = row.key) (job : String) :
    (store.updateJobs selected change keepsKey).jobs.find? job =
      (store.jobs.find? job).map fun row => if selected row then change row else row :=
  store.jobs.find?_update selected change keepsKey job

@[simp] theorem find?_deleteJobs (store : Store) (selected : JobRow → Bool) (job : String) :
    (store.deleteJobs selected).jobs.find? job =
      (store.jobs.find? job).filter fun row => !selected row :=
  store.jobs.find?_delete selected job

theorem details_ok {store : Store} {job : String} {row : JobRow} :
    store.details job = .ok row ↔ store.jobs.find? job = some row := by
  unfold details
  cases store.jobs.find? job <;> simp

theorem details_error {store : Store} {job : String} :
    (∃ raised, store.details job = .error raised) ↔ store.jobs.find? job = none := by
  unfold details
  cases store.jobs.find? job <;> simp

theorem get_ok {store : Store} {job : String} :
    (∃ read, store.get job = .ok read) ↔ (store.jobs.find? job).isSome = true := by
  unfold get
  cases store.jobs.find? job <;> simp

/-- What is left and what is new after a row has been inserted into one of the tables. -/
structure InsertsError (store : Store) (error : ErrorRow) (logged : Store) : Prop where
  owned : ∃ row, store.jobs.find? error.jobId = some row
  jobs : logged.jobs = store.jobs
  blobs : logged.blobs = store.blobs
  errors : logged.errors = store.errors ++ [{ error with id := store.errorSequence + 1 }]
  sequence : logged.errorSequence = store.errorSequence + 1

structure InsertsBlob (store : Store) (blob : BlobRow) (filled : Store) : Prop where
  jobs : filled.jobs = store.jobs
  blobs : store.blobs.insert? blob = some filled.blobs
  errors : filled.errors = store.errors

structure InsertsJob (store : Store) (row : JobRow) (inserted : Store) : Prop where
  jobs : store.jobs.insert? row = some inserted.jobs
  blobs : inserted.blobs = store.blobs
  errors : inserted.errors = store.errors

theorem insertError?_some {store logged : Store} {error : ErrorRow}
    (accepted : store.insertError? error = some logged) : store.InsertsError error logged := by
  unfold insertError? at accepted
  split at accepted
  · rename_i owned
    obtain ⟨row, member, rowId⟩ := owned
    cases accepted
    constructor
    · exact ⟨row, store.jobs.find?_eq_some.mpr ⟨member, rowId⟩⟩
    · rfl
    · rfl
    · rfl
    · rfl
  · cases accepted

theorem insertError?_none {store : Store} {error : ErrorRow}
    (refused : store.insertError? error = none) : store.jobs.find? error.jobId = none := by
  apply store.jobs.find?_eq_none.mpr
  intro row member rowId
  unfold insertError? at refused
  rw [dif_pos ⟨row, member, rowId⟩] at refused
  cases refused

theorem insertBlob?_some {store filled : Store} {blob : BlobRow}
    (accepted : store.insertBlob? blob = some filled) : store.InsertsBlob blob filled := by
  unfold insertBlob? at accepted
  split at accepted
  · split at accepted
    · cases accepted
    · rename_i blobs extended
      cases accepted
      exact InsertsBlob.mk rfl extended rfl
  · cases accepted

theorem insertJob?_some {store inserted : Store} {row : JobRow}
    (accepted : store.insertJob? row = some inserted) : store.InsertsJob row inserted := by
  unfold insertJob? at accepted
  split at accepted
  · cases accepted
  · rename_i jobs extended
    cases accepted
    exact InsertsJob.mk extended rfl rfl

theorem jobs_insertError? {store logged : Store} {error : ErrorRow}
    (accepted : store.insertError? error = some logged) : logged.jobs = store.jobs :=
  (insertError?_some accepted).jobs

theorem jobs_insertBlob? {store filled : Store} {blob : BlobRow}
    (accepted : store.insertBlob? blob = some filled) : filled.jobs = store.jobs :=
  (insertBlob?_some accepted).jobs

theorem insertBlobs_keeps {α : Type} (field : Store → α)
    (keeps : ∀ {store filled : Store} {blob : BlobRow},
      store.insertBlob? blob = some filled → field filled = field store)
    (job : String) (current : Instant) (blobs : List Descriptor) :
    ∀ {store filled : Store},
      blobs.foldlM (fun store blob => store.insertBlob? (.pending job current blob)) store =
        some filled → field filled = field store := by
  induction blobs with
  | nil =>
      intro store filled accepted
      cases accepted
      rfl
  | cons blob rest ih =>
      intro store filled accepted
      rw [List.foldlM_cons] at accepted
      obtain ⟨middle, first, later⟩ := Option.bind_eq_some_iff.mp accepted
      rw [ih later, keeps first]

theorem jobs_insertBlobs (job : String) (current : Instant) (blobs : List Descriptor)
    {store filled : Store}
    (accepted : blobs.foldlM
      (fun store blob => store.insertBlob? (.pending job current blob)) store = some filled) :
    filled.jobs = store.jobs :=
  insertBlobs_keeps Store.jobs jobs_insertBlob? job current blobs accepted

theorem find?_insertJob? {store inserted : Store} {row : JobRow}
    (accepted : store.insertJob? row = some inserted) (job : String) :
    inserted.jobs.find? job = if row.id = job then some row else store.jobs.find? job :=
  store.jobs.find?_insert inserted.jobs row (insertJob?_some accepted).jobs job

theorem absent_of_insertJob? {store inserted : Store} {row : JobRow}
    (accepted : store.insertJob? row = some inserted) : store.jobs.find? row.id = none :=
  (store.jobs.insert?_rows inserted.jobs row (insertJob?_some accepted).jobs).2

private theorem row_of_updateJobs {store : Store} {selected : JobRow → Bool}
    {change : JobRow → JobRow}
    {keepsKey : ∀ row, (change row).key = row.key} {job : String} {after : JobRow}
    (found : (store.updateJobs selected change keepsKey).jobs.find? job = some after) :
    ∃ row, store.jobs.find? job = some row ∧
      (after = row ∨ (selected row = true ∧ after = change row)) := by
  rw [find?_updateJobs] at found
  obtain ⟨row, present, rfl⟩ := Option.map_eq_some_iff.mp found
  refine ⟨row, present, ?_⟩
  by_cases chosen : selected row = true
  · exact Or.inr ⟨chosen, if_pos chosen⟩
  · exact Or.inl (if_neg chosen)

theorem find?_updateJobs_selected {store : Store} {selected : JobRow → Bool}
    {change : JobRow → JobRow} {keepsKey : ∀ row, (change row).key = row.key} {job : String}
    {row : JobRow} (found : store.jobs.find? job = some row) (chosen : selected row = true) :
    (store.updateJobs selected change keepsKey).jobs.find? job = some (change row) := by
  rw [find?_updateJobs, found, Option.map_some, if_pos chosen]

theorem row_of_deleteJobs {store : Store} {selected : JobRow → Bool} {job : String}
    {after : JobRow} (found : (store.deleteJobs selected).jobs.find? job = some after) :
    store.jobs.find? job = some after := by
  rw [find?_deleteJobs] at found
  exact (Option.filter_eq_some_iff.mp found).1

theorem cascade_spares {α : Type} {store : Store} {selected : JobRow → Bool} {job : String}
    {row : JobRow} (found : (store.deleteJobs selected).jobs.find? job = some row)
    (owner : α → String) (items : List α) :
    (items.filter fun item => store.jobs.rows.any fun other =>
        other.id = owner item && !selected other).filter (fun item => owner item = job) =
      items.filter fun item => owner item = job := by
  have kept : (store.jobs.rows.any fun other => other.id = job && !selected other) = true := by
    obtain ⟨member, notSelected⟩ :=
      List.mem_filter.mp ((store.deleteJobs selected).jobs.find?_mem found)
    have rowId : row.id = job := (store.deleteJobs selected).jobs.find?_key found
    exact List.any_eq_true.mpr ⟨row, member, by rw [decide_eq_true rowId, notSelected]; rfl⟩
  rw [List.filter_filter]
  apply List.filter_congr
  intro item _member
  by_cases owned : owner item = job
  · rw [owned, kept, decide_eq_true rfl]
    rfl
  · rw [decide_eq_false owned, Bool.false_and]

theorem count_holdsClaim_eq_one (store : Store) (job token : String) :
    store.jobs.count (JobRow.holdsClaim job token) = 1 ↔
      ∃ row, store.jobs.find? job = some row ∧ row.claimToken = some token := by
  rw [store.jobs.count_eq_one_iff _ job fun row held => (JobRow.holdsClaim_iff.mp held).1]
  constructor
  · rintro ⟨row, found, held⟩
    exact ⟨row, found, (JobRow.holdsClaim_iff.mp held).2⟩
  · rintro ⟨row, found, holds⟩
    exact ⟨row, found, JobRow.holdsClaim_iff.mpr ⟨store.jobs.find?_key found, holds⟩⟩

theorem mem_eligibleRows {store : Store} {current : Instant} {row : JobRow} :
    row ∈ store.eligibleRows current ↔ row ∈ store.jobs.rows ∧ row.eligible current = true := by
  unfold eligibleRows
  rw [List.mem_insertionSort, List.mem_filter]

end Store

namespace Transaction

variable {store : Store} {job : String} {after : JobRow}

/-! ### What each method that may raise leaves -/

theorem commit_enqueue (store : Store) (values : EnqueueValues) (jobId : String)
    (current : Instant) :
    (Transaction.enqueue values jobId current).commit store = store ∨
      ((∀ row ∈ store.jobs.rows, row.destination = values.destination →
          row.state.active = false) ∧
        ∃ inserted, store.insertJob? (.fresh values jobId current) = some inserted ∧
          (Transaction.enqueue values jobId current).commit store = inserted) := by
  simp only [commit, Store.enqueue]
  cases first : ((store.jobs.rows.filter fun row =>
      row.destination = values.destination).insertionSort JobRow.NewestFirst).find?
        fun row => row.state.active with
  | some conflicting =>
      left
      cases equivalent : conflicting.equivalent values <;> simp [equivalent]
  | none =>
      cases accepted : store.insertJob? (.fresh values jobId current) with
      | none => exact Or.inl rfl
      | some inserted =>
          refine Or.inr ⟨fun row member sameDestination => ?_, inserted, rfl, rfl⟩
          have candidate : row ∈ (store.jobs.rows.filter fun row =>
              row.destination = values.destination).insertionSort JobRow.NewestFirst := by
            rw [List.mem_insertionSort, List.mem_filter]
            exact ⟨member, decide_eq_true sameDestination⟩
          exact Bool.eq_false_iff.mpr (List.find?_eq_none.mp first row candidate)

/-- The blob rows are inserted exactly if their sizes fit and their keys are new. -/
theorem insertPending_eq_ok (job : String) (current : Instant) {blobs : List Descriptor} :
    ∀ {store filled : Store}, blobs.foldlM (Store.insertPending job current) store = .ok filled ↔
      (∀ blob ∈ blobs, Store.optionFits blob.size = true) ∧
        blobs.foldlM (fun store blob => store.insertBlob? (.pending job current blob)) store =
          some filled := by
  induction blobs with
  | nil =>
      intro store filled
      constructor
      · intro same
        exact ⟨List.forall_mem_nil _, congrArg some (Except.ok.inj same)⟩
      · intro both
        exact congrArg Except.ok (Option.some.inj both.2)
  | cons blob rest ih =>
      intro store filled
      rw [List.foldlM_cons, List.foldlM_cons, List.forall_mem_cons, Store.insertPending]
      cases fits : Store.optionFits blob.size with
      | false =>
          refine iff_of_false (fun impossible => ?_) fun both => Bool.false_ne_true both.1.1
          cases impossible
      | true =>
          cases inserted : store.insertBlob? (.pending job current blob) with
          | none =>
              refine iff_of_false (fun impossible => ?_) fun both => ?_
              · cases impossible
              · cases both.2
          | some middle =>
              simp only [Bool.not_true, Bool.false_eq_true, if_false, true_and]
              exact ih

/-- A snapshot is stored by the planning row that holds the token, or not at all. -/
theorem commit_saveSnapshot (store : Store) (job token : String) (snapshot : ImageSnapshot)
    (current : Instant) :
    (Transaction.call job token (.saveSnapshot snapshot) current).commit store = store ∨
      ∃ row filled, store.jobs.find? job = some row ∧ row.claimToken = some token ∧
        row.state = .planning ∧
        snapshot.blobs.foldlM (fun store blob => store.insertBlob? (.pending job current blob))
          (store.updateJobs (fun row => row.holdsClaim job token && row.state = .planning)
            (JobRow.pin snapshot current) (JobRow.key_pin snapshot current)) = some filled ∧
        (Transaction.call job token (.saveSnapshot snapshot) current).commit store = filled := by
  simp only [commit, ClaimCall.run, Store.saveSnapshot]
  split
  · rename_i saved _result savedEq
    split at savedEq
    · cases savedEq
    · split at savedEq
      · rename_i oneRow
        obtain ⟨filled, filledEq, same⟩ := Guards.ok_of_map savedEq
        cases same
        obtain ⟨row, found, chosen⟩ := (store.jobs.count_eq_one_iff _ job fun row chosen =>
          (JobRow.holdsClaim_iff.mp ((Bool.and_eq_true _ _).mp chosen).1).1).mp oneRow
        obtain ⟨claimed, planning⟩ := (Bool.and_eq_true _ _).mp chosen
        exact Or.inr ⟨row, saved, found, (JobRow.holdsClaim_iff.mp claimed).2,
          of_decide_eq_true planning, ((insertPending_eq_ok job current).mp filledEq).2, rfl⟩
      · cases savedEq
        exact Or.inl rfl
  · exact Or.inl rfl

theorem commit_progress {store : Store} {job token digest : String} {event : Event}
    (named : event.namedDigest = some digest) (current : Instant) :
    (Transaction.call job token (.progress event) current).commit store =
      if store.overflows job digest event current then store
      else (store.progressBlob job token digest event current).1 := by
  simp only [commit, ClaimCall.run, Store.progress, named]
  by_cases overflows : store.overflows job digest event current = true
  · rw [if_pos overflows, if_pos overflows]
  · rw [if_neg overflows, if_neg overflows]

theorem commit_phase {store : Store} {job token : String} {event : Event}
    (named : event.namedDigest = none) (current : Instant) :
    (Transaction.call job token (.progress event) current).commit store =
      (store.progressPhase job token event.phase current).1 := by
  simp only [commit, ClaimCall.run, Store.progress, named]

theorem errors_progress (store : Store) (job token : String) (event : Event) (current : Instant) :
    ((Transaction.call job token (.progress event) current).commit store).errors = store.errors ∧
      ((Transaction.call job token (.progress event) current).commit store).errorSequence =
        store.errorSequence := by
  cases named : event.namedDigest with
  | none =>
      rw [commit_phase named, Store.progressPhase]
      split <;> exact ⟨rfl, rfl⟩
  | some digest =>
      rw [commit_progress named, Store.progressBlob]
      split
      · exact ⟨rfl, rfl⟩
      · split <;> exact ⟨rfl, rfl⟩

theorem commit_failOrRetry (store : Store) (job token : String) (failure : Failure)
    (current : Instant) :
    (store.jobs.find? job = none ∧
        (Transaction.call job token (.failOrRetry failure) current).commit store = store) ∨
      ∃ error logged, error.jobId = job ∧ error.errorCode = failure.code ∧
        store.insertError? error = some logged ∧
        (Transaction.call job token (.failOrRetry failure) current).commit store =
          logged.updateJobs (JobRow.holdsClaim job token)
            (JobRow.failOrRetry failure.code failure.message failure.retryable failure.delay
              failure.integrityFailure current)
            (JobRow.key_failOrRetry failure.code failure.message failure.retryable failure.delay
              failure.integrityFailure current) := by
  simp only [commit, ClaimCall.run, Store.failOrRetry]
  split
  · rename_i saved _result savedEq
    split at savedEq
    · cases savedEq
    · rename_i logged loggedEq
      cases savedEq
      exact Or.inr ⟨_, logged, rfl, rfl, loggedEq, rfl⟩
  · rename_i raised raisedEq
    split at raisedEq
    · rename_i refused
      left
      exact ⟨Store.insertError?_none refused, rfl⟩
    · cases raisedEq

theorem failOrRetry_raises {job token : String} {failure : Failure} {current : Instant} :
    (∃ raised, (ClaimCall.failOrRetry failure).run store job token current = .error raised) ↔
      store.jobs.find? job = none := by
  simp only [ClaimCall.run, Store.failOrRetry]
  constructor
  · rintro ⟨raised, refused⟩
    split at refused
    · rename_i notInserted
      exact Store.insertError?_none notInserted
    · cases refused
  · intro absent
    split
    · exact ⟨_, rfl⟩
    · rename_i logged loggedEq
      obtain ⟨row, found⟩ := (Store.insertError?_some loggedEq).owned
      change store.jobs.find? job = some row at found
      rw [absent] at found
      cases found

theorem commit_dismiss (store : Store) (job : String) :
    (Transaction.dismiss job).commit store = store ∨
      (Transaction.dismiss job).commit store = store.deleteJobs fun row => row.id = job := by
  simp only [commit, Store.dismiss]
  cases store.jobs.find? job with
  | none => exact Or.inl rfl
  | some row => cases terminal : row.state.terminal <;> simp [terminal]

theorem commit_prune (store : Store) (states : Option (List JobState)) (olderThan : Option String)
    (dryRun : Bool) :
    (Transaction.prune states olderThan dryRun).commit store = store ∨
      ∃ selected, (Transaction.prune states olderThan dryRun).commit store =
        store.deleteJobs selected := by
  simp only [commit, Store.prune]
  split
  · rename_i remaining _result remainingEq
    split at remainingEq
    · cases remainingEq
    · split at remainingEq
      · cases remainingEq
      · split at remainingEq <;> cases remainingEq
        · exact Or.inl rfl
        · exact Or.inr ⟨_, rfl⟩
  · exact Or.inl rfl

/-! ### The row a write finds -/

section Found

variable {row : JobRow} {token : String} {current : Instant}

theorem find?_cancelWrite {target : CancelTarget} (found : store.jobs.find? job = some row) :
    ((Transaction.cancelWrite job target current).commit store).jobs.find? job =
      some (row.cancelWrite target current) :=
  Store.find?_updateJobs_selected found (decide_eq_true (store.jobs.find?_key found))

theorem find?_retryWrite (found : store.jobs.find? job = some row) :
    ((Transaction.retryWrite job current).commit store).jobs.find? job =
      some (row.retryWrite current) :=
  Store.find?_updateJobs_selected found (decide_eq_true (store.jobs.find?_key found))

theorem find?_enter {event : Event} {phase : JobState} (found : store.jobs.find? job = some row)
    (holds : row.claimToken = some token) (named : event.namedDigest = none)
    (wanted : event.phase.bind PhaseName.state? = some phase) :
    ((Transaction.call job token (.progress event) current).commit store).jobs.find? job =
      some (row.enter phase current) := by
  simp only [commit, ClaimCall.run, Store.progress, named, Store.progressPhase, wanted]
  exact Store.find?_updateJobs_selected found
    (JobRow.holdsClaim_iff.mpr ⟨store.jobs.find?_key found, holds⟩)

theorem find?_finish {state : TerminalState} {code message : Option String}
    (found : store.jobs.find? job = some row) (holds : row.claimToken = some token) :
    ((Transaction.call job token (.finish state code message) current).commit
      store).jobs.find? job =
      some (row.finish state code message current) :=
  Store.find?_updateJobs_selected found
    (JobRow.holdsClaim_iff.mpr ⟨store.jobs.find?_key found, holds⟩)

theorem find?_failOrRetry {failure : Failure} (found : store.jobs.find? job = some row)
    (holds : row.claimToken = some token) :
    ((Transaction.call job token (.failOrRetry failure) current).commit store).jobs.find? job =
      some (row.failOrRetry failure.code failure.message failure.retryable failure.delay
        failure.integrityFailure current) := by
  rcases commit_failOrRetry store job token failure current with
    ⟨absent, -⟩ | ⟨error, logged, -, -, loggedEq, written⟩
  · rw [found] at absent
    cases absent
  · rw [written]
    rw [← Store.jobs_insertError? loggedEq] at found
    exact Store.find?_updateJobs_selected found
      (JobRow.holdsClaim_iff.mpr ⟨logged.jobs.find?_key found, holds⟩)

end Found

/-! ### What each transaction does to a row -/

theorem claim_row {worker token : String} {leaseSeconds : Int} {current : Instant}
    (found : ((Transaction.claim worker leaseSeconds current token).commit store).jobs.find? job =
      some after) :
    ∃ row, store.jobs.find? job = some row ∧
      (after = row ∨ RowStep (.claim worker leaseSeconds current token) row after) := by
  have sweptRow : ∀ {middle}, (store.sweep current).jobs.find? job = some middle →
      ∃ row, store.jobs.find? job = some row ∧
        (middle = row ∨ (row.sweepDue current = true ∧ middle = row.sweep current)) :=
    fun middleFound => Store.row_of_updateJobs middleFound
  change (store.claim worker leaseSeconds current token).1.jobs.find? job = some after at found
  unfold Store.claim at found
  cases chosen : ((store.sweep current).eligibleRows current).head? with
  | none =>
      simp only [chosen] at found
      obtain ⟨row, present, same | ⟨due, rfl⟩⟩ := sweptRow found
      · exact ⟨row, present, Or.inl same⟩
      · exact ⟨row, present, Or.inr (.swept due)⟩
  | some first =>
      simp only [chosen] at found
      obtain ⟨firstMember, firstEligible⟩ :=
        Store.mem_eligibleRows.mp (List.mem_of_head? chosen)
      obtain ⟨middle, middleFound, same | ⟨picked, rfl⟩⟩ := Store.row_of_updateJobs found
      · obtain ⟨row, present, unswept | ⟨due, swept⟩⟩ := sweptRow middleFound
        · exact ⟨row, present, Or.inl (same.trans unswept)⟩
        · rw [same, swept]
          exact ⟨row, present, Or.inr (.swept due)⟩
      · have isFirst : middle = first :=
          (store.sweep current).jobs.key_injective
            ((store.sweep current).jobs.find?_mem middleFound) firstMember
            (of_decide_eq_true picked)
        obtain ⟨row, present, rfl | ⟨_due, swept⟩⟩ := sweptRow middleFound
        · exact ⟨middle, present, Or.inr (.taken (isFirst ▸ firstEligible))⟩
        · -- a swept row is cancelled, so it was not in the set selected from
          rw [← isFirst, swept, JobRow.sweep_not_eligible] at firstEligible
          cases firstEligible

private theorem progress_row {token : String} {event : Event} {current : Instant}
    {callJob : String}
    (found : ((Transaction.call callJob token (.progress event) current).commit store).jobs.find?
      job = some after) :
    ∃ row, store.jobs.find? job = some row ∧
      (after = row ∨ RowStep (.call callJob token (.progress event) current) row after) := by
  cases named : event.namedDigest with
  | none =>
      simp only [commit_phase named, Store.progressPhase] at found
      cases wanted : event.phase.bind PhaseName.state? with
      | none =>
          simp only [wanted] at found
          exact ⟨after, found, Or.inl rfl⟩
      | some phase =>
          simp only [wanted] at found
          obtain ⟨row, present, same | ⟨held, rfl⟩⟩ := Store.row_of_updateJobs found
          · exact ⟨row, present, Or.inl same⟩
          · obtain ⟨sameId, owns⟩ := JobRow.holdsClaim_iff.mp held
            exact ⟨row, present, Or.inr (.entered sameId owns named wanted)⟩
  | some digest =>
      rw [commit_progress named] at found
      split at found
      · exact ⟨after, found, Or.inl rfl⟩
      unfold Store.progressBlob at found
      cases blobFound : store.blobs.find? (callJob, digest) with
      | none =>
          simp only [blobFound] at found
          exact ⟨after, found, Or.inl rfl⟩
      | some blob =>
          simp only [blobFound] at found
          obtain ⟨row, present, same | ⟨held, rfl⟩⟩ := Store.row_of_updateJobs found
          · exact ⟨row, present, Or.inl same⟩
          · obtain ⟨sameId, owns⟩ := JobRow.holdsClaim_iff.mp held
            exact ⟨row, present, Or.inr (.tallied sameId owns named)⟩

theorem call_row {callJob token : String} {request : ClaimCall} {current : Instant}
    (found : ((Transaction.call callJob token request current).commit store).jobs.find? job =
      some after) :
    ∃ row, store.jobs.find? job = some row ∧
      (after = row ∨ RowStep (.call callJob token request current) row after) := by
  cases request with
  | heartbeat leaseSeconds =>
      obtain ⟨row, present, same | ⟨held, rfl⟩⟩ := Store.row_of_updateJobs found
      · exact ⟨row, present, Or.inl same⟩
      · obtain ⟨claimed, live⟩ := (Bool.and_eq_true _ _).mp held
        obtain ⟨sameId, owns⟩ := JobRow.holdsClaim_iff.mp claimed
        exact ⟨row, present, Or.inr (.beat sameId owns (by simpa using live))⟩
  | saveSnapshot snapshot =>
      rcases commit_saveSnapshot store callJob token snapshot current with
        same | ⟨_, filled, -, -, -, filledEq, saved⟩
      · rw [same] at found
        exact ⟨after, found, Or.inl rfl⟩
      · rw [saved, Store.jobs_insertBlobs callJob current snapshot.blobs filledEq] at found
        obtain ⟨row, present, same | ⟨held, rfl⟩⟩ := Store.row_of_updateJobs found
        · exact ⟨row, present, Or.inl same⟩
        · obtain ⟨claimed, planning⟩ := (Bool.and_eq_true _ _).mp held
          obtain ⟨sameId, owns⟩ := JobRow.holdsClaim_iff.mp claimed
          exact ⟨row, present, Or.inr (.pinned sameId owns (of_decide_eq_true planning))⟩
  | progress event => exact progress_row found
  | finish state code message =>
      obtain ⟨row, present, same | ⟨held, rfl⟩⟩ := Store.row_of_updateJobs found
      · exact ⟨row, present, Or.inl same⟩
      · obtain ⟨sameId, owns⟩ := JobRow.holdsClaim_iff.mp held
        exact ⟨row, present, Or.inr (.finished sameId owns)⟩
  | failOrRetry failure =>
      rcases commit_failOrRetry store callJob token failure current with
        ⟨-, same⟩ | ⟨error, logged, -, -, loggedEq, written⟩
      · rw [same] at found
        exact ⟨after, found, Or.inl rfl⟩
      · rw [written] at found
        obtain ⟨row, present, same | ⟨held, rfl⟩⟩ := Store.row_of_updateJobs found
        · rw [Store.jobs_insertError? loggedEq] at present
          exact ⟨row, present, Or.inl same⟩
        · rw [Store.jobs_insertError? loggedEq] at present
          obtain ⟨sameId, owns⟩ := JobRow.holdsClaim_iff.mp held
          exact ⟨row, present, Or.inr (.failed sameId owns)⟩
  | releaseClaim =>
      obtain ⟨row, present, same | ⟨held, rfl⟩⟩ := Store.row_of_updateJobs found
      · exact ⟨row, present, Or.inl same⟩
      · obtain ⟨claimed, working⟩ := (Bool.and_eq_true _ _).mp held
        obtain ⟨sameId, owns⟩ := JobRow.holdsClaim_iff.mp claimed
        exact ⟨row, present, Or.inr (.givenBack sameId owns working)⟩

theorem call_found {row : JobRow} (found : store.jobs.find? job = some row)
    (callJob token : String) (request : ClaimCall) (current : Instant) :
    ∃ changed,
      ((Transaction.call callJob token request current).commit store).jobs.find? job =
        some changed ∧
      (changed = row ∨ RowStep (.call callJob token request current) row changed) := by
  have updated : ∀ (other : Store) (selected : JobRow → Bool) (change : JobRow → JobRow)
      (keepsKey : ∀ row, (change row).key = row.key), other.jobs = store.jobs →
      ((other.updateJobs selected change keepsKey).jobs.find? job).isSome = true := by
    intro other selected change keepsKey same
    rw [Store.find?_updateJobs, same, found]
    rfl
  have stored : (((Transaction.call callJob token request current).commit store).jobs.find?
      job).isSome = true := by
    cases request with
    | heartbeat | finish | releaseClaim => exact updated store _ _ _ rfl
    | saveSnapshot snapshot =>
        rcases commit_saveSnapshot store callJob token snapshot current with
          same | ⟨_, filled, -, -, -, filledEq, saved⟩
        · rw [same, found]
          rfl
        · rw [saved, Store.jobs_insertBlobs callJob current snapshot.blobs filledEq]
          exact updated store _ _ _ rfl
    | progress event =>
        cases named : event.namedDigest with
        | none =>
            rw [commit_phase named, Store.progressPhase]
            split
            · rw [found]
              rfl
            · exact updated store _ _ _ rfl
        | some digest =>
            rw [commit_progress named]
            split
            · rw [found]
              rfl
            · unfold Store.progressBlob
              split
              · rw [found]
                rfl
              · exact updated _ _ _ _ rfl
    | failOrRetry failure =>
        rcases commit_failOrRetry store callJob token failure current with
          ⟨-, same⟩ | ⟨error, logged, -, -, loggedEq, written⟩
        · rw [same, found]
          rfl
        · rw [written]
          exact updated logged _ _ _ (Store.jobs_insertError? loggedEq)
  obtain ⟨changed, changedFound⟩ := Option.isSome_iff_exists.mp stored
  refine ⟨changed, changedFound, ?_⟩
  obtain ⟨original, present, relation⟩ := call_row changedFound
  rw [found] at present
  cases present
  exact relation

/-- A row after a transaction is a row before it, unchanged or changed by one
listed step, or the row that an `enqueue` has just inserted. -/
theorem commit_row (transaction : Transaction)
    (found : (transaction.commit store).jobs.find? job = some after) :
    (∃ row, store.jobs.find? job = some row ∧ (after = row ∨ RowStep transaction row after)) ∨
      (∃ values current, transaction = .enqueue values job current ∧
        store.jobs.find? job = none ∧ after = .fresh values job current) := by
  cases transaction with
  | enqueue values jobId current =>
      rcases commit_enqueue store values jobId current with same | ⟨-, inserted, accepted, same⟩
      · rw [same] at found
        exact Or.inl ⟨after, found, Or.inl rfl⟩
      · rw [same, Store.find?_insertJob? accepted] at found
        by_cases sameId : (JobRow.fresh values jobId current).id = job
        · rw [if_pos sameId] at found
          cases found
          cases sameId
          exact Or.inr ⟨values, current, rfl, Store.absent_of_insertJob? accepted, rfl⟩
        · rw [if_neg sameId] at found
          exact Or.inl ⟨after, found, Or.inl rfl⟩
  | claim worker leaseSeconds current token => exact Or.inl (claim_row found)
  | call callJob token request current => exact Or.inl (call_row found)
  | cancelWrite written target current =>
      obtain ⟨row, present, same | ⟨picked, rfl⟩⟩ := Store.row_of_updateJobs found
      · exact Or.inl ⟨row, present, Or.inl same⟩
      · exact Or.inl ⟨row, present, Or.inr (.cancelWritten (of_decide_eq_true picked))⟩
  | retryWrite written current =>
      obtain ⟨row, present, same | ⟨picked, rfl⟩⟩ := Store.row_of_updateJobs found
      · exact Or.inl ⟨row, present, Or.inl same⟩
      · exact Or.inl ⟨row, present, Or.inr (.retryWritten (of_decide_eq_true picked))⟩
  | dismiss target =>
      rcases commit_dismiss store target with same | deleted
      · rw [same] at found
        exact Or.inl ⟨after, found, Or.inl rfl⟩
      · rw [deleted] at found
        exact Or.inl ⟨after, Store.row_of_deleteJobs found, Or.inl rfl⟩
  | release workerPrefix current =>
      obtain ⟨row, present, same | ⟨picked, rfl⟩⟩ := Store.row_of_updateJobs found
      · exact Or.inl ⟨row, present, Or.inl same⟩
      · obtain ⟨owned, working⟩ := (Bool.and_eq_true _ _).mp picked
        exact Or.inl ⟨row, present, Or.inr (.released owned working)⟩
  | prune states olderThan dryRun =>
      rcases commit_prune store states olderThan dryRun with same | ⟨selected, deleted⟩
      · rw [same] at found
        exact Or.inl ⟨after, found, Or.inl rfl⟩
      · rw [deleted] at found
        exact Or.inl ⟨after, Store.row_of_deleteJobs found, Or.inl rfl⟩

end Transaction

end OciTransfer
