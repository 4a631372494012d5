import OciTransfer.QueueRuns

/-!
The methods of the store that only read.

`list` orders and cuts the rows.  `errors` looks the job up in one transaction and
reads its rows in another, so it takes two stores.  Error rows are numbered by a
sequence that no deletion turns back, and the numbers are the order in which they
are read.
-/

namespace OciTransfer

namespace Store

/-- Rows with one creation time come in no order that SQL would promise; here they
come as they stand in the table. -/
def list (store : Store) (limit : Int) (state : Option JobState) :
    Except StoreError (List CopyJob) :=
  if 1 ≤ limit ∧ limit ≤ 1000 then
    .ok ((((store.jobs.rows.filter fun row =>
      state.all fun wanted => row.state = wanted).insertionSort
      JobRow.NewestFirst).take limit.toNat).map JobRow.toCopyJob)
  else .error (.valueError "limit must be 1..1000")

/-- The error rows of a job, `ORDER BY id`. -/
def jobErrors (store : Store) (job : String) : List ErrorRow :=
  (store.errors.filter fun error => error.jobId = job).insertionSort fun left right =>
    left.id ≤ right.id

/-- `errors`, with the store it has looked the job up in and the one it has read. -/
def copyErrors (checked read : Store) (job : String) : Except StoreError (List ErrorRow) :=
  (checked.get job).map fun _ => read.jobErrors job

end Store

/-! ### The newest jobs -/

instance : Std.Total JobRow.NewestFirst where
  total left right := le_total right.createdAt left.createdAt

instance : IsTrans JobRow JobRow.NewestFirst where
  trans _ _ _ first second := le_trans second first

private theorem rel_of_not_mem_take {α : Type} {rel : α → α → Prop} {items : List α} {count : Nat}
    (ordered : items.Pairwise rel) {kept cut : α} (isKept : kept ∈ items.take count)
    (member : cut ∈ items) (isCut : cut ∉ items.take count) : rel kept cut := by
  rw [← List.take_append_drop count items] at ordered member
  rcases List.mem_append.mp member with there | dropped
  · exact absurd there isCut
  · exact (List.pairwise_append.mp ordered).2.2 kept isKept cut dropped

/-- `list` accepts limits from 1 to 1000, and then hands out as many of the jobs
in the wanted state as there are up to the limit, each once, as `get` returns it,
the newest first; no job it leaves out is newer than one it hands out. -/
theorem list_hands_out_newest (store : Store) (limit : Int) (state : Option JobState) :
    (1 ≤ limit ∧ limit ≤ 1000 ↔ ∃ listed, store.list limit state = .ok listed) ∧
    ∀ listed, store.list limit state = .ok listed →
      listed.length = min limit.toNat
        (store.jobs.count fun row => state.all fun wanted => row.state = wanted) ∧
      (listed.map CopyJob.id).Nodup ∧
      listed.Pairwise (fun left right => right.createdAt ≤ left.createdAt) ∧
      (∀ job ∈ listed, store.get job.id = .ok job ∧ ∀ wanted, state = some wanted →
        job.state = wanted) ∧
      ∀ id job, store.get id = .ok job → (∀ wanted, state = some wanted → job.state = wanted) →
        job ∉ listed → ∀ other ∈ listed, job.createdAt ≤ other.createdAt := by
  constructor
  · unfold Store.list
    split <;> simp [*]
  · intro listed accepted
    unfold Store.list at accepted
    split at accepted
    · cases accepted
      generalize matchesEq : store.jobs.rows.filter
        (fun row => state.all fun wanted => row.state = wanted) = chosen
      have isChosen : ∀ row, row ∈ chosen ↔
          row ∈ store.jobs.rows ∧ ∀ wanted, state = some wanted → row.state = wanted := by
        intro row
        rw [← matchesEq, List.mem_filter]
        cases state <;> simp
      have permuted := List.perm_insertionSort JobRow.NewestFirst chosen
      have ordered := List.pairwise_insertionSort JobRow.NewestFirst chosen
      have inChosen : ∀ row ∈ (chosen.insertionSort JobRow.NewestFirst).take limit.toNat,
          row ∈ chosen := fun row member => permuted.mem_iff.mp (List.take_subset _ _ member)
      have distinct : (chosen.map JobRow.key).Nodup := by
        rw [← matchesEq]
        exact (List.filter_sublist.map JobRow.key).nodup store.jobs.distinct
      refine ⟨?_, ?_, ?_, ?_, ?_⟩
      · rw [List.length_map, List.length_take, permuted.length_eq, ← matchesEq]
        exact congrArg (min limit.toNat) List.countP_eq_length_filter.symm
      · rw [List.map_map]
        refine ((List.take_sublist _ _).map _).nodup ?_
        exact (permuted.map JobRow.key).nodup_iff.mpr distinct
      · rw [List.pairwise_map]
        exact ordered.sublist (List.take_sublist _ _)
      · intro job member
        obtain ⟨row, taken, rfl⟩ := List.mem_map.mp member
        obtain ⟨stored, wantedState⟩ := (isChosen row).mp (inChosen row taken)
        refine ⟨?_, wantedState⟩
        unfold Store.get
        rw [store.jobs.find?_of_mem stored]
      · intro id job got wantedState notListed other member
        obtain ⟨row, found, rfl⟩ := Store.get_eq_ok got
        obtain ⟨otherRow, taken, rfl⟩ := List.mem_map.mp member
        refine rel_of_not_mem_take ordered taken ?_ ?_
        · exact permuted.mem_iff.mpr
            ((isChosen row).mpr ⟨store.jobs.find?_mem found, wantedState⟩)
        · exact fun kept => notListed (List.mem_map_of_mem kept)
    · cases accepted

/-! ### The error rows of a job -/

namespace Store

private theorem sequence_insertBlob? {store filled : Store} {blob : BlobRow}
    (accepted : store.insertBlob? blob = some filled) :
    filled.errorSequence = store.errorSequence := by
  unfold insertBlob? at accepted
  split at accepted
  · split at accepted <;> cases accepted
    rfl
  · cases accepted

private theorem sequence_insertJob? {store inserted : Store} {row : JobRow}
    (accepted : store.insertJob? row = some inserted) :
    inserted.errorSequence = store.errorSequence := by
  unfold insertJob? at accepted
  split at accepted <;> cases accepted
  rfl

end Store

private theorem Transaction.commit_errors (transaction : Transaction) (store : Store) :
    ((transaction.commit store).errors = store.errors ∧
      (transaction.commit store).errorSequence = store.errorSequence) ∨
    (∃ error : ErrorRow, error.id = store.errorSequence + 1 ∧
      (transaction.commit store).errors = store.errors ++ [error] ∧
      (transaction.commit store).errorSequence = store.errorSequence + 1) ∨
    ∃ selected, transaction.commit store = store.deleteJobs selected := by
  cases transaction with
  | enqueue values jobId current =>
      rcases commit_enqueue store values jobId current with same | ⟨-, inserted, accepted, same⟩
      · rw [same]
        exact Or.inl ⟨rfl, rfl⟩
      · rw [same]
        exact Or.inl ⟨(Store.insertJob?_some accepted).errors, Store.sequence_insertJob? accepted⟩
  | claim worker leaseSeconds current token =>
      left
      change (store.claim worker leaseSeconds current token).1.errors = _ ∧
        (store.claim worker leaseSeconds current token).1.errorSequence = _
      simp only [Store.claim]
      split <;> exact ⟨rfl, rfl⟩
  | call job token request current =>
      cases request with
      | heartbeat | finish | releaseClaim => exact Or.inl ⟨rfl, rfl⟩
      | saveSnapshot snapshot =>
          left
          rcases commit_saveSnapshot store job token snapshot current with
            same | ⟨_, filled, -, -, -, filledEq, saved⟩
          · rw [same]
            exact ⟨rfl, rfl⟩
          · have errors := Store.insertBlobs_keeps Store.errors
              (fun accepted => (Store.insertBlob?_some accepted).errors) job current snapshot.blobs
              filledEq
            have sequence := Store.insertBlobs_keeps Store.errorSequence
              Store.sequence_insertBlob? job current snapshot.blobs filledEq
            rw [saved]
            exact ⟨errors, sequence⟩
      | progress event => exact Or.inl (errors_progress store job token event current)
      | failOrRetry failure =>
          rcases commit_failOrRetry store job token failure current with
            ⟨-, same⟩ | ⟨error, logged, -, -, loggedEq, written⟩
          · rw [same]
            exact Or.inl ⟨rfl, rfl⟩
          · have inserts := Store.insertError?_some loggedEq
            rw [written]
            exact Or.inr (Or.inl ⟨_, rfl, inserts.errors, inserts.sequence⟩)
  | cancelWrite | retryWrite | release => exact Or.inl ⟨rfl, rfl⟩
  | dismiss job =>
      rcases commit_dismiss store job with same | deleted
      · rw [same]
        exact Or.inl ⟨rfl, rfl⟩
      · exact Or.inr (Or.inr ⟨_, deleted⟩)
  | prune states olderThan dryRun =>
      rcases commit_prune store states olderThan dryRun with same | ⟨selected, deleted⟩
      · rw [same]
        exact Or.inl ⟨rfl, rfl⟩
      · exact Or.inr (Or.inr ⟨selected, deleted⟩)

/-- The error rows stand in the order of their numbers, and the sequence has
passed all of them. -/
structure Store.Numbered (store : Store) : Prop where
  increasing : store.errors.Pairwise fun left right => left.id < right.id
  bounded : ∀ error ∈ store.errors, error.id ≤ store.errorSequence

namespace Store.Numbered

variable {store : Store}

theorem step (numbered : store.Numbered) (transaction : Transaction) :
    (transaction.commit store).Numbered ∧
      store.errorSequence ≤ (transaction.commit store).errorSequence := by
  rcases transaction.commit_errors store with
    ⟨same, sequence⟩ | ⟨error, number, appended, sequence⟩ | ⟨selected, deleted⟩
  · refine ⟨Numbered.mk ?_ ?_, by rw [sequence]⟩
    · rw [same]
      exact numbered.increasing
    · rw [same, sequence]
      exact numbered.bounded
  · refine ⟨Numbered.mk ?_ ?_, by rw [sequence]; exact Nat.le_succ _⟩
    · rw [appended, List.pairwise_append]
      refine ⟨numbered.increasing, List.pairwise_singleton _ _, fun left member right isNew => ?_⟩
      rw [List.mem_singleton.mp isNew, number]
      exact Nat.lt_succ_of_le (numbered.bounded left member)
    · rw [appended, sequence]
      intro other member
      rcases List.mem_append.mp member with old | isNew
      · exact Nat.le_succ_of_le (numbered.bounded other old)
      · rw [List.mem_singleton.mp isNew, number]
  · rw [deleted]
    refine ⟨Numbered.mk (numbered.increasing.sublist List.filter_sublist) fun error member => ?_,
      le_refl _⟩
    exact numbered.bounded error (List.mem_filter.mp member).1

private theorem jobErrors_eq (numbered : store.Numbered) (job : String) :
    store.jobErrors job = store.errors.filter fun error => error.jobId = job := by
  refine List.Pairwise.insertionSort_eq ?_
  exact (numbered.increasing.imp fun before => Nat.le_of_lt before).sublist List.filter_sublist

end Store.Numbered

namespace System

variable {before after first last : System}

private theorem numbered_step {action : Action} (moved : before.next action = some after)
    (numbered : before.store.Numbered) :
    after.store.Numbered ∧ before.store.errorSequence ≤ after.store.errorSequence := by
  rcases next_store moved with same | ⟨transaction, -, committed⟩
  · rw [same]
    exact ⟨numbered, le_refl _⟩
  · rw [committed]
    exact numbered.step transaction

private theorem numbered_of_reachable (reached : interleaved.Reachable first) :
    first.store.Numbered := by
  refine reached.invariant (fun system => system.store.Numbered) ?_ ?_
  · rintro state rfl
    exact Store.Numbered.mk List.Pairwise.nil fun error member => by cases member
  · exact fun before action after moved numbered => (numbered_step moved numbered).1

/-- The error rows of a job that is still there are those it had, and then others
whose numbers had not been given out. -/
theorem errors_begin_step {action : Action} (moved : before.next action = some after)
    {job : String} {row : JobRow} (found : after.store.jobs.find? job = some row) :
    ∃ added, (after.store.errors.filter fun error => error.jobId = job) =
        (before.store.errors.filter fun error => error.jobId = job) ++ added ∧
      ∀ error ∈ added, before.store.errorSequence < error.id := by
  rcases next_store moved with same | ⟨transaction, -, committed⟩
  · rw [same]
    exact ⟨[], (List.append_nil _).symm, fun error member => by cases member⟩
  · rw [committed] at found ⊢
    rcases transaction.commit_errors before.store with
      ⟨same, -⟩ | ⟨error, number, appended, -⟩ | ⟨selected, deleted⟩
    · rw [same]
      exact ⟨[], (List.append_nil _).symm, fun error member => by cases member⟩
    · rw [appended, List.filter_append]
      refine ⟨_, rfl, fun other member => ?_⟩
      rw [List.mem_singleton.mp (List.mem_filter.mp member).1, number]
      exact Nat.lt_succ_self _
    · rw [deleted] at found ⊢
      refine ⟨[], ?_, fun error member => by cases member⟩
      rw [List.append_nil]
      exact Store.cascade_spares found ErrorRow.jobId before.store.errors

/-- What a run adds to the error rows of a job. -/
theorem errors_begin_run (reached : interleaved.Reachable first)
    (run : interleaved.Run Machine.Always first last) {job : String} (drawn : job ∈ first.jobIds)
    {row : JobRow} (found : last.store.jobs.find? job = some row) :
    ∃ added, last.store.jobErrors job = first.store.jobErrors job ++ added ∧
      ∀ error ∈ added, first.store.errorSequence < error.id := by
  have grows := run.preserves
    (fun system => interleaved.Reachable system ∧ job ∈ system.jobIds ∧
      first.store.errorSequence ≤ system.store.errorSequence ∧
      ∀ row, system.store.jobs.find? job = some row →
        ∃ added, (system.store.errors.filter fun error => error.jobId = job) =
            (first.store.errors.filter fun error => error.jobId = job) ++ added ∧
          ∀ error ∈ added, first.store.errorSequence < error.id)
    ?_ ⟨reached, drawn, le_refl _, fun row found =>
      ⟨[], (List.append_nil _).symm, fun error member => by cases member⟩⟩
  · obtain ⟨reachedLast, -, -, added⟩ := grows
    rw [(numbered_of_reachable reachedLast).jobErrors_eq job,
      (numbered_of_reachable reached).jobErrors_eq job]
    exact added row found
  · rintro before action after - moved ⟨reachedBefore, drawn, passed, earlier⟩
    have numbered := numbered_step moved (numbered_of_reachable reachedBefore)
    refine ⟨reachedBefore.step moved, (next_drawn moved).2 drawn, passed.trans numbered.2,
      fun row found => ?_⟩
    rcases next_row moved found with ⟨old, present, -⟩ | ⟨-, undrawn, -⟩
    · obtain ⟨added, same, above⟩ := earlier old present
      obtain ⟨more, appended, aboveMore⟩ := errors_begin_step moved found
      refine ⟨added ++ more, by rw [appended, same, List.append_assoc], fun error member => ?_⟩
      rcases List.mem_append.mp member with old | isNew
      · exact above error old
      · exact lt_of_le_of_lt passed (aboveMore error isNew)
    · exact absurd drawn undrawn

end System

/-- An error history only grows.  Of two completed calls of `errors` for a job that
is still there at the second, the later one returns what the earlier one did and
then new errors; the numbers increase, and those of the new errors are above all
that had been given out, to this job or another, deleted since or not. -/
theorem error_history_only_grows {checked read checkedLater readLater : System}
    (reached : interleaved.Reachable checked)
    (first : interleaved.Run Machine.Always checked read)
    (between : interleaved.Run Machine.Always read checkedLater)
    (second : interleaved.Run Machine.Always checkedLater readLater) {job : String}
    {early late : List ErrorRow} (readEarly : checked.store.copyErrors read.store job = .ok early)
    (readLate : checkedLater.store.copyErrors readLater.store job = .ok late) {row : JobRow}
    (found : readLater.store.jobs.find? job = some row) :
    late.Pairwise (fun left right => left.id < right.id) ∧
      ∃ added, late = early ++ added ∧ ∀ error ∈ added, read.store.errorSequence < error.id := by
  have reachedRead := reached.run first
  have run := between.trans second
  have stored : ∃ old, checked.store.jobs.find? job = some old := by
    unfold Store.copyErrors at readEarly
    cases got : checked.store.get job with
    | error raised =>
        rw [got] at readEarly
        cases readEarly
    | ok job =>
        obtain ⟨old, oldFound, -⟩ := Store.get_eq_ok got
        exact ⟨old, oldFound⟩
  have earlyEq : early = read.store.jobErrors job := by
    unfold Store.copyErrors at readEarly
    cases got : checked.store.get job <;> rw [got] at readEarly <;> cases readEarly
    rfl
  have lateEq : late = readLater.store.jobErrors job := by
    unfold Store.copyErrors at readLate
    cases got : checkedLater.store.get job <;> rw [got] at readLate <;> cases readLate
    rfl
  have drawn : job ∈ read.jobIds := by
    obtain ⟨old, oldFound⟩ := stored
    exact first.preserves (fun system => job ∈ system.jobIds)
      (fun _ _ _ _ moved drawn => (System.next_drawn moved).2 drawn)
      (System.drawn_of_found reached oldFound)
  rw [earlyEq, lateEq]
  refine ⟨?_, System.errors_begin_run reachedRead run drawn found⟩
  have numbered := System.numbered_of_reachable (reachedRead.run run)
  rw [numbered.jobErrors_eq job]
  exact numbered.increasing.sublist List.filter_sublist

def timeoutFailure : Failure :=
  { code := "timeout"
    message := "registry operation failed"
    retryable := true
    delay := some 0
    httpStatus := none
    integrityFailure := false }

def failedWithTimeout : List Action :=
  [.commit (.enqueue sampleValues "job" 0), .commit (.claim "worker" 60 1 "first"),
    .commit (.call "job" "first" (.failOrRetry timeoutFailure) 2)]

def failedWithTimeoutAgain : List Action :=
  [.commit (.claim "worker" 60 3 "second"),
    .commit (.call "job" "second" (.failOrRetry timeoutFailure) 4)]

theorem error_history_only_grows_by_one :
    ∃ read later early late added, interleaved.Reachable read ∧
      interleaved.Run Machine.Always read later ∧
      read.store.copyErrors read.store "job" = .ok early ∧
      later.store.copyErrors later.store "job" = .ok late ∧ late = early ++ added ∧
      ∀ error ∈ added, read.store.errorSequence < error.id := by
  have runs : ((interleaved.execute Machine.Always failedWithTimeout System.initial).any fun read =>
      (read.store.get "job").isOk &&
        ((interleaved.execute Machine.Always failedWithTimeoutAgain read).any fun later =>
          (later.store.get "job").isOk)) = true := by decide +kernel
  obtain ⟨read, reached, both⟩ := interleaved.exists_reachable_of_execute rfl runs
  obtain ⟨storedEarly, continues⟩ := (Bool.and_eq_true _ _).mp both
  obtain ⟨later, run, storedLate⟩ := interleaved.exists_run_of_execute Machine.Always continues
  have isRead : ∀ {store : Store}, (store.get "job").isOk = true →
      ∃ row, store.jobs.find? "job" = some row ∧
        store.copyErrors store "job" = .ok (store.jobErrors "job") := by
    intro store stored
    cases got : store.get "job" with
    | error raised =>
        rw [got] at stored
        cases stored
    | ok job =>
        obtain ⟨row, found, -⟩ := Store.get_eq_ok got
        refine ⟨row, found, ?_⟩
        unfold Store.copyErrors
        rw [got]
        rfl
  obtain ⟨-, -, readEarly⟩ := isRead storedEarly
  obtain ⟨row, found, readLate⟩ := isRead storedLate
  obtain ⟨-, added, same, above⟩ := error_history_only_grows reached (Machine.Run.refl read) run
    (Machine.Run.refl later) readEarly readLate found
  exact ⟨read, later, _, _, added, reached, run, readEarly, readLate, same, above⟩

end OciTransfer
