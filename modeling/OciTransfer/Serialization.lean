import OciTransfer.ClaimFencing
import OciTransfer.RowLifecycle

/-!
Concurrent runs without late writes.

`cancel` and `retry` read in one transaction and write in another, so in an
interleaved run a write may come when its decision no longer fits the row.  As
long as none does, the run could have been a sequential one: every transaction
is a completed operation at the time it commits, and the store is one that
operations running to completion lead to.
-/

namespace OciTransfer

/-- A transaction finds each row it writes as its operation has read it. -/
def System.UpToDate (system : System) : Action → Prop
  | .commit transaction => ∀ row ∈ system.store.jobs.rows, transaction.UpToDate row
  | _ => True

instance (row : JobRow) : (transaction : Transaction) → Decidable (transaction.UpToDate row)
  | .cancelWrite job target _ =>
      inferInstanceAs (Decidable (row.id = job → Store.cancelTarget row.state = some target))
  | .retryWrite job _ => inferInstanceAs (Decidable (row.id = job → row.state = .failed))
  | .enqueue .. | .claim .. | .call .. | .dismiss _ | .release .. | .prune .. => .isTrue trivial

instance : DecidableRel System.UpToDate := fun system action =>
  match action with
  | .commit transaction =>
      inferInstanceAs (Decidable (∀ row ∈ system.store.jobs.rows, transaction.UpToDate row))
  | .cancelRead _ | .retryRead _ | .abandon _ | .observe => .isTrue trivial

namespace Store

theorem updateJobs_self {store : Store} {selected : JobRow → Bool} {change : JobRow → JobRow}
    {keepsKey : ∀ row, (change row).key = row.key}
    (unselected : ∀ row ∈ store.jobs.rows, selected row = false) :
    store.updateJobs selected change keepsKey = store := by
  have sameRows := updateJobs_unselected store selected change keepsKey unselected
  obtain ⟨⟨rows, distinct⟩, blobs, errors, errorSequence, blobsOwned, errorsOwned⟩ := store
  simp only [updateJobs, KeyedTable.update, mk.injEq, KeyedTable.mk.injEq, and_true] at sameRows ⊢
  exact sameRows

private theorem updateJobs_absent {store : Store} {job : String}
    (absent : store.jobs.find? job = none)
    (change : JobRow → JobRow) (keepsKey : ∀ row, (change row).key = row.key) :
    store.updateJobs (fun row => row.id = job) change keepsKey = store :=
  updateJobs_self fun row member =>
    decide_eq_false fun same => store.jobs.find?_eq_none.mp absent row member same

private theorem cancel_of_target {store : Store} {job : String} {row : JobRow}
    {target : CancelTarget}
    (found : store.jobs.find? job = some row) (decided : cancelTarget row.state = some target)
    (current : Instant) :
    (Operation.cancel job current).apply store =
      (Transaction.cancelWrite job target current).commit store := by
  have got : store.get job = .ok row.toCopyJob := by
    unfold get
    rw [found]
  obtain ⟨reread, rereadEq⟩ :
      ∃ reread, (store.cancelWrite job target current).get job = .ok reread :=
    get_updateJobs_ok found
  simp only [Operation.apply, cancel, got, decided, rereadEq, Except.map, Transaction.commit]

private theorem cancel_of_absent {store : Store} {job : String}
    (absent : store.jobs.find? job = none)
    (current : Instant) : (Operation.cancel job current).apply store = store := by
  have raised : store.get job = .error (.jobNotFound job) := by
    unfold get
    rw [absent]
  simp only [Operation.apply, cancel, raised]

private theorem retry_of_absent {store : Store} {job : String}
    (absent : store.jobs.find? job = none)
    (current : Instant) : (Operation.retry job current).apply store = store := by
  have raised : store.get job = .error (.jobNotFound job) := by
    unfold get
    rw [absent]
  simp only [Operation.apply, retry, raised]

end Store

/-- The operation a transaction is the last part of. -/
def Transaction.operation : Transaction → Operation
  | .cancelWrite job _ current => .cancel job current
  | .retryWrite job current => .retry job current
  | transaction => .run transaction

private theorem Transaction.whole_operation (transaction : Transaction) :
    transaction.operation.whole = true := by
  cases transaction <;> rfl

/-- A transaction that is up to date does what its operation does, run to
completion at this moment. -/
theorem Transaction.applied_of_upToDate {transaction : Transaction} {store : Store}
    (upToDate : ∀ row ∈ store.jobs.rows, transaction.UpToDate row) :
    transaction.operation.apply store = transaction.commit store := by
  cases transaction with
  | cancelWrite job target current =>
      cases found : store.jobs.find? job with
      | none =>
          exact (Store.cancel_of_absent found current).trans
            (Store.updateJobs_absent found _ (JobRow.key_cancelWrite target current)).symm
      | some row =>
          have decided := upToDate row (store.jobs.find?_mem found) (store.jobs.find?_key found)
          exact Store.cancel_of_target found decided current
  | retryWrite job current =>
      cases found : store.jobs.find? job with
      | none =>
          exact (Store.retry_of_absent found current).trans
            (Store.updateJobs_absent found _ (JobRow.key_retryWrite current)).symm
      | some row =>
          have isFailed := upToDate row (store.jobs.find?_mem found) (store.jobs.find?_key found)
          exact Store.retry_of_failed found isFailed current
  | enqueue | claim | call | dismiss | release | prune => rfl

private theorem serialized_step {before after : System} {action : Action}
    (upToDate : before.UpToDate action)
    (moved : before.next action = some after) :
    sequential.Run Machine.Always before.store after.store := by
  have stays : sequential.Run Machine.Always before.store before.store := Machine.Run.refl _
  rcases System.next_store moved with same | ⟨transaction, rfl, committed⟩
  · rw [same]
    exact stays
  · have applied : sequential.next before.store transaction.operation = some after.store := by
      change (if transaction.operation.whole then some (transaction.operation.apply before.store)
        else none) = some after.store
      rw [if_pos transaction.whole_operation, Transaction.applied_of_upToDate upToDate, committed]
    exact stays.tail trivial applied

/-- A concurrent run in which no write is late ends in a store that operations
running one after another, each to its completion, lead to from the same start. -/
theorem unlate_run_serializes {first last : System}
    (run : interleaved.Run System.UpToDate first last) :
    sequential.Run Machine.Always first.store last.store :=
  run.project System.store fun _ _ _ upToDate moved => serialized_step upToDate moved

def cancelledAroundEnqueue : List Action :=
  [.commit (.enqueue sampleValues "job" 0), .cancelRead "job",
    .commit (.enqueue { sampleValues with destination := "c.example/x:v1" } "other" 1),
    .commit (.cancelWrite "job" .cancelled 2)]

theorem unlate_run_serializes_around_enqueue :
    ∃ last, interleaved.Run System.UpToDate System.initial last ∧
      sequential.Run Machine.Always System.initial.store last.store ∧
      (last.store.jobs.find? "job").any (fun row => row.state = .cancelled) = true := by
  have runs : ((interleaved.execute System.UpToDate cancelledAroundEnqueue System.initial).any
      fun last => (last.store.jobs.find? "job").any fun row => row.state = .cancelled) = true := by
    decide
  obtain ⟨last, run, cancelled⟩ := interleaved.exists_run_of_execute System.UpToDate runs
  exact ⟨last, run, unlate_run_serializes run, cancelled⟩

theorem sequential_of_unlate {system : System}
    (run : interleaved.Run System.UpToDate System.initial system) :
    sequential.Reachable system.store :=
  ⟨Store.empty, rfl, run.project System.store fun _ _ _ upToDate moved =>
    serialized_step upToDate moved⟩

end OciTransfer
