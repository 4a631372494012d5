import OciTransfer.QueueTransactions
import OciTransfer.TransitionRules

/-!
Runs of the queue by any number of clients and workers.

In an interleaved run the unit is the transaction: `cancel` and `retry` read in
one step, and the write they decided on is pending until a later step commits
or abandons it.  The identifiers that `uuid4` has returned are recorded, and
none is drawn twice.  In a sequential run every method completes before the
next one starts.
-/

namespace OciTransfer

/-- The write of a `cancel` or a `retry` that has read the job and not yet written. -/
inductive PendingWrite where
  | cancel (job : String) (target : CancelTarget)
  | retry (job : String)
  deriving DecidableEq, Repr

def Transaction.pendingWrite : Transaction → Option PendingWrite
  | .cancelWrite job target _ => some (.cancel job target)
  | .retryWrite job _ => some (.retry job)
  | _ => none

structure System where
  store : Store
  pending : List PendingWrite
  jobIds : List String
  tokens : List String

namespace System

def initial : System :=
  { store := Store.empty
    pending := []
    jobIds := []
    tokens := [] }

/-- `uuid4` has not yet returned the identifier that the transaction draws. -/
def drawsFresh (system : System) : Transaction → Bool
  | .enqueue _ jobId _ => jobId ∉ system.jobIds
  | .claim _ _ _ token => token ∉ system.tokens
  | _ => true

def commit (system : System) (transaction : Transaction) : System :=
  { store := transaction.commit system.store
    pending := system.pending
    jobIds := match transaction with
      | .enqueue _ jobId _ => jobId :: system.jobIds
      | _ => system.jobIds
    tokens := match transaction with
      | .claim _ _ _ token => token :: system.tokens
      | _ => system.tokens }

end System

inductive Action where
  | commit (transaction : Transaction)
  | cancelRead (job : String)
  | retryRead (job : String)
  | abandon (write : PendingWrite)
  | observe
  deriving DecidableEq, Repr

/-- The next state of the system, for an action that is possible in it.  A read
of `cancel` or `retry` that decides against writing is an observation. -/
def System.next (system : System) : Action → Option System
  | .commit transaction =>
      match transaction.pendingWrite with
      | none => if system.drawsFresh transaction then some (system.commit transaction) else none
      | some write =>
          if write ∈ system.pending then
            some { system.commit transaction with pending := system.pending.erase write }
          else none
  | .cancelRead job =>
      match system.store.get job with
      | .error _ => none
      | .ok read => (Store.cancelTarget read.state).map fun target =>
          { system with pending := .cancel job target :: system.pending }
  | .retryRead job =>
      match system.store.get job with
      | .error _ => none
      | .ok read =>
          if read.state = .failed then
            some { system with pending := .retry job :: system.pending }
          else none
  | .abandon write =>
      if write ∈ system.pending then
        some { system with pending := system.pending.erase write }
      else none
  | .observe => some system

def interleaved : Machine System Action :=
  { start := fun system => system = System.initial
    next := System.next }

namespace System

variable {before after : System}

theorem next_commit {transaction : Transaction}
    (moved : before.next (.commit transaction) = some after) :
    (transaction.pendingWrite = none ∧ before.drawsFresh transaction = true ∧
        after = before.commit transaction) ∨
      (∃ write, transaction.pendingWrite = some write ∧ write ∈ before.pending ∧
        after = { before.commit transaction with pending := before.pending.erase write }) := by
  simp only [next] at moved
  cases isPending : transaction.pendingWrite with
  | none =>
      simp only [isPending] at moved
      split at moved
      · rename_i fresh
        exact Or.inl ⟨rfl, fresh, (Option.some.inj moved).symm⟩
      · cases moved
  | some write =>
      simp only [isPending] at moved
      split at moved
      · rename_i member
        exact Or.inr ⟨write, rfl, member, (Option.some.inj moved).symm⟩
      · cases moved

theorem next_commit_store {transaction : Transaction}
    (moved : before.next (.commit transaction) = some after) :
    after.store = transaction.commit before.store := by
  rcases next_commit moved with ⟨-, -, rfl⟩ | ⟨write, -, -, rfl⟩ <;> rfl

theorem next_other {action : Action} (moved : before.next action = some after)
    (other : ∀ transaction, action ≠ .commit transaction) :
    after = { before with pending := after.pending } := by
  cases action with
  | commit transaction => exact absurd rfl (other transaction)
  | cancelRead job =>
      simp only [next] at moved
      split at moved
      · cases moved
      · obtain ⟨target, _decided, rfl⟩ := Option.map_eq_some_iff.mp moved
        rfl
  | retryRead job =>
      simp only [next] at moved
      split at moved
      · cases moved
      · split at moved <;> cases moved
        rfl
  | abandon write =>
      simp only [next] at moved
      split at moved <;> cases moved
      rfl
  | observe =>
      cases moved
      rfl

theorem next_store {action : Action} (moved : before.next action = some after) :
    after.store = before.store ∨ ∃ transaction, action = .commit transaction ∧
      after.store = transaction.commit before.store := by
  by_cases commits : ∃ transaction, action = .commit transaction
  · obtain ⟨transaction, rfl⟩ := commits
    exact Or.inr ⟨transaction, rfl, next_commit_store moved⟩
  · rw [next_other moved fun transaction same => commits ⟨transaction, same⟩]
    exact Or.inl rfl

theorem next_drawn {action : Action} (moved : before.next action = some after) :
    before.tokens ⊆ after.tokens ∧ before.jobIds ⊆ after.jobIds := by
  by_cases commits : ∃ transaction, action = .commit transaction
  · obtain ⟨transaction, rfl⟩ := commits
    have grows : before.tokens ⊆ (before.commit transaction).tokens ∧
        before.jobIds ⊆ (before.commit transaction).jobIds := by
      cases transaction <;>
        first
          | exact ⟨List.Subset.refl _, List.Subset.refl _⟩
          | exact ⟨List.subset_cons_self _ _, List.Subset.refl _⟩
          | exact ⟨List.Subset.refl _, List.subset_cons_self _ _⟩
    rcases next_commit moved with ⟨-, -, rfl⟩ | ⟨write, -, -, rfl⟩
    · exact grows
    · exact grows
  · rw [next_other moved fun transaction same => commits ⟨transaction, same⟩]
    exact ⟨List.Subset.refl _, List.Subset.refl _⟩

theorem next_claim {worker token : String} {leaseSeconds : Int} {current : Instant}
    (moved : before.next (.commit (.claim worker leaseSeconds current token)) = some after) :
    token ∉ before.tokens ∧ token ∈ after.tokens := by
  rcases next_commit moved with ⟨-, fresh, rfl⟩ | ⟨write, impossible, -, -⟩
  · exact ⟨of_decide_eq_true fresh, List.mem_cons_self⟩
  · cases impossible

theorem next_enqueue {values : EnqueueValues} {jobId : String} {current : Instant}
    (moved : before.next (.commit (.enqueue values jobId current)) = some after) :
    jobId ∉ before.jobIds ∧ jobId ∈ after.jobIds := by
  rcases next_commit moved with ⟨-, fresh, rfl⟩ | ⟨write, impossible, -, -⟩
  · exact ⟨of_decide_eq_true fresh, List.mem_cons_self⟩
  · cases impossible

/-- One action changes a row by one listed step, or inserts it under an
identifier never drawn before, or leaves it alone. -/
theorem next_row {action : Action} (moved : before.next action = some after) {job : String}
    {row : JobRow} (found : after.store.jobs.find? job = some row) :
    (∃ old, before.store.jobs.find? job = some old ∧
      (row = old ∨ ∃ transaction, action = .commit transaction ∧ RowStep transaction old row)) ∨
    (before.store.jobs.find? job = none ∧ job ∉ before.jobIds ∧ job ∈ after.jobIds ∧
      ∃ values current, row = .fresh values job current) := by
  rcases next_store moved with same | ⟨transaction, rfl, committed⟩
  · rw [same] at found
    exact Or.inl ⟨row, found, Or.inl rfl⟩
  · rw [committed] at found
    rcases transaction.commit_row found with
      ⟨old, present, unchanged | changed⟩ | ⟨values, current, rfl, absent, inserted⟩
    · exact Or.inl ⟨old, present, Or.inl unchanged⟩
    · exact Or.inl ⟨old, present, Or.inr ⟨transaction, rfl, changed⟩⟩
    · obtain ⟨undrawn, drawn⟩ := next_enqueue moved
      exact Or.inr ⟨absent, undrawn, drawn, values, current, inserted⟩

/-- What every listed row step preserves holds of every row of every reachable store. -/
theorem row_invariant (holds : JobRow → Prop)
    (fresh : ∀ values job current, holds (.fresh values job current))
    (keeps : ∀ transaction old row, RowStep transaction old row → holds old → holds row)
    {system : System} (reached : interleaved.Reachable system) {job : String} {row : JobRow}
    (found : system.store.jobs.find? job = some row) : holds row := by
  have everyRow : ∀ job row, system.store.jobs.find? job = some row → holds row := by
    refine reached.invariant
      (fun system => ∀ job row, system.store.jobs.find? job = some row → holds row) ?_ ?_
    · rintro state rfl job row found
      cases found
    · intro before action after moved ih job row found
      rcases next_row moved found with
        ⟨old, present, rfl | ⟨transaction, -, changed⟩⟩ | ⟨-, -, -, values, current, rfl⟩
      · exact ih job row present
      · exact keeps transaction old row changed (ih job old present)
      · exact fresh values job current
  exact everyRow job row found

theorem drawn_of_found {system : System} (reached : interleaved.Reachable system) {job : String}
    {row : JobRow} (found : system.store.jobs.find? job = some row) : job ∈ system.jobIds := by
  have everyRow : ∀ job row, system.store.jobs.find? job = some row → job ∈ system.jobIds := by
    refine reached.invariant
      (fun system => ∀ job row, system.store.jobs.find? job = some row → job ∈ system.jobIds)
      ?_ ?_
    · rintro state rfl job row found
      cases found
    · intro before action after moved ih job row found
      rcases next_row moved found with ⟨old, present, -⟩ | ⟨-, -, drawn, -⟩
      · exact (next_drawn moved).2 (ih job old present)
      · exact drawn
  exact everyRow job row found

end System

/-! ### Sequential runs -/

inductive Operation where
  | run (transaction : Transaction)
  | cancel (job : String) (current : Instant)
  | retry (job : String) (current : Instant)
  deriving DecidableEq, Repr

/-- The store a completed operation leaves. -/
def Operation.apply (operation : Operation) (store : Store) : Store :=
  match operation with
  | .run transaction => transaction.commit store
  | .cancel job current =>
      match store.cancel job current with
      | .ok (after, _) => after
      | .error _ => store
  | .retry job current =>
      match store.retry job current with
      | .ok (after, _) => after
      | .error _ => store

/-- The writes of `cancel` and `retry` are no operations of their own here. -/
def Operation.whole : Operation → Bool
  | .run transaction => transaction.pendingWrite.isNone
  | _ => true

def sequential : Machine Store Operation :=
  { start := fun store => store = Store.empty
    next := fun store operation =>
      if operation.whole then some (operation.apply store) else none }

/-- The transaction of an operation that writes. -/
def Operation.Commits (operation : Operation) (transaction : Transaction) : Prop :=
  match operation with
  | .run whole => transaction = whole ∧ whole.pendingWrite = none
  | .cancel job current => ∃ target, transaction = .cancelWrite job target current
  | .retry job current => transaction = .retryWrite job current

/-- A write of `cancel` or `retry` finds the row as it was read. -/
def Transaction.UpToDate (row : JobRow) : Transaction → Prop
  | .cancelWrite job target _ => row.id = job → Store.cancelTarget row.state = some target
  | .retryWrite job _ => row.id = job → row.state = .failed
  | _ => True

namespace Store

theorem get_eq_ok {store : Store} {job : String} {read : CopyJob}
    (got : store.get job = .ok read) :
    ∃ row, store.jobs.find? job = some row ∧ read = row.toCopyJob := by
  unfold get at got
  split at got
  · cases got
  · rename_i row found
    cases got
    exact ⟨row, found, rfl⟩

theorem get_updateJobs_ok {store : Store} {selected : JobRow → Bool} {change : JobRow → JobRow}
    {keepsKey : ∀ row, (change row).key = row.key} {job : String} {row : JobRow}
    (found : store.jobs.find? job = some row) :
    ∃ read, (store.updateJobs selected change keepsKey).get job = .ok read := by
  unfold get
  rw [find?_updateJobs, found]
  exact ⟨_, rfl⟩

private theorem cancel_apply (store : Store) (job : String) (current : Instant) :
    (Operation.cancel job current).apply store = store ∨
      ∃ row target, store.jobs.find? job = some row ∧ cancelTarget row.state = some target ∧
        (Operation.cancel job current).apply store =
          (Transaction.cancelWrite job target current).commit store := by
  cases got : store.get job with
  | error raised =>
      left
      simp only [Operation.apply, cancel, got]
  | ok read =>
      obtain ⟨row, found, rfl⟩ := get_eq_ok got
      cases decided : cancelTarget row.state with
      | none =>
          left
          simp only [Operation.apply, cancel, got, decided]
      | some target =>
          refine Or.inr ⟨row, target, found, decided, ?_⟩
          obtain ⟨reread, rereadEq⟩ : ∃ reread, (store.cancelWrite job target current).get job =
              .ok reread := get_updateJobs_ok found
          simp only [Operation.apply, cancel, got, decided, rereadEq, Except.map,
            Transaction.commit]

theorem retry_of_failed {store : Store} {job : String} {row : JobRow}
    (found : store.jobs.find? job = some row) (isFailed : row.state = .failed)
    (current : Instant) :
    (Operation.retry job current).apply store =
      (Transaction.retryWrite job current).commit store := by
  have got : store.get job = .ok row.toCopyJob := by
    unfold get
    rw [found]
  obtain ⟨reread, rereadEq⟩ : ∃ reread, (store.retryWrite job current).get job = .ok reread :=
    get_updateJobs_ok found
  simp only [Operation.apply, retry, got, isFailed, ne_eq, not_true_eq_false, if_false, rereadEq,
    Except.map, Transaction.commit]

private theorem retry_apply (store : Store) (job : String) (current : Instant) :
    (Operation.retry job current).apply store = store ∨
      ∃ row, store.jobs.find? job = some row ∧ row.state = .failed ∧
        (Operation.retry job current).apply store =
          (Transaction.retryWrite job current).commit store := by
  cases got : store.get job with
  | error raised =>
      left
      simp only [Operation.apply, retry, got]
  | ok read =>
      obtain ⟨row, found, rfl⟩ := get_eq_ok got
      by_cases isFailed : row.state = .failed
      · exact Or.inr ⟨row, found, isFailed, retry_of_failed found isFailed current⟩
      · left
        simp only [Operation.apply, retry, got, ne_eq, isFailed, not_false_eq_true, if_true]

end Store

/-- One completed operation is at most one transaction, and the write of a
`cancel` or a `retry` finds the row as it was read. -/
theorem sequential_transaction {before after : Store} {operation : Operation}
    (moved : sequential.next before operation = some after) :
    after = before ∨ ∃ transaction, operation.Commits transaction ∧
      after = transaction.commit before ∧ ∀ row ∈ before.jobs.rows, transaction.UpToDate row := by
  have onlyRow : ∀ {job row}, before.jobs.find? job = some row →
      ∀ other ∈ before.jobs.rows, other.id = job → other = row := by
    intro job row found other member sameId
    exact before.jobs.key_injective member (before.jobs.find?_mem found)
      (sameId.trans (before.jobs.find?_key found).symm)
  simp only [sequential] at moved
  split at moved
  · rename_i whole
    cases moved
    cases operation with
    | run transaction =>
        have notPending := Option.isNone_iff_eq_none.mp whole
        refine Or.inr ⟨transaction, ⟨rfl, notPending⟩, rfl, fun row _member => ?_⟩
        cases transaction with
        | cancelWrite | retryWrite => cases notPending
        | enqueue | claim | call | dismiss | release | prune => trivial
    | cancel job current =>
        rcases before.cancel_apply job current with same | ⟨row, target, found, decided, written⟩
        · exact Or.inl same
        · refine Or.inr ⟨.cancelWrite job target current, ⟨target, rfl⟩, written, ?_⟩
          intro other member sameId
          rw [onlyRow found other member sameId]
          exact decided
    | retry job current =>
        rcases before.retry_apply job current with same | ⟨row, found, isFailed, written⟩
        · exact Or.inl same
        · refine Or.inr ⟨.retryWrite job current, rfl, written, ?_⟩
          intro other member sameId
          rw [onlyRow found other member sameId]
          exact isFailed
  · cases moved

/-- A row after a completed operation: unchanged, changed by one listed step
whose decision is up to date, or just inserted. -/
theorem sequential_row {before after : Store} {operation : Operation}
    (moved : sequential.next before operation = some after) {job : String} {row : JobRow}
    (found : after.jobs.find? job = some row) :
    (∃ old, before.jobs.find? job = some old ∧
      (row = old ∨ ∃ transaction, operation.Commits transaction ∧ RowStep transaction old row ∧
        transaction.UpToDate old)) ∨
    (before.jobs.find? job = none ∧ ∃ values current,
      operation.Commits (.enqueue values job current) ∧
        after = (Transaction.enqueue values job current).commit before ∧
        row = .fresh values job current) := by
  rcases sequential_transaction moved with rfl | ⟨transaction, commits, rfl, upToDate⟩
  · exact Or.inl ⟨row, found, Or.inl rfl⟩
  · rcases transaction.commit_row found with
      ⟨old, present, unchanged | changed⟩ | ⟨values, current, rfl, absent, inserted⟩
    · exact Or.inl ⟨old, present, Or.inl unchanged⟩
    · exact Or.inl ⟨old, present, Or.inr ⟨transaction, commits, changed,
        upToDate old (before.jobs.find?_mem present)⟩⟩
    · exact Or.inr ⟨absent, values, current, commits, rfl, inserted⟩

/-- What every up-to-date row step preserves holds of every row in a sequential run. -/
theorem sequential_row_invariant (holds : JobRow → Prop)
    (fresh : ∀ values job current, holds (.fresh values job current))
    (keeps : ∀ transaction old row, RowStep transaction old row → transaction.UpToDate old →
      holds old → holds row)
    {store : Store} (reached : sequential.Reachable store) {job : String} {row : JobRow}
    (found : store.jobs.find? job = some row) : holds row := by
  have everyRow : ∀ job row, store.jobs.find? job = some row → holds row := by
    refine reached.invariant
      (fun store => ∀ job row, store.jobs.find? job = some row → holds row) ?_ ?_
    · rintro state rfl job row found
      cases found
    · intro before operation after moved ih job row found
      rcases sequential_row moved found with
        ⟨old, present, rfl | ⟨transaction, -, changed, upToDate⟩⟩ | ⟨-, values, current, -, -, rfl⟩
      · exact ih job row present
      · exact keeps transaction old row changed upToDate (ih job old present)
      · exact fresh values job current
  exact everyRow job row found

def sampleValues : EnqueueValues :=
  { source := "a.example/x:v1"
    destination := "b.example/x:v1"
    platformsJson := "[]"
    sourceProviderId := "anonymous"
    destinationProviderId := "anonymous"
    copyReferrers := 1
    copyDigestTags := 1
    replacementPolicy := .noClobber }

def sampleSnapshot : ImageSnapshot :=
  { source := "a.example/x:v1"
    resolvedSource := "a.example/x@sha256:aa"
    destination := "b.example/x:v1"
    rootDigest := "sha256:aa"
    rootMediaType := "manifest"
    rootSize := 10
    platforms := []
    manifests := []
    blobs := [⟨"sha256:bb", "layer", some 10⟩, ⟨"sha256:cc", "layer", some 5⟩]
    copyReferrers := true
    copyDigestTags := true
    replacementPolicy := .noClobber
    digest := "sha256:dd" }

end OciTransfer
