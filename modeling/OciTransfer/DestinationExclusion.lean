import OciTransfer.RowLifecycle

/-!
Active jobs on one destination.

`enqueue` refuses a second active job on a destination, and no other operation
makes a job active except `retry`, which does not look at the other rows.  So
the destinations of the active jobs stay distinct in exactly those sequential
runs in which no failed job is retried beside an active one.
-/

namespace OciTransfer

def Store.DestinationsDistinct (store : Store) : Prop :=
  ∀ left ∈ store.jobs.rows, ∀ right ∈ store.jobs.rows,
    left.state.active = true → right.state.active = true →
      left.destination = right.destination → left.id = right.id

instance (store : Store) : Decidable store.DestinationsDistinct :=
  inferInstanceAs (Decidable (∀ left ∈ store.jobs.rows, ∀ right ∈ store.jobs.rows, _))

/-- Another job than this one is active on the destination. -/
def Store.Occupied (store : Store) (job destination : String) : Prop :=
  ∃ other ∈ store.jobs.rows, other.id ≠ job ∧ other.state.active = true ∧
    other.destination = destination

instance (store : Store) (job destination : String) : Decidable (store.Occupied job destination) :=
  inferInstanceAs (Decidable (∃ other ∈ store.jobs.rows, _))

/-- A retry of a failed job finds its destination free. -/
def RetryUncontested (store : Store) : Operation → Prop
  | .retry job _ => ∀ row, store.jobs.find? job = some row → row.state = .failed →
      ¬ store.Occupied job row.destination
  | _ => True

private theorem destination_of_rowStep {transaction : Transaction} {old row : JobRow}
    (changed : RowStep transaction old row) : row.destination = old.destination := by
  cases changed <;> rfl

private theorem active_of_rowStep {transaction : Transaction} {old row : JobRow}
    (changed : RowStep transaction old row) (upToDate : transaction.UpToDate old)
    (lifecycle : old.Lifecycle) (active : row.state.active = true) :
    old.state.active = true ∨
      (old.state = .failed ∧ ∃ current, transaction = .retryWrite old.id current) := by
  have ofToken : ∀ {token}, old.claimToken = some token → old.state.active = true := by
    intro token holds
    rw [JobState.active_eq_not_terminal,
      JobState.not_terminal_of_claimed (lifecycle.claimed_of_token holds)]
    rfl
  cases changed with
  | swept due =>
      rw [(JobRow.sweepDue_iff.mp due).1]
      exact Or.inl rfl
  | taken eligible =>
      rw [JobState.active_eq_not_terminal, (JobRow.live_of_eligible eligible).1]
      exact Or.inl rfl
  | beat _sameId holds _live => exact Or.inl (ofToken holds)
  | pinned _sameId holds _planning => exact Or.inl (ofToken holds)
  | entered _sameId holds _named _wanted => exact Or.inl (ofToken holds)
  | tallied _sameId holds _named => exact Or.inl (ofToken holds)
  | finished _sameId holds => exact Or.inl (ofToken holds)
  | failed _sameId holds => exact Or.inl (ofToken holds)
  | givenBack _sameId _holds working => exact Or.inl (JobState.active_of_working working)
  | released _owned working => exact Or.inl (JobState.active_of_working working)
  | cancelWritten sameId =>
      have decided := upToDate sameId
      left
      rw [JobState.active_eq_not_terminal]
      cases terminal : old.state.terminal with
      | false => rfl
      | true => simp [Store.cancelTarget, terminal] at decided
  | retryWritten sameId => exact Or.inr ⟨upToDate sameId, _, by rw [sameId]⟩

private theorem enqueue_alone {before : Store} {values : EnqueueValues} {job : String}
    {current : Instant}
    {row : JobRow} (absent : before.jobs.find? job = none)
    (found : ((Transaction.enqueue values job current).commit before).jobs.find? job = some row) :
    ¬ before.Occupied job values.destination := by
  rintro ⟨other, member, -, active, sameDestination⟩
  rcases Transaction.commit_enqueue before values job current with same | ⟨idle, -⟩
  · rw [same, absent] at found
    cases found
  · rw [idle other member sameDestination] at active
    cases active

/-- A job after a completed operation was there and, if it is active now, was
active or failed and just retried; or it was just inserted with its destination
to itself. -/
theorem active_row {before after : Store} {operation : Operation}
    (reached : sequential.Reachable before) (moved : sequential.next before operation = some after)
    {row : JobRow} (member : row ∈ after.jobs.rows) (active : row.state.active = true) :
    (∃ old ∈ before.jobs.rows, old.id = row.id ∧ old.destination = row.destination ∧
      (old.state.active = true ∨
        (old.state = .failed ∧ ∃ current, operation = .retry row.id current))) ∨
    ((∃ values current, operation = .run (.enqueue values row.id current)) ∧
      ¬ before.Occupied row.id row.destination) := by
  have found := after.jobs.find?_of_mem member
  rcases sequential_row moved found with
    ⟨old, present, rfl | ⟨transaction, commits, changed, upToDate⟩⟩ |
    ⟨absent, values, current, commits, rfl, inserted⟩
  · exact Or.inl ⟨row, before.jobs.find?_mem present, rfl, rfl, Or.inl active⟩
  · have sameId : old.id = row.id := before.jobs.find?_key present
    refine Or.inl ⟨old, before.jobs.find?_mem present, sameId,
      (destination_of_rowStep changed).symm, ?_⟩
    rcases active_of_rowStep changed upToDate (lifecycle_of_found reached present) active with
      was | ⟨wasFailed, current, rfl⟩
    · exact Or.inl was
    · right
      refine ⟨wasFailed, current, ?_⟩
      cases operation with
      | run whole =>
          obtain ⟨rfl, notPending⟩ := commits
          cases notPending
      | cancel job instant =>
          obtain ⟨target, impossible⟩ := commits
          cases impossible
      | retry job instant =>
          cases commits
          rw [sameId]
  · right
    constructor
    · cases operation with
      | run whole =>
          obtain ⟨same, -⟩ := commits
          exact ⟨values, current, by rw [← same]⟩
      | cancel job instant =>
          obtain ⟨target, impossible⟩ := commits
          cases impossible
      | retry job instant => cases commits
    · have alone := enqueue_alone absent found
      rw [inserted]
      exact alone

private theorem occupied_of_active {before after : Store} {operation : Operation}
    (reached : sequential.Reachable before) (moved : sequential.next before operation = some after)
    {row : JobRow} (member : row ∈ after.jobs.rows) (active : row.state.active = true)
    {job : String} (otherId : row.id ≠ job)
    (touched : (∃ values current, operation = .run (.enqueue values job current)) ∨
      ∃ current, operation = .retry job current) : before.Occupied job row.destination := by
  rcases active_row reached moved member active with
    ⟨old, oldMember, oldId, oldDestination, wasActive | ⟨-, current, isRetry⟩⟩ |
    ⟨⟨values, current, isEnqueue⟩, -⟩
  · exact ⟨old, oldMember, (by rw [oldId]; exact otherId), wasActive, oldDestination⟩
  · rcases touched with ⟨_, _, isOther⟩ | ⟨_, isOther⟩
    · rw [isRetry] at isOther
      cases isOther
    · rw [isRetry] at isOther
      injection isOther with sameId
      exact absurd sameId otherId
  · rcases touched with ⟨_, _, isOther⟩ | ⟨_, isOther⟩
    · rw [isEnqueue] at isOther
      injection isOther with sameTransaction
      injection sameTransaction with _ sameId
      exact absurd sameId otherId
    · rw [isEnqueue] at isOther
      cases isOther

private theorem wasActive_of_shared {before after : Store} {operation : Operation}
    (reached : sequential.Reachable before) (uncontested : RetryUncontested before operation)
    (moved : sequential.next before operation = some after) {row other : JobRow}
    (member : row ∈ after.jobs.rows) (otherMember : other ∈ after.jobs.rows)
    (active : row.state.active = true) (otherActive : other.state.active = true)
    (sameDestination : other.destination = row.destination) (otherId : other.id ≠ row.id) :
    ∃ old ∈ before.jobs.rows, old.id = row.id ∧ old.destination = row.destination ∧
      old.state.active = true := by
  have occupied := occupied_of_active reached moved otherMember otherActive otherId
  rw [sameDestination] at occupied
  rcases active_row reached moved member active with
    ⟨old, oldMember, oldId, oldDestination, wasActive | ⟨wasFailed, current, rfl⟩⟩ |
    ⟨⟨values, current, rfl⟩, free⟩
  · exact ⟨old, oldMember, oldId, oldDestination, wasActive⟩
  · have oldFound : before.jobs.find? row.id = some old := by
      rw [← oldId]
      exact before.jobs.find?_of_mem oldMember
    have free := uncontested old oldFound wasFailed
    rw [oldDestination] at free
    exact absurd (occupied (Or.inr ⟨current, rfl⟩)) free
  · exact absurd (occupied (Or.inl ⟨values, current, rfl⟩)) free

private theorem destinationsDistinct_step {before after : Store} {operation : Operation}
    (reached : sequential.Reachable before) (uncontested : RetryUncontested before operation)
    (moved : sequential.next before operation = some after)
    (distinct : before.DestinationsDistinct) : after.DestinationsDistinct := by
  intro left leftMember right rightMember leftActive rightActive sameDestination
  by_contra otherId
  obtain ⟨oldLeft, oldLeftMember, leftId, leftDestination, leftWasActive⟩ :=
    wasActive_of_shared reached uncontested moved leftMember rightMember leftActive rightActive
      sameDestination.symm (Ne.symm otherId)
  obtain ⟨oldRight, oldRightMember, rightId, rightDestination, rightWasActive⟩ :=
    wasActive_of_shared reached uncontested moved rightMember leftMember rightActive leftActive
      sameDestination otherId
  have sameId := distinct oldLeft oldLeftMember oldRight oldRightMember leftWasActive rightWasActive
    ((leftDestination.trans sameDestination).trans rightDestination.symm)
  exact otherId (leftId.symm.trans (sameId.trans rightId))

private theorem contested_retry {before after : Store} {operation : Operation}
    (contested : ¬ RetryUncontested before operation)
    (moved : sequential.next before operation = some after) : ¬ after.DestinationsDistinct := by
  cases operation with
  | run transaction => exact absurd trivial contested
  | cancel job current => exact absurd trivial contested
  | retry job current =>
      simp only [RetryUncontested, not_forall, not_not] at contested
      obtain ⟨row, found, isFailed, other, otherMember, otherId, otherActive, sameDestination⟩ :=
        contested
      have afterEq : after = before.retryWrite job current := by
        cases moved
        exact Store.retry_of_failed found isFailed current
      subst afterEq
      intro distinct
      have retried : (before.retryWrite job current).jobs.find? job =
          some (row.retryWrite current) := by
        unfold Store.retryWrite
        rw [Store.find?_updateJobs, found, Option.map_some,
          decide_eq_true (before.jobs.find?_key found), if_pos rfl]
      have untouched : (before.retryWrite job current).jobs.find? other.id = some other := by
        unfold Store.retryWrite
        rw [Store.find?_updateJobs, before.jobs.find?_of_mem otherMember, Option.map_some,
          decide_eq_false otherId, if_neg Bool.false_ne_true]
      have sameId := distinct other (KeyedTable.find?_mem _ untouched) (row.retryWrite current)
        (KeyedTable.find?_mem _ retried) otherActive rfl sameDestination
      have rowId : row.id = job := before.jobs.find?_key found
      exact otherId (sameId.trans rowId)

/-- The destinations of the active jobs are distinct in every store of a run
whose retries are all uncontested, and a contested retry then ends that. -/
theorem destinations_distinct_unless_contested {store : Store}
    (run : sequential.Run RetryUncontested Store.empty store) :
    store.DestinationsDistinct ∧
    ∀ operation after, sequential.next store operation = some after →
      (after.DestinationsDistinct ↔ RetryUncontested store operation) := by
  have invariant := run.preserves
    (fun store => sequential.Reachable store ∧ store.DestinationsDistinct)
    (fun before operation after uncontested moved ⟨reached, distinct⟩ =>
      ⟨reached.step moved, destinationsDistinct_step reached uncontested moved distinct⟩)
    ⟨⟨Store.empty, rfl, Machine.Run.refl Store.empty⟩, by decide⟩
  obtain ⟨reached, distinct⟩ := invariant
  refine ⟨distinct, fun operation after moved => ⟨fun distinctAfter => ?_, fun uncontested =>
    destinationsDistinct_step reached uncontested moved distinct⟩⟩
  by_contra contested
  exact contested_retry contested moved distinctAfter

def sampleFailure : Failure :=
  { code := "transfer_failed"
    message := "transfer failed"
    retryable := false
    delay := none
    httpStatus := none
    integrityFailure := false }

def failedFirst : List Operation :=
  [.run (.enqueue sampleValues "first" 0), .run (.claim "worker" 60 1 "token"),
    .run (.call "first" "token" (.failOrRetry sampleFailure) 2)]

theorem destinations_distinct_after_retry :
    ∃ store, sequential.Run RetryUncontested Store.empty store ∧ store.DestinationsDistinct ∧
      (store.jobs.find? "first").any (·.state = .queued) = true := by
  have run : ((sequential.execute (fun store operation =>
      operation ∈ failedFirst ++ [.retry "first" 3] ∧
        (store.jobs.find? "first").all fun row => ¬ store.Occupied "first" row.destination)
      (failedFirst ++ [.retry "first" 3]) Store.empty).any fun store =>
        (store.jobs.find? "first").any (·.state = .queued)) = true := by decide
  obtain ⟨store, ran, isQueued⟩ := sequential.exists_run_of_execute _ run
  have admitted : sequential.Run RetryUncontested Store.empty store := by
    refine ran.weaken RetryUncontested fun state operation both => ?_
    obtain ⟨member, unoccupied⟩ := both
    simp only [failedFirst, List.cons_append, List.nil_append, List.mem_cons, List.not_mem_nil,
      or_false] at member
    rcases member with rfl | rfl | rfl | rfl
    · trivial
    · trivial
    · trivial
    · intro row found _
      rw [found, Option.all_some] at unoccupied
      exact of_decide_eq_true unoccupied
  exact ⟨store, admitted, (destinations_distinct_unless_contested admitted).1, isQueued⟩

def failedThenEnqueued : List Operation :=
  failedFirst ++ [.run (.enqueue sampleValues "second" 3)]

/-- Retrying the first of them makes both active. -/
theorem retry_duplicates_destination :
    ¬ ∀ store, sequential.Reachable store → store.DestinationsDistinct := by
  intro claimed
  have run : ((sequential.execute Machine.Always (failedThenEnqueued ++ [.retry "first" 4])
      Store.empty).any fun store => !decide store.DestinationsDistinct) = true := by decide
  obtain ⟨store, reached, duplicated⟩ := sequential.exists_reachable_of_execute rfl run
  rw [decide_eq_true (claimed store reached)] at duplicated
  cases duplicated

end OciTransfer
