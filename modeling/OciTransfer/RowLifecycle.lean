import OciTransfer.QueueRuns

/-!
Which columns of a job row are set in which state.

In a sequential run the claim columns are set exactly while a worker may be
running the job, and the completion and start columns follow the state and the
run count.  In an interleaved run a late write of `cancel` or `retry` breaks
that correspondence, but every column that decides when the row is seen again
is still set, so `claim` always comes back to it.
-/

namespace OciTransfer

/-- The states in which a claim on the row is outstanding. -/
def JobState.claimed (state : JobState) : Bool :=
  state.working || state = .cancelRequested

theorem JobState.claimed_of_working {state : JobState} (working : state.working = true) :
    state.claimed = true := by
  unfold claimed
  rw [working, Bool.true_or]

theorem JobState.not_terminal_of_claimed {state : JobState} (claimed : state.claimed = true) :
    state.terminal = false := by
  cases state <;> first | rfl | cases claimed

theorem phase_working {phase : Option PhaseName} {state : JobState}
    (wanted : phase.bind PhaseName.state? = some state) :
    state.working = true ∧ state ≠ .planning := by
  obtain ⟨name, -, named⟩ := Option.bind_eq_some_iff.mp wanted
  cases name <;> cases named <;> exact ⟨rfl, by decide⟩

theorem Store.waiting_of_cancelTarget {state : JobState}
    (target : Store.cancelTarget state = some .cancelled) :
    state = .queued ∨ state = .retryWait := by
  cases state <;> first | exact Or.inl rfl | exact Or.inr rfl | cases target

theorem Store.claimed_of_cancelTarget {state : JobState}
    (target : Store.cancelTarget state = some .cancelRequested) : state.claimed = true := by
  cases state <;> first | rfl | cases target

/-! ### Sequential runs -/

structure JobRow.Lifecycle (row : JobRow) : Prop where
  token : row.claimToken.isSome = row.state.claimed
  worker : row.workerId.isSome = row.state.claimed
  lease : row.leaseExpiresAt.isSome = row.state.claimed
  completed : row.completedAt.isSome = row.state.terminal
  started : row.startedAt.isSome = decide (0 < row.runCount)
  planning : row.state = .planning → row.snapshotJson = none

namespace JobRow.Lifecycle

theorem fresh (values : EnqueueValues) (job : String) (current : Instant) :
    (JobRow.fresh values job current).Lifecycle where
  token := rfl
  worker := rfl
  lease := rfl
  completed := rfl
  started := rfl
  planning := fun impossible => by cases impossible

theorem claimed_of_token {row : JobRow} {token : String} (lifecycle : row.Lifecycle)
    (holds : row.claimToken = some token) : row.state.claimed = true := by
  rw [← lifecycle.token, holds]
  rfl

private theorem idle_columns {row : JobRow} (lifecycle : row.Lifecycle)
    (idle : row.state.claimed = false) :
    row.claimToken = none ∧ row.workerId = none ∧ row.leaseExpiresAt = none := by
  refine ⟨?_, ?_, ?_⟩
  · exact Option.isSome_eq_false_iff.mp (lifecycle.token.trans idle) |> Option.isNone_iff_eq_none.mp
  · exact Option.isNone_iff_eq_none.mp
      (Option.isSome_eq_false_iff.mp (lifecycle.worker.trans idle))
  · exact Option.isSome_eq_false_iff.mp (lifecycle.lease.trans idle) |> Option.isNone_iff_eq_none.mp

theorem unclaimed {row after : JobRow} (lifecycle : row.Lifecycle)
    (token : after.claimToken = none) (worker : after.workerId = none)
    (lease : after.leaseExpiresAt = none) (state : after.state.claimed = false)
    (completed : after.completedAt.isSome = after.state.terminal)
    (started : after.startedAt = row.startedAt) (runs : after.runCount = row.runCount) :
    after.Lifecycle where
  token := by rw [token, state]; rfl
  worker := by rw [worker, state]; rfl
  lease := by rw [lease, state]; rfl
  completed := completed
  started := by rw [started, runs]; exact lifecycle.started
  planning := fun isPlanning => by rw [isPlanning] at state; cases state

private theorem stillClaimed {row after : JobRow} (lifecycle : row.Lifecycle)
    (before : row.state.claimed = true) (state : after.state.claimed = true)
    (token : after.claimToken = row.claimToken) (worker : after.workerId = row.workerId)
    (lease : after.leaseExpiresAt.isSome = row.leaseExpiresAt.isSome)
    (completed : after.completedAt = row.completedAt)
    (started : after.startedAt = row.startedAt) (runs : after.runCount = row.runCount)
    (planning : after.state = .planning → after.snapshotJson = none) : after.Lifecycle where
  token := by rw [token, lifecycle.token, before, state]
  worker := by rw [worker, lifecycle.worker, before, state]
  lease := by rw [lease, lifecycle.lease, before, state]
  completed := by
    rw [completed, lifecycle.completed, JobState.not_terminal_of_claimed before,
      JobState.not_terminal_of_claimed state]
  started := by rw [started, runs]; exact lifecycle.started
  planning := planning

theorem take {row : JobRow} (lifecycle : row.Lifecycle) (worker token : String)
    (leaseSeconds : Int) (current : Instant) (eligible : row.eligible current = true) :
    (row.take worker token leaseSeconds current).Lifecycle := by
  have active : row.state.terminal = false := (JobRow.live_of_eligible eligible).1
  have claimedAfter : (row.take worker token leaseSeconds current).state.claimed = true := by
    cases stored : row.snapshotJson <;> simp [JobRow.take, stored, JobState.claimed,
      JobState.working]
  exact
    { token := claimedAfter.symm
      worker := claimedAfter.symm
      lease := claimedAfter.symm
      completed := by
        rw [JobState.not_terminal_of_claimed claimedAfter]
        exact lifecycle.completed.trans active
      started := by
        cases startedEq : row.startedAt <;> simp [JobRow.take, startedEq]
      planning := by
        intro isPlanning
        cases stored : row.snapshotJson with
        | none => exact stored
        | some snapshot => simp [JobRow.take, stored] at isPlanning }

theorem release {row : JobRow} (lifecycle : row.Lifecycle) (current : Instant)
    (working : row.state.working = true) : (row.release current).Lifecycle := by
  have live : row.completedAt.isSome = false :=
    lifecycle.completed.trans
      (JobState.not_terminal_of_claimed (JobState.claimed_of_working working))
  cases stored : row.snapshotJson <;>
    exact lifecycle.unclaimed rfl rfl rfl (by simp [JobRow.release, stored]; rfl)
      (by simp [JobRow.release, stored, JobState.terminal] at live ⊢; exact live) rfl rfl

theorem step {transaction : Transaction} {old row : JobRow} (changed : RowStep transaction old row)
    (upToDate : transaction.UpToDate old) (lifecycle : old.Lifecycle) : row.Lifecycle := by
  cases changed with
  | swept _due => exact lifecycle.unclaimed rfl rfl rfl rfl rfl rfl rfl
  | taken eligible => exact lifecycle.take _ _ _ _ eligible
  | beat _sameId holds _live =>
      have claimed := lifecycle.claimed_of_token holds
      exact lifecycle.stillClaimed claimed claimed rfl rfl
        (lifecycle.lease.trans claimed).symm rfl rfl rfl lifecycle.planning
  | pinned _sameId holds _planning =>
      have claimed := lifecycle.claimed_of_token holds
      exact lifecycle.stillClaimed claimed rfl rfl rfl rfl rfl rfl rfl
        (fun impossible => by cases impossible)
  | entered _sameId holds _named wanted =>
      have claimed := lifecycle.claimed_of_token holds
      obtain ⟨working, notPlanning⟩ := phase_working wanted
      exact lifecycle.stillClaimed claimed (JobState.claimed_of_working working) rfl rfl rfl rfl
        rfl rfl (fun isPlanning => absurd isPlanning notPlanning)
  | tallied _sameId holds _named =>
      have claimed := lifecycle.claimed_of_token holds
      exact lifecycle.stillClaimed claimed claimed rfl rfl rfl rfl rfl rfl lifecycle.planning
  | @finished _ _ state _ _ _ _ _sameId _holds =>
      exact lifecycle.unclaimed rfl rfl rfl (by cases state <;> rfl) (by cases state <;> rfl) rfl
        rfl
  | @failed _ _ failure _ _ _sameId _holds =>
      cases retried : failure.retryable <;>
        exact lifecycle.unclaimed rfl rfl rfl (by simp [JobRow.failOrRetry]; rfl)
          (by simp [JobRow.failOrRetry]; rfl) rfl rfl
  | givenBack _sameId _holds working => exact lifecycle.release _ working
  | released _owned working => exact lifecycle.release _ working
  | @cancelWritten _ target _ _ sameId =>
      cases target with
      | cancelled =>
          have idle : old.state.claimed = false := by
            rcases Store.waiting_of_cancelTarget (upToDate sameId) with queued | waiting
            · rw [queued]; rfl
            · rw [waiting]; rfl
          obtain ⟨token, worker, lease⟩ := lifecycle.idle_columns idle
          exact lifecycle.unclaimed token worker lease rfl rfl rfl rfl
      | cancelRequested =>
          exact lifecycle.stillClaimed
            (Store.claimed_of_cancelTarget (upToDate sameId)) rfl rfl rfl rfl
            rfl rfl rfl (fun impossible => by cases impossible)
  | retryWritten sameId =>
      have isFailed : old.state = .failed := upToDate sameId
      have idle : old.state.claimed = false := by
        rw [isFailed]
        rfl
      obtain ⟨token, worker, lease⟩ := lifecycle.idle_columns idle
      exact lifecycle.unclaimed token worker lease rfl rfl rfl rfl

end JobRow.Lifecycle

theorem lifecycle_of_found {store : Store} (reached : sequential.Reachable store) {job : String}
    {row : JobRow} (found : store.jobs.find? job = some row) : row.Lifecycle :=
  sequential_row_invariant JobRow.Lifecycle JobRow.Lifecycle.fresh
    (fun _ _ _ changed upToDate lifecycle => lifecycle.step changed upToDate) reached found

/-- In every store that completed operations lead to, the claim columns are
set exactly in the claimed states, the completion time exactly in the terminal
ones, the start time exactly after a run, and a planning job has no snapshot. -/
theorem row_columns_follow_state {store : Store} (reached : sequential.Reachable store)
    {job : String} {row : JobRow} (found : store.jobs.find? job = some row) :
    (row.state ∈ [.planning, .copying, .publishing, .verifying, .cancelRequested] →
      row.claimToken ≠ none ∧ row.workerId ≠ none ∧ row.leaseExpiresAt ≠ none) ∧
    (row.state ∉ [.planning, .copying, .publishing, .verifying, .cancelRequested] →
      row.claimToken = none ∧ row.workerId = none ∧ row.leaseExpiresAt = none) ∧
    (row.completedAt ≠ none ↔ row.state ∈ [.completed, .failed, .cancelled]) ∧
    (row.startedAt ≠ none ↔ 0 < row.runCount) ∧
    (row.state = .planning → row.snapshotJson = none) := by
  have lifecycle := lifecycle_of_found reached found
  have claimedIff : row.state ∈ [JobState.planning, .copying, .publishing, .verifying,
      .cancelRequested] ↔ row.state.claimed = true := by
    cases row.state <;> decide
  have terminalIff : row.state ∈ [JobState.completed, .failed, .cancelled] ↔
      row.state.terminal = true := by
    cases row.state <;> decide
  refine ⟨?_, ?_, ?_, ?_, lifecycle.planning⟩
  · intro member
    have claimed := claimedIff.mp member
    exact ⟨Option.isSome_iff_ne_none.mp (lifecycle.token.trans claimed),
      Option.isSome_iff_ne_none.mp (lifecycle.worker.trans claimed),
      Option.isSome_iff_ne_none.mp (lifecycle.lease.trans claimed)⟩
  · intro absent
    exact lifecycle.idle_columns (Bool.eq_false_iff.mpr fun claimed =>
      absent (claimedIff.mpr claimed))
  · rw [← Option.isSome_iff_ne_none, lifecycle.completed, terminalIff]
  · rw [← Option.isSome_iff_ne_none, lifecycle.started, decide_eq_true_iff]

theorem row_columns_follow_state_after_claim :
    ∃ store row, sequential.Reachable store ∧ store.jobs.find? "job" = some row ∧
      (row.startedAt ≠ none ↔ 0 < row.runCount) ∧
      (row.state = .planning → row.snapshotJson = none) := by
  have run : ((sequential.execute Machine.Always
      [.run (.enqueue sampleValues "job" 0), .run (.claim "worker" 60 1 "token")]
      Store.empty).any fun store => (store.jobs.find? "job").isSome) = true := by decide
  obtain ⟨store, reached, stored⟩ := sequential.exists_reachable_of_execute rfl run
  obtain ⟨row, found⟩ := Option.isSome_iff_exists.mp stored
  obtain ⟨-, -, -, started, planning⟩ := row_columns_follow_state reached found
  exact ⟨store, row, reached, found, started, planning⟩

/-! ### Interleaved runs -/

/-- The columns that `claim` compares are set in the states it compares them in. -/
structure JobRow.Visible (row : JobRow) : Prop where
  held : row.claimToken.isSome = true → row.leaseExpiresAt.isSome = true
  working : row.state.working = true → row.leaseExpiresAt.isSome = true
  worker : row.workerId.isSome = true → row.leaseExpiresAt.isSome = true
  waiting : row.state = .retryWait → row.nextRetryAt.isSome = true

namespace JobRow.Visible

theorem leased {row : JobRow} (lease : row.leaseExpiresAt.isSome = true)
    (running : row.state ≠ .retryWait) : row.Visible where
  held := fun _ => lease
  working := fun _ => lease
  worker := fun _ => lease
  waiting := fun waiting => absurd waiting running

theorem idle {row : JobRow} (token : row.claimToken = none) (worker : row.workerId = none)
    (state : row.state.working = false)
    (waiting : row.state = .retryWait → row.nextRetryAt.isSome = true) : row.Visible where
  held := fun held => by rw [token] at held; cases held
  working := fun working => by rw [state] at working; cases working
  worker := fun held => by rw [worker] at held; cases held
  waiting := waiting

theorem fresh (values : EnqueueValues) (job : String) (current : Instant) :
    (JobRow.fresh values job current).Visible :=
  idle rfl rfl rfl (fun impossible => by cases impossible)

theorem release (row : JobRow) (current : Instant) : (row.release current).Visible :=
  idle rfl rfl (by cases stored : row.snapshotJson <;> simp [JobRow.release, stored,
    JobState.working]) (fun _ => rfl)

theorem step {transaction : Transaction} {old row : JobRow} (changed : RowStep transaction old row)
    (visible : old.Visible) : row.Visible := by
  cases changed with
  | swept _due => exact idle rfl rfl rfl (fun impossible => by cases impossible)
  | taken _eligible =>
      refine leased rfl ?_
      cases stored : old.snapshotJson <;> simp [JobRow.take, stored]
  | beat _sameId _holds _live =>
      exact ⟨fun _ => rfl, fun _ => rfl, fun _ => rfl, visible.waiting⟩
  | pinned _sameId holds _planning =>
      exact leased (visible.held (by rw [holds]; rfl)) (fun impossible => by cases impossible)
  | entered _sameId holds _named wanted =>
      refine leased (visible.held (by rw [holds]; rfl)) fun waiting => ?_
      have working := (phase_working wanted).1
      cases waiting
      cases working
  | tallied _sameId _holds _named =>
      exact ⟨visible.held, visible.working, visible.worker, visible.waiting⟩
  | @finished _ _ state _ _ _ _ _sameId _holds =>
      exact idle rfl rfl (by cases state <;> rfl)
        (fun impossible => by cases state <;> cases impossible)
  | @failed _ _ failure _ _ _sameId _holds =>
      cases retried : failure.retryable <;>
        exact idle rfl rfl (by simp [JobRow.failOrRetry, JobState.working])
          (by simp [JobRow.failOrRetry])
  | givenBack _sameId _holds _working => exact release _ _
  | released _owned _working => exact release _ _
  | @cancelWritten _ target _ _ _sameId =>
      exact ⟨visible.held, (fun working => by cases target <;> cases working), visible.worker,
        fun waiting => by cases target <;> cases waiting⟩
  | retryWritten _sameId =>
      exact ⟨visible.held, (fun working => by cases working), visible.worker,
        fun waiting => by cases waiting⟩

end JobRow.Visible

/-- The instant after which `claim` reacts to the row, if a column supplies one. -/
def JobRow.wakesAt (row : JobRow) : Option Instant :=
  if row.state = .queued then some row.createdAt
  else if row.state = .retryWait then row.nextRetryAt
  else if row.state = .cancelRequested ∧ row.workerId = none then some row.updatedAt
  else row.leaseExpiresAt

namespace JobRow.Visible

private theorem exists_wakesAt {row : JobRow} (visible : row.Visible)
    (live : row.state.terminal = false) :
    ∃ wake, row.wakesAt = some wake := by
  rw [← Option.isSome_iff_exists]
  unfold wakesAt
  split
  · rfl
  · split
    · rename_i waiting
      exact visible.waiting waiting
    · split
      · rfl
      · rename_i notQueued notWaiting notAbandoned
        cases stateEq : row.state with
        | cancelRequested =>
            have workerSet : row.workerId ≠ none := fun absent => notAbandoned ⟨stateEq, absent⟩
            exact visible.worker (Option.isSome_iff_ne_none.mpr workerSet)
        | queued => exact absurd stateEq notQueued
        | retryWait => exact absurd stateEq notWaiting
        | completed | failed | cancelled => rw [stateEq] at live; cases live
        | planning | copying | publishing | verifying =>
            exact visible.working (by rw [stateEq]; rfl)

private theorem reacts {row : JobRow} (live : row.state.terminal = false) {wake current : Instant}
    (wakes : row.wakesAt = some wake) (later : wake < current) :
    row.sweepDue current = true ∨ row.eligible current = true := by
  rw [sweepDue_iff, eligible_iff]
  unfold wakesAt at wakes
  split at wakes
  · rename_i queued
    exact Or.inr (Or.inl queued)
  · split at wakes
    · rename_i waiting
      exact Or.inr (Or.inr (Or.inl ⟨waiting, wake, wakes, le_of_lt later⟩))
    · split at wakes
      · rename_i abandoned
        exact Or.inl ⟨abandoned.1, Or.inl abandoned.2⟩
      · rename_i notQueued notWaiting _notAbandoned
        have expired : row.leaseBefore current = true := by
          simp only [leaseBefore, wakes, Option.any_some, decide_eq_true_eq]
          exact later
        cases stateEq : row.state with
        | cancelRequested => exact Or.inl ⟨rfl, Or.inr expired⟩
        | queued => exact absurd stateEq notQueued
        | retryWait => exact absurd stateEq notWaiting
        | completed | failed | cancelled => rw [stateEq] at live; cases live
        | planning | copying | publishing | verifying =>
            exact Or.inr (Or.inr (Or.inr ⟨rfl, expired⟩))

end JobRow.Visible

private theorem Store.claim_none_iff (store : Store) (worker token : String) (leaseSeconds : Int)
    (current : Instant) :
    (store.claim worker leaseSeconds current token).2 = none ↔
      (store.sweep current).eligibleRows current = [] := by
  unfold Store.claim
  cases rows : (store.sweep current).eligibleRows current with
  | nil => simp [rows]
  | cons first rest => simp [rows]

/-- In every store of an interleaved run, a job that is not terminal has in its
own row an instant after which `claim`, run on any store that still holds that
row, sweeps it to cancelled or selects from a set that contains it. -/
theorem job_never_stranded {system : System} (reached : interleaved.Reachable system) :
    (∀ job row, system.store.jobs.find? job = some row → row.state.terminal = false →
      ∃ wake, row.wakesAt = some wake ∧
        ∀ later : Store, later.jobs.find? job = some row → ∀ current, wake < current →
          (later.sweep current).jobs.find? job = some (row.sweep current) ∨
          row ∈ (later.sweep current).eligibleRows current) ∧
    (∀ worker leaseSeconds current token,
      (system.store.claim worker leaseSeconds current token).2 = none ↔
        (system.store.sweep current).eligibleRows current = []) := by
  refine ⟨?_, fun worker leaseSeconds current token =>
    system.store.claim_none_iff worker token leaseSeconds current⟩
  intro job row found live
  have visible : row.Visible :=
    System.row_invariant JobRow.Visible JobRow.Visible.fresh
      (fun _ _ _ changed visible => visible.step changed) reached found
  obtain ⟨wake, wakes⟩ := visible.exists_wakesAt live
  refine ⟨wake, wakes, fun later present current after => ?_⟩
  have sweptRow : (later.sweep current).jobs.find? job =
      some (if row.sweepDue current then row.sweep current else row) := by
    unfold Store.sweep
    rw [Store.find?_updateJobs, present]
    rfl
  by_cases due : row.sweepDue current = true
  · rw [if_pos due] at sweptRow
    exact Or.inl sweptRow
  · rw [if_neg due] at sweptRow
    have eligible := (JobRow.Visible.reacts live wakes after).resolve_left due
    exact Or.inr (Store.mem_eligibleRows.mpr
      ⟨(later.sweep current).jobs.find?_mem sweptRow, eligible⟩)

theorem job_never_stranded_when_planning :
    ∃ system row, interleaved.Reachable system ∧ system.store.jobs.find? "job" = some row ∧
      row.state = .planning ∧ ∃ wake, row.wakesAt = some wake ∧
        ∀ current, wake < current → row ∈ (system.store.sweep current).eligibleRows current := by
  have run : ((interleaved.execute Machine.Always
      [.commit (.enqueue sampleValues "job" 0), .commit (.claim "worker" 60 1 "token")]
      System.initial).any fun system =>
        (system.store.jobs.find? "job").any fun row => row.state = .planning) = true := by decide
  obtain ⟨system, reached, stored⟩ := interleaved.exists_reachable_of_execute rfl run
  obtain ⟨row, found, planning⟩ := (Option.any_eq_true _ _).mp stored
  have isPlanning : row.state = .planning := of_decide_eq_true planning
  obtain ⟨wake, wakes, reacts⟩ := (job_never_stranded reached).1 "job" row found
    (by rw [isPlanning]; rfl)
  refine ⟨system, row, reached, found, isPlanning, wake, wakes, fun current later => ?_⟩
  rcases reacts system.store found current later with swept | eligible
  · have sweptFound : (system.store.sweep current).jobs.find? "job" = some row := by
      unfold Store.sweep
      rw [Store.find?_updateJobs, found, Option.map_some]
      have notDue : row.sweepDue current = false := by
        simp [JobRow.sweepDue, isPlanning]
      rw [notDue, if_neg Bool.false_ne_true]
    rw [sweptFound] at swept
    have sameState := congrArg (fun found => found.map fun row : JobRow => row.state) swept
    simp [JobRow.sweep, isPlanning] at sameState
  · exact eligible

end OciTransfer
