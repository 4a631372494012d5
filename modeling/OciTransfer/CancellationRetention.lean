import OciTransfer.WorkerExecution
import OciTransfer.RowLifecycle

/-!
What becomes of a requested cancellation.

The state `cancel_requested` is overwritten by three writes that do not look at
it: a phase event and a retryable failure under the token the row carries, and a
retry.  The same writes reopen a job that has become terminal since, also one whose
late cancel has left it the token.  Without them a job whose cancellation was once
requested is from then on requested, terminal or deleted.
-/

namespace OciTransfer

/-- The calls that put no row back to work or back in line. -/
def ClaimCall.keepsRequest : ClaimCall → Prop
  | .progress event => event.namedDigest = none → event.phase.bind PhaseName.state? = none
  | .failOrRetry failure => failure.retryable = false
  | .heartbeat _ | .saveSnapshot _ | .finish _ _ _ | .releaseClaim => True

def Transaction.KeepsRequest (row : JobRow) : Transaction → Prop
  | .retryWrite job _ => row.id ≠ job
  | .call job token request _ => row.holdsClaim job token = true → request.keepsRequest
  | _ => True

/-- The action puts the job neither back to work nor back in line. -/
def RequestKept (job : String) (system : System) : Action → Prop
  | .commit transaction => ∀ row, system.store.jobs.find? job = some row →
      transaction.KeepsRequest row
  | _ => True

def Deployment.RequestKept (config : ManagerConfig) (job : String) (deployment : Deployment)
    (label : Label) : Prop :=
  ∀ action workers, deployment.act config label = some (action, workers) →
    OciTransfer.RequestKept job deployment.system action

def System.requested (job : String) (system : System) : Prop :=
  ∃ row, system.store.jobs.find? job = some row ∧ row.state = .cancelRequested

def System.settled (job : String) (system : System) : Prop :=
  ∀ row, system.store.jobs.find? job = some row → row.state.terminal = true

/-- The cancellation of the job is requested, or has come to an end with the job. -/
def System.heeds (job : String) (system : System) : Prop :=
  system.requested job ∨ system.settled job

private theorem System.heeds_iff {system : System} {job : String} :
    system.heeds job ↔ ∀ row, system.store.jobs.find? job = some row →
      row.state = .cancelRequested ∨ row.state.terminal = true := by
  constructor
  · rintro (⟨row, found, requested⟩ | settled) other otherFound
    · rw [found] at otherFound
      cases otherFound
      exact Or.inl requested
    · exact Or.inr (settled other otherFound)
  · intro heeded
    cases found : system.store.jobs.find? job with
    | none =>
        right
        intro other otherFound
        rw [found] at otherFound
        cases otherFound
    | some row =>
        rcases heeded row found with requested | terminal
        · exact Or.inl ⟨row, found, requested⟩
        · right
          intro other otherFound
          rw [found] at otherFound
          cases otherFound
          exact terminal

private theorem heeded_of_rowStep {transaction : Transaction} {old row : JobRow}
    (changed : RowStep transaction old row)
    (heeded : old.state = .cancelRequested ∨ old.state.terminal = true)
    (keeps : transaction.KeepsRequest old) :
    row.state = .cancelRequested ∨ row.state.terminal = true := by
  have notWorking : old.state.working = false := by
    rcases heeded with requested | terminal
    · rw [requested]
      rfl
    · cases working : old.state.working with
      | false => rfl
      | true =>
          rw [JobState.not_terminal_of_claimed (JobState.claimed_of_working working)] at terminal
          cases terminal
  cases changed with
  | swept => exact Or.inr rfl
  | taken eligible =>
      obtain ⟨live, notRequested⟩ := JobRow.live_of_eligible eligible
      rcases heeded with requested | terminal
      · exact absurd requested notRequested
      · rw [live] at terminal
        cases terminal
  | beat => exact heeded
  | pinned _sameId _holds planning =>
      rw [planning] at notWorking
      cases notWorking
  | entered sameId holds named wanted =>
      rw [keeps (JobRow.holdsClaim_iff.mpr ⟨sameId, holds⟩) named] at wanted
      cases wanted
  | tallied => exact heeded
  | finished => exact Or.inr (TerminalState.terminal_toJobState _)
  | failed sameId holds =>
      have final := keeps (JobRow.holdsClaim_iff.mpr ⟨sameId, holds⟩)
      right
      simp only [JobRow.failOrRetry, show _ = false from final]
      rfl
  | givenBack _sameId _holds working =>
      rw [notWorking] at working
      cases working
  | released _owned working =>
      rw [notWorking] at working
      cases working
  | @cancelWritten _ target =>
      cases target with
      | cancelled => exact Or.inr rfl
      | cancelRequested => exact Or.inl rfl
  | retryWritten sameId => exact absurd sameId keeps

private theorem heeds_step {before after : System} {action : Action} {job : String}
    (drawn : job ∈ before.jobIds) (kept : RequestKept job before action)
    (moved : before.next action = some after) (heeded : before.heeds job) : after.heeds job := by
  rw [System.heeds_iff] at heeded ⊢
  intro row found
  rcases System.next_row moved found with
    ⟨old, present, rfl | ⟨transaction, rfl, changed⟩⟩ | ⟨-, undrawn, -⟩
  · exact heeded row present
  · exact heeded_of_rowStep changed (heeded old present) (kept old present)
  · exact absurd drawn undrawn

private theorem request_lost {before after : System} {action : Action} {job : String}
    (moved : before.next action = some after) (overwritten : ¬ RequestKept job before action) :
    ¬ after.heeds job := by
  rw [System.heeds_iff]
  intro heeded
  cases action with
  | cancelRead | retryRead | abandon | observe => exact overwritten trivial
  | commit transaction =>
      simp only [RequestKept, not_forall] at overwritten
      obtain ⟨row, found, violates⟩ := overwritten
      have stored := System.next_commit_store moved
      have sameKey : row.key = job := (before.store.jobs.find?_eq_some.mp found).2
      subst sameKey
      have reopened : ∀ afterRow,
          (transaction.commit before.store).jobs.find? row.key = some afterRow →
          afterRow.state ≠ .cancelRequested → afterRow.state.terminal = false → False := by
        intro afterRow afterFound notRequested live
        rw [← stored] at afterFound
        rcases heeded afterRow afterFound with requested | terminal
        · exact notRequested requested
        · rw [live] at terminal
          cases terminal
      cases transaction with
      | enqueue | claim | cancelWrite | dismiss | release | prune => exact violates trivial
      | retryWrite job current =>
          have rowId : row.id = job := not_not.mp violates
          subst rowId
          exact reopened _ (Transaction.find?_retryWrite found) (by simp [JobRow.retryWrite]) rfl
      | call job token request current =>
          simp only [Transaction.KeepsRequest, Classical.not_imp] at violates
          obtain ⟨holdsClaim, notKept⟩ := violates
          obtain ⟨rowId, holds⟩ := JobRow.holdsClaim_iff.mp holdsClaim
          subst rowId
          cases request with
          | heartbeat | saveSnapshot | finish | releaseClaim => exact notKept trivial
          | progress event =>
              simp only [ClaimCall.keepsRequest, Classical.not_imp] at notKept
              obtain ⟨named, wanted⟩ := notKept
              obtain ⟨phase, phaseEq⟩ := Option.ne_none_iff_exists'.mp wanted
              have working := (phase_working phaseEq).1
              refine reopened _ (Transaction.find?_enter found holds named phaseEq) ?_ ?_
              · intro impossible
                change phase = .cancelRequested at impossible
                rw [impossible] at working
                cases working
              · exact JobState.not_terminal_of_claimed (JobState.claimed_of_working working)
          | failOrRetry failure =>
              have retried : failure.retryable = true := by
                simpa only [ClaimCall.keepsRequest, Bool.not_eq_false] using notKept
              refine reopened _ (Transaction.find?_failOrRetry found holds) ?_ ?_
              · simp [JobRow.failOrRetry, retried]
              · simp [JobRow.failOrRetry, retried, JobState.terminal]

/-- Once its cancellation is requested, a job is requested, terminal or deleted in every
later state of a run none of whose steps puts it back to work or in line; and each step
that is not of this kind takes the job elsewhere. -/
theorem cancellation_kept_unless_overwritten (config : ManagerConfig) (job : String) :
    (∀ before, (deployed config).Reachable before → before.system.requested job →
      ∀ later, (deployed config).Run (Deployment.RequestKept config job) before later →
        later.system.requested job ∨ later.system.settled job) ∧
    (∀ before label after, (deployed config).next before label = some after →
      ¬ Deployment.RequestKept config job before label →
      ¬ (after.system.requested job ∨ after.system.settled job)) := by
  constructor
  · intro before reached requested later run
    have drawn : job ∈ before.system.jobIds := by
      obtain ⟨row, found, -⟩ := requested
      exact System.drawn_of_found (Deployment.reachable_system reached) found
    have kept := run.preserves
      (fun deployment => job ∈ deployment.system.jobIds ∧ deployment.system.heeds job) ?_
      ⟨drawn, Or.inl requested⟩
    · exact kept.2
    · intro state label next admitted moved inside
      obtain ⟨action, acted, stepped⟩ := Deployment.next_eq_some.mp moved
      exact ⟨(System.next_drawn stepped).2 inside.1,
        heeds_step inside.1 (admitted action next.workers acted) stepped inside.2⟩
  · intro before label after moved overwritten
    obtain ⟨action, acted, stepped⟩ := Deployment.next_eq_some.mp moved
    refine request_lost stepped fun kept => overwritten fun other workers otherActed => ?_
    rw [acted] at otherActed
    cases otherActed
    exact kept

def System.stateIs (state : JobState) (system : System) : Bool :=
  (system.store.jobs.find? "job").any fun row => row.state = state

private theorem System.requested_of_stateIs {system : System}
    (is : system.stateIs .cancelRequested = true) : system.requested "job" := by
  obtain ⟨row, found, same⟩ := (Option.any_eq_true _ _).mp is
  exact ⟨row, found, of_decide_eq_true same⟩

/-- A streaming worker has passed its check for a phase event; then the client cancels. -/
def cancelledAfterCheck : List Label :=
  untilStreaming ++ [.work 0 (replied (.event (phaseEvent .publishing)) 3),
    .work 0 (replied .done 3), .environment (.cancelRead "job"),
    .environment (.commit (.cancelWrite "job" .cancelRequested 4))]

/-- Another manager's claim sweeps the job, and a phase event under no token changes nothing. -/
def sweptAfterwards : List Label :=
  [.environment (.commit (.claim "other" 60 100000000 "next")),
    .environment (.commit (.call "job" "next" (.progress (phaseEvent .publishing)) 100000001))]

theorem cancellation_kept_when_swept :
    ∃ before later, (deployed sampleConfig).Reachable before ∧ before.system.requested "job" ∧
      (deployed sampleConfig).Run (Deployment.RequestKept sampleConfig "job") before later ∧
      later.system.stateIs .cancelled = true ∧
      (later.system.requested "job" ∨ later.system.settled "job") := by
  have run : (((deployed sampleConfig).execute Machine.Always cancelledAfterCheck
      Deployment.initial).any fun before => before.system.stateIs .cancelRequested &&
        (((deployed sampleConfig).execute
          (fun state label => label ∈ sweptAfterwards ∧
            (state.system.store.jobs.find? "job").all (fun row => row.claimToken ≠ some "next"))
          sweptAfterwards before).any fun later => later.system.stateIs .cancelled)) = true := by
    decide +kernel
  obtain ⟨before, reached, both⟩ := (deployed sampleConfig).exists_reachable_of_execute rfl run
  obtain ⟨isRequested, swept⟩ := (Bool.and_eq_true _ _).mp both
  obtain ⟨later, ran, isCancelled⟩ := (deployed sampleConfig).exists_run_of_execute _ swept
  have admitted := ran.weaken (Deployment.RequestKept sampleConfig "job") (by
    rintro state label ⟨listed, tokenless⟩ action workers acted
    rcases List.mem_cons.mp listed with rfl | second
    · cases acted
      exact fun _ _ => trivial
    · cases List.mem_singleton.mp second
      cases acted
      intro row found holds
      rw [found, Option.all_some, decide_eq_true_iff] at tokenless
      exact absurd (JobRow.holdsClaim_iff.mp holds).2 tokenless)
  have requested := System.requested_of_stateIs isRequested
  exact ⟨before, later, reached, requested, admitted, isCancelled,
    (cancellation_kept_unless_overwritten sampleConfig "job").1 before reached requested later
      admitted⟩

/-- The worker's write for the event it has checked takes the job back to publishing. -/
theorem phase_write_loses_cancellation :
    ¬ ∀ before label after, (deployed sampleConfig).Reachable before →
      (deployed sampleConfig).next before label = some after →
      before.system.requested "job" → after.system.requested "job" ∨
        after.system.settled "job" := by
  intro claimed
  have run : (((deployed sampleConfig).execute Machine.Always cancelledAfterCheck
      Deployment.initial).any fun before => before.system.stateIs .cancelRequested &&
        (((deployed sampleConfig).next before (.work 0 (replied .done 5))).any
          fun after => after.system.stateIs .publishing)) = true := by decide +kernel
  obtain ⟨before, reached, both⟩ := (deployed sampleConfig).exists_reachable_of_execute rfl run
  obtain ⟨isRequested, moves⟩ := (Bool.and_eq_true _ _).mp both
  obtain ⟨after, moved, isPublishing⟩ := (Option.any_eq_true _ _).mp moves
  obtain ⟨row, found, publishing⟩ := (Option.any_eq_true _ _).mp isPublishing
  have state : row.state = .publishing := of_decide_eq_true publishing
  rcases claimed before _ after reached moved (System.requested_of_stateIs isRequested) with
    ⟨other, otherFound, stillRequested⟩ | settled
  · rw [found] at otherFound
    cases otherFound
    rw [state] at stillRequested
    cases stillRequested
  · have terminal := settled row found
    rw [state] at terminal
    cases terminal

end OciTransfer
