import OciTransfer.ExecutionSteps
import OciTransfer.RowLifecycle
import OciTransfer.ServiceErrors

/-!
`CopyManager.close()` and the jobs its workers are executing.

`close()` asks the service to cancel one operation after the other, then
cancels all worker tasks at once, waits for them, and releases whatever is
still claimed under the manager's identity.  A cancelled task no longer awaits
the store call it has started, but the thread that runs the call goes on: such
a call is an orphan, and may commit at any later time.
-/

namespace OciTransfer

/-! ### Closing -/

/-- A store call whose thread outlives the task that awaited it. -/
structure OrphanCall where
  job : String
  token : String
  request : ClaimCall
  deriving DecidableEq, Repr

/-- The call of the store that an execution awaits. -/
def Point.call? : Point → Option ClaimCall
  | .saveSnapshot _ planned => some (.saveSnapshot planned)
  | .progress _ _ event => some (.progress event)
  | .verifying => some (.progress verifyingEvent)
  | .finish state => some (.finish state none none)
  | .failOrRetry _ failure => some (.failOrRetry failure)
  | .releasing => some .releaseClaim
  | _ => none

def Execution.orphan (execution : Execution) : Option OrphanCall :=
  execution.point.call?.map fun request =>
    { job := execution.job
      token := execution.token
      request := request }

inductive CloseStage where
  | cancelling
  | gathering
  | closed
  deriving DecidableEq, Repr

/-- A manager from the call of `close()` on; the first of the operations is
being cancelled at the service. -/
structure Shutdown where
  deployment : Deployment
  operations : List String
  orphans : List OrphanCall
  stage : CloseStage

inductive CloseLabel where
  | run (label : Label)
  | answered
  | orphan (index : Nat) (current : Instant)
  | released (current : Instant)
  deriving DecidableEq, Repr

namespace Shutdown

def system (shutdown : Shutdown) : System := shutdown.deployment.system

def withSystem (shutdown : Shutdown) (system : System) : Shutdown :=
  { shutdown with deployment := { shutdown.deployment with system := system } }

/-- Tasks are cancelled by `close()` alone, and no task claims after that.  An idle worker
may leave the thread of its own `store.claim` behind, which claims a job that no task then
executes: such a claim is a step of the environment. -/
def admits (shutdown : Shutdown) : Label → Bool
  | .cancelTask _ => false
  | .claim _ _ _ _ => shutdown.stage = .cancelling
  | _ => true

def cancelTasks (shutdown : Shutdown) : Shutdown :=
  { shutdown with
    deployment :=
      { shutdown.deployment with
        workers := shutdown.deployment.workers.map fun execution =>
          { execution with point := Execution.cancelledAt execution.point } }
    orphans := shutdown.deployment.workers.filterMap Execution.orphan
    stage := .gathering }

/-- The loop over the operations awaits each answer; after the last one the
tasks are cancelled without another await. -/
def next (config : ManagerConfig) (workerId : String) (shutdown : Shutdown) :
    CloseLabel → Option Shutdown
  | .run label =>
      if shutdown.admits label then
        (shutdown.deployment.next config label).map fun deployment =>
          { shutdown with deployment := deployment }
      else none
  | .answered =>
      if shutdown.stage = .cancelling then
        match shutdown.operations with
        | _ :: following :: rest => some { shutdown with operations := following :: rest }
        | _ => some shutdown.cancelTasks
      else none
  | .orphan index current =>
      shutdown.orphans[index]?.bind fun call =>
        (shutdown.system.next (.commit (.call call.job call.token call.request current))).map
          fun system =>
            { shutdown.withSystem system with orphans := shutdown.orphans.eraseIdx index }
  | .released current =>
      if shutdown.stage = .gathering ∧
          shutdown.deployment.workers.all (fun execution => execution.point = .ended) then
        (shutdown.system.next (.commit (.release workerId current))).map fun system =>
          { shutdown.withSystem system with stage := .closed }
      else none

end Shutdown

/-- `close()` may be called in every state that the deployment can be in. -/
def closing (config : ManagerConfig) (workerId : String) : Machine Shutdown CloseLabel :=
  { start := fun shutdown => (deployed config).Reachable shutdown.deployment ∧
      shutdown.orphans = [] ∧ shutdown.stage = .cancelling
    next := Shutdown.next config workerId }

/-! ### The condition -/

/-- The execution has no completion behind it, and no final failure. -/
def Point.Unfinished : Point → Prop
  | .stream _ terminal | .progress _ terminal _ => terminal = false
  | .checkCancelled _ terminal event => terminal = false ∧ event.kind ≠ .completed
  | .cancelOperation _ | .verifying | .finish _ => False
  | .failOrRetry _ failure => failure.retryable = true
  | _ => True

/-- No completion is delivered, and a failure is recorded only to be retried. -/
def Execution.EndsNothing (config : ManagerConfig) (store : Store) (reading : Reading)
    (execution : Execution) : Prop :=
  match execution.point with
  | .stream _ _ => ∀ event, reading.reply = .event event → event.kind ≠ .completed
  | .recordFailure _ error => ∀ details, store.jobs.find? execution.job = some details →
      config.Retries details error reading.current
  | _ => True

/-- The action leaves the state, the claim and the worker of the job as they are. -/
def System.LeavesAlone (system : System) (job : String) (action : Action) : Prop :=
  ∀ after, system.next action = some after → ∀ row, system.store.jobs.find? job = some row →
    ∃ afterRow, after.store.jobs.find? job = some afterRow ∧ afterRow.state = row.state ∧
      afterRow.claimToken = row.claimToken ∧ afterRow.workerId = row.workerId

def Shutdown.Undisturbed (config : ManagerConfig) (job token : String) (shutdown : Shutdown) :
    CloseLabel → Prop
  | .run (.environment action) => shutdown.system.LeavesAlone job action
  | .run (.claim worker leaseSeconds current drawn) =>
      shutdown.system.LeavesAlone job (.commit (.claim worker leaseSeconds current drawn))
  | .run (.work index reading) => ∀ execution,
      shutdown.deployment.workers[index]? = some execution →
      execution.job = job → execution.token = token →
      execution.EndsNothing config shutdown.system.store reading
  | _ => True

/-! ### The row of an executed job -/

structure JobRow.Running (row : JobRow) (token workerId : String) : Prop where
  working : row.state.working = true
  token : row.claimToken = some token
  owned : row.ownedBy workerId = true

def JobRow.Resumable (row : JobRow) : Prop :=
  (row.state = .queued ∨ row.state = .retryWait) ∧ row.claimToken = none

/-- The call does not take the job out of the manager's hands for good. -/
def ClaimCall.LeavesResumable : ClaimCall → Prop
  | .finish _ _ _ => False
  | .failOrRetry failure => failure.retryable = true
  | .heartbeat _ | .saveSnapshot _ | .progress _ | .releaseClaim => True

private theorem sqlLike_append (start rest : List Char) :
    sqlLike (start ++ ['%']) (start ++ rest) = true := by
  induction start with
  | nil =>
      change sqlLike ['%'] rest = true
      unfold sqlLike
      exact List.any_eq_true.mpr ⟨[], (List.mem_tails _ _).mpr List.nil_suffix, rfl⟩
  | cons head tail ih =>
      by_cases percent : head = '%'
      · subst percent
        change sqlLike ('%' :: (tail ++ ['%'])) ('%' :: (tail ++ rest)) = true
        unfold sqlLike
        exact List.any_eq_true.mpr
          ⟨tail ++ rest, (List.mem_tails _ _).mpr (List.suffix_cons _ _), ih⟩
      · change sqlLike (head :: (tail ++ ['%'])) (head :: (tail ++ rest)) = true
        rw [sqlLike]
        · rw [ih, decide_eq_true rfl, Bool.or_true]
          rfl
        · exact percent

theorem ownedBy_of_worker {row : JobRow} {workerId index : String}
    (worker : row.workerId = some (workerId ++ "-" ++ index)) : row.ownedBy workerId = true := by
  have matched := sqlLike_append (workerId.toList ++ ['-']) index.toList
  simp only [JobRow.ownedBy, worker, Option.any_some, Bool.or_eq_true]
  right
  simpa [String.toList_append] using matched

namespace JobRow

theorem release_resumable (row : JobRow) (current : Instant) : (row.release current).Resumable := by
  refine ⟨?_, rfl⟩
  cases stored : row.snapshotJson <;> simp [release, stored]

theorem Running.call {old row : JobRow} {job token workerId : String} {request : ClaimCall}
    {current : Instant} (changed : RowStep (.call job token request current) old row)
    (running : old.Running token workerId) (leaves : request.LeavesResumable) :
    row.Running token workerId ∨ row.Resumable := by
  cases changed with
  | beat => exact Or.inl ⟨running.working, running.token, running.owned⟩
  | pinned => exact Or.inl ⟨rfl, running.token, running.owned⟩
  | entered _sameId _holds _named wanted =>
      exact Or.inl ⟨(phase_working wanted).1, running.token, running.owned⟩
  | tallied => exact Or.inl ⟨running.working, running.token, running.owned⟩
  | finished => exact absurd leaves id
  | failed =>
      have retryable : _ = true := leaves
      exact Or.inr ⟨by simp [failOrRetry, retryable], rfl⟩
  | givenBack => exact Or.inr (release_resumable old current)

private theorem claims_of_call {old row : JobRow} {job token : String} {request : ClaimCall}
    {current : Instant} (changed : RowStep (.call job token request current) old row) :
    old.id = job ∧ old.claimToken = some token := by
  cases changed <;> exact ⟨by assumption, by assumption⟩

theorem Running.same {row after : JobRow} {token workerId : String}
    (running : row.Running token workerId) (state : after.state = row.state)
    (claim : after.claimToken = row.claimToken) (worker : after.workerId = row.workerId) :
    after.Running token workerId where
  working := by rw [state]; exact running.working
  token := claim.trans running.token
  owned := by
    unfold ownedBy
    rw [worker]
    exact running.owned

theorem Resumable.same {row after : JobRow} (resumable : row.Resumable)
    (state : after.state = row.state) (claim : after.claimToken = row.claimToken) :
    after.Resumable := by
  obtain ⟨waiting, token⟩ := resumable
  exact ⟨by rw [state]; exact waiting, claim.trans token⟩

end JobRow

/-! ### One action on that row -/

namespace System

variable {before after : System} {job token workerId : String} {row : JobRow}

private theorem call_running {callJob callToken : String} {request : ClaimCall} {current : Instant}
    (found : before.store.jobs.find? job = some row) (running : row.Running token workerId)
    (stepped : before.next (.commit (.call callJob callToken request current)) = some after)
    (leaves : callJob = job → callToken = token → request.LeavesResumable) :
    ∃ afterRow, after.store.jobs.find? job = some afterRow ∧
      (afterRow.Running token workerId ∨ afterRow.Resumable) := by
  rw [next_commit_store stepped]
  obtain ⟨changed, changedFound, rfl | step⟩ :=
    Transaction.call_found found callJob callToken request current
  · exact ⟨changed, changedFound, Or.inl running⟩
  · obtain ⟨sameId, holds⟩ := JobRow.claims_of_call step
    have sameJob : callJob = job := sameId.symm.trans (before.store.jobs.find?_key found)
    have sameToken : callToken = token := by
      rw [running.token] at holds
      exact (Option.some.inj holds).symm
    have allowed := leaves sameJob sameToken
    rw [sameToken] at step
    exact ⟨changed, changedFound, running.call step allowed⟩

private theorem call_resumable {callJob callToken : String} {request : ClaimCall}
    {current : Instant}
    (found : before.store.jobs.find? job = some row) (resumable : row.Resumable)
    (stepped : before.next (.commit (.call callJob callToken request current)) = some after) :
    ∃ afterRow, after.store.jobs.find? job = some afterRow ∧ afterRow.Resumable := by
  rw [next_commit_store stepped]
  obtain ⟨changed, changedFound, rfl | step⟩ :=
    Transaction.call_found found callJob callToken request current
  · exact ⟨changed, changedFound, resumable⟩
  · have holds := (JobRow.claims_of_call step).2
    rw [resumable.2] at holds
    cases holds

private theorem release_row {current : Instant} (found : before.store.jobs.find? job = some row)
    (stepped : before.next (.commit (.release workerId current)) = some after)
    (settled : (∃ token, row.Running token workerId) ∨ row.Resumable) :
    ∃ afterRow, after.store.jobs.find? job = some afterRow ∧ afterRow.Resumable := by
  rw [next_commit_store stepped]
  change ∃ afterRow, (before.store.release workerId current).jobs.find? job = some afterRow ∧ _
  unfold Store.release
  rw [Store.find?_updateJobs, found, Option.map_some]
  refine ⟨_, rfl, ?_⟩
  rcases settled with ⟨token, running⟩ | resumable
  · rw [running.owned, running.working, Bool.and_self, if_pos rfl]
    exact row.release_resumable current
  · have idle : row.state.working = false := by
      rcases resumable.1 with queued | waiting
      · rw [queued]; rfl
      · rw [waiting]; rfl
    rw [idle, Bool.and_false, if_neg Bool.false_ne_true]
    exact resumable

end System

/-! ### One step of an execution -/

namespace Execution

variable {config : ManagerConfig} {store : Store} {execution : Execution} {reading : Reading}
  {action : Action} {point : Point}

private theorem step_action (stepped : execution.step config store reading = some (action, point)) :
    action = match execution.point.call? with
      | some request => .commit (.call execution.job execution.token request reading.current)
      | none => .observe := by
  have advance := advance_of_step stepped
  generalize execution.point = here at advance ⊢
  cases advance <;> rfl

/-- While the job is running, an unfinished execution that is told of no end
stays unfinished. -/
theorem step_unfinished {row : JobRow} {workerId : String}
    (found : store.jobs.find? execution.job = some row)
    (running : row.Running execution.token workerId)
    (unfinished : execution.point.Unfinished)
    (endsNothing : execution.EndsNothing config store reading)
    (stepped : execution.step config store reading = some (action, point)) : point.Unfinished := by
  have notCancelled : store.cancellationRequested execution.job execution.token = false := by
    have notRequested : row.state ≠ .cancelRequested := by
      intro requested
      have working := running.working
      rw [requested] at working
      cases working
    simp only [Store.cancellationRequested, found, running.token, ne_eq, not_true_eq_false,
      decide_false, notRequested, Bool.or_self]
  have advance := advance_of_step stepped
  unfold EndsNothing at endsNothing
  generalize execution.point = here at advance unfinished endsNothing
  cases advance with
  | loaded | saved => rfl
  | received delivered => exact ⟨unfinished, endsNothing _ delivered⟩
  | cancelling requested | cancelledInstead requested =>
      rw [notCancelled] at requested
      cases requested
  | reporting | ignored => exact unfinished.1
  | completed isCompleted => exact absurd isCompleted unfinished.2
  | progressed => exact unfinished
  | @detailsRead _ _ details read =>
      exact ManagerConfig.recorded_retryable.mpr (endsNothing details (Store.details_ok.mp read))
  | detailsMissing missing =>
      have absent := Store.details_error.mp ⟨_, missing⟩
      rw [found] at absent
      cases absent
  | @failureRaised frame => cases frame <;> trivial
  | closed => cases unfinished
  | operationCancelled | verified => exact absurd unfinished id
  | _ => trivial

private theorem exceptionAt_unfinished {next : Point} (led : exceptionAt point = some next) :
    next.Unfinished := by
  unfold exceptionAt at led
  split at led <;> cases led <;> trivial

private theorem cancelledAt_unfinished (point : Point) : (cancelledAt point).Unfinished := by
  unfold cancelledAt
  split <;> trivial

private theorem leavesResumable_of_unfinished {request : ClaimCall} (unfinished : point.Unfinished)
    (calls : point.call? = some request) : request.LeavesResumable := by
  cases point <;> cases calls <;> first | exact trivial | exact unfinished

end Execution

/-! ### One step of a manager that is closing -/

namespace Shutdown

variable {config : ManagerConfig} {workerId job token : String} {before after : Shutdown}

/-- The job is still executed under the token, and nothing under way ends it. -/
structure Held (workerId job token : String) (shutdown : Shutdown) : Prop where
  running : ∃ row, shutdown.system.store.jobs.find? job = some row ∧ row.Running token workerId
  workers : ∀ execution ∈ shutdown.deployment.workers, execution.job = job →
    execution.token = token → execution.point.Unfinished
  orphans : ∀ call ∈ shutdown.orphans, call.job = job → call.token = token →
    call.request.LeavesResumable
  stillOpen : shutdown.stage ≠ .closed

def Resumed (job : String) (shutdown : Shutdown) : Prop :=
  ∃ row, shutdown.system.store.jobs.find? job = some row ∧ row.Resumable

private theorem next_run {label : Label}
    (moved : before.next config workerId (.run label) = some after) :
    (∀ index, label ≠ .cancelTask index) ∧
      ∃ action, before.deployment.act config label = some (action, after.deployment.workers) ∧
        before.system.next action = some after.system ∧ after.orphans = before.orphans ∧
        after.stage = before.stage := by
  simp only [next] at moved
  split at moved
  · rename_i admitted
    obtain ⟨deployment, stepped, rfl⟩ := Option.map_eq_some_iff.mp moved
    obtain ⟨action, acted, systemStepped⟩ := Deployment.next_eq_some.mp stepped
    refine ⟨fun index isCancel => ?_, action, acted, systemStepped, rfl, rfl⟩
    rw [isCancel] at admitted
    cases admitted
  · cases moved

private theorem next_answered (moved : before.next config workerId .answered = some after) :
    (∃ operations, after = { before with operations := operations }) ∨
      after = before.cancelTasks := by
  simp only [next] at moved
  split at moved
  · split at moved
    · cases moved
      exact Or.inl ⟨_, rfl⟩
    · cases moved
      exact Or.inr rfl
  · cases moved

private theorem next_orphan {index : Nat} {current : Instant}
    (moved : before.next config workerId (.orphan index current) = some after) :
    ∃ call ∈ before.orphans,
      before.system.next (.commit (.call call.job call.token call.request current)) =
        some after.system ∧
      after.deployment.workers = before.deployment.workers ∧
      (∀ other ∈ after.orphans, other ∈ before.orphans) ∧ after.stage = before.stage := by
  obtain ⟨call, found, later⟩ := Option.bind_eq_some_iff.mp moved
  obtain ⟨system, stepped, rfl⟩ := Option.map_eq_some_iff.mp later
  exact ⟨call, List.mem_of_getElem? found, stepped, rfl,
    fun other member => List.mem_of_mem_eraseIdx member, rfl⟩

private theorem next_released {current : Instant}
    (moved : before.next config workerId (.released current) = some after) :
    before.system.next (.commit (.release workerId current)) = some after.system ∧
      after.deployment.workers = before.deployment.workers ∧ after.orphans = before.orphans := by
  simp only [next] at moved
  split at moved
  · obtain ⟨system, stepped, rfl⟩ := Option.map_eq_some_iff.mp moved
    exact ⟨stepped, rfl, rfl⟩
  · cases moved

private theorem next_closed {label : CloseLabel}
    (moved : before.next config workerId label = some after)
    (stillOpen : before.stage ≠ .closed) (closed : after.stage = .closed) :
    ∃ current, before.system.next (.commit (.release workerId current)) = some after.system := by
  cases label with
  | run label =>
      obtain ⟨-, action, -, -, -, sameStage⟩ := next_run moved
      exact absurd (sameStage.symm.trans closed) stillOpen
  | answered =>
      rcases next_answered moved with ⟨operations, rfl⟩ | rfl
      · exact absurd closed stillOpen
      · cases closed
  | orphan index current =>
      obtain ⟨call, -, -, -, -, sameStage⟩ := next_orphan moved
      exact absurd (sameStage.symm.trans closed) stillOpen
  | released current => exact ⟨current, (next_released moved).1⟩

/-- A call under way: awaited by an execution, or started by one that was cancelled. -/
def UnderWay (shutdown : Shutdown) (call : OrphanCall) : Prop :=
  call ∈ shutdown.orphans ∨
    ∃ execution ∈ shutdown.deployment.workers, execution.orphan = some call

/-- What a label does to the queue: nothing, something that leaves the job
alone, a call that was under way, or the last release. -/
theorem next_effect {label : CloseLabel} (undisturbed : before.Undisturbed config job token label)
    (moved : before.next config workerId label = some after) :
    after.system = before.system ∨
    (∃ action, before.system.LeavesAlone job action ∧
      before.system.next action = some after.system) ∨
    (∃ call current, before.UnderWay call ∧
      before.system.next (.commit (.call call.job call.token call.request current)) =
        some after.system) ∨
    ∃ current, before.system.next (.commit (.release workerId current)) = some after.system := by
  have observed : before.system.next .observe = some after.system → after.system = before.system :=
    fun stepped => (Option.some.inj stepped).symm
  cases label with
  | run label =>
      obtain ⟨-, action, acted, stepped, -, -⟩ := next_run moved
      rcases Deployment.act_cases acted with ⟨rfl, -⟩ |
        ⟨worker, leaseSeconds, current, drawn, rfl, rfl, -⟩ |
        ⟨index, execution, point, atIndex, -, ⟨reading, rfl, executed⟩ | ⟨rfl, -⟩⟩
      · exact Or.inr (Or.inl ⟨action, undisturbed, stepped⟩)
      · exact Or.inr (Or.inl ⟨_, undisturbed, stepped⟩)
      · have actionEq := Execution.step_action executed
        cases calls : execution.point.call? with
        | none =>
            simp only [calls] at actionEq
            subst actionEq
            exact Or.inl (observed stepped)
        | some request =>
            simp only [calls] at actionEq
            subst actionEq
            refine Or.inr (Or.inr (Or.inl ⟨⟨execution.job, execution.token, request⟩,
              reading.current, Or.inr ⟨execution, List.mem_of_getElem? atIndex, ?_⟩, stepped⟩))
            unfold Execution.orphan
            rw [calls]
            rfl
      · exact Or.inl (observed stepped)
  | answered =>
      rcases next_answered moved with ⟨operations, rfl⟩ | rfl
      · exact Or.inl rfl
      · exact Or.inl rfl
  | orphan index current =>
      obtain ⟨call, member, stepped, -⟩ := next_orphan moved
      exact Or.inr (Or.inr (Or.inl ⟨call, current, Or.inl member, stepped⟩))
  | released current => exact Or.inr (Or.inr (Or.inr ⟨current, (next_released moved).1⟩))

private theorem resumed_step {label : CloseLabel}
    (undisturbed : before.Undisturbed config job token label)
    (moved : before.next config workerId label = some after) (resumed : before.Resumed job) :
    after.Resumed job := by
  obtain ⟨row, found, resumable⟩ := resumed
  rcases next_effect undisturbed moved with
    same | ⟨action, leaves, stepped⟩ | ⟨call, current, -, stepped⟩ | ⟨current, stepped⟩
  · exact ⟨row, by rw [same]; exact found, resumable⟩
  · obtain ⟨afterRow, afterFound, state, claim, -⟩ := leaves after.system stepped row found
    exact ⟨afterRow, afterFound, resumable.same state claim⟩
  · exact System.call_resumable found resumable stepped
  · exact System.release_row found stepped (Or.inr resumable)

private theorem Held.leavesResumable (held : before.Held workerId job token) {call : OrphanCall}
    (underWay : before.UnderWay call) (sameJob : call.job = job) (sameToken : call.token = token) :
    call.request.LeavesResumable := by
  rcases underWay with member | ⟨execution, member, isOrphan⟩
  · exact held.orphans call member sameJob sameToken
  · obtain ⟨request, calls, rfl⟩ := Option.map_eq_some_iff.mp isOrphan
    exact Execution.leavesResumable_of_unfinished (held.workers execution member sameJob sameToken)
      calls

private theorem Held.row_step {label : CloseLabel} (held : before.Held workerId job token)
    (undisturbed : before.Undisturbed config job token label)
    (moved : before.next config workerId label = some after) :
    ∃ afterRow, after.system.store.jobs.find? job = some afterRow ∧
      (afterRow.Running token workerId ∨ afterRow.Resumable) := by
  obtain ⟨row, found, running⟩ := held.running
  rcases next_effect undisturbed moved with
    same | ⟨action, leaves, stepped⟩ | ⟨call, current, underWay, stepped⟩ | ⟨current, stepped⟩
  · exact ⟨row, by rw [same]; exact found, Or.inl running⟩
  · obtain ⟨afterRow, afterFound, state, claim, worker⟩ := leaves after.system stepped row found
    exact ⟨afterRow, afterFound, Or.inl (running.same state claim worker)⟩
  · exact System.call_running found running stepped (held.leavesResumable underWay)
  · obtain ⟨afterRow, afterFound, resumable⟩ :=
      System.release_row found stepped (Or.inl ⟨token, running⟩)
    exact ⟨afterRow, afterFound, Or.inr resumable⟩

private theorem Held.workers_step {label : CloseLabel} (held : before.Held workerId job token)
    (undisturbed : before.Undisturbed config job token label)
    (moved : before.next config workerId label = some after) :
    ∀ execution ∈ after.deployment.workers, execution.job = job → execution.token = token →
      execution.point.Unfinished := by
  cases label with
  | run label =>
      obtain ⟨notCancelled, action, acted, -, -, -⟩ := next_run moved
      rcases Deployment.act_cases acted with ⟨-, sameWorkers⟩ |
        ⟨worker, leaseSeconds, current, drawn, -, -, sameWorkers | ⟨claimed, withNew⟩⟩ |
        ⟨index, old, point, atIndex, placed, how⟩
      · rw [sameWorkers]
        exact held.workers
      · rw [sameWorkers]
        exact held.workers
      · rw [withNew]
        intro execution member sameJob sameToken
        rcases List.mem_append.mp member with there | isNew
        · exact held.workers execution there sameJob sameToken
        · rw [List.mem_singleton.mp isNew]
          trivial
      · rw [placed]
        intro execution member sameJob sameToken
        rcases Deployment.mem_place atIndex member with there | ⟨rfl, oldMember⟩
        · exact held.workers execution there sameJob sameToken
        · rcases how with ⟨reading, rfl, executed⟩ | ⟨-, ⟨-, led⟩ | ⟨error, rfl⟩ | ⟨isCancel, -⟩⟩
          · obtain ⟨row, found, running⟩ := held.running
            have oldFound : before.system.store.jobs.find? old.job = some row := by
              rw [show old.job = job from sameJob]
              exact found
            have oldRunning : row.Running old.token workerId := by
              rw [show old.token = token from sameToken]
              exact running
            exact Execution.step_unfinished oldFound oldRunning
              (held.workers old oldMember sameJob sameToken)
              (undisturbed old atIndex sameJob sameToken) executed
          · exact Execution.exceptionAt_unfinished led
          · trivial
          · exact absurd isCancel (notCancelled index)
  | answered =>
      rcases next_answered moved with ⟨operations, rfl⟩ | rfl
      · exact held.workers
      · intro execution member _sameJob _sameToken
        obtain ⟨old, -, rfl⟩ := List.mem_map.mp member
        exact Execution.cancelledAt_unfinished old.point
  | orphan index current =>
      obtain ⟨call, -, -, sameWorkers, -, -⟩ := next_orphan moved
      rw [sameWorkers]
      exact held.workers
  | released current =>
      rw [(next_released moved).2.1]
      exact held.workers

private theorem Held.orphans_step {label : CloseLabel} (held : before.Held workerId job token)
    (moved : before.next config workerId label = some after) :
    ∀ call ∈ after.orphans, call.job = job → call.token = token →
      call.request.LeavesResumable := by
  cases label with
  | run label =>
      obtain ⟨-, action, -, -, sameOrphans, -⟩ := next_run moved
      rw [sameOrphans]
      exact held.orphans
  | answered =>
      rcases next_answered moved with ⟨operations, rfl⟩ | rfl
      · exact held.orphans
      · intro call member
        obtain ⟨execution, executionMember, isOrphan⟩ := List.mem_filterMap.mp member
        exact held.leavesResumable (Or.inr ⟨execution, executionMember, isOrphan⟩)
  | orphan index current =>
      obtain ⟨call, -, -, -, fewer, -⟩ := next_orphan moved
      exact fun other member => held.orphans other (fewer other member)
  | released current =>
      rw [(next_released moved).2.2]
      exact held.orphans

private theorem held_step {label : CloseLabel}
    (undisturbed : before.Undisturbed config job token label)
    (moved : before.next config workerId label = some after)
    (held : before.Held workerId job token) :
    after.Held workerId job token ∨ after.Resumed job := by
  obtain ⟨afterRow, afterFound, running | resumable⟩ := held.row_step undisturbed moved
  · by_cases closed : after.stage = .closed
    · obtain ⟨current, released⟩ := next_closed moved held.stillOpen closed
      obtain ⟨row, found, wasRunning⟩ := held.running
      exact Or.inr (System.release_row found released (Or.inl ⟨token, wasRunning⟩))
    · exact Or.inl
        { running := ⟨afterRow, afterFound, running⟩
          workers := held.workers_step undisturbed moved
          orphans := held.orphans_step moved
          stillOpen := closed }
  · exact Or.inr ⟨afterRow, afterFound, resumable⟩

end Shutdown

private theorem cancelled_failure_is_final (config : ManagerConfig) (details : JobRow)
    (message : String)
    (current : Instant) (draw : Nat) :
    (config.failure details (classify .canceled message).failure current draw).retryable =
      false := by
  refine Bool.eq_false_iff.mpr fun retried => ?_
  have retryable := (ManagerConfig.recorded_retryable.mp retried).retryable
  cases retryable

/-- A job that a worker of the manager executes when `close()` is called is
queued or waiting for its retry, under no claim, when `close()` has closed, if
until then the stream delivers no completion, every failure is recorded to be
retried, and nobody else touches the job.  The failure the service reports for
a cancelled operation is never recorded so. -/
theorem shutdown_leaves_resumable (config : ManagerConfig) (workerId : String)
    {start last : Shutdown} (begun : (closing config workerId).start start)
    {execution : Execution} (executing : execution ∈ start.deployment.workers)
    (unfinished : execution.point.Unfinished) {row : JobRow}
    (found : start.system.store.jobs.find? execution.job = some row)
    (working : row.state.working = true) (holds : row.claimToken = some execution.token)
    {index : String} (worker : row.workerId = some (workerId ++ "-" ++ index))
    (run : (closing config workerId).Run
      (Shutdown.Undisturbed config execution.job execution.token) start last)
    (closed : last.stage = .closed) :
    (∃ lastRow, last.system.store.jobs.find? execution.job = some lastRow ∧
      (lastRow.state = .queued ∨ lastRow.state = .retryWait) ∧ lastRow.claimToken = none) ∧
    ∀ details message current draw,
      (config.failure details (classify .canceled message).failure current draw).retryable =
        false := by
  refine ⟨?_, cancelled_failure_is_final config⟩
  obtain ⟨reached, noOrphans, cancelling⟩ := begun
  have held : start.Held workerId execution.job execution.token :=
    { running := ⟨row, found, working, holds, ownedBy_of_worker worker⟩
      workers := by
        intro other member _sameJob sameToken
        have same : other = execution :=
          List.inj_on_of_nodup_map (Deployment.tokens_distinct reached) member executing sameToken
        rw [same]
        exact unfinished
      orphans := by
        intro call member
        rw [noOrphans] at member
        cases member
      stillOpen := by
        rw [cancelling]
        exact fun impossible => by cases impossible }
  have settled := run.preserves
    (fun shutdown => shutdown.Held workerId execution.job execution.token ∨
      shutdown.Resumed execution.job)
    (fun before label after undisturbed moved settled => by
      rcases settled with stillHeld | resumed
      · exact Shutdown.held_step undisturbed moved stillHeld
      · exact Or.inr (Shutdown.resumed_step undisturbed moved resumed))
    (Or.inl held)
  rcases settled with stillHeld | ⟨lastRow, lastFound, waiting, unclaimed⟩
  · exact absurd closed stillHeld.stillOpen
  · exact ⟨lastRow, lastFound, waiting, unclaimed⟩

def Shutdown.onlyReleasing (shutdown : Shutdown) : CloseLabel → Bool
  | .answered | .released _ => true
  | .run (.work _ _) => shutdown.deployment.workers.all fun execution =>
      execution.point = .releasing
  | _ => false

def Deployment.closeStarted (deployment : Deployment) : Shutdown :=
  { deployment := deployment
    operations := ["job"]
    orphans := []
    stage := .cancelling }

def Deployment.streamsJob (deployment : Deployment) : Bool :=
  (deployment.workers.any fun execution => execution.job = "job" && execution.token = "token" &&
      match execution.point with
      | .stream _ terminal => !terminal
      | _ => false) &&
    (deployment.system.store.jobs.find? "job").any fun row => row.state.working &&
      row.claimToken = some "token" && row.workerId = some "manager-0"

private theorem Deployment.exists_of_streamsJob {deployment : Deployment}
    (streams : deployment.streamsJob = true) :
    ∃ execution ∈ deployment.workers, execution.job = "job" ∧ execution.token = "token" ∧
      execution.point.Unfinished ∧
      ∃ row, deployment.system.store.jobs.find? "job" = some row ∧ row.state.working = true ∧
        row.claimToken = some "token" ∧ row.workerId = some ("manager" ++ "-" ++ "0") := by
  simp only [streamsJob, Bool.and_eq_true, List.any_eq_true, Option.any_eq_true,
    decide_eq_true_eq] at streams
  obtain ⟨⟨execution, member, ⟨isJob, isToken⟩, streaming⟩, row, found, ⟨working, claim⟩, worker⟩ :=
    streams
  refine ⟨execution, member, isJob, isToken, ?_, row, found, working, claim, worker⟩
  cases pointEq : execution.point <;> simp only [pointEq, Bool.false_eq_true] at streaming
  exact (Bool.not_eq_true' _).mp streaming

theorem shutdown_leaves_resumable_when_streaming :
    ∃ start last, (closing sampleConfig "manager").start start ∧
      start.deployment.streamsJob = true ∧ last.stage = .closed ∧
      (closing sampleConfig "manager").Run Machine.Always start last ∧
      ∃ lastRow, last.system.store.jobs.find? "job" = some lastRow ∧
        (lastRow.state = .queued ∨ lastRow.state = .retryWait) ∧ lastRow.claimToken = none := by
  have runs : (((deployed sampleConfig).execute Machine.Always untilStreaming
      Deployment.initial).any fun deployment => deployment.streamsJob &&
        (((closing sampleConfig "manager").execute
          (fun shutdown label => shutdown.onlyReleasing label = true)
          [.answered, .run (.work 0 (replied .done 3)), .released 4]
          deployment.closeStarted).any fun last => last.stage = .closed)) = true := by
    decide +kernel
  obtain ⟨deployment, reached, both⟩ := (deployed sampleConfig).exists_reachable_of_execute rfl runs
  obtain ⟨streams, closes⟩ := (Bool.and_eq_true _ _).mp both
  obtain ⟨last, ran, isClosed⟩ := (closing sampleConfig "manager").exists_run_of_execute _ closes
  have closed : last.stage = .closed := of_decide_eq_true isClosed
  obtain ⟨execution, member, isJob, isToken, unfinished, row, found, working, claim, worker⟩ :=
    Deployment.exists_of_streamsJob streams
  have undisturbed := ran.weaken
    (Shutdown.Undisturbed sampleConfig execution.job execution.token) (by
      intro shutdown label releasing
      cases label with
      | answered | released => trivial
      | orphan => cases releasing
      | run label =>
          cases label with
          | work index reading =>
              intro other atIndex _sameJob _sameToken
              have isReleasing := of_decide_eq_true
                (List.all_eq_true.mp releasing other (List.mem_of_getElem? atIndex))
              unfold Execution.EndsNothing
              rw [isReleasing]
              trivial
          | environment | claim | exception | recover | cancelTask => cases releasing)
  have started : (closing sampleConfig "manager").start deployment.closeStarted :=
    ⟨reached, rfl, rfl⟩
  have resumable := (shutdown_leaves_resumable sampleConfig "manager" started member unfinished
    (by rw [isJob]; exact found) working (by rw [isToken]; exact claim) worker undisturbed closed).1
  rw [isJob] at resumable
  exact ⟨deployment.closeStarted, last, started, streams, closed, ran.always, resumable⟩

/-- The steps of the manager itself: nobody else acts on the queue. -/
def CloseLabel.own : CloseLabel → Bool
  | .run (.environment _) => false
  | _ => true

/-- While the service is asked to cancel the operation, its failure event for
that operation reaches the worker, which records it. -/
def cancelledEventFirst : List CloseLabel :=
  [.run (.work 0 (replied (.event (classify .canceled "context canceled")) 3)),
    .run (.work 0 (replied .done 3)), .run (.work 0 (replied .done 3)),
    .run (.work 0 (replied .done 3)), .run (.work 0 (replied .done 3)),
    .answered, .released 4]

theorem close_fails_streaming_job :
    ¬ ∀ start last, (closing sampleConfig "manager").start start →
      start.deployment.streamsJob = true →
      (closing sampleConfig "manager").Run (fun _ label => label.own = true) start last →
      last.stage = .closed →
      ∃ row, last.system.store.jobs.find? "job" = some row ∧
        (row.state = .queued ∨ row.state = .retryWait) ∧ row.claimToken = none := by
  intro claimed
  have runs : (((deployed sampleConfig).execute Machine.Always untilStreaming
      Deployment.initial).any fun deployment => deployment.streamsJob &&
        (((closing sampleConfig "manager").execute (fun _ label => label.own = true)
          cancelledEventFirst deployment.closeStarted).any fun last => last.stage = .closed &&
            (last.system.store.jobs.find? "job").any fun row => row.state = .failed)) = true := by
    decide +kernel
  obtain ⟨deployment, reached, both⟩ := (deployed sampleConfig).exists_reachable_of_execute rfl runs
  obtain ⟨streams, closes⟩ := (Bool.and_eq_true _ _).mp both
  obtain ⟨last, ran, endsFailed⟩ := (closing sampleConfig "manager").exists_run_of_execute _ closes
  obtain ⟨isClosed, isFailed⟩ := (Bool.and_eq_true _ _).mp endsFailed
  obtain ⟨row, found, failed⟩ := (Option.any_eq_true _ _).mp isFailed
  obtain ⟨other, otherFound, waiting, -⟩ := claimed deployment.closeStarted last
    ⟨reached, rfl, rfl⟩ streams ran (of_decide_eq_true isClosed)
  rw [found] at otherFound
  cases otherFound
  rw [of_decide_eq_true failed] at waiting
  rcases waiting with impossible | impossible <;> cases impossible

end OciTransfer
