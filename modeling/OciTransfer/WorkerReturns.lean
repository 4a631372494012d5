import OciTransfer.Ranking
import OciTransfer.WorkerSurvival

/-!
Workers that come back for the next job.

An execution goes in a circle only for the events of the copy: each brings it from
the stream to the stream again, over the test for a cancellation and the store.
Everywhere else it gets closer to its end, with any replies and also when an await
raises or the task is cancelled.  So a worker is on its way for a number of steps that
the events bound, and it is never stuck on it.
-/

namespace OciTransfer

/-- A bound on the steps from this await on, the events of the copy left out. -/
def Point.remaining : Point → Nat
  | .start => 15
  | .sourceCredentials _ => 14
  | .destinationCredentials _ => 13
  | .loadSnapshot _ => 12
  | .plan _ => 11
  | .saveSnapshot _ _ => 10
  | .stream _ _ => 9
  | .checkCancelled _ _ _ => 11
  | .progress _ _ _ => 10
  | .cancelOperation _ => 9
  | .handle _ _ => 8
  | .refreshSource _ _ => 7
  | .refreshDestination _ _ => 6
  | .recordFailure .execute _ => 5
  | .verifying => 5
  | .finish _ => 4
  | .failOrRetry .execute _ => 4
  | .raised => 3
  | .recordFailure .worker _ => 2
  | .failOrRetry .worker _ => 1
  | .releasing => 1
  | .returned | .ended => 1

/-- The event of the copy that a step receives at this await. -/
def Point.receives : Point → Reply → Bool
  | .stream _ _, .event _ => true
  | _, _ => false

def WorkerTask.remaining : WorkerTask → Nat
  | .claiming | .ended => 0
  | .unencodable _ => 1
  | .fetching _ _ => 16
  | .executing execution => execution.point.remaining

def WorkerTask.receives : WorkerTask → TaskMove → Bool
  | .executing execution, .work reading => execution.point.receives reading.reply
  | _, _ => false

/-- A fetch, a step or the handling of an exception; no event is received. -/
def WorkerTask.plain (task : WorkerTask) (move : TaskMove) : Bool :=
  match move with
  | .fetch | .recover _ (.text _) => true
  | .work _ => !task.receives move
  | .claim _ _ _ _ | .exception | .cancelledError | .baseException | .recover _ _ | .cancel => false

def WorkerTask.job? : WorkerTask → Option String
  | .claiming | .ended => none
  | .fetching job _ | .unencodable job => some job
  | .executing execution => some execution.job

namespace Execution

variable {config : ManagerConfig} {store : Store} {execution : Execution} {reading : Reading}
  {action : Action} {point : Point}

end Execution

namespace WorkerTask

variable {config : ManagerConfig} {store : Store} {task after : WorkerTask} {move : TaskMove}
  {action : Action}

private theorem undisturbed_of_plain (plain : task.plain move = true) :
    task.undisturbed move = true := by
  cases move with
  | exception | cancelledError | baseException | cancel | claim => cases plain
  | fetch | work | recover => cases task <;> rfl

private theorem handled_of_plain (plain : task.plain move = true) : move.handled = true := by
  cases move with
  | exception | cancelledError | baseException | cancel | claim => cases plain
  | fetch | work => rfl
  | recover kind text =>
      cases text with
      | text detail => rfl
      | surrogate | unprintable => cases plain

private theorem job_of_plain (stepped : task.step config store move = some (action, after))
    (plain : task.plain move = true) :
    ∃ job, task.job? = some job ∧ (after.job? = some job ∨ after.job? = none) ∧
      (action = .observe ∨ ∃ token request current,
        action = .commit (.call job token request current)) := by
  have ofTask : ∀ execution : Execution,
      execution.task.job? = some execution.job ∨ execution.task.job? = none := by
    intro execution
    unfold Execution.task
    cases execution.point with
    | returned | ended => exact Or.inr rfl
    | _ => exact Or.inl rfl
  cases move with
  | claim | exception | cancelledError | baseException | cancel => cases plain
  | fetch =>
      cases task with
      | claiming | executing | unencodable | ended => cases stepped
      | fetching job token =>
          cases stepped
          refine ⟨job, rfl, ?_, Or.inl rfl⟩
          cases store.get job with
          | ok copyJob => exact Or.inl rfl
          | error raised => exact Or.inr rfl
  | recover kind text =>
      cases task with
      | claiming | fetching | unencodable | ended => cases stepped
      | executing execution =>
          simp only [step] at stepped
          split at stepped
          · cases stepped
            refine ⟨execution.job, rfl, ?_, Or.inl rfl⟩
            cases text with
            | text | surrogate => exact Or.inl rfl
            | unprintable => exact Or.inr rfl
          · cases stepped
  | work reading =>
      cases task with
      | claiming | fetching | ended => cases stepped
      | unencodable job =>
          cases stepped
          exact ⟨job, rfl, Or.inr rfl, Or.inl rfl⟩
      | executing execution =>
          obtain ⟨⟨stepAction, point⟩, executed, same⟩ := Option.map_eq_some_iff.mp stepped
          obtain ⟨rfl, rfl⟩ := Prod.mk.inj same
          refine ⟨execution.job, rfl, ofTask { execution with point := point }, ?_⟩
          rcases (Execution.advance_of_step executed).action_eq with observed | ⟨request, called⟩
          · exact Or.inl observed
          · exact Or.inr ⟨execution.token, request, reading.current, called⟩

/-- What the task works for is stored, and no cancellation has reached it. -/
def Returns (store : Store) (task : WorkerTask) : Prop :=
  task.Alive ∧ ∀ job, task.job? = some job → (store.jobs.find? job).isSome = true

theorem Returns.rowStored (returns : task.Returns store) : task.rowStored store = true := by
  cases task with
  | claiming | unencodable | ended => rfl
  | fetching job token => exact returns.2 job rfl
  | executing execution =>
      refine rowStored_executing.mpr fun gone => ?_
      have stored := returns.2 execution.job rfl
      rw [gone.2] at stored
      cases stored

theorem Returns.step {system later : System} (returns : task.Returns system.store)
    (stepped : task.step config system.store move = some (action, after))
    (plain : task.plain move = true) (moved : system.next action = some later) :
    after.Returns later.store := by
  obtain ⟨job, hasJob, kept, does⟩ := job_of_plain stepped plain
  constructor
  · exact (alive_of_step stepped (undisturbed_of_plain plain) returns.1).mpr
      ⟨returns.rowStored, handled_of_plain plain⟩
  · intro other otherJob
    have same : other = job := by
      rcases kept with kept | done
      · exact Option.some.inj (otherJob.symm.trans kept)
      · rw [done] at otherJob
        cases otherJob
    have stored := returns.2 job hasJob
    rw [same]
    rcases does with rfl | ⟨token, request, current, rfl⟩
    · cases moved
      exact stored
    · obtain ⟨row, found⟩ := Option.isSome_iff_exists.mp stored
      obtain ⟨changed, stillFound, -⟩ := Transaction.call_found found job token request current
      rw [System.next_commit_store moved, stillFound]
      rfl

end WorkerTask

namespace Execution

end Execution

/-- What a worker does is noted: a claim that finds a job, an event, any other move of a
worker that has a job.  Claims that find none are not. -/
inductive WorkerNote where
  | claimed
  | received
  | moved
  deriving DecidableEq, Repr

def WorkerTask.note (task : WorkerTask) (move : TaskMove) (after : WorkerTask) :
    List WorkerNote :=
  if task = .claiming then if after = .claiming ∨ after = .ended then [] else [.claimed]
  else if task.receives move then [.received] else [.moved]

namespace Manager

variable {config : ManagerConfig} {before after : Manager} {label : ManagerLabel} {index : Nat}

def remaining (index : Nat) (manager : Manager) : Nat :=
  (manager.tasks[index]?.map WorkerTask.remaining).getD 0

end Manager

def WorkerTask.runs (store : Store) : WorkerTask → Bool
  | .executing execution => execution.point.live && (store.jobs.find? execution.job).isSome
  | _ => false

end OciTransfer
