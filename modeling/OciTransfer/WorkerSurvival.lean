import OciTransfer.ExecutionSteps
import Mathlib.Data.Fintype.EquivFin

/-!
The worker loops of a manager.

A worker claims a job, reads the job back, executes it and claims again; an
exception of the execution is recorded as a failure of the job by the same
task, outside every other handler.  A task that raises there, or when the job
is read back, has ended for good, and so has one that a `CancelledError` of
somebody else's making has reached.
-/

namespace OciTransfer

/-- `_worker` at the claim, at the read which ends `claim`, in `_execute` and the
handler around it, or in the handler with a message that is no UTF-8. -/
inductive WorkerTask where
  | claiming
  | fetching (job token : String)
  | executing (execution : Execution)
  | unencodable (job : String)
  | ended
  deriving DecidableEq, Repr

/-- The loop goes on when `_execute` or the handler has returned. -/
def Execution.task (execution : Execution) : WorkerTask :=
  match execution.point with
  | .returned => .claiming
  | .ended => .ended
  | _ => .executing execution

/-- What the handler makes of an exception: `__str__` may raise, and a lone surrogate
in the message makes `sqlite3` raise when it is to be stored. -/
inductive ExceptionText where
  | text (detail : String)
  | surrogate
  | unprintable
  deriving DecidableEq, Repr

/-- At an await an `Exception` may come up that is no transfer error, a `CancelledError`
without `cancel` having been called on the task, or another `BaseException`. -/
inductive TaskMove where
  | claim (worker : String) (leaseSeconds : Int) (current : Instant) (token : String)
  | fetch
  | work (reading : Reading)
  | exception
  | cancelledError
  | baseException
  | recover (kind : String) (text : ExceptionText)
  | cancel
  deriving DecidableEq, Repr

/-- The await is one of the provider's or of the service's client, not of the store. -/
def Point.foreign : Point → Bool
  | .sourceCredentials _ | .destinationCredentials _ | .plan _ | .stream _ _
  | .cancelOperation _ | .refreshSource _ _ | .refreshDestination _ _ => true
  | _ => false

/-- One step of the task: its action on the queue and the task after it. -/
def WorkerTask.step (config : ManagerConfig) (store : Store) :
    WorkerTask → TaskMove → Option (Action × WorkerTask)
  | .claiming, .claim worker leaseSeconds current token =>
      some (.commit (.claim worker leaseSeconds current token),
        match (store.claim worker leaseSeconds current token).2 with
        | none => .claiming
        | some (job, claimed) => .fetching job.id claimed)
  | .fetching job token, .fetch =>
      some (.observe, match store.get job with
        | .ok _ => .executing { job := job, token := token, point := .start }
        | .error _ => .ended)
  | .executing execution, .work reading =>
      (execution.step config store reading).map fun (action, point) =>
        (action, ({ execution with point := point } : Execution).task)
  | .executing execution, .exception =>
      (Execution.exceptionAt execution.point).map fun point =>
        (.observe, ({ execution with point := point } : Execution).task)
  | .executing execution, .cancelledError =>
      if execution.point.foreign then
        some (.observe, .executing { execution with point := .releasing })
      else none
  | .executing execution, .baseException =>
      if execution.point.foreign then some (.observe, .ended) else none
  | .executing execution, .recover kind text =>
      if execution.point = .raised then
        some (.observe, match text with
          | .text detail => .executing { execution with
              point := .recordFailure .worker
                (rejected ("Copy failed (" ++ kind ++ "): " ++ config.safeError detail)
                  "transfer_failed") }
          | .surrogate => .unencodable execution.job
          | .unprintable => .ended)
      else none
  | .executing execution, .cancel =>
      some (.observe,
        ({ execution with point := Execution.cancelledAt execution.point } : Execution).task)
  -- `details` raises for a row that is gone, `fail_or_retry` for the message
  | .unencodable _, .work _ => some (.observe, .ended)
  | .claiming, .cancel | .fetching _ _, .cancel | .unencodable _, .cancel => some (.observe, .ended)
  | _, _ => none

/-- The queue and the tasks of one manager; other managers are environment. -/
structure Manager where
  system : System
  tasks : List WorkerTask

inductive ManagerLabel where
  | environment (action : Action)
  | task (index : Nat) (move : TaskMove)
  deriving DecidableEq, Repr

def Manager.next (config : ManagerConfig) (manager : Manager) : ManagerLabel → Option Manager
  | .environment action =>
      (manager.system.next action).map fun system => { manager with system := system }
  | .task index move =>
      manager.tasks[index]?.bind fun task =>
        (task.step config manager.system.store move).bind fun (action, after) =>
          (manager.system.next action).map fun system =>
            { system := system
              tasks := manager.tasks.set index after }

def staffed (config : ManagerConfig) : Machine Manager ManagerLabel :=
  { start := fun manager =>
      manager.system = System.initial ∧ ∀ task ∈ manager.tasks, task = .claiming
    next := Manager.next config }

/-! ### The condition -/

def Point.inHandler : Point → Bool
  | .recordFailure .worker _ | .failOrRetry .worker _ => true
  | _ => false

/-- The manager does not stop the task, and the store raises in the handler nothing
but what it raises itself: `sqlite3` has no error of its own. -/
def WorkerTask.undisturbed : WorkerTask → TaskMove → Bool
  | _, .cancel => false
  | .executing execution, .exception => !execution.point.inHandler
  | _, _ => true

/-- The job whose row the next step of the task needs, with no handler left. -/
def WorkerTask.needs : WorkerTask → Option String
  | .fetching job _ => some job
  | .executing execution => if execution.point.inHandler then some execution.job else none
  | .claiming | .unencodable _ | .ended => none

def WorkerTask.rowStored (store : Store) (task : WorkerTask) : Bool :=
  task.needs.all fun job => (store.jobs.find? job).isSome

/-- What comes up at the await can be handled: it is an `Exception`, and the handler
gets a message out of it that can be stored. -/
def TaskMove.handled : TaskMove → Bool
  | .cancelledError | .baseException | .recover _ .surrogate | .recover _ .unprintable => false
  | _ => true

namespace Manager

def Undisturbed (manager : Manager) : ManagerLabel → Prop
  | .environment _ => True
  | .task index move => manager.tasks[index]?.all (fun task => task.undisturbed move) = true

/-- Where a worker needs the row of its job, the row is still stored, and what is raised
at its await can be handled. -/
def Harmless (manager : Manager) : ManagerLabel → Prop
  | .environment _ => True
  | .task index move =>
      manager.tasks[index]?.all (fun task => task.rowStored manager.system.store) = true ∧
        move.handled = true

def Survives (manager : Manager) (label : ManagerLabel) : Prop :=
  manager.Undisturbed label ∧ manager.Harmless label

instance : DecidableRel Undisturbed := fun _ label =>
  match label with
  | .environment _ => inferInstanceAs (Decidable True)
  | .task _ _ => inferInstanceAs (Decidable (_ = true))

instance : DecidableRel Harmless := fun _ label =>
  match label with
  | .environment _ => inferInstanceAs (Decidable True)
  | .task _ _ => inferInstanceAs (Decidable (_ ∧ _))

instance : DecidableRel Survives := fun _ _ => inferInstanceAs (Decidable (_ ∧ _))

end Manager

/-! ### One step of a task -/

/-- Work is left to do, and no cancellation has reached it. -/
def Point.live : Point → Bool
  | .releasing | .returned | .ended => false
  | _ => true

namespace Execution

variable {config : ManagerConfig} {store : Store} {execution : Execution} {reading : Reading}
  {action : Action} {point : Point}

private theorem task_eq_ended : execution.task = .ended ↔ execution.point = .ended := by
  unfold task
  cases execution.point <;> simp

/-- A step ends the task only in the handler, when the row is gone; it always
does so then, and no step begins to release a claim. -/
theorem ended_of_step (stepped : execution.step config store reading = some (action, point))
    (live : execution.point.live = true) :
    point ≠ .releasing ∧
      (point = .ended ↔
        execution.point.inHandler = true ∧ store.jobs.find? execution.job = none) := by
  have advance := advance_of_step stepped
  generalize execution.point = here at advance live ⊢
  cases advance with
  | givenBack => cases live
  | @detailsRead frame _ details read =>
      have found := Store.details_ok.mp read
      simp [found]
  | @detailsMissing frame _ raised read =>
      have absent := Store.details_error.mp ⟨raised, read⟩
      cases frame <;> simp [Frame.raised, Point.inHandler, absent]
  | @failureWritten frame _ after accepted ran =>
      have found : store.jobs.find? execution.job ≠ none := by
        intro absent
        obtain ⟨raised, refused⟩ := Transaction.failOrRetry_raises.mpr absent
        rw [ran] at refused
        cases refused
      simp [found]
  | @failureRaised frame _ raised ran =>
      have absent := Transaction.failOrRetry_raises.mp ⟨raised, ran⟩
      cases frame <;> simp [Frame.raised, Point.inHandler, absent]
  | _ => simp [Point.inHandler]

end Execution

/-- The task is in its loop, and not on its way out of it. -/
def WorkerTask.Alive : WorkerTask → Prop
  | .claiming | .fetching _ _ => True
  | .executing execution => execution.point.live = true
  | .unencodable _ | .ended => False

instance (task : WorkerTask) : Decidable task.Alive :=
  match task with
  | .claiming | .fetching _ _ => inferInstanceAs (Decidable True)
  | .executing _ => inferInstanceAs (Decidable (_ = true))
  | .unencodable _ | .ended => inferInstanceAs (Decidable False)

private theorem Execution.raised_of_exception {execution : Execution} {point : Point}
    (led : exceptionAt execution.point = some point)
    (outside : execution.point.inHandler = false) (live : execution.point.live = true) :
    ({ execution with point := point } : Execution).task =
      .executing { execution with point := .raised } := by
  generalize execution.point = here at led outside live
  cases here with
  | releasing => cases live
  | returned | raised | ended => cases led
  | recordFailure frame error | failOrRetry frame failure =>
      cases frame with
      | execute =>
          cases led
          rfl
      | worker => cases outside
  | _ =>
      cases led
      rfl

private theorem Execution.task_alive {execution : Execution} (kept : execution.point ≠ .releasing)
    (goesOn : execution.point ≠ .ended) : execution.task.Alive := by
  unfold task
  cases pointEq : execution.point with
  | returned => trivial
  | ended => exact absurd pointEq goesOn
  | releasing => exact absurd pointEq kept
  | _ => simp only [WorkerTask.Alive, pointEq, Point.live]

namespace WorkerTask

variable {config : ManagerConfig} {store : Store} {task after : WorkerTask} {move : TaskMove}
  {action : Action}

theorem rowStored_executing {execution : Execution} :
    (WorkerTask.executing execution).rowStored store = true ↔
      ¬ (execution.point.inHandler = true ∧ store.jobs.find? execution.job = none) := by
  simp only [rowStored, needs]
  by_cases handler : execution.point.inHandler = true
  · rw [if_pos handler, Option.all_some, Option.isSome_iff_ne_none]
    exact ⟨fun stored gone => stored gone.2, fun stored gone => stored ⟨handler, gone⟩⟩
  · rw [if_neg handler, Option.all_none]
    exact ⟨fun _ gone => handler gone.1, fun _ => rfl⟩

/-- An undisturbed step leads the task out of its loop exactly if it needs a row that is
gone, or if what comes up cannot be handled. -/
theorem alive_of_step (stepped : task.step config store move = some (action, after))
    (undisturbed : task.undisturbed move = true) (alive : task.Alive) :
    after.Alive ↔ task.rowStored store = true ∧ move.handled = true := by
  cases task with
  | unencodable | ended => exact absurd alive (fun impossible => impossible)
  | claiming =>
      cases move with
      | claim worker leaseSeconds current token =>
          simp only [step, Option.some.injEq, Prod.mk.injEq] at stepped
          obtain ⟨-, rfl⟩ := stepped
          cases (store.claim worker leaseSeconds current token).2 with
          | none | some => exact iff_of_true trivial ⟨rfl, rfl⟩
      | cancel => cases undisturbed
      | fetch | work | exception | cancelledError | baseException | recover => cases stepped
  | fetching job token =>
      cases move with
      | fetch =>
          simp only [step, Option.some.injEq, Prod.mk.injEq] at stepped
          obtain ⟨-, rfl⟩ := stepped
          have found : (WorkerTask.fetching job token).rowStored store = true ↔
              ∃ read, store.get job = .ok read := Store.get_ok.symm
          cases read : store.get job with
          | ok copyJob => exact iff_of_true rfl ⟨found.mpr ⟨copyJob, read⟩, rfl⟩
          | error raised =>
              refine iff_of_false id fun both => ?_
              obtain ⟨copyJob, isRead⟩ := found.mp both.1
              rw [read] at isRead
              cases isRead
      | cancel => cases undisturbed
      | claim | work | exception | cancelledError | baseException | recover => cases stepped
  | executing execution =>
      cases move with
      | work reading =>
          obtain ⟨⟨stepAction, point⟩, executed, same⟩ := Option.map_eq_some_iff.mp stepped
          obtain ⟨rfl, rfl⟩ := Prod.mk.inj same
          obtain ⟨kept, endsIff⟩ := Execution.ended_of_step executed alive
          rw [rowStored_executing, ← endsIff]
          constructor
          · intro stays
            refine ⟨fun ends => ?_, rfl⟩
            rw [Execution.task_eq_ended.mpr ends] at stays
            exact stays
          · intro goesOn
            exact Execution.task_alive kept goesOn.1
      | exception =>
          obtain ⟨point, led, same⟩ := Option.map_eq_some_iff.mp stepped
          obtain ⟨rfl, rfl⟩ := Prod.mk.inj same
          have outside : execution.point.inHandler = false := by
            simpa only [WorkerTask.undisturbed, Bool.not_eq_true'] using undisturbed
          rw [Execution.raised_of_exception led outside alive, rowStored_executing, outside]
          exact iff_of_true rfl ⟨fun impossible => (by cases impossible.1), rfl⟩
      | cancelledError | baseException =>
          simp only [step] at stepped
          split at stepped
          · cases stepped
            exact iff_of_false (fun impossible => by cases impossible)
              (fun impossible => by cases impossible.2)
          · cases stepped
      | recover kind text =>
          simp only [step] at stepped
          split at stepped
          · rename_i raised
            cases stepped
            rw [rowStored_executing, raised]
            cases text with
            | text detail => exact iff_of_true rfl ⟨fun impossible => (by cases impossible.1), rfl⟩
            | surrogate | unprintable =>
                exact iff_of_false id (fun impossible => by cases impossible.2)
          · cases stepped
      | cancel => cases undisturbed
      | claim | fetch => cases stepped

/-- A task that has left its loop never comes back into it. -/
theorem not_alive_of_step (stepped : task.step config store move = some (action, after))
    (left : ¬ task.Alive) : ¬ after.Alive := by
  cases task with
  | claiming | fetching => exact absurd trivial left
  | ended => cases move <;> cases stepped
  | unencodable job =>
      cases move with
      | work | cancel =>
          cases stepped
          exact id
      | claim | fetch | exception | cancelledError | baseException | recover => cases stepped
  | executing execution =>
      have atRest : execution.point = .releasing ∨ execution.point = .returned ∨
          execution.point = .ended := by
        change ¬ execution.point.live = true at left
        cases pointEq : execution.point with
        | releasing => exact Or.inl rfl
        | returned => exact Or.inr (Or.inl rfl)
        | ended => exact Or.inr (Or.inr rfl)
        | _ => exact absurd rfl (pointEq ▸ left)
      have endsTask : ({ execution with point := .ended } : Execution).task = .ended := rfl
      cases move with
      | claim | fetch => cases stepped
      | work reading =>
          obtain ⟨⟨stepAction, point⟩, executed, same⟩ := Option.map_eq_some_iff.mp stepped
          obtain ⟨rfl, rfl⟩ := Prod.mk.inj same
          have ends : point = .ended := by
            unfold Execution.step at executed
            rcases atRest with here | here | here
            · rw [here] at executed
              rcases (Execution.call_eq (Option.some.inj executed)).2 with
                ⟨-, -, ends⟩ | ⟨-, -, ends⟩ | ⟨-, -, ends⟩ <;> exact ends
            · rw [here] at executed
              cases executed
            · rw [here] at executed
              cases executed
          rw [ends, endsTask]
          exact id
      | exception =>
          obtain ⟨point, led, same⟩ := Option.map_eq_some_iff.mp stepped
          obtain ⟨rfl, rfl⟩ := Prod.mk.inj same
          rcases atRest with here | here | here
          · rw [here] at led
            cases led
            exact id
          · rw [here] at led
            cases led
          · rw [here] at led
            cases led
      | cancelledError | baseException =>
          simp only [step] at stepped
          split at stepped
          · rename_i awaits
            rcases atRest with here | here | here <;> rw [here] at awaits <;> cases awaits
          · cases stepped
      | recover kind text =>
          simp only [step] at stepped
          split at stepped
          · rename_i raised
            rcases atRest with here | here | here <;> rw [here] at raised <;> cases raised
          · cases stepped
      | cancel =>
          cases stepped
          rcases atRest with here | here | here <;> rw [here] <;> exact id

end WorkerTask

/-! ### The next step of a task -/

private theorem Execution.exists_step (config : ManagerConfig) (store : Store)
    {execution : Execution}
    (live : execution.point.live = true) (notRaised : execution.point ≠ .raised) :
    ∃ reading, (execution.step config store reading).isSome = true := by
  have given : ∀ provider, (config.credentials provider .done).isSome = true := by
    intro provider
    unfold ManagerConfig.credentials
    split <;> rfl
  unfold step
  cases pointEq : execution.point with
  | sourceCredentials | destinationCredentials | refreshSource | refreshDestination =>
      refine ⟨replied .done 0, ?_⟩
      simp only [replied, Option.isSome_map, given]
  | plan | stream | cancelOperation =>
      exact ⟨replied (.error (rejected "registry error" "registry_unavailable")) 0, rfl⟩
  | raised => exact absurd pointEq notRaised
  | releasing | returned | ended =>
      rw [pointEq] at live
      cases live
  | _ => exact ⟨replied .done 0, rfl⟩

private theorem WorkerTask.exists_step {task : WorkerTask} (alive : task.Alive)
    (config : ManagerConfig)
    (system : System) :
    ∃ move action after later, task.undisturbed move = true ∧
      task.step config system.store move = some (action, after) ∧
      system.next action = some later := by
  cases task with
  | ended => exact absurd alive (fun impossible => impossible)
  | claiming =>
      obtain ⟨token, fresh⟩ := Infinite.exists_notMem_finset system.tokens.toFinset
      rw [List.mem_toFinset] at fresh
      refine ⟨.claim "worker" 60 0 token, _, _,
        system.commit (.claim "worker" 60 0 token), rfl, rfl, ?_⟩
      exact if_pos (decide_eq_true fresh)
  | unencodable => exact absurd alive (fun impossible => impossible)
  | fetching job token => exact ⟨.fetch, _, _, system, rfl, rfl, rfl⟩
  | executing execution =>
      by_cases raised : execution.point = .raised
      · exact ⟨.recover "RuntimeError" (.text "unexpected"), .observe, _, system, rfl,
          if_pos raised, rfl⟩
      · obtain ⟨reading, enabled⟩ :=
          Execution.exists_step config system.store alive raised
        obtain ⟨⟨action, point⟩, executed⟩ := Option.isSome_iff_exists.mp enabled
        have owned := (Execution.advance_of_step executed).action_eq
        obtain ⟨later, moved⟩ := system.next_enabled owned
        refine ⟨.work reading, action, ({ execution with point := point } : Execution).task, later,
          rfl, ?_, moved⟩
        simp only [step, executed, Option.map_some]

/-! ### The manager -/

namespace Manager

variable {config : ManagerConfig} {before after : Manager} {label : ManagerLabel}

theorem next_task {index : Nat} {move : TaskMove}
    (moved : before.next config (.task index move) = some after) :
    ∃ task action changed, before.tasks[index]? = some task ∧
      task.step config before.system.store move = some (action, changed) ∧
      before.system.next action = some after.system ∧
      after.tasks = before.tasks.set index changed := by
  obtain ⟨task, found, later⟩ := Option.bind_eq_some_iff.mp moved
  obtain ⟨⟨action, changed⟩, stepped, last⟩ := Option.bind_eq_some_iff.mp later
  obtain ⟨system, systemStepped, rfl⟩ := Option.map_eq_some_iff.mp last
  exact ⟨task, action, changed, found, stepped, systemStepped, rfl⟩

theorem reachable_system {manager : Manager} (reached : (staffed config).Reachable manager) :
    interleaved.Reachable manager.system := by
  refine reached.project (fun manager : Manager => manager.system) ?_ ?_
  · rintro manager ⟨initial, -⟩
    exact initial
  · intro before label after moved
    have stays : interleaved.Run Machine.Always before.system before.system :=
      Machine.Run.refl before.system
    cases label with
    | environment action =>
        obtain ⟨system, stepped, rfl⟩ := Option.map_eq_some_iff.mp moved
        exact stays.tail trivial stepped
    | task index move =>
        obtain ⟨-, action, -, -, -, stepped, -⟩ := next_task moved
        exact stays.tail trivial stepped

def AllAlive (manager : Manager) : Prop := ∀ task ∈ manager.tasks, task.Alive

/-- An undisturbed step keeps every worker in its loop exactly if it is harmless. -/
theorem alive_step (moved : before.next config label = some after)
    (undisturbed : before.Undisturbed label) (alive : before.AllAlive) :
    after.AllAlive ↔ before.Harmless label := by
  cases label with
  | environment action =>
      obtain ⟨system, -, rfl⟩ := Option.map_eq_some_iff.mp moved
      exact iff_of_true alive trivial
  | task index move =>
      obtain ⟨task, action, changed, found, stepped, -, tasksEq⟩ := next_task moved
      have taskUndisturbed : task.undisturbed move = true := by
        simpa only [Undisturbed, found, Option.all_some] using undisturbed
      have harmless : before.Harmless (.task index move) ↔
          task.rowStored before.system.store = true ∧ move.handled = true := by
        simp only [Harmless, found, Option.all_some]
      rw [harmless, ← WorkerTask.alive_of_step stepped taskUndisturbed
        (alive task (List.mem_of_getElem? found))]
      have placed : after.tasks[index]? = some changed := by
        rw [tasksEq]
        exact List.getElem?_set_self (List.getElem?_eq_some_iff.mp found).1
      constructor
      · intro allAlive
        exact allAlive changed (List.mem_of_getElem? placed)
      · intro goesOn other member
        rw [tasksEq] at member
        rcases List.mem_or_eq_of_mem_set member with there | rfl
        · exact alive other there
        · exact goesOn

def HasLeft (index : Nat) (manager : Manager) : Prop :=
  ∃ task, manager.tasks[index]? = some task ∧ ¬ task.Alive

private theorem hasLeft_step {index : Nat} (moved : before.next config label = some after)
    (left : before.HasLeft index) : after.HasLeft index := by
  obtain ⟨task, found, notAlive⟩ := left
  cases label with
  | environment action =>
      obtain ⟨system, -, rfl⟩ := Option.map_eq_some_iff.mp moved
      exact ⟨task, found, notAlive⟩
  | task other move =>
      obtain ⟨mover, action, changed, foundMover, stepped, -, tasksEq⟩ := next_task moved
      by_cases same : other = index
      · subst same
        rw [found] at foundMover
        cases foundMover
        refine ⟨changed, ?_, WorkerTask.not_alive_of_step stepped notAlive⟩
        rw [tasksEq]
        exact List.getElem?_set_self (List.getElem?_eq_some_iff.mp found).1
      · refine ⟨task, ?_, notAlive⟩
        rw [tasksEq, List.getElem?_set_ne same]
        exact found

end Manager

/-- In a run in which no worker finds the row of its job deleted when it reads the job
back after the claim, or records a failure outside `_execute`, and in which whatever is
raised at an await of an execution can be handled there, every worker is in its loop and
can go on.  The next step keeps them all in their loops exactly if it is of this kind,
and a worker that has left its loop never comes back to a claim. -/
theorem worker_loops_survive (config : ManagerConfig) {first state : Manager}
    (started : (staffed config).start first)
    (run : (staffed config).Run Manager.Survives first state) :
    state.AllAlive ∧
    (∀ index task, state.tasks[index]? = some task → ∃ move after,
      state.Undisturbed (.task index move) ∧
        (staffed config).next state (.task index move) = some after) ∧
    (∀ label after, state.Undisturbed label → (staffed config).next state label = some after →
      (after.AllAlive ↔ state.Harmless label)) ∧
    ∀ index left later, left.HasLeft index →
      (staffed config).Run Machine.Always left later →
        ∃ task, later.tasks[index]? = some task ∧ task ≠ .claiming := by
  have alive : state.AllAlive := by
    refine run.preserves Manager.AllAlive ?_ ?_
    · rintro before label after ⟨undisturbed, harmless⟩ moved alive
      exact (Manager.alive_step moved undisturbed alive).mpr harmless
    · intro task member
      rw [started.2 task member]
      trivial
  refine ⟨alive, ?_, fun label after undisturbed moved =>
    Manager.alive_step moved undisturbed alive, ?_⟩
  · intro index task found
    obtain ⟨move, action, changed, later, undisturbed, stepped, moved⟩ :=
      WorkerTask.exists_step (alive task (List.mem_of_getElem? found)) config state.system
    refine ⟨move, { system := later, tasks := state.tasks.set index changed }, ?_, ?_⟩
    · simp only [Manager.Undisturbed, found, Option.all_some, undisturbed]
    · simp only [staffed, Manager.next, found, Option.bind_some, stepped, moved, Option.map_some]
  · intro index left later hasLeft goesOn
    obtain ⟨task, found, notAlive⟩ := goesOn.preserves (Manager.HasLeft index)
      (fun _ _ _ _ moved => Manager.hasLeft_step moved) hasLeft
    refine ⟨task, found, ?_⟩
    rintro rfl
    exact notAlive trivial

def oneWorker : Manager :=
  { system := System.initial
    tasks := [.claiming] }

private theorem oneWorker_started (config : ManagerConfig) : (staffed config).start oneWorker :=
  ⟨rfl, fun _ member => List.mem_singleton.mp member⟩

def claimedByWorker : List ManagerLabel :=
  [.environment (.commit (.enqueue sampleValues "job" 0)),
    .task 0 (.claim "manager-0" 60 1 "token"), .task 0 .fetch]

/-- A credential provider raises an unexpected exception, and the worker goes on. -/
theorem worker_loops_survive_exception : ∃ state : Manager,
    (staffed sampleConfig).Run Manager.Survives oneWorker state ∧
      state.tasks = [.claiming] ∧ state.AllAlive := by
  have run : (((staffed sampleConfig).execute Manager.Survives
      (claimedByWorker ++ [.task 0 (.work (replied .done 2)), .task 0 .exception,
        .task 0 (.recover "KeyError" (.text "provider")), .task 0 (.work (replied .done 3)),
        .task 0 (.work (replied .done 3))]) oneWorker).any fun state =>
          decide (state.tasks = [.claiming])) = true := by decide +kernel
  obtain ⟨state, ran, tasks⟩ := (staffed sampleConfig).exists_run_of_execute _ run
  exact ⟨state, ran, of_decide_eq_true tasks,
    (worker_loops_survive sampleConfig (oneWorker_started sampleConfig) ran).1⟩

/-- A `cancel` that has read the job before the claim writes after it, and the
client dismisses the job; the worker then finds no row in the handler either. -/
theorem worker_ends_when_row_is_deleted :
    ¬ ∀ config first state, (staffed config).start first →
      (staffed config).Run Manager.Undisturbed first state → WorkerTask.ended ∉ state.tasks := by
  intro claimed
  have run : (((staffed sampleConfig).execute Manager.Undisturbed
      [.environment (.commit (.enqueue sampleValues "job" 0)), .environment (.cancelRead "job"),
        .task 0 (.claim "manager-0" 60 1 "token"), .task 0 .fetch,
        .environment (.commit (.cancelWrite "job" .cancelled 2)),
        .environment (.commit (.dismiss "job")), .task 0 (.work (replied .done 3)),
        .task 0 (.recover "JobNotFoundError" (.text "job")), .task 0 (.work (replied .done 4))]
      oneWorker).any fun state => decide (state.tasks = [.ended])) = true := by decide +kernel
  obtain ⟨state, ran, tasks⟩ := (staffed sampleConfig).exists_run_of_execute _ run
  have survives := claimed sampleConfig oneWorker state (oneWorker_started sampleConfig) ran
  rw [of_decide_eq_true tasks] at survives
  exact survives List.mem_cons_self

end OciTransfer
