import OciTransfer.ClaimFencing
import OciTransfer.ExecutionSteps

/-!
A worker that goes back to claiming and the claim it leaves.

`_execute` returns early when a call under its token is refused, and takes the
refusal for the loss of the claim.  Two refusals mean something else: a
snapshot is refused when the job has left planning, and a blob event when its
digest is not among the planned blobs.  Without these a worker returns only
after its claim is gone.  A number that fits no column is no refusal: the call raises.
-/

namespace OciTransfer

/-- A refusal at this await can only mean that the claim is lost. -/
def Execution.RefusalMeansLoss (execution : Execution) (store : Store) : Prop :=
  match execution.point with
  | .saveSnapshot _ planned => Store.optionFits planned.expectedBytes = true →
      ∀ row, store.jobs.find? execution.job = some row →
        row.claimToken = some execution.token → row.state = .planning
  | .progress _ _ event => ∀ row digest, store.jobs.find? execution.job = some row →
      row.claimToken = some execution.token → event.namedDigest = some digest →
      store.blobs.find? (execution.job, digest) ≠ none
  | _ => True

namespace Deployment

def RefusalsMeanLoss (deployment : Deployment) : Label → Prop
  | .work index _ => ∀ execution, deployment.workers[index]? = some execution →
      execution.RefusalMeansLoss deployment.system.store
  | _ => True

/-- No worker that has returned is still the owner of its job. -/
def NoneAbandoned (deployment : Deployment) : Prop :=
  ∀ execution ∈ deployment.workers, execution.point = .returned →
    deployment.system.store.Unclaimed execution.job execution.token

end Deployment

namespace Store

private theorem saveSnapshot_refused {store after : Store} {job token : String}
    {planned : ImageSnapshot}
    {current : Instant} {row : JobRow}
    (refused : store.saveSnapshot job token planned current = .ok (after, false))
    (found : store.jobs.find? job = some row) (holds : row.claimToken = some token) :
    row.state ≠ .planning ∧ optionFits planned.expectedBytes = true := by
  unfold saveSnapshot at refused
  obtain ⟨overflows, refused⟩ := Guards.ok_of_guard refused
  refine ⟨fun isPlanning => ?_, by simpa using overflows⟩
  have one :
      store.jobs.count (fun row => row.holdsClaim job token && row.state = .planning) = 1 := by
    rw [store.jobs.count_eq_one_iff _ job fun row both =>
      (JobRow.holdsClaim_iff.mp ((Bool.and_eq_true _ _).mp both).1).1]
    refine ⟨row, found, ?_⟩
    rw [JobRow.holdsClaim_iff.mpr ⟨store.jobs.find?_key found, holds⟩, isPlanning]
    rfl
  rw [if_pos one] at refused
  obtain ⟨filled, -, impossible⟩ := Guards.ok_of_map refused
  cases impossible

private theorem saveSnapshot_of_not_planning {store : Store} {job : String} {row : JobRow}
    (found : store.jobs.find? job = some row) (notPlanning : row.state ≠ .planning)
    (token : String) {planned : ImageSnapshot} (fits : optionFits planned.expectedBytes = true)
    (current : Instant) :
    store.saveSnapshot job token planned current = .ok (store, false) := by
  have notOne : ¬ store.jobs.count
      (fun row => row.holdsClaim job token && row.state = .planning) = 1 := by
    rw [store.jobs.count_eq_one_iff _ job fun row both =>
      (JobRow.holdsClaim_iff.mp ((Bool.and_eq_true _ _).mp both).1).1]
    rintro ⟨other, otherFound, both⟩
    rw [found] at otherFound
    cases otherFound
    exact notPlanning (of_decide_eq_true ((Bool.and_eq_true _ _).mp both).2)
  simp only [saveSnapshot, fits, Bool.not_true, Bool.false_eq_true, if_false]
  exact if_neg notOne

private theorem progress_of_unplanned {store : Store} {job digest : String} {event : Event}
    (named : event.namedDigest = some digest)
    (missing : store.blobs.find? (job, digest) = none) (token : String) (current : Instant) :
    store.progress job token event current = .ok (store, false) := by
  simp only [progress, named, overflows, progressBlob, missing, Option.isSome_none, Bool.false_and,
    Bool.false_eq_true, if_false]

private theorem progress_refused {store after : Store} {job token : String} {event : Event}
    {current : Instant} (refused : store.progress job token event current = .ok (after, false))
    (held : ∃ row, store.jobs.find? job = some row ∧ row.claimToken = some token) :
    ∃ digest, event.namedDigest = some digest ∧ store.blobs.find? (job, digest) = none := by
  have one := (store.count_holdsClaim_eq_one job token).mpr held
  unfold progress at refused
  cases named : event.namedDigest with
  | none =>
      simp only [named, progressPhase] at refused
      split at refused
      · cases refused
      · rw [decide_eq_true one] at refused
        cases refused
  | some digest =>
      refine ⟨digest, rfl, ?_⟩
      cases blobFound : store.blobs.find? (job, digest) with
      | none => rfl
      | some blob =>
          simp only [named] at refused
          have written := (Guards.ok_of_guard refused).2
          simp only [progressBlob, blobFound] at written
          rw [show (store.recordBlob job digest event current).jobs = store.jobs from rfl,
            decide_eq_true one] at written
          cases written

end Store

private theorem Store.unclaimed_of_cleared {store : Store} {job token : String} {row : JobRow}
    (found : store.jobs.find? job = some row) (cleared : row.claimToken = none) :
    store.Unclaimed job token := by
  intro other otherFound
  rw [found] at otherFound
  cases otherFound
  rw [cleared]
  exact fun impossible => by cases impossible

namespace Execution

variable {config : ManagerConfig} {store : Store} {execution : Execution} {reading : Reading}
  {action : Action}

/-- The step on which an execution returns leaves the claim to nobody, when a
refusal at its await means that it is lost. -/
theorem unclaimed_of_returned
    (stepped : execution.step config store reading = some (action, .returned))
    (clear : execution.RefusalMeansLoss store)
    (held : ∃ row, store.jobs.find? execution.job = some row ∧
      row.claimToken = some execution.token) :
    ∃ transaction, action = .commit transaction ∧
      (transaction.commit store).Unclaimed execution.job execution.token := by
  obtain ⟨row, found, holds⟩ := held
  have advance := advance_of_step stepped
  unfold RefusalMeansLoss at clear
  generalize execution.point = here at advance clear
  generalize pointEq : Point.returned = next at advance
  cases advance with
  | notSaved refused =>
      obtain ⟨notPlanning, fits⟩ := Store.saveSnapshot_refused refused found holds
      exact absurd (clear fits row found holds) notPlanning
  | progressRefused refused =>
      obtain ⟨digest, named, missing⟩ := Store.progress_refused refused ⟨row, found, holds⟩
      exact absurd missing (clear row digest found holds named)
  | finished =>
      exact ⟨_, rfl, Store.unclaimed_of_cleared (Transaction.find?_finish found holds) rfl⟩
  | failureWritten =>
      exact ⟨_, rfl, Store.unclaimed_of_cleared (Transaction.find?_failOrRetry found holds) rfl⟩
  | @detailsMissing frame | @failureRaised frame => cases frame <;> cases pointEq
  | _ => cases pointEq

private theorem returned_of_ambiguous (ambiguous : ¬ execution.RefusalMeansLoss store)
    (config : ManagerConfig) (reading : Reading) :
    ¬ store.Unclaimed execution.job execution.token ∧
      ∃ transaction, transaction.commit store = store ∧
        execution.step config store reading = some (.commit transaction, .returned) := by
  cases pointEq : execution.point with
  | saveSnapshot details planned =>
      simp only [RefusalMeansLoss, pointEq, not_forall] at ambiguous
      obtain ⟨fits, row, found, holds, notPlanning⟩ := ambiguous
      have refused := Store.saveSnapshot_of_not_planning found notPlanning execution.token fits
        reading.current
      refine ⟨fun unclaimed => unclaimed row found holds,
        .call execution.job execution.token (.saveSnapshot planned) reading.current, ?_, ?_⟩
      · simp only [Transaction.commit, ClaimCall.run, refused]
      · simp only [step, pointEq, call, ClaimCall.run, refused]
  | progress details terminal event =>
      simp only [RefusalMeansLoss, pointEq, not_forall, ne_eq, not_not] at ambiguous
      obtain ⟨row, digest, found, holds, named, missing⟩ := ambiguous
      have refused := Store.progress_of_unplanned named missing execution.token reading.current
      refine ⟨fun unclaimed => unclaimed row found holds,
        .call execution.job execution.token (.progress event) reading.current, ?_, ?_⟩
      · simp only [Transaction.commit, ClaimCall.run, refused]
      · simp only [step, pointEq, call, ClaimCall.run, refused]
  | _ => exact absurd (by simp only [RefusalMeansLoss, pointEq]) ambiguous

private theorem exceptionAt_ne_returned {point next : Point} (led : exceptionAt point = some next) :
    next ≠ .returned := by
  unfold exceptionAt at led
  split at led <;> cases led <;> exact fun impossible => by cases impossible

private theorem cancelledAt_ne_returned (point : Point) : cancelledAt point ≠ .returned := by
  unfold cancelledAt
  split <;> exact fun impossible => by cases impossible

end Execution

namespace Deployment

variable {config : ManagerConfig} {before after : Deployment}

private theorem act_worker {label : Label} {action : Action} {workers : List Execution}
    (acted : before.act config label = some (action, workers)) {execution : Execution}
    (member : execution ∈ workers) :
    execution ∈ before.workers ∨
    (∃ index reading old, label = .work index reading ∧ before.workers[index]? = some old ∧
      execution.job = old.job ∧ execution.token = old.token ∧
      old.step config before.system.store reading = some (action, execution.point)) ∨
    (execution.point ≠ .returned ∧
      ((∃ old ∈ before.workers, execution.token = old.token) ∨
        ∃ worker leaseSeconds current,
          action = .commit (.claim worker leaseSeconds current execution.token))) := by
  rcases act_cases acted with ⟨-, rfl⟩ |
    ⟨worker, leaseSeconds, current, token, -, rfl, rfl | ⟨job, rfl⟩⟩ |
    ⟨index, old, point, found, rfl, ⟨reading, rfl, stepped⟩ | ⟨rfl, moved⟩⟩
  · exact Or.inl member
  · exact Or.inl member
  · rcases List.mem_append.mp member with there | isNew
    · exact Or.inl there
    · rw [List.mem_singleton.mp isNew]
      exact Or.inr (Or.inr ⟨(fun impossible => by cases impossible),
        Or.inr ⟨worker, leaseSeconds, current, rfl⟩⟩)
  · rcases mem_place found member with there | ⟨rfl, -⟩
    · exact Or.inl there
    · exact Or.inr (Or.inl ⟨index, reading, old, rfl, found, rfl, rfl, stepped⟩)
  · rcases mem_place found member with there | ⟨rfl, oldMember⟩
    · exact Or.inl there
    · refine Or.inr (Or.inr ⟨?_, Or.inl ⟨old, oldMember, rfl⟩⟩)
      rcases moved with ⟨-, led⟩ | ⟨error, rfl⟩ | ⟨-, rfl⟩
      · exact Execution.exceptionAt_ne_returned led
      · exact fun impossible => by cases impossible
      · exact Execution.cancelledAt_ne_returned old.point

def TokensAccounted (deployment : Deployment) : Prop :=
  ∀ execution ∈ deployment.workers, execution.token ∈ deployment.system.tokens ∧
    (execution.point = .returned →
      (deployment.system.lease execution.job).Lost execution.token)

private theorem tokensAccounted_step {label : Label} (clear : before.RefusalsMeanLoss label)
    (moved : before.next config label = some after) (accounted : before.TokensAccounted) :
    after.TokensAccounted := by
  obtain ⟨action, acted, stepped⟩ := next_eq_some.mp moved
  have grows := (System.next_drawn stepped).1
  intro execution member
  rcases act_worker acted member with there | ⟨index, reading, old, rfl, found, sameJob, sameToken,
    oldStep⟩ | ⟨notReturned, ⟨old, oldMember, sameToken⟩ | ⟨worker, leaseSeconds, current, rfl⟩⟩
  · obtain ⟨drawn, lost⟩ := accounted execution there
    exact ⟨grows drawn, fun returned =>
      (System.next_lease stepped execution.job).lost (lost returned)⟩
  · obtain ⟨drawn, -⟩ := accounted old (List.mem_of_getElem? found)
    rw [sameJob, sameToken]
    refine ⟨grows drawn, fun returned => ⟨grows drawn, ?_⟩⟩
    rw [returned] at oldStep
    by_cases held : ∃ row, before.system.store.jobs.find? old.job = some row ∧
        row.claimToken = some old.token
    · obtain ⟨transaction, rfl, unclaimed⟩ :=
        Execution.unclaimed_of_returned oldStep (clear old found) held
      have stored := System.next_commit_store stepped
      exact Store.unclaimed_iff_holder.mp (by rw [stored]; exact unclaimed)
    · have lost : (before.system.lease old.job).Lost old.token :=
        ⟨drawn, fun holder => held (System.holder_eq_some.mp holder)⟩
      exact ((System.next_lease stepped old.job).lost lost).2
  · rw [sameToken]
    exact ⟨grows (accounted old oldMember).1, fun returned => absurd returned notReturned⟩
  · exact ⟨(System.next_claim stepped).2, fun returned => absurd returned notReturned⟩

private theorem abandoned_of_ambiguous {label : Label}
    (moved : before.next config label = some after)
    (ambiguous : ¬ before.RefusalsMeanLoss label) : ¬ after.NoneAbandoned := by
  cases label with
  | environment | claim | exception | recover | cancelTask => exact absurd trivial ambiguous
  | work index reading =>
      simp only [RefusalsMeanLoss, not_forall] at ambiguous
      obtain ⟨execution, found, unclear⟩ := ambiguous
      obtain ⟨held, transaction, unchanged, stepped⟩ :=
        Execution.returned_of_ambiguous unclear config reading
      obtain ⟨action, acted, systemStepped⟩ := next_eq_some.mp moved
      simp only [act, found, Option.bind_some, stepped, Option.map_some, Option.some.injEq,
        Prod.mk.injEq] at acted
      obtain ⟨rfl, workersEq⟩ := acted
      have stored := System.next_commit_store systemStepped
      rw [unchanged] at stored
      intro noneAbandoned
      have placed : { execution with point := Point.returned } ∈ after.workers := by
        rw [← workersEq]
        exact List.mem_of_getElem? (List.getElem?_set_self (List.getElem?_eq_some_iff.mp found).1)
      have free := noneAbandoned _ placed rfl
      rw [stored] at free
      exact held free

end Deployment

/-- Workers that have returned own no job, in every state of a run in which a
refused snapshot or blob event always means a lost claim; any other refusal
leaves a job with a worker that has returned. -/
theorem returned_workers_own_nothing (config : ManagerConfig) :
    (∀ deployment, (deployed config).Run Deployment.RefusalsMeanLoss Deployment.initial deployment →
      deployment.NoneAbandoned) ∧
    (∀ before label after, (deployed config).next before label = some after →
      ¬ before.RefusalsMeanLoss label → ¬ after.NoneAbandoned) := by
  constructor
  · intro deployment run
    have accounted := run.preserves Deployment.TokensAccounted
      (fun before label after clear moved accounted =>
        Deployment.tokensAccounted_step clear moved accounted)
      (fun execution member => by cases member)
    intro execution member returned
    exact Store.unclaimed_iff_holder.mpr ((accounted execution member).2 returned).2
  · intro before label after moved ambiguous
    exact Deployment.abandoned_of_ambiguous moved ambiguous

/-- The service refuses the plan, and the worker records the failure and returns. -/
def planRefused : List Label :=
  [.environment (.commit (.enqueue sampleValues "job" 0)), .claim "manager-0" 60 1 "token",
    .work 0 (replied .done 2), .work 0 (replied .done 2), .work 0 (replied .done 2),
    .work 0 (replied .done 2),
    .work 0 (replied (.error (rejected "no such image" "transfer_failed")) 3),
    .work 0 (replied .done 3), .work 0 (replied .done 3), .work 0 (replied .done 3)]

def Execution.mayBeRefused (execution : Execution) : Bool :=
  match execution.point with
  | .saveSnapshot _ _ | .progress _ _ _ => true
  | _ => false

theorem returned_worker_after_refused_plan :
    ∃ deployment, (deployed sampleConfig).Reachable deployment ∧
      (∃ execution ∈ deployment.workers, execution.point = .returned) ∧
      deployment.NoneAbandoned := by
  have run : (((deployed sampleConfig).execute
      (fun state _ => state.workers.all (fun execution => !execution.mayBeRefused) = true)
      planRefused Deployment.initial).any fun deployment =>
        deployment.workers.any fun execution => execution.point = .returned) = true := by
    decide +kernel
  obtain ⟨deployment, ran, someReturned⟩ := (deployed sampleConfig).exists_run_of_execute _ run
  have admitted := ran.weaken Deployment.RefusalsMeanLoss (by
    intro state label certain
    cases label with
    | environment | claim | exception | recover | cancelTask => trivial
    | work index reading =>
        intro execution found
        have notRefused := List.all_eq_true.mp certain execution (List.mem_of_getElem? found)
        unfold Execution.RefusalMeansLoss
        cases pointEq : execution.point <;>
          first | trivial | simp [Execution.mayBeRefused, pointEq] at notRefused)
  obtain ⟨execution, member, returned⟩ := List.any_eq_true.mp someReturned
  exact ⟨deployment, ⟨Deployment.initial, rfl, ran.always⟩,
    ⟨execution, member, of_decide_eq_true returned⟩,
    (returned_workers_own_nothing sampleConfig).1 deployment admitted⟩

def unplannedBlobEvent : Event :=
  { verifyingEvent with
    kind := .progress
    digest := some "sha256:ee"
    phase := none
    offset := some 1 }

/-- An event for a blob that was not planned sends the worker back to claiming
with the job still its own. -/
theorem unplanned_blob_abandons_job :
    ¬ ∀ deployment, (deployed sampleConfig).Reachable deployment → deployment.NoneAbandoned := by
  intro claimed
  have run : (((deployed sampleConfig).execute Machine.Always
      (untilStreaming ++ [.work 0 (replied (.event unplannedBlobEvent) 3),
        .work 0 (replied .done 3), .work 0 (replied .done 3)]) Deployment.initial).any
      fun deployment => deployment.workers = [⟨"job", "token", .returned⟩] &&
        (deployment.system.store.jobs.find? "job").any fun row =>
          row.claimToken = some "token") = true := by decide +kernel
  obtain ⟨deployment, reached, both⟩ := (deployed sampleConfig).exists_reachable_of_execute rfl run
  obtain ⟨workersEq, holds⟩ := (Bool.and_eq_true _ _).mp both
  obtain ⟨row, found, carries⟩ := (Option.any_eq_true _ _).mp holds
  have member : (⟨"job", "token", .returned⟩ : Execution) ∈ deployment.workers := by
    rw [of_decide_eq_true workersEq]
    exact List.mem_singleton.mpr rfl
  exact claimed deployment reached _ member rfl row found (of_decide_eq_true carries)

end OciTransfer
