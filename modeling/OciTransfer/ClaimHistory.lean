import OciTransfer.ClaimFencing
import OciTransfer.ClaimOrder
import OciTransfer.RecordedRuns
import OciTransfer.SnapshotPinning

/-!
The claims of a job.

The record of a run holds every claim the store has handed out.  The run count of
a job is the number of its claims, its start time is that of the first, and who
holds it now is the last.
-/

namespace OciTransfer

structure Grant where
  job : String
  token : String
  worker : String
  current : Instant
  deriving DecidableEq, Repr

def grantReport (before : System) (action : Action) (_after : System) : List Grant :=
  match action with
  | .commit (.claim worker leaseSeconds current token) =>
      match (before.store.claim worker leaseSeconds current token).2 with
      | some (job, carried) =>
          [{ job := job.id, token := carried, worker := worker, current := current }]
      | none => []
  | _ => []

def grantsOf (log : List Grant) (job : String) : List Grant :=
  log.filter fun grant => grant.job = job

namespace Store

variable {store : Store} {job : String} {old : JobRow}

/-- A claim hands the job out, or leaves its row alone but for the sweep. -/
theorem claim_row (found : store.jobs.find? job = some old) (worker token : String)
    (leaseSeconds : Int) (current : Instant) :
    (∃ record, (store.claim worker leaseSeconds current token).2 = some (record, token) ∧
      record.id = job ∧ (store.claim worker leaseSeconds current token).1.jobs.find? job =
        some (old.take worker token leaseSeconds current)) ∨
    ((∀ record carried, (store.claim worker leaseSeconds current token).2 = some (record, carried) →
      record.id ≠ job) ∧
      ((store.claim worker leaseSeconds current token).1.jobs.find? job = some old ∨
        (store.claim worker leaseSeconds current token).1.jobs.find? job =
          some (old.sweep current))) := by
  have sweptRow : (store.sweep current).jobs.find? job =
      some (if old.sweepDue current then old.sweep current else old) := by
    unfold sweep
    rw [find?_updateJobs, found, Option.map_some]
  have sweptOr : (store.sweep current).jobs.find? job = some old ∨
      (store.sweep current).jobs.find? job = some (old.sweep current) := by
    rw [sweptRow]
    split
    · exact Or.inr rfl
    · exact Or.inl rfl
  cases chosen : ((store.sweep current).eligibleRows current).head? with
  | none =>
      right
      simp only [claim, chosen]
      exact ⟨fun record carried impossible => (by cases impossible), sweptOr⟩
  | some first =>
      simp only [claim, chosen]
      by_cases same : first.id = job
      · left
        refine ⟨_, rfl, same, ?_⟩
        obtain ⟨member, eligible⟩ := mem_eligibleRows.mp (List.mem_of_head? chosen)
        have isFirst : (store.sweep current).jobs.find? job = some first :=
          (store.sweep current).jobs.find?_eq_some.mpr ⟨member, same⟩
        have isOld : first = old := by
          rw [isFirst] at sweptRow
          split at sweptRow
          · rw [Option.some.inj sweptRow, JobRow.sweep_not_eligible] at eligible
            cases eligible
          · exact Option.some.inj sweptRow
        unfold takeJob
        rw [find?_updateJobs, isFirst, Option.map_some, if_pos (decide_eq_true rfl), isOld]
      · right
        refine ⟨fun record carried isRecord => ?_, ?_⟩
        · cases isRecord
          exact same
        · unfold takeJob
          rw [find?_updateJobs]
          rcases sweptOr with kept | swept
          · left
            have otherId : old.id ≠ first.id := fun sameId =>
              same (sameId.symm.trans (store.jobs.find?_key found))
            rw [kept, Option.map_some, decide_eq_false otherId, if_neg Bool.false_ne_true]
          · right
            have otherId : (old.sweep current).id ≠ first.id := fun sameId =>
              same (sameId.symm.trans ((store.sweep current).jobs.find?_key swept))
            rw [swept, Option.map_some, decide_eq_false otherId, if_neg Bool.false_ne_true]

theorem found_of_claim {worker token : String} {leaseSeconds : Int} {current : Instant}
    {record : CopyJob} {carried : String}
    (claimed : (store.claim worker leaseSeconds current token).2 = some (record, carried)) :
    carried = token ∧ ∃ row, store.jobs.find? record.id = some row := by
  rw [claim_result] at claimed
  obtain ⟨row, isHead, made⟩ := Option.map_eq_some_iff.mp claimed
  cases made
  have member := (mem_eligibleRows.mp (List.mem_of_head? isHead)).1
  exact ⟨rfl, row, store.jobs.find?_eq_some.mpr ⟨member, rfl⟩⟩

end Store

private theorem RowStep.claim_columns {transaction : Transaction} {old row : JobRow}
    (changed : RowStep transaction old row)
    (notClaim : ∀ worker leaseSeconds current token,
      transaction ≠ .claim worker leaseSeconds current token) :
    row.runCount = old.runCount ∧ row.startedAt = old.startedAt ∧
      ((row.claimToken = old.claimToken ∧ row.workerId = old.workerId) ∨
        (row.claimToken = none ∧ row.workerId = none)) := by
  cases changed with
  | swept | taken => exact absurd rfl (notClaim _ _ _ _)
  | beat | pinned | entered | tallied | cancelWritten | retryWritten =>
      exact ⟨rfl, rfl, Or.inl ⟨rfl, rfl⟩⟩
  | finished | failed | givenBack | released => exact ⟨rfl, rfl, Or.inr ⟨rfl, rfl⟩⟩

/-- The row of a job says how often it has been claimed, when first, and by whom last. -/
structure JobRow.Counts (row : JobRow) (grants : List Grant) : Prop where
  runs : row.runCount = grants.length
  started : row.startedAt = grants.head?.map fun grant => grant.current
  token : ∀ token, row.claimToken = some token →
    grants.getLast?.map (fun grant => grant.token) = some token
  worker : ∀ worker, row.workerId = some worker →
    grants.getLast?.map (fun grant => grant.worker) = some worker

/-- The record names drawn tokens and jobs, and the row of each stored job follows it. -/
structure GrantRecord (system : System) (log : List Grant) : Prop where
  drawn : ∀ grant ∈ log, grant.job ∈ system.jobIds ∧ grant.token ∈ system.tokens
  once : (log.map fun grant => grant.token).Nodup
  counts : ∀ job row, system.store.jobs.find? job = some row → row.Counts (grantsOf log job)

namespace JobRow.Counts

variable {row old : JobRow} {grants : List Grant}

private theorem sameClaims (counts : old.Counts grants) (runs : row.runCount = old.runCount)
    (started : row.startedAt = old.startedAt)
    (holder : (row.claimToken = old.claimToken ∧ row.workerId = old.workerId) ∨
      (row.claimToken = none ∧ row.workerId = none)) : row.Counts grants where
  runs := runs.trans counts.runs
  started := started.trans counts.started
  token := by
    intro token held
    rcases holder with ⟨same, -⟩ | ⟨cleared, -⟩
    · exact counts.token token (same.symm.trans held)
    · rw [cleared] at held
      cases held
  worker := by
    intro worker held
    rcases holder with ⟨-, same⟩ | ⟨-, cleared⟩
    · exact counts.worker worker (same.symm.trans held)
    · rw [cleared] at held
      cases held

theorem take (counts : old.Counts grants) (worker token : String) (leaseSeconds : Int)
    (current : Instant) {grant : Grant} (isToken : grant.token = token)
    (isWorker : grant.worker = worker) (isCurrent : grant.current = current) :
    (old.take worker token leaseSeconds current).Counts (grants ++ [grant]) where
  runs := by
    rw [List.length_append, List.length_singleton, ← counts.runs]
    rfl
  started := by
    change old.startedAt.or (some current) = _
    rw [counts.started, List.head?_append, ← isCurrent]
    cases grants.head? <;> rfl
  token := by
    intro held same
    rw [List.getLast?_concat, Option.map_some, isToken]
    exact same
  worker := by
    intro held same
    rw [List.getLast?_concat, Option.map_some, isWorker]
    exact same

end JobRow.Counts

private theorem grantsOf_append (log later : List Grant) (job : String) :
    grantsOf (log ++ later) job = grantsOf log job ++ grantsOf later job :=
  List.filter_append log later

private theorem grantsOf_other {log : List Grant} {job : String}
    (other : ∀ grant ∈ log, grant.job ≠ job) :
    grantsOf log job = [] :=
  List.filter_eq_nil_iff.mpr fun grant member same => other grant member (of_decide_eq_true same)

private theorem grantReport_other {before after : System} {action : Action}
    (notClaim : ∀ worker leaseSeconds current token,
      action ≠ .commit (.claim worker leaseSeconds current token)) :
    grantReport before action after = [] := by
  unfold grantReport
  split
  · exact absurd rfl (notClaim _ _ _ _)
  · rfl

private theorem mem_grantReport {before after : System} {worker token : String} {leaseSeconds : Int}
    {current : Instant} {grant : Grant}
    (reported :
      grant ∈ grantReport before (.commit (.claim worker leaseSeconds current token)) after) :
    grant.token = token ∧ ∃ row, before.store.jobs.find? grant.job = some row := by
  simp only [grantReport] at reported
  split at reported
  · rename_i record carried claimed
    rw [List.mem_singleton.mp reported]
    exact Store.found_of_claim claimed
  · cases reported

namespace GrantRecord

variable {before after : System} {action : Action} {log : List Grant}

private theorem other_step (record : GrantRecord before log)
    (moved : before.next action = some after)
    (notClaim : ∀ worker leaseSeconds current token,
      action ≠ .commit (.claim worker leaseSeconds current token)) :
    GrantRecord after (log ++ grantReport before action after) := by
  rw [grantReport_other notClaim, List.append_nil]
  have grows := System.next_drawn moved
  refine ⟨fun grant member => ?_, record.once, fun job row found => ?_⟩
  · exact ⟨grows.2 (record.drawn grant member).1, grows.1 (record.drawn grant member).2⟩
  · rcases System.next_row moved found with
      ⟨old, present, rfl | ⟨transaction, isCommit, changed⟩⟩ | ⟨-, undrawn, -, values, current, rfl⟩
    · exact record.counts job row present
    · obtain ⟨runs, started, holder⟩ := changed.claim_columns
        fun worker leaseSeconds current token same =>
          notClaim worker leaseSeconds current token (isCommit.trans (congrArg Action.commit same))
      exact (record.counts job old present).sameClaims runs started holder
    · have unclaimed : grantsOf log job = [] := grantsOf_other fun grant member same => by
        rw [← same] at undrawn
        exact undrawn (record.drawn grant member).1
      rw [unclaimed]
      exact ⟨rfl, rfl, fun _ impossible => (by cases impossible),
        fun _ impossible => by cases impossible⟩

private theorem claim_step {worker token : String} {leaseSeconds : Int} {current : Instant}
    (record : GrantRecord before log) (reached : interleaved.Reachable before)
    (moved : before.next (.commit (.claim worker leaseSeconds current token)) = some after) :
    GrantRecord after
      (log ++ grantReport before (.commit (.claim worker leaseSeconds current token)) after) := by
  have grows := System.next_drawn moved
  obtain ⟨fresh, drawnAfter⟩ := System.next_claim moved
  have committed := System.next_commit_store moved
  refine ⟨fun grant member => ?_, ?_, fun job row found => ?_⟩
  · rcases List.mem_append.mp member with earlier | reported
    · exact ⟨grows.2 (record.drawn grant earlier).1, grows.1 (record.drawn grant earlier).2⟩
    · obtain ⟨isToken, row, found⟩ := mem_grantReport reported
      rw [isToken]
      exact ⟨grows.2 (System.drawn_of_found reached found), drawnAfter⟩
  · rw [List.map_append, List.nodup_append]
    refine ⟨record.once, ?_, ?_⟩
    · simp only [grantReport]
      split <;> simp
    · intro drawn earlier reported isReported same
      obtain ⟨grant, member, rfl⟩ := List.mem_map.mp earlier
      obtain ⟨new, isNew, rfl⟩ := List.mem_map.mp isReported
      rw [(mem_grantReport isNew).1] at same
      exact fresh (same ▸ (record.drawn grant member).2)
  · rw [committed] at found
    have stored : ∃ old, before.store.jobs.find? job = some old := by
      rcases System.next_row moved (committed ▸ found) with
        ⟨old, present, -⟩ | ⟨-, undrawn, drawn, -⟩
      · exact ⟨old, present⟩
      · have sameIds : after.jobIds = before.jobIds := by
          rcases System.next_commit moved with ⟨-, -, rfl⟩ | ⟨write, impossible, -, -⟩
          · rfl
          · cases impossible
        exact absurd (sameIds ▸ drawn) undrawn
    obtain ⟨old, present⟩ := stored
    have counts := record.counts job old present
    rw [grantsOf_append]
    rcases Store.claim_row present worker token leaseSeconds current with
      ⟨claimed, isClaimed, sameJob, takenRow⟩ | ⟨otherJob, kept | swept⟩
    · have isTaken : old.take worker token leaseSeconds current = row :=
        Option.some.inj (takenRow.symm.trans found)
      have reported : grantsOf (grantReport before
          (.commit (.claim worker leaseSeconds current token)) after) job =
          [{ job := claimed.id, token := token, worker := worker, current := current }] := by
        simp only [grantReport, isClaimed, grantsOf]
        rw [List.filter_singleton, decide_eq_true sameJob]
        rfl
      rw [reported, ← isTaken]
      exact counts.take worker token leaseSeconds current rfl rfl rfl
    all_goals
      have unreported : grantsOf (grantReport before
          (.commit (.claim worker leaseSeconds current token)) after) job = [] := by
        refine grantsOf_other fun grant member => ?_
        simp only [grantReport] at member
        split at member
        · rename_i record carried isClaimed
          rw [List.mem_singleton.mp member]
          exact otherJob record carried isClaimed
        · cases member
      rw [unreported, List.append_nil]
    · rw [← Option.some.inj (kept.symm.trans found)]
      exact counts
    · rw [← Option.some.inj (swept.symm.trans found)]
      exact counts.sameClaims rfl rfl (Or.inr ⟨rfl, rfl⟩)

end GrantRecord

/-- In every concurrent run, in which every claim draws a fresh token, no token is handed
out twice, and the row of a stored job has been claimed as often as its run count says,
first at its start time, and last under the token and by the worker it names, if it
names any. -/
theorem claims_are_counted {state : System × List Grant}
    (reached : (interleaved.recorded grantReport).Reachable state) :
    (state.2.map fun grant => grant.token).Nodup ∧
    ∀ job row, state.1.store.jobs.find? job = some row →
      row.runCount = (grantsOf state.2 job).length ∧
      row.startedAt = ((grantsOf state.2 job).head?.map fun grant => grant.current) ∧
      (∀ token, row.claimToken = some token →
        (grantsOf state.2 job).getLast?.map (fun grant => grant.token) = some token) ∧
      ∀ worker, row.workerId = some worker →
        (grantsOf state.2 job).getLast?.map (fun grant => grant.worker) = some worker := by
  have record : GrantRecord state.1 state.2 := by
    refine Machine.Reachable.recorded_invariant GrantRecord ?_ ?_ reached
    · rintro system rfl
      exact ⟨fun grant member => (by cases member), List.nodup_nil,
        fun job row found => by cases found⟩
    · intro before action after log reachedBefore moved record
      by_cases isClaim : ∃ worker leaseSeconds current token,
          action = .commit (.claim worker leaseSeconds current token)
      · obtain ⟨worker, leaseSeconds, current, token, rfl⟩ := isClaim
        exact record.claim_step reachedBefore moved
      · exact record.other_step moved fun worker leaseSeconds current token same =>
          isClaim ⟨worker, leaseSeconds, current, token, same⟩
  refine ⟨record.once, fun job row found => ?_⟩
  have counts := record.counts job row found
  exact ⟨counts.runs, counts.started, counts.token, counts.worker⟩

theorem claims_are_counted_over_two_claims :
    ∃ state row, (interleaved.recorded grantReport).Reachable state ∧
      state.1.store.jobs.find? "job" = some row ∧ row.runCount = 2 ∧
      (grantsOf state.2 "job").length = 2 := by
  have runs : (((interleaved.recorded grantReport).execute Machine.Always pinnedByTheSecond
      (System.initial, [])).any fun state =>
        (state.1.store.jobs.find? "job").any fun row => row.runCount = 2) = true := by decide
  have started : (interleaved.recorded grantReport).start (System.initial, []) := ⟨rfl, rfl⟩
  obtain ⟨state, reached, stored⟩ :=
    (interleaved.recorded grantReport).exists_reachable_of_execute started runs
  obtain ⟨row, found, twice⟩ := (Option.any_eq_true _ _).mp stored
  have counted := ((claims_are_counted reached).2 "job" row found).1
  rw [of_decide_eq_true twice] at counted
  exact ⟨state, row, reached, found, of_decide_eq_true twice, counted.symm⟩

end OciTransfer
