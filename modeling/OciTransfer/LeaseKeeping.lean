import OciTransfer.ClaimHistory
import OciTransfer.Removal

/-!
Heartbeats.

While a worker executes a job, a loop renews the lease of its claim.  As long as
no claim of another worker comes later than one lease after the last beat, the
job stays with its worker, whatever else happens to the queue: only the worker's
own reports and the release of its manager end the claim.
-/

namespace OciTransfer

structure KeptClaim where
  job : String
  token : String
  worker : String
  leaseSeconds : Int
  deriving DecidableEq, Repr

namespace KeptClaim

variable (claim : KeptClaim)

def beat? : Action → Option Instant
  | .commit (.call job token (.heartbeat _) current) =>
      if job = claim.job ∧ token = claim.token then some current else none
  | _ => none

/-- No claim comes later than one lease after the last beat, and the loop asks
for the same lease each time. -/
def inTime (lastBeat : Instant) : Action → Bool
  | .commit (.claim _ _ current _) => current ≤ lastBeat + seconds claim.leaseSeconds
  | .commit (.call job token (.heartbeat leaseSeconds) _) =>
      if job = claim.job ∧ token = claim.token then leaseSeconds = claim.leaseSeconds else true
  | _ => true

/-- The calls by which a worker reports the end of its work on the job, and the
release of its manager. -/
def ends : Action → Bool
  | .commit (.call job token request _) =>
      job = claim.job && token = claim.token &&
        match request with
        | .finish .. | .failOrRetry _ | .releaseClaim => true
        | .heartbeat _ | .saveSnapshot _ | .progress _ => false
  | .commit (.release workerPrefix _) =>
      claim.worker = workerPrefix || sqlLike (workerPrefix ++ "-%").toList claim.worker.toList
  | _ => false

def beating : Machine (System × Instant) Action :=
  { start := fun state => state.1 = System.initial
    next := fun state action =>
      (interleaved.next state.1 action).map fun after =>
        (after, (claim.beat? action).getD state.2) }

/-- The beats come in time, no write is late, and nobody entitled to ends the claim. -/
def Kept : System × Instant → Action → Prop :=
  fun state action => state.1.UpToDate action ∧
    claim.inTime state.2 action = true ∧ claim.ends action = false

instance : DecidableRel claim.Kept := fun _ _ => inferInstanceAs (Decidable (_ ∧ _ ∧ _))

/-- The job is with the worker of the claim, under its token, until one lease
after the last beat. -/
def Holds (system : System) (lastBeat : Instant) : Prop :=
  ∃ row, system.store.jobs.find? claim.job = some row ∧ row.claimToken = some claim.token ∧
    row.workerId = some claim.worker ∧
    row.leaseExpiresAt = some (lastBeat + seconds claim.leaseSeconds) ∧ row.state.claimed = true

variable {claim} {before after : System} {lastBeat : Instant}

/-- A heartbeat of the loop, at any time, is accepted. -/
theorem heartbeat_of_holds (holds : claim.Holds before lastBeat) (leaseSeconds : Int)
    (current : Instant) :
    (before.store.heartbeat claim.job claim.token leaseSeconds current).2 = true ∧
      ∃ row, before.store.jobs.find? claim.job = some row ∧
        ((Transaction.call claim.job claim.token (.heartbeat leaseSeconds) current).commit
          before.store).jobs.find? claim.job = some (row.beat leaseSeconds current) := by
  obtain ⟨row, found, token, -, -, claimed⟩ := holds
  have selected : (row.holdsClaim claim.job claim.token && !row.state.terminal) = true := by
    rw [JobRow.holdsClaim_iff.mpr ⟨before.store.jobs.find?_key found, token⟩,
      JobState.not_terminal_of_claimed claimed]
    rfl
  constructor
  · refine decide_eq_true ((before.store.jobs.count_eq_one_iff _ claim.job fun other both => ?_).mpr
      ⟨row, found, selected⟩)
    exact (JobRow.holdsClaim_iff.mp ((Bool.and_eq_true _ _).mp both).1).1
  · exact ⟨row, found, Store.find?_updateJobs_selected found selected⟩

private theorem not_eligible_of_holds {row : JobRow} {current : Instant}
    (lease : row.leaseExpiresAt = some (lastBeat + seconds claim.leaseSeconds))
    (worker : row.workerId = some claim.worker) (claimed : row.state.claimed = true)
    (inTime : current ≤ lastBeat + seconds claim.leaseSeconds) :
    row.eligible current = false ∧ row.sweepDue current = false := by
  have notBefore : row.leaseBefore current = false := by
    unfold JobRow.leaseBefore
    rw [lease, Option.any_some]
    exact decide_eq_false (not_lt.mpr inTime)
  constructor
  · refine Bool.eq_false_iff.mpr fun eligible => ?_
    rcases JobRow.eligible_iff.mp eligible with queued | ⟨waiting, -⟩ | ⟨-, expired⟩
    · rw [queued] at claimed
      cases claimed
    · rw [waiting] at claimed
      cases claimed
    · rw [notBefore] at expired
      cases expired
  · refine Bool.eq_false_iff.mpr fun due => ?_
    rcases (JobRow.sweepDue_iff.mp due).2 with nobody | expired
    · rw [worker] at nobody
      cases nobody
    · rw [notBefore] at expired
      cases expired

private theorem claimed_kept {transaction : Transaction} {old row : JobRow}
    (changed : RowStep transaction old row) (upToDate : transaction.UpToDate old)
    (isJob : old.id = claim.job) (token : old.claimToken = some claim.token)
    (worker : old.workerId = some claim.worker)
    (lease : old.leaseExpiresAt = some (lastBeat + seconds claim.leaseSeconds))
    (claimed : old.state.claimed = true)
    (inTime : claim.inTime lastBeat (.commit transaction) = true)
    (notEnds : claim.ends (.commit transaction) = false)
    (notBeat : claim.beat? (.commit transaction) = none) :
    row.claimToken = some claim.token ∧ row.workerId = some claim.worker ∧
      row.leaseExpiresAt = some (lastBeat + seconds claim.leaseSeconds) ∧
      row.state.claimed = true := by
  have isOwn : ∀ {job token : String}, old.id = job → old.claimToken = some token →
      job = claim.job ∧ token = claim.token := by
    intro job other sameId holds
    rw [token] at holds
    exact ⟨sameId.symm.trans isJob, (Option.some.inj holds).symm⟩
  cases changed with
  | swept due =>
      rw [(not_eligible_of_holds lease worker claimed (of_decide_eq_true inTime)).2] at due
      cases due
  | taken eligible =>
      rw [(not_eligible_of_holds lease worker claimed (of_decide_eq_true inTime)).1] at eligible
      cases eligible
  | beat sameId holds _live =>
      simp only [beat?, if_pos (isOwn sameId holds)] at notBeat
      cases notBeat
  | pinned _sameId _holds _planning => exact ⟨token, worker, lease, rfl⟩
  | entered _sameId _holds _named wanted =>
      exact ⟨token, worker, lease, JobState.claimed_of_working (phase_working wanted).1⟩
  | tallied _sameId _holds _named => exact ⟨token, worker, lease, claimed⟩
  | finished sameId holds | failed sameId holds | givenBack sameId holds =>
      obtain ⟨isJob, isToken⟩ := isOwn sameId holds
      simp only [ends, isJob, isToken, decide_true, Bool.and_self, Bool.true_eq_false] at notEnds
  | released owned _working =>
      unfold JobRow.ownedBy at owned
      rw [worker, Option.any_some] at owned
      simp only [ends] at notEnds
      rw [owned] at notEnds
      cases notEnds
  | @cancelWritten _ target _ _ sameId =>
      cases target with
      | cancelled =>
          rcases Store.waiting_of_cancelTarget (upToDate sameId) with queued | waiting
          · rw [queued] at claimed
            cases claimed
          · rw [waiting] at claimed
            cases claimed
      | cancelRequested => exact ⟨token, worker, lease, rfl⟩
  | retryWritten sameId =>
      have isFailed : old.state = .failed := upToDate sameId
      rw [isFailed] at claimed
      cases claimed

/-- One admitted move that does not end the claim keeps it. -/
theorem holds_step (holds : claim.Holds before lastBeat) {action : Action}
    (upToDate : before.UpToDate action) (inTime : claim.inTime lastBeat action = true)
    (notEnds : claim.ends action = false) (moved : before.next action = some after) :
    claim.Holds after ((claim.beat? action).getD lastBeat) := by
  cases isBeat : claim.beat? action with
  | some current =>
      unfold beat? at isBeat
      split at isBeat
      · rename_i job token leaseSeconds beatAt
        split at isBeat
        · rename_i own
          obtain ⟨rfl, rfl⟩ := own
          cases isBeat
          have sameLease : leaseSeconds = claim.leaseSeconds := by
            simp only [KeptClaim.inTime, and_self, if_true] at inTime
            exact of_decide_eq_true inTime
          subst sameLease
          obtain ⟨-, row, found, renewed⟩ := heartbeat_of_holds holds claim.leaseSeconds current
          obtain ⟨same, sameFound, token, worker, -, claimed⟩ := holds
          rw [found] at sameFound
          cases sameFound
          rw [← System.next_commit_store moved] at renewed
          exact ⟨_, renewed, token, worker, rfl, claimed⟩
        · cases isBeat
      · cases isBeat
  | none =>
      obtain ⟨row, found, token, worker, lease, claimed⟩ := holds
      cases afterFound : after.store.jobs.find? claim.job with
      | none =>
          rcases System.next_store moved with same | ⟨transaction, rfl, committed⟩
          · rw [same, found] at afterFound
            cases afterFound
          · rw [committed] at afterFound
            have terminal := (Transaction.removes found afterFound).1
            rw [JobState.not_terminal_of_claimed claimed] at terminal
            cases terminal
      | some later =>
          refine ⟨later, afterFound, ?_⟩
          rcases System.next_row moved afterFound with
            ⟨old, present, unchanged | ⟨transaction, rfl, changed⟩⟩ | ⟨absent, -⟩
          · rw [found] at present
            cases present
            rw [unchanged]
            exact ⟨token, worker, lease, claimed⟩
          · rw [found] at present
            cases present
            exact claimed_kept changed (upToDate row (before.store.jobs.find?_mem found))
              (before.store.jobs.find?_key found) token worker lease claimed inTime notEnds isBeat
          · rw [found] at absent
            cases absent

private theorem holds_of_claim {worker token : String} {leaseSeconds : Int} {current : Instant}
    {record : CopyJob} {carried : String}
    (moved : before.next (.commit (.claim worker leaseSeconds current token)) = some after)
    (claimed : (before.store.claim worker leaseSeconds current token).2 = some (record, carried)) :
    KeptClaim.Holds { job := record.id, token, worker, leaseSeconds } after current := by
  obtain ⟨-, row, found⟩ := Store.found_of_claim claimed
  rcases Store.claim_row found worker token leaseSeconds current with
    ⟨-, -, -, taken⟩ | ⟨other, -⟩
  · have takenFound : after.store.jobs.find? record.id =
        some (row.take worker token leaseSeconds current) := by
      rw [System.next_commit_store moved]
      exact taken
    refine ⟨_, takenFound, rfl, rfl, rfl, ?_⟩
    cases stored : row.snapshotJson <;> simp [JobRow.take, stored, JobState.claimed,
      JobState.working]
  · exact absurd rfl (other record carried claimed)

private theorem unclaimed_of_holds (holds : claim.Holds before lastBeat) {worker token : String}
    {leaseSeconds : Int} {current : Instant}
    (inTime : current ≤ lastBeat + seconds claim.leaseSeconds) {record : CopyJob} {carried : String}
    (claimed : (before.store.claim worker leaseSeconds current token).2 = some (record, carried)) :
    record.id ≠ claim.job := by
  intro same
  obtain ⟨row, found, -, isWorker, lease, isClaimed⟩ := holds
  have notEligible := (not_eligible_of_holds lease isWorker isClaimed inTime).1
  rw [Store.claim_result] at claimed
  obtain ⟨first, isHead, made⟩ := Option.map_eq_some_iff.mp claimed
  cases made
  obtain ⟨member, eligible⟩ := Store.mem_eligibleRows.mp (List.mem_of_head? isHead)
  have isRow : before.store.jobs.find? claim.job = some first :=
    before.store.jobs.find?_eq_some.mpr ⟨member, same⟩
  rw [found] at isRow
  cases isRow
  rw [eligible] at notEligible
  cases notEligible

end KeptClaim

/-- From its claim on, a worker that beats keeps its job.  In every run in which no
write is late, no claim of any worker comes later than one lease after the last beat,
and neither the worker reports an end nor its manager releases it, the job stays with
it, every heartbeat is accepted, and no claim in time returns the job. -/
theorem heartbeats_keep_the_claim {before granted : System} {worker token : String}
    {leaseSeconds : Int} {current : Instant} {record : CopyJob} {carried : String}
    (moved : before.next (.commit (.claim worker leaseSeconds current token)) = some granted)
    (claimed : (before.store.claim worker leaseSeconds current token).2 = some (record, carried))
    {claim : KeptClaim} (isClaim : claim = { job := record.id, token, worker, leaseSeconds })
    {last : System × Instant} (run : claim.beating.Run claim.Kept (granted, current) last) :
    claim.Holds last.1 last.2 ∧
    (∀ later, (last.1.store.heartbeat claim.job claim.token claim.leaseSeconds later).2 = true) ∧
    ∀ other lease later drawn found, later ≤ last.2 + seconds claim.leaseSeconds →
      (last.1.store.claim other lease later drawn).2 = some found → found.1.id ≠ claim.job := by
  have holds : claim.Holds last.1 last.2 := by
    refine run.preserves (fun state => claim.Holds state.1 state.2) ?_ ?_
    · rintro state action after ⟨upToDate, inTime, notEnds⟩ stepped holds
      obtain ⟨system, next, rfl⟩ := Option.map_eq_some_iff.mp stepped
      exact KeptClaim.holds_step holds upToDate inTime notEnds next
    · rw [isClaim]
      exact KeptClaim.holds_of_claim moved claimed
  refine ⟨holds, fun later => ?_, ?_⟩
  · exact (KeptClaim.heartbeat_of_holds holds claim.leaseSeconds later).1
  · rintro other lease later drawn ⟨found, carried⟩ inTime isFound
    exact KeptClaim.unclaimed_of_holds holds inTime isFound

/-- Another worker looks for a job when the lease of the claim itself would have run
out, but not that of the beat in between. -/
def beatenBetween : List Action :=
  [.commit (.call "job" "token" (.heartbeat 60) 40000000),
    .commit (.claim "other" 60 90000000 "late")]

def sampleClaim : KeptClaim :=
  { job := "job"
    token := "token"
    worker := "worker"
    leaseSeconds := 60 }

theorem heartbeats_keep_the_claim_over_one_lease :
    ∃ granted last, sampleClaim.beating.Run sampleClaim.Kept (granted, 1) last ∧
      sampleClaim.Holds last.1 last.2 ∧ last.2 = 40000000 := by
  have runs : ((interleaved.execute Machine.Always [.commit (.enqueue sampleValues "job" 0)]
      System.initial).any fun before =>
        ((before.store.claim "worker" 60 1 "token").2.any fun claimed =>
          claimed.1.id = "job") &&
        (before.next (.commit (.claim "worker" 60 1 "token"))).any fun granted =>
          (sampleClaim.beating.execute sampleClaim.Kept beatenBetween (granted, 1)).any
            fun last => last.2 = 40000000) = true := by
    decide
  obtain ⟨before, -, both⟩ := interleaved.exists_run_of_execute Machine.Always runs
  obtain ⟨claims, continues⟩ := (Bool.and_eq_true _ _).mp both
  obtain ⟨⟨record, carried⟩, isClaimed, isJob⟩ := (Option.any_eq_true _ _).mp claims
  obtain ⟨granted, moved, beats⟩ := (Option.any_eq_true _ _).mp continues
  obtain ⟨last, run, tested⟩ := sampleClaim.beating.exists_run_of_execute sampleClaim.Kept beats
  have sameClaim : sampleClaim =
      { job := record.id
        token := "token"
        worker := "worker"
        leaseSeconds := 60 } := by
    rw [of_decide_eq_true isJob]
    rfl
  obtain ⟨holds, -⟩ := heartbeats_keep_the_claim moved isClaimed sameClaim run
  exact ⟨granted, last, run, holds, of_decide_eq_true tested⟩

end OciTransfer
