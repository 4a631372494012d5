import OciTransfer.RowLifecycle

/-!
Which job a claim returns.

A claim takes the first of the eligible rows in the order of creation time and
identifier.  The row it took carries a lease that has not run out, so it drops
out of the eligible rows and the next claim takes the next one.
-/

namespace OciTransfer

/-- The arguments of one call of `claim`, apart from the clock. -/
structure ClaimRequest where
  worker : String
  leaseSeconds : Int
  token : String
  deriving DecidableEq, Repr

/-- What a call returns when it takes this row. -/
def ClaimRequest.granted (request : ClaimRequest) (current : Instant) (row : JobRow) :
    CopyJob × String :=
  ((row.take request.worker request.token request.leaseSeconds current).toCopyJob, request.token)

/-- Successive calls of `claim` at one instant, with their results. -/
def Store.claims (store : Store) (current : Instant) :
    List ClaimRequest → Store × List (Option (CopyJob × String))
  | [] => (store, [])
  | request :: rest =>
      let (claimed, result) := store.claim request.worker request.leaseSeconds current request.token
      let (last, results) := claimed.claims current rest
      (last, result :: results)

namespace JobRow

instance : Std.Total ClaimOrder where
  total left right := by
    unfold ClaimOrder
    rcases lt_trichotomy left.createdAt right.createdAt with earlier | same | later
    · exact Or.inl (Or.inl earlier)
    · rcases le_total left.id right.id with before | after
      · exact Or.inl (Or.inr ⟨same, before⟩)
      · exact Or.inr (Or.inr ⟨same.symm, after⟩)
    · exact Or.inr (Or.inl later)

instance : IsTrans JobRow ClaimOrder where
  trans left middle right := by
    unfold ClaimOrder
    rintro (earlier | ⟨same, before⟩) (earlier' | ⟨same', before'⟩)
    · exact Or.inl (lt_trans earlier earlier')
    · exact Or.inl (lt_of_lt_of_eq earlier same')
    · exact Or.inl (lt_of_eq_of_lt same earlier')
    · exact Or.inr ⟨same.trans same', le_trans before before'⟩

private theorem ClaimOrder.same_key {left right : JobRow} (forth : ClaimOrder left right)
    (back : ClaimOrder right left) : left.key = right.key := by
  rcases forth with earlier | ⟨same, before⟩
  · rcases back with earlier' | ⟨same', -⟩
    · exact absurd earlier' (lt_asymm earlier)
    · exact absurd earlier (by rw [same']; exact lt_irrefl _)
  · rcases back with earlier' | ⟨-, after⟩
    · exact absurd earlier' (by rw [same]; exact lt_irrefl _)
    · exact le_antisymm before after

private theorem take_not_eligible {worker token : String} {leaseSeconds : Int} {current : Instant}
    (row : JobRow) (positive : 1 ≤ leaseSeconds) :
    (row.take worker token leaseSeconds current).eligible current = false := by
  have leased : (row.take worker token leaseSeconds current).leaseBefore current = false := by
    have positiveLease : (0 : Int) ≤ seconds leaseSeconds := by
      unfold seconds
      omega
    have notBefore : ¬ current + seconds leaseSeconds < current :=
      not_lt.mpr (le_add_of_nonneg_right positiveLease)
    simpa only [leaseBefore, take, Option.any_some, decide_eq_false_iff_not] using notBefore
  have running : (row.take worker token leaseSeconds current).state = .planning ∨
      (row.take worker token leaseSeconds current).state = .copying := by
    cases stored : row.snapshotJson <;> simp [take, stored]
  rw [Bool.eq_false_iff]
  intro eligible
  rcases eligible_iff.mp eligible with queued | ⟨waiting, -⟩ | ⟨-, expired⟩
  · rcases running with isPlanning | isCopying
    · rw [isPlanning] at queued; cases queued
    · rw [isCopying] at queued; cases queued
  · rcases running with isPlanning | isCopying
    · rw [isPlanning] at waiting; cases waiting
    · rw [isCopying] at waiting; cases waiting
  · rw [leased] at expired
    cases expired

end JobRow

namespace Store

variable {store : Store} {current : Instant}

private theorem pairwise_eligibleRows (store : Store) (current : Instant) :
    (store.eligibleRows current).Pairwise JobRow.ClaimOrder :=
  List.pairwise_insertionSort JobRow.ClaimOrder _

private theorem perm_eligibleRows (store : Store) (current : Instant) :
    (store.eligibleRows current).Perm (store.jobs.rows.filter (JobRow.eligible current)) :=
  List.perm_insertionSort JobRow.ClaimOrder _

private theorem nodup_eligibleRows (store : Store) (current : Instant) :
    ((store.eligibleRows current).map fun row => row.id).Nodup := by
  have filtered : ((store.jobs.rows.filter (JobRow.eligible current)).map JobRow.key).Nodup :=
    (List.filter_sublist.map JobRow.key).nodup store.jobs.distinct
  exact ((store.perm_eligibleRows current).map JobRow.key).nodup_iff.mpr filtered

private theorem eligibleRows_sweep (store : Store) (current : Instant) :
    (store.sweep current).eligibleRows current = store.eligibleRows current := by
  have sameRows : (store.sweep current).jobs.rows.filter (JobRow.eligible current) =
      store.jobs.rows.filter (JobRow.eligible current) :=
    store.jobs.filter_update_outside (JobRow.sweepDue current) (JobRow.sweep current)
      (JobRow.key_sweep current) (JobRow.eligible current)
      fun row due => ⟨JobRow.not_eligible_of_sweepDue due, JobRow.sweep_not_eligible current row⟩
  unfold eligibleRows
  rw [sameRows]

private theorem eligibleRows_takeJob {first : JobRow} {rest : List JobRow}
    (rows : store.eligibleRows current = first :: rest) {worker token : String}
    {leaseSeconds : Int} (positive : 1 ≤ leaseSeconds) :
    (store.takeJob first.id worker token leaseSeconds current).eligibleRows current = rest := by
  have restKept : rest.filter (fun row => !decide (row.id = first.id)) = rest := by
    have distinct := store.nodup_eligibleRows current
    rw [rows, List.map_cons, List.nodup_cons] at distinct
    refine List.filter_eq_self.mpr fun row member => ?_
    have otherId : row.id ≠ first.id := fun same =>
      distinct.1 (List.mem_map.mpr ⟨row, member, same⟩)
    rw [decide_eq_false otherId]
    rfl
  have filtered : (store.takeJob first.id worker token leaseSeconds current).jobs.rows.filter
      (JobRow.eligible current) =
      (store.jobs.rows.filter (JobRow.eligible current)).filter
        fun row => !decide (row.id = first.id) :=
    store.jobs.filter_update _ _ (JobRow.key_take worker token leaseSeconds current) _
      fun row _chosen => JobRow.take_not_eligible row positive
  have samePerm : ((store.takeJob first.id worker token leaseSeconds current).eligibleRows
      current).Perm rest := by
    refine (perm_eligibleRows _ current).trans ?_
    rw [filtered]
    refine ((store.perm_eligibleRows current).symm.filter _).trans ?_
    rw [rows, List.filter_cons_of_neg (by simp), restKept]
  have restSorted : rest.Pairwise JobRow.ClaimOrder := by
    have sorted := store.pairwise_eligibleRows current
    rw [rows] at sorted
    exact sorted.of_cons
  refine List.Perm.eq_of_pairwise ?_ (pairwise_eligibleRows _ current) restSorted samePerm
  intro left right leftMember rightMember forth back
  have original : ∀ row ∈ rest, row ∈ store.jobs.rows := fun row member =>
    (mem_eligibleRows.mp (rows ▸ List.mem_cons_of_mem first member)).1
  exact store.jobs.key_injective (original left (samePerm.mem_iff.mp leftMember))
    (original right rightMember) (forth.same_key back)

theorem claim_result (store : Store) (worker token : String) (leaseSeconds : Int)
    (current : Instant) :
    (store.claim worker leaseSeconds current token).2 = (store.eligibleRows current).head?.map
      fun row => ((row.take worker token leaseSeconds current).toCopyJob, token) := by
  simp only [claim, eligibleRows_sweep]
  cases (store.eligibleRows current).head? <;> rfl

private theorem eligibleRows_claim (store : Store) (worker token : String) {leaseSeconds : Int}
    (positive : 1 ≤ leaseSeconds) (current : Instant) :
    (store.claim worker leaseSeconds current token).1.eligibleRows current =
      (store.eligibleRows current).tail := by
  have sweptRows := store.eligibleRows_sweep current
  simp only [claim, sweptRows]
  cases rows : store.eligibleRows current with
  | nil => exact sweptRows.trans rows
  | cons first rest => exact eligibleRows_takeJob (sweptRows.trans rows) positive

private theorem find?_claim_other {job : String} {row : JobRow}
    (found : store.jobs.find? job = some row)
    (notEligible : row.eligible current = false) (notDue : row.sweepDue current = false)
    (worker token : String) (leaseSeconds : Int) :
    (store.claim worker leaseSeconds current token).1.jobs.find? job = some row := by
  have swept : (store.sweep current).jobs.find? job = some row := by
    unfold sweep
    rw [find?_updateJobs, found, Option.map_some, notDue, if_neg Bool.false_ne_true]
  cases chosen : ((store.sweep current).eligibleRows current).head? with
  | none =>
      simp only [claim, chosen]
      exact swept
  | some first =>
      have otherId : row.id ≠ first.id := by
        intro same
        obtain ⟨member, eligible⟩ := mem_eligibleRows.mp (List.mem_of_head? chosen)
        have isFirst : row = first :=
          (store.sweep current).jobs.key_injective ((store.sweep current).jobs.find?_mem swept)
            member same
        rw [isFirst, eligible] at notEligible
        cases notEligible
      simp only [claim, chosen, takeJob]
      rw [find?_updateJobs, swept, Option.map_some, decide_eq_false otherId,
        if_neg Bool.false_ne_true]

private theorem claims_results (current : Instant) (requests : List ClaimRequest) :
    ∀ store : Store, (∀ request ∈ requests, 1 ≤ request.leaseSeconds) →
      ∀ (index : Nat) (request : ClaimRequest), requests[index]? = some request →
        (store.claims current requests).2[index]? =
          some ((store.eligibleRows current)[index]?.map (request.granted current)) := by
  induction requests with
  | nil =>
      intro store _positive index request absent
      cases absent
  | cons first rest ih =>
      intro store positive index request asked
      cases index with
      | zero =>
          cases asked
          simp only [claims, List.getElem?_cons_zero, claim_result, List.head?_eq_getElem?]
          rfl
      | succ index =>
          have later := ih (store.claim first.worker first.leaseSeconds current first.token).1
            (fun request member => positive request (List.mem_cons_of_mem first member))
            index request asked
          rw [eligibleRows_claim store first.worker first.token (positive first List.mem_cons_self),
            List.getElem?_tail] at later
          exact later

private theorem find?_claims_other {job : String} {row : JobRow}
    (notEligible : row.eligible current = false)
    (notDue : row.sweepDue current = false) (requests : List ClaimRequest) :
    ∀ store : Store, store.jobs.find? job = some row →
      (store.claims current requests).1.jobs.find? job = some row := by
  induction requests with
  | nil => exact fun store found => found
  | cons first rest ih =>
      intro store found
      exact ih _ (find?_claim_other found notEligible notDue _ _ _)

end Store

/-- A claimed job is in no later claim's reach while its token is current and
its lease has not run out.  Claims repeated at one instant return the eligible
jobs one after another, in the order of creation time and identifier, and then
nothing, and leave every row alone that is neither eligible nor due for the
sweep. -/
theorem claims_exclusive_and_ordered {store : Store} (reached : sequential.Reachable store) :
    (∀ worker leaseSeconds granted token claimed record carried,
      store.claim worker leaseSeconds granted token = (claimed, some (record, carried)) →
      ∀ later, sequential.Run Machine.Always claimed later →
      ∀ row, later.jobs.find? record.id = some row → row.claimToken = some carried →
        ∃ expires, row.leaseExpiresAt = some expires ∧
          ∀ other otherLease current otherToken, current ≤ expires →
            ∀ result, (later.claim other otherLease current otherToken).2 = some result →
              result.1.id ≠ record.id) ∧
    (∀ (current : Instant) (requests : List ClaimRequest),
      (∀ request ∈ requests, 1 ≤ request.leaseSeconds) →
      (∀ row, row ∈ store.eligibleRows current ↔
        row ∈ store.jobs.rows ∧ row.eligible current = true) ∧
      ((store.eligibleRows current).map fun row => row.id).Nodup ∧
      (store.eligibleRows current).Pairwise JobRow.ClaimOrder ∧
      (∀ (index : Nat) (request : ClaimRequest), requests[index]? = some request →
        (store.claims current requests).2[index]? =
          some ((store.eligibleRows current)[index]?.map (request.granted current))) ∧
      ∀ job row, store.jobs.find? job = some row → row.eligible current = false →
        row.sweepDue current = false →
        (store.claims current requests).1.jobs.find? job = some row) := by
  refine ⟨?_, ?_⟩
  · intro worker leaseSeconds granted token claimed record carried returned later run row found
      holds
    have reachedClaimed : sequential.Reachable claimed := by
      have moved : sequential.next store (.run (.claim worker leaseSeconds granted token)) =
          some claimed := by
        change some (store.claim worker leaseSeconds granted token).1 = some claimed
        rw [returned]
      exact reached.step moved
    have lifecycle := lifecycle_of_found (reachedClaimed.run run) found
    have isClaimed := lifecycle.claimed_of_token holds
    obtain ⟨expires, leased⟩ := Option.isSome_iff_exists.mp (lifecycle.lease.trans isClaimed)
    refine ⟨expires, leased, ?_⟩
    intro other otherLease current otherToken notLater result claimedAgain same
    rw [Store.claim_result] at claimedAgain
    obtain ⟨first, chosen, rfl⟩ := Option.map_eq_some_iff.mp claimedAgain
    obtain ⟨member, eligible⟩ := Store.mem_eligibleRows.mp (List.mem_of_head? chosen)
    have isRow : first = row :=
      later.jobs.key_injective member (later.jobs.find?_mem found)
        (same.trans (later.jobs.find?_key found).symm)
    rw [isRow] at eligible
    -- a claimed row can only be eligible through an expired lease
    rcases JobRow.eligible_iff.mp eligible with queued | ⟨waiting, -⟩ | ⟨-, expired⟩
    · rw [queued] at isClaimed
      cases isClaimed
    · rw [waiting] at isClaimed
      cases isClaimed
    · simp only [JobRow.leaseBefore, leased, Option.any_some, decide_eq_true_eq] at expired
      exact absurd expired (not_lt.mpr notLater)
  · intro current requests positive
    exact ⟨fun row => Store.mem_eligibleRows, store.nodup_eligibleRows current,
      store.pairwise_eligibleRows current, Store.claims_results current requests store positive,
      fun job row found notEligible notDue =>
        Store.find?_claims_other notEligible notDue requests store found⟩

theorem claims_exclusive_and_ordered_for_two_jobs :
    ∃ store, sequential.Reachable store ∧
      (∀ record carried claimed, store.claim "worker" 60 2 "token" =
          (claimed, some (record, carried)) →
        ∀ row, claimed.jobs.find? record.id = some row → row.claimToken = some carried →
          row.leaseExpiresAt ≠ none) ∧
      (store.claims 2 [⟨"worker", 60, "first"⟩, ⟨"worker", 60, "second"⟩]).2[1]? =
        some ((store.eligibleRows 2)[1]?.map
          (ClaimRequest.granted ⟨"worker", 60, "second"⟩ 2)) ∧
      (store.eligibleRows 2).length = 2 := by
  have run : ((sequential.execute Machine.Always
      [.run (.enqueue sampleValues "late" 1),
        .run (.enqueue { sampleValues with destination := "c.example/x:v1" } "early" 0)]
      Store.empty).any fun store => (store.eligibleRows 2).length = 2) = true := by decide
  obtain ⟨store, reached, both⟩ := sequential.exists_reachable_of_execute rfl run
  obtain ⟨exclusive, ordered⟩ := claims_exclusive_and_ordered reached
  obtain ⟨-, -, -, results, -⟩ := ordered 2 [⟨"worker", 60, "first"⟩, ⟨"worker", 60, "second"⟩]
    (by decide)
  refine ⟨store, reached, ?_, results 1 ⟨"worker", 60, "second"⟩ rfl, of_decide_eq_true both⟩
  intro record carried claimed returned row found holds absent
  obtain ⟨expires, leased, -⟩ := exclusive _ _ _ _ _ _ _ returned claimed
    (Machine.Run.refl claimed) row found holds
  rw [leased] at absent
  cases absent

end OciTransfer
