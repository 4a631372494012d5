import OciTransfer.FencedLease
import OciTransfer.QueueRuns

/-!
The claim on a job as a fenced lease.

Every action of an interleaved run moves the claim token of each job by a step
of the lease: only `claim` stores a token, and it stores one never drawn
before.  A token that has stopped being a job's claim token stays away from it,
and the six calls that present it change no job row.
-/

namespace OciTransfer

namespace System

def lease (system : System) (job : String) : Lease String :=
  { holder := (system.store.jobs.find? job).bind fun row => row.claimToken
    drawn := { token | token ∈ system.tokens } }

private theorem token_of_rowStep {transaction : Transaction} {old row : JobRow}
    (changed : RowStep transaction old row) :
    row.claimToken = old.claimToken ∨ row.claimToken = none ∨
      ∃ worker leaseSeconds current token,
        transaction = .claim worker leaseSeconds current token ∧ row.claimToken = some token := by
  cases changed with
  | taken _eligible => exact Or.inr (Or.inr ⟨_, _, _, _, rfl, rfl⟩)
  | swept | finished | failed | givenBack | released => exact Or.inr (Or.inl rfl)
  | beat | pinned | entered | tallied | cancelWritten | retryWritten => exact Or.inl rfl

theorem next_lease {before after : System} {action : Action}
    (moved : before.next action = some after) (job : String) :
    Lease.Step (before.lease job) (after.lease job) := by
  have grows : (before.lease job).drawn ⊆ (after.lease job).drawn := fun _ drawn =>
    (next_drawn moved).1 drawn
  cases found : after.store.jobs.find? job with
  | none =>
      refine .drop grows ?_
      simp only [lease, found, Option.bind_none]
  | some row =>
      have holderAfter : (after.lease job).holder = row.claimToken := by
        simp only [lease, found, Option.bind_some]
      rcases next_row moved found with
        ⟨old, present, rfl | ⟨transaction, rfl, changed⟩⟩ | ⟨-, -, -, values, current, rfl⟩
      · refine .keep grows ?_
        simp only [lease, found, present]
      · have holderBefore : (before.lease job).holder = old.claimToken := by
          simp only [lease, present, Option.bind_some]
        rcases token_of_rowStep changed with
          same | cleared | ⟨worker, leaseSeconds, current, token, rfl, stored⟩
        · exact .keep grows (by rw [holderAfter, holderBefore, same])
        · exact .drop grows (by rw [holderAfter, cleared])
        · obtain ⟨fresh, drawn⟩ := next_claim moved
          exact .grant grows fresh drawn (holderAfter.trans stored)
      · exact .drop grows holderAfter

private theorem lease_run {first last : System} {admits : System → Action → Prop}
    (run : interleaved.Run admits first last) (job : String) :
    Relation.ReflTransGen Lease.Step (first.lease job) (last.lease job) := by
  induction run with
  | refl => exact Relation.ReflTransGen.refl
  | tail _earlier move ih =>
      obtain ⟨action, _admitted, moved⟩ := move
      exact ih.tail (next_lease moved job)

private theorem lease_sound {system : System} (reached : interleaved.Reachable system)
    (job : String) :
    (system.lease job).Sound := by
  refine reached.invariant (fun system => (system.lease job).Sound) ?_ ?_
  · rintro state rfl token held
    cases held
  · intro before action after moved sound
    exact (next_lease moved job).sound sound

theorem holder_eq_some {system : System} {job token : String} :
    (system.lease job).holder = some token ↔
      ∃ row, system.store.jobs.find? job = some row ∧ row.claimToken = some token := by
  simp only [lease, Option.bind_eq_some_iff]

end System

namespace Store

theorem updateJobs_unselected (store : Store) (selected : JobRow → Bool)
    (change : JobRow → JobRow) (keepsKey : ∀ row, (change row).key = row.key)
    (unselected : ∀ row ∈ store.jobs.rows, selected row = false) :
    (store.updateJobs selected change keepsKey).jobs.rows = store.jobs.rows := by
  change store.jobs.rows.map (fun row => if selected row then change row else row) = _
  calc
    store.jobs.rows.map (fun row => if selected row then change row else row)
        = store.jobs.rows.map id := by
          apply List.map_congr_left
          intro row member
          rw [unselected row member]
          rfl
    _ = store.jobs.rows := List.map_id _

/-- The job's row, if there is one, does not carry the token. -/
def Unclaimed (store : Store) (job token : String) : Prop :=
  ∀ row, store.jobs.find? job = some row → row.claimToken ≠ some token

theorem Unclaimed.not_holdsClaim {store : Store} {job token : String}
    (unclaimed : store.Unclaimed job token) :
    ∀ row ∈ store.jobs.rows, row.holdsClaim job token = false := by
  intro row member
  rw [← Bool.not_eq_true, JobRow.holdsClaim_iff]
  rintro ⟨rfl, holds⟩
  exact unclaimed row (store.jobs.find?_of_mem member) holds

theorem unclaimed_iff_holder {system : System} {job token : String} :
    system.store.Unclaimed job token ↔ (system.lease job).holder ≠ some token := by
  constructor
  · intro unclaimed held
    obtain ⟨row, found, holds⟩ := System.holder_eq_some.mp held
    exact unclaimed row found holds
  · intro notHolder row found holds
    exact notHolder (System.holder_eq_some.mpr ⟨row, found, holds⟩)

private theorem progress_unclaimed {store : Store} {job token : String}
    (unclaimed : store.Unclaimed job token) (event : Event) (current : Instant) :
    ((Transaction.call job token (.progress event) current).commit store).jobs.rows =
      store.jobs.rows := by
  cases named : event.namedDigest with
  | none =>
      rw [Transaction.commit_phase named, progressPhase]
      split
      · rfl
      · exact updateJobs_unselected _ _ _ _ unclaimed.not_holdsClaim
  | some digest =>
      rw [Transaction.commit_progress named, progressBlob]
      split
      · rfl
      · split
        · rfl
        · exact updateJobs_unselected _ _ _ _ unclaimed.not_holdsClaim

/-- A call under a token that is not the job's changes no job row. -/
theorem call_unclaimed {store : Store} {job token : String}
    (unclaimed : store.Unclaimed job token) (request : ClaimCall) (current : Instant) :
    ((Transaction.call job token request current).commit store).jobs.rows = store.jobs.rows := by
  have guarded : ∀ extra : JobRow → Bool, ∀ row ∈ store.jobs.rows,
      (row.holdsClaim job token && extra row) = false := by
    intro extra row member
    rw [unclaimed.not_holdsClaim row member, Bool.false_and]
  cases request with
  | heartbeat leaseSeconds =>
      exact updateJobs_unselected _ _ _ _ (guarded fun row => !row.state.terminal)
  | saveSnapshot snapshot =>
      rcases Transaction.commit_saveSnapshot store job token snapshot current with
        same | ⟨row, filled, found, holds, -⟩
      · rw [same]
      · exact absurd holds (unclaimed row found)
  | progress event => exact progress_unclaimed unclaimed event current
  | finish state code message => exact updateJobs_unselected _ _ _ _ unclaimed.not_holdsClaim
  | failOrRetry failure =>
      rcases Transaction.commit_failOrRetry store job token failure current with
        ⟨-, same⟩ | ⟨error, logged, -, -, loggedEq, written⟩
      · rw [same]
      · have sameJobs := jobs_insertError? loggedEq
        rw [written, ← sameJobs]
        refine updateJobs_unselected _ _ _ _ ?_
        rw [sameJobs]
        exact unclaimed.not_holdsClaim
  | releaseClaim =>
      exact updateJobs_unselected _ _ _ _ (guarded fun row => row.state.working)

end Store

/-- Once a token that held the claim on a job has stopped being its claim
token, it never is again, and every later call that presents it leaves every
column of every job row as it was. -/
theorem superseded_claim_is_fenced {granted ended later : System}
    (reached : interleaved.Reachable granted) {job token : String}
    (held : ∃ row, granted.store.jobs.find? job = some row ∧ row.claimToken = some token)
    (working : interleaved.Run Machine.Always granted ended)
    (lost : ∀ row, ended.store.jobs.find? job = some row → row.claimToken ≠ some token)
    (afterwards : interleaved.Run Machine.Always ended later) :
    (∀ row, later.store.jobs.find? job = some row → row.claimToken ≠ some token) ∧
    ∀ request current,
      ((Transaction.call job token request current).commit later.store).jobs.rows =
        later.store.jobs.rows := by
  have drawn : token ∈ (ended.lease job).drawn := by
    have drawnFirst : token ∈ (granted.lease job).drawn :=
      System.lease_sound reached job token (System.holder_eq_some.mpr held)
    exact working.preserves (fun system => token ∈ system.tokens)
      (fun _ _ _ _ moved present => (System.next_drawn moved).1 present) drawnFirst
  have lostLease : (ended.lease job).Lost token := ⟨drawn, Store.unclaimed_iff_holder.mp lost⟩
  have lostLater := Lease.lost_forever (System.lease_run afterwards job) lostLease
  have unclaimed := Store.unclaimed_iff_holder.mpr lostLater.2
  exact ⟨unclaimed, Store.call_unclaimed unclaimed⟩

def System.carries (token : String) (system : System) : Bool :=
  (system.store.jobs.find? "job").any fun row => row.claimToken = some token

theorem superseded_claim_is_fenced_after_reclaim :
    ∃ later, interleaved.Reachable later ∧ later.carries "new" = true ∧
      ∀ request current,
        ((Transaction.call "job" "old" request current).commit later.store).jobs.rows =
          later.store.jobs.rows := by
  have runs : ((interleaved.execute Machine.Always
      [.commit (.enqueue sampleValues "job" 0), .commit (.claim "first" 60 1 "old")]
      System.initial).any fun granted => granted.carries "old" &&
        ((interleaved.execute Machine.Always
          [.commit (.call "job" "old" .releaseClaim 2), .commit (.claim "second" 60 3 "new")]
          granted).any (System.carries "new"))) = true := by decide
  obtain ⟨granted, reached, both⟩ := interleaved.exists_reachable_of_execute rfl runs
  obtain ⟨holds, reclaimed⟩ := (Bool.and_eq_true _ _).mp both
  obtain ⟨later, working, supersedes⟩ := interleaved.exists_run_of_execute _ reclaimed
  obtain ⟨row, found, carries⟩ := (Option.any_eq_true _ _).mp holds
  obtain ⟨newRow, newFound, carriesNew⟩ := (Option.any_eq_true _ _).mp supersedes
  have lost : ∀ row, later.store.jobs.find? "job" = some row → row.claimToken ≠ some "old" := by
    intro row found
    rw [newFound] at found
    cases found
    rw [of_decide_eq_true carriesNew]
    decide
  exact ⟨later, reached.run working, supersedes,
    (superseded_claim_is_fenced reached ⟨row, found, of_decide_eq_true carries⟩ working lost
      (Machine.Run.refl later)).2⟩

end OciTransfer
