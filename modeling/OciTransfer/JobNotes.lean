import OciTransfer.ErrorHistory
import OciTransfer.ProgressMonotonicity

/-!
What an observer of the queue notes of each job.

The notes are read off the rows before and after a move: that a job has been
inserted, claimed, retried by hand or failed by the holder of its claim, and
that its no-progress clock has been moved.  Two readings of the notes follow
the row: the instant at which the clock was last set, and the number of
failures since it last advanced.
-/

namespace OciTransfer

inductive JobNote where
  | enqueued (current : Instant)
  | claimed (current : Instant)
  | retried (current : Instant)
  | clockMoved (earlier later : Instant)
  | failed
  deriving DecidableEq, Repr

namespace Store

def clock (store : Store) (job : String) : Option Instant :=
  (store.jobs.find? job).map fun row => row.lastProgressAt

/-- The note of a clock that stands differently after the move. -/
def clockNotes (before after : Store) (job : String) : List (String × JobNote) :=
  match before.clock job, after.clock job with
  | some earlier, some later => if earlier = later then [] else [(job, .clockMoved earlier later)]
  | _, _ => []

end Store

def noteReport (before : System) (action : Action) (after : System) : List (String × JobNote) :=
  match action with
  | .commit (.enqueue _ jobId current) =>
      if before.store.jobs.find? jobId = none then [(jobId, .enqueued current)] else []
  | .commit (.claim _ _ current token) =>
      (after.store.jobs.rows.filter fun row => row.claimToken = some token).map fun row =>
        (row.id, .claimed current)
  | .commit (.retryWrite job current) => [(job, .retried current)]
  | .commit (.call job _ (.progress _) _) => before.store.clockNotes after.store job
  | .commit (.call job _ (.failOrRetry _) _) =>
      if before.store.movedToFailure after.store job then [(job, .failed)] else []
  | _ => []

def notesOf (log : List (String × JobNote)) (job : String) : List JobNote :=
  (log.filter fun entry => entry.1 = job).map Prod.snd

namespace JobNote

def clockAfter (clock : Option Instant) : JobNote → Option Instant
  | .enqueued current => some current
  | .clockMoved _ later => some later
  | .claimed _ | .retried _ | .failed => clock

def failuresAfter (failures : Nat) : JobNote → Nat
  | .enqueued _ => 0
  | .clockMoved earlier later => if earlier < later then 0 else failures
  | .failed => failures + 1
  | .claimed _ | .retried _ => failures

/-- A note that changes neither reading. -/
def idle : JobNote → Bool
  | .claimed _ | .retried _ => true
  | .enqueued _ | .clockMoved _ _ | .failed => false

end JobNote

def clockOf (log : List (String × JobNote)) (job : String) : Option Instant :=
  (notesOf log job).foldl JobNote.clockAfter none

def failuresSinceProgress (log : List (String × JobNote)) (job : String) : Nat :=
  (notesOf log job).foldl JobNote.failuresAfter 0

private theorem notesOf_append (log later : List (String × JobNote)) (job : String) :
    notesOf (log ++ later) job = notesOf log job ++ notesOf later job := by
  unfold notesOf
  rw [List.filter_append, List.map_append]

private theorem clockOf_append (log later : List (String × JobNote)) (job : String) :
    clockOf (log ++ later) job =
      (notesOf later job).foldl JobNote.clockAfter (clockOf log job) := by
  unfold clockOf
  rw [notesOf_append, List.foldl_append]

theorem failuresSinceProgress_append (log later : List (String × JobNote)) (job : String) :
    failuresSinceProgress (log ++ later) job =
      (notesOf later job).foldl JobNote.failuresAfter (failuresSinceProgress log job) := by
  unfold failuresSinceProgress
  rw [notesOf_append, List.foldl_append]

private theorem notesOf_singleton (job other : String) (note : JobNote) :
    notesOf [(job, note)] other = if job = other then [note] else [] := by
  by_cases same : job = other <;> simp [notesOf, same]

private theorem foldl_clockAfter_idle {notes : List JobNote}
    (idle : ∀ note ∈ notes, note.idle = true)
    (clock : Option Instant) : notes.foldl JobNote.clockAfter clock = clock := by
  induction notes with
  | nil => rfl
  | cons note rest ih =>
      have first := idle note List.mem_cons_self
      have others := ih fun other member => idle other (List.mem_cons_of_mem _ member)
      cases note <;> first | exact others | cases first

theorem foldl_failuresAfter_idle {notes : List JobNote} (idle : ∀ note ∈ notes, note.idle = true)
    (failures : Nat) : notes.foldl JobNote.failuresAfter failures = failures := by
  induction notes with
  | nil => rfl
  | cons note rest ih =>
      have first := idle note List.mem_cons_self
      have others := ih fun other member => idle other (List.mem_cons_of_mem _ member)
      cases note <;> first | exact others | cases first

section Move

variable {before after : System} {action : Action} {job : String} {old row : JobRow}

theorem notesOf_clockNotes (foundBefore : before.store.jobs.find? job = some old)
    (foundAfter : after.store.jobs.find? job = some row) :
    notesOf (before.store.clockNotes after.store job) job =
      if old.lastProgressAt = row.lastProgressAt then []
      else [.clockMoved old.lastProgressAt row.lastProgressAt] := by
  unfold Store.clockNotes Store.clock
  simp only [foundBefore, foundAfter, Option.map_some]
  split
  · rfl
  · rw [notesOf_singleton, if_pos rfl]

private theorem notesOf_clockNotes_other {callJob : String} (other : callJob ≠ job) :
    notesOf (before.store.clockNotes after.store callJob) job = [] := by
  unfold Store.clockNotes
  split
  · split
    · rfl
    · rw [notesOf_singleton, if_neg other]
  · rfl

private theorem report_idle (after : System)
    (notProgress : ∀ job token event current,
      action ≠ .commit (.call job token (.progress event) current))
    (notFailure : ∀ job token failure current,
      action ≠ .commit (.call job token (.failOrRetry failure) current))
    (foundBefore : before.store.jobs.find? job = some old) :
    ∀ note ∈ notesOf (noteReport before action after) job, note.idle = true := by
  intro note member
  unfold noteReport at member
  split at member
  · rename_i values jobId current
    split at member
    · rename_i absent
      by_cases same : jobId = job
      · rw [same, foundBefore] at absent
        cases absent
      · rw [notesOf_singleton, if_neg same] at member
        cases member
    · cases member
  · obtain ⟨entry, inReport, rfl⟩ := List.mem_map.mp member
    obtain ⟨taken, -, rfl⟩ := List.mem_map.mp (List.mem_filter.mp inReport).1
    rfl
  · obtain ⟨entry, inReport, rfl⟩ := List.mem_map.mp member
    rw [List.mem_singleton.mp (List.mem_filter.mp inReport).1]
    rfl
  · exact absurd rfl (notProgress _ _ _ _)
  · exact absurd rfl (notFailure _ _ _ _)
  · cases member

private theorem notesOf_failure {callJob token : String} {failure : Failure} {current : Instant}
    {target : JobRow} (found : before.store.jobs.find? callJob = some target)
    (stored : after.store =
      (Transaction.call callJob token (.failOrRetry failure) current).commit before.store) :
    notesOf (noteReport before (.commit (.call callJob token (.failOrRetry failure) current)) after)
      job = if target.claimToken = some token ∧ callJob = job then [.failed] else [] := by
  have movedIff := (failOrRetry_history before.store callJob token failure current found).2
  rw [← stored] at movedIff
  simp only [noteReport, movedIff, decide_eq_true_eq]
  by_cases holds : target.claimToken = some token
  · simp only [holds, if_true, notesOf_singleton, true_and]
  · simp only [holds, if_false, false_and]
    rfl

theorem notesOf_report (moved : before.next action = some after)
    (foundBefore : before.store.jobs.find? job = some old)
    (foundAfter : after.store.jobs.find? job = some row) :
    (notesOf (noteReport before action after) job =
        [.clockMoved old.lastProgressAt row.lastProgressAt] ∧
      row.consecutiveFailures = old.consecutiveFailures) ∨
    (notesOf (noteReport before action after) job = [.failed] ∧
      row.lastProgressAt = old.lastProgressAt ∧
      row.consecutiveFailures = old.consecutiveFailures + 1) ∨
    ((∀ note ∈ notesOf (noteReport before action after) job, note.idle = true) ∧
      row.lastProgressAt = old.lastProgressAt ∧
      row.consecutiveFailures = old.consecutiveFailures) := by
  have oldId : old.id = job := before.store.jobs.find?_key foundBefore
  have oneStep : row = old ∨ ∃ transaction, action = .commit transaction ∧
      RowStep transaction old row := by
    rcases System.next_row moved foundAfter with ⟨present, presentFound, step⟩ | ⟨absent, -⟩
    · rw [foundBefore] at presentFound
      cases presentFound
      exact step
    · rw [foundBefore] at absent
      cases absent
  by_cases isFailure : ∃ callJob token failure current,
      action = .commit (.call callJob token (.failOrRetry failure) current)
  · obtain ⟨callJob, token, failure, current, rfl⟩ := isFailure
    have stored := System.next_commit_store moved
    by_cases same : callJob = job
    · subst same
      rw [notesOf_failure foundBefore stored]
      by_cases holds : old.claimToken = some token
      · rw [if_pos ⟨holds, rfl⟩]
        rw [stored, Transaction.find?_failOrRetry foundBefore holds] at foundAfter
        cases foundAfter
        exact Or.inr (Or.inl ⟨rfl, rfl, rfl⟩)
      · rw [if_neg fun both => holds both.1]
        rcases oneStep with rfl | ⟨transaction, sameAction, changed⟩
        · exact Or.inr (Or.inr ⟨List.forall_mem_nil _, rfl, rfl⟩)
        · cases sameAction
          cases changed with
          | failed _sameId held => exact absurd held holds
    · have noNotes : notesOf (noteReport before
          (.commit (.call callJob token (.failOrRetry failure) current)) after) job = [] := by
        simp only [noteReport]
        split
        · rw [notesOf_singleton, if_neg same]
        · rfl
      rw [noNotes]
      rcases oneStep with rfl | ⟨transaction, sameAction, changed⟩
      · exact Or.inr (Or.inr ⟨List.forall_mem_nil _, rfl, rfl⟩)
      · cases sameAction
        cases changed with
        | failed sameId _held => exact absurd (sameId.symm.trans oldId) same
  · by_cases isProgress : ∃ callJob token event current,
        action = .commit (.call callJob token (.progress event) current)
    · obtain ⟨callJob, token, event, current, rfl⟩ := isProgress
      have kept : row.consecutiveFailures = old.consecutiveFailures := by
        rcases oneStep with rfl | ⟨transaction, sameAction, changed⟩
        · rfl
        · cases sameAction
          cases changed <;> rfl
      by_cases same : callJob = job
      · subst same
        simp only [noteReport]
        rw [notesOf_clockNotes foundBefore foundAfter]
        by_cases still : old.lastProgressAt = row.lastProgressAt
        · rw [if_pos still]
          exact Or.inr (Or.inr ⟨List.forall_mem_nil _, still.symm, kept⟩)
        · rw [if_neg still]
          exact Or.inl ⟨rfl, kept⟩
      · simp only [noteReport]
        rw [notesOf_clockNotes_other same]
        refine Or.inr (Or.inr ⟨List.forall_mem_nil _, ?_, kept⟩)
        rcases oneStep with rfl | ⟨transaction, sameAction, changed⟩
        · rfl
        · cases sameAction
          cases changed with
          | entered => rfl
          | tallied sameId => exact absurd (sameId.symm.trans oldId) same
    · have idle := report_idle after
        (fun callJob token event current isCall =>
          isProgress ⟨callJob, token, event, current, isCall⟩)
        (fun callJob token failure current isCall =>
          isFailure ⟨callJob, token, failure, current, isCall⟩) foundBefore
      rcases oneStep with rfl | ⟨transaction, rfl, changed⟩
      · exact Or.inr (Or.inr ⟨idle, rfl, rfl⟩)
      · refine Or.inr (Or.inr ⟨idle, ?_⟩)
        cases changed with
        | failed => exact absurd ⟨_, _, _, _, rfl⟩ isFailure
        | tallied => exact absurd ⟨_, _, _, _, rfl⟩ isProgress
        | swept | taken | beat | pinned | entered | finished | givenBack | released
        | cancelWritten | retryWritten => exact ⟨rfl, rfl⟩

theorem notesOf_report_fresh (moved : before.next action = some after)
    (absent : before.store.jobs.find? job = none)
    (foundAfter : after.store.jobs.find? job = some row) :
    ∃ current, notesOf (noteReport before action after) job = [.enqueued current] ∧
      row.lastProgressAt = current ∧ row.consecutiveFailures = 0 := by
  rcases System.next_store moved with same | ⟨transaction, rfl, committed⟩
  · rw [same, absent] at foundAfter
    cases foundAfter
  · rw [committed] at foundAfter
    rcases transaction.commit_row foundAfter with
      ⟨old, present, -⟩ | ⟨values, current, rfl, -, rfl⟩
    · rw [absent] at present
      cases present
    · refine ⟨current, ?_, rfl, rfl⟩
      simp only [noteReport, absent, if_true]
      rw [notesOf_singleton, if_pos rfl]

end Move

/-- The clock of a job stands at the instant it was last set on record. -/
theorem clock_on_record {state : System × List (String × JobNote)}
    (reached : (interleaved.recorded noteReport).Reachable state) {job : String} {row : JobRow}
    (found : state.1.store.jobs.find? job = some row) :
    clockOf state.2 job = some row.lastProgressAt := by
  have everyRow : ∀ job row, state.1.store.jobs.find? job = some row →
      clockOf state.2 job = some row.lastProgressAt := by
    refine reached.recorded_invariant (fun system log => ∀ job row,
      system.store.jobs.find? job = some row → clockOf log job = some row.lastProgressAt) ?_ ?_
    · rintro system rfl job row found
      cases found
    · intro before action after log _ moved ih job row found
      rw [clockOf_append]
      cases present : before.store.jobs.find? job with
      | none =>
          obtain ⟨current, notes, clock, -⟩ := notesOf_report_fresh moved present found
          rw [notes, clock]
          rfl
      | some old =>
          rw [ih job old present]
          rcases notesOf_report moved present found with
            ⟨notes, -⟩ | ⟨notes, clock, -⟩ | ⟨idle, clock, -⟩
          · rw [notes]
            rfl
          · rw [notes, clock]
            rfl
          · rw [foldl_clockAfter_idle idle, clock]
  exact everyRow job row found

end OciTransfer
