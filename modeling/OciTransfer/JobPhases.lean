import OciTransfer.PhaseDiagram
import OciTransfer.Removal

/-!
The phases of a job in a concurrent run.

A run without late writes moves each job along the diagram of a leased task: it
waits, is held under a claim token, ends, may be reopened by `retry` once it has
failed, and is removed.  A heartbeat, a pinned snapshot and progress stay within
a phase; the report of a phase of the copy takes a request to cancel back.
-/

namespace OciTransfer

/-- The token is the column itself; in the states it stands for it is set. -/
def JobRow.phase (row : JobRow) : Phase (Option String) TerminalState :=
  match row.state with
  | .queued | .retryWait => .waiting
  | .planning | .copying | .publishing | .verifying => .held row.claimToken
  | .cancelRequested => .stopping row.claimToken
  | .completed => .ended .completed
  | .failed => .ended .failed
  | .cancelled => .ended .cancelled

/-- A job of which nothing is stored has been removed, or refused, once its
identifier is drawn. -/
def System.phase (system : System) (job : String) : Phase (Option String) TerminalState :=
  match system.store.jobs.find? job with
  | some row => row.phase
  | none => if job ∈ system.jobIds then .gone else .absent

def jobPhases : Machine (Phase (Option String) TerminalState)
    (PhaseMove (Option String) TerminalState) :=
  phases .cancelled fun outcome => outcome = .failed

private theorem TerminalState.of_terminal {state : JobState} (terminal : state.terminal = true) :
    ∃ ended : TerminalState, state = ended.toJobState := by
  cases state with
  | completed => exact ⟨.completed, rfl⟩
  | failed => exact ⟨.failed, rfl⟩
  | cancelled => exact ⟨.cancelled, rfl⟩
  | queued | planning | copying | publishing | verifying | retryWait | cancelRequested =>
      cases terminal

namespace JobRow

variable {row : JobRow}

private theorem phase_of_working (working : row.state.working = true) :
    row.phase = .held row.claimToken := by
  unfold phase
  cases stateEq : row.state <;> rw [stateEq] at working <;> first | rfl | cases working

private theorem phase_of_cancelRequested (requested : row.state = .cancelRequested) :
    row.phase = .stopping row.claimToken := by
  unfold phase
  rw [requested]

private theorem phase_of_claimed (claimed : row.state.claimed = true) :
    row.phase = .held row.claimToken ∨ row.phase = .stopping row.claimToken := by
  rcases (Bool.or_eq_true _ _).mp claimed with working | requested
  · exact Or.inl (phase_of_working working)
  · exact Or.inr (phase_of_cancelRequested (of_decide_eq_true requested))

private theorem phase_of_waiting (waiting : row.state = .queued ∨ row.state = .retryWait) :
    row.phase = .waiting := by
  unfold phase
  rcases waiting with queued | waiting
  · rw [queued]
  · rw [waiting]

private theorem phase_toJobState {state : TerminalState} (ended : row.state = state.toJobState) :
    row.phase = .ended state := by
  unfold phase
  rw [ended]
  cases state <;> rfl

private theorem state_of_ended {state : TerminalState} (ended : row.phase = .ended state) :
    row.state = state.toJobState := by
  unfold phase at ended
  cases stateEq : row.state <;> rw [stateEq] at ended <;> cases ended <;> rfl

private theorem phase_ne_gone (row : JobRow) : row.phase ≠ .gone := by
  unfold phase
  cases row.state <;> exact fun same => by cases same

private theorem phase_failOrRetry (row : JobRow) (code message : String) (retryable : Bool)
    (delay : Option ℚ) (integrityFailure : Bool) (current : Instant) :
    (row.failOrRetry code message retryable delay integrityFailure current).phase =
      if retryable then .waiting else .ended .failed := by
  cases retryable <;> rfl

private theorem phase_release (working : row.state.working = true) (current : Instant) :
    jobPhases.next row.phase .giveBack = some (row.release current).phase := by
  have given : (row.release current).phase = .waiting := by
    refine phase_of_waiting ?_
    cases stored : row.snapshotJson <;> simp [release, stored]
  rw [given, phase_of_working working]
  rfl

end JobRow

/-- One step of a row stays in its phase or is one move of the diagram. -/
theorem RowStep.phase {transaction : Transaction} {old row : JobRow}
    (changed : RowStep transaction old row)
    (upToDate : transaction.UpToDate old) (lifecycle : old.Lifecycle) :
    row.phase = old.phase ∨ ∃ move, jobPhases.next old.phase move = some row.phase := by
  cases changed with
  | swept due =>
      rw [JobRow.phase_of_cancelRequested (JobRow.sweepDue_iff.mp due).1]
      exact Or.inr ⟨.settle .cancelled, rfl⟩
  | @taken worker leaseSeconds current token _ eligible =>
      have held : (old.take worker token leaseSeconds current).phase = .held (some token) := by
        refine JobRow.phase_of_working ?_
        cases stored : old.snapshotJson <;> simp [JobRow.take, stored, JobState.working]
      rw [held]
      refine Or.inr ⟨.grant (some token), ?_⟩
      rcases JobRow.eligible_iff.mp eligible with queued | ⟨waiting, -⟩ | ⟨working, -⟩
      · rw [JobRow.phase_of_waiting (Or.inl queued)]
        rfl
      · rw [JobRow.phase_of_waiting (Or.inr waiting)]
        rfl
      · rw [JobRow.phase_of_working working]
        rfl
  | beat _sameId _holds _live => exact Or.inl rfl
  | tallied _sameId _holds _named => exact Or.inl rfl
  | pinned _sameId _holds planning =>
      left
      rw [@JobRow.phase_of_working old (by rw [planning]; rfl)]
      rfl
  | @entered _ _ _ phase current _ _sameId holds _named wanted =>
      have entered : (old.enter phase current).phase = .held old.claimToken :=
        JobRow.phase_of_working (phase_working wanted).1
      rw [entered]
      rcases JobRow.phase_of_claimed (lifecycle.claimed_of_token holds) with held | stopping
      · exact Or.inl held.symm
      · rw [stopping]
        exact Or.inr ⟨.overrule, rfl⟩
  | @finished _ _ state _ _ _ _ _sameId holds =>
      rw [JobRow.phase_toJobState rfl]
      rcases JobRow.phase_of_claimed (lifecycle.claimed_of_token holds) with held | stopping
      · rw [held]
        exact Or.inr ⟨.settle state, rfl⟩
      · rw [stopping]
        exact Or.inr ⟨.settle state, rfl⟩
  | @failed _ _ failure _ _ _sameId holds =>
      right
      rw [JobRow.phase_failOrRetry]
      have claimed := JobRow.phase_of_claimed (lifecycle.claimed_of_token holds)
      cases failure.retryable
      · refine ⟨.settle .failed, ?_⟩
        rcases claimed with held | stopping
        · rw [held]
          rfl
        · rw [stopping]
          rfl
      · refine ⟨.giveBack, ?_⟩
        rcases claimed with held | stopping
        · rw [held]
          rfl
        · rw [stopping]
          rfl
  | givenBack _sameId _holds working => exact Or.inr ⟨.giveBack, JobRow.phase_release working _⟩
  | released _owned working => exact Or.inr ⟨.giveBack, JobRow.phase_release working _⟩
  | @cancelWritten _ target _ _ sameId =>
      cases target with
      | cancelled =>
          rw [JobRow.phase_of_waiting (Store.waiting_of_cancelTarget (upToDate sameId))]
          exact Or.inr ⟨.withdraw, rfl⟩
      | cancelRequested =>
          rw [JobRow.phase_of_cancelRequested rfl]
          rcases JobRow.phase_of_claimed (Store.claimed_of_cancelTarget (upToDate sameId)) with
            held | stopping
          · rw [held]
            exact Or.inr ⟨.ask, rfl⟩
          · exact Or.inl stopping.symm
  | retryWritten sameId =>
      have isFailed : old.state = .failed := upToDate sameId
      rw [@JobRow.phase_toJobState _ .failed isFailed]
      exact Or.inr ⟨.reopen, rfl⟩

namespace System

variable {system before after first last : System} {job : String} {row : JobRow}

private theorem phase_of_found (found : system.store.jobs.find? job = some row) :
    system.phase job = row.phase := by
  unfold phase
  rw [found]

private theorem phase_of_drawn (absent : system.store.jobs.find? job = none)
    (drawn : job ∈ system.jobIds) :
    system.phase job = .gone := by
  unfold phase
  rw [absent]
  exact if_pos drawn

private theorem phase_of_undrawn (absent : system.store.jobs.find? job = none)
    (undrawn : job ∉ system.jobIds) : system.phase job = .absent := by
  unfold phase
  rw [absent]
  exact if_neg undrawn

private theorem found_of_ended (ended : (system.phase job).isEnded = true) :
    ∃ row, system.store.jobs.find? job = some row ∧ row.state.terminal = true := by
  unfold phase at ended
  cases found : system.store.jobs.find? job with
  | none =>
      simp only [found] at ended
      split at ended <;> cases ended
  | some row =>
      simp only [found, JobRow.phase] at ended
      refine ⟨row, rfl, ?_⟩
      cases stateEq : row.state <;> rw [stateEq] at ended <;> first | rfl | cases ended

private theorem found_of_held (held : (system.phase job).isHeld = true) :
    ∃ row, system.store.jobs.find? job = some row ∧ row.state.working = true := by
  unfold phase at held
  cases found : system.store.jobs.find? job with
  | none =>
      simp only [found] at held
      split at held <;> cases held
  | some row =>
      simp only [found, JobRow.phase] at held
      refine ⟨row, rfl, ?_⟩
      cases stateEq : row.state <;> rw [stateEq] at held <;> first | rfl | cases held

private theorem phase_step (reached : interleaved.Run System.UpToDate System.initial before)
    {action : Action} (upToDate : before.UpToDate action)
    (moved : before.next action = some after) (job : String) :
    after.phase job = before.phase job ∨
      ∃ move, jobPhases.next (before.phase job) move = some (after.phase job) := by
  cases afterFound : after.store.jobs.find? job with
  | some row =>
      rw [phase_of_found afterFound]
      rcases next_row moved afterFound with
        ⟨old, present, unchanged | ⟨transaction, rfl, changed⟩⟩ |
          ⟨absent, undrawn, -, values, current, isFresh⟩
      · rw [phase_of_found present, unchanged]
        exact Or.inl rfl
      · rw [phase_of_found present]
        exact changed.phase (upToDate old (before.store.jobs.find?_mem present))
          (lifecycle_of_found (sequential_of_unlate reached) present)
      · rw [phase_of_undrawn absent undrawn, isFresh]
        exact Or.inr ⟨.submit, rfl⟩
  | none =>
      cases beforeFound : before.store.jobs.find? job with
      | some row =>
          rcases next_store moved with same | ⟨transaction, rfl, committed⟩
          · rw [same, beforeFound] at afterFound
            cases afterFound
          · have drawn := drawn_of_found ⟨_, rfl, reached.always⟩ beforeFound
            rw [phase_of_drawn afterFound ((next_drawn moved).2 drawn), phase_of_found beforeFound]
            rw [committed] at afterFound
            obtain ⟨terminal, -⟩ := Transaction.removes beforeFound afterFound
            refine Or.inr ⟨.remove, ?_⟩
            obtain ⟨state, ended⟩ := TerminalState.of_terminal terminal
            rw [JobRow.phase_toJobState ended]
            rfl
      | none =>
          by_cases drawn : job ∈ before.jobIds
          · rw [phase_of_drawn beforeFound drawn,
              phase_of_drawn afterFound ((next_drawn moved).2 drawn)]
            exact Or.inl rfl
          · rw [phase_of_undrawn beforeFound drawn]
            by_cases drawnAfter : job ∈ after.jobIds
            · rw [phase_of_drawn afterFound drawnAfter]
              exact Or.inr ⟨.refuse, rfl⟩
            · rw [phase_of_undrawn afterFound drawnAfter]
              exact Or.inl rfl

end System

private theorem JobRow.lives_phase {row : JobRow} (active : row.state.terminal = false) :
    row.phase.lives = true := by
  unfold JobRow.phase
  cases stateEq : row.state <;> rw [stateEq] at active <;> first | rfl | cases active

private theorem System.phases_run {first last : System}
    (reached : interleaved.Run System.UpToDate System.initial first)
    (run : interleaved.Run System.UpToDate first last) (job : String) :
    jobPhases.Run Machine.Always (first.phase job) (last.phase job) := by
  refine (run.restrict (fun system => interleaved.Run System.UpToDate System.initial system)
    (fun _ _ _ admitted moved reached => reached.tail admitted moved) reached).project
    (fun system => system.phase job) ?_
  rintro before action after ⟨upToDate, reachedBefore⟩ moved
  rcases System.phase_step reachedBefore upToDate moved job with same | ⟨move, moves⟩
  · rw [same]
    exact Machine.Run.refl _
  · exact (Machine.Run.refl _).tail trivial moves

/-- In a concurrent run without late writes, each step leaves any one job where it is in
the diagram or makes one of the moves there, whatever happens to the others; so what
happens to it over the run is a run of the diagram. -/
theorem job_follows_its_phases {first last : System}
    (reached : interleaved.Run System.UpToDate System.initial first)
    (run : interleaved.Run System.UpToDate first last) (job : String) :
    jobPhases.Run Machine.Always (first.phase job) (last.phase job) ∧
    ∀ action after, last.UpToDate action → interleaved.next last action = some after →
      after.phase job = last.phase job ∨
        ∃ move, jobPhases.next (last.phase job) move = some (after.phase job) :=
  ⟨System.phases_run reached run job, fun _ _ upToDate moved =>
    System.phase_step (reached.trans run) upToDate moved job⟩

/-- In such a run a job that is completed or cancelled stays so as long as it is
stored; one that is not terminal is removed only after it has ended; and one that
is waiting, or not yet enqueued, is completed or failed only after a worker has
held it under a claim token. -/
theorem outcomes_are_earned_and_kept {first last : System}
    (reached : interleaved.Run System.UpToDate System.initial first)
    (run : interleaved.Run System.UpToDate first last) (job : String) :
    (∀ row later, first.store.jobs.find? job = some row → last.store.jobs.find? job = some later →
      row.state = .completed ∨ row.state = .cancelled → later.state = row.state) ∧
    (∀ row, first.store.jobs.find? job = some row → row.state.terminal = false →
      last.store.jobs.find? job = none →
      ∃ middle ended, interleaved.Run System.UpToDate first middle ∧
        interleaved.Run System.UpToDate middle last ∧
        middle.store.jobs.find? job = some ended ∧ ended.state.terminal = true) ∧
    ((∀ row, first.store.jobs.find? job = some row → row.state = .queued ∨ row.state = .retryWait) →
      ∀ row, last.store.jobs.find? job = some row → row.state = .completed ∨ row.state = .failed →
      ∃ middle held token, interleaved.Run System.UpToDate first middle ∧
        interleaved.Run System.UpToDate middle last ∧
        middle.store.jobs.find? job = some held ∧ held.state.working = true ∧
        held.claimToken = some token) := by
  have restricted := run.restrict
    (fun system => interleaved.Run System.UpToDate System.initial system)
    (fun _ _ _ admitted moved reached => reached.tail admitted moved) reached
  refine ⟨?_, ?_, ?_⟩
  · intro row later found foundLater outcome
    have kept : ∀ state : TerminalState, state ≠ .failed → row.state = state.toJobState →
        later.state = row.state := by
      intro state notFailed isState
      have atFirst : first.phase job = .ended state := by
        rw [System.phase_of_found found, JobRow.phase_toJobState isState]
      rcases @Phase.ended_stays (Option String) TerminalState .cancelled
          (fun outcome => outcome = .failed) _ _ state (decide_eq_false notFailed)
          (System.phases_run reached run job) atFirst with ended | gone
      · rw [System.phase_of_found foundLater] at ended
        rw [isState]
        exact JobRow.state_of_ended ended
      · rw [System.phase_of_found foundLater] at gone
        exact absurd gone later.phase_ne_gone
    rcases outcome with completed | cancelled
    · exact kept .completed (by decide) completed
    · exact kept .cancelled (by decide) cancelled
  · intro row found active removed
    have alive : (first.phase job).lives = true := by
      rw [System.phase_of_found found]
      exact JobRow.lives_phase active
    have leaves : ∀ (before : System) (action : Action) (after : System),
        before.UpToDate action ∧ interleaved.Run System.UpToDate System.initial before →
        before.next action = some after → (before.phase job).lives = true →
        (after.phase job).lives = true ∨ (after.phase job).isEnded = true := by
      rintro before action after ⟨upToDate, reachedBefore⟩ moved alive
      rcases System.phase_step reachedBefore upToDate moved job with same | ⟨move, moves⟩
      · rw [same]
        exact Or.inl alive
      · exact Phase.next_lives moves alive
    rcases restricted.stays_or_exits (fun system => (system.phase job).lives = true)
        (fun system => (system.phase job).isEnded = true) leaves alive with
      still | ⟨before, middle, -, ended, earlier, ⟨action, ⟨upToDate, -⟩, moved⟩, rest⟩
    · unfold System.phase at still
      rw [removed] at still
      simp only [] at still
      split at still <;> cases still
    · obtain ⟨ended, endedFound, terminal⟩ := System.found_of_ended ended
      refine ⟨middle, ended, ?_, ?_, endedFound, terminal⟩
      · exact (earlier.weaken System.UpToDate fun _ _ both => both.1.1).tail upToDate moved
      · exact rest.weaken System.UpToDate fun _ _ both => both.1
  · intro idle row found outcome
    obtain ⟨state, notCancelled, isState⟩ : ∃ state : TerminalState, state ≠ .cancelled ∧
        row.state = state.toJobState := by
      rcases outcome with completed | failed
      · exact ⟨.completed, by decide, completed⟩
      · exact ⟨.failed, by decide, failed⟩
    have free : (first.phase job).taken = false ∧ first.phase job ≠ .ended state := by
      unfold System.phase
      cases firstFound : first.store.jobs.find? job with
      | none =>
          simp only []
          split <;> exact ⟨rfl, fun same => by cases same⟩
      | some old =>
          simp only []
          rw [JobRow.phase_of_waiting (idle old firstFound)]
          exact ⟨rfl, fun same => by cases same⟩
    have leaves : ∀ (before : System) (action : Action) (after : System),
        before.UpToDate action ∧ interleaved.Run System.UpToDate System.initial before →
        before.next action = some after →
        (before.phase job).taken = false ∧ before.phase job ≠ .ended state →
        ((after.phase job).taken = false ∧ after.phase job ≠ .ended state) ∨
          (after.phase job).isHeld = true := by
      rintro before action after ⟨upToDate, reachedBefore⟩ moved ⟨free, notEnded⟩
      rcases System.phase_step reachedBefore upToDate moved job with same | ⟨move, moves⟩
      · rw [same]
        exact Or.inl ⟨free, notEnded⟩
      · exact Phase.next_untaken notCancelled moves free notEnded
    rcases restricted.stays_or_exits
        (fun system => (system.phase job).taken = false ∧ system.phase job ≠ .ended state)
        (fun system => (system.phase job).isHeld = true) leaves free with
      ⟨-, notEnded⟩ | ⟨before, middle, -, held, earlier, ⟨action, ⟨upToDate, reachedBefore⟩, moved⟩,
        rest⟩
    · rw [System.phase_of_found found] at notEnded
      exact absurd (JobRow.phase_toJobState isState) notEnded
    · obtain ⟨held, heldFound, working⟩ := System.found_of_held held
      have lifecycle :=
        lifecycle_of_found (sequential_of_unlate (reachedBefore.tail upToDate moved)) heldFound
      obtain ⟨token, holds⟩ := Option.isSome_iff_exists.mp
        (lifecycle.token.trans (JobState.claimed_of_working working))
      refine ⟨middle, held, token, ?_, ?_, heldFound, working, holds⟩
      · exact (earlier.weaken System.UpToDate fun _ _ both => both.1.1).tail upToDate moved
      · exact rest.weaken System.UpToDate fun _ _ both => both.1

def completedAndRemoved : List Action :=
  [.commit (.claim "worker" 60 1 "token"),
    .commit (.call "job" "token" (.finish .completed none none) 2),
    .commit (.dismiss "job")]

theorem job_follows_its_phases_when_removed :
    ∃ first last, interleaved.Run System.UpToDate System.initial first ∧
      interleaved.Run System.UpToDate first last ∧
      jobPhases.Run Machine.Always .waiting .gone := by
  have runs : ((interleaved.execute System.UpToDate [.commit (.enqueue sampleValues "job" 0)]
      System.initial).any fun first => first.phase "job" = .waiting &&
        ((interleaved.execute System.UpToDate completedAndRemoved first).any fun last =>
          last.phase "job" = .gone)) = true := by decide
  obtain ⟨first, reached, both⟩ := interleaved.exists_run_of_execute System.UpToDate runs
  obtain ⟨waiting, continues⟩ := (Bool.and_eq_true _ _).mp both
  obtain ⟨last, run, gone⟩ := interleaved.exists_run_of_execute System.UpToDate continues
  have follows := (job_follows_its_phases reached run "job").1
  rw [of_decide_eq_true waiting, of_decide_eq_true gone] at follows
  exact ⟨first, last, reached, run, follows⟩

theorem outcomes_are_earned_and_kept_when_removed :
    ∃ first middle last ended, interleaved.Run System.UpToDate System.initial first ∧
      interleaved.Run System.UpToDate first middle ∧ interleaved.Run System.UpToDate middle last ∧
      middle.store.jobs.find? "job" = some ended ∧ ended.state.terminal = true ∧
      last.store.jobs.find? "job" = none := by
  have runs : ((interleaved.execute System.UpToDate [.commit (.enqueue sampleValues "job" 0)]
      System.initial).any fun first =>
        ((first.store.jobs.find? "job").any fun row => row.state.terminal = false) &&
        ((interleaved.execute System.UpToDate completedAndRemoved first).any fun last =>
          (last.store.jobs.find? "job").isNone)) = true := by decide
  obtain ⟨first, reached, both⟩ := interleaved.exists_run_of_execute System.UpToDate runs
  obtain ⟨stored, continues⟩ := (Bool.and_eq_true _ _).mp both
  obtain ⟨row, found, active⟩ := (Option.any_eq_true _ _).mp stored
  obtain ⟨last, run, removed⟩ := interleaved.exists_run_of_execute System.UpToDate continues
  have isRemoved := Option.isNone_iff_eq_none.mp removed
  obtain ⟨-, ends, -⟩ := outcomes_are_earned_and_kept reached run "job"
  obtain ⟨middle, ended, earlier, later, endedFound, terminal⟩ :=
    ends row found (of_decide_eq_true active) isRemoved
  exact ⟨first, middle, last, ended, reached, earlier, later, endedFound, terminal, isRemoved⟩

end OciTransfer
