import OciTransfer.QueueRuns

/-!
Terminal states under interleaved writes.

A completed or failed row never carries a claim token, so no worker moves it.
What moves a terminal row is a late write of `cancel` or `retry`, which looks
at nothing, and the calls of a worker whose token is still on a row that a late
write has cancelled.  A run without these keeps its terminal states.
-/

namespace OciTransfer

/-- The calls that leave the state of a cancelled row as it is. -/
def ClaimCall.leavesCancelled : ClaimCall → Prop
  | .progress event => event.namedDigest = none → event.phase.bind PhaseName.state? = none
  | .finish state _ _ => state = .cancelled
  | .failOrRetry _ => False
  | .heartbeat _ | .saveSnapshot _ | .releaseClaim => True

/-- The transaction is no late write on the row and no such worker's call. -/
def Transaction.RespectsFinality (row : JobRow) : Transaction → Prop
  | .cancelWrite job target _ => row.id = job → row.state.terminal = true →
      row.state = .cancelled ∧ target = .cancelled
  | .retryWrite job _ => row.id = job → row.state ≠ .completed ∧ row.state ≠ .cancelled
  | .call job token request _ => row.holdsClaim job token = true → row.state = .cancelled →
      request.leavesCancelled
  | _ => True

def FinalityRespected (system : System) : Action → Prop
  | .commit transaction => ∀ row ∈ system.store.jobs.rows, transaction.RespectsFinality row
  | _ => True

/-- What a step does to the terminal rows it does not delete. -/
def TerminalKept (before after : System) (action : Action) : Prop :=
  ∀ job row afterRow, before.store.jobs.find? job = some row →
    after.store.jobs.find? job = some afterRow →
    (row.state = .completed ∨ row.state = .cancelled → afterRow.state = row.state) ∧
    (row.state = .failed → afterRow.state = .failed ∨
      (afterRow.state = .queued ∧ ∃ current, action = .commit (.retryWrite job current)))

def JobRow.Settled (row : JobRow) : Prop :=
  row.state = .completed ∨ row.state = .failed → row.claimToken = none

namespace JobRow

private theorem settled_of_open {row : JobRow}
    (isOpen : row.state ≠ .completed ∧ row.state ≠ .failed) :
    row.Settled := by
  rintro (completed | failed)
  · exact absurd completed isOpen.1
  · exact absurd failed isOpen.2

theorem Settled.step {transaction : Transaction} {old row : JobRow}
    (changed : RowStep transaction old row) (settled : old.Settled) : row.Settled := by
  cases changed with
  | swept | finished | failed | givenBack | released => exact fun _ => rfl
  | taken _eligible =>
      apply settled_of_open
      cases stored : old.snapshotJson <;> simp [take, stored]
  | beat _sameId _holds _live => exact settled
  | pinned => exact settled_of_open ⟨by simp [pin], by simp [pin]⟩
  | entered _sameId _holds _named wanted =>
      obtain ⟨name, -, named⟩ := Option.bind_eq_some_iff.mp wanted
      apply settled_of_open
      cases name <;> cases named <;> simp [enter]
  | tallied => exact settled
  | @cancelWritten _ target =>
      apply settled_of_open
      cases target <;> simp [cancelWrite, CancelTarget.toJobState]
  | retryWritten => exact settled_of_open ⟨by simp [retryWrite], by simp [retryWrite]⟩

private theorem settled_of_found {system : System} (reached : interleaved.Reachable system)
    {job : String}
    {row : JobRow} (found : system.store.jobs.find? job = some row) : row.Settled :=
  System.row_invariant Settled
    (fun _ _ _ => settled_of_open ⟨by simp [fresh], by simp [fresh]⟩)
    (fun _ _ _ changed settled => settled.step changed) reached found

private theorem terminal_cases {row : JobRow} (terminal : row.state.terminal = true) :
    row.state = .completed ∨ row.state = .failed ∨ row.state = .cancelled := by
  cases stateEq : row.state <;> rw [stateEq] at terminal <;>
    first | exact Or.inl rfl | exact Or.inr (Or.inl rfl) | exact Or.inr (Or.inr rfl) |
      cases terminal

/-- A step that respects finality keeps completed and cancelled rows, and takes
a failed row nowhere but back into the queue. -/
theorem final_of_rowStep {transaction : Transaction} {old row : JobRow}
    (changed : RowStep transaction old row) (settled : old.Settled)
    (respects : transaction.RespectsFinality old) (terminal : old.state.terminal = true) :
    row.state = old.state ∨ (old.state = .failed ∧ row.state = .queued ∧
      ∃ current, transaction = .retryWrite old.id current) := by
  have isOpen : ∀ {state}, old.state = state → state.terminal = false → False := by
    intro state isState notTerminal
    rw [isState, notTerminal] at terminal
    cases terminal
  have isCancelled : ∀ {token}, old.claimToken = some token → old.state = .cancelled := by
    intro token holds
    rcases terminal_cases terminal with completed | failed | cancelled
    · rw [settled (Or.inl completed)] at holds
      cases holds
    · rw [settled (Or.inr failed)] at holds
      cases holds
    · exact cancelled
  have isWorking : old.state.working = true → False := by
    intro working
    have active := JobState.active_of_working working
    rw [JobState.active_eq_not_terminal, terminal] at active
    cases active
  cases changed with
  | swept due => exact absurd (JobRow.sweepDue_iff.mp due).1 fun is => isOpen is rfl
  | taken eligible =>
      rw [(JobRow.live_of_eligible eligible).1] at terminal
      cases terminal
  | beat => exact Or.inl rfl
  | pinned _sameId _holds planning => exact absurd planning fun is => isOpen is rfl
  | entered sameId holds named wanted =>
      have unwanted := respects (JobRow.holdsClaim_iff.mpr ⟨sameId, holds⟩)
        (isCancelled holds) named
      rw [unwanted] at wanted
      cases wanted
  | tallied => exact Or.inl rfl
  | finished sameId holds =>
      have cancelled := isCancelled holds
      have target := respects (JobRow.holdsClaim_iff.mpr ⟨sameId, holds⟩) cancelled
      left
      rw [cancelled, show _ = TerminalState.cancelled from target]
      rfl
  | failed sameId holds =>
      exact absurd (respects (JobRow.holdsClaim_iff.mpr ⟨sameId, holds⟩) (isCancelled holds)) id
  | givenBack _sameId _holds working => exact absurd working isWorking
  | released _owned working => exact absurd working isWorking
  | cancelWritten sameId =>
      obtain ⟨cancelled, target⟩ := respects sameId terminal
      left
      rw [cancelled, show _ = CancelTarget.cancelled from target]
      rfl
  | retryWritten sameId =>
      obtain ⟨notCompleted, notCancelled⟩ := respects sameId
      rcases terminal_cases terminal with completed | failed | cancelled
      · exact absurd completed notCompleted
      · exact Or.inr ⟨failed, rfl, _, by rw [sameId]⟩
      · exact absurd cancelled notCancelled

end JobRow

private theorem terminalKept_of_respected {before after : System} {action : Action}
    (reached : interleaved.Reachable before) (respected : FinalityRespected before action)
    (moved : before.next action = some after) : TerminalKept before after action := by
  intro job row afterRow found afterFound
  rcases System.next_row moved afterFound with
    ⟨old, present, rfl | ⟨transaction, rfl, changed⟩⟩ | ⟨absent, -⟩
  · rw [present] at found
    cases found
    exact ⟨fun _ => rfl, fun isFailed => Or.inl isFailed⟩
  · rw [present] at found
    cases found
    have rowId : row.id = job := before.store.jobs.find?_key present
    have kept : row.state.terminal = true → _ :=
      JobRow.final_of_rowStep changed (JobRow.settled_of_found reached present)
        (respected row (before.store.jobs.find?_mem present))
    constructor
    · intro final
      have terminal : row.state.terminal = true := by
        rcases final with completed | cancelled
        · rw [completed]; rfl
        · rw [cancelled]; rfl
      rcases kept terminal with same | ⟨isFailed, -⟩
      · exact same
      · rw [isFailed] at final
        rcases final with impossible | impossible <;> cases impossible
    · intro isFailed
      rcases kept (by rw [isFailed]; rfl) with same | ⟨-, queued, current, rfl⟩
      · exact Or.inl (same.trans isFailed)
      · exact Or.inr ⟨queued, current, by rw [rowId]⟩
  · rw [absent] at found
    cases found

private theorem leavesCancelled_of_stays {store : Store} {row : JobRow} {token : String}
    {request : ClaimCall} {current : Instant} (found : store.jobs.find? row.key = some row)
    (holds : row.claimToken = some token)
    (stays : ∀ afterRow,
      ((Transaction.call row.key token request current).commit store).jobs.find? row.key =
        some afterRow → afterRow.state = .cancelled) : request.leavesCancelled := by
  cases request with
  | heartbeat | saveSnapshot | releaseClaim => trivial
  | progress event =>
      intro named
      cases wanted : event.phase.bind PhaseName.state? with
      | none => rfl
      | some phase =>
          have impossible := stays _ (Transaction.find?_enter found holds named wanted)
          obtain ⟨name, -, phaseEq⟩ := Option.bind_eq_some_iff.mp wanted
          cases name <;> cases phaseEq <;> cases impossible
  | finish state code message =>
      have same := stays _ (Transaction.find?_finish found holds)
      cases state with
      | cancelled => rfl
      | completed | failed => cases same
  | failOrRetry failure =>
      have impossible := stays _ (Transaction.find?_failOrRetry found holds)
      cases retried : failure.retryable <;>
        simp [JobRow.failOrRetry, retried] at impossible

private theorem respected_of_terminalKept {before after : System} {action : Action}
    (moved : before.next action = some after) (kept : TerminalKept before after action) :
    FinalityRespected before action := by
  cases action with
  | cancelRead | retryRead | abandon | observe => trivial
  | commit transaction =>
      intro row member
      have found := before.store.jobs.find?_of_mem member
      have stored := System.next_commit_store moved
      cases transaction with
      | enqueue | claim | dismiss | release | prune => trivial
      | cancelWrite job target current =>
          intro rowId terminal
          subst rowId
          obtain ⟨stays, leaves⟩ := kept row.key row (row.cancelWrite target current) found (by
            rw [stored]
            exact Transaction.find?_cancelWrite found)
          rcases JobRow.terminal_cases terminal with completed | failed | cancelled
          · have impossible := stays (Or.inl completed)
            rw [completed] at impossible
            cases target <;> cases impossible
          · rcases leaves failed with impossible | ⟨impossible, -⟩ <;>
              cases target <;> cases impossible
          · have same := stays (Or.inr cancelled)
            rw [cancelled] at same
            cases target with
            | cancelled => exact ⟨cancelled, rfl⟩
            | cancelRequested => cases same
      | retryWrite job current =>
          intro rowId
          subst rowId
          obtain ⟨stays, -⟩ := kept row.key row (row.retryWrite current) found (by
            rw [stored]
            exact Transaction.find?_retryWrite found)
          constructor
          · intro completed
            have impossible := stays (Or.inl completed)
            rw [completed] at impossible
            cases impossible
          · intro cancelled
            have impossible := stays (Or.inr cancelled)
            rw [cancelled] at impossible
            cases impossible
      | call job token request current =>
          intro holdsClaim cancelled
          obtain ⟨rowId, holds⟩ := JobRow.holdsClaim_iff.mp holdsClaim
          subst rowId
          have stays : ∀ afterRow, after.store.jobs.find? row.key = some afterRow →
              afterRow.state = .cancelled := by
            intro afterRow afterFound
            exact ((kept row.key row afterRow found afterFound).1 (Or.inr cancelled)).trans
              cancelled
          rw [stored] at stays
          exact leavesCancelled_of_stays found holds stays

/-- A completed or cancelled job keeps its state as long as it is stored. -/
theorem final_state_stays {before later : System} (reached : interleaved.Reachable before)
    {job : String} {row : JobRow} (found : before.store.jobs.find? job = some row)
    (final : row.state = .completed ∨ row.state = .cancelled)
    (run : interleaved.Run FinalityRespected before later) :
    ∀ laterRow, later.store.jobs.find? job = some laterRow → laterRow.state = row.state := by
  have invariant := run.preserves
    (fun system => interleaved.Reachable system ∧ job ∈ system.jobIds ∧
      ∀ laterRow, system.store.jobs.find? job = some laterRow → laterRow.state = row.state)
    ?_ ⟨reached, System.drawn_of_found reached found, fun laterRow laterFound => by
      rw [found] at laterFound
      cases laterFound
      rfl⟩
  · exact invariant.2.2
  · rintro middle action next respected moved ⟨middleReached, drawn, stays⟩
    refine ⟨middleReached.step moved, (System.next_drawn moved).2 drawn, ?_⟩
    intro nextRow nextFound
    rcases System.next_row moved nextFound with ⟨old, present, -⟩ | ⟨-, undrawn, -⟩
    · have oldState := stays old present
      have kept := terminalKept_of_respected middleReached respected moved job old nextRow present
        nextFound
      exact (kept.1 (by rw [oldState]; exact final)).trans oldState
    · exact absurd drawn undrawn

/-- In a run without late writes on terminal rows, and without worker calls on
a cancelled row, terminal states are final; any such write or call takes a
terminal row where it may not go. -/
theorem terminal_states_final_unless_late_write {before : System}
    (run : interleaved.Run FinalityRespected System.initial before) :
    (∀ action after, before.next action = some after →
      (TerminalKept before after action ↔ FinalityRespected before action)) ∧
    ∀ job row, before.store.jobs.find? job = some row →
      row.state = .completed ∨ row.state = .cancelled →
      ∀ later, interleaved.Run FinalityRespected before later →
      ∀ laterRow, later.store.jobs.find? job = some laterRow → laterRow.state = row.state := by
  have reached : interleaved.Reachable before := ⟨System.initial, rfl, run.always⟩
  constructor
  · intro action after moved
    constructor
    · exact respected_of_terminalKept moved
    · exact fun respected => terminalKept_of_respected reached respected moved
  · intro job row found final later laterRun
    exact final_state_stays reached found final laterRun

/-- A client reads a planning job in `cancel`; before it writes, the worker finishes. -/
def completedBeforeCancel : List Action :=
  [.commit (.enqueue sampleValues "job" 0), .commit (.claim "worker" 60 1 "token"),
    .cancelRead "job", .commit (.call "job" "token" (.finish .completed none none) 2)]

theorem terminal_states_final_for_completed :
    ∃ before, interleaved.Run FinalityRespected System.initial before ∧
      ∃ row, before.store.jobs.find? "job" = some row ∧ row.state = .completed ∧
        ∀ later, interleaved.Run FinalityRespected before later →
          ∀ laterRow, later.store.jobs.find? "job" = some laterRow →
            laterRow.state = .completed := by
  have run : ((interleaved.execute
      (fun system action => action ∈ completedBeforeCancel ∧
        ∀ row ∈ system.store.jobs.rows, row.state ≠ .cancelled)
      completedBeforeCancel System.initial).any fun system =>
        (system.store.jobs.find? "job").any fun row => row.state = .completed) = true := by decide
  obtain ⟨before, ran, stored⟩ := interleaved.exists_run_of_execute _ run
  have admitted := ran.weaken FinalityRespected (by
    rintro system action ⟨member, live⟩
    simp only [completedBeforeCancel, List.mem_cons, List.not_mem_nil, or_false] at member
    rcases member with rfl | rfl | rfl | rfl
    · exact fun _ _ => trivial
    · exact fun _ _ => trivial
    · trivial
    · exact fun row rowMember _ cancelled => absurd cancelled (live row rowMember))
  obtain ⟨row, found, completed⟩ := (Option.any_eq_true _ _).mp stored
  have isCompleted : row.state = .completed := of_decide_eq_true completed
  have final := (terminal_states_final_unless_late_write admitted).2 "job" row found
    (Or.inl isCompleted)
  rw [isCompleted] at final
  exact ⟨before, admitted, row, found, isCompleted, final⟩

/-- The client's late write then takes the completed job out of its state. -/
theorem late_cancel_reopens_completed :
    ¬ ∀ before later, interleaved.Reachable before → interleaved.Run Machine.Always before later →
      ∀ job row laterRow, before.store.jobs.find? job = some row →
        later.store.jobs.find? job = some laterRow →
        row.state = .completed ∨ row.state = .cancelled → laterRow.state = row.state := by
  intro claimed
  have first : ((interleaved.execute Machine.Always completedBeforeCancel System.initial).any
      fun system => ((system.store.jobs.find? "job").any fun row => row.state = .completed) &&
        ((interleaved.execute Machine.Always
          [.commit (.cancelWrite "job" .cancelRequested 3)] system).any fun later =>
            (later.store.jobs.find? "job").any fun row =>
              row.state = .cancelRequested)) = true := by
    decide
  obtain ⟨before, reached, both⟩ := interleaved.exists_reachable_of_execute rfl first
  obtain ⟨wasCompleted, reopened⟩ := (Bool.and_eq_true _ _).mp both
  obtain ⟨later, run, isRequested⟩ := interleaved.exists_run_of_execute _ reopened
  obtain ⟨row, found, completed⟩ := (Option.any_eq_true _ _).mp wasCompleted
  obtain ⟨laterRow, laterFound, requested⟩ := (Option.any_eq_true _ _).mp isRequested
  have isCompleted : row.state = .completed := of_decide_eq_true completed
  have same := claimed before later reached run "job" row laterRow found laterFound
    (Or.inl isCompleted)
  rw [isCompleted, of_decide_eq_true requested] at same
  cases same

end OciTransfer
