import Mathlib.Data.List.Destutter
import OciTransfer.ClaimHistory
import OciTransfer.Removal

/-!
Waiting for a job.

`wait` reads the job at intervals, calls `on_update` whenever the record differs
from the one it read before, and returns the first record that is terminal.
Between two reads the queue moves as it likes.
-/

namespace OciTransfer

/-- What the caller passes as `on_update`. -/
inductive UpdateCallback where
  | coroutine
  | plain
  deriving DecidableEq, Repr

inductive WaitRefusal where
  | typeError (message : String)
  | valueError (message : String)
  deriving DecidableEq, Repr

inductive WaitEnd where
  | returned (job : CopyJob)
  | raised (error : StoreError)
  | callbackRaised
  deriving DecidableEq, Repr

/-- `previous` and `delivered` are what the loop keeps and what `on_update` was
called with; `reads` is on record only. -/
structure Waiter where
  job : String
  onUpdate : Bool
  interval : ℚ
  previous : Option CopyJob
  reads : List CopyJob
  delivered : List CopyJob
  outcome : Option WaitEnd
  deriving DecidableEq, Repr

/-- The checks before the loop.  A poll interval of zero is passed over by `or`. -/
def Waiter.begin (configured : ℚ) (job : String) (onUpdate : Option UpdateCallback)
    (pollInterval : Option ℚ) : Except WaitRefusal Waiter :=
  if onUpdate = some .plain then .error (.typeError "on_update must be an async callable")
  else
    let interval := (pollInterval.filter (· ≠ 0)).getD configured
    if interval ≤ 0 then .error (.valueError "poll_interval must be positive")
    else .ok
      { job := job
        onUpdate := onUpdate.isSome
        interval := interval
        previous := none
        reads := []
        delivered := []
        outcome := none }

/-- One pass of the loop; `callbackFails` says what `on_update` does if it is called. -/
def Waiter.poll (waiter : Waiter) (store : Store) (callbackFails : Bool) : Waiter :=
  match store.get waiter.job with
  | .error raised => { waiter with outcome := some (.raised raised) }
  | .ok job =>
      let called := waiter.onUpdate && some job ≠ waiter.previous
      let read :=
        { waiter with
          reads := waiter.reads ++ [job]
          delivered := if called then waiter.delivered ++ [job] else waiter.delivered }
      if called && callbackFails then { read with outcome := some .callbackRaised }
      else if job.state.terminal then { read with outcome := some (.returned job) }
      else { read with previous := some job }

inductive WatchAction where
  | queue (action : Action)
  | poll (callbackFails : Bool)
  deriving DecidableEq, Repr

/-- A queue in a concurrent run, and one caller of `wait`. -/
def watched : Machine (System × Waiter) WatchAction :=
  { start := fun state => interleaved.Reachable state.1 ∧
      ∃ configured job onUpdate pollInterval,
        Waiter.begin configured job onUpdate pollInterval = .ok state.2
    next := fun state action =>
      match action with
      | .queue move => (interleaved.next state.1 move).map fun after => (after, state.2)
      | .poll callbackFails =>
          if state.2.outcome.isNone then
            some (state.1, state.2.poll state.1.store callbackFails)
          else none }

/-! ### What stays true of a job -/

/-- What was read of a job earlier, and what is read of it later. -/
structure CopyJob.Precedes (earlier later : CopyJob) : Prop where
  id : later.id = earlier.id
  source : later.source = earlier.source
  destination : later.destination = earlier.destination
  createdAt : later.createdAt = earlier.createdAt
  runs : earlier.runCount ≤ later.runCount
  started : ∀ instant, earlier.startedAt = some instant → later.startedAt = some instant
  snapshot : ∀ digest, earlier.snapshotDigest = some digest →
    later.snapshotDigest = some digest ∧ later.resolvedSource = earlier.resolvedSource ∧
      later.expectedBytes = earlier.expectedBytes ∧ later.totalBlobs = earlier.totalBlobs

/-- The columns of a row that no snapshot fixes. -/
structure JobRow.Continues (earlier later : JobRow) : Prop where
  id : later.id = earlier.id
  source : later.source = earlier.source
  destination : later.destination = earlier.destination
  createdAt : later.createdAt = earlier.createdAt
  runs : earlier.runCount ≤ later.runCount
  started : ∀ instant, earlier.startedAt = some instant → later.startedAt = some instant

namespace JobRow.Continues

theorem refl (row : JobRow) : row.Continues row :=
  ⟨rfl, rfl, rfl, rfl, le_refl _, fun _ started => started⟩

theorem trans {first middle last : JobRow} (toMiddle : first.Continues middle)
    (toLast : middle.Continues last) : first.Continues last where
  id := toLast.id.trans toMiddle.id
  source := toLast.source.trans toMiddle.source
  destination := toLast.destination.trans toMiddle.destination
  createdAt := toLast.createdAt.trans toMiddle.createdAt
  runs := toMiddle.runs.trans toLast.runs
  started := fun instant started => toLast.started instant (toMiddle.started instant started)

theorem step {transaction : Transaction} {old row : JobRow}
    (changed : RowStep transaction old row) :
    old.Continues row := by
  cases changed with
  | taken _eligible =>
      refine ⟨rfl, rfl, rfl, rfl, Nat.le_succ _, fun instant started => ?_⟩
      change old.startedAt.or _ = some instant
      rw [started, Option.some_or]
  | swept | beat | pinned | entered | tallied | finished | failed | givenBack | released
  | cancelWritten | retryWritten =>
      exact ⟨rfl, rfl, rfl, rfl, le_refl _, fun _ started => started⟩

end JobRow.Continues

theorem JobStep.continues {transaction : Transaction} {old row : JobRow}
    {oldBlobs blobs : List BlobRow} (changed : JobStep transaction old oldBlobs row blobs) :
    old.Continues row := by
  cases changed with
  | changed changed => exact JobRow.Continues.step changed
  | pinned | recorded | tallied => exact ⟨rfl, rfl, rfl, rfl, le_refl _, fun _ started => started⟩

private theorem CopyJob.precedes_along_run {first last : System}
    (reached : interleaved.Reachable first)
    (run : interleaved.Run Machine.Always first last) {job : String} {earlier later : CopyJob}
    (readFirst : first.store.get job = .ok earlier) (readLast : last.store.get job = .ok later) :
    earlier.Precedes later := by
  obtain ⟨row, found, rfl⟩ := Store.get_eq_ok readFirst
  obtain ⟨laterRow, foundLast, rfl⟩ := Store.get_eq_ok readLast
  have continued := System.job_along_run
    (fun earlier later => earlier.1.Continues later.1) (fun _ => JobRow.Continues.refl _)
    (fun _ _ _ toMiddle toLast => toMiddle.trans toLast)
    (fun _ _ _ _ _ _ _ _ _ changed => changed.continues) reached run found foundLast
  refine ⟨continued.id, continued.source, continued.destination, continued.createdAt,
    continued.runs, continued.started, fun digest pinned => ?_⟩
  have follows := followsSnapshot_of_found reached found
  have followsLast := followsSnapshot_of_found (reached.run run) foundLast
  have pinnedRow : row.snapshotDigest = some digest := pinned
  rw [follows.digest] at pinnedRow
  obtain ⟨snapshot, stored, isDigest⟩ := Option.map_eq_some_iff.mp pinnedRow
  have same := (snapshotJson_kept reached run found foundLast stored).trans stored.symm
  have digests := followsLast.digest
  have resolved := followsLast.resolved
  have expected := followsLast.expected
  have total := followsLast.total
  rw [same] at digests resolved expected total
  exact ⟨digests.trans (follows.digest.symm.trans pinned), resolved.trans follows.resolved.symm,
    expected.trans follows.expected.symm, total.trans follows.total.symm⟩

/-! ### Reads and deliveries -/

private theorem destutter'_concat {α : Type} [DecidableEq α] (first last : α) (items : List α) :
    (items ++ [last]).destutter' (· ≠ ·) first =
      items.destutter' (· ≠ ·) first ++
        if some last = (first :: items).getLast? then [] else [last] := by
  induction items generalizing first with
  | nil =>
      simp only [List.nil_append, List.destutter'_singleton, List.destutter'_nil,
        List.getLast?_singleton, Option.some.injEq]
      by_cases same : last = first
      · rw [if_pos same, if_neg (fun differs => differs same.symm)]
        rfl
      · rw [if_neg same, if_pos (fun equal => same equal.symm)]
        rfl
  | cons head items ih =>
      rw [List.cons_append, List.destutter'_cons, List.destutter'_cons, List.getLast?_cons_cons]
      by_cases differs : first ≠ head
      · rw [if_pos differs, if_pos differs, ih, List.cons_append]
      · have same : first = head := not_not.mp differs
        rw [if_neg differs, if_neg differs, ih, same]

private theorem destutter_concat {α : Type} [DecidableEq α] (items : List α) (last : α) :
    (items ++ [last]).destutter (· ≠ ·) =
      items.destutter (· ≠ ·) ++ if some last = items.getLast? then [] else [last] := by
  cases items with
  | nil => rfl
  | cons first rest => exact destutter'_concat first last rest

/-- What the loop has read and delivered, while it goes on and once it has ended. -/
structure Waiter.Follows (waiter : Waiter) (system : System) : Prop where
  delivered : waiter.delivered = if waiter.onUpdate then waiter.reads.destutter (· ≠ ·) else []
  readAt : ∀ read ∈ waiter.reads, ∃ earlier, interleaved.Reachable earlier ∧
    interleaved.Run Machine.Always earlier system ∧ earlier.store.get waiter.job = .ok read
  ordered : waiter.reads.Pairwise CopyJob.Precedes
  running : ∀ read ∈ waiter.reads.dropLast, read.state.terminal = false
  going : waiter.outcome = none →
    waiter.previous = waiter.reads.getLast? ∧ ∀ read ∈ waiter.reads, read.state.terminal = false
  returned : ∀ job, waiter.outcome = some (.returned job) → job.state.terminal = true ∧
    waiter.reads.getLast? = some job ∧
      (waiter.onUpdate = true → waiter.delivered.getLast? = some job)
  failed : waiter.outcome = some .callbackRaised → waiter.onUpdate = true ∧
    waiter.delivered ≠ [] ∧ waiter.delivered.getLast? = waiter.reads.getLast?
  raised : ∀ error, waiter.outcome = some (.raised error) → error = .jobNotFound waiter.job ∧
    (waiter.reads ≠ [] → system.store.jobs.find? waiter.job = none)

private theorem Store.absent_of_get {store : Store} {job : String} {raised : StoreError}
    (got : store.get job = .error raised) :
    raised = .jobNotFound job ∧ store.jobs.find? job = none := by
  unfold get at got
  split at got
  · rename_i absent
    cases got
    exact ⟨rfl, absent⟩
  · cases got

namespace Waiter.Follows

variable {waiter : Waiter} {before after : System}

private theorem drawn_of_reads (follows : waiter.Follows before) (someRead : waiter.reads ≠ []) :
    waiter.job ∈ before.jobIds := by
  obtain ⟨read, member⟩ := List.exists_mem_of_ne_nil _ someRead
  obtain ⟨earlier, reached, run, got⟩ := follows.readAt read member
  obtain ⟨row, found, -⟩ := Store.get_eq_ok got
  exact run.preserves (fun system => waiter.job ∈ system.jobIds)
    (fun _ _ _ _ moved drawn => (System.next_drawn moved).2 drawn)
    (System.drawn_of_found reached found)

private theorem queue_step (follows : waiter.Follows before) {action : Action}
    (moved : interleaved.next before action = some after) : waiter.Follows after :=
  { follows with
    readAt := by
      intro read member
      obtain ⟨earlier, reached, run, got⟩ := follows.readAt read member
      exact ⟨earlier, reached, run.tail trivial moved, got⟩
    raised := by
      intro error isRaised
      obtain ⟨isNotFound, absent⟩ := follows.raised error isRaised
      refine ⟨isNotFound, fun someRead => ?_⟩
      exact System.absent_step moved (follows.drawn_of_reads someRead) (absent someRead) }

private theorem read_step (follows : waiter.Follows before) (reached : interleaved.Reachable before)
    {job : CopyJob} (got : before.store.get waiter.job = .ok job) :
    (∀ read ∈ waiter.reads ++ [job], ∃ earlier, interleaved.Reachable earlier ∧
      interleaved.Run Machine.Always earlier before ∧
      earlier.store.get waiter.job = .ok read) ∧
    (waiter.reads ++ [job]).Pairwise CopyJob.Precedes := by
  constructor
  · intro read member
    rcases List.mem_append.mp member with earlier | isLast
    · exact follows.readAt read earlier
    · rw [List.mem_singleton.mp isLast]
      exact ⟨before, reached, Machine.Run.refl before, got⟩
  · rw [List.pairwise_append]
    refine ⟨follows.ordered, List.pairwise_singleton _ _, fun read member last isLast => ?_⟩
    obtain ⟨earlier, reachedEarlier, run, gotEarlier⟩ := follows.readAt read member
    rw [List.mem_singleton.mp isLast]
    exact CopyJob.precedes_along_run reachedEarlier run gotEarlier got

private theorem poll_step (follows : waiter.Follows before) (reached : interleaved.Reachable before)
    (going : waiter.outcome = none) (callbackFails : Bool) :
    (waiter.poll before.store callbackFails).Follows before := by
  obtain ⟨isPrevious, allOpen⟩ := follows.going going
  unfold Waiter.poll
  cases got : before.store.get waiter.job with
  | error raised =>
      obtain ⟨isNotFound, absent⟩ := Store.absent_of_get got
      exact
        { delivered := follows.delivered
          readAt := follows.readAt
          ordered := follows.ordered
          running := follows.running
          going := fun impossible => by cases impossible
          returned := fun job impossible => by cases impossible
          failed := fun impossible => by cases impossible
          raised := fun error isRaised => by
            cases isRaised
            exact ⟨isNotFound, fun _ => absent⟩ }
  | ok job =>
      obtain ⟨readAt, ordered⟩ := follows.read_step reached got
      have running : ∀ read ∈ (waiter.reads ++ [job]).dropLast, read.state.terminal = false := by
        rw [List.dropLast_concat]
        exact allOpen
      have lastRead : (waiter.reads ++ [job]).getLast? = some job := List.getLast?_concat
      have delivers : (if waiter.onUpdate && decide (some job ≠ waiter.previous)
          then waiter.delivered ++ [job] else waiter.delivered) =
          if waiter.onUpdate then (waiter.reads ++ [job]).destutter (· ≠ ·) else [] := by
        rw [follows.delivered, isPrevious, destutter_concat]
        cases waiter.onUpdate
        · rfl
        · by_cases same : some job = waiter.reads.getLast? <;> simp [same]
      dsimp only
      generalize isCalled : (waiter.onUpdate && decide (some job ≠ waiter.previous)) = called
        at delivers ⊢
      split
      · rename_i both
        obtain ⟨wasCalled, -⟩ := (Bool.and_eq_true _ _).mp both
        subst wasCalled
        exact
          { delivered := delivers
            readAt := readAt
            ordered := ordered
            running := running
            going := fun impossible => by cases impossible
            returned := fun job impossible => by cases impossible
            failed := fun _ => ⟨((Bool.and_eq_true _ _).mp isCalled).1, by simp, by simp⟩
            raised := fun error impossible => by cases impossible }
      · split
        · rename_i terminal
          refine
            { delivered := delivers
              readAt := readAt
              ordered := ordered
              running := running
              going := fun impossible => by cases impossible
              returned := ?_
              failed := fun impossible => by cases impossible
              raised := fun error impossible => by cases impossible }
          intro last isLast
          cases isLast
          refine ⟨terminal, lastRead, fun reports => ?_⟩
          -- the records read before are not terminal, so this one differs from the last of them
          have isNew : some job ≠ waiter.previous := by
            intro same
            rw [isPrevious] at same
            rw [allOpen job (List.mem_of_getLast? same.symm)] at terminal
            cases terminal
          have wasCalled : called = true := by
            rw [← isCalled, decide_eq_true isNew, Bool.and_true]
            exact reports
          rw [if_pos wasCalled]
          exact List.getLast?_concat
        · rename_i stillOpen
          refine
            { delivered := delivers
              readAt := readAt
              ordered := ordered
              running := running
              going := fun _ => ⟨lastRead.symm, fun read member => ?_⟩
              returned := fun last impossible => by rw [going] at impossible; cases impossible
              failed := fun impossible => by rw [going] at impossible; cases impossible
              raised := fun error impossible => by rw [going] at impossible; cases impossible }
          rcases List.mem_append.mp member with earlier | isLast
          · exact allOpen read earlier
          · rw [List.mem_singleton.mp isLast]
            exact Bool.eq_false_iff.mpr stillOpen

theorem begun {system : System} {configured : ℚ} {job : String}
    {onUpdate : Option UpdateCallback} {pollInterval : Option ℚ}
    (accepted : Waiter.begin configured job onUpdate pollInterval = .ok waiter) :
    waiter.Follows system := by
  simp only [Waiter.begin] at accepted
  split at accepted
  · cases accepted
  · split at accepted <;> cases accepted
    exact
      { delivered := by cases onUpdate <;> rfl
        readAt := fun read member => by cases member
        ordered := List.Pairwise.nil
        running := fun read member => by cases member
        going := fun _ => ⟨rfl, fun read member => by cases member⟩
        returned := fun job impossible => by cases impossible
        failed := fun impossible => by cases impossible
        raised := fun error impossible => by cases impossible }

end Waiter.Follows

private theorem watched_follows {state : System × Waiter} (reached : watched.Reachable state) :
    interleaved.Reachable state.1 ∧ state.2.Follows state.1 := by
  refine reached.invariant
    (fun state => interleaved.Reachable state.1 ∧ state.2.Follows state.1) ?_ ?_
  · rintro state ⟨reached, configured, job, onUpdate, pollInterval, accepted⟩
    exact ⟨reached, Waiter.Follows.begun accepted⟩
  · rintro before action after moved ⟨reachedBefore, follows⟩
    cases action with
    | queue move =>
        obtain ⟨system, stepped, rfl⟩ := Option.map_eq_some_iff.mp moved
        exact ⟨reachedBefore.step stepped, follows.queue_step stepped⟩
    | poll callbackFails =>
        simp only [watched] at moved
        split at moved
        · rename_i going
          cases moved
          exact ⟨reachedBefore, follows.poll_step reachedBefore
            (Option.isNone_iff_eq_none.mp going) callbackFails⟩
        · cases moved

/-- Whatever the queue does between its reads, `wait` calls `on_update` with exactly
the records that differ from the one read before, and these do not take back what was
said before.  It returns at the first terminal record, having delivered it, and raises
only when the callback does or when there is no such job, then or ever after. -/
theorem waiting_reports_changes_in_order {state : System × Waiter}
    (reached : watched.Reachable state) :
    (∀ read ∈ state.2.reads, ∃ earlier, interleaved.Reachable earlier ∧
      interleaved.Run Machine.Always earlier state.1 ∧
      earlier.store.get state.2.job = .ok read) ∧
    state.2.reads.Pairwise CopyJob.Precedes ∧
    state.2.delivered =
      (if state.2.onUpdate then state.2.reads.destutter (· ≠ ·) else []) ∧
    (∀ read ∈ state.2.reads.dropLast, read.state.terminal = false) ∧
    (state.2.outcome = none → ∀ read ∈ state.2.reads, read.state.terminal = false) ∧
    (∀ job, state.2.outcome = some (.returned job) → job.state.terminal = true ∧
      state.2.reads.getLast? = some job ∧
      (state.2.onUpdate = true → state.2.delivered.getLast? = some job)) ∧
    (state.2.outcome = some .callbackRaised → state.2.onUpdate = true ∧
      state.2.delivered ≠ [] ∧ state.2.delivered.getLast? = state.2.reads.getLast?) ∧
    (∀ error, state.2.outcome = some (.raised error) → error = .jobNotFound state.2.job ∧
      (state.2.reads ≠ [] → state.1.store.jobs.find? state.2.job = none)) := by
  have follows := (watched_follows reached).2
  exact ⟨follows.readAt, follows.ordered, follows.delivered, follows.running,
    fun going => (follows.going going).2, follows.returned, follows.failed, follows.raised⟩

def sampleWaiter : Waiter :=
  { job := "job"
    onUpdate := true
    interval := 1 / 5
    previous := none
    reads := []
    delivered := []
    outcome := none }

def waitedUntilCompleted : List WatchAction :=
  [.queue (.commit (.enqueue sampleValues "job" 0)), .poll false,
    .queue (.commit (.claim "worker" 60 1 "token")), .poll false, .poll false,
    .queue (.commit (.call "job" "token" (.finish .completed none none) 2)), .poll false]

theorem waiting_reports_changes_in_order_until_completed :
    ∃ state job, watched.Reachable state ∧ state.2.outcome = some (.returned job) ∧
      state.2.reads.length = 4 ∧ state.2.delivered = state.2.reads.destutter (· ≠ ·) ∧
      state.2.delivered.getLast? = some job := by
  have begun : Waiter.begin (1 / 5) "job" (some .coroutine) none = .ok sampleWaiter := by
    decide +kernel
  have started : watched.start (System.initial, sampleWaiter) :=
    ⟨⟨System.initial, rfl, Machine.Run.refl _⟩, 1 / 5, "job", some .coroutine, none, begun⟩
  have runs : ((watched.execute Machine.Always waitedUntilCompleted
      (System.initial, sampleWaiter)).any fun state => state.2.onUpdate &&
        state.2.reads.length = 4 && state.2.outcome.any fun outcome =>
          match outcome with
          | .returned _ => true
          | _ => false) = true := by decide +kernel
  obtain ⟨state, reached, tested⟩ := watched.exists_reachable_of_execute started runs
  obtain ⟨both, ended⟩ := (Bool.and_eq_true _ _).mp tested
  obtain ⟨reports, fourReads⟩ := (Bool.and_eq_true _ _).mp both
  obtain ⟨outcome, isOutcome, isReturned⟩ := (Option.any_eq_true _ _).mp ended
  cases outcome with
  | returned job =>
      obtain ⟨-, -, delivered, -, -, returned, -⟩ := waiting_reports_changes_in_order reached
      rw [if_pos reports] at delivered
      exact ⟨state, job, reached, isOutcome, of_decide_eq_true fourReads, delivered,
        (returned job isOutcome).2.2 reports⟩
  | raised | callbackRaised => cases isReturned

end OciTransfer
