import OciTransfer.BlobAggregates

/-!
Progress that moves backward, and the clock it moves.

The offset of a blob is a maximum, except that a completion puts the blob's
size in its place, and the disposition is whatever the last event says.  So
the counts of a job grow along exactly the kind of run in which no event takes
a completion back and none completes a blob below the offset it has reached.
The no-progress clock needs only the first of the two.
-/

namespace OciTransfer

/-- The event does not take back that the blob is done. -/
def BlobRow.KeepsCompletion (blob : BlobRow) (event : Event) : Prop :=
  blob.disposition.done = true → event.reportedDisposition.done = true

/-- The event does not complete the blob below the offset it has reached. -/
def BlobRow.KeepsOffset (blob : BlobRow) (event : Event) : Prop :=
  event.reportedDisposition.done = true → ∀ size ∈ blob.size, blob.offset ≤ size

instance : DecidableRel BlobRow.KeepsCompletion := fun _ _ => inferInstanceAs (Decidable (_ → _))

instance : DecidableRel BlobRow.KeepsOffset := fun blob _ =>
  inferInstanceAs (Decidable (_ → ∀ size ∈ blob.size, _))

/-- What holds of an event for a stored blob, whatever its token. -/
def BlobEvents (condition : BlobRow → Event → Prop) (system : System) : Action → Prop
  | .commit (.call job _ (.progress event) _) => ∀ digest ∈ event.namedDigest,
      ∀ blob ∈ system.store.blobs.find? (job, digest), condition blob event
  | _ => True

instance (condition : BlobRow → Event → Prop) [DecidableRel condition] :
    DecidableRel (BlobEvents condition) := fun system action =>
  match action with
  | .commit (.call job _ (.progress event) _) =>
      inferInstanceAs (Decidable (∀ digest ∈ event.namedDigest,
        ∀ blob ∈ system.store.blobs.find? (job, digest), condition blob event))
  | .commit (.call _ _ (.heartbeat _) _) | .commit (.call _ _ (.saveSnapshot _) _)
  | .commit (.call _ _ (.finish _ _ _) _) | .commit (.call _ _ (.failOrRetry _) _)
  | .commit (.call _ _ .releaseClaim _) | .commit (.enqueue _ _ _) | .commit (.claim _ _ _ _)
  | .commit (.cancelWrite _ _ _) | .commit (.retryWrite _ _) | .commit (.dismiss _)
  | .commit (.release _ _) | .commit (.prune _ _ _) | .cancelRead _ | .retryRead _ | .abandon _
  | .observe => isTrue trivial

/-- No event takes back a completion, or completes a blob below its offset. -/
def ProgressKept : System → Action → Prop :=
  BlobEvents fun blob event => blob.KeepsCompletion event ∧ blob.KeepsOffset event

def CompletionKept : System → Action → Prop :=
  BlobEvents BlobRow.KeepsCompletion

instance : DecidableRel ProgressKept := inferInstanceAs (DecidableRel (BlobEvents _))

instance : DecidableRel CompletionKept := inferInstanceAs (DecidableRel (BlobEvents _))

/-! ### One blob -/

namespace BlobRow

private theorem offset_le_logicalAfter {blob : BlobRow} {event : Event}
    (keeps : blob.KeepsOffset event) :
    blob.offset ≤ blob.logicalAfter event := by
  unfold logicalAfter
  cases finished : event.reportedDisposition.done with
  | false => exact le_max_left _ _
  | true =>
      cases known : blob.size with
      | none => exact le_max_left _ _
      | some size => exact keeps finished size known

/-- What a later row of a blob has kept of an earlier one. -/
structure Grown (earlier later : BlobRow) : Prop where
  offset : earlier.offset ≤ later.offset
  network : earlier.networkOffset ≤ later.networkOffset
  finished : earlier.disposition.done = true → later.disposition.done = true

theorem Grown.refl (blob : BlobRow) : blob.Grown blob :=
  ⟨le_refl _, le_refl _, id⟩

theorem Grown.trans {first middle last : BlobRow} (toMiddle : first.Grown middle)
    (toLast : middle.Grown last) : first.Grown last where
  offset := toMiddle.offset.trans toLast.offset
  network := toMiddle.network.trans toLast.network
  finished := fun finished => toLast.finished (toMiddle.finished finished)

private theorem grown_record {blob : BlobRow} {event : Event}
    (completion : blob.KeepsCompletion event)
    (offset : blob.KeepsOffset event) (current : Instant) :
    blob.Grown (blob.record event current) where
  offset := offset_le_logicalAfter offset
  network := le_max_left _ _
  finished := completion

end BlobRow

/-! ### The sums of a job -/

namespace BlobTotals

instance : Preorder BlobTotals where
  le left right := left.bytes ≤ right.bytes ∧ left.networkBytes ≤ right.networkBytes ∧
    left.finished ≤ right.finished
  le_refl totals := ⟨le_refl _, le_refl _, le_refl _⟩
  le_trans first middle last toMiddle toLast :=
    ⟨toMiddle.1.trans toLast.1, toMiddle.2.1.trans toLast.2.1, toMiddle.2.2.trans toLast.2.2⟩

private theorem of_map_le {change : BlobRow → BlobRow} (blobs : List BlobRow)
    (grown : ∀ blob ∈ blobs, blob.Grown (change blob)) : of blobs ≤ of (blobs.map change) := by
  induction blobs with
  | nil => exact le_refl _
  | cons blob rest ih =>
      have head := grown blob List.mem_cons_self
      obtain ⟨bytes, network, finished⟩ :=
        ih fun other member => grown other (List.mem_cons_of_mem _ member)
      simp only [of, List.map_cons, List.sum_cons, List.countP_cons] at bytes network finished ⊢
      refine ⟨Nat.add_le_add head.offset bytes, Nat.add_le_add head.network network, ?_⟩
      refine Nat.add_le_add finished ?_
      cases was : blob.disposition.done with
      | false => exact Nat.zero_le _
      | true => rw [head.finished was]

private theorem of_append_le (blobs more : List BlobRow) : of blobs ≤ of (blobs ++ more) := by
  simp only [of, List.map_append, List.sum_append, List.countP_append]
  exact ⟨Nat.le_add_right _ _, Nat.le_add_right _ _, Nat.le_add_right _ _⟩

end BlobTotals

/-! ### The columns of a job -/

private theorem totals_recordIn_le {store : Store} {job digest : String} {event : Event}
    (kept : ∀ blob, store.blobs.find? (job, digest) = some blob →
      blob.KeepsCompletion event ∧ blob.KeepsOffset event) (current : Instant) :
    BlobTotals.of (store.jobBlobs job) ≤
      BlobTotals.of (BlobRow.recordIn digest event current (store.jobBlobs job)) := by
  apply BlobTotals.of_map_le
  intro blob member
  by_cases same : blob.digest = digest
  · rw [if_pos same]
    have found := Store.find?_of_mem_jobBlobs member
    rw [same] at found
    obtain ⟨completion, offset⟩ := kept blob found
    exact BlobRow.grown_record completion offset current
  · rw [if_neg same]
    exact BlobRow.Grown.refl blob

/-- The columns of a job lag behind the sums of its blobs, and an admitted
transaction moves neither of them back. -/
theorem counted_step {before : System} {transaction : Transaction} {job : String} {old row : JobRow}
    {blobs : List BlobRow} (kept : ProgressKept before (.commit transaction))
    (present : before.store.jobs.find? job = some old)
    (changed : JobStep transaction old (before.store.jobBlobs job) row blobs)
    (within : old.counted ≤ before.store.totals job) :
    row.counted ≤ BlobTotals.of blobs ∧ old.counted ≤ row.counted := by
  have oldId : old.id = job := before.store.jobs.find?_key present
  cases changed with
  | changed changed writesNone =>
      have notBlob : ∀ job token event digest current,
          transaction = .call job token (.progress event) current →
            event.namedDigest ≠ some digest := by
        rintro _ _ event digest _ rfl named
        simp [Transaction.writesBlobs, named] at writesNone
      rw [counted_of_rowStep changed notBlob]
      exact ⟨within, le_refl _⟩
  | pinned => exact ⟨within.trans (BlobTotals.of_append_le _ _), le_refl _⟩
  | recorded sameId _notHeld named =>
      cases sameId.symm.trans oldId
      exact ⟨within.trans (totals_recordIn_le (kept _ named) _), le_refl _⟩
  | tallied sameId _holds named =>
      cases sameId.symm.trans oldId
      exact ⟨le_refl _, within.trans (totals_recordIn_le (kept _ named) _)⟩

private theorem counted_within {system : System}
    (run : interleaved.Run ProgressKept System.initial system)
    {job : String} {row : JobRow} (found : system.store.jobs.find? job = some row) :
    row.counted ≤ system.store.totals job :=
  System.job_invariant (fun row blobs => row.counted ≤ BlobTotals.of blobs)
    (fun _ _ _ => ⟨Nat.zero_le _, Nat.zero_le _, Nat.zero_le _⟩)
    (fun _ _ _ _ _ _ kept present changed within => (counted_step kept present changed within).1)
    run found

/-- Along every run whose events take back no completion and complete no blob
below its offset, the offsets of the blobs and the counts of the job only grow. -/
theorem progress_grows_while_kept {earlier later : System}
    (before : interleaved.Run ProgressKept System.initial earlier)
    (run : interleaved.Run ProgressKept earlier later) {job : String} {old row : JobRow}
    (foundEarlier : earlier.store.jobs.find? job = some old)
    (foundLater : later.store.jobs.find? job = some row) :
    (∀ digest blob, earlier.store.blobs.find? (job, digest) = some blob →
      ∃ now, later.store.blobs.find? (job, digest) = some now ∧
        blob.offset ≤ now.offset ∧ blob.networkOffset ≤ now.networkOffset) ∧
    old.completedBytes ≤ row.completedBytes ∧ old.networkBytes ≤ row.networkBytes ∧
      old.completedBlobs ≤ row.completedBlobs := by
  have reached : interleaved.Reachable earlier := ⟨System.initial, rfl, before.always⟩
  constructor
  · intro digest blob found
    obtain ⟨now, foundNow, grown⟩ := System.blob_along_run BlobRow.Grown BlobRow.Grown.refl
      (fun _ _ _ => BlobRow.Grown.trans)
      (fun _ _ _ _ digest current blob kept _ named found =>
        BlobRow.grown_record (kept digest named blob found).1 (kept digest named blob found).2
          current)
      reached run found foundLater
    exact ⟨now, foundNow, grown.offset, grown.network⟩
  · have grows := System.job_along_run
      (fun earlier later => earlier.1.counted ≤ BlobTotals.of earlier.2 →
        later.1.counted ≤ BlobTotals.of later.2 ∧ earlier.1.counted ≤ later.1.counted)
      (fun _ within => ⟨within, le_refl _⟩)
      (fun _ _ _ toMiddle toLast within => by
        obtain ⟨withinMiddle, grownMiddle⟩ := toMiddle within
        obtain ⟨withinLast, grownLast⟩ := toLast withinMiddle
        exact ⟨withinLast, grownMiddle.trans grownLast⟩)
      (fun _ _ _ _ _ _ kept _ present changed within => counted_step kept present changed within)
      reached run foundEarlier foundLater
    exact (grows (counted_within before foundEarlier)).2

def blobReport (token : String) (offset : Int) (disposition : BlobDisposition) (current : Instant) :
    Action :=
  .commit (.call "job" token (.progress
    { sampleProgress with offset := some offset, disposition := some disposition }) current)

def claimedAndPinned : List Action :=
  [.commit (.enqueue sampleValues "job" 0), .commit (.claim "worker" 60 1 "first"),
    .commit (.call "job" "first" (.saveSnapshot sampleSnapshot) 2)]

theorem progress_grows_while_kept_over_two_claims :
    ∃ earlier later old row blob now, interleaved.Run ProgressKept System.initial earlier ∧
      interleaved.Run ProgressKept earlier later ∧
      earlier.store.blobs.find? ("job", "sha256:bb") = some blob ∧
      later.store.blobs.find? ("job", "sha256:bb") = some now ∧ blob.offset ≤ now.offset ∧
      earlier.store.jobs.find? "job" = some old ∧ later.store.jobs.find? "job" = some row ∧
      old.completedBytes ≤ row.completedBytes := by
  have run : ((interleaved.execute ProgressKept
      (claimedAndPinned ++ [blobReport "first" 5 .transferring 3])
      System.initial).any fun earlier =>
        (earlier.store.jobs.find? "job").isSome &&
        (earlier.store.blobs.find? ("job", "sha256:bb")).isSome &&
        ((interleaved.execute ProgressKept
          [.commit (.call "job" "first" .releaseClaim 4),
            .commit (.claim "worker" 60 5 "second"), blobReport "second" 3 .transferring 6,
            blobReport "second" 10 .completed 7] earlier).any fun later =>
          (later.store.jobs.find? "job").isSome)) = true := by decide
  obtain ⟨earlier, toEarlier, tested⟩ := interleaved.exists_run_of_execute _ run
  obtain ⟨both, laterTested⟩ := (Bool.and_eq_true _ _).mp tested
  obtain ⟨oldStored, blobStored⟩ := (Bool.and_eq_true _ _).mp both
  obtain ⟨later, toLater, stored⟩ := interleaved.exists_run_of_execute _ laterTested
  obtain ⟨old, oldFound⟩ := Option.isSome_iff_exists.mp oldStored
  obtain ⟨blob, blobFound⟩ := Option.isSome_iff_exists.mp blobStored
  obtain ⟨row, rowFound⟩ := Option.isSome_iff_exists.mp stored
  obtain ⟨grown, bytes, -⟩ := progress_grows_while_kept toEarlier toLater oldFound rowFound
  obtain ⟨now, nowFound, offset, -⟩ := grown "sha256:bb" blob blobFound
  exact ⟨earlier, later, old, row, blob, now, toEarlier, toLater, blobFound, nowFound, offset,
    oldFound, rowFound, bytes⟩

/-- A completion puts the size ten in the place of the offset twenty, and an
event that says transferring takes a finished blob out of the count. -/
theorem progress_moves_backward :
    (¬ ∀ before action after job digest blob now, interleaved.Reachable before →
      interleaved.next before action = some after →
      before.store.blobs.find? (job, digest) = some blob →
      after.store.blobs.find? (job, digest) = some now → blob.offset ≤ now.offset) ∧
    ¬ ∀ before action after job old row, interleaved.Reachable before →
      interleaved.next before action = some after →
      before.store.jobs.find? job = some old → after.store.jobs.find? job = some row →
      old.completedBlobs ≤ row.completedBlobs := by
  constructor
  · intro claimed
    have run : ((interleaved.execute Machine.Always
        (claimedAndPinned ++ [blobReport "first" 20 .transferring 3]) System.initial).any
          fun before => (before.store.blobs.find? ("job", "sha256:bb")).any fun blob =>
            (interleaved.next before (blobReport "first" 10 .completed 4)).any fun after =>
              (after.store.blobs.find? ("job", "sha256:bb")).any fun now =>
                decide (now.offset < blob.offset)) = true := by decide
    obtain ⟨before, reached, tested⟩ := interleaved.exists_reachable_of_execute rfl run
    obtain ⟨blob, blobFound, tested⟩ := (Option.any_eq_true _ _).mp tested
    obtain ⟨after, moved, tested⟩ := (Option.any_eq_true _ _).mp tested
    obtain ⟨now, nowFound, falls⟩ := (Option.any_eq_true _ _).mp tested
    have kept := claimed before _ after "job" "sha256:bb" blob now reached moved blobFound nowFound
    exact absurd (of_decide_eq_true falls) (not_lt.mpr kept)
  · intro claimed
    have run : ((interleaved.execute Machine.Always
        (claimedAndPinned ++ [blobReport "first" 10 .completed 3]) System.initial).any
          fun before => (before.store.jobs.find? "job").any fun old =>
            (interleaved.next before (blobReport "first" 0 .transferring 4)).any fun after =>
              (after.store.jobs.find? "job").any fun row =>
                decide (row.completedBlobs < old.completedBlobs)) = true := by decide
    obtain ⟨before, reached, tested⟩ := interleaved.exists_reachable_of_execute rfl run
    obtain ⟨old, oldFound, tested⟩ := (Option.any_eq_true _ _).mp tested
    obtain ⟨after, moved, tested⟩ := (Option.any_eq_true _ _).mp tested
    obtain ⟨row, rowFound, falls⟩ := (Option.any_eq_true _ _).mp tested
    have kept := claimed before _ after "job" old row reached moved oldFound rowFound
    exact absurd (of_decide_eq_true falls) (not_lt.mpr kept)

/-! ### The no-progress clock -/

namespace BlobRow

/-- A finished blob of known size stands at its size. -/
def DoneAtSize (blob : BlobRow) : Prop :=
  blob.disposition.done = true → ∀ size, blob.size = some size → blob.offset = size

private theorem doneAtSize_record (blob : BlobRow) (event : Event) (current : Instant) :
    (blob.record event current).DoneAtSize := by
  intro finished size known
  change blob.logicalAfter event = size
  unfold logicalAfter
  rw [show event.reportedDisposition.done = true from finished,
    show blob.size = some size from known]

/-- What a later row has kept of an earlier one when completions are kept: until
the blob stands finished at its size, its offset is a maximum. -/
structure Later (earlier later : BlobRow) : Prop where
  size : later.size = earlier.size
  finished : earlier.disposition.done = true → later.disposition.done = true
  offset : later.disposition.done = false ∨ later.size = none → earlier.offset ≤ later.offset

theorem Later.refl (blob : BlobRow) : blob.Later blob :=
  ⟨rfl, id, fun _ => le_refl _⟩

theorem Later.trans {first middle last : BlobRow} (toMiddle : first.Later middle)
    (toLast : middle.Later last) : first.Later last where
  size := toLast.size.trans toMiddle.size
  finished := fun finished => toLast.finished (toMiddle.finished finished)
  offset := by
    intro stillOpen
    refine (toMiddle.offset ?_).trans (toLast.offset stillOpen)
    rcases stillOpen with unfinished | unknown
    · left
      cases wasFinished : middle.disposition.done with
      | false => rfl
      | true => rw [toLast.finished wasFinished] at unfinished; cases unfinished
    · exact Or.inr (toLast.size.symm.trans unknown)

private theorem later_record {blob : BlobRow} {event : Event} (keeps : blob.KeepsCompletion event)
    (current : Instant) : blob.Later (blob.record event current) where
  size := rfl
  finished := keeps
  offset := by
    rintro (unfinished | unknown)
    · change event.reportedDisposition.done = false at unfinished
      change blob.offset ≤ blob.logicalAfter event
      unfold logicalAfter
      rw [unfinished]
      exact le_max_left _ _
    · change blob.size = none at unknown
      change blob.offset ≤ blob.logicalAfter event
      unfold logicalAfter
      rw [unknown]
      cases event.reportedDisposition.done <;> exact le_max_left _ _

private theorem open_of_raised {blob : BlobRow} {event : Event} (keeps : blob.KeepsCompletion event)
    (atSize : blob.DoneAtSize) (raised : blob.offset < blob.logicalAfter event) :
    blob.disposition.done = false ∨ blob.size = none := by
  cases finished : blob.disposition.done with
  | false => exact Or.inl rfl
  | true =>
      cases known : blob.size with
      | none => exact Or.inr rfl
      | some size =>
          have same := atSize finished size known
          unfold logicalAfter at raised
          rw [keeps finished, known] at raised
          exact absurd same (Nat.ne_of_lt raised)

end BlobRow

private theorem doneAtSize_of_found {system : System} (reached : interleaved.Reachable system)
    {job digest : String} {blob : BlobRow}
    (found : system.store.blobs.find? (job, digest) = some blob) : blob.DoneAtSize := by
  obtain ⟨first, rfl, run⟩ := reached
  obtain ⟨member, -⟩ := Store.find?_blob found
  obtain ⟨owner, ownerMember, ownerId⟩ :=
    system.store.blobsOwned blob (Store.mem_jobBlobs.mp member).1
  have ownerFound : system.store.jobs.find? job = some owner :=
    system.store.jobs.find?_eq_some.mpr ⟨ownerMember,
      ownerId.trans (Store.mem_jobBlobs.mp member).2⟩
  refine System.job_invariant (fun _ blobs => ∀ blob ∈ blobs, blob.DoneAtSize)
    (fun _ _ _ _ member => by cases member) ?_ run ownerFound blob member
  intro before transaction job old row blobs _admitted _present changed ih
  have recorded : ∀ digest event current,
      ∀ blob ∈ BlobRow.recordIn digest event current (before.store.jobBlobs job),
        blob.DoneAtSize := by
    intro digest event current blob member
    obtain ⟨original, originalMember, rfl⟩ := List.mem_map.mp member
    by_cases same : original.digest = digest
    · rw [if_pos same]
      exact original.doneAtSize_record event current
    · rw [if_neg same]
      exact ih original originalMember
  cases changed with
  | changed => exact ih
  | pinned =>
      intro blob member
      rcases List.mem_append.mp member with there | planned
      · exact ih blob there
      · obtain ⟨item, -, rfl⟩ := List.mem_map.mp planned
        exact fun impossible => by cases impossible
  | recorded => exact recorded _ _ _
  | tallied => exact recorded _ _ _

/-- The clock of a job is moved only by an event under its token for one of its
blobs, and only by one that progresses the blob. -/
theorem clock_moved {before after : System} {action : Action}
    (moved : before.next action = some after) {job : String} {old row : JobRow}
    (foundBefore : before.store.jobs.find? job = some old)
    (foundAfter : after.store.jobs.find? job = some row)
    (differs : row.lastProgressAt ≠ old.lastProgressAt) :
    ∃ token event digest current blob,
      action = .commit (.call job token (.progress event) current) ∧
      old.claimToken = some token ∧ event.namedDigest = some digest ∧
      before.store.blobs.find? (job, digest) = some blob ∧
      after.store.blobs.find? (job, digest) = some (blob.record event current) ∧
      blob.progressedBy event = true ∧ row.lastProgressAt = current := by
  have oldId : old.id = job := before.store.jobs.find?_key foundBefore
  rcases System.next_job moved foundAfter with
    ⟨present, presentFound, ⟨rfl, -⟩ | ⟨transaction, rfl, changed⟩⟩ | ⟨absent, -⟩
  · rw [foundBefore] at presentFound
    cases presentFound
    exact absurd rfl differs
  · rw [foundBefore] at presentFound
    cases presentFound
    generalize blobsEq : after.store.jobBlobs job = blobs at changed
    cases changed with
    | changed changed writesNone =>
        cases changed with
        | tallied _sameId _holds named => simp [Transaction.writesBlobs, named] at writesNone
        | swept | taken | beat | pinned | entered | finished | failed | givenBack | released
        | cancelWritten | retryWritten => exact absurd rfl differs
    | pinned | recorded => exact absurd rfl differs
    | @tallied _ token digest event current _ blob _ sameId holds named member sameDigest =>
        cases sameId.symm.trans oldId
        have progressed : blob.progressedBy event = true := by
          by_contra still
          rw [Bool.not_eq_true] at still
          exact differs (by simp [JobRow.tallied, JobRow.tally, still])
        refine ⟨token, event, digest, current, blob, rfl, holds, named, ?_, ?_, progressed, ?_⟩
        · rw [← sameDigest]
          exact Store.find?_of_mem_jobBlobs member
        · have recorded : blob.record event current ∈ after.store.jobBlobs job := by
            rw [blobsEq]
            exact List.mem_map.mpr ⟨blob, member, if_pos sameDigest⟩
          rw [← sameDigest]
          exact Store.find?_of_mem_jobBlobs recorded
        · simp [JobRow.tallied, JobRow.tally, progressed]
  · rw [foundBefore] at absent
    cases absent

/-- The blob stands above every offset it has had before in the run, or is
finished for the first time. -/
def System.NewProgress (admits : System → Action → Prop) (before : System) (job digest : String)
    (now : BlobRow) : Prop :=
  (∀ earlier past, interleaved.Run admits System.initial earlier →
    interleaved.Run admits earlier before →
    earlier.store.blobs.find? (job, digest) = some past → past.offset < now.offset) ∨
  (now.disposition.done = true ∧ ∀ earlier past, interleaved.Run admits System.initial earlier →
    interleaved.Run admits earlier before →
    earlier.store.blobs.find? (job, digest) = some past → past.disposition.done = false)

/-- In a run in which no event takes back a completion, the no-progress clock of
a job moves only at an event under its token that raises the offset of one of
its blobs above all it has had, or finishes the blob for the first time. -/
theorem clock_moves_by_new_progress {before after : System} {action : Action}
    (run : interleaved.Run CompletionKept System.initial before)
    (kept : CompletionKept before action) (moved : interleaved.next before action = some after)
    {job : String} {old row : JobRow} (foundBefore : before.store.jobs.find? job = some old)
    (foundAfter : after.store.jobs.find? job = some row)
    (differs : row.lastProgressAt ≠ old.lastProgressAt) :
    ∃ token event digest current now,
      action = .commit (.call job token (.progress event) current) ∧
      old.claimToken = some token ∧ event.namedDigest = some digest ∧
      after.store.blobs.find? (job, digest) = some now ∧
      before.NewProgress CompletionKept job digest now := by
  obtain ⟨token, event, digest, current, blob, rfl, holds, named, blobFound, nowFound, progressed,
    -⟩ := clock_moved moved foundBefore foundAfter differs
  have reached : interleaved.Reachable before := ⟨System.initial, rfl, run.always⟩
  have keeps : blob.KeepsCompletion event := kept digest named blob blobFound
  have laterThan : ∀ earlier past, interleaved.Run CompletionKept System.initial earlier →
      interleaved.Run CompletionKept earlier before →
      earlier.store.blobs.find? (job, digest) = some past → past.Later blob := by
    intro earlier past toEarlier toBefore pastFound
    obtain ⟨now, found, later⟩ := System.blob_along_run BlobRow.Later BlobRow.Later.refl
      (fun _ _ _ => BlobRow.Later.trans)
      (fun _ _ _ _ digest current blob kept _ named found =>
        BlobRow.later_record (kept digest named blob found) current)
      ⟨System.initial, rfl, toEarlier.always⟩ toBefore pastFound foundBefore
    rw [blobFound] at found
    cases found
    exact later
  refine ⟨token, event, digest, current, _, rfl, holds, named, nowFound, ?_⟩
  unfold BlobRow.progressedBy at progressed
  rcases (Bool.or_eq_true _ _).mp progressed with raised | finishes
  · left
    intro earlier past toEarlier toBefore pastFound
    have later := laterThan earlier past toEarlier toBefore pastFound
    have raises := of_decide_eq_true raised
    have stillOpen :=
      BlobRow.open_of_raised keeps (doneAtSize_of_found reached blobFound) raises
    exact Nat.lt_of_le_of_lt (later.offset stillOpen) raises
  · right
    obtain ⟨finished, notBefore⟩ := (Bool.and_eq_true _ _).mp finishes
    refine ⟨finished, fun earlier past toEarlier toBefore pastFound => ?_⟩
    cases wasFinished : past.disposition.done with
    | false => rfl
    | true =>
        rw [(laterThan earlier past toEarlier toBefore pastFound).finished wasFinished] at notBefore
        cases notBefore

theorem clock_moves_by_new_progress_at_first_bytes :
    ∃ (before after : System) (old row : JobRow) (digest : String) (now : BlobRow),
      interleaved.Run CompletionKept System.initial before ∧
      before.store.jobs.find? "job" = some old ∧ after.store.jobs.find? "job" = some row ∧
      row.lastProgressAt ≠ old.lastProgressAt ∧
      after.store.blobs.find? ("job", digest) = some now ∧
      before.NewProgress CompletionKept "job" digest now := by
  have run : ((interleaved.execute CompletionKept claimedAndPinned System.initial).any fun before =>
      (before.store.jobs.find? "job").any fun old =>
        decide (CompletionKept before (blobReport "first" 5 .transferring 3)) &&
        ((interleaved.next before (blobReport "first" 5 .transferring 3)).any fun after =>
          (after.store.jobs.find? "job").any fun row =>
            decide (row.lastProgressAt ≠ old.lastProgressAt))) = true := by decide
  obtain ⟨before, toBefore, tested⟩ := interleaved.exists_run_of_execute _ run
  obtain ⟨old, oldFound, tested⟩ := (Option.any_eq_true _ _).mp tested
  obtain ⟨kept, tested⟩ := (Bool.and_eq_true _ _).mp tested
  obtain ⟨after, moved, tested⟩ := (Option.any_eq_true _ _).mp tested
  obtain ⟨row, rowFound, differs⟩ := (Option.any_eq_true _ _).mp tested
  obtain ⟨_, _, digest, _, now, -, -, -, nowFound, progress⟩ := clock_moves_by_new_progress toBefore
    (of_decide_eq_true kept) moved oldFound rowFound (of_decide_eq_true differs)
  exact ⟨before, after, old, row, digest, now, toBefore, oldFound, rowFound,
    of_decide_eq_true differs, nowFound, progress⟩

/-- A retry that replays a finished blob from its start moves the clock when it
finishes the blob again. -/
theorem replayed_completion_moves_clock :
    ¬ ∀ before action after job old row, interleaved.Reachable before →
      interleaved.next before action = some after →
      before.store.jobs.find? job = some old → after.store.jobs.find? job = some row →
      row.lastProgressAt ≠ old.lastProgressAt →
      ∃ token event digest current now,
        action = .commit (.call job token (.progress event) current) ∧
        old.claimToken = some token ∧ event.namedDigest = some digest ∧
        after.store.blobs.find? (job, digest) = some now ∧
        before.NewProgress Machine.Always job digest now := by
  intro claimed
  have run : ((interleaved.execute Machine.Always
      (claimedAndPinned ++ [blobReport "first" 10 .completed 3]) System.initial).any fun earlier =>
        (earlier.store.blobs.find? ("job", "sha256:bb")).any fun past => past.disposition.done &&
          (interleaved.execute Machine.Always [blobReport "first" 0 .transferring 4] earlier).any
            fun before => (before.store.jobs.find? "job").any fun old =>
              (interleaved.next before (blobReport "first" 10 .completed 5)).any fun after =>
                (after.store.jobs.find? "job").any fun row =>
                  decide (row.lastProgressAt ≠ old.lastProgressAt) &&
                    (after.store.blobs.find? ("job", "sha256:bb")).any fun now =>
                      decide (now.offset ≤ past.offset)) = true := by decide
  obtain ⟨earlier, toEarlier, tested⟩ := interleaved.exists_run_of_execute _ run
  obtain ⟨past, pastFound, tested⟩ := (Option.any_eq_true _ _).mp tested
  obtain ⟨wasFinished, tested⟩ := (Bool.and_eq_true _ _).mp tested
  obtain ⟨before, toBefore, tested⟩ := interleaved.exists_run_of_execute _ tested
  obtain ⟨old, oldFound, tested⟩ := (Option.any_eq_true _ _).mp tested
  obtain ⟨after, moved, tested⟩ := (Option.any_eq_true _ _).mp tested
  obtain ⟨row, rowFound, tested⟩ := (Option.any_eq_true _ _).mp tested
  obtain ⟨differs, tested⟩ := (Bool.and_eq_true _ _).mp tested
  obtain ⟨now, nowFound, noHigher⟩ := (Option.any_eq_true _ _).mp tested
  obtain ⟨token, event, digest, current, claimedNow, same, -, named, claimedFound, progress⟩ :=
    claimed before _ after "job" old row ⟨System.initial, rfl, toEarlier.trans toBefore⟩ moved
      oldFound rowFound (of_decide_eq_true differs)
  cases same
  cases named
  rw [nowFound] at claimedFound
  cases claimedFound
  rcases progress with raises | ⟨-, first⟩
  · have above := raises earlier past toEarlier toBefore pastFound
    exact absurd (of_decide_eq_true noHigher) (not_le.mpr above)
  · rw [first earlier past toEarlier toBefore pastFound] at wasFinished
    cases wasFinished

end OciTransfer
