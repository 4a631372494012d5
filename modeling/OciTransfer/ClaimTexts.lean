import OciTransfer.QueueRuns
import OciTransfer.TimestampOrder

/-!
The comparisons of `claim` on texts.

SQLite compares the texts of the timestamp columns with the text of the clock
reading.  The model of `claim` compares the instants; both take the same rows in the
same order as long as the instants are dates.
-/

namespace OciTransfer

namespace JobRow

/-- `lease_expires_at<?`. -/
def leaseTextBefore (current : String) (row : JobRow) : Bool :=
  row.leaseExpiresAt.any fun lease => timestamp lease < current

/-- The condition of the `UPDATE` in `claim`. -/
def sweepSelected (current : String) (row : JobRow) : Bool :=
  row.state = .cancelRequested && (row.workerId.isNone || row.leaseTextBefore current)

/-- The condition of the `SELECT` in `claim`. -/
def claimSelected (current : String) (row : JobRow) : Bool :=
  row.state = .queued ||
    (row.state = .retryWait && row.nextRetryAt.any fun due => timestamp due ≤ current) ||
    (row.state.working && row.leaseTextBefore current)

/-- `ORDER BY created_at,id`. -/
def ClaimTextOrder (left right : JobRow) : Prop :=
  timestamp left.createdAt < timestamp right.createdAt ∨
    (timestamp left.createdAt = timestamp right.createdAt ∧ left.id ≤ right.id)

instance : DecidableRel ClaimTextOrder := fun _ _ => inferInstanceAs (Decidable (_ ∨ _))

/-- The columns that `claim` compares are dates. -/
structure DatesRepresentable (row : JobRow) : Prop where
  created : row.createdAt.Representable
  due : ∀ instant, row.nextRetryAt = some instant → instant.Representable
  lease : ∀ instant, row.leaseExpiresAt = some instant → instant.Representable

end JobRow

/-- `claim` with the texts of the timestamps. -/
def Store.claimByText (store : Store) (worker : String) (leaseSeconds : Int) (current : Instant)
    (token : String) : Store × Option (CopyJob × String) :=
  let text := timestamp current
  let swept := store.updateJobs (JobRow.sweepSelected text) (JobRow.sweep current)
    (JobRow.key_sweep current)
  match ((swept.jobs.rows.filter (JobRow.claimSelected text)).insertionSort
      JobRow.ClaimTextOrder).head? with
  | none => (swept, none)
  | some row =>
      let taken := swept.takeJob row.id worker token leaseSeconds current
      (taken, some ((row.take worker token leaseSeconds current).toCopyJob, token))

private theorem timestamp_le_iff {instant other : Instant} (representable : instant.Representable)
    (otherRepresentable : other.Representable) :
    timestamp instant ≤ timestamp other ↔ instant ≤ other := by
  rw [← not_lt, ← not_lt, timestamp_lt_iff otherRepresentable representable]

private theorem timestamp_eq_iff {instant other : Instant} (representable : instant.Representable)
    (otherRepresentable : other.Representable) :
    timestamp instant = timestamp other ↔ instant = other := by
  rw [le_antisymm_iff, le_antisymm_iff, timestamp_le_iff representable otherRepresentable,
    timestamp_le_iff otherRepresentable representable]

private theorem any_eq_any {α : Type} {column : Option α} {one other : α → Bool}
    (same : ∀ value, column = some value → one value = other value) :
    column.any one = column.any other := by
  cases column with
  | none => rfl
  | some value => exact same value rfl

namespace JobRow

variable {current : Instant} {row : JobRow}

private theorem leaseTextBefore_eq (representable : current.Representable)
    (dates : row.DatesRepresentable) :
    row.leaseTextBefore (timestamp current) = row.leaseBefore current := by
  refine any_eq_any fun lease leaseEq => ?_
  rw [decide_eq_decide]
  exact timestamp_lt_iff (dates.lease lease leaseEq) representable

private theorem sweepSelected_eq (representable : current.Representable)
    (dates : row.DatesRepresentable) :
    row.sweepSelected (timestamp current) = row.sweepDue current := by
  unfold sweepSelected sweepDue
  rw [leaseTextBefore_eq representable dates]

private theorem claimSelected_eq (representable : current.Representable)
    (dates : row.DatesRepresentable) :
    row.claimSelected (timestamp current) = row.eligible current := by
  have due : (row.nextRetryAt.any fun instant => decide (timestamp instant ≤ timestamp current)) =
      row.nextRetryAt.any (· ≤ current) := by
    refine any_eq_any fun instant dueEq => ?_
    rw [decide_eq_decide]
    exact timestamp_le_iff (dates.due instant dueEq) representable
  unfold claimSelected eligible
  rw [leaseTextBefore_eq representable dates, due]

private theorem claimTextOrder_iff {left right : JobRow} (leftDates : left.DatesRepresentable)
    (rightDates : right.DatesRepresentable) :
    ClaimTextOrder left right ↔ ClaimOrder left right := by
  unfold ClaimTextOrder ClaimOrder
  rw [timestamp_lt_iff leftDates.created rightDates.created,
    timestamp_eq_iff leftDates.created rightDates.created]

theorem DatesRepresentable.sweep (dates : row.DatesRepresentable) (current : Instant) :
    (row.sweep current).DatesRepresentable where
  created := dates.created
  due := dates.due
  lease := fun _ impossible => by cases impossible

end JobRow

private theorem Store.updateJobs_congr (store : Store) {selected chosen : JobRow → Bool}
    {change : JobRow → JobRow} (keepsKey : ∀ row, (change row).key = row.key)
    (same : ∀ row ∈ store.jobs.rows, selected row = chosen row) :
    store.updateJobs selected change keepsKey = store.updateJobs chosen change keepsKey := by
  have rows : store.jobs.update selected change keepsKey =
      store.jobs.update chosen change keepsKey := by
    unfold KeyedTable.update
    congr 1
    exact List.map_congr_left fun row member => by rw [same row member]
  unfold Store.updateJobs
  congr 1

/-- The text of a timestamp is as early as its instant, and a claim that compares the
texts is the claim that compares the instants. -/
theorem timestamps_ordered_like_instants {instant other : Instant}
    (representable : instant.Representable) (otherRepresentable : other.Representable)
    {store : Store} {current : Instant} (now : current.Representable)
    (dates : ∀ row ∈ store.jobs.rows, row.DatesRepresentable) (worker token : String)
    (leaseSeconds : Int) :
    (timestamp instant < timestamp other ↔ instant < other) ∧
      store.claimByText worker leaseSeconds current token =
        store.claim worker leaseSeconds current token := by
  refine ⟨timestamp_lt_iff representable otherRepresentable, ?_⟩
  have swept : store.updateJobs (JobRow.sweepSelected (timestamp current)) (JobRow.sweep current)
      (JobRow.key_sweep current) = store.sweep current :=
    store.updateJobs_congr _ fun row member => JobRow.sweepSelected_eq now (dates row member)
  have sweptDates : ∀ row ∈ (store.sweep current).jobs.rows, row.DatesRepresentable := by
    intro row member
    obtain ⟨original, present, rfl⟩ := List.mem_map.mp member
    split
    · exact (dates original present).sweep current
    · exact dates original present
  have selected :
      (store.sweep current).jobs.rows.filter (JobRow.claimSelected (timestamp current)) =
      (store.sweep current).jobs.rows.filter (JobRow.eligible current) :=
    List.filter_congr fun row member => JobRow.claimSelected_eq now (sweptDates row member)
  have ordered : ((store.sweep current).jobs.rows.filter (JobRow.eligible current)).insertionSort
      JobRow.ClaimTextOrder = (store.sweep current).eligibleRows current := by
    have sorted := List.map_insertionSort JobRow.ClaimTextOrder JobRow.ClaimOrder id
      ((store.sweep current).jobs.rows.filter (JobRow.eligible current))
      fun left leftMember right rightMember =>
        JobRow.claimTextOrder_iff (sweptDates left (List.mem_filter.mp leftMember).1)
          (sweptDates right (List.mem_filter.mp rightMember).1)
    rw [List.map_id, List.map_id] at sorted
    exact sorted
  unfold Store.claimByText Store.claim
  cases picked : ((store.sweep current).eligibleRows current).head? with
  | none => simp only [swept, selected, ordered, picked]
  | some row => simp only [swept, selected, ordered, picked]

theorem timestamps_ordered_like_instants_for_one_job :
    (timestamp 0 < timestamp 1 ↔ (0 : Instant) < 1) ∧
      ((Transaction.enqueue sampleValues "job" 0).commit Store.empty).claimByText
          "worker" 60 5 "token" =
        ((Transaction.enqueue sampleValues "job" 0).commit Store.empty).claim
          "worker" 60 5 "token" := by
  refine timestamps_ordered_like_instants ⟨by decide, by decide⟩ ⟨by decide, by decide⟩
    ⟨by decide, by decide⟩ ?_
    "worker" "token" 60
  intro row member
  have isFresh : row = .fresh sampleValues "job" 0 := List.mem_singleton.mp member
  subst isFresh
  exact ⟨⟨by decide, by decide⟩, (fun _ impossible => by cases impossible),
    fun _ impossible => by cases impossible⟩

end OciTransfer
