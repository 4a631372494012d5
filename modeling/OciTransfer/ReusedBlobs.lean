import OciTransfer.BlobAggregates
import OciTransfer.CopyHandler

/-!
Callbacks of the image copy, as the queue counts them.

The callback of the service names the same number as the offset and as the network
bytes, whatever the state, and the default with which the queue would tell a reused
blob from a transferred one is never used.  An event whose sums a column of 64 bits does
not hold is rolled back.
-/

namespace OciTransfer

/-- A callback of the copy of a job, and when the queue gets to its event. -/
structure Report where
  job : String
  token : String
  callback : Callback
  current : Instant
  deriving DecidableEq, Repr

/-- The row counts the blob in full, if its size is known. -/
def BlobRow.Full (blob : BlobRow) : Prop :=
  ∀ size, blob.size = some size → blob.offset = size

namespace Report

/-- `store.progress` with the event of the callback, if there is one. -/
def apply (report : Report) (store : Store) : Store :=
  if report.callback.isBlob then
    (Transaction.call report.job report.token (.progress report.callback.event)
      report.current).commit store
  else store

/-- With the numbers of the callback in place of the blob's, the offsets and the network
bytes of the job's blobs sum to at most `2^63 - 1`. -/
def Fits (store : Store) (report : Report) : Prop :=
  ∀ blob, store.blobs.find? (report.job, report.callback.digest) = some blob →
    (store.totals report.job).bytes + blob.logicalAfter report.callback.event ≤
        9223372036854775807 + blob.offset ∧
      (store.totals report.job).networkBytes +
          max blob.networkOffset report.callback.event.reportedNetwork ≤
        9223372036854775807 + blob.networkOffset

instance (store : Store) (report : Report) : Decidable (report.Fits store) :=
  inferInstanceAs
    (Decidable (∀ blob ∈ store.blobs.find? (report.job, report.callback.digest), _ ∧ _))

def Names (report : Report) (job digest : String) : Prop :=
  report.callback.isBlob = true ∧ report.job = job ∧ report.callback.digest = digest

instance (report : Report) (job digest : String) : Decidable (report.Names job digest) :=
  inferInstanceAs (Decidable (_ ∧ _))

def Skipped (report : Report) : Prop :=
  report.callback.isBlob = true ∧ report.callback.state = .skipped

/-- A skipped blob is reported with no more bytes than the network has brought of it. -/
def KeepsNetwork (store : Store) (report : Report) : Prop :=
  report.Skipped → report.callback.digest ≠ "" → ∀ blob,
    store.blobs.find? (report.job, report.callback.digest) = some blob →
      report.callback.cur ≤ blob.networkOffset

/-- The condition on a callback that is stored. -/
def KeepsNetworkIfStored (store : Store) (report : Report) : Prop :=
  report.Fits store → report.KeepsNetwork store

def RaisesNothing (store : Store) (report : Report) : Prop :=
  report.Skipped → ∀ job old row, store.jobs.find? job = some old →
    (report.apply store).jobs.find? job = some row → row.networkBytes ≤ old.networkBytes

end Report

namespace Store

def applyReports (store : Store) (reports : List Report) : Store :=
  reports.foldl (fun store report => report.apply store) store

/-- The condition holds of each report and the store that it comes to. -/
def Throughout (condition : Store → Report → Prop) : Store → List Report → Prop
  | _, [] => True
  | store, report :: rest =>
      condition store report ∧ (report.apply store).Throughout condition rest

def Sometime (condition : Store → Report → Prop) : Store → List Report → Prop
  | _, [] => False
  | store, report :: rest =>
      condition store report ∨ (report.apply store).Sometime condition rest

def SomeStored (store : Store) (job digest : String) (reports : List Report) : Prop :=
  store.Sometime (fun store report => report.Names job digest ∧ report.Fits store) reports

/-- The columns agree with the blobs, and the copies run under the claims of their jobs. -/
structure InStep (store : Store) (reports : List Report) : Prop where
  agree : store.AggregatesAgree
  claimed : ∀ report ∈ reports, ∀ row, store.jobs.find? report.job = some row →
    row.claimToken = some report.token

/-- What the queue counts of the blobs that are reused. -/
structure ReusedIsNoTraffic (store : Store) (reports : List Report) : Prop where
  reused : ∀ job digest blob, store.blobs.find? (job, digest) = some blob →
    blob.networkOffset = 0 → digest ≠ "" → (∃ report ∈ reports, report.Names job digest) →
      (∀ report ∈ reports, report.Names job digest → report.callback.state = .skipped) →
        ∃ row now, (store.applyReports reports).jobs.find? job = some row ∧
          row.counted = (store.applyReports reports).totals job ∧
          now ∈ (store.applyReports reports).jobBlobs job ∧ now.digest = digest ∧
          now.size = blob.size ∧ now.Full ∧ now.networkOffset = 0
  raised : store.Throughout Report.RaisesNothing reports

/-- No skipped blob is reported with more bytes than the network has brought of it, and a
blob that is only skipped counts in full already or at one of its callbacks. -/
structure ReportsReuse (store : Store) (reports : List Report) : Prop where
  network : store.Throughout Report.KeepsNetworkIfStored reports
  filled : ∀ job digest blob, store.blobs.find? (job, digest) = some blob →
    blob.networkOffset = 0 → digest ≠ "" → (∃ report ∈ reports, report.Names job digest) →
      (∀ report ∈ reports, report.Names job digest → report.callback.state = .skipped) →
        blob.Full ∨ store.SomeStored job digest reports

end Store

/-! ### One event -/

namespace Store

private theorem job_of_blob {store : Store} {job digest : String} {blob : BlobRow}
    (found : store.blobs.find? (job, digest) = some blob) :
    ∃ row, store.jobs.find? job = some row := by
  obtain ⟨row, member, rowId⟩ := store.blobsOwned blob (store.blobs.find?_mem found)
  have owner : blob.jobId = job := congrArg Prod.fst (store.blobs.find?_key found)
  refine ⟨row, ?_⟩
  rw [← owner, ← rowId]
  exact store.jobs.find?_of_mem member

/-- An event for a blob exchanges its share of the sums of the job. -/
theorem sums_recordBlob {store : Store} {job digest : String} {blob : BlobRow}
    (found : store.blobs.find? (job, digest) = some blob) (event : Event) (current : Instant) :
    ((store.recordBlob job digest event current).totals job).bytes + blob.offset =
        (store.totals job).bytes + blob.logicalAfter event ∧
      ((store.recordBlob job digest event current).totals job).networkBytes + blob.networkOffset =
        (store.totals job).networkBytes + max blob.networkOffset event.reportedNetwork := by
  obtain ⟨left, right, rowsEq, updated⟩ := store.blobs.update_split found
  have owner : blob.jobId = job := congrArg Prod.fst (store.blobs.find?_key found)
  have after := updated (BlobRow.record event current) (BlobRow.key_record event current)
  have recordedOwner : (blob.record event current).jobId = job := owner
  have bytes : (blob.record event current).offset = blob.logicalAfter event := rfl
  have network : (blob.record event current).networkOffset =
      max blob.networkOffset event.reportedNetwork := rfl
  unfold totals jobBlobs recordBlob
  rw [blobs_updateBlobs, after, rowsEq]
  simp only [List.filter_append, List.filter_cons, owner, recordedOwner, decide_true, if_true,
    BlobTotals.of, List.map_append, List.map_cons, List.sum_append, List.sum_cons, bytes, network]
  constructor <;> omega

private theorem fitsInteger_natCast {number : Nat} :
    fitsInteger number = true ↔ number ≤ 9223372036854775807 := by
  unfold fitsInteger
  rw [decide_eq_true_iff]
  omega

private theorem overflows_eq_false_iff {store : Store} {job digest : String} {blob : BlobRow}
    {event : Event} (found : store.blobs.find? (job, digest) = some blob)
    (noRate : event.bytesPerSecond = none) (current : Instant) :
    store.overflows job digest event current = false ↔
      ((store.recordBlob job digest event current).totals job).bytes ≤ 9223372036854775807 ∧
        ((store.recordBlob job digest event current).totals job).networkBytes ≤
          9223372036854775807 := by
  unfold overflows
  rw [found, noRate]
  simp only [Option.isSome_some, Bool.true_and, Option.all_none, Bool.and_true, Bool.not_eq_false',
    Bool.and_eq_true, fitsInteger_natCast]
  rfl

end Store

namespace Report

variable {store : Store} {report : Report}

private theorem apply_other (other : report.callback.isBlob = false ∨ report.callback.digest = "") :
    report.apply store = store := by
  unfold apply
  cases isBlob : report.callback.isBlob with
  | false => exact if_neg Bool.false_ne_true
  | true =>
      rw [if_pos rfl]
      rcases other with notBlob | noDigest
      · rw [isBlob] at notBlob
        cases notBlob
      · have unnamed : report.callback.event.namedDigest = none := by
          simp [Event.namedDigest, Callback.event, noDigest]
        rw [Transaction.commit_phase unnamed]
        rfl

private theorem apply_blob (isBlob : report.callback.isBlob = true)
    (named : report.callback.digest ≠ "") :
    report.apply store =
      if store.overflows report.job report.callback.digest report.callback.event report.current then
        store
      else (store.progressBlob report.job report.token report.callback.digest
        report.callback.event report.current).1 := by
  have digest : report.callback.event.namedDigest = some report.callback.digest := by
    simp [Event.namedDigest, Callback.event, named]
  unfold apply
  rw [if_pos isBlob, Transaction.commit_progress digest]

private theorem fits_iff {blob : BlobRow}
    (found : store.blobs.find? (report.job, report.callback.digest) = some blob) :
    report.Fits store ↔ store.overflows report.job report.callback.digest report.callback.event
      report.current = false := by
  obtain ⟨bytes, network⟩ :=
    Store.sums_recordBlob found report.callback.event report.current
  rw [Store.overflows_eq_false_iff found rfl]
  constructor
  · intro fits
    obtain ⟨bytesFit, networkFit⟩ := fits blob found
    omega
  · intro fits other otherFound
    rw [found] at otherFound
    cases otherFound
    omega

/-- The report is of a blob that the job has, and is stored. -/
def Stores (report : Report) (store : Store) (blob : BlobRow) : Prop :=
  report.callback.isBlob = true ∧ report.callback.digest ≠ "" ∧
    store.blobs.find? (report.job, report.callback.digest) = some blob ∧ report.Fits store

theorem Stores.apply {blob : BlobRow} (stores : report.Stores store blob) :
    report.apply store = (store.progressBlob report.job report.token report.callback.digest
      report.callback.event report.current).1 := by
  obtain ⟨isBlob, named, found, fits⟩ := stores
  rw [apply_blob isBlob named, if_neg (Bool.eq_false_iff.mp ((fits_iff found).mp fits))]

private theorem apply_of_not_stores (none : ¬ ∃ blob, report.Stores store blob) :
    report.apply store = store := by
  by_cases blobReport : report.callback.isBlob = true ∧ report.callback.digest ≠ ""
  · rw [apply_blob blobReport.1 blobReport.2]
    cases found : store.blobs.find? (report.job, report.callback.digest) with
    | none =>
        rw [Store.progressBlob, found]
        exact ite_self store
    | some blob =>
        refine if_pos ((Bool.not_eq_false _).mp fun fits => none ⟨blob, blobReport.1,
          blobReport.2, found, (fits_iff found).mpr fits⟩)
  · rw [not_and_or, Bool.not_eq_true, not_not] at blobReport
    exact apply_other blobReport

private theorem find?_apply_blobs (report : Report) (store : Store) {job digest : String}
    (named : digest ≠ "") :
    (report.apply store).blobs.find? (job, digest) =
      (store.blobs.find? (job, digest)).map fun blob =>
        if report.Names job digest ∧ report.Fits store then
          blob.record report.callback.event report.current
        else blob := by
  by_cases stores : ∃ stored, report.Stores store stored
  · obtain ⟨stored, stores⟩ := stores
    rw [stores.apply]
    obtain ⟨isBlob, notEmpty, found, fits⟩ := stores
    simp only [Store.progressBlob, found]
    change (store.recordBlob _ _ _ _).blobs.find? _ = _
    unfold Store.recordBlob
    rw [Store.blobs_updateBlobs, KeyedTable.find?_update]
    cases other : store.blobs.find? (job, digest) with
    | none => rfl
    | some row =>
        rw [Option.map_some, Option.map_some, store.blobs.find?_key other]
        by_cases names : report.Names job digest
        · obtain ⟨-, rfl, rfl⟩ := names
          rw [decide_eq_true rfl, if_pos rfl, if_pos ⟨⟨isBlob, rfl, rfl⟩, fits⟩]
        · rw [if_neg, if_neg fun both => names both.1]
          intro same
          cases of_decide_eq_true same
          exact names ⟨isBlob, rfl, rfl⟩
  · rw [apply_of_not_stores stores]
    cases found : store.blobs.find? (job, digest) with
    | none => rfl
    | some blob =>
        rw [Option.map_some, if_neg]
        rintro ⟨⟨isBlob, rfl, rfl⟩, fits⟩
        exact stores ⟨blob, isBlob, named, found, fits⟩

private theorem find?_apply_jobs {blob : BlobRow} (stores : report.Stores store blob)
    (job : String) :
    (report.apply store).jobs.find? job =
      (store.jobs.find? job).map fun row =>
        if row.holdsClaim report.job report.token then
          row.tallied ((store.recordBlob report.job report.callback.digest report.callback.event
            report.current).jobBlobs report.job) report.callback.event
              (blob.progressedBy report.callback.event) report.current
        else row := by
  rw [stores.apply]
  obtain ⟨-, -, found, -⟩ := stores
  exact Store.find?_progressBlob found report.callback.event report.current job

private theorem claimToken_apply {job : String} {row : JobRow}
    (found : (report.apply store).jobs.find? job = some row) :
    ∃ old, store.jobs.find? job = some old ∧ old.claimToken = row.claimToken := by
  by_cases stores : ∃ blob, report.Stores store blob
  · obtain ⟨blob, stores⟩ := stores
    rw [find?_apply_jobs stores] at found
    obtain ⟨old, oldFound, rfl⟩ := Option.map_eq_some_iff.mp found
    refine ⟨old, oldFound, ?_⟩
    split <;> rfl
  · rw [apply_of_not_stores stores] at found
    exact ⟨row, found, rfl⟩

private theorem inStep_apply {rest : List Report} (inStep : store.InStep (report :: rest)) :
    (report.apply store).InStep rest := by
  constructor
  · by_cases stores : ∃ blob, report.Stores store blob
    · obtain ⟨blob, stores⟩ := stores
      rw [stores.apply]
      obtain ⟨-, -, blobFound, -⟩ := stores
      obtain ⟨row, found⟩ := Store.job_of_blob blobFound
      have held := inStep.claimed report List.mem_cons_self row found
      exact Store.agrees_of_counted inStep.agree blobFound report.callback.event report.current
        (Or.inr ⟨row, found, held⟩)
    · rw [apply_of_not_stores stores]
      exact inStep.agree
  · intro later member row found
    obtain ⟨old, oldFound, sameToken⟩ := claimToken_apply found
    rw [← sameToken]
    exact inStep.claimed later (List.mem_cons_of_mem _ member) old oldFound

/-- What a report under the token of its job does to the network bytes of the job. -/
theorem networkBytes_apply {rest : List Report} (inStep : store.InStep (report :: rest))
    {blob : BlobRow} (stores : report.Stores store blob) {job : String} {old row : JobRow}
    (oldFound : store.jobs.find? job = some old)
    (found : (report.apply store).jobs.find? job = some row) :
    row.networkBytes + (if job = report.job then blob.networkOffset else 0) = old.networkBytes +
      if job = report.job then max blob.networkOffset report.callback.cur.toNat else 0 := by
  have oldId : old.id = job := store.jobs.find?_key oldFound
  rw [find?_apply_jobs stores, oldFound, Option.map_some] at found
  obtain ⟨-, -, blobFound, -⟩ := stores
  by_cases sameJob : job = report.job
  · subst sameJob
    have held := inStep.claimed report List.mem_cons_self old oldFound
    rw [JobRow.holdsClaim_iff.mpr ⟨oldId, held⟩, if_pos rfl] at found
    cases found
    have counted : old.networkBytes = (store.totals report.job).networkBytes :=
      congrArg BlobTotals.networkBytes (inStep.agree report.job old oldFound)
    rw [if_pos rfl, if_pos rfl, counted]
    exact (Store.sums_recordBlob blobFound report.callback.event report.current).2
  · have notHeld : ¬ old.holdsClaim report.job report.token = true :=
      fun holds => sameJob (oldId.symm.trans (JobRow.holdsClaim_iff.mp holds).1)
    rw [if_neg notHeld] at found
    cases found
    rw [if_neg sameJob, if_neg sameJob]

private theorem KeepsNetwork.of_names {job digest : String} (keeps : report.KeepsNetwork store)
    (skipped : report.callback.state = .skipped) (names : report.Names job digest)
    (named : digest ≠ "") {blob : BlobRow} (found : store.blobs.find? (job, digest) = some blob) :
    report.callback.cur ≤ blob.networkOffset := by
  obtain ⟨isBlob, rfl, rfl⟩ := names
  exact keeps ⟨isBlob, skipped⟩ named blob found

/-- A skipped callback fills the blob up, and with no bytes it is no traffic. -/
theorem record_skipped {blob : BlobRow} (skipped : report.callback.state = .skipped)
    (within : report.callback.cur ≤ blob.networkOffset) (untouched : blob.networkOffset = 0) :
    (blob.record report.callback.event report.current).networkOffset = 0 ∧
      (blob.record report.callback.event report.current).Full := by
  have reused : report.callback.event.reportedDisposition = .reused := by
    simp [Event.reportedDisposition, Callback.event, callbackDisposition, skipped]
  constructor
  · change max blob.networkOffset report.callback.cur.toNat = 0
    omega
  · intro size known
    change blob.logicalAfter report.callback.event = size
    have sizeEq : blob.size = some size := known
    unfold BlobRow.logicalAfter
    rw [reused, sizeEq]
    rfl

private theorem raisesNothing_iff {rest : List Report} (inStep : store.InStep (report :: rest)) :
    report.RaisesNothing store ↔ report.KeepsNetworkIfStored store := by
  constructor
  · intro raises fits skipped named blob found
    have stores : report.Stores store blob := ⟨skipped.1, named, found, fits⟩
    obtain ⟨old, oldFound⟩ := Store.job_of_blob found
    have after := find?_apply_jobs stores report.job
    rw [oldFound, Option.map_some] at after
    have kept := raises skipped report.job old _ oldFound after
    have network := networkBytes_apply inStep stores oldFound after
    rw [if_pos rfl, if_pos rfl] at network
    omega
  · intro keeps skipped job old row oldFound found
    by_cases stores : ∃ blob, report.Stores store blob
    · obtain ⟨blob, stores⟩ := stores
      have network := networkBytes_apply inStep stores oldFound found
      obtain ⟨-, named, blobFound, fits⟩ := stores
      have within := keeps fits skipped named blob blobFound
      split at network <;> omega
    · rw [apply_of_not_stores stores, oldFound] at found
      cases found
      exact le_refl _

end Report

namespace Store

variable {store : Store}

private theorem raised_iff {reports : List Report} (inStep : store.InStep reports) :
    store.Throughout Report.RaisesNothing reports ↔
      store.Throughout Report.KeepsNetworkIfStored reports := by
  induction reports generalizing store with
  | nil => exact Iff.rfl
  | cons report rest ih =>
      exact and_congr (Report.raisesNothing_iff inStep) (ih (Report.inStep_apply inStep))

private theorem agree_applyReports {reports : List Report} (inStep : store.InStep reports) :
    (store.applyReports reports).AggregatesAgree := by
  induction reports generalizing store with
  | nil => exact inStep.agree
  | cons report rest ih => exact ih (Report.inStep_apply inStep)

private theorem unstored_applyReports {job digest : String} (named : digest ≠ "")
    {reports : List Report}
    (unstored : ¬ store.SomeStored job digest reports) :
    (store.applyReports reports).blobs.find? (job, digest) = store.blobs.find? (job, digest) := by
  induction reports generalizing store with
  | nil => rfl
  | cons report rest ih =>
      obtain ⟨notNow, notLater⟩ := not_or.mp unstored
      refine (ih notLater).trans ?_
      rw [Report.find?_apply_blobs report store named]
      simp only [if_neg notNow]
      exact Option.map_id'

/-- A blob that is only skipped stays without network bytes, and is full once an event
for it is stored. -/
theorem skipped_applyReports {job digest : String} (named : digest ≠ "") {reports : List Report}
    (skipped : ∀ report ∈ reports, report.Names job digest → report.callback.state = .skipped)
    (kept : store.Throughout Report.KeepsNetworkIfStored reports) {blob : BlobRow}
    (found : store.blobs.find? (job, digest) = some blob) (untouched : blob.networkOffset = 0) :
    ∃ now, (store.applyReports reports).blobs.find? (job, digest) = some now ∧
      now.networkOffset = 0 ∧ now.size = blob.size ∧
        (blob.Full ∨ store.SomeStored job digest reports → now.Full) := by
  induction reports generalizing store blob with
  | nil =>
      refine ⟨blob, found, untouched, rfl, ?_⟩
      rintro (full | impossible)
      · exact full
      · cases impossible
  | cons report rest ih =>
      obtain ⟨keeps, keptLater⟩ := kept
      have laterSkipped : ∀ later ∈ rest, later.Names job digest →
          later.callback.state = .skipped :=
        fun later member => skipped later (List.mem_cons_of_mem _ member)
      have after := @Report.find?_apply_blobs report store job digest named
      rw [found, Option.map_some] at after
      by_cases stored : report.Names job digest ∧ report.Fits store
      · rw [if_pos stored] at after
        obtain ⟨names, fits⟩ := stored
        have isSkipped := skipped report List.mem_cons_self names
        obtain ⟨stillUntouched, full⟩ := Report.record_skipped isSkipped
          ((keeps fits).of_names isSkipped names named found) untouched
        obtain ⟨now, nowFound, network, size, laterFull⟩ :=
          ih laterSkipped keptLater after stillUntouched
        exact ⟨now, nowFound, network, size, fun _ => laterFull (Or.inl full)⟩
      · rw [if_neg stored] at after
        obtain ⟨now, nowFound, network, size, laterFull⟩ :=
          ih laterSkipped keptLater after untouched
        refine ⟨now, nowFound, network, size, ?_⟩
        rintro (full | isNow | later)
        · exact laterFull (Or.inl full)
        · exact absurd isNow stored
        · exact laterFull (Or.inr later)

end Store

/-- Blobs that are only skipped count in full and as no traffic, and a skipped blob raises
the network bytes of no job, exactly if none that is stored is reported with more bytes
than the network has brought of it, and each of these blobs has an event that is stored. -/
theorem reused_is_no_traffic_iff {store : Store} {reports : List Report}
    (inStep : store.InStep reports) :
    store.ReusedIsNoTraffic reports ↔ store.ReportsReuse reports := by
  constructor
  · intro holds
    refine ⟨(Store.raised_iff inStep).mp holds.raised, ?_⟩
    intro job digest blob found untouched named isNamed skipped
    by_contra neither
    obtain ⟨notFull, unstored⟩ := not_or.mp neither
    obtain ⟨row, now, -, -, member, sameDigest, -, full, -⟩ :=
      holds.reused job digest blob found untouched named isNamed skipped
    have nowFound := Store.find?_of_mem_jobBlobs member
    rw [sameDigest, Store.unstored_applyReports named unstored, found] at nowFound
    cases nowFound
    exact notFull full
  · intro condition
    refine ⟨?_, (Store.raised_iff inStep).mpr condition.network⟩
    intro job digest blob found untouched named isNamed skipped
    obtain ⟨now, nowFound, network, size, full⟩ :=
      Store.skipped_applyReports named skipped condition.network found untouched
    obtain ⟨member, sameDigest⟩ := Store.find?_blob nowFound
    obtain ⟨row, rowFound⟩ := Store.job_of_blob nowFound
    exact ⟨row, now, rowFound, Store.agree_applyReports inStep job row rowFound, member, sameDigest,
      size, full (condition.filled job digest blob found untouched named isNamed skipped), network⟩

def skippedReport (cur : Int) : Report :=
  { job := "job"
    token := "new"
    callback :=
      { isBlob := true
        digest := "sha256:bb"
        state := .skipped
        cur := cur
        total := 10 }
    current := 2000001 }

private theorem Store.agree_of_rows {store : Store}
    (counted : ∀ row ∈ store.jobs.rows, row.counted = store.totals row.id) :
    store.AggregatesAgree := by
  intro job row found
  rw [← store.jobs.find?_key found]
  exact counted row (store.jobs.find?_mem found)

private theorem pinned_in_step :
    ∃ store : Store, (∀ cur, store.InStep [skippedReport cur]) ∧
      (skippedReport 0).Fits store ∧ (skippedReport 10).Fits store ∧
      (store.blobs.find? ("job", "sha256:bb")).any (fun blob => blob.networkOffset = 0) = true := by
  have run : ((interleaved.execute Machine.Always pinnedThenReclaimed System.initial).any
      fun system =>
        decide (∀ row ∈ system.store.jobs.rows, row.counted = system.store.totals row.id) &&
        ((system.store.jobs.find? "job").any fun row => decide (row.claimToken = some "new")) &&
        decide ((skippedReport 0).Fits system.store ∧ (skippedReport 10).Fits system.store) &&
        (system.store.blobs.find? ("job", "sha256:bb")).any fun blob =>
          decide (blob.networkOffset = 0)) = true := by decide
  obtain ⟨system, -, tested⟩ := interleaved.exists_reachable_of_execute rfl run
  simp only [Bool.and_eq_true] at tested
  obtain ⟨⟨⟨counted, held⟩, fit⟩, untouched⟩ := tested
  obtain ⟨row, found, token⟩ := (Option.any_eq_true _ _).mp held
  obtain ⟨noneFits, tenFit⟩ := of_decide_eq_true fit
  refine ⟨system.store, fun cur => ⟨Store.agree_of_rows (of_decide_eq_true counted), ?_⟩,
    noneFits, tenFit, untouched⟩
  intro report member other otherFound
  cases List.mem_singleton.mp member
  rw [show system.store.jobs.find? (skippedReport cur).job = some row from found] at otherFound
  cases otherFound
  exact of_decide_eq_true token

theorem reused_is_no_traffic_iff_after_pinning :
    ∃ store : Store, store.InStep [skippedReport 0] ∧
      store.ReusedIsNoTraffic [skippedReport 0] := by
  obtain ⟨store, inStep, fits, -, -⟩ := pinned_in_step
  refine ⟨store, inStep 0, (reused_is_no_traffic_iff (inStep 0)).mpr ⟨⟨?_, trivial⟩, ?_⟩⟩
  · intro _ skipped named blob found
    exact Int.natCast_nonneg _
  · rintro job digest blob - - - ⟨report, member, names⟩ -
    cases List.mem_singleton.mp member
    exact Or.inr (Or.inl ⟨names, fits⟩)

/-- A reused blob of which the callback names ten bytes. -/
theorem reused_blob_is_traffic :
    ¬ ∀ (store : Store) (reports : List Report), store.InStep reports →
      store.ReusedIsNoTraffic reports := by
  intro claimed
  obtain ⟨store, inStep, -, fits, blobTested⟩ := pinned_in_step
  obtain ⟨blob, found, untouched⟩ := (Option.any_eq_true _ _).mp blobTested
  have raised := (claimed store _ (inStep 10)).raised.1
  have keeps := (Report.raisesNothing_iff (inStep 10)).mp raised fits ⟨rfl, rfl⟩ (by decide) blob
    found
  rw [of_decide_eq_true untouched] at keeps
  exact absurd keeps (by decide)

end OciTransfer
