import OciTransfer.ExecutionSteps
import OciTransfer.PlanAnswers
import OciTransfer.SnapshotPinning

/-!
A plan of the service can always be stored.

`save_snapshot` inserts one row for each blob, and a digest that stands twice among
them would break the primary key and fail the job.  The service lists its blobs out of
a map, in the strict order of their digests, and the client keeps the list.  So a worker
that has planned stores its plan, unless the row is no longer its own to plan.
-/

namespace OciTransfer

/-! ### Inserting the blobs of a snapshot -/

namespace Store

variable {store : Store} {job token : String} {current : Instant}

private theorem insertBlob?_of_absent {blob : BlobRow}
    (owned : ∃ row ∈ store.jobs.rows, row.id = blob.jobId)
    (absent : store.blobs.find? blob.key = none) :
    ∃ filled, store.insertBlob? blob = some filled := by
  obtain ⟨extended, accepted⟩ := store.blobs.insert?_of_absent absent
  unfold insertBlob?
  rw [dif_pos owned]
  split
  · rename_i refused
    rw [accepted] at refused
    cases refused
  · exact ⟨_, rfl⟩

private theorem insertBlobs_of_distinct {blobs : List Descriptor} :
    ∀ {store : Store}, (∃ row ∈ store.jobs.rows, row.id = job) →
      (blobs.map Descriptor.digest).Nodup →
      (∀ blob ∈ blobs, store.blobs.find? (job, blob.digest) = none) →
      ∃ filled,
        blobs.foldlM (fun store blob => store.insertBlob? (.pending job current blob)) store =
        some filled := by
  induction blobs with
  | nil => exact fun {store} _ _ _ => ⟨store, rfl⟩
  | cons blob rest ih =>
      intro store owned distinct absent
      rw [List.map_cons, List.nodup_cons] at distinct
      have firstAbsent : store.blobs.find? (BlobRow.pending job current blob).key = none :=
        absent blob List.mem_cons_self
      obtain ⟨middle, accepted⟩ := @insertBlob?_of_absent store (.pending job current blob) owned
        firstAbsent
      have stillOwned : ∃ row ∈ middle.jobs.rows, row.id = job := by
        rw [jobs_insertBlob? accepted]
        exact owned
      have stillAbsent : ∀ other ∈ rest, middle.blobs.find? (job, other.digest) = none := by
        intro other member
        rw [store.blobs.find?_insert middle.blobs _ (insertBlob?_some accepted).blobs, if_neg]
        · exact absent other (List.mem_cons_of_mem _ member)
        · intro sameKey
          have sameDigest : blob.digest = other.digest := congrArg Prod.snd sameKey
          exact distinct.1 (sameDigest ▸ List.mem_map_of_mem member)
      obtain ⟨filled, later⟩ := ih stillOwned distinct.2 stillAbsent
      refine ⟨filled, ?_⟩
      rw [List.foldlM_cons, accepted]
      exact later

/-! ### Saving a snapshot -/

/-- The snapshot of the job is stored with its blobs, none of them begun. -/
structure Stored (store after : Store) (job : String) (row : JobRow) (snapshot : ImageSnapshot)
    (current : Instant) : Prop where
  pinned : after.jobs.find? job = some (row.pin snapshot current)
  blobs : after.jobBlobs job = snapshot.blobs.map (.pending job current)
  others : ∀ other, other ≠ job → after.jobs.find? other = store.jobs.find? other ∧
    after.jobBlobs other = store.jobBlobs other

variable {row : JobRow} {snapshot : ImageSnapshot}

private theorem count_planned_eq_one_iff :
    store.jobs.count (fun row => row.holdsClaim job token && row.state = .planning) = 1 ↔
      ∃ row, store.jobs.find? job = some row ∧ row.claimToken = some token ∧
        row.state = .planning := by
  rw [store.jobs.count_eq_one_iff _ job fun row both =>
    (JobRow.holdsClaim_iff.mp ((Bool.and_eq_true _ _).mp both).1).1]
  constructor
  · rintro ⟨row, found, both⟩
    obtain ⟨held, planning⟩ := (Bool.and_eq_true _ _).mp both
    exact ⟨row, found, (JobRow.holdsClaim_iff.mp held).2, of_decide_eq_true planning⟩
  · rintro ⟨row, found, held, planning⟩
    refine ⟨row, found, ?_⟩
    rw [JobRow.holdsClaim_iff.mpr ⟨store.jobs.find?_key found, held⟩, decide_eq_true planning]
    rfl

private theorem saveSnapshot_refuses (fits : optionFits snapshot.expectedBytes = true)
    (notOne : ¬ ∃ row, store.jobs.find? job = some row ∧ row.claimToken = some token ∧
      row.state = .planning) :
    store.saveSnapshot job token snapshot current = .ok (store, false) := by
  simp only [saveSnapshot, fits, Bool.not_true, Bool.false_eq_true, if_false]
  exact if_neg fun one => notOne (count_planned_eq_one_iff.mp one)

private theorem saveSnapshot_overflows (large : optionFits snapshot.expectedBytes = false) :
    store.saveSnapshot job token snapshot current = .error .overflow := by
  simp only [saveSnapshot, large, Bool.not_false, if_true]

/-- A planning row without blobs takes a snapshot with distinct digests, whose numbers fit. -/
theorem saveSnapshot_stores (found : store.jobs.find? job = some row)
    (held : row.claimToken = some token) (planning : row.state = .planning)
    (noBlobs : store.jobBlobs job = []) (distinct : (snapshot.blobs.map Descriptor.digest).Nodup)
    (fits : optionFits snapshot.expectedBytes = true)
    (sizesFit : ∀ blob ∈ snapshot.blobs, optionFits blob.size = true) :
    ∃ after, store.saveSnapshot job token snapshot current = .ok (after, true) ∧
      store.Stored after job row snapshot current := by
  have rowId : row.id = job := store.jobs.find?_key found
  have chosen : (row.holdsClaim job token && row.state = .planning) = true := by
    rw [JobRow.holdsClaim_iff.mpr ⟨rowId, held⟩, decide_eq_true planning]
    rfl
  have foundPinned := @find?_updateJobs_selected store
    (fun row => row.holdsClaim job token && row.state = .planning) (JobRow.pin snapshot current)
    (JobRow.key_pin snapshot current) job row found chosen
  obtain ⟨owner, ownerMember⟩ : ∃ owner, owner ∈ (store.updateJobs
      (fun row => row.holdsClaim job token && row.state = .planning) (JobRow.pin snapshot current)
      (JobRow.key_pin snapshot current)).jobs.rows ∧ owner.id = job :=
    ⟨row.pin snapshot current, KeyedTable.find?_mem _ foundPinned, rowId⟩
  have absent : ∀ blob ∈ snapshot.blobs, store.blobs.find? (job, blob.digest) = none := by
    intro blob _
    cases present : store.blobs.find? (job, blob.digest) with
    | none => rfl
    | some other =>
        have listed := (find?_blob present).1
        rw [noBlobs] at listed
        cases listed
  obtain ⟨filled, accepted⟩ := @insertBlobs_of_distinct job current snapshot.blobs _
    ⟨owner, ownerMember⟩ distinct absent
  refine ⟨filled, ?_, Stored.mk ?_ ?_ fun other differs => ⟨?_, ?_⟩⟩
  · simp only [saveSnapshot, fits, Bool.not_true, Bool.false_eq_true, if_false]
    rw [if_pos (count_planned_eq_one_iff.mpr ⟨row, found, held, planning⟩),
      (Transaction.insertPending_eq_ok job current).mpr ⟨sizesFit, accepted⟩]
    rfl
  · rw [jobs_insertBlobs job current snapshot.blobs accepted, foundPinned]
  · rw [jobBlobs_insertBlobs job job current snapshot.blobs accepted, jobBlobs_updateJobs, noBlobs,
      List.nil_append]
    refine List.filter_eq_self.mpr fun blob member => decide_eq_true ?_
    obtain ⟨item, -, rfl⟩ := List.mem_map.mp member
    rfl
  · rw [jobs_insertBlobs job current snapshot.blobs accepted, find?_updateJobs]
    cases otherFound : store.jobs.find? other with
    | none => rfl
    | some otherRow =>
        have otherId : otherRow.id = other := store.jobs.find?_key otherFound
        have notHeld : otherRow.holdsClaim job token = false := by
          rw [Bool.eq_false_iff]
          exact fun holds => differs (otherId.symm.trans (JobRow.holdsClaim_iff.mp holds).1)
        rw [Option.map_some, notHeld]
        rfl
  · rw [jobBlobs_insertBlobs other job current snapshot.blobs accepted, jobBlobs_updateJobs,
      List.filter_eq_nil_iff.mpr, List.append_nil]
    intro blob member sameJob
    obtain ⟨item, -, rfl⟩ := List.mem_map.mp member
    exact differs (of_decide_eq_true sameJob).symm

end Store

private theorem jobBlobs_of_planning {system : System} (reached : interleaved.Reachable system)
    {job : String} {row : JobRow} (found : system.store.jobs.find? job = some row)
    (planning : row.state = .planning) : system.store.jobBlobs job = [] := by
  have follows := followsSnapshot_of_found reached found
  have described := follows.described
  rw [follows.planning planning] at described
  exact List.map_eq_nil_iff.mp described

/-! ### The plans of the service -/

/-- The service has planned this, and the client has made the snapshot of it. -/
def ServedPlan (snapshot : ImageSnapshot) : Prop :=
  ∃ (Ref : Type) (service : Service) (client : PlanClient Ref) (fuel : Nat)
    (decoded : Option PlanRequest) (response : Wire.PlanResponse) (text : Client.JsonText)
    (payload : Client.PlanPayload),
    (service.plan client fuel decoded).2 = .ok response ∧
    Client.plan text payload response.json = .ok snapshot.untyped

namespace ServedPlan

variable {snapshot : ImageSnapshot}

private theorem blobs_untyped (served : ServedPlan snapshot) :
    ∃ state : PlanState, snapshot.blobs.map Descriptor.untyped =
      state.blobList.map Wire.Descriptor.record := by
  obtain ⟨Ref, service, client, fuel, decoded, response, text, payload, planned, built⟩ := served
  obtain ⟨start, state, -, -, -, rfl⟩ := plan_ok planned
  exact ⟨state, congrArg Client.ImageSnapshot.blobs (plan_json built)⟩

theorem distinct (served : ServedPlan snapshot) : (snapshot.blobs.map Descriptor.digest).Nodup := by
  obtain ⟨state, sameBlobs⟩ := served.blobs_untyped
  have sameDigests := congrArg (List.map Client.Descriptor.digest) sameBlobs
  rw [List.map_map, List.map_map] at sameDigests
  have texts : (snapshot.blobs.map Descriptor.digest).map JsonValue.str =
      (state.blobList.map Wire.Descriptor.digest).map JsonValue.str := by
    rw [List.map_map, List.map_map]
    exact sameDigests
  rw [List.map_injective_iff.mpr (fun _ _ => JsonValue.str.inj) texts]
  exact List.pairwise_map.mpr ((blobList_sorted state).imp fun less => ne_of_lt less)

private theorem sizesFit (served : ServedPlan snapshot) :
    ∀ blob ∈ snapshot.blobs, Store.optionFits blob.size = true := by
  obtain ⟨state, sameBlobs⟩ := served.blobs_untyped
  intro blob member
  have untyped : blob.untyped ∈ state.blobList.map Wire.Descriptor.record :=
    sameBlobs ▸ List.mem_map_of_mem member
  obtain ⟨item, -, same⟩ := List.mem_map.mp untyped
  have sameSize := congrArg Client.Descriptor.size same
  cases known : blob.size with
  | none => rfl
  | some size =>
      simp only [Wire.Descriptor.record, Descriptor.untyped, known] at sameSize
      cases reported : item.size with
      | none =>
          rw [reported] at sameSize
          cases sameSize
      | some number =>
          rw [reported] at sameSize
          have sameNumber : number.toInt = size := JsonValue.int.inj sameSize
          have below := number.toInt_lt
          refine decide_eq_true ⟨?_, ?_⟩
          · omega
          · omega

end ServedPlan

/-- The plans that the workers of a manager receive come from the service. -/
def Deployment.Served (deployment : Deployment) : Label → Prop
  | .work index reading => ∀ execution details snapshot,
      deployment.workers[index]? = some execution → execution.point = .plan details →
      reading.reply = .planned snapshot → ServedPlan snapshot
  | _ => True

/-- Every plan that a worker is about to save is one of the service. -/
def Deployment.HoldsServedPlans (deployment : Deployment) : Prop :=
  ∀ execution ∈ deployment.workers, ∀ details planned,
    execution.point = .saveSnapshot details planned → ServedPlan planned

private theorem Execution.Advance.planned_of_saving {config : ManagerConfig} {store : Store}
    {execution : Execution} {reading : Reading} {here : Point} {action : Action} {details : JobRow}
    {planned : ImageSnapshot}
    (advance : execution.Advance config store reading here action (.saveSnapshot details planned)) :
    here = .plan details ∧ reading.reply = .planned planned := by
  generalize pointEq : Point.saveSnapshot details planned = point at advance
  cases advance with
  | planned reply =>
      cases pointEq
      exact ⟨rfl, reply⟩
  | @detailsMissing frame | @failureRaised frame => cases frame <;> cases pointEq
  | _ => cases pointEq

namespace Deployment

variable {config : ManagerConfig} {before after : Deployment}

private theorem holdsServedPlans_step {label : Label} (served : before.Served label)
    (moved : before.next config label = some after) (held : before.HoldsServedPlans) :
    after.HoldsServedPlans := by
  obtain ⟨action, acted, -⟩ := next_eq_some.mp moved
  intro execution member details planned saving
  rcases act_cases acted with ⟨-, sameWorkers⟩ |
    ⟨worker, leaseSeconds, current, token, -, -, sameWorkers | ⟨job, withNew⟩⟩ |
    ⟨index, old, point, found, placed, moves⟩
  · rw [sameWorkers] at member
    exact held execution member details planned saving
  · rw [sameWorkers] at member
    exact held execution member details planned saving
  · rw [withNew] at member
    rcases List.mem_append.mp member with there | isNew
    · exact held execution there details planned saving
    · rw [List.mem_singleton.mp isNew] at saving
      cases saving
  · rw [placed] at member
    rcases mem_place found member with there | ⟨rfl, -⟩
    · exact held execution there details planned saving
    · change point = .saveSnapshot details planned at saving
      rw [saving] at moves
      rcases moves with
        ⟨reading, rfl, stepped⟩ | ⟨-, ⟨-, led⟩ | ⟨error, impossible⟩ | ⟨-, cancelled⟩⟩
      · obtain ⟨planning, reply⟩ := (Execution.advance_of_step stepped).planned_of_saving
        exact served old details planned found planning reply
      · unfold Execution.exceptionAt at led
        split at led <;> cases led
      · cases impossible
      · unfold Execution.cancelledAt at cancelled
        split at cancelled <;> cases cancelled

end Deployment

/-- In every run of a manager whose plans come from the service, each plan that a worker
saves is stored, with one blob row for each of its blobs and nothing done yet, or the
row is no longer the worker's to plan, or its blobs have more than the `2^63 - 1` bytes
that a column holds. -/
theorem served_plans_are_stored {config : ManagerConfig} {last : Deployment}
    (run : (deployed config).Run Deployment.Served Deployment.initial last)
    {execution : Execution} (member : execution ∈ last.workers) {details : JobRow}
    {planned : ImageSnapshot} (saving : execution.point = .saveSnapshot details planned)
    (current : Instant) :
    (∃ row after, last.system.store.jobs.find? execution.job = some row ∧
      row.claimToken = some execution.token ∧ row.state = .planning ∧
      last.system.store.saveSnapshot execution.job execution.token planned current =
        .ok (after, true) ∧
      last.system.store.Stored after execution.job row planned current) ∨
    (last.system.store.saveSnapshot execution.job execution.token planned current =
        .ok (last.system.store, false) ∧
      ∀ row, last.system.store.jobs.find? execution.job = some row →
        row.claimToken = some execution.token → row.state ≠ .planning) ∨
    (last.system.store.saveSnapshot execution.job execution.token planned current =
        .error .overflow ∧
      ∃ total, planned.expectedBytes = some total ∧ 9223372036854775807 < total) := by
  have held := run.preserves Deployment.HoldsServedPlans
    (fun before label after served moved => Deployment.holdsServedPlans_step served moved)
    (fun execution member => by cases member)
  have served := held execution member details planned saving
  have reached : interleaved.Reachable last.system :=
    Deployment.reachable_system ⟨Deployment.initial, rfl, run.always⟩
  cases fits : Store.optionFits planned.expectedBytes with
  | false =>
      refine Or.inr (Or.inr ⟨Store.saveSnapshot_overflows fits, ?_⟩)
      cases known : planned.expectedBytes with
      | none =>
          rw [known] at fits
          cases fits
      | some total =>
          rw [known] at fits
          have large := of_decide_eq_false fits
          exact ⟨total, rfl, by omega⟩
  | true =>
      by_cases own : ∃ row, last.system.store.jobs.find? execution.job = some row ∧
          row.claimToken = some execution.token ∧ row.state = .planning
      · obtain ⟨row, found, holds, planning⟩ := own
        obtain ⟨after, saved, stored⟩ := Store.saveSnapshot_stores found holds planning
          (jobBlobs_of_planning reached found planning) served.distinct fits served.sizesFit
        exact Or.inl ⟨row, after, found, holds, planning, saved, stored⟩
      · exact Or.inr (Or.inl ⟨Store.saveSnapshot_refuses fits own,
          fun row found holds planning => own ⟨row, found, holds, planning⟩⟩)

/-! ### A worker that saves the plan of one image -/

def oneImagePlan : Wire.PlanResponse :=
  { protocolVersion := 1
    resolvedSource := "target.test/image@" ++ imageDigest
    rootDigest := imageDigest
    rootMediaType := "application/json"
    rootSize := 7
    manifests :=
      [{ digest := imageDigest
         mediaType := "application/json"
         size := 7
         kind := "root"
         subjectDigest := none
         platform := none }]
    blobs :=
      [{ digest := layerDigest
         mediaType := "application/json"
         size := some 7 }] }

def oneImageSnapshot : ImageSnapshot :=
  { source := "a.example/x:v1"
    resolvedSource := "target.test/image@" ++ imageDigest
    destination := "b.example/x:v1"
    rootDigest := imageDigest
    rootMediaType := "application/json"
    rootSize := 7
    platforms := []
    manifests :=
      [{ digest := imageDigest
         mediaType := "application/json"
         size := 7
         kind := "root"
         subjectDigest := none
         platform := none }]
    blobs :=
      [{ digest := layerDigest
         mediaType := "application/json"
         size := some 7 }]
    copyReferrers := true
    copyDigestTags := true
    replacementPolicy := .noClobber
    digest := "sha256:" ++ oneImageText.sha256 .null }

private theorem oneImageSnapshot_served : ServedPlan oneImageSnapshot := by
  have planned : (sampleService.plan oneImageClient 34 (some oneImageRequest)).2 =
      .ok oneImagePlan := by
    decide +kernel
  have short : oneImageText.length oneImagePlan.json ≤ Client.maxResponse :=
    (by decide : 561 ≤ Client.maxResponse)
  exact ⟨SampleRef, sampleService, oneImageClient, 34, some oneImageRequest, oneImagePlan,
    oneImageText,
    indexPayload, planned, plan_json_ok indexPayload short rfl (by decide +kernel)⟩

def untilSaving : List Label :=
  [.environment (.commit (.enqueue sampleValues "job" 0)), .claim "manager-0" 60 1 "token",
    .work 0 (replied .done 2), .work 0 (replied .done 2), .work 0 (replied .done 2),
    .work 0 (replied .done 2), .work 0 (replied (.planned oneImageSnapshot) 3)]

def Point.savesOneImage : Point → Bool
  | .saveSnapshot _ planned => planned = oneImageSnapshot
  | _ => false

def Label.bringsOneImage : Label → Bool
  | .work _ reading =>
      match reading.reply with
      | .planned snapshot => snapshot = oneImageSnapshot
      | _ => true
  | _ => true

theorem served_plans_are_stored_for_one_image :
    ∃ (store after : Store) (row : JobRow), row.state = .planning ∧
      store.saveSnapshot "job" "token" oneImageSnapshot 4 = .ok (after, true) ∧
      store.Stored after "job" row oneImageSnapshot 4 := by
  have saves : (((deployed sampleConfig).execute (fun _ label => label.bringsOneImage = true)
      untilSaving Deployment.initial).any fun deployment =>
        ((deployment.system.store.jobs.find? "job").any fun row =>
          row.claimToken = some "token" && row.state = .planning) &&
        deployment.workers.any fun execution => execution.job = "job" &&
          execution.token = "token" && execution.point.savesOneImage) = true := by
    decide +kernel
  obtain ⟨last, run, tested⟩ := (deployed sampleConfig).exists_run_of_execute _ saves
  obtain ⟨planning, someone⟩ := (Bool.and_eq_true _ _).mp tested
  obtain ⟨row, found, own⟩ := (Option.any_eq_true _ _).mp planning
  obtain ⟨execution, member, saving⟩ := List.any_eq_true.mp someone
  simp only [Bool.and_eq_true, decide_eq_true_eq] at own saving
  obtain ⟨⟨jobEq, tokenEq⟩, saving⟩ := saving
  have served := run.weaken Deployment.Served (by
    intro state label brought
    cases label with
    | work index reading =>
        intro execution details snapshot _ _ reply
        simp only [Label.bringsOneImage, reply, decide_eq_true_eq] at brought
        rw [brought]
        exact oneImageSnapshot_served
    | _ => trivial)
  cases pointEq : execution.point with
  | saveSnapshot details planned =>
      rw [pointEq] at saving
      have isOne : planned = oneImageSnapshot := of_decide_eq_true saving
      subst isOne
      rcases served_plans_are_stored served member pointEq 4 with
        ⟨row, after, -, -, isPlanning, saved, stored⟩ | ⟨-, lost⟩ | ⟨-, total, known, large⟩
      · rw [jobEq, tokenEq] at saved
        rw [jobEq] at stored
        exact ⟨last.system.store, after, row, isPlanning, saved, stored⟩
      · rw [jobEq, tokenEq] at lost
        exact absurd own.2 (lost row found own.1)
      · have seven : total = 7 := Option.some.inj (known.symm.trans (by decide))
        omega
  | _ =>
      rw [pointEq] at saving
      cases saving

end OciTransfer
