import OciTransfer.ExecutionSteps
import OciTransfer.RequestTexts
import OciTransfer.WireFormat

/-!
From a request to what the service is asked.

An execution reads the row of its job once and keeps what it has read; the plan call,
however much later, is made of that.  No transaction writes the columns of the request,
so at each await the row that was read fits every request the job has been returned
for, also when the job has been deleted meanwhile.  The plan request decodes to that
request, and so does the copy request of any plan that is made for it.
-/

namespace OciTransfer

open JsonValue

/-! ### The plan call -/

/-- The payload of `client.plan` in `_execute`; `none` where `json.loads` raises. -/
def JobRow.planCall (readFloat : List Char → JsonValue) (details : JobRow)
    (sourceCredentials destinationCredentials : Option Client.RegistryCredentials) :
    Option JsonValue :=
  (loads readFloat details.platformsJson.toList).map fun platforms =>
    .dict [("protocol_version", .int 1), ("source", .str details.source),
      ("destination", .str details.destination), ("platforms", platforms),
      ("copy_referrers", .bool (details.copyReferrers ≠ 0)),
      ("copy_digest_tags", .bool (details.copyDigestTags ≠ 0)),
      ("replacement_policy", .str details.replacementPolicy.text),
      ("source_credentials", .ofOption Client.RegistryCredentials.json sourceCredentials),
      ("destination_credentials", .ofOption Client.RegistryCredentials.json destinationCredentials)]

/-- What `client.plan` itself reads of its payload, where the fields have these types. -/
def Client.planPayload (payload : JsonValue) : Option Client.PlanPayload :=
  match payload.get? "source", payload.get? "destination", payload.getD "platforms" (.arr []),
    payload.get? "copy_referrers", payload.get? "copy_digest_tags",
    payload.get? "replacement_policy" with
  | some (.str source), some (.str destination), .arr platforms, some (.bool copyReferrers),
    some (.bool copyDigestTags), some (.str replacementPolicy) =>
      (platforms.mapM goString).map fun platforms =>
        { source := source
          destination := destination
          platforms := platforms
          copyReferrers := copyReferrers
          copyDigestTags := copyDigestTags
          replacementPolicy := replacementPolicy }
  | _, _, _, _, _, _ => none

namespace Wire

structure PlanRequest where
  protocolVersion : Int64
  source : String
  destination : String
  platforms : List String
  copyReferrers : Bool
  copyDigestTags : Bool
  replacementPolicy : String
  sourceCredentials : Option Credentials
  destinationCredentials : Option Credentials
  deriving DecidableEq, Repr

def planRequestFields : List String :=
  ["protocol_version", "source", "destination", "platforms", "copy_referrers", "copy_digest_tags",
    "replacement_policy", "source_credentials", "destination_credentials"]

/-- `decode` into a `planRequest`; `none` is answered with `invalid request`. -/
def decodePlanRequest (text : Client.JsonText) (body : JsonValue) : Option PlanRequest :=
  if maxBody < text.length body then none
  else
    goStruct planRequestFields (fun field => do
      return { protocolVersion := ← goInt64 (field "protocol_version")
               source := ← goString (field "source")
               destination := ← goString (field "destination")
               platforms := ← goSlice goString (field "platforms")
               copyReferrers := ← goBool (field "copy_referrers")
               copyDigestTags := ← goBool (field "copy_digest_tags")
               replacementPolicy := ← goString (field "replacement_policy")
               sourceCredentials := ← goPointer decodeCredentials (field "source_credentials")
               destinationCredentials :=
                 ← goPointer decodeCredentials (field "destination_credentials") }) body

end Wire

private theorem goPointer_credentials (given : Option Client.RegistryCredentials) :
    goPointer Wire.decodeCredentials (ofOption Client.RegistryCredentials.json given) =
      some (given.map Client.RegistryCredentials.wire) := by
  cases given with
  | none => rfl
  | some credentials =>
      exact @goPointer_ofOption _ Wire.decodeCredentials
        (fun item : Wire.Credentials => item.record.json) (fun _ same => nomatch same)
        decodeCredentials_record (some credentials.wire)

/-- The items of a plan call for this payload, with these credentials. -/
def Client.PlanPayload.items (payload : Client.PlanPayload)
    (source destination : Option Client.RegistryCredentials) : List (String × JsonValue) :=
  [("protocol_version", .int 1), ("source", .str payload.source),
    ("destination", .str payload.destination), ("platforms", .arr (payload.platforms.map .str)),
    ("copy_referrers", .bool payload.copyReferrers),
    ("copy_digest_tags", .bool payload.copyDigestTags),
    ("replacement_policy", .str payload.replacementPolicy),
    ("source_credentials", .ofOption Client.RegistryCredentials.json source),
    ("destination_credentials", .ofOption Client.RegistryCredentials.json destination)]

/-- The request that carries the same in the struct of the service. -/
def Client.PlanPayload.wire (payload : Client.PlanPayload)
    (source destination : Option Client.RegistryCredentials) : Wire.PlanRequest :=
  { protocolVersion := 1
    source := payload.source
    destination := payload.destination
    platforms := payload.platforms
    copyReferrers := payload.copyReferrers
    copyDigestTags := payload.copyDigestTags
    replacementPolicy := payload.replacementPolicy
    sourceCredentials := source.map Client.RegistryCredentials.wire
    destinationCredentials := destination.map Client.RegistryCredentials.wire }

private theorem mapM_texts (texts : List String) :
    (texts.map JsonValue.str).mapM goString = some texts := by
  have all := @mapM_map _ _ goString .str id (fun _ => rfl) texts
  rwa [List.map_id] at all

section Call

variable (payload : Client.PlanPayload) (source destination : Option Client.RegistryCredentials)

private theorem planPayload_items :
    Client.planPayload (.dict (payload.items source destination)) = some payload := by
  have distinct : ((payload.items source destination).map Prod.fst).Nodup := by
    change Wire.planRequestFields.Nodup
    decide
  unfold Client.planPayload
  simp only [getD_dict distinct, get?_dict_lookup distinct]
  simp only [Client.PlanPayload.items, List.lookup_cons, String.reduceBEq, Option.getD_some,
    mapM_texts, Option.map_some]

private theorem decodePlanRequest_items {text : Client.JsonText}
    (fits : text.length (.dict (payload.items source destination)) ≤ Wire.maxBody) :
    Wire.decodePlanRequest text (.dict (payload.items source destination)) =
      some (payload.wire source destination) := by
  have one : goInt64 (.int 1) = some 1 := goInt64_toInt 1
  unfold Wire.decodePlanRequest
  rw [if_neg (Nat.not_lt.mpr fits), @goStruct_dict _ _ Wire.planRequestFields _ _ rfl (by decide)
    (by decide) (by decide)]
  simp only [Client.PlanPayload.items, List.lookup_cons, String.reduceBEq, Option.getD_some, one,
    goString, goBool, goSlice, mapM_texts, goPointer_credentials, Option.pure_def,
    Option.bind_eq_bind, Option.bind_some]
  rfl

end Call

/-- What a request asks a plan for, with the platforms as they were selected. -/
def EnqueueRequest.payload (request : EnqueueRequest) (selected : List String) :
    Client.PlanPayload :=
  { source := request.source
    destination := request.destination
    platforms := selected
    copyReferrers := request.copyReferrers
    copyDigestTags := request.copyDigestTags
    replacementPolicy := request.replacementPolicy }

/-- A row that fits the values of a request makes the plan call of that request. -/
theorem planCall_of_equivalent (readFloat : List Char → JsonValue) {manager : CopyManager}
    {request : EnqueueRequest} {values : EnqueueValues} {details : JobRow}
    (prepared : (manager.values request).2 = .ok values) (fits : details.equivalent values = true)
    (source destination : Option Client.RegistryCredentials) :
    ∃ selected, normalizePlatforms request.platforms = .ok selected ∧
      details.planCall readFloat source destination =
        some (.dict ((request.payload selected).items source destination)) := by
  obtain ⟨selected, policy, normalized, named, rfl⟩ := CopyManager.values_eq prepared
  obtain ⟨sameSource, sameDestination, -, -, referrers, tags, samePolicy, platforms⟩ :=
    JobRow.equivalent_iff.mp fits
  have flag : ∀ given : Bool, decide ((if given then 1 else 0 : Int) ≠ 0) = given := by
    intro given
    cases given <;> rfl
  refine ⟨selected, normalized, ?_⟩
  unfold JobRow.planCall
  rw [platforms, loads_platformsJson readFloat (plain_of_normalizePlatforms normalized), sameSource,
    sameDestination, referrers, tags, samePolicy, named]
  simp only [Option.map_some, flag]
  rfl

/-! ### What an execution has read -/

/-- The row that `_execute` has in its local `details` at this await. -/
def Point.details : Point → Option JobRow
  | .sourceCredentials details | .destinationCredentials details | .loadSnapshot details
  | .plan details | .saveSnapshot details _ | .stream details _ | .checkCancelled details _ _
  | .cancelOperation details | .progress details _ _ | .handle details _
  | .refreshSource details _ | .refreshDestination details _ => some details
  | _ => none

theorem Execution.Advance.details {config : ManagerConfig} {store : Store} {execution : Execution}
    {reading : Reading} {here point : Point} {action : Action}
    (advance : execution.Advance config store reading here action point) {details : JobRow}
    (holds : point.details = some details) :
    here.details = some details ∨ store.jobs.find? execution.job = some details := by
  cases advance with
  | started read =>
      cases holds
      exact Or.inr (Store.details_ok.mp read)
  | @detailsMissing frame | @failureRaised frame => cases frame <;> cases holds
  | _ => first | exact Or.inl holds | cases holds

namespace Deployment

variable {config : ManagerConfig} {before after : Deployment}

private theorem details_exceptionAt {here point : Point}
    (led : Execution.exceptionAt here = some point) :
    point.details = none := by
  unfold Execution.exceptionAt at led
  split at led <;> cases led <;> rfl

private theorem details_cancelledAt (here : Point) :
    (Execution.cancelledAt here).details = none := by
  unfold Execution.cancelledAt
  split <;> rfl

private theorem details_step {label : Label} (moved : before.next config label = some after)
    {execution : Execution} (member : execution ∈ after.workers) {details : JobRow}
    (holds : execution.point.details = some details) :
    (∃ old ∈ before.workers, old.job = execution.job ∧ old.point.details = some details) ∨
      before.system.store.jobs.find? execution.job = some details := by
  obtain ⟨action, acted, -⟩ := next_eq_some.mp moved
  rcases act_cases acted with ⟨-, sameWorkers⟩ |
    ⟨worker, leaseSeconds, current, token, -, -, sameWorkers | ⟨job, withNew⟩⟩ |
    ⟨index, old, point, found, placed, moves⟩
  · rw [sameWorkers] at member
    exact Or.inl ⟨execution, member, rfl, holds⟩
  · rw [sameWorkers] at member
    exact Or.inl ⟨execution, member, rfl, holds⟩
  · rw [withNew] at member
    rcases List.mem_append.mp member with there | isNew
    · exact Or.inl ⟨execution, there, rfl, holds⟩
    · rw [List.mem_singleton.mp isNew] at holds
      cases holds
  · rw [placed] at member
    rcases mem_place found member with there | ⟨rfl, oldMember⟩
    · exact Or.inl ⟨execution, there, rfl, holds⟩
    · rcases moves with ⟨reading, -, stepped⟩ | ⟨-, ⟨-, led⟩ | ⟨error, rfl⟩ | ⟨-, rfl⟩⟩
      · rcases (Execution.advance_of_step stepped).details holds with kept | read
        · exact Or.inl ⟨old, oldMember, rfl, kept⟩
        · exact Or.inr read
      · rw [details_exceptionAt led] at holds
        cases holds
      · cases holds
      · rw [details_cancelledAt] at holds
        cases holds

/-- The details of every execution fit what the row of its job fits. -/
def Informed (deployment : Deployment) : Prop :=
  ∀ execution ∈ deployment.workers, ∀ details, execution.point.details = some details →
    execution.job ∈ deployment.system.jobIds ∧
    ∀ row, deployment.system.store.jobs.find? execution.job = some row →
      ∀ values, row.equivalent values = details.equivalent values

/-- A row after an action that was drawn before it fits what the row before it fits. -/
theorem equivalent_step {action : Action} (stepped : before.system.next action = some after.system)
    {job : String} (drawn : job ∈ before.system.jobIds) {row : JobRow}
    (found : after.system.store.jobs.find? job = some row) :
    ∃ old, before.system.store.jobs.find? job = some old ∧
      ∀ values, row.equivalent values = old.equivalent values := by
  rcases System.next_row stepped found with
    ⟨old, present, rfl | ⟨transaction, -, changed⟩⟩ | ⟨-, undrawn, -⟩
  · exact ⟨row, present, fun _ => rfl⟩
  · exact ⟨old, present, changed.equivalent⟩
  · exact absurd drawn undrawn

theorem informed_step {label : Label} (moved : before.next config label = some after)
    (reached : interleaved.Reachable before.system) (informed : before.Informed) :
    after.Informed := by
  obtain ⟨action, acted, stepped⟩ := next_eq_some.mp moved
  intro execution member details holds
  rcases details_step moved member holds with ⟨old, oldMember, sameJob, kept⟩ | read
  · obtain ⟨drawn, agrees⟩ := informed old oldMember details kept
    rw [sameJob] at drawn agrees
    refine ⟨(System.next_drawn stepped).2 drawn, fun row found values => ?_⟩
    obtain ⟨earlier, present, same⟩ := equivalent_step stepped drawn found
    rw [same, agrees earlier present]
  · have drawn := System.drawn_of_found reached read
    refine ⟨(System.next_drawn stepped).2 drawn, fun row found values => ?_⟩
    obtain ⟨earlier, present, same⟩ := equivalent_step stepped drawn found
    rw [read] at present
    cases present
    exact same values

theorem informed_of_reachable {deployment : Deployment}
    (reached : (deployed config).Reachable deployment) : deployment.Informed := by
  have invariant := reached.invariant
    (fun deployment => interleaved.Reachable deployment.system ∧ deployment.Informed) ?_ ?_
  · exact invariant.2
  · intro state started
    cases started
    exact ⟨⟨System.initial, rfl, Machine.Run.refl _⟩, fun execution member => nomatch member⟩
  · intro before label after moved ih
    exact ⟨ih.1.run (next_projects moved), informed_step moved ih.1 ih.2⟩

structure Fits (deployment : Deployment) (job : String) (values : EnqueueValues) : Prop where
  drawn : job ∈ deployment.system.jobIds
  stored : ∀ row, deployment.system.store.jobs.find? job = some row → row.equivalent values = true
  read : ∀ execution ∈ deployment.workers, execution.job = job → ∀ details,
    execution.point.details = some details → details.equivalent values = true

theorem fits_step {label : Label} (moved : before.next config label = some after) {job : String}
    {values : EnqueueValues} (fits : before.Fits job values) : after.Fits job values := by
  obtain ⟨action, acted, stepped⟩ := next_eq_some.mp moved
  refine Fits.mk ((System.next_drawn stepped).2 fits.drawn) (fun row found => ?_)
    fun execution member sameJob details holds => ?_
  · obtain ⟨old, present, same⟩ := equivalent_step stepped fits.drawn found
    rw [same, fits.stored old present]
  · rcases details_step moved member holds with ⟨old, oldMember, oldJob, kept⟩ | read
    · exact fits.read old oldMember (oldJob.trans sameJob) details kept
    · rw [sameJob] at read
      exact fits.stored details read

theorem fits_of_enqueue {values : EnqueueValues} {jobId : String} {current : Instant}
    {stored : Store} {job : CopyJob} (reached : interleaved.Reachable before.system)
    (informed : before.Informed)
    (moved :
      before.next config (.environment (.commit (.enqueue values jobId current))) = some after)
    (answered : before.system.store.enqueue values jobId current = .ok (stored, job)) :
    after.Fits job.id values := by
  obtain ⟨action, acted, stepped⟩ := next_eq_some.mp moved
  obtain ⟨rfl, -⟩ := Prod.mk.inj (Option.some.inj acted)
  have storedEq : after.system.store = stored := by
    rw [System.next_commit_store stepped]
    simp only [Transaction.commit, answered]
  obtain ⟨row, found, fits⟩ := Store.enqueue_stored answered
  rw [← storedEq] at found
  refine Fits.mk (System.drawn_of_found (reached.run (next_projects moved)) found)
    (fun other otherFound => ?_) fun execution member sameJob details holds => ?_
  · rw [found] at otherFound
    cases otherFound
    exact fits
  · rw [← (informed_step moved reached informed execution member details holds).2 row
      (by rw [sameJob, found]) values, fits]

end Deployment

/-- From the request to the registry service: in every run of a manager, with any
clients and other managers, a plan call that a worker makes for a job decodes at the
service to the request the job was returned for, and so does the copy request of
whatever plan the client accepts for it. -/
theorem workers_ask_for_what_was_requested {config : ManagerConfig} {manager : CopyManager}
    {request : EnqueueRequest} {values : EnqueueValues} {first second last : Deployment}
    {jobId : String} {current : Instant} {stored : Store} {job : CopyJob}
    (reached : (deployed config).Reachable first)
    (prepared : (manager.values request).2 = .ok values)
    (moved :
      first.next config (.environment (.commit (.enqueue values jobId current))) = some second)
    (answered : first.system.store.enqueue values jobId current = .ok (stored, job))
    (run : (deployed config).Run Machine.Always second last) {execution : Execution}
    (member : execution ∈ last.workers) (sameJob : execution.job = job.id) {details : JobRow}
    (planning : execution.point = .plan details) (readFloat : List Char → JsonValue)
    (text : Client.JsonText) (source destination : Option Client.RegistryCredentials) :
    ∃ selected call, normalizePlatforms request.platforms = .ok selected ∧
      details.planCall readFloat source destination = some call ∧
      (text.length call ≤ Wire.maxBody →
        Wire.decodePlanRequest text call =
          some ((request.payload selected).wire source destination)) ∧
      ∃ payload, Client.planPayload call = some payload ∧
        ∀ response snapshot, Client.plan text payload response.json = .ok snapshot →
          text.length (Client.copyPayload snapshot.loaded source destination) ≤ Wire.maxBody →
          Wire.decodeCopyRequest text (Client.copyPayload snapshot.loaded source destination) =
            some
              { protocolVersion := 1
                snapshot := Wire.PlanResponse.snapshot response (request.payload selected)
                  snapshot.digest
                sourceCredentials := source.map Client.RegistryCredentials.wire
                destinationCredentials :=
                  destination.map Client.RegistryCredentials.wire } := by
  have fits := run.preserves (fun deployment => deployment.Fits job.id values)
    (fun before label after _ stepped => Deployment.fits_step stepped)
    (Deployment.fits_of_enqueue (Deployment.reachable_system reached)
      (Deployment.informed_of_reachable reached) moved answered)
  have read := fits.read execution member sameJob details (by rw [planning]; rfl)
  obtain ⟨selected, normalized, called⟩ :=
    planCall_of_equivalent readFloat prepared read source destination
  refine ⟨selected, _, normalized, called,
    decodePlanRequest_items (request.payload selected) source destination, request.payload selected,
    planPayload_items (request.payload selected) source destination, ?_⟩
  intro response snapshot built fitsBody
  exact decodeCopyRequest_planned built source destination fitsBody

/-! ### A request for two platforms, up to its plan call -/

def untilPlanning : List Label :=
  [.claim "manager-0" 60 1 "token", .work 0 (replied .done 2), .work 0 (replied .done 2),
    .work 0 (replied .done 2), .work 0 (replied .done 2)]

def Point.isPlan : Point → Bool
  | .plan _ => true
  | _ => false

def twoPlatformPlan : Wire.PlanRequest :=
  { protocolVersion := 1
    source := "a.example/x:v1"
    destination := "b.example/x:v1"
    platforms := ["linux/amd64", "linux/arm64"]
    copyReferrers := true
    copyDigestTags := true
    replacementPolicy := "no_clobber"
    sourceCredentials := none
    destinationCredentials := some ⟨"user", "pass", none⟩ }

/-- The length of the body of this plan request, and the sum over its text. -/
def twoPlatformText : Client.JsonText :=
  { length := fun _ => 309
    sha256 := fun _ => "4c4a322d45edc8f789496c9eb3f4dcce305811ad87df2b06f720373d35cf7c01" }

theorem workers_ask_for_two_platforms :
    ∃ (details : JobRow) (call : JsonValue),
      details.planCall (fun _ => .null) none (some ⟨"user", "pass", none⟩) = some call ∧
      Wire.decodePlanRequest twoPlatformText call = some twoPlatformPlan := by
  have prepared : (sampleManager.values (twoPlatforms ["linux/arm64", "linux/amd64"])).2 =
      .ok twoPlatformValues := by
    decide +kernel
  have asked : (((deployed sampleConfig).execute Machine.Always untilPlanning
      { system := twoPlatformQueue
        workers := [] }).any fun deployment => deployment.workers.any fun execution =>
          execution.job = "first" && execution.point.isPlan) = true := by
    decide +kernel
  obtain ⟨last, run, someone⟩ := (deployed sampleConfig).exists_run_of_execute _ asked
  obtain ⟨execution, member, plans⟩ := List.any_eq_true.mp someone
  rw [Bool.and_eq_true, decide_eq_true_iff] at plans
  cases pointEq : execution.point with
  | plan details =>
      have started : (deployed sampleConfig).Reachable Deployment.initial :=
        ⟨Deployment.initial, rfl, Machine.Run.refl Deployment.initial⟩
      obtain ⟨selected, call, normalized, called, decoded, -⟩ :=
        workers_ask_for_what_was_requested started prepared rfl rfl run member plans.1 pointEq
          (fun _ => .null) twoPlatformText none (some ⟨"user", "pass", none⟩)
      have selectedEq : selected = ["linux/amd64", "linux/arm64"] := by
        have sorted : normalizePlatforms (twoPlatforms ["linux/arm64", "linux/amd64"]).platforms =
            .ok ["linux/amd64", "linux/arm64"] := by
          decide +kernel
        exact Except.ok.inj (normalized.symm.trans sorted)
      refine ⟨details, call, called, ?_⟩
      rw [decoded (by decide : 309 ≤ Wire.maxBody), selectedEq]
      rfl
  | _ =>
      rw [pointEq] at plans
      cases plans.2

end OciTransfer
