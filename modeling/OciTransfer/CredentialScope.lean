import OciTransfer.PlanRequests
import OciTransfer.ProviderTable

/-!
Whose credentials a worker asks for, and what for.

The table of providers only grows while a process runs, so an identifier that a request
has put into the queue means the provider of that request whenever a worker looks it up.
The worker asks that provider for the registry and the repository of the reference that
the request gave for this side, to pull from the source and to push to the destination.
-/

namespace OciTransfer

/-- The side whose provider the execution is about to call, or calls at this await. -/
def Point.asks : Point → Option (Side × JobRow)
  | .sourceCredentials details | .refreshSource details _ => some (.source, details)
  | .destinationCredentials details | .refreshDestination details _ => some (.destination, details)
  | _ => none

private theorem Point.details_of_asks {point : Point} {side : Side} {details : JobRow}
    (asks : point.asks = some (side, details)) : point.details = some details := by
  cases point with
  | sourceCredentials | destinationCredentials | refreshSource | refreshDestination =>
      cases asks
      rfl
  | _ => cases asks

structure ManagerProcess where
  deployment : Deployment
  manager : CopyManager

inductive ProcessLabel where
  | deploy (label : Label)
  | register (provider : CredentialProvider)
  deriving DecidableEq, Repr

def ManagerConfig.withProviders (config : ManagerConfig) (manager : CopyManager) :
    ManagerConfig :=
  { config with providers := manager.providers.map CredentialProvider.id }

def ManagerProcess.next (config : ManagerConfig) (process : ManagerProcess) :
    ProcessLabel → Option ManagerProcess
  | .deploy label =>
      (process.deployment.next (config.withProviders process.manager) label).map fun deployment =>
        { process with deployment := deployment }
  | .register provider =>
      match process.manager.registerProvider provider with
      | .ok manager => some { process with manager := manager }
      | .error _ => none

def processOf (config : ManagerConfig) (created : CopyManager) :
    Machine ManagerProcess ProcessLabel :=
  { start := fun process =>
      process = { deployment := Deployment.initial
                  manager := created }
    next := ManagerProcess.next config }

namespace ManagerProcess

variable {config : ManagerConfig} {created : CopyManager} {before after : ManagerProcess}
  {label : ProcessLabel}

private theorem next_cases (moved : before.next config label = some after) :
    (∃ inner, before.deployment.next (config.withProviders before.manager) inner =
        some after.deployment ∧ after.manager = before.manager) ∨
      (after.deployment = before.deployment ∧ before.manager.Extends after.manager) := by
  cases label with
  | deploy inner =>
      obtain ⟨deployment, stepped, rfl⟩ := Option.map_eq_some_iff.mp moved
      exact Or.inl ⟨inner, stepped, rfl⟩
  | register provider =>
      cases registered : before.manager.registerProvider provider with
      | error raised =>
          simp only [next, registered] at moved
          cases moved
      | ok manager =>
          simp only [next, registered] at moved
          cases moved
          exact Or.inr ⟨rfl, CopyManager.extends_registerProvider registered⟩

theorem extends_run (run : (processOf config created).Run Machine.Always before after) :
    before.manager.Extends after.manager := by
  refine run.preserves (fun process => before.manager.Extends process.manager) ?_
    (CopyManager.Extends.refl before.manager)
  intro process label next _ moved ih
  rcases next_cases moved with ⟨-, -, same⟩ | ⟨-, grown⟩
  · rw [same]
    exact ih
  · exact ih.trans grown

private theorem informed_run (run : (processOf config created).Run Machine.Always before after)
    (reached : interleaved.Reachable before.deployment.system)
    (informed : before.deployment.Informed) :
    interleaved.Reachable after.deployment.system ∧ after.deployment.Informed := by
  refine run.preserves
    (fun process => interleaved.Reachable process.deployment.system ∧ process.deployment.Informed)
    ?_ ⟨reached, informed⟩
  intro process label next _ moved ih
  rcases next_cases moved with ⟨inner, stepped, -⟩ | ⟨same, -⟩
  · exact ⟨ih.1.run (Deployment.next_projects stepped),
      Deployment.informed_step stepped ih.1 ih.2⟩
  · rw [same]
    exact ih

private theorem fits_run (run : (processOf config created).Run Machine.Always before after)
    {job : String}
    {values : EnqueueValues} (fits : before.deployment.Fits job values) :
    after.deployment.Fits job values := by
  refine run.preserves (fun process => process.deployment.Fits job values) ?_ fits
  intro process label next _ moved ih
  rcases next_cases moved with ⟨inner, stepped, -⟩ | ⟨same, -⟩
  · exact Deployment.fits_step stepped ih
  · rw [same]
    exact ih

theorem informed_of_reachable (reached : (processOf config created).Reachable after) :
    interleaved.Reachable after.deployment.system ∧ after.deployment.Informed := by
  obtain ⟨first, started, run⟩ := reached
  cases started
  exact informed_run run ⟨System.initial, rfl, Machine.Run.refl _⟩
    fun execution member => nomatch member

end ManagerProcess

/-- The providers of a request are asked for what the request named.  Whenever a worker
of the process looks up whom to ask for the credentials of a side of the job, it finds
the provider that the request gave for this side, or the default of the constructor if
it gave none or one that is false, and asks it about the registry and the repository of
the reference of this side, to pull from the source and to push to the destination. -/
theorem credentials_follow_the_request {config : ManagerConfig}
    {anonymous : CredentialProvider} {arguments : ProviderArguments} {created : CopyManager}
    (made : CopyManager.create anonymous arguments = .ok created)
    {before waiting entered last : ManagerProcess} {request : EnqueueRequest}
    {values : EnqueueValues} {jobId : String} {current : Instant} {stored : Store} {job : CopyJob}
    (reached : (processOf config created).Reachable before)
    (prepared : (before.manager.values request).2 = .ok values)
    (meanwhile : (processOf config created).Run Machine.Always
      { before with manager := (before.manager.values request).1 } waiting)
    (moved : waiting.next config
      (.deploy (.environment (.commit (.enqueue values jobId current)))) = some entered)
    (answered : waiting.deployment.system.store.enqueue values jobId current = .ok (stored, job))
    (run : (processOf config created).Run Machine.Always entered last) {execution : Execution}
    (member : execution ∈ last.deployment.workers) (sameJob : execution.job = job.id)
    {side : Side} {details : JobRow} (asks : execution.point.asks = some (side, details)) :
    ∃ provider registry repository,
      parseReference (request.reference side) = .ok (registry, repository) ∧
      last.manager.credentialCall details side =
        .ok (provider, { registry := registry
                         repository := repository
                         operation := side.operation }) ∧
      details.providerId side ∈ (config.withProviders last.manager).providers ∧
      (∀ given, request.credentials side = some given → given.isTrue = true →
        provider.object = given.object) ∧
      ((request.credentials side).filter (·.isTrue) = none →
        CopyManager.firstWith (created.defaultId side) created.providers = some provider) := by
  obtain ⟨deployment, stepped, enteredEq⟩ := Option.map_eq_some_iff.mp moved
  have sound := ManagerProcess.informed_of_reachable reached
  have soundWaiting := ManagerProcess.informed_run meanwhile sound.1 sound.2
  have entry : entered.deployment.Fits job.id values := by
    rw [← enteredEq]
    exact Deployment.fits_of_enqueue soundWaiting.1 soundWaiting.2 stepped answered
  have fits := (ManagerProcess.fits_run run entry).read execution member sameJob details
    (Point.details_of_asks asks)
  have sinceRequest : (before.manager.values request).1.Extends last.manager := by
    have later := ManagerProcess.extends_run run
    rw [← enteredEq] at later
    exact (ManagerProcess.extends_run meanwhile).trans later
  have sinceCreation : created.Extends before.manager := by
    obtain ⟨first, started, earlier⟩ := reached
    cases started
    exact ManagerProcess.extends_run earlier
  obtain ⟨⟨⟨registry, repository⟩, parsed⟩, ofDetails⟩ := CopyManager.values_side prepared side
  obtain ⟨sameReference, sameProvider⟩ := ofDetails details fits
  have called : ∀ provider,
      CopyManager.firstWith (details.providerId side) last.manager.providers = some provider →
      last.manager.credentialCall details side =
        .ok (provider, { registry := registry
                         repository := repository
                         operation := side.operation }) ∧
      details.providerId side ∈ (config.withProviders last.manager).providers := by
    intro provider found
    have isProvider : decide (provider.id = details.providerId side) = true :=
      List.find?_some
        (p := fun entry : CredentialProvider => entry.id = details.providerId side) found
    refine ⟨?_, List.mem_map.mpr
      ⟨provider, List.mem_of_find?_eq_some found, of_decide_eq_true isProvider⟩⟩
    unfold CopyManager.credentialCall
    rw [found, sameReference, parsed]
  cases given : (request.credentials side).filter (·.isTrue) with
  | some provider =>
      have isGiven := (Option.filter_eq_some_iff.mp given).1
      obtain ⟨entry, found, sameObject⟩ :=
        (CopyManager.maps_of_values prepared isGiven).extends sinceRequest
      rw [given, Option.map_some, Option.getD_some] at sameProvider
      obtain ⟨call, registered⟩ := called entry (by rw [sameProvider, found])
      refine ⟨entry, registry, repository, parsed, call, registered, ?_,
        fun impossible => by cases impossible⟩
      intro other same _
      rw [isGiven] at same
      cases same
      exact sameObject
  | none =>
      obtain ⟨entry, found⟩ := CopyManager.default_registered made side
      have kept := sinceRequest.keeps _ _ (CopyManager.extends_values.keeps _ _
        (sinceCreation.keeps _ _ found))
      rw [given, Option.map_none, Option.getD_none, sinceCreation.defaults side] at sameProvider
      obtain ⟨call, registered⟩ := called entry (by rw [sameProvider, kept])
      refine ⟨entry, registry, repository, parsed, call, registered, ?_, fun _ => found⟩
      intro other same isTrue
      rw [same, Option.filter_some_pos isTrue] at given
      cases given

def requestWithProvider : EnqueueRequest :=
  { requestTo "b.example/x:v1" with sourceCredentials := some (sampleProvider 1) }

def valuesWithProvider : EnqueueValues :=
  { sampleValues with sourceProviderId := "registry" }

def createdManager : CopyManager := ⟨[anonymousProvider 0], "anonymous", "anonymous"⟩

def requestingManager : CopyManager :=
  { createdManager with providers := [anonymousProvider 0, sampleProvider 1] }

def requestedJob : ManagerProcess :=
  { deployment := { system := System.initial.commit (.enqueue valuesWithProvider "job" 0)
                    workers := [] }
    manager := requestingManager }

theorem source_provider_is_asked_to_pull :
    ∃ (last : ManagerProcess) (details : JobRow) (provider : CredentialProvider),
      (processOf sampleConfig createdManager).Run Machine.Always requestedJob last ∧
      last.manager.credentialCall details .source =
        .ok (provider, { registry := "a.example"
                         repository := "x"
                         operation := .pull }) ∧
      provider.object = 1 := by
  have made : CopyManager.create (anonymousProvider 0) ⟨none, none, []⟩ =
      .ok createdManager := by
    decide +kernel
  have prepared : createdManager.values requestWithProvider =
      (requestingManager, .ok valuesWithProvider) := by
    decide +kernel
  have asked : (((processOf sampleConfig createdManager).execute Machine.Always
      [.deploy (.claim "manager-0" 60 1 "token"), .deploy (.work 0 (replied .done 2))]
      requestedJob).any fun process => process.deployment.workers.any fun execution =>
        execution.job = "job" && execution.point.asks.any fun asks => asks.1 = .source) = true := by
    decide +kernel
  obtain ⟨last, run, someone⟩ := Machine.exists_run_of_execute _ _ asked
  obtain ⟨execution, member, isJob⟩ := List.any_eq_true.mp someone
  rw [Bool.and_eq_true, decide_eq_true_iff] at isJob
  obtain ⟨⟨side, details⟩, asks, isSource⟩ := (Option.any_eq_true _ _).mp isJob.2
  cases of_decide_eq_true isSource
  have started : (processOf sampleConfig createdManager).Reachable
      { deployment := Deployment.initial
        manager := createdManager } := ⟨_, rfl, Machine.Run.refl _⟩
  have unchanged : (processOf sampleConfig createdManager).Run Machine.Always
      { deployment := Deployment.initial
        manager := (createdManager.values requestWithProvider).1 }
      { deployment := Deployment.initial
        manager := requestingManager } := by
    rw [prepared]
    exact Machine.Run.refl _
  obtain ⟨provider, registry, repository, parsed, called, -, isGiven, -⟩ :=
    credentials_follow_the_request made started (congrArg Prod.snd prepared) unchanged rfl rfl run
      member isJob.1 asks
  have reference : parseReference (requestWithProvider.reference .source) =
      .ok ("a.example", "x") := by
    decide +kernel
  rw [reference] at parsed
  cases parsed
  exact ⟨last, details, provider, run, called, isGiven (sampleProvider 1) rfl rfl⟩

end OciTransfer
