import OciTransfer.LicenseProvider
import OciTransfer.RequestTexts

/-!
The table of credential providers.

The constructor goes through its providers and registers those whose id is new,
and `register_provider` compares objects.  Both leave the table as it is for an id
it has, so a lookup finds the first provider offered under the id.  Only the
constructor passes over a second one without a word, its own anonymous provider
included, and a job that is enqueued without a provider, or with one that is false,
is looked up under the id of the default.
-/

namespace OciTransfer

open Guards

/-- The provider arguments of the constructor. -/
structure ProviderArguments where
  source : Option CredentialProvider
  destination : Option CredentialProvider
  additional : List CredentialProvider
  deriving DecidableEq, Repr

inductive Side where
  | source
  | destination
  deriving DecidableEq, Repr

def Side.operation : Side → License.RegistryOperation
  | .source => .pull
  | .destination => .push

def JobRow.providerId (details : JobRow) : Side → String
  | .source => details.sourceProviderId
  | .destination => details.destinationProviderId

def JobRow.reference (details : JobRow) : Side → String
  | .source => details.source
  | .destination => details.destination

namespace EnqueueRequest

def reference (request : EnqueueRequest) : Side → String
  | .source => request.source
  | .destination => request.destination

def credentials (request : EnqueueRequest) : Side → Option CredentialProvider
  | .source => request.sourceCredentials
  | .destination => request.destinationCredentials

end EnqueueRequest

def ProviderArguments.credentials (arguments : ProviderArguments) :
    Side → Option CredentialProvider
  | .source => arguments.source
  | .destination => arguments.destination

def ProviderArguments.supplied (arguments : ProviderArguments) : List CredentialProvider :=
  arguments.source.toList ++ (arguments.destination.toList ++ arguments.additional)

/-- A later call that supplies providers; `enqueue` draws an id and reads the clock. -/
inductive ManagerCall where
  | registerProvider (provider : CredentialProvider)
  | enqueue (request : EnqueueRequest) (jobId : String) (current : Instant)
  deriving DecidableEq, Repr

def ManagerCall.supplied : ManagerCall → List CredentialProvider
  | .registerProvider provider => [provider]
  | .enqueue request _ _ =>
      request.sourceCredentials.toList ++ request.destinationCredentials.toList

/-- `AnonymousCredentialProvider()`, which the constructor makes for itself. -/
def anonymousProvider (object : Nat) : CredentialProvider :=
  { id := "anonymous"
    object := object
    isAsync := true
    isTrue := true }

namespace CopyManager

section Construction

variable (anonymous : CredentialProvider)

/-- `given or anonymous`. -/
def orAnonymous (given : Option CredentialProvider) : CredentialProvider :=
  (given.filter (·.isTrue)).getD anonymous

/-- The providers the loop of the constructor runs over. -/
def offered (arguments : ProviderArguments) : List CredentialProvider :=
  orAnonymous anonymous arguments.source ::
    orAnonymous anonymous arguments.destination :: arguments.additional

/-- One turn of that loop. -/
def registerNew (manager : CopyManager) (provider : CredentialProvider) :
    Except RequestError CopyManager :=
  if manager.providers.any fun existing => existing.id = provider.id then .ok manager
  else manager.registerProvider provider

/-- The part of the constructor that handles the providers. -/
def create (arguments : ProviderArguments) : Except RequestError CopyManager :=
  (offered anonymous arguments).foldlM registerNew
    { providers := []
      sourceDefault := (orAnonymous anonymous arguments.source).id
      destinationDefault := (orAnonymous anonymous arguments.destination).id }

end Construction

/-- One later call, on the manager and its queue. -/
def perform (state : CopyManager × Store) : ManagerCall → Except RequestError (CopyManager × Store)
  | .registerProvider provider =>
      (state.1.registerProvider provider).map fun manager => (manager, state.2)
  | .enqueue request jobId current =>
      let outcome := state.1.enqueue state.2 request jobId current
      outcome.2.map fun stored => (outcome.1, stored.1)

/-- The first provider of the list with this id. -/
def firstWith (id : String) (providers : List CredentialProvider) : Option CredentialProvider :=
  providers.find? fun provider => provider.id = id

def defaultId (manager : CopyManager) : Side → String
  | .source => manager.sourceDefault
  | .destination => manager.destinationDefault

/-- `_credentials` up to its await: the provider, and the request it is called with. -/
def credentialCall (manager : CopyManager) (details : JobRow) (side : Side) :
    Except License.Raised (CredentialProvider × License.CredentialRequest) :=
  match firstWith (details.providerId side) manager.providers with
  | none =>
      .error (.transfer (rejected "credential provider is not registered"
        "credential_provider_unavailable"))
  | some provider =>
      match parseReference (details.reference side) with
      | .error message => .error (.failure "ValueError" message false)
      | .ok (registry, repository) =>
          .ok (provider, { registry := registry
                           repository := repository
                           operation := side.operation })

/-- The table maps the id of the provider to the provider itself. -/
def Maps (manager : CopyManager) (provider : CredentialProvider) : Prop :=
  ∃ entry, firstWith provider.id manager.providers = some entry ∧ entry.object = provider.object

instance (manager : CopyManager) : DecidablePred manager.Maps := fun provider =>
  decidable_of_iff
    ((firstWith provider.id manager.providers).any fun entry => entry.object = provider.object)
    (by simp [Maps, Option.any_eq_true])

/-! ### A table keeps the first provider of an id -/

variable {manager after : CopyManager} {provider : CredentialProvider} {store : Store}
  {jobId : String} {current : Instant}

private theorem firstWith_append (id : String) (front back : List CredentialProvider) :
    firstWith id (front ++ back) = (firstWith id front).or (firstWith id back) :=
  List.find?_append

private theorem firstWith_append_known {providers : List CredentialProvider}
    {entry : CredentialProvider}
    (found : firstWith provider.id providers = some entry) (id : String) :
    firstWith id (providers ++ [provider]) = firstWith id providers := by
  rw [firstWith_append]
  by_cases same : id = provider.id
  · rw [same, found, Option.some_or]
  · have other : firstWith id [provider] = none := by
      simp [firstWith, Ne.symm same]
    rw [other, Option.or_none]

private theorem registerProvider_ok (accepted : manager.registerProvider provider = .ok after) :
    (firstWith provider.id manager.providers = none ∧
      after = { manager with providers := manager.providers ++ [provider] }) ∨
    ∃ existing, firstWith provider.id manager.providers = some existing ∧
      existing.object = provider.object ∧ after = manager := by
  unfold registerProvider at accepted
  obtain ⟨-, accepted⟩ := ok_of_guard accepted
  obtain ⟨-, accepted⟩ := ok_of_guard accepted
  split at accepted
  · rename_i absent
    cases accepted
    exact Or.inl ⟨absent, rfl⟩
  · rename_i existing found
    split at accepted
    · rename_i same
      cases accepted
      exact Or.inr ⟨existing, found, same, rfl⟩
    · cases accepted

private theorem firstWith_registerProvider
    (accepted : manager.registerProvider provider = .ok after)
    (id : String) :
    firstWith id after.providers = firstWith id (manager.providers ++ [provider]) := by
  rcases registerProvider_ok accepted with ⟨-, rfl⟩ | ⟨existing, found, -, rfl⟩
  · rfl
  · exact (firstWith_append_known found id).symm

private theorem firstWith_registerNew (accepted : manager.registerNew provider = .ok after)
    (id : String) :
    firstWith id after.providers = firstWith id (manager.providers ++ [provider]) := by
  unfold registerNew at accepted
  split at accepted
  · rename_i known
    cases accepted
    obtain ⟨entry, found⟩ := Option.isSome_iff_exists.mp (List.find?_isSome.mpr
      (List.any_eq_true.mp known))
    exact (firstWith_append_known found id).symm
  · exact firstWith_registerProvider accepted id

private theorem firstWith_foldlM
    {register : CopyManager → CredentialProvider → Except RequestError CopyManager}
    (once : ∀ {manager provider after}, register manager provider = .ok after →
      ∀ id, firstWith id after.providers = firstWith id (manager.providers ++ [provider]))
    {providers : List CredentialProvider} (accepted : providers.foldlM register manager = .ok after)
    (id : String) :
    firstWith id after.providers = firstWith id (manager.providers ++ providers) := by
  induction providers generalizing manager with
  | nil =>
      cases accepted
      rw [List.append_nil]
  | cons provider rest ih =>
      rw [List.foldlM_cons] at accepted
      obtain ⟨next, registered, goesOn⟩ := ok_of_bind accepted
      rw [ih goesOn, firstWith_append, once registered, ← firstWith_append, List.append_assoc,
        List.singleton_append]

private theorem registerProviders_ok {providers : List CredentialProvider}
    (accepted : (manager.registerProviders providers).2 = .ok ()) :
    providers.foldlM registerProvider manager = .ok (manager.registerProviders providers).1 := by
  induction providers generalizing manager with
  | nil => rfl
  | cons provider rest ih =>
      rw [List.foldlM_cons]
      unfold registerProviders at accepted ⊢
      cases registered : manager.registerProvider provider with
      | error raised =>
          rw [registered] at accepted
          cases accepted
      | ok next =>
          rw [registered] at accepted
          exact ih accepted

private theorem values_ok {request : EnqueueRequest} {values : EnqueueValues}
    (prepared : (manager.values request).2 = .ok values) :
    (ManagerCall.enqueue request jobId current).supplied.foldlM registerProvider manager =
      .ok (manager.values request).1 := by
  unfold CopyManager.values at prepared ⊢
  split at prepared
  · cases prepared
  · rename_i checkedEq
    dsimp only at prepared
    cases registered : (manager.registerProviders
        (request.sourceCredentials.toList ++ request.destinationCredentials.toList)).2 with
    | error raised =>
        rw [registered] at prepared
        cases prepared
    | ok _ => exact registerProviders_ok registered

/-! ### What is registered is mapped to itself -/

private theorem Maps.extend {providers : List CredentialProvider} (mapped : manager.Maps provider)
    (keeps : ∀ id, firstWith id after.providers = firstWith id (manager.providers ++ providers)) :
    after.Maps provider := by
  obtain ⟨entry, found, same⟩ := mapped
  refine ⟨entry, ?_, same⟩
  rw [keeps, firstWith_append, found, Option.some_or]

private theorem maps_registerProvider (accepted : manager.registerProvider provider = .ok after) :
    after.Maps provider := by
  rcases registerProvider_ok accepted with ⟨absent, rfl⟩ | ⟨existing, found, same, rfl⟩
  · refine ⟨provider, ?_, rfl⟩
    rw [firstWith_append, absent, Option.none_or]
    simp [firstWith]
  · exact ⟨existing, found, same⟩

private theorem maps_foldlM {providers : List CredentialProvider}
    (accepted : providers.foldlM registerProvider manager = .ok after) :
    ∀ provider ∈ providers, after.Maps provider := by
  induction providers generalizing manager with
  | nil => exact fun _ impossible => absurd impossible List.not_mem_nil
  | cons first rest ih =>
      rw [List.foldlM_cons] at accepted
      obtain ⟨next, registered, goesOn⟩ := ok_of_bind accepted
      intro provider member
      rcases List.mem_cons.mp member with rfl | later
      · exact (maps_registerProvider registered).extend
          (firstWith_foldlM firstWith_registerProvider goesOn)
      · exact ih goesOn provider later

private theorem perform_registers {call : ManagerCall} {final : CopyManager × Store}
    (performed : perform (manager, store) call = .ok final) :
    call.supplied.foldlM registerProvider manager = .ok final.1 := by
  cases call with
  | registerProvider provider =>
      simp only [perform] at performed
      cases registered : manager.registerProvider provider with
      | error raised =>
          rw [registered] at performed
          cases performed
      | ok next =>
          rw [registered] at performed
          cases performed
          simp only [ManagerCall.supplied, List.foldlM_cons, registered]
          rfl
  | enqueue request jobId current =>
      simp only [perform, enqueue] at performed
      cases prepared : (manager.values request).2 with
      | error raised =>
          rw [prepared] at performed
          cases performed
      | ok values =>
          rw [prepared] at performed
          cases stored : (store.enqueue values jobId current).mapError RequestError.store with
          | error raised =>
              simp only [stored] at performed
              cases performed
          | ok _ =>
              simp only [stored] at performed
              cases performed
              exact values_ok prepared

private theorem firstWith_perform {call : ManagerCall} {final : CopyManager × Store}
    (performed : perform (manager, store) call = .ok final) (id : String) :
    firstWith id final.1.providers = firstWith id (manager.providers ++ call.supplied) :=
  firstWith_foldlM firstWith_registerProvider (perform_registers performed) id

private theorem firstWith_run {calls : List ManagerCall} {final : CopyManager × Store}
    (performed : calls.foldlM perform (manager, store) = .ok final) (id : String) :
    firstWith id final.1.providers =
      firstWith id (manager.providers ++ calls.flatMap ManagerCall.supplied) := by
  induction calls generalizing manager store with
  | nil =>
      cases performed
      rw [List.flatMap_nil, List.append_nil]
  | cons call rest ih =>
      rw [List.foldlM_cons] at performed
      obtain ⟨next, once, goesOn⟩ := ok_of_bind performed
      rw [ih goesOn, firstWith_append, firstWith_perform once, ← firstWith_append,
        List.append_assoc, List.flatMap_cons]

private theorem maps_run {calls : List ManagerCall} {final : CopyManager × Store}
    (performed : calls.foldlM perform (manager, store) = .ok final) :
    ∀ provider ∈ calls.flatMap ManagerCall.supplied, final.1.Maps provider := by
  induction calls generalizing manager store with
  | nil => exact fun _ impossible => absurd impossible List.not_mem_nil
  | cons call rest ih =>
      rw [List.foldlM_cons] at performed
      obtain ⟨next, once, goesOn⟩ := ok_of_bind performed
      intro provider member
      rw [List.flatMap_cons, List.mem_append] at member
      rcases member with now | later
      · exact (maps_foldlM (perform_registers once) provider now).extend
          (firstWith_run goesOn)
      · exact ih goesOn provider later

/-! ### What later calls leave of the table -/

/-- No identifier has changed its meaning, and the defaults are the same. -/
structure Extends (manager after : CopyManager) : Prop where
  keeps : ∀ id entry, firstWith id manager.providers = some entry →
    firstWith id after.providers = some entry
  defaults : ∀ side, after.defaultId side = manager.defaultId side

variable {later : CopyManager} {request : EnqueueRequest} {values : EnqueueValues}

theorem Extends.refl (manager : CopyManager) : manager.Extends manager :=
  ⟨fun _ _ found => found, fun _ => rfl⟩

theorem Extends.trans (first : manager.Extends after) (second : after.Extends later) :
    manager.Extends later :=
  ⟨fun id entry found => second.keeps id entry (first.keeps id entry found),
    fun side => (second.defaults side).trans (first.defaults side)⟩

theorem extends_registerProvider (accepted : manager.registerProvider provider = .ok after) :
    manager.Extends after := by
  constructor
  · intro id entry found
    rw [firstWith_registerProvider accepted, firstWith_append, found, Option.some_or]
  · intro side
    rcases registerProvider_ok accepted with ⟨-, rfl⟩ | ⟨-, -, -, rfl⟩
    · cases side <;> rfl
    · rfl

private theorem extends_registerProviders (providers : List CredentialProvider) :
    manager.Extends (manager.registerProviders providers).1 := by
  induction providers generalizing manager with
  | nil => exact Extends.refl manager
  | cons provider rest ih =>
      unfold registerProviders
      cases registered : manager.registerProvider provider with
      | error raised => exact Extends.refl manager
      | ok next => exact (extends_registerProvider registered).trans ih

theorem extends_values : manager.Extends (manager.values request).1 := by
  unfold CopyManager.values
  cases request.checked with
  | error raised => exact Extends.refl manager
  | ok selected => exact extends_registerProviders _

theorem Maps.extends (mapped : manager.Maps provider) (kept : manager.Extends after) :
    after.Maps provider := by
  obtain ⟨entry, found, same⟩ := mapped
  exact ⟨entry, kept.keeps _ _ found, same⟩

private theorem extends_foldlM
    {register : CopyManager → CredentialProvider → Except RequestError CopyManager}
    (single : ∀ {manager provider after}, register manager provider = .ok after →
      manager.Extends after)
    {providers : List CredentialProvider} (made : providers.foldlM register manager = .ok after) :
    manager.Extends after := by
  induction providers generalizing manager with
  | nil =>
      cases made
      exact Extends.refl _
  | cons provider rest ih =>
      rw [List.foldlM_cons] at made
      obtain ⟨next, once, goesOn⟩ := ok_of_bind made
      exact (single once).trans (ih goesOn)

private theorem extends_registerNew (registered : manager.registerNew provider = .ok after) :
    manager.Extends after := by
  unfold registerNew at registered
  split at registered
  · cases registered
    exact Extends.refl manager
  · exact extends_registerProvider registered

private theorem defaultId_create {anonymous : CredentialProvider} {arguments : ProviderArguments}
    (made : create anonymous arguments = .ok manager) (side : Side) :
    manager.defaultId side = (orAnonymous anonymous (arguments.credentials side)).id := by
  rw [(extends_foldlM extends_registerNew made).defaults side]
  cases side <;> rfl

theorem extends_run {store : Store} {calls : List ManagerCall} {final : CopyManager × Store}
    (performed : calls.foldlM perform (manager, store) = .ok final) : manager.Extends final.1 := by
  induction calls generalizing manager store with
  | nil =>
      cases performed
      exact Extends.refl manager
  | cons call rest ih =>
      rw [List.foldlM_cons] at performed
      obtain ⟨next, once, goesOn⟩ := ok_of_bind performed
      exact (extends_foldlM extends_registerProvider (perform_registers once)).trans (ih goesOn)

theorem default_registered {anonymous : CredentialProvider}
    {arguments : ProviderArguments} (made : create anonymous arguments = .ok manager)
    (side : Side) : ∃ entry, firstWith (manager.defaultId side) manager.providers = some entry := by
  have offeredDefault : ∃ provider ∈ offered anonymous arguments,
      provider.id = manager.defaultId side := by
    rw [defaultId_create made]
    cases side with
    | source => exact ⟨_, List.mem_cons_self, rfl⟩
    | destination => exact ⟨_, List.mem_cons_of_mem _ List.mem_cons_self, rfl⟩
  obtain ⟨provider, member, isDefault⟩ := offeredDefault
  have lookup := firstWith_foldlM firstWith_registerNew made (manager.defaultId side)
  rw [List.nil_append] at lookup
  refine Option.isSome_iff_exists.mp ?_
  rw [lookup]
  exact List.find?_isSome.mpr ⟨provider, member, decide_eq_true isDefault⟩

theorem values_side (prepared : (manager.values request).2 = .ok values) (side : Side) :
    (∃ place, parseReference (request.reference side) = .ok place) ∧
    ∀ details : JobRow, details.equivalent values = true →
      details.reference side = request.reference side ∧
      details.providerId side =
        (((request.credentials side).filter (·.isTrue)).map (·.id)).getD
          (manager.defaultId side) := by
  constructor
  · unfold CopyManager.values EnqueueRequest.checked at prepared
    cases source : parseReference request.source with
    | error message =>
        rw [source] at prepared
        cases prepared
    | ok place =>
        cases destination : parseReference request.destination with
        | error message =>
            rw [source, destination] at prepared
            cases prepared
        | ok other =>
            cases side with
            | source => exact ⟨place, source⟩
            | destination => exact ⟨other, destination⟩
  · intro details fits
    obtain ⟨selected, policy, -, -, rfl⟩ := values_eq prepared
    obtain ⟨source, destination, sourceProvider, destinationProvider, -⟩ :=
      JobRow.equivalent_iff.mp fits
    cases side with
    | source => exact ⟨source, sourceProvider⟩
    | destination => exact ⟨destination, destinationProvider⟩

private theorem mem_supplied {side : Side} {jobId : String} {current : Instant}
    (given : request.credentials side = some provider) :
    provider ∈ (ManagerCall.enqueue request jobId current).supplied := by
  cases side with
  | source =>
      change request.sourceCredentials = some provider at given
      simp [ManagerCall.supplied, given]
  | destination =>
      change request.destinationCredentials = some provider at given
      simp [ManagerCall.supplied, given]

theorem maps_of_values (prepared : (manager.values request).2 = .ok values) {side : Side}
    (given : request.credentials side = some provider) :
    (manager.values request).1.Maps provider := by
  have registered : (ManagerCall.enqueue request "" 0).supplied.foldlM registerProvider manager =
      .ok (manager.values request).1 := values_ok prepared
  exact maps_foldlM registered provider (mem_supplied given)

/-! ### A second object under an id -/

/-- The object in the table has the id of the provider and is another one. -/
def Clashes (manager : CopyManager) (provider : CredentialProvider) : Prop :=
  ∃ entry, firstWith provider.id manager.providers = some entry ∧ entry.object ≠ provider.object

private theorem registerProvider_clash (clashes : manager.Clashes provider)
    (isAsync : provider.isAsync = true) :
    ∃ message, manager.registerProvider provider = .error (.valueError message) := by
  obtain ⟨entry, found, differs⟩ := clashes
  unfold firstWith at found
  unfold registerProvider
  split
  · exact ⟨_, rfl⟩
  · rw [isAsync, found]
    simp only [Bool.not_true, Bool.false_eq_true, if_false, if_neg differs]
    exact ⟨_, rfl⟩

private theorem registerProvider_async (isAsync : provider.isAsync = true) :
    (∃ message, manager.registerProvider provider = .error (.valueError message)) ∨
      ∃ after, manager.registerProvider provider = .ok after := by
  unfold registerProvider
  split
  · exact Or.inl ⟨_, rfl⟩
  · rw [isAsync]
    simp only [Bool.not_true, Bool.false_eq_true, if_false]
    split
    · exact Or.inr ⟨_, rfl⟩
    · split
      · exact Or.inr ⟨_, rfl⟩
      · exact Or.inl ⟨_, rfl⟩

theorem Clashes.registerProvider {other : CredentialProvider} (clashes : manager.Clashes provider)
    (accepted : manager.registerProvider other = .ok after) : after.Clashes provider := by
  obtain ⟨entry, found, differs⟩ := clashes
  refine ⟨entry, ?_, differs⟩
  rw [firstWith_registerProvider accepted, firstWith_append, found, Option.some_or]

private theorem registerProviders_clash {providers : List CredentialProvider}
    (member : provider ∈ providers)
    (clashes : manager.Clashes provider) (areAsync : ∀ given ∈ providers, given.isAsync = true) :
    ∃ message, (manager.registerProviders providers).2 = .error (.valueError message) := by
  induction providers generalizing manager with
  | nil => cases member
  | cons first rest ih =>
      unfold registerProviders
      have outcome : (∃ message, manager.registerProvider first = .error (.valueError message)) ∨
          ∃ next, manager.registerProvider first = .ok next :=
        registerProvider_async (areAsync first List.mem_cons_self)
      rcases outcome with ⟨message, refused⟩ | ⟨next, registered⟩
      · rw [refused]
        exact ⟨message, rfl⟩
      · rcases List.mem_cons.mp member with rfl | later
        · obtain ⟨message, refused⟩ :=
            registerProvider_clash clashes (areAsync provider List.mem_cons_self)
          rw [refused] at registered
          cases registered
        · rw [registered]
          exact ih later (clashes.registerProvider registered) fun given listed =>
            areAsync given (List.mem_cons_of_mem _ listed)

private theorem checked_error {request : EnqueueRequest} {raised : RequestError}
    (refused : request.checked = .error raised) : ∃ message, raised = .valueError message := by
  unfold EnqueueRequest.checked at refused
  split at refused
  · cases refused
    exact ⟨_, rfl⟩
  · split at refused
    · cases refused
      exact ⟨_, rfl⟩
    · split at refused
      · rename_i normalized
        cases refused
        unfold normalizePlatforms at normalized
        dsimp only at normalized
        split at normalized
        · cases normalized
        · split at normalized
          · cases normalized
          · split at normalized <;> cases normalized
            exact ⟨_, rfl⟩
        · split at normalized <;> cases normalized
          exact ⟨_, rfl⟩
      · unfold replacementPolicyOf at refused
        split at refused
        · cases refused
        · split at refused <;> cases refused
          exact ⟨_, rfl⟩

private theorem perform_clash {call : ManagerCall} (member : provider ∈ call.supplied)
    (clashes : manager.Clashes provider)
    (areAsync : ∀ given ∈ call.supplied, given.isAsync = true) :
    ∃ message, perform (manager, store) call = .error (.valueError message) := by
  cases call with
  | registerProvider given =>
      cases List.mem_singleton.mp member
      obtain ⟨message, refused⟩ := registerProvider_clash clashes (areAsync provider member)
      refine ⟨message, ?_⟩
      simp only [perform, refused]
      rfl
  | enqueue request jobId current =>
      obtain ⟨message, refused⟩ :
          ∃ message, (manager.values request).2 = .error (.valueError message) := by
        unfold CopyManager.values
        cases checked : request.checked with
        | error raised =>
            obtain ⟨message, rfl⟩ := checked_error checked
            exact ⟨message, rfl⟩
        | ok selected =>
            obtain ⟨message, refused⟩ := registerProviders_clash member clashes areAsync
            refine ⟨message, ?_⟩
            simp only [ManagerCall.supplied] at refused
            simp only [refused]
            rfl
      refine ⟨message, ?_⟩
      simp only [perform, enqueue, refused]
      rfl

end CopyManager

/-- The provider that the caller of a request means for a side: the request's own, else
the constructor's, else the anonymous one. -/
def chosen (anonymous : CredentialProvider) (arguments : ProviderArguments)
    (request : EnqueueRequest) (side : Side) : CredentialProvider :=
  ((request.credentials side).or (arguments.credentials side)).getD anonymous

/-- A call of the run has put the request into the queue, or has found its job there,
and this is the row of the job. -/
def Requested (created : CopyManager) (store : Store) (calls : List ManagerCall)
    (request : EnqueueRequest) (details : JobRow) : Prop :=
  ∃ before jobId current after middle stored job,
    calls = before ++ .enqueue request jobId current :: after ∧
    before.foldlM CopyManager.perform (created, store) = .ok middle ∧
    (middle.1.enqueue middle.2 request jobId current).2 = .ok (stored, job) ∧
    stored.jobs.find? job.id = some details

/-- What holds after a run of calls: every id still means the provider it came with,
another object with the id is refused, and each job authenticates with the providers
that its caller meant. -/
structure ProviderIdsKept (anonymous : CredentialProvider) (arguments : ProviderArguments)
    (created : CopyManager) (store : Store) (calls : List ManagerCall)
    (final : CopyManager × Store) : Prop where
  maps : ∀ provider ∈ arguments.supplied ++ calls.flatMap ManagerCall.supplied,
    final.1.Maps provider
  refuses : ∀ provider ∈ arguments.supplied ++ calls.flatMap ManagerCall.supplied,
    ∀ call : ManagerCall, ∀ other ∈ call.supplied,
    other.id = provider.id → other.object ≠ provider.object →
    (∀ given ∈ call.supplied, given.isAsync = true) →
    ∃ message, CopyManager.perform final call = .error (.valueError message)
  authenticates : ∀ request details, Requested created store calls request details →
    ∀ side, ∃ provider call, final.1.credentialCall details side = .ok (provider, call) ∧
      provider.object = (chosen anonymous arguments request side).object

section Runs

variable {anonymous : CredentialProvider} {arguments : ProviderArguments} {created : CopyManager}
  {calls : List ManagerCall} {store : Store} {final : CopyManager × Store}

open CopyManager

/-- After a run without an error a lookup finds the first provider offered under the id. -/
private theorem firstWith_final (constructed : create anonymous arguments = .ok created)
    (performed : calls.foldlM perform (created, store) = .ok final) (id : String) :
    firstWith id final.1.providers =
      firstWith id (offered anonymous arguments ++ calls.flatMap ManagerCall.supplied) := by
  rw [firstWith_run performed, firstWith_append, firstWith_foldlM firstWith_registerNew constructed,
    List.nil_append, ← firstWith_append]

private theorem enqueue_ok {manager : CopyManager} {request : EnqueueRequest} {jobId : String}
    {current : Instant} {stored : Store} {job : CopyJob}
    (answered : (manager.enqueue store request jobId current).2 = .ok (stored, job)) :
    ∃ values, (manager.values request).2 = .ok values ∧
      store.enqueue values jobId current = .ok (stored, job) := by
  unfold CopyManager.enqueue at answered
  cases prepared : (manager.values request).2 with
  | error raised =>
      simp only [prepared] at answered
      cases answered
  | ok values =>
      simp only [prepared] at answered
      cases entered : store.enqueue values jobId current with
      | error raised =>
          rw [entered] at answered
          cases answered
      | ok result =>
          rw [entered] at answered
          cases answered
          exact ⟨values, rfl, entered⟩

variable {request : EnqueueRequest} {details : JobRow}

private theorem requested_of_mem (performed : calls.foldlM perform (created, store) = .ok final)
    {jobId : String} {current : Instant} (member : .enqueue request jobId current ∈ calls) :
    ∃ details, Requested created store calls request details := by
  obtain ⟨before, after, rfl⟩ := List.append_of_mem member
  rw [List.foldlM_append] at performed
  obtain ⟨middle, earlier, rest⟩ := ok_of_bind performed
  rw [List.foldlM_cons] at rest
  obtain ⟨next, once, -⟩ := ok_of_bind rest
  simp only [perform] at once
  cases answered : (middle.1.enqueue middle.2 request jobId current).2 with
  | error raised =>
      rw [answered] at once
      cases once
  | ok result =>
      obtain ⟨stored, job⟩ := result
      obtain ⟨values, -, entered⟩ := enqueue_ok answered
      obtain ⟨row, found, -⟩ := Store.enqueue_stored entered
      exact ⟨row, before, jobId, current, after, middle, stored, job, rfl, earlier, answered, found⟩

private theorem requested_side (requested : Requested created store calls request details)
    (side : Side) :
    (∃ place, parseReference (details.reference side) = .ok place) ∧
      details.providerId side = (((request.credentials side).filter (·.isTrue)).map (·.id)).getD
        (created.defaultId side) := by
  obtain ⟨before, jobId, current, after, middle, stored, job, -, earlier, answered, found⟩ :=
    requested
  obtain ⟨values, prepared, entered⟩ := enqueue_ok answered
  obtain ⟨row, foundRow, fits⟩ := Store.enqueue_stored entered
  rw [found] at foundRow
  cases foundRow
  obtain ⟨⟨place, parsed⟩, ofDetails⟩ := values_side prepared side
  obtain ⟨sameReference, sameProvider⟩ := ofDetails details fits
  rw [← sameReference] at parsed
  rw [(extends_run earlier).defaults side] at sameProvider
  exact ⟨⟨place, parsed⟩, sameProvider⟩

private theorem mem_of_requested (requested : Requested created store calls request details) :
    ∃ jobId current, .enqueue request jobId current ∈ calls := by
  obtain ⟨before, jobId, current, after, -, -, -, rfl, -⟩ := requested
  exact ⟨jobId, current, List.mem_append_right _ List.mem_cons_self⟩

/-- The worker's lookup finds a provider exactly if the table has the id of the row. -/
private theorem credentialCall_iff {manager : CopyManager} {side : Side}
    {place : String × String} (parsed : parseReference (details.reference side) = .ok place)
    {provider : CredentialProvider} :
    (∃ call, manager.credentialCall details side = .ok (provider, call)) ↔
      firstWith (details.providerId side) manager.providers = some provider := by
  unfold credentialCall
  cases found : firstWith (details.providerId side) manager.providers with
  | none =>
      constructor
      · rintro ⟨call, impossible⟩
        cases impossible
      · intro impossible
        cases impossible
  | some entry =>
      rw [parsed]
      constructor
      · rintro ⟨call, same⟩
        cases same
        rfl
      · intro same
        cases same
        exact ⟨_, rfl⟩

/-- After a run without an error every provider has kept its id and every job the
providers that were meant for it exactly if each provider that the constructor was given
is the first with its id among those it goes through and those supplied later, and for
each call that gives no provider for a side, or a false one, the first provider with the
id of the default is the one that was meant. -/
theorem provider_ids_kept_iff (constructed : create anonymous arguments = .ok created)
    (performed : calls.foldlM perform (created, store) = .ok final) :
    ProviderIdsKept anonymous arguments created store calls final ↔
      (∀ provider ∈ arguments.supplied, ∃ first,
        firstWith provider.id
            (offered anonymous arguments ++ calls.flatMap ManagerCall.supplied) = some first ∧
          first.object = provider.object) ∧
      ∀ request jobId current, .enqueue request jobId current ∈ calls → ∀ side,
        (request.credentials side).filter (·.isTrue) = none → ∃ first,
          firstWith (orAnonymous anonymous (arguments.credentials side)).id
              (offered anonymous arguments ++ calls.flatMap ManagerCall.supplied) = some first ∧
            first.object = (chosen anonymous arguments request side).object := by
  have lookup := firstWith_final constructed performed
  constructor
  · intro kept
    constructor
    · intro provider member
      obtain ⟨entry, found, same⟩ := kept.maps provider (List.mem_append_left _ member)
      exact ⟨entry, (lookup _).symm.trans found, same⟩
    · intro request jobId current member side notGiven
      obtain ⟨details, requested⟩ := requested_of_mem performed member
      obtain ⟨⟨place, parsed⟩, sameProvider⟩ := requested_side requested side
      obtain ⟨provider, call, called, same⟩ := kept.authenticates request details requested side
      have found := (credentialCall_iff parsed).mp ⟨call, called⟩
      rw [sameProvider, notGiven, Option.map_none, Option.getD_none,
        defaultId_create constructed, lookup] at found
      exact ⟨provider, found, same⟩
  · rintro ⟨first, defaults⟩
    have maps : ∀ provider ∈ arguments.supplied ++ calls.flatMap ManagerCall.supplied,
        final.1.Maps provider := by
      intro provider member
      rcases List.mem_append.mp member with given | later
      · obtain ⟨entry, found, same⟩ := first provider given
        exact ⟨entry, (lookup _).trans found, same⟩
      · exact maps_run performed provider later
    refine ⟨maps, fun provider member call other supplied sameId differs areAsync => ?_,
      fun request details requested side => ?_⟩
    · obtain ⟨entry, found, same⟩ := maps provider member
      have clashes : final.1.Clashes other := by
        refine ⟨entry, ?_, fun sameObject => differs (sameObject.symm.trans same)⟩
        rw [sameId, found]
      exact perform_clash supplied clashes areAsync
    · obtain ⟨jobId, current, member⟩ := mem_of_requested requested
      obtain ⟨⟨place, parsed⟩, sameProvider⟩ := requested_side requested side
      have found : ∃ provider, firstWith (details.providerId side) final.1.providers =
          some provider ∧ provider.object = (chosen anonymous arguments request side).object := by
        cases notGiven : (request.credentials side).filter (·.isTrue) with
        | none =>
            obtain ⟨entry, found, same⟩ := defaults request jobId current member side notGiven
            rw [sameProvider, notGiven, Option.map_none, Option.getD_none,
              defaultId_create constructed, lookup]
            exact ⟨entry, found, same⟩
        | some given =>
            have isGiven : request.credentials side = some given :=
              (Option.filter_eq_some_iff.mp notGiven).1
            have supplied : given ∈ calls.flatMap ManagerCall.supplied := by
              refine List.mem_flatMap.mpr ⟨_, member, ?_⟩
              exact mem_supplied isGiven
            obtain ⟨entry, found, same⟩ := maps given (List.mem_append_right _ supplied)
            rw [sameProvider, notGiven, Option.map_some, Option.getD_some]
            refine ⟨entry, found, ?_⟩
            unfold chosen
            rw [isGiven, Option.some_or, Option.getD_some, same]
      obtain ⟨provider, looked, same⟩ := found
      obtain ⟨call, called⟩ := (credentialCall_iff parsed).mpr looked
      exact ⟨provider, call, called, same⟩

def sampleProvider (object : Nat) : CredentialProvider :=
  { id := "registry"
    object := object
    isAsync := true
    isTrue := true }

def oneObjectManager : CopyManager := ⟨[sampleProvider 1], "registry", "registry"⟩

def oneObjectValues : EnqueueValues :=
  { sampleValues with sourceProviderId := "registry", destinationProviderId := "registry" }

theorem provider_ids_kept_iff_for_one_object :
    ∃ created final,
      create (anonymousProvider 0) ⟨some (sampleProvider 1), some (sampleProvider 1), []⟩ =
        .ok created ∧
      [ManagerCall.registerProvider (sampleProvider 1),
        .enqueue (requestTo "b.example/x:v1") "job" 0].foldlM perform (created, Store.empty) =
          .ok final ∧
      final.2.jobs.rows.map (fun row => (row.id, row.sourceProviderId)) = [("job", "registry")] ∧
      ProviderIdsKept (anonymousProvider 0)
        ⟨some (sampleProvider 1), some (sampleProvider 1), []⟩ created Store.empty
        [.registerProvider (sampleProvider 1), .enqueue (requestTo "b.example/x:v1") "job" 0]
        final := by
  have constructed : create (anonymousProvider 0)
      ⟨some (sampleProvider 1), some (sampleProvider 1), []⟩ = .ok oneObjectManager := by
    decide +kernel
  have registered : oneObjectManager.registerProvider (sampleProvider 1) =
      .ok oneObjectManager := by
    decide +kernel
  have prepared : (oneObjectManager.values (requestTo "b.example/x:v1")).2 =
      .ok oneObjectValues := by
    decide +kernel
  have performed : [ManagerCall.registerProvider (sampleProvider 1),
      .enqueue (requestTo "b.example/x:v1") "job" 0].foldlM perform
        (oneObjectManager, Store.empty) =
      .ok ((oneObjectManager.values (requestTo "b.example/x:v1")).1,
        (Transaction.enqueue oneObjectValues "job" 0).commit Store.empty) := by
    simp only [List.foldlM_cons, List.foldlM_nil, perform, registered]
    rfl
  refine ⟨_, _, constructed, performed, rfl,
    (provider_ids_kept_iff constructed performed).mpr ⟨fun provider member => ?_, ?_⟩⟩
  · have isSample : provider = sampleProvider 1 := by
      simpa [ProviderArguments.supplied] using member
    subst isSample
    exact ⟨sampleProvider 1, by decide, rfl⟩
  · intro request jobId current member side _
    have isCall : ManagerCall.enqueue request jobId current =
        .enqueue (requestTo "b.example/x:v1") "job" 0 := by
      simpa using member
    cases isCall
    cases side with
    | source | destination => exact ⟨sampleProvider 1, by decide, rfl⟩

/-- Two objects with one id are accepted, and the destination's is not in the table. -/
theorem second_object_is_passed_over :
    create (anonymousProvider 0) ⟨some (sampleProvider 1), some (sampleProvider 2), []⟩ =
      .ok ⟨[sampleProvider 1], "registry", "registry"⟩ ∧
    ¬ CopyManager.Maps ⟨[sampleProvider 1], "registry", "registry"⟩ (sampleProvider 2) := by
  constructor
  · decide +kernel
  · decide

end Runs

end OciTransfer
