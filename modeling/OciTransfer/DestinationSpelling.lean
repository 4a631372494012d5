import OciTransfer.OciReference
import OciTransfer.QueueRuns

/-!
Enqueueing for a destination that is spelled in two ways.

`CopyManager.enqueue` parses both references, but hands the texts on as they
came, and the queue compares texts.  References that differ in the case of the
registry, or in whether they carry the digest, are different destinations to it
although the copies go to the same tag.
-/

namespace OciTransfer

inductive RequestError where
  | valueError (message : String)
  | typeError (message : String)
  | store (error : StoreError)
  deriving DecidableEq, Repr

/-- A credential provider; `object` tells one object from another, and `isTrue` is
`bool(provider)`, which its class decides. -/
structure CredentialProvider where
  id : String
  object : Nat
  isAsync : Bool
  isTrue : Bool
  deriving DecidableEq, Repr

inductive PlatformSelection where
  | unset
  | one (platform : String)
  | several (platforms : List String)
  deriving DecidableEq, Repr

structure EnqueueRequest where
  source : String
  destination : String
  platforms : PlatformSelection
  sourceCredentials : Option CredentialProvider
  destinationCredentials : Option CredentialProvider
  copyReferrers : Bool
  copyDigestTags : Bool
  replacementPolicy : String
  deriving DecidableEq, Repr

/-- What `enqueue` reads and writes of a manager; the providers are those of its dictionary. -/
structure CopyManager where
  providers : List CredentialProvider
  sourceDefault : String
  destinationDefault : String
  deriving DecidableEq, Repr

/-! ### Checking a request -/

/-- `^[A-Za-z0-9][A-Za-z0-9._-]{0,127}$`. -/
def providerIdPattern (id : List Char) : Bool :=
  decide (id.length ≤ 128) && id.head?.any Char.isAlphanum &&
    id.all fun char => char.isAlphanum || char = '.' || char = '_' || char = '-'

/-- `^[a-z0-9]+/[a-z0-9_]+(?:/[A-Za-z0-9_.-]+)?$`. -/
def platformPattern (platform : List Char) : Bool :=
  let osPattern (os : List Char) : Bool := !os.isEmpty && os.all lowerAlphanum
  let architecturePattern (architecture : List Char) : Bool :=
    !architecture.isEmpty && architecture.all fun char => lowerAlphanum char || char = '_'
  let variantPattern (variant : List Char) : Bool :=
    !variant.isEmpty && variant.all fun char =>
      char.isAlphanum || char = '_' || char = '.' || char = '-'
  match platform.splitOn '/' with
  | [os, architecture] => osPattern os && architecturePattern architecture
  | [os, architecture, variant] =>
      osPattern os && architecturePattern architecture && variantPattern variant
  | _ => false

def normalizePlatforms (platforms : PlatformSelection) : Except RequestError (List String) :=
  let normalized (values : List String) : Except RequestError (List String) :=
    if values.isEmpty || !decide values.Nodup ||
        !values.all fun value => platformPattern value.toList then
      .error (.valueError
        "platforms must be 'all' or unique os/architecture[/variant] values")
    else .ok (values.insertionSort fun left right => left ≤ right)
  match platforms with
  | .unset => .ok []
  | .one platform => if platform = "all" then .ok [] else normalized [platform]
  | .several values => normalized values

def replacementPolicyOf (policy : String) : Except RequestError ReplacementPolicy :=
  if policy = "no_clobber" then .ok .noClobber
  else if policy = "overwrite" then .ok .overwrite
  else .error (.valueError "invalid replacement policy")

/-- The checks of `enqueue` that need no manager, in their order. -/
def EnqueueRequest.checked (request : EnqueueRequest) :
    Except RequestError (List String × ReplacementPolicy) :=
  match parseReference request.source with
  | .error message => .error (.valueError message)
  | .ok _ =>
      match parseReference request.destination with
      | .error message => .error (.valueError message)
      | .ok _ =>
          match normalizePlatforms request.platforms with
          | .error raised => .error raised
          | .ok selected =>
              (replacementPolicyOf request.replacementPolicy).map fun policy => (selected, policy)

/-- `json.dumps` of a tuple of platforms, whose letters need no escape. -/
def platformsJson (platforms : List String) : String :=
  "[" ++ ", ".intercalate (platforms.map fun platform => "\"" ++ platform ++ "\"") ++ "]"

namespace CopyManager

def registerProvider (manager : CopyManager) (provider : CredentialProvider) :
    Except RequestError CopyManager :=
  if !providerIdPattern provider.id.toList then
    .error (.valueError "provider id must be a non-secret identifier")
  else if !provider.isAsync then
    .error (.typeError "credential provider must define async get_credentials")
  else
    match manager.providers.find? fun existing => existing.id = provider.id with
    | none => .ok { manager with providers := manager.providers ++ [provider] }
    | some existing =>
        if existing.object = provider.object then .ok manager
        else .error (.valueError ("duplicate provider id: " ++ provider.id))

/-- Register one provider after the other; what is registered before an error stays. -/
def registerProviders (manager : CopyManager) :
    List CredentialProvider → CopyManager × Except RequestError Unit
  | [] => (manager, .ok ())
  | provider :: rest =>
      match manager.registerProvider provider with
      | .error raised => (manager, .error raised)
      | .ok registered => registered.registerProviders rest

def values (manager : CopyManager) (request : EnqueueRequest) :
    CopyManager × Except RequestError EnqueueValues :=
  match request.checked with
  | .error raised => (manager, .error raised)
  | .ok (selected, policy) =>
      let registered := manager.registerProviders
        (request.sourceCredentials.toList ++ request.destinationCredentials.toList)
      (registered.1, registered.2.map fun _ =>
        { source := request.source
          destination := request.destination
          platformsJson := platformsJson selected
          sourceProviderId := ((request.sourceCredentials.filter (·.isTrue)).map (·.id)).getD
            manager.sourceDefault
          destinationProviderId :=
            ((request.destinationCredentials.filter (·.isTrue)).map (·.id)).getD
              manager.destinationDefault
          copyReferrers := if request.copyReferrers then 1 else 0
          copyDigestTags := if request.copyDigestTags then 1 else 0
          replacementPolicy := policy })

def enqueue (manager : CopyManager) (store : Store) (request : EnqueueRequest) (jobId : String)
    (current : Instant) : CopyManager × Except RequestError (Store × CopyJob) :=
  let prepared := manager.values request
  (prepared.1, match prepared.2 with
    | .error raised => .error raised
    | .ok values => (store.enqueue values jobId current).mapError .store)

variable {manager : CopyManager} {store : Store} {request : EnqueueRequest} {values : EnqueueValues}

theorem values_destination (prepared : (manager.values request).2 = .ok values) :
    values.destination = request.destination := by
  unfold CopyManager.values at prepared
  split at prepared
  · cases prepared
  · dsimp only at prepared
    cases registered : (manager.registerProviders
        (request.sourceCredentials.toList ++ request.destinationCredentials.toList)).2 with
    | error raised =>
        rw [registered] at prepared
        cases prepared
    | ok _ =>
        rw [registered] at prepared
        cases prepared
        rfl

end CopyManager

/-! ### What the queue makes of the text -/

/-- The row that decides about an `enqueue`: the newest active one with this destination. -/
def Store.newestActive (store : Store) (destination : String) : Option JobRow :=
  ((store.jobs.rows.filter fun row => row.destination = destination).insertionSort
    JobRow.NewestFirst).find? fun row => row.state.active

namespace Store

variable {store : Store} {destination : String} {row : JobRow}

theorem newestActive_some (found : store.newestActive destination = some row) :
    row ∈ store.jobs.rows ∧ row.destination = destination := by
  have listed := List.mem_of_find?_eq_some found
  rw [List.mem_insertionSort, List.mem_filter] at listed
  exact ⟨listed.1, of_decide_eq_true listed.2⟩

private theorem newestActive_isSome (member : row ∈ store.jobs.rows)
    (active : row.state.active = true)
    (same : row.destination = destination) :
    ∃ newest, store.newestActive destination = some newest := by
  have listed : row ∈
      (store.jobs.rows.filter fun row => row.destination = destination).insertionSort
      JobRow.NewestFirst := by
    rw [List.mem_insertionSort, List.mem_filter]
    exact ⟨member, decide_eq_true same⟩
  cases found : store.newestActive destination with
  | some newest => exact ⟨newest, rfl⟩
  | none => exact absurd active (List.find?_eq_none.mp found row listed)

theorem enqueue_of_newestActive {newest : JobRow} {values : EnqueueValues}
    (found : store.newestActive values.destination = some newest) (jobId : String)
    (current : Instant) :
    store.enqueue values jobId current =
      if newest.equivalent values then .ok (store, newest.toCopyJob)
      else .error (.jobConflict ("an active copy already targets this destination: " ++
        newest.id)) := by
  unfold newestActive at found
  unfold enqueue
  simp only [found]

theorem enqueue_of_none {values : EnqueueValues}
    (none : store.newestActive values.destination = none) (jobId : String) (current : Instant) :
    (∃ inserted, store.insertJob? (.fresh values jobId current) = some inserted ∧
      store.enqueue values jobId current =
        .ok (inserted, (JobRow.fresh values jobId current).toCopyJob)) ∨
    store.enqueue values jobId current = .error .integrityError := by
  unfold newestActive at none
  unfold enqueue
  simp only [none]
  cases accepted : store.insertJob? (.fresh values jobId current) with
  | none => exact Or.inr rfl
  | some inserted => exact Or.inl ⟨inserted, rfl, rfl⟩

end Store

/-- The call has returned the job of this row, or a conflict, and left the queue alone. -/
def KeepsOne (outcome : Except RequestError (Store × CopyJob)) (store : Store) (row : JobRow) :
    Prop :=
  match outcome with
  | .ok (after, job) => job = row.toCopyJob ∧ after = store
  | .error (.store (.jobConflict _)) => True
  | .error _ => False

section Enqueue

variable {manager : CopyManager} {store : Store} {request : EnqueueRequest} {values : EnqueueValues}
  {row : JobRow} {jobId : String} {current : Instant}

theorem enqueue_of_values (prepared : (manager.values request).2 = .ok values) :
    (manager.enqueue store request jobId current).2 =
      (store.enqueue values jobId current).mapError .store := by
  unfold CopyManager.enqueue
  simp only [prepared]

private theorem not_keepsOne_of_inserted {inserted : Store} {newRow : JobRow}
    (member : row ∈ store.jobs.rows) (accepted : store.insertJob? newRow = some inserted) :
    ¬ KeepsOne (.ok (inserted, newRow.toCopyJob)) store row := by
  rintro ⟨sameJob, -⟩
  have sameId : newRow.id = row.id := congrArg CopyJob.id sameJob
  have absent := Store.absent_of_insertJob? accepted
  rw [sameId, store.jobs.find?_of_mem member] at absent
  cases absent

/-- A valid request keeps to the one job exactly if an active row with the very
text of its destination is there, and the newest of these is the job or differs. -/
theorem keepsOne_iff_newestActive (member : row ∈ store.jobs.rows)
    (prepared : (manager.values request).2 = .ok values) :
    KeepsOne (manager.enqueue store request jobId current).2 store row ↔
      ∃ newest, store.newestActive request.destination = some newest ∧
        (newest = row ∨ newest.equivalent values = false) := by
  rw [enqueue_of_values prepared, ← CopyManager.values_destination prepared]
  cases found : store.newestActive values.destination with
  | none =>
      refine iff_of_false ?_ (by rintro ⟨newest, impossible, -⟩; cases impossible)
      rcases Store.enqueue_of_none found jobId current with
        ⟨inserted, accepted, outcome⟩ | outcome
      · rw [outcome]
        exact not_keepsOne_of_inserted member accepted
      · rw [outcome]
        exact id
  | some newest =>
      have listed := (Store.newestActive_some found).1
      rw [Store.enqueue_of_newestActive found]
      cases equivalent : newest.equivalent values with
      | true =>
          constructor
          · rintro ⟨sameJob, -⟩
            have same := store.jobs.key_injective listed member (congrArg CopyJob.id sameJob)
            exact ⟨newest, rfl, Or.inl same⟩
          · rintro ⟨other, foundOther, fits⟩
            cases foundOther
            rcases fits with rfl | differs
            · exact ⟨rfl, rfl⟩
            · rw [equivalent] at differs
              cases differs
      | false => exact iff_of_true trivial ⟨newest, rfl, Or.inr equivalent⟩

end Enqueue

/-- Both references name one tag of one repository, with or without a digest. -/
structure Reference.SameTag (first second : Reference) : Prop where
  host : first.host = second.host
  repository : first.repository = second.repository
  tag : first.tag = second.tag
  tagged : first.tag ≠ none

instance (first second : Reference) : Decidable (first.SameTag second) :=
  decidable_of_iff (first.host = second.host ∧ first.repository = second.repository ∧
      first.tag = second.tag ∧ first.tag ≠ none)
    ⟨fun ⟨host, repository, tag, tagged⟩ => ⟨host, repository, tag, tagged⟩,
      fun ⟨host, repository, tag, tagged⟩ => ⟨host, repository, tag, tagged⟩⟩

/-- The registry is in the same case, and the digest is the same or missing in both. -/
def Reference.SpelledAlike (first second : Reference) : Prop :=
  first.registry = second.registry ∧ first.digest = second.digest

instance (first second : Reference) : Decidable (first.SpelledAlike second) :=
  inferInstanceAs (Decidable (_ ∧ _))

private theorem same_text_iff_spelledAlike {one other : String} {first second : Reference}
    (firstParsed : parsedReference one = .ok first)
    (secondParsed : parsedReference other = .ok second) (sameTag : first.SameTag second) :
    one = other ↔ first.SpelledAlike second := by
  rw [parsedReference_eq_iff firstParsed secondParsed]
  constructor
  · rintro rfl
    exact ⟨rfl, rfl⟩
  · rintro ⟨sameRegistry, sameDigest⟩
    have sameRepository := sameTag.repository
    have sameName := sameTag.tag
    cases first
    cases second
    cases sameRegistry
    cases sameDigest
    cases sameRepository
    cases sameName
    rfl

/-- While a job is active, a valid request for the same destination tag returns
the job or is a conflict exactly if both destinations are spelled alike and the
newest active job under that text is the job or differs from the request, or
they are not, and an active job that differs from the request has the second
spelling. -/
theorem one_destination_iff_spelledAlike {manager : CopyManager} {store : Store}
    {request : EnqueueRequest} {values : EnqueueValues} {row : JobRow} {first second : Reference}
    (member : row ∈ store.jobs.rows) (active : row.state.active = true)
    (prepared : (manager.values request).2 = .ok values)
    (firstParsed : parsedReference row.destination = .ok first)
    (secondParsed : parsedReference request.destination = .ok second)
    (sameTag : first.SameTag second) (jobId : String) (current : Instant) :
    KeepsOne (manager.enqueue store request jobId current).2 store row ↔
      (first.SpelledAlike second ∧
        ∀ newest, store.newestActive request.destination = some newest →
          newest = row ∨ newest.equivalent values = false) ∨
      (¬ first.SpelledAlike second ∧
        ∃ newest, store.newestActive request.destination = some newest ∧
          newest.equivalent values = false) := by
  have sameText := same_text_iff_spelledAlike firstParsed secondParsed sameTag
  rw [keepsOne_iff_newestActive member prepared]
  by_cases alike : first.SpelledAlike second
  · obtain ⟨newest, found⟩ := Store.newestActive_isSome member active (sameText.mpr alike)
    constructor
    · rintro ⟨_, otherFound, fits⟩
      refine Or.inl ⟨alike, fun newest found => ?_⟩
      rw [otherFound] at found
      cases found
      exact fits
    · rintro (⟨-, fits⟩ | ⟨differently, -⟩)
      · exact ⟨newest, found, fits newest found⟩
      · exact absurd alike differently
  · constructor
    · rintro ⟨newest, found, same | differs⟩
      · subst same
        exact absurd (sameText.mp (Store.newestActive_some found).2) alike
      · exact Or.inr ⟨alike, newest, found, differs⟩
    · rintro (⟨same, -⟩ | ⟨-, newest, found, differs⟩)
      · exact absurd same alike
      · exact ⟨newest, found, Or.inr differs⟩

def sampleManager : CopyManager :=
  { providers := []
    sourceDefault := "anonymous"
    destinationDefault := "anonymous" }

def requestTo (destination : String) : EnqueueRequest :=
  { source := "a.example/x:v1"
    destination := destination
    platforms := .unset
    sourceCredentials := none
    destinationCredentials := none
    copyReferrers := true
    copyDigestTags := true
    replacementPolicy := "no_clobber" }

def oneJob : Store := (Transaction.enqueue sampleValues "first" 0).commit Store.empty

private theorem mem_oneJob : JobRow.fresh sampleValues "first" 0 ∈ oneJob.jobs.rows := by
  have onlyRow : oneJob.jobs.rows = [JobRow.fresh sampleValues "first" 0] := rfl
  rw [onlyRow]
  exact List.mem_singleton_self _

private theorem oneJob_reachable : sequential.Reachable oneJob := by
  have started : sequential.Reachable Store.empty :=
    ⟨Store.empty, rfl, Machine.Run.refl Store.empty⟩
  have moved : sequential.next Store.empty (.run (.enqueue sampleValues "first" 0)) = some oneJob :=
    rfl
  exact started.step moved

def taggedReference (registry : String) : Reference :=
  { registry := registry.toList
    repository := ['x']
    tag := some ['v', '1']
    digest := none }

private theorem sampleValues_prepared :
    (sampleManager.values (requestTo "b.example/x:v1")).2 = .ok sampleValues := by
  decide +kernel

theorem one_destination_for_one_spelling :
    (sampleManager.values (requestTo "b.example/x:v1")).2 = .ok sampleValues ∧
    KeepsOne (sampleManager.enqueue oneJob (requestTo "b.example/x:v1") "second" 1).2 oneJob
      (.fresh sampleValues "first" 0) := by
  have parsed : parsedReference "b.example/x:v1" = .ok (taggedReference "b.example") := by
    decide +kernel
  have newest : oneJob.newestActive "b.example/x:v1" = some (.fresh sampleValues "first" 0) := by
    decide +kernel
  refine ⟨sampleValues_prepared, (one_destination_iff_spelledAlike mem_oneJob rfl
    sampleValues_prepared parsed parsed (by decide) "second" 1).mpr
      (Or.inl ⟨by decide, fun other found => ?_⟩)⟩
  rw [show (requestTo "b.example/x:v1").destination = "b.example/x:v1" from rfl, newest] at found
  exact Or.inl (Option.some.inj found).symm

def otherCaseValues : EnqueueValues :=
  { sampleValues with destination := "B.example/x:v1" }

/-- `B.example/x:v1` is the same tag, and yet a second active job. -/
theorem other_case_enqueues_twice :
    (taggedReference "b.example").SameTag (taggedReference "B.example") ∧
    parsedReference "b.example/x:v1" = .ok (taggedReference "b.example") ∧
    parsedReference "B.example/x:v1" = .ok (taggedReference "B.example") ∧
    sequential.Reachable oneJob ∧
    (sampleManager.enqueue Store.empty (requestTo "b.example/x:v1") "first" 0).2 =
      .ok (oneJob, (JobRow.fresh sampleValues "first" 0).toCopyJob) ∧
    ∃ after, (sampleManager.enqueue oneJob (requestTo "B.example/x:v1") "second" 1).2 =
        .ok (after, (JobRow.fresh otherCaseValues "second" 1).toCopyJob) ∧
      after.jobs.rows.map (fun row => (row.id, row.state.active)) =
        [("first", true), ("second", true)] ∧
      ¬ KeepsOne (.ok (after, (JobRow.fresh otherCaseValues "second" 1).toCopyJob)) oneJob
        (.fresh sampleValues "first" 0) := by
  have otherPrepared : (sampleManager.values (requestTo "B.example/x:v1")).2 =
      .ok otherCaseValues := by
    decide +kernel
  refine ⟨by decide, by decide +kernel, by decide +kernel, oneJob_reachable, ?_,
    (Transaction.enqueue otherCaseValues "second" 1).commit oneJob, ?_, by decide, ?_⟩
  · rw [enqueue_of_values sampleValues_prepared]
    rfl
  · rw [enqueue_of_values otherPrepared]
    rfl
  · rintro ⟨sameJob, -⟩
    have sameId : "second" = "first" := congrArg CopyJob.id sameJob
    exact absurd sameId (by decide)

end OciTransfer
