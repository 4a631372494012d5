import OciTransfer.BlobRows
import OciTransfer.DestinationSpelling
import OciTransfer.Guards
import OciTransfer.JsonLoads
import OciTransfer.PinnedCopies

/-!
What a request leaves in the queue, and when a second one asks for the same copy.

The store compares texts and integers; the platforms are compared as the text that
`json.dumps` makes of them.  Since the selection is sorted before it is written, and
the text reads back as the selection, two requests agree in the columns exactly if
they agree in what they ask for, whatever order they name their platforms in.
-/

namespace OciTransfer

open JsonValue Guards

/-! ### Platforms -/

/-- The platforms a selection names; none stands for all. -/
def PlatformSelection.names : PlatformSelection → List String
  | .unset => []
  | .one platform => if platform = "all" then [] else [platform]
  | .several values => values

/-- A character that is no separator of JSON texts and needs no escape. -/
def plainLetter (char : Char) : Bool :=
  char.isAlphanum || char = '_' || char = '.' || char = '-' || char = '/'

private theorem isAlphanum_of_lowerAlphanum {char : Char} (lower : lowerAlphanum char = true) :
    char.isAlphanum = true := by
  change (char.isLower || char.isDigit) = true at lower
  change ((char.isUpper || char.isLower) || char.isDigit) = true
  rw [Bool.or_assoc, lower, Bool.or_true]

private theorem plainLetter_of_platformPattern {platform : List Char}
    (accepted : platformPattern platform = true) : platform.all plainLetter = true := by
  have joined : ['/'].intercalate (platform.splitOn '/') = platform :=
    List.intercalate_splitOn '/'
  have lowerPlain : ∀ char, lowerAlphanum char = true → plainLetter char = true := by
    intro char lower
    unfold plainLetter
    rw [isAlphanum_of_lowerAlphanum lower, Bool.true_or, Bool.true_or, Bool.true_or, Bool.true_or]
  have allPlain : ∀ {part : List Char} {pattern : Char → Bool},
      (!part.isEmpty && part.all pattern) = true →
      (∀ char, pattern char = true → plainLetter char = true) → ∀ char ∈ part,
      plainLetter char = true := by
    intro part pattern matched each char member
    exact each char (List.all_eq_true.mp ((Bool.and_eq_true _ _).mp matched).2 char member)
  have architecturePlain : ∀ char, (lowerAlphanum char || char = '_') = true →
      plainLetter char = true := by
    intro char matched
    rcases (Bool.or_eq_true _ _).mp matched with lower | underscore
    · exact lowerPlain char lower
    · rw [of_decide_eq_true underscore]
      rfl
  have variantPlain : ∀ char, (char.isAlphanum || char = '_' || char = '.' || char = '-') = true →
      plainLetter char = true := by
    intro char matched
    unfold plainLetter
    rw [matched, Bool.true_or]
  rw [List.all_eq_true, ← joined]
  unfold platformPattern at accepted
  intro char member
  split at accepted
  · rename_i os architecture parts
    rw [parts] at member
    obtain ⟨osMatched, architectureMatched⟩ := (Bool.and_eq_true _ _).mp accepted
    simp only [List.intercalate, List.intersperse, List.flatten_cons, List.flatten_nil,
      List.append_nil, List.mem_append, List.mem_singleton] at member
    rcases member with inOs | rfl | inArchitecture
    · exact allPlain osMatched lowerPlain char inOs
    · rfl
    · exact allPlain architectureMatched architecturePlain char inArchitecture
  · rename_i os architecture variant parts
    rw [parts] at member
    obtain ⟨both, variantMatched⟩ := (Bool.and_eq_true _ _).mp accepted
    obtain ⟨osMatched, architectureMatched⟩ := (Bool.and_eq_true _ _).mp both
    simp only [List.intercalate, List.intersperse, List.flatten_cons, List.flatten_nil,
      List.append_nil, List.mem_append, List.mem_singleton] at member
    rcases member with inOs | rfl | inArchitecture | rfl | inVariant
    · exact allPlain osMatched lowerPlain char inOs
    · rfl
    · exact allPlain architectureMatched architecturePlain char inArchitecture
    · rfl
    · exact allPlain variantMatched variantPlain char inVariant
  · cases accepted

private theorem plainLetter_bounds {char : Char} (plain : plainLetter char = true) :
    ' ' ≤ char ∧ char ≤ '~' := by
  have codes : 32 ≤ char.toNat ∧ char.toNat ≤ 126 := by
    have letters : ∀ {low high : UInt32}, low ≤ char.val ∧ char.val ≤ high →
        low.toNat ≤ char.toNat ∧ char.toNat ≤ high.toNat := fun between =>
      ⟨UInt32.le_iff_toNat_le.mp between.1, UInt32.le_iff_toNat_le.mp between.2⟩
    have bounds : ∀ {low high : UInt32},
        (decide (char.val ≥ low) && decide (char.val ≤ high)) = true →
          low ≤ char.val ∧ char.val ≤ high :=
      fun both => ⟨of_decide_eq_true ((Bool.and_eq_true _ _).mp both).1,
        of_decide_eq_true ((Bool.and_eq_true _ _).mp both).2⟩
    change (((((char.isUpper || char.isLower) || char.isDigit) || decide (char = '_')) ||
      decide (char = '.') || decide (char = '-')) || decide (char = '/')) = true at plain
    simp only [Bool.or_eq_true, decide_eq_true_eq] at plain
    rcases plain with ((((((upper | lower) | digit) | rfl) | rfl) | rfl) | rfl)
    · have between : 65 ≤ char.toNat ∧ char.toNat ≤ 90 := letters (of_decide_eq_true upper)
      omega
    · have between : 97 ≤ char.toNat ∧ char.toNat ≤ 122 := letters (bounds lower)
      omega
    · have between : 48 ≤ char.toNat ∧ char.toNat ≤ 57 := letters (bounds digit)
      omega
    all_goals exact ⟨by decide, by decide⟩
  exact ⟨codes.1, codes.2⟩

private theorem escapeChar_plainLetter {char : Char} (plain : plainLetter char = true) :
    escapeChar char = [char] := by
  have special : shortEscape char = none := by
    have notPlain : (escapes.all fun entry => !plainLetter entry.1) = true := by decide
    unfold shortEscape
    rw [List.find?_eq_none.mpr, Option.map_none]
    intro entry member same
    have entryNotPlain := List.all_eq_true.mp notPlain entry member
    rw [of_decide_eq_true same, plain] at entryNotPlain
    cases entryNotPlain
  unfold escapeChar
  rw [special]
  exact if_pos (plainLetter_bounds plain)

private theorem flatMap_escapeChar {text : List Char} (plain : text.all plainLetter = true) :
    text.flatMap escapeChar = text := by
  induction text with
  | nil => rfl
  | cons char rest ih =>
      rw [List.all_cons, Bool.and_eq_true] at plain
      rw [List.flatMap_cons, escapeChar_plainLetter plain.1, ih plain.2, List.singleton_append]

private theorem toList_platformsJson (float : ℚ → List Char) {platforms : List String}
    (plain : ∀ platform ∈ platforms, platform.toList.all plainLetter = true) :
    (platformsJson platforms).toList = (Style.spaced float).write (.arr (platforms.map .str)) := by
  have sameText : ∀ platform ∈ platforms,
      ("\"" ++ platform ++ "\"").toList = (Style.spaced float).quoted platform := by
    intro platform member
    change _ = '"' :: (platform.toList.flatMap escapeChar ++ ['"'])
    rw [flatMap_escapeChar (plain platform member), String.toList_append, String.toList_append]
    rfl
  have written : (platforms.map fun platform => "\"" ++ platform ++ "\"").map String.toList =
      (Style.spaced float).writeItems (platforms.map .str) := by
    rw [writeItems_eq, List.map_map, List.map_map]
    exact List.map_congr_left sameText
  unfold platformsJson
  rw [String.toList_append, String.toList_append, String.toList_intercalate, written]
  rfl

theorem loads_platformsJson (readFloat : List Char → JsonValue) {platforms : List String}
    (plain : ∀ platform ∈ platforms, platform.toList.all plainLetter = true) :
    loads readFloat (platformsJson platforms).toList = some (.arr (platforms.map .str)) := by
  have canonical : (JsonValue.arr (platforms.map .str)).Canonical := by
    refine .arr fun item member => ?_
    obtain ⟨platform, -, rfl⟩ := List.mem_map.mp member
    exact .str platform
  rw [toList_platformsJson (fun _ => []) plain, loads_write _ _ canonical.regular,
    canonical.canon_eq]

private theorem platformsJson_inj {platforms others : List String}
    (plain : ∀ platform ∈ platforms, platform.toList.all plainLetter = true)
    (othersPlain : ∀ platform ∈ others, platform.toList.all plainLetter = true)
    (same : platformsJson platforms = platformsJson others) : platforms = others := by
  have read := loads_platformsJson (fun _ => .null) plain
  rw [same, loads_platformsJson _ othersPlain] at read
  have sameItems := JsonValue.arr.inj (Option.some.inj read)
  exact (List.map_injective_iff.mpr (fun _ _ => JsonValue.str.inj) sameItems).symm

private theorem normalizePlatforms_ok {platforms : PlatformSelection} {selected : List String}
    (normalized : normalizePlatforms platforms = .ok selected) :
    selected = platforms.names.insertionSort (fun left right => left ≤ right) ∧
      ∀ platform ∈ selected, platformPattern platform.toList = true := by
  have matched : ∀ {values : List String},
      (if values.isEmpty || !decide values.Nodup ||
          !values.all fun value => platformPattern value.toList then
        (Except.error (.valueError
          "platforms must be 'all' or unique os/architecture[/variant] values") :
          Except RequestError (List String))
      else .ok (values.insertionSort fun left right => left ≤ right)) = .ok selected →
      selected = values.insertionSort (fun left right => left ≤ right) ∧
        ∀ platform ∈ selected, platformPattern platform.toList = true := by
    intro values accepted
    obtain ⟨valid, same⟩ := ok_of_guard accepted
    cases same
    refine ⟨rfl, fun platform member => ?_⟩
    rw [List.mem_insertionSort] at member
    simp only [Bool.or_eq_true, not_or, Bool.not_eq_true', Bool.not_eq_false] at valid
    exact List.all_eq_true.mp valid.2 platform member
  unfold normalizePlatforms at normalized
  cases platforms with
  | unset =>
      cases normalized
      exact ⟨rfl, fun _ impossible => absurd impossible List.not_mem_nil⟩
  | one platform =>
      dsimp only at normalized
      by_cases all : platform = "all"
      · rw [if_pos all] at normalized
        cases normalized
        simp only [PlatformSelection.names, if_pos all]
        exact ⟨rfl, fun _ impossible => absurd impossible List.not_mem_nil⟩
      · rw [if_neg all] at normalized
        simp only [PlatformSelection.names, if_neg all]
        exact matched normalized
  | several values => exact matched normalized

theorem plain_of_normalizePlatforms {platforms : PlatformSelection} {selected : List String}
    (normalized : normalizePlatforms platforms = .ok selected) :
    ∀ platform ∈ selected, platform.toList.all plainLetter = true :=
  fun platform member =>
    plainLetter_of_platformPattern ((normalizePlatforms_ok normalized).2 platform member)

private theorem text_of_replacementPolicyOf {name : String} {policy : ReplacementPolicy}
    (valid : replacementPolicyOf name = .ok policy) : policy.text = name := by
  unfold replacementPolicyOf at valid
  split at valid
  · rename_i isNoClobber
    cases valid
    exact isNoClobber.symm
  · split at valid
    · rename_i isOverwrite
      cases valid
      exact isOverwrite.symm
    · cases valid

/-! ### The values of a request -/

namespace CopyManager

/-- `source_credentials.id if source_credentials else self._source_default`. -/
def sourceProviderId (manager : CopyManager) (request : EnqueueRequest) : String :=
  ((request.sourceCredentials.filter (·.isTrue)).map (·.id)).getD manager.sourceDefault

def destinationProviderId (manager : CopyManager) (request : EnqueueRequest) : String :=
  ((request.destinationCredentials.filter (·.isTrue)).map (·.id)).getD manager.destinationDefault

theorem values_eq {manager : CopyManager} {request : EnqueueRequest} {values : EnqueueValues}
    (prepared : (manager.values request).2 = .ok values) :
    ∃ selected policy, normalizePlatforms request.platforms = .ok selected ∧
      policy.text = request.replacementPolicy ∧
      values =
        { source := request.source
          destination := request.destination
          platformsJson := platformsJson selected
          sourceProviderId := manager.sourceProviderId request
          destinationProviderId := manager.destinationProviderId request
          copyReferrers := if request.copyReferrers then 1 else 0
          copyDigestTags := if request.copyDigestTags then 1 else 0
          replacementPolicy := policy } := by
  unfold CopyManager.values EnqueueRequest.checked at prepared
  cases source : parseReference request.source with
  | error message =>
      rw [source] at prepared
      cases prepared
  | ok _ =>
      cases destination : parseReference request.destination with
      | error message =>
          rw [source, destination] at prepared
          cases prepared
      | ok _ =>
          cases normalized : normalizePlatforms request.platforms with
          | error raised =>
              rw [source, destination, normalized] at prepared
              cases prepared
          | ok selected =>
              cases valid : replacementPolicyOf request.replacementPolicy with
              | error raised =>
                  rw [source, destination, normalized, valid] at prepared
                  cases prepared
              | ok policy =>
                  rw [source, destination, normalized, valid] at prepared
                  dsimp only [Except.map] at prepared
                  refine ⟨selected, policy, rfl, text_of_replacementPolicyOf valid, ?_⟩
                  cases registered : (manager.registerProviders
                      (request.sourceCredentials.toList ++
                        request.destinationCredentials.toList)).2 with
                  | error raised =>
                      rw [registered] at prepared
                      cases prepared
                  | ok _ =>
                      rw [registered] at prepared
                      exact (Except.ok.inj prepared).symm

end CopyManager

/-- Two requests, each to a manager of its own, ask for the same copy. -/
structure SameCopy (manager other : CopyManager) (request another : EnqueueRequest) : Prop where
  source : request.source = another.source
  destination : request.destination = another.destination
  platforms : request.platforms.names.Perm another.platforms.names
  sourceProvider : manager.sourceProviderId request = other.sourceProviderId another
  destinationProvider : manager.destinationProviderId request = other.destinationProviderId another
  copyReferrers : request.copyReferrers = another.copyReferrers
  copyDigestTags : request.copyDigestTags = another.copyDigestTags
  replacementPolicy : request.replacementPolicy = another.replacementPolicy

private theorem insertionSort_eq_iff {names others : List String} :
    names.insertionSort (fun left right => left ≤ right) =
      others.insertionSort (fun left right => left ≤ right) ↔ names.Perm others := by
  constructor
  · intro same
    exact ((List.perm_insertionSort _ names).symm.trans (.of_eq same)).trans
      (List.perm_insertionSort _ others)
  · intro perm
    refine List.Perm.eq_of_pairwise' (List.pairwise_insertionSort _ names)
      (List.pairwise_insertionSort _ others) ?_
    exact ((List.perm_insertionSort _ names).trans perm).trans
      (List.perm_insertionSort _ others).symm

private theorem flag_inj {flag other : Bool}
    (same : (if flag then 1 else 0 : Int) = if other then 1 else 0) : flag = other := by
  cases flag <;> cases other <;> first | rfl | cases same

private theorem ReplacementPolicy.text_inj {policy other : ReplacementPolicy}
    (same : policy.text = other.text) : policy = other := by
  cases policy <;> cases other <;> first | rfl | exact absurd same (by decide)

/-- The values a request leaves are those of another one exactly if both ask for
the same copy. -/
theorem values_eq_iff_sameCopy {manager other : CopyManager} {request another : EnqueueRequest}
    {values otherValues : EnqueueValues} (prepared : (manager.values request).2 = .ok values)
    (otherPrepared : (other.values another).2 = .ok otherValues) :
    values = otherValues ↔ SameCopy manager other request another := by
  obtain ⟨selected, policy, normalized, named, rfl⟩ := CopyManager.values_eq prepared
  obtain ⟨chosen, otherPolicy, otherNormalized, otherNamed, rfl⟩ :=
    CopyManager.values_eq otherPrepared
  have sorted := (normalizePlatforms_ok normalized).1
  have otherSorted := (normalizePlatforms_ok otherNormalized).1
  constructor
  · intro same
    obtain ⟨source, destination, text, sourceProvider, destinationProvider, referrers, tags,
      policies⟩ :=
      EnqueueValues.mk.inj same
    have sameSelection : selected = chosen := platformsJson_inj
      (plain_of_normalizePlatforms normalized) (plain_of_normalizePlatforms otherNormalized) text
    rw [sorted, otherSorted] at sameSelection
    exact ⟨source, destination, insertionSort_eq_iff.mp sameSelection, sourceProvider,
      destinationProvider, flag_inj referrers, flag_inj tags, by rw [← named, policies, otherNamed]⟩
  · intro same
    have sameSelection : selected = chosen := by
      rw [sorted, otherSorted, insertionSort_eq_iff]
      exact same.platforms
    have samePolicy : policy = otherPolicy :=
      ReplacementPolicy.text_inj (by rw [named, otherNamed, same.replacementPolicy])
    rw [same.source, same.destination, sameSelection, same.sourceProvider, same.destinationProvider,
      same.copyReferrers, same.copyDigestTags, samePolicy]

/-! ### The columns of a request in the queue -/

theorem JobRow.equivalent_iff {row : JobRow} {values : EnqueueValues} :
    row.equivalent values = true ↔
      row.source = values.source ∧ row.destination = values.destination ∧
      row.sourceProviderId = values.sourceProviderId ∧
      row.destinationProviderId = values.destinationProviderId ∧
      row.copyReferrers = values.copyReferrers ∧ row.copyDigestTags = values.copyDigestTags ∧
      row.replacementPolicy = values.replacementPolicy ∧
      row.platformsJson = values.platformsJson := by
  simp only [equivalent, Bool.and_eq_true, decide_eq_true_eq, and_assoc]

private theorem JobRow.equivalent_fresh (values : EnqueueValues) (job : String)
    (current : Instant) :
    (JobRow.fresh values job current).equivalent values = true :=
  JobRow.equivalent_iff.mpr ⟨rfl, rfl, rfl, rfl, rfl, rfl, rfl, rfl⟩

private theorem JobRow.equivalent_eq {row : JobRow} {values others : EnqueueValues}
    (fits : row.equivalent values = true) : row.equivalent others = decide (values = others) := by
  rw [JobRow.equivalent_iff] at fits
  rw [Bool.eq_iff_iff, decide_eq_true_iff, JobRow.equivalent_iff]
  obtain ⟨source, destination, sourceProvider, destinationProvider, referrers, tags, policy,
    text⟩ :=
    fits
  rw [source, destination, sourceProvider, destinationProvider, referrers, tags, policy, text]
  cases values
  cases others
  rw [EnqueueValues.mk.injEq]
  tauto

/-- No transaction writes a column of the request. -/
theorem RowStep.equivalent {transaction : Transaction} {old row : JobRow}
    (changed : RowStep transaction old row) (values : EnqueueValues) :
    row.equivalent values = old.equivalent values := by
  cases changed <;> rfl

namespace System

/-- What a job was enqueued for is in its row for as long as the row is there. -/
theorem equivalent_along_run {first last : System} (reached : interleaved.Reachable first)
    (run : interleaved.Run Machine.Always first last) {job : String} {earlier later : JobRow}
    (foundFirst : first.store.jobs.find? job = some earlier)
    (foundLast : last.store.jobs.find? job = some later) (values : EnqueueValues) :
    later.equivalent values = earlier.equivalent values := by
  refine System.job_along_run
    (fun earlier later => later.1.equivalent values = earlier.1.equivalent values) (fun _ => rfl)
    (fun _ _ _ toMiddle toLast => toLast.trans toMiddle) ?_ reached run foundFirst foundLast
  intro before transaction job old row blobs _ _ _ changed
  cases changed with
  | changed step => exact step.equivalent values
  | pinned | recorded | tallied => rfl

end System

/-- The job an `enqueue` returns is stored, and its row fits the request. -/
theorem Store.enqueue_stored {store after : Store} {values : EnqueueValues} {jobId : String}
    {current : Instant} {job : CopyJob}
    (answered : store.enqueue values jobId current = .ok (after, job)) :
    ∃ row, after.jobs.find? job.id = some row ∧ row.equivalent values = true := by
  cases newest : store.newestActive values.destination with
  | some row =>
      rw [Store.enqueue_of_newestActive newest] at answered
      split at answered
      · rename_i fits
        cases answered
        exact ⟨row, store.jobs.find?_of_mem (Store.newestActive_some newest).1, fits⟩
      · cases answered
  | none =>
      rcases Store.enqueue_of_none newest jobId current with ⟨inserted, accepted, outcome⟩ | outcome
      · rw [outcome] at answered
        cases answered
        refine ⟨JobRow.fresh values jobId current, ?_, JobRow.equivalent_fresh values jobId current⟩
        rw [Store.find?_insertJob? accepted]
        exact if_pos rfl
      · rw [outcome] at answered
        cases answered

private theorem System.equivalent_of_enqueued {first second last : System} {values : EnqueueValues}
    {jobId : String} {current : Instant} {stored : Store} {job : CopyJob}
    (reached : interleaved.Reachable first)
    (moved : first.next (.commit (.enqueue values jobId current)) = some second)
    (answered : first.store.enqueue values jobId current = .ok (stored, job))
    (run : interleaved.Run Machine.Always second last) {row : JobRow}
    (found : last.store.jobs.find? job.id = some row) : row.equivalent values = true := by
  have storedEq : second.store = stored := by
    rw [System.next_commit_store moved]
    simp only [Transaction.commit, answered]
  obtain ⟨earlier, foundEarlier, fits⟩ := Store.enqueue_stored answered
  rw [← storedEq] at foundEarlier
  have stepped : interleaved.next first (.commit (.enqueue values jobId current)) = some second :=
    moved
  rw [System.equivalent_along_run (reached.step stepped) run foundEarlier found values, fits]

/-- While the job of a request is the newest active one for a destination, another
valid request for that destination returns the job if it asks for the same copy,
and is a conflict with it if it does not. -/
theorem enqueue_joins_the_same_copy {manager other : CopyManager} {request another : EnqueueRequest}
    {values otherValues : EnqueueValues} {first second last : System} {jobId : String}
    {current : Instant} {stored : Store} {job : CopyJob} {row : JobRow}
    (reached : interleaved.Reachable first)
    (prepared : (manager.values request).2 = .ok values)
    (moved : first.next (.commit (.enqueue values jobId current)) = some second)
    (answered : first.store.enqueue values jobId current = .ok (stored, job))
    (run : interleaved.Run Machine.Always second last)
    (newest : last.store.newestActive another.destination = some row) (sameJob : row.id = job.id)
    (otherPrepared : (other.values another).2 = .ok otherValues) (newId : String) (now : Instant) :
    (SameCopy manager other request another →
      (other.enqueue last.store another newId now).2 = .ok (last.store, row.toCopyJob)) ∧
    (¬ SameCopy manager other request another →
      (other.enqueue last.store another newId now).2 = .error (.store (.jobConflict
        ("an active copy already targets this destination: " ++ job.id)))) := by
  have found : last.store.jobs.find? job.id = some row := by
    rw [← sameJob]
    exact last.store.jobs.find?_of_mem (Store.newestActive_some newest).1
  have fits := System.equivalent_of_enqueued reached moved answered run found
  rw [← CopyManager.values_destination otherPrepared] at newest
  rw [enqueue_of_values otherPrepared, Store.enqueue_of_newestActive newest,
    JobRow.equivalent_eq fits, sameJob]
  have sameValues := values_eq_iff_sameCopy prepared otherPrepared
  constructor
  · intro same
    rw [decide_eq_true (sameValues.mpr same)]
    rfl
  · intro differs
    rw [decide_eq_false fun same => differs (sameValues.mp same)]
    rfl

/-! ### Two requests that name their platforms in different orders -/

def twoPlatforms (platforms : List String) : EnqueueRequest :=
  { requestTo "b.example/x:v1" with platforms := .several platforms }

def twoPlatformValues : EnqueueValues :=
  { sampleValues with platformsJson := "[\"linux/amd64\", \"linux/arm64\"]" }

def twoPlatformQueue : System :=
  System.initial.commit (.enqueue twoPlatformValues "first" 0)

theorem enqueue_joins_the_same_copy_in_another_order :
    ∃ last job, (sampleManager.enqueue last (twoPlatforms ["linux/arm64", "linux/amd64"])
        "second" 5).2 = .ok (last, job) ∧ job.id = "first" ∧ job.state = .planning := by
  have prepared : (sampleManager.values (twoPlatforms ["linux/amd64", "linux/arm64"])).2 =
      .ok twoPlatformValues := by
    decide +kernel
  have otherPrepared : (sampleManager.values (twoPlatforms ["linux/arm64", "linux/amd64"])).2 =
      .ok twoPlatformValues := by
    decide +kernel
  have claimed : ((interleaved.execute Machine.Always [.commit (.claim "worker" 60 1 "token")]
      twoPlatformQueue).any fun state => (state.store.newestActive "b.example/x:v1").any fun row =>
        row.id = "first" && row.state = .planning) = true := by
    decide +kernel
  obtain ⟨last, run, tested⟩ := interleaved.exists_run_of_execute _ claimed
  obtain ⟨row, newest, isFirst⟩ := (Option.any_eq_true _ _).mp tested
  rw [Bool.and_eq_true, decide_eq_true_iff, decide_eq_true_iff] at isFirst
  have started : interleaved.Reachable System.initial :=
    ⟨System.initial, rfl, Machine.Run.refl System.initial⟩
  have same : SameCopy sampleManager sampleManager (twoPlatforms ["linux/amd64", "linux/arm64"])
      (twoPlatforms ["linux/arm64", "linux/amd64"]) :=
    ⟨rfl, rfl, by decide, rfl, rfl, rfl, rfl, rfl⟩
  exact ⟨last.store, row.toCopyJob, (enqueue_joins_the_same_copy started prepared rfl rfl run newest
    isFirst.1 otherPrepared "second" 5).1 same, isFirst.1, isFirst.2⟩

end OciTransfer
