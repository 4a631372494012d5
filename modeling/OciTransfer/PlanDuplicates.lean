import OciTransfer.PlanCoverage

/-!
When a plan lists every manifest once.

A record is appended for every place that names a manifest: the root, a child
in an index, a referrer in the answer to a lookup.  The set of the nodes seen
keeps a manifest from being expanded twice, but is asked only after the record
is appended.  So a plan lists its manifests once exactly if no digest is named
in two places.
-/

namespace OciTransfer

/-! ### The places that name a manifest -/

/-- A place that names a manifest; an index that was reached from a referrer names
its children as `part`. -/
inductive Place where
  | root
  | child (parent : String) (index : Nat)
  | referrer (subject : String) (index : Nat)
  | part (parent : String) (index : Nat)
  deriving DecidableEq, Repr

namespace PlanStart

/-- The manifests that the selection leads to from the root. -/
def Selects (start : PlanStart) (digest : String) : Prop :=
  Reaches (start.registry.childDigests start.selected) start.root.descriptor.digest digest

/-- The manifests that a referrer of a selected manifest leads to. -/
def Attaches (start : PlanStart) (digest : String) : Prop :=
  start.copyReferrers = true ∧ ∃ subject, start.Selects subject ∧
    ∃ referrer ∈ start.registry.referrerDigests subject,
      Reaches (start.registry.childDigests []) referrer digest

def Names (start : PlanStart) : Place → String → Prop
  | .root, digest => digest = start.root.descriptor.digest
  | .child parent index, digest => start.Selects parent ∧
      (start.registry.childDigests start.selected parent)[index]? = some digest
  | .referrer subject index, digest => (start.copyReferrers = true ∧ start.Selects subject) ∧
      (start.registry.referrerDigests subject)[index]? = some digest
  | .part parent index, digest => start.Attaches parent ∧
      (start.registry.childDigests [] parent)[index]? = some digest

def NamesOnce (start : PlanStart) : Prop :=
  ∀ left right digest, start.Names left digest → start.Names right digest → left = right

/-- The places of the walk from the root, for the nodes it expands. -/
def rootPlaces (start : PlanStart) (expanded : List String) : List (Place × String) :=
  (.root, start.root.descriptor.digest) ::
    placed .child (start.registry.childDigests start.selected) expanded

/-- The places of the walks from referrers. -/
def referrerPlaces (start : PlanStart) (lookups expanded : List String) : List (Place × String) :=
  placed .referrer start.registry.referrerDigests lookups ++
    placed .part (start.registry.childDigests []) expanded

end PlanStart

section Places

variable {start : PlanStart} {expanded lookups laterExpanded : List String}

private theorem map_snd_rootPlaces : (start.rootPlaces expanded).map Prod.snd =
    start.root.descriptor.digest ::
      expanded.flatMap (start.registry.childDigests start.selected) := by
  unfold PlanStart.rootPlaces
  rw [List.map_cons, map_snd_placed]

private theorem map_snd_referrerPlaces : (start.referrerPlaces lookups laterExpanded).map Prod.snd =
    lookups.flatMap start.registry.referrerDigests ++
      laterExpanded.flatMap (start.registry.childDigests []) := by
  unfold PlanStart.referrerPlaces
  rw [List.map_append, map_snd_placed, map_snd_placed]

private theorem mem_rootPlaces {place : Place} {digest : String} :
    (place, digest) ∈ start.rootPlaces expanded ↔
      (place = .root ∧ digest = start.root.descriptor.digest) ∨
      ∃ parent ∈ expanded, ∃ index, place = .child parent index ∧
        (start.registry.childDigests start.selected parent)[index]? = some digest := by
  unfold PlanStart.rootPlaces
  rw [List.mem_cons, mem_placed, Prod.mk.injEq]

private theorem mem_referrerPlaces {place : Place} {digest : String} :
    (place, digest) ∈ start.referrerPlaces lookups laterExpanded ↔
      (∃ subject ∈ lookups, ∃ index, place = .referrer subject index ∧
        (start.registry.referrerDigests subject)[index]? = some digest) ∨
      ∃ parent ∈ laterExpanded, ∃ index, place = .part parent index ∧
        (start.registry.childDigests [] parent)[index]? = some digest := by
  unfold PlanStart.referrerPlaces
  rw [List.mem_append, mem_placed, mem_placed]

private theorem nodup_rootPlaces (distinct : expanded.Nodup) :
    ((start.rootPlaces expanded).map Prod.fst).Nodup := by
  rw [PlanStart.rootPlaces, List.map_cons, List.nodup_cons]
  constructor
  · intro member
    obtain ⟨⟨_, digest⟩, inPlaces, rfl⟩ := List.mem_map.mp member
    obtain ⟨_, _, _, impossible, _⟩ := mem_placed.mp inPlaces
    cases impossible
  · exact nodup_map_fst_placed _ (fun _ _ _ _ same => by cases same; exact ⟨rfl, rfl⟩) distinct

private theorem nodup_places (distinct : expanded.Nodup) (lookedUpOnce : lookups.Nodup)
    (laterDistinct : laterExpanded.Nodup) :
    ((start.rootPlaces expanded ++ start.referrerPlaces lookups laterExpanded).map
      Prod.fst).Nodup := by
  rw [List.map_append, List.nodup_append']
  refine ⟨nodup_rootPlaces distinct, ?_, ?_⟩
  · rw [PlanStart.referrerPlaces, List.map_append, List.nodup_append']
    refine
      ⟨nodup_map_fst_placed _ (fun _ _ _ _ same => by cases same; exact ⟨rfl, rfl⟩) lookedUpOnce,
        nodup_map_fst_placed _ (fun _ _ _ _ same => by cases same; exact ⟨rfl, rfl⟩) laterDistinct,
        ?_⟩
    intro place inReferrers inParts
    obtain ⟨⟨_, _⟩, member, rfl⟩ := List.mem_map.mp inReferrers
    obtain ⟨⟨_, _⟩, member', same⟩ := List.mem_map.mp inParts
    obtain ⟨_, _, _, isReferrer, _⟩ := mem_placed.mp member
    obtain ⟨_, _, _, isPart, _⟩ := mem_placed.mp member'
    change _ = _ at same
    rw [isReferrer, isPart] at same
    cases same
  · intro place inRoot inReferrers
    obtain ⟨⟨_, _⟩, member, rfl⟩ := List.mem_map.mp inRoot
    obtain ⟨⟨_, _⟩, member', same⟩ := List.mem_map.mp inReferrers
    change _ = _ at same
    rcases mem_rootPlaces.mp member with ⟨isRoot, -⟩ | ⟨_, _, _, isChild, -⟩
    · rcases mem_referrerPlaces.mp member' with ⟨_, _, _, isReferrer, -⟩ | ⟨_, _, _, isPart, -⟩
      · rw [isRoot, isReferrer] at same
        cases same
      · rw [isRoot, isPart] at same
        cases same
    · rcases mem_referrerPlaces.mp member' with ⟨_, _, _, isReferrer, -⟩ | ⟨_, _, _, isPart, -⟩
      · rw [isChild, isReferrer] at same
        cases same
      · rw [isChild, isPart] at same
        cases same

end Places

/-! ### The two traversals of a plan -/

/-- What the walk from the root has listed, and what the walks from the referrers. -/
structure PlanStart.Traversed (start : PlanStart)
    (expanded rootListed lookups laterExpanded laterListed : List String) : Prop where
  first : Traversal (start.registry.childDigests start.selected) [start.root.descriptor.digest]
    expanded [] rootListed
  lookedUp : lookups = if start.copyReferrers then rootListed else []
  later : Traversal (start.registry.childDigests [])
    (lookups.flatMap start.registry.referrerDigests) laterExpanded expanded laterListed

private theorem selects_iff_expanded {start : PlanStart} {expanded rootListed : List String}
    (first : Traversal (start.registry.childDigests start.selected)
      [start.root.descriptor.digest] expanded [] rootListed) {digest : String} :
    start.Selects digest ↔ digest ∈ expanded := by
  constructor
  · exact first.covers (fun _ _ wasSeen => nomatch wasSeen) (List.mem_singleton_self _)
  · intro member
    obtain ⟨root, isRoot, reaches⟩ := first.reached digest member
    rw [List.mem_singleton.mp isRoot] at reaches
    exact reaches

private theorem rootListed_perm {start : PlanStart} {expanded rootListed : List String}
    (first : Traversal (start.registry.childDigests start.selected)
      [start.root.descriptor.digest] expanded [] rootListed) :
    rootListed.Perm ((start.rootPlaces expanded).map Prod.snd) := by
  rw [map_snd_rootPlaces]
  exact first.account

private theorem names_of_rootPlaces {start : PlanStart} {expanded rootListed : List String}
    (first : Traversal (start.registry.childDigests start.selected)
      [start.root.descriptor.digest] expanded [] rootListed) {place : Place} {digest : String}
    (member : (place, digest) ∈ start.rootPlaces expanded) : start.Names place digest := by
  rcases mem_rootPlaces.mp member with ⟨rfl, same⟩ | ⟨parent, isExpanded, index, rfl, named⟩
  · exact same
  · exact ⟨(selects_iff_expanded first).mpr isExpanded, named⟩

/-- Where no digest is named in two places, the walk from the root lists none twice. -/
theorem rootListed_nodup {start : PlanStart} {expanded rootListed : List String}
    (first : Traversal (start.registry.childDigests start.selected)
      [start.root.descriptor.digest] expanded [] rootListed) (once : start.NamesOnce) :
    rootListed.Nodup := by
  have distinct : expanded.Nodup := by
    have all := first.distinct List.nodup_nil
    rwa [List.append_nil] at all
  rw [(rootListed_perm first).nodup_iff, nodup_map_snd_iff (nodup_rootPlaces distinct)]
  intro left right digest leftMember rightMember
  exact once left right digest (names_of_rootPlaces first leftMember)
    (names_of_rootPlaces first rightMember)

namespace PlanStart.Traversed

variable {start : PlanStart} {expanded rootListed lookups laterExpanded laterListed : List String}

private theorem copies_of_lookup
    (traversed : start.Traversed expanded rootListed lookups laterExpanded laterListed)
    {subject : String} (member : subject ∈ lookups) :
    start.copyReferrers = true ∧ subject ∈ rootListed := by
  rw [traversed.lookedUp] at member
  cases copies : start.copyReferrers with
  | true =>
      rw [copies, if_pos rfl] at member
      exact ⟨rfl, member⟩
  | false =>
      rw [copies, if_neg Bool.false_ne_true] at member
      cases member

private theorem selects_of_lookup
    (traversed : start.Traversed expanded rootListed lookups laterExpanded laterListed)
    {subject : String} (member : subject ∈ lookups) : start.Selects subject := by
  have met := traversed.first.listed_met (traversed.copies_of_lookup member).2
  rw [List.append_nil] at met
  exact (selects_iff_expanded traversed.first).mpr met

private theorem lookup_of_selects
    (traversed : start.Traversed expanded rootListed lookups laterExpanded laterListed)
    {subject : String} (copies : start.copyReferrers = true) (selects : start.Selects subject) :
    subject ∈ lookups := by
  rw [traversed.lookedUp, copies, if_pos rfl]
  exact traversed.first.recorded subject ((selects_iff_expanded traversed.first).mp selects)

private theorem attaches_of_expanded
    (traversed : start.Traversed expanded rootListed lookups laterExpanded laterListed)
    {digest : String} (member : digest ∈ laterExpanded) : start.Attaches digest := by
  obtain ⟨referrer, named, reaches⟩ := traversed.later.reached digest member
  obtain ⟨subject, lookedUp, isReferrer⟩ := List.mem_flatMap.mp named
  exact ⟨(traversed.copies_of_lookup lookedUp).1, subject, traversed.selects_of_lookup lookedUp,
    referrer, isReferrer, reaches⟩

/-- Where nothing is listed twice, the walks from the referrers meet no manifest
that the walk from the root has expanded. -/
theorem expanded_of_attaches
    (traversed : start.Traversed expanded rootListed lookups laterExpanded laterListed)
    (disjoint : List.Disjoint rootListed laterListed) {digest : String}
    (attaches : start.Attaches digest) : digest ∈ laterExpanded := by
  obtain ⟨copies, subject, selects, referrer, isReferrer, reaches⟩ := attaches
  refine traversed.later.covers (fun node isListed wasSeen => ?_) ?_ reaches
  · exact disjoint (traversed.first.recorded node wasSeen) isListed
  · exact List.mem_flatMap.mpr ⟨subject, traversed.lookup_of_selects copies selects, isReferrer⟩

private theorem names_of_referrerPlaces
    (traversed : start.Traversed expanded rootListed lookups laterExpanded laterListed)
    {place : Place} {digest : String}
    (member : (place, digest) ∈ start.referrerPlaces lookups laterExpanded) :
    start.Names place digest := by
  rcases mem_referrerPlaces.mp member with
    ⟨subject, lookedUp, index, rfl, named⟩ | ⟨parent, isExpanded, index, rfl, named⟩
  · exact ⟨⟨(traversed.copies_of_lookup lookedUp).1, traversed.selects_of_lookup lookedUp⟩, named⟩
  · exact ⟨traversed.attaches_of_expanded isExpanded, named⟩

private theorem place_of_names
    (traversed : start.Traversed expanded rootListed lookups laterExpanded laterListed)
    (disjoint : List.Disjoint rootListed laterListed) {place : Place} {digest : String}
    (names : start.Names place digest) :
    (place, digest) ∈ start.rootPlaces expanded ++ start.referrerPlaces lookups laterExpanded := by
  rw [List.mem_append, mem_rootPlaces, mem_referrerPlaces]
  cases place with
  | root => exact Or.inl (Or.inl ⟨rfl, names⟩)
  | child parent index =>
      exact Or.inl (Or.inr
        ⟨parent, (selects_iff_expanded traversed.first).mp names.1, index, rfl, names.2⟩)
  | referrer subject index =>
      exact Or.inr (Or.inl
        ⟨subject, traversed.lookup_of_selects names.1.1 names.1.2, index, rfl, names.2⟩)
  | part parent index =>
      exact Or.inr (Or.inr
        ⟨parent, traversed.expanded_of_attaches disjoint names.1, index, rfl, names.2⟩)

private theorem listed_perm
    (traversed : start.Traversed expanded rootListed lookups laterExpanded laterListed) :
    (rootListed ++ laterListed).Perm
      ((start.rootPlaces expanded ++ start.referrerPlaces lookups laterExpanded).map Prod.snd) := by
  rw [List.map_append, map_snd_referrerPlaces]
  exact (rootListed_perm traversed.first).append traversed.later.account

private theorem lists_once_iff
    (traversed : start.Traversed expanded rootListed lookups laterExpanded laterListed) :
    (rootListed ++ laterListed).Nodup ∧ lookups.Nodup ↔ start.NamesOnce := by
  have distinct : expanded.Nodup := by
    have all := traversed.first.distinct List.nodup_nil
    rwa [List.append_nil] at all
  have laterDistinct : laterExpanded.Nodup :=
    (List.nodup_append'.mp (traversed.later.distinct distinct)).1
  have placesOnce := fun lookedUpOnce : lookups.Nodup =>
    nodup_map_snd_iff (@nodup_places start expanded lookups laterExpanded distinct lookedUpOnce
      laterDistinct)
  constructor
  · rintro ⟨listedOnce, lookedUpOnce⟩ left right digest leftNames rightNames
    have disjoint := (List.nodup_append'.mp listedOnce).2.2
    rw [traversed.listed_perm.nodup_iff, placesOnce lookedUpOnce] at listedOnce
    exact listedOnce left right digest (traversed.place_of_names disjoint leftNames)
      (traversed.place_of_names disjoint rightNames)
  · intro once
    have lookedUpOnce : lookups.Nodup := by
      rw [traversed.lookedUp]
      split
      · exact rootListed_nodup traversed.first once
      · exact List.nodup_nil
    refine ⟨?_, lookedUpOnce⟩
    rw [traversed.listed_perm.nodup_iff, placesOnce lookedUpOnce]
    have names : ∀ {place digest},
        (place, digest) ∈ start.rootPlaces expanded ++ start.referrerPlaces lookups laterExpanded →
          start.Names place digest := by
      intro place digest member
      rcases List.mem_append.mp member with inRoot | inReferrers
      · exact names_of_rootPlaces traversed.first inRoot
      · exact traversed.names_of_referrerPlaces inReferrers
    intro left right digest leftMember rightMember
    exact once left right digest (names leftMember) (names rightMember)

end PlanStart.Traversed

/-! ### The plan -/

/-- In any run, the lookups begin the records of a successful walk from the root. -/
theorem planGraph_lookups (registry : Registry) (selected : List String) (copyReferrers : Bool)
    (fuel : Nat) (root : Manifest) :
    (planGraph registry selected copyReferrers fuel root).1 = [] ∨
      ∃ walked, rootWalk registry selected fuel root = .ok walked ∧
        (planGraph registry selected copyReferrers fuel root).1 <+:
          recordDigests walked.records := by
  unfold planGraph rootWalk
  split
  · exact Or.inl rfl
  · rename_i walked succeeded
    cases copyReferrers with
    | false => exact Or.inl rfl
    | true => exact Or.inr ⟨walked, succeeded, discover_lookups walked.records walked⟩

private theorem PlanStart.lookups_nodup {start : PlanStart} {fuel : Nat}
    (addressed : start.registry.Addressed)
    (read : start.registry.manifestGet start.root.descriptor.digest = .ok start.root)
    (once : start.NamesOnce) :
    (planGraph start.registry start.selected start.copyReferrers fuel start.root).1.Nodup := by
  rcases planGraph_lookups start.registry start.selected start.copyReferrers fuel start.root with
    none | ⟨walked, succeeded, initial⟩
  · rw [none]
    exact List.nodup_nil
  · obtain ⟨expanded, added, all⟩ := walk_walked addressed fuel 0 start.root.descriptor.rootRecord
      start.root PlanState.empty walked read succeeded
    have listedOnce := rootListed_nodup all.traversal once
    have records : walked.records = start.root.descriptor.rootRecord :: added := all.records
    rw [records] at initial
    exact initial.sublist.nodup listedOnce

/-- The manifests of a plan are listed once, and their referrers looked up at most
once, exactly if no digest is named in two places; and then no plan, successful or
not, looks any up twice. -/
theorem plan_lists_once_iff {Ref : Type} {service : Service} {client : PlanClient Ref}
    (addressed : client.Addressed) {decoded : Option PlanRequest} {start : PlanStart}
    (prepared : service.prepare client decoded = .ok start) (fuel : Nat) :
    (∀ response, (service.plan client fuel decoded).2 = .ok response →
      ((recordDigests response.manifests).Nodup ∧ (service.plan client fuel decoded).1.Nodup ↔
        start.NamesOnce)) ∧
    (start.NamesOnce → (service.plan client fuel decoded).1.Nodup) := by
  obtain ⟨own, read⟩ := prepare_ok addressed prepared
  constructor
  · intro response planned
    obtain ⟨_, state, samePrepared, succeeded, lookups, rfl⟩ := plan_ok planned
    rw [prepared] at samePrepared
    cases samePrepared
    obtain ⟨walked, expanded, laterExpanded, laterAdded, first, lookedUp, later⟩ :=
      planGraph_walked own read succeeded
    have seen : walked.seen = expanded := by
      rw [first.seen]
      exact List.append_nil expanded
    have laterTraversal := later.traversal
    rw [seen] at laterTraversal
    have records : recordDigests (start.response state).manifests =
        recordDigests walked.records ++ recordDigests laterAdded := by
      change recordDigests state.records = _
      rw [later.records]
      exact List.map_append
    rw [records, lookups]
    exact PlanStart.Traversed.lists_once_iff ⟨first.traversal, lookedUp, laterTraversal⟩
  · intro once
    unfold Service.plan
    rw [prepared]
    exact start.lookups_nodup own read once

theorem plan_lists_two_images_once :
    ∃ start response,
      sampleService.prepare (samplePlanClient [amd64Child, arm64Child]) (some samplePlanRequest) =
        .ok start ∧
      (sampleService.plan (samplePlanClient [amd64Child, arm64Child]) 34
        (some samplePlanRequest)).2 = .ok response ∧
      (recordDigests response.manifests).Nodup ∧ start.NamesOnce := by
  have run : ((sampleService.plan (samplePlanClient [amd64Child, arm64Child]) 34
      (some samplePlanRequest)).2.toOption.map fun response => recordDigests response.manifests) =
      some ["sha256:aa", "sha256:bb", "sha256:cc", "sha256:dd"] := by
    decide +kernel
  have lookups : (sampleService.plan (samplePlanClient [amd64Child, arm64Child]) 34
      (some samplePlanRequest)).1.Nodup := by
    decide +kernel
  obtain ⟨response, planned, records⟩ := exists_answer run
  obtain ⟨start, _, prepared, -⟩ := plan_ok planned
  have once : (recordDigests response.manifests).Nodup := by
    rw [records]
    decide
  have named := ((plan_lists_once_iff (samplePlanClient_addressed _) prepared 34).1 response
    planned).mp ⟨once, lookups⟩
  exact ⟨start, response, prepared, planned, once, named⟩

theorem repeated_child_listed_twice :
    ∃ response, (sampleService.plan (samplePlanClient [amd64Child, amd64Child]) 34
        (some samplePlanRequest)).2 = .ok response ∧
      recordDigests response.manifests = ["sha256:aa", "sha256:bb", "sha256:bb", "sha256:dd"] ∧
      (sampleService.plan (samplePlanClient [amd64Child, amd64Child]) 34
        (some samplePlanRequest)).1 = ["sha256:aa", "sha256:bb", "sha256:bb"] ∧
      ¬ (recordDigests response.manifests).Nodup ∧
      ¬ (sampleService.plan (samplePlanClient [amd64Child, amd64Child]) 34
        (some samplePlanRequest)).1.Nodup := by
  have run : ((sampleService.plan (samplePlanClient [amd64Child, amd64Child]) 34
      (some samplePlanRequest)).2.toOption.map fun response => recordDigests response.manifests) =
      some ["sha256:aa", "sha256:bb", "sha256:bb", "sha256:dd"] := by
    decide +kernel
  have lookups : (sampleService.plan (samplePlanClient [amd64Child, amd64Child]) 34
      (some samplePlanRequest)).1 = ["sha256:aa", "sha256:bb", "sha256:bb"] := by
    decide +kernel
  obtain ⟨response, planned, records⟩ := exists_answer run
  refine ⟨response, planned, records, lookups, ?_, ?_⟩
  · rw [records]
    decide
  · rw [lookups]
    decide

end OciTransfer
