import OciTransfer.DestinationSpelling
import OciTransfer.PlanCoverage

/-!
References without a tag and a digest, on both sides.

Python reads the groups of the pattern, Go looks where the last colon is.  A colon
of a port stands before the last slash, and one of a tag behind it.
-/

namespace OciTransfer

open TextSearch

section LastIndex

variable {front back : List Char} {char : Char}

private theorem lastIndex_lt_length (text : List Char) (char : Char) :
    lastIndex text char < text.length := by
  unfold lastIndex
  split <;> omega

private theorem lastIndex_append (absent : char ∉ back) :
    lastIndex (front ++ back) char = lastIndex front char := by
  have fromEnd : char ∉ back.reverse := fun member => absent (List.mem_reverse.mp member)
  unfold lastIndex
  rw [List.reverse_append, List.idxOf_append, if_neg fromEnd, List.length_append,
    List.length_reverse]
  by_cases member : char ∈ front
  · rw [if_pos (List.mem_append_left _ member), if_pos member]
    omega
  · rw [if_neg member, if_neg]
    intro inEither
    rcases List.mem_append.mp inEither with inFront | inBack
    · exact member inFront
    · exact absent inBack

private theorem le_lastIndex (front back : List Char) (char : Char) :
    (front.length : Int) ≤ lastIndex (front ++ char :: back) char := by
  unfold lastIndex
  rw [if_pos (List.mem_append_right _ List.mem_cons_self), List.reverse_append,
    List.reverse_cons, List.append_assoc, List.idxOf_append, List.length_append, List.length_cons]
  split
  · rename_i member
    have := List.idxOf_lt_length_of_mem member
    rw [List.length_reverse] at this
    omega
  · rw [List.singleton_append, List.idxOf_cons_self, List.length_reverse]
    omega

end LastIndex

/-- The test of `parseExplicitReference`. -/
def ExplicitTest (value : String) : Prop :=
  '@' ∈ value.toList ∨ lastIndex value.toList '/' < lastIndex value.toList ':'

instance : DecidablePred ExplicitTest := fun _ => inferInstanceAs (Decidable (_ ∨ _))

private theorem References.parseExplicitReference_eq {Ref : Type} (references : References Ref)
    (value : String) :
    references.parseExplicitReference value =
      if ExplicitTest value then references.parseReference value else none := by
  unfold parseExplicitReference
  by_cases explicit : ExplicitTest value
  · rw [if_pos explicit, if_neg]
    rintro ⟨absent, earlier⟩
    rcases explicit with digest | tag
    · exact absent digest
    · omega
  · rw [if_neg explicit]
    unfold ExplicitTest at explicit
    rw [not_or] at explicit
    exact if_pos ⟨explicit.1, by omega⟩

namespace Reference

variable {reference : Reference}

private theorem WellFormed.at_not_mem_registry (wellFormed : reference.WellFormed) :
    '@' ∉ reference.registry :=
  not_mem_registry wellFormed.1 (by decide) (by decide) (by decide)

private theorem WellFormed.not_mem_tag (wellFormed : reference.WellFormed) {tag : List Char}
    (tagged : reference.tag = some tag) : ':' ∉ tag ∧ '/' ∉ tag := by
  have matched := wellFormed.2.2.1
  rw [tagged, Option.all_some] at matched
  unfold tagPattern at matched
  rw [Bool.and_eq_true] at matched
  exact ⟨not_mem_of_all matched.2 (by decide), not_mem_of_all matched.2 (by decide)⟩

theorem WellFormed.not_mem_repository (wellFormed : reference.WellFormed) :
    ':' ∉ reference.repository ∧ '@' ∉ reference.repository :=
  ⟨OciTransfer.not_mem_repository wellFormed.2.1 (by decide) (by decide) (by decide),
    OciTransfer.not_mem_repository wellFormed.2.1 (by decide) (by decide) (by decide)⟩

private theorem text_of_tag {tag : List Char} (tagged : reference.tag = some tag)
    (unnamed : reference.digest = none) :
    reference.text = (reference.registry ++ '/' :: reference.repository) ++ ':' :: tag := by
  rw [text, tagged, unnamed, Option.elim_some, Option.elim_none, List.append_nil,
    List.append_assoc, List.cons_append]

private theorem text_of_neither (untagged : reference.tag = none)
    (unnamed : reference.digest = none) :
    reference.text = reference.registry ++ '/' :: reference.repository := by
  rw [text, untagged, unnamed, Option.elim_none, Option.elim_none, List.append_nil,
    List.append_nil]

variable {value : String}

private theorem explicit_of_digest (text : reference.text = value.toList)
    (named : reference.digest ≠ none) : ExplicitTest value := by
  obtain ⟨digest, digestEq⟩ := Option.ne_none_iff_exists'.mp named
  apply Or.inl
  rw [← text, Reference.text, digestEq, Option.elim_some]
  simp only [List.mem_append, List.mem_cons, true_or, or_true]

private theorem explicit_of_tag (wellFormed : reference.WellFormed)
    (text : reference.text = value.toList)
    (unnamed : reference.digest = none) (tagged : reference.tag ≠ none) : ExplicitTest value := by
  obtain ⟨tag, tagEq⟩ := Option.ne_none_iff_exists'.mp tagged
  obtain ⟨noColon, noSlash⟩ := wellFormed.not_mem_tag tagEq
  have noSlashBehind : '/' ∉ ':' :: tag := List.not_mem_cons_of_ne_of_not_mem (by decide) noSlash
  apply Or.inr
  rw [← text, text_of_tag tagEq unnamed, lastIndex_append noSlashBehind]
  calc
    lastIndex (reference.registry ++ '/' :: reference.repository) '/'
        < (reference.registry ++ '/' :: reference.repository).length := lastIndex_lt_length _ _
    _ ≤ _ := le_lastIndex _ _ _

private theorem not_explicit_of_neither (wellFormed : reference.WellFormed)
    (text : reference.text = value.toList) (untagged : reference.tag = none)
    (unnamed : reference.digest = none) : ¬ ExplicitTest value := by
  obtain ⟨noColon, noAt⟩ := wellFormed.not_mem_repository
  have noColonBehind : ':' ∉ '/' :: reference.repository :=
    List.not_mem_cons_of_ne_of_not_mem (by decide) noColon
  have parts := text_of_neither untagged unnamed
  unfold ExplicitTest
  rw [← text, parts, not_or]
  constructor
  · intro member
    rcases List.mem_append.mp member with inRegistry | behind
    · exact wellFormed.at_not_mem_registry inRegistry
    · exact List.not_mem_cons_of_ne_of_not_mem (by decide) noAt behind
  · rw [lastIndex_append noColonBehind, not_lt]
    calc
      lastIndex reference.registry ':'
          ≤ reference.registry.length := Int.le_of_lt (lastIndex_lt_length _ _)
      _ ≤ _ := le_lastIndex _ _ _

private theorem explicitTest_iff (wellFormed : reference.WellFormed)
    (text : reference.text = value.toList) :
    ExplicitTest value ↔ reference.tag ≠ none ∨ reference.digest ≠ none := by
  constructor
  · intro explicit
    by_contra implicit
    rw [not_or, not_not, not_not] at implicit
    exact not_explicit_of_neither wellFormed text implicit.1 implicit.2 explicit
  · intro named
    by_cases digest : reference.digest = none
    · rcases named with tagged | impossible
      · exact explicit_of_tag wellFormed text digest tagged
      · exact absurd digest impossible
    · exact explicit_of_digest text digest

end Reference

/-- A reference of the pattern with neither a tag nor a digest. -/
def Implicit (value : String) : Prop :=
  ∃ reference : Reference, reference.WellFormed ∧ reference.text = value.toList ∧
    reference.tag = none ∧ reference.digest = none

private theorem explicitTest_of_parsed {value : String} {result : String × String}
    (parsed : parseReference value = .ok result) : ExplicitTest value := by
  obtain ⟨reference, read⟩ := parsed_of_parseReference parsed
  obtain ⟨-, matched, explicit, -⟩ := parsedReference_eq_ok_iff.mp read
  obtain ⟨wellFormed, text⟩ := matchReference_eq_some.mp matched
  exact (Reference.explicitTest_iff wellFormed text).mpr explicit

theorem Implicit.refused {value : String} (implicit : Implicit value) :
    ∃ message, parseReference value = .error message := by
  cases parsed : parseReference value with
  | error message => exact ⟨message, rfl⟩
  | ok result =>
      obtain ⟨reference, wellFormed, text, untagged, unnamed⟩ := implicit
      exact absurd (explicitTest_of_parsed parsed)
        (Reference.not_explicit_of_neither wellFormed text untagged unnamed)

private theorem Implicit.not_explicit {value : String} (implicit : Implicit value) {Ref : Type}
    (references : References Ref) : references.parseExplicitReference value = none := by
  obtain ⟨reference, wellFormed, text, untagged, unnamed⟩ := implicit
  rw [references.parseExplicitReference_eq]
  exact if_neg (Reference.not_explicit_of_neither wellFormed text untagged unnamed)

private theorem Implicit.enqueue_refused {request : EnqueueRequest}
    (implicit : Implicit request.source ∨ Implicit request.destination) :
    ∃ raised, request.checked = .error raised := by
  unfold EnqueueRequest.checked
  cases source : parseReference request.source with
  | error message => exact ⟨_, rfl⟩
  | ok read =>
      rcases implicit with ofSource | ofDestination
      · obtain ⟨message, refused⟩ := ofSource.refused
        rw [source] at refused
        cases refused
      · obtain ⟨message, refused⟩ := ofDestination.refused
        rw [refused]
        exact ⟨_, rfl⟩

private theorem Implicit.plan_refused {Ref : Type} (service : Service) (client : PlanClient Ref)
    {request : PlanRequest} (implicit : Implicit request.source ∨ Implicit request.destination) :
    ∃ response, service.prepare client (some request) = .error response := by
  unfold Service.prepare
  dsimp only
  split
  · exact ⟨_, rfl⟩
  · cases source : client.references.parseExplicitReference request.source with
    | none => exact ⟨_, rfl⟩
    | some read =>
        rcases implicit with ofSource | ofDestination
        · rw [ofSource.not_explicit] at source
          cases source
        · rw [ofDestination.not_explicit]
          exact ⟨_, rfl⟩

/-- The sides agree on every reference of the pattern. -/
theorem explicit_references_agree :
    (∀ (reference : Reference) (value : String), reference.WellFormed →
      reference.text = value.toList →
        (ExplicitTest value ↔ reference.tag ≠ none ∨ reference.digest ≠ none)) ∧
    (∀ (value : String) (result : String × String), parseReference value = .ok result →
      ∀ (Ref : Type) (references : References Ref), ExplicitTest value ∧
        references.parseExplicitReference value = references.parseReference value) ∧
    (∀ request : EnqueueRequest, Implicit request.source ∨ Implicit request.destination →
      ∃ raised, request.checked = .error raised) ∧
    ∀ (Ref : Type) (service : Service) (client : PlanClient Ref) (request : PlanRequest),
      Implicit request.source ∨ Implicit request.destination →
        ∃ response, service.prepare client (some request) = .error response := by
  refine ⟨?_, ?_, ?_, ?_⟩
  · intro reference value wellFormed text
    exact Reference.explicitTest_iff wellFormed text
  · intro value result parsed Ref references
    have explicit := explicitTest_of_parsed parsed
    refine ⟨explicit, ?_⟩
    rw [references.parseExplicitReference_eq, if_pos explicit]
  · intro request implicit
    exact Implicit.enqueue_refused implicit
  · intro Ref service client request implicit
    exact Implicit.plan_refused service client implicit

/-- A port is no tag: the only colon stands before the last slash. -/
def portedReference : Reference :=
  { registry := "r.example:5000".toList
    repository := ['x']
    tag := none
    digest := none }

theorem explicit_references_agree_beside_a_port :
    ¬ ExplicitTest "r.example:5000/x" ∧ ExplicitTest "target.test/image:v1" ∧
    sampleReferences.parseExplicitReference "target.test/image:v1" =
      some ⟨"target.test", "image", "v1", ""⟩ ∧
    (∃ raised, (requestTo "r.example:5000/x").checked = .error raised) ∧
    ∃ response, sampleService.prepare (samplePlanClient [])
      (some { samplePlanRequest with destination := "r.example:5000/x" }) = .error response := by
  obtain ⟨ofForm, ofParsed, enqueued, planned⟩ := explicit_references_agree
  have matched : matchReference "r.example:5000/x".toList = some portedReference := by
    decide +kernel
  obtain ⟨wellFormed, text⟩ := matchReference_eq_some.mp matched
  have implicit : Implicit "r.example:5000/x" := ⟨portedReference, wellFormed, text, rfl, rfl⟩
  have parsed : parseReference "target.test/image:v1" =
      .ok ("target.test", "image") := by
    decide +kernel
  obtain ⟨explicit, agree⟩ := ofParsed _ _ parsed SampleRef sampleReferences
  refine ⟨fun explicit => ?_, explicit, agree.trans rfl, enqueued _ (Or.inr implicit),
    planned SampleRef _ _ _ (Or.inr implicit)⟩
  rcases (ofForm portedReference _ wellFormed text).mp explicit with tagged | named
  · exact tagged rfl
  · exact named rfl

end OciTransfer
