import OciTransfer.OciReference

/-!
The grammar of references, with the host and the port of a registry apart.

`parse_reference` tests the port after the match, on what follows the last colon of
the registry.  A registry without a port has no colon, and then its whole text takes
the place of the port.
-/

namespace OciTransfer

open TextSearch

/-- `registry[:port]/repository` with a tag, a digest or both. -/
structure ReferenceParts where
  host : List Char
  port : Option (List Char)
  repository : List Char
  tag : Option (List Char)
  digest : Option (List Char)
  deriving DecidableEq, Repr

def portInRange (port : List Char) : Bool :=
  decide (1 ≤ decimal port ∧ decimal port ≤ 65535)

namespace ReferenceParts

structure Documented (parts : ReferenceParts) : Prop where
  host : hostPattern parts.host = true
  port : ∀ port, parts.port = some port → portPattern port = true ∧ portInRange port = true
  repository : repositoryPattern parts.repository = true
  tag : parts.tag.all tagPattern = true
  digest : parts.digest.all digestPattern = true
  explicit : parts.tag ≠ none ∨ parts.digest ≠ none

def registry (parts : ReferenceParts) : List Char :=
  parts.host ++ parts.port.elim [] fun port => ':' :: port

def reference (parts : ReferenceParts) : Reference :=
  { registry := parts.registry
    repository := parts.repository
    tag := parts.tag
    digest := parts.digest }

def text (parts : ReferenceParts) : List Char := parts.reference.text

/-- The host is a number that is no port, and there is no port. -/
def NumericHost (parts : ReferenceParts) : Prop :=
  parts.port = none ∧ parts.host.all Char.isDigit = true ∧ portInRange parts.host = false

end ReferenceParts

namespace Reference

def parts (reference : Reference) : ReferenceParts :=
  { host := (cut ':' reference.registry).1
    port := (cut ':' reference.registry).2
    repository := reference.repository
    tag := reference.tag
    digest := reference.digest }

private theorem reference_parts (reference : Reference) :
    reference.parts.reference = reference := by
  have colon := (cut_parts ':' reference.registry).2
  unfold parts ReferenceParts.reference ReferenceParts.registry
  dsimp only
  rw [← colon]

end Reference

namespace ReferenceParts

variable {parts : ReferenceParts}

private theorem cut_registry (absent : ':' ∉ parts.host) :
    cut ':' parts.registry = (parts.host, parts.port) := by
  unfold registry
  cases parts.port with
  | none => rw [Option.elim_none, List.append_nil, cut_of_absent absent]
  | some port => exact cut_append absent port

private theorem colon_not_mem_host (host : hostPattern parts.host = true) : ':' ∉ parts.host := by
  unfold hostPattern at host
  simp only [Bool.and_eq_true] at host
  exact not_mem_of_all host.2 (by decide)

private theorem parts_reference (host : hostPattern parts.host = true) :
    parts.reference.parts = parts := by
  have colon := cut_registry (colon_not_mem_host host)
  unfold Reference.parts reference
  dsimp only
  rw [colon]

theorem Documented.wellFormed (documented : parts.Documented) : parts.reference.WellFormed := by
  refine ⟨?_, documented.repository, documented.tag, documented.digest⟩
  change registryPattern parts.registry = true
  unfold registryPattern
  rw [cut_registry (colon_not_mem_host documented.host), documented.host, Bool.true_and]
  cases port : parts.port with
  | none => rfl
  | some digits => exact (documented.port digits port).1

/-- The test after the match fails on documented parts only for a numeric host. -/
theorem Documented.portRefused_iff (documented : parts.Documented) :
    portRefused parts.registry = true ↔ parts.NumericHost := by
  have noColon := colon_not_mem_host documented.host
  unfold portRefused portText NumericHost
  rw [cut_registry noColon]
  cases port : parts.port with
  | none =>
      have wholeRegistry : parts.registry = parts.host := by
        rw [registry, port, Option.elim_none, List.append_nil]
      rw [wholeRegistry, Option.getD_none, Bool.and_eq_true, Bool.not_eq_true']
      exact ⟨fun refused => ⟨rfl, refused⟩, fun numeric => numeric.2⟩
  | some digits =>
      have inRange := (documented.port digits port).2
      unfold portInRange at inRange
      constructor
      · intro refused
        rw [Option.getD_some, inRange, Bool.not_true, Bool.and_false] at refused
        cases refused
      · rintro ⟨noPort, -⟩
        cases noPort

theorem Documented.unique {other : ReferenceParts} (one : parts.Documented)
    (two : other.Documented) (sameText : parts.text = other.text) : parts = other := by
  have first := matchReference_eq_some.mpr ⟨one.wellFormed, rfl⟩
  have second := matchReference_eq_some.mpr ⟨two.wellFormed, rfl⟩
  unfold text at sameText
  rw [sameText, second] at first
  rw [← parts_reference one.host, ← parts_reference two.host, Option.some.inj first]

end ReferenceParts

namespace Reference

variable {reference : Reference}

private theorem parts_documented (wellFormed : reference.WellFormed)
    (explicit : reference.tag ≠ none ∨ reference.digest ≠ none)
    (passed : portRefused reference.registry = false) : reference.parts.Documented := by
  obtain ⟨registry, repository, tag, digest⟩ := wellFormed
  unfold registryPattern at registry
  rw [Bool.and_eq_true] at registry
  obtain ⟨host, portMatched⟩ := registry
  refine ⟨host, ?_, repository, tag, digest, explicit⟩
  intro port portEq
  change (cut ':' reference.registry).2 = some port at portEq
  rw [portEq, Option.all_some] at portMatched
  refine ⟨portMatched, ?_⟩
  unfold portPattern at portMatched
  rw [Bool.and_eq_true] at portMatched
  unfold portRefused portText at passed
  rw [portEq, Option.getD_some, portMatched.2, Bool.true_and, Bool.not_eq_false'] at passed
  exact passed

end Reference

def ReferenceParts.Of (parts : ReferenceParts) (value : String) : Prop :=
  parts.Documented ∧ parts.text = value.toList

def ReferenceParts.result (parts : ReferenceParts) : String × String :=
  (String.ofList (parts.registry.map Char.toLower), String.ofList parts.repository)

/-- `parse_reference` reads the documented grammar at a value. -/
structure ReadsGrammar (value : String) : Prop where
  accepts : (∃ result, parseReference value = .ok result) ↔ ∃ parts : ReferenceParts, parts.Of value
  unique : ∀ one other : ReferenceParts, one.Of value → other.Of value → one = other
  returns : ∀ parts : ReferenceParts, parts.Of value → parseReference value = .ok parts.result

namespace ReferenceParts

variable {value : String} {parts : ReferenceParts}

theorem Of.matched (of : parts.Of value) :
    matchReference value.toList = some parts.reference :=
  matchReference_eq_some.mpr ⟨of.1.wellFormed, of.2⟩

theorem Of.parsedReference_eq_ok_iff (of : parts.Of value) (printable : Printable value) :
    parsedReference value = .ok parts.reference ↔ ¬ parts.NumericHost := by
  rw [OciTransfer.parsedReference_eq_ok_iff, ← of.1.portRefused_iff, Bool.not_eq_true]
  constructor
  · rintro ⟨-, -, -, passed⟩
    exact passed
  · intro passed
    exact ⟨printable, of.matched, of.1.explicit, passed⟩

private theorem parseReference_eq (parsed : parsedReference value = .ok parts.reference) :
    parseReference value = .ok parts.result := by
  unfold parseReference
  rw [parsed]
  rfl

end ReferenceParts

private theorem parts_of_parsed {value : String} {reference : Reference}
    (parsed : parsedReference value = .ok reference) : reference.parts.Of value := by
  obtain ⟨-, matched, explicit, passed⟩ := parsedReference_eq_ok_iff.mp parsed
  obtain ⟨wellFormed, text⟩ := matchReference_eq_some.mp matched
  refine ⟨Reference.parts_documented wellFormed explicit passed, ?_⟩
  unfold ReferenceParts.text
  rw [Reference.reference_parts]
  exact text

/-- The grammar is read where no numeric host takes the place of a port. -/
theorem reads_grammar_iff {value : String} (printable : Printable value) :
    ReadsGrammar value ↔
      ¬ ∃ parts : ReferenceParts, parts.Of value ∧ parts.NumericHost := by
  constructor
  · rintro reads ⟨parts, of, numeric⟩
    obtain ⟨reference, parsed⟩ := parsed_of_parseReference (reads.returns parts of)
    have same := of.matched
    rw [(parsedReference_eq_ok_iff.mp parsed).2.1] at same
    rw [Option.some.inj same] at parsed
    exact (of.parsedReference_eq_ok_iff printable).mp parsed numeric
  · intro noneNumeric
    have accepted : ∀ parts : ReferenceParts, parts.Of value →
        parseReference value = .ok parts.result := by
      intro parts of
      have passes : ¬ parts.NumericHost := fun numeric => noneNumeric ⟨parts, of, numeric⟩
      exact ReferenceParts.parseReference_eq
        ((of.parsedReference_eq_ok_iff printable).mpr passes)
    constructor
    · constructor
      · rintro ⟨result, parsed⟩
        obtain ⟨reference, read⟩ := parsed_of_parseReference parsed
        exact ⟨reference.parts, parts_of_parsed read⟩
      · rintro ⟨parts, of⟩
        exact ⟨parts.result, accepted parts of⟩
    · intro one other first second
      exact first.1.unique second.1 (first.2.trans second.2.symm)
    · exact accepted

theorem reads_grammar_iff_for_tagged_reference :
    ReadsGrammar "registry.example:5000/team/app:v1" ↔
      ¬ ∃ parts : ReferenceParts,
        parts.Of "registry.example:5000/team/app:v1" ∧ parts.NumericHost :=
  reads_grammar_iff (printable_iff.mpr (by decide))

def numericHostParts : ReferenceParts :=
  { host := "99999".toList
    port := none
    repository := "x".toList
    tag := some "v1".toList
    digest := none }

private theorem numericHostParts_of : numericHostParts.Of "99999/x:v1" := by
  refine ⟨?_, by decide⟩
  constructor
  · decide
  · intro port impossible
    cases impossible
  · decide
  · decide
  · decide
  · exact Or.inl (Option.some_ne_none _)

/-- The parts are documented, and their reference is refused. -/
theorem numeric_host_is_refused : Printable "99999/x:v1" ∧ ¬ ReadsGrammar "99999/x:v1" := by
  refine ⟨printable_iff.mpr (by decide), ?_⟩
  intro reads
  have refused : parseReference "99999/x:v1" = .error "invalid registry port" := by decide
  have accepted := reads.returns numericHostParts numericHostParts_of
  rw [refused] at accepted
  cases accepted

end OciTransfer
