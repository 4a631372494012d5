import OciTransfer.TextSearch
import Mathlib.Data.String.Basic

/-!
References to images, as `parse_reference` reads them.

The pattern of a reference leaves no choice: no registry contains a slash, no
tag an at sign and no repository a colon, so its groups are found by cutting
the text at the first of each.
-/

namespace OciTransfer

open TextSearch

/-- The groups of the pattern; a tag and a digest are optional. -/
structure Reference where
  registry : List Char
  repository : List Char
  tag : Option (List Char)
  digest : Option (List Char)
  deriving DecidableEq, Repr

/-- The texts `[A-Za-z0-9](?:[A-Za-z0-9.-]*[A-Za-z0-9])?`. -/
def hostPattern (host : List Char) : Bool :=
  host.head?.any Char.isAlphanum && host.getLast?.any Char.isAlphanum &&
    host.all fun char => char.isAlphanum || char = '.' || char = '-'

/-- `[0-9]{1,5}`. -/
def portPattern (port : List Char) : Bool :=
  decide (1 ≤ port.length ∧ port.length ≤ 5) && port.all Char.isDigit

/-- A host with an optional port; `localhost` alone is a host too. -/
def registryPattern (registry : List Char) : Bool :=
  hostPattern (cut ':' registry).1 && (cut ':' registry).2.all portPattern

def lowerAlphanum (char : Char) : Bool := char.isLower || char.isDigit

def componentSeparator (char : Char) : Bool := char = '.' || char = '_' || char = '-'

/-- `[a-z0-9]+(?:[._-][a-z0-9]+)*`. -/
def componentPattern (component : List Char) : Bool :=
  (component.splitOnP componentSeparator).all fun run => !run.isEmpty && run.all lowerAlphanum

/-- Components between slashes. -/
def repositoryPattern (repository : List Char) : Bool :=
  (repository.splitOn '/').all componentPattern

/-- `[A-Za-z0-9_][A-Za-z0-9_.-]{0,127}`. -/
def tagPattern (tag : List Char) : Bool :=
  decide (tag.length ≤ 128) && tag.head?.any (fun char => char.isAlphanum || char = '_') &&
    tag.all fun char => char.isAlphanum || char = '_' || char = '.' || char = '-'

def hexDigit (char : Char) : Bool := char.isDigit || ('a' ≤ char && char ≤ 'f')

/-- `sha256:[0-9a-f]{64}`. -/
def digestPattern (digest : List Char) : Bool :=
  digest.take 7 = "sha256:".toList && decide (digest.length = 71) && (digest.drop 7).all hexDigit

namespace Reference

def WellFormed (reference : Reference) : Prop :=
  registryPattern reference.registry = true ∧ repositoryPattern reference.repository = true ∧
    reference.tag.all tagPattern = true ∧ reference.digest.all digestPattern = true

instance : DecidablePred WellFormed := fun _ => inferInstanceAs (Decidable (_ ∧ _))

def text (reference : Reference) : List Char :=
  reference.registry ++ '/' :: (reference.repository ++
    ((reference.tag.elim [] fun tag => ':' :: tag) ++
      reference.digest.elim [] fun digest => '@' :: digest))

end Reference

/-- `_REFERENCE.fullmatch`. -/
def matchReference (value : List Char) : Option Reference :=
  match cut '/' value with
  | (_, none) => none
  | (registry, some rest) =>
      let named := cut '@' rest
      let tagged := cut ':' named.1
      let reference : Reference :=
        { registry := registry
          repository := tagged.1
          tag := tagged.2
          digest := named.2 }
      if reference.WellFormed then some reference else none

theorem not_mem_of_all {test : Char → Bool} {text : List Char} {char : Char}
    (all : text.all test = true) (fails : test char = false) : char ∉ text := by
  intro member
  rw [List.all_eq_true.mp all char member] at fails
  cases fails

theorem not_mem_registry {registry : List Char} (matched : registryPattern registry = true)
    {char : Char} (notOfHost : (char.isAlphanum || char = '.' || char = '-') = false)
    (noColon : char ≠ ':') (noDigit : char.isDigit = false) : char ∉ registry := by
  unfold registryPattern hostPattern at matched
  simp only [Bool.and_eq_true] at matched
  obtain ⟨⟨-, host⟩, port⟩ := matched
  have notInHost : char ∉ (cut ':' registry).1 := not_mem_of_all host notOfHost
  rw [(cut_parts ':' registry).2, List.mem_append]
  rintro (inHost | inPort)
  · exact notInHost inHost
  · cases digits : (cut ':' registry).2 with
    | none =>
        rw [digits] at inPort
        cases inPort
    | some back =>
        rw [digits] at inPort port
        unfold portPattern at port
        simp only [Option.all_some, Bool.and_eq_true] at port
        rcases List.mem_cons.mp inPort with colon | inBack
        · exact noColon colon
        · exact not_mem_of_all port.2 noDigit inBack

private theorem slash_not_mem_registry {registry : List Char}
    (matched : registryPattern registry = true) :
    '/' ∉ registry :=
  not_mem_registry matched (by decide) (by decide) (by decide)

theorem not_mem_repository {repository : List Char} (matched : repositoryPattern repository = true)
    {char : Char} (noLetter : lowerAlphanum char = false) (noSlash : (char == '/') = false)
    (noSeparator : componentSeparator char = false) : char ∉ repository := by
  intro member
  unfold repositoryPattern at matched
  rw [List.splitOn_eq_splitOnP] at matched
  obtain ⟨component, listed, within⟩ := mem_splitOnP (fun char => char == '/') member noSlash
  have isComponent := List.all_eq_true.mp matched component listed
  unfold componentPattern at isComponent
  obtain ⟨run, inComponent, inRun⟩ := mem_splitOnP componentSeparator within noSeparator
  have isRun := List.all_eq_true.mp isComponent run inComponent
  exact not_mem_of_all ((Bool.and_eq_true _ _).mp isRun).2 noLetter inRun

private theorem at_not_mem_tag {tag : List Char} (matched : tagPattern tag = true) : '@' ∉ tag := by
  unfold tagPattern at matched
  simp only [Bool.and_eq_true] at matched
  exact not_mem_of_all matched.2 (by decide)

namespace Reference

variable {reference : Reference}

private theorem WellFormed.at_not_mem (wellFormed : reference.WellFormed) :
    '@' ∉ reference.repository ++ reference.tag.elim [] fun tag => ':' :: tag := by
  obtain ⟨-, repository, tag, -⟩ := wellFormed
  rw [List.mem_append]
  rintro (inRepository | inTag)
  · exact not_mem_repository repository (by decide) (by decide) (by decide) inRepository
  · cases tagEq : reference.tag with
    | none =>
        rw [tagEq] at inTag
        cases inTag
    | some text =>
        rw [tagEq] at inTag tag
        rcases List.mem_cons.mp inTag with impossible | inText
        · cases impossible
        · exact at_not_mem_tag tag inText

private theorem cut_tag (absent : ':' ∉ reference.repository) :
    cut ':' (reference.repository ++ reference.tag.elim [] fun tag => ':' :: tag) =
      (reference.repository, reference.tag) := by
  cases reference.tag with
  | none => rw [Option.elim_none, List.append_nil, cut_of_absent absent]
  | some tag => exact cut_append absent tag

private theorem cut_digest {named : List Char} (absent : '@' ∉ named) :
    cut '@' (named ++ reference.digest.elim [] fun digest => '@' :: digest) =
      (named, reference.digest) := by
  cases reference.digest with
  | none => rw [Option.elim_none, List.append_nil, cut_of_absent absent]
  | some digest => exact cut_append absent digest

end Reference

/-- The match of a text is the one reference of the pattern with that text. -/
theorem matchReference_eq_some {value : List Char} {reference : Reference} :
    matchReference value = some reference ↔
      reference.WellFormed ∧ reference.text = value := by
  constructor
  · intro matched
    have slashes := (cut_parts '/' value).2
    unfold matchReference at matched
    split at matched
    · cases matched
    · rename_i registry rest cutEq
      rw [cutEq] at slashes
      dsimp only at matched
      split at matched
      · rename_i wellFormed
        cases matched
        refine ⟨wellFormed, ?_⟩
        have ats := (cut_parts '@' rest).2
        have colons := (cut_parts ':' (cut '@' rest).1).2
        rw [slashes]
        unfold Reference.text
        simp only [Option.elim_some]
        rw [← List.append_assoc (cut ':' (cut '@' rest).1).1, ← colons, ← ats]
      · cases matched
  · rintro ⟨wellFormed, rfl⟩
    have noColon : ':' ∉ reference.repository :=
      not_mem_repository wellFormed.2.1 (by decide) (by decide) (by decide)
    unfold matchReference Reference.text
    rw [cut_append (slash_not_mem_registry wellFormed.1), ← List.append_assoc]
    simp only [Reference.cut_digest wellFormed.at_not_mem, Reference.cut_tag noColon]
    exact if_pos wellFormed

def decimal (digits : List Char) : Nat :=
  digits.foldl (fun number digit => number * 10 + (digit.toNat - '0'.toNat)) 0

/-- `registry.rpartition(":")[2]`: the port, or the whole registry if it has none. -/
def portText (registry : List Char) : List Char :=
  (cut ':' registry).2.getD registry

/-- `port.isdigit() and not 1 <= int(port) <= 65535`. -/
def portRefused (registry : List Char) : Bool :=
  (portText registry).all Char.isDigit && !decide (1 ≤ decimal (portText registry) ∧
    decimal (portText registry) ≤ 65535)

/-- What `parse_reference` accepts, with all groups of the match. -/
def parsedReference (value : String) : Except String Reference :=
  if 512 < value.toList.length || value.toList.any (fun char => char.toNat < 33) then
    .error "invalid fully qualified OCI reference"
  else
    match matchReference value.toList with
    | none =>
        .error "OCI reference must be fully qualified and include a tag or sha256 digest"
    | some reference =>
        if reference.tag.isNone && reference.digest.isNone then
          .error "OCI reference must be fully qualified and include a tag or sha256 digest"
        else if portRefused reference.registry then .error "invalid registry port"
        else .ok reference

namespace Reference

def host (reference : Reference) : List Char := reference.registry.map Char.toLower

end Reference

def parseReference (value : String) : Except String (String × String) :=
  (parsedReference value).map fun reference =>
    (String.ofList reference.host, String.ofList reference.repository)

/-- The first test of `parse_reference`. -/
def Printable (value : String) : Prop :=
  value.toList.length ≤ 512 ∧ ∀ char ∈ value.toList, 33 ≤ char.toNat

theorem printable_iff {value : String} :
    Printable value ↔
      ¬ (512 < value.toList.length || value.toList.any fun char => char.toNat < 33) = true := by
  rw [Bool.or_eq_true, not_or, decide_eq_true_eq, not_lt, List.any_eq_true, not_exists]
  unfold Printable
  simp only [not_and, decide_eq_true_eq, not_lt]

/-- The function accepts the match that is explicit and passes the test of the port. -/
theorem parsedReference_eq_ok_iff {value : String} {reference : Reference} :
    parsedReference value = .ok reference ↔
      Printable value ∧ matchReference value.toList = some reference ∧
        (reference.tag ≠ none ∨ reference.digest ≠ none) ∧
          portRefused reference.registry = false := by
  rw [printable_iff]
  unfold parsedReference
  split
  · rename_i refused
    constructor
    · intro parsed
      cases parsed
    · rintro ⟨printable, -⟩
      exact absurd refused printable
  · rename_i printable
    rw [and_iff_right printable]
    cases matched : matchReference value.toList with
    | none =>
        constructor
        · intro parsed
          cases parsed
        · rintro ⟨found, -⟩
          cases found
    | some read =>
        dsimp only
        by_cases implicit : (read.tag.isNone && read.digest.isNone) = true
        · rw [if_pos implicit]
          rw [Bool.and_eq_true, Option.isNone_iff_eq_none, Option.isNone_iff_eq_none] at implicit
          constructor
          · intro parsed
            cases parsed
          · rintro ⟨same, explicit, -⟩
            cases same
            rcases explicit with tagged | named
            · exact absurd implicit.1 tagged
            · exact absurd implicit.2 named
        · rw [if_neg implicit]
          rw [Bool.and_eq_true, Option.isNone_iff_eq_none, Option.isNone_iff_eq_none,
            not_and_or] at implicit
          by_cases refused : portRefused read.registry = true
          · rw [if_pos refused]
            constructor
            · intro parsed
              cases parsed
            · rintro ⟨same, -, passed⟩
              cases same
              rw [refused] at passed
              cases passed
          · rw [if_neg refused]
            constructor
            · intro parsed
              cases parsed
              exact ⟨rfl, implicit, Bool.eq_false_iff.mpr refused⟩
            · rintro ⟨same, -, -⟩
              cases same
              rfl

private theorem parsedReference_text {value : String} {reference : Reference}
    (parsed : parsedReference value = .ok reference) : reference.text = value.toList := by
  obtain ⟨-, matched, -⟩ := parsedReference_eq_ok_iff.mp parsed
  exact (matchReference_eq_some.mp matched).2

theorem parsed_of_parseReference {value : String} {result : String × String}
    (parsed : parseReference value = .ok result) :
    ∃ reference, parsedReference value = .ok reference := by
  unfold parseReference at parsed
  cases read : parsedReference value with
  | error refusal =>
      rw [read] at parsed
      cases parsed
  | ok reference => exact ⟨reference, rfl⟩

theorem parsedReference_eq_iff {one other : String} {first second : Reference}
    (firstParsed : parsedReference one = .ok first)
    (secondParsed : parsedReference other = .ok second) :
    one = other ↔ first = second := by
  constructor
  · rintro rfl
    rw [firstParsed] at secondParsed
    exact Except.ok.inj secondParsed
  · rintro rfl
    apply String.toList_injective
    rw [← parsedReference_text firstParsed, ← parsedReference_text secondParsed]

end OciTransfer
