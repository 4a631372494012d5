import OciTransfer.Redaction

/-!
The assignments of secrets.

A rewritten assignment is an assignment again, and nothing else in it is one: no secret
word begins or ends inside another or inside the marker.  What stands before a rewritten
assignment therefore stays what it was.
-/

namespace OciTransfer

open Rewriting Reading

private theorem prefix_of_not_mem {word front more : List Char} {stop : Char}
    (missing : stop ∉ word)
    (starts : word <+: front ++ stop :: more) : word <+: front := by
  rcases List.prefix_or_prefix_of_prefix starts (List.prefix_append front _) with inside | beyond
  · exact inside
  · obtain ⟨part, rfl⟩ := beyond
    rw [List.prefix_append_right_inj] at starts
    cases part with
    | nil =>
        rw [List.append_nil]
    | cons first part =>
        rw [(List.cons_prefix_cons.mp starts).1] at missing
        exact absurd (List.mem_append_right front List.mem_cons_self) missing

namespace Dialect

variable {dialect : Dialect}

/-- A secret is assigned a value that begins with something else than the marker. -/
def Exposed (dialect : Dialect) (place : List Char) : Prop :=
  ∃ head char rest, place = head ++ char :: rest ∧ dialect.SecretLead head ∧
    dialect.valueChar char = true ∧ ¬ redacted <+: char :: rest

/-- The pattern refuses an assignment for what stands before it. -/
def Refused (dialect : Dialect) (admits : Option Char → List Char → Bool) (before : Option Char)
    (place : List Char) : Prop :=
  admits before place = false ∧ dialect.Exposed place

theorem Exposed.ledAt {place : List Char} (exposed : dialect.Exposed place) :
    LedAt dialect.SecretLead dialect.valueChar place := by
  obtain ⟨head, char, rest, isPlace, isLead, isValue, _⟩ := exposed
  exact ⟨head, char, rest, isPlace, isLead, isValue⟩

/-! ### Names -/

section Names

variable {name other : List Char}

private theorem name_eq_of_begins (isName : name.map dialect.fold ∈ secretWords)
    (isOther : other.map dialect.fold ∈ secretWords) (starts : name <+: other) : name = other := by
  have apart : Apart secretWords := apart_of_all (by decide)
  have sameWord := apart _ isName _ isOther (starts.map dialect.fold)
  apply starts.eq_of_length
  rw [← List.length_map dialect.fold, sameWord, List.length_map]

private theorem name_unique (isName : name.map dialect.fold ∈ secretWords)
    (isOther : other.map dialect.fold ∈ secretWords) {rest more : List Char}
    (same : name ++ rest = other ++ more) : name = other := by
  have isWhole : other <+: name ++ rest := by
    rw [same]
    exact List.prefix_append other more
  rcases List.prefix_or_prefix_of_prefix (List.prefix_append name rest) isWhole with starts | starts
  · exact name_eq_of_begins isName isOther starts
  · exact (name_eq_of_begins isOther isName starts).symm

private theorem not_name_of_append (isName : name.map dialect.fold ∈ secretWords) {gap : List Char}
    (notEmpty : gap ≠ []) : (gap ++ name).map dialect.fold ∉ secretWords := by
  intro isLonger
  have tested : (secretWords.all fun word => secretWords.all fun longer =>
      !word.isSuffixOf longer || word.length = longer.length) = true := by decide
  have test := List.all_eq_true.mp (List.all_eq_true.mp tested _ isName) _ isLonger
  have ends : (name.map dialect.fold).isSuffixOf ((gap ++ name).map dialect.fold) = true := by
    rw [List.isSuffixOf_iff_suffix, List.map_append]
    exact List.suffix_append _ _
  rw [ends, Bool.not_true, Bool.false_or, decide_eq_true_eq, List.length_map, List.length_map,
    List.length_append] at test
  have positive := List.length_pos_of_ne_nil notEmpty
  omega

def pause (dialect : Dialect) (char : Char) : Bool := dialect.space char || signs char

theorem not_letter_of_pause {char : Char} (isPause : dialect.pause char = true) :
    dialect.fold char ∉ secretWords.flatten := by
  rcases Bool.or_eq_true_iff.mp isPause with isSpace | isSign
  · exact not_letter_of_space isSpace
  · rcases sign_cases isSign with rfl | rfl
    · rw [dialect.fold_ascii '=' (by decide)]
      decide
    · rw [dialect.fold_ascii ':' (by decide)]
      decide

private theorem redacted_letter {char : Char} (member : char ∈ redacted) :
    ¬ dialect.space char = true ∧ signs char = false ∧ char ≠ ',' ∧ char ≠ ';' := by
  have tests := List.all_eq_true.mp (by decide : (redacted.all fun char => 33 ≤ char.toNat &&
    char.toNat < 127 && !signs char && char ≠ ',' && char ≠ ';') = true) char member
  simp only [Bool.and_eq_true, decide_eq_true_eq, Bool.not_eq_true'] at tests
  obtain ⟨⟨⟨⟨low, high⟩, notSign⟩, notComma⟩, notSemicolon⟩ := tests
  exact ⟨not_space low high, notSign, notComma, notSemicolon⟩

private theorem not_mem_redacted_of_pause {char : Char} (isPause : dialect.pause char = true) :
    char ∉ redacted := by
  intro member
  obtain ⟨notSpace, notSign, _⟩ := @redacted_letter dialect char member
  rcases Bool.or_eq_true_iff.mp isPause with isSpace | isSign
  · exact notSpace isSpace
  · rw [notSign] at isSign
    cases isSign

theorem valueChar_redacted {char : Char} (member : char ∈ redacted) :
    dialect.valueChar char = true := by
  obtain ⟨notSpace, _, notComma, notSemicolon⟩ := @redacted_letter dialect char member
  rw [Bool.not_eq_true] at notSpace
  unfold valueChar
  rw [notSpace, decide_eq_true notComma, decide_eq_true notSemicolon]
  rfl

theorem SecretLead.parts {head : List Char} (isLead : dialect.SecretLead head) :
    ∃ name tail, head = name ++ tail ∧ name.map dialect.fold ∈ secretWords ∧ tail ≠ [] ∧
      ∀ char ∈ tail, dialect.pause char = true := by
  obtain ⟨name, spaces, sign, more, isHead, isName, areSpaces, isSign, areMore⟩ := isLead
  refine ⟨name, spaces ++ sign :: more, isHead, isName, ?_, ?_⟩
  · exact List.append_ne_nil_of_right_ne_nil spaces (List.cons_ne_nil sign more)
  · intro char member
    apply Bool.or_eq_true_iff.mpr
    rcases List.mem_append.mp member with inSpaces | inRest
    · exact Or.inl (areSpaces char inSpaces)
    · rcases List.mem_cons.mp inRest with isIt | inMore
      · rw [isIt]
        exact Or.inr isSign
      · exact Or.inl (areMore char inMore)

theorem SecretLead.ne_nil {head : List Char} (isLead : dialect.SecretLead head) : head ≠ [] := by
  obtain ⟨name, tail, rfl, isName, _⟩ := isLead.parts
  exact List.append_ne_nil_of_left_ne_nil (name_ne_nil isName) tail

theorem SecretLead.closes {head : List Char} (isLead : dialect.SecretLead head) :
    ∃ char, head.getLast? = some char ∧ dialect.fold char ∉ secretWords.flatten := by
  obtain ⟨name, tail, rfl, _, notEmpty, arePauses⟩ := isLead.parts
  have isLast := List.getLast?_eq_some_getLast notEmpty
  rw [List.getLast?_append_of_ne_nil name notEmpty]
  exact ⟨_, isLast, not_letter_of_pause (arePauses _ (List.mem_of_getLast? isLast))⟩

theorem name_of_ledAt {place : List Char}
    (found : LedAt dialect.SecretLead dialect.valueChar place) :
    ∃ word ∈ secretWords, word <+: place.map dialect.fold := by
  obtain ⟨head, char, rest, rfl, isLead, _⟩ := found
  obtain ⟨name, tail, rfl, isName, _⟩ := isLead.parts
  rw [List.append_assoc, List.map_append]
  exact ⟨_, isName, List.prefix_append _ _⟩

theorem not_ledAt_of_stop {char : Char} (stops : dialect.valueChar char = false)
    (rest : List Char) : ¬ LedAt dialect.SecretLead dialect.valueChar (char :: rest) := by
  have notLetter : dialect.fold char ∉ secretWords.flatten := by
    unfold valueChar at stops
    cases isSpace : dialect.space char with
    | true => exact not_letter_of_space isSpace
    | false =>
        simp only [isSpace, Bool.not_false, Bool.true_and, Bool.and_eq_false_iff, ne_eq,
          decide_not, Bool.not_eq_false', decide_eq_true_eq] at stops
        rcases stops with rfl | rfl
        · rw [dialect.fold_ascii ',' (by decide)]
          decide
        · rw [dialect.fold_ascii ';' (by decide)]
          decide
  intro found
  obtain ⟨word, isWord, starts⟩ := name_of_ledAt found
  cases word with
  | nil => exact absurd isWord (by decide)
  | cons first word =>
      rw [List.map_cons, List.cons_prefix_cons] at starts
      rw [← starts.1] at notLetter
      exact notLetter (List.mem_flatten.mpr ⟨_, isWord, List.mem_cons_self⟩)

theorem SecretLead.not_mem_bracket {head : List Char} (isLead : dialect.SecretLead head) :
    '[' ∉ head := by
  obtain ⟨name, tail, rfl, isName, _, arePauses⟩ := isLead.parts
  intro member
  rcases List.mem_append.mp member with inName | inTail
  · exact not_mem_of_word (by decide) (by decide) isName inName
  · rcases Bool.or_eq_true_iff.mp (arePauses '[' inTail) with isSpace | isSign
    · exact not_space (by decide) (by decide) isSpace
    · exact absurd isSign (by decide)

private theorem SecretLead.name_of_equals {head front right : List Char}
    (isLead : dialect.SecretLead head)
    (across : head = front ++ '=' :: right) (notSpace : ∀ char, front.getLast? = some char →
      dialect.space char = false) : front.map dialect.fold ∈ secretWords := by
  obtain ⟨name, spaces, sign, more, isHead, isName, areSpaces, _, areMore⟩ := isLead
  have notEquals : ¬ dialect.space '=' = true := not_space (by decide) (by decide)
  have isFront : front = name ++ spaces := by
    rw [isHead, ← List.append_assoc] at across
    rcases List.append_eq_append_iff.mp across with ⟨part, isIt, isRest⟩ | ⟨part, isIt, isRest⟩
    · cases part with
      | nil => rw [isIt, List.append_nil]
      | cons first part =>
          rw [List.cons_append] at isRest
          have inMore : '=' ∈ more := by
            rw [(List.cons.inj isRest).2]
            exact List.mem_append_right part List.mem_cons_self
          exact absurd (areMore '=' inMore) notEquals
    · cases part with
      | nil => rw [isIt, List.append_nil]
      | cons first part =>
          rw [List.cons_append] at isRest
          have inside : '=' ∈ name ++ spaces := by
            rw [isIt, (List.cons.inj isRest).1]
            exact List.mem_append_right front List.mem_cons_self
          rcases List.mem_append.mp inside with inName | inSpaces
          · exact absurd inName (not_mem_of_word (by decide) (by decide) isName)
          · exact absurd (areSpaces '=' inSpaces) notEquals
  cases spaces with
  | nil =>
      rw [isFront, List.append_nil]
      exact isName
  | cons space spaces =>
      have isLast := List.getLast?_eq_some_getLast (List.cons_ne_nil space spaces)
      have isSpace := areSpaces _ (List.mem_of_getLast? isLast)
      have last : front.getLast? = some ((space :: spaces).getLast (List.cons_ne_nil _ _)) := by
        rw [isFront, List.getLast?_append_of_ne_nil name (List.cons_ne_nil _ _)]
        exact isLast
      rw [notSpace _ last] at isSpace
      cases isSpace

theorem SecretLead.within {head gap right rest : List Char} {char : Char}
    (isLead : dialect.SecretLead head) (isName : name.map dialect.fold ∈ secretWords)
    (notEmpty : gap ≠ []) (isPlace : gap ++ name ++ '=' :: right = head ++ char :: rest) :
    ∃ more, gap ++ name = head ++ char :: more ∧ rest = more ++ '=' :: right := by
  have atName : head ≠ gap ++ name := by
    intro isHead
    rw [isHead] at isLead
    exact not_lead_of_name (fun _ => SecretLead.closes) isName isLead
  rcases List.append_eq_append_iff.mp isPlace with ⟨part, isHead, isRest⟩ | ⟨part, isFront, isRest⟩
  · cases part with
    | nil =>
        rw [List.append_nil] at isHead
        exact absurd isHead atName
    | cons first part =>
        rw [List.cons_append] at isRest
        rw [← (List.cons.inj isRest).1] at isHead
        have whole : (gap ++ name).map dialect.fold ∈ secretWords := by
          apply isLead.name_of_equals isHead
          intro last isLast
          rw [List.getLast?_append_of_ne_nil gap (name_ne_nil isName)] at isLast
          exact not_space_of_letter (by decide)
            (fold_mem_flatten isName (List.mem_of_getLast? isLast))
        exact absurd whole (not_name_of_append isName notEmpty)
  · cases part with
    | nil =>
        rw [List.append_nil] at isFront
        exact absurd isFront.symm atName
    | cons first part =>
        rw [List.cons_append] at isRest
        rw [(List.cons.inj isRest).1]
        exact ⟨part, isFront, (List.cons.inj isRest).2⟩

theorem SecretLead.unmatched_behind {letter : Char} {front back : List Char}
    (isLead : dialect.SecretLead (letter :: front)) (isBack : back <:+ front) (notEmpty : back ≠ [])
    (text : List Char) : ¬ LedAt dialect.SecretLead dialect.valueChar (back ++ text) := by
  obtain ⟨name, tail, isHead, isName, someTail, arePauses⟩ := isLead.parts
  obtain ⟨first, part, rfl⟩ := List.exists_cons_of_ne_nil (name_ne_nil isName)
  have isFront : front = part ++ tail := (List.cons.inj isHead).2
  have inName : ∃ inside stop after, back ++ text = inside ++ stop :: after ∧ inside <:+ part ∧
      dialect.pause stop = true := by
    obtain ⟨before, isWhole⟩ := isBack
    rw [isFront] at isWhole
    rcases List.append_eq_append_iff.mp isWhole with ⟨inside, isPart, rfl⟩ | ⟨inside, _, rfl⟩
    · obtain ⟨stop, after, rfl⟩ := List.exists_cons_of_ne_nil someTail
      exact ⟨inside, stop, after ++ text, by rw [List.append_assoc]; rfl, ⟨before, isPart.symm⟩,
        arePauses stop List.mem_cons_self⟩
    · obtain ⟨stop, after, rfl⟩ := List.exists_cons_of_ne_nil notEmpty
      exact ⟨[], stop, after ++ text, rfl, List.nil_suffix,
        arePauses stop (List.mem_append_right inside List.mem_cons_self)⟩
  intro found
  obtain ⟨inside, stop, after, isPlace, isInside, isPause⟩ := inName
  obtain ⟨other, isOther, starts⟩ := name_of_ledAt found
  rw [isPlace, List.map_append, List.map_cons] at starts
  have missing : dialect.fold stop ∉ other := fun member =>
    not_letter_of_pause isPause (List.mem_flatten.mpr ⟨other, isOther, member⟩)
  have within := prefix_of_not_mem missing starts
  have tested : (secretWords.all fun word => word.tail.tails.all fun back =>
      secretWords.all fun other => !other.isPrefixOf back) = true := by decide
  have isTail : inside.map dialect.fold ∈ (((first :: part).map dialect.fold).tail).tails :=
    (List.mem_tails _ _).mpr (isInside.map dialect.fold)
  have test := List.all_eq_true.mp (List.all_eq_true.mp (List.all_eq_true.mp tested _ isName) _
    isTail) other isOther
  rw [List.isPrefixOf_iff_prefix.mpr within] at test
  cases test

end Names

/-! ### The pass -/

section Pass

variable {admits : Option Char → List Char → Bool} {before : Option Char}
  {matched place rest text : List Char}

theorem secret_none : (dialect.secretPattern admits).length? before place = none ↔
    (admits before place = true → ¬ LedAt dialect.SecretLead dialect.valueChar place) := by
  rw [← reads_none assignment_reads]
  exact pattern_none

theorem secret_unmatched (before : Option Char) (place : List Char)
    (absent : ¬ LedAt dialect.SecretLead dialect.valueChar place) :
    (dialect.secretPattern admits).length? before place = none :=
  secret_none.mpr fun _ => absent

theorem redactValue_of_name {name : List Char} (isName : name.map dialect.fold ∈ secretWords)
    (tail : List Char) : dialect.redactValue (name ++ tail) = name ++ '=' :: redacted := by
  have reads : Reads (literal dialect.fold secretWords) fun front _ =>
      front.map dialect.fold ∈ secretWords := literal_reads (apart_of_all (by decide))
  unfold redactValue
  rw [reads.taken_iff.mpr isName, Option.getD_some, List.take_left]

theorem secret_match (isMatch : (dialect.secretPattern admits).length? before (matched ++ rest) =
    some matched.length) : ∃ name stop tail, matched = name ++ stop :: tail ∧
      name.map dialect.fold ∈ secretWords ∧ dialect.pause stop = true ∧
        dialect.redactValue matched = name ++ '=' :: redacted := by
  obtain ⟨_, head, value, rfl, isLead, _⟩ := pattern_match.mp isMatch
  obtain ⟨name, tail, rfl, isName, someTail, arePauses⟩ := isLead.parts
  obtain ⟨stop, tail, rfl⟩ := List.exists_cons_of_ne_nil someTail
  refine ⟨name, stop, tail ++ value, List.append_assoc _ _ _, isName,
    arePauses stop List.mem_cons_self, ?_⟩
  rw [List.append_assoc]
  exact redactValue_of_name isName _

private theorem map_fold_assignment (name : List Char) :
    (name ++ '=' :: redacted).map dialect.fold = name.map dialect.fold ++ "=[redacted]".toList := by
  have marker : ('=' :: redacted).map dialect.fold = "=[redacted]".toList := by
    rw [map_fold_of_ascii (by decide)]
    decide
  rw [List.map_append, marker]

private theorem Kind.closedInside_secrets (kind : Kind dialect) :
    Pattern.ClosedInside (dialect.secretPattern admits) dialect.redactValue kind.occurs := by
  intro before matched rest isMatch front back after notEmpty isReplaced
  obtain ⟨name, stop, tail, _, isName, _, isValue⟩ := secret_match isMatch
  rw [isValue] at isReplaced
  have tested : (secretWords.all fun word => OciTransfer.clear leadingWords
      (word ++ "=[redacted]".toList)) = true := by decide
  apply kind.not_occurs_of_clear _ notEmpty after
  · exact front
  · rw [← isReplaced, map_fold_assignment]
    exact List.all_eq_true.mp tested _ isName

private theorem Kind.closedBefore_secrets (kind : Kind dialect) :
    Pattern.ClosedBefore (dialect.secretPattern admits) dialect.redactValue kind.occurs := by
  intro before matched rest isMatch gap after _ found
  obtain ⟨name, stop, tail, isMatched, isName, _, isValue⟩ := secret_match isMatch
  rw [isValue, List.append_assoc, ← List.append_assoc] at found
  rw [isMatched, List.append_assoc, ← List.append_assoc]
  exact kind.beforeEquals gap name _ _ isName found

/-- The fourth pass brings back nothing that an earlier one has taken out. -/
theorem Kind.absent_redactSecrets (kind : Kind dialect) (absent : Absent kind.occurs text) :
    Absent kind.occurs (dialect.redactSecrets admits text) := by
  apply Pattern.sub_absent kind.closedBefore_secrets kind.closedInside_secrets
  exact Pattern.kept_of_absent none absent

theorem closedBefore_assignments : Pattern.ClosedBefore (dialect.secretPattern admits)
    dialect.redactValue (LedAt dialect.SecretLead dialect.valueChar) := by
  intro before matched rest isMatch gap after notEmpty found
  obtain ⟨name, stop, tail, isMatched, isName, _, isValue⟩ := secret_match isMatch
  rw [isValue, List.append_assoc, ← List.append_assoc] at found
  obtain ⟨head, char, behind, isPlace, isLead, passes⟩ := found
  obtain ⟨more, isFront, _⟩ := isLead.within isName notEmpty isPlace
  refine ⟨head, char, more ++ (stop :: tail ++ rest), ?_, isLead, passes⟩
  rw [isMatched, List.append_assoc, ← List.append_assoc, isFront, List.append_assoc]
  rfl

theorem closedBefore_exposed :
    Pattern.ClosedBefore (dialect.secretPattern admits) dialect.redactValue dialect.Exposed := by
  intro before matched rest isMatch gap after notEmpty found
  obtain ⟨name, stop, tail, isMatched, isName, isPause, isValue⟩ := secret_match isMatch
  rw [isValue, List.append_assoc, ← List.append_assoc] at found
  obtain ⟨head, char, behind, isPlace, isLead, passes, unmarked⟩ := found
  obtain ⟨more, isFront, rfl⟩ := isLead.within isName notEmpty isPlace
  refine ⟨head, char, more ++ stop :: (tail ++ rest), ?_, isLead, passes, ?_⟩
  · rw [isMatched, List.append_assoc, ← List.append_assoc, isFront, List.append_assoc]
    rfl
  · intro marked
    rw [← List.cons_append] at marked unmarked
    have inside := prefix_of_not_mem (not_mem_redacted_of_pause isPause) marked
    exact unmarked (inside.trans (List.prefix_append _ _))

private theorem not_exposed_rewritten {name : List Char}
    (isName : name.map dialect.fold ∈ secretWords)
    (after : List Char) : ¬ dialect.Exposed (name ++ '=' :: redacted ++ after) := by
  intro exposed
  obtain ⟨head, char, rest, isPlace, ⟨other, spaces, sign, more, rfl, isOther, areSpaces, _,
    areMore⟩,
    isValue, unmarked⟩ := exposed
  rw [List.append_assoc, List.append_assoc] at isPlace
  have same := name_unique isName isOther isPlace
  rw [same, List.append_cancel_left_eq] at isPlace
  cases spaces with
  | cons space spaces =>
      have isEquals : '=' = space := (List.cons.inj isPlace).1
      have isSpace := areSpaces space List.mem_cons_self
      rw [← isEquals] at isSpace
      exact not_space (by decide) (by decide) isSpace
  | nil =>
      have isMarker := (List.cons.inj isPlace).2
      cases more with
      | cons space more =>
          have isBracket : '[' = space := (List.cons.inj isMarker).1
          have isSpace := areMore space List.mem_cons_self
          rw [← isBracket] at isSpace
          exact not_space (by decide) (by decide) isSpace
      | nil =>
          apply unmarked
          have isRest : redacted ++ after = char :: rest := isMarker
          rw [← isRest]
          exact List.prefix_append redacted after

theorem closedInside_exposed :
    Pattern.ClosedInside (dialect.secretPattern admits) dialect.redactValue dialect.Exposed := by
  intro before matched rest isMatch front back after notEmpty isReplaced
  obtain ⟨name, stop, tail, _, isName, _, isValue⟩ := secret_match isMatch
  rw [isValue] at isReplaced
  cases front with
  | nil =>
      rw [List.nil_append] at isReplaced
      rw [← isReplaced]
      exact not_exposed_rewritten isName after
  | cons first front =>
      intro exposed
      obtain ⟨word, isWord, starts⟩ := name_of_ledAt exposed.ledAt
      have tested : (secretWords.all fun word => OciTransfer.clear secretWords
          (word ++ "=[redacted]".toList).tail) = true := by decide
      have isClear := List.all_eq_true.mp tested _ isName
      rw [← map_fold_assignment, isReplaced, List.cons_append, List.map_cons, List.tail_cons,
        List.map_append] at isClear
      rw [List.map_append] at starts
      exact not_prefix_of_clear isClear (by simpa using notEmpty) isWord starts

end Pass

end Dialect

end OciTransfer
