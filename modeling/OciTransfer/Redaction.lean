import OciTransfer.Sanitizing
import Mathlib.Data.List.Infix

/-!
What is gone from a text for good.

URLs, authorisations and license keys are recognised by the words that they begin with.
No part of a marker and no part of a rewritten assignment can begin such a word, and what
would end in a marker or behind one ended before the text that the marker stands for.  So
no pass brings back what an earlier one has taken out.
-/

namespace OciTransfer

open Rewriting Reading

/-- None of the words can begin in the text, whatever follows it. -/
def clear (words : List (List Char)) (text : List Char) : Bool :=
  text.tails.all fun place =>
    place.isEmpty || words.all fun word => !word.isPrefixOf place && !place.isPrefixOf word

theorem not_prefix_of_clear {words : List (List Char)} {front back after word : List Char}
    (isClear : clear words (front ++ back) = true) (notEmpty : back ≠ [])
    (member : word ∈ words) : ¬ word <+: back ++ after := by
  have isTail := (List.mem_tails back (front ++ back)).mpr (List.suffix_append front back)
  have tests := List.all_eq_true.mp isClear back isTail
  rw [Bool.or_eq_true, List.isEmpty_iff, or_iff_right notEmpty] at tests
  have apart := List.all_eq_true.mp tests word member
  rw [Bool.and_eq_true, Bool.not_eq_true', Bool.not_eq_true', ← Bool.not_eq_true,
    ← Bool.not_eq_true, List.isPrefixOf_iff_prefix, List.isPrefixOf_iff_prefix] at apart
  intro starts
  rcases List.prefix_or_prefix_of_prefix starts (List.prefix_append back after) with inside | beyond
  · exact apart.1 inside
  · exact apart.2 beyond

/-- The words that begin what is taken out. -/
def leadingWords : List (List Char) := urlWords ++ authWords ++ ["onprm".toList]

namespace Dialect

variable {dialect : Dialect}

section Letters

variable {words : List (List Char)} {name : List Char} {char : Char}

theorem fold_mem_flatten (isName : name.map dialect.fold ∈ words) (member : char ∈ name) :
    dialect.fold char ∈ words.flatten :=
  List.mem_flatten.mpr ⟨_, isName, List.mem_map_of_mem member⟩

def printed (words : List (List Char)) : Bool :=
  words.flatten.all fun char => 33 ≤ char.toNat && char.toNat < 127

theorem not_space_of_letter (isPrinted : printed words = true)
    (letter : dialect.fold char ∈ words.flatten) : dialect.space char = false := by
  rw [← Bool.not_eq_true]
  intro isSpace
  rw [dialect.fold_space char isSpace] at letter
  have range := List.all_eq_true.mp isPrinted char letter
  rw [Bool.and_eq_true, decide_eq_true_eq, decide_eq_true_eq] at range
  exact not_space range.1 range.2 isSpace

theorem not_letter_of_space (isSpace : dialect.space char = true) :
    dialect.fold char ∉ secretWords.flatten := by
  intro letter
  rw [not_space_of_letter (by decide) letter] at isSpace
  cases isSpace

theorem not_mem_of_word (ascii : char.toNat < 128)
    (missing : words.flatten.contains char.toLower = false)
    (isName : name.map dialect.fold ∈ words) : char ∉ name := by
  intro member
  have letter := fold_mem_flatten isName member
  rw [dialect.fold_ascii char ascii] at letter
  rw [List.contains_iff_mem.mpr letter] at missing
  cases missing

theorem map_fold_of_ascii {text : List Char}
    (ascii : (text.all fun char => char.toNat < 128) = true) :
    text.map dialect.fold = text.map Char.toLower := by
  apply List.map_congr_left
  intro char member
  exact dialect.fold_ascii char (of_decide_eq_true (List.all_eq_true.mp ascii char member))

theorem name_ne_nil (isName : name.map dialect.fold ∈ secretWords) : name ≠ [] := by
  rintro rfl
  rw [List.map_nil] at isName
  exact absurd isName (by decide)

end Letters

/-! ### What leads, and what must follow it -/

section Led

variable {lead : List Char → Prop} {test : Char → Bool}

/-- What is found across a letter that cannot lead is found before it, or led to it. -/
theorem ledAt_split {bad : Char} (notIn : ∀ head, lead head → bad ∉ head)
    {front right : List Char} (found : LedAt lead test (front ++ bad :: right)) :
    (∀ rest, LedAt lead test (front ++ rest)) ∨ (lead front ∧ test bad = true) := by
  obtain ⟨head, char, rest, isPlace, isLead, passes⟩ := found
  rcases List.append_eq_append_iff.mp isPlace with ⟨more, isHead, isBad⟩ | ⟨more, isFront, isChar⟩
  · cases more with
    | nil =>
        rw [List.append_nil] at isHead
        rw [List.nil_append] at isBad
        rw [isHead] at isLead
        rw [← (List.cons.inj isBad).1] at passes
        exact Or.inr ⟨isLead, passes⟩
    | cons first more =>
        rw [List.cons_append] at isBad
        have inHead : bad ∈ head := by
          rw [isHead, (List.cons.inj isBad).1]
          exact List.mem_append_right front List.mem_cons_self
        exact absurd inHead (notIn head isLead)
  · cases more with
    | nil =>
        rw [List.append_nil] at isFront
        rw [List.nil_append] at isChar
        rw [← isFront] at isLead
        rw [(List.cons.inj isChar).1] at passes
        exact Or.inr ⟨isLead, passes⟩
    | cons first more =>
        left
        intro rest
        rw [List.cons_append] at isChar
        rw [(List.cons.inj isChar).1] at passes
        exact ⟨head, first, more ++ rest, by rw [isFront, List.append_assoc]; rfl, isLead, passes⟩

theorem ledAt_append {place : List Char} (more : List Char) (found : LedAt lead test place) :
    LedAt lead test (place ++ more) := by
  obtain ⟨head, char, rest, rfl, isLead, passes⟩ := found
  exact ⟨head, char, rest ++ more, by rw [List.append_assoc]; rfl, isLead, passes⟩

theorem not_lead_of_name (closes : ∀ head, lead head → ∃ char, head.getLast? = some char ∧
    dialect.fold char ∉ secretWords.flatten) {gap name : List Char}
    (isName : name.map dialect.fold ∈ secretWords) : ¬ lead (gap ++ name) := by
  intro isLead
  obtain ⟨char, isLast, isClose⟩ := closes _ isLead
  rw [List.getLast?_append_of_ne_nil gap (name_ne_nil isName)] at isLast
  exact isClose (fold_mem_flatten isName (List.mem_of_getLast? isLast))

end Led

/-- What a pass takes out of a text, and the marker that it leaves. -/
structure Kind (dialect : Dialect) where
  occurs : List Char → Prop
  pattern : Pattern Char
  marker : List Char
  unmatched : ∀ before place, pattern.length? before place = none ↔ ¬ occurs place
  blind : ∀ before other place, pattern.length? before place = pattern.length? other place
  begins : ∀ place, occurs place → ∃ word ∈ leadingWords, word <+: place.map dialect.fold
  append : ∀ place more, occurs place → occurs (place ++ more)
  beforeMarker : ∀ gap right char rest, dialect.space char = false →
    occurs (gap ++ '[' :: right) → occurs (gap ++ char :: rest)
  beforeEquals : ∀ gap name right rest, name.map dialect.fold ∈ secretWords →
    occurs (gap ++ name ++ '=' :: right) → occurs (gap ++ name ++ rest)
  bracketed : marker.head? = some '['
  clear : clear leadingWords (marker.map dialect.fold) = true

namespace Kind

variable (kind other : Kind dialect) (kinds : List (Kind dialect))

def redact (text : List Char) : List Char := kind.pattern.sub (fun _ => kind.marker) none text

theorem head_of_occurs {place : List Char} (found : kind.occurs place) :
    ∃ char rest, place = char :: rest ∧ dialect.space char = false := by
  obtain ⟨word, member, starts⟩ := kind.begins place found
  cases word with
  | nil => exact absurd member (by decide)
  | cons first more =>
      cases place with
      | nil => exact absurd (List.prefix_nil.mp starts) (List.cons_ne_nil first more)
      | cons char rest =>
          rw [List.map_cons, List.cons_prefix_cons] at starts
          have letter : dialect.fold char ∈ leadingWords.flatten := by
            rw [← starts.1]
            exact List.mem_flatten.mpr ⟨_, member, List.mem_cons_self⟩
          exact ⟨char, rest, rfl, not_space_of_letter (by decide) letter⟩

theorem not_occurs_of_clear {front back : List Char}
    (isClear : OciTransfer.clear leadingWords ((front ++ back).map dialect.fold) = true)
    (notEmpty : back ≠ []) (after : List Char) : ¬ kind.occurs (back ++ after) := by
  intro found
  obtain ⟨word, member, starts⟩ := kind.begins _ found
  rw [List.map_append] at isClear starts
  exact not_prefix_of_clear isClear (by simpa using notEmpty) member starts

private theorem closedInside_marker :
    Pattern.ClosedInside other.pattern (fun _ => other.marker) kind.occurs := by
  intro before matched rest _ front back after notEmpty isMarker
  apply kind.not_occurs_of_clear _ notEmpty after
  · exact front
  · rw [← isMarker]
    exact other.clear

private theorem closedBefore_marker :
    Pattern.ClosedBefore other.pattern (fun _ => other.marker) kind.occurs := by
  intro before matched rest isMatch gap after _ found
  obtain ⟨inside, isMarker⟩ := List.head?_eq_some_iff.mp other.bracketed
  have occurring : other.occurs (matched ++ rest) := by
    by_contra absent
    rw [(other.unmatched before _).mpr absent] at isMatch
    cases isMatch
  obtain ⟨char, more, isPlace, notSpace⟩ := other.head_of_occurs occurring
  rw [isMarker] at found
  rw [isPlace]
  exact kind.beforeMarker gap _ char more notSpace found

theorem redact_keep {letter : Char} {rest : List Char} (absent : ¬ kind.occurs (letter :: rest)) :
    kind.redact (letter :: rest) = letter :: kind.redact rest := by
  unfold redact
  rw [Pattern.sub_keep ((kind.unmatched none _).mpr absent),
    Pattern.sub_before kind.blind (some letter) none]

private theorem redact_append {front rest : List Char} (absent : AbsentIn kind.occurs front rest) :
    kind.redact (front ++ rest) = front ++ kind.redact rest := by
  unfold redact
  rw [Pattern.sub_append_of_unmatched (fun before place => (kind.unmatched before place).mpr) rest
    absent none, Pattern.sub_before kind.blind _ none]

theorem redact_hit {matched rest : List Char}
    (isMatch : kind.pattern.length? none (matched ++ rest) = some matched.length) :
    kind.redact (matched ++ rest) = kind.marker ++ kind.redact rest := by
  unfold redact
  rw [Pattern.sub_hit isMatch, Pattern.sub_before kind.blind _ none]

theorem redact_clear {front : List Char}
    (isClear : OciTransfer.clear leadingWords (front.map dialect.fold) = true) (rest : List Char) :
    kind.redact (front ++ rest) = front ++ kind.redact rest := by
  apply kind.redact_append
  rintro back ⟨first, rfl⟩ notEmpty
  exact kind.not_occurs_of_clear isClear notEmpty rest

theorem not_occurs_redact {letter : Char} {rest : List Char}
    (absent : ¬ kind.occurs (letter :: rest)) : ¬ kind.occurs (letter :: other.redact rest) := by
  intro found
  unfold redact at found
  rw [Pattern.sub_before other.blind none (some letter)] at found
  exact absent (Pattern.occurs_of_sub (kind.closedBefore_marker other) (some letter) rest
    (List.cons_ne_nil letter []) found)

/-- A pass takes out all of what it looks for. -/
theorem absent_redact (text : List Char) : Absent kind.occurs (kind.redact text) := by
  apply Pattern.sub_absent (kind.closedBefore_marker kind) (kind.closedInside_marker kind)
  exact Pattern.kept_of_unmatched (fun before place => (kind.unmatched before place).mp) none text

/-- No other pass brings it back. -/
theorem absent_of_redact {text : List Char} (absent : Absent kind.occurs text) :
    Absent kind.occurs (other.redact text) := by
  apply Pattern.sub_absent (kind.closedBefore_marker other) (kind.closedInside_marker other)
  exact Pattern.kept_of_absent none absent

private theorem redact_of_absent {text : List Char} (absent : Absent kind.occurs text) :
    kind.redact text = text :=
  Pattern.sub_of_absent (fun before place => (kind.unmatched before place).mpr) absent

def redactAll (text : List Char) : List Char := kinds.foldl (fun text kind => kind.redact text) text

private theorem absent_of_redactAll {text : List Char} (absent : Absent kind.occurs text) :
    Absent kind.occurs (redactAll kinds text) := by
  induction kinds generalizing text with
  | nil => exact absent
  | cons first kinds ih => exact ih (kind.absent_of_redact first absent)

theorem absent_redactAll (text : List Char) :
    ∀ kind ∈ kinds, Absent kind.occurs (redactAll kinds text) := by
  induction kinds generalizing text with
  | nil =>
      intro kind member
      cases member
  | cons first kinds ih =>
      intro kind member
      rcases List.mem_cons.mp member with isFirst | later
      · rw [isFirst]
        exact first.absent_of_redactAll kinds (first.absent_redact text)
      · exact ih (first.redact text) kind later

theorem redactAll_of_absent {text : List Char}
    (absent : ∀ kind ∈ kinds, Absent kind.occurs text) : redactAll kinds text = text := by
  induction kinds with
  | nil => rfl
  | cons first kinds ih =>
      have here := first.redact_of_absent (absent first List.mem_cons_self)
      have later := ih fun kind member => absent kind (List.mem_cons_of_mem first member)
      unfold redactAll at later ⊢
      rw [List.foldl_cons, here, later]

theorem redactAll_ne_nil {text : List Char} (notEmpty : text ≠ []) : redactAll kinds text ≠ [] := by
  induction kinds generalizing text with
  | nil => exact notEmpty
  | cons first kinds ih =>
      apply ih
      apply Pattern.sub_ne_nil _ none notEmpty
      intro _ isNil
      have isBracket := first.bracketed
      rw [isNil] at isBracket
      cases isBracket

end Kind

/-! ### The three kinds -/

section Led

variable {lead : List Char → Prop}

/-- Letters that lead, and then what is not a space. -/
def ledKind {reader : List Char → Option Nat} (reads : Reads reader (Taken lead dialect.nonspace))
    (marker : List Char) (begins : ∀ head, lead head → ∃ word ∈ leadingWords,
      word <+: head.map dialect.fold)
    (notBracket : ∀ head, lead head → '[' ∉ head) (notEquals : ∀ head, lead head → '=' ∉ head)
    (closes : ∀ head, lead head → ∃ char, head.getLast? = some char ∧
      dialect.fold char ∉ secretWords.flatten)
    (bracketed : marker.head? = some '[')
    (isClear : clear leadingWords (marker.map dialect.fold) = true) : Kind dialect where
  occurs := LedAt lead dialect.nonspace
  pattern := Reading.pattern reads (fun _ _ => Taken.ne_nil) anywhere
  marker := marker
  unmatched := by
    intro before place
    rw [pattern_none, ← reads_none reads]
    exact forall_prop_of_true rfl
  blind := fun _ _ _ => rfl
  begins := by
    rintro place ⟨head, char, rest, rfl, isLead, -⟩
    obtain ⟨word, member, starts⟩ := begins head isLead
    rw [List.map_append]
    exact ⟨word, member, starts.trans (List.prefix_append _ _)⟩
  append := fun _ more found => ledAt_append more found
  beforeMarker := by
    intro gap right char rest notSpace found
    have passes : dialect.nonspace char = true := (Bool.not_eq_true' _).mpr notSpace
    rcases ledAt_split notBracket found with before | ⟨isLead, -⟩
    · exact before (char :: rest)
    · exact ⟨gap, char, rest, rfl, isLead, passes⟩
  beforeEquals := by
    intro gap name right rest isName found
    rcases ledAt_split notEquals found with before | ⟨isLead, -⟩
    · exact before rest
    · exact absurd isLead (not_lead_of_name closes isName)
  bracketed := bracketed
  clear := isClear

end Led

def urlKind (dialect : Dialect) : Kind dialect :=
  ledKind url_reads urlMarker
    (fun _ isLead => ⟨_, List.mem_append_left _ (List.mem_append_left _ isLead), List.prefix_rfl⟩)
    (fun _ isLead => not_mem_of_word (by decide) (by decide) isLead)
    (fun _ isLead => not_mem_of_word (by decide) (by decide) isLead)
    (by
      intro head isLead
      have ends := List.all_eq_true.mp
        (by decide : (urlWords.all fun word => word.getLast? = some '/') = true) _ isLead
      rw [decide_eq_true_eq, List.getLast?_map, Option.map_eq_some_iff] at ends
      obtain ⟨char, isLast, isSlash⟩ := ends
      exact ⟨char, isLast, by rw [isSlash]; decide⟩)
    rfl (by rw [map_fold_of_ascii (by decide)]; decide)

private theorem not_mem_of_authLead {char : Char} (low : 33 ≤ char.toNat) (high : char.toNat < 127)
    (missing : authWords.flatten.contains char.toLower = false) {head : List Char}
    (isLead : dialect.AuthLead head) : char ∉ head := by
  obtain ⟨word, spaces, rfl, isWord, -, areSpaces⟩ := isLead
  intro member
  rcases List.mem_append.mp member with inWord | inSpaces
  · exact not_mem_of_word (by omega) missing isWord inWord
  · exact not_space low high (areSpaces char inSpaces)

def authKind (dialect : Dialect) : Kind dialect :=
  ledKind auth_reads authMarker
    (by
      rintro head ⟨word, spaces, rfl, isWord, -, -⟩
      rw [List.map_append]
      exact ⟨_, List.mem_append_left _ (List.mem_append_right _ isWord), List.prefix_append _ _⟩)
    (fun _ isLead => not_mem_of_authLead (by decide) (by decide) (by decide) isLead)
    (fun _ isLead => not_mem_of_authLead (by decide) (by decide) (by decide) isLead)
    (by
      rintro head ⟨word, spaces, rfl, -, someSpaces, areSpaces⟩
      rw [List.getLast?_append_of_ne_nil word someSpaces]
      have isLast := List.getLast?_eq_some_getLast someSpaces
      have isSpace := areSpaces _ (List.mem_of_getLast? isLast)
      exact ⟨_, isLast, not_letter_of_space isSpace⟩)
    rfl (by rw [map_fold_of_ascii (by decide)]; decide)

end Dialect

section License

theorem mem_licenseKey {key : List Char} (isKey : licenseKey key = true) {char : Char}
    (member : char ∈ key) : char = '-' ∨ licenseLetter char = true := by
  unfold licenseKey at isKey
  rw [Bool.and_eq_true, decide_eq_true_eq] at isKey
  rw [← List.take_append_drop 5 key] at member
  rcases List.mem_append.mp member with inStart | inRest
  · rw [isKey.1] at inStart
    exact Or.inr
      (List.all_eq_true.mp (by decide : "ONPRM".toList.all licenseLetter = true) _ inStart)
  · rw [← List.zipIdx_map_fst 0 (key.drop 5)] at inRest
    obtain ⟨entry, isEntry, rfl⟩ := List.mem_map.mp inRest
    have passes := List.all_eq_true.mp isKey.2 entry isEntry
    split at passes
    · exact Or.inl (of_decide_eq_true passes)
    · exact Or.inr passes

private theorem licenseAt_split {bad : Char} (notDash : bad ≠ '-')
    (notLetter : licenseLetter bad = false)
    {front right : List Char} (found : LicenseAt (front ++ bad :: right)) (rest : List Char) :
    LicenseAt (front ++ rest) := by
  obtain ⟨key, more, isPlace, isLength, isKey⟩ := found
  have missing : bad ∉ key := by
    intro member
    rcases mem_licenseKey isKey member with isDash | isLetter
    · exact notDash isDash
    · rw [notLetter] at isLetter
      cases isLetter
  rcases List.append_eq_append_iff.mp isPlace with ⟨part, rfl, isBad⟩ | ⟨part, rfl, -⟩
  · cases part with
    | nil =>
        rw [List.append_nil] at isLength isKey
        exact ⟨front, rest, rfl, isLength, isKey⟩
    | cons first part =>
        rw [List.cons_append] at isBad
        rw [(List.cons.inj isBad).1] at missing
        exact absurd (List.mem_append_right front List.mem_cons_self) missing
  · exact ⟨key, part ++ rest, List.append_assoc _ _ _, isLength, isKey⟩

end License

namespace Dialect

variable {dialect : Dialect}

def licenseKind (dialect : Dialect) : Kind dialect where
  occurs := LicenseAt
  pattern := licensePattern
  marker := licenseMarker
  unmatched := by
    intro before place
    rw [licensePattern, pattern_none, ← license_none]
    exact forall_prop_of_true rfl
  blind := fun _ _ _ => rfl
  begins := by
    rintro place ⟨key, rest, rfl, -, isKey⟩
    unfold licenseKey at isKey
    rw [Bool.and_eq_true, decide_eq_true_eq] at isKey
    have isStart : (key.take 5).map dialect.fold = "onprm".toList := by
      rw [isKey.1, map_fold_of_ascii (by decide)]
      decide
    have starts : "onprm".toList <+: (key ++ rest).map dialect.fold := by
      rw [← isStart]
      exact ((List.take_prefix 5 key).trans (List.prefix_append key rest)).map dialect.fold
    exact ⟨_, List.mem_append_right _ List.mem_cons_self, starts⟩
  append := by
    rintro place more ⟨key, rest, rfl, isLength, isKey⟩
    exact ⟨key, rest ++ more, List.append_assoc _ _ _, isLength, isKey⟩
  beforeMarker := fun _ _ char rest _ found =>
    licenseAt_split (by decide) (by decide) found (char :: rest)
  beforeEquals := fun _ _ _ rest _ found => licenseAt_split (by decide) (by decide) found rest
  bracketed := rfl
  clear := by rw [map_fold_of_ascii (by decide)]; decide

end Dialect

end OciTransfer
