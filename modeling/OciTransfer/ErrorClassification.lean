import OciTransfer.ServiceErrors
import OciTransfer.TextSearch

/-!
The classification of an error whose text names a digest.

`classify` is a list of tests, and the first one that an error's text meets
decides.  A test that looks for a number meets it inside a digest as well, so
what an error is taken for may depend on the content that was being copied.
-/

namespace OciTransfer

open TextSearch

structure ErrorRule where
  words : List String
  code : String
  retryable : Bool
  deriving DecidableEq, Repr

/-- The cases of `classify`, in their order. -/
def errorRules : List ErrorRule :=
  [{ words := ["401", "authentication"], code := "authentication_failed", retryable := false },
    { words := ["403", "denied"], code := "authorization_denied", retryable := false },
    { words := ["429"], code := "rate_limited", retryable := true },
    { words := ["timeout"], code := "timeout", retryable := true },
    { words := ["digest"], code := "digest_mismatch", retryable := false },
    { words := ["connection", "temporary"], code := "network_error", retryable := true }]

/-- The place of the first rule one of whose words passes the test. -/
def firstRule (test : String → Bool) : Nat := errorRules.findIdx fun rule => rule.words.any test

def ruleOutcome (place : Nat) : String × Bool :=
  match errorRules[place]? with
  | some rule => (rule.code, rule.retryable)
  | none => ("transfer_failed", false)

private theorem classification_eq_ruleOutcome (text : String) :
    classification (.other text) = ruleOutcome (firstRule (mentions (goLower text))) := by
  have cascade : ∀ first second third fourth fifth sixth : Bool,
      (if first = true then ("authentication_failed", false)
        else if second = true then ("authorization_denied", false)
        else if third = true then ("rate_limited", true)
        else if fourth = true then ("timeout", true)
        else if fifth = true then ("digest_mismatch", false)
        else if sixth = true then ("network_error", true)
        else ("transfer_failed", false)) =
      ruleOutcome ([first, second, third, fourth, fifth, sixth].findIdx id) := by decide
  rw [classification, cascade]
  simp only [firstRule, errorRules, List.findIdx_cons, List.findIdx_nil, List.any_cons,
    List.any_nil, Bool.or_false, id]

private theorem firstRule_le (test : String → Bool) : firstRule test ≤ errorRules.length :=
  List.findIdx_le_length

private theorem ruleOutcome_injective {one other : Nat} (oneListed : one ≤ errorRules.length)
    (otherListed : other ≤ errorRules.length) (same : ruleOutcome one = ruleOutcome other) :
    one = other := by
  have distinct : ∀ one ≤ 6, ∀ other ≤ 6, ruleOutcome one = ruleOutcome other → one = other := by
    decide
  exact distinct one oneListed other otherListed same

private theorem classification_eq_iff {one other : String} :
    classification (.other one) = classification (.other other) ↔
      firstRule (mentions (goLower one)) = firstRule (mentions (goLower other)) := by
  rw [classification_eq_ruleOutcome, classification_eq_ruleOutcome]
  constructor
  · exact ruleOutcome_injective (firstRule_le _) (firstRule_le _)
  · intro same
    rw [same]

private theorem firstRule_congr {one other : String → Bool}
    (same : ∀ rule ∈ errorRules, ∀ word ∈ rule.words, one word = other word) :
    firstRule one = firstRule other :=
  findIdx_congr fun rule listed => any_congr (same rule listed)

private theorem firstRule_or (one other : String → Bool) :
    firstRule (fun word => one word || other word) = min (firstRule one) (firstRule other) := by
  unfold firstRule
  simp only [any_or]
  exact findIdx_or errorRules _ _

def digestText (before digest after : String) : String := before ++ "sha256:" ++ digest ++ after

def aroundDigest (before after word : String) : Bool :=
  mentions (goLower (before ++ "sha256")) word || mentions (goLower after) word

def beginsInDigest (digest after word : String) : Bool :=
  beginsIn word.toList (goLower digest) (goLower after)

private theorem goLower_append (front back : String) :
    goLower (front ++ back) = goLower front ++ goLower back := by
  unfold goLower
  rw [String.toList_append, List.map_append]

private theorem mentions_digestText {word : String} (noColon : ':' ∉ word.toList)
    (before digest after : String) :
    mentions (goLower (digestText before digest after)) word =
      (aroundDigest before after word || beginsInDigest digest after word) := by
  have parts : goLower (digestText before digest after) =
      goLower (before ++ "sha256") ++ ':' :: (goLower digest ++ goLower after) := by
    have colon : goLower "sha256:" = goLower "sha256" ++ [':'] := by decide
    unfold digestText
    simp only [goLower_append, colon, List.append_assoc, List.cons_append, List.nil_append]
  rw [Bool.eq_iff_iff]
  unfold aroundDigest beginsInDigest mentions
  simp only [Bool.or_eq_true, decide_eq_true_eq]
  rw [parts, infix_append_cons_iff noColon, infix_append_iff_beginsIn]
  tauto

def hexDigits : List Char := "0123456789abcdef".toList

/-- Sixty-four lower-case hexadecimal digits. -/
def IsDigest (text : String) : Prop :=
  text.toList.length = 64 ∧ text.toList.all (fun char => char ∈ hexDigits) = true

instance : DecidablePred IsDigest := fun _ => inferInstanceAs (Decidable (_ ∧ _))

/-- The text does not go on with a hexadecimal digit of either case. -/
def EndsDigest (after : String) : Prop :=
  after.toList.head?.all (fun char => char.toLower ∉ hexDigits) = true

instance : DecidablePred EndsDigest := fun _ => inferInstanceAs (Decidable (_ = _))

def holdsNumber (digest number : String) : Bool :=
  decide (number.toList <:+: digest.toList)

/-- The digest ends in the digits that begin a word, and the text after it goes on with the
rest of the word. -/
def spellsAcross (digest digits after rest : String) : Bool :=
  decide (digits.toList <:+ digest.toList ∧ rest.toList <+: goLower after)

/-- The test that a digest and what follows it set off, by its place. -/
def digestSetsOff (digest after : String) : Nat → Bool
  | 0 => holdsNumber digest "401" || spellsAcross digest "a" after "uthentication"
  | 1 => holdsNumber digest "403" || spellsAcross digest "de" after "nied"
  | 2 => holdsNumber digest "429"
  | 4 => spellsAcross digest "d" after "igest"
  | 5 => spellsAcross digest "c" after "onnection"
  | _ => false

/-- The test that the text around the digest sets off. -/
def aroundSetsOff (before after : String) (place : Nat) : Bool :=
  errorRules[place]?.any fun rule => rule.words.any (aroundDigest before after)

section Digest

variable {digest after : String} (isDigest : IsDigest digest) (ends : EndsDigest after)

include isDigest in
private theorem mem_hexDigits_of_mem {char : Char} (member : char ∈ digest.toList) :
    decide (char ∈ hexDigits) = true :=
  List.all_eq_true.mp isDigest.2 char member

include isDigest in
private theorem goLower_digest : goLower digest = digest.toList := by
  have unchanged : (hexDigits.all fun char =>
      (if char = 'İ' then 'i' else char.toLower) = char) = true := by decide
  refine (List.map_congr_left fun char member => ?_).trans (List.map_id digest.toList)
  have isDigit : char ∈ hexDigits := of_decide_eq_true (mem_hexDigits_of_mem isDigest member)
  exact of_decide_eq_true (List.all_eq_true.mp unchanged char isDigit)

include ends in
private theorem not_hex_head {char : Char} (starts : char ∈ (goLower after).head?) :
    decide (char ∈ hexDigits) = false := by
  unfold EndsDigest at ends
  unfold goLower at starts
  rw [List.head?_map] at starts
  obtain ⟨first, isFirst, rfl⟩ := Option.map_eq_some_iff.mp starts
  rw [isFirst, Option.all_some, decide_eq_true_eq] at ends
  split
  · decide
  · exact decide_eq_false ends

include isDigest ends

private theorem beginsInDigest_number {number : String} (notEmpty : number.toList ≠ [])
    (digits : number.toList.all (fun char => char ∈ hexDigits) = true) :
    beginsInDigest digest after number = holdsNumber digest number := by
  rw [Bool.eq_iff_iff, beginsInDigest, goLower_digest isDigest,
    TextSearch.beginsIn_of_inside notEmpty (List.all_eq_true.mp digits) fun _ => not_hex_head ends]
  exact decide_eq_true_iff.symm

private theorem beginsInDigest_across {word digits rest : String}
    (splits : word.toList = digits.toList ++ rest.toList)
    (allDigits : digits.toList.all (fun char => char ∈ hexDigits) = true)
    (goesOn : rest.toList.head?.any (fun char => char ∉ hexDigits) = true) :
    beginsInDigest digest after word =
      (!digits.toList.isEmpty && spellsAcross digest digits after rest) := by
  obtain ⟨first, isFirst, outside⟩ := (Option.any_eq_true _ _).mp goesOn
  have notEmpty : rest.toList ≠ [] := fun empty => by rw [empty] at isFirst; cases isFirst
  have restOut : ∀ char ∈ rest.toList.head?, decide (char ∈ hexDigits) = false := by
    intro char starts
    rw [isFirst] at starts
    cases starts
    exact decide_eq_false (of_decide_eq_true outside)
  rw [Bool.eq_iff_iff, beginsInDigest, goLower_digest isDigest, splits,
    TextSearch.beginsIn_of_across notEmpty (List.all_eq_true.mp allDigits) restOut
      (fun _ => mem_hexDigits_of_mem isDigest) fun _ => not_hex_head ends]
  simp only [spellsAcross, Bool.and_eq_true, Bool.not_eq_true', List.isEmpty_eq_false_iff,
    decide_eq_true_eq]

/-- The words that begin in a digest are numbers, or start with its last digits. -/
theorem digestSetsOff_eq (place : Nat) :
    (errorRules[place]?.any fun rule => rule.words.any (beginsInDigest digest after)) =
      digestSetsOff digest after place := by
  have number := fun {word : String} => @beginsInDigest_number digest after isDigest ends word
  have across := fun {word digits rest : String} =>
    @beginsInDigest_across digest after isDigest ends word digits rest
  match place with
  | 0 =>
      change (beginsInDigest digest after "401" ||
        (beginsInDigest digest after "authentication" || false)) = _
      rw [number (by decide) (by decide),
        @across "authentication" "a" "uthentication" (by decide) (by decide) (by decide),
        Bool.or_false]
      rfl
  | 1 =>
      change (beginsInDigest digest after "403" ||
        (beginsInDigest digest after "denied" || false)) = _
      rw [number (by decide) (by decide),
        @across "denied" "de" "nied" (by decide) (by decide) (by decide),
        Bool.or_false]
      rfl
  | 2 =>
      change (beginsInDigest digest after "429" || false) = _
      rw [number (by decide) (by decide), Bool.or_false]
      rfl
  | 3 =>
      change (beginsInDigest digest after "timeout" || false) = _
      rw [@across "timeout" "" "timeout" (by decide) (by decide) (by decide)]
      rfl
  | 4 =>
      change (beginsInDigest digest after "digest" || false) = _
      rw [@across "digest" "d" "igest" (by decide) (by decide) (by decide), Bool.or_false]
      rfl
  | 5 =>
      change (beginsInDigest digest after "connection" ||
        (beginsInDigest digest after "temporary" || false)) = _
      rw [@across "connection" "c" "onnection" (by decide) (by decide) (by decide),
        @across "temporary" "" "temporary" (by decide) (by decide) (by decide), Bool.or_false]
      exact Bool.or_false _
  | _ + 6 => rfl

end Digest

private theorem firstRule_digestText (before digest after : String) :
    firstRule (mentions (goLower (digestText before digest after))) =
      min (firstRule (aroundDigest before after)) (firstRule (beginsInDigest digest after)) := by
  have noColons : ∀ rule ∈ errorRules, ∀ word ∈ rule.words, ':' ∉ word.toList := by decide
  rw [← firstRule_or]
  exact firstRule_congr fun rule listed word member =>
    mentions_digestText (noColons rule listed word member) before digest after

/-- Two digests in the same text leave the code and the retryability the same exactly if,
wherever one of them alone sets off a test, the text around them or both digests set off
that test or one before it. -/
theorem classification_of_digests_iff {before after one other : String} (ends : EndsDigest after)
    (isOne : IsDigest one) (isOther : IsDigest other) :
    classification (.other (digestText before one after)) =
        classification (.other (digestText before other after)) ↔
      ∀ place, digestSetsOff one after place ≠ digestSetsOff other after place →
        ∃ earlier ≤ place, aroundSetsOff before after earlier = true ∨
          (digestSetsOff one after earlier = true ∧ digestSetsOff other after earlier = true) := by
  have isFirst : ∀ {digest}, IsDigest digest → FirstPlace
      (fun place => digestSetsOff digest after place = true) errorRules.length
      (firstRule (beginsInDigest digest after)) := by
    intro digest isDigest
    have first := firstPlace_findIdx errorRules fun rule =>
      rule.words.any (beginsInDigest digest after)
    simp only [digestSetsOff_eq isDigest ends] at first
    exact first
  have isAround : FirstPlace (fun place => aroundSetsOff before after place = true)
      errorRules.length (firstRule (aroundDigest before after)) := firstPlace_findIdx errorRules _
  rw [classification_eq_iff, firstRule_digestText, firstRule_digestText,
    isAround.min_eq_iff (isFirst isOne) (isFirst isOther)]
  simp only [← Bool.eq_iff_iff]
  refine forall_congr' fun place => ⟨fun condition differ => ?_, fun condition _ => condition⟩
  refine condition ?_ differ
  by_contra beyond
  have unlisted : ∀ digest, digestSetsOff digest after place = false := by
    intro digest
    unfold digestSetsOff
    split <;> first | rfl | exact absurd (by decide) beyond
  exact differ ((unlisted one).trans (unlisted other).symm)

def resetText : String := "connection reset while reading "

def zeroDigest : String :=
  "0000000000000000000000000000000000000000000000000000000000000000"

def digestWith401 : String :=
  "4010000000000000000000000000000000000000000000000000000000000000"

/-- A text that says itself that the authentication has failed is not read otherwise for the
number in the digest. -/
theorem classification_of_digests_iff_after_401 :
    classification (.other (digestText "401 at " zeroDigest "")) =
      classification (.other (digestText "401 at " digestWith401 "")) :=
  (classification_of_digests_iff (by decide) (by decide +kernel) (by decide +kernel)).mpr
    fun place _ => ⟨0, Nat.zero_le place, Or.inl (by decide)⟩

/-- A connection that is reset is a network error, and is retried, or a refused
authentication, and is not, by the digest that was being read. -/
theorem digest_changes_classification :
    ¬ ∀ before after, EndsDigest after → ∀ one other, IsDigest one → IsDigest other →
      classification (.other (digestText before one after)) =
        classification (.other (digestText before other after)) := by
  intro claimed
  have retried : classification (.other (digestText resetText zeroDigest "")) =
      ("network_error", true) := by decide +kernel
  have refused : classification (.other (digestText resetText digestWith401 "")) =
      ("authentication_failed", false) := by decide +kernel
  have same := claimed resetText "" (by decide) zeroDigest digestWith401 (by decide +kernel)
    (by decide +kernel)
  rw [retried, refused] at same
  exact absurd same (by decide)

end OciTransfer
