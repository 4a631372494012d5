import OciTransfer.Assignments

/-!
The four substitutions of `sanitize_error_detail` as one reading of the input.

The input is read once from left to right.  A URL hides what stands up to the next space,
an authorisation also the word behind its spaces, with any URL in it; a license key is
one only if no URL and no authorisation begins in it.  A value ends at a space, a comma
or a semicolon, or with the first of these three that begins in it.  What is hidden is
passed over, and stands for the bracket that closes its marker.
-/

namespace OciTransfer

open Rewriting Reading

abbrev UrlAt (place : List Char) : Prop :=
  LedAt Dialect.python.UrlLead Dialect.python.nonspace place

abbrev AuthAt (place : List Char) : Prop :=
  LedAt Dialect.python.AuthLead Dialect.python.nonspace place

/-- A URL, an authorisation or a license key of the input, and what follows it. -/
inductive Hidden : List Char → List Char → Prop where
  | url {front rest} :
      Taken Dialect.python.UrlLead Dialect.python.nonspace front rest → Hidden front rest
  | auth {front rest} :
      Taken Dialect.python.AuthLead Dialect.python.nonspace front rest → Hidden front rest
  | license {key rest} : key.length = 35 → licenseKey key = true →
      AbsentIn UrlAt key rest → AbsentIn AuthAt key rest → Hidden key rest

def HiddenAt (place : List Char) : Prop :=
  ∃ front rest, place = front ++ rest ∧ Hidden front rest

/-- What is passed over at a place of the input, behind the letter given. -/
inductive PassedOver (isWord : Char → Bool) (before : Option Char) :
    List Char → List Char → Prop where
  | hidden {front rest} : Hidden front rest → PassedOver isWord before front rest
  | value {head letters rest} : Dialect.python.SecretLead head →
      wordBoundary isWord before head = true → letters ≠ [] →
      (∀ char ∈ letters, Dialect.python.valueChar char = true) →
      AbsentIn HiddenAt letters rest → Stops Dialect.python.valueChar rest →
      PassedOver isWord before (head ++ letters) rest
  | valueThrough {head letters front rest} : Dialect.python.SecretLead head →
      wordBoundary isWord before head = true →
      (∀ char ∈ letters, Dialect.python.valueChar char = true) →
      AbsentIn HiddenAt letters (front ++ rest) → Hidden front rest →
      PassedOver isWord before (head ++ (letters ++ front)) rest

/-- At no letter that is not passed over does a secret begin that has no boundary before it. -/
inductive NoneShown (isWord : Char → Bool) : Option Char → List Char → Prop where
  | done {before} : NoneShown isWord before []
  | passed {before front rest} : PassedOver isWord before front rest →
      NoneShown isWord (some ']') rest → NoneShown isWord before (front ++ rest)
  | letter {before char rest} :
      (∀ front more, char :: rest = front ++ more → ¬ PassedOver isWord before front more) →
      ¬ Dialect.python.Refused (wordBoundary isWord) before (char :: rest) →
      NoneShown isWord (some char) rest → NoneShown isWord before (char :: rest)

/-- What the first three passes of `sanitize_error_detail` look for. -/
def detailKinds : List (Dialect.Kind Dialect.python) :=
  [Dialect.python.urlKind, Dialect.python.authKind, Dialect.python.licenseKind]

/-! ### Where something hidden can begin -/

section Letters

variable {kind : Dialect.Kind Dialect.python} {char : Char} {rest : List Char}

private theorem fold_first (found : kind.occurs (char :: rest)) :
    Dialect.python.fold char ∈ ['h', 'b', 'o'] := by
  obtain ⟨word, member, starts⟩ := kind.begins _ found
  have tested : (leadingWords.all fun word =>
      word.head?.any fun first => first ∈ ['h', 'b', 'o']) = true := by decide
  obtain ⟨first, isFirst, listed⟩ :=
    (Option.any_eq_true _ _).mp (List.all_eq_true.mp tested word member)
  obtain ⟨more, rfl⟩ := List.head?_eq_some_iff.mp isFirst
  rw [List.map_cons, List.cons_prefix_cons] at starts
  rw [← starts.1]
  exact of_decide_eq_true listed

private theorem fold_url (found : UrlAt (char :: rest)) : Dialect.python.fold char = 'h' := by
  obtain ⟨head, first, more, isPlace, isLead, -⟩ := found
  have tested : (urlWords.all fun word => word.head? = some 'h') = true := by decide
  have isFirst := of_decide_eq_true (List.all_eq_true.mp tested _ isLead)
  cases head with
  | nil => cases isFirst
  | cons letter head =>
      rw [List.cons_append] at isPlace
      rw [(List.cons.inj isPlace).1]
      exact Option.some.inj isFirst

private theorem fold_printed (low : 33 ≤ char.toNat) (high : char.toNat < 127) :
    Dialect.python.fold char = char.toLower :=
  Dialect.python.fold_ascii char (by omega)

private theorem occurs_of_hiddenAt {place : List Char} (found : HiddenAt place) :
    ∃ kind ∈ detailKinds, kind.occurs place := by
  have ledAt : ∀ {lead : List Char → Prop} {test : Char → Bool} {front rest : List Char},
      Taken lead test front rest → LedAt lead test (front ++ rest) := by
    rintro lead test front rest ⟨head, value, rfl, isLead, notEmpty, passes, -⟩
    obtain ⟨char, more, rfl⟩ := List.exists_cons_of_ne_nil notEmpty
    refine ⟨head, char, more ++ rest, ?_, isLead, passes char List.mem_cons_self⟩
    rw [List.append_assoc, List.cons_append]
  obtain ⟨front, rest, rfl, hidden⟩ := found
  cases hidden with
  | url isTaken => exact ⟨Dialect.python.urlKind, by simp [detailKinds], ledAt isTaken⟩
  | auth isTaken => exact ⟨Dialect.python.authKind, by simp [detailKinds], ledAt isTaken⟩
  | license isLength isKey _ _ =>
      exact ⟨Dialect.python.licenseKind, by simp [detailKinds], front, rest, rfl, isLength, isKey⟩

private theorem first_of_hiddenAt (found : HiddenAt (char :: rest)) :
    Dialect.python.valueChar char = true ∧ char ≠ '[' := by
  obtain ⟨kind, -, occurs⟩ := occurs_of_hiddenAt found
  obtain ⟨first, more, isPlace, notSpace⟩ := kind.head_of_occurs occurs
  have isFirst := fold_first occurs
  rw [← (List.cons.inj isPlace).1] at notSpace
  have differs : ∀ other : Char, 33 ≤ other.toNat → other.toNat < 127 →
      other.toLower ∉ ['h', 'b', 'o'] → char ≠ other := by
    rintro other low high missing rfl
    rw [fold_printed low high] at isFirst
    exact missing isFirst
  refine ⟨?_, differs '[' (by decide) (by decide) (by decide)⟩
  unfold Dialect.valueChar
  rw [notSpace, decide_eq_true (differs ',' (by decide) (by decide) (by decide)),
    decide_eq_true (differs ';' (by decide) (by decide) (by decide))]
  rfl

private theorem absentIn_secretLead {head : List Char} (isLead : Dialect.python.SecretLead head)
    (rest : List Char) : AbsentIn HiddenAt head rest := by
  obtain ⟨name, tail, rfl, isName, -, arePauses⟩ := isLead.parts
  have tested : (secretWords.all fun word => clear leadingWords word) = true := by decide
  have isClear := List.all_eq_true.mp tested _ isName
  rw [absentIn_append]
  constructor
  · rintro back ⟨first, rfl⟩ notEmpty found
    obtain ⟨kind, -, occurs⟩ := occurs_of_hiddenAt found
    exact kind.not_occurs_of_clear isClear notEmpty _ occurs
  · rintro back isBack notEmpty found
    obtain ⟨char, more, rfl⟩ := List.exists_cons_of_ne_nil notEmpty
    obtain ⟨kind, -, occurs⟩ := occurs_of_hiddenAt found
    obtain ⟨first, _, isPlace, notSpace⟩ := kind.head_of_occurs occurs
    rw [← (List.cons.inj isPlace).1] at notSpace
    have isFirst := fold_first occurs
    rcases Bool.or_eq_true_iff.mp (arePauses char (isBack.subset List.mem_cons_self)) with
      isSpace | isSign
    · rw [notSpace] at isSpace
      cases isSpace
    · rcases Dialect.sign_cases isSign with rfl | rfl
      · rw [fold_printed (by decide) (by decide)] at isFirst
        exact absurd isFirst (by decide)
      · rw [fold_printed (by decide) (by decide)] at isFirst
        exact absurd isFirst (by decide)

end Letters

/-! ### A text in which places are bracketed -/

/-- Letters stay, up to the places at which something is replaced by a bracketed marker. -/
structure Brackets (pass : List Char → List Char) (begins : List Char → Prop) : Prop where
  empty : pass [] = []
  keep : ∀ char rest, ¬ begins (char :: rest) → pass (char :: rest) = char :: pass rest
  bracket : ∀ place, begins place → (pass place).head? = some '['

namespace Brackets

variable {pass : List Char → List Char} {begins : List Char → Prop} {front rest : List Char}

theorem append (brackets : Brackets pass begins) (absent : AbsentIn begins front rest) :
    pass (front ++ rest) = front ++ pass rest := by
  induction front with
  | nil => rfl
  | cons char front ih =>
      obtain ⟨here, later⟩ := absentIn_cons.mp absent
      rw [List.cons_append, brackets.keep char _ here, ih later]
      rfl

private theorem of_result (brackets : Brackets pass begins) (noBracket : '[' ∉ front)
    {text more : List Char} (result : pass text = front ++ more) :
    ∃ rest, text = front ++ rest ∧ AbsentIn begins front rest ∧ more = pass rest := by
  induction front generalizing text with
  | nil => exact ⟨text, rfl, absentIn_nil, result.symm⟩
  | cons char front ih =>
      rw [List.mem_cons, not_or] at noBracket
      have notHere : ¬ begins text := by
        intro found
        have first := brackets.bracket text found
        rw [result] at first
        exact noBracket.1 (Option.some.inj first).symm
      cases text with
      | nil =>
          rw [brackets.empty] at result
          cases result
      | cons letter text =>
          rw [brackets.keep letter text notHere, List.cons_append] at result
          obtain ⟨rfl, laterResult⟩ := List.cons.inj result
          obtain ⟨rest, rfl, absent, isMore⟩ := ih noBracket.2 laterResult
          exact ⟨rest, rfl, absentIn_cons.mpr ⟨notHere, absent⟩, isMore⟩

theorem stops (brackets : Brackets pass begins) {test : Char → Bool}
    (notFirst : ∀ char more, begins (char :: more) → test char = true)
    (ended : Stops test rest) : Stops test (pass rest) := by
  cases rest with
  | nil =>
      rw [brackets.empty]
      exact ended
  | cons char more =>
      have fails : test char = false := ended char rfl
      have notHere : ¬ begins (char :: more) := by
        intro found
        rw [notFirst char more found] at fails
        cases fails
      rw [brackets.keep char more notHere]
      exact @PrefixCode.ended_cons _ (fun char => test char = false) char fails _

end Brackets

/-! ### The first two passes -/

def passUrlsAndAuth (text : List Char) : List Char :=
  Dialect.python.redactAuth (Dialect.python.redactUrls text)

private theorem taken_of_ledAt {reader : List Char → Option Nat} {lead : List Char → Prop}
    {test : Char → Bool} (reads : Reads reader (Taken lead test)) {place : List Char}
    (found : LedAt lead test place) :
    ∃ front rest, place = front ++ rest ∧ Taken lead test front rest := by
  cases read : reader place with
  | none => exact absurd found ((reads_none reads).mp read)
  | some length =>
      obtain ⟨front, rest, isPlace, -, isTaken⟩ := (reads _ _).mp read
      exact ⟨front, rest, isPlace, isTaken⟩

private theorem redactUrls_taken {front rest : List Char}
    (isTaken : Taken Dialect.python.UrlLead Dialect.python.nonspace front rest) :
    Dialect.python.redactUrls (front ++ rest) = urlMarker ++ Dialect.python.redactUrls rest := by
  have isMatch : Dialect.python.urlPattern.length? none (front ++ rest) = some front.length :=
    pattern_match.mpr ⟨rfl, isTaken⟩
  exact Dialect.python.urlKind.redact_hit isMatch

private theorem redactUrls_brackets : Brackets Dialect.python.redactUrls UrlAt where
  empty := rfl
  keep := fun _ _ absent => Dialect.python.urlKind.redact_keep absent
  bracket := by
    intro place found
    obtain ⟨front, rest, rfl, isTaken⟩ := taken_of_ledAt Dialect.url_reads found
    rw [redactUrls_taken isTaken]
    rfl

private theorem redactAuth_taken {front rest : List Char}
    (isTaken : Taken Dialect.python.AuthLead Dialect.python.nonspace front rest) :
    Dialect.python.redactAuth (front ++ rest) = authMarker ++ Dialect.python.redactAuth rest := by
  have isMatch : Dialect.python.authPattern.length? none (front ++ rest) = some front.length :=
    pattern_match.mpr ⟨rfl, isTaken⟩
  exact Dialect.python.authKind.redact_hit isMatch

private theorem absentIn_authLead {head : List Char} (isLead : Dialect.python.AuthLead head)
    (rest : List Char) : AbsentIn UrlAt head rest := by
  obtain ⟨word, spaces, rfl, isWord, -, areSpaces⟩ := isLead
  intro back isBack notEmpty found
  obtain ⟨char, more, rfl⟩ := List.exists_cons_of_ne_nil notEmpty
  have isFirst := fold_url found
  rcases List.mem_append.mp (isBack.subset List.mem_cons_self) with inWord | inSpaces
  · have letter := Dialect.fold_mem_flatten isWord inWord
    rw [isFirst] at letter
    exact absurd letter (by decide)
  · have isSpace := areSpaces char inSpaces
    rw [Dialect.python.fold_space char isSpace] at isFirst
    rw [isFirst] at isSpace
    exact absurd isSpace (by decide)

private theorem nonspace_first {char : Char} {rest : List Char} (found : UrlAt (char :: rest)) :
    Dialect.python.nonspace char = true := by
  cases isSpace : Dialect.python.space char with
  | false => exact congrArg Bool.not isSpace
  | true =>
      have isFirst := fold_url found
      rw [Dialect.python.fold_space char isSpace] at isFirst
      rw [isFirst] at isSpace
      exact absurd isSpace (by decide)

private theorem taken_url {back rest : List Char}
    (nonspaces : ∀ char ∈ back, Dialect.python.nonspace char = true)
    (ended : Stops Dialect.python.nonspace rest) (found : UrlAt (back ++ rest)) :
    Taken Dialect.python.UrlLead Dialect.python.nonspace back rest := by
  obtain ⟨front, others, isPlace, isTaken⟩ := taken_of_ledAt Dialect.url_reads found
  have frontNonspaces : ∀ char ∈ front, Dialect.python.nonspace char = true := by
    obtain ⟨head, value, rfl, isLead, -, areNonspaces, -⟩ := isTaken
    intro char member
    rcases List.mem_append.mp member with inHead | inValue
    · exact congrArg Bool.not
        (Dialect.not_space_of_letter (by decide) (Dialect.fold_mem_flatten isLead inHead))
    · exact areNonspaces char inValue
  obtain ⟨rfl, rfl⟩ := PrefixCode.append_inj_of_all nonspaces frontNonspaces
    (fun char isFirst => Bool.eq_false_iff.mp (ended char isFirst))
    (fun char isFirst => Bool.eq_false_iff.mp (isTaken.ended char isFirst)) isPlace
  exact isTaken

def markerRest : List Char := " REDACTED]".toList

private theorem passUrlsAndAuth_url {front rest : List Char}
    (isTaken : Taken Dialect.python.UrlLead Dialect.python.nonspace front rest) :
    passUrlsAndAuth (front ++ rest) = urlMarker ++ passUrlsAndAuth rest := by
  unfold passUrlsAndAuth
  rw [redactUrls_taken isTaken]
  exact Dialect.python.authKind.redact_clear Dialect.python.urlKind.clear _

private theorem passUrlsAndAuth_auth {front rest : List Char}
    (isTaken : Taken Dialect.python.AuthLead Dialect.python.nonspace front rest) :
    passUrlsAndAuth (front ++ rest) = authMarker ++ passUrlsAndAuth rest ∨
      passUrlsAndAuth (front ++ rest) = authMarker ++ markerRest ++ passUrlsAndAuth rest := by
  obtain ⟨head, value, rfl, isLead, notEmpty, nonspaces, ended⟩ := isTaken
  unfold passUrlsAndAuth
  rw [List.append_assoc, redactUrls_brackets.append (absentIn_authLead isLead _)]
  rcases absentIn_or_first UrlAt value rest with absent | ⟨letters, back, rfl, -, found, absent⟩
  · left
    rw [redactUrls_brackets.append absent, ← List.append_assoc]
    apply redactAuth_taken
    exact ⟨head, value, rfl, isLead, notEmpty, nonspaces,
      redactUrls_brackets.stops (fun char more => nonspace_first) ended⟩
  · right
    have urlTaken := taken_url
      (fun char member => nonspaces char (List.mem_append_right letters member)) ended found
    have isMarker : urlMarker = "[URL".toList ++ markerRest := by decide
    rw [List.append_assoc, redactUrls_brackets.append absent, redactUrls_taken urlTaken, isMarker,
      List.append_assoc, ← List.append_assoc letters, ← List.append_assoc head]
    have authTaken : Taken Dialect.python.AuthLead Dialect.python.nonspace
        (head ++ (letters ++ "[URL".toList)) (markerRest ++ Dialect.python.redactUrls rest) := by
      refine ⟨head, letters ++ "[URL".toList, rfl, isLead, ?_, ?_, ?_⟩
      · exact List.append_ne_nil_of_right_ne_nil letters (by decide)
      · intro char member
        rcases List.mem_append.mp member with inLetters | inMarker
        · exact nonspaces char (List.mem_append_left back inLetters)
        · exact List.all_eq_true.mp
            (by decide : ("[URL".toList.all Dialect.python.nonspace) = true) char inMarker
      · exact PrefixCode.ended_cons (by decide) _
    rw [redactAuth_taken authTaken, List.append_assoc]
    congr 1
    apply Dialect.python.authKind.redact_clear
    rw [Dialect.map_fold_of_ascii (by decide)]
    decide

def UrlOrAuthAt (place : List Char) : Prop := UrlAt place ∨ AuthAt place

private theorem passUrlsAndAuth_brackets : Brackets passUrlsAndAuth UrlOrAuthAt where
  empty := rfl
  keep := by
    intro char rest absent
    obtain ⟨noUrl, noAuth⟩ := not_or.mp absent
    unfold passUrlsAndAuth
    rw [redactUrls_brackets.keep char rest noUrl]
    exact Dialect.python.authKind.redact_keep
      (Dialect.python.authKind.not_occurs_redact Dialect.python.urlKind noAuth)
  bracket := by
    rintro place (isUrl | isAuth)
    · obtain ⟨front, rest, rfl, isTaken⟩ := taken_of_ledAt Dialect.url_reads isUrl
      rw [passUrlsAndAuth_url isTaken]
      rfl
    · obtain ⟨front, rest, rfl, isTaken⟩ := taken_of_ledAt Dialect.auth_reads isAuth
      rcases passUrlsAndAuth_auth isTaken with same | same
      · rw [same]
        rfl
      · rw [same]
        rfl

/-! ### The first three passes -/

def threePasses (text : List Char) : List Char := redactLicenses (passUrlsAndAuth text)

def markers : List (List Char) :=
  [urlMarker, authMarker, authMarker ++ markerRest, licenseMarker]

private theorem redactLicenses_marker {marker : List Char} (listed : marker ∈ markers)
    (rest : List Char) : redactLicenses (marker ++ rest) = marker ++ redactLicenses rest := by
  have tested : (markers.all fun marker => marker.all (fun char => char.toNat < 128) &&
      clear leadingWords (marker.map Char.toLower)) = true := by decide
  obtain ⟨ascii, isClear⟩ := (Bool.and_eq_true _ _).mp (List.all_eq_true.mp tested marker listed)
  apply Dialect.python.licenseKind.redact_clear
  rw [Dialect.map_fold_of_ascii ascii]
  exact isClear

private theorem threePasses_hidden {front rest : List Char} (hidden : Hidden front rest) :
    ∃ marker ∈ markers, threePasses (front ++ rest) = marker ++ threePasses rest := by
  unfold threePasses
  cases hidden with
  | url isTaken =>
      refine ⟨urlMarker, by simp [markers], ?_⟩
      rw [passUrlsAndAuth_url isTaken]
      exact redactLicenses_marker (by simp [markers]) _
  | auth isTaken =>
      rcases passUrlsAndAuth_auth isTaken with same | same
      · refine ⟨authMarker, by simp [markers], ?_⟩
        rw [same]
        exact redactLicenses_marker (by simp [markers]) _
      · refine ⟨authMarker ++ markerRest, by simp [markers], ?_⟩
        rw [same]
        exact redactLicenses_marker (by simp [markers]) _
  | license isLength isKey noUrl noAuth =>
      refine ⟨licenseMarker, by simp [markers], ?_⟩
      have neither : AbsentIn UrlOrAuthAt front rest := fun back isBack notEmpty =>
        not_or.mpr ⟨noUrl back isBack notEmpty, noAuth back isBack notEmpty⟩
      rw [passUrlsAndAuth_brackets.append neither]
      have isMatch : licensePattern.length? none (front ++ passUrlsAndAuth rest) =
          some front.length := pattern_match.mpr ⟨rfl, isLength, isKey⟩
      exact Dialect.python.licenseKind.redact_hit isMatch

private theorem hiddenAt_of_urlOrAuth {place : List Char} (found : UrlOrAuthAt place) :
    HiddenAt place := by
  rcases found with isUrl | isAuth
  · obtain ⟨front, rest, isPlace, isTaken⟩ := taken_of_ledAt Dialect.url_reads isUrl
    exact ⟨front, rest, isPlace, .url isTaken⟩
  · obtain ⟨front, rest, isPlace, isTaken⟩ := taken_of_ledAt Dialect.auth_reads isAuth
    exact ⟨front, rest, isPlace, .auth isTaken⟩

private theorem hiddenAt_of_license {text : List Char} (found : LicenseAt (passUrlsAndAuth text)) :
    HiddenAt text := by
  obtain ⟨key, more, isPlace, isLength, isKey⟩ := found
  have noBracket : '[' ∉ key := by
    intro member
    rcases mem_licenseKey isKey member with isDash | isLetter
    · exact absurd isDash (by decide)
    · exact absurd isLetter (by decide)
  obtain ⟨rest, rfl, absent, -⟩ := passUrlsAndAuth_brackets.of_result noBracket isPlace
  exact ⟨key, rest, rfl, .license isLength isKey
    (fun back isBack notEmpty => (not_or.mp (absent back isBack notEmpty)).1)
    (fun back isBack notEmpty => (not_or.mp (absent back isBack notEmpty)).2)⟩

private theorem threePasses_brackets : Brackets threePasses HiddenAt where
  empty := rfl
  keep := by
    intro char rest absent
    have kept := passUrlsAndAuth_brackets.keep char rest fun found =>
      absent (hiddenAt_of_urlOrAuth found)
    have noKey : ¬ LicenseAt (char :: passUrlsAndAuth rest) := by
      rw [← kept]
      exact fun found => absent (hiddenAt_of_license found)
    unfold threePasses
    rw [kept]
    exact Dialect.python.licenseKind.redact_keep noKey
  bracket := by
    rintro place ⟨front, rest, rfl, hidden⟩
    obtain ⟨marker, listed, same⟩ := threePasses_hidden hidden
    have tested : (markers.all fun marker => marker.head? = some '[') = true := by decide
    have isFirst := of_decide_eq_true (List.all_eq_true.mp tested marker listed)
    obtain ⟨more, rfl⟩ := List.head?_eq_some_iff.mp isFirst
    rw [same]
    rfl

private theorem absentIn_of_clear {front : List Char}
    (ascii : (front.all fun char => char.toNat < 128) = true)
    (isClear : clear leadingWords (front.map Char.toLower) = true) (rest : List Char) :
    AbsentIn HiddenAt front rest := by
  rintro back ⟨first, rfl⟩ notEmpty found
  obtain ⟨kind, -, occurs⟩ := occurs_of_hiddenAt found
  rw [← @Dialect.map_fold_of_ascii Dialect.python _ ascii] at isClear
  exact kind.not_occurs_of_clear isClear notEmpty rest occurs

/-! ### The assignments behind them -/

private theorem led_of_threePasses {text head more : List Char} {char : Char}
    (result : threePasses text = head ++ char :: more) (isLead : Dialect.python.SecretLead head)
    (isValue : Dialect.python.valueChar char = true) :
    ∃ first rest, text = head ++ first :: rest ∧ Dialect.python.valueChar first = true ∧
      threePasses (first :: rest) = char :: more := by
  obtain ⟨rest, rfl, -, isMore⟩ := threePasses_brackets.of_result isLead.not_mem_bracket result
  cases rest with
  | nil =>
      rw [threePasses_brackets.empty] at isMore
      cases isMore
  | cons first rest =>
      refine ⟨first, rest, rfl, ?_, isMore.symm⟩
      by_cases hidden : HiddenAt (first :: rest)
      · exact (first_of_hiddenAt hidden).1
      · rw [threePasses_brackets.keep first rest hidden] at isMore
        rw [← (List.cons.inj isMore).1]
        exact isValue

private theorem threePasses_lead {head : List Char} (isLead : Dialect.python.SecretLead head)
    (rest : List Char) : threePasses (head ++ rest) = head ++ threePasses rest :=
  threePasses_brackets.append (absentIn_secretLead isLead rest)

private theorem redacted_prefix_threePasses {text : List Char} :
    redacted <+: threePasses text ↔ redacted <+: text := by
  constructor
  · intro marked
    have notHidden : ¬ HiddenAt text := by
      rintro ⟨front, rest, rfl, hidden⟩
      obtain ⟨marker, listed, same⟩ := threePasses_hidden hidden
      have tested :
          (markers.all fun marker => clear [redacted] marker && !marker.isEmpty) = true := by
        decide
      obtain ⟨isClear, notEmpty⟩ :=
        (Bool.and_eq_true _ _).mp (List.all_eq_true.mp tested marker listed)
      rw [same] at marked
      rw [Bool.not_eq_true', List.isEmpty_eq_false_iff] at notEmpty
      rw [← List.nil_append marker] at isClear
      exact not_prefix_of_clear isClear notEmpty List.mem_cons_self marked
    obtain ⟨more, whole⟩ := marked
    have isMarker : redacted = '[' :: "REDACTED]".toList := by decide
    cases text with
    | nil =>
        rw [threePasses_brackets.empty] at whole
        exact absurd (List.append_eq_nil_iff.mp whole).1 (by decide)
    | cons char text =>
        rw [threePasses_brackets.keep char text notHidden, isMarker, List.cons_append] at whole
        obtain ⟨isFirst, later⟩ := List.cons.inj whole
        obtain ⟨rest, rfl, -⟩ := threePasses_brackets.of_result
          (by decide : '[' ∉ "REDACTED]".toList) later.symm
        rw [isMarker, isFirst]
        exact List.prefix_append _ rest
  · rintro ⟨rest, rfl⟩
    rw [threePasses_brackets.append (absentIn_of_clear (by decide) (by decide) rest)]
    exact List.prefix_append _ _

/-- A secret is exposed by what the three passes leave exactly where the input exposes it. -/
theorem exposed_threePasses {text : List Char} :
    Dialect.python.Exposed (threePasses text) ↔ Dialect.python.Exposed text := by
  constructor
  · rintro ⟨head, char, more, result, isLead, isValue, unmarked⟩
    obtain ⟨first, rest, rfl, isFirst, isMore⟩ := led_of_threePasses result isLead isValue
    refine ⟨head, first, rest, rfl, isLead, isFirst, fun marked => unmarked ?_⟩
    rw [← isMore]
    exact redacted_prefix_threePasses.mpr marked
  · rintro ⟨head, char, value, rfl, isLead, isValue, unmarked⟩
    rw [threePasses_lead isLead]
    have unmarkedLater : ¬ redacted <+: threePasses (char :: value) :=
      fun marked => unmarked (redacted_prefix_threePasses.mp marked)
    by_cases hidden : HiddenAt (char :: value)
    · obtain ⟨more, isMore⟩ :=
        List.head?_eq_some_iff.mp (threePasses_brackets.bracket _ hidden)
      rw [isMore] at unmarkedLater ⊢
      exact ⟨head, '[', more, rfl, isLead, by decide, unmarkedLater⟩
    · rw [threePasses_brackets.keep char value hidden] at unmarkedLater ⊢
      exact ⟨head, char, _, rfl, isLead, isValue, unmarkedLater⟩

/-! ### The fourth pass -/

section Fourth

variable {isWord : Char → Bool} {before : Option Char}

/-- The fourth pass hides every secret of the text behind the letter. -/
def KeepsNone (isWord : Char → Bool) (before : Option Char) (text : List Char) : Prop :=
  (Dialect.python.secretPattern (wordBoundary isWord)).Kept
    (fun before place => ¬ Dialect.python.Refused (wordBoundary isWord) before place) before text

theorem keepsNone_append {front : List Char} (rest : List Char)
    (absent : AbsentIn (LedAt Dialect.python.SecretLead Dialect.python.valueChar) front rest) :
    KeepsNone isWord before (front ++ rest) ↔ KeepsNone isWord (behind before front) rest := by
  apply Pattern.kept_append_of_unmatched Dialect.secret_unmatched _ rest absent before
  intro before place notLed refused
  exact notLed refused.2.ledAt

private theorem behind_of_getLast? {text : List Char} {last : Char}
    (isLast : text.getLast? = some last)
    (before : Option Char) : behind before text = some last := by
  induction text generalizing before with
  | nil => cases isLast
  | cons char rest ih =>
      cases rest with
      | nil => exact isLast
      | cons second more => exact ih isLast (some char)

/-- No secret begins in the end of a text in which no secret word does. -/
theorem absentIn_led_of_clear {text part : List Char}
    (ascii : (text.all fun char => char.toNat < 128) = true)
    (isClear : clear secretWords (text.map Char.toLower) = true) (isPart : part <:+ text)
    (rest : List Char) :
    AbsentIn (LedAt Dialect.python.SecretLead Dialect.python.valueChar) part rest := by
  intro back isBack notEmpty found
  obtain ⟨first, rfl⟩ := isBack.trans isPart
  obtain ⟨word, isWord, starts⟩ := Dialect.name_of_ledAt found
  rw [← @Dialect.map_fold_of_ascii Dialect.python _ ascii, List.map_append] at isClear
  rw [List.map_append] at starts
  exact not_prefix_of_clear isClear (by simpa using notEmpty) isWord starts

private theorem keepsNone_marker {marker part : List Char} (listed : marker ∈ markers)
    (isPart : part <:+ marker) (notEmpty : part ≠ []) (rest : List Char) :
    KeepsNone isWord before (part ++ rest) ↔ KeepsNone isWord (some ']') rest := by
  have tested : (markers.all fun marker => marker.all (fun char => char.toNat < 128) &&
      clear secretWords (marker.map Char.toLower) && marker.getLast? = some ']') = true := by decide
  obtain ⟨facts, isLast⟩ := (Bool.and_eq_true _ _).mp (List.all_eq_true.mp tested marker listed)
  obtain ⟨ascii, isClear⟩ := (Bool.and_eq_true _ _).mp facts
  rw [keepsNone_append rest (absentIn_led_of_clear ascii isClear isPart rest), behind_of_getLast?]
  obtain ⟨first, rfl⟩ := isPart
  rw [← List.getLast?_append_of_ne_nil first notEmpty]
  exact of_decide_eq_true isLast

private theorem keepsNone_stops {rest : List Char} (ended : Stops Dialect.python.valueChar rest)
    (other : Option Char) : KeepsNone isWord before rest ↔ KeepsNone isWord other rest := by
  cases rest with
  | nil => exact Iff.rfl
  | cons char rest =>
      have absent : AbsentIn (LedAt Dialect.python.SecretLead Dialect.python.valueChar) [char]
          rest := absentIn_cons.mpr ⟨Dialect.not_ledAt_of_stop (ended char rfl) rest, absentIn_nil⟩
      exact (@keepsNone_append isWord before [char] rest absent).trans
        (@keepsNone_append isWord other [char] rest absent).symm

private theorem keepsNone_hit {head value rest : List Char}
    (isLead : Dialect.python.SecretLead head)
    (admitted : wordBoundary isWord before head = true) (notEmpty : value ≠ [])
    (areValue : ∀ char ∈ value, Dialect.python.valueChar char = true)
    (ended : Stops Dialect.python.valueChar rest) :
    KeepsNone isWord before (head ++ value ++ rest) ↔
      KeepsNone isWord (behind before (head ++ value)) rest := by
  have isMatch : (Dialect.python.secretPattern (wordBoundary isWord)).length? before
      (head ++ value ++ rest) = some (head ++ value).length := by
    refine pattern_match.mpr ⟨?_, head, value, rfl, isLead, notEmpty, areValue, ended⟩
    obtain ⟨first, part, rfl⟩ := List.exists_cons_of_ne_nil isLead.ne_nil
    exact admitted
  exact Pattern.kept_hit isMatch

theorem PassedOver.ne_nil {front rest : List Char} (passed : PassedOver isWord before front rest) :
    front ≠ [] := by
  cases passed with
  | hidden isHidden =>
      cases isHidden with
      | url isTaken | auth isTaken => exact isTaken.ne_nil
      | license isLength _ _ _ =>
          rintro rfl
          cases isLength
  | value isLead _ _ _ _ _ => exact List.append_ne_nil_of_left_ne_nil isLead.ne_nil _
  | valueThrough isLead _ _ _ _ => exact List.append_ne_nil_of_left_ne_nil isLead.ne_nil _

/-- What is passed over stands for a bracket. -/
theorem keepsNone_passedOver {front rest : List Char}
    (passed : PassedOver isWord before front rest) :
    KeepsNone isWord before (threePasses (front ++ rest)) ↔
      KeepsNone isWord (some ']') (threePasses rest) := by
  cases passed with
  | hidden isHidden =>
      obtain ⟨marker, listed, same⟩ := threePasses_hidden isHidden
      have tested : (markers.all fun marker => !marker.isEmpty) = true := by decide
      have notEmpty := List.all_eq_true.mp tested marker listed
      rw [Bool.not_eq_true', List.isEmpty_eq_false_iff] at notEmpty
      rw [same]
      exact keepsNone_marker listed List.suffix_rfl notEmpty _
  | @value head letters _ isLead admitted notEmpty areValue absent ended =>
      have stopped : Stops Dialect.python.valueChar (threePasses rest) :=
        threePasses_brackets.stops (fun _ _ hidden => (first_of_hiddenAt hidden).1) ended
      rw [List.append_assoc, threePasses_lead isLead, threePasses_brackets.append absent,
        ← List.append_assoc, keepsNone_hit isLead admitted notEmpty areValue stopped]
      exact keepsNone_stops stopped _
  | @valueThrough head letters hiddenPart _ isLead admitted areValue absent isHidden =>
      obtain ⟨marker, listed, same⟩ := threePasses_hidden isHidden
      have tested : (markers.all fun marker =>
          !(marker.takeWhile Dialect.python.valueChar).isEmpty &&
            !(marker.dropWhile Dialect.python.valueChar).isEmpty) = true := by decide
      obtain ⟨someTaken, someLeft⟩ :=
        (Bool.and_eq_true _ _).mp (List.all_eq_true.mp tested marker listed)
      rw [Bool.not_eq_true', List.isEmpty_eq_false_iff] at someTaken someLeft
      have stopped : Stops Dialect.python.valueChar
          (marker.dropWhile Dialect.python.valueChar ++ threePasses rest) := by
        intro char isFirst
        rw [List.head?_append_of_ne_nil _ someLeft] at isFirst
        exact ended_dropWhile marker char isFirst
      have areValues : ∀ char ∈ letters ++ marker.takeWhile Dialect.python.valueChar,
          Dialect.python.valueChar char = true := by
        intro char member
        rcases List.mem_append.mp member with inLetters | inMarker
        · exact areValue char inLetters
        · exact List.mem_takeWhile_imp inMarker
      have whole : threePasses (head ++ (letters ++ hiddenPart) ++ rest) =
          head ++ (letters ++ marker.takeWhile Dialect.python.valueChar) ++
            (marker.dropWhile Dialect.python.valueChar ++ threePasses rest) := by
        rw [List.append_assoc, threePasses_lead isLead, List.append_assoc,
          threePasses_brackets.append absent, same]
        simp only [List.append_assoc]
        rw [← List.append_assoc (marker.takeWhile _), List.takeWhile_append_dropWhile]
      rw [whole, keepsNone_hit isLead admitted
        (List.append_ne_nil_of_right_ne_nil letters someTaken) areValues stopped]
      exact keepsNone_marker listed (List.dropWhile_suffix _) someLeft _

private theorem exists_value (text : List Char) :
    ∃ letters rest, text = letters ++ rest ∧
      (∀ char ∈ letters, Dialect.python.valueChar char = true) ∧ AbsentIn HiddenAt letters rest ∧
        (HiddenAt rest ∨ Stops Dialect.python.valueChar rest) := by
  induction text with
  | nil => exact ⟨[], [], rfl, nofun, absentIn_nil, Or.inr nofun⟩
  | cons char text ih =>
      by_cases hidden : HiddenAt (char :: text)
      · exact ⟨[], _, rfl, nofun, absentIn_nil, Or.inl hidden⟩
      · cases isValue : Dialect.python.valueChar char with
        | false =>
            exact ⟨[], _, rfl, nofun, absentIn_nil,
              Or.inr (@PrefixCode.ended_cons _ (fun char => Dialect.python.valueChar char = false)
                char isValue text)⟩
        | true =>
            obtain ⟨letters, rest, rfl, areValue, absent, ends⟩ := ih
            exact ⟨char :: letters, rest, rfl, List.forall_mem_cons.mpr ⟨isValue, areValue⟩,
              absentIn_cons.mpr ⟨hidden, absent⟩, ends⟩

private theorem exists_passedOver {head rest : List Char} {first : Char}
    (isLead : Dialect.python.SecretLead head) (admitted : wordBoundary isWord before head = true)
    (isValue : Dialect.python.valueChar first = true) :
    ∃ front more, head ++ first :: rest = front ++ more ∧ PassedOver isWord before front more := by
  obtain ⟨letters, more, isText, areValue, absent, ends⟩ := exists_value (first :: rest)
  rw [isText]
  rcases ends with ⟨front, behindIt, rfl, isHidden⟩ | ended
  · exact ⟨head ++ (letters ++ front), behindIt, by simp only [List.append_assoc],
      .valueThrough isLead admitted areValue absent isHidden⟩
  · refine ⟨head ++ letters, more, (List.append_assoc _ _ _).symm,
      .value isLead admitted ?_ areValue absent ended⟩
    rintro rfl
    rw [List.nil_append] at isText
    rw [← isText] at ended
    have stops : Dialect.python.valueChar first = false := ended first rfl
    rw [isValue] at stops
    cases stops

private theorem keepsNone_letter {char : Char} {rest : List Char}
    (notPassed :
      ∀ front more, char :: rest = front ++ more → ¬ PassedOver isWord before front more) :
    KeepsNone isWord before (threePasses (char :: rest)) ↔
      ¬ Dialect.python.Refused (wordBoundary isWord) before (char :: rest) ∧
        KeepsNone isWord (some char) (threePasses rest) := by
  have notHidden : ¬ HiddenAt (char :: rest) := by
    rintro ⟨front, more, isText, hidden⟩
    exact notPassed front more isText (.hidden hidden)
  have kept := threePasses_brackets.keep char rest notHidden
  have unmatched : (Dialect.python.secretPattern (wordBoundary isWord)).length? before
      (char :: threePasses rest) = none := by
    refine Dialect.secret_none.mpr fun admitted => ?_
    rw [← kept]
    rintro ⟨head, value, more, result, isLead, isValue⟩
    obtain ⟨first, others, isText, isFirst, -⟩ := led_of_threePasses result isLead isValue
    obtain ⟨letter, head, rfl⟩ := List.exists_cons_of_ne_nil isLead.ne_nil
    rw [List.cons_append] at isText
    have headAdmitted : wordBoundary isWord before (letter :: head) = true := by
      rw [← (List.cons.inj isText).1]
      exact admitted
    obtain ⟨front, more, isWhole, passed⟩ :=
      @exists_passedOver isWord before (letter :: head) others first isLead headAdmitted isFirst
    exact notPassed front more (isText.trans isWhole) passed
  have refusedIff : Dialect.python.Refused (wordBoundary isWord) before (char :: threePasses rest) ↔
      Dialect.python.Refused (wordBoundary isWord) before (char :: rest) := by
    have exposed := @exposed_threePasses (char :: rest)
    rw [kept] at exposed
    exact and_congr_right fun _ => exposed
  unfold KeepsNone
  rw [kept, Pattern.kept_keep unmatched, refusedIff]

/-- The fourth pass hides every secret exactly if the reading of the input shows none. -/
theorem keepsNone_iff (before : Option Char) (text : List Char) :
    KeepsNone isWord before (threePasses text) ↔ NoneShown isWord before text := by
  constructor
  · intro kept
    induction size : text.length using Nat.strongRecOn generalizing before text with
    | _ size ih =>
        subst size
        by_cases passes : ∃ front rest, text = front ++ rest ∧ PassedOver isWord before front rest
        · obtain ⟨front, rest, rfl, passed⟩ := passes
          have shorter : rest.length < (front ++ rest).length := by
            have positive := List.length_pos_of_ne_nil passed.ne_nil
            rw [List.length_append]
            omega
          exact .passed passed (ih _ shorter _ rest ((keepsNone_passedOver passed).mp kept) rfl)
        · cases text with
          | nil => exact .done
          | cons char rest =>
              have notPassed : ∀ front more, char :: rest = front ++ more →
                  ¬ PassedOver isWord before front more :=
                fun front more isText passed => passes ⟨front, more, isText, passed⟩
              obtain ⟨notRefused, later⟩ := (keepsNone_letter notPassed).mp kept
              exact .letter notPassed notRefused (ih _ (Nat.lt_succ_self _) _ rest later rfl)
  · intro shown
    induction shown with
    | done => exact Pattern.kept_nil _
    | passed passed _ ih => exact (keepsNone_passedOver passed).mpr ih
    | letter notPassed notRefused _ ih => exact (keepsNone_letter notPassed).mpr ⟨notRefused, ih⟩

end Fourth

end OciTransfer
