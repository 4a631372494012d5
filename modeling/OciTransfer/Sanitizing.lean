import OciTransfer.Reading

/-!
Error texts with what must not be shown taken out of them.

Both programs replace one pattern after the other.  Their patterns are alike, but not
their notions of a space and of letters that differ only in case; only Python looks
for license keys, and only Python wants a secret word to begin at the beginning of a
word.
-/

namespace OciTransfer

open Rewriting Reading

/-- What the regular expressions of a language take for the same letter, and for a space. -/
structure Dialect where
  fold : Char → Char
  space : Char → Bool
  fold_ascii : ∀ char, char.toNat < 128 → fold char = char.toLower
  fold_space : ∀ char, space char = true → fold char = char
  printable : ∀ char, 33 ≤ char.toNat → char.toNat < 127 → space char = false

namespace Dialect

/-- `str.isspace`. -/
def pythonSpaces : List Char :=
  ['\t', '\n', '\x0b', '\x0c', '\r', '\x1c', '\x1d', '\x1e', '\x1f', ' ', '\u0085', '\u00a0',
    '\u1680', '\u2000', '\u2001', '\u2002', '\u2003', '\u2004', '\u2005', '\u2006', '\u2007',
    '\u2008', '\u2009', '\u200a', '\u2028', '\u2029', '\u202f', '\u205f', '\u3000']

def goSpaces : List Char := ['\t', '\n', '\x0c', '\r', ' ']

/-- `IGNORECASE`: the long s, the Kelvin sign and two forms of the i are ASCII letters too. -/
def pythonFold (char : Char) : Char :=
  if char = '\u017f' then 's' else if char = '\u212a' then 'k'
  else if char = '\u0131' ∨ char = '\u0130' then 'i' else char.toLower

/-- `(?i)`: the long s and the Kelvin sign are ASCII letters too. -/
def goFold (char : Char) : Char :=
  if char = '\u017f' then 's' else if char = '\u212a' then 'k' else char.toLower

private theorem not_mem_of_printable {spaces : List Char}
    (apart : (spaces.all fun char => char.toNat < 33 || 127 ≤ char.toNat) = true) (char : Char)
    (low : 33 ≤ char.toNat) (high : char.toNat < 127) : spaces.contains char = false := by
  rw [← Bool.not_eq_true, List.contains_iff_mem]
  intro member
  have outside := List.all_eq_true.mp apart char member
  rw [Bool.or_eq_true, decide_eq_true_eq, decide_eq_true_eq] at outside
  omega

private theorem fold_of_mem {spaces : List Char} {fold : Char → Char}
    (kept : (spaces.all fun char => fold char = char) = true) (char : Char)
    (member : spaces.contains char = true) : fold char = char :=
  of_decide_eq_true (List.all_eq_true.mp kept char (List.contains_iff_mem.mp member))

private theorem ne_of_ascii {char other : Char} (ascii : char.toNat < 128)
    (beyond : 128 ≤ other.toNat) :
    char ≠ other := by
  rintro rfl
  omega

def python : Dialect where
  fold := pythonFold
  space := pythonSpaces.contains
  fold_ascii := by
    intro char ascii
    have notI : ¬ (char = '\u0131' ∨ char = '\u0130') := by
      rintro (isI | isI)
      · exact ne_of_ascii ascii (by decide) isI
      · exact ne_of_ascii ascii (by decide) isI
    unfold pythonFold
    rw [if_neg (ne_of_ascii ascii (by decide)), if_neg (ne_of_ascii ascii (by decide)), if_neg notI]
  fold_space := fold_of_mem (by decide)
  printable := not_mem_of_printable (by decide)

def go : Dialect where
  fold := goFold
  space := goSpaces.contains
  fold_ascii := by
    intro char ascii
    unfold goFold
    rw [if_neg (ne_of_ascii ascii (by decide)), if_neg (ne_of_ascii ascii (by decide))]
  fold_space := fold_of_mem (by decide)
  printable := not_mem_of_printable (by decide)

end Dialect

def urlWords : List (List Char) := ["http://".toList, "https://".toList]

def authWords : List (List Char) := ["bearer".toList, "basic".toList]

/-- `password|passwd|token|secret|api[_-]?key|access[_-]?key`. -/
def secretWords : List (List Char) :=
  ["password".toList, "passwd".toList, "token".toList, "secret".toList, "apikey".toList,
    "api_key".toList, "api-key".toList, "accesskey".toList, "access_key".toList,
    "access-key".toList]

def signs (char : Char) : Bool := char = '=' || char = ':'

namespace Dialect

variable (dialect : Dialect)

def nonspace (char : Char) : Bool := !dialect.space char

/-- `[^\s,;]`. -/
def valueChar (char : Char) : Bool := !dialect.space char && char ≠ ',' && char ≠ ';'

/-- `https?://\S+`. -/
def url : List Char → Option Nat :=
  seq (literal dialect.fold urlWords) (plus dialect.nonspace)

/-- `(?:Bearer|Basic)\s+\S+`. -/
def auth : List Char → Option Nat :=
  seq (literal dialect.fold authWords) (seq (plus dialect.space) (plus dialect.nonspace))

/-- `(password|...)\s*[=:]\s*[^\s,;]+`. -/
def assignment : List Char → Option Nat :=
  seq (literal dialect.fold secretWords) (seq (star dialect.space) (seq (one signs)
    (seq (star dialect.space) (plus dialect.valueChar))))

end Dialect

def licenseLetter (char : Char) : Bool := char.isDigit || char.isUpper

/-- The texts `ONPRM(?:-[0-9A-Z]{5}){5}`. -/
def licenseKey (key : List Char) : Bool :=
  key.take 5 = "ONPRM".toList && (key.drop 5).zipIdx.all fun entry =>
    if entry.2 % 6 = 0 then entry.1 = '-' else licenseLetter entry.1

def license : List Char → Option Nat := exactly 35 licenseKey

theorem apart_of_all {literals : List (List Char)}
    (tested : (literals.all fun word => literals.all fun other =>
      !word.isPrefixOf other || word = other) = true) : Apart literals := by
  intro word member other otherMember starts
  have tests := List.all_eq_true.mp (List.all_eq_true.mp tested word member) other otherMember
  rw [List.isPrefixOf_iff_prefix.mpr starts, Bool.not_true, Bool.false_or] at tests
  exact of_decide_eq_true tests

/-- Letters that lead, and a run of letters that pass a test and are not followed by one. -/
def Taken (lead : List Char → Prop) (test : Char → Bool) (front rest : List Char) : Prop :=
  ∃ head value, front = head ++ value ∧ lead head ∧ value ≠ [] ∧
    (∀ char ∈ value, test char = true) ∧ Stops test rest

/-- A place at which such letters begin. -/
def LedAt (lead : List Char → Prop) (test : Char → Bool) (place : List Char) : Prop :=
  ∃ head char rest, place = head ++ char :: rest ∧ lead head ∧ test char = true

theorem Taken.ne_nil {lead : List Char → Prop} {test : Char → Bool} {front rest : List Char}
    (taken : Taken lead test front rest) : front ≠ [] := by
  obtain ⟨head, value, rfl, -, notEmpty, -⟩ := taken
  exact List.append_ne_nil_of_right_ne_nil head notEmpty

theorem Taken.ended {lead : List Char → Prop} {test : Char → Bool} {front rest : List Char}
    (taken : Taken lead test front rest) :
    Stops test rest := by
  obtain ⟨_, _, _, _, _, _, ended⟩ := taken
  exact ended

theorem reads_none {reader : List Char → Option Nat} {lead : List Char → Prop}
    {test : Char → Bool} (reads : Reads reader (Taken lead test)) {place : List Char} :
    reader place = none ↔ ¬ LedAt lead test place := by
  constructor
  · rintro unread ⟨head, char, rest, rfl, isLead, passes⟩
    have read : reader (head ++ char :: rest) =
        some (head ++ (char :: rest).takeWhile test).length := by
      refine (reads _ _).mpr ⟨head ++ (char :: rest).takeWhile test, (char :: rest).dropWhile test,
        ?_, rfl, head, _, rfl, isLead, ?_, ?_, ended_dropWhile _⟩
      · rw [List.append_assoc, List.takeWhile_append_dropWhile]
      · rw [List.takeWhile_cons, passes]
        exact List.cons_ne_nil _ _
      · exact fun letter member => List.mem_takeWhile_imp member
    rw [unread] at read
    cases read
  · intro absent
    cases read : reader place with
    | none => rfl
    | some length =>
        obtain ⟨front, rest, rfl, -, head, value, rfl, isLead, notEmpty, passes, -⟩ :=
          (reads _ _).mp read
        obtain ⟨char, more, rfl⟩ := List.exists_cons_of_ne_nil notEmpty
        refine absurd ⟨head, char, more ++ rest, ?_, isLead, passes char List.mem_cons_self⟩ absent
        rw [List.append_assoc, List.cons_append]

namespace Dialect

variable (dialect : Dialect)

def UrlLead (head : List Char) : Prop := head.map dialect.fold ∈ urlWords

def AuthLead (head : List Char) : Prop :=
  ∃ word spaces, head = word ++ spaces ∧ word.map dialect.fold ∈ authWords ∧ spaces ≠ [] ∧
    ∀ char ∈ spaces, dialect.space char = true

def SecretLead (head : List Char) : Prop :=
  ∃ name spaces sign more, head = name ++ (spaces ++ sign :: more) ∧
    name.map dialect.fold ∈ secretWords ∧ (∀ char ∈ spaces, dialect.space char = true) ∧
      signs sign = true ∧ ∀ char ∈ more, dialect.space char = true

variable {dialect}

theorem not_space {char : Char} (low : 33 ≤ char.toNat) (high : char.toNat < 127) :
    ¬ dialect.space char = true := by
  rw [dialect.printable char low high]
  exact Bool.false_ne_true

private theorem nonspace_of_valueChar {char : Char} (isValue : dialect.valueChar char = true) :
    dialect.space char = false := by
  unfold valueChar at isValue
  rw [Bool.and_eq_true, Bool.and_eq_true, Bool.not_eq_true'] at isValue
  exact isValue.1.1

theorem sign_cases {char : Char} (isSign : signs char = true) : char = '=' ∨ char = ':' := by
  unfold signs at isSign
  rw [Bool.or_eq_true, decide_eq_true_eq, decide_eq_true_eq] at isSign
  exact isSign

private theorem not_space_of_signs {char : Char} (isSign : signs char = true) :
    dialect.space char = false := by
  rcases sign_cases isSign with rfl | rfl
  · exact dialect.printable _ (by decide) (by decide)
  · exact dialect.printable _ (by decide) (by decide)

private theorem ended_of_not_space {text rest : List Char} (notEmpty : text ≠ [])
    (first : ∀ char, text.head? = some char → dialect.space char = false) :
    Stops dialect.space (text ++ rest) := by
  obtain ⟨char, more, rfl⟩ := List.exists_cons_of_ne_nil notEmpty
  exact @PrefixCode.ended_cons _ (fun char => dialect.space char = false) char (first char rfl) _

theorem url_reads : Reads dialect.url (Taken dialect.UrlLead dialect.nonspace) :=
  (literal_reads (apart_of_all (by decide))).seq plus_reads

theorem auth_reads : Reads dialect.auth (Taken dialect.AuthLead dialect.nonspace) := by
  have parts := (@literal_reads _ _ dialect.fold authWords (apart_of_all (by decide))).seq
    ((@plus_reads _ dialect.space).seq (@plus_reads _ dialect.nonspace))
  intro text length
  rw [auth, parts text length]
  constructor
  · rintro ⟨front, rest, isText, isLength, word, tail, rfl, isWord, spaces, value, rfl,
      ⟨someSpaces, areSpaces, -⟩, someValue, isValue, ended⟩
    exact ⟨_, rest, isText, isLength, word ++ spaces, value, (List.append_assoc _ _ _).symm,
      ⟨word, spaces, rfl, isWord, someSpaces, areSpaces⟩, someValue, isValue, ended⟩
  · rintro ⟨front, rest, isText, isLength, head, value, rfl,
      ⟨word, spaces, rfl, isWord, someSpaces, areSpaces⟩, someValue, isValue, ended⟩
    refine ⟨_, rest, isText, isLength, word, spaces ++ value, List.append_assoc _ _ _, isWord,
      spaces, value, rfl, ⟨someSpaces, areSpaces, ?_⟩, someValue, isValue, ended⟩
    apply ended_of_not_space someValue
    intro char first
    have nonspace := isValue char (List.mem_of_mem_head? first)
    exact (Bool.not_eq_true' _).mp nonspace

theorem assignment_reads :
    Reads dialect.assignment (Taken dialect.SecretLead dialect.valueChar) := by
  have parts := (@literal_reads _ _ dialect.fold secretWords (apart_of_all (by decide))).seq
    ((@star_reads _ dialect.space).seq ((@one_reads _ signs).seq
      ((@star_reads _ dialect.space).seq (@plus_reads _ dialect.valueChar))))
  intro text length
  rw [assignment, parts text length]
  constructor
  · rintro ⟨front, rest, isText, isLength, name, tail, rfl, isName, spaces, behindSpaces, rfl,
      ⟨areSpaces, -⟩, sign, behindSign, rfl, ⟨letter, rfl, isSign⟩, more, value, rfl, ⟨areMore, -⟩,
      someValue, isValue, ended⟩
    refine ⟨_, rest, isText, isLength, name ++ (spaces ++ letter :: more), value, ?_,
      ⟨name, spaces, letter, more, rfl, isName, areSpaces, isSign, areMore⟩, someValue, isValue,
      ended⟩
    simp only [List.append_assoc, List.cons_append, List.nil_append]
  · rintro ⟨front, rest, isText, isLength, head, value, rfl,
      ⟨name, spaces, sign, more, rfl, isName, areSpaces, isSign, areMore⟩, someValue, isValue,
      ended⟩
    have signEnds : Stops dialect.space (([sign] ++ (more ++ value)) ++ rest) :=
      @PrefixCode.ended_cons _ (fun char => dialect.space char = false) sign
        (not_space_of_signs isSign) _
    have valueEnds : Stops dialect.space (value ++ rest) := by
      apply ended_of_not_space someValue
      intro char first
      exact nonspace_of_valueChar (isValue char (List.mem_of_mem_head? first))
    refine ⟨_, rest, isText, isLength, name, spaces ++ ([sign] ++ (more ++ value)), ?_, isName,
      spaces, [sign] ++ (more ++ value), rfl, ⟨areSpaces, signEnds⟩, [sign], more ++ value, rfl,
      ⟨sign, rfl, isSign⟩, more, value, rfl, ⟨areMore, valueEnds⟩, someValue, isValue, ended⟩
    simp only [List.append_assoc, List.cons_append, List.nil_append]

end Dialect

def LicenseAt (place : List Char) : Prop :=
  ∃ key rest, place = key ++ rest ∧ key.length = 35 ∧ licenseKey key = true

theorem license_none {place : List Char} : license place = none ↔ ¬ LicenseAt place := by
  constructor
  · rintro unread ⟨key, rest, rfl, isLength, isKey⟩
    have read := (exactly_reads (key ++ rest) 35).mpr ⟨key, rest, rfl, isLength, isLength, isKey⟩
    rw [← license, unread] at read
    cases read
  · intro absent
    cases read : license place with
    | none => rfl
    | some length =>
        obtain ⟨key, rest, rfl, -, isLength, isKey⟩ := (exactly_reads _ _).mp read
        exact absurd ⟨key, rest, rfl, isLength, isKey⟩ absent

/-- `\b` before a text; `isWord` says which characters make up words. -/
def wordBoundary (isWord : Char → Bool) (before : Option Char) (text : List Char) : Bool :=
  before.any isWord != text.head?.any isWord

def anywhere (_ : Option Char) (_ : List Char) : Bool := true

def urlMarker : List Char := "[URL REDACTED]".toList

def authMarker : List Char := "[AUTH REDACTED]".toList

def licenseMarker : List Char := "[LICENSE REDACTED]".toList

def redacted : List Char := "[REDACTED]".toList

def licensePattern : Pattern Char :=
  Reading.pattern (exactly_reads : Reads license _)
    (by rintro front rest ⟨isLength, -⟩ rfl; cases isLength) anywhere

def redactLicenses (text : List Char) : List Char :=
  licensePattern.sub (fun _ => licenseMarker) none text

namespace Dialect

variable (dialect : Dialect)

def urlPattern : Pattern Char :=
  Reading.pattern (@url_reads dialect) (fun _ _ => Taken.ne_nil) anywhere

def authPattern : Pattern Char :=
  Reading.pattern (@auth_reads dialect) (fun _ _ => Taken.ne_nil) anywhere

def secretPattern (admits : Option Char → List Char → Bool) : Pattern Char :=
  Reading.pattern (@assignment_reads dialect) (fun _ _ => Taken.ne_nil) admits

def redactUrls (text : List Char) : List Char :=
  dialect.urlPattern.sub (fun _ => urlMarker) none text

def redactAuth (text : List Char) : List Char :=
  dialect.authPattern.sub (fun _ => authMarker) none text

/-- The name in a match, an equals sign and the marker. -/
def redactValue (matched : List Char) : List Char :=
  matched.take ((literal dialect.fold secretWords matched).getD 0) ++ '=' :: redacted

def redactSecrets (admits : Option Char → List Char → Bool) (text : List Char) : List Char :=
  (dialect.secretPattern admits).sub dialect.redactValue none text

end Dialect

/-- The four substitutions of `sanitize_error_detail`. -/
def redactDetail (isWord : Char → Bool) (text : List Char) : List Char :=
  Dialect.python.redactSecrets (wordBoundary isWord)
    (redactLicenses (Dialect.python.redactAuth (Dialect.python.redactUrls text)))

/-- `str(value or "unspecified failure")` of a text. -/
def messageOf (value : String) : List Char :=
  (if value = "" then "unspecified failure" else value).toList

/-- `sanitize_error_detail` of a text. -/
def sanitizeErrorDetail (isWord : Char → Bool) (value : String) (maximum : Nat) : String :=
  String.ofList ((redactDetail isWord (messageOf value)).take maximum)

/-- The three substitutions of `sanitizeError`. -/
def redactError (text : List Char) : List Char :=
  Dialect.go.redactSecrets anywhere (Dialect.go.redactAuth (Dialect.go.redactUrls text))

def asciiWord (char : Char) : Bool := char.isAlphanum || char = '_'

example : sanitizeErrorDetail asciiWord "Basic x token = abc, Api-Key:d https://e" 1000 =
    "[AUTH REDACTED] token=[REDACTED], Api-Key=[REDACTED] [URL REDACTED]" := by decide

end OciTransfer
