import OciTransfer.OneReading
import Mathlib.Logic.Function.Iterate

/-!
What sanitized texts show, and that sanitizing them again changes nothing.

The first three passes leave nothing of what they look for.  The fourth hides every
secret that its pattern does not refuse; a secret word at the end of a longer name is
refused by Python's pattern and not by Go's.
-/

namespace OciTransfer

open Rewriting Reading

theorem prefix_append_cases {front back part : List Char} (starts : part <+: front ++ back) :
    part <+: front ∨ ∃ more, part = front ++ more ∧ more <+: back := by
  rcases List.prefix_or_prefix_of_prefix starts (List.prefix_append front back) with inside | beyond
  · exact Or.inl inside
  · obtain ⟨more, rfl⟩ := beyond
    exact Or.inr ⟨more, rfl, (List.prefix_append_right_inj front).mp starts⟩

private theorem take_of_between {text whole : List Char} {length : Nat}
    (inner : whole.take length <+: text) (outer : text <+: whole) :
    text.take length = whole.take length := by
  have least := inner.length_le
  have most := outer.length_le
  rw [List.length_take] at least
  rw [List.prefix_iff_eq_take.mp outer, List.take_take, List.take_eq_take_iff]
  omega

namespace Dialect

variable {dialect : Dialect} {admits : Option Char → List Char → Bool}

private theorem sub_secrets_cons (before : Option Char) (char : Char) (rest : List Char) :
    ∃ more, (dialect.secretPattern admits).sub dialect.redactValue before (char :: rest) =
      char :: more := by
  generalize isText : char :: rest = text
  induction before, text using Pattern.scan_induction (dialect.secretPattern admits) with
  | done before => cases isText
  | keep before letter text unmatched _ =>
      rw [Pattern.sub_keep unmatched, (List.cons.inj isText).1]
      exact ⟨_, rfl⟩
  | hit before matched text _ isMatch _ =>
      obtain ⟨name, stop, tail, isMatched, isName, _, isValue⟩ := secret_match isMatch
      obtain ⟨first, part, rfl⟩ := List.exists_cons_of_ne_nil (name_ne_nil isName)
      rw [isMatched] at isText
      rw [Pattern.sub_hit isMatch, isValue, (List.cons.inj isText).1]
      exact ⟨_, rfl⟩

private theorem prefix_of_sub_secrets {front : List Char}
    (isClear : clear secretWords (front.map dialect.fold) = true) (before : Option Char)
    (text : List Char)
    (starts : front <+: (dialect.secretPattern admits).sub dialect.redactValue before text) :
    front <+: text := by
  induction before, text using Pattern.scan_induction (dialect.secretPattern admits)
    generalizing front with
  | done before => exact starts
  | keep before letter text unmatched ih =>
      cases front with
      | nil => exact List.nil_prefix
      | cons char front =>
          have later : clear secretWords (front.map dialect.fold) = true := by
            rw [List.map_cons, clear, List.tails_cons, List.all_cons, Bool.and_eq_true] at isClear
            exact isClear.2
          rw [Pattern.sub_keep unmatched, List.cons_prefix_cons] at starts
          rw [List.cons_prefix_cons]
          exact ⟨starts.1, ih later starts.2⟩
  | hit before matched text _ isMatch _ =>
      obtain ⟨name, stop, tail, _, isName, _, isValue⟩ := secret_match isMatch
      rw [Pattern.sub_hit isMatch, isValue] at starts
      obtain ⟨more, isWhole⟩ := starts
      cases front with
      | nil => exact List.nil_prefix
      | cons char front =>
          have begins : name.map dialect.fold <+:
              (char :: front).map dialect.fold ++ more.map dialect.fold := by
            rw [← List.map_append, isWhole, List.append_assoc, List.map_append]
            exact List.prefix_append _ _
          rw [← List.nil_append ((char :: front).map dialect.fold)] at isClear
          exact absurd begins (not_prefix_of_clear isClear (List.cons_ne_nil _ _) isName)

private theorem exposed_sub_secrets {letter : Char} {rest : List Char}
    (exposed : dialect.Exposed (letter :: rest)) :
    dialect.Exposed (letter ::
      (dialect.secretPattern admits).sub dialect.redactValue (some letter) rest) := by
  obtain ⟨head, char, value, isPlace, isLead, isValue, unmarked⟩ := exposed
  obtain ⟨name, tail, isHead, isName, _⟩ := isLead.parts
  obtain ⟨first, part, rfl⟩ := List.exists_cons_of_ne_nil (name_ne_nil isName)
  rw [isHead, List.cons_append] at isLead
  rw [isHead, List.cons_append, List.cons_append] at isPlace
  rw [(List.cons.inj isPlace).1, (List.cons.inj isPlace).2]
  have stays : (dialect.secretPattern admits).sub dialect.redactValue (some first)
      (part ++ tail ++ char :: value) = part ++ tail ++ (dialect.secretPattern admits).sub
        dialect.redactValue (behind (some first) (part ++ tail)) (char :: value) := by
    apply Pattern.sub_append_of_unmatched secret_unmatched
    exact fun back isBack notEmpty => isLead.unmatched_behind isBack notEmpty _
  rw [stays]
  obtain ⟨more, isMore⟩ := @sub_secrets_cons dialect admits (behind (some first) (part ++ tail))
    char value
  refine ⟨first :: (part ++ tail), char, more, by rw [isMore]; rfl, isLead, isValue, ?_⟩
  intro marked
  rw [← isMore] at marked
  have isClear : clear secretWords (redacted.map dialect.fold) = true := by
    rw [map_fold_of_ascii (by decide)]
    decide
  exact unmarked (prefix_of_sub_secrets isClear _ _ marked)

private theorem hidden_iff {before : Option Char} {text : List Char} :
    Absent dialect.Exposed
        ((dialect.secretPattern admits).sub dialect.redactValue before text) ↔
      (dialect.secretPattern admits).Kept (fun before place =>
        ¬ dialect.Refused admits before place)
        before text := by
  have same : ∀ before place, (dialect.secretPattern admits).length? before place = none →
      (¬ dialect.Refused admits before place ↔ ¬ dialect.Exposed place) := by
    intro before place unmatched
    rw [secret_none] at unmatched
    apply not_congr
    constructor
    · exact fun refused => refused.2
    · intro exposed
      refine ⟨?_, exposed⟩
      rw [← Bool.not_eq_true]
      exact fun admitted => unmatched admitted exposed.ledAt
  rw [Pattern.kept_congr same]
  constructor
  · intro absent
    induction before, text using Pattern.scan_induction (dialect.secretPattern admits) with
    | done before => exact Pattern.kept_nil before
    | keep before letter rest unmatched ih =>
        rw [Pattern.sub_keep unmatched] at absent
        rw [Pattern.kept_keep unmatched]
        have here := absent _ List.suffix_rfl (List.cons_ne_nil _ _)
        exact ⟨fun exposed => here (exposed_sub_secrets exposed), ih absent.tail⟩
    | hit before matched rest _ isMatch ih =>
        rw [Pattern.sub_hit isMatch] at absent
        exact (Pattern.kept_hit isMatch).mpr (ih absent.drop)
  · exact Pattern.sub_absent closedBefore_exposed closedInside_exposed

/-! ### Beginnings of what the fourth pass leaves -/

private theorem sub_secrets_of_ended {text : List Char}
    (ended : Stops dialect.valueChar text)
    (before other : Option Char) :
    (dialect.secretPattern admits).sub dialect.redactValue before text =
      (dialect.secretPattern admits).sub dialect.redactValue other text := by
  cases text with
  | nil => rfl
  | cons char rest =>
      have unmatched : ∀ before,
          (dialect.secretPattern admits).length? before (char :: rest) = none :=
        fun before => secret_unmatched before _ (not_ledAt_of_stop (ended char rfl) rest)
      rw [Pattern.sub_keep (unmatched before), Pattern.sub_keep (unmatched other)]

/-- Whether the pattern is admitted at a place depends on the two letters there. -/
def AtBoundary (admits : Option Char → List Char → Bool) : Prop :=
  ∀ before char rest more, admits before (char :: rest) = admits before (char :: more)

private theorem absent_name {name part : List Char} (isName : name.map dialect.fold ∈ secretWords)
    (starts : part <+: name ++ ['=']) :
    Absent (LedAt dialect.SecretLead dialect.valueChar) part := by
  intro place isPlace _ found
  obtain ⟨front, rfl⟩ := isPlace
  obtain ⟨more, isWhole⟩ := starts
  obtain ⟨head, char, rest, rfl, isLead, _⟩ := found
  obtain ⟨other, tail, rfl, _, someTail, arePauses⟩ := isLead.parts
  obtain ⟨stop, tail, rfl⟩ := List.exists_cons_of_ne_nil someTail
  have parted : front ++ (other ++ stop :: tail) ++ char :: (rest ++ more) = name ++ ['='] := by
    rw [← isWhole]
    simp only [List.append_assoc, List.cons_append]
  have isShort := congrArg List.dropLast parted
  rw [List.dropLast_concat, List.dropLast_append_of_ne_nil (List.cons_ne_nil _ _)] at isShort
  have member : stop ∈ name := by
    rw [← isShort]
    refine List.mem_append_left _ (List.mem_append_right front ?_)
    exact List.mem_append_right other List.mem_cons_self
  exact not_letter_of_pause (arePauses stop List.mem_cons_self) (fold_mem_flatten isName member)

private theorem sub_secrets_assignment {name value rest : List Char} {before : Option Char}
    (isName : name.map dialect.fold ∈ secretWords) (someValue : value ≠ [])
    (areValue : ∀ char ∈ value, dialect.valueChar char = true)
    (ended : Stops dialect.valueChar rest)
    (admitted : admits before (name ++ '=' :: value ++ rest) = true) :
    (dialect.secretPattern admits).sub dialect.redactValue before (name ++ '=' :: value ++ rest) =
      name ++ '=' :: redacted ++ (dialect.secretPattern admits).sub dialect.redactValue
        (behind before (name ++ '=' :: value)) rest := by
  have isTaken : Taken dialect.SecretLead dialect.valueChar (name ++ '=' :: value) rest := by
    refine ⟨name ++ ['='], value, List.append_cons _ _ _, ?_, someValue, areValue, ended⟩
    exact ⟨name, [], '=', [], rfl, isName, nofun, rfl, nofun⟩
  have isMatch : (dialect.secretPattern admits).length? before (name ++ '=' :: value ++ rest) =
      some (name ++ '=' :: value).length := pattern_match.mpr ⟨admitted, isTaken⟩
  rw [Pattern.sub_hit isMatch, redactValue_of_name isName]

private theorem sub_secrets_ended {text : List Char} (before : Option Char)
    (ended : Stops dialect.valueChar text) :
    Stops dialect.valueChar
      ((dialect.secretPattern admits).sub dialect.redactValue before text) := by
  cases text with
  | nil => exact ended
  | cons char rest =>
      obtain ⟨more, isMore⟩ := @sub_secrets_cons dialect admits before char rest
      rw [isMore]
      intro first isFirst
      exact ended first isFirst

private theorem prefix_assignment {name out part : List Char} {before other : Option Char}
    (isName : name.map dialect.fold ∈ secretWords)
    (admitted : ∀ more, admits before (name ++ more) = true)
    (ended : Stops dialect.valueChar out)
    (follows : ∀ later, later <+: out →
      later <+: (dialect.secretPattern admits).sub dialect.redactValue other later ∧
        (dialect.secretPattern admits).sub dialect.redactValue other later <+: out)
    (starts : part <+: name ++ '=' :: redacted ++ out) :
    part <+: (dialect.secretPattern admits).sub dialect.redactValue before part ∧
      (dialect.secretPattern admits).sub dialect.redactValue before part <+:
        name ++ '=' :: redacted ++ out := by
  have sign : ∀ value, name ++ ['='] ++ value = name ++ '=' :: value :=
    fun value => (List.append_cons name '=' value).symm
  have early : ∀ front, front <+: name ++ ['='] →
      (dialect.secretPattern admits).sub dialect.redactValue before front = front := by
    intro front within
    exact Pattern.sub_of_absent secret_unmatched (absent_name isName within)
  have whole := starts
  rw [List.append_assoc, List.cons_append, ← sign] at starts
  rcases prefix_append_cases starts with within | ⟨value, rfl, inValue⟩
  · -- The part ends before the value.
    rw [early part within]
    exact ⟨List.prefix_rfl, whole⟩
  · rcases prefix_append_cases inValue with inside | ⟨later, rfl, isLater⟩
    · -- The part ends in the marker, and the pass completes the marker.
      by_cases empty : value = []
      · rw [empty, List.append_nil] at whole ⊢
        rw [early _ List.prefix_rfl]
        exact ⟨List.prefix_rfl, whole⟩
      · have areValue : ∀ char ∈ value, dialect.valueChar char = true :=
          fun char member => valueChar_redacted (inside.subset member)
        have completes := @sub_secrets_assignment dialect admits name value [] before isName empty
          areValue (fun _ isFirst => by cases isFirst) (by rw [List.append_assoc]; exact admitted _)
        rw [List.append_nil, Pattern.sub_nil, List.append_nil] at completes
        rw [sign, completes]
        refine ⟨?_, List.prefix_append _ _⟩
        rw [List.prefix_append_right_inj, List.cons_prefix_cons]
        exact ⟨rfl, inside⟩
    · -- The part goes on behind the marker.
      have laterEnds : Stops dialect.valueChar later := by
        obtain ⟨rest, isOut⟩ := isLater
        intro char isFirst
        apply ended char
        rw [← isOut, List.head?_append, isFirst]
        rfl
      have again := @sub_secrets_assignment dialect admits name redacted later before isName
        (by decide) (fun char => valueChar_redacted) laterEnds
        (by rw [List.append_assoc]; exact admitted _)
      rw [← List.append_assoc, sign, again, sub_secrets_of_ended laterEnds _ other]
      rw [List.prefix_append_right_inj, List.prefix_append_right_inj]
      exact follows later isLater

private theorem prefix_sub_secrets (atBoundary : AtBoundary admits) (before : Option Char)
    (text : List Char) {part : List Char}
    (starts : part <+: (dialect.secretPattern admits).sub dialect.redactValue before text) :
    part <+: (dialect.secretPattern admits).sub dialect.redactValue before part ∧
      (dialect.secretPattern admits).sub dialect.redactValue before part <+:
        (dialect.secretPattern admits).sub dialect.redactValue before text := by
  induction before, text using Pattern.scan_induction (dialect.secretPattern admits)
    generalizing part with
  | done before =>
      rw [Pattern.sub_nil, List.prefix_nil] at starts
      rw [starts]
      exact ⟨List.prefix_rfl, List.prefix_rfl⟩
  | keep before letter rest unmatched ih =>
      cases part with
      | nil => exact ⟨List.nil_prefix, List.nil_prefix⟩
      | cons char part =>
          rw [Pattern.sub_keep unmatched, List.cons_prefix_cons] at starts
          obtain ⟨rfl, starts⟩ := starts
          obtain ⟨inner, outer⟩ := ih starts
          have still : (dialect.secretPattern admits).length? before (char :: part) = none := by
            apply secret_none.mpr
            intro admitted found
            obtain ⟨more, isWhole⟩ := starts
            have longer := ledAt_append more found
            rw [List.cons_append, isWhole] at longer
            rw [atBoundary before char part rest] at admitted
            exact secret_none.mp unmatched admitted (Pattern.occurs_of_sub closedBefore_assignments
              (some char) rest (List.cons_ne_nil char []) longer)
          rw [Pattern.sub_keep still, Pattern.sub_keep unmatched, List.cons_prefix_cons,
            List.cons_prefix_cons]
          exact ⟨⟨rfl, inner⟩, ⟨rfl, outer⟩⟩
  | hit before matched rest _ isMatch ih =>
      obtain ⟨admitted, isTaken⟩ := pattern_match.mp isMatch
      obtain ⟨name, stop, tail, isMatched, isName, _, isValue⟩ := secret_match isMatch
      have outEnds := @sub_secrets_ended dialect admits _ (behind before matched) isTaken.ended
      rw [Pattern.sub_hit isMatch, isValue] at starts ⊢
      have admittedPart : ∀ more, admits before (name ++ more) = true := by
        intro more
        obtain ⟨first, letters, rfl⟩ := List.exists_cons_of_ne_nil (name_ne_nil isName)
        rw [isMatched] at admitted
        rw [← admitted]
        exact atBoundary before first _ _
      exact prefix_assignment isName admittedPart outEnds (fun _ => ih) starts

/-- The pass over the beginning of its result adds nothing to as much of it. -/
theorem take_sub_secrets (atBoundary : AtBoundary admits) (text : List Char) (length : Nat) :
    (dialect.redactSecrets admits ((dialect.redactSecrets admits text).take length)).take length =
      (dialect.redactSecrets admits text).take length := by
  have starts := List.take_prefix length (dialect.redactSecrets admits text)
  obtain ⟨inner, outer⟩ := prefix_sub_secrets atBoundary none text starts
  exact take_of_between inner outer

end Dialect

/-! ### The two programs -/

/-- No URL, no authorisation and no secret is shown. -/
structure Sanitized (dialect : Dialect) (text : List Char) : Prop where
  url : Absent (LedAt dialect.UrlLead dialect.nonspace) text
  auth : Absent (LedAt dialect.AuthLead dialect.nonspace) text
  secrets : Absent dialect.Exposed text

def errorKinds : List (Dialect.Kind Dialect.go) := [Dialect.go.urlKind, Dialect.go.authKind]

private theorem redactDetail_eq (isWord : Char → Bool) (text : List Char) :
    redactDetail isWord text = Dialect.python.redactSecrets (wordBoundary isWord)
      (Dialect.Kind.redactAll detailKinds text) := rfl

private theorem redactError_eq (text : List Char) :
    redactError text =
      Dialect.go.redactSecrets anywhere (Dialect.Kind.redactAll errorKinds text) := rfl

private theorem atBoundary_wordBoundary (isWord : Char → Bool) :
    Dialect.AtBoundary (wordBoundary isWord) :=
  fun _ _ _ _ => rfl

/-- The first three passes change nothing in the beginnings of what was sanitized. -/
theorem redactDetail_take (isWord : Char → Bool) (text : List Char) (length : Nat) :
    redactDetail isWord ((redactDetail isWord text).take length) =
      Dialect.python.redactSecrets (wordBoundary isWord)
        ((redactDetail isWord text).take length) := by
  have absent : ∀ kind ∈ detailKinds,
      Absent kind.occurs ((redactDetail isWord text).take length) := by
    intro kind member
    have left := Dialect.Kind.absent_redactAll detailKinds text kind member
    rw [redactDetail_eq]
    exact (kind.absent_redactSecrets left).take kind.append length
  rw [redactDetail_eq isWord (List.take _ _), Dialect.Kind.redactAll_of_absent detailKinds absent]

private theorem messageOf_ofList {text : List Char} (notEmpty : text ≠ []) :
    messageOf (String.ofList text) = text := by
  unfold messageOf
  rw [if_neg, String.toList_ofList]
  intro isEmpty
  apply notEmpty
  rw [← @String.toList_ofList text, isEmpty, String.toList_empty]

private theorem messageOf_ne_nil (value : String) : messageOf value ≠ [] := by
  unfold messageOf
  split
  · decide
  · rename_i notEmpty
    exact fun isNil => notEmpty (String.toList_eq_nil_iff.mp isNil)

private theorem redactDetail_ne_nil (isWord : Char → Bool) {text : List Char}
    (notEmpty : text ≠ []) :
    redactDetail isWord text ≠ [] := by
  rw [redactDetail_eq]
  apply Pattern.sub_ne_nil _ none (Dialect.Kind.redactAll_ne_nil detailKinds notEmpty)
  exact fun _ => List.append_ne_nil_of_right_ne_nil _ (List.cons_ne_nil _ _)

private theorem sanitizeErrorDetail_twice (isWord : Char → Bool) (value : String) (maximum : Nat) :
    sanitizeErrorDetail isWord (sanitizeErrorDetail isWord value maximum) maximum =
      sanitizeErrorDetail isWord value maximum := by
  unfold sanitizeErrorDetail
  have someDetail := redactDetail_ne_nil isWord (messageOf_ne_nil value)
  cases maximum with
  | zero => rw [List.take_zero, List.take_zero]
  | succ maximum =>
      have someText : (redactDetail isWord (messageOf value)).take (maximum + 1) ≠ [] := by
        rw [ne_eq, List.take_eq_nil_iff]
        exact fun isNil => isNil.elim (Nat.succ_ne_zero maximum) someDetail
      have message := messageOf_ofList someText
      rw [message, redactDetail_take, redactDetail_eq]
      exact congrArg String.ofList
        (Dialect.take_sub_secrets (atBoundary_wordBoundary isWord) _ (maximum + 1))

/-- Whoever sanitizes a sanitized text again, and however often, changes nothing. -/
theorem sanitized_again (isWord : Char → Bool) (value : String) (maximum : Nat) :
    sanitizeErrorDetail isWord (sanitizeErrorDetail isWord value maximum) maximum =
        sanitizeErrorDetail isWord value maximum ∧
      ∀ times, (fun text => sanitizeErrorDetail isWord text maximum)^[times]
        (sanitizeErrorDetail isWord value maximum) = sanitizeErrorDetail isWord value maximum := by
  have twice := sanitizeErrorDetail_twice isWord value maximum
  exact ⟨twice, fun times => Function.iterate_fixed twice times⟩

private theorem keepsNone_of_clear {isWord : Char → Bool} {text : List Char}
    (ascii : (text.all fun char => char.toNat < 128) = true)
    (isClear : clear secretWords (text.map Char.toLower) = true) (before : Option Char) :
    KeepsNone isWord before text := by
  have whole := @keepsNone_append isWord before text []
    (absentIn_led_of_clear ascii isClear List.suffix_rfl [])
  rw [List.append_nil] at whole
  exact whole.mpr (Pattern.kept_nil _)

private theorem noneShown_messageOf (isWord : Char → Bool) (value : String) :
    NoneShown isWord none (messageOf value) ↔ NoneShown isWord none value.toList := by
  unfold messageOf
  split
  · rename_i isEmpty
    rw [isEmpty, String.toList_empty]
    refine iff_of_true ?_ .done
    rw [← keepsNone_iff]
    have unchanged : threePasses "unspecified failure".toList = "unspecified failure".toList := by
      decide
    rw [unchanged]
    exact keepsNone_of_clear (by decide) (by decide) none
  · exact Iff.rfl

/-- Both programs hide everything exactly if the reading of the input shows no secret. -/
theorem sanitized_iff_none_shown (isWord : Char → Bool) (value : String) :
    Sanitized Dialect.python (redactDetail isWord (messageOf value)) ∧
        Sanitized Dialect.go (redactError value.toList) ↔
      NoneShown isWord none value.toList := by
  have detail := Dialect.Kind.absent_redactAll detailKinds (messageOf value)
  have error := Dialect.Kind.absent_redactAll errorKinds value.toList
  have errorSecrets : Absent Dialect.go.Exposed (redactError value.toList) := by
    rw [redactError_eq]
    apply Dialect.hidden_iff.mpr
    apply Pattern.kept_of_unmatched
    intro before place _ refused
    cases refused.1
  have detailSecrets : Absent Dialect.python.Exposed (redactDetail isWord (messageOf value)) ↔
      NoneShown isWord none (messageOf value) := Dialect.hidden_iff.trans (keepsNone_iff none _)
  rw [← noneShown_messageOf, ← detailSecrets]
  constructor
  · exact fun both => both.1.secrets
  · intro secrets
    constructor
    · constructor
      · exact Dialect.python.urlKind.absent_redactSecrets (detail _ (by simp [detailKinds]))
      · exact Dialect.python.authKind.absent_redactSecrets (detail _ (by simp [detailKinds]))
      · exact secrets
    · constructor
      · exact Dialect.go.urlKind.absent_redactSecrets (error _ (by simp [errorKinds]))
      · exact Dialect.go.authKind.absent_redactSecrets (error _ (by simp [errorKinds]))
      · exact errorSecrets

/-- A token whose name ends in a secret word is shown. -/
theorem access_token_is_shown :
    redactDetail asciiWord (messageOf "access_token=abc") = "access_token=abc".toList ∧
      ¬ (Sanitized Dialect.python (redactDetail asciiWord (messageOf "access_token=abc")) ∧
        Sanitized Dialect.go (redactError "access_token=abc".toList)) := by
  have shown : redactDetail asciiWord (messageOf "access_token=abc") =
      "access_token=abc".toList := by decide
  refine ⟨shown, ?_⟩
  intro both
  have secrets := both.1.secrets
  rw [shown] at secrets
  have isPlace : "token=abc".toList <:+ "access_token=abc".toList := by decide
  apply secrets _ isPlace (by decide)
  refine ⟨"token=".toList, 'a', "bc".toList, rfl, ?_, by decide, by decide⟩
  exact ⟨"token".toList, [], '=', [], rfl, by decide, nofun, rfl, nofun⟩

end OciTransfer
