import Mathlib.Data.String.Basic
import Mathlib.Tactic.Linarith

/-!
Numbers written in fields of a fixed width.

Texts of one length in front of two others decide about their order before these
do.  Decimal digits of one width are ordered like their numbers, so a text made of
such fields, with the same literals between them, is ordered like the list of the
numbers.
-/

namespace FixedWidth

section Order

variable {α : Type} [LinearOrder α]

/-- Parts of one length are compared first, and the rest only if they are the same. -/
theorem append_lt_append_iff {front other : List α} (sameLength : front.length = other.length)
    (back rest : List α) :
    front ++ back < other ++ rest ↔ front < other ∨ (front = other ∧ back < rest) := by
  induction front generalizing other with
  | nil =>
      have isNil : other = [] := List.eq_nil_of_length_eq_zero sameLength.symm
      subst isNil
      simp
  | cons first tail ih =>
      cases other with
      | nil => cases sameLength
      | cons second following =>
          rw [List.cons_append, List.cons_append, List.cons_lt_cons_iff, List.cons_lt_cons_iff,
            ih (Nat.succ.inj sameLength), List.cons.injEq]
          constructor
          · rintro (less | ⟨same, less | ⟨sameTail, less⟩⟩)
            · exact Or.inl (Or.inl less)
            · exact Or.inl (Or.inr ⟨same, less⟩)
            · exact Or.inr ⟨⟨same, sameTail⟩, less⟩
          · rintro ((less | ⟨same, less⟩) | ⟨⟨same, sameTail⟩, less⟩)
            · exact Or.inl less
            · exact Or.inr ⟨same, Or.inl less⟩
            · exact Or.inr ⟨same, Or.inr ⟨sameTail, less⟩⟩

private theorem append_lt_append_left_iff (front : List α) {back rest : List α} :
    front ++ back < front ++ rest ↔ back < rest := by
  rw [append_lt_append_iff rfl]
  simp

end Order

def digits (width value : Nat) : List Char :=
  List.replicate (width - (Nat.toDigits 10 value).length) '0' ++ Nat.toDigits 10 value

theorem length_digits {width value : Nat} (positive : 0 < width) (fits : value < 10 ^ width) :
    (digits width value).length = width := by
  have short := (Nat.length_toDigits_le_iff (by decide) positive).mpr fits
  rw [digits, List.length_append, List.length_replicate]
  omega

private theorem isDigit_of_mem_digits {width value : Nat} {char : Char}
    (member : char ∈ digits width value) :
    char.isDigit = true := by
  rcases List.mem_append.mp member with zero | digit
  · rw [List.eq_of_mem_replicate zero]
    rfl
  · exact Nat.isDigit_of_mem_toDigits (by decide) (by decide) digit

private theorem ofDigitChars_digits (width value : Nat) :
    Nat.ofDigitChars 10 (digits width value) 0 = value := by
  rw [digits, Nat.ofDigitChars_append, Nat.ofDigitChars_replicate_zero, Nat.mul_zero,
    Nat.ofDigitChars_ten_toDigits]

private theorem ofDigitChars_lt {chars : List Char}
    (areDigits : ∀ char ∈ chars, char.isDigit = true) :
    Nat.ofDigitChars 10 chars 0 < 10 ^ chars.length := by
  induction chars with
  | nil => decide
  | cons first rest ih =>
      have small : first.toNat - '0'.toNat < 10 := by
        have isDigit := areDigits first List.mem_cons_self
        simp only [Char.isDigit, Bool.and_eq_true, decide_eq_true_eq] at isDigit
        have upper : first.toNat ≤ 57 := isDigit.2
        have zero : '0'.toNat = 48 := rfl
        omega
      have below := ih fun char member => areDigits char (List.mem_cons_of_mem _ member)
      rw [Nat.ofDigitChars_cons, Nat.ofDigitChars_eq_ofDigitChars_zero, List.length_cons,
        Nat.pow_succ]
      nlinarith

private theorem toNat_lt_of_lt {first second : Char}
    (areDigits : first.isDigit = true ∧ second.isDigit = true)
    (less : second < first) : second.toNat - '0'.toNat < first.toNat - '0'.toNat := by
  obtain ⟨-, isDigit⟩ := areDigits
  simp only [Char.isDigit, Bool.and_eq_true, decide_eq_true_eq] at isDigit
  have lower : 48 ≤ second.toNat := isDigit.1
  have order : second.toNat < first.toNat := less
  have zero : '0'.toNat = 48 := rfl
  omega

private theorem lt_of_ofDigitChars_lt {left right : List Char}
    (leftDigits : ∀ char ∈ left, char.isDigit = true)
    (rightDigits : ∀ char ∈ right, char.isDigit = true) (sameLength : left.length = right.length)
    (less : Nat.ofDigitChars 10 left 0 < Nat.ofDigitChars 10 right 0) : left < right := by
  induction left generalizing right with
  | nil =>
      have isNil : right = [] := List.eq_nil_of_length_eq_zero sameLength.symm
      subst isNil
      exact absurd less (lt_irrefl _)
  | cons first tail ih =>
      cases right with
      | nil => cases sameLength
      | cons second rest =>
          have tailLength : tail.length = rest.length := Nat.succ.inj sameLength
          have tailDigits : ∀ char ∈ tail, char.isDigit = true :=
            fun char member => leftDigits char (List.mem_cons_of_mem _ member)
          have restDigits : ∀ char ∈ rest, char.isDigit = true :=
            fun char member => rightDigits char (List.mem_cons_of_mem _ member)
          rw [Nat.ofDigitChars_cons, Nat.ofDigitChars_cons, Nat.ofDigitChars_eq_ofDigitChars_zero,
            Nat.ofDigitChars_eq_ofDigitChars_zero (l := rest), tailLength, Nat.mul_zero,
            Nat.zero_add,
            Nat.zero_add] at less
          rw [List.cons_lt_cons_iff]
          rcases lt_trichotomy first second with before | same | after
          · exact Or.inl before
          · subst same
            exact Or.inr ⟨rfl, ih tailDigits restDigits tailLength (by omega)⟩
          · -- a larger first digit outweighs whatever follows
            have atLeast := toNat_lt_of_lt
              ⟨leftDigits first List.mem_cons_self, rightDigits second List.mem_cons_self⟩ after
            have below := ofDigitChars_lt restDigits
            nlinarith

theorem digits_lt_digits_iff {width left right : Nat} (positive : 0 < width)
    (leftFits : left < 10 ^ width) (rightFits : right < 10 ^ width) :
    digits width left < digits width right ↔ left < right := by
  have keeps : ∀ {small large}, small < 10 ^ width → large < 10 ^ width → small < large →
      digits width small < digits width large := by
    intro small large smallFits largeFits less
    refine lt_of_ofDigitChars_lt (fun _ => isDigit_of_mem_digits)
      (fun _ => isDigit_of_mem_digits) ?_ ?_
    · rw [length_digits positive smallFits, length_digits positive largeFits]
    · rw [ofDigitChars_digits, ofDigitChars_digits]
      exact less
  constructor
  · intro less
    rcases lt_trichotomy left right with before | rfl | after
    · exact before
    · exact absurd less (lt_irrefl _)
    · exact absurd less (lt_asymm (keeps rightFits leftFits after))
  · exact keeps leftFits rightFits

theorem digits_injective {width left right : Nat} (same : digits width left = digits width right) :
    left = right := by
  rw [← ofDigitChars_digits width left, same, ofDigitChars_digits]

/-- Each value in a field of its width, after the literal that introduces the field. -/
def fields : List (List Char × Nat) → List Nat → List Char
  | (literal, width) :: layout, value :: values =>
      literal ++ (digits width value ++ fields layout values)
  | _, _ => []

/-- There is a value for every field, and it has no more digits than the field is wide. -/
def Fits (layout : List (List Char × Nat)) (values : List Nat) : Prop :=
  List.Forall₂ (fun field value => 0 < field.2 ∧ value < 10 ^ field.2) layout values

theorem length_fields {layout : List (List Char × Nat)} {values others : List Nat}
    (valuesFit : Fits layout values) (othersFit : Fits layout others) :
    (fields layout values).length = (fields layout others).length := by
  induction valuesFit generalizing others with
  | nil =>
      cases othersFit
      rfl
  | cons fits _ ih =>
      cases othersFit with
      | cons otherFits restFit =>
          simp only [fields, List.length_append, length_digits fits.1 fits.2,
            length_digits otherFits.1 otherFits.2, ih restFit]

theorem fields_lt_fields_iff {layout : List (List Char × Nat)} {values others : List Nat}
    (valuesFit : Fits layout values) (othersFit : Fits layout others) :
    fields layout values < fields layout others ↔ values < others := by
  induction valuesFit generalizing others with
  | nil =>
      cases othersFit
      simp [fields]
  | @cons field value layout values fits _ ih =>
      cases othersFit with
      | @cons _ other _ rest otherFits restFit =>
          have sameLength : (digits field.2 value).length = (digits field.2 other).length := by
            rw [length_digits fits.1 fits.2, length_digits otherFits.1 otherFits.2]
          simp only [fields]
          rw [append_lt_append_left_iff, append_lt_append_iff sameLength,
            digits_lt_digits_iff fits.1 fits.2 otherFits.2, ih restFit, List.cons_lt_cons_iff]
          constructor
          · rintro (less | ⟨same, less⟩)
            · exact Or.inl less
            · exact Or.inr ⟨digits_injective same, less⟩
          · rintro (less | ⟨rfl, less⟩)
            · exact Or.inl less
            · exact Or.inr ⟨rfl, less⟩

theorem fields_injective {layout : List (List Char × Nat)} {values others : List Nat}
    (valuesFit : Fits layout values) (othersFit : Fits layout others)
    (same : fields layout values = fields layout others) : values = others := by
  rcases lt_trichotomy values others with before | equal | after
  · exact absurd ((fields_lt_fields_iff valuesFit othersFit).mpr before)
      (by rw [same]; exact lt_irrefl _)
  · exact equal
  · exact absurd ((fields_lt_fields_iff othersFit valuesFit).mpr after)
      (by rw [same]; exact lt_irrefl _)

end FixedWidth
