import OciTransfer.FixedWidth
import OciTransfer.Timestamp

/-!
The order of stored timestamps as texts.

`isoformat` writes six fields of a fixed width, then a fraction if there is one,
then the UTC offset.  A sign comes before a point in the order of characters, so a
text without a fraction comes before the texts that add one, and within the years 1
to 9999 the order of the texts is the order of the instants.
-/

namespace OciTransfer

/-- The instants of a `datetime`, whose years are 1 to 9999. -/
def Instant.Representable (instant : Instant) : Prop :=
  0 ≤ instant ∧ instant < 315537897600000000

def leapYear (year : Nat) : Bool := year % 4 = 0 && (year % 100 ≠ 0 || year % 400 = 0)

def yearStart (year : Nat) : Nat :=
  365 * (year - 1) + (year - 1) / 4 - (year - 1) / 100 + (year - 1) / 400

/-- Month and day of the day with this number in its year. -/
def monthDay (leap : Bool) (rest : Nat) : Nat × Nat :=
  let starts := daysBeforeMonth.zipIdx.map fun (before, index) =>
    if 2 ≤ index ∧ leap then before + 1 else before
  let month := starts.countP (· ≤ rest)
  (month, rest - starts.getD (month - 1) 0 + 1)

private theorem yearStart_succ {year : Nat} (positive : 0 < year) :
    yearStart (year + 1) = yearStart year + 365 + (leapYear year).toNat := by
  obtain ⟨before, rfl⟩ := Nat.exists_eq_succ_of_ne_zero positive.ne'
  have fewer : before / 100 ≤ before / 4 := by omega
  unfold yearStart leapYear
  simp only [Nat.succ_eq_add_one, Nat.add_sub_cancel, Nat.succ_div, Nat.dvd_iff_mod_eq_zero]
  by_cases fourth : (before + 1) % 4 = 0
  · by_cases century : (before + 1) % 100 = 0
    · by_cases fourHundredth : (before + 1) % 400 = 0
      · rw [if_pos fourth, if_pos century, if_pos fourHundredth, decide_eq_true fourth,
          decide_eq_true fourHundredth, Bool.or_true, Bool.and_true, Bool.toNat_true]
        omega
      · rw [if_pos fourth, if_pos century, if_neg fourHundredth,
          decide_eq_false (not_not.mpr century),
          decide_eq_false fourHundredth, Bool.or_false, Bool.and_false, Bool.toNat_false]
        omega
    · have notFourHundredth : ¬ (before + 1) % 400 = 0 := by omega
      rw [if_pos fourth, if_neg century, if_neg notFourHundredth, decide_eq_true fourth,
        decide_eq_true century, Bool.true_or, Bool.and_true, Bool.toNat_true]
      omega
  · have notCentury : ¬ (before + 1) % 100 = 0 := by omega
    have notFourHundredth : ¬ (before + 1) % 400 = 0 := by omega
    rw [if_neg fourth, if_neg notCentury, if_neg notFourHundredth, decide_eq_false fourth,
      Bool.false_and, Bool.toNat_false]
    omega

private theorem yearStart_mono {earlier later : Nat} (atMost : earlier ≤ later) :
    yearStart earlier ≤ yearStart later := by
  induction later, atMost using Nat.le_induction with
  | base => exact Nat.le_refl _
  | succ year _ ih =>
      rcases Nat.eq_zero_or_pos year with rfl | positive
      · exact ih
      · rw [yearStart_succ positive]
        omega

private theorem yearStart_counts {n400 n100 n4 n1 : Nat} (centuries : n100 ≤ 3) (quads : n4 ≤ 24)
    (years : n1 ≤ 3) :
    yearStart (n400 * 400 + n100 * 100 + n4 * 4 + n1 + 1) =
      n400 * 146097 + n100 * 36524 + n4 * 1461 + n1 * 365 := by
  unfold yearStart
  omega

private theorem leapYear_counts {n400 n100 n4 n1 : Nat} (centuries : n100 ≤ 3) (quads : n4 ≤ 24)
    (years : n1 ≤ 3) :
    leapYear (n400 * 400 + n100 * 100 + n4 * 4 + n1 + 1) =
      decide (n1 = 3 ∧ (n4 ≠ 24 ∨ n100 = 3)) := by
  have fourth : (n400 * 400 + n100 * 100 + n4 * 4 + n1 + 1) % 4 = 0 ↔ n1 = 3 := by omega
  have century : n1 = 3 → ((n400 * 400 + n100 * 100 + n4 * 4 + n1 + 1) % 100 = 0 ↔ n4 = 24) := by
    omega
  have fourHundredth : n1 = 3 → n4 = 24 →
      ((n400 * 400 + n100 * 100 + n4 * 4 + n1 + 1) % 400 = 0 ↔ n100 = 3) := by
    omega
  unfold leapYear
  rw [Bool.eq_iff_iff]
  simp only [Bool.and_eq_true, Bool.or_eq_true, decide_eq_true_eq, fourth]
  constructor
  · rintro ⟨last, notCentury | isLeap⟩
    · exact ⟨last, Or.inl fun same => notCentury ((century last).mpr same)⟩
    · by_cases same : n4 = 24
      · exact ⟨last, Or.inr ((fourHundredth last same).mp isLeap)⟩
      · exact ⟨last, Or.inl same⟩
  · rintro ⟨last, differs | same⟩
    · exact ⟨last, Or.inl fun isCentury => differs ((century last).mp isCentury)⟩
    · by_cases isCentury : n4 = 24
      · exact ⟨last, Or.inr ((fourHundredth last isCentury).mpr same)⟩
      · exact ⟨last, Or.inl fun century' => isCentury ((century last).mp century')⟩

private theorem civilDate_eq (day : Nat) :
    ∃ year rest, 0 < year ∧ day = yearStart year + rest ∧ rest < 365 + (leapYear year).toNat ∧
      civilDate day = (year, monthDay (leapYear year) rest) := by
  -- the four counts of the definition, with what is left over after each
  unfold civilDate
  dsimp only
  have split400 := Nat.div_add_mod day 146097
  have left400 := Nat.mod_lt day (by decide : 0 < 146097)
  generalize day / 146097 = n400 at *
  generalize day % 146097 = rest400 at *
  have split100 := Nat.div_add_mod rest400 36524
  have left100 := Nat.mod_lt rest400 (by decide : 0 < 36524)
  generalize rest400 / 36524 = n100 at *
  generalize rest400 % 36524 = rest100 at *
  have split4 := Nat.div_add_mod rest100 1461
  have left4 := Nat.mod_lt rest100 (by decide : 0 < 1461)
  generalize rest100 / 1461 = n4 at *
  generalize rest100 % 1461 = rest4 at *
  have split1 := Nat.div_add_mod rest4 365
  have left1 := Nat.mod_lt rest4 (by decide : 0 < 365)
  generalize rest4 / 365 = n1 at *
  generalize rest4 % 365 = rest at *
  have total : day = n400 * 146097 + n100 * 36524 + n4 * 1461 + n1 * 365 + rest := by omega
  have quads : n4 ≤ 24 := by omega
  have lastCentury : n100 ≤ 3 ∨ n100 = 4 ∧ n4 = 0 ∧ n1 = 0 ∧ rest = 0 := by omega
  have lastYear : n1 ≤ 3 ∨ n1 = 4 ∧ rest = 0 ∧ (n4 ≠ 24 ∨ n100 = 3) := by omega
  clear split400 split100 split4 split1 left400 left100 left4
  have endOfYear : monthDay true 365 = (12, 31) := by decide
  rcases lastCentury with centuries | ⟨century, quad, last, left⟩
  · rcases lastYear with lastYear | ⟨rfl, rfl, isLeap⟩
    · refine ⟨n400 * 400 + n100 * 100 + n4 * 4 + n1 + 1, rest, by omega, ?_, by omega, ?_⟩
      · rw [yearStart_counts centuries quads lastYear]
        exact total
      · rw [leapYear_counts centuries quads lastYear, if_neg (by omega)]
        simp only [monthDay, decide_eq_true_eq]
    · -- the last day of a leap year is counted as a fifth year of 365 days
      have leap : leapYear (n400 * 400 + n100 * 100 + n4 * 4 + 3 + 1) = true := by
        rw [leapYear_counts centuries quads (Nat.le_refl 3)]
        exact decide_eq_true ⟨rfl, isLeap⟩
      refine ⟨n400 * 400 + n100 * 100 + n4 * 4 + 3 + 1, 365, by omega, ?_, ?_, ?_⟩
      · rw [yearStart_counts centuries quads (Nat.le_refl 3)]
        omega
      · rw [leap]
        decide
      · rw [leap, endOfYear, if_pos (Or.inl rfl), Prod.mk.injEq]
        exact ⟨by omega, rfl⟩
  · -- and the last day of 400 years as a fifth century
    have leap : leapYear (n400 * 400 + 3 * 100 + 24 * 4 + 3 + 1) = true := by
      rw [leapYear_counts (Nat.le_refl 3) (Nat.le_refl 24) (Nat.le_refl 3)]
      decide
    refine ⟨n400 * 400 + 3 * 100 + 24 * 4 + 3 + 1, 365, by omega, ?_, ?_, ?_⟩
    · have start : yearStart (n400 * 400 + 3 * 100 + 24 * 4 + 3 + 1) =
          n400 * 146097 + 3 * 36524 + 24 * 1461 + 3 * 365 :=
        @yearStart_counts n400 3 24 3 (Nat.le_refl 3) (Nat.le_refl 24) (Nat.le_refl 3)
      generalize yearStart (n400 * 400 + 3 * 100 + 24 * 4 + 3 + 1) = first at start ⊢
      omega
    · rw [leap]
      decide
    · rw [leap, endOfYear, if_pos (Or.inr century), Prod.mk.injEq]
      exact ⟨by omega, rfl⟩

private theorem monthDay_step : ∀ leap : Bool, ∀ rest < 365 + leap.toNat,
    [(monthDay leap rest).1, (monthDay leap rest).2] <
        [(monthDay leap (rest + 1)).1, (monthDay leap (rest + 1)).2] ∧
      (monthDay leap rest).1 < 100 ∧ (monthDay leap rest).2 < 100 := by
  decide +kernel

private theorem monthDay_lt {leap : Bool} {rest later : Nat} (before : rest < later)
    (within : later < 365 + leap.toNat) :
    [(monthDay leap rest).1, (monthDay leap rest).2] <
      [(monthDay leap later).1, (monthDay leap later).2] := by
  induction later, before using Nat.le_induction with
  | base => exact (monthDay_step leap rest (by omega)).1
  | succ middle _ ih => exact lt_trans (ih (by omega)) (monthDay_step leap middle (by omega)).1

/-- Year, month and day go up with the number of the day. -/
theorem civilDate_lt {day later : Nat} (before : day < later) :
    [(civilDate day).1, (civilDate day).2.1, (civilDate day).2.2] <
      [(civilDate later).1, (civilDate later).2.1, (civilDate later).2.2] := by
  obtain ⟨year, rest, positive, total, within, date⟩ := civilDate_eq day
  obtain ⟨laterYear, laterRest, laterPositive, laterTotal, laterWithin, laterDate⟩ :=
    civilDate_eq later
  rw [date, laterDate, List.cons_lt_cons_iff]
  rcases lt_trichotomy year laterYear with less | same | more
  · exact Or.inl less
  · subst same
    exact Or.inr ⟨rfl, monthDay_lt (by omega) laterWithin⟩
  · -- a later year starts after every day of this one
    have starts := yearStart_mono (Nat.succ_le_of_lt more)
    rw [Nat.succ_eq_add_one, yearStart_succ laterPositive] at starts
    omega

private theorem civilDate_fits {day : Nat} (within : day < 3652059) :
    (civilDate day).1 < 10000 ∧ (civilDate day).2.1 < 100 ∧ (civilDate day).2.2 < 100 := by
  obtain ⟨year, rest, positive, total, short, date⟩ := civilDate_eq day
  rw [date]
  have bounds := (monthDay_step (leapYear year) rest short).2
  refine ⟨?_, bounds.1, bounds.2⟩
  change year < 10000
  by_contra beyond
  have starts := yearStart_mono (not_lt.mp beyond)
  have lastStart : yearStart 10000 = 3652059 := by decide
  omega

open FixedWidth

private theorem toList_pushn (text : String) (char : Char) (count : Nat) :
    (text.pushn char count).toList = text.toList ++ List.replicate count char := by
  rw [String.pushn_eq_repeat_push]
  induction count with
  | zero => simp [Nat.repeat]
  | succ count ih => simp [Nat.repeat, ih, List.replicate_succ']

theorem toList_padded (width value : Nat) : (padded width value).toList = digits width value := by
  have text : (toString value).toList = Nat.toDigits 10 value := by
    rw [Nat.toString_eq_repr, Nat.toList_repr]
  have sameLength : (toString value).length = (Nat.toDigits 10 value).length := by
    rw [← String.length_toList, text]
  unfold padded
  rw [String.toList_append, toList_pushn, text, sameLength]
  rfl

/-- The fields up to the seconds, each after its literal. -/
def clockLayout : List (List Char × Nat) :=
  [([], 4), (['-'], 2), (['-'], 2), (['T'], 2), ([':'], 2), ([':'], 2)]

def clockFields (second : Nat) : List Nat :=
  let date := civilDate (second / 86400)
  [date.1, date.2.1, date.2.2] ++ [second / 3600 % 24, second / 60 % 60, second % 60]

def fractionText (micros : Nat) : List Char :=
  if micros = 0 then [] else '.' :: digits 6 micros

/-- The text of a wall clock reading, in microseconds, without a UTC offset. -/
def wallText (wall : Nat) : List Char :=
  fields clockLayout (clockFields (wall / 1000000)) ++ fractionText (wall % 1000000)

theorem timestamp_toList (instant : Instant) :
    (timestamp instant).toList = wallText instant.toNat ++ "+00:00".toList := by
  have fraction : (if instant.toNat % 1000000 = 0 then ""
      else "." ++ padded 6 (instant.toNat % 1000000)).toList =
        fractionText (instant.toNat % 1000000) := by
    unfold fractionText
    split
    · rfl
    · rw [String.toList_append, toList_padded]
      rfl
  simp only [timestamp, String.toList_append, toList_padded, fraction, wallText, clockLayout,
    clockFields, fields, List.cons_append, List.nil_append, List.append_assoc]
  rfl

private theorem clockFields_lt {second later : Nat} (before : second < later) :
    clockFields second < clockFields later := by
  unfold clockFields
  dsimp only
  rw [append_lt_append_iff (by rfl)]
  rcases Nat.lt_or_ge (second / 86400) (later / 86400) with less | atLeast
  · exact Or.inl (civilDate_lt less)
  · have sameDay : second / 86400 = later / 86400 := by omega
    refine Or.inr ⟨by rw [sameDay], ?_⟩
    simp only [List.cons_lt_cons_iff, List.not_lt_nil, and_false, or_false]
    omega

private theorem clockFields_lt_iff {second later : Nat} :
    clockFields second < clockFields later ↔ second < later := by
  constructor
  · intro less
    rcases lt_trichotomy second later with before | rfl | after
    · exact before
    · exact absurd less (lt_irrefl _)
    · exact absurd less (lt_asymm (clockFields_lt after))
  · exact clockFields_lt

private theorem clockFields_fit {second : Nat} (within : second < 315537897600) :
    Fits clockLayout (clockFields second) := by
  obtain ⟨year, month, day⟩ := civilDate_fits (by omega : second / 86400 < 3652059)
  refine .cons ⟨by decide, year⟩ (.cons ⟨by decide, month⟩ (.cons ⟨by decide, day⟩
    (.cons ⟨by decide, ?_⟩ (.cons ⟨by decide, ?_⟩ (.cons ⟨by decide, ?_⟩ .nil)))))
  · change _ < 100
    omega
  · change _ < 100
    omega
  · change _ < 100
    omega

/-- A suffix that comes before every fraction: a UTC offset begins with its sign. -/
def Signed (suffix : List Char) : Prop := ∃ sign rest, suffix = sign :: rest ∧ sign < '.'

private theorem fractionText_lt_iff {micros other : Nat} (small : micros < 1000000)
    (otherSmall : other < 1000000) {suffix otherSuffix : List Char} (signed : Signed suffix)
    (otherSigned : Signed otherSuffix) :
    fractionText micros ++ suffix < fractionText other ++ otherSuffix ↔
      micros < other ∨ (micros = other ∧ suffix < otherSuffix) := by
  obtain ⟨sign, rest, rfl, beforePoint⟩ := signed
  obtain ⟨otherSign, otherRest, rfl, otherBeforePoint⟩ := otherSigned
  unfold fractionText
  by_cases zero : micros = 0
  · subst zero
    by_cases otherZero : other = 0
    · subst otherZero
      simp
    · rw [if_pos rfl, if_neg otherZero, List.nil_append, List.cons_append, List.cons_lt_cons_iff]
      exact iff_of_true (Or.inl beforePoint) (Or.inl (Nat.pos_of_ne_zero otherZero))
  · by_cases otherZero : other = 0
    · subst otherZero
      rw [if_neg zero, if_pos rfl, List.nil_append, List.cons_append, List.cons_lt_cons_iff]
      refine iff_of_false ?_ (by omega)
      rintro (less | ⟨same, -⟩)
      · exact lt_asymm less otherBeforePoint
      · rw [same] at otherBeforePoint
        exact lt_irrefl _ otherBeforePoint
    · have sameLength : (digits 6 micros).length = (digits 6 other).length := by
        rw [length_digits (by decide) small, length_digits (by decide) otherSmall]
      rw [if_neg zero, if_neg otherZero, List.cons_append, List.cons_append, List.cons_lt_cons_iff,
        append_lt_append_iff sameLength, digits_lt_digits_iff (by decide) small otherSmall]
      constructor
      · rintro (impossible | ⟨-, less | ⟨same, less⟩⟩)
        · exact absurd impossible (lt_irrefl _)
        · exact Or.inl less
        · exact Or.inr ⟨digits_injective same, less⟩
      · rintro (less | ⟨rfl, less⟩)
        · exact Or.inr ⟨rfl, Or.inl less⟩
        · exact Or.inr ⟨rfl, Or.inr ⟨rfl, less⟩⟩

theorem wallText_lt_iff {wall other : Nat} (within : wall < 315537897600000000)
    (otherWithin : other < 315537897600000000) {suffix otherSuffix : List Char}
    (signed : Signed suffix) (otherSigned : Signed otherSuffix) :
    wallText wall ++ suffix < wallText other ++ otherSuffix ↔
      wall < other ∨ (wall = other ∧ suffix < otherSuffix) := by
  have fit := clockFields_fit (by omega : wall / 1000000 < 315537897600)
  have otherFit := clockFields_fit (by omega : other / 1000000 < 315537897600)
  unfold wallText
  rw [List.append_assoc, List.append_assoc, append_lt_append_iff (length_fields fit otherFit),
    fields_lt_fields_iff fit otherFit, clockFields_lt_iff,
    fractionText_lt_iff (by omega) (by omega) signed otherSigned]
  have sameFields : fields clockLayout (clockFields (wall / 1000000)) =
      fields clockLayout (clockFields (other / 1000000)) ↔ wall / 1000000 = other / 1000000 := by
    constructor
    · intro same
      have equal := fields_injective fit otherFit same
      rcases lt_trichotomy (wall / 1000000) (other / 1000000) with before | equalSecond | after
      · exact absurd (clockFields_lt before) (by rw [equal]; exact lt_irrefl _)
      · exact equalSecond
      · exact absurd (clockFields_lt after) (by rw [equal]; exact lt_irrefl _)
    · intro same
      rw [same]
  rw [sameFields]
  constructor
  · rintro (less | ⟨same, less | ⟨sameMicros, less⟩⟩)
    · exact Or.inl (by omega)
    · exact Or.inl (by omega)
    · exact Or.inr ⟨by omega, less⟩
  · rintro (less | ⟨rfl, less⟩)
    · omega
    · exact Or.inr ⟨rfl, Or.inr ⟨rfl, less⟩⟩

/-- The order of stored timestamps is the order of the instants. -/
theorem timestamp_lt_iff {instant other : Instant} (representable : instant.Representable)
    (otherRepresentable : other.Representable) :
    timestamp instant < timestamp other ↔ instant < other := by
  obtain ⟨nonneg, within⟩ := representable
  obtain ⟨otherNonneg, otherWithin⟩ := otherRepresentable
  obtain ⟨micros, rfl⟩ := Int.eq_ofNat_of_zero_le nonneg
  obtain ⟨others, rfl⟩ := Int.eq_ofNat_of_zero_le otherNonneg
  have utc : Signed "+00:00".toList := ⟨'+', "00:00".toList, rfl, by decide⟩
  rw [String.lt_iff_toList_lt, timestamp_toList, timestamp_toList, Int.toNat_natCast,
    Int.toNat_natCast,
    wallText_lt_iff (Int.ofNat_lt.mp within) (Int.ofNat_lt.mp otherWithin) utc utc,
    Int.ofNat_lt]
  constructor
  · rintro (less | ⟨-, impossible⟩)
    · exact less
    · exact absurd impossible (lt_irrefl _)
  · exact Or.inl

end OciTransfer
