import Mathlib.Data.Rat.Floor

/-!
Instants, spans and the stored text of an instant.

An instant counts the microseconds since 0001-01-01T00:00:00 in UTC, the
resolution of the interpreter's `datetime`.  The queue stores `isoformat()` text; the
SQL comparisons on stored columns are modelled on the instants themselves, and
`timestamp` is used where text from a caller is compared with a column.
-/

namespace OciTransfer

abbrev Instant := Int

def seconds (n : Int) : Int := n * 1000000

/-- Rounding to the nearest integer, ties to the even one. -/
def roundHalfEven (value : ℚ) : Int :=
  let lower := value.floor
  if value - lower < 1 / 2 then lower
  else if value - lower > 1 / 2 then lower + 1
  else if lower % 2 = 0 then lower else lower + 1

/-- `timedelta(seconds=value)`: a span is rounded to whole microseconds. -/
def timedelta (value : ℚ) : Int := roundHalfEven (value * 1000000)

def daysBeforeMonth : List Nat :=
  [0, 31, 59, 90, 120, 151, 181, 212, 243, 273, 304, 334]

/-- Year, month and day of the day with this number, day 0 being 0001-01-01. -/
def civilDate (day : Nat) : Nat × Nat × Nat :=
  let n400 := day / 146097
  let rest400 := day % 146097
  let n100 := rest400 / 36524
  let rest100 := rest400 % 36524
  let n4 := rest100 / 1461
  let rest4 := rest100 % 1461
  let n1 := rest4 / 365
  let rest := rest4 % 365
  let year := n400 * 400 + n100 * 100 + n4 * 4 + n1 + 1
  if n1 = 4 ∨ n100 = 4 then (year - 1, 12, 31)
  else
    let leap := n1 = 3 ∧ (n4 ≠ 24 ∨ n100 = 3)
    let starts := daysBeforeMonth.zipIdx.map fun (before, index) =>
      if 2 ≤ index ∧ leap then before + 1 else before
    let month := starts.countP (· ≤ rest)
    (year, month, rest - starts.getD (month - 1) 0 + 1)

def padded (width value : Nat) : String :=
  let digits := toString value
  "".pushn '0' (width - digits.length) ++ digits

/-- `timestamp`: the `isoformat()` text, without a fraction when it is zero. -/
def timestamp (instant : Instant) : String :=
  let micros := instant.toNat
  let second := micros / 1000000
  let (year, month, day) := civilDate (second / 86400)
  let fraction := micros % 1000000
  padded 4 year ++ "-" ++ padded 2 month ++ "-" ++ padded 2 day ++ "T" ++
    padded 2 (second / 3600 % 24) ++ ":" ++ padded 2 (second / 60 % 60) ++ ":" ++
    padded 2 (second % 60) ++
    (if fraction = 0 then "" else "." ++ padded 6 fraction) ++ "+00:00"

end OciTransfer
