import OciTransfer.JsonLoads
import OciTransfer.TextSearch

/-!
Command lines as Go's `flag` package reads them.

A word with one or two dashes names a flag, and its value follows an equals sign or is
the next word, whatever that looks like.  The first word that is no flag ends the
reading.  All flags here take a value; numbers are read as `strconv.ParseInt` does with
base 0, without the underscores it allows between digits.
-/

namespace CommandLine

open TextSearch

inductive Word where
  | plain
  | terminator
  | malformed
  | flag (name : String) (value : Option String)
  deriving DecidableEq, Repr

def readName (text : List Char) : Word :=
  match text with
  | [] | '-' :: _ | '=' :: _ => .malformed
  | name => .flag (String.ofList (cut '=' name).1) ((cut '=' name).2.map String.ofList)

def readWord (word : String) : Word :=
  match word.toList with
  | ['-', '-'] => .terminator
  | '-' :: '-' :: name => readName name
  | '-' :: letter :: name => readName (letter :: name)
  | _ => .plain

section Parse

variable {σ : Type} (set : String → String → σ → Option σ)

/-- `FlagSet.Parse`; `set` fails for a flag that is not defined, or refuses the value. -/
def parse : List String → σ → Option σ
  | [], state => some state
  | word :: rest, state =>
      match readWord word with
      | .plain | .terminator => some state
      | .malformed => none
      | .flag name (some value) => (set name value state).bind (parse rest)
      | .flag name none =>
          match rest with
          | [] => none
          | value :: behind => (set name value state).bind (parse behind)

variable {set}

theorem parse_pair {word name : String} (names : readWord word = .flag name none) (value : String)
    (rest : List String) (state : σ) :
    parse set (word :: value :: rest) state = (set name value state).bind (parse set rest) := by
  rw [parse, names]

theorem parse_repeated {α : Type} {word name : String} (names : readWord word = .flag name none)
    (text : α → String) {store : α → σ → σ}
    (stores : ∀ value state, set name (text value) state = some (store value state))
    (values : List α) (rest : List String) (state : σ) :
    parse set ((values.flatMap fun value => [word, text value]) ++ rest) state =
      parse set rest (values.foldl (fun state value => store value state) state) := by
  induction values generalizing state with
  | nil => rfl
  | cons value values ih =>
      rw [List.flatMap_cons, List.append_assoc, List.cons_append, List.singleton_append,
        parse_pair names, stores, Option.bind_some, ih, List.foldl_cons]

end Parse

def digitValue (letter : Char) : Option Nat :=
  if letter.isDigit then some (letter.toNat - '0'.toNat)
  else if letter.isAlpha then some (letter.toLower.toNat - 'a'.toNat + 10)
  else none

def parseDigits (base : Nat) (digits : List Char) : Option Nat :=
  digits.foldlM (fun total letter =>
    (digitValue letter).bind fun value =>
      if value < base then some (base * total + value) else none) 0

/-- A leading zero announces the base. -/
def parseNat : List Char → Option Nat
  | [] => none
  | '0' :: marker :: digit :: rest =>
      if marker.toLower = 'b' then parseDigits 2 (digit :: rest)
      else if marker.toLower = 'o' then parseDigits 8 (digit :: rest)
      else if marker.toLower = 'x' then parseDigits 16 (digit :: rest)
      else parseDigits 8 (marker :: digit :: rest)
  | '0' :: rest => parseDigits 8 rest
  | digits => parseDigits 10 digits

/-- `strconv.ParseInt(text, 0, 64)`. -/
def parseInt (text : String) : Option Int :=
  match text.toList with
  | '-' :: digits =>
      (parseNat digits).bind fun number => if number ≤ 2 ^ 63 then some (-number) else none
  | '+' :: digits =>
      (parseNat digits).bind fun number => if number < 2 ^ 63 then some number else none
  | digits => (parseNat digits).bind fun number => if number < 2 ^ 63 then some number else none

private theorem parseDigits_decimal {digits : List Char}
    (areDigits : ∀ letter ∈ digits, letter.isDigit = true) :
    parseDigits 10 digits = some (Nat.ofDigitChars 10 digits 0) := by
  unfold parseDigits Nat.ofDigitChars
  generalize 0 = total
  induction digits generalizing total with
  | nil => rfl
  | cons letter digits ih =>
      have isDigit := areDigits letter List.mem_cons_self
      have below : letter.toNat - '0'.toNat < 10 := by
        have bounds := Char.isDigit_iff_toNat.mp isDigit
        have zero : '0'.toNat = 48 := rfl
        have nine : '9'.toNat = 57 := rfl
        omega
      rw [List.foldlM_cons, List.foldl_cons]
      simp only [digitValue, if_pos isDigit, Option.bind_some, if_pos below, Option.bind_eq_bind]
      exact ih (fun other member => areDigits other (List.mem_cons_of_mem _ member)) _

private theorem parseNat_decimal {first : Char} {rest : List Char} (notZero : first ≠ '0') :
    parseNat (first :: rest) = parseDigits 10 (first :: rest) := by
  unfold parseNat
  split
  · rename_i same
    cases same
  · rename_i same
    exact absurd (List.cons.inj same).1 notZero
  · rename_i same
    exact absurd (List.cons.inj same).1 notZero
  · rfl

/-- A positive number is read back from its decimal digits, if it has 64 bits with its sign. -/
theorem parseInt_toString {number : Nat} (positive : 0 < number) :
    parseInt (toString number) = if number < 2 ^ 63 then some (number : Int) else none := by
  have digits : ∀ letter ∈ Nat.toDigits 10 number, letter.isDigit = true :=
    fun letter member => Nat.isDigit_of_mem_toDigits (by decide) (by decide) member
  have text : (toString number).toList = Nat.toDigits 10 number := Nat.toList_repr
  have value : parseNat (Nat.toDigits 10 number) = some number := by
    cases written : Nat.toDigits 10 number with
    | nil => exact absurd written Nat.toDigits_ne_nil
    | cons first rest =>
        have notZero : first ≠ '0' := by
          intro isZero
          rw [isZero] at written
          have := (JsonValue.toDigits_ten_leading written).1
          omega
        rw [parseNat_decimal notZero, ← written, parseDigits_decimal digits,
          Nat.ofDigitChars_ten_toDigits]
  unfold parseInt
  rw [text]
  split
  · rename_i signed
    exact absurd (digits '-' (by rw [signed]; exact List.mem_cons_self)) (by decide)
  · rename_i signed
    exact absurd (digits '+' (by rw [signed]; exact List.mem_cons_self)) (by decide)
  · rw [value, Option.bind_some]

end CommandLine
