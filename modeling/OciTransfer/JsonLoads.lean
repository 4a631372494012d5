import OciTransfer.JsonDumps
import OciTransfer.JsonRecords

/-!
Reading a JSON text, as `json.loads` does.

The reader is the interpreter's: blanks between the tokens, every escape, integers and
floats told apart, the last of several values under one key.  What `json.dumps` writes
is read back as the value it was written for, with the separators of the default and
with those without blanks.
-/

namespace JsonValue

def blank (char : Char) : Bool := char = ' ' || char = '\t' || char = '\n' || char = '\r'

def skip (text : List Char) : List Char := text.dropWhile blank

def hexValue (char : Char) : Option Nat :=
  if char.isDigit then some (char.toNat - 48)
  else if 'a' ≤ char ∧ char ≤ 'f' then some (char.toNat - 87)
  else if 'A' ≤ char ∧ char ≤ 'F' then some (char.toNat - 55)
  else none

def readUnit (first second third fourth : Char) : Option Nat := do
  return (← hexValue first) * 4096 + (← hexValue second) * 256 + (← hexValue third) * 16 +
    (← hexValue fourth)

def unescape (letter : Char) : Option Char :=
  match letter with
  | '"' => some '"'
  | '\\' => some '\\'
  | '/' => some '/'
  | 'b' => some '\x08'
  | 'f' => some '\x0c'
  | 'n' => some '\n'
  | 'r' => some '\r'
  | 't' => some '\t'
  | _ => none

def readCodes : List Char → Option (List Nat × List Char)
  | [] => none
  | '"' :: rest => some ([], rest)
  | '\\' :: 'u' :: first :: second :: third :: fourth :: rest =>
      (readUnit first second third fourth).bind fun code =>
        (readCodes rest).map fun read => (code :: read.1, read.2)
  | '\\' :: letter :: rest =>
      (unescape letter).bind fun char =>
        (readCodes rest).map fun read => (char.toNat :: read.1, read.2)
  | char :: rest =>
      if char.toNat < 32 then none
      else (readCodes rest).map fun read => (char.toNat :: read.1, read.2)

/-- A high surrogate and the low one after it are one character; a surrogate that
stands alone is no character of a `String`. -/
def joinCodes : List Nat → Option (List Char)
  | [] => some []
  | [code] => if 0xd800 ≤ code ∧ code < 0xe000 then none else some [Char.ofNat code]
  | code :: low :: rest =>
      if 0xd800 ≤ code ∧ code < 0xdc00 then
        if 0xdc00 ≤ low ∧ low < 0xe000 then
          (joinCodes rest).map
            (Char.ofNat (0x10000 + (code - 0xd800) * 0x400 + (low - 0xdc00)) :: ·)
        else none
      else if 0xdc00 ≤ code ∧ code < 0xe000 then none
      else (joinCodes (low :: rest)).map (Char.ofNat code :: ·)

def readText (text : List Char) : Option (String × List Char) :=
  (readCodes text).bind fun read =>
    (joinCodes read.1).map fun chars => (String.ofList chars, read.2)

/-- A point, or what else stands before digits, and the digits; nothing if there are none. -/
def readDigits (before text whole : List Char) : List Char × List Char :=
  let digits := text.takeWhile Char.isDigit
  if digits.isEmpty then ([], whole) else (before ++ digits, text.dropWhile Char.isDigit)

def readFraction (text : List Char) : List Char × List Char :=
  match text with
  | '.' :: rest => readDigits ['.'] rest text
  | _ => ([], text)

def readExponent (text : List Char) : List Char × List Char :=
  match text with
  | first :: second :: rest =>
      if first ≠ 'e' ∧ first ≠ 'E' then ([], text)
      else if second = '-' ∨ second = '+' then readDigits [first, second] rest text
      else readDigits [first] (second :: rest) text
  | _ => ([], text)

/-- A whole number does not go on after a leading zero. -/
def readWhole (text : List Char) : List Char × List Char :=
  match text with
  | '0' :: rest => (['0'], rest)
  | _ => (text.takeWhile Char.isDigit, text.dropWhile Char.isDigit)

def readSign (text : List Char) : Bool × List Char :=
  match text with
  | '-' :: rest => (true, rest)
  | _ => (false, text)

section Reader

variable (float : List Char → JsonValue)

/-- `float` reads the text of a number that has a fraction or an exponent. -/
def readNumber (text : List Char) : Option (JsonValue × List Char) :=
  let sign := readSign text
  let whole := readWhole sign.2
  let fraction := readFraction whole.2
  let exponent := readExponent fraction.2
  if whole.1.isEmpty then none
  else if fraction.1.isEmpty && exponent.1.isEmpty then
    let number := Nat.ofDigitChars 10 whole.1 0
    some (.int (if sign.1 then -number else number), exponent.2)
  else
    some (float ((if sign.1 then ['-'] else []) ++ whole.1 ++ fraction.1 ++ exponent.1), exponent.2)

def literals : List (List Char × JsonValue) :=
  [("null".toList, .null), ("true".toList, .bool true), ("false".toList, .bool false),
    ("NaN".toList, .nonfinite "NaN"), ("Infinity".toList, .nonfinite "Infinity"),
    ("-Infinity".toList, .nonfinite "-Infinity")]

def readLiteral (text : List Char) : Option (JsonValue × List Char) :=
  (literals.find? fun literal => literal.1.isPrefixOf text).map fun literal =>
    (literal.2, text.drop literal.1.length)

/-- `dict(pairs)`: of several values under one key the last counts. -/
def ofPairs (pairs : List (String × JsonValue)) : JsonValue :=
  .dict (pairs.foldl (fun items entry => items.filter (fun item => item.1 ≠ entry.1) ++ [entry]) [])

/-- Nothing up to the closing letter, or what the reader reads. -/
def readUntil (close : Char) (empty : JsonValue)
    (reader : List Char → Option (JsonValue × List Char)) (text : List Char) :
    Option (JsonValue × List Char) :=
  match text with
  | [] => none
  | first :: after => if first = close then some (empty, after) else reader text

mutual

/-- `fuel` bounds the letters that are left. -/
def readValue : Nat → List Char → Option (JsonValue × List Char)
  | 0, _ => none
  | fuel + 1, text =>
      match text with
      | '"' :: rest => (readText rest).map fun read => (.str read.1, read.2)
      | '[' :: rest =>
          readUntil ']' (.arr []) (fun inside =>
            (readItems fuel inside).map fun read => (.arr read.1, read.2)) (skip rest)
      | '\x7b' :: rest =>
          readUntil '\x7d' (.dict []) (fun inside =>
            (readEntries fuel inside).map fun read => (ofPairs read.1, read.2)) (skip rest)
      | _ => (readLiteral text).or (readNumber float text)

def readItems : Nat → List Char → Option (List JsonValue × List Char)
  | 0, _ => none
  | fuel + 1, text =>
      (readValue fuel text).bind fun read =>
        match skip read.2 with
        | ']' :: after => some ([read.1], after)
        | ',' :: rest =>
            (readItems fuel (skip rest)).map fun more => (read.1 :: more.1, more.2)
        | _ => none

def readEntries : Nat → List Char → Option (List (String × JsonValue) × List Char)
  | 0, _ => none
  | fuel + 1, text =>
      match text with
      | '"' :: rest =>
          (readText rest).bind fun key =>
            match skip key.2 with
            | ':' :: afterColon =>
                (readValue fuel (skip afterColon)).bind fun read =>
                  match skip read.2 with
                  | '\x7d' :: after => some ([(key.1, read.1)], after)
                  | ',' :: rest =>
                      (readEntries fuel (skip rest)).map fun more =>
                        ((key.1, read.1) :: more.1, more.2)
                  | _ => none
            | _ => none
      | _ => none

end

/-- `json.loads(text)`; `none` is a `JSONDecodeError`. -/
def loads (text : List Char) : Option JsonValue :=
  (readValue float text.length (skip text)).bind fun read =>
    if (skip read.2).isEmpty then some read.1 else none

end Reader

/-! ### Reading a text back -/

theorem skip_cons {char : Char} (visible : blank char = false) (rest : List Char) :
    skip (char :: rest) = char :: rest := by
  unfold skip
  rw [List.dropWhile_cons, visible]
  rfl

theorem readCodes_plain {char : Char} (notQuote : char ≠ '"') (notEscape : char ≠ '\\')
    (printable : ¬ char.toNat < 32) (rest : List Char) :
    readCodes (char :: rest) =
      (readCodes rest).map fun read => (char.toNat :: read.1, read.2) := by
  rw [readCodes.eq_def]
  split
  · rename_i impossible
    cases impossible
  · rename_i same
    exact absurd (List.cons.inj same).1 notQuote
  · rename_i same
    exact absurd (List.cons.inj same).1 notEscape
  · rename_i same
    exact absurd (List.cons.inj same).1 notEscape
  · rename_i same
    obtain ⟨rfl, rfl⟩ := List.cons.inj same
    rw [if_neg printable]

theorem readCodes_unit {code : Nat} (small : code < 0x10000) (rest : List Char) :
    readCodes (codeUnit code ++ rest) =
      (readCodes rest).map fun read => (code :: read.1, read.2) := by
  have read : ∀ digit < 16, hexValue (Nat.digitChar digit) = some digit := by decide
  have unit : readUnit (code / 4096 % 16).digitChar (code / 256 % 16).digitChar
      (code / 16 % 16).digitChar (code % 16).digitChar = some code := by
    unfold readUnit
    rw [read _ (Nat.mod_lt _ (by decide)), read _ (Nat.mod_lt _ (by decide)),
      read _ (Nat.mod_lt _ (by decide)), read _ (Nat.mod_lt _ (by decide))]
    change some _ = some code
    congr 1
    omega
  change readCodes ('\\' :: 'u' :: _ :: _ :: _ :: _ :: rest) = _
  rw [readCodes, unit]
  rfl

def codesOf (char : Char) : List Nat :=
  if char.toNat < 0x10000 then [char.toNat]
  else [0xd800 + (char.toNat - 0x10000) / 0x400 % 0x400, 0xdc00 + (char.toNat - 0x10000) % 0x400]

private theorem unescape_shortEscape {char letter : Char}
    (special : shortEscape char = some letter) :
    unescape letter = some char ∧ letter ≠ 'u' ∧ char.toNat < 0x10000 := by
  have all : ∀ entry ∈ escapes, unescape entry.2 = some entry.1 ∧ entry.2 ≠ 'u' ∧
      entry.1.toNat < 0x10000 := by decide
  obtain ⟨entry, found, rfl⟩ := Option.map_eq_some_iff.mp special
  have isChar : entry.1 = char := by
    have tested := List.find?_some found
    exact of_decide_eq_true tested
  rw [← isChar]
  exact all entry (List.mem_of_find?_eq_some found)

theorem readCodes_backslash {letter : Char} (notUnit : letter ≠ 'u') (rest : List Char) :
    readCodes ('\\' :: letter :: rest) =
      (unescape letter).bind fun char =>
        (readCodes rest).map fun read => (char.toNat :: read.1, read.2) := by
  rw [readCodes.eq_def]
  split
  · rename_i impossible
    cases impossible
  · rename_i same
    exact absurd (List.cons.inj same).1 (by decide)
  · rename_i same
    exact absurd (List.cons.inj (List.cons.inj same).2).1 notUnit
  · rename_i same
    obtain ⟨rfl, rfl⟩ := List.cons.inj (List.cons.inj same).2
    rfl
  · rename_i noOther same
    obtain ⟨rfl, rfl⟩ := List.cons.inj same
    exact absurd rfl (noOther letter rest rfl)

theorem readCodes_short {char letter : Char} (special : shortEscape char = some letter)
    (rest : List Char) :
    readCodes ('\\' :: letter :: rest) =
      (readCodes rest).map fun read => (char.toNat :: read.1, read.2) := by
  obtain ⟨back, notUnit, -⟩ := unescape_shortEscape special
  rw [readCodes_backslash notUnit, back]
  rfl

private theorem readCodes_escapeChar (char : Char) (rest : List Char) :
    readCodes (escapeChar char ++ rest) =
      (readCodes rest).map fun read => (codesOf char ++ read.1, read.2) := by
  unfold escapeChar codesOf
  cases special : shortEscape char with
  | some letter =>
      dsimp only
      rw [if_pos (unescape_shortEscape special).2.2]
      exact readCodes_short special rest
  | none =>
      dsimp only
      split
      · rename_i printable
        have bounds : 32 ≤ char.toNat ∧ char.toNat ≤ 126 := by
          obtain ⟨low, high⟩ := printable
          exact ⟨low, high⟩
        rw [if_pos (by omega)]
        refine readCodes_plain ?_ ?_ (by omega) rest
        · rintro rfl
          cases special
        · rintro rfl
          cases special
      · split
        · rename_i small
          exact readCodes_unit small rest
        · rw [List.append_assoc, readCodes_unit (by omega), readCodes_unit (by omega),
            Option.map_map]
          rfl

theorem joinCodes_single (char : Char) (codes : List Nat) :
    joinCodes (char.toNat :: codes) = (joinCodes codes).map (char :: ·) := by
  have valid : char.toNat < 0xd800 ∨ 0xdfff < char.toNat ∧ char.toNat < 0x110000 := char.valid
  have single : Char.ofNat char.toNat = char := Char.ofNat_toNat char
  cases codes with
  | nil =>
      change (if 0xd800 ≤ char.toNat ∧ char.toNat < 0xe000 then none
        else some [Char.ofNat char.toNat]) = some [char]
      rw [if_neg (by omega), single]
  | cons code rest => rw [joinCodes, if_neg (by omega), if_neg (by omega), single]

/-- The codes of a character are read as the character. -/
theorem joinCodes_codesOf (char : Char) (codes : List Nat) :
    joinCodes (codesOf char ++ codes) = (joinCodes codes).map (char :: ·) := by
  have valid : char.toNat < 0xd800 ∨ 0xdfff < char.toNat ∧ char.toNat < 0x110000 := char.valid
  unfold codesOf
  split
  · exact joinCodes_single char codes
  · change joinCodes (_ :: _ :: codes) = _
    have whole : 0x10000 + (0xd800 + (char.toNat - 0x10000) / 0x400 % 0x400 - 0xd800) * 0x400 +
        (0xdc00 + (char.toNat - 0x10000) % 0x400 - 0xdc00) = char.toNat := by omega
    rw [joinCodes, if_pos (by omega), if_pos (by omega), whole, Char.ofNat_toNat]

/-- However the text goes on, the escape is read as the character. -/
def Readable (escape : Char → List Char) (char : Char) : Prop :=
  ∃ codes, (∀ rest, readCodes (escape char ++ rest) =
      (readCodes rest).map fun read => (codes ++ read.1, read.2)) ∧
    ∀ more, joinCodes (codes ++ more) = (joinCodes more).map (char :: ·)

private theorem readable_escapeChar (char : Char) : Readable escapeChar char :=
  ⟨codesOf char, readCodes_escapeChar char, joinCodes_codesOf char⟩

private theorem readText_escaped {escape : Char → List Char}
    (readable : ∀ char, Readable escape char)
    (text : String) (rest : List Char) :
    readText (text.toList.flatMap escape ++ '"' :: rest) = some (text, rest) := by
  have read : ∀ chars : List Char, ∃ codes,
      readCodes (chars.flatMap escape ++ '"' :: rest) = some (codes, rest) ∧
        joinCodes codes = some chars := by
    intro chars
    induction chars with
    | nil => exact ⟨[], rfl, rfl⟩
    | cons char chars ih =>
        obtain ⟨codes, readRest, joined⟩ := ih
        obtain ⟨own, readOwn, joinOwn⟩ := readable char
        refine ⟨own ++ codes, ?_, ?_⟩
        · rw [List.flatMap_cons, List.append_assoc, readOwn, readRest]
          rfl
        · rw [joinOwn, joined]
          rfl
  obtain ⟨codes, readAll, joined⟩ := read text.toList
  unfold readText
  rw [readAll]
  dsimp only [Option.bind_some]
  rw [joined, Option.map_some, String.ofList_toList]

def NumberEnds (letter : Char) : Prop :=
  ¬ letter.isDigit = true ∧ letter ≠ '.' ∧ letter ≠ 'e' ∧ letter ≠ 'E'

open PrefixCode

theorem toDigits_ten_leading {number : Nat} {rest : List Char}
    (written : Nat.toDigits 10 number = '0' :: rest) : number = 0 ∧ rest = [] := by
  induction number using Nat.strong_induction_on generalizing rest with
  | _ number ih =>
      by_cases small : number < 10
      · rw [Nat.toDigits_of_lt_base small] at written
        obtain ⟨isZero, noRest⟩ := List.cons.inj written
        refine ⟨?_, noRest.symm⟩
        exact digitChar_inj (show number < 16 by omega) (show 0 < 16 by decide) isZero
      · rw [Nat.toDigits_of_base_le (by decide) (by omega)] at written
        cases digits : Nat.toDigits 10 (number / 10) with
        | nil => exact absurd digits Nat.toDigits_ne_nil
        | cons first more =>
            rw [digits, List.cons_append] at written
            rw [(List.cons.inj written).1] at digits
            have isZero := (ih (number / 10) (by omega) digits).1
            omega

private theorem takeWhile_ended {word rest : List Char}
    (digits : ∀ letter ∈ word, letter.isDigit = true)
    (ended : Ended NumberEnds rest) :
    (word ++ rest).takeWhile Char.isDigit = word ∧
      (word ++ rest).dropWhile Char.isDigit = rest := by
  induction word with
  | nil =>
      cases rest with
      | nil => exact ⟨rfl, rfl⟩
      | cons letter rest =>
          have stops := (ended letter rfl).1
          rw [List.nil_append, List.takeWhile_cons, if_neg stops, List.dropWhile_cons,
            if_neg stops]
          exact ⟨rfl, rfl⟩
  | cons letter word ih =>
      have isDigit := digits letter List.mem_cons_self
      obtain ⟨taken, dropped⟩ := ih fun other member => digits other (List.mem_cons_of_mem _ member)
      rw [List.cons_append, List.takeWhile_cons, if_pos isDigit, List.dropWhile_cons,
        if_pos isDigit, taken, dropped]
      exact ⟨rfl, rfl⟩

private theorem readWhole_toDigits (number : Nat) {rest : List Char}
    (ended : Ended NumberEnds rest) :
    readWhole (Nat.toDigits 10 number ++ rest) = (Nat.toDigits 10 number, rest) := by
  have digits : ∀ letter ∈ Nat.toDigits 10 number, letter.isDigit = true :=
    fun letter member => Nat.isDigit_of_mem_toDigits (by decide) (by decide) member
  obtain ⟨taken, dropped⟩ := takeWhile_ended digits ended
  unfold readWhole
  split
  · rename_i after same
    cases written : Nat.toDigits 10 number with
    | nil => exact absurd written Nat.toDigits_ne_nil
    | cons first more =>
        rw [written, List.cons_append] at same
        obtain ⟨rfl, isRest⟩ := List.cons.inj same
        rw [(toDigits_ten_leading written).2] at isRest ⊢
        rw [← isRest]
        rfl
  · rw [taken, dropped]

private theorem readFraction_ended {rest : List Char} (ended : Ended NumberEnds rest) :
    readFraction rest = ([], rest) := by
  unfold readFraction
  split
  · exact absurd rfl (ended '.' rfl).2.1
  · rfl

private theorem readExponent_ended {rest : List Char} (ended : Ended NumberEnds rest) :
    readExponent rest = ([], rest) := by
  unfold readExponent
  split
  · rename_i first second rest
    rw [if_pos (ended first rfl).2.2]
  · rfl

private theorem readNumber_decimalText (float : List Char → JsonValue) (number : Int)
    {rest : List Char}
    (ended : Ended NumberEnds rest) :
    readNumber float (decimalText number ++ rest) = some (.int number, rest) := by
  have read : ∀ (negative : Bool) (magnitude : Nat),
      readSign (decimalText number ++ rest) = (negative, Nat.toDigits 10 magnitude ++ rest) →
      (if negative then -(magnitude : Int) else magnitude) = number →
      readNumber float (decimalText number ++ rest) = some (.int number, rest) := by
    intro negative magnitude sign value
    have someDigit : (Nat.toDigits 10 magnitude).isEmpty = false :=
      Bool.eq_false_iff.mpr fun isNil => Nat.toDigits_ne_nil (List.isEmpty_iff.mp isNil)
    simp only [readNumber, sign, readWhole_toDigits magnitude ended, someDigit,
      readFraction_ended ended, readExponent_ended ended, Nat.ofDigitChars_ten_toDigits,
      List.isEmpty_nil, Bool.and_self, if_true, Bool.false_eq_true, if_false, value]
  cases number with
  | ofNat magnitude =>
      refine read false magnitude ?_ rfl
      obtain ⟨first, more, written, isDigit⟩ := toDigits_ten_head magnitude
      change readSign (Nat.toDigits 10 magnitude ++ rest) = _
      unfold readSign
      rw [written]
      split
      · rename_i same
        rw [(List.cons.inj same).1] at isDigit
        cases isDigit
      · rfl
  | negSucc magnitude => exact read true (magnitude + 1) rfl rfl

theorem all_blank_nil : ([] : List Char).all blank = true := rfl

structure Style where
  commaBlanks : List Char
  colonBlanks : List Char
  escape : Char → List Char
  float : ℚ → List Char
  commaBlank : commaBlanks.all blank = true
  colonBlank : colonBlanks.all blank = true
  readable : ∀ char, Readable escape char

namespace Style

variable (style : Style)

def quoted (text : String) : List Char := '"' :: (text.toList.flatMap style.escape ++ ['"'])

def comma : List Char := ',' :: style.commaBlanks

mutual

/-- The entries of an object are written in their order. -/
def write : JsonValue → List Char
  | .null => "null".toList
  | .bool true => "true".toList
  | .bool false => "false".toList
  | .int number => decimalText number
  | .real number => style.float number
  | .nonfinite name => name.toList
  | .str text => style.quoted text
  | .arr items => '[' :: (style.comma.intercalate (writeItems items) ++ [']'])
  | .obj entries => '\x7b' :: (style.comma.intercalate (writeEntries entries) ++ ['\x7d'])

def writeItems : List JsonValue → List (List Char)
  | [] => []
  | item :: rest => write item :: writeItems rest

def writeEntries : List (String × JsonValue) → List (List Char)
  | [] => []
  | (key, value) :: rest =>
      (style.quoted key ++ (':' :: style.colonBlanks) ++ write value) :: writeEntries rest

end

/-- `separators=(",", ":")`. -/
def compact (float : ℚ → List Char) : Style :=
  { commaBlanks := []
    colonBlanks := []
    escape := escapeChar
    float := float
    commaBlank := all_blank_nil
    colonBlank := all_blank_nil
    readable := readable_escapeChar }

/-- The separators of `json.dumps` where none are given. -/
def spaced (float : ℚ → List Char) : Style :=
  { commaBlanks := [' ']
    colonBlanks := [' ']
    escape := escapeChar
    float := float
    commaBlank := rfl
    colonBlank := rfl
    readable := readable_escapeChar }

end Style

/-- A value without floats in whose objects no key stands twice. -/
inductive Regular : JsonValue → Prop where
  | null : Regular .null
  | bool (value : Bool) : Regular (.bool value)
  | int (value : Int) : Regular (.int value)
  | str (text : String) : Regular (.str text)
  | arr {items : List JsonValue} : (∀ item ∈ items, Regular item) → Regular (.arr items)
  | obj {entries : List (String × JsonValue)} :
      (entries.map Prod.fst).Nodup → (∀ entry ∈ entries, Regular entry.2) →
      Regular (.obj entries)

mutual

/-- The same value with the keys of its objects in order. -/
def canon : JsonValue → JsonValue
  | .arr items => .arr (canonItems items)
  | .obj entries => .dict (canonEntries entries)
  | value => value

def canonItems : List JsonValue → List JsonValue
  | [] => []
  | item :: rest => canon item :: canonItems rest

def canonEntries : List (String × JsonValue) → List (String × JsonValue)
  | [] => []
  | (key, value) :: rest => (key, canon value) :: canonEntries rest

end

theorem canonItems_eq (items : List JsonValue) : canonItems items = items.map canon := by
  induction items with
  | nil => rfl
  | cons item items ih => rw [canonItems, ih, List.map_cons]

theorem canonEntries_eq (entries : List (String × JsonValue)) :
    canonEntries entries = entries.map fun entry => (entry.1, entry.2.canon) := by
  induction entries with
  | nil => rfl
  | cons entry entries ih => rw [canonEntries, ih, List.map_cons]

private theorem keys_canonEntries (entries : List (String × JsonValue)) :
    (canonEntries entries).map Prod.fst = entries.map Prod.fst := by
  rw [canonEntries_eq, List.map_map]
  rfl

/-- A regular value that is in order already. -/
inductive Canonical : JsonValue → Prop where
  | null : Canonical .null
  | bool (value : Bool) : Canonical (.bool value)
  | int (value : Int) : Canonical (.int value)
  | str (text : String) : Canonical (.str text)
  | arr {items : List JsonValue} : (∀ item ∈ items, Canonical item) → Canonical (.arr items)
  | dict {items : List (String × JsonValue)} :
      (items.map Prod.fst).Nodup → (∀ entry ∈ items, Canonical entry.2) → Canonical (.dict items)

theorem Canonical.regular {value : JsonValue} (canonical : value.Canonical) : value.Regular := by
  induction canonical with
  | null => exact .null
  | bool value => exact .bool value
  | int value => exact .int value
  | str text => exact .str text
  | arr _ ih => exact .arr ih
  | dict distinct _ ih =>
      exact .obj (distinct_sortKeys distinct) fun entry member =>
        ih entry ((List.mem_insertionSort _).mp member)

theorem Canonical.canon_eq {value : JsonValue} (canonical : value.Canonical) :
    value.canon = value := by
  induction canonical with
  | null | bool | int | str => rfl
  | @arr items _ ih =>
      rw [canon, canonItems_eq, List.map_congr_left ih, List.map_id']
  | @dict items _ _ ih =>
      have same : canonEntries (sortKeys items) = sortKeys items := by
        rw [canonEntries_eq]
        refine (List.map_congr_left fun entry member => ?_).trans (List.map_id' _)
        rw [ih entry ((List.mem_insertionSort _).mp member)]
      change JsonValue.dict (canonEntries (sortKeys items)) = JsonValue.dict items
      rw [same, dict_sortKeys]

private theorem ofPairs_distinct {entries : List (String × JsonValue)}
    (distinct : (entries.map Prod.fst).Nodup) : ofPairs entries = .dict entries := by
  have gathered : ∀ earlier : List (String × JsonValue),
      ((earlier ++ entries).map Prod.fst).Nodup →
      entries.foldl (fun items entry => items.filter (fun item => item.1 ≠ entry.1) ++ [entry])
        earlier = earlier ++ entries := by
    clear distinct
    induction entries with
    | nil => exact fun earlier _ => (List.append_nil earlier).symm
    | cons entry entries ih =>
        intro earlier distinct
        have others : earlier.filter (fun item => item.1 ≠ entry.1) = earlier := by
          refine List.filter_eq_self.mpr fun item member => decide_eq_true fun same => ?_
          rw [List.map_append, List.nodup_append] at distinct
          exact distinct.2.2 item.1 (List.mem_map_of_mem member) entry.1
            (List.mem_map_of_mem List.mem_cons_self) same
        rw [List.foldl_cons, others, ih (earlier ++ [entry]) (by
          rw [List.append_assoc]
          exact distinct), List.append_assoc]
        rfl
  unfold ofPairs
  rw [gathered [] distinct, List.nil_append]

private theorem readLiteral_none {text : List Char}
    (other : ∀ literal ∈ literals, literal.1.isPrefixOf text = false) :
    readLiteral text = none := by
  have notFound : literals.find? (fun literal => literal.1.isPrefixOf text) = none :=
    List.find?_eq_none.mpr fun literal member => by
      rw [other literal member]
      exact Bool.false_ne_true
  unfold readLiteral
  rw [notFound]
  rfl

/-- Neither of the first two letters is a digit. -/
def wordy : List Char → Bool
  | first :: second :: _ => !first.isDigit && !second.isDigit
  | _ => false

private theorem wordy_literals : ∀ literal ∈ literals, wordy literal.1 = true :=
  List.all_eq_true.mp (by decide : literals.all (fun literal => wordy literal.1) = true)

/-- It begins with a digit, perhaps behind a minus sign. -/
def Numeric (text : List Char) : Prop :=
  ∃ digit rest, digit.isDigit = true ∧ (text = digit :: rest ∨ text = '-' :: digit :: rest)

theorem Numeric.append {text : List Char} (numeric : Numeric text) (more : List Char) :
    Numeric (text ++ more) := by
  obtain ⟨digit, rest, isDigit, rfl | rfl⟩ := numeric
  · exact ⟨digit, rest ++ more, isDigit, Or.inl rfl⟩
  · exact ⟨digit, rest ++ more, isDigit, Or.inr rfl⟩

private theorem numeric_decimalText (number : Int) : Numeric (decimalText number) := by
  cases number with
  | ofNat magnitude =>
      obtain ⟨first, more, written, isDigit⟩ := toDigits_ten_head magnitude
      exact ⟨first, more, isDigit, Or.inl written⟩
  | negSucc magnitude =>
      obtain ⟨first, more, written, isDigit⟩ := toDigits_ten_head (magnitude + 1)
      exact ⟨first, more, isDigit, Or.inr (congrArg ('-' :: ·) written)⟩

theorem readLiteral_numeric {text : List Char} (numeric : Numeric text) :
    readLiteral text = none := by
  obtain ⟨digit, rest, isDigit, shape⟩ := numeric
  have differs : ∀ {letter : Char}, (!letter.isDigit) = true → (letter == digit) = false := by
    intro letter notDigit
    refine beq_false_of_ne ?_
    rintro rfl
    rw [isDigit] at notDigit
    cases notDigit
  refine readLiteral_none fun literal member => ?_
  have words := wordy_literals literal member
  cases isWord : literal.1 with
  | nil =>
      rw [isWord] at words
      cases words
  | cons letter word =>
      cases word with
      | nil =>
          rw [isWord] at words
          cases words
      | cons second word =>
          rw [isWord] at words
          obtain ⟨letterWord, secondWord⟩ := (Bool.and_eq_true _ _).mp words
          rcases shape with rfl | rfl
          · rw [List.isPrefixOf, differs letterWord, Bool.false_and]
          · rw [List.isPrefixOf, List.isPrefixOf, differs secondWord, Bool.false_and,
              Bool.and_false]

private theorem write_head (style : Style) {value : JsonValue} (regular : value.Regular) :
    ∃ first rest, style.write value = first :: rest ∧
      blank first = false ∧ first ≠ ']' := by
  cases regular with
  | null => exact ⟨_, _, rfl, by decide, by decide⟩
  | bool value => cases value <;> exact ⟨_, _, rfl, by decide, by decide⟩
  | int number =>
      cases number with
      | ofNat number =>
          obtain ⟨first, rest, written, isDigit⟩ := toDigits_ten_head number
          refine ⟨first, rest, written, ?_, ?_⟩
          · unfold blank
            simp only [Bool.or_eq_false_iff, decide_eq_false_iff_not]
            refine ⟨⟨⟨?_, ?_⟩, ?_⟩, ?_⟩ <;> rintro rfl <;> cases isDigit
          · rintro rfl
            cases isDigit
      | negSucc number => exact ⟨_, _, rfl, by decide, by decide⟩
  | str | arr | obj => exact ⟨_, _, rfl, by decide, by decide⟩

private theorem Style.comma_append (style : Style) (rest : List Char) :
    style.comma ++ rest = ',' :: (style.commaBlanks ++ rest) := rfl

private theorem Style.length_comma (style : Style) :
    style.comma.length = style.commaBlanks.length + 1 :=
  rfl

section RoundTrip

variable {style : Style} {readFloat : List Char → JsonValue}

private theorem skip_blanks {blanks : List Char} (allBlank : blanks.all blank = true) {first : Char}
    (visible : blank first = false) (rest : List Char) :
    skip (blanks ++ first :: rest) = first :: rest := by
  induction blanks with
  | nil => exact skip_cons visible rest
  | cons char blanks ih =>
      rw [List.all_cons, Bool.and_eq_true] at allBlank
      unfold skip at ih ⊢
      rw [List.cons_append, List.dropWhile_cons, if_pos allBlank.1]
      exact ih allBlank.2

/-- What is written for the value is read back in order, whatever it goes on with. -/
def ReadBack (style : Style)
    (readFloat : List Char → JsonValue) (value : JsonValue) : Prop :=
  ∀ rest fuel, Ended NumberEnds rest →
    (style.write value).length ≤ fuel →
    readValue readFloat fuel (style.write value ++ rest) = some (value.canon, rest)

private theorem numberEnds_of_close {letter : Char}
    (closes : letter = ',' ∨ letter = ']' ∨ letter = '\x7d') (rest : List Char) :
    Ended NumberEnds (letter :: rest) := by
  refine ended_cons ?_ rest
  rcases closes with rfl | rfl | rfl <;> exact ⟨by decide, by decide, by decide, by decide⟩

private theorem readItems_write {item : JsonValue}
    {items : List JsonValue}
    (back : ∀ value ∈ item :: items, ReadBack style readFloat value)
    (regular : ∀ value ∈ item :: items, value.Regular) (rest : List Char) (fuel : Nat)
    (enough : (style.comma.intercalate
      (style.writeItems (item :: items))).length + 1 ≤ fuel) :
    readItems readFloat fuel (style.comma.intercalate
      (style.writeItems (item :: items)) ++ ']' :: rest) =
        some (canonItems (item :: items), rest) := by
  induction items generalizing item fuel with
  | nil =>
      obtain ⟨fuel, rfl⟩ : ∃ less, fuel = less + 1 := Nat.exists_eq_succ_of_ne_zero (by omega)
      rw [Style.writeItems, Style.writeItems, List.intercalate_singleton] at enough ⊢
      rw [readItems, back item List.mem_cons_self (']' :: rest) fuel
        (numberEnds_of_close (Or.inr (Or.inl rfl)) rest) (by omega)]
      dsimp only [Option.bind_some]
      rw [skip_cons (by decide)]
      rfl
  | cons next more ih =>
      obtain ⟨fuel, rfl⟩ : ∃ less, fuel = less + 1 := Nat.exists_eq_succ_of_ne_zero (by omega)
      obtain ⟨first, tail, written, visible, -⟩ :=
        write_head style (regular next (by simp))
      have later := ih (fun value member => back value (List.mem_cons_of_mem _ member))
        (fun value member => regular value (List.mem_cons_of_mem _ member)) fuel
      rw [Style.writeItems, Style.writeItems, List.intercalate_cons_cons,
        ← Style.writeItems] at enough ⊢
      generalize joined : style.comma.intercalate
        (style.writeItems (next :: more)) = text at enough later ⊢
      have begins : ∃ after, text ++ ']' :: rest = first :: after := by
        rw [← joined, Style.writeItems, written]
        cases more with
        | nil => exact ⟨_, rfl⟩
        | cons other others =>
            rw [Style.writeItems, List.intercalate_cons_cons]
            exact ⟨_, rfl⟩
      obtain ⟨after, begins⟩ := begins
      simp only [List.length_append, Style.length_comma] at enough
      rw [List.append_assoc, List.append_assoc, Style.comma_append, readItems,
        back item List.mem_cons_self _ fuel (numberEnds_of_close (Or.inl rfl) _) (by omega)]
      dsimp only [Option.bind_some]
      rw [skip_cons (by decide), begins]
      change (readItems readFloat fuel (skip (style.commaBlanks ++ first :: after))).map _ = _
      rw [skip_blanks style.commaBlank visible, ← begins, later (by omega)]
      rfl

private theorem readEntry_write {entry : String × JsonValue}
    (back : ReadBack style readFloat entry.2)
    (regular : entry.2.Regular) {letter : Char}
    (closes : letter = ',' ∨ letter = ']' ∨ letter = '\x7d') {rest : List Char} {fuel : Nat}
    (enough : (style.quoted entry.1 ++ (':' :: style.colonBlanks) ++
      style.write entry.2).length ≤ fuel) :
    readEntries readFloat (fuel + 1) (style.quoted entry.1 ++ (':' :: style.colonBlanks) ++
      style.write entry.2 ++ letter :: rest) =
        match skip (letter :: rest) with
        | '\x7d' :: after => some ([(entry.1, entry.2.canon)], after)
        | ',' :: rest =>
            (readEntries readFloat fuel (skip rest)).map fun more =>
              ((entry.1, entry.2.canon) :: more.1, more.2)
        | _ => none := by
  obtain ⟨first, tail, written, visible, -⟩ :=
    write_head style regular
  simp only [List.length_append, List.length_cons] at enough
  have value := back (letter :: rest) fuel (numberEnds_of_close closes rest) (by omega)
  rw [written, List.cons_append] at value
  rw [List.append_assoc, written, List.cons_append]
  unfold Style.quoted
  rw [List.append_assoc, List.cons_append, List.append_assoc, readEntries]
  change (readText (entry.1.toList.flatMap style.escape ++ '"' ::
    (':' :: style.colonBlanks ++ first :: (tail ++ letter :: rest)))).bind _ = _
  rw [readText_escaped style.readable]
  dsimp only [Option.bind_some]
  rw [List.cons_append, skip_cons (by decide)]
  change
    (readValue readFloat fuel (skip (style.colonBlanks ++ first :: (tail ++ letter :: rest)))).bind
    _ = _
  rw [skip_blanks style.colonBlank visible, value]
  rfl

private theorem readEntries_write {entry : String × JsonValue}
    {entries : List (String × JsonValue)}
    (back : ∀ item ∈ entry :: entries, ReadBack style readFloat item.2)
    (regular : ∀ item ∈ entry :: entries, item.2.Regular) (rest : List Char) (fuel : Nat)
    (enough : (style.comma.intercalate
      (style.writeEntries (entry :: entries))).length + 1 ≤ fuel) :
    readEntries readFloat fuel (style.comma.intercalate
      (style.writeEntries (entry :: entries)) ++ '\x7d' :: rest) =
        some (canonEntries (entry :: entries), rest) := by
  induction entries generalizing entry fuel with
  | nil =>
      obtain ⟨fuel, rfl⟩ : ∃ less, fuel = less + 1 := Nat.exists_eq_succ_of_ne_zero (by omega)
      rw [Style.writeEntries, Style.writeEntries, List.intercalate_singleton] at enough ⊢
      rw [readEntry_write (back entry List.mem_cons_self)
        (regular entry List.mem_cons_self) (Or.inr (Or.inr rfl)) (by omega),
        skip_cons (by decide)]
      rfl
  | cons next more ih =>
      obtain ⟨fuel, rfl⟩ : ∃ less, fuel = less + 1 := Nat.exists_eq_succ_of_ne_zero (by omega)
      have later := ih (fun item member => back item (List.mem_cons_of_mem _ member))
        (fun item member => regular item (List.mem_cons_of_mem _ member)) fuel
      rw [Style.writeEntries, Style.writeEntries, List.intercalate_cons_cons,
        ← Style.writeEntries] at enough ⊢
      generalize joined : style.comma.intercalate
        (style.writeEntries (next :: more)) = text at enough later ⊢
      have begins : ∃ after, text ++ '\x7d' :: rest = '"' :: after := by
        rw [← joined, Style.writeEntries]
        cases more with
        | nil => exact ⟨_, rfl⟩
        | cons other others =>
            rw [Style.writeEntries, List.intercalate_cons_cons]
            exact ⟨_, rfl⟩
      obtain ⟨after, begins⟩ := begins
      simp only [List.length_append, Style.length_comma] at enough
      rw [List.append_assoc, List.append_assoc, Style.comma_append,
        readEntry_write (back entry List.mem_cons_self)
          (regular entry List.mem_cons_self) (Or.inl rfl) (by
            simp only [List.length_append]
            omega), skip_cons (by decide), begins]
      change (readEntries readFloat fuel (skip (style.commaBlanks ++ '"' :: after))).map _ = _
      rw [skip_blanks style.commaBlank (by decide), ← begins, later (by omega)]
      rfl

theorem readValue_scalar {first : Char} {after : List Char} (text : first ≠ '"')
    (array : first ≠ '[') (object : first ≠ '\x7b') (fuel : Nat) :
    readValue readFloat (fuel + 1) (first :: after) =
      (readLiteral (first :: after)).or (readNumber readFloat (first :: after)) := by
  rw [readValue.eq_def]
  dsimp only
  split
  · rename_i same
    exact absurd (List.cons.inj same).1 text
  · rename_i same
    exact absurd (List.cons.inj same).1 array
  · rename_i same
    exact absurd (List.cons.inj same).1 object
  · rfl

private theorem readBack_literal {name : String} {value : JsonValue}
    (written : style.write value = name.toList)
    (read : ∀ rest fuel, readValue readFloat (fuel + 1) (name.toList ++ rest) =
      some (value.canon, rest)) (someLetter : 0 < name.toList.length) :
    ReadBack style readFloat value := by
  intro rest fuel _ enough
  rw [written] at enough ⊢
  obtain ⟨fuel, rfl⟩ : ∃ less, fuel = less + 1 := Nat.exists_eq_succ_of_ne_zero (by omega)
  exact read rest fuel

private theorem readBack_int (number : Int) :
    ReadBack style readFloat (.int number) := by
  intro rest fuel ended enough
  change (decimalText number).length ≤ fuel at enough
  change readValue readFloat fuel (decimalText number ++ rest) = _
  have begins : ∃ first after, decimalText number = first :: after ∧ first ≠ '"' ∧ first ≠ '[' ∧
      first ≠ '\x7b' := by
    cases number with
    | ofNat magnitude =>
        obtain ⟨first, after, written, isDigit⟩ := toDigits_ten_head magnitude
        refine ⟨first, after, written, ?_, ?_, ?_⟩ <;> rintro rfl <;> cases isDigit
    | negSucc magnitude => exact ⟨_, _, rfl, by decide, by decide, by decide⟩
  obtain ⟨first, after, written, text, array, object⟩ := begins
  obtain ⟨fuel, rfl⟩ : ∃ less, fuel = less + 1 := by
    refine Nat.exists_eq_succ_of_ne_zero ?_
    rw [written, List.length_cons] at enough
    omega
  have literal := readLiteral_numeric ((numeric_decimalText number).append rest)
  have digits := readNumber_decimalText readFloat number ended
  rw [written, List.cons_append] at literal digits ⊢
  rw [readValue_scalar text array object, literal, digits]
  rfl

private theorem readBack_str (text : String) :
    ReadBack style readFloat (.str text) := by
  intro rest fuel _ enough
  obtain ⟨fuel, rfl⟩ : ∃ less, fuel = less + 1 := by
    refine Nat.exists_eq_succ_of_ne_zero ?_
    rintro rfl
    cases enough
  change readValue readFloat (fuel + 1)
    ('"' :: (text.toList.flatMap style.escape ++ ['"'] ++ rest)) = _
  rw [List.append_assoc]
  change (readText (text.toList.flatMap style.escape ++ '"' :: rest)).map _ = _
  rw [readText_escaped style.readable]
  rfl

private theorem readBack_arr {items : List JsonValue}
    (back : ∀ item ∈ items, ReadBack style readFloat item)
    (regular : ∀ item ∈ items, item.Regular) :
    ReadBack style readFloat (.arr items) := by
  intro rest fuel _ enough
  rw [Style.write] at enough ⊢
  simp only [List.length_cons, List.length_append] at enough
  obtain ⟨fuel, rfl⟩ : ∃ less, fuel = less + 1 := Nat.exists_eq_succ_of_ne_zero (by omega)
  cases items with
  | nil => rfl
  | cons item items =>
      have read := readItems_write back regular rest fuel (by omega)
      generalize joined : style.comma.intercalate
        (style.writeItems (item :: items)) = text at enough read ⊢
      obtain ⟨first, tail, written, visible, inside⟩ :=
        write_head style (regular item List.mem_cons_self)
      obtain ⟨after, begins⟩ : ∃ after, text ++ ']' :: rest = first :: after := by
        rw [← joined, Style.writeItems, written]
        cases items with
        | nil => exact ⟨_, rfl⟩
        | cons other others =>
            rw [Style.writeItems, List.intercalate_cons_cons]
            exact ⟨_, rfl⟩
      rw [List.cons_append, List.append_assoc, List.singleton_append, begins]
      change readUntil ']' (.arr []) (fun inside => (readItems readFloat fuel inside).map _)
        (skip (first :: after)) = _
      rw [skip_cons visible, readUntil, if_neg inside, ← begins, read]
      rfl

private theorem readBack_obj {entries : List (String × JsonValue)}
    (distinct : (entries.map Prod.fst).Nodup)
    (back : ∀ entry ∈ entries, ReadBack style readFloat entry.2)
    (regular : ∀ entry ∈ entries, entry.2.Regular) :
    ReadBack style readFloat (.obj entries) := by
  intro rest fuel _ enough
  rw [Style.write] at enough ⊢
  simp only [List.length_cons, List.length_append] at enough
  obtain ⟨fuel, rfl⟩ : ∃ less, fuel = less + 1 := Nat.exists_eq_succ_of_ne_zero (by omega)
  cases entries with
  | nil => rfl
  | cons entry entries =>
      have read := readEntries_write back regular rest fuel (by omega)
      generalize joined : style.comma.intercalate
        (style.writeEntries (entry :: entries)) = text at enough read ⊢
      obtain ⟨after, begins⟩ : ∃ after, text ++ '\x7d' :: rest = '"' :: after := by
        rw [← joined, Style.writeEntries]
        cases entries with
        | nil => exact ⟨_, rfl⟩
        | cons other others =>
            rw [Style.writeEntries, List.intercalate_cons_cons]
            exact ⟨_, rfl⟩
      rw [List.cons_append, List.append_assoc, List.singleton_append, begins]
      change (readEntries readFloat fuel ('"' :: after)).map
        (fun read => (ofPairs read.1, read.2)) = _
      have keys : ((canonEntries (entry :: entries)).map Prod.fst).Nodup := by
        rw [keys_canonEntries]
        exact distinct
      rw [← begins, read, Option.map_some, ofPairs_distinct keys]
      rfl

theorem readBack_of_regular {value : JsonValue} (regular : value.Regular) :
    ReadBack style readFloat value := by
  induction regular with
  | null => exact readBack_literal (by rfl : _ = "null".toList) (fun _ _ => rfl) (by decide)
  | bool value =>
      cases value with
      | false => exact readBack_literal (by rfl : _ = "false".toList) (fun _ _ => rfl) (by decide)
      | true => exact readBack_literal (by rfl : _ = "true".toList) (fun _ _ => rfl) (by decide)
  | int number => exact readBack_int number
  | str text => exact readBack_str text
  | arr regular ih => exact readBack_arr ih regular
  | obj distinct regular ih => exact readBack_obj distinct ih regular

/-- `json.loads` reads back what is written in any style. -/
theorem loads_write (style : Style) (readFloat : List Char → JsonValue) {value : JsonValue}
    (regular : value.Regular) : loads readFloat (style.write value) = some value.canon := by
  obtain ⟨first, tail, written, visible, -⟩ := write_head style regular
  have back : ReadBack style readFloat value := readBack_of_regular regular
  have read := back [] _ (fun _ impossible => nomatch impossible) le_rfl
  rw [List.append_nil] at read
  unfold loads
  rw [written, skip_cons visible, ← written, read]
  rfl

end RoundTrip

/-! ### The text without blanks -/

theorem writeItems_eq (style : Style) (items : List JsonValue) :
    style.writeItems items = items.map style.write := by
  induction items with
  | nil => rfl
  | cons item items ih => rw [Style.writeItems, ih, List.map_cons]

private theorem write_compact {float : ℚ → List Char} {value : JsonValue}
    (regular : value.Regular) :
    (Style.compact float).write value = dumps float value := by
  induction regular with
  | null | int | str => rfl
  | bool value => cases value <;> rfl
  | @arr items _ ih =>
      have same : (Style.compact float).writeItems items = dumpsItems float items := by
        rw [writeItems_eq, dumpsItems_eq]
        exact List.map_congr_left ih
      rw [Style.write, dumps, same]
      rfl
  | @obj entries _ _ ih =>
      have same : (Style.compact float).writeEntries entries = dumpsEntries float entries := by
        clear * - ih
        induction entries with
        | nil => rfl
        | cons entry entries tailSame =>
            rw [Style.writeEntries, dumpsEntries, ih entry List.mem_cons_self,
              tailSame fun other member => ih other (List.mem_cons_of_mem _ member),
              List.append_assoc]
            rfl
      rw [Style.write, dumps, same]
      rfl

/-- `json.loads` inverts `json.dumps` with sorted keys and without blanks. -/
theorem loads_dumps (float : ℚ → List Char) (readFloat : List Char → JsonValue)
    {value : JsonValue} (canonical : value.Canonical) :
    loads readFloat (dumps float value) = some value := by
  rw [← write_compact canonical.regular, loads_write _ _ canonical.regular, canonical.canon_eq]

end JsonValue
