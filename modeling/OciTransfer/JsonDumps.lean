import OciTransfer.JsonValue
import OciTransfer.PrefixCode

/-!
The text of a JSON value, as `json.dumps` writes it with sorted keys and without blanks.

Everything but printable ASCII is escaped, a character outside the basic plane by two
surrogates.  No escape is the beginning of another, a quote ends a text only where it
is not escaped, and a number ends where no digit follows; so two values without floats
have the same text only if they are the same.
-/

namespace JsonValue

open PrefixCode

def escapes : List (Char × Char) :=
  [('"', '"'), ('\\', '\\'), ('\n', 'n'), ('\r', 'r'), ('\t', 't'), ('\x0c', 'f'),
    ('\x08', 'b')]

def shortEscape (char : Char) : Option Char :=
  (escapes.find? fun entry => entry.1 = char).map Prod.snd

/-- `'\\u{0:04x}'.format(code)`, for a code of four hexadecimal digits. -/
def codeUnit (code : Nat) : List Char :=
  ['\\', 'u', (code / 4096 % 16).digitChar, (code / 256 % 16).digitChar,
    (code / 16 % 16).digitChar, (code % 16).digitChar]

def escapeChar (char : Char) : List Char :=
  match shortEscape char with
  | some letter => ['\\', letter]
  | none =>
      if ' ' ≤ char ∧ char ≤ '~' then [char]
      else if char.toNat < 0x10000 then codeUnit char.toNat
      else
        let above := char.toNat - 0x10000
        codeUnit (0xd800 + above / 0x400 % 0x400) ++ codeUnit (0xdc00 + above % 0x400)

def quoted (text : String) : List Char := '"' :: (text.toList.flatMap escapeChar ++ ['"'])

def decimalText : Int → List Char
  | .ofNat number => Nat.toDigits 10 number
  | .negSucc number => '-' :: Nat.toDigits 10 (number + 1)

section Dumps

variable (float : ℚ → List Char)

mutual

/-- `json.dumps(value, sort_keys=True, separators=(",", ":"))`; `float` writes a float. -/
def dumps : JsonValue → List Char
  | .null => "null".toList
  | .bool true => "true".toList
  | .bool false => "false".toList
  | .int number => decimalText number
  | .real number => float number
  | .nonfinite name => name.toList
  | .str text => quoted text
  | .arr items => '[' :: ([','].intercalate (dumpsItems items) ++ [']'])
  | .obj entries => '{' :: ([','].intercalate (dumpsEntries entries) ++ ['}'])

def dumpsItems : List JsonValue → List (List Char)
  | [] => []
  | item :: rest => dumps item :: dumpsItems rest

def dumpsEntries : List (String × JsonValue) → List (List Char)
  | [] => []
  | (key, value) :: rest => (quoted key ++ ':' :: dumps value) :: dumpsEntries rest

end

end Dumps

example : String.ofList (dumps (fun _ => []) (.dict [("b", .int (-12)), ("a", .str "é\n😀")])) =
    "\x7b\"a\":\"\\u00e9\\n\\ud83d\\ude00\",\"b\":-12\x7d" := by decide

theorem dumpsItems_eq (float : ℚ → List Char) (items : List JsonValue) :
    dumpsItems float items = items.map (dumps float) := by
  induction items with
  | nil => rfl
  | cons item rest ih => rw [dumpsItems, ih, List.map_cons]

def dumpsEntry (float : ℚ → List Char) (entry : String × JsonValue) : List Char :=
  quoted entry.1 ++ ':' :: dumps float entry.2

private theorem dumpsEntries_eq (float : ℚ → List Char) (entries : List (String × JsonValue)) :
    dumpsEntries float entries = entries.map (dumpsEntry float) := by
  induction entries with
  | nil => rfl
  | cons entry rest ih => rw [dumpsEntries, ih, List.map_cons, dumpsEntry]

/-! ### One character -/

theorem digitChar_inj {one other : Nat} (small : one < 16) (otherSmall : other < 16)
    (same : one.digitChar = other.digitChar) : one = other := by
  have told : ∀ one < 16, ∀ other < 16,
      Nat.digitChar one = Nat.digitChar other → one = other := by decide
  exact told one small other otherSmall same

private theorem codeUnit_told {one other : Nat} (small : one < 0x10000)
    (otherSmall : other < 0x10000)
    {rest last : List Char} (same : codeUnit one ++ rest = codeUnit other ++ last) :
    one = other ∧ rest = last := by
  simp only [codeUnit, List.cons_append, List.nil_append, List.cons.injEq, true_and] at same
  obtain ⟨first, second, third, fourth, sameRest⟩ := same
  have := digitChar_inj (Nat.mod_lt _ (by decide)) (Nat.mod_lt _ (by decide)) first
  have := digitChar_inj (Nat.mod_lt _ (by decide)) (Nat.mod_lt _ (by decide)) second
  have := digitChar_inj (Nat.mod_lt _ (by decide)) (Nat.mod_lt _ (by decide)) third
  have := digitChar_inj (Nat.mod_lt _ (by decide)) (Nat.mod_lt _ (by decide)) fourth
  exact ⟨by omega, sameRest⟩

/-- The four ways to write a character. -/
inductive Escaped (char : Char) : List Char → Prop where
  | short {letter : Char} : shortEscape char = some letter → Escaped char ['\\', letter]
  | plain : char ≠ '\\' → char ≠ '"' → Escaped char [char]
  | unit : char.toNat < 0x10000 → Escaped char (codeUnit char.toNat)
  | pair : 0x10000 ≤ char.toNat → Escaped char
      (codeUnit (0xd800 + (char.toNat - 0x10000) / 0x400 % 0x400) ++
        codeUnit (0xdc00 + (char.toNat - 0x10000) % 0x400))

theorem escaped (char : Char) : Escaped char (escapeChar char) := by
  unfold escapeChar
  cases special : shortEscape char with
  | some letter => exact .short special
  | none =>
      dsimp only
      split
      · apply Escaped.plain
        · rintro rfl
          exact absurd special (by decide)
        · rintro rfl
          exact absurd special (by decide)
      · split
        · rename_i basic
          exact .unit basic
        · rename_i beyond
          exact .pair (Nat.le_of_not_lt beyond)

theorem mem_escapes {char letter : Char} (special : shortEscape char = some letter) :
    (char, letter) ∈ escapes := by
  obtain ⟨entry, found, letterEq⟩ := Option.map_eq_some_iff.mp special
  have sameChar : entry.1 = char := by simpa using List.find?_some found
  rw [← sameChar, ← letterEq]
  exact List.mem_of_find?_eq_some found

private theorem shortEscape_told {char other letter : Char}
    (special : shortEscape char = some letter)
    (otherSpecial : shortEscape other = some letter) : char = other := by
  have told : (escapes.all fun entry => escapes.all fun second =>
      decide (entry.2 = second.2 → entry.1 = second.1)) = true := by decide
  have toldChar := List.all_eq_true.mp told _ (mem_escapes special)
  exact of_decide_eq_true (List.all_eq_true.mp toldChar _ (mem_escapes otherSpecial)) rfl

private theorem shortEscape_ne {char letter : Char} (special : shortEscape char = some letter) :
    letter ≠ 'u' := by
  have told : (escapes.all fun entry => decide (entry.2 ≠ 'u')) = true := by decide
  exact of_decide_eq_true (List.all_eq_true.mp told _ (mem_escapes special))

private theorem codeUnit_not_surrogate {char : Char} {above : Nat} (small : char.toNat < 0x10000)
    (same : char.toNat = 0xd800 + above / 0x400 % 0x400) : False := by
  have isChar : char.toNat < 0xd800 ∨ 0xdfff < char.toNat ∧ char.toNat < 0x110000 := char.valid
  omega

theorem Escaped.told {char other : Char} {text otherText : List Char} (escaped : Escaped char text)
    (otherEscaped : Escaped other otherText) {rest last : List Char}
    (same : text ++ rest = otherText ++ last) : char = other ∧ rest = last := by
  cases escaped with
  | short special =>
      cases otherEscaped with
      | short otherSpecial =>
          simp only [List.cons_append, List.nil_append, List.cons.injEq, true_and] at same
          rw [same.1] at special
          exact ⟨shortEscape_told special otherSpecial, same.2⟩
      | plain notBackslash _ => exact absurd (List.cons.inj same).1.symm notBackslash
      | unit | pair =>
          exact absurd (List.cons.inj (List.cons.inj same).2).1 (shortEscape_ne special)
  | plain notBackslash _ =>
      cases otherEscaped with
      | plain => exact List.cons.inj same
      | short | unit | pair => exact absurd (List.cons.inj same).1 notBackslash
  | unit small =>
      cases otherEscaped with
      | short otherSpecial =>
          exact absurd (List.cons.inj (List.cons.inj same).2).1.symm (shortEscape_ne otherSpecial)
      | plain notBackslash _ => exact absurd (List.cons.inj same).1.symm notBackslash
      | unit otherSmall =>
          obtain ⟨sameCode, sameRest⟩ := codeUnit_told small otherSmall same
          exact ⟨Char.toNat_inj.mp sameCode, sameRest⟩
      | pair =>
          rw [List.append_assoc] at same
          exact (codeUnit_not_surrogate small (codeUnit_told small (by omega) same).1).elim
  | pair beyond =>
      rw [List.append_assoc] at same
      cases otherEscaped with
      | short otherSpecial =>
          exact absurd (List.cons.inj (List.cons.inj same).2).1.symm (shortEscape_ne otherSpecial)
      | plain notBackslash _ => exact absurd (List.cons.inj same).1.symm notBackslash
      | unit otherSmall =>
          exact (codeUnit_not_surrogate otherSmall
            (codeUnit_told (by omega) otherSmall same).1.symm).elim
      | pair otherBeyond =>
          rw [List.append_assoc] at same
          obtain ⟨sameHigh, sameTail⟩ := codeUnit_told (by omega) (by omega) same
          obtain ⟨sameLow, sameRest⟩ := codeUnit_told (by omega) (by omega) sameTail
          have charValid : char.toNat < 0xd800 ∨ 0xdfff < char.toNat ∧ char.toNat < 0x110000 :=
            char.valid
          have otherValid : other.toNat < 0xd800 ∨ 0xdfff < other.toNat ∧ other.toNat < 0x110000 :=
            other.valid
          exact ⟨Char.toNat_inj.mp (by omega), sameRest⟩

private theorem escapeChar_told (char : Char) :
    Told escapeChar (fun _ => True) (fun _ => True) char :=
  fun other _ _ _ _ _ same => (escaped char).told (escaped other) same

private theorem escapeChar_avoids : Avoids escapeChar (fun _ => True) '"' := by
  intro char _
  have escape := escaped char
  generalize escapeChar char = text at escape
  cases escape with
  | short => exact ⟨_, _, rfl, by decide⟩
  | plain _ notQuote => exact ⟨_, _, rfl, notQuote⟩
  | unit => exact ⟨_, _, rfl, by decide⟩
  | pair => exact ⟨_, _, rfl, by decide⟩

/-! ### Texts and numbers -/

private theorem quoted_told {text other : String} {rest last : List Char}
    (same : quoted text ++ rest = quoted other ++ last) : text = other ∧ rest = last := by
  unfold quoted at same
  rw [List.cons_append, List.cons_append, List.append_assoc, List.append_assoc] at same
  obtain ⟨sameChars, sameRest⟩ := flatMap_told escapeChar_avoids
    (fun char _ => escapeChar_told char) (fun _ _ => trivial) (fun _ _ => trivial)
    (List.cons.inj same).2
  exact ⟨String.toList_injective sameChars, sameRest⟩

theorem toDigits_ten_told {number other : Nat} {rest last : List Char}
    (restEnded : Ended (fun letter => ¬ letter.isDigit = true) rest)
    (lastEnded : Ended (fun letter => ¬ letter.isDigit = true) last)
    (same : Nat.toDigits 10 number ++ rest = Nat.toDigits 10 other ++ last) :
    number = other ∧ rest = last := by
  have digits : ∀ number, ∀ letter ∈ Nat.toDigits 10 number, letter.isDigit = true :=
    fun number letter member => Nat.isDigit_of_mem_toDigits (by decide) (by decide) member
  obtain ⟨sameDigits, sameRest⟩ :=
    append_inj_of_all (digits number) (digits other) restEnded lastEnded same
  have sameNumber := congrArg (fun digits => Nat.ofDigitChars 10 digits 0) sameDigits
  simp only [Nat.ofDigitChars_ten_toDigits] at sameNumber
  exact ⟨sameNumber, sameRest⟩

theorem toDigits_ten_head (number : Nat) :
    ∃ first rest, Nat.toDigits 10 number = first :: rest ∧ first.isDigit = true := by
  cases digits : Nat.toDigits 10 number with
  | nil => exact absurd digits Nat.toDigits_ne_nil
  | cons first rest =>
      refine ⟨first, rest, rfl, ?_⟩
      apply @Nat.isDigit_of_mem_toDigits 10 number first (by decide) (by decide)
      rw [digits]
      exact List.mem_cons_self

private theorem decimalText_told {number other : Int} {rest last : List Char}
    (restEnded : Ended (fun letter => ¬ letter.isDigit = true) rest)
    (lastEnded : Ended (fun letter => ¬ letter.isDigit = true) last)
    (same : decimalText number ++ rest = decimalText other ++ last) :
    number = other ∧ rest = last := by
  cases number with
  | ofNat number =>
      cases other with
      | ofNat other =>
          obtain ⟨sameNumber, sameRest⟩ := toDigits_ten_told restEnded lastEnded same
          rw [sameNumber]
          exact ⟨rfl, sameRest⟩
      | negSucc other =>
          obtain ⟨first, digits, written, isDigit⟩ := toDigits_ten_head number
          rw [decimalText, written] at same
          rw [(List.cons.inj same).1] at isDigit
          cases isDigit
  | negSucc number =>
      cases other with
      | ofNat other =>
          obtain ⟨first, digits, written, isDigit⟩ := toDigits_ten_head other
          rw [decimalText, decimalText, written] at same
          rw [← (List.cons.inj same).1] at isDigit
          cases isDigit
      | negSucc other =>
          obtain ⟨sameNumber, sameRest⟩ :=
            toDigits_ten_told restEnded lastEnded (List.cons.inj same).2
          rw [Nat.succ.inj sameNumber]
          exact ⟨rfl, sameRest⟩

/-- Values in which there are no floats. -/
inductive FloatFree : JsonValue → Prop where
  | null : FloatFree .null
  | bool (value : Bool) : FloatFree (.bool value)
  | int (value : Int) : FloatFree (.int value)
  | str (text : String) : FloatFree (.str text)
  | arr {items : List JsonValue} : (∀ item ∈ items, FloatFree item) → FloatFree (.arr items)
  | obj {entries : List (String × JsonValue)} :
      (∀ entry ∈ entries, FloatFree entry.2) → FloatFree (.obj entries)

/-- What the first letter of a text says about the value. -/
inductive Kind where
  | null
  | true
  | false
  | number
  | text
  | array
  | object
  deriving DecidableEq

def kindOf (letter : Char) : Option Kind :=
  if letter.isDigit ∨ letter = '-' then some .number
  else
    match letter with
    | 'n' => some .null
    | 't' => some .true
    | 'f' => some .false
    | '"' => some .text
    | '[' => some .array
    | '\x7b' => some .object
    | _ => none

def kind : JsonValue → Kind
  | .null => .null
  | .bool true => .true
  | .bool false => .false
  | .str _ => .text
  | .arr _ => .array
  | .obj _ => .object
  | .int _ | .real _ | .nonfinite _ => .number

section Dumps

variable {float : ℚ → List Char}

theorem FloatFree.head {value : JsonValue} (floatFree : value.FloatFree) :
    ∃ first rest, dumps float value = first :: rest ∧ kindOf first = some value.kind := by
  cases floatFree with
  | null => exact ⟨_, _, rfl, rfl⟩
  | bool value => cases value <;> exact ⟨_, _, rfl, rfl⟩
  | int number =>
      cases number with
      | ofNat number =>
          obtain ⟨first, rest, written, isDigit⟩ := toDigits_ten_head number
          exact ⟨first, rest, written, if_pos (Or.inl isDigit)⟩
      | negSucc number => exact ⟨_, _, rfl, rfl⟩
  | str | arr | obj => exact ⟨_, _, rfl, rfl⟩

private theorem dumps_avoids : Avoids (dumps float) FloatFree ']' := by
  intro value floatFree
  obtain ⟨first, rest, written, isKind⟩ := @FloatFree.head float value floatFree
  refine ⟨first, rest, written, ?_⟩
  rintro rfl
  cases isKind

private theorem dumpsEntry_avoids :
    Avoids (dumpsEntry float) (fun entry => entry.2.FloatFree) '\x7d' :=
  fun _ _ => ⟨_, _, rfl, by decide⟩

private theorem kind_told {value other : JsonValue} (floatFree : value.FloatFree)
    (otherFree : other.FloatFree) {rest last : List Char}
    (same : dumps float value ++ rest = dumps float other ++ last) :
    value.kind = other.kind := by
  obtain ⟨first, more, written, isKind⟩ := @FloatFree.head float value floatFree
  obtain ⟨second, others, otherWritten, otherKind⟩ := @FloatFree.head float other otherFree
  rw [written, otherWritten] at same
  rw [(List.cons.inj same).1, otherKind] at isKind
  exact (Option.some.inj isKind).symm

/-- Where a value may end: a number is not followed by a digit. -/
def NoDigit (letter : Char) : Prop := ¬ letter.isDigit = true

private theorem told_of_noDigit {α : Type} {write : α → List Char} {valid : α → Prop} {close : Char}
    (closes : NoDigit close) {value : α} (told : Told write valid NoDigit value) :
    Told write valid (fun letter => letter = ',' ∨ letter = close) value := by
  have noDigit : ∀ rest, Ended (fun letter => letter = ',' ∨ letter = close) rest →
      Ended NoDigit rest := by
    intro rest ended letter head
    rcases ended letter head with rfl | rfl
    · change ¬ Char.isDigit ',' = true
      decide
    · exact closes
  intro other rest last valid restEnded lastEnded same
  exact told other rest last valid (noDigit rest restEnded) (noDigit last lastEnded) same

private theorem dumpsEntry_told {entry : String × JsonValue}
    (told : Told (dumps float) FloatFree NoDigit entry.2) :
    Told (dumpsEntry float) (fun entry => entry.2.FloatFree) NoDigit entry := by
  intro other rest last floatFree restEnded lastEnded same
  unfold dumpsEntry at same
  rw [List.append_assoc, List.append_assoc] at same
  obtain ⟨sameKey, sameRest⟩ := quoted_told same
  obtain ⟨sameValue, sameEnd⟩ :=
    told other.2 rest last floatFree restEnded lastEnded (List.cons.inj sameRest).2
  exact ⟨Prod.ext sameKey sameValue, sameEnd⟩

/-- The text of a value without floats tells it from all others. -/
theorem dumps_told {value : JsonValue} (floatFree : value.FloatFree) :
    Told (dumps float) FloatFree NoDigit value := by
  induction floatFree with
  | null =>
      intro other rest last otherFree _ _ same
      have sameKind := kind_told .null otherFree same
      cases otherFree with
      | null => exact ⟨rfl, List.append_cancel_left same⟩
      | bool flag => cases flag <;> cases sameKind
      | int | str | arr | obj => cases sameKind
  | bool flag =>
      intro other rest last otherFree _ _ same
      have sameKind := kind_told (.bool flag) otherFree same
      cases otherFree with
      | bool otherFlag =>
          cases flag <;> cases otherFlag <;> first
            | exact ⟨rfl, List.append_cancel_left same⟩
            | cases sameKind
      | null | int | str | arr | obj => cases flag <;> cases sameKind
  | int number =>
      intro other rest last otherFree restEnded lastEnded same
      have sameKind := kind_told (.int number) otherFree same
      cases otherFree with
      | int otherNumber =>
          obtain ⟨sameNumber, sameRest⟩ := decimalText_told restEnded lastEnded same
          rw [sameNumber]
          exact ⟨rfl, sameRest⟩
      | bool flag => cases flag <;> cases sameKind
      | null | str | arr | obj => cases sameKind
  | str text =>
      intro other rest last otherFree _ _ same
      have sameKind := kind_told (.str text) otherFree same
      cases otherFree with
      | str otherText =>
          obtain ⟨sameText, sameRest⟩ := quoted_told same
          rw [sameText]
          exact ⟨rfl, sameRest⟩
      | bool flag => cases flag <;> cases sameKind
      | null | int | arr | obj => cases sameKind
  | @arr items freeItems ih =>
      intro other rest last otherFree _ _ same
      have sameKind := kind_told (.arr freeItems) otherFree same
      cases otherFree with
      | @arr others freeOthers =>
          simp only [dumps, dumpsItems_eq, List.cons_append, List.append_assoc,
            List.nil_append] at same
          have noDigit : NoDigit ']' := by
            change ¬ Char.isDigit ']' = true
            decide
          obtain ⟨sameItems, sameRest⟩ := intercalate_told (by decide) dumps_avoids
            (fun item member => told_of_noDigit noDigit (ih item member)) freeItems freeOthers
            (List.cons.inj same).2
          rw [sameItems]
          exact ⟨rfl, sameRest⟩
      | bool flag => cases flag <;> cases sameKind
      | null | int | str | obj => cases sameKind
  | @obj entries freeEntries ih =>
      intro other rest last otherFree _ _ same
      have sameKind := kind_told (.obj freeEntries) otherFree same
      cases otherFree with
      | @obj others freeOthers =>
          simp only [dumps, dumpsEntries_eq, List.cons_append, List.append_assoc,
            List.nil_append] at same
          have noDigit : NoDigit '\x7d' := by
            change ¬ Char.isDigit '\x7d' = true
            decide
          obtain ⟨sameEntries, sameRest⟩ := intercalate_told (by decide) dumpsEntry_avoids
            (fun entry member => told_of_noDigit noDigit (dumpsEntry_told (ih entry member)))
            freeEntries freeOthers (List.cons.inj same).2
          rw [sameEntries]
          exact ⟨rfl, sameRest⟩
      | bool flag => cases flag <;> cases sameKind
      | null | int | str | arr => cases sameKind

/-- Values without floats that have the same text are the same. -/
theorem dumps_injective {value other : JsonValue} (floatFree : value.FloatFree)
    (otherFree : other.FloatFree) (same : dumps float value = dumps float other) :
    value = other := by
  have ended : Ended NoDigit [] := fun _ head => by cases head
  have told := @dumps_told float value floatFree other [] [] otherFree ended ended
  rw [List.append_nil, List.append_nil] at told
  exact (told same).1

end Dumps

end JsonValue
