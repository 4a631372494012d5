import OciTransfer.JsonBeginnings

/-!
JSON texts as bytes.

A line is written in the style of Go's `json.Marshal` and encoded in UTF-8; it is read
with `json.loads`, which first looks for the encoding.  Neither encoding nor escaping
puts a newline into the bytes, and no proper beginning of a line reads as a value.
-/

namespace JsonValue

def utf8 (text : List Char) : List UInt8 := text.flatMap String.utf8EncodeChar

/-- `bytes.decode("utf-8")`; `none` is a `UnicodeDecodeError`. -/
def decodeUtf8 (bytes : List UInt8) : Option (List Char) :=
  bytes.toByteArray.utf8Decode?.map Array.toList

private theorem decodeUtf8_utf8 (text : List Char) : decodeUtf8 (utf8 text) = some text := by
  have decoded : (utf8 text).toByteArray.utf8Decode? = some text.toArray :=
    List.utf8Decode?_utf8Encode
  unfold decodeUtf8
  rw [decoded]
  rfl

private theorem utf8_of_decodeUtf8 {bytes : List UInt8} {text : List Char}
    (decoded : decodeUtf8 bytes = some text) : utf8 text = bytes := by
  obtain ⟨chars, found, rfl⟩ := Option.map_eq_some_iff.mp decoded
  have some : bytes.toByteArray.utf8Decode?.isSome := by
    rw [found]
    rfl
  have encoded : (bytes.toByteArray.utf8Decode?.get some).toList.utf8Encode = bytes.toByteArray :=
    ByteArray.utf8Encode_get_utf8Decode?
  rw [Option.get_of_eq_some some found] at encoded
  exact List.toByteArray_inj.mp encoded

private theorem utf8EncodeChar_told {char other : Char} {rest last : List UInt8}
    (same : String.utf8EncodeChar char ++ rest = String.utf8EncodeChar other ++ last) :
    char = other ∧ rest = last := by
  have decoded := congrArg (fun bytes => (List.toByteArray bytes).utf8DecodeChar? 0) same
  simp only [List.toByteArray_append, ByteArray.utf8DecodeChar?_utf8EncodeChar_append,
    Option.some.injEq] at decoded
  rw [decoded] at same
  exact ⟨decoded, List.append_cancel_left same⟩

private theorem prefix_of_utf8 {text whole : List Char} (begins : utf8 text <+: utf8 whole) :
    text <+: whole := by
  induction text generalizing whole with
  | nil => exact List.nil_prefix
  | cons char text ih =>
      obtain ⟨more, same⟩ := begins
      cases whole with
      | nil =>
          have nothing : String.utf8EncodeChar char ++ (utf8 text ++ more) = [] := by
            rw [← List.append_assoc]
            exact same
          exact absurd (List.append_eq_nil_iff.mp nothing).1 String.utf8EncodeChar_ne_nil
      | cons first whole =>
          have both : String.utf8EncodeChar char ++ (utf8 text ++ more) =
              String.utf8EncodeChar first ++ utf8 whole := by
            rw [← List.append_assoc]
            exact same
          obtain ⟨rfl, rest⟩ := utf8EncodeChar_told both
          exact List.cons_prefix_cons.mpr ⟨rfl, ih ⟨more, rest⟩⟩

private theorem newline_of_utf8EncodeChar {char : Char} (inside : 10 ∈ String.utf8EncodeChar char) :
    char = '\n' := by
  refine Char.toNat_inj.mp ?_
  change char.val.toNat = 10
  have byte : ∀ number : Nat, 10 = UInt8.ofNat number → number % 256 = 10 :=
    fun number same => (congrArg UInt8.toNat same).symm
  unfold String.utf8EncodeChar at inside
  dsimp only at inside
  split at inside
  · have := byte _ (List.mem_singleton.mp inside)
    omega
  · split at inside
    · simp only [List.mem_cons, List.not_mem_nil, or_false] at inside
      rcases inside with first | second
      · have := byte _ first
        omega
      · have := byte _ second
        omega
    · split at inside
      · simp only [List.mem_cons, List.not_mem_nil, or_false] at inside
        rcases inside with first | second | third
        · have := byte _ first
          omega
        · have := byte _ second
          omega
        · have := byte _ third
          omega
      · simp only [List.mem_cons, List.not_mem_nil, or_false] at inside
        rcases inside with first | second | third | fourth
        · have := byte _ first
          omega
        · have := byte _ second
          omega
        · have := byte _ third
          omega
        · have := byte _ fourth
          omega

theorem newline_of_utf8 {text : List Char} (inside : 10 ∈ utf8 text) : '\n' ∈ text := by
  obtain ⟨char, member, inChar⟩ := List.mem_flatMap.mp inside
  rwa [newline_of_utf8EncodeChar inChar] at member

/-- What `json.Marshal` makes of a character: it also escapes what HTML and JavaScript
would take for something else. -/
def goEscape (char : Char) : List Char :=
  match shortEscape char with
  | some letter => ['\\', letter]
  | none =>
      if char.toNat < 32 ∨ char ∈ ['<', '>', '&', '\u2028', '\u2029'] then codeUnit char.toNat
      else [char]

private theorem readable_goEscape (char : Char) : Readable goEscape char := by
  refine ⟨[char.toNat], ?_, joinCodes_single char⟩
  intro rest
  unfold goEscape
  cases special : shortEscape char with
  | some letter => exact readCodes_short special rest
  | none =>
      dsimp only
      split
      · rename_i escaped
        refine readCodes_unit ?_ rest
        rcases escaped with control | member
        · omega
        · simp only [List.mem_cons, List.not_mem_nil, or_false] at member
          rcases member with rfl | rfl | rfl | rfl | rfl <;> decide
      · rename_i plain
        refine readCodes_plain ?_ ?_ (fun control => plain (Or.inl control)) rest
        · rintro rfl
          cases special
        · rintro rfl
          cases special

/-- `json.Marshal` of maps with these entries. -/
def Style.go (float : ℚ → List Char) : Style :=
  { commaBlanks := []
    colonBlanks := []
    escape := goEscape
    float := float
    commaBlank := all_blank_nil
    colonBlank := all_blank_nil
    readable := readable_goEscape }

private theorem newline_not_mem_codeUnit (code : Nat) : '\n' ∉ codeUnit code := by
  have digits : ∀ digit < 16, Nat.digitChar digit ≠ '\n' := by decide
  unfold codeUnit
  simp only [List.mem_cons, List.not_mem_nil, or_false, not_or]
  exact ⟨by decide, by decide, (digits _ (Nat.mod_lt _ (by decide))).symm,
    (digits _ (Nat.mod_lt _ (by decide))).symm, (digits _ (Nat.mod_lt _ (by decide))).symm,
    (digits _ (Nat.mod_lt _ (by decide))).symm⟩

private theorem newline_not_mem_goEscape (char : Char) : '\n' ∉ goEscape char := by
  unfold goEscape
  cases special : shortEscape char with
  | some letter =>
      have letters : escapes.all (fun entry => entry.2 ≠ '\n') = true := by decide
      have notNewline := of_decide_eq_true (List.all_eq_true.mp letters _ (mem_escapes special))
      simp only [List.mem_cons, List.not_mem_nil, or_false, not_or]
      exact ⟨by decide, fun same => notNewline same.symm⟩
  | none =>
      dsimp only
      split
      · exact newline_not_mem_codeUnit _
      · rename_i plain
        intro member
        rw [← List.mem_singleton.mp member] at plain
        exact plain (Or.inl (by decide))

private theorem not_mem_intercalate {letter : Char} {separator : List Char}
    {texts : List (List Char)}
    (between : letter ∉ separator) (each : ∀ text ∈ texts, letter ∉ text) :
    letter ∉ separator.intercalate texts := by
  induction texts with
  | nil => exact List.not_mem_nil
  | cons text texts ih =>
      have first := each text List.mem_cons_self
      have later := ih fun other member => each other (List.mem_cons_of_mem _ member)
      cases texts with
      | nil =>
          rw [List.intercalate_singleton]
          exact first
      | cons other others =>
          rw [List.intercalate_cons_cons, List.mem_append, List.mem_append]
          rintro ((inText | inSeparator) | inRest)
          · exact first inText
          · exact between inSeparator
          · exact later inRest

/-- The style needs no second line. -/
structure Style.OneLine (style : Style) : Prop where
  escapes : ∀ char, '\n' ∉ style.escape char
  comma : '\n' ∉ style.commaBlanks
  colon : '\n' ∉ style.colonBlanks

theorem oneLine_go (float : ℚ → List Char) : (Style.go float).OneLine :=
  ⟨newline_not_mem_goEscape, List.not_mem_nil, List.not_mem_nil⟩

section OneLine

variable {style : Style}

private theorem newline_not_mem_quoted (oneLine : style.OneLine) (text : String) :
    '\n' ∉ style.quoted text := by
  unfold Style.quoted
  rw [List.mem_cons, List.mem_append, List.mem_flatMap, List.mem_singleton]
  rintro (isQuote | ⟨char, -, inEscape⟩ | isQuote)
  · cases isQuote
  · exact oneLine.escapes char inEscape
  · cases isQuote

private theorem newline_not_mem_comma (oneLine : style.OneLine) : '\n' ∉ style.comma := by
  unfold Style.comma
  rw [List.mem_cons]
  rintro (isComma | inBlanks)
  · cases isComma
  · exact oneLine.comma inBlanks

private theorem newline_not_mem_decimalText (number : Int) : '\n' ∉ decimalText number := by
  have digits : ∀ number, '\n' ∉ Nat.toDigits 10 number := by
    intro number member
    exact absurd (Nat.isDigit_of_mem_toDigits (by decide) (by decide) member) (by decide)
  cases number with
  | ofNat number => exact digits number
  | negSucc number =>
      change '\n' ∉ '-' :: Nat.toDigits 10 (number + 1)
      rw [List.mem_cons]
      rintro (isSign | inDigits)
      · cases isSign
      · exact digits _ inDigits

private theorem newline_not_mem_closed {first last : Char} {inner : List Char}
    (opens : '\n' ≠ first) (closes : '\n' ≠ last) (inside : '\n' ∉ inner) :
    '\n' ∉ first :: (inner ++ [last]) := by
  rw [List.mem_cons, List.mem_append, List.mem_singleton]
  rintro (isFirst | isInner | isLast)
  · exact opens isFirst
  · exact inside isInner
  · exact closes isLast

theorem newline_not_mem_write (oneLine : style.OneLine) {value : JsonValue}
    (regular : value.Regular) : '\n' ∉ style.write value := by
  induction regular with
  | null =>
      change '\n' ∉ "null".toList
      decide
  | bool value =>
      cases value with
      | false =>
          change '\n' ∉ "false".toList
          decide
      | true =>
          change '\n' ∉ "true".toList
          decide
  | int number => exact newline_not_mem_decimalText number
  | str text => exact newline_not_mem_quoted oneLine text
  | arr _ ih =>
      rw [Style.write, writeItems_eq]
      refine newline_not_mem_closed (by decide) (by decide)
        (not_mem_intercalate (newline_not_mem_comma oneLine) fun text member => ?_)
      obtain ⟨item, isItem, rfl⟩ := List.mem_map.mp member
      exact ih item isItem
  | @obj entries _ _ ih =>
      rw [Style.write]
      refine newline_not_mem_closed (by decide) (by decide)
        (not_mem_intercalate (newline_not_mem_comma oneLine) fun text member => ?_)
      obtain ⟨entry, isEntry, rfl⟩ : ∃ entry ∈ entries,
          style.quoted entry.1 ++ (':' :: style.colonBlanks) ++ style.write entry.2 = text := by
        clear * - member
        induction entries with
        | nil => cases member
        | cons entry entries ih =>
            rcases List.mem_cons.mp member with rfl | later
            · exact ⟨entry, List.mem_cons_self, rfl⟩
            · obtain ⟨other, isOther, same⟩ := ih later
              exact ⟨other, List.mem_cons_of_mem _ isOther, same⟩
      rw [List.mem_append, List.mem_append, List.mem_cons]
      rintro ((inKey | isColon | inBlanks) | inValue)
      · exact newline_not_mem_quoted oneLine _ inKey
      · cases isColon
      · exact oneLine.colon inBlanks
      · exact ih entry isEntry inValue

end OneLine

theorem write_entries_head (style : Style) {entries : List (String × JsonValue)}
    (someEntry : entries ≠ []) :
    ∃ rest, style.write (.obj entries) = '\x7b' :: '"' :: rest := by
  cases entries with
  | nil => exact absurd rfl someEntry
  | cons entry entries =>
      rw [Style.write, Style.writeEntries]
      cases style.writeEntries entries with
      | nil => exact ⟨_, rfl⟩
      | cons text texts =>
          rw [List.intercalate_cons_cons]
          exact ⟨_, rfl⟩

/-- `json.detect_encoding(bytes) == "utf-8"`. -/
def detectsUtf8 (bytes : List UInt8) : Bool :=
  let marked (mark : List UInt8) : Bool := mark.isPrefixOf bytes
  !(marked [0xfe, 0xff] || marked [0xff, 0xfe] || marked [0xef, 0xbb, 0xbf]) &&
    match bytes with
    | [first, second] | first :: second :: _ :: _ :: _ => first != 0 && second != 0
    | _ => true

private theorem detectsUtf8_object {rest part : List UInt8}
    (begins : part <+: 0x7b :: 0x22 :: rest) :
    detectsUtf8 part = true := by
  rcases part with _ | ⟨first, _ | ⟨second, tail⟩⟩
  · rfl
  · rw [(List.cons_prefix_cons.mp begins).1]
    rfl
  · obtain ⟨isFirst, begins⟩ := List.cons_prefix_cons.mp begins
    rw [isFirst, (List.cons_prefix_cons.mp begins).1]
    rcases tail with _ | ⟨third, _ | ⟨fourth, tail⟩⟩ <;> rfl

section Bytes

variable (readFloat : List Char → JsonValue)

/-- `json.loads(bytes)`, where the bytes are in UTF-8. -/
def loadsUtf8 (bytes : List UInt8) : Option JsonValue :=
  (decodeUtf8 bytes).bind (loads readFloat)

theorem detectsUtf8_write (style : Style) {entries : List (String × JsonValue)}
    (someEntry : entries ≠ []) {part : List UInt8}
    (begins : part <+: utf8 (style.write (.obj entries))) : detectsUtf8 part = true := by
  obtain ⟨rest, head⟩ := write_entries_head style someEntry
  rw [head] at begins
  exact detectsUtf8_object begins

theorem loadsUtf8_write (style : Style) {value : JsonValue} (regular : value.Regular) :
    loadsUtf8 readFloat (utf8 (style.write value)) = some value.canon := by
  unfold loadsUtf8
  rw [decodeUtf8_utf8]
  exact loads_write style readFloat regular

/-- A character that is cut is no text, and an object that is cut is no value. -/
theorem loadsUtf8_part (style : Style) {entries : List (String × JsonValue)}
    (regular : (obj entries).Regular) {part : List UInt8}
    (begins : part <+: utf8 (style.write (.obj entries)))
    (cut : part ≠ utf8 (style.write (.obj entries))) : loadsUtf8 readFloat part = none := by
  unfold loadsUtf8
  cases decoded : decodeUtf8 part with
  | none => rfl
  | some text =>
      have isPart := utf8_of_decodeUtf8 decoded
      rw [← isPart] at begins cut
      exact loads_part style readFloat regular (prefix_of_utf8 begins)
        fun same => cut (congrArg utf8 same)

end Bytes

end JsonValue
