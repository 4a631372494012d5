import OciTransfer.JsonLoads

/-!
A text that is cut off.

The reader looks no further than the letter at which a value ends, so it reads the
value in every text that goes on after it.  An object ends with its brace: of a text
that is one object, no proper beginning reads as anything.
-/

namespace JsonValue

open PrefixCode

private theorem skip_append {text after : List Char} {letter : Char}
    (skipped : skip text = letter :: after)
    (more : List Char) : skip (text ++ more) = letter :: (after ++ more) := by
  unfold skip at skipped ⊢
  rw [List.dropWhile_append, skipped]
  rfl

private theorem readCodes_append {text rest : List Char} {codes : List Nat}
    (read : readCodes text = some (codes, rest)) (more : List Char) :
    readCodes (text ++ more) = some (codes, rest ++ more) := by
  induction text using readCodes.induct generalizing codes with
  | case1 => cases read
  | case2 after =>
      cases read
      rfl
  | case3 first second third fourth after ih =>
      rw [readCodes] at read
      simp only [List.cons_append, readCodes]
      obtain ⟨code, unit, read⟩ := Option.bind_eq_some_iff.mp read
      obtain ⟨inner, readInner, same⟩ := Option.map_eq_some_iff.mp read
      cases same
      rw [unit, ih readInner]
      rfl
  | case4 letter after noUnit ih =>
      -- Behind a backslash, a `u` without four letters is no escape.
      by_cases isUnit : letter = 'u'
      · subst isUnit
        rw [readCodes] at read
        · cases read
        · exact noUnit
      · rw [List.cons_append, List.cons_append, readCodes_backslash isUnit] at *
        obtain ⟨char, special, read⟩ := Option.bind_eq_some_iff.mp read
        obtain ⟨inner, readInner, same⟩ := Option.map_eq_some_iff.mp read
        cases same
        rw [special, ih readInner]
        rfl
  | case5 char after notQuote notEscape noEscape small =>
      rw [readCodes, if_pos small] at read
      · cases read
      all_goals assumption
  | case6 char after notQuote notEscape noEscape printable ih =>
      rw [readCodes, if_neg printable] at read
      · obtain ⟨inner, readInner, same⟩ := Option.map_eq_some_iff.mp read
        cases same
        by_cases isEscape : char = '\\'
        · cases after with
          | nil => cases readInner
          | cons letter after => exact absurd rfl (noEscape letter after isEscape)
        · rw [List.cons_append, readCodes_plain notQuote isEscape printable, ih readInner]
          rfl
      all_goals assumption

private theorem readText_append {text rest : List Char} {content : String}
    (read : readText text = some (content, rest)) (more : List Char) :
    readText (text ++ more) = some (content, rest ++ more) := by
  obtain ⟨⟨codes, after⟩, readAll, read⟩ := Option.bind_eq_some_iff.mp read
  obtain ⟨chars, joined, same⟩ := Option.map_eq_some_iff.mp read
  cases same
  unfold readText
  rw [readCodes_append readAll]
  dsimp only [Option.bind_some]
  rw [joined]
  rfl

private theorem digits_append {text after : List Char} {letter : Char}
    (dropped : text.dropWhile Char.isDigit = letter :: after) (more : List Char) :
    (text ++ more).takeWhile Char.isDigit = text.takeWhile Char.isDigit ∧
      (text ++ more).dropWhile Char.isDigit = letter :: after ++ more := by
  constructor
  · rw [List.takeWhile_append, if_neg]
    intro all
    have split := List.takeWhile_append_dropWhile (p := Char.isDigit) (l := text)
    rw [dropped] at split
    have lengths := congrArg List.length split
    rw [List.length_append, all, List.length_cons] at lengths
    omega
  · rw [List.dropWhile_append, dropped]
    rfl

/-- Where the scanner stops at such a letter, it stops there in a longer text too. -/
def StopsAt (scan : List Char → List Char × List Char) (stop : Char → Prop) : Prop :=
  ∀ text taken letter after, scan text = (taken, letter :: after) → stop letter →
    ∀ more, scan (text ++ more) = (taken, letter :: (after ++ more))

private theorem readDigits_append {before text whole taken after : List Char} {letter first : Char}
    {rest : List Char} (begins : whole = first :: rest) (differs : letter ≠ first)
    (read : readDigits before text whole = (taken, letter :: after)) (more : List Char) :
    readDigits before (text ++ more) (whole ++ more) = (taken, letter :: (after ++ more)) := by
  unfold readDigits at read ⊢
  dsimp only at read ⊢
  split at read
  · rw [begins] at read
    exact absurd (List.cons.inj (Prod.mk.inj read).2).1.symm differs
  · rename_i someDigit
    obtain ⟨rfl, dropped⟩ := Prod.mk.inj read
    obtain ⟨taken, dropped⟩ := digits_append dropped more
    rw [taken, if_neg someDigit, dropped]
    rfl

private theorem readWhole_stopsAt : StopsAt readWhole fun _ => True := by
  intro text taken letter after read _ more
  unfold readWhole at read
  split at read
  · cases read
    rfl
  · rename_i noZero
    obtain ⟨rfl, stopped⟩ := Prod.mk.inj read
    obtain ⟨taken, dropped⟩ := digits_append stopped more
    unfold readWhole
    split
    · rename_i same
      cases text with
      | nil => cases stopped
      | cons first text =>
          rw [(List.cons.inj same).1] at noZero
          exact absurd rfl (noZero text)
    · rw [taken, dropped]
      rfl

private theorem readFraction_stopsAt : StopsAt readFraction (· ≠ '.') := by
  intro text taken letter after read noPoint more
  unfold readFraction at read
  split at read
  · exact readDigits_append rfl noPoint read more
  · obtain ⟨rfl, rfl⟩ := Prod.mk.inj read
    unfold readFraction
    split
    · rename_i same
      exact absurd (List.cons.inj same).1 noPoint
    · rfl

private theorem readExponent_stopsAt :
    StopsAt readExponent fun letter => letter ≠ 'e' ∧ letter ≠ 'E' := by
  intro text taken letter after read noExponent more
  unfold readExponent at read
  split at read
  · rename_i first second rest
    rw [List.cons_append, List.cons_append]
    unfold readExponent
    dsimp only
    split at read
    · rename_i other
      rw [if_pos other]
      obtain ⟨rfl, same⟩ := Prod.mk.inj read
      obtain ⟨rfl, rfl⟩ := List.cons.inj same
      rfl
    · rename_i isExponent
      have differs : letter ≠ first := by
        rintro rfl
        exact isExponent noExponent
      rw [if_neg isExponent]
      split at read
      · rename_i signed
        rw [if_pos signed]
        exact readDigits_append rfl differs read more
      · rename_i unsigned
        rw [if_neg unsigned]
        exact readDigits_append rfl differs read more
  · rename_i short
    obtain ⟨rfl, rfl⟩ := Prod.mk.inj read
    rw [List.cons_append]
    unfold readExponent
    split
    · rename_i first second rest same
      rw [if_pos (by rw [← (List.cons.inj same).1]; exact noExponent)]
    · rfl

private theorem exists_cons_of_scan {scan : List Char → List Char × List Char}
    {text after : List Char}
    {letter : Char} (scanNil : scan [] = ([], [])) (read : (scan text).2 = letter :: after) :
    ∃ first rest, text = first :: rest := by
  cases text with
  | nil =>
      rw [scanNil] at read
      cases read
  | cons first rest => exact ⟨first, rest, rfl⟩

private theorem readNumber_append {float : List Char → JsonValue} {text after : List Char}
    {letter : Char}
    {value : JsonValue} (read : readNumber float text = some (value, letter :: after))
    (ends : NumberEnds letter) (more : List Char) :
    readNumber float (text ++ more) = some (value, letter :: (after ++ more)) := by
  obtain ⟨-, noPoint, noExponent⟩ := ends
  obtain ⟨whole, isWhole⟩ : ∃ whole, readWhole (readSign text).2 = whole := ⟨_, rfl⟩
  obtain ⟨fraction, isFraction⟩ : ∃ fraction, readFraction whole.2 = fraction := ⟨_, rfl⟩
  obtain ⟨exponent, isExponent⟩ : ∃ exponent, readExponent fraction.2 = exponent := ⟨_, rfl⟩
  simp only [readNumber, isWhole, isFraction, isExponent] at read
  have stopped : exponent.2 = letter :: after := by
    split at read
    · cases read
    · split at read <;> exact (Prod.mk.inj (Option.some.inj read)).2
  obtain ⟨second, afterFraction, left⟩ := @exists_cons_of_scan readExponent _ _ _ rfl
    (by rw [isExponent, stopped])
  obtain ⟨third, afterWhole, leftWhole⟩ := @exists_cons_of_scan readFraction _ _ _ rfl
    (by rw [isFraction, left])
  obtain ⟨fourth, afterSign, leftSign⟩ := @exists_cons_of_scan readWhole _ _ _ rfl
    (by rw [isWhole, leftWhole])
  have noSecondPoint : second ≠ '.' := by
    rintro rfl
    rw [left] at isExponent
    have same : readExponent ('.' :: afterFraction) = ([], '.' :: afterFraction) := by
      cases afterFraction <;> rfl
    rw [← isExponent, same] at stopped
    exact noPoint (List.cons.inj stopped).1.symm
  have exponentMore := readExponent_stopsAt fraction.2 exponent.1 letter after
    (by rw [isExponent, ← stopped]) noExponent more
  have fractionMore := readFraction_stopsAt whole.2 fraction.1 second afterFraction
    (by rw [isFraction, ← left]) noSecondPoint more
  have wholeMore := readWhole_stopsAt (readSign text).2 whole.1 third afterWhole
    (by rw [isWhole, ← leftWhole]) trivial more
  have signMore : readSign (text ++ more) = ((readSign text).1, (readSign text).2 ++ more) := by
    cases text with
    | nil => cases leftSign
    | cons first text =>
        rw [List.cons_append]
        unfold readSign
        split <;> split <;> simp_all
  rw [left] at exponentMore
  rw [leftWhole] at fractionMore
  simp only [readNumber, signMore, wholeMore]
  rw [← List.cons_append, fractionMore]
  dsimp only
  rw [← List.cons_append, exponentMore]
  dsimp only
  rw [stopped] at read
  split at read
  · cases read
  · rename_i someDigit
    rw [if_neg someDigit]
    split at read
    · rename_i integral
      cases read
      rw [if_pos integral]
    · rename_i fractional
      cases read
      rw [if_neg fractional]

private theorem numeric_of_readNumber {float : List Char → JsonValue} {text rest : List Char}
    {value : JsonValue} (read : readNumber float text = some (value, rest)) : Numeric text := by
  have someDigit : ¬ (readWhole (readSign text).2).1.isEmpty = true := by
    intro noDigit
    simp only [readNumber, noDigit, if_true] at read
    cases read
  have begins : ∃ digit after, digit.isDigit = true ∧ (readSign text).2 = digit :: after := by
    generalize (readSign text).2 = unsigned at someDigit
    unfold readWhole at someDigit
    split at someDigit
    · exact ⟨'0', _, rfl, rfl⟩
    · cases unsigned with
      | nil => exact absurd rfl someDigit
      | cons first after =>
          refine ⟨first, after, ?_, rfl⟩
          by_contra notDigit
          rw [List.takeWhile_cons, if_neg notDigit] at someDigit
          exact someDigit rfl
  obtain ⟨digit, after, isDigit, unsigned⟩ := begins
  refine ⟨digit, after, isDigit, ?_⟩
  unfold readSign at unsigned
  split at unsigned
  · exact Or.inr (congrArg ('-' :: ·) unsigned)
  · exact Or.inl unsigned

private theorem readLiteral_literal {literal : List Char × JsonValue} (member : literal ∈ literals)
    (rest : List Char) : readLiteral (literal.1 ++ rest) = some (literal.2, rest) := by
  simp only [literals, List.mem_cons, List.not_mem_nil, or_false] at member
  rcases member with rfl | rfl | rfl | rfl | rfl | rfl <;> rfl

private theorem readLiteral_append {text rest : List Char} {value : JsonValue}
    (read : readLiteral text = some (value, rest)) (more : List Char) :
    readLiteral (text ++ more) = some (value, rest ++ more) := by
  obtain ⟨literal, found, same⟩ := Option.map_eq_some_iff.mp read
  have member := List.mem_of_find?_eq_some found
  have begins : literal.1.isPrefixOf text = true := by
    have tested := List.find?_some found
    exact tested
  obtain ⟨tail, rfl⟩ := List.isPrefixOf_iff_prefix.mp begins
  rw [List.drop_left] at same
  cases same
  rw [List.append_assoc, readLiteral_literal member]

/-- The end of the value is seen: its own, or that of a number at a letter behind it. -/
def Seen (text rest : List Char) : Prop :=
  (∃ after, text = '\x7b' :: after) ∨ ∃ letter after, rest = letter :: after ∧ NumberEnds letter

private theorem seen_of_skip {text rest after : List Char} {letter : Char}
    (next : skip rest = letter :: after) (ends : NumberEnds letter) : Seen text rest := by
  cases rest with
  | nil => cases next
  | cons first rest =>
      refine Or.inr ⟨first, rest, rfl, ?_⟩
      by_cases isBlank : blank first = true
      · unfold blank at isBlank
        simp only [Bool.or_eq_true, decide_eq_true_eq] at isBlank
        rcases isBlank with ((rfl | rfl) | rfl) | rfl <;>
          exact ⟨by decide, by decide, by decide, by decide⟩
      · rw [skip_cons (Bool.eq_false_iff.mpr isBlank)] at next
        rw [(List.cons.inj next).1]
        exact ends

/-- With this fuel each reader reads the same in longer texts, and with more fuel. -/
structure Steady (float : List Char → JsonValue) (fuel : Nat) : Prop where
  value : ∀ {text value rest}, readValue float fuel text = some (value, rest) → Seen text rest →
    ∀ more enough, fuel ≤ enough →
      readValue float enough (text ++ more) = some (value, rest ++ more)
  items : ∀ {text items rest}, readItems float fuel text = some (items, rest) →
    ∀ more enough, fuel ≤ enough →
      readItems float enough (text ++ more) = some (items, rest ++ more)
  entries : ∀ {text entries rest}, readEntries float fuel text = some (entries, rest) →
    ∀ more enough, fuel ≤ enough →
      readEntries float enough (text ++ more) = some (entries, rest ++ more)

section Steady

variable {float : List Char → JsonValue}

private theorem readValue_nil (fuel : Nat) : readValue float fuel [] = none := by
  cases fuel <;> rfl

private theorem readItems_nil (fuel : Nat) : readItems float fuel [] = none := by
  cases fuel with
  | zero => rfl
  | succ fuel => rw [readItems, readValue_nil, Option.bind_none]

private theorem readEntries_nil (fuel : Nat) : readEntries float fuel [] = none := by
  cases fuel <;> rfl

private theorem skip_append_of_read {α : Type} {reader : List Char → Option α}
    (readNil : reader [] = none)
    {text : List Char} {found : α} (read : reader (skip text) = some found) (more : List Char) :
    skip (text ++ more) = skip text ++ more := by
  cases next : skip text with
  | nil =>
      rw [next, readNil] at read
      cases read
  | cons letter after => exact skip_append next more

private theorem readUntil_append {α : Type} {reader readerMore : List Char → Option (α × List Char)}
    {build : α → JsonValue} {close : Char} {empty value : JsonValue} {text rest more : List Char}
    (read : readUntil close empty (fun inside => (reader inside).map fun read =>
      (build read.1, read.2)) (skip text) = some (value, rest))
    (longer : ∀ {inside found left}, reader inside = some (found, left) →
      readerMore (inside ++ more) = some (found, left ++ more)) :
    readUntil close empty (fun inside => (readerMore inside).map fun read =>
      (build read.1, read.2)) (skip (text ++ more)) = some (value, rest ++ more) := by
  cases next : skip text with
  | nil =>
      rw [next] at read
      cases read
  | cons letter after =>
      rw [next, readUntil] at read
      rw [skip_append next, readUntil]
      split at read
      · rename_i closes
        cases read
        rw [if_pos closes]
      · rename_i noClose
        obtain ⟨⟨found, left⟩, readInside, same⟩ := Option.map_eq_some_iff.mp read
        cases same
        rw [if_neg noClose, ← List.cons_append, longer readInside]
        rfl

private theorem Steady.scalar {first : Char} {after rest : List Char} {value : JsonValue}
    (read : (readLiteral (first :: after)).or (readNumber float (first :: after)) =
      some (value, rest)) (object : first ≠ '\x7b') (seen : Seen (first :: after) rest)
    (more : List Char) :
    (readLiteral (first :: after ++ more)).or (readNumber float (first :: after ++ more)) =
      some (value, rest ++ more) := by
  cases literal : readLiteral (first :: after) with
  | some found =>
      rw [literal, Option.some_or] at read
      cases read
      rw [readLiteral_append literal, Option.some_or]
  | none =>
      rw [literal, Option.none_or] at read
      rw [readLiteral_numeric ((numeric_of_readNumber read).append more), Option.none_or]
      rcases seen with ⟨inside, isObject⟩ | ⟨letter, behind, rfl, ends⟩
      · exact absurd (List.cons.inj isObject).1 object
      · exact readNumber_append read ends more

theorem Steady.step {fuel : Nat} (steady : Steady float fuel) : Steady float (fuel + 1) where
  value := by
    intro text value rest read seen more enough fueled
    obtain ⟨enough, rfl⟩ : ∃ less, enough = less + 1 := Nat.exists_eq_succ_of_ne_zero (by omega)
    have fueled : fuel ≤ enough := Nat.le_of_succ_le_succ fueled
    cases text with
    | nil =>
        rw [readValue_nil] at read
        cases read
    | cons first after =>
        by_cases isText : first = '"'
        · subst isText
          obtain ⟨⟨content, left⟩, readContent, same⟩ := Option.map_eq_some_iff.mp read
          cases same
          change (readText (after ++ more)).map _ = _
          rw [readText_append readContent]
          rfl
        · by_cases isArray : first = '['
          · subst isArray
            exact @readUntil_append _ _ (readItems float enough) _ _ _ _ _ _ _ read
              fun readInside => steady.items readInside more enough fueled
          · by_cases isObject : first = '\x7b'
            · subst isObject
              exact @readUntil_append _ _ (readEntries float enough) _ _ _ _ _ _ _ read
                fun readInside => steady.entries readInside more enough fueled
            · rw [readValue_scalar isText isArray isObject] at read
              rw [List.cons_append, readValue_scalar isText isArray isObject]
              exact Steady.scalar read isObject seen more
  items := by
    intro text items rest read more enough fueled
    obtain ⟨enough, rfl⟩ : ∃ less, enough = less + 1 := Nat.exists_eq_succ_of_ne_zero (by omega)
    have fueled : fuel ≤ enough := Nat.le_of_succ_le_succ fueled
    rw [readItems] at read ⊢
    obtain ⟨⟨value, left⟩, readFirst, read⟩ := Option.bind_eq_some_iff.mp read
    dsimp only at read
    split at read
    · rename_i after closes
      cases read
      have seen : Seen text left := seen_of_skip closes ⟨by decide, by decide, by decide, by decide⟩
      rw [steady.value readFirst seen more enough fueled]
      dsimp only [Option.bind_some]
      rw [skip_append closes]
      rfl
    · rename_i after separates
      have seen : Seen text left :=
        seen_of_skip separates ⟨by decide, by decide, by decide, by decide⟩
      obtain ⟨⟨others, behind⟩, readOthers, same⟩ := Option.map_eq_some_iff.mp read
      cases same
      rw [steady.value readFirst seen more enough fueled]
      dsimp only [Option.bind_some]
      rw [skip_append separates]
      change (readItems float enough (skip (after ++ more))).map _ = _
      rw [skip_append_of_read (readItems_nil fuel) readOthers,
        steady.items readOthers more enough fueled]
      rfl
    · cases read
  entries := by
    intro text entries rest read more enough fueled
    obtain ⟨enough, rfl⟩ : ∃ less, enough = less + 1 := Nat.exists_eq_succ_of_ne_zero (by omega)
    have fueled : fuel ≤ enough := Nat.le_of_succ_le_succ fueled
    rw [readEntries.eq_def] at read
    dsimp only at read
    split at read
    · rename_i after
      obtain ⟨⟨key, behindKey⟩, readKey, read⟩ := Option.bind_eq_some_iff.mp read
      rw [List.cons_append, readEntries, readText_append readKey]
      dsimp only [Option.bind_some] at read ⊢
      split at read
      · rename_i afterColon colon
        obtain ⟨⟨value, left⟩, readFirst, read⟩ := Option.bind_eq_some_iff.mp read
        rw [skip_append colon]
        change (readValue float enough (skip (afterColon ++ more))).bind _ = _
        rw [skip_append_of_read (readValue_nil fuel) readFirst]
        dsimp only at read
        split at read
        · rename_i behind closes
          cases read
          have seen : Seen (skip afterColon) left :=
            seen_of_skip closes ⟨by decide, by decide, by decide, by decide⟩
          rw [steady.value readFirst seen more enough fueled]
          dsimp only [Option.bind_some]
          rw [skip_append closes]
          rfl
        · rename_i behind separates
          obtain ⟨⟨others, last⟩, readOthers, same⟩ := Option.map_eq_some_iff.mp read
          cases same
          have seen : Seen (skip afterColon) left :=
            seen_of_skip separates ⟨by decide, by decide, by decide, by decide⟩
          rw [steady.value readFirst seen more enough fueled]
          dsimp only [Option.bind_some]
          rw [skip_append separates]
          change (readEntries float enough (skip (behind ++ more))).map _ = _
          rw [skip_append_of_read (readEntries_nil fuel) readOthers,
            steady.entries readOthers more enough fueled]
          rfl
        · cases read
      · cases read
    · cases read

private theorem steady (float : List Char → JsonValue) (fuel : Nat) : Steady float fuel := by
  induction fuel with
  | zero =>
      exact
        { value := fun read => nomatch read
          items := fun read => nomatch read
          entries := fun read => nomatch read }
  | succ fuel ih => exact ih.step

end Steady

/-! ### Cut off texts -/

/-- A part of a written object is not read as a value, unless it is the whole text. -/
theorem loads_part (style : Style) (float : List Char → JsonValue)
    {entries : List (String × JsonValue)} (regular : (obj entries).Regular) {part : List Char}
    (begins : part <+: style.write (.obj entries)) (cut : part ≠ style.write (.obj entries)) :
    loads float part = none := by
  obtain ⟨more, whole⟩ := begins
  have back : ReadBack style float (.obj entries) := readBack_of_regular regular
  have read := back [] _ (fun _ impossible => nomatch impossible) le_rfl
  rw [List.append_nil] at read
  by_contra some
  obtain ⟨value, loaded⟩ := Option.ne_none_iff_exists'.mp some
  obtain ⟨⟨found, rest⟩, readPart, ended⟩ := Option.bind_eq_some_iff.mp loaded
  cases part with
  | nil => cases readPart
  | cons first after =>
      have isObject : first = '\x7b' := by
        rw [Style.write, List.cons_append] at whole
        exact (List.cons.inj whole).1
      subst isObject
      rw [skip_cons (by decide)] at readPart
      have longer := (steady float _).value readPart (Or.inl ⟨after, rfl⟩) more
        (style.write (.obj entries)).length (by
          rw [← whole, List.length_append]
          exact Nat.le_add_right _ _)
      rw [whole, read] at longer
      have nothing : rest ++ more = [] := (Prod.mk.inj (Option.some.inj longer)).2.symm
      rw [(List.append_eq_nil_iff.mp nothing).2, List.append_nil] at whole
      exact cut whole

end JsonValue
