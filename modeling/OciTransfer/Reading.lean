import OciTransfer.PrefixCode
import OciTransfer.Rewriting
import Mathlib.Data.List.TakeWhile

/-!
Readers that leave no choice.

A reader says how many letters at the beginning of a text it takes.  What it takes is
described by a relation between these letters and the rest; one reader after the other
takes what the first takes and then the second.  A search that never has to go back is
such a reader.
-/

namespace Reading

open PrefixCode

variable {β : Type}

/-- The reader takes the letters that are related to the rest, and no others. -/
def Reads (reader : List β → Option Nat) (taken : List β → List β → Prop) : Prop :=
  ∀ text length, reader text = some length ↔
    ∃ front rest, text = front ++ rest ∧ front.length = length ∧ taken front rest

section Readers

variable (test : β → Bool)

def star (text : List β) : Option Nat := some (text.takeWhile test).length

def plus (text : List β) : Option Nat :=
  if text.takeWhile test = [] then none else some (text.takeWhile test).length

def one : List β → Option Nat
  | [] => none
  | letter :: _ => if test letter then some 1 else none

def exactly (count : Nat) (test : List β → Bool) (text : List β) : Option Nat :=
  if (text.take count).length = count ∧ test (text.take count) then some count else none

/-- One of several words, in a text of which a part of each letter is looked at. -/
def literal [DecidableEq β] (fold : β → β) (literals : List (List β)) (text : List β) :
    Option Nat :=
  (literals.find? fun word => word.isPrefixOf (text.map fold)).map List.length

def seq (first second : List β → Option Nat) (text : List β) : Option Nat :=
  (first text).bind fun length => (second (text.drop length)).map (length + ·)

end Readers

/-- A text that does not go on with a letter that passes. -/
abbrev Stops (test : β → Bool) (rest : List β) : Prop :=
  Ended (fun letter => test letter = false) rest

variable {test : β → Bool}

private theorem takeWhile_append_of_ended {front rest : List β}
    (inFront : ∀ letter ∈ front, test letter = true)
    (ended : Stops test rest) :
    (front ++ rest).takeWhile test = front := by
  have stops : rest.takeWhile test = [] := by
    cases rest with
    | nil => rfl
    | cons letter rest => rw [List.takeWhile_cons, ended letter rfl]; rfl
  rw [List.takeWhile_append_of_pos inFront, stops, List.append_nil]

theorem ended_dropWhile (text : List β) :
    Stops test (text.dropWhile test) := by
  intro letter head
  have fails := List.head?_dropWhile_not test text
  rw [head] at fails
  simpa using fails

theorem star_reads : Reads (star test) fun front rest =>
    (∀ letter ∈ front, test letter = true) ∧ Stops test rest := by
  intro text length
  constructor
  · intro read
    refine ⟨text.takeWhile test, text.dropWhile test, List.takeWhile_append_dropWhile.symm,
      Option.some.inj read, ?_, ended_dropWhile text⟩
    exact fun letter member => List.mem_takeWhile_imp member
  · rintro ⟨front, rest, rfl, rfl, inFront, ended⟩
    unfold star
    rw [takeWhile_append_of_ended inFront ended]

theorem plus_reads : Reads (plus test) fun front rest => front ≠ [] ∧
    (∀ letter ∈ front, test letter = true) ∧ Stops test rest := by
  intro text length
  unfold plus
  constructor
  · intro read
    split at read
    · cases read
    · rename_i some
      refine ⟨text.takeWhile test, text.dropWhile test, List.takeWhile_append_dropWhile.symm,
        Option.some.inj read, some, ?_, ended_dropWhile text⟩
      exact fun letter member => List.mem_takeWhile_imp member
  · rintro ⟨front, rest, rfl, rfl, notEmpty, inFront, ended⟩
    rw [takeWhile_append_of_ended inFront ended, if_neg notEmpty]

theorem one_reads :
    Reads (one test) fun front _ => ∃ letter, front = [letter] ∧ test letter = true := by
  intro text length
  constructor
  · intro read
    cases text with
    | nil => cases read
    | cons letter rest =>
        cases passes : test letter with
        | true =>
            rw [one, passes, if_pos rfl] at read
            exact ⟨[letter], rest, rfl, Option.some.inj read, letter, rfl, passes⟩
        | false =>
            rw [one, passes, if_neg Bool.false_ne_true] at read
            cases read
  · rintro ⟨front, rest, rfl, rfl, letter, rfl, passes⟩
    exact if_pos passes

theorem exactly_reads {count : Nat} {test : List β → Bool} :
    Reads (exactly count test) fun front _ => front.length = count ∧ test front = true := by
  intro text length
  unfold exactly
  constructor
  · intro read
    split at read
    · rename_i passes
      exact ⟨text.take count, text.drop count, (List.take_append_drop count text).symm,
        passes.1.trans (Option.some.inj read), passes⟩
    · cases read
  · rintro ⟨front, rest, rfl, rfl, rfl, passes⟩
    rw [List.take_left, if_pos ⟨rfl, passes⟩]

/-- No word is the beginning of another. -/
def Apart (literals : List (List β)) : Prop :=
  ∀ word ∈ literals, ∀ other ∈ literals, word <+: other → word = other

theorem literal_reads [DecidableEq β] {fold : β → β} {literals : List (List β)}
    (apart : Apart literals) :
    Reads (literal fold literals) fun front _ => front.map fold ∈ literals := by
  intro text length
  constructor
  · intro read
    obtain ⟨word, found, isLength⟩ := Option.map_eq_some_iff.mp read
    have starts : word <+: text.map fold := by simpa using List.find?_some found
    have isTake : (text.take word.length).map fold = word := by
      rw [List.map_take, ← List.prefix_iff_eq_take.mp starts]
    refine
      ⟨text.take word.length, text.drop word.length, (List.take_append_drop _ text).symm, ?_, ?_⟩
    · rw [← isLength, ← List.length_map fold, isTake]
    · change (text.take word.length).map fold ∈ literals
      rw [isTake]
      exact List.mem_of_find?_eq_some found
  · rintro ⟨front, rest, rfl, rfl, member⟩
    have starts : front.map fold <+: (front ++ rest).map fold := by
      rw [List.map_append]
      exact List.prefix_append _ _
    unfold literal
    cases found : literals.find? fun word => word.isPrefixOf ((front ++ rest).map fold) with
    | none =>
        have missing := List.find?_eq_none.mp found _ member
        rw [List.isPrefixOf_iff_prefix] at missing
        exact absurd starts missing
    | some word =>
        have also : word <+: (front ++ rest).map fold := by simpa using List.find?_some found
        have inWords := List.mem_of_find?_eq_some found
        have same : word = front.map fold := by
          rcases List.prefix_or_prefix_of_prefix also starts with shorter | longer
          · exact apart word inWords _ member shorter
          · exact (apart _ member word inWords longer).symm
        rw [Option.map_some, same, List.length_map]

theorem Reads.seq {first second : List β → Option Nat} {taken takenThen : List β → List β → Prop}
    (one : Reads first taken) (two : Reads second takenThen) :
    Reads (seq first second) fun front rest =>
      ∃ head tail, front = head ++ tail ∧ taken head (tail ++ rest) ∧ takenThen tail rest := by
  intro text length
  unfold Reading.seq
  constructor
  · intro read
    obtain ⟨count, firstRead, secondRead⟩ := Option.bind_eq_some_iff.mp read
    obtain ⟨more, moreRead, isLength⟩ := Option.map_eq_some_iff.mp secondRead
    obtain ⟨head, behind, rfl, rfl, headTaken⟩ := (one _ _).mp firstRead
    rw [List.drop_left] at moreRead
    obtain ⟨tail, rest, rfl, rfl, tailTaken⟩ := (two _ _).mp moreRead
    refine ⟨head ++ tail, rest, (List.append_assoc _ _ _).symm, ?_, head, tail, rfl, headTaken,
      tailTaken⟩
    rw [List.length_append, isLength]
  · rintro ⟨front, rest, rfl, rfl, head, tail, rfl, headTaken, tailTaken⟩
    rw [List.append_assoc, (one _ _).mpr ⟨head, tail ++ rest, rfl, rfl, headTaken⟩,
      Option.bind_some, List.drop_left, (two _ _).mpr ⟨tail, rest, rfl, rfl, tailTaken⟩,
      Option.map_some, List.length_append]

theorem Reads.taken_iff {reader : List β → Option Nat} {taken : List β → List β → Prop}
    (reads : Reads reader taken) {front rest : List β} :
    reader (front ++ rest) = some front.length ↔ taken front rest := by
  constructor
  · intro read
    obtain ⟨head, tail, same, isLength, isTaken⟩ := (reads _ _).mp read
    obtain ⟨isFront, isRest⟩ := List.append_inj same isLength.symm
    rw [isFront, isRest]
    exact isTaken
  · exact fun isTaken => (reads _ _).mpr ⟨front, rest, rfl, rfl, isTaken⟩

def pattern {reader : List β → Option Nat} {taken : List β → List β → Prop}
    (reads : Reads reader taken) (takesSome : ∀ front rest, taken front rest → front ≠ [])
    (admits : Option β → List β → Bool) : Rewriting.Pattern β where
  length? before text := if admits before text then reader text else none
  positive := by
    intro before text length found
    split at found
    · obtain ⟨front, rest, -, rfl, isTaken⟩ := (reads text length).mp found
      exact List.length_pos_of_ne_nil (takesSome front rest isTaken)
    · cases found
  within := by
    intro before text length found
    split at found
    · obtain ⟨front, rest, rfl, rfl, -⟩ := (reads text length).mp found
      rw [List.length_append]
      exact Nat.le_add_right _ _
    · cases found

section Patterns

variable {reader : List β → Option Nat} {taken : List β → List β → Prop}
  {reads : Reads reader taken} {takesSome : ∀ front rest, taken front rest → front ≠ []}
  {admits : Option β → List β → Bool}

theorem pattern_match {before : Option β} {front rest : List β} :
    (pattern reads takesSome admits).length? before (front ++ rest) = some front.length ↔
      admits before (front ++ rest) = true ∧ taken front rest := by
  rw [← reads.taken_iff]
  unfold pattern
  dsimp only
  split
  · rename_i admitted
    exact (and_iff_right admitted).symm
  · rename_i refused
    exact iff_of_false (Option.some_ne_none _).symm fun both => refused both.1

theorem pattern_none {before : Option β} {text : List β} :
    (pattern reads takesSome admits).length? before text = none ↔
      (admits before text = true → reader text = none) := by
  unfold pattern
  dsimp only
  split
  · rename_i admitted
    exact ⟨fun none _ => none, fun none => none admitted⟩
  · rename_i refused
    exact iff_of_true rfl fun admitted => absurd admitted refused

end Patterns

end Reading
