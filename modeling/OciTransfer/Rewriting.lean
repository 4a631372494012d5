import Mathlib.Data.List.Basic

/-!
Matches of a pattern in a text, replaced from left to right.

A match is looked for at every place that is not in an earlier match, and what stands
before the place may matter.  A text is gone through by one induction: a letter that is
kept, or a match that is replaced.  What occurs nowhere afterwards is found by looking
at the places where the text before a replacement stays and the text behind it changes.
-/

namespace Rewriting

variable {β : Type}

/-- The length of the match at the beginning of a text, behind the letter given. -/
structure Pattern (β : Type) where
  length? : Option β → List β → Option Nat
  positive : ∀ before text length, length? before text = some length → 0 < length
  within : ∀ before text length, length? before text = some length → length ≤ text.length

/-- The letter that stands before what follows a text. -/
def behind : Option β → List β → Option β
  | before, [] => before
  | _, letter :: rest => behind (some letter) rest

/-- It occurs at no place of the text. -/
def Absent (occurs : List β → Prop) (text : List β) : Prop :=
  ∀ place, place <:+ text → place ≠ [] → ¬ occurs place

theorem Absent.tail {occurs : List β → Prop} {letter : β} {rest : List β}
    (absent : Absent occurs (letter :: rest)) : Absent occurs rest :=
  fun place later => absent place (later.trans (List.suffix_cons letter rest))

theorem Absent.drop {occurs : List β → Prop} {front back : List β}
    (absent : Absent occurs (front ++ back)) : Absent occurs back :=
  fun place later => absent place (later.trans (List.suffix_append front back))

theorem Absent.take {occurs : List β → Prop} (goesOn : ∀ place more, occurs place →
    occurs (place ++ more)) {text : List β} (absent : Absent occurs text) (length : Nat) :
    Absent occurs (text.take length) := by
  rintro place ⟨front, isTake⟩ notEmpty found
  have whole : front ++ (place ++ text.drop length) = text := by
    rw [← List.append_assoc, isTake, List.take_append_drop]
  refine absent (place ++ text.drop length) ⟨front, whole⟩ ?_ (goesOn _ _ found)
  exact List.append_ne_nil_of_left_ne_nil notEmpty _

/-- It begins in no letter of the first part. -/
def AbsentIn (occurs : List β → Prop) (front rest : List β) : Prop :=
  ∀ back, back <:+ front → back ≠ [] → ¬ occurs (back ++ rest)

section AbsentIn

variable {occurs : List β → Prop} {front more rest : List β} {letter : β}

theorem absentIn_nil : AbsentIn occurs [] rest :=
  fun _ isBack notEmpty => absurd (List.suffix_nil.mp isBack) notEmpty

theorem absentIn_cons :
    AbsentIn occurs (letter :: front) rest ↔
      ¬ occurs (letter :: (front ++ rest)) ∧ AbsentIn occurs front rest := by
  constructor
  · intro absent
    exact ⟨absent _ List.suffix_rfl (List.cons_ne_nil _ _),
      fun back isBack => absent back (isBack.trans (List.suffix_cons letter front))⟩
  · rintro ⟨here, later⟩ back isBack notEmpty
    rcases List.suffix_cons_iff.mp isBack with rfl | isLater
    · exact here
    · exact later back isLater notEmpty

theorem absentIn_append :
    AbsentIn occurs (front ++ more) rest ↔
      AbsentIn occurs front (more ++ rest) ∧ AbsentIn occurs more rest := by
  induction front with
  | nil => exact (and_iff_right absentIn_nil).symm
  | cons letter front ih =>
      rw [List.cons_append, absentIn_cons, absentIn_cons, ih, List.append_assoc, and_assoc]

theorem absentIn_or_first (occurs : List β → Prop) (text rest : List β) :
    AbsentIn occurs text rest ∨ ∃ front back, text = front ++ back ∧ back ≠ [] ∧
      occurs (back ++ rest) ∧ AbsentIn occurs front (back ++ rest) := by
  induction text with
  | nil => exact Or.inl absentIn_nil
  | cons letter text ih =>
      by_cases here : occurs (letter :: (text ++ rest))
      · exact Or.inr ⟨[], letter :: text, rfl, List.cons_ne_nil _ _, here, absentIn_nil⟩
      · rcases ih with absent | ⟨front, back, rfl, notEmpty, found, absent⟩
        · exact Or.inl (absentIn_cons.mpr ⟨here, absent⟩)
        · refine Or.inr ⟨letter :: front, back, rfl, notEmpty, found,
            absentIn_cons.mpr ⟨?_, absent⟩⟩
          rw [List.append_assoc] at here
          exact here

end AbsentIn

namespace Pattern

variable (pattern : Pattern β) (replace : List β → List β) (holds : Option β → List β → Prop)

/-- The first letters are skipped: they are in a match that has been replaced. -/
def subFrom : Nat → Option β → List β → List β
  | _, _, [] => []
  | skip + 1, _, letter :: rest => subFrom skip (some letter) rest
  | 0, before, letter :: rest =>
      match pattern.length? before (letter :: rest) with
      | none => letter :: subFrom 0 (some letter) rest
      | some length =>
          replace ((letter :: rest).take length) ++ subFrom (length - 1) (some letter) rest

def sub (before : Option β) (text : List β) : List β := subFrom pattern replace 0 before text

def keptFrom : Nat → Option β → List β → Prop
  | _, _, [] => True
  | skip + 1, _, letter :: rest => keptFrom skip (some letter) rest
  | 0, before, letter :: rest =>
      match pattern.length? before (letter :: rest) with
      | none => holds before (letter :: rest) ∧ keptFrom 0 (some letter) rest
      | some length => keptFrom (length - 1) (some letter) rest

/-- The condition holds at every letter that is kept. -/
def Kept (before : Option β) (text : List β) : Prop := keptFrom pattern holds 0 before text

variable {pattern replace holds}

private theorem subFrom_skip (matched rest : List β) (before : Option β) :
    subFrom pattern replace matched.length before (matched ++ rest) =
      sub pattern replace (behind before matched) rest := by
  induction matched generalizing before with
  | nil => rfl
  | cons letter more ih => exact ih (some letter)

private theorem keptFrom_skip (matched rest : List β) (before : Option β) :
    keptFrom pattern holds matched.length before (matched ++ rest) =
      Kept pattern holds (behind before matched) rest := by
  induction matched generalizing before with
  | nil => rfl
  | cons letter more ih => exact ih (some letter)

@[simp] theorem sub_nil (before : Option β) : sub pattern replace before [] = [] := rfl

@[simp] theorem kept_nil (before : Option β) : Kept pattern holds before [] := trivial

section Steps

variable {before : Option β} {letter : β} {matched rest : List β}

theorem sub_keep (unmatched : pattern.length? before (letter :: rest) = none) :
    sub pattern replace before (letter :: rest) =
      letter :: sub pattern replace (some letter) rest := by
  unfold sub
  rw [subFrom, unmatched]

theorem kept_keep (unmatched : pattern.length? before (letter :: rest) = none) :
    Kept pattern holds before (letter :: rest) ↔
      holds before (letter :: rest) ∧ Kept pattern holds (some letter) rest := by
  unfold Kept
  rw [keptFrom, unmatched]

theorem sub_hit (isMatch : pattern.length? before (matched ++ rest) = some matched.length) :
    sub pattern replace before (matched ++ rest) =
      replace matched ++ sub pattern replace (behind before matched) rest := by
  cases matched with
  | nil => exact absurd (pattern.positive _ _ _ isMatch) (Nat.lt_irrefl 0)
  | cons letter more =>
      rw [List.cons_append] at isMatch ⊢
      unfold sub
      rw [subFrom, isMatch]
      dsimp only
      rw [← List.cons_append, List.take_left, List.length_cons, Nat.add_sub_cancel]
      exact congrArg (replace (letter :: more) ++ ·) (subFrom_skip more rest (some letter))

theorem kept_hit (isMatch : pattern.length? before (matched ++ rest) = some matched.length) :
    Kept pattern holds before (matched ++ rest) ↔
      Kept pattern holds (behind before matched) rest := by
  cases matched with
  | nil => exact absurd (pattern.positive _ _ _ isMatch) (Nat.lt_irrefl 0)
  | cons letter more =>
      rw [List.cons_append] at isMatch ⊢
      unfold Kept
      rw [keptFrom, isMatch]
      dsimp only
      rw [List.length_cons, Nat.add_sub_cancel]
      exact Iff.of_eq (keptFrom_skip more rest (some letter))

end Steps

/-- A text is gone through by letters that are kept and matches that are replaced. -/
theorem scan_induction (pattern : Pattern β) {motive : Option β → List β → Prop}
    (done : ∀ before, motive before [])
    (keep : ∀ before letter rest, pattern.length? before (letter :: rest) = none →
      motive (some letter) rest → motive before (letter :: rest))
    (hit : ∀ before matched rest, matched ≠ [] →
      pattern.length? before (matched ++ rest) = some matched.length →
        motive (behind before matched) rest → motive before (matched ++ rest))
    (before : Option β) (text : List β) : motive before text := by
  induction size : text.length using Nat.strongRecOn generalizing before text with
  | _ size ih =>
      subst size
      cases text with
      | nil => exact done before
      | cons letter rest =>
          cases found : pattern.length? before (letter :: rest) with
          | none => exact keep before letter rest found (ih _ (Nat.lt_succ_self _) _ rest rfl)
          | some length =>
              have positive := pattern.positive _ _ _ found
              have within := pattern.within _ _ _ found
              have parts := List.take_append_drop length (letter :: rest)
              have isLength : ((letter :: rest).take length).length = length := by
                rw [List.length_take]
                omega
              have shorter : ((letter :: rest).drop length).length < (letter :: rest).length := by
                rw [List.length_drop]
                omega
              rw [← parts]
              apply hit
              · intro none
                rw [none] at isLength
                exact absurd isLength (Nat.ne_of_lt positive)
              · rw [parts, isLength]
                exact found
              · exact ih _ shorter _ _ rfl

theorem sub_append_of_unmatched {occurs : List β → Prop}
    (unmatched : ∀ before place, ¬ occurs place → pattern.length? before place = none)
    {front : List β} (text : List β) (passed : AbsentIn occurs front text) (before : Option β) :
    sub pattern replace before (front ++ text) =
      front ++ sub pattern replace (behind before front) text := by
  induction front generalizing before with
  | nil => rfl
  | cons letter front ih =>
      obtain ⟨here, later⟩ := absentIn_cons.mp passed
      rw [List.cons_append, sub_keep (unmatched before _ here), ih later, List.cons_append]
      rfl

theorem kept_append_of_unmatched {occurs : List β → Prop} {holds : Option β → List β → Prop}
    (unmatched : ∀ before place, ¬ occurs place → pattern.length? before place = none)
    (fine : ∀ before place, ¬ occurs place → holds before place)
    {front : List β} (text : List β) (passed : AbsentIn occurs front text) (before : Option β) :
    Kept pattern holds before (front ++ text) ↔ Kept pattern holds (behind before front) text := by
  induction front generalizing before with
  | nil => exact Iff.rfl
  | cons letter front ih =>
      obtain ⟨here, later⟩ := absentIn_cons.mp passed
      rw [List.cons_append, kept_keep (unmatched before _ here), ih later]
      exact and_iff_right (fine before _ here)

theorem sub_before (blind : ∀ before other text, pattern.length? before text =
    pattern.length? other text) (before other : Option β) (text : List β) :
    sub pattern replace before text = sub pattern replace other text := by
  cases text with
  | nil => rfl
  | cons letter rest =>
      unfold sub
      rw [subFrom, subFrom, blind before other]

theorem sub_of_absent {occurs : List β → Prop}
    (unmatched : ∀ before place, ¬ occurs place → pattern.length? before place = none)
    {before : Option β} {text : List β} (absent : Absent occurs text) :
    sub pattern replace before text = text := by
  have passed : AbsentIn occurs text [] := by
    intro back isBack
    rw [List.append_nil]
    exact absent back isBack
  have whole : sub pattern replace before (text ++ []) = text ++ [] :=
    sub_append_of_unmatched unmatched [] passed before
  rw [List.append_nil] at whole
  exact whole

theorem kept_of_absent {occurs : List β → Prop} (before : Option β) {text : List β}
    (absent : Absent occurs text) : Kept pattern (fun _ place => ¬ occurs place) before text := by
  induction before, text using scan_induction pattern with
  | done before => exact kept_nil before
  | keep before letter rest unmatched ih =>
      have here := absent (letter :: rest) List.suffix_rfl (List.cons_ne_nil _ _)
      exact (kept_keep unmatched).mpr ⟨here, ih absent.tail⟩
  | hit before matched rest _ isMatch ih => exact (kept_hit isMatch).mpr (ih absent.drop)

theorem kept_of_unmatched {holds : Option β → List β → Prop}
    (unmatched : ∀ before place, pattern.length? before place = none → holds before place)
    (before : Option β) (text : List β) : Kept pattern holds before text := by
  induction before, text using scan_induction pattern with
  | done before => exact kept_nil before
  | keep before letter rest found ih => exact (kept_keep found).mpr ⟨unmatched before _ found, ih⟩
  | hit before matched rest _ isMatch ih => exact (kept_hit isMatch).mpr ih

theorem kept_congr {holds others : Option β → List β → Prop}
    (same : ∀ before place, pattern.length? before place = none →
      (holds before place ↔ others before place)) (before : Option β) (text : List β) :
    Kept pattern holds before text ↔ Kept pattern others before text := by
  induction before, text using scan_induction pattern with
  | done before => exact Iff.rfl
  | keep before letter rest found ih =>
      rw [kept_keep found, kept_keep found, ih, same before _ found]
  | hit before matched rest _ isMatch ih => rw [kept_hit isMatch, kept_hit isMatch, ih]

theorem sub_ne_nil (replaced : ∀ matched, replace matched ≠ []) (before : Option β)
    {text : List β} (notEmpty : text ≠ []) : sub pattern replace before text ≠ [] := by
  induction before, text using scan_induction pattern with
  | done before => exact absurd rfl notEmpty
  | keep before letter rest unmatched _ =>
      rw [sub_keep unmatched]
      exact List.cons_ne_nil _ _
  | hit before matched rest _ isMatch _ =>
      rw [sub_hit isMatch]
      exact List.append_ne_nil_of_left_ne_nil (replaced matched) _

section Occurrences

variable {occurs : List β → Prop}

/-- With a part of the text before it, a replacement makes nothing occur that did not. -/
def ClosedBefore (pattern : Pattern β) (replace : List β → List β) (occurs : List β → Prop) :
    Prop :=
  ∀ before matched rest, pattern.length? before (matched ++ rest) = some matched.length →
    ∀ gap after, gap ≠ [] → occurs (gap ++ (replace matched ++ after)) →
      occurs (gap ++ (matched ++ rest))

/-- Nothing occurs from a place inside a replacement on. -/
def ClosedInside (pattern : Pattern β) (replace : List β → List β) (occurs : List β → Prop) :
    Prop :=
  ∀ before matched rest, pattern.length? before (matched ++ rest) = some matched.length →
    ∀ front back after, back ≠ [] → replace matched = front ++ back → ¬ occurs (back ++ after)

theorem occurs_of_sub (closed : ClosedBefore pattern replace occurs) (before : Option β)
    (text : List β) {gap : List β} (notEmpty : gap ≠ [])
    (found : occurs (gap ++ sub pattern replace before text)) : occurs (gap ++ text) := by
  induction before, text using scan_induction pattern generalizing gap with
  | done before => exact found
  | keep before letter rest unmatched ih =>
      have longer : gap ++ [letter] ≠ [] :=
        List.append_ne_nil_of_right_ne_nil _ (List.cons_ne_nil _ _)
      rw [sub_keep unmatched, List.append_cons] at found
      rw [List.append_cons]
      exact ih longer found
  | hit before matched rest _ isMatch _ =>
      rw [sub_hit isMatch] at found
      exact closed before matched rest isMatch gap _ notEmpty found

/-- What occurs at no letter that is kept occurs nowhere in the result. -/
theorem sub_absent (closed : ClosedBefore pattern replace occurs)
    (inside : ClosedInside pattern replace occurs) {before : Option β} {text : List β}
    (kept : Kept pattern (fun _ place => ¬ occurs place) before text) :
    Absent occurs (sub pattern replace before text) := by
  rintro back ⟨front, place⟩ notEmpty
  induction before, text using scan_induction pattern generalizing front with
  | done before => exact absurd (List.append_eq_nil_iff.mp place).2 notEmpty
  | keep before letter rest unmatched ih =>
      obtain ⟨here, later⟩ := (kept_keep unmatched).mp kept
      rw [sub_keep unmatched] at place
      cases front with
      | nil =>
          intro found
          rw [List.nil_append] at place
          rw [place] at found
          exact here (occurs_of_sub closed (some letter) rest (List.cons_ne_nil letter []) found)
      | cons first front => exact ih later front (List.cons.inj place).2
  | hit before matched rest _ isMatch ih =>
      have later := (kept_hit isMatch).mp kept
      rw [sub_hit isMatch] at place
      rcases List.append_eq_append_iff.mp place with ⟨part, isReplaced, backEq⟩ | ⟨part, -, isRest⟩
      · by_cases empty : part = []
        · rw [empty, List.nil_append] at backEq
          exact ih later [] backEq
        · rw [backEq]
          exact inside before matched rest isMatch front part _ empty isReplaced
      · exact ih later part isRest.symm

end Occurrences

end Pattern

end Rewriting
