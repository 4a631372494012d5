import Mathlib.Data.List.Basic

/-!
Texts from which what was written can be told.

What is written for a value need not say where it ends: it is enough that the text
goes on with a letter at which it must have ended.  A list of values with separators
and a closing letter then says where it ends, whatever the text goes on with.
-/

namespace PrefixCode

variable {α β : Type}

/-- The text is over, or goes on with a letter at which values end. -/
def Ended (ends : β → Prop) (rest : List β) : Prop :=
  ∀ letter, rest.head? = some letter → ends letter

/-- The value is told from all valid values by what is written for it. -/
def Told (write : α → List β) (valid : α → Prop) (ends : β → Prop) (value : α) : Prop :=
  ∀ other rest last, valid other → Ended ends rest → Ended ends last →
    write value ++ rest = write other ++ last → value = other ∧ rest = last

/-- Nothing that is written for a valid value begins with the letter. -/
def Avoids (write : α → List β) (valid : α → Prop) (letter : β) : Prop :=
  ∀ value, valid value → ∃ first rest, write value = first :: rest ∧ first ≠ letter

private theorem ended_always (rest : List β) : Ended (fun _ => True) rest :=
  fun _ _ => trivial

theorem ended_cons {ends : β → Prop} {letter : β} (isEnd : ends letter) (rest : List β) :
    Ended ends (letter :: rest) := by
  intro first head
  rw [← Option.some.inj head]
  exact isEnd

theorem append_inj_of_all {test : β → Prop} {word other rest last : List β}
    (inWord : ∀ letter ∈ word, test letter) (inOther : ∀ letter ∈ other, test letter)
    (restEnded : Ended (fun letter => ¬ test letter) rest)
    (lastEnded : Ended (fun letter => ¬ test letter) last)
    (same : word ++ rest = other ++ last) : word = other ∧ rest = last := by
  induction word generalizing other with
  | nil =>
      cases other with
      | nil => exact ⟨rfl, same⟩
      | cons first more =>
          rw [List.nil_append] at same
          have stops := restEnded first (by rw [same]; rfl)
          exact absurd (inOther first List.mem_cons_self) stops
  | cons first more ih =>
      cases other with
      | nil =>
          rw [List.nil_append] at same
          have stops := lastEnded first (by rw [← same]; rfl)
          exact absurd (inWord first List.mem_cons_self) stops
      | cons second others =>
          rw [List.cons_append, List.cons_append, List.cons.injEq] at same
          obtain ⟨sameFirst, sameRest⟩ := same
          obtain ⟨sameMore, sameEnd⟩ := ih
            (fun letter member => inWord letter (List.mem_cons_of_mem _ member))
            (fun letter member => inOther letter (List.mem_cons_of_mem _ member)) sameRest
          rw [sameFirst, sameMore]
          exact ⟨rfl, sameEnd⟩

section Lists

variable {write : α → List β} {valid : α → Prop} {close : β}

theorem flatMap_told (avoids : Avoids write valid close) {values others : List α}
    (each : ∀ value ∈ values, Told write valid (fun _ => True) value)
    (areValid : ∀ value ∈ values, valid value) (othersValid : ∀ value ∈ others, valid value)
    {rest last : List β}
    (same : values.flatMap write ++ close :: rest = others.flatMap write ++ close :: last) :
    values = others ∧ rest = last := by
  induction values generalizing others with
  | nil =>
      cases others with
      | nil => exact ⟨rfl, (List.cons.inj same).2⟩
      | cons other more =>
          obtain ⟨first, tail, written, differs⟩ :=
            avoids other (othersValid other List.mem_cons_self)
          rw [List.flatMap_cons, written] at same
          exact absurd (List.cons.inj same).1.symm differs
  | cons value more ih =>
      cases others with
      | nil =>
          obtain ⟨first, tail, written, differs⟩ := avoids value (areValid value List.mem_cons_self)
          rw [List.flatMap_cons, written] at same
          exact absurd (List.cons.inj same).1 differs
      | cons other others =>
          rw [List.flatMap_cons, List.flatMap_cons, List.append_assoc, List.append_assoc] at same
          obtain ⟨sameValue, sameRest⟩ := each value List.mem_cons_self other _ _
            (othersValid other List.mem_cons_self) (ended_always _) (ended_always _) same
          obtain ⟨sameMore, sameEnd⟩ := ih
            (fun value member => each value (List.mem_cons_of_mem _ member))
            (fun value member => areValid value (List.mem_cons_of_mem _ member))
            (fun value member => othersValid value (List.mem_cons_of_mem _ member)) sameRest
          rw [sameValue, sameMore]
          exact ⟨rfl, sameEnd⟩

/-- What stands behind the first of several words: each with a separator before it. -/
def after (separator close : β) : List (List β) → List β → List β
  | [], rest => close :: rest
  | word :: words, rest => separator :: (word ++ after separator close words rest)

private theorem intercalate_cons_append (separator close : β) (word : List β)
    (words : List (List β))
    (rest : List β) :
    [separator].intercalate (word :: words) ++ close :: rest =
      word ++ after separator close words rest := by
  induction words generalizing word with
  | nil => rw [List.intercalate_singleton, after]
  | cons next words ih =>
      rw [List.intercalate_cons_cons, List.append_assoc, List.append_assoc, ih, after,
        List.singleton_append]

variable {separator : β}

private theorem ended_after (words : List (List β)) (rest : List β) :
    Ended (fun letter => letter = separator ∨ letter = close)
      (after separator close words rest) := by
  intro letter head
  cases words with
  | nil => exact Or.inr (Option.some.inj head).symm
  | cons word words => exact Or.inl (Option.some.inj head).symm

private theorem after_told (differ : separator ≠ close) {values others : List α}
    (each : ∀ value ∈ values,
      Told write valid (fun letter => letter = separator ∨ letter = close) value)
    (othersValid : ∀ value ∈ others, valid value) {rest last : List β}
    (same : after separator close (values.map write) rest =
      after separator close (others.map write) last) : values = others ∧ rest = last := by
  induction values generalizing others with
  | nil =>
      cases others with
      | nil => exact ⟨rfl, (List.cons.inj same).2⟩
      | cons other more => exact absurd (List.cons.inj same).1.symm differ
  | cons value more ih =>
      cases others with
      | nil => exact absurd (List.cons.inj same).1 differ
      | cons other others =>
          obtain ⟨sameValue, sameRest⟩ := each value List.mem_cons_self other _ _
            (othersValid other List.mem_cons_self) (ended_after _ _) (ended_after _ _)
            (List.cons.inj same).2
          obtain ⟨sameMore, sameEnd⟩ := ih
            (fun value member => each value (List.mem_cons_of_mem _ member))
            (fun value member => othersValid value (List.mem_cons_of_mem _ member)) sameRest
          rw [sameValue, sameMore]
          exact ⟨rfl, sameEnd⟩

theorem intercalate_told (differ : separator ≠ close) (avoids : Avoids write valid close)
    {values others : List α}
    (each : ∀ value ∈ values,
      Told write valid (fun letter => letter = separator ∨ letter = close) value)
    (areValid : ∀ value ∈ values, valid value) (othersValid : ∀ value ∈ others, valid value)
    {rest last : List β}
    (same : [separator].intercalate (values.map write) ++ close :: rest =
      [separator].intercalate (others.map write) ++ close :: last) :
    values = others ∧ rest = last := by
  cases values with
  | nil =>
      cases others with
      | nil => exact ⟨rfl, (List.cons.inj same).2⟩
      | cons other more =>
          obtain ⟨first, tail, written, differs⟩ :=
            avoids other (othersValid other List.mem_cons_self)
          rw [List.map_cons, intercalate_cons_append, written] at same
          exact absurd (List.cons.inj same).1.symm differs
  | cons value more =>
      cases others with
      | nil =>
          obtain ⟨first, tail, written, differs⟩ := avoids value (areValid value List.mem_cons_self)
          rw [List.map_cons, intercalate_cons_append, written] at same
          exact absurd (List.cons.inj same).1 differs
      | cons other others =>
          rw [List.map_cons, List.map_cons, intercalate_cons_append,
            intercalate_cons_append] at same
          obtain ⟨sameValue, sameRest⟩ := each value List.mem_cons_self other _ _
            (othersValid other List.mem_cons_self) (ended_after _ _) (ended_after _ _) same
          obtain ⟨sameMore, sameEnd⟩ := after_told differ
            (fun value member => each value (List.mem_cons_of_mem _ member))
            (fun value member => othersValid value (List.mem_cons_of_mem _ member)) sameRest
          rw [sameValue, sameMore]
          exact ⟨rfl, sameEnd⟩

end Lists

end PrefixCode
