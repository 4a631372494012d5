import Mathlib.Data.List.Infix
import OciTransfer.PrefixCode

/-!
Where a word stands in a text that is put together from parts.

A word without the separator stands on one side of it.  A word in a text of two
parts begins in the first or stands in the second; if the parts part a class of letters
from the others, it is cut where they are.  A search for the first test that one of two
conditions meets is the smaller of the two searches.  A text is cut at its first
separator, if it has one, or at all of them.
-/

namespace TextSearch

variable {α : Type}

theorem infix_append_cons_iff {word left right : List α} {separator : α}
    (absent : separator ∉ word) :
    word <:+: left ++ separator :: right ↔ word <:+: left ∨ word <:+: right := by
  rw [List.infix_append_iff]
  constructor
  · rintro (inLeft | inRest | ⟨front, back, rfl, ends, begins⟩)
    · exact Or.inl inLeft
    · rcases List.infix_cons_iff.mp inRest with begins | inRight
      · cases word with
        | nil => exact Or.inl List.nil_infix
        | cons first rest =>
            rw [(List.cons_prefix_cons.mp begins).1] at absent
            exact absurd List.mem_cons_self absent
      · exact Or.inr inRight
    · cases back with
      | nil =>
          rw [List.append_nil]
          exact Or.inl ends.isInfix
      | cons first rest =>
          rw [(List.cons_prefix_cons.mp begins).1] at absent
          exact absurd (List.mem_append_right _ List.mem_cons_self) absent
  · rintro (inLeft | inRight)
    · exact Or.inl inLeft
    · exact Or.inr (Or.inl (List.infix_cons inRight))

theorem infix_map_iff_of_fixed {change : α → α} {word text : List α}
    (fixed : ∀ letter, ∀ wanted ∈ word, change letter = wanted ↔ letter = wanted) :
    word <:+: text.map change ↔ word <:+: text := by
  have unchanged : ∀ part : List α, (∀ letter, ∀ wanted ∈ part.map change,
      change letter = wanted ↔ letter = wanted) → part.map change = part := by
    intro part
    induction part with
    | nil => exact fun _ => rfl
    | cons first rest ih =>
        intro fixed
        have firstFixed := (fixed first (change first) List.mem_cons_self).mp rfl
        rw [List.map_cons, ← firstFixed,
          ih fun letter wanted member => fixed letter wanted (List.mem_cons_of_mem _ member)]
  rw [List.infix_map_iff]
  constructor
  · rintro ⟨part, within, rfl⟩
    rw [unchanged part fixed]
    exact within
  · intro within
    refine ⟨word, within, ?_⟩
    apply List.ext_getElem
    · rw [List.length_map]
    · intro index inWord _
      rw [List.getElem_map]
      exact ((fixed word[index] word[index] (List.getElem_mem inWord)).mpr rfl).symm

section Begin

variable [BEq α] [LawfulBEq α]

/-- The word begins in the first part, and may go on into the second. -/
def beginsIn (word first second : List α) : Bool :=
  first.tails.any fun rest => !rest.isEmpty && word.isPrefixOf (rest ++ second)

private theorem beginsIn_cons {word first second : List α} {letter : α} :
    beginsIn word (letter :: first) second = true ↔
      word <+: letter :: (first ++ second) ∨ beginsIn word first second = true := by
  unfold beginsIn
  rw [List.tails_cons, List.any_cons, Bool.or_eq_true]
  simp only [List.isEmpty_cons, Bool.not_false, Bool.true_and, List.cons_append,
    List.isPrefixOf_iff_prefix]

theorem infix_append_iff_beginsIn {word second : List α} (first : List α) :
    word <:+: first ++ second ↔ beginsIn word first second = true ∨ word <:+: second := by
  induction first with
  | nil => simp [beginsIn]
  | cons letter rest ih =>
      rw [beginsIn_cons, List.cons_append, List.infix_cons_iff, ih, or_assoc]

private theorem beginsIn_iff {word first second : List α} :
    beginsIn word first second = true ↔
      ∃ rest, rest <:+ first ∧ rest ≠ [] ∧ word <+: rest ++ second := by
  unfold beginsIn
  simp only [List.any_eq_true, List.mem_tails, Bool.and_eq_true, Bool.not_eq_true',
    List.isEmpty_eq_false_iff, List.isPrefixOf_iff_prefix]

variable {inside : α → Bool} {letters rest first second : List α}

theorem beginsIn_of_inside (notEmpty : letters ≠ [])
    (lettersIn : ∀ letter ∈ letters, inside letter = true)
    (secondOut : ∀ letter ∈ second.head?, inside letter = false) :
    beginsIn letters first second = true ↔ letters <:+: first := by
  rw [beginsIn_iff]
  constructor
  · rintro ⟨back, ⟨front, rfl⟩, -, more, whole⟩
    rcases List.append_eq_append_iff.mp whole with
      ⟨between, rfl, -⟩ | ⟨between, lettersEq, secondEq⟩
    · exact ⟨front, between, List.append_assoc front letters between⟩
    · cases between with
      | nil =>
          rw [List.append_nil] at lettersEq
          rw [lettersEq]
          exact (List.suffix_append front back).isInfix
      | cons letter others =>
          have outside := secondOut letter (by rw [secondEq]; rfl)
          rw [lettersIn letter (by rw [lettersEq]; simp)] at outside
          cases outside
  · rintro ⟨front, back, rfl⟩
    refine ⟨letters ++ back, ⟨front, (List.append_assoc front letters back).symm⟩, ?_,
      back ++ second, (List.append_assoc letters back second).symm⟩
    exact fun empty => notEmpty (List.append_eq_nil_iff.mp empty).1

theorem beginsIn_of_across (notEmpty : rest ≠ [])
    (lettersIn : ∀ letter ∈ letters, inside letter = true)
    (restOut : ∀ letter ∈ rest.head?, inside letter = false)
    (firstIn : ∀ letter ∈ first, inside letter = true)
    (secondOut : ∀ letter ∈ second.head?, inside letter = false) :
    beginsIn (letters ++ rest) first second = true ↔
      letters ≠ [] ∧ letters <:+ first ∧ rest <+: second := by
  rw [beginsIn_iff]
  constructor
  · rintro ⟨back, backEnds, backNotEmpty, more, whole⟩
    have restEnds : ∀ letter, (rest ++ more).head? = some letter → ¬ inside letter = true := by
      intro letter starts
      rw [List.head?_append_of_ne_nil rest notEmpty] at starts
      exact Bool.eq_false_iff.mp (restOut letter starts)
    rw [List.append_assoc] at whole
    obtain ⟨rfl, secondEq⟩ := PrefixCode.append_inj_of_all lettersIn
      (fun letter member => firstIn letter (backEnds.subset member)) restEnds
      (fun letter starts => Bool.eq_false_iff.mp (secondOut letter starts)) whole
    exact ⟨backNotEmpty, backEnds, more, secondEq⟩
  · rintro ⟨lettersNotEmpty, ends, more, rfl⟩
    exact ⟨letters, ends, lettersNotEmpty, more, List.append_assoc letters rest more⟩

end Begin

theorem any_or (items : List α) (one other : α → Bool) :
    (items.any fun item => one item || other item) = (items.any one || items.any other) := by
  induction items with
  | nil => rfl
  | cons item rest ih =>
      simp only [List.any_cons, ih]
      cases one item <;> cases other item <;> simp

theorem any_congr {items : List α} {one other : α → Bool}
    (same : ∀ item ∈ items, one item = other item) : items.any one = items.any other := by
  induction items with
  | nil => rfl
  | cons item rest ih =>
      rw [List.any_cons, List.any_cons, same item List.mem_cons_self,
        ih fun later member => same later (List.mem_cons_of_mem _ member)]

theorem findIdx_congr {items : List α} {one other : α → Bool}
    (same : ∀ item ∈ items, one item = other item) : items.findIdx one = items.findIdx other := by
  induction items with
  | nil => rfl
  | cons item rest ih =>
      rw [List.findIdx_cons, List.findIdx_cons, same item List.mem_cons_self,
        ih fun later member => same later (List.mem_cons_of_mem _ member)]

theorem findIdx_or (tests : List α) (one other : α → Bool) :
    (tests.findIdx fun test => one test || other test) =
      min (tests.findIdx one) (tests.findIdx other) := by
  induction tests with
  | nil => rfl
  | cons test rest ih =>
      simp only [List.findIdx_cons, ih]
      cases one test <;> cases other test <;> simp

/-- The first place below the length that meets the condition, or the length. -/
structure FirstPlace (meets : Nat → Prop) (length place : Nat) : Prop where
  bounded : place ≤ length
  before : ∀ earlier < place, ¬ meets earlier
  there : place < length → meets place

theorem firstPlace_findIdx (tests : List α) (passes : α → Bool) :
    FirstPlace (fun place => tests[place]?.any passes = true) tests.length
      (tests.findIdx passes) where
  bounded := List.findIdx_le_length
  before := by
    intro earlier isBefore met
    have listed : earlier < tests.length := isBefore.trans_le List.findIdx_le_length
    rw [List.getElem?_eq_getElem listed, Option.any_some] at met
    rw [List.not_of_lt_findIdx isBefore] at met
    cases met
  there := by
    intro listed
    rw [List.getElem?_eq_getElem listed, Option.any_some]
    exact List.findIdx_getElem

/-- Two conditions beside a common one stop at the same place exactly if, wherever one of
them alone is met, the common one or both have been met by then. -/
theorem FirstPlace.min_eq_iff {common one other : Nat → Prop}
    {length commonPlace onePlace otherPlace : Nat} (isCommon : FirstPlace common length commonPlace)
    (isOne : FirstPlace one length onePlace) (isOther : FirstPlace other length otherPlace) :
    min commonPlace onePlace = min commonPlace otherPlace ↔
      ∀ place < length, ¬ (one place ↔ other place) →
        ∃ earlier ≤ place, common earlier ∨ (one earlier ∧ other earlier) := by
  have forward : ∀ {first second : Nat → Prop} {firstPlace secondPlace : Nat},
      FirstPlace first length firstPlace → FirstPlace second length secondPlace →
      min commonPlace firstPlace = min commonPlace secondPlace → ∀ place < length, first place →
        ∃ earlier ≤ place, common earlier ∨ (first earlier ∧ second earlier) := by
    intro first second firstPlace secondPlace isFirst isSecond same place listed met
    have reached : firstPlace ≤ place := not_lt.mp fun later => isFirst.before place later met
    by_cases commonFirst : commonPlace ≤ firstPlace
    · exact ⟨commonPlace, by omega, Or.inl (isCommon.there (by omega))⟩
    · have samePlace : secondPlace = firstPlace := by omega
      exact ⟨firstPlace, reached, Or.inr ⟨isFirst.there (by omega),
        samePlace ▸ isSecond.there (by omega)⟩⟩
  have notBefore : ∀ {first second : Nat → Prop} {firstPlace secondPlace : Nat},
      FirstPlace first length firstPlace → FirstPlace second length secondPlace →
      (∀ place < length, ¬ (first place ↔ second place) →
        ∃ earlier ≤ place, common earlier ∨ (first earlier ∧ second earlier)) →
      ¬ min commonPlace firstPlace < min commonPlace secondPlace := by
    intro first second firstPlace secondPlace isFirst isSecond condition isBefore
    have within := isCommon.bounded
    have met := isFirst.there (by omega)
    have unmet := isSecond.before firstPlace (by omega)
    obtain ⟨earlier, reached, isMet | both⟩ := condition firstPlace (by omega) fun same =>
      unmet (same.mp met)
    · exact isCommon.before earlier (by omega) isMet
    · exact isSecond.before earlier (by omega) both.2
  constructor
  · intro same place listed differ
    by_cases met : one place
    · exact forward isOne isOther same place listed met
    · have otherMet : other place := by tauto
      obtain ⟨earlier, reached, isMet⟩ := forward isOther isOne same.symm place listed otherMet
      exact ⟨earlier, reached, isMet.imp_right And.symm⟩
  · intro condition
    refine le_antisymm (not_lt.mp (notBefore isOther isOne fun place listed differ => ?_))
      (not_lt.mp (notBefore isOne isOther condition))
    obtain ⟨earlier, reached, isMet⟩ := condition place listed fun same => differ same.symm
    exact ⟨earlier, reached, isMet.imp_right And.symm⟩

section Cut

variable [DecidableEq α]

/-- The text before the first separator, and the text after it. -/
def cut (separator : α) : List α → List α × Option (List α)
  | [] => ([], none)
  | letter :: rest =>
      if letter = separator then ([], some rest)
      else (letter :: (cut separator rest).1, (cut separator rest).2)

theorem cut_append {separator : α} {front : List α} (absent : separator ∉ front) (back : List α) :
    cut separator (front ++ separator :: back) = (front, some back) := by
  induction front with
  | nil => exact if_pos rfl
  | cons letter rest ih =>
      obtain ⟨differs, notInRest⟩ := List.ne_and_not_mem_of_not_mem_cons absent
      rw [List.cons_append, cut, if_neg (Ne.symm differs), ih notInRest]

theorem cut_of_absent {separator : α} {text : List α} (absent : separator ∉ text) :
    cut separator text = (text, none) := by
  induction text with
  | nil => rfl
  | cons letter rest ih =>
      obtain ⟨differs, notInRest⟩ := List.ne_and_not_mem_of_not_mem_cons absent
      rw [cut, if_neg (Ne.symm differs), ih notInRest]

theorem cut_parts (separator : α) (text : List α) :
    separator ∉ (cut separator text).1 ∧
      text = (cut separator text).1 ++
        (cut separator text).2.elim [] fun back => separator :: back := by
  induction text with
  | nil => exact ⟨List.not_mem_nil, rfl⟩
  | cons letter rest ih =>
      rw [cut]
      split
      · rename_i same
        rw [same]
        exact ⟨List.not_mem_nil, rfl⟩
      · rename_i differs
        obtain ⟨absent, parts⟩ := ih
        constructor
        · exact List.not_mem_cons_of_ne_of_not_mem (Ne.symm differs) absent
        · rw [List.cons_append, ← parts]

end Cut

theorem mem_splitOnP (separates : α → Bool) {text : List α} {letter : α} (member : letter ∈ text)
    (stays : separates letter = false) : ∃ part ∈ text.splitOnP separates, letter ∈ part := by
  induction text with
  | nil => cases member
  | cons first rest ih =>
      rw [List.splitOnP_cons_eq_if_modifyHead]
      obtain ⟨part, parts, partsEq⟩ :=
        List.exists_cons_of_ne_nil (List.splitOnP_ne_nil separates rest)
      rw [partsEq] at ih ⊢
      rcases List.mem_cons.mp member with rfl | inRest
      · rw [if_neg (by rw [stays]; exact Bool.false_ne_true)]
        exact ⟨letter :: part, List.mem_cons_self, List.mem_cons_self⟩
      · obtain ⟨found, listed, within⟩ := ih inRest
        split
        · exact ⟨found, List.mem_cons_of_mem _ listed, within⟩
        · rcases List.mem_cons.mp listed with rfl | later
          · exact ⟨first :: found, List.mem_cons_self, List.mem_cons_of_mem _ within⟩
          · exact ⟨found, List.mem_cons_of_mem _ later, within⟩

private theorem intercalate_append (separator word : List α) {words : List (List α)}
    (notEmpty : words ≠ [])
    (more : List (List α)) :
    separator.intercalate (words ++ word :: more) =
      separator.intercalate words ++ (separator ++ separator.intercalate (word :: more)) := by
  induction words with
  | nil => exact absurd rfl notEmpty
  | cons first rest ih =>
      cases rest with
      | nil =>
          rw [List.singleton_append, List.intercalate_cons_cons, List.intercalate_singleton,
            List.append_assoc]
      | cons second others =>
          rw [List.cons_append, List.cons_append, List.intercalate_cons_cons, ← List.cons_append,
            ih (List.cons_ne_nil second others), List.intercalate_cons_cons]
          simp only [List.append_assoc]

/-- The parts of one text come first among those of another if the other goes on at a separator. -/
theorem splitOn_isPrefix_iff [BEq α] [LawfulBEq α] (separator : α) (front text : List α) :
    front.splitOn separator <+: text.splitOn separator ↔
      text = front ∨ front ++ [separator] <+: text := by
  constructor
  · intro parts
    obtain ⟨more, splits⟩ := parts
    have whole : text = [separator].intercalate (front.splitOn separator ++ more) := by
      rw [splits, List.intercalate_splitOn]
    cases more with
    | nil =>
        rw [List.append_nil, List.intercalate_splitOn] at whole
        exact Or.inl whole
    | cons next others =>
        rw [intercalate_append _ _ (List.splitOn_ne_nil separator front),
          List.intercalate_splitOn] at whole
        right
        refine ⟨[separator].intercalate (next :: others), ?_⟩
        rw [whole, List.append_assoc]
  · intro goesOn
    rcases goesOn with same | begins
    · rw [same]
    · obtain ⟨rest, splits⟩ := begins
      rw [List.append_assoc, List.singleton_append] at splits
      rw [← splits, List.splitOn_append_cons_self]
      exact List.prefix_append _ _

end TextSearch
