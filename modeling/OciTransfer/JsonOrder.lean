import OciTransfer.JsonBytes
import Mathlib.Data.List.Perm.Basic

/-!
The order of the keys in a JSON text.

The texts of two values that differ in the order of their keys consist of the same
letters, so they are equally long, whatever the style and the encoding.
-/

namespace JsonValue

private theorem perm_intercalate {separator : List Char} {texts others : List (List Char)}
    (same : texts.Perm others) :
    (separator.intercalate texts).Perm (separator.intercalate others) := by
  induction same with
  | nil => exact List.Perm.refl _
  | @cons text texts others same ih =>
      cases texts with
      | nil => rw [List.nil_perm.mp same]
      | cons next rest =>
          have notEmpty : others ≠ [] := fun isEmpty => by
            rw [isEmpty] at same
            cases same.length_eq
          rw [List.intercalate_cons_cons, List.intercalate_cons_of_ne_nil notEmpty]
          exact List.Perm.append_left _ ih
  | swap text other rest =>
      cases rest with
      | nil =>
          refine List.perm_iff_count.mpr fun letter => ?_
          simp only [List.intercalate_cons_cons, List.intercalate_singleton, List.count_append]
          omega
      | cons next rest =>
          refine List.perm_iff_count.mpr fun letter => ?_
          simp only [List.intercalate_cons_cons, List.count_append]
          omega
  | trans _ _ first second => exact first.trans second

private theorem perm_intercalate_of_each {separator : List Char} {texts others : List (List Char)}
    (each : List.Forall₂ List.Perm texts others) :
    (separator.intercalate texts).Perm (separator.intercalate others) := by
  induction each with
  | nil => exact List.Perm.refl _
  | @cons text other texts others same rest ih =>
      cases rest with
      | nil =>
          rw [List.intercalate_singleton, List.intercalate_singleton]
          exact same
      | cons _ _ =>
          rw [List.intercalate_cons_cons, List.intercalate_cons_cons]
          exact List.Perm.append (List.Perm.append_right _ same) ih

private theorem perm_intercalate_map {α : Type} {separator : List Char}
    {write rewrite : α → List Char}
    {items : List α} (each : ∀ item ∈ items, (write item).Perm (rewrite item)) :
    (separator.intercalate (items.map write)).Perm (separator.intercalate (items.map rewrite)) := by
  refine perm_intercalate_of_each ?_
  rw [List.forall₂_map_left_iff, List.forall₂_map_right_iff, List.forall₂_same]
  exact each

private theorem perm_closed {first last : Char} {inner other : List Char}
    (same : inner.Perm other) :
    (first :: (inner ++ [last])).Perm (first :: (other ++ [last])) :=
  List.Perm.cons _ (List.Perm.append_right _ same)

section Writing

variable (style : Style)

def writeEntry (entry : String × JsonValue) : List Char :=
  style.quoted entry.1 ++ (':' :: style.colonBlanks) ++ style.write entry.2

private theorem writeEntries_eq (entries : List (String × JsonValue)) :
    style.writeEntries entries = entries.map (writeEntry style) := by
  induction entries with
  | nil => rfl
  | cons entry entries ih => rw [Style.writeEntries, ih, List.map_cons, writeEntry]

/-- In the order of the keys a value is written with the same letters. -/
theorem write_canon_perm {value : JsonValue} (regular : value.Regular) :
    (style.write value.canon).Perm (style.write value) := by
  induction regular with
  | null | bool | int | str => exact List.Perm.refl _
  | @arr items _ ih =>
      rw [canon, canonItems_eq, Style.write, Style.write, writeItems_eq, writeItems_eq,
        List.map_map]
      exact perm_closed (perm_intercalate_map ih)
  | @obj entries _ _ ih =>
      rw [canon, canonEntries_eq, dict, Style.write, Style.write, writeEntries_eq, writeEntries_eq]
      have sorted :=
        (List.perm_insertionSort (fun left right : String × JsonValue => left.1 ≤ right.1)
        (entries.map fun entry => (entry.1, entry.2.canon))).map (writeEntry style)
      refine perm_closed ((perm_intercalate sorted).trans ?_)
      rw [List.map_map]
      exact perm_intercalate_map fun entry member => List.Perm.append_left _ (ih entry member)

private theorem length_utf8_of_perm {text other : List Char} (same : text.Perm other) :
    (utf8 text).length = (utf8 other).length :=
  (same.flatMap_right String.utf8EncodeChar).length_eq

theorem length_utf8_write {value other : JsonValue} (regular : value.Regular)
    (otherRegular : other.Regular) (same : value.canon = other.canon) :
    (utf8 (style.write value)).length = (utf8 (style.write other)).length := by
  have sorted := write_canon_perm style regular
  rw [same] at sorted
  exact length_utf8_of_perm (sorted.symm.trans (write_canon_perm style otherRegular))

end Writing

end JsonValue
