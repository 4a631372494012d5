import Mathlib.Data.List.Nodup
import Mathlib.Data.List.Sort
import Mathlib.Data.String.Basic
import Mathlib.Data.Rat.Defs

/-!
JSON values as the interpreter's `json` module delivers them.

Integers and finite floats are kept apart, and `NaN` and the infinities, which
that module also reads, are kept by name.  Two dictionaries with the same
items are one value, so the items of an object stand in the order of their
keys, whatever order they were given in.
-/

inductive JsonValue where
  | null
  | bool (value : Bool)
  | int (value : Int)
  | real (value : ℚ)
  | nonfinite (name : String)
  | str (text : String)
  | arr (items : List JsonValue)
  | obj (items : List (String × JsonValue))

namespace JsonValue

/-- `sort_keys=True`. -/
def sortKeys (items : List (String × JsonValue)) : List (String × JsonValue) :=
  items.insertionSort fun left right => left.1 ≤ right.1

def dict (items : List (String × JsonValue)) : JsonValue := .obj (sortKeys items)

/-- `value.get(key)` on a dictionary. -/
def get? (value : JsonValue) (key : String) : Option JsonValue :=
  match value with
  | .obj items => (items.find? fun item => item.1 = key).map Prod.snd
  | _ => none

def getD (value : JsonValue) (key : String) (default : JsonValue) : JsonValue :=
  (value.get? key).getD default

def isDict : JsonValue → Bool
  | .obj _ => true
  | _ => false

/-- `value == number`: the interpreter compares booleans and floats with integers. -/
def equalsInt (value : JsonValue) (number : Int) : Bool :=
  match value with
  | .int given => given = number
  | .bool given => (if given then 1 else 0) = number
  | .real given => given = (number : ℚ)
  | _ => false

/-- `bool(value)`. -/
def truthy : JsonValue → Bool
  | .null => false
  | .bool value => value
  | .int value => value ≠ 0
  | .real value => value ≠ 0
  | .nonfinite _ => true
  | .str text => text ≠ ""
  | .arr items => !items.isEmpty
  | .obj items => !items.isEmpty

/-- `value.get(key, default)`, where it is a text. -/
def textAt (value : JsonValue) (key default : String) : Option String :=
  match value.get? key with
  | none => some default
  | some (.str text) => some text
  | some _ => none

/-- `value.get(key)`, where it is a number or absent. -/
def numberAt (value : JsonValue) (key : String) : Option (Option ℚ) :=
  match value.get? key with
  | none | some .null => some none
  | some (.int number) => some (some number)
  | some (.real number) => some (some number)
  | some _ => none

/-- `bool(value.get(key))`; an absent key is not true. -/
def truthAt (value : JsonValue) (key : String) : Bool := (value.get? key).any JsonValue.truthy

/-- The values that a set of texts can be asked about; a list or a dictionary raises. -/
def hashable : JsonValue → Bool
  | .arr _ | .obj _ => false
  | _ => true

def ofOption {α : Type} (encode : α → JsonValue) : Option α → JsonValue
  | none => .null
  | some value => encode value

theorem dict_sortKeys (items : List (String × JsonValue)) : dict (sortKeys items) = dict items := by
  unfold dict
  congr 1
  refine List.Pairwise.insertionSort_eq ?_
  have total : Std.Total fun left right : String × JsonValue => left.1 ≤ right.1 :=
    ⟨fun left right => le_total left.1 right.1⟩
  have trans : IsTrans (String × JsonValue) fun left right => left.1 ≤ right.1 :=
    ⟨fun _ _ _ first second => le_trans first second⟩
  exact List.pairwise_insertionSort _ items

theorem sorted_eq_dict (items : (List (String × JsonValue) → JsonValue) →
    List (String × JsonValue)) :
    dict (sortKeys (items fun entries => dict (sortKeys entries))) = dict (items dict) := by
  have sameDict : (fun entries => dict (sortKeys entries)) = dict := funext dict_sortKeys
  rw [sameDict, dict_sortKeys]

theorem get?_dict {items : List (String × JsonValue)} (distinct : (items.map Prod.fst).Nodup)
    {key : String} {value : JsonValue} (member : (key, value) ∈ items) :
    (dict items).get? key = some value := by
  change ((sortKeys items).find? fun item => item.1 = key).map Prod.snd = some value
  have sameItems : ∀ item, item ∈ sortKeys items ↔ item ∈ items :=
    fun _ => List.mem_insertionSort _
  cases found : (sortKeys items).find? fun item => item.1 = key with
  | none =>
      have missing := List.find?_eq_none.mp found (key, value) ((sameItems _).mpr member)
      simp at missing
  | some item =>
      have sameKey : item.1 = key := by simpa using List.find?_some found
      have present := (sameItems item).mp (List.mem_of_find?_eq_some found)
      rw [List.inj_on_of_nodup_map distinct present member sameKey]
      rfl

theorem get?_dict_absent {items : List (String × JsonValue)} {key : String}
    (absent : key ∉ items.map Prod.fst) : (dict items).get? key = none := by
  change ((sortKeys items).find? fun item => item.1 = key).map Prod.snd = none
  rw [Option.map_eq_none_iff, List.find?_eq_none]
  intro item member sameKey
  have present : item ∈ items := (List.mem_insertionSort _).mp member
  exact absent (List.mem_map.mpr ⟨item, present, of_decide_eq_true sameKey⟩)

end JsonValue
