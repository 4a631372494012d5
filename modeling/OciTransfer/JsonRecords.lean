import OciTransfer.JsonValue
import Mathlib.Data.List.Find
import Mathlib.Data.Option.Basic

/-!
Records that are made of JSON objects.

A Python class that takes the items of a dictionary as keyword arguments refuses
unknown and missing names, and keeps the values as they are.  Go's `encoding/json`
fills a struct by the names of its fields, in which it overlooks case, checks the
type of every value, and leaves a field alone that is absent or null; here it also
refuses unknown names, as a decoder does after `DisallowUnknownFields`.
-/

namespace JsonValue

variable {α β : Type} {items entries : List (String × JsonValue)} {name : String}
  {value default : JsonValue}

private theorem find?_entry (distinct : (entries.map Prod.fst).Nodup)
    (member : (name, value) ∈ entries) :
    entries.find? (fun entry => entry.1 = name) = some (name, value) := by
  cases found : entries.find? fun entry => entry.1 = name with
  | none =>
      have missing := List.find?_eq_none.mp found (name, value) member
      simp at missing
  | some entry =>
      have sameName : entry.1 = name := by simpa using List.find?_some found
      rw [List.inj_on_of_nodup_map distinct (List.mem_of_find?_eq_some found) member sameName]

private theorem lookup_eq_find? : entries.lookup name =
    (entries.find? fun entry => entry.1 = name).map Prod.snd := by
  induction entries with
  | nil => rfl
  | cons entry rest ih =>
      rw [List.lookup_cons, List.find?_cons, ih]
      by_cases same : name = entry.1
      · subst same
        simp
      · rw [beq_false_of_ne same, decide_eq_false (Ne.symm same)]

theorem get?_dict_lookup (distinct : (items.map Prod.fst).Nodup) :
    (dict items).get? name = items.lookup name := by
  rw [lookup_eq_find?]
  by_cases present : name ∈ items.map Prod.fst
  · obtain ⟨⟨_, value⟩, member, rfl⟩ := List.mem_map.mp present
    rw [get?_dict distinct member, find?_entry distinct member]
    rfl
  · rw [get?_dict_absent present, List.find?_eq_none.mpr]
    · rfl
    · intro entry member sameName
      exact present (List.mem_map.mpr ⟨entry, member, of_decide_eq_true sameName⟩)

theorem getD_dict (distinct : (items.map Prod.fst).Nodup) :
    (dict items).getD name default = (items.lookup name).getD default :=
  congrArg (·.getD default) (get?_dict_lookup distinct)

theorem dict_injective {others : List (String × JsonValue)}
    (sameKeys : items.map Prod.fst = others.map Prod.fst)
    (distinct : (items.map Prod.fst).Nodup) (same : dict items = dict others) :
    items = others := by
  have sameLength : items.length = others.length := by
    have lengths := congrArg List.length sameKeys
    rw [List.length_map, List.length_map] at lengths
    exact lengths
  apply List.ext_getElem sameLength
  intro index inItems inOthers
  have sameKey : items[index].1 = others[index].1 := by
    have keys := List.getElem_of_eq sameKeys (by rw [List.length_map]; exact inItems)
    rw [List.getElem_map, List.getElem_map] at keys
    exact keys
  have left : (dict items).get? items[index].1 = some items[index].2 :=
    get?_dict distinct (List.getElem_mem inItems)
  have right : (dict others).get? others[index].1 = some others[index].2 :=
    get?_dict (sameKeys ▸ distinct) (List.getElem_mem inOthers)
  rw [same, sameKey, right] at left
  exact Prod.ext sameKey (Option.some.inj left).symm

theorem map_getD_dict {extra : List (String × JsonValue)}
    (distinct : ((items ++ extra).map Prod.fst).Nodup) :
    ((items.map Prod.fst).map fun key => (key, (dict (items ++ extra)).getD key .null)) =
      items := by
  rw [List.map_map]
  conv_rhs => rw [← List.map_id items]
  apply List.map_congr_left
  intro entry member
  have found : (dict (items ++ extra)).get? entry.1 = some entry.2 :=
    get?_dict distinct (List.mem_append_left _ member)
  change (entry.1, ((dict (items ++ extra)).get? entry.1).getD .null) = entry
  rw [found, Option.getD_some]

theorem distinct_sortKeys (distinct : (items.map Prod.fst).Nodup) :
    ((sortKeys items).map Prod.fst).Nodup :=
  ((List.perm_insertionSort _ items).map Prod.fst).nodup_iff.mpr distinct

/-- The arguments of `cls(**item)`, `None` where an optional one is missing; `none`
is a `TypeError`. -/
def keywords (required optional : List String) (item : JsonValue) : Option (String → JsonValue) :=
  match item with
  | .obj items =>
      if (items.all fun entry => entry.1 ∈ required ++ optional) &&
          required.all fun name => items.any fun entry => entry.1 = name then
        some fun name => item.getD name .null
      else none
  | _ => none

theorem keywords_dict {required optional : List String} (distinct : (items.map Prod.fst).Nodup)
    (known : ∀ name ∈ items.map Prod.fst, name ∈ required ++ optional)
    (complete : ∀ name ∈ required, name ∈ items.map Prod.fst) :
    (dict items).keywords required optional = some fun name => (items.lookup name).getD .null := by
  have sameValues : (fun name => (dict items).getD name .null) =
      fun name => (items.lookup name).getD .null := funext fun name => getD_dict distinct
  rw [← sameValues]
  have sameItems : ∀ entry, entry ∈ sortKeys items ↔ entry ∈ items :=
    fun _ => List.mem_insertionSort _
  change (if _ then _ else _) = _
  refine if_pos ?_
  rw [Bool.and_eq_true]
  constructor
  · rw [List.all_eq_true]
    intro entry member
    exact decide_eq_true (known entry.1 (List.mem_map_of_mem ((sameItems entry).mp member)))
  · rw [List.all_eq_true]
    intro name isRequired
    obtain ⟨entry, member, sameName⟩ := List.mem_map.mp (complete name isRequired)
    exact List.any_eq_true.mpr ⟨entry, (sameItems entry).mpr member, decide_eq_true sameName⟩

/-- A name as it is compared with the name of a field, which is in small ASCII letters. -/
def foldName (name : String) : List Char :=
  name.toList.map fun char =>
    if char = 'ſ' then 's' else if char = '\u212a' then 'k' else char.toLower

/-- The value a field is set to; of several names that differ in case the last counts. -/
def goField (value : JsonValue) (field : String) : JsonValue :=
  match value with
  | .obj items =>
      ((items.reverse.find? fun entry => foldName entry.1 = field.toList).map Prod.snd).getD .null
  | _ => .null

def goStruct (fields : List String) (build : (String → JsonValue) → Option α) (value : JsonValue) :
    Option α :=
  match value with
  | .obj items =>
      if items.all fun entry => fields.any fun field => foldName entry.1 = field.toList then
        build value.goField
      else none
  | .null => build fun _ => .null
  | _ => none

def goString : JsonValue → Option String
  | .str text => some text
  | .null => some ""
  | _ => none

def goBool : JsonValue → Option Bool
  | .bool given => some given
  | .null => some false
  | _ => none

def goInt64 : JsonValue → Option Int64
  | .int number =>
      if -9223372036854775808 ≤ number ∧ number ≤ 9223372036854775807 then
        some (Int64.ofInt number)
      else none
  | .null => some 0
  | _ => none

def goPointer (decode : JsonValue → Option α) : JsonValue → Option (Option α)
  | .null => some none
  | value => (decode value).map some

def goSlice (decode : JsonValue → Option α) : JsonValue → Option (List α)
  | .arr items => items.mapM decode
  | .null => some []
  | _ => none

/-- The names are spelled like fields. -/
def Plain (names : List String) : Prop :=
  ∀ name ∈ names, foldName name = name.toList

instance (names : List String) : Decidable (Plain names) :=
  inferInstanceAs (Decidable (∀ name ∈ names, foldName name = name.toList))

/-- On a dictionary whose names are spelled like fields, case makes no difference. -/
theorem goField_dict (distinct : (items.map Prod.fst).Nodup)
    (plain : Plain (items.map Prod.fst)) :
    (dict items).goField name = (items.lookup name).getD .null := by
  have sameTest : ∀ entry ∈ (sortKeys items).reverse,
      decide (foldName entry.1 = name.toList) = decide (entry.1 = name) := by
    intro entry member
    have present : entry ∈ items := (List.mem_insertionSort _).mp (List.mem_reverse.mp member)
    rw [plain entry.1 (List.mem_map_of_mem present)]
    exact decide_eq_decide.mpr String.toList_inj
  change (((sortKeys items).reverse.find? fun entry =>
    decide (foldName entry.1 = name.toList)).map Prod.snd).getD .null = _
  rw [List.find?_congr sameTest, lookup_eq_find?]
  by_cases present : name ∈ items.map Prod.fst
  · obtain ⟨⟨_, value⟩, member, rfl⟩ := List.mem_map.mp present
    have sorted : (_, value) ∈ (sortKeys items).reverse :=
      List.mem_reverse.mpr ((List.mem_insertionSort _).mpr member)
    have sortedDistinct : ((sortKeys items).reverse.map Prod.fst).Nodup := by
      rw [List.map_reverse, List.nodup_reverse]
      exact distinct_sortKeys distinct
    rw [find?_entry sortedDistinct sorted, find?_entry distinct member]
  · have absent : ∀ entry ∈ items, ¬ decide (entry.1 = name) = true := by
      intro entry member sameName
      exact present (List.mem_map.mpr ⟨entry, member, of_decide_eq_true sameName⟩)
    rw [List.find?_eq_none.mpr absent, List.find?_eq_none.mpr]
    intro entry member
    exact absent entry ((List.mem_insertionSort _).mp (List.mem_reverse.mp member))

theorem goStruct_dict {names fields : List String} {build : (String → JsonValue) → Option α}
    (sameNames : items.map Prod.fst = names) (distinct : names.Nodup) (plain : Plain names)
    (known : ∀ name ∈ names, name ∈ fields) :
    (dict items).goStruct fields build = build fun name => (items.lookup name).getD .null := by
  subst sameNames
  have isKnown : ((sortKeys items).all fun entry => fields.any fun field =>
      foldName entry.1 = field.toList) = true := by
    rw [List.all_eq_true]
    intro entry member
    have present := List.mem_map_of_mem (f := Prod.fst) ((List.mem_insertionSort _).mp member)
    exact List.any_eq_true.mpr ⟨entry.1, known entry.1 present,
      decide_eq_true (plain entry.1 present)⟩
  change (if _ then build (dict items).goField else none) = _
  rw [if_pos isKnown]
  exact congrArg build (funext fun name => goField_dict distinct plain)

theorem goInt64_toInt (number : Int64) : goInt64 (.int number.toInt) = some number := by
  have atLeast := number.le_toInt
  have below := number.toInt_lt
  have inRange : -9223372036854775808 ≤ number.toInt ∧ number.toInt ≤ 9223372036854775807 := by
    omega
  change (if _ then some (Int64.ofInt number.toInt) else none) = some number
  rw [if_pos inRange, Int64.ofInt_toInt]

theorem goPointer_ofOption {decode : JsonValue → Option α} {encode : α → JsonValue}
    (notNull : ∀ item, encode item ≠ .null) (inverse : ∀ item, decode (encode item) = some item)
    (given : Option α) : goPointer decode (ofOption encode given) = some given := by
  cases given with
  | none => rfl
  | some item =>
      change goPointer decode (encode item) = _
      unfold goPointer
      split
      · rename_i isNull
        exact absurd isNull (notNull item)
      · rw [inverse]
        rfl

theorem mapM_map_guard {decode : JsonValue → Option α} {encode : β → JsonValue} {wanted : β → α}
    {valid : β → Bool}
    (inverse : ∀ item, decode (encode item) = if valid item then some (wanted item) else none)
    (given : List β) :
    (given.map encode).mapM decode = if given.all valid then some (given.map wanted) else none := by
  induction given with
  | nil => rfl
  | cons first rest ih =>
      rw [List.map_cons, List.mapM_cons, inverse, ih, List.all_cons]
      cases valid first <;> cases rest.all valid <;> rfl

theorem mapM_map {decode : JsonValue → Option α} {encode : β → JsonValue} {wanted : β → α}
    (inverse : ∀ item, decode (encode item) = some (wanted item)) (given : List β) :
    (given.map encode).mapM decode = some (given.map wanted) := by
  rw [@mapM_map_guard _ _ decode encode wanted (fun _ => true) inverse,
    if_pos (List.all_eq_true.mpr fun _ _ => rfl)]

end JsonValue
