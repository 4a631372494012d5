import Mathlib.Data.List.Nodup
import Mathlib.Data.List.Basic
import Mathlib.Logic.Function.Basic

/-!
Tables of rows under a primary key.

The key column is a function of the row, and a table carries the proof that no
key occurs twice, so a lookup by key names at most one row.  Updates may change
any column except the key.  The lemmas describe every statement by what it does
to one lookup; nothing here depends on what the rows are about.
-/

/-- Rows in insertion order, no two of them with the same key. -/
structure KeyedTable {κ ρ : Type} (key : ρ → κ) where
  rows : List ρ
  distinct : (rows.map key).Nodup

namespace KeyedTable

variable {κ ρ : Type} {key : ρ → κ}

def empty : KeyedTable key :=
  { rows := []
    distinct := List.nodup_nil }

/-- `UPDATE ... SET change WHERE selected`. -/
def update (table : KeyedTable key) (selected : ρ → Bool) (change : ρ → ρ)
    (keepsKey : ∀ row, key (change row) = key row) : KeyedTable key :=
  { rows := table.rows.map fun row => if selected row then change row else row
    distinct := by
      have sameKeys : (table.rows.map fun row => if selected row then change row else row).map key =
          table.rows.map key := by
        rw [List.map_map]
        apply List.map_congr_left
        intro row _member
        by_cases chosen : selected row = true
        · simp only [Function.comp_apply, chosen, if_true, keepsKey]
        · simp only [Function.comp_apply, chosen, Bool.false_eq_true, if_false]
      rw [sameKeys]
      exact table.distinct }

/-- `DELETE ... WHERE selected`. -/
def delete (table : KeyedTable key) (selected : ρ → Bool) : KeyedTable key :=
  { rows := table.rows.filter fun row => !selected row
    distinct := (List.filter_sublist.map key).nodup table.distinct }

/-- The number of rows a statement with this condition touches. -/
def count (table : KeyedTable key) (selected : ρ → Bool) : Nat :=
  table.rows.countP selected

theorem filter_update (table : KeyedTable key) (selected : ρ → Bool) (change : ρ → ρ)
    (keepsKey : ∀ row, key (change row) = key row) (test : ρ → Bool)
    (leaves : ∀ row, selected row = true → test (change row) = false) :
    (table.update selected change keepsKey).rows.filter test =
      (table.rows.filter test).filter fun row => !selected row := by
  change (table.rows.map fun row => if selected row then change row else row).filter test = _
  induction table.rows with
  | nil => rfl
  | cons row rest ih =>
      rw [List.map_cons]
      cases chosen : selected row with
      | true =>
          have left : ¬ test (change row) = true := by
            rw [leaves row chosen]
            exact Bool.false_ne_true
          rw [if_pos rfl, List.filter_cons_of_neg left, ih]
          cases tested : test row with
          | true =>
              rw [List.filter_cons_of_pos tested, List.filter_cons_of_neg (by rw [chosen]; decide)]
          | false => rw [List.filter_cons_of_neg (by rw [tested]; decide)]
      | false =>
          rw [if_neg Bool.false_ne_true]
          cases tested : test row with
          | true =>
              rw [List.filter_cons_of_pos tested, List.filter_cons_of_pos tested,
                List.filter_cons_of_pos (by rw [chosen]; rfl), ih]
          | false =>
              rw [List.filter_cons_of_neg (by rw [tested]; decide),
                List.filter_cons_of_neg (by rw [tested]; decide), ih]

theorem filter_update_outside (table : KeyedTable key) (selected : ρ → Bool) (change : ρ → ρ)
    (keepsKey : ∀ row, key (change row) = key row) (test : ρ → Bool)
    (outside : ∀ row, selected row = true → test row = false ∧ test (change row) = false) :
    (table.update selected change keepsKey).rows.filter test = table.rows.filter test := by
  rw [table.filter_update selected change keepsKey test fun row chosen => (outside row chosen).2]
  refine List.filter_eq_self.mpr fun row member => ?_
  have tested := (List.mem_filter.mp member).2
  cases chosen : selected row with
  | true =>
      rw [(outside row chosen).1] at tested
      cases tested
  | false => rfl

theorem key_injective (table : KeyedTable key) {left right : ρ}
    (leftMember : left ∈ table.rows) (rightMember : right ∈ table.rows)
    (same : key left = key right) : left = right :=
  List.inj_on_of_nodup_map table.distinct leftMember rightMember same

section Lookup

variable [DecidableEq κ]

def find? (table : KeyedTable key) (k : κ) : Option ρ :=
  table.rows.find? fun row => key row = k

/-- `INSERT`: a repeated primary key is refused. -/
def insert? (table : KeyedTable key) (row : ρ) : Option (KeyedTable key) :=
  if absent : key row ∈ table.rows.map key then none
  else some
    { rows := table.rows ++ [row]
      distinct := by
        rw [List.map_append, List.map_singleton]
        exact List.nodup_append'.mpr ⟨table.distinct, List.nodup_singleton _,
          List.disjoint_singleton.mpr absent⟩ }

/-- `table[key] = row`: the row takes the place of one with its key. -/
def set (table : KeyedTable key) (row : ρ) : KeyedTable key :=
  { rows := (table.rows.filter fun other => key other ≠ key row) ++ [row]
    distinct := by
      rw [List.map_append, List.map_singleton]
      refine List.nodup_append'.mpr ⟨(List.filter_sublist.map key).nodup table.distinct,
        List.nodup_singleton _, List.disjoint_singleton.mpr fun present => ?_⟩
      obtain ⟨other, member, same⟩ := List.mem_map.mp present
      exact of_decide_eq_true (List.mem_filter.mp member).2 same }

theorem mem_keys_set (table : KeyedTable key) (row : ρ) {k : κ} :
    k ∈ (table.set row).rows.map key ↔ k ∈ table.rows.map key ∨ k = key row := by
  unfold set
  simp only [List.map_append, List.map_singleton, List.mem_append, List.mem_map, List.mem_filter,
    List.mem_singleton, decide_eq_true_eq]
  constructor
  · rintro (⟨other, ⟨member, -⟩, rfl⟩ | same)
    · exact Or.inl ⟨other, member, rfl⟩
    · exact Or.inr same
  · rintro (⟨other, member, rfl⟩ | same)
    · by_cases replaced : key other = key row
      · exact Or.inr replaced
      · exact Or.inl ⟨other, ⟨member, replaced⟩, rfl⟩
    · exact Or.inr same

theorem find?_eq_some (table : KeyedTable key) {k : κ} {row : ρ} :
    table.find? k = some row ↔ row ∈ table.rows ∧ key row = k := by
  constructor
  · intro found
    exact ⟨List.mem_of_find?_eq_some found,
      of_decide_eq_true (List.find?_some (p := fun row => decide (key row = k)) found)⟩
  · rintro ⟨member, rfl⟩
    cases found : table.find? (key row) with
    | none =>
        have missing := List.find?_eq_none.mp found row member
        simp at missing
    | some other =>
        have otherKey : key other = key row :=
          of_decide_eq_true (List.find?_some (p := fun item => decide (key item = key row)) found)
        rw [table.key_injective (List.mem_of_find?_eq_some found) member otherKey]

theorem find?_mem (table : KeyedTable key) {k : κ} {row : ρ}
    (found : table.find? k = some row) : row ∈ table.rows :=
  (table.find?_eq_some.mp found).1

theorem find?_key (table : KeyedTable key) {k : κ} {row : ρ}
    (found : table.find? k = some row) : key row = k :=
  (table.find?_eq_some.mp found).2

theorem find?_of_mem (table : KeyedTable key) {row : ρ} (member : row ∈ table.rows) :
    table.find? (key row) = some row :=
  table.find?_eq_some.mpr ⟨member, rfl⟩

theorem find?_eq_none (table : KeyedTable key) {k : κ} :
    table.find? k = none ↔ ∀ row ∈ table.rows, key row ≠ k := by
  simp [find?, List.find?_eq_none]

/-- An update reaches a lookup exactly through the row it finds. -/
@[simp] theorem find?_update (table : KeyedTable key) (selected : ρ → Bool) (change : ρ → ρ)
    (keepsKey : ∀ row, key (change row) = key row) (k : κ) :
    (table.update selected change keepsKey).find? k =
      (table.find? k).map fun row => if selected row then change row else row := by
  have sameTest : ((fun row => decide (key row = k)) ∘
      fun row => if selected row then change row else row) =
      fun row => decide (key row = k) := by
    funext row
    by_cases chosen : selected row = true
    · simp only [Function.comp_apply, chosen, if_true, keepsKey]
    · simp only [Function.comp_apply, chosen, Bool.false_eq_true, if_false]
  unfold find? update
  rw [List.find?_map, sameTest]

@[simp] theorem find?_delete (table : KeyedTable key) (selected : ρ → Bool) (k : κ) :
    (table.delete selected).find? k = (table.find? k).filter fun row => !selected row := by
  cases found : table.find? k with
  | none =>
      rw [Option.filter_none, find?_eq_none]
      intro row member
      exact table.find?_eq_none.mp found row (List.mem_filter.mp member).1
  | some row =>
      cases chosen : selected row with
      | true =>
          rw [Option.filter_some, chosen]
          refine (find?_eq_none _).mpr fun other member otherKey => ?_
          obtain ⟨present, kept⟩ := List.mem_filter.mp member
          have same := table.key_injective present (table.find?_mem found)
            (otherKey.trans (table.find?_key found).symm)
          rw [same, chosen] at kept
          cases kept
      | false =>
          rw [Option.filter_some, chosen]
          refine (find?_eq_some _).mpr ⟨?_, table.find?_key found⟩
          exact List.mem_filter.mpr ⟨table.find?_mem found, by rw [chosen]; rfl⟩

theorem update_split (table : KeyedTable key) {k : κ} {row : ρ} (found : table.find? k = some row) :
    ∃ left right, table.rows = left ++ row :: right ∧
      ∀ (change : ρ → ρ) (keepsKey : ∀ row, key (change row) = key row),
        (table.update (fun other => key other = k) change keepsKey).rows =
          left ++ change row :: right := by
  obtain ⟨left, right, rowsEq⟩ := List.append_of_mem (table.find?_mem found)
  have rowKey := table.find?_key found
  have distinct := table.distinct
  rw [rowsEq, List.map_append, List.map_cons, List.nodup_middle, List.nodup_cons, rowKey,
    List.mem_append, not_or] at distinct
  refine ⟨left, right, rowsEq, fun change keepsKey => ?_⟩
  have untouched : ∀ part : List ρ, k ∉ part.map key →
      part.map (fun other => if decide (key other = k) then change other else other) = part := by
    intro part absent
    calc
      part.map (fun other => if decide (key other = k) then change other else other)
          = part.map id := by
            apply List.map_congr_left
            intro other member
            have otherKey : key other ≠ k := fun same =>
              absent (List.mem_map.mpr ⟨other, member, same⟩)
            rw [decide_eq_false otherKey, if_neg Bool.false_ne_true]
            rfl
      _ = part := List.map_id _
  change table.rows.map (fun other => if decide (key other = k) then change other else other) = _
  rw [rowsEq, List.map_append, List.map_cons, untouched left distinct.1.1,
    untouched right distinct.1.2, decide_eq_true rowKey, if_pos rfl]

theorem insert?_rows (table extended : KeyedTable key) (row : ρ)
    (accepted : table.insert? row = some extended) :
    extended.rows = table.rows ++ [row] ∧ table.find? (key row) = none := by
  unfold insert? at accepted
  split at accepted
  · cases accepted
  · rename_i absent
    cases accepted
    refine ⟨rfl, table.find?_eq_none.mpr fun other member same => absent ?_⟩
    exact List.mem_map.mpr ⟨other, member, same⟩

theorem insert?_of_absent (table : KeyedTable key) {row : ρ}
    (absent : table.find? (key row) = none) : ∃ extended, table.insert? row = some extended := by
  unfold insert?
  refine ⟨_, dif_neg fun present => ?_⟩
  obtain ⟨other, member, same⟩ := List.mem_map.mp present
  exact table.find?_eq_none.mp absent other member same

theorem find?_insert (table extended : KeyedTable key) (row : ρ)
    (accepted : table.insert? row = some extended) (k : κ) :
    extended.find? k = if key row = k then some row else table.find? k := by
  obtain ⟨rowsEq, absent⟩ := table.insert?_rows extended row accepted
  by_cases same : key row = k
  · rw [if_pos same]
    exact (find?_eq_some _).mpr ⟨by rw [rowsEq]; simp, same⟩
  · rw [if_neg same]
    unfold find?
    rw [rowsEq, List.find?_append]
    cases found : table.rows.find? fun other => decide (key other = k) with
    | none => simp [same]
    | some other => rfl

private theorem find?_set (table : KeyedTable key) (row : ρ) (k : κ) :
    (table.set row).find? k = if key row = k then some row else table.find? k := by
  by_cases same : key row = k
  · rw [if_pos same]
    apply (find?_eq_some _).mpr
    exact ⟨List.mem_append_right _ List.mem_cons_self, same⟩
  · rw [if_neg same]
    apply Option.ext
    intro other
    rw [find?_eq_some, find?_eq_some]
    change other ∈ (table.rows.filter fun other => key other ≠ key row) ++ [row] ∧ key other = k ↔ _
    rw [List.mem_append, List.mem_filter, List.mem_singleton, decide_eq_true_iff]
    constructor
    · intro listed
      obtain ⟨kept | last, otherKey⟩ := listed
      · exact ⟨kept.1, otherKey⟩
      · rw [last] at otherKey
        exact absurd otherKey same
    · intro listed
      have differs : key other ≠ key row := fun equal => same (equal.symm.trans listed.2)
      exact ⟨Or.inl ⟨listed.1, differs⟩, listed.2⟩

theorem length_set_le (table : KeyedTable key) (row : ρ) :
    (table.set row).rows.length ≤ table.rows.length + 1 := by
  unfold set
  rw [List.length_append, List.length_singleton]
  exact Nat.add_le_add_right (List.length_filter_le _ _) 1

/-! ### Tables that say who holds a key -/

section Holders

variable {η : Type} [DecidableEq η]

/-- The table names the holder of every key that a holder has, and no other. -/
def Names (table : KeyedTable key) (holder : ρ → η) (held : η → Option κ) : Prop :=
  ∀ k who, (table.find? k).map holder = some who ↔ held who = some k

theorem Names.set {table : KeyedTable key} {holder : ρ → η} {held : η → Option κ}
    (names : table.Names holder held) {row : ρ} (free : table.find? (key row) = none)
    (idle : held (holder row) = none) :
    (table.set row).Names holder (Function.update held (holder row) (some (key row))) := by
  intro k who
  rw [find?_set]
  by_cases sameKey : key row = k
  · rw [if_pos sameKey, Option.map_some, Option.some.injEq]
    by_cases sameHolder : who = holder row
    · rw [sameHolder, Function.update_self, sameKey]
      exact iff_of_true rfl rfl
    · rw [Function.update_of_ne sameHolder, ← names k who, ← sameKey, free]
      exact iff_of_false (fun equal => sameHolder equal.symm)
        (fun impossible => by cases impossible)
  · rw [if_neg sameKey]
    by_cases sameHolder : who = holder row
    · rw [names k who, sameHolder, idle, Function.update_self, Option.some.injEq]
      exact iff_of_false (fun impossible => by cases impossible) sameKey
    · rw [Function.update_of_ne sameHolder]
      exact names k who

theorem Names.delete {table : KeyedTable key} {holder : ρ → η} {held : η → Option κ}
    (names : table.Names holder held) {who : η} {k : κ} (has : held who = some k) :
    (table.delete fun row => key row = k).Names holder (Function.update held who none) := by
  intro other someone
  rw [find?_delete]
  have kept : (table.find? other).filter (fun row => !decide (key row = k)) =
      if other = k then none else table.find? other := by
    cases found : table.find? other with
    | none => rw [Option.filter_none, ite_self]
    | some row =>
        rw [Option.filter_some, table.find?_key found]
        by_cases same : other = k
        · rw [if_pos same, decide_eq_true same]
          rfl
        · rw [if_neg same, decide_eq_false same]
          rfl
  rw [kept]
  by_cases sameKey : other = k
  · rw [if_pos sameKey, sameKey]
    by_cases sameHolder : someone = who
    · rw [sameHolder, Function.update_self]
      exact iff_of_false (fun impossible => by cases impossible)
        (fun impossible => by cases impossible)
    · rw [Function.update_of_ne sameHolder, ← names k someone, (names k who).mpr has,
        Option.some.injEq]
      exact iff_of_false (fun impossible => by cases impossible)
        (fun equal => sameHolder equal.symm)
  · rw [if_neg sameKey]
    by_cases sameHolder : someone = who
    · rw [names other someone, sameHolder, has, Function.update_self, Option.some.injEq]
      exact iff_of_false (fun equal => sameKey equal.symm) (fun impossible => by cases impossible)
    · rw [Function.update_of_ne sameHolder]
      exact names other someone

end Holders

theorem count_eq_one_iff (table : KeyedTable key) (selected : ρ → Bool) (k : κ)
    (fixesKey : ∀ row, selected row = true → key row = k) :
    table.count selected = 1 ↔ ∃ row, table.find? k = some row ∧ selected row = true := by
  constructor
  · intro one
    have positive : 0 < table.rows.countP selected := by
      change 0 < table.count selected
      omega
    obtain ⟨row, member, chosen⟩ := List.countP_pos_iff.mp positive
    exact ⟨row, table.find?_eq_some.mpr ⟨member, fixesKey row chosen⟩, chosen⟩
  · rintro ⟨row, found, chosen⟩
    have onlyRow : ∀ other ∈ table.rows.filter selected, other = row := by
      intro other member
      obtain ⟨present, otherChosen⟩ := List.mem_filter.mp member
      exact table.key_injective present (table.find?_mem found)
        ((fixesKey other otherChosen).trans (table.find?_key found).symm)
    have nodupRows : (table.rows.filter selected).Nodup :=
      (List.Nodup.of_map key table.distinct).filter _
    have rowMember : row ∈ table.rows.filter selected :=
      List.mem_filter.mpr ⟨table.find?_mem found, chosen⟩
    unfold count
    rw [List.countP_eq_length_filter,
      (List.perm_ext_iff_of_nodup nodupRows (List.nodup_singleton row)).mpr
        (fun other => ⟨fun member => List.mem_singleton.mpr (onlyRow other member),
          fun member => List.mem_singleton.mp member ▸ rowMember⟩) |>.length_eq]
    rfl

end Lookup

end KeyedTable
