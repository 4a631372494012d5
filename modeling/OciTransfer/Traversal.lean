import Mathlib.Data.List.Nodup
import Mathlib.Data.List.Perm.Basic
import Mathlib.Logic.Relation

/-!
Depth-first traversals, and the places a list collects its entries from.

A traversal of a graph lists every node it is told about and expands a node the
first time it meets it, which tells it about the children of the node.  What it
lists is therefore fixed by what it was told at first and by the nodes it has
expanded, in some order, and this account composes: two traversals in a row are
one, and so are a node and the traversal of its children.
-/

variable {ν δ π : Type}

def Reaches (children : ν → List ν) : ν → ν → Prop :=
  Relation.ReflTransGen fun parent child => child ∈ children parent

/-- A traversal that was told about `named` when it had met `before`: it has
expanded the nodes `expanded`, and listed `listed`. -/
structure Traversal (children : ν → List ν) (named expanded before listed : List ν) : Prop where
  distinct : before.Nodup → (expanded ++ before).Nodup
  account : listed.Perm (named ++ expanded.flatMap children)
  met : ∀ node ∈ named, node ∈ expanded ++ before
  closed : ∀ node ∈ expanded, ∀ child ∈ children node, child ∈ expanded ++ before
  reached : ∀ node ∈ expanded, ∃ start ∈ named, Reaches children start node
  recorded : ∀ node ∈ expanded, node ∈ listed

namespace Traversal

variable {children : ν → List ν} {named expanded before listed : List ν} {node : ν}

theorem nil : Traversal children [] [] before [] :=
  { distinct := id
    account := List.Perm.refl []
    met := fun _ member => nomatch member
    closed := fun _ member => nomatch member
    reached := fun _ member => nomatch member
    recorded := fun _ member => nomatch member }

theorem known (member : node ∈ before) : Traversal children [node] [] before [node] :=
  { distinct := id
    account := List.Perm.refl [node]
    met := fun other same => by
      rw [List.mem_singleton.mp same]
      exact member
    closed := fun _ member => nomatch member
    reached := fun _ member => nomatch member
    recorded := fun _ member => nomatch member }

/-- A node that is met for the first time is expanded before its children are traversed. -/
theorem expand (fresh : node ∉ before)
    (rest : Traversal children (children node) expanded (node :: before) listed) :
    Traversal children [node] (expanded ++ [node]) before (node :: listed) where
  distinct := by
    intro distinct
    rw [List.append_assoc]
    exact rest.distinct (List.nodup_cons.mpr ⟨fresh, distinct⟩)
  account := by
    rw [List.flatMap_append, List.flatMap_singleton]
    exact (rest.account.trans List.perm_append_comm).cons node
  met := by
    intro other same
    rw [List.mem_singleton.mp same]
    simp
  closed := by
    intro other member child childMember
    rw [List.append_assoc]
    rcases List.mem_append.mp member with inRest | isNode
    · exact rest.closed other inRest child childMember
    · rw [List.mem_singleton.mp isNode] at childMember
      exact rest.met child childMember
  reached := by
    intro other member
    refine ⟨node, List.mem_singleton_self node, ?_⟩
    rcases List.mem_append.mp member with inRest | isNode
    · obtain ⟨start, startMember, reaches⟩ := rest.reached other inRest
      exact Relation.ReflTransGen.head startMember reaches
    · rw [List.mem_singleton.mp isNode]
      exact Relation.ReflTransGen.refl
  recorded := by
    intro other member
    rcases List.mem_append.mp member with inRest | isNode
    · exact List.mem_cons_of_mem node (rest.recorded other inRest)
    · rw [List.mem_singleton.mp isNode]
      exact List.mem_cons_self

theorem append {laterNamed laterExpanded laterListed : List ν}
    (first : Traversal children named expanded before listed)
    (later : Traversal children laterNamed laterExpanded (expanded ++ before) laterListed) :
    Traversal children (named ++ laterNamed) (laterExpanded ++ expanded) before
      (listed ++ laterListed) where
  distinct := by
    intro distinct
    rw [List.append_assoc]
    exact later.distinct (first.distinct distinct)
  account := by
    rw [List.flatMap_append]
    refine (first.account.append later.account).trans ?_
    rw [List.append_assoc, List.append_assoc]
    refine List.Perm.append_left named ?_
    refine List.perm_append_comm.trans ?_
    rw [List.append_assoc]
  met := by
    intro other member
    rw [List.append_assoc]
    rcases List.mem_append.mp member with inFirst | inLater
    · exact List.mem_append_right _ (first.met other inFirst)
    · exact later.met other inLater
  closed := by
    intro other member child childMember
    rw [List.append_assoc]
    rcases List.mem_append.mp member with inLater | inFirst
    · exact later.closed other inLater child childMember
    · exact List.mem_append_right _ (first.closed other inFirst child childMember)
  reached := by
    intro other member
    rcases List.mem_append.mp member with inLater | inFirst
    · obtain ⟨start, startMember, reaches⟩ := later.reached other inLater
      exact ⟨start, List.mem_append_right _ startMember, reaches⟩
    · obtain ⟨start, startMember, reaches⟩ := first.reached other inFirst
      exact ⟨start, List.mem_append_left _ startMember, reaches⟩
  recorded := by
    intro other member
    rcases List.mem_append.mp member with inLater | inFirst
    · exact List.mem_append_right _ (later.recorded other inLater)
    · exact List.mem_append_left _ (first.recorded other inFirst)

private theorem named_listed (traversal : Traversal children named expanded before listed)
    (member : node ∈ named) : node ∈ listed :=
  traversal.account.mem_iff.mpr (List.mem_append_left _ member)

private theorem child_listed (traversal : Traversal children named expanded before listed)
    {parent : ν} (parentExpanded : parent ∈ expanded) (member : node ∈ children parent) :
    node ∈ listed :=
  traversal.account.mem_iff.mpr
    (List.mem_append_right _ (List.mem_flatMap.mpr ⟨parent, parentExpanded, member⟩))

theorem listed_met (traversal : Traversal children named expanded before listed)
    (member : node ∈ listed) : node ∈ expanded ++ before := by
  rcases List.mem_append.mp (traversal.account.mem_iff.mp member) with isNamed | isChild
  · exact traversal.met node isNamed
  · obtain ⟨parent, parentExpanded, childMember⟩ := List.mem_flatMap.mp isChild
    exact traversal.closed parent parentExpanded node childMember

/-- Where nothing that is listed was met before, all that can be reached is expanded. -/
theorem covers (traversal : Traversal children named expanded before listed)
    (fresh : ∀ node ∈ listed, node ∉ before) {start : ν} (startMember : start ∈ named)
    (reaches : Reaches children start node) : node ∈ expanded := by
  have unlessBefore : ∀ {other : ν}, other ∈ expanded ++ before → other ∈ listed →
      other ∈ expanded := by
    intro other member isListed
    rcases List.mem_append.mp member with isExpanded | wasBefore
    · exact isExpanded
    · exact absurd wasBefore (fresh other isListed)
  induction reaches with
  | refl =>
      exact unlessBefore (traversal.met start startMember) (traversal.named_listed startMember)
  | @tail parent child _ edge ih =>
      exact unlessBefore (traversal.closed parent ih child edge) (traversal.child_listed ih edge)

end Traversal

/-- The entries of the nodes in order, each with the place it stands in. -/
def placed (place : ν → Nat → π) (entries : ν → List δ) (nodes : List ν) : List (π × δ) :=
  nodes.flatMap fun node => (entries node).mapIdx fun index entry => (place node index, entry)

theorem map_snd_placed (place : ν → Nat → π) (entries : ν → List δ) (nodes : List ν) :
    (placed place entries nodes).map Prod.snd = nodes.flatMap entries := by
  unfold placed
  rw [List.map_flatMap]
  congr 1
  funext node
  apply List.ext_getElem?
  intro index
  rw [List.getElem?_map, List.getElem?_mapIdx, Option.map_map]
  exact Option.map_id_apply

theorem mem_placed {place : ν → Nat → π} {entries : ν → List δ} {nodes : List ν} {spot : π}
    {entry : δ} : (spot, entry) ∈ placed place entries nodes ↔
      ∃ node ∈ nodes, ∃ index, spot = place node index ∧ (entries node)[index]? = some entry := by
  unfold placed
  rw [List.mem_flatMap]
  constructor
  · rintro ⟨node, member, inEntries⟩
    obtain ⟨index, bound, same⟩ := List.mem_mapIdx.mp inEntries
    cases same
    exact ⟨node, member, index, rfl, List.getElem?_eq_getElem bound⟩
  · rintro ⟨node, member, index, rfl, found⟩
    obtain ⟨bound, rfl⟩ := List.getElem?_eq_some_iff.mp found
    exact ⟨node, member, List.mem_mapIdx.mpr ⟨index, bound, rfl⟩⟩

theorem nodup_map_fst_placed {place : ν → Nat → π} (entries : ν → List δ) {nodes : List ν}
    (injective : ∀ node index other index', place node index = place other index' →
      node = other ∧ index = index') (distinct : nodes.Nodup) :
    ((placed place entries nodes).map Prod.fst).Nodup := by
  unfold placed
  rw [List.map_flatMap, List.nodup_flatMap]
  constructor
  · intro node _member
    rw [List.nodup_iff_pairwise_ne, List.pairwise_iff_getElem]
    intro index index' bound bound' before same
    rw [List.getElem_map, List.getElem_map, List.getElem_mapIdx, List.getElem_mapIdx] at same
    exact absurd (injective node index node index' same).2 (Nat.ne_of_lt before)
  · refine distinct.imp ?_
    intro node other differs place inNode inOther
    obtain ⟨⟨_, entry⟩, member, rfl⟩ := List.mem_map.mp inNode
    obtain ⟨⟨_, entry'⟩, member', same⟩ := List.mem_map.mp inOther
    obtain ⟨index, _, first⟩ := List.mem_mapIdx.mp member
    obtain ⟨index', _, second⟩ := List.mem_mapIdx.mp member'
    cases first
    cases second
    exact differs (injective other index' node index same).1.symm

/-- Entries with different places are distinct exactly if none stands in two places. -/
theorem nodup_map_snd_iff {entries : List (π × δ)} (distinct : (entries.map Prod.fst).Nodup) :
    (entries.map Prod.snd).Nodup ↔
      ∀ left right entry, (left, entry) ∈ entries → (right, entry) ∈ entries → left = right := by
  constructor
  · intro once left right entry leftMember rightMember
    exact congrArg Prod.fst (List.inj_on_of_nodup_map once leftMember rightMember rfl)
  · intro once
    refine List.Nodup.map_on ?_ (List.Nodup.of_map Prod.fst distinct)
    rintro ⟨left, entry⟩ leftMember ⟨right, _⟩ rightMember same
    cases same
    rw [once left right entry leftMember rightMember]
