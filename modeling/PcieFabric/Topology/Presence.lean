import PcieFabric.Lib.CheckedSort
import PcieFabric.Topology.Ancestry
import PcieFabric.Topology.Children

/-!
Links and lookups of the hierarchy (`topology.hpp`): every link names a node that
is present, so no query looks up a missing one.

* `LinksPresent`: the invariant; `LinksPresent.step` keeps it over every call,
  those that close a cycle or remove a node included.
* `localityChecked`, `endpointsChecked`, `allNodesChecked`: the queries that use
  `nodes_.at`, undefined where it throws.
* `queries_defined`: over every run and for all arguments they are defined.
-/

namespace PcieFabric.Topology

open Std Machine ParentForest

variable {t : Topology}

/-- Every parent and every child of a node is present. -/
structure LinksPresent (t : Topology) : Prop where
  parent : ∀ x p, t.parentOf x = some p → p ∈ t.nodes
  child : ∀ x c, c ∈ t.childrenOf x → c ∈ t.nodes

/-! ### The invariant -/

/-- A frame: the same links and no node dropped. -/
lemma LinksPresent.of_frame (h : t.LinksPresent) {t' : Topology}
    (hmem : ∀ x : PciNodeId, x ∈ t.nodes → x ∈ t'.nodes) (hpar : t'.parentOf = t.parentOf)
    (hchildren : t'.childrenOf = t.childrenOf) : t'.LinksPresent := by
  refine ⟨fun x p hp => ?_, fun x c hc => ?_⟩
  · rw [hpar] at hp
    exact hmem p (h.parent x p hp)
  · rw [hchildren] at hc
    exact hmem c (h.child x c hc)

/-- The link that `attach` writes is between present nodes. -/
lemma LinksPresent.attach (h : t.LinksPresent) (child parent : PciNodeId)
    (link : Option LinkId) : (t.attach child parent link).2.LinksPresent := by
  rcases attach_cases t child parent link with ⟨heq, -⟩ | ⟨c, p, hne, hc, hp, heq⟩
  · rw [heq]
    exact h
  have hmemc : child ∈ t.nodes := mem_of_getElem? hc
  have hmemp : parent ∈ t.nodes := mem_of_getElem? hp
  have hmem := mem_linkNodes hmemc hmemp c p link
  rw [heq]
  refine ⟨fun x q hq => (hmem q).mpr ?_, fun x y hy => (hmem y).mpr ?_⟩
  · rw [parentOf_linkNodes hne hp] at hq
    by_cases hx : x = child
    · rw [hx, Function.update_self] at hq
      exact Option.some.inj hq ▸ hmemp
    · rw [Function.update_of_ne hx] at hq
      exact h.parent x q hq
  · rw [childrenOf_linkNodes hc hp] at hy
    by_cases hx : x = parent
    · rw [hx, Function.update_self] at hy
      split_ifs at hy
      · exact h.child parent y hy
      · rcases List.mem_append.mp hy with hy | hy
        · exact h.child parent y hy
        · exact List.mem_singleton.mp hy ▸ hmemc
    · rw [Function.update_of_ne hx] at hy
      exact h.child x y hy

/-- Every call keeps the links present. -/
lemma LinksPresent.step (h : t.LinksPresent) (call : TopologyCall) :
    (t.step call).LinksPresent :=
  step_invariant
    (fun _ _ hnodes ht =>
      ht.of_frame (fun _ hx => hnodes ▸ hx) (parentOf_congr hnodes) (childrenOf_congr hnodes))
    (fun t k _ _ ht => ht.of_frame (fun _ hx => ExtTreeMap.mem_modify.mpr hx)
      (parentOf_modify t k _ fun _ => rfl) (childrenOf_modify t k _ fun _ => rfl))
    (fun _ _ _ _ _ _ hid ht => ht.of_frame (fun _ hx => mem_withNode.mpr (.inr hx))
      (parentOf_withNode hid rfl) (childrenOf_withNode hid rfl))
    (fun _ child parent link ht => ht.attach child parent link) call h

lemma linksPresent_run (calls : List TopologyCall) : (run step {} calls).LinksPresent := by
  refine run_invariant step (fun _ call h => h.step call) ⟨fun x p hp => ?_, fun x c hc => ?_⟩ calls
  · exact wired_init.closed x p hp
  · rw [childrenOf_of_not_mem ExtTreeMap.not_mem_empty] at hc
    cases hc

/-- Whatever has a node below it is present. -/
lemma LinksPresent.mem_of_below (h : t.LinksPresent) {a x : PciNodeId}
    (hbelow : Below t.parentOf a x) : x ∈ t.nodes := by
  obtain ⟨b, hb⟩ := exists_up_of_below hbelow
  exact h.parent b x hb

/-- The common ancestor of two different ids is present, whether they are or not:
one of the two walks has left its start. -/
lemma LinksPresent.mem_of_commonAncestor (h : t.LinksPresent) {a b x : PciNodeId} (hne : a ≠ b)
    (hx : t.commonAncestor a b = some x) : x ∈ t.nodes := by
  have hlow := lowestCommon_of_commonAncestor hx
  rcases Relation.reflTransGen_iff_eq_or_transGen.mp hlow.left with rfl | hbelow
  · rcases Relation.reflTransGen_iff_eq_or_transGen.mp hlow.right with heq | hbelow
    · exact absurd heq hne
    · exact h.mem_of_below hbelow
  · exact h.mem_of_below hbelow

/-! ### The queries that look nodes up -/

/-- The branches of `locality_locked` on the kind of the common ancestor. -/
def localityOfKind (k : DeviceClass) : LocalityClass :=
  if k = DeviceClass.switch ∨ k = DeviceClass.bridge then LocalityClass.sameSwitch
  else if isRootKind k then LocalityClass.sameRootComplex
  else LocalityClass.sameHostRemoteRoot

/-- `Topology::locality_locked`, undefined where `nodes_.at` throws. -/
def localityChecked (t : Topology) (a b : PciNodeId) : Option LocalityClass :=
  if a = b then some LocalityClass.sameEndpoint
  else
    match t.commonAncestor a b with
    | none => some LocalityClass.unknown
    | some ca => do
        let n ← t.nodes[ca]?
        return localityOfKind n.kind

/-- The comparator of `endpoints`, asked whether the second is before the first. -/
def bdfOrder (t : Topology) (a b : PciNodeId) : Option Bool := do
  let nb ← t.nodes[b]?
  let na ← t.nodes[a]?
  return !nb.bdf.before na.bdf

/-- The comparator of `all_nodes`, asked whether the second is before the first. -/
def bdfAndIdOrder (t : Topology) (a b : PciNodeId) : Option Bool := do
  let nb ← t.nodes[b]?
  let na ← t.nodes[a]?
  if nb.bdf ≠ na.bdf then return !nb.bdf.before na.bdf
  return !decide (b.value < a.value)

/-- `Topology::endpoints`, undefined where `nodes_.at` throws. -/
def endpointsChecked (t : Topology) : Option (List PciNodeId) :=
  checkedSort t.bdfOrder
    ((t.nodes.toList.filter fun e => !e.2.removed && isEndpointKind e.2.kind).map Prod.fst)

/-- `Topology::all_nodes`, undefined where `nodes_.at` throws. -/
def allNodesChecked (t : Topology) : Option (List PciNodeId) :=
  checkedSort t.bdfAndIdOrder ((t.nodes.toList.filter fun e => !e.2.removed).map Prod.fst)

/-- The ids that are sorted are those of stored nodes. -/
lemma exists_of_mem_filter {q : PciNodeId × Node → Bool} {id : PciNodeId}
    (h : id ∈ (t.nodes.toList.filter q).map Prod.fst) : ∃ n, t.nodes[id]? = some n := by
  obtain ⟨⟨id, n⟩, hmem, rfl⟩ := List.mem_map.mp h
  exact ⟨n, ExtTreeMap.mem_toList_iff_getElem?_eq_some.mp (List.mem_filter.mp hmem).1⟩

/-- Enumeration looks up what it has just listed, on every topology. -/
lemma endpointsChecked_eq (t : Topology) : t.endpointsChecked = some t.endpoints := by
  refine checkedSort_eq_some fun a ha b hb => ?_
  obtain ⟨na, hna⟩ := exists_of_mem_filter ha
  obtain ⟨nb, hnb⟩ := exists_of_mem_filter hb
  rw [bdfOrder, bdfOf, bdfOf, hna, hnb]
  rfl

lemma allNodesChecked_eq (t : Topology) : t.allNodesChecked = some t.allNodes := by
  rw [allNodesChecked, checkedSort_eq_some (r := fun a b =>
    if t.bdfOf b ≠ t.bdfOf a then !(t.bdfOf b).before (t.bdfOf a) else !decide (b.value < a.value))]
  · rw [allNodes, sortByBdfAndId]
    congr 2
    funext a b
    split <;> simp
  · intro a ha b hb
    obtain ⟨na, hna⟩ := exists_of_mem_filter ha
    obtain ⟨nb, hnb⟩ := exists_of_mem_filter hb
    rw [bdfAndIdOrder, bdfOf, bdfOf, hna, hnb]
    dsimp only [Option.bind_eq_bind, Option.bind_some, Option.map_some, Option.getD_some]
    split <;> rfl

/-- With present links the locality looks up a stored node. -/
lemma LinksPresent.localityChecked_eq (h : t.LinksPresent) (a b : PciNodeId) :
    t.localityChecked a b = some (t.locality a b) := by
  rw [localityChecked, locality]
  by_cases hab : a = b
  · rw [if_pos hab, if_pos hab]
  rw [if_neg hab, if_neg hab]
  cases hx : t.commonAncestor a b with
  | none => rfl
  | some x =>
      obtain ⟨n, hn⟩ := exists_of_mem (h.mem_of_commonAncestor hab hx)
      dsimp only
      rw [hn]
      rfl

/-- **No dangling link and no throwing query**: after every sequence of calls every
stored link names a stored node, and the queries that use `nodes_.at` find what
they look up, for all arguments. `common_ancestor` and `path_nodes` look nodes up
with `find` only. -/
theorem queries_defined (calls : List TopologyCall) :
    let t := run step {} calls
    (∀ (id : PciNodeId) n, t.nodes[id]? = some n →
      (∀ p, n.parent = some p → p ∈ t.nodes) ∧ ∀ c ∈ n.children, c ∈ t.nodes) ∧
      (∀ a b, t.localityChecked a b = some (t.locality a b)) ∧
      (∀ a b x, a ≠ b → t.commonAncestor a b = some x → x ∈ t.nodes) ∧
      t.endpointsChecked = some t.endpoints ∧ t.allNodesChecked = some t.allNodes := by
  have h := linksPresent_run calls
  refine ⟨fun id n hn => ⟨fun p hp => ?_, fun c hc => ?_⟩, h.localityChecked_eq,
    fun _ _ _ hab => h.mem_of_commonAncestor hab,
    endpointsChecked_eq _, allNodesChecked_eq _⟩
  · exact h.parent id p ((parentOf_of_getElem? hn).trans hp)
  · exact h.child id c ((childrenOf_of_getElem? hn).symm ▸ hc)

end PcieFabric.Topology
