import PcieFabric.Topology.Queries

/-!
What the queries of the hierarchy depend on.

* `Topology.skeleton`: the nodes with their parents, without the lists of their
  children and without their links.
* `ancestors_skeleton`, `endpoints_skeleton`, `allNodes_skeleton` and the others:
  every query gives the same answer on the skeleton.
-/

namespace PcieFabric

open Std

/-- The node with its parent, without its children and its links. -/
def Node.upward (n : Node) : Node :=
  { n with
    upstreamLink := none
    children := []
    downstreamLinks := [] }

namespace Topology

variable (t : Topology)

/-- The nodes of the hierarchy with their parents. -/
def skeleton : Topology where
  nodes := t.nodes.map fun _ n => n.upward

@[simp] lemma getElem?_skeleton (id : PciNodeId) :
    t.skeleton.nodes[id]? = (t.nodes[id]?).map Node.upward := ExtTreeMap.getElem?_map

@[simp] lemma size_skeleton : t.skeleton.nodes.size = t.nodes.size := ExtTreeMap.size_map

/-! ### The walks -/

lemma ancestorsLoop_skeleton (guard : Nat) (cur : Option PciNodeId) :
    t.skeleton.ancestorsLoop guard cur = t.ancestorsLoop guard cur := by
  induction guard generalizing cur with
  | zero => rfl
  | succ guard ih =>
      cases cur with
      | none => rfl
      | some cur =>
          rw [ancestorsLoop, ancestorsLoop, getElem?_skeleton]
          cases t.nodes[cur]? with
          | none => rfl
          | some n => exact congrArg (cur :: ·) (ih n.parent)

@[simp] lemma ancestors_skeleton (id : PciNodeId) : t.skeleton.ancestors id = t.ancestors id := by
  rw [ancestors, ancestors, size_skeleton, ancestorsLoop_skeleton]

@[simp] lemma commonAncestor_skeleton (a b : PciNodeId) :
    t.skeleton.commonAncestor a b = t.commonAncestor a b := by
  rw [commonAncestor, commonAncestor, ancestors_skeleton, ancestors_skeleton]

@[simp] lemma pathNodes_skeleton (a b : PciNodeId) :
    t.skeleton.pathNodes a b = t.pathNodes a b := by
  rw [pathNodes, pathNodes, commonAncestor_skeleton, ancestors_skeleton, ancestors_skeleton]

@[simp] lemma sharedContentionNode_skeleton (a b : PciNodeId) :
    t.skeleton.sharedContentionNode a b = t.sharedContentionNode a b := by
  rw [sharedContentionNode, sharedContentionNode, commonAncestor_skeleton]

@[simp] lemma locality_skeleton (a b : PciNodeId) : t.skeleton.locality a b = t.locality a b := by
  rw [locality, locality, commonAncestor_skeleton]
  cases t.commonAncestor a b with
  | none => rfl
  | some ca =>
      dsimp only
      rw [getElem?_skeleton]
      cases t.nodes[ca]? <;> rfl

@[simp] lemma rootComplexOf_skeleton (id : PciNodeId) :
    t.skeleton.rootComplexOf id = t.rootComplexOf id := by
  rw [rootComplexOf, rootComplexOf, ancestors_skeleton]
  refine congrArg (fun p => (t.ancestors id).find? p) (funext fun a => ?_)
  rw [getElem?_skeleton]
  cases t.nodes[a]? <;> rfl

/-! ### The sorted lists -/

@[simp] lemma bdfOf_skeleton (id : PciNodeId) : t.skeleton.bdfOf id = t.bdfOf id := by
  rw [bdfOf, bdfOf, getElem?_skeleton, Option.map_map]
  rfl

/-- A test that does not look at children and links selects the same ids. -/
lemma selected_skeleton {p : Node → Bool} (h : ∀ n, p n.upward = p n) :
    (t.skeleton.nodes.toList.filter fun e => p e.2).map Prod.fst =
      (t.nodes.toList.filter fun e => p e.2).map Prod.fst := by
  rw [skeleton, ExtTreeMap.toList_map, List.filter_map, List.map_map]
  simp only [Function.comp_def, h]

@[simp] lemma endpoints_skeleton : t.skeleton.endpoints = t.endpoints := by
  rw [endpoints, endpoints, sortByBdf, sortByBdf,
    selected_skeleton t (p := fun n => !n.removed && isEndpointKind n.kind) fun _ => rfl]
  simp only [bdfOf_skeleton]

@[simp] lemma allNodes_skeleton : t.skeleton.allNodes = t.allNodes := by
  rw [allNodes, allNodes, sortByBdfAndId, sortByBdfAndId,
    selected_skeleton t (p := fun n => !n.removed) fun _ => rfl]
  simp only [bdfOf_skeleton]

end Topology

end PcieFabric
