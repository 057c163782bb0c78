import PcieFabric.Topology.Basic

/-!
Reading the hierarchy (`topology.hpp`).

* `commonAncestor`, `pathNodes`, `locality`, `rootComplexOf`,
  `sharedContentionNode`: the queries that a path is built from.
* `endpoints`: the current endpoints in the order of their addresses;
  `allNodes`: the current nodes.
* `nodup_endpoints`, `mem_endpoints_iff`: each endpoint is listed once;
  `not_mem_endpoints_of_rootComplexOf`: no root complex is an endpoint.
-/

namespace PcieFabric

/-- `is_endpoint_kind`. -/
def isEndpointKind (k : DeviceClass) : Bool :=
  k = DeviceClass.accelerator || k = DeviceClass.nic || k = DeviceClass.storage ||
    k = DeviceClass.memory || k = DeviceClass.other

/-- The kinds that `root_complex_of` looks for. -/
def isRootKind (k : DeviceClass) : Bool :=
  k = DeviceClass.rootComplex || k = DeviceClass.rootPort

/-- No kind is both. -/
lemma isRootKind_of_isEndpointKind {k : DeviceClass} (h : isEndpointKind k = true) :
    isRootKind k = false := by
  simp only [isEndpointKind, Bool.or_eq_true, decide_eq_true_eq] at h
  rcases h with (((rfl | rfl) | rfl) | rfl) | rfl <;> rfl

namespace Topology

variable (t : Topology)

/-- `Topology::common_ancestor_locked`. -/
def commonAncestor (a b : PciNodeId) : Option PciNodeId :=
  (t.ancestors a).find? fun x => (t.ancestors b).contains x

/-- The loop that copies up to the common ancestor, which it copies too. -/
def through (ca : PciNodeId) : List PciNodeId → List PciNodeId
  | [] => []
  | x :: rest => x :: if x = ca then [] else through ca rest

/-- `Topology::path_nodes_locked`. -/
def pathNodes (a b : PciNodeId) : List PciNodeId :=
  match t.commonAncestor a b with
  | none => []
  | some ca =>
      let up := ((t.ancestors b).takeWhile fun x => x ≠ ca).reverse
      through ca (t.ancestors a) ++ up.filter fun x => x ≠ ca

/-- `Topology::locality_locked`. -/
def locality (a b : PciNodeId) : LocalityClass :=
  if a = b then LocalityClass.sameEndpoint
  else
    match t.commonAncestor a b with
    | none => LocalityClass.unknown
    | some ca =>
        match t.nodes[ca]? with
        -- `nodes_.at` throws here; the ancestors of a stored node are stored
        | none => LocalityClass.unknown
        | some n =>
            if n.kind = DeviceClass.switch ∨ n.kind = DeviceClass.bridge then
              LocalityClass.sameSwitch
            else if isRootKind n.kind then LocalityClass.sameRootComplex
            else LocalityClass.sameHostRemoteRoot

/-- `Topology::root_complex_of_locked`. -/
def rootComplexOf (id : PciNodeId) : Option PciNodeId :=
  (t.ancestors id).find? fun a =>
    match t.nodes[a]? with
    | none => false
    | some n => isRootKind n.kind

/-- `Topology::shared_contention_node`. -/
def sharedContentionNode (a b : PciNodeId) : Option PciNodeId :=
  if a = b then some a else t.commonAncestor a b

/-- The address of a node. -/
def bdfOf (id : PciNodeId) : Bdf := ((t.nodes[id]?).map Node.bdf).getD {}

/-- The sort by address in `Topology::endpoints`. -/
def sortByBdf (ids : List PciNodeId) : List PciNodeId :=
  ids.insertionSort fun a b => !(t.bdfOf b).before (t.bdfOf a)

/-- `Topology::endpoints`. -/
def endpoints : List PciNodeId :=
  t.sortByBdf ((t.nodes.toList.filter fun e => !e.2.removed && isEndpointKind e.2.kind).map
    Prod.fst)

/-- The sort by address and id in `Topology::all_nodes`. -/
def sortByBdfAndId (ids : List PciNodeId) : List PciNodeId :=
  ids.insertionSort fun a b =>
    if t.bdfOf b ≠ t.bdfOf a then !(t.bdfOf b).before (t.bdfOf a) else ¬ b.value < a.value

/-- `Topology::all_nodes`. -/
def allNodes : List PciNodeId :=
  t.sortByBdfAndId ((t.nodes.toList.filter fun e => !e.2.removed).map Prod.fst)

/-! ### The list of the endpoints -/

variable {t}

/-- Every endpoint is listed once. -/
lemma nodup_endpoints : t.endpoints.Nodup := by
  rw [endpoints, sortByBdf, (List.perm_insertionSort _ _).nodup_iff]
  have hkeys : (t.nodes.toList.map Prod.fst).Nodup := by
    rw [List.nodup_iff_pairwise_ne, List.pairwise_map]
    exact (Std.ExtTreeMap.distinct_keys_toList).imp fun h heq =>
      h (Std.LawfulEqCmp.compare_eq_iff_eq.mpr heq)
  exact hkeys.sublist (List.filter_sublist.map _)

/-- The endpoints are the current nodes of an endpoint kind. -/
lemma mem_endpoints_iff {id : PciNodeId} : id ∈ t.endpoints ↔
    ∃ n, t.nodes[id]? = some n ∧ n.removed = false ∧ isEndpointKind n.kind = true := by
  rw [endpoints, sortByBdf, (List.perm_insertionSort _ _).mem_iff, List.mem_map]
  constructor
  · rintro ⟨⟨id, n⟩, hmem, rfl⟩
    obtain ⟨hmem, hcond⟩ := List.mem_filter.mp hmem
    rw [Bool.and_eq_true, Bool.not_eq_true'] at hcond
    exact ⟨n, Std.ExtTreeMap.mem_toList_iff_getElem?_eq_some.mp hmem, hcond⟩
  · rintro ⟨n, hn, hremoved, hkind⟩
    refine ⟨(id, n), List.mem_filter.mpr ⟨?_, ?_⟩, rfl⟩
    · exact Std.ExtTreeMap.mem_toList_iff_getElem?_eq_some.mpr hn
    · rw [Bool.and_eq_true, Bool.not_eq_true']
      exact ⟨hremoved, hkind⟩

/-- No root complex is an endpoint. -/
lemma not_mem_endpoints_of_rootComplexOf {id rc : PciNodeId} (h : t.rootComplexOf id = some rc) :
    rc ∉ t.endpoints := by
  intro hmem
  obtain ⟨n, hn, -, hkind⟩ := mem_endpoints_iff.mp hmem
  have hroot := List.find?_some h
  rw [hn] at hroot
  have hnot : isRootKind n.kind = false := isRootKind_of_isEndpointKind hkind
  change isRootKind n.kind = true at hroot
  rw [hnot] at hroot
  cases hroot

end Topology

end PcieFabric
