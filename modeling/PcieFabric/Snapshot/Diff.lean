import PcieFabric.Lib.MapDiff
import PcieFabric.Snapshot.Snapshot
import PcieFabric.Topology.Queries

/-!
The difference of two snapshots (`snapshot.hpp`, `example15_snapshot.cpp`).

* `SnapshotDiff`, `snapshotDiff`: the record and the function of the source. The other lists
  of the record stay empty.
* `endpointsOf`, `generationsOf`, `pathIdsOf`: its maps.
* `Snapshot.Distinct`: no node id comes twice. Such a snapshot is read off its maps.
-/

namespace PcieFabric

open MapDiff

/-- `SnapshotDiff`. -/
structure SnapshotDiff where
  endpointsAppeared : List Bdf := []
  endpointsDisappeared : List Bdf := []
  generationChanged : List PciNodeId := []
  pathChanged : List PathId := []
  pathInvalidated : List PathId := []
  linkCapabilityChanged : List LinkId := []
  measurementChanged : List MeasurementId := []
  reservationChanged : List ReservationId := []
  policyChanged : List PolicyId := []
  authorityRolled : Bool := false
deriving DecidableEq, Repr

/-- `SnapshotDiff::empty`. -/
def SnapshotDiff.empty (d : SnapshotDiff) : Bool :=
  d.endpointsAppeared.isEmpty && d.endpointsDisappeared.isEmpty && d.generationChanged.isEmpty &&
    d.pathChanged.isEmpty && d.pathInvalidated.isEmpty && d.linkCapabilityChanged.isEmpty &&
    d.measurementChanged.isEmpty && d.reservationChanged.isEmpty && d.policyChanged.isEmpty &&
    !d.authorityRolled

/-- `aep`, `bep`: the addresses of the endpoints. `is_ep_kind` is `is_endpoint_kind`. -/
def endpointsOf (s : Snapshot) : IdMap .pciNodeId Bdf :=
  s.nodes.foldl (fun m n => if isEndpointKind n.kind then m.insert n.id n.bdf else m) ∅

/-- `agen`, `bgen`: the generations of the nodes. -/
def generationsOf (s : Snapshot) : IdMap .pciNodeId UInt64 :=
  s.nodes.foldl (fun m n => m.insert n.id n.generation.value) ∅

/-- `ap`, `bp`: the ids of the paths. -/
def pathIdsOf (s : Snapshot) : IdMap .pathId Unit :=
  s.paths.foldl (fun m p => m.insert p.id ()) ∅

/-- `snapshot_diff`. -/
def snapshotDiff (a b : Snapshot) : SnapshotDiff where
  endpointsAppeared := (newEntries (endpointsOf a) (endpointsOf b)).map Prod.snd
  endpointsDisappeared := (newEntries (endpointsOf b) (endpointsOf a)).map Prod.snd
  generationChanged := changedKeys (generationsOf a) (generationsOf b)
  pathChanged := (newEntries (pathIdsOf a) (pathIdsOf b)).map Prod.fst ++
    (newEntries (pathIdsOf b) (pathIdsOf a)).map Prod.fst

/-- No node id comes twice. -/
def Snapshot.Distinct (s : Snapshot) : Prop := (s.nodes.map Node.id).Nodup

variable {s a b : Snapshot}

/-! ### The maps -/

/-- A snapshot has one node for an id. -/
lemma Snapshot.Distinct.eq (h : s.Distinct) {n m : Node} (hn : n ∈ s.nodes) (hm : m ∈ s.nodes)
    (hid : n.id = m.id) : n = m := List.inj_on_of_nodup_map h hn hm hid

/-- The endpoints of a snapshot. -/
lemma getElem?_endpointsOf (h : s.Distinct) {k : PciNodeId} {x : Bdf} :
    (endpointsOf s)[k]? = some x ↔
      ∃ n ∈ s.nodes, isEndpointKind n.kind = true ∧ n.id = k ∧ n.bdf = x := by
  have hfold : endpointsOf s = ((s.nodes.filter fun n => isEndpointKind n.kind).map
      fun n => (n.id, n.bdf)).foldl (fun m e => m.insert e.1 e.2) ∅ := by
    rw [endpointsOf, List.foldl_map, List.foldl_filter]
  have hmem : ∀ k x, (k, x) ∈ (s.nodes.filter fun n => isEndpointKind n.kind).map
      (fun n => (n.id, n.bdf)) ↔
        ∃ n ∈ s.nodes, isEndpointKind n.kind = true ∧ n.id = k ∧ n.bdf = x := by
    intro k x
    simp only [List.mem_map, List.mem_filter, Prod.mk.injEq, and_assoc]
  rw [hfold, getElem?_ofList, hmem]
  intro k v w hv hw
  obtain ⟨n, hn, -, rfl, rfl⟩ := (hmem k v).mp hv
  obtain ⟨m, hm, -, hid, rfl⟩ := (hmem n.id w).mp hw
  rw [h.eq hm hn hid]

/-- The generations of a snapshot. -/
lemma getElem?_generationsOf (h : s.Distinct) {k : PciNodeId} {g : UInt64} :
    (generationsOf s)[k]? = some g ↔ ∃ n ∈ s.nodes, n.id = k ∧ n.generation.value = g := by
  have hfold : generationsOf s = (s.nodes.map fun n => (n.id, n.generation.value)).foldl
      (fun m e => m.insert e.1 e.2) ∅ := by
    rw [generationsOf, List.foldl_map]
  have hmem : ∀ k g, (k, g) ∈ s.nodes.map (fun n => (n.id, n.generation.value)) ↔
      ∃ n ∈ s.nodes, n.id = k ∧ n.generation.value = g := by
    intro k g
    simp only [List.mem_map, Prod.mk.injEq]
  rw [hfold, getElem?_ofList, hmem]
  intro k v w hv hw
  obtain ⟨n, hn, rfl, rfl⟩ := (hmem k v).mp hv
  obtain ⟨m, hm, hid, rfl⟩ := (hmem n.id w).mp hw
  rw [h.eq hm hn hid]

/-- The path ids of a snapshot. -/
lemma mem_pathIdsOf {id : PathId} : (pathIdsOf s)[id]? = some () ↔ ∃ p ∈ s.paths, p.id = id := by
  have hfold : pathIdsOf s = (s.paths.map fun p => (p.id, ())).foldl
      (fun m e => m.insert e.1 e.2) ∅ := by
    rw [pathIdsOf, List.foldl_map]
  rw [hfold, getElem?_ofList fun _ _ _ _ _ => rfl]
  simp only [List.mem_map, Prod.mk.injEq, and_true]

/-- Nothing is reported if the four lists that are written are empty. -/
lemma snapshotDiff_empty_iff : (snapshotDiff a b).empty = true ↔
    (snapshotDiff a b).endpointsAppeared = [] ∧ (snapshotDiff a b).endpointsDisappeared = [] ∧
      (snapshotDiff a b).generationChanged = [] ∧ (snapshotDiff a b).pathChanged = [] := by
  simp only [SnapshotDiff.empty, snapshotDiff, List.isEmpty_nil, Bool.and_true, Bool.not_false,
    Bool.and_eq_true, List.isEmpty_iff, and_assoc]

end PcieFabric
