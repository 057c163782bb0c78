import PcieFabric.Snapshot.Path
import PcieFabric.Topology.Queries

/-!
A path built from the hierarchy (`path.hpp`).

* `computePathClass`: the class of a pair of nodes.
* `buildPath`: the path between two nodes, with its structural facts only.
-/

namespace PcieFabric

/-- The class of two nodes that are both endpoints, in `compute_path_class`. -/
def peerClass (s d : DeviceClass) : PathClass :=
  if s = DeviceClass.accelerator ∧ d = DeviceClass.nic then PathClass.acceleratorToNic
  else if s = DeviceClass.accelerator ∧ d = DeviceClass.storage then
    PathClass.acceleratorToStorage
  else if s = DeviceClass.nic ∧ d = DeviceClass.accelerator then PathClass.nicToAccelerator
  else if s = DeviceClass.storage ∧ d = DeviceClass.accelerator then
    PathClass.storageToAccelerator
  else PathClass.peerEndpointPath

/-- `compute_path_class`. -/
def computePathClass (topo : Topology) (src dst : PciNodeId) : PathClass :=
  match topo.nodes[src]?, topo.nodes[dst]? with
  | some s, some d =>
      if isEndpointKind s.kind ∧ isRootKind d.kind then
        if s.kind = DeviceClass.accelerator then PathClass.acceleratorToHost
        else PathClass.endpointToHost
      else if isRootKind s.kind ∧ isEndpointKind d.kind then
        if d.kind = DeviceClass.accelerator then PathClass.hostToAccelerator
        else PathClass.hostToEndpoint
      else if isEndpointKind s.kind ∧ isEndpointKind d.kind then peerClass s.kind d.kind
      else PathClass.unknown
  | _, _ => PathClass.unknown

/-- `build_path`. -/
def buildPath (topo : Topology) (id : PathId) (gen : PathGeneration) (src dst : PciNodeId)
    (epoch : CoordinatorEpoch) (boot : WorkerBootId) : Path where
  id := id
  generation := gen
  source := src
  destination := dst
  pathClass := computePathClass topo src dst
  bridgeChain := topo.pathNodes src dst
  locality := topo.locality src dst
  shared := (topo.sharedContentionNode src dst).toList
  confidence := ⟨.ofFloat 0.5⟩
  epoch := epoch
  boot := boot
  hostGeneration := ⟨1⟩
  pathGeneration := gen
  deviceGeneration := ⟨1⟩

end PcieFabric
