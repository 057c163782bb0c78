import PcieFabric.Topology.Basic

/-!
The hierarchy of a discovered device list (`windows_enum.cpp`).

* `RawPciDevice`: what the enumeration of the host's devices says of one.
* `buildTopology`: the devices become nodes in the order of the list, numbered
  from 1, each under the node of its parent's address if that came before it.
-/

namespace PcieFabric

/-- `RawPciDevice`, the fields that the topology is built from. -/
structure RawPciDevice where
  bdf : Bdf := {}
  kind : DeviceClass := DeviceClass.unknown
  parentBdf : Option Bdf := none
  isBridge : Bool := false
deriving DecidableEq, Repr

namespace Discovery

/-- The variables of the loop of `build_topology_from_windows`; the newest entry
of `by_bdf` for an address stands first. -/
structure Build where
  topo : Topology := {}
  byBdf : List (Bdf × PciNodeId) := []
  next : UInt64 := 1

/-- The parent that the loop passes on: 0 where none is known. -/
def Build.parentOf (s : Build) (d : RawPciDevice) : PciNodeId :=
  match d.parentBdf with
  | none => ⟨0⟩
  | some b => (s.byBdf.lookup b).getD ⟨0⟩

/-- One round of the loop of `build_topology_from_windows`. -/
def Build.add (s : Build) (d : RawPciDevice) : Build :=
  let kind := if d.isBridge then DeviceClass.bridge else d.kind
  if !d.bdf.valid then s
  else
    let id : PciNodeId := ⟨s.next⟩
    match s.topo.addEndpoint id d.bdf kind ⟨1⟩ Provenance.reported (s.parentOf d) with
    | (.ok _, topo) => { topo, byBdf := (d.bdf, id) :: s.byBdf, next := s.next + 1 }
    | (.error _, topo) => { s with topo, next := s.next + 1 }

/-- `build_topology_from_windows`, over what `enumerate_pci_devices` returned. -/
def buildTopology (devices : Result (List RawPciDevice)) : Result Topology :=
  match devices with
  | .error e => .error e
  | .ok ds => .ok (ds.foldl Build.add {}).topo

end Discovery

end PcieFabric
