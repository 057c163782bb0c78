import PcieFabric.Persist.Save
import PcieFabric.Runtime.Runtime
import PcieFabric.Selection.Decision

/-!
Selecting on a runtime, saving it and loading it again (`runtime.hpp`).

* `Runtime.select`: the selection among the stored paths between two nodes.
* `Runtime.snapshot`, `save`, `load`: what a save collects, and what a load
  replaces. A load that fails changes nothing.
* `RuntimeEvent`, `Runtime.react`: the calls of a runtime with its loads, as
  inputs of a machine; `reservations_react` is what an event does to the
  registry.
-/

namespace PcieFabric

/-- `persist::mark_physical_revalidation_required`. -/
def Persist.markPhysicalRevalidationRequired (s : Snapshot) : Snapshot :=
  { s with paths := s.paths.map Path.revalidate }

namespace Runtime

variable (rt : Runtime)

/-! ### Selection -/

/-- `Runtime::candidates`. -/
def candidates (src dst : PciNodeId) : List Path :=
  (rt.paths.toList.map Prod.snd).filter fun p => p.source = src ∧ p.destination = dst

/-- `Runtime::select`. -/
def select (req : SelectionRequest) : SelectionDecision :=
  PathSelector.select (rt.candidates req.source req.destination) req

/-! ### Saving and loading -/

/-- `Runtime::snapshot`. The reservations and the policies stay empty. -/
def snapshot : Snapshot :=
  let s : Snapshot :=
    { epoch := rt.epoch
      sequence := rt.topologySeq
      nodes := rt.topology.allNodes.filterMap fun id => rt.topology.nodes[id]?
      paths := rt.paths.toList.map Prod.snd
      measurements := rt.measurements.entries.toList.map Prod.snd }
  { s with semanticDigest := semanticDigest s }

/-- `Runtime::save`. -/
def save (fs : Persist.Files) (path : String) (outcomes : List Persist.Outcome) :
    Persist.SaveState :=
  Persist.save fs path rt.snapshot outcomes

/-- The loop of `Runtime::load` over the nodes, into a fresh topology. What
`add_endpoint` returns is dropped, and a node without parent asks for node 0. -/
def rebuildTopology (nodes : List Node) : Topology :=
  nodes.foldl (fun t n =>
    (t.addEndpoint n.id n.bdf n.kind n.generation n.provenance (n.parent.getD ⟨0⟩)).2) {}

/-- The rest of `Runtime::load`, over what `persist::load` returned. The
measurements, the reservations, the boot and the counters stay. -/
def loadSnapshot (snap : Result Snapshot) : Result Snapshot × Runtime :=
  match snap with
  | .error e => (.error e, rt)
  | .ok s =>
      let s := Persist.markPhysicalRevalidationRequired s
      (.ok s, { rt with
        topology := rebuildTopology s.nodes
        paths := s.paths.foldl (fun paths p => paths.insert p.id p) ∅
        epoch := s.epoch })

/-- `Runtime::load`. -/
def load (fs : Persist.Files) (path : String) (beyond : Nat → UInt8) : Result Snapshot × Runtime :=
  rt.loadSnapshot (Persist.load fs path beyond)

end Runtime

/-! ### The runtime with its loads as a machine -/

/-- A call on a runtime, or a load from the files as they are at that moment. -/
inductive RuntimeEvent where
  | call (c : RuntimeCall)
  | load (fs : Persist.Files) (path : String) (beyond : Nat → UInt8)

namespace Runtime

/-- The runtime after an event. -/
def react (rt : Runtime) : RuntimeEvent → Runtime
  | .call c => rt.step c
  | .load fs path beyond => (rt.load fs path beyond).2

/-- The call that an event makes on the registry. -/
def registryCall (rt : Runtime) : RuntimeEvent → Option RegistryCall
  | .call (.reserve req) => some (.reserve req)
  | .call (.release id gen) => some (.release id rt.boot gen rt.epoch)
  | _ => none

/-- The registry changes by the calls made on it, and by nothing else. -/
lemma reservations_react (rt : Runtime) (e : RuntimeEvent) :
    (rt.react e).reservations =
      match rt.registryCall e with
      | some call => rt.reservations.step call
      | none => rt.reservations := by
  cases e with
  | load fs path beyond =>
      change (rt.loadSnapshot (Persist.load fs path beyond)).2.reservations = rt.reservations
      unfold loadSnapshot
      split <;> rfl
  | call c =>
      cases c with
      | setAuthority | buildPaths | select | release | refreshMeasured | ageFreshness => rfl
      | addEndpoint id bdf kind gen prov parent =>
          obtain ⟨topology, seq, h⟩ := rt.step_addEndpoint id bdf kind gen prov parent
          rw [react, h]
          rfl
      | discoverWindows devices =>
          obtain ⟨topology, seq, h⟩ := rt.step_discoverWindows devices
          rw [react, h]
          rfl
      | ingestMeasurement m =>
          obtain ⟨measurements, seq, h⟩ := rt.step_ingestMeasurement m
          rw [react, h]
          rfl
      | reserve req =>
          obtain ⟨seq, h⟩ := rt.step_reserve req
          rw [react, h]
          rfl

end Runtime

end PcieFabric
