import PcieFabric.Reservation.Registry
import PcieFabric.Runtime.BuildPath
import PcieFabric.Selection.Request
import PcieFabric.Snapshot.Measurement
import PcieFabric.Topology.Discovery

/-!
The runtime facade (`runtime.hpp`): a hierarchy, the paths over it, the
measurements, the reservations and an authority, behind one lock.

* `Runtime.buildPaths`: the two loops that write a path for each endpoint pair
  and one for each endpoint below a root complex.
* `setAuthority`, `addEndpoint`, `discoverWindows`, `reserve`, `release`,
  `ingestMeasurement`, `refreshMeasured`, `ageFreshness`: the other calls that
  write, each under the lock and so one step.
* `RuntimeCall`, `Runtime.step`: the calls as inputs of a machine;
  `getElem?_step` is what a call does to the stored paths.
-/

namespace PcieFabric

/-- The limits that the constructor of `Runtime` sets. -/
def runtimeLimits : ReservationLimits := ⟨⟨1099511627776⟩, ⟨3600000⟩⟩

/-- `Runtime`. -/
structure Runtime where
  topology : Topology := {}
  paths : IdMap .pathId Path := ∅
  measurements : MeasurementStore := {}
  reservations : ReservationRegistry := { limits := runtimeLimits }
  epoch : CoordinatorEpoch := default
  boot : WorkerBootId := default
  hostGen : HostGeneration := default
  hostGenU64 : UInt64 := 0
  topologySeq : UInt64 := 0
  measurementSeq : UInt64 := 0
  reservationSeq : UInt64 := 0

namespace Runtime

variable (rt : Runtime)

/-- `Runtime::set_authority`. -/
def setAuthority (epoch : CoordinatorEpoch) (boot : WorkerBootId) (host : HostGeneration)
    (hostGen : UInt64) : Runtime :=
  { rt with epoch := epoch, boot := boot, hostGen := host, hostGenU64 := hostGen }

/-- `Runtime::add_endpoint`. -/
def addEndpoint (id : PciNodeId) (bdf : Bdf) (kind : DeviceClass) (gen : PciNodeGeneration)
    (prov : Provenance) (parent : PciNodeId) : Result PciNodeId × Runtime :=
  match rt.topology.addEndpoint id bdf kind gen prov parent with
  | (.ok k, topology) => (.ok k, { rt with topology, topologySeq := rt.topologySeq + 1 })
  | (.error e, topology) => (.error e, { rt with topology })

/-- `Runtime::discover_windows`, over what the enumeration of the host's devices
returned. -/
def discoverWindows (devices : Result (List RawPciDevice)) : Result Unit × Runtime :=
  match Discovery.buildTopology devices with
  | .error e => (.error e, rt)
  | .ok topology => (.ok (), { rt with topology, topologySeq := rt.topologySeq + 1 })

/-! ### `build_paths` -/

/-- The indices of the two nested loops over `n` endpoints, in their order. -/
def indexPairs (n : Nat) : List (Nat × Nat) :=
  (List.range n).flatMap fun i => (List.range' (i + 1) (n - (i + 1))).map fun j => (i, j)

/-- The id of the path between the endpoints at `i` and `j` of `n`, computed in
64 bits. -/
def pairId (n i j : Nat) : PathId := ⟨UInt64.ofNat (i * n + j + 1)⟩

/-- The id of the path from an endpoint to its root complex. -/
def hostId (e : PciNodeId) : PathId := ⟨0xF0000000 + e.value⟩

/-- The path that both loops store: built on the current hierarchy as generation
1, and `CURRENT`. -/
def currentPath (id : PathId) (src dst : PciNodeId) : Path :=
  { buildPath rt.topology id ⟨1⟩ src dst rt.epoch rt.boot with
    freshness := ⟨Freshness.current, 0⟩ }

/-- The paths after the loop over the endpoint pairs. -/
def buildPairPaths (eps : List PciNodeId) (paths : IdMap .pathId Path) : IdMap .pathId Path :=
  (indexPairs eps.length).foldl (fun paths ij =>
    let id := pairId eps.length ij.1 ij.2
    paths.insert id (rt.currentPath id (eps.getD ij.1 default) (eps.getD ij.2 default))) paths

/-- The paths after the loop that anchors endpoints at their root complex. -/
def buildHostPaths (eps : List PciNodeId) (paths : IdMap .pathId Path) : IdMap .pathId Path :=
  eps.foldl (fun paths e =>
    match rt.topology.rootComplexOf e with
    | none => paths
    | some rc => paths.insert (hostId e) (rt.currentPath (hostId e) e rc)) paths

/-- `Runtime::build_paths`. -/
def buildPaths : Runtime :=
  let eps := rt.topology.endpoints
  { rt with paths := rt.buildHostPaths eps (rt.buildPairPaths eps rt.paths) }

/-! ### The other calls -/

/-- `Runtime::reserve`. -/
def reserve (req : Reservation) : Result Reservation × Runtime :=
  match rt.reservations.reserve req with
  | (.ok r, reservations) =>
      (.ok r, { rt with reservations, reservationSeq := rt.reservationSeq + 1 })
  | (.error e, reservations) => (.error e, { rt with reservations })

/-- `Runtime::release`: under the authority that is current now. -/
def release (id : ReservationId) (gen : ReservationGeneration) : Result Unit × Runtime :=
  let (r, reservations) := rt.reservations.release id rt.boot gen rt.epoch
  (r, { rt with reservations })

/-- `Runtime::ingest_measurement`. -/
def ingestMeasurement (m : Measurement) : Result Unit × Runtime :=
  match rt.measurements.ingest { m with path := some ⟨0⟩, pathGeneration := some ⟨0⟩ } with
  | (.ok r, measurements) =>
      (.ok r, { rt with measurements, measurementSeq := rt.measurementSeq + 1 })
  | (.error e, measurements) => (.error e, { rt with measurements })

/-- The loop body of `Runtime::refresh_measured`. -/
def attachMeasured (p : Path) : Path :=
  let latest := rt.measurements.latest p.source p.destination
  match (latest TransferClass.pinnedH2d).or (latest TransferClass.pageableH2d) with
  | none => p
  | some m =>
      { p with bestMeasured := some m.throughput, measuredProvenance := Provenance.measured }

/-- `Runtime::refresh_measured`. -/
def refreshMeasured : Runtime := { rt with paths := rt.paths.map fun _ p => rt.attachMeasured p }

/-- The loop body of `Runtime::age_freshness`. -/
def agePath (p : Path) : Path :=
  let f := p.freshness
  let state :=
    if f.state = Freshness.current then Freshness.aging
    else if f.state = Freshness.aging ∧ 60 < f.ageMs then Freshness.stale
    else f.state
  { p with freshness := ⟨state, f.ageMs + 1⟩ }

/-- `Runtime::age_freshness`. -/
def ageFreshness : Runtime := { rt with paths := rt.paths.map fun _ p => agePath p }

end Runtime

/-! ### The runtime as a machine -/

/-- A call on a runtime. -/
inductive RuntimeCall where
  | setAuthority (epoch : CoordinatorEpoch) (boot : WorkerBootId) (host : HostGeneration)
      (hostGen : UInt64)
  | addEndpoint (id : PciNodeId) (bdf : Bdf) (kind : DeviceClass) (gen : PciNodeGeneration)
      (prov : Provenance) (parent : PciNodeId)
  | discoverWindows (devices : Result (List RawPciDevice))
  | buildPaths
  | select (req : SelectionRequest)
  | reserve (req : Reservation)
  | release (id : ReservationId) (gen : ReservationGeneration)
  | ingestMeasurement (m : Measurement)
  | refreshMeasured
  | ageFreshness

/-- The runtime after a call, whatever the call returns. -/
def Runtime.step (rt : Runtime) : RuntimeCall → Runtime
  | .setAuthority epoch boot host hostGen => rt.setAuthority epoch boot host hostGen
  | .addEndpoint id bdf kind gen prov parent => (rt.addEndpoint id bdf kind gen prov parent).2
  | .discoverWindows devices => (rt.discoverWindows devices).2
  | .buildPaths => rt.buildPaths
  -- the selector is stateless, and a selection only reads the paths
  | .select _ => rt
  | .reserve req => (rt.reserve req).2
  | .release id gen => (rt.release id gen).2
  | .ingestMeasurement m => (rt.ingestMeasurement m).2
  | .refreshMeasured => rt.refreshMeasured
  | .ageFreshness => rt.ageFreshness

namespace Runtime

/-! ### What a call writes -/

/-- `add_endpoint` writes the hierarchy and its counter. -/
lemma step_addEndpoint (rt : Runtime) (id : PciNodeId) (bdf : Bdf) (kind : DeviceClass)
    (gen : PciNodeGeneration) (prov : Provenance) (parent : PciNodeId) :
    ∃ topology seq, rt.step (.addEndpoint id bdf kind gen prov parent) =
      { rt with topology := topology, topologySeq := seq } := by
  change ∃ topology seq, (rt.addEndpoint id bdf kind gen prov parent).2 = _
  unfold addEndpoint
  split <;> exact ⟨_, _, rfl⟩

/-- `discover_windows` writes the hierarchy and its counter. -/
lemma step_discoverWindows (rt : Runtime) (devices : Result (List RawPciDevice)) :
    ∃ topology seq, rt.step (.discoverWindows devices) =
      { rt with topology := topology, topologySeq := seq } := by
  change ∃ topology seq, (rt.discoverWindows devices).2 = _
  unfold discoverWindows
  split <;> exact ⟨_, _, rfl⟩

/-- `reserve` writes what the registry makes of it, and the counter. -/
lemma step_reserve (rt : Runtime) (req : Reservation) :
    ∃ seq, rt.step (.reserve req) =
      { rt with reservations := (rt.reservations.reserve req).2, reservationSeq := seq } := by
  change ∃ seq, (rt.reserve req).2 = _
  unfold reserve
  split <;> next h => rw [h]; exact ⟨_, rfl⟩

/-- `ingest_measurement` writes the measurements and their counter. -/
lemma step_ingestMeasurement (rt : Runtime) (m : Measurement) :
    ∃ measurements seq, rt.step (.ingestMeasurement m) =
      { rt with measurements := measurements, measurementSeq := seq } := by
  change ∃ measurements seq, (rt.ingestMeasurement m).2 = _
  unfold ingestMeasurement
  split <;> exact ⟨_, _, rfl⟩

/-- What a call may do to a stored path, apart from `build_paths`. -/
inductive PathUpdate (rt : Runtime) : (Path → Path) → Prop where
  | unchanged : PathUpdate rt fun p => p
  | measured : PathUpdate rt rt.attachMeasured
  | aged : PathUpdate rt agePath

/-- What a call other than `build_paths` does to each stored path. -/
def pathUpdate (rt : Runtime) : RuntimeCall → Path → Path
  | .refreshMeasured => rt.attachMeasured
  | .ageFreshness => agePath
  | _ => fun p => p

/-- A call other than `build_paths` adds and drops no path, and does its update
to each. -/
lemma getElem?_step (rt : Runtime) {c : RuntimeCall} (hc : c ≠ .buildPaths) (id : PathId) :
    (rt.step c).paths[id]? = (rt.paths[id]?).map (rt.pathUpdate c) := by
  have hsame : (rt.step c).paths = rt.paths →
      (rt.step c).paths[id]? = (rt.paths[id]?).map fun p => p := by
    intro h
    rw [h]
    exact Option.map_id'.symm
  cases c with
  | buildPaths => exact absurd rfl hc
  | setAuthority epoch boot host hostGen => exact hsame rfl
  | addEndpoint id bdf kind gen prov parent =>
      obtain ⟨topology, seq, h⟩ := rt.step_addEndpoint id bdf kind gen prov parent
      exact hsame (by rw [h])
  | discoverWindows devices =>
      obtain ⟨topology, seq, h⟩ := rt.step_discoverWindows devices
      exact hsame (by rw [h])
  | select req => exact hsame rfl
  | reserve req =>
      obtain ⟨seq, h⟩ := rt.step_reserve req
      exact hsame (by rw [h])
  | release id gen => exact hsame rfl
  | ingestMeasurement m =>
      obtain ⟨measurements, seq, h⟩ := rt.step_ingestMeasurement m
      exact hsame (by rw [h])
  | refreshMeasured => exact Std.ExtTreeMap.getElem?_map
  | ageFreshness => exact Std.ExtTreeMap.getElem?_map

/-- The update of a call is one of the three. -/
lemma paths_step (rt : Runtime) {c : RuntimeCall} (hc : c ≠ .buildPaths) :
    ∃ f, PathUpdate rt f ∧ ∀ id : PathId, (rt.step c).paths[id]? = (rt.paths[id]?).map f := by
  refine ⟨rt.pathUpdate c, ?_, rt.getElem?_step hc⟩
  cases c with
  | refreshMeasured => exact .measured
  | ageFreshness => exact .aged
  | _ => exact .unchanged

end Runtime

end PcieFabric
