import PcieFabric.Codec.Codec
import PcieFabric.Reservation.Registry
import PcieFabric.Snapshot.Measurement
import PcieFabric.Snapshot.Path
import PcieFabric.Topology.Basic

/-!
Snapshots and their semantic digest (`snapshot.hpp`).

* `Snapshot`: the state that is persisted and transmitted.
* `fnv1a64`, `semanticDigest`: FNV-1a over the semantic fields.
  `semanticDigest_congr`: what it depends on.
-/

namespace PcieFabric

/-- `Snapshot`. -/
structure Snapshot where
  sequence : UInt64 := 0
  hostGeneration : HostGeneration := default
  epoch : CoordinatorEpoch := default
  nodes : List Node := []
  paths : List Path := []
  measurements : List Measurement := []
  reservations : List Reservation := []
  policies : List PolicyId := []
  semanticDigest : UInt64 := 0
deriving DecidableEq

/-- `fnv1a_64`. -/
def fnv1a64 (h : UInt64) (bytes : List UInt8) : UInt64 :=
  bytes.foldl (fun h b => (h ^^^ b.toUInt64) * 1099511628211) h

/-- `fnv1a_64_u64`; the host is little-endian. -/
def fnv1a64U64 (h v : UInt64) : UInt64 := fnv1a64 h (Writer.u64 v)

/-- `fnv1a_64_u32`. -/
def fnv1a64U32 (h : UInt64) (v : UInt32) : UInt64 := fnv1a64 h (Writer.u32 v)

/-- The loop body of `semantic_digest` over the nodes. -/
def digestNode (h : UInt64) (n : Node) : UInt64 :=
  let h := fnv1a64 h n.bdf.canonical
  let h := fnv1a64U32 h n.kind.code.toUInt32
  let h := fnv1a64U64 h n.generation.value
  let h := fnv1a64U32 h n.provenance.code.toUInt32
  let h := match n.parent with
    | some p => fnv1a64U64 h p.value
    | none => h
  let h := fnv1a64 h n.vendor
  let h := fnv1a64 h n.device
  fnv1a64 h n.className

/-- The loop body of `semantic_digest` over the paths. -/
def digestPath (h : UInt64) (p : Path) : UInt64 :=
  let h := fnv1a64U64 h p.id.value
  let h := fnv1a64U64 h p.generation.value
  let h := fnv1a64U64 h p.source.value
  let h := fnv1a64U64 h p.destination.value
  let h := fnv1a64U32 h p.pathClass.code.toUInt32
  let h := fnv1a64U32 h p.locality.code.toUInt32
  let h := fnv1a64U32 h p.freshness.state.code.toUInt32
  let h := match p.theoretical with
    | some e => fnv1a64U64 h e.effectiveBytesPerSec.value.val.toUInt64
    | none => h
  match p.bestMeasured with
  | some bv => fnv1a64 h (Writer.f64 bv.value)
  | none => h

/-- The loop body of `semantic_digest` over the measurements. This is the source's
digest for throughputs in `[0, 2^64)`; beyond it the cast of the source is undefined
and saturates here. -/
def digestMeasurement (h : UInt64) (m : Measurement) : UInt64 :=
  let h := fnv1a64U64 h m.id.value
  let h := fnv1a64U64 h m.source.value
  let h := fnv1a64U64 h m.destination.value
  let h := fnv1a64U32 h m.transferClass.code.toUInt32
  let h := fnv1a64U64 h m.bytes.value
  fnv1a64U64 h m.throughput.value.val.toUInt64

/-- `semantic_digest`. -/
def semanticDigest (s : Snapshot) : UInt64 :=
  let h : UInt64 := 1469598103934665603
  let h := fnv1a64U64 h s.sequence
  let h := fnv1a64U64 h s.epoch.value
  let h := s.nodes.foldl digestNode h
  let h := s.paths.foldl digestPath h
  let h := s.measurements.foldl digestMeasurement h
  fnv1a64U64 h (h ^^^ 0x9E3779B97F4A7C15)

/-- The digest depends on the two counters and on what the records leave of a
digest, list by list. -/
lemma semanticDigest_congr {s s' : Snapshot} (hsequence : s.sequence = s'.sequence)
    (hepoch : s.epoch = s'.epoch)
    (hnodes : ∀ d, s.nodes.foldl digestNode d = s'.nodes.foldl digestNode d)
    (hpaths : ∀ d, s.paths.foldl digestPath d = s'.paths.foldl digestPath d)
    (hmeasurements : ∀ d, s.measurements.foldl digestMeasurement d =
      s'.measurements.foldl digestMeasurement d) : semanticDigest s = semanticDigest s' := by
  rw [semanticDigest, semanticDigest, hsequence, hepoch, hnodes, hpaths, hmeasurements]

end PcieFabric
