import PcieFabric.Lib.Framing
import PcieFabric.Snapshot.Snapshot

/-!
The bytes that `semantic_digest` feeds to its hash (`snapshot.hpp`).

* `HashedNode`, `HashedPath`, `HashedMeasurement`: the values it hashes of the records,
  with their bytes as `fields`; `Snapshot.hashed` are those of a snapshot.
* `digestInput`, `semanticDigest_eq`: the byte stream, and the digest as its hash.
* `SameFraming`: two snapshots have their strings of the same lengths and the same
  optional values in the same places.
* `digestInput_determines`: of snapshots with one stream the hashed values are the same
  exactly if the framing is.
-/

namespace PcieFabric

/-! ### What is hashed -/

/-- The bytes of a value that may be absent: no bytes then. -/
def optionalBytes : Option UInt64 → List UInt8
  | some v => Writer.u64 v
  | none => []

/-- The values that are hashed of a node. -/
structure HashedNode where
  bdf : List UInt8
  kind : UInt32
  generation : UInt64
  provenance : UInt32
  parent : Option UInt64
  vendor : List UInt8
  device : List UInt8
  className : List UInt8
deriving DecidableEq

/-- The bytes of a hashed node, value by value. -/
def HashedNode.fields (v : HashedNode) : List (List UInt8) :=
  [v.bdf, Writer.u32 v.kind, Writer.u64 v.generation, Writer.u32 v.provenance,
    optionalBytes v.parent, v.vendor, v.device, v.className]

/-- The values that are hashed of this node. -/
def Node.hashed (n : Node) : HashedNode where
  bdf := n.bdf.canonical
  kind := n.kind.code.toUInt32
  generation := n.generation.value
  provenance := n.provenance.code.toUInt32
  parent := n.parent.map (·.value)
  vendor := n.vendor
  device := n.device
  className := n.className

/-- The values that are hashed of a path. -/
structure HashedPath where
  id : UInt64
  generation : UInt64
  source : UInt64
  destination : UInt64
  pathClass : UInt32
  locality : UInt32
  freshness : UInt32
  theoretical : Option UInt64
  bestMeasured : Option UInt64
deriving DecidableEq

/-- The bytes of a hashed path, value by value. -/
def HashedPath.fields (v : HashedPath) : List (List UInt8) :=
  [Writer.u64 v.id, Writer.u64 v.generation, Writer.u64 v.source, Writer.u64 v.destination,
    Writer.u32 v.pathClass, Writer.u32 v.locality, Writer.u32 v.freshness,
    optionalBytes v.theoretical, optionalBytes v.bestMeasured]

/-- The values that are hashed of this path. -/
def Path.hashed (p : Path) : HashedPath where
  id := p.id.value
  generation := p.generation.value
  source := p.source.value
  destination := p.destination.value
  pathClass := p.pathClass.code.toUInt32
  locality := p.locality.code.toUInt32
  freshness := p.freshness.state.code.toUInt32
  theoretical := p.theoretical.map (·.effectiveBytesPerSec.value.val.toUInt64)
  bestMeasured := p.bestMeasured.map (·.value.bits)

/-- The values that are hashed of a measurement. -/
structure HashedMeasurement where
  id : UInt64
  source : UInt64
  destination : UInt64
  transferClass : UInt32
  bytes : UInt64
  throughput : UInt64
deriving DecidableEq

/-- The bytes of a hashed measurement, value by value. -/
def HashedMeasurement.fields (v : HashedMeasurement) : List (List UInt8) :=
  [Writer.u64 v.id, Writer.u64 v.source, Writer.u64 v.destination, Writer.u32 v.transferClass,
    Writer.u64 v.bytes, Writer.u64 v.throughput]

/-- The values that are hashed of this measurement. -/
def Measurement.hashed (m : Measurement) : HashedMeasurement where
  id := m.id.value
  source := m.source.value
  destination := m.destination.value
  transferClass := m.transferClass.code.toUInt32
  bytes := m.bytes.value
  throughput := m.throughput.value.val.toUInt64

/-- The values that are hashed of a snapshot. -/
structure HashedSnapshot where
  sequence : UInt64
  epoch : CoordinatorEpoch
  nodes : List HashedNode
  paths : List HashedPath
  measurements : List HashedMeasurement
deriving DecidableEq

namespace Snapshot

/-- The values that are hashed of this snapshot. -/
def hashed (s : Snapshot) : HashedSnapshot where
  sequence := s.sequence
  epoch := s.epoch
  nodes := s.nodes.map Node.hashed
  paths := s.paths.map Path.hashed
  measurements := s.measurements.map Measurement.hashed

end Snapshot

/-- The bytes that `semantic_digest` feeds to its hash before the last mixing step. -/
def digestInput (s : Snapshot) : List UInt8 := List.flatten [
  Writer.u64 s.sequence, Writer.u64 s.epoch.value,
  written (fun n : Node => n.hashed.fields) s.nodes,
  written (fun p : Path => p.hashed.fields) s.paths,
  written (fun m : Measurement => m.hashed.fields) s.measurements]

lemma fnv1a64_append (h : UInt64) (a b : List UInt8) :
    fnv1a64 h (a ++ b) = fnv1a64 (fnv1a64 h a) b := List.foldl_append

lemma fnv1a64_nil (h : UInt64) : fnv1a64 h [] = h := rfl

/-- Hashing record by record is hashing what the records are written as. -/
lemma foldl_digest {α : Type} {digest : UInt64 → α → UInt64} {fields : α → List (List UInt8)}
    (hdigest : ∀ h x, digest h x = fnv1a64 h (fields x).flatten) (xs : List α) (h : UInt64) :
    xs.foldl digest h = fnv1a64 h (written fields xs) := by
  induction xs generalizing h with
  | nil => rfl
  | cons x xs ih =>
      rw [List.foldl_cons, ih, hdigest, written, written, List.flatMap_cons, fnv1a64_append]

lemma digestNode_eq (h : UInt64) (n : Node) :
    digestNode h n = fnv1a64 h n.hashed.fields.flatten := by
  simp only [HashedNode.fields, Node.hashed, List.flatten_cons, List.flatten_nil, fnv1a64_append,
    fnv1a64_nil]
  cases hparent : n.parent <;> simp [digestNode, hparent, optionalBytes, fnv1a64U32, fnv1a64U64,
    fnv1a64_nil]

lemma digestPath_eq (h : UInt64) (p : Path) :
    digestPath h p = fnv1a64 h p.hashed.fields.flatten := by
  simp only [HashedPath.fields, Path.hashed, List.flatten_cons, List.flatten_nil, fnv1a64_append,
    fnv1a64_nil]
  cases htheoretical : p.theoretical <;> cases hmeasured : p.bestMeasured <;>
    simp [digestPath, htheoretical, hmeasured, optionalBytes, fnv1a64U32, fnv1a64U64,
      fnv1a64_nil, Writer.f64]

lemma digestMeasurement_eq (h : UInt64) (m : Measurement) :
    digestMeasurement h m = fnv1a64 h m.hashed.fields.flatten := by
  simp only [HashedMeasurement.fields, Measurement.hashed, List.flatten_cons, List.flatten_nil,
    fnv1a64_append, fnv1a64_nil]
  rfl

/-- **The digest is the hash of the stream**, mixed with itself. -/
theorem semanticDigest_eq (s : Snapshot) : semanticDigest s =
    let h := fnv1a64 1469598103934665603 (digestInput s)
    fnv1a64U64 h (h ^^^ 0x9E3779B97F4A7C15) := by
  simp only [semanticDigest, foldl_digest digestNode_eq, foldl_digest digestPath_eq,
    foldl_digest digestMeasurement_eq, digestInput, List.flatten_cons, List.flatten_nil,
    List.append_nil, fnv1a64_append, fnv1a64U64]

/-! ### What the stream determines -/

/-- What the stream does not tell of a node: whether there is a parent, and where the
strings end. -/
def HashedNode.framing (v : HashedNode) : Bool × Nat × Nat × Nat :=
  (v.parent.isSome, v.vendor.length, v.device.length, v.className.length)

/-- What it does not tell of a path: which throughputs are present. -/
def HashedPath.framing (v : HashedPath) : Bool × Bool :=
  (v.theoretical.isSome, v.bestMeasured.isSome)

/-- The two snapshots have as many nodes and paths, with strings of the same lengths and
the same optional values present. -/
def SameFraming (s₁ s₂ : Snapshot) : Prop :=
  s₁.hashed.nodes.map HashedNode.framing = s₂.hashed.nodes.map HashedNode.framing ∧
    s₁.hashed.paths.map HashedPath.framing = s₂.hashed.paths.map HashedPath.framing

@[simp] lemma length_u32 (v : UInt32) : (Writer.u32 v).length = 4 := LittleEndian.length_bytes _ _

@[simp] lemma length_u64 (v : UInt64) : (Writer.u64 v).length = 8 := LittleEndian.length_bytes _ _

/-- The bytes of optional values that are both present or both absent are as many. -/
lemma length_optionalBytes {v w : Option UInt64} (h : v.isSome = w.isSome) :
    (optionalBytes v).length = (optionalBytes w).length := by
  cases v <;> cases w <;> simp_all [optionalBytes]

/-- And they determine the value. -/
lemma optionalBytes_inj {v w : Option UInt64} (h : v.isSome = w.isSome)
    (hbytes : optionalBytes v = optionalBytes w) : v = w := by
  cases v with
  | none => cases w with
    | none => rfl
    | some y => cases h
  | some x => cases w with
    | none => cases h
    | some y => rw [Writer.u64_injective hbytes]

/-- Nodes are known from their bytes, given the framing. -/
lemma framed_nodes :
    Framed (fun n : Node => n.hashed.fields) (fun n => n.hashed.framing) Node.hashed where
  lengths x y h := by
    simp only [HashedNode.framing, Prod.mk.injEq] at h
    obtain ⟨hparent, hvendor, hdevice, hclass⟩ := h
    have hbdf : x.hashed.bdf.length = y.hashed.bdf.length := rfl
    simp only [HashedNode.fields, List.map_cons, List.map_nil, length_u32, length_u64,
      length_optionalBytes hparent, hbdf, hvendor, hdevice, hclass]
  value_eq x y h hfields := by
    simp only [HashedNode.framing, Prod.mk.injEq] at h
    simp only [HashedNode.fields, List.cons.injEq, and_true] at hfields
    obtain ⟨hbdf, hkind, hgeneration, hprovenance, hparent, hvendor, hdevice, hclass⟩ := hfields
    exact HashedNode.mk.injEq .. ▸ ⟨hbdf, Writer.u32_injective hkind,
      Writer.u64_injective hgeneration, Writer.u32_injective hprovenance,
      optionalBytes_inj h.1 hparent, hvendor, hdevice, hclass⟩

/-- So are paths. -/
lemma framed_paths :
    Framed (fun p : Path => p.hashed.fields) (fun p => p.hashed.framing) Path.hashed where
  lengths x y h := by
    obtain ⟨htheoretical, hmeasured⟩ := Prod.mk.inj h
    simp only [HashedPath.fields, List.map_cons, List.map_nil, length_u32, length_u64,
      length_optionalBytes htheoretical, length_optionalBytes hmeasured]
  value_eq x y h hfields := by
    obtain ⟨ht, hm⟩ := Prod.mk.inj h
    simp only [HashedPath.fields, List.cons.injEq, and_true] at hfields
    obtain ⟨hid, hgeneration, hsource, hdestination, hclass, hlocality, hfreshness,
      htheoretical, hmeasured⟩ := hfields
    exact HashedPath.mk.injEq .. ▸ ⟨Writer.u64_injective hid, Writer.u64_injective hgeneration,
      Writer.u64_injective hsource, Writer.u64_injective hdestination,
      Writer.u32_injective hclass, Writer.u32_injective hlocality,
      Writer.u32_injective hfreshness, optionalBytes_inj ht htheoretical,
      optionalBytes_inj hm hmeasured⟩

/-- Measurements need no framing: all of them are written in 44 bytes. -/
lemma framed_measurements :
    Framed (fun m : Measurement => m.hashed.fields) (fun _ => ()) Measurement.hashed where
  lengths x y _ := by
    simp only [HashedMeasurement.fields, List.map_cons, List.map_nil, length_u32, length_u64]
  value_eq x y _ hfields := by
    simp only [HashedMeasurement.fields, List.cons.injEq, and_true] at hfields
    obtain ⟨hid, hsource, hdestination, hclass, hbytes, hthroughput⟩ := hfields
    exact HashedMeasurement.mk.injEq .. ▸ ⟨Writer.u64_injective hid,
      Writer.u64_injective hsource, Writer.u64_injective hdestination,
      Writer.u32_injective hclass, Writer.u64_injective hbytes,
      Writer.u64_injective hthroughput⟩

/-- So equally long bytes are those of equally many measurements. -/
lemma length_written_measurements (ms : List Measurement) :
    (written (fun m => m.hashed.fields) ms).length = 44 * ms.length := by
  induction ms with
  | nil => rfl
  | cons m ms ih =>
      rw [written] at ih ⊢
      rw [List.flatMap_cons, List.length_append, ih, List.length_cons]
      simp only [HashedMeasurement.fields, List.length_flatten, List.map_cons, List.map_nil,
        length_u32, length_u64, List.sum_cons, List.sum_nil]
      omega

/-- Under one framing the stream gives the three lists. -/
lemma hashed_lists_eq {s₁ s₂ : Snapshot} (hframing : SameFraming s₁ s₂)
    (h : digestInput s₁ = digestInput s₂) :
    s₁.hashed.nodes = s₂.hashed.nodes ∧ s₁.hashed.paths = s₂.hashed.paths ∧
      s₁.hashed.measurements = s₂.hashed.measurements := by
  obtain ⟨hnodes, hpaths⟩ := hframing
  simp only [Snapshot.hashed, List.map_map] at hnodes hpaths
  simp only [digestInput, List.flatten_cons, List.flatten_nil, List.append_nil] at h
  obtain ⟨-, h⟩ := List.append_inj h (by rw [length_u64, length_u64])
  obtain ⟨-, h⟩ := List.append_inj h (by rw [length_u64, length_u64])
  obtain ⟨hnodeBytes, h⟩ := List.append_inj h (framed_nodes.length_eq hnodes)
  obtain ⟨hpathBytes, hmeasurementBytes⟩ := List.append_inj h (framed_paths.length_eq hpaths)
  have hcount : s₁.measurements.length = s₂.measurements.length := by
    have hlen := congrArg List.length hmeasurementBytes
    rw [length_written_measurements, length_written_measurements] at hlen
    omega
  have hmeasurements : s₁.measurements.map (fun _ => ()) = s₂.measurements.map (fun _ => ()) := by
    rw [List.map_const', List.map_const', hcount]
  exact ⟨framed_nodes.map_eq hnodes hnodeBytes, framed_paths.map_eq hpaths hpathBytes,
    framed_measurements.map_eq hmeasurements hmeasurementBytes⟩

/-- **What the stream determines.** Snapshots with one stream have the same sequence and
epoch, and the values hashed of them are the same exactly if their framing is. -/
theorem digestInput_determines {s₁ s₂ : Snapshot} (h : digestInput s₁ = digestInput s₂) :
    (s₁.sequence = s₂.sequence ∧ s₁.epoch = s₂.epoch) ∧
      (s₁.hashed = s₂.hashed ↔ SameFraming s₁ s₂) := by
  have hcounters : s₁.sequence = s₂.sequence ∧ s₁.epoch = s₂.epoch := by
    simp only [digestInput, List.flatten_cons] at h
    obtain ⟨hsequence, h⟩ := List.append_inj h (by rw [length_u64, length_u64])
    obtain ⟨hepoch, -⟩ := List.append_inj h (by rw [length_u64, length_u64])
    exact ⟨Writer.u64_injective hsequence, congrArg StrongId.mk (Writer.u64_injective hepoch)⟩
  refine ⟨hcounters, fun hhashed => ?_, fun hframing => ?_⟩
  · rw [SameFraming, hhashed]
    exact ⟨rfl, rfl⟩
  · obtain ⟨hnodes, hpaths, hmeasurements⟩ := hashed_lists_eq hframing h
    exact HashedSnapshot.mk.injEq .. ▸ ⟨hcounters.1, hcounters.2, hnodes, hpaths, hmeasurements⟩

/-- A snapshot of one node with the given vendor and device strings. -/
def snapshotOfStrings (vendor device : List UInt8) : Snapshot where
  nodes := [{ vendor := vendor, device := device }]

/-- Two snapshots differ in where a byte belongs, and their stream is one. -/
theorem byte_moved_between_strings :
    ((snapshotOfStrings [97, 98] []).sequence = (snapshotOfStrings [97] [98]).sequence ∧
      (snapshotOfStrings [97, 98] []).epoch = (snapshotOfStrings [97] [98]).epoch) ∧
    ((snapshotOfStrings [97, 98] []).hashed = (snapshotOfStrings [97] [98]).hashed ↔
      SameFraming (snapshotOfStrings [97, 98] []) (snapshotOfStrings [97] [98])) :=
  digestInput_determines (by decide +kernel)

/-- The stream does not determine what is hashed: a byte moved from one string to the
next leaves it the same. -/
theorem digestInput_ambiguous :
    ¬ ∀ s₁ s₂ : Snapshot, digestInput s₁ = digestInput s₂ → s₁.hashed = s₂.hashed := fun h =>
  absurd (h (snapshotOfStrings [97, 98] []) (snapshotOfStrings [97] [98]) (by decide +kernel))
    (by decide +kernel)

end PcieFabric
