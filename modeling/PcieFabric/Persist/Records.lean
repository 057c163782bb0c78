import PcieFabric.Snapshot.Snapshot

/-!
The persisted records and the snapshot stream (`persistence.hpp`).

* `encodeNode`, `encodePath`, `encodeMeasurement`, `encodeReservation`: the
  `encode` overloads, as the bytes they append.
* `decodeNode`, `decodePath`, `decodeMeasurement`, `decodeReservation`: the
  decoders, in the order and with the checks and errors of the source.
* `serialize`, `deserialize`: the whole stream.
-/

namespace PcieFabric.Persist

/-! ### Encoding -/

/-- A presence flag and the value behind it. -/
def encodeOption {α : Type} (w : α → List UInt8) : Option α → List UInt8
  | some a => Writer.u8 1 ++ w a
  | none => Writer.u8 0

/-- A 32-bit count and the values behind it. -/
def encodeList {α : Type} (w : α → List UInt8) (as : List α) : List UInt8 :=
  Writer.u32 (UInt32.ofNat as.length) ++ as.flatMap w

/-- `encode(Writer&, const Node&)`. -/
def encodeNode (n : Node) : List UInt8 := List.flatten [
  Writer.string n.bdf.canonical,
  Writer.u32 n.kind.code.toUInt32,
  Writer.u64 n.generation.value,
  Writer.u8 n.provenance.code,
  encodeOption (fun p => Writer.u64 p.value) n.parent,
  encodeList (fun c => Writer.u64 c.value) n.children,
  Writer.string n.vendor, Writer.string n.device,
  Writer.string n.className, Writer.string n.driver,
  Writer.u8 (if n.removed then 1 else 0)]

/-- The theoretical envelope inside `encode(Writer&, const Path&)`. -/
def encodeEnvelope (e : LinkEnvelope) : List UInt8 :=
  Writer.u8 e.generation.code ++ Writer.u16 e.lanes.value

/-- The measured bandwidth and its provenance inside `encode(Writer&, const Path&)`. -/
def encodeMeasured (m : BytesPerSecond × Provenance) : List UInt8 :=
  Writer.f64 m.1.value ++ Writer.u8 m.2.code

/-- `encode(Writer&, const Path&)`. -/
def encodePath (p : Path) : List UInt8 := List.flatten [
  Writer.u64 p.id.value, Writer.u64 p.generation.value,
  Writer.u64 p.source.value, Writer.u64 p.destination.value,
  Writer.u8 p.pathClass.code,
  encodeList (fun x => Writer.u64 x.value) p.bridgeChain,
  encodeList (fun x => Writer.u64 x.value) p.links,
  Writer.u8 p.locality.code,
  encodeOption encodeEnvelope p.theoretical,
  encodeOption (fun bps => encodeMeasured (bps, p.measuredProvenance)) p.bestMeasured,
  Writer.u8 p.freshness.state.code,
  Writer.u64 p.freshness.ageMs,
  Writer.u8 p.contention.code,
  Writer.f64 p.contentionScore.value,
  Writer.u8 p.confidence.toByte,
  Writer.u8 p.structuralProvenance.code,
  Writer.u64 p.epoch.value, Writer.u64 p.boot.value]

/-- `encode(Writer&, const Measurement&)`. -/
def encodeMeasurement (m : Measurement) : List UInt8 := List.flatten [
  Writer.u64 m.id.value, Writer.u64 m.generation.value,
  Writer.u64 m.source.value, Writer.u64 m.destination.value,
  Writer.u8 m.transferClass.code,
  Writer.u8 m.engine.code,
  Writer.u64 m.bytes.value, Writer.u64 m.iterations.value,
  Writer.u64 m.durationNs.value, Writer.u64 m.latencyNs.value,
  Writer.u8 m.provenance.code,
  encodeOption (fun p => Writer.u64 p.value) m.path,
  Writer.string m.syncSemantics, Writer.u64 m.warmupOps, Writer.string m.backendDetail]

/-- `encode(Writer&, const Reservation&)`. -/
def encodeReservation (r : Reservation) : List UInt8 := List.flatten [
  Writer.u64 r.id.value, Writer.u64 r.generation.value,
  Writer.u64 r.path.value, Writer.u64 r.pathGeneration.value,
  Writer.u64 r.worker.value, Writer.u64 r.boot.value, Writer.u64 r.attempt.value,
  Writer.u64 r.epoch.value, Writer.u64 r.policy.value, Writer.u64 r.policyGeneration.value,
  Writer.u64 r.bytes.value, Writer.f64 r.bandwidth.value, Writer.u64 r.duration.value,
  Writer.u32 r.priority, Writer.u64 r.source.value, Writer.u64 r.destination.value,
  Writer.string r.workload, Writer.u64 r.createdAt.value,
  Writer.u8 (if r.active then 1 else 0), Writer.u8 (if r.released then 1 else 0)]

/-- The stream magic `"PCIEFABRIC"`. -/
def streamMagic : List UInt8 := ascii "PCIEFABRIC"

/-- A bounded count and the records behind it. -/
def encodeRecords {α : Type} (w : α → List UInt8) (as : List α) : List UInt8 :=
  Writer.u32Count as.length ++ as.flatMap w

/-- `serialize`. -/
def serialize (s : Snapshot) : Result (List UInt8) :=
  .ok (List.flatten [
    Writer.string streamMagic,
    Writer.u64 s.sequence, Writer.u64 s.epoch.value,
    encodeRecords encodeNode s.nodes,
    encodeRecords encodePath s.paths,
    encodeRecords encodeMeasurement s.measurements,
    encodeRecords encodeReservation s.reservations,
    encodeRecords (fun p => Writer.u64 p.value) s.policies])

/-! ### Decoding -/

/-- The reading of an enum byte that is checked: `r.u8()` and `valid(...)` under
one error. -/
def enumByte (names : List String) (message : String) : ReadM (ScopedEnum names) := do
  let b ← Decoder.withError ⟨.invalidEnum, message⟩ Reader.u8
  let e : ScopedEnum names := ⟨b⟩
  Decoder.ensure e.valid ⟨.invalidEnum, message⟩
  return e

/-- The reading of a presence flag and the value behind it. -/
def flagged {α : Type} (d : ReadM α) : ReadM (Option α) := do
  let flag ← Reader.u8
  if flag ≠ 0 then
    let a ← d
    return some a
  else return none

/-- The reading of a 32-bit count and as many 64-bit values. -/
def countedU64 : ReadM (List UInt64) := do
  let n ← Reader.u32
  Decoder.collect (fun _ _ => .ok ()) Reader.u64 n.toNat

/-- `decode_node`. -/
def decodeNode : ReadM Node := do
  let bdf ← Reader.string
  let pb ← Decoder.withError ⟨.invalidBdf, "invalid node bdf"⟩ (Decoder.lift (Bdf.parse bdf))
  let kind ← Reader.u32
  let gen ← Reader.u64
  let prov ← enumByte kProvenanceNames "invalid provenance"
  let parent ← flagged Reader.u64
  let children ← countedU64
  let v ← Reader.string
  let d ← Reader.string
  let cl ← Reader.string
  let dr ← Reader.string
  let rem ← Reader.u8
  -- `n.id` is not written and not read: it keeps its default
  return {
    bdf := pb, kind := ⟨kind.toUInt8⟩, generation := ⟨gen⟩, provenance := prov
    parent := parent.map StrongId.mk, children := children.map StrongId.mk
    vendor := v, device := d, className := cl, driver := dr, removed := rem != 0 }

/-- The theoretical envelope inside `decode_path`. -/
def decodeEnvelope : ReadM LinkEnvelope := do
  let g ← Reader.u8
  let l ← Reader.u16
  return ⟨⟨g⟩, ⟨l⟩⟩

/-- The measured bandwidth and its provenance inside `decode_path`. -/
def decodeMeasured : ReadM (BytesPerSecond × Provenance) := do
  let bps ← Reader.f64
  let bp ← Reader.u8
  return (⟨bps⟩, ⟨bp⟩)

/-- `decode_path`. -/
def decodePath : ReadM Path := do
  let id ← Reader.u64
  let gen ← Reader.u64
  let src ← Reader.u64
  let dst ← Reader.u64
  let cl ← enumByte kPathClassNames "invalid path class"
  let chain ← countedU64
  let links ← countedU64
  let loc ← enumByte kLocalityNames "invalid locality"
  let theoretical ← flagged decodeEnvelope
  let measured ← flagged decodeMeasured
  let f ← enumByte kFreshnessNames "invalid freshness"
  let age ← Reader.u64
  let cont ← enumByte kContentionNames "invalid contention"
  let cs ← Reader.f64
  let conf ← Reader.u8
  let sp ← Reader.u8
  let ep ← Reader.u64
  let bp2 ← Reader.u64
  return {
    id := ⟨id⟩, generation := ⟨gen⟩, source := ⟨src⟩, destination := ⟨dst⟩, pathClass := cl
    bridgeChain := chain.map StrongId.mk, links := links.map StrongId.mk, locality := loc
    theoretical := theoretical
    bestMeasured := measured.map Prod.fst
    measuredProvenance := (measured.map Prod.snd).getD Provenance.unknown
    freshness := ⟨f, age⟩, contention := cont, contentionScore := ⟨cs⟩
    confidence := Confidence.ofByte conf, structuralProvenance := ⟨sp⟩
    epoch := ⟨ep⟩, boot := ⟨bp2⟩, hostGeneration := ⟨1⟩, pathGeneration := ⟨gen⟩
    deviceGeneration := ⟨1⟩ }

/-- `decode_measurement`. -/
def decodeMeasurement : ReadM Measurement := do
  let id ← Reader.u64
  let gen ← Reader.u64
  let src ← Reader.u64
  let dst ← Reader.u64
  let tc ← enumByte kTransferClassNames "invalid transfer class"
  let eng ← enumByte kEngineNames "invalid engine"
  let bytes ← Reader.u64
  let iters ← Reader.u64
  let dur ← Reader.u64
  let lat ← Reader.u64
  let prov ← enumByte kProvenanceNames "invalid provenance"
  let path ← flagged Reader.u64
  let ss ← Reader.string
  let wo ← Reader.u64
  let bd ← Reader.string
  return {
    id := ⟨id⟩, generation := ⟨gen⟩, source := ⟨src⟩, destination := ⟨dst⟩, transferClass := tc
    engine := eng, bytes := ⟨bytes⟩, iterations := ⟨iters⟩, durationNs := ⟨dur⟩
    latencyNs := ⟨lat⟩, provenance := prov
    path := path.map StrongId.mk, pathGeneration := path.map fun _ => ⟨1⟩
    syncSemantics := ss, warmupOps := wo, backendDetail := bd }

/-- `decode_reservation`. -/
def decodeReservation : ReadM Reservation := do
  let id ← Reader.u64
  let gen ← Reader.u64
  let path ← Reader.u64
  let pgen ← Reader.u64
  let w ← Reader.u64
  let boot ← Reader.u64
  let att ← Reader.u64
  let ep ← Reader.u64
  let pol ← Reader.u64
  let pgen2 ← Reader.u64
  let bytes ← Reader.u64
  let bw ← Reader.f64
  let dur ← Reader.u64
  let prio ← Reader.u32
  let src ← Reader.u64
  let dst ← Reader.u64
  let wk ← Reader.string
  let _created ← Reader.u64
  let act ← Reader.u8
  let _rel ← Reader.u8
  let res : Reservation := {
    id := ⟨id⟩, generation := ⟨gen⟩, path := ⟨path⟩, pathGeneration := ⟨pgen⟩, worker := ⟨w⟩
    boot := ⟨boot⟩, attempt := ⟨att⟩, epoch := ⟨ep⟩, policy := ⟨pol⟩, policyGeneration := ⟨pgen2⟩
    bytes := ⟨bytes⟩, bandwidth := ⟨bw⟩, duration := ⟨dur⟩, priority := prio
    source := ⟨src⟩, destination := ⟨dst⟩, workload := wk }
  return if act ≠ 0 then res.markActive else res.markReleased

/-- The duplicate test of the loops of `deserialize`. -/
def distinctBy {α κ : Type} [DecidableEq κ] (key : α → κ) (message : String) (seen : List α)
    (a : α) : Result Unit :=
  if (seen.map key).contains (key a) then .err .duplicateIdentity message else .ok ()

/-- A loop of `deserialize`: a bounded count and as many records with pairwise
distinct keys. -/
def countedRecords {α κ : Type} [DecidableEq κ] (decode : ReadM α) (key : α → κ)
    (message : String) : ReadM (List α) := do
  let n ← Reader.u32Count
  Decoder.collect (distinctBy key message) decode n.toNat

/-- `deserialize` up to the end of the stream. -/
def decodeSnapshot : ReadM Snapshot := do
  let magic ← Reader.string
  Decoder.ensure (magic == streamMagic) ⟨.protocolMalformed, "bad stream magic"⟩
  let seq ← Reader.u64
  let ep ← Reader.u64
  let nodes ← countedRecords decodeNode Node.id "duplicate node id"
  let paths ← countedRecords decodePath Path.id "duplicate path id"
  let measurements ← countedRecords decodeMeasurement Measurement.id "duplicate measurement id"
  let reservations ← countedRecords decodeReservation Reservation.id "duplicate reservation id"
  let npol ← Reader.u32Count
  let policies ← Decoder.collect (fun _ _ => .ok ()) Reader.u64 npol.toNat
  return {
    sequence := seq, epoch := ⟨ep⟩, nodes, paths, measurements, reservations
    policies := policies.map StrongId.mk }

/-- The end of `deserialize`: the digest of what was read. -/
def withDigest (s : Snapshot) : Snapshot := { s with semanticDigest := semanticDigest s }

/-- `deserialize` on its reader. -/
def decodeStream : ReadM Snapshot := do
  let s ← decodeSnapshot
  Reader.requireEnd
  return withDigest s

/-- `deserialize`; `beyond` is what the memory holds behind the buffer. -/
def deserialize (body : List UInt8) (beyond : Nat → UInt8) : Result Snapshot :=
  (decodeStream { data := body, beyond }).1

end PcieFabric.Persist
