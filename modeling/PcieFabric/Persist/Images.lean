import PcieFabric.Codec.Layout
import PcieFabric.Persist.Records

/-!
What the record decoders read: the fields of each record as they stand in the
stream.

* `NodeImage`, `PathImage`, `MeasurementImage`, `ReservationImage`: one field for
  each value that is read; `fields` are its tokens, `Accepted` is what the decoder
  checks, and `toNode`, `toPath`, `toMeasurement`, `toReservation` are what it
  makes of the fields.
* `reads_decodeNode`, `reads_decodePath`, `reads_decodeMeasurement`,
  `reads_decodeReservation`: the decoders read exactly the accepted images.
-/

namespace PcieFabric.Persist

open Layout Token

/-! ### Parts of a record -/

/-- A presence flag and the value that stands behind it when it is not zero. -/
structure Flagged (ι : Type) where
  flag : UInt8
  value : ι

namespace Flagged

variable {ι α : Type}

/-- The tokens of a flagged value. -/
def fields (f : ι → List Token) (x : Flagged ι) : List Token :=
  .byte x.flag :: if x.flag ≠ 0 then f x.value else []

/-- The value that is present. -/
def toOption (v : ι → α) (x : Flagged ι) : Option α :=
  if x.flag ≠ 0 then some (v x.value) else none

lemma fields_of_ne {f : ι → List Token} {x : Flagged ι} (h : x.flag ≠ 0) :
    x.fields f = fixed (Writer.u8 x.flag) ++ f x.value := by
  rw [fields, if_pos h]
  rfl

lemma fields_of_eq {f : ι → List Token} {x : Flagged ι} (h : ¬ x.flag ≠ 0) :
    x.fields f = fixed (Writer.u8 x.flag) ++ [] := by
  rw [fields, if_neg h]
  rfl

lemma toOption_of_ne {v : ι → α} {x : Flagged ι} (h : x.flag ≠ 0) :
    x.toOption v = some (v x.value) := if_pos h

lemma toOption_of_eq {v : ι → α} {x : Flagged ι} (h : ¬ x.flag ≠ 0) :
    x.toOption v = none := if_neg h

end Flagged

/-- The tokens of a counted list of 64-bit values. -/
def listFields (xs : List UInt64) : List Token :=
  fixed (Writer.u32 (UInt32.ofNat xs.length)) ++ xs.flatMap fun x => fixed (Writer.u64 x)

/-- A checked enum byte is read when it is valid. -/
lemma reads_enumByte (names : List String) (message : String) :
    layout.Reads (enumByte names message) fun ts e =>
      e.valid = true ∧ ts = fixed (Writer.u8 e.code) := by
  refine (Reads.bind (Reads.withError reads_u8 _) fun b => Reads.bind (Reads.ensure _ _) fun _ =>
    Reads.pure _).congr ?_
  intro ts e
  constructor
  · rintro ⟨_, _, b, rfl, rfl, _, _, _, rfl, ⟨rfl, hv⟩, rfl, rfl⟩
    exact ⟨hv, rfl⟩
  · rintro ⟨hv, rfl⟩
    exact ⟨_, _, e.code, (List.append_nil _).symm, rfl, _, _, (), rfl, ⟨rfl, hv⟩, rfl, rfl⟩

/-- A flagged value is read behind any flag that is not zero. -/
lemma reads_flagged {ι α : Type} [Inhabited ι] {d : ReadM α} {accepted : ι → Prop}
    {f : ι → List Token} {v : ι → α} (h : layout.Reads d (Images accepted f v)) :
    layout.Reads (flagged d) (Images (fun x : Flagged ι => x.flag ≠ 0 → accepted x.value)
      (Flagged.fields f) (Flagged.toOption v)) := by
  have htail (flag : UInt8) : layout.Reads
      (if flag ≠ 0 then (do let a ← d; return some a) else return none : ReadM (Option α))
      fun ts o => if flag ≠ 0 then ∃ i, accepted i ∧ ts = f i ∧ o = some (v i)
        else ts = [] ∧ o = none := by
    by_cases hflag : flag ≠ 0
    · simp only [if_pos hflag]
      refine (h.map some).congr fun ts o => ?_
      constructor
      · rintro ⟨_, ⟨i, hi, rfl, rfl⟩, rfl⟩
        exact ⟨i, hi, rfl, rfl⟩
      · rintro ⟨i, hi, rfl, rfl⟩
        exact ⟨v i, ⟨i, hi, rfl, rfl⟩, rfl⟩
    · simp only [if_neg hflag]
      exact Reads.pure none
  refine (Reads.bind reads_u8 htail).congr ?_
  intro ts o
  constructor
  · rintro ⟨_, _, flag, rfl, rfl, hrest⟩
    by_cases hflag : flag ≠ 0
    · rw [if_pos hflag] at hrest
      obtain ⟨i, hi, rfl, rfl⟩ := hrest
      exact ⟨⟨flag, i⟩, fun _ => hi, (Flagged.fields_of_ne (x := ⟨flag, i⟩) hflag).symm,
        (Flagged.toOption_of_ne (x := ⟨flag, i⟩) hflag).symm⟩
    · rw [if_neg hflag] at hrest
      obtain ⟨rfl, rfl⟩ := hrest
      exact ⟨⟨flag, default⟩, fun hne => absurd hne hflag,
        (Flagged.fields_of_eq (x := ⟨flag, default⟩) hflag).symm,
        (Flagged.toOption_of_eq (x := ⟨flag, default⟩) hflag).symm⟩
  · rintro ⟨x, hx, rfl, rfl⟩
    by_cases hflag : x.flag ≠ 0
    · refine ⟨_, _, x.flag, Flagged.fields_of_ne hflag, rfl, ?_⟩
      rw [if_pos hflag]
      exact ⟨x.value, hx hflag, rfl, Flagged.toOption_of_ne hflag⟩
    · refine ⟨_, _, x.flag, Flagged.fields_of_eq hflag, rfl, ?_⟩
      rw [if_neg hflag]
      exact ⟨rfl, Flagged.toOption_of_eq hflag⟩

/-- A counted list of 64-bit values. -/
lemma reads_countedU64 : layout.Reads countedU64 fun ts xs =>
    xs.length < 2 ^ 32 ∧ ts = listFields xs := by
  refine (Reads.bind reads_u32 fun n => Reads.collect reads_u64.image _ n.toNat).congr ?_
  intro ts xs
  constructor
  · rintro ⟨_, _, n, rfl, rfl, is, ⟨hlen, -⟩, rfl, hxs⟩
    obtain rfl : xs = is := hxs.trans (List.map_id is)
    exact ⟨by rw [hlen]; exact n.toNat_lt, by rw [listFields, hlen, UInt32.ofNat_toNat]⟩
  · rintro ⟨hlen, rfl⟩
    refine ⟨_, _, UInt32.ofNat xs.length, rfl, rfl, xs,
      ⟨(UInt32.toNat_ofNat_of_lt' hlen).symm, fun _ _ => trivial, admitted_all _ _⟩, rfl,
      (List.map_id xs).symm⟩

/-! ### Nodes -/

/-- The fields of a node record. -/
structure NodeImage where
  bdf : List UInt8
  kind : UInt32
  generation : UInt64
  provenance : Provenance
  parent : Flagged UInt64
  children : List UInt64
  vendor : List UInt8
  device : List UInt8
  className : List UInt8
  driver : List UInt8
  removed : UInt8

namespace NodeImage

/-- The tokens of a node record. -/
def fields (i : NodeImage) : List Token :=
  List.flatten [[.str i.bdf], fixed (Writer.u32 i.kind), fixed (Writer.u64 i.generation),
    fixed (Writer.u8 i.provenance.code), i.parent.fields fun p => fixed (Writer.u64 p),
    listFields i.children, [.str i.vendor], [.str i.device], [.str i.className], [.str i.driver],
    fixed (Writer.u8 i.removed)]

/-- What `decode_node` checks, and that the declared lengths are lengths. -/
structure Accepted (i : NodeImage) : Prop where
  bdf_length : i.bdf.length < 2 ^ 32
  bdf_parses : ∃ b, Bdf.parse i.bdf = .ok b
  provenance_valid : i.provenance.valid = true
  children_length : i.children.length < 2 ^ 32
  vendor_length : i.vendor.length < 2 ^ 32
  device_length : i.device.length < 2 ^ 32
  className_length : i.className.length < 2 ^ 32
  driver_length : i.driver.length < 2 ^ 32

/-- The address the text parses to. -/
def address (i : NodeImage) : Bdf := (Bdf.parse i.bdf).toOption.getD {}

/-- What `decode_node` makes of the fields. -/
def toNode (i : NodeImage) : Node where
  bdf := i.address
  kind := ⟨i.kind.toUInt8⟩
  generation := ⟨i.generation⟩
  provenance := i.provenance
  parent := (i.parent.toOption id).map StrongId.mk
  children := i.children.map StrongId.mk
  vendor := i.vendor
  device := i.device
  className := i.className
  driver := i.driver
  removed := i.removed != 0

lemma address_of_parse {i : NodeImage} {b : Bdf} (h : Bdf.parse i.bdf = .ok b) : i.address = b := by
  rw [address, h]
  rfl

end NodeImage

/-- The parse step of `decode_node` reads nothing. -/
lemma reads_parsedBdf (text : List UInt8) : layout.Reads
    (Decoder.withError ⟨.invalidBdf, "invalid node bdf"⟩ (Decoder.lift (Bdf.parse text)))
    fun ts b => Bdf.parse text = .ok b ∧ ts = [] :=
  (Reads.withError (Reads.lift _) _).congr fun _ _ => and_comm

/-- **`decode_node` reads the accepted node images.** -/
theorem reads_decodeNode :
    layout.Reads decodeNode (Images NodeImage.Accepted NodeImage.fields NodeImage.toNode) := by
  refine (Reads.bindImages (Reads.ownImage reads_string) fun bdf =>
    Reads.bindImages (Reads.ownImage (reads_parsedBdf bdf)) fun pb =>
    Reads.bindImages reads_u32.image fun kind => Reads.bindImages reads_u64.image fun gen =>
    Reads.bindImages (Reads.ownImage (reads_enumByte _ _)) fun prov =>
    Reads.bindImages (reads_flagged reads_u64.image) fun parent =>
    Reads.bindImages (Reads.ownImage reads_countedU64) fun children =>
    Reads.bindImages (Reads.ownImage reads_string) fun v =>
    Reads.bindImages (Reads.ownImage reads_string) fun d =>
    Reads.bindImages (Reads.ownImage reads_string) fun cl =>
    Reads.bindImages (Reads.ownImage reads_string) fun dr =>
    Reads.bindImages reads_u8.image fun rem => Reads.pureImage _).congr (images_congr ?_ ?_)
  · rintro ⟨bdf, pb, kind, gen, prov, parent, children, v, d, cl, dr, rem, _⟩
      ⟨hbdf, hpb, -, -, hprov, -, hchildren, hv, hd, hcl, hdr, -, -⟩
    let i : NodeImage := ⟨bdf, kind, gen, prov, parent, children, v, d, cl, dr, rem⟩
    have haddr : i.address = pb := NodeImage.address_of_parse hpb
    exact ⟨i, ⟨hbdf, ⟨pb, hpb⟩, hprov, hchildren, hv, hd, hcl, hdr⟩, rfl,
      by rw [NodeImage.toNode, haddr]; rfl⟩
  · rintro i ⟨hbdf, ⟨pb, hpb⟩, hprov, hchildren, hv, hd, hcl, hdr⟩
    exact ⟨⟨i.bdf, pb, i.kind, i.generation, i.provenance, i.parent, i.children, i.vendor,
      i.device, i.className, i.driver, i.removed, ()⟩,
      ⟨hbdf, hpb, trivial, trivial, hprov, fun _ => trivial, hchildren, hv, hd, hcl, hdr, trivial,
        trivial⟩, rfl, by rw [NodeImage.toNode, NodeImage.address_of_parse hpb]; rfl⟩

/-! ### Paths -/

/-- The fields of a path record. -/
structure PathImage where
  id : UInt64
  generation : UInt64
  source : UInt64
  destination : UInt64
  pathClass : PathClass
  bridgeChain : List UInt64
  links : List UInt64
  locality : LocalityClass
  theoretical : Flagged LinkEnvelope
  measured : Flagged (BytesPerSecond × Provenance)
  freshness : Freshness
  ageMs : UInt64
  contention : ContentionState
  contentionScore : Double
  confidence : UInt8
  structuralProvenance : Provenance
  epoch : UInt64
  boot : UInt64

namespace PathImage

/-- The tokens of a path record. -/
def fields (i : PathImage) : List Token :=
  List.flatten [fixed (Writer.u64 i.id), fixed (Writer.u64 i.generation),
    fixed (Writer.u64 i.source), fixed (Writer.u64 i.destination),
    fixed (Writer.u8 i.pathClass.code), listFields i.bridgeChain, listFields i.links,
    fixed (Writer.u8 i.locality.code), i.theoretical.fields fun e => fixed (encodeEnvelope e),
    i.measured.fields fun m => fixed (encodeMeasured m),
    fixed (Writer.u8 i.freshness.code), fixed (Writer.u64 i.ageMs),
    fixed (Writer.u8 i.contention.code), fixed (Writer.f64 i.contentionScore),
    fixed (Writer.u8 i.confidence), fixed (Writer.u8 i.structuralProvenance.code),
    fixed (Writer.u64 i.epoch), fixed (Writer.u64 i.boot)]

/-- What `decode_path` checks, and that the declared lengths are lengths. -/
structure Accepted (i : PathImage) : Prop where
  pathClass_valid : i.pathClass.valid = true
  bridgeChain_length : i.bridgeChain.length < 2 ^ 32
  links_length : i.links.length < 2 ^ 32
  locality_valid : i.locality.valid = true
  freshness_valid : i.freshness.valid = true
  contention_valid : i.contention.valid = true

/-- What `decode_path` makes of the fields. -/
def toPath (i : PathImage) : Path where
  id := ⟨i.id⟩
  generation := ⟨i.generation⟩
  source := ⟨i.source⟩
  destination := ⟨i.destination⟩
  pathClass := i.pathClass
  bridgeChain := i.bridgeChain.map StrongId.mk
  links := i.links.map StrongId.mk
  locality := i.locality
  theoretical := i.theoretical.toOption fun e => e
  bestMeasured := (i.measured.toOption fun m => m).map Prod.fst
  measuredProvenance := ((i.measured.toOption fun m => m).map Prod.snd).getD Provenance.unknown
  freshness := ⟨i.freshness, i.ageMs⟩
  contention := i.contention
  contentionScore := ⟨i.contentionScore⟩
  confidence := Confidence.ofByte i.confidence
  structuralProvenance := i.structuralProvenance
  epoch := ⟨i.epoch⟩
  boot := ⟨i.boot⟩
  hostGeneration := ⟨1⟩
  pathGeneration := ⟨i.generation⟩
  deviceGeneration := ⟨1⟩

end PathImage

/-- The envelope is read as it is encoded. -/
lemma reads_decodeEnvelope : ReadsAs decodeEnvelope encodeEnvelope := by
  refine (Reads.bind reads_u8 fun g => Reads.bind reads_u16 fun l => Reads.pure _).congr ?_
  intro ts e
  constructor
  · rintro ⟨_, _, g, rfl, rfl, _, _, l, rfl, rfl, rfl, rfl⟩
    rw [List.append_nil, encodeEnvelope, fixed_append]
  · rintro rfl
    exact ⟨_, _, e.generation.code, fixed_append _ _, rfl, _, _, e.lanes.value,
      (List.append_nil _).symm, rfl, rfl, rfl⟩

/-- The measured bandwidth is read as it is encoded. -/
lemma reads_decodeMeasured : ReadsAs decodeMeasured encodeMeasured := by
  refine (Reads.bind reads_f64 fun bps => Reads.bind reads_u8 fun bp => Reads.pure _).congr ?_
  intro ts m
  constructor
  · rintro ⟨_, _, bps, rfl, rfl, _, _, bp, rfl, rfl, rfl, rfl⟩
    rw [List.append_nil, encodeMeasured, fixed_append]
  · rintro rfl
    exact ⟨_, _, m.1.value, fixed_append _ _, rfl, _, _, m.2.code,
      (List.append_nil _).symm, rfl, rfl, rfl⟩

/-- **`decode_path` reads the accepted path images.** -/
theorem reads_decodePath :
    layout.Reads decodePath (Images PathImage.Accepted PathImage.fields PathImage.toPath) := by
  refine (Reads.bindImages reads_u64.image fun id => Reads.bindImages reads_u64.image fun gen =>
    Reads.bindImages reads_u64.image fun src => Reads.bindImages reads_u64.image fun dst =>
    Reads.bindImages (Reads.ownImage (reads_enumByte _ _)) fun cl =>
    Reads.bindImages (Reads.ownImage reads_countedU64) fun chain =>
    Reads.bindImages (Reads.ownImage reads_countedU64) fun links =>
    Reads.bindImages (Reads.ownImage (reads_enumByte _ _)) fun loc =>
    Reads.bindImages (reads_flagged reads_decodeEnvelope.image) fun theoretical =>
    Reads.bindImages (reads_flagged reads_decodeMeasured.image) fun measured =>
    Reads.bindImages (Reads.ownImage (reads_enumByte _ _)) fun f =>
    Reads.bindImages reads_u64.image fun age =>
    Reads.bindImages (Reads.ownImage (reads_enumByte _ _)) fun cont =>
    Reads.bindImages reads_f64.image fun cs => Reads.bindImages reads_u8.image fun conf =>
    Reads.bindImages reads_u8.image fun sp => Reads.bindImages reads_u64.image fun ep =>
    Reads.bindImages reads_u64.image fun bp2 => Reads.pureImage _).congr (images_congr ?_ ?_)
  · rintro ⟨id, gen, src, dst, cl, chain, links, loc, th, m, f, age, cont, cs, conf, sp, ep, bp2, _⟩
      ⟨-, -, -, -, hcl, hchain, hlinks, hloc, -, -, hf, -, hcont, -⟩
    exact ⟨⟨id, gen, src, dst, cl, chain, links, loc, th, m, f, age, cont, cs, conf, ⟨sp⟩, ep, bp2⟩,
      ⟨hcl, hchain, hlinks, hloc, hf, hcont⟩, rfl, rfl⟩
  · rintro i ⟨hcl, hchain, hlinks, hloc, hf, hcont⟩
    exact ⟨⟨i.id, i.generation, i.source, i.destination, i.pathClass, i.bridgeChain, i.links,
      i.locality, i.theoretical, i.measured, i.freshness, i.ageMs, i.contention, i.contentionScore,
      i.confidence, i.structuralProvenance.code, i.epoch, i.boot, ()⟩,
      ⟨trivial, trivial, trivial, trivial, hcl, hchain, hlinks, hloc, fun _ => trivial,
        fun _ => trivial, hf, trivial, hcont, trivial, trivial, trivial, trivial, trivial, trivial⟩,
      rfl, rfl⟩

/-! ### Measurements -/

/-- The fields of a measurement record. -/
structure MeasurementImage where
  id : UInt64
  generation : UInt64
  source : UInt64
  destination : UInt64
  transferClass : TransferClass
  engine : EngineKind
  bytes : UInt64
  iterations : UInt64
  durationNs : UInt64
  latencyNs : UInt64
  provenance : Provenance
  path : Flagged UInt64
  syncSemantics : List UInt8
  warmupOps : UInt64
  backendDetail : List UInt8

namespace MeasurementImage

/-- The tokens of a measurement record. -/
def fields (i : MeasurementImage) : List Token :=
  List.flatten [fixed (Writer.u64 i.id), fixed (Writer.u64 i.generation),
    fixed (Writer.u64 i.source), fixed (Writer.u64 i.destination),
    fixed (Writer.u8 i.transferClass.code), fixed (Writer.u8 i.engine.code),
    fixed (Writer.u64 i.bytes), fixed (Writer.u64 i.iterations), fixed (Writer.u64 i.durationNs),
    fixed (Writer.u64 i.latencyNs), fixed (Writer.u8 i.provenance.code),
    i.path.fields fun p => fixed (Writer.u64 p), [.str i.syncSemantics],
    fixed (Writer.u64 i.warmupOps), [.str i.backendDetail]]

/-- What `decode_measurement` checks, and that the declared lengths are lengths. -/
structure Accepted (i : MeasurementImage) : Prop where
  transferClass_valid : i.transferClass.valid = true
  engine_valid : i.engine.valid = true
  provenance_valid : i.provenance.valid = true
  syncSemantics_length : i.syncSemantics.length < 2 ^ 32
  backendDetail_length : i.backendDetail.length < 2 ^ 32

/-- What `decode_measurement` makes of the fields. -/
def toMeasurement (i : MeasurementImage) : Measurement where
  id := ⟨i.id⟩
  generation := ⟨i.generation⟩
  source := ⟨i.source⟩
  destination := ⟨i.destination⟩
  transferClass := i.transferClass
  engine := i.engine
  bytes := ⟨i.bytes⟩
  iterations := ⟨i.iterations⟩
  durationNs := ⟨i.durationNs⟩
  latencyNs := ⟨i.latencyNs⟩
  provenance := i.provenance
  path := (i.path.toOption fun p => p).map StrongId.mk
  pathGeneration := (i.path.toOption fun p => p).map fun _ => ⟨1⟩
  syncSemantics := i.syncSemantics
  warmupOps := i.warmupOps
  backendDetail := i.backendDetail

end MeasurementImage

/-- The reads of `decode_measurement` in front of its last string. -/
def decodeMeasurementHead : ReadM (List UInt8 → Measurement) := do
  let id ← Reader.u64
  let gen ← Reader.u64
  let src ← Reader.u64
  let dst ← Reader.u64
  let tc ← enumByte kTransferClassNames "invalid transfer class"
  let eng ← enumByte kEngineNames "invalid engine"
  let bytes ← Reader.u64
  let iters ← Reader.u64
  let dur ← Reader.u64
  let lat ← Reader.u64
  let prov ← enumByte kProvenanceNames "invalid provenance"
  let path ← flagged Reader.u64
  let ss ← Reader.string
  let wo ← Reader.u64
  return fun bd =>
    { id := ⟨id⟩, generation := ⟨gen⟩, source := ⟨src⟩, destination := ⟨dst⟩, transferClass := tc
      engine := eng, bytes := ⟨bytes⟩, iterations := ⟨iters⟩, durationNs := ⟨dur⟩
      latencyNs := ⟨lat⟩, provenance := prov
      path := path.map StrongId.mk, pathGeneration := path.map fun _ => ⟨1⟩
      syncSemantics := ss, warmupOps := wo, backendDetail := bd }

lemma decodeMeasurement_eq : decodeMeasurement =
    decodeMeasurementHead >>= fun head => Reader.string >>= fun bd => pure (head bd) := by
  simp only [decodeMeasurement, decodeMeasurementHead, bind_assoc, pure_bind]

namespace MeasurementImage

/-- The tokens in front of the last string. -/
def headFields (i : MeasurementImage) : List Token :=
  List.flatten [fixed (Writer.u64 i.id), fixed (Writer.u64 i.generation),
    fixed (Writer.u64 i.source), fixed (Writer.u64 i.destination),
    fixed (Writer.u8 i.transferClass.code), fixed (Writer.u8 i.engine.code),
    fixed (Writer.u64 i.bytes), fixed (Writer.u64 i.iterations), fixed (Writer.u64 i.durationNs),
    fixed (Writer.u64 i.latencyNs), fixed (Writer.u8 i.provenance.code),
    i.path.fields fun p => fixed (Writer.u64 p), [.str i.syncSemantics],
    fixed (Writer.u64 i.warmupOps)]

/-- What is checked in front of the last string. -/
structure HeadAccepted (i : MeasurementImage) : Prop where
  transferClass_valid : i.transferClass.valid = true
  engine_valid : i.engine.valid = true
  provenance_valid : i.provenance.valid = true
  syncSemantics_length : i.syncSemantics.length < 2 ^ 32

/-- The measurement, once its last string is read. -/
def headMeasurement (i : MeasurementImage) (bd : List UInt8) : Measurement :=
  { i with backendDetail := bd : MeasurementImage }.toMeasurement

lemma fields_eq (i : MeasurementImage) : i.fields = i.headFields ++ [.str i.backendDetail] := by
  simp only [fields, headFields, List.flatten_cons, List.flatten_nil, List.append_nil,
    List.append_assoc]

lemma accepted_iff (i : MeasurementImage) :
    i.Accepted ↔ i.HeadAccepted ∧ i.backendDetail.length < 2 ^ 32 :=
  ⟨fun ⟨htc, heng, hprov, hss, hbd⟩ => ⟨⟨htc, heng, hprov, hss⟩, hbd⟩,
    fun ⟨⟨htc, heng, hprov, hss⟩, hbd⟩ => ⟨htc, heng, hprov, hss, hbd⟩⟩

end MeasurementImage

lemma reads_decodeMeasurementHead : layout.Reads decodeMeasurementHead
    (Images MeasurementImage.HeadAccepted MeasurementImage.headFields
      MeasurementImage.headMeasurement) := by
  refine (Reads.bindImages reads_u64.image fun id => Reads.bindImages reads_u64.image fun gen =>
    Reads.bindImages reads_u64.image fun src => Reads.bindImages reads_u64.image fun dst =>
    Reads.bindImages (Reads.ownImage (reads_enumByte _ _)) fun tc =>
    Reads.bindImages (Reads.ownImage (reads_enumByte _ _)) fun eng =>
    Reads.bindImages reads_u64.image fun bytes => Reads.bindImages reads_u64.image fun iters =>
    Reads.bindImages reads_u64.image fun dur => Reads.bindImages reads_u64.image fun lat =>
    Reads.bindImages (Reads.ownImage (reads_enumByte _ _)) fun prov =>
    Reads.bindImages (reads_flagged reads_u64.image) fun path =>
    Reads.bindImages (Reads.ownImage reads_string) fun ss =>
    Reads.bindImages reads_u64.image fun wo => Reads.pureImage _).congr (images_congr ?_ ?_)
  · rintro ⟨id, gen, src, dst, tc, eng, bytes, iters, dur, lat, prov, path, ss, wo, _⟩
      ⟨-, -, -, -, htc, heng, -, -, -, -, hprov, -, hss, -, -⟩
    exact ⟨⟨id, gen, src, dst, tc, eng, bytes, iters, dur, lat, prov, path, ss, wo, []⟩,
      ⟨htc, heng, hprov, hss⟩, rfl, rfl⟩
  · rintro i ⟨htc, heng, hprov, hss⟩
    exact ⟨⟨i.id, i.generation, i.source, i.destination, i.transferClass, i.engine, i.bytes,
      i.iterations, i.durationNs, i.latencyNs, i.provenance, i.path, i.syncSemantics, i.warmupOps,
      ()⟩,
      ⟨trivial, trivial, trivial, trivial, htc, heng, trivial, trivial, trivial, trivial, hprov,
        fun _ => trivial, hss, trivial, trivial⟩, rfl, rfl⟩

/-- **`decode_measurement` reads the accepted measurement images.** -/
theorem reads_decodeMeasurement : layout.Reads decodeMeasurement
    (Images MeasurementImage.Accepted MeasurementImage.fields MeasurementImage.toMeasurement) := by
  rw [decodeMeasurement_eq]
  refine (Reads.bindImages reads_decodeMeasurementHead fun head =>
    Reads.bindImages (Reads.ownImage reads_string) fun bd => Reads.pureImage _).congr
      (images_congr ?_ ?_)
  · rintro ⟨i, bd, _⟩ ⟨hi, hbd, -⟩
    exact ⟨{ i with backendDetail := bd }, (MeasurementImage.accepted_iff _).mpr ⟨⟨hi.1, hi.2,
      hi.3, hi.4⟩, hbd⟩, MeasurementImage.fields_eq _, rfl⟩
  · rintro i hi
    obtain ⟨hhead, hbd⟩ := i.accepted_iff.mp hi
    exact ⟨⟨i, i.backendDetail, ()⟩, ⟨hhead, hbd, trivial⟩, i.fields_eq.symm, rfl⟩

/-! ### Reservations -/

/-- The fields of a reservation record. -/
structure ReservationImage where
  id : UInt64
  generation : UInt64
  path : UInt64
  pathGeneration : UInt64
  worker : UInt64
  boot : UInt64
  attempt : UInt64
  epoch : UInt64
  policy : UInt64
  policyGeneration : UInt64
  bytes : UInt64
  bandwidth : Double
  duration : UInt64
  priority : UInt32
  source : UInt64
  destination : UInt64
  workload : List UInt8
  createdAt : UInt64
  active : UInt8
  released : UInt8

namespace ReservationImage

/-- The tokens of a reservation record. -/
def fields (i : ReservationImage) : List Token :=
  List.flatten [fixed (Writer.u64 i.id), fixed (Writer.u64 i.generation),
    fixed (Writer.u64 i.path), fixed (Writer.u64 i.pathGeneration), fixed (Writer.u64 i.worker),
    fixed (Writer.u64 i.boot), fixed (Writer.u64 i.attempt), fixed (Writer.u64 i.epoch),
    fixed (Writer.u64 i.policy), fixed (Writer.u64 i.policyGeneration), fixed (Writer.u64 i.bytes),
    fixed (Writer.f64 i.bandwidth), fixed (Writer.u64 i.duration), fixed (Writer.u32 i.priority),
    fixed (Writer.u64 i.source), fixed (Writer.u64 i.destination), [.str i.workload],
    fixed (Writer.u64 i.createdAt), fixed (Writer.u8 i.active), fixed (Writer.u8 i.released)]

/-- What `decode_reservation` checks: that the declared length is a length. -/
def Accepted (i : ReservationImage) : Prop := i.workload.length < 2 ^ 32

/-- The request inside the fields. -/
def request (i : ReservationImage) : Reservation where
  id := ⟨i.id⟩
  generation := ⟨i.generation⟩
  path := ⟨i.path⟩
  pathGeneration := ⟨i.pathGeneration⟩
  worker := ⟨i.worker⟩
  boot := ⟨i.boot⟩
  attempt := ⟨i.attempt⟩
  epoch := ⟨i.epoch⟩
  policy := ⟨i.policy⟩
  policyGeneration := ⟨i.policyGeneration⟩
  bytes := ⟨i.bytes⟩
  bandwidth := ⟨i.bandwidth⟩
  duration := ⟨i.duration⟩
  priority := i.priority
  source := ⟨i.source⟩
  destination := ⟨i.destination⟩
  workload := i.workload

/-- What `decode_reservation` makes of the fields. -/
def toReservation (i : ReservationImage) : Reservation :=
  if i.active ≠ 0 then i.request.markActive else i.request.markReleased

end ReservationImage

/-- **`decode_reservation` reads the accepted reservation images.** -/
theorem reads_decodeReservation : layout.Reads decodeReservation
    (Images ReservationImage.Accepted ReservationImage.fields ReservationImage.toReservation) := by
  refine (Reads.bindImages reads_u64.image fun id => Reads.bindImages reads_u64.image fun gen =>
    Reads.bindImages reads_u64.image fun path => Reads.bindImages reads_u64.image fun pgen =>
    Reads.bindImages reads_u64.image fun w => Reads.bindImages reads_u64.image fun boot =>
    Reads.bindImages reads_u64.image fun att => Reads.bindImages reads_u64.image fun ep =>
    Reads.bindImages reads_u64.image fun pol => Reads.bindImages reads_u64.image fun pgen2 =>
    Reads.bindImages reads_u64.image fun bytes => Reads.bindImages reads_f64.image fun bw =>
    Reads.bindImages reads_u64.image fun dur => Reads.bindImages reads_u32.image fun prio =>
    Reads.bindImages reads_u64.image fun src => Reads.bindImages reads_u64.image fun dst =>
    Reads.bindImages (Reads.ownImage reads_string) fun wk =>
    Reads.bindImages reads_u64.image fun created => Reads.bindImages reads_u8.image fun act =>
    Reads.bindImages reads_u8.image fun rel => Reads.pureImage _).congr (images_congr ?_ ?_)
  · rintro ⟨id, gen, path, pgen, w, boot, att, ep, pol, pgen2, bytes, bw, dur, prio, src, dst, wk,
      created, act, rel, _⟩ ⟨-, -, -, -, -, -, -, -, -, -, -, -, -, -, -, -, hwk, -⟩
    exact ⟨⟨id, gen, path, pgen, w, boot, att, ep, pol, pgen2, bytes, bw, dur, prio, src, dst, wk,
      created, act, rel⟩, hwk, rfl, rfl⟩
  · rintro i hwk
    exact ⟨⟨i.id, i.generation, i.path, i.pathGeneration, i.worker, i.boot, i.attempt, i.epoch,
      i.policy, i.policyGeneration, i.bytes, i.bandwidth, i.duration, i.priority, i.source,
      i.destination, i.workload, i.createdAt, i.active, i.released, ()⟩,
      ⟨trivial, trivial, trivial, trivial, trivial, trivial, trivial, trivial, trivial, trivial,
        trivial, trivial, trivial, trivial, trivial, trivial, hwk, trivial, trivial, trivial,
        trivial⟩, rfl, rfl⟩

end PcieFabric.Persist
