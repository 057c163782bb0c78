import PcieFabric.Codec.Offsets
import PcieFabric.Persist.Validity

/-!
The round trip of a snapshot through `serialize` and `deserialize`.

* `SnapshotImage.ofSnapshot`: the fields the encoder writes, with
  `serialize_eq`.
* `Snapshot.Persistable`: distinct ids, valid addresses and enum fields, bounded
  strings and lists.
* `Snapshot.Agrees`: the persisted part of two snapshots is the same.
* `SnapshotImage.NoneStraddles`: no string of the stream starts at or before the offset
  that `Reader::string` measures against and ends after it.
* `roundtrip_iff`: a persistable snapshot comes back exactly when its nodes
  carry the id that the decoder gives them and no string straddles.
-/

namespace PcieFabric

/-- The part of a node that is written and read. -/
def Node.persisted (n : Node) : Node where
  id := n.id
  bdf := n.bdf
  kind := n.kind
  generation := n.generation
  provenance := n.provenance
  parent := n.parent
  children := n.children
  vendor := n.vendor
  device := n.device
  className := n.className
  driver := n.driver
  removed := n.removed

/-- A list of at most 16 Mi entries. -/
def ShortList {α : Type} (as : List α) : Prop := as.length ≤ 16 * 1024 * 1024

instance {α : Type} (as : List α) : Decidable (ShortList as) :=
  inferInstanceAs (Decidable (_ ≤ _))

/-- A node that can be written: valid address and enum fields, bounded strings
and lists. -/
structure Node.Persistable (n : Node) : Prop where
  address : n.bdf.valid = true
  enums : n.EnumsValid
  children : ShortList n.children
  vendor : ShortString n.vendor
  device : ShortString n.device
  className : ShortString n.className
  driver : ShortString n.driver

/-- A path that can be written. -/
structure Path.Persistable (p : Path) : Prop where
  enums : p.EnumsValid
  bridgeChain : ShortList p.bridgeChain
  links : ShortList p.links

/-- A measurement that can be written. -/
structure Measurement.Persistable (m : Measurement) : Prop where
  enums : m.EnumsValid
  syncSemantics : ShortString m.syncSemantics
  backendDetail : ShortString m.backendDetail

/-- A snapshot with distinct ids in each list, of bounded lists of records that
can be written. -/
structure Snapshot.Persistable (s : Snapshot) : Prop where
  nodeIds : (s.nodes.map Node.id).Nodup
  pathIds : (s.paths.map Path.id).Nodup
  measurementIds : (s.measurements.map Measurement.id).Nodup
  reservationIds : (s.reservations.map Reservation.id).Nodup
  nodes : ShortList s.nodes ∧ ∀ n ∈ s.nodes, n.Persistable
  paths : ShortList s.paths ∧ ∀ p ∈ s.paths, p.Persistable
  measurements : ShortList s.measurements ∧ ∀ m ∈ s.measurements, m.Persistable
  reservations : ShortList s.reservations ∧ ∀ r ∈ s.reservations, ShortString r.workload
  policies : ShortList s.policies

/-- The second snapshot has the persisted part of the first. -/
structure Snapshot.Agrees (s s' : Snapshot) : Prop where
  sequence : s'.sequence = s.sequence
  epoch : s'.epoch = s.epoch
  nodes : s'.nodes.map Node.persisted = s.nodes.map Node.persisted
  paths : s'.paths.map Path.id = s.paths.map Path.id
  measurements : s'.measurements.map Measurement.id = s.measurements.map Measurement.id
  reservations : s'.reservations.map Reservation.id = s.reservations.map Reservation.id
  policies : s'.policies = s.policies

namespace Persist

open Layout Token

/-! ### The fields the encoder writes -/

/-- The flagged value `encodeOption` writes. -/
def Flagged.ofOption {ι : Type} [Inhabited ι] : Option ι → Flagged ι
  | some a => ⟨1, a⟩
  | none => ⟨0, default⟩

/-- The fields of an encoded node. -/
def NodeImage.ofNode (n : Node) : NodeImage where
  bdf := n.bdf.canonical
  kind := n.kind.code.toUInt32
  generation := n.generation.value
  provenance := n.provenance
  parent := Flagged.ofOption (n.parent.map StrongId.value)
  children := n.children.map StrongId.value
  vendor := n.vendor
  device := n.device
  className := n.className
  driver := n.driver
  removed := if n.removed then 1 else 0

/-- The fields of an encoded path. -/
def PathImage.ofPath (p : Path) : PathImage where
  id := p.id.value
  generation := p.generation.value
  source := p.source.value
  destination := p.destination.value
  pathClass := p.pathClass
  bridgeChain := p.bridgeChain.map StrongId.value
  links := p.links.map StrongId.value
  locality := p.locality
  theoretical := Flagged.ofOption p.theoretical
  measured := Flagged.ofOption (p.bestMeasured.map fun bps => (bps, p.measuredProvenance))
  freshness := p.freshness.state
  ageMs := p.freshness.ageMs
  contention := p.contention
  contentionScore := p.contentionScore.value
  confidence := p.confidence.toByte
  structuralProvenance := p.structuralProvenance
  epoch := p.epoch.value
  boot := p.boot.value

/-- The fields of an encoded measurement. -/
def MeasurementImage.ofMeasurement (m : Measurement) : MeasurementImage where
  id := m.id.value
  generation := m.generation.value
  source := m.source.value
  destination := m.destination.value
  transferClass := m.transferClass
  engine := m.engine
  bytes := m.bytes.value
  iterations := m.iterations.value
  durationNs := m.durationNs.value
  latencyNs := m.latencyNs.value
  provenance := m.provenance
  path := Flagged.ofOption (m.path.map StrongId.value)
  syncSemantics := m.syncSemantics
  warmupOps := m.warmupOps
  backendDetail := m.backendDetail

/-- The fields of an encoded reservation. -/
def ReservationImage.ofReservation (r : Reservation) : ReservationImage where
  id := r.id.value
  generation := r.generation.value
  path := r.path.value
  pathGeneration := r.pathGeneration.value
  worker := r.worker.value
  boot := r.boot.value
  attempt := r.attempt.value
  epoch := r.epoch.value
  policy := r.policy.value
  policyGeneration := r.policyGeneration.value
  bytes := r.bytes.value
  bandwidth := r.bandwidth.value
  duration := r.duration.value
  priority := r.priority
  source := r.source.value
  destination := r.destination.value
  workload := r.workload
  createdAt := r.createdAt.value
  active := if r.active then 1 else 0
  released := if r.released then 1 else 0

/-- The fields of a serialized snapshot. -/
def SnapshotImage.ofSnapshot (s : Snapshot) : SnapshotImage where
  sequence := s.sequence
  epoch := s.epoch.value
  nodes := s.nodes.map NodeImage.ofNode
  paths := s.paths.map PathImage.ofPath
  measurements := s.measurements.map MeasurementImage.ofMeasurement
  reservations := s.reservations.map ReservationImage.ofReservation
  policies := s.policies.map StrongId.value

/-! The bytes of the fields are the encoding. -/

lemma bytes_flatten (tss : List (List Token)) :
    layout.bytes tss.flatten = (tss.map layout.bytes).flatten := by
  induction tss with
  | nil => rfl
  | cons ts tss ih => rw [List.flatten_cons, bytes_append, ih, List.map_cons, List.flatten_cons]

lemma bytes_flatMap {ι α : Type} {f : ι → List Token} {w : α → List UInt8} {g : α → ι}
    (h : ∀ a, layout.bytes (f (g a)) = w a) (as : List α) :
    layout.bytes ((as.map g).flatMap f) = as.flatMap w := by
  induction as with
  | nil => rfl
  | cons a as ih => rw [List.map_cons, List.flatMap_cons, bytes_append, h, ih, List.flatMap_cons]

lemma bytes_flagged {ι α : Type} [Inhabited ι] {f : ι → List Token} {w : α → List UInt8}
    {g : α → ι} (h : ∀ a, layout.bytes (f (g a)) = w a) (o : Option α) :
    layout.bytes ((Flagged.ofOption (o.map g)).fields f) = encodeOption w o := by
  cases o with
  | none => rfl
  | some a =>
      have hflag : (⟨1, g a⟩ : Flagged ι).flag ≠ 0 := (by decide : (1 : UInt8) ≠ 0)
      rw [Option.map_some, Flagged.ofOption, Flagged.fields_of_ne hflag, bytes_append, bytes_fixed,
        h, encodeOption]

/-- An identity is written as its number. -/
lemma bytes_id {tag : IdTag} (x : StrongId tag) :
    layout.bytes (fixed (Writer.u64 x.value)) = Writer.u64 x.value := bytes_fixed _

lemma bytes_listFields {tag : IdTag} (ids : List (StrongId tag)) :
    layout.bytes (listFields (ids.map StrongId.value)) =
      encodeList (fun x => Writer.u64 x.value) ids := by
  have hids := bytes_flatMap (f := fun x => fixed (Writer.u64 x)) bytes_id ids
  rw [listFields, bytes_append, bytes_fixed, List.length_map, hids, encodeList]

lemma bytes_records {ι α : Type} {f : ι → List Token} {w : α → List UInt8} {g : α → ι}
    (h : ∀ a, layout.bytes (f (g a)) = w a) (as : List α) :
    layout.bytes (recordFields f (as.map g)) = encodeRecords w as := by
  rw [recordFields, bytes_append, bytes_fixed, List.length_map, bytes_flatMap h, encodeRecords]

lemma bytes_ofNode (n : Node) : layout.bytes (NodeImage.ofNode n).fields = encodeNode n := by
  have hparent := bytes_flagged (f := fun p => fixed (Writer.u64 p)) bytes_id n.parent
  rw [NodeImage.fields, bytes_flatten]
  simp only [NodeImage.ofNode, List.map_cons, List.map_nil, bytes_str, bytes_fixed, hparent,
    bytes_listFields, encodeNode]

lemma bytes_ofPath (p : Path) : layout.bytes (PathImage.ofPath p).fields = encodePath p := by
  have hth := bytes_flagged (f := fun e => fixed (encodeEnvelope e)) (g := fun e => e)
    (fun e => bytes_fixed (encodeEnvelope e)) p.theoretical
  have hm := bytes_flagged (f := fun m => fixed (encodeMeasured m))
    (fun bps => bytes_fixed (encodeMeasured (bps, p.measuredProvenance))) p.bestMeasured
  rw [Option.map_id'] at hth
  rw [PathImage.fields, bytes_flatten]
  simp only [PathImage.ofPath, List.map_cons, List.map_nil, bytes_fixed, hth, hm, bytes_listFields,
    encodePath]

lemma bytes_ofMeasurement (m : Measurement) :
    layout.bytes (MeasurementImage.ofMeasurement m).fields = encodeMeasurement m := by
  have hpath := bytes_flagged (f := fun p => fixed (Writer.u64 p)) bytes_id m.path
  rw [MeasurementImage.fields, bytes_flatten]
  simp only [MeasurementImage.ofMeasurement, List.map_cons, List.map_nil, bytes_str, bytes_fixed,
    hpath, encodeMeasurement]

lemma bytes_ofReservation (r : Reservation) :
    layout.bytes (ReservationImage.ofReservation r).fields = encodeReservation r := by
  rw [ReservationImage.fields, bytes_flatten]
  simp only [ReservationImage.ofReservation, List.map_cons, List.map_nil, bytes_str, bytes_fixed,
    encodeReservation]

/-- **`serialize` writes the fields of the snapshot.** -/
theorem serialize_eq (s : Snapshot) : serialize s = .ok (SnapshotImage.ofSnapshot s).bytes := by
  have hpol := bytes_records (f := fun p => fixed (Writer.u64 p)) bytes_id s.policies
  rw [SnapshotImage.bytes, SnapshotImage.fields, bytes_flatten]
  simp only [SnapshotImage.ofSnapshot, List.map_cons, List.map_nil, bytes_str, bytes_fixed,
    bytes_records bytes_ofNode, bytes_records bytes_ofPath, bytes_records bytes_ofMeasurement,
    bytes_records bytes_ofReservation, hpol, serialize]

/-! ### What comes back -/

/-- An encoded node comes back without its id, at the address that its text shows. -/
lemma NodeImage.toNode_ofNode_shown {n : Node} (h : n.bdf.shown.valid = true) :
    (NodeImage.ofNode n).toNode = { n.persisted with id := default, bdf := n.bdf.shown } := by
  have haddr : (NodeImage.ofNode n).address = n.bdf.shown :=
    address_of_parse ((Bdf.parse_canonical_eq n.bdf).trans (if_pos h))
  have hkind : n.kind.code.toUInt32.toUInt8 = n.kind.code := by simp
  have hparent : ((Flagged.ofOption (n.parent.map StrongId.value)).toOption id).map StrongId.mk =
      n.parent := by
    cases n.parent <;> rfl
  have hremoved : ((if n.removed then 1 else 0 : UInt8) != 0) = n.removed := by
    cases n.removed <;> rfl
  rw [toNode, haddr]
  simp only [ofNode, Node.persisted, hkind, hparent, hremoved, List.map_map]
  congr 1
  exact List.map_id' n.children

/-- An encoded node comes back without its id. -/
lemma NodeImage.toNode_ofNode {n : Node} (h : n.bdf.valid = true) :
    (NodeImage.ofNode n).toNode = { n.persisted with id := default } := by
  rw [toNode_ofNode_shown (by rwa [Bdf.shown_of_valid h]), Bdf.shown_of_valid h]
  rfl

/-! ### The strings of a stream -/

lemma stringsShort_flagged {ι : Type} {f : ι → List Token} (h : ∀ i, StringsShort (f i))
    (x : Flagged ι) : StringsShort (x.fields f) := by
  by_cases hflag : x.flag ≠ 0
  · rw [Flagged.fields_of_ne hflag]
    exact stringsShort_append (stringsShort_fixed _) (h _)
  · rw [Flagged.fields_of_eq hflag]
    exact stringsShort_append (stringsShort_fixed _) stringsShort_nil

lemma stringsShort_listFields (xs : List UInt64) : StringsShort (listFields xs) :=
  stringsShort_append (stringsShort_fixed _) (stringsShort_flatMap fun _ _ => stringsShort_fixed _)

lemma stringsShort_records {ι : Type} {f : ι → List Token} {is : List ι}
    (h : ∀ i ∈ is, StringsShort (f i)) : StringsShort (recordFields f is) :=
  stringsShort_append (stringsShort_fixed _) (stringsShort_flatMap h)

lemma length_canonical (b : Bdf) : b.canonical.length = 12 := rfl

lemma NodeImage.stringsShort {n : Node} (h : n.Persistable) :
    StringsShort (NodeImage.ofNode n).fields := by
  refine stringsShort_flatten ?_
  simp only [List.forall_mem_cons, List.not_mem_nil, false_imp_iff, implies_true, and_true]
  exact ⟨stringsShort_str (by rw [ShortString, ofNode, length_canonical]; decide),
    stringsShort_fixed _, stringsShort_fixed _, stringsShort_fixed _,
    stringsShort_flagged (fun _ => stringsShort_fixed _) _, stringsShort_listFields _,
    stringsShort_str h.vendor, stringsShort_str h.device, stringsShort_str h.className,
    stringsShort_str h.driver, stringsShort_fixed _⟩

lemma PathImage.stringsShort (i : PathImage) : StringsShort i.fields := by
  refine stringsShort_flatten ?_
  simp only [List.forall_mem_cons, List.not_mem_nil, false_imp_iff, implies_true, and_true,
    stringsShort_fixed, stringsShort_listFields, true_and]
  exact ⟨stringsShort_flagged (fun _ => stringsShort_fixed _) _,
    stringsShort_flagged (fun _ => stringsShort_fixed _) _⟩

lemma MeasurementImage.stringsShort {m : Measurement} (h : m.Persistable) :
    StringsShort (MeasurementImage.ofMeasurement m).fields := by
  refine stringsShort_flatten ?_
  simp only [List.forall_mem_cons, List.not_mem_nil, false_imp_iff, implies_true, and_true,
    stringsShort_fixed, true_and]
  exact ⟨stringsShort_flagged (fun _ => stringsShort_fixed _) _, stringsShort_str h.syncSemantics,
    stringsShort_str h.backendDetail⟩

lemma ReservationImage.stringsShort {r : Reservation} (h : ShortString r.workload) :
    StringsShort (ReservationImage.ofReservation r).fields := by
  refine stringsShort_flatten ?_
  simp only [List.forall_mem_cons, List.not_mem_nil, false_imp_iff, implies_true, and_true,
    stringsShort_fixed, true_and]
  exact stringsShort_str h

/-- The strings of a persistable snapshot are short in its stream. -/
lemma SnapshotImage.stringsShort {s : Snapshot} (h : s.Persistable) :
    StringsShort (SnapshotImage.ofSnapshot s).fields := by
  refine stringsShort_flatten ?_
  simp only [List.forall_mem_cons, List.not_mem_nil, false_imp_iff, implies_true, and_true,
    stringsShort_fixed, true_and]
  refine ⟨stringsShort_str (by rw [ShortString]; decide), stringsShort_records ?_,
    stringsShort_records fun p _ => p.stringsShort, stringsShort_records ?_,
    stringsShort_records ?_, stringsShort_records fun _ _ => stringsShort_fixed _⟩
  · intro i hi
    obtain ⟨n, hn, rfl⟩ := List.mem_map.mp hi
    exact NodeImage.stringsShort (h.nodes.2 n hn)
  · intro i hi
    obtain ⟨m, hm, rfl⟩ := List.mem_map.mp hi
    exact MeasurementImage.stringsShort (h.measurements.2 m hm)
  · intro i hi
    obtain ⟨r, hr, rfl⟩ := List.mem_map.mp hi
    exact ReservationImage.stringsShort (h.reservations.2 r hr)

/-- No string of the stream starts at or before the offset 256 KiB and ends after it. The
offset of a string is where the tokens before it end, behind its length. -/
def SnapshotImage.NoneStraddles (i : SnapshotImage) : Prop :=
  ∀ pre text post, i.fields = pre ++ Token.str text :: post →
    ¬ Straddles ((layout.bytes pre).length + 4) text.length

/-- Short strings fit when none straddles. -/
lemma SnapshotImage.fits_iff {i : SnapshotImage} (h : StringsShort i.fields) :
    i.Fits ↔ i.NoneStraddles := fits_iff_clear h

/-- In a stream of at most 256 KiB no string straddles. -/
lemma SnapshotImage.noneStraddles_of_le {i : SnapshotImage}
    (h : i.bytes.length ≤ Reader.maxString) : i.NoneStraddles := clear_of_le h

/-! ### The round trip -/

lemma lt_of_shortString {text : List UInt8} (h : ShortString text) : text.length < 2 ^ 32 :=
  h.trans_lt (by decide)

lemma lt_of_shortList {α : Type} {as : List α} (h : ShortList as) : as.length < 2 ^ 32 :=
  h.trans_lt (by decide)

lemma NodeImage.accepted_ofNode {n : Node} (h : n.Persistable) : (NodeImage.ofNode n).Accepted where
  bdf_length := by rw [ofNode, length_canonical]; decide
  bdf_parses := ⟨n.bdf, Bdf.parse_canonical h.address⟩
  provenance_valid := h.enums.provenance
  children_length := by rw [ofNode, List.length_map]; exact lt_of_shortList h.children
  vendor_length := lt_of_shortString h.vendor
  device_length := lt_of_shortString h.device
  className_length := lt_of_shortString h.className
  driver_length := lt_of_shortString h.driver

lemma PathImage.accepted_ofPath {p : Path} (h : p.Persistable) : (PathImage.ofPath p).Accepted where
  pathClass_valid := h.enums.pathClass
  bridgeChain_length := by rw [ofPath, List.length_map]; exact lt_of_shortList h.bridgeChain
  links_length := by rw [ofPath, List.length_map]; exact lt_of_shortList h.links
  locality_valid := h.enums.locality
  freshness_valid := h.enums.freshness
  contention_valid := h.enums.contention

lemma MeasurementImage.accepted_ofMeasurement {m : Measurement} (h : m.Persistable) :
    (MeasurementImage.ofMeasurement m).Accepted where
  transferClass_valid := h.enums.transferClass
  engine_valid := h.enums.engine
  provenance_valid := h.enums.provenance
  syncSemantics_length := lt_of_shortString h.syncSemantics
  backendDetail_length := lt_of_shortString h.backendDetail

/-- The keys of the decoded records are those of the encoded ones. -/
lemma map_key_map {ι α κ : Type} {g : α → ι} {v : ι → α} {key : α → κ}
    (h : ∀ a, key (v (g a)) = key a) (as : List α) :
    ((as.map g).map v).map key = as.map key := by
  rw [List.map_map, List.map_map]
  exact List.map_congr_left fun a _ => h a

lemma pathIds_ofSnapshot (s : Snapshot) :
    (SnapshotImage.ofSnapshot s).toRecords.paths.map Path.id = s.paths.map Path.id :=
  map_key_map (fun _ => rfl) s.paths

lemma measurementIds_ofSnapshot (s : Snapshot) :
    (SnapshotImage.ofSnapshot s).toRecords.measurements.map Measurement.id =
      s.measurements.map Measurement.id :=
  map_key_map (fun _ => rfl) s.measurements

lemma reservationIds_ofSnapshot (s : Snapshot) :
    (SnapshotImage.ofSnapshot s).toRecords.reservations.map Reservation.id =
      s.reservations.map Reservation.id := by
  refine map_key_map (fun r => ?_) s.reservations
  rw [ReservationImage.toReservation]
  split <;> rfl

/-- The nodes come back when they carry the default id. -/
lemma nodes_ofSnapshot {s : Snapshot} (h : s.Persistable) (hids : ∀ n ∈ s.nodes, n.id = default) :
    (SnapshotImage.ofSnapshot s).toRecords.nodes = s.nodes.map Node.persisted := by
  show (s.nodes.map NodeImage.ofNode).map NodeImage.toNode = _
  rw [List.map_map]
  refine List.map_congr_left fun n hn => ?_
  show (NodeImage.ofNode n).toNode = n.persisted
  rw [NodeImage.toNode_ofNode (h.nodes.2 n hn).address, ← hids n hn]
  rfl

lemma SnapshotImage.accepted_ofSnapshot {s : Snapshot} (h : s.Persistable)
    (hids : ∀ n ∈ s.nodes, n.id = default) : (SnapshotImage.ofSnapshot s).Accepted where
  nodes_length := by rw [ofSnapshot, List.length_map]; exact h.nodes.1
  nodes_accepted i hi := by
    obtain ⟨n, hn, rfl⟩ := List.mem_map.mp hi
    exact NodeImage.accepted_ofNode (h.nodes.2 n hn)
  nodes_distinct := by
    rw [nodes_ofSnapshot h hids, List.map_map]
    exact h.nodeIds
  paths_length := by rw [ofSnapshot, List.length_map]; exact h.paths.1
  paths_accepted i hi := by
    obtain ⟨p, hp, rfl⟩ := List.mem_map.mp hi
    exact PathImage.accepted_ofPath (h.paths.2 p hp)
  paths_distinct := by rw [pathIds_ofSnapshot]; exact h.pathIds
  measurements_length := by rw [ofSnapshot, List.length_map]; exact h.measurements.1
  measurements_accepted i hi := by
    obtain ⟨m, hm, rfl⟩ := List.mem_map.mp hi
    exact MeasurementImage.accepted_ofMeasurement (h.measurements.2 m hm)
  measurements_distinct := by rw [measurementIds_ofSnapshot]; exact h.measurementIds
  reservations_length := by rw [ofSnapshot, List.length_map]; exact h.reservations.1
  reservations_accepted i hi := by
    obtain ⟨r, hr, rfl⟩ := List.mem_map.mp hi
    exact lt_of_shortString (h.reservations.2 r hr)
  reservations_distinct := by rw [reservationIds_ofSnapshot]; exact h.reservationIds
  policies_length := by rw [ofSnapshot, List.length_map]; exact h.policies

/-- What comes back agrees. -/
lemma agrees_ofSnapshot {s : Snapshot} (h : s.Persistable) (hids : ∀ n ∈ s.nodes, n.id = default) :
    s.Agrees (SnapshotImage.ofSnapshot s).toSnapshot where
  sequence := rfl
  epoch := rfl
  nodes := by
    show (SnapshotImage.ofSnapshot s).toRecords.nodes.map Node.persisted = _
    rw [nodes_ofSnapshot h hids, List.map_map]
    rfl
  paths := pathIds_ofSnapshot s
  measurements := measurementIds_ofSnapshot s
  reservations := reservationIds_ofSnapshot s
  policies := by
    show (s.policies.map StrongId.value).map StrongId.mk = s.policies
    rw [List.map_map]
    exact List.map_id' s.policies

/-- No decoded node carries an id. -/
lemma ids_of_agrees {s : Snapshot} {i : SnapshotImage} (h : s.Agrees i.toSnapshot) :
    ∀ n ∈ s.nodes, n.id = default := by
  intro n hn
  have hmem : n.persisted ∈ i.toSnapshot.nodes.map Node.persisted := by
    rw [h.nodes]
    exact List.mem_map_of_mem hn
  obtain ⟨n', hn', heq⟩ := List.mem_map.mp hmem
  obtain ⟨j, -, rfl⟩ := List.mem_map.mp hn'
  exact (congrArg Node.id heq).symm

/-- Reading what is written is reading the bytes of the fields. -/
lemma serialize_bind (s : Snapshot) (beyond : Nat → UInt8) :
    (serialize s >>= fun body => deserialize body beyond) =
      deserialize (SnapshotImage.ofSnapshot s).bytes beyond := by
  rw [serialize_eq]
  rfl

/-- **The round trip, exactly.** A snapshot with distinct ids, valid addresses
and enum fields, and bounded strings and lists is read back from its own bytes
with its persisted part unchanged, if and only if its nodes carry the id that
every decoded node has and none of its strings starts at or before the offset 256 KiB and
ends after it. -/
theorem roundtrip_iff {s : Snapshot} (h : s.Persistable) (beyond : Nat → UInt8) :
    (∃ s', (serialize s >>= fun body => deserialize body beyond) = .ok s' ∧ s.Agrees s') ↔
      (∀ n ∈ s.nodes, n.id = default) ∧ (SnapshotImage.ofSnapshot s).NoneStraddles := by
  rw [serialize_bind, ← SnapshotImage.fits_iff (SnapshotImage.stringsShort h)]
  constructor
  · rintro ⟨s', hs', hagrees⟩
    obtain ⟨i, -, -, -, rfl⟩ := deserialize_ok_iff.mp hs'
    have hids := ids_of_agrees hagrees
    refine ⟨hids, by_contra fun hfit => ?_⟩
    obtain ⟨e, he⟩ := deserialize_refuses (SnapshotImage.accepted_ofSnapshot h hids) hfit beyond
    rw [he] at hs'
    cases hs'
  · rintro ⟨hids, hfit⟩
    exact ⟨_, deserialize_ok_iff.mpr ⟨_, rfl, SnapshotImage.accepted_ofSnapshot h hids, hfit, rfl⟩,
      agrees_ofSnapshot h hids⟩

/-- A root complex at `0000:bus:00.0`. -/
def rootNode (id : PciNodeId) (bus : UInt8) : Node :=
  { id, bdf := { bus }, kind := DeviceClass.rootComplex }

lemma persistable_rootNode (id : PciNodeId) (bus : UInt8) : (rootNode id bus).Persistable where
  address := rfl
  enums := ⟨rfl, rfl⟩
  children := Nat.zero_le _
  vendor := Nat.zero_le _
  device := Nat.zero_le _
  className := Nat.zero_le _
  driver := Nat.zero_le _

/-- A snapshot of root complexes only. -/
lemma persistable_roots {nodes : List Node} (hids : (nodes.map Node.id).Nodup)
    (hlen : ShortList nodes) (h : ∀ n ∈ nodes, ∃ id bus, n = rootNode id bus) :
    ({ nodes } : Snapshot).Persistable where
  nodeIds := hids
  pathIds := List.nodup_nil
  measurementIds := List.nodup_nil
  reservationIds := List.nodup_nil
  nodes := ⟨hlen, fun n hn => by
    obtain ⟨id, bus, rfl⟩ := h n hn
    exact persistable_rootNode id bus⟩
  paths := ⟨Nat.zero_le _, fun _ hp => by cases hp⟩
  measurements := ⟨Nat.zero_le _, fun _ hm => by cases hm⟩
  reservations := ⟨Nat.zero_le _, fun _ hr => by cases hr⟩
  policies := Nat.zero_le _

/-- One node without id comes back. -/
theorem roundtrip_lone_node : ∃ s', (serialize { nodes := [rootNode ⟨0⟩ 0] } >>= fun body =>
    deserialize body fun _ => 0) = .ok s' ∧ ({ nodes := [rootNode ⟨0⟩ 0] } : Snapshot).Agrees s' :=
  (roundtrip_iff (persistable_roots (by decide) (by decide) (by simp)) fun _ => 0).mpr
    ⟨by decide, SnapshotImage.noneStraddles_of_le (by decide +kernel)⟩

/-- Two root complexes with the ids 1 and 2 are written with no id, read back as
two nodes with the id 0, and refused as duplicates. -/
theorem roundtrip_refuses_two_nodes :
    ({ nodes := [rootNode ⟨1⟩ 0, rootNode ⟨2⟩ 1] } : Snapshot).Persistable ∧
      (serialize { nodes := [rootNode ⟨1⟩ 0, rootNode ⟨2⟩ 1] } >>= fun body =>
        deserialize body fun _ => 0) = Result.err .duplicateIdentity "duplicate node id" :=
  ⟨persistable_roots (by decide) (by decide) (by simp), by decide +kernel⟩

end Persist

end PcieFabric
