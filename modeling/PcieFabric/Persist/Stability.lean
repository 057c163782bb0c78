import Mathlib
import PcieFabric.Persist.ReadBack

/-!
What a snapshot keeps when it is written and read back.

* `Snapshot.Told`: the lists and strings that are written are shorter than `2^32`.
* `read_eq_of_deserialize`: a serialized snapshot that is accepted is read as the
  fields that the encoder wrote, and the texts of its addresses parse.
* `digest_and_bytes_stable`: it has the digest of the first one and is serialized
  to the same bytes.
-/

namespace PcieFabric

/-- Every list and string of the snapshot that is written is shorter than `2^32`. -/
structure Snapshot.Told (s : Snapshot) : Prop where
  nodes : s.nodes.length < 2 ^ 32 ∧ ∀ n ∈ s.nodes, n.children.length < 2 ^ 32 ∧
    n.vendor.length < 2 ^ 32 ∧ n.device.length < 2 ^ 32 ∧ n.className.length < 2 ^ 32 ∧
    n.driver.length < 2 ^ 32
  paths : s.paths.length < 2 ^ 32 ∧
    ∀ p ∈ s.paths, p.bridgeChain.length < 2 ^ 32 ∧ p.links.length < 2 ^ 32
  measurements : s.measurements.length < 2 ^ 32 ∧ ∀ m ∈ s.measurements,
    m.syncSemantics.length < 2 ^ 32 ∧ m.backendDetail.length < 2 ^ 32
  reservations : s.reservations.length < 2 ^ 32 ∧
    ∀ r ∈ s.reservations, r.workload.length < 2 ^ 32
  policies : s.policies.length < 2 ^ 32

/-- A byte of confidence is read and written as the same byte. -/
lemma Confidence.toByte_ofByte (b : UInt8) : (Confidence.ofByte b).toByte = b := by
  have key : ∀ k : Fin 256, (Confidence.ofByte (UInt8.ofNat k.1)).toByte = UInt8.ofNat k.1 := by
    decide +kernel
  simpa using key ⟨b.toNat, b.toNat_lt⟩

namespace Persist

/-! ### What is read -/

lemma SnapshotImage.told_ofSnapshot {s : Snapshot} (h : s.Told) :
    (SnapshotImage.ofSnapshot s).Told := by
  refine ⟨?_, ?_, ?_, ?_, ?_⟩
  · refine ⟨(List.length_map _).trans_lt h.nodes.1, List.forall_mem_map.mpr fun n hn => ?_⟩
    obtain ⟨hchildren, hv, hd, hcl, hdr⟩ := h.nodes.2 n hn
    exact ⟨(length_canonical n.bdf).trans_lt (by decide), (List.length_map _).trans_lt hchildren,
      hv, hd, hcl, hdr⟩
  · refine ⟨(List.length_map _).trans_lt h.paths.1, List.forall_mem_map.mpr fun p hp => ?_⟩
    obtain ⟨hchain, hlinks⟩ := h.paths.2 p hp
    exact ⟨(List.length_map _).trans_lt hchain, (List.length_map _).trans_lt hlinks⟩
  · refine ⟨(List.length_map _).trans_lt h.measurements.1, List.forall_mem_map.mpr fun m hm => ?_⟩
    obtain ⟨hss, hbd⟩ := h.measurements.2 m hm
    exact ⟨hss, hbd⟩
  · exact ⟨(List.length_map _).trans_lt h.reservations.1,
      List.forall_mem_map.mpr fun r hr => h.reservations.2 r hr⟩
  · exact (List.length_map _).trans_lt h.policies

/-- **Reading a serialized snapshot**, of any length: what is accepted is read as
the fields that the encoder wrote, and the texts of its addresses parse. -/
theorem read_eq_of_deserialize {s s' : Snapshot} {body : List UInt8} {beyond : Nat → UInt8}
    (htold : s.Told) (hbody : serialize s = .ok body) (h : deserialize body beyond = .ok s') :
    s' = (SnapshotImage.ofSnapshot s).toSnapshot ∧
      ∀ n ∈ s.nodes, n.bdf.shown.valid = true := by
  rw [serialize_eq] at hbody
  obtain rfl : (SnapshotImage.ofSnapshot s).bytes = body := Except.ok.inj hbody
  obtain ⟨i, hi, hacc, -, rfl⟩ := deserialize_ok_iff.mp h
  obtain ⟨hread, -⟩ := SnapshotImage.determines i (SnapshotImage.ofSnapshot s) [] [] hacc.told
    (SnapshotImage.told_ofSnapshot htold) (by rw [List.append_nil, List.append_nil]; exact hi)
  obtain ⟨hbdf, hrecords⟩ := Prod.mk.inj hread
  refine ⟨congrArg withDigest hrecords, fun n hn => ?_⟩
  have hmem : n.bdf.canonical ∈ i.nodes.map NodeImage.bdf := by
    rw [hbdf, SnapshotImage.ofSnapshot, List.map_map]
    exact List.mem_map_of_mem hn
  obtain ⟨m, hm, hm'⟩ := List.mem_map.mp hmem
  obtain ⟨b, hb⟩ := (hacc.nodes_accepted m hm).bdf_parses
  rw [hm', Bdf.parse_canonical_eq] at hb
  by_contra hnot
  rw [if_neg hnot] at hb
  cases hb

/-! ### What a record keeps -/

/-- A node that is read back. -/
lemma node_stable {n : Node} (h : n.bdf.shown.valid = true) :
    encodeNode (NodeImage.ofNode n).toNode = encodeNode n ∧
      ∀ d, digestNode d (NodeImage.ofNode n).toNode = digestNode d n := by
  rw [NodeImage.toNode_ofNode_shown h]
  constructor
  · rw [encodeNode, encodeNode, Bdf.canonical_shown]
    rfl
  · intro d
    rw [digestNode, digestNode, Bdf.canonical_shown]
    rfl

/-- Identities that are written and read. -/
lemma map_mk_map_value {tag : IdTag} (ids : List (StrongId tag)) :
    (ids.map StrongId.value).map StrongId.mk = ids := by
  rw [List.map_map]
  exact List.map_id' ids

/-- A flagged value that is written and read. -/
lemma toOption_ofOption {ι α : Type} [Inhabited ι] (v : ι → α) (o : Option ι) :
    (Flagged.ofOption o).toOption v = o.map v := by
  cases o <;> rfl

/-- A path is read back with a confidence of 256 steps, with the measured
provenance only beside a measured bandwidth, and without what is not written. -/
lemma PathImage.toPath_ofPath (p : Path) : (PathImage.ofPath p).toPath =
    { p with
      caps := ∅
      history := []
      shared := []
      freshness := ⟨p.freshness.state, p.freshness.ageMs⟩
      contentionScore := ⟨p.contentionScore.value⟩
      measuredProvenance :=
        (p.bestMeasured.map fun _ => p.measuredProvenance).getD Provenance.unknown
      confidence := Confidence.ofByte p.confidence.toByte
      hostGeneration := ⟨1⟩
      pathGeneration := ⟨p.generation.value⟩
      deviceGeneration := ⟨1⟩ } := by
  have hmeasured : (p.bestMeasured.map fun bps => (bps, p.measuredProvenance)).map Prod.fst =
      p.bestMeasured := by
    cases p.bestMeasured <;> rfl
  have hprovenance : (p.bestMeasured.map fun bps => (bps, p.measuredProvenance)).map Prod.snd =
      p.bestMeasured.map fun _ => p.measuredProvenance := by
    cases p.bestMeasured <;> rfl
  simp only [toPath, ofPath, toOption_ofOption, map_mk_map_value, Option.map_id', hmeasured,
    hprovenance]

/-- A path that is read back. -/
lemma path_stable (p : Path) : encodePath (PathImage.ofPath p).toPath = encodePath p ∧
    ∀ d, digestPath d (PathImage.ofPath p).toPath = digestPath d p := by
  rw [PathImage.toPath_ofPath]
  refine ⟨?_, fun d => rfl⟩
  cases hbest : p.bestMeasured with
  | none => simp only [encodePath, hbest, Confidence.toByte_ofByte, encodeOption]
  | some b =>
      simp only [encodePath, hbest, Confidence.toByte_ofByte, encodeOption, Option.map_some,
        Option.getD_some]

/-- A measurement that is read back. -/
lemma measurement_stable (m : Measurement) :
    encodeMeasurement (MeasurementImage.ofMeasurement m).toMeasurement = encodeMeasurement m ∧
      ∀ d, digestMeasurement d (MeasurementImage.ofMeasurement m).toMeasurement =
        digestMeasurement d m := by
  have hpath : ((Flagged.ofOption (m.path.map StrongId.value)).toOption fun p => p).map
      StrongId.mk = m.path := by
    cases m.path <;> rfl
  refine ⟨?_, fun d => rfl⟩
  rw [encodeMeasurement, encodeMeasurement, MeasurementImage.toMeasurement,
    MeasurementImage.ofMeasurement, hpath]

/-- A reservation is read back as active or as released, and its time of creation
is not read. -/
lemma ReservationImage.toReservation_ofReservation (r : Reservation) :
    (ReservationImage.ofReservation r).toReservation =
      { r with
        createdAt := default
        activeFlag := r.active
        releasedFlag := !r.active } := by
  cases hactive : r.active with
  | true =>
      have hflag : (ReservationImage.ofReservation r).active = 1 := by
        rw [ofReservation, hactive]
        rfl
      rw [toReservation, hflag, if_pos (by decide)]
      rfl
  | false =>
      have hflag : (ReservationImage.ofReservation r).active = 0 := by
        rw [ofReservation, hactive]
        rfl
      rw [toReservation, hflag, if_neg (by decide)]
      rfl

/-- A reservation that is read back, if it is active or released: no setter gives
it a time of creation. -/
lemma reservation_stable {r : Reservation} (hbuilt : r.Built)
    (h : r.active = true ∨ r.released = true) :
    encodeReservation (ReservationImage.ofReservation r).toReservation = encodeReservation r := by
  have hreleased : r.released = !r.active := by
    rcases h with hactive | hreleased
    · rw [hactive]
      rw [Reservation.active, Bool.and_eq_true, Bool.not_eq_true'] at hactive
      exact hactive.2
    · have hflag : r.releasedFlag = true := hreleased
      rw [hreleased, Reservation.active, hflag, Bool.not_true, Bool.and_false, Bool.not_false]
  have hactive : ({ r with
      createdAt := default
      activeFlag := r.active
      releasedFlag := !r.active } : Reservation).active = r.active := by
    rw [Reservation.active, Bool.not_not, Bool.and_self]
  rw [ReservationImage.toReservation_ofReservation, encodeReservation, hactive]
  rw [encodeReservation, hreleased, hbuilt.createdAt]
  rfl

/-! ### Digest and bytes -/

/-- Records that are written alike stand behind the same count. -/
lemma encodeRecords_of_eq {ι α : Type} {w : α → List UInt8} {g : α → ι} {v : ι → α} {as : List α}
    (h : ∀ a ∈ as, w (v (g a)) = w a) :
    encodeRecords w ((as.map g).map v) = encodeRecords w as := by
  rw [encodeRecords, encodeRecords, List.length_map, List.length_map, List.flatMap_map,
    List.flatMap_map]
  exact congrArg _ (List.flatMap_congr h)

/-- Records that are digested alike leave the same digest. -/
lemma foldl_of_eq {ι α : Type} {f : UInt64 → α → UInt64} {g : α → ι} {v : ι → α} {as : List α}
    (h : ∀ a ∈ as, ∀ d, f d (v (g a)) = f d a) (d : UInt64) :
    ((as.map g).map v).foldl f d = as.foldl f d := by
  rw [List.foldl_map, List.foldl_map]
  exact List.foldl_ext _ _ _ fun d a ha => h a ha d

/-- **Digest and bytes are stable.** A snapshot whose lists and strings are
shorter than `2^32` and whose reservations are active or released is read back,
if it is accepted, as a snapshot with the same digest and the same bytes. -/
theorem digest_and_bytes_stable {s s' : Snapshot} {body : List UInt8} {beyond : Nat → UInt8}
    (htold : s.Told) (hres : ∀ r ∈ s.reservations, r.Built ∧ (r.active = true ∨ r.released = true))
    (hbody : serialize s = .ok body) (h : deserialize body beyond = .ok s') :
    semanticDigest s' = semanticDigest s ∧ serialize s' = serialize s := by
  obtain ⟨rfl, hshown⟩ := read_eq_of_deserialize htold hbody h
  constructor
  · exact semanticDigest_congr rfl rfl (foldl_of_eq fun n hn => (node_stable (hshown n hn)).2)
      (foldl_of_eq fun p _ => (path_stable p).2) (foldl_of_eq fun m _ => (measurement_stable m).2)
  · simp only [serialize, SnapshotImage.toSnapshot, withDigest, SnapshotImage.toRecords,
      SnapshotImage.ofSnapshot, map_mk_map_value]
    rw [encodeRecords_of_eq fun n hn => (node_stable (hshown n hn)).1,
      encodeRecords_of_eq fun p _ => (path_stable p).1,
      encodeRecords_of_eq fun m _ => (measurement_stable m).1,
      encodeRecords_of_eq fun r hr => reservation_stable (hres r hr).1 (hres r hr).2]

/-- A node, a path with both bandwidths, a measurement and an active reservation. -/
def keptSnapshot : Snapshot where
  sequence := 7
  nodes := [{ bdf := { bus := 3, device := 2 }, parent := some ⟨4⟩, vendor := ascii "v" }]
  paths := [{
    id := ⟨1⟩
    bridgeChain := [⟨2⟩]
    theoretical := some ⟨⟨4⟩, ⟨16⟩⟩
    bestMeasured := some ⟨.ofFloat 1.5⟩
    measuredProvenance := Provenance.measured
    confidence := Confidence.ofByte 200 }]
  measurements := [{ id := ⟨5⟩, bytes := ⟨4096⟩, durationNs := ⟨1000⟩, path := some ⟨1⟩ }]
  reservations := [(({ id := ⟨9⟩ } : Reservation).setPath ⟨1⟩ ⟨1⟩).markActive]
  policies := [⟨6⟩]

/-- It is accepted, with its digest and its bytes. -/
theorem kept_snapshot_stable : ∃ s', (serialize keptSnapshot >>= fun body =>
    deserialize body fun _ => 0) = .ok s' ∧
      semanticDigest s' = semanticDigest keptSnapshot ∧ serialize s' = serialize keptSnapshot := by
  have hread : deserialize (SnapshotImage.ofSnapshot keptSnapshot).bytes (fun _ => 0) =
      .ok (SnapshotImage.ofSnapshot keptSnapshot).toSnapshot := by decide +kernel
  have htold : keptSnapshot.Told :=
    ⟨by decide +kernel, by decide +kernel, by decide +kernel, by decide +kernel, by decide⟩
  refine ⟨_, (serialize_bind keptSnapshot _).trans hread,
    digest_and_bytes_stable htold ?_ (serialize_eq keptSnapshot) hread⟩
  intro r hr
  obtain rfl := List.mem_singleton.mp hr
  exact ⟨((Reservation.Built.new ⟨9⟩ default).setPath ⟨1⟩ ⟨1⟩).markActive, .inl rfl⟩

end Persist

end PcieFabric
