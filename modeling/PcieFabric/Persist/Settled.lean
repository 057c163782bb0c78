import PcieFabric.Persist.Stability
import PcieFabric.Persist.RecordRoundTrip

/-!
Records that come back as they are written.

* `Settled`: the encoded fields of a record are accepted and read back as the record.
* `NodeImage.Accepted.settled` and its siblings: what a record decoder returns is settled.
* `Snapshot.Settled.reads_back`: a settled snapshot comes back unchanged where its strings
  fit, and is refused elsewhere.
* `recoded_snapshot_iff`: this holds of everything that `deserialize` returns.
-/

namespace PcieFabric.Persist

open Layout Token

/-- The fields `g a` of a record are accepted, and `v` reads the record back from them. -/
def Settled {ι α : Type} (accepted : ι → Prop) (g : α → ι) (v : ι → α) (a : α) : Prop :=
  accepted (g a) ∧ v (g a) = a

/-- Settled records are accepted, and read back one by one. -/
lemma settled_list {ι α : Type} {accepted : ι → Prop} {g : α → ι} {v : ι → α} {as : List α}
    (h : ∀ a ∈ as, Settled accepted g v a) :
    (∀ i ∈ as.map g, accepted i) ∧ (as.map g).map v = as := by
  refine ⟨List.forall_mem_map.mpr fun a ha => (h a ha).1, ?_⟩
  rw [List.map_map]
  exact (List.map_congr_left fun a ha => (h a ha).2).trans (List.map_id' as)

/-- A list of at most one element repeats nothing. -/
lemma nodup_of_length_le_one {α : Type} {as : List α} (h : as.length ≤ 1) : as.Nodup := by
  rcases as with _ | ⟨a, _ | ⟨b, rest⟩⟩
  · exact List.nodup_nil
  · exact List.nodup_singleton a
  · rw [List.length_cons, List.length_cons] at h
    omega

/-! ### Settled records -/

/-- The node comes back. -/
abbrev Node.Settled : Node → Prop :=
  Persist.Settled NodeImage.Accepted NodeImage.ofNode NodeImage.toNode

/-- The path comes back. -/
abbrev Path.Settled : Path → Prop :=
  Persist.Settled PathImage.Accepted PathImage.ofPath PathImage.toPath

/-- The measurement comes back. -/
abbrev Measurement.Settled : Measurement → Prop :=
  Persist.Settled MeasurementImage.Accepted MeasurementImage.ofMeasurement
    MeasurementImage.toMeasurement

/-- The reservation comes back. -/
abbrev Reservation.Settled : Reservation → Prop :=
  Persist.Settled ReservationImage.Accepted ReservationImage.ofReservation
    ReservationImage.toReservation

/-- A node with a valid address and provenance, without an id of its own and without links,
comes back. -/
lemma settled_node {n : Node} (haddress : n.bdf.valid = true) (hprov : n.provenance.valid = true)
    (hpersisted : { n.persisted with id := default } = n)
    (hchildren : n.children.length < 2 ^ 32) (hvendor : n.vendor.length < 2 ^ 32)
    (hdevice : n.device.length < 2 ^ 32) (hclass : n.className.length < 2 ^ 32)
    (hdriver : n.driver.length < 2 ^ 32) : Node.Settled n where
  left :=
    { bdf_length := by rw [NodeImage.ofNode, length_canonical]; decide
      bdf_parses := ⟨n.bdf, Bdf.parse_canonical haddress⟩
      provenance_valid := hprov
      children_length := by rwa [NodeImage.ofNode, List.length_map]
      vendor_length := hvendor
      device_length := hdevice
      className_length := hclass
      driver_length := hdriver }
  right := (NodeImage.toNode_ofNode haddress).trans hpersisted

/-- A decoded node comes back. -/
lemma NodeImage.Accepted.settled {i : NodeImage} (h : i.Accepted) : Node.Settled i.toNode := by
  obtain ⟨b, hb⟩ := h.bdf_parses
  refine settled_node ?_ h.provenance_valid rfl ?_ h.vendor_length h.device_length
    h.className_length h.driver_length
  · rw [toNode, address_of_parse hb]
    exact Bdf.valid_of_parse hb
  · rw [toNode, List.length_map]
    exact h.children_length

/-- A decoded path comes back. -/
lemma PathImage.Accepted.settled {i : PathImage} (h : i.Accepted) : Path.Settled i.toPath where
  left :=
    { pathClass_valid := h.pathClass_valid
      bridgeChain_length := by
        rw [ofPath, toPath, List.length_map, List.length_map]
        exact h.bridgeChain_length
      links_length := by
        rw [ofPath, toPath, List.length_map, List.length_map]
        exact h.links_length
      locality_valid := h.locality_valid
      freshness_valid := h.freshness_valid
      contention_valid := h.contention_valid }
  right := by
    have hprov : (i.toPath.bestMeasured.map fun _ => i.toPath.measuredProvenance).getD
        Provenance.unknown = i.toPath.measuredProvenance := by
      rcases i.measured_cases with ⟨-, hbest, -⟩ | ⟨-, hbest, hprov⟩
      · rw [hbest]
        rfl
      · rw [hbest, hprov]
        rfl
    rw [toPath_ofPath, hprov, show i.toPath.confidence.toByte = i.confidence from
      Confidence.toByte_ofByte i.confidence]
    rfl

/-- The freshness of a settled path may change. -/
lemma Path.Settled.withFreshness {p : Path} (h : Path.Settled p) {f : FreshnessRecord}
    (hf : f.state.valid = true) : Path.Settled { p with freshness := f } := by
  refine ⟨{ h.1 with freshness_valid := hf }, ?_⟩
  have hread : (PathImage.ofPath { p with freshness := f }).toPath =
      { (PathImage.ofPath p).toPath with freshness := f } := rfl
  rw [hread, h.2]

/-- A decoded measurement comes back. -/
lemma MeasurementImage.Accepted.settled {i : MeasurementImage} (h : i.Accepted) :
    Measurement.Settled i.toMeasurement where
  left := ⟨h.transferClass_valid, h.engine_valid, h.provenance_valid, h.syncSemantics_length,
    h.backendDetail_length⟩
  right := by
    rw [toMeasurement_ofMeasurement, toMeasurement]
    cases i.path.toOption fun p => p <;> rfl

/-- A decoded reservation comes back. -/
lemma ReservationImage.Accepted.settled {i : ReservationImage} (h : i.Accepted) :
    Reservation.Settled i.toReservation := by
  rw [toReservation]
  split
  · exact ⟨h, toReservation_ofReservation _⟩
  · exact ⟨h, toReservation_ofReservation _⟩

/-! ### Settled snapshots -/

/-- A snapshot of few enough settled records with distinct ids, with the digest of what it
says and nothing that is not written. -/
structure Snapshot.Settled (s : Snapshot) : Prop where
  nodes : ∀ n ∈ s.nodes, Node.Settled n
  nodes_distinct : (s.nodes.map Node.id).Nodup
  nodes_length : s.nodes.length ≤ Reader.maxCount
  paths : ∀ p ∈ s.paths, Path.Settled p
  paths_distinct : (s.paths.map Path.id).Nodup
  paths_length : s.paths.length ≤ Reader.maxCount
  measurements : ∀ m ∈ s.measurements, Measurement.Settled m
  measurements_distinct : (s.measurements.map Measurement.id).Nodup
  measurements_length : s.measurements.length ≤ Reader.maxCount
  reservations : ∀ r ∈ s.reservations, Reservation.Settled r
  reservations_distinct : (s.reservations.map Reservation.id).Nodup
  reservations_length : s.reservations.length ≤ Reader.maxCount
  policies_length : s.policies.length ≤ Reader.maxCount
  rest : s = withDigest
    { sequence := s.sequence, epoch := s.epoch, nodes := s.nodes, paths := s.paths
      measurements := s.measurements, reservations := s.reservations, policies := s.policies }

namespace Snapshot.Settled

variable {s : Snapshot}

/-- The records are read back. -/
lemma toRecords_eq (h : Snapshot.Settled s) : (SnapshotImage.ofSnapshot s).toRecords =
    { sequence := s.sequence, epoch := s.epoch, nodes := s.nodes, paths := s.paths
      measurements := s.measurements, reservations := s.reservations, policies := s.policies } := by
  simp only [SnapshotImage.toRecords, SnapshotImage.ofSnapshot, (settled_list h.nodes).2,
    (settled_list h.paths).2, (settled_list h.measurements).2, (settled_list h.reservations).2,
    map_mk_map_value]

/-- The decoder makes the snapshot of it again. -/
lemma toSnapshot_eq (h : Snapshot.Settled s) : (SnapshotImage.ofSnapshot s).toSnapshot = s := by
  rw [SnapshotImage.toSnapshot, h.toRecords_eq]
  exact h.rest.symm

/-- The decoder accepts what is written. -/
lemma accepted (h : Snapshot.Settled s) : (SnapshotImage.ofSnapshot s).Accepted where
  nodes_length := (List.length_map _).trans_le h.nodes_length
  nodes_accepted := (settled_list h.nodes).1
  nodes_distinct := by
    rw [h.toRecords_eq]
    exact h.nodes_distinct
  paths_length := (List.length_map _).trans_le h.paths_length
  paths_accepted := (settled_list h.paths).1
  paths_distinct := by
    rw [h.toRecords_eq]
    exact h.paths_distinct
  measurements_length := (List.length_map _).trans_le h.measurements_length
  measurements_accepted := (settled_list h.measurements).1
  measurements_distinct := by
    rw [h.toRecords_eq]
    exact h.measurements_distinct
  reservations_length := (List.length_map _).trans_le h.reservations_length
  reservations_accepted := (settled_list h.reservations).1
  reservations_distinct := by
    rw [h.toRecords_eq]
    exact h.reservations_distinct
  policies_length := (List.length_map _).trans_le h.policies_length

/-- **A settled snapshot comes back** unchanged where its strings fit, and its stream is
refused elsewhere. -/
theorem reads_back (h : Snapshot.Settled s) (beyond : Nat → UInt8) :
    ((SnapshotImage.ofSnapshot s).Fits →
      deserialize (SnapshotImage.ofSnapshot s).bytes beyond = .ok s) ∧
    (¬ (SnapshotImage.ofSnapshot s).Fits →
      ∃ e, deserialize (SnapshotImage.ofSnapshot s).bytes beyond = .error e) := by
  refine ⟨fun hfit => ?_, fun hfit => deserialize_refuses h.accepted hfit beyond⟩
  exact deserialize_ok_iff.mpr ⟨_, rfl, h.accepted, hfit, h.toSnapshot_eq.symm⟩

/-- It comes back exactly where its strings fit. -/
lemma deserialize_iff (h : Snapshot.Settled s) (beyond : Nat → UInt8) :
    deserialize (SnapshotImage.ofSnapshot s).bytes beyond = .ok s ↔
      (SnapshotImage.ofSnapshot s).Fits := by
  refine ⟨fun hok => ?_, (h.reads_back beyond).1⟩
  by_contra hfit
  obtain ⟨e, he⟩ := (h.reads_back beyond).2 hfit
  rw [hok] at he
  cases he

end Snapshot.Settled

/-- What `deserialize` returns is settled. -/
lemma settled_of_deserialize {data : List UInt8} {beyond : Nat → UInt8} {s : Snapshot}
    (h : deserialize data beyond = .ok s) : Snapshot.Settled s := by
  obtain ⟨i, -, hacc, -, rfl⟩ := deserialize_ok_iff.mp h
  exact {
    nodes := List.forall_mem_map.mpr fun n hn => (hacc.nodes_accepted n hn).settled
    nodes_distinct := hacc.nodes_distinct
    nodes_length := (List.length_map _).trans_le hacc.nodes_length
    paths := List.forall_mem_map.mpr fun p hp => (hacc.paths_accepted p hp).settled
    paths_distinct := hacc.paths_distinct
    paths_length := (List.length_map _).trans_le hacc.paths_length
    measurements := List.forall_mem_map.mpr fun m hm => (hacc.measurements_accepted m hm).settled
    measurements_distinct := hacc.measurements_distinct
    measurements_length := (List.length_map _).trans_le hacc.measurements_length
    reservations := List.forall_mem_map.mpr fun r hr => (hacc.reservations_accepted r hr).settled
    reservations_distinct := hacc.reservations_distinct
    reservations_length := (List.length_map _).trans_le hacc.reservations_length
    policies_length := (List.length_map _).trans_le hacc.policies_length
    rest := rfl }

/-- **Decoded snapshots are fixed points.** What `deserialize` returned is serialized and
deserialized to the same snapshot, in every field, exactly when its strings fit; otherwise
its stream is refused. -/
theorem recoded_snapshot_iff {data : List UInt8} {beyond : Nat → UInt8} {s : Snapshot}
    (h : deserialize data beyond = .ok s) (beyond' : Nat → UInt8) :
    ((serialize s >>= fun body => deserialize body beyond') = .ok s ↔
      (SnapshotImage.ofSnapshot s).Fits) ∧
    (¬ (SnapshotImage.ofSnapshot s).Fits →
      ∃ e, (serialize s >>= fun body => deserialize body beyond') = .error e) := by
  rw [serialize_eq]
  have hsettled := settled_of_deserialize h
  exact ⟨hsettled.deserialize_iff beyond', (hsettled.reads_back beyond').2⟩

/-- A path with a measured bandwidth. -/
def measuredSnapshot : Snapshot where
  sequence := 7
  paths := [{ id := ⟨1⟩, bestMeasured := some ⟨.ofFloat 1.5⟩ }]

/-- It comes back a second time as it came back the first time. -/
theorem measured_snapshot_recoded :
    let s := (SnapshotImage.ofSnapshot measuredSnapshot).toSnapshot
    ((serialize s >>= fun body => deserialize body fun _ => 0) = .ok s ↔
      (SnapshotImage.ofSnapshot s).Fits) ∧
    (¬ (SnapshotImage.ofSnapshot s).Fits →
      ∃ e, (serialize s >>= fun body => deserialize body fun _ => 0) = .error e) := by
  have hread : deserialize (SnapshotImage.ofSnapshot measuredSnapshot).bytes (fun _ => 0) =
      .ok (SnapshotImage.ofSnapshot measuredSnapshot).toSnapshot := by decide +kernel
  exact recoded_snapshot_iff hread fun _ => 0

end PcieFabric.Persist
