import PcieFabric.Persist.Stream

/-!
Which values `deserialize` can return.

* `Node.EnumsValid`, `Path.EnumsValid`, `Measurement.EnumsValid`: the enum fields
  of a record have an entry in their name tables.
* `Snapshot.AllValid`: all enum fields, all addresses and all double-backed
  quantities of a snapshot are valid.
* `SnapshotImage.UncheckedValid`: the seven fields of the stream that no decoder
  checks hold valid values.
* `decoded_allValid_iff`: a stream decodes to valid values only, exactly when its
  unchecked fields are valid.
-/

namespace PcieFabric

/-- The enum fields of a node are valid. -/
structure Node.EnumsValid (n : Node) : Prop where
  kind : n.kind.valid = true
  provenance : n.provenance.valid = true

/-- The enum fields of a path are valid. -/
structure Path.EnumsValid (p : Path) : Prop where
  pathClass : p.pathClass.valid = true
  locality : p.locality.valid = true
  theoretical : ∀ e ∈ p.theoretical, e.generation.valid = true
  measuredProvenance : p.measuredProvenance.valid = true
  freshness : p.freshness.state.valid = true
  contention : p.contention.valid = true
  structuralProvenance : p.structuralProvenance.valid = true

/-- The enum fields of a measurement are valid. -/
structure Measurement.EnumsValid (m : Measurement) : Prop where
  transferClass : m.transferClass.valid = true
  engine : m.engine.valid = true
  provenance : m.provenance.valid = true

/-- The double-backed quantities of a path are valid. -/
structure Path.QuantitiesValid (p : Path) : Prop where
  bestMeasured : ∀ bps ∈ p.bestMeasured, BytesPerSecond.isValid bps.value = true
  contentionScore : ContentionScore.isValid p.contentionScore.value = true
  confidence : Confidence.isValid p.confidence.value = true

/-- Every enum field, address and double-backed quantity of a snapshot is valid. -/
structure Snapshot.AllValid (s : Snapshot) : Prop where
  nodes : ∀ n ∈ s.nodes, n.EnumsValid ∧ n.bdf.valid = true
  paths : ∀ p ∈ s.paths, p.EnumsValid ∧ p.QuantitiesValid
  measurements : ∀ m ∈ s.measurements, m.EnumsValid
  reservations : ∀ r ∈ s.reservations, BytesPerSecond.isValid r.bandwidth.value = true

namespace Persist

/-- The field of a node record that is not checked: its kind, narrowed to a
byte. -/
def NodeImage.UncheckedValid (i : NodeImage) : Prop :=
  (⟨i.kind.toUInt8⟩ : DeviceClass).valid = true

/-- The fields of a path record that are not checked. -/
structure PathImage.UncheckedValid (i : PathImage) : Prop where
  theoretical : i.theoretical.flag ≠ 0 → i.theoretical.value.generation.valid = true
  measured : i.measured.flag ≠ 0 → BytesPerSecond.isValid i.measured.value.1.value = true
  measuredProvenance : i.measured.flag ≠ 0 → i.measured.value.2.valid = true
  contentionScore : ContentionScore.isValid i.contentionScore = true
  structuralProvenance : i.structuralProvenance.valid = true

/-- The field of a reservation record that is not checked. -/
def ReservationImage.UncheckedValid (i : ReservationImage) : Prop :=
  BytesPerSecond.isValid i.bandwidth = true

/-- The unchecked fields of a stream hold valid values. -/
structure SnapshotImage.UncheckedValid (i : SnapshotImage) : Prop where
  nodes : ∀ n ∈ i.nodes, n.UncheckedValid
  paths : ∀ p ∈ i.paths, p.UncheckedValid
  reservations : ∀ r ∈ i.reservations, r.UncheckedValid

/-- A node is valid when its kind is: the rest was checked. -/
lemma NodeImage.valid_iff {i : NodeImage} (h : i.Accepted) :
    (i.toNode.EnumsValid ∧ i.toNode.bdf.valid = true) ↔ i.UncheckedValid := by
  obtain ⟨b, hb⟩ := h.bdf_parses
  have hbdf : i.toNode.bdf.valid = true := by
    show i.address.valid = true
    rw [address_of_parse hb]
    exact Bdf.valid_of_parse hb
  constructor
  · rintro ⟨⟨hkind, -⟩, -⟩
    exact hkind
  · intro hkind
    exact ⟨⟨hkind, h.provenance_valid⟩, hbdf⟩

/-- The envelope of a path is present behind a flag. -/
lemma PathImage.mem_theoretical {i : PathImage} {e : LinkEnvelope} :
    e ∈ i.toPath.theoretical ↔ i.theoretical.flag ≠ 0 ∧ i.theoretical.value = e := by
  show Flagged.toOption (fun e => e) i.theoretical = some e ↔ _
  by_cases h : i.theoretical.flag ≠ 0
  · rw [Flagged.toOption_of_ne h, Option.some_inj]
    exact (and_iff_right h).symm
  · rw [Flagged.toOption_of_eq h]
    exact iff_of_false (by simp) fun hflag => h hflag.1

/-- The measured bandwidth of a path and its provenance. -/
lemma PathImage.measured_cases (i : PathImage) :
    (i.measured.flag ≠ 0 ∧ i.toPath.bestMeasured = some i.measured.value.1 ∧
      i.toPath.measuredProvenance = i.measured.value.2) ∨
    (i.measured.flag = 0 ∧ i.toPath.bestMeasured = none ∧
      i.toPath.measuredProvenance = Provenance.unknown) := by
  by_cases h : i.measured.flag ≠ 0
  · refine .inl ⟨h, ?_, ?_⟩ <;>
      simp only [toPath, Flagged.toOption_of_ne h, Option.map_some, Option.getD_some]
  · refine .inr ⟨not_not.mp h, ?_, ?_⟩ <;>
      simp only [toPath, Flagged.toOption_of_eq h, Option.map_none, Option.getD_none]

/-- A path is valid when its unchecked fields are. -/
lemma PathImage.valid_iff {i : PathImage} (h : i.Accepted) :
    (i.toPath.EnumsValid ∧ i.toPath.QuantitiesValid) ↔ i.UncheckedValid := by
  constructor
  · rintro ⟨henums, hquant⟩
    have hbest := hquant.bestMeasured
    have hprov := henums.measuredProvenance
    refine ⟨fun hflag => henums.theoretical _ (mem_theoretical.mpr ⟨hflag, rfl⟩), fun hflag => ?_,
      fun hflag => ?_, hquant.contentionScore, henums.structuralProvenance⟩
    · rcases i.measured_cases with ⟨-, heq, -⟩ | ⟨hzero, -, -⟩
      · exact hbest _ heq
      · exact absurd hzero hflag
    · rcases i.measured_cases with ⟨-, -, heq⟩ | ⟨hzero, -, -⟩
      · rwa [heq] at hprov
      · exact absurd hzero hflag
  · intro hun
    have htheoretical : ∀ e ∈ i.toPath.theoretical, e.generation.valid = true := by
      intro e he
      obtain ⟨hflag, rfl⟩ := mem_theoretical.mp he
      exact hun.theoretical hflag
    rcases i.measured_cases with ⟨hflag, hbest, hprov⟩ | ⟨hflag, hbest, hprov⟩
    · refine ⟨⟨h.pathClass_valid, h.locality_valid, htheoretical, ?_, h.freshness_valid,
        h.contention_valid, hun.structuralProvenance⟩, ?_, hun.contentionScore,
        Confidence.isValid_ofByte _⟩
      · rw [hprov]
        exact hun.measuredProvenance hflag
      · rw [hbest]
        rintro _ ⟨⟩
        exact hun.measured hflag
    · refine ⟨⟨h.pathClass_valid, h.locality_valid, htheoretical, ?_, h.freshness_valid,
        h.contention_valid, hun.structuralProvenance⟩, ?_, hun.contentionScore,
        Confidence.isValid_ofByte _⟩
      · rw [hprov]
        decide
      · rw [hbest]
        rintro _ ⟨⟩

/-- A measurement is checked in full. -/
lemma MeasurementImage.enumsValid {i : MeasurementImage} (h : i.Accepted) :
    i.toMeasurement.EnumsValid :=
  ⟨h.transferClass_valid, h.engine_valid, h.provenance_valid⟩

lemma ReservationImage.bandwidth_toReservation (i : ReservationImage) :
    i.toReservation.bandwidth.value = i.bandwidth := by
  rw [toReservation]
  split <;> rfl

/-- A snapshot is valid when the unchecked fields of its stream are. -/
lemma SnapshotImage.allValid_iff {i : SnapshotImage} (h : i.Accepted) :
    i.toSnapshot.AllValid ↔ i.UncheckedValid := by
  constructor
  · rintro ⟨hnodes, hpaths, -, hres⟩
    refine ⟨fun n hn => ?_, fun p hp => ?_, fun r hr => ?_⟩
    · exact (NodeImage.valid_iff (h.nodes_accepted n hn)).mp (hnodes _ (List.mem_map_of_mem hn))
    · exact (PathImage.valid_iff (h.paths_accepted p hp)).mp (hpaths _ (List.mem_map_of_mem hp))
    · have hvalid := hres _ (List.mem_map_of_mem hr)
      rwa [ReservationImage.bandwidth_toReservation] at hvalid
  · rintro ⟨hnodes, hpaths, hres⟩
    refine ⟨fun _ hn' => ?_, fun _ hp' => ?_, fun _ hm' => ?_, fun _ hr' => ?_⟩
    · obtain ⟨n, hn, rfl⟩ := List.mem_map.mp hn'
      exact (NodeImage.valid_iff (h.nodes_accepted n hn)).mpr (hnodes n hn)
    · obtain ⟨p, hp, rfl⟩ := List.mem_map.mp hp'
      exact (PathImage.valid_iff (h.paths_accepted p hp)).mpr (hpaths p hp)
    · obtain ⟨m, hm, rfl⟩ := List.mem_map.mp hm'
      exact MeasurementImage.enumsValid (h.measurements_accepted m hm)
    · obtain ⟨r, hr, rfl⟩ := List.mem_map.mp hr'
      rw [ReservationImage.bandwidth_toReservation]
      exact hres r hr

/-- **Decoding yields valid values, exactly when** the unchecked fields of the
stream hold valid values: node kinds, theoretical generations, measured
bandwidths and their provenance, contention scores, structural provenance and
reserved bandwidths. -/
theorem decoded_allValid_iff (data : List UInt8) :
    (∀ beyond s, deserialize data beyond = .ok s → s.AllValid) ↔
      ∀ i : SnapshotImage, i.bytes = data → i.Accepted → i.Fits → i.UncheckedValid := by
  constructor
  · intro h i hbytes hacc hfit
    refine (SnapshotImage.allValid_iff hacc).mp (h (fun _ => 0) _ ?_)
    exact deserialize_ok_iff.mpr ⟨i, hbytes, hacc, hfit, rfl⟩
  · intro h beyond s hs
    obtain ⟨i, hbytes, hacc, hfit, rfl⟩ := deserialize_ok_iff.mp hs
    exact (SnapshotImage.allValid_iff hacc).mpr (h i hbytes hacc hfit)

/-- A stream with one node, at `0000:00:00.0`, of kind 200. -/
def strayKindImage : SnapshotImage where
  sequence := 0
  epoch := 0
  nodes := [{
    bdf := ascii "0000:00:00.0", kind := 200, generation := 0, provenance := Provenance.reported
    parent := ⟨0, 0⟩, children := [], vendor := [], device := [], className := [], driver := []
    removed := 0 }]
  paths := []
  measurements := []
  reservations := []
  policies := []

/-- The stream decodes, and the kind of its node has no name. -/
theorem decodes_stray_kind :
    deserialize strayKindImage.bytes (fun _ => 0) = .ok strayKindImage.toSnapshot ∧
      ¬ strayKindImage.toSnapshot.AllValid := by
  refine ⟨by decide +kernel, fun h => ?_⟩
  have hkind := (h.nodes _ (List.mem_singleton.mpr rfl)).1.kind
  revert hkind
  decide

end Persist

end PcieFabric
