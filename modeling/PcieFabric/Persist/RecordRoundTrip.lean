import PcieFabric.Persist.Stability

/-!
The round trip of single records through `encode` and their decoders
(`persistence.hpp`).

* `measurement_roundtrip_iff`: a measurement comes back unchanged exactly when its
  start and end are unset and its path, if it has one, is of generation 1.
* `reservation_roundtrip_iff`: a reservation comes back unchanged exactly when it is
  active or released.
-/

namespace PcieFabric

/-- No setter makes a reservation both active and released. -/
lemma Reservation.Built.flags {r : Reservation} (h : r.Built) :
    r.activeFlag = true → r.releasedFlag = false := by
  induction h with
  | new id gen => exact fun h => absurd h Bool.false_ne_true
  | setPath _ p pgen ih => exact ih
  | setAuthority _ w boot attempt epoch pol pgen ih => exact ih
  | setRequest _ bytes bps duration prio src dst workload ih => exact ih
  | markActive _ ih => exact fun _ => rfl
  | markReleased _ ih => exact fun h => absurd h Bool.false_ne_true

namespace Persist

open Layout Token

/-- The decoder returns the record and stops at the end of its encoding. -/
def ReturnsWhole {α : Type} (decode : ReadM α) (bytes : List UInt8) (beyond : Nat → UInt8)
    (a : α) : Prop :=
  ∃ r, decode { data := bytes, beyond } = (.ok a, r) ∧ r.atEnd = true

/-- What a decoder returns, it returns alone. -/
lemma ReturnsWhole.unique {α : Type} {decode : ReadM α} {bytes : List UInt8}
    {beyond : Nat → UInt8} {a b : α} (ha : ReturnsWhole decode bytes beyond a)
    (hb : ReturnsWhole decode bytes beyond b) : a = b := by
  obtain ⟨r, hr, -⟩ := ha
  obtain ⟨r', hr', -⟩ := hb
  exact Except.ok.inj (Prod.mk.inj (hr.symm.trans hr')).1

/-! ### Measurements -/

/-- An encoded measurement shorter than 256 KiB is read to its end. -/
lemma returnsWhole_measurement {m : Measurement} (h : m.Persistable)
    (hlen : (encodeMeasurement m).length < 256 * 1024) (beyond : Nat → UInt8) :
    ReturnsWhole decodeMeasurement (encodeMeasurement m) beyond
      (MeasurementImage.ofMeasurement m).toMeasurement := by
  rw [← bytes_ofMeasurement] at hlen ⊢
  exact exists_run_whole reads_decodeMeasurement
    ⟨_, MeasurementImage.accepted_ofMeasurement h, rfl, rfl⟩
    ((fits_iff_clear (MeasurementImage.stringsShort h)).mpr (clear_of_le hlen.le)) beyond

/-- What is read: the generation of a path is 1, and the times are unset. -/
lemma MeasurementImage.toMeasurement_ofMeasurement (m : Measurement) :
    (MeasurementImage.ofMeasurement m).toMeasurement =
      { m with
        pathGeneration := m.path.map fun _ => ⟨1⟩
        start := default
        finish := default } := by
  have hpath : ((Flagged.ofOption (m.path.map StrongId.value)).toOption fun p => p).map
      StrongId.mk = m.path := by
    cases m.path <;> rfl
  have hgen : (((Flagged.ofOption (m.path.map StrongId.value)).toOption fun p => p).map
      fun _ => (⟨1⟩ : PathGeneration)) = m.path.map fun _ => ⟨1⟩ := by
    cases m.path <;> rfl
  rw [toMeasurement, ofMeasurement, hpath, hgen]

/-- **The round trip of a measurement, exactly.** A measurement with valid enum fields
and strings of at most 64 KiB, encoded in less than 256 KiB, is read back unchanged
from exactly its encoding if and only if its times are unset and the generation of
its path is 1. -/
theorem measurement_roundtrip_iff {m : Measurement} (h : m.Persistable)
    (hlen : (encodeMeasurement m).length < 256 * 1024) (beyond : Nat → UInt8) :
    ReturnsWhole decodeMeasurement (encodeMeasurement m) beyond m ↔
      m.start = default ∧ m.finish = default ∧ m.pathGeneration = m.path.map fun _ => ⟨1⟩ := by
  have hread := returnsWhole_measurement h hlen beyond
  rw [MeasurementImage.toMeasurement_ofMeasurement] at hread
  constructor
  · intro hback
    have heq := hback.unique hread
    exact ⟨congrArg Measurement.start heq, congrArg Measurement.finish heq,
      congrArg Measurement.pathGeneration heq⟩
  · rintro ⟨hstart, hfinish, hgen⟩
    rw [← hgen] at hread
    have hsame : { m with
        start := default
        finish := default } = m := by
      cases m
      cases hstart
      cases hfinish
      rfl
    rwa [hsame] at hread

lemma persistable_defaults {m : Measurement} (htc : m.transferClass = TransferClass.unknown)
    (heng : m.engine = EngineKind.none) (hprov : m.provenance = Provenance.unknown)
    (hss : m.syncSemantics = []) (hbd : m.backendDetail = []) : m.Persistable where
  enums := ⟨htc ▸ rfl, heng ▸ rfl, hprov ▸ rfl⟩
  syncSemantics := hss ▸ Nat.zero_le _
  backendDetail := hbd ▸ Nat.zero_le _

/-- A measurement on generation 1 of a path. -/
theorem measurement_on_first_generation_returns :
    let m : Measurement := { id := ⟨5⟩, path := some ⟨1⟩, pathGeneration := some ⟨1⟩ }
    m.Persistable ∧ ReturnsWhole decodeMeasurement (encodeMeasurement m) (fun _ => 0) m := by
  intro m
  have hm : m.Persistable := persistable_defaults rfl rfl rfl rfl rfl
  exact ⟨hm, (measurement_roundtrip_iff hm (by decide +kernel) _).mpr ⟨rfl, rfl, rfl⟩⟩

/-- A measurement on generation 2 of a path, that started at 1000 ms: it is read back
on generation 1 and without its times. -/
theorem measurement_generation_lost : ¬ ∀ m beyond, Measurement.Persistable m →
    (encodeMeasurement m).length < 256 * 1024 →
      ReturnsWhole decodeMeasurement (encodeMeasurement m) beyond m := by
  intro h
  let m : Measurement :=
    { path := some ⟨1⟩, pathGeneration := some ⟨2⟩, start := ⟨1000⟩, finish := ⟨2000⟩ }
  have hm : m.Persistable := persistable_defaults rfl rfl rfl rfl rfl
  have hlen : (encodeMeasurement m).length < 256 * 1024 := by decide +kernel
  have heq := (h m (fun _ => 0) hm hlen).unique (returnsWhole_measurement hm hlen _)
  rw [MeasurementImage.toMeasurement_ofMeasurement] at heq
  exact absurd (congrArg Measurement.pathGeneration heq) (by decide)

/-! ### Reservations -/

/-- The encoding of a reservation is 138 bytes and its workload. -/
lemma length_encodeReservation (r : Reservation) :
    (encodeReservation r).length = 138 + r.workload.length := by
  simp only [encodeReservation, Writer.u64, Writer.f64, Writer.u32, Writer.string, Writer.u8,
    List.flatten_cons, List.flatten_nil, List.length_append, List.length_nil, List.length_cons,
    LittleEndian.length_bytes]
  omega

/-- An encoded reservation is read to its end, as active or as released. -/
lemma returnsWhole_reservation {r : Reservation} (h : ShortString r.workload)
    (beyond : Nat → UInt8) : ReturnsWhole decodeReservation (encodeReservation r) beyond
      { r with
        createdAt := default
        activeFlag := r.active
        releasedFlag := !r.active } := by
  have hlen : (encodeReservation r).length ≤ Reader.maxString := by
    rw [length_encodeReservation, Reader.maxString]
    rw [ShortString] at h
    omega
  rw [← ReservationImage.toReservation_ofReservation]
  rw [← bytes_ofReservation] at hlen ⊢
  exact exists_run_whole reads_decodeReservation ⟨_, lt_of_shortString h, rfl, rfl⟩
    ((fits_iff_clear (ReservationImage.stringsShort h)).mpr (clear_of_le hlen)) beyond

/-- **The round trip of a reservation, exactly.** A reservation that the constructor
and the setters make, with a workload of at most 64 KiB, is read back unchanged from
exactly its encoding if and only if it is active or released. -/
theorem reservation_roundtrip_iff {r : Reservation} (hbuilt : r.Built)
    (h : ShortString r.workload) (beyond : Nat → UInt8) :
    ReturnsWhole decodeReservation (encodeReservation r) beyond r ↔
      r.active = true ∨ r.released = true := by
  have hread := returnsWhole_reservation h beyond
  constructor
  · intro hback
    have heq := hback.unique hread
    have hreleased : r.released = !r.active := congrArg Reservation.releasedFlag heq
    cases hactive : r.active with
    | true => exact .inl rfl
    | false => exact .inr (by rw [hreleased, hactive, Bool.not_false])
  · intro hstate
    have hflags : r.activeFlag = r.active ∧ r.releasedFlag = !r.active := by
      rw [Reservation.active]
      cases hactive : r.activeFlag with
      | true =>
          rw [hbuilt.flags hactive]
          exact ⟨rfl, rfl⟩
      | false =>
          rw [Reservation.active, hactive] at hstate
          exact ⟨rfl, hstate.resolve_left Bool.false_ne_true⟩
    rw [← hflags.2, ← hflags.1, ← hbuilt.createdAt] at hread
    exact hread

/-- An active reservation. -/
theorem active_reservation_returns :
    ReturnsWhole decodeReservation
      (encodeReservation (({ id := ⟨9⟩ } : Reservation).setPath ⟨1⟩ ⟨1⟩).markActive) (fun _ => 0)
      (({ id := ⟨9⟩ } : Reservation).setPath ⟨1⟩ ⟨1⟩).markActive :=
  (reservation_roundtrip_iff ((Reservation.Built.new ⟨9⟩ default).setPath ⟨1⟩ ⟨1⟩).markActive
    (Nat.zero_le _) _).mpr (.inl rfl)

/-- A reservation that is neither active nor released is read back as released. -/
theorem fresh_reservation_released : ¬ ∀ r beyond, Reservation.Built r → ShortString r.workload →
    ReturnsWhole decodeReservation (encodeReservation r) beyond r := by
  intro h
  have hread := returnsWhole_reservation (r := { id := ⟨9⟩ }) (Nat.zero_le _) fun _ => 0
  have heq := (h { id := ⟨9⟩ } _ (.new ⟨9⟩ default) (Nat.zero_le _)).unique hread
  exact absurd (congrArg Reservation.releasedFlag heq) (by decide)

end Persist

end PcieFabric
