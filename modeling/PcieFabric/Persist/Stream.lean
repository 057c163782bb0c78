import PcieFabric.Persist.Images

/-!
What `deserialize` accepts.

* `SnapshotImage`: a whole stream by its fields, `Accepted` with the checks of
  `deserialize`, `Fits` with the length tests of the strings at their offsets.
* `deserialize_ok_iff`: `deserialize` succeeds exactly on the bytes of the
  accepted images that fit, and returns what they stand for.
* `deserialize_refuses`: an accepted image that does not fit is refused.
-/

namespace PcieFabric.Persist

open Layout Token

/-! ### Counted records -/

/-- The tokens of a bounded count and as many records. -/
def recordFields {ι : Type} (f : ι → List Token) (is : List ι) : List Token :=
  fixed (Writer.u32Count is.length) ++ is.flatMap f

/-- The duplicate test admits a list exactly when its keys are distinct. -/
lemma admitted_distinctBy {α κ : Type} [DecidableEq κ] {key : α → κ} {message : String}
    (seen as : List α) : Admitted (distinctBy key message) seen as ↔
      (as.map key).Nodup ∧ ∀ a ∈ as, key a ∉ seen.map key := by
  induction as generalizing seen with
  | nil => simp [Admitted]
  | cons a as ih =>
      have hhead : distinctBy key message seen a = .ok () ↔ key a ∉ seen.map key := by
        by_cases h : key a ∈ seen.map key
        · simp [distinctBy, h, Result.err]
        · simp [distinctBy, h]
      rw [Admitted, hhead, ih, List.map_cons, List.nodup_cons, List.forall_mem_cons,
        List.map_append]
      constructor
      · rintro ⟨ha, hnodup, has⟩
        refine ⟨⟨fun hmem => ?_, hnodup⟩, ha,
          fun b hb hseen => has b hb (List.mem_append_left _ hseen)⟩
        obtain ⟨b, hb, hkey⟩ := List.mem_map.mp hmem
        exact has b hb (List.mem_append_right _ (by simp [hkey]))
      · rintro ⟨⟨hnot, hnodup⟩, ha, has⟩
        refine ⟨ha, hnodup, fun b hb hmem => ?_⟩
        rcases List.mem_append.mp hmem with hseen | hlast
        · exact has b hb hseen
        · rw [List.map_cons, List.map_nil, List.mem_singleton] at hlast
          exact hnot (List.mem_map.mpr ⟨b, hb, hlast⟩)

/-- **A loop of `deserialize`** reads bounded lists of records with distinct
keys. -/
theorem reads_countedRecords {ι α κ : Type} [DecidableEq κ] {decode : ReadM α}
    {accepted : ι → Prop} {f : ι → List Token} {v : ι → α}
    (h : layout.Reads decode (Images accepted f v)) (key : α → κ) (message : String) :
    layout.Reads (countedRecords decode key message) (Images
      (fun is : List ι => is.length ≤ Reader.maxCount ∧ (∀ i ∈ is, accepted i) ∧
        ((is.map v).map key).Nodup)
      (recordFields f) fun is => is.map v) := by
  refine (Reads.bind reads_u32Count fun n => Reads.collect h _ n.toNat).congr ?_
  intro ts as
  constructor
  · rintro ⟨_, _, n, rfl, ⟨hn, rfl⟩, is, ⟨hlen, hacc, hadm⟩, rfl, rfl⟩
    refine ⟨is, ⟨by rw [hlen]; exact hn, hacc, ((admitted_distinctBy _ _).mp hadm).1⟩, ?_, rfl⟩
    rw [recordFields, Writer.u32Count, hlen, UInt32.ofNat_toNat]
  · rintro ⟨is, ⟨hle, hacc, hnodup⟩, rfl, rfl⟩
    have hcast : (UInt32.ofNat is.length).toNat = is.length :=
      UInt32.toNat_ofNat_of_lt' (hle.trans_lt (by decide))
    exact ⟨_, _, UInt32.ofNat is.length, rfl, ⟨by rw [hcast]; exact hle, rfl⟩, is,
      ⟨hcast.symm, hacc, (admitted_distinctBy _ _).mpr ⟨hnodup, by simp⟩⟩, rfl, rfl⟩

/-! ### The stream -/

/-- The fields of a snapshot stream. -/
structure SnapshotImage where
  sequence : UInt64
  epoch : UInt64
  nodes : List NodeImage
  paths : List PathImage
  measurements : List MeasurementImage
  reservations : List ReservationImage
  policies : List UInt64

namespace SnapshotImage

/-- The tokens of a snapshot stream. -/
def fields (i : SnapshotImage) : List Token :=
  List.flatten [[.str streamMagic], fixed (Writer.u64 i.sequence), fixed (Writer.u64 i.epoch),
    recordFields NodeImage.fields i.nodes, recordFields PathImage.fields i.paths,
    recordFields MeasurementImage.fields i.measurements,
    recordFields ReservationImage.fields i.reservations,
    recordFields (fun p => fixed (Writer.u64 p)) i.policies]

/-- The bytes of the stream. -/
def bytes (i : SnapshotImage) : List UInt8 := layout.bytes i.fields

/-- Every string of the stream passes the length test at its offset. -/
def Fits (i : SnapshotImage) : Prop := layout.Fits 0 i.fields

/-- The records as the decoders return them. -/
def toRecords (i : SnapshotImage) : Snapshot where
  sequence := i.sequence
  epoch := ⟨i.epoch⟩
  nodes := i.nodes.map NodeImage.toNode
  paths := i.paths.map PathImage.toPath
  measurements := i.measurements.map MeasurementImage.toMeasurement
  reservations := i.reservations.map ReservationImage.toReservation
  policies := i.policies.map StrongId.mk

/-- What `deserialize` makes of the stream. -/
def toSnapshot (i : SnapshotImage) : Snapshot := withDigest i.toRecords

/-- What `deserialize` checks besides the strings. -/
structure Accepted (i : SnapshotImage) : Prop where
  nodes_length : i.nodes.length ≤ Reader.maxCount
  nodes_accepted : ∀ n ∈ i.nodes, n.Accepted
  nodes_distinct : (i.toRecords.nodes.map Node.id).Nodup
  paths_length : i.paths.length ≤ Reader.maxCount
  paths_accepted : ∀ p ∈ i.paths, p.Accepted
  paths_distinct : (i.toRecords.paths.map Path.id).Nodup
  measurements_length : i.measurements.length ≤ Reader.maxCount
  measurements_accepted : ∀ m ∈ i.measurements, m.Accepted
  measurements_distinct : (i.toRecords.measurements.map Measurement.id).Nodup
  reservations_length : i.reservations.length ≤ Reader.maxCount
  reservations_accepted : ∀ r ∈ i.reservations, r.Accepted
  reservations_distinct : (i.toRecords.reservations.map Reservation.id).Nodup
  policies_length : i.policies.length ≤ Reader.maxCount

end SnapshotImage

/-- The stream magic is read and compared. -/
lemma reads_magic (magic : List UInt8) (e : Error) :
    layout.Reads (Decoder.ensure (magic == streamMagic) e) fun ts (_ : Unit) =>
      magic = streamMagic ∧ ts = [] :=
  (Reads.ensure _ _).congr fun _ _ => by rw [beq_iff_eq, and_comm]

/-- The policies, behind their bounded count. -/
lemma reads_policies (n : UInt32) :
    layout.Reads (Decoder.collect (fun _ _ => .ok ()) Reader.u64 n.toNat) fun ts ps =>
      ps.length = n.toNat ∧ ts = ps.flatMap fun p => fixed (Writer.u64 p) := by
  refine (Reads.collect reads_u64.image _ n.toNat).congr fun ts ps => ?_
  constructor
  · rintro ⟨is, ⟨hlen, -⟩, rfl, hps⟩
    obtain rfl : ps = is := hps.trans (List.map_id is)
    exact ⟨hlen, rfl⟩
  · rintro ⟨hlen, rfl⟩
    exact ⟨ps, ⟨hlen, fun _ _ => trivial, admitted_all _ _⟩, rfl, (List.map_id ps).symm⟩

/-- **`deserialize` up to its end** reads the accepted snapshot images. -/
theorem reads_decodeSnapshot : layout.Reads decodeSnapshot
    (Images SnapshotImage.Accepted SnapshotImage.fields SnapshotImage.toRecords) := by
  refine (Reads.bindImages (Reads.ownImage reads_string) fun magic =>
    Reads.bindImages (Reads.ownImage (reads_magic magic _)) fun _ =>
    Reads.bindImages reads_u64.image fun seq => Reads.bindImages reads_u64.image fun ep =>
    Reads.bindImages (reads_countedRecords reads_decodeNode _ _) fun nodes =>
    Reads.bindImages (reads_countedRecords reads_decodePath _ _) fun paths =>
    Reads.bindImages (reads_countedRecords reads_decodeMeasurement _ _) fun measurements =>
    Reads.bindImages (reads_countedRecords reads_decodeReservation _ _) fun reservations =>
    Reads.bindImages (Reads.ownImage reads_u32Count) fun npol =>
    Reads.bindImages (Reads.ownImage (reads_policies npol)) fun policies =>
    Reads.pureImage _).congr (images_congr ?_ ?_)
  · rintro ⟨magic, _, seq, ep, nodes, paths, measurements, reservations, npol, policies, _⟩
      ⟨-, hmagic, -, -, hn, hp, hm, hr, hnpol, hpol, -⟩
    obtain rfl : magic = streamMagic := hmagic
    have hlen : policies.length = npol.toNat := hpol
    refine ⟨⟨seq, ep, nodes, paths, measurements, reservations, policies⟩,
      ⟨hn.1, hn.2.1, hn.2.2, hp.1, hp.2.1, hp.2.2, hm.1, hm.2.1, hm.2.2, hr.1, hr.2.1, hr.2.2,
        by rw [hlen]; exact hnpol⟩, ?_, rfl⟩
    have hcast : UInt32.ofNat policies.length = npol := by rw [hlen, UInt32.ofNat_toNat]
    simp only [SnapshotImage.fields, recordFields, Writer.u32Count, hcast, List.flatten_cons,
      List.flatten_nil, List.append_assoc, List.nil_append, List.append_nil]
  · rintro i ⟨hn, hna, hnd, hp, hpa, hpd, hm, hma, hmd, hr, hra, hrd, hpol⟩
    have hcast : (UInt32.ofNat i.policies.length).toNat = i.policies.length :=
      UInt32.toNat_ofNat_of_lt' (hpol.trans_lt (by decide))
    have hmagic : streamMagic.length < 2 ^ 32 := by decide
    refine ⟨⟨streamMagic, (), i.sequence, i.epoch, i.nodes, i.paths, i.measurements, i.reservations,
      UInt32.ofNat i.policies.length, i.policies, ()⟩,
      ⟨hmagic, rfl, trivial, trivial, ⟨hn, hna, hnd⟩, ⟨hp, hpa, hpd⟩, ⟨hm, hma, hmd⟩,
        ⟨hr, hra, hrd⟩, hcast.trans_le hpol, hcast.symm, trivial⟩, ?_, rfl⟩
    simp only [SnapshotImage.fields, recordFields, Writer.u32Count, List.flatten_cons,
      List.flatten_nil, List.append_assoc, List.nil_append, List.append_nil]

/-- **What `deserialize` accepts**: the bytes of the accepted images that fit,
and nothing else. -/
theorem deserialize_ok_iff {data : List UInt8} {beyond : Nat → UInt8} {s : Snapshot} :
    deserialize data beyond = .ok s ↔
      ∃ i : SnapshotImage, i.bytes = data ∧ i.Accepted ∧ i.Fits ∧ s = i.toSnapshot := by
  rw [deserialize, decodeStream, ok_whole_iff reads_decodeSnapshot]
  constructor
  · rintro ⟨_, _, ⟨i, hacc, rfl, rfl⟩, hbytes, hfit, rfl⟩
    exact ⟨i, hbytes, hacc, hfit, rfl⟩
  · rintro ⟨i, hbytes, hacc, hfit, rfl⟩
    exact ⟨_, _, ⟨i, hacc, rfl, rfl⟩, hbytes, hfit, rfl⟩

/-- An accepted image that does not fit is refused. -/
theorem deserialize_refuses {i : SnapshotImage} (hacc : i.Accepted) (hfit : ¬ i.Fits)
    (beyond : Nat → UInt8) : ∃ e, deserialize i.bytes beyond = .error e :=
  refused_whole reads_decodeSnapshot withDigest ⟨i, hacc, rfl, rfl⟩ hfit

/-! ### What holds of every decoded snapshot -/

/-- A decoded snapshot has at most one node, since all its nodes carry the
default id. -/
lemma nodes_length_le_one {data : List UInt8} {beyond : Nat → UInt8} {s : Snapshot}
    (h : deserialize data beyond = .ok s) : s.nodes.length ≤ 1 := by
  obtain ⟨i, -, hacc, -, rfl⟩ := deserialize_ok_iff.mp h
  have hids : i.toRecords.nodes.map Node.id = List.replicate i.nodes.length default := by
    rw [SnapshotImage.toRecords, List.map_map]
    exact List.map_const'
  have hnodup := hacc.nodes_distinct
  rw [hids, List.nodup_replicate] at hnodup
  exact (List.length_map _).trans_le hnodup

/-- The paths of a decoded snapshot have distinct ids. -/
lemma pathIds_nodup {data : List UInt8} {beyond : Nat → UInt8} {s : Snapshot}
    (h : deserialize data beyond = .ok s) : (s.paths.map Path.id).Nodup := by
  obtain ⟨i, -, hacc, -, rfl⟩ := deserialize_ok_iff.mp h
  exact hacc.paths_distinct

end PcieFabric.Persist
