import PcieFabric.Lib.Unambiguous
import PcieFabric.Persist.RoundTrip

/-!
What is read back from a serialized snapshot, whatever the snapshot holds.

* `NodeImage.Told`, `PathImage.Told`, `MeasurementImage.Told`,
  `SnapshotImage.Told`: every list and string of an image is shorter than `2^32`,
  so that the 32-bit counts tell its length.
* `determines_str`, `determines_flagged`, `determines_counted`: the parts of a
  record determine their values.
* `NodeImage.determines`, `PathImage.determines`, `MeasurementImage.determines`,
  `ReservationImage.determines`, `SnapshotImage.determines`: the bytes of a record
  determine what the decoder makes of it, also for images that it does not accept.
* `SnapshotImage.told_of_length`: a stream of less than `2^32` bytes is of images
  of that kind.
* `eq_of_deserialize_serialize`: if the bytes of a snapshot are accepted at all,
  they are read as the fields that the encoder wrote.
-/

namespace PcieFabric.Persist

open Layout Token

/-- The tokens `w i` determine `v i` in a stream of less than `2^32` bytes. -/
abbrev Unambiguous {ι α : Type} (w : ι → List Token) (v : ι → α) : Prop :=
  layout.Unambiguous (2 ^ 32) w v

/-- Where `P` holds, the tokens `w i` determine `v i`. -/
abbrev DeterminesOn {ι α : Type} (P : ι → Prop) (w : ι → List Token) (v : ι → α) : Prop :=
  layout.DeterminesOn P w v

/-- The tokens `w i` determine `v i`. -/
abbrev Determines {ι α : Type} (w : ι → List Token) (v : ι → α) : Prop :=
  DeterminesOn (fun _ => True) w v

/-! ### Parts of a record -/

section Parts

variable {ι α : Type}

/-- A field of fixed width, by the bytes of its value. -/
lemma determines_fixed {w : α → List UInt8} {n : Nat} (hlen : ∀ a, (w a).length = n)
    (hinj : Function.Injective w) (g : ι → α) : Determines (fun i => fixed (w (g i))) g := by
  refine DeterminesOn.of_length (fun i j => ?_) fun i j h => ?_
  · rw [bytes_fixed, bytes_fixed, hlen, hlen]
  · rw [bytes_fixed, bytes_fixed] at h
    exact hinj h

lemma determines_u8 (g : ι → UInt8) : Determines (fun i => fixed (Writer.u8 (g i))) g :=
  determines_fixed (w := Writer.u8) (fun _ => rfl) (fun _ _ h => (List.cons.inj h).1) g

lemma determines_enum {names : List String} (g : ι → ScopedEnum names) :
    Determines (fun i => fixed (Writer.u8 (g i).code)) g :=
  determines_fixed (w := fun e : ScopedEnum names => Writer.u8 e.code) (fun _ => rfl)
    (fun _ _ h => congrArg ScopedEnum.mk (List.cons.inj h).1) g

lemma determines_u32 (g : ι → UInt32) : Determines (fun i => fixed (Writer.u32 (g i))) g :=
  determines_fixed (fun _ => LittleEndian.length_bytes _ _) Writer.u32_injective g

lemma determines_u64 (g : ι → UInt64) : Determines (fun i => fixed (Writer.u64 (g i))) g :=
  determines_fixed (fun _ => LittleEndian.length_bytes _ _) Writer.u64_injective g

lemma determines_f64 (g : ι → Double) : Determines (fun i => fixed (Writer.f64 (g i))) g :=
  determines_fixed (fun _ => LittleEndian.length_bytes _ _) Writer.f64_injective g

/-- A 32-bit count tells numbers below `2^32` apart. -/
lemma count_inj {m n : Nat} {r r' : List UInt8} (hm : m < 2 ^ 32) (hn : n < 2 ^ 32)
    (h : layout.bytes (fixed (Writer.u32 (UInt32.ofNat m))) ++ r =
      layout.bytes (fixed (Writer.u32 (UInt32.ofNat n))) ++ r') : m = n ∧ r = r' := by
  rw [bytes_fixed, bytes_fixed] at h
  obtain ⟨hcount, hrest⟩ := List.append_inj h (by rw [Writer.u32, Writer.u32,
    LittleEndian.length_bytes, LittleEndian.length_bytes])
  have hofNat := congrArg UInt32.toNat (Writer.u32_injective hcount)
  rw [UInt32.toNat_ofNat_of_lt' hm, UInt32.toNat_ofNat_of_lt' hn] at hofNat
  exact ⟨hofNat, hrest⟩

/-- A string behind its length. -/
lemma determines_str (g : ι → List UInt8) :
    DeterminesOn (fun i => (g i).length < 2 ^ 32) (fun i => [.str (g i)]) g := by
  intro i j r r' hi hj heq
  simp only [bytes_str, Writer.string, List.append_assoc] at heq
  rw [← bytes_fixed (Writer.u32 _), ← bytes_fixed (Writer.u32 (UInt32.ofNat (g j).length))] at heq
  obtain ⟨hlen, hrest⟩ := count_inj hi hj heq
  exact List.append_inj hrest hlen

/-- A list of fields behind its length. -/
lemma determines_counted {κ : Type} {P : κ → Prop} {w : κ → List Token} {v : κ → α}
    (h : DeterminesOn P w v) (g : ι → List κ) :
    DeterminesOn (fun i => (g i).length < 2 ^ 32 ∧ ∀ k ∈ g i, P k)
      (fun i => recordFields w (g i)) fun i => (g i).map v :=
  (DeterminesOn.counted (c := fun n => fixed (Writer.u32Count n)) h
    fun _ _ _ _ hm hn => count_inj hm hn).comap g

lemma determines_listFields (g : ι → List UInt64) :
    DeterminesOn (fun i => (g i).length < 2 ^ 32) (fun i => listFields (g i)) g :=
  (determines_counted (determines_u64 fun x => x) g).value (fun _ hi => ⟨hi, fun _ _ => trivial⟩)
    fun i j h => by simpa using h

/-- A flag, and the value behind it when it is not zero. -/
lemma determines_flagged {κ : Type} {w : κ → List Token} {v : κ → α} (h : Determines w v)
    (g : ι → Flagged κ) : Determines (fun i => (g i).fields w) fun i => (g i).toOption v := by
  refine DeterminesOn.comap (P := fun _ => True) (w := Flagged.fields w)
    (v := Flagged.toOption v) ?_ g
  intro x y r r' _ _ heq
  have hbytes (x : Flagged κ) : layout.bytes (x.fields w) =
      x.flag :: layout.bytes (if x.flag ≠ 0 then w x.value else []) := rfl
  rw [hbytes, hbytes, List.cons_append, List.cons_append] at heq
  obtain ⟨hflag, hrest⟩ := List.cons.inj heq
  rw [Flagged.toOption, Flagged.toOption, ← hflag]
  rw [← hflag] at hrest
  by_cases hne : x.flag ≠ 0
  · rw [if_pos hne, if_pos hne] at hrest ⊢
    obtain ⟨hv, hr⟩ := h _ _ r r' trivial trivial hrest
    exact ⟨congrArg some hv, hr⟩
  · rw [if_neg hne, if_neg hne] at hrest ⊢
    exact ⟨rfl, hrest⟩

end Parts

/-! ### Records -/

lemma injective_u16 : Function.Injective Writer.u16 := fun a b h => by
  obtain ⟨hlo, htail⟩ := List.cons.inj h
  obtain ⟨hhi, -⟩ := List.cons.inj htail
  exact (join_eq_iff.mpr ⟨rfl, rfl⟩).symm.trans (join_eq_iff.mpr ⟨hlo, hhi⟩)

lemma injective_encodeEnvelope : Function.Injective encodeEnvelope := by
  rintro ⟨⟨g⟩, ⟨l⟩⟩ ⟨⟨g'⟩, ⟨l'⟩⟩ h
  obtain ⟨rfl, hlanes⟩ := List.cons.inj h
  obtain rfl := injective_u16 hlanes
  rfl

lemma injective_encodeMeasured : Function.Injective encodeMeasured := by
  rintro ⟨⟨b⟩, ⟨p⟩⟩ ⟨⟨b'⟩, ⟨p'⟩⟩ h
  obtain ⟨hbps, hprov⟩ := List.append_inj h rfl
  obtain rfl := Writer.f64_injective hbps
  obtain ⟨rfl, -⟩ := List.cons.inj hprov
  rfl

lemma determines_word : Determines (fun x => fixed (Writer.u64 x)) fun x => x :=
  determines_u64 fun x => x

lemma determines_envelope : Determines (fun e => fixed (encodeEnvelope e)) fun e => e :=
  determines_fixed (n := 3) (fun _ => rfl) injective_encodeEnvelope fun e => e

lemma determines_measured : Determines (fun m => fixed (encodeMeasured m)) fun m => m :=
  determines_fixed (n := 9) (fun _ => rfl) injective_encodeMeasured fun m => m

/-- The lists and strings of a node record are shorter than `2^32`. -/
structure NodeImage.Told (i : NodeImage) : Prop where
  bdf : i.bdf.length < 2 ^ 32
  children : i.children.length < 2 ^ 32
  vendor : i.vendor.length < 2 ^ 32
  device : i.device.length < 2 ^ 32
  className : i.className.length < 2 ^ 32
  driver : i.driver.length < 2 ^ 32

/-- The bytes of a node record determine the text of its address and the decoded
node. -/
lemma NodeImage.determines :
    DeterminesOn NodeImage.Told NodeImage.fields fun i => (i.bdf, i.toNode) := by
  refine ((determines_str NodeImage.bdf).cons <| (determines_u32 NodeImage.kind).cons <|
    (determines_u64 NodeImage.generation).cons <| (determines_enum NodeImage.provenance).cons <|
    (determines_flagged determines_word NodeImage.parent).cons <|
    (determines_listFields NodeImage.children).cons <| (determines_str NodeImage.vendor).cons <|
    (determines_str NodeImage.device).cons <| (determines_str NodeImage.className).cons <|
    (determines_str NodeImage.driver).cons <|
    (determines_u8 NodeImage.removed).cons DeterminesOn.nil).value (fun i hi => ?_)
      fun i j h => ?_
  · exact ⟨hi.bdf, trivial, trivial, trivial, trivial, hi.children, hi.vendor, hi.device,
      hi.className, hi.driver, trivial, trivial⟩
  · simp only [Prod.mk.injEq, and_true] at h
    obtain ⟨hbdf, hkind, hgen, hprov, hparent, hchildren, hv, hd, hcl, hdr, hrem⟩ := h
    change i.parent.toOption id = j.parent.toOption id at hparent
    rw [toNode, toNode, address, address, hbdf, hkind, hgen, hprov, hparent, hchildren, hv, hd,
      hcl, hdr, hrem]

/-- The lists of a path record are shorter than `2^32`. -/
structure PathImage.Told (i : PathImage) : Prop where
  bridgeChain : i.bridgeChain.length < 2 ^ 32
  links : i.links.length < 2 ^ 32

/-- The bytes of a path record determine the decoded path. -/
lemma PathImage.determines : DeterminesOn PathImage.Told PathImage.fields PathImage.toPath := by
  refine ((determines_u64 PathImage.id).cons <| (determines_u64 PathImage.generation).cons <|
    (determines_u64 PathImage.source).cons <| (determines_u64 PathImage.destination).cons <|
    (determines_enum PathImage.pathClass).cons <|
    (determines_listFields PathImage.bridgeChain).cons <|
    (determines_listFields PathImage.links).cons <| (determines_enum PathImage.locality).cons <|
    (determines_flagged determines_envelope PathImage.theoretical).cons <|
    (determines_flagged determines_measured PathImage.measured).cons <|
    (determines_enum PathImage.freshness).cons <| (determines_u64 PathImage.ageMs).cons <|
    (determines_enum PathImage.contention).cons <|
    (determines_f64 PathImage.contentionScore).cons <|
    (determines_u8 PathImage.confidence).cons <|
    (determines_enum PathImage.structuralProvenance).cons <|
    (determines_u64 PathImage.epoch).cons <|
    (determines_u64 PathImage.boot).cons DeterminesOn.nil).value (fun i hi => ?_)
      fun i j h => ?_
  · exact ⟨trivial, trivial, trivial, trivial, trivial, hi.bridgeChain, hi.links, trivial, trivial,
      trivial, trivial, trivial, trivial, trivial, trivial, trivial, trivial, trivial, trivial⟩
  · simp only [Prod.mk.injEq, and_true] at h
    obtain ⟨hid, hgen, hsrc, hdst, hcl, hchain, hlinks, hloc, hth, hm, hf, hage, hcont, hcs, hconf,
      hsp, hep, hboot⟩ := h
    rw [toPath, toPath, hid, hgen, hsrc, hdst, hcl, hchain, hlinks, hloc, hth, hm, hf, hage, hcont,
      hcs, hconf, hsp, hep, hboot]

/-- The strings of a measurement record are shorter than `2^32`. -/
structure MeasurementImage.Told (i : MeasurementImage) : Prop where
  syncSemantics : i.syncSemantics.length < 2 ^ 32
  backendDetail : i.backendDetail.length < 2 ^ 32

/-- The bytes of a measurement record determine the decoded measurement. -/
lemma MeasurementImage.determines : DeterminesOn MeasurementImage.Told MeasurementImage.fields
    MeasurementImage.toMeasurement := by
  refine ((determines_u64 MeasurementImage.id).cons <|
    (determines_u64 MeasurementImage.generation).cons <|
    (determines_u64 MeasurementImage.source).cons <|
    (determines_u64 MeasurementImage.destination).cons <|
    (determines_enum MeasurementImage.transferClass).cons <|
    (determines_enum MeasurementImage.engine).cons <|
    (determines_u64 MeasurementImage.bytes).cons <|
    (determines_u64 MeasurementImage.iterations).cons <|
    (determines_u64 MeasurementImage.durationNs).cons <|
    (determines_u64 MeasurementImage.latencyNs).cons <|
    (determines_enum MeasurementImage.provenance).cons <|
    (determines_flagged determines_word MeasurementImage.path).cons <|
    (determines_str MeasurementImage.syncSemantics).cons <|
    (determines_u64 MeasurementImage.warmupOps).cons <|
    (determines_str MeasurementImage.backendDetail).cons DeterminesOn.nil).value (fun i hi => ?_)
      fun i j h => ?_
  · exact ⟨trivial, trivial, trivial, trivial, trivial, trivial, trivial, trivial, trivial, trivial,
      trivial, trivial, hi.syncSemantics, trivial, hi.backendDetail, trivial⟩
  · simp only [Prod.mk.injEq, and_true] at h
    obtain ⟨hid, hgen, hsrc, hdst, htc, heng, hbytes, hiters, hdur, hlat, hprov, hpath, hss, hwo,
      hbd⟩ := h
    rw [toMeasurement, toMeasurement, hid, hgen, hsrc, hdst, htc, heng, hbytes, hiters, hdur, hlat,
      hprov, hpath, hss, hwo, hbd]

/-- The bytes of a reservation record determine the decoded reservation. -/
lemma ReservationImage.determines : DeterminesOn ReservationImage.Accepted ReservationImage.fields
    ReservationImage.toReservation := by
  refine ((determines_u64 ReservationImage.id).cons <|
    (determines_u64 ReservationImage.generation).cons <|
    (determines_u64 ReservationImage.path).cons <|
    (determines_u64 ReservationImage.pathGeneration).cons <|
    (determines_u64 ReservationImage.worker).cons <|
    (determines_u64 ReservationImage.boot).cons <|
    (determines_u64 ReservationImage.attempt).cons <|
    (determines_u64 ReservationImage.epoch).cons <|
    (determines_u64 ReservationImage.policy).cons <|
    (determines_u64 ReservationImage.policyGeneration).cons <|
    (determines_u64 ReservationImage.bytes).cons <|
    (determines_f64 ReservationImage.bandwidth).cons <|
    (determines_u64 ReservationImage.duration).cons <|
    (determines_u32 ReservationImage.priority).cons <|
    (determines_u64 ReservationImage.source).cons <|
    (determines_u64 ReservationImage.destination).cons <|
    (determines_str ReservationImage.workload).cons <|
    (determines_u64 ReservationImage.createdAt).cons <|
    (determines_u8 ReservationImage.active).cons <|
    (determines_u8 ReservationImage.released).cons DeterminesOn.nil).value (fun i hi => ?_)
      fun i j h => ?_
  · exact ⟨trivial, trivial, trivial, trivial, trivial, trivial, trivial, trivial, trivial, trivial,
      trivial, trivial, trivial, trivial, trivial, trivial, hi, trivial, trivial, trivial, trivial⟩
  · simp only [Prod.mk.injEq, and_true] at h
    obtain ⟨hid, hgen, hpath, hpgen, hw, hboot, hatt, hep, hpol, hpolgen, hbytes, hbw, hdur, hprio,
      hsrc, hdst, hwk, -, hact, -⟩ := h
    rw [toReservation, toReservation, request, request, hid, hgen, hpath, hpgen, hw, hboot, hatt,
      hep, hpol, hpolgen, hbytes, hbw, hdur, hprio, hsrc, hdst, hwk, hact]

/-! ### The stream -/

/-- The lists and strings of a stream are shorter than `2^32`. -/
structure SnapshotImage.Told (i : SnapshotImage) : Prop where
  nodes : i.nodes.length < 2 ^ 32 ∧ ∀ n ∈ i.nodes, n.Told
  paths : i.paths.length < 2 ^ 32 ∧ ∀ p ∈ i.paths, p.Told
  measurements : i.measurements.length < 2 ^ 32 ∧ ∀ m ∈ i.measurements, m.Told
  reservations : i.reservations.length < 2 ^ 32 ∧ ∀ r ∈ i.reservations, r.Accepted
  policies : i.policies.length < 2 ^ 32

/-- **The bytes of a stream** determine the texts of the addresses and the decoded
snapshot. -/
theorem SnapshotImage.determines : DeterminesOn SnapshotImage.Told SnapshotImage.fields
    fun i => (i.nodes.map NodeImage.bdf, i.toRecords) := by
  refine ((determines_str fun _ => streamMagic).cons <|
    (determines_u64 SnapshotImage.sequence).cons <| (determines_u64 SnapshotImage.epoch).cons <|
    (determines_counted NodeImage.determines SnapshotImage.nodes).cons <|
    (determines_counted PathImage.determines SnapshotImage.paths).cons <|
    (determines_counted MeasurementImage.determines SnapshotImage.measurements).cons <|
    (determines_counted ReservationImage.determines SnapshotImage.reservations).cons <|
    (determines_counted determines_word SnapshotImage.policies).cons DeterminesOn.nil).value
      (fun i hi => ?_) fun i j h => ?_
  · exact ⟨by decide, trivial, trivial, hi.nodes, hi.paths, hi.measurements, hi.reservations,
      ⟨hi.policies, fun _ _ => trivial⟩, trivial⟩
  · simp only [Prod.mk.injEq, and_true, List.map_id'] at h
    obtain ⟨-, hseq, hep, hn, hp, hm, hr, hpol⟩ := h
    have hbdf := congrArg (List.map Prod.fst) hn
    have hnode := congrArg (List.map Prod.snd) hn
    rw [List.map_map, List.map_map] at hbdf hnode
    refine Prod.ext hbdf ?_
    change i.nodes.map NodeImage.toNode = j.nodes.map NodeImage.toNode at hnode
    dsimp only
    rw [toRecords, toRecords, hseq, hep, hnode, hp, hm, hr, hpol]

/-- An accepted image is told by its counts. -/
lemma SnapshotImage.Accepted.told {i : SnapshotImage} (h : i.Accepted) : i.Told where
  nodes := ⟨h.nodes_length.trans_lt (by decide), fun n hn =>
    have hacc := h.nodes_accepted n hn
    ⟨hacc.bdf_length, hacc.children_length, hacc.vendor_length, hacc.device_length,
      hacc.className_length, hacc.driver_length⟩⟩
  paths := ⟨h.paths_length.trans_lt (by decide), fun p hp =>
    have hacc := h.paths_accepted p hp
    ⟨hacc.bridgeChain_length, hacc.links_length⟩⟩
  measurements := ⟨h.measurements_length.trans_lt (by decide), fun m hm =>
    have hacc := h.measurements_accepted m hm
    ⟨hacc.syncSemantics_length, hacc.backendDetail_length⟩⟩
  reservations := ⟨h.reservations_length.trans_lt (by decide), h.reservations_accepted⟩
  policies := h.policies_length.trans_lt (by decide)

/-! ### Short streams -/

/-- A part of a record is no longer than the record. -/
lemma length_bytes_le {ts : List Token} {tss : List (List Token)} (h : ts ∈ tss) :
    (layout.bytes ts).length ≤ (layout.bytes tss.flatten).length := by
  rw [bytes_flatten, List.length_flatten]
  exact List.single_le_sum (fun _ _ => Nat.zero_le _) _
    (List.mem_map_of_mem (List.mem_map_of_mem h))

/-- A string is no longer than its bytes. -/
lemma length_le_str (text : List UInt8) : text.length ≤ (layout.bytes [.str text]).length := by
  rw [bytes_str, Writer.string, List.length_append]
  exact Nat.le_add_left _ _

/-- A list of records that are never empty is no longer than its bytes, and neither
are the records. -/
lemma length_le_records {ι : Type} {f : ι → List Token} (hne : ∀ i, layout.bytes (f i) ≠ [])
    (is : List ι) : is.length ≤ (layout.bytes (recordFields f is)).length ∧
      ∀ i ∈ is, (layout.bytes (f i)).length ≤ (layout.bytes (recordFields f is)).length := by
  have hbody : is.length ≤ (layout.bytes (is.flatMap f)).length ∧
      ∀ i ∈ is, (layout.bytes (f i)).length ≤ (layout.bytes (is.flatMap f)).length := by
    induction is with
    | nil => exact ⟨Nat.zero_le _, fun _ h => absurd h List.not_mem_nil⟩
    | cons i is ih =>
        have hpos := List.length_pos_iff.mpr (hne i)
        rw [List.flatMap_cons, bytes_append, List.length_append, List.length_cons,
          List.forall_mem_cons]
        exact ⟨by omega, Nat.le_add_right _ _,
          fun j hj => (ih.2 j hj).trans (Nat.le_add_left _ _)⟩
  rw [recordFields, bytes_append, List.length_append]
  exact ⟨hbody.1.trans (Nat.le_add_left _ _),
    fun i hi => (hbody.2 i hi).trans (Nat.le_add_left _ _)⟩

/-- A list of words is no longer than its bytes. -/
lemma length_le_listFields (xs : List UInt64) :
    xs.length ≤ (layout.bytes (listFields xs)).length := by
  refine (length_le_records (f := fun x => fixed (Writer.u64 x)) (fun x h => ?_) xs).1
  rw [bytes_fixed] at h
  exact List.cons_ne_nil _ _ h

/-- A record that starts with a word has bytes. -/
lemma bytes_u64_ne_nil (x : UInt64) (tss : List (List Token)) :
    layout.bytes (fixed (Writer.u64 x) :: tss).flatten ≠ [] := by
  rw [List.flatten_cons, bytes_append, bytes_fixed]
  exact fun h => List.cons_ne_nil _ _ (List.append_eq_nil_iff.mp h).1

/-- A record that starts with a string has bytes. -/
lemma bytes_str_ne_nil (text : List UInt8) (tss : List (List Token)) :
    layout.bytes ([.str text] :: tss).flatten ≠ [] := by
  rw [List.flatten_cons, bytes_append, bytes_str]
  exact fun h => List.cons_ne_nil _ _ (List.append_eq_nil_iff.mp h).1

lemma NodeImage.told_of_length {i : NodeImage} (h : (layout.bytes i.fields).length < 2 ^ 32) :
    i.Told where
  bdf := ((length_le_str _).trans (length_bytes_le (by simp))).trans_lt h
  children := ((length_le_listFields _).trans (length_bytes_le (by simp))).trans_lt h
  vendor := ((length_le_str _).trans (length_bytes_le (by simp))).trans_lt h
  device := ((length_le_str _).trans (length_bytes_le (by simp))).trans_lt h
  className := ((length_le_str _).trans (length_bytes_le (by simp))).trans_lt h
  driver := ((length_le_str _).trans (length_bytes_le (by simp))).trans_lt h

lemma PathImage.told_of_length {i : PathImage} (h : (layout.bytes i.fields).length < 2 ^ 32) :
    i.Told where
  bridgeChain := ((length_le_listFields _).trans (length_bytes_le (by simp))).trans_lt h
  links := ((length_le_listFields _).trans (length_bytes_le (by simp))).trans_lt h

lemma MeasurementImage.told_of_length {i : MeasurementImage}
    (h : (layout.bytes i.fields).length < 2 ^ 32) : i.Told where
  syncSemantics := ((length_le_str _).trans (length_bytes_le (by simp))).trans_lt h
  backendDetail := ((length_le_str _).trans (length_bytes_le (by simp))).trans_lt h

lemma ReservationImage.accepted_of_length {i : ReservationImage}
    (h : (layout.bytes i.fields).length < 2 ^ 32) : i.Accepted :=
  ((length_le_str _).trans (length_bytes_le (by simp))).trans_lt h

/-- In a short stream a list of records is short, and so are its records. -/
lemma records_of_length {ι : Type} {f : ι → List Token} {P : ι → Prop}
    (hne : ∀ i, layout.bytes (f i) ≠ []) (hP : ∀ i, (layout.bytes (f i)).length < 2 ^ 32 → P i)
    {is : List ι} {tss : List (List Token)} (hmem : recordFields f is ∈ tss)
    (h : (layout.bytes tss.flatten).length < 2 ^ 32) : is.length < 2 ^ 32 ∧ ∀ i ∈ is, P i := by
  have hlt := (length_bytes_le hmem).trans_lt h
  obtain ⟨hlen, hall⟩ := length_le_records hne is
  exact ⟨hlen.trans_lt hlt, fun i hi => hP i ((hall i hi).trans_lt hlt)⟩

/-- In a short stream every list and string is short. -/
lemma SnapshotImage.told_of_length {i : SnapshotImage}
    (h : (layout.bytes i.fields).length < 2 ^ 32) : i.Told := by
  have hnode : ∀ n : NodeImage, layout.bytes n.fields ≠ [] := fun n => bytes_str_ne_nil n.bdf _
  have hpath : ∀ p : PathImage, layout.bytes p.fields ≠ [] := fun p => bytes_u64_ne_nil p.id _
  have hmeasurement : ∀ m : MeasurementImage, layout.bytes m.fields ≠ [] :=
    fun m => bytes_u64_ne_nil m.id _
  have hreservation : ∀ r : ReservationImage, layout.bytes r.fields ≠ [] :=
    fun r => bytes_u64_ne_nil r.id _
  have hword : ∀ x : UInt64, layout.bytes (fixed (Writer.u64 x)) ≠ [] := fun x => by
    simpa using bytes_u64_ne_nil x []
  rw [SnapshotImage.fields] at h
  refine ⟨records_of_length hnode (fun _ => NodeImage.told_of_length) ?_ h,
    records_of_length hpath (fun _ => PathImage.told_of_length) ?_ h,
    records_of_length hmeasurement (fun _ => MeasurementImage.told_of_length) ?_ h,
    records_of_length hreservation (fun _ => ReservationImage.accepted_of_length) ?_ h,
    (records_of_length hword (fun _ _ => trivial) ?_ h).1⟩
  all_goals simp only [List.mem_cons, true_or, or_true]

/-- The bytes of a stream of less than `2^32` bytes determine the decoded snapshot. -/
theorem SnapshotImage.unambiguous : Unambiguous SnapshotImage.fields SnapshotImage.toRecords :=
  (SnapshotImage.determines.value (fun _ hi => hi) fun _ _ h => (Prod.mk.inj h).2).unambiguous
    fun _ h => SnapshotImage.told_of_length h

/-- **Reading a serialized snapshot**: if its bytes are accepted at all, they
are read as the fields that the encoder wrote. -/
theorem eq_of_deserialize_serialize {s s' : Snapshot} {body : List UInt8} {beyond : Nat → UInt8}
    (hbody : serialize s = .ok body) (hlen : body.length < 2 ^ 32)
    (h : deserialize body beyond = .ok s') : s' = (SnapshotImage.ofSnapshot s).toSnapshot := by
  rw [serialize_eq] at hbody
  obtain rfl : (SnapshotImage.ofSnapshot s).bytes = body := Except.ok.inj hbody
  obtain ⟨i, hi, -, -, rfl⟩ := deserialize_ok_iff.mp h
  rw [← hi] at hlen
  have hrecords := (SnapshotImage.unambiguous i (SnapshotImage.ofSnapshot s) [] []
    (by rw [List.append_nil, List.append_nil]; exact hi) (by rw [List.append_nil]; exact hlen)).1
  exact congrArg withDigest hrecords

end PcieFabric.Persist
