import PcieFabric.Codec.Leftover
import PcieFabric.Coordinator.Requests
import PcieFabric.Persist.RecordRoundTrip

/-!
Which single-record payloads reach a store of the coordinator (`coordinator.cpp`).

* `Persist.Trailed`, `Persist.MeasurementImage.CutOff`: payloads with more or fewer
  bytes than their record.
* `TakesWhole`: a frame reaches its store only with a payload that was decoded to
  exactly its end, and is otherwise refused without a change.
* `takesWhole_iff`: when a measurement frame and a reservation frame meet it.
-/

namespace PcieFabric

open Wire Layout

namespace Persist

/-! ### Payloads that are not one record -/

/-- The strings among the tokens are at most 64 KiB and none straddles offset 256 KiB. -/
def Readable (ts : List Token) : Prop := StringsShort ts ∧ Clear ts

/-- Tokens fit when their strings can be read. -/
lemma fits_iff_readable {ts : List Token} : layout.Fits 0 ts ↔ Readable ts := by
  constructor
  · intro hfit
    have hshort : StringsShort ts := by
      intro text hmem
      obtain ⟨pre, post, heq⟩ := List.mem_iff_append.mp hmem
      exact ((layout.fits_iff.mp hfit) pre _ post heq).2
    exact ⟨hshort, (fits_iff_clear hshort).mp hfit⟩
  · rintro ⟨hshort, hclear⟩
    exact (fits_iff_clear hshort).mpr hclear

/-- The payload is an accepted record with more bytes behind it. -/
def Trailed {ι : Type} (accepted : ι → Prop) (fields : ι → List Token) (payload : List UInt8) :
    Prop :=
  ∃ i extra, accepted i ∧ Readable (fields i) ∧ extra ≠ [] ∧
    payload = layout.bytes (fields i) ++ extra

/-- The payload is an accepted measurement record that was cut off inside its last
string. -/
def MeasurementImage.CutOff (payload : List UInt8) : Prop :=
  ∃ (i : MeasurementImage) (missing : List UInt8), i.Accepted ∧ Readable i.fields ∧
    missing ≠ [] ∧ missing.length ≤ i.backendDetail.length ∧
    layout.bytes i.fields = payload ++ missing

variable {payload : List UInt8} {beyond : Nat → UInt8}

/-- A record decoder succeeds before the end of the payload exactly where bytes
trail. -/
lemma stops_short_iff_trailed {ι α : Type} {decode : ReadM α} {accepted : ι → Prop}
    {fields : ι → List Token} {val : ι → α}
    (h : layout.Reads decode (Images accepted fields val)) :
    (∃ a r, decode { data := payload, beyond } = (.ok a, r) ∧ r.pos < r.size) ↔
      Trailed accepted fields payload := by
  rw [stops_short_iff h]
  constructor
  · rintro ⟨_, _, extra, ⟨i, hi, rfl, rfl⟩, hfit, hne, heq⟩
    exact ⟨i, extra, hi, fits_iff_readable.mp hfit, hne, heq⟩
  · rintro ⟨i, extra, hi, hread, hne, heq⟩
    exact ⟨_, _, extra, ⟨i, hi, rfl, rfl⟩, fits_iff_readable.mpr hread, hne, heq⟩

/-- `decode_measurement` succeeds behind the end of the payload exactly where the
record was cut off. -/
lemma runs_over_iff_cutOff :
    (∃ m r, decodeMeasurement { data := payload, beyond } = (.ok m, r) ∧ r.size < r.pos) ↔
      MeasurementImage.CutOff payload := by
  rw [decodeMeasurement_eq, runs_over_iff reads_decodeMeasurementHead]
  constructor
  · rintro ⟨_, _, s, missing, ⟨i, hi, rfl, rfl⟩, hs, hfit, hne, hlen, heq⟩
    let j : MeasurementImage := { i with backendDetail := s }
    have hj : j.fields = i.headFields ++ [.str s] := j.fields_eq
    refine ⟨j, missing, j.accepted_iff.mpr ⟨⟨hi.1, hi.2, hi.3, hi.4⟩, hs⟩, ?_, hne, hlen, ?_⟩
    · rw [hj]
      exact fits_iff_readable.mp hfit
    · rw [hj]
      exact heq
  · rintro ⟨i, missing, hi, hread, hne, hlen, heq⟩
    obtain ⟨hhead, hs⟩ := i.accepted_iff.mp hi
    rw [MeasurementImage.fields_eq] at hread heq
    exact ⟨_, _, i.backendDetail, missing, ⟨i, hhead, rfl, rfl⟩, hs,
      fits_iff_readable.mpr hread, hne, hlen, heq⟩

/-- `decode_reservation` ends with a byte, inside the payload. -/
lemma endsInside_decodeReservation : EndsInside decodeReservation :=
  .bind fun _ => .bind fun _ => .bind fun _ => .bind fun _ => .bind fun _ => .bind fun _ =>
  .bind fun _ => .bind fun _ => .bind fun _ => .bind fun _ => .bind fun _ => .bind fun _ =>
  .bind fun _ => .bind fun _ => .bind fun _ => .bind fun _ => .bind fun _ => .bind fun _ =>
  .bind fun _ => .map .u8 _

/-- Every success ends at the end of the payload unless one ends before or behind it. -/
lemma returnsWhole_iff {α : Type} {decode : ReadM α} :
    (∀ a, onPayload decode payload beyond = .ok a → ReturnsWhole decode payload beyond a) ↔
      ¬ ((∃ a r, decode { data := payload, beyond } = (.ok a, r) ∧ r.pos < r.size) ∨
        ∃ a r, decode { data := payload, beyond } = (.ok a, r) ∧ r.size < r.pos) := by
  constructor
  · rintro h (⟨a, r, hr, hlt⟩ | ⟨a, r, hr, hlt⟩)
    all_goals
      obtain ⟨r', hr', hend⟩ := h a (by rw [onPayload, hr])
      obtain rfl := (Prod.mk.inj (hr'.symm.trans hr)).2
      have hpos : r'.pos = r'.size := of_decide_eq_true hend
      omega
  · intro h a ha
    refine ⟨_, Prod.ext ha rfl, decide_eq_true ?_⟩
    by_contra hne
    rcases Nat.lt_or_gt_of_ne hne with hlt | hlt
    · exact h (.inl ⟨a, _, Prod.ext ha rfl, hlt⟩)
    · exact h (.inr ⟨a, _, Prod.ext ha rfl, hlt⟩)

end Persist

namespace Coordinator

open Persist

variable {conn : Connection} {payload : List UInt8} {beyond : Nat → UInt8}

/-! ### What reaches a store -/

/-- The handler gives `a` to its store: a boot is registered on the connection, and
the payload decodes. -/
def Passes {α : Type} (conn : Connection) (payload : List UInt8) (beyond : Nat → UInt8)
    (decode : ReadM α) (a : α) : Prop :=
  conn.workerBoot.isSome ∧ onPayload decode payload beyond = .ok a

/-- What is passed is given to the store, and the peer is told what the store says. -/
lemma handleStored_of_passes {c : Coordinator} {α β : Type} {decode : ReadM α}
    {call : α → Result β × Coordinator} {message : String} {a : α}
    (h : Passes conn payload beyond decode a) :
    c.handleStored conn payload beyond decode call message = ((call a).2, match (call a).1 with
      | .error e => (call a).2.replyAck false e.message
      | .ok _ => (call a).2.replyAck true message) := by
  obtain ⟨hreg, hdec⟩ := h
  obtain ⟨wb, hwb⟩ := Option.isSome_iff_exists.mp hreg
  rw [handleStored, hwb, hdec]
  rcases hcall : call a with ⟨e | b, c'⟩ <;> simp only [hcall]

/-- Where nothing is passed the frame is refused without a change. -/
lemma handleStored_of_not_passes {c : Coordinator} {α β : Type} {decode : ReadM α}
    {call : α → Result β × Coordinator} {message : String}
    (h : ∀ a, ¬ Passes conn payload beyond decode a) :
    ∃ e, c.handleStored conn payload beyond decode call message = (c, .silent (.error e)) := by
  rw [handleStored]
  cases hwb : conn.workerBoot with
  | none => exact ⟨_, rfl⟩
  | some wb =>
      cases hdec : onPayload decode payload beyond with
      | error e => exact ⟨e, rfl⟩
      | ok a => exact absurd ⟨by rw [hwb]; rfl, hdec⟩ (h a)

/-- **Passing is asking the store**: the state is the one that `ingest` or `reserve`
leaves. -/
theorem handleFrame_of_passes (c : Coordinator) (conn : Connection) (payload : List UInt8)
    (beyond : Nat → UInt8) :
    (∀ m, Passes conn payload beyond decodeMeasurement m →
      (c.handleFrame conn ⟨.msgMeasurement, payload⟩ beyond).1 =
        { c with measurements := (c.measurements.ingest m).2 }) ∧
    ∀ r, Passes conn payload beyond decodeReservation r →
      (c.handleFrame conn ⟨.msgReserve, payload⟩ beyond).1 =
        { c with reservations := (c.reservations.reserve r).2 } := by
  constructor
  · intro m hm
    rw [handleFrame_measurement rfl, handleMeasurement, handleStored_of_passes hm]
  · intro r hr
    rw [handleFrame_reserve rfl, handleReserve, handleStored_of_passes hr]

/-! ### Whole payloads -/

/-- The frame reaches its store only with a payload that is decoded to exactly its
end, and otherwise it is refused without a change. -/
structure TakesWhole {α : Type} (c : Coordinator) (conn : Connection) (f : Frame)
    (beyond : Nat → UInt8) (decode : ReadM α) : Prop where
  whole : ∀ a, Passes conn f.payload beyond decode a → ReturnsWhole decode f.payload beyond a
  refused : (∀ a, ¬ ReturnsWhole decode f.payload beyond a) →
    ∃ e, c.handleFrame conn f beyond = (c, conn, .silent (.error e))

/-- A frame that is handled by its store. -/
lemma takesWhole_iff_of_stored {c : Coordinator} {f : Frame} {α β : Type} {decode : ReadM α}
    {call : α → Result β × Coordinator} {message : String}
    (h : c.handleFrame conn f beyond =
      ((c.handleStored conn f.payload beyond decode call message).1, conn,
        (c.handleStored conn f.payload beyond decode call message).2)) :
    c.TakesWhole conn f beyond decode ↔ conn.workerBoot = none ∨
      ∀ a, onPayload decode f.payload beyond = .ok a → ReturnsWhole decode f.payload beyond a := by
  have hwhole : (∀ a, Passes conn f.payload beyond decode a →
      ReturnsWhole decode f.payload beyond a) ↔ conn.workerBoot = none ∨
        ∀ a, onPayload decode f.payload beyond = .ok a →
          ReturnsWhole decode f.payload beyond a := by
    cases hwb : conn.workerBoot with
    | none => simp [Passes, hwb]
    | some wb => simp [Passes, hwb]
  rw [← hwhole]
  refine ⟨TakesWhole.whole, fun hpasses => ⟨hpasses, fun hnone => ?_⟩⟩
  obtain ⟨e, he⟩ : ∃ e, c.handleStored conn f.payload beyond decode call message =
      (c, .silent (.error e)) := handleStored_of_not_passes fun a ha => hnone a (hpasses a ha)
  exact ⟨e, by rw [h, he]⟩

/-- **Whole payloads, exactly.** A measurement frame reaches its store only with a
whole payload if and only if no boot is registered on its connection, or its payload
is not an accepted record with more bytes behind it, nor one cut off inside its last
string. A reservation frame does if and only if no boot is registered, or its payload
is not an accepted record with more bytes behind it. -/
theorem takesWhole_iff (c : Coordinator) (conn : Connection) (payload : List UInt8)
    (beyond : Nat → UInt8) :
    (c.TakesWhole conn ⟨.msgMeasurement, payload⟩ beyond decodeMeasurement ↔
      conn.workerBoot = none ∨
        ¬ (Trailed MeasurementImage.Accepted MeasurementImage.fields payload ∨
          MeasurementImage.CutOff payload)) ∧
    (c.TakesWhole conn ⟨.msgReserve, payload⟩ beyond decodeReservation ↔
      conn.workerBoot = none ∨
        ¬ Trailed ReservationImage.Accepted ReservationImage.fields payload) := by
  constructor
  · rw [takesWhole_iff_of_stored (handleFrame_measurement rfl), returnsWhole_iff,
      stops_short_iff_trailed reads_decodeMeasurement, runs_over_iff_cutOff]
  · rw [takesWhole_iff_of_stored (handleFrame_reserve rfl), returnsWhole_iff,
      stops_short_iff_trailed reads_decodeReservation,
      or_iff_left (not_runs_over endsInside_decodeReservation)]

/-- A connection on which boot 1 of worker 1 is registered. -/
def registeredConnection : Connection := ⟨some ⟨1⟩, some ⟨1⟩⟩

/-- A payload that decodes, and not to its end, is taken. -/
lemma not_takesWhole {c : Coordinator} {f : Frame} {α : Type} {decode : ReadM α}
    (hreg : conn.workerBoot.isSome) (hok : (onPayload decode f.payload beyond).isOk)
    (hend : (decode { data := f.payload, beyond }).2.atEnd = false) :
    ¬ c.TakesWhole conn f beyond decode := by
  intro h
  cases hdec : onPayload decode f.payload beyond with
  | error e =>
      rw [hdec] at hok
      cases hok
  | ok a =>
      obtain ⟨r, hr, hatEnd⟩ := h.whole a ⟨hreg, hdec⟩
      rw [hr, hatEnd] at hend
      cases hend

/-- A measurement with one byte behind it, a measurement whose last string lacks its
three bytes, and a reservation with one byte behind it: each reaches its store. -/
theorem partial_payloads_taken :
    ¬ TakesWhole {} registeredConnection ⟨.msgMeasurement, encodeMeasurement {} ++ [0]⟩
        (fun _ => 0) decodeMeasurement ∧
      ¬ TakesWhole {} registeredConnection
        ⟨.msgMeasurement, (encodeMeasurement { backendDetail := [65, 66, 67] }).dropLast⟩
        (fun _ => 0) decodeMeasurement ∧
      ¬ TakesWhole {} registeredConnection ⟨.msgReserve, encodeReservation {} ++ [0]⟩
        (fun _ => 0) decodeReservation :=
  ⟨not_takesWhole rfl (by decide +kernel) (by decide +kernel),
    not_takesWhole rfl (by decide +kernel) (by decide +kernel),
    not_takesWhole rfl (by decide +kernel) (by decide +kernel)⟩

end Coordinator

end PcieFabric
