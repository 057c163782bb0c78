import PcieFabric.Codec.Bounds
import PcieFabric.Persist.Records

/-!
Where the decoders read.

* `isCalls_decodeNode` to `isCalls_decodeStream`: each decoder is a run of reader
  calls, so all it reads is read by the primitives.
* `reads_in_bounds_iff`: the calls stay inside the buffer exactly when they meet
  no overlong string, and so do the decoders.
-/

namespace PcieFabric.Persist

open Reader Machine

/-! ### The decoders are runs of calls -/

lemma isCalls_enumByte (names : List String) (message : String) :
    IsCalls (enumByte names message) :=
  .bind reaches_trans (.withError isCalls_u8 _) fun _ =>
    .bind reaches_trans (.ensure reaches_refl _ _) fun _ => .pure reaches_refl _

lemma isCalls_flagged {α : Type} {d : ReadM α} (h : IsCalls d) : IsCalls (flagged d) := by
  refine .bind reaches_trans isCalls_u8 fun flag => ?_
  split
  · exact .bind reaches_trans h fun _ => .pure reaches_refl _
  · exact .pure reaches_refl _

lemma isCalls_countedU64 : IsCalls countedU64 :=
  .bind reaches_trans isCalls_u32 fun _ => .collect reaches_refl reaches_trans isCalls_u64 _ _

lemma isCalls_decodeEnvelope : IsCalls decodeEnvelope :=
  .bind reaches_trans isCalls_u8 fun _ => .bind reaches_trans isCalls_u16 fun _ =>
    .pure reaches_refl _

lemma isCalls_decodeMeasured : IsCalls decodeMeasured :=
  .bind reaches_trans isCalls_f64 fun _ => .bind reaches_trans isCalls_u8 fun _ =>
    .pure reaches_refl _

lemma isCalls_decodeNode : IsCalls decodeNode :=
  .bind reaches_trans isCalls_string fun _ =>
  .bind reaches_trans (.withError (.lift reaches_refl _) _) fun _ =>
  .bind reaches_trans isCalls_u32 fun _ => .bind reaches_trans isCalls_u64 fun _ =>
  .bind reaches_trans (isCalls_enumByte _ _) fun _ =>
  .bind reaches_trans (isCalls_flagged isCalls_u64) fun _ =>
  .bind reaches_trans isCalls_countedU64 fun _ => .bind reaches_trans isCalls_string fun _ =>
  .bind reaches_trans isCalls_string fun _ => .bind reaches_trans isCalls_string fun _ =>
  .bind reaches_trans isCalls_string fun _ => .bind reaches_trans isCalls_u8 fun _ =>
  .pure reaches_refl _

lemma isCalls_decodePath : IsCalls decodePath :=
  .bind reaches_trans isCalls_u64 fun _ => .bind reaches_trans isCalls_u64 fun _ =>
  .bind reaches_trans isCalls_u64 fun _ => .bind reaches_trans isCalls_u64 fun _ =>
  .bind reaches_trans (isCalls_enumByte _ _) fun _ =>
  .bind reaches_trans isCalls_countedU64 fun _ => .bind reaches_trans isCalls_countedU64 fun _ =>
  .bind reaches_trans (isCalls_enumByte _ _) fun _ =>
  .bind reaches_trans (isCalls_flagged isCalls_decodeEnvelope) fun _ =>
  .bind reaches_trans (isCalls_flagged isCalls_decodeMeasured) fun _ =>
  .bind reaches_trans (isCalls_enumByte _ _) fun _ => .bind reaches_trans isCalls_u64 fun _ =>
  .bind reaches_trans (isCalls_enumByte _ _) fun _ => .bind reaches_trans isCalls_f64 fun _ =>
  .bind reaches_trans isCalls_u8 fun _ => .bind reaches_trans isCalls_u8 fun _ =>
  .bind reaches_trans isCalls_u64 fun _ => .bind reaches_trans isCalls_u64 fun _ =>
  .pure reaches_refl _

lemma isCalls_decodeMeasurement : IsCalls decodeMeasurement :=
  .bind reaches_trans isCalls_u64 fun _ => .bind reaches_trans isCalls_u64 fun _ =>
  .bind reaches_trans isCalls_u64 fun _ => .bind reaches_trans isCalls_u64 fun _ =>
  .bind reaches_trans (isCalls_enumByte _ _) fun _ =>
  .bind reaches_trans (isCalls_enumByte _ _) fun _ => .bind reaches_trans isCalls_u64 fun _ =>
  .bind reaches_trans isCalls_u64 fun _ => .bind reaches_trans isCalls_u64 fun _ =>
  .bind reaches_trans isCalls_u64 fun _ => .bind reaches_trans (isCalls_enumByte _ _) fun _ =>
  .bind reaches_trans (isCalls_flagged isCalls_u64) fun _ =>
  .bind reaches_trans isCalls_string fun _ => .bind reaches_trans isCalls_u64 fun _ =>
  .bind reaches_trans isCalls_string fun _ => .pure reaches_refl _

lemma isCalls_decodeReservation : IsCalls decodeReservation :=
  .bind reaches_trans isCalls_u64 fun _ => .bind reaches_trans isCalls_u64 fun _ =>
  .bind reaches_trans isCalls_u64 fun _ => .bind reaches_trans isCalls_u64 fun _ =>
  .bind reaches_trans isCalls_u64 fun _ => .bind reaches_trans isCalls_u64 fun _ =>
  .bind reaches_trans isCalls_u64 fun _ => .bind reaches_trans isCalls_u64 fun _ =>
  .bind reaches_trans isCalls_u64 fun _ => .bind reaches_trans isCalls_u64 fun _ =>
  .bind reaches_trans isCalls_u64 fun _ => .bind reaches_trans isCalls_f64 fun _ =>
  .bind reaches_trans isCalls_u64 fun _ => .bind reaches_trans isCalls_u32 fun _ =>
  .bind reaches_trans isCalls_u64 fun _ => .bind reaches_trans isCalls_u64 fun _ =>
  .bind reaches_trans isCalls_string fun _ => .bind reaches_trans isCalls_u64 fun _ =>
  .bind reaches_trans isCalls_u8 fun _ => .bind reaches_trans isCalls_u8 fun _ =>
  .pure reaches_refl _

lemma isCalls_countedRecords {α κ : Type} [DecidableEq κ] {decode : ReadM α} (h : IsCalls decode)
    (key : α → κ) (message : String) : IsCalls (countedRecords decode key message) :=
  .bind reaches_trans isCalls_u32Count fun _ => .collect reaches_refl reaches_trans h _ _

lemma isCalls_decodeSnapshot : IsCalls decodeSnapshot :=
  .bind reaches_trans isCalls_string fun _ =>
  .bind reaches_trans (.ensure reaches_refl _ _) fun _ =>
  .bind reaches_trans isCalls_u64 fun _ => .bind reaches_trans isCalls_u64 fun _ =>
  .bind reaches_trans (isCalls_countedRecords isCalls_decodeNode _ _) fun _ =>
  .bind reaches_trans (isCalls_countedRecords isCalls_decodePath _ _) fun _ =>
  .bind reaches_trans (isCalls_countedRecords isCalls_decodeMeasurement _ _) fun _ =>
  .bind reaches_trans (isCalls_countedRecords isCalls_decodeReservation _ _) fun _ =>
  .bind reaches_trans isCalls_u32Count fun _ =>
  .bind reaches_trans (.collect reaches_refl reaches_trans isCalls_u64 _ _) fun _ =>
  .pure reaches_refl _

lemma isCalls_decodeStream : IsCalls decodeStream :=
  .bind reaches_trans isCalls_decodeSnapshot fun _ =>
  .bind reaches_trans isCalls_requireEnd fun _ => .pure reaches_refl _

/-! ### Bounded reads -/

/-- The decoder makes a run of calls on the reader, and what it reads lies
inside the buffer exactly when that run meets no overlong string. -/
def ReadsByCalls {α : Type} (d : ReadM α) (r : Reader) : Prop :=
  ∃ calls, (d r).2 = run step r calls ∧
    ((d r).2.InBounds ↔ AllSteps step NotOverlong r calls)

lemma readsByCalls_of_isCalls {α : Type} {d : ReadM α} (h : IsCalls d) {r : Reader}
    (hr : r.InBounds) : ReadsByCalls d r := by
  obtain ⟨calls, heq⟩ := h r
  refine ⟨calls, heq, ?_⟩
  rw [heq]
  exact inBounds_run_iff hr calls

/-- **Bounded reads, exactly.** On every buffer, a run of calls stays inside the
buffer and every string it returns is the declared number of bytes of it, if and
only if no string call of the run meets an overlong string; and the decoders are
such runs. -/
theorem reads_in_bounds_iff (data : List UInt8) (beyond : Nat → UInt8) :
    (∀ calls, AllSteps step SafeCall { data, beyond } calls ↔
      AllSteps step NotOverlong { data, beyond } calls) ∧
    ReadsByCalls decodeNode { data, beyond } ∧ ReadsByCalls decodePath { data, beyond } ∧
    ReadsByCalls decodeMeasurement { data, beyond } ∧
    ReadsByCalls decodeReservation { data, beyond } ∧
    ReadsByCalls decodeStream { data, beyond } := by
  have hinit := inBounds_init data beyond
  exact ⟨safe_run_iff data beyond, readsByCalls_of_isCalls isCalls_decodeNode hinit,
    readsByCalls_of_isCalls isCalls_decodePath hinit,
    readsByCalls_of_isCalls isCalls_decodeMeasurement hinit,
    readsByCalls_of_isCalls isCalls_decodeReservation hinit,
    readsByCalls_of_isCalls isCalls_decodeStream hinit⟩

/-- Four bytes that declare a string of three: the call succeeds, and the string
is what the memory holds behind the buffer. -/
theorem string_reads_beyond :
    (string { data := [3, 0, 0, 0], beyond := fun _ => 65 }).1 = .ok [65, 65, 65] ∧
      ¬ AllSteps step SafeCall { data := [3, 0, 0, 0], beyond := fun _ => 65 } [.string] := by
  refine ⟨by decide +kernel, fun h => ?_⟩
  have hpos := h.1.1.pos
  revert hpos
  decide +kernel

end PcieFabric.Persist
