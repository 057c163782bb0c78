import PcieFabric.Codec.Leftover
import PcieFabric.Wire.Protocol

/-!
The frame format (`protocol.hpp`).

* `encode`, `decode`: a frame as bytes, and the checks of a received buffer in
  the order of the source.
* `Frame.Legal`: the frames the format is for, a known kind and a payload within
  `kMaxPayload`.
* `decode_iff_encode`: a buffer decodes to a frame exactly when it is the
  encoding of that legal frame.
-/

namespace PcieFabric.Wire

open Layout Token

/-- `kMagic`. -/
def kMagic : List UInt8 := ascii "PFAB"

/-- `kVersion`. -/
def kVersion : UInt32 := 1

/-- `kMaxPayload`. -/
def kMaxPayload : Nat := 16 * 1024 * 1024

/-- `kHeaderSize`. -/
def kHeaderSize : Nat := 4 + 4 + 1 + 8 + 4

/-- `encode(const Frame&)`. -/
def encode (f : Frame) : List UInt8 := List.flatten [
  kMagic, Writer.u32 kVersion, Writer.u8 f.kind.code,
  Writer.u64 (UInt64.ofNat f.payload.length), Writer.u32 (crc32 f.payload crc32Seed),
  f.payload]

/-- The fields of a frame header behind magic and version. -/
structure Header where
  kind : MsgKind
  len : UInt64
  crc : UInt32

/-- The reads of `decode`, each with its check. The caller has made sure that
the whole header is there. -/
def readHeader : ReadM Header := do
  let mg ← Decoder.collect (fun _ _ => .ok ()) Reader.u8 4
  Decoder.ensure (mg == kMagic) ⟨.protocolMalformed, "bad magic"⟩
  let ver ← Reader.u32
  Decoder.ensure (ver == kVersion) ⟨.protocolVersion, "unsupported version"⟩
  let kind ← Reader.u8
  Decoder.ensure (decide (1 ≤ kind ∧ kind ≤ 12)) ⟨.invalidEnum, "invalid message kind"⟩
  let len ← Reader.u64
  Decoder.ensure (decide (len.toNat ≤ kMaxPayload)) ⟨.protocolOverflow, "payload too large"⟩
  let crc ← Reader.u32
  return ⟨⟨kind⟩, len, crc⟩

/-- `decode(const std::vector<std::uint8_t>&)`. -/
def decode (buf : List UInt8) : Result Frame :=
  if buf.length < kHeaderSize then .err .truncated "frame too small"
  else
    -- the header reads stay inside the buffer, so nothing is fetched from behind it
    match onPayload readHeader buf fun _ => 0 with
    | .error e => .error e
    | .ok h =>
        if buf.length ≠ kHeaderSize + h.len.toNat then
          .err .protocolMalformed "frame length mismatch"
        else
          let payload := (buf.drop kHeaderSize).take h.len.toNat
          if crc32 payload crc32Seed ≠ h.crc then .err .protocolChecksum "crc mismatch"
          else .ok ⟨h.kind, payload⟩

/-- A frame the format is for. -/
structure Frame.Legal (f : Frame) : Prop where
  kind_pos : 1 ≤ f.kind.code
  kind_le : f.kind.code ≤ 12
  payload_le : f.payload.length ≤ kMaxPayload

/-! ### The header -/

namespace Header

/-- The bytes of a header. -/
def bytes (h : Header) : List UInt8 := List.flatten [
  kMagic, Writer.u32 kVersion, Writer.u8 h.kind.code, Writer.u64 h.len, Writer.u32 h.crc]

/-- The checks `decode` makes of a header. -/
structure Legal (h : Header) : Prop where
  kind_pos : 1 ≤ h.kind.code
  kind_le : h.kind.code ≤ 12
  len_le : h.len.toNat ≤ kMaxPayload

@[simp] lemma length_bytes (h : Header) : h.bytes.length = kHeaderSize := by
  simp [bytes, Writer.u8, Writer.u32, Writer.u64, kHeaderSize, kMagic, ascii]

end Header

/-- The header of a frame. -/
def Frame.header (f : Frame) : Header :=
  ⟨f.kind, UInt64.ofNat f.payload.length, crc32 f.payload crc32Seed⟩

lemma encode_eq (f : Frame) : encode f = f.header.bytes ++ f.payload := by
  simp [encode, Header.bytes, Frame.header]

lemma length_encode (f : Frame) : (encode f).length = kHeaderSize + f.payload.length := by
  rw [encode_eq, List.length_append, Header.length_bytes]

lemma Frame.Legal.toNat_len {f : Frame} (h : f.Legal) : f.header.len.toNat = f.payload.length :=
  UInt64.toNat_ofNat_of_lt' (h.payload_le.trans_lt (by decide))

/-- The header of a legal frame passes the checks. -/
lemma Frame.Legal.header {f : Frame} (h : f.Legal) : f.header.Legal :=
  ⟨h.kind_pos, h.kind_le, h.toNat_len.trans_le h.payload_le⟩

/-- **The header reads** read the bytes of a header that passes the checks. -/
theorem reads_header : layout.Reads readHeader fun ts h => h.Legal ∧ ts = fixed h.bytes := by
  refine (Reads.bind (reads_bytes 4) fun mg =>
    Reads.bind (Reads.ensure _ _) fun _ => Reads.bind reads_u32 fun ver =>
    Reads.bind (Reads.ensure _ _) fun _ => Reads.bind reads_u8 fun kind =>
    Reads.bind (Reads.ensure _ _) fun _ => Reads.bind reads_u64 fun len =>
    Reads.bind (Reads.ensure _ _) fun _ => Reads.bind reads_u32 fun crc =>
    Reads.pure _).congr fun ts h => ?_
  constructor
  · rintro ⟨_, _, mg, rfl, ⟨-, rfl⟩, _, _, _, rfl, ⟨rfl, hmg⟩, _, _, ver, rfl, rfl, _, _, _, rfl,
      ⟨rfl, hver⟩, _, _, kind, rfl, rfl, _, _, _, rfl, ⟨rfl, hkind⟩, _, _, len, rfl, rfl, _, _, _,
      rfl, ⟨rfl, hlen⟩, _, _, crc, rfl, rfl, rfl, rfl⟩
    obtain rfl := eq_of_beq hmg
    obtain rfl := eq_of_beq hver
    have hk := of_decide_eq_true hkind
    refine ⟨⟨hk.1, hk.2, of_decide_eq_true hlen⟩, ?_⟩
    simp only [Header.bytes, List.flatten_cons, List.flatten_nil, fixed, List.map_append,
      List.nil_append, List.append_nil]
  · rintro ⟨hh, rfl⟩
    refine ⟨_, _, kMagic, ?_, ⟨rfl, rfl⟩, [], _, (), rfl, ⟨rfl, beq_self_eq_true _⟩, _, _,
      kVersion, rfl, rfl, [], _, (), rfl, ⟨rfl, beq_self_eq_true _⟩, _, _, h.kind.code, rfl, rfl,
      [], _, (), rfl, ⟨rfl, decide_eq_true ⟨hh.kind_pos, hh.kind_le⟩⟩, _, _, h.len, rfl, rfl,
      [], _, (), rfl, ⟨rfl, decide_eq_true hh.len_le⟩, _, _, h.crc, rfl, rfl, rfl, rfl⟩
    simp only [Header.bytes, List.flatten_cons, List.flatten_nil, fixed, List.map_append,
      List.nil_append, List.append_nil]

/-- The header ends with its checksum. -/
lemma endsInside_header : EndsInside readHeader :=
  .bind fun _ => .bind fun _ => .bind fun _ => .bind fun _ => .bind fun _ => .bind fun _ =>
  .bind fun _ => .bind fun _ => .map .u32 _

/-- The header is read exactly from the buffers it stands in front of. -/
lemma readHeader_ok_iff {buf : List UInt8} {beyond : Nat → UInt8} {h : Header} :
    onPayload readHeader buf beyond = .ok h ↔ h.Legal ∧ h.bytes <+: buf := by
  rw [onPayload, ok_iff_begins reads_header endsInside_header]
  constructor
  · rintro ⟨_, ⟨hlegal, rfl⟩, -, hpre⟩
    exact ⟨hlegal, by rwa [bytes_fixed] at hpre⟩
  · rintro ⟨hlegal, hpre⟩
    exact ⟨_, ⟨hlegal, rfl⟩, fits_fixed _ _, by rwa [bytes_fixed]⟩

/-! ### The frame -/

/-- Decoding undoes encoding. -/
lemma decode_encode {f : Frame} (h : f.Legal) : decode (encode f) = .ok f := by
  have hread : onPayload readHeader (encode f) (fun _ => 0) = .ok f.header :=
    readHeader_ok_iff.mpr ⟨h.header, by rw [encode_eq]; exact List.prefix_append _ _⟩
  have hlen := length_encode f
  have hdrop : (encode f).drop kHeaderSize = f.payload := by
    rw [encode_eq, List.drop_left' (Header.length_bytes _)]
  have hpayload : ((encode f).drop kHeaderSize).take f.header.len.toNat = f.payload := by
    rw [hdrop, h.toNat_len, List.take_length]
  rw [decode, if_neg (by omega), hread]
  dsimp only
  rw [hpayload, h.toNat_len, if_neg (not_not.mpr hlen)]
  exact if_neg (not_not.mpr rfl)

/-- What decodes is the encoding of a legal frame. -/
lemma eq_encode_of_decode {b : List UInt8} {f : Frame} (h : decode b = .ok f) :
    b = encode f ∧ f.Legal := by
  rw [decode] at h
  split at h
  · cases h
  cases hread : onPayload readHeader b (fun _ => 0) with
  | error e => rw [hread] at h; cases h
  | ok hd =>
      rw [hread] at h
      dsimp only at h
      split at h
      · cases h
      next hlen =>
        split at h
        · cases h
        next hcrc =>
          obtain ⟨hlegal, rest, rfl⟩ := readHeader_ok_iff.mp hread
          rw [List.length_append, Header.length_bytes, not_not, Nat.add_left_cancel_iff] at hlen
          rw [List.drop_left' hd.length_bytes, ← hlen, List.take_length] at h hcrc
          obtain rfl : (⟨hd.kind, rest⟩ : Frame) = f := Except.ok.inj h
          -- length and checksum of the header are those of the payload
          have hheader : Frame.header ⟨hd.kind, rest⟩ = hd := by
            rw [Frame.header, hlen, UInt64.ofNat_toNat, not_not.mp hcrc]
          refine ⟨by rw [encode_eq, hheader], hlegal.kind_pos, hlegal.kind_le, ?_⟩
          exact hlen.trans_le hlegal.len_le

/-- **The frame format is exact**: a buffer decodes to a frame exactly when it
is the encoding of that frame, and the frame has a known kind and a payload
within the limit. -/
theorem decode_iff_encode (b : List UInt8) (f : Frame) :
    decode b = .ok f ↔
      b = encode f ∧ 1 ≤ f.kind.code ∧ f.kind.code ≤ 12 ∧ f.payload.length ≤ kMaxPayload := by
  constructor
  · intro h
    obtain ⟨hb, hlegal⟩ := eq_encode_of_decode h
    exact ⟨hb, hlegal.kind_pos, hlegal.kind_le, hlegal.payload_le⟩
  · rintro ⟨rfl, hpos, hle, hlen⟩
    exact decode_encode ⟨hpos, hle, hlen⟩

/-! ### Refusals -/

/-- No error of the integer reads is about the peer. -/
lemma failsWith_u8 : Decoder.FailsWith (fun e : Error => e.code ≠ .peerLost) Reader.u8 := by
  intro r e h
  rw [Reader.u8] at h
  split at h
  · rw [← Except.error.inj h]
    decide
  · cases h

lemma failsWith_places {w : Nat} (n : Nat) (acc : Nat × BitVec w) :
    Decoder.FailsWith (fun e : Error => e.code ≠ .peerLost)
      (Decoder.times Reader.nextPlace n acc) :=
  .times (fun _ => .bind failsWith_u8 fun _ => .pure _) n acc

lemma failsWith_header : Decoder.FailsWith (fun e : Error => e.code ≠ .peerLost) readHeader := by
  have hu32 : Decoder.FailsWith (fun e : Error => e.code ≠ .peerLost) Reader.u32 :=
    .bind (failsWith_places 4 _) fun _ => .pure _
  have hu64 : Decoder.FailsWith (fun e : Error => e.code ≠ .peerLost) Reader.u64 :=
    .bind (failsWith_places 8 _) fun _ => .pure _
  exact .bind (.collect failsWith_u8 (fun _ _ _ h => by cases h) 4) fun _ =>
    .bind (.ensure _ (by decide)) fun _ => .bind hu32 fun _ => .bind (.ensure _ (by decide)) fun _ =>
    .bind failsWith_u8 fun _ => .bind (.ensure _ (by decide)) fun _ => .bind hu64 fun _ =>
    .bind (.ensure _ (by decide)) fun _ => .bind hu32 fun _ => .pure _

/-- No refusal of `decode` is about the peer. -/
lemma code_ne_of_decode {buf : List UInt8} {e : Error} (h : decode buf = .error e) :
    e.code ≠ .peerLost := by
  rw [decode] at h
  split at h
  · rw [← Except.error.inj h]
    decide
  cases hread : onPayload readHeader buf (fun _ => 0) with
  | error e' =>
      rw [hread] at h
      exact Except.error.inj h ▸ failsWith_header _ _ hread
  | ok hd =>
      rw [hread] at h
      dsimp only at h
      split at h
      · rw [← Except.error.inj h]
        decide
      · split at h
        · rw [← Except.error.inj h]
          decide
        · cases h

end PcieFabric.Wire
