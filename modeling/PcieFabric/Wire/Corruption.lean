import PcieFabric.Codec.Checksum
import PcieFabric.Wire.Framing

/-!
Which corrupted frames are rejected (`protocol.hpp`).

* `payload_eq_of_decode`: behind the header of a frame, a payload that differs from
  the frame's only within four consecutive bytes is accepted only if it is the frame's.
* `DifferAt`: strings that differ in exactly one place.
* `decode_differAt_iff`: of the strings that differ from a frame in exactly one place,
  those are accepted that put another known kind into the kind byte.
-/

namespace PcieFabric.Wire

open ShiftRegister

/-! ### Corrupted payloads -/

/-- A header is known to carry its checksum. -/
lemma Header.crc_eq_of_bytes {h h' : Header} (heq : h.bytes = h'.bytes) : h.crc = h'.crc := by
  have hsplit (h : Header) : h.bytes =
      (kMagic ++ Writer.u32 kVersion ++ Writer.u8 h.kind.code ++ Writer.u64 h.len) ++
        Writer.u32 h.crc := by
    simp [bytes]
  rw [hsplit h, hsplit h'] at heq
  exact Writer.u32_injective (List.append_inj_right' heq (by simp [Writer.u32]))

/-- **A burst in the payload** is rejected: behind the header of a frame, what differs
from its payload only within four consecutive bytes is accepted only if it is the
payload. -/
theorem payload_eq_of_decode {f g : Frame} {p : List UInt8} (hdiff : DifferWithin 4 f.payload p)
    (h : decode (f.header.bytes ++ p) = .ok g) : p = f.payload := by
  obtain ⟨hb, -⟩ := eq_encode_of_decode h
  rw [encode_eq] at hb
  obtain ⟨hheader, rfl⟩ := List.append_inj hb (by simp)
  exact (eq_of_crc32 hdiff (Header.crc_eq_of_bytes hheader)).symm

/-! ### One changed byte -/

/-- The strings have one length, and differ in exactly that place. -/
def DifferAt (i : Nat) (a b : List UInt8) : Prop :=
  a.length = b.length ∧ ∀ j, a[j]? ≠ b[j]? ↔ j = i

/-- What a frame has in front of its kind. -/
def beforeKind : List UInt8 := kMagic ++ Writer.u32 kVersion

/-- What a frame has behind its kind. -/
def behindKind (payload : List UInt8) : List UInt8 := List.flatten [
  Writer.u64 (UInt64.ofNat payload.length), Writer.u32 (crc32 payload crc32Seed), payload]

lemma encode_eq_kind (f : Frame) :
    encode f = beforeKind ++ f.kind.code :: behindKind f.payload := by
  simp [encode, beforeKind, behindKind, Writer.u8]

lemma getElem?_encode_kind (f : Frame) : (encode f)[8]? = some f.kind.code := by
  rw [encode_eq_kind]
  rfl

variable {f g : Frame} {b : List UInt8} {i : Nat}

/-- Frames of one payload agree outside of their kind bytes. -/
lemma getElem?_encode_of_ne (hpayload : g.payload = f.payload) {j : Nat} (hj : j ≠ 8) :
    (encode f)[j]? = (encode g)[j]? := by
  have hlen : beforeKind.length = 8 := rfl
  rw [encode_eq_kind, encode_eq_kind, hpayload]
  rcases Nat.lt_or_ge j 8 with hlt | hge
  · rw [List.getElem?_append_left (by omega), List.getElem?_append_left (by omega)]
  · rw [List.getElem?_append_right (by omega), List.getElem?_append_right (by omega),
      List.getElem?_cons, List.getElem?_cons, if_neg (by omega), if_neg (by omega)]

/-- Another kind changes one byte. -/
lemma differAt_kind {k : MsgKind} (hne : f.kind ≠ k) :
    DifferAt 8 (encode f) (encode ⟨k, f.payload⟩) := by
  have hpayload : (Frame.mk k f.payload).payload = f.payload := rfl
  refine ⟨by rw [length_encode, length_encode], fun j => ⟨fun hj => ?_, ?_⟩⟩
  · by_contra hout
    exact hj (getElem?_encode_of_ne hpayload hout)
  · rintro rfl heq
    rw [getElem?_encode_kind, getElem?_encode_kind] at heq
    cases f
    cases k
    exact hne (congrArg MsgKind.mk (Option.some.inj heq))

/-- A change in front of the payload leaves the payload. -/
lemma DifferAt.payload_eq (h : DifferAt i (encode f) (encode g)) (hi : i < kHeaderSize) :
    g.payload = f.payload := by
  have hdrop : (encode f).drop kHeaderSize = (encode g).drop kHeaderSize := by
    refine List.ext_getElem? fun j => ?_
    rw [List.getElem?_drop, List.getElem?_drop]
    by_contra hne
    have := (h.2 _).mp hne
    omega
  rw [encode_eq, encode_eq, List.drop_left' (Header.length_bytes _),
    List.drop_left' (Header.length_bytes _)] at hdrop
  exact hdrop.symm

/-- A change in the payload leaves the header, and changes the payload in one place. -/
lemma DifferAt.header_eq (h : DifferAt i (encode f) (encode g)) (hi : kHeaderSize ≤ i) :
    g.header.bytes = f.header.bytes ∧ DifferWithin 4 f.payload g.payload := by
  obtain ⟨hlen, hplaces⟩ := h
  have htake : (encode f).take kHeaderSize = (encode g).take kHeaderSize := by
    refine List.ext_getElem? fun j => ?_
    rw [List.getElem?_take, List.getElem?_take]
    split_ifs with hj
    · by_contra hne
      have := (hplaces j).mp hne
      omega
    · rfl
  rw [encode_eq, encode_eq, List.take_left' (Header.length_bytes _),
    List.take_left' (Header.length_bytes _)] at htake
  rw [length_encode, length_encode, Nat.add_left_cancel_iff] at hlen
  refine ⟨htake.symm, hlen, i - kHeaderSize, fun j hj => ?_⟩
  have hplace : kHeaderSize + j = i := by
    refine (hplaces _).mp ?_
    rwa [encode_eq, encode_eq, List.getElem?_append_right (by simp),
      List.getElem?_append_right (by simp), Header.length_bytes, Header.length_bytes,
      Nat.add_sub_cancel_left]
  omega

/-- **One changed byte.** Of the strings that differ from a frame in exactly one place,
those are accepted that have another known kind in the kind byte, and they are read as
the payload under that kind. -/
theorem decode_differAt_iff (hf : f.Legal) (h : DifferAt i (encode f) b) (g : Frame) :
    decode b = .ok g ↔ i = 8 ∧ b[8]? = some g.kind.code ∧
      (1 ≤ g.kind.code ∧ g.kind.code ≤ 12) ∧ g.payload = f.payload := by
  constructor
  · intro hdecode
    obtain ⟨rfl, hg⟩ := eq_encode_of_decode hdecode
    rcases Nat.lt_or_ge i kHeaderSize with hi | hi
    · have hpayload := h.payload_eq hi
      refine ⟨?_, getElem?_encode_kind g, ⟨hg.kind_pos, hg.kind_le⟩, hpayload⟩
      by_contra hne
      exact (h.2 i).mpr rfl (getElem?_encode_of_ne hpayload hne)
    · obtain ⟨hheader, hdiff⟩ := h.header_eq hi
      rw [encode_eq, hheader] at hdecode
      have hpayload := payload_eq_of_decode hdiff hdecode
      -- the frames would be the same
      have hsame : encode g = encode f := by rw [encode_eq, encode_eq, hheader, hpayload]
      exact absurd (congrArg (·[i]?) hsame.symm) ((h.2 i).mpr rfl)
  · rintro ⟨rfl, hbyte, hkind, hpayload⟩
    have hb : b = encode g := by
      refine List.ext_getElem? fun j => ?_
      by_cases hj : j = 8
      · rw [hj, hbyte, getElem?_encode_kind]
      · have hkeep := not_not.mp fun hne => hj ((h.2 j).mp hne)
        rw [← hkeep, getElem?_encode_of_ne hpayload hj]
    rw [hb]
    exact decode_encode ⟨hkind.1, hkind.2, hpayload ▸ hf.payload_le⟩

/-- An empty heartbeat. -/
def heartbeat : Frame := ⟨.msgHeartbeat, []⟩

lemma heartbeat_legal : heartbeat.Legal := ⟨by decide, by decide, by decide⟩

lemma heartbeat_differAt : DifferAt 8 (encode heartbeat) (encode ⟨.msgHello, []⟩) :=
  differAt_kind (by decide)

/-- A heartbeat whose kind byte is changed to 1 is read as a greeting. -/
theorem heartbeat_read_as_hello : decode (encode ⟨.msgHello, []⟩) = .ok ⟨.msgHello, []⟩ :=
  (decode_differAt_iff heartbeat_legal heartbeat_differAt _).mpr
    ⟨rfl, getElem?_encode_kind _, ⟨by decide, by decide⟩, rfl⟩

/-- Not every frame with one changed byte is rejected. -/
theorem kind_change_accepted : ¬ ∀ f : Frame, f.Legal → ∀ i b, DifferAt i (encode f) b →
    ∃ e, decode b = .error e := by
  intro h
  obtain ⟨e, he⟩ := h heartbeat heartbeat_legal 8 _ heartbeat_differAt
  rw [decode_encode ⟨by decide, by decide, by decide⟩] at he
  cases he

end PcieFabric.Wire
