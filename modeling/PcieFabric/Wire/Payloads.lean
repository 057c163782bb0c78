import PcieFabric.Codec.Layout
import PcieFabric.Wire.Protocol

/-!
The payloads of the wire protocol.

* `isOk_readRegister`, `isOk_readRelease`: the payloads of fixed form are told
  by their length.
* `readAck_writeAck`: a reply within the string limit is read back.
-/

namespace PcieFabric.Wire

open Layout Token

/-! ### Payloads of fixed form -/

/-- The first eight bytes are a word. -/
lemma exists_u64_append {p : List UInt8} (h : 8 ≤ p.length) :
    ∃ v rest, p = Writer.u64 v ++ rest ∧ rest.length + 8 = p.length := by
  have hlen : (p.take 8).length = 8 := List.length_take_of_le h
  have hlt : LittleEndian.value (p.take 8) < 2 ^ 64 := by
    have hvalue := LittleEndian.value_lt (p.take 8)
    rwa [hlen] at hvalue
  obtain ⟨v, hword⟩ : ∃ v, p.take 8 = Writer.u64 v := by
    refine ⟨⟨BitVec.ofNat 64 (LittleEndian.value (p.take 8))⟩, ?_⟩
    refine (LittleEndian.bytes_eq_iff (by norm_num)).mpr ⟨hlen, ?_⟩
    rw [BitVec.toNat_ofNat, Nat.mod_eq_of_lt hlt]
  refine ⟨v, p.drop 8, ?_, by rw [List.length_drop]; omega⟩
  rw [← hword, List.take_append_drop]

/-- A decoder of a whole payload succeeds on the encodings of its values. -/
lemma isOk_whole_iff {α β : Type} {d : ReadM α} {w : α → List UInt8} (h : ReadsAs d w) (g : α → β)
    (p : List UInt8) (beyond : Nat → UInt8) :
    (onPayload (do
      let a ← d
      Reader.requireEnd
      return g a) p beyond).isOk = true ↔ ∃ a, p = w a := by
  constructor
  · intro hok
    cases hrun : onPayload (do
      let a ← d
      Reader.requireEnd
      return g a) p beyond with
    | error e => rw [hrun] at hok; cases hok
    | ok b =>
        obtain ⟨_, a, rfl, hbytes, -, -⟩ := (ok_whole_iff h g).mp hrun
        exact ⟨a, by rw [← hbytes, bytes_fixed]⟩
  · rintro ⟨a, rfl⟩
    have hrun : onPayload (do
        let a ← d
        Reader.requireEnd
        return g a) (w a) beyond = .ok (g a) :=
      (ok_whole_iff h g).mpr ⟨_, a, rfl, bytes_fixed (w a), fits_fixed _ _, rfl⟩
    rw [hrun]
    rfl

/-- The reads of `read_register` before its end test. -/
def readRegisterFields : ReadM RegisterRequest := do
  let w ← Reader.u64
  let b ← Reader.u64
  let h ← Reader.u64
  return ⟨w, b, h⟩

lemma readRegister_eq : readRegister = (do
    let reg ← readRegisterFields
    Reader.requireEnd
    return id reg) := by
  simp only [readRegister, readRegisterFields, bind_assoc, pure_bind, id_eq]

lemma reads_register : ReadsAs readRegisterFields writeRegister := by
  refine (Reads.bind reads_u64 fun w => Reads.bind reads_u64 fun b => Reads.bind reads_u64 fun h =>
    Reads.pure _).congr fun ts reg => ?_
  constructor
  · rintro ⟨_, _, w, rfl, rfl, _, _, b, rfl, rfl, _, _, h, rfl, rfl, rfl, rfl⟩
    simp [writeRegister]
  · rintro rfl
    exact ⟨_, _, reg.worker, by simp [writeRegister], rfl, _, _, reg.boot, rfl, rfl, _, _,
      reg.hostGen, rfl, rfl, rfl, rfl⟩

/-- A registration is any 24 bytes. -/
lemma isOk_readRegister (p : List UInt8) (beyond : Nat → UInt8) :
    (onPayload readRegister p beyond).isOk = true ↔ p.length = 24 := by
  rw [readRegister_eq, isOk_whole_iff reads_register]
  constructor
  · rintro ⟨reg, rfl⟩
    simp [writeRegister, Writer.u64]
  · intro hlen
    obtain ⟨w, p₁, rfl, h₁⟩ := exists_u64_append (p := p) (by omega)
    obtain ⟨b, p₂, rfl, h₂⟩ := exists_u64_append (p := p₁) (by omega)
    obtain ⟨h, p₃, rfl, h₃⟩ := exists_u64_append (p := p₂) (by omega)
    obtain rfl : p₃ = [] := List.eq_nil_of_length_eq_zero (by omega)
    exact ⟨⟨w, b, h⟩, by simp [writeRegister]⟩

/-- The reads of `read_release` before its end test. -/
def readReleaseFields : ReadM ReleaseRequest := do
  let a ← Reader.u64
  let b ← Reader.u64
  let g ← Reader.u64
  let e ← Reader.u64
  return ⟨a, b, g, e⟩

lemma readRelease_eq : readRelease = (do
    let rel ← readReleaseFields
    Reader.requireEnd
    return id rel) := by
  simp only [readRelease, readReleaseFields, bind_assoc, pure_bind, id_eq]

lemma reads_release : ReadsAs readReleaseFields writeRelease := by
  refine (Reads.bind reads_u64 fun a => Reads.bind reads_u64 fun b => Reads.bind reads_u64 fun g =>
    Reads.bind reads_u64 fun e => Reads.pure _).congr fun ts rel => ?_
  constructor
  · rintro ⟨_, _, a, rfl, rfl, _, _, b, rfl, rfl, _, _, g, rfl, rfl, _, _, e, rfl, rfl, rfl, rfl⟩
    simp [writeRelease]
  · rintro rfl
    exact ⟨_, _, rel.reservation, by simp [writeRelease], rfl, _, _, rel.boot, rfl, rfl, _, _,
      rel.gen, rfl, rfl, _, _, rel.epoch, rfl, rfl, rfl, rfl⟩

/-- A release is any 32 bytes. -/
lemma isOk_readRelease (p : List UInt8) (beyond : Nat → UInt8) :
    (onPayload readRelease p beyond).isOk = true ↔ p.length = 32 := by
  rw [readRelease_eq, isOk_whole_iff reads_release]
  constructor
  · rintro ⟨rel, rfl⟩
    simp [writeRelease, Writer.u64]
  · intro hlen
    obtain ⟨a, p₁, rfl, h₁⟩ := exists_u64_append (p := p) (by omega)
    obtain ⟨b, p₂, rfl, h₂⟩ := exists_u64_append (p := p₁) (by omega)
    obtain ⟨g, p₃, rfl, h₃⟩ := exists_u64_append (p := p₂) (by omega)
    obtain ⟨e, p₄, rfl, h₄⟩ := exists_u64_append (p := p₃) (by omega)
    obtain rfl : p₄ = [] := List.eq_nil_of_length_eq_zero (by omega)
    exact ⟨⟨a, b, g, e⟩, by simp [writeRelease]⟩

/-! ### The reply -/

/-- The tokens of a reply with this flag byte. -/
def ackFields (okb : UInt8) (a : Ack) : List Token :=
  fixed (Writer.u64 a.epoch) ++ (fixed (Writer.u64 a.seq) ++ (fixed (Writer.u8 okb) ++
    [.str a.message]))

/-- The reads of `read_ack` before its end test. -/
def readAckFields : ReadM Ack := do
  let ep ← Reader.u64
  let sq ← Reader.u64
  let okb ← Reader.u8
  let m ← Reader.string
  return ⟨ep, sq, okb != 0, m⟩

lemma readAck_eq : readAck = (do
    let a ← readAckFields
    Reader.requireEnd
    return id a) := by
  simp only [readAck, readAckFields, bind_assoc, pure_bind, id_eq]

lemma reads_ack : layout.Reads readAckFields (Images
    (fun i : UInt8 × Ack => i.2.message.length < 2 ^ 32 ∧ i.2.ok = (i.1 != 0))
    (fun i => ackFields i.1 i.2) fun i => i.2) := by
  refine (Reads.bindImages reads_u64.image fun ep => Reads.bindImages reads_u64.image fun sq =>
    Reads.bindImages reads_u8.image fun okb => Reads.bindImages (Reads.ownImage reads_string)
    fun m => Reads.pureImage _).congr (images_congr ?_ ?_)
  · rintro ⟨ep, sq, okb, m, _⟩ ⟨-, -, -, hm, -⟩
    exact ⟨(okb, ⟨ep, sq, okb != 0, m⟩), ⟨hm, rfl⟩, by simp [ackFields], rfl⟩
  · rintro ⟨okb, ep, sq, ok, m⟩ ⟨hm, hok⟩
    obtain rfl : ok = (okb != 0) := hok
    exact ⟨(ep, sq, okb, m, ()), ⟨trivial, trivial, trivial, hm, trivial⟩, by simp [ackFields], rfl⟩

/-- The flag byte `write_ack` makes of `ok`. -/
def okByte (ok : Bool) : UInt8 := if ok then 1 else 0

lemma bytes_ackFields (a : Ack) : layout.bytes (ackFields (okByte a.ok) a) = writeAck a := by
  simp only [ackFields, bytes_append, bytes_fixed, bytes_str, writeAck, okByte, List.flatten_cons,
    List.flatten_nil, List.append_nil]

lemma fits_ackFields {okb : UInt8} {a : Ack} :
    layout.Fits 0 (ackFields okb a) ↔ a.message.length ≤ Reader.stringCap := by
  have hhead : (layout.bytes (fixed (Writer.u64 a.epoch))).length +
      (layout.bytes (fixed (Writer.u64 a.seq))).length +
      (layout.bytes (fixed (Writer.u8 okb))).length = 17 := by
    simp [Writer.u64, Writer.u8]
  rw [ackFields, fits_append_iff, fits_append_iff, fits_append_iff, fits_str,
    and_iff_right (fits_fixed _ _), and_iff_right (fits_fixed _ _), and_iff_right (fits_fixed _ _),
    Nat.zero_add, hhead]
  -- the string stands so far in front that the larger cap never bites
  have hcap : Reader.stringCap ≤ sizeSub Reader.maxString (17 + 4) := by decide
  exact and_iff_right_of_imp fun h => h.trans hcap

/-- The message of the reply is within the string limit. -/
def Ack.Short (a : Ack) : Prop := a.message.length ≤ Reader.stringCap

/-- A reply within the string limit is read back. -/
lemma readAck_writeAck {a : Ack} (h : a.Short) (beyond : Nat → UInt8) :
    onPayload readAck (writeAck a) beyond = .ok a := by
  rw [onPayload, readAck_eq, ok_whole_iff reads_ack]
  have hok : a.ok = (okByte a.ok != 0) := by cases a.ok <;> rfl
  exact ⟨_, a, ⟨(okByte a.ok, a), ⟨lt_of_le_of_lt h (by decide), hok⟩, rfl, rfl⟩,
    bytes_ackFields a, fits_ackFields.mpr h, rfl⟩

end PcieFabric.Wire
