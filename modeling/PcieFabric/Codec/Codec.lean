import PcieFabric.Base.Bdf
import PcieFabric.Lib.LittleEndian
import PcieFabric.Lib.StreamDecoder

/-!
The binary codec (`codec.hpp`).

* `crc32`: the checksum, bit by bit.
* `Writer`: the encoding of each primitive, as the bytes it appends.
* `Reader`: the buffer with the read position. A byte is fetched by its address,
  and an address behind the buffer yields whatever the memory holds there
  (`beyond`); `touched` records the addresses fetched.
* `Reader.u8` to `Reader.requireEnd`: the read primitives. `Reader.string`
  compares the declared length with two fixed caps and fetches that many bytes.
-/

namespace PcieFabric

/-! ### Checksum -/

/-- One round of the inner loop of `crc32`. -/
def crc32Bit (crc : UInt32) : UInt32 :=
  let mask : UInt32 := 0 - (crc &&& 1)
  (crc >>> 1) ^^^ (0xEDB88320 &&& mask)

/-- One byte of `crc32`: the inner loop runs eight times. -/
def crc32Byte (crc : UInt32) (b : UInt8) : UInt32 := crc32Bit^[8] (crc ^^^ b.toUInt32)

/-- `crc32`. -/
def crc32 (data : List UInt8) (seed : UInt32) : UInt32 :=
  data.foldl crc32Byte seed ^^^ 0xFFFFFFFF

/-- The default argument of `crc32`. -/
def crc32Seed : UInt32 := 0xFFFFFFFF

/-! ### Writer -/

namespace Writer

/-- `Writer::u8`. -/
def u8 (v : UInt8) : List UInt8 := [v]

/-- `Writer::u16`. -/
def u16 (v : UInt16) : List UInt8 := u8 v.toUInt8 ++ u8 (v >>> 8).toUInt8

/-- `Writer::u32`. -/
def u32 (v : UInt32) : List UInt8 := LittleEndian.bytes 4 v.toBitVec

/-- `Writer::u64`. -/
def u64 (v : UInt64) : List UInt8 := LittleEndian.bytes 8 v.toBitVec

/-- `Writer::f64`. -/
def f64 (v : Double) : List UInt8 := u64 v.bits

/-- `Writer::boolean`. -/
def boolean (v : Bool) : List UInt8 := u8 (if v then 1 else 0)

/-- `Writer::string`; the size is cast to 32 bits. -/
def string (s : List UInt8) : List UInt8 := u32 (UInt32.ofNat s.length) ++ s

/-- `Writer::u32_count`; the size is cast to 32 bits. -/
def u32Count (n : Nat) : List UInt8 := u32 (UInt32.ofNat n)

/-- The bytes of a number determine it. -/
lemma u32_injective : Function.Injective u32 := fun _ _ h =>
  UInt32.toBitVec_inj.mp (LittleEndian.bytes_injective (by norm_num) h)

lemma u64_injective : Function.Injective u64 := fun _ _ h =>
  UInt64.toBitVec_inj.mp (LittleEndian.bytes_injective (by norm_num) h)

lemma f64_injective : Function.Injective f64 := fun a b h => by
  obtain ⟨a⟩ := a
  obtain ⟨b⟩ := b
  exact congrArg Double.mk (u64_injective h)

end Writer

/-! ### Reader -/

/-- `Reader`. -/
structure Reader where
  data : List UInt8
  beyond : Nat → UInt8
  pos : Nat := 0
  touched : List Nat := []

/-- A reading of the codec: a value or a typed error, and the reader after it. -/
abbrev ReadM (α : Type) := Decoder Reader Error α

/-- `a - b` on `std::size_t`. -/
def sizeSub (a b : Nat) : Nat := (a + (2 ^ 64 - b % 2 ^ 64)) % 2 ^ 64

namespace Reader

/-- `size_`. -/
def size (r : Reader) : Nat := r.data.length

/-- `max_string_`. -/
def maxString : Nat := 256 * 1024

/-- `max_count_`. -/
def maxCount : Nat := 16 * 1024 * 1024

/-- The second cap of `Reader::string`. -/
def stringCap : Nat := 64 * 1024

/-- `data_[i]`. -/
def fetch (r : Reader) (i : Nat) : UInt8 := (r.data[i]?).getD (r.beyond i)

/-- `Reader::u8`. -/
def u8 : ReadM UInt8 := fun r =>
  if r.pos + 1 > r.size then (Result.err .truncated "u8 overrun", r)
  else (.ok (r.fetch r.pos), { r with pos := r.pos + 1, touched := r.pos :: r.touched })

/-- `Reader::u16`. -/
def u16 : ReadM UInt16 := do
  let lo ← u8
  let hi ← u8
  return lo.toUInt16 ||| (hi.toUInt16 <<< 8)

/-- One round of the loop of `u32` and `u64`: the next byte goes to place `i`. -/
def nextPlace {w : Nat} (acc : Nat × BitVec w) : ReadM (Nat × BitVec w) := do
  let b ← u8
  return (acc.1 + 1, LittleEndian.place acc.2 acc.1 b)

/-- `Reader::u32`. -/
def u32 : ReadM UInt32 := do
  let (_, v) ← Decoder.times (nextPlace (w := 32)) 4 (0, 0)
  return ⟨v⟩

/-- `Reader::u64`. -/
def u64 : ReadM UInt64 := do
  let (_, v) ← Decoder.times (nextPlace (w := 64)) 8 (0, 0)
  return ⟨v⟩

/-- `Reader::f64`. -/
def f64 : ReadM Double := do
  let bits ← u64
  return ⟨bits⟩

/-- `Reader::boolean`. -/
def boolean : ReadM Bool := do
  let b ← u8
  return b != 0

/-- `std::string(data_ + pos_, len)` and `pos_ += len`. -/
def take (len : Nat) : ReadM (List UInt8) := fun r =>
  let addresses := List.range' r.pos len
  (.ok (addresses.map r.fetch),
    { r with pos := r.pos + len, touched := addresses.reverse ++ r.touched })

/-- `Reader::string`. -/
def string : ReadM (List UInt8) := do
  let len ← u32
  fun r =>
    -- the position is subtracted from a constant, not from `size_`
    if len.toNat > sizeSub maxString r.pos ∨ len.toNat > stringCap then
      (Result.err .protocolOverflow "string length out of bounds", r)
    else take len.toNat r

/-- `Reader::u32_count`. -/
def u32Count : ReadM UInt32 := do
  let n ← u32
  Decoder.ensure (decide (n.toNat ≤ maxCount)) ⟨.protocolOverflow, "count out of bounds"⟩
  return n

/-- `Reader::at_end`. -/
def atEnd (r : Reader) : Bool := r.pos = r.size

/-- `Reader::require_end`. -/
def requireEnd : ReadM Unit := fun r =>
  if r.pos ≠ r.size then (Result.err .protocolMalformed "trailing garbage", r) else (.ok (), r)

end Reader

end PcieFabric
