import PcieFabric.Codec.Codec
import PcieFabric.Lib.ShiftRegister

/-!
What the checksum sees (`codec.hpp`).

* `toBitVec_foldl_crc32Byte`: the loop of `crc32` is a shift register that is fed bytes.
* `eq_of_crc32`: strings that differ only within four consecutive bytes have different
  checksums.
-/

namespace PcieFabric

open ShiftRegister

/-- The bits `crc32` takes in when a one is shifted out. -/
def crc32Mask : BitVec 32 := 0xEDB88320#32

/-- The low bit of a word, as the word itself. -/
lemma toBitVec_and_one (crc : UInt32) :
    (crc &&& 1).toBitVec = BitVec.setWidth 32 (BitVec.ofBool (crc.toBitVec.getLsbD 0)) := by
  rw [UInt32.toBitVec_and]
  exact BitVec.and_one_eq_setWidth_ofBool_getLsbD

/-- A round of the inner loop is a shift. -/
lemma toBitVec_crc32Bit (crc : UInt32) :
    (crc32Bit crc).toBitVec = step crc32Mask crc.toBitVec := by
  have hmask : (0xEDB88320 &&& (0 - (crc &&& 1)) : UInt32).toBitVec =
      if crc.toBitVec.getLsbD 0 then crc32Mask else 0#32 := by
    rw [UInt32.toBitVec_and, UInt32.toBitVec_sub, toBitVec_and_one]
    cases crc.toBitVec.getLsbD 0 <;> decide
  rw [crc32Bit, UInt32.toBitVec_xor, hmask, step]
  rfl

lemma toBitVec_crc32Byte (crc : UInt32) (b : UInt8) :
    (crc32Byte crc b).toBitVec = feed crc32Mask crc.toBitVec b.toBitVec := by
  have hrounds : Function.Semiconj UInt32.toBitVec crc32Bit (step crc32Mask) :=
    toBitVec_crc32Bit
  rw [crc32Byte, feed, steps, hrounds.iterate_right 8, UInt32.toBitVec_xor]
  rfl

/-- **The checksum loop is a shift register** that is fed bytes. -/
theorem toBitVec_foldl_crc32Byte (data : List UInt8) (crc : UInt32) :
    (data.foldl crc32Byte crc).toBitVec =
      (data.map UInt8.toBitVec).foldl (feed crc32Mask) crc.toBitVec := by
  induction data generalizing crc with
  | nil => rfl
  | cons b data ih => rw [List.foldl_cons, ih, toBitVec_crc32Byte, List.map_cons, List.foldl_cons]

/-- **Bursts are seen**: strings that differ only within four consecutive bytes have one
checksum only if they are the same. -/
theorem eq_of_crc32 {a b : List UInt8} {seed : UInt32} (hdiff : DifferWithin 4 a b)
    (h : crc32 a seed = crc32 b seed) : a = b := by
  have hbytes : DifferWithin 4 (a.map UInt8.toBitVec) (b.map UInt8.toBitVec) := by
    obtain ⟨hlen, i, hplaces⟩ := hdiff
    refine ⟨by simp [hlen], i, fun j hj => hplaces j fun heq => hj ?_⟩
    rw [List.getElem?_map, List.getElem?_map, heq]
  have hloop : a.foldl crc32Byte seed = b.foldl crc32Byte seed := (UInt32.xor_left_inj _).mp h
  have hregister := congrArg UInt32.toBitVec hloop
  rw [toBitVec_foldl_crc32Byte, toBitVec_foldl_crc32Byte] at hregister
  have hmap := hbytes.eq_of_foldl_feed (by decide) (by decide) hregister
  exact List.map_injective_iff.mpr (fun x y hxy => UInt8.toBitVec_inj.mp hxy) hmap

end PcieFabric
