import PcieFabric.Persist.FileImage
import PcieFabric.Wire.Corruption

/-!
Which corrupted files are rejected (`persistence.hpp`), and what the checksum is good for
in both of its uses.

* `body_eq_of_load`: behind the header of a saved body, what differs from the body only
  within four consecutive bytes is loaded only if it is the body.
* `bursts_detected`: such changes are seen by the checksum, in frames and in files.
-/

namespace PcieFabric.Persist

open ShiftRegister Wire

/-- The header `save` writes for a body. -/
def headerOf (body : List UInt8) : List UInt8 :=
  headerBytes (UInt64.ofNat body.length) (crc32 body crc32Seed)

/-- Behind the header of a body stands what has its checksum. -/
lemma crc32_eq_of_load {body changed : List UInt8} {beyond : Nat → UInt8} {s : Snapshot}
    (hsize : body.length < 2 ^ 64) (hlen : body.length = changed.length)
    (h : loadData (headerOf body ++ changed) beyond = .ok s) :
    crc32 changed crc32Seed = crc32 body crc32Seed := by
  have hcast : (UInt64.ofNat body.length).toNat = changed.length := by
    rw [UInt64.toNat_ofNat_of_lt' hsize, hlen]
  have hlength : (headerOf body ++ changed).length = 20 + changed.length := by
    rw [List.length_append, headerOf, length_headerBytes]
  have hdecl : Declares (headerOf body ++ changed) (UInt64.ofNat body.length)
      (crc32 body crc32Seed) := ⟨by omega, List.prefix_append _ _⟩
  obtain ⟨len, crc, hdecl', hcrc, -⟩ := loadData_ok_iff.mp h
  obtain ⟨rfl, rfl⟩ := hdecl.unique hdecl'
  have htail : tail (headerOf body ++ changed) (UInt64.ofNat body.length) = changed := by
    rw [tail, hlength, hcast, Nat.add_sub_cancel]
    exact List.drop_left' (length_headerBytes _ _)
  rwa [htail] at hcrc

/-- **A burst in the body** is rejected: behind the header of a saved body, what differs
from it only within four consecutive bytes is loaded only if it is the body. -/
theorem body_eq_of_load {body changed : List UInt8} {beyond : Nat → UInt8} {s : Snapshot}
    (hsize : body.length < 2 ^ 64) (hdiff : DifferWithin 4 body changed)
    (h : loadData (headerOf body ++ changed) beyond = .ok s) : changed = body :=
  (eq_of_crc32 hdiff (crc32_eq_of_load hsize hdiff.1 h).symm).symm

/-- **Bursts are detected**: of two distinct strings that differ only within four
consecutive bytes the checksums differ; so a frame whose payload is changed that way does
not decode, and a file whose body is changed that way does not load. -/
theorem bursts_detected :
    (∀ a b, DifferWithin 4 a b → a ≠ b → crc32 a crc32Seed ≠ crc32 b crc32Seed) ∧
    (∀ (f : Frame) payload, DifferWithin 4 f.payload payload → f.payload ≠ payload →
      ∃ e, decode (f.header.bytes ++ payload) = .error e) ∧
    ∀ body changed beyond, body.length < 2 ^ 64 → DifferWithin 4 body changed →
      body ≠ changed → ∃ e, loadData (headerOf body ++ changed) beyond = .error e := by
  refine ⟨fun a b hdiff hne h => hne (eq_of_crc32 hdiff h), ?_, ?_⟩
  · intro f payload hdiff hne
    cases hdecode : decode (f.header.bytes ++ payload) with
    | error e => exact ⟨e, rfl⟩
    | ok g => exact absurd (payload_eq_of_decode hdiff hdecode).symm hne
  · intro body changed beyond hsize hdiff hne
    cases hload : loadData (headerOf body ++ changed) beyond with
    | error e => exact ⟨e, rfl⟩
    | ok s => exact absurd (body_eq_of_load hsize hdiff hload).symm hne

end PcieFabric.Persist
