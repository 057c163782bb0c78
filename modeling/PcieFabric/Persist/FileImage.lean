import PcieFabric.Codec.Leftover
import PcieFabric.Persist.RoundTrip
import PcieFabric.Persist.Save

/-!
Which files `load` accepts (`persistence.hpp`).

* `headerBytes`: the 20 bytes in front of the body. `loadData_ok_iff`: a file is
  accepted that begins with such bytes and whose last bytes, as many as they declare,
  have the declared checksum and are a stream.
* `Misplaced`: an accepted file whose body does not begin where its header ends.
* `load_exact_iff`: `load` accepts only file images exactly where there is none.
-/

namespace PcieFabric.Persist

open Layout Token

/-! ### The header -/

/-- The bytes `save` writes in front of a body of that length and checksum. -/
def headerBytes (len : UInt64) (crc : UInt32) : List UInt8 := List.flatten [
  fileMagic, Writer.u32 fileVersion, Writer.u64 len, Writer.u32 crc]

@[simp] lemma length_headerBytes (len : UInt64) (crc : UInt32) :
    (headerBytes len crc).length = 20 := by
  simp [headerBytes, Writer.u32, Writer.u64, fileMagic, ascii]

lemma fileImage_eq (body : List UInt8) : fileImage body =
    headerBytes (UInt64.ofNat body.length) (crc32 body crc32Seed) ++ body := by
  simp [fileImage, headerBytes]

/-- **The header reads** read the bytes of a header that declares no more than the
file has. -/
theorem reads_fileHeader (size : Nat) : layout.Reads (readHeader size) fun ts h =>
    h.1.toNat ≤ size ∧ ts = fixed (headerBytes h.1 h.2) := by
  refine (Reads.bind (reads_bytes 4) fun magic =>
    Reads.bind (Reads.ensure _ _) fun _ => Reads.bind reads_u32 fun ver =>
    Reads.bind (Reads.ensure _ _) fun _ => Reads.bind reads_u64 fun len =>
    Reads.bind (Reads.ensure _ _) fun _ => Reads.bind reads_u32 fun crc =>
    Reads.pure _).congr fun ts h => ?_
  constructor
  · rintro ⟨_, _, magic, rfl, ⟨-, rfl⟩, _, _, _, rfl, ⟨rfl, hmagic⟩, _, _, ver, rfl, rfl, _, _, _,
      rfl, ⟨rfl, hver⟩, _, _, len, rfl, rfl, _, _, _, rfl, ⟨rfl, hlen⟩, _, _, crc, rfl, rfl, rfl,
      rfl⟩
    obtain rfl := eq_of_beq hmagic
    obtain rfl := eq_of_beq hver
    refine ⟨of_decide_eq_true hlen, ?_⟩
    simp only [headerBytes, List.flatten_cons, List.flatten_nil, fixed, List.map_append,
      List.nil_append, List.append_nil]
  · rintro ⟨hlen, rfl⟩
    refine ⟨_, _, fileMagic, ?_, ⟨rfl, rfl⟩, [], _, (), rfl, ⟨rfl, beq_self_eq_true _⟩, _, _,
      fileVersion, rfl, rfl, [], _, (), rfl, ⟨rfl, beq_self_eq_true _⟩, _, _, h.1, rfl, rfl, [], _,
      (), rfl, ⟨rfl, decide_eq_true hlen⟩, _, _, h.2, rfl, rfl, rfl, rfl⟩
    simp only [headerBytes, List.flatten_cons, List.flatten_nil, fixed, List.map_append,
      List.nil_append, List.append_nil]

/-- The header ends with its checksum. -/
lemma endsInside_fileHeader (size : Nat) : EndsInside (readHeader size) :=
  .bind fun _ => .bind fun _ => .bind fun _ => .bind fun _ => .bind fun _ => .bind fun _ =>
  .map .u32 _

variable {data : List UInt8} {beyond : Nat → UInt8}

/-- The header is read exactly from the files that begin with it. -/
lemma fileHeader_ok_iff (beyond : Nat → UInt8) {size : Nat} {len : UInt64} {crc : UInt32} :
    (readHeader size { data, beyond }).1 = .ok (len, crc) ↔
      len.toNat ≤ size ∧ headerBytes len crc <+: data := by
  rw [ok_iff_begins (reads_fileHeader size) (endsInside_fileHeader size)]
  constructor
  · rintro ⟨_, ⟨hlen, rfl⟩, -, hpre⟩
    exact ⟨hlen, by rwa [bytes_fixed] at hpre⟩
  · rintro ⟨hlen, hpre⟩
    exact ⟨_, ⟨hlen, rfl⟩, fits_fixed _ _, by rwa [bytes_fixed]⟩

/-! ### The body -/

/-- The last bytes of a file. -/
def tail (data : List UInt8) (len : UInt64) : List UInt8 := data.drop (data.length - len.toNat)

/-- The file begins with a header that declares that length and checksum, and has as
many bytes. -/
def Declares (data : List UInt8) (len : UInt64) (crc : UInt32) : Prop :=
  len.toNat ≤ data.length ∧ headerBytes len crc <+: data

/-- A file declares one length and one checksum. -/
lemma Declares.unique {len len' : UInt64} {crc crc' : UInt32} (h : Declares data len crc)
    (h' : Declares data len' crc') : len = len' ∧ crc = crc' := by
  have hread := (fileHeader_ok_iff fun _ => 0).mpr h
  have hread' := (fileHeader_ok_iff fun _ => 0).mpr h'
  exact Prod.mk.inj (Except.ok.inj (hread.symm.trans hread'))

/-- **What is accepted**: the checksum and the stream are those of the last bytes. -/
theorem loadData_ok_iff {s : Snapshot} : loadData data beyond = .ok s ↔ ∃ len crc,
    Declares data len crc ∧ crc32 (tail data len) crc32Seed = crc ∧
      deserialize (tail data len) beyond = .ok s := by
  rw [loadData]
  by_cases hsmall : data.length < 16
  · rw [if_pos hsmall]
    refine iff_of_false nofun ?_
    rintro ⟨len, crc, ⟨-, hpre⟩, -⟩
    have hlen := hpre.length_le
    rw [length_headerBytes] at hlen
    omega
  rw [if_neg hsmall]
  cases hread : (readHeader data.length { data, beyond }).1 with
  | error e =>
      refine iff_of_false nofun ?_
      rintro ⟨len, crc, hdecl, -⟩
      have hok := (fileHeader_ok_iff beyond).mpr hdecl
      rw [hread] at hok
      cases hok
  | ok h =>
      obtain ⟨len, crc⟩ := h
      have hdecl : Declares data len crc := (fileHeader_ok_iff beyond).mp hread
      have honly : (∃ len' crc', Declares data len' crc' ∧
          crc32 (tail data len') crc32Seed = crc' ∧
            deserialize (tail data len') beyond = .ok s) ↔
          crc32 (tail data len) crc32Seed = crc ∧ deserialize (tail data len) beyond = .ok s := by
        constructor
        · rintro ⟨len', crc', hdecl', h⟩
          obtain ⟨rfl, rfl⟩ := hdecl.unique hdecl'
          exact h
        · exact fun h => ⟨len, crc, hdecl, h⟩
      rw [honly]
      show (if crc32 (tail data len) crc32Seed ≠ crc then _ else _) = _ ↔ _
      by_cases hcrc : crc32 (tail data len) crc32Seed = crc
      · rw [if_neg (not_not.mpr hcrc), and_iff_right hcrc]
        exact Iff.rfl
      · rw [if_pos hcrc]
        exact iff_of_false nofun fun h => hcrc h.1

/-! ### File images -/

/-- The file is accepted, and its header does not end where the body begins: there are
bytes between the two, or the two overlap. -/
def Misplaced (data : List UInt8) (beyond : Nat → UInt8) : Prop := ∃ len crc,
  Declares data len crc ∧ 20 + len.toNat ≠ data.length ∧
    crc32 (tail data len) crc32Seed = crc ∧ (deserialize (tail data len) beyond).isOk

/-- The file is the image of the body, whose length is written in 8 bytes. -/
def IsImageOf (data body : List UInt8) : Prop := body.length < 2 ^ 64 ∧ data = fileImage body

/-- The header of an image declares the body. -/
lemma IsImageOf.declares {body : List UInt8} (h : IsImageOf data body) :
    Declares data (UInt64.ofNat body.length) (crc32 body crc32Seed) ∧
      20 + (UInt64.ofNat body.length).toNat = data.length := by
  obtain ⟨hlen, rfl⟩ := h
  have hcast : (UInt64.ofNat body.length).toNat = body.length := UInt64.toNat_ofNat_of_lt' hlen
  have hlength : (fileImage body).length = 20 + body.length := by
    rw [fileImage_eq, List.length_append, length_headerBytes]
  refine ⟨⟨by omega, ?_⟩, by omega⟩
  rw [fileImage_eq]
  exact List.prefix_append _ _

/-- A file whose header declares all that follows it is the image of that. -/
lemma isImageOf_tail {len : UInt64} {crc : UInt32} (h : Declares data len crc)
    (hlen : 20 + len.toNat = data.length) (hcrc : crc32 (tail data len) crc32Seed = crc) :
    IsImageOf data (tail data len) := by
  obtain ⟨-, body, rfl⟩ := h
  rw [List.length_append, length_headerBytes, Nat.add_left_cancel_iff] at hlen
  have htail : tail (headerBytes len crc ++ body) len = body := by
    rw [tail, List.length_append, hlen, Nat.add_sub_cancel, List.drop_left]
  rw [htail] at hcrc ⊢
  refine ⟨hlen ▸ len.toNat_lt, ?_⟩
  rw [fileImage_eq, hcrc, ← hlen, UInt64.ofNat_toNat]

/-- **Loading exact images, exactly.** `load` accepts the file only if it is the image of
a body that is the loaded snapshot's stream, if and only if it is not an accepted file
whose header does not end where its body begins. -/
theorem load_exact_iff (fs : Files) (path : String) (beyond : Nat → UInt8) :
    (∀ s, load fs path beyond = .ok s → ∃ data body, fs.get path = some data ∧
      IsImageOf data body ∧ deserialize body beyond = .ok s) ↔
      ∀ data ∈ fs.get path, ¬ Misplaced data beyond := by
  cases hget : fs.get path with
  | none => exact iff_of_true (fun s h => by rw [load, hget] at h; cases h) nofun
  | some data =>
      simp only [load, hget, Option.some.injEq, Option.mem_def, forall_eq', loadData_ok_iff]
      constructor
      · rintro h ⟨len, crc, hdecl, hne, hcrc, hok⟩
        cases hbody : deserialize (tail data len) beyond with
        | error e =>
            rw [hbody] at hok
            cases hok
        | ok s =>
            obtain ⟨_, body, rfl, himage, -⟩ := h s ⟨len, crc, hdecl, hcrc, hbody⟩
            obtain ⟨hdecl', hend⟩ := himage.declares
            obtain ⟨rfl, -⟩ := hdecl.unique hdecl'
            exact hne hend
      · rintro h s ⟨len, crc, hdecl, hcrc, hbody⟩
        have hend : 20 + len.toNat = data.length := by
          by_contra hne
          exact h ⟨len, crc, hdecl, hne, hcrc, by rw [hbody]; rfl⟩
        exact ⟨data, tail data len, rfl, isImageOf_tail hdecl hend hcrc, hbody⟩

/-- The stream of an empty snapshot. -/
def emptyBody : List UInt8 := (SnapshotImage.ofSnapshot {}).bytes

/-- Its image with a byte between header and body. -/
def gapImage : List UInt8 :=
  headerBytes (UInt64.ofNat emptyBody.length) (crc32 emptyBody crc32Seed) ++ 0 :: emptyBody

/-- A file with a byte between header and body is accepted. -/
theorem gap_image_loaded : ¬ ∀ fs path beyond s, load fs path beyond = .ok s →
    ∃ data body, fs.get path = some data ∧ IsImageOf data body ∧
      deserialize body beyond = .ok s := by
  intro h
  let fs : Files := FileSystem.put (fun _ => none) "state" gapImage
  have hget : fs.get "state" = some gapImage := FileSystem.get_put_self gapImage
  have hok : (load fs "state" fun _ => 0).isOk := by
    rw [load, hget]
    decide +kernel
  cases hload : load fs "state" fun _ => 0 with
  | error e =>
      rw [hload] at hok
      cases hok
  | ok s =>
      obtain ⟨data, body, hdata, ⟨-, himage⟩, hbody⟩ := h fs "state" _ s hload
      obtain rfl := Option.some.inj (hget.symm.trans hdata)
      -- behind the header stands the extra byte, which no stream begins with
      have hdrop : body = gapImage.drop 20 := by
        rw [himage, fileImage_eq, List.drop_left' (length_headerBytes _ _)]
      have hfail : (deserialize (gapImage.drop 20) fun _ => 0).isOk = false := by decide +kernel
      rw [← hdrop, hbody] at hfail
      cases hfail

end PcieFabric.Persist
