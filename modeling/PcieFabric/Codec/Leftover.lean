import PcieFabric.Codec.Layout

/-!
Decoders that no `require_end` follows (`codec.hpp`).

* `ok_iff_begins`: a decoder that ends inside its buffer succeeds exactly where an
  encoding stands in front.
* `stops_short_iff`: a decoder that succeeds before the end of its buffer is one on an
  encoding with more bytes behind it.
* `runs_over_iff`: a decoder whose last call is `string` succeeds behind the end of its
  buffer exactly on an encoding that was cut off inside that string.
-/

namespace PcieFabric

open Layout Token

/-! ### Bytes that are left -/

section

variable {α : Type} {d : ReadM α} {F : List Token → α → Prop} {data : List UInt8}
  {beyond : Nat → UInt8}

/-- A decoder that ends inside succeeds exactly on the buffers that its format stands in
front of. -/
lemma ok_iff_begins (h : layout.Reads d F) (hend : EndsInside d) {a : α} :
    (d { data, beyond }).1 = .ok a ↔
      ∃ ts, F ts a ∧ layout.Fits 0 ts ∧ layout.bytes ts <+: data := by
  constructor
  · intro ha
    have hin := hend _ a ha
    rw [Reader.size, show (d { data, beyond }).2.data = data from h.frame _] at hin
    obtain ⟨-, ts, hF, hfit, hpre, -⟩ := run_of_ok h (Prod.ext ha rfl) hin
    exact ⟨ts, hF, hfit, hpre⟩
  · rintro ⟨ts, hF, hfit, hpre⟩
    exact (h.complete { data, beyond } ts a hF hpre hfit).1

/-- **More bytes than are read.** The decoder succeeds before the end exactly on an
encoding with more bytes behind it. -/
theorem stops_short_iff (h : layout.Reads d F) :
    (∃ a r, d { data, beyond } = (.ok a, r) ∧ r.pos < r.size) ↔
      ∃ ts a extra, F ts a ∧ layout.Fits 0 ts ∧ extra ≠ [] ∧ data = layout.bytes ts ++ extra := by
  constructor
  · rintro ⟨a, r, hr, hlt⟩
    have hsize : r.size = data.length := by
      have hframe := h.frame { data, beyond }
      rw [hr] at hframe
      exact congrArg List.length hframe
    rw [hsize] at hlt
    obtain ⟨-, ts, hF, hfit, ⟨extra, hsplit⟩, hpos⟩ := run_of_ok h hr hlt.le
    refine ⟨ts, a, extra, hF, hfit, ?_, hsplit.symm⟩
    rintro rfl
    rw [hpos, Nat.zero_add, ← show layout.bytes ts ++ [] = data from hsplit,
      List.append_nil] at hlt
    exact lt_irrefl _ hlt
  · rintro ⟨ts, a, extra, hF, hfit, hne, rfl⟩
    obtain ⟨r, hr, hdata, hpos⟩ := h.exists_run (r := { data := layout.bytes ts ++ extra, beyond })
      hF (List.prefix_append _ _) hfit
    refine ⟨a, r, hr, ?_⟩
    have hdata' : r.data = layout.bytes ts ++ extra := hdata
    have hpos' : r.pos = (layout.bytes ts).length := hpos.trans (Nat.zero_add _)
    rw [Reader.size, hdata', hpos', List.length_append]
    exact Nat.lt_add_of_pos_right (List.length_pos_iff.mpr hne)

/-- Where every success ends inside, none ends behind the buffer. -/
lemma not_runs_over (h : EndsInside d) :
    ¬ ∃ a r, d { data, beyond } = (.ok a, r) ∧ r.size < r.pos := by
  rintro ⟨a, r, hr, hlt⟩
  have hin := h { data, beyond } a (by rw [hr])
  rw [hr] at hin
  exact absurd hin (Nat.not_le.mpr hlt)

end

/-! ### Bytes that are missing -/

/-- A string token that fits stands at the position, without its last bytes. -/
structure CutString (r : Reader) (s missing : List UInt8) : Prop where
  length_lt : s.length < 2 ^ 32
  fits : layout.Fits r.pos [.str s]
  missing_ne : missing ≠ []
  missing_le : missing.length ≤ s.length
  cut : Writer.string s = r.data.drop r.pos ++ missing

/-- A string that was taken over the end of the buffer is cut off there. -/
lemma exists_cutString {r r' : Reader} {s : List UInt8} (hr : Reader.string r = (.ok s, r'))
    (hlt : r'.size < r'.pos) : r.pos ≤ r.size ∧ ∃ s missing, CutString r s missing := by
  rcases string_cases r with ⟨e, heq⟩ | ⟨len, r₁, hlen, hmax, hcap, heq⟩
  · rw [heq] at hr
    cases hr
  obtain rfl : (Reader.take len.toNat r₁).2 = r' := congrArg Prod.snd (heq.symm.trans hr)
  obtain ⟨hdata, hpos, rest, hrest⟩ := u32_of_ok hlen
  have hover : r.data.length < r.pos + 4 + len.toNat := by
    have hlt' : r₁.data.length < r₁.pos + len.toNat := hlt
    rwa [hdata, hpos] at hlt'
  have hsplit : r.data.length - r.pos = 4 + rest.length := by
    rw [← List.length_drop, ← hrest, List.length_append, Writer.u32, LittleEndian.length_bytes]
  -- what the memory holds there does not matter: zeros will do
  let missing : List UInt8 := List.replicate (len.toNat - rest.length) 0
  have hmissing : rest.length + missing.length = len.toNat := by
    rw [List.length_replicate]
    omega
  have hlength : (rest ++ missing).length = len.toNat := by
    rw [List.length_append, hmissing]
  refine ⟨by rw [Reader.size]; omega, rest ++ missing, missing, ?_, ?_, ?_, ?_, ?_⟩
  · rw [hlength]
    exact len.toNat_lt
  · rw [fits_str, hlength, ← hpos]
    exact ⟨hmax, hcap⟩
  · rw [← List.length_pos_iff]
    omega
  · omega
  · rw [Writer.string, hlength, UInt32.ofNat_toNat, ← List.append_assoc, hrest]

/-- A string that is cut off is taken over the end of the buffer. -/
lemma CutString.runs_over {r : Reader} {s missing : List UInt8} (h : CutString r s missing)
    (hle : r.pos ≤ r.size) : ∃ s' r', Reader.string r = (.ok s', r') ∧ r'.size < r'.pos := by
  have hlength : 4 + s.length = r.size - r.pos + missing.length := by
    have hlength := congrArg List.length h.cut
    rwa [Writer.string, List.length_append, Writer.u32, LittleEndian.length_bytes,
      List.length_append, List.length_drop] at hlength
  have hmissing := h.missing_le
  have hpositive := List.length_pos_iff.mpr h.missing_ne
  have hpre : Writer.u32 (UInt32.ofNat s.length) <+: r.data.drop r.pos := by
    refine List.prefix_of_prefix_length_le (List.prefix_append _ s) ⟨missing, h.cut.symm⟩ ?_
    rw [Writer.u32, LittleEndian.length_bytes, List.length_drop]
    rw [Reader.size] at hlength
    omega
  obtain ⟨r₁, hr, hdata, hpos⟩ := exists_u32 hpre
  have hsize : r₁.size = r.size := congrArg List.length hdata
  have hcast : (UInt32.ofNat s.length).toNat = s.length := UInt32.toNat_ofNat_of_lt' h.length_lt
  have hcaps : ¬ ((UInt32.ofNat s.length).toNat > sizeSub Reader.maxString r₁.pos ∨
      (UInt32.ofNat s.length).toNat > Reader.stringCap) := by
    rw [hcast, hpos]
    push Not
    exact fits_str.mp h.fits
  have hrun : Reader.string r = Reader.take s.length r₁ := by
    rw [string_eq, Decoder.run_bind_ok _ hr, stringBody, if_neg hcaps, hcast]
  refine ⟨(List.range' r₁.pos s.length).map r₁.fetch, (Reader.take s.length r₁).2, hrun, ?_⟩
  show r₁.size < r₁.pos + s.length
  omega

section

variable {α : Type} {head : ReadM (List UInt8 → α)} {F : List Token → (List UInt8 → α) → Prop}
  {data : List UInt8} {beyond : Nat → UInt8}

/-- **Fewer bytes than are read.** A decoder whose last call is `string` succeeds behind
the end exactly on an encoding that was cut off inside that string, whatever the memory
holds there. -/
theorem runs_over_iff (h : layout.Reads head F) :
    (∃ a r, (head >>= fun g => Reader.string >>= fun s => pure (g s)) { data, beyond } =
        (.ok a, r) ∧ r.size < r.pos) ↔
      ∃ ts g s missing, F ts g ∧ s.length < 2 ^ 32 ∧ layout.Fits 0 (ts ++ [.str s]) ∧
        missing ≠ [] ∧ missing.length ≤ s.length ∧
        layout.bytes (ts ++ [.str s]) = data ++ missing := by
  constructor
  · rintro ⟨a, r, hr, hlt⟩
    rcases hhead : head { data, beyond } with ⟨e | g, r₁⟩
    · rw [Decoder.run_bind_error _ hhead] at hr
      cases hr
    rw [Decoder.run_bind_ok _ hhead] at hr
    rcases hs : Reader.string r₁ with ⟨e | s, r₂⟩
    · rw [Decoder.run_bind_error _ hs] at hr
      cases hr
    rw [Decoder.run_bind_ok _ hs] at hr
    obtain rfl : r₂ = r := congrArg Prod.snd hr
    obtain ⟨hin, s', missing, hcut⟩ := exists_cutString hs hlt
    have hdata : r₁.data = data := by
      have hframe := h.frame { data, beyond }
      rwa [hhead] at hframe
    rw [Reader.size, hdata] at hin
    obtain ⟨-, ts, hF, hfit, ⟨rest, hrest⟩, hpos⟩ := run_of_ok h hhead hin
    have hsplit : layout.bytes ts ++ rest = data := hrest
    have hpos' : r₁.pos = (layout.bytes ts).length := hpos.trans (Nat.zero_add _)
    refine ⟨ts, g, s', missing, hF, hcut.length_lt, ?_, hcut.missing_ne, hcut.missing_le, ?_⟩
    · refine layout.fits_append_iff.mpr ⟨hfit, ?_⟩
      rw [Nat.zero_add, ← hpos']
      exact hcut.fits
    · rw [bytes_append, bytes_str, hcut.cut, hdata, hpos', ← hsplit, List.drop_left,
        List.append_assoc]
  · rintro ⟨ts, g, s, missing, hF, hlen, hfit, hne, hmissing, hbytes⟩
    obtain ⟨hfit, hfit'⟩ := layout.fits_append_iff.mp hfit
    rw [bytes_append, bytes_str] at hbytes
    have hpre : layout.bytes ts <+: data := by
      refine List.prefix_of_prefix_length_le (List.prefix_append _ (Writer.string s))
        ⟨missing, hbytes.symm⟩ ?_
      have hlength := congrArg List.length hbytes
      rw [List.length_append, List.length_append, Writer.string, List.length_append] at hlength
      omega
    obtain ⟨r₁, hhead, hdata, hpos⟩ := h.exists_run (r := { data, beyond }) hF hpre hfit
    have hdata' : r₁.data = data := hdata
    have hpos' : r₁.pos = (layout.bytes ts).length := hpos.trans (Nat.zero_add _)
    obtain ⟨rest, rfl⟩ := hpre
    rw [List.append_assoc, List.append_cancel_left_eq] at hbytes
    have hcut : CutString r₁ s missing :=
      { length_lt := hlen
        fits := by rwa [hpos', ← Nat.zero_add (List.length _)]
        missing_ne := hne
        missing_le := hmissing
        cut := by rw [hdata', hpos', List.drop_left, hbytes] }
    obtain ⟨s', r, hs, hlt⟩ := hcut.runs_over (by
      rw [Reader.size, hdata', hpos', List.length_append]
      exact Nat.le_add_right _ _)
    exact ⟨g s', r, by rw [Decoder.run_bind_ok _ hhead, Decoder.run_bind_ok _ hs]; rfl, hlt⟩

end

end PcieFabric
