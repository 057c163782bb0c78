import PcieFabric.Codec.Layout

/-!
The strings of a stream and the offset that `Reader::string` measures against
(`codec.hpp`).

* `Straddles`: a string that starts at or before the offset 256 KiB and ends after it.
* `Clear`: no string of the tokens does. `fits_iff_clear`: among strings of at most
  64 KiB these are the tokens that can be read back. `exists_run_whole`: a decoder
  then reads them to the end.
* `StringFree`: tokens without a string, which can be read back at any offset.
-/

namespace PcieFabric

/-- A string of at most 64 KiB. -/
def ShortString (text : List UInt8) : Prop := text.length ≤ 64 * 1024

namespace Persist

open Layout Token

/-! ### Short strings -/

/-- The strings among the tokens are short. -/
def StringsShort (ts : List Token) : Prop := ∀ text, Token.str text ∈ ts → ShortString text

lemma stringsShort_nil : StringsShort [] := fun _ h => by cases h

lemma stringsShort_append {a b : List Token} (ha : StringsShort a) (hb : StringsShort b) :
    StringsShort (a ++ b) := fun text h =>
  (List.mem_append.mp h).elim (ha text) (hb text)

lemma stringsShort_fixed (bs : List UInt8) : StringsShort (fixed bs) := fun text h => by
  obtain ⟨b, -, hb⟩ := List.mem_map.mp h
  cases hb

lemma stringsShort_str {text : List UInt8} (h : ShortString text) : StringsShort [.str text] :=
  fun text' hmem => by
    obtain rfl : text' = text := by simpa using hmem
    exact h

lemma stringsShort_flatMap {ι : Type} {f : ι → List Token} {is : List ι}
    (h : ∀ i ∈ is, StringsShort (f i)) : StringsShort (is.flatMap f) := fun text hmem => by
  obtain ⟨i, hi, htext⟩ := List.mem_flatMap.mp hmem
  exact h i hi text htext

lemma stringsShort_flatten {tss : List (List Token)} (h : ∀ ts ∈ tss, StringsShort ts) :
    StringsShort tss.flatten := fun text hmem => by
  obtain ⟨ts, hts, htext⟩ := List.mem_flatten.mp hmem
  exact h ts hts text htext

/-! ### The offset -/

/-- A string of `len` bytes at stream offset `offset` starts at or before the offset
256 KiB and ends after it. Offsets are `std::size_t`. -/
def Straddles (offset len : Nat) : Prop :=
  offset % 2 ^ 64 ≤ Reader.maxString ∧ Reader.maxString < offset % 2 ^ 64 + len

instance (offset len : Nat) : Decidable (Straddles offset len) :=
  inferInstanceAs (Decidable (_ ∧ _))

/-- No string of the tokens straddles. The offset of a string is where the tokens
before it end, behind its length. -/
def Clear (ts : List Token) : Prop := ∀ pre text post, ts = pre ++ Token.str text :: post →
  ¬ Straddles ((layout.bytes pre).length + 4) text.length

/-- The wrapping subtraction refuses a short string exactly when it straddles. -/
lemma le_sizeSub_iff {offset len : Nat} (h : len ≤ Reader.stringCap) :
    len ≤ sizeSub Reader.maxString offset ↔ ¬ Straddles offset len := by
  rw [Straddles, sizeSub, Reader.maxString]
  rw [Reader.stringCap] at h
  omega

/-- **Short strings fit** when none straddles. -/
lemma fits_iff_clear {ts : List Token} (h : StringsShort ts) : layout.Fits 0 ts ↔ Clear ts := by
  rw [Layout.fits_iff]
  constructor
  · intro hfit pre text post heq
    have hshort : text.length ≤ Reader.stringCap := h text (by rw [heq]; simp)
    have ht : Token.fits (0 + (layout.bytes pre).length) (.str text) := hfit pre _ post heq
    rw [Nat.zero_add] at ht
    exact (le_sizeSub_iff hshort).mp ht.1
  · intro hnone pre t post heq
    cases t with
    | byte b => trivial
    | str text =>
        have hshort : text.length ≤ Reader.stringCap := h text (by rw [heq]; simp)
        rw [Nat.zero_add]
        exact ⟨(le_sizeSub_iff hshort).mpr (hnone pre text post heq), hshort⟩

/-- In at most 256 KiB no string straddles. -/
lemma clear_of_le {ts : List Token} (h : (layout.bytes ts).length ≤ Reader.maxString) :
    Clear ts := by
  intro pre text post heq hstr
  have hlen : (layout.enc (Token.str text)).length = 4 + text.length := by
    show (Writer.string text).length = _
    rw [Writer.string, List.length_append, Writer.u32, LittleEndian.length_bytes]
  rw [heq, bytes_append, bytes_cons, List.length_append, List.length_append, hlen] at h
  rw [Straddles, Reader.maxString] at hstr
  rw [Reader.maxString] at h
  omega

/-- A decoder on the bytes of its tokens reads them all. -/
lemma exists_run_whole {α : Type} {d : ReadM α} {F : List Token → α → Prop}
    (h : layout.Reads d F) {ts : List Token} {a : α} (hF : F ts a) (hfit : layout.Fits 0 ts)
    (beyond : Nat → UInt8) :
    ∃ r, d { data := layout.bytes ts, beyond } = (.ok a, r) ∧ r.atEnd = true := by
  obtain ⟨r, hr, hdata, hpos⟩ := h.exists_run (r := { data := layout.bytes ts, beyond }) hF
    (List.prefix_refl _) hfit
  refine ⟨r, hr, decide_eq_true ?_⟩
  have hend : r.pos = 0 + (layout.bytes ts).length := hpos
  rw [hend, Nat.zero_add, Reader.size]
  exact congrArg List.length hdata.symm

/-! ### Tokens without strings -/

/-- The tokens are bytes. -/
def StringFree (ts : List Token) : Prop := ∀ text, Token.str text ∉ ts

lemma stringFree_append {a b : List Token} (ha : StringFree a) (hb : StringFree b) :
    StringFree (a ++ b) := fun text h => (List.mem_append.mp h).elim (ha text) (hb text)

lemma stringFree_fixed (bs : List UInt8) : StringFree (fixed bs) := fun text h => by
  obtain ⟨b, -, hb⟩ := List.mem_map.mp h
  cases hb

lemma stringFree_flatMap {ι : Type} {f : ι → List Token} {is : List ι}
    (h : ∀ i, StringFree (f i)) : StringFree (is.flatMap f) := fun text hmem => by
  obtain ⟨i, -, htext⟩ := List.mem_flatMap.mp hmem
  exact h i text htext

lemma stringFree_flatten {tss : List (List Token)} (h : ∀ ts ∈ tss, StringFree ts) :
    StringFree tss.flatten := fun text hmem => by
  obtain ⟨ts, hts, htext⟩ := List.mem_flatten.mp hmem
  exact h ts hts text htext

/-- They fit at every offset. -/
lemma StringFree.fits {ts : List Token} (h : StringFree ts) (p : Nat) : layout.Fits p ts := by
  rw [Layout.fits_iff]
  rintro pre (b | text) post heq
  · trivial
  · exact absurd (heq ▸ List.mem_append_right pre List.mem_cons_self) (h text)

end Persist

end PcieFabric
