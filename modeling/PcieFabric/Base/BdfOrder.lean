import PcieFabric.Base.BdfGrammar

/-!
The four encodings of an address agree (`bdf.hpp`): its texts, the parser, the packed
identity and the order.

* `bdfString_of_denotes`, `canonical_of_parse`: what the formatters print of a parsed
  address is the text in lower case, with the domain in front.
* `denotesSlot_bdfString`: the short text denotes the slot of a valid address.
* `identity_lt_iff`: the identities are ordered as the addresses.
* `text_identity_order`: all of it for valid addresses.
-/

namespace PcieFabric.Bdf

/-- A character in lower case. -/
def lower (c : UInt8) : UInt8 := if 65 ≤ c ∧ c ≤ 90 then c + 32 else c

/-! ### Printing what was parsed -/

/-- A digit is printed in lower case. -/
lemma hex_of_hexval {c u : UInt8} (h : hexval c = some u) : hex u = lower c := by
  have hdigit : ∀ i : Fin 10, hex (UInt8.ofNat (0 + i)) = lower (UInt8.ofNat (48 + i)) := by decide
  have hlower : ∀ i : Fin 6, hex (UInt8.ofNat (10 + i)) = lower (UInt8.ofNat (97 + i)) := by decide
  have hupper : ∀ i : Fin 6, hex (UInt8.ofNat (10 + i)) = lower (UInt8.ofNat (65 + i)) := by decide
  rcases hexval_cases h with ⟨i, rfl, rfl⟩ | ⟨i, rfl, rfl⟩ | ⟨i, rfl, rfl⟩
  · exact hdigit i
  · exact hlower i
  · exact hupper i

/-- The nibbles of a byte that is put together from two. -/
lemma nibbles_of_join {hi lo : UInt8} (hhi : hi < 16) (hlo : lo < 16) :
    ((hi <<< 4) ||| lo) >>> 4 = hi ∧ ((hi <<< 4) ||| lo) &&& 15 = lo := by
  have lo16 := lt_sixteen_iff.mp hlo
  rw [← UInt8.toNat_inj, ← UInt8.toNat_inj, toNat_high, toNat_low, toNat_nibbles hhi hlo]
  omega

/-- A byte is printed as the two digits it was read from. -/
lemma hex_nibbles {c1 c0 v : UInt8} (h : HexNumber 0 [c1, c0] v.toNat) :
    hex (v >>> 4) = lower c1 ∧ hex (v &&& 15) = lower c0 := by
  obtain ⟨hi, lo, hhi, hlo, rfl⟩ := hexNumber_two_iff.mp h
  obtain ⟨hhigh, hlow⟩ := nibbles_of_join (hexval_lt hhi) (hexval_lt hlo)
  rw [hhigh, hlow]
  exact ⟨hex_of_hexval hhi, hex_of_hexval hlo⟩

/-- **A slot is printed** in lower case. -/
theorem bdfString_of_denotes {s : List UInt8} {b : Bdf} (h : DenotesSlot s b) :
    b.bdfString = s.map lower := by
  cases h with
  | mk nbus ndevice nfunction _ function_le =>
      obtain ⟨hb1, hb0⟩ := hex_nibbles nbus
      obtain ⟨he1, he0⟩ := hex_nibbles ndevice
      have hf := hex_of_hexval (hexNumber_one_iff.mp nfunction)
      rw [bdfString, hb1, hb0, he1, he0, low_nibble function_le, hf]
      rfl

/-- One digit of a domain. -/
lemma domain_nibble {d : UInt16} {k : UInt16} {u : UInt8} (hk : k < 16)
    (h : d.toNat / 2 ^ k.toNat % 16 = u.toNat) : ((d >>> k) &&& 15).toUInt8 = u := by
  have hnibble := nibble16 d k hk
  rw [UInt8.toNat_toUInt16, h] at hnibble
  exact UInt8.toNat_inj.mp hnibble

/-- A domain is printed as the four digits it was read from. -/
lemma hex_nibbles16 {c3 c2 c1 c0 : UInt8} {d : UInt16} (h : HexNumber 0 [c3, c2, c1, c0] d.toNat) :
    [hex ((d >>> 12) &&& 15).toUInt8, hex ((d >>> 8) &&& 15).toUInt8,
      hex ((d >>> 4) &&& 15).toUInt8, hex (d &&& 15).toUInt8] = [c3, c2, c1, c0].map lower := by
  simp only [hexNumber_cons_iff, hexNumber_nil_iff] at h
  obtain ⟨h3, e3, h2, e2, h1, e1, h0, e0, hd⟩ := h
  have l3 := lt_sixteen_iff.mp (hexval_lt e3)
  have l2 := lt_sixteen_iff.mp (hexval_lt e2)
  have l1 := lt_sixteen_iff.mp (hexval_lt e1)
  have l0 := lt_sixteen_iff.mp (hexval_lt e0)
  have n3 : ((d >>> 12) &&& 15).toUInt8 = h3 := domain_nibble (by decide) (by
    simp only [UInt16.reduceToNat]
    omega)
  have n2 : ((d >>> 8) &&& 15).toUInt8 = h2 := domain_nibble (by decide) (by
    simp only [UInt16.reduceToNat]
    omega)
  have n1 : ((d >>> 4) &&& 15).toUInt8 = h1 := domain_nibble (by decide) (by
    simp only [UInt16.reduceToNat]
    omega)
  have n0 : ((d >>> 0) &&& 15).toUInt8 = h0 := domain_nibble (by decide) (by
    simp only [UInt16.reduceToNat]
    omega)
  rw [UInt16.shiftRight_zero] at n0
  rw [n3, n2, n1, n0, hex_of_hexval e3, hex_of_hexval e2, hex_of_hexval e1, hex_of_hexval e0]
  rfl

/-- **What parses is printed** in lower case, with the domain in front where it is
absent. -/
theorem canonical_of_parse {s : List UInt8} {b : Bdf} (h : parse s = .ok b) :
    b.canonical = (if s.count 58 = 1 then ascii "0000:" else []) ++ s.map lower := by
  cases parse_ok_iff.mp h with
  | short hdomain hslot =>
      rw [if_pos hslot.count_colon, canonical, hdomain, bdfString_of_denotes hslot]
      rfl
  | @long d3 d2 d1 d0 s _ ndomain hslot =>
      have htwo : (d3 :: d2 :: d1 :: d0 :: 58 :: s).count 58 = 2 := count_colon_long ndomain hslot
      rw [if_neg (by omega), canonical, bdfString_of_denotes hslot]
      have hdigits := hex_nibbles16 ndomain
      simp only [List.map_cons, List.map_nil, List.cons.injEq, and_true] at hdigits
      obtain ⟨g3, g2, g1, g0⟩ := hdigits
      rw [g3, g2, g1, g0]
      rfl

/-! ### Parsing what was printed -/

/-- The short text of a valid address denotes its slot. -/
lemma denotesSlot_bdfString {b : Bdf} (h : b.valid = true) : DenotesSlot b.bdfString b := by
  obtain ⟨function_le, device_le⟩ := valid_iff.mp h
  have hbyte (v : UInt8) : HexNumber 0 [hex (v >>> 4), hex (v &&& 15)] v.toNat := by
    obtain ⟨hhi, hlo, hjoin⟩ := nibbles v
    exact hexNumber_two_iff.mpr ⟨_, _, hexval_hex hhi, hexval_hex hlo, hjoin.symm⟩
  have hfunction : HexNumber 0 [hex (b.function &&& 15)] b.function.toNat := by
    have hlt := (nibbles b.function).2.1
    rw [low_nibble function_le] at hlt ⊢
    exact hexNumber_one_iff.mpr (hexval_hex hlt)
  exact .mk (hbyte b.bus) (hbyte b.device) hfunction device_le function_le

/-- The short text of a valid address without domain parses back to it. -/
lemma parse_bdfString {b : Bdf} (h : b.valid = true) (hdomain : b.domain = 0) :
    parse b.bdfString = .ok b := parse_ok_iff.mpr (.short hdomain (denotesSlot_bdfString h))

/-! ### The order -/

/-- The order of addresses, as one of numbers. -/
lemma before_iff (a b : Bdf) : a.before b = true ↔
    a.domain.toNat < b.domain.toNat ∨ a.domain.toNat = b.domain.toNat ∧
      (a.bus.toNat < b.bus.toNat ∨ a.bus.toNat = b.bus.toNat ∧
        (a.device.toNat < b.device.toNat ∨ a.device.toNat = b.device.toNat ∧
          a.function.toNat < b.function.toNat)) := by
  simp only [before, ne_eq, ← UInt16.toNat_inj, ← UInt8.toNat_inj, UInt16.lt_iff_toNat_lt,
    UInt8.lt_iff_toNat_lt, apply_ite (· = true), decide_eq_true_eq]
  split_ifs <;> omega

/-- **Identities are ordered as the addresses.** -/
theorem identity_lt_iff (a b : Bdf) :
    a.identity.value < b.identity.value ↔ a.before b = true := by
  have ha := a.bus.toNat_lt
  have hb := b.bus.toNat_lt
  have ha' := a.device.toNat_lt
  have hb' := b.device.toNat_lt
  have ha'' := a.function.toNat_lt
  have hb'' := b.function.toNat_lt
  rw [UInt64.lt_iff_toNat_lt, identity_toNat, identity_toNat, before_iff]
  omega

/-- Addresses that are ordered neither way are equal. -/
lemma eq_of_before_eq_false {a b : Bdf} (hab : a.before b = false) (hba : b.before a = false) :
    a = b := by
  rw [← Bool.not_eq_true, before_iff] at hab hba
  refine Bdf.ext (UInt16.toNat_inj.mp ?_) (UInt8.toNat_inj.mp ?_) (UInt8.toNat_inj.mp ?_)
    (UInt8.toNat_inj.mp ?_) <;> omega

/-- An address before another one is not that one. -/
lemma ne_of_before {a b : Bdf} (h : a.before b = true) : a ≠ b := by
  rintro rfl
  rw [before_iff] at h
  omega

/-- Of addresses in order none is before one in front of it. -/
lemma before_eq_false_trans {a b c : Bdf} (hab : b.before a = false) (hbc : c.before b = false) :
    c.before a = false := by
  rw [← Bool.not_eq_true, before_iff] at *
  omega

/-- Two addresses are in order one way or the other. -/
lemma before_eq_false_total (a b : Bdf) : b.before a = false ∨ a.before b = false := by
  rw [← Bool.not_eq_true, ← Bool.not_eq_true, before_iff, before_iff]
  omega

/-- The identity of the text of a valid address. -/
lemma toIdentity_of_valid {b : Bdf} (h : b.valid = true) :
    toIdentity b.canonical = .ok b.identity := by
  rw [toIdentity_canonical, shown_of_valid h, if_pos h]

/-- **Text, identity and order agree.** A valid address is what its texts parse to; what
parses is printed in lower case with the domain `0000:` in front where it is absent; and
the identities of the texts of valid addresses are ordered, and equal, as these. -/
theorem text_identity_order :
    (∀ b : Bdf, b.valid = true →
      parse b.canonical = .ok b ∧ (b.domain = 0 → parse b.bdfString = .ok b)) ∧
    (∀ s b, parse s = .ok b →
      b.canonical = (if s.count 58 = 1 then ascii "0000:" else []) ++ s.map lower) ∧
    ∀ b₁ b₂ : Bdf, b₁.valid = true → b₂.valid = true → ∃ i₁ i₂,
      toIdentity b₁.canonical = .ok i₁ ∧ toIdentity b₂.canonical = .ok i₂ ∧
        (i₁.value < i₂.value ↔ b₁.before b₂ = true) ∧ (i₁ = i₂ ↔ b₁ = b₂) := by
  refine ⟨fun b h => ⟨parse_canonical h, parse_bdfString h⟩, fun s b => canonical_of_parse, ?_⟩
  intro b₁ b₂ h₁ h₂
  refine ⟨b₁.identity, b₂.identity, toIdentity_of_valid h₁, toIdentity_of_valid h₂,
    identity_lt_iff b₁ b₂, identity_inj, ?_⟩
  rintro rfl
  rfl

end PcieFabric.Bdf
