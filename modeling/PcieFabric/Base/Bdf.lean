import PcieFabric.Base.Values

/-!
The PCI address `bus:device.function` with its domain (`bdf.hpp`).

* `Bdf.canonical` and `Bdf.parse`: the formatter and the hand-written parser,
  over byte strings.
* `parse_canonical`: the canonical text of a valid address parses back to it.
  `parse_canonical_eq`: that of any address parses as what it shows, with the low
  four bits of the function number.
* `valid_of_parse`: what parses is valid.
* `toIdentity`: the strong identity of a text. `toIdentity_canonical` reads it for
  the text of an address.
-/

namespace PcieFabric

/-- The bytes of an ASCII text. -/
def ascii (s : String) : List UInt8 := s.toList.map fun c => UInt8.ofNat c.toNat

/-- `PciBdf`, the strong identity made of an address. -/
structure PciBdf where
  value : UInt64
deriving DecidableEq, Repr

/-- `Bdf`. -/
@[ext] structure Bdf where
  domain : UInt16 := 0
  bus : UInt8 := 0
  device : UInt8 := 0
  function : UInt8 := 0
deriving DecidableEq, Repr, Inhabited

namespace Bdf

/-- `Bdf::valid`. -/
def valid (b : Bdf) : Bool := b.function ≤ 7 && b.device ≤ 31

lemma valid_iff {b : Bdf} : b.valid = true ↔ b.function ≤ 7 ∧ b.device ≤ 31 := by
  simp only [valid, Bool.and_eq_true, decide_eq_true_eq]

/-- `operator<`, by domain, bus, device and function. -/
def before (a b : Bdf) : Bool :=
  if a.domain ≠ b.domain then a.domain < b.domain
  else if a.bus ≠ b.bus then a.bus < b.bus
  else if a.device ≠ b.device then a.device < b.device
  else a.function < b.function

/-- The table `"0123456789abcdef"`. -/
def hexDigits : List UInt8 := ascii "0123456789abcdef"

/-- `hex[n]`. -/
def hex (n : UInt8) : UInt8 := hexDigits.getD n.toNat 0

/-- `Bdf::fmt_bdf`, the text of `bdf_string()`. -/
def bdfString (b : Bdf) : List UInt8 :=
  [hex (b.bus >>> 4), hex (b.bus &&& 15), 58,
    hex (b.device >>> 4), hex (b.device &&& 15), 46, hex (b.function &&& 15)]

/-- `Bdf::fmt_canonical`, the text of `canonical()`. -/
def canonical (b : Bdf) : List UInt8 :=
  [hex ((b.domain >>> 12) &&& 15).toUInt8, hex ((b.domain >>> 8) &&& 15).toUInt8,
    hex ((b.domain >>> 4) &&& 15).toUInt8, hex (b.domain &&& 15).toUInt8, 58] ++ b.bdfString

/-- `hexval`; no value stands for the `-1` of the source. -/
def hexval (c : UInt8) : Option UInt8 :=
  if 48 ≤ c ∧ c ≤ 57 then some (c - 48)
  else if 97 ≤ c ∧ c ≤ 102 then some (c - 97 + 10)
  else if 65 ≤ c ∧ c ≤ 70 then some (c - 65 + 10)
  else none

/-- `detail::parse_hex_byte`: the value and the position behind it. -/
def parseHexByte (sv : List UInt8) (pos : Nat) (twoDigits : Bool) : Option (UInt8 × Nat) :=
  if sv.length ≤ pos then none
  else if twoDigits then
    if sv.length < pos + 2 then none
    else do
      let hi ← hexval (sv.getD pos 0)
      let lo ← hexval (sv.getD (pos + 1) 0)
      return ((hi <<< 4) ||| lo, pos + 2)
  else do
    let lo ← hexval (sv.getD pos 0)
    return (lo, pos + 1)

/-- `detail::parse_hex_u16`. -/
def parseHexU16 (sv : List UInt8) (pos : Nat) : Option (UInt16 × Nat) :=
  if sv.length < pos + 4 then none
  else do
    let h0 ← hexval (sv.getD pos 0)
    let h1 ← hexval (sv.getD (pos + 1) 0)
    let h2 ← hexval (sv.getD (pos + 2) 0)
    let h3 ← hexval (sv.getD (pos + 3) 0)
    let v := h0.toUInt16
    let v := (v <<< 4) ||| h1.toUInt16
    let v := (v <<< 4) ||| h2.toUInt16
    let v := (v <<< 4) ||| h3.toUInt16
    return (v, pos + 4)

/-- A parse step of `Bdf::parse` or its error. -/
def parsed {α : Type} (o : Option α) (message : String) : Result α :=
  match o with
  | none => .err .invalidBdf message
  | some a => .ok a

/-- The test `pos >= sv.size() || sv[pos] != c` of `Bdf::parse`. -/
def separator (sv : List UInt8) (pos : Nat) (c : UInt8) (message : String) : Result Nat :=
  if sv.length ≤ pos ∨ sv.getD pos 0 ≠ c then .err .invalidBdf message else .ok (pos + 1)

/-- The end of `Bdf::parse`: nothing left, and the fields in range. -/
def parseEnd (sv : List UInt8) (pos : Nat) (b : Bdf) : Result Bdf :=
  if pos ≠ sv.length then .err .invalidBdf "trailing characters"
  else if !b.valid then .err .invalidBdf "out-of-range bus/device/function"
  else .ok b

/-- `Bdf::parse`. -/
def parse (sv : List UInt8) : Result Bdf :=
  if sv.isEmpty then .err .invalidBdf "empty BDF"
  else if sv.count 58 = 1 then do
    let (bus, pos) ← parsed (parseHexByte sv 0 true) "bad bus"
    let pos ← separator sv pos 58 "missing ':'"
    let (device, pos) ← parsed (parseHexByte sv pos true) "bad device"
    let pos ← separator sv pos 46 "missing '.'"
    let (function, pos) ← parsed (parseHexByte sv pos false) "bad function"
    parseEnd sv pos { domain := 0, bus, device, function }
  else if sv.count 58 = 2 then do
    let (domain, pos) ← parsed (parseHexU16 sv 0) "bad domain"
    let pos ← separator sv pos 58 "missing ':' after domain"
    let (bus, pos) ← parsed (parseHexByte sv pos true) "bad bus"
    let pos ← separator sv pos 58 "missing ':' after bus"
    let (device, pos) ← parsed (parseHexByte sv pos true) "bad device"
    let pos ← separator sv pos 46 "missing '.'"
    let (function, pos) ← parsed (parseHexByte sv pos false) "bad function"
    parseEnd sv pos { domain, bus, device, function }
  else .err .invalidBdf "wrong number of ':' separators"

/-! ### What parses -/

lemma parseEnd_ok {sv : List UInt8} {pos : Nat} {b b' : Bdf} (h : parseEnd sv pos b = .ok b') :
    b' = b ∧ b.valid = true := by
  unfold parseEnd at h
  split_ifs at h with h1 h2
  · cases h
  · cases h
  · cases h
    exact ⟨rfl, by simpa using h2⟩

/-- What parses is valid. -/
lemma valid_of_parse {sv : List UInt8} {b : Bdf} (h : parse sv = .ok b) : b.valid = true := by
  unfold parse at h
  split_ifs at h
  · cases h
  · obtain ⟨_, -, h⟩ := Result.bind_ok h
    obtain ⟨_, -, h⟩ := Result.bind_ok h
    obtain ⟨_, -, h⟩ := Result.bind_ok h
    obtain ⟨_, -, h⟩ := Result.bind_ok h
    obtain ⟨_, -, h⟩ := Result.bind_ok h
    obtain ⟨rfl, hv⟩ := parseEnd_ok h
    exact hv
  · obtain ⟨_, -, h⟩ := Result.bind_ok h
    obtain ⟨_, -, h⟩ := Result.bind_ok h
    obtain ⟨_, -, h⟩ := Result.bind_ok h
    obtain ⟨_, -, h⟩ := Result.bind_ok h
    obtain ⟨_, -, h⟩ := Result.bind_ok h
    obtain ⟨_, -, h⟩ := Result.bind_ok h
    obtain ⟨_, -, h⟩ := Result.bind_ok h
    obtain ⟨rfl, hv⟩ := parseEnd_ok h
    exact hv
  · cases h

/-! ### The canonical text parses back -/

lemma lt_sixteen_iff {b : UInt8} : b < 16 ↔ b.toNat < 16 := UInt8.lt_iff_toNat_lt

lemma hexval_hex {n : UInt8} (h : n < 16) : hexval (hex n) = some n := by
  have key : ∀ k : Fin 16, hexval (hex (UInt8.ofNat k.1)) = some (UInt8.ofNat k.1) := by decide
  simpa using key ⟨n.toNat, lt_sixteen_iff.mp h⟩

/-- A hexadecimal digit is not the separator `':'`. -/
lemma hex_ne_colon {n : UInt8} (h : n < 16) : hex n ≠ 58 := by
  have key : ∀ k : Fin 16, hex (UInt8.ofNat k.1) ≠ 58 := by decide
  simpa using key ⟨n.toNat, lt_sixteen_iff.mp h⟩

/-- The low four bits of a number. -/
lemma and_fifteen (n : Nat) : n &&& 15 = n % 16 := Nat.and_two_pow_sub_one_eq_mod n 4

/-- The two nibbles of a byte. -/
lemma toNat_high (b : UInt8) : (b >>> 4).toNat = b.toNat / 16 := by
  have h4 : (4 : UInt8).toNat % 8 = 4 := rfl
  rw [UInt8.toNat_shiftRight, h4, Nat.shiftRight_eq_div_pow]

lemma toNat_low (b : UInt8) : (b &&& 15).toNat = b.toNat % 16 := by
  have h15 : (15 : UInt8).toNat = 15 := rfl
  rw [UInt8.toNat_and, h15, and_fifteen]

/-- Two nibbles as a byte. -/
lemma toNat_nibbles {hi lo : UInt8} (hhi : hi < 16) (hlo : lo < 16) :
    ((hi <<< 4) ||| lo).toNat = 16 * hi.toNat + lo.toNat := by
  have hi16 := lt_sixteen_iff.mp hhi
  have lo16 : lo.toNat < 2 ^ 4 := lt_sixteen_iff.mp hlo
  have hshift : (hi <<< 4).toNat = hi.toNat <<< 4 := by
    have h4 : (4 : UInt8).toNat % 8 = 4 := rfl
    rw [UInt8.toNat_shiftLeft, h4, Nat.shiftLeft_eq]
    omega
  rw [UInt8.toNat_or, hshift, ← Nat.shiftLeft_add_eq_or_of_lt lo16, Nat.shiftLeft_eq]
  omega

/-- The two nibbles of a byte and their reassembly. -/
lemma nibbles (b : UInt8) :
    b >>> 4 < 16 ∧ b &&& 15 < 16 ∧ ((b >>> 4) <<< 4) ||| (b &&& 15) = b := by
  have hb := b.toNat_lt
  have hhigh : b >>> 4 < 16 := by
    rw [lt_sixteen_iff, toNat_high]
    omega
  have hlow : b &&& 15 < 16 := by
    rw [lt_sixteen_iff, toNat_low]
    omega
  refine ⟨hhigh, hlow, UInt8.toNat_inj.mp ?_⟩
  rw [toNat_nibbles hhigh hlow, toNat_high, toNat_low]
  omega

lemma low_nibble_eq_iff {f : UInt8} : f &&& 15 = f ↔ f < 16 := by
  rw [← UInt8.toNat_inj, toNat_low, lt_sixteen_iff]
  omega

/-- A function number is its own low nibble. -/
lemma low_nibble {f : UInt8} (h : f ≤ 7) : f &&& 15 = f :=
  low_nibble_eq_iff.mpr (UInt8.lt_of_le_of_lt h (by decide))

/-- One nibble of a domain. -/
lemma nibble16 (d : UInt16) (k : UInt16) (hk : k < 16) :
    ((d >>> k) &&& 15).toUInt8.toUInt16.toNat = d.toNat / 2 ^ k.toNat % 16 := by
  have hk' : k.toNat < 16 := UInt16.lt_iff_toNat_lt.mp hk
  simp only [UInt8.toNat_toUInt16, UInt16.toNat_toUInt8, UInt16.toNat_and, UInt16.toNat_shiftRight,
    UInt16.reduceToNat, and_fifteen, Nat.shiftRight_eq_div_pow, Nat.mod_eq_of_lt hk']
  omega

/-- Shifting in a nibble is an addition. -/
lemma shift_nibble16 (v x : UInt16) (hx : x.toNat < 16) :
    ((v <<< 4) ||| x).toNat = v.toNat * 16 % 65536 + x.toNat := by
  simp only [UInt16.toNat_or, UInt16.toNat_shiftLeft, UInt16.reduceToNat]
  have : v.toNat <<< (4 % 16) % 2^16 = ((v.toNat % 4096) <<< 4) := by
    rw [Nat.shiftLeft_eq, Nat.shiftLeft_eq]; norm_num; omega
  rw [this, ← Nat.shiftLeft_add_eq_or_of_lt (by simpa using hx), Nat.shiftLeft_eq]
  omega

/-- The four nibbles of a domain reassemble it. -/
lemma nibbles16 (d : UInt16) :
    ((((((((d >>> 12) &&& 15).toUInt8.toUInt16 <<< 4) ||| ((d >>> 8) &&& 15).toUInt8.toUInt16)
      <<< 4) ||| ((d >>> 4) &&& 15).toUInt8.toUInt16) <<< 4) ||| (d &&& 15).toUInt8.toUInt16)
      = d := by
  have h12 := nibble16 d 12 (by decide)
  have h8 := nibble16 d 8 (by decide)
  have h4 := nibble16 d 4 (by decide)
  have h0 := nibble16 d 0 (by decide)
  have hd := d.toNat_lt
  simp only [UInt16.reduceToNat, UInt16.shiftRight_zero] at h12 h8 h4 h0
  apply UInt16.toNat_inj.mp
  rw [shift_nibble16 _ _ (by omega), shift_nibble16 _ _ (by omega),
    shift_nibble16 _ _ (by omega), h12, h8, h4, h0]
  omega

lemma nibble16_lt (d k : UInt16) : ((d >>> k) &&& 15).toUInt8 < 16 := by
  have h : (d >>> k).toNat &&& 15 < 16 := Nat.lt_succ_of_le Nat.and_le_right
  rw [UInt8.lt_iff_toNat_lt]
  simp only [UInt16.toNat_toUInt8, UInt16.toNat_and, UInt16.reduceToNat, UInt8.reduceToNat]
  omega

/-- `parse` on a text of the domain form, digit by digit. -/
lemma parse_digits {d3 d2 d1 d0 b1 b0 e1 e0 f : UInt8} (h3 : d3 < 16) (h2 : d2 < 16)
    (h1 : d1 < 16) (h0 : d0 < 16) (hb1 : b1 < 16) (hb0 : b0 < 16) (he1 : e1 < 16)
    (he0 : e0 < 16) (hf : f < 16) :
    parse [hex d3, hex d2, hex d1, hex d0, 58, hex b1, hex b0, 58, hex e1, hex e0, 46, hex f] =
      parseEnd [hex d3, hex d2, hex d1, hex d0, 58, hex b1, hex b0, 58, hex e1, hex e0, 46, hex f]
        12 {
          domain := ((((((d3.toUInt16 <<< 4) ||| d2.toUInt16) <<< 4) ||| d1.toUInt16) <<< 4)
            ||| d0.toUInt16)
          bus := (b1 <<< 4) ||| b0
          device := (e1 <<< 4) ||| e0
          function := f } := by
  have hcount : List.count 58 [hex d3, hex d2, hex d1, hex d0, 58, hex b1, hex b0, 58,
      hex e1, hex e0, 46, hex f] = 2 := by
    simp [hex_ne_colon, h3, h2, h1, h0, hb1, hb0, he1, he0, hf]
  simp [parse, hcount, parseHexU16, parseHexByte, separator, parsed, hexval_hex, h3, h2, h1, h0,
    hb1, hb0, he1, he0, hf, bind, Except.bind, pure]

/-- The address that the canonical text shows: the text has the low four bits of
the function number. -/
def shown (b : Bdf) : Bdf := { b with function := b.function &&& 15 }

lemma shown_eq_iff {b : Bdf} : b.shown = b ↔ b.function < 16 := by
  rw [← low_nibble_eq_iff, shown, Bdf.ext_iff]
  simp

/-- An address and what its text shows have the same text. -/
lemma canonical_shown (b : Bdf) : b.shown.canonical = b.canonical := by
  have hlow : (b.function &&& 15) &&& 15 = b.function &&& 15 := by
    rw [UInt8.and_assoc, UInt8.and_self]
  rw [canonical, canonical, bdfString, bdfString, shown, hlow]

/-- A valid address is shown as it is. -/
lemma shown_of_valid {b : Bdf} (h : b.valid = true) : b.shown = b := by
  rw [shown, low_nibble (valid_iff.mp h).1]

/-- **The canonical text** parses as the address it shows, if that is valid. -/
theorem parse_canonical_eq (b : Bdf) : parse b.canonical =
    if b.shown.valid then .ok b.shown
    else .err .invalidBdf "out-of-range bus/device/function" := by
  obtain ⟨domain, bus, device, function⟩ := b
  have h0 := nibble16_lt domain 0
  obtain ⟨hb1, hb0, hb⟩ := nibbles bus
  obtain ⟨he1, he0, he⟩ := nibbles device
  have hf16 : function &&& 15 < 16 := (nibbles function).2.1
  rw [UInt16.shiftRight_zero] at h0
  have hparse := parse_digits (nibble16_lt domain 12) (nibble16_lt domain 8)
    (nibble16_lt domain 4) h0 hb1 hb0 he1 he0 hf16
  rw [nibbles16, hb, he, parseEnd, if_neg (by simp)] at hparse
  have hcan : canonical ⟨domain, bus, device, function⟩ =
      [hex ((domain >>> 12) &&& 15).toUInt8, hex ((domain >>> 8) &&& 15).toUInt8,
        hex ((domain >>> 4) &&& 15).toUInt8, hex (domain &&& 15).toUInt8, 58,
        hex (bus >>> 4), hex (bus &&& 15), 58, hex (device >>> 4), hex (device &&& 15), 46,
        hex (function &&& 15)] := by
    simp only [canonical, bdfString, List.cons_append, List.nil_append]
  rw [hcan, hparse, shown]
  cases hvalid : valid ⟨domain, bus, device, function &&& 15⟩ <;> rfl

/-- **The canonical text of a valid address parses back to it.** -/
theorem parse_canonical {b : Bdf} (h : b.valid = true) : parse b.canonical = .ok b := by
  rw [parse_canonical_eq, shown_of_valid h, if_pos h]

/-! ### The strong identity -/

/-- The identity that `Bdf::to_identity` makes of a parsed address. -/
def identity (b : Bdf) : PciBdf :=
  ⟨(b.domain.toUInt64 <<< 32) ||| (b.bus.toUInt64 <<< 24) ||| (b.device.toUInt64 <<< 8) |||
    b.function.toUInt64⟩

/-- `Bdf::to_identity`. -/
def toIdentity (sv : List UInt8) : Result PciBdf := do
  let b ← parse sv
  return b.identity

lemma toIdentity_canonical (b : Bdf) : toIdentity b.canonical =
    if b.shown.valid then .ok b.shown.identity
    else .err .invalidBdf "out-of-range bus/device/function" := by
  rw [toIdentity, parse_canonical_eq]
  split <;> rfl

/-- The fields of an identity do not overlap. -/
lemma identity_toNat (b : Bdf) : b.identity.value.toNat =
    2 ^ 32 * b.domain.toNat + 2 ^ 24 * b.bus.toNat + 2 ^ 8 * b.device.toNat + b.function.toNat := by
  have hdomain := b.domain.toNat_lt
  have hbus := b.bus.toNat_lt
  have hdevice := b.device.toNat_lt
  have hfunction := b.function.toNat_lt
  have hd : (b.domain.toUInt64 <<< 32).toNat = 2 ^ 32 * b.domain.toNat := by
    simp only [UInt64.toNat_shiftLeft, UInt16.toNat_toUInt64, UInt64.reduceToNat,
      Nat.shiftLeft_eq, Nat.reduceMod]
    omega
  have hb : (b.bus.toUInt64 <<< 24).toNat = 2 ^ 24 * b.bus.toNat := by
    simp only [UInt64.toNat_shiftLeft, UInt8.toNat_toUInt64, UInt64.reduceToNat,
      Nat.shiftLeft_eq, Nat.reduceMod]
    omega
  have he : (b.device.toUInt64 <<< 8).toNat = 2 ^ 8 * b.device.toNat := by
    simp only [UInt64.toNat_shiftLeft, UInt8.toNat_toUInt64, UInt64.reduceToNat,
      Nat.shiftLeft_eq, Nat.reduceMod]
    omega
  -- each field is below the unit of the one before it
  have h1 := Nat.two_pow_add_eq_or_of_lt (i := 32) (b := 2 ^ 24 * b.bus.toNat) (by omega)
    b.domain.toNat
  have h2 := Nat.two_pow_add_eq_or_of_lt (i := 24) (b := 2 ^ 8 * b.device.toNat) (by omega)
    (2 ^ 8 * b.domain.toNat + b.bus.toNat)
  have h3 := Nat.two_pow_add_eq_or_of_lt (i := 8) (b := b.function.toNat) (by omega)
    (2 ^ 24 * b.domain.toNat + 2 ^ 16 * b.bus.toNat + b.device.toNat)
  have e2 : 2 ^ 32 * b.domain.toNat + 2 ^ 24 * b.bus.toNat =
      2 ^ 24 * (2 ^ 8 * b.domain.toNat + b.bus.toNat) := by ring
  have e3 : 2 ^ 24 * (2 ^ 8 * b.domain.toNat + b.bus.toNat) + 2 ^ 8 * b.device.toNat =
      2 ^ 8 * (2 ^ 24 * b.domain.toNat + 2 ^ 16 * b.bus.toNat + b.device.toNat) := by ring
  rw [identity, UInt64.toNat_or, UInt64.toNat_or, UInt64.toNat_or, hd, hb, he,
    UInt8.toNat_toUInt64, ← h1, e2, ← h2, e3, ← h3]

lemma identity_inj {a b : Bdf} (h : a.identity = b.identity) : a = b := by
  have hnat := congrArg (fun i => i.value.toNat) h
  simp only [identity_toNat] at hnat
  have ha := a.bus.toNat_lt
  have hb := b.bus.toNat_lt
  have ha' := a.device.toNat_lt
  have hb' := b.device.toNat_lt
  have ha'' := a.function.toNat_lt
  have hb'' := b.function.toNat_lt
  refine Bdf.ext ?_ ?_ ?_ ?_
  · exact UInt16.toNat_inj.mp (by omega)
  · exact UInt8.toNat_inj.mp (by omega)
  · exact UInt8.toNat_inj.mp (by omega)
  · exact UInt8.toNat_inj.mp (by omega)

end Bdf

end PcieFabric
