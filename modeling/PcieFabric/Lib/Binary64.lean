import Mathlib

/-!
The order of binary64 numbers, and arithmetic that stays clear of `NaN`.

* `key`: a number as a triple of integers. Away from `NaN` the IEEE comparisons
  are those of the triples in lexicographic order (`lt_iff`, `beq_iff`), so they
  form a linear order in which the two zeros are one.
* `isNaN_mul`, `isFinite_toFloat`: a product of finite numbers is a number, and
  a 16-bit integer converts to a finite one.
* `isNaN_ofBits_toBits`: storing the bits of a number keeps it a number.
-/

namespace PcieFabric.Binary64

open Float.Model UnpackedFloat

/-! ### The comparisons -/

/-- The place of an unpacked number among the others: its class, then exponent
and mantissa, mirrored for the negative ones. -/
def unpackedKey : UnpackedFloat → ℤ ×ₗ ℤ ×ₗ ℤ
  | .infinity .negative => toLex (-2, toLex (0, 0))
  | .finite .negative m e _ => toLex (-1, toLex (-e, -m))
  | .zero _ | .notANumber => toLex (0, toLex (0, 0))
  | .finite .positive m e _ => toLex (1, toLex (e, m))
  | .infinity .positive => toLex (2, toLex (0, 0))

/-- The place of a number among the others. -/
def key (x : Float) : ℤ ×ₗ ℤ ×ₗ ℤ := unpackedKey x.toModel.unpack

/-- The IEEE comparison of unpacked numbers is the comparison of their keys. -/
lemma compare_unpacked {a b : UnpackedFloat} (ha : a.isNaN = false) (hb : b.isNaN = false) :
    (a.compare b = some .lt ↔ unpackedKey a < unpackedKey b) ∧
      (a.compare b = some .eq ↔ unpackedKey a = unpackedKey b) := by
  have hsame : ∀ s : Sign, compare s s = .eq := by rintro (_ | _) <;> rfl
  have hneg : compare Sign.negative .positive = .lt := rfl
  have hpos : compare Sign.positive .negative = .gt := rfl
  -- numbers of different classes are ordered by the class alone, two of one
  -- sign by exponent and mantissa
  rcases a with (_ | _) | _ | _ | ⟨_ | _, m₁, e₁, h₁⟩ <;>
  rcases b with (_ | _) | _ | _ | ⟨_ | _, m₂, e₂, h₂⟩ <;>
  simp [UnpackedFloat.compare, unpackedKey, Prod.Lex.toLex_lt_toLex, UnpackedFloat.isNaN,
    Ordering.then_eq_lt, Ordering.then_eq_gt, Ordering.then_eq_eq, compare_lt_iff_lt,
    compare_gt_iff_gt, hsame, hneg, hpos] at *

/-- `<` on numbers. -/
lemma lt_iff {x y : Float} (hx : x.isNaN = false) (hy : y.isNaN = false) :
    x < y ↔ key x < key y := by
  rw [key, key, ← (compare_unpacked hx hy).1]
  change Float.lt x y ↔ _
  rw [Float.lt, decide_eq_true_iff]
  change (x.toModel.unpack.compare y.toModel.unpack == some .lt) = true ↔ _
  exact beq_iff_eq

/-- `==` on numbers. -/
lemma beq_iff {x y : Float} (hx : x.isNaN = false) (hy : y.isNaN = false) :
    (x == y) = true ↔ key x = key y := by
  rw [key, key, ← (compare_unpacked hx hy).2]
  change (x.toModel.unpack.compare y.toModel.unpack == some .eq) = true ↔ _
  exact beq_iff_eq

/-- A finite number is a number. -/
lemma isNaN_of_isFinite {x : Float} (hx : x.isFinite = true) : x.isNaN = false := by
  change x.toModel.unpack.isFinite = true at hx
  change x.toModel.unpack.isNaN = false
  cases hcase : x.toModel.unpack with
  | infinity s => rfl
  | notANumber =>
      rw [hcase] at hx
      cases hx
  | zero s => rfl
  | finite s m e hm => rfl

/-! ### Packing -/

lemma isNaN_unpack_iff (spec : Format) (b : BitVec spec.numBits) :
    (UnpackedFloat.unpack spec b).isNaN = true ↔
      unpackExponent b = -1#_ ∧ unpackMantissa b ≠ 0#_ := by
  have he := Nat.pos_iff_ne_zero.mp spec.he
  rw [UnpackedFloat.unpack]
  split_ifs <;> simp [*, UnpackedFloat.isNaN]

lemma isFinite_unpack_iff (spec : Format) (b : BitVec spec.numBits) :
    (UnpackedFloat.unpack spec b).isFinite = true ↔ unpackExponent b ≠ -1#_ := by
  have he := Nat.pos_iff_ne_zero.mp spec.he
  rw [UnpackedFloat.unpack]
  split_ifs <;> simp [*, UnpackedFloat.isFinite]

/-- A finite number is packed as one, or overflows to infinity where its
exponent is too large. -/
lemma pack_finite (s : Sign) (m : ℕ) (e : ℤ) (hm : 0 < m) :
    2046 ≤ (e + 1075).toNat ∧
        UnpackedFloat.pack Format.binary64 (.finite s m e hm) = packedInfinity Format.binary64 s ∨
      unpackExponent (UnpackedFloat.pack Format.binary64 (.finite s m e hm)) ≠ -1#11 := by
  have hbias : (e + Format.binary64.exponentBias +
      Format.binary64.mantissaBitsWithoutImplicit).toNat = (e + 1075).toNat := by
    change (e + 1023 + 52).toNat = _
    congr 1
    omega
  rw [UnpackedFloat.pack]
  simp only [hbias]
  by_cases hover : 2 ^ 11 ≤ (e + 1075).toNat + 1
  · rw [if_pos hover]
    exact .inl ⟨by omega, rfl⟩
  · rw [if_neg hover]
    refine .inr ?_
    split_ifs
    · rw [unpackExponent_packComponents]
      intro h
      have hmod : (e + 1075).toNat % 2 ^ 11 = 2047 := congrArg BitVec.toNat h
      omega
    · rw [unpackExponent_packComponents]
      decide

/-- Packing a number gives a number. -/
lemma isNaN_unpack_pack {f : UnpackedFloat} (hf : f.isNaN = false) :
    (Float.Model.pack f).unpack.isNaN = false := by
  change (UnpackedFloat.unpack _ (UnpackedFloat.pack Format.binary64 f)).isNaN = false
  rw [← Bool.not_eq_true, isNaN_unpack_iff]
  rintro ⟨hexp, hman⟩
  have hinf : ∀ s, unpackMantissa (packedInfinity Format.binary64 s) = 0#52 := fun s =>
    unpackMantissa_packComponents
  cases f with
  | infinity s => exact hman (hinf s)
  | notANumber => cases hf
  | zero s => exact hman unpackMantissa_packComponents
  | finite s m e hm =>
      rcases pack_finite s m e hm with ⟨-, heq⟩ | hne
      · rw [heq] at hman
        exact hman (hinf s)
      · exact hne hexp

/-- Storing the bits of a number and reading them back gives a number. -/
lemma isNaN_ofBits_toBits {x : Float} (hx : x.isNaN = false) :
    (Float.ofBits x.toBits).isNaN = false :=
  isNaN_unpack_pack (f := x.toModel.unpack) hx

/-! ### Arithmetic -/

/-- A product of finite numbers is a number: it may overflow, but infinity times
zero does not occur. -/
lemma isNaN_mul {x y : Float} (hx : x.isFinite = true) (hy : y.isFinite = true) :
    (x * y).isNaN = false := by
  refine isNaN_unpack_pack (f := UnpackedFloat.mul Format.binary64 _ _) ?_
  change x.toModel.unpack.isFinite = true at hx
  change y.toModel.unpack.isFinite = true at hy
  cases hcase : x.toModel.unpack with
  | infinity s | notANumber =>
      rw [hcase] at hx
      cases hx
  | zero s =>
      cases hcase' : y.toModel.unpack with
      | infinity s' | notANumber =>
          rw [hcase'] at hy
          cases hy
      | zero s' | finite s' m' e' hm' => rfl
  | finite s m e hm =>
      cases hcase' : y.toModel.unpack with
      | infinity s' | notANumber =>
          rw [hcase'] at hy
          cases hy
      | zero s' => rfl
      | finite s' m' e' hm' =>
          simp only [UnpackedFloat.mul, roundWithAccuracy]
          split <;> rfl

lemma log2_mul_two_pow {n : ℕ} (hpos : 0 < n) (k : ℕ) : (n * 2 ^ k).log2 = n.log2 + k := by
  induction k with
  | zero => rw [pow_zero, mul_one, add_zero]
  | succ k ih =>
      have hne : n * 2 ^ k ≠ 0 := (Nat.mul_pos hpos (Nat.two_pow_pos k)).ne'
      rw [pow_succ', Nat.mul_left_comm, Nat.log2_two_mul hne, ih, Nat.add_assoc]

/-- Rounding an integer below `2^53` only shifts it to the full mantissa. -/
lemma round_small {n : ℕ} (hpos : 0 < n) (hlt : n < 2 ^ 53) :
    ∃ m hm, UnpackedFloat.round Format.binary64 .positive n 0 =
      .finite .positive m ((n.log2 : ℤ) - 52) hm := by
  have hlog : n.log2 < 53 := (Nat.log2_lt hpos.ne').mpr hlt
  have hmpos : 0 < n * 2 ^ (52 - n.log2) := Nat.mul_pos hpos (Nat.two_pow_pos _)
  have hfull : (n * 2 ^ (52 - n.log2)).log2 = 52 := by
    rw [log2_mul_two_pow hpos]
    omega
  have htarget : ∀ (m : ℕ) (e : ℤ), m.log2 + e = n.log2 →
      Format.binary64.targetExponent (totalExponent m e) = (n.log2 : ℤ) - 52 := by
    intro m e hme
    simp only [Format.targetExponent, totalExponent, Format.mantissaBits, Format.minExponent]
    omega
  have hshift : (0 - ((n.log2 : ℤ) - 52)).toNat = 52 - n.log2 := by omega
  have hexp : (0 : ℤ) - ((52 - n.log2 : ℕ) : ℤ) = (n.log2 : ℤ) - 52 := by omega
  have hnone : ∀ em : ExtendedMantissa, em >>> (0 : ℕ) = em := fun _ => rfl
  refine ⟨n * 2 ^ (52 - n.log2), hmpos, ?_⟩
  -- after the first shift the exponent is on target, so rounding shifts no more
  simp only [UnpackedFloat.round, htarget n 0 (by omega), decreaseExponent, hshift, hexp,
    Nat.shiftLeft_eq]
  simp [roundWithAccuracy, shiftToTargetExponent, shiftToExponent, hnone,
    htarget (n * 2 ^ (52 - n.log2)) ((n.log2 : ℤ) - 52) (by omega),
    ExtendedMantissa.ofMantissaAndAccuracy, ExtendedMantissa.roundedMantissa,
    ExtendedMantissa.accuracy, Accuracy.roundToNearestEven, hpos.ne']

/-- The conversion of a 16-bit integer is finite. -/
lemma isFinite_toFloat (n : UInt16) : n.toFloat.isFinite = true := by
  change (UnpackedFloat.unpack Format.binary64 (UnpackedFloat.pack Format.binary64
    (UnpackedFloat.ofNat Format.binary64 n.toNat))).isFinite = true
  rw [isFinite_unpack_iff]
  have hlt := n.toNat_lt
  rcases Nat.eq_zero_or_pos n.toNat with hzero | hpos
  · rw [hzero]
    decide
  · have hround : UnpackedFloat.ofNat Format.binary64 n.toNat =
        UnpackedFloat.round Format.binary64 .positive n.toNat 0 := by
      have hgt : compare (n.toNat : ℤ) 0 = .gt := compare_gt_iff_gt.mpr (by omega)
      simp only [UnpackedFloat.ofNat, UnpackedFloat.ofInt, UnpackedFloat.normalize, hgt,
        Int.toNat_natCast]
    obtain ⟨m, hm, heq⟩ := round_small hpos (by omega)
    have hlog : n.toNat.log2 < 16 := (Nat.log2_lt hpos.ne').mpr (by omega)
    rw [hround, heq]
    rcases pack_finite .positive m ((n.toNat.log2 : ℤ) - 52) hm with ⟨hover, -⟩ | hne
    · omega
    · exact hne

end PcieFabric.Binary64
