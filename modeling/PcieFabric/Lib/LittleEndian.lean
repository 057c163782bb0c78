import Mathlib.Tactic

/-!
Little-endian byte strings of machine words.

* `value`: the number a byte string stands for.
* `bytes`: the first `n` bytes of a word, by shifting.
* `place`: a byte put into its place of a word by `|||`.
* `value_bytes`, `bytes_eq_iff`: the bytes of a word stand for it, and they are
  the only string of their length that does.
* `toNat_place`: putting the next byte into its place adds its share;
  `toNat_foldl_place` is the loop.
-/

namespace PcieFabric.LittleEndian

variable {w : Nat}

/-- The number a byte string stands for, least significant byte first. -/
def value : List UInt8 → Nat
  | [] => 0
  | b :: bs => b.toNat + 256 * value bs

/-- Byte `i` of a word. -/
def byteAt (v : BitVec w) (i : Nat) : UInt8 := ⟨(v >>> (i * 8)).setWidth 8⟩

/-- The first `n` bytes of a word. -/
def bytes (n : Nat) (v : BitVec w) : List UInt8 := (List.range n).map (byteAt v)

/-- The word with the byte put into place `i`. -/
def place (v : BitVec w) (i : Nat) (b : UInt8) : BitVec w :=
  v ||| (b.toBitVec.setWidth w <<< (i * 8))

@[simp] lemma length_bytes (n : Nat) (v : BitVec w) : (bytes n v).length = n := by simp [bytes]

lemma pow_eight_mul (i : Nat) : 2 ^ (i * 8) = 256 ^ i := by
  rw [Nat.mul_comm, Nat.pow_mul]

lemma toNat_byteAt (v : BitVec w) (i : Nat) : (byteAt v i).toNat = v.toNat / 256 ^ i % 256 := by
  show ((v >>> (i * 8)).setWidth 8).toNat = _
  rw [BitVec.toNat_setWidth, BitVec.toNat_ushiftRight, Nat.shiftRight_eq_div_pow, pow_eight_mul]

lemma value_append (a b : List UInt8) : value (a ++ b) = value a + 256 ^ a.length * value b := by
  induction a with
  | nil => simp [value]
  | cons x a ih =>
      rw [List.cons_append, value, value, ih, List.length_cons, pow_succ]
      ring

lemma value_lt (bs : List UInt8) : value bs < 256 ^ bs.length := by
  induction bs with
  | nil => simp [value]
  | cons b bs ih =>
      have hb := b.toNat_lt
      rw [value, List.length_cons, pow_succ]
      omega

/-- Strings of one length are told apart by their values. -/
lemma value_inj {a b : List UInt8} (hlen : a.length = b.length) (h : value a = value b) :
    a = b := by
  induction a generalizing b with
  | nil => exact (List.eq_nil_of_length_eq_zero hlen.symm).symm
  | cons x a ih =>
      cases b with
      | nil => cases hlen
      | cons y b =>
          have hx := x.toNat_lt
          have hy := y.toNat_lt
          rw [value, value] at h
          have hxy : x = y := UInt8.toNat_inj.mp (by omega)
          rw [hxy, ih (Nat.succ.inj hlen) (by omega)]

/-- **The bytes of a word stand for it.** -/
theorem value_bytes (n : Nat) (v : BitVec w) : value (bytes n v) = v.toNat % 256 ^ n := by
  induction n with
  | zero => simp [bytes, value, Nat.mod_one]
  | succ n ih =>
      have hsplit : bytes (n + 1) v = bytes n v ++ [byteAt v n] := by
        rw [bytes, List.range_succ, List.map_append, bytes]
        rfl
      rw [hsplit, value_append, ih, length_bytes, value, value, toNat_byteAt, Nat.mul_zero,
        Nat.add_zero, Nat.mod_pow_succ]

/-- The only string of that length with that value. -/
lemma bytes_eq_iff {n : Nat} {v : BitVec w} {bs : List UInt8} (h : 2 ^ w ≤ 256 ^ n) :
    bs = bytes n v ↔ bs.length = n ∧ value bs = v.toNat := by
  have hv : value (bytes n v) = v.toNat := by
    rw [value_bytes, Nat.mod_eq_of_lt (v.isLt.trans_le h)]
  constructor
  · rintro rfl
    exact ⟨length_bytes n v, hv⟩
  · rintro ⟨hlen, hval⟩
    exact value_inj (by rw [hlen, length_bytes]) (by rw [hval, hv])

/-- A word is known by its bytes. -/
lemma bytes_injective {n : Nat} (h : 2 ^ w ≤ 256 ^ n) {v v' : BitVec w}
    (heq : bytes n v = bytes n v') : v = v' := by
  obtain ⟨-, hv⟩ := (bytes_eq_iff h).mp (rfl : bytes n v = bytes n v)
  obtain ⟨-, hv'⟩ := (bytes_eq_iff h).mp heq
  exact BitVec.eq_of_toNat_eq (hv.symm.trans hv')

/-- A byte put above the bits in use adds its share. -/
lemma toNat_place {v : BitVec w} {i : Nat} (b : UInt8) (hv : v.toNat < 256 ^ i)
    (hw : (i + 1) * 8 ≤ w) : (place v i b).toNat = v.toNat + 256 ^ i * b.toNat := by
  have hb := b.toNat_lt
  have h256 : 256 ^ (i + 1) ≤ 2 ^ w := by
    rw [← pow_eight_mul]
    exact Nat.pow_le_pow_right (by norm_num) hw
  have hbw : b.toNat < 2 ^ w := by
    have h1 : 1 ≤ 256 ^ i := Nat.one_le_two_pow.trans_eq (pow_eight_mul i)
    rw [pow_succ] at h256
    omega
  have hshift : b.toNat * 256 ^ i < 2 ^ w := by
    refine lt_of_lt_of_le ?_ h256
    rw [pow_succ, Nat.mul_comm]
    exact Nat.mul_lt_mul_of_pos_left hb (Nat.pow_pos (by norm_num))
  have hset : (b.toBitVec.setWidth w <<< (i * 8)).toNat = b.toNat <<< (i * 8) := by
    rw [BitVec.toNat_shiftLeft, BitVec.toNat_setWidth, UInt8.toNat_toBitVec, Nat.mod_eq_of_lt hbw,
      Nat.shiftLeft_eq, pow_eight_mul, Nat.mod_eq_of_lt hshift]
  rw [place, BitVec.toNat_or, hset, Nat.or_comm,
    ← Nat.shiftLeft_add_eq_or_of_lt (by rw [pow_eight_mul]; exact hv), Nat.shiftLeft_eq,
    pow_eight_mul, Nat.add_comm, Nat.mul_comm]

/-- Byte by byte, each put into its place: the word a byte string stands for. -/
lemma toNat_foldl_place {bs : List UInt8} (n : Nat) (hn : n ≤ bs.length) (hw : n * 8 ≤ w) :
    ((List.range n).foldl (fun v i => place v i (bs.getD i 0)) (0 : BitVec w)).toNat =
      value (bs.take n) := by
  induction n with
  | zero => simp [value]
  | succ n ih =>
      have hprev := ih (by omega) (by omega)
      have hlt : value (bs.take n) < 256 ^ n := by
        have h := value_lt (bs.take n)
        rwa [List.length_take_of_le (by omega)] at h
      have hget : bs.getD n 0 = bs[n] := by simp [List.getD, List.getElem?_eq_getElem hn]
      rw [List.range_succ, List.foldl_append, List.foldl_cons, List.foldl_nil,
        toNat_place _ (by rw [hprev]; exact hlt) hw, hprev, hget, List.take_add_one,
        List.getElem?_eq_getElem hn, Option.toList_some, value_append,
        List.length_take_of_le (by omega)]
      simp [value]

end PcieFabric.LittleEndian
