import Mathlib.Tactic

/-!
Shift registers with linear feedback, low bit first.

* `step`: one shift, which takes the mask in when a one is shifted out; `steps` are
  several. `step_xor`, `step_injective`: a shift is linear, and it loses nothing when the
  mask has its top bit.
* `feed`: a digit is added to the register, which is then shifted by its width.
* `foldl_feed`: digits that fit into the register together act as one word.
* `DifferWithin`, `DifferWithin.eq_of_foldl_feed`: two digit strings that differ only in a
  window of the size of the register leave different registers.
-/

namespace PcieFabric.ShiftRegister

variable {w k : Nat}

/-- One shift of the register. -/
def step (mask s : BitVec w) : BitVec w := (s >>> 1) ^^^ if s.getLsbD 0 then mask else 0#w

/-- Several shifts. -/
def steps (mask : BitVec w) (n : Nat) (s : BitVec w) : BitVec w := (step mask)^[n] s

/-- A digit is added, and the register shifted by its width. -/
def feed (mask s : BitVec w) (d : BitVec k) : BitVec w := steps mask k (s ^^^ d.setWidth w)

variable {mask : BitVec w}

/-! ### Shifts are linear -/

/-- **A shift is linear.** -/
theorem step_xor (s t : BitVec w) : step mask (s ^^^ t) = step mask s ^^^ step mask t := by
  have hmask : (if (s ^^^ t).getLsbD 0 then mask else 0#w) =
      (if s.getLsbD 0 then mask else 0#w) ^^^ if t.getLsbD 0 then mask else 0#w := by
    rw [BitVec.getLsbD_xor]
    cases s.getLsbD 0 <;> cases t.getLsbD 0 <;> simp
  rw [step, step, step, hmask, BitVec.ushiftRight_xor_distrib]
  ac_rfl

lemma steps_succ (n : Nat) (s : BitVec w) : steps mask (n + 1) s = step mask (steps mask n s) :=
  Function.iterate_succ_apply' _ _ _

lemma steps_add (m n : Nat) (s : BitVec w) :
    steps mask (m + n) s = steps mask m (steps mask n s) :=
  Function.iterate_add_apply _ _ _ _

lemma steps_xor (n : Nat) (s t : BitVec w) :
    steps mask n (s ^^^ t) = steps mask n s ^^^ steps mask n t := by
  induction n with
  | zero => rfl
  | succ n ih => rw [steps_succ, steps_succ, steps_succ, ih, step_xor]

/-! ### Shifts lose nothing -/

/-- Only the empty register is shifted to the empty one. -/
lemma eq_zero_of_step (hmask : mask.msb = true) {s : BitVec w} (h : step mask s = 0#w) :
    s = 0#w := by
  rw [step, BitVec.xor_eq_zero_iff] at h
  cases hlow : s.getLsbD 0 with
  | true =>
      -- the mask has a top bit, the shifted register has none
      rw [hlow, if_pos rfl] at h
      rw [← h, BitVec.msb_ushiftRight] at hmask
      simp at hmask
  | false =>
      rw [hlow, if_neg Bool.false_ne_true] at h
      refine BitVec.eq_of_getLsbD_eq fun i hi => ?_
      cases i with
      | zero => rw [hlow, BitVec.getLsbD_zero]
      | succ i =>
          have hbit := congrArg (BitVec.getLsbD · i) h
          simp only [BitVec.getLsbD_ushiftRight, BitVec.getLsbD_zero] at hbit
          rw [Nat.add_comm, hbit, BitVec.getLsbD_zero]

/-- **A shift loses nothing** when the mask has its top bit. -/
theorem step_injective (hmask : mask.msb = true) : Function.Injective (step mask) := by
  intro s t h
  have hdiff : step mask (s ^^^ t) = 0#w := by rw [step_xor, h, BitVec.xor_self]
  exact BitVec.xor_eq_zero_iff.mp (eq_zero_of_step hmask hdiff)

lemma steps_injective (hmask : mask.msb = true) (n : Nat) : Function.Injective (steps mask n) :=
  (step_injective hmask).iterate n

/-- Feeding a digit loses nothing of the register. -/
lemma feed_left_injective (hmask : mask.msb = true) (d : BitVec k) :
    Function.Injective fun s => feed mask s d := by
  intro s t h
  exact (BitVec.xor_left_inj _).mp (steps_injective hmask k h)

/-- Nor does feeding a string of digits. -/
lemma foldl_feed_injective (hmask : mask.msb = true) (ds : List (BitVec k)) :
    Function.Injective fun s => ds.foldl (feed mask) s := by
  induction ds with
  | nil => exact Function.injective_id
  | cons d ds ih => exact ih.comp (feed_left_injective hmask d)

/-! ### Digits as one word -/

/-- The digits side by side, the first lowest. -/
def word (w : Nat) : List (BitVec k) → BitVec w
  | [] => 0#w
  | d :: ds => d.setWidth w ^^^ (word w ds <<< k)

/-- The word has no bits behind its digits. -/
lemma getLsbD_word_of_le (ds : List (BitVec k)) {i : Nat} (h : k * ds.length ≤ i) :
    (word w ds).getLsbD i = false := by
  induction ds generalizing i with
  | nil => exact BitVec.getLsbD_zero
  | cons d ds ih =>
      rw [List.length_cons, Nat.mul_succ] at h
      rw [word, BitVec.getLsbD_xor, BitVec.getLsbD_setWidth, BitVec.getLsbD_shiftLeft,
        BitVec.getLsbD_of_ge d i (by omega), ih (by omega)]
      simp

lemma getLsbD_word_low (d : BitVec k) (ds : List (BitVec k)) {i : Nat} (hi : i < k)
    (hw : k ≤ w) : (word w (d :: ds)).getLsbD i = d.getLsbD i := by
  rw [word, BitVec.getLsbD_xor, BitVec.getLsbD_setWidth, BitVec.getLsbD_shiftLeft]
  simp [hi, hi.trans_le hw]

lemma getLsbD_word_high (d : BitVec k) (ds : List (BitVec k)) {i : Nat} (hi : k + i < w) :
    (word w (d :: ds)).getLsbD (k + i) = (word w ds).getLsbD i := by
  rw [word, BitVec.getLsbD_xor, BitVec.getLsbD_setWidth, BitVec.getLsbD_shiftLeft,
    BitVec.getLsbD_of_ge d (k + i) (by omega)]
  simp [hi]

/-- Digits that fit are known by their word. -/
lemma word_inj {xs ys : List (BitVec k)} (hlen : xs.length = ys.length)
    (hfit : k * xs.length ≤ w) (h : word w xs = word w ys) : xs = ys := by
  induction xs generalizing ys with
  | nil => exact (List.eq_nil_of_length_eq_zero hlen.symm).symm
  | cons x xs ih =>
      cases ys with
      | nil => cases hlen
      | cons y ys =>
          have htail : xs.length = ys.length := Nat.succ.inj hlen
          rw [List.length_cons, Nat.mul_succ] at hfit
          have hdigit : k ≤ w := by omega
          have hhead : x = y := by
            refine BitVec.eq_of_getLsbD_eq fun i hi => ?_
            rw [← getLsbD_word_low x xs hi hdigit, h, getLsbD_word_low y ys hi hdigit]
          have hrest : word w xs = word w ys := by
            refine BitVec.eq_of_getLsbD_eq fun i hi => ?_
            by_cases hin : k + i < w
            · rw [← getLsbD_word_high x xs hin, h, getLsbD_word_high y ys hin]
            · have hxs : k * xs.length ≤ i := by omega
              rw [getLsbD_word_of_le xs hxs, getLsbD_word_of_le ys (htail ▸ hxs)]
          rw [hhead, ih htail (by omega) hrest]

/-- A register whose low bits are clear is only moved down. -/
lemma steps_of_clear {n : Nat} {s : BitVec w} (h : ∀ i < n, s.getLsbD i = false) :
    steps mask n s = s >>> n := by
  induction n with
  | zero => rfl
  | succ n ih =>
      have hlow : (s >>> n).getLsbD 0 = false := by
        rw [BitVec.getLsbD_ushiftRight]
        exact h _ (by omega)
      rw [steps_succ, ih fun i hi => h i (by omega), step, hlow, if_neg Bool.false_ne_true,
        BitVec.xor_zero, BitVec.shiftRight_add]

/-- A word with room for a digit below it comes back from there. -/
lemma steps_word_shiftLeft (mask : BitVec w) (ds : List (BitVec k))
    (hfit : k * ds.length + k ≤ w) :
    steps mask k (word w ds <<< k) = word w ds := by
  have hclear : ∀ i < k, (word w ds <<< k).getLsbD i = false := by
    intro i hi
    rw [BitVec.getLsbD_shiftLeft]
    simp [hi]
  rw [steps_of_clear hclear]
  refine BitVec.eq_of_getLsbD_eq fun i hi => ?_
  rw [BitVec.getLsbD_ushiftRight, BitVec.getLsbD_shiftLeft]
  by_cases hin : k + i < w
  · simp [hin]
  · have hnone : (word w ds).getLsbD i = false := getLsbD_word_of_le ds (by omega)
    simp [hin, hnone]

/-- **Digits that fit into the register together** act as one word, which is added
before all the shifts. -/
theorem foldl_feed (ds : List (BitVec k)) (hfit : k * ds.length ≤ w) (s : BitVec w) :
    ds.foldl (feed mask) s = steps mask (k * ds.length) (s ^^^ word w ds) := by
  induction ds generalizing s with
  | nil => simp [word, steps]
  | cons d ds ih =>
      rw [List.length_cons, Nat.mul_succ] at hfit ⊢
      have hword : feed mask s d ^^^ word w ds =
          steps mask k (s ^^^ word w (d :: ds)) := by
        conv_lhs => rw [feed, ← steps_word_shiftLeft mask ds hfit, ← steps_xor]
        rw [word, BitVec.xor_assoc]
      rw [List.foldl_cons, ih (by omega), hword, ← steps_add]

/-! ### Bursts -/

/-- The strings have one length, and differ only within `n` consecutive places. -/
def DifferWithin {α : Type*} (n : Nat) (xs ys : List α) : Prop :=
  xs.length = ys.length ∧ ∃ i, ∀ j, xs[j]? ≠ ys[j]? → i ≤ j ∧ j < i + n

/-- Such strings have a common front and a common end around a window. -/
lemma DifferWithin.split {α : Type*} {n : Nat} {xs ys : List α} (h : DifferWithin n xs ys) :
    ∃ before us vs after, xs = before ++ (us ++ after) ∧ ys = before ++ (vs ++ after) ∧
      us.length = vs.length ∧ us.length ≤ n := by
  obtain ⟨hlen, i, hdiff⟩ := h
  have hbefore : xs.take i = ys.take i := by
    refine List.ext_getElem? fun j => ?_
    rw [List.getElem?_take, List.getElem?_take]
    split_ifs with hj
    · by_contra hne
      have := (hdiff j hne).1
      omega
    · rfl
  have hafter : (xs.drop i).drop n = (ys.drop i).drop n := by
    refine List.ext_getElem? fun j => ?_
    rw [List.drop_drop, List.drop_drop, List.getElem?_drop, List.getElem?_drop]
    by_contra hne
    have := (hdiff _ hne).2
    omega
  refine ⟨xs.take i, (xs.drop i).take n, (ys.drop i).take n, (xs.drop i).drop n, ?_, ?_, ?_, ?_⟩
  · rw [List.take_append_drop, List.take_append_drop]
  · rw [hbefore, hafter, List.take_append_drop, List.take_append_drop]
  · simp [hlen]
  · simp

/-- **A burst is seen**: strings that differ only in a window that fits into the register
leave the same register only if they are the same. -/
theorem DifferWithin.eq_of_foldl_feed {n : Nat} {xs ys : List (BitVec k)}
    (hdiff : DifferWithin n xs ys) (hmask : mask.msb = true) (hfit : k * n ≤ w) {s : BitVec w}
    (h : xs.foldl (feed mask) s = ys.foldl (feed mask) s) : xs = ys := by
  obtain ⟨before, us, vs, after, rfl, rfl, hlen, hn⟩ := hdiff.split
  have hus : k * us.length ≤ w := (Nat.mul_le_mul_left k hn).trans hfit
  have hvs : k * vs.length ≤ w := hlen ▸ hus
  simp only [List.foldl_append] at h
  have hwindow := foldl_feed_injective hmask after h
  rw [foldl_feed us hus, foldl_feed vs hvs, ← hlen] at hwindow
  have hword := (BitVec.xor_right_inj _).mp (steps_injective hmask _ hwindow)
  rw [word_inj hlen hus hword]

end PcieFabric.ShiftRegister
