import PcieFabric.Base.Bdf

/-!
The grammar that `Bdf::parse` accepts (`bdf.hpp`).

* `HexDigit`, `HexNumber`: a hexadecimal digit of either case, and the number that a
  string of them denotes.
* `DenotesSlot`, `Denotes`: `HH:HH.H` and `HHHH:HH:HH.H`, with the address they denote.
* `parse_ok_iff`: the parser accepts what denotes an address, as that address;
  `parse_grammar` adds how everything else is refused.
-/

namespace PcieFabric.Bdf

/-! ### The grammar -/

/-- The character is the digit of that value, in one of the two cases. -/
def HexDigit (c : UInt8) (v : Nat) : Prop :=
  (ascii "0123456789abcdef")[v]? = some c ∨ (ascii "0123456789ABCDEF")[v]? = some c

instance (c : UInt8) (v : Nat) : Decidable (HexDigit c v) := inferInstanceAs (Decidable (_ ∨ _))

/-- The digits denote the number, when they stand behind digits that denote `acc`. -/
def HexNumber (acc : Nat) : List UInt8 → Nat → Prop
  | [], n => n = acc
  | c :: cs, n => ∃ v, HexDigit c v ∧ HexNumber (16 * acc + v) cs n

/-- The string is `HH:HH.H`, and denotes the slot of the address; 58 is `':'` and 46 is
`'.'`. -/
inductive DenotesSlot : List UInt8 → Bdf → Prop
  | mk {b1 b0 e1 e0 f : UInt8} {b : Bdf} (bus : HexNumber 0 [b1, b0] b.bus.toNat)
      (device : HexNumber 0 [e1, e0] b.device.toNat) (function : HexNumber 0 [f] b.function.toNat)
      (device_le : b.device ≤ 0x1f) (function_le : b.function ≤ 7) :
      DenotesSlot [b1, b0, 58, e1, e0, 46, f] b

/-- The string is `HH:HH.H` or `HHHH:HH:HH.H`, and denotes the address. -/
inductive Denotes : List UInt8 → Bdf → Prop
  | short {s : List UInt8} {b : Bdf} (domain : b.domain = 0) (slot : DenotesSlot s b) : Denotes s b
  | long {d3 d2 d1 d0 : UInt8} {s : List UInt8} {b : Bdf}
      (domain : HexNumber 0 [d3, d2, d1, d0] b.domain.toNat) (slot : DenotesSlot s b) :
      Denotes (d3 :: d2 :: d1 :: d0 :: 58 :: s) b

/-! ### Digits and numbers -/

/-- The character is one of `n` consecutive ones from `base` on, of which the first has the
value `start`. -/
def DigitRun (base start n : Nat) (c v : UInt8) : Prop :=
  ∃ i : Fin n, c = UInt8.ofNat (base + i) ∧ v = UInt8.ofNat (start + i)

lemma digitRun_of_le {c first last : UInt8} {n : Nat} (hfirst : first ≤ c) (hlast : c ≤ last)
    (hn : last.toNat < first.toNat + n) (start : UInt8) :
    DigitRun first.toNat start.toNat n c (c - first + start) := by
  have hle := UInt8.le_iff_toNat_le.mp hfirst
  have hle' := UInt8.le_iff_toNat_le.mp hlast
  refine ⟨⟨c.toNat - first.toNat, by omega⟩, ?_, ?_⟩
  · simp only [Nat.add_sub_cancel' hle, UInt8.ofNat_toNat]
  · rw [UInt8.add_comm, UInt8.ofNat_add, UInt8.ofNat_sub hle]
    simp only [UInt8.ofNat_toNat]

/-- The three branches of `hexval`. -/
lemma hexval_cases {c v : UInt8} (h : hexval c = some v) :
    DigitRun 48 0 10 c v ∨ DigitRun 97 10 6 c v ∨ DigitRun 65 10 6 c v := by
  rw [hexval] at h
  split_ifs at h with hdigit hlower hupper
  · cases h
    have hrun := digitRun_of_le hdigit.1 hdigit.2 (n := 10) (by decide) 0
    rw [UInt8.add_zero] at hrun
    exact .inl hrun
  · cases h
    exact .inr (.inl (digitRun_of_le hlower.1 hlower.2 (by decide) 10))
  · cases h
    exact .inr (.inr (digitRun_of_le hupper.1 hupper.2 (by decide) 10))

lemma hexDigit_of_hexval {c v : UInt8} (h : hexval c = some v) : HexDigit c v.toNat := by
  have hdigit : ∀ i : Fin 10, HexDigit (UInt8.ofNat (48 + i)) (UInt8.ofNat (0 + i)).toNat := by
    decide
  have hlower : ∀ i : Fin 6, HexDigit (UInt8.ofNat (97 + i)) (UInt8.ofNat (10 + i)).toNat := by
    decide
  have hupper : ∀ i : Fin 6, HexDigit (UInt8.ofNat (65 + i)) (UInt8.ofNat (10 + i)).toNat := by
    decide
  rcases hexval_cases h with ⟨i, rfl, rfl⟩ | ⟨i, rfl, rfl⟩ | ⟨i, rfl, rfl⟩
  · exact hdigit i
  · exact hlower i
  · exact hupper i

lemma HexDigit.lt {c : UInt8} {v : Nat} (h : HexDigit c v) : v < 16 := by
  rcases h with h | h
  · exact (List.getElem?_eq_some_iff.mp h).1
  · exact (List.getElem?_eq_some_iff.mp h).1

/-- `hexval` knows the digits. -/
lemma hexval_eq_some_iff {c v : UInt8} : hexval c = some v ↔ HexDigit c v.toNat := by
  have hcomplete : ∀ i : Fin 16, hexval ((ascii "0123456789abcdef").getD i.1 0) =
      some (UInt8.ofNat i.1) ∧ hexval ((ascii "0123456789ABCDEF").getD i.1 0) =
      some (UInt8.ofNat i.1) := by
    decide
  refine ⟨hexDigit_of_hexval, fun h => ?_⟩
  have hlt : v.toNat < 16 := h.lt
  have hboth := hcomplete ⟨v.toNat, hlt⟩
  rw [UInt8.ofNat_toNat] at hboth
  rcases h with h | h
  · rw [List.getD_eq_getElem?_getD, h] at hboth
    exact hboth.1
  · rw [List.getD_eq_getElem?_getD (l := ascii "0123456789ABCDEF"), h] at hboth
    exact hboth.2

/-- A digit has a value of one byte. -/
lemma HexDigit.exists_hexval {c : UInt8} {v : Nat} (h : HexDigit c v) :
    ∃ u : UInt8, hexval c = some u ∧ u.toNat = v ∧ u < 16 := by
  have hv : (UInt8.ofNat v).toNat = v := UInt8.toNat_ofNat_of_lt' (h.lt.trans (by decide))
  refine ⟨UInt8.ofNat v, hexval_eq_some_iff.mpr (hv.symm ▸ h), hv, ?_⟩
  rw [lt_sixteen_iff, hv]
  exact h.lt

lemma hexval_lt {c u : UInt8} (h : hexval c = some u) : u < 16 :=
  lt_sixteen_iff.mpr (hexval_eq_some_iff.mp h).lt

lemma hexNumber_nil_iff {acc n : Nat} : HexNumber acc [] n ↔ n = acc := Iff.rfl

/-- The first digit of a number, as `hexval` reads it. -/
lemma hexNumber_cons_iff {acc n : Nat} {c : UInt8} {cs : List UInt8} :
    HexNumber acc (c :: cs) n ↔ ∃ u, hexval c = some u ∧ HexNumber (16 * acc + u.toNat) cs n := by
  rw [HexNumber]
  constructor
  · rintro ⟨v, hdigit, hrest⟩
    obtain ⟨u, hu, rfl, -⟩ := hdigit.exists_hexval
    exact ⟨u, hu, hrest⟩
  · rintro ⟨u, hu, hrest⟩
    exact ⟨u.toNat, hexval_eq_some_iff.mp hu, hrest⟩

/-- A number of one digit. -/
lemma hexNumber_one_iff {c v : UInt8} : HexNumber 0 [c] v.toNat ↔ hexval c = some v := by
  rw [hexNumber_cons_iff]
  constructor
  · rintro ⟨u, hu, hv⟩
    rw [hu, UInt8.toNat_inj.mp (hv.trans (Nat.zero_add _))]
  · exact fun h => ⟨v, h, (Nat.zero_add _).symm⟩

/-- A number of two digits. -/
lemma hexNumber_two_iff {c1 c0 v : UInt8} : HexNumber 0 [c1, c0] v.toNat ↔
    ∃ hi lo, hexval c1 = some hi ∧ hexval c0 = some lo ∧ v = (hi <<< 4) ||| lo := by
  simp only [hexNumber_cons_iff, hexNumber_nil_iff]
  constructor
  · rintro ⟨hi, hhi, lo, hlo, hv⟩
    refine ⟨hi, lo, hhi, hlo, UInt8.toNat_inj.mp ?_⟩
    rw [toNat_nibbles (hexval_lt hhi) (hexval_lt hlo), hv]
    omega
  · rintro ⟨hi, lo, hhi, hlo, rfl⟩
    refine ⟨hi, hhi, lo, hlo, ?_⟩
    rw [toNat_nibbles (hexval_lt hhi) (hexval_lt hlo)]
    omega

/-- A number of four digits. -/
lemma hexNumber_four_iff {c3 c2 c1 c0 : UInt8} {v : UInt16} :
    HexNumber 0 [c3, c2, c1, c0] v.toNat ↔ ∃ h3 h2 h1 h0, hexval c3 = some h3 ∧
      hexval c2 = some h2 ∧ hexval c1 = some h1 ∧ hexval c0 = some h0 ∧
      v = (((((h3.toUInt16 <<< 4) ||| h2.toUInt16) <<< 4) ||| h1.toUInt16) <<< 4) |||
        h0.toUInt16 := by
  have hjoin {h3 h2 h1 h0 : UInt8} (l3 : h3 < 16) (l2 : h2 < 16) (l1 : h1 < 16) (l0 : h0 < 16) :
      ((((((h3.toUInt16 <<< 4) ||| h2.toUInt16) <<< 4) ||| h1.toUInt16) <<< 4) |||
        h0.toUInt16).toNat =
        16 * (16 * (16 * (16 * 0 + h3.toNat) + h2.toNat) + h1.toNat) + h0.toNat := by
    rw [lt_sixteen_iff] at l3 l2 l1 l0
    rw [shift_nibble16 _ _ (by simpa using l0), shift_nibble16 _ _ (by simpa using l1),
      shift_nibble16 _ _ (by simpa using l2)]
    simp only [UInt8.toNat_toUInt16]
    omega
  simp only [hexNumber_cons_iff, hexNumber_nil_iff]
  constructor
  · rintro ⟨h3, e3, h2, e2, h1, e1, h0, e0, hv⟩
    refine ⟨h3, h2, h1, h0, e3, e2, e1, e0, UInt16.toNat_inj.mp ?_⟩
    rw [hjoin (hexval_lt e3) (hexval_lt e2) (hexval_lt e1) (hexval_lt e0), hv]
  · rintro ⟨h3, h2, h1, h0, e3, e2, e1, e0, rfl⟩
    refine ⟨h3, e3, h2, e2, h1, e1, h0, e0, ?_⟩
    rw [hjoin (hexval_lt e3) (hexval_lt e2) (hexval_lt e1) (hexval_lt e0)]

/-! ### The steps of the parser -/

variable {sv : List UInt8} {pos p : Nat}

/-- A byte is read from two digits. -/
lemma parseHexByte_two_iff {v : UInt8} : parseHexByte sv pos true = some (v, p) ↔
    ∃ c1 c0, (sv[pos]? = some c1 ∧ sv[pos + 1]? = some c0) ∧ HexNumber 0 [c1, c0] v.toNat ∧
      p = pos + 2 := by
  rw [parseHexByte]
  cases hhi : sv[pos]? with
  | none =>
      rw [if_pos (List.getElem?_eq_none_iff.mp hhi)]
      exact iff_of_false (fun h => by cases h) (by rintro ⟨_, _, ⟨h, -⟩, -⟩; cases h)
  | some c1 =>
      have hin := (List.getElem?_eq_some_iff.mp hhi).1
      rw [if_neg (by omega), if_pos rfl]
      cases hlo : sv[pos + 1]? with
      | none =>
          have hend := List.getElem?_eq_none_iff.mp hlo
          rw [if_pos (by omega)]
          exact iff_of_false (fun h => by cases h) (by rintro ⟨_, _, ⟨-, h⟩, -⟩; cases h)
      | some c0 =>
          have hin' := (List.getElem?_eq_some_iff.mp hlo).1
          rw [if_neg (by omega), List.getD_eq_getElem?_getD, List.getD_eq_getElem?_getD, hhi, hlo]
          have hdigits : (∃ d1 d0, (some c1 = some d1 ∧ some c0 = some d0) ∧
              HexNumber 0 [d1, d0] v.toNat ∧ p = pos + 2) ↔
              HexNumber 0 [c1, c0] v.toNat ∧ p = pos + 2 := by
            constructor
            · rintro ⟨_, _, ⟨⟨⟩, ⟨⟩⟩, h⟩
              exact h
            · exact fun h => ⟨_, _, ⟨rfl, rfl⟩, h⟩
          rw [hdigits, hexNumber_two_iff, Option.getD_some, Option.getD_some]
          cases hexval c1 <;> cases hexval c0 <;> simp [eq_comm]

/-- A function number is read from one digit. -/
lemma parseHexByte_one_iff {v : UInt8} : parseHexByte sv pos false = some (v, p) ↔
    ∃ c, sv[pos]? = some c ∧ HexNumber 0 [c] v.toNat ∧ p = pos + 1 := by
  rw [parseHexByte]
  cases hget : sv[pos]? with
  | none =>
      rw [if_pos (List.getElem?_eq_none_iff.mp hget)]
      exact iff_of_false (fun h => by cases h) (by rintro ⟨_, h, -⟩; cases h)
  | some c =>
      have hin := (List.getElem?_eq_some_iff.mp hget).1
      rw [if_neg (by omega), if_neg Bool.false_ne_true, List.getD_eq_getElem?_getD, hget]
      have hdigit : (∃ d, some c = some d ∧ HexNumber 0 [d] v.toNat ∧ p = pos + 1) ↔
          HexNumber 0 [c] v.toNat ∧ p = pos + 1 := by
        constructor
        · rintro ⟨_, ⟨⟩, h⟩
          exact h
        · exact fun h => ⟨_, rfl, h⟩
      rw [hdigit, hexNumber_one_iff, Option.getD_some]
      cases hexval c <;> simp [eq_comm]

/-- A domain is read from four digits. -/
lemma parseHexU16_iff {v : UInt16} : parseHexU16 sv pos = some (v, p) ↔
    ∃ c3 c2 c1 c0, (sv[pos]? = some c3 ∧ sv[pos + 1]? = some c2 ∧ sv[pos + 2]? = some c1 ∧
      sv[pos + 3]? = some c0) ∧ HexNumber 0 [c3, c2, c1, c0] v.toNat ∧ p = pos + 4 := by
  rw [parseHexU16]
  by_cases hshort : sv.length < pos + 4
  · rw [if_pos hshort]
    refine iff_of_false (fun h => by cases h) ?_
    rintro ⟨_, _, _, _, ⟨-, -, -, h⟩, -⟩
    have := (List.getElem?_eq_some_iff.mp h).1
    omega
  · have hget (i : Nat) (hi : i < 4) : sv[pos + i]? = some (sv.getD (pos + i) 0) := by
      rw [List.getD_eq_getElem?_getD, List.getElem?_eq_getElem (by omega), Option.getD_some]
    have hget0 := hget 0 (by omega)
    rw [Nat.add_zero] at hget0
    rw [if_neg hshort, hget0, hget 1 (by omega), hget 2 (by omega), hget 3 (by omega)]
    have hdigits : (∃ d3 d2 d1 d0, (some (sv.getD pos 0) = some d3 ∧
        some (sv.getD (pos + 1) 0) = some d2 ∧ some (sv.getD (pos + 2) 0) = some d1 ∧
        some (sv.getD (pos + 3) 0) = some d0) ∧ HexNumber 0 [d3, d2, d1, d0] v.toNat ∧
        p = pos + 4) ↔ HexNumber 0 [sv.getD pos 0, sv.getD (pos + 1) 0, sv.getD (pos + 2) 0,
          sv.getD (pos + 3) 0] v.toNat ∧ p = pos + 4 := by
      constructor
      · rintro ⟨_, _, _, _, ⟨⟨⟩, ⟨⟩, ⟨⟩, ⟨⟩⟩, h⟩
        exact h
      · exact fun h => ⟨_, _, _, _, ⟨rfl, rfl, rfl, rfl⟩, h⟩
    rw [hdigits, hexNumber_four_iff]
    cases hexval (sv.getD pos 0) <;> cases hexval (sv.getD (pos + 1) 0) <;>
      cases hexval (sv.getD (pos + 2) 0) <;> cases hexval (sv.getD (pos + 3) 0) <;> simp [eq_comm]

/-- A separator is the expected character. -/
lemma separator_ok_iff {c : UInt8} {message : String} :
    separator sv pos c message = .ok p ↔ sv[pos]? = some c ∧ p = pos + 1 := by
  rw [separator]
  cases hget : sv[pos]? with
  | none =>
      have hend := List.getElem?_eq_none_iff.mp hget
      rw [if_pos (.inl hend)]
      exact iff_of_false (fun h => by cases h) fun h => by cases h.1
  | some d =>
      have hin := (List.getElem?_eq_some_iff.mp hget).1
      rw [List.getD_eq_getElem?_getD, hget, Option.getD_some, Option.some.injEq]
      by_cases hd : d = c
      · have hfound : ¬ (sv.length ≤ pos ∨ d ≠ c) := not_or.mpr ⟨by omega, not_not.mpr hd⟩
        rw [if_neg hfound, and_iff_right hd]
        exact ⟨fun h => (Except.ok.inj h).symm, fun h => congrArg Except.ok h.symm⟩
      · rw [if_pos (.inr hd)]
        exact iff_of_false (fun h => by cases h) fun h => hd h.1

lemma parsed_ok_iff {α : Type} {o : Option α} {a : α} {message : String} :
    parsed o message = .ok a ↔ o = some a := by
  cases o with
  | none => exact iff_of_false (fun h => by cases h) fun h => by cases h
  | some a' => exact ⟨fun h => congrArg some (Except.ok.inj h), fun h => by cases h; rfl⟩

lemma parseEnd_ok_iff {b b' : Bdf} :
    parseEnd sv pos b = .ok b' ↔ sv.length = pos ∧ b.valid = true ∧ b = b' := by
  rw [parseEnd]
  by_cases hend : pos ≠ sv.length
  · rw [if_pos hend]
    exact iff_of_false (fun h => by cases h) fun h => hend h.1.symm
  · rw [if_neg hend, and_iff_right (not_not.mp hend).symm]
    cases b.valid with
    | true =>
        exact ⟨fun h => ⟨rfl, Except.ok.inj h⟩, fun h => congrArg Except.ok h.2⟩
    | false => exact iff_of_false (fun h => by cases h) fun h => by cases h.1

/-! ### What is accepted -/

/-- What both branches of the parser read behind the domain, or in its absence. `message`
is the one for the separator behind the bus. -/
def parseSlot (sv : List UInt8) (pos : Nat) (domain : UInt16) (message : String) : Result Bdf := do
  let (bus, pos) ← parsed (parseHexByte sv pos true) "bad bus"
  let pos ← separator sv pos 58 message
  let (device, pos) ← parsed (parseHexByte sv pos true) "bad device"
  let pos ← separator sv pos 46 "missing '.'"
  let (function, pos) ← parsed (parseHexByte sv pos false) "bad function"
  parseEnd sv pos { domain, bus, device, function }

lemma parse_eq (sv : List UInt8) : parse sv =
    if sv.isEmpty then .err .invalidBdf "empty BDF"
    else if sv.count 58 = 1 then parseSlot sv 0 0 "missing ':'"
    else if sv.count 58 = 2 then do
      let (domain, pos) ← parsed (parseHexU16 sv 0) "bad domain"
      let pos ← separator sv pos 58 "missing ':' after domain"
      parseSlot sv pos domain "missing ':' after bus"
    else .err .invalidBdf "wrong number of ':' separators" := rfl

/-- What is read as a slot denotes it, up to the end of the text. -/
lemma denotesSlot_of_parseSlot {domain : UInt16} {message : String} {b : Bdf}
    (h : parseSlot sv pos domain message = .ok b) :
    b.domain = domain ∧ DenotesSlot (sv.drop pos) b := by
  obtain ⟨⟨bus, _⟩, hbus, h⟩ := Result.bind_ok h
  obtain ⟨b1, b0, ⟨g0, g1⟩, nbus, rfl⟩ := parseHexByte_two_iff.mp (parsed_ok_iff.mp hbus)
  obtain ⟨_, hcolon, h⟩ := Result.bind_ok h
  obtain ⟨g2, rfl⟩ := separator_ok_iff.mp hcolon
  obtain ⟨⟨device, _⟩, hdevice, h⟩ := Result.bind_ok h
  obtain ⟨e1, e0, ⟨g3, g4⟩, ndevice, rfl⟩ := parseHexByte_two_iff.mp (parsed_ok_iff.mp hdevice)
  obtain ⟨_, hdot, h⟩ := Result.bind_ok h
  obtain ⟨g5, rfl⟩ := separator_ok_iff.mp hdot
  obtain ⟨⟨function, _⟩, hfunction, h⟩ := Result.bind_ok h
  obtain ⟨f, g6, nfunction, rfl⟩ := parseHexByte_one_iff.mp (parsed_ok_iff.mp hfunction)
  obtain ⟨hlen, hvalid, rfl⟩ := parseEnd_ok_iff.mp h
  obtain ⟨function_le, device_le⟩ := valid_iff.mp hvalid
  have htext : sv.drop pos = [b1, b0, 58, e1, e0, 46, f] := by
    refine List.ext_getElem? fun i => ?_
    rw [List.getElem?_drop]
    rcases Nat.lt_or_ge i 7 with hi | hi
    · interval_cases i <;> assumption
    · rw [List.getElem?_eq_none (by omega), List.getElem?_eq_none (by simpa using hi)]
  rw [htext]
  exact ⟨rfl, .mk nbus ndevice nfunction device_le function_le⟩

/-- A text that denotes a slot is read as it. -/
lemma parseSlot_of_denotes {message : String} {b : Bdf} (h : DenotesSlot (sv.drop pos) b) :
    parseSlot sv pos b.domain message = .ok b := by
  generalize htext : sv.drop pos = text at h
  cases h with
  | @mk b1 b0 e1 e0 f _ nbus ndevice nfunction device_le function_le =>
      have hget (i : Nat) : sv[pos + i]? = [b1, b0, 58, e1, e0, 46, f][i]? := by
        rw [← htext, List.getElem?_drop]
      have hlen : sv.length = pos + 7 := by
        have h := congrArg List.length htext
        rw [List.length_drop] at h
        have h7 : [b1, b0, 58, e1, e0, 46, f].length = 7 := rfl
        omega
      have hbus : parseHexByte sv pos true = some (b.bus, pos + 2) :=
        parseHexByte_two_iff.mpr ⟨b1, b0, ⟨hget 0, hget 1⟩, nbus, rfl⟩
      have hcolon : separator sv (pos + 2) 58 message = .ok (pos + 3) :=
        separator_ok_iff.mpr ⟨hget 2, rfl⟩
      have hdevice : parseHexByte sv (pos + 3) true = some (b.device, pos + 5) :=
        parseHexByte_two_iff.mpr ⟨e1, e0, ⟨hget 3, hget 4⟩, ndevice, rfl⟩
      have hdot : separator sv (pos + 5) 46 "missing '.'" = .ok (pos + 6) :=
        separator_ok_iff.mpr ⟨hget 5, rfl⟩
      have hfunction : parseHexByte sv (pos + 6) false = some (b.function, pos + 7) :=
        parseHexByte_one_iff.mpr ⟨f, hget 6, nfunction, rfl⟩
      have hend : parseEnd sv (pos + 7) b = .ok b :=
        parseEnd_ok_iff.mpr ⟨hlen, valid_iff.mpr ⟨function_le, device_le⟩, rfl⟩
      rw [parseSlot]
      simp only [parsed, bind, Except.bind, hbus, hcolon, hdevice, hdot, hfunction]
      exact hend

/-- **A slot is read** exactly where one stands and the text ends with it. -/
theorem parseSlot_ok_iff {domain : UInt16} {message : String} {b : Bdf} :
    parseSlot sv pos domain message = .ok b ↔ b.domain = domain ∧ DenotesSlot (sv.drop pos) b := by
  refine ⟨denotesSlot_of_parseSlot, ?_⟩
  rintro ⟨rfl, hslot⟩
  exact parseSlot_of_denotes hslot

/-- A digit is not a colon. -/
lemma HexDigit.ne_colon {c : UInt8} {v : Nat} (h : HexDigit c v) : c ≠ 58 := by
  rintro rfl
  obtain ⟨u, hu, -⟩ := h.exists_hexval
  cases hu

/-- No digit of a number is a colon. -/
lemma HexNumber.count_colon {acc n : Nat} {cs : List UInt8} (h : HexNumber acc cs n) :
    cs.count 58 = 0 := by
  induction cs generalizing acc with
  | nil => rfl
  | cons c cs ih =>
      obtain ⟨v, hdigit, hrest⟩ := h
      rw [List.count_cons_of_ne hdigit.ne_colon, ih hrest]

/-- A slot has one colon. -/
lemma DenotesSlot.count_colon {s : List UInt8} {b : Bdf} (h : DenotesSlot s b) :
    s.count 58 = 1 := by
  cases h with
  | @mk b1 b0 e1 e0 f _ nbus ndevice nfunction _ _ =>
      have hsplit : [b1, b0, 58, e1, e0, 46, f] = [b1, b0] ++ 58 :: ([e1, e0] ++ 46 :: [f]) := rfl
      have hdot : (46 :: [f]).count 58 = 0 := by
        rw [List.count_cons_of_ne (by decide : (46 : UInt8) ≠ 58), nfunction.count_colon]
      rw [hsplit, List.count_append, List.count_cons_self, List.count_append, nbus.count_colon,
        ndevice.count_colon, hdot]

/-- A slot behind a domain has two. -/
lemma count_colon_long {d3 d2 d1 d0 : UInt8} {n : Nat} {s : List UInt8} {b : Bdf}
    (hdomain : HexNumber 0 [d3, d2, d1, d0] n) (hslot : DenotesSlot s b) :
    (d3 :: d2 :: d1 :: d0 :: 58 :: s).count 58 = 2 := by
  have hsplit : d3 :: d2 :: d1 :: d0 :: 58 :: s = [d3, d2, d1, d0] ++ 58 :: s := rfl
  rw [hsplit, List.count_append, List.count_cons_self, hdomain.count_colon, hslot.count_colon]

/-- **The parser accepts its grammar**: what denotes an address, as that address. -/
theorem parse_ok_iff {b : Bdf} : parse sv = .ok b ↔ Denotes sv b := by
  rw [parse_eq]
  constructor
  · intro h
    split_ifs at h with hempty hone htwo
    · cases h
    · obtain ⟨hdomain, hslot⟩ := parseSlot_ok_iff.mp h
      exact .short hdomain hslot
    · obtain ⟨⟨domain, _⟩, hdomain, h⟩ := Result.bind_ok h
      obtain ⟨d3, d2, d1, d0, ⟨g0, g1, g2, g3⟩, ndomain, rfl⟩ :=
        parseHexU16_iff.mp (parsed_ok_iff.mp hdomain)
      obtain ⟨_, hcolon, h⟩ := Result.bind_ok h
      obtain ⟨g4, rfl⟩ := separator_ok_iff.mp hcolon
      obtain ⟨rfl, hslot⟩ := parseSlot_ok_iff.mp h
      have htext : sv = d3 :: d2 :: d1 :: d0 :: 58 :: sv.drop 5 := by
        refine List.ext_getElem? fun i => ?_
        rcases Nat.lt_or_ge i 5 with hi | hi
        · interval_cases i <;> assumption
        · obtain ⟨j, rfl⟩ := Nat.exists_eq_add_of_le' hi
          simp only [List.getElem?_cons_succ, List.getElem?_drop]
          rw [Nat.add_comm]
      rw [htext]
      exact .long ndomain hslot
    · cases h
  · intro h
    cases h with
    | short hdomain hslot =>
        have hone := hslot.count_colon
        have hne : sv.isEmpty = false := by
          cases sv with
          | nil => cases hone
          | cons c cs => rfl
        rw [hne, if_neg Bool.false_ne_true, if_pos hone]
        exact parseSlot_ok_iff.mpr ⟨hdomain, hslot⟩
    | @long d3 d2 d1 d0 s _ ndomain hslot =>
        have htwo : (d3 :: d2 :: d1 :: d0 :: 58 :: s).count 58 = 2 :=
          count_colon_long ndomain hslot
        have hdomain : parseHexU16 (d3 :: d2 :: d1 :: d0 :: 58 :: s) 0 = some (b.domain, 4) :=
          parseHexU16_iff.mpr ⟨d3, d2, d1, d0, ⟨rfl, rfl, rfl, rfl⟩, ndomain, rfl⟩
        have hcolon : separator (d3 :: d2 :: d1 :: d0 :: 58 :: s) 4 58 "missing ':' after domain" =
            .ok 5 := separator_ok_iff.mpr ⟨rfl, rfl⟩
        rw [if_neg (by simp), if_neg (by omega), if_pos htwo, hdomain]
        simp only [parsed, bind, Except.bind, hcolon]
        exact parseSlot_ok_iff.mpr ⟨rfl, hslot⟩

/-! ### What is refused -/

/-- No error other than `INVALID_BDF`. -/
def OnlyInvalid {α : Type} (x : Result α) : Prop := ∀ e, x = .error e → e.code = .invalidBdf

lemma OnlyInvalid.bind {α β : Type} {x : Result α} {f : α → Result β} (hx : OnlyInvalid x)
    (hf : ∀ a, OnlyInvalid (f a)) : OnlyInvalid (x >>= f) := by
  intro e he
  cases x with
  | error e' =>
      have heq : (Except.error e' : Result β) = .error e := he
      exact hx e (congrArg Except.error (Except.error.inj heq))
  | ok a => exact hf a e he

lemma onlyInvalid_err {α : Type} (message : String) :
    OnlyInvalid (.err .invalidBdf message : Result α) := by
  rintro _ ⟨⟩
  rfl

lemma onlyInvalid_parsed {α : Type} (o : Option α) (message : String) :
    OnlyInvalid (parsed o message) := by
  cases o with
  | none => exact onlyInvalid_err message
  | some a => exact fun _ h => by cases h

lemma onlyInvalid_separator (pos : Nat) (c : UInt8) (message : String) :
    OnlyInvalid (separator sv pos c message) := by
  rw [separator]
  split
  · exact onlyInvalid_err message
  · exact fun _ h => by cases h

lemma onlyInvalid_parseEnd (pos : Nat) (b : Bdf) : OnlyInvalid (parseEnd sv pos b) := by
  rw [parseEnd]
  split_ifs
  · exact onlyInvalid_err _
  · exact onlyInvalid_err _
  · exact fun _ h => by cases h

lemma onlyInvalid_parseSlot (pos : Nat) (domain : UInt16) (message : String) :
    OnlyInvalid (parseSlot sv pos domain message) :=
  (onlyInvalid_parsed _ _).bind fun _ => (onlyInvalid_separator _ _ _).bind fun _ =>
  (onlyInvalid_parsed _ _).bind fun _ => (onlyInvalid_separator _ _ _).bind fun _ =>
  (onlyInvalid_parsed _ _).bind fun _ => onlyInvalid_parseEnd _ _

/-- The parser refuses with one code. -/
lemma onlyInvalid_parse (sv : List UInt8) : OnlyInvalid (parse sv) := by
  rw [parse_eq]
  split_ifs
  · exact onlyInvalid_err _
  · exact onlyInvalid_parseSlot _ _ _
  · exact (onlyInvalid_parsed _ _).bind fun _ => (onlyInvalid_separator _ _ _).bind fun _ =>
      onlyInvalid_parseSlot _ _ _
  · exact onlyInvalid_err _

/-- **The grammar, and all else refused.** A string is accepted, as the address it
denotes, exactly if it is in the grammar; any other gives `INVALID_BDF`. -/
theorem parse_grammar (sv : List UInt8) :
    (∀ b, parse sv = .ok b ↔ Denotes sv b) ∧
      ((∀ b, ¬ Denotes sv b) → ∃ message, parse sv = .err .invalidBdf message) := by
  refine ⟨fun b => parse_ok_iff, fun hnone => ?_⟩
  cases hparse : parse sv with
  | ok b => exact absurd (parse_ok_iff.mp hparse) (hnone b)
  | error e =>
      obtain ⟨code, message⟩ := e
      obtain rfl : code = .invalidBdf := onlyInvalid_parse sv _ hparse
      exact ⟨message, rfl⟩

end PcieFabric.Bdf
