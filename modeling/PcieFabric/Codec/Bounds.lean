import PcieFabric.Codec.Layout
import PcieFabric.Lib.Run

/-!
Where the reader reads.

* `ReadCall`, `Reader.step`: the calls on a reader as inputs of a machine.
* `Reader.InBounds`: every address fetched so far, and the position, lie inside
  the buffer.
* `Reader.Overlong`: a string is declared here that passes both caps of
  `Reader::string` and is longer than what is left.
* `Reader.safeCall_iff`: a call stays inside and a string call returns what its
  length declares, unless it is a string call on an overlong string.
* `safe_run_iff`: a run of calls is safe exactly when it meets no overlong string.
* `IsCalls`: a decoder is a run of calls on every input.
-/

namespace PcieFabric

open Layout Token Machine

/-- A call on a reader. -/
inductive ReadCall where
  | u8 | u16 | u32 | u64 | f64 | boolean | string | u32Count
deriving DecidableEq

namespace Reader

/-- The reader after a call, whatever the call returns. -/
def step (r : Reader) : ReadCall → Reader
  | .u8 => (u8 r).2
  | .u16 => (u16 r).2
  | .u32 => (u32 r).2
  | .u64 => (u64 r).2
  | .f64 => (f64 r).2
  | .boolean => (boolean r).2
  | .string => (string r).2
  | .u32Count => (u32Count r).2

/-- Every address fetched so far, and the position, lie inside the buffer. -/
structure InBounds (r : Reader) : Prop where
  touched : ∀ i ∈ r.touched, i < r.size
  pos : r.pos ≤ r.size

/-- The length that stands at the position. -/
def declared (r : Reader) : Nat := LittleEndian.value ((r.data.drop r.pos).take 4)

/-- A string that succeeds here is the declared number of bytes, all of them in
the buffer. -/
def StringExact (r : Reader) : Prop :=
  ∀ s, (string r).1 = .ok s →
    r.pos + 4 + r.declared ≤ r.size ∧ s = (r.data.drop (r.pos + 4)).take r.declared

/-- The declared length passes both caps of `Reader::string` and exceeds what is
left. -/
def Overlong (r : Reader) : Prop :=
  r.pos + 4 ≤ r.size ∧ r.declared ≤ sizeSub maxString (r.pos + 4) ∧ r.declared ≤ stringCap ∧
    r.size < r.pos + 4 + r.declared

instance (r : Reader) : Decidable r.Overlong := inferInstanceAs (Decidable (_ ∧ _))

/-- The call stays inside the buffer, and a string is what it declares. -/
def SafeCall (r : Reader) (c : ReadCall) : Prop :=
  (r.step c).InBounds ∧ (c = .string → r.StringExact)

/-- The call does not meet an overlong string. -/
def NotOverlong (r : Reader) (c : ReadCall) : Prop := c = .string → ¬ r.Overlong

/-! ### The calls other than `string` -/

/-- The decoder keeps the reader inside its buffer. -/
abbrev StaysInBounds {α : Type} (d : ReadM α) : Prop :=
  Decoder.Moves (fun r r' : Reader => r.InBounds → r'.InBounds) d

lemma staysInBounds_refl (r : Reader) (h : r.InBounds) : r.InBounds := h

lemma staysInBounds_trans (a b c : Reader) (hab : a.InBounds → b.InBounds)
    (hbc : b.InBounds → c.InBounds) (h : a.InBounds) : c.InBounds := hbc (hab h)

lemma staysInBounds_u8 : StaysInBounds u8 := by
  intro r h
  by_cases hlt : r.pos + 1 > r.size
  · rw [u8, if_pos hlt]
    exact h
  · rw [u8, if_neg hlt]
    refine ⟨fun i hi => ?_, Nat.le_of_not_lt hlt⟩
    rcases List.mem_cons.mp hi with rfl | hi
    · exact Nat.le_of_not_lt hlt
    · exact h.touched i hi

lemma staysInBounds_nextPlace {w : Nat} (acc : Nat × BitVec w) : StaysInBounds (nextPlace acc) :=
  .bind staysInBounds_trans staysInBounds_u8 fun _ => .pure staysInBounds_refl _

lemma staysInBounds_u16 : StaysInBounds u16 :=
  .bind staysInBounds_trans staysInBounds_u8 fun _ =>
    .bind staysInBounds_trans staysInBounds_u8 fun _ => .pure staysInBounds_refl _

lemma staysInBounds_places {w : Nat} (n : Nat) (acc : Nat × BitVec w) :
    StaysInBounds (Decoder.times nextPlace n acc) :=
  .times staysInBounds_refl staysInBounds_trans staysInBounds_nextPlace n acc

lemma staysInBounds_u32 : StaysInBounds u32 :=
  .bind staysInBounds_trans (staysInBounds_places 4 _) fun _ => .pure staysInBounds_refl _

lemma staysInBounds_u64 : StaysInBounds u64 :=
  .bind staysInBounds_trans (staysInBounds_places 8 _) fun _ => .pure staysInBounds_refl _

lemma staysInBounds_f64 : StaysInBounds f64 :=
  .bind staysInBounds_trans staysInBounds_u64 fun _ => .pure staysInBounds_refl _

lemma staysInBounds_boolean : StaysInBounds boolean :=
  .bind staysInBounds_trans staysInBounds_u8 fun _ => .pure staysInBounds_refl _

lemma staysInBounds_u32Count : StaysInBounds u32Count :=
  .bind staysInBounds_trans staysInBounds_u32 fun _ =>
    .bind staysInBounds_trans (.ensure staysInBounds_refl _ _) fun _ => .pure staysInBounds_refl _

/-- Every call but `string` stays inside. -/
lemma inBounds_step_of_ne {r : Reader} {c : ReadCall} (h : r.InBounds) (hc : c ≠ .string) :
    (r.step c).InBounds := by
  cases c with
  | u8 => exact staysInBounds_u8 r h
  | u16 => exact staysInBounds_u16 r h
  | u32 => exact staysInBounds_u32 r h
  | u64 => exact staysInBounds_u64 r h
  | f64 => exact staysInBounds_f64 r h
  | boolean => exact staysInBounds_boolean r h
  | u32Count => exact staysInBounds_u32Count r h
  | string => exact absurd rfl hc

/-! ### `string` -/

/-- What reading the length does, inside the buffer. -/
lemma u32_cases {r : Reader} (h : r.InBounds) :
    (r.pos + 4 ≤ r.size ∧ ∃ len r', u32 r = (.ok len, r') ∧ len.toNat = r.declared ∧
      r'.data = r.data ∧ r'.pos = r.pos + 4 ∧ r'.InBounds) ∨
    (¬ r.pos + 4 ≤ r.size ∧ ∃ e r', u32 r = (.error e, r') ∧ r'.InBounds) := by
  have hin := staysInBounds_u32 r h
  rcases hr : u32 r with ⟨e | len, r'⟩
  · rw [hr] at hin
    refine .inr ⟨fun hle => ?_, e, r', rfl, hin⟩
    -- four bytes that are there are a length
    have hlen : ((r.data.drop r.pos).take 4).length = 4 := by
      rw [List.length_take, List.length_drop]
      have : r.pos + 4 ≤ r.data.length := hle
      omega
    have hlt := LittleEndian.value_lt ((r.data.drop r.pos).take 4)
    rw [hlen] at hlt
    have hbytes : (r.data.drop r.pos).take 4 = Writer.u32 (UInt32.ofNat r.declared) := by
      refine (LittleEndian.bytes_eq_iff (by norm_num)).mpr ⟨hlen, ?_⟩
      exact (UInt32.toNat_ofNat_of_lt' hlt).symm
    obtain ⟨r₁, hr₁, -⟩ := exists_u32 (hbytes ▸ List.take_prefix 4 (r.data.drop r.pos))
    rw [hr] at hr₁
    cases hr₁
  · rw [hr] at hin
    obtain ⟨hdata, hpos, hpre⟩ := u32_of_ok hr
    have hle : r.pos + 4 ≤ r.size := by
      have hle := hin.pos
      rwa [size, hdata, hpos] at hle
    refine .inl ⟨hle, len, r', rfl, ?_, hdata, hpos, hin⟩
    have htake := List.prefix_iff_eq_take.mp hpre
    rw [Writer.u32, LittleEndian.length_bytes] at htake
    have hdecl : r.declared = LittleEndian.value (LittleEndian.bytes 4 len.toBitVec) :=
      congrArg LittleEndian.value htake.symm
    rw [hdecl, LittleEndian.value_bytes]
    exact (Nat.mod_eq_of_lt len.toNat_lt).symm

/-- The bytes that `take` fetches lie inside exactly when they are there. -/
lemma inBounds_take_iff {r : Reader} (h : r.InBounds) (len : Nat) :
    (take len r).2.InBounds ↔ r.pos + len ≤ r.size := by
  constructor
  · exact fun hin => hin.pos
  · intro hle
    refine ⟨fun i hi => ?_, hle⟩
    have hi' : i ∈ (List.range' r.pos len).reverse ++ r.touched := hi
    rcases List.mem_append.mp hi' with hi' | hi'
    · have hrange := List.mem_range'_1.mp (List.mem_reverse.mp hi')
      exact hrange.2.trans_le hle
    · exact h.touched i hi'

/-- **A string call is safe unless the string is overlong.** -/
lemma safeCall_string_iff {r : Reader} (h : r.InBounds) :
    r.SafeCall .string ↔ ¬ r.Overlong := by
  rcases u32_cases h with ⟨hle, len, r', hr, hlen, hdata, hpos, hin⟩ | ⟨hle, e, r', hr, hin⟩
  · have hrun : string r = stringBody len r' := by rw [string_eq, Decoder.run_bind_ok _ hr]
    have hsize : r'.size = r.size := congrArg List.length hdata
    by_cases hcaps : len.toNat > sizeSub maxString r'.pos ∨ len.toNat > stringCap
    · -- refused by the caps
      rw [stringBody, if_pos hcaps] at hrun
      refine iff_of_true ⟨?_, fun _ s hs => ?_⟩ ?_
      · show (string r).2.InBounds
        rw [hrun]
        exact hin
      · rw [hrun] at hs
        cases hs
      · rintro ⟨-, hsub, hcap, -⟩
        rw [hlen, hpos] at hcaps
        omega
    · -- taken, whether or not the bytes are there
      rw [stringBody, if_neg hcaps] at hrun
      rw [hlen, hpos] at hcaps
      have hover : ¬ r.Overlong ↔ r'.pos + len.toNat ≤ r'.size := by
        rw [Overlong, hlen, hpos, hsize]
        omega
      rw [hover, ← inBounds_take_iff hin, SafeCall]
      show (string r).2.InBounds ∧ _ ↔ _
      rw [hrun]
      refine and_iff_left_of_imp fun htake _ s hs => ?_
      have hend := (inBounds_take_iff hin _).mp htake
      rw [hrun] at hs
      obtain rfl := Except.ok.inj hs
      rw [map_fetch hend, hlen, hpos, hdata]
      rw [hlen, hpos, hsize] at hend
      exact ⟨hend, rfl⟩
  · have hrun : string r = (.error e, r') := by rw [string_eq, Decoder.run_bind_error _ hr]
    refine iff_of_true ⟨?_, fun _ s hs => ?_⟩ fun hover => hle hover.1
    · show (string r).2.InBounds
      rw [hrun]
      exact hin
    · rw [hrun] at hs
      cases hs

/-- **A call is safe unless it meets an overlong string.** -/
lemma safeCall_iff {r : Reader} (h : r.InBounds) (c : ReadCall) :
    r.SafeCall c ↔ r.NotOverlong c := by
  by_cases hc : c = .string
  · subst hc
    rw [safeCall_string_iff h, NotOverlong]
    exact ⟨fun h' _ => h', fun h' => h' rfl⟩
  · exact iff_of_true ⟨inBounds_step_of_ne h hc, fun h' => absurd h' hc⟩ fun h' => absurd h' hc

lemma inBounds_init (data : List UInt8) (beyond : Nat → UInt8) : InBounds { data, beyond } :=
  ⟨by simp, Nat.zero_le _⟩

/-- **A run of calls is safe exactly when it meets no overlong string.** -/
theorem safe_run_iff (data : List UInt8) (beyond : Nat → UInt8) (calls : List ReadCall) :
    AllSteps step SafeCall { data, beyond } calls ↔
      AllSteps step NotOverlong { data, beyond } calls :=
  allSteps_congr step (I := InBounds) (fun _ c h => safeCall_iff h c)
    (fun _ c h hn => ((safeCall_iff h c).mpr hn).1) (inBounds_init data beyond)

/-! ### Decoders as runs of calls -/

/-- The second reader is reached from the first by calls. -/
def Reaches (r r' : Reader) : Prop := ∃ calls, r' = run step r calls

lemma reaches_refl (r : Reader) : r.Reaches r := ⟨[], rfl⟩

lemma reaches_trans (a b c : Reader) (hab : a.Reaches b) (hbc : b.Reaches c) : a.Reaches c := by
  obtain ⟨calls, rfl⟩ := hab
  obtain ⟨calls', rfl⟩ := hbc
  exact ⟨calls ++ calls', (run_append step a calls calls').symm⟩

/-- The decoder is a run of calls, whatever the input. -/
abbrev IsCalls {α : Type} (d : ReadM α) : Prop := Decoder.Moves Reaches d

lemma isCalls_u8 : IsCalls u8 := fun _ => ⟨[.u8], rfl⟩
lemma isCalls_u16 : IsCalls u16 := fun _ => ⟨[.u16], rfl⟩
lemma isCalls_u32 : IsCalls u32 := fun _ => ⟨[.u32], rfl⟩
lemma isCalls_u64 : IsCalls u64 := fun _ => ⟨[.u64], rfl⟩
lemma isCalls_f64 : IsCalls f64 := fun _ => ⟨[.f64], rfl⟩
lemma isCalls_string : IsCalls string := fun _ => ⟨[.string], rfl⟩
lemma isCalls_u32Count : IsCalls u32Count := fun _ => ⟨[.u32Count], rfl⟩

/-- `require_end` reads nothing. -/
lemma isCalls_requireEnd : IsCalls requireEnd := by
  intro r
  have hsame : (requireEnd r).2 = r := by
    rw [requireEnd]
    split <;> rfl
  rw [hsame]
  exact reaches_refl r

/-- The position never goes back. -/
lemma pos_le_step (r : Reader) (c : ReadCall) : r.pos ≤ (r.step c).pos := by
  cases c with
  | u8 => exact reads_u8.mono r
  | u16 => exact reads_u16.mono r
  | u32 => exact reads_u32.mono r
  | u64 => exact reads_u64.mono r
  | f64 => exact reads_f64.mono r
  | boolean => exact (Reads.bind reads_u8 fun b => Reads.pure (b != 0)).mono r
  | string => exact reads_string.mono r
  | u32Count => exact reads_u32Count.mono r

lemma pos_le_run (r : Reader) (calls : List ReadCall) : r.pos ≤ (run step r calls).pos :=
  run_invariant step (I := fun r' => r.pos ≤ r'.pos) (fun r' c h => h.trans (pos_le_step r' c))
    le_rfl calls

/-- The buffer stays the same. -/
lemma size_step (r : Reader) (c : ReadCall) : (r.step c).size = r.size := by
  refine congrArg List.length ?_
  cases c with
  | u8 => exact reads_u8.frame r
  | u16 => exact reads_u16.frame r
  | u32 => exact reads_u32.frame r
  | u64 => exact reads_u64.frame r
  | f64 => exact reads_f64.frame r
  | boolean => exact (Reads.bind reads_u8 fun b => Reads.pure (b != 0)).frame r
  | string => exact reads_string.frame r
  | u32Count => exact reads_u32Count.frame r

lemma size_run (r : Reader) (calls : List ReadCall) : (run step r calls).size = r.size :=
  run_invariant step (I := fun r' => r'.size = r.size) (fun r' c h => (size_step r' c).trans h)
    rfl calls

/-- An overlong string takes the position behind the buffer. -/
lemma size_lt_pos_of_overlong {r : Reader} (h : r.InBounds) (hover : r.Overlong) :
    r.size < (r.step .string).pos := by
  obtain ⟨hle, hsub, hcap, hlt⟩ := hover
  rcases u32_cases h with ⟨-, len, r', hr, hlen, -, hpos, -⟩ | ⟨hnot, -⟩
  · have hcaps : ¬ (len.toNat > sizeSub maxString r'.pos ∨ len.toNat > stringCap) := by
      rw [hlen, hpos]
      omega
    have hrun : string r = take len.toNat r' := by
      rw [string_eq, Decoder.run_bind_ok _ hr, stringBody, if_neg hcaps]
    show r.size < (string r).2.pos
    rw [hrun]
    show r.size < r'.pos + len.toNat
    rw [hpos, hlen]
    exact hlt
  · exact absurd hle hnot

/-- **A run of calls ends inside the buffer exactly when it meets no overlong
string**: the position never comes back. -/
theorem inBounds_run_iff {r : Reader} (h : r.InBounds) (calls : List ReadCall) :
    (run step r calls).InBounds ↔ AllSteps step NotOverlong r calls := by
  induction calls generalizing r with
  | nil => exact iff_of_true h trivial
  | cons c rest ih =>
      rw [run_cons, AllSteps]
      constructor
      · intro hend
        have hnot : r.NotOverlong c := by
          rintro rfl hover
          have hpos := size_lt_pos_of_overlong h hover
          have hrun := pos_le_run (r.step .string) rest
          have hsize := (size_run (r.step .string) rest).trans (size_step r .string)
          have hle := hend.pos
          omega
        exact ⟨hnot, (ih ((safeCall_iff h c).mpr hnot).1).mp hend⟩
      · rintro ⟨hnot, hrest⟩
        exact (ih ((safeCall_iff h c).mpr hnot).1).mpr hrest

end Reader

end PcieFabric
