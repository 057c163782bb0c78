import PcieFabric.Codec.Codec

/-!
The formats the read primitives read.

* `Token`: one byte, or one string with its length prefix; `Token.fits` is the
  test of `Reader.string` on the declared length at the position it is made.
* `layout`: the reader as a `Layout` over these tokens.
* `reads_u8` to `reads_u32Count`: each primitive reads the encoding the writer
  makes of its value.
* `EndsInside`: a success of the decoder leaves the reader inside its buffer.
* `ok_whole_iff`: a decoder followed by `require_end` succeeds exactly on the
  buffers that the tokens of its format fill.
-/

namespace PcieFabric

open Layout

/-- What a stream is made of. -/
inductive Token where
  | byte (b : UInt8)
  | str (s : List UInt8)

namespace Token

/-- The bytes of a token. -/
def enc : Token → List UInt8
  | .byte b => [b]
  | .str s => Writer.string s

/-- `Reader.string` accepts the declared length of the token at the position. -/
def fits (p : Nat) : Token → Prop
  | .byte _ => True
  | .str s => s.length ≤ sizeSub Reader.maxString (p + 4) ∧ s.length ≤ Reader.stringCap

/-- The tokens of a byte string of fixed length. -/
def fixed (bs : List UInt8) : List Token := bs.map .byte

@[simp] lemma fixed_append (a b : List UInt8) : fixed (a ++ b) = fixed a ++ fixed b :=
  List.map_append

end Token

open Token

/-- The reader over its tokens. -/
def layout : Layout Reader UInt8 Token where
  data := Reader.data
  pos := Reader.pos
  enc := Token.enc
  fits := Token.fits

@[simp] lemma bytes_fixed (bs : List UInt8) : layout.bytes (fixed bs) = bs := by
  induction bs with
  | nil => rfl
  | cons b bs ih => exact congrArg (b :: ·) ih

@[simp] lemma bytes_str (s : List UInt8) : layout.bytes [.str s] = Writer.string s :=
  List.append_nil _

lemma fits_fixed (p : Nat) (bs : List UInt8) : layout.Fits p (fixed bs) := by
  induction bs generalizing p with
  | nil => trivial
  | cons b bs ih => exact ⟨trivial, ih _⟩

lemma fits_str {p : Nat} {s : List UInt8} :
    layout.Fits p [.str s] ↔
      s.length ≤ sizeSub Reader.maxString (p + 4) ∧ s.length ≤ Reader.stringCap :=
  and_iff_left trivial

/-- Tokens at a position are bytes of the data there. -/
lemma at_iff {data : List UInt8} {p : Nat} {ts : List Token} :
    layout.At data p ts ↔ layout.bytes ts <+: data.drop p := Iff.rfl

/-- A primitive that reads exactly one value in the encoding `w`. -/
abbrev ReadsAs {α : Type} (d : ReadM α) (w : α → List UInt8) : Prop :=
  layout.Reads d fun ts a => ts = fixed (w a)

/-- The value is its own image. -/
lemma ReadsAs.image {α : Type} {d : ReadM α} {w : α → List UInt8} (h : ReadsAs d w) :
    layout.Reads d (Images (fun _ => True) (fun a => fixed (w a)) id) :=
  Reads.ownImage (h.congr fun _ _ => (and_iff_right trivial).symm)

/-! ### Bytes and words -/

/-- `u8` reads one byte. -/
lemma reads_u8 : ReadsAs Reader.u8 Writer.u8 where
  frame r := by unfold Reader.u8; split <;> rfl
  mono r := by
    unfold Reader.u8
    split
    · exact le_rfl
    · exact Nat.le_succ _
  sound r a h _ := by
    by_cases hlt : r.pos + 1 > r.size
    · rw [Reader.u8, if_pos hlt] at h
      cases h
    · have hpos : r.pos < r.data.length := Nat.lt_of_succ_le (Nat.le_of_not_lt hlt)
      have hfetch : r.fetch r.pos = r.data[r.pos] := by
        rw [Reader.fetch, List.getElem?_eq_getElem hpos, Option.getD_some]
      rw [Reader.u8, if_neg hlt] at h ⊢
      obtain rfl : r.fetch r.pos = a := Except.ok.inj h
      refine ⟨_, rfl, ?_, fits_fixed _ _, rfl⟩
      rw [at_iff, bytes_fixed, hfetch]
      show [r.data[r.pos]] <+: r.data.drop r.pos
      rw [List.drop_eq_getElem_cons hpos]
      exact ⟨_, rfl⟩
  complete r ts a h hat _ := by
    subst h
    obtain ⟨rest, hrest⟩ := at_iff.mp hat
    have hdrop : r.data.drop r.pos = a :: rest :=
      hrest.symm.trans (by rw [bytes_fixed]; rfl)
    have hpos : r.pos < r.data.length := by
      by_contra hge
      rw [List.drop_eq_nil_of_le (Nat.le_of_not_lt hge)] at hdrop
      cases hdrop
    have hfetch : r.fetch r.pos = a := by
      rw [List.drop_eq_getElem_cons hpos] at hdrop
      rw [Reader.fetch, List.getElem?_eq_getElem hpos, Option.getD_some]
      exact (List.cons.inj hdrop).1
    have hle : ¬ r.pos + 1 > r.size := Nat.not_lt.mpr hpos
    rw [Reader.u8, if_neg hle, hfetch]
    exact ⟨rfl, rfl⟩
  reject r ts a h _ hfit := by
    subst h
    exact absurd (fits_fixed _ _) hfit

/-- The word `u16` puts together. -/
lemma toNat_join (lo hi : UInt8) :
    (lo.toUInt16 ||| (hi.toUInt16 <<< 8)).toNat = lo.toNat + 256 * hi.toNat := by
  have hlo := lo.toNat_lt
  have hhi := hi.toNat_lt
  have hshift : (hi.toUInt16 <<< 8).toNat = hi.toNat <<< 8 := by
    have h8 : (8 : UInt16).toNat % 16 = 8 := rfl
    rw [UInt16.toNat_shiftLeft, UInt8.toNat_toUInt16, h8, Nat.shiftLeft_eq]
    omega
  rw [UInt16.toNat_or, hshift, UInt8.toNat_toUInt16, Nat.or_comm,
    ← Nat.shiftLeft_add_eq_or_of_lt hlo, Nat.shiftLeft_eq]
  omega

/-- The two bytes the writer takes a word apart into. -/
lemma toNat_halves (v : UInt16) :
    v.toUInt8.toNat = v.toNat % 256 ∧ (v >>> 8).toUInt8.toNat = v.toNat / 256 := by
  have hv := v.toNat_lt
  have h8 : (8 : UInt16).toNat % 16 = 8 := rfl
  rw [UInt16.toNat_toUInt8, UInt16.toNat_toUInt8, UInt16.toNat_shiftRight, h8,
    Nat.shiftRight_eq_div_pow]
  omega

lemma join_eq_iff {lo hi : UInt8} {v : UInt16} :
    lo.toUInt16 ||| (hi.toUInt16 <<< 8) = v ↔ lo = v.toUInt8 ∧ hi = (v >>> 8).toUInt8 := by
  have hlo := lo.toNat_lt
  have hv := toNat_halves v
  rw [← UInt16.toNat_inj, ← UInt8.toNat_inj, ← UInt8.toNat_inj, toNat_join, hv.1, hv.2]
  omega

/-- `u16` reads two bytes. -/
lemma reads_u16 : ReadsAs Reader.u16 Writer.u16 := by
  refine (Reads.bind reads_u8 fun lo => Reads.bind reads_u8 fun hi => Reads.pure _).congr ?_
  intro ts a
  constructor
  · rintro ⟨_, _, lo, rfl, rfl, _, _, hi, rfl, rfl, rfl, heq⟩
    obtain ⟨rfl, rfl⟩ := join_eq_iff.mp heq.symm
    rfl
  · rintro rfl
    exact ⟨_, _, a.toUInt8, rfl, rfl, _, _, (a >>> 8).toUInt8, rfl, rfl, rfl,
      (join_eq_iff.mpr ⟨rfl, rfl⟩).symm⟩

/-- What one round of the loop of `u32` and `u64` reads. -/
lemma reads_nextPlace {w : Nat} (acc : Nat × BitVec w) :
    layout.Reads (Reader.nextPlace acc) fun ts out =>
      ∃ b, ts = fixed [b] ∧ out = (acc.1 + 1, LittleEndian.place acc.2 acc.1 b) := by
  exact reads_u8.map _

/-- The loop of `u32` and `u64` from place `i` on: it reads `n` bytes and adds
their share to the word. -/
lemma reads_places {w n i : Nat} {v : BitVec w} (hv : v.toNat < 256 ^ i) (hw : (i + n) * 8 ≤ w) :
    layout.Reads (Decoder.times Reader.nextPlace n (i, v)) fun ts out =>
      ∃ bs : List UInt8, bs.length = n ∧ ts = fixed bs ∧ out.1 = i + n ∧
        out.2.toNat = v.toNat + 256 ^ i * LittleEndian.value bs := by
  refine (Reads.times reads_nextPlace n (i, v)).congr ?_
  induction n generalizing i v with
  | zero =>
      intro ts out
      constructor
      · rintro ⟨rfl, rfl⟩
        exact ⟨[], rfl, rfl, rfl, by simp [LittleEndian.value]⟩
      · rintro ⟨bs, hlen, rfl, hi, hval⟩
        obtain rfl := List.eq_nil_of_length_eq_zero hlen
        refine ⟨rfl, Prod.ext hi (BitVec.eq_of_toNat_eq ?_)⟩
        simpa [LittleEndian.value] using hval
  | succ n ih =>
      intro ts out
      have hplace (b : UInt8) := LittleEndian.toNat_place (v := v) (i := i) b hv (by omega)
      have hlt (b : UInt8) : (LittleEndian.place v i b).toNat < 256 ^ (i + 1) := by
        have hb : 256 ^ i * b.toNat ≤ 256 ^ i * 255 :=
          Nat.mul_le_mul_left _ (Nat.le_of_lt_succ b.toNat_lt)
        rw [hplace, pow_succ]
        omega
      -- the share of the first byte and the share of the others
      have hshare (b : UInt8) (bs : List UInt8) :
          (LittleEndian.place v i b).toNat + 256 ^ (i + 1) * LittleEndian.value bs =
            v.toNat + 256 ^ i * LittleEndian.value (b :: bs) := by
        rw [hplace, LittleEndian.value, pow_succ]
        ring
      constructor
      · rintro ⟨_, _, _, rfl, ⟨b, rfl, rfl⟩, hrest⟩
        obtain ⟨bs, rfl, rfl, hi, hval⟩ := (ih (hlt b) (by omega) _ _).mp hrest
        exact ⟨b :: bs, rfl, rfl, by rw [hi]; omega, by rw [hval, hshare]⟩
      · rintro ⟨bs, hlen, rfl, hi, hval⟩
        cases bs with
        | nil => cases hlen
        | cons b bs =>
            refine ⟨_, _, _, (fixed_append [b] bs), ⟨b, rfl, rfl⟩, (ih (hlt b) (by omega) _ _).mpr
              ⟨bs, Nat.succ.inj hlen, rfl, by rw [hi]; omega, by rw [hval, hshare]⟩⟩

/-- The whole loop reads the bytes of the word. -/
lemma reads_word (n : Nat) :
    layout.Reads (Decoder.times (Reader.nextPlace (w := n * 8)) n (0, 0)) fun ts out =>
      out.1 = n ∧ ts = fixed (LittleEndian.bytes n out.2) := by
  have h := reads_places (n := n) (i := 0) (v := (0 : BitVec (n * 8))) (by simp) (by omega)
  have hw : 2 ^ (n * 8) ≤ 256 ^ n := (LittleEndian.pow_eight_mul n).le
  refine h.congr fun ts out => ?_
  constructor
  · rintro ⟨bs, hlen, rfl, hi, hval⟩
    have hbytes := (LittleEndian.bytes_eq_iff hw).mpr ⟨hlen, by simpa using hval.symm⟩
    exact ⟨by rw [hi, Nat.zero_add], congrArg fixed hbytes⟩
  · rintro ⟨hi, rfl⟩
    obtain ⟨hlen, hval⟩ := (LittleEndian.bytes_eq_iff hw).mp rfl
    exact ⟨_, hlen, rfl, by rw [hi, Nat.zero_add], by simpa using hval.symm⟩

/-- `u32` reads four bytes. -/
lemma reads_u32 : ReadsAs Reader.u32 Writer.u32 := by
  refine ((reads_word 4).map fun out => UInt32.ofBitVec out.2).congr fun ts a => ?_
  constructor
  · rintro ⟨out, ⟨-, rfl⟩, rfl⟩
    rfl
  · rintro rfl
    exact ⟨(4, a.toBitVec), ⟨rfl, rfl⟩, rfl⟩

/-- `u64` reads eight bytes. -/
lemma reads_u64 : ReadsAs Reader.u64 Writer.u64 := by
  refine ((reads_word 8).map fun out => UInt64.ofBitVec out.2).congr fun ts a => ?_
  constructor
  · rintro ⟨out, ⟨-, rfl⟩, rfl⟩
    rfl
  · rintro rfl
    exact ⟨(8, a.toBitVec), ⟨rfl, rfl⟩, rfl⟩

/-- `f64` reads the eight bytes of the bit pattern. -/
lemma reads_f64 : ReadsAs Reader.f64 Writer.f64 := by
  refine (reads_u64.map Double.mk).congr fun ts a => ?_
  constructor
  · rintro ⟨bits, rfl, rfl⟩
    rfl
  · rintro rfl
    exact ⟨a.bits, rfl, rfl⟩

/-- `u32_count` reads four bytes of a bounded number. -/
lemma reads_u32Count : layout.Reads Reader.u32Count fun ts n =>
    n.toNat ≤ Reader.maxCount ∧ ts = fixed (Writer.u32 n) := by
  refine (Reads.bind reads_u32 fun n => Reads.bind (Reads.ensure _ _) fun _ =>
    Reads.pure n).congr ?_
  intro ts a
  constructor
  · rintro ⟨_, _, n, rfl, rfl, _, _, _, rfl, ⟨rfl, hle⟩, rfl, rfl⟩
    exact ⟨of_decide_eq_true hle, List.append_nil _⟩
  · rintro ⟨hle, rfl⟩
    exact ⟨_, _, a, (List.append_nil _).symm, rfl, _, _, (), rfl, ⟨rfl, decide_eq_true hle⟩, rfl,
      rfl⟩

/-- A counted run of bytes. -/
lemma reads_bytes (n : Nat) :
    layout.Reads (Decoder.collect (fun _ _ => .ok ()) Reader.u8 n) fun ts bs =>
      bs.length = n ∧ ts = fixed bs := by
  have hflat (bs : List UInt8) : bs.flatMap (fun b => fixed (Writer.u8 b)) = fixed bs := by
    induction bs with
    | nil => rfl
    | cons b bs ih => rw [List.flatMap_cons, ih]; rfl
  refine (Reads.collect reads_u8.image _ n).congr fun ts bs => ?_
  constructor
  · rintro ⟨is, ⟨hlen, -⟩, rfl, hbs⟩
    obtain rfl : bs = is := hbs.trans (List.map_id is)
    exact ⟨hlen, hflat bs⟩
  · rintro ⟨hlen, rfl⟩
    exact ⟨bs, ⟨hlen, fun _ _ => trivial, admitted_all _ _⟩, (hflat bs).symm,
      (List.map_id bs).symm⟩

/-! ### Ends inside the buffer -/

/-- Where the decoder succeeds, the reader stands inside its buffer. -/
def EndsInside {α : Type} (d : ReadM α) : Prop :=
  ∀ r a, (d r).1 = .ok a → (d r).2.pos ≤ (d r).2.size

namespace EndsInside

variable {α β : Type}

/-- The last step decides. -/
lemma bind {d : ReadM α} {k : α → ReadM β} (hk : ∀ a, EndsInside (k a)) :
    EndsInside (d >>= k) := by
  intro r b hb
  rcases hr : d r with ⟨e | a, r'⟩
  · rw [Decoder.run_bind_error k hr] at hb
    cases hb
  · rw [Decoder.run_bind_ok k hr] at hb ⊢
    exact hk a r' b hb

lemma map {d : ReadM α} (hd : EndsInside d) (g : α → β) :
    EndsInside (d >>= fun a => pure (g a)) := by
  intro r b hb
  rcases hr : d r with ⟨e | a, r'⟩
  · rw [Decoder.run_bind_error _ hr] at hb
    cases hb
  · rw [Decoder.run_bind_ok _ hr]
    have hin := hd r a (by rw [hr])
    rwa [hr] at hin

lemma u8 : EndsInside Reader.u8 := by
  intro r b hb
  by_cases hlt : r.pos + 1 > r.size
  · rw [Reader.u8, if_pos hlt] at hb
    cases hb
  · rw [Reader.u8, if_neg hlt]
    exact Nat.le_of_not_lt hlt

/-- A loop of at least one round. -/
lemma times {step : β → ReadM β} (h : ∀ acc, EndsInside (step acc)) (n : Nat) (acc : β) :
    EndsInside (Decoder.times step (n + 1) acc) := by
  induction n generalizing acc with
  | zero => exact (h acc).map id
  | succ n ih => exact bind fun mid => ih mid

lemma nextPlace {w : Nat} (acc : Nat × BitVec w) : EndsInside (Reader.nextPlace acc) :=
  u8.map _

lemma u32 : EndsInside Reader.u32 := (times nextPlace 3 _).map _

end EndsInside

/-- A success inside the buffer has read an encoding. -/
lemma run_of_ok {α : Type} {d : ReadM α} {F : List Token → α → Prop} (h : layout.Reads d F)
    {r r' : Reader} {a : α} (hr : d r = (.ok a, r')) (hle : r'.pos ≤ r.size) :
    r'.data = r.data ∧ ∃ ts, F ts a ∧ layout.Fits r.pos ts ∧
      layout.bytes ts <+: r.data.drop r.pos ∧ r'.pos = r.pos + (layout.bytes ts).length := by
  obtain rfl : (d r).2 = r' := by rw [hr]
  obtain ⟨ts, hF, hat, hfit, hpos⟩ := h.sound r a (by rw [hr]) hle
  exact ⟨h.frame r, ts, hF, hfit, hat, hpos⟩

/-- A length that is read stands in the buffer. -/
lemma u32_of_ok {r r' : Reader} {len : UInt32} (hr : Reader.u32 r = (.ok len, r')) :
    r'.data = r.data ∧ r'.pos = r.pos + 4 ∧ Writer.u32 len <+: r.data.drop r.pos := by
  have hdata : r'.data = r.data := by
    have hframe := reads_u32.frame r
    rwa [hr] at hframe
  have hin := EndsInside.u32 r len (by rw [hr])
  rw [hr, Reader.size, hdata] at hin
  obtain ⟨-, _, rfl, -, hpre, hpos⟩ := run_of_ok reads_u32 hr hin
  rw [bytes_fixed] at hpre hpos
  rw [Writer.u32, LittleEndian.length_bytes] at hpos
  exact ⟨hdata, hpos, hpre⟩

/-- A length that stands in the buffer is read. -/
lemma exists_u32 {r : Reader} {len : UInt32} (h : Writer.u32 len <+: r.data.drop r.pos) :
    ∃ r', Reader.u32 r = (.ok len, r') ∧ r'.data = r.data ∧ r'.pos = r.pos + 4 := by
  obtain ⟨r', hr, hdata, hpos⟩ := reads_u32.exists_run (r := r) rfl
    (at_iff.mpr (by rwa [bytes_fixed])) (fits_fixed _ _)
  rw [bytes_fixed, Writer.u32, LittleEndian.length_bytes] at hpos
  exact ⟨r', hr, hdata, hpos⟩

/-! ### Strings -/

/-- What follows the length in `Reader::string`. -/
def stringBody (len : UInt32) : ReadM (List UInt8) := fun r =>
  if len.toNat > sizeSub Reader.maxString r.pos ∨ len.toNat > Reader.stringCap then
    (Result.err .protocolOverflow "string length out of bounds", r)
  else Reader.take len.toNat r

lemma string_eq : Reader.string = Reader.u32 >>= stringBody := rfl

/-- The bytes fetched inside the buffer are those of the buffer. -/
lemma map_fetch {r : Reader} {p n : Nat} (h : p + n ≤ r.data.length) :
    (List.range' p n).map r.fetch = (r.data.drop p).take n := by
  induction n generalizing p with
  | zero => simp
  | succ n ih =>
      have hp : p < r.data.length := by omega
      rw [List.range'_succ, List.map_cons, ih (by omega), List.drop_eq_getElem_cons hp,
        List.take_succ_cons, Reader.fetch, List.getElem?_eq_getElem hp, Option.getD_some]

/-- Bytes that the buffer holds at the position are taken. -/
lemma take_ok {r : Reader} {s : List UInt8} (h : s <+: r.data.drop r.pos) :
    (Reader.take s.length r).1 = .ok s := by
  refine congrArg Except.ok ?_
  rcases s with _ | ⟨b, s⟩
  · rfl
  · have hlen := h.length_le
    rw [List.length_drop, List.length_cons] at hlen
    rw [map_fetch (by rw [List.length_cons]; omega)]
    exact (List.prefix_iff_eq_take.mp h).symm

lemma length_bytes_str (s : List UInt8) : (layout.bytes [.str s]).length = 4 + s.length := by
  rw [bytes_str, Writer.string, List.length_append, Writer.u32, LittleEndian.length_bytes]

/-- The length prefix and the bytes of a string token. -/
lemma at_str {data s : List UInt8} {p : Nat} :
    layout.At data p [.str s] ↔ layout.At data p (fixed (Writer.u32 (UInt32.ofNat s.length))) ∧
      layout.At data (p + 4) (fixed s) := by
  have hlen : (layout.bytes (fixed (Writer.u32 (UInt32.ofNat s.length)))).length = 4 := by
    rw [bytes_fixed, Writer.u32, LittleEndian.length_bytes]
  have h : layout.At data p (fixed (Writer.u32 (UInt32.ofNat s.length)) ++ fixed s) ↔ _ :=
    layout.at_append_iff
  rw [hlen] at h
  rw [← h, at_iff, at_iff, bytes_str, bytes_append, bytes_fixed, bytes_fixed, Writer.string]

/-- `string` in front of a string token: the length is read, and the test
decides. -/
lemma string_at {r : Reader} {s : List UInt8} (hs : s.length < 2 ^ 32)
    (hat : layout.At r.data r.pos [.str s]) :
    ∃ r', Reader.string r = stringBody (UInt32.ofNat s.length) r' ∧ r'.data = r.data ∧
      r'.pos = r.pos + 4 ∧ (UInt32.ofNat s.length).toNat = s.length := by
  obtain ⟨hlen, -⟩ := at_str.mp hat
  rw [at_iff, bytes_fixed] at hlen
  obtain ⟨r', hr, hdata, hpos⟩ := exists_u32 hlen
  exact ⟨r', Decoder.run_bind_ok _ hr, hdata, hpos, UInt32.toNat_ofNat_of_lt' hs⟩

/-- What `string` does: it stops behind the length with an error, or it takes
the declared number of bytes, which the test let through. -/
lemma string_cases (r : Reader) :
    (∃ e, Reader.string r = (.error e, (Reader.u32 r).2)) ∨
      ∃ len r', Reader.u32 r = (.ok len, r') ∧ len.toNat ≤ sizeSub Reader.maxString r'.pos ∧
        len.toNat ≤ Reader.stringCap ∧ Reader.string r = Reader.take len.toNat r' := by
  rcases hr : Reader.u32 r with ⟨e | len, r'⟩
  · exact .inl ⟨e, by rw [string_eq, Decoder.run_bind_error _ hr]⟩
  · rw [string_eq, Decoder.run_bind_ok _ hr, stringBody]
    by_cases hcaps : len.toNat > sizeSub Reader.maxString r'.pos ∨ len.toNat > Reader.stringCap
    · exact .inl ⟨_, if_pos hcaps⟩
    · have hcaps' := hcaps
      push Not at hcaps'
      exact .inr ⟨len, r', rfl, hcaps'.1, hcaps'.2, if_neg hcaps⟩

/-- Bytes taken behind a length, all of them in the buffer, make a string token
with it. -/
lemma at_str_of_take {r r' : Reader} {len : UInt32} (hr : Reader.u32 r = (.ok len, r'))
    (hend : r'.pos + len.toNat ≤ r.data.length) :
    ∃ s, (Reader.take len.toNat r').1 = .ok s ∧ s.length = len.toNat ∧ r'.pos = r.pos + 4 ∧
      layout.At r.data r.pos [.str s] := by
  obtain ⟨hdata, hpos, hpre⟩ := u32_of_ok hr
  have hlen : ((r'.data.drop r'.pos).take len.toNat).length = len.toNat := by
    rw [List.length_take, List.length_drop, hdata]
    omega
  refine ⟨_, congrArg Except.ok (map_fetch (by rw [hdata]; exact hend)), hlen, hpos, ?_⟩
  rw [at_str, at_iff, at_iff, bytes_fixed, bytes_fixed, hlen, UInt32.ofNat_toNat, hdata, hpos]
  exact ⟨hpre, List.take_prefix _ _⟩

/-- `string` reads a length and that many bytes. -/
lemma reads_string : layout.Reads Reader.string fun ts s =>
    s.length < 2 ^ 32 ∧ ts = [.str s] where
  frame r := by
    have h := reads_u32.frame r
    rcases string_cases r with ⟨e, heq⟩ | ⟨len, r', hr, -, -, heq⟩
    · rw [heq]
      exact h
    · rw [hr] at h
      rw [heq]
      exact h
  mono r := by
    have h := reads_u32.mono r
    rcases string_cases r with ⟨e, heq⟩ | ⟨len, r', hr, -, -, heq⟩
    · rw [heq]
      exact h
    · rw [hr] at h
      rw [heq]
      exact h.trans (Nat.le_add_right _ _)
  sound r s hs hle := by
    rcases string_cases r with ⟨e, heq⟩ | ⟨len, r', hr, hmax, hcap, heq⟩
    · rw [heq] at hs
      cases hs
    rw [heq] at hs hle ⊢
    obtain ⟨s', htake, hlen, hpos, hat⟩ := at_str_of_take hr hle
    obtain rfl : s' = s := Except.ok.inj (htake.symm.trans hs)
    refine ⟨[.str s'], ⟨by rw [hlen]; exact len.toNat_lt, rfl⟩, hat, ?_, ?_⟩
    · rw [fits_str, hlen]
      exact ⟨hpos ▸ hmax, hcap⟩
    · show r'.pos + len.toNat = r.pos + _
      rw [length_bytes_str, hlen, hpos, Nat.add_assoc]
  complete := by
    rintro r _ s ⟨hs, rfl⟩ hat hfit
    obtain ⟨r', heq, hdata, hpos, hcast⟩ := string_at hs hat
    have hpre : s <+: r'.data.drop r'.pos := by
      have h := (at_str.mp hat).2
      rw [at_iff, bytes_fixed] at h
      rw [hdata, hpos]
      exact h
    have hcaps : ¬ ((UInt32.ofNat s.length).toNat > sizeSub Reader.maxString r'.pos ∨
        (UInt32.ofNat s.length).toNat > Reader.stringCap) := by
      rw [hcast, hpos]
      push Not
      exact fits_str.mp hfit
    rw [heq, stringBody, if_neg hcaps, hcast]
    refine ⟨take_ok hpre, ?_⟩
    show r'.pos + s.length = r.pos + _
    rw [length_bytes_str, hpos, Nat.add_assoc]
  reject := by
    rintro r _ s ⟨hs, rfl⟩ hat hfit
    obtain ⟨r', heq, hdata, hpos, hcast⟩ := string_at hs hat
    have hcaps : (UInt32.ofNat s.length).toNat > sizeSub Reader.maxString r'.pos ∨
        (UInt32.ofNat s.length).toNat > Reader.stringCap := by
      by_contra hno
      push Not at hno
      rw [hcast, hpos] at hno
      exact hfit (fits_str.mpr hno)
    exact ⟨_, by rw [heq, stringBody, if_pos hcaps]; rfl⟩

/-! ### Whole buffers -/

/-- **A decoder followed by `require_end`** succeeds exactly on the buffers its
format fills. -/
theorem ok_whole_iff {α β : Type} {d : ReadM α} {F : List Token → α → Prop}
    (h : layout.Reads d F) (g : α → β) {data : List UInt8} {beyond : Nat → UInt8} {b : β} :
    ((do
      let a ← d
      Reader.requireEnd
      return g a : ReadM β) { data, beyond }).1 = .ok b ↔
      ∃ ts a, F ts a ∧ layout.bytes ts = data ∧ layout.Fits 0 ts ∧ b = g a := by
  have hframe := h.frame { data, beyond }
  constructor
  · intro hb
    rcases hr : d { data, beyond } with ⟨e | a, r'⟩
    · rw [Decoder.run_bind_error _ hr] at hb
      cases hb
    rw [hr] at hframe
    have hdata : r'.data = data := hframe
    by_cases hend : r'.pos ≠ r'.size
    · have hrun : Reader.requireEnd r' = (.error ⟨.protocolMalformed, "trailing garbage"⟩, r') :=
        if_pos hend
      rw [Decoder.run_bind_ok _ hr, Decoder.run_bind_error _ hrun] at hb
      cases hb
    · have hrun : Reader.requireEnd r' = (.ok (), r') := if_neg hend
      rw [Decoder.run_bind_ok _ hr, Decoder.run_bind_ok _ hrun] at hb
      obtain rfl : g a = b := Except.ok.inj hb
      have hpos : r'.pos = data.length := by
        rw [← hdata]
        exact not_not.mp hend
      obtain ⟨-, ts, hF, hfit, hpre, hlen⟩ := run_of_ok h hr hpos.le
      rw [hpos, Nat.zero_add] at hlen
      exact ⟨ts, a, hF, hpre.eq_of_length hlen.symm, hfit, rfl⟩
  · rintro ⟨ts, a, hF, rfl, hfit, rfl⟩
    obtain ⟨r', hr, hdata, hpos⟩ := h.exists_run (r := { data := layout.bytes ts, beyond }) hF
      (List.prefix_refl _) hfit
    have hend : r'.pos = r'.size := by
      have hdata' : r'.data = layout.bytes ts := hdata
      rw [Reader.size, hdata']
      exact hpos.trans (Nat.zero_add _)
    have hrun : Reader.requireEnd r' = (.ok (), r') := if_neg (not_not.mpr hend)
    rw [Decoder.run_bind_ok _ hr, Decoder.run_bind_ok _ hrun]
    rfl

/-- A buffer filled by tokens of the format that do not fit is refused. -/
theorem refused_whole {α β : Type} {d : ReadM α} {F : List Token → α → Prop}
    (h : layout.Reads d F) (g : α → β) {beyond : Nat → UInt8} {ts : List Token} {a : α}
    (hF : F ts a) (hfit : ¬ layout.Fits 0 ts) :
    ∃ e, ((do
      let a ← d
      Reader.requireEnd
      return g a : ReadM β) { data := layout.bytes ts, beyond }).1 = .error e := by
  obtain ⟨e, he⟩ := h.reject { data := layout.bytes ts, beyond } ts a hF (List.prefix_refl _) hfit
  rcases hr : d { data := layout.bytes ts, beyond } with ⟨e' | a', r'⟩
  · exact ⟨e', by rw [Decoder.run_bind_error _ hr]⟩
  · rw [hr] at he
    cases he

end PcieFabric
