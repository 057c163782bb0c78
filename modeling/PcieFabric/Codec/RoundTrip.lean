import PcieFabric.Codec.Offsets

/-!
The round trip of the primitives (`codec.hpp`): a sequence of `Writer` calls and
the same sequence of `Reader` calls on the buffer they leave.

* `WriteCall`: a call with its value; `written` is what the calls append and
  `readBack` the calls that read it.
* `reads_readBack`: the reads read the tokens of the calls.
* `primitives_roundtrip_iff`: every read succeeds with the written value and the
  last one ends at the end of the buffer, exactly when no string starts at or before the
  offset 256 KiB and ends after it.
-/

namespace PcieFabric

open Layout Token Persist

/-- A call on a writer. -/
inductive WriteCall where
  | u8 (v : UInt8)
  | u16 (v : UInt16)
  | u32 (v : UInt32)
  | u64 (v : UInt64)
  | f64 (v : Double)
  | boolean (v : Bool)
  | string (s : List UInt8)

namespace WriteCall

/-- What the call appends. -/
def bytes : WriteCall → List UInt8
  | u8 v => Writer.u8 v
  | u16 v => Writer.u16 v
  | u32 v => Writer.u32 v
  | u64 v => Writer.u64 v
  | f64 v => Writer.f64 v
  | boolean v => Writer.boolean v
  | string s => Writer.string s

/-- The corresponding call on a reader, with the value it returns. -/
def read : WriteCall → ReadM WriteCall
  | u8 _ => do return u8 (← Reader.u8)
  | u16 _ => do return u16 (← Reader.u16)
  | u32 _ => do return u32 (← Reader.u32)
  | u64 _ => do return u64 (← Reader.u64)
  | f64 _ => do return f64 (← Reader.f64)
  | boolean _ => do return boolean (← Reader.boolean)
  | string _ => do return string (← Reader.string)

/-- The buffer after the calls. -/
def written (calls : List WriteCall) : List UInt8 := calls.flatMap bytes

/-- The corresponding reads, in the same order. -/
def readBack : List WriteCall → ReadM (List WriteCall)
  | [] => return []
  | c :: rest => do
      let v ← c.read
      let vs ← readBack rest
      return v :: vs

/-- The reads on the buffer return what was written and end at its end. -/
def RoundTrips (calls : List WriteCall) (beyond : Nat → UInt8) : Prop :=
  ∃ r, readBack calls { data := written calls, beyond } = (.ok calls, r) ∧ r.atEnd = true

/-- The strings of the calls are at most 64 KiB long. -/
def ShortStrings (calls : List WriteCall) : Prop := ∀ s, string s ∈ calls → ShortString s

/-- No string of the calls starts at or before the offset 256 KiB and ends after it. -/
def NoneStraddles (calls : List WriteCall) : Prop := ∀ pre s post,
  calls = pre ++ string s :: post → ¬ Straddles ((written pre).length + 4) s.length

/-! ### The tokens of the calls -/

/-- The tokens that the call appends. -/
def tokens : WriteCall → List Token
  | string s => [.str s]
  | c => fixed c.bytes

@[simp] lemma bytes_tokens (c : WriteCall) : layout.bytes c.tokens = c.bytes := by
  cases c with
  | string s => exact bytes_str s
  | u8 v => exact bytes_fixed _
  | u16 v => exact bytes_fixed _
  | u32 v => exact bytes_fixed _
  | u64 v => exact bytes_fixed _
  | f64 v => exact bytes_fixed _
  | boolean v => exact bytes_fixed _

lemma bytes_flatMap_tokens (calls : List WriteCall) :
    layout.bytes (calls.flatMap tokens) = written calls := by
  induction calls with
  | nil => rfl
  | cons c rest ih =>
      rw [List.flatMap_cons, bytes_append, bytes_tokens, ih]
      rfl

/-- The strings among the tokens are those of the calls. -/
lemma str_mem_tokens {c : WriteCall} {s : List UInt8} (h : Token.str s ∈ c.tokens) :
    c = string s := by
  cases c with
  | string s' =>
      obtain rfl : s = s' := by simpa [tokens] using h
      rfl
  | u8 v => exact absurd h (stringFree_fixed _ s)
  | u16 v => exact absurd h (stringFree_fixed _ s)
  | u32 v => exact absurd h (stringFree_fixed _ s)
  | u64 v => exact absurd h (stringFree_fixed _ s)
  | f64 v => exact absurd h (stringFree_fixed _ s)
  | boolean v => exact absurd h (stringFree_fixed _ s)

lemma stringsShort_tokens {calls : List WriteCall} (h : ShortStrings calls) :
    StringsShort (calls.flatMap tokens) := by
  intro s hs
  obtain ⟨c, hc, hmem⟩ := List.mem_flatMap.mp hs
  exact h s (str_mem_tokens hmem ▸ hc)

/-- A split of the tokens at a string is a split of the calls at it. -/
lemma split_tokens {calls : List WriteCall} {pre post : List Token} {s : List UInt8}
    (h : calls.flatMap tokens = pre ++ Token.str s :: post) :
    ∃ before after, calls = before ++ string s :: after ∧ pre = before.flatMap tokens := by
  induction calls generalizing pre with
  | nil => exact absurd h.symm (List.append_ne_nil_of_right_ne_nil pre (List.cons_ne_nil _ post))
  | cons c rest ih =>
      rw [List.flatMap_cons, List.append_eq_append_iff] at h
      rcases h with ⟨mid, rfl, hrest⟩ | ⟨mid, hc, hmid⟩
      · obtain ⟨before, after, rfl, rfl⟩ := ih hrest
        exact ⟨c :: before, after, rfl, rfl⟩
      · cases mid with
        | nil =>
            have hrest : rest.flatMap tokens = [] ++ Token.str s :: post := hmid.symm
            obtain ⟨before, after, rfl, hpre⟩ := ih hrest
            rw [List.append_nil] at hc
            exact ⟨c :: before, after, rfl, by rw [List.flatMap_cons, hc, ← hpre, List.append_nil]⟩
        | cons t mid =>
            obtain ⟨rfl, hpost⟩ := List.cons.inj hmid
            have hmem : Token.str s ∈ c.tokens := by
              rw [hc]
              exact List.mem_append_right pre List.mem_cons_self
            obtain rfl := str_mem_tokens hmem
            -- the one token of the string is its first
            cases pre with
            | nil => exact ⟨[], rest, rfl, rfl⟩
            | cons u pre =>
                have hnil := (List.cons.inj hc).2
                exact absurd hnil.symm
                  (List.append_ne_nil_of_right_ne_nil pre (List.cons_ne_nil _ mid))

/-- **The tokens are clear** where no string of the calls straddles. -/
lemma clear_tokens_iff (calls : List WriteCall) :
    Clear (calls.flatMap tokens) ↔ NoneStraddles calls := by
  constructor
  · rintro h pre s post rfl
    rw [← bytes_flatMap_tokens]
    refine h (pre.flatMap tokens) s (post.flatMap tokens) ?_
    rw [List.flatMap_append, List.flatMap_cons]
    rfl
  · intro h pre s post heq
    obtain ⟨before, after, rfl, rfl⟩ := split_tokens heq
    rw [bytes_flatMap_tokens]
    exact h before s after rfl

/-! ### The reads -/

/-- What the read of a call may find: the tokens of a call of the same kind. A
boolean is read from any byte. -/
def Finds (c : WriteCall) (ts : List Token) (v : WriteCall) : Prop :=
  match c with
  | .u8 _ => ∃ x, ts = fixed (Writer.u8 x) ∧ v = .u8 x
  | .u16 _ => ∃ x, ts = fixed (Writer.u16 x) ∧ v = .u16 x
  | .u32 _ => ∃ x, ts = fixed (Writer.u32 x) ∧ v = .u32 x
  | .u64 _ => ∃ x, ts = fixed (Writer.u64 x) ∧ v = .u64 x
  | .f64 _ => ∃ x, ts = fixed (Writer.f64 x) ∧ v = .f64 x
  | .boolean _ => ∃ b, (∃ x, ts = fixed (Writer.u8 x) ∧ b = (x != 0)) ∧ v = .boolean b
  | .string _ => ∃ x : List UInt8, (x.length < 2 ^ 32 ∧ ts = [.str x]) ∧ v = .string x

lemma reads_read (c : WriteCall) : layout.Reads c.read c.Finds := by
  cases c with
  | u8 v => exact reads_u8.map WriteCall.u8
  | u16 v => exact reads_u16.map WriteCall.u16
  | u32 v => exact reads_u32.map WriteCall.u32
  | u64 v => exact reads_u64.map WriteCall.u64
  | f64 v => exact reads_f64.map WriteCall.f64
  | boolean v => exact (reads_u8.map fun b => b != 0).map WriteCall.boolean
  | string s => exact reads_string.map WriteCall.string

/-- A call finds what it has written. -/
lemma finds_tokens {c : WriteCall} (h : ∀ s, c = string s → ShortString s) :
    c.Finds c.tokens c := by
  cases c with
  | u8 v => exact ⟨v, rfl, rfl⟩
  | u16 v => exact ⟨v, rfl, rfl⟩
  | u32 v => exact ⟨v, rfl, rfl⟩
  | u64 v => exact ⟨v, rfl, rfl⟩
  | f64 v => exact ⟨v, rfl, rfl⟩
  | boolean v => exact ⟨v, ⟨if v then 1 else 0, rfl, by cases v <;> decide⟩, rfl⟩
  | string s => exact ⟨s, ⟨(h s rfl).trans_lt (by decide), rfl⟩, rfl⟩

/-- What the reads may find. -/
def FindsAll : List WriteCall → List Token → List WriteCall → Prop
  | [], ts, vs => ts = [] ∧ vs = []
  | c :: rest, ts, vs => ∃ t₁ t₂ v, ts = t₁ ++ t₂ ∧ c.Finds t₁ v ∧
      ∃ vs', FindsAll rest t₂ vs' ∧ vs = v :: vs'

/-- **The reads, one after the other.** -/
lemma reads_readBack (calls : List WriteCall) :
    layout.Reads (readBack calls) (FindsAll calls) := by
  induction calls with
  | nil => exact Reads.pure []
  | cons c rest ih => exact Reads.bind (reads_read c) fun v => ih.map (v :: ·)

lemma findsAll_tokens {calls : List WriteCall} (h : ShortStrings calls) :
    FindsAll calls (calls.flatMap tokens) calls := by
  induction calls with
  | nil => exact ⟨rfl, rfl⟩
  | cons c rest ih =>
      refine ⟨c.tokens, rest.flatMap tokens, c, rfl, finds_tokens fun s hs => ?_, rest, ?_, rfl⟩
      · exact h s (hs ▸ List.mem_cons_self)
      · exact ih fun s hs => h s (List.mem_cons_of_mem c hs)

/-- A string that straddles is refused. -/
lemma noneStraddles_of_roundTrips {calls : List WriteCall} (h : ShortStrings calls)
    {beyond : Nat → UInt8} (hround : RoundTrips calls beyond) : NoneStraddles calls := by
  rw [← clear_tokens_iff, ← fits_iff_clear (stringsShort_tokens h)]
  obtain ⟨r, hr, -⟩ := hround
  rw [← bytes_flatMap_tokens] at hr
  by_contra hfit
  obtain ⟨e, he⟩ := (reads_readBack calls).reject
    { data := layout.bytes (calls.flatMap tokens), beyond } _ _ (findsAll_tokens h)
    (List.prefix_refl _) hfit
  rw [hr] at he
  cases he

/-- Otherwise all is read, up to the end. -/
lemma roundTrips_of_noneStraddles {calls : List WriteCall} (h : ShortStrings calls)
    (beyond : Nat → UInt8) (hnone : NoneStraddles calls) : RoundTrips calls beyond := by
  have hfit := (fits_iff_clear (stringsShort_tokens h)).mpr ((clear_tokens_iff calls).mpr hnone)
  rw [RoundTrips, ← bytes_flatMap_tokens]
  exact exists_run_whole (reads_readBack calls) (findsAll_tokens h) hfit beyond

/-- **The round trip of the primitives, exactly.** A sequence of writes with strings
of at most 64 KiB is read back, value for value and to the end of the buffer, if and
only if none of its strings starts at or before the offset 256 KiB and ends after it. -/
theorem primitives_roundtrip_iff {calls : List WriteCall} (h : ShortStrings calls)
    (beyond : Nat → UInt8) : RoundTrips calls beyond ↔ NoneStraddles calls :=
  ⟨noneStraddles_of_roundTrips h, roundTrips_of_noneStraddles h beyond⟩

/-- One call of each kind. -/
theorem primitives_roundtrip_each :
    RoundTrips [u8 1, u16 2, u32 3, u64 4, f64 (.ofFloat 5.5), boolean true, string (ascii "six")]
      fun _ => 0 := by
  refine (primitives_roundtrip_iff (fun s hs => ?_) _).mpr ?_
  · obtain rfl : s = ascii "six" := by simpa using hs
    rw [ShortString]
    decide
  · rw [← clear_tokens_iff]
    refine clear_of_le ?_
    rw [bytes_flatMap_tokens]
    decide +kernel

/-- Four strings of 64 KiB: the fourth starts below the offset 256 KiB and ends
behind it, so its length is refused. -/
theorem fourth_string_refused : ¬ ∀ calls beyond, ShortStrings calls → RoundTrips calls beyond := by
  intro h
  let s : List UInt8 := List.replicate 65536 0
  have hlen : s.length = 65536 := List.length_replicate
  have hshort : ShortStrings [string s, string s, string s, string s] := by
    intro s' hs'
    obtain rfl : s' = s := by simpa using hs'
    exact hlen.le
  refine noneStraddles_of_roundTrips hshort (h _ (fun _ => 0) hshort)
    [string s, string s, string s] s [] rfl ?_
  have hwritten : (written [string s, string s, string s]).length = 3 * (4 + 65536) := by
    have hone : (string s).bytes.length = 4 + 65536 := by
      rw [bytes, Writer.string, List.length_append, Writer.u32, LittleEndian.length_bytes, hlen]
    rw [written, List.length_flatMap, List.map_cons, List.map_cons, List.map_cons, List.map_nil,
      hone]
    rfl
  rw [Straddles, hwritten, hlen, Reader.maxString]
  decide

end WriteCall

end PcieFabric
