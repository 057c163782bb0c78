import PcieFabric.Wire.Socket

/-!
What `read_frame` makes of a receive call without data (`tcp.cpp`).

* `RecvOutcome.isZero`: the outcomes that `recv_some` reports as zero bytes;
  `TcpSocket.AtEnd`, `TcpSocket.AtIdle` tell the end of the stream from want of data.
* `readFrameStop`: the receive call that ends a call of `read_frame` early;
  `readFrame_cases`: it makes the result, and both kinds of zero bytes make it a lost
  peer (`readFrame_peerLost_iff`).
* `exists_stop_at`: every such outcome of a socket ends some call of `read_frame`.
* `noDataHarmless_iff`: want of data does no harm exactly on the sockets that know none.
-/

namespace PcieFabric.Wire

open ChunkedStream

/-- `recv_some` reports zero bytes: at the end of the stream, and for want of data. -/
def RecvOutcome.isZero : RecvOutcome → Bool
  | .data bytes => bytes.isEmpty
  | .idle => true
  | .failed => false

namespace TcpSocket

/-- The next receive call finds the orderly end of the stream. -/
def AtEnd (s : TcpSocket) : Prop :=
  (s.pending = [] ∧ s.ending = .closed) ∨ s.pending.head? = some (.data [])

/-- The next receive call finds no data. -/
def AtIdle (s : TcpSocket) : Prop := s.pending.head? = some .idle

/-- The socket after that many calls of `read_frame`. -/
def after (n : Nat) (s : TcpSocket) : TcpSocket := (readFrames n s).2

lemma after_succ (n : Nat) (s : TcpSocket) : after (n + 1) s = after n (readFrame s).2 := rfl

/-- How much there is to receive: the outcomes, and the bytes of the data. -/
def size (s : TcpSocket) : Nat :=
  (s.pending.map fun
    | .data bytes => bytes.length + 1
    | .idle => 1
    | .failed => 1).sum

/-- The outcomes to come that are reported as zero bytes. -/
def zeros (s : TcpSocket) : List RecvOutcome := s.pending.filter RecvOutcome.isZero

variable {s c : TcpSocket} {n : Nat}

lemma AtIdle.not_atEnd (h : s.AtIdle) : ¬ s.AtEnd := by
  rintro (⟨hnil, -⟩ | hdata)
  · rw [AtIdle, hnil] at h
    cases h
  · rw [AtIdle, hdata] at h
    cases h

/-! ### One receive call -/

/-- A receive call that reports zero bytes is at the end of the stream, or finds no
data. -/
lemma atEnd_or_atIdle (hn : 0 < n) (h : (s.recvSome n).1 = .ok []) : s.AtEnd ∨ s.AtIdle := by
  obtain ⟨pending, ending⟩ := s
  rcases pending with _ | ⟨o, rest⟩
  · cases ending with
    | closed => exact .inl (.inl ⟨rfl, rfl⟩)
    | failed => cases h
  · cases o with
    | data bytes =>
        have htake : bytes.take n = [] := Except.ok.inj h
        have hbytes : bytes = [] := (List.take_eq_nil_iff.mp htake).resolve_left hn.ne'
        exact .inl (.inr (by rw [hbytes]; rfl))
    | idle => exact .inr rfl
    | failed => cases h

/-- At the end of the stream and for want of data, a receive call reports zero bytes. -/
lemma recvSome_zero (h : s.AtEnd ∨ s.AtIdle) (n : Nat) : (s.recvSome n).1 = .ok [] := by
  obtain ⟨pending, ending⟩ := s
  rcases h with (⟨rfl, rfl⟩ | hdata) | hidle
  · rfl
  · obtain ⟨rest, rfl⟩ := List.head?_eq_some_iff.mp hdata
    show Except.ok (List.take n []) = _
    rw [List.take_nil]
  · obtain ⟨rest, rfl⟩ := List.head?_eq_some_iff.mp hidle
    rfl

/-- No error of a receive call is about the peer. -/
lemma code_of_recvSome {e : Error} (h : (s.recvSome n).1 = .error e) : e.code ≠ .peerLost := by
  obtain ⟨pending, ending⟩ := s
  rcases pending with _ | ⟨_ | _ | _, rest⟩
  · cases ending <;> cases h
    decide
  · cases h
  · cases h
  · cases h
    decide

/-- A receive call that hands over nothing takes one outcome. -/
lemma pending_of_stop (hn : 0 < n)
    (h : (s.recvSome n).1 = .ok [] ∨ ∃ e, (s.recvSome n).1 = .error e) :
    (s.recvSome n).2.pending = s.pending.tail := by
  obtain ⟨pending, ending⟩ := s
  rcases pending with _ | ⟨_ | _ | _, rest⟩
  · cases ending <;> rfl
  · next bytes =>
      rcases h with hzero | ⟨e, herr⟩
      · have htake : bytes.take n = [] := Except.ok.inj hzero
        obtain rfl : bytes = [] := (List.take_eq_nil_iff.mp htake).resolve_left hn.ne'
        simp [recvSome]
      · cases herr
  · rfl
  · rfl

/-- A receive call that hands over data leaves the outcomes without data. -/
lemma zeros_of_data {got : List UInt8} {s' : TcpSocket} (h : s.recvSome n = (.ok got, s'))
    (hgot : got ≠ []) : s'.zeros = s.zeros := by
  obtain ⟨pending, ending⟩ := s
  rcases pending with _ | ⟨_ | _ | _, rest⟩
  · cases ending with
    | closed => exact absurd (Except.ok.inj (Prod.mk.inj h).1).symm hgot
    | failed => cases (Prod.mk.inj h).1
  · next bytes =>
      obtain ⟨hread, rfl⟩ := Prod.mk.inj h
      cases bytes with
      | nil =>
          rw [← Except.ok.inj hread, List.take_nil] at hgot
          exact absurd rfl hgot
      | cons b bytes =>
          show List.filter _ (if (b :: bytes).drop n = [] then rest else _) = _
          rcases hleft : (b :: bytes).drop n with _ | ⟨c, left⟩
          · rw [if_pos rfl]
            rfl
          · rw [if_neg (List.cons_ne_nil c left)]
            rfl
  · exact absurd (Except.ok.inj (Prod.mk.inj h).1).symm hgot
  · cases (Prod.mk.inj h).1

/-- No receive call brings up an outcome without data. -/
lemma zeros_recvSome_subset (n : Nat) (s : TcpSocket) : (s.recvSome n).2.zeros ⊆ s.zeros := by
  obtain ⟨pending, ending⟩ := s
  rcases pending with _ | ⟨_ | _ | _, rest⟩
  · cases ending <;> exact List.Subset.refl _
  · next bytes =>
      show List.filter _ (if bytes.drop n = [] then rest else .data (bytes.drop n) :: rest) ⊆ _
      have hrest : rest.filter RecvOutcome.isZero ⊆ zeros ⟨.data bytes :: rest, ending⟩ :=
        List.filter_subset _ (List.subset_cons_self _ _)
      rcases hleft : bytes.drop n with _ | ⟨c, left⟩
      · rwa [if_pos rfl]
      · have hleft' : ¬ (RecvOutcome.data (c :: left)).isZero := by simp [RecvOutcome.isZero]
        rwa [if_neg (List.cons_ne_nil c left), List.filter_cons_of_neg hleft']
  · exact List.filter_subset _ (List.subset_cons_self _ _)
  · exact List.filter_subset _ (List.subset_cons_self _ _)

/-- An outcome without data is the end of the stream, or a want of data. -/
lemma atEnd_or_atIdle_of_head {o : RecvOutcome} (h : s.pending.head? = some o) (hzero : o.isZero) :
    s.AtEnd ∨ s.AtIdle := by
  cases o with
  | data bytes =>
      rw [List.isEmpty_iff.mp hzero] at h
      exact .inl (.inr h)
  | idle => exact .inr h
  | failed => cases hzero

/-- Where a connection that never ends in order has no data, there is an outcome without
data. -/
lemma exists_zero (hend : s.ending = .failed) (h : s.AtEnd ∨ s.AtIdle) : ∃ o, o ∈ s.zeros := by
  rcases h with (⟨-, hclosed⟩ | hdata) | hidle
  · rw [hend] at hclosed
    cases hclosed
  · exact ⟨_, List.mem_filter.mpr ⟨List.mem_of_mem_head? hdata, rfl⟩⟩
  · exact ⟨_, List.mem_filter.mpr ⟨List.mem_of_mem_head? hidle, rfl⟩⟩

lemma ending_recvSome (n : Nat) (s : TcpSocket) : (s.recvSome n).2.ending = s.ending := by
  obtain ⟨pending, ending⟩ := s
  rcases pending with _ | ⟨_ | _ | _, rest⟩
  · cases ending <;> rfl
  · rfl
  · rfl
  · rfl

/-- No receive call adds to what there is to receive. -/
lemma size_recvSome_le (n : Nat) (s : TcpSocket) : (s.recvSome n).2.size ≤ s.size := by
  obtain ⟨pending, ending⟩ := s
  rcases pending with _ | ⟨_ | _ | _, rest⟩
  · cases ending <;> exact le_rfl
  · next bytes =>
      simp only [recvSome, size]
      split_ifs with hleft
      · simp
      · simp
  · simp [recvSome, size]
  · simp [recvSome, size]

/-- A receive call with an outcome before it takes from what there is to receive. -/
lemma size_recvSome_lt (hn : 0 < n) (h : s.pending ≠ []) : (s.recvSome n).2.size < s.size := by
  obtain ⟨pending, ending⟩ := s
  rcases pending with _ | ⟨_ | _ | _, rest⟩
  · exact absurd rfl h
  · next bytes =>
      simp only [recvSome, size]
      split_ifs with hleft
      · simp
      · have hlen : n < bytes.length := by
          rw [List.drop_eq_nil_iff] at hleft
          omega
        simp
        omega
  · simp [recvSome, size]
  · simp [recvSome, size]

end TcpSocket

open TcpSocket

/-! ### One call of `read_frame` -/

/-- The socket at the receive call that ends a call of `read_frame` early. -/
def readFrameStop (s : TcpSocket) : Option TcpSocket :=
  match fill recvSome connectionClosed kHeaderSize s with
  | (.error _, _) => stop recvSome kHeaderSize s
  | (.ok header, s') =>
      if (headerLength header).toNat > kMaxPayload then none
      else stop recvSome (headerLength header).toNat s'

/-- **How `read_frame` ends**: not for want of bytes, and then not with a lost peer; or
at the receive call where it stops, with a lost peer if that one reports zero bytes. `I`
is what the receive calls preserve that hand over data. -/
theorem readFrame_cases {I : TcpSocket → Prop}
    (hdata : ∀ n s got s', 0 < n → recvSome n s = (.ok got, s') → got ≠ [] → I s → I s')
    {s : TcpSocket} (hs : I s) :
    (readFrameStop s = none ∧ I (readFrame s).2 ∧
      ∀ e, (readFrame s).1 = .error e → e.code ≠ .peerLost) ∨
    ∃ n c e, 0 < n ∧ readFrameStop s = some c ∧ I c ∧
      readFrame s = (.error e, (recvSome n c).2) ∧
      ((recvSome n c).1 = .ok [] ∧ e.code = .peerLost ∨ (recvSome n c).1 = .error e) := by
  rw [readFrameStop, readFrame]
  rcases fill_cases connectionClosed hdata kHeaderSize hs with
    ⟨header, s₁, hfill, -, h₁⟩ | ⟨n, c, e, hn, hc, hI, hfill, hlast⟩
  · rw [hfill]
    dsimp only
    split
    · exact .inl ⟨rfl, h₁, fun e he => by cases he; decide⟩
    rcases fill_cases closedMidFrame hdata (headerLength header).toNat h₁ with
      ⟨payload, s₂, hfill₂, hnone, h₂⟩ | ⟨n, c, e, hn, hc, hI, hfill₂, hlast⟩
    · rw [hfill₂]
      exact .inl ⟨hnone, h₂, fun e he => code_ne_of_decode he⟩
    · rw [hfill₂]
      refine .inr ⟨n, c, e, hn, hc, hI, rfl, hlast.imp_left ?_⟩
      rintro ⟨hzero, rfl⟩
      exact ⟨hzero, rfl⟩
  · rw [hfill]
    refine .inr ⟨n, c, e, hn, hc, hI, rfl, hlast.imp_left ?_⟩
    rintro ⟨hzero, rfl⟩
    exact ⟨hzero, rfl⟩

/-- **Both kinds of zero bytes are taken for a lost peer**: `read_frame` reports one
exactly when it stops at the end of the stream or for want of data. -/
theorem readFrame_peerLost_iff (s : TcpSocket) :
    (∃ e, (readFrame s).1 = .error e ∧ e.code = .peerLost) ↔
      ∃ c, readFrameStop s = some c ∧ (c.AtEnd ∨ c.AtIdle) := by
  have hcases := readFrame_cases (I := fun _ => True) (fun _ _ _ _ _ _ _ _ => trivial)
    (s := s) trivial
  constructor
  · rintro ⟨e, herr, hcode⟩
    rcases hcases with ⟨-, -, hnot⟩ | ⟨n, c, e', hn, hstop, -, hread, hlast⟩
    · exact absurd hcode (hnot e herr)
    · rw [hread] at herr
      obtain rfl : e' = e := Except.error.inj herr
      rcases hlast with ⟨hzero, -⟩ | hfail
      · exact ⟨c, hstop, atEnd_or_atIdle hn hzero⟩
      · exact absurd hcode (code_of_recvSome hfail)
  · rintro ⟨c, hstop, hzero⟩
    rcases hcases with ⟨hnone, -⟩ | ⟨n, c', e, -, hstop', -, hread, hlast⟩
    · rw [hnone] at hstop
      cases hstop
    · obtain rfl := Option.some.inj (hstop'.symm.trans hstop)
      rcases hlast with ⟨-, hcode⟩ | hfail
      · exact ⟨e, by rw [hread], hcode⟩
      · rw [recvSome_zero hzero] at hfail
        cases hfail

/-- What every receive call preserves, those preserve that hand over data. -/
lemma invariant_of_data {I : TcpSocket → Prop} (hrecv : ∀ n s, I s → I (recvSome n s).2) (n : Nat)
    (s : TcpSocket) (got : List UInt8) (s' : TcpSocket) (_ : 0 < n)
    (h : recvSome n s = (.ok got, s')) (_ : got ≠ []) (hI : I s) : I s' := by
  have hI' := hrecv n s hI
  rwa [h] at hI'

/-- What every receive call preserves, `read_frame` preserves. -/
lemma readFrame_invariant {I : TcpSocket → Prop} (hrecv : ∀ n s, I s → I (recvSome n s).2)
    {s : TcpSocket} (hs : I s) : I (readFrame s).2 := by
  rcases readFrame_cases (invariant_of_data hrecv) hs with
    ⟨-, hI, -⟩ | ⟨n, c, e, -, -, hI, hread, -⟩
  · exact hI
  · rw [hread]
    exact hrecv n c hI

/-- What every receive call preserves holds at the one where `read_frame` stops. -/
lemma readFrameStop_invariant {I : TcpSocket → Prop} (hrecv : ∀ n s, I s → I (recvSome n s).2)
    {s c : TcpSocket} (hs : I s) (hstop : readFrameStop s = some c) : I c := by
  rcases readFrame_cases (invariant_of_data hrecv) hs with
    ⟨hnone, -⟩ | ⟨n, c', e, -, hstop', hI, -⟩
  · rw [hnone] at hstop
    cases hstop
  · obtain rfl := Option.some.inj (hstop'.symm.trans hstop)
    exact hI

/-- What every receive call preserves, any number of calls of `read_frame` preserve. -/
lemma after_invariant {I : TcpSocket → Prop} (hrecv : ∀ n s, I s → I (recvSome n s).2)
    (n : Nat) {s : TcpSocket} (hs : I s) : I (after n s) := by
  induction n generalizing s with
  | zero => exact hs
  | succ n ih => exact ih (readFrame_invariant hrecv hs)

/-- While there are outcomes to come, `read_frame` takes from them. -/
lemma size_readFrame_lt {s : TcpSocket} (h : s.pending ≠ []) : (readFrame s).2.size < s.size := by
  have hpos : 0 < kHeaderSize := by decide
  have hhead := fill_lt connectionClosed size_recvSome_le hpos (size_recvSome_lt hpos h)
  rw [readFrame]
  rcases hfill : fill recvSome connectionClosed kHeaderSize s with ⟨e | header, s₁⟩ <;>
    rw [hfill] at hhead
  · exact hhead
  · dsimp only
    split
    · exact hhead
    have hbody := fill_invariant (I := fun t => t.size ≤ s₁.size) closedMidFrame
      (fun n t ht => (size_recvSome_le n t).trans ht) (headerLength header).toNat le_rfl
    rcases hfill₂ : fill recvSome closedMidFrame (headerLength header).toNat s₁ with
      ⟨e | payload, s₂⟩ <;> rw [hfill₂] at hbody <;> exact hbody.trans_lt hhead

/-- **No outcome is passed over**: every outcome that is reported as zero bytes ends some
call of `read_frame`. -/
theorem exists_stop_at {s : TcpSocket} {o : RecvOutcome} (ho : o ∈ s.pending)
    (hzero : o.isZero) : ∃ n c, readFrameStop (after n s) = some c ∧ c.pending.head? = some o := by
  induction hsize : s.size using Nat.strong_induction_on generalizing s with
  | _ k ih =>
      subst hsize
      have hlt := size_readFrame_lt (List.ne_nil_of_mem ho)
      have hmem : o ∈ s.zeros := List.mem_filter.mpr ⟨ho, hzero⟩
      -- what is still to come after this call is met by a later one
      have hnext (hin : o ∈ (readFrame s).2.pending) :
          ∃ n c, readFrameStop (after n s) = some c ∧ c.pending.head? = some o := by
        obtain ⟨n, c, hstop, hhead⟩ := ih _ hlt hin rfl
        exact ⟨n + 1, c, hstop, hhead⟩
      rcases readFrame_cases (I := fun t => t.zeros = s.zeros)
        (fun n t got t' _ h hgot hI => (zeros_of_data h hgot).trans hI) (s := s) rfl with
        ⟨-, hI, -⟩ | ⟨n, c, e, hn, hstop, hI, hread, hlast⟩
      · rw [← hI] at hmem
        exact hnext (List.mem_filter.mp hmem).1
      · rw [← hI] at hmem
        have hrest : (readFrame s).2.pending = c.pending.tail := by
          rw [hread]
          refine pending_of_stop hn ?_
          rcases hlast with ⟨hok, -⟩ | herr
          · exact .inl hok
          · exact .inr ⟨e, herr⟩
        have hin := (List.mem_filter.mp hmem).1
        obtain ⟨o', rest, hc⟩ := List.exists_cons_of_ne_nil (List.ne_nil_of_mem hin)
        rw [hc] at hin
        rcases List.mem_cons.mp hin with rfl | hin
        · exact ⟨0, c, hstop, by rw [hc]; rfl⟩
        · refine hnext ?_
          rw [hrest, hc]
          exact hin

/-! ### Want of data -/

/-- The socket without the calls that find no data. -/
def TcpSocket.withoutIdle (s : TcpSocket) : TcpSocket :=
  { s with pending := s.pending.filter (· ≠ .idle) }

/-- The frames among the results of successive calls. -/
def framesOf (results : List (Result Frame)) : List Frame :=
  results.filterMap fun
    | .ok f => some f
    | .error _ => none

/-- Want of data does no harm: a lost peer is reported only at the end of the stream; the
same frames are returned in the end as without it; and no call that it ends has received
anything. -/
structure NoDataHarmless (s : TcpSocket) : Prop where
  peer : ∀ n e, (readFrame (after n s)).1 = .error e → e.code = .peerLost →
    ∃ c, readFrameStop (after n s) = some c ∧ c.AtEnd
  frames : ∃ N, ∀ n, N ≤ n →
    framesOf (readFrames n s).1 = framesOf (readFrames n s.withoutIdle).1
  bytes : ∀ n c, readFrameStop (after n s) = some c → c.AtIdle → (after n s).ahead = []

/-- No receive call brings up a want of data. -/
lemma idle_not_mem_recvSome (n : Nat) (s : TcpSocket) (h : .idle ∉ s.zeros) :
    .idle ∉ (s.recvSome n).2.zeros := fun hin => h (zeros_recvSome_subset n s hin)

/-- A want of data is reported as a lost peer, though the stream has not ended. -/
lemma not_harmless_of_idle {s : TcpSocket} (h : .idle ∈ s.pending) : ¬ NoDataHarmless s := by
  intro hharmless
  obtain ⟨n, c, hstop, hhead⟩ := exists_stop_at h rfl
  obtain ⟨e, herr, hcode⟩ := (readFrame_peerLost_iff (after n s)).mpr ⟨c, hstop, .inr hhead⟩
  obtain ⟨c', hstop', hend⟩ := hharmless.peer n e herr hcode
  obtain rfl := Option.some.inj (hstop'.symm.trans hstop)
  exact AtIdle.not_atEnd hhead hend

/-- **Want of data does no harm exactly where there is none**: on the sockets whose
receive calls never come back for want of data. -/
theorem noDataHarmless_iff (s : TcpSocket) : NoDataHarmless s ↔ .idle ∉ s.pending := by
  refine ⟨fun h hin => not_harmless_of_idle hin h, fun h => ?_⟩
  have hzeros : .idle ∉ s.zeros := fun hin => h (List.mem_filter.mp hin).1
  have hnot (n : Nat) (c : TcpSocket) (hstop : readFrameStop (after n s) = some c) :
      ¬ c.AtIdle := by
    intro hidle
    have hafter := after_invariant idle_not_mem_recvSome n hzeros
    refine readFrameStop_invariant idle_not_mem_recvSome hafter hstop ?_
    exact List.mem_filter.mpr ⟨List.mem_of_mem_head? hidle, rfl⟩
  refine ⟨fun n e herr hcode => ?_, ⟨0, fun n _ => ?_⟩, fun n c hstop hidle => ?_⟩
  · obtain ⟨c, hstop, hend | hidle⟩ := (readFrame_peerLost_iff (after n s)).mp ⟨e, herr, hcode⟩
    · exact ⟨c, hstop, hend⟩
    · exact absurd hidle (hnot n c hstop)
  · have hsame : s.withoutIdle = s := by
      rw [withoutIdle, List.filter_eq_self.mpr]
      intro o ho
      exact decide_eq_true fun heq => h (heq ▸ ho)
    rw [hsame]
  · exact absurd hidle (hnot n c hstop)

/-- A heartbeat in two pieces, with a timeout between them. -/
def interruptedHeartbeat : TcpSocket where
  pending := [.data ((encode ⟨.msgHeartbeat, []⟩).take 10), .idle,
    .data ((encode ⟨.msgHeartbeat, []⟩).drop 10)]

/-- A timeout in the middle of a header does harm. -/
theorem timeout_taken_for_lost_peer : ¬ ∀ s : TcpSocket, NoDataHarmless s := fun h =>
  not_harmless_of_idle (s := interruptedHeartbeat) (by decide) (h _)

end PcieFabric.Wire
