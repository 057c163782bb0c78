import PcieFabric.Wire.NoData

/-!
Reading frames from a socket whose receive calls fail in between (`tcp.cpp`).

* `TcpSocket.behind`: what comes behind the bytes ahead; `TcpSocket.received`: all the
  bytes that arrive before a receive call reports none, across the calls that fail.
* `fill_whole`, `fill_cut`: a receive loop takes what it needs, or all the bytes ahead and
  then the outcome behind them.
* `readFrame_oversize`, `readFrame_whole`, `readFrame_cut`: what `read_frame` takes from
  any socket, and where it leaves it.
-/

namespace PcieFabric.Wire

open ChunkedStream

namespace TcpSocket

/-- The outcomes from the first one on that hands over no bytes. -/
def behindOf : List RecvOutcome → List RecvOutcome
  | .data (_ :: _) :: rest => behindOf rest
  | outcomes => outcomes

/-- The outcomes from the first one on that hands over no bytes. -/
def behind (s : TcpSocket) : List RecvOutcome := behindOf s.pending

/-- The bytes that arrive before a receive call reports zero bytes. Calls that fail do not
end them. -/
def receivedOf : List RecvOutcome → List UInt8
  | .data (b :: bytes) :: rest => b :: bytes ++ receivedOf rest
  | .failed :: rest => receivedOf rest
  | _ => []

/-- The bytes that arrive before a receive call reports zero bytes. -/
def received (s : TcpSocket) : List UInt8 := receivedOf s.pending

variable {s s' : TcpSocket} {n need : Nat}

lemma receivedOf_eq (outcomes : List RecvOutcome) :
    receivedOf outcomes = aheadOf outcomes ++ receivedOf (behindOf outcomes) := by
  induction outcomes with
  | nil => rfl
  | cons o rest ih =>
      cases o with
      | data bytes =>
          cases bytes with
          | nil => rfl
          | cons b bytes =>
              rw [receivedOf, aheadOf, behindOf, ih, List.append_assoc]
      | idle | failed => rfl

/-- What is received is the bytes ahead, and what is received behind them. -/
lemma received_eq (s : TcpSocket) : s.received = s.ahead ++ receivedOf s.behind :=
  receivedOf_eq s.pending

/-- With nothing ahead, the outcome behind comes next. -/
lemma behind_of_dry (h : s.ahead = []) : s.behind = s.pending := by
  obtain ⟨pending, ending⟩ := s
  rcases pending with _ | ⟨o, rest⟩
  · rfl
  · cases o with
    | data bytes =>
        cases bytes with
        | nil => rfl
        | cons b bytes => cases h
    | idle | failed => rfl

/-- Behind the bytes ahead stands a failure, or a call that reports zero bytes. -/
lemma head_behindOf {outcomes rest : List RecvOutcome} {o : RecvOutcome}
    (h : behindOf outcomes = o :: rest) : o = .failed ∨ o.isZero = true := by
  induction outcomes with
  | nil => cases h
  | cons o' outcomes ih =>
      cases o' with
      | data bytes =>
          cases bytes with
          | nil =>
              obtain rfl := (List.cons.inj h).1
              exact .inr rfl
          | cons b bytes => exact ih h
      | idle =>
          obtain rfl := (List.cons.inj h).1
          exact .inr rfl
      | failed =>
          obtain rfl := (List.cons.inj h).1
          exact .inl rfl

/-- A receive call that hands over data leaves what comes behind it. -/
lemma behind_of_data {got : List UInt8} (h : s.recvSome n = (.ok got, s')) (hgot : got ≠ []) :
    s'.behind = s.behind := by
  obtain ⟨pending, ending⟩ := s
  rcases pending with _ | ⟨_ | _ | _, rest⟩
  · cases ending with
    | closed => exact absurd (Except.ok.inj (Prod.mk.inj h).1).symm hgot
    | failed => cases (Prod.mk.inj h).1
  · next bytes =>
      obtain ⟨hread, rfl⟩ := Prod.mk.inj h
      cases bytes with
      | nil =>
          rw [← Except.ok.inj hread, List.take_nil] at hgot
          exact absurd rfl hgot
      | cons b bytes =>
          show behindOf (if (b :: bytes).drop n = [] then rest else _) = behindOf rest
          rcases hleft : (b :: bytes).drop n with _ | ⟨c, left⟩
          · rw [if_pos rfl]
          · rw [if_neg (List.cons_ne_nil c left), behindOf]
  · exact absurd (Except.ok.inj (Prod.mk.inj h).1).symm hgot
  · cases (Prod.mk.inj h).1

/-- What `recv_some` reports for a failed call. -/
def recvFailed : Error := ⟨.networkError, "recv failed"⟩

lemma recvSome_failed (h : s.pending.head? = some .failed) (n : Nat) :
    (s.recvSome n).1 = .error recvFailed := by
  obtain ⟨pending, ending⟩ := s
  obtain ⟨rest, rfl⟩ := List.head?_eq_some_iff.mp h
  rfl

/-! ### A receive loop -/

/-- With enough bytes ahead, a receive loop takes them. -/
lemma fill_whole (closed : Error) (h : need ≤ s.ahead.length) :
    ∃ s', fill recvSome closed need s = (.ok (s.ahead.take need), s') ∧
      s'.ahead = s.ahead.drop need ∧ s'.behind = s.behind := by
  obtain ⟨s', hfill, hahead⟩ := fill_of_le closed serves_recvSome h
  refine ⟨s', hfill, hahead, ?_⟩
  rcases fill_cases (I := fun t => t.behind = s.behind) closed
    (fun n t got t' _ hrecv hgot ht => (behind_of_data hrecv hgot).trans ht) need rfl with
    ⟨got, s₁, hfill₁, -, hbehind⟩ | ⟨n, c, e, -, -, -, herr, -⟩
  · rw [hfill] at hfill₁
    rwa [← (Prod.mk.inj hfill₁).2] at hbehind
  · rw [hfill] at herr
    cases (Prod.mk.inj herr).1

/-- With too few bytes ahead, a receive loop takes them and the outcome behind them, and
reports that one. -/
lemma fill_cut (closed : Error) (h : s.ahead.length < need) :
    ∃ e s', fill recvSome closed need s = (.error e, s') ∧ s'.pending = s.behind.tail ∧
      (s.behind.head? = some .failed → e = recvFailed) ∧
      ∀ o, s.behind.head? = some o → o.isZero → e = closed := by
  rcases fill_cases (I := fun t => t.behind = s.behind) closed
    (fun n t got t' _ hrecv hgot ht => (behind_of_data hrecv hgot).trans ht) need rfl with
    ⟨got, s₁, hok, -, -⟩ | ⟨n, c, e, hn, -, hbehind, herr, hlast⟩
  · obtain ⟨n, s₀, e, -, -, -, herr, -⟩ := fill_of_lt closed serves_recvSome
      (I := fun _ => True) (fun _ _ _ => trivial) trivial h
    rw [hok] at herr
    cases (Prod.mk.inj herr).1
  · -- nothing is ahead where the loop stops
    have hdry : c.ahead = [] := by
      by_contra hne
      obtain ⟨got, s₁, hrecv, hgot, -⟩ := serves_recvSome.serve n c hn hne
      rw [hrecv] at hlast
      rcases hlast with ⟨hzero, -⟩ | hfail
      · exact hgot (Except.ok.inj hzero)
      · cases hfail
    rw [behind_of_dry hdry] at hbehind
    refine ⟨e, (c.recvSome n).2, herr, ?_, ?_, ?_⟩
    · rw [← hbehind]
      refine pending_of_stop hn ?_
      rcases hlast with ⟨hzero, -⟩ | hfail
      · exact .inl hzero
      · exact .inr ⟨e, hfail⟩
    · intro hfailed
      rw [← hbehind] at hfailed
      rw [recvSome_failed hfailed] at hlast
      rcases hlast with ⟨hzero, -⟩ | hfail
      · cases hzero
      · exact (Except.error.inj hfail).symm
    · intro o ho hzero
      rw [← hbehind] at ho
      rcases hlast with ⟨-, rfl⟩ | hfail
      · rfl
      · rw [recvSome_zero (atEnd_or_atIdle_of_head ho hzero)] at hfail
        cases hfail

/-! ### A call of `read_frame` -/

/-- The header that is ahead, and what it declares. -/
private lemma header_ahead (h : kHeaderSize ≤ s.ahead.length) :
    ∃ s', fill recvSome connectionClosed kHeaderSize s = (.ok (s.ahead.take kHeaderSize), s') ∧
      (headerLength (s.ahead.take kHeaderSize)).toNat = declaredLength s.ahead ∧
      s'.ahead = s.ahead.drop kHeaderSize ∧ s'.behind = s.behind := by
  obtain ⟨s', hfill, hahead, hbehind⟩ := fill_whole connectionClosed h
  refine ⟨s', hfill, ?_, hahead, hbehind⟩
  rw [toNat_headerLength, declaredLength_take s.ahead le_rfl]
  exact (List.length_take_of_le h).ge

/-- **Too large a payload** is refused at its header. -/
theorem readFrame_oversize (h : kHeaderSize ≤ s.ahead.length)
    (hover : kMaxPayload < declaredLength s.ahead) :
    ∃ s', readFrame s = (.err .protocolOverflow "payload too large", s') ∧
      s'.ahead = s.ahead.drop kHeaderSize ∧ s'.behind = s.behind := by
  obtain ⟨s', hfill, hlen, hrest⟩ := header_ahead h
  rw [readFrame, hfill]
  dsimp only
  rw [hlen, if_pos hover]
  exact ⟨s', rfl, hrest⟩

/-- **A frame that is ahead** as far as it declares is taken and decoded. -/
theorem readFrame_whole (h : ¬ kMaxPayload < declaredLength s.ahead)
    (hfull : declaredExtent s.ahead ≤ s.ahead.length) :
    ∃ s', readFrame s = (decode (s.ahead.take (declaredExtent s.ahead)), s') ∧
      s'.ahead = s.ahead.drop (declaredExtent s.ahead) ∧ s'.behind = s.behind := by
  rw [declaredExtent] at hfull ⊢
  obtain ⟨s₁, hhead, hlen, hahead₁, hbehind₁⟩ := header_ahead (s := s) (by omega)
  have hbody : declaredLength s.ahead ≤ s₁.ahead.length := by
    rw [hahead₁, List.length_drop]
    omega
  obtain ⟨s₂, hfill, hahead₂, hbehind₂⟩ := fill_whole closedMidFrame hbody
  rw [readFrame, hhead]
  dsimp only
  rw [hlen, if_neg h, hfill, hahead₁]
  refine ⟨s₂, ?_, ?_, hbehind₂.trans hbehind₁⟩
  · rw [List.take_add]
  · rw [hahead₂, hahead₁, List.drop_drop]

/-- **A frame that is cut** by an outcome without bytes is lost with it, and that outcome is
reported. -/
theorem readFrame_cut (h : s.ahead.length < kHeaderSize ∨
      ¬ kMaxPayload < declaredLength s.ahead ∧ s.ahead.length < declaredExtent s.ahead) :
    ∃ e s', readFrame s = (.error e, s') ∧ s'.pending = s.behind.tail ∧
      (s.behind.head? = some .failed → e = recvFailed) ∧
      ∀ o, s.behind.head? = some o → o.isZero → e.code = .peerLost := by
  by_cases hshort : s.ahead.length < kHeaderSize
  · obtain ⟨e, s', hfill, hpending, hfailed, hzero⟩ := fill_cut connectionClosed hshort
    rw [readFrame, hfill]
    refine ⟨e, s', rfl, hpending, hfailed, fun o ho hisZero => ?_⟩
    rw [hzero o ho hisZero]
    rfl
  · obtain ⟨hnot, hcut⟩ := h.resolve_left hshort
    obtain ⟨s₁, hhead, hlen, hahead₁, hbehind₁⟩ := header_ahead (Nat.le_of_not_lt hshort)
    have hbody : s₁.ahead.length < declaredLength s.ahead := by
      rw [hahead₁, List.length_drop]
      rw [declaredExtent] at hcut
      omega
    obtain ⟨e, s', hfill, hpending, hfailed, hzero⟩ := fill_cut closedMidFrame hbody
    rw [hbehind₁] at hpending hfailed hzero
    rw [readFrame, hhead]
    dsimp only
    rw [hlen, if_neg hnot, hfill]
    refine ⟨e, s', rfl, hpending, hfailed, fun o ho hisZero => ?_⟩
    rw [hzero o ho hisZero]
    rfl

end TcpSocket

end PcieFabric.Wire
