import Mathlib.Logic.Relation
import PcieFabric.Wire.Interrupted

/-!
The reading loop of a connection (`Coordinator::handle_connection`).

* `handleConnection`: the calls of `read_frame` that the loop makes. Which frames
  they return does not depend on what the handler does with them, so a round
  takes the result of the handler as given.
* `Follows`: the places of a stream reached by declared extents. `NoSmuggling`: on this
  connection, whatever the handler does, a header is read at such places only.
* `Reaches`: where a loop gets that is not stopped; `noSmuggling_iff_reaches`.
* `Resumes`: where the loop takes up reading after receive errors.
* `noSmuggling_iff`: nothing is smuggled exactly when every run of bytes between receive
  errors that holds a header starts at such a place, and has no header on it that declares
  too large a payload with a header's worth of bytes of the run behind it.
-/

namespace PcieFabric.Coordinator

open Wire TcpSocket

/-- What a round of the loop depends on besides the socket. -/
structure Round where
  /-- `stop_` at the start of the round. -/
  stop : Bool := false
  /-- What `handle_frame` returns, where it is called. -/
  handled : Result Unit := .ok ()

/-- A call of `read_frame`: the socket in front of it and what it returns. A
frame that is returned is passed to `handle_frame`. -/
structure FrameRead where
  socket : TcpSocket
  result : Result Frame

/-- The loop goes on after a round, unless the peer is lost. -/
def goesOn (read : Result Frame) (handled : Result Unit) : Bool :=
  match read, handled with
  | .error e, _ => decide (e.code ≠ .peerLost)
  | .ok _, .error e => decide (e.code ≠ .peerLost)
  | .ok _, .ok _ => true

/-- The loop of `Coordinator::handle_connection`, as the calls of `read_frame`
it makes in these rounds. -/
def handleConnection : List Round → TcpSocket → List FrameRead
  | [], _ => []
  | round :: rounds, s =>
      if round.stop then []
      else
        let (r, s') := readFrame s
        ⟨s, r⟩ :: if goesOn r round.handled then handleConnection rounds s' else []

/-- The bytes of a whole header are there, so the call takes them for one. -/
def FrameRead.TakesHeader (call : FrameRead) : Prop := kHeaderSize ≤ call.socket.ahead.length

/-- `b` is what follows the frame that the first header of `a` declares. -/
def NextDeclared (a b : List UInt8) : Prop :=
  kHeaderSize ≤ a.length ∧ b = a.drop (declaredExtent a)

/-- `rest` starts where the declared extents of the frames before it end. -/
abbrev Follows (stream rest : List UInt8) : Prop := Relation.ReflTransGen NextDeclared stream rest

/-- On this connection no bytes inside a frame are taken for a frame: wherever a header is
read or a frame is returned, the bytes still to be received start where the declared extents
of the frames before them end. -/
def NoSmuggling (s : TcpSocket) : Prop :=
  ∀ rounds, ∀ call ∈ handleConnection rounds s,
    call.TakesHeader ∨ call.result.isOk → Follows s.received call.socket.received

/-- No header reached by declared extents declares too large a payload while
another header's worth of bytes stands behind it. -/
def NoOversize (bytes : List UInt8) : Prop :=
  ∀ rest, Follows bytes rest → kMaxPayload < declaredLength rest →
    rest.length < kHeaderSize + kHeaderSize

/-- `b` comes behind the next receive error, with no call before it that reports zero
bytes. -/
def NextError (a b : List RecvOutcome) : Prop := behindOf a = .failed :: b

/-- `rest` is all that comes, or what comes behind one of the receive errors. -/
abbrev Resumes (pending rest : List RecvOutcome) : Prop :=
  Relation.ReflTransGen NextError pending rest

/-- What arrives from the start on, and behind each receive error: if it holds a header, it
starts where a frame of the stream starts, and no header on it declares too large a payload
with another header's worth of it behind. -/
structure KeepsPlace (s : TcpSocket) : Prop where
  placed : ∀ rest, Resumes s.pending rest → kHeaderSize ≤ (aheadOf rest).length →
    Follows s.received (receivedOf rest)
  bounded : ∀ rest, Resumes s.pending rest → NoOversize (aheadOf rest)

variable {s t t' : TcpSocket}

/-! ### The rounds -/

/-- The first call of a run that is not stopped. -/
lemma handleConnection_cons (handled : Result Unit) (rounds : List Round) (s : TcpSocket) :
    handleConnection (⟨false, handled⟩ :: rounds) s =
      ⟨s, (readFrame s).1⟩ :: if goesOn (readFrame s).1 handled then
        handleConnection rounds (readFrame s).2 else [] := rfl

/-- A round after which the loop may go on. -/
def Goes (t t' : TcpSocket) : Prop :=
  goesOn (readFrame t).1 (.ok ()) = true ∧ t' = (readFrame t).2

/-- The loop gets there, if it is not stopped. -/
abbrev Reaches (t t' : TcpSocket) : Prop := Relation.ReflTransGen Goes t t'

/-- A round that goes on goes on with a handler that loses nobody. -/
lemma goesOn_mono {read : Result Frame} {handled : Result Unit} (h : goesOn read handled = true) :
    goesOn read (.ok ()) = true := by
  cases read with
  | error e => exact h
  | ok f => rfl

/-- The calls that the loop may make are those of the sockets that it reaches. -/
lemma exists_mem_handleConnection_iff {call : FrameRead} :
    (∃ rounds, call ∈ handleConnection rounds s) ↔
      ∃ t, Reaches s t ∧ call = ⟨t, (readFrame t).1⟩ := by
  constructor
  · rintro ⟨rounds, hcall⟩
    induction rounds generalizing s with
    | nil => cases hcall
    | cons round rounds ih =>
        obtain ⟨stop, handled⟩ := round
        cases stop with
        | true => cases hcall
        | false =>
            rw [handleConnection_cons] at hcall
            rcases List.mem_cons.mp hcall with rfl | hcall
            · exact ⟨s, .refl, rfl⟩
            · split at hcall
              next hgoes =>
                obtain ⟨t, hreach, heq⟩ := ih hcall
                exact ⟨t, .head ⟨goesOn_mono hgoes, rfl⟩ hreach, heq⟩
              · cases hcall
  · rintro ⟨t, hreach, rfl⟩
    induction hreach using Relation.ReflTransGen.head_induction_on with
    | refl => exact ⟨[{}], List.mem_cons_self⟩
    | head hgoes _ ih =>
        obtain ⟨hgoes, rfl⟩ := hgoes
        obtain ⟨rounds, hcall⟩ := ih
        refine ⟨{} :: rounds, ?_⟩
        rw [handleConnection_cons, if_pos hgoes]
        exact List.mem_cons_of_mem _ hcall

/-- A frame is returned only where a header is read. -/
lemma takesHeader_of_isOk (h : (readFrame s).1.isOk) : kHeaderSize ≤ s.ahead.length := by
  by_contra hshort
  obtain ⟨e, s', hread, -⟩ := readFrame_cut (.inl (Nat.lt_of_not_le hshort))
  rw [hread] at h
  cases h

lemma noSmuggling_iff_reaches : NoSmuggling s ↔
    ∀ t, Reaches s t → kHeaderSize ≤ t.ahead.length → Follows s.received t.received := by
  constructor
  · intro h t hreach hhead
    obtain ⟨rounds, hcall⟩ := exists_mem_handleConnection_iff.mpr ⟨t, hreach, rfl⟩
    exact h rounds _ hcall (.inl hhead)
  · intro h rounds call hcall htakes
    obtain ⟨t, hreach, rfl⟩ := exists_mem_handleConnection_iff.mp ⟨rounds, hcall⟩
    refine h t hreach ?_
    rcases htakes with hhead | hok
    · exact hhead
    · exact takesHeader_of_isOk hok

/-! ### Places on a stream -/

/-- What a header declares stands in the header, whatever follows. -/
lemma declaredExtent_append {bytes : List UInt8} (h : kHeaderSize ≤ bytes.length)
    (more : List UInt8) : declaredExtent (bytes ++ more) = declaredExtent bytes := by
  rw [declaredExtent, declaredExtent, ← declaredLength_take (bytes ++ more) le_rfl,
    List.take_append_of_le_length h, declaredLength_take bytes le_rfl]

/-- Behind a frame that has arrived whole, the stream is at its next place. -/
lemma nextDeclared_received (hhead : kHeaderSize ≤ t.ahead.length)
    (hfull : declaredExtent t.ahead ≤ t.ahead.length)
    (hahead : t'.ahead = t.ahead.drop (declaredExtent t.ahead)) (hbehind : t'.behind = t.behind) :
    NextDeclared t.received t'.received := by
  rw [received_eq, received_eq, hahead, hbehind]
  refine ⟨?_, ?_⟩
  · rw [List.length_append]
    omega
  · rw [declaredExtent_append hhead, List.drop_append_of_le_length hfull]

lemma length_le_of_follows {a b : List UInt8} (h : Follows a b) : b.length ≤ a.length := by
  induction h with
  | refl => exact le_rfl
  | tail _ hnext ih =>
      rw [hnext.2, List.length_drop]
      omega

/-- Two places of a stream: the later one is no nearer than the extent of the other. -/
lemma declaredExtent_le_of_follows {stream a b : List UInt8} (ha : Follows stream a)
    (hb : Follows stream b) (hlt : b.length < a.length) :
    b.length ≤ a.length - declaredExtent a := by
  have huniq : Relator.RightUnique NextDeclared := fun x y z hy hz => hy.2.trans hz.2.symm
  rcases Relation.ReflTransGen.total_of_right_unique huniq ha hb with hab | hba
  · rcases hab.cases_head with rfl | ⟨c, ⟨-, rfl⟩, hcb⟩
    · omega
    · exact (length_le_of_follows hcb).trans_eq List.length_drop
  · have := length_le_of_follows hba
    omega

/-! ### A connection that keeps its place -/

/-- Where the loop stands on a connection that keeps its place: it may read a header only at
a place of the stream, in front of no header that declares too much. -/
structure InPlace (s t : TcpSocket) : Prop where
  origin : ∃ rest, Resumes s.pending rest ∧ t.behind = behindOf rest
  header : kHeaderSize ≤ t.ahead.length → Follows s.received t.received ∧ NoOversize t.ahead

/-- At the start, and behind a receive error. -/
lemma KeepsPlace.inPlace (h : KeepsPlace s) (ht : Resumes s.pending t.pending) : InPlace s t :=
  ⟨⟨t.pending, ht, rfl⟩, fun hhead => ⟨h.placed _ ht hhead, h.bounded _ ht⟩⟩

/-- **One round** keeps its place. -/
lemma InPlace.goes (hs : KeepsPlace s) (h : InPlace s t) (hgoes : Goes t t') : InPlace s t' := by
  obtain ⟨hgoes, rfl⟩ := hgoes
  obtain ⟨rest, hrest, hbehind⟩ := h.origin
  by_cases hcut : t.ahead.length < kHeaderSize ∨
      ¬ kMaxPayload < declaredLength t.ahead ∧ t.ahead.length < declaredExtent t.ahead
  · obtain ⟨e, t', hread, hpending, -, hzero⟩ := readFrame_cut hcut
    rw [hread] at hgoes ⊢
    cases hnext : t.behind with
    | nil =>
        rw [hnext] at hpending
        have hdry : t'.ahead = [] := by rw [ahead, hpending]; rfl
        refine ⟨⟨rest, hrest, ?_⟩, fun hhead => ?_⟩
        · rw [← hbehind, hnext, TcpSocket.behind, hpending]
          rfl
        · rw [hdry] at hhead
          exact absurd hhead (by decide)
    | cons o later =>
        rw [hnext] at hpending hzero hbehind
        rcases head_behindOf hbehind.symm with rfl | hisZero
        · exact hs.inPlace (hpending ▸ hrest.tail hbehind.symm)
        · exact absurd (hzero o rfl hisZero) (of_decide_eq_true hgoes)
  · push Not at hcut
    obtain ⟨hhead, hfull⟩ := hcut
    obtain ⟨hplace, hno⟩ := h.header hhead
    by_cases hover : kMaxPayload < declaredLength t.ahead
    · obtain ⟨t', hread, hahead, hbehind'⟩ := readFrame_oversize hhead hover
      rw [hread]
      refine ⟨⟨rest, hrest, hbehind'.trans hbehind⟩, fun hhead' => ?_⟩
      -- the bytes behind the header are too few for another one
      have hfew := hno t.ahead .refl hover
      rw [hahead, List.length_drop] at hhead'
      omega
    · obtain ⟨t', hread, hahead, hbehind'⟩ :=
        readFrame_whole hover (hfull (Nat.le_of_not_lt hover))
      rw [hread]
      have hextent := hfull (Nat.le_of_not_lt hover)
      refine ⟨⟨rest, hrest, hbehind'.trans hbehind⟩, fun hhead' => ⟨?_, ?_⟩⟩
      · exact hplace.tail (nextDeclared_received hhead hextent hahead hbehind')
      · intro later hlater
        rw [hahead] at hlater
        exact hno later (.head ⟨hhead, rfl⟩ hlater)

lemma KeepsPlace.noSmuggling (h : KeepsPlace s) : NoSmuggling s := by
  rw [noSmuggling_iff_reaches]
  intro t hreach
  have hplace : InPlace s t := by
    induction hreach with
    | refl => exact h.inPlace .refl
    | tail _ hgoes ih => exact ih.goes h hgoes
  exact fun hhead => (hplace.header hhead).1

/-! ### A connection that loses its place -/

/-- A decoded frame goes on, and so does one that is refused. -/
lemma goesOn_decode (bytes : List UInt8) : goesOn (decode bytes) (.ok ()) = true := by
  cases hdec : decode bytes with
  | ok f => rfl
  | error e => exact decide_eq_true (code_ne_of_decode hdec)

/-- Behind a frame that has arrived whole the loop reads on. -/
lemma goes_whole (h : ¬ kMaxPayload < declaredLength t.ahead)
    (hfull : declaredExtent t.ahead ≤ t.ahead.length) : ∃ t', Goes t t' ∧
      t'.ahead = t.ahead.drop (declaredExtent t.ahead) ∧ t'.behind = t.behind := by
  obtain ⟨t', hread, hrest⟩ := readFrame_whole h hfull
  exact ⟨t', ⟨by rw [hread]; exact goesOn_decode _, by rw [hread]⟩, hrest⟩

/-- Behind a header that declares too large a payload the loop reads on. -/
lemma goes_oversize (h : kHeaderSize ≤ t.ahead.length)
    (hover : kMaxPayload < declaredLength t.ahead) :
    ∃ t', Goes t t' ∧ t'.ahead = t.ahead.drop kHeaderSize ∧ t'.behind = t.behind := by
  obtain ⟨t', hread, hrest⟩ := readFrame_oversize h hover
  exact ⟨t', ⟨by rw [hread]; rfl, by rw [hread]⟩, hrest⟩

/-- The loop gets behind the next receive error. -/
lemma reaches_error {later : List RecvOutcome} (h : t.behind = .failed :: later) :
    ∃ t', Reaches t t' ∧ t'.pending = later := by
  induction hsize : t.ahead.length using Nat.strong_induction_on generalizing t with
  | _ n ih =>
      subst hsize
      have hhead : 0 < kHeaderSize := by decide
      by_cases hcut : t.ahead.length < kHeaderSize ∨
          ¬ kMaxPayload < declaredLength t.ahead ∧ t.ahead.length < declaredExtent t.ahead
      · obtain ⟨e, t', hread, hpending, hfailed, -⟩ := readFrame_cut hcut
        rw [h] at hpending hfailed
        refine ⟨t', .single ⟨?_, by rw [hread]⟩, hpending⟩
        rw [hread, hfailed rfl]
        rfl
      push Not at hcut
      -- the loop takes some of the bytes ahead, and reads on
      have hgoes : ∃ t', Goes t t' ∧ t'.ahead.length < t.ahead.length ∧ t'.behind = t.behind := by
        by_cases hover : kMaxPayload < declaredLength t.ahead
        · obtain ⟨t', hgoes, hahead, hbehind⟩ := goes_oversize hcut.1 hover
          refine ⟨t', hgoes, ?_, hbehind⟩
          rw [hahead, List.length_drop]
          omega
        · obtain ⟨t', hgoes, hahead, hbehind⟩ :=
            goes_whole hover (hcut.2 (Nat.le_of_not_lt hover))
          refine ⟨t', hgoes, ?_, hbehind⟩
          rw [hahead, List.length_drop, declaredExtent]
          omega
      obtain ⟨t₁, hgoes, hlt, hbehind⟩ := hgoes
      obtain ⟨t', hreach, hpending⟩ := ih _ hlt (hbehind.trans h) rfl
      exact ⟨t', hreach.head hgoes, hpending⟩

/-- The loop takes up reading behind each receive error. -/
lemma reaches_resumes {rest : List RecvOutcome} (h : Resumes s.pending rest) :
    ∃ t, Reaches s t ∧ t.pending = rest := by
  induction h with
  | refl => exact ⟨s, .refl, rfl⟩
  | tail _ hnext ih =>
      obtain ⟨t, hreach, rfl⟩ := ih
      obtain ⟨t', hreach', hpending⟩ := reaches_error hnext
      exact ⟨t', hreach.trans hreach', hpending⟩

/-- A header that is read in its place and declares too much has no header's worth of bytes
behind it. -/
lemma NoSmuggling.length_lt (h : NoSmuggling s) (hreach : Reaches s t)
    (hover : kMaxPayload < declaredLength t.ahead) :
    t.ahead.length < kHeaderSize + kHeaderSize := by
  rw [noSmuggling_iff_reaches] at h
  by_contra hmore
  have hpos : 0 < kHeaderSize := by decide
  obtain ⟨t', hgoes, hahead, hbehind⟩ := goes_oversize (by omega) hover
  have hlen : t'.ahead.length = t.ahead.length - kHeaderSize := by rw [hahead, List.length_drop]
  have hplace := h t hreach (by omega)
  have hplace' := h t' (hreach.tail hgoes) (by omega)
  have hmax : kHeaderSize ≤ kMaxPayload := by decide
  -- the next header is read inside the payload that this one declares
  have hlt : t'.received.length < t.received.length := by
    rw [received_eq, received_eq, hbehind, List.length_append, List.length_append]
    omega
  have hfar := declaredExtent_le_of_follows hplace hplace' hlt
  have hextent : declaredExtent t.received = declaredExtent t.ahead := by
    rw [received_eq]
    exact declaredExtent_append (by omega) _
  rw [hextent, declaredExtent, received_eq, received_eq, hbehind, List.length_append,
    List.length_append] at hfar
  omega

/-- Every header that a run of bytes reaches by declared extents is read. -/
lemma NoSmuggling.noOversize (h : NoSmuggling s) (hreach : Reaches s t) : NoOversize t.ahead := by
  intro rest hfollows
  generalize hbytes : t.ahead = bytes at hfollows
  induction hfollows using Relation.ReflTransGen.head_induction_on generalizing t with
  | refl =>
      subst hbytes
      exact h.length_lt hreach
  | @head bytes _ hnext hrest ih =>
      subst hbytes
      obtain ⟨hhead, rfl⟩ := hnext
      by_cases hfull : declaredExtent t.ahead ≤ t.ahead.length
      · have hover : ¬ kMaxPayload < declaredLength t.ahead := by
          intro hover
          have hlt := h.length_lt hreach hover
          have hmax : kHeaderSize ≤ kMaxPayload := by decide
          rw [declaredExtent] at hfull
          omega
        obtain ⟨t', hgoes, hahead, -⟩ := goes_whole hover hfull
        exact ih (hreach.tail hgoes) hahead
      · -- the frame reaches behind the end of the run, so nothing follows it
        rw [List.drop_of_length_le (Nat.le_of_not_le hfull)] at hrest
        have hnil := length_le_of_follows hrest
        intro _
        rw [List.length_nil] at hnil
        have : 0 < kHeaderSize := by decide
        omega

lemma NoSmuggling.keepsPlace (h : NoSmuggling s) : KeepsPlace s := by
  constructor
  · intro rest hrest hhead
    obtain ⟨t, hreach, rfl⟩ := reaches_resumes hrest
    exact noSmuggling_iff_reaches.mp h t hreach hhead
  · intro rest hrest
    obtain ⟨t, hreach, rfl⟩ := reaches_resumes hrest
    exact h.noOversize hreach

/-- **Nothing is smuggled**, whatever the receive calls come back with, exactly on the
connections that keep their place. -/
theorem noSmuggling_iff (s : TcpSocket) : NoSmuggling s ↔ KeepsPlace s :=
  ⟨NoSmuggling.keepsPlace, KeepsPlace.noSmuggling⟩

/-- A header that declares a payload of `2^64 - 1` bytes. -/
def hugeHeader : List UInt8 := List.flatten [
  kMagic, Writer.u32 kVersion, Writer.u8 MsgKind.msgInventory.code,
  Writer.u64 0xFFFFFFFFFFFFFFFF, Writer.u32 0]

/-- A heartbeat behind that header. -/
def hugeFrame : TcpSocket := { pending := [.data (hugeHeader ++ encode ⟨.msgHeartbeat, []⟩)] }

/-- An inventory frame with a heartbeat for a payload, and a receive error between its header
and its payload. -/
def brokenFrame : TcpSocket where
  pending := [.data ((encode ⟨.msgInventory, encode ⟨.msgHeartbeat, []⟩⟩).take kHeaderSize),
    .failed, .data (encode ⟨.msgHeartbeat, []⟩)]

/-- A heartbeat that is ahead whole is returned. -/
lemma readFrame_heartbeat (h : t.ahead = encode ⟨.msgHeartbeat, []⟩) :
    (readFrame t).1 = .ok ⟨.msgHeartbeat, []⟩ := by
  obtain ⟨t', hread, -⟩ := readFrame_whole (s := t) (by rw [h]; decide +kernel)
    (by rw [h]; decide +kernel)
  refine (congrArg Prod.fst hread).trans ?_
  dsimp only
  rw [h]
  decide +kernel

/-- A heartbeat inside a payload is passed to the handler: in one that a refused header
declares, and in one whose frame is lost with a receive error. -/
theorem smuggled_heartbeat :
    (¬ NoSmuggling hugeFrame ∧ (handleConnection [{}, {}] hugeFrame).map FrameRead.result =
        [.err .protocolOverflow "payload too large", .ok ⟨.msgHeartbeat, []⟩]) ∧
      ¬ NoSmuggling brokenFrame ∧ (handleConnection [{}, {}] brokenFrame).map FrameRead.result =
        [.err .networkError "recv failed", .ok ⟨.msgHeartbeat, []⟩] := by
  refine ⟨⟨fun h => ?_, ?_⟩, fun h => ?_, ?_⟩
  · have hfew := h.keepsPlace.bounded _ .refl _ .refl (by decide +kernel)
    revert hfew
    decide +kernel
  · obtain ⟨t, hread, hahead, -⟩ := readFrame_oversize (s := hugeFrame) (by decide +kernel)
      (by decide +kernel)
    have hnext := readFrame_heartbeat (hahead.trans (by decide +kernel))
    rw [handleConnection_cons, hread]
    show _ :: (handleConnection [{}] t).map FrameRead.result = _
    rw [handleConnection_cons, hnext]
    rfl
  · have hplace := h.keepsPlace.placed [.data (encode ⟨.msgHeartbeat, []⟩)] (.single rfl)
      (by decide +kernel)
    have hfar := declaredExtent_le_of_follows .refl hplace (by decide +kernel)
    revert hfar
    decide +kernel
  · obtain ⟨e, t, hread, hpending, hfailed, -⟩ := readFrame_cut (s := brokenFrame)
      (.inr (by decide +kernel))
    have hahead : t.ahead = encode ⟨.msgHeartbeat, []⟩ := by
      rw [ahead, hpending]
      decide +kernel
    rw [handleConnection_cons, hread, hfailed (by decide +kernel)]
    show _ :: (handleConnection [{}] t).map FrameRead.result = _
    rw [handleConnection_cons, readFrame_heartbeat hahead]
    rfl

end PcieFabric.Coordinator
