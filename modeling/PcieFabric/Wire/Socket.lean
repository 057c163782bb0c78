import PcieFabric.Lib.ChunkedStream
import PcieFabric.Wire.Framing

/-!
Receiving frames from a socket (`tcp.hpp`, `tcp.cpp`).

* `TcpSocket`: the outcomes of the `recv` calls to come, as data that arrives in
  pieces, and how the connection ends.
* `recvSome`, `readFrame`: the functions of the source; `readFrames` calls
  `readFrame` again and again.
* `TcpSocket.ahead`: the bytes that arrive before a call comes back without any.
* `TcpSocket.Holds.readFrame`: what `readFrame` makes of the bytes
  ahead, however they are cut.
* `readFrames_chunks`: a sequence of encoded frames, cut into any pieces, is read
  back as that sequence.
-/

namespace PcieFabric.Wire

/-- What a `recv` call comes back with. -/
inductive RecvOutcome where
  /-- These bytes have arrived; a call takes what it has room for. -/
  | data (bytes : List UInt8)
  /-- `WSAETIMEDOUT` or `WSAEWOULDBLOCK`. -/
  | idle
  /-- Another socket error. -/
  | failed
deriving DecidableEq, Repr

/-- What every `recv` call comes back with in the end. -/
inductive StreamEnd where
  /-- The orderly end of the stream. -/
  | closed
  /-- A socket error, as on a reset connection. -/
  | failed
deriving DecidableEq, Repr

/-- An open `TcpSocket`, as its receiving side. -/
structure TcpSocket where
  pending : List RecvOutcome
  ending : StreamEnd := .closed
deriving DecidableEq, Repr

namespace TcpSocket

/-- `TcpSocket::recv_some`. Data that does not fit stays for the next call. -/
def recvSome (n : Nat) (s : TcpSocket) : Result (List UInt8) × TcpSocket :=
  match s.pending with
  | [] =>
      match s.ending with
      | .closed => (.ok [], s)
      | .failed => (.err .networkError "recv failed", s)
  | .data bytes :: rest =>
      let left := bytes.drop n
      (.ok (bytes.take n), { s with pending := if left = [] then rest else .data left :: rest })
  | .idle :: rest => (.ok [], { s with pending := rest })
  | .failed :: rest => (.err .networkError "recv failed", { s with pending := rest })

/-- The bytes that arrive before a call comes back without any. -/
def aheadOf : List RecvOutcome → List UInt8
  | .data (b :: bytes) :: rest => b :: bytes ++ aheadOf rest
  | _ => []

/-- The bytes that arrive before a call comes back without any. -/
def ahead (s : TcpSocket) : List UInt8 := aheadOf s.pending

/-- A connection on which these pieces arrive. -/
def ofChunks (chunks : List (List UInt8)) (ending : StreamEnd) : TcpSocket :=
  { pending := chunks.map .data, ending }

lemma ahead_ofChunks {chunks : List (List UInt8)} (h : ∀ c ∈ chunks, c ≠ []) (ending : StreamEnd) :
    (ofChunks chunks ending).ahead = chunks.flatten := by
  show aheadOf (chunks.map .data) = chunks.flatten
  induction chunks with
  | nil => rfl
  | cons c chunks ih =>
      obtain ⟨hc, hchunks⟩ := List.forall_mem_cons.mp h
      cases c with
      | nil => exact absurd rfl hc
      | cons b c => rw [List.map_cons, aheadOf, ih hchunks, List.flatten_cons]

/-- **`recv_some` serves the bytes ahead.** -/
theorem serves_recvSome : ChunkedStream.Serves recvSome ahead where
  serve := by
    rintro n ⟨pending, ending⟩ hn hne
    rcases pending with _ | ⟨_ | _ | _, rest⟩
    · exact absurd rfl hne
    · next bytes =>
        cases bytes with
        | nil => exact absurd rfl hne
        | cons b bytes =>
            refine ⟨_, _, rfl, ?_, List.length_take_le _ _, ?_⟩
            · simp [hn.ne']
            · show b :: bytes ++ aheadOf rest = _
              rcases h : (b :: bytes).drop n with _ | ⟨c, left⟩
              · rw [if_pos rfl, List.take_of_length_le (List.drop_eq_nil_iff.mp h)]
                rfl
              · rw [if_neg (List.cons_ne_nil c left)]
                show _ = (b :: bytes).take n ++ (c :: left ++ aheadOf rest)
                rw [← h, ← List.append_assoc, List.take_append_drop]
    · exact absurd rfl hne
    · exact absurd rfl hne
  dry := by
    rintro n ⟨pending, ending⟩ got hdry hgot
    rcases pending with _ | ⟨_ | _ | _, rest⟩
    · cases ending with
      | closed => exact (Except.ok.inj hgot).symm
      | failed => cases hgot
    · next bytes =>
        cases bytes with
        | nil => simpa [recvSome] using hgot.symm
        | cons b bytes => cases hdry
    · exact (Except.ok.inj hgot).symm
    · cases hgot

end TcpSocket

open TcpSocket ChunkedStream

/-! ### `read_frame` -/

/-- The payload length that stands in a header, put together by hand. -/
def headerLength (header : List UInt8) : UInt64 :=
  ⟨(List.range 8).foldl (fun len i => LittleEndian.place len i (header.getD (9 + i) 0)) 0⟩

/-- The end of the stream in the first loop of `read_frame`. -/
def connectionClosed : Error := ⟨.peerLost, "connection closed"⟩

/-- The end of the stream in the second loop of `read_frame`. -/
def closedMidFrame : Error := ⟨.peerLost, "connection closed mid-frame"⟩

/-- `read_frame`. -/
def readFrame (s : TcpSocket) : Result Frame × TcpSocket :=
  match fill recvSome connectionClosed kHeaderSize s with
  | (.error e, s') => (.error e, s')
  | (.ok header, s') =>
      let plen := (headerLength header).toNat
      if plen > kMaxPayload then (.err .protocolOverflow "payload too large", s')
      else
        match fill recvSome closedMidFrame plen s' with
        | (.error e, s'') => (.error e, s'')
        | (.ok payload, s'') => (decode (header ++ payload), s'')

/-- Successive calls of `read_frame`. -/
def readFrames : Nat → TcpSocket → List (Result Frame) × TcpSocket
  | 0, s => ([], s)
  | n + 1, s =>
      let (r, s') := readFrame s
      let (rs, s'') := readFrames n s'
      (r :: rs, s'')

/-- The payload length that bytes declare which start with a header. -/
def declaredLength (bytes : List UInt8) : Nat := LittleEndian.value ((bytes.drop 9).take 8)

/-- How far a frame reaches that starts here, as its header declares. -/
def declaredExtent (bytes : List UInt8) : Nat := kHeaderSize + declaredLength bytes

/-- The loop over the header bytes reads the declared length. -/
lemma toNat_headerLength {header : List UInt8} (h : kHeaderSize ≤ header.length) :
    (headerLength header).toNat = declaredLength header := by
  have hlen : 8 ≤ (header.drop 9).length := by
    rw [List.length_drop]
    simp only [kHeaderSize] at h
    omega
  have hget (i : Nat) : header.getD (9 + i) 0 = (header.drop 9).getD i 0 := by
    rw [List.getD_eq_getElem?_getD, List.getD_eq_getElem?_getD, List.getElem?_drop]
  simp only [headerLength, hget]
  exact LittleEndian.toNat_foldl_place (w := 64) 8 hlen (by omega)

/-- The declared length stands in the header alone. -/
lemma declaredLength_take (bytes : List UInt8) {n : Nat} (h : kHeaderSize ≤ n) :
    declaredLength (bytes.take n) = declaredLength bytes := by
  simp only [kHeaderSize] at h
  rw [declaredLength, declaredLength, List.drop_take, List.take_take, min_eq_left (by omega)]

/-- An encoded frame declares the length of its payload. -/
lemma declaredLength_encode_of_lt {f : Frame} (h : f.payload.length < 2 ^ 64) (rest : List UInt8) :
    declaredLength (encode f ++ rest) = f.payload.length := by
  have hsplit : encode f ++ rest = (kMagic ++ Writer.u32 kVersion ++ Writer.u8 f.kind.code) ++
      (Writer.u64 (UInt64.ofNat f.payload.length) ++
        (Writer.u32 (crc32 f.payload crc32Seed) ++ f.payload ++ rest)) := by
    simp [encode]
  have hnine : (kMagic ++ Writer.u32 kVersion ++ Writer.u8 f.kind.code).length = 9 := by
    simp [kMagic, ascii, Writer.u32, Writer.u8]
  have hlen : (UInt64.ofNat f.payload.length).toBitVec.toNat = f.payload.length :=
    UInt64.toNat_ofNat_of_lt' h
  rw [declaredLength, hsplit, List.drop_left' hnine, List.take_left' (by simp [Writer.u64]),
    Writer.u64, LittleEndian.value_bytes, hlen]
  exact Nat.mod_eq_of_lt h

lemma declaredLength_encode {f : Frame} (h : f.Legal) (rest : List UInt8) :
    declaredLength (encode f ++ rest) = f.payload.length :=
  declaredLength_encode_of_lt (h.payload_le.trans_lt (by decide)) rest

/-! ### Reading from the bytes of a stream -/

/-- What a receive loop with this error reports at the end of the stream. -/
def StreamEnd.error (ending : StreamEnd) (closed : Error) : Error :=
  match ending with
  | .closed => closed
  | .failed => ⟨.networkError, "recv failed"⟩

/-- Reading a frame from the bytes of a stream that is all there: the result and
the bytes left. -/
def nextFrame (ending : StreamEnd) (bytes : List UInt8) : Result Frame × List UInt8 :=
  if bytes.length < kHeaderSize then (.error (ending.error connectionClosed), [])
  else if kMaxPayload < declaredLength bytes then
    (.err .protocolOverflow "payload too large", bytes.drop kHeaderSize)
  else if bytes.length < declaredExtent bytes then (.error (ending.error closedMidFrame), [])
  else (decode (bytes.take (declaredExtent bytes)), bytes.drop (declaredExtent bytes))

/-- These bytes are still to come on the socket, in pieces, and then the stream
ends. -/
structure TcpSocket.Holds (s : TcpSocket) (bytes : List UInt8) (ending : StreamEnd) : Prop where
  pieces : ∀ o ∈ s.pending, ∃ piece, piece ≠ [] ∧ o = .data piece
  ending_eq : s.ending = ending
  ahead_eq : s.ahead = bytes

lemma TcpSocket.holds_ofChunks {chunks : List (List UInt8)} (h : ∀ c ∈ chunks, c ≠ [])
    (ending : StreamEnd) : (ofChunks chunks ending).Holds chunks.flatten ending where
  pieces o ho := by
    obtain ⟨c, hc, rfl⟩ := List.mem_map.mp ho
    exact ⟨c, h c hc, rfl⟩
  ending_eq := rfl
  ahead_eq := ahead_ofChunks h ending

/-- Any bytes can be still to come. -/
lemma TcpSocket.exists_holds (bytes : List UInt8) (ending : StreamEnd) :
    ∃ s : TcpSocket, s.Holds bytes ending := by
  cases bytes with
  | nil => exact ⟨_, holds_ofChunks (List.forall_mem_nil _) ending⟩
  | cons b bytes =>
      have hholds := holds_ofChunks
        (List.forall_mem_singleton.mpr (List.cons_ne_nil b bytes)) ending
      rw [List.flatten_singleton] at hholds
      exact ⟨_, hholds⟩

section

variable {s : TcpSocket} {bytes : List UInt8} {ending : StreamEnd}

/-- A receive call leaves pieces that are not empty, and the end. -/
lemma TcpSocket.pieces_recvSome (n : Nat) (s : TcpSocket)
    (h : (∀ o ∈ s.pending, ∃ piece, piece ≠ [] ∧ o = .data piece) ∧ s.ending = ending) :
    (∀ o ∈ (s.recvSome n).2.pending, ∃ piece, piece ≠ [] ∧ o = .data piece) ∧
      (s.recvSome n).2.ending = ending := by
  obtain ⟨pending, ending'⟩ := s
  obtain ⟨hpieces, rfl⟩ := h
  rcases pending with _ | ⟨o, rest⟩
  · cases ending' <;> exact ⟨hpieces, rfl⟩
  · obtain ⟨⟨piece, -, rfl⟩, hrest⟩ := List.forall_mem_cons.mp hpieces
    refine ⟨?_, rfl⟩
    by_cases hleft : piece.drop n = []
    · simpa [recvSome, hleft] using hrest
    · simpa [recvSome, hleft] using hrest

/-- **A receive loop on a stream**: it takes the bytes it needs, or all of them
and reports the end. -/
theorem TcpSocket.Holds.fill (h : s.Holds bytes ending) (closed : Error) (need : Nat) :
    ∃ s', ChunkedStream.fill recvSome closed need s =
        (if need ≤ bytes.length then .ok (bytes.take need) else .error (ending.error closed), s') ∧
      s'.Holds (bytes.drop need) ending := by
  obtain ⟨hpieces, hend, rfl⟩ := h
  split
  next hle =>
    obtain ⟨s', hfill, hahead⟩ := fill_of_le closed serves_recvSome hle
    have hinv := fill_invariant closed pieces_recvSome need ⟨hpieces, hend⟩
    rw [hfill] at hinv
    exact ⟨s', hfill, hinv.1, hinv.2, hahead⟩
  next hlt =>
    obtain ⟨n, s₀, e, hn, ⟨hpieces₀, hend₀⟩, hdry, hfill, hlast⟩ :=
      fill_of_lt closed serves_recvSome pieces_recvSome ⟨hpieces, hend⟩ (Nat.lt_of_not_le hlt)
    -- no piece is left, so the call reports the end and stays there
    obtain ⟨pending, ending'⟩ := s₀
    obtain rfl : pending = [] := by
      cases pending with
      | nil => rfl
      | cons o rest =>
          obtain ⟨piece, hne, rfl⟩ := hpieces₀ o (List.mem_cons_self ..)
          cases piece with
          | nil => exact absurd rfl hne
          | cons b piece => cases hdry
    obtain rfl : ending' = ending := hend₀
    have hdrop : s.ahead.drop need = [] := List.drop_of_length_le (Nat.le_of_not_le hlt)
    refine ⟨⟨[], ending'⟩, ?_, by simp, rfl, by rw [hdrop]; rfl⟩
    rw [hfill]
    cases ending' with
    | closed =>
        rcases hlast with ⟨-, rfl⟩ | hlast
        · rfl
        · cases hlast
    | failed =>
        rcases hlast with ⟨hlast, -⟩ | hlast
        · cases hlast
        · rw [← Except.error.inj hlast]
          rfl

/-- **Reading a frame does not depend on the pieces**: `read_frame` returns what
is read from the bytes of the stream, and leaves the bytes that this leaves. -/
theorem TcpSocket.Holds.readFrame (h : s.Holds bytes ending) :
    ∃ s', Wire.readFrame s = ((nextFrame ending bytes).1, s') ∧
      s'.Holds (nextFrame ending bytes).2 ending := by
  obtain ⟨s₁, hhead, h₁⟩ := h.fill connectionClosed kHeaderSize
  rw [Wire.readFrame, hhead, nextFrame]
  by_cases hshort : bytes.length < kHeaderSize
  · rw [if_neg (Nat.not_le.mpr hshort), if_pos hshort]
    rw [List.drop_of_length_le hshort.le] at h₁
    exact ⟨s₁, rfl, h₁⟩
  have hlen : (headerLength (bytes.take kHeaderSize)).toNat = declaredLength bytes := by
    rw [toNat_headerLength, declaredLength_take bytes le_rfl]
    exact (List.length_take_of_le (Nat.le_of_not_lt hshort)).ge
  rw [if_pos (Nat.le_of_not_lt hshort), if_neg hshort]
  dsimp only
  rw [hlen]
  by_cases hover : kMaxPayload < declaredLength bytes
  · rw [if_pos hover, if_pos hover]
    exact ⟨s₁, rfl, h₁⟩
  obtain ⟨s₂, hbody, h₂⟩ := h₁.fill closedMidFrame (declaredLength bytes)
  rw [List.drop_drop, ← declaredExtent] at h₂
  rw [if_neg hover, if_neg hover, hbody, List.length_drop]
  by_cases hcut : bytes.length < declaredExtent bytes
  · have hcut' : ¬ declaredLength bytes ≤ bytes.length - kHeaderSize := by
      rw [declaredExtent] at hcut
      omega
    rw [if_neg hcut', if_pos hcut]
    rw [List.drop_of_length_le hcut.le] at h₂
    exact ⟨s₂, rfl, h₂⟩
  · have hfull : declaredLength bytes ≤ bytes.length - kHeaderSize := by
      rw [declaredExtent] at hcut
      omega
    rw [if_pos hfull, if_neg hcut]
    refine ⟨s₂, ?_, h₂⟩
    dsimp only
    rw [declaredExtent, List.take_add]

/-! ### Sequences of frames -/

/-- In front of an encoded frame, that frame is read. -/
lemma nextFrame_encode {f : Frame} (h : f.Legal) (ending : StreamEnd) (rest : List UInt8) :
    nextFrame ending (encode f ++ rest) = (.ok f, rest) := by
  have hdecl := declaredLength_encode h rest
  have hext : declaredExtent (encode f ++ rest) = (encode f).length := by
    rw [declaredExtent, hdecl, length_encode]
  have hlen : (encode f ++ rest).length = (encode f).length + rest.length := List.length_append
  have hhead : kHeaderSize ≤ (encode f).length := by
    rw [length_encode]
    omega
  have hpayload := h.payload_le
  rw [nextFrame, if_neg (by omega), if_neg (by omega), if_neg (by omega), hext, List.take_left,
    List.drop_left, decode_encode h]

/-- A frame with too large a payload is refused at its header. -/
lemma nextFrame_oversize {f : Frame} (h : kMaxPayload < f.payload.length)
    (hlt : f.payload.length < 2 ^ 64) (ending : StreamEnd) (rest : List UInt8) :
    (nextFrame ending (encode f ++ rest)).1 = .err .protocolOverflow "payload too large" := by
  have hlen : kHeaderSize ≤ (encode f ++ rest).length := by
    rw [List.length_append, length_encode]
    omega
  rw [nextFrame, if_neg (Nat.not_lt.mpr hlen), declaredLength_encode_of_lt hlt, if_pos h]

/-- Inside an encoded frame, the end of the stream is reported. -/
lemma nextFrame_cut {f : Frame} (h : f.Legal) {tail : List UInt8} (hpre : tail <+: encode f)
    (hne : tail ≠ encode f) :
    ∃ message, nextFrame .closed tail = (.err .peerLost message, []) := by
  obtain ⟨rest, heq⟩ := hpre
  have hlen : tail.length < (encode f).length := by
    have hrest : rest ≠ [] := by
      rintro rfl
      exact hne (by rw [← heq, List.append_nil])
    have hpos := List.length_pos_iff.mpr hrest
    rw [← heq, List.length_append]
    omega
  rw [nextFrame]
  by_cases hshort : tail.length < kHeaderSize
  · rw [if_pos hshort]
    exact ⟨_, rfl⟩
  · have hdecl : declaredLength tail = f.payload.length := by
      rw [← List.append_nil (encode f)] at heq
      have htake : (tail ++ rest).take kHeaderSize = tail.take kHeaderSize :=
        List.take_append_of_le_length (Nat.le_of_not_lt hshort)
      rw [← declaredLength_encode h [], ← heq, ← declaredLength_take tail le_rfl,
        ← declaredLength_take (tail ++ rest) le_rfl, htake]
    have hpayload := h.payload_le
    rw [length_encode] at hlen
    rw [if_neg hshort, if_neg (by omega), if_pos (by rw [declaredExtent]; omega)]
    exact ⟨_, rfl⟩

lemma readFrames_add (m n : Nat) (s : TcpSocket) :
    (readFrames (m + n) s).1 = (readFrames m s).1 ++ (readFrames n (readFrames m s).2).1 := by
  induction m generalizing s with
  | zero => rw [Nat.zero_add]; rfl
  | succ m ih =>
      rw [Nat.succ_add, readFrames, readFrames]
      dsimp only
      rw [ih, List.cons_append]

/-- Encoded frames are read one after the other. -/
lemma TcpSocket.Holds.readFrames_encoded {fs : List Frame} {rest : List UInt8}
    (h : s.Holds (fs.flatMap encode ++ rest) ending) (hfs : ∀ f ∈ fs, f.Legal) :
    (readFrames fs.length s).1 = fs.map .ok ∧
      (readFrames fs.length s).2.Holds rest ending := by
  induction fs generalizing s with
  | nil => exact ⟨rfl, h⟩
  | cons f fs ih =>
      obtain ⟨hf, hrest⟩ := List.forall_mem_cons.mp hfs
      rw [List.flatMap_cons, List.append_assoc] at h
      obtain ⟨s', hread, h'⟩ := h.readFrame
      rw [nextFrame_encode hf] at hread h'
      obtain ⟨hframes, hend⟩ := ih h' hrest
      rw [List.length_cons, readFrames, hread]
      exact ⟨by rw [List.map_cons, ← hframes], hend⟩

/-- From inside an encoded frame on, nothing but the end is reported. -/
lemma TcpSocket.Holds.readFrames_cut {f : Frame} {tail : List UInt8} (h : s.Holds tail .closed)
    (hf : f.Legal) (hpre : tail <+: encode f) (hne : tail ≠ encode f) (n : Nat) :
    (readFrames n s).1.length = n ∧
      ∀ r ∈ (readFrames n s).1, ∃ message, r = .err .peerLost message := by
  induction n generalizing s tail with
  | zero => exact ⟨rfl, by simp [readFrames]⟩
  | succ n ih =>
      obtain ⟨s', hread, h'⟩ := h.readFrame
      obtain ⟨message, hcut⟩ := nextFrame_cut hf hpre hne
      rw [hcut] at hread h'
      have hnil : ([] : List UInt8) ≠ encode f := by
        intro heq
        have hlen := length_encode f
        rw [← heq, List.length_nil, kHeaderSize] at hlen
        omega
      obtain ⟨hlen, hall⟩ := ih h' List.nil_prefix hnil
      rw [readFrames, hread]
      exact ⟨congrArg (· + 1) hlen, List.forall_mem_cons.mpr ⟨⟨message, rfl⟩, hall⟩⟩

/-- **Reassembly does not depend on the pieces**: encoded frames, cut into any
pieces and ending in front of or inside a further frame, are read back in order,
and every later call reports that the peer is gone. -/
theorem readFrames_chunks (fs : List Frame) (tail : List UInt8) (chunks : List (List UInt8))
    (n : Nat) (hfs : ∀ f ∈ fs, f.Legal)
    (htail : ∃ f : Frame, f.Legal ∧ tail <+: encode f ∧ tail ≠ encode f)
    (hchunks : ∀ c ∈ chunks, c ≠ []) (hstream : chunks.flatten = fs.flatMap encode ++ tail) :
    ∃ errors, (readFrames (fs.length + n) (.ofChunks chunks .closed)).1 = fs.map .ok ++ errors ∧
      errors.length = n ∧ ∀ r ∈ errors, ∃ message, r = .err .peerLost message := by
  obtain ⟨f, hf, hpre, hne⟩ := htail
  have hholds := TcpSocket.holds_ofChunks hchunks .closed
  rw [hstream] at hholds
  obtain ⟨hframes, hrest⟩ := hholds.readFrames_encoded hfs
  obtain ⟨hlen, herrors⟩ := hrest.readFrames_cut hf hpre hne n
  exact ⟨_, by rw [readFrames_add, hframes], hlen, herrors⟩

/-- A greeting in two pieces, and the connection closed inside a heartbeat. -/
theorem readFrames_greeting :
    let hello : Frame := ⟨.msgHello, [1, 2, 3]⟩
    let heartbeat : Frame := ⟨.msgHeartbeat, []⟩
    let chunks := [(encode hello).take 10, (encode hello).drop 10 ++ (encode heartbeat).take 5]
    ∃ errors, (readFrames (1 + 2) (.ofChunks chunks .closed)).1 = [.ok hello] ++ errors ∧
      errors.length = 2 ∧ ∀ r ∈ errors, ∃ message, r = .err .peerLost message := by
  intro hello heartbeat chunks
  refine readFrames_chunks [hello] ((encode heartbeat).take 5) chunks 2 ?_
    ⟨heartbeat, ⟨by decide, by decide, by decide⟩, List.take_prefix _ _, by decide +kernel⟩
    (by decide +kernel) (by decide +kernel)
  rintro f hf
  obtain rfl := List.mem_singleton.mp hf
  exact ⟨by decide, by decide, by decide⟩

end

end PcieFabric.Wire
