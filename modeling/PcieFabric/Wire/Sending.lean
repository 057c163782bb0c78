import PcieFabric.Lib.ChunkedSend
import PcieFabric.Wire.Corruption
import PcieFabric.Wire.Socket

/-!
Sending frames over a socket (`tcp.cpp`), and the frames at the other end.

* `SendSide`: the outcomes of the `send` calls to come, and the bytes that were taken.
* `sendSome`, `sendAll`, `writeFrame`: the functions of the source; `writeFrames` writes
  frame after frame, whatever became of those before.
* `writeFrame_taken`: a frame goes out whole exactly if its write succeeds.
* `CutLast`, `frames_delivered`: if nothing goes out behind a frame that went out in part,
  the peer reads the frames whose writes succeeded, in order, up to where the stream is lost.
* `frames_delivered_whole`: partial `send` calls alone do no harm.
-/

namespace PcieFabric.Wire

open ChunkedSend

/-- What a `send` call comes back with. -/
inductive SendOutcome where
  /-- The call takes so many bytes of what it is given, or all if these are fewer. -/
  | took (n : Nat)
  /-- A socket error. -/
  | failed
deriving DecidableEq, Repr

/-- An open `TcpSocket`, as its sending side. Behind the pending outcomes every call takes
what it is given. -/
structure SendSide where
  pending : List SendOutcome := []
  taken : List UInt8 := []
deriving DecidableEq, Repr

/-- The `send` call. -/
def sendSome (data : List UInt8) (s : SendSide) : Result Nat × SendSide :=
  match s.pending with
  | [] => (.ok data.length, { s with taken := s.taken ++ data })
  | .took n :: rest =>
      (.ok (min n data.length), { pending := rest, taken := s.taken ++ data.take n })
  | .failed :: rest => (.err .networkError "send failed", { s with pending := rest })

/-- `TcpSocket::send_all`, on data of less than `2^31` bytes. -/
def sendAll (data : List UInt8) (s : SendSide) : Result Unit × SendSide :=
  drain sendSome ⟨.peerLost, "peer closed on send"⟩ data s

/-- `write_frame`. -/
def writeFrame (f : Frame) (s : SendSide) : Result Unit × SendSide := sendAll (encode f) s

/-- A `write_frame` that was made: its result, and what went out of the frame. -/
structure FrameWrite where
  frame : Frame
  result : Result Unit
  bytes : List UInt8

/-- Successive calls of `write_frame`. -/
def writeFrames : List Frame → SendSide → List FrameWrite × SendSide
  | [], s => ([], s)
  | f :: fs, s =>
      let (r, s') := writeFrame f s
      let (ws, s'') := writeFrames fs s'
      (⟨f, r, s'.taken.drop s.taken.length⟩ :: ws, s'')

/-! ### One write -/

/-- **`send` takes a first part** of what it is given. -/
theorem takes_sendSome : Takes sendSome SendSide.taken where
  take := by
    rintro data ⟨pending, taken⟩ k s' h
    rcases pending with _ | ⟨_ | _, rest⟩
    · obtain ⟨hk, rfl⟩ := Prod.mk.inj h
      obtain rfl := Except.ok.inj hk
      exact ⟨le_rfl, by simp⟩
    · next n =>
        obtain ⟨hk, rfl⟩ := Prod.mk.inj h
        obtain rfl := Except.ok.inj hk
        refine ⟨min_le_right _ _, ?_⟩
        rw [List.take_eq_take_min]
    · cases (Prod.mk.inj h).1
  fail := by
    rintro data ⟨pending, taken⟩ e s' h
    rcases pending with _ | ⟨_ | _, rest⟩
    · cases (Prod.mk.inj h).1
    · cases (Prod.mk.inj h).1
    · obtain ⟨-, rfl⟩ := Prod.mk.inj h
      rfl

/-- **A frame goes out** up to some byte, and whole exactly if its write succeeds. -/
lemma writeFrame_taken (f : Frame) (s : SendSide) :
    ∃ sent, sent <+: encode f ∧ (writeFrame f s).2.taken = s.taken ++ sent ∧
      ((writeFrame f s).1 = .ok () ↔ sent = encode f) :=
  drain_taken _ takes_sendSome (encode f) s

/-- The write succeeded. -/
def FrameWrite.succeeded (w : FrameWrite) : Bool := w.result.isOk

lemma FrameWrite.succeeded_iff {w : FrameWrite} : w.succeeded = true ↔ w.result = .ok () := by
  rw [succeeded]
  rcases w.result with e | ⟨⟩ <;> simp

/-- The writes that succeeded, as their frames. -/
def written (ws : List FrameWrite) : List Frame :=
  (ws.filter FrameWrite.succeeded).map FrameWrite.frame

/-- What is known of a write. -/
structure FrameWrite.Sound (w : FrameWrite) : Prop where
  sent : w.bytes <+: encode w.frame
  ok_iff : w.result = .ok () ↔ w.bytes = encode w.frame

/-- **The writes and the bytes**: the stream takes what goes out of the frames, one after the
other. -/
theorem writeFrames_taken (fs : List Frame) (s : SendSide) :
    (writeFrames fs s).1.map FrameWrite.frame = fs ∧ (∀ w ∈ (writeFrames fs s).1, w.Sound) ∧
      (writeFrames fs s).2.taken = s.taken ++ (writeFrames fs s).1.flatMap FrameWrite.bytes := by
  induction fs generalizing s with
  | nil => exact ⟨rfl, by simp [writeFrames], by simp [writeFrames]⟩
  | cons f fs ih =>
      obtain ⟨sent, hpre, htaken, hiff⟩ := writeFrame_taken f s
      obtain ⟨hframes, hsound, hrest⟩ := ih (writeFrame f s).2
      have hbytes : (writeFrame f s).2.taken.drop s.taken.length = sent := by
        rw [htaken, List.drop_left]
      have hstep : writeFrames (f :: fs) s =
          (⟨f, (writeFrame f s).1, sent⟩ :: (writeFrames fs (writeFrame f s).2).1,
            (writeFrames fs (writeFrame f s).2).2) := by
        rw [writeFrames, ← hbytes]
      rw [hstep]
      refine ⟨by rw [List.map_cons, hframes], ?_, ?_⟩
      · exact List.forall_mem_cons.mpr ⟨⟨hpre, hiff⟩, hsound⟩
      · rw [hrest, htaken, List.flatMap_cons, List.append_assoc]

/-! ### What the peer reads -/

/-- Nothing goes out behind a frame that went out in part. -/
def CutLast (ws : List FrameWrite) : Prop :=
  ws.Pairwise fun w w' => w.bytes = [] ∨ w.bytes = encode w.frame ∨ w'.bytes = []

/-- These bytes are the beginning of a frame, and not all of it. -/
def InsideFrame (tail : List UInt8) : Prop :=
  ∃ f : Frame, f.Legal ∧ tail <+: encode f ∧ tail ≠ encode f

lemma encode_ne_nil (f : Frame) : encode f ≠ [] := by
  intro heq
  have hlen := length_encode f
  rw [heq, List.length_nil, kHeaderSize] at hlen
  omega

lemma insideFrame_nil : InsideFrame [] :=
  ⟨heartbeat, heartbeat_legal, List.nil_prefix, (encode_ne_nil heartbeat).symm⟩

/-- The bytes of the writes are the frames that went out, and the beginning of one more. -/
lemma flatMap_bytes {ws : List FrameWrite} (hsound : ∀ w ∈ ws, w.Sound)
    (hlegal : ∀ w ∈ ws, w.frame.Legal) (hcut : CutLast ws) :
    ∃ tail, InsideFrame tail ∧
      ws.flatMap FrameWrite.bytes = (written ws).flatMap encode ++ tail := by
  induction ws with
  | nil => exact ⟨[], insideFrame_nil, rfl⟩
  | cons w ws ih =>
      obtain ⟨⟨hpre, hiff⟩, hrest⟩ := List.forall_mem_cons.mp hsound
      obtain ⟨hw, hws⟩ := List.forall_mem_cons.mp hlegal
      obtain ⟨hfirst, hlater⟩ := List.pairwise_cons.mp hcut
      obtain ⟨tail, htail, heq⟩ := ih hrest hws hlater
      rw [List.flatMap_cons]
      by_cases hwhole : w.bytes = encode w.frame
      · have hok : w.succeeded = true := FrameWrite.succeeded_iff.mpr (hiff.mpr hwhole)
        have hcons : written (w :: ws) = w.frame :: written ws := by
          rw [written, List.filter_cons_of_pos hok, List.map_cons, written]
        refine ⟨tail, htail, ?_⟩
        rw [hcons, heq, hwhole, List.flatMap_cons, List.append_assoc]
      have hfail : ¬ w.succeeded = true := fun hok =>
        hwhole (hiff.mp (FrameWrite.succeeded_iff.mp hok))
      have hcons : written (w :: ws) = written ws := by
        rw [written, List.filter_cons_of_neg hfail, written]
      rw [hcons]
      by_cases hnone : w.bytes = []
      · exact ⟨tail, htail, by rw [hnone, List.nil_append, heq]⟩
      -- the frames behind it did not go out, so none of their writes succeeded
      have hsilent : ∀ w' ∈ ws, w'.bytes = [] := fun w' hw' =>
        ((hfirst w' hw').resolve_left hnone).resolve_left hwhole
      have hlost : written ws = [] := by
        rw [written, List.map_eq_nil_iff, List.filter_eq_nil_iff]
        intro w' hw' hok
        have hbytes := (hrest w' hw').ok_iff.mp (FrameWrite.succeeded_iff.mp hok)
        exact encode_ne_nil w'.frame (hbytes.symm.trans (hsilent w' hw'))
      refine ⟨w.bytes, ⟨w.frame, hw, hpre, hwhole⟩, ?_⟩
      rw [List.flatMap_eq_nil_iff.mpr hsilent, hlost, List.append_nil, List.flatMap_nil,
        List.nil_append]

/-- A first part of frames in a row: some of them, and the beginning of the next. -/
lemma exists_take_of_prefix {fs : List Frame} (hfs : ∀ f ∈ fs, f.Legal) {tail got : List UInt8}
    (htail : InsideFrame tail) (hgot : got <+: fs.flatMap encode ++ tail) :
    ∃ k cut, k ≤ fs.length ∧ InsideFrame cut ∧ got = (fs.take k).flatMap encode ++ cut ∧
      (got = fs.flatMap encode ++ tail → k = fs.length) := by
  induction fs generalizing got with
  | nil =>
      obtain ⟨f, hf, hpre, hne⟩ := htail
      refine ⟨0, got, le_rfl, ⟨f, hf, hgot.trans hpre, ?_⟩, rfl, fun _ => rfl⟩
      intro heq
      exact hne (hpre.eq_of_length_le (heq ▸ hgot.length_le))
  | cons f fs ih =>
      obtain ⟨hf, hrest⟩ := List.forall_mem_cons.mp hfs
      rw [List.flatMap_cons, List.append_assoc] at hgot ⊢
      by_cases hlen : (encode f).length ≤ got.length
      · -- the first frame is there
        obtain ⟨more, rfl⟩ := List.prefix_of_prefix_length_le (List.prefix_append _ _) hgot hlen
        rw [List.prefix_append_right_inj] at hgot
        obtain ⟨k, cut, hk, hcut, rfl, hall⟩ := ih hrest hgot
        refine ⟨k + 1, cut, by rw [List.length_cons]; omega, hcut, ?_, fun heq => ?_⟩
        · rw [List.take_succ_cons, List.flatMap_cons, List.append_assoc]
        · rw [List.length_cons, hall (List.append_cancel_left heq)]
      · have hshort := List.prefix_of_prefix_length_le hgot (List.prefix_append _ _) (by omega)
        refine ⟨0, got, Nat.zero_le _, ⟨f, hf, hshort, ?_⟩, rfl, fun heq => ?_⟩
        · rintro rfl
          exact hlen le_rfl
        · rw [heq, List.length_append] at hlen
          omega

/-- From these pieces, until the stream ends behind them, the peer reads these frames; every
later call reports that the connection is gone. -/
def ReadsExactly (chunks : List (List UInt8)) (fs : List Frame) : Prop :=
  ∀ n, ∃ errors, (readFrames (fs.length + n) (.ofChunks chunks .closed)).1 =
      fs.map .ok ++ errors ∧
    errors.length = n ∧ ∀ r ∈ errors, ∃ message, r = .err .peerLost message

/-- Pieces of whole frames, and the beginning of one more. -/
lemma readsExactly_of_cut {chunks : List (List UInt8)} (hchunks : ∀ c ∈ chunks, c ≠ [])
    {fs : List Frame} (hfs : ∀ f ∈ fs, f.Legal) {cut : List UInt8} (hcut : InsideFrame cut)
    (heq : chunks.flatten = fs.flatMap encode ++ cut) : ReadsExactly chunks fs := by
  obtain ⟨f, hf, hpre, hne⟩ := hcut
  have hholds := TcpSocket.holds_ofChunks hchunks .closed
  rw [heq] at hholds
  obtain ⟨hread, hrest⟩ := hholds.readFrames_encoded hfs
  intro n
  obtain ⟨hlen, herrors⟩ := hrest.readFrames_cut hf hpre hne n
  exact ⟨_, by rw [readFrames_add, hread], hlen, herrors⟩

/-- **Frames are delivered** in order and at most once, whatever parts of the data the `send`
calls take, whatever pieces the peer receives, and wherever the stream is lost. The frames are
those whose writes succeeded, and if the stream is not lost, these all. -/
theorem frames_delivered (fs : List Frame) (hfs : ∀ f ∈ fs, f.Legal) (pending : List SendOutcome)
    (hcut : CutLast (writeFrames fs { pending }).1) (chunks : List (List UInt8))
    (hchunks : ∀ c ∈ chunks, c ≠ [])
    (hgot : chunks.flatten <+: (writeFrames fs { pending }).2.taken) :
    ∃ received lost, written (writeFrames fs { pending }).1 = received ++ lost ∧
      (chunks.flatten = (writeFrames fs { pending }).2.taken → lost = []) ∧
      ReadsExactly chunks received := by
  obtain ⟨hframes, hsound, htaken⟩ := writeFrames_taken fs { pending }
  have hlegal : ∀ w ∈ (writeFrames fs { pending }).1, w.frame.Legal := fun w hw =>
    hfs w.frame (hframes ▸ List.mem_map_of_mem hw)
  have hwritten : ∀ f ∈ written (writeFrames fs { pending }).1, f.Legal := by
    intro f hf
    obtain ⟨w, hw, rfl⟩ := List.mem_map.mp hf
    exact hlegal w (List.mem_of_mem_filter hw)
  obtain ⟨tail, htail, hbytes⟩ := flatMap_bytes hsound hlegal hcut
  rw [List.nil_append, hbytes] at htaken
  rw [htaken] at hgot ⊢
  obtain ⟨k, cut, hk, hinside, heq, hall⟩ := exists_take_of_prefix hwritten htail hgot
  refine ⟨_, _, (List.take_append_drop k _).symm, fun hwhole => ?_, ?_⟩
  · rw [hall hwhole, List.drop_length]
  · exact readsExactly_of_cut hchunks (fun f hf => hwritten f (List.mem_of_mem_take hf)) hinside heq

/-- A greeting that goes out in two parts and arrives in two others, and a heartbeat that goes
out in part. -/
theorem cut_heartbeat_delivered :
    let hello : Frame := ⟨.msgHello, [1, 2, 3]⟩
    let run := writeFrames [hello, heartbeat] { pending := [.took 10, .took 20, .took 5, .failed] }
    let chunks := [run.2.taken.take 7, run.2.taken.drop 7]
    ∃ received lost, written run.1 = received ++ lost ∧
      (chunks.flatten = run.2.taken → lost = []) ∧ ReadsExactly chunks received := by
  intro hello run chunks
  have hcut : CutLast run.1 := by
    unfold CutLast
    decide +kernel
  refine frames_delivered [hello, heartbeat] ?_ [.took 10, .took 20, .took 5, .failed] hcut chunks
    (by decide +kernel) (by decide +kernel)
  rintro f hf
  rcases List.mem_pair.mp hf with rfl | rfl
  · exact ⟨by decide, by decide, by decide⟩
  · exact heartbeat_legal

/-! ### Partial sends -/

/-- Every `send` call takes something. -/
def Patient (s : SendSide) : Prop := ∀ o ∈ s.pending, ∃ n, o = .took (n + 1)

/-- A write over such calls succeeds. -/
lemma writeFrame_patient (f : Frame) {s : SendSide} (h : Patient s) :
    (writeFrame f s).1 = .ok () ∧ Patient (writeFrame f s).2 := by
  refine drain_ok _ (fun data s hdata h => ?_) (encode f) h
  obtain ⟨pending, taken⟩ := s
  have hlen : 0 < data.length := List.length_pos_iff.mpr hdata
  cases pending with
  | nil =>
      refine ⟨data.length - 1, ⟨[], taken ++ data⟩, ?_, h⟩
      rw [Nat.sub_add_cancel hlen]
      rfl
  | cons o rest =>
      obtain ⟨⟨n, rfl⟩, hrest⟩ := List.forall_mem_cons.mp h
      refine ⟨min (n + 1) data.length - 1, ⟨rest, taken ++ data.take (n + 1)⟩, ?_, hrest⟩
      rw [Nat.sub_add_cancel (by omega)]
      rfl

lemma writeFrames_patient (fs : List Frame) {s : SendSide} (h : Patient s) :
    ∀ w ∈ (writeFrames fs s).1, w.result = .ok () := by
  induction fs generalizing s with
  | nil => simp [writeFrames]
  | cons f fs ih =>
      obtain ⟨hok, hrest⟩ := writeFrame_patient f h
      exact List.forall_mem_cons.mpr ⟨hok, ih hrest⟩

/-- **Partial sends are invisible**: the peer reads all frames. -/
theorem frames_delivered_whole (fs : List Frame) (hfs : ∀ f ∈ fs, f.Legal)
    (pending : List SendOutcome) (hpatient : ∀ o ∈ pending, ∃ n, o = .took (n + 1))
    (chunks : List (List UInt8)) (hchunks : ∀ c ∈ chunks, c ≠ [])
    (hgot : chunks.flatten = (writeFrames fs { pending }).2.taken) : ReadsExactly chunks fs := by
  obtain ⟨hframes, hsound, htaken⟩ := writeFrames_taken fs { pending }
  have hok := @writeFrames_patient fs { pending } hpatient
  have hbytes : (writeFrames fs { pending }).1.flatMap FrameWrite.bytes = fs.flatMap encode := by
    calc (writeFrames fs { pending }).1.flatMap FrameWrite.bytes
        = (writeFrames fs { pending }).1.flatMap fun w => encode w.frame :=
          List.flatMap_congr fun w hw => (hsound w hw).ok_iff.mp (hok w hw)
      _ = ((writeFrames fs { pending }).1.map FrameWrite.frame).flatMap encode :=
          (List.flatMap_map FrameWrite.frame encode _).symm
      _ = fs.flatMap encode := by rw [hframes]
  rw [List.nil_append, hbytes] at htaken
  exact readsExactly_of_cut hchunks hfs insideFrame_nil (by rw [hgot, htaken, List.append_nil])

end PcieFabric.Wire
