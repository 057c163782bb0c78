import PcieFabric.Coordinator.Replies
import PcieFabric.Persist.Records
import PcieFabric.Wire.Socket

/-!
The worker (`worker.hpp`, `worker.cpp`) and its requests.

* `Worker`: identity, boot and epoch of a worker, and whether its socket is open;
  `WorkerCall`: its requests.
* `Worker.request`: the frame a call sends; `Worker.finish`: what it makes of the
  reply.
* `awaitRound`, `awaitAck`: the reading loop of `send_and_await_ack`;
  `Worker.call`: a whole call.
* `Server.serve`: the coordinator reads one request of a connection and handles
  it.
* `awaitAck_of_ack`, `awaitAck_of_silence`: what the loop returns when all that arrives is
  the answer of the coordinator, or nothing.
-/

namespace PcieFabric

open Wire

/-- The text of these bytes. -/
def text (bytes : List UInt8) : String := String.ofList (bytes.map fun b => Char.ofNat b.toNat)

/-- `Worker`, without the address of the coordinator. Its socket is open while
it is connected. -/
structure Worker where
  id : WorkerId
  boot : WorkerBootId
  hostGen : HostGeneration
  epoch : CoordinatorEpoch := default
  connected : Bool := false
deriving DecidableEq, Repr

/-- A request of a worker. -/
inductive WorkerCall where
  | registerSelf
  | sendInventory (snap : Snapshot)
  | sendPathSnapshot (paths : List Path) (epoch : CoordinatorEpoch) (boot : WorkerBootId)
  | sendMeasurement (m : Measurement)
  | reserve (proposed : Reservation)
  | release (id : ReservationId) (gen : ReservationGeneration)
  | heartbeat
  | revalidate

/-- The snapshot that a call sends, if it sends one. `send_path_snapshot` does
not use its third argument. -/
def WorkerCall.snapshot : WorkerCall → Option Snapshot
  | .sendInventory snap => some snap
  | .sendPathSnapshot paths epoch _ => some { epoch, paths }
  | _ => none

namespace Worker

variable (w : Worker)

/-- The frame that a call builds. -/
def frame : WorkerCall → Result Frame
  | .registerSelf =>
      .ok ⟨.msgRegister, writeRegister ⟨w.id.value, w.boot.value, w.hostGen.value⟩⟩
  | .sendInventory snap => do
      let body ← Persist.serialize snap
      return ⟨.msgInventory, body⟩
  | .sendPathSnapshot paths epoch _ => do
      let body ← Persist.serialize { epoch, paths }
      return ⟨.msgPathSnapshot, body⟩
  | .sendMeasurement m => .ok ⟨.msgMeasurement, Persist.encodeMeasurement m⟩
  | .reserve proposed => .ok ⟨.msgReserve, Persist.encodeReservation proposed⟩
  | .release id gen =>
      .ok ⟨.msgRelease, writeRelease ⟨id.value, w.boot.value, gen.value, w.epoch.value⟩⟩
  | .heartbeat => .ok ⟨.msgHeartbeat, []⟩
  | .revalidate => .ok ⟨.msgRevalidate, []⟩

/-- The error of a call without a connection: `register_self` refuses itself,
the other calls fail in `send_all`. -/
def notConnected : WorkerCall → Error
  | .registerSelf => ⟨.networkError, "not connected"⟩
  | _ => ⟨.networkError, "socket not open"⟩

/-- The frame that a call sends. -/
def request (call : WorkerCall) : Result Frame :=
  match w.frame call with
  | .error e => .error e
  | .ok f => if w.connected then .ok f else .error (notConnected call)

/-- What a call returns for the outcome of `send_and_await_ack`, and the worker
behind it. `reserve` hands its proposal back. -/
def finish (call : WorkerCall) (a : Result Ack) : Result (Option Reservation) × Worker :=
  match a with
  | .error e => (.error e, w)
  | .ok ack =>
      let refused (code : ErrorCode) : Result (Option Reservation) := .err code (text ack.message)
      match call with
      | .registerSelf =>
          (if ack.ok then .ok none else refused .conflict, { w with epoch := ⟨ack.epoch⟩ })
      | .heartbeat | .revalidate => (.ok none, w)
      | .reserve proposed => (if ack.ok then .ok (some proposed) else refused .overcommit, w)
      | _ => (if ack.ok then .ok none else refused .conflict, w)

end Worker

/-- A round of the loop of `send_and_await_ack`: the result it ends with, or none
when it goes on. -/
def awaitRound (read : Result Frame) (beyond : Nat → UInt8) : Option (Result Ack) :=
  match read with
  | .error e => some (.error e)
  | .ok f =>
      if f.kind = .msgAck then some (onPayload readAck f.payload beyond)
      else if f.kind = .msgError then some (.err .conflict "error frame")
      else none

/-- The loop of `send_and_await_ack`. -/
def awaitAck (beyond : Nat → UInt8) : Nat → TcpSocket → Result Ack × TcpSocket
  | 0, s => (.err .timeout "no ack", s)
  | rounds + 1, s =>
      let (read, s') := readFrame s
      match awaitRound read beyond with
      | some a => (a, s')
      | none => awaitAck beyond rounds s'

/-- The rounds of the loop. -/
def kAwaitRounds : Nat := 64

/-- A whole call over a socket on which these bytes arrive: what it returns, and
the worker behind it. The request goes out as `encode` makes it. -/
def Worker.call (w : Worker) (call : WorkerCall) (s : TcpSocket) (beyond : Nat → UInt8) :
    Result (Option Reservation) × Worker :=
  match w.request call with
  | .error e => (.error e, w)
  | .ok _ => w.finish call (awaitAck beyond kAwaitRounds s).1

/-- The coordinator on the bytes that arrive on a connection: `read_frame`, and
`handle_frame` if it returned a frame. The server, the bytes left, and the frame
handled with its answer. -/
def Server.serve (srv : Server) (conn : Nat) (bytes : List UInt8) (beyond : Nat → UInt8) :
    Server × List UInt8 × Option (Frame × Answer) :=
  match nextFrame .closed bytes with
  | (.error _, rest) => (srv, rest, none)
  | (.ok f, rest) => (srv.step (.frame conn f beyond), rest, some (f, (srv.handle conn f beyond).2.2))

/-- The frames that the coordinator writes. -/
def writtenFor (handled : Option (Frame × Answer)) : List Frame :=
  match handled with
  | none => []
  | some (_, answer) => answer.written

/-- The bytes of these frames, one after the other. -/
def encodeAll (frames : List Frame) : List UInt8 := frames.flatMap encode

/-! ### A request and its answer -/

/-- The frame of a snapshot call. -/
lemma Worker.frame_of_snapshot {w : Worker} {call : WorkerCall} {snap : Snapshot}
    (h : call.snapshot = some snap) :
    ∃ f, w.frame call = .ok f ∧ f.IsSnapshot ∧ Persist.serialize snap = .ok f.payload := by
  cases call with
  | sendInventory snap' =>
      obtain rfl : snap' = snap := Option.some.inj h
      exact ⟨_, rfl, .inl rfl, rfl⟩
  | sendPathSnapshot paths epoch boot =>
      obtain rfl : { epoch, paths } = snap := Option.some.inj h
      exact ⟨_, rfl, .inr rfl, rfl⟩
  | registerSelf | sendMeasurement | reserve | release | heartbeat | revalidate => cases h

/-- A frame that is sent goes through an open socket. -/
lemma Worker.request_ok_iff {w : Worker} {call : WorkerCall} {f : Frame} :
    w.request call = .ok f ↔ w.connected = true ∧ w.frame call = .ok f := by
  rw [request]
  cases w.frame call with
  | error e => simp
  | ok g => cases w.connected <;> simp

/-- The frame of a reply. -/
def Wire.Ack.frame (a : Ack) : Frame := ⟨.msgAck, writeAck a⟩

lemma Wire.Ack.legal_frame {a : Ack} (h : a.Short) : a.frame.Legal where
  kind_pos := (by decide : (1 : UInt8) ≤ 11)
  kind_le := (by decide : (11 : UInt8) ≤ 12)
  payload_le := by
    have hlen : (writeAck a).length = 21 + a.message.length := by
      simp [writeAck, Writer.u64, Writer.u8, Writer.string, Writer.u32]
      omega
    rw [Short, Reader.stringCap] at h
    rw [frame, hlen, kMaxPayload]
    omega

/-- The loop ends with a reply that is in front. -/
lemma awaitRound_frame {a : Ack} (h : a.Short) (beyond : Nat → UInt8) :
    awaitRound (.ok a.frame) beyond = some (.ok a) := by
  show some (onPayload readAck (writeAck a) beyond) = _
  rw [readAck_writeAck h]

section

variable {s : TcpSocket} {ending : StreamEnd}

/-- The loop on a stream that starts with a reply. -/
lemma awaitAck_of_ack {a : Ack} (hshort : a.Short) (h : s.Holds (encodeAll [a.frame]) ending)
    (beyond : Nat → UInt8) :
    (awaitAck beyond kAwaitRounds s).1 = .ok a := by
  obtain ⟨s', hread, -⟩ := h.readFrame
  rw [encodeAll, List.flatMap_cons, nextFrame_encode (Ack.legal_frame hshort)] at hread
  simp only [kAwaitRounds, awaitAck, hread, awaitRound_frame hshort]

/-- The loop on a stream on which nothing arrives. -/
lemma awaitAck_of_silence (h : s.Holds (encodeAll []) ending) (beyond : Nat → UInt8) :
    ∃ e, (awaitAck beyond kAwaitRounds s).1 = .error e := by
  obtain ⟨s', hread, -⟩ := h.readFrame
  have hnext : (nextFrame ending (encodeAll [])).1 = .error (ending.error connectionClosed) := rfl
  rw [hnext] at hread
  simp only [kAwaitRounds, awaitAck, hread, awaitRound]
  exact ⟨_, rfl⟩

end

end PcieFabric
