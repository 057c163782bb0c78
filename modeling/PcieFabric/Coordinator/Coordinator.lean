import PcieFabric.Lib.Run
import PcieFabric.Persist.Records
import PcieFabric.Wire.Protocol

/-!
The coordinator (`coordinator.hpp`, `coordinator.cpp`).

* `Coordinator`: the shared state; `Connection`: the two local variables of
  `handle_connection`, the worker and boot registered on this connection.
* `handleFrame`: one received frame, with a handler for each kind. Every handler
  changes the shared state under one lock, so a frame is one step.
* `Server`, `ServerEvent`, `Server.step`: the coordinator with all its
  connections; frames arrive on any connection in any order, interleaved with
  `advance_epoch` and `revalidate_all`.
-/

namespace PcieFabric

open Wire

/-- `WorkerInfo`. -/
structure WorkerInfo where
  id : WorkerId := default
  boot : WorkerBootId := default
  hostGen : HostGeneration := default
  connected : Bool := false
  revalidationRequired : Bool := false
  lastSeen : EpochMs := default
deriving DecidableEq, Repr

/-- The limits a coordinator is built with: `2^40` bytes for a path, an hour. -/
def coordinatorLimits : ReservationLimits := ⟨⟨1099511627776⟩, ⟨3600000⟩⟩

/-- `Coordinator`: its authority and its stores. -/
structure Coordinator where
  epoch : CoordinatorEpoch := default
  seq : UInt64 := 0
  topology : Topology := {}
  paths : IdMap .pathId Path := ∅
  measurements : MeasurementStore := {}
  reservations : ReservationRegistry := { limits := coordinatorLimits }
  workers : IdMap .workerId WorkerInfo := ∅

/-- The local variables `worker_id` and `worker_boot` of `handle_connection`. -/
structure Connection where
  workerId : Option WorkerId := none
  workerBoot : Option WorkerBootId := none
deriving DecidableEq, Repr

/-- What the handler of a frame ends with: a reply to the peer, or a result that
is dropped without one. -/
inductive Answer where
  | ack (a : Ack)
  | silent (result : Result Unit)
deriving DecidableEq

/-- The peer reads `ok = true`. -/
def Answer.isOkAck : Answer → Bool
  | .ack a => a.ok
  | .silent _ => false

namespace Coordinator

variable (c : Coordinator)

/-- `Coordinator::reply_ack` with the sequence number of the coordinator. -/
def replyAck (ok : Bool) (message : String) : Answer :=
  .ack ⟨c.epoch.value, c.seq, ok, ascii message⟩

/-- The early return of a handler without a registered worker. -/
def notRegistered : Answer := .silent (.err .notFound "not registered")

/-- The case `MSG_REGISTER`. -/
def handleRegister (conn : Connection) (payload : List UInt8) (beyond : Nat → UInt8) :
    Coordinator × Connection × Answer :=
  match onPayload readRegister payload beyond with
  | .error e => (c, conn, .silent (.error e))
  | .ok reg =>
      let id : WorkerId := ⟨reg.worker⟩
      let boot : WorkerBootId := ⟨reg.boot⟩
      let info : WorkerInfo := { id, boot, hostGen := ⟨reg.hostGen⟩, connected := true }
      let c' := { c with seq := c.seq + 1, workers := c.workers.insert id info }
      (c', ⟨some id, some boot⟩, c'.replyAck true "registered")

/-- The loop over the nodes of a snapshot: an unknown id is added as an endpoint,
and what `add_endpoint` returns is dropped. -/
def storeNode (t : Topology) (n : Node) : Topology :=
  if t.contains n.id then t
  else (t.addEndpoint n.id n.bdf n.kind n.generation n.provenance (n.parent.getD ⟨0⟩)).2

/-- The loop over the paths of a snapshot: one with the current epoch and the
boot of the connection is stored. -/
def storePath (epoch : CoordinatorEpoch) (wb : WorkerBootId) (paths : IdMap .pathId Path)
    (p : Path) : IdMap .pathId Path :=
  if p.authorityMatches epoch wb then paths.insert p.id p else paths

/-- The cases `MSG_INVENTORY` and `MSG_PATH_SNAPSHOT`. -/
def handleSnapshot (conn : Connection) (payload : List UInt8) (beyond : Nat → UInt8) :
    Coordinator × Answer :=
  match conn.workerId, conn.workerBoot with
  | some _, some wb =>
      match Persist.deserialize payload beyond with
      | .error e => (c, .silent (.error e))
      | .ok snap =>
          let c' := { c with
            topology := snap.nodes.foldl storeNode c.topology
            paths := snap.paths.foldl (storePath c.epoch wb) c.paths }
          (c', c'.replyAck true "snapshot accepted")
  | _, _ => (c, notRegistered)

/-- What the cases `MSG_MEASUREMENT`, `MSG_RESERVE` and `MSG_RELEASE` share: a
payload is decoded and given to the store it is for, and the peer is told what
the store says. -/
def handleStored {α β : Type} (conn : Connection) (payload : List UInt8) (beyond : Nat → UInt8)
    (decode : ReadM α) (call : α → Result β × Coordinator) (message : String) :
    Coordinator × Answer :=
  match conn.workerBoot with
  | none => (c, notRegistered)
  | some _ =>
      match onPayload decode payload beyond with
      | .error e => (c, .silent (.error e))
      | .ok a =>
          match call a with
          | (.error e, c') => (c', c'.replyAck false e.message)
          | (.ok _, c') => (c', c'.replyAck true message)

/-- The case `MSG_MEASUREMENT`. -/
def handleMeasurement (conn : Connection) (payload : List UInt8) (beyond : Nat → UInt8) :
    Coordinator × Answer :=
  c.handleStored conn payload beyond Persist.decodeMeasurement
    (fun m =>
      let (ing, st) := c.measurements.ingest m
      (ing, { c with measurements := st }))
    "measurement accepted"

/-- The case `MSG_RESERVE`. -/
def handleReserve (conn : Connection) (payload : List UInt8) (beyond : Nat → UInt8) :
    Coordinator × Answer :=
  c.handleStored conn payload beyond Persist.decodeReservation
    (fun res =>
      let (rr, reg) := c.reservations.reserve res
      (rr, { c with reservations := reg }))
    "reserved"

/-- The case `MSG_RELEASE`: every argument of `release` is read from the
payload. -/
def handleRelease (conn : Connection) (payload : List UInt8) (beyond : Nat → UInt8) :
    Coordinator × Answer :=
  c.handleStored conn payload beyond readRelease
    (fun rel =>
      let (rr, reg) :=
        c.reservations.release ⟨rel.reservation⟩ ⟨rel.boot⟩ ⟨rel.gen⟩ ⟨rel.epoch⟩
      (rr, { c with reservations := reg }))
    "released"

/-- An update of the record of the worker registered on the connection. -/
def touchWorker (conn : Connection) (f : WorkerInfo → WorkerInfo) : Coordinator :=
  match conn.workerId with
  | none => c
  | some wid => { c with workers := c.workers.modify wid f }

/-- The case `MSG_HEARTBEAT`. -/
def handleHeartbeat (conn : Connection) : Coordinator × Answer :=
  let c' := c.touchWorker conn fun w => { w with lastSeen := ⟨0⟩ }
  (c', c'.replyAck true "hb")

/-- The case `MSG_REVALIDATE`. -/
def handleRevalidate (conn : Connection) : Coordinator × Answer :=
  let c' := c.touchWorker conn fun w => { w with revalidationRequired := true }
  (c', c'.replyAck true "revalidate")

/-- The cases of `Coordinator::handle_frame` that leave the connection alone. -/
def handleRequest (conn : Connection) (f : Frame) (beyond : Nat → UInt8) : Coordinator × Answer :=
  if f.kind = .msgInventory ∨ f.kind = .msgPathSnapshot then c.handleSnapshot conn f.payload beyond
  else if f.kind = .msgMeasurement then c.handleMeasurement conn f.payload beyond
  else if f.kind = .msgReserve then c.handleReserve conn f.payload beyond
  else if f.kind = .msgRelease then c.handleRelease conn f.payload beyond
  else if f.kind = .msgHeartbeat then c.handleHeartbeat conn
  else if f.kind = .msgRevalidate then c.handleRevalidate conn
  else if f.kind = .msgPolicyUpdate then (c, c.replyAck true "policy")
  else if f.kind = .msgAck ∨ f.kind = .msgError then (c, .silent (.ok ()))
  else if f.kind = .msgHello then (c, c.replyAck true "hello")
  else (c, .silent (.err .protocolMalformed "unexpected message"))

/-- `Coordinator::handle_frame`. -/
def handleFrame (conn : Connection) (f : Frame) (beyond : Nat → UInt8) :
    Coordinator × Connection × Answer :=
  if f.kind = .msgRegister then c.handleRegister conn f.payload beyond
  else
    let (c', answer) := c.handleRequest conn f beyond
    (c', conn, answer)

/-- `Coordinator::advance_epoch`. -/
def advanceEpoch : Coordinator := { c with epoch := ⟨c.epoch.value + 1⟩ }

/-- `Coordinator::revalidate_all`. -/
def revalidateAll : Coordinator := { c with paths := c.paths.map fun _ p => p.revalidate }

end Coordinator

/-! ### The server as a machine -/

/-- The coordinator and its connections. A connection that was never used has
registered nothing. -/
structure Server where
  coordinator : Coordinator := {}
  conns : Nat → Connection := fun _ => {}

/-- What can happen to a server. -/
inductive ServerEvent where
  | frame (conn : Nat) (f : Frame) (beyond : Nat → UInt8)
  | advanceEpoch
  | revalidateAll

namespace Server

/-- A frame on a connection, with zeros in the memory behind its payload. -/
def send (conn : Nat) (kind : MsgKind) (payload : List UInt8) : ServerEvent :=
  .frame conn ⟨kind, payload⟩ fun _ => 0

/-- The handling of a frame on a connection. -/
def handle (srv : Server) (conn : Nat) (f : Frame) (beyond : Nat → UInt8) :
    Coordinator × Connection × Answer :=
  srv.coordinator.handleFrame (srv.conns conn) f beyond

/-- The server after an event. -/
def step (srv : Server) : ServerEvent → Server
  | .frame conn f beyond =>
      let (c', conn', _) := srv.handle conn f beyond
      { coordinator := c', conns := Function.update srv.conns conn conn' }
  | .advanceEpoch => { srv with coordinator := srv.coordinator.advanceEpoch }
  | .revalidateAll => { srv with coordinator := srv.coordinator.revalidateAll }

end Server

end PcieFabric
