import PcieFabric.Codec.Codec

/-!
The messages of the wire protocol (`protocol.hpp`).

* `MsgKind`, `Frame`: a message kind is a byte; the kinds in use are 1 to 12.
* `readRegister`, `readRelease`: the request payloads, which end where their
  fields end.
* `Ack`, `writeAck`, `readAck`: the reply.
-/

namespace PcieFabric.Wire

/-- `MsgKind`. -/
structure MsgKind where
  code : UInt8
deriving DecidableEq, Repr

namespace MsgKind

def msgHello : MsgKind := ⟨1⟩
def msgRegister : MsgKind := ⟨2⟩
def msgInventory : MsgKind := ⟨3⟩
def msgPathSnapshot : MsgKind := ⟨4⟩
def msgMeasurement : MsgKind := ⟨5⟩
def msgReserve : MsgKind := ⟨6⟩
def msgRelease : MsgKind := ⟨7⟩
def msgPolicyUpdate : MsgKind := ⟨8⟩
def msgHeartbeat : MsgKind := ⟨9⟩
def msgRevalidate : MsgKind := ⟨10⟩
def msgAck : MsgKind := ⟨11⟩
def msgError : MsgKind := ⟨12⟩

end MsgKind

/-- `Frame`. -/
structure Frame where
  kind : MsgKind
  payload : List UInt8
deriving DecidableEq, Repr

/-- A decoder on a payload; `beyond` is what the memory holds behind it. -/
def onPayload {α : Type} (d : ReadM α) (p : List UInt8) (beyond : Nat → UInt8) : Result α :=
  (d { data := p, beyond }).1

/-- `RegisterRequest`. -/
structure RegisterRequest where
  worker : UInt64
  boot : UInt64
  hostGen : UInt64
deriving DecidableEq, Repr

/-- `write_register`. -/
def writeRegister (reg : RegisterRequest) : List UInt8 :=
  List.flatten [Writer.u64 reg.worker, Writer.u64 reg.boot, Writer.u64 reg.hostGen]

/-- `read_register`. -/
def readRegister : ReadM RegisterRequest := do
  let w ← Reader.u64
  let b ← Reader.u64
  let h ← Reader.u64
  Reader.requireEnd
  return ⟨w, b, h⟩

/-- `ReleaseRequest`. -/
structure ReleaseRequest where
  reservation : UInt64
  boot : UInt64
  gen : UInt64
  epoch : UInt64
deriving DecidableEq, Repr

/-- `write_release`. -/
def writeRelease (rel : ReleaseRequest) : List UInt8 :=
  List.flatten [Writer.u64 rel.reservation, Writer.u64 rel.boot, Writer.u64 rel.gen,
    Writer.u64 rel.epoch]

/-- `read_release`. -/
def readRelease : ReadM ReleaseRequest := do
  let a ← Reader.u64
  let b ← Reader.u64
  let g ← Reader.u64
  let e ← Reader.u64
  Reader.requireEnd
  return ⟨a, b, g, e⟩

/-- `Ack`. -/
structure Ack where
  epoch : UInt64
  seq : UInt64
  ok : Bool
  message : List UInt8
deriving DecidableEq, Repr

/-- `write_ack`. -/
def writeAck (a : Ack) : List UInt8 :=
  List.flatten [Writer.u64 a.epoch, Writer.u64 a.seq, Writer.u8 (if a.ok then 1 else 0),
    Writer.string a.message]

/-- `read_ack`. -/
def readAck : ReadM Ack := do
  let ep ← Reader.u64
  let sq ← Reader.u64
  let okb ← Reader.u8
  let m ← Reader.string
  Reader.requireEnd
  return ⟨ep, sq, okb != 0, m⟩

end PcieFabric.Wire
