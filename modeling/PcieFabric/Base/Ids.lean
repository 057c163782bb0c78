import Mathlib.Tactic

/-!
Typed errors (`result.hpp`) and typed identities (`ids.hpp`).

* `ErrorCode`, `Error`, `Result`: a call returns a value or a typed error with
  its message.
* `StrongId`, `Generation`: one 64-bit number under a tag, so that a path id is
  never taken for a node id. Their order is the order of the numbers, and
  `std::map` over them is `IdMap`, iterated in that order.
-/

namespace PcieFabric

/-! ### `result.hpp` -/

/-- The error codes of `ErrorCode`. -/
inductive ErrorCode where
  | ok | invalidArgument | invalidBdf | invalidEnum | invalidGeneration | invalidValue
  | duplicateIdentity | duplicateCurrent | notFound | alreadyExists | staleAuthority
  | staleEpoch | staleBoot | generationRollback | hierarchyCycle | invalidRelationship
  | overcommit | doubleRelease | duplicateRelease | accountingDrift | pathInvalid
  | revalidationRequired | unknownCapability | protocolMalformed | protocolChecksum
  | protocolVersion | protocolOverflow | truncated | ioError | networkError | peerLost
  | timeout | notImplemented | cudaError | windowsError | serializationError | internal
  | conflict | limitExceeded
deriving DecidableEq, Repr

/-- An error code with its message. -/
structure Error where
  code : ErrorCode
  message : String
deriving DecidableEq, Repr

/-- `Result<T>`: a value or a typed error. -/
abbrev Result (α : Type) := Except Error α

/-- `Result<T>::err`. -/
def Result.err {α : Type} (code : ErrorCode) (message : String) : Result α :=
  .error ⟨code, message⟩

/-- `Result::ok`. -/
def Result.isOk {α : Type} : Result α → Bool
  | .ok _ => true
  | .error _ => false

@[simp] lemma Result.isOk_ok {α : Type} (a : α) : Result.isOk (.ok a : Result α) = true := rfl

@[simp] lemma Result.isOk_error {α : Type} (e : Error) :
    Result.isOk (.error e : Result α) = false := rfl

/-- A sequence that succeeds has succeeded at its first step. -/
lemma Result.bind_ok {α β : Type} {x : Result α} {f : α → Result β} {b : β} (h : x >>= f = .ok b) :
    ∃ a, x = .ok a ∧ f a = .ok b := by
  cases x with
  | error e => cases h
  | ok a => exact ⟨a, rfl, h⟩

/-! ### `ids.hpp` -/

/-- The tag types of the identities. -/
inductive IdTag where
  | pciNodeId | pathId | linkId | measurementId | reservationId | policyId
  | workerId | workerBootId | coordinatorEpoch | attemptId | acceleratorId | nicId
  | storageDeviceId | memoryDeviceId

/-- The tag types of the generations. -/
inductive GenerationTag where
  | hostGeneration | pciNodeGeneration | deviceGeneration | pathGeneration
  | measurementGeneration | reservationGeneration | policyGeneration

/-- `StrongId<Tag>`: an identity, a 64-bit number under a tag. -/
structure StrongId (tag : IdTag) where
  value : UInt64
deriving DecidableEq, Repr

/-- `Generation<Tag>`: how current a fact is, a 64-bit number under a tag. -/
structure Generation (tag : GenerationTag) where
  value : UInt64
deriving DecidableEq, Repr

instance {tag : IdTag} : Inhabited (StrongId tag) := ⟨⟨0⟩⟩
instance {tag : GenerationTag} : Inhabited (Generation tag) := ⟨⟨0⟩⟩

lemma StrongId.value_inj {tag : IdTag} {a b : StrongId tag} : a.value = b.value ↔ a = b := by
  cases a; cases b; simp

/-- `operator<=>` on identities. -/
instance {tag : IdTag} : Ord (StrongId tag) := ⟨fun a b => compare a.value b.value⟩

instance {tag : IdTag} : Std.TransOrd (StrongId tag) where
  eq_swap := Std.OrientedOrd.eq_swap (α := UInt64)
  isLE_trans := Std.TransOrd.isLE_trans (α := UInt64)

instance {tag : IdTag} : Std.LawfulEqOrd (StrongId tag) where
  eq_of_compare h :=
    StrongId.value_inj.mp (Std.LawfulEqOrd.eq_of_compare (α := UInt64) h)

/-- `Generation::operator++`, wrapping at `2^64`. -/
def Generation.succ {tag : GenerationTag} (g : Generation tag) : Generation tag := ⟨g.value + 1⟩

/-- One increment never returns to the same generation. -/
lemma Generation.succ_ne {tag : GenerationTag} (g : Generation tag) : g.succ ≠ g := by
  intro h
  have hv : g.value + 1 = g.value := congrArg Generation.value h
  have h1 := congrArg UInt64.toNat hv
  have hlt := g.value.toNat_lt
  rw [UInt64.toNat_add, UInt64.toNat_one] at h1
  omega

/-- `std::map` keyed by an identity, iterated in key order. -/
abbrev IdMap (tag : IdTag) (β : Type) := Std.ExtTreeMap (StrongId tag) β compare

abbrev PciNodeId := StrongId .pciNodeId
abbrev PathId := StrongId .pathId
abbrev LinkId := StrongId .linkId
abbrev MeasurementId := StrongId .measurementId
abbrev ReservationId := StrongId .reservationId
abbrev PolicyId := StrongId .policyId
abbrev WorkerId := StrongId .workerId
abbrev WorkerBootId := StrongId .workerBootId
abbrev CoordinatorEpoch := StrongId .coordinatorEpoch
abbrev AttemptId := StrongId .attemptId
abbrev AcceleratorId := StrongId .acceleratorId
abbrev NicId := StrongId .nicId
abbrev StorageDeviceId := StrongId .storageDeviceId
abbrev MemoryDeviceId := StrongId .memoryDeviceId

abbrev HostGeneration := Generation .hostGeneration
abbrev PciNodeGeneration := Generation .pciNodeGeneration
abbrev DeviceGeneration := Generation .deviceGeneration
abbrev PathGeneration := Generation .pathGeneration
abbrev MeasurementGeneration := Generation .measurementGeneration
abbrev ReservationGeneration := Generation .reservationGeneration
abbrev PolicyGeneration := Generation .policyGeneration

end PcieFabric
