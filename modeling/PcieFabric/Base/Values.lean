import PcieFabric.Base.Ids

/-!
Semantic enums (`enums.hpp`), typed quantities (`values.hpp`) and the record
types of `provenance.hpp` and `bandwidth.hpp` built from them.

* `ScopedEnum`: an `enum class : std::uint8_t` is a byte, and the cast from a
  number never fails; `ScopedEnum.valid` is the check against the name table.
  A byte beyond the table is a representable, invalid value.
* `Double`: a `double` is its IEEE-754 bit pattern; arithmetic and comparisons
  are those of binary64.
* `Quantity`: one representation under a tag, with the `isValid` predicates of
  the double-backed types.
-/

namespace PcieFabric

/-! ### `enums.hpp` -/

/-- An `enum class` over `std::uint8_t` with its name table. -/
structure ScopedEnum (names : List String) where
  code : UInt8
deriving DecidableEq, Repr

/-- `valid(e)`: the code has an entry in the name table. -/
def ScopedEnum.valid {names : List String} (e : ScopedEnum names) : Bool :=
  decide (e.code.toNat < names.length)

instance {names : List String} : Inhabited (ScopedEnum names) := ⟨⟨0⟩⟩

def kProvenanceNames : List String :=
  ["MEASURED", "REPORTED", "DERIVED", "ESTIMATED", "SYNTHETIC", "UNKNOWN"]
def kFreshnessNames : List String :=
  ["CURRENT", "AGING", "STALE", "REVALIDATION_REQUIRED", "INVALID"]
def kLocalityNames : List String :=
  ["SAME_ENDPOINT", "SAME_SWITCH", "SAME_ROOT_COMPLEX", "SAME_NUMA_DOMAIN",
    "SAME_HOST_REMOTE_ROOT", "CROSS_NUMA", "UNKNOWN", "SYNTHETIC"]
def kPathClassNames : List String :=
  ["ENDPOINT_TO_HOST", "HOST_TO_ENDPOINT", "ENDPOINT_TO_ENDPOINT",
    "ACCELERATOR_TO_HOST", "HOST_TO_ACCELERATOR", "ACCELERATOR_TO_NIC",
    "ACCELERATOR_TO_STORAGE", "NIC_TO_ACCELERATOR", "STORAGE_TO_ACCELERATOR",
    "PEER_ENDPOINT_PATH", "UNKNOWN"]
def kContentionNames : List String :=
  ["UNKNOWN", "IDLE", "LOW", "MODERATE", "HIGH", "SATURATED"]
def kDecisionNames : List String :=
  ["USE_PATH", "USE_PATH_WITH_PENALTY", "RESERVE_PATH", "DEFER", "REJECT",
    "REVALIDATION_REQUIRED"]
def kDeviceClassNames : List String :=
  ["UNKNOWN", "OTHER", "ACCELERATOR", "NIC", "STORAGE", "MEMORY", "BRIDGE",
    "ROOT_PORT", "ROOT_COMPLEX", "SWITCH", "HOST_BRIDGE"]
def kPcieGenNames : List String :=
  ["UNKNOWN", "GEN1", "GEN2", "GEN3", "GEN4", "GEN5", "GEN6"]
def kEngineNames : List String :=
  ["NONE", "CUDA", "SYNTHETIC", "WINDOWS", "COORDINATOR"]
def kTransferClassNames : List String :=
  ["UNKNOWN", "PAGEABLE_H2D", "PAGEABLE_D2H", "PINNED_H2D", "PINNED_D2H",
    "SYNCHRONOUS_COPY", "KERNEL_LAUNCH"]
def kCapabilityNames : List String :=
  ["PEER_ACCESS", "GPUDIRECT", "PEER_MEMORY", "TRANSPORT_OFFLOAD", "SR_IOV",
    "ARI", "ACS", "RESIZABLE_BAR", "DIRECT_PATH"]

abbrev Provenance := ScopedEnum kProvenanceNames
abbrev Freshness := ScopedEnum kFreshnessNames
abbrev LocalityClass := ScopedEnum kLocalityNames
abbrev PathClass := ScopedEnum kPathClassNames
abbrev ContentionState := ScopedEnum kContentionNames
abbrev Decision := ScopedEnum kDecisionNames
abbrev DeviceClass := ScopedEnum kDeviceClassNames
abbrev PcieGen := ScopedEnum kPcieGenNames
abbrev EngineKind := ScopedEnum kEngineNames
abbrev TransferClass := ScopedEnum kTransferClassNames
abbrev Capability := ScopedEnum kCapabilityNames

/-! The enumerators the modelled code names. -/

def Provenance.measured : Provenance := ⟨0⟩
def Provenance.reported : Provenance := ⟨1⟩
def Provenance.unknown : Provenance := ⟨5⟩
def Freshness.current : Freshness := ⟨0⟩
def Freshness.aging : Freshness := ⟨1⟩
def Freshness.stale : Freshness := ⟨2⟩
def Freshness.revalidationRequired : Freshness := ⟨3⟩
def Freshness.invalid : Freshness := ⟨4⟩
def LocalityClass.sameEndpoint : LocalityClass := ⟨0⟩
def LocalityClass.sameSwitch : LocalityClass := ⟨1⟩
def LocalityClass.sameRootComplex : LocalityClass := ⟨2⟩
def LocalityClass.sameNumaDomain : LocalityClass := ⟨3⟩
def LocalityClass.sameHostRemoteRoot : LocalityClass := ⟨4⟩
def LocalityClass.crossNuma : LocalityClass := ⟨5⟩
def LocalityClass.unknown : LocalityClass := ⟨6⟩
def LocalityClass.synthetic : LocalityClass := ⟨7⟩
def PathClass.endpointToHost : PathClass := ⟨0⟩
def PathClass.hostToEndpoint : PathClass := ⟨1⟩
def PathClass.acceleratorToHost : PathClass := ⟨3⟩
def PathClass.hostToAccelerator : PathClass := ⟨4⟩
def PathClass.acceleratorToNic : PathClass := ⟨5⟩
def PathClass.acceleratorToStorage : PathClass := ⟨6⟩
def PathClass.nicToAccelerator : PathClass := ⟨7⟩
def PathClass.storageToAccelerator : PathClass := ⟨8⟩
def PathClass.peerEndpointPath : PathClass := ⟨9⟩
def PathClass.unknown : PathClass := ⟨10⟩
def ContentionState.unknown : ContentionState := ⟨0⟩
def ContentionState.idle : ContentionState := ⟨1⟩
def ContentionState.low : ContentionState := ⟨2⟩
def ContentionState.moderate : ContentionState := ⟨3⟩
def ContentionState.high : ContentionState := ⟨4⟩
def ContentionState.saturated : ContentionState := ⟨5⟩
def Decision.usePath : Decision := ⟨0⟩
def Decision.usePathWithPenalty : Decision := ⟨1⟩
def Decision.defer : Decision := ⟨3⟩
def Decision.reject : Decision := ⟨4⟩
def DeviceClass.unknown : DeviceClass := ⟨0⟩
def DeviceClass.other : DeviceClass := ⟨1⟩
def DeviceClass.accelerator : DeviceClass := ⟨2⟩
def DeviceClass.nic : DeviceClass := ⟨3⟩
def DeviceClass.storage : DeviceClass := ⟨4⟩
def DeviceClass.memory : DeviceClass := ⟨5⟩
def DeviceClass.bridge : DeviceClass := ⟨6⟩
def DeviceClass.rootPort : DeviceClass := ⟨7⟩
def DeviceClass.rootComplex : DeviceClass := ⟨8⟩
def DeviceClass.switch : DeviceClass := ⟨9⟩
def PcieGen.gen1 : PcieGen := ⟨1⟩
def PcieGen.gen2 : PcieGen := ⟨2⟩
def PcieGen.gen3 : PcieGen := ⟨3⟩
def PcieGen.gen4 : PcieGen := ⟨4⟩
def PcieGen.gen5 : PcieGen := ⟨5⟩
def PcieGen.gen6 : PcieGen := ⟨6⟩
def EngineKind.none : EngineKind := ⟨0⟩
def TransferClass.unknown : TransferClass := ⟨0⟩
def TransferClass.pageableH2d : TransferClass := ⟨1⟩
def TransferClass.pinnedH2d : TransferClass := ⟨3⟩

/-! ### `values.hpp` -/

/-- A `double`: its IEEE-754 binary64 bit pattern. -/
structure Double where
  bits : UInt64
deriving DecidableEq, Repr

namespace Double

/-- The binary64 number the bits stand for. -/
def val (d : Double) : Float := Float.ofBits d.bits

/-- The bits of a computed number. -/
def ofFloat (x : Float) : Double := ⟨x.toBits⟩

instance : Inhabited Double := ⟨⟨0⟩⟩

end Double

/-- The quantity types of `values.hpp`. -/
inductive QuantityTag where
  | transferBytes | capacityBytes | nanoseconds | milliseconds | laneCount
  | iterationCount | bytesPerSecond | contentionScore | confidence

/-- A typed quantity: one representation under a tag. -/
structure Quantity (tag : QuantityTag) (Rep : Type) where
  value : Rep
deriving DecidableEq, Repr

instance {tag : QuantityTag} {Rep : Type} [Inhabited Rep] : Inhabited (Quantity tag Rep) :=
  ⟨⟨default⟩⟩

abbrev TransferBytes := Quantity .transferBytes UInt64
abbrev CapacityBytes := Quantity .capacityBytes UInt64
abbrev Nanoseconds := Quantity .nanoseconds UInt64
abbrev Milliseconds := Quantity .milliseconds UInt64
abbrev LaneCount := Quantity .laneCount UInt16
abbrev IterationCount := Quantity .iterationCount UInt64
abbrev BytesPerSecond := Quantity .bytesPerSecond Double
abbrev ContentionScore := Quantity .contentionScore Double
abbrev Confidence := Quantity .confidence Double

/-- `EpochMs`. -/
abbrev EpochMs := Milliseconds

/-- `is_valid` of a double-backed quantity: finite, and the type's own range. -/
def Double.isValidQuantity (pred : Float → Bool) (v : Double) : Bool :=
  v.val.isFinite && pred v.val

/-- `BytesPerSecond::is_valid`: finite and not negative. -/
def BytesPerSecond.isValid : Double → Bool :=
  Double.isValidQuantity fun v => decide (v ≥ 0.0)

/-- `ContentionScore::is_valid`: finite and in `[0,1]`. -/
def ContentionScore.isValid : Double → Bool :=
  Double.isValidQuantity fun v => decide (v ≥ 0.0) && decide (v ≤ 1.0)

/-- `Confidence::is_valid`: finite and in `[0,1]`. -/
def Confidence.isValid : Double → Bool :=
  Double.isValidQuantity fun v => decide (v ≥ 0.0) && decide (v ≤ 1.0)

/-- The cast `static_cast<std::uint8_t>(c.value() * 255.0)` of the encoder. -/
def Confidence.toByte (c : Confidence) : UInt8 := (c.value.val * 255.0).toUInt8

/-- `Confidence((*conf) / 255.0)` of the decoder. -/
def Confidence.ofByte (b : UInt8) : Confidence := ⟨.ofFloat (b.toFloat / 255.0)⟩

/-- Every byte decodes to a confidence in `[0,1]`. -/
lemma Confidence.isValid_ofByte (b : UInt8) : Confidence.isValid (Confidence.ofByte b).value := by
  have key : ∀ k : Fin 256,
      Confidence.isValid (Confidence.ofByte (UInt8.ofNat k.1)).value = true := by
    decide +kernel
  simpa using key ⟨b.toNat, b.toNat_lt⟩

/-! ### `provenance.hpp` and `bandwidth.hpp` -/

/-- `FreshnessRecord`. -/
structure FreshnessRecord where
  state : Freshness := Freshness.revalidationRequired
  ageMs : UInt64 := 0
deriving DecidableEq, Repr, Inhabited

/-- `envelope::signaling_gts`. -/
def signalingGts (g : PcieGen) : Float :=
  if g = PcieGen.gen1 then 2.5
  else if g = PcieGen.gen2 then 5.0
  else if g = PcieGen.gen3 then 8.0
  else if g = PcieGen.gen4 then 16.0
  else if g = PcieGen.gen5 then 32.0
  else if g = PcieGen.gen6 then 64.0
  else 0.0

/-- `envelope::encoding_ratio`. -/
def encodingRatio (g : PcieGen) : Float :=
  if g = PcieGen.gen1 ∨ g = PcieGen.gen2 then 8.0 / 10.0 else 128.0 / 130.0

/-- `envelope::effective_bytes_per_lane`. -/
def effectiveBytesPerLane (g : PcieGen) : Float :=
  signalingGts g * encodingRatio g * 1.0e9 / 8.0

/-- `LinkEnvelope`: generation and lane count determine the derived rates. -/
structure LinkEnvelope where
  generation : PcieGen := ⟨0⟩
  lanes : LaneCount := ⟨0⟩
deriving DecidableEq, Repr, Inhabited

/-- `LinkEnvelope::effective_bytes_per_sec`. -/
def LinkEnvelope.effectiveBytesPerSec (e : LinkEnvelope) : BytesPerSecond :=
  ⟨.ofFloat (effectiveBytesPerLane e.generation * e.lanes.value.toFloat)⟩

end PcieFabric
