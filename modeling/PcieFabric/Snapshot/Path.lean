import PcieFabric.Base.Values

/-!
A resolved path between two endpoints (`path.hpp`): the record with its
structural facts, its evidence and its authority.

* `Path`: the fields of the class, with their member initializers.
* `Path.hopCount`: the links of the bridge chain, in 32 bits.
* `Path.authorityMatches`: the epoch and boot of the path are the given ones.
* `Path.revalidate`: the downgrade of a path that is not `INVALID`.
-/

namespace PcieFabric

/-- `Path`. -/
structure Path where
  id : PathId := default
  generation : PathGeneration := default
  source : PciNodeId := default
  destination : PciNodeId := default
  pathClass : PathClass := PathClass.unknown
  bridgeChain : List PciNodeId := []
  links : List LinkId := []
  locality : LocalityClass := LocalityClass.unknown
  theoretical : Option LinkEnvelope := none
  caps : Finset Capability := ∅
  bestMeasured : Option BytesPerSecond := none
  measuredProvenance : Provenance := Provenance.unknown
  history : List MeasurementId := []
  freshness : FreshnessRecord := {}
  contention : ContentionState := ContentionState.unknown
  contentionScore : ContentionScore := default
  shared : List PciNodeId := []
  confidence : Confidence := default
  structuralProvenance : Provenance := Provenance.reported
  epoch : CoordinatorEpoch := default
  boot : WorkerBootId := default
  hostGeneration : HostGeneration := default
  pathGeneration : PathGeneration := default
  deviceGeneration : DeviceGeneration := default
deriving DecidableEq

namespace Path

/-- `Path::hop_count`. -/
def hopCount (p : Path) : UInt32 :=
  UInt32.ofNat (if p.bridgeChain.isEmpty then 0 else p.bridgeChain.length - 1)

/-- `Path::authority_matches`. -/
def authorityMatches (p : Path) (e : CoordinatorEpoch) (b : WorkerBootId) : Bool :=
  p.epoch == e && p.boot == b

/-- `Path::has_capability`. -/
def hasCapability (p : Path) (c : Capability) : Bool := decide (c ∈ p.caps)

/-- The loop body of `mark_physical_revalidation_required` and of
`Coordinator::revalidate_all`. -/
def revalidate (p : Path) : Path :=
  if p.freshness.state ≠ Freshness.invalid then
    { p with freshness := ⟨Freshness.revalidationRequired, p.freshness.ageMs⟩ }
  else p

lemma revalidate_revalidate (p : Path) : p.revalidate.revalidate = p.revalidate := by
  by_cases h : p.freshness.state = Freshness.invalid <;> simp [revalidate, h]

lemma authorityMatches_iff {p : Path} {e : CoordinatorEpoch} {b : WorkerBootId} :
    p.authorityMatches e b = true ↔ p.epoch = e ∧ p.boot = b := by
  simp [authorityMatches]

end Path

end PcieFabric
