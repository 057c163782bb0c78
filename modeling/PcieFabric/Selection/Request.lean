import PcieFabric.Base.Values

/-!
What a caller asks the path selection for (`selection.hpp`).

* `SelectionRequest`: the endpoints, the requirements and the authority of a
  request.
-/

namespace PcieFabric

/-- `SelectionRequest`. -/
structure SelectionRequest where
  source : PciNodeId := default
  destination : PciNodeId := default
  payloadSize : TransferBytes := default
  priority : UInt32 := 0
  requiredCapabilities : List Capability := []
  epoch : CoordinatorEpoch := default
  boot : WorkerBootId := default
  policyGeneration : PolicyGeneration := default
  wantReservation : Bool := false
  preferLocal : Bool := true
deriving DecidableEq, Repr

end PcieFabric
