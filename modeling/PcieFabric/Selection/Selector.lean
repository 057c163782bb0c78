import PcieFabric.Lib.Ranking
import PcieFabric.Selection.Request
import PcieFabric.Snapshot.Path

/-!
The path-selection engine (`selection.hpp`).

* `localityRank`, `contentionRank`, `freshnessRank`, `compareComponents`: the
  component-wise comparator of two paths for a request.
* `SelectionDecision`: what a selection answers.
* `PathSelector.rank`, `PathSelector.select`: the ranking of all candidates, and
  the choice among those that pass the tests of `Buckets.add`.
-/

namespace PcieFabric

open Ranking

/-! ### The comparator -/

/-- `locality_rank`. -/
def localityRank (l : LocalityClass) : Int :=
  if l = LocalityClass.sameEndpoint then 0
  else if l = LocalityClass.sameSwitch then 1
  else if l = LocalityClass.sameRootComplex then 2
  else if l = LocalityClass.sameNumaDomain then 3
  else if l = LocalityClass.sameHostRemoteRoot then 4
  else if l = LocalityClass.crossNuma then 5
  else if l = LocalityClass.unknown then 6
  else if l = LocalityClass.synthetic then 7
  else 6

/-- `contention_rank`. -/
def contentionRank (c : ContentionState) : Int :=
  if c = ContentionState.idle then 0
  else if c = ContentionState.low then 1
  else if c = ContentionState.moderate then 2
  else if c = ContentionState.high then 3
  else if c = ContentionState.saturated then 4
  else if c = ContentionState.unknown then 2
  else 2

/-- `freshness_rank`. -/
def freshnessRank (f : Freshness) : Int :=
  if f = Freshness.current then 0
  else if f = Freshness.aging then 1
  else if f = Freshness.revalidationRequired then 2
  else if f = Freshness.stale then 3
  else if f = Freshness.invalid then 4
  else 4

namespace Path

variable (p : Path)

/-- The loop over the required capabilities. -/
def hasCapabilities (caps : List Capability) : Bool :=
  caps.foldl (fun cap c => cap && p.hasCapability c) true

/-- The measured throughput that is compared. This is the source's value for a
best measured rate in `[0, 2^64)`; beyond it, where `bestMeasured` may hold any
`double`, the cast of the source is undefined and saturates here. No result about
the order depends on which number it gives there, only that it is one number for
each path. -/
def comparedMeasured : UInt64 :=
  match p.bestMeasured with
  | some m => m.value.val.toUInt64
  | none => 0

/-- The theoretical throughput that is compared. -/
def comparedTheoretical : Float :=
  match p.theoretical with
  | some e => e.effectiveBytesPerSec.value.val
  | none => 0.0

end Path

/-- `compare_components`. -/
def compareComponents (a b : Path) (req : SelectionRequest) : Int :=
  let admA := decide (freshnessRank a.freshness.state ≤ 1) &&
    a.epoch == req.epoch && a.boot == req.boot
  let admB := decide (freshnessRank b.freshness.state ≤ 1) &&
    b.epoch == req.epoch && b.boot == req.boot
  if admA ≠ admB then (if admA then -1 else 1)
  else if !admA && !admB then
    if a.id.value < b.id.value then -1 else if a.id = b.id then 0 else 1
  else
    let capA := a.hasCapabilities req.requiredCapabilities
    let capB := b.hasCapabilities req.requiredCapabilities
    if capA ≠ capB then (if capA then -1 else 1)
    else if localityRank a.locality ≠ localityRank b.locality then
      if localityRank a.locality < localityRank b.locality then -1 else 1
    else if a.comparedMeasured ≠ b.comparedMeasured then
      if a.comparedMeasured > b.comparedMeasured then -1 else 1
    else if a.comparedTheoretical != b.comparedTheoretical then
      if a.comparedTheoretical > b.comparedTheoretical then -1 else 1
    else if contentionRank a.contention ≠ contentionRank b.contention then
      if contentionRank a.contention < contentionRank b.contention then -1 else 1
    else if a.confidence.value.val != b.confidence.value.val then
      if a.confidence.value.val > b.confidence.value.val then -1 else 1
    else if a.source ≠ b.source then
      if a.source.value < b.source.value then -1 else 1
    else if a.destination ≠ b.destination then
      if a.destination.value < b.destination.value then -1 else 1
    else if a.id ≠ b.id then
      if a.id.value < b.id.value then -1 else 1
    else 0

/-! ### The decision -/

/-- `SelectionDecision`. -/
structure SelectionDecision where
  decision : Decision := Decision.reject
  selected : Option PathId := none
  alternatives : List PathId := []
  eliminated : List PathId := []
  reranked : List PathId := []
  bindingConstraint : String := ""
  reasons : List String := []
  locality : LocalityClass := LocalityClass.unknown
  theoretical : Option LinkEnvelope := none
  measured : Option BytesPerSecond := none
  confidence : Confidence := default
  contention : ContentionState := ContentionState.unknown
deriving DecidableEq

/-- The local lists of `PathSelector::select`, and the ids it has put into the
decision's `eliminated`. -/
structure Buckets where
  admissible : List Path := []
  eliminated : List Path := []
  elimReasons : List String := []
  deferred : List Path := []
  notFresh : List PathId := []

/-- The loop body of `PathSelector::select`. -/
def Buckets.add (req : SelectionRequest) (b : Buckets) (p : Path) : Buckets :=
  let fresh := decide (freshnessRank p.freshness.state ≤ 1)
  let auth := p.epoch == req.epoch && p.boot == req.boot
  let cap := p.hasCapabilities req.requiredCapabilities
  if !auth then
    { b with
      eliminated := b.eliminated ++ [p]
      elimReasons := b.elimReasons ++
        ["stale authority (epoch/boot mismatch) on path " ++ toString p.id.value.toNat] }
  else if !cap then
    { b with
      eliminated := b.eliminated ++ [p]
      elimReasons := b.elimReasons ++ ["required capability unavailable on path"] }
  else if !fresh then
    { b with
      notFresh := b.notFresh ++ [p.id]
      elimReasons := b.elimReasons ++ ["path not fresh (revalidation required)"] }
  else if p.contention = ContentionState.saturated then
    { b with deferred := b.deferred ++ [p] }
  else { b with admissible := b.admissible ++ [p] }

namespace PathSelector

/-- The test that both sorts use. -/
def ranksBefore (req : SelectionRequest) (a b : Path) : Bool :=
  decide (compareComponents a b req < 0)

/-- `PathSelector::rank`. -/
def rank (candidates : List Path) (req : SelectionRequest) : List PathId :=
  (stableSort (ranksBefore req) candidates).map Path.id

/-- The buckets after the loop over the candidates. -/
def buckets (candidates : List Path) (req : SelectionRequest) : Buckets :=
  candidates.foldl (Buckets.add req) {}

/-- The answer where no candidate is admissible. The eliminated paths of the
first two tests are not copied into it. -/
def refuse (b : Buckets) : SelectionDecision :=
  if b.deferred.isEmpty then
    { decision := Decision.reject
      eliminated := b.notFresh
      bindingConstraint := b.elimReasons.headD "no admissible path"
      reasons := b.elimReasons }
  else
    { decision := Decision.defer
      alternatives := b.deferred.map Path.id
      eliminated := b.notFresh
      bindingConstraint := "all candidate paths saturated"
      reasons := ["deferred: contention saturation"] }

/-- The test for a degraded best path. -/
def penalized (best : Path) : Bool :=
  decide (best.contention = ContentionState.moderate ∨ best.contention = ContentionState.high ∨
    best.locality = LocalityClass.crossNuma ∨ best.locality = LocalityClass.sameHostRemoteRoot)

/-- The binding constraint of a degraded best path. -/
def penaltyConstraint (best : Path) : String :=
  if best.contention = ContentionState.high then "contention penalty"
  else if best.locality = LocalityClass.crossNuma then "cross-NUMA penalty"
  else "remote-root locality penalty"

/-- The answer where the best of the pool is `best`. -/
def choose (b : Buckets) (best : Path) (rest : List Path) : SelectionDecision where
  decision := if penalized best then Decision.usePathWithPenalty else Decision.usePath
  selected := some best.id
  alternatives := rest.map Path.id ++ b.deferred.map Path.id
  eliminated := b.notFresh ++ b.eliminated.map Path.id
  reranked := (best :: rest).map Path.id
  bindingConstraint :=
    if penalized best then penaltyConstraint best else "best component-wise ranking"
  reasons := [if penalized best then penaltyConstraint best
    else "selected best in component-wise order"]
  locality := best.locality
  theoretical := best.theoretical
  measured := best.bestMeasured
  confidence := best.confidence
  contention := best.contention

/-- `PathSelector::select`. -/
def select (candidates : List Path) (req : SelectionRequest) : SelectionDecision :=
  let b := buckets candidates req
  match stableSort (ranksBefore req) b.admissible with
  | [] => refuse b
  | best :: rest => choose b best rest

end PathSelector

end PcieFabric
