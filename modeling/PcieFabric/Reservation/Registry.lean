import PcieFabric.Base.Values
import PcieFabric.Lib.Run

/-!
Governed path reservations (`reservation.hpp`): the `Reservation` record and
the `ReservationRegistry` with its two maps, the reservation records by id and
the running total of reserved bytes by path.

* `Reservation.Built`: the records that the constructor and the setters make.
* `ReservationRegistry.reserve`, `release`, `setLimits`, `validateAccounting`:
  the calls, each under the registry's lock and so one step.
* `reserve_ok_iff`, `release_ok_iff`: a call succeeds exactly when its
  precondition (`Admits`, `Releasable`) holds; `reserve_of_not_admits` and
  `release_of_not_releasable`: a call that fails changes nothing.
* `RegistryCall`, `ReservationRegistry.step`: the calls as inputs of a machine.
-/

namespace PcieFabric

/-- `Reservation`. -/
structure Reservation where
  id : ReservationId := default
  generation : ReservationGeneration := default
  path : PathId := default
  pathGeneration : PathGeneration := default
  worker : WorkerId := default
  boot : WorkerBootId := default
  attempt : AttemptId := default
  epoch : CoordinatorEpoch := default
  policy : PolicyId := default
  policyGeneration : PolicyGeneration := default
  bytes : CapacityBytes := default
  bandwidth : BytesPerSecond := default
  duration : Milliseconds := default
  priority : UInt32 := 0
  source : PciNodeId := default
  destination : PciNodeId := default
  workload : List UInt8 := []
  createdAt : EpochMs := default
  activeFlag : Bool := false
  releasedFlag : Bool := false
deriving DecidableEq, Repr

namespace Reservation

/-- `Reservation::set_path`. -/
def setPath (r : Reservation) (p : PathId) (pgen : PathGeneration) : Reservation :=
  { r with path := p, pathGeneration := pgen }

/-- `Reservation::set_authority`. -/
def setAuthority (r : Reservation) (w : WorkerId) (boot : WorkerBootId) (attempt : AttemptId)
    (epoch : CoordinatorEpoch) (pol : PolicyId) (pgen : PolicyGeneration) : Reservation :=
  { r with
    worker := w
    boot := boot
    attempt := attempt
    epoch := epoch
    policy := pol
    policyGeneration := pgen }

/-- `Reservation::set_request`. -/
def setRequest (r : Reservation) (bytes : CapacityBytes) (bps : BytesPerSecond)
    (duration : Milliseconds) (prio : UInt32) (src dst : PciNodeId) (workload : List UInt8) :
    Reservation :=
  { r with
    bytes := bytes
    bandwidth := bps
    duration := duration
    priority := prio
    source := src
    destination := dst
    workload := workload }

/-- `Reservation::active`. -/
def active (r : Reservation) : Bool := r.activeFlag && !r.releasedFlag

/-- `Reservation::released`. -/
def released (r : Reservation) : Bool := r.releasedFlag

/-- `Reservation::mark_active`. -/
def markActive (r : Reservation) : Reservation :=
  { r with activeFlag := true, releasedFlag := false }

/-- `Reservation::mark_released`. -/
def markReleased (r : Reservation) : Reservation :=
  { r with activeFlag := false, releasedFlag := true }

/-- The values of the class: what its constructors and its setters make. -/
inductive Built : Reservation → Prop
  | new (id : ReservationId) (gen : ReservationGeneration) : Built { id := id, generation := gen }
  | setPath {r : Reservation} (h : Built r) (p : PathId) (pgen : PathGeneration) :
      Built (r.setPath p pgen)
  | setAuthority {r : Reservation} (h : Built r) (w : WorkerId) (boot : WorkerBootId)
      (attempt : AttemptId) (epoch : CoordinatorEpoch) (pol : PolicyId)
      (pgen : PolicyGeneration) : Built (r.setAuthority w boot attempt epoch pol pgen)
  | setRequest {r : Reservation} (h : Built r) (bytes : CapacityBytes) (bps : BytesPerSecond)
      (duration : Milliseconds) (prio : UInt32) (src dst : PciNodeId) (workload : List UInt8) :
      Built (r.setRequest bytes bps duration prio src dst workload)
  | markActive {r : Reservation} (h : Built r) : Built r.markActive
  | markReleased {r : Reservation} (h : Built r) : Built r.markReleased

/-- No setter writes the time of creation. -/
lemma Built.createdAt {r : Reservation} (h : r.Built) : r.createdAt = default := by
  induction h with
  | new id gen => rfl
  | setPath h p pgen ih => exact ih
  | setAuthority h w boot attempt epoch pol pgen ih => exact ih
  | setRequest h bytes bps duration prio src dst workload ih => exact ih
  | markActive h ih => exact ih
  | markReleased h ih => exact ih

@[simp] lemma active_markActive (r : Reservation) : r.markActive.active = true := rfl
@[simp] lemma released_markActive (r : Reservation) : r.markActive.released = false := rfl
@[simp] lemma active_markReleased (r : Reservation) : r.markReleased.active = false := rfl
@[simp] lemma released_markReleased (r : Reservation) : r.markReleased.released = true := rfl
@[simp] lemma id_markActive (r : Reservation) : r.markActive.id = r.id := rfl
@[simp] lemma path_markActive (r : Reservation) : r.markActive.path = r.path := rfl
@[simp] lemma bytes_markActive (r : Reservation) : r.markActive.bytes = r.bytes := rfl
@[simp] lemma boot_markActive (r : Reservation) : r.markActive.boot = r.boot := rfl
@[simp] lemma worker_markActive (r : Reservation) : r.markActive.worker = r.worker := rfl
@[simp] lemma epoch_markActive (r : Reservation) : r.markActive.epoch = r.epoch := rfl

end Reservation

/-- `ReservationLimits`. -/
structure ReservationLimits where
  perPathBytes : CapacityBytes := default
  maxDuration : Milliseconds := default
deriving DecidableEq, Repr

/-- `ReservationRegistry`. -/
structure ReservationRegistry where
  limits : ReservationLimits
  reservations : IdMap .reservationId Reservation := ∅
  activeByPath : IdMap .pathId UInt64 := ∅

namespace ReservationRegistry

variable (reg : ReservationRegistry)

/-- `ReservationRegistry::set_limits`. -/
def setLimits (l : ReservationLimits) : ReservationRegistry := { reg with limits := l }

/-- `ReservationRegistry::reserved_bytes`. -/
def reservedBytes (path : PathId) : UInt64 :=
  match reg.activeByPath[path]? with
  | none => 0
  | some used => used

/-- The two maps after an accepted reservation. -/
def recordReserve (req : Reservation) (used : UInt64) : ReservationRegistry :=
  let r := req.markActive
  { reg with
    reservations := reg.reservations.insert r.id r
    activeByPath := reg.activeByPath.insert r.path (used + r.bytes.value) }

/-- `ReservationRegistry::reserve`. -/
def reserve (req : Reservation) : Result Reservation × ReservationRegistry :=
  if reg.reservations.contains req.id then
    (.err .alreadyExists "duplicate reservation id", reg)
  else
    let used := reg.reservedBytes req.path
    -- the sum is a `uint64_t` and wraps before it is compared
    if used + req.bytes.value > reg.limits.perPathBytes.value then
      (.err .overcommit "reservation would overcommit path capacity", reg)
    else (.ok req.markActive, reg.recordReserve req used)

/-- The two maps after an accepted release of the record `r` at `id`. -/
def recordRelease (id : ReservationId) (r : Reservation) : ReservationRegistry :=
  let remaining := reg.reservedBytes r.path - r.bytes.value
  { reg with
    reservations := reg.reservations.insert id r.markReleased
    activeByPath :=
      if remaining = 0 then reg.activeByPath.erase r.path
      else reg.activeByPath.insert r.path remaining }

/-- `ReservationRegistry::release`. -/
def release (id : ReservationId) (boot : WorkerBootId) (gen : ReservationGeneration)
    (epoch : CoordinatorEpoch) : Result Unit × ReservationRegistry :=
  match reg.reservations[id]? with
  | none => (.err .notFound "unknown reservation", reg)
  | some r =>
      if r.released then (.err .duplicateRelease "reservation already released", reg)
      else if r.boot ≠ boot then (.err .staleBoot "worker boot mismatch on release", reg)
      else if r.generation ≠ gen then
        (.err .staleAuthority "reservation generation mismatch", reg)
      else if r.epoch ≠ epoch then (.err .staleEpoch "coordinator epoch mismatch", reg)
      else if !r.active then (.err .doubleRelease "reservation not active", reg)
      else if reg.reservedBytes r.path < r.bytes.value then
        (.err .accountingDrift "accounting drift on release", reg)
      else (.ok (), reg.recordRelease id r)

/-- `ReservationRegistry::active_count`. -/
def activeCount : Nat := (reg.reservations.toList.filter fun p => p.2.active).length

/-- The totals `validate_accounting` recomputes from the records. -/
def recomputedTotals : IdMap .pathId UInt64 :=
  reg.reservations.foldl
    (fun sum _ r =>
      if r.active then sum.insert r.path (sum.getD r.path 0 + r.bytes.value) else sum) ∅

/-- `ReservationRegistry::validate_accounting`. -/
def validateAccounting : Result Unit :=
  match reg.activeByPath.toList.find? fun p => reg.recomputedTotals.getD p.1 0 ≠ p.2 with
  | some _ => .err .accountingDrift "reservation accounting mismatch"
  | none => .ok ()

/-! ### When a call succeeds -/

/-- The precondition of `reserve`: a fresh id, and a 64-bit total within the
limit. -/
def Admits (req : Reservation) : Prop :=
  reg.reservations[req.id]? = none ∧
    reg.reservedBytes req.path + req.bytes.value ≤ reg.limits.perPathBytes.value

instance (req : Reservation) : Decidable (reg.Admits req) := inferInstanceAs (Decidable (_ ∧ _))

/-- The precondition of `release`: an active record under the id that carries
the boot, generation and epoch of the call, and a total that covers it. -/
def Releasable (id : ReservationId) (boot : WorkerBootId) (gen : ReservationGeneration)
    (epoch : CoordinatorEpoch) (r : Reservation) : Prop :=
  reg.reservations[id]? = some r ∧ r.released = false ∧ r.boot = boot ∧ r.generation = gen ∧
    r.epoch = epoch ∧ r.active = true ∧ r.bytes.value ≤ reg.reservedBytes r.path

variable {reg}

lemma reserve_of_admits {req : Reservation} (h : reg.Admits req) :
    reg.reserve req = (.ok req.markActive, reg.recordReserve req (reg.reservedBytes req.path)) := by
  obtain ⟨hfresh, hle⟩ := h
  have hc : reg.reservations.contains req.id = false := by
    rw [Std.ExtTreeMap.contains_eq_isSome_getElem?, hfresh]; rfl
  simp [reserve, hc, hle]

lemma reserve_of_not_admits {req : Reservation} (h : ¬ reg.Admits req) :
    ∃ e, reg.reserve req = (.error e, reg) := by
  unfold reserve
  split
  · exact ⟨_, rfl⟩
  · next hc =>
      have hfresh : reg.reservations[req.id]? = none := Std.ExtTreeMap.getElem?_eq_none hc
      have hgt : reg.reservedBytes req.path + req.bytes.value > reg.limits.perPathBytes.value := by
        simpa using fun hle => h ⟨hfresh, hle⟩
      exact ⟨_, by simp only [if_pos hgt]; rfl⟩

/-- `reserve` succeeds exactly when it admits the request. -/
lemma reserve_ok_iff {req : Reservation} : (reg.reserve req).1.isOk ↔ reg.Admits req := by
  by_cases h : reg.Admits req
  · simp [reserve_of_admits h, h]
  · obtain ⟨e, he⟩ := reserve_of_not_admits h
    simp [he, h]

lemma release_of_releasable {id : ReservationId} {boot : WorkerBootId}
    {gen : ReservationGeneration} {epoch : CoordinatorEpoch} {r : Reservation}
    (h : reg.Releasable id boot gen epoch r) :
    reg.release id boot gen epoch = (.ok (), reg.recordRelease id r) := by
  obtain ⟨hget, hrel, rfl, rfl, rfl, hact, hle⟩ := h
  have hlt : ¬ reg.reservedBytes r.path < r.bytes.value := UInt64.not_lt.mpr hle
  simp [release, hget, hrel, hact, hlt]

lemma release_of_not_releasable {id : ReservationId} {boot : WorkerBootId}
    {gen : ReservationGeneration} {epoch : CoordinatorEpoch}
    (h : ∀ r, ¬ reg.Releasable id boot gen epoch r) :
    ∃ e, reg.release id boot gen epoch = (.error e, reg) := by
  unfold release
  cases hget : reg.reservations[id]? with
  | none => exact ⟨_, rfl⟩
  | some r =>
      dsimp only
      -- every rejecting branch leaves the registry alone
      split_ifs with h1 h2 h3 h4 h5 h6
      iterate 6 exact ⟨_, rfl⟩
      refine absurd ⟨hget, ?_⟩ (h r)
      simp only [ne_eq, not_not, Bool.not_eq_true', Bool.not_eq_true, Bool.not_eq_false,
        UInt64.not_lt] at h1 h2 h3 h4 h5 h6
      exact ⟨h1, h2, h3, h4, h5, h6⟩

/-- `release` succeeds exactly when some record is releasable by the call. -/
lemma release_ok_iff {id : ReservationId} {boot : WorkerBootId} {gen : ReservationGeneration}
    {epoch : CoordinatorEpoch} :
    (reg.release id boot gen epoch).1.isOk ↔ ∃ r, reg.Releasable id boot gen epoch r := by
  by_cases h : ∃ r, reg.Releasable id boot gen epoch r
  · obtain ⟨r, hr⟩ := h
    simp only [release_of_releasable hr, Result.isOk_ok, true_iff]
    exact ⟨r, hr⟩
  · push Not at h
    obtain ⟨e, he⟩ := release_of_not_releasable h
    simpa [he] using h

/-! ### What a recorded call writes -/

/-- A recorded reservation writes the record of its id and no other. -/
lemma getElem?_recordReserve (reg : ReservationRegistry) (req : Reservation) (used : UInt64)
    (id : ReservationId) : (reg.recordReserve req used).reservations[id]? =
      if req.id = id then some req.markActive else reg.reservations[id]? := by
  simp only [recordReserve, Reservation.id_markActive, Std.ExtTreeMap.getElem?_insert,
    Std.LawfulEqCmp.compare_eq_iff_eq]

/-- The registry holds the reservation it recorded. -/
lemma getElem?_recordReserve_self (reg : ReservationRegistry) (req : Reservation)
    (used : UInt64) : (reg.recordReserve req used).reservations[req.id]? = some req.markActive := by
  rw [getElem?_recordReserve, if_pos rfl]

/-- A recorded release writes the record it names and no other. -/
lemma getElem?_recordRelease (reg : ReservationRegistry) (id id' : ReservationId)
    (r : Reservation) : (reg.recordRelease id r).reservations[id']? =
      if id = id' then some r.markReleased else reg.reservations[id']? := by
  simp only [recordRelease, Std.ExtTreeMap.getElem?_insert, Std.LawfulEqCmp.compare_eq_iff_eq]

/-- A reservation that is admitted is recorded, so the registry changes. -/
lemma recordReserve_ne {req : Reservation} (h : reg.Admits req) (used : UInt64) :
    reg.recordReserve req used ≠ reg := by
  intro heq
  have hget := getElem?_recordReserve_self reg req used
  rw [heq, h.1] at hget
  cases hget

/-- A release that is performed ends an active record, so the registry
changes. -/
lemma recordRelease_ne {id : ReservationId} {boot : WorkerBootId} {gen : ReservationGeneration}
    {epoch : CoordinatorEpoch} {r : Reservation} (h : reg.Releasable id boot gen epoch r) :
    reg.recordRelease id r ≠ reg := by
  intro heq
  have hget := getElem?_recordRelease reg id id r
  rw [heq, if_pos rfl, h.1] at hget
  have hreleased := h.2.1
  rw [Option.some.inj hget] at hreleased
  cases hreleased

end ReservationRegistry

/-! ### The registry as a machine -/

/-- A call on the registry. -/
inductive RegistryCall where
  | reserve (req : Reservation)
  | release (id : ReservationId) (boot : WorkerBootId) (gen : ReservationGeneration)
      (epoch : CoordinatorEpoch)
  | setLimits (l : ReservationLimits)

namespace ReservationRegistry

/-- The registry after a call. -/
def step (reg : ReservationRegistry) : RegistryCall → ReservationRegistry
  | .reserve req => (reg.reserve req).2
  | .release id boot gen epoch => (reg.release id boot gen epoch).2
  | .setLimits l => reg.setLimits l

/-- What a call does to the registry: nothing, a recorded reservation, a
recorded release, or new limits. -/
lemma step_cases (reg : ReservationRegistry) (call : RegistryCall) :
    reg.step call = reg ∨
      (∃ req, call = .reserve req ∧ reg.Admits req ∧
        reg.step call = reg.recordReserve req (reg.reservedBytes req.path)) ∨
      (∃ id boot gen epoch r, call = .release id boot gen epoch ∧
        reg.Releasable id boot gen epoch r ∧ reg.step call = reg.recordRelease id r) ∨
      (∃ l, call = .setLimits l ∧ reg.step call = reg.setLimits l) := by
  cases call with
  | reserve req =>
      by_cases h : reg.Admits req
      · exact .inr (.inl ⟨req, rfl, h, by rw [step, reserve_of_admits h]⟩)
      · obtain ⟨e, he⟩ := reserve_of_not_admits h
        exact .inl (by rw [step, he])
  | release id boot gen epoch =>
      by_cases h : ∃ r, reg.Releasable id boot gen epoch r
      · obtain ⟨r, hr⟩ := h
        exact .inr (.inr (.inl ⟨id, boot, gen, epoch, r, rfl, hr,
          by rw [step, release_of_releasable hr]⟩))
      · push Not at h
        obtain ⟨e, he⟩ := release_of_not_releasable h
        exact .inl (by rw [step, he])
  | setLimits l => exact .inr (.inr (.inr ⟨l, rfl, rfl⟩))

end ReservationRegistry

end PcieFabric
