import PcieFabric.Reservation.Releasable

/-!
Whether what was reserved can be returned (`reservation.hpp`).

* `Returnable`: every active reservation is released by a call that carries its own
  authority, and its path gets exactly its bytes back.
* `NoDrift`: no release ends in the two branches that the accounting is to exclude.
* `WellKept`: each record stands under its id and is active or released;
  `WellKept.code_ne_doubleRelease` excludes one of the two branches for good.
* `returnable_iff_sums_fit`: the other branch is excluded, and everything can be
  returned, in exactly the runs whose admitted sums fit 64 bits.
-/

namespace PcieFabric.ReservationRegistry

open Std Machine

/-- The release of a reservation with the authority it carries. -/
def releaseOf (reg : ReservationRegistry) (r : Reservation) : Result Unit × ReservationRegistry :=
  reg.release r.id r.boot r.generation r.epoch

/-- Every active reservation can be released with its own authority, and the total of
its path goes down by exactly its bytes. -/
def Returnable (reg : ReservationRegistry) : Prop :=
  ∀ (id : ReservationId) r, reg.reservations[id]? = some r → r.active = true →
    (reg.releaseOf r).1 = .ok () ∧
      ((reg.releaseOf r).2.reservedBytes r.path).toNat + r.bytes.value.toNat =
        (reg.reservedBytes r.path).toNat

/-- No release is answered with `ACCOUNTING_DRIFT` or `DOUBLE_RELEASE`. -/
def NoDrift (reg : ReservationRegistry) : Prop :=
  ∀ id boot gen epoch e, (reg.release id boot gen epoch).1 = .error e →
    e.code ≠ .accountingDrift ∧ e.code ≠ .doubleRelease

/-- Each record stands under its own id, and is active or released. -/
structure WellKept (reg : ReservationRegistry) : Prop where
  keyed : ∀ (id : ReservationId) r, reg.reservations[id]? = some r → r.id = id
  settled : ∀ (id : ReservationId) r, reg.reservations[id]? = some r →
    r.active = true ∨ r.released = true

variable {reg : ReservationRegistry}

/-! ### Well-kept records -/

lemma wellKept_init (limits : ReservationLimits) : WellKept { limits } := by
  refine ⟨fun id r h => ?_, fun id r h => ?_⟩
  all_goals
    rw [ExtTreeMap.getElem?_empty] at h
    cases h

/-- Every call keeps the records well. -/
lemma WellKept.step (h : reg.WellKept) (call : RegistryCall) : (reg.step call).WellKept := by
  rcases step_cases reg call with
    heq | ⟨req, rfl, hadm, heq⟩ | ⟨id', boot, gen, epoch, r', rfl, hrel, heq⟩ | ⟨l, rfl, heq⟩
  · rwa [heq]
  · rw [heq]
    refine ⟨fun id r hget => ?_, fun id r hget => ?_⟩
    all_goals
      rw [getElem?_recordReserve] at hget
      split_ifs at hget with hid
    · obtain rfl := Option.some.inj hget
      exact hid
    · exact h.keyed id r hget
    · obtain rfl := Option.some.inj hget
      exact .inl rfl
    · exact h.settled id r hget
  · rw [heq]
    refine ⟨fun id r hget => ?_, fun id r hget => ?_⟩
    all_goals
      rw [getElem?_recordRelease] at hget
      split_ifs at hget with hid
    · obtain rfl := Option.some.inj hget
      exact (h.keyed id' r' hrel.1).trans hid
    · exact h.keyed id r hget
    · obtain rfl := Option.some.inj hget
      exact .inr rfl
    · exact h.settled id r hget
  · rw [heq]
    exact ⟨h.keyed, h.settled⟩

/-- What an answer of `ACCOUNTING_DRIFT` or `DOUBLE_RELEASE` says of the record. -/
lemma record_of_release_error {id : ReservationId} {boot : WorkerBootId}
    {gen : ReservationGeneration} {epoch : CoordinatorEpoch} {e : Error}
    (h : (reg.release id boot gen epoch).1 = .error e) :
    (e.code = .accountingDrift → ∃ r, reg.reservations[id]? = some r ∧ r.active = true ∧
      reg.reservedBytes r.path < r.bytes.value) ∧
    (e.code = .doubleRelease → ∃ r, reg.reservations[id]? = some r ∧ r.active = false ∧
      r.released = false) := by
  unfold release at h
  cases hget : reg.reservations[id]? with
  | none =>
      rw [hget] at h
      cases h
      exact ⟨nofun, nofun⟩
  | some r =>
      rw [hget] at h
      dsimp only at h
      split_ifs at h with h1 h2 h3 h4 h5 h6 <;> cases h
      iterate 4 exact ⟨nofun, nofun⟩
      · exact ⟨nofun, fun _ => ⟨r, rfl, by simpa using h5, by simpa using h1⟩⟩
      · exact ⟨fun _ => ⟨r, rfl, by simpa using h5, h6⟩, nofun⟩

/-- **`DOUBLE_RELEASE` is never answered** by a registry that keeps its records well. -/
theorem WellKept.code_ne_doubleRelease (h : reg.WellKept) {id : ReservationId}
    {boot : WorkerBootId} {gen : ReservationGeneration} {epoch : CoordinatorEpoch} {e : Error}
    (herr : (reg.release id boot gen epoch).1 = .error e) : e.code ≠ .doubleRelease := by
  intro hcode
  obtain ⟨r, hget, hactive, hreleased⟩ := (record_of_release_error herr).2 hcode
  rcases h.settled id r hget with h | h
  · rw [hactive] at h
    cases h
  · rw [hreleased] at h
    cases h

/-! ### Exact totals -/

/-- With exact totals every active record is covered by the total of its path. -/
lemma Exact.releasable (hexact : reg.Exact) (hkept : reg.WellKept) {id : ReservationId}
    {r : Reservation} (hget : reg.reservations[id]? = some r) (hact : r.active = true) :
    reg.Releasable r.id r.boot r.generation r.epoch r := by
  refine ⟨hkept.keyed id r hget ▸ hget, released_of_active hact, rfl, rfl, rfl, hact, ?_⟩
  rw [UInt64.le_iff_toNat_le, hexact]
  exact bytes_le_activeBytes hget hact

/-- With exact totals everything can be returned. -/
lemma Exact.returnable (hexact : reg.Exact) (hkept : reg.WellKept) : reg.Returnable := by
  intro id r hget hact
  have hrel := hexact.releasable hkept hget hact
  have hle := UInt64.le_iff_toNat_le.mp hrel.2.2.2.2.2.2
  rw [releaseOf, release_of_releasable hrel]
  refine ⟨rfl, ?_⟩
  rw [reservedBytes_recordRelease, if_pos rfl, UInt64.toNat_sub_of_le _ _ hrel.2.2.2.2.2.2]
  omega

/-- With exact totals neither of the two branches is reached. -/
lemma Exact.noDrift (hexact : reg.Exact) (hkept : reg.WellKept) : reg.NoDrift := by
  intro id boot gen epoch e herr
  refine ⟨fun hcode => ?_, hkept.code_ne_doubleRelease herr⟩
  obtain ⟨r, hget, hact, hlt⟩ := (record_of_release_error herr).1 hcode
  rw [UInt64.lt_iff_toNat_lt, hexact] at hlt
  exact absurd (bytes_le_activeBytes hget hact) (Nat.not_le.mpr hlt)

/-- If what a call reserves can be returned, the sum it asked for fits. -/
lemma Exact.sumFits_of_returnable (hexact : reg.Exact) {call : RegistryCall}
    (h : (reg.step call).Returnable) : reg.SumFits call := by
  cases call with
  | release => trivial
  | setLimits => trivial
  | reserve req =>
      intro hfresh hmod
      have hadm : reg.Admits req := (hexact.admits_iff req).mpr ⟨hfresh, hmod⟩
      rw [ReservationRegistry.step, reserve_of_admits hadm] at h
      obtain ⟨hok, -⟩ := h req.id req.markActive (getElem?_recordReserve_self _ _ _) rfl
      have hrelease : ((reg.recordReserve req (reg.reservedBytes req.path)).release req.id req.boot
          req.generation req.epoch).1.isOk := congrArg Result.isOk hok
      exact (hexact.of_release_recordReserve hrelease).2

/-- **Returning what was reserved, exactly.** In a run of the registry everything active
can be returned after every call and no release drifts, if and only if every reserve call
of the run asks for a sum that fits 64 bits (or is rejected regardless). -/
theorem returnable_iff_sums_fit (limits : ReservationLimits) (calls : List RegistryCall) :
    AllSteps step (fun reg call => (reg.step call).Returnable ∧ (reg.step call).NoDrift)
      { limits } calls ↔ AllSteps step SumFits { limits } calls := by
  refine allSteps_congr step (I := fun reg => reg.Exact ∧ reg.WellKept) ?_ ?_
    ⟨exact_init limits, wellKept_init limits⟩
  · rintro reg call ⟨hexact, hkept⟩
    constructor
    · exact fun h => hexact.sumFits_of_returnable h.1
    · intro hfits
      have hexact' := hexact.step hfits
      exact ⟨hexact'.returnable (hkept.step call), hexact'.noDrift (hkept.step call)⟩
  · rintro reg call ⟨hexact, hkept⟩ hfits
    exact ⟨hexact.step hfits, hkept.step call⟩

/-- One byte on a path. -/
def oneByte : Reservation := { id := ⟨1⟩, path := ⟨7⟩, bytes := ⟨1⟩ }

/-- `2^64 - 1` bytes on that path. -/
def allButOne : Reservation := { id := ⟨2⟩, path := ⟨7⟩, bytes := ⟨18446744073709551615⟩ }

/-- Once both are reserved the total of the path has wrapped to zero, and neither can be
returned. -/
theorem wrapped_reservation_stuck : ¬ ∀ limits calls,
    (run step { limits } calls).Returnable ∧ (run step { limits } calls).NoDrift := by
  intro h
  have hreturn := (h { perPathBytes := ⟨1099511627776⟩ } [.reserve oneByte, .reserve allButOne]).1
  obtain ⟨hok, -⟩ := hreturn ⟨1⟩ oneByte.markActive (by decide +kernel) rfl
  revert hok
  decide +kernel

end PcieFabric.ReservationRegistry
