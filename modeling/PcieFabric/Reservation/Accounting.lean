import PcieFabric.Reservation.Registry
import PcieFabric.Lib.MapSum

/-!
Accounting of the reservation registry: the running totals against the exact
sums of the active reservations.

* `activeBytes`: the unbounded sum of the bytes of the active reservations on a
  path; `activeBytes_recordReserve`, `activeBytes_recordRelease` and their
  `reservedBytes` companions say what a recorded call does to both sides.
* `Balanced`: every running total is its sum modulo `2^64`. Every call keeps it
  (`Balanced.step`), and it is what `validate_accounting` recomputes
  (`validateAccounting_of_balanced`), so `registry_accounting_closes`.
* `Exact`: every running total is its sum. A wrapping admission breaks it, and
  nothing else does: `no_overcommit_iff_sums_fit`.
-/

namespace PcieFabric.ReservationRegistry

open Std MapSum Machine

/-- The exact sum of the bytes of the active reservations on a path. -/
def activeBytes (reg : ReservationRegistry) (p : PathId) : Nat :=
  mapSum reg.reservations fun _ r =>
    if r.active = true ∧ r.path = p then r.bytes.value.toNat else 0

variable {reg : ReservationRegistry}

lemma reservedBytes_eq_getD (reg : ReservationRegistry) (p : PathId) :
    reg.reservedBytes p = reg.activeByPath.getD p 0 := by
  rw [reservedBytes, ExtTreeMap.getD_eq_getD_getElem?]
  cases reg.activeByPath[p]? <;> rfl

/-- A recorded reservation adds its bytes to the sum of its path. -/
lemma activeBytes_recordReserve {req : Reservation} (h : reg.reservations[req.id]? = none)
    (used : UInt64) (p : PathId) :
    (reg.recordReserve req used).activeBytes p =
      reg.activeBytes p + if req.path = p then req.bytes.value.toNat else 0 := by
  simp only [activeBytes, recordReserve, Reservation.id_markActive]
  rw [mapSum_insert_new h, add_comm]
  simp

/-- A recorded reservation writes the total of its path and no other. -/
lemma reservedBytes_recordReserve (reg : ReservationRegistry) (req : Reservation) (used : UInt64)
    (p : PathId) :
    (reg.recordReserve req used).reservedBytes p =
      if req.path = p then used + req.bytes.value else reg.reservedBytes p := by
  simp only [reservedBytes_eq_getD, recordReserve, Reservation.path_markActive,
    Reservation.bytes_markActive, ExtTreeMap.getD_insert, LawfulEqCmp.compare_eq_iff_eq]

/-- A recorded release takes the bytes of its record off the sum of its path. -/
lemma activeBytes_recordRelease {id : ReservationId} {r : Reservation}
    (h : reg.reservations[id]? = some r) (hact : r.active = true) (p : PathId) :
    (reg.recordRelease id r).activeBytes p + (if r.path = p then r.bytes.value.toNat else 0) =
      reg.activeBytes p := by
  have hsum := mapSum_insert_old h r.markReleased fun _ r =>
    if r.active = true ∧ r.path = p then r.bytes.value.toNat else 0
  simpa [activeBytes, recordRelease, hact] using hsum

/-- A recorded release writes the total of its path and no other; erasing the
entry and writing zero read the same. -/
lemma reservedBytes_recordRelease (reg : ReservationRegistry) (id : ReservationId)
    (r : Reservation) (p : PathId) :
    (reg.recordRelease id r).reservedBytes p =
      if r.path = p then reg.reservedBytes r.path - r.bytes.value else reg.reservedBytes p := by
  simp only [reservedBytes_eq_getD, recordRelease]
  by_cases h0 : reg.activeByPath.getD r.path 0 - r.bytes.value = 0
  · rw [if_pos h0, ExtTreeMap.getD_erase, h0]
    simp only [LawfulEqCmp.compare_eq_iff_eq]
  · rw [if_neg h0, ExtTreeMap.getD_insert]
    simp only [LawfulEqCmp.compare_eq_iff_eq]

/-! ### Totals modulo `2^64` -/

/-- Every running total is the sum of its active reservations modulo `2^64`. -/
def Balanced (reg : ReservationRegistry) : Prop :=
  ∀ p, (reg.reservedBytes p).toNat = reg.activeBytes p % 2 ^ 64

lemma balanced_init (limits : ReservationLimits) : Balanced { limits } := fun p => by
  simp [reservedBytes, activeBytes, mapSum_empty]

lemma Balanced.recordReserve (h : reg.Balanced) {req : Reservation}
    (hfresh : reg.reservations[req.id]? = none) :
    (reg.recordReserve req (reg.reservedBytes req.path)).Balanced := by
  intro p
  rw [reservedBytes_recordReserve, activeBytes_recordReserve hfresh]
  by_cases hp : req.path = p
  · subst hp
    have hpath := h req.path
    rw [if_pos rfl, if_pos rfl, UInt64.toNat_add]
    omega
  · rw [if_neg hp, if_neg hp, h p, Nat.add_zero]

lemma Balanced.recordRelease (h : reg.Balanced) {id : ReservationId} {r : Reservation}
    (hget : reg.reservations[id]? = some r) (hact : r.active = true)
    (hle : r.bytes.value ≤ reg.reservedBytes r.path) :
    (reg.recordRelease id r).Balanced := by
  intro p
  have hsum := activeBytes_recordRelease hget hact p
  rw [reservedBytes_recordRelease]
  by_cases hp : r.path = p
  · subst hp
    have hpath := h r.path
    have hle' := UInt64.le_iff_toNat_le.mp hle
    rw [if_pos rfl] at hsum ⊢
    rw [UInt64.toNat_sub_of_le _ _ hle]
    omega
  · rw [if_neg hp] at hsum ⊢
    rw [h p, ← hsum, Nat.add_zero]

/-- Every call keeps the totals balanced. -/
lemma Balanced.step (h : reg.Balanced) (call : RegistryCall) : (reg.step call).Balanced := by
  rcases step_cases reg call with
    heq | ⟨req, -, hadm, heq⟩ | ⟨id, boot, gen, epoch, r, -, hrel, heq⟩ | ⟨l, -, heq⟩
  · rwa [heq]
  · rw [heq]
    exact h.recordReserve hadm.1
  · obtain ⟨hget, -, -, -, -, hact, hle⟩ := hrel
    rw [heq]
    exact h.recordRelease hget hact hle
  · rw [heq]
    exact h

/-- The totals recomputed from the records are the sums modulo `2^64`. -/
lemma toNat_recomputedTotals (reg : ReservationRegistry) (p : PathId) :
    (reg.recomputedTotals.getD p 0).toNat = reg.activeBytes p % 2 ^ 64 := by
  have key : ∀ (l : List (ReservationId × Reservation)) (sum : IdMap .pathId UInt64),
      ((l.foldl (fun sum x => if x.2.active then
          sum.insert x.2.path (sum.getD x.2.path 0 + x.2.bytes.value) else sum) sum).getD p 0).toNat
        = ((sum.getD p 0).toNat + (l.map fun x => if x.2.active = true ∧ x.2.path = p then
            x.2.bytes.value.toNat else 0).sum) % 2 ^ 64 := by
    intro l
    induction l with
    | nil =>
        intro sum
        simp
    | cons x rest ih =>
        intro sum
        rw [List.foldl_cons, ih, List.map_cons, List.sum_cons]
        by_cases hact : x.2.active = true
        · rw [if_pos hact, ExtTreeMap.getD_insert]
          by_cases hp : x.2.path = p
          · rw [if_pos (LawfulEqCmp.compare_eq_iff_eq.mpr hp), if_pos ⟨hact, hp⟩, hp,
              UInt64.toNat_add]
            omega
          · rw [if_neg (mt LawfulEqCmp.compare_eq_iff_eq.mp hp), if_neg (fun h => hp h.2),
              Nat.zero_add]
        · rw [if_neg hact, if_neg (fun h => hact h.1), Nat.zero_add]
  rw [recomputedTotals, ExtTreeMap.foldl_eq_foldl_toList, key, activeBytes, mapSum]
  simp

/-- Balanced totals pass `validate_accounting`. -/
lemma validateAccounting_of_balanced (h : reg.Balanced) : reg.validateAccounting = .ok () := by
  have hnone : reg.activeByPath.toList.find?
      (fun p => reg.recomputedTotals.getD p.1 0 ≠ p.2) = none := by
    refine List.find?_eq_none.mpr fun x hx => ?_
    have hget := ExtTreeMap.mem_toList_iff_getElem?_eq_some.mp hx
    have hused : reg.reservedBytes x.1 = x.2 := by rw [reservedBytes, hget]
    have heq : reg.recomputedTotals.getD x.1 0 = x.2 := by
      rw [← UInt64.toNat_inj, toNat_recomputedTotals, ← h x.1, hused]
    simp [heq]
  rw [validateAccounting, hnone]

/-- A path without active reservation has sum zero. -/
lemma activeBytes_eq_zero {p : PathId}
    (h : ∀ (id : ReservationId) (r : Reservation),
      reg.reservations[id]? = some r → r.active = true → r.path ≠ p) :
    reg.activeBytes p = 0 := by
  have hzero : reg.activeBytes p = mapSum reg.reservations fun _ _ => (0 : Nat) :=
    mapSum_congr fun id r hget => if_neg fun hr => h id r hget hr.1 hr.2
  rw [hzero, mapSum]
  simp

/-- **Reservation accounting closes.** After any sequence of calls, every
running total is the sum of the active reservations of its path in the
registry's own 64-bit arithmetic, a path without active reservation has total
zero, and `validate_accounting` succeeds. -/
theorem registry_accounting_closes (limits : ReservationLimits) (calls : List RegistryCall) :
    let reg := run step { limits } calls
    (∀ p, (reg.reservedBytes p).toNat = reg.activeBytes p % 2 ^ 64) ∧
      (∀ p, (∀ (id : ReservationId) (r : Reservation),
          reg.reservations[id]? = some r → r.active = true → r.path ≠ p) →
        reg.reservedBytes p = 0) ∧
      reg.validateAccounting = .ok () := by
  intro reg
  have hbal : reg.Balanced :=
    run_invariant step (I := Balanced) (fun s i h => h.step i) (balanced_init limits) calls
  refine ⟨hbal, fun p hp => ?_, validateAccounting_of_balanced hbal⟩
  have h := hbal p
  rw [activeBytes_eq_zero hp] at h
  exact UInt64.toNat_inj.mp h

/-! ### Exact totals and the admission test -/

/-- Every running total is the exact sum of its active reservations. -/
def Exact (reg : ReservationRegistry) : Prop :=
  ∀ p, (reg.reservedBytes p).toNat = reg.activeBytes p

/-- A call that succeeds in reserving leaves the exact sum of its path within
the limit in force. -/
def NoOvercommit (reg : ReservationRegistry) : RegistryCall → Prop
  | .reserve req => (reg.reserve req).1.isOk →
      (reg.reserve req).2.activeBytes req.path ≤ reg.limits.perPathBytes.value.toNat
  | _ => True

/-- The sum a reserve call asks for fits 64 bits; a call on a known id, or one
that even the wrapped sum puts above the limit, is rejected anyway. -/
def SumFits (reg : ReservationRegistry) : RegistryCall → Prop
  | .reserve req => reg.reservations[req.id]? = none →
      (reg.activeBytes req.path + req.bytes.value.toNat) % 2 ^ 64 ≤
        reg.limits.perPathBytes.value.toNat →
      reg.activeBytes req.path + req.bytes.value.toNat < 2 ^ 64
  | _ => True

instance (reg : ReservationRegistry) : DecidablePred reg.NoOvercommit := fun call => by
  cases call <;> unfold NoOvercommit <;> infer_instance

lemma exact_init (limits : ReservationLimits) : Exact { limits } := fun p => by
  simp [reservedBytes, activeBytes, mapSum_empty]

/-- With exact totals, `reserve` compares the sum modulo `2^64`. -/
lemma Exact.admits_iff (h : reg.Exact) (req : Reservation) :
    reg.Admits req ↔ reg.reservations[req.id]? = none ∧
      (reg.activeBytes req.path + req.bytes.value.toNat) % 2 ^ 64 ≤
        reg.limits.perPathBytes.value.toNat := by
  rw [Admits, UInt64.le_iff_toNat_le, UInt64.toNat_add, h]

/-- With exact totals, a call overcommits exactly when its sum wraps and is
admitted: a sum of `2^64` or more is above every 64-bit limit. -/
lemma Exact.noOvercommit_iff (h : reg.Exact) (call : RegistryCall) :
    reg.NoOvercommit call ↔ reg.SumFits call := by
  cases call with
  | release | setLimits => exact Iff.rfl
  | reserve req =>
      rw [NoOvercommit, SumFits, reserve_ok_iff]
      by_cases hadm : reg.Admits req
      · obtain ⟨hfresh, hmod⟩ := (h.admits_iff req).mp hadm
        have hsum := activeBytes_recordReserve hfresh (reg.reservedBytes req.path) req.path
        have hlimit := reg.limits.perPathBytes.value.toNat_lt
        rw [if_pos rfl] at hsum
        simp only [reserve_of_admits hadm, hsum, hadm, hfresh, hmod, forall_const]
        omega
      · have hvac : ¬ (reg.reservations[req.id]? = none ∧
            (reg.activeBytes req.path + req.bytes.value.toNat) % 2 ^ 64 ≤
              reg.limits.perPathBytes.value.toNat) := mt (h.admits_iff req).mpr hadm
        simp only [hadm, false_imp_iff, true_iff]
        exact fun hfresh hmod => absurd ⟨hfresh, hmod⟩ hvac

/-- A call whose sum fits keeps the totals exact. -/
lemma Exact.step (h : reg.Exact) {call : RegistryCall} (hfits : reg.SumFits call) :
    (reg.step call).Exact := by
  rcases step_cases reg call with
    heq | ⟨req, rfl, hadm, heq⟩ | ⟨id, boot, gen, epoch, r, -, hrel, heq⟩ | ⟨l, -, heq⟩
  · rwa [heq]
  · obtain ⟨hfresh, hmod⟩ := (h.admits_iff req).mp hadm
    have hlt := hfits hfresh hmod
    rw [heq]
    intro p
    rw [reservedBytes_recordReserve, activeBytes_recordReserve hfresh]
    by_cases hp : req.path = p
    · subst hp
      rw [if_pos rfl, if_pos rfl, UInt64.toNat_add, h, Nat.mod_eq_of_lt hlt]
    · rw [if_neg hp, if_neg hp, h p, Nat.add_zero]
  · obtain ⟨hget, -, -, -, -, hact, hle⟩ := hrel
    rw [heq]
    intro p
    have hsum := activeBytes_recordRelease hget hact p
    rw [reservedBytes_recordRelease]
    by_cases hp : r.path = p
    · subst hp
      have hpath := h r.path
      rw [if_pos rfl] at hsum ⊢
      rw [UInt64.toNat_sub_of_le _ _ hle]
      omega
    · rw [if_neg hp] at hsum ⊢
      rw [h p, ← hsum, Nat.add_zero]
  · rw [heq]
    exact h

/-- **No overcommit, exactly.** In a run of the registry every successful
reserve leaves the exact sum of its path within the limit in force at that
call, if and only if every reserve call of the run asks for a sum that fits 64
bits (or is rejected regardless). -/
theorem no_overcommit_iff_sums_fit (limits : ReservationLimits) (calls : List RegistryCall) :
    AllSteps step NoOvercommit { limits } calls ↔ AllSteps step SumFits { limits } calls :=
  allSteps_congr step (I := Exact) (fun _ call h => h.noOvercommit_iff call)
    (fun _ _ h hfits => h.step hfits) (exact_init limits)

/-- One byte, then `2^64 - 1` bytes on the same path: the total wraps to zero
and both are admitted under a limit of `2^40`. -/
theorem overcommit_by_wrapping :
    ¬ AllSteps step NoOvercommit { limits := { perPathBytes := ⟨1099511627776⟩ } }
      [.reserve { id := ⟨1⟩, path := ⟨7⟩, bytes := ⟨1⟩ },
        .reserve { id := ⟨2⟩, path := ⟨7⟩, bytes := ⟨18446744073709551615⟩ }] := by
  decide +kernel

end PcieFabric.ReservationRegistry
