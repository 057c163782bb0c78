import PcieFabric.Reservation.Accounting

/-!
When the holder of an authority can return every active reservation.

* `HeldUnder`: each record stands under its own id, the active ones carry the
  authority, and the totals are exact. It is what `HeldUnder.release_isOk` needs.
* `HeldUnder.recordReserve`, `HeldUnder.release`, `HeldUnder.change`: a
  reservation under the authority keeps it, and so does a release and a change
  of the authority while nothing is active.
* `not_release_isOk_of_authority`, `Exact.of_release_recordReserve`: another
  authority, or a total that has wrapped, leaves a reservation that cannot be
  returned.
-/

namespace PcieFabric.ReservationRegistry

open Std MapSum

/-- No reservation is active. -/
def NoActive (reg : ReservationRegistry) : Prop :=
  ∀ (id : ReservationId) r, reg.reservations[id]? = some r → r.active = false

/-- The authority of `boot` and `epoch` holds every active reservation. -/
structure HeldUnder (reg : ReservationRegistry) (boot : WorkerBootId) (epoch : CoordinatorEpoch) :
    Prop where
  keyed : ∀ (id : ReservationId) r, reg.reservations[id]? = some r → r.id = id
  held : ∀ (id : ReservationId) r, reg.reservations[id]? = some r → r.active = true →
    r.boot = boot ∧ r.epoch = epoch
  exact : reg.Exact

variable {reg : ReservationRegistry} {boot : WorkerBootId} {epoch : CoordinatorEpoch}

lemma heldUnder_init (limits : ReservationLimits) (boot : WorkerBootId)
    (epoch : CoordinatorEpoch) : HeldUnder { limits } boot epoch := by
  refine ⟨fun id r h => ?_, fun id r h _ => ?_, exact_init limits⟩
  all_goals
    rw [ExtTreeMap.getElem?_empty] at h
    cases h

lemma released_of_active {r : Reservation} (h : r.active = true) : r.released = false := by
  rw [Reservation.active, Bool.and_eq_true, Bool.not_eq_true'] at h
  exact h.2

/-- The bytes of an active reservation are part of the sum of its path. -/
lemma bytes_le_activeBytes {id : ReservationId} {r : Reservation}
    (h : reg.reservations[id]? = some r) (hact : r.active = true) :
    r.bytes.value.toNat ≤ reg.activeBytes r.path := by
  have hterm := le_mapSum h fun _ x =>
    if x.active = true ∧ x.path = r.path then x.bytes.value.toNat else 0
  rwa [if_pos ⟨hact, rfl⟩] at hterm

/-- The holder can return every active reservation. -/
lemma HeldUnder.release_isOk (h : reg.HeldUnder boot epoch) {id : ReservationId} {r : Reservation}
    (hget : reg.reservations[id]? = some r) (hact : r.active = true) :
    (reg.release r.id boot r.generation epoch).1.isOk := by
  obtain ⟨hboot, hepoch⟩ := h.held id r hget hact
  refine release_ok_iff.mpr ⟨r, ?_, released_of_active hact, hboot, rfl, hepoch, hact, ?_⟩
  · rw [h.keyed id r hget, hget]
  · rw [UInt64.le_iff_toNat_le, h.exact]
    exact bytes_le_activeBytes hget hact

/-- Under another authority an active reservation cannot be returned. -/
lemma not_release_isOk_of_authority (hkeyed : ∀ (id : ReservationId) r,
      reg.reservations[id]? = some r → r.id = id) {id : ReservationId} {r : Reservation}
    (hget : reg.reservations[id]? = some r) (hne : ¬ (r.boot = boot ∧ r.epoch = epoch)) :
    ¬ (reg.release r.id boot r.generation epoch).1.isOk := by
  rw [release_ok_iff]
  rintro ⟨r', hget', -, hboot, -, hepoch, -⟩
  rw [hkeyed id r hget, hget] at hget'
  cases hget'
  exact hne ⟨hboot, hepoch⟩

/-- A recorded reservation that can be returned carries the authority, and its
bytes have not wrapped the total of its path. -/
lemma Exact.of_release_recordReserve (h : reg.Exact) {req : Reservation}
    (hok : ((reg.recordReserve req (reg.reservedBytes req.path)).release req.id boot
      req.generation epoch).1.isOk) :
    (req.boot = boot ∧ req.epoch = epoch) ∧
      reg.activeBytes req.path + req.bytes.value.toNat < 2 ^ 64 := by
  obtain ⟨r, hget, -, hboot, -, hepoch, -, hle⟩ := release_ok_iff.mp hok
  rw [getElem?_recordReserve_self] at hget
  cases hget
  refine ⟨⟨hboot, hepoch⟩, ?_⟩
  rw [Reservation.path_markActive, Reservation.bytes_markActive, reservedBytes_recordReserve,
    if_pos rfl, UInt64.le_iff_toNat_le, UInt64.toNat_add, h] at hle
  have htotal := (reg.reservedBytes req.path).toNat_lt
  have hbytes := req.bytes.value.toNat_lt
  rw [h] at htotal
  omega

/-- A reservation under the authority, whose total fits, keeps it. -/
lemma HeldUnder.recordReserve (h : reg.HeldUnder boot epoch) {req : Reservation}
    (hadm : reg.Admits req) (hboot : req.boot = boot) (hepoch : req.epoch = epoch)
    (hfits : reg.activeBytes req.path + req.bytes.value.toNat < 2 ^ 64) :
    (reg.recordReserve req (reg.reservedBytes req.path)).HeldUnder boot epoch := by
  have hcases : ∀ (id : ReservationId) r,
      (reg.recordReserve req (reg.reservedBytes req.path)).reservations[id]? = some r →
        req.id = id ∧ req.markActive = r ∨ reg.reservations[id]? = some r := by
    intro id r hget
    rw [getElem?_recordReserve] at hget
    split_ifs at hget with hid
    · exact .inl ⟨hid, Option.some.inj hget⟩
    · exact .inr hget
  refine ⟨fun id r hget => ?_, fun id r hget hact => ?_, ?_⟩
  · rcases hcases id r hget with ⟨hid, rfl⟩ | hold
    · exact hid
    · exact h.keyed id r hold
  · rcases hcases id r hget with ⟨-, rfl⟩ | hold
    · exact ⟨hboot, hepoch⟩
    · exact h.held id r hold hact
  · have hsum : reg.SumFits (.reserve req) := fun _ _ => hfits
    have hstep := h.exact.step hsum
    rwa [step, reserve_of_admits hadm] at hstep

/-- A release keeps the authority over what is left. -/
lemma HeldUnder.release (h : reg.HeldUnder boot epoch) (id : ReservationId)
    (boot' : WorkerBootId) (gen : ReservationGeneration) (epoch' : CoordinatorEpoch) :
    (reg.release id boot' gen epoch').2.HeldUnder boot epoch := by
  have hsum : reg.SumFits (.release id boot' gen epoch') := trivial
  have hexact := h.exact.step hsum
  rw [step] at hexact
  by_cases hrel : ∃ r, reg.Releasable id boot' gen epoch' r
  · obtain ⟨r, hr⟩ := hrel
    rw [release_of_releasable hr] at hexact ⊢
    have hcases : ∀ (id' : ReservationId) x,
        (reg.recordRelease id r).reservations[id']? = some x →
          id = id' ∧ r.markReleased = x ∨ reg.reservations[id']? = some x := by
      intro id' x hget
      rw [getElem?_recordRelease] at hget
      split_ifs at hget with hid
      · exact .inl ⟨hid, Option.some.inj hget⟩
      · exact .inr hget
    refine ⟨fun id' x hget => ?_, fun id' x hget hact => ?_, hexact⟩
    · rcases hcases id' x hget with ⟨rfl, rfl⟩ | hold
      · exact h.keyed id r hr.1
      · exact h.keyed id' x hold
    · rcases hcases id' x hget with ⟨-, rfl⟩ | hold
      · cases hact
      · exact h.held id' x hold hact
  · push Not at hrel
    obtain ⟨e, he⟩ := release_of_not_releasable hrel
    rw [he]
    exact h

/-- While nothing is active, every authority holds what there is. -/
lemma HeldUnder.change (h : reg.HeldUnder boot epoch) (hnone : reg.NoActive)
    (boot' : WorkerBootId) (epoch' : CoordinatorEpoch) : reg.HeldUnder boot' epoch' := by
  refine ⟨h.keyed, fun id r hget hact => ?_, h.exact⟩
  rw [hnone id r hget] at hact
  cases hact

end PcieFabric.ReservationRegistry
