import PcieFabric.Reservation.Accounting

/-!
What `validate_accounting` sees (`reservation.hpp`). It walks the totals, not the paths
of the records, so a total that was lost is not looked at.

* `validateAccounting_ok_iff`: it accepts when every total that is there is right.
* `LosesNothing`, `Mismatched`: no path with active bytes lacks its total; a total that
  is there is wrong.
* `validateAccounting_complete_iff`: the states on which it is a complete check.
-/

namespace PcieFabric.ReservationRegistry

open Std

variable {reg : ReservationRegistry}

lemma reservedBytes_of_some {p : PathId} {used : UInt64} (h : reg.activeByPath[p]? = some used) :
    reg.reservedBytes p = used := by
  rw [reservedBytes, h]

lemma reservedBytes_of_none {p : PathId} (h : reg.activeByPath[p]? = none) :
    reg.reservedBytes p = 0 := by
  rw [reservedBytes, h]

/-- **The check looks at the totals that are there**: each is to be the sum of the active
reservations of its path, modulo `2^64`. -/
theorem validateAccounting_ok_iff : reg.validateAccounting = .ok () ↔
    ∀ (p : PathId) used, reg.activeByPath[p]? = some used →
      used.toNat = reg.activeBytes p % 2 ^ 64 := by
  have hentry (x : PathId × UInt64) : reg.recomputedTotals.getD x.1 0 = x.2 ↔
      x.2.toNat = reg.activeBytes x.1 % 2 ^ 64 := by
    rw [← UInt64.toNat_inj, toNat_recomputedTotals, eq_comm]
  rw [validateAccounting]
  cases hfind : reg.activeByPath.toList.find? fun p => reg.recomputedTotals.getD p.1 0 ≠ p.2 with
  | some x =>
      have hfound := List.find?_some hfind
      have hwrong : ¬ x.2.toNat = reg.activeBytes x.1 % 2 ^ 64 := by
        rw [← hentry]
        exact of_decide_eq_true hfound
      have hthere := ExtTreeMap.mem_toList_iff_getElem?_eq_some.mp (List.mem_of_find?_eq_some hfind)
      exact iff_of_false (fun h => by cases h) fun h => hwrong (h x.1 x.2 hthere)
  | none =>
      refine iff_of_true rfl fun p used hthere => ?_
      have hright := List.find?_eq_none.mp hfind (p, used)
        (ExtTreeMap.mem_toList_iff_getElem?_eq_some.mpr hthere)
      rw [← hentry (p, used)]
      simpa using hright

/-- No path that has lost its total has active bytes, modulo `2^64`. -/
def LosesNothing (reg : ReservationRegistry) : Prop :=
  ∀ p : PathId, reg.activeByPath[p]? = none → reg.activeBytes p % 2 ^ 64 = 0

/-- A total that is there is not the sum of its path. -/
def Mismatched (reg : ReservationRegistry) : Prop :=
  ∃ (p : PathId) (used : UInt64), reg.activeByPath[p]? = some used ∧
    used.toNat ≠ reg.activeBytes p % 2 ^ 64

/-- Every path is right when the totals that are there are, and none is lost. -/
lemma balanced_iff : reg.Balanced ↔ ¬ reg.Mismatched ∧ reg.LosesNothing := by
  constructor
  · intro h
    refine ⟨?_, fun p hnone => ?_⟩
    · rintro ⟨p, used, hsome, hne⟩
      exact hne (reservedBytes_of_some hsome ▸ h p)
    · rw [← h p, reservedBytes_of_none hnone]
      rfl
  · rintro ⟨hmatch, hlost⟩ p
    cases hentry : reg.activeByPath[p]? with
    | none =>
        rw [reservedBytes_of_none hentry, hlost p hentry]
        rfl
    | some used =>
        rw [reservedBytes_of_some hentry]
        by_contra hne
        exact hmatch ⟨p, used, hentry, hne⟩

/-- **The check is complete, exactly**: it accepts the balanced states and no others, if
and only if no path with active bytes lacks its total, or a total that is there is
wrong. -/
theorem validateAccounting_complete_iff (reg : ReservationRegistry) :
    (reg.validateAccounting = .ok () ↔ reg.Balanced) ↔ reg.LosesNothing ∨ reg.Mismatched := by
  have haccepts : reg.validateAccounting = .ok () ↔ ¬ reg.Mismatched := by
    rw [validateAccounting_ok_iff, Mismatched]
    push Not
    rfl
  rw [haccepts, balanced_iff]
  tauto

/-- One active byte on a path without a total. -/
def lostTotal : ReservationRegistry where
  limits := {}
  reservations := (∅ : IdMap .reservationId Reservation).insert ⟨1⟩
    { id := ⟨1⟩, path := ⟨7⟩, bytes := ⟨1⟩, activeFlag := true }

/-- A lost total is not noticed. -/
theorem lost_total_accepted : ¬ ∀ reg : ReservationRegistry,
    reg.validateAccounting = .ok () ↔ reg.Balanced := by
  intro h
  have hbalanced := (h lostTotal).mp (by decide +kernel) ⟨7⟩
  revert hbalanced
  decide +kernel

end PcieFabric.ReservationRegistry
