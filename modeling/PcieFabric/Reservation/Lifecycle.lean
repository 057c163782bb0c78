import PcieFabric.Lib.Latch
import PcieFabric.Reservation.Registry

/-!
The life of a reservation in the registry (`reservation.hpp`).

* `Reserves`, `Releases`: the calls that begin and end it, as the latches `known` and
  `released` of its id: `latch_reserves`, `latch_releases`.
* `Stored`: every record is that of an earlier successful reserve, as it was or released.
* `getElem?_run`: a record stays what it is until a release of its id succeeds.
* `lifecycle_exactly_once`: each id is reserved at most once and released at most once,
  in this order and with the authority that was stored, and a call that fails changes
  nothing.
-/

namespace PcieFabric.ReservationRegistry

open Std Machine

/-- The call reserves the id, and succeeds. -/
def Reserves (id : ReservationId) (reg : ReservationRegistry) : RegistryCall → Prop
  | .reserve req => req.id = id ∧ (reg.reserve req).1.isOk
  | .release .. => False
  | .setLimits _ => False

/-- The call releases the id, and succeeds. -/
def Releases (id : ReservationId) (reg : ReservationRegistry) : RegistryCall → Prop
  | .reserve _ => False
  | .release id' boot gen epoch => id' = id ∧ (reg.release id' boot gen epoch).1.isOk
  | .setLimits _ => False

/-- The call returns an error. -/
def Fails (reg : ReservationRegistry) : RegistryCall → Prop
  | .reserve req => ∃ e, (reg.reserve req).1 = .error e
  | .release id boot gen epoch => ∃ e, (reg.release id boot gen epoch).1 = .error e
  | .setLimits _ => False

/-- There is a record of the id. -/
def Known (id : ReservationId) (reg : ReservationRegistry) : Prop :=
  ∃ r, reg.reservations[id]? = some r

/-- The record of the id is a released one. -/
def IsReleased (id : ReservationId) (reg : ReservationRegistry) : Prop :=
  ∃ r, reg.reservations[id]? = some r ∧ r.released = true

variable {reg : ReservationRegistry} {id : ReservationId} {call : RegistryCall}

/-! ### The two latches -/

/-- A call that changes nothing neither begins nor ends a reservation. -/
lemma not_reserves_of_step_eq (heq : reg.step call = reg) : ¬ Reserves id reg call := by
  intro h
  cases call with
  | reserve req =>
      have hadm := reserve_ok_iff.mp h.2
      rw [step, reserve_of_admits hadm] at heq
      exact recordReserve_ne hadm _ heq
  | release => exact h
  | setLimits => exact h

lemma not_releases_of_step_eq (heq : reg.step call = reg) : ¬ Releases id reg call := by
  intro h
  cases call with
  | reserve => exact h
  | release id' boot gen epoch =>
      obtain ⟨r, hrel⟩ := release_ok_iff.mp h.2
      rw [step, release_of_releasable hrel] at heq
      exact recordRelease_ne hrel heq
  | setLimits => exact h

/-- **A successful reserve** finds the id unknown, and only it makes the id known. -/
theorem latch_reserves (id : ReservationId) : Latch step (Reserves id) (Known id) where
  fresh reg call h := by
    cases call with
    | reserve req =>
        rintro ⟨r, hget⟩
        obtain ⟨rfl, hok⟩ := h
        rw [(reserve_ok_iff.mp hok).1] at hget
        cases hget
    | release => cases h
    | setLimits => cases h
  step_iff reg call := by
    rcases step_cases reg call with
      heq | ⟨req, rfl, hadm, heq⟩ | ⟨id', boot, gen, epoch, r, rfl, hrel, heq⟩ | ⟨l, rfl, heq⟩
    · rw [heq, or_iff_left (not_reserves_of_step_eq heq)]
    · rw [heq, Reserves, reserve_ok_iff, Known, getElem?_recordReserve]
      split_ifs with hid
      · exact iff_of_true ⟨_, rfl⟩ (.inr ⟨hid, hadm⟩)
      · exact (or_iff_left fun h => hid h.1).symm
    · rw [heq, Reserves, or_false, Known, getElem?_recordRelease]
      split_ifs with hid
      · exact iff_of_true ⟨_, rfl⟩ ⟨r, hid ▸ hrel.1⟩
      · exact Iff.rfl
    · rw [heq, Reserves, or_false]
      exact Iff.rfl

/-- **A successful release** finds the record not released, and only it releases it. -/
theorem latch_releases (id : ReservationId) : Latch step (Releases id) (IsReleased id) where
  fresh reg call h := by
    cases call with
    | reserve => cases h
    | release id' boot gen epoch =>
        rintro ⟨r, hget, hreleased⟩
        obtain ⟨rfl, hok⟩ := h
        obtain ⟨r', hget', hnot, -⟩ := release_ok_iff.mp hok
        rw [Option.some.inj (hget'.symm.trans hget), hreleased] at hnot
        cases hnot
    | setLimits => cases h
  step_iff reg call := by
    rcases step_cases reg call with
      heq | ⟨req, rfl, hadm, heq⟩ | ⟨id', boot, gen, epoch, r, rfl, hrel, heq⟩ | ⟨l, rfl, heq⟩
    · rw [heq, or_iff_left (not_releases_of_step_eq heq)]
    · rw [heq, Releases, or_false, IsReleased, getElem?_recordReserve]
      split_ifs with hid
      · -- the new record is not a released one, and the id was unknown
        refine iff_of_false ?_ ?_
        · rintro ⟨r, hget, hreleased⟩
          rw [← Option.some.inj hget, Reservation.released_markActive] at hreleased
          cases hreleased
        · rintro ⟨r, hget, -⟩
          rw [← hid, hadm.1] at hget
          cases hget
      · exact Iff.rfl
    · rw [heq, Releases, release_ok_iff, IsReleased, getElem?_recordRelease]
      split_ifs with hid
      · exact iff_of_true ⟨_, rfl, rfl⟩ (.inr ⟨hid, r, hrel⟩)
      · exact (or_iff_left fun h => hid h.1).symm
    · rw [heq, Releases, or_false]
      exact Iff.rfl

/-! ### Where a record comes from -/

/-- Every record is that of a reserve that succeeded in the run so far, as it was stored
or released since. -/
def Stored (start : ReservationRegistry) (past : List RegistryCall)
    (reg : ReservationRegistry) : Prop :=
  ∀ (id : ReservationId) r, reg.reservations[id]? = some r → ∃ before req,
    before ++ [.reserve req] <+: past ∧ (run step start before).Admits req ∧ req.id = id ∧
      (r = req.markActive ∨ r = req.markActive.markReleased)

/-- A record that was there is there for a reason that still stands. -/
lemma Stored.mono {start : ReservationRegistry} {past : List RegistryCall}
    (h : Stored start past reg) (call : RegistryCall) {r : Reservation}
    (hget : reg.reservations[id]? = some r) : ∃ before req,
      before ++ [.reserve req] <+: past ++ [call] ∧ (run step start before).Admits req ∧
        req.id = id ∧ (r = req.markActive ∨ r = req.markActive.markReleased) := by
  obtain ⟨before, req, hpre, hrest⟩ := h id r hget
  exact ⟨before, req, hpre.trans (List.prefix_append past [call]), hrest⟩

/-- What a call adds to the records is the record of a reserve, or a released one. -/
lemma Stored.append_singleton {start : ReservationRegistry} {past : List RegistryCall}
    (h : Stored start past (run step start past)) (call : RegistryCall) :
    Stored start (past ++ [call]) ((run step start past).step call) := by
  intro id r hget
  rcases step_cases (run step start past) call with
    heq | ⟨req, rfl, hadm, heq⟩ | ⟨id', boot, gen, epoch, r', rfl, hrel, heq⟩ | ⟨l, rfl, heq⟩
  all_goals rw [heq] at hget
  · exact h.mono _ hget
  · rw [getElem?_recordReserve] at hget
    split_ifs at hget with hid
    · exact ⟨past, req, List.prefix_rfl, hadm, hid, .inl (Option.some.inj hget).symm⟩
    · exact h.mono _ hget
  · rw [getElem?_recordRelease] at hget
    split_ifs at hget with hid
    · obtain ⟨before, req, hpre, hadm, hreq, hr'⟩ := h.mono _ hrel.1
      refine ⟨before, req, hpre, hadm, hreq.trans hid, .inr ?_⟩
      rw [← Option.some.inj hget]
      rcases hr' with rfl | rfl <;> rfl
    · exact h.mono _ hget
  · exact h.mono _ hget

lemma stored_run (limits : ReservationLimits) (calls : List RegistryCall) :
    Stored { limits } calls (run step { limits } calls) := by
  refine run_history step (fun id r hget => ?_) (fun past call h => h.append_singleton call) calls
  rw [ExtTreeMap.getElem?_empty] at hget
  cases hget

/-- A record that can be released was stored as it is, and carries the authority of the
release. -/
lemma exists_reserve_of_releasable {limits : ReservationLimits} {pre : List RegistryCall}
    {boot : WorkerBootId} {gen : ReservationGeneration} {epoch : CoordinatorEpoch} {r : Reservation}
    (h : (run step { limits } pre).Releasable id boot gen epoch r) : ∃ before req,
      before ++ [.reserve req] <+: pre ∧ (run step { limits } before).Admits req ∧
        req.id = id ∧ r = req.markActive := by
  obtain ⟨hget, hreleased, -⟩ := h
  obtain ⟨before, req, hpre, hadm, hid, rfl | rfl⟩ := stored_run limits pre id r hget
  · exact ⟨before, req, hpre, hadm, hid, rfl⟩
  · cases hreleased

/-! ### What becomes of a record -/

/-- A successful release ends the record of its id. -/
lemma getElem?_step_of_releases {r : Reservation} (hget : reg.reservations[id]? = some r)
    (h : Releases id reg call) : (reg.step call).reservations[id]? = some r.markReleased := by
  cases call with
  | reserve => cases h
  | setLimits => cases h
  | release id' boot gen epoch =>
      obtain ⟨rfl, hok⟩ := h
      obtain ⟨r', hrel⟩ := release_ok_iff.mp hok
      obtain rfl : r' = r := Option.some.inj (hrel.1.symm.trans hget)
      rw [step, release_of_releasable hrel, getElem?_recordRelease, if_pos rfl]

/-- Every other call leaves the record. -/
lemma getElem?_step_of_not_releases {r : Reservation} (hget : reg.reservations[id]? = some r)
    (h : ¬ Releases id reg call) : (reg.step call).reservations[id]? = some r := by
  rcases step_cases reg call with
    heq | ⟨req, -, hadm, heq⟩ | ⟨id', boot, gen, epoch, r', rfl, hrel, heq⟩ | ⟨l, -, heq⟩
  all_goals rw [heq]
  · exact hget
  · have hne : req.id ≠ id := by
      intro hid
      rw [← hid, hadm.1] at hget
      cases hget
    rw [getElem?_recordReserve, if_neg hne, hget]
  · have hne : id' ≠ id := fun hid => h ⟨hid, release_ok_iff.mpr ⟨r', hrel⟩⟩
    rw [getElem?_recordRelease, if_neg hne, hget]
  · exact hget

/-- **A record stays what it is** until its id is released, and is released from then
on. -/
theorem getElem?_run {r : Reservation} (hget : reg.reservations[id]? = some r)
    (calls : List RegistryCall) :
    (SomeStep step (Releases id) reg calls →
        (run step reg calls).reservations[id]? = some r.markReleased) ∧
      (¬ SomeStep step (Releases id) reg calls →
        (run step reg calls).reservations[id]? = some r) := by
  induction calls using List.reverseRecOn with
  | nil =>
      refine ⟨fun h => ?_, fun _ => hget⟩
      obtain ⟨pre, call, hpre, -⟩ := h
      simp at hpre
  | append_singleton calls call ih =>
      rw [someStep_append_singleton, run_append, run_cons, run_nil]
      by_cases hearlier : SomeStep step (Releases id) reg calls
      · -- a released record is not released again
        have hget' := ih.1 hearlier
        have hnot : ¬ Releases id (run step reg calls) call := fun hrel =>
          (latch_releases id).fresh _ _ hrel ⟨_, hget', rfl⟩
        exact ⟨fun _ => getElem?_step_of_not_releases hget' hnot,
          fun h => absurd (.inl hearlier) h⟩
      · have hget' := ih.2 hearlier
        constructor
        · rintro (h | h)
          · exact absurd h hearlier
          · exact getElem?_step_of_releases hget' h
        · intro h
          exact getElem?_step_of_not_releases hget' (not_or.mp h).2

/-! ### The life of a reservation -/

/-- A call that fails changes nothing. -/
lemma step_eq_of_fails (h : reg.Fails call) : reg.step call = reg := by
  rcases step_cases reg call with
    heq | ⟨req, rfl, hadm, -⟩ | ⟨id, boot, gen, epoch, r, rfl, hrel, -⟩ | ⟨l, rfl, -⟩
  · exact heq
  · obtain ⟨e, he⟩ := h
    rw [reserve_of_admits hadm] at he
    cases he
  · obtain ⟨e, he⟩ := h
    rw [release_of_releasable hrel] at he
    cases he
  · cases h

/-- **The life of a reservation.** In every run each id is reserved successfully at most
once and released successfully at most once; a successful release comes after the
reserve, and carries the boot, generation and epoch of the record stored by it; and a
call that returns an error leaves the records and the totals. -/
theorem lifecycle_exactly_once (limits : ReservationLimits) (calls : List RegistryCall) :
    (∀ id, AtMostOnce step (Reserves id) { limits } calls) ∧
    (∀ id, AtMostOnce step (Releases id) { limits } calls) ∧
    (∀ pre id boot gen epoch, pre ++ [.release id boot gen epoch] <+: calls →
      ((run step { limits } pre).release id boot gen epoch).1.isOk → ∃ before req r,
        before ++ [.reserve req] <+: pre ∧ req.id = id ∧
          ((run step { limits } before).reserve req).1 = .ok r ∧
          (run step { limits } (before ++ [.reserve req])).reservations[id]? = some r ∧
          r.boot = boot ∧ r.generation = gen ∧ r.epoch = epoch) ∧
    AllSteps step (fun reg call => reg.Fails call →
      (reg.step call).reservations = reg.reservations ∧
        ∀ p, (reg.step call).reservedBytes p = reg.reservedBytes p) { limits } calls := by
  refine ⟨fun id => (latch_reserves id).atMostOnce _ _,
    fun id => (latch_releases id).atMostOnce _ _, ?_, ?_⟩
  · intro pre id boot gen epoch _ hok
    obtain ⟨r, hrel⟩ := release_ok_iff.mp hok
    obtain ⟨before, req, hpre, hadm, rfl, rfl⟩ := exists_reserve_of_releasable hrel
    obtain ⟨-, -, hboot, hgen, hepoch, -⟩ := hrel
    refine ⟨before, req, req.markActive, hpre, rfl, by rw [reserve_of_admits hadm], ?_, hboot,
      hgen, hepoch⟩
    rw [run_append, run_cons, run_nil, step, reserve_of_admits hadm]
    exact getElem?_recordReserve_self _ _ _
  · refine (allSteps_iff step).mpr fun pre call post _ hfails => ?_
    rw [step_eq_of_fails hfails]
    exact ⟨rfl, fun _ => rfl⟩

end PcieFabric.ReservationRegistry
