import PcieFabric.Coordinator.Requests

/-!
The authority behind a reserve or a release: whose boot an accepted frame acts
for.

* `Reservation.HeldBy`: the reservation carries the worker and boot registered
  on a connection, and an epoch.
* `ReserveFenced`: an acknowledged reserve is held by its connection in the
  current epoch; `reserve_fenced_iff` says in which runs this holds.
* `ReleaseIsolated`: a release acts only for the boot of its connection;
  `release_isolated_iff` says in which runs this holds.

The registry compares a reservation with nothing and a release with the values
of its payload, so both hold just as far as the payloads are honest.
-/

namespace PcieFabric

open Wire Machine

/-- The reservation carries the boot and worker registered on the connection,
and the epoch. -/
def Reservation.HeldBy (r : Reservation) (conn : Connection) (epoch : CoordinatorEpoch) : Prop :=
  conn.workerBoot = some r.boot ∧ conn.workerId = some r.worker ∧ r.epoch = epoch

instance (r : Reservation) (conn : Connection) (epoch : CoordinatorEpoch) :
    Decidable (r.HeldBy conn epoch) := inferInstanceAs (Decidable (_ ∧ _ ∧ _))

namespace Server

variable {srv : Server}

/-- The frame is answered with `ok = true`. -/
def Acknowledged (srv : Server) (conn : Nat) (f : Frame) (beyond : Nat → UInt8) : Prop :=
  (srv.handle conn f beyond).2.2.isOkAck = true

/-! ### Reserve -/

/-- A reserve frame that is acknowledged has recorded the reservation of its
payload, and that one is held by the connection in the current epoch. -/
def ReserveFenced (srv : Server) : ServerEvent → Prop
  | .frame conn f beyond => f.kind = .msgReserve → srv.Acknowledged conn f beyond →
      ∃ r, onPayload Persist.decodeReservation f.payload beyond = .ok r ∧
        (srv.handle conn f beyond).1.reservations.reservations[r.id]? = some r.markActive ∧
        r.HeldBy (srv.conns conn) srv.coordinator.epoch
  | _ => True

/-- Where a registered connection asks for a reservation that the registry
admits, the request is held by that connection in the current epoch. -/
def ReserveHonest (srv : Server) : ServerEvent → Prop
  | .frame conn f beyond => ∀ r, srv.coordinator.Reserves (srv.conns conn) f beyond r →
      r.HeldBy (srv.conns conn) srv.coordinator.epoch
  | _ => True

/-- **One frame**: it is fenced exactly when it is honest. -/
lemma reserveFenced_iff (e : ServerEvent) : srv.ReserveFenced e ↔ srv.ReserveHonest e := by
  cases e with
  | advanceEpoch | revalidateAll => exact Iff.rfl
  | frame conn f beyond =>
      constructor
      · intro h r hres
        have hrun := Coordinator.handleFrame_of_reserves hres
        obtain ⟨r', hdec, -, hheld⟩ := h hres.1 (by rw [Acknowledged, handle, hrun]; rfl)
        obtain rfl : r = r' := Except.ok.inj (hres.2.2.1.symm.trans hdec)
        exact hheld
      · intro h hkind hack
        by_cases hres : ∃ r, srv.coordinator.Reserves (srv.conns conn) f beyond r
        · obtain ⟨r, hr⟩ := hres
          refine ⟨r, hr.2.2.1, ?_, h r hr⟩
          rw [handle, Coordinator.handleFrame_of_reserves hr]
          exact ReservationRegistry.getElem?_recordReserve_self _ _ _
        · -- nothing to reserve, so no acknowledgement
          push Not at hres
          obtain ⟨a, hrun, ha⟩ := Coordinator.handleFrame_of_not_reserves hkind hres
          rw [Acknowledged, handle, hrun, ha] at hack
          cases hack

/-- **Reservation fencing, exactly.** In a run of the coordinator every reserve
frame that is answered with `ok = true` records a reservation with the worker
and boot of its connection and the current epoch, if and only if every reserve
frame that the registry admits asks for such a reservation. -/
theorem reserve_fenced_iff (events : List ServerEvent) :
    AllSteps step ReserveFenced {} events ↔ AllSteps step ReserveHonest {} events :=
  allSteps_congr step (I := fun _ => True) (fun _ e _ => reserveFenced_iff e)
    (fun _ _ _ _ => trivial) trivial

/-- Workers 1 and 2 register with boots 10 and 20, and the epoch moves on to 1.
Then the connection of worker 1 asks for a reservation in the name of worker 2,
under boot 20 and epoch 0, and is answered with `ok = true`. -/
theorem reserve_accepts_foreign_authority :
    ¬ AllSteps step ReserveFenced {}
      [send 0 .msgRegister (writeRegister ⟨1, 10, 1⟩),
        send 1 .msgRegister (writeRegister ⟨2, 20, 1⟩),
        .advanceEpoch,
        send 0 .msgReserve (Persist.encodeReservation
          { id := ⟨5⟩, path := ⟨1⟩, worker := ⟨2⟩, boot := ⟨20⟩, epoch := ⟨0⟩,
            bytes := ⟨4096⟩ })] := by
  rintro ⟨-, -, -, hlast, -⟩
  obtain ⟨r, hdec, -, hheld⟩ := hlast rfl (by unfold Acknowledged; decide +kernel)
  have hboot := congrArg (Except.map fun r => some (Reservation.boot r)) hdec
  rw [Except.map, ← hheld.1] at hboot
  exact absurd hboot (by decide +kernel)

/-! ### Release -/

/-- A release frame on one connection keeps active what is held under the boot
of another, and when it is acknowledged the reservation it names was held under
its own. -/
def ReleaseIsolated (srv : Server) : ServerEvent → Prop
  | .frame conn f beyond => f.kind = .msgRelease →
      (∀ other boot, (srv.conns other).workerBoot = some boot →
        (srv.conns conn).workerBoot ≠ some boot →
        ∀ (id : ReservationId) (r : Reservation),
          srv.coordinator.reservations.reservations[id]? = some r → r.boot = boot →
          r.active = true →
          ∃ r', (srv.handle conn f beyond).1.reservations.reservations[id]? = some r' ∧
            r'.active = true) ∧
      (srv.Acknowledged conn f beyond →
        ∃ rel r, onPayload readRelease f.payload beyond = .ok rel ∧
          srv.coordinator.reservations.reservations[(⟨rel.reservation⟩ : ReservationId)]? =
            some r ∧
          (srv.conns conn).workerBoot = some r.boot)
  | _ => True

/-- Where a registered connection asks for a release that the registry performs,
the payload carries the boot registered on that connection. -/
def ReleaseHonest (srv : Server) : ServerEvent → Prop
  | .frame conn f beyond =>
      ∀ rel r, srv.coordinator.Releases (srv.conns conn) f beyond rel r →
        (srv.conns conn).workerBoot = some ⟨rel.boot⟩
  | _ => True

/-- **One frame**: it is isolated exactly when it is honest. -/
lemma releaseIsolated_iff (e : ServerEvent) : srv.ReleaseIsolated e ↔ srv.ReleaseHonest e := by
  cases e with
  | advanceEpoch | revalidateAll => exact Iff.rfl
  | frame conn f beyond =>
      constructor
      · intro h rel r hrel
        have hrun := Coordinator.handleFrame_of_releases hrel
        obtain ⟨rel', r', hdec, hget, hown⟩ :=
          (h hrel.1).2 (by rw [Acknowledged, handle, hrun]; rfl)
        obtain ⟨-, -, hdec', hget', -, hboot, -⟩ := hrel
        obtain rfl : rel = rel' := Except.ok.inj (hdec'.symm.trans hdec)
        obtain rfl : r = r' := Option.some.inj (hget'.symm.trans hget)
        rw [hown, hboot]
      · intro h hkind
        by_cases hrel : ∃ rel r, srv.coordinator.Releases (srv.conns conn) f beyond rel r
        · obtain ⟨rel, r, hr⟩ := hrel
          have hown := h rel r hr
          obtain ⟨-, -, hdec, hget, -, hboot, -⟩ := id hr
          refine ⟨fun other boot _ hother id' r' hget' hboot' hact => ?_, fun _ => ?_⟩
          · refine ⟨r', ?_, hact⟩
            rw [handle, Coordinator.handleFrame_of_releases hr]
            -- a record under another boot is not the one that is released
            have hne : (⟨rel.reservation⟩ : ReservationId) ≠ id' := by
              rintro rfl
              obtain rfl : r = r' := Option.some.inj (hget.symm.trans hget')
              exact hother (by rw [hown, ← hboot, hboot'])
            exact (ReservationRegistry.getElem?_recordRelease _ _ _ r).trans
              ((if_neg hne).trans hget')
          · exact ⟨rel, r, hdec, hget, by rw [hown, hboot]⟩
        · push Not at hrel
          obtain ⟨a, hrun, ha⟩ := Coordinator.handleFrame_of_not_releases hkind hrel
          refine ⟨fun other boot _ _ id' r' hget' _ hact => ⟨r', ?_, hact⟩, fun hack => ?_⟩
          · rw [handle, hrun]
            exact hget'
          · rw [Acknowledged, handle, hrun, ha] at hack
            cases hack

/-- **Release isolation, exactly.** In a run of the coordinator no release frame
reaches a reservation under a boot other than the one registered on its
connection, if and only if every release frame that the registry performs
carries the boot of its connection. -/
theorem release_isolated_iff (events : List ServerEvent) :
    AllSteps step ReleaseIsolated {} events ↔ AllSteps step ReleaseHonest {} events :=
  allSteps_congr step (I := fun _ => True) (fun _ e _ => releaseIsolated_iff e)
    (fun _ _ _ _ => trivial) trivial

/-- Worker 1 reserves under boot 10. Worker 2, registered with boot 20 on
another connection, releases it by writing boot 10 into its payload. -/
theorem release_by_another_worker :
    ¬ AllSteps step ReleaseIsolated {}
      [send 0 .msgRegister (writeRegister ⟨1, 10, 1⟩),
        send 0 .msgReserve (Persist.encodeReservation
          { id := ⟨5⟩, generation := ⟨1⟩, path := ⟨1⟩, worker := ⟨1⟩, boot := ⟨10⟩,
            bytes := ⟨4096⟩, activeFlag := true }),
        send 1 .msgRegister (writeRegister ⟨2, 20, 1⟩),
        send 1 .msgRelease (writeRelease ⟨5, 10, 1, 0⟩)] := by
  rintro ⟨-, -, -, hlast, -⟩
  obtain ⟨r', hget, hact⟩ := (hlast rfl).1 0 ⟨10⟩ (by decide +kernel) (by decide +kernel) ⟨5⟩
    { id := ⟨5⟩, generation := ⟨1⟩, path := ⟨1⟩, worker := ⟨1⟩, boot := ⟨10⟩,
      bytes := ⟨4096⟩, activeFlag := true } (by decide +kernel) rfl rfl
  have hstill := congrArg (Option.map Reservation.active) hget
  rw [Option.map_some, hact] at hstill
  exact absurd hstill (by decide +kernel)

end Server

end PcieFabric
