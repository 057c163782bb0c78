import PcieFabric.Coordinator.Authority
import PcieFabric.Coordinator.Fencing
import PcieFabric.Lib.Cell
import PcieFabric.Lib.Component
import PcieFabric.Reservation.Accounting
import PcieFabric.Reservation.Lifecycle
import PcieFabric.Snapshot.Ingestion

/-!
The registry of reservations and the store of measurements behind a coordinator
(`Coordinator::handle_frame`), over any interleaving of connections.

* `registryCall`, `offered`: what a frame asks of the two stores. `Server.registry`,
  `Server.ingestion`: the stores as components of the server.
* `AcksReserve`, `AcksRelease`, `AcksMeasurement`: the frame asks for the update, and its
  peer reads that it is done.
* `reservations_kept`: an acknowledged reservation is neither lost nor made twice, and the
  accounting of the registry closes.
* `measurements_kept`: what the coordinator holds of a measurement is the one it
  acknowledged last.
-/

namespace PcieFabric

open Wire Machine Std

namespace Coordinator

variable {c : Coordinator} {conn : Connection} {f : Frame} {beyond : Nat → UInt8}

/-! ### The two stores behind a frame -/

/-- The call on the registry that a frame asks for. -/
def registryCall (conn : Connection) (f : Frame) (beyond : Nat → UInt8) : Option RegistryCall :=
  if conn.workerBoot.isNone then none
  else if f.kind = .msgReserve then
    (onPayload Persist.decodeReservation f.payload beyond).toOption.map .reserve
  else if f.kind = .msgRelease then
    (onPayload readRelease f.payload beyond).toOption.map fun rel =>
      .release ⟨rel.reservation⟩ ⟨rel.boot⟩ ⟨rel.gen⟩ ⟨rel.epoch⟩
  else none

/-- The measurement that a frame offers to the store. -/
def offered (conn : Connection) (f : Frame) (beyond : Nat → UInt8) : Option Measurement :=
  if conn.workerBoot.isNone then none
  else if f.kind = .msgMeasurement then
    (onPayload Persist.decodeMeasurement f.payload beyond).toOption
  else none

/-- A stored request makes its call where the connection has a boot and the payload
decodes. -/
lemma handleStored_fst {α β : Type} {payload : List UInt8} {decode : ReadM α}
    {call : α → Result β × Coordinator} {message : String} :
    (c.handleStored conn payload beyond decode call message).1 =
      if conn.workerBoot.isNone then c
      else ((onPayload decode payload beyond).toOption.map fun a => (call a).2).getD c := by
  rw [handleStored]
  cases conn.workerBoot with
  | none => rfl
  | some wb =>
      cases onPayload decode payload beyond with
      | error e => rfl
      | ok a => rcases hcall : call a with ⟨_ | _, c'⟩ <;> simp [Except.toOption, hcall]

/-- **A frame and the registry**: it makes the call that the frame asks for. -/
lemma reservations_handleFrame : (c.handleFrame conn f beyond).1.reservations =
    (registryCall conn f beyond).elim c.reservations c.reservations.step := by
  by_cases hreserve : f.kind = .msgReserve
  · rw [handleFrame_reserve hreserve, handleReserve, registryCall, handleStored_fst,
      if_pos hreserve]
    split
    · rfl
    · cases onPayload Persist.decodeReservation f.payload beyond <;> rfl
  by_cases hrelease : f.kind = .msgRelease
  · rw [handleFrame_release hrelease, handleRelease, registryCall, handleStored_fst,
      if_neg hreserve, if_pos hrelease]
    split
    · rfl
    · cases onPayload readRelease f.payload beyond <;> rfl
  · have hnone : registryCall conn f beyond = none := by
      rw [registryCall, if_neg hreserve, if_neg hrelease, ite_self]
    rw [hnone]
    exact handleFrame_frame reservations (fun _ => handleSnapshot_frame _ (fun _ _ => rfl) _)
      (fun _ _ => rfl) (fun h => (h.elim hreserve hrelease).elim) fun _ _ => rfl

/-- **A frame and the measurements**: the store ingests what the frame offers. -/
lemma measurements_handleFrame : (c.handleFrame conn f beyond).1.measurements =
    (offered conn f beyond).elim c.measurements fun m => (c.measurements.ingest m).2 := by
  by_cases hkind : f.kind = .msgMeasurement
  · rw [handleFrame_measurement hkind, handleMeasurement, offered, handleStored_fst,
      if_pos hkind]
    split
    · rfl
    · cases onPayload Persist.decodeMeasurement f.payload beyond <;> rfl
  · have hnone : offered conn f beyond = none := by rw [offered, if_neg hkind, ite_self]
    rw [hnone]
    exact handleFrame_frame measurements (fun _ => handleSnapshot_frame _ (fun _ _ => rfl) _)
      (fun h => absurd h hkind) (fun _ _ => rfl) fun _ _ => rfl

/-- The reservation that a frame asks for. -/
lemma registryCall_eq_reserve_iff {r : Reservation} :
    registryCall conn f beyond = some (.reserve r) ↔ f.kind = .msgReserve ∧
      conn.workerBoot.isSome ∧ onPayload Persist.decodeReservation f.payload beyond = .ok r := by
  rw [registryCall]
  split_ifs with hnone hreserve hrelease
  · rw [Option.isNone_iff_eq_none] at hnone
    simp [hnone]
  · have hsome : conn.workerBoot.isSome :=
      Option.isSome_iff_ne_none.mpr fun h => hnone (by simp [h])
    cases hdec : onPayload Persist.decodeReservation f.payload beyond <;>
      simp [Except.toOption, hreserve, hsome]
  · simp [hreserve]
  · simp [hreserve]

/-- The release that a frame asks for. -/
lemma registryCall_eq_release_iff {id : ReservationId} {boot : WorkerBootId}
    {gen : ReservationGeneration} {epoch : CoordinatorEpoch} :
    registryCall conn f beyond = some (.release id boot gen epoch) ↔ f.kind = .msgRelease ∧
      conn.workerBoot.isSome ∧ ∃ rel, onPayload readRelease f.payload beyond = .ok rel ∧
        id = ⟨rel.reservation⟩ ∧ boot = ⟨rel.boot⟩ ∧ gen = ⟨rel.gen⟩ ∧ epoch = ⟨rel.epoch⟩ := by
  rw [registryCall]
  split_ifs with hnone hreserve hrelease
  · rw [Option.isNone_iff_eq_none] at hnone
    simp [hnone]
  · have hne : f.kind ≠ .msgRelease := hreserve.trans_ne (by decide)
    simp [hne]
  · have hsome : conn.workerBoot.isSome :=
      Option.isSome_iff_ne_none.mpr fun h => hnone (by simp [h])
    cases hdec : onPayload readRelease f.payload beyond <;>
      simp [Except.toOption, hrelease, hsome, eq_comm]
  · simp [hrelease]

/-- The measurement that a frame offers. -/
lemma offered_eq_some_iff {m : Measurement} : offered conn f beyond = some m ↔
    f.kind = .msgMeasurement ∧ conn.workerBoot.isSome ∧
      onPayload Persist.decodeMeasurement f.payload beyond = .ok m := by
  rw [offered]
  split_ifs with hnone hkind
  · rw [Option.isNone_iff_eq_none] at hnone
    simp [hnone]
  · have hsome : conn.workerBoot.isSome :=
      Option.isSome_iff_ne_none.mpr fun h => hnone (by simp [h])
    cases hdec : onPayload Persist.decodeMeasurement f.payload beyond <;>
      simp [Except.toOption, hkind, hsome]
  · simp [hkind]

end Coordinator

namespace Server

/-! ### The stores as components -/

/-- The registry of reservations changes by the calls that frames make on it. -/
def registry : Component step ReservationRegistry.step where
  part srv := srv.coordinator.reservations
  call srv e :=
    match e with
    | .frame conn f beyond => Coordinator.registryCall (srv.conns conn) f beyond
    | .advanceEpoch => none
    | .revalidateAll => none
  part_step srv e := by
    cases e with
    | advanceEpoch | revalidateAll => rfl
    | frame conn f beyond => exact Coordinator.reservations_handleFrame

/-- The store of measurements changes by what frames offer to it. -/
def ingestion : Component step fun st m => (MeasurementStore.ingest st m).2 where
  part srv := srv.coordinator.measurements
  call srv e :=
    match e with
    | .frame conn f beyond => Coordinator.offered (srv.conns conn) f beyond
    | .advanceEpoch => none
    | .revalidateAll => none
  part_step srv e := by
    cases e with
    | advanceEpoch | revalidateAll => rfl
    | frame conn f beyond => exact Coordinator.measurements_handleFrame

/-! ### Acknowledged updates -/

/-- The frame asks for the reservation, and its peer reads that it is made. -/
def AcksReserve (srv : Server) (e : ServerEvent) (r : Reservation) : Prop :=
  ∃ conn f beyond, e = .frame conn f beyond ∧ f.kind = .msgReserve ∧
    onPayload Persist.decodeReservation f.payload beyond = .ok r ∧ srv.Acknowledged conn f beyond

/-- The frame asks for the release of the id, and its peer reads that it is done. -/
def AcksRelease (srv : Server) (e : ServerEvent) (id : ReservationId) : Prop :=
  ∃ conn f beyond rel, e = .frame conn f beyond ∧ f.kind = .msgRelease ∧
    onPayload readRelease f.payload beyond = .ok rel ∧ ⟨rel.reservation⟩ = id ∧
    srv.Acknowledged conn f beyond

/-- The frame offers the measurement, and its peer reads that it is taken. -/
def AcksMeasurement (srv : Server) (e : ServerEvent) (m : Measurement) : Prop :=
  ∃ conn f beyond, e = .frame conn f beyond ∧ f.kind = .msgMeasurement ∧
    onPayload Persist.decodeMeasurement f.payload beyond = .ok m ∧
    srv.Acknowledged conn f beyond

variable {srv : Server} {e : ServerEvent}

/-- A reserve is acknowledged exactly when the registry admits it. -/
lemma acksReserve_iff {r : Reservation} : srv.AcksReserve e r ↔
    registry.call srv e = some (.reserve r) ∧ srv.coordinator.reservations.Admits r := by
  constructor
  · rintro ⟨conn, f, beyond, rfl, hkind, hdec, hack⟩
    by_cases h : ∃ r, srv.coordinator.Reserves (srv.conns conn) f beyond r
    · obtain ⟨r', -, hreg, hdec', hadm⟩ := h
      obtain rfl : r' = r := Except.ok.inj (hdec'.symm.trans hdec)
      exact ⟨Coordinator.registryCall_eq_reserve_iff.mpr ⟨hkind, hreg, hdec⟩, hadm⟩
    · obtain ⟨ans, hrun, hans⟩ := Coordinator.handleFrame_of_not_reserves hkind (not_exists.mp h)
      rw [Acknowledged, handle, hrun, hans] at hack
      cases hack
  · rintro ⟨hcall, hadm⟩
    cases e with
    | advanceEpoch | revalidateAll => cases hcall
    | frame conn f beyond =>
        obtain ⟨hkind, hreg, hdec⟩ := Coordinator.registryCall_eq_reserve_iff.mp hcall
        refine ⟨conn, f, beyond, rfl, hkind, hdec, ?_⟩
        rw [Acknowledged, handle, Coordinator.handleFrame_of_reserves ⟨hkind, hreg, hdec, hadm⟩]
        rfl

/-- An acknowledged reserve is a successful one on the registry. -/
lemma exists_acksReserve_iff {id : ReservationId} : (∃ r, r.id = id ∧ srv.AcksReserve e r) ↔
    ∃ call, registry.call srv e = some call ∧
      srv.coordinator.reservations.Reserves id call := by
  constructor
  · rintro ⟨r, hid, hack⟩
    obtain ⟨hcall, hadm⟩ := acksReserve_iff.mp hack
    exact ⟨_, hcall, hid, ReservationRegistry.reserve_ok_iff.mpr hadm⟩
  · rintro ⟨call, hcall, hres⟩
    cases call with
    | release | setLimits => cases hres
    | reserve r =>
        exact ⟨r, hres.1, acksReserve_iff.mpr
          ⟨hcall, ReservationRegistry.reserve_ok_iff.mp hres.2⟩⟩

/-- An acknowledged release is a successful one on the registry. -/
lemma acksRelease_iff {id : ReservationId} : srv.AcksRelease e id ↔
    ∃ call, registry.call srv e = some call ∧
      srv.coordinator.reservations.Releases id call := by
  constructor
  · rintro ⟨conn, f, beyond, rel, rfl, hkind, hdec, hid, hack⟩
    by_cases h : ∃ rel r, srv.coordinator.Releases (srv.conns conn) f beyond rel r
    · obtain ⟨rel', r, -, hreg, hdec', hrel⟩ := h
      obtain rfl : rel' = rel := Except.ok.inj (hdec'.symm.trans hdec)
      exact ⟨_, Coordinator.registryCall_eq_release_iff.mpr
        ⟨hkind, hreg, rel', hdec, rfl, rfl, rfl, rfl⟩, hid,
        ReservationRegistry.release_ok_iff.mpr ⟨r, hrel⟩⟩
    · push Not at h
      obtain ⟨ans, hrun, hans⟩ := Coordinator.handleFrame_of_not_releases hkind h
      rw [Acknowledged, handle, hrun, hans] at hack
      cases hack
  · rintro ⟨call, hcall, hrel⟩
    cases call with
    | reserve | setLimits => cases hrel
    | release id' boot gen epoch =>
        cases e with
        | advanceEpoch | revalidateAll => cases hcall
        | frame conn f beyond =>
            obtain ⟨hkind, hreg, rel, hdec, rfl, rfl, rfl, rfl⟩ :=
              Coordinator.registryCall_eq_release_iff.mp hcall
            obtain ⟨r, hr⟩ := ReservationRegistry.release_ok_iff.mp hrel.2
            refine ⟨conn, f, beyond, rel, rfl, hkind, hdec, hrel.1, ?_⟩
            rw [Acknowledged, handle, Coordinator.handleFrame_of_releases ⟨hkind, hreg, hdec, hr⟩]
            rfl

/-- A measurement is acknowledged exactly when the store accepts it. -/
lemma acksMeasurement_iff {m : Measurement} : srv.AcksMeasurement e m ↔
    ingestion.call srv e = some m ∧ srv.coordinator.measurements.Accepts m := by
  constructor
  · rintro ⟨conn, f, beyond, rfl, hkind, hdec, hack⟩
    by_cases h : ∃ m, srv.coordinator.Ingests (srv.conns conn) f beyond m
    · obtain ⟨m', -, hreg, hdec', hacc⟩ := h
      obtain rfl : m' = m := Except.ok.inj (hdec'.symm.trans hdec)
      exact ⟨Coordinator.offered_eq_some_iff.mpr ⟨hkind, hreg, hdec⟩, hacc⟩
    · obtain ⟨ans, hrun, hans⟩ := Coordinator.handleFrame_of_not_ingests hkind (not_exists.mp h)
      rw [Acknowledged, handle, hrun, hans] at hack
      cases hack
  · rintro ⟨hcall, hacc⟩
    cases e with
    | advanceEpoch | revalidateAll => cases hcall
    | frame conn f beyond =>
        obtain ⟨hkind, hreg, hdec⟩ := Coordinator.offered_eq_some_iff.mp hcall
        refine ⟨conn, f, beyond, rfl, hkind, hdec, ?_⟩
        rw [Acknowledged, handle, Coordinator.handleFrame_of_ingests ⟨hkind, hreg, hdec, hacc⟩]
        rfl

/-! ### Reservations -/

/-- What the coordinator promises of the reservations of a run. Each id is reserved and
released with an acknowledgement at most once. An acknowledged reservation is there as
it was made until its release is acknowledged, and as a released one from then on.
Nothing else is recorded, and the totals by path are those of the active records. -/
structure ReservationsKept (events : List ServerEvent) : Prop where
  reservedOnce : ∀ id, AtMostOnce step (fun srv e => ∃ r, r.id = id ∧ srv.AcksReserve e r) {} events
  releasedOnce : ∀ id, AtMostOnce step (fun srv e => srv.AcksRelease e id) {} events
  kept : ∀ pre e post r, events = pre ++ e :: post → (run step {} pre).AcksReserve e r →
    (SomeStep step (fun srv e => srv.AcksRelease e r.id) (run step {} (pre ++ [e])) post →
        (run step {} events).coordinator.reservations.reservations[r.id]? =
          some r.markActive.markReleased) ∧
      (¬ SomeStep step (fun srv e => srv.AcksRelease e r.id) (run step {} (pre ++ [e])) post →
        (run step {} events).coordinator.reservations.reservations[r.id]? = some r.markActive)
  made : ∀ (id : ReservationId) rec,
    (run step {} events).coordinator.reservations.reservations[id]? = some rec →
      SomeStep step (fun srv e => ∃ r, r.id = id ∧ srv.AcksReserve e r) {} events
  totals : ∀ p, ((run step {} events).coordinator.reservations.reservedBytes p).toNat =
    (run step {} events).coordinator.reservations.activeBytes p % 2 ^ 64
  validates : (run step {} events).coordinator.reservations.validateAccounting = .ok ()

/-- An acknowledged reservation is recorded as active. -/
lemma getElem?_of_acksReserve {r : Reservation} (h : srv.AcksReserve e r) :
    (srv.step e).coordinator.reservations.reservations[r.id]? = some r.markActive := by
  obtain ⟨hcall, hadm⟩ := acksReserve_iff.mp h
  have hpart : (srv.step e).coordinator.reservations =
      srv.coordinator.reservations.step (.reserve r) := by
    rw [show (srv.step e).coordinator.reservations = registry.part (srv.step e) from rfl,
      registry.part_step, hcall]
    rfl
  rw [hpart, ReservationRegistry.step, ReservationRegistry.reserve_of_admits hadm]
  exact ReservationRegistry.getElem?_recordReserve_self _ _ _

/-- The releases of an id in a run are those that its calls on the registry make. -/
lemma someStep_acksRelease_iff {id : ReservationId} {events : List ServerEvent} :
    SomeStep step (fun srv e => srv.AcksRelease e id) srv events ↔
      SomeStep ReservationRegistry.step (ReservationRegistry.Releases id)
        srv.coordinator.reservations (registry.calls srv events) := by
  simp only [acksRelease_iff]
  exact (registry.someStep_calls).symm

/-- **Acknowledged reservations** are neither lost nor made twice, whatever connections
send them and in whatever order. -/
theorem reservations_kept (events : List ServerEvent) : ReservationsKept events where
  reservedOnce id := by
    simp only [exists_acksReserve_iff]
    exact (registry.guard (ReservationRegistry.latch_reserves id).guard).atMostOnce _ _
  releasedOnce id := by
    simp only [acksRelease_iff]
    exact (registry.guard (ReservationRegistry.latch_releases id).guard).atMostOnce _ _
  kept pre e post r heq hack := by
    subst heq
    have hget : (registry.part (run step {} (pre ++ [e]))).reservations[r.id]? =
        some r.markActive := by
      rw [run_append]
      exact getElem?_of_acksReserve hack
    have hrun := ReservationRegistry.getElem?_run hget
      (registry.calls (run step {} (pre ++ [e])) post)
    rw [← registry.part_run, ← run_append, List.append_assoc] at hrun
    rw [someStep_acksRelease_iff]
    exact hrun
  made id rec hget := by
    have hrun := (ReservationRegistry.latch_reserves id).isSet_run_iff (registry.part {})
      (registry.calls {} events)
    rw [← registry.part_run] at hrun
    rcases hrun.mp ⟨rec, hget⟩ with ⟨rec', hnone⟩ | hsome
    · have hempty : (registry.part {}).reservations[id]? = none := ExtTreeMap.getElem?_empty
      rw [hempty] at hnone
      cases hnone
    · simp only [exists_acksReserve_iff]
      exact registry.someStep_calls.mp hsome
  totals := registry.part_invariant (I := ReservationRegistry.Balanced) (fun _ k h => h.step k)
    (ReservationRegistry.balanced_init _) events
  validates := ReservationRegistry.validateAccounting_of_balanced <|
    registry.part_invariant (I := ReservationRegistry.Balanced) (fun _ k h => h.step k)
      (ReservationRegistry.balanced_init _) events

/-! ### Measurements -/

/-- The frame is acknowledged for a measurement of the id. -/
def Measures (id : MeasurementId) (srv : Server) (e : ServerEvent) (m : Measurement) : Prop :=
  m.id = id ∧ srv.AcksMeasurement e m

/-- What the coordinator promises of the measurements of a run. Of each measurement a
generation is acknowledged at most once. What is stored under an id is what was
acknowledged last for it, and no older than anything acknowledged for it before. -/
structure MeasurementsKept (events : List ServerEvent) : Prop where
  once : ∀ id gen, AtMostOnce step
    (fun srv e => ∃ m, m.generation = gen ∧ srv.Measures id e m) {} events
  latest : ∀ (id : MeasurementId) m,
    (run step {} events).coordinator.measurements.entries[id]? = some m ↔
      LastWrite step (Measures id) {} events m
  newest : ∀ pre e post m, events = pre ++ e :: post → (run step {} pre).AcksMeasurement e m →
    ∃ m', (run step {} events).coordinator.measurements.entries[m.id]? = some m' ∧
      m.generation.value ≤ m'.generation.value

/-- A measurement that is taken is at its id, and the others stay. -/
lemma cell_measures (id : MeasurementId) :
    Cell step (fun srv => srv.coordinator.measurements.entries[id]?) (Measures id) where
  written srv e m h := by
    obtain ⟨rfl, hack⟩ := h
    obtain ⟨hcall, hacc⟩ := acksMeasurement_iff.mp hack
    have hpart := ingestion.part_step srv e
    rw [hcall, Option.elim_some,
      MeasurementStore.ingest_of_accepts (show (ingestion.part srv).Accepts m from hacc)] at hpart
    show (ingestion.part (srv.step e)).entries[m.id]? = some m
    rw [hpart]
    exact ExtTreeMap.getElem?_insert_self
  kept srv e h := by
    show (ingestion.part (srv.step e)).entries[id]? = (ingestion.part srv).entries[id]?
    rw [ingestion.part_step]
    cases hcall : ingestion.call srv e with
    | none => rfl
    | some m =>
        rw [Option.elim_some]
        by_cases hacc : srv.coordinator.measurements.Accepts m
        · have hne : m.id ≠ id := fun hid => h m ⟨hid, acksMeasurement_iff.mpr ⟨hcall, hacc⟩⟩
          rw [MeasurementStore.getElem?_ingest, if_neg hne]
        · obtain ⟨err, herr⟩ :=
            MeasurementStore.ingest_of_not_accepts (show ¬ (ingestion.part srv).Accepts m from hacc)
          rw [herr]

/-- The generation of a measurement that is taken guards it: the store holds it, or a
newer one, from then on. -/
lemma guard_ingest (id : MeasurementId) (gen : MeasurementGeneration) :
    Guard (fun st m => (MeasurementStore.ingest st m).2)
      (fun st m => st.Accepts m ∧ m.id = id ∧ m.generation = gen)
      (fun st => ∃ m, st.entries[id]? = some m ∧ gen.value ≤ m.generation.value) where
  fresh := by
    rintro st m ⟨hacc, rfl, rfl⟩ ⟨old, hold, hle⟩
    exact absurd (hacc old hold) (UInt64.not_lt.mpr hle)
  sets := by
    rintro st m ⟨hacc, rfl, rfl⟩
    refine ⟨m, ?_, UInt64.le_refl _⟩
    rw [MeasurementStore.ingest_of_accepts hacc]
    exact ExtTreeMap.getElem?_insert_self
  stays := by
    rintro st m ⟨old, hold, hle⟩
    obtain ⟨new, hnew, hge⟩ := MeasurementStore.generation_le_ingest m hold
    exact ⟨new, hnew, UInt64.le_trans hle hge⟩

/-- An acknowledgement for a generation is an ingestion that succeeds. -/
lemma exists_measures_iff {id : MeasurementId} {gen : MeasurementGeneration} :
    (∃ m, m.generation = gen ∧ srv.Measures id e m) ↔ ∃ m, ingestion.call srv e = some m ∧
      srv.coordinator.measurements.Accepts m ∧ m.id = id ∧ m.generation = gen := by
  simp only [Measures, acksMeasurement_iff]
  constructor
  · rintro ⟨m, hgen, hid, hcall, hacc⟩
    exact ⟨m, hcall, hacc, hid, hgen⟩
  · rintro ⟨m, hcall, hacc, hid, hgen⟩
    exact ⟨m, hgen, hid, hcall, hacc⟩

/-- **Acknowledged measurements**: under each id the coordinator holds the one that it
acknowledged last, which is the newest, whatever connections send them and in whatever
order. -/
theorem measurements_kept (events : List ServerEvent) : MeasurementsKept events where
  once id gen := by
    simp only [exists_measures_iff]
    exact (ingestion.guard (guard_ingest id gen)).atMostOnce _ _
  latest id m := by
    have hempty : ({} : Server).coordinator.measurements.entries[id]? = none :=
      ExtTreeMap.getElem?_empty
    rw [(cell_measures id).obs_run, hempty]
    simp
  newest pre e post m heq hack := by
    subst heq
    have hguard := ingestion.guard (guard_ingest m.id m.generation)
    have hset := hguard.sets _ _ (exists_measures_iff.mp ⟨m, rfl, rfl, hack⟩)
    have hrun := hguard.isSet_run hset post
    rwa [← run_cons, ← run_append] at hrun

end Server

end PcieFabric
