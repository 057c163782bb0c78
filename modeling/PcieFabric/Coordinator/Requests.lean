import PcieFabric.Coordinator.Coordinator

/-!
What the coordinator does with a frame.

* `handleRequest_cases`: a property that every branch of the dispatch has.
* `Reserves`, `Releases`, `Ingests`: a registered connection asks for a
  reservation, a release or a measurement that its store takes.
  `handleFrame_of_reserves` and its companions say what the frame then does, and
  `handleFrame_of_not_reserves` and its companions that it otherwise changes
  nothing and is not acknowledged.
* `Stores`: a registered connection sends a snapshot that decodes.
* `Registered`: what a registration makes of a connection; no frame undoes it.
-/

namespace PcieFabric

open Wire

/-- The frame carries a snapshot. -/
def Wire.Frame.IsSnapshot (f : Frame) : Prop :=
  f.kind = .msgInventory ∨ f.kind = .msgPathSnapshot

namespace Coordinator

variable {c : Coordinator} {conn : Connection} {f : Frame} {beyond : Nat → UInt8}

/-! ### Dispatch -/

lemma handleFrame_snapshot (h : f.IsSnapshot) : c.handleFrame conn f beyond =
    ((c.handleSnapshot conn f.payload beyond).1, conn,
      (c.handleSnapshot conn f.payload beyond).2) := by
  rcases h with h | h <;> rw [handleFrame, handleRequest, h] <;> rfl

lemma handleFrame_measurement (h : f.kind = .msgMeasurement) : c.handleFrame conn f beyond =
    ((c.handleMeasurement conn f.payload beyond).1, conn,
      (c.handleMeasurement conn f.payload beyond).2) := by
  rw [handleFrame, handleRequest, h]; rfl

lemma handleFrame_reserve (h : f.kind = .msgReserve) : c.handleFrame conn f beyond =
    ((c.handleReserve conn f.payload beyond).1, conn,
      (c.handleReserve conn f.payload beyond).2) := by
  rw [handleFrame, handleRequest, h]; rfl

lemma handleFrame_release (h : f.kind = .msgRelease) : c.handleFrame conn f beyond =
    ((c.handleRelease conn f.payload beyond).1, conn,
      (c.handleRelease conn f.payload beyond).2) := by
  rw [handleFrame, handleRequest, h]; rfl

/-- A property that every branch of the dispatch has. -/
lemma handleRequest_cases {P : Coordinator × Answer → Prop}
    (hsnapshot : f.IsSnapshot → P (c.handleSnapshot conn f.payload beyond))
    (hmeasurement : f.kind = .msgMeasurement → P (c.handleMeasurement conn f.payload beyond))
    (hreserve : f.kind = .msgReserve → P (c.handleReserve conn f.payload beyond))
    (hrelease : f.kind = .msgRelease → P (c.handleRelease conn f.payload beyond))
    (hheartbeat : f.kind = .msgHeartbeat → P (c.handleHeartbeat conn))
    (hrevalidate : f.kind = .msgRevalidate → P (c.handleRevalidate conn))
    (hpolicy : P (c, c.replyAck true "policy")) (hhello : P (c, c.replyAck true "hello"))
    (hsilent : ∀ r, P (c, .silent r)) : P (c.handleRequest conn f beyond) := by
  rw [handleRequest]
  refine iteInduction hsnapshot fun _ => ?_
  refine iteInduction hmeasurement fun _ => ?_
  refine iteInduction hreserve fun _ => ?_
  refine iteInduction hrelease fun _ => ?_
  refine iteInduction hheartbeat fun _ => ?_
  refine iteInduction hrevalidate fun _ => ?_
  refine iteInduction (fun _ => hpolicy) fun _ => ?_
  refine iteInduction (fun _ => hsilent _) fun _ => ?_
  exact iteInduction (fun _ => hhello) fun _ => hsilent _

/-! ### Requests to a store -/

section

variable {α β : Type} {payload : List UInt8} {decode : ReadM α} {call : α → Result β × Coordinator}
  {message : String}

/-- A call that the store accepts is acknowledged. -/
lemma handleStored_of_ok {a : α} {b : β} {c' : Coordinator} (hreg : conn.workerBoot.isSome)
    (hdec : onPayload decode payload beyond = .ok a) (hcall : call a = (.ok b, c')) :
    c.handleStored conn payload beyond decode call message = (c', c'.replyAck true message) := by
  obtain ⟨wb, hwb⟩ := Option.isSome_iff_exists.mp hreg
  simp only [handleStored, hwb, hdec, hcall]

/-- Where no call is made that the store accepts, nothing changes. -/
lemma handleStored_of_not_ok (h : ∀ a, conn.workerBoot.isSome →
      onPayload decode payload beyond = .ok a → ∃ e, call a = (.error e, c)) :
    ∃ ans, ((c.handleStored conn payload beyond decode call message).1, conn,
        (c.handleStored conn payload beyond decode call message).2) = (c, conn, ans) ∧
      ans.isOkAck = false := by
  rw [handleStored]
  cases hwb : conn.workerBoot with
  | none => exact ⟨_, rfl, rfl⟩
  | some wb =>
      cases hdec : onPayload decode payload beyond with
      | error e => exact ⟨_, rfl, rfl⟩
      | ok a =>
          obtain ⟨e, he⟩ := h a (by rw [hwb]; rfl) hdec
          exact ⟨c.replyAck false e.message, by simp only [he], rfl⟩

end

/-- A registered connection asks for the reservation `r`, and the registry
admits it. -/
def Reserves (c : Coordinator) (conn : Connection) (f : Frame) (beyond : Nat → UInt8)
    (r : Reservation) : Prop :=
  f.kind = .msgReserve ∧ conn.workerBoot.isSome ∧
    onPayload Persist.decodeReservation f.payload beyond = .ok r ∧ c.reservations.Admits r

lemma handleFrame_of_reserves {r : Reservation} (h : c.Reserves conn f beyond r) :
    c.handleFrame conn f beyond =
      ({ c with
          reservations := c.reservations.recordReserve r (c.reservations.reservedBytes r.path) },
        conn, c.replyAck true "reserved") := by
  obtain ⟨hkind, hreg, hdec, hadm⟩ := h
  rw [handleFrame_reserve hkind, handleReserve, handleStored_of_ok hreg hdec
    (by rw [ReservationRegistry.reserve_of_admits hadm])]
  rfl

lemma handleFrame_of_not_reserves (hkind : f.kind = .msgReserve)
    (h : ∀ r, ¬ c.Reserves conn f beyond r) :
    ∃ ans, c.handleFrame conn f beyond = (c, conn, ans) ∧ ans.isOkAck = false := by
  rw [handleFrame_reserve hkind, handleReserve]
  refine handleStored_of_not_ok fun r hreg hdec => ?_
  obtain ⟨e, he⟩ := ReservationRegistry.reserve_of_not_admits
    fun hadm => h r ⟨hkind, hreg, hdec, hadm⟩
  exact ⟨e, by rw [he]⟩

/-- A registered connection asks for the release `rel`, and it names the record
`r` of the registry with its boot, generation and epoch. -/
def Releases (c : Coordinator) (conn : Connection) (f : Frame) (beyond : Nat → UInt8)
    (rel : ReleaseRequest) (r : Reservation) : Prop :=
  f.kind = .msgRelease ∧ conn.workerBoot.isSome ∧
    onPayload readRelease f.payload beyond = .ok rel ∧
    c.reservations.Releasable ⟨rel.reservation⟩ ⟨rel.boot⟩ ⟨rel.gen⟩ ⟨rel.epoch⟩ r

lemma handleFrame_of_releases {rel : ReleaseRequest} {r : Reservation}
    (h : c.Releases conn f beyond rel r) :
    c.handleFrame conn f beyond =
      ({ c with reservations := c.reservations.recordRelease ⟨rel.reservation⟩ r }, conn,
        c.replyAck true "released") := by
  obtain ⟨hkind, hreg, hdec, hrel⟩ := h
  rw [handleFrame_release hkind, handleRelease, handleStored_of_ok hreg hdec
    (by rw [ReservationRegistry.release_of_releasable hrel])]
  rfl

lemma handleFrame_of_not_releases (hkind : f.kind = .msgRelease)
    (h : ∀ rel r, ¬ c.Releases conn f beyond rel r) :
    ∃ ans, c.handleFrame conn f beyond = (c, conn, ans) ∧ ans.isOkAck = false := by
  rw [handleFrame_release hkind, handleRelease]
  refine handleStored_of_not_ok fun rel hreg hdec => ?_
  obtain ⟨e, he⟩ := ReservationRegistry.release_of_not_releasable
    fun r hrel => h rel r ⟨hkind, hreg, hdec, hrel⟩
  exact ⟨e, by rw [he]⟩

/-- A registered connection sends the measurement `m`, and the store accepts
it. -/
def Ingests (c : Coordinator) (conn : Connection) (f : Frame) (beyond : Nat → UInt8)
    (m : Measurement) : Prop :=
  f.kind = .msgMeasurement ∧ conn.workerBoot.isSome ∧
    onPayload Persist.decodeMeasurement f.payload beyond = .ok m ∧ c.measurements.Accepts m

lemma handleFrame_of_ingests {m : Measurement} (h : c.Ingests conn f beyond m) :
    c.handleFrame conn f beyond =
      ({ c with measurements := { entries := c.measurements.entries.insert m.id m } }, conn,
        c.replyAck true "measurement accepted") := by
  obtain ⟨hkind, hreg, hdec, hacc⟩ := h
  rw [handleFrame_measurement hkind, handleMeasurement, handleStored_of_ok hreg hdec
    (by rw [MeasurementStore.ingest_of_accepts hacc])]
  rfl

lemma handleFrame_of_not_ingests (hkind : f.kind = .msgMeasurement)
    (h : ∀ m, ¬ c.Ingests conn f beyond m) :
    ∃ ans, c.handleFrame conn f beyond = (c, conn, ans) ∧ ans.isOkAck = false := by
  rw [handleFrame_measurement hkind, handleMeasurement]
  refine handleStored_of_not_ok fun m hreg hdec => ?_
  obtain ⟨e, he⟩ := MeasurementStore.ingest_of_not_accepts
    fun hacc => h m ⟨hkind, hreg, hdec, hacc⟩
  exact ⟨e, by rw [he]⟩

/-! ### Snapshots -/

/-- A connection registered with boot `wb` sends the snapshot `snap`. -/
def Stores (conn : Connection) (f : Frame) (beyond : Nat → UInt8) (wb : WorkerBootId)
    (snap : Snapshot) : Prop :=
  f.IsSnapshot ∧ conn.workerId.isSome ∧ conn.workerBoot = some wb ∧
    Persist.deserialize f.payload beyond = .ok snap

lemma handleFrame_of_stores {wb : WorkerBootId} {snap : Snapshot}
    (h : Stores conn f beyond wb snap) :
    c.handleFrame conn f beyond =
      ({ c with
          topology := snap.nodes.foldl storeNode c.topology
          paths := snap.paths.foldl (storePath c.epoch wb) c.paths },
        conn, c.replyAck true "snapshot accepted") := by
  obtain ⟨hkind, hid, hwb, hdec⟩ := h
  obtain ⟨wid, hwid⟩ := Option.isSome_iff_exists.mp hid
  simp only [handleFrame_snapshot hkind, handleSnapshot, hwid, hwb, hdec]
  rfl

lemma handleFrame_of_not_stores (hkind : f.IsSnapshot)
    (h : ∀ wb snap, ¬ Stores conn f beyond wb snap) :
    ∃ a, c.handleFrame conn f beyond = (c, conn, a) ∧ a.isOkAck = false := by
  rw [handleFrame_snapshot hkind, handleSnapshot]
  cases hwid : conn.workerId with
  | none => exact ⟨_, rfl, rfl⟩
  | some wid =>
      cases hwb : conn.workerBoot with
      | none => exact ⟨_, rfl, rfl⟩
      | some wb =>
          cases hdec : Persist.deserialize f.payload beyond with
          | error e => exact ⟨_, rfl, rfl⟩
          | ok snap => exact absurd ⟨hkind, by rw [hwid]; rfl, hwb, hdec⟩ (h wb snap)

end Coordinator

/-! ### Registrations -/

/-- A worker is registered on the connection. -/
def Connection.Registered (conn : Connection) : Prop := ∃ w b, conn = ⟨some w, some b⟩

namespace Coordinator

variable {c : Coordinator} {conn : Connection} {f : Frame} {beyond : Nat → UInt8}

/-- A registration writes both variables of its connection. -/
lemma handleFrame_register {reg : RegisterRequest} (hkind : f.kind = .msgRegister)
    (hdec : onPayload readRegister f.payload beyond = .ok reg) :
    (c.handleFrame conn f beyond).2.1 = ⟨some ⟨reg.worker⟩, some ⟨reg.boot⟩⟩ := by
  rw [handleFrame, if_pos hkind, handleRegister, hdec]

/-- A frame registers its connection or leaves it alone. -/
lemma handleFrame_conn (c : Coordinator) (conn : Connection) (f : Frame) (beyond : Nat → UInt8) :
    (c.handleFrame conn f beyond).2.1 = conn ∨
      (c.handleFrame conn f beyond).2.1.Registered := by
  by_cases hkind : f.kind = .msgRegister
  · cases hdec : onPayload readRegister f.payload beyond with
    | error e => exact .inl (by rw [handleFrame, if_pos hkind, handleRegister, hdec])
    | ok reg => exact .inr ⟨_, _, handleFrame_register hkind hdec⟩
  · exact .inl (by rw [handleFrame, if_neg hkind])

end Coordinator

/-- A connection that is registered stays registered. -/
lemma Server.registered_step {srv : Server} {conn : Nat} (h : (srv.conns conn).Registered)
    (e : ServerEvent) : ((srv.step e).conns conn).Registered := by
  cases e with
  | advanceEpoch | revalidateAll => exact h
  | frame other f beyond =>
      by_cases hc : conn = other
      · subst hc
        simp only [step, handle, Function.update_self]
        rcases srv.coordinator.handleFrame_conn (srv.conns conn) f beyond with heq | hreg
        · rwa [heq]
        · exact hreg
      · simp only [step, Function.update_of_ne hc]
        exact h

end PcieFabric
