import PcieFabric.Coordinator.Stores
import PcieFabric.Lib.Log
import PcieFabric.Persist.RecordRoundTrip
import PcieFabric.Worker.Session

/-!
What a worker is told of its reservations and measurements (`worker.cpp`), and what the
coordinator holds of them, while other connections go on.

* `Session.serverEvent`: what an event of the session is for the server. `Session.lift`:
  a component of the coordinator is one of the session.
* `Session.answered`: the request of the worker that an event answers. `log_served`: the
  transcripts are the log of these.
* `Session.Told`: a call of the worker sent the frame and returned the reply.
  `exists_answered_of_told`: some event answered the frame so.
* `TellsTruth`, `told_truth`: what the replies say holds at the end of every run.
-/

namespace PcieFabric

open Wire Machine Std

namespace Session

variable {s : Session} {e : SessionEvent}

/-! ### The server of a session -/

/-- What an event of the session is for the server. -/
def serverEvent (s : Session) : SessionEvent → Option ServerEvent
  | .serve beyond =>
      if frameReady s.toServer then
        (nextFrame .closed s.toServer).1.toOption.map fun f => .frame s.conn f beyond
      else none
  | .other e => if e.isOn s.conn then none else some e
  | .connect _ => none
  | .close => none
  | .call _ => none
  | .receive _ => none

/-- The request of the worker that an event answers, with the reply. -/
def answered (s : Session) : SessionEvent → Option (Frame × Option Ack)
  | .serve beyond =>
      if frameReady s.toServer then
        (nextFrame .closed s.toServer).1.toOption.map fun f =>
          (f, (s.server.handle s.conn f beyond).2.2.reply)
      else none
  | .other _ => none
  | .connect _ => none
  | .close => none
  | .call _ => none
  | .receive _ => none

/-- The answer to a frame is that of the coordinator before the event. -/
lemma exists_of_answered {f : Frame} {reply : Option Ack} (h : s.answered e = some (f, reply)) :
    ∃ beyond, s.serverEvent e = some (.frame s.conn f beyond) ∧
      (s.server.handle s.conn f beyond).2.2.reply = reply := by
  cases e with
  | connect | close | call | receive | other => cases h
  | serve beyond =>
      rw [answered] at h
      split_ifs at h with hready
      obtain ⟨f', hread, heq⟩ := Option.map_eq_some_iff.mp h
      obtain ⟨rfl, rfl⟩ := Prod.mk.inj heq
      refine ⟨beyond, ?_, rfl⟩
      rw [serverEvent, if_pos hready, hread]
      rfl

/-- Reading a reply leaves the server alone. -/
lemma server_receive (s : Session) (call : WorkerCall) (sent : Frame) (rounds : Nat)
    (beyond : Nat → UInt8) : (s.receive call sent rounds beyond).server = s.server := by
  rw [receive]
  rcases nextFrame .closed s.toWorker with ⟨read, rest⟩
  dsimp only
  cases awaitRound read beyond with
  | some a => rfl
  | none => rcases rounds with _ | _ | rounds <;> rfl

/-- The coordinator after an event is where the server goes by its part in it. -/
lemma coordinator_step (s : Session) (e : SessionEvent) : (s.step e).server.coordinator =
    ((s.serverEvent e).elim s.server s.server.step).coordinator := by
  cases e with
  | connect | close | call => rw [step]; split <;> rfl
  | other e => rw [step, serverEvent]; split <;> rfl
  | receive beyond =>
      rw [step]
      split
      · rfl
      · split
        · rw [server_receive]
          rfl
        · rfl
  | serve beyond =>
      rw [step, serverEvent]
      split
      · rw [serve, Server.serve]
        rcases nextFrame .closed s.toServer with ⟨_ | f, rest⟩ <;> rfl
      · rfl

/-- A component of the server that does not depend on the connections is one of the
session. -/
def lift {τ κ : Type} {partStep : τ → κ → τ} (C : Component Server.step partStep)
    (hpart : ∀ srv srv' : Server, srv.coordinator = srv'.coordinator → C.part srv = C.part srv') :
    Component step partStep where
  part s := C.part s.server
  call s e := (s.serverEvent e).bind (C.call s.server)
  part_step s e := by
    rw [hpart _ _ (s.coordinator_step e)]
    cases s.serverEvent e with
    | none => rfl
    | some e' => exact C.part_step s.server e'

/-- The registry of reservations behind a session. -/
def registry : Component step ReservationRegistry.step :=
  lift Server.registry fun _ _ h => congrArg Coordinator.reservations h

/-- The store of measurements behind a session. -/
def ingestion : Component step fun st m => (MeasurementStore.ingest st m).2 :=
  lift Server.ingestion fun _ _ h => congrArg Coordinator.measurements h

/-! ### The log of what is answered -/

/-- The requests of the worker that the coordinator has handled, on all connections. -/
def served (s : Session) : List (Frame × Option Ack) := s.transcripts.flatMap Transcript.served

/-- The calls of the worker that have ended, on all connections. -/
def ended (s : Session) : List (Frame × Option Ack) := s.transcripts.flatMap Transcript.calls

/-- A reply that is read is not handled again. -/
lemma served_receive (s : Session) (call : WorkerCall) (sent : Frame) (rounds : Nat)
    (beyond : Nat → UInt8) : (s.receive call sent rounds beyond).served = s.served := by
  rw [receive]
  rcases nextFrame .closed s.toWorker with ⟨read, rest⟩
  dsimp only
  cases awaitRound read beyond with
  | some a => simp [served, transcripts, finish]
  | none => rcases rounds with _ | _ | rounds <;> simp [served, transcripts, finish]

/-- **The log**: an event enters the request that it answers. -/
lemma log_served : Log step served answered where
  append s e := by
    cases e with
    | connect conn =>
        rw [step]
        split
        · simp [served, transcripts, connect, answered]
        · simp [answered]
    | close | call | other =>
        rw [step]
        split <;> exact (List.append_nil _).symm
    | receive beyond =>
        rw [step]
        split
        · exact (List.append_nil _).symm
        · split
          · rw [served_receive]
            exact (List.append_nil _).symm
          · exact (List.append_nil _).symm
    | serve beyond =>
        rw [step, answered]
        split
        · rw [serve, Server.serve]
          rcases nextFrame .closed s.toServer with ⟨_ | f, rest⟩ <;>
            simp [served, transcripts, Except.toOption]
        · exact (List.append_nil _).symm

/-- A call of the worker sent the frame and returned the reply. -/
def Told (s : Session) (f : Frame) (a : Ack) : Prop := (f, some a) ∈ s.ended

/-- The calls that returned a reply are among the requests that were handled. -/
lemma Sound.countP_ended_le (h : s.Sound) {P : Frame × Option Ack → Bool}
    (hP : ∀ c, P c = true → ∃ f a, c = (f, some a)) : s.ended.countP P ≤ s.served.countP P := by
  obtain ⟨⟨x, hreach, himpl⟩, hearlier⟩ := h
  rw [ended, served, List.countP_flatMap, List.countP_flatMap]
  refine List.sum_le_sum fun t ht => countP_le_of_getElem? fun k c hk hc => ?_
  obtain ⟨f, a, rfl⟩ := hP c hc
  have hpaired : t.Paired := by
    rcases List.mem_append.mp ht with ht | ht
    · exact hearlier t ht
    · rw [List.mem_singleton.mp ht]
      exact himpl.paired hreach
  exact hpaired k f a hk

/-- **Every reply is an answer**: what a call returned was written at some event, in answer
to the frame of that call. -/
theorem exists_answered_of_told {w : Worker} {events : List SessionEvent}
    (hbounded : AllSteps step Bounded (start w) events) {f : Frame} {a : Ack}
    (h : (run step (start w) events).Told f a) :
    SomeStep step (fun s e => s.answered e = some (f, some a)) (start w) events := by
  have hsound := run_invariant_of step (I := Sound) sound_step (sound_start w) hbounded
  have hle := hsound.countP_ended_le (P := fun c => c = (f, some a))
    fun c hc => ⟨f, a, of_decide_eq_true hc⟩
  have hpos : 0 < (run step (start w) events).ended.countP fun c => c = (f, some a) :=
    List.countP_pos_iff.mpr ⟨_, h, decide_eq_true rfl⟩
  obtain ⟨c, hmem, hc⟩ := List.countP_pos_iff.mp (hpos.trans_le hle)
  obtain rfl := of_decide_eq_true hc
  exact (log_served.mem_run_iff.mp hmem).resolve_left (by simp [served, transcripts, start])

end Session

/-! ### What the coordinator reads of a request -/

/-- A reservation as the coordinator reads it from the frame of a `reserve` call. -/
def Reservation.sent (r : Reservation) : Reservation :=
  { r with
    createdAt := default
    activeFlag := r.active
    releasedFlag := !r.active }

/-- The record that the coordinator makes of it. -/
def Reservation.recorded (r : Reservation) : Reservation := r.sent.markActive

/-- A release is read back. -/
lemma Wire.readRelease_writeRelease (rel : ReleaseRequest) (beyond : Nat → UInt8) :
    onPayload readRelease (writeRelease rel) beyond = .ok rel := by
  rw [onPayload, readRelease_eq, ok_whole_iff reads_release]
  exact ⟨_, rel, rfl, bytes_fixed (writeRelease rel), fits_fixed _ _, rfl⟩

section

variable {w : Worker} {f : Frame}

lemma Worker.reads_reserve {r : Reservation} (h : w.frame (.reserve r) = .ok f)
    (hshort : ShortString r.workload) (beyond : Nat → UInt8) :
    f.kind = .msgReserve ∧ onPayload Persist.decodeReservation f.payload beyond = .ok r.sent := by
  obtain rfl := Except.ok.inj h
  obtain ⟨reader, hread, -⟩ := Persist.returnsWhole_reservation hshort beyond
  exact ⟨rfl, congrArg Prod.fst hread⟩

lemma Worker.reads_release {id : ReservationId} {gen : ReservationGeneration}
    (h : w.frame (.release id gen) = .ok f) (beyond : Nat → UInt8) :
    f.kind = .msgRelease ∧ onPayload readRelease f.payload beyond =
      .ok ⟨id.value, w.boot.value, gen.value, w.epoch.value⟩ := by
  obtain rfl := Except.ok.inj h
  exact ⟨rfl, readRelease_writeRelease _ beyond⟩

lemma Worker.reads_sendMeasurement {m : Measurement} (h : w.frame (.sendMeasurement m) = .ok f)
    (hm : m.Persistable) (hlen : (Persist.encodeMeasurement m).length < 256 * 1024)
    (beyond : Nat → UInt8) : f.kind = .msgMeasurement ∧ ∃ m',
      onPayload Persist.decodeMeasurement f.payload beyond = .ok m' ∧ m'.id = m.id ∧
        m'.generation = m.generation := by
  obtain rfl := Except.ok.inj h
  obtain ⟨reader, hread, -⟩ := Persist.returnsWhole_measurement hm hlen beyond
  exact ⟨rfl, _, congrArg Prod.fst hread, rfl, rfl⟩

end

/-- A request that is stored is answered on registered connections only. -/
lemma Coordinator.registered_of_reply {c : Coordinator} {conn : Connection} {f : Frame}
    {beyond : Nat → UInt8} {a : Ack}
    (hkind : f.kind = .msgReserve ∨ f.kind = .msgRelease ∨ f.kind = .msgMeasurement)
    (h : (c.handleFrame conn f beyond).2.2.reply = some a) : conn.workerBoot.isSome := by
  by_contra hnone
  have hstored : ∀ {α β : Type} {decode : ReadM α} {call : α → Result β × Coordinator}
      {message : String},
      (c.handleStored conn f.payload beyond decode call message).2.reply = none := by
    intro α β decode call message
    rw [handleStored, Option.not_isSome_iff_eq_none.mp hnone]
    rfl
  rcases hkind with hkind | hkind | hkind
  · rw [handleFrame_reserve hkind, handleReserve, hstored] at h
    cases h
  · rw [handleFrame_release hkind, handleRelease, hstored] at h
    cases h
  · rw [handleFrame_measurement hkind, handleMeasurement, hstored] at h
    cases h

/-- A reply is positive when the frame is acknowledged. -/
lemma Server.acknowledged_iff {srv : Server} {conn : Nat} {f : Frame} {beyond : Nat → UInt8}
    {a : Ack} (h : (srv.handle conn f beyond).2.2.reply = some a) :
    srv.Acknowledged conn f beyond ↔ a.ok = true := by
  rw [Acknowledged]
  cases hanswer : (srv.handle conn f beyond).2.2 with
  | silent r =>
      rw [hanswer] at h
      cases h
  | ack a' =>
      rw [hanswer] at h
      obtain rfl : a' = a := Option.some.inj h
      exact Iff.rfl

namespace Server

variable {srv : Server} {conn : Nat} {w : Worker} {f : Frame} {beyond : Nat → UInt8} {a : Ack}

/-! ### What a reply says -/

/-- The reply to a `reserve` call is positive exactly when the registry admits the
reservation. -/
lemma reserve_of_reply {r : Reservation} (h : (srv.handle conn f beyond).2.2.reply = some a)
    (hf : w.frame (.reserve r) = .ok f) (hshort : ShortString r.workload) :
    registry.call srv (.frame conn f beyond) = some (.reserve r.sent) ∧
      (a.ok = true ↔ srv.coordinator.reservations.Admits r) := by
  obtain ⟨hkind, hdec⟩ := Worker.reads_reserve hf hshort beyond
  have hreg := Coordinator.registered_of_reply (.inl hkind) h
  have hcall : registry.call srv (.frame conn f beyond) = some (.reserve r.sent) :=
    Coordinator.registryCall_eq_reserve_iff.mpr ⟨hkind, hreg, hdec⟩
  refine ⟨hcall, ?_⟩
  rw [← acknowledged_iff h]
  constructor
  · intro hack
    exact (acksReserve_iff.mp ⟨_, _, _, rfl, hkind, hdec, hack⟩).2
  · intro hadm
    obtain ⟨_, _, _, heq, -, -, hack⟩ := acksReserve_iff.mpr ⟨hcall, hadm⟩
    cases heq
    exact hack

/-- The reply to a `release` call is positive exactly when the registry has an active record
with the boot and the epoch of the worker. -/
lemma release_of_reply {id : ReservationId} {gen : ReservationGeneration}
    (h : (srv.handle conn f beyond).2.2.reply = some a) (hf : w.frame (.release id gen) = .ok f) :
    registry.call srv (.frame conn f beyond) = some (.release id w.boot gen w.epoch) ∧
      (a.ok = true ↔
        ∃ r, srv.coordinator.reservations.Releasable id w.boot gen w.epoch r) := by
  obtain ⟨hkind, hdec⟩ := Worker.reads_release hf beyond
  have hreg := Coordinator.registered_of_reply (.inr (.inl hkind)) h
  have hcall : registry.call srv (.frame conn f beyond) =
      some (.release id w.boot gen w.epoch) :=
    Coordinator.registryCall_eq_release_iff.mpr ⟨hkind, hreg, _, hdec, rfl, rfl, rfl, rfl⟩
  refine ⟨hcall, ?_⟩
  rw [← acknowledged_iff h]
  constructor
  · intro hack
    obtain ⟨call, hcall', hrel⟩ := acksRelease_iff.mp ⟨_, _, _, _, rfl, hkind, hdec, rfl, hack⟩
    obtain rfl := Option.some.inj (hcall.symm.trans hcall')
    exact ReservationRegistry.release_ok_iff.mp hrel.2
  · intro hrel
    obtain ⟨_, _, _, _, heq, -, -, -, hack⟩ := acksRelease_iff.mpr
      ⟨_, hcall, rfl, ReservationRegistry.release_ok_iff.mpr hrel⟩
    cases heq
    exact hack

/-- The reply to a `send_measurement` call is positive exactly when the store takes it. -/
lemma measurement_of_reply {m : Measurement} (h : (srv.handle conn f beyond).2.2.reply = some a)
    (hf : w.frame (.sendMeasurement m) = .ok f) (hm : m.Persistable)
    (hlen : (Persist.encodeMeasurement m).length < 256 * 1024) :
    ∃ m', ingestion.call srv (.frame conn f beyond) = some m' ∧ m'.id = m.id ∧
      m'.generation = m.generation ∧
      (a.ok = true ↔ srv.coordinator.measurements.Accepts m') := by
  obtain ⟨hkind, m', hdec, hid, hgen⟩ := Worker.reads_sendMeasurement hf hm hlen beyond
  have hreg := Coordinator.registered_of_reply (.inr (.inr hkind)) h
  have hcall : ingestion.call srv (.frame conn f beyond) = some m' :=
    Coordinator.offered_eq_some_iff.mpr ⟨hkind, hreg, hdec⟩
  refine ⟨m', hcall, hid, hgen, ?_⟩
  rw [← acknowledged_iff h]
  constructor
  · intro hack
    exact (acksMeasurement_iff.mp ⟨_, _, _, rfl, hkind, hdec, hack⟩).2
  · intro hacc
    obtain ⟨_, _, _, heq, -, -, hack⟩ := acksMeasurement_iff.mpr ⟨hcall, hacc⟩
    cases heq
    exact hack

end Server

namespace Session

variable {s : Session} {e : SessionEvent} {w : Worker} {f : Frame} {a : Ack}

/-- The registry gets the call that the server's part in the event makes. -/
lemma call_registry {e' : ServerEvent} (h : s.serverEvent e = some e') :
    registry.call s e = Server.registry.call s.server e' := by
  show (s.serverEvent e).bind (Server.registry.call s.server) = _
  rw [h, Option.bind_some]

/-- So does the store of measurements. -/
lemma call_ingestion {e' : ServerEvent} (h : s.serverEvent e = some e') :
    ingestion.call s e = Server.ingestion.call s.server e' := by
  show (s.serverEvent e).bind (Server.ingestion.call s.server) = _
  rw [h, Option.bind_some]

lemma reserve_of_answered {r : Reservation} (h : s.answered e = some (f, some a))
    (hf : w.frame (.reserve r) = .ok f) (hshort : ShortString r.workload) :
    registry.call s e = some (.reserve r.sent) ∧
      (a.ok = true ↔ s.server.coordinator.reservations.Admits r) := by
  obtain ⟨beyond, hevent, hreply⟩ := exists_of_answered h
  rw [call_registry hevent]
  exact Server.reserve_of_reply hreply hf hshort

lemma release_of_answered {id : ReservationId} {gen : ReservationGeneration}
    (h : s.answered e = some (f, some a)) (hf : w.frame (.release id gen) = .ok f) :
    registry.call s e = some (.release id w.boot gen w.epoch) ∧
      (a.ok = true ↔
        ∃ r, s.server.coordinator.reservations.Releasable id w.boot gen w.epoch r) := by
  obtain ⟨beyond, hevent, hreply⟩ := exists_of_answered h
  rw [call_registry hevent]
  exact Server.release_of_reply hreply hf

lemma measurement_of_answered {m : Measurement} (h : s.answered e = some (f, some a))
    (hf : w.frame (.sendMeasurement m) = .ok f) (hm : m.Persistable)
    (hlen : (Persist.encodeMeasurement m).length < 256 * 1024) :
    ∃ m', ingestion.call s e = some m' ∧ m'.id = m.id ∧ m'.generation = m.generation ∧
      (a.ok = true ↔ s.server.coordinator.measurements.Accepts m') := by
  obtain ⟨beyond, hevent, hreply⟩ := exists_of_answered h
  rw [call_ingestion hevent]
  exact Server.measurement_of_reply hreply hf hm hlen

/-! ### What the replies of a run say -/

/-- The record of a reservation at the coordinator. -/
def record (s : Session) (id : ReservationId) : Option Reservation :=
  s.server.coordinator.reservations.reservations[id]?

/-- The event releases the reservation, on whatever connection. -/
def Releases (id : ReservationId) (s : Session) (e : SessionEvent) : Prop :=
  ∃ call, registry.call s e = some call ∧ s.server.coordinator.reservations.Releases id call

/-- The call reserved the id, and was told so. -/
def Grants (id : ReservationId) (c : Frame × Option Ack) : Prop :=
  ∃ (w : Worker) (r : Reservation) (a : Ack), r.id = id ∧ ShortString r.workload ∧
    w.frame (.reserve r) = .ok c.1 ∧ c.2 = some a ∧ a.ok = true

/-- The call released the id, and was told so. -/
def Frees (id : ReservationId) (c : Frame × Option Ack) : Prop :=
  ∃ (w : Worker) (gen : ReservationGeneration) (a : Ack),
    w.frame (.release id gen) = .ok c.1 ∧ c.2 = some a ∧ a.ok = true

/-- What the replies of a run say is so. A reservation that was granted is on record, until
somebody releases it and as a released one from then on; one that was refused could not be
admitted; one that was released is on record as that, with the authority of the worker; a
measurement that was taken is in the store, or a newer one. And each id is granted and
released at most once. -/
structure TellsTruth (s₀ : Session) (events : List SessionEvent) : Prop where
  granted : ∀ (w : Worker) r f a, ShortString r.workload → w.frame (.reserve r) = .ok f →
    (run step s₀ events).Told f a → a.ok = true →
      (SomeStep step (Releases r.id) s₀ events →
          (run step s₀ events).record r.id = some r.recorded.markReleased) ∧
        (¬ SomeStep step (Releases r.id) s₀ events →
          (run step s₀ events).record r.id = some r.recorded)
  refused : ∀ (w : Worker) r f a, ShortString r.workload → w.frame (.reserve r) = .ok f →
    (run step s₀ events).Told f a → a.ok = false →
      SomeStep step (fun s _ => ¬ s.server.coordinator.reservations.Admits r) s₀ events
  released : ∀ (w : Worker) id gen f a, w.frame (.release id gen) = .ok f →
    (run step s₀ events).Told f a → a.ok = true →
      ∃ r, (run step s₀ events).record id = some r ∧ r.released = true ∧ r.boot = w.boot ∧
        r.generation = gen ∧ r.epoch = w.epoch
  measured : ∀ (w : Worker) m f a, m.Persistable →
    (Persist.encodeMeasurement m).length < 256 * 1024 → w.frame (.sendMeasurement m) = .ok f →
    (run step s₀ events).Told f a → a.ok = true →
      ∃ m', (run step s₀ events).server.coordinator.measurements.entries[m.id]? = some m' ∧
        m.generation.value ≤ m'.generation.value
  grantedOnce : ∀ id (i j : Nat) c c', (run step s₀ events).ended[i]? = some c →
    (run step s₀ events).ended[j]? = some c' → Grants id c → Grants id c' → i = j
  releasedOnce : ∀ id (i j : Nat) c c', (run step s₀ events).ended[i]? = some c →
    (run step s₀ events).ended[j]? = some c' → Frees id c → Frees id c' → i = j

/-- A record stays as it is, or is released. -/
lemma record_of_earlier {s₀ : Session} {pre events : List SessionEvent} {id : ReservationId}
    {r : Reservation} (h : (run step s₀ pre).record id = some r) (hpre : pre <+: events) :
    (run step s₀ events).record id = some r ∨
      (run step s₀ events).record id = some r.markReleased := by
  obtain ⟨post, rfl⟩ := hpre
  have hrun := ReservationRegistry.getElem?_run
    (show (registry.part (run step s₀ pre)).reservations[id]? = some r from h)
    (registry.calls (run step s₀ pre) post)
  rw [← registry.part_run, ← run_append] at hrun
  by_cases hlater : SomeStep ReservationRegistry.step (ReservationRegistry.Releases id)
      (registry.part (run step s₀ pre)) (registry.calls (run step s₀ pre) post)
  · exact .inr (hrun.1 hlater)
  · exact .inl (hrun.2 hlater)

/-- What somebody released is on record as released, and only that. -/
lemma isReleased_run_iff (w : Worker) (events : List SessionEvent) (id : ReservationId) :
    (run step (start w) events).server.coordinator.reservations.IsReleased id ↔
      SomeStep step (Releases id) (start w) events := by
  have hrun := (ReservationRegistry.latch_releases id).isSet_run_iff (registry.part (start w))
    (registry.calls (start w) events)
  rw [← registry.part_run, registry.someStep_calls] at hrun
  have hempty : ¬ (registry.part (start w)).IsReleased id := by
    rintro ⟨r, hget, -⟩
    have hnone : (registry.part (start w)).reservations[id]? = none := ExtTreeMap.getElem?_empty
    rw [hnone] at hget
    cases hget
  exact hrun.trans (or_iff_right hempty)

/-- Calls of a kind that the registry lets succeed once end with success at most once. -/
lemma ended_unique {w : Worker} {events : List SessionEvent}
    (hbounded : AllSteps step Bounded (start w) events)
    {event : ReservationRegistry → RegistryCall → Prop} {isSet : ReservationRegistry → Prop}
    (hguard : Guard ReservationRegistry.step event isSet) {P : Frame × Option Ack → Prop}
    (hreply : ∀ c, P c → ∃ f a, c = (f, some a))
    (hP : ∀ s e c, answered s e = some c → P c → ∃ call, registry.call s e = some call ∧
      event (registry.part s) call) {i j : Nat} {c c' : Frame × Option Ack}
    (hi : (run step (start w) events).ended[i]? = some c)
    (hj : (run step (start w) events).ended[j]? = some c') (hc : P c) (hc' : P c') : i = j := by
  classical
  have honce := ((registry.guard hguard).atMostOnce (start w) events).mono
    (P := fun s e => ∃ c, answered s e = some c ∧ decide (P c) = true) fun s e hstep => by
      obtain ⟨c, hanswered, hc⟩ := hstep
      exact hP s e c hanswered (of_decide_eq_true hc)
  have hsound := run_invariant_of step (I := Sound) sound_step (sound_start w) hbounded
  have hle := (hsound.countP_ended_le fun c hc => hreply c (of_decide_eq_true hc)).trans
    (log_served.countP_run_le honce)
  have hnil : (start w).served = [] := rfl
  rw [hnil, List.countP_nil, Nat.zero_add] at hle
  exact getElem?_unique hle hi hj (decide_eq_true hc) (decide_eq_true hc')

/-- **What a worker is told is so**, in every run of the worker, the coordinator and all its
other connections. -/
theorem told_truth (w₀ : Worker) (events : List SessionEvent)
    (hbounded : AllSteps step Bounded (start w₀) events) : TellsTruth (start w₀) events where
  granted w r f a hshort hf htold hok := by
    obtain ⟨pre, e, hpre, hanswered⟩ := exists_answered_of_told hbounded htold
    obtain ⟨hcall, hiff⟩ := reserve_of_answered hanswered hf hshort
    have hadm : (registry.part (run step (start w₀) pre)).Admits r.sent := hiff.mp hok
    have hget : (run step (start w₀) (pre ++ [e])).record r.id = some r.recorded := by
      show (registry.part (run step (start w₀) (pre ++ [e]))).reservations[r.id]? = _
      rw [run_append, run_cons, run_nil, registry.part_step, hcall, Option.elim_some,
        ReservationRegistry.step, ReservationRegistry.reserve_of_admits hadm]
      exact ReservationRegistry.getElem?_recordReserve_self _ _ _
    rw [← isReleased_run_iff]
    -- the record says whether it was released
    rcases record_of_earlier hget hpre with hrec | hrec
    · refine ⟨?_, fun _ => hrec⟩
      rintro ⟨r', hget', hreleased⟩
      obtain rfl : r.recorded = r' := Option.some.inj (hrec.symm.trans hget')
      cases hreleased
    · exact ⟨fun _ => hrec, fun hnot => absurd ⟨_, hrec, rfl⟩ hnot⟩
  refused w r f a hshort hf htold hok := by
    obtain ⟨pre, e, hpre, hanswered⟩ := exists_answered_of_told hbounded htold
    refine ⟨pre, e, hpre, fun hadm => ?_⟩
    rw [(reserve_of_answered hanswered hf hshort).2.mpr hadm] at hok
    cases hok
  released w id gen f a hf htold hok := by
    obtain ⟨pre, e, hpre, hanswered⟩ := exists_answered_of_told hbounded htold
    obtain ⟨hcall, hiff⟩ := release_of_answered hanswered hf
    obtain ⟨r, hrel⟩ := hiff.mp hok
    have hreleases : ReservationRegistry.Releases id (registry.part (run step (start w₀) pre))
        (.release id w.boot gen w.epoch) :=
      ⟨rfl, ReservationRegistry.release_ok_iff.mpr ⟨r, hrel⟩⟩
    have hget : (run step (start w₀) (pre ++ [e])).record id = some r.markReleased := by
      show (registry.part (run step (start w₀) (pre ++ [e]))).reservations[id]? = _
      rw [run_append, run_cons, run_nil, registry.part_step, hcall]
      exact ReservationRegistry.getElem?_step_of_releases hrel.1 hreleases
    have hfields : r.boot = w.boot ∧ r.generation = gen ∧ r.epoch = w.epoch :=
      ⟨hrel.2.2.1, hrel.2.2.2.1, hrel.2.2.2.2.1⟩
    exact ⟨r.markReleased, or_self_iff.mp (record_of_earlier hget hpre), rfl, hfields⟩
  measured w m f a hm hlen hf htold hok := by
    obtain ⟨pre, e, ⟨post, hsplit⟩, hanswered⟩ := exists_answered_of_told hbounded htold
    obtain ⟨m', hcall, hid, hgen, hiff⟩ := measurement_of_answered hanswered hf hm hlen
    have hguard := ingestion.guard (Server.guard_ingest m.id m.generation)
    have hset := hguard.sets (run step (start w₀) pre) e ⟨m', hcall, hiff.mp hok, hid, hgen⟩
    have hrun := hguard.isSet_run hset post
    rwa [← run_cons, ← run_append, ← List.singleton_append, ← List.append_assoc, hsplit] at hrun
  grantedOnce id i j c c' hi hj hc hc' := by
    refine ended_unique hbounded (ReservationRegistry.latch_reserves id).guard
      (fun c hc => ?_) (fun s e c hanswered hc => ?_) hi hj hc hc'
    · obtain ⟨w, r, a, -, -, -, hreply, -⟩ := hc
      exact ⟨c.1, a, Prod.ext rfl hreply⟩
    · obtain ⟨w, r, a, hid, hshort, hf, hreply, hok⟩ := hc
      rw [show c = (c.1, some a) from Prod.ext rfl hreply] at hanswered
      obtain ⟨hcall, hiff⟩ := reserve_of_answered hanswered hf hshort
      exact ⟨_, hcall, hid, ReservationRegistry.reserve_ok_iff.mpr (hiff.mp hok)⟩
  releasedOnce id i j c c' hi hj hc hc' := by
    refine ended_unique hbounded (ReservationRegistry.latch_releases id).guard
      (fun c hc => ?_) (fun s e c hanswered hc => ?_) hi hj hc hc'
    · obtain ⟨w, gen, a, -, hreply, -⟩ := hc
      exact ⟨c.1, a, Prod.ext rfl hreply⟩
    · obtain ⟨w, gen, a, hf, hreply, hok⟩ := hc
      rw [show c = (c.1, some a) from Prod.ext rfl hreply] at hanswered
      obtain ⟨hcall, hiff⟩ := release_of_answered hanswered hf
      exact ⟨_, hcall, rfl, ReservationRegistry.release_ok_iff.mpr (hiff.mp hok)⟩

/-- A worker registers, reserves a path and releases it. -/
def leaseCycle : List SessionEvent :=
  [.connect 0, .call .registerSelf, .serve fun _ => 0, .receive fun _ => 0,
    .call (.reserve { id := ⟨3⟩, path := ⟨7⟩, bytes := ⟨1⟩, boot := ⟨100⟩ }), .serve fun _ => 0,
    .receive fun _ => 0, .call (.release ⟨3⟩ ⟨0⟩), .serve fun _ => 0, .receive fun _ => 0]

/-- The calls of a lease cycle. -/
theorem leaseCycle_told :
    (run step (start ⟨⟨1⟩, ⟨100⟩, ⟨1⟩, ⟨0⟩, false⟩) leaseCycle).ended.map
        (fun c => (c.1.kind, c.2.map Ack.ok)) =
      [(.msgRegister, some true), (.msgReserve, some true), (.msgRelease, some true)] ∧
      TellsTruth (start ⟨⟨1⟩, ⟨100⟩, ⟨1⟩, ⟨0⟩, false⟩) leaseCycle := by
  refine ⟨by decide +kernel, told_truth ⟨⟨1⟩, ⟨100⟩, ⟨1⟩, ⟨0⟩, false⟩ leaseCycle ?_⟩
  have hsmall (s : Session) (c : WorkerCall)
      (hc : ∀ w : Worker, ∀ f, w.frame c = .ok f → f.payload.length ≤ kMaxPayload) :
      s.Bounded (.call c) :=
    fun f hf => hc s.worker f (Worker.request_ok_iff.mp hf).2
  refine ⟨trivial, hsmall _ _ fun w f hf => ?_, trivial, trivial, hsmall _ _ fun w f hf => ?_,
    trivial, trivial, hsmall _ _ fun w f hf => ?_, trivial, trivial, trivial⟩
  · obtain rfl := Except.ok.inj hf
    simp [writeRegister, Writer.u64, kMaxPayload]
  · obtain rfl := Except.ok.inj hf
    simp [Persist.length_encodeReservation, kMaxPayload]
  · obtain rfl := Except.ok.inj hf
    simp [writeRelease, Writer.u64, kMaxPayload]

end Session

end PcieFabric
