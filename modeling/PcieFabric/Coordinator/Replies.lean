import PcieFabric.Coordinator.Requests
import PcieFabric.Wire.Payloads

/-!
Which frames the coordinator answers.

* `Answer.written`: the frames an answer writes on the connection.
* `Frame.IsRequest`: the kinds a worker may wait for an answer to.
* `Answerable`: the payload has the form of its kind and, where the handler asks
  for it, the connection is registered.
* `answered_iff`: a request is answered with exactly one ACK frame exactly when
  it is answerable.
* `shortAnswer_handleFrame`: the text of every reply is within the limit of the
  strings of the protocol.
-/

namespace PcieFabric

open Wire

/-- The frames an answer writes on the connection: `reply_ack` writes one, an
early return none. -/
def Answer.written : Answer → List Frame
  | .ack a => [⟨.msgAck, writeAck a⟩]
  | .silent _ => []

/-- The answer is an acknowledgement, positive or negative. -/
def Answer.isAck : Answer → Bool
  | .ack _ => true
  | .silent _ => false

lemma Answer.written_eq_iff {a : Answer} :
    (∃ ack, a.written = [⟨.msgAck, writeAck ack⟩]) ↔ a.isAck = true := by
  cases a with
  | ack a => exact iff_of_true ⟨a, rfl⟩ rfl
  | silent r => exact iff_of_false (by rintro ⟨ack, h⟩; cases h) Bool.false_ne_true

lemma Answer.written_of_not_isAck {a : Answer} (h : ¬ a.isAck = true) : a.written = [] := by
  cases a with
  | ack a => exact absurd rfl h
  | silent r => rfl

/-- No answer writes more than one frame. -/
lemma Answer.length_written_le (a : Answer) : a.written.length ≤ 1 := by
  cases a with
  | ack a => exact le_rfl
  | silent r => exact Nat.zero_le _

/-- The kinds of frames that ask for an answer. -/
def Wire.Frame.IsRequest (f : Frame) : Prop :=
  f.kind ∈ [MsgKind.msgHello, .msgRegister, .msgInventory, .msgPathSnapshot, .msgMeasurement,
    .msgReserve, .msgRelease, .msgPolicyUpdate, .msgHeartbeat, .msgRevalidate]

namespace Coordinator

variable {c : Coordinator} {conn : Connection} {f : Frame} {beyond : Nat → UInt8}

/-- The handler of the frame writes exactly one frame, an ACK. -/
def Answered (c : Coordinator) (conn : Connection) (f : Frame) (beyond : Nat → UInt8) : Prop :=
  ∃ a, (c.handleFrame conn f beyond).2.2.written = [⟨.msgAck, writeAck a⟩]

/-- A registration has 24 bytes. A snapshot decodes and comes from a registered
worker. A measurement, a reservation and a release come under a registered boot;
the first two decode, and a release has 32 bytes. -/
structure Answerable (conn : Connection) (f : Frame) (beyond : Nat → UInt8) : Prop where
  register : f.kind = .msgRegister → f.payload.length = 24
  snapshot : f.IsSnapshot → conn.workerId.isSome ∧ conn.workerBoot.isSome ∧
    (Persist.deserialize f.payload beyond).isOk
  measurement : f.kind = .msgMeasurement → conn.workerBoot.isSome ∧
    (onPayload Persist.decodeMeasurement f.payload beyond).isOk
  reserve : f.kind = .msgReserve → conn.workerBoot.isSome ∧
    (onPayload Persist.decodeReservation f.payload beyond).isOk
  release : f.kind = .msgRelease → conn.workerBoot.isSome ∧ f.payload.length = 32

/-! ### The handlers with early returns -/

/-- The handler of a registration answers what decodes. -/
lemma isAck_handleRegister (payload : List UInt8) :
    (c.handleRegister conn payload beyond).2.2.isAck = true ↔ payload.length = 24 := by
  rw [← isOk_readRegister payload beyond, handleRegister]
  cases onPayload readRegister payload beyond with
  | error e => exact Iff.rfl
  | ok reg => exact Iff.rfl

/-- The handler of a snapshot answers what decodes, of a registered worker. -/
lemma isAck_handleSnapshot (payload : List UInt8) :
    (c.handleSnapshot conn payload beyond).2.isAck = true ↔
      conn.workerId.isSome ∧ conn.workerBoot.isSome ∧
        (Persist.deserialize payload beyond).isOk := by
  rw [handleSnapshot]
  cases conn.workerId with
  | none => simp [notRegistered, Answer.isAck]
  | some wid =>
      cases conn.workerBoot with
      | none => simp [notRegistered, Answer.isAck]
      | some wb =>
          cases Persist.deserialize payload beyond with
          | error e => simp [Answer.isAck]
          | ok snap => simp [Answer.isAck, replyAck]

/-- The handlers of the stores answer what decodes, under a registered boot. -/
lemma isAck_handleStored {α β : Type} (payload : List UInt8) (decode : ReadM α)
    (call : α → Result β × Coordinator) (message : String) :
    (c.handleStored conn payload beyond decode call message).2.isAck = true ↔
      conn.workerBoot.isSome ∧ (onPayload decode payload beyond).isOk := by
  rw [handleStored]
  cases conn.workerBoot with
  | none => simp [notRegistered, Answer.isAck]
  | some wb =>
      cases onPayload decode payload beyond with
      | error e => simp [Answer.isAck]
      | ok a =>
          rcases hcall : call a with ⟨_ | _, c'⟩ <;> simp [hcall, Answer.isAck, replyAck]

/-! ### What is asked of each kind -/

/-- A request is of a kind without an early return, or of one of those with. -/
lemma isRequest_cases (h : f.IsRequest) :
    f.kind ∈ [MsgKind.msgHello, .msgPolicyUpdate, .msgHeartbeat, .msgRevalidate] ∨
      f.kind = .msgRegister ∨ f.IsSnapshot ∨ f.kind = .msgMeasurement ∨ f.kind = .msgReserve ∨
      f.kind = .msgRelease := by
  simp only [Frame.IsRequest, List.mem_cons, List.not_mem_nil, or_false] at h
  rcases h with h | h | h | h | h | h | h | h | h | h
  · exact .inl (by rw [h]; decide)
  · exact .inr (.inl h)
  · exact .inr (.inr (.inl (.inl h)))
  · exact .inr (.inr (.inl (.inr h)))
  · exact .inr (.inr (.inr (.inl h)))
  · exact .inr (.inr (.inr (.inr (.inl h))))
  · exact .inr (.inr (.inr (.inr (.inr h))))
  · exact .inl (by rw [h]; decide)
  · exact .inl (by rw [h]; decide)
  · exact .inl (by rw [h]; decide)

/-- A frame is of one kind. -/
lemma kind_ne {k l : MsgKind} (h : f.kind = k) (hne : k ≠ l) : f.kind ≠ l := h.trans_ne hne

/-- A frame of another kind is no snapshot. -/
lemma not_isSnapshot {k : MsgKind} (h : f.kind = k) (hinventory : k ≠ .msgInventory)
    (hpaths : k ≠ .msgPathSnapshot) : ¬ f.IsSnapshot := by
  rintro (hk | hk)
  · exact kind_ne h hinventory hk
  · exact kind_ne h hpaths hk

/-- The kinds without an early return. -/
lemma answerable_of_plain (h : f.kind ∈ [MsgKind.msgHello, .msgPolicyUpdate, .msgHeartbeat,
    .msgRevalidate]) : Answerable conn f beyond := by
  have hne : f.kind ≠ .msgRegister ∧ ¬ f.IsSnapshot ∧ f.kind ≠ .msgMeasurement ∧
      f.kind ≠ .msgReserve ∧ f.kind ≠ .msgRelease := by
    simp only [List.mem_cons, List.not_mem_nil, or_false] at h
    rcases h with h | h | h | h <;> rw [Frame.IsSnapshot, h] <;> decide
  obtain ⟨h₁, h₂, h₃, h₄, h₅⟩ := hne
  exact ⟨(absurd · h₁), (absurd · h₂), (absurd · h₃), (absurd · h₄), (absurd · h₅)⟩

lemma answerable_register_iff (h : f.kind = .msgRegister) :
    Answerable conn f beyond ↔ f.payload.length = 24 := by
  refine ⟨fun ha => ha.register h, fun hlen => ⟨fun _ => hlen, ?_, ?_, ?_, ?_⟩⟩
  · exact (absurd · (not_isSnapshot h (by decide) (by decide)))
  · exact (absurd · (kind_ne h (by decide)))
  · exact (absurd · (kind_ne h (by decide)))
  · exact (absurd · (kind_ne h (by decide)))

lemma answerable_snapshot_iff (h : f.IsSnapshot) : Answerable conn f beyond ↔
    conn.workerId.isSome ∧ conn.workerBoot.isSome ∧
      (Persist.deserialize f.payload beyond).isOk := by
  have hother : ∀ k, k ≠ MsgKind.msgInventory → k ≠ .msgPathSnapshot → f.kind ≠ k := by
    rintro k hinventory hpaths rfl
    exact h.elim hinventory hpaths
  refine ⟨fun ha => ha.snapshot h, fun hform => ⟨?_, fun _ => hform, ?_, ?_, ?_⟩⟩
  all_goals exact (absurd · (hother _ (by decide) (by decide)))

lemma answerable_measurement_iff (h : f.kind = .msgMeasurement) : Answerable conn f beyond ↔
    conn.workerBoot.isSome ∧ (onPayload Persist.decodeMeasurement f.payload beyond).isOk := by
  refine ⟨fun ha => ha.measurement h, fun hform => ⟨?_, ?_, fun _ => hform, ?_, ?_⟩⟩
  · exact (absurd · (kind_ne h (by decide)))
  · exact (absurd · (not_isSnapshot h (by decide) (by decide)))
  · exact (absurd · (kind_ne h (by decide)))
  · exact (absurd · (kind_ne h (by decide)))

lemma answerable_reserve_iff (h : f.kind = .msgReserve) : Answerable conn f beyond ↔
    conn.workerBoot.isSome ∧ (onPayload Persist.decodeReservation f.payload beyond).isOk := by
  refine ⟨fun ha => ha.reserve h, fun hform => ⟨?_, ?_, ?_, fun _ => hform, ?_⟩⟩
  · exact (absurd · (kind_ne h (by decide)))
  · exact (absurd · (not_isSnapshot h (by decide) (by decide)))
  · exact (absurd · (kind_ne h (by decide)))
  · exact (absurd · (kind_ne h (by decide)))

lemma answerable_release_iff (h : f.kind = .msgRelease) : Answerable conn f beyond ↔
    conn.workerBoot.isSome ∧ f.payload.length = 32 := by
  refine ⟨fun ha => ha.release h, fun hform => ⟨?_, ?_, ?_, ?_, fun _ => hform⟩⟩
  · exact (absurd · (kind_ne h (by decide)))
  · exact (absurd · (not_isSnapshot h (by decide) (by decide)))
  · exact (absurd · (kind_ne h (by decide)))
  · exact (absurd · (kind_ne h (by decide)))

/-- **Which requests are answered**: a request is answered with exactly one ACK
frame if and only if its payload has the form of its kind and, where the handler
asks for it, its connection is registered. -/
theorem answered_iff (c : Coordinator) (conn : Connection) (f : Frame) (beyond : Nat → UInt8)
    (hkind : f.IsRequest) : c.Answered conn f beyond ↔ Answerable conn f beyond := by
  rw [Answered, Answer.written_eq_iff]
  rcases isRequest_cases hkind with hplain | h | h | h | h | h
  · refine iff_of_true ?_ (answerable_of_plain hplain)
    simp only [List.mem_cons, List.not_mem_nil, or_false] at hplain
    rcases hplain with h | h | h | h <;> rw [handleFrame, handleRequest, h] <;> rfl
  · rw [handleFrame, if_pos h, isAck_handleRegister, answerable_register_iff h]
  · rw [handleFrame_snapshot h, isAck_handleSnapshot, answerable_snapshot_iff h]
  · rw [handleFrame_measurement h, handleMeasurement, isAck_handleStored,
      answerable_measurement_iff h]
  · rw [handleFrame_reserve h, handleReserve, isAck_handleStored, answerable_reserve_iff h]
  · rw [handleFrame_release h, handleRelease, isAck_handleStored, isOk_readRelease,
      answerable_release_iff h]

/-- A reservation of 64 bytes on path 4, as a registered worker with boot 10 sends it. -/
def reserveFrame : Frame where
  kind := .msgReserve
  payload := Persist.encodeReservation { id := ⟨3⟩, path := ⟨4⟩, boot := ⟨10⟩, bytes := ⟨64⟩ }

/-- A reservation that decodes is answered on a registered connection. -/
theorem registered_reserve_answered :
    Answered {} ⟨some ⟨1⟩, some ⟨10⟩⟩ reserveFrame fun _ => 0 := by
  have hkind : reserveFrame.IsRequest := by simp [Frame.IsRequest, reserveFrame]
  rw [answered_iff _ _ _ _ hkind, answerable_reserve_iff rfl]
  decide +kernel

/-- A measurement from a worker that has not registered is dropped without an
answer, and so is a registration with an empty payload. -/
theorem requests_unanswered :
    ¬ Answered {} {} ⟨.msgMeasurement, []⟩ (fun _ => 0) ∧
      ¬ Answered {} {} ⟨.msgRegister, []⟩ (fun _ => 0) := by
  constructor <;>
  · rintro ⟨a, ha⟩
    cases ha

/-! ### The texts of the replies -/

/-- A reply with this text is within the string limit. -/
def ShortText (message : String) : Prop := (ascii message).length ≤ Reader.stringCap

instance (message : String) : Decidable (ShortText message) := inferInstanceAs (Decidable (_ ≤ _))

/-- If the answer is a reply, its text is short. -/
def ShortAnswer (answer : Answer) : Prop := ∀ a, answer = .ack a → a.Short

lemma shortAnswer_replyAck {ok : Bool} {message : String} (h : ShortText message) :
    ShortAnswer (c.replyAck ok message) := by
  rintro a ⟨rfl⟩
  exact h

lemma shortAnswer_silent (r : Result Unit) : ShortAnswer (.silent r) := fun _ h => by cases h

/-- The errors of the stores have short texts. -/
lemma shortAnswer_handleStored {α β : Type} {payload : List UInt8} {decode : ReadM α}
    {call : α → Result β × Coordinator} {message : String} (hmessage : ShortText message)
    (h : ∀ a e, (call a).1 = .error e → ShortText e.message) :
    ShortAnswer (c.handleStored conn payload beyond decode call message).2 := by
  rw [handleStored]
  cases conn.workerBoot with
  | none => exact shortAnswer_silent _
  | some wb =>
      cases onPayload decode payload beyond with
      | error e => exact shortAnswer_silent _
      | ok a =>
          have ha := h a
          rcases hcall : call a with ⟨e | b, c'⟩
          · simp only [hcall]
            exact shortAnswer_replyAck (ha e (by rw [hcall]))
          · simp only [hcall]
            exact shortAnswer_replyAck hmessage

lemma shortText_ingest {st : MeasurementStore} {m : Measurement} {e : Error}
    (h : (st.ingest m).1 = .error e) : ShortText e.message := by
  rw [MeasurementStore.ingest] at h
  split at h
  · split at h
    · cases h
      decide
    · cases h
  · cases h

lemma shortText_reserve {reg : ReservationRegistry} {r : Reservation} {e : Error}
    (h : (reg.reserve r).1 = .error e) : ShortText e.message := by
  rw [ReservationRegistry.reserve] at h
  split at h
  · cases h
    decide
  · dsimp only at h
    split at h
    · cases h
      decide
    · cases h

lemma shortText_release {reg : ReservationRegistry} {id : ReservationId} {b : WorkerBootId}
    {g : ReservationGeneration} {ep : CoordinatorEpoch} {e : Error}
    (h : (reg.release id b g ep).1 = .error e) : ShortText e.message := by
  rw [ReservationRegistry.release] at h
  split at h
  · cases h
    decide
  · split_ifs at h <;> cases h <;> decide

/-- **Every reply is short.** -/
theorem shortAnswer_handleFrame (c : Coordinator) (conn : Connection) (f : Frame)
    (beyond : Nat → UInt8) : ShortAnswer (c.handleFrame conn f beyond).2.2 := by
  rw [handleFrame]
  split
  · rw [handleRegister]
    split
    · exact shortAnswer_silent _
    · exact shortAnswer_replyAck (by decide)
  · show ShortAnswer (c.handleRequest conn f beyond).2
    refine handleRequest_cases (P := fun r => ShortAnswer r.2) (fun _ => ?_) (fun _ => ?_)
      (fun _ => ?_) (fun _ => ?_) (fun _ => ?_) (fun _ => ?_) ?_ ?_ shortAnswer_silent
    · rw [handleSnapshot]
      split
      · split
        · exact shortAnswer_silent _
        · exact shortAnswer_replyAck (by decide)
      · exact shortAnswer_silent _
    · exact shortAnswer_handleStored (by decide) fun _ _ => shortText_ingest
    · exact shortAnswer_handleStored (by decide) fun _ _ => shortText_reserve
    · exact shortAnswer_handleStored (by decide) fun _ _ => shortText_release
    all_goals exact shortAnswer_replyAck (by decide)

end Coordinator

end PcieFabric
