import PcieFabric.Lib.RequestReply
import PcieFabric.Worker.Worker

/-!
A worker and the coordinator over two byte channels.

* `Session`: the server, the worker, the bytes on the way in each direction, and
  where the call of the worker stands; `Transcript` is what the two ends of a
  connection have done.
* `SessionEvent`, `Session.step`: connecting, calls, the two ends reading a frame
  when one has arrived, and whatever else happens to the server.
* `Session.Implements`: the channels hold the encodings of the messages of an
  `Exchange`; `implements_step` is the simulation.
* `acks_of_run`: every reply a call returns is what the coordinator wrote when it
  handled the request of that call.
-/

namespace PcieFabric

open Wire Machine

/-- Where the worker stands: no call is running, or one has sent its frame and
has this many rounds of its loop left. -/
inductive Phase where
  | idle
  | waiting (call : WorkerCall) (sent : Frame) (rounds : Nat)

/-- What the two ends of a connection have done: the finished calls by the frame
they sent and the reply that `send_and_await_ack` returned, and the frames that
the coordinator handled with the reply it wrote. -/
structure Transcript where
  calls : List (Frame × Option Ack) := []
  served : List (Frame × Option Ack) := []

/-- A worker and the coordinator. `conn` is the connection of the worker, and
`earlier` are the transcripts of its connections before. -/
structure Session where
  server : Server := {}
  worker : Worker
  conn : Nat := 0
  toServer : List UInt8 := []
  toWorker : List UInt8 := []
  phase : Phase := .idle
  transcript : Transcript := {}
  earlier : List Transcript := []

/-- What can happen in a session. -/
inductive SessionEvent where
  /-- The worker connects, and the coordinator accepts it as this connection. -/
  | connect (conn : Nat)
  | close
  | call (c : WorkerCall)
  /-- The coordinator goes on with the bytes it has received from the worker. -/
  | serve (beyond : Nat → UInt8)
  /-- The worker goes on with the bytes it has received. -/
  | receive (beyond : Nat → UInt8)
  /-- Something else happens to the server. -/
  | other (e : ServerEvent)

/-- `read_frame` comes back with a result on these bytes; otherwise it waits for
more. -/
def frameReady (bytes : List UInt8) : Bool :=
  kHeaderSize ≤ bytes.length ∧
    (kMaxPayload < declaredLength bytes ∨ declaredExtent bytes ≤ bytes.length)

/-- The event is a frame on this connection. -/
def ServerEvent.isOn (conn : Nat) : ServerEvent → Bool
  | .frame conn' _ _ => conn' == conn
  | _ => false

/-- The reply in an answer. -/
def Answer.reply : Answer → Option Ack
  | .ack a => some a
  | .silent _ => none

namespace Session

/-- The end of a call. -/
def finish (s : Session) (call : WorkerCall) (sent : Frame) (a : Result Ack) : Session :=
  { s with
    worker := (s.worker.finish call a).2
    phase := .idle
    transcript := { s.transcript with calls := s.transcript.calls ++ [(sent, a.toOption)] } }

/-- A worker that has connected: both channels are new, and the coordinator
starts a loop for the connection, without a registration. -/
def connect (s : Session) (conn : Nat) : Session :=
  { s with
    server := { s.server with conns := Function.update s.server.conns conn {} }
    worker := { s.worker with connected := true }
    conn, toServer := [], toWorker := [], transcript := {}
    earlier := s.earlier ++ [s.transcript] }

/-- The coordinator reads a frame of the worker and handles it. -/
def serve (s : Session) (beyond : Nat → UInt8) : Session :=
  let (server, rest, handled) := s.server.serve s.conn s.toServer beyond
  let log := handled.toList.map fun h => (h.1, h.2.reply)
  { s with
    server, toServer := rest
    toWorker := s.toWorker ++ encodeAll (writtenFor handled)
    transcript := { s.transcript with served := s.transcript.served ++ log } }

/-- A round of the loop of the running call. -/
def receive (s : Session) (call : WorkerCall) (sent : Frame) (rounds : Nat)
    (beyond : Nat → UInt8) : Session :=
  let (read, rest) := nextFrame .closed s.toWorker
  let s' := { s with toWorker := rest }
  match awaitRound read beyond with
  | some a => s'.finish call sent a
  | none =>
      match rounds with
      | 0 | 1 => s'.finish call sent (.err .timeout "no ack")
      | rounds + 2 => { s' with phase := .waiting call sent (rounds + 1) }

/-- The session after an event. The worker has one thread: it connects, closes
and calls only when no call is running. -/
def step (s : Session) : SessionEvent → Session
  | .connect conn =>
      match s.phase with
      | .idle => s.connect conn
      | .waiting .. => s
  | .close =>
      match s.phase with
      | .idle => { s with worker := { s.worker with connected := false } }
      | .waiting .. => s
  | .call c =>
      match s.phase, s.worker.request c with
      | .idle, .ok f =>
          { s with toServer := s.toServer ++ encode f, phase := .waiting c f kAwaitRounds }
      | _, _ => s
  | .serve beyond => if frameReady s.toServer then s.serve beyond else s
  | .receive beyond =>
      match s.phase with
      | .idle => s
      | .waiting call sent rounds =>
          if frameReady s.toWorker then s.receive call sent rounds beyond else s
  | .other e => if e.isOn s.conn then s else { s with server := s.server.step e }

/-- The session before the worker connects. -/
def start (w : Worker) : Session := { worker := { w with connected := false } }

/-- The transcripts of all connections of the worker. -/
def transcripts (s : Session) : List Transcript := s.earlier ++ [s.transcript]

/-- A request that is sent is at most `kMaxPayload` bytes long. -/
def Bounded (s : Session) : SessionEvent → Prop
  | .call c => ∀ f, s.worker.request c = .ok f → f.payload.length ≤ kMaxPayload
  | _ => True

end Session

/-! ### The exchange of frames -/

/-- The frame of the running call. -/
def Phase.sent : Phase → Option Frame
  | .idle => none
  | .waiting _ sent _ => some sent

/-- A frame that a worker sends is legal when its payload is within the limit. -/
lemma Worker.legal_of_frame {w : Worker} {c : WorkerCall} {f : Frame} (h : w.frame c = .ok f)
    (hlen : f.payload.length ≤ kMaxPayload) : f.Legal := by
  have hkind : 1 ≤ f.kind.code ∧ f.kind.code ≤ 12 := by
    cases c <;> obtain rfl := Except.ok.inj h <;> dsimp only <;> decide
  exact ⟨hkind.1, hkind.2, hlen⟩

lemma Answer.written_eq (a : Answer) : a.written = a.reply.toList.map Ack.frame := by
  cases a <;> rfl

namespace Session

/-- The channels hold the encodings of the messages of the exchange, and the two
ends have done the same. -/
structure Implements (s : Session) (x : Exchange Frame Ack) : Prop where
  toServer : s.toServer = encodeAll x.requests
  requests : ∀ f ∈ x.requests, f.Legal
  toWorker : s.toWorker = encodeAll (x.replies.map Ack.frame)
  replies : ∀ a ∈ x.replies, a.Short
  waiting : x.waiting = s.phase.sent
  calls : s.transcript.calls = x.calls
  served : s.transcript.served = x.served

variable {s : Session} {x : Exchange Frame Ack}

/-- A connected worker starts with an empty exchange. -/
lemma implements_connect (s : Session) (hidle : s.phase = .idle) (conn : Nat) :
    (s.connect conn).Implements {} where
  toServer := rfl
  requests := by simp
  toWorker := rfl
  replies := by simp
  waiting := by rw [connect, hidle]; rfl
  calls := rfl
  served := rfl

/-- A call that sends its frame. -/
lemma Implements.call (h : s.Implements x) (hidle : s.phase = .idle) {c : WorkerCall} {f : Frame}
    (hreq : s.worker.request c = .ok f) (hlen : f.payload.length ≤ kMaxPayload) :
    ∃ x', Exchange.Step x x' ∧ Implements
      { s with toServer := s.toServer ++ encode f, phase := .waiting c f kAwaitRounds } x' := by
  have hwait : x.waiting = none := by rw [h.waiting, hidle]; rfl
  have hlegal := Worker.legal_of_frame (Worker.request_ok_iff.mp hreq).2 hlen
  refine ⟨_, .send x f hwait, ?_, ?_, h.toWorker, h.replies, rfl, h.calls, h.served⟩
  · show s.toServer ++ encode f = encodeAll (x.requests ++ [f])
    rw [h.toServer, encodeAll, encodeAll, List.flatMap_append, List.flatMap_singleton]
  · intro g hg
    rcases List.mem_append.mp hg with hg | hg
    · exact h.requests g hg
    · rwa [List.mem_singleton.mp hg]

/-- The coordinator reads and handles the next request. -/
lemma Implements.serve (h : s.Implements x) (hready : frameReady s.toServer = true)
    (beyond : Nat → UInt8) : ∃ x', Exchange.Step x x' ∧ (s.serve beyond).Implements x' := by
  cases hreqs : x.requests with
  | nil =>
      rw [h.toServer, hreqs] at hready
      cases hready
  | cons f rest =>
      have hlegal : f.Legal := h.requests f (by rw [hreqs]; exact List.mem_cons_self)
      have hbytes : s.toServer = encode f ++ encodeAll rest := by
        rw [h.toServer, hreqs, encodeAll, List.flatMap_cons, encodeAll]
      have hserve : s.server.serve s.conn s.toServer beyond =
          (s.server.step (.frame s.conn f beyond), encodeAll rest,
            some (f, (s.server.handle s.conn f beyond).2.2)) := by
        rw [Server.serve, hbytes, nextFrame_encode hlegal]
      have hshort := Coordinator.shortAnswer_handleFrame s.server.coordinator
        (s.server.conns s.conn) f beyond
      refine ⟨_, .serve x f rest (s.server.handle s.conn f beyond).2.2.reply hreqs, ?_⟩
      rw [Session.serve, hserve]
      refine ⟨rfl, fun g hg => h.requests g (by rw [hreqs]; exact List.mem_cons_of_mem f hg), ?_,
        fun a ha => ?_, h.waiting, h.calls, ?_⟩
      · show s.toWorker ++ encodeAll (Answer.written _) = _
        rw [h.toWorker, Answer.written_eq, encodeAll, encodeAll, encodeAll, List.map_append,
          List.flatMap_append]
      · rcases List.mem_append.mp ha with ha | ha
        · exact h.replies a ha
        · refine hshort a ?_
          cases hanswer : (s.server.handle s.conn f beyond).2.2 with
          | ack a' =>
              rw [hanswer] at ha
              rw [List.mem_singleton.mp ha]
              exact hanswer
          | silent r =>
              rw [hanswer] at ha
              cases ha
      · show s.transcript.served ++ _ = _
        rw [h.served]
        rfl

/-- The call reads the next reply and returns it. -/
lemma Implements.receive (h : s.Implements x) {call : WorkerCall} {sent : Frame} {rounds : Nat}
    (hphase : s.phase = .waiting call sent rounds) (hready : frameReady s.toWorker = true)
    (beyond : Nat → UInt8) :
    ∃ x', Exchange.Step x x' ∧ (s.receive call sent rounds beyond).Implements x' := by
  cases hreplies : x.replies with
  | nil =>
      rw [h.toWorker, hreplies] at hready
      cases hready
  | cons a rest =>
      have hshort : a.Short := h.replies a (by rw [hreplies]; exact List.mem_cons_self)
      have hnext : nextFrame .closed s.toWorker =
          (.ok a.frame, encodeAll (rest.map Ack.frame)) := by
        rw [h.toWorker, hreplies, List.map_cons, encodeAll, List.flatMap_cons,
          nextFrame_encode (Ack.legal_frame hshort), encodeAll]
      have hwait : x.waiting = some sent := by rw [h.waiting, hphase]; rfl
      refine ⟨_, .receive x sent a rest (some a) hwait hreplies fun r hr =>
        (Option.some.inj hr).symm, ?_⟩
      rw [Session.receive, hnext]
      simp only [awaitRound_frame hshort]
      refine ⟨h.toServer, h.requests, rfl,
        fun b hb => h.replies b (by rw [hreplies]; exact List.mem_cons_of_mem a hb), rfl, ?_,
        h.served⟩
      show s.transcript.calls ++ _ = _
      rw [h.calls]
      rfl

/-- **The simulation**: every event but a new connection is a step of the
exchange, or none. -/
theorem implements_step (h : s.Implements x) (e : SessionEvent) (hbounded : s.Bounded e)
    (hold : ∀ conn, e ≠ .connect conn) :
    ∃ x', Relation.ReflTransGen Exchange.Step x x' ∧ (s.step e).Implements x' := by
  cases e with
  | connect conn => exact absurd rfl (hold conn)
  | close =>
      refine ⟨x, .refl, ?_⟩
      rw [step]
      split
      · exact ⟨h.toServer, h.requests, h.toWorker, h.replies, h.waiting, h.calls, h.served⟩
      · exact h
  | call c =>
      rw [step]
      split
      next f hidle hreq =>
        obtain ⟨x', hstep, himpl⟩ := h.call hidle hreq (hbounded f hreq)
        exact ⟨x', .single hstep, himpl⟩
      · exact ⟨x, .refl, h⟩
  | serve beyond =>
      rw [step]
      split
      next hready =>
        obtain ⟨x', hstep, himpl⟩ := h.serve hready beyond
        exact ⟨x', .single hstep, himpl⟩
      · exact ⟨x, .refl, h⟩
  | receive beyond =>
      rw [step]
      split
      · exact ⟨x, .refl, h⟩
      next call sent rounds hphase =>
        split
        next hready =>
          obtain ⟨x', hstep, himpl⟩ := h.receive hphase hready beyond
          exact ⟨x', .single hstep, himpl⟩
        · exact ⟨x, .refl, h⟩
  | other e =>
      refine ⟨x, .refl, ?_⟩
      rw [step]
      split
      · exact h
      · exact ⟨h.toServer, h.requests, h.toWorker, h.replies, h.waiting, h.calls, h.served⟩

end Session

/-- The reply that a call returned is the one that the coordinator wrote when it
handled the frame of that call: the `k`-th call sent the `k`-th frame that was
handled. -/
def Transcript.Paired (t : Transcript) : Prop :=
  ∀ (k : Nat) (f : Frame) (a : Ack), t.calls[k]? = some (f, some a) → t.served[k]? = some (f, some a)

namespace Session

lemma Implements.paired {s : Session} {x : Exchange Frame Ack} (h : s.Implements x)
    (hreach : Relation.ReflTransGen Exchange.Step {} x) : s.transcript.Paired := by
  intro k f a hk
  rw [h.calls] at hk
  rw [h.served]
  exact (Exchange.inv_of_reachable hreach).returned hk

/-- The state of an exchange that the session implements, and the connections
before. -/
def Sound (s : Session) : Prop :=
  (∃ x, Relation.ReflTransGen Exchange.Step {} x ∧ s.Implements x) ∧
    ∀ t ∈ s.earlier, t.Paired

lemma sound_start (w : Worker) : (start w).Sound :=
  ⟨⟨{}, .refl, rfl, by simp, rfl, by simp, rfl, rfl, rfl⟩, by simp [start]⟩

lemma earlier_receive (s : Session) (call : WorkerCall) (sent : Frame) (rounds : Nat)
    (beyond : Nat → UInt8) : (s.receive call sent rounds beyond).earlier = s.earlier := by
  rw [receive]
  rcases nextFrame .closed s.toWorker with ⟨read, rest⟩
  dsimp only
  cases awaitRound read beyond with
  | some a => rfl
  | none => rcases rounds with _ | _ | rounds <;> rfl

lemma earlier_step {s : Session} {e : SessionEvent} (hold : ∀ conn, e ≠ .connect conn) :
    (s.step e).earlier = s.earlier := by
  cases e with
  | connect conn => exact absurd rfl (hold conn)
  | receive beyond =>
      rw [step]
      split
      · rfl
      · split
        · exact earlier_receive ..
        · rfl
  | close | call | serve | other => rw [step]; split <;> rfl

/-- Every event keeps the session sound. -/
lemma sound_step (s : Session) (e : SessionEvent) (h : s.Sound) (hbounded : s.Bounded e) :
    (s.step e).Sound := by
  obtain ⟨⟨x, hreach, himpl⟩, hearlier⟩ := h
  by_cases hold : ∀ conn, e ≠ .connect conn
  · obtain ⟨x', hsteps, himpl'⟩ := implements_step himpl e hbounded hold
    exact ⟨⟨x', hreach.trans hsteps, himpl'⟩, by rw [earlier_step hold]; exact hearlier⟩
  · push Not at hold
    obtain ⟨conn, rfl⟩ := hold
    cases hphase : s.phase with
    | waiting call sent rounds =>
        rw [step, hphase]
        exact ⟨⟨x, hreach, himpl⟩, hearlier⟩
    | idle =>
        rw [step, hphase]
        refine ⟨⟨{}, .refl, s.implements_connect hphase conn⟩, fun t ht => ?_⟩
        rcases List.mem_append.mp ht with ht | ht
        · exact hearlier t ht
        · rw [List.mem_singleton.mp ht]
          exact himpl.paired hreach

/-- **Replies go to their requests**: in every run of a worker and the coordinator
whose requests are within the limit, on every connection of the worker, the reply
that a call returned is the one that the coordinator wrote when it handled the
frame of that call. And no frame is answered by more than one. -/
theorem acks_of_run (w : Worker) (events : List SessionEvent)
    (hbounded : AllSteps step Bounded (start w) events) :
    (∀ t ∈ (run step (start w) events).transcripts, t.Paired) ∧
      ∀ (c : Coordinator) (conn : Connection) (f : Frame) (beyond : Nat → UInt8),
        (c.handleFrame conn f beyond).2.2.written.length ≤ 1 := by
  obtain ⟨⟨x, hreach, himpl⟩, hearlier⟩ :=
    run_invariant_of step (I := Sound) sound_step (sound_start w) hbounded
  refine ⟨fun t ht => ?_, fun c conn f beyond => Answer.length_written_le _⟩
  rcases List.mem_append.mp ht with ht | ht
  · exact hearlier t ht
  · rw [List.mem_singleton.mp ht]
    exact himpl.paired hreach

/-- A worker connects, registers, and sends a heartbeat. -/
def greeting : List SessionEvent :=
  [.connect 0, .call .registerSelf, .serve fun _ => 0, .receive fun _ => 0,
    .call .heartbeat, .serve fun _ => 0, .receive fun _ => 0]

/-- Both calls of a greeting return a reply, and each returns its own. -/
theorem greeting_paired :
    (run step (start ⟨⟨1⟩, ⟨100⟩, ⟨1⟩, ⟨0⟩, false⟩) greeting).transcript.calls.map
        (fun c => (c.1.kind, c.2.map Ack.ok)) =
      [(.msgRegister, some true), (.msgHeartbeat, some true)] ∧
      ∀ t ∈ (run step (start ⟨⟨1⟩, ⟨100⟩, ⟨1⟩, ⟨0⟩, false⟩) greeting).transcripts, t.Paired := by
  refine ⟨by decide +kernel, (acks_of_run ⟨⟨1⟩, ⟨100⟩, ⟨1⟩, ⟨0⟩, false⟩ greeting ?_).1⟩
  have hsmall (s : Session) (c : WorkerCall) (hc : c = .registerSelf ∨ c = .heartbeat) :
      s.Bounded (.call c) := by
    intro f hf
    rcases hc with rfl | rfl
    · obtain rfl := Except.ok.inj (Worker.request_ok_iff.mp hf).2
      simp [writeRegister, Writer.u64, kMaxPayload]
    · obtain rfl := Except.ok.inj (Worker.request_ok_iff.mp hf).2
      exact Nat.zero_le _
  exact ⟨trivial, hsmall _ _ (.inl rfl), trivial, trivial, hsmall _ _ (.inr rfl), trivial, trivial,
    trivial⟩

end Session

end PcieFabric
