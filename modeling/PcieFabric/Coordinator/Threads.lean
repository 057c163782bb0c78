import PcieFabric.Coordinator.Workers
import PcieFabric.Lib.Component
import PcieFabric.Lib.Log

/-!
The threads of a coordinator, one for each connection (`Coordinator::handle_frame`,
`Coordinator::reply_ack`).

* `Threads`, `ThreadEvent`, `Threads.step`: a handler makes its one change under a lock, but
  most of them reply behind it: they read `seq_`, then `epoch_`, and other threads go on
  between these. Each of the two reads is one event.
* `effects`: the events of the server in the order in which they take effect, as a
  component. `answersOn`: what the server answers on a connection if nothing comes between a
  change and its reply.
* `Late`: a reply that was made later. `Tracks.step`: what one event does to the replies of a
  connection.
* `Linearized`, `linearized`: the threads do what the server does step by step, and reply the
  same but for later stamps. `tornReply`: which may be those of no moment.
-/

namespace PcieFabric

open Wire Machine

/-- A reply without its stamps, to this frame. -/
structure Draft where
  frame : Frame
  ok : Bool
  message : List UInt8

/-- Where the thread of a connection stands in `handle_frame`. -/
inductive Stage where
  /-- It waits for the next frame. -/
  | reading
  /-- It has made its change, and reads `seq_` next. -/
  | changed (d : Draft)
  /-- It reads `epoch_` next, and writes its reply. -/
  | numbered (d : Draft) (seq : UInt64)

/-- The threads over the server: where they stand, and the replies that they have written,
each with the frame that it answers. -/
structure Threads where
  server : Server := {}
  stage : Nat → Stage := fun _ => .reading
  written : Nat → List (Frame × Ack) := fun _ => []

/-- What can happen to the threads. -/
inductive ThreadEvent where
  /-- The thread has read a frame, and makes the change that it asks for. -/
  | frame (conn : Nat) (f : Frame) (beyond : Nat → UInt8)
  /-- The thread reads `seq_`. -/
  | readSeq (conn : Nat)
  /-- The thread reads `epoch_` and writes its reply. -/
  | reply (conn : Nat)
  | advanceEpoch
  | revalidateAll

/-- The handler holds the lock while it replies. -/
def Wire.Frame.RepliesLocked (f : Frame) : Prop :=
  f.kind = .msgRegister ∨ f.kind = .msgInventory ∨ f.kind = .msgPathSnapshot

instance (f : Frame) : Decidable f.RepliesLocked :=
  inferInstanceAs (Decidable (f.kind = .msgRegister ∨ f.kind = .msgInventory ∨
    f.kind = .msgPathSnapshot))

namespace Threads

variable {t : Threads} {conn n : Nat} {e : ThreadEvent}

/-- The change that a frame asks for, up to where the handler leaves the lock. -/
def take (t : Threads) (conn : Nat) (f : Frame) (beyond : Nat → UInt8) : Threads :=
  let server := t.server.step (.frame conn f beyond)
  match (t.server.handle conn f beyond).2.2 with
  | .silent _ => { t with server }
  | .ack a =>
      if f.RepliesLocked then
        { t with server, written := Function.update t.written conn (t.written conn ++ [(f, a)]) }
      else
        { t with server, stage := Function.update t.stage conn (.changed ⟨f, a.ok, a.message⟩) }

/-- The threads after an event. A thread handles one frame after the other. -/
def step (t : Threads) : ThreadEvent → Threads
  | .frame conn f beyond =>
      match t.stage conn with
      | .reading => t.take conn f beyond
      | .changed _ => t
      | .numbered _ _ => t
  | .readSeq conn =>
      match t.stage conn with
      | .changed d =>
          let seq := t.server.coordinator.seq
          { t with stage := Function.update t.stage conn (.numbered d seq) }
      | .reading => t
      | .numbered _ _ => t
  | .reply conn =>
      match t.stage conn with
      | .numbered d seq =>
          let a : Ack := ⟨t.server.coordinator.epoch.value, seq, d.ok, d.message⟩
          { t with
            stage := Function.update t.stage conn .reading
            written := Function.update t.written conn (t.written conn ++ [(d.frame, a)]) }
      | .reading => t
      | .changed _ => t
  | .advanceEpoch => { t with server := t.server.step .advanceEpoch }
  | .revalidateAll => { t with server := t.server.step .revalidateAll }

/-! ### The order of the effects -/

/-- What an event is for the server. -/
def serverEvent (t : Threads) : ThreadEvent → Option ServerEvent
  | .frame conn f beyond =>
      match t.stage conn with
      | .reading => some (.frame conn f beyond)
      | .changed _ => none
      | .numbered _ _ => none
  | .readSeq _ => none
  | .reply _ => none
  | .advanceEpoch => some .advanceEpoch
  | .revalidateAll => some .revalidateAll

lemma server_take (t : Threads) (conn : Nat) (f : Frame) (beyond : Nat → UInt8) :
    (t.take conn f beyond).server = t.server.step (.frame conn f beyond) := by
  unfold take
  split
  · rfl
  · split <;> rfl

/-- The server changes where the threads make their changes. -/
def effects : Component step Server.step where
  part := server
  call := serverEvent
  part_step t e := by
    cases e with
    | advanceEpoch | revalidateAll => rfl
    | frame conn f beyond =>
        rw [step, serverEvent]
        split
        · exact server_take t conn f beyond
        · rfl
        · rfl
    | readSeq conn | reply conn =>
        rw [step, serverEvent]
        split <;> rfl

/-- The reply to an event on the connection, with the frame that it answers. -/
def ackOn (conn : Nat) (srv : Server) : ServerEvent → Option (Frame × Ack)
  | .frame n f beyond =>
      if n = conn then
        match (srv.handle n f beyond).2.2 with
        | .ack a => some (f, a)
        | .silent _ => none
      else none
  | .advanceEpoch => none
  | .revalidateAll => none

/-- The events of the server in a run, in the order in which they take effect. -/
def order (events : List ThreadEvent) : List ServerEvent := effects.calls {} events

/-- What the server answers on the connection in this order. -/
def answersOn (conn : Nat) (events : List ThreadEvent) : List (Frame × Ack) :=
  entries Server.step (ackOn conn) {} (order events)

/-! ### Stamps -/

/-- The epoch and the sequence number of a reply. -/
def stamps (a : Ack) : ℕ × ℕ := (a.epoch.toNat, a.seq.toNat)

/-- The stamps of a reply that is made now. -/
def now (srv : Server) : ℕ × ℕ := (srv.coordinator.epoch.value.toNat, srv.coordinator.seq.toNat)

/-- In a run of fewer than `2^64` events the stamps count. -/
lemma now_run {events : List ServerEvent} (hlen : events.length < 2 ^ 64) :
    now (run Server.step {} events) =
      (events.countP ServerEvent.isAdvance, events.countP ServerEvent.isEnrolment) := by
  have hle (p : ServerEvent → Bool) : (UInt64.ofNat (events.countP p)).toNat = events.countP p :=
    UInt64.toNat_ofNat_of_lt' (List.countP_le_length.trans_lt hlen)
  rw [now, Server.epoch_of_run, Server.seq_of_run, hle, hle]

/-- So no event takes them back. -/
lemma now_le_append {events : List ServerEvent} {e : Option ServerEvent}
    (hlen : (events ++ e.toList).length < 2 ^ 64) :
    now (run Server.step {} events) ≤ now (run Server.step {} (events ++ e.toList)) := by
  have hshort : events.length < 2 ^ 64 := by
    rw [List.length_append] at hlen
    omega
  rw [now_run hshort, now_run hlen, List.countP_append, List.countP_append]
  exact ⟨Nat.le_add_right _ _, Nat.le_add_right _ _⟩

/-- An answer is stamped with what the server has behind it. -/
lemma stamps_of_ack {srv : Server} {f : Frame} {beyond : Nat → UInt8} {a : Ack}
    (h : (srv.handle conn f beyond).2.2 = .ack a) :
    a = ⟨(srv.step (.frame conn f beyond)).coordinator.epoch.value,
      (srv.step (.frame conn f beyond)).coordinator.seq, a.ok, a.message⟩ := by
  obtain ⟨hepoch, hseq⟩ := Coordinator.stamped_handleFrame a h
  show a = ⟨(srv.handle conn f beyond).1.epoch.value, (srv.handle conn f beyond).1.seq, _, _⟩
  rw [Server.handle, ← hepoch, ← hseq]

/-! ### The replies of one connection -/

/-- The reply that the thread would write if it went on now. -/
def pending (t : Threads) (conn : Nat) : Option (Frame × Ack) :=
  match t.stage conn with
  | .reading => none
  | .changed d =>
      some (d.frame, ⟨t.server.coordinator.epoch.value, t.server.coordinator.seq, d.ok, d.message⟩)
  | .numbered d seq => some (d.frame, ⟨t.server.coordinator.epoch.value, seq, d.ok, d.message⟩)

lemma pending_of_reading (h : t.stage conn = .reading) : t.pending conn = none := by
  rw [pending, h]

lemma pending_of_changed {d : Draft} (h : t.stage conn = .changed d) :
    t.pending conn = some (d.frame,
      ⟨t.server.coordinator.epoch.value, t.server.coordinator.seq, d.ok, d.message⟩) := by
  rw [pending, h]

lemma pending_of_numbered {d : Draft} {seq : UInt64} (h : t.stage conn = .numbered d seq) :
    t.pending conn =
      some (d.frame, ⟨t.server.coordinator.epoch.value, seq, d.ok, d.message⟩) := by
  rw [pending, h]

/-- The second reply is the first one, made later: to the same frame, with the same outcome,
and with stamps that are no older. It is the same where the handler replies under the lock. -/
structure Late (x y : Frame × Ack) : Prop where
  frame : y.1 = x.1
  ok : y.2.ok = x.2.ok
  message : y.2.message = x.2.message
  stamps : stamps x.2 ≤ stamps y.2
  locked : x.1.RepliesLocked → y = x

lemma Late.refl (x : Frame × Ack) : Late x x := ⟨rfl, rfl, rfl, le_rfl, fun _ => rfl⟩

lemma Late.trans {x y z : Frame × Ack} (h : Late x y) (h' : Late y z) : Late x z where
  frame := h'.frame.trans h.frame
  ok := h'.ok.trans h.ok
  message := h'.message.trans h.message
  stamps := h.stamps.trans h'.stamps
  locked hlock := (h'.locked (h.frame ▸ hlock)).trans (h.locked hlock)

/-- The replies of a connection, `replies` with the one that is under way, against the answers
of the server. -/
structure Tracks (answers replies : List (Frame × Ack)) (present : ℕ × ℕ) : Prop where
  late : List.Forall₂ Late answers replies
  past : ∀ y ∈ replies, stamps y.2 ≤ present
  ordered : replies.Pairwise fun y y' => stamps y.2 ≤ stamps y'.2
  next : ∀ (i : ℕ) x y, replies[i]? = some y → answers[i + 1]? = some x →
    stamps y.2 ≤ stamps x.2

namespace Tracks

variable {answers replies : List (Frame × Ack)} {present present' : ℕ × ℕ} {x y y' : Frame × Ack}

lemma mono (h : Tracks answers replies present) (hle : present ≤ present') :
    Tracks answers replies present' :=
  ⟨h.late, fun y hy => (h.past y hy).trans hle, h.ordered, h.next⟩

/-- The server answers once more, and the reply is made at once. -/
lemma append (h : Tracks answers replies present) (hle : present ≤ stamps x.2) :
    Tracks (answers ++ [x]) (replies ++ [x]) (stamps x.2) where
  late := List.rel_append h.late (.cons (Late.refl x) .nil)
  past := by
    intro y hy
    rcases List.mem_append.mp hy with hy | hy
    · exact (h.past y hy).trans hle
    · rw [List.mem_singleton.mp hy]
  ordered := by
    refine List.pairwise_append.mpr ⟨h.ordered, List.pairwise_singleton _ _, fun y hy z hz => ?_⟩
    rw [List.mem_singleton.mp hz]
    exact (h.past y hy).trans hle
  next i x' y hy hx' := by
    have hlen := h.late.length_eq
    have hlt : i + 1 < answers.length + 1 := by
      have := (List.getElem?_eq_some_iff.mp hx').1
      rwa [List.length_append, List.length_singleton] at this
    rw [List.getElem?_append_left (by omega)] at hy
    by_cases hlast : i + 1 < answers.length
    · rw [List.getElem?_append_left hlast] at hx'
      exact h.next i x' y hy hx'
    · obtain rfl : x = x' := by
        rw [List.getElem?_append_right (by omega),
          show i + 1 - answers.length = 0 by omega] at hx'
        exact Option.some.inj hx'
      exact (h.past y (List.mem_of_getElem? hy)).trans hle

/-- The reply that is under way gets later. -/
lemma postpone (h : Tracks answers (replies ++ [y]) present) (hlate : Late y y')
    (hle : stamps y'.2 ≤ present) : Tracks answers (replies ++ [y']) present := by
  have hlen := h.late.length_eq
  rw [List.length_append, List.length_singleton] at hlen
  obtain ⟨hordered, -, hlast⟩ := List.pairwise_append.mp h.ordered
  constructor
  · have hfront := List.forall₂_take_append answers replies [y] h.late
    have hback := List.forall₂_drop_append answers replies [y] h.late
    obtain ⟨x, rest, hxy, hrest, hdrop⟩ := List.forall₂_cons_right_iff.mp hback
    rw [List.forall₂_nil_right_iff.mp hrest] at hdrop
    rw [← List.take_append_drop replies.length answers, hdrop]
    exact List.rel_append hfront (.cons (hxy.trans hlate) .nil)
  · intro z hz
    rcases List.mem_append.mp hz with hz | hz
    · exact h.past z (List.mem_append_left _ hz)
    · rwa [List.mem_singleton.mp hz]
  · refine List.pairwise_append.mpr ⟨hordered, List.pairwise_singleton _ _, fun z hz z' hz' => ?_⟩
    rw [List.mem_singleton.mp hz']
    exact (hlast z hz y List.mem_cons_self).trans hlate.stamps
  · intro i x z hz hx
    have hlt := (List.getElem?_eq_some_iff.mp hx).1
    rw [List.getElem?_append_left (by omega)] at hz
    exact h.next i x z ((List.getElem?_append_left (by omega)).trans hz) hx

end Tracks

/-- The replies of the connection, with the one that is under way. -/
def replies (t : Threads) (conn : Nat) : List (Frame × Ack) :=
  t.written conn ++ (t.pending conn).toList

/-- The replies follow the answers, and the one that is under way is made without the lock. -/
structure Follows (t : Threads) (conn : Nat) (answers : List (Frame × Ack)) : Prop where
  tracks : Tracks answers (t.replies conn) (now t.server)
  unlocked : ∀ y, t.pending conn = some y → ¬ y.1.RepliesLocked

namespace Follows

variable {answers : List (Frame × Ack)} {t' : Threads}

/-- Only the server has changed. -/
lemma moved (h : Follows t conn answers) (hstage : t'.stage conn = t.stage conn)
    (hwritten : t'.written conn = t.written conn) (hle : now t.server ≤ now t'.server) :
    Follows t' conn answers := by
  obtain ⟨htracks, hunlocked⟩ := h
  rw [replies] at htracks
  cases hs : t.stage conn with
  | reading =>
      have hnone' := pending_of_reading (hstage.trans hs)
      rw [pending_of_reading hs] at htracks
      refine ⟨?_, fun y hy => by rw [hnone'] at hy; cases hy⟩
      rw [replies, hnone', hwritten]
      exact htracks.mono hle
  | changed d =>
      have hsome := pending_of_changed hs
      have hsome' := pending_of_changed (hstage.trans hs)
      have hlock := hunlocked _ hsome
      rw [hsome] at htracks
      refine ⟨?_, fun y hy => by rw [← Option.some.inj (hsome'.symm.trans hy)]; exact hlock⟩
      rw [replies, hsome', hwritten]
      exact (htracks.mono hle).postpone ⟨rfl, rfl, rfl, hle, fun hl => absurd hl hlock⟩ le_rfl
  | numbered d seq =>
      have hsome := pending_of_numbered hs
      have hsome' := pending_of_numbered (hstage.trans hs)
      have hlock := hunlocked _ hsome
      rw [hsome] at htracks
      have hseq := htracks.past _ (List.mem_append_right _ List.mem_cons_self)
      refine ⟨?_, fun y hy => by rw [← Option.some.inj (hsome'.symm.trans hy)]; exact hlock⟩
      rw [replies, hsome', hwritten]
      exact (htracks.mono hle).postpone
        ⟨rfl, rfl, rfl, ⟨hle.1, le_rfl⟩, fun hl => absurd hl hlock⟩ ⟨le_rfl, hseq.2.trans hle.2⟩

/-- The thread goes on to the next stage of its reply. -/
lemma goesOn (h : Follows t conn answers) (hserver : t'.server = t.server)
    (hreplies : t'.replies conn = t.replies conn)
    (hpending : ∀ y, t'.pending conn = some y → t.pending conn = some y) :
    Follows t' conn answers :=
  ⟨hserver ▸ hreplies ▸ h.tracks, fun y hy => h.unlocked y (hpending y hy)⟩

/-- The thread of another connection has changed. -/
lemma other {n : Nat} (h : Follows t conn answers) (hn : n ≠ conn) {stage : Nat → Stage}
    {written : Nat → List (Frame × Ack)} {server : Server}
    (hstage : stage = t.stage ∨ ∃ x, stage = Function.update t.stage n x)
    (hwritten : written = t.written ∨ ∃ x, written = Function.update t.written n x)
    (hle : now t.server ≤ now server) : Follows ⟨server, stage, written⟩ conn answers := by
  refine h.moved ?_ ?_ hle
  · rcases hstage with rfl | ⟨x, rfl⟩
    · rfl
    · exact Function.update_of_ne hn.symm _ _
  · rcases hwritten with rfl | ⟨x, rfl⟩
    · rfl
    · exact Function.update_of_ne hn.symm _ _

/-- A thread takes a frame: it has answered once more, if the server answers. -/
lemma take (h : Follows t conn answers) (hreading : t.stage conn = .reading) (f : Frame)
    (beyond : Nat → UInt8) (hle : now t.server ≤ now (t.server.step (.frame conn f beyond))) :
    Follows (t.take conn f beyond) conn
      (answers ++ (ackOn conn t.server (.frame conn f beyond)).toList) := by
  have htracks := h.tracks
  rw [replies, pending_of_reading hreading, Option.toList_none, List.append_nil] at htracks
  rw [ackOn, if_pos rfl, Threads.take]
  cases hanswer : (t.server.handle conn f beyond).2.2 with
  | silent r =>
      dsimp only
      rw [Option.toList_none, List.append_nil]
      exact h.moved rfl rfl hle
  | ack a =>
      have hstamps := stamps_of_ack hanswer
      have hnow : stamps a = now (t.server.step (.frame conn f beyond)) := by
        rw [hstamps]
        rfl
      have hnext := htracks.append (x := (f, a)) (hle.trans_eq hnow.symm)
      rw [hnow] at hnext
      dsimp only
      split
      next hlock =>
        have hnone := @pending_of_reading (t.take conn f beyond) conn
        rw [Threads.take, hanswer] at hnone
        dsimp only at hnone
        rw [if_pos hlock] at hnone
        refine ⟨?_, fun y hy => by rw [hnone hreading] at hy; cases hy⟩
        rw [replies, hnone hreading, Option.toList_none, List.append_nil]
        dsimp only
        rw [Function.update_self]
        exact hnext
      next hlock =>
        have hsome := @pending_of_changed (t.take conn f beyond) conn ⟨f, a.ok, a.message⟩
        rw [Threads.take, hanswer] at hsome
        dsimp only at hsome
        rw [if_neg hlock, ← hstamps] at hsome
        have hpending := hsome (Function.update_self ..)
        refine ⟨?_, fun y hy => by
          rw [← Option.some.inj (hpending.symm.trans hy)]; exact hlock⟩
        rw [replies, hpending]
        exact hnext

end Follows

/-- **One event** and the replies of a connection. -/
lemma Follows.step {answers : List (Frame × Ack)} (h : Follows t conn answers) (e : ThreadEvent)
    (hle : now t.server ≤ now (t.step e).server) : Follows (t.step e) conn
      (answers ++ ((t.serverEvent e).bind (ackOn conn t.server)).toList) := by
  have hnone : answers ++ (none : Option (Frame × Ack)).toList = answers := List.append_nil _
  cases e with
  | advanceEpoch | revalidateAll =>
      rw [show ((t.serverEvent _).bind (ackOn conn t.server)) = none from rfl, hnone]
      exact h.moved rfl rfl hle
  | frame n f beyond =>
      rw [Threads.step] at hle ⊢
      rw [serverEvent]
      cases hs : t.stage n with
      | changed | numbered =>
          dsimp only
          rw [Option.bind_none, hnone]
          exact h
      | reading =>
          rw [hs] at hle
          dsimp only at hle ⊢
          rw [server_take] at hle
          rw [Option.bind_some]
          by_cases hn : n = conn
          · subst hn
            exact h.take hs f beyond hle
          · rw [ackOn, if_neg hn, hnone, Threads.take]
            split
            · exact h.other hn (.inl rfl) (.inl rfl) hle
            · split
              · exact h.other hn (.inl rfl) (.inr ⟨_, rfl⟩) hle
              · exact h.other hn (.inr ⟨_, rfl⟩) (.inl rfl) hle
  | readSeq n =>
      rw [show ((t.serverEvent (.readSeq n)).bind (ackOn conn t.server)) = none from rfl, hnone,
        Threads.step]
      cases hs : t.stage n with
      | reading | numbered => exact h
      | changed d =>
          dsimp only
          by_cases hn : n = conn
          · subst hn
            have hsome := @pending_of_numbered (t.step (.readSeq n)) n d t.server.coordinator.seq
            rw [Threads.step, hs] at hsome
            have hpending := (hsome (Function.update_self ..)).trans (pending_of_changed hs).symm
            refine h.goesOn rfl ?_ fun y hy => hpending.symm.trans hy
            exact congrArg (fun y => t.written n ++ Option.toList y) hpending
          · exact h.other hn (.inr ⟨_, rfl⟩) (.inl rfl) le_rfl
  | reply n =>
      rw [show ((t.serverEvent (.reply n)).bind (ackOn conn t.server)) = none from rfl, hnone,
        Threads.step]
      cases hs : t.stage n with
      | reading | changed => exact h
      | numbered d seq =>
          dsimp only
          by_cases hn : n = conn
          · subst hn
            have hnone := @pending_of_reading (t.step (.reply n)) n
            rw [Threads.step, hs] at hnone
            have hpending := hnone (Function.update_self ..)
            refine h.goesOn rfl ?_ fun y hy => ?_
            · rw [replies, replies, hpending, pending_of_numbered hs]
              dsimp only
              rw [Function.update_self, Option.toList_none, List.append_nil]
              rfl
            · rw [hpending] at hy
              cases hy
          · exact h.other hn (.inr ⟨_, rfl⟩) (.inr ⟨_, rfl⟩) le_rfl

/-! ### Runs -/

/-- The server of the threads is the server after the effects in their order. -/
lemma server_run (events : List ThreadEvent) :
    (run step {} events).server = run Server.step {} (order events) :=
  effects.part_run {} events

/-- The answers of a run with one more event. -/
lemma answersOn_append_singleton (conn : Nat) (past : List ThreadEvent) (e : ThreadEvent) :
    answersOn conn (past ++ [e]) = answersOn conn past ++
      (((run step {} past).serverEvent e).bind (ackOn conn (run step {} past).server)).toList := by
  have hcalls : order (past ++ [e]) = order past ++ ((run step {} past).serverEvent e).toList :=
    effects.calls_append_singleton {} past e
  rw [answersOn, hcalls]
  cases (run step {} past).serverEvent e with
  | none => rw [Option.toList_none, Option.bind_none, Option.toList_none, List.append_nil,
      List.append_nil, answersOn]
  | some k => rw [Option.toList_some, entries_append_singleton, ← server_run, Option.bind_some,
      answersOn]

/-- No event of a run takes the stamps back. -/
lemma now_le_step {past : List ThreadEvent} {e : ThreadEvent}
    (hlen : (past ++ [e]).length < 2 ^ 64) :
    now (run step {} past).server ≤ now ((run step {} past).step e).server := by
  have hcalls : order (past ++ [e]) = order past ++ ((run step {} past).serverEvent e).toList :=
    effects.calls_append_singleton {} past e
  have hshort : (order (past ++ [e])).length ≤ (past ++ [e]).length :=
    effects.length_calls_le {} _
  have hnext := server_run (past ++ [e])
  rw [run_append, run_cons, run_nil] at hnext
  rw [hcalls] at hshort hnext
  rw [hnext, server_run]
  exact now_le_append (hshort.trans_lt hlen)

/-- **In every run** the replies of every connection follow the answers of the server. -/
lemma follows_run {events : List ThreadEvent} (hlen : events.length < 2 ^ 64) (conn : Nat) :
    Follows (run step {} events) conn (answersOn conn events) := by
  refine run_history step (I := fun past t => past.length < 2 ^ 64 →
    Follows t conn (answersOn conn past)) (fun _ => ?_) (fun past e ih hlen => ?_) events hlen
  · exact ⟨⟨.nil, by rintro y ⟨⟩, .nil, by rintro i x y ⟨⟩⟩, by rintro y ⟨⟩⟩
  · have hshort : past.length < 2 ^ 64 := by
      rw [List.length_append] at hlen
      omega
    rw [answersOn_append_singleton]
    exact (ih hshort).step e (now_le_step hlen)

/-- What a run of the threads is to the server: its state is that of the server after the
effects in their order, and on every connection the replies are the answers of the server in
this order, made later, but before the next answer. Only the last one may still be under
way. -/
structure Linearized (events : List ThreadEvent) : Prop where
  state : (run step {} events).server = run Server.step {} (order events)
  reply : ∀ conn (i : ℕ) y, ((run step {} events).written conn)[i]? = some y →
    ∃ x, (answersOn conn events)[i]? = some x ∧ Late x y ∧
      ∀ x', (answersOn conn events)[i + 1]? = some x' → stamps y.2 ≤ stamps x'.2
  ordered : ∀ conn, ((run step {} events).written conn).Pairwise
    fun y y' => stamps y.2 ≤ stamps y'.2
  answered : ∀ conn, (run step {} events).stage conn = .reading →
    ((run step {} events).written conn).length = (answersOn conn events).length
  underway : ∀ conn, (run step {} events).stage conn ≠ .reading →
    ((run step {} events).written conn).length + 1 = (answersOn conn events).length

lemma pending_isSome (h : t.stage conn ≠ .reading) : ∃ y, t.pending conn = some y := by
  cases hs : t.stage conn with
  | reading => exact absurd hs h
  | changed d => exact ⟨_, pending_of_changed hs⟩
  | numbered d seq => exact ⟨_, pending_of_numbered hs⟩

/-- **Threads.** In every run of fewer than `2^64` events, whatever comes between the changes
of the threads and their replies, the coordinator is where the server is that takes the
frames one after the other, and every worker reads the server's answers with stamps that are
perhaps later. -/
theorem linearized (events : List ThreadEvent) (hlen : events.length < 2 ^ 64) :
    Linearized events where
  state := server_run events
  reply conn i y hy := by
    obtain ⟨htracks, -⟩ := follows_run hlen conn
    have hreply : ((run step {} events).replies conn)[i]? = some y := by
      rw [replies, List.getElem?_append_left (List.getElem?_eq_some_iff.mp hy).1, hy]
    obtain ⟨hlength, hlate⟩ := List.forall₂_iff_get.mp htracks.late
    obtain ⟨hi, hget⟩ := List.getElem?_eq_some_iff.mp hreply
    have hanswer := hlate i (hlength ▸ hi) hi
    rw [List.get_eq_getElem, List.get_eq_getElem, hget] at hanswer
    exact ⟨_, List.getElem?_eq_getElem (hlength ▸ hi), hanswer,
      fun x' hx' => htracks.next i x' y hreply hx'⟩
  ordered conn := by
    obtain ⟨htracks, -⟩ := follows_run hlen conn
    exact (List.pairwise_append.mp htracks.ordered).1
  answered conn hreading := by
    obtain ⟨htracks, -⟩ := follows_run hlen conn
    rw [htracks.late.length_eq, replies, pending_of_reading hreading, Option.toList_none,
      List.append_nil]
  underway conn hbusy := by
    obtain ⟨htracks, -⟩ := follows_run hlen conn
    obtain ⟨y, hy⟩ := pending_isSome hbusy
    rw [htracks.late.length_eq, replies, hy, Option.toList_some, List.length_append,
      List.length_singleton]

/-- A worker has registered and its heartbeat is under way: its thread has read `seq_`, and
before it reads `epoch_` a second worker registers and the epoch advances. -/
def tornReply : List ThreadEvent :=
  [.frame 0 (Server.registerFrame 1) fun _ => 0, .frame 0 ⟨.msgHeartbeat, []⟩ fun _ => 0,
    .readSeq 0, .frame 1 (Server.registerFrame 2) fun _ => 0, .advanceEpoch, .reply 0]

/-- The stamps of that reply are those of no moment of the run. -/
theorem linearized_tornReply :
    Linearized tornReply ∧
      ((run step {} tornReply).written 0).map (fun y => stamps y.2) = [(0, 1), (1, 1)] ∧
      ∀ k ≤ tornReply.length, now (run step {} (tornReply.take k)).server ≠ (1, 1) :=
  ⟨linearized tornReply (by decide), by decide +kernel, by decide +kernel⟩

end Threads

end PcieFabric
