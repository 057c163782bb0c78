import PcieFabric.Coordinator.HandleConnection
import PcieFabric.Wire.NoData

/-!
When the handler of a dead connection ends (`Coordinator::handle_connection`).

* `rounds`: the rounds of a loop that nobody stops; `Leaves`: it makes finitely many
  calls of `read_frame`.
* `leaves_iff_not_goesOn`: it does when some round ends it.
* `leaves_dead_iff`: on a connection that fails for good, the loop is left exactly if a
  receive call reports zero bytes before, or the handler of a frame loses the peer.
-/

namespace PcieFabric.Coordinator

open Wire TcpSocket

/-- The first rounds of a loop that is never stopped. `handled` is what `handle_frame`
returns in each round, where it is called. -/
def rounds (handled : Nat → Result Unit) (n : Nat) : List Round :=
  (List.range n).map fun k => ⟨false, handled k⟩

/-- The loop is left: it makes no more than a certain number of calls of `read_frame`,
however many rounds it is given. -/
def Leaves (handled : Nat → Result Unit) (s : TcpSocket) : Prop :=
  ∃ N, ∀ n, (handleConnection (rounds handled n) s).length ≤ N

/-- The handler returns a lost peer. -/
def LosesPeer (handled : Result Unit) : Prop := ∃ e, handled = .error e ∧ e.code = .peerLost

lemma rounds_succ (handled : Nat → Result Unit) (n : Nat) :
    rounds handled (n + 1) = ⟨false, handled 0⟩ :: rounds (fun k => handled (k + 1)) n := by
  rw [rounds, List.range_succ_eq_map, List.map_cons, List.map_map]
  rfl

/-- A round does not end the loop unless it reads a lost peer, or reads a frame whose
handler loses the peer. -/
lemma goesOn_eq_false_iff (read : Result Frame) (handled : Result Unit) :
    goesOn read handled = false ↔
      (∃ e, read = .error e ∧ e.code = .peerLost) ∨ read.isOk ∧ LosesPeer handled := by
  cases read with
  | error e => simp [goesOn, LosesPeer]
  | ok f =>
      cases handled with
      | error e => simp [goesOn, LosesPeer]
      | ok u => simp [goesOn, LosesPeer]

/-- As long as every round goes on, each makes a call. -/
lemma length_of_goesOn {handled : Nat → Result Unit} {s : TcpSocket}
    (h : ∀ k, goesOn (readFrame (after k s)).1 (handled k) = true) (n : Nat) :
    (handleConnection (rounds handled n) s).length = n := by
  induction n generalizing handled s with
  | zero => rfl
  | succ n ih =>
      have hfirst : goesOn (readFrame s).1 (handled 0) = true := h 0
      have hrest := @ih (fun k => handled (k + 1)) (readFrame s).2 fun k => h (k + 1)
      rw [rounds_succ, handleConnection_cons, if_pos hfirst, List.length_cons, hrest]

/-- No round is made after one that ends the loop. -/
lemma length_le_of_not_goesOn {handled : Nat → Result Unit} {s : TcpSocket} {k : Nat}
    (h : goesOn (readFrame (after k s)).1 (handled k) = false) (n : Nat) :
    (handleConnection (rounds handled n) s).length ≤ k + 1 := by
  induction k generalizing handled s n with
  | zero =>
      cases n with
      | zero => exact Nat.zero_le _
      | succ n =>
          have hread : goesOn (readFrame s).1 (handled 0) = false := h
          rw [rounds_succ, handleConnection_cons, hread, if_neg Bool.false_ne_true]
          exact le_rfl
  | succ k ih =>
      cases n with
      | zero => exact Nat.zero_le _
      | succ n =>
          rw [rounds_succ, handleConnection_cons, List.length_cons]
          split
          · exact Nat.succ_le_succ (@ih (fun k => handled (k + 1)) (readFrame s).2 h n)
          · exact Nat.succ_le_succ (Nat.zero_le _)

/-- **The loop is left** when some round ends it. -/
theorem leaves_iff_not_goesOn (handled : Nat → Result Unit) (s : TcpSocket) :
    Leaves handled s ↔ ∃ k, goesOn (readFrame (after k s)).1 (handled k) = false := by
  constructor
  · rintro ⟨N, hN⟩
    by_contra hnone
    push Not at hnone
    have hgoes (k : Nat) : goesOn (readFrame (after k s)).1 (handled k) = true := by
      simpa using hnone k
    have hmore := hN (N + 1)
    rw [length_of_goesOn hgoes] at hmore
    omega
  · rintro ⟨k, hk⟩
    exact ⟨k + 1, length_le_of_not_goesOn hk⟩

/-! ### Dead connections -/

/-- These outcomes, and then a socket error at every further receive call. -/
def dead (pending : List RecvOutcome) : TcpSocket := { pending, ending := .failed }

/-- A receive call leaves a dead connection dead, and brings up no outcome without
data. -/
lemma dead_recvSome {pending : List RecvOutcome} (n : Nat) (s : TcpSocket)
    (h : s.ending = .failed ∧ s.zeros ⊆ (dead pending).zeros) :
    (s.recvSome n).2.ending = .failed ∧ (s.recvSome n).2.zeros ⊆ (dead pending).zeros :=
  ⟨(ending_recvSome n s).trans h.1, List.Subset.trans (zeros_recvSome_subset n s) h.2⟩

/-- A dead connection on which `read_frame` reports a lost peer has an outcome without
data. -/
lemma exists_zero_of_peerLost {pending : List RecvOutcome} {k : Nat} {e : Error}
    (herr : (readFrame (after k (dead pending))).1 = .error e) (hcode : e.code = .peerLost) :
    ∃ o ∈ pending, o.isZero := by
  obtain ⟨c, hstop, hzero⟩ := (readFrame_peerLost_iff _).mp ⟨e, herr, hcode⟩
  have hafter := after_invariant dead_recvSome k ⟨rfl, List.Subset.refl (dead pending).zeros⟩
  obtain ⟨hend, hsubset⟩ := readFrameStop_invariant dead_recvSome hafter hstop
  obtain ⟨o, ho⟩ := exists_zero hend hzero
  exact ⟨o, List.mem_filter.mp (hsubset ho)⟩

/-- **The handler of a dead connection ends, exactly** if a receive call reports zero
bytes before the connection fails for good, or the handler of a frame that is read loses
the peer. -/
theorem leaves_dead_iff (pending : List RecvOutcome) (handled : Nat → Result Unit) :
    Leaves handled (dead pending) ↔ (∃ o ∈ pending, o.isZero) ∨
      ∃ k, (readFrame (after k (dead pending))).1.isOk ∧ LosesPeer (handled k) := by
  simp only [leaves_iff_not_goesOn, goesOn_eq_false_iff]
  constructor
  · rintro ⟨k, ⟨e, herr, hcode⟩ | hhandled⟩
    · exact .inl (exists_zero_of_peerLost herr hcode)
    · exact .inr ⟨k, hhandled⟩
  · rintro (⟨o, ho, hzero⟩ | ⟨k, hhandled⟩)
    · obtain ⟨k, c, hstop, hhead⟩ := exists_stop_at (s := dead pending) ho hzero
      have hatZero := atEnd_or_atIdle_of_head hhead hzero
      exact ⟨k, .inl ((readFrame_peerLost_iff _).mpr ⟨c, hstop, hatZero⟩)⟩
    · exact ⟨k, .inr hhandled⟩

/-- The handler of a connection that is reset before anything arrives never ends. -/
theorem reset_connection_spins : ¬ ∀ pending handled, Leaves handled (dead pending) := by
  intro h
  obtain ⟨N, hN⟩ := h [] fun _ => .ok ()
  have hread : ∀ k, (readFrame (after k (dead []))).1 = .err .networkError "recv failed" := by
    intro k
    have hone : readFrame (dead []) = (.err .networkError "recv failed", dead []) := by
      rw [readFrame, ChunkedStream.fill]
      rfl
    induction k with
    | zero => exact congrArg Prod.fst hone
    | succ k ih => rwa [after_succ, hone]
  have hmore := hN (N + 1)
  rw [length_of_goesOn fun k => by rw [hread k]; rfl] at hmore
  omega

end PcieFabric.Coordinator
