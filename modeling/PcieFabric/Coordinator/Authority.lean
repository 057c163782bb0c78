import PcieFabric.Coordinator.Supersession

/-!
The stored paths of a run: where they come from and which generations follow
each other.

* `LastRegistered`: read off the events, the worker and boot of the most recent
  registration on a connection; `conns_of_run` says that this is what the
  connection remembers.
* `getElem?_paths_step`: what one event does to a stored path.
* `Delivered`: a path came in a snapshot on a connection last registered with its
  boot, in its epoch. `path_authority` says that every stored path did, and that
  a connection without a registration changes nothing.
* `NoRollback`: stored generations never decrease; `noRollback_iff` says in
  which runs this holds.
-/

namespace PcieFabric

open Wire Machine MapWrites Std

/-- The most recent registration on the connection was of the worker `w` with
boot `b`. -/
def LastRegistered (events : List ServerEvent) (conn : Nat) (w : WorkerId) (b : WorkerBootId) :
    Prop :=
  ∃ before e after, events = before ++ e :: after ∧ e.Registers conn w b ∧
    ∀ e' ∈ after, ∀ w' b', ¬ e'.Registers conn w' b'

/-- No registration was completed on the connection. -/
def NeverRegistered (events : List ServerEvent) (conn : Nat) : Prop :=
  ∀ e ∈ events, ∀ w b, ¬ e.Registers conn w b

namespace Coordinator

variable {c : Coordinator} {conn : Connection} {f : Frame} {beyond : Nat → UInt8}

/-- A frame that is no registration that decodes leaves its connection alone. -/
lemma handleFrame_conn_of_not_register
    (h : ∀ reg, f.kind = .msgRegister → onPayload readRegister f.payload beyond ≠ .ok reg) :
    (c.handleFrame conn f beyond).2.1 = conn := by
  by_cases hkind : f.kind = .msgRegister
  · cases hdec : onPayload readRegister f.payload beyond with
    | error e => rw [handleFrame, if_pos hkind, handleRegister, hdec]
    | ok reg => exact absurd hdec (h reg hkind)
  · rw [handleFrame, if_neg hkind]

/-- **Without a registration** on its connection a frame that is no registration
that decodes changes nothing. -/
theorem handleFrame_unregistered
    (h : ∀ reg, f.kind = .msgRegister → onPayload readRegister f.payload beyond ≠ .ok reg) :
    (c.handleFrame {} f beyond).1 = c := by
  by_cases hkind : f.kind = .msgRegister
  · cases hdec : onPayload readRegister f.payload beyond with
    | error e => rw [handleFrame, if_pos hkind, handleRegister, hdec]
    | ok reg => exact absurd hdec (h reg hkind)
  · rw [handleFrame, if_neg hkind]
    show (c.handleRequest {} f beyond).1 = c
    exact handleRequest_cases (P := fun r => r.1 = c) (fun _ => rfl) (fun _ => rfl) (fun _ => rfl)
      (fun _ => rfl) (fun _ => rfl) (fun _ => rfl) rfl rfl fun _ => rfl

/-- What no call of the store changes, the handler does not change. -/
lemma handleStored_frame {α β γ : Type} {payload : List UInt8} {decode : ReadM α}
    {call : α → Result β × Coordinator} {message : String} (π : Coordinator → γ)
    (h : ∀ a, π (call a).2 = π c) :
    π (c.handleStored conn payload beyond decode call message).1 = π c := by
  rw [handleStored]
  cases conn.workerBoot with
  | none => rfl
  | some wb =>
      cases onPayload decode payload beyond with
      | error e => rfl
      | ok a =>
          have ha := h a
          rcases hcall : call a with ⟨_ | _, c'⟩ <;> rw [hcall] at ha <;>
            simpa only [hcall] using ha

/-- A snapshot touches the topology and the paths. -/
lemma handleSnapshot_frame {γ : Type} (π : Coordinator → γ)
    (h : ∀ t ps, π { c with topology := t, paths := ps } = π c) (payload : List UInt8) :
    π (c.handleSnapshot conn payload beyond).1 = π c := by
  rw [handleSnapshot]
  split
  · split
    · rfl
    · exact h _ _
  · rfl

/-- An update of the worker of the connection touches the table of workers. -/
lemma touchWorker_frame {γ : Type} (π : Coordinator → γ)
    (h : ∀ ws, π { c with workers := ws } = π c) (g : WorkerInfo → WorkerInfo) :
    π (c.touchWorker conn g) = π c := by
  rw [touchWorker]
  cases conn.workerId with
  | none => rfl
  | some wid => exact h _

/-- The frame rule of the frames that leave the connection alone: what neither a
snapshot, nor a store, nor the record of the workers touches, stays. -/
lemma handleRequest_frame {γ : Type} (π : Coordinator → γ)
    (hsnapshot : f.IsSnapshot → π (c.handleSnapshot conn f.payload beyond).1 = π c)
    (hmeasurements : f.kind = .msgMeasurement → ∀ st, π { c with measurements := st } = π c)
    (hreservations : f.kind = .msgReserve ∨ f.kind = .msgRelease →
      ∀ reg, π { c with reservations := reg } = π c)
    (hworkers : f.kind = .msgHeartbeat ∨ f.kind = .msgRevalidate →
      ∀ ws, π { c with workers := ws } = π c) :
    π (c.handleRequest conn f beyond).1 = π c := by
  refine handleRequest_cases (P := fun r => π r.1 = π c) hsnapshot (fun hkind => ?_)
    (fun hkind => ?_) (fun hkind => ?_) (fun hkind => ?_) (fun hkind => ?_) rfl rfl fun _ => rfl
  · exact handleStored_frame π fun _ => hmeasurements hkind _
  · exact handleStored_frame π fun _ => hreservations (.inl hkind) _
  · exact handleStored_frame π fun _ => hreservations (.inr hkind) _
  · exact touchWorker_frame π (hworkers (.inl hkind)) _
  · exact touchWorker_frame π (hworkers (.inr hkind)) _

/-- **The frame rule of `handle_frame`**: what neither a snapshot, nor a store,
nor the record of the workers touches, stays. -/
theorem handleFrame_frame {γ : Type} (π : Coordinator → γ)
    (hsnapshot : f.IsSnapshot → π (c.handleSnapshot conn f.payload beyond).1 = π c)
    (hmeasurements : f.kind = .msgMeasurement → ∀ st, π { c with measurements := st } = π c)
    (hreservations : f.kind = .msgReserve ∨ f.kind = .msgRelease →
      ∀ reg, π { c with reservations := reg } = π c)
    (hworkers : ∀ seq ws, π { c with seq := seq, workers := ws } = π c) :
    π (c.handleFrame conn f beyond).1 = π c := by
  rw [handleFrame]
  split
  · rw [handleRegister]
    split
    · rfl
    · exact hworkers _ _
  · exact handleRequest_frame π hsnapshot hmeasurements hreservations fun _ => hworkers _

/-- A frame without a snapshot changes no path. -/
lemma paths_handleFrame (h : ¬ f.IsSnapshot) :
    (c.handleFrame conn f beyond).1.paths = c.paths :=
  handleFrame_frame paths (fun hsnap => absurd hsnap h) (fun _ _ => rfl) (fun _ _ => rfl)
    fun _ _ => rfl

/-- No frame moves the epoch. -/
lemma epoch_handleFrame : (c.handleFrame conn f beyond).1.epoch = c.epoch := by
  exact handleFrame_frame epoch (fun _ => handleSnapshot_frame _ (fun _ _ => rfl) _)
    (fun _ _ => rfl) (fun _ _ => rfl) fun _ _ => rfl

/-- What the loop over the paths of a snapshot leaves under an id: what was
there, or a path of the snapshot with the right authority. -/
lemma getElem?_storePaths_cases (epoch : CoordinatorEpoch) (wb : WorkerBootId) (ps : List Path)
    (paths : IdMap .pathId Path) (id : PathId) :
    (ps.foldl (storePath epoch wb) paths)[id]? = paths[id]? ∨
      ∃ p ∈ ps, p.authorityMatches epoch wb = true ∧ p.id = id ∧
        (ps.foldl (storePath epoch wb) paths)[id]? = some p := by
  rw [storePaths_eq, getElem?_insertMany]
  cases hlast : lastWrite (storedEntries epoch wb ps) id with
  | none => exact .inl Option.none_or
  | some p =>
      obtain ⟨hp, hauth, hid⟩ := mem_storedEntries_iff.mp (mem_of_lastWrite hlast)
      exact .inr ⟨p, hp, hauth, hid, Option.some_or⟩

/-- What a frame does to the path stored under an id: it stays, or it is
replaced by a path of a snapshot with the epoch of the coordinator and the boot
of the connection. -/
lemma getElem?_paths_handleFrame (c : Coordinator) (conn : Connection) (f : Frame)
    (beyond : Nat → UInt8) (id : PathId) :
    (c.handleFrame conn f beyond).1.paths[id]? = c.paths[id]? ∨
      ∃ wb snap p, Stores conn f beyond wb snap ∧ p ∈ snap.paths ∧
        p.authorityMatches c.epoch wb = true ∧ p.id = id ∧
        (c.handleFrame conn f beyond).1.paths[id]? = some p := by
  by_cases hkind : f.IsSnapshot
  · by_cases hst : ∃ wb snap, Stores conn f beyond wb snap
    · obtain ⟨wb, snap, hs⟩ := hst
      rw [handleFrame_of_stores hs]
      rcases getElem?_storePaths_cases c.epoch wb snap.paths c.paths id with hkeep | ⟨p, hp, hrest⟩
      · exact .inl hkeep
      · exact .inr ⟨wb, snap, p, hs, hp, hrest⟩
    · push Not at hst
      obtain ⟨a, hrun, -⟩ := handleFrame_of_not_stores (c := c) hkind hst
      exact .inl (by rw [hrun])
  · exact .inl (by rw [paths_handleFrame hkind])

/-- Only a snapshot that is stored changes the topology. -/
lemma topology_handleFrame (h : ∀ wb snap, ¬ Stores conn f beyond wb snap) :
    (c.handleFrame conn f beyond).1.topology = c.topology := by
  refine handleFrame_frame topology (fun hsnap => ?_) (fun _ _ => rfl) (fun _ _ => rfl)
    fun _ _ => rfl
  obtain ⟨a, hrun, -⟩ := handleFrame_of_not_stores (c := c) hsnap h
  rw [handleFrame_snapshot hsnap] at hrun
  rw [(Prod.ext_iff.mp hrun).1]

end Coordinator

/-! ### Connections and their registrations -/

namespace Server

/-- A registration is what its connection remembers. -/
lemma conns_step_of_registers {srv : Server} {e : ServerEvent} {conn : Nat} {w : WorkerId}
    {b : WorkerBootId} (h : e.Registers conn w b) :
    (srv.step e).conns conn = ⟨some w, some b⟩ := by
  obtain ⟨f, beyond, reg, rfl, hkind, hdec, rfl, rfl⟩ := h
  simp only [step, handle, Function.update_self]
  exact Coordinator.handleFrame_register hkind hdec

/-- Without a registration on it a connection stays what it is. -/
lemma conns_step_of_not_registers {srv : Server} {e : ServerEvent} {conn : Nat}
    (h : ∀ w b, ¬ e.Registers conn w b) : (srv.step e).conns conn = srv.conns conn := by
  cases e with
  | advanceEpoch | revalidateAll => rfl
  | frame other f beyond =>
      by_cases hc : conn = other
      · subst hc
        simp only [step, handle, Function.update_self]
        exact Coordinator.handleFrame_conn_of_not_register fun reg hkind hdec =>
          h _ _ ⟨f, beyond, reg, rfl, hkind, hdec, rfl, rfl⟩
      · exact Function.update_of_ne hc _ _

/-- **A connection remembers its last registration**, and nothing before the
first one. -/
theorem conns_of_run (events : List ServerEvent) (conn : Nat) :
    ((run step {} events).conns conn = {} ∧ NeverRegistered events conn) ∨
      ∃ w b, (run step {} events).conns conn = ⟨some w, some b⟩ ∧
        LastRegistered events conn w b := by
  refine run_history step (I := fun past srv => (srv.conns conn = {} ∧ NeverRegistered past conn) ∨
    ∃ w b, srv.conns conn = ⟨some w, some b⟩ ∧ LastRegistered past conn w b)
    (.inl ⟨rfl, by simp [NeverRegistered]⟩) (fun past e ih => ?_) events
  by_cases hreg : ∃ w b, e.Registers conn w b
  · obtain ⟨w, b, hreg⟩ := hreg
    exact .inr ⟨w, b, conns_step_of_registers hreg, past, e, [], rfl, hreg, by simp⟩
  · push Not at hreg
    rw [conns_step_of_not_registers hreg]
    rcases ih with ⟨hconn, hnever⟩ | ⟨w, b, hconn, before, e₀, after, rfl, he₀, hafter⟩
    · refine .inl ⟨hconn, fun e' he' => ?_⟩
      rcases List.mem_append.mp he' with hpast | hlast
      · exact hnever e' hpast
      · rw [List.mem_singleton.mp hlast]
        exact hreg
    · refine .inr ⟨w, b, hconn, before, e₀, after ++ [e], by simp, he₀, fun e' he' => ?_⟩
      rcases List.mem_append.mp he' with hpast | hlast
      · exact hafter e' hpast
      · rw [List.mem_singleton.mp hlast]
        exact hreg

/-- The connection of a run without a registration on it. -/
lemma conns_of_neverRegistered {events : List ServerEvent} {conn : Nat}
    (h : NeverRegistered events conn) : (run step {} events).conns conn = {} := by
  rcases conns_of_run events conn with ⟨hconn, -⟩ | ⟨w, b, -, before, e, after, rfl, he, -⟩
  · exact hconn
  · exact absurd he (h e (by simp) w b)

/-- The connection of a boot was last registered with it. -/
lemma lastRegistered_of_workerBoot {events : List ServerEvent} {conn : Nat} {b : WorkerBootId}
    (h : ((run step {} events).conns conn).workerBoot = some b) :
    ∃ w, LastRegistered events conn w b := by
  rcases conns_of_run events conn with ⟨hconn, -⟩ | ⟨w, b', hconn, hlast⟩
  · rw [hconn] at h
    cases h
  · rw [hconn] at h
    exact ⟨w, Option.some.inj h ▸ hlast⟩

end Server

/-! ### Stored paths -/

/-- The two paths differ at most in their freshness. -/
def Path.SameButFreshness (p q : Path) : Prop := p = { q with freshness := p.freshness }

lemma Path.sameButFreshness_refl (p : Path) : p.SameButFreshness p := rfl

lemma Path.sameButFreshness_revalidate (q : Path) : q.revalidate.SameButFreshness q := by
  rw [SameButFreshness, revalidate]
  split <;> rfl

lemma Path.SameButFreshness.trans {p q r : Path} (hpq : p.SameButFreshness q)
    (hqr : q.SameButFreshness r) : p.SameButFreshness r := by
  rw [SameButFreshness] at *
  rw [hpq, hqr]

namespace Server

variable {srv : Server} {e : ServerEvent} {id : PathId} {p : Path}

/-- The event delivers the path: it is in a snapshot that decodes, on a
registered connection, with the boot of that connection and the current epoch. -/
def Delivers (srv : Server) (e : ServerEvent) (p : Path) : Prop :=
  ∃ conn f beyond wb snap, e = .frame conn f beyond ∧
    Coordinator.Stores (srv.conns conn) f beyond wb snap ∧ p ∈ snap.paths ∧
    p.authorityMatches srv.coordinator.epoch wb = true

/-- **One event** and the path stored under an id: it stays, but for its
freshness, or it is replaced by a path that the event delivers. -/
theorem getElem?_paths_step (srv : Server) (e : ServerEvent) (id : PathId) :
    (srv.coordinator.paths[id]? = none ∧ (srv.step e).coordinator.paths[id]? = none) ∨
      (∃ q p, srv.coordinator.paths[id]? = some q ∧
        (srv.step e).coordinator.paths[id]? = some p ∧ p.SameButFreshness q) ∨
      ∃ p, (srv.step e).coordinator.paths[id]? = some p ∧ p.id = id ∧ srv.Delivers e p := by
  cases e with
  | advanceEpoch =>
      cases hq : srv.coordinator.paths[id]? with
      | none => exact .inl ⟨rfl, hq⟩
      | some q => exact .inr (.inl ⟨q, q, rfl, hq, q.sameButFreshness_refl⟩)
  | revalidateAll =>
      have hmap : (srv.step .revalidateAll).coordinator.paths[id]? =
          srv.coordinator.paths[id]?.map Path.revalidate := ExtTreeMap.getElem?_map
      cases hq : srv.coordinator.paths[id]? with
      | none => exact .inl ⟨rfl, by rw [hmap, hq]; rfl⟩
      | some q =>
          exact .inr (.inl ⟨q, _, rfl, by rw [hmap, hq]; rfl, q.sameButFreshness_revalidate⟩)
  | frame conn f beyond =>
      rcases srv.coordinator.getElem?_paths_handleFrame (srv.conns conn) f beyond id with
        hkeep | ⟨wb, snap, p, hst, hp, hauth, hid, hget⟩
      · cases hq : srv.coordinator.paths[id]? with
        | none => exact .inl ⟨rfl, hkeep.trans hq⟩
        | some q => exact .inr (.inl ⟨q, q, rfl, hkeep.trans hq, q.sameButFreshness_refl⟩)
      · exact .inr (.inr ⟨p, hget, hid, conn, f, beyond, wb, snap, rfl, hst, hp, hauth⟩)

/-! ### The epoch of a run -/

end Server

/-- The event is a call of `advance_epoch`. -/
def ServerEvent.isAdvance : ServerEvent → Bool
  | .advanceEpoch => true
  | _ => false

namespace Server

/-- The epoch counts the calls of `advance_epoch`, modulo `2^64`. -/
lemma epoch_of_run (events : List ServerEvent) :
    (run step {} events).coordinator.epoch.value =
      UInt64.ofNat (events.countP ServerEvent.isAdvance) := by
  refine run_history step (I := fun past srv =>
    srv.coordinator.epoch.value = UInt64.ofNat (past.countP ServerEvent.isAdvance)) rfl
    (fun past e ih => ?_) events
  rw [List.countP_append]
  cases e with
  | advanceEpoch =>
      rw [UInt64.ofNat_add, ← ih]
      rfl
  | revalidateAll => exact ih
  | frame conn f beyond =>
      refine Eq.trans (congrArg StrongId.value ?_) ih
      exact Coordinator.epoch_handleFrame

/-- Fewer than `2^64` calls never bring the epoch back. -/
lemma epoch_le_of_run {pre post : List ServerEvent}
    (h : (pre ++ post).countP ServerEvent.isAdvance < 2 ^ 64) :
    (run step {} pre).coordinator.epoch.value ≤
      (run step {} (pre ++ post)).coordinator.epoch.value := by
  rw [List.countP_append] at h
  rw [epoch_of_run, epoch_of_run, List.countP_append, UInt64.le_iff_toNat_le,
    UInt64.toNat_ofNat_of_lt' (by rw [UInt64.size]; omega),
    UInt64.toNat_ofNat_of_lt' (by rw [UInt64.size]; omega)]
  exact Nat.le_add_right _ _

/-! ### Where a stored path comes from -/

/-- An event of the run delivered the path: a snapshot frame on a connection
whose most recent registration was with the boot of the path, while the epoch was
that of the path. Only the freshness may have changed since. -/
def Delivered (events : List ServerEvent) (p : Path) : Prop :=
  ∃ pre conn f beyond post snap q w, events = pre ++ .frame conn f beyond :: post ∧
    f.IsSnapshot ∧ Persist.deserialize f.payload beyond = .ok snap ∧ q ∈ snap.paths ∧
    p.SameButFreshness q ∧ LastRegistered pre conn w p.boot ∧
    (run step {} pre).coordinator.epoch = p.epoch

lemma Delivered.append {events : List ServerEvent} {p : Path} (h : Delivered events p)
    (e : ServerEvent) : Delivered (events ++ [e]) p := by
  obtain ⟨pre, conn, f, beyond, post, snap, q, w, rfl, hrest⟩ := h
  exact ⟨pre, conn, f, beyond, post ++ [e], snap, q, w, by simp, hrest⟩

lemma Delivered.congr {events : List ServerEvent} {p q : Path} (h : Delivered events q)
    (hpq : p.SameButFreshness q) : Delivered events p := by
  obtain ⟨pre, conn, f, beyond, post, snap, r, w, hsplit, hkind, hdec, hr, hqr, hreg, hepoch⟩ := h
  have hboot : p.boot = q.boot := by rw [hpq]
  have hep : p.epoch = q.epoch := by rw [hpq]
  exact ⟨pre, conn, f, beyond, post, snap, r, w, hsplit, hkind, hdec, hr, hpq.trans hqr,
    hboot ▸ hreg, hepoch.trans hep.symm⟩

/-- Every stored path was delivered. -/
lemma delivered_of_stored (events : List ServerEvent) :
    ∀ (id : PathId) p, (run step {} events).coordinator.paths[id]? = some p →
      Delivered events p := by
  refine run_history step (I := fun past srv =>
    ∀ (id : PathId) p, srv.coordinator.paths[id]? = some p → Delivered past p) ?_
    (fun past e ih id p hget => ?_) events
  · intro id p hget
    have hnone : ({} : Server).coordinator.paths[id]? = none := ExtTreeMap.getElem?_empty
    rw [hnone] at hget
    cases hget
  · rcases getElem?_paths_step (run step {} past) e id with
      ⟨-, hnone⟩ | ⟨q, p', hq, hp', hsame⟩ | ⟨p', hp', -, hdel⟩
    · rw [hnone] at hget
      cases hget
    · obtain rfl : p' = p := Option.some.inj (hp'.symm.trans hget)
      exact ((ih id q hq).congr hsame).append e
    · obtain rfl : p' = p := Option.some.inj (hp'.symm.trans hget)
      obtain ⟨conn, f, beyond, wb, snap, rfl, ⟨hkind, -, hwb, hdec⟩, hmem, hauth⟩ := hdel
      obtain ⟨hepoch, rfl⟩ := Path.authorityMatches_iff.mp hauth
      obtain ⟨w, hlast⟩ := lastRegistered_of_workerBoot hwb
      exact ⟨past, conn, f, beyond, [], snap, p', w, rfl, hkind, hdec, hmem,
        p'.sameButFreshness_refl, hlast, hepoch.symm⟩

/-- What the coordinator promises of its paths in a run: each was delivered
under its boot and in its epoch, which is no later than the current one, and a
frame on a connection without a registration changes nothing. -/
structure PathAuthority (events : List ServerEvent) : Prop where
  delivered : ∀ (id : PathId) p, (run step {} events).coordinator.paths[id]? = some p →
    Delivered events p ∧ p.epoch.value ≤ (run step {} events).coordinator.epoch.value
  unregistered : ∀ pre conn f beyond post, events = pre ++ .frame conn f beyond :: post →
    NeverRegistered (pre ++ [.frame conn f beyond]) conn →
    ((run step {} pre).step (.frame conn f beyond)).coordinator = (run step {} pre).coordinator

/-- **Path authority** holds in every run in which the epoch does not wrap. -/
theorem path_authority (events : List ServerEvent)
    (hadvance : events.countP ServerEvent.isAdvance < 2 ^ 64) : PathAuthority events where
  delivered id p hget := by
    have hdel := delivered_of_stored events id p hget
    refine ⟨hdel, ?_⟩
    obtain ⟨pre, conn, f, beyond, post, snap, q, w, rfl, -, -, -, -, -, hepoch⟩ := hdel
    rw [← hepoch]
    exact epoch_le_of_run hadvance
  unregistered pre conn f beyond post _ hnever := by
    have hconn : (run step {} pre).conns conn = {} :=
      conns_of_neverRegistered fun e he => hnever e (List.mem_append_left _ he)
    show (handle (run step {} pre) conn f beyond).1 = _
    rw [handle, hconn]
    refine Coordinator.handleFrame_unregistered fun reg hkind hdec => ?_
    exact hnever _ (by simp) _ _ ⟨f, beyond, reg, rfl, hkind, hdec, rfl, rfl⟩

/-- A snapshot of these paths on a connection. -/
def sendPaths (conn : Nat) (paths : List Path) : ServerEvent :=
  send conn .msgPathSnapshot ((Persist.serialize { paths }).toOption.getD [])

/-- Worker 1 registers with boot 10, sends a path of that boot in epoch 0, and
the epoch moves on: the path is still there. -/
theorem path_authority_delivered :
    let events := [send 0 .msgRegister (writeRegister ⟨1, 10, 1⟩),
      sendPaths 0 [{ id := ⟨3⟩, boot := ⟨10⟩ }], .advanceEpoch]
    PathAuthority events ∧ (run step {} events).coordinator.paths.size = 1 := by
  exact ⟨path_authority _ (by decide), by decide +kernel⟩

/-! ### Path generations -/

/-- The generations stored under an id never decrease between two moments of the
run, and a snapshot with an older generation of a stored path does not replace
it. -/
structure NoRollback (events : List ServerEvent) : Prop where
  monotone : ∀ pre mid post, events = pre ++ mid ++ post → ∀ (id : PathId) p,
    (run step {} pre).coordinator.paths[id]? = some p →
    ∃ p', (run step {} (pre ++ mid)).coordinator.paths[id]? = some p' ∧
      p.generation.value ≤ p'.generation.value
  kept : ∀ pre conn f beyond post, events = pre ++ .frame conn f beyond :: post →
    f.IsSnapshot → ∀ snap, Persist.deserialize f.payload beyond = .ok snap →
    ∀ q ∈ snap.paths, ∀ p, (run step {} pre).coordinator.paths[q.id]? = some p →
    q.generation.value < p.generation.value →
    (run step {} (pre ++ [.frame conn f beyond])).coordinator.paths[q.id]? = some p

/-- Every path that the event delivers has at least the generation stored under
its id. -/
def GenerationsFollow (srv : Server) (e : ServerEvent) : Prop :=
  ∀ q, srv.Delivers e q → ∀ p, srv.coordinator.paths[q.id]? = some p →
    p.generation.value ≤ q.generation.value

/-- One event lowers no stored generation. -/
def GenerationsKept (srv : Server) (e : ServerEvent) : Prop :=
  ∀ (id : PathId) p, srv.coordinator.paths[id]? = some p →
    ∃ p', (srv.step e).coordinator.paths[id]? = some p' ∧
      p.generation.value ≤ p'.generation.value

/-- A delivered path is the one stored under its id afterwards. -/
lemma getElem?_of_delivers {srv : Server} {e : ServerEvent} {q : Path} (h : srv.Delivers e q) :
    (srv.step e).coordinator.paths[q.id]? = some q := by
  obtain ⟨conn, f, beyond, wb, snap, rfl, hst, hq, hauth⟩ := h
  show (handle srv conn f beyond).1.paths[q.id]? = some q
  rw [handle, Coordinator.handleFrame_of_stores hst]
  exact Coordinator.getElem?_storePaths (Persist.pathIds_nodup hst.2.2.2) hq hauth _

/-- **One event** lowers no stored generation exactly when every path that it
delivers has at least the generation stored under its id. -/
lemma generationsKept_iff (srv : Server) (e : ServerEvent) :
    srv.GenerationsKept e ↔ srv.GenerationsFollow e := by
  constructor
  · intro h q hdel p hp
    obtain ⟨p', hp', hle⟩ := h q.id p hp
    obtain rfl : q = p' := Option.some.inj ((getElem?_of_delivers hdel).symm.trans hp')
    exact hle
  · intro h id p hp
    rcases getElem?_paths_step srv e id with ⟨hnone, -⟩ | ⟨q, p', hq, hp', hsame⟩ |
      ⟨p', hp', rfl, hdel⟩
    · rw [hnone] at hp
      cases hp
    · obtain rfl : q = p := Option.some.inj (hq.symm.trans hp)
      have hgen : p'.generation = q.generation := by rw [hsame]
      exact ⟨p', hp', hgen ▸ UInt64.le_refl _⟩
    · exact ⟨p', hp', h p' hdel p hp⟩

/-- Over a run of events that lower no generation, none is lowered. -/
lemma generationsKept_run {srv : Server} {events : List ServerEvent}
    (h : AllSteps step GenerationsKept srv events) {id : PathId} {p : Path}
    (hp : srv.coordinator.paths[id]? = some p) :
    ∃ p', (run step srv events).coordinator.paths[id]? = some p' ∧
      p.generation.value ≤ p'.generation.value := by
  induction events generalizing srv p with
  | nil => exact ⟨p, hp, UInt64.le_refl _⟩
  | cons e events ih =>
      obtain ⟨hstep, hrest⟩ := h
      obtain ⟨q, hq, hle⟩ := hstep id p hp
      obtain ⟨p', hp', hle'⟩ := ih hrest hq
      exact ⟨p', hp', UInt64.le_trans hle hle'⟩

/-- A path of a snapshot that is not delivered leaves the stored one alone. -/
lemma getElem?_of_not_delivers {srv : Server} {conn : Nat} {f : Frame} {beyond : Nat → UInt8}
    {snap : Snapshot} {q : Path} (hdec : Persist.deserialize f.payload beyond = .ok snap)
    (hq : q ∈ snap.paths) (hnot : ¬ srv.Delivers (.frame conn f beyond) q) :
    (srv.step (.frame conn f beyond)).coordinator.paths[q.id]? =
      srv.coordinator.paths[q.id]? := by
  rcases srv.coordinator.getElem?_paths_handleFrame (srv.conns conn) f beyond q.id with
    hkeep | ⟨wb, snap', p, hst, hp, hauth, hid, -⟩
  · exact hkeep
  · -- no other path of the snapshot has this id
    obtain rfl : snap = snap' := Except.ok.inj (hdec.symm.trans hst.2.2.2)
    have hinj := List.inj_on_of_nodup_map (Persist.pathIds_nodup hdec) hp hq hid
    exact absurd ⟨conn, f, beyond, wb, snap, rfl, hst, hq, hinj ▸ hauth⟩ hnot

/-- **Path generations, exactly.** In a run of the coordinator no stored
generation is ever rolled back, if and only if every path with current authority
that a registered connection delivers has at least the generation stored under
its id at that moment. -/
theorem noRollback_iff (events : List ServerEvent) :
    NoRollback events ↔ AllSteps step GenerationsFollow {} events := by
  rw [← allSteps_congr step (I := fun _ => True) (P := GenerationsKept)
    (fun srv e _ => generationsKept_iff srv e) (fun _ _ _ _ => trivial) trivial]
  constructor
  · intro h
    refine (allSteps_iff step).mpr fun pre e post heq id p hp => ?_
    have hmono := h.monotone pre [e] post (by simp [heq]) id p hp
    rwa [run_append] at hmono
  · intro h
    refine ⟨fun pre mid post heq id p hp => ?_,
      fun pre conn f beyond post heq hkind snap hdec q hq p hp hlt => ?_⟩
    · rw [heq, List.append_assoc, allSteps_append, allSteps_append] at h
      rw [run_append]
      exact generationsKept_run h.2.1 hp
    · have hkept := (allSteps_iff step).mp h pre (.frame conn f beyond) post heq
      have hnot : ¬ (run step {} pre).Delivers (.frame conn f beyond) q := fun hdel =>
        absurd ((generationsKept_iff _ _).mp hkept q hdel p hp) (UInt64.not_le.mpr hlt)
      rw [run_append]
      exact (getElem?_of_not_delivers hdec hq hnot).trans hp

/-- The snapshot of one path of worker 1, as generation `g`. -/
def sendGeneration (g : UInt64) : ServerEvent :=
  sendPaths 0 [{ id := ⟨3⟩, generation := ⟨g⟩, boot := ⟨10⟩ }]

/-- Worker 1 sends generation 5 of a path and then generation 2, which replaces
it. -/
theorem rollback_by_replay :
    ¬ NoRollback [send 0 .msgRegister (writeRegister ⟨1, 10, 1⟩), sendGeneration 5,
      sendGeneration 2] := by
  intro h
  have hmono := h.monotone [send 0 .msgRegister (writeRegister ⟨1, 10, 1⟩), sendGeneration 5]
    [sendGeneration 2] [] rfl ⟨3⟩
  simp only [List.cons_append, List.nil_append] at hmono
  have hfive : ((run step {} [send 0 .msgRegister (writeRegister ⟨1, 10, 1⟩),
      sendGeneration 5]).coordinator.paths[(⟨3⟩ : PathId)]?).map Path.generation = some ⟨5⟩ := by
    decide +kernel
  have htwo : ((run step {} [send 0 .msgRegister (writeRegister ⟨1, 10, 1⟩), sendGeneration 5,
      sendGeneration 2]).coordinator.paths[(⟨3⟩ : PathId)]?).map Path.generation = some ⟨2⟩ := by
    decide +kernel
  obtain ⟨p, hp, hgen⟩ := Option.map_eq_some_iff.mp hfive
  obtain ⟨p', hp', hle⟩ := hmono p hp
  rw [hp', Option.map_some] at htwo
  rw [hgen, Option.some.inj htwo] at hle
  exact absurd hle (by decide)

end Server

end PcieFabric
