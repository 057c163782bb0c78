import PcieFabric.Coordinator.Requests
import PcieFabric.Lib.MapWrites
import PcieFabric.Persist.Stream

/-!
Superseded connections: a connection whose worker has registered again under
another boot, and what its frames still do.

* `storeNodes_eq_iff`, `storePaths_eq_iff`: when a decoded snapshot leaves the
  topology and the paths alone.
* `SameStores`, `Inert`: a frame changes no store; its payload asks nothing of
  the stores that they would take. `sameStores_iff` equates the two.
* `Superseded`: read off the events of a run. Such a connection is still
  registered (`registered_of_superseded`), since the handlers look at the
  connection and never at `workers_`.
* `superseded_harmless_iff`: in which runs superseded connections are harmless.
-/

namespace PcieFabric

open Wire Machine MapWrites

namespace Coordinator

/-! ### Snapshots that change nothing -/

lemma storeNode_eq_iff {t : Topology} {n : Node} : storeNode t n = t ↔ t.contains n.id = true := by
  rw [storeNode]
  by_cases h : t.contains n.id = true
  · rw [if_pos h]
    exact iff_of_true rfl h
  · rw [if_neg h]
    exact iff_of_false (Topology.addEndpoint_ne (Bool.not_eq_true _ ▸ h) _ _ _ _ _) h

/-- At most one node: the topology is kept exactly when the node is known. -/
lemma storeNodes_eq_iff {t : Topology} {ns : List Node} (hlen : ns.length ≤ 1) :
    ns.foldl storeNode t = t ↔ ∀ n ∈ ns, t.contains n.id = true := by
  rcases Nat.le_one_iff_eq_zero_or_eq_one.mp hlen with hnil | hone
  · rw [List.length_eq_zero_iff.mp hnil]
    simp
  · obtain ⟨n, rfl⟩ := List.length_eq_one_iff.mp hone
    simpa using storeNode_eq_iff

/-- The entries that the loop over the paths of a snapshot writes: those of the
paths with the right authority. -/
def storedEntries (epoch : CoordinatorEpoch) (wb : WorkerBootId) (ps : List Path) :
    List (PathId × Path) :=
  (ps.filter fun p => p.authorityMatches epoch wb).map fun p => (p.id, p)

lemma mem_storedEntries_iff {epoch : CoordinatorEpoch} {wb : WorkerBootId} {ps : List Path}
    {id : PathId} {p : Path} : (id, p) ∈ storedEntries epoch wb ps ↔
      p ∈ ps ∧ p.authorityMatches epoch wb = true ∧ p.id = id := by
  simp only [storedEntries, List.mem_map, List.mem_filter, Prod.mk.injEq]
  constructor
  · rintro ⟨p, ⟨hp, hauth⟩, hid, rfl⟩
    exact ⟨hp, hauth, hid⟩
  · rintro ⟨hp, hauth, hid⟩
    exact ⟨p, ⟨hp, hauth⟩, hid, rfl⟩

/-- The loop over the paths of a snapshot writes these entries. -/
lemma storePaths_eq (epoch : CoordinatorEpoch) (wb : WorkerBootId) (ps : List Path)
    (paths : IdMap .pathId Path) :
    ps.foldl (storePath epoch wb) paths = paths.insertMany (storedEntries epoch wb ps) := by
  rw [← foldl_insert, storedEntries, List.foldl_map, List.foldl_filter]
  rfl

/-- A path with the right authority is stored, when no other has its id. -/
lemma getElem?_storePaths {epoch : CoordinatorEpoch} {wb : WorkerBootId} {ps : List Path}
    (hnodup : (ps.map Path.id).Nodup) {p : Path} (hp : p ∈ ps)
    (hauth : p.authorityMatches epoch wb = true) (paths : IdMap .pathId Path) :
    (ps.foldl (storePath epoch wb) paths)[p.id]? = some p := by
  have honly : ∀ q, (p.id, q) ∈ storedEntries epoch wb ps → q = p := by
    intro q hq
    obtain ⟨hq, -, hid⟩ := mem_storedEntries_iff.mp hq
    exact List.inj_on_of_nodup_map hnodup hq hp hid
  rw [storePaths_eq, getElem?_insertMany,
    lastWrite_of_mem (mem_storedEntries_iff.mpr ⟨hp, hauth, rfl⟩) honly, Option.some_or]

/-- Paths with distinct ids: they are kept exactly when those with the right
authority are there already. -/
lemma storePaths_eq_iff {epoch : CoordinatorEpoch} {wb : WorkerBootId} {ps : List Path}
    (hnodup : (ps.map Path.id).Nodup) {paths : IdMap .pathId Path} :
    ps.foldl (storePath epoch wb) paths = paths ↔
      ∀ p ∈ ps, p.authorityMatches epoch wb = true → paths[p.id]? = some p := by
  constructor
  · intro heq p hp hauth
    rw [← heq]
    exact getElem?_storePaths hnodup hp hauth paths
  · intro h
    rw [storePaths_eq]
    refine insertMany_eq_self fun id p hmem => ?_
    obtain ⟨hp, hauth, rfl⟩ := mem_storedEntries_iff.mp hmem
    exact h p hp hauth

/-! ### Frames that change nothing -/

/-- The stores that workers report into are the same. -/
structure SameStores (c c' : Coordinator) : Prop where
  topology : c'.topology = c.topology
  paths : c'.paths = c.paths
  measurements : c'.measurements = c.measurements
  reservations : c'.reservations = c.reservations

lemma SameStores.refl (c : Coordinator) : SameStores c c := ⟨rfl, rfl, rfl, rfl⟩

/-- The payload does not decode, or the stores take nothing of it: the
reservation is not admitted, nothing is releasable, the measurement is not
accepted, the nodes are known and the paths with epoch and boot `wb` are there
already. -/
structure Inert (c : Coordinator) (wb : WorkerBootId) (f : Frame) (beyond : Nat → UInt8) :
    Prop where
  reserve : f.kind = .msgReserve → ∀ r,
    onPayload Persist.decodeReservation f.payload beyond = .ok r → ¬ c.reservations.Admits r
  release : f.kind = .msgRelease → ∀ rel, onPayload readRelease f.payload beyond = .ok rel →
    ∀ r, ¬ c.reservations.Releasable ⟨rel.reservation⟩ ⟨rel.boot⟩ ⟨rel.gen⟩ ⟨rel.epoch⟩ r
  measurement : f.kind = .msgMeasurement → ∀ m,
    onPayload Persist.decodeMeasurement f.payload beyond = .ok m → ¬ c.measurements.Accepts m
  snapshot : f.IsSnapshot → ∀ snap, Persist.deserialize f.payload beyond = .ok snap →
    (∀ n ∈ snap.nodes, c.topology.contains n.id = true) ∧
      ∀ p ∈ snap.paths, p.authorityMatches c.epoch wb = true → c.paths[p.id]? = some p

end Coordinator

/-- The frame asks for a change of the stores. -/
def Wire.Frame.IsUpdate (f : Frame) : Prop :=
  f.IsSnapshot ∨ f.kind = .msgMeasurement ∨ f.kind = .msgReserve ∨ f.kind = .msgRelease

namespace Coordinator

variable {c : Coordinator} {conn : Connection} {f : Frame} {beyond : Nat → UInt8}

/-- A frame of a registered connection that changes nothing is inert. -/
lemma inert_of_sameStores {w : WorkerId} {wb : WorkerBootId} (hconn : conn = ⟨some w, some wb⟩)
    (h : SameStores c (c.handleFrame conn f beyond).1) : c.Inert wb f beyond := by
  subst hconn
  refine ⟨fun hkind r hdec hadm => ?_, fun hkind rel hdec r hrel => ?_,
    fun hkind m hdec hacc => ?_, fun hkind snap hdec => ?_⟩
  · rw [handleFrame_of_reserves ⟨hkind, rfl, hdec, hadm⟩] at h
    exact ReservationRegistry.recordReserve_ne hadm _ h.reservations
  · rw [handleFrame_of_releases ⟨hkind, rfl, hdec, hrel⟩] at h
    exact ReservationRegistry.recordRelease_ne hrel h.reservations
  · rw [handleFrame_of_ingests ⟨hkind, rfl, hdec, hacc⟩] at h
    exact MeasurementStore.insert_ne_of_accepts hacc h.measurements
  · rw [handleFrame_of_stores ⟨hkind, rfl, rfl, hdec⟩] at h
    exact ⟨(storeNodes_eq_iff (Persist.nodes_length_le_one hdec)).mp h.topology,
      (storePaths_eq_iff (Persist.pathIds_nodup hdec)).mp h.paths⟩

/-- An inert update changes nothing. -/
lemma sameStores_of_inert {w : WorkerId} {wb : WorkerBootId} (hconn : conn = ⟨some w, some wb⟩)
    (hkind : f.IsUpdate) (h : c.Inert wb f beyond) :
    SameStores c (c.handleFrame conn f beyond).1 := by
  have hkeep : (∃ a, c.handleFrame conn f beyond = (c, conn, a) ∧ a.isOkAck = false) →
      SameStores c (c.handleFrame conn f beyond).1 := by
    rintro ⟨a, heq, -⟩
    rw [heq]
    exact .refl c
  rcases hkind with hsnap | hmeas | hres | hrel
  · by_cases hst : ∃ wb' snap, Stores conn f beyond wb' snap
    · obtain ⟨wb', snap, hs⟩ := hst
      obtain rfl : wb = wb' := Option.some.inj (by rw [← hs.2.2.1, hconn])
      obtain ⟨hnodes, hpaths⟩ := h.snapshot hsnap snap hs.2.2.2
      rw [handleFrame_of_stores hs]
      exact ⟨(storeNodes_eq_iff (Persist.nodes_length_le_one hs.2.2.2)).mpr hnodes,
        (storePaths_eq_iff (Persist.pathIds_nodup hs.2.2.2)).mpr hpaths, rfl, rfl⟩
    · push Not at hst
      exact hkeep (handleFrame_of_not_stores hsnap hst)
  · exact hkeep (handleFrame_of_not_ingests hmeas
      fun m hm => h.measurement hmeas m hm.2.2.1 hm.2.2.2)
  · exact hkeep (handleFrame_of_not_reserves hres
      fun r hr => h.reserve hres r hr.2.2.1 hr.2.2.2)
  · exact hkeep (handleFrame_of_not_releases hrel
      fun rel r hr => h.release hrel rel hr.2.2.1 r hr.2.2.2)

/-- **One frame**: an update of a registered connection changes no store exactly
when it is inert. -/
lemma sameStores_iff {w : WorkerId} {wb : WorkerBootId} (hconn : conn = ⟨some w, some wb⟩)
    (hkind : f.IsUpdate) :
    SameStores c (c.handleFrame conn f beyond).1 ↔ c.Inert wb f beyond :=
  ⟨inert_of_sameStores hconn, sameStores_of_inert hconn hkind⟩

end Coordinator

/-! ### Superseded connections -/

/-- The event registers the worker `w` with boot `b` on a connection. -/
def ServerEvent.Registers (e : ServerEvent) (conn : Nat) (w : WorkerId) (b : WorkerBootId) :
    Prop :=
  ∃ f beyond reg, e = .frame conn f beyond ∧ f.kind = .msgRegister ∧
    onPayload readRegister f.payload beyond = .ok reg ∧ w = ⟨reg.worker⟩ ∧ b = ⟨reg.boot⟩

namespace Server

/-- The connection has registered a worker that was later registered, on some
connection, with another boot. -/
def Superseded (events : List ServerEvent) (conn : Nat) : Prop :=
  ∃ before first between second after other w b b',
    events = before ++ first :: between ++ second :: after ∧
      first.Registers conn w b ∧ second.Registers other w b' ∧ b' ≠ b

/-- `P` holds, in the state in which it arrives, of every update that arrives on
a superseded connection. -/
def OnSuperseded (P : Server → Nat → Frame → (Nat → UInt8) → Prop) (events : List ServerEvent) :
    Prop :=
  ∀ pre conn f beyond post, events = pre ++ .frame conn f beyond :: post →
    Superseded pre conn → f.IsUpdate → P (run step {} pre) conn f beyond

/-- The frame leaves topology, paths, measurements and reservations unchanged. -/
def Harmless (srv : Server) (conn : Nat) (f : Frame) (beyond : Nat → UInt8) : Prop :=
  srv.coordinator.SameStores (srv.handle conn f beyond).1

/-- The frame is inert for the boot registered on its connection. -/
def Inert (srv : Server) (conn : Nat) (f : Frame) (beyond : Nat → UInt8) : Prop :=
  ∀ wb, (srv.conns conn).workerBoot = some wb → srv.coordinator.Inert wb f beyond

/-- A superseded connection is still registered: nothing revokes it. -/
lemma registered_of_superseded {events : List ServerEvent} {conn : Nat}
    (h : Superseded events conn) : ((run step {} events).conns conn).Registered := by
  obtain ⟨before, first, between, second, after, -, w, b, -, rfl, hfirst, -, -⟩ := h
  obtain ⟨f, beyond, reg, rfl, hkind, hdec, -, -⟩ := hfirst
  rw [List.append_assoc, run_append, List.cons_append, run_cons]
  refine run_invariant step (I := fun srv => (srv.conns conn).Registered)
    (fun srv e hreg => registered_step hreg e) ?_ _
  refine ⟨⟨reg.worker⟩, ⟨reg.boot⟩, ?_⟩
  simp only [step, handle, Function.update_self]
  exact Coordinator.handleFrame_register hkind hdec

/-- **Supersession, exactly.** In a run of the coordinator every update that
arrives on a superseded connection leaves the stores unchanged, if and only if
every such update is inert: being superseded protects nothing by itself. -/
theorem superseded_harmless_iff (events : List ServerEvent) :
    OnSuperseded Harmless events ↔ OnSuperseded Inert events := by
  have hone : ∀ pre conn f beyond, Superseded pre conn → f.IsUpdate →
      (Harmless (run step {} pre) conn f beyond ↔ Inert (run step {} pre) conn f beyond) := by
    intro pre conn f beyond hsup hkind
    obtain ⟨w, wb, hconn⟩ := registered_of_superseded hsup
    rw [Harmless, handle, Coordinator.sameStores_iff hconn hkind, Inert, hconn]
    exact ⟨fun h wb' hwb => Option.some.inj hwb ▸ h, fun h => h wb rfl⟩
  constructor
  · intro h pre conn f beyond post heq hsup hkind
    exact (hone pre conn f beyond hsup hkind).mp (h pre conn f beyond post heq hsup hkind)
  · intro h pre conn f beyond post heq hsup hkind
    exact (hone pre conn f beyond hsup hkind).mpr (h pre conn f beyond post heq hsup hkind)

/-- Worker 1 registers with boot 10, then on another connection with boot 11.
The first connection, which has not registered again, still reserves. -/
theorem superseded_connection_reserves :
    ¬ OnSuperseded Harmless
      [send 0 .msgRegister (writeRegister ⟨1, 10, 1⟩),
        send 1 .msgRegister (writeRegister ⟨1, 11, 1⟩),
        send 0 .msgReserve (Persist.encodeReservation
          { id := ⟨5⟩, path := ⟨1⟩, worker := ⟨1⟩, boot := ⟨10⟩, bytes := ⟨4096⟩ })] := by
  intro h
  have hsup : Superseded [send 0 .msgRegister (writeRegister ⟨1, 10, 1⟩),
      send 1 .msgRegister (writeRegister ⟨1, 11, 1⟩)] 0 :=
    ⟨[], _, [], _, [], 1, ⟨1⟩, ⟨10⟩, ⟨11⟩, rfl,
      ⟨_, _, ⟨1, 10, 1⟩, rfl, rfl, by decide +kernel, rfl, rfl⟩,
      ⟨_, _, ⟨1, 11, 1⟩, rfl, rfl, by decide +kernel, rfl, rfl⟩, by decide⟩
  have hsame := (h _ 0 _ _ [] rfl hsup (.inr (.inr (.inl rfl)))).reservations
  have hcount := congrArg ReservationRegistry.activeCount hsame
  exact absurd hcount (by decide +kernel)

end Server

end PcieFabric
