import PcieFabric.Coordinator.Stores
import PcieFabric.Persist.History
import PcieFabric.Persist.Settled
import PcieFabric.Topology.Queries
import PcieFabric.Worker.Snapshots

/-!
Saving a coordinator (`Coordinator::snapshot`, `set_persist_path`, `persist_now`).

* `snapshot`, `persistNow`: the snapshot of the stores, and its save to the path that was
  set.
* `Coordinator.Settled`: the stores hold only records that come back as they are written;
  `settled_of_run`: so they do in every run.
* `saved_server`: what a file holds at any moment of a run in which the coordinator is saved to
  it again and again, and when it loads again as the coordinator.
-/

namespace PcieFabric

open Wire Machine Std Persist

namespace Coordinator

/-- `Coordinator::snapshot`. The reservations and the policies stay empty. -/
def snapshot (c : Coordinator) : Snapshot :=
  let s : Snapshot :=
    { epoch := c.epoch
      sequence := c.seq
      nodes := c.topology.allNodes.filterMap fun id => c.topology.nodes[id]?
      paths := c.paths.toList.map Prod.snd
      measurements := c.measurements.entries.toList.map Prod.snd }
  { s with semanticDigest := semanticDigest s }

/-- `Coordinator::persist_now`, to the path that `set_persist_path` was given. -/
def persistNow (c : Coordinator) (persistPath : String) (fs : Files) (outcomes : List Outcome) :
    SaveState :=
  if persistPath.isEmpty then ⟨fs, .returned (.err .notFound "no persist path")⟩
  else Persist.save fs persistPath c.snapshot outcomes

/-! ### Settled stores -/

/-- Every record of the stores comes back as it is written, and stands under its own id. -/
structure Settled (c : Coordinator) : Prop where
  unnumbered : c.topology.Unnumbered
  nodes : ∀ (id : PciNodeId) n, c.topology.nodes[id]? = some n → Node.Settled n
  paths : ∀ (id : PathId) p, c.paths[id]? = some p → p.id = id ∧ Path.Settled p
  measurements : ∀ (id : MeasurementId) m, c.measurements.entries[id]? = some m →
    m.id = id ∧ Measurement.Settled m

/-- What the topology keeps of a decoded node comes back. -/
lemma settled_keptNode {d : Node} (haddress : d.bdf.valid = true) (hd : Node.Settled d) :
    Node.Settled (keptNode d) := by
  have hempty : 0 < 2 ^ 32 := by decide
  exact settled_node haddress hd.1.provenance_valid rfl hempty hempty hempty hempty hempty

/-- A decoded node leaves a topology of settled nodes. -/
lemma settled_storeNode {t : Topology} (h : t.Unnumbered)
    (hnodes : ∀ (id : PciNodeId) n, t.nodes[id]? = some n → Node.Settled n) {d : Node}
    (hid : d.id = default) (haddress : d.bdf.valid = true) (hd : Node.Settled d) (id : PciNodeId)
    (n : Node) (hget : (storeNode t d).nodes[id]? = some n) : Node.Settled n := by
  cases hdefault : t.nodes[(default : PciNodeId)]? with
  | some m =>
      rw [storeNode_of_some hid hdefault] at hget
      exact hnodes id n hget
  | none =>
      rw [nodes_storeNode_of_none h hid hdefault, ExtTreeMap.getElem?_insert] at hget
      split_ifs at hget
      · exact Option.some.inj hget ▸ settled_keptNode haddress hd
      · exact hnodes id n hget

/-- Decoded nodes leave a topology of settled nodes. -/
lemma settled_storeNodes {ns : List Node} {t : Topology} (h : t.Unnumbered)
    (hnodes : ∀ (id : PciNodeId) n, t.nodes[id]? = some n → Node.Settled n)
    (hns : ∀ d ∈ ns, d.id = default ∧ d.bdf.valid = true ∧ Node.Settled d) :
    ∀ (id : PciNodeId) n, (ns.foldl storeNode t).nodes[id]? = some n → Node.Settled n := by
  induction ns generalizing t with
  | nil => exact hnodes
  | cons d ns ih =>
      obtain ⟨⟨hid, haddress, hd⟩, hns⟩ := List.forall_mem_cons.mp hns
      exact ih (unnumbered_storeNode h hid) (settled_storeNode h hnodes hid haddress hd) hns

/-- What the handlers decode of a measurement payload comes back, whatever lies behind the
measurement and wherever its last string ends. -/
lemma settled_of_onPayload {payload : List UInt8} {beyond : Nat → UInt8} {m : Measurement}
    (h : onPayload decodeMeasurement payload beyond = .ok m) : Measurement.Settled m := by
  rw [onPayload, decodeMeasurement_eq] at h
  rcases hhead : decodeMeasurementHead { data := payload, beyond } with ⟨e | head, r⟩
  · rw [Decoder.run_bind_error _ hhead] at h
    cases h
  rw [Decoder.run_bind_ok _ hhead] at h
  rcases hstring : Reader.string r with ⟨e | bd, r'⟩
  · rw [Decoder.run_bind_error _ hstring] at h
    cases h
  rw [Decoder.run_bind_ok _ hstring] at h
  obtain rfl : head bd = m := Except.ok.inj h
  -- the string begins with a length that stands in the payload
  rcases string_cases r with ⟨e, heq⟩ | ⟨len, r₁, hlen, -, -, heq⟩
  · rw [heq] at hstring
    cases hstring
  have hdata : r.data = payload := by
    have hframe := reads_decodeMeasurementHead.frame { data := payload, beyond }
    rwa [hhead] at hframe
  have hle : r.pos ≤ Reader.size { data := payload, beyond } := by
    have hlength := (u32_of_ok hlen).2.2.length_le
    rw [Writer.u32, LittleEndian.length_bytes, List.length_drop, hdata] at hlength
    change r.pos ≤ payload.length
    omega
  obtain ⟨-, ts, ⟨i, hi, -, rfl⟩, -⟩ := run_of_ok reads_decodeMeasurementHead hhead hle
  have hbd : bd.length < 2 ^ 32 := by
    rw [heq, Reader.take] at hstring
    obtain ⟨hbd, -⟩ := Prod.mk.inj hstring
    rw [← Except.ok.inj hbd, List.length_map, List.length_range']
    exact len.toNat_lt
  exact MeasurementImage.Accepted.settled ((MeasurementImage.accepted_iff _).mpr
    ⟨⟨hi.1, hi.2, hi.3, hi.4⟩, hbd⟩)

/-- Every frame keeps the stores settled. -/
lemma Settled.handleFrame {c : Coordinator} (h : c.Settled) (conn : Connection) (f : Frame)
    (beyond : Nat → UInt8) : (c.handleFrame conn f beyond).1.Settled := by
  have hpaths : ∀ (id : PathId) p, (c.handleFrame conn f beyond).1.paths[id]? = some p →
      p.id = id ∧ Path.Settled p := by
    intro id p hget
    rcases c.getElem?_paths_handleFrame conn f beyond id with
      hkeep | ⟨wb, snap, q, hst, hq, -, hid, hq'⟩
    · exact h.paths id p (hkeep.symm.trans hget)
    · obtain rfl : q = p := Option.some.inj (hq'.symm.trans hget)
      exact ⟨hid, (settled_of_deserialize hst.2.2.2).paths q hq⟩
  have hmeasurements : ∀ (id : MeasurementId) m,
      (c.handleFrame conn f beyond).1.measurements.entries[id]? = some m →
        m.id = id ∧ Measurement.Settled m := by
    intro id m hget
    rw [measurements_handleFrame] at hget
    cases hoffered : offered conn f beyond with
    | none =>
        rw [hoffered] at hget
        exact h.measurements id m hget
    | some m' =>
        rw [hoffered, Option.elim_some, MeasurementStore.getElem?_ingest] at hget
        split_ifs at hget with hid
        · rcases Newest.keep_eq_some_iff.mp hget with ⟨hkept, -⟩ | ⟨rfl, -⟩
          · exact h.measurements id m hkept
          · exact ⟨hid, settled_of_onPayload (offered_eq_some_iff.mp hoffered).2.2⟩
        · exact h.measurements id m hget
  by_cases hst : ∃ wb snap, Stores conn f beyond wb snap
  · obtain ⟨wb, snap, hs⟩ := hst
    have hdecoded := settled_of_deserialize hs.2.2.2
    have hnodes : ∀ d ∈ snap.nodes, d.id = default ∧ d.bdf.valid = true ∧ Node.Settled d :=
      fun d hd => ⟨(nodes_of_deserialize hs.2.2.2 d hd).1, (nodes_of_deserialize hs.2.2.2 d hd).2,
        hdecoded.nodes d hd⟩
    rw [handleFrame_of_stores hs] at hpaths hmeasurements ⊢
    exact ⟨unnumbered_storeNodes h.unnumbered fun d hd => (hnodes d hd).1,
      settled_storeNodes h.unnumbered h.nodes hnodes, hpaths, hmeasurements⟩
  · push Not at hst
    have htopology := topology_handleFrame (c := c) hst
    exact ⟨htopology ▸ h.unnumbered, htopology ▸ h.nodes, hpaths, hmeasurements⟩

/-- `revalidate_all` keeps the stores settled. -/
lemma Settled.revalidateAll {c : Coordinator} (h : c.Settled) : c.revalidateAll.Settled := by
  refine ⟨h.unnumbered, h.nodes, fun id p hget => ?_, h.measurements⟩
  change (c.paths.map fun _ p => p.revalidate)[id]? = some p at hget
  rw [ExtTreeMap.getElem?_map] at hget
  obtain ⟨q, hq, rfl⟩ := Option.map_eq_some_iff.mp hget
  obtain ⟨hid, hsettled⟩ := h.paths id q hq
  rw [Path.revalidate]
  split
  · exact ⟨hid, Path.Settled.withFreshness hsettled (f := ⟨_, q.freshness.ageMs⟩) rfl⟩
  · exact ⟨hid, hsettled⟩

/-! ### Settled snapshots -/

/-- At most one node is listed. -/
lemma Settled.allNodes_length {c : Coordinator} (h : c.Settled) :
    c.topology.allNodes.length ≤ 1 := by
  have hperm : c.topology.allNodes.Perm
      ((c.topology.nodes.toList.filter fun e => !e.2.removed).map Prod.fst) :=
    List.perm_insertionSort _ _
  have hdefault : ∀ id ∈ c.topology.allNodes, id = default := by
    intro id hid
    obtain ⟨⟨id, n⟩, hmem, rfl⟩ := List.mem_map.mp (hperm.mem_iff.mp hid)
    exact h.unnumbered id n
      (ExtTreeMap.mem_toList_iff_getElem?_eq_some.mp (List.mem_filter.mp hmem).1)
  have hnodup : c.topology.allNodes.Nodup := by
    rw [hperm.nodup_iff]
    exact (MapSum.nodup_keys c.topology.nodes).sublist (List.filter_sublist.map _)
  rw [List.eq_replicate_of_mem hdefault, List.nodup_replicate] at hnodup
  exact hnodup

/-- At most one node is in a snapshot. -/
lemma Settled.nodes_length {c : Coordinator} (h : c.Settled) : c.snapshot.nodes.length ≤ 1 :=
  (List.length_filterMap_le _ _).trans h.allNodes_length

/-- A snapshot of few enough records is settled. -/
lemma Settled.snapshot {c : Coordinator} (h : c.Settled)
    (hpaths : c.paths.size ≤ Reader.maxCount)
    (hmeasurements : c.measurements.entries.size ≤ Reader.maxCount) :
    Snapshot.Settled c.snapshot where
  nodes n hn := by
    obtain ⟨id, -, hget⟩ := List.mem_filterMap.mp hn
    exact h.nodes id n hget
  nodes_distinct := nodup_of_length_le_one ((List.length_map _).trans_le h.nodes_length)
  nodes_length := h.nodes_length.trans (by decide)
  paths p hp := by
    obtain ⟨⟨id, p⟩, hmem, rfl⟩ := List.mem_map.mp hp
    exact (h.paths id p (ExtTreeMap.mem_toList_iff_getElem?_eq_some.mp hmem)).2
  paths_distinct := MapSum.nodup_values c.paths fun id p hget => (h.paths id p hget).1
  paths_length := by
    change (c.paths.toList.map Prod.snd).length ≤ _
    rwa [List.length_map, ExtTreeMap.length_toList]
  measurements m hm := by
    obtain ⟨⟨id, m⟩, hmem, rfl⟩ := List.mem_map.mp hm
    exact (h.measurements id m (ExtTreeMap.mem_toList_iff_getElem?_eq_some.mp hmem)).2
  measurements_distinct :=
    MapSum.nodup_values c.measurements.entries fun id m hget => (h.measurements id m hget).1
  measurements_length := by
    change (c.measurements.entries.toList.map Prod.snd).length ≤ _
    rwa [List.length_map, ExtTreeMap.length_toList]
  reservations _ hr := absurd hr List.not_mem_nil
  reservations_distinct := List.nodup_nil
  reservations_length := Nat.zero_le _
  policies_length := Nat.zero_le _
  rest := rfl

end Coordinator

namespace Server

/-- In every run the stores of the coordinator are settled. -/
lemma settled_of_run (events : List ServerEvent) : (run step {} events).coordinator.Settled := by
  refine run_invariant step (I := fun srv => srv.coordinator.Settled) (fun srv e h => ?_) ?_ events
  · cases e with
    | frame conn f beyond => exact h.handleFrame (srv.conns conn) f beyond
    | advanceEpoch => exact ⟨h.unnumbered, h.nodes, h.paths, h.measurements⟩
    | revalidateAll => exact h.revalidateAll
  · exact ⟨fun id n hget => by simp at hget, fun id n hget => by simp at hget,
      fun id p hget => by simp at hget, fun id m hget => by simp at hget⟩

/-- The snapshot is small enough to be loaded: its lists have at most as many records as a
reader takes, and the length of its stream is written in 8 bytes. -/
structure Loadable (c : Coordinator) : Prop where
  paths : c.paths.size ≤ Reader.maxCount
  measurements : c.measurements.entries.size ≤ Reader.maxCount
  size : (SnapshotImage.ofSnapshot c.snapshot).bytes.length < 2 ^ 64

/-- A server that is saved to a path by `persist_now` at any moment of its run. -/
def saving (path : String) : Saving Server → SavingEvent ServerEvent → Saving Server :=
  Saving.step Server.step (fun srv => srv.coordinator.snapshot) path

/-- What an event leaves in the file. -/
def Leaves (path : String) : Saving Server → SavingEvent ServerEvent → Option (List UInt8) →
    Prop :=
  Saving.Leaves (fun srv => srv.coordinator.snapshot) path

/-- What the file of a saved server holds, and what it is loaded as. -/
structure Persisted (path : String) (fs : Files) (events : List (SavingEvent ServerEvent)) :
    Prop where
  file : ∀ v, (run (saving path) ⟨{}, fs⟩ events).fs.get path = v ↔
    LastWrite (saving path) (Leaves path) ⟨{}, fs⟩ events v ∨
      fs.get path = v ∧ ¬ Writes (saving path) (Leaves path) ⟨{}, fs⟩ events
  loaded : ∀ pre outcomes post, events = pre ++ .save outcomes :: post →
    let before := run (saving path) ⟨{}, fs⟩ pre
    let c := (run Server.step {} (pre.filterMap SavingEvent.input)).coordinator
    (c.persistNow path before.fs outcomes).phase = .returned (.ok ()) →
    ¬ Writes (saving path) (Leaves path) (saving path before (.save outcomes)) post →
    Loadable c → ∀ beyond,
      load (run (saving path) ⟨{}, fs⟩ events).fs path beyond = .ok c.snapshot ↔
        (SnapshotImage.ofSnapshot c.snapshot).Fits

/-- **A saved coordinator.** At every moment of a run in which the coordinator is saved to
one path again and again, with failures and crashes, the file is as the last save that
touched it left it: the whole image of that moment's snapshot, or nothing. The image of a
save that returned a success is loaded as exactly the snapshot of the moment of that save,
if and only if its strings fit. -/
theorem saved_server (path : String) (fs : Files) (events : List (SavingEvent ServerEvent)) :
    Persisted path fs events where
  file := Saving.file_of_run Server.step _ path ⟨{}, fs⟩ events
  loaded := by
    rintro pre outcomes post rfl before c hsaved hlater hload beyond
    have hstate : before.state.coordinator = c :=
      congrArg Server.coordinator (Saving.state_run Server.step _ path ⟨{}, fs⟩ pre)
    have hsave : c.persistNow path before.fs outcomes =
        Saving.saveNow (fun srv : Server => srv.coordinator.snapshot) path before outcomes := by
      rw [Coordinator.persistNow] at hsaved ⊢
      split_ifs at hsaved ⊢ with hempty
      · cases hsaved
      · rw [Saving.saveNow, hstate]
    rw [hsave] at hsaved
    have hfile : (run (saving path) ⟨{}, fs⟩ (pre ++ .save outcomes :: post)).fs.get path =
        some (imageOf c.snapshot) := by
      refine (Saving.file_of_run Server.step _ path ⟨{}, fs⟩ _ _).mpr (.inl ?_)
      rw [← hstate]
      refine ⟨pre, .save outcomes, post, rfl, .image outcomes hsaved, ?_⟩
      rw [run_append]
      exact hlater
    rw [load, hfile]
    have hsettled := (settled_of_run (pre.filterMap SavingEvent.input)).snapshot hload.paths
      hload.measurements
    exact (loadData_fileImage hload.size beyond _).trans (hsettled.deserialize_iff beyond)

/-- A worker registers and sends a path, and the coordinator is saved. -/
example : ((load (run (saving "state") ⟨{}, fun _ => none⟩
    [.event (send 0 .msgRegister (writeRegister ⟨1, 10, 1⟩)),
      .event (sendPaths 0 [{ id := ⟨3⟩, boot := ⟨10⟩ }]),
      .save (List.replicate 4 ⟨true, 0⟩)]).fs "state" fun _ => 0).toOption.map fun s =>
        s.paths.length) = some 1 := by decide +kernel

end Server

end PcieFabric
