import PcieFabric.Persist.History
import PcieFabric.Persist.Settled
import PcieFabric.Runtime.Aging
import PcieFabric.Runtime.Authority

/-!
Saving a runtime and loading the file into a fresh one (`Runtime::save`, `Runtime::load`).

* `deserialize_isOk_iff`: when a snapshot that is written can be read.
* `Recovers`: what a fresh runtime takes over.
* `recovers_iff`: a runtime is recovered exactly if its hierarchy has at most one current
  node, since the ids of the nodes are not written.
-/

namespace PcieFabric

open Machine MapWrites Std

namespace Persist

/-- Bounded lists and strings are shorter than `2^32`. -/
lemma told_of_persistable {s : Snapshot} (h : s.Persistable) : s.Told where
  nodes := ⟨lt_of_shortList h.nodes.1, fun n hn =>
    have hnode := h.nodes.2 n hn
    ⟨lt_of_shortList hnode.children, lt_of_shortString hnode.vendor,
      lt_of_shortString hnode.device, lt_of_shortString hnode.className,
      lt_of_shortString hnode.driver⟩⟩
  paths := ⟨lt_of_shortList h.paths.1, fun p hp =>
    ⟨lt_of_shortList (h.paths.2 p hp).bridgeChain, lt_of_shortList (h.paths.2 p hp).links⟩⟩
  measurements := ⟨lt_of_shortList h.measurements.1, fun m hm =>
    ⟨lt_of_shortString (h.measurements.2 m hm).syncSemantics,
      lt_of_shortString (h.measurements.2 m hm).backendDetail⟩⟩
  reservations := ⟨lt_of_shortList h.reservations.1, fun r hr =>
    lt_of_shortString (h.reservations.2 r hr)⟩
  policies := lt_of_shortList h.policies

/-- A persistable snapshot of fitting strings is accepted exactly if it has at most one
node. -/
lemma deserialize_isOk_iff {s : Snapshot} (h : s.Persistable)
    (hfit : (SnapshotImage.ofSnapshot s).Fits) (beyond : Nat → UInt8) :
    (∃ s', deserialize (SnapshotImage.ofSnapshot s).bytes beyond = .ok s') ↔
      s.nodes.length ≤ 1 := by
  constructor
  · rintro ⟨s', hs'⟩
    obtain ⟨rfl, -⟩ := read_eq_of_deserialize (told_of_persistable h) (serialize_eq s) hs'
    have hlength := nodes_length_le_one hs'
    rwa [SnapshotImage.toSnapshot, withDigest, SnapshotImage.toRecords, SnapshotImage.ofSnapshot,
      List.length_map, List.length_map] at hlength
  · intro hlength
    -- the ids are not written, so they may be those of decoded nodes
    let bare : Snapshot := { s with nodes := s.nodes.map fun n => { n with id := default } }
    have hwritten : SnapshotImage.ofSnapshot bare = SnapshotImage.ofSnapshot s := by
      rw [SnapshotImage.ofSnapshot, SnapshotImage.ofSnapshot]
      congr 1
      exact List.map_map
    have hdefault : ∀ n ∈ bare.nodes, n.id = default := by
      intro n hn
      obtain ⟨m, -, rfl⟩ := List.mem_map.mp hn
      rfl
    have hbare : bare.Persistable := {
      h with
      nodeIds := nodup_of_length_le_one
        ((List.length_map _).trans_le ((List.length_map _).trans_le hlength))
      nodes := by
        refine ⟨(List.length_map _).trans_le h.nodes.1, fun n hn => ?_⟩
        obtain ⟨m, hm, rfl⟩ := List.mem_map.mp hn
        obtain ⟨haddress, henums, hchildren, hvendor, hdevice, hclass, hdriver⟩ := h.nodes.2 m hm
        exact ⟨haddress, ⟨henums.kind, henums.provenance⟩, hchildren, hvendor, hdevice, hclass,
          hdriver⟩ }
    have haccepted := SnapshotImage.accepted_ofSnapshot hbare hdefault
    rw [hwritten] at haccepted
    exact ⟨_, deserialize_ok_iff.mpr ⟨_, rfl, haccepted, hfit, rfl⟩⟩

end Persist

namespace Runtime

/-! ### Recovery -/

/-- A path as it is written and read, to be revalidated. -/
def recovered (p : Path) : Path := (Persist.PathImage.ofPath p).toPath.revalidate

lemma id_recovered (p : Path) : (recovered p).id = p.id := by
  rw [recovered, Path.revalidate]
  split <;> rfl

/-- What a fresh runtime takes over from the file of another one: the epoch, the paths to be
revalidated, and the nodes without their ids. It has no measurements and no reservations. -/
structure Recovers (rt fresh : Runtime) : Prop where
  epoch : fresh.epoch = rt.epoch
  paths : ∀ id : PathId, fresh.paths[id]? = (rt.paths[id]?).map recovered
  nodes : fresh.topology = rebuildTopology
    (rt.snapshot.nodes.map fun n => (Persist.NodeImage.ofNode n).toNode)
  measurements : fresh.measurements = {}
  reservations : fresh.reservations = { limits := runtimeLimits }

/-- A load of the paths of a runtime that stores them under their ids. -/
lemma getElem?_loaded {rt : Runtime} (h : rt.StoredById) (id : PathId) :
    (((rt.snapshot.paths.map fun p => (Persist.PathImage.ofPath p).toPath).map
      Path.revalidate).foldl (fun paths p => paths.insert p.id p)
        (∅ : IdMap .pathId Path))[id]? = (rt.paths[id]?).map recovered := by
  have hpaths : (rt.snapshot.paths.map fun p => (Persist.PathImage.ofPath p).toPath).map
      Path.revalidate = rt.paths.toList.map fun e => recovered e.2 := by
    rw [List.map_map, snapshot, List.map_map]
    rfl
  have hwrites : (rt.paths.toList.map fun e => recovered e.2).foldl
      (fun paths p => paths.insert p.id p) (∅ : IdMap .pathId Path) =
        (∅ : IdMap .pathId Path).insertMany
          (rt.paths.toList.map fun e => (e.1, recovered e.2)) := by
    rw [← foldl_insert, List.foldl_map, List.foldl_map]
    refine List.foldl_ext _ _ _ fun paths e he => ?_
    rw [id_recovered, h e.1 e.2 (ExtTreeMap.mem_toList_iff_getElem?_eq_some.mp he)]
  rw [hpaths, hwrites, getElem?_insertMany, ExtTreeMap.getElem?_empty, Option.or_none,
    lastWrite_map (fun _ p => recovered p), lastWrite_toList]

/-- **Recovery, exactly.** In every run with loads, a runtime whose records can be written
and whose strings fit is saved, and the save returns a success. A fresh runtime then loads
the file if and only if the hierarchy had at most one current node. If so, it takes over the
epoch and every path, to be revalidated; otherwise it stays as it was. -/
theorem recovers_iff (events : List RuntimeEvent) (fs : Persist.Files) (path : String)
    (outcomes : List Persist.Outcome) (beyond : Nat → UInt8)
    (hwritable : (run react {} events).snapshot.Persistable)
    (hfit : (Persist.SnapshotImage.ofSnapshot (run react {} events).snapshot).Fits)
    (hsize : (Persist.SnapshotImage.ofSnapshot (run react {} events).snapshot).bytes.length <
      2 ^ 64)
    (hsaved : ((run react {} events).save fs path outcomes).phase = .returned (.ok ())) :
    let rt := run react {} events
    let loaded := ({} : Runtime).load (rt.save fs path outcomes).fs path beyond
    (loaded.1.isOk ↔ rt.snapshot.nodes.length ≤ 1) ∧
      (loaded.1.isOk → rt.Recovers loaded.2) ∧ (¬ loaded.1.isOk → loaded.2 = {}) := by
  intro rt loaded
  have hid : rt.StoredById := storedById_run events
  have hfile : (rt.save fs path outcomes).fs.get path = some (Persist.imageOf rt.snapshot) := by
    rcases Persist.save_ends fs path rt.snapshot outcomes with
      ⟨-, -, hcontent⟩ | ⟨hnot, -⟩ | ⟨hnot, -⟩
    · exact hcontent
    · exact absurd hsaved hnot
    · exact absurd hsaved hnot
  have hload : ∀ s, Persist.load (rt.save fs path outcomes).fs path beyond = .ok s ↔
      Persist.deserialize (Persist.SnapshotImage.ofSnapshot rt.snapshot).bytes beyond = .ok s := by
    intro s
    rw [Persist.load, hfile]
    exact Persist.loadData_fileImage hsize beyond s
  have hexists : (∃ s, Persist.load (rt.save fs path outcomes).fs path beyond = .ok s) ↔
      rt.snapshot.nodes.length ≤ 1 :=
    (exists_congr hload).trans (Persist.deserialize_isOk_iff hwritable hfit beyond)
  have hloaded : loaded = ({} : Runtime).loadSnapshot
    (Persist.load (rt.save fs path outcomes).fs path beyond) := rfl
  rw [hloaded]
  cases hresult : Persist.load (rt.save fs path outcomes).fs path beyond with
  | error e =>
      rw [hresult] at hexists
      refine ⟨iff_of_false Bool.false_ne_true fun hlength => ?_, fun h => absurd h
        Bool.false_ne_true, fun _ => rfl⟩
      obtain ⟨s, hs⟩ := hexists.mpr hlength
      cases hs
  | ok s =>
      refine ⟨iff_of_true rfl (hexists.mp ⟨s, hresult⟩), fun _ => ?_, fun h => absurd rfl h⟩
      obtain ⟨rfl, -⟩ := Persist.read_eq_of_deserialize (Persist.told_of_persistable hwritable)
        (Persist.serialize_eq rt.snapshot) ((hload s).mp hresult)
      have hnodes : (Persist.SnapshotImage.ofSnapshot rt.snapshot).toSnapshot.nodes =
          rt.snapshot.nodes.map fun n => (Persist.NodeImage.ofNode n).toNode := List.map_map
      have hpaths : (Persist.SnapshotImage.ofSnapshot rt.snapshot).toSnapshot.paths =
          rt.snapshot.paths.map fun p => (Persist.PathImage.ofPath p).toPath := List.map_map
      constructor
      · rfl
      · intro id
        rw [← getElem?_loaded hid id, ← hpaths]
        rfl
      · rw [← hnodes]
        rfl
      · rfl
      · rfl

/-- The nodes of two cards. -/
lemma nodes_twoCards : (run react {} twoCards).snapshot.nodes =
    [{ id := ⟨1⟩, bdf := { bus := 1 }, kind := DeviceClass.nic, generation := ⟨1⟩
       provenance := Provenance.reported },
      { id := ⟨2⟩, bdf := { bus := 2 }, kind := DeviceClass.nic, generation := ⟨1⟩
        provenance := Provenance.reported }] := by decide +kernel

/-- Two cards can be written. -/
lemma persistable_twoCards : (run react {} twoCards).snapshot.Persistable where
  nodeIds := by decide +kernel
  pathIds := by decide +kernel
  measurementIds := by decide +kernel
  reservationIds := by decide +kernel
  nodes := by
    rw [nodes_twoCards]
    refine ⟨by decide, fun n hn => ?_⟩
    have hlist : ShortList ([] : List PciNodeId) := Nat.zero_le _
    have hstring : ShortString [] := Nat.zero_le _
    rcases List.mem_pair.mp hn with rfl | rfl
    · exact ⟨by decide, ⟨by decide, by decide⟩, hlist, hstring, hstring, hstring, hstring⟩
    · exact ⟨by decide, ⟨by decide, by decide⟩, hlist, hstring, hstring, hstring, hstring⟩
  paths := by
    rw [show (run react {} twoCards).snapshot.paths = [] by decide +kernel]
    exact ⟨Nat.zero_le _, fun p hp => absurd hp List.not_mem_nil⟩
  measurements := by
    rw [show (run react {} twoCards).snapshot.measurements = [] by decide +kernel]
    exact ⟨Nat.zero_le _, fun m hm => absurd hm List.not_mem_nil⟩
  reservations := by
    rw [show (run react {} twoCards).snapshot.reservations = [] by decide +kernel]
    exact ⟨Nat.zero_le _, fun r hr => absurd hr List.not_mem_nil⟩
  policies := by decide +kernel

/-- A runtime with two cards is saved, and its file is refused. -/
theorem saved_two_cards_refused :
    let rt := run react {} twoCards
    let loaded := ({} : Runtime).load
      (rt.save (fun _ => none) "state" (List.replicate 4 ⟨true, 0⟩)).fs "state" fun _ => 0
    ((loaded.1.isOk ↔ rt.snapshot.nodes.length ≤ 1) ∧
      (loaded.1.isOk → rt.Recovers loaded.2) ∧ (¬ loaded.1.isOk → loaded.2 = {})) ∧
        rt.snapshot.nodes.length = 2 := by
  have hfit := (Persist.SnapshotImage.fits_iff
    (Persist.SnapshotImage.stringsShort persistable_twoCards)).mpr
      (Persist.SnapshotImage.noneStraddles_of_le (by decide +kernel))
  exact ⟨recovers_iff twoCards (fun _ => none) "state" (List.replicate 4 ⟨true, 0⟩) (fun _ => 0)
    persistable_twoCards hfit (by decide +kernel) rfl, by rw [nodes_twoCards]; rfl⟩

end Runtime

end PcieFabric
