import PcieFabric.Runtime.Rebuild
import PcieFabric.Topology.Skeleton

/-!
Building one hierarchy in two orders.

* `EndpointDescription`: what a call of `add_endpoint` is told.
* `ParentsFirst`: an order in which each parent stands before its children.
* `skeleton_rebuildTopology_eq`: two such orders build the same nodes with the
  same parents; only the lists of the children differ.
* `snapshot_skeleton`, `buildPaths_skeleton`: the digest and the paths do not
  see the lists of the children.
* `semanticDigest_of_perm`: the digests after two such orders are equal.
-/

namespace PcieFabric

open Std Machine

/-! ### Descriptions -/

/-- What a call of `add_endpoint` is told. -/
structure EndpointDescription where
  id : PciNodeId
  bdf : Bdf
  kind : DeviceClass
  generation : PciNodeGeneration
  provenance : Provenance
  parent : PciNodeId

namespace EndpointDescription

/-- The call. -/
def call (d : EndpointDescription) : RuntimeCall :=
  .addEndpoint d.id d.bdf d.kind d.generation d.provenance d.parent

/-- The node that is asked for. -/
def node (d : EndpointDescription) : Node where
  id := d.id
  bdf := d.bdf
  kind := d.kind
  generation := d.generation
  provenance := d.provenance
  parent := some d.parent

/-- Each parent that is described at all stands before its children. -/
def ParentsFirst (ds : List EndpointDescription) : Prop :=
  ∀ pre d post, ds = pre ++ d :: post → d.parent ∈ ds.map id → d.parent ∈ pre.map id

/-- No description names itself or a later one as its parent. -/
lemma ParentsFirst.of_pairwise {ds : List EndpointDescription} (hself : ∀ d ∈ ds, d.parent ≠ d.id)
    (hlater : ds.Pairwise fun d e => d.parent ≠ e.id) : ParentsFirst ds := by
  rintro pre d post rfl hmem
  obtain ⟨-, htail, -⟩ := List.pairwise_append.mp hlater
  rw [List.map_append, List.mem_append, List.map_cons, List.mem_cons] at hmem
  rcases hmem with hpre | heq | hpost
  · exact hpre
  · exact absurd heq (hself d (List.mem_append_right pre List.mem_cons_self))
  · obtain ⟨e, he, heq⟩ := List.mem_map.mp hpost
    exact absurd heq.symm ((List.pairwise_cons.mp htail).1 e he)

lemma map_id_node (ds : List EndpointDescription) : (ds.map node).map Node.id = ds.map id :=
  List.map_map

lemma map_bdf_node (ds : List EndpointDescription) : (ds.map node).map Node.bdf = ds.map bdf :=
  List.map_map

end EndpointDescription

open EndpointDescription

/-! ### The hierarchy -/

namespace Topology

/-- A node with its parent is a node without links and the parent. -/
lemma upward_eq_of_unlinked {m n : Node} (h : m.unlinked = n.unlinked)
    (hparent : m.parent = n.parent) : m.upward = n.upward := by
  have hm (m : Node) : m.upward = { m.unlinked with parent := m.parent } := rfl
  rw [hm, hm n, h, hparent]

/-- The parent of a described node is the one of its description, if that is
described too. -/
lemma Rebuilt.parentOf_eq {ds : List EndpointDescription} {t : Topology}
    (h : Rebuilt (ds.map node) t) (hds : ParentsFirst ds) {d : EndpointDescription} (hd : d ∈ ds) :
    t.parentOf d.id = if d.parent ∈ ds.map EndpointDescription.id then some d.parent else none := by
  obtain ⟨pre, post, heq⟩ := List.append_of_mem hd
  have hsplit : ds.map node = pre.map node ++ d.node :: post.map node := by
    rw [heq, List.map_append, List.map_cons]
  have hparent := h.parents _ _ _ hsplit
  rw [map_id_node] at hparent
  refine hparent.trans (if_congr ⟨fun hmem => ?_, hds pre d post heq⟩ rfl rfl)
  rw [heq, List.map_append]
  exact List.mem_append_left _ hmem

/-- **Two orders** of the same descriptions build the same nodes with the same
parents. -/
theorem skeleton_rebuildTopology_eq {ds es : List EndpointDescription} (hperm : ds.Perm es)
    (hids : (ds.map EndpointDescription.id).Nodup) (hbdfs : (ds.map EndpointDescription.bdf).Nodup)
    (hds : ParentsFirst ds) (hes : ParentsFirst es) :
    (Runtime.rebuildTopology (ds.map node)).skeleton =
      (Runtime.rebuildTopology (es.map node)).skeleton := by
  have hidPerm := hperm.map EndpointDescription.id
  have ht : Rebuilt (ds.map node) (Runtime.rebuildTopology (ds.map node)) :=
    rebuilt_rebuildTopology (by rwa [map_id_node]) (by rwa [map_bdf_node])
  have hu : Rebuilt (es.map node) (Runtime.rebuildTopology (es.map node)) :=
    rebuilt_rebuildTopology (by rwa [map_id_node, ← hidPerm.nodup_iff])
      (by rwa [map_bdf_node, ← (hperm.map EndpointDescription.bdf).nodup_iff])
  generalize Runtime.rebuildTopology (ds.map node) = t at ht
  generalize Runtime.rebuildTopology (es.map node) = u at hu
  have hnodes : t.skeleton.nodes = u.skeleton.nodes := by
    refine ExtTreeMap.ext_getElem? fun id => ?_
    rw [getElem?_skeleton, getElem?_skeleton]
    by_cases hid : id ∈ ds.map EndpointDescription.id
    · obtain ⟨d, hd, rfl⟩ := List.mem_map.mp hid
      obtain ⟨m, hm, hstored⟩ := Option.map_eq_some_iff.mp
        (ht.stored d.node (List.mem_map_of_mem hd))
      obtain ⟨n, hn, hstored'⟩ := Option.map_eq_some_iff.mp
        (hu.stored d.node (List.mem_map_of_mem (hperm.mem_iff.mp hd)))
      have hparent : t.parentOf d.id = u.parentOf d.id := by
        rw [ht.parentOf_eq hds hd, hu.parentOf_eq hes (hperm.mem_iff.mp hd)]
        exact if_congr hidPerm.mem_iff rfl rfl
      change t.nodes[d.id]? = some m at hm
      change u.nodes[d.id]? = some n at hn
      rw [parentOf_of_getElem? hm, parentOf_of_getElem? hn] at hparent
      rw [hm, hn, Option.map_some, Option.map_some,
        upward_eq_of_unlinked (hstored.trans hstored'.symm) hparent]
    · rw [ht.others id (by rwa [map_id_node]),
        hu.others id (by rwa [map_id_node, ← hidPerm.mem_iff])]
  exact congrArg (fun nodes => ({ nodes } : Topology)) hnodes

end Topology

/-! ### Paths and digest -/

@[simp] lemma computePathClass_skeleton (topo : Topology) (src dst : PciNodeId) :
    computePathClass topo.skeleton src dst = computePathClass topo src dst := by
  rw [computePathClass, computePathClass, Topology.getElem?_skeleton, Topology.getElem?_skeleton]
  cases topo.nodes[src]? <;> cases topo.nodes[dst]? <;> rfl

/-- A path that is built depends on the parents only. -/
lemma buildPath_skeleton (topo : Topology) (id : PathId) (gen : PathGeneration)
    (src dst : PciNodeId) (epoch : CoordinatorEpoch) (boot : WorkerBootId) :
    buildPath topo.skeleton id gen src dst epoch boot =
      buildPath topo id gen src dst epoch boot := by
  rw [buildPath, buildPath, computePathClass_skeleton, Topology.pathNodes_skeleton,
    Topology.locality_skeleton, Topology.sharedContentionNode_skeleton]

namespace Runtime

/-- The runtime over the skeleton of its hierarchy. -/
def skeleton (rt : Runtime) : Runtime := { rt with topology := rt.topology.skeleton }

lemma currentPath_skeleton (rt : Runtime) : rt.skeleton.currentPath = rt.currentPath := by
  funext id src dst
  exact congrArg (fun p : Path => { p with freshness := ⟨Freshness.current, 0⟩ })
    (buildPath_skeleton rt.topology id ⟨1⟩ src dst rt.epoch rt.boot)

lemma buildPairPaths_skeleton (rt : Runtime) :
    rt.skeleton.buildPairPaths = rt.buildPairPaths := by
  funext eps paths
  rw [buildPairPaths, buildPairPaths, currentPath_skeleton]

lemma buildHostPaths_skeleton (rt : Runtime) :
    rt.skeleton.buildHostPaths = rt.buildHostPaths := by
  have hroot : rt.skeleton.topology.rootComplexOf = rt.topology.rootComplexOf :=
    funext rt.topology.rootComplexOf_skeleton
  funext eps paths
  rw [buildHostPaths, buildHostPaths, currentPath_skeleton, hroot]

/-- `build_paths` does not see the lists of the children. -/
lemma buildPaths_skeleton (rt : Runtime) : rt.skeleton.buildPaths = rt.buildPaths.skeleton := by
  have heps : rt.skeleton.topology.endpoints = rt.topology.endpoints :=
    rt.topology.endpoints_skeleton
  rw [buildPaths, buildPaths, buildPairPaths_skeleton, buildHostPaths_skeleton, heps]
  rfl

/-- The digest does not see the lists of the children. -/
lemma snapshot_skeleton (rt : Runtime) :
    rt.skeleton.snapshot.semanticDigest = rt.snapshot.semanticDigest := by
  have hnodes : rt.skeleton.snapshot.nodes = rt.snapshot.nodes.map Node.upward := by
    change (rt.topology.skeleton.allNodes.filterMap fun id => rt.topology.skeleton.nodes[id]?) =
      (rt.topology.allNodes.filterMap fun id => rt.topology.nodes[id]?).map Node.upward
    rw [Topology.allNodes_skeleton, List.map_filterMap]
    simp only [Topology.getElem?_skeleton]
  have hfold (d : UInt64) : rt.skeleton.snapshot.nodes.foldl digestNode d =
      rt.snapshot.nodes.foldl digestNode d := by
    rw [hnodes, List.foldl_map]
    rfl
  exact semanticDigest_congr rfl rfl hfold (fun _ => rfl) fun _ => rfl

/-! ### The calls -/

/-- A call for a new id and a new address succeeds and is counted. -/
lemma step_call {rt : Runtime} {nodes : List Node} (h : Topology.Rebuilt nodes rt.topology)
    {d : EndpointDescription} (hid : d.id ∉ nodes.map Node.id)
    (hbdf : d.bdf ∉ nodes.map Node.bdf) :
    rt.step d.call = { rt with
      topology :=
        (rt.topology.addEndpoint d.id d.bdf d.kind d.generation d.provenance d.parent).2
      topologySeq := rt.topologySeq + 1 } := by
  have hadd := Topology.addEndpoint_of_absent (n := d.node) (h.findByBdf_eq_none hbdf)
    (fun hmem => hid ((h.mem_iff d.id).mp hmem)) d.parent
  change rt.topology.addEndpoint d.id d.bdf d.kind d.generation d.provenance d.parent = _ at hadd
  change (rt.addEndpoint d.id d.bdf d.kind d.generation d.provenance d.parent).2 = _
  rw [Runtime.addEndpoint, hadd]

/-- Feeding descriptions of distinct ids and addresses to a fresh runtime: each
call succeeds, and the hierarchy is the one that a load builds. -/
lemma run_call {rt : Runtime} (hfresh : rt.topology = {}) {ds : List EndpointDescription}
    (hids : (ds.map EndpointDescription.id).Nodup)
    (hbdfs : (ds.map EndpointDescription.bdf).Nodup) :
    run step rt (ds.map call) = { rt with
      topology := rebuildTopology (ds.map node)
      topologySeq := rt.topologySeq + UInt64.ofNat ds.length } := by
  induction ds using List.reverseRecOn with
  | nil =>
      have hseq : rt.topologySeq + UInt64.ofNat 0 = rt.topologySeq := UInt64.add_zero _
      rw [List.map_nil, run_nil, List.map_nil, List.length_nil, hseq]
      exact congrArg (fun topology => { rt with topology }) hfresh
  | append_singleton ds d ih =>
      rw [List.map_append, List.map_singleton, List.nodup_append_comm, List.singleton_append,
        List.nodup_cons] at hids hbdfs
      have hrebuilt : Topology.Rebuilt (ds.map node) (rebuildTopology (ds.map node)) :=
        Topology.rebuilt_rebuildTopology (by rw [map_id_node]; exact hids.2)
          (by rw [map_bdf_node]; exact hbdfs.2)
      have hseq : rt.topologySeq + UInt64.ofNat ds.length + 1 =
          rt.topologySeq + UInt64.ofNat (ds ++ [d]).length := by
        rw [List.length_append, List.length_singleton, UInt64.ofNat_add, UInt64.add_assoc]
        rfl
      rw [List.map_append, List.map_singleton, run_append, ih hids.2 hbdfs.2, run_cons, run_nil,
        step_call hrebuilt (by rw [map_id_node]; exact hids.1)
          (by rw [map_bdf_node]; exact hbdfs.1),
        List.map_append, List.map_singleton, Topology.rebuildTopology_concat, ← hseq]
      rfl

/-- **Build order.** Descriptions with distinct ids and addresses are fed to two
fresh runtimes with the same authority, in two orders in which each parent stands
before its children. The digests are equal, and they are equal after
`build_paths`. -/
theorem semanticDigest_of_perm {ds es : List EndpointDescription} (hperm : ds.Perm es)
    (hids : (ds.map EndpointDescription.id).Nodup)
    (hbdfs : (ds.map EndpointDescription.bdf).Nodup) (hds : ParentsFirst ds)
    (hes : ParentsFirst es) (epoch : CoordinatorEpoch) (boot : WorkerBootId)
    (host : HostGeneration) (hostGen : UInt64) :
    let fresh := ({} : Runtime).setAuthority epoch boot host hostGen
    let first := run step fresh (ds.map call)
    let second := run step fresh (es.map call)
    first.snapshot.semanticDigest = second.snapshot.semanticDigest ∧
      first.buildPaths.snapshot.semanticDigest = second.buildPaths.snapshot.semanticDigest := by
  intro fresh first second
  have hskeleton : first.skeleton = second.skeleton := by
    have hfirst : first = _ := run_call rfl hids hbdfs
    have hsecond : second = _ := run_call rfl ((hperm.map _).nodup_iff.mp hids)
      ((hperm.map _).nodup_iff.mp hbdfs)
    rw [hfirst, hsecond, skeleton, skeleton, hperm.length_eq]
    dsimp only
    rw [Topology.skeleton_rebuildTopology_eq hperm hids hbdfs hds hes]
  constructor
  · rw [← snapshot_skeleton, hskeleton, snapshot_skeleton]
  · rw [← snapshot_skeleton, ← buildPaths_skeleton, hskeleton, buildPaths_skeleton,
      snapshot_skeleton]

/-- A port on bus 0. -/
def describedPort : EndpointDescription :=
  ⟨⟨1⟩, {}, DeviceClass.rootPort, ⟨1⟩, Provenance.reported, ⟨0⟩⟩

/-- A card under the port. -/
def describedCard (id : UInt64) (bus : UInt8) : EndpointDescription :=
  ⟨⟨id⟩, { bus }, DeviceClass.nic, ⟨1⟩, Provenance.reported, ⟨1⟩⟩

/-- Two cards in either order: the port lists them differently, the digests are
equal. -/
theorem cards_in_either_order :
    let fresh := ({} : Runtime).setAuthority ⟨1⟩ ⟨2⟩ ⟨3⟩ 3
    let first := run step fresh ([describedPort, describedCard 2 1, describedCard 3 2].map call)
    let second := run step fresh ([describedPort, describedCard 3 2, describedCard 2 1].map call)
    (first.topology.nodes[(⟨1⟩ : PciNodeId)]?).map Node.children ≠
        (second.topology.nodes[(⟨1⟩ : PciNodeId)]?).map Node.children ∧
      first.snapshot.semanticDigest = second.snapshot.semanticDigest ∧
      first.buildPaths.snapshot.semanticDigest = second.buildPaths.snapshot.semanticDigest :=
  ⟨by decide +kernel, semanticDigest_of_perm (.cons _ (.swap _ _ _)) (by decide) (by decide)
    (.of_pairwise (by decide) (by decide)) (.of_pairwise (by decide) (by decide)) ⟨1⟩ ⟨2⟩ ⟨3⟩ 3⟩

end Runtime

end PcieFabric
