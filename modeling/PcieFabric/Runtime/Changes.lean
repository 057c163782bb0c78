import PcieFabric.Lib.Latch
import PcieFabric.Runtime.Authority
import PcieFabric.Runtime.Numbering
import PcieFabric.Snapshot.Diff
import PcieFabric.Topology.Addresses
import PcieFabric.Topology.HostTree
import PcieFabric.Topology.Incarnations

/-!
What the difference of two snapshots of a runtime says of the calls between them
(`example15_snapshot.cpp`, `runtime.hpp`).

* `Orderly`: what holds of the hierarchy of every runtime, also after loads and discoveries.
* `AddsEndpoint`, `addsAt`, `Builds`: the calls that a difference shows.
* `device_run_iff`, `live_run`, `mem_paths_run_iff`: what a run without a discovery does
  to the endpoints, the generations and the paths.
* `ReportsChanges`, `changes_reported`: the difference of the snapshots before and after
  such a run.
-/

namespace PcieFabric

open Std Machine MapDiff

/-- The call discovers the hierarchy anew. -/
def RuntimeCall.rediscovers : RuntimeCall → Bool
  | .discoverWindows _ => true
  | _ => false

/-- The call adds a device at the address. -/
def RuntimeCall.addsAt (b : Bdf) : RuntimeCall → Bool
  | .addEndpoint _ b' _ _ _ _ => b' == b
  | _ => false

namespace Runtime

/-! ### The hierarchy of a runtime -/

/-- The nodes carry their ids, no two are at one address, and none is removed. -/
structure Orderly (t : Topology) : Prop where
  keyed : t.Keyed
  address : t.OnePerAddress
  current : ∀ (k : PciNodeId) n, t.nodes[k]? = some n → n.removed = false

lemma orderly_init : Orderly {} := by
  have hnone : ∀ (k : PciNodeId) n, ({} : Topology).nodes[k]? ≠ some n := by
    intro k n hn
    rw [show ({} : Topology).nodes = ∅ from rfl, ExtTreeMap.getElem?_empty] at hn
    cases hn
  refine ⟨fun k n hn => absurd hn (hnone k n), fun k _ b g _ hk _ => ?_,
    fun k n hn => absurd hn (hnone k n)⟩
  obtain ⟨n, hn, -⟩ := Topology.live_eq_some_iff.mp hk
  exact absurd hn (hnone k n)

lemma Orderly.addEndpoint {t : Topology} (h : Orderly t) (id : PciNodeId) (b : Bdf)
    (kind : DeviceClass) (gen : PciNodeGeneration) (src : Provenance) (parent : PciNodeId) :
    Orderly (t.addEndpoint id b kind gen src parent).2 := by
  refine ⟨h.keyed.step (.addEndpoint id b kind gen src parent),
    h.address.step (.addEndpoint id b kind gen src parent), fun k n hn => ?_⟩
  have hmap : (((t.addEndpoint id b kind gen src parent).2.nodes[k]?).map Node.removed) =
      some n.removed := by rw [hn, Option.map_some]
  rcases Topology.map_addEndpoint Node.removed (fun _ _ _ _ _ => rfl) t id b kind gen src parent
    with ⟨k', -, hstep⟩ | ⟨-, -, hstep⟩ | ⟨-, -, hstep⟩
  · rw [hstep] at hmap
    obtain ⟨m, hm, heq⟩ := Option.map_eq_some_iff.mp hmap
    rw [← heq, ← h.current k m hm]
    split <;> rfl
  · rw [hstep] at hn
    exact h.current k n hn
  · rw [hstep] at hmap
    split_ifs at hmap
    · exact (Option.some.inj hmap).symm
    · obtain ⟨m, hm, heq⟩ := Option.map_eq_some_iff.mp hmap
      rw [← heq, h.current k m hm]

/-- A discovered hierarchy is in order. -/
lemma orderly_build (ds : List RawPciDevice) :
    Orderly (ds.foldl Discovery.Build.add {}).topo := by
  induction ds using List.reverseRecOn with
  | nil => exact orderly_init
  | append_singleton ds d ih =>
      rw [List.foldl_append, List.foldl_cons, List.foldl_nil]
      cases hvalid : d.bdf.valid with
      | false =>
          rw [Discovery.Build.add, hvalid]
          exact ih
      | true =>
          rw [Discovery.Build.topo_add _ hvalid]
          exact ih.addEndpoint _ _ _ _ _ _

/-- `add_endpoint` of a runtime is that of its hierarchy. -/
lemma topology_addEndpoint (rt : Runtime) (id : PciNodeId) (b : Bdf) (kind : DeviceClass)
    (gen : PciNodeGeneration) (prov : Provenance) (parent : PciNodeId) :
    (rt.step (.addEndpoint id b kind gen prov parent)).topology =
      (rt.topology.addEndpoint id b kind gen prov parent).2 := by
  change (rt.addEndpoint id b kind gen prov parent).2.topology = _
  unfold Runtime.addEndpoint
  split <;> next heq => rw [heq]

/-- The other calls leave the hierarchy, unless they discover it anew. -/
lemma topology_step (rt : Runtime) {c : RuntimeCall} (hc : c.rediscovers = false)
    (hadd : ∀ id b kind gen prov parent, c ≠ .addEndpoint id b kind gen prov parent) :
    (rt.step c).topology = rt.topology := by
  cases c with
  | setAuthority | buildPaths | select | release | refreshMeasured | ageFreshness => rfl
  | addEndpoint id b kind gen prov parent => exact absurd rfl (hadd id b kind gen prov parent)
  | discoverWindows devices => cases hc
  | reserve req =>
      obtain ⟨seq, heq⟩ := rt.step_reserve req
      rw [heq]
  | ingestMeasurement m =>
      obtain ⟨measurements, seq, heq⟩ := rt.step_ingestMeasurement m
      rw [heq]

/-- A call that does not discover the hierarchy anew keeps the order. -/
lemma Orderly.step {rt : Runtime} (h : Orderly rt.topology) {c : RuntimeCall}
    (hc : c.rediscovers = false) : Orderly (rt.step c).topology := by
  by_cases hadd : ∃ id b kind gen prov parent, c = .addEndpoint id b kind gen prov parent
  · obtain ⟨id, b, kind, gen, prov, parent, rfl⟩ := hadd
    rw [topology_addEndpoint]
    exact h.addEndpoint id b kind gen prov parent
  · rw [rt.topology_step hc fun id b kind gen prov parent heq =>
      hadd ⟨id, b, kind, gen, prov, parent, heq⟩]
    exact h

/-- **Every event keeps the order**: a discovery and a load build the hierarchy anew, from
calls of `add_endpoint`. -/
lemma Orderly.react {rt : Runtime} (h : Orderly rt.topology) (e : RuntimeEvent) :
    Orderly (rt.react e).topology := by
  cases e with
  | load fs path beyond =>
      change Orderly (rt.loadSnapshot (Persist.load fs path beyond)).2.topology
      unfold loadSnapshot
      split
      · exact h
      · change Orderly (rebuildTopology _)
        rw [rebuildTopology]
        refine List.foldlRecOn _ _ orderly_init fun t ht n _ => ht.addEndpoint _ _ _ _ _ _
  | call c =>
      cases hc : c.rediscovers with
      | false => exact h.step hc
      | true =>
          obtain ⟨devices, rfl⟩ : ∃ devices, c = .discoverWindows devices := by
            cases c with
            | discoverWindows devices => exact ⟨devices, rfl⟩
            | _ => cases hc
          change Orderly (rt.discoverWindows devices).2.topology
          unfold discoverWindows
          split
          · exact h
          · next t hbuild =>
              rcases devices with e | ds
              · cases hbuild
              · obtain rfl : (ds.foldl Discovery.Build.add {}).topo = t := Except.ok.inj hbuild
                exact orderly_build ds

lemma orderly_run (events : List RuntimeEvent) :
    Orderly (run Runtime.react {} events).topology :=
  @run_invariant _ _ react (fun rt => Orderly rt.topology) (fun _ e h => Orderly.react h e) {}
    orderly_init events

/-! ### What a run adds -/

/-- What a node keeps of its device for good. -/
def device (n : Node) : Bdf × DeviceClass := (n.bdf, n.kind)

/-- The call adds a node under the id, for this device. -/
def AddsNode (k : PciNodeId) (x : Bdf × DeviceClass) (rt : Runtime) (c : RuntimeCall) : Prop :=
  rt.topology.findByBdf x.1 = none ∧ k ∉ rt.topology.nodes ∧
    ∃ gen prov parent, c = .addEndpoint k x.1 x.2 gen prov parent

/-- The call adds an endpoint at the address. -/
def AddsEndpoint (b : Bdf) (rt : Runtime) (c : RuntimeCall) : Prop :=
  ∃ k kind, isEndpointKind kind = true ∧ AddsNode k (b, kind) rt c

/-- The call builds a path under the id. -/
def Builds (id : PathId) (rt : Runtime) (c : RuntimeCall) : Prop :=
  c = .buildPaths ∧ GivesOut rt.topology id

variable {rt : Runtime} {c : RuntimeCall} {calls : List RuntimeCall} {k : PciNodeId}

/-- A call keeps the devices of the nodes, and may add one. -/
lemma device_step_iff (hc : c.rediscovers = false) {x : Bdf × DeviceClass} :
    ((rt.step c).topology.nodes[k]?).map device = some x ↔
      (rt.topology.nodes[k]?).map device = some x ∨ AddsNode k x rt c := by
  by_cases hadd : ∃ id b kind gen prov parent, c = .addEndpoint id b kind gen prov parent
  swap
  · rw [rt.topology_step hc fun id b kind gen prov parent heq =>
      hadd ⟨id, b, kind, gen, prov, parent, heq⟩]
    refine (or_iff_left ?_).symm
    rintro ⟨-, -, gen, prov, parent, heq⟩
    exact hadd ⟨k, x.1, x.2, gen, prov, parent, heq⟩
  obtain ⟨id, b, kind, gen, prov, parent, rfl⟩ := hadd
  rw [topology_addEndpoint]
  rcases rt.topology.map_addEndpoint device (fun _ _ _ _ _ => rfl) id b kind gen prov parent with
    ⟨k', hfind, hstep⟩ | ⟨-, hid, hstep⟩ | ⟨hfind, hid, hstep⟩
  · have hsame : (fun n : Node => device
        (if k = k' then { n with generation := n.generation.succ } else n)) = device := by
      funext n
      split <;> rfl
    rw [hstep, hsame]
    refine (or_iff_left ?_).symm
    rintro ⟨hnone, -, gen', prov', parent', heq⟩
    cases heq
    rw [hfind] at hnone
    cases hnone
  · rw [hstep]
    refine (or_iff_left ?_).symm
    rintro ⟨-, hnot, gen', prov', parent', heq⟩
    cases heq
    exact hnot hid
  · rw [hstep]
    by_cases hk : k = id
    · subst hk
      rw [if_pos rfl, ExtTreeMap.getElem?_eq_none hid, Option.map_none]
      constructor
      · intro hx
        obtain rfl := Option.some.inj hx
        exact .inr ⟨hfind, hid, gen, prov, parent, rfl⟩
      · rintro (hx | ⟨-, -, gen', prov', parent', heq⟩)
        · cases hx
        · cases heq
          rfl
    · rw [if_neg hk]
      refine (or_iff_left ?_).symm
      rintro ⟨-, -, gen', prov', parent', heq⟩
      cases heq
      exact hk rfl

/-- **The devices after a run** without a discovery. -/
lemma device_run_iff (rt : Runtime) (hcalls : ∀ c ∈ calls, c.rediscovers = false)
    {x : Bdf × DeviceClass} :
    ((run step rt calls).topology.nodes[k]?).map device = some x ↔
      (rt.topology.nodes[k]?).map device = some x ∨ SomeStep step (AddsNode k x) rt calls :=
  run_iff_someStep (Q := fun s => (s.topology.nodes[k]?).map device = some x)
    (fun _ _ hc => device_step_iff hc) rt hcalls

/-- A call that adds at the address of a current node gives it a new generation; the others
leave it. -/
lemma live_step (h : Orderly rt.topology) (hc : c.rediscovers = false) {b : Bdf}
    {g : PciNodeGeneration} (hlive : rt.topology.live k = some (b, g)) :
    (rt.step c).topology.live k = some (b, if c.addsAt b then g.succ else g) := by
  by_cases hadd : ∃ id b kind gen prov parent, c = .addEndpoint id b kind gen prov parent
  swap
  · have hnot : c.addsAt b = false := by
      cases c with
      | addEndpoint id b kind gen prov parent => exact absurd ⟨_, _, _, _, _, _, rfl⟩ hadd
      | _ => rfl
    rw [rt.topology_step hc fun id b kind gen prov parent heq =>
      hadd ⟨id, b, kind, gen, prov, parent, heq⟩, hlive, hnot]
    rfl
  obtain ⟨id, b', kind, gen, prov, parent, rfl⟩ := hadd
  have helse (hne : b' ≠ b) :
      (RuntimeCall.addEndpoint id b' kind gen prov parent).addsAt b = false := beq_false_of_ne hne
  have hoccupied : rt.topology.findByBdf b = some k := h.address.findByBdf hlive
  have hvacant (hnone : rt.topology.findByBdf b' = none) : b' ≠ b := by
    rintro rfl
    rw [hoccupied] at hnone
    cases hnone
  rw [topology_addEndpoint]
  have hmove := Topology.liveMove_step rt.topology (.addEndpoint id b' kind gen prov parent)
  change Topology.LiveMove rt.topology _
    (rt.topology.addEndpoint id b' kind gen prov parent).2 at hmove
  cases hmove with
  | same hadd _ hsame =>
      rw [hsame, hlive, helse (hvacant (hadd b' gen rfl).1)]
      rfl
  | removed _ hcall _ => cases hcall
  | incremented k' b'' g' hlive' hcall hnew =>
      obtain ⟨gen', hadded⟩ := hcall.resolve_left fun heq => by cases heq
      obtain rfl : b' = b'' := (Prod.mk.inj (Option.some.inj hadded)).1
      rw [hnew]
      by_cases hk : k = k'
      · subst hk
        obtain ⟨rfl, rfl⟩ := Prod.mk.inj (Option.some.inj (hlive.symm.trans hlive'))
        rw [Function.update_self, RuntimeCall.addsAt, beq_self_eq_true, if_pos rfl]
      · have hne : b' ≠ b := by
          rintro rfl
          exact hk (h.address k k' b' g g' hlive hlive')
        rw [Function.update_of_ne hk, hlive, helse hne]
        rfl
  | added k' b'' gen' hnone hfree hcall _ hnew =>
      obtain rfl : b' = b'' := (Prod.mk.inj (Option.some.inj hcall)).1
      have hk : k ≠ k' := by
        rintro rfl
        rw [hlive] at hfree
        cases hfree
      rw [hnew, Function.update_of_ne hk, hlive, helse (hvacant hnone)]
      rfl

/-- **The generations after a run** without a discovery. -/
lemma live_run (h : Orderly rt.topology) (hcalls : ∀ c ∈ calls, c.rediscovers = false) {b : Bdf}
    {g : PciNodeGeneration} (hlive : rt.topology.live k = some (b, g)) :
    Orderly (run step rt calls).topology ∧ (run step rt calls).topology.live k =
      some (b, ⟨g.value + UInt64.ofNat (calls.countP (RuntimeCall.addsAt b))⟩) := by
  induction calls using List.reverseRecOn with
  | nil => exact ⟨h, by rw [run_nil, hlive]; simp⟩
  | append_singleton calls c ih =>
      have hpast : ∀ d ∈ calls, d.rediscovers = false := fun d hd =>
        hcalls d (List.mem_append_left _ hd)
      have hc : c.rediscovers = false := hcalls c (List.mem_append_right _ List.mem_cons_self)
      obtain ⟨horder, hnow⟩ := ih hpast
      rw [run_append, run_cons, run_nil]
      refine ⟨horder.step hc, ?_⟩
      rw [live_step horder hc hnow, List.countP_append, List.countP_singleton]
      cases c.addsAt b with
      | false => rfl
      | true =>
          rw [if_pos rfl, if_pos rfl, UInt64.ofNat_add, ← UInt64.add_assoc]
          rfl

/-- **The paths after a run.** -/
lemma mem_paths_run_iff (rt : Runtime) (calls : List RuntimeCall) (id : PathId) :
    id ∈ (run step rt calls).paths ↔ id ∈ rt.paths ∨ SomeStep step (Builds id) rt calls := by
  refine run_iff_someStep (Q := fun s => id ∈ s.paths) (R := fun _ => True) (fun s c _ => ?_) rt
    fun _ _ => trivial
  rw [ExtTreeMap.mem_iff_isSome_getElem?, ExtTreeMap.mem_iff_isSome_getElem?]
  by_cases hc : c = .buildPaths
  · subst hc
    change (s.buildPaths.paths[id]?).isSome ↔ _
    rw [getElem?_buildPaths, Option.isSome_or, Option.isSome_map, Bool.or_eq_true, or_comm]
    refine or_congr_right ?_
    rw [Builds, givesOut_iff, and_iff_right rfl, Option.isSome_iff_ne_none, assigned, Ne,
      MapWrites.lastWrite_eq_none_iff, not_forall_not]
    simp only [Prod.exists]
  · rw [s.getElem?_step hc, Option.isSome_map]
    exact (or_iff_left fun hbuild => hc hbuild.1).symm

/-! ### The difference of the snapshots -/

/-- The nodes of a snapshot are the current ones. -/
lemma mem_nodes_snapshot {n : Node} : n ∈ rt.snapshot.nodes ↔
    ∃ k : PciNodeId, rt.topology.nodes[k]? = some n ∧ n.removed = false := by
  have hall : ∀ k : PciNodeId, k ∈ rt.topology.allNodes ↔
      ∃ m, rt.topology.nodes[k]? = some m ∧ m.removed = false := by
    intro k
    rw [Topology.allNodes, Topology.sortByBdfAndId, (List.perm_insertionSort _ _).mem_iff,
      List.mem_map]
    constructor
    · rintro ⟨⟨k, m⟩, hmem, rfl⟩
      obtain ⟨hmem, hcond⟩ := List.mem_filter.mp hmem
      exact ⟨m, ExtTreeMap.mem_toList_iff_getElem?_eq_some.mp hmem,
        (Bool.not_eq_true' _).mp hcond⟩
    · rintro ⟨m, hm, hremoved⟩
      refine ⟨(k, m), List.mem_filter.mpr ⟨?_, (Bool.not_eq_true' _).mpr hremoved⟩, rfl⟩
      exact ExtTreeMap.mem_toList_iff_getElem?_eq_some.mpr hm
  rw [snapshot, List.mem_filterMap]
  refine exists_congr fun k => ?_
  rw [hall]
  constructor
  · rintro ⟨⟨m, hm, hremoved⟩, hn⟩
    obtain rfl := Option.some.inj (hm.symm.trans hn)
    exact ⟨hn, hremoved⟩
  · rintro ⟨hn, hremoved⟩
    exact ⟨⟨n, hn, hremoved⟩, hn⟩

/-- A snapshot of a hierarchy in order has every id once. -/
lemma distinct_snapshot (h : Orderly rt.topology) : rt.snapshot.Distinct := by
  have hids : rt.snapshot.nodes.map Node.id = rt.topology.allNodes.filterMap fun k =>
      (rt.topology.nodes[k]?).map Node.id := List.map_filterMap ..
  have hkeys : rt.topology.allNodes.Nodup := by
    rw [Topology.allNodes, Topology.sortByBdfAndId, (List.perm_insertionSort _ _).nodup_iff]
    have hall : (rt.topology.nodes.toList.map Prod.fst).Nodup := by
      rw [List.nodup_iff_pairwise_ne, List.pairwise_map]
      exact ExtTreeMap.distinct_keys_toList.imp fun h heq =>
        h (LawfulEqCmp.compare_eq_iff_eq.mpr heq)
    exact hall.sublist (List.filter_sublist.map _)
  rw [Snapshot.Distinct, hids]
  refine hkeys.filterMap fun k k' x hk hk' => ?_
  obtain ⟨n, hn, rfl⟩ := Option.map_eq_some_iff.mp hk
  obtain ⟨n', hn', hid⟩ := Option.map_eq_some_iff.mp hk'
  rw [← h.keyed k n hn, ← h.keyed k' n' hn', hid]

/-- The endpoints of a snapshot, in the hierarchy. -/
lemma endpointsOf_snapshot (h : Orderly rt.topology) {b : Bdf} :
    (endpointsOf rt.snapshot)[k]? = some b ↔ ∃ kind, isEndpointKind kind = true ∧
      (rt.topology.nodes[k]?).map device = some (b, kind) := by
  rw [getElem?_endpointsOf (distinct_snapshot h)]
  constructor
  · rintro ⟨n, hn, hkind, rfl, rfl⟩
    obtain ⟨k, hget, -⟩ := mem_nodes_snapshot.mp hn
    exact ⟨n.kind, hkind, by rw [h.keyed k n hget, hget]; rfl⟩
  · rintro ⟨kind, hkind, hdevice⟩
    obtain ⟨n, hn, heq⟩ := Option.map_eq_some_iff.mp hdevice
    obtain ⟨rfl, rfl⟩ := Prod.mk.inj heq
    exact ⟨n, mem_nodes_snapshot.mpr ⟨k, hn, h.current k n hn⟩, hkind, h.keyed k n hn, rfl⟩

/-- The generations of a snapshot, in the hierarchy. -/
lemma generationsOf_snapshot (h : Orderly rt.topology) {g : UInt64} :
    (generationsOf rt.snapshot)[k]? = some g ↔ ∃ b, rt.topology.live k = some (b, ⟨g⟩) := by
  rw [getElem?_generationsOf (distinct_snapshot h)]
  constructor
  · rintro ⟨n, hn, rfl, rfl⟩
    obtain ⟨k, hget, hremoved⟩ := mem_nodes_snapshot.mp hn
    refine ⟨n.bdf, Topology.live_eq_some_iff.mpr ⟨n, ?_, hremoved, rfl, rfl⟩⟩
    rw [h.keyed k n hget, hget]
  · rintro ⟨b, hlive⟩
    obtain ⟨n, hn, hremoved, -, hgen⟩ := Topology.live_eq_some_iff.mp hlive
    exact ⟨n, mem_nodes_snapshot.mpr ⟨k, hn, hremoved⟩, h.keyed k n hn, by rw [hgen]⟩

/-- The path ids of a snapshot. -/
lemma pathIdsOf_snapshot (h : rt.StoredById) {id : PathId} :
    (pathIdsOf rt.snapshot)[id]? = some () ↔ id ∈ rt.paths := by
  rw [mem_pathIdsOf, ExtTreeMap.mem_iff_isSome_getElem?, Option.isSome_iff_exists]
  constructor
  · rintro ⟨p, hp, rfl⟩
    obtain ⟨⟨id, q⟩, hmem, rfl⟩ := List.mem_map.mp hp
    have hget := ExtTreeMap.mem_toList_iff_getElem?_eq_some.mp hmem
    exact ⟨q, by rw [h id q hget, hget]⟩
  · rintro ⟨p, hget⟩
    exact ⟨p, List.mem_map.mpr ⟨(id, p), ExtTreeMap.mem_toList_iff_getElem?_eq_some.mpr hget, rfl⟩,
      h id p hget⟩

/-- The difference tells the calls between the snapshots: no endpoint disappears, those appear
that were added at a vacant address, a node changes its generation if devices were added at its
address, not a multiple of `2^64` times, and a path changes if it was built under a new id.
Nothing else is reported. -/
structure ReportsChanges (rt : Runtime) (calls : List RuntimeCall) (d : SnapshotDiff) : Prop where
  disappeared : d.endpointsDisappeared = []
  appeared : ∀ b, b ∈ d.endpointsAppeared ↔ SomeStep step (AddsEndpoint b) rt calls
  generations : ∀ k, k ∈ d.generationChanged ↔ ∃ b, rt.topology.CurrentAt b k ∧
    ¬ 2 ^ 64 ∣ calls.countP (RuntimeCall.addsAt b)
  paths : ∀ id, id ∈ d.pathChanged ↔ id ∉ rt.paths ∧ SomeStep step (Builds id) rt calls
  quiet : d.empty = true ↔ d.endpointsAppeared = [] ∧ d.generationChanged = [] ∧ d.pathChanged = []

/-- A generation comes back after a multiple of `2^64` increments. -/
lemma add_ofNat_eq_iff (v : UInt64) (n : ℕ) : v + UInt64.ofNat n = v ↔ 2 ^ 64 ∣ n := by
  have hlt := v.toNat_lt
  rw [← UInt64.toNat_inj, UInt64.toNat_add, UInt64.toNat_ofNat']
  omega

variable {rt' : Runtime}

/-- The endpoints that are new in the hierarchy are reported. -/
lemma mem_appeared_iff (h : Orderly rt.topology) (h' : Orderly rt'.topology) {b : Bdf} :
    b ∈ (snapshotDiff rt.snapshot rt'.snapshot).endpointsAppeared ↔
      ∃ (k : PciNodeId) (kind : DeviceClass), isEndpointKind kind = true ∧
        (rt'.topology.nodes[k]?).map device = some (b, kind) ∧
        ∀ b' kind', isEndpointKind kind' = true →
          (rt.topology.nodes[k]?).map device ≠ some (b', kind') := by
  have hnone : ∀ k : PciNodeId, (endpointsOf rt.snapshot)[k]? = none ↔
      ∀ b' kind', isEndpointKind kind' = true →
        (rt.topology.nodes[k]?).map device ≠ some (b', kind') := by
    intro k
    rw [Option.eq_none_iff_forall_ne_some]
    refine forall_congr' fun b' => ?_
    rw [Ne, endpointsOf_snapshot h, not_exists]
    exact forall_congr' fun kind' => not_and
  rw [snapshotDiff, List.mem_map]
  constructor
  · rintro ⟨⟨k, b⟩, hmem, rfl⟩
    obtain ⟨hnew, hold⟩ := mem_newEntries_iff.mp hmem
    obtain ⟨kind, hkind, hdevice⟩ := (endpointsOf_snapshot h').mp hnew
    exact ⟨k, kind, hkind, hdevice, (hnone k).mp hold⟩
  · rintro ⟨k, kind, hkind, hdevice, hold⟩
    exact ⟨(k, b), mem_newEntries_iff.mpr ⟨(endpointsOf_snapshot h').mpr ⟨kind, hkind, hdevice⟩,
      (hnone k).mpr hold⟩, rfl⟩

/-- The paths whose ids are new are reported, if no path is gone. -/
lemma mem_pathChanged_iff (h : rt.StoredById) (h' : rt'.StoredById)
    (hkept : ∀ id, id ∈ rt.paths → id ∈ rt'.paths) {id : PathId} :
    id ∈ (snapshotDiff rt.snapshot rt'.snapshot).pathChanged ↔ id ∉ rt.paths ∧ id ∈ rt'.paths := by
  have hkeys : ∀ {s : Runtime}, s.StoredById → ∀ id, id ∈ pathIdsOf s.snapshot ↔ id ∈ s.paths := by
    intro s hs id
    rw [← pathIdsOf_snapshot hs, ExtTreeMap.mem_iff_isSome_getElem?, Option.isSome_iff_exists]
    exact ⟨fun ⟨u, hu⟩ => hu, fun hu => ⟨(), hu⟩⟩
  have hgone : newEntries (pathIdsOf rt'.snapshot) (pathIdsOf rt.snapshot) = [] :=
    newEntries_eq_nil_iff.mpr fun id hid => (hkeys h' id).mpr (hkept id ((hkeys h id).mp hid))
  rw [snapshotDiff, hgone, List.map_nil, List.append_nil, List.mem_map]
  constructor
  · rintro ⟨⟨id, u⟩, hmem, rfl⟩
    obtain ⟨hnew, hold⟩ := mem_newEntries_iff.mp hmem
    refine ⟨fun hid => ?_, (pathIdsOf_snapshot h').mp hnew⟩
    rw [(pathIdsOf_snapshot h).mpr hid] at hold
    cases hold
  · rintro ⟨hnot, hid⟩
    refine ⟨(id, ()), mem_newEntries_iff.mpr ⟨(pathIdsOf_snapshot h').mpr hid, ?_⟩, rfl⟩
    exact ExtTreeMap.getElem?_eq_none fun hmem => hnot ((hkeys h id).mp hmem)

/-- **The difference of two snapshots** reports the calls between them, exactly, in every run
in which the hierarchy is not discovered or loaded anew between the two. -/
theorem changes_reported (events : List RuntimeEvent) (calls : List RuntimeCall)
    (hcalls : ∀ c ∈ calls, c.rediscovers = false) :
    (run react {} events).ReportsChanges calls
      (snapshotDiff (run react {} events).snapshot
        (run step (run react {} events) calls).snapshot) := by
  have h := orderly_run events
  have hstored := storedById_run events
  generalize run react {} events = rt at h hstored
  have h' : Orderly (run step rt calls).topology :=
    run_invariant_mem (I := fun s => Orderly s.topology) step (fun _ _ hs hc => hs.step hc) h hcalls
  have hstored' : (run step rt calls).StoredById :=
    run_invariant step (fun _ c hs => hs.react (.call c)) hstored calls
  have hdevice : ∀ k x, (rt.topology.nodes[k]?).map device = some x →
      ((run step rt calls).topology.nodes[k]?).map device = some x :=
    fun k x hx => (device_run_iff rt hcalls).mpr (.inl hx)
  have hdisappeared : (snapshotDiff rt.snapshot (run step rt calls).snapshot).endpointsDisappeared =
      [] := by
    rw [snapshotDiff, List.map_eq_nil_iff, newEntries_eq_nil_iff]
    intro k hk
    rw [ExtTreeMap.mem_iff_isSome_getElem?, Option.isSome_iff_exists] at hk ⊢
    obtain ⟨b, hb⟩ := hk
    obtain ⟨kind, hkind, hx⟩ := (endpointsOf_snapshot h).mp hb
    exact ⟨b, (endpointsOf_snapshot h').mpr ⟨kind, hkind, hdevice k _ hx⟩⟩
  refine ⟨hdisappeared, fun b => ?_, fun k => ?_, fun id => ?_, ?_⟩
  · rw [mem_appeared_iff h h']
    constructor
    · rintro ⟨k, kind, hkind, hnew, hold⟩
      rcases (device_run_iff rt hcalls).mp hnew with hbefore | ⟨pre, c, hpre, hadds⟩
      · exact absurd hbefore (hold b kind hkind)
      · exact ⟨pre, c, hpre, k, kind, hkind, hadds⟩
    · rintro ⟨pre, c, hpre, k, kind, hkind, hadds⟩
      refine ⟨k, kind, hkind, (device_run_iff rt hcalls).mpr (.inr ⟨pre, c, hpre, hadds⟩), ?_⟩
      -- the id was free when the node was added, so it was free before the run
      intro b' kind' _ hold
      have hpast : ∀ d ∈ pre, d.rediscovers = false := fun d hd =>
        hcalls d (hpre.subset (List.mem_append_left _ hd))
      have hthen := (device_run_iff rt hpast).mpr (.inl hold)
      rw [ExtTreeMap.getElem?_eq_none hadds.2.1] at hthen
      cases hthen
  · rw [snapshotDiff, mem_changedKeys_iff]
    constructor
    · rintro ⟨v, w, hold, hnew, hne⟩
      obtain ⟨b, hlive⟩ := (generationsOf_snapshot h).mp hold
      obtain ⟨b', hlive'⟩ := (generationsOf_snapshot h').mp hnew
      rw [(live_run h hcalls hlive).2] at hlive'
      obtain ⟨-, hgen⟩ := Prod.mk.inj (Option.some.inj hlive')
      obtain ⟨n, hn, hremoved, hbdf, -⟩ := Topology.live_eq_some_iff.mp hlive
      refine ⟨b, ⟨n, hn, hremoved, hbdf⟩, fun hdvd => hne ?_⟩
      exact (((add_ofNat_eq_iff v _).mpr hdvd).symm.trans (congrArg Generation.value hgen))
    · rintro ⟨b, ⟨n, hn, hremoved, hbdf⟩, hdvd⟩
      have hlive : rt.topology.live k = some (b, ⟨n.generation.value⟩) :=
        Topology.live_eq_some_iff.mpr ⟨n, hn, hremoved, hbdf, rfl⟩
      refine ⟨_, _, (generationsOf_snapshot h).mpr ⟨b, hlive⟩,
        (generationsOf_snapshot h').mpr ⟨b, (live_run h hcalls hlive).2⟩, fun heq => hdvd ?_⟩
      exact (add_ofNat_eq_iff _ _).mp heq.symm
  · rw [mem_pathChanged_iff hstored hstored' fun id hid =>
      (mem_paths_run_iff rt calls id).mpr (.inl hid), mem_paths_run_iff]
    exact and_congr_right fun hnot => or_iff_right hnot
  · rw [snapshotDiff_empty_iff]
    exact and_congr_right fun _ => and_iff_right hdisappeared

/-- A port and two cards, then another card and a new generation of the first one. -/
theorem fourth_device_reported :
    let add (id : UInt64) (bus : UInt8) (kind : DeviceClass) : RuntimeCall :=
      .addEndpoint ⟨id⟩ { bus } kind ⟨1⟩ Provenance.reported ⟨1⟩
    let events : List RuntimeEvent :=
      [.call (add 1 0 .rootComplex), .call (add 2 1 .accelerator), .call (add 3 2 .nic),
        .call .buildPaths]
    let calls := [add 4 3 .storage, add 5 1 .accelerator, .buildPaths]
    (run react {} events).ReportsChanges calls
      (snapshotDiff (run react {} events).snapshot
        (run step (run react {} events) calls).snapshot) := by
  intro add events calls
  exact changes_reported events calls (by decide)

end Runtime

end PcieFabric
