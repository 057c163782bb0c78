import PcieFabric.Topology.DiscoveredParents
import PcieFabric.Topology.Enumeration

/-!
The discovered hierarchy against the host's own (`build_topology_from_windows`).

* `Sorts`: what `std::sort` promises of the devices.
* `Describes`: a device that the topology is built from, by what the host says of it.
* `Reported`, `discovery_reported`: every node and every parent link of the topology is one
  that the host reports.
* `Addressed`, `discovery_exact`: where the addresses tell the devices apart, the parent
  links are those that the host reports from a lower address.
-/

namespace PcieFabric

open Std

namespace Discovery

/-- What `std::sort` returns: the same devices, in the order of their addresses. Devices of
one address may come in any order. -/
structure Sorts (sort : List FoundDevice → List FoundDevice) : Prop where
  perm : ∀ l, (sort l).Perm l
  sorted : ∀ l, (sort l).Pairwise fun a b => b.bdf.before a.bdf = false

/-! ### The devices that are found -/

/-- What the first pass keeps of a device. -/
lemma HostDevice.found_eq_some {h : HostDevice} {d : FoundDevice} (hd : h.found = some d) :
    d.inst = h.inst ∧ d.bdf = h.bdf ∧ h.kind = some d.kind ∧ d.parentBdf = none ∧
      (if d.isBridge then DeviceClass.bridge else d.kind) = d.kind := by
  rw [found] at hd
  cases hkind : h.kind with
  | none =>
      rw [hkind] at hd
      cases hd
  | some kind =>
      rw [hkind] at hd
      obtain rfl := Option.some.inj hd
      refine ⟨rfl, rfl, rfl, rfl, ?_⟩
      show (if (kind == DeviceClass.bridge) = true then DeviceClass.bridge else kind) = kind
      split
      next hbridge => exact (beq_iff_eq.mp hbridge).symm
      next => rfl

namespace Host

variable {host : Host} {found : List FoundDevice}

/-- The devices of the first pass are those on the bus, one by one. -/
lemma forall₂_of_mapM {hs : List HostDevice} (h : hs.mapM HostDevice.found = some found) :
    List.Forall₂ (fun h d => h.found = some d) hs found := by
  induction hs generalizing found with
  | nil =>
      obtain rfl := Option.some.inj h
      exact .nil
  | cons a hs ih =>
      rw [List.mapM_cons, Option.bind_eq_bind, Option.bind_eq_some_iff] at h
      obtain ⟨d, hd, hrest⟩ := h
      rw [Option.bind_eq_bind, Option.bind_eq_some_iff] at hrest
      obtain ⟨ds, hds, heq⟩ := hrest
      obtain rfl := Option.some.inj heq
      exact .cons hd (ih hds)

/-- Every device of the first pass is one of the host. -/
lemma exists_of_mem_found {hs : List HostDevice}
    (h : List.Forall₂ (fun h d => h.found = some d) hs found) {d : FoundDevice} (hd : d ∈ found) :
    ∃ h ∈ hs, h.found = some d := by
  induction h with
  | nil => cases hd
  | @cons a d' hs ds ha _ ih =>
      rcases List.mem_cons.mp hd with rfl | hd
      · exact ⟨a, List.mem_cons_self, ha⟩
      · obtain ⟨h, hmem, heq⟩ := ih hd
        exact ⟨h, List.mem_cons_of_mem a hmem, heq⟩

/-- Every device of the host passes the first pass. -/
lemma exists_found_of_mem {hs : List HostDevice}
    (h : List.Forall₂ (fun h d => h.found = some d) hs found) {g : HostDevice} (hg : g ∈ hs) :
    ∃ d ∈ found, g.found = some d := by
  induction h with
  | nil => cases hg
  | @cons a d hs ds ha _ ih =>
      rcases List.mem_cons.mp hg with rfl | hg
      · exact ⟨d, List.mem_cons_self, ha⟩
      · obtain ⟨d', hmem, heq⟩ := ih hg
        exact ⟨d', List.mem_cons_of_mem d hmem, heq⟩

/-- Devices with classes pass the first pass. -/
lemma exists_found {hs : List HostDevice} (hkind : ∀ h ∈ hs, h.kind.isSome) :
    ∃ found, hs.mapM HostDevice.found = some found := by
  induction hs with
  | nil => exact ⟨[], rfl⟩
  | cons a hs ih =>
      rw [List.forall_mem_cons] at hkind
      obtain ⟨found, hfound⟩ := ih hkind.2
      obtain ⟨kind, hk⟩ := Option.isSome_iff_exists.mp hkind.1
      have ha : ∃ d, a.found = some d := ⟨_, by rw [HostDevice.found, hk]; rfl⟩
      obtain ⟨d, hd⟩ := ha
      exact ⟨d :: found, by rw [List.mapM_cons, hd, hfound]; rfl⟩

/-- An address of a handle is that of a device with the handle. -/
lemma exists_of_addressOf {inst : UInt32} {b : Bdf} (h : addressOf found inst = some b) :
    ∃ d ∈ found, d.inst = inst ∧ d.bdf = b := by
  obtain ⟨d, hfind, hb⟩ := Option.map_eq_some_iff.mp h
  have hinst := List.find?_some hfind
  exact ⟨d, List.mem_reverse.mp (List.mem_of_find?_eq_some hfind), beq_iff_eq.mp hinst, hb⟩

/-- The device is what the two passes make of one of the host's. -/
structure Describes (host : Host) (h : HostDevice) (d : RawPciDevice) : Prop where
  mem : h ∈ host.pciDevices
  bdf : d.bdf = h.bdf
  kind : h.kind = some (if d.isBridge then DeviceClass.bridge else d.kind)
  parent : ∀ q, d.parentBdf = some q →
    ∃ h' ∈ host.pciDevices, host.parent h.inst = some h'.inst ∧ h'.bdf = q

/-- The second pass adds a parent that the host reports. -/
lemma describes_resolve (hfound : host.pciDevices.mapM HostDevice.found = some found)
    {h : HostDevice} (hmem : h ∈ host.pciDevices) {d : FoundDevice} (hd : h.found = some d) :
    host.Describes h (host.resolve found d).toRawPciDevice := by
  obtain ⟨hinst, hbdf, hkind, hnone, hbridge⟩ := HostDevice.found_eq_some hd
  rw [resolve, hinst]
  have hplain : host.Describes h d.toRawPciDevice :=
    ⟨hmem, hbdf, by rw [hkind, hbridge], fun q hq => by rw [hnone] at hq; cases hq⟩
  cases hparent : host.parent h.inst with
  | none => exact hplain
  | some inst =>
      dsimp only
      split
      · exact hplain
      · cases haddress : addressOf found inst with
        | none => exact hplain
        | some b =>
            refine ⟨hmem, hbdf, hplain.kind, fun q hq => ?_⟩
            obtain rfl : b = q := Option.some.inj hq
            obtain ⟨d', hd', hinst', hb⟩ := exists_of_addressOf haddress
            obtain ⟨h', hmem', hfound'⟩ := exists_of_mem_found (forall₂_of_mapM hfound) hd'
            obtain ⟨hi, hb', -⟩ := HostDevice.found_eq_some hfound'
            exact ⟨h', hmem', by rw [hparent, ← hi, hinst'], by rw [← hb', hb]⟩

/-- The devices that the topology is built from. -/
def raw (sort : List FoundDevice → List FoundDevice) (host : Host) (found : List FoundDevice) :
    List RawPciDevice :=
  (sort (found.map (host.resolve found))).map FoundDevice.toRawPciDevice

/-- A topology is built from the devices of the first pass. -/
lemma exists_raw_of_build {sort : List FoundDevice → List FoundDevice} {t : Topology}
    (h : host.buildTopologyFromWindows sort = some (.ok t)) :
    ∃ found, host.pciDevices.mapM HostDevice.found = some found ∧
      t = ((host.raw sort found).foldl Build.add {}).topo := by
  rw [buildTopologyFromWindows, Option.bind_eq_bind, Option.bind_eq_some_iff] at h
  obtain ⟨devices, henum, hbuild⟩ := h
  rw [enumeratePciDevices] at henum
  cases hdevices : host.devices with
  | none =>
      rw [hdevices] at henum
      obtain rfl := Option.some.inj henum
      cases Option.some.inj hbuild
  | some ds =>
      rw [hdevices] at henum
      dsimp only at henum
      rw [Option.bind_eq_bind, Option.bind_eq_some_iff] at henum
      obtain ⟨found, hfound, hok⟩ := henum
      obtain rfl := Option.some.inj hok
      exact ⟨found, hfound, (Except.ok.inj (Option.some.inj hbuild)).symm⟩

/-- It is built where the first pass goes through. -/
lemma build_eq_some {sort : List FoundDevice → List FoundDevice} (hlisted : host.devices.isSome)
    (hfound : host.pciDevices.mapM HostDevice.found = some found) :
    host.buildTopologyFromWindows sort =
      some (.ok ((host.raw sort found).foldl Build.add {}).topo) := by
  obtain ⟨ds, hds⟩ := Option.isSome_iff_exists.mp hlisted
  rw [buildTopologyFromWindows, enumeratePciDevices, hds]
  dsimp only
  rw [hfound]
  rfl

/-- Each of them is described by a device of the host. -/
lemma exists_describes {sort : List FoundDevice → List FoundDevice} (hsort : Sorts sort)
    (hfound : host.pciDevices.mapM HostDevice.found = some found) {d : RawPciDevice}
    (hd : d ∈ host.raw sort found) : ∃ h, host.Describes h d := by
  obtain ⟨d', hd', rfl⟩ := List.mem_map.mp hd
  obtain ⟨d'', hd'', rfl⟩ := List.mem_map.mp ((hsort.perm _).mem_iff.mp hd')
  obtain ⟨h, hmem, hh⟩ := exists_of_mem_found (forall₂_of_mapM hfound) hd''
  exact ⟨h, describes_resolve hfound hmem hh⟩

/-- There are no more of them than the host can list. -/
lemma length_raw_lt {sort : List FoundDevice → List FoundDevice} (hsort : Sorts sort)
    (hfound : host.pciDevices.mapM HostDevice.found = some found) :
    (host.raw sort found).length < 2 ^ 64 := by
  rw [raw, List.length_map, (hsort.perm _).length_eq, List.length_map,
    ← (forall₂_of_mapM hfound).length_eq]
  have hindexed := host.indexed
  have hle : host.pciDevices.length ≤ (host.devices.getD []).length := List.length_filter_le _ _
  omega

end Host

/-! ### The nodes -/

/-- What a node keeps of its device. -/
def nodeFields (n : Node) : Bdf × DeviceClass × Provenance × Bool :=
  (n.bdf, n.kind, n.provenance, n.removed)

/-- An `add_endpoint` leaves what the nodes keep of their devices, and adds at most what it
was given. -/
lemma nodeFields_addEndpoint {t : Topology} {id k : PciNodeId} {b : Bdf} {kind : DeviceClass}
    {gen : PciNodeGeneration} {src : Provenance} {parent : PciNodeId}
    {x : Bdf × DeviceClass × Provenance × Bool}
    (h : ((t.addEndpoint id b kind gen src parent).2.nodes[k]?).map nodeFields = some x) :
    (t.nodes[k]?).map nodeFields = some x ∨ x = (b, kind, src, false) := by
  rcases Topology.map_addEndpoint nodeFields (fun _ _ _ _ _ => rfl) t id b kind gen src parent with
    ⟨k', -, hstep⟩ | ⟨-, -, hstep⟩ | ⟨-, -, hstep⟩
  · rw [hstep] at h
    refine .inl (Eq.trans ?_ h)
    congr 1
    funext n
    split <;> rfl
  · rw [hstep] at h
    exact .inl h
  · rw [hstep] at h
    split_ifs at h
    · exact .inr (Option.some.inj h).symm
    · exact .inl h

/-- The topology after a round for a device at a valid address. -/
lemma Build.topo_add (s : Build) {d : RawPciDevice} (h : d.bdf.valid = true) :
    (s.add d).topo = (s.topo.addEndpoint ⟨s.next⟩ d.bdf
      (if d.isBridge then DeviceClass.bridge else d.kind) ⟨1⟩ Provenance.reported
      (s.parentOf d)).2 := by
  rw [Build.add, h]
  dsimp only
  rcases s.topo.addEndpoint ⟨s.next⟩ d.bdf (if d.isBridge then DeviceClass.bridge else d.kind) ⟨1⟩
    Provenance.reported (s.parentOf d) with ⟨_ | _, t⟩ <;> rfl

/-- Every node comes from a device at a valid address. -/
lemma exists_device_of_node (ds : List RawPciDevice) {k : PciNodeId}
    {x : Bdf × DeviceClass × Provenance × Bool}
    (h : (((ds.foldl Build.add {}).topo).nodes[k]?).map nodeFields = some x) :
    ∃ d ∈ ds, d.bdf.valid = true ∧ x = (d.bdf,
      if d.isBridge then DeviceClass.bridge else d.kind, Provenance.reported, false) := by
  induction ds using List.reverseRecOn with
  | nil =>
      have hempty : ({} : Build).topo.nodes[k]? = none := ExtTreeMap.getElem?_empty
      rw [List.foldl_nil, hempty] at h
      cases h
  | append_singleton ds d ih =>
      have hold : (((ds.foldl Build.add {}).topo).nodes[k]?).map nodeFields = some x →
          ∃ d' ∈ ds ++ [d], d'.bdf.valid = true ∧ x = (d'.bdf,
            if d'.isBridge then DeviceClass.bridge else d'.kind, Provenance.reported, false) := by
        intro hx
        obtain ⟨d', hd', hrest⟩ := ih hx
        exact ⟨d', List.mem_append_left _ hd', hrest⟩
      rw [List.foldl_append, List.foldl_cons, List.foldl_nil] at h
      cases hvalid : d.bdf.valid with
      | false =>
          rw [Build.add, hvalid] at h
          exact hold h
      | true =>
          rw [Build.topo_add _ hvalid] at h
          rcases nodeFields_addEndpoint h with hx | rfl
          · exact hold hx
          · exact ⟨d, List.mem_append_right _ List.mem_cons_self, hvalid, rfl⟩

/-! ### What is reported -/

/-- Nothing in the topology is made up. Every node is at the valid address of a device that
the host reports on the PCI bus, with its class; every parent link joins the nodes of two such
devices, of which the host reports the one as the parent of the other. -/
structure Reported (host : Host) (t : Topology) : Prop where
  nodes : ∀ (k : PciNodeId) n, t.nodes[k]? = some n → ∃ h ∈ host.pciDevices, h.bdf = n.bdf ∧
    h.bdf.valid = true ∧ h.kind = some n.kind ∧ n.provenance = Provenance.reported ∧
    n.removed = false
  links : ∀ k p, t.parentOf k = some p → ∃ h ∈ host.pciDevices, ∃ h' ∈ host.pciDevices,
    t.findByBdf h.bdf = some k ∧ t.findByBdf h'.bdf = some p ∧
      host.parent h.inst = some h'.inst

/-- The parent link of a node follows the parent address of a device there. -/
lemma exists_device_of_link {ds : List RawPciDevice} (hlen : ds.length < 2 ^ 64) {k p : PciNodeId}
    (h : (ds.foldl Build.add {}).topo.parentOf k = some p) :
    ∃ d ∈ ds, ∃ q, d.parentBdf = some q ∧
      (ds.foldl Build.add {}).topo.findByBdf d.bdf = some k ∧
      (ds.foldl Build.add {}).topo.findByBdf q = some p := by
  have hrun := realizes_placement hlen
  have hk : k ∈ (ds.foldl Build.add {}).topo.nodes := by
    by_contra hnone
    rw [Topology.parentOf, ExtTreeMap.getElem?_eq_none hnone] at h
    cases h
  obtain ⟨b, hb⟩ := hrun.nodes.mem_iff.mp hk
  rw [hrun.parents b k hb, Option.bind_eq_some_iff] at h
  obtain ⟨q, hq, hp⟩ := h
  obtain ⟨pre, d, post, rfl, rfl, -, hfollows⟩ := parent_placement_eq_some hq
  exact ⟨d, by simp, q, (Placement.follows_eq_some_iff.mp hfollows).1,
    (hrun.nodes.findByBdf _).trans hb, (hrun.nodes.findByBdf q).trans hp⟩

/-- **Discovery makes nothing up**, whatever the host says of its devices. -/
theorem discovery_reported {sort : List FoundDevice → List FoundDevice} (hsort : Sorts sort)
    (host : Host) {t : Topology} (h : host.buildTopologyFromWindows sort = some (.ok t)) :
    Reported host t := by
  obtain ⟨found, hfound, rfl⟩ := Host.exists_raw_of_build h
  constructor
  · intro k n hn
    obtain ⟨d, hd, hvalid, hx⟩ := exists_device_of_node (host.raw sort found) (x := nodeFields n)
      (by rw [hn, Option.map_some])
    obtain ⟨h, hdesc⟩ := Host.exists_describes hsort hfound hd
    obtain ⟨hbdf, hkind, hsrc, hremoved⟩ : n.bdf = d.bdf ∧
        n.kind = (if d.isBridge then DeviceClass.bridge else d.kind) ∧
        n.provenance = Provenance.reported ∧ n.removed = false := by
      simpa only [nodeFields, Prod.mk.injEq] using hx
    exact ⟨h, hdesc.mem, by rw [hbdf, hdesc.bdf], by rw [← hdesc.bdf, hvalid],
      by rw [hdesc.kind, hkind], hsrc, hremoved⟩
  · intro k p hlink
    obtain ⟨d, hd, q, hq, hk, hp⟩ :=
      exists_device_of_link (Host.length_raw_lt hsort hfound) hlink
    obtain ⟨h, hdesc⟩ := Host.exists_describes hsort hfound hd
    obtain ⟨h', hmem', hparent, rfl⟩ := hdesc.parent q hq
    exact ⟨h, hdesc.mem, h', hmem', by rw [← hdesc.bdf, hk], hp, hparent⟩

/-- The merge sort of the standard library. -/
def sortFound (l : List FoundDevice) : List FoundDevice :=
  l.mergeSort fun a b => !b.bdf.before a.bdf

/-- It does what `std::sort` promises. -/
lemma sorts_sortFound : Sorts sortFound := by
  refine ⟨fun l => List.mergeSort_perm l _, fun l => ?_⟩
  have hsorted : (sortFound l).Pairwise fun a b => !b.bdf.before a.bdf := by
    refine List.pairwise_mergeSort (fun a b c hab hbc => ?_) (fun a b => ?_) l
    · rw [Bool.not_eq_true'] at hab hbc ⊢
      exact Bdf.before_eq_false_trans hab hbc
    · rw [Bool.or_eq_true, Bool.not_eq_true', Bool.not_eq_true']
      exact Bdf.before_eq_false_total a.bdf b.bdf
  exact hsorted.imp fun hle => Bool.not_eq_true' _ ▸ hle

/-- A bridge and a card behind it. -/
def bridgedCard : Host where
  devices := some
    [{ inst := 7, location := ascii "PCI bus 1, device 0, function 0",
       hardwareId := ascii "PCI\\VEN_10DE&DEV_2701&SUBSYS_86931043&REV_A1&CC_030000" },
     { inst := 3, location := ascii "PCI bus 0, device 1, function 0",
       hardwareId := ascii "PCI\\VEN_8086&DEV_1901&SUBSYS_86941043&REV_07&CC_060400" }]
  parent inst := if inst = 7 then some 3 else none
  indexed := by decide

/-- Nothing is made up there. -/
theorem bridgedCard_reported : ∃ t,
    bridgedCard.buildTopologyFromWindows sortFound = some (.ok t) ∧ Reported bridgedCard t := by
  have hkind : ∀ h ∈ bridgedCard.pciDevices, h.kind.isSome := by decide +kernel
  obtain ⟨found, hfound⟩ := Host.exists_found hkind
  have hbuild := @Host.build_eq_some bridgedCard found sortFound rfl hfound
  exact ⟨_, hbuild, discovery_reported sorts_sortFound bridgedCard hbuild⟩

/-! ### Devices with addresses of their own -/

/-- The devices on the bus are told apart: by their handles, none of which is zero, and by
their addresses, which are valid. Each has a class. -/
structure Host.Addressed (host : Host) : Prop where
  handles : (host.pciDevices.map HostDevice.inst).Nodup
  nonzero : ∀ h ∈ host.pciDevices, h.inst ≠ 0
  addresses : (host.pciDevices.map HostDevice.bdf).Nodup
  valid : ∀ h ∈ host.pciDevices, h.bdf.valid = true
  classified : ∀ h ∈ host.pciDevices, h.kind.isSome

namespace Host

variable {host : Host} {found : List FoundDevice} {sort : List FoundDevice → List FoundDevice}
  {h h' : HostDevice}

/-- A value that the first pass keeps is the same in both lists. -/
lemma map_found {α : Type} {hs : List HostDevice} {f : FoundDevice → α} {g : HostDevice → α}
    (hfound : List.Forall₂ (fun h d => h.found = some d) hs found)
    (hkeep : ∀ h d, h.found = some d → f d = g h) : found.map f = hs.map g := by
  induction hfound with
  | nil => rfl
  | cons hd _ ih => rw [List.map_cons, List.map_cons, hkeep _ _ hd, ih]

/-- The addresses that the topology is built from are those of the host's devices. -/
lemma map_bdf_raw (hsort : Sorts sort)
    (hfound : host.pciDevices.mapM HostDevice.found = some found) :
    ((host.raw sort found).map RawPciDevice.bdf).Perm (host.pciDevices.map HostDevice.bdf) := by
  have hresolve : ∀ d, (host.resolve found d).bdf = d.bdf := by
    intro d
    rw [resolve]
    split
    · rfl
    · split
      · rfl
      · split <;> rfl
  have hkeep := map_found (f := fun d => d.bdf) (g := HostDevice.bdf) (forall₂_of_mapM hfound)
    fun h d hd => (HostDevice.found_eq_some hd).2.1
  rw [raw, List.map_map, ← hkeep]
  refine ((hsort.perm _).map _).trans (List.Perm.of_eq ?_)
  rw [List.map_map]
  exact List.map_congr_left fun d _ => hresolve d

/-- A handle of a device leads to its address. -/
lemma addressOf_eq_some (ha : host.Addressed)
    (hfound : host.pciDevices.mapM HostDevice.found = some found) {d : FoundDevice}
    (hd : d ∈ found) : addressOf found d.inst = some d.bdf := by
  have hkeep := map_found (f := fun d => d.inst) (g := HostDevice.inst) (forall₂_of_mapM hfound)
    fun h d hd => (HostDevice.found_eq_some hd).1
  have hnodup : (found.map fun d => d.inst).Nodup := hkeep ▸ ha.handles
  have hsome : (found.reverse.find? fun e => e.inst == d.inst).isSome :=
    List.find?_isSome.mpr ⟨d, List.mem_reverse.mpr hd, beq_self_eq_true _⟩
  obtain ⟨e, he⟩ := Option.isSome_iff_exists.mp hsome
  have hinst := List.find?_some he
  obtain rfl := List.inj_on_of_nodup_map hnodup (List.mem_reverse.mp (List.mem_of_find?_eq_some he))
    hd (beq_iff_eq.mp hinst)
  rw [addressOf, he]
  rfl

/-- Each device of the host is among those that the topology is built from, with the address
of the parent that the host reports. -/
lemma exists_raw (hsort : Sorts sort) (ha : host.Addressed)
    (hfound : host.pciDevices.mapM HostDevice.found = some found) (hmem : h ∈ host.pciDevices)
    (hmem' : h' ∈ host.pciDevices) (hparent : host.parent h.inst = some h'.inst) :
    ∃ d ∈ host.raw sort found, d.bdf = h.bdf ∧ d.parentBdf = some h'.bdf := by
  obtain ⟨d, hd, hh⟩ := exists_found_of_mem (forall₂_of_mapM hfound) hmem
  obtain ⟨d', hd', hh'⟩ := exists_found_of_mem (forall₂_of_mapM hfound) hmem'
  obtain ⟨hinst, hbdf, -⟩ := HostDevice.found_eq_some hh
  obtain ⟨hinst', hbdf', -⟩ := HostDevice.found_eq_some hh'
  refine ⟨(host.resolve found d).toRawPciDevice,
    List.mem_map_of_mem ((hsort.perm _).mem_iff.mpr (List.mem_map_of_mem hd)), ?_⟩
  have haddress := addressOf_eq_some ha hfound hd'
  rw [hinst'] at haddress
  rw [resolve, hinst, hparent]
  dsimp only
  rw [if_neg (ha.nonzero h' hmem'), haddress]
  exact ⟨hbdf, congrArg some hbdf'⟩

/-- The devices that the topology is built from, in order. -/
def deviceList (hsort : Sorts sort) (hfound : host.pciDevices.mapM HostDevice.found = some found) :
    DeviceList where
  devices := host.raw sort found
  sorted := List.pairwise_map.mpr (hsort.sorted _)
  size := length_raw_lt hsort hfound

/-- No two of them are at one address. -/
lemma nodup_raw (hsort : Sorts sort) (ha : host.Addressed)
    (hfound : host.pciDevices.mapM HostDevice.found = some found) :
    ((host.raw sort found).map RawPciDevice.bdf).Nodup :=
  (map_bdf_raw hsort hfound).nodup_iff.mpr ha.addresses

/-- A device with a parent at a lower address stands behind it. -/
lemma exists_parentBefore (hsort : Sorts sort) (ha : host.Addressed)
    (hfound : host.pciDevices.mapM HostDevice.found = some found) (hmem : h ∈ host.pciDevices)
    (hmem' : h' ∈ host.pciDevices) (hparent : host.parent h.inst = some h'.inst)
    (hlower : h'.bdf.before h.bdf = true) :
    ∃ pre d post, host.raw sort found = pre ++ d :: post ∧ d.bdf = h.bdf ∧
      ParentBefore pre d h'.bdf := by
  obtain ⟨d, hd, hbdf, hnamed⟩ := exists_raw hsort ha hfound hmem hmem' hparent
  obtain ⟨pre, post, hsplit⟩ := List.append_of_mem hd
  have hother : h'.bdf ≠ d.bdf := by rw [hbdf]; exact Bdf.ne_of_before hlower
  refine ⟨pre, d, post, hsplit, hbdf, hnamed, hbdf ▸ ha.valid h hmem, hother, ha.valid h' hmem', ?_⟩
  have hsome : h'.bdf ∈ (host.raw sort found).map RawPciDevice.bdf :=
    (map_bdf_raw hsort hfound).mem_iff.mpr (List.mem_map_of_mem hmem')
  have hsorted := (deviceList hsort hfound).sorted
  rw [show (deviceList hsort hfound).devices = pre ++ d :: post from hsplit,
    List.pairwise_append, List.pairwise_cons] at hsorted
  rw [hsplit, List.map_append, List.mem_append, List.map_cons] at hsome
  -- behind the device there is no lower address
  refine hsome.resolve_right fun hback => ?_
  rcases List.mem_cons.mp hback with heq | hback
  · exact hother heq
  · obtain ⟨e, he, heq⟩ := List.mem_map.mp hback
    have hge := hsorted.2.1.1 e he
    rw [heq, hbdf, hlower] at hge
    cases hge

/-- A parent that the placement gives is reported, and at a lower address. -/
lemma parent_of_placement (hsort : Sorts sort) (ha : host.Addressed)
    (hfound : host.pciDevices.mapM HostDevice.found = some found) (hmem : h ∈ host.pciDevices)
    (hmem' : h' ∈ host.pciDevices)
    (hplaced : (placement (host.raw sort found)).parent h.bdf = some h'.bdf) :
    host.parent h.inst = some h'.inst ∧ h'.bdf.before h.bdf = true := by
  obtain ⟨pre, d, post, hsplit, hbdf, hvalid, hfollows⟩ := parent_placement_eq_some hplaced
  have hbefore := parentBefore_of_follows hvalid hfollows
  have hd : d ∈ host.raw sort found := by rw [hsplit]; simp
  obtain ⟨g, hdesc⟩ := exists_describes hsort hfound hd
  obtain ⟨g', hg', hparent, hbdf'⟩ := hdesc.parent h'.bdf hbefore.named
  obtain rfl := List.inj_on_of_nodup_map ha.addresses hdesc.mem hmem (hdesc.bdf.symm.trans hbdf)
  obtain rfl := List.inj_on_of_nodup_map ha.addresses hg' hmem' hbdf'
  refine ⟨hparent, ?_⟩
  obtain ⟨e, he, hebdf⟩ := List.mem_map.mp hbefore.earlier
  have hsorted := (deviceList hsort hfound).sorted
  rw [show (deviceList hsort hfound).devices = pre ++ d :: post from hsplit,
    List.pairwise_append] at hsorted
  have hle := hsorted.2.2 e he d List.mem_cons_self
  have hother := hbefore.other
  rw [← hebdf, ← hbdf] at *
  by_contra hnot
  exact hother (Bdf.eq_of_before_eq_false (Bool.not_eq_true _ ▸ hnot) hle)

/-- A reported parent at a lower address is placed. -/
lemma placement_of_parent (hsort : Sorts sort) (ha : host.Addressed)
    (hfound : host.pciDevices.mapM HostDevice.found = some found) (hmem : h ∈ host.pciDevices)
    (hmem' : h' ∈ host.pciDevices) (hparent : host.parent h.inst = some h'.inst)
    (hlower : h'.bdf.before h.bdf = true) :
    (placement (host.raw sort found)).parent h.bdf = some h'.bdf := by
  obtain ⟨pre, d, post, hsplit, hbdf, hbefore⟩ :=
    exists_parentBefore hsort ha hfound hmem hmem' hparent hlower
  have hnodup := nodup_raw hsort ha hfound
  have honce : ((host.raw sort found).map RawPciDevice.bdf).count h'.bdf = 1 :=
    List.count_eq_one_of_mem hnodup
      ((map_bdf_raw hsort hfound).mem_iff.mpr (List.mem_map_of_mem hmem'))
  have hfollows := ((deviceList hsort hfound).follows_iff hsplit hbefore).mpr honce
  obtain ⟨q, hq⟩ := exists_parent_placement hbefore.valid hfollows post
  rw [← hsplit] at hq
  -- the device that the placement follows in the end is this one, as no other is at its address
  obtain ⟨pre', d', post', hsplit', hsame, -, hfollows'⟩ := parent_placement_eq_some hq
  obtain rfl : d' = d := List.inj_on_of_nodup_map hnodup (by rw [hsplit']; simp)
    (by rw [hsplit]; simp) hsame
  have hnamed' := (Placement.follows_eq_some_iff.mp hfollows').1
  rw [hbefore.named] at hnamed'
  rw [← hbdf, hq, hnamed']

end Host

/-- The topology is the host's hierarchy: each device on the bus has a node, and one node is
under another exactly if the host reports that device as its parent, and its address is the
lower one. -/
structure Mirrors (host : Host) (t : Topology) : Prop where
  nodes : ∀ h ∈ host.pciDevices, ∃ k, t.findByBdf h.bdf = some k
  links : ∀ h ∈ host.pciDevices, ∀ h' ∈ host.pciDevices, AttachedUnder t h.bdf h'.bdf ↔
    host.parent h.inst = some h'.inst ∧ h'.bdf.before h.bdf = true

/-- **Discovery is exact** on hosts that tell their devices apart, up to the order of the
addresses: the links to parents at higher addresses are left out. -/
theorem discovery_exact {sort : List FoundDevice → List FoundDevice} (hsort : Sorts sort)
    (host : Host) (hlisted : host.devices.isSome) (ha : host.Addressed) :
    ∃ t, host.buildTopologyFromWindows sort = some (.ok t) ∧ Mirrors host t := by
  obtain ⟨found, hfound⟩ := Host.exists_found ha.classified
  have hlen := Host.length_raw_lt hsort hfound
  have hrun := realizes_placement hlen
  have hseen : (placement (host.raw sort found)).seen.length < 2 ^ 64 := by
    rw [Placement.seen_placement, List.length_map]
    exact (List.length_filter_le _ _).trans_lt hlen
  refine ⟨_, Host.build_eq_some hlisted hfound, fun h hmem => ?_, fun h hmem h' hmem' => ?_⟩
  · obtain ⟨d, hd, hbdf⟩ := List.mem_map.mp ((Host.map_bdf_raw hsort hfound).mem_iff.mpr
      (List.mem_map_of_mem hmem))
    have hvalid : d.bdf.valid = true := by rw [hbdf]; exact ha.valid h hmem
    have hin : d.bdf ∈ (placement (host.raw sort found)).seen := by
      rw [Placement.seen_placement]
      exact List.mem_map_of_mem (List.mem_filter.mpr ⟨hd, hvalid⟩)
    obtain ⟨k, hk⟩ := exists_nodeAt hin
    exact ⟨k, (hrun.nodes.findByBdf h.bdf).trans (hbdf ▸ hk)⟩
  · rw [hrun.attachedUnder_iff (Placement.grounded_placement _) hseen]
    exact ⟨Host.parent_of_placement hsort ha hfound hmem hmem',
      fun hlink => Host.placement_of_parent hsort ha hfound hmem hmem' hlink.1 hlink.2⟩

lemma addressed_bridgedCard : bridgedCard.Addressed where
  handles := by decide +kernel
  nonzero := by decide +kernel
  addresses := by decide +kernel
  valid := by decide +kernel
  classified := by decide +kernel

/-- On the host with the bridge and the card. -/
theorem bridgedCard_mirrored : ∃ t,
    bridgedCard.buildTopologyFromWindows sortFound = some (.ok t) ∧ Mirrors bridgedCard t :=
  discovery_exact sorts_sortFound bridgedCard rfl addressed_bridgedCard

end Discovery

end PcieFabric
