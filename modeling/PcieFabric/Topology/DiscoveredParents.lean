import PcieFabric.Base.BdfOrder
import PcieFabric.Topology.Placement

/-!
Whether discovery attaches every device under its parent
(`build_topology_from_windows`).

* `DeviceList`: the device lists that the enumeration returns.
* `ParentBefore`: a device has its parent's address from the enumeration, and a
  device there comes earlier. `parent_placement_eq_some` and
  `exists_parent_placement` read off the loop which of these parents an address
  gets.
* `discovery_attaches_iff` settles when every device with such a parent ends up
  under it.
-/

namespace PcieFabric

namespace Discovery

/-- What `enumerate_pci_devices` returns: devices sorted by address, in a vector. -/
structure DeviceList where
  devices : List RawPciDevice
  sorted : devices.Pairwise fun a b => b.bdf.before a.bdf = false
  size : devices.length < 2 ^ 64

/-- The device is at a valid address, its parent at another one, and a device before
it is there. -/
structure ParentBefore (pre : List RawPciDevice) (d : RawPciDevice) (q : Bdf) : Prop where
  named : d.parentBdf = some q
  valid : d.bdf.valid = true
  other : q ≠ d.bdf
  parentValid : q.valid = true
  earlier : q ∈ pre.map RawPciDevice.bdf

/-- The node at the first address has the one at the second as its parent. -/
def AttachedUnder (t : Topology) (b q : Bdf) : Prop :=
  ∃ k p, t.findByBdf b = some k ∧ t.findByBdf q = some p ∧ t.parentOf k = some p

/-- Every device whose parent is before it is attached under it. -/
def AttachesAll (ds : List RawPciDevice) (t : Topology) : Prop :=
  ∀ pre d post q, ds = pre ++ d :: post → ParentBefore pre d q → AttachedUnder t d.bdf q

/-- The parents before their devices are told apart by their addresses: each of
these is the address of one device, and devices of one address have one parent. -/
structure ParentsDistinct (ds : List RawPciDevice) : Prop where
  once : ∀ pre d post q, ds = pre ++ d :: post → ParentBefore pre d q →
    (ds.map RawPciDevice.bdf).count q = 1
  agree : ∀ pre d post q pre' d' post' q', ds = pre ++ d :: post → ParentBefore pre d q →
    ds = pre' ++ d' :: post' → ParentBefore pre' d' q' → d.bdf = d'.bdf → q = q'

variable {ds pre post : List RawPciDevice} {d : RawPciDevice} {b q : Bdf}

/-! ### What the loop makes of the parents -/

/-- The parent address of an address is the one that some device there followed. -/
lemma parent_placement_eq_some (h : (placement ds).parent b = some q) :
    ∃ pre d post, ds = pre ++ d :: post ∧ d.bdf = b ∧ d.bdf.valid = true ∧
      (placement pre).follows d = some q := by
  induction ds using List.reverseRecOn with
  | nil => cases h
  | append_singleton ds d ih =>
      have hearlier : (placement ds).parent b = some q → ∃ pre e post,
          ds ++ [d] = pre ++ e :: post ∧ e.bdf = b ∧ e.bdf.valid = true ∧
            (placement pre).follows e = some q := by
        intro hold
        obtain ⟨pre, e, post, rfl, hrest⟩ := ih hold
        exact ⟨pre, e, post ++ [d], by simp, hrest⟩
      rw [Placement.placement_append_singleton] at h
      cases hvalid : d.bdf.valid with
      | false =>
          rw [Placement.add_of_invalid hvalid] at h
          exact hearlier h
      | true =>
          rw [Placement.add_of_valid hvalid] at h
          dsimp only at h
          rw [Function.update_apply] at h
          split_ifs at h with hb
          · subst hb
            rcases Option.or_eq_some_iff.mp h with hfollows | ⟨-, hold⟩
            · exact ⟨ds, d, [], rfl, rfl, hvalid, hfollows⟩
            · exact hearlier hold
          · exact hearlier h

/-- An address where some device followed one has a parent address in the end. -/
lemma exists_parent_placement (hvalid : d.bdf.valid = true)
    (hfollows : (placement pre).follows d = some q) (post : List RawPciDevice) :
    ∃ q', (placement (pre ++ d :: post)).parent d.bdf = some q' := by
  induction post using List.reverseRecOn with
  | nil =>
      refine ⟨q, ?_⟩
      rw [Placement.placement_append_singleton, Placement.add_of_valid hvalid]
      dsimp only
      rw [Function.update_self, hfollows, Option.some_or]
  | append_singleton post e ih =>
      obtain ⟨q', hq'⟩ := ih
      rw [← List.cons_append, ← List.append_assoc, Placement.placement_append_singleton]
      cases hvalid' : e.bdf.valid with
      | false => exact ⟨q', by rw [Placement.add_of_invalid hvalid', hq']⟩
      | true =>
          rw [Placement.add_of_valid hvalid']
          dsimp only
          rw [Function.update_apply]
          split_ifs with heq
          · rw [← heq, hq']
            cases (placement (pre ++ d :: post)).follows e with
            | none => exact ⟨q', rfl⟩
            | some q'' => exact ⟨q'', rfl⟩
          · exact ⟨q', hq'⟩

/-- A node is under another one exactly if the placement says so. -/
lemma Realizes.attachedUnder_iff {s : Build} {p : Placement} (h : Realizes s p)
    (hp : p.Grounded) (hlen : p.seen.length < 2 ^ 64) :
    AttachedUnder s.topo b q ↔ p.parent b = some q := by
  constructor
  · rintro ⟨k, x, hk, hx, hparent⟩
    rw [h.nodes.findByBdf] at hk hx
    rw [h.parents b k hk, Option.bind_eq_some_iff] at hparent
    obtain ⟨q', hq', hx'⟩ := hparent
    rw [hq', nodeAt_inj hlen hx' hx]
  · intro hparent
    obtain ⟨hb, hq⟩ := hp b q hparent
    obtain ⟨k, hk⟩ := exists_nodeAt hb
    obtain ⟨x, hx⟩ := exists_nodeAt hq
    refine ⟨k, x, (h.nodes.findByBdf b).trans hk, (h.nodes.findByBdf q).trans hx, ?_⟩
    rw [h.parents b k hk, hparent, Option.bind_some, hx]

/-! ### Sorted lists -/

/-- In a sorted list an address in front of a device, other than its own, does not
come again from it on. -/
lemma DeviceList.count_eq (l : DeviceList) (hsplit : l.devices = pre ++ d :: post)
    (hq : q ∈ pre.map RawPciDevice.bdf) (hne : q ≠ d.bdf) :
    (l.devices.map RawPciDevice.bdf).count q = (pre.map RawPciDevice.bdf).count q := by
  have hsorted := l.sorted
  rw [hsplit, List.pairwise_append, List.pairwise_cons] at hsorted
  obtain ⟨-, ⟨hpost, -⟩, hpre⟩ := hsorted
  obtain ⟨e, he, rfl⟩ := List.mem_map.mp hq
  have hnot : e.bdf ∉ (d :: post).map RawPciDevice.bdf := by
    rw [List.map_cons, List.mem_cons, not_or]
    refine ⟨hne, fun hmem => ?_⟩
    obtain ⟨e', he', heq⟩ := List.mem_map.mp hmem
    have hle := hpre e he d List.mem_cons_self
    have hge := hpost e' he'
    rw [heq] at hge
    exact hne (Bdf.eq_of_before_eq_false hge hle)
  rw [hsplit, List.map_append, List.count_append, List.count_eq_zero.mpr hnot, Nat.add_zero]

/-- A device follows the parent before it exactly if no other device is at the
parent's address. -/
lemma DeviceList.follows_iff (l : DeviceList) (hsplit : l.devices = pre ++ d :: post)
    (h : ParentBefore pre d q) : (placement pre).follows d = some q ↔
      (l.devices.map RawPciDevice.bdf).count q = 1 := by
  rw [Placement.follows_eq_some_iff, Placement.count_seen pre h.parentValid,
    l.count_eq hsplit h.earlier h.other, and_iff_right h.named, and_iff_right h.other]

/-- An address that a device follows is that of a parent before it. -/
lemma parentBefore_of_follows (hvalid : d.bdf.valid = true)
    (h : (placement pre).follows d = some q) : ParentBefore pre d q := by
  obtain ⟨hnamed, hother, hcount⟩ := Placement.follows_eq_some_iff.mp h
  have hseen : q ∈ (placement pre).seen := List.count_pos_iff.mp (by omega)
  rw [Placement.seen_placement] at hseen
  obtain ⟨e, he, rfl⟩ := List.mem_map.mp hseen
  obtain ⟨hmem, hqvalid⟩ := List.mem_filter.mp he
  exact ⟨hnamed, hvalid, hother, hqvalid, List.mem_map_of_mem hmem⟩

/-- **Discovery attaches every device under its parent, exactly** where each parent
that is before its device is the only device at its address, and devices of one
address have one parent. -/
theorem discovery_attaches_iff (l : DeviceList) :
    (∃ t, buildTopology (.ok l.devices) = .ok t ∧ AttachesAll l.devices t) ↔
      ParentsDistinct l.devices := by
  have hrun := realizes_placement l.size
  have hgrounded := Placement.grounded_placement l.devices
  have hlen : (placement l.devices).seen.length < 2 ^ 64 := by
    rw [Placement.seen_placement, List.length_map]
    exact (List.length_filter_le _ _).trans_lt l.size
  have hunder : ∀ {b q}, AttachedUnder (l.devices.foldl Build.add {}).topo b q ↔
      (placement l.devices).parent b = some q := hrun.attachedUnder_iff hgrounded hlen
  constructor
  · rintro ⟨t, hbuild, hall⟩
    obtain rfl : (l.devices.foldl Build.add {}).topo = t := Except.ok.inj hbuild
    have hparent : ∀ {pre d post q}, l.devices = pre ++ d :: post → ParentBefore pre d q →
        (placement l.devices).parent d.bdf = some q :=
      fun hsplit h => hunder.mp (hall _ _ _ _ hsplit h)
    constructor
    · intro pre d post q hsplit h
      obtain ⟨pre', d', post', hsplit', -, hvalid, hfollows⟩ :=
        parent_placement_eq_some (hparent hsplit h)
      exact (l.follows_iff hsplit' (parentBefore_of_follows hvalid hfollows)).mp hfollows
    · intro pre d post q pre' d' post' q' hsplit h hsplit' h' heq
      have hq := hparent hsplit h
      rw [heq, hparent hsplit' h'] at hq
      exact (Option.some.inj hq).symm
  · intro hdistinct
    refine ⟨_, rfl, fun pre d post q hsplit h => hunder.mpr ?_⟩
    have hfollows := (l.follows_iff hsplit h).mpr (hdistinct.once pre d post q hsplit h)
    obtain ⟨q', hq'⟩ := exists_parent_placement h.valid hfollows post
    rw [← hsplit] at hq'
    -- the last device of the address that follows one need not be this device
    obtain ⟨pre', d', post', hsplit', heq, hvalid, hfollows'⟩ := parent_placement_eq_some hq'
    have hsame := hdistinct.agree _ _ _ _ _ _ _ _ hsplit h hsplit'
      (parentBefore_of_follows hvalid hfollows') heq.symm
    rw [hq', hsame]

/-- Two devices at one address, and one below them. -/
def twoAtOneAddress : DeviceList where
  devices := [{ bdf := { bus := 1 } }, { bdf := { bus := 1 } },
    { bdf := { bus := 2 }, parentBdf := some { bus := 1 } }]
  sorted := by decide
  size := by decide

/-- The device below the two has no parent. -/
theorem child_of_shared_address_unattached :
    ¬ ∃ t, buildTopology (.ok twoAtOneAddress.devices) = .ok t ∧
      AttachesAll twoAtOneAddress.devices t := by
  rintro ⟨t, hbuild, hall⟩
  obtain rfl : (twoAtOneAddress.devices.foldl Build.add {}).topo = t := Except.ok.inj hbuild
  obtain ⟨k, x, hk, -, hparent⟩ := hall [{ bdf := { bus := 1 } }, { bdf := { bus := 1 } }]
    { bdf := { bus := 2 }, parentBdf := some { bus := 1 } } [] { bus := 1 } rfl
    ⟨rfl, by decide, by decide, by decide, by decide⟩
  have hroot : (twoAtOneAddress.devices.foldl Build.add {}).topo.findByBdf { bus := 2 } =
      some ⟨3⟩ ∧ (twoAtOneAddress.devices.foldl Build.add {}).topo.parentOf ⟨3⟩ = none := by
    decide +kernel
  obtain rfl := Option.some.inj (hk.symm.trans hroot.1)
  rw [hroot.2] at hparent
  cases hparent

end Discovery

end PcieFabric
