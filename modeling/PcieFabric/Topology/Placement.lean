import PcieFabric.Lib.Occurrence
import PcieFabric.Topology.Discovery
import PcieFabric.Topology.Linking

/-!
The loop of `build_topology_from_windows`, without ids.

* `Placement`: the addresses of the devices so far, and the parent address that
  each of them has got. `Placement.follows` is the address under which one more
  device is put.
* `nodeAt`, `HoldsNodes`: the ids of the topology. An address has the node of its
  first device.
* `Realizes`: the loop variables of the source stand for a placement. The ids in
  `by_bdf` are those of the last device at each address. `Realizes.add` is one
  round of the loop and `realizes_placement` the loop.
-/

namespace PcieFabric

open Std Occurrence

namespace Discovery

/-! ### The loop without ids -/

/-- The addresses of the devices that were taken, in order, and the parent address
of each address that has one. -/
structure Placement where
  seen : List Bdf := []
  parent : Bdf → Option Bdf := fun _ => none

/-- The address under which a device is put: that of its parent, if it is not the
device's own and exactly one device so far has it. -/
def Placement.follows (p : Placement) (d : RawPciDevice) : Option Bdf :=
  d.parentBdf.filter fun b => b ≠ d.bdf ∧ p.seen.count b = 1

/-- One round of the loop. -/
def Placement.add (p : Placement) (d : RawPciDevice) : Placement :=
  if !d.bdf.valid then p
  else
    { seen := p.seen ++ [d.bdf]
      parent := Function.update p.parent d.bdf ((p.follows d).or (p.parent d.bdf)) }

/-- The loop. -/
def placement (ds : List RawPciDevice) : Placement := ds.foldl Placement.add {}

namespace Placement

variable {p : Placement} {d : RawPciDevice} {ds : List RawPciDevice}

lemma follows_eq_some_iff {b : Bdf} :
    p.follows d = some b ↔ d.parentBdf = some b ∧ b ≠ d.bdf ∧ p.seen.count b = 1 := by
  rw [follows, Option.filter_eq_some_iff, decide_eq_true_iff]

lemma add_of_invalid (h : d.bdf.valid = false) : p.add d = p := by
  rw [add, h]
  rfl

lemma add_of_valid (h : d.bdf.valid = true) : p.add d =
    { seen := p.seen ++ [d.bdf]
      parent := Function.update p.parent d.bdf ((p.follows d).or (p.parent d.bdf)) } := by
  rw [add, h]
  rfl

lemma placement_append_singleton : placement (ds ++ [d]) = (placement ds).add d := by
  rw [placement, List.foldl_append]
  rfl

/-- The parents are among the addresses, and only these have parents. -/
def Grounded (p : Placement) : Prop :=
  ∀ b q, p.parent b = some q → b ∈ p.seen ∧ q ∈ p.seen

lemma Grounded.add (h : p.Grounded) (d : RawPciDevice) : (p.add d).Grounded := by
  cases hvalid : d.bdf.valid with
  | false =>
      rw [add_of_invalid hvalid]
      exact h
  | true =>
      rw [add_of_valid hvalid]
      have hold : ∀ b q, p.parent b = some q → b ∈ p.seen ++ [d.bdf] ∧ q ∈ p.seen ++ [d.bdf] :=
        fun b q hb => (h b q hb).imp (List.mem_append_left _) (List.mem_append_left _)
      intro b q hb
      dsimp only at hb
      rw [Function.update_apply] at hb
      split_ifs at hb with heq
      · subst heq
        rcases Option.or_eq_some_iff.mp hb with hfollows | ⟨-, hparent⟩
        · have hcount := (follows_eq_some_iff.mp hfollows).2.2
          exact ⟨List.mem_append_right _ List.mem_cons_self,
            List.mem_append_left _ (List.count_pos_iff.mp (by omega))⟩
        · exact hold _ q hparent
      · exact hold b q hb

lemma grounded_placement (ds : List RawPciDevice) : (placement ds).Grounded := by
  induction ds using List.reverseRecOn with
  | nil => rintro b q ⟨⟩
  | append_singleton ds d ih =>
      rw [placement_append_singleton]
      exact ih.add d

/-- The addresses are those of the valid devices. -/
lemma seen_placement (ds : List RawPciDevice) :
    (placement ds).seen = (ds.filter fun d => d.bdf.valid).map RawPciDevice.bdf := by
  induction ds using List.reverseRecOn with
  | nil => rfl
  | append_singleton ds d ih =>
      rw [placement_append_singleton, List.filter_append, List.map_append, ← ih]
      cases hvalid : d.bdf.valid with
      | false => simp [add_of_invalid hvalid, hvalid]
      | true => simp [add_of_valid hvalid, hvalid]

/-- A valid address is seen as often as devices have it. -/
lemma count_seen (ds : List RawPciDevice) {b : Bdf} (h : b.valid = true) :
    (placement ds).seen.count b = (ds.map RawPciDevice.bdf).count b := by
  have hfilter : (ds.filter fun d => d.bdf.valid).map RawPciDevice.bdf =
      (ds.map RawPciDevice.bdf).filter Bdf.valid := by
    rw [List.filter_map]
    rfl
  rw [seen_placement, hfilter, List.count_filter h]

end Placement

/-! ### The nodes of the topology -/

/-- The id of the device at the index. -/
def number (i : ℕ) : PciNodeId := ⟨.ofNat (i + 1)⟩

/-- The id of the node at an address: that of the first device there. -/
def nodeAt (bs : List Bdf) (b : Bdf) : Option PciNodeId := (bs.idxOf? b).map number

variable {bs : List Bdf} {b b' : Bdf} {k : PciNodeId}

/-- Below `2^64` the ids differ, and none is 0. -/
lemma toNat_number {i : ℕ} (h : i + 1 < 2 ^ 64) : (number i).value.toNat = i + 1 :=
  UInt64.toNat_ofNat_of_lt' h

lemma number_inj {i j : ℕ} (hi : i + 1 < 2 ^ 64) (hj : j + 1 < 2 ^ 64)
    (h : number i = number j) : i = j := by
  have hnat := congrArg (fun k : PciNodeId => k.value.toNat) h
  simp only [toNat_number hi, toNat_number hj] at hnat
  omega

lemma nodeAt_eq_some_iff : nodeAt bs b = some k ↔ ∃ i, bs.idxOf? b = some i ∧ number i = k := by
  rw [nodeAt, Option.map_eq_some_iff]

/-- The index of a node among fewer than `2^64` devices. -/
lemma idxOf?_of_nodeAt (hlen : bs.length < 2 ^ 64) {i : ℕ} (hi : i < bs.length)
    (h : nodeAt bs b = some (number i)) : bs.idxOf? b = some i := by
  obtain ⟨j, hj, heq⟩ := nodeAt_eq_some_iff.mp h
  have hlt := lt_length_of_idxOf? hj
  rwa [number_inj (by omega) (by omega) heq] at hj

/-- Different addresses have different nodes. -/
lemma nodeAt_inj (hlen : bs.length < 2 ^ 64) (h : nodeAt bs b = some k)
    (h' : nodeAt bs b' = some k) : b = b' := by
  obtain ⟨i, hi, rfl⟩ := nodeAt_eq_some_iff.mp h
  exact idxOf?_inj hi (idxOf?_of_nodeAt hlen (lt_length_of_idxOf? hi) h')

/-- The ids are not 0, which stands for no parent. -/
lemma nodeAt_ne_zero (hlen : bs.length < 2 ^ 64) : nodeAt bs b ≠ some ⟨0⟩ := by
  intro h
  obtain ⟨i, hi, heq⟩ := nodeAt_eq_some_iff.mp h
  have hlt := lt_length_of_idxOf? hi
  have hnat := toNat_number (i := i) (by omega)
  rw [heq] at hnat
  exact absurd hnat (by simp)

lemma nodeAt_of_mem (h : b ∈ bs) (x : Bdf) : nodeAt (bs ++ [x]) b = nodeAt bs b := by
  have hsome := List.isSome_idxOf?.mpr h
  rw [nodeAt, nodeAt, idxOf?_append_singleton, Option.or_of_isSome hsome]

lemma nodeAt_of_notMem (h : b ∉ bs) : nodeAt (bs ++ [b]) b = some (number bs.length) := by
  rw [nodeAt, idxOf?_append_singleton, List.idxOf?_eq_none_iff.mpr h, Option.none_or, if_pos rfl,
    Option.map_some]

lemma nodeAt_of_ne (h : b ≠ b') : nodeAt (bs ++ [b']) b = nodeAt bs b := by
  rw [nodeAt, nodeAt, idxOf?_append_singleton, if_neg (Ne.symm h), Option.or_none]

lemma mem_of_nodeAt (h : nodeAt bs b = some k) : b ∈ bs := by
  obtain ⟨i, hi, -⟩ := nodeAt_eq_some_iff.mp h
  exact List.mem_of_getElem? (getElem?_of_idxOf? hi)

lemma exists_nodeAt (h : b ∈ bs) : ∃ k, nodeAt bs b = some k := by
  obtain ⟨i, hi⟩ := Option.isSome_iff_exists.mp (List.isSome_idxOf?.mpr h)
  exact ⟨number i, nodeAt_eq_some_iff.mpr ⟨i, hi, rfl⟩⟩

lemma notMem_of_nodeAt (h : nodeAt bs b = none) : b ∉ bs := by
  intro hmem
  obtain ⟨k, hk⟩ := exists_nodeAt hmem
  rw [h] at hk
  cases hk

/-- The nodes are one for each address, current and under its id. -/
def HoldsNodes (t : Topology) (bs : List Bdf) : Prop :=
  ∀ (k : PciNodeId) removed b, (t.nodes[k]?).map (fun n => (n.removed, n.bdf)) =
    some (removed, b) ↔ removed = false ∧ nodeAt bs b = some k

namespace HoldsNodes

variable {t : Topology}

lemma mem_iff (h : HoldsNodes t bs) : k ∈ t.nodes ↔ ∃ b, nodeAt bs b = some k := by
  constructor
  · intro hmem
    obtain ⟨n, hn⟩ := Topology.exists_of_mem hmem
    exact ⟨n.bdf, ((h k n.removed n.bdf).mp (by rw [hn, Option.map_some])).2⟩
  · rintro ⟨b, hb⟩
    obtain ⟨n, hn, -⟩ := Option.map_eq_some_iff.mp ((h k false b).mpr ⟨rfl, hb⟩)
    exact Topology.mem_of_getElem? hn

/-- The node that is found at an address is that of its first device. -/
lemma findByBdf (h : HoldsNodes t bs) (b : Bdf) : t.findByBdf b = nodeAt bs b := by
  cases hfind : t.findByBdf b with
  | some k =>
      obtain ⟨n, hn, hremoved, hbdf⟩ := Topology.mem_of_findByBdf hfind
      exact ((h k false b).mp (by rw [hn, Option.map_some, hremoved, hbdf])).2.symm
  | none =>
      cases hnode : nodeAt bs b with
      | none => rfl
      | some k =>
          obtain ⟨n, hn, heq⟩ := Option.map_eq_some_iff.mp ((h k false b).mpr ⟨rfl, hnode⟩)
          obtain ⟨hremoved, hbdf⟩ := Prod.mk.inj heq
          exact absurd hbdf (Topology.findByBdf_eq_none_iff.mp hfind k n hn hremoved)

/-- An attach keeps the nodes. -/
lemma attach (h : HoldsNodes t bs) (child parent : PciNodeId) :
    HoldsNodes (t.attach child parent none).2 bs := by
  intro k removed b
  rw [Topology.map_attach (fun n => (n.removed, n.bdf)) (fun _ _ _ _ _ => rfl), h]

/-- A new generation of a node keeps the nodes, and one more device at its address
has that node. -/
lemma incremented (h : HoldsNodes t bs) (hk : nodeAt bs b = some k) :
    HoldsNodes (t.incremented k) (bs ++ [b]) := by
  have hsame : ∀ b', nodeAt (bs ++ [b]) b' = nodeAt bs b' := by
    intro b'
    by_cases heq : b' = b
    · rw [heq, nodeAt_of_mem (mem_of_nodeAt hk)]
    · exact nodeAt_of_ne heq
  intro x removed b'
  rw [hsame, ← h x removed b', Topology.incremented]
  simp only [ExtTreeMap.getElem?_modify, LawfulEqCmp.compare_eq_iff_eq]
  by_cases hx : k = x
  · rw [if_pos hx, hx, Option.map_map]
    rfl
  · rw [if_neg hx]

/-- A node under the next id is that of a device at a new address. -/
lemma withNode (h : HoldsNodes t bs) (hlen : bs.length + 1 < 2 ^ 64)
    (hnone : nodeAt bs b = none) {n : Node} (hid : n.id = number bs.length)
    (hfields : (n.removed, n.bdf) = (false, b)) : HoldsNodes (t.withNode n) (bs ++ [b]) := by
  have hself : nodeAt (bs ++ [b]) b = some n.id := by
    rw [hid, nodeAt_of_notMem (notMem_of_nodeAt hnone)]
  intro x removed b'
  rw [Topology.getElem?_withNode]
  by_cases hx : n.id = x
  · subst hx
    rw [if_pos rfl, Option.map_some, hfields, Option.some.injEq, Prod.mk.injEq, eq_comm]
    refine and_congr_right fun _ => ⟨fun heq => heq ▸ hself, fun hb' => ?_⟩
    exact nodeAt_inj (by rw [List.length_append, List.length_singleton]; exact hlen) hself hb'
  · rw [if_neg hx, h x removed b']
    refine and_congr_right fun _ => ?_
    by_cases heq : b' = b
    · rw [heq, hnone, hself, Option.some.injEq]
      exact iff_of_false (fun hb => by cases hb) hx
    · rw [nodeAt_of_ne heq]

/-- The next id is not taken. -/
lemma number_notMem (h : HoldsNodes t bs) (hlen : bs.length + 1 < 2 ^ 64) :
    number bs.length ∉ t.nodes := by
  intro hmem
  obtain ⟨b, hb⟩ := h.mem_iff.mp hmem
  obtain ⟨i, hi, heq⟩ := nodeAt_eq_some_iff.mp hb
  have hlt := lt_length_of_idxOf? hi
  exact absurd (number_inj (by omega) hlen heq) (by omega)

/-- What an `add_endpoint` under the next id does: it finds the node at the address
or adds one there, and attaches it. -/
lemma addEndpoint (h : HoldsNodes t bs) (hlen : bs.length + 1 < 2 ^ 64) (b : Bdf)
    (kind : DeviceClass) (gen : PciNodeGeneration) (src : Provenance) (parent : PciNodeId) :
    ∃ t₁ k, t.addEndpoint (number bs.length) b kind gen src parent =
        (.ok k, (t₁.attach k parent none).2) ∧
      nodeAt (bs ++ [b]) b = some k ∧ HoldsNodes t₁ (bs ++ [b]) ∧ t₁.parentOf = t.parentOf := by
  rcases Topology.addNode_cases t (number bs.length) b kind gen src with
    ⟨k, hfind, hadd⟩ | ⟨-, htaken, -⟩ | ⟨hfind, hnew, hadd⟩
  · have hk : nodeAt bs b = some k := (h.findByBdf b).symm.trans hfind
    exact ⟨t.incremented k, k, by rw [Topology.addEndpoint, hadd]; rfl,
      (nodeAt_of_mem (mem_of_nodeAt hk) b).trans hk, h.incremented hk,
      Topology.parentOf_modify t k _ fun _ => rfl⟩
  · exact absurd htaken (h.number_notMem hlen)
  · have hnone : nodeAt bs b = none := (h.findByBdf b).symm.trans hfind
    have hnodes := h.withNode hlen hnone (n := { id := number bs.length, bdf := b, kind := kind
                                                 generation := gen, provenance := src }) rfl rfl
    exact ⟨_, number bs.length, by rw [Topology.addEndpoint, hadd]; rfl,
      nodeAt_of_notMem (notMem_of_nodeAt hnone), hnodes, Topology.parentOf_withNode hnew rfl⟩

end HoldsNodes

/-! ### The loop -/

/-- The loop variables stand for the placement. -/
structure Realizes (s : Build) (p : Placement) : Prop where
  next : s.next = .ofNat (p.seen.length + 1)
  byBdf : ∀ b, s.byBdf.lookup b = (lastIdxOf? p.seen b).map number
  nodes : HoldsNodes s.topo p.seen
  parents : ∀ b k, nodeAt p.seen b = some k → s.topo.parentOf k = (p.parent b).bind (nodeAt p.seen)

lemma realizes_init : Realizes {} {} := by
  refine ⟨rfl, fun _ => rfl, fun k removed b => ?_, fun b k h => by cases h⟩
  have hempty : ({} : Build).topo.nodes[k]? = none := ExtTreeMap.getElem?_empty
  rw [hempty]
  exact iff_of_false (fun h => by cases h) fun h => by cases h.2

namespace Realizes

variable {s : Build} {p : Placement} {d : RawPciDevice}

/-- The parent that the loop passes on is the node at the address that the device
follows. -/
lemma parentOf_of_follows (h : Realizes s p) {q : Bdf} (hq : p.follows d = some q) :
    nodeAt p.seen q = some (s.parentOf d) := by
  obtain ⟨hparent, -, hcount⟩ := Placement.follows_eq_some_iff.mp hq
  have hmem : q ∈ p.seen := List.count_pos_iff.mp (by omega)
  obtain ⟨i, hi⟩ := Option.isSome_iff_exists.mp (List.isSome_idxOf?.mpr hmem)
  have hlast : lastIdxOf? p.seen q = some i := by
    rw [← (idxOf?_eq_lastIdxOf?_iff hmem).mpr hcount, hi]
  have hpass : s.parentOf d = (s.byBdf.lookup q).getD ⟨0⟩ := by rw [Build.parentOf, hparent]
  rw [hpass, h.byBdf, hlast, nodeAt, hi]
  rfl

/-- Where the device follows no address, the parent that the loop passes on is
absent or the device's own node: an address that occurs twice has in `by_bdf` the
id of a device that got no node. -/
lemma eq_bdf_of_parentOf (h : Realizes s p) (hlen : p.seen.length + 1 < 2 ^ 64)
    (hnone : p.follows d = none) {b : Bdf}
    (hb : nodeAt (p.seen ++ [d.bdf]) b = some (s.parentOf d)) : b = d.bdf := by
  have hlen' : (p.seen ++ [d.bdf]).length < 2 ^ 64 := by
    rwa [List.length_append, List.length_singleton]
  cases hparent : d.parentBdf with
  | none =>
      rw [Build.parentOf, hparent] at hb
      exact absurd hb (nodeAt_ne_zero hlen')
  | some q =>
      have hpass : s.parentOf d = (s.byBdf.lookup q).getD ⟨0⟩ := by rw [Build.parentOf, hparent]
      rw [hpass, h.byBdf] at hb
      cases hlast : lastIdxOf? p.seen q with
      | none =>
          rw [hlast] at hb
          exact absurd hb (nodeAt_ne_zero hlen')
      | some i =>
          rw [hlast, Option.map_some, Option.getD_some] at hb
          have hat := getElem?_of_lastIdxOf? hlast
          have hlt : i < p.seen.length := (List.getElem?_eq_some_iff.mp hat).1
          by_contra hne
          rw [nodeAt_of_ne hne] at hb
          have hfirst := idxOf?_of_nodeAt (by omega) hlt hb
          obtain rfl : b = q :=
            Option.some.inj ((getElem?_of_idxOf? hfirst).symm.trans hat)
          have hcount := (lastIdxOf?_first_iff hlast).mp ⟨b, hfirst⟩
          have hfollows := Placement.follows_eq_some_iff.mpr ⟨hparent, hne, hcount⟩
          rw [hnone] at hfollows
          cases hfollows

/-- The parent links among one address more, before the attach. -/
lemma parents_append (h : Realizes s p) (hp : p.Grounded) (hlen : p.seen.length + 1 < 2 ^ 64)
    (x b : Bdf) {k : PciNodeId} (hk : nodeAt (p.seen ++ [x]) b = some k) :
    s.topo.parentOf k = (p.parent b).bind (nodeAt (p.seen ++ [x])) := by
  have hlen' : (p.seen ++ [x]).length < 2 ^ 64 := by
    rwa [List.length_append, List.length_singleton]
  by_cases hmem : b ∈ p.seen
  · rw [nodeAt_of_mem hmem] at hk
    rw [h.parents b k hk]
    cases hq : p.parent b with
    | none => rfl
    | some q => exact (nodeAt_of_mem (hp b q hq).2 x).symm
  · have hroot : p.parent b = none :=
      Option.eq_none_iff_forall_ne_some.mpr fun q hq => hmem (hp b q hq).1
    have habsent : k ∉ s.topo.nodes := by
      intro hin
      obtain ⟨b', hb'⟩ := h.nodes.mem_iff.mp hin
      have hmem' := mem_of_nodeAt hb'
      rw [← nodeAt_of_mem hmem' x] at hb'
      exact hmem (nodeAt_inj hlen' hk hb' ▸ hmem')
    rw [hroot, Topology.parentOf, ExtTreeMap.getElem?_eq_none habsent]
    rfl

/-- The parent links after the attach of one round. -/
lemma parents_attach (h : Realizes s p) (hp : p.Grounded) (hlen : p.seen.length + 1 < 2 ^ 64)
    {t₁ : Topology} {k : PciNodeId} (hk : nodeAt (p.seen ++ [d.bdf]) d.bdf = some k)
    (hnodes : HoldsNodes t₁ (p.seen ++ [d.bdf])) (hlinks : t₁.parentOf = s.topo.parentOf)
    {b : Bdf} {x : PciNodeId} (hx : nodeAt (p.seen ++ [d.bdf]) b = some x) :
    (t₁.attach k (s.parentOf d) none).2.parentOf x =
      (Function.update p.parent d.bdf ((p.follows d).or (p.parent d.bdf)) b).bind
        (nodeAt (p.seen ++ [d.bdf])) := by
  have hlen' : (p.seen ++ [d.bdf]).length < 2 ^ 64 := by
    rwa [List.length_append, List.length_singleton]
  rw [Topology.parentOf_attach (hnodes.mem_iff.mpr ⟨_, hk⟩), hlinks]
  by_cases hb : b = d.bdf
  case neg =>
    have hne : x ≠ k := fun heq => hb (nodeAt_inj hlen' hx (heq ▸ hk))
    rw [if_neg fun hcond => hne hcond.1, Function.update_of_ne hb]
    exact h.parents_append hp hlen d.bdf b hx
  subst hb
  obtain rfl := Option.some.inj (hx.symm.trans hk)
  rw [Function.update_self]
  cases hfollows : p.follows d with
  | none =>
      rw [if_neg, Option.none_or]
      · exact h.parents_append hp hlen d.bdf d.bdf hx
      · rintro ⟨-, hne, hmem⟩
        obtain ⟨b', hb'⟩ := hnodes.mem_iff.mp hmem
        obtain rfl := h.eq_bdf_of_parentOf hlen hfollows hb'
        exact hne (Option.some.inj (hk.symm.trans hb'))
  | some q =>
      have hq := h.parentOf_of_follows hfollows
      rw [← nodeAt_of_mem (mem_of_nodeAt hq) d.bdf] at hq
      rw [if_pos, Option.some_or, Option.bind_some, hq]
      refine ⟨rfl, fun heq => ?_, hnodes.mem_iff.mpr ⟨q, hq⟩⟩
      rw [← heq] at hq
      exact (Placement.follows_eq_some_iff.mp hfollows).2.1 (nodeAt_inj hlen' hq hk)

/-- **One round of the loop.** -/
lemma add (h : Realizes s p) (hp : p.Grounded) (hlen : p.seen.length + 1 < 2 ^ 64)
    (d : RawPciDevice) : Realizes (s.add d) (p.add d) := by
  cases hvalid : d.bdf.valid with
  | false =>
      rw [Placement.add_of_invalid hvalid, Build.add, hvalid]
      exact h
  | true =>
      have hid : (⟨s.next⟩ : PciNodeId) = number p.seen.length := by rw [h.next, number]
      obtain ⟨t₁, k, hadd, hk, hnodes, hlinks⟩ := h.nodes.addEndpoint hlen d.bdf
        (if d.isBridge then DeviceClass.bridge else d.kind) ⟨1⟩ Provenance.reported (s.parentOf d)
      have hbuild : s.add d = { topo := (t₁.attach k (s.parentOf d) none).2
                                byBdf := (d.bdf, number p.seen.length) :: s.byBdf
                                next := s.next + 1 } := by
        simp only [Build.add, hvalid, hid, hadd]
        rfl
      rw [Placement.add_of_valid hvalid, hbuild]
      refine ⟨?_, fun b => ?_, hnodes.attach k _,
        fun b x hx => h.parents_attach hp hlen hk hnodes hlinks hx⟩
      · rw [h.next, List.length_append, List.length_singleton, UInt64.ofNat_add (_ + 1) 1]
        rfl
      · rw [List.lookup_cons, lastIdxOf?_append_singleton, h.byBdf]
        by_cases hb : b = d.bdf
        · rw [hb, if_pos rfl, beq_self_eq_true]
          rfl
        · rw [if_neg (Ne.symm hb), beq_false_of_ne hb]

end Realizes

/-- **The loop**, over fewer than `2^64` devices. -/
theorem realizes_placement {ds : List RawPciDevice} (hlen : ds.length < 2 ^ 64) :
    Realizes (ds.foldl Build.add {}) (placement ds) := by
  induction ds using List.reverseRecOn with
  | nil => exact realizes_init
  | append_singleton ds d ih =>
      rw [List.length_append, List.length_singleton] at hlen
      have hseen : (placement ds).seen.length ≤ ds.length := by
        rw [Placement.seen_placement, List.length_map]
        exact List.length_filter_le _ _
      rw [List.foldl_append, Placement.placement_append_singleton]
      exact (ih (by omega)).add (Placement.grounded_placement ds) (by omega) d

end Discovery

end PcieFabric
