import PcieFabric.Base.Bdf
import PcieFabric.Lib.Run

/-!
The PCIe hierarchy store (`topology.hpp`): nodes by id with parent and child
links.

* `Topology.addRootComplex`, `addBridge`, `addEndpoint`, `attach`,
  `removeNode`, `bumpGeneration`: the builder calls, each under the topology's
  lock and so one step.
* `Topology.findByBdf`, `ancestors`, `wouldCycle`: the walks they rest on.
* `addNode_cases`, `attach_cases`: what the two writes of a builder call do.
* `TopologyCall`, `Topology.step`: the calls as inputs of a machine.
-/

namespace PcieFabric

/-- `Node`. -/
structure Node where
  id : PciNodeId := default
  bdf : Bdf := {}
  kind : DeviceClass := DeviceClass.unknown
  generation : PciNodeGeneration := default
  provenance : Provenance := Provenance.reported
  parent : Option PciNodeId := none
  children : List PciNodeId := []
  upstreamLink : Option LinkId := none
  downstreamLinks : List LinkId := []
  vendor : List UInt8 := []
  device : List UInt8 := []
  className : List UInt8 := []
  driver : List UInt8 := []
  accelerator : Option AcceleratorId := none
  nic : Option NicId := none
  storage : Option StorageDeviceId := none
  memory : Option MemoryDeviceId := none
  numaNode : Option UInt32 := none
  removed : Bool := false
deriving DecidableEq, Repr

/-- `Topology`. -/
structure Topology where
  nextId : UInt64 := 1
  gen : PciNodeGeneration := default
  nodes : IdMap .pciNodeId Node := ∅

namespace Topology

variable (t : Topology)

/-- `Topology::contains`. -/
def contains (id : PciNodeId) : Bool := t.nodes.contains id

/-- `Topology::find_by_bdf_locked`: the first current node at the address, in
id order. -/
def findByBdf (b : Bdf) : Option PciNodeId :=
  (t.nodes.toList.find? fun e => !e.2.removed && e.2.bdf == b).map Prod.fst

/-- The loop of `ancestors_locked`: `guard` bounds the rounds. -/
def ancestorsLoop : Nat → Option PciNodeId → List PciNodeId
  | 0, _ => []
  | _ + 1, none => []
  | guard + 1, some cur =>
      cur :: match t.nodes[cur]? with
        | none => []
        | some n => ancestorsLoop guard n.parent

/-- `Topology::ancestors_locked`. -/
def ancestors (id : PciNodeId) : List PciNodeId := t.ancestorsLoop (t.nodes.size + 1) (some id)

/-- `Topology::would_cycle_locked`. -/
def wouldCycle (child parent : PciNodeId) : Bool := (t.ancestors parent).contains child

/-- The nodes after `attach_locked` has written the link of `c` at `child` to
`p` at `parent`. -/
def linkNodes (child parent : PciNodeId) (c p : Node) (link : Option LinkId) : Topology :=
  let c' := { c with
    parent := some parent
    upstreamLink := match link with
      | some l => some l
      | none => c.upstreamLink }
  let p' := { p with
    children := if p.children.contains child then p.children else p.children ++ [child]
    downstreamLinks := match link with
      | some l => p.downstreamLinks ++ [l]
      | none => p.downstreamLinks }
  { t with nodes := (t.nodes.insert child c').insert parent p' }

/-- `Topology::attach_locked`. -/
def attach (child parent : PciNodeId) (link : Option LinkId) : Result Unit × Topology :=
  match t.nodes[parent]?, t.nodes[child]? with
  | some p, some c =>
      if child = parent then (.err .hierarchyCycle "self cycle", t)
      else if c.parent = some parent then (.ok (), t)
      else
        let t' := t.linkNodes child parent c p link
        -- the test runs on the nodes already written, and a hit undoes nothing
        if t'.wouldCycle child parent then (.err .hierarchyCycle "cycle detected", t')
        else (.ok (), t')
  | _, _ => (.err .notFound "parent/child absent", t)

/-- `Topology::fresh_node_id`. -/
def freshNodeId : PciNodeId × Topology := (⟨t.nextId⟩, { t with nextId := t.nextId + 1 })

/-- `Topology::add_node_locked`. -/
def addNode (id : PciNodeId) (bdf : Bdf) (kind : DeviceClass) (gen : PciNodeGeneration)
    (src : Provenance) : Result PciNodeId × Topology :=
  match t.findByBdf bdf with
  | some k =>
      let bump := fun n : Node => { n with generation := n.generation.succ }
      (.ok k, { t with nodes := t.nodes.modify k bump })
  | none =>
      if t.nodes.contains id then (.err .duplicateIdentity "duplicate node id", t)
      else
        let n : Node := { id := id, bdf := bdf, kind := kind, generation := gen, provenance := src }
        (.ok id, { t with nodes := t.nodes.insert id n })

/-- The tail shared by `add_bridge` and `add_endpoint`: a node that was added is
attached, and what `attach_locked` returns is dropped. -/
def attachAdded (added : Result PciNodeId × Topology) (parent : PciNodeId) :
    Result PciNodeId × Topology :=
  match added with
  | (.ok child, t') => (.ok child, (t'.attach child parent none).2)
  | (.error e, t') => (.error e, t')

/-- `Topology::add_root_complex`. -/
def addRootComplex (bdf : Bdf) (gen : PciNodeGeneration) (src : Provenance) :
    Result PciNodeId × Topology :=
  let (id, t) := t.freshNodeId
  t.addNode id bdf DeviceClass.rootComplex gen src

/-- `Topology::add_bridge`. -/
def addBridge (bdf : Bdf) (gen : PciNodeGeneration) (src : Provenance) (parent : PciNodeId) :
    Result PciNodeId × Topology :=
  let (id, t) := t.freshNodeId
  attachAdded (t.addNode id bdf DeviceClass.bridge gen src) parent

/-- `Topology::add_endpoint`. -/
def addEndpoint (id : PciNodeId) (bdf : Bdf) (kind : DeviceClass) (gen : PciNodeGeneration)
    (src : Provenance) (parent : PciNodeId) : Result PciNodeId × Topology :=
  attachAdded (t.addNode id bdf kind gen src) parent

/-- `Topology::remove_node`. -/
def removeNode (id : PciNodeId) : Result Unit × Topology :=
  if t.nodes.contains id then
    (.ok (), { t with
      nodes := t.nodes.modify id fun n => { n with removed := true }
      gen := t.gen.succ })
  else (.err .notFound "node absent", t)

/-- `Topology::bump_generation`. -/
def bumpGeneration (id : PciNodeId) : Result Unit × Topology :=
  if t.nodes.contains id then
    (.ok (), { t with
      nodes := t.nodes.modify id fun n => { n with generation := n.generation.succ } })
  else (.err .notFound "node absent", t)

/-! ### What the builder calls write -/

variable {t}

/-- What is found under an id is present. -/
lemma mem_of_getElem? {id : PciNodeId} {n : Node} (h : t.nodes[id]? = some n) : id ∈ t.nodes := by
  rw [Std.ExtTreeMap.mem_iff_isSome_getElem?, h, Option.isSome_some]

lemma notMem_of_getElem? {id : PciNodeId} (h : t.nodes[id]? = none) : id ∉ t.nodes := by
  rw [Std.ExtTreeMap.mem_iff_isSome_getElem?, h]
  exact Bool.false_ne_true

lemma exists_of_mem {id : PciNodeId} (h : id ∈ t.nodes) : ∃ n, t.nodes[id]? = some n :=
  Option.isSome_iff_exists.mp (Std.ExtTreeMap.mem_iff_isSome_getElem?.mp h)

/-- A node found at an address is current and at that address. -/
lemma mem_of_findByBdf {b : Bdf} {k : PciNodeId} (h : t.findByBdf b = some k) :
    ∃ n, t.nodes[k]? = some n ∧ n.removed = false ∧ n.bdf = b := by
  rw [findByBdf, Option.map_eq_some_iff] at h
  obtain ⟨⟨id, n⟩, hfind, rfl⟩ := h
  have hcond := List.find?_some hfind
  rw [Bool.and_eq_true, Bool.not_eq_true', beq_iff_eq] at hcond
  exact ⟨n, Std.ExtTreeMap.mem_toList_iff_getElem?_eq_some.mp (List.mem_of_find?_eq_some hfind),
    hcond⟩

/-- Nothing is found at an address without a current node. -/
lemma findByBdf_eq_none_iff {b : Bdf} : t.findByBdf b = none ↔
    ∀ (k : PciNodeId) n, t.nodes[k]? = some n → n.removed = false → n.bdf ≠ b := by
  rw [findByBdf, Option.map_eq_none_iff, List.find?_eq_none]
  simp only [Bool.and_eq_true, Bool.not_eq_true', beq_iff_eq, not_and]
  constructor
  · exact fun h k n hget => h (k, n) (Std.ExtTreeMap.mem_toList_iff_getElem?_eq_some.mpr hget)
  · exact fun h e he => h e.1 e.2 (Std.ExtTreeMap.mem_toList_iff_getElem?_eq_some.mp he)

/-- The topology with the generation of a node incremented. -/
def incremented (t : Topology) (k : PciNodeId) : Topology :=
  { t with nodes := t.nodes.modify k fun n => { n with generation := n.generation.succ } }

/-- The topology with a node under its id. -/
def withNode (t : Topology) (n : Node) : Topology := { t with nodes := t.nodes.insert n.id n }

lemma getElem?_withNode (t : Topology) (n : Node) (id : PciNodeId) :
    (t.withNode n).nodes[id]? = if n.id = id then some n else t.nodes[id]? := by
  rw [withNode]
  simp only [Std.ExtTreeMap.getElem?_insert, Std.LawfulEqCmp.compare_eq_iff_eq]

lemma mem_withNode {n : Node} {id : PciNodeId} :
    id ∈ (t.withNode n).nodes ↔ n.id = id ∨ id ∈ t.nodes := by
  rw [withNode, Std.ExtTreeMap.mem_insert, Std.LawfulEqCmp.compare_eq_iff_eq]

/-- What `addNode` does: it increments the node that is current at the address,
or it refuses an id that is taken, or it adds the node. -/
lemma addNode_cases (t : Topology) (id : PciNodeId) (bdf : Bdf) (kind : DeviceClass)
    (gen : PciNodeGeneration) (src : Provenance) :
    (∃ k, t.findByBdf bdf = some k ∧ t.addNode id bdf kind gen src = (.ok k, t.incremented k)) ∨
      t.findByBdf bdf = none ∧ id ∈ t.nodes ∧
        t.addNode id bdf kind gen src = (.err .duplicateIdentity "duplicate node id", t) ∨
      t.findByBdf bdf = none ∧ id ∉ t.nodes ∧
        t.addNode id bdf kind gen src = (.ok id, t.withNode
          { id := id, bdf := bdf, kind := kind, generation := gen, provenance := src }) := by
  unfold addNode
  cases hfind : t.findByBdf bdf with
  | some k => exact .inl ⟨k, rfl, rfl⟩
  | none =>
      by_cases hid : id ∈ t.nodes
      · exact .inr (.inl ⟨rfl, hid, if_pos hid⟩)
      · exact .inr (.inr ⟨rfl, hid, if_neg hid⟩)

/-- What `attach` does to the topology: nothing, or it writes the link, whatever
its cycle test then says. In the first case something rules the link out or has
it already. -/
lemma attach_cases (t : Topology) (child parent : PciNodeId) (link : Option LinkId) :
    ((t.attach child parent link).2 = t ∧
        (t.nodes[parent]? = none ∨ t.nodes[child]? = none ∨ child = parent ∨
          ∃ c, t.nodes[child]? = some c ∧ c.parent = some parent)) ∨
      ∃ c p, child ≠ parent ∧ t.nodes[child]? = some c ∧ t.nodes[parent]? = some p ∧
        (t.attach child parent link).2 = t.linkNodes child parent c p link := by
  unfold attach
  cases hp : t.nodes[parent]? with
  | none => exact .inl ⟨rfl, .inl rfl⟩
  | some p =>
      cases hc : t.nodes[child]? with
      | none => exact .inl ⟨rfl, .inr (.inl rfl)⟩
      | some c =>
          dsimp only
          by_cases hself : child = parent
          · rw [if_pos hself]
            exact .inl ⟨rfl, .inr (.inr (.inl hself))⟩
          rw [if_neg hself]
          by_cases halready : c.parent = some parent
          · rw [if_pos halready]
            exact .inl ⟨rfl, .inr (.inr (.inr ⟨c, rfl, halready⟩))⟩
          rw [if_neg halready]
          refine .inr ⟨c, p, hself, rfl, rfl, ?_⟩
          -- both outcomes of the test keep the written nodes
          split <;> rfl

/-- `attach` adds and drops no node, and changes nothing of one but its links. -/
lemma map_attach {γ : Type} (g : Node → γ)
    (hg : ∀ (n : Node) parent up children down, g { n with
      parent := parent, upstreamLink := up, children := children, downstreamLinks := down } = g n)
    (t : Topology) (child parent : PciNodeId) (link : Option LinkId) (id : PciNodeId) :
    ((t.attach child parent link).2.nodes[id]?).map g = (t.nodes[id]?).map g := by
  rcases attach_cases t child parent link with ⟨heq, -⟩ | ⟨c, p, -, hc, hp, heq⟩
  · rw [heq]
  · rw [heq]
    simp only [linkNodes, Std.ExtTreeMap.getElem?_insert, Std.LawfulEqCmp.compare_eq_iff_eq]
    by_cases hparent : parent = id
    · subst hparent
      rw [if_pos rfl, hp]
      exact congrArg some (hg p _ _ _ _)
    · rw [if_neg hparent]
      by_cases hchild : child = id
      · subst hchild
        rw [if_pos rfl, hc]
        exact congrArg some (hg c _ _ _ _)
      · rw [if_neg hchild]

/-- `attach` changes no generation, and adds and drops no node. -/
lemma generation_attach (t : Topology) (child parent : PciNodeId) (link : Option LinkId)
    (id : PciNodeId) : ((t.attach child parent link).2.nodes[id]?).map Node.generation =
      (t.nodes[id]?).map Node.generation :=
  map_attach Node.generation (fun _ _ _ _ _ => rfl) t child parent link id

/-- What `add_endpoint` does to the nodes, apart from their links: the node that is current at
the address gets a new generation, or nothing changes, or the new node is added. -/
lemma map_addEndpoint {γ : Type} (g : Node → γ)
    (hg : ∀ (n : Node) parent up children down, g { n with
      parent := parent, upstreamLink := up, children := children, downstreamLinks := down } = g n)
    (t : Topology) (id : PciNodeId) (b : Bdf) (kind : DeviceClass) (gen : PciNodeGeneration)
    (src : Provenance) (parent : PciNodeId) :
    (∃ k, t.findByBdf b = some k ∧ ∀ x : PciNodeId,
        ((t.addEndpoint id b kind gen src parent).2.nodes[x]?).map g =
          (t.nodes[x]?).map fun n =>
            g (if x = k then { n with generation := n.generation.succ } else n)) ∨
      t.findByBdf b = none ∧ id ∈ t.nodes ∧ (t.addEndpoint id b kind gen src parent).2 = t ∨
      t.findByBdf b = none ∧ id ∉ t.nodes ∧ ∀ x : PciNodeId,
        ((t.addEndpoint id b kind gen src parent).2.nodes[x]?).map g =
          if x = id then
            some (g { id := id, bdf := b, kind := kind, generation := gen, provenance := src })
          else (t.nodes[x]?).map g := by
  rcases addNode_cases t id b kind gen src with
    ⟨k, hfind, hadd⟩ | ⟨hfind, hid, hadd⟩ | ⟨hfind, hid, hadd⟩
  · refine .inl ⟨k, hfind, fun x => ?_⟩
    rw [addEndpoint, hadd, attachAdded, map_attach g hg, incremented]
    simp only [Std.ExtTreeMap.getElem?_modify, Std.LawfulEqCmp.compare_eq_iff_eq]
    by_cases hx : k = x
    · subst hx
      simp only [if_true, Option.map_map, Function.comp_def]
    · simp only [if_neg hx, if_neg (Ne.symm hx)]
  · refine .inr (.inl ⟨hfind, hid, ?_⟩)
    rw [addEndpoint, hadd]
    rfl
  · refine .inr (.inr ⟨hfind, hid, fun x => ?_⟩)
    rw [addEndpoint, hadd, attachAdded, map_attach g hg, getElem?_withNode]
    by_cases hx : id = x
    · rw [if_pos hx, if_pos hx.symm, Option.map_some]
    · rw [if_neg hx, if_neg (Ne.symm hx)]

/-- An endpoint under an id that is absent changes the topology: its node is
added, or the node that is current at the address gets a new generation. -/
lemma addEndpoint_ne {id : PciNodeId} (h : t.contains id = false) (bdf : Bdf)
    (kind : DeviceClass) (gen : PciNodeGeneration) (src : Provenance) (parent : PciNodeId) :
    (t.addEndpoint id bdf kind gen src parent).2 ≠ t := by
  intro heq
  have hgone : t.nodes[id]? = none := Std.ExtTreeMap.getElem?_eq_none_of_contains_eq_false h
  rcases addNode_cases t id bdf kind gen src with ⟨k, hfind, hadd⟩ | ⟨-, hid, -⟩ | ⟨-, -, hadd⟩
  · obtain ⟨n, hn, -⟩ := mem_of_findByBdf hfind
    have hgen : ((t.addEndpoint id bdf kind gen src parent).2.nodes[k]?).map Node.generation =
        some n.generation.succ := by
      simp only [addEndpoint, hadd, attachAdded, generation_attach, incremented,
        Std.ExtTreeMap.getElem?_modify, Std.LawfulEqCmp.compare_eq_iff_eq, if_pos, hn,
        Option.map_some]
    rw [heq, hn, Option.map_some] at hgen
    exact n.generation.succ_ne (Option.some.inj hgen).symm
  · exact absurd hid (notMem_of_getElem? hgone)
  · have hgen : ((t.addEndpoint id bdf kind gen src parent).2.nodes[id]?).map Node.generation =
        some gen := by
      simp only [addEndpoint, hadd, attachAdded, generation_attach, getElem?_withNode, if_pos,
        Option.map_some]
    rw [heq, hgone] at hgen
    cases hgen

end Topology

/-! ### The topology as a machine -/

/-- A builder call on the topology. The root complex and bridge ids of the
source are dropped by the calls and not modelled. -/
inductive TopologyCall where
  | addRootComplex (bdf : Bdf) (gen : PciNodeGeneration) (src : Provenance)
  | addBridge (bdf : Bdf) (gen : PciNodeGeneration) (src : Provenance) (parent : PciNodeId)
  | addEndpoint (id : PciNodeId) (bdf : Bdf) (kind : DeviceClass) (gen : PciNodeGeneration)
      (src : Provenance) (parent : PciNodeId)
  | attach (child parent : PciNodeId) (link : Option LinkId)
  | removeNode (id : PciNodeId)
  | bumpGeneration (id : PciNodeId)

/-- The topology after a call, whatever the call returns. -/
def Topology.step (t : Topology) : TopologyCall → Topology
  | .addRootComplex bdf gen src => (t.addRootComplex bdf gen src).2
  | .addBridge bdf gen src parent => (t.addBridge bdf gen src parent).2
  | .addEndpoint id bdf kind gen src parent => (t.addEndpoint id bdf kind gen src parent).2
  | .attach child parent link => (t.attach child parent link).2
  | .removeNode id => (t.removeNode id).2
  | .bumpGeneration id => (t.bumpGeneration id).2

end PcieFabric
