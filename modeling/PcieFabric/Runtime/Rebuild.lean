import PcieFabric.Runtime.Recovery
import PcieFabric.Topology.Acyclic

/-!
The hierarchy that a load rebuilds: `Runtime::load` hands the nodes of the
snapshot to `add_endpoint`, in their order, and drops what it returns.

* `Rebuilt`: the topology after the nodes of a list, each without children, and
  under its parent if that one was already there. `Rebuilt.addEndpoint` is one
  round of the loop and `rebuilt_rebuildTopology` the loop.
* `Restores`: the topology has the nodes of the list with their parents;
  `load_restores_iff` settles when.
-/

namespace PcieFabric

open Std ParentForest

/-- The record that `add_node` stores for the node of a snapshot. -/
def Node.asAdded (n : Node) : Node :=
  { id := n.id, bdf := n.bdf, kind := n.kind, generation := n.generation
    provenance := n.provenance }

/-- The node without its links. -/
def Node.unlinked (n : Node) : Node :=
  { n with parent := none, upstreamLink := none, children := [], downstreamLinks := [] }

/-- A stored record that is the added one, but for the links. -/
lemma Node.fields_eq {m n : Node} (h : m.unlinked = n.asAdded) :
    m.id = n.id ∧ m.bdf = n.bdf ∧ m.kind = n.kind ∧ m.generation = n.generation ∧
      m.provenance = n.provenance := by
  simp only [unlinked, asAdded, Node.mk.injEq] at h
  obtain ⟨hid, hbdf, hkind, hgen, hprov, -⟩ := h
  exact ⟨hid, hbdf, hkind, hgen, hprov⟩

namespace Topology

variable {t : Topology}

/-- An endpoint at a new address under a new id is added and then attached. -/
lemma addEndpoint_of_absent {n : Node} (hfind : t.findByBdf n.bdf = none) (hid : n.id ∉ t.nodes)
    (parent : PciNodeId) :
    t.addEndpoint n.id n.bdf n.kind n.generation n.provenance parent =
      (.ok n.id, ((t.withNode n.asAdded).attach n.id parent none).2) := by
  rcases addNode_cases t n.id n.bdf n.kind n.generation n.provenance with
    ⟨k, hfound, -⟩ | ⟨-, hmem, -⟩ | ⟨-, -, hadd⟩
  · rw [hfind] at hfound
    cases hfound
  · exact absurd hmem hid
  · rw [addEndpoint, hadd]
    rfl

/-! ### The loop -/

/-- The topology after the loop over these nodes. -/
structure Rebuilt (nodes : List Node) (t : Topology) : Prop where
  stored : ∀ n ∈ nodes, (t.nodes[n.id]?).map Node.unlinked = some n.asAdded
  others : ∀ id, id ∉ nodes.map Node.id → t.nodes[id]? = none
  parents : ∀ pre n post, nodes = pre ++ n :: post →
    t.parentOf n.id =
      if n.parent.getD ⟨0⟩ ∈ pre.map Node.id then some (n.parent.getD ⟨0⟩) else none

lemma rebuilt_nil : Rebuilt [] {} := by
  refine ⟨nofun, fun id _ => ExtTreeMap.getElem?_empty, fun pre n post h => ?_⟩
  exact absurd h.symm (List.append_ne_nil_of_right_ne_nil pre (List.cons_ne_nil n post))

namespace Rebuilt

variable {nodes : List Node}

/-- The present nodes are the ones added so far. -/
lemma mem_iff (h : Rebuilt nodes t) (id : PciNodeId) : id ∈ t.nodes ↔ id ∈ nodes.map Node.id := by
  constructor
  · intro hmem
    by_contra hid
    exact notMem_of_getElem? (h.others id hid) hmem
  · intro hid
    obtain ⟨n, hn, rfl⟩ := List.mem_map.mp hid
    obtain ⟨m, hm, -⟩ := Option.map_eq_some_iff.mp (h.stored n hn)
    exact mem_of_getElem? hm

/-- Nothing is found at an address that no node so far has. -/
lemma findByBdf_eq_none (h : Rebuilt nodes t) {b : Bdf} (hb : b ∉ nodes.map Node.bdf) :
    t.findByBdf b = none := by
  rw [findByBdf_eq_none_iff]
  intro k m hget _ hbdf
  have hk : k ∈ nodes.map Node.id := (h.mem_iff k).mp (mem_of_getElem? hget)
  obtain ⟨n, hn, rfl⟩ := List.mem_map.mp hk
  have hstored := h.stored n hn
  rw [hget, Option.map_some] at hstored
  obtain ⟨-, hsame, -⟩ := Node.fields_eq (Option.some.inj hstored)
  exact hb (List.mem_map.mpr ⟨n, hn, hsame.symm.trans hbdf⟩)

/-- **One round of the loop**, for a node with a new id and a new address. -/
lemma addEndpoint (h : Rebuilt nodes t) {n : Node} (hid : n.id ∉ nodes.map Node.id)
    (hbdf : n.bdf ∉ nodes.map Node.bdf) :
    Rebuilt (nodes ++ [n])
      (t.addEndpoint n.id n.bdf n.kind n.generation n.provenance (n.parent.getD ⟨0⟩)).2 := by
  have hnew : n.id ∉ t.nodes := fun hmem => hid ((h.mem_iff n.id).mp hmem)
  rw [addEndpoint_of_absent (h.findByBdf_eq_none hbdf) hnew]
  dsimp only
  have hframe := map_attach Node.unlinked (fun _ _ _ _ _ => rfl) (t.withNode n.asAdded) n.id
    (n.parent.getD ⟨0⟩) none
  have hmem : n.id ∈ (t.withNode n.asAdded).nodes := mem_withNode.mpr (.inl rfl)
  have hlinks : (t.withNode n.asAdded).parentOf = t.parentOf := parentOf_withNode hnew rfl
  have hroot : t.parentOf n.id = none := by
    rw [parentOf, ExtTreeMap.getElem?_eq_none hnew, Option.bind_none]
  refine ⟨fun m hm => ?_, fun x hx => ?_, fun pre m post heq => ?_⟩
  · rw [hframe, getElem?_withNode]
    rcases List.mem_append.mp hm with hold | hlast
    · rw [if_neg fun heq => hid (List.mem_map.mpr ⟨m, hold, heq.symm⟩)]
      exact h.stored m hold
    · rw [List.mem_singleton.mp hlast, if_pos (show n.asAdded.id = n.id from rfl)]
      rfl
  · rw [List.map_append, List.mem_append, not_or] at hx
    rw [← Option.map_eq_none_iff (f := Node.unlinked), hframe, getElem?_withNode,
      if_neg fun heq => hx.2 (List.mem_singleton.mpr heq.symm), h.others x hx.1, Option.map_none]
  · rw [parentOf_attach hmem, hlinks]
    rcases Machine.append_singleton_eq_split heq with ⟨rfl, rfl, rfl⟩ | ⟨rest, rfl, hsplit⟩
    · -- the new node, whose parent may be itself or among the older ones
      rw [hroot]
      refine if_congr ?_ rfl rfl
      rw [mem_withNode, h.mem_iff]
      constructor
      · rintro ⟨-, hne, hself | hmem⟩
        · exact absurd hself hne
        · exact hmem
      · exact fun hmem => ⟨rfl, fun heq => hid (heq ▸ hmem), .inr hmem⟩
    · rw [if_neg]
      · exact h.parents pre m rest hsplit
      · rintro ⟨heq, -⟩
        refine hid (List.mem_map.mpr ⟨m, ?_, heq⟩)
        rw [hsplit]
        exact List.mem_append_right pre List.mem_cons_self

end Rebuilt

/-- The last round of the loop. -/
lemma rebuildTopology_concat (nodes : List Node) (n : Node) :
    Runtime.rebuildTopology (nodes ++ [n]) = ((Runtime.rebuildTopology nodes).addEndpoint n.id n.bdf
      n.kind n.generation n.provenance (n.parent.getD ⟨0⟩)).2 := by
  rw [Runtime.rebuildTopology, List.foldl_append, List.foldl_cons, List.foldl_nil]
  rfl

/-- The loop, over nodes with distinct ids and addresses. -/
lemma rebuilt_rebuildTopology {nodes : List Node} (hids : (nodes.map Node.id).Nodup)
    (hbdfs : (nodes.map Node.bdf).Nodup) : Rebuilt nodes (Runtime.rebuildTopology nodes) := by
  induction nodes using List.reverseRecOn with
  | nil => exact rebuilt_nil
  | append_singleton nodes n ih =>
      rw [List.map_append, List.map_singleton, List.nodup_append_comm, List.singleton_append,
        List.nodup_cons] at hids hbdfs
      rw [rebuildTopology_concat]
      exact (ih hids.2 hbdfs.2).addEndpoint hids.1 hbdfs.1

end Topology

namespace Runtime

/-- The topology has the nodes of the list and no others, each with its id,
address, kind, generation, provenance and parent. -/
structure Restores (nodes : List Node) (t : Topology) : Prop where
  stored : ∀ n ∈ nodes, ∃ m, t.nodes[n.id]? = some m ∧ m.id = n.id ∧ m.bdf = n.bdf ∧
    m.kind = n.kind ∧ m.generation = n.generation ∧ m.provenance = n.provenance ∧
    m.parent = n.parent
  others : ∀ id, id ∉ nodes.map Node.id → t.nodes[id]? = none

/-- Each parent stands before its children, and no node without parent stands
after a node with id 0, which the loop would take for its parent. -/
def ParentsPrecede (nodes : List Node) : Prop :=
  ∀ pre n post, nodes = pre ++ n :: post →
    match n.parent with
    | some p => p ∈ pre.map Node.id
    | none => ⟨0⟩ ∉ pre.map Node.id

/-- **The hierarchy after a load, exactly.** Where ids and addresses are
distinct, a load restores every node with its parent if and only if each parent
stands before its children, and no node without parent after a node with id 0. -/
theorem load_restores_iff (rt : Runtime) (s : Snapshot) (hids : (s.nodes.map Node.id).Nodup)
    (hbdfs : (s.nodes.map Node.bdf).Nodup) :
    Restores s.nodes (rt.loadSnapshot (.ok s)).2.topology ↔ ParentsPrecede s.nodes := by
  have hrebuilt := Topology.rebuilt_rebuildTopology hids hbdfs
  change Restores s.nodes (rebuildTopology s.nodes) ↔ _
  generalize rebuildTopology s.nodes = t at hrebuilt
  have hparent : ∀ pre n post, s.nodes = pre ++ n :: post →
      (t.parentOf n.id = n.parent ↔ match n.parent with
        | some p => p ∈ pre.map Node.id
        | none => ⟨0⟩ ∉ pre.map Node.id) := by
    intro pre n post heq
    rw [hrebuilt.parents pre n post heq]
    cases n.parent with
    | none => simp
    | some p => simp
  constructor
  · intro h pre n post heq
    rw [← hparent pre n post heq]
    have hmem : n ∈ s.nodes := by
      rw [heq]
      exact List.mem_append_right pre List.mem_cons_self
    obtain ⟨m, hget, -, -, -, -, -, hpar⟩ := h.stored n hmem
    rw [Topology.parentOf_of_getElem? hget, hpar]
  · intro h
    refine ⟨fun n hn => ?_, hrebuilt.others⟩
    obtain ⟨pre, post, heq⟩ := List.append_of_mem hn
    obtain ⟨m, hget, hm⟩ := Option.map_eq_some_iff.mp (hrebuilt.stored n hn)
    have hpar := (hparent pre n post heq).mpr (h pre n post heq)
    rw [Topology.parentOf_of_getElem? hget] at hpar
    obtain ⟨hid, hbdf, hkind, hgen, hprov⟩ := Node.fields_eq hm
    exact ⟨m, hget, hid, hbdf, hkind, hgen, hprov, hpar⟩

/-- A snapshot as `save` would write one: distinct ids, the nodes in the order
of their distinct addresses, none removed, and the parents a forest on them. -/
structure CanonicalNodes (nodes : List Node) : Prop where
  ids : (nodes.map Node.id).Nodup
  sorted : nodes.Pairwise fun a b => a.bdf.before b.bdf
  current : ∀ n ∈ nodes, n.removed = false
  closed : ∀ n ∈ nodes, ∀ p, n.parent = some p → p ∈ nodes.map Node.id
  forest : Acyclic fun id => (nodes.find? fun n => n.id = id).bind Node.parent

/-- A port on bus 0 and a card under it on bus 1: both are restored. -/
theorem card_after_port_restored :
    Restores [{ id := ⟨1⟩ }, { id := ⟨2⟩, bdf := { bus := 1 }, parent := some ⟨1⟩ }]
      (({} : Runtime).loadSnapshot (.ok { nodes :=
        [{ id := ⟨1⟩ }, { id := ⟨2⟩, bdf := { bus := 1 }, parent := some ⟨1⟩ }] })).2.topology := by
  refine (load_restores_iff {} { nodes :=
    [{ id := ⟨1⟩ }, { id := ⟨2⟩, bdf := { bus := 1 }, parent := some ⟨1⟩ }] }
    (by decide) (by decide)).mpr fun pre n post heq => ?_
  rcases pre with _ | ⟨first, _ | ⟨second, pre⟩⟩
  · obtain ⟨rfl, -⟩ := List.cons.inj heq
    exact List.not_mem_nil
  · obtain ⟨rfl, htail⟩ := List.cons.inj heq
    obtain ⟨rfl, -⟩ := List.cons.inj htail
    exact List.mem_cons_self
  · have hlength := congrArg List.length heq
    simp at hlength

/-- A card on bus 0 under a port on bus 1: the card is added before its parent,
and the load leaves it without one. -/
theorem card_before_port_lost :
    CanonicalNodes [{ id := ⟨2⟩, parent := some ⟨1⟩ }, { id := ⟨1⟩, bdf := { bus := 1 } }] ∧
      ¬ Restores [{ id := ⟨2⟩, parent := some ⟨1⟩ }, { id := ⟨1⟩, bdf := { bus := 1 } }]
        (({} : Runtime).loadSnapshot (.ok { nodes := [{ id := ⟨2⟩, parent := some ⟨1⟩ },
          { id := ⟨1⟩, bdf := { bus := 1 } }] })).2.topology := by
  refine ⟨⟨by decide, by decide, by decide, by decide, ?_⟩, ?_⟩
  · have hlinks : (fun id : PciNodeId =>
        (List.find? (fun n : Node => n.id = id)
          [{ id := ⟨2⟩, parent := some ⟨1⟩ }, { id := ⟨1⟩, bdf := { bus := 1 } }]).bind
            Node.parent) = Function.update (fun _ => none) ⟨2⟩ (some ⟨1⟩) := by
      funext id
      by_cases hcard : id = ⟨2⟩
      · subst hcard
        rfl
      · rw [Function.update_of_ne hcard, List.find?_cons_of_neg (by simpa using Ne.symm hcard)]
        by_cases hport : id = ⟨1⟩
        · subst hport
          rfl
        · rw [List.find?_cons_of_neg (by simpa using Ne.symm hport)]
          rfl
    rw [hlinks, acyclic_link_iff (acyclic_of_none fun _ => rfl)]
    refine ⟨by decide, fun hbelow => ?_⟩
    obtain ⟨b, hb⟩ := exists_up_of_below hbelow
    cases hb
  · rintro ⟨hstored, -⟩
    obtain ⟨m, hget, -, -, -, -, -, hpar⟩ := hstored _ List.mem_cons_self
    have hlost := congrArg (Option.map Node.parent) hget
    rw [Option.map_some, hpar] at hlost
    exact absurd hlost (by decide +kernel)

end Runtime

end PcieFabric
