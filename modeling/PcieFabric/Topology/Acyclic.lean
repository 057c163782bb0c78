import PcieFabric.Topology.Basic
import PcieFabric.Lib.ParentForest

/-!
Cycles in the hierarchy: what each builder call does to the parent links, and
exactly when a run stays acyclic.

* `parentOf`: the parent links as a function on ids.
* `attach_links`: `attach` writes one link or none, whatever it returns, since
  its cycle test runs after the write.
* `Wired`: the parent links are acyclic and name nodes that are present.
  `wired_step_iff` settles one call, `acyclic_iff_links_safe` the runs.
-/

namespace PcieFabric.Topology

open Std Machine ParentForest

/-- The parent links: an absent node has no parent. -/
def parentOf (t : Topology) (id : PciNodeId) : Option PciNodeId := t.nodes[id]?.bind Node.parent

variable {t : Topology}

lemma parentOf_of_getElem? {id : PciNodeId} {n : Node} (h : t.nodes[id]? = some n) :
    t.parentOf id = n.parent := by
  rw [parentOf, h, Option.bind_some]

lemma mem_of_parentOf {id p : PciNodeId} (h : t.parentOf id = some p) : id ∈ t.nodes := by
  rw [parentOf, Option.bind_eq_some_iff] at h
  obtain ⟨n, hn, -⟩ := h
  exact mem_of_getElem? hn

/-- The parent links depend on the nodes. -/
lemma parentOf_congr {t' : Topology} (h : t'.nodes = t.nodes) : t'.parentOf = t.parentOf := by
  funext x
  rw [parentOf, h, parentOf]

/-- A change of a node that keeps its parent keeps the parent links. -/
lemma parentOf_modify (t : Topology) (k : PciNodeId) (f : Node → Node)
    (hf : ∀ n, (f n).parent = n.parent) :
    parentOf { t with nodes := t.nodes.modify k f } = t.parentOf := by
  funext id
  simp only [parentOf, ExtTreeMap.getElem?_modify, LawfulEqCmp.compare_eq_iff_eq]
  split
  · next h =>
      subst h
      cases t.nodes[k]? with
      | none => rfl
      | some n => simp [hf]
  · rfl

/-- A node without parent under a new id adds no parent link. -/
lemma parentOf_withNode {n : Node} (hid : n.id ∉ t.nodes) (hn : n.parent = none) :
    (t.withNode n).parentOf = t.parentOf := by
  funext x
  rw [parentOf, getElem?_withNode, parentOf]
  split_ifs with heq
  · rw [← heq, ExtTreeMap.getElem?_eq_none hid, Option.bind_some, hn, Option.bind_none]
  · rfl

/-- `addNode` writes no parent link and drops no node. -/
lemma addNode_frame (t : Topology) (id : PciNodeId) (bdf : Bdf) (kind : DeviceClass)
    (gen : PciNodeGeneration) (src : Provenance) :
    (t.addNode id bdf kind gen src).2.parentOf = t.parentOf ∧
      ∀ x ∈ t.nodes, x ∈ (t.addNode id bdf kind gen src).2.nodes := by
  rcases addNode_cases t id bdf kind gen src with ⟨k, -, hadd⟩ | ⟨-, -, hadd⟩ | ⟨-, hid, hadd⟩
  · rw [hadd]
    exact ⟨parentOf_modify t k _ fun _ => rfl, fun x hx => ExtTreeMap.mem_modify.mpr hx⟩
  · rw [hadd]
    exact ⟨rfl, fun x hx => hx⟩
  · rw [hadd]
    exact ⟨parentOf_withNode hid rfl, fun x hx => mem_withNode.mpr (.inr hx)⟩

/-- The node `addNode` returns: the current one at the address, or the new id,
which then was absent. -/
lemma addNode_ok {id : PciNodeId} {bdf : Bdf} {kind : DeviceClass} {gen : PciNodeGeneration}
    {src : Provenance} {child : PciNodeId} {t' : Topology}
    (h : t.addNode id bdf kind gen src = (.ok child, t')) :
    t.findByBdf bdf = some child ∨ t.findByBdf bdf = none ∧ child = id ∧ id ∉ t.nodes := by
  rcases addNode_cases t id bdf kind gen src with
    ⟨k, hfind, hadd⟩ | ⟨-, -, hadd⟩ | ⟨hnone, hid, hadd⟩ <;>
    obtain ⟨hresult, -⟩ := Prod.mk.inj (hadd.symm.trans h)
  · cases hresult
    exact .inl hfind
  · cases hresult
  · cases hresult
    exact .inr ⟨hnone, rfl, hid⟩

/-- The link that `linkNodes` writes, among the parent links. -/
lemma parentOf_linkNodes {child parent : PciNodeId} {p : Node} (hne : child ≠ parent)
    (hp : t.nodes[parent]? = some p) (c : Node) (link : Option LinkId) :
    (t.linkNodes child parent c p link).parentOf =
      Function.update t.parentOf child (some parent) := by
  funext x
  simp only [parentOf, linkNodes, ExtTreeMap.getElem?_insert, LawfulEqCmp.compare_eq_iff_eq]
  by_cases hxp : parent = x
  · subst hxp
    rw [if_pos rfl, Function.update_of_ne (Ne.symm hne), parentOf_of_getElem? hp]
    rfl
  · rw [if_neg hxp]
    by_cases hxc : child = x
    · subst hxc
      rw [if_pos rfl, Function.update_self]
      rfl
    · rw [if_neg hxc, Function.update_of_ne (Ne.symm hxc), parentOf]

/-- `linkNodes` writes nodes that are present. -/
lemma mem_linkNodes {child parent : PciNodeId} (hc : child ∈ t.nodes) (hp : parent ∈ t.nodes)
    (c p : Node) (link : Option LinkId) (x : PciNodeId) :
    x ∈ (t.linkNodes child parent c p link).nodes ↔ x ∈ t.nodes := by
  simp only [linkNodes, ExtTreeMap.mem_insert, LawfulEqCmp.compare_eq_iff_eq]
  constructor
  · rintro (rfl | rfl | hx)
    · exact hp
    · exact hc
    · exact hx
  · exact fun hx => .inr (.inr hx)

/-- What `attach` does to the parent links: nothing, or it links the child under
the parent. -/
lemma attach_links (t : Topology) (child parent : PciNodeId) (link : Option LinkId) :
    ((t.attach child parent link).2 = t ∧
        (parent ∉ t.nodes ∨ child ∉ t.nodes ∨ child = parent ∨ t.parentOf child = some parent)) ∨
      (child ≠ parent ∧ parent ∈ t.nodes ∧
        (t.attach child parent link).2.parentOf =
          Function.update t.parentOf child (some parent) ∧
        ∀ x, x ∈ (t.attach child parent link).2.nodes ↔ x ∈ t.nodes) := by
  rcases attach_cases t child parent link with ⟨heq, hwhy⟩ | ⟨c, p, hne, hc, hp, heq⟩
  · refine .inl ⟨heq, ?_⟩
    rcases hwhy with hp | hc | hself | ⟨c, hc, halready⟩
    · exact .inl (notMem_of_getElem? hp)
    · exact .inr (.inl (notMem_of_getElem? hc))
    · exact .inr (.inr (.inl hself))
    · exact .inr (.inr (.inr (by rw [parentOf_of_getElem? hc, halready])))
  · have hmemc : child ∈ t.nodes := mem_of_getElem? hc
    have hmemp : parent ∈ t.nodes := mem_of_getElem? hp
    rw [heq]
    exact .inr ⟨hne, hmemp, parentOf_linkNodes hne hp c link, mem_linkNodes hmemc hmemp c p link⟩

/-- The parent links after `attach` of a present node: it has the parent if that is
another present node, whatever the call answers. -/
lemma parentOf_attach {child : PciNodeId} (hchild : child ∈ t.nodes) (parent : PciNodeId)
    (link : Option LinkId) (x : PciNodeId) :
    (t.attach child parent link).2.parentOf x =
      if x = child ∧ child ≠ parent ∧ parent ∈ t.nodes then some parent else t.parentOf x := by
  rcases attach_links t child parent link with ⟨heq, hwhy⟩ | ⟨hne, hmem, hpar, -⟩
  · rw [heq]
    split_ifs with hnew
    · obtain ⟨rfl, hne, hmem⟩ := hnew
      rcases hwhy with hp | hc | hself | hlinked
      · exact absurd hmem hp
      · exact absurd hchild hc
      · exact absurd hself hne
      · exact hlinked
    · rfl
  · rw [hpar, Function.update_apply]
    refine if_congr ?_ rfl rfl
    exact ⟨fun hx => ⟨hx, hne, hmem⟩, And.left⟩

/-! ### One call -/

/-- The parent links are acyclic and name nodes that are present. -/
structure Wired (t : Topology) : Prop where
  acyclic : Acyclic t.parentOf
  closed : ∀ x p, t.parentOf x = some p → p ∈ t.nodes

/-- The link a call asks for does not put a node under one of its own
descendants. A call that adds a node at a new address links a leaf. -/
def LinkSafe (t : Topology) : TopologyCall → Prop
  | .attach child parent _ => ¬ Below t.parentOf parent child
  | .addBridge bdf _ _ parent | .addEndpoint _ bdf _ _ _ parent =>
      ∀ child, t.findByBdf bdf = some child → ¬ Below t.parentOf parent child
  | _ => True

lemma wired_init : Wired {} :=
  ⟨acyclic_of_none fun _ => by simp [parentOf], fun _ _ h => by simp [parentOf] at h⟩

/-- A frame for `Wired`: the same parent links and no node dropped. -/
lemma Wired.of_frame (h : t.Wired) {t' : Topology} (hpar : t'.parentOf = t.parentOf)
    (hmem : ∀ x ∈ t.nodes, x ∈ t'.nodes) : t'.Wired := by
  refine ⟨by rw [hpar]; exact h.acyclic, fun x p hx => ?_⟩
  rw [hpar] at hx
  exact hmem p (h.closed x p hx)

/-- Nothing lies below an absent node. -/
lemma Wired.not_below_absent (h : t.Wired) {p c : PciNodeId} (hc : c ∉ t.nodes) :
    ¬ Below t.parentOf p c := by
  intro hbelow
  obtain ⟨b, hb⟩ := exists_up_of_below hbelow
  exact hc (h.closed b c hb)

/-- **`attach`, settled**: in a wired topology the call leaves the links acyclic
exactly when the parent is not below the child. -/
lemma Wired.acyclic_attach_iff (h : t.Wired) (child parent : PciNodeId) (link : Option LinkId) :
    Acyclic (t.attach child parent link).2.parentOf ↔ ¬ Below t.parentOf parent child := by
  rcases attach_links t child parent link with ⟨heq, hwhy⟩ | ⟨hne, -, hpar, -⟩
  · rw [heq]
    refine iff_of_true h.acyclic ?_
    rcases hwhy with hp | hc | rfl | hlinked
    · intro hbelow
      obtain ⟨b, hb, -⟩ := Relation.TransGen.head'_iff.mp hbelow
      exact hp (mem_of_parentOf hb)
    · exact h.not_below_absent hc
    · exact h.acyclic child
    · exact fun hbelow => h.acyclic parent (hbelow.tail hlinked)
  · rw [hpar, acyclic_link_iff h.acyclic]
    exact and_iff_right hne

/-- The links `attach` writes name present nodes. -/
lemma Wired.closed_attach (h : t.Wired) (child parent : PciNodeId) (link : Option LinkId) :
    ∀ x p, (t.attach child parent link).2.parentOf x = some p →
      p ∈ (t.attach child parent link).2.nodes := by
  rcases attach_links t child parent link with ⟨heq, -⟩ | ⟨-, hmem, hpar, hnodes⟩
  · rw [heq]
    exact h.closed
  · intro x p hx
    rw [hpar] at hx
    rw [hnodes]
    by_cases hxc : x = child
    · subst hxc
      rw [Function.update_self] at hx
      exact Option.some.inj hx ▸ hmem
    · rw [Function.update_of_ne hxc] at hx
      exact h.closed x p hx

/-- Adding and attaching: the parent links stay acyclic exactly when the parent
is not below a node that is already current at the address. -/
lemma Wired.attachAdded_addNode (h : t.Wired) (id : PciNodeId) (bdf : Bdf) (kind : DeviceClass)
    (gen : PciNodeGeneration) (src : Provenance) (parent : PciNodeId) :
    let t' := (attachAdded (t.addNode id bdf kind gen src) parent).2
    (Acyclic t'.parentOf ↔
        ∀ child, t.findByBdf bdf = some child → ¬ Below t.parentOf parent child) ∧
      ∀ x p, t'.parentOf x = some p → p ∈ t'.nodes := by
  obtain ⟨hpar, hmem⟩ := addNode_frame t id bdf kind gen src
  have hwired := h.of_frame hpar hmem
  rcases hadd : t.addNode id bdf kind gen src with ⟨_ | child, t₁⟩
  · rw [hadd] at hwired
    refine ⟨iff_of_true hwired.acyclic fun child hchild => ?_, hwired.closed⟩
    -- an add that fails found no current node at the address
    rcases addNode_cases t id bdf kind gen src with ⟨k, -, hok⟩ | ⟨hnone, -⟩ | ⟨hnone, -⟩
    · rw [hok] at hadd
      cases hadd
    · rw [hnone] at hchild
      cases hchild
    · rw [hnone] at hchild
      cases hchild
  · rw [hadd] at hwired hpar
    dsimp only at hwired hpar
    refine ⟨?_, hwired.closed_attach child parent none⟩
    rw [attachAdded, hwired.acyclic_attach_iff, hpar]
    rcases addNode_ok hadd with hfound | ⟨hnone, rfl, habsent⟩
    · rw [hfound]
      simp
    · refine iff_of_true (h.not_below_absent habsent) fun child hchild => ?_
      rw [hnone] at hchild
      cases hchild

/-- A call on a wired topology leaves the links acyclic exactly when its link is
safe, and always closed. -/
lemma wired_step_iff (h : t.Wired) (call : TopologyCall) :
    (Acyclic (t.step call).parentOf ↔ t.LinkSafe call) ∧
      ∀ x p, (t.step call).parentOf x = some p → p ∈ (t.step call).nodes := by
  have hsame : ∀ {t' : Topology}, t'.Wired →
      (Acyclic t'.parentOf ↔ True) ∧ ∀ x p, t'.parentOf x = some p → p ∈ t'.nodes :=
    fun h' => ⟨iff_true_intro h'.acyclic, h'.closed⟩
  have hfresh : Wired t.freshNodeId.2 := h.of_frame rfl fun x hx => hx
  cases call with
  | addRootComplex bdf gen src =>
      obtain ⟨hpar, hmem⟩ :=
        addNode_frame t.freshNodeId.2 t.freshNodeId.1 bdf DeviceClass.rootComplex gen src
      exact hsame (hfresh.of_frame hpar hmem)
  | addBridge bdf gen src parent => exact hfresh.attachAdded_addNode _ bdf _ gen src parent
  | addEndpoint id bdf kind gen src parent => exact h.attachAdded_addNode id bdf kind gen src parent
  | attach child parent link =>
      exact ⟨h.acyclic_attach_iff child parent link, h.closed_attach child parent link⟩
  | removeNode id =>
      refine hsame (h.of_frame ?_ fun x hx => ?_) <;> rw [step, removeNode] <;> split
      · exact parentOf_modify t id _ fun _ => rfl
      · rfl
      · exact ExtTreeMap.mem_modify.mpr hx
      · exact hx
  | bumpGeneration id =>
      refine hsame (h.of_frame ?_ fun x hx => ?_) <;> rw [step, bumpGeneration] <;> split
      · exact parentOf_modify t id _ fun _ => rfl
      · rfl
      · exact ExtTreeMap.mem_modify.mpr hx
      · exact hx

/-! ### Runs -/

/-- **Acyclicity, exactly.** Starting from the empty topology, every state
reached by a sequence of calls is acyclic if and only if no call of the sequence
links a node under one of its own descendants. -/
theorem acyclic_iff_links_safe (calls : List TopologyCall) :
    AllSteps step (fun t call => Acyclic (t.step call).parentOf) {} calls ↔
      AllSteps step LinkSafe {} calls :=
  allSteps_congr step (I := Wired) (fun _ call h => (wired_step_iff h call).1)
    (fun _ call h hsafe =>
      ⟨(wired_step_iff h call).1.mpr hsafe, (wired_step_iff h call).2⟩) wired_init

/-- A root complex (id 1), an endpoint under it (id 100), and the root attached
to the endpoint: the call is answered `HIERARCHY_CYCLE`, and the two nodes are
each other's parents. -/
theorem cycle_left_by_rejected_attach :
    ¬ AllSteps step (fun t call => Acyclic (t.step call).parentOf) {}
      [.addRootComplex {} ⟨1⟩ Provenance.reported,
        .addEndpoint ⟨100⟩ { device := 2 } DeviceClass.accelerator ⟨1⟩ Provenance.reported ⟨1⟩,
        .attach ⟨1⟩ ⟨100⟩ none] := by
  rintro ⟨-, -, hlast, -⟩
  exact not_acyclic_of_mutual ⟨1⟩ ⟨100⟩ (by decide +kernel) (by decide +kernel) hlast

end PcieFabric.Topology
