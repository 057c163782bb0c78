import PcieFabric.Topology.Linking

/-!
The two records of the tree (`topology.hpp`): the parent of every node and the
children of every node.

* `childrenOf`, `siblings`: the queries on the children.
* `Mirrored`: the children record the same links as the parents.
  `Mirrored.attach` and `Mirrored.not_attach` settle one `attach`,
  `Mirrored.step` one call.
* `links_mirrored_iff`: exactly when the records agree throughout a run.
-/

namespace PcieFabric.Topology

open Std Machine ParentForest

/-- `Topology::children_of_locked`. -/
def childrenOf (t : Topology) (id : PciNodeId) : List PciNodeId :=
  match t.nodes[id]? with
  | none => []
  | some n => n.children

/-- `Topology::siblings_locked`. -/
def siblings (t : Topology) (id : PciNodeId) : List PciNodeId :=
  match t.nodes[id]? with
  | none => []
  | some n =>
      match n.parent with
      | none => []
      | some p => t.childrenOf p

/-- Every node is listed once by its parent and by no other node, and the queries
report the nodes that share the parent. -/
def LinksMirrored (t : Topology) : Prop :=
  (∀ (p c : PciNodeId) n m, t.nodes[p]? = some n → t.nodes[c]? = some m →
      n.children.count c = if m.parent = some p then 1 else 0) ∧
    (∀ p c, c ∈ t.childrenOf p ↔ t.parentOf c = some p) ∧
    ∀ id p, t.parentOf id = some p → ∀ c, c ∈ t.siblings id ↔ t.parentOf c = some p

/-- The children record the same links as the parents. -/
def Mirrored (t : Topology) : Prop := Mirrors t.parentOf t.childrenOf

/-- The link would give a node that has a parent another one. -/
def Moves (t : Topology) (child parent : PciNodeId) : Prop :=
  child ≠ parent ∧ parent ∈ t.nodes ∧ ∃ q, t.parentOf child = some q ∧ q ≠ parent

/-- The call would give a node that has a parent another one. -/
def Reparents (t : Topology) : TopologyCall → Prop
  | .attach child parent _ => t.Moves child parent
  | .addBridge bdf _ _ parent | .addEndpoint _ bdf _ _ _ parent =>
      ∃ child, t.findByBdf bdf = some child ∧ t.Moves child parent
  | .addRootComplex .. | .removeNode .. | .bumpGeneration .. => False

variable {t : Topology}

/-! ### The children -/

lemma childrenOf_of_getElem? {id : PciNodeId} {n : Node} (h : t.nodes[id]? = some n) :
    t.childrenOf id = n.children := by
  rw [childrenOf, h]

lemma childrenOf_of_not_mem {id : PciNodeId} (h : id ∉ t.nodes) : t.childrenOf id = [] := by
  rw [childrenOf, ExtTreeMap.getElem?_eq_none h]

/-- The children depend on the nodes. -/
lemma childrenOf_congr {t' : Topology} (h : t'.nodes = t.nodes) : t'.childrenOf = t.childrenOf := by
  funext x
  rw [childrenOf, h, childrenOf]

/-- A change of a node that keeps its children keeps the children. -/
lemma childrenOf_modify (t : Topology) (k : PciNodeId) (f : Node → Node)
    (hf : ∀ n, (f n).children = n.children) :
    childrenOf { t with nodes := t.nodes.modify k f } = t.childrenOf := by
  funext x
  simp only [childrenOf, ExtTreeMap.getElem?_modify, LawfulEqCmp.compare_eq_iff_eq]
  split_ifs with hk
  · subst hk
    cases t.nodes[k]? with
    | none => rfl
    | some n => exact hf n
  · rfl

/-- A node without children under a new id adds none. -/
lemma childrenOf_withNode {n : Node} (hid : n.id ∉ t.nodes) (hn : n.children = []) :
    (t.withNode n).childrenOf = t.childrenOf := by
  funext x
  rw [childrenOf, getElem?_withNode]
  split_ifs with hx
  · rw [← hx, childrenOf_of_not_mem hid]
    exact hn
  · rfl

/-- The child that `linkNodes` lists, among the children. -/
lemma childrenOf_linkNodes {child parent : PciNodeId} {c p : Node}
    (hc : t.nodes[child]? = some c) (hp : t.nodes[parent]? = some p) (link : Option LinkId) :
    (t.linkNodes child parent c p link).childrenOf = Function.update t.childrenOf parent
      (if (t.childrenOf parent).contains child then t.childrenOf parent
        else t.childrenOf parent ++ [child]) := by
  rw [childrenOf_of_getElem? hp]
  funext x
  simp only [childrenOf, linkNodes, ExtTreeMap.getElem?_insert, LawfulEqCmp.compare_eq_iff_eq]
  by_cases hxp : parent = x
  · subst hxp
    rw [if_pos rfl, Function.update_self]
  · rw [if_neg hxp, Function.update_of_ne (Ne.symm hxp)]
    by_cases hxc : child = x
    · subst hxc
      rw [if_pos rfl, childrenOf, hc]
    · rw [if_neg hxc, childrenOf]

lemma Mirrored.linksMirrored (h : t.Mirrored) : t.LinksMirrored := by
  refine ⟨fun p c n m hp hc => ?_, fun p c => Mirrors.mem_iff h, fun id p hid c => ?_⟩
  · rw [← childrenOf_of_getElem? hp, h p c, parentOf_of_getElem? hc]
  · rw [siblings]
    cases hn : t.nodes[id]? with
    | none =>
        rw [parentOf, hn] at hid
        cases hid
    | some n =>
        rw [parentOf_of_getElem? hn] at hid
        simp only [hid]
        exact Mirrors.mem_iff h

/-- A frame for `Mirrored`: the same parents and children. -/
lemma Mirrored.of_frame (h : t.Mirrored) {t' : Topology} (hpar : t'.parentOf = t.parentOf)
    (hchildren : t'.childrenOf = t.childrenOf) : t'.Mirrored := by
  rw [Mirrored, hpar, hchildren]
  exact h

lemma mirrored_init : Mirrored {} := by
  intro p c
  rw [childrenOf_of_not_mem ExtTreeMap.not_mem_empty, if_neg]
  · rfl
  · intro hc
    exact ExtTreeMap.not_mem_empty (mem_of_parentOf hc)

/-! ### One call -/

/-- **`attach`** keeps the records where it moves no node. -/
lemma Mirrored.attach (h : t.Mirrored) {child parent : PciNodeId} (hstay : ¬ t.Moves child parent)
    (link : Option LinkId) : (t.attach child parent link).2.Mirrored := by
  cases attach_move t child parent link with
  | absent _ hres | selfCycle _ hres | linked _ _ hres =>
      rw [hres]
      exact h
  | rejected c p hne hc hp hnew _ hres | written c p hne hc hp hnew _ hres =>
      rw [← parentOf_of_getElem? hc] at hnew
      have hnone : t.parentOf child = none := by
        refine Option.eq_none_iff_forall_ne_some.mpr fun q hq =>
          hstay ⟨hne, mem_of_getElem? hp, q, hq, ?_⟩
        rintro rfl
        exact hnew hq
      have hunlisted : (t.childrenOf parent).contains child = false := by
        rw [List.contains_eq_mem, decide_eq_false_iff_not, Mirrors.mem_iff h]
        exact hnew
      rw [hres, Mirrored, parentOf_linkNodes hne hp, childrenOf_linkNodes hc hp, hunlisted,
        if_neg Bool.false_ne_true]
      exact mirrors_link h hnone

/-- Where it moves a node, the old parent still lists it. -/
lemma Mirrored.not_attach (h : t.Mirrored) {child parent : PciNodeId} (hmove : t.Moves child parent)
    (link : Option LinkId) : ¬ (t.attach child parent link).2.LinksMirrored := by
  obtain ⟨hne, hmem, q, hq, hqp⟩ := hmove
  cases attach_move t child parent link with
  | absent habsent _ =>
      exact absurd (mem_of_parentOf hq) (habsent.resolve_left (not_not_intro hmem))
  | selfCycle hself _ => exact absurd hself hne
  | linked _ hlinked _ => exact absurd (Option.some.inj (hq.symm.trans hlinked)) hqp
  | rejected c p _ hc hp _ _ hres | written c p _ hc hp _ _ hres =>
      rintro ⟨-, hlisted, -⟩
      rw [hres, parentOf_linkNodes hne hp, childrenOf_linkNodes hc hp] at hlisted
      exact not_mirrors_relink h hq hqp _ (hlisted q)

/-- A new generation, a new node without links and the same nodes keep the records. -/
lemma Mirrored.incremented (h : t.Mirrored) (k : PciNodeId) : (t.incremented k).Mirrored :=
  h.of_frame (parentOf_modify t k _ fun _ => rfl) (childrenOf_modify t k _ fun _ => rfl)

lemma Mirrored.withNode (h : t.Mirrored) {n : Node} (hid : n.id ∉ t.nodes)
    (hlinks : n.parent = none ∧ n.children = []) : (t.withNode n).Mirrored :=
  h.of_frame (parentOf_withNode hid hlinks.1) (childrenOf_withNode hid hlinks.2)

lemma Mirrored.of_nodes (h : t.Mirrored) {t' : Topology} (hnodes : t'.nodes = t.nodes) :
    t'.Mirrored :=
  h.of_frame (parentOf_congr hnodes) (childrenOf_congr hnodes)

/-- A call that puts a node under a parent moves the node that is current at its
address, if any. -/
lemma reparents_iff_of_placement {call : TopologyCall} {bdf : Bdf} {kind : DeviceClass}
    {parent : PciNodeId} (h : call.placement = some (bdf, kind, parent)) :
    t.Reparents call ↔ ∃ child, t.findByBdf bdf = some child ∧ t.Moves child parent := by
  cases call with
  | addBridge b gen src p => cases h; rfl
  | addEndpoint id b k gen src p => cases h; rfl
  | addRootComplex b gen src => cases h
  | attach child p link => cases h
  | removeNode id => cases h
  | bumpGeneration id => cases h

/-- **Adding under a parent**: the records agree after it exactly when it moves no
node to another parent. -/
lemma Mirrored.place (h : t.Mirrored) {call : TopologyCall} {bdf : Bdf} {kind : DeviceClass}
    {parent : PciNodeId} (hplace : call.placement = some (bdf, kind, parent)) :
    (¬ t.Reparents call → (t.step call).Mirrored) ∧
      (t.Reparents call → ¬ (t.step call).LinksMirrored) := by
  rw [reparents_iff_of_placement hplace]
  cases placed_cases (t := t) hplace with
  | found k t₁ hfind _ hnodes hstep =>
      have h₁ : t₁.Mirrored := (h.incremented k).of_nodes hnodes
      have hmoves : t₁.Moves k parent ↔ t.Moves k parent := by
        have hpar : t₁.parentOf = t.parentOf :=
          (parentOf_congr hnodes).trans (parentOf_modify t k _ fun _ => rfl)
        rw [Moves, hpar, hnodes, Topology.incremented, ExtTreeMap.mem_modify, Moves]
      rw [hstep]
      refine ⟨fun hstay => h₁.attach (fun hmove => hstay ⟨k, hfind, hmoves.mp hmove⟩) none, ?_⟩
      rintro ⟨child, hchild, hmove⟩
      obtain rfl := Option.some.inj (hfind.symm.trans hchild)
      exact h₁.not_attach (hmoves.mpr hmove) none
  | refused id hfind _ _ _ hnodes =>
      refine ⟨fun _ => h.of_nodes hnodes, ?_⟩
      rintro ⟨child, hchild, -⟩
      rw [hfind] at hchild
      cases hchild
  | created id t₁ n hfind _ hnew _ hid _ hlinks hnodes hstep =>
      have h₁ : t₁.Mirrored := (h.withNode (hid ▸ hnew) hlinks).of_nodes hnodes
      rw [hstep]
      refine ⟨fun _ => h₁.attach ?_ none, ?_⟩
      · rintro ⟨-, -, q, hq, -⟩
        rw [parentOf, hnodes, getElem?_withNode, if_pos hid, Option.bind_some, hlinks.1] at hq
        cases hq
      · rintro ⟨child, hchild, -⟩
        rw [hfind] at hchild
        cases hchild

/-- **One call**: the records agree after it exactly when it moves no node to
another parent. -/
lemma Mirrored.step (h : t.Mirrored) (call : TopologyCall) :
    (¬ t.Reparents call → (t.step call).Mirrored) ∧
      (t.Reparents call → ¬ (t.step call).LinksMirrored) := by
  cases call with
  | addRootComplex bdf gen src =>
      have hfresh : t.freshNodeId.2.Mirrored := h.of_nodes rfl
      refine ⟨fun _ => ?_, False.elim⟩
      rw [Topology.step, addRootComplex]
      dsimp only
      rcases addNode_cases t.freshNodeId.2 t.freshNodeId.1 bdf DeviceClass.rootComplex gen src with
        ⟨k, -, hadd⟩ | ⟨-, -, hadd⟩ | ⟨-, hid, hadd⟩ <;> rw [hadd]
      · exact hfresh.incremented k
      · exact hfresh
      · exact hfresh.withNode hid ⟨rfl, rfl⟩
  | addBridge bdf gen src parent => exact h.place rfl
  | addEndpoint id bdf kind gen src parent => exact h.place rfl
  | attach child parent link =>
      exact ⟨fun hstay => h.attach hstay link, fun hmove => h.not_attach hmove link⟩
  | removeNode id =>
      refine ⟨fun _ => ?_, False.elim⟩
      rw [Topology.step, removeNode]
      split
      · exact h.of_frame (parentOf_modify t id _ fun _ => rfl)
          (childrenOf_modify t id _ fun _ => rfl)
      · exact h
  | bumpGeneration id =>
      refine ⟨fun _ => ?_, False.elim⟩
      rw [Topology.step, bumpGeneration]
      split
      · exact h.incremented id
      · exact h

/-! ### Runs -/

/-- **The two records, exactly.** In a run from the empty topology every state has
parent and child links that mirror each other, if and only if no call gives a
node that has a parent another one. -/
theorem links_mirrored_iff (calls : List TopologyCall) :
    AllSteps Topology.step (fun t call => (t.step call).LinksMirrored) {} calls ↔
      AllSteps Topology.step (fun t call => ¬ t.Reparents call) {} calls := by
  refine allSteps_congr Topology.step (I := Mirrored) (fun t call h => ?_)
    (fun t call h hstay => (h.step call).1 hstay) mirrored_init
  constructor
  · exact fun hlinks hmove => (h.step call).2 hmove hlinks
  · exact fun hstay => ((h.step call).1 hstay).linksMirrored

/-- Two root complexes (ids 1 and 2) and an endpoint (id 100) that is attached to
the first and then to the second: it is listed under both. -/
theorem moved_node_listed_twice :
    ¬ AllSteps Topology.step (fun t call => (t.step call).LinksMirrored) {}
      [.addRootComplex {} ⟨1⟩ Provenance.reported,
        .addRootComplex { bus := 1 } ⟨1⟩ Provenance.reported,
        .addEndpoint ⟨100⟩ { device := 2 } DeviceClass.nic ⟨1⟩ Provenance.reported ⟨1⟩,
        .attach ⟨100⟩ ⟨2⟩ none] := by
  rintro ⟨-, -, -, ⟨-, hlisted, -⟩, -⟩
  have hparent := (hlisted ⟨1⟩ ⟨100⟩).mp (by decide +kernel)
  revert hparent
  decide +kernel

end PcieFabric.Topology
