import PcieFabric.Topology.Presence

/-!
Removed nodes of the hierarchy (`topology.hpp`). `remove_node` sets a flag and leaves
the links; the walks follow the links without a look at the flag.

* `HidesRemoved`: what the traversals return for current nodes is not removed.
  `hidesRemoved_iff`: no current node has a removed parent or child.
* `ExposesRemoved`: the calls that link a current node and a removed one, or
  remove a node that a current one is linked to.
* `removed_hidden_iff`: over whole runs, removed nodes stay hidden exactly as long
  as no call is one of these.
-/

namespace PcieFabric.Topology

open Std Machine ParentForest

variable {t : Topology}

/-- Whether a node is removed, if there is one. -/
def flag (t : Topology) (id : PciNodeId) : Option Bool := (t.nodes[id]?).map Node.removed

/-- The node is present and not removed. -/
def Current (t : Topology) (id : PciNodeId) : Prop := t.flag id = some false

/-- The node is present and removed. -/
def Removed (t : Topology) (id : PciNodeId) : Prop := t.flag id = some true

/-- What the traversals return for current nodes is not removed. -/
def HidesRemoved (t : Topology) : Prop := ∀ a b, t.Current a → t.Current b → ∀ x,
  (x ∈ t.ancestors a ∨ x ∈ t.childrenOf a ∨ x ∈ t.siblings a ∨ t.rootComplexOf a = some x ∨
    t.commonAncestor a b = some x ∨ x ∈ t.pathNodes a b) → ¬ t.Removed x

/-- No current node has a removed parent or lists a removed child. -/
structure Unlinked (t : Topology) : Prop where
  parent : ∀ a p, t.Current a → t.parentOf a = some p → ¬ t.Removed p
  child : ∀ a c, t.Current a → c ∈ t.childrenOf a → ¬ t.Removed c

/-- One of the two nodes is current and the other removed. -/
def Split (t : Topology) (child parent : PciNodeId) : Prop :=
  (t.Current child ∧ t.Removed parent) ∨ (t.Removed child ∧ t.Current parent)

/-- An add under the id and at the address is not refused: a node is current there, or the
id is free. -/
def Admits (t : Topology) (id : PciNodeId) (bdf : Bdf) : Prop :=
  (∃ k, t.CurrentAt bdf k) ∨ id ∉ t.nodes

/-- The call links a current node and a removed one, or removes a node that
another current one is linked to. -/
def ExposesRemoved (t : Topology) : TopologyCall → Prop
  | .attach child parent _ => t.Split child parent
  | .addBridge bdf _ _ parent => t.Removed parent ∧ t.Admits ⟨t.nextId⟩ bdf
  | .addEndpoint id bdf _ _ _ parent => t.Removed parent ∧ t.Admits id bdf
  | .removeNode id => ∃ a, a ≠ id ∧ t.Current a ∧ (t.parentOf a = some id ∨ id ∈ t.childrenOf a)
  | .addRootComplex .. | .bumpGeneration .. => False

/-! ### What the traversals return -/

lemma flag_congr {t' : Topology} (h : t'.nodes = t.nodes) : t'.flag = t.flag := by
  funext x
  rw [flag, h, flag]

lemma not_removed_of_current {id : PciNodeId} (h : t.Current id) : ¬ t.Removed id := by
  intro h'
  rw [Removed, h] at h'
  cases h'

lemma current_of_mem {id : PciNodeId} (hmem : id ∈ t.nodes) (h : ¬ t.Removed id) :
    t.Current id := by
  obtain ⟨n, hn⟩ := exists_of_mem hmem
  rw [Removed, flag, hn, Option.map_some, Option.some.injEq, Bool.not_eq_true] at h
  rw [Current, flag, hn, Option.map_some, h]

/-- Above a current node every node is current. -/
lemma Unlinked.current_of_reach (h : t.Unlinked) (hlinks : t.LinksPresent) {a x : PciNodeId}
    (ha : t.Current a) (hx : t.AtOrAbove a x) : t.Current x := by
  induction hx with
  | refl => exact ha
  | @tail b c _ hbc ih => exact current_of_mem (hlinks.parent b c hbc) (h.parent b c ih hbc)

/-- What lies on the path between two nodes lies above one of them. -/
lemma reach_of_mem_pathNodes {a b x : PciNodeId} (h : x ∈ t.pathNodes a b) :
    t.AtOrAbove a x ∨ t.AtOrAbove b x := by
  cases hca : t.commonAncestor a b with
  | none =>
      rw [pathNodes_eq_nil_iff.mpr hca] at h
      cases h
  | some ca =>
      obtain ⟨up, down, hup, hdown, heq⟩ := pathNodes_eq hca
      rw [heq, List.mem_append, List.mem_cons, List.mem_reverse] at h
      rcases h with hx | rfl | hx
      · exact .inl (hup.reach_of_mem hx)
      · exact .inl hup.reach
      · exact .inr (hdown.reach_of_mem hx)

/-- **The traversals hide the removed nodes exactly** where no current node is linked
to one. -/
lemma hidesRemoved_iff (hlinks : t.LinksPresent) : t.HidesRemoved ↔ t.Unlinked := by
  constructor
  · intro h
    refine ⟨fun a p ha hp => h a a ha ha p (.inl ?_), fun a c ha hc =>
      h a a ha ha c (.inr (.inl hc))⟩
    exact mem_ancestors_iff.mpr (.single hp)
  · intro h a b ha hb x hx
    have habove : ∀ {y}, t.Current y → t.AtOrAbove y x → ¬ t.Removed x := fun hy hyx =>
      not_removed_of_current (h.current_of_reach hlinks hy hyx)
    rcases hx with hx | hx | hx | hx | hx | hx
    · exact habove ha (mem_ancestors_iff.mp hx)
    · exact h.child a x ha hx
    · -- the siblings are the children of the parent, which is current
      rw [siblings] at hx
      cases hn : t.nodes[a]? with
      | none =>
          rw [hn] at hx
          cases hx
      | some n =>
          rw [hn] at hx
          dsimp only at hx
          cases hp : n.parent with
          | none =>
              rw [hp] at hx
              cases hx
          | some p =>
              rw [hp] at hx
              have hup : t.parentOf a = some p := (parentOf_of_getElem? hn).trans hp
              exact h.child p x (h.current_of_reach hlinks ha (.single hup)) hx
    · exact habove ha (mem_ancestors_iff.mp (List.mem_of_find?_eq_some hx))
    · exact habove ha (lowestCommon_of_commonAncestor hx).left
    · rcases reach_of_mem_pathNodes hx with hx | hx
      · exact habove ha hx
      · exact habove hb hx

/-! ### The links of one call -/

/-- Every node is listed by its parent. -/
def Listed (t : Topology) : Prop := ∀ x p, t.parentOf x = some p → x ∈ t.childrenOf p

lemma Listed.of_frame (h : t.Listed) {t' : Topology} (hpar : t'.parentOf = t.parentOf)
    (hchildren : t'.childrenOf = t.childrenOf) : t'.Listed := by
  rw [Listed, hpar, hchildren]
  exact h

/-- The link that `attach` writes is written on both sides, and no list gets
shorter. -/
lemma Listed.attach (h : t.Listed) (child parent : PciNodeId) (link : Option LinkId) :
    (t.attach child parent link).2.Listed := by
  rcases attach_cases t child parent link with ⟨heq, -⟩ | ⟨c, p, hne, hc, hp, heq⟩
  · rw [heq]
    exact h
  rw [heq, Listed, parentOf_linkNodes hne hp, childrenOf_linkNodes hc hp]
  intro x q hx
  by_cases hxc : x = child
  · rw [hxc, Function.update_self] at hx
    rw [← Option.some.inj hx, Function.update_self, hxc]
    split_ifs with hlisted
    · exact List.contains_iff_mem.mp hlisted
    · exact List.mem_append_right _ (List.mem_singleton.mpr rfl)
  · rw [Function.update_of_ne hxc] at hx
    by_cases hq : q = parent
    · rw [hq, Function.update_self]
      have hold : x ∈ t.childrenOf parent := h x parent (hq ▸ hx)
      split_ifs
      · exact hold
      · exact List.mem_append_left _ hold
    · rw [Function.update_of_ne hq]
      exact h x q hx

lemma Listed.step (h : t.Listed) (call : TopologyCall) : (t.step call).Listed :=
  step_invariant
    (fun _ _ hnodes ht => ht.of_frame (parentOf_congr hnodes) (childrenOf_congr hnodes))
    (fun t k _ _ ht => ht.of_frame (parentOf_modify t k _ fun _ => rfl)
      (childrenOf_modify t k _ fun _ => rfl))
    (fun _ _ _ _ _ _ hid ht => ht.of_frame (parentOf_withNode hid rfl)
      (childrenOf_withNode hid rfl))
    (fun _ child parent link ht => ht.attach child parent link) call h

lemma flag_attach (t : Topology) (child parent : PciNodeId) (link : Option LinkId) :
    (t.attach child parent link).2.flag = t.flag :=
  funext fun x => map_attach Node.removed (fun _ _ _ _ _ => rfl) t child parent link x

lemma mem_of_flag {id : PciNodeId} {r : Bool} (h : t.flag id = some r) : id ∈ t.nodes := by
  rw [ExtTreeMap.mem_iff_isSome_getElem?, ← Option.isSome_map, ← flag, h]
  rfl

/-- `attach` links a current node and a removed one exactly where it is asked to. -/
lemma Unlinked.attach_iff (h : t.Unlinked) (hlisted : t.Listed) (child parent : PciNodeId)
    (link : Option LinkId) :
    (t.attach child parent link).2.Unlinked ↔ ¬ t.Split child parent := by
  have hflag := flag_attach t child parent link
  have hcurrent : ∀ {x}, (t.attach child parent link).2.Current x ↔ t.Current x := by
    intro x
    rw [Current, hflag, Current]
  have hremoved : ∀ {x}, (t.attach child parent link).2.Removed x ↔ t.Removed x := by
    intro x
    rw [Removed, hflag, Removed]
  constructor
  · intro hafter hsplit
    have hpresent : child ∈ t.nodes ∧ parent ∈ t.nodes := by
      rcases hsplit with ⟨hc, hp⟩ | ⟨hc, hp⟩ <;> exact ⟨mem_of_flag hc, mem_of_flag hp⟩
    have hne : child ≠ parent := by
      rintro rfl
      rcases hsplit with ⟨hc, hp⟩ | ⟨hp, hc⟩ <;> exact not_removed_of_current hc hp
    have hparent := parentOf_attach_self hpresent.1 hpresent.2 hne link
    rcases hsplit with ⟨hc, hp⟩ | ⟨hc, hp⟩
    · exact hafter.parent child parent (hcurrent.mpr hc) hparent (hremoved.mpr hp)
    · exact hafter.child parent child (hcurrent.mpr hp)
        (hlisted.attach child parent link child parent hparent) (hremoved.mpr hc)
  · intro hsplit
    rcases attach_cases t child parent link with ⟨heq, -⟩ | ⟨c, p, hne, hc, hp, heq⟩
    · rw [heq]
      exact h
    refine ⟨fun a q ha hq hgone => ?_, fun a x ha hx hgone => ?_⟩
    · rw [hcurrent] at ha
      rw [hremoved] at hgone
      rw [heq, parentOf_linkNodes hne hp] at hq
      by_cases hac : a = child
      · rw [hac, Function.update_self] at hq
        obtain rfl := Option.some.inj hq
        exact hsplit (.inl ⟨hac ▸ ha, hgone⟩)
      · rw [Function.update_of_ne hac] at hq
        exact h.parent a q ha hq hgone
    · rw [hcurrent] at ha
      rw [hremoved] at hgone
      rw [heq, childrenOf_linkNodes hc hp] at hx
      by_cases hap : a = parent
      · subst hap
        rw [Function.update_self] at hx
        split_ifs at hx
        · exact h.child a x ha hx hgone
        · rcases List.mem_append.mp hx with hx | hx
          · exact h.child a x ha hx hgone
          · exact hsplit (.inr ⟨List.mem_singleton.mp hx ▸ hgone, ha⟩)
      · rw [Function.update_of_ne hap] at hx
        exact h.child a x ha hx hgone

/-- A frame: the same links, and at most new current nodes without links. -/
lemma Unlinked.of_frame (h : t.Unlinked) {t' : Topology} (hpar : t'.parentOf = t.parentOf)
    (hchildren : t'.childrenOf = t.childrenOf)
    (hcurrent : ∀ x, t'.Current x → t.Current x ∨ x ∉ t.nodes)
    (hremoved : ∀ x, t'.Removed x → t.Removed x) : t'.Unlinked := by
  refine ⟨fun a p ha hp hgone => ?_, fun a c ha hc hgone => ?_⟩
  · rw [hpar] at hp
    rcases hcurrent a ha with hold | hnew
    · exact h.parent a p hold hp (hremoved p hgone)
    · exact hnew (mem_of_parentOf hp)
  · rw [hchildren] at hc
    rcases hcurrent a ha with hold | hnew
    · exact h.child a c hold hc (hremoved c hgone)
    · rw [childrenOf_of_not_mem hnew] at hc
      cases hc

lemma Unlinked.of_nodes (h : t.Unlinked) {t' : Topology} (hnodes : t'.nodes = t.nodes) :
    t'.Unlinked := by
  have hflag := flag_congr hnodes
  refine h.of_frame (parentOf_congr hnodes) (childrenOf_congr hnodes) (fun x hx => ?_)
    (fun x hx => ?_)
  · exact .inl ((congrFun hflag x).symm.trans hx)
  · exact (congrFun hflag x).symm.trans hx

/-- A new generation changes no flag. -/
lemma flag_incremented (t : Topology) (k : PciNodeId) : (t.incremented k).flag = t.flag := by
  funext y
  rw [flag, incremented]
  simp only [ExtTreeMap.getElem?_modify, LawfulEqCmp.compare_eq_iff_eq]
  split_ifs with hy
  · rw [Option.map_map, ← hy]
    rfl
  · rfl

lemma Unlinked.incremented (h : t.Unlinked) (k : PciNodeId) : (t.incremented k).Unlinked := by
  have hflag := flag_incremented t k
  refine h.of_frame (parentOf_modify t k _ fun _ => rfl) (childrenOf_modify t k _ fun _ => rfl)
    (fun x hx => ?_) (fun x hx => ?_)
  · exact .inl ((congrFun hflag x).symm.trans hx)
  · exact (congrFun hflag x).symm.trans hx

/-- A new node is current. -/
lemma flag_withNode {n : Node} (hn : n.removed = false) (y : PciNodeId) :
    (t.withNode n).flag y = if y = n.id then some false else t.flag y := by
  rw [flag, getElem?_withNode]
  by_cases hy : n.id = y
  · rw [if_pos hy, if_pos hy.symm, Option.map_some, hn]
  · rw [if_neg hy, if_neg (Ne.symm hy), flag]

lemma Unlinked.withNode (h : t.Unlinked) {n : Node} (hid : n.id ∉ t.nodes)
    (hn : n.removed = false) (hparent : n.parent = none) (hchildren : n.children = []) :
    (t.withNode n).Unlinked := by
  refine h.of_frame (parentOf_withNode hid hparent) (childrenOf_withNode hid hchildren)
    (fun x hx => ?_) (fun x hx => ?_)
  · rw [Current, flag_withNode hn] at hx
    split_ifs at hx with hxn
    · exact .inr (hxn ▸ hid)
    · exact .inl hx
  · rw [Removed, flag_withNode hn] at hx
    split_ifs at hx
    · cases hx
    · exact hx

lemma Unlinked.addNode (h : t.Unlinked) (id : PciNodeId) (bdf : Bdf) (kind : DeviceClass)
    (gen : PciNodeGeneration) (src : Provenance) : (t.addNode id bdf kind gen src).2.Unlinked := by
  rcases addNode_cases t id bdf kind gen src with ⟨k, -, hadd⟩ | ⟨-, -, hadd⟩ | ⟨-, hid, hadd⟩
  · rw [hadd]
    exact h.incremented k
  · rw [hadd]
    exact h
  · rw [hadd]
    exact h.withNode hid rfl rfl rfl

/-! ### Runs -/

/-- What holds between calls as long as none of them exposes a removed node. -/
structure Tidy (t : Topology) : Prop where
  present : t.LinksPresent
  listed : t.Listed
  unlinked : t.Unlinked

lemma tidy_init : Tidy {} := by
  have hflag : ∀ x, ({} : Topology).flag x = none := fun x => by
    rw [flag, ExtTreeMap.getElem?_empty, Option.map_none]
  refine ⟨linksPresent_run [], fun x p hp => ?_, fun a p ha => ?_, fun a c ha => ?_⟩
  · exact absurd (mem_of_parentOf hp) ExtTreeMap.not_mem_empty
  · rw [Current, hflag] at ha
    cases ha
  · rw [Current, hflag] at ha
    cases ha

/-- The tail of an add, behind a state with the same links in which the node is
current. -/
lemma Tidy.place_iff (h : t.Tidy) {t₁ : Topology} {x parent : PciNodeId}
    (hpar : t₁.parentOf = t.parentOf) (hchildren : t₁.childrenOf = t.childrenOf)
    (hflag : ∀ y, t₁.flag y = if y = x then some false else t.flag y)
    (hx : t.Current x ∨ x ∉ t.nodes) :
    (t₁.attach x parent none).2.Unlinked ↔ ¬ t.Removed parent := by
  have hnot : ¬ t.Removed x := by
    rcases hx with hx | hx
    · exact not_removed_of_current hx
    · exact fun hgone => hx (mem_of_flag hgone)
  have hremoved : ∀ y, t₁.Removed y ↔ t.Removed y := by
    intro y
    rw [Removed, hflag]
    split_ifs with hy
    · rw [hy]
      exact iff_of_false (by decide) hnot
    · rfl
  have hcurrent : ∀ y, t₁.Current y → t.Current y ∨ y ∉ t.nodes := by
    intro y hy
    rw [Current, hflag] at hy
    split_ifs at hy with hyx
    · exact hyx ▸ hx
    · exact .inl hy
  have hself : t₁.Current x := (hflag x).trans (if_pos rfl)
  rw [(h.unlinked.of_frame hpar hchildren hcurrent fun y => (hremoved y).mp).attach_iff
    (h.listed.of_frame hpar hchildren), not_iff_not, ← hremoved]
  constructor
  · rintro (⟨-, hp⟩ | ⟨hgone, -⟩)
    · exact hp
    · exact absurd hgone (not_removed_of_current hself)
  · exact fun hp => .inl ⟨hself, hp⟩

/-- A call that puts a node under a parent. -/
lemma Tidy.unlinked_place_iff (h : t.Tidy) {call : TopologyCall} {bdf : Bdf} {kind : DeviceClass}
    {parent asked : PciNodeId} (hplace : call.placement = some (bdf, kind, parent))
    (hasked : t.requestedId call = some asked) :
    (t.step call).Unlinked ↔ ¬ (t.Removed parent ∧ t.Admits asked bdf) := by
  cases placed_cases hplace with
  | found k t₁ hfind hans hnodes hstep =>
      have hadmits : t.Admits asked bdf := .inl ⟨k, mem_of_findByBdf hfind⟩
      obtain ⟨n, hn, hcurrent, -⟩ := mem_of_findByBdf hfind
      have hk : t.flag k = some false := by
        rw [flag, hn, Option.map_some, hcurrent]
      rw [hstep, h.place_iff ((parentOf_congr hnodes).trans (parentOf_modify t k _ fun _ => rfl))
        ((childrenOf_congr hnodes).trans (childrenOf_modify t k _ fun _ => rfl)) (fun y => ?_)
        (.inl hk)]
      · exact not_congr ⟨fun hp => ⟨hp, hadmits⟩, And.left⟩
      · rw [flag_congr hnodes, flag_incremented]
        split_ifs with hy
        · rw [hy, hk]
        · rfl
  | refused id hfind hid htaken hans hnodes =>
      obtain rfl := Option.some.inj (hasked.symm.trans hid)
      refine iff_of_true (h.unlinked.of_nodes hnodes) ?_
      rintro ⟨-, ⟨k, n, hn, hcurrent, hb⟩ | hfree⟩
      · exact findByBdf_eq_none_iff.mp hfind k n hn hcurrent hb
      · exact hfree htaken
  | created id t₁ n hfind hid hnew hans hn hfields hlinks hnodes hstep =>
      subst hn
      obtain rfl := Option.some.inj (hasked.symm.trans hid)
      rw [hstep, h.place_iff ((parentOf_congr hnodes).trans (parentOf_withNode hnew hlinks.1))
        ((childrenOf_congr hnodes).trans (childrenOf_withNode hnew hlinks.2)) (fun y => ?_)
        (.inr hnew)]
      · exact not_congr ⟨fun hp => ⟨hp, .inr hnew⟩, And.left⟩
      · rw [flag_congr hnodes, flag_withNode (Prod.mk.inj hfields).1]

/-- The flags after the removal of a present node. -/
lemma flag_removeNode {id : PciNodeId} (hid : id ∈ t.nodes) (y : PciNodeId) :
    (t.step (.removeNode id)).flag y = if y = id then some true else t.flag y := by
  have hnodes : (t.step (.removeNode id)).nodes =
      t.nodes.modify id fun n => { n with removed := true } := by
    rw [step, removeNode, if_pos (ExtTreeMap.contains_iff_mem.mpr hid)]
  rw [flag, hnodes]
  simp only [ExtTreeMap.getElem?_modify, LawfulEqCmp.compare_eq_iff_eq]
  by_cases hy : id = y
  · obtain ⟨n, hn⟩ := exists_of_mem hid
    rw [if_pos hy, if_pos hy.symm, hn]
    rfl
  · rw [if_neg hy, if_neg (Ne.symm hy), flag]

/-- A removal keeps the links. -/
lemma links_removeNode (t : Topology) (id : PciNodeId) :
    (t.step (.removeNode id)).parentOf = t.parentOf ∧
      (t.step (.removeNode id)).childrenOf = t.childrenOf := by
  rw [step, removeNode]
  split
  · exact ⟨parentOf_modify t id _ fun _ => rfl, childrenOf_modify t id _ fun _ => rfl⟩
  · exact ⟨rfl, rfl⟩

/-- A removal exposes the node to those that are linked to it. -/
lemma Tidy.unlinked_removeNode_iff (h : t.Tidy) (id : PciNodeId) :
    (t.step (.removeNode id)).Unlinked ↔ ¬ t.ExposesRemoved (.removeNode id) := by
  by_cases hid : id ∈ t.nodes
  · obtain ⟨hpar, hchildren⟩ := links_removeNode t id
    have hcurrent : ∀ y, (t.step (.removeNode id)).Current y ↔ y ≠ id ∧ t.Current y := by
      intro y
      rw [Current, flag_removeNode hid]
      split_ifs with hy
      · exact iff_of_false (by decide) fun hne => hne.1 hy
      · exact (and_iff_right hy).symm
    have hremoved : ∀ y, (t.step (.removeNode id)).Removed y ↔ y = id ∨ t.Removed y := by
      intro y
      rw [Removed, flag_removeNode hid]
      split_ifs with hy
      · exact iff_of_true rfl (.inl hy)
      · exact (or_iff_right hy).symm
    constructor
    · rintro hafter ⟨a, hne, ha, hup | hlisted⟩
      · exact hafter.parent a id ((hcurrent a).mpr ⟨hne, ha⟩) (hpar ▸ hup)
          ((hremoved id).mpr (.inl rfl))
      · exact hafter.child a id ((hcurrent a).mpr ⟨hne, ha⟩) (hchildren ▸ hlisted)
          ((hremoved id).mpr (.inl rfl))
    · intro hsafe
      refine ⟨fun a p ha hp hgone => ?_, fun a c ha hc hgone => ?_⟩
      · rw [hpar] at hp
        obtain ⟨hne, hold⟩ := (hcurrent a).mp ha
        rcases (hremoved p).mp hgone with heq | hgone
        · exact hsafe ⟨a, hne, hold, .inl (heq ▸ hp)⟩
        · exact h.unlinked.parent a p hold hp hgone
      · rw [hchildren] at hc
        obtain ⟨hne, hold⟩ := (hcurrent a).mp ha
        rcases (hremoved c).mp hgone with heq | hgone
        · exact hsafe ⟨a, hne, hold, .inr (heq ▸ hc)⟩
        · exact h.unlinked.child a c hold hc hgone
  · have hstep : t.step (.removeNode id) = t := congrArg Prod.snd (if_neg hid)
    rw [hstep]
    refine iff_of_true h.unlinked ?_
    rintro ⟨a, -, -, hup | hlisted⟩
    · exact hid (h.present.parent a id hup)
    · exact hid (h.present.child a id hlisted)

/-- One call: it leaves no current node linked to a removed one, unless it exposes
one. -/
lemma Tidy.unlinked_step_iff (h : t.Tidy) (call : TopologyCall) :
    (t.step call).Unlinked ↔ ¬ t.ExposesRemoved call := by
  cases call with
  | addRootComplex bdf gen src =>
      have hfresh : t.freshNodeId.2.Unlinked := h.unlinked.of_nodes rfl
      exact iff_of_true (hfresh.addNode _ bdf _ gen src) not_false
  | addBridge bdf gen src parent => exact h.unlinked_place_iff rfl rfl
  | addEndpoint id bdf kind gen src parent => exact h.unlinked_place_iff rfl rfl
  | attach child parent link => exact h.unlinked.attach_iff h.listed child parent link
  | removeNode id => exact h.unlinked_removeNode_iff id
  | bumpGeneration id =>
      refine iff_of_true ?_ not_false
      rw [Topology.step, bumpGeneration]
      split
      · exact h.unlinked.incremented id
      · exact h.unlinked

/-- **Removed nodes stay hidden, exactly.** In every run from the empty topology,
the traversals return no removed node for current nodes after any call if and
only if no call links a current node and a removed one, or removes a node that
another current one is linked to. -/
theorem removed_hidden_iff (calls : List TopologyCall) :
    AllSteps step (fun t call => (t.step call).HidesRemoved) {} calls ↔
      AllSteps step (fun t call => ¬ t.ExposesRemoved call) {} calls := by
  refine allSteps_congr step (I := Tidy) (fun t call h => ?_) (fun t call h hsafe => ?_) tidy_init
  · rw [hidesRemoved_iff (h.present.step call)]
    exact h.unlinked_step_iff call
  · exact ⟨h.present.step call, h.listed.step call, (h.unlinked_step_iff call).mpr hsafe⟩

/-- A root complex (id 1) with an endpoint (id 100), and the root complex removed: the
endpoint still has it as its ancestor, its root complex and the end of its path. -/
theorem removed_root_on_path :
    ¬ AllSteps step (fun t call => (t.step call).HidesRemoved) {}
      [.addRootComplex {} ⟨1⟩ Provenance.reported,
        .addEndpoint ⟨100⟩ { device := 2 } DeviceClass.accelerator ⟨1⟩ Provenance.reported ⟨1⟩,
        .removeNode ⟨1⟩] := by
  rintro ⟨-, -, hlast, -⟩
  have hcurrent : Current (step (run step {} [.addRootComplex {} ⟨1⟩ Provenance.reported,
      .addEndpoint ⟨100⟩ { device := 2 } DeviceClass.accelerator ⟨1⟩ Provenance.reported ⟨1⟩])
        (.removeNode ⟨1⟩)) ⟨100⟩ := by
    rw [Current]
    decide +kernel
  refine hlast ⟨100⟩ ⟨100⟩ hcurrent hcurrent ⟨1⟩ (.inl ?_) ?_
  · decide +kernel
  · rw [Removed]
    decide +kernel

end PcieFabric.Topology
