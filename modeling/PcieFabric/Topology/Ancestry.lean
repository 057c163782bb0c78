import PcieFabric.Lib.TreePath
import PcieFabric.Topology.Linking
import PcieFabric.Topology.Queries

/-!
The upward walks of the hierarchy (`topology.hpp`): the common ancestor of two
nodes and the path between them.

* `line_ancestors`: `ancestors` is the walk up the parent links.
* `commonAncestor_lowest`: without a cycle the first match of the two walks is the
  lowest common ancestor, so it does not depend on the order of the nodes.
* `pathNodes_eq`: `pathNodes` goes up to the common ancestor and down from it.
  `treePath_pathNodes`: it is the simple path along the parent links.
-/

namespace PcieFabric.Topology

open Machine ParentForest

variable {t : Topology}

/-- The second node is an ancestor of the first, or the first itself. -/
def AtOrAbove (t : Topology) (a x : PciNodeId) : Prop := Relation.ReflTransGen (Up t.parentOf) a x

/-- The calls of a run that links no node under one of its descendants leave the
parent links acyclic and closed. -/
lemma wired_run {calls : List TopologyCall} (h : AllSteps step LinkSafe {} calls) :
    Wired (run step {} calls) :=
  run_invariant_of step (fun _ call hwired hsafe =>
    ⟨(wired_step_iff hwired call).1.mpr hsafe, (wired_step_iff hwired call).2⟩) wired_init h

/-- The guarded walk is the line of the node. -/
lemma line_ancestors (t : Topology) (id : PciNodeId) : Line t.parentOf id (t.ancestors id) := by
  refine ⟨fun pre c post h => ?_, fun c => mem_ancestors_iff⟩
  rw [ancestors, ancestorsLoop_eq_climb] at h
  exact ascent_of_climb h

/-! ### The common ancestor -/

/-- Without a common ancestor there is no result, and otherwise there is one. -/
lemma commonAncestor_eq_none_iff {a b : PciNodeId} :
    t.commonAncestor a b = none ↔ ∀ x, ¬ (t.AtOrAbove a x ∧ t.AtOrAbove b x) :=
  firstCommon_eq_none_iff (t.line_ancestors a) (t.line_ancestors b)

lemma lowestCommon_of_commonAncestor {a b x : PciNodeId} (h : t.commonAncestor a b = some x) :
    LowestCommon t.parentOf a b x :=
  lowestCommon_of_firstCommon (t.line_ancestors a) (t.line_ancestors b) h

lemma commonAncestor_eq_some_iff (hac : Acyclic t.parentOf) {a b x : PciNodeId} :
    t.commonAncestor a b = some x ↔ LowestCommon t.parentOf a b x :=
  firstCommon_eq_some_iff hac (t.line_ancestors a) (t.line_ancestors b)

/-- The order of the two nodes does not matter. -/
lemma commonAncestor_comm (hac : Acyclic t.parentOf) (a b : PciNodeId) :
    t.commonAncestor a b = t.commonAncestor b a := by
  refine Option.ext fun x => ?_
  rw [commonAncestor_eq_some_iff hac, commonAncestor_eq_some_iff hac]
  exact ⟨LowestCommon.symm, LowestCommon.symm⟩

/-- Nor does it matter for the locality. -/
lemma locality_comm (hac : Acyclic t.parentOf) (a b : PciNodeId) :
    t.locality a b = t.locality b a := by
  rw [locality, locality, commonAncestor_comm hac b a]
  simp only [eq_comm]

/-- **The common ancestor is the lowest one**, on every topology whose parent links
are acyclic: there is none exactly when no node is above both, and otherwise every
node above both is above it. -/
theorem commonAncestor_lowest (t : Topology) (hac : Acyclic t.parentOf) (a b : PciNodeId) :
    (t.commonAncestor a b = none ↔ ∀ x, ¬ (t.AtOrAbove a x ∧ t.AtOrAbove b x)) ∧
      (∀ x, t.commonAncestor a b = some x → t.AtOrAbove a x ∧ t.AtOrAbove b x ∧
        ∀ y, t.AtOrAbove a y → t.AtOrAbove b y → t.AtOrAbove x y) ∧
      t.commonAncestor a b = t.commonAncestor b a ∧
      (t.commonAncestor a b = some a ↔ t.AtOrAbove b a) ∧
      t.locality a b = t.locality b a := by
  refine ⟨commonAncestor_eq_none_iff, fun x hx => ?_, commonAncestor_comm hac a b, ?_,
    locality_comm hac a b⟩
  · have hlow := lowestCommon_of_commonAncestor hx
    exact ⟨hlow.left, hlow.right, hlow.lowest⟩
  · rw [commonAncestor_eq_some_iff hac]
    exact ⟨LowestCommon.right, LowestCommon.of_reach⟩

/-- A root complex (id 1) with a bridge (id 2) and two endpoints (ids 100, 101) under
the bridge. -/
def bridged : List TopologyCall :=
  [.addRootComplex {} ⟨1⟩ Provenance.reported,
    .addBridge { device := 1 } ⟨1⟩ Provenance.reported ⟨1⟩,
    .addEndpoint ⟨100⟩ { device := 2 } DeviceClass.accelerator ⟨1⟩ Provenance.reported ⟨2⟩,
    .addEndpoint ⟨101⟩ { device := 3 } DeviceClass.nic ⟨1⟩ Provenance.reported ⟨2⟩]

/-- Every address of the calls is vacant, so every link is safe. -/
lemma wired_bridged : Wired (run step {} bridged) := by
  have hvacant : ∀ {t : Topology} {b : Bdf} {parent : PciNodeId}, t.findByBdf b = none →
      ∀ child, t.findByBdf b = some child → ¬ Below t.parentOf parent child := by
    intro t b parent hnone child hchild
    rw [hnone] at hchild
    cases hchild
  exact wired_run ⟨trivial, hvacant (by decide +kernel), hvacant (by decide +kernel),
    hvacant (by decide +kernel), trivial⟩

/-- The two endpoints meet at the bridge. -/
theorem commonAncestor_lowest_bridged :
    Acyclic (run step {} bridged).parentOf ∧
      (run step {} bridged).commonAncestor ⟨100⟩ ⟨101⟩ = some ⟨2⟩ ∧
      (run step {} bridged).locality ⟨100⟩ ⟨101⟩ = (run step {} bridged).locality ⟨101⟩ ⟨100⟩ :=
  ⟨wired_bridged.acyclic, by decide +kernel,
    (commonAncestor_lowest (run step {} bridged) wired_bridged.acyclic ⟨100⟩ ⟨101⟩).2.2.2.2⟩

/-! ### The path -/

/-- The copy stops behind the common ancestor. -/
lemma through_append {ca : PciNodeId} {pre : List PciNodeId} (h : ca ∉ pre)
    (post : List PciNodeId) : through ca (pre ++ ca :: post) = pre ++ [ca] := by
  induction pre with
  | nil => rw [List.nil_append, through, if_pos rfl, List.nil_append]
  | cons x pre ih =>
      obtain ⟨hx, hpre⟩ := not_or.mp (mt List.mem_cons.mpr h)
      rw [List.cons_append, through, if_neg (Ne.symm hx), ih hpre, List.cons_append]

/-- The walk on the other side stops before it. -/
lemma takeWhile_append {ca : PciNodeId} {pre : List PciNodeId} (h : ca ∉ pre)
    (post : List PciNodeId) :
    ((pre ++ ca :: post).takeWhile fun x => x ≠ ca) = pre := by
  rw [List.takeWhile_append_of_pos, List.takeWhile_cons_of_neg, List.append_nil]
  · simp
  · intro x hx
    simpa using fun heq : x = ca => h (heq ▸ hx)

/-- **The path** goes up from the first node to the common ancestor and down from
there to the second. -/
lemma pathNodes_eq {a b x : PciNodeId} (h : t.commonAncestor a b = some x) :
    ∃ up down, Ascent t.parentOf a x up ∧ Ascent t.parentOf b x down ∧
      t.pathNodes a b = up ++ x :: down.reverse := by
  have hlow := lowestCommon_of_commonAncestor h
  obtain ⟨up, post, ha, hup⟩ :=
    List.eq_append_cons_of_mem (((t.line_ancestors a).mem_iff x).mpr hlow.left)
  obtain ⟨down, post', hb, hdown⟩ :=
    List.eq_append_cons_of_mem (((t.line_ancestors b).mem_iff x).mpr hlow.right)
  refine ⟨up, down, (t.line_ancestors a).ascent up x post ha,
    (t.line_ancestors b).ascent down x post' hb, ?_⟩
  have hfilter : (down.reverse.filter fun y => y ≠ x) = down.reverse := by
    refine List.filter_eq_self.mpr fun y hy => ?_
    simpa using fun heq : y = x => hdown (heq ▸ List.mem_reverse.mp hy)
  rw [pathNodes, h]
  dsimp only
  rw [ha, hb, through_append hup, takeWhile_append hdown, hfilter, List.append_assoc,
    List.singleton_append]

/-- Without a common ancestor there is no path. -/
lemma pathNodes_eq_nil_iff {a b : PciNodeId} :
    t.pathNodes a b = [] ↔ t.commonAncestor a b = none := by
  constructor
  · intro hnil
    cases h : t.commonAncestor a b with
    | none => rfl
    | some x =>
        obtain ⟨up, down, -, -, heq⟩ := pathNodes_eq h
        exact absurd (heq.symm.trans hnil)
          (List.append_ne_nil_of_right_ne_nil up (List.cons_ne_nil x _))
  · intro h
    rw [pathNodes, h]

/-- The common ancestor is on the path. -/
lemma mem_pathNodes {a b x : PciNodeId} (h : t.commonAncestor a b = some x) :
    x ∈ t.pathNodes a b := by
  obtain ⟨up, down, -, -, heq⟩ := pathNodes_eq h
  rw [heq]
  exact List.mem_append_right up List.mem_cons_self

/-- Without a cycle the path is the simple path along the parent links. -/
lemma treePath_pathNodes (hac : Acyclic t.parentOf) {a b x : PciNodeId}
    (h : t.commonAncestor a b = some x) : TreePath t.parentOf a b (t.pathNodes a b) := by
  obtain ⟨up, down, hup, hdown, heq⟩ := pathNodes_eq h
  rw [heq]
  exact .of_ascents hac (lowestCommon_of_commonAncestor h) hup hdown

/-- The path back is the reverse. -/
lemma pathNodes_comm (hac : Acyclic t.parentOf) (a b : PciNodeId) :
    t.pathNodes b a = (t.pathNodes a b).reverse := by
  cases h : t.commonAncestor a b with
  | none =>
      rw [pathNodes_eq_nil_iff.mpr h]
      exact pathNodes_eq_nil_iff.mpr ((commonAncestor_comm hac b a).trans h)
  | some x =>
      have hback := (commonAncestor_comm hac b a).trans h
      exact (treePath_pathNodes hac hback).unique hac (treePath_pathNodes hac h).reverse

end PcieFabric.Topology
