import PcieFabric.Topology.Ancestry

/-!
The guarded walk up the hierarchy and the two tests that rest on it (`topology.hpp`).

* `ancestors_complete`: `ancestors` ends within the guard on every topology, and without
  a cycle it is the chain of the parents to the top, so that `root_complex_of` is the
  nearest root.
* `cycle_detection_exact`: `attach` detects a cycle exactly where it would close one.
-/

namespace PcieFabric.Topology

open Machine ParentForest

variable {t : Topology}

/-! ### The chain of the parents -/

/-- The node is a root complex or a root port. -/
def IsRoot (t : Topology) (x : PciNodeId) : Prop :=
  ∃ n, t.nodes[x]? = some n ∧
    (n.kind = DeviceClass.rootComplex ∨ n.kind = DeviceClass.rootPort)

lemma isRootKind_iff (k : DeviceClass) :
    isRootKind k = true ↔ k = DeviceClass.rootComplex ∨ k = DeviceClass.rootPort := by
  rw [isRootKind, Bool.or_eq_true, decide_eq_true_iff, decide_eq_true_iff]

/-- The test of `root_complex_of`. -/
lemma isRoot_iff (t : Topology) (x : PciNodeId) : t.IsRoot x ↔
    (match t.nodes[x]? with
      | none => false
      | some n => isRootKind n.kind) = true := by
  rw [IsRoot]
  cases hx : t.nodes[x]? with
  | none => simp
  | some n => simp [isRootKind_iff]

/-- **The walk is complete.** On every topology it ends within one round more than there
are nodes. Without a cycle it is the chain without repetitions from the node through the
successive parents to one without a parent, and the root complex is the nearest root on
it, which is found if there is any. -/
theorem ancestors_complete (t : Topology) (id : PciNodeId) :
    (t.ancestors id).length ≤ t.nodes.size + 1 ∧
      (Acyclic t.parentOf →
        (ToTop t.parentOf id (t.ancestors id) ∧ (t.ancestors id).Nodup ∧
          ∀ l, ToTop t.parentOf id l → l = t.ancestors id) ∧
        (∀ r, t.rootComplexOf id = some r ↔ Nearest t.parentOf t.IsRoot id r) ∧
        ((∃ r, t.rootComplexOf id = some r) ↔ ∃ x, t.AtOrAbove id x ∧ t.IsRoot x)) := by
  have hline := t.line_ancestors id
  have hroot : t.IsRoot = fun x => (match t.nodes[x]? with
      | none => false
      | some n => isRootKind n.kind) = true := funext fun x => propext (t.isRoot_iff x)
  refine ⟨?_, fun hac => ⟨?_, fun r => ?_, ?_⟩⟩
  · rw [ancestors, ancestorsLoop_eq_climb]
    exact length_climb_le _ id
  · have htop := hline.toTop hac
    exact ⟨htop, htop.nodup hac, fun l hl => hl.unique htop⟩
  · rw [hroot]
    exact hline.find?_eq_some_iff hac _
  · rw [← Option.isSome_iff_exists, ← Option.ne_none_iff_isSome, Ne, rootComplexOf,
      hline.find?_eq_none_iff, hroot]
    push Not
    rfl

/-! ### The cycle test -/

/-- The call returns `HIERARCHY_CYCLE`. -/
def DetectsCycle (t : Topology) (child parent : PciNodeId) (link : Option LinkId) : Prop :=
  ∃ e, (t.attach child parent link).1 = .error e ∧ e.code = .hierarchyCycle

/-- **Cycle detection is exact.** In a hierarchy without a cycle, `attach` of a node under
another one returns `HIERARCHY_CYCLE` if and only if the parent is below the child before
the call; otherwise it succeeds, the child has the parent and there is still no cycle. -/
theorem cycle_detection_exact (hac : Acyclic t.parentOf) {child parent : PciNodeId}
    (hne : child ≠ parent) (hchild : child ∈ t.nodes) (hparent : parent ∈ t.nodes)
    (link : Option LinkId) :
    (t.DetectsCycle child parent link ↔ Below t.parentOf parent child) ∧
      (¬ t.DetectsCycle child parent link →
        (t.attach child parent link).1 = .ok () ∧
          (t.attach child parent link).2.parentOf child = some parent ∧
            Acyclic (t.attach child parent link).2.parentOf) := by
  have hset := parentOf_attach_self hchild hparent hne link
  have hnot (h : (t.attach child parent link).1 = .ok ()) :
      ¬ t.DetectsCycle child parent link := by
    rintro ⟨e, he, -⟩
    rw [h] at he
    cases he
  cases attach_move t child parent link with
  | absent h => exact (h.elim (fun h => h hparent) fun h => h hchild).elim
  | selfCycle hself => exact absurd hself hne
  | linked hmem h hres =>
      have hok := congrArg Prod.fst hres
      refine ⟨iff_of_false (hnot hok) fun hbelow => hac parent (hbelow.tail h), fun _ => ?_⟩
      exact ⟨hok, hset, by rw [hres]; exact hac⟩
  | rejected c p _ hc hp _ hbelow hres =>
      have hdetects : t.DetectsCycle child parent link := ⟨_, congrArg Prod.fst hres, rfl⟩
      exact ⟨iff_of_true hdetects hbelow, fun h => absurd hdetects h⟩
  | written c p _ hc hp _ hbelow hres =>
      have hok := congrArg Prod.fst hres
      refine ⟨iff_of_false (hnot hok) hbelow, fun _ => ⟨hok, hset, ?_⟩⟩
      rw [hres, parentOf_linkNodes hne hp]
      exact (acyclic_link_iff hac).mpr ⟨hne, hbelow⟩

/-- The bridge of the example, attached to an endpoint under it. -/
theorem bridge_under_its_endpoint :
    (run step {} bridged).DetectsCycle ⟨2⟩ ⟨100⟩ none ↔
      Below (run step {} bridged).parentOf ⟨100⟩ ⟨2⟩ :=
  (cycle_detection_exact wired_bridged.acyclic (by decide) (by decide +kernel)
    (by decide +kernel) none).1

end PcieFabric.Topology
