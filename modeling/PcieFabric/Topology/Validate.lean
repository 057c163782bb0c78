import PcieFabric.Topology.Acyclic

/-!
The check of a whole hierarchy (`validate_locked` of `topology.hpp`).

* `validate`: one loop over the nodes, with the identities seen so far.
* `Detected`: the faults the loop looks for; `validate_ok_iff` shows that it
  finds them all and nothing else.
* `WellFormed`: what a valid hierarchy is. `validate_settles_wellFormed_iff` says
  exactly on which topologies the check decides it.
-/

namespace PcieFabric.Topology

open Std Machine ParentForest

/-- The loop of `validate_locked`, with the identities seen so far. -/
def validateLoop (t : Topology) : List PciBdf → List (PciNodeId × Node) → Result Unit
  | _, [] => .ok ()
  | seen, (_, v) :: rest =>
      if v.removed then validateLoop t seen rest
      else if !v.kind.valid then .err .invalidValue "invalid kind"
      else
        match Bdf.toIdentity v.bdf.canonical with
        | .error _ => .err .invalidBdf "invalid bdf"
        | .ok pb =>
            if seen.contains pb then .err .duplicateCurrent "duplicate current bdf"
            else
              match v.parent with
              | none => validateLoop t (pb :: seen) rest
              | some p =>
                  if !t.nodes.contains p then .err .invalidRelationship "dangling parent"
                  else validateLoop t (pb :: seen) rest

/-- `Topology::validate_locked`. -/
def validate (t : Topology) : Result Unit := t.validateLoop [] t.nodes.toList

/-- The hierarchy is a forest of valid nodes, each at an address of its own. -/
structure WellFormed (t : Topology) : Prop where
  acyclic : Acyclic t.parentOf
  parents : ∀ (k : PciNodeId) n, t.nodes[k]? = some n → n.removed = false →
    ∀ p, n.parent = some p → p ∈ t.nodes
  kinds : ∀ (k : PciNodeId) n, t.nodes[k]? = some n → n.removed = false → n.kind.valid = true
  addresses : ∀ (k : PciNodeId) n, t.nodes[k]? = some n → n.removed = false → n.bdf.valid = true
  distinct : ∀ (k k' : PciNodeId) n n', t.nodes[k]? = some n → t.nodes[k']? = some n' →
    n.removed = false → n'.removed = false → n.bdf = n'.bdf → k = k'

/-- A current node passes its own checks: its kind is valid, its address is valid
as its text shows it, and its parent is present. -/
def Sound (t : Topology) (n : Node) : Prop :=
  n.kind.valid = true ∧ n.bdf.shown.valid = true ∧ ∀ p, n.parent = some p → p ∈ t.nodes

/-- The faults that the loop looks for: a current node that is not sound, or two
whose addresses read the same. -/
def Detected (t : Topology) : Prop :=
  (∃ (k : PciNodeId) (n : Node), t.nodes[k]? = some n ∧ n.removed = false ∧ ¬ t.Sound n) ∨
    ∃ (k k' : PciNodeId) (n n' : Node), t.nodes[k]? = some n ∧ t.nodes[k']? = some n' ∧
      n.removed = false ∧ n'.removed = false ∧ k ≠ k' ∧ n.bdf.shown = n'.bdf.shown

variable {t : Topology}

/-! ### The loop -/

/-- One current node in the loop. -/
lemma validateLoop_cons_ok {seen : List PciBdf} {k : PciNodeId} {v : Node}
    {rest : List (PciNodeId × Node)} (hcurrent : v.removed = false) :
    t.validateLoop seen ((k, v) :: rest) = .ok () ↔
      t.Sound v ∧ v.bdf.shown.identity ∉ seen ∧
        t.validateLoop (v.bdf.shown.identity :: seen) rest = .ok () := by
  rw [validateLoop, hcurrent, if_neg Bool.false_ne_true, Bdf.toIdentity_canonical, Sound]
  cases hkind : v.kind.valid with
  | false => simp [Result.err]
  | true =>
      cases hbdf : v.bdf.shown.valid with
      | false => simp [Result.err]
      | true =>
          by_cases hseen : v.bdf.shown.identity ∈ seen
          · simp [Result.err, hseen]
          · cases hparent : v.parent with
            | none => simp [hseen]
            | some p =>
                by_cases hp : p ∈ t.nodes
                · simp [hseen, hp, ExtTreeMap.contains_iff_mem.mpr hp]
                · have hcontains : t.nodes.contains p = false :=
                    Bool.eq_false_iff.mpr fun h => hp (ExtTreeMap.contains_iff_mem.mp h)
                  simp [Result.err, hseen, hp, hcontains]

/-- The loop accepts exactly the lists of sound nodes whose identities are new and
pairwise distinct. -/
lemma validateLoop_ok_iff {seen : List PciBdf} {l : List (PciNodeId × Node)} :
    t.validateLoop seen l = .ok () ↔
      (∀ e ∈ l, e.2.removed = false → t.Sound e.2 ∧ e.2.bdf.shown.identity ∉ seen) ∧
        l.Pairwise fun e e' => e.2.removed = false → e'.2.removed = false →
          e.2.bdf.shown ≠ e'.2.bdf.shown := by
  induction l generalizing seen with
  | nil => simp [validateLoop]
  | cons e rest ih =>
      obtain ⟨k, v⟩ := e
      rw [List.forall_mem_cons, List.pairwise_cons]
      by_cases hremoved : v.removed = true
      · rw [validateLoop, if_pos hremoved, ih]
        simp [hremoved]
      · have hcurrent : v.removed = false := Bool.eq_false_iff.mpr hremoved
        rw [validateLoop_cons_ok hcurrent, ih]
        constructor
        · rintro ⟨hsound, hnew, hrest, hdistinct⟩
          refine ⟨⟨fun _ => ⟨hsound, hnew⟩, fun e he h => ?_⟩, fun e he _ h heq => ?_, hdistinct⟩
          · exact (hrest e he h).imp_right fun h hmem => h (List.mem_cons_of_mem _ hmem)
          · exact (hrest e he h).2 (heq ▸ List.mem_cons_self)
        · rintro ⟨⟨hfirst, hrest⟩, hpair, hdistinct⟩
          refine ⟨(hfirst hcurrent).1, (hfirst hcurrent).2, fun e he h => ?_, hdistinct⟩
          refine (hrest e he h).imp_right fun hnew hmem => ?_
          rcases List.mem_cons.mp hmem with heq | hmem
          · exact hpair e he hcurrent h (Bdf.identity_inj heq).symm
          · exact hnew hmem

/-- **What the check finds**: it succeeds exactly when there is none of the faults
it looks for. -/
lemma validate_ok_iff : t.validate = .ok () ↔ ¬ t.Detected := by
  rw [validate, validateLoop_ok_iff, Detected, not_or]
  refine and_congr ?_ ?_
  · constructor
    · rintro h ⟨k, n, hn, hcurrent, hnot⟩
      exact hnot (h (k, n) (ExtTreeMap.mem_toList_iff_getElem?_eq_some.mpr hn) hcurrent).1
    · intro h e he hcurrent
      refine ⟨not_not.mp fun hnot => h ⟨e.1, e.2, ?_, hcurrent, hnot⟩, List.not_mem_nil⟩
      exact ExtTreeMap.mem_toList_iff_getElem?_eq_some.mp he
  · have hnodup : t.nodes.toList.Nodup := by
      rw [List.nodup_iff_pairwise_ne]
      refine ExtTreeMap.distinct_keys_toList.imp fun h heq => h ?_
      exact LawfulEqCmp.compare_eq_iff_eq.mpr (congrArg Prod.fst heq)
    constructor
    · rintro hpair ⟨k, k', n, n', hn, hn', hcurrent, hcurrent', hne, heq⟩
      have hsymm : Std.Symm fun e e' : PciNodeId × Node => e.2.removed = false →
          e'.2.removed = false → e.2.bdf.shown ≠ e'.2.bdf.shown :=
        ⟨fun _ _ h hb ha heq => h ha hb heq.symm⟩
      have hmem := ExtTreeMap.mem_toList_iff_getElem?_eq_some.mpr hn
      have hmem' := ExtTreeMap.mem_toList_iff_getElem?_eq_some.mpr hn'
      exact hpair.forall hmem hmem' (fun h => hne (congrArg Prod.fst h)) hcurrent hcurrent' heq
    · intro h
      refine hnodup.pairwise_of_forall_ne fun e he e' he' hne hcurrent hcurrent' heq => ?_
      have hn := ExtTreeMap.mem_toList_iff_getElem?_eq_some.mp he
      have hn' := ExtTreeMap.mem_toList_iff_getElem?_eq_some.mp he'
      refine h ⟨e.1, e'.1, e.2, e'.2, hn, hn', hcurrent, hcurrent', fun hkey => hne ?_, heq⟩
      rw [hkey, hn', Option.some.injEq] at hn
      exact Prod.ext hkey hn.symm

/-! ### What it decides -/

/-- In a well-formed hierarchy there is nothing to find. -/
lemma WellFormed.not_detected (h : t.WellFormed) : ¬ t.Detected := by
  rintro (⟨k, n, hn, hcurrent, hnot⟩ | ⟨k, k', n, n', hn, hn', hcurrent, hcurrent', hne, heq⟩)
  · have hvalid := h.addresses k n hn hcurrent
    refine hnot ⟨h.kinds k n hn hcurrent, ?_, h.parents k n hn hcurrent⟩
    rw [Bdf.shown_of_valid hvalid]
    exact hvalid
  · rw [Bdf.shown_of_valid (h.addresses k n hn hcurrent),
      Bdf.shown_of_valid (h.addresses k' n' hn' hcurrent')] at heq
    exact hne (h.distinct k k' n n' hn hn' hcurrent hcurrent' heq)

/-- Where the check finds nothing, the hierarchy is well-formed exactly when it is
acyclic and every current function number is its own low four bits. -/
lemma wellFormed_iff_of_not_detected (h : ¬ t.Detected) : t.WellFormed ↔
    Acyclic t.parentOf ∧ ∀ (k : PciNodeId) n, t.nodes[k]? = some n → n.removed = false →
      n.bdf.function < 16 := by
  obtain ⟨hsound, hdistinct⟩ := not_or.mp h
  have hsound : ∀ (k : PciNodeId) n, t.nodes[k]? = some n → n.removed = false → t.Sound n :=
    fun k n hn hcurrent => not_not.mp fun hnot => hsound ⟨k, n, hn, hcurrent, hnot⟩
  constructor
  · intro hwell
    refine ⟨hwell.acyclic, fun k n hn hcurrent => ?_⟩
    exact Bdf.shown_eq_iff.mp (Bdf.shown_of_valid (hwell.addresses k n hn hcurrent))
  · rintro ⟨hacyclic, hfunction⟩
    have hshown : ∀ (k : PciNodeId) n, t.nodes[k]? = some n → n.removed = false →
        n.bdf.shown = n.bdf :=
      fun k n hn hcurrent => Bdf.shown_eq_iff.mpr (hfunction k n hn hcurrent)
    refine ⟨hacyclic, fun k n hn hcurrent => (hsound k n hn hcurrent).2.2,
      fun k n hn hcurrent => (hsound k n hn hcurrent).1, fun k n hn hcurrent => ?_,
      fun k k' n n' hn hn' hcurrent hcurrent' heq => not_not.mp fun hne => ?_⟩
    · rw [← hshown k n hn hcurrent]
      exact (hsound k n hn hcurrent).2.1
    · exact hdistinct ⟨k, k', n, n', hn, hn', hcurrent, hcurrent', hne, heq ▸ rfl⟩

/-- **Soundness and completeness, exactly.** The check succeeds if and only if the
hierarchy is well-formed, on the topologies that are acyclic with function numbers
below 16 on all current nodes, and on those with a fault the loop looks for. -/
theorem validate_settles_wellFormed_iff (t : Topology) :
    (t.validate = .ok () ↔ t.WellFormed) ↔
      (Acyclic t.parentOf ∧ ∀ (k : PciNodeId) n, t.nodes[k]? = some n → n.removed = false →
        n.bdf.function < 16) ∨ t.Detected := by
  rw [validate_ok_iff]
  by_cases h : t.Detected
  · refine iff_of_true (iff_of_false (not_not_intro h) fun hwell => ?_) (.inr h)
    exact hwell.not_detected h
  · rw [or_iff_left h, ← wellFormed_iff_of_not_detected h]
    exact iff_true_left h

/-- Two nodes that are each other's parents: the check succeeds. -/
theorem cycle_passes_the_check : ¬ ∀ t : Topology, t.validate = .ok () ↔ t.WellFormed := by
  intro h
  let t : Topology := run step {} [.addRootComplex {} ⟨1⟩ Provenance.reported,
    .addEndpoint ⟨100⟩ { device := 2 } DeviceClass.accelerator ⟨1⟩ Provenance.reported ⟨1⟩,
    .attach ⟨1⟩ ⟨100⟩ none]
  have hok : t.validate = .ok () := by decide +kernel
  exact not_acyclic_of_mutual ⟨1⟩ ⟨100⟩ (by decide +kernel) (by decide +kernel)
    ((h t).mp hok).acyclic

end PcieFabric.Topology
