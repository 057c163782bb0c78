import PcieFabric.Topology.Incarnations

/-!
Addresses and ids of the nodes (`topology.hpp`).

* `step_invariant`: the invariant rule for what the calls write to the nodes.
* `CurrentAt`, `one_current_node_per_address`: at every address at most one node
  is current, it is the one that is found there, and adding it again returns it.
* `added_cases`: what a call that adds a node answers, and which ids it leaves.
* `fresh_ids_fresh_iff`: exactly when every id of the internal counter is free.
-/

namespace PcieFabric

open Std Machine

/-- A call that takes its id from the counter of the topology. -/
def TopologyCall.internallyNumbered : TopologyCall → Bool
  | .addRootComplex .. | .addBridge .. => true
  | .addEndpoint .. | .attach .. | .removeNode .. | .bumpGeneration .. => false

namespace Topology

/-- What a call that adds a node answers. -/
def answer (t : Topology) : TopologyCall → Option (Result PciNodeId)
  | .addRootComplex bdf gen src => some (t.addRootComplex bdf gen src).1
  | .addBridge bdf gen src parent => some (t.addBridge bdf gen src parent).1
  | .addEndpoint id bdf kind gen src parent =>
      some (t.addEndpoint id bdf kind gen src parent).1
  | .attach .. | .removeNode .. | .bumpGeneration .. => none

/-- The id under which a call adds its node. -/
def requestedId (t : Topology) : TopologyCall → Option PciNodeId
  | .addRootComplex .. | .addBridge .. => some ⟨t.nextId⟩
  | .addEndpoint id .. => some id
  | .attach .. | .removeNode .. | .bumpGeneration .. => none

/-- The call adds a node at an address where none is current. -/
def Vacant (t : Topology) (call : TopologyCall) : Prop :=
  ∃ b gen, call.added = some (b, gen) ∧ t.findByBdf b = none

/-- The node under the id is current at the address. -/
def CurrentAt (t : Topology) (b : Bdf) (k : PciNodeId) : Prop :=
  ∃ n, t.nodes[k]? = some n ∧ n.removed = false ∧ n.bdf = b

/-- Every node carries the id it is stored under. -/
def Keyed (t : Topology) : Prop := ∀ (k : PciNodeId) n, t.nodes[k]? = some n → n.id = k

variable {t : Topology}

/-! ### The invariant rule -/

/-- The tail of an add keeps the answer. -/
lemma attachAdded_fst (added : Result PciNodeId × Topology) (parent : PciNodeId) :
    (attachAdded added parent).1 = added.1 := by
  rcases added with ⟨_ | child, t'⟩
  · rfl
  · rfl

/-- **The invariant rule.** A property of the nodes is kept by every call once it
survives a new generation or flag of one node, a new node without links at a
vacant address, and `attach`. -/
lemma step_invariant {I : Topology → Prop}
    (hframe : ∀ t t' : Topology, t'.nodes = t.nodes → I t → I t')
    (htouch : ∀ (t : Topology) k (gen : Node → PciNodeGeneration) (removed : Node → Bool), I t →
      I { t with nodes := t.nodes.modify k fun n =>
        { n with generation := gen n, removed := removed n } })
    (hadd : ∀ (t : Topology) id bdf kind gen src, id ∉ t.nodes → I t →
      I (t.withNode { id := id, bdf := bdf, kind := kind, generation := gen, provenance := src }))
    (hattach : ∀ (t : Topology) child parent link, I t → I (t.attach child parent link).2)
    (call : TopologyCall) (h : I t) : I (t.step call) := by
  have haddNode : ∀ (t : Topology) id bdf kind gen src, I t →
      I (t.addNode id bdf kind gen src).2 := by
    intro t id bdf kind gen src ht
    rcases addNode_cases t id bdf kind gen src with ⟨k, -, h'⟩ | ⟨-, -, h'⟩ | ⟨-, hid, h'⟩
    · rw [h']
      exact htouch t k (fun n => n.generation.succ) Node.removed ht
    · rw [h']
      exact ht
    · rw [h']
      exact hadd t id bdf kind gen src hid ht
  have htail : ∀ (added : Result PciNodeId × Topology) parent, I added.2 →
      I (attachAdded added parent).2 := by
    intro added parent hadded
    rcases added with ⟨_ | child, t'⟩
    · exact hadded
    · exact hattach t' child parent none hadded
  have hfresh : I t.freshNodeId.2 := hframe t _ rfl h
  cases call with
  | addRootComplex bdf gen src => exact haddNode _ _ _ _ _ _ hfresh
  | addBridge bdf gen src parent => exact htail _ _ (haddNode _ _ _ _ _ _ hfresh)
  | addEndpoint id bdf kind gen src parent => exact htail _ _ (haddNode _ _ _ _ _ _ h)
  | attach child parent link => exact hattach t child parent link h
  | removeNode id =>
      rw [step, removeNode]
      split
      · refine hframe _ _ ?_ (htouch t id Node.generation (fun _ => true) h)
        rfl
      · exact h
  | bumpGeneration id =>
      rw [step, bumpGeneration]
      split
      · exact htouch t id (fun n => n.generation.succ) Node.removed h
      · exact h

/-- Every call keeps the ids of the stored nodes. -/
lemma Keyed.step (h : t.Keyed) (call : TopologyCall) : (t.step call).Keyed := by
  refine step_invariant (fun t t' hnodes ht => ?_) (fun t k gen removed ht => ?_)
    (fun t id bdf kind gen src _ ht => ?_) (fun t child parent link ht => ?_) call h
  · intro k n hn
    exact ht k n (hnodes ▸ hn)
  · intro x n hn
    rw [ExtTreeMap.getElem?_modify] at hn
    split at hn
    · obtain ⟨m, hm, rfl⟩ := Option.map_eq_some_iff.mp hn
      exact (ht k m hm).trans (LawfulEqCmp.compare_eq_iff_eq.mp ‹_›)
    · exact ht x n hn
  · intro x n hn
    rw [getElem?_withNode] at hn
    split_ifs at hn with hid
    · obtain rfl := Option.some.inj hn
      exact hid
    · exact ht x n hn
  · intro x n hn
    have hmap := map_attach Node.id (fun _ _ _ _ _ => rfl) t child parent link x
    rw [hn, Option.map_some] at hmap
    obtain ⟨m, hm, hid⟩ := Option.map_eq_some_iff.mp hmap.symm
    exact hid.symm.trans (ht x m hm)

lemma keyed_run (calls : List TopologyCall) : (run step {} calls).Keyed := by
  refine run_invariant step (fun _ call h => h.step call) (fun k n hn => ?_) calls
  rw [show ({} : Topology).nodes = ∅ from rfl, ExtTreeMap.getElem?_empty] at hn
  cases hn

/-! ### What an add answers, and the ids it leaves -/

/-- `attach` adds and drops no node. -/
lemma mem_attach (t : Topology) (child parent : PciNodeId) (link : Option LinkId)
    (x : PciNodeId) : x ∈ (t.attach child parent link).2.nodes ↔ x ∈ t.nodes := by
  have hmap := map_attach (fun _ => ()) (fun _ _ _ _ _ => rfl) t child parent link x
  rw [ExtTreeMap.mem_iff_isSome_getElem?, ExtTreeMap.mem_iff_isSome_getElem?,
    ← Option.isSome_map, hmap, Option.isSome_map]

/-- The tail of an add adds and drops no node. -/
lemma mem_attachAdded (added : Result PciNodeId × Topology) (parent : PciNodeId)
    (x : PciNodeId) : x ∈ (attachAdded added parent).2.nodes ↔ x ∈ added.2.nodes := by
  rcases added with ⟨_ | child, t'⟩
  · exact Iff.rfl
  · exact mem_attach t' child parent none x

/-- What a call that adds a node does: it returns the node that is current at the
address, or it refuses the id, which is taken, or it adds that id. -/
inductive AddMove (t : Topology) (call : TopologyCall) (b : Bdf) : Prop where
  | found (k : PciNodeId) (hfind : t.findByBdf b = some k) (hans : t.answer call = some (.ok k))
      (hmem : ∀ x, x ∈ (t.step call).nodes ↔ x ∈ t.nodes)
  | refused (id : PciNodeId) (hfind : t.findByBdf b = none) (hid : t.requestedId call = some id)
      (htaken : id ∈ t.nodes)
      (hans : t.answer call = some (.err .duplicateIdentity "duplicate node id"))
      (hmem : ∀ x, x ∈ (t.step call).nodes ↔ x ∈ t.nodes)
  | created (id : PciNodeId) (hfind : t.findByBdf b = none) (hid : t.requestedId call = some id)
      (hnew : id ∉ t.nodes) (hans : t.answer call = some (.ok id))
      (hmem : ∀ x, x ∈ (t.step call).nodes ↔ id = x ∨ x ∈ t.nodes)

/-- A call whose answer and ids are those of `addNode` on the same nodes. -/
lemma AddMove.of_addNode {t₀ : Topology} (hnodes : t₀.nodes = t.nodes) {call : TopologyCall}
    {id : PciNodeId} {b : Bdf} {kind : DeviceClass} {gen : PciNodeGeneration} {src : Provenance}
    (hid : t.requestedId call = some id)
    (hans : t.answer call = some (t₀.addNode id b kind gen src).1)
    (hmem : ∀ x, x ∈ (t.step call).nodes ↔ x ∈ (t₀.addNode id b kind gen src).2.nodes) :
    AddMove t call b := by
  have hfind₀ : t₀.findByBdf b = t.findByBdf b := by
    rw [findByBdf, hnodes, findByBdf]
  rcases addNode_cases t₀ id b kind gen src with
    ⟨k, hfind, hadd⟩ | ⟨hfind, htaken, hadd⟩ | ⟨hfind, hnew, hadd⟩ <;>
    rw [hadd] at hans hmem <;> rw [hfind₀] at hfind
  · refine .found k hfind hans fun x => (hmem x).trans ?_
    rw [← hnodes]
    exact ExtTreeMap.mem_modify
  · refine .refused id hfind hid (hnodes ▸ htaken) hans fun x => (hmem x).trans ?_
    rw [hnodes]
  · refine .created id hfind hid (hnodes ▸ hnew) hans fun x => (hmem x).trans ?_
    rw [← hnodes]
    exact mem_withNode

/-- Every call that adds a node is one of these moves. -/
lemma added_cases {call : TopologyCall} {b : Bdf} {gen : PciNodeGeneration}
    (h : call.added = some (b, gen)) : AddMove t call b := by
  have hnodes : t.freshNodeId.2.nodes = t.nodes := rfl
  cases call with
  | addRootComplex bdf g src =>
      cases h
      exact .of_addNode hnodes rfl rfl fun _ => Iff.rfl
  | addBridge bdf g src parent =>
      cases h
      exact .of_addNode hnodes rfl (congrArg some (attachAdded_fst _ parent))
        fun x => mem_attachAdded _ parent x
  | addEndpoint id bdf kind g src parent =>
      cases h
      exact .of_addNode rfl rfl (congrArg some (attachAdded_fst _ parent))
        fun x => mem_attachAdded _ parent x
  | attach child parent link => cases h
  | removeNode id => cases h
  | bumpGeneration id => cases h

/-! ### One current node per address -/

/-- The node found at an address is the one that is current there. -/
lemma OnePerAddress.findByBdf_eq_some_iff (h : t.OnePerAddress) {b : Bdf} {k : PciNodeId} :
    t.findByBdf b = some k ↔ t.CurrentAt b k := by
  constructor
  · exact mem_of_findByBdf
  · rintro ⟨n, hn, hcurrent, hb⟩
    exact h.findByBdf (live_eq_some_iff.mpr ⟨n, hn, hcurrent, hb, rfl⟩)

/-- **One current node per address**, after every sequence of calls: the current
node at an address is unique and is what `findByBdf` returns, the nodes carry
their own keys, and a call that adds a current address succeeds with the node
that is there and adds none. -/
theorem one_current_node_per_address (calls : List TopologyCall) :
    let t := run step {} calls
    (∀ b k k', t.CurrentAt b k → t.CurrentAt b k' → k = k') ∧
      (∀ (k : PciNodeId) n, t.nodes[k]? = some n → n.id = k) ∧
      (∀ b k, t.findByBdf b = some k ↔ t.CurrentAt b k) ∧
      (∀ b, t.findByBdf b = none ↔ ∀ k, ¬ t.CurrentAt b k) ∧
      ∀ call b gen k, call.added = some (b, gen) → t.CurrentAt b k →
        t.answer call = some (.ok k) ∧ ∀ x, x ∈ (t.step call).nodes ↔ x ∈ t.nodes := by
  intro t
  have hone : t.OnePerAddress := onePerAddress_run calls
  have hfind := @OnePerAddress.findByBdf_eq_some_iff t hone
  refine ⟨fun b k k' hk hk' => ?_, keyed_run calls, fun b k => hfind, fun b => ?_,
    fun call b gen k hcall hk => ?_⟩
  · exact Option.some.inj ((hfind.mpr hk).symm.trans (hfind.mpr hk'))
  · rw [Option.eq_none_iff_forall_ne_some]
    exact forall_congr' fun k => not_congr hfind
  · have hat := hfind.mpr hk
    cases added_cases (t := t) hcall with
    | found k' hfind' hans hmem =>
        obtain rfl := Option.some.inj (hat.symm.trans hfind')
        exact ⟨hans, hmem⟩
    | refused _ hvacant => rw [hat] at hvacant; cases hvacant
    | created _ hvacant => rw [hat] at hvacant; cases hvacant

/-! ### The ids of the counter -/

/-- The call would add a node under the id: its address is vacant. -/
def AsksFor (t : Topology) (x : PciNodeId) (call : TopologyCall) : Prop :=
  t.Vacant call ∧ t.requestedId call = some x

/-- The ids after a call: those before, and the one it asks for. -/
lemma mem_step_iff (call : TopologyCall) (x : PciNodeId) :
    x ∈ (t.step call).nodes ↔ x ∈ t.nodes ∨ t.AsksFor x call := by
  cases hadded : call.added with
  | some e =>
      obtain ⟨b, gen⟩ := e
      have hvacant : t.Vacant call ↔ t.findByBdf b = none := by
        simp [Vacant, hadded]
      rw [AsksFor, hvacant]
      cases added_cases (t := t) hadded with
      | found k hfind _ hmem => simp [hmem, hfind]
      | refused id hfind hid htaken _ hmem =>
          rw [hmem, hid, Option.some.injEq]
          exact ⟨.inl, fun h => h.elim (fun hx => hx) fun h' => h'.2 ▸ htaken⟩
      | created id hfind hid _ _ hmem =>
          rw [hmem, hid, Option.some.injEq, and_iff_right hfind, or_comm]
  | none =>
      have hnot : ¬ t.AsksFor x call := by
        rintro ⟨⟨b, gen, hb, -⟩, -⟩
        rw [hadded] at hb
        cases hb
      rw [or_iff_left hnot]
      cases call with
      | addRootComplex bdf gen src => cases hadded
      | addBridge bdf gen src parent => cases hadded
      | addEndpoint id bdf kind gen src parent => cases hadded
      | attach child parent link => exact mem_attach t child parent link x
      | removeNode id =>
          rw [step, removeNode]
          split
          · exact ExtTreeMap.mem_modify
          · exact Iff.rfl
      | bumpGeneration id =>
          rw [step, bumpGeneration]
          split
          · exact ExtTreeMap.mem_modify
          · exact Iff.rfl

/-- The ids after a run are those that some call asked for. -/
lemma mem_run_iff (calls : List TopologyCall) (x : PciNodeId) :
    x ∈ (run step {} calls).nodes ↔ SomeStep step (fun t call => t.AsksFor x call) {} calls := by
  induction calls using List.reverseRecOn with
  | nil =>
      refine iff_of_false ExtTreeMap.not_mem_empty ?_
      rintro ⟨pre, call, hpre, -⟩
      simp at hpre
  | append_singleton calls call ih =>
      rw [run_append, run_cons, run_nil, mem_step_iff, ih, someStep_append_singleton]

/-- The counter moves with the calls that take an id from it. -/
lemma nextId_step (call : TopologyCall) : (t.step call).nextId =
    if call.internallyNumbered then t.nextId + 1 else t.nextId := by
  have hattach : ∀ (t : Topology) child parent link,
      (t.attach child parent link).2.nextId = t.nextId := by
    intro t child parent link
    rcases attach_cases t child parent link with ⟨h, -⟩ | ⟨c, p, -, -, -, h⟩ <;> rw [h]
    rfl
  have hadd : ∀ (t : Topology) id bdf kind gen src,
      (t.addNode id bdf kind gen src).2.nextId = t.nextId := by
    intro t id bdf kind gen src
    rcases addNode_cases t id bdf kind gen src with ⟨k, -, h⟩ | ⟨-, -, h⟩ | ⟨-, -, h⟩ <;> rw [h] <;>
      rfl
  have htail : ∀ (added : Result PciNodeId × Topology) parent,
      (attachAdded added parent).2.nextId = added.2.nextId := by
    intro added parent
    rcases added with ⟨_ | child, t'⟩
    · rfl
    · exact hattach t' child parent none
  cases call with
  | addRootComplex bdf gen src => exact hadd ..
  | addBridge bdf gen src parent => exact (htail ..).trans (hadd ..)
  | addEndpoint id bdf kind gen src parent => exact (htail ..).trans (hadd ..)
  | attach child parent link => exact hattach ..
  | removeNode id =>
      rw [step, removeNode]
      split <;> rfl
  | bumpGeneration id =>
      rw [step, bumpGeneration]
      split <;> rfl

/-- The counter after a run: one more than the number of ids taken from it. -/
lemma nextId_run (calls : List TopologyCall) : (run step {} calls).nextId =
    1 + UInt64.ofNat (calls.countP TopologyCall.internallyNumbered) := by
  induction calls using List.reverseRecOn with
  | nil => rfl
  | append_singleton calls call ih =>
      rw [run_append, run_cons, run_nil, nextId_step, ih, List.countP_append, List.countP_singleton]
      split
      · rw [UInt64.ofNat_add, UInt64.add_assoc]
        rfl
      · rfl

/-- A call that takes its id from the counter, at a vacant address, succeeds with
an id that was not in the topology. -/
def FreshIdFresh (t : Topology) (call : TopologyCall) : Prop :=
  call.internallyNumbered = true → t.Vacant call →
    ∃ id, t.answer call = some (.ok id) ∧ id ∉ t.nodes

/-- One call: its id is fresh exactly when the counter names no node. -/
lemma freshIdFresh_iff (call : TopologyCall) : t.FreshIdFresh call ↔
    (call.internallyNumbered = true → t.Vacant call → (⟨t.nextId⟩ : PciNodeId) ∉ t.nodes) := by
  refine forall_congr' fun hint => forall_congr' fun hvacant => ?_
  obtain ⟨b, gen, hadded, hnone⟩ := hvacant
  have hnext : t.requestedId call = some ⟨t.nextId⟩ := by
    cases call with
    | addRootComplex bdf gen src => rfl
    | addBridge bdf gen src parent => rfl
    | addEndpoint id bdf kind gen src parent => cases hint
    | attach child parent link => cases hint
    | removeNode id => cases hint
    | bumpGeneration id => cases hint
  cases added_cases (t := t) hadded with
  | found k hfind => rw [hnone] at hfind; cases hfind
  | refused id _ hid htaken hans =>
      obtain rfl := Option.some.inj (hnext.symm.trans hid)
      refine iff_of_false ?_ (not_not_intro htaken)
      rintro ⟨id, hok, -⟩
      rw [hans] at hok
      cases hok
  | created id _ hid hnew hans =>
      obtain rfl := Option.some.inj (hnext.symm.trans hid)
      exact iff_of_true ⟨_, hans, hnew⟩ hnew

/-- **Fresh ids, exactly.** In a run from the empty topology every call that takes
its id from the counter at a vacant address succeeds with a new id, if and only
if before none of them some call asked, at a vacant address, for the id one above
the number of ids taken so far (modulo 2^64). -/
theorem fresh_ids_fresh_iff (calls : List TopologyCall) :
    AllSteps step FreshIdFresh {} calls ↔
      ∀ pre call, pre ++ [call] <+: calls → call.internallyNumbered = true →
        (run step {} pre).Vacant call →
          ¬ SomeStep step (fun t c => t.AsksFor
            ⟨1 + UInt64.ofNat (pre.countP TopologyCall.internallyNumbered)⟩ c) {} pre := by
  rw [allSteps_iff]
  simp only [freshIdFresh_iff, nextId_run, mem_run_iff]
  constructor
  · rintro h pre call ⟨post, rfl⟩
    exact h pre call post (by simp)
  · rintro h pre call post rfl
    exact h pre call ⟨post, by simp⟩

/-- An endpoint under id 1, as a discovery numbers its first device, and a root
complex at another address: the counter starts at 1 and the call is answered
`DUPLICATE_IDENTITY`. -/
theorem counter_names_discovered_node :
    ¬ AllSteps step FreshIdFresh {}
      [.addEndpoint ⟨1⟩ { device := 2 } DeviceClass.nic ⟨1⟩ Provenance.reported ⟨0⟩,
        .addRootComplex {} ⟨1⟩ Provenance.reported] := by
  rintro ⟨-, hlast, -⟩
  have hnone : (step {} (.addEndpoint ⟨1⟩ { device := 2 } DeviceClass.nic ⟨1⟩
      Provenance.reported ⟨0⟩)).findByBdf {} = none := by decide +kernel
  obtain ⟨id, hok, -⟩ := hlast rfl ⟨{}, ⟨1⟩, rfl, hnone⟩
  have herr : (step {} (.addEndpoint ⟨1⟩ { device := 2 } DeviceClass.nic ⟨1⟩
      Provenance.reported ⟨0⟩)).answer (.addRootComplex {} ⟨1⟩ Provenance.reported) =
      some (.err .duplicateIdentity "duplicate node id") := by decide +kernel
  rw [herr] at hok
  cases hok

end Topology

end PcieFabric
