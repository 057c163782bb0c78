import PcieFabric.Lib.Incarnation
import PcieFabric.Topology.Basic

/-!
The incarnations of a device at one address.

* `live`: the address and the generation of a node that is not removed.
  `LiveMove` is what a call does to it, and `liveMove_step` the calls one by one.
* `OnePerAddress`: no two current nodes share an address.
* `generationAt`, `addedAt`, `IncrementsAt`: the generation of the current node
  at an address, and what a call adds or increments there; `move_step` makes the
  address a place of `Lib.Incarnation`.
* `reappears_fresh_iff` settles when a device that is added again has a greater
  generation than all its earlier incarnations.
-/

namespace PcieFabric

open Std Machine Incarnation

/-- The address and the generation that a call adds. -/
def TopologyCall.added : TopologyCall → Option (Bdf × PciNodeGeneration)
  | .addRootComplex bdf gen _ | .addBridge bdf gen _ _ | .addEndpoint _ bdf _ gen _ _ =>
      some (bdf, gen)
  | .attach .. | .removeNode .. | .bumpGeneration .. => none

/-- The address and the generation of a node that is not removed. -/
def Node.live (n : Node) : Option (Bdf × PciNodeGeneration) :=
  if n.removed then none else some (n.bdf, n.generation)

lemma Node.live_eq_some_iff {n : Node} {b : Bdf} {g : PciNodeGeneration} :
    n.live = some (b, g) ↔ n.removed = false ∧ n.bdf = b ∧ n.generation = g := by
  rw [Node.live]
  cases n.removed <;> simp

namespace Topology

/-- Whether a call is answered with a success. -/
def succeeds (t : Topology) : TopologyCall → Bool
  | .addRootComplex bdf gen src => (t.addRootComplex bdf gen src).1.isOk
  | .addBridge bdf gen src parent => (t.addBridge bdf gen src parent).1.isOk
  | .addEndpoint id bdf kind gen src parent =>
      (t.addEndpoint id bdf kind gen src parent).1.isOk
  | .attach child parent link => (t.attach child parent link).1.isOk
  | .removeNode id => (t.removeNode id).1.isOk
  | .bumpGeneration id => (t.bumpGeneration id).1.isOk

/-- The generation of the current node at an address. -/
def generationAt (b : Bdf) (t : Topology) : Option ℕ :=
  (t.findByBdf b).bind fun k => (t.nodes[k]?).map fun n => n.generation.value.toNat

/-- The generation that a successful call passes for an address it adds. -/
def addedAt (b : Bdf) (t : Topology) (call : TopologyCall) : Option ℕ :=
  match call.added with
  | some (bdf, gen) => if bdf = b ∧ t.succeeds call then some gen.value.toNat else none
  | none => none

/-- The call increments the generation of the current node at the address. -/
def IncrementsAt (b : Bdf) (t : Topology) (call : TopologyCall) : Prop :=
  ∃ k, t.findByBdf b = some k ∧
    (call = .bumpGeneration k ∨ ∃ gen, call.added = some (b, gen))

/-! ### The current nodes -/

variable {t : Topology}

/-- The address and the generation of the node under an id, where it is current. -/
def live (t : Topology) (k : PciNodeId) : Option (Bdf × PciNodeGeneration) :=
  (t.nodes[k]?).bind Node.live

lemma live_eq_some_iff {k : PciNodeId} {b : Bdf} {g : PciNodeGeneration} :
    t.live k = some (b, g) ↔
      ∃ n, t.nodes[k]? = some n ∧ n.removed = false ∧ n.bdf = b ∧ n.generation = g := by
  rw [live, Option.bind_eq_some_iff]
  exact exists_congr fun n => and_congr_right fun _ => Node.live_eq_some_iff

/-- No two current nodes share an address. -/
def OnePerAddress (t : Topology) : Prop :=
  ∀ k k' b g g', t.live k = some (b, g) → t.live k' = some (b, g') → k = k'

/-- A node found at an address is live there. -/
lemma live_of_findByBdf {b : Bdf} {k : PciNodeId} (h : t.findByBdf b = some k) :
    ∃ g, t.live k = some (b, g) := by
  obtain ⟨n, hget, hremoved, hbdf⟩ := mem_of_findByBdf h
  exact ⟨n.generation, live_eq_some_iff.mpr ⟨n, hget, hremoved, hbdf, rfl⟩⟩

lemma findByBdf_eq_none_iff_live {b : Bdf} :
    t.findByBdf b = none ↔ ∀ k g, t.live k ≠ some (b, g) := by
  rw [findByBdf_eq_none_iff]
  constructor
  · intro h k g hlive
    obtain ⟨n, hget, hremoved, hbdf, -⟩ := live_eq_some_iff.mp hlive
    exact h k n hget hremoved hbdf
  · intro h k n hget hremoved hbdf
    exact h k n.generation (live_eq_some_iff.mpr ⟨n, hget, hremoved, hbdf, rfl⟩)

/-- The node found at an address is the one that is live there. -/
lemma OnePerAddress.findByBdf (h : t.OnePerAddress) {b : Bdf} {k : PciNodeId}
    {g : PciNodeGeneration} (hlive : t.live k = some (b, g)) : t.findByBdf b = some k := by
  cases hfind : t.findByBdf b with
  | none => exact absurd hlive (findByBdf_eq_none_iff_live.mp hfind k g)
  | some k' =>
      obtain ⟨g', hlive'⟩ := live_of_findByBdf hfind
      rw [h k' k b g' g hlive' hlive]

/-- The generation at an address is that of the node that is live there. -/
lemma OnePerAddress.generationAt_eq_some_iff (h : t.OnePerAddress) {b : Bdf} {c : ℕ} :
    t.generationAt b = some c ↔ ∃ k g, t.live k = some (b, g) ∧ g.value.toNat = c := by
  rw [Topology.generationAt, Option.bind_eq_some_iff]
  constructor
  · rintro ⟨k, hfind, hgen⟩
    obtain ⟨n, hget, rfl⟩ := Option.map_eq_some_iff.mp hgen
    obtain ⟨m, hget', hremoved, hbdf⟩ := mem_of_findByBdf hfind
    obtain rfl := Option.some.inj (hget.symm.trans hget')
    exact ⟨k, n.generation, live_eq_some_iff.mpr ⟨n, hget, hremoved, hbdf, rfl⟩, rfl⟩
  · rintro ⟨k, g, hlive, rfl⟩
    refine ⟨k, h.findByBdf hlive, ?_⟩
    obtain ⟨n, hget, -, -, rfl⟩ := live_eq_some_iff.mp hlive
    rw [hget, Option.map_some]

/-! ### What the calls do to them -/

/-- A change of one node, among the current ones. -/
lemma live_modify (t : Topology) (k : PciNodeId) (f : Node → Node) :
    live { t with nodes := t.nodes.modify k f } =
      Function.update t.live k ((t.nodes[k]?).bind fun n => (f n).live) := by
  funext x
  simp only [live, ExtTreeMap.getElem?_modify, LawfulEqCmp.compare_eq_iff_eq]
  by_cases hk : k = x
  · subst hk
    rw [if_pos rfl, Function.update_self, Option.bind_map]
    rfl
  · rw [if_neg hk, Function.update_of_ne (Ne.symm hk), live]

/-- An increment shows in a current node only. -/
lemma live_incremented (t : Topology) (k : PciNodeId) : (t.incremented k).live =
    Function.update t.live k ((t.live k).map fun e => (e.1, e.2.succ)) := by
  refine (live_modify t k _).trans (congrArg (Function.update t.live k) ?_)
  rw [live, Option.map_bind]
  refine congrArg (Option.bind _) (funext fun n => ?_)
  rw [Function.comp_apply, Node.live, Node.live]
  split <;> rfl

/-- A new node, among the current ones. -/
lemma live_withNode (t : Topology) (n : Node) :
    (t.withNode n).live = Function.update t.live n.id n.live := by
  funext x
  rw [live, getElem?_withNode]
  by_cases hid : n.id = x
  · subst hid
    rw [if_pos rfl, Function.update_self, Option.bind_some]
  · rw [if_neg hid, Function.update_of_ne (Ne.symm hid), live]

/-- `attach` changes no current node but its links. -/
lemma live_attach (t : Topology) (child parent : PciNodeId) (link : Option LinkId) :
    (t.attach child parent link).2.live = t.live := by
  funext k
  have hframe := map_attach Node.live (fun _ _ _ _ _ => rfl) t child parent link k
  have hlive := congrArg (Option.bind · id) hframe
  rw [Option.bind_map, Option.bind_map] at hlive
  exact hlive

/-- What a call can do to the current nodes. -/
inductive LiveMove (t : Topology) (call : TopologyCall) (t' : Topology) : Prop where
  | same (hadd : ∀ b gen, call.added = some (b, gen) →
        t.findByBdf b = none ∧ t.succeeds call = false)
      (hbump : ∀ k, call = .bumpGeneration k → t.live k = none) (h : t'.live = t.live)
  | removed (id : PciNodeId) (hcall : call = .removeNode id)
      (h : t'.live = Function.update t.live id none)
  | incremented (k : PciNodeId) (b : Bdf) (g : PciNodeGeneration)
      (hlive : t.live k = some (b, g))
      (hcall : call = .bumpGeneration k ∨ ∃ gen, call.added = some (b, gen))
      (h : t'.live = Function.update t.live k (some (b, g.succ)))
  | added (id : PciNodeId) (b : Bdf) (gen : PciNodeGeneration) (hvacant : t.findByBdf b = none)
      (hnew : t.live id = none) (hcall : call.added = some (b, gen)) (hok : t.succeeds call)
      (h : t'.live = Function.update t.live id (some (b, gen)))

/-- A call that adds a node does to the current nodes what `addNode` does, on a
topology with the same nodes. -/
lemma LiveMove.of_addNode {t₀ : Topology} (hnodes : t₀.nodes = t.nodes) {call : TopologyCall}
    {t' : Topology} {id : PciNodeId} {bdf : Bdf} {kind : DeviceClass} {gen : PciNodeGeneration}
    {src : Provenance} (hcall : call.added = some (bdf, gen))
    (hok : t.succeeds call = (t₀.addNode id bdf kind gen src).1.isOk)
    (hlive : t'.live = (t₀.addNode id bdf kind gen src).2.live) : LiveMove t call t' := by
  have hlive₀ : t₀.live = t.live := by
    funext k
    rw [live, hnodes, live]
  have hfind₀ : t₀.findByBdf bdf = t.findByBdf bdf := by
    rw [findByBdf, hnodes, findByBdf]
  rcases addNode_cases t₀ id bdf kind gen src with
    ⟨k, hfind, hadd⟩ | ⟨hfind, -, hadd⟩ | ⟨hfind, hid, hadd⟩ <;>
    rw [hadd] at hok hlive <;> rw [hfind₀] at hfind
  · obtain ⟨g, hk⟩ := live_of_findByBdf hfind
    refine .incremented k bdf g hk (.inr ⟨gen, hcall⟩) (hlive.trans ?_)
    rw [live_incremented, hlive₀, hk, Option.map_some]
  · refine .same (fun b gen' hadded => ?_) (fun k hbump => ?_) (hlive.trans hlive₀)
    · rw [hcall] at hadded
      obtain ⟨rfl, -⟩ := Prod.mk.inj (Option.some.inj hadded)
      exact ⟨hfind, hok⟩
    · rw [hbump] at hcall
      cases hcall
  · have hnew : t.live id = none := by
      rw [hnodes] at hid
      rw [live, ExtTreeMap.getElem?_eq_none hid, Option.bind_none]
    refine .added id bdf gen hfind hnew hcall hok (hlive.trans ?_)
    rw [live_withNode, hlive₀]
    rfl

/-- The tail of an add changes neither its answer nor the current nodes. -/
lemma attachAdded_live (added : Result PciNodeId × Topology) (parent : PciNodeId) :
    (attachAdded added parent).1.isOk = added.1.isOk ∧
      (attachAdded added parent).2.live = added.2.live := by
  rcases added with ⟨_ | child, t'⟩
  · exact ⟨rfl, rfl⟩
  · exact ⟨rfl, live_attach t' child parent none⟩

/-- Every call is one of these moves. -/
lemma liveMove_step (t : Topology) (call : TopologyCall) : LiveMove t call (t.step call) := by
  have hnodes : t.freshNodeId.2.nodes = t.nodes := rfl
  cases call with
  | addRootComplex bdf gen src => exact .of_addNode hnodes rfl rfl rfl
  | addBridge bdf gen src parent =>
      obtain ⟨hok, hlive⟩ :=
        attachAdded_live (t.freshNodeId.2.addNode ⟨t.nextId⟩ bdf .bridge gen src) parent
      exact .of_addNode hnodes rfl hok hlive
  | addEndpoint id bdf kind gen src parent =>
      obtain ⟨hok, hlive⟩ := attachAdded_live (t.addNode id bdf kind gen src) parent
      exact .of_addNode rfl rfl hok hlive
  | attach child parent link =>
      exact .same nofun nofun (live_attach t child parent link)
  | removeNode id =>
      rw [step, removeNode]
      split
      · refine .removed id rfl ?_
        refine (live_modify t id fun n => { n with removed := true }).trans ?_
        congr 1
        exact Option.bind_eq_none_iff.mpr fun n _ => rfl
      · exact .same nofun nofun rfl
  | bumpGeneration id =>
      have hstep : (t.bumpGeneration id).2.live =
          Function.update t.live id ((t.live id).map fun e => (e.1, e.2.succ)) := by
        rw [bumpGeneration]
        split
        · exact live_incremented t id
        · next hid =>
            have hnone : t.live id = none := by
              rw [live, ExtTreeMap.getElem?_eq_none hid, Option.bind_none]
            rw [hnone, Option.map_none, ← hnone, Function.update_eq_self]
      cases hlive : t.live id with
      | some e =>
          rw [hlive] at hstep
          exact .incremented id e.1 e.2 hlive (.inl rfl) hstep
      | none =>
          rw [hlive, Option.map_none, ← hlive, Function.update_eq_self] at hstep
          exact .same nofun (fun k hk => by cases hk; exact hlive) hstep

/-! ### One address -/

/-- A current node after a call was current at the same address before it, or is
the one that the call added to a vacant address. -/
lemma LiveMove.origin {call : TopologyCall} {t' : Topology} (h : LiveMove t call t') :
    ∃ id, ∀ k b g, t'.live k = some (b, g) →
      (∃ g', t.live k = some (b, g')) ∨ k = id ∧ t.findByBdf b = none := by
  cases h with
  | same _ _ h => exact ⟨default, fun k b g hk => .inl ⟨g, by rw [← h, hk]⟩⟩
  | removed id _ h =>
      refine ⟨id, fun k b g hk => .inl ⟨g, ?_⟩⟩
      rw [h, Function.update_apply] at hk
      split_ifs at hk with hid
      exact hk
  | incremented id b' g' hlive _ h =>
      refine ⟨id, fun k b g hk => .inl ?_⟩
      rw [h, Function.update_apply] at hk
      split_ifs at hk with hid
      · obtain ⟨rfl, -⟩ := Prod.mk.inj (Option.some.inj hk)
        exact ⟨g', hid ▸ hlive⟩
      · exact ⟨g, hk⟩
  | added id b' gen hvacant _ _ _ h =>
      refine ⟨id, fun k b g hk => ?_⟩
      rw [h, Function.update_apply] at hk
      split_ifs at hk with hid
      · obtain ⟨rfl, -⟩ := Prod.mk.inj (Option.some.inj hk)
        exact .inr ⟨hid, hvacant⟩
      · exact .inl ⟨g, hk⟩

/-- Every call keeps one current node per address. -/
lemma OnePerAddress.step (h : t.OnePerAddress) (call : TopologyCall) :
    (t.step call).OnePerAddress := by
  obtain ⟨id, horigin⟩ := (liveMove_step t call).origin
  intro k k' b g g' hk hk'
  rcases horigin k b g hk with ⟨g₁, hold⟩ | ⟨hnew, hvacant⟩
  · rcases horigin k' b g' hk' with ⟨g₂, hold'⟩ | ⟨-, hvacant⟩
    · exact h k k' b g₁ g₂ hold hold'
    · exact absurd hold (findByBdf_eq_none_iff_live.mp hvacant k g₁)
  · rcases horigin k' b g' hk' with ⟨g₂, hold'⟩ | ⟨hnew', -⟩
    · exact absurd hold' (findByBdf_eq_none_iff_live.mp hvacant k' g₂)
    · rw [hnew, hnew']

lemma onePerAddress_run (calls : List TopologyCall) : (run step {} calls).OnePerAddress := by
  refine run_invariant step (fun _ call h => h.step call) (fun k _ b g _ hk _ => ?_) calls
  obtain ⟨n, hget, -⟩ := live_eq_some_iff.mp hk
  rw [show ({} : Topology).nodes = ∅ from rfl, ExtTreeMap.getElem?_empty] at hget
  cases hget

/-- The generation at an address depends on the current nodes there. -/
lemma OnePerAddress.generationAt_congr (h : t.OnePerAddress) {t' : Topology}
    (h' : t'.OnePerAddress) {b : Bdf}
    (hlive : ∀ k g, t'.live k = some (b, g) ↔ t.live k = some (b, g)) :
    t'.generationAt b = t.generationAt b := by
  refine Option.ext fun c => ?_
  rw [h.generationAt_eq_some_iff, h'.generationAt_eq_some_iff]
  simp only [hlive]

/-- A change of one node between other addresses keeps the generation at this
one. -/
lemma OnePerAddress.generationAt_update (h : t.OnePerAddress) {t' : Topology}
    (h' : t'.OnePerAddress) {b : Bdf} {id : PciNodeId} {e : Option (Bdf × PciNodeGeneration)}
    (hlive : t'.live = Function.update t.live id e) (hold : ∀ g, t.live id ≠ some (b, g))
    (hnew : ∀ g, e ≠ some (b, g)) : t'.generationAt b = t.generationAt b := by
  refine h.generationAt_congr h' fun k g => ?_
  rw [hlive]
  by_cases hk : k = id
  · subst hk
    rw [Function.update_self]
    exact iff_of_false (hnew g) (hold g)
  · rw [Function.update_of_ne hk]

/-- A node is at one address. -/
lemma ne_some_of_ne {e : Option (Bdf × PciNodeGeneration)} {b b' : Bdf} {g : PciNodeGeneration}
    (he : e = some (b', g)) (hne : b' ≠ b) (g' : PciNodeGeneration) : e ≠ some (b, g') := by
  intro heq
  rw [he] at heq
  exact hne (Prod.mk.inj (Option.some.inj heq)).1

/-- A call that adds nothing at the address. -/
lemma addedAt_eq_none {b : Bdf} {call : TopologyCall}
    (h : ∀ gen, call.added = some (b, gen) → t.succeeds call = false) :
    t.addedAt b call = none := by
  unfold addedAt
  split
  · next bdf gen hadd =>
      rw [if_neg]
      rintro ⟨rfl, hok⟩
      rw [h gen hadd] at hok
      cases hok
  · rfl

/-- An add at another address. -/
lemma added_elsewhere {b b' : Bdf} (hne : b' ≠ b) {call : TopologyCall} {gen : PciNodeGeneration}
    (hadd : call.added = some (b', gen)) :
    t.addedAt b call = none ∧ ¬ t.IncrementsAt b call := by
  constructor
  · refine addedAt_eq_none fun gen' hb => ?_
    rw [hadd] at hb
    exact absurd (Prod.mk.inj (Option.some.inj hb)).1 hne
  · rintro ⟨k, -, rfl | ⟨gen', hb⟩⟩
    · cases hadd
    · rw [hadd] at hb
      exact hne (Prod.mk.inj (Option.some.inj hb)).1

/-- An increment at another address. -/
lemma bumped_elsewhere {b b' : Bdf} (hne : b' ≠ b) {id : PciNodeId} {g : PciNodeGeneration}
    (hlive : t.live id = some (b', g)) :
    t.addedAt b (.bumpGeneration id) = none ∧ ¬ t.IncrementsAt b (.bumpGeneration id) := by
  refine ⟨addedAt_eq_none nofun, ?_⟩
  rintro ⟨k, hfind, hbump | ⟨gen, hadd⟩⟩
  · cases hbump
    obtain ⟨g', hk⟩ := live_of_findByBdf hfind
    exact ne_some_of_ne hlive hne g' hk
  · cases hadd

/-- A removal, seen from an address. -/
lemma OnePerAddress.move_removed (h : t.OnePerAddress) {t' : Topology} (h' : t'.OnePerAddress)
    (b : Bdf) {id : PciNodeId} (hlive : t'.live = Function.update t.live id none) :
    Move (2 ^ 64) (t.generationAt b) (t.addedAt b (.removeNode id))
      (t.IncrementsAt b (.removeNode id)) (t'.generationAt b) := by
  have hadd : t.addedAt b (.removeNode id) = none := addedAt_eq_none nofun
  have hinc : ¬ t.IncrementsAt b (.removeNode id) := by
    rintro ⟨k, -, hbump | ⟨gen, hadd⟩⟩
    · cases hbump
    · cases hadd
  by_cases hhere : ∃ g, t.live id = some (b, g)
  · obtain ⟨g, hid⟩ := hhere
    refine .left hadd hinc (Option.eq_none_iff_forall_ne_some.mpr fun c hc => ?_)
    obtain ⟨k, g', hk, -⟩ := h'.generationAt_eq_some_iff.mp hc
    rw [hlive, Function.update_apply] at hk
    split_ifs at hk with hne
    exact hne (h k id b g' g hk hid)
  · exact .kept hadd hinc (h.generationAt_update h' hlive (not_exists.mp hhere)
      fun c => (Option.some_ne_none (b, c)).symm)

/-- An increment, seen from an address. -/
lemma OnePerAddress.move_incremented (h : t.OnePerAddress) {t' : Topology}
    (h' : t'.OnePerAddress) (b : Bdf) {call : TopologyCall} {id : PciNodeId} {b' : Bdf}
    {g : PciNodeGeneration} (hlive : t.live id = some (b', g))
    (hcall : call = .bumpGeneration id ∨ ∃ gen, call.added = some (b', gen))
    (hnew : t'.live = Function.update t.live id (some (b', g.succ))) :
    Move (2 ^ 64) (t.generationAt b) (t.addedAt b call) (t.IncrementsAt b call)
      (t'.generationAt b) := by
  by_cases hb : b' = b
  · subst hb
    refine .incremented g.value.toNat (h.generationAt_eq_some_iff.mpr ⟨id, g, hlive, rfl⟩)
      ⟨id, h.findByBdf hlive, hcall⟩ (h'.generationAt_eq_some_iff.mpr ⟨id, g.succ, ?_, ?_⟩)
    · rw [hnew, Function.update_self]
    · exact UInt64.toNat_add g.value 1
  · have helse : t.addedAt b call = none ∧ ¬ t.IncrementsAt b call := by
      rcases hcall with rfl | ⟨gen, hadd⟩
      · exact bumped_elsewhere hb hlive
      · exact added_elsewhere hb hadd
    exact .kept helse.1 helse.2 (h.generationAt_update h' hnew (ne_some_of_ne hlive hb)
      (ne_some_of_ne rfl hb))

/-- A new node, seen from an address. -/
lemma OnePerAddress.move_added (h : t.OnePerAddress) {t' : Topology} (h' : t'.OnePerAddress)
    (b : Bdf) {call : TopologyCall} {id : PciNodeId} {b' : Bdf} {gen : PciNodeGeneration}
    (hvacant : t.findByBdf b' = none) (hid : t.live id = none)
    (hcall : call.added = some (b', gen)) (hok : t.succeeds call)
    (hnew : t'.live = Function.update t.live id (some (b', gen))) :
    Move (2 ^ 64) (t.generationAt b) (t.addedAt b call) (t.IncrementsAt b call)
      (t'.generationAt b) := by
  by_cases hb : b' = b
  · subst hb
    refine .started gen.value.toNat ?_ ?_ ?_ (h'.generationAt_eq_some_iff.mpr ⟨id, gen, ?_, rfl⟩)
    · rw [Topology.generationAt, hvacant, Option.bind_none]
    · rw [addedAt, hcall]
      exact if_pos ⟨rfl, hok⟩
    · rintro ⟨k, hfind, -⟩
      rw [hvacant] at hfind
      cases hfind
    · rw [hnew, Function.update_self]
  · obtain ⟨hadd, hinc⟩ := added_elsewhere (t := t) hb hcall
    refine .kept hadd hinc (h.generationAt_update h' hnew (fun c => ?_) (ne_some_of_ne rfl hb))
    rw [hid]
    exact (Option.some_ne_none (b, c)).symm

/-- **One call**, seen from an address. -/
lemma OnePerAddress.move_step (h : t.OnePerAddress) (b : Bdf) (call : TopologyCall) :
    Move (2 ^ 64) (t.generationAt b) (t.addedAt b call) (t.IncrementsAt b call)
      ((t.step call).generationAt b) := by
  have h' := h.step call
  cases liveMove_step t call with
  | same hadd hbump hlive =>
      refine .kept (addedAt_eq_none fun gen hb => (hadd b gen hb).2) ?_
        (h.generationAt_congr h' fun k g => by rw [hlive])
      rintro ⟨k, hfind, hcall | ⟨gen, hcall⟩⟩
      · obtain ⟨g, hk⟩ := live_of_findByBdf hfind
        rw [hbump k hcall] at hk
        cases hk
      · rw [(hadd b gen hcall).1] at hfind
        cases hfind
  | removed id hcall hlive =>
      subst hcall
      exact h.move_removed h' b hlive
  | incremented id b' g hlive hcall hnew => exact h.move_incremented h' b hlive hcall hnew
  | added id b' gen hvacant hid hcall hok hnew => exact h.move_added h' b hvacant hid hcall hok hnew

/-! ### Runs -/

/-- The current node at the address, after one more add there, has a greater
generation than every current node there before. -/
def ReappearsFresh (b : Bdf) (calls : List TopologyCall) : Prop :=
  Ascending step (generationAt b) (addedAt b) {} calls

/-- **A device that reappears has a fresh generation, exactly** when its address
is never added again, or no call increments the generation 2^64 - 1 of a current
node there, and every add there that finds no current node passes a generation
greater than those of all current nodes before. -/
theorem reappears_fresh_iff (b : Bdf) (calls : List TopologyCall) :
    ReappearsFresh b calls ↔ (Readded step (generationAt b) (addedAt b) {} calls →
      NoWrap step (generationAt b) (IncrementsAt b) (2 ^ 64) {} calls ∧
        StartsAbove step (generationAt b) (addedAt b) {} calls) := by
  refine ascending_iff (fun pre call => ?_) (fun pre c hc => ?_)
  · rw [run_append, run_cons, run_nil]
    exact (onePerAddress_run pre).move_step b call
  · obtain ⟨k, g, -, rfl⟩ := (onePerAddress_run pre).generationAt_eq_some_iff.mp hc
    exact g.value.toNat_lt

/-- A card with generation 5 is removed, and one with generation 1 appears at
its address. -/
theorem reappeared_with_old_generation :
    ¬ ReappearsFresh {} [.addEndpoint ⟨1⟩ {} DeviceClass.nic ⟨5⟩ Provenance.reported ⟨0⟩,
      .removeNode ⟨1⟩, .addEndpoint ⟨2⟩ {} DeviceClass.nic ⟨1⟩ Provenance.reported ⟨0⟩] := by
  intro h
  have hlt := h [.addEndpoint ⟨1⟩ {} DeviceClass.nic ⟨5⟩ Provenance.reported ⟨0⟩]
    [.removeNode ⟨1⟩, .addEndpoint ⟨2⟩ {} DeviceClass.nic ⟨1⟩ Provenance.reported ⟨0⟩]
    List.prefix_rfl 5 1 (by decide +kernel)
    ⟨[.removeNode ⟨1⟩], _, List.prefix_rfl, by decide +kernel⟩ (by decide +kernel)
  exact absurd hlt (by decide)

end Topology

end PcieFabric
