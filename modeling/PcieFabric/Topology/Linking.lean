import PcieFabric.Topology.Acyclic
import PcieFabric.Topology.Addresses

/-!
Linking a node under a parent (`topology.hpp`): what `attach_locked` answers and
writes, on every topology, and what becomes of it in `add_bridge` and
`add_endpoint`.

* `mem_ancestors_iff`: the guarded walk visits exactly what the parent links
  reach, also where they form a cycle.
* `attach_move`: the branches of `attach`, each with its condition on the links
  before the call. `rejection_keeps_links_iff` settles when a rejected call has
  written nothing.
* `placed_cases`: an add with a parent is an `addNode` and an `attach`.
  `places_node_iff` settles when the node it returns is the one asked for.
-/

namespace PcieFabric

open Std Machine ParentForest

/-- The links of a node. -/
def Node.links (n : Node) : Option PciNodeId × List PciNodeId × Option LinkId × List LinkId :=
  (n.parent, n.children, n.upstreamLink, n.downstreamLinks)

/-- The address, the kind and the parent of the node that a call is to put under
a parent. -/
def TopologyCall.placement : TopologyCall → Option (Bdf × DeviceClass × PciNodeId)
  | .addBridge bdf _ _ parent => some (bdf, DeviceClass.bridge, parent)
  | .addEndpoint _ bdf kind _ _ parent => some (bdf, kind, parent)
  | .addRootComplex .. | .attach .. | .removeNode .. | .bumpGeneration .. => none

namespace Topology

variable {t : Topology}

/-! ### The guarded walk -/

/-- The loop of `ancestors` is the bounded walk up the parent links. -/
lemma ancestorsLoop_eq_climb (guard : ℕ) (id : PciNodeId) :
    t.ancestorsLoop guard (some id) = climb t.parentOf guard id := by
  induction guard generalizing id with
  | zero => rfl
  | succ guard ih =>
      rw [ancestorsLoop, climb, parentOf]
      cases t.nodes[id]? with
      | none => rfl
      | some n =>
          dsimp only [Option.bind_some]
          cases n.parent with
          | none => cases guard <;> rfl
          | some p => exact congrArg (id :: ·) (ih p)

/-- `ancestors` lists exactly what the parent links reach. -/
lemma mem_ancestors_iff {id c : PciNodeId} :
    c ∈ t.ancestors id ↔ Relation.ReflTransGen (Up t.parentOf) id c := by
  rw [ancestors, ancestorsLoop_eq_climb]
  refine mem_climb_iff (S := t.nodes.keys.toFinset) (fun x y hxy => ?_) ?_
  · rw [List.mem_toFinset, ExtTreeMap.mem_keys]
    exact mem_of_parentOf hxy
  · exact (List.toFinset_card_le _).trans_eq ExtTreeMap.length_keys

/-- The cycle test on the nodes that `attach` has written: it asks whether the
parent was below the child before. -/
lemma wouldCycle_linkNodes {child parent : PciNodeId} {p : Node} (hne : child ≠ parent)
    (hp : t.nodes[parent]? = some p) (c : Node) (link : Option LinkId) :
    (t.linkNodes child parent c p link).wouldCycle child parent = true ↔
      Below t.parentOf parent child := by
  rw [wouldCycle, List.contains_iff_mem, mem_ancestors_iff, parentOf_linkNodes hne hp,
    reach_link_iff, Relation.reflTransGen_iff_eq_or_transGen, or_iff_right hne]
  rfl

/-! ### The branches of `attach` -/

/-- What `attach` answers and writes. -/
inductive AttachMove (t : Topology) (child parent : PciNodeId) (link : Option LinkId) : Prop where
  | absent (h : parent ∉ t.nodes ∨ child ∉ t.nodes)
      (hres : t.attach child parent link = (.err .notFound "parent/child absent", t))
  | selfCycle (hself : child = parent)
      (hres : t.attach child parent link = (.err .hierarchyCycle "self cycle", t))
  | linked (hmem : parent ∈ t.nodes) (h : t.parentOf child = some parent)
      (hres : t.attach child parent link = (.ok (), t))
  | rejected (c p : Node) (hne : child ≠ parent) (hc : t.nodes[child]? = some c)
      (hp : t.nodes[parent]? = some p) (hnew : c.parent ≠ some parent)
      (hbelow : Below t.parentOf parent child)
      (hres : t.attach child parent link =
        (.err .hierarchyCycle "cycle detected", t.linkNodes child parent c p link))
  | written (c p : Node) (hne : child ≠ parent) (hc : t.nodes[child]? = some c)
      (hp : t.nodes[parent]? = some p) (hnew : c.parent ≠ some parent)
      (hbelow : ¬ Below t.parentOf parent child)
      (hres : t.attach child parent link = (.ok (), t.linkNodes child parent c p link))

lemma attach_move (t : Topology) (child parent : PciNodeId) (link : Option LinkId) :
    AttachMove t child parent link := by
  cases hp : t.nodes[parent]? with
  | none =>
      exact .absent (.inl (notMem_of_getElem? hp)) (by rw [attach, hp])
  | some p =>
      have hmem : parent ∈ t.nodes := mem_of_getElem? hp
      cases hc : t.nodes[child]? with
      | none =>
          exact .absent (.inr (notMem_of_getElem? hc)) (by rw [attach, hp, hc])
      | some c =>
          have hres : t.attach child parent link =
              if child = parent then (.err .hierarchyCycle "self cycle", t)
              else if c.parent = some parent then (.ok (), t)
              else if (t.linkNodes child parent c p link).wouldCycle child parent then
                (.err .hierarchyCycle "cycle detected", t.linkNodes child parent c p link)
              else (.ok (), t.linkNodes child parent c p link) := by
            rw [attach, hp, hc]
          by_cases hself : child = parent
          · exact .selfCycle hself (hres.trans (if_pos hself))
          rw [if_neg hself] at hres
          by_cases hlinked : c.parent = some parent
          · exact .linked hmem ((parentOf_of_getElem? hc).trans hlinked)
              (hres.trans (if_pos hlinked))
          rw [if_neg hlinked] at hres
          have htest := wouldCycle_linkNodes hself hp c link
          by_cases hbelow : Below t.parentOf parent child
          · exact .rejected c p hself hc hp hlinked hbelow
              (hres.trans (if_pos (htest.mpr hbelow)))
          · exact .written c p hself hc hp hlinked hbelow
              (hres.trans (if_neg fun h => hbelow (htest.mp h)))

/-- A rejected `attach` leaves the links of every node, and the same call is
rejected again. -/
def RejectionKeepsLinks (t : Topology) (child parent : PciNodeId) (link : Option LinkId) : Prop :=
  ∀ e, (t.attach child parent link).1 = .error e →
    (∀ x : PciNodeId, ((t.attach child parent link).2.nodes[x]?).map Node.links =
        (t.nodes[x]?).map Node.links) ∧
      ∃ e', ((t.attach child parent link).2.attach child parent link).1 = .error e'

/-- A call that is rejected without a write changes nothing and is rejected again. -/
lemma rejectionKeepsLinks_of_unchanged {child parent : PciNodeId} {link : Option LinkId}
    (h : (t.attach child parent link).2 = t) : t.RejectionKeepsLinks child parent link := by
  intro e he
  rw [h]
  exact ⟨fun _ => rfl, e, he⟩

/-- **A rejected `attach` changes nothing, exactly** where it does not ask for a new
link of a present child under one of its own descendants. -/
theorem rejection_keeps_links_iff (t : Topology) (child parent : PciNodeId)
    (link : Option LinkId) : t.RejectionKeepsLinks child parent link ↔
      ¬ (child ∈ t.nodes ∧ child ≠ parent ∧ t.parentOf child ≠ some parent ∧
        Below t.parentOf parent child) := by
  constructor
  · rintro hkeeps ⟨hchild, hne, hnew, hbelow⟩
    cases attach_move t child parent link with
    | absent h hres =>
        obtain ⟨b, hb, -⟩ := Relation.TransGen.head'_iff.mp hbelow
        exact h.elim (fun hp => hp (mem_of_parentOf hb)) fun hc => hc hchild
    | selfCycle hself hres => exact hne hself
    | linked hmem h hres => exact hnew h
    | rejected c p _ hc hp _ _ hres =>
        have hlinks := (hkeeps _ (congrArg Prod.fst hres)).1 child
        have hparent : (t.attach child parent link).2.parentOf child = t.parentOf child := by
          have hfst := congrArg (Option.bind · Prod.fst) hlinks
          rw [Option.bind_map, Option.bind_map] at hfst
          exact hfst
        rw [hres, parentOf_linkNodes hne hp, Function.update_self] at hparent
        exact hnew hparent.symm
    | written c p _ hc hp _ hnot hres => exact hnot hbelow
  · intro hcond
    cases attach_move t child parent link with
    | absent h hres => exact rejectionKeepsLinks_of_unchanged (congrArg Prod.snd hres)
    | selfCycle hself hres => exact rejectionKeepsLinks_of_unchanged (congrArg Prod.snd hres)
    | linked hmem h hres => exact rejectionKeepsLinks_of_unchanged (congrArg Prod.snd hres)
    | rejected c p hne hc hp hnew hbelow hres =>
        refine absurd ⟨mem_of_getElem? hc, hne, ?_, hbelow⟩ hcond
        rwa [parentOf_of_getElem? hc]
    | written c p hne hc hp hnew hnot hres =>
        intro e he
        rw [hres] at he
        cases he

/-- A root complex (id 1) attached to the endpoint under it (id 100): the call is
answered `HIERARCHY_CYCLE`, and the same call then succeeds. -/
theorem rejected_attach_then_accepted :
    ¬ ∀ calls child parent link,
      (run step {} calls).RejectionKeepsLinks child parent link := by
  intro h
  obtain ⟨-, e, he⟩ := h [.addRootComplex {} ⟨1⟩ Provenance.reported,
    .addEndpoint ⟨100⟩ { device := 2 } DeviceClass.accelerator ⟨1⟩ Provenance.reported ⟨1⟩]
    ⟨1⟩ ⟨100⟩ none ⟨.hierarchyCycle, "cycle detected"⟩ (by decide +kernel)
  have hok : (((run step {} [.addRootComplex {} ⟨1⟩ Provenance.reported,
      .addEndpoint ⟨100⟩ { device := 2 } DeviceClass.accelerator ⟨1⟩ Provenance.reported
        ⟨1⟩]).attach ⟨1⟩ ⟨100⟩ none).2.attach ⟨1⟩ ⟨100⟩ none).1 = .ok () := by decide +kernel
  rw [hok] at he
  cases he

/-! ### Adding a node under a parent -/

/-- What a call that puts a node under a parent does: it resolves to the current
node at the address or adds a node, and attaches it; or it is refused. -/
inductive PlaceMove (t : Topology) (call : TopologyCall) (bdf : Bdf) (kind : DeviceClass)
    (parent : PciNodeId) : Prop where
  | found (k : PciNodeId) (t₁ : Topology) (hfind : t.findByBdf bdf = some k)
      (hans : t.answer call = some (.ok k)) (hnodes : t₁.nodes = (t.incremented k).nodes)
      (hstep : t.step call = (t₁.attach k parent none).2)
  | refused (id : PciNodeId) (hfind : t.findByBdf bdf = none)
      (hid : t.requestedId call = some id) (htaken : id ∈ t.nodes)
      (hans : t.answer call = some (.err .duplicateIdentity "duplicate node id"))
      (hnodes : (t.step call).nodes = t.nodes)
  | created (id : PciNodeId) (t₁ : Topology) (n : Node) (hfind : t.findByBdf bdf = none)
      (hid : t.requestedId call = some id) (hnew : id ∉ t.nodes)
      (hans : t.answer call = some (.ok id)) (hn : n.id = id)
      (hfields : (n.removed, n.bdf, n.kind) = (false, bdf, kind))
      (hlinks : n.parent = none ∧ n.children = [])
      (hnodes : t₁.nodes = (t.withNode n).nodes)
      (hstep : t.step call = (t₁.attach id parent none).2)

/-- A call that is an `addNode` on the same nodes and the tail of an add. -/
lemma PlaceMove.of_addNode {t₀ : Topology} (hnodes : t₀.nodes = t.nodes) {call : TopologyCall}
    {id : PciNodeId} {bdf : Bdf} {kind : DeviceClass} {gen : PciNodeGeneration} {src : Provenance}
    {parent : PciNodeId} (hid : t.requestedId call = some id)
    (hans : t.answer call = some (attachAdded (t₀.addNode id bdf kind gen src) parent).1)
    (hstep : t.step call = (attachAdded (t₀.addNode id bdf kind gen src) parent).2) :
    PlaceMove t call bdf kind parent := by
  have hfind₀ : t₀.findByBdf bdf = t.findByBdf bdf := by
    rw [findByBdf, hnodes, findByBdf]
  rcases addNode_cases t₀ id bdf kind gen src with
    ⟨k, hfind, hadd⟩ | ⟨hfind, htaken, hadd⟩ | ⟨hfind, hnew, hadd⟩ <;>
    rw [hadd] at hans hstep <;> rw [hfind₀] at hfind
  · refine .found k (t₀.incremented k) hfind hans ?_ hstep
    rw [incremented, hnodes, incremented]
  · exact .refused id hfind hid (hnodes ▸ htaken) hans
      ((congrArg Topology.nodes hstep).trans hnodes)
  · let n : Node := { id := id, bdf := bdf, kind := kind, generation := gen, provenance := src }
    refine .created id (t₀.withNode n) n hfind hid (hnodes ▸ hnew) hans rfl rfl ⟨rfl, rfl⟩ ?_ hstep
    rw [withNode, hnodes, withNode]

/-- Every call that puts a node under a parent is one of these moves. -/
lemma placed_cases {call : TopologyCall} {bdf : Bdf} {kind : DeviceClass} {parent : PciNodeId}
    (h : call.placement = some (bdf, kind, parent)) : PlaceMove t call bdf kind parent := by
  have hnodes : t.freshNodeId.2.nodes = t.nodes := rfl
  cases call with
  | addRootComplex b gen src => cases h
  | addBridge b gen src p =>
      cases h
      exact .of_addNode hnodes rfl rfl rfl
  | addEndpoint id b k gen src p =>
      cases h
      exact .of_addNode rfl rfl rfl rfl
  | attach child p link => cases h
  | removeNode id => cases h
  | bumpGeneration id => cases h

/-- After `attach` a present child that is not its own parent has that parent,
whatever the call answers. -/
lemma parentOf_attach_self {child parent : PciNodeId} (hc : child ∈ t.nodes)
    (hp : parent ∈ t.nodes) (hne : child ≠ parent) (link : Option LinkId) :
    (t.attach child parent link).2.parentOf child = some parent := by
  rw [parentOf_attach hc, if_pos ⟨rfl, hne, hp⟩]

/-- The attached node after the tail of an add. -/
lemma getElem?_attach_self {x : PciNodeId} {m : Node} (hm : t.nodes[x]? = some m)
    (parent : PciNodeId) :
    ∃ n, (t.attach x parent none).2.nodes[x]? = some n ∧
      (n.removed, n.bdf, n.kind) = (m.removed, m.bdf, m.kind) ∧
      (parent ∈ t.nodes → x ≠ parent → n.parent = some parent) := by
  have hfields := map_attach (fun n => (n.removed, n.bdf, n.kind)) (fun _ _ _ _ _ => rfl)
    t x parent none x
  rw [hm, Option.map_some] at hfields
  obtain ⟨n, hn, heq⟩ := Option.map_eq_some_iff.mp hfields
  refine ⟨n, hn, heq, fun hparent hne => ?_⟩
  rw [← parentOf_of_getElem? hn]
  exact parentOf_attach_self (mem_of_getElem? hm) hparent hne none

/-- The node that a successful add returns is present and current, at the address,
of the kind and under the parent of the request, and a parent that is absent or
would close a cycle is an error. -/
def PlacesNode (t : Topology) (call : TopologyCall) : Prop :=
  ∀ bdf kind parent, call.placement = some (bdf, kind, parent) → parent ≠ ⟨0⟩ →
    (∀ x, t.answer call = some (.ok x) → ∃ n, (t.step call).nodes[x]? = some n ∧
      n.removed = false ∧ n.bdf = bdf ∧ n.kind = kind ∧ n.parent = some parent) ∧
    (parent ∉ t.nodes ∨ (∃ k, t.findByBdf bdf = some k ∧
        (parent = k ∨ Below t.parentOf parent k)) →
      ∃ e, t.answer call = some (.error e))

/-- The request can be met as it stands: the parent is present, and a node that is
current at the address has the kind and is neither the parent nor above it. -/
def Placeable (t : Topology) (bdf : Bdf) (kind : DeviceClass) (parent : PciNodeId) : Prop :=
  parent ∈ t.nodes ∧ ∀ k n, t.findByBdf bdf = some k → t.nodes[k]? = some n →
    n.kind = kind ∧ parent ≠ k ∧ ¬ Below t.parentOf parent k

/-- The node at an occupied address, after the attach of an add: it keeps its kind
and has the parent that was asked for, if that is another present node. -/
lemma exists_node_of_found {t₁ : Topology} {k : PciNodeId} {bdf : Bdf}
    (hfind : t.findByBdf bdf = some k) (hnodes : t₁.nodes = (t.incremented k).nodes)
    (parent : PciNodeId) : ∃ m n, t.nodes[k]? = some m ∧
      (t₁.attach k parent none).2.nodes[k]? = some n ∧ n.removed = false ∧ n.bdf = bdf ∧
      n.kind = m.kind ∧ (parent ∈ t.nodes → k ≠ parent → n.parent = some parent) := by
  obtain ⟨m, hm, hcurrent, hbdf⟩ := mem_of_findByBdf hfind
  have hm₁ : t₁.nodes[k]? = some { m with generation := m.generation.succ } := by
    simp only [hnodes, incremented, ExtTreeMap.getElem?_modify, LawfulEqCmp.compare_eq_iff_eq,
      if_pos, hm, Option.map_some]
  obtain ⟨n, hn, hfields, hparent⟩ := getElem?_attach_self hm₁ parent
  simp only [Prod.mk.injEq] at hfields
  obtain ⟨hremoved, haddr, hkind⟩ := hfields
  refine ⟨m, n, hm, hn, hremoved.trans hcurrent, haddr.trans hbdf, hkind, fun hmem => hparent ?_⟩
  rw [hnodes]
  exact ExtTreeMap.mem_modify.mpr hmem

/-- The node that was added, after its attach. -/
lemma exists_node_of_created {t₁ : Topology} {m : Node} {bdf : Bdf} {kind : DeviceClass}
    (hfields : (m.removed, m.bdf, m.kind) = (false, bdf, kind))
    (hnodes : t₁.nodes = (t.withNode m).nodes) (parent : PciNodeId) :
    ∃ n, (t₁.attach m.id parent none).2.nodes[m.id]? = some n ∧ n.removed = false ∧
      n.bdf = bdf ∧ n.kind = kind ∧
      (parent ∈ t.nodes → m.id ≠ parent → n.parent = some parent) := by
  have hm₁ : t₁.nodes[m.id]? = some m := by
    rw [hnodes, getElem?_withNode, if_pos rfl]
  obtain ⟨n, hn, hsame, hparent⟩ := getElem?_attach_self hm₁ parent
  rw [hfields] at hsame
  simp only [Prod.mk.injEq] at hsame
  obtain ⟨hremoved, haddr, hkind⟩ := hsame
  refine ⟨n, hn, hremoved, haddr, hkind, fun hmem => hparent ?_⟩
  rw [hnodes]
  exact mem_withNode.mpr (.inr hmem)

/-- The postcondition of an add that is answered with a node. -/
lemma postcondition_iff_of_ok {call : TopologyCall} {x : PciNodeId} {n : Node} {bdf : Bdf}
    {kind : DeviceClass} {parent : PciNodeId} {Bad : Prop}
    (hans : t.answer call = some (.ok x)) (hn : (t.step call).nodes[x]? = some n) :
    ((∀ y, t.answer call = some (.ok y) → ∃ n, (t.step call).nodes[y]? = some n ∧
        n.removed = false ∧ n.bdf = bdf ∧ n.kind = kind ∧ n.parent = some parent) ∧
      (Bad → ∃ e, t.answer call = some (.error e))) ↔
      (n.removed = false ∧ n.bdf = bdf ∧ n.kind = kind ∧ n.parent = some parent) ∧ ¬ Bad := by
  constructor
  · rintro ⟨hpost, herr⟩
    obtain ⟨n', hn', hfields⟩ := hpost x hans
    obtain rfl := Option.some.inj (hn.symm.trans hn')
    refine ⟨hfields, fun hbad => ?_⟩
    obtain ⟨e, he⟩ := herr hbad
    rw [hans] at he
    cases he
  · rintro ⟨hfields, hgood⟩
    refine ⟨fun y hy => ?_, fun hbad => absurd hbad hgood⟩
    rw [hans] at hy
    obtain rfl : x = y := Except.ok.inj (Option.some.inj hy)
    exact ⟨n, hn, hfields⟩

/-- A request at an occupied address can be met if it fits the node there. -/
lemma placeable_iff_of_found {k : PciNodeId} {m : Node} {bdf : Bdf} {kind : DeviceClass}
    {parent : PciNodeId} (hfind : t.findByBdf bdf = some k) (hm : t.nodes[k]? = some m) :
    t.Placeable bdf kind parent ↔
      parent ∈ t.nodes ∧ m.kind = kind ∧ parent ≠ k ∧ ¬ Below t.parentOf parent k := by
  refine and_congr_right fun _ => ⟨fun h => h k m hfind hm, fun h k' m' hk' hm' => ?_⟩
  obtain rfl := Option.some.inj (hfind.symm.trans hk')
  obtain rfl := Option.some.inj (hm.symm.trans hm')
  exact h

/-- A request at a vacant address can be met if the parent is there. -/
lemma placeable_iff_of_vacant {bdf : Bdf} {kind : DeviceClass} {parent : PciNodeId}
    (hfind : t.findByBdf bdf = none) : t.Placeable bdf kind parent ↔ parent ∈ t.nodes := by
  refine and_iff_left fun k _ hk => ?_
  rw [hfind] at hk
  cases hk

/-- **Adding a node under a parent, exactly.** The add meets its postcondition if
and only if its address is vacant and its id taken, which it reports, or the
request is placeable. -/
theorem places_node_iff (t : Topology) (call : TopologyCall) : t.PlacesNode call ↔
    ∀ bdf kind parent, call.placement = some (bdf, kind, parent) → parent ≠ ⟨0⟩ →
      (t.findByBdf bdf = none ∧ ∃ id ∈ t.nodes, t.requestedId call = some id) ∨
        t.Placeable bdf kind parent := by
  refine forall_congr' fun bdf => forall_congr' fun kind => forall_congr' fun parent =>
    forall_congr' fun hplace => forall_congr' fun _ => ?_
  cases placed_cases (t := t) hplace with
  | found k t₁ hfind hans hnodes hstep =>
      obtain ⟨m, n, hm, hn, hcurrent, hbdf, hkind, hparent⟩ :=
        exists_node_of_found hfind hnodes parent
      rw [← hstep] at hn
      rw [postcondition_iff_of_ok hans hn, placeable_iff_of_found hfind hm]
      constructor
      · rintro ⟨⟨-, -, hkind', -⟩, hgood⟩
        exact .inr ⟨not_not.mp fun h => hgood (.inl h), hkind.symm.trans hkind',
          fun h => hgood (.inr ⟨k, hfind, .inl h⟩), fun h => hgood (.inr ⟨k, hfind, .inr h⟩)⟩
      · rintro (⟨hnone, -⟩ | ⟨hmem, hkindm, hne, hbelow⟩)
        · rw [hfind] at hnone
          cases hnone
        refine ⟨⟨hcurrent, hbdf, hkind.trans hkindm, hparent hmem (Ne.symm hne)⟩, ?_⟩
        rintro (habsent | ⟨k', hk', hbad⟩)
        · exact absurd hmem habsent
        · obtain rfl := Option.some.inj (hfind.symm.trans hk')
          exact hbad.elim hne hbelow
  | refused id hfind hid htaken hans hnodes =>
      refine iff_of_true ⟨fun x hx => ?_, fun _ => ⟨_, hans⟩⟩ (.inl ⟨hfind, id, htaken, hid⟩)
      rw [hans] at hx
      cases hx
  | created id t₁ m hfind hid hnew hans hmid hfields _ hnodes hstep =>
      subst hmid
      obtain ⟨n, hn, hcurrent, hbdf, hkind, hparent⟩ :=
        exists_node_of_created hfields hnodes parent
      rw [← hstep] at hn
      rw [postcondition_iff_of_ok hans hn, placeable_iff_of_vacant hfind]
      constructor
      · rintro ⟨-, hgood⟩
        exact .inr (not_not.mp fun h => hgood (.inl h))
      · rintro (⟨-, id', htaken, hid'⟩ | hmem)
        · obtain rfl := Option.some.inj (hid.symm.trans hid')
          exact absurd htaken hnew
        have hne : m.id ≠ parent := fun heq => hnew (heq ▸ hmem)
        refine ⟨⟨hcurrent, hbdf, hkind, hparent hmem hne⟩, ?_⟩
        rintro (habsent | ⟨k, hk, -⟩)
        · exact absurd hmem habsent
        · rw [hfind] at hk
          cases hk

/-- An endpoint under a parent that is not there: the call succeeds, and the node
has no parent. -/
theorem endpoint_without_its_parent :
    ¬ ∀ calls call, (run step {} calls).PlacesNode call := by
  intro h
  obtain ⟨-, herr⟩ := h []
    (.addEndpoint ⟨1⟩ {} DeviceClass.nic ⟨1⟩ Provenance.reported ⟨7⟩) {} DeviceClass.nic ⟨7⟩ rfl
    (by decide)
  obtain ⟨e, he⟩ := herr (.inl (by decide +kernel))
  have hok : (run step {} []).answer
      (.addEndpoint ⟨1⟩ {} DeviceClass.nic ⟨1⟩ Provenance.reported ⟨7⟩) = some (.ok ⟨1⟩) := by
    decide +kernel
  rw [hok] at he
  cases he

end Topology

end PcieFabric
