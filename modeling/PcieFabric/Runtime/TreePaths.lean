import PcieFabric.Runtime.BuildPath
import PcieFabric.Runtime.Rebuild
import PcieFabric.Topology.Presence

/-!
The paths that are built from the hierarchy (`path.hpp`): the chain of a built path
is the simple path between its ends.

* `locality_eq_unknown_iff`, `shared_eq_nil_iff`: the fields of a path that say
  that its ends have no common ancestor.
* `buildPath_treePath`: the chain, its length and the path back, on every
  topology that is reached by calls and has no cycle.
* `hopCount_deepChain`: the number of hops is kept in 32 bits.
-/

namespace PcieFabric

open Std Machine ParentForest PcieFabric.Topology

namespace Topology

variable {t : Topology} {a b : PciNodeId}

lemma localityOfKind_ne_unknown (k : DeviceClass) : localityOfKind k ≠ LocalityClass.unknown := by
  rw [localityOfKind]
  split_ifs <;> decide

/-- A node has itself above it. -/
lemma commonAncestor_self_ne_none (t : Topology) (a : PciNodeId) : t.commonAncestor a a ≠ none :=
  fun h => commonAncestor_eq_none_iff.mp h a ⟨.refl, .refl⟩

/-- The locality of two nodes is unknown where they have no common ancestor. -/
lemma LinksPresent.locality_eq_unknown_iff (h : t.LinksPresent) :
    t.locality a b = LocalityClass.unknown ↔ t.commonAncestor a b = none := by
  rw [locality]
  by_cases hab : a = b
  · rw [if_pos hab, hab]
    exact iff_of_false (by decide) (commonAncestor_self_ne_none t b)
  rw [if_neg hab]
  cases hx : t.commonAncestor a b with
  | none => exact iff_of_true rfl rfl
  | some x =>
      obtain ⟨n, hn⟩ := exists_of_mem (h.mem_of_commonAncestor hab hx)
      dsimp only
      rw [hn]
      exact iff_of_false (localityOfKind_ne_unknown n.kind) (Option.some_ne_none x)

/-- So is their contention domain empty. -/
lemma shared_eq_nil_iff :
    (t.sharedContentionNode a b).toList = [] ↔ t.commonAncestor a b = none := by
  rw [Option.toList_eq_nil_iff, sharedContentionNode]
  by_cases hab : a = b
  · rw [if_pos hab, hab]
    exact iff_of_false (Option.some_ne_none b) (commonAncestor_self_ne_none t b)
  · rw [if_neg hab]

lemma sharedContentionNode_comm (hac : Acyclic t.parentOf) (a b : PciNodeId) :
    t.sharedContentionNode b a = t.sharedContentionNode a b := by
  rw [sharedContentionNode, sharedContentionNode, commonAncestor_comm hac b a]
  by_cases hab : a = b
  · rw [hab]
  · rw [if_neg hab, if_neg (Ne.symm hab)]

/-- A simple path is the chain, whatever its ends. -/
lemma eq_pathNodes_of_treePath (hac : Acyclic t.parentOf) {l : List PciNodeId}
    (h : TreePath t.parentOf a b l) : l = t.pathNodes a b := by
  obtain ⟨x, up, down, hx, -⟩ := (treePath_iff hac).mp h
  exact h.unique hac (treePath_pathNodes hac ((commonAncestor_eq_some_iff hac).mpr hx))

end Topology

/-- The hops of a chain are its links, modulo `2 ^ 32`. -/
lemma Path.hopCount_toNat (p : Path) :
    p.hopCount.toNat = (p.bridgeChain.length - 1) % 2 ^ 32 := by
  rw [hopCount, UInt32.toNat_ofNat']
  cases p.bridgeChain with
  | nil => rfl
  | cons x l => rfl

/-- **Built paths are the simple paths of the hierarchy**, on every topology that a
sequence of calls reaches and whose parent links are acyclic. The number of hops is
that of the links, modulo `2 ^ 32`. -/
theorem buildPath_treePath (calls : List TopologyCall)
    (hac : Acyclic (run step {} calls).parentOf) (a b : PciNodeId) :
    let t := run step {} calls
    (∀ x, t.commonAncestor a b = some x →
        TreePath t.parentOf a b (t.pathNodes a b) ∧ x ∈ t.pathNodes a b ∧
          ∀ l, TreePath t.parentOf a b l → l = t.pathNodes a b) ∧
      t.pathNodes b a = (t.pathNodes a b).reverse ∧
      ∀ id id' gen gen' epoch epoch' boot boot',
        let p := buildPath t id gen a b epoch boot
        let q := buildPath t id' gen' b a epoch' boot'
        q.bridgeChain = p.bridgeChain.reverse ∧ q.hopCount = p.hopCount ∧
          q.locality = p.locality ∧ q.shared = p.shared ∧
          (∀ l, TreePath t.parentOf a b l → p.hopCount.toNat = (l.length - 1) % 2 ^ 32) ∧
          (p.bridgeChain = [] ↔ p.locality = LocalityClass.unknown) ∧
          (p.locality = LocalityClass.unknown ↔ p.shared = []) := by
  intro t
  have hlinks : t.LinksPresent := linksPresent_run calls
  have hback : t.pathNodes b a = (t.pathNodes a b).reverse := pathNodes_comm hac a b
  refine ⟨fun x hx => ⟨treePath_pathNodes hac hx, mem_pathNodes hx,
    fun l hl => eq_pathNodes_of_treePath hac hl⟩, hback, ?_⟩
  intro id id' gen gen' epoch epoch' boot boot' p q
  refine ⟨hback, ?_, locality_comm hac b a, ?_, fun l hl => ?_, ?_, ?_⟩
  · refine UInt32.toNat_inj.mp ?_
    have hlength : q.bridgeChain.length = p.bridgeChain.length :=
      (congrArg List.length hback).trans List.length_reverse
    rw [q.hopCount_toNat, p.hopCount_toNat, hlength]
  · exact congrArg Option.toList (sharedContentionNode_comm hac a b)
  · rw [p.hopCount_toNat, eq_pathNodes_of_treePath hac hl]
    rfl
  · exact pathNodes_eq_nil_iff.trans hlinks.locality_eq_unknown_iff.symm
  · exact hlinks.locality_eq_unknown_iff.trans shared_eq_nil_iff.symm

/-- Two endpoints under one switch: the path between them goes over the switch, and
back over it. -/
theorem buildPath_treePath_bridged :
    let t := run step {} bridged
    Acyclic t.parentOf ∧ t.pathNodes ⟨100⟩ ⟨101⟩ = [⟨100⟩, ⟨2⟩, ⟨101⟩] ∧
      t.pathNodes ⟨101⟩ ⟨100⟩ = (t.pathNodes ⟨100⟩ ⟨101⟩).reverse :=
  ⟨wired_bridged.acyclic, by decide +kernel,
    (buildPath_treePath bridged wired_bridged.acyclic ⟨100⟩ ⟨101⟩).2.1⟩

/-! ### A chain longer than 32 bits -/

/-- An address of its own for every number below `2 ^ 40`. -/
def bdfAt (i : ℕ) : Bdf where
  domain := UInt16.ofNat (i / 2 ^ 24)
  bus := UInt8.ofNat (i / 2 ^ 16)
  device := UInt8.ofNat (i / 2 ^ 8)
  function := UInt8.ofNat i

lemma bdfAt_inj {i j : ℕ} (hi : i < 2 ^ 40) (hj : j < 2 ^ 40) (h : bdfAt i = bdfAt j) : i = j := by
  rw [bdfAt, bdfAt, Bdf.mk.injEq] at h
  obtain ⟨hdomain, hbus, hdevice, hfunction⟩ := h
  rw [← UInt16.toNat_inj, UInt16.toNat_ofNat', UInt16.toNat_ofNat'] at hdomain
  rw [← UInt8.toNat_inj, UInt8.toNat_ofNat', UInt8.toNat_ofNat'] at hbus hdevice hfunction
  omega

/-- The switch number `i` of a chain, under the one before it. -/
def chained (i : ℕ) : Node where
  id := ⟨UInt64.ofNat (i + 1)⟩
  bdf := bdfAt i
  kind := DeviceClass.switch
  parent := some ⟨UInt64.ofNat i⟩

/-- The first `n` switches. -/
def deepChain (n : ℕ) : List Node := (List.range n).map chained

/-- The calls that add them. -/
def deepCalls (n : ℕ) : List TopologyCall := (deepChain n).map fun m =>
  .addEndpoint m.id m.bdf m.kind m.generation m.provenance (m.parent.getD ⟨0⟩)

lemma run_deepCalls (n : ℕ) :
    run step {} (deepCalls n) = Runtime.rebuildTopology (deepChain n) := by
  rw [run, deepCalls, List.foldl_map]
  rfl

lemma chained_id_inj {i j : ℕ} (hi : i < 2 ^ 40) (hj : j < 2 ^ 40)
    (h : (chained i).id = (chained j).id) : i = j := by
  have hvalue : UInt64.ofNat (i + 1) = UInt64.ofNat (j + 1) :=
    congrArg (fun x : PciNodeId => x.value) h
  rw [← UInt64.toNat_inj, UInt64.toNat_ofNat', UInt64.toNat_ofNat'] at hvalue
  omega

section DeepChain

variable {n : ℕ}

lemma rebuilt_deepChain (hn : n ≤ 2 ^ 40) : Rebuilt (deepChain n) (run step {} (deepCalls n)) := by
  have hnodup : ∀ {β : Type} (f : Node → β),
      (∀ i j, i < 2 ^ 40 → j < 2 ^ 40 → f (chained i) = f (chained j) → i = j) →
        ((deepChain n).map f).Nodup := by
    intro β f hf
    rw [deepChain, List.map_map]
    refine List.Nodup.map_on (fun i hi j hj h => ?_) List.nodup_range
    exact hf i j ((List.mem_range.mp hi).trans_le hn) ((List.mem_range.mp hj).trans_le hn) h
  rw [run_deepCalls]
  exact rebuilt_rebuildTopology (hnodup Node.id fun i j hi hj => chained_id_inj hi hj)
    (hnodup Node.bdf fun i j hi hj => bdfAt_inj hi hj)

/-- Every switch but the first is under the one before it. -/
lemma parentOf_deepChain (hn : n ≤ 2 ^ 40) {i : ℕ} (hi : i < n) :
    (run step {} (deepCalls n)).parentOf (chained i).id =
      if i = 0 then none else some ⟨UInt64.ofNat i⟩ := by
  obtain ⟨m, rfl⟩ := Nat.exists_eq_add_of_lt hi
  have hsplit : deepChain (i + m + 1) =
      deepChain i ++ chained i :: (List.range m).map fun j => chained (i + 1 + j) := by
    rw [show i + m + 1 = i + 1 + m by omega, deepChain, List.range_add, List.range_succ,
      List.append_assoc, List.map_append, List.singleton_append, List.map_cons, List.map_map]
    rfl
  have hparent : (chained i).parent.getD ⟨0⟩ = ⟨UInt64.ofNat i⟩ := rfl
  rw [(rebuilt_deepChain hn).parents _ _ _ hsplit, hparent]
  cases i with
  | zero =>
      rw [if_pos rfl, if_neg]
      exact List.not_mem_nil
  | succ i =>
      rw [if_neg (Nat.succ_ne_zero i), if_pos]
      rw [deepChain, List.map_map]
      exact List.mem_map.mpr ⟨i, List.mem_range.mpr (Nat.lt_succ_self i), rfl⟩

lemma acyclic_deepChain (hn : n ≤ 2 ^ 40) : Acyclic (run step {} (deepCalls n)).parentOf := by
  refine acyclic_of_rank (fun x => x.value.toNat) fun x p hp => ?_
  have hx := ((rebuilt_deepChain hn).mem_iff x).mp (mem_of_parentOf hp)
  rw [deepChain, List.map_map] at hx
  obtain ⟨i, hi, rfl⟩ := List.mem_map.mp hx
  rw [Function.comp_apply, parentOf_deepChain hn (List.mem_range.mp hi)] at hp
  split_ifs at hp
  have hin := List.mem_range.mp hi
  rw [← Option.some.inj hp]
  change (UInt64.ofNat i).toNat < (UInt64.ofNat (i + 1)).toNat
  rw [UInt64.toNat_ofNat', UInt64.toNat_ofNat']
  omega

/-- The way up from a switch passes as many switches as are above it. -/
lemma ascent_deepChain (hn : n ≤ 2 ^ 40) {i : ℕ} (hi : i < n) :
    ∃ l, Ascent (run step {} (deepCalls n)).parentOf (chained i).id (chained 0).id l ∧
      l.length = i := by
  induction i with
  | zero => exact ⟨[], .refl _, rfl⟩
  | succ i ih =>
      obtain ⟨l, hl, hlength⟩ := ih ((Nat.lt_succ_self i).trans hi)
      have hparent := parentOf_deepChain hn hi
      rw [if_neg (Nat.succ_ne_zero i)] at hparent
      exact ⟨_ :: l, .step hparent hl, by rw [List.length_cons, hlength]⟩

/-- The path from the last switch to the first. -/
lemma treePath_deepChain (hn : n + 1 ≤ 2 ^ 40) :
    ∃ l, TreePath (run step {} (deepCalls (n + 1))).parentOf (chained n).id (chained 0).id l ∧
      l.length = n + 1 := by
  obtain ⟨l, hl, hlength⟩ := ascent_deepChain hn (Nat.lt_succ_self n)
  refine ⟨l ++ (chained 0).id :: [].reverse, .of_ascents (acyclic_deepChain hn)
    (LowestCommon.of_reach hl.reach).symm hl (.refl _), ?_⟩
  rw [List.length_append, hlength]
  rfl

end DeepChain

/-- A chain of `2 ^ 32 + 1` switches: the path from the last to the first has `2 ^ 32`
links and no hops. -/
theorem hopCount_deepChain : ¬ ∀ calls a b l,
    Acyclic (run step {} calls).parentOf → TreePath (run step {} calls).parentOf a b l →
      (buildPath (run step {} calls) default default a b default default).hopCount.toNat =
        l.length - 1 := by
  intro h
  have hn : 2 ^ 32 + 1 ≤ 2 ^ 40 := by norm_num
  obtain ⟨l, hl, hlength⟩ := treePath_deepChain hn
  have hhops := h _ _ _ l (acyclic_deepChain hn) hl
  have hchain : l = (run step {} (deepCalls (2 ^ 32 + 1))).pathNodes (chained (2 ^ 32)).id
      (chained 0).id := eq_pathNodes_of_treePath (acyclic_deepChain hn) hl
  rw [Path.hopCount_toNat, buildPath, ← hchain, hlength] at hhops
  norm_num at hhops

end PcieFabric
