import PcieFabric.Lib.MapWrites
import PcieFabric.Runtime.Runtime

/-!
The ids that `build_paths` gives to the endpoint pairs and to the endpoints
below a root complex.

* `assignments`: the ids with their source and destination, in the order in
  which the two loops store the paths; `paths_buildPaths` is the map after both.
* `mem_assignments_iff`: the two kinds of assignments; `assignment_eq` says that
  no two of them join the same nodes.
* `pairId_injective`, `hostId_injective`: each numbering on its own;
  `distinctIds_iff_of_length_le`: when the two of them never meet.
* `buildsExactly_iff` settles when `build_paths` leaves exactly the paths of the
  current hierarchy.
-/

namespace PcieFabric.Runtime

open MapWrites

/-! ### What the two loops store -/

/-- The ids of the endpoint pairs. -/
def pairAssignments (t : Topology) : List (PathId × PciNodeId × PciNodeId) :=
  (indexPairs t.endpoints.length).map fun ij =>
    (pairId t.endpoints.length ij.1 ij.2, t.endpoints.getD ij.1 default,
      t.endpoints.getD ij.2 default)

/-- The ids of the endpoints that have a root complex. -/
def hostAssignments (t : Topology) : List (PathId × PciNodeId × PciNodeId) :=
  t.endpoints.filterMap fun e => (t.rootComplexOf e).map fun rc => (hostId e, e, rc)

/-- The ids that a build assigns, in the order of its stores. -/
def assignments (t : Topology) : List (PathId × PciNodeId × PciNodeId) :=
  pairAssignments t ++ hostAssignments t

/-- The source and destination of the last path that a build stores under the
id. -/
def assigned (t : Topology) (id : PathId) : Option (PciNodeId × PciNodeId) :=
  lastWrite (assignments t) id

variable (rt : Runtime)

/-- The paths that a build stores, each under its id. -/
def built : List (PathId × Path) :=
  (assignments rt.topology).map fun a => (a.1, rt.currentPath a.1 a.2.1 a.2.2)

/-- The two loops write what they are said to build, one after the other. -/
lemma paths_buildPaths : rt.buildPaths.paths = rt.paths.insertMany rt.built := by
  rw [← foldl_insert, built, assignments, List.map_append, List.foldl_append]
  have hpairs : rt.buildPairPaths rt.topology.endpoints rt.paths =
      ((pairAssignments rt.topology).map fun a => (a.1, rt.currentPath a.1 a.2.1 a.2.2)).foldl
        (fun m e => m.insert e.1 e.2) rt.paths := by
    rw [pairAssignments, List.map_map, List.foldl_map]
    rfl
  have hhosts : ∀ (eps : List PciNodeId) (paths : IdMap .pathId Path),
      rt.buildHostPaths eps paths =
        ((eps.filterMap fun e => (rt.topology.rootComplexOf e).map fun rc => (hostId e, e, rc)).map
          fun a => (a.1, rt.currentPath a.1 a.2.1 a.2.2)).foldl
            (fun m e => m.insert e.1 e.2) paths := by
    intro eps
    induction eps with
    | nil => exact fun _ => rfl
    | cons e eps ih =>
        intro paths
        rw [buildHostPaths, List.foldl_cons, ← buildHostPaths, ih]
        cases hrc : rt.topology.rootComplexOf e with
        | none => rw [List.filterMap_cons_none (by rw [hrc, Option.map_none])]
        | some rc =>
            rw [List.filterMap_cons_some (by rw [hrc, Option.map_some])]
            rfl
  rw [← hpairs]
  exact hhosts _ _

/-- A lookup after a build: the path it stored last under the id, or what was
there. -/
lemma getElem?_buildPaths (id : PathId) : rt.buildPaths.paths[id]? =
    ((assigned rt.topology id).map fun e => rt.currentPath id e.1 e.2).or rt.paths[id]? := by
  rw [paths_buildPaths, getElem?_insertMany, built, assigned]
  rw [lastWrite_map fun (id : PathId) (e : PciNodeId × PciNodeId) => rt.currentPath id e.1 e.2]

/-! ### The two numberings -/

variable {rt} {t : Topology}

/-- The loops run over the pairs of different indices. -/
lemma mem_indexPairs_iff {n i j : Nat} : (i, j) ∈ indexPairs n ↔ i < j ∧ j < n := by
  simp only [indexPairs, List.mem_flatMap, List.mem_range, List.mem_map, List.mem_range'_1,
    Prod.mk.injEq]
  constructor
  · rintro ⟨i, hi, j, hj, rfl, rfl⟩
    omega
  · intro h
    exact ⟨i, by omega, j, by omega, rfl, rfl⟩

/-- An assignment gives a pair of endpoints, in their order, the id of their
indices, or an endpoint and its root complex the id of the endpoint. -/
lemma mem_assignments_iff {id : PathId} {s d : PciNodeId} : (id, s, d) ∈ assignments t ↔
    (∃ i j, i < j ∧ j < t.endpoints.length ∧ pairId t.endpoints.length i j = id ∧
        t.endpoints[i]? = some s ∧ t.endpoints[j]? = some d) ∨
      s ∈ t.endpoints ∧ t.rootComplexOf s = some d ∧ hostId s = id := by
  have hget : ∀ k x, k < t.endpoints.length →
      (t.endpoints.getD k default = x ↔ t.endpoints[k]? = some x) := by
    intro k x hk
    rw [List.getD_eq_getElem?_getD, List.getElem?_eq_getElem hk, Option.getD_some,
      Option.some.injEq]
  simp only [assignments, pairAssignments, hostAssignments, List.mem_append, List.mem_map,
    List.mem_filterMap, Option.map_eq_some_iff, Prod.exists, mem_indexPairs_iff, Prod.mk.injEq]
  refine or_congr ?_ ?_
  · constructor
    · rintro ⟨i, j, ⟨hij, hj⟩, hid, hs, hd⟩
      exact ⟨i, j, hij, hj, hid, (hget i s (by omega)).mp hs, (hget j d hj).mp hd⟩
    · rintro ⟨i, j, hij, hj, hid, hs, hd⟩
      exact ⟨i, j, ⟨hij, hj⟩, hid, (hget i s (by omega)).mpr hs, (hget j d hj).mpr hd⟩
  · constructor
    · rintro ⟨e, he, rc, hrc, rfl, rfl, rfl⟩
      exact ⟨he, hrc, rfl⟩
    · rintro ⟨he, hrc, rfl⟩
      exact ⟨s, he, d, hrc, rfl, rfl, rfl⟩

/-- Up to `2^32` endpoints the ids of the pairs do not wrap, and differ. -/
lemma pairId_injective {n i j i' j' : Nat} (hn : n ≤ 2 ^ 32) (hij : i < j) (hj : j < n)
    (hij' : i' < j') (hj' : j' < n) (h : pairId n i j = pairId n i' j') : i = i' ∧ j = j' := by
  have hbound : ∀ k l, k < l → l < n → k * n + l + 1 < 2 ^ 64 := by
    intro k l hkl hl
    have hk : k * n ≤ (2 ^ 32 - 2) * 2 ^ 32 := Nat.mul_le_mul (by omega) hn
    omega
  have hval : i * n + j + 1 = i' * n + j' + 1 := by
    have hmod := congrArg (fun id : PathId => id.value.toNat) h
    simpa only [pairId, UInt64.toNat_ofNat', Nat.mod_eq_of_lt (hbound i j hij hj),
      Nat.mod_eq_of_lt (hbound i' j' hij' hj')] using hmod
  have hi : i = i' := by
    have hdiv : ∀ k l, l < n → (k * n + l) / n = k := by
      intro k l hl
      rw [Nat.mul_comm, Nat.mul_add_div (by omega), Nat.div_eq_of_lt hl, Nat.add_zero]
    rw [← hdiv i j hj, ← hdiv i' j' hj']
    congr 1
    omega
  subst hi
  exact ⟨rfl, by omega⟩

/-- Different nodes get different host ids, although the sum wraps. -/
lemma hostId_injective {e e' : PciNodeId} (h : hostId e = hostId e') : e = e' := by
  have hval : 0xF0000000 + e.value = 0xF0000000 + e'.value := congrArg StrongId.value h
  exact StrongId.value_inj.mp (UInt64.add_right_inj _ |>.mp hval)

/-- An endpoint stands at one index. -/
lemma index_unique {i j : Nat} {e : PciNodeId} (hi : t.endpoints[i]? = some e)
    (hj : t.endpoints[j]? = some e) : i = j := by
  have hlt : i < t.endpoints.length := (List.getElem?_eq_some_iff.mp hi).1
  exact (List.getElem?_inj hlt Topology.nodup_endpoints).mp (hi.trans hj.symm)

/-- A root complex is not an endpoint, so a path to it joins no endpoint pair. -/
lemma host_not_pair {i j : Nat} {s d s' d' : PciNodeId} (hs : t.endpoints[i]? = some s)
    (hd : t.endpoints[j]? = some d) (hrc : t.rootComplexOf s' = some d') :
    ¬ (d' = d ∨ d' = s) := by
  have hnot : d' ∉ t.endpoints := Topology.not_mem_endpoints_of_rootComplexOf hrc
  rintro (rfl | rfl)
  · exact hnot (List.mem_of_getElem? hd)
  · exact hnot (List.mem_of_getElem? hs)

/-- **No two assignments join the same nodes**, in either direction. -/
theorem assignment_eq {id id' : PathId} {s d s' d' : PciNodeId} (ha : (id, s, d) ∈ assignments t)
    (hb : (id', s', d') ∈ assignments t) (h : s = s' ∧ d = d' ∨ s = d' ∧ d = s') :
    id = id' ∧ s = s' ∧ d = d' := by
  rcases mem_assignments_iff.mp ha with ⟨i, j, hij, -, rfl, hs, hd⟩ | ⟨he, hrc, rfl⟩
  · rcases mem_assignments_iff.mp hb with ⟨i', j', hij', -, rfl, hs', hd'⟩ | ⟨-, hrc', rfl⟩
    · rcases h with ⟨rfl, rfl⟩ | ⟨rfl, rfl⟩
      · obtain rfl : i = i' := index_unique hs hs'
        obtain rfl : j = j' := index_unique hd hd'
        exact ⟨rfl, rfl, rfl⟩
      · -- the loops take the pair in the order of the indices
        have h1 : i = j' := index_unique hs hd'
        have h2 : j = i' := index_unique hd hs'
        omega
    · refine absurd ?_ (host_not_pair hs hd hrc')
      rcases h with ⟨-, hdd⟩ | ⟨hsd, -⟩
      · exact .inl hdd.symm
      · exact .inr hsd.symm
  · rcases mem_assignments_iff.mp hb with ⟨i', j', -, -, rfl, hs', hd'⟩ | ⟨-, hrc', rfl⟩
    · refine absurd ?_ (host_not_pair hs' hd' hrc)
      rcases h with ⟨-, hdd⟩ | ⟨-, hds⟩
      · exact .inl hdd
      · exact .inr hds
    · rcases h with ⟨rfl, rfl⟩ | ⟨rfl, rfl⟩
      · exact ⟨rfl, rfl, rfl⟩
      · exact absurd he (Topology.not_mem_endpoints_of_rootComplexOf hrc')

/-! ### Ids that are given out once -/

/-- The ids of the pairs differ from each other and from the host ids. -/
structure DistinctIds (t : Topology) : Prop where
  pairs : ∀ i j i' j', i < j → j < t.endpoints.length → i' < j' → j' < t.endpoints.length →
    pairId t.endpoints.length i j = pairId t.endpoints.length i' j' → i = i' ∧ j = j'
  hosts : ∀ i j, i < j → j < t.endpoints.length → ∀ e ∈ t.endpoints,
    (t.rootComplexOf e).isSome → pairId t.endpoints.length i j ≠ hostId e

/-- The id is one of those that a build on the hierarchy gives out. -/
def GivesOut (t : Topology) (id : PathId) : Prop :=
  (∃ i j, i < j ∧ j < t.endpoints.length ∧ pairId t.endpoints.length i j = id) ∨
    ∃ e ∈ t.endpoints, (t.rootComplexOf e).isSome ∧ hostId e = id

/-- Two different indices are those of a pair that has an assignment. -/
lemma exists_pair_assignment {i j : Nat} (hij : i < j) (hj : j < t.endpoints.length) :
    ∃ s d, t.endpoints[i]? = some s ∧ t.endpoints[j]? = some d ∧
      (pairId t.endpoints.length i j, s, d) ∈ assignments t := by
  have hi := List.getElem?_eq_getElem (hij.trans hj)
  have hj' := List.getElem?_eq_getElem hj
  exact ⟨_, _, hi, hj', mem_assignments_iff.mpr (.inl ⟨i, j, hij, hj, rfl, hi, hj'⟩)⟩

/-- An endpoint with a root complex has an assignment. -/
lemma exists_host_assignment {e : PciNodeId} (he : e ∈ t.endpoints)
    (hrc : (t.rootComplexOf e).isSome) :
    ∃ rc, t.rootComplexOf e = some rc ∧ (hostId e, e, rc) ∈ assignments t := by
  obtain ⟨rc, hrc⟩ := Option.isSome_iff_exists.mp hrc
  exact ⟨rc, hrc, mem_assignments_iff.mpr (.inr ⟨he, hrc, rfl⟩)⟩

/-- The ids given out are those of the assignments. -/
lemma givesOut_iff {id : PathId} : GivesOut t id ↔ ∃ s d, (id, s, d) ∈ assignments t := by
  constructor
  · rintro (⟨i, j, hij, hj, rfl⟩ | ⟨e, he, hrc, rfl⟩)
    · obtain ⟨s, d, -, -, ha⟩ := exists_pair_assignment hij hj
      exact ⟨s, d, ha⟩
    · obtain ⟨rc, -, ha⟩ := exists_host_assignment he hrc
      exact ⟨e, rc, ha⟩
  · rintro ⟨s, d, ha⟩
    rcases mem_assignments_iff.mp ha with ⟨i, j, hij, hj, hid, -, -⟩ | ⟨he, hrc, hid⟩
    · exact .inl ⟨i, j, hij, hj, hid⟩
    · exact .inr ⟨s, he, Option.isSome_iff_exists.mpr ⟨d, hrc⟩, hid⟩

/-- The ids differ exactly when no id is assigned to two pairs of nodes. -/
lemma distinctIds_iff : DistinctIds t ↔ ∀ id s d s' d', (id, s, d) ∈ assignments t →
    (id, s', d') ∈ assignments t → s = s' ∧ d = d' := by
  constructor
  · intro h id s d s' d' ha hb
    rcases mem_assignments_iff.mp ha with ⟨i, j, hij, hj, hid, hs, hd⟩ | ⟨he, hrc, hid⟩
    · rcases mem_assignments_iff.mp hb with ⟨i', j', hij', hj', hid', hs', hd'⟩ |
        ⟨he', hrc', hid'⟩
      · obtain ⟨rfl, rfl⟩ := h.pairs i j i' j' hij hj hij' hj' (hid.trans hid'.symm)
        exact ⟨Option.some.inj (hs.symm.trans hs'), Option.some.inj (hd.symm.trans hd')⟩
      · exact absurd (hid.trans hid'.symm)
          (h.hosts i j hij hj s' he' (Option.isSome_iff_exists.mpr ⟨d', hrc'⟩))
    · rcases mem_assignments_iff.mp hb with ⟨i', j', hij', hj', hid', -, -⟩ | ⟨-, hrc', hid'⟩
      · exact absurd (hid'.trans hid.symm)
          (h.hosts i' j' hij' hj' s he (Option.isSome_iff_exists.mpr ⟨d, hrc⟩))
      · obtain rfl : s = s' := hostId_injective (hid.trans hid'.symm)
        exact ⟨rfl, Option.some.inj (hrc.symm.trans hrc')⟩
  · intro h
    refine ⟨fun i j i' j' hij hj hij' hj' hid => ?_, fun i j hij hj e he hrc hid => ?_⟩
    · obtain ⟨s, d, hs, hd, ha⟩ := exists_pair_assignment hij hj
      obtain ⟨s', d', hs', hd', hb⟩ := exists_pair_assignment hij' hj'
      obtain ⟨rfl, rfl⟩ := h _ _ _ _ _ ha (hid ▸ hb)
      exact ⟨index_unique hs hs', index_unique hd hd'⟩
    · obtain ⟨s, d, hs, hd, ha⟩ := exists_pair_assignment hij hj
      obtain ⟨rc, hrc, hb⟩ := exists_host_assignment he hrc
      exact host_not_pair hs hd hrc (.inl (h _ _ _ _ _ ha (hid ▸ hb)).2.symm)

/-- **Up to `2^32` endpoints** the ids of the pairs cannot meet, and only a host
id can take one of them. -/
theorem distinctIds_iff_of_length_le (h : t.endpoints.length ≤ 2 ^ 32) : DistinctIds t ↔
    ∀ i j, i < j → j < t.endpoints.length → ∀ e ∈ t.endpoints,
      (t.rootComplexOf e).isSome → pairId t.endpoints.length i j ≠ hostId e :=
  ⟨DistinctIds.hosts, fun hhosts =>
    ⟨fun _ _ _ _ hij hj hij' hj' => pairId_injective h hij hj hij' hj', hhosts⟩⟩

/-! ### Exact builds -/

/-- What a build stores, read off the assignments. -/
lemma mem_built_iff {id : PathId} {p : Path} : (id, p) ∈ rt.built ↔
    ∃ s d, (id, s, d) ∈ assignments rt.topology ∧ p = rt.currentPath id s d := by
  simp only [built, List.mem_map, Prod.exists, Prod.mk.injEq]
  constructor
  · rintro ⟨id, s, d, hmem, rfl, rfl⟩
    exact ⟨s, d, hmem, rfl⟩
  · rintro ⟨s, d, hmem, rfl⟩
    exact ⟨id, s, d, hmem, rfl, rfl⟩

/-- The ids differ, and every id of the map is one that is given out now. -/
structure Separated (rt : Runtime) : Prop where
  distinct : DistinctIds rt.topology
  covered : ∀ id p, rt.paths[id]? = some p → GivesOut rt.topology id

/-- The map holds the stored paths and no others exactly when the ids are
separated. -/
lemma holdsExactly_iff (rt : Runtime) :
    HoldsExactly rt.buildPaths.paths rt.built ↔ rt.Separated := by
  rw [paths_buildPaths, holdsExactly_insertMany_iff]
  constructor
  · rintro ⟨hfunctional, hcovered⟩
    refine ⟨distinctIds_iff.mpr fun id s d s' d' ha hb => ?_, fun id p hget => ?_⟩
    · have hp := hfunctional id _ _ (mem_built_iff.mpr ⟨s, d, ha, rfl⟩)
        (mem_built_iff.mpr ⟨s', d', hb, rfl⟩)
      exact ⟨congrArg Path.source hp, congrArg Path.destination hp⟩
    · obtain ⟨q, hq⟩ := hcovered id p hget
      obtain ⟨s, d, ha, -⟩ := mem_built_iff.mp hq
      exact givesOut_iff.mpr ⟨s, d, ha⟩
  · intro h
    refine ⟨fun id p q hp hq => ?_, fun id p hget => ?_⟩
    · obtain ⟨s, d, ha, rfl⟩ := mem_built_iff.mp hp
      obtain ⟨s', d', hb, rfl⟩ := mem_built_iff.mp hq
      obtain ⟨rfl, rfl⟩ := distinctIds_iff.mp h.distinct _ _ _ _ _ ha hb
      rfl
    · obtain ⟨s, d, ha⟩ := givesOut_iff.mp (h.covered id p hget)
      exact ⟨_, mem_built_iff.mpr ⟨s, d, ha, rfl⟩⟩

/-- The path joins the two nodes, in either direction. -/
def Joins (p : Path) (a b : PciNodeId) : Prop :=
  p.source = a ∧ p.destination = b ∨ p.source = b ∧ p.destination = a

/-- Right after `build_paths` the map holds one path for each pair of distinct
current endpoints and one for each endpoint that has a root complex, and each
of its paths is one that this call stored under that id. -/
structure BuildsExactly (rt : Runtime) : Prop where
  pair : ∀ a ∈ rt.topology.endpoints, ∀ b ∈ rt.topology.endpoints, a ≠ b →
    ∃! id : PathId, ∃ p, rt.buildPaths.paths[id]? = some p ∧ Joins p a b
  host : ∀ e ∈ rt.topology.endpoints, ∀ rc, rt.topology.rootComplexOf e = some rc →
    ∃! id : PathId, ∃ p, rt.buildPaths.paths[id]? = some p ∧ p.source = e ∧ p.destination = rc
  only : ∀ (id : PathId) p, rt.buildPaths.paths[id]? = some p → (id, p) ∈ rt.built

/-- Two stored paths that join the same nodes are one. -/
lemma built_eq_of_joins {id id' : PathId} {p p' : Path} {a b : PciNodeId}
    (hp : (id, p) ∈ rt.built) (hp' : (id', p') ∈ rt.built) (h : Joins p a b)
    (h' : Joins p' a b) : id = id' ∧ p = p' := by
  obtain ⟨s, d, ha, rfl⟩ := mem_built_iff.mp hp
  obtain ⟨s', d', hb, rfl⟩ := mem_built_iff.mp hp'
  change s = a ∧ d = b ∨ s = b ∧ d = a at h
  change s' = a ∧ d' = b ∨ s' = b ∧ d' = a at h'
  have hsame : s = s' ∧ d = d' ∨ s = d' ∧ d = s' := by
    rcases h with ⟨rfl, rfl⟩ | ⟨rfl, rfl⟩ <;> rcases h' with ⟨rfl, rfl⟩ | ⟨rfl, rfl⟩ <;> simp
  obtain ⟨rfl, rfl, rfl⟩ := assignment_eq ha hb hsame
  exact ⟨rfl, rfl⟩

/-- A build stores a path that joins two distinct endpoints. -/
lemma exists_built_pair {a b : PciNodeId} (ha : a ∈ rt.topology.endpoints)
    (hb : b ∈ rt.topology.endpoints) (hne : a ≠ b) :
    ∃ id p, (id, p) ∈ rt.built ∧ Joins p a b := by
  obtain ⟨i, hi⟩ := List.getElem?_of_mem ha
  obtain ⟨j, hj⟩ := List.getElem?_of_mem hb
  have hlt : ∀ {k x}, rt.topology.endpoints[k]? = some x → k < rt.topology.endpoints.length :=
    fun h => (List.getElem?_eq_some_iff.mp h).1
  rcases Nat.lt_trichotomy i j with hij | rfl | hji
  · exact ⟨_, _, mem_built_iff.mpr ⟨a, b,
      mem_assignments_iff.mpr (.inl ⟨i, j, hij, hlt hj, rfl, hi, hj⟩), rfl⟩, .inl ⟨rfl, rfl⟩⟩
  · exact absurd (Option.some.inj (hi.symm.trans hj)) hne
  · exact ⟨_, _, mem_built_iff.mpr ⟨b, a,
      mem_assignments_iff.mpr (.inl ⟨j, i, hji, hlt hi, rfl, hj, hi⟩), rfl⟩, .inr ⟨rfl, rfl⟩⟩

/-- **`build_paths` is exact, exactly.** The map holds the paths of the current
hierarchy and nothing else right after the call, if and only if the ids that it
gives out differ and every id that the map held before is one of them. -/
theorem buildsExactly_iff (rt : Runtime) : rt.BuildsExactly ↔ rt.Separated := by
  rw [← holdsExactly_iff]
  constructor
  · intro h id p
    refine ⟨h.only id p, fun hmem => ?_⟩
    obtain ⟨s, d, ha, rfl⟩ := mem_built_iff.mp hmem
    -- the one path that the map holds for these nodes was stored by the call too
    have hheld : ∃ (id' : PathId) (p' : Path), rt.buildPaths.paths[id']? = some p' ∧
        Joins p' s d := by
      rcases mem_assignments_iff.mp ha with ⟨i, j, hij, -, -, hs, hd⟩ | ⟨he, hrc, -⟩
      · have hne : s ≠ d := by
          rintro rfl
          exact absurd (index_unique hs hd) hij.ne
        obtain ⟨id', ⟨p', hget, hjoins⟩, -⟩ :=
          h.pair s (List.mem_of_getElem? hs) d (List.mem_of_getElem? hd) hne
        exact ⟨id', p', hget, hjoins⟩
      · obtain ⟨id', ⟨p', hget, hjoins⟩, -⟩ := h.host s he d hrc
        exact ⟨id', p', hget, .inl hjoins⟩
    obtain ⟨id', p', hget, hjoins⟩ := hheld
    obtain ⟨rfl, rfl⟩ := built_eq_of_joins hmem (h.only id' p' hget) (.inl ⟨rfl, rfl⟩) hjoins
    exact hget
  · intro h
    have hunique : ∀ {a b id id' p p'}, (id, p) ∈ rt.built → Joins p a b →
        rt.buildPaths.paths[id']? = some p' → Joins p' a b → id' = id :=
      fun hmem hjoins hget hjoins' =>
        (built_eq_of_joins ((h _ _).mp hget) hmem hjoins' hjoins).1
    refine ⟨fun a ha b hb hne => ?_, fun e he rc hrc => ?_, fun id p => (h id p).mp⟩
    · obtain ⟨id, p, hmem, hjoins⟩ := exists_built_pair ha hb hne
      refine ⟨id, ⟨p, (h id p).mpr hmem, hjoins⟩, ?_⟩
      rintro id' ⟨p', hget, hjoins'⟩
      exact hunique hmem hjoins hget hjoins'
    · have hmem : (hostId e, rt.currentPath (hostId e) e rc) ∈ rt.built :=
        mem_built_iff.mpr ⟨e, rc, mem_assignments_iff.mpr (.inr ⟨he, hrc, rfl⟩), rfl⟩
      refine ⟨hostId e, ⟨_, (h _ _).mpr hmem, rfl, rfl⟩, ?_⟩
      rintro id' ⟨p', hget, hends⟩
      exact hunique hmem (.inl ⟨rfl, rfl⟩) hget (.inl hends)

/-- A network card on its own bus. -/
def addNic (bus : UInt8) : RuntimeCall :=
  .addEndpoint ⟨bus.toUInt64⟩ { bus := bus } DeviceClass.nic ⟨1⟩ Provenance.reported ⟨0⟩

/-- Three cards have the ids 2, 3 and 6. With a fourth one the cards 2 and 3 get
the id 7, and the path 6 between them stays. -/
theorem stale_path_survives :
    ¬ (Machine.run step {} [addNic 1, addNic 2, addNic 3, .buildPaths, addNic 4]).BuildsExactly := by
  intro h
  generalize hrt : Machine.run step {} [addNic 1, addNic 2, addNic 3, .buildPaths, addNic 4] = rt
    at h
  have hends : ∀ id : PathId, id = ⟨6⟩ ∨ id = ⟨7⟩ →
      (rt.buildPaths.paths[id]?).map (fun p => (p.source, p.destination)) = some (⟨2⟩, ⟨3⟩) := by
    subst hrt
    rintro id (rfl | rfl) <;> decide +kernel
  have hcards : (⟨2⟩ : PciNodeId) ∈ rt.topology.endpoints ∧
      (⟨3⟩ : PciNodeId) ∈ rt.topology.endpoints := by
    subst hrt
    decide +kernel
  have hheld : ∀ id : PathId, id = ⟨6⟩ ∨ id = ⟨7⟩ →
      ∃ p, rt.buildPaths.paths[id]? = some p ∧ Joins p ⟨2⟩ ⟨3⟩ := by
    intro id hid
    obtain ⟨p, hget, hp⟩ := Option.map_eq_some_iff.mp (hends id hid)
    exact ⟨p, hget, .inl (Prod.mk.inj hp)⟩
  have hsame : (⟨6⟩ : PathId) = ⟨7⟩ :=
    (h.pair ⟨2⟩ hcards.1 ⟨3⟩ hcards.2 (by decide)).unique (hheld ⟨6⟩ (.inl rfl))
      (hheld ⟨7⟩ (.inr rfl))
  exact absurd hsame (by decide)

end PcieFabric.Runtime
