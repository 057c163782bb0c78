import Mathlib.Tactic

/-!
Sums over the entries of an ordered map.

`mapSum m f` adds `f k v` over the entries of `m`. It is computed along the
iteration order of the map and does not depend on it: `toList_insert_perm`
says what an insertion does to the entries, and `mapSum_insert_new`,
`mapSum_insert_old` what it does to the sum.
-/

namespace PcieFabric.MapSum

open Std

variable {α β M : Type*} {cmp : α → α → Ordering} [TransCmp cmp] [LawfulEqCmp cmp]

/-- The entries of a map are pairwise distinct. -/
lemma nodup_toList (m : ExtTreeMap α β cmp) : m.toList.Nodup := by
  refine List.Pairwise.imp (fun h heq => ?_) m.distinct_keys_toList
  exact h (by rw [heq]; exact ReflCmp.compare_self)

/-- The keys of a map are pairwise distinct. -/
lemma nodup_keys (m : ExtTreeMap α β cmp) : (m.toList.map Prod.fst).Nodup := by
  rw [List.nodup_iff_pairwise_ne, List.pairwise_map]
  exact m.distinct_keys_toList.imp fun hne heq => hne (LawfulEqCmp.compare_eq_iff_eq.mpr heq)

/-- Where each value tells its key, the values tell distinct keys. -/
lemma nodup_values (m : ExtTreeMap α β cmp) {key : β → α}
    (h : ∀ k v, m[k]? = some v → key v = k) : ((m.toList.map Prod.snd).map key).Nodup := by
  have hkeys : (m.toList.map Prod.snd).map key = m.toList.map Prod.fst := by
    rw [List.map_map]
    exact List.map_congr_left fun e he =>
      h e.1 e.2 (ExtTreeMap.mem_toList_iff_getElem?_eq_some.mp he)
  rw [hkeys]
  exact nodup_keys m

/-- The entries after an insertion: the new entry, and the old ones of other keys. -/
lemma toList_insert_perm [DecidableEq α] (m : ExtTreeMap α β cmp) (k : α) (v : β) :
    (m.insert k v).toList.Perm ((k, v) :: m.toList.filter fun p => p.1 ≠ k) := by
  have hmem : ∀ p : α × β, p ∈ (m.insert k v).toList ↔
      p ∈ (k, v) :: m.toList.filter fun p => p.1 ≠ k := by
    rintro ⟨k', v'⟩
    simp only [ExtTreeMap.mem_toList_iff_getElem?_eq_some, ExtTreeMap.getElem?_insert,
      LawfulEqCmp.compare_eq_iff_eq, List.mem_cons, List.mem_filter, Prod.mk.injEq]
    by_cases h : k = k'
    · simp [h, eq_comm]
    · simp [h, Ne.symm h]
  refine (List.perm_ext_iff_of_nodup (nodup_toList _) ?_).mpr hmem
  refine List.nodup_cons.mpr ⟨?_, (nodup_toList m).filter _⟩
  simp

variable [AddCommMonoid M]

/-- The sum of `f` over the entries of a map. -/
def mapSum (m : ExtTreeMap α β cmp) (f : α → β → M) : M :=
  (m.toList.map fun p => f p.1 p.2).sum

omit [LawfulEqCmp cmp] in
@[simp] lemma mapSum_empty (f : α → β → M) : mapSum (∅ : ExtTreeMap α β cmp) f = 0 := by
  rw [mapSum, ExtTreeMap.toList_eq_nil_iff.mpr rfl, List.map_nil, List.sum_nil]

/-- An insertion at a fresh key adds its term. -/
lemma mapSum_insert_new [DecidableEq α] {m : ExtTreeMap α β cmp} {k : α} (h : m[k]? = none)
    (v : β) (f : α → β → M) : mapSum (m.insert k v) f = f k v + mapSum m f := by
  have hfilter : m.toList.filter (fun p => p.1 ≠ k) = m.toList := by
    refine List.filter_eq_self.mpr fun p hp => ?_
    have hp' := ExtTreeMap.mem_toList_iff_getElem?_eq_some.mp hp
    have : p.1 ≠ k := by rintro rfl; rw [h] at hp'; cases hp'
    simpa using this
  have hperm := toList_insert_perm m k v
  rw [hfilter] at hperm
  rw [mapSum, (hperm.map _).sum_eq, List.map_cons, List.sum_cons, mapSum]

/-- An insertion at a key that is present replaces its term. -/
lemma mapSum_insert_old [DecidableEq α] {m : ExtTreeMap α β cmp} {k : α} {v₀ : β}
    (h : m[k]? = some v₀) (v : β) (f : α → β → M) :
    mapSum (m.insert k v) f + f k v₀ = f k v + mapSum m f := by
  have hself : m = m.insert k v₀ := by
    refine ExtTreeMap.ext_getElem? fun k' => ?_
    rw [ExtTreeMap.getElem?_insert]
    split
    · next heq => rw [← LawfulEqCmp.eq_of_compare heq, h]
    · rfl
  have hsum : ∀ w : β, mapSum (m.insert k w) f =
      f k w + ((m.toList.filter fun p => p.1 ≠ k).map fun p => f p.1 p.2).sum := by
    intro w
    rw [mapSum, ((toList_insert_perm m k w).map _).sum_eq, List.map_cons, List.sum_cons]
  have hold : mapSum m f =
      f k v₀ + ((m.toList.filter fun p => p.1 ≠ k).map fun p => f p.1 p.2).sum := by
    conv_lhs => rw [hself]
    exact hsum v₀
  rw [hsum v, hold]
  abel

/-- A term is at most the sum. -/
lemma le_mapSum {m : ExtTreeMap α β cmp} {k : α} {v : β} (h : m[k]? = some v) (f : α → β → Nat) :
    f k v ≤ mapSum m f :=
  List.single_le_sum (fun _ _ => Nat.zero_le _) _
    (List.mem_map.mpr ⟨(k, v), ExtTreeMap.mem_toList_iff_getElem?_eq_some.mpr h, rfl⟩)

/-- Terms that agree on the entries add up to the same sum. -/
lemma mapSum_congr {m : ExtTreeMap α β cmp} {f g : α → β → M}
    (h : ∀ k v, m[k]? = some v → f k v = g k v) : mapSum m f = mapSum m g := by
  unfold mapSum
  congr 1
  refine List.map_congr_left fun p hp => ?_
  exact h p.1 p.2 (ExtTreeMap.mem_toList_iff_getElem?_eq_some.mp hp)

end PcieFabric.MapSum
