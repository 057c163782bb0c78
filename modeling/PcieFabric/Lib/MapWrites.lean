import Mathlib.Tactic

/-!
Writing a list of entries into an ordered map, one after the other.

* `lastWrite l k`: the value of the last entry of `l` with key `k`.
* `foldl_insert`, `getElem?_insertMany`: a loop that writes the entries is the
  insertion of the list, and its lookups are read off `lastWrite`;
  `insertMany_eq_self` is the case of entries that are there already.
* `mem_of_lastWrite`, `lastWrite_eq_none_iff`, `lastWrite_of_mem`,
  `lastWrite_map`: where that value comes from, and how it follows the list.
* `holdsExactly_insertMany_iff`: when the map holds the entries written and no
  others.
-/

namespace PcieFabric.MapWrites

open Std

variable {α β γ : Type*} {cmp : α → α → Ordering} [TransCmp cmp]

/-- A loop that writes entries is the insertion of their list. -/
lemma foldl_insert (m : ExtTreeMap α β cmp) (l : List (α × β)) :
    l.foldl (fun m e => m.insert e.1 e.2) m = m.insertMany l := by
  induction l generalizing m with
  | nil => exact ExtTreeMap.insertMany_nil.symm
  | cons e l ih => rw [List.foldl_cons, ih, ← ExtTreeMap.insertMany_cons]

variable [DecidableEq α]

/-- The value of the last entry with the key. -/
def lastWrite (l : List (α × β)) (k : α) : Option β :=
  l.reverse.findSome? fun e => if e.1 = k then some e.2 else none

/-- The last value written at a key is an entry of the list. -/
lemma mem_of_lastWrite {l : List (α × β)} {k : α} {v : β} (h : lastWrite l k = some v) :
    (k, v) ∈ l := by
  obtain ⟨⟨k', v'⟩, hmem, hsome⟩ := List.exists_of_findSome?_eq_some h
  split_ifs at hsome with hkey
  cases hkey
  cases hsome
  exact List.mem_reverse.mp hmem

/-- Nothing is written at a key that no entry has. -/
lemma lastWrite_eq_none_iff {l : List (α × β)} {k : α} :
    lastWrite l k = none ↔ ∀ v, (k, v) ∉ l := by
  rw [lastWrite, List.findSome?_eq_none_iff]
  constructor
  · intro h v hmem
    have hnone := h (k, v) (List.mem_reverse.mpr hmem)
    rw [if_pos rfl] at hnone
    cases hnone
  · rintro h ⟨k', v⟩ hmem
    refine if_neg fun hkey : k' = k => ?_
    subst hkey
    exact h v (List.mem_reverse.mp hmem)

/-- An entry whose key has no other value is the last one written at it. -/
lemma lastWrite_of_mem {l : List (α × β)} {k : α} {v : β} (hmem : (k, v) ∈ l)
    (honly : ∀ w, (k, w) ∈ l → w = v) : lastWrite l k = some v := by
  cases hlast : lastWrite l k with
  | none => exact absurd hmem (lastWrite_eq_none_iff.mp hlast v)
  | some w => rw [honly w (mem_of_lastWrite hlast)]

/-- Entries whose values are computed from their key and another value. -/
lemma lastWrite_map (f : α → β → γ) (l : List (α × β)) (k : α) :
    lastWrite (l.map fun e => (e.1, f e.1 e.2)) k = (lastWrite l k).map (f k) := by
  rw [lastWrite, lastWrite, ← List.map_reverse, List.findSome?_map, List.map_findSome?]
  congr 1
  funext e
  by_cases h : e.1 = k
  · simp only [Function.comp_apply, h, if_true, Option.map_some]
  · simp only [Function.comp_apply, if_neg h, Option.map_none]

variable [LawfulEqCmp cmp]

/-- A lookup after the writes: the last entry with the key, or what was there. -/
lemma getElem?_insertMany (m : ExtTreeMap α β cmp) (l : List (α × β)) (k : α) :
    (m.insertMany l)[k]? = (lastWrite l k).or m[k]? := by
  rw [ExtTreeMap.getElem?_insertMany_list, List.findSomeRev?_eq_findSome?_reverse, lastWrite]
  simp only [LawfulEqCmp.compare_eq_iff_eq]

/-- The entries of a map are its own writes. -/
lemma lastWrite_toList (m : ExtTreeMap α β cmp) (k : α) : lastWrite m.toList k = m[k]? := by
  cases hget : m[k]? with
  | none =>
      refine lastWrite_eq_none_iff.mpr fun v hmem => ?_
      rw [ExtTreeMap.mem_toList_iff_getElem?_eq_some.mp hmem] at hget
      cases hget
  | some v =>
      refine lastWrite_of_mem (ExtTreeMap.mem_toList_iff_getElem?_eq_some.mpr hget) fun w hw => ?_
      rw [ExtTreeMap.mem_toList_iff_getElem?_eq_some.mp hw] at hget
      exact Option.some.inj hget

/-- Entries that are there already may be written again. -/
lemma insertMany_eq_self {m : ExtTreeMap α β cmp} {l : List (α × β)}
    (h : ∀ k v, (k, v) ∈ l → m[k]? = some v) : m.insertMany l = m := by
  refine ExtTreeMap.ext_getElem? fun k => ?_
  rw [getElem?_insertMany]
  cases hlast : lastWrite l k with
  | none => exact Option.none_or
  | some v => rw [Option.some_or, h k v (mem_of_lastWrite hlast)]

/-- The map holds the entries of the list and no others. -/
def HoldsExactly (m : ExtTreeMap α β cmp) (l : List (α × β)) : Prop :=
  ∀ k v, m[k]? = some v ↔ (k, v) ∈ l

/-- **The map after the writes holds exactly the entries written**, if and only
if they give no key two values, and every key that was there a value. -/
theorem holdsExactly_insertMany_iff (m : ExtTreeMap α β cmp) (l : List (α × β)) :
    HoldsExactly (m.insertMany l) l ↔
      (∀ k v w, (k, v) ∈ l → (k, w) ∈ l → v = w) ∧
        ∀ k v, m[k]? = some v → ∃ w, (k, w) ∈ l := by
  constructor
  · intro h
    refine ⟨fun k v w hv hw => ?_, fun k v hget => ?_⟩
    · exact Option.some.inj (((h k v).mpr hv).symm.trans ((h k w).mpr hw))
    · cases hlast : lastWrite l k with
      | some w => exact ⟨w, mem_of_lastWrite hlast⟩
      | none =>
          have hold : (m.insertMany l)[k]? = some v := by
            rw [getElem?_insertMany, hlast, Option.none_or, hget]
          exact ⟨v, (h k v).mp hold⟩
  · rintro ⟨hfunctional, hcovered⟩ k v
    rw [getElem?_insertMany]
    constructor
    · intro hget
      rcases Option.or_eq_some_iff.mp hget with hlast | ⟨hnone, hold⟩
      · exact mem_of_lastWrite hlast
      · obtain ⟨w, hw⟩ := hcovered k v hold
        exact absurd hw (lastWrite_eq_none_iff.mp hnone w)
    · intro hmem
      rw [lastWrite_of_mem hmem fun w hw => hfunctional k w v hw hmem, Option.some_or]

end PcieFabric.MapWrites
