import PcieFabric.Lib.MapWrites

/-!
Comparing two ordered maps, an old and a new one.

* `newEntries`: the entries of the new map whose keys the old one does not have.
* `changedKeys`: the keys of both maps that have another value in the new one.
* `mem_newEntries_iff`, `mem_changedKeys_iff`: both, read off the lookups;
  `newEntries_eq_nil_iff`: when there are no new ones.
* `getElem?_ofList`: the map of a list in which no key comes twice.
-/

namespace PcieFabric.MapDiff

open Std MapWrites

variable {α β : Type*} {cmp : α → α → Ordering} [TransCmp cmp] [LawfulEqCmp cmp]

/-- The entries of the new map whose keys the old one does not have, in key order. -/
def newEntries (old new : ExtTreeMap α β cmp) : List (α × β) :=
  new.toList.filter fun e => !old.contains e.1

/-- The keys of both maps that have another value in the new one, in key order. -/
def changedKeys [DecidableEq β] (old new : ExtTreeMap α β cmp) : List α :=
  (new.toList.filter fun e => match old[e.1]? with
    | some v => v ≠ e.2
    | none => false).map Prod.fst

variable {old new : ExtTreeMap α β cmp} {k : α} {v : β}

lemma mem_newEntries_iff : (k, v) ∈ newEntries old new ↔ new[k]? = some v ∧ old[k]? = none := by
  rw [newEntries, List.mem_filter, ExtTreeMap.mem_toList_iff_getElem?_eq_some, Bool.not_eq_true',
    ExtTreeMap.contains_eq_isSome_getElem?, Option.isSome_eq_false_iff, Option.isNone_iff_eq_none]

lemma newEntries_eq_nil_iff : newEntries old new = [] ↔ ∀ k, k ∈ new → k ∈ old := by
  rw [List.eq_nil_iff_forall_not_mem]
  constructor
  · intro h k hk
    by_contra hnot
    obtain ⟨v, hv⟩ := Option.isSome_iff_exists.mp (ExtTreeMap.mem_iff_isSome_getElem?.mp hk)
    exact h (k, v) (mem_newEntries_iff.mpr ⟨hv, ExtTreeMap.getElem?_eq_none hnot⟩)
  · rintro h ⟨k, v⟩ hmem
    obtain ⟨hnew, hold⟩ := mem_newEntries_iff.mp hmem
    have hk : k ∈ new := ExtTreeMap.mem_iff_isSome_getElem?.mpr (by rw [hnew]; rfl)
    have hmem := ExtTreeMap.mem_iff_isSome_getElem?.mp (h k hk)
    rw [hold] at hmem
    cases hmem

lemma mem_changedKeys_iff [DecidableEq β] : k ∈ changedKeys old new ↔
    ∃ v w, old[k]? = some v ∧ new[k]? = some w ∧ v ≠ w := by
  rw [changedKeys, List.mem_map]
  constructor
  · rintro ⟨⟨k, w⟩, hmem, rfl⟩
    rw [List.mem_filter, ExtTreeMap.mem_toList_iff_getElem?_eq_some] at hmem
    obtain ⟨hnew, hother⟩ := hmem
    dsimp only at hnew hother
    cases hold : old[k]? with
    | none =>
        rw [hold] at hother
        cases hother
    | some v =>
        rw [hold] at hother
        exact ⟨v, w, rfl, hnew, of_decide_eq_true hother⟩
  · rintro ⟨v, w, hold, hnew, hne⟩
    refine ⟨(k, w), List.mem_filter.mpr ⟨?_, ?_⟩, rfl⟩
    · exact ExtTreeMap.mem_toList_iff_getElem?_eq_some.mpr hnew
    · dsimp only
      rw [hold]
      exact decide_eq_true hne

/-- The map of a list that gives no key two values. -/
lemma getElem?_ofList [DecidableEq α] {l : List (α × β)}
    (h : ∀ k v w, (k, v) ∈ l → (k, w) ∈ l → v = w) :
    (l.foldl (fun m e => m.insert e.1 e.2) (∅ : ExtTreeMap α β cmp))[k]? = some v ↔
      (k, v) ∈ l := by
  rw [foldl_insert]
  refine (holdsExactly_insertMany_iff ∅ l).mpr ⟨h, fun k v hget => ?_⟩ k v
  rw [ExtTreeMap.getElem?_empty] at hget
  cases hget

end PcieFabric.MapDiff
