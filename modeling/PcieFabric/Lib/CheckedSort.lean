import Mathlib.Data.List.Sort

/-!
Sorting with a comparator that can fail, such as one that looks its arguments up
in a map.

* `checkedSort`: the insertion sort, which fails where a comparison does.
* `checkedSort_eq_some`: a comparator that is defined on the elements of the list
  sorts it as its total version does, since the sort compares nothing else.
-/

namespace PcieFabric

variable {α : Type}

/-- Insertion in front of the first element that is not before. -/
def checkedInsert (le : α → α → Option Bool) (a : α) : List α → Option (List α)
  | [] => some [a]
  | b :: l => do
      if ← le a b then return a :: b :: l
      let rest ← checkedInsert le a l
      return b :: rest

/-- Insertion sort. -/
def checkedSort (le : α → α → Option Bool) : List α → Option (List α)
  | [] => some []
  | a :: l => do
      let rest ← checkedSort le l
      checkedInsert le a rest

variable {le : α → α → Option Bool} {r : α → α → Bool}

lemma checkedInsert_eq_some {a : α} {l : List α} (h : ∀ b ∈ l, le a b = some (r a b)) :
    checkedInsert le a l = some (l.orderedInsert (fun x y => r x y = true) a) := by
  induction l with
  | nil => rfl
  | cons b l ih =>
      obtain ⟨hb, hl⟩ := List.forall_mem_cons.mp h
      rw [checkedInsert, hb, ih hl, List.orderedInsert_cons]
      cases r a b <;> rfl

/-- **A comparator that is defined on the elements** sorts them as its total version
does. -/
theorem checkedSort_eq_some {l : List α} (h : ∀ a ∈ l, ∀ b ∈ l, le a b = some (r a b)) :
    checkedSort le l = some (l.insertionSort fun x y => r x y = true) := by
  induction l with
  | nil => rfl
  | cons a l ih =>
      have hl : ∀ x ∈ l, ∀ y ∈ l, le x y = some (r x y) :=
        fun x hx y hy => h x (List.mem_cons_of_mem a hx) y (List.mem_cons_of_mem a hy)
      rw [checkedSort, ih hl, List.insertionSort_cons]
      refine checkedInsert_eq_some fun b hb => h a List.mem_cons_self b ?_
      exact List.mem_cons_of_mem a ((List.perm_insertionSort _ l).mem_iff.mp hb)

end PcieFabric
