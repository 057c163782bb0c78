import Mathlib.Tactic

/-!
The first and the last occurrence of an element in a list.

* `List.idxOf?` is the index of the first occurrence, `lastIdxOf?` that of the
  last one. Of the two, an element that is appended again changes the last only
  (`idxOf?_append_singleton`, `lastIdxOf?_append_singleton`).
* `lastIdxOf?_first_iff`: the last occurrence of an element is the first one of
  something exactly if the element occurs once.
-/

namespace PcieFabric.Occurrence

variable {α : Type*} [DecidableEq α] {l : List α} {a b x : α} {i : ℕ}

/-- The index of the last occurrence. -/
def lastIdxOf? (l : List α) (a : α) : Option ℕ :=
  (l.reverse.idxOf? a).map fun i => l.length - 1 - i

lemma idxOf?_append_singleton : (l ++ [x]).idxOf? a =
    (l.idxOf? a).or (if x = a then some l.length else none) := by
  have happend : (l ++ [x]).idxOf? a = (l.idxOf? a).or (([x].idxOf? a).map (· + l.length)) :=
    List.findIdx?_append
  rw [happend, List.idxOf?_singleton]
  by_cases h : x = a <;> simp [h]

lemma lastIdxOf?_append_singleton : lastIdxOf? (l ++ [x]) a =
    if x = a then some l.length else lastIdxOf? l a := by
  rw [lastIdxOf?, List.reverse_append, List.reverse_singleton, List.singleton_append,
    List.idxOf?_cons, List.length_append, List.length_singleton]
  by_cases h : x = a
  · simp [h]
  · rw [if_neg (by simpa using h), if_neg h, lastIdxOf?, Option.map_map]
    congr 1
    funext i
    rw [Function.comp_apply]
    omega

/-- The element stands at its first occurrence. -/
lemma getElem?_of_idxOf? (h : l.idxOf? a = some i) : l[i]? = some a := by
  obtain ⟨hlt, heq, -⟩ := List.idxOf?_eq_some_iff.mp h
  rw [List.getElem?_eq_getElem hlt, heq]

/-- An index is the first occurrence of one element only. -/
lemma idxOf?_inj (ha : l.idxOf? a = some i) (hb : l.idxOf? b = some i) : a = b :=
  Option.some.inj ((getElem?_of_idxOf? ha).symm.trans (getElem?_of_idxOf? hb))

lemma lt_length_of_idxOf? (h : l.idxOf? a = some i) : i < l.length :=
  (List.idxOf?_eq_some_iff.mp h).1

/-- The element stands at its last occurrence. -/
lemma getElem?_of_lastIdxOf? (h : lastIdxOf? l a = some i) : l[i]? = some a := by
  induction l using List.reverseRecOn with
  | nil => cases h
  | append_singleton l x ih =>
      rw [lastIdxOf?_append_singleton] at h
      split_ifs at h with hx
      · obtain rfl := Option.some.inj h
        rw [List.getElem?_concat_length, hx]
      · have hold := ih h
        rwa [List.getElem?_append_left (List.getElem?_eq_some_iff.mp hold).1]

/-- The first occurrence of an element is the last one if it occurs once. -/
lemma idxOf?_eq_lastIdxOf?_iff (h : a ∈ l) : l.idxOf? a = lastIdxOf? l a ↔ l.count a = 1 := by
  induction l using List.reverseRecOn with
  | nil => cases h
  | append_singleton l x ih =>
      rw [idxOf?_append_singleton, lastIdxOf?_append_singleton, List.count_append,
        List.count_singleton]
      by_cases hx : x = a
      · rw [if_pos hx, if_pos hx, if_pos (by simpa using hx)]
        cases hfirst : l.idxOf? a with
        | none =>
            have hcount : l.count a = 0 :=
              List.count_eq_zero.mpr (List.idxOf?_eq_none_iff.mp hfirst)
            simp [hcount]
        | some i =>
            have hmem : a ∈ l := List.mem_of_getElem? (getElem?_of_idxOf? hfirst)
            have hpos : 0 < l.count a := List.count_pos_iff.mpr hmem
            have hlt := lt_length_of_idxOf? hfirst
            rw [Option.some_or, Option.some.injEq]
            omega
      · have hmem : a ∈ l := by
          rcases List.mem_append.mp h with hl | hlast
          · exact hl
          · exact absurd (List.mem_singleton.mp hlast).symm hx
        rw [if_neg hx, if_neg hx, if_neg (by simpa using hx), Option.or_none, Nat.add_zero, ih hmem]

/-- **The last occurrence** of an element is the first one of something exactly if
the element occurs once. -/
theorem lastIdxOf?_first_iff (h : lastIdxOf? l a = some i) :
    (∃ b, l.idxOf? b = some i) ↔ l.count a = 1 := by
  have hat := getElem?_of_lastIdxOf? h
  have hmem : a ∈ l := List.mem_of_getElem? hat
  rw [← idxOf?_eq_lastIdxOf?_iff hmem, h]
  constructor
  · rintro ⟨b, hb⟩
    obtain rfl : b = a := Option.some.inj ((getElem?_of_idxOf? hb).symm.trans hat)
    exact hb
  · exact fun hfirst => ⟨a, hfirst⟩

end PcieFabric.Occurrence
