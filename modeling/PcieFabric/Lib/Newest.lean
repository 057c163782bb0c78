import Mathlib.Tactic

/-!
A register that keeps the newest of the values offered to it.

* `keep`: a value replaces the present one only if its rank is greater.
* `newest`: what is left after a list of values. `rank_le_keep`: the rank never
  decreases on the way.
* `newest_eq_some_iff`: for values of distinct ranks it is the one of the greatest
  rank, where the value at the start wins a tie; so it does not depend on their
  order (`newest_perm`).
-/

namespace PcieFabric.Newest

variable {α β : Type*} [LinearOrder β] (rank : α → β)

/-- The register after a value has been offered. -/
def keep : Option α → α → Option α
  | none, x => some x
  | some old, x => if rank x ≤ rank old then some old else some x

/-- The register after a list of values. -/
def newest (init : Option α) (l : List α) : Option α := l.foldl (keep rank) init

variable {rank}

@[simp] lemma newest_nil (init : Option α) : newest rank init [] = init := rfl

@[simp] lemma newest_cons (init : Option α) (x : α) (l : List α) :
    newest rank init (x :: l) = newest rank (keep rank init x) l := rfl

/-- What the register holds after one value: the old value unless the new one is
newer, or the new one. -/
lemma keep_eq_some_iff {old : Option α} {x m : α} : keep rank old x = some m ↔
    (old = some m ∧ rank x ≤ rank m) ∨ x = m ∧ ∀ o, old = some o → rank o < rank m := by
  cases old with
  | none => simp [keep]
  | some o =>
      rw [keep]
      split_ifs with h
      · simp only [Option.some.injEq]
        constructor
        · rintro rfl
          exact .inl ⟨rfl, h⟩
        · rintro (⟨rfl, -⟩ | ⟨rfl, hlt⟩)
          · rfl
          · exact absurd (hlt o rfl) (not_lt.mpr h)
      · simp only [Option.some.injEq]
        constructor
        · rintro rfl
          exact .inr ⟨rfl, fun o' ho' => ho' ▸ not_le.mp h⟩
        · rintro (⟨rfl, hle⟩ | ⟨rfl, -⟩)
          · exact absurd hle h
          · rfl

/-- The rank does not decrease with a value. -/
lemma rank_le_keep (o x : α) : ∃ m, keep rank (some o) x = some m ∧ rank o ≤ rank m := by
  rw [keep]
  split_ifs with h
  · exact ⟨o, rfl, le_rfl⟩
  · exact ⟨x, rfl, (not_le.mp h).le⟩

/-- What a list of values leaves is the value at the start or one of the list, and none of
them has a greater rank. -/
lemma newest_spec {l : List α} {init : Option α} {m : α} (h : newest rank init l = some m) :
    (init = some m ∨ m ∈ l) ∧ (∀ o, init = some o → rank o ≤ rank m) ∧
      ∀ x ∈ l, rank x ≤ rank m := by
  induction l generalizing init with
  | nil =>
      rw [newest_nil] at h
      exact ⟨.inl h, fun o ho => (Option.some.inj (ho.symm.trans h) ▸ le_rfl), by simp⟩
  | cons y l ih =>
      obtain ⟨hmem, hkept, hrest⟩ := ih h
      have hy : rank y ≤ rank m ∧ ∀ o, init = some o → rank o ≤ rank m := by
        cases init with
        | none => exact ⟨hkept y rfl, by simp⟩
        | some o =>
            rw [keep] at hkept
            split_ifs at hkept with hle
            · have ho := hkept o rfl
              exact ⟨hle.trans ho, fun o' ho' => Option.some.inj ho' ▸ ho⟩
            · have hym := hkept y rfl
              exact ⟨hym, fun o' ho' => Option.some.inj ho' ▸ ((not_le.mp hle).le.trans hym)⟩
      refine ⟨?_, hy.2, List.forall_mem_cons.mpr ⟨hy.1, hrest⟩⟩
      rcases hmem with hkeep | hl
      · rcases keep_eq_some_iff.mp hkeep with ⟨hinit, -⟩ | ⟨rfl, -⟩
        · exact .inl hinit
        · exact .inr List.mem_cons_self
      · exact .inr (List.mem_cons_of_mem y hl)

/-- Nothing is left exactly where nothing was offered. -/
lemma newest_eq_none_iff {l : List α} {init : Option α} :
    newest rank init l = none ↔ init = none ∧ l = [] := by
  induction l generalizing init with
  | nil => simp
  | cons y l ih =>
      rw [newest_cons, ih]
      cases init with
      | none => simp [keep]
      | some o =>
          rw [keep]
          split_ifs <;> simp

/-- **The newest value**: what a list of values of distinct ranks leaves is the
value at the start, if none is newer, or else the newest of the list. -/
theorem newest_eq_some_iff {l : List α} (hl : l.Pairwise fun x y => rank x ≠ rank y)
    {init : Option α} {m : α} : newest rank init l = some m ↔
      (init = some m ∧ ∀ x ∈ l, rank x ≤ rank m) ∨
        m ∈ l ∧ (∀ o, init = some o → rank o < rank m) ∧ ∀ x ∈ l, rank x ≤ rank m := by
  induction l generalizing init with
  | nil => simp
  | cons y l ih =>
      obtain ⟨hy, hl⟩ := List.pairwise_cons.mp hl
      rw [newest_cons, ih hl, keep_eq_some_iff, List.forall_mem_cons, List.mem_cons]
      constructor
      · rintro (⟨⟨hinit, hle⟩ | ⟨rfl, hlt⟩, hrest⟩ | ⟨hm, hkept, hrest⟩)
        · exact .inl ⟨hinit, hle, hrest⟩
        · exact .inr ⟨.inl rfl, hlt, le_rfl, hrest⟩
        · -- the kept value is below `m`, so both the start and `y` are
          have hym : rank y < rank m := by
            cases init with
            | none => exact hkept y rfl
            | some o =>
                rw [keep] at hkept
                split_ifs at hkept with h
                · exact h.trans_lt (hkept o rfl)
                · exact hkept y rfl
          refine .inr ⟨.inr hm, fun o ho => ?_, hym.le, hrest⟩
          subst ho
          obtain ⟨k, hk, hle⟩ : ∃ k, keep rank (some o) y = some k ∧ rank o ≤ rank k :=
            rank_le_keep o y
          exact hle.trans_lt (hkept k hk)
      · rintro (⟨hinit, hle, hrest⟩ | ⟨rfl | hm, hlt, hle, hrest⟩)
        · exact .inl ⟨.inl ⟨hinit, hle⟩, hrest⟩
        · exact .inl ⟨.inr ⟨rfl, hlt⟩, hrest⟩
        · refine .inr ⟨hm, fun k hk => ?_, hrest⟩
          rcases keep_eq_some_iff.mp hk with ⟨hinit, -⟩ | ⟨rfl, -⟩
          · exact hlt k hinit
          · exact lt_of_le_of_ne hle (hy m hm)

/-- **The order does not matter** for values of distinct ranks. -/
theorem newest_perm {l l' : List α} (hl : l.Pairwise fun x y => rank x ≠ rank y)
    (hperm : l.Perm l') (init : Option α) : newest rank init l = newest rank init l' := by
  have hl' : l'.Pairwise fun x y => rank x ≠ rank y :=
    hperm.pairwise hl fun h => h.symm
  refine Option.ext fun m => ?_
  rw [newest_eq_some_iff hl, newest_eq_some_iff hl']
  simp only [hperm.mem_iff]

end PcieFabric.Newest
