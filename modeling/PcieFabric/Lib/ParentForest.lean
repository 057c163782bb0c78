import Mathlib.Tactic
import Mathlib.Logic.Relation

/-!
Parent functions on an arbitrary type: every element has at most one parent.

* `Below parent a c`: following parent links from `a` reaches `c` after at
  least one step.
* `Acyclic`: no element lies below itself.
* `acyclic_link_iff`: giving `c` the parent `p` in an acyclic structure keeps it
  acyclic exactly when `c ≠ p` and `p` does not lie below `c`. The old parent of
  `c`, if any, is overwritten.
* `climb`: the walk up the parent links with a bound on its length.
  `mem_climb_iff`: a bound above the number of elements that have a parent makes
  it visit exactly what the links reach, cycles or not.
* `Mirrors`: lists of children that record the same links as the parents.
  `mirrors_link`, `not_mirrors_relink`: a new link keeps them in step for an
  element without a parent, and never for one that leaves another parent.
-/

namespace PcieFabric.ParentForest

open Relation

variable {α : Type*}

/-- One parent link. -/
def Up (parent : α → Option α) (a b : α) : Prop := parent a = some b

/-- Following parent links from the first reaches the second, in at least one
step. -/
def Below (parent : α → Option α) : α → α → Prop := TransGen (Up parent)

/-- Following parent links from an element never returns to it. -/
def Acyclic (parent : α → Option α) : Prop := ∀ a, ¬ Below parent a a

/-- Without links there is no cycle. -/
lemma acyclic_of_none {parent : α → Option α} (h : ∀ a, parent a = none) : Acyclic parent := by
  intro a ha
  obtain ⟨b, hb, -⟩ := TransGen.head'_iff.mp ha
  rw [Up, h a] at hb
  cases hb

/-- Parents of a smaller rank form no cycle. -/
lemma acyclic_of_rank {parent : α → Option α} (f : α → ℕ)
    (h : ∀ a b, parent a = some b → f b < f a) : Acyclic parent := by
  have hbelow : ∀ {a b}, Below parent a b → f b < f a := by
    intro a b hab
    induction hab with
    | single hb => exact h _ _ hb
    | tail _ hc ih => exact (h _ _ hc).trans ih
  exact fun a ha => lt_irrefl (f a) (hbelow ha)

/-- Two elements that are each other's parents form a cycle. -/
lemma not_acyclic_of_mutual {parent : α → Option α} (a b : α) (hab : parent a = some b)
    (hba : parent b = some a) : ¬ Acyclic parent :=
  fun h => h a (.tail (.single hab) hba)

/-- What something lies below is a parent. -/
lemma exists_up_of_below {parent : α → Option α} {a c : α} (h : Below parent a c) :
    ∃ b, parent b = some c := by
  obtain ⟨b, -, hb⟩ := TransGen.tail'_iff.mp h
  exact ⟨b, hb⟩

section Link

variable [DecidableEq α] (parent : α → Option α) (c p : α)

/-- A path through the new structure either is an old path or runs to `c` and
on from `p`. -/
lemma below_link_cases {a b : α} (h : Below (Function.update parent c (some p)) a b) :
    Below parent a b ∨ ReflTransGen (Up parent) a c ∧ ReflTransGen (Up parent) p b := by
  induction h with
  | @single b hab =>
      by_cases ha : a = c
      · subst ha
        rw [Up, Function.update_self] at hab
        exact .inr ⟨.refl, by rw [Option.some.inj hab]⟩
      · rw [Up, Function.update_of_ne ha] at hab
        exact .inl (.single hab)
  | @tail b d _ hbd ih =>
      by_cases hb : b = c
      · subst hb
        rw [Up, Function.update_self] at hbd
        obtain rfl := Option.some.inj hbd
        rcases ih with hold | ⟨hac, -⟩
        · exact .inr ⟨hold.to_reflTransGen, .refl⟩
        · exact .inr ⟨hac, .refl⟩
      · rw [Up, Function.update_of_ne hb] at hbd
        rcases ih with hold | ⟨hac, hpb⟩
        · exact .inl (hold.tail hbd)
        · exact .inr ⟨hac, hpb.tail hbd⟩

variable {parent c p}

/-- In an acyclic structure a path into `c` never leaves `c`, so it survives. -/
lemma below_link_of_below (hac : Acyclic parent) {a : α} (h : Below parent a c) :
    Below (Function.update parent c (some p)) a c := by
  have hstep : ∀ {x y}, Up parent x y → x ≠ c →
      Up (Function.update parent c (some p)) x y := by
    intro x y hxy hx
    rw [Up, Function.update_of_ne hx]
    exact hxy
  refine TransGen.head_induction_on h (fun {x} hxc => ?_) (fun {x y} hxy hyc ih => ?_)
  · refine .single (hstep hxc ?_)
    rintro rfl
    exact hac x (.single hxc)
  · refine .head (hstep hxy ?_) ih
    rintro rfl
    exact hac x (.head hxy hyc)

/-- **Linking.** Giving `c` the parent `p` keeps an acyclic structure acyclic
exactly when `c` is not `p` and `p` does not lie below `c`. -/
theorem acyclic_link_iff (hac : Acyclic parent) :
    Acyclic (Function.update parent c (some p)) ↔ c ≠ p ∧ ¬ Below parent p c := by
  have hlink : Up (Function.update parent c (some p)) c p := Function.update_self ..
  constructor
  · intro hnew
    refine ⟨?_, fun hpc => ?_⟩
    · rintro rfl
      exact hnew c (.single hlink)
    · exact hnew c (.head hlink (below_link_of_below hac hpc))
  · rintro ⟨hne, hnot⟩ a ha
    rcases below_link_cases parent c p ha with hold | ⟨hac', hpa⟩
    · exact hac a hold
    · rcases reflTransGen_iff_eq_or_transGen.mp (hpa.trans hac') with heq | hbelow
      · exact hne heq
      · exact hnot hbelow

/-- Whether `c` is reached does not depend on the link of `c`. -/
lemma reach_link_iff {a : α} : ReflTransGen (Up (Function.update parent c (some p))) a c ↔
    ReflTransGen (Up parent) a c := by
  constructor
  · intro h
    induction h using ReflTransGen.head_induction_on with
    | refl => exact .refl
    | @head x y hxy _ ih =>
        by_cases hx : x = c
        · rw [hx]
        · rw [Up, Function.update_of_ne hx] at hxy
          exact .head hxy ih
  · intro h
    induction h using ReflTransGen.head_induction_on with
    | refl => exact .refl
    | @head x y hxy _ ih =>
        by_cases hx : x = c
        · rw [hx]
        · refine .head ?_ ih
          rw [Up, Function.update_of_ne hx]
          exact hxy

end Link

/-! ### The bounded walk -/

section Climb

/-- The first `n` elements that following parent links from `a` visits. -/
def climb (parent : α → Option α) : ℕ → α → List α
  | 0, _ => []
  | n + 1, a => a :: match parent a with
      | none => []
      | some b => climb parent n b

variable {parent : α → Option α}

/-- The walk visits only what the links reach. -/
lemma reach_of_mem_climb {n : ℕ} {a c : α} (h : c ∈ climb parent n a) :
    ReflTransGen (Up parent) a c := by
  induction n generalizing a with
  | zero => cases h
  | succ n ih =>
      rw [climb, List.mem_cons] at h
      rcases h with rfl | h
      · exact .refl
      · cases hup : parent a with
        | none => rw [hup] at h; cases h
        | some b =>
            rw [hup] at h
            exact .head hup (ih h)

variable [DecidableEq α]

/-- A path that leaves `a` need not return to it. -/
lemma reach_leaving {a c : α} (h : ReflTransGen (Up parent) a c) :
    a = c ∨ ∃ b, parent a = some b ∧ ReflTransGen (Up (Function.update parent a none)) b c := by
  -- from any element, a path without the link of `a`, or one that starts behind it
  have hgen : ∀ x, ReflTransGen (Up parent) x c →
      ReflTransGen (Up (Function.update parent a none)) x c ∨
        ∃ b, parent a = some b ∧ ReflTransGen (Up (Function.update parent a none)) b c := by
    intro x hx
    induction hx using ReflTransGen.head_induction_on with
    | refl => exact .inl .refl
    | @head x y hxy _ ih =>
        rcases ih with hy | hbehind
        · by_cases hxa : x = a
          · subst hxa
            exact .inr ⟨y, hxy, hy⟩
          · refine .inl (.head ?_ hy)
            rw [Up, Function.update_of_ne hxa]
            exact hxy
        · exact .inr hbehind
  rcases hgen a h with hloop | hbehind
  · refine .inl ?_
    rcases ReflTransGen.cases_head hloop with heq | ⟨b, hb, -⟩
    · exact heq
    · rw [Up, Function.update_self] at hb
      cases hb
  · exact .inr hbehind

/-- The walk that stops at `x` is a part of the walk. -/
lemma climb_update_subset (x : α) {n : ℕ} {a c : α}
    (h : c ∈ climb (Function.update parent x none) n a) : c ∈ climb parent n a := by
  induction n generalizing a with
  | zero => cases h
  | succ n ih =>
      rw [climb, List.mem_cons] at h ⊢
      refine h.imp_right fun h => ?_
      by_cases hax : a = x
      · subst hax
        rw [Function.update_self] at h
        cases h
      · rw [Function.update_of_ne hax] at h
        cases hup : parent a with
        | none => rw [hup] at h; cases h
        | some b =>
            rw [hup] at h
            exact ih h

/-- A walk longer than the number of elements with a parent visits whatever the
links reach. -/
lemma mem_climb_of_reach {n : ℕ} {S : Finset α} (hS : ∀ x y, parent x = some y → x ∈ S)
    (hcard : S.card ≤ n) {a c : α} (h : ReflTransGen (Up parent) a c) :
    c ∈ climb parent (n + 1) a := by
  induction n generalizing parent S a with
  | zero =>
      rcases reach_leaving h with rfl | ⟨b, hb, -⟩
      · exact List.mem_cons_self
      · have hmem := hS a b hb
        rw [Finset.card_eq_zero.mp (Nat.le_zero.mp hcard)] at hmem
        cases hmem
  | succ n ih =>
      rcases reach_leaving h with rfl | ⟨b, hb, hrest⟩
      · exact List.mem_cons_self
      · rw [climb, hb]
        refine List.mem_cons_of_mem a (climb_update_subset a ?_)
        -- what is left of the path uses one element with a parent less
        refine ih (S := S.erase a) (fun x y hxy => ?_) ?_ hrest
        · by_cases hxa : x = a
          · rw [hxa, Function.update_self] at hxy
            cases hxy
          · rw [Function.update_of_ne hxa] at hxy
            exact Finset.mem_erase.mpr ⟨hxa, hS x y hxy⟩
        · rw [Finset.card_erase_of_mem (hS a b hb)]
          omega

/-- **The bounded walk is exact**: it visits what the links reach. -/
theorem mem_climb_iff {n : ℕ} {S : Finset α} (hS : ∀ x y, parent x = some y → x ∈ S)
    (hcard : S.card ≤ n) {a c : α} :
    c ∈ climb parent (n + 1) a ↔ ReflTransGen (Up parent) a c :=
  ⟨reach_of_mem_climb, mem_climb_of_reach hS hcard⟩

end Climb

/-! ### Parents and children -/

section Children

variable [DecidableEq α] {parent : α → Option α} {children : α → List α}

/-- Every element is listed once by its parent and by no other element. -/
def Mirrors (parent : α → Option α) (children : α → List α) : Prop :=
  ∀ p c, (children p).count c = if parent c = some p then 1 else 0

/-- The children of an element are those whose parent it is. -/
lemma Mirrors.mem_iff (h : Mirrors parent children) {p c : α} :
    c ∈ children p ↔ parent c = some p := by
  rw [← List.count_pos_iff, h p c]
  split
  · next hc => exact iff_of_true one_pos hc
  · next hc => exact iff_of_false (lt_irrefl 0) hc

/-- Linking an element that has no parent. -/
lemma mirrors_link (h : Mirrors parent children) {c p : α} (hc : parent c = none) :
    Mirrors (Function.update parent c (some p))
      (Function.update children p (children p ++ [c])) := by
  intro q x
  have hold : (Function.update parent c (some p) x = some q) ↔
      (x = c ∧ p = q) ∨ parent x = some q := by
    by_cases hx : x = c
    · subst hx
      simp [hc]
    · simp [hx]
  by_cases hq : q = p
  · subst hq
    rw [Function.update_self, List.count_append, List.count_singleton, h q x]
    by_cases hx : x = c
    · subst hx
      simp [hc]
    · simp [hx, Ne.symm hx]
  · rw [Function.update_of_ne hq, h q x]
    simp [hold, Ne.symm hq]

/-- Linking an element that leaves another parent, which still lists it. -/
lemma not_mirrors_relink (h : Mirrors parent children) {c p q : α} (hc : parent c = some q)
    (hqp : q ≠ p) (l : List α) :
    ¬ ∀ x, x ∈ Function.update children p l q ↔
      Function.update parent c (some p) x = some q := by
  intro hnew
  have hlisted : c ∈ Function.update children p l q := by
    rw [Function.update_of_ne hqp]
    exact h.mem_iff.mpr hc
  have hparent := (hnew c).mp hlisted
  rw [Function.update_self] at hparent
  exact hqp (Option.some.inj hparent).symm

end Children

end PcieFabric.ParentForest
