import Mathlib.Tactic
import Mathlib.Data.Prod.Lex
import Mathlib.Data.Sum.Order
import Mathlib.Data.List.Sort

/-!
Ranking a list by a comparator that answers with a sign.

* `threeWay`: the comparator of a linear order. On a lexicographic product it
  is the chain "if the first components differ, decide by them, else go on"
  (`threeWay_of_first`); on a sum the left summand comes first.
* `stableSort`: the stable sort by a strict test, equal elements in their order.
* `OrderedBy`: on the members of a list the test is `<` on keys that tell the
  members apart. Under it the sorted list depends on the members only
  (`OrderedBy.stableSort_perm`), sorting commutes with filtering
  (`OrderedBy.filter_stableSort`) and the head is the minimum
  (`OrderedBy.head?_eq_some_iff`).
* `StrictWeakOrder`: what a sort asks of its test on a list; `OrderedByKey` is enough for
  it, also where members share a key. `OrderedByKey.head?_eq_some_iff`: the head of the
  sorted list is then the first of the least members.
* `lex_le_iff_of_lex_le`: the order of pairs once their second components are
  replaced.
-/

namespace PcieFabric.Ranking

/-! ### Signs -/

section ThreeWay

variable {κ lam : Type*} [LinearOrder κ] [LinearOrder lam]

/-- The sign of the comparison of two keys. -/
def threeWay (a b : κ) : Int := if a = b then 0 else if a < b then -1 else 1

lemma threeWay_lt_zero {a b : κ} : threeWay a b < 0 ↔ a < b := by
  unfold threeWay
  split_ifs with heq hlt
  · simp [heq]
  · simp [hlt]
  · simp [hlt]

lemma zero_lt_threeWay {a b : κ} : 0 < threeWay a b ↔ b < a := by
  unfold threeWay
  split_ifs with heq hlt
  · simp [heq]
  · simpa using hlt.le
  · simpa using lt_of_le_of_ne (not_lt.mp hlt) (Ne.symm heq)

lemma threeWay_eq_zero {a b : κ} : threeWay a b = 0 ↔ a = b := by
  unfold threeWay
  split_ifs with heq hlt
  · simp [heq]
  · simp [heq]
  · simp [heq]

lemma threeWay_le_zero {a b : κ} : threeWay a b ≤ 0 ↔ a ≤ b := by
  unfold threeWay
  split_ifs with heq hlt
  · simp [heq]
  · simp [hlt.le]
  · simpa using lt_of_le_of_ne (not_lt.mp hlt) (Ne.symm heq)

/-- The last decision of a chain. -/
lemma threeWay_of_last {a b : κ} {P Q : Prop} [Decidable P] [Decidable Q] (hne : P ↔ a ≠ b)
    (hlt : Q ↔ a < b) : (if P then (if Q then -1 else 1) else 0) = threeWay a b := by
  by_cases hab : a = b
  · rw [if_neg (fun hP => hne.mp hP hab), threeWay, if_pos hab]
  · rw [if_pos (hne.mpr hab), threeWay, if_neg hab]
    simp only [hlt]

/-- A lexicographic comparison decides by the first components where they
differ, and otherwise goes on. -/
lemma threeWay_of_first {a b : κ} {c d : lam} {P Q : Prop} [Decidable P] [Decidable Q] {r : Int}
    (hne : P ↔ a ≠ b) (hlt : a ≠ b → (Q ↔ a < b)) (hrest : r = threeWay c d) :
    (if P then (if Q then -1 else 1) else r) = threeWay (toLex (a, c)) (toLex (b, d)) := by
  by_cases hab : a = b
  · subst hab
    rw [if_neg (fun hP => hne.mp hP rfl), hrest, threeWay, threeWay]
    simp [Prod.Lex.toLex_lt_toLex]
  · rw [if_pos (hne.mpr hab), threeWay]
    simp only [hlt hab]
    simp [Prod.Lex.toLex_lt_toLex, hab]

lemma threeWay_inl (a b : κ) :
    threeWay (Sum.inlₗ a : κ ⊕ₗ lam) (Sum.inlₗ b) = threeWay a b := by
  simp [threeWay]

lemma threeWay_inr (a b : lam) :
    threeWay (Sum.inrₗ a : κ ⊕ₗ lam) (Sum.inrₗ b) = threeWay a b := by
  simp [threeWay]

lemma threeWay_inl_inr (a : κ) (b : lam) : threeWay (Sum.inlₗ a) (Sum.inrₗ b) = -1 := by
  simp [threeWay]

lemma threeWay_inr_inl (a : κ) (b : lam) : threeWay (Sum.inrₗ b) (Sum.inlₗ a) = 1 := by
  simp [threeWay]

end ThreeWay

/-! ### Keys with a component replaced -/

section Replace

variable {κ lam : Type*} [LinearOrder κ] [LinearOrder lam] {a b : κ} {c d : lam}

/-- Behind equal first components the second ones are ordered. -/
lemma snd_le_of_lex_le (h : toLex (a, c) ≤ toLex (b, d)) (hab : a = b) : c ≤ d := by
  rcases Prod.Lex.toLex_le_toLex.mp h with hlt | ⟨-, hle⟩
  · exact absurd hab hlt.ne
  · exact hle

/-- Where the first components are in order, the order of the pairs is that of the
second components behind equal ones. -/
lemma lex_le_iff_of_lex_le (h : toLex (a, c) ≤ toLex (b, d)) {c' d' : lam} :
    toLex (a, c') ≤ toLex (b, d') ↔ (a = b → c' ≤ d') := by
  constructor
  · exact snd_le_of_lex_le
  · intro hrest
    rw [Prod.Lex.toLex_le_toLex]
    rcases Prod.Lex.toLex_le_toLex.mp h with hlt | ⟨heq, -⟩
    · exact .inl hlt
    · exact .inr ⟨heq, hrest heq⟩

end Replace

/-! ### The stable sort -/

section StableSort

variable {α κ : Type*} [LinearOrder κ]

/-- The stable sort by a strict test: an element moves in front of another only
where the test says so. -/
def stableSort (before : α → α → Bool) (l : List α) : List α :=
  l.insertionSort fun a b => before b a = false

lemma stableSort_perm (before : α → α → Bool) (l : List α) : (stableSort before l).Perm l :=
  List.perm_insertionSort _ l

/-- On the members of the list the test is `<` on the keys, and the keys tell
the members apart. -/
structure OrderedBy (before : α → α → Bool) (key : α → κ) (l : List α) : Prop where
  iff_lt : ∀ a ∈ l, ∀ b ∈ l, (before a b = true ↔ key a < key b)
  inj : ∀ a ∈ l, ∀ b ∈ l, key a = key b → a = b

variable {before : α → α → Bool} {key : α → κ} {l l' : List α}

lemma OrderedBy.mono (h : OrderedBy before key l) (hsub : l' ⊆ l) : OrderedBy before key l' :=
  ⟨fun a ha b hb => h.iff_lt a (hsub ha) b (hsub hb),
    fun a ha b hb => h.inj a (hsub ha) b (hsub hb)⟩

/-- The sorted list is sorted by the keys. -/
lemma OrderedBy.pairwise (h : OrderedBy before key l) :
    (stableSort before l).Pairwise fun a b => key a ≤ key b := by
  have hsame : stableSort before l = l.insertionSort fun a b => key a ≤ key b := by
    have hmap := List.map_insertionSort (fun a b => before b a = false)
      (fun a b => key a ≤ key b) id l fun a ha b hb => by
        rw [id_eq, id_eq, ← not_lt, ← h.iff_lt b hb a ha, Bool.not_eq_true]
    rwa [List.map_id, List.map_id] at hmap
  have htotal : Std.Total fun a b => key a ≤ key b := ⟨fun a b => le_total (key a) (key b)⟩
  have htrans : IsTrans α fun a b => key a ≤ key b := ⟨fun _ _ _ => le_trans⟩
  rw [hsame]
  exact List.pairwise_insertionSort _ l

/-- A list that is sorted by the keys is the sorted list of its members. -/
lemma OrderedBy.eq_stableSort (h : OrderedBy before key l) (hperm : l'.Perm l)
    (hsorted : l'.Pairwise fun a b => key a ≤ key b) : l' = stableSort before l := by
  refine List.Perm.eq_of_pairwise (fun a b ha hb hab hba => ?_) hsorted h.pairwise
    (hperm.trans (stableSort_perm before l).symm)
  exact h.inj a (hperm.subset ha) b ((stableSort_perm before l).subset hb) (le_antisymm hab hba)

/-- **The order of the input does not matter.** -/
theorem OrderedBy.stableSort_perm (h : OrderedBy before key l) (hperm : l'.Perm l) :
    stableSort before l' = stableSort before l :=
  h.eq_stableSort ((Ranking.stableSort_perm before l').trans hperm)
    (h.mono hperm.subset).pairwise

/-- **Sorting commutes with filtering.** -/
theorem OrderedBy.filter_stableSort (h : OrderedBy before key l) (p : α → Bool) :
    (stableSort before l).filter p = stableSort before (l.filter p) :=
  (h.mono (List.filter_subset_self l)).eq_stableSort ((Ranking.stableSort_perm before l).filter p)
    (h.pairwise.filter p)

/-- The first of the sorted list is a minimum. -/
lemma OrderedBy.head_le (h : OrderedBy before key l) {b : α} {rest : List α}
    (hsort : stableSort before l = b :: rest) : ∀ q ∈ l, key b ≤ key q := by
  intro q hq
  have hpair := h.pairwise
  rw [hsort, List.pairwise_cons] at hpair
  have hmem : q ∈ b :: rest := by
    rw [← hsort]
    exact (Ranking.stableSort_perm before l).symm.subset hq
  rcases List.mem_cons.mp hmem with rfl | hrest
  · exact le_refl _
  · exact hpair.1 q hrest

/-- The first of the sorted list is the minimum. -/
lemma OrderedBy.head?_eq_some_iff (h : OrderedBy before key l) {b : α} :
    (stableSort before l).head? = some b ↔ b ∈ l ∧ ∀ q ∈ l, key b ≤ key q := by
  cases hsort : stableSort before l with
  | nil =>
      have hnil := Ranking.stableSort_perm before l
      rw [hsort] at hnil
      rw [← hnil.nil_eq]
      simp
  | cons c rest =>
      have hc : c ∈ l := by
        refine (Ranking.stableSort_perm before l).subset ?_
        rw [hsort]
        exact List.mem_cons_self
      rw [List.head?_cons, Option.some.injEq]
      constructor
      · rintro rfl
        exact ⟨hc, h.head_le hsort⟩
      · rintro ⟨hb, hle⟩
        exact h.inj c hc b hb (le_antisymm (h.head_le hsort b hb) (hle c hc))

/-! ### Members that share a key -/

/-- What a sort asks of its test on the members of a list: it is a strict order, and to be
ordered by it neither way is transitive. -/
structure StrictWeakOrder (before : α → α → Bool) (l : List α) : Prop where
  irrefl : ∀ a ∈ l, before a a = false
  trans : ∀ a ∈ l, ∀ b ∈ l, ∀ c ∈ l, before a b = true → before b c = true → before a c = true
  incomparable : ∀ a ∈ l, ∀ b ∈ l, ∀ c ∈ l, before a b = false → before b a = false →
    before b c = false → before c b = false → before a c = false ∧ before c a = false

/-- On the members of the list the test is `<` on the keys. -/
def OrderedByKey (before : α → α → Bool) (key : α → κ) (l : List α) : Prop :=
  ∀ a ∈ l, ∀ b ∈ l, (before a b = true ↔ key a < key b)

lemma OrderedByKey.eq_false_iff (h : OrderedByKey before key l) {a b : α} (ha : a ∈ l)
    (hb : b ∈ l) : before a b = false ↔ key b ≤ key a := by
  rw [← not_lt, ← h a ha b hb, Bool.not_eq_true]

/-- **Keys give a strict weak order.** -/
theorem OrderedByKey.strictWeakOrder (h : OrderedByKey before key l) :
    StrictWeakOrder before l where
  irrefl a ha := (h.eq_false_iff ha ha).mpr le_rfl
  trans a ha b hb c hc hab hbc :=
    (h a ha c hc).mpr (((h a ha b hb).mp hab).trans ((h b hb c hc).mp hbc))
  incomparable a ha b hb c hc hab hba hbc hcb := by
    rw [h.eq_false_iff ha hb] at hab
    rw [h.eq_false_iff hb ha] at hba
    rw [h.eq_false_iff hb hc] at hbc
    rw [h.eq_false_iff hc hb] at hcb
    exact ⟨(h.eq_false_iff ha hc).mpr (hbc.trans hab), (h.eq_false_iff hc ha).mpr (hba.trans hcb)⟩

/-- The element is before every member in front of it, and no member behind it is before
it. -/
def FirstLeast (before : α → α → Bool) (l : List α) (b : α) : Prop :=
  ∃ pre post, l = pre ++ b :: post ∧ (∀ q ∈ pre, before b q = true) ∧
    ∀ q ∈ post, before q b = false

/-- Sorting a longer list, read at the head. -/
lemma head?_stableSort_cons (before : α → α → Bool) (a : α) (l : List α) :
    (stableSort before (a :: l)).head? = some
      (match (stableSort before l).head? with
        | none => a
        | some c => if before c a then c else a) := by
  have hinsert : stableSort before (a :: l) =
      List.orderedInsert (fun a b => before b a = false) a (stableSort before l) := rfl
  rw [hinsert]
  cases stableSort before l with
  | nil => rfl
  | cons c rest =>
      rw [List.orderedInsert]
      cases hca : before c a with
      | true => simp [hca]
      | false => simp [hca]

/-- The first of the least members leads the sorted list, whatever the test is. -/
lemma FirstLeast.head? {b : α} (h : FirstLeast before l b) :
    (stableSort before l).head? = some b := by
  obtain ⟨pre, post, rfl, hpre, hpost⟩ := h
  induction pre with
  | nil =>
      rw [List.nil_append, head?_stableSort_cons]
      cases hhead : (stableSort before post).head? with
      | none => rfl
      | some c =>
          have hc := (stableSort_perm before post).subset (List.mem_of_mem_head? hhead)
          simp [hpost c hc]
  | cons a pre ih =>
      rw [List.forall_mem_cons] at hpre
      rw [List.cons_append, head?_stableSort_cons, ih hpre.2]
      simp [hpre.1]

lemma FirstLeast.mem {b : α} (h : FirstLeast before l b) : b ∈ l := by
  obtain ⟨pre, post, rfl, -⟩ := h
  exact List.mem_append_right pre List.mem_cons_self

/-- The first of the least members has the least key. -/
lemma FirstLeast.key_le (h : OrderedByKey before key l) {b : α} (hb : FirstLeast before l b) :
    ∀ q ∈ l, key b ≤ key q := by
  intro q hq
  have hmem := hb.mem
  obtain ⟨pre, post, hsplit, hpre, hpost⟩ := hb
  have hcases : q ∈ pre ∨ q = b ∨ q ∈ post := by
    rwa [hsplit, List.mem_append, List.mem_cons] at hq
  rcases hcases with hfront | rfl | hbehind
  · exact ((h b hmem q hq).mp (hpre q hfront)).le
  · exact le_rfl
  · exact (h.eq_false_iff hq hmem).mp (hpost q hbehind)

/-- **The head of the sorted list** is the first of the least members. -/
theorem OrderedByKey.head?_eq_some_iff (h : OrderedByKey before key l) {b : α} :
    (stableSort before l).head? = some b ↔ FirstLeast before l b := by
  refine ⟨fun hhead => ?_, FirstLeast.head?⟩
  induction l generalizing b with
  | nil => cases hhead
  | cons a l ih =>
      have hl : OrderedByKey before key l := fun x hx y hy =>
        h x (List.mem_cons_of_mem a hx) y (List.mem_cons_of_mem a hy)
      rw [head?_stableSort_cons, Option.some.injEq] at hhead
      cases hrest : (stableSort before l).head? with
      | none =>
          rw [hrest] at hhead
          obtain rfl : a = b := hhead
          rw [List.head?_eq_none_iff] at hrest
          have hnil : l = [] := by
            have hperm := Ranking.stableSort_perm before l
            rwa [hrest, List.nil_perm] at hperm
          exact ⟨[], l, rfl, by simp, by simp [hnil]⟩
      | some c =>
          have hleast := ih hl hrest
          rw [hrest] at hhead
          dsimp only at hhead
          split_ifs at hhead with hca
          · obtain rfl := hhead
            obtain ⟨pre, post, hsplit, hpre, hpost⟩ := hleast
            refine ⟨a :: pre, post, by rw [hsplit, List.cons_append], ?_, hpost⟩
            exact List.forall_mem_cons.mpr ⟨hca, hpre⟩
          · -- the least of the rest is not before the first element
            obtain rfl := hhead
            have hac := (h.eq_false_iff (List.mem_cons_of_mem a hleast.mem)
              List.mem_cons_self).mp (Bool.not_eq_true _ ▸ hca)
            refine ⟨[], l, rfl, by simp, fun q hq => ?_⟩
            exact (h.eq_false_iff (List.mem_cons_of_mem a hq) List.mem_cons_self).mpr
              (hac.trans (hleast.key_le hl q hq))

end StableSort

end PcieFabric.Ranking
