import PcieFabric.Lib.Latch

/-!
Logs of a machine: a list to which every input appends an entry, or nothing.

* `Log`: the list and the entry of an input.
* `entries`: what the steps of a run enter, in their order.
* `mem_run_iff`: what stands in the log after a run was there before it, or some step of
  the run entered it.
* `countP_run_le`: entries of a kind that the run makes at most once.
-/

namespace PcieFabric.Machine

variable {σ ι α : Type*} {step : σ → ι → σ}

/-- Every input appends its entry, if it has one. -/
structure Log (step : σ → ι → σ) (obs : σ → List α) (entry : σ → ι → Option α) : Prop where
  append : ∀ s i, obs (step s i) = obs s ++ (entry s i).toList

/-- What the steps of a run enter. -/
def entries (step : σ → ι → σ) (entry : σ → ι → Option α) : σ → List ι → List α
  | _, [] => []
  | s, i :: rest => (entry s i).toList ++ entries step entry (step s i) rest

/-- The entries of a run with one more input. -/
lemma entries_append_singleton (entry : σ → ι → Option α) (s : σ) (inputs : List ι) (i : ι) :
    entries step entry s (inputs ++ [i]) =
      entries step entry s inputs ++ (entry (run step s inputs) i).toList := by
  induction inputs generalizing s with
  | nil => exact List.append_nil _
  | cons j rest ih => rw [List.cons_append, entries, ih, entries, List.append_assoc, run_cons]

/-- What happens at most once in a run happens at most once in the first part of it. -/
lemma AtMostOnce.of_append {P : σ → ι → Prop} {s : σ} {inputs rest : List ι}
    (h : AtMostOnce step P s (inputs ++ rest)) : AtMostOnce step P s inputs := by
  intro pre i pre' i' hpre hpre' hi hi'
  exact h pre i pre' i' (hpre.trans (List.prefix_append inputs rest))
    (hpre'.trans (List.prefix_append inputs rest)) hi hi'

/-- What implies something that happens at most once happens at most once. -/
lemma AtMostOnce.mono {P Q : σ → ι → Prop} {s : σ} {inputs : List ι}
    (h : AtMostOnce step Q s inputs) (hPQ : ∀ s i, P s i → Q s i) :
    AtMostOnce step P s inputs :=
  fun pre i pre' i' hpre hpre' hi hi' => h pre i pre' i' hpre hpre' (hPQ _ _ hi) (hPQ _ _ hi')

namespace Log

variable {obs : σ → List α} {entry : σ → ι → Option α}

/-- **The log of a run**: the log before it, and what its steps entered. -/
theorem mem_run_iff (h : Log step obs entry) {s : σ} {inputs : List ι} {a : α} :
    a ∈ obs (run step s inputs) ↔
      a ∈ obs s ∨ SomeStep step (fun s i => entry s i = some a) s inputs := by
  induction inputs using List.reverseRecOn with
  | nil => simp [SomeStep]
  | append_singleton inputs i ih =>
      rw [run_append, run_cons, run_nil, h.append, List.mem_append, ih, someStep_append_singleton,
        or_assoc, Option.mem_toList]

/-- The entries of a kind in the log of a run with one more input. -/
lemma countP_append_singleton (h : Log step obs entry) (s : σ) (inputs : List ι) (i : ι)
    (P : α → Bool) : (obs (run step s (inputs ++ [i]))).countP P =
      (obs (run step s inputs)).countP P + (entry (run step s inputs) i).toList.countP P := by
  rw [run_append, run_cons, run_nil, h.append, List.countP_append]

/-- A run that makes no entry of a kind leaves their number as it was. -/
lemma countP_run_of_not (h : Log step obs entry) {s : σ} {inputs : List ι} {P : α → Bool}
    (hnot : ¬ SomeStep step (fun s i => ∃ a, entry s i = some a ∧ P a = true) s inputs) :
    (obs (run step s inputs)).countP P = (obs s).countP P := by
  induction inputs using List.reverseRecOn with
  | nil => rfl
  | append_singleton inputs i ih =>
      rw [someStep_append_singleton, not_or] at hnot
      rw [h.countP_append_singleton, ih hnot.1]
      cases hentry : entry (run step s inputs) i with
      | none => rfl
      | some a =>
          have hP : ¬ P a = true := fun hP => hnot.2 ⟨a, hentry, hP⟩
          simp [hP]

/-- **Entries that the run makes at most once** stand in the log at most once more than
before. -/
theorem countP_run_le (h : Log step obs entry) {s : σ} {inputs : List ι} {P : α → Bool}
    (honce : AtMostOnce step (fun s i => ∃ a, entry s i = some a ∧ P a = true) s inputs) :
    (obs (run step s inputs)).countP P ≤ (obs s).countP P + 1 := by
  induction inputs using List.reverseRecOn with
  | nil => exact Nat.le_succ _
  | append_singleton inputs i ih =>
      rw [h.countP_append_singleton]
      by_cases hi : ∃ a, entry (run step s inputs) i = some a ∧ P a = true
      · -- the entry of the last input is the only one
        have hnot : ¬ SomeStep step (fun s i => ∃ a, entry s i = some a ∧ P a = true) s
            inputs := by
          rintro ⟨pre, j, hpre, hj⟩
          have heq := honce pre j inputs i (hpre.trans (List.prefix_append inputs [i]))
            List.prefix_rfl hj hi
          have hlen := hpre.length_le
          rw [heq, List.length_append, List.length_singleton] at hlen
          omega
        obtain ⟨a, hentry, hP⟩ := hi
        rw [h.countP_run_of_not hnot, hentry]
        simp [hP]
      · have hle := ih honce.of_append
        cases hentry : entry (run step s inputs) i with
        | none => simpa using hle
        | some a =>
            have hP : ¬ P a = true := fun hP => hi ⟨a, hentry, hP⟩
            simpa [hP] using hle

end Log

/-- A list whose entries of a kind stand at the same places in another list has no more of
them. -/
lemma countP_le_of_getElem? {P : α → Bool} {xs ys : List α}
    (h : ∀ (k : Nat) x, xs[k]? = some x → P x = true → ys[k]? = some x) :
    xs.countP P ≤ ys.countP P := by
  induction xs generalizing ys with
  | nil => exact Nat.zero_le _
  | cons x xs ih =>
      cases ys with
      | nil =>
          have hnone : ∀ y ∈ x :: xs, ¬ P y = true := by
            intro y hy hP
            obtain ⟨k, hk⟩ := List.mem_iff_getElem?.mp hy
            simpa using h k y hk hP
          rw [List.countP_eq_zero.mpr hnone]
          exact Nat.zero_le _
      | cons y ys =>
          have htail : xs.countP P ≤ ys.countP P := ih fun k x' hk hP => h (k + 1) x' hk hP
          rw [List.countP_cons, List.countP_cons]
          by_cases hx : P x = true
          · obtain rfl : y = x := Option.some.inj (h 0 x rfl hx)
            omega
          · simp only [if_neg hx]
            omega

/-- Two places of a list with at most one entry of a kind that both have one are the
same. -/
lemma getElem?_unique {P : α → Bool} {xs : List α} (h : xs.countP P ≤ 1) {i j : Nat} {x y : α}
    (hi : xs[i]? = some x) (hj : xs[j]? = some y) (hx : P x = true) (hy : P y = true) :
    i = j := by
  have hle : ∀ {i j : Nat} {x y : α}, xs[i]? = some x → xs[j]? = some y → P x = true →
      P y = true → j ≤ i := by
    intro i j x y hi hj hx hy
    by_contra hlt
    -- one entry stands in front of the other
    have hfront : x ∈ xs.take j := List.mem_iff_getElem?.mpr
      ⟨i, (List.getElem?_take_of_lt (by omega)).trans hi⟩
    have hback : y ∈ xs.drop j := List.mem_iff_getElem?.mpr
      ⟨0, by rw [List.getElem?_drop, Nat.add_zero, hj]⟩
    have hsum := @List.countP_append _ P (xs.take j) (xs.drop j)
    rw [List.take_append_drop] at hsum
    have hone := List.countP_pos_iff.mpr ⟨x, hfront, hx⟩
    have htwo := List.countP_pos_iff.mpr ⟨y, hback, hy⟩
    omega
  exact le_antisymm (hle hj hi hy hx) (hle hi hj hx hy)

end PcieFabric.Machine
