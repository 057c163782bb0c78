import Mathlib.Tactic

/-!
Runs of a deterministic machine: a step function over a list of inputs.

* `run`: the state after a list of inputs.
* `AllSteps`: a property of (state before, input) at every step of the run;
  `allSteps_iff` reads it at the splits of the input list. `SomeStep`: a
  property at some step.
* `run_invariant`: the invariant rule; `run_history` is the one for invariants
  that speak of the inputs so far.
* `run_iterate`: a quantity that only some inputs change, and these always in
  the same way, has been changed as often as there were such inputs.
* `allSteps_congr`: two step properties that agree under an invariant, where
  the second one is what preserves it, hold of the same runs. This is the rule
  behind every "the run is safe exactly when no step does this" result.
-/

namespace PcieFabric.Machine

variable {σ ι : Type*} (step : σ → ι → σ)

/-- The state after a list of inputs. -/
def run (s : σ) (inputs : List ι) : σ := inputs.foldl step s

/-- `P` holds of the state before and the input, at every step of the run. -/
def AllSteps (P : σ → ι → Prop) : σ → List ι → Prop
  | _, [] => True
  | s, i :: rest => P s i ∧ AllSteps P (step s i) rest

instance decidableAllSteps {P : σ → ι → Prop} [∀ s i, Decidable (P s i)] :
    ∀ (s : σ) (inputs : List ι), Decidable (AllSteps step P s inputs)
  | _, [] => .isTrue trivial
  | s, i :: rest =>
      @instDecidableAnd (P s i) _ inferInstance (decidableAllSteps (step s i) rest)

@[simp] lemma run_nil (s : σ) : run step s [] = s := rfl

@[simp] lemma run_cons (s : σ) (i : ι) (rest : List ι) :
    run step s (i :: rest) = run step (step s i) rest := rfl

lemma run_append (s : σ) (a b : List ι) : run step s (a ++ b) = run step (run step s a) b :=
  List.foldl_append

lemma allSteps_append {P : σ → ι → Prop} {s : σ} {a b : List ι} :
    AllSteps step P s (a ++ b) ↔ AllSteps step P s a ∧ AllSteps step P (run step s a) b := by
  induction a generalizing s with
  | nil => simp [AllSteps]
  | cons i a ih => rw [List.cons_append, AllSteps, AllSteps, ih, run_cons, and_assoc]

/-- The splits of a list with one more element: at that element, or earlier. -/
lemma append_singleton_eq_split {xs pre post : List ι} {x y : ι}
    (h : xs ++ [x] = pre ++ y :: post) :
    (pre = xs ∧ y = x ∧ post = []) ∨ ∃ rest, post = rest ++ [x] ∧ xs = pre ++ y :: rest := by
  rcases List.eq_nil_or_concat post with rfl | ⟨rest, z, rfl⟩
  · obtain ⟨hpre, hlast⟩ := List.append_inj' h rfl
    exact .inl ⟨hpre.symm, (List.singleton_inj.mp hlast).symm, rfl⟩
  · rw [List.concat_eq_append, ← List.cons_append, ← List.append_assoc] at h
    obtain ⟨hpre, hlast⟩ := List.append_inj' h rfl
    obtain rfl := List.singleton_inj.mp hlast
    exact .inr ⟨rest, List.concat_eq_append, hpre⟩

/-- Of two steps of a run, one comes no later than the other. -/
lemma prefix_or_append_singleton {xs ys inputs : List ι} {x y : ι}
    (hx : xs ++ [x] <+: inputs) (hy : ys ++ [y] <+: inputs) : xs <+: ys ∨ ys ++ [y] <+: xs := by
  have hxs : xs <+: inputs := (List.prefix_append xs [x]).trans hx
  rcases List.prefix_or_prefix_of_prefix hxs hy with hle | hlt
  · rcases List.prefix_concat_iff.mp hle with rfl | hle
    · exact .inr List.prefix_rfl
    · exact .inl hle
  · exact .inr hlt

/-- A property of every step is a property at every split of the inputs. -/
lemma allSteps_iff {P : σ → ι → Prop} {s : σ} {inputs : List ι} :
    AllSteps step P s inputs ↔
      ∀ pre i post, inputs = pre ++ i :: post → P (run step s pre) i := by
  induction inputs generalizing s with
  | nil => simp [AllSteps]
  | cons j rest ih =>
      rw [AllSteps, ih]
      constructor
      · rintro ⟨hj, hrest⟩ pre i post heq
        cases pre with
        | nil =>
            obtain ⟨rfl, -⟩ := List.cons.inj heq
            exact hj
        | cons k pre =>
            obtain ⟨rfl, htail⟩ := List.cons.inj heq
            exact hrest pre i post htail
      · intro h
        exact ⟨h [] j rest rfl, fun pre i post heq => h (j :: pre) i post (by rw [heq]; rfl)⟩

/-- `P` holds of the state before and the input, at some step of the run. -/
def SomeStep (P : σ → ι → Prop) (s : σ) (inputs : List ι) : Prop :=
  ∃ pre i, pre ++ [i] <+: inputs ∧ P (run step s pre) i

/-- A step of a run with one more input is an earlier one or the last. -/
lemma someStep_append_singleton {P : σ → ι → Prop} {s : σ} {inputs : List ι} {i : ι} :
    SomeStep step P s (inputs ++ [i]) ↔ SomeStep step P s inputs ∨ P (run step s inputs) i := by
  constructor
  · rintro ⟨pre, j, hpre, hj⟩
    rcases List.prefix_concat_iff.mp hpre with heq | hearlier
    · obtain ⟨rfl, hlast⟩ := List.append_inj' heq rfl
      obtain rfl := List.singleton_inj.mp hlast
      exact .inr hj
    · exact .inl ⟨pre, j, hearlier, hj⟩
  · rintro (⟨pre, j, hpre, hj⟩ | hi)
    · exact ⟨pre, j, hpre.trans (List.prefix_append inputs [i]), hj⟩
    · exact ⟨inputs, i, List.prefix_rfl, hi⟩

/-- A property of the inputs alone holds at some step exactly if some input has it. -/
lemma someStep_iff_exists_mem {P : ι → Prop} {s : σ} {inputs : List ι} :
    SomeStep step (fun _ i => P i) s inputs ↔ ∃ i ∈ inputs, P i := by
  constructor
  · rintro ⟨pre, i, hpre, hi⟩
    exact ⟨i, hpre.subset (by simp), hi⟩
  · rintro ⟨i, hmem, hi⟩
    obtain ⟨pre, post, rfl⟩ := List.append_of_mem hmem
    exact ⟨pre, i, ⟨post, by simp⟩, hi⟩

/-- Some step has the property when not every step lacks it. -/
lemma someStep_iff_not {P : σ → ι → Prop} {s : σ} {inputs : List ι} :
    SomeStep step P s inputs ↔ ¬ AllSteps step (fun s i => ¬ P s i) s inputs := by
  rw [allSteps_iff, SomeStep]
  push Not
  constructor
  · rintro ⟨pre, i, ⟨post, hsplit⟩, hP⟩
    exact ⟨pre, i, post, by rw [← hsplit, List.append_assoc]; rfl, hP⟩
  · rintro ⟨pre, i, post, rfl, hP⟩
    exact ⟨pre, i, ⟨post, by rw [List.append_assoc]; rfl⟩, hP⟩

/-- The invariant rule. -/
lemma run_invariant {I : σ → Prop} (hstep : ∀ s i, I s → I (step s i)) {s : σ}
    (hs : I s) (inputs : List ι) : I (run step s inputs) := by
  induction inputs generalizing s with
  | nil => exact hs
  | cons i rest ih => exact ih (hstep s i hs)

/-- The invariant rule for runs whose steps have a property. -/
lemma run_invariant_of {I : σ → Prop} {P : σ → ι → Prop}
    (hstep : ∀ s i, I s → P s i → I (step s i)) {s : σ} (hs : I s) {inputs : List ι}
    (hinputs : AllSteps step P s inputs) : I (run step s inputs) := by
  induction inputs generalizing s with
  | nil => exact hs
  | cons i rest ih => exact ih (hstep s i hs hinputs.1) hinputs.2

/-- The invariant rule for runs whose inputs have a property. -/
lemma run_invariant_mem {I : σ → Prop} {P : ι → Prop}
    (hstep : ∀ s i, I s → P i → I (step s i)) {s : σ} (hs : I s) {inputs : List ι}
    (hinputs : ∀ i ∈ inputs, P i) : I (run step s inputs) := by
  induction inputs generalizing s with
  | nil => exact hs
  | cons i rest ih =>
      rw [List.forall_mem_cons] at hinputs
      exact ih (hstep s i hs hinputs.1) hinputs.2

/-- The invariant rule for invariants that speak of the inputs so far. -/
lemma run_history {I : List ι → σ → Prop} {s : σ} (hs : I [] s)
    (hstep : ∀ past i, I past (run step s past) → I (past ++ [i]) (step (run step s past) i))
    (inputs : List ι) : I inputs (run step s inputs) := by
  induction inputs using List.reverseRecOn with
  | nil => exact hs
  | append_singleton past i ih =>
      rw [run_append]
      exact hstep past i ih

/-- A quantity that the inputs in `tick` change by `f`, and the others leave
alone, is `f` applied once for each of them. -/
lemma run_iterate {α : Type*} (obs : σ → α) {f : α → α} {tick : ι → Bool} {P : ι → Prop}
    (hstep : ∀ s i, P i → obs (step s i) = if tick i then f (obs s) else obs s) (s : σ)
    {inputs : List ι} (hinputs : ∀ i ∈ inputs, P i) :
    obs (run step s inputs) = f^[inputs.countP tick] (obs s) := by
  induction inputs generalizing s with
  | nil => rfl
  | cons i rest ih =>
      rw [List.forall_mem_cons] at hinputs
      rw [run_cons, ih (step s i) hinputs.2, hstep s i hinputs.1]
      by_cases h : tick i = true
      · rw [if_pos h, List.countP_cons_of_pos h, Function.iterate_succ_apply]
      · rw [if_neg h, List.countP_cons_of_neg h]

/-- Two step properties hold of the same runs once they agree under an
invariant that the second one preserves. -/
lemma allSteps_congr {I : σ → Prop} {P Q : σ → ι → Prop}
    (hiff : ∀ s i, I s → (P s i ↔ Q s i))
    (hstep : ∀ s i, I s → Q s i → I (step s i)) {s : σ} (hs : I s) {inputs : List ι} :
    AllSteps step P s inputs ↔ AllSteps step Q s inputs := by
  induction inputs generalizing s with
  | nil => exact Iff.rfl
  | cons i rest ih =>
      rw [AllSteps, AllSteps, hiff s i hs]
      refine and_congr_right fun hq => ?_
      exact ih (hstep s i hs hq)

end PcieFabric.Machine
