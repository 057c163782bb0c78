import PcieFabric.Lib.Run

/-!
Cells of a machine: an observation that the inputs write or leave alone.

* `Cell`: an input that writes a value leaves it there, and the others change nothing.
* `LastWrite`: a step of the run wrote the value and no later one wrote another.
* `Cell.obs_run`: what a cell holds after a run is its last write, or what it held at the
  start if there was none.
* `MarkedCell`: inputs may also mark what the cell holds. `MarkedCell.obs_run_of_write`:
  it holds its last write, marked if there was a mark since.
* `OnceCell`: the first input that writes fills the cell for good; `OnceCell.obs_run`.
-/

namespace PcieFabric.Machine

variable {σ ι α : Type*} (step : σ → ι → σ)

/-- An input writes a value into the cell or leaves it alone. -/
structure Cell (obs : σ → Option α) (writes : σ → ι → α → Prop) : Prop where
  written : ∀ s i a, writes s i a → obs (step s i) = some a
  kept : ∀ s i, (∀ a, ¬ writes s i a) → obs (step s i) = obs s

/-- Some step of the run writes. -/
def Writes (writes : σ → ι → α → Prop) (s : σ) (inputs : List ι) : Prop :=
  SomeStep step (fun s i => ∃ a, writes s i a) s inputs

/-- A step of the run wrote the value, and no step after it wrote anything. -/
def LastWrite (writes : σ → ι → α → Prop) (s : σ) (inputs : List ι) (a : α) : Prop :=
  ∃ pre i post, inputs = pre ++ i :: post ∧ writes (run step s pre) i a ∧
    ¬ Writes step writes (run step s (pre ++ [i])) post

variable {step} {writes : σ → ι → α → Prop} {s : σ} {inputs : List ι} {i : ι} {a : α}

lemma not_writes_nil : ¬ Writes step writes s [] := by
  rintro ⟨pre, i, hpre, -⟩
  have := hpre.length_le
  simp at this

/-- The last write of a run with one more input: that input's, or an earlier one that it
leaves alone. -/
lemma lastWrite_append_singleton : LastWrite step writes s (inputs ++ [i]) a ↔
    writes (run step s inputs) i a ∨
      LastWrite step writes s inputs a ∧ ∀ b, ¬ writes (run step s inputs) i b := by
  constructor
  · rintro ⟨pre, j, post, hsplit, hj, hlater⟩
    rcases append_singleton_eq_split hsplit with ⟨rfl, rfl, -⟩ | ⟨rest, rfl, rfl⟩
    · exact .inl hj
    · rw [Writes, someStep_append_singleton, not_or, ← run_append, List.append_assoc] at hlater
      exact .inr ⟨⟨pre, j, rest, rfl, hj, hlater.1⟩, not_exists.mp hlater.2⟩
  · rintro (hi | ⟨⟨pre, j, post, rfl, hj, hlater⟩, hi⟩)
    · exact ⟨inputs, i, [], rfl, hi, not_writes_nil⟩
    · refine ⟨pre, j, post ++ [i], by simp, hj, ?_⟩
      rw [Writes, someStep_append_singleton, not_or, ← run_append, List.append_assoc]
      exact ⟨hlater, not_exists.mpr hi⟩

/-- **A cell holds its last write**, or what it held at the start if the run has none. -/
theorem Cell.obs_run {obs : σ → Option α} (h : Cell step obs writes) (s : σ) (inputs : List ι)
    (a : α) : obs (run step s inputs) = some a ↔
      LastWrite step writes s inputs a ∨ obs s = some a ∧ ¬ Writes step writes s inputs := by
  induction inputs using List.reverseRecOn with
  | nil =>
      have hnone : ¬ LastWrite step writes s [] a := by
        rintro ⟨pre, i, post, hsplit, -⟩
        simp at hsplit
      simp [hnone, not_writes_nil]
  | append_singleton inputs i ih =>
      rw [run_append, run_cons, run_nil, lastWrite_append_singleton, Writes,
        someStep_append_singleton, ← Writes]
      by_cases hi : ∃ b, writes (run step s inputs) i b
      · obtain ⟨b, hb⟩ := hi
        have hnot : ¬ ∀ b, ¬ writes (run step s inputs) i b := fun hall => hall b hb
        have hobs := h.written _ _ b hb
        rw [hobs]
        constructor
        · intro heq
          exact .inl (.inl (Option.some.inj heq ▸ hb))
        · rintro ((ha | ⟨-, hall⟩) | ⟨-, hnone⟩)
          · exact hobs.symm.trans (h.written _ _ a ha)
          · exact absurd hall hnot
          · exact absurd (.inr ⟨b, hb⟩) hnone
      · have hall := not_exists.mp hi
        rw [h.kept _ _ hall, ih]
        constructor
        · rintro (hlast | ⟨hs, hnone⟩)
          · exact .inl (.inr ⟨hlast, hall⟩)
          · exact .inr ⟨hs, not_or.mpr ⟨hnone, hi⟩⟩
        · rintro ((ha | ⟨hlast, -⟩) | ⟨hs, hnone⟩)
          · exact absurd ha (hall a)
          · exact .inl hlast
          · exact .inr ⟨hs, (not_or.mp hnone).1⟩

/-! ### Cells with a mark -/

/-- An input writes a value into the cell, or marks what it holds, or leaves it alone. `I` is
what is known of the states, and a second mark changes nothing. -/
structure MarkedCell (step : σ → ι → σ) (I : σ → Prop) (obs : σ → Option α)
    (writes : σ → ι → α → Prop) (marks : σ → ι → Prop) (mark : α → α) : Prop where
  invariant : ∀ s i, I s → I (step s i)
  written : ∀ s i a, writes s i a → obs (step s i) = some a
  marked : ∀ s i, I s → (∀ a, ¬ writes s i a) → marks s i → obs (step s i) = (obs s).map mark
  kept : ∀ s i, I s → (∀ a, ¬ writes s i a) → ¬ marks s i → obs (step s i) = obs s
  idem : ∀ a, mark (mark a) = mark a

namespace MarkedCell

variable {I : σ → Prop} {obs : σ → Option α} {marks : σ → ι → Prop} {mark : α → α}

/-- Over a run that does not write, the cell holds what it held, marked if some step marks. -/
lemma obs_run_of_not_writes (h : MarkedCell step I obs writes marks mark) (hs : I s)
    (hnone : ¬ Writes step writes s inputs) :
    (SomeStep step marks s inputs → obs (run step s inputs) = (obs s).map mark) ∧
      (¬ SomeStep step marks s inputs → obs (run step s inputs) = obs s) := by
  induction inputs using List.reverseRecOn with
  | nil =>
      refine ⟨?_, fun _ => rfl⟩
      rintro ⟨pre, i, hpre, -⟩
      simp at hpre
  | append_singleton inputs i ih =>
      rw [Writes, someStep_append_singleton, not_or, not_exists, ← Writes] at hnone
      obtain ⟨hmarked, hplain⟩ := ih hnone.1
      have hI := run_invariant step h.invariant hs inputs
      rw [someStep_append_singleton, run_append, run_cons, run_nil]
      by_cases hi : marks (run step s inputs) i
      · refine ⟨fun _ => ?_, fun hnot => absurd (.inr hi) hnot⟩
        rw [h.marked _ _ hI hnone.2 hi]
        by_cases hearlier : SomeStep step marks s inputs
        · rw [hmarked hearlier, Option.map_map]
          exact congrArg (Option.map · (obs s)) (funext h.idem)
        · rw [hplain hearlier]
      · rw [h.kept _ _ hI hnone.2 hi, or_iff_left hi]
        exact ⟨hmarked, hplain⟩

/-- A cell that was empty holds something exactly if it was written. -/
lemma obs_run_ne_none_iff (h : MarkedCell step I obs writes marks mark) (hs : I s)
    (hempty : obs s = none) :
    obs (run step s inputs) ≠ none ↔ Writes step writes s inputs := by
  induction inputs using List.reverseRecOn with
  | nil => exact iff_of_false (fun hne => hne hempty) not_writes_nil
  | append_singleton inputs i ih =>
      rw [Writes, someStep_append_singleton, ← Writes, ← ih, run_append, run_cons, run_nil]
      have hI := run_invariant step h.invariant hs inputs
      by_cases hi : ∃ a, writes (run step s inputs) i a
      · obtain ⟨a, ha⟩ := hi
        rw [h.written _ _ a ha]
        exact iff_of_true (Option.some_ne_none a) (.inr ⟨a, ha⟩)
      · rw [or_iff_left hi]
        by_cases hmark : marks (run step s inputs) i
        · rw [h.marked _ _ hI (not_exists.mp hi) hmark, Ne, Option.map_eq_none_iff]
        · rw [h.kept _ _ hI (not_exists.mp hi) hmark]

/-- **A cell with a mark holds its last write**, marked if some step since marks it. -/
theorem obs_run_of_write (h : MarkedCell step I obs writes marks mark) (hs : I s)
    {pre post : List ι} (hwrite : writes (run step s pre) i a)
    (hlast : ¬ Writes step writes (run step s (pre ++ [i])) post) :
    (SomeStep step marks (run step s (pre ++ [i])) post →
        obs (run step s (pre ++ i :: post)) = some (mark a)) ∧
      (¬ SomeStep step marks (run step s (pre ++ [i])) post →
        obs (run step s (pre ++ i :: post)) = some a) := by
  have hobs : obs (run step s (pre ++ [i])) = some a := by
    rw [run_append]
    exact h.written _ _ a hwrite
  have hrun := h.obs_run_of_not_writes (run_invariant step h.invariant hs (pre ++ [i])) hlast
  rw [hobs, ← run_append, List.append_assoc] at hrun
  exact hrun

end MarkedCell

/-! ### Cells that are written once -/

/-- The first input that writes fills the cell, and no input changes what it holds. `I` is what
is known of the states. -/
structure OnceCell (step : σ → ι → σ) (I : σ → Prop) (obs : σ → Option α)
    (writes : σ → ι → α → Prop) : Prop where
  invariant : ∀ s i, I s → I (step s i)
  written : ∀ s i a, I s → obs s = none → writes s i a → obs (step s i) = some a
  held : ∀ s i a, I s → obs s = some a → obs (step s i) = some a
  empty : ∀ s i, I s → obs s = none → (∀ a, ¬ writes s i a) → obs (step s i) = none

/-- A step of the run wrote the value, and no step before it wrote anything. -/
def FirstWrite (step : σ → ι → σ) (writes : σ → ι → α → Prop) (s : σ) (inputs : List ι)
    (a : α) : Prop :=
  ∃ pre i post, inputs = pre ++ i :: post ∧ writes (run step s pre) i a ∧
    ¬ Writes step writes s pre

/-- The first write of a run with one more input. -/
lemma firstWrite_append_singleton : FirstWrite step writes s (inputs ++ [i]) a ↔
    FirstWrite step writes s inputs a ∨
      writes (run step s inputs) i a ∧ ¬ Writes step writes s inputs := by
  constructor
  · rintro ⟨pre, j, post, hsplit, hj, hfirst⟩
    rcases append_singleton_eq_split hsplit with ⟨rfl, rfl, -⟩ | ⟨rest, rfl, rfl⟩
    · exact .inr ⟨hj, hfirst⟩
    · exact .inl ⟨pre, j, rest, rfl, hj, hfirst⟩
  · rintro (⟨pre, j, post, rfl, hj, hfirst⟩ | ⟨hi, hfirst⟩)
    · exact ⟨pre, j, post ++ [i], by simp, hj, hfirst⟩
    · exact ⟨inputs, i, [], rfl, hi, hfirst⟩

/-- **A cell that is written once holds its first write**, and nothing if the run has none. -/
theorem OnceCell.obs_run {I : σ → Prop} {obs : σ → Option α}
    (h : OnceCell step I obs writes) (hs : I s) (hempty : obs s = none) (inputs : List ι) :
    (∀ a, obs (run step s inputs) = some a ↔ FirstWrite step writes s inputs a) ∧
      (obs (run step s inputs) = none ↔ ¬ Writes step writes s inputs) := by
  induction inputs using List.reverseRecOn with
  | nil =>
      refine ⟨fun a => iff_of_false ?_ ?_, iff_of_true hempty not_writes_nil⟩
      · rw [run_nil, hempty]
        exact (Option.some_ne_none a).symm
      · rintro ⟨pre, i, post, hsplit, -⟩
        simp at hsplit
  | append_singleton inputs i ih =>
      obtain ⟨hfirst, hnone⟩ := ih
      have hI := run_invariant step h.invariant hs inputs
      rw [Writes, someStep_append_singleton, ← Writes, run_append, run_cons, run_nil]
      simp only [firstWrite_append_singleton, ← hfirst]
      cases hobs : obs (run step s inputs) with
      | some b =>
          have hearlier : Writes step writes s inputs := by
            by_contra hnot
            rw [hnone.mpr hnot] at hobs
            cases hobs
          simp [h.held _ _ b hI hobs, hearlier]
      | none =>
          have hnot := hnone.mp hobs
          by_cases hi : ∃ a, writes (run step s inputs) i a
          · obtain ⟨b, hb⟩ := hi
            have hwritten : ∀ a, writes (run step s inputs) i a ↔ b = a := by
              intro a
              refine ⟨fun ha => ?_, fun heq => heq ▸ hb⟩
              exact Option.some.inj ((h.written _ _ b hI hobs hb).symm.trans
                (h.written _ _ a hI hobs ha))
            simp [h.written _ _ b hI hobs hb, hwritten, hnot]
          · simp [h.empty _ _ hI hobs (not_exists.mp hi), not_exists.mp hi, hnot]

end PcieFabric.Machine
