import PcieFabric.Lib.Run

/-!
Latches: what a run does at most once.

* `AtMostOnce`: a property that at most one step of a run has.
* `Guard`: an event that finds the guard open and closes it, and nothing opens it again;
  `Guard.atMostOnce`: a run has the event at most once.
* `Latch`: a guard that the event alone closes.
* `run_iff_someStep`: what a run adds up.
-/

namespace PcieFabric.Machine

variable {σ ι : Type*} {step : σ → ι → σ}

/-- At most one step of the run has the property. -/
def AtMostOnce (step : σ → ι → σ) (P : σ → ι → Prop) (s : σ) (inputs : List ι) : Prop :=
  ∀ pre i pre' i', pre ++ [i] <+: inputs → pre' ++ [i'] <+: inputs →
    P (run step s pre) i → P (run step s pre') i' → pre = pre'

/-- The event happens only while the guard is open and closes it, and it stays closed. -/
structure Guard (step : σ → ι → σ) (event : σ → ι → Prop) (isSet : σ → Prop) : Prop where
  fresh : ∀ s i, event s i → ¬ isSet s
  sets : ∀ s i, event s i → isSet (step s i)
  stays : ∀ s i, isSet s → isSet (step s i)

namespace Guard

variable {event : σ → ι → Prop} {isSet : σ → Prop}

/-- A closed guard stays closed. -/
lemma isSet_run (h : Guard step event isSet) {s : σ} (hs : isSet s) (inputs : List ι) :
    isSet (run step s inputs) :=
  run_invariant step h.stays hs inputs

/-- After a step with the event, no later step has it. -/
lemma not_event_later (h : Guard step event isSet) {s : σ} {pre later : List ι} {i i' : ι}
    (hi : event (run step s pre) i) (hlater : pre ++ [i] <+: later) :
    ¬ event (run step s later) i' := by
  intro hi'
  obtain ⟨rest, rfl⟩ := hlater
  refine h.fresh _ _ hi' ?_
  rw [run_append, run_append, run_cons, run_nil]
  exact h.isSet_run (h.sets _ _ hi) rest

/-- **A run has a guarded event at most once.** -/
theorem atMostOnce (h : Guard step event isSet) (s : σ) (inputs : List ι) :
    AtMostOnce step event s inputs := by
  intro pre i pre' i' hpre hpre' hi hi'
  rcases prefix_or_append_singleton hpre hpre' with hle | hlater
  · rcases prefix_or_append_singleton hpre' hpre with hge | hlater
    · exact hle.eq_of_length_le hge.length_le
    · exact absurd hi' (h.not_event_later hi hlater)
  · exact absurd hi (h.not_event_later hi' hlater)

end Guard

/-- The event happens only while the latch is open, and it alone closes the latch. -/
structure Latch (step : σ → ι → σ) (event : σ → ι → Prop) (isSet : σ → Prop) : Prop where
  fresh : ∀ s i, event s i → ¬ isSet s
  step_iff : ∀ s i, isSet (step s i) ↔ isSet s ∨ event s i

namespace Latch

variable {event : σ → ι → Prop} {isSet : σ → Prop}

/-- A latch is a guard. -/
lemma guard (h : Latch step event isSet) : Guard step event isSet where
  fresh := h.fresh
  sets s i hi := (h.step_iff s i).mpr (.inr hi)
  stays s i hs := (h.step_iff s i).mpr (.inl hs)

/-- A latch is closed after a run if it was closed before it or the run has its event. -/
lemma isSet_run_iff (h : Latch step event isSet) (s : σ) (inputs : List ι) :
    isSet (run step s inputs) ↔ isSet s ∨ SomeStep step event s inputs := by
  induction inputs using List.reverseRecOn with
  | nil => simp [SomeStep]
  | append_singleton inputs i ih =>
      rw [run_append, run_cons, run_nil, h.step_iff, ih, someStep_append_singleton, or_assoc]

/-- **A run has the event of a latch at most once.** -/
theorem atMostOnce (h : Latch step event isSet) (s : σ) (inputs : List ι) :
    AtMostOnce step event s inputs :=
  h.guard.atMostOnce s inputs

end Latch

/-- What the steps of a run add and none takes away, for runs whose inputs have a property. -/
lemma run_iff_someStep {Q : σ → Prop} {P : σ → ι → Prop} {R : ι → Prop}
    (hstep : ∀ s i, R i → (Q (step s i) ↔ Q s ∨ P s i)) (s : σ) {inputs : List ι}
    (hinputs : ∀ i ∈ inputs, R i) : Q (run step s inputs) ↔ Q s ∨ SomeStep step P s inputs := by
  induction inputs using List.reverseRecOn with
  | nil => simp [SomeStep]
  | append_singleton inputs i ih =>
      have hpast : ∀ j ∈ inputs, R j := fun j hj => hinputs j (List.mem_append_left _ hj)
      have hlast : R i := hinputs i (List.mem_append_right _ List.mem_cons_self)
      rw [run_append, run_cons, run_nil, hstep _ _ hlast, ih hpast, someStep_append_singleton,
        or_assoc]

end PcieFabric.Machine
