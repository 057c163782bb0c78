import PcieFabric.Lib.Latch

/-!
A component of a machine: a part of its state that changes by calls of its own, and by
nothing else.

* `Component`: the part, the call that an input makes on it, and what the call does.
* `Component.calls`: the calls that a run makes, in their order. `part_run`: the part
  after the run is the component's own machine after these calls.
* `allSteps_calls`: a property of every call is a property of every step that makes one.
* `Component.guard`: what a guard of the component admits once, the whole machine does at
  most once.
-/

namespace PcieFabric.Machine

variable {σ ι τ κ : Type*}

/-- A part of the state of a machine with its own steps. An input makes at most one
call on it. -/
structure Component (step : σ → ι → σ) (partStep : τ → κ → τ) where
  part : σ → τ
  call : σ → ι → Option κ
  part_step : ∀ s i, part (step s i) = (call s i).elim (part s) (partStep (part s))

namespace Component

variable {step : σ → ι → σ} {partStep : τ → κ → τ} (C : Component step partStep)

/-- The calls that a run makes on the component. -/
def calls : σ → List ι → List κ
  | _, [] => []
  | s, i :: rest => (C.call s i).toList ++ calls (step s i) rest

/-- The part after an input is the part after its calls. -/
lemma part_step_eq_run (s : σ) (i : ι) :
    C.part (step s i) = run partStep (C.part s) (C.call s i).toList := by
  rw [C.part_step]
  cases C.call s i with
  | none => rfl
  | some k => rfl

/-- **The part runs by itself**: after a run it is where its own calls take it. -/
theorem part_run (s : σ) (inputs : List ι) :
    C.part (run step s inputs) = run partStep (C.part s) (C.calls s inputs) := by
  induction inputs generalizing s with
  | nil => rfl
  | cons i rest ih => rw [run_cons, ih, part_step_eq_run, calls, run_append]

/-- The calls of a run with one more input. -/
lemma calls_append_singleton (s : σ) (inputs : List ι) (i : ι) :
    C.calls s (inputs ++ [i]) = C.calls s inputs ++ (C.call (run step s inputs) i).toList := by
  induction inputs generalizing s with
  | nil => exact List.append_nil _
  | cons j rest ih => rw [List.cons_append, calls, ih, calls, List.append_assoc, run_cons]

/-- An input makes at most one call. -/
lemma length_calls_le (s : σ) (inputs : List ι) : (C.calls s inputs).length ≤ inputs.length := by
  induction inputs generalizing s with
  | nil => exact le_rfl
  | cons i rest ih =>
      have hone : (C.call s i).toList.length ≤ 1 := by
        cases C.call s i with
        | none => exact Nat.zero_le _
        | some k => exact le_rfl
      have hrest := ih (step s i)
      rw [calls, List.length_append, List.length_cons]
      omega

/-- A property of the part before each call holds at every call of a run if it holds at
every step that makes one. -/
lemma allSteps_calls {P : τ → κ → Prop} {s : σ} {inputs : List ι} :
    AllSteps partStep P (C.part s) (C.calls s inputs) ↔
      AllSteps step (fun s i => ∀ k, C.call s i = some k → P (C.part s) k) s inputs := by
  induction inputs generalizing s with
  | nil => exact Iff.rfl
  | cons i rest ih =>
      rw [calls, allSteps_append, ← part_step_eq_run, ih, AllSteps]
      refine and_congr_left fun _ => ?_
      cases C.call s i with
      | none => simp [AllSteps]
      | some k => simp [AllSteps]

/-- An invariant of the component holds in every run of the whole. -/
lemma part_invariant {I : τ → Prop} (hstep : ∀ t k, I t → I (partStep t k)) {s : σ}
    (hs : I (C.part s)) (inputs : List ι) : I (C.part (run step s inputs)) := by
  rw [part_run]
  exact run_invariant partStep hstep hs _

/-- The calls of a run have a property somewhere if a step makes a call that has it. -/
lemma someStep_calls {P : τ → κ → Prop} {s : σ} {inputs : List ι} :
    SomeStep partStep P (C.part s) (C.calls s inputs) ↔
      SomeStep step (fun s i => ∃ k, C.call s i = some k ∧ P (C.part s) k) s inputs := by
  rw [someStep_iff_not, someStep_iff_not, allSteps_calls]
  simp only [not_exists, not_and]

/-- A guard of the component is a guard of the whole machine. -/
lemma guard {event : τ → κ → Prop} {isSet : τ → Prop} (h : Guard partStep event isSet) :
    Guard step (fun s i => ∃ k, C.call s i = some k ∧ event (C.part s) k)
      (fun s => isSet (C.part s)) where
  fresh := by
    rintro s i ⟨k, -, hk⟩
    exact h.fresh _ k hk
  sets := by
    rintro s i ⟨k, hcall, hk⟩
    rw [C.part_step, hcall]
    exact h.sets _ k hk
  stays s i hs := by
    rw [C.part_step]
    cases C.call s i with
    | none => exact hs
    | some k => exact h.stays _ k hs

end Component

end PcieFabric.Machine
