import PcieFabric.Lib.Run

/-!
A place of a machine whose occupants come and go. Each has a number below a
bound, which increments change; a new occupant brings its own.

* `Move`: what one step does to the number of the occupant.
* `Ascending`: whatever comes after an add has a greater number than everything
  before it.
* `Readded`, `NoWrap`, `StartsAbove`: an add after an occupant, no increment
  past the bound, and every occupant of a vacant place above its predecessors.
* `ascending_iff`: a run is ascending exactly when, if something is added again,
  no number wraps and every new occupant starts above its predecessors.
-/

namespace PcieFabric.Incarnation

open Machine

/-- What one step does to the number of the occupant: nothing, the occupant
leaves, its number is incremented below the bound, or a vacant place gets an
occupant with the number that is passed. -/
inductive Move (bound : ℕ) (cur add : Option ℕ) (inc : Prop) (cur' : Option ℕ) : Prop where
  | kept (hadd : add = none) (hinc : ¬ inc) (h : cur' = cur)
  | left (hadd : add = none) (hinc : ¬ inc) (h : cur' = none)
  | incremented (g : ℕ) (hcur : cur = some g) (hinc : inc) (h : cur' = some ((g + 1) % bound))
  | started (g : ℕ) (hcur : cur = none) (hadd : add = some g) (hinc : ¬ inc) (h : cur' = some g)

section Runs

variable {σ ι : Type*} (step : σ → ι → σ) (cur : σ → Option ℕ) (add : σ → ι → Option ℕ)
  (inc : σ → ι → Prop) (bound : ℕ)

/-- An occupant that is there after an add has a greater number than one that
was there before it. -/
def Ascending (s : σ) (inputs : List ι) : Prop :=
  ∀ pre mid, pre ++ mid <+: inputs → ∀ g g', cur (run step s pre) = some g →
    SomeStep step (fun s i => (add s i).isSome) (run step s pre) mid →
    cur (run step s (pre ++ mid)) = some g' → g < g'

/-- Something is added where there was an occupant, now or before. -/
def Readded (s : σ) (inputs : List ι) : Prop :=
  ∃ pre i, pre ++ [i] <+: inputs ∧ (add (run step s pre) i).isSome ∧
    ∃ earlier, earlier <+: pre ∧ (cur (run step s earlier)).isSome

/-- No number is incremented past the bound. -/
def NoWrap (s : σ) (inputs : List ι) : Prop :=
  ∀ pre i, pre ++ [i] <+: inputs → inc (run step s pre) i →
    cur (run step s pre) ≠ some (bound - 1)

/-- Whatever is added to a vacant place has a greater number than every occupant
before it. -/
def StartsAbove (s : σ) (inputs : List ι) : Prop :=
  ∀ pre i, pre ++ [i] <+: inputs → cur (run step s pre) = none →
    ∀ g', add (run step s pre) i = some g' →
      ∀ earlier, earlier <+: pre → ∀ g, cur (run step s earlier) = some g → g < g'

variable {step cur add inc bound} {s : σ} {inputs : List ι}

/-- An add at the end of a run is an add in it. -/
lemma someStep_of_last {P : σ → ι → Prop} {mid : List ι} {i : ι}
    (h : P (run step s mid) i) : SomeStep step P s (mid ++ [i]) :=
  (someStep_append_singleton step).mpr (.inr h)

/-- Every step of every run from `s` is a move. -/
def Moves (step : σ → ι → σ) (cur : σ → Option ℕ) (add : σ → ι → Option ℕ)
    (inc : σ → ι → Prop) (bound : ℕ) (s : σ) : Prop :=
  ∀ pre i, Move bound (cur (run step s pre)) (add (run step s pre) i)
    (inc (run step s pre) i) (cur (run step s (pre ++ [i])))

/-- Without wraps, and with every new occupant above its predecessors, the
numbers never fall, and rise at an add. -/
lemma le_and_lt_of_add (hmoves : Moves step cur add inc bound s)
    (hbound : ∀ pre g, cur (run step s pre) = some g → g < bound)
    (hwrap : NoWrap step cur inc bound s inputs) (habove : StartsAbove step cur add s inputs)
    {pre mid : List ι} (hpre : pre ++ mid <+: inputs) {g g' : ℕ}
    (hg : cur (run step s pre) = some g) (hg' : cur (run step s (pre ++ mid)) = some g') :
    g ≤ g' ∧ (SomeStep step (fun s i => (add s i).isSome) (run step s pre) mid → g < g') := by
  induction mid using List.reverseRecOn generalizing g' with
  | nil =>
      rw [List.append_nil, hg] at hg'
      obtain rfl := Option.some.inj hg'
      refine ⟨le_rfl, ?_⟩
      rintro ⟨mid, i, hnil, -⟩
      exact absurd (List.prefix_nil.mp hnil) (List.append_ne_nil_of_right_ne_nil mid (by simp))
  | append_singleton mid i ih =>
      rw [← List.append_assoc] at hpre hg'
      have hearlier : pre ++ mid <+: inputs := (List.prefix_append _ [i]).trans hpre
      cases hmoves (pre ++ mid) i with
      | kept hadd hinc h =>
          rw [h] at hg'
          obtain ⟨hle, hlt⟩ := ih hearlier hg'
          refine ⟨hle, fun hsome => ?_⟩
          rcases (someStep_append_singleton step).mp hsome with hmid | hlast
          · exact hlt hmid
          · rw [← run_append, hadd] at hlast
            cases hlast
      | left hadd hinc h =>
          rw [h] at hg'
          cases hg'
      | incremented c hcur hinc h =>
          obtain ⟨hle, -⟩ := ih hearlier hcur
          have hlt := hbound _ c hcur
          have hne : c ≠ bound - 1 := fun heq => hwrap _ i hpre hinc (heq ▸ hcur)
          rw [h, Nat.mod_eq_of_lt (by omega)] at hg'
          obtain rfl := Option.some.inj hg'
          exact ⟨by omega, fun _ => by omega⟩
      | started c hcur hadd hinc h =>
          rw [h] at hg'
          obtain rfl := Option.some.inj hg'
          have hlt := habove _ i hpre hcur c hadd pre (List.prefix_append pre mid) g hg
          exact ⟨hlt.le, fun _ => hlt⟩

/-- After an add there is an occupant. -/
lemma exists_cur_of_add (hmoves : Moves step cur add inc bound s) {pre : List ι} {i : ι}
    (hadd : (add (run step s pre) i).isSome) : ∃ g, cur (run step s (pre ++ [i])) = some g := by
  cases hmoves pre i with
  | kept hnone | left hnone =>
      rw [hnone] at hadd
      cases hadd
  | incremented c _ _ h => exact ⟨_, h⟩
  | started c _ _ _ h => exact ⟨c, h⟩

/-- An increment of the greatest number gives 0. -/
lemma cur_eq_zero_of_wrap (hmoves : Moves step cur add inc bound s) (hpos : 0 < bound)
    {pre : List ι} {i : ι} (hinc : inc (run step s pre) i)
    (hlast : cur (run step s pre) = some (bound - 1)) :
    cur (run step s (pre ++ [i])) = some 0 := by
  cases hmoves pre i with
  | kept _ hnot | left _ hnot | started _ _ _ hnot => exact absurd hinc hnot
  | incremented c hcur _ h =>
      rw [hlast] at hcur
      obtain rfl := Option.some.inj hcur
      rw [h, Nat.sub_add_cancel hpos, Nat.mod_self]

/-- In an ascending run with something added again, no number wraps. Before that
add, the greatest number would be below what the add leaves; after it, what was
there before the add would be below 0. -/
lemma Ascending.noWrap (h : Ascending step cur add s inputs)
    (hmoves : Moves step cur add inc bound s)
    (hbound : ∀ pre g, cur (run step s pre) = some g → g < bound)
    (hreadded : Readded step cur add s inputs) : NoWrap step cur inc bound s inputs := by
  intro wrap j hwrap hinc hlast
  obtain ⟨pre, i, hpre, hadd, earlier, ⟨mid, rfl⟩, hoccupied⟩ := hreadded
  rcases prefix_or_append_singleton hwrap hpre with ⟨rest, hrest⟩ | ⟨rest, rfl⟩
  · obtain ⟨g, hg⟩ := exists_cur_of_add hmoves hadd
    rw [← hrest] at hpre hadd hg
    rw [run_append] at hadd
    rw [List.append_assoc] at hpre hg
    have hlt := h wrap (rest ++ [i]) hpre _ g hlast (someStep_of_last hadd) hg
    have hle := hbound _ g hg
    omega
  · have hpos : 0 < bound := (Nat.zero_le _).trans_lt (hbound _ _ hlast)
    have hzero := cur_eq_zero_of_wrap hmoves hpos hinc hlast
    obtain ⟨g, hg⟩ := Option.isSome_iff_exists.mp hoccupied
    rw [run_append] at hadd
    simp only [List.append_assoc] at hwrap hzero
    have hsome : SomeStep step (fun s i => (add s i).isSome) (run step s earlier)
        (mid ++ ([i] ++ (rest ++ [j]))) :=
      ⟨mid, i, List.prefix_append_right_inj mid |>.mpr (List.prefix_append [i] _), hadd⟩
    exact absurd (h earlier _ hwrap g 0 hg hsome hzero) (Nat.not_lt_zero g)

/-- In an ascending run every new occupant starts above its predecessors. -/
lemma Ascending.startsAbove (h : Ascending step cur add s inputs)
    (hmoves : Moves step cur add inc bound s) : StartsAbove step cur add s inputs := by
  rintro pre i hpre hvacant g' hadd earlier ⟨mid, rfl⟩ g hg
  have hg' : cur (run step s (earlier ++ mid ++ [i])) = some g' := by
    cases hmoves (earlier ++ mid) i with
    | kept hnone | left hnone =>
        rw [hnone] at hadd
        cases hadd
    | incremented c hcur =>
        rw [hvacant] at hcur
        cases hcur
    | started c _ hc _ hstart => rw [hstart, ← hc, hadd]
  rw [List.append_assoc] at hpre hg'
  rw [run_append] at hadd
  exact h earlier (mid ++ [i]) hpre g g' hg
    (someStep_of_last (Option.isSome_of_eq_some hadd)) hg'

/-- **Ascent, exactly**: nothing is added again, or no number wraps and every
new occupant starts above its predecessors. -/
theorem ascending_iff (hmoves : Moves step cur add inc bound s)
    (hbound : ∀ pre g, cur (run step s pre) = some g → g < bound) :
    Ascending step cur add s inputs ↔ (Readded step cur add s inputs →
      NoWrap step cur inc bound s inputs ∧ StartsAbove step cur add s inputs) := by
  constructor
  · exact fun h hreadded => ⟨h.noWrap hmoves hbound hreadded, h.startsAbove hmoves⟩
  · intro h pre mid hpre g g' hg hsome hg'
    have hreadded : Readded step cur add s inputs := by
      obtain ⟨rest, i, hrest, hadd⟩ := hsome
      rw [← run_append] at hadd
      refine ⟨pre ++ rest, i, ?_, hadd, pre, List.prefix_append pre rest,
        Option.isSome_of_eq_some hg⟩
      rw [List.append_assoc]
      exact ((List.prefix_append_right_inj pre).mpr hrest).trans hpre
    obtain ⟨hwrap, habove⟩ := h hreadded
    exact (le_and_lt_of_add hmoves hbound hwrap habove hpre hg hg').2 hsome

end Runs

end PcieFabric.Incarnation
