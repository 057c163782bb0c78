import PcieFabric.Runtime.Numbering

/-!
What a path id means over the run of a runtime.

* `ends`: the nodes that the path under an id joins. `ends_step` says what a
  call other than `build_paths` does to it, `ends_buildPaths` what `build_paths`
  does.
* `generation_of_run`: every stored path has generation 1.
* `KeepsNumbers`: a call gives no id a new meaning; `keepsNumbers_rebuild` is the
  case of a build on an unchanged hierarchy.
* `stablePathIds_iff` settles when an id of one generation keeps its meaning
  over the run.
-/

namespace PcieFabric.Runtime

open Machine MapWrites

/-- The source and destination of the path under the id. -/
def ends (rt : Runtime) (id : PathId) : Option (PciNodeId × PciNodeId) :=
  (rt.paths[id]?).map fun p => (p.source, p.destination)

/-! ### One call -/

/-- The change leaves the generation and the nodes of every path alone. -/
def KeepsIdentity (f : Path → Path) : Prop :=
  ∀ p, (f p).source = p.source ∧ (f p).destination = p.destination ∧
    (f p).generation = p.generation

lemma PathUpdate.keepsIdentity {rt : Runtime} {f : Path → Path} (h : PathUpdate rt f) :
    KeepsIdentity f := by
  intro p
  cases h with
  | unchanged | aged => exact ⟨rfl, rfl, rfl⟩
  | measured =>
      unfold attachMeasured
      dsimp only
      split <;> exact ⟨rfl, rfl, rfl⟩

/-- Only `build_paths` changes what an id means. -/
lemma ends_step (rt : Runtime) {c : RuntimeCall} (hc : c ≠ .buildPaths) (id : PathId) :
    (rt.step c).ends id = rt.ends id := by
  obtain ⟨f, hf, hget⟩ := paths_step rt hc
  rw [ends, ends, hget, Option.map_map]
  congr 1
  funext p
  rw [Function.comp_apply, (hf.keepsIdentity p).1, (hf.keepsIdentity p).2.1]

/-- After `build_paths` an id means what it was assigned last, or what it meant. -/
lemma ends_buildPaths (rt : Runtime) (id : PathId) :
    rt.buildPaths.ends id = (assigned rt.topology id).or (rt.ends id) := by
  rw [ends, getElem?_buildPaths, Option.map_or, Option.map_map]
  congr 1
  exact Option.map_id'

/-- Every stored path is of generation 1. -/
lemma generation_of_run (calls : List RuntimeCall) {id : PathId} {p : Path}
    (hget : (run step {} calls).paths[id]? = some p) : p.generation = ⟨1⟩ := by
  refine run_invariant step (I := fun rt : Runtime =>
    ∀ (id : PathId) p, rt.paths[id]? = some p → p.generation = ⟨1⟩)
    (fun rt c hrt id p hget => ?_) (fun id p hget => ?_) calls id p hget
  · by_cases hc : c = .buildPaths
    · subst hc
      change rt.buildPaths.paths[id]? = some p at hget
      rw [getElem?_buildPaths, Option.or_eq_some_iff, Option.map_eq_some_iff] at hget
      rcases hget with ⟨e, -, rfl⟩ | ⟨-, hold⟩
      · rfl
      · exact hrt id p hold
    · obtain ⟨f, hf, hmap⟩ := paths_step rt hc
      rw [hmap, Option.map_eq_some_iff] at hget
      obtain ⟨q, hq, rfl⟩ := hget
      rw [(hf.keepsIdentity q).2.2, hrt id q hq]
  · rw [show ({} : Runtime).paths = ∅ from rfl, Std.ExtTreeMap.getElem?_empty] at hget
    cases hget

/-! ### Path identity over a run -/

/-- An id means the same pair at any two moments of the run at which it has the
same generation. -/
def StablePathIds (calls : List RuntimeCall) : Prop :=
  ∀ pre mid post, calls = pre ++ mid ++ post → ∀ (id : PathId) p q,
    (run step {} pre).paths[id]? = some p → (run step {} (pre ++ mid)).paths[id]? = some q →
    p.generation = q.generation → (p.source, p.destination) = (q.source, q.destination)

/-- If the call is `build_paths`, then every id of the map that the numbering of
the current endpoints gives out again is given to the nodes it stands for. -/
def KeepsNumbers (rt : Runtime) (c : RuntimeCall) : Prop :=
  c = .buildPaths → ∀ id e e', rt.ends id = some e → assigned rt.topology id = some e' → e' = e

/-- **A second build** on the same hierarchy keeps the numbers. -/
theorem keepsNumbers_rebuild (rt : Runtime) : rt.buildPaths.KeepsNumbers .buildPaths := by
  intro _ id e e' hends hassigned
  have hagain : assigned rt.topology id = some e' := hassigned
  rw [ends_buildPaths, hagain, Option.some_or] at hends
  exact Option.some.inj hends

/-- The call changes the meaning of no id. -/
def KeepsEnds (rt : Runtime) (c : RuntimeCall) : Prop :=
  ∀ id e, rt.ends id = some e → (rt.step c).ends id = some e

/-- **One call** changes the meaning of no id exactly when it keeps the numbers. -/
lemma keepsEnds_iff (rt : Runtime) (c : RuntimeCall) :
    rt.KeepsEnds c ↔ rt.KeepsNumbers c := by
  constructor
  · rintro h rfl id e e' hends hassigned
    have hafter : rt.buildPaths.ends id = some e := h id e hends
    rw [ends_buildPaths, hassigned, Option.some_or] at hafter
    exact Option.some.inj hafter
  · intro h id e hends
    by_cases hc : c = .buildPaths
    · subst hc
      show rt.buildPaths.ends id = some e
      rw [ends_buildPaths]
      cases hassigned : assigned rt.topology id with
      | none => rw [Option.none_or, hends]
      | some e' => rw [Option.some_or, h rfl id e e' hends hassigned]
    · rw [ends_step rt hc, hends]

/-- Over a run of calls that change no meaning, an id keeps its meaning. -/
lemma ends_run {rt : Runtime} {calls : List RuntimeCall} (h : AllSteps step KeepsEnds rt calls)
    {id : PathId} {e : PciNodeId × PciNodeId} (hends : rt.ends id = some e) :
    (run step rt calls).ends id = some e :=
  run_invariant_of step (I := fun rt : Runtime => rt.ends id = some e)
    (fun _ _ hrt hkeeps => hkeeps id e hrt) hends h

/-- **Path identity, exactly.** Over a run of a runtime a path id of one
generation keeps its source and destination, if and only if every `build_paths`
of the run that gives out an id of the map again gives it to the same nodes. -/
theorem stablePathIds_iff (calls : List RuntimeCall) :
    StablePathIds calls ↔ AllSteps step KeepsNumbers {} calls := by
  rw [← allSteps_congr step (I := fun _ => True) (P := KeepsEnds)
    (fun rt c _ => keepsEnds_iff rt c) (fun _ _ _ _ => trivial) trivial]
  constructor
  · intro h
    refine (allSteps_iff step).mpr fun pre c post heq id e hends => ?_
    have hstable := h pre [c] post (by simp [heq]) id
    simp only [run_append, run_cons, run_nil] at hstable
    obtain ⟨p, hp, rfl⟩ := Option.map_eq_some_iff.mp hends
    -- a call drops no path, so the id still means something
    have hafter : ∃ q, ((run step {} pre).step c).paths[id]? = some q := by
      by_cases hc : c = .buildPaths
      · subst hc
        show ∃ q, (run step {} pre).buildPaths.paths[id]? = some q
        rw [getElem?_buildPaths, hp]
        cases assigned (run step {} pre).topology id with
        | none => exact ⟨p, rfl⟩
        | some e => exact ⟨_, rfl⟩
      · obtain ⟨f, -, hget⟩ := paths_step (run step {} pre) hc
        exact ⟨f p, by rw [hget, hp, Option.map_some]⟩
    obtain ⟨q, hq⟩ := hafter
    have hgen : p.generation = q.generation := by
      have hrun : (run step {} (pre ++ [c])).paths[id]? = some q := by
        rw [run_append]
        exact hq
      rw [generation_of_run pre hp, generation_of_run (pre ++ [c]) hrun]
    rw [ends, hq, Option.map_some, hstable p q hp hq hgen]
  · intro h pre mid post heq id p q hp hq _
    rw [heq, List.append_assoc, allSteps_append, allSteps_append] at h
    have hbefore : (run step {} pre).ends id = some (p.source, p.destination) := by
      rw [ends, hp, Option.map_some]
    have hafter := ends_run h.2.1 hbefore
    rw [← run_append, ends, hq, Option.map_some] at hafter
    exact (Option.some.inj hafter).symm

/-- The cards on bus 2 and 3 have path 2. A card that appears on bus 1 moves
them, and path 2 joins the cards on bus 1 and 2. -/
theorem path_id_reused :
    ¬ StablePathIds [addNic 2, addNic 3, .buildPaths, addNic 1, .buildPaths] := by
  intro h
  have hstable := h [addNic 2, addNic 3, .buildPaths] [addNic 1, .buildPaths] [] rfl ⟨2⟩
  have hbefore : (run step {} [addNic 2, addNic 3, .buildPaths]).ends ⟨2⟩ =
      some (⟨2⟩, ⟨3⟩) := by
    decide +kernel
  have hafter : (run step {} [addNic 2, addNic 3, .buildPaths, addNic 1, .buildPaths]).ends ⟨2⟩ =
      some (⟨1⟩, ⟨2⟩) := by
    decide +kernel
  obtain ⟨p, hp, hpe⟩ := Option.map_eq_some_iff.mp hbefore
  obtain ⟨q, hq, hqe⟩ := Option.map_eq_some_iff.mp hafter
  have hgen : p.generation = q.generation := by
    rw [generation_of_run _ hp, generation_of_run _ hq]
  have hsame := hstable p q hp hq hgen
  rw [hpe, hqe] at hsame
  exact absurd hsame (by decide)

end PcieFabric.Runtime
