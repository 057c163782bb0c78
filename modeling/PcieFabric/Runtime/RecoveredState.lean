import PcieFabric.Lib.MapWrites
import PcieFabric.Reservation.Accounting
import PcieFabric.Runtime.Recovery

/-!
What a runtime is after a load.

* `Unusable`: no stored path is fresh. A load makes it so (`unusable_load`), and
  every event but `build_paths` keeps it (`Unusable.react`), so
  `recovered_paths_not_selected`.
* `recover`: a fresh runtime that has loaded what another one saved. Its
  registry is empty, so `reservations_survive_iff`.
-/

namespace PcieFabric.Runtime

open Machine MapWrites

/-! ### Paths -/

/-- A stored path after a load is one of the snapshot's. -/
lemma mem_of_loadedPaths {ps : List Path} {id : PathId} {p : Path}
    (h : (ps.foldl (fun paths p => paths.insert p.id p) (∅ : IdMap .pathId Path))[id]? = some p) :
    p ∈ ps ∧ p.id = id := by
  have hwrites : ps.foldl (fun paths p => paths.insert p.id p) (∅ : IdMap .pathId Path) =
      (∅ : IdMap .pathId Path).insertMany (ps.map fun p => (p.id, p)) := by
    rw [← foldl_insert, List.foldl_map]
  rw [hwrites, getElem?_insertMany, Std.ExtTreeMap.getElem?_empty, Option.or_none] at h
  obtain ⟨q, hq, heq⟩ := List.mem_map.mp (mem_of_lastWrite h)
  cases heq
  exact ⟨hq, rfl⟩

/-- No stored path is fresh. -/
def Unusable (rt : Runtime) : Prop :=
  ∀ (id : PathId) p, rt.paths[id]? = some p → ¬ p.Fresh

/-- The downgrade leaves no path fresh. -/
lemma not_fresh_revalidate (p : Path) : ¬ p.revalidate.Fresh := by
  have hreq : ¬ (Freshness.revalidationRequired = Freshness.current ∨
      Freshness.revalidationRequired = Freshness.aging) := by decide
  have hinv : ¬ (Freshness.invalid = Freshness.current ∨
      Freshness.invalid = Freshness.aging) := by decide
  unfold Path.revalidate Path.Fresh
  split_ifs with h
  · exact hreq
  · rw [not_not.mp h]
    exact hinv

/-- No update makes a path fresh. -/
lemma PathUpdate.fresh {rt : Runtime} {f : Path → Path} (h : PathUpdate rt f) {p : Path}
    (hp : ¬ p.Fresh) : ¬ (f p).Fresh := by
  cases h with
  | unchanged => exact hp
  | measured =>
      unfold attachMeasured
      dsimp only
      split <;> exact hp
  | aged =>
      obtain ⟨hcur, hage⟩ := not_or.mp hp
      have hstate : (agePath p).freshness.state = p.freshness.state := by
        simp only [agePath, hcur, hage, if_false, false_and]
      rw [Path.Fresh, hstate]
      exact hp

/-- **A load that succeeds leaves no usable path.** -/
lemma unusable_load {rt : Runtime} {fs : Persist.Files} {path : String} {beyond : Nat → UInt8}
    (h : (rt.load fs path beyond).1.isOk) : (rt.load fs path beyond).2.Unusable := by
  unfold load loadSnapshot at h ⊢
  cases hsnap : Persist.load fs path beyond with
  | error e =>
      rw [hsnap] at h
      cases h
  | ok s =>
      intro id p hget
      obtain ⟨hmem, -⟩ := mem_of_loadedPaths hget
      obtain ⟨q, -, rfl⟩ := List.mem_map.mp hmem
      exact not_fresh_revalidate q

/-- Every event but `build_paths` leaves an id without a usable path. -/
lemma not_fresh_react {rt : Runtime} {id : PathId} (h : ∀ p, rt.paths[id]? = some p → ¬ p.Fresh)
    {e : RuntimeEvent} (he : e ≠ .call .buildPaths) :
    ∀ p, (rt.react e).paths[id]? = some p → ¬ p.Fresh := by
  cases e with
  | call c =>
      obtain ⟨f, hf, hget⟩ := paths_step rt fun hc => he (congrArg RuntimeEvent.call hc)
      intro p hp
      change (rt.step c).paths[id]? = some p at hp
      rw [hget] at hp
      obtain ⟨q, hq, rfl⟩ := Option.map_eq_some_iff.mp hp
      exact hf.fresh (h q hq)
  | load fs path beyond =>
      by_cases hok : (rt.load fs path beyond).1.isOk
      · exact unusable_load hok id
      · have hsame : (rt.load fs path beyond).2 = rt := by
          unfold load loadSnapshot at hok ⊢
          cases hsnap : Persist.load fs path beyond with
          | error e => rfl
          | ok s =>
              rw [hsnap] at hok
              exact absurd rfl hok
        change ∀ p, (rt.load fs path beyond).2.paths[id]? = some p → ¬ p.Fresh
        rwa [hsame]

/-- Every event but `build_paths` leaves unusable paths unusable. -/
lemma Unusable.react {rt : Runtime} (h : rt.Unusable) {e : RuntimeEvent}
    (he : e ≠ .call .buildPaths) : (rt.react e).Unusable :=
  fun id => not_fresh_react (h id) he

/-- The candidates of a request are stored paths. -/
lemma mem_candidates_iff {rt : Runtime} {src dst : PciNodeId} {p : Path} :
    p ∈ rt.candidates src dst ↔
      (∃ id : PathId, rt.paths[id]? = some p) ∧ p.source = src ∧ p.destination = dst := by
  rw [candidates, List.mem_filter, decide_eq_true_iff, List.mem_map]
  refine and_congr_left fun _ => ?_
  constructor
  · rintro ⟨⟨id, p⟩, hmem, rfl⟩
    exact ⟨id, Std.ExtTreeMap.mem_toList_iff_getElem?_eq_some.mp hmem⟩
  · rintro ⟨id, hget⟩
    exact ⟨(id, p), Std.ExtTreeMap.mem_toList_iff_getElem?_eq_some.mpr hget, rfl⟩

/-- Unusable paths are not selected. -/
lemma Unusable.selected_eq_none {rt : Runtime} (h : rt.Unusable) (req : SelectionRequest) :
    (rt.select req).selected = none := by
  rcases PathSelector.selected_cases (rt.candidates req.source req.destination) req with
    ⟨-, hsel⟩ | ⟨b, hb, hadm, -⟩
  · exact hsel
  · obtain ⟨⟨id, hget⟩, -⟩ := mem_candidates_iff.mp hb
    exact absurd hadm.1.2.2 (h id b hget)

/-- **Recovered paths are not selected before they are built again**, whatever
the file said about them. -/
theorem recovered_paths_not_selected (before : List RuntimeEvent) (fs : Persist.Files)
    (path : String) (beyond : Nat → UInt8)
    (hload : ((run react {} before).load fs path beyond).1.isOk) (after : List RuntimeEvent)
    (hafter : ∀ e ∈ after, e ≠ .call .buildPaths) (req : SelectionRequest) :
    ((run react {} (before ++ .load fs path beyond :: after)).select req).selected = none := by
  rw [run_append, run_cons]
  exact Unusable.selected_eq_none
    (run_invariant_mem react (fun _ _ h he => h.react he) (unusable_load hload) hafter) req

/-- The files with the snapshot stored as `state`. -/
def savedAs (s : Snapshot) : Persist.Files :=
  FileSystem.put (fun _ => none) "state" (match Persist.serialize s with
    | .ok body => Persist.fileImage body
    | .error _ => [])

/-- A file with a path that claims to be `CURRENT`, loaded and aged once. -/
theorem recovered_current_path_refused :
    ((run react {} ([] ++ .load
        (savedAs { paths := [{ id := ⟨1⟩, freshness := ⟨Freshness.current, 0⟩ }] }) "state"
        (fun _ => 0) :: [.call .ageFreshness])).select {}).selected = none :=
  recovered_paths_not_selected [] _ _ _ (by decide +kernel) [.call .ageFreshness]
    (by rintro e he; cases List.mem_singleton.mp he; nofun) {}

/-! ### Reservations -/

/-- A fresh runtime that has loaded what the runtime saved, where the file gives
back the snapshot that was written. -/
def recover (rt : Runtime) : Runtime := (({} : Runtime).loadSnapshot (.ok rt.snapshot)).2

/-- The recovered runtime has the reserved bytes of every path and the active
reservations. -/
def ReservationsSurvive (rt : Runtime) : Prop :=
  (∀ p, rt.recover.reservations.reservedBytes p = rt.reservations.reservedBytes p) ∧
    ∀ (id : ReservationId) r,
      rt.recover.reservations.reservations[id]? = some r ∧ r.active = true ↔
        rt.reservations.reservations[id]? = some r ∧ r.active = true

/-- Neither the snapshot nor the load has the registry. -/
lemma reservations_recover (rt : Runtime) :
    rt.recover.reservations = { limits := runtimeLimits } := rfl

/-- The totals of the registry stay balanced over a run. -/
lemma balanced_run (events : List RuntimeEvent) :
    (run react {} events).reservations.Balanced := by
  refine run_invariant react (I := fun rt : Runtime => rt.reservations.Balanced)
    (fun rt e h => ?_) (ReservationRegistry.balanced_init _) events
  rw [reservations_react]
  cases rt.registryCall e with
  | none => exact h
  | some call => exact h.step call

/-- **Reservations survive a recovery exactly when there are none**: at every
moment of a run, the recovered runtime has the reserved bytes and the active
reservations if and only if no reservation is active. -/
theorem reservations_survive_iff (events : List RuntimeEvent) :
    (run react {} events).ReservationsSurvive ↔
      ∀ (id : ReservationId) r, (run react {} events).reservations.reservations[id]? = some r →
        r.active = false := by
  have hbal := balanced_run events
  generalize run react {} events = rt at hbal
  rw [ReservationsSurvive, reservations_recover]
  constructor
  · rintro ⟨-, hactive⟩ id r hget
    rw [← Bool.not_eq_true]
    intro hact
    obtain ⟨hempty, -⟩ := (hactive id r).mpr ⟨hget, hact⟩
    rw [Std.ExtTreeMap.getElem?_empty] at hempty
    cases hempty
  · intro hnone
    refine ⟨fun p => ?_, fun id r => ?_⟩
    · have hzero : rt.reservations.activeBytes p = 0 :=
        ReservationRegistry.activeBytes_eq_zero fun id r hget hact => by
          rw [hnone id r hget] at hact
          cases hact
      have hp := hbal p
      rw [hzero] at hp
      exact (UInt64.toNat_inj.mp hp).symm
    · refine iff_of_false ?_ ?_
      · rintro ⟨hempty, -⟩
        rw [Std.ExtTreeMap.getElem?_empty] at hempty
        cases hempty
      · rintro ⟨hget, hact⟩
        rw [hnone id r hget] at hact
        cases hact

/-- One reservation of 100 bytes: the path has 100 reserved bytes before the
restart and none after it. -/
theorem reservation_lost :
    ¬ (run react {} [.call (.reserve { id := ⟨1⟩, path := ⟨7⟩, bytes := ⟨100⟩ })]
      ).ReservationsSurvive := by
  rintro ⟨hbytes, -⟩
  exact absurd (hbytes ⟨7⟩) (by decide +kernel)

end PcieFabric.Runtime
