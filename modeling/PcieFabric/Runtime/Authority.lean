import PcieFabric.Reservation.Releasable
import PcieFabric.Runtime.Numbering
import PcieFabric.Runtime.RecoveredState

/-!
The authority of a runtime against its paths and its reservations.

* `StoredById`: each path is stored under its own id, at every moment of a run.
* `select_fenced_iff` settles when a selected path carries the authority of the
  runtime.
* `KeepsReleasable`: what an event must not do while reservations are active;
  `noStranded_iff` settles when every active reservation can be released.
-/

namespace PcieFabric.Runtime

open Machine MapWrites ReservationRegistry

/-! ### Selection -/

/-- Each path is stored under its own id. -/
def StoredById (rt : Runtime) : Prop :=
  ∀ (id : PathId) p, rt.paths[id]? = some p → p.id = id

lemma PathUpdate.id_eq {rt : Runtime} {f : Path → Path} (h : PathUpdate rt f) (p : Path) :
    (f p).id = p.id := by
  cases h with
  | unchanged | aged => rfl
  | measured =>
      unfold attachMeasured
      dsimp only
      split <;> rfl

/-- Every event stores paths under their own id. -/
lemma StoredById.react {rt : Runtime} (h : rt.StoredById) (e : RuntimeEvent) :
    (rt.react e).StoredById := by
  intro id p hget
  cases e with
  | call c =>
      by_cases hc : c = .buildPaths
      · subst hc
        change rt.buildPaths.paths[id]? = some p at hget
        rw [getElem?_buildPaths, Option.or_eq_some_iff, Option.map_eq_some_iff] at hget
        rcases hget with ⟨e, -, rfl⟩ | ⟨-, hold⟩
        · rfl
        · exact h id p hold
      · obtain ⟨f, hf, hmap⟩ := paths_step rt hc
        change (rt.step c).paths[id]? = some p at hget
        rw [hmap, Option.map_eq_some_iff] at hget
        obtain ⟨q, hq, rfl⟩ := hget
        rw [hf.id_eq, h id q hq]
  | load fs path beyond =>
      change (rt.loadSnapshot (Persist.load fs path beyond)).2.paths[id]? = some p at hget
      unfold loadSnapshot at hget
      split at hget
      · exact h id p hget
      · exact (mem_of_loadedPaths hget).2

lemma storedById_run (events : List RuntimeEvent) : (run react {} events).StoredById := by
  refine run_invariant react (fun _ e h => h.react e) (fun id p hget => ?_) events
  rw [show ({} : Runtime).paths = ∅ from rfl, Std.ExtTreeMap.getElem?_empty] at hget
  cases hget

/-- A selected path carries the epoch and boot of the runtime. -/
def Fenced (rt : Runtime) (req : SelectionRequest) : Prop :=
  ∀ id, (rt.select req).selected = some id →
    ∃ p, rt.paths[id]? = some p ∧ p.epoch = rt.epoch ∧ p.boot = rt.boot

/-- **Fencing of selection, exactly.** At every moment of a run a request gets
only paths of the runtime's authority, if and only if the request carries that
authority itself, or no stored path between its endpoints is admissible. -/
theorem select_fenced_iff (events : List RuntimeEvent) (req : SelectionRequest) :
    (run react {} events).Fenced req ↔
      (req.epoch = (run react {} events).epoch ∧ req.boot = (run react {} events).boot) ∨
        ∀ p ∈ (run react {} events).candidates req.source req.destination,
          ¬ req.Admissible p := by
  have hkeyed := storedById_run events
  generalize run react {} events = rt at hkeyed
  have hstored : ∀ p ∈ rt.candidates req.source req.destination, rt.paths[p.id]? = some p := by
    intro p hp
    obtain ⟨⟨id, hget⟩, -⟩ := mem_candidates_iff.mp hp
    rw [hkeyed id p hget, hget]
  unfold Fenced
  rcases PathSelector.selected_cases (rt.candidates req.source req.destination) req with
    ⟨hnone, hsel⟩ | ⟨b, hb, hadm, hsel⟩
  · refine iff_of_true (fun id hid => ?_) (.inr hnone)
    rw [select, hsel] at hid
    cases hid
  · obtain ⟨hepoch, hboot⟩ := hadm.1.1
    constructor
    · intro h
      obtain ⟨p, hp, hpepoch, hpboot⟩ := h b.id hsel
      rw [hstored b hb] at hp
      cases hp
      exact .inl ⟨hepoch.symm.trans hpepoch, hboot.symm.trans hpboot⟩
    · rintro (⟨hreqepoch, hreqboot⟩ | hnone) id hid
      · rw [select, hsel] at hid
        cases hid
        exact ⟨b, hstored b hb, hepoch.trans hreqepoch, hboot.trans hreqboot⟩
      · exact absurd hadm (hnone b hb)

/-- Two cards and a path built under epoch 1. After the epoch has moved to 2, a
request of epoch 1 is still given that path. -/
theorem superseded_path_selected :
    ¬ (run react {} [.call (.setAuthority ⟨1⟩ ⟨1⟩ ⟨1⟩ 1), .call (addNic 1), .call (addNic 2),
        .call .buildPaths, .call (.setAuthority ⟨2⟩ ⟨1⟩ ⟨1⟩ 1)]).Fenced
      { source := ⟨1⟩, destination := ⟨2⟩, epoch := ⟨1⟩, boot := ⟨1⟩ } := by
  intro h
  obtain ⟨p, hp, hepoch, -⟩ := h ⟨2⟩ (by decide +kernel)
  have hold := congrArg (Option.map Path.epoch) hp
  rw [Option.map_some, hepoch] at hold
  exact absurd hold (by decide +kernel)

/-! ### Reservations -/

/-- Every active reservation can be released. -/
def NoStranded (rt : Runtime) : Prop :=
  ∀ (id : ReservationId) r, rt.reservations.reservations[id]? = some r → r.active = true →
    (rt.release r.id r.generation).1.isOk

/-- An accepted reservation carries the authority of the runtime, and its exact
total fits 64 bits; the authority changes only while nothing is active. -/
def KeepsReleasable (rt : Runtime) : RuntimeEvent → Prop
  | .call (.reserve req) => rt.reservations.Admits req →
      (req.boot = rt.boot ∧ req.epoch = rt.epoch) ∧
        rt.reservations.activeBytes req.path + req.bytes.value.toNat < 2 ^ 64
  | .call (.setAuthority epoch boot _ _) =>
      (boot = rt.boot ∧ epoch = rt.epoch) ∨ rt.reservations.NoActive
  | .load fs path beyond => ∀ s, Persist.load fs path beyond = .ok s →
      s.epoch = rt.epoch ∨ rt.reservations.NoActive
  | _ => True

/-- The runtime's authority holds every active reservation. -/
def Holds (rt : Runtime) : Prop := rt.reservations.HeldUnder rt.boot rt.epoch

lemma Holds.noStranded {rt : Runtime} (h : rt.Holds) : rt.NoStranded :=
  fun _ _ hget hact => h.release_isOk hget hact

/-- Only `set_authority` changes the authority among the calls. -/
lemma authority_step (rt : Runtime) {c : RuntimeCall}
    (hc : ∀ epoch boot host hostGen, c ≠ .setAuthority epoch boot host hostGen) :
    (rt.step c).boot = rt.boot ∧ (rt.step c).epoch = rt.epoch := by
  cases c with
  | setAuthority epoch boot host hostGen => exact absurd rfl (hc epoch boot host hostGen)
  | buildPaths | select | release | refreshMeasured | ageFreshness => exact ⟨rfl, rfl⟩
  | addEndpoint id bdf kind gen prov parent =>
      obtain ⟨topology, seq, h⟩ := rt.step_addEndpoint id bdf kind gen prov parent
      exact h ▸ ⟨rfl, rfl⟩
  | discoverWindows devices =>
      obtain ⟨topology, seq, h⟩ := rt.step_discoverWindows devices
      exact h ▸ ⟨rfl, rfl⟩
  | ingestMeasurement m =>
      obtain ⟨measurements, seq, h⟩ := rt.step_ingestMeasurement m
      exact h ▸ ⟨rfl, rfl⟩
  | reserve req =>
      obtain ⟨seq, h⟩ := rt.step_reserve req
      exact h ▸ ⟨rfl, rfl⟩

/-- The registry after a reserve call. -/
lemma reservations_reserve (rt : Runtime) (req : Reservation) :
    (rt.react (.call (.reserve req))).reservations = (rt.reservations.reserve req).2 :=
  reservations_react rt (.call (.reserve req))

/-- An event that leaves the registry and the authority alone. -/
lemma Holds.of_frame {rt rt' : Runtime} (h : rt.Holds) (hres : rt'.reservations = rt.reservations)
    (hauth : rt'.boot = rt.boot ∧ rt'.epoch = rt.epoch) : rt'.Holds := by
  rw [Holds, hres, hauth.1, hauth.2]
  exact h

/-- An event that keeps the reservations releasable keeps the runtime their
holder. -/
lemma Holds.react {rt : Runtime} (h : rt.Holds) {e : RuntimeEvent} (he : rt.KeepsReleasable e) :
    (rt.react e).Holds := by
  cases e with
  | load fs path beyond =>
      change (rt.loadSnapshot (Persist.load fs path beyond)).2.Holds
      cases hsnap : Persist.load fs path beyond with
      | error e => exact h
      | ok s =>
          rcases he s hsnap with hepoch | hnone
          · exact h.of_frame rfl ⟨rfl, hepoch⟩
          · exact HeldUnder.change h hnone rt.boot s.epoch
  | call c =>
      cases c with
      | setAuthority epoch boot host hostGen =>
          rcases he with ⟨hboot, hepoch⟩ | hnone
          · exact h.of_frame rfl ⟨hboot, hepoch⟩
          · exact HeldUnder.change h hnone boot epoch
      | reserve req =>
          have hauth := authority_step rt (c := .reserve req) nofun
          by_cases hadm : rt.reservations.Admits req
          · obtain ⟨⟨hboot, hepoch⟩, hfits⟩ := he hadm
            have hheld := HeldUnder.recordReserve h hadm hboot hepoch hfits
            have hres := reservations_reserve rt req
            rw [ReservationRegistry.reserve_of_admits hadm] at hres
            change HeldUnder _ (rt.step (.reserve req)).boot (rt.step (.reserve req)).epoch
            rw [hres, hauth.1, hauth.2]
            exact hheld
          · obtain ⟨e, hrej⟩ := ReservationRegistry.reserve_of_not_admits hadm
            have hres := reservations_reserve rt req
            rw [hrej] at hres
            exact h.of_frame hres hauth
      | release id gen => exact HeldUnder.release h id rt.boot gen rt.epoch
      | addEndpoint | discoverWindows | buildPaths | select | ingestMeasurement |
        refreshMeasured | ageFreshness =>
          exact h.of_frame (reservations_react rt (.call _)) (authority_step rt nofun)

/-- **One event**: from a runtime that holds its reservations it leaves every
active one releasable exactly when it keeps them so. -/
lemma Holds.noStranded_react_iff {rt : Runtime} (h : rt.Holds) (e : RuntimeEvent) :
    (rt.react e).NoStranded ↔ rt.KeepsReleasable e := by
  refine ⟨fun hnot => ?_, fun he => (h.react he).noStranded⟩
  have hmoved : ∀ rt' : Runtime, rt'.reservations = rt.reservations → rt'.NoStranded →
      (rt'.boot = rt.boot ∧ rt'.epoch = rt.epoch) ∨ rt.reservations.NoActive := by
    intro rt' hres hrt'
    by_contra hcon
    obtain ⟨hne, hactive⟩ := not_or.mp hcon
    refine hactive fun id r hget => ?_
    rw [← Bool.not_eq_true]
    intro hact
    obtain ⟨hboot, hepoch⟩ := HeldUnder.held h id r hget hact
    have hrel := hrt' id r (by rw [hres, hget]) hact
    refine ReservationRegistry.not_release_isOk_of_authority (HeldUnder.keyed h) hget
      (fun hsame => hne ?_) (by rw [← hres]; exact hrel)
    exact ⟨hsame.1.symm.trans hboot, hsame.2.symm.trans hepoch⟩
  cases e with
  | load fs path beyond =>
      intro s hsnap
      have hload : (rt.react (.load fs path beyond)) = (rt.loadSnapshot (.ok s)).2 := by
        change (rt.loadSnapshot (Persist.load fs path beyond)).2 = _
        rw [hsnap]
      rw [hload] at hnot
      exact (hmoved (rt.loadSnapshot (.ok s)).2 rfl hnot).imp_left And.right
  | call c =>
      cases c with
      | setAuthority epoch boot host hostGen =>
          exact hmoved (rt.setAuthority epoch boot host hostGen) rfl hnot
      | reserve req =>
          intro hadm
          have hres := reservations_reserve rt req
          rw [ReservationRegistry.reserve_of_admits hadm] at hres
          have hrel := hnot req.id req.markActive (by rw [hres, getElem?_recordReserve_self])
            (Reservation.active_markActive req)
          change (ReservationRegistry.release _ req.id (rt.step (.reserve req)).boot
            req.generation (rt.step (.reserve req)).epoch).1.isOk at hrel
          rw [(authority_step rt (c := .reserve req) nofun).1,
            (authority_step rt (c := .reserve req) nofun).2, hres] at hrel
          exact (HeldUnder.exact h).of_release_recordReserve hrel
      | release | addEndpoint | discoverWindows | buildPaths | select | ingestMeasurement |
        refreshMeasured | ageFreshness => trivial

/-- **No stranded reservation, exactly.** Over a run every active reservation can
be released at every moment, if and only if every accepted reservation of the
run carries the authority of that moment and fits its total into 64 bits, and
the authority changes only while no reservation is active. -/
theorem noStranded_iff (events : List RuntimeEvent) :
    AllSteps react (fun rt e => (rt.react e).NoStranded) {} events ↔
      AllSteps react KeepsReleasable {} events :=
  allSteps_congr react (I := Holds) (fun _ e h => h.noStranded_react_iff e)
    (fun _ _ h he => h.react he) (show Holds {} from heldUnder_init runtimeLimits _ _)

/-- A reservation, and then a new epoch: its bytes can no longer be returned. -/
theorem reservation_stranded :
    ¬ AllSteps react (fun rt e => (rt.react e).NoStranded) {}
      [.call (.reserve { id := ⟨1⟩, path := ⟨7⟩, bytes := ⟨100⟩ }),
        .call (.setAuthority ⟨1⟩ ⟨0⟩ ⟨1⟩ 1)] := by
  rintro ⟨-, hlast, -⟩
  have hrel := hlast ⟨1⟩ { id := ⟨1⟩, path := ⟨7⟩, bytes := ⟨100⟩, activeFlag := true }
    (by decide +kernel) rfl
  exact absurd hrel (by decide +kernel)

end PcieFabric.Runtime
