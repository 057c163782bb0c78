import PcieFabric.Lib.MapSum
import PcieFabric.Persist.FileImage
import PcieFabric.Runtime.Authority
import PcieFabric.Runtime.Evidence
import PcieFabric.Selection.Recoded

/-!
What a runtime answers (`Runtime::select` over the paths that `build_paths` and `load`
store).

* `Stores`: a property of every stored path; `stores_run`: what built paths and paths of a
  file have, and the updates keep.
* `answers_of_run`: every answer meets the specification of the selector.
* `capabilities_never_served`: no stored path has a capability.
* `Plain`, `answer_without_loads`: without loads contention never counts.
* `FreshAnswer`, `select_after_build`, `one_direction_served`: the answers right after a
  build.
-/

namespace PcieFabric.Runtime

open Machine MapWrites PathSelector Std

/-! ### What every stored path lacks -/

/-- A property of every stored path. -/
def Stores (P : Path → Prop) (rt : Runtime) : Prop :=
  ∀ (id : PathId) p, rt.paths[id]? = some p → P p

/-- Calls keep a property that built paths have and the updates keep. -/
lemma Stores.step {P : Path → Prop} {rt : Runtime} (h : rt.Stores P)
    (hbuilt : ∀ id src dst, P (rt.currentPath id src dst))
    (hupdate : ∀ f, PathUpdate rt f → ∀ p, P p → P (f p)) (c : RuntimeCall) :
    (rt.step c).Stores P := by
  intro id p hget
  by_cases hc : c = .buildPaths
  · subst hc
    change rt.buildPaths.paths[id]? = some p at hget
    rw [getElem?_buildPaths] at hget
    cases hassigned : assigned rt.topology id with
    | none =>
        rw [hassigned] at hget
        exact h id p hget
    | some e =>
        rw [hassigned] at hget
        exact Option.some.inj hget ▸ hbuilt id e.1 e.2
  · obtain ⟨f, hf, hmap⟩ := rt.paths_step hc
    rw [hmap] at hget
    obtain ⟨q, hq, rfl⟩ := Option.map_eq_some_iff.mp hget
    exact hupdate f hf q (h id q hq)

/-- A loaded path is a path of the file, downgraded. -/
lemma stored_of_load {rt : Runtime} {fs : Persist.Files} {path : String} {beyond : Nat → UInt8}
    {id : PathId} {p : Path} (hget : (rt.load fs path beyond).2.paths[id]? = some p) :
    rt.paths[id]? = some p ∨ ∃ snap q, Persist.load fs path beyond = .ok snap ∧
      q ∈ snap.paths ∧ p = q.revalidate := by
  unfold load loadSnapshot at hget
  cases hload : Persist.load fs path beyond with
  | error e =>
      rw [hload] at hget
      exact .inl hget
  | ok snap =>
      rw [hload] at hget
      obtain ⟨hmem, -⟩ := mem_of_loadedPaths hget
      obtain ⟨q, hq, rfl⟩ := List.mem_map.mp hmem
      exact .inr ⟨snap, q, rfl, hq, rfl⟩

/-- A path of a file is what the decoder makes of its fields. -/
lemma image_of_load {fs : Persist.Files} {path : String} {beyond : Nat → UInt8} {snap : Snapshot}
    (h : Persist.load fs path beyond = .ok snap) :
    ∀ q ∈ snap.paths, ∃ j : Persist.PathImage, q = j.toPath := by
  rw [Persist.load] at h
  cases hfile : fs.get path with
  | none =>
      rw [hfile] at h
      cases h
  | some data =>
      rw [hfile] at h
      obtain ⟨len, crc, -, -, hdec⟩ := Persist.loadData_ok_iff.mp h
      obtain ⟨i, -, -, -, rfl⟩ := Persist.deserialize_ok_iff.mp hdec
      intro q hq
      obtain ⟨j, -, rfl⟩ := List.mem_map.mp (show q ∈ i.paths.map Persist.PathImage.toPath from hq)
      exact ⟨j, rfl⟩

/-- In every run with loads the stored paths have a property that built paths have, the
updates keep and the paths of a file have. -/
lemma stores_run {P : Path → Prop}
    (hbuilt : ∀ (rt : Runtime) id src dst, P (rt.currentPath id src dst))
    (hupdate : ∀ (rt : Runtime) f, PathUpdate rt f → ∀ p, P p → P (f p))
    (hload : ∀ j : Persist.PathImage, P j.toPath.revalidate) (events : List RuntimeEvent) :
    (run react {} events).Stores P := by
  refine run_invariant react (fun rt e h => ?_) (fun id p hget => ?_) events
  · cases e with
    | call c => exact h.step (hbuilt rt) (hupdate rt) c
    | load fs path beyond =>
        intro id p hget
        rcases stored_of_load hget with hold | ⟨snap, q, hsnap, hq, rfl⟩
        · exact h id p hold
        · obtain ⟨j, rfl⟩ := image_of_load hsnap q hq
          exact hload j
  · rw [show ({} : Runtime).paths = ∅ from rfl, ExtTreeMap.getElem?_empty] at hget
    cases hget

/-- The path has no capability. -/
def Bare (p : Path) : Prop := p.caps = ∅

/-- In every run with loads the stored paths are bare: a file does not carry capabilities. -/
lemma bare_run (events : List RuntimeEvent) : (run react {} events).Stores Bare := by
  refine stores_run (fun _ _ _ _ => rfl) (fun rt f hf p hp => ?_) (fun j => ?_) events
  · cases hf with
    | unchanged | aged => exact hp
    | measured =>
        rcases rt.attachMeasured_cases p with heq | ⟨m, -, heq⟩
        · rwa [heq]
        · rw [heq]
          exact hp
  · rw [Bare, Path.revalidate]
    split <;> rfl

/-- The confidence of the path is a number. -/
def Weighed (p : Path) : Prop := p.confidence.value.val.isFinite = true

/-- In every run with loads the stored paths are weighed. -/
lemma weighed_run (events : List RuntimeEvent) : (run react {} events).Stores Weighed := by
  refine stores_run (fun rt id src dst => ?_) (fun rt f hf p hp => ?_) (fun j => ?_) events
  · change (Double.ofFloat 0.5).val.isFinite = true
    decide +kernel
  · cases hf with
    | unchanged | aged => exact hp
    | measured =>
        rcases rt.attachMeasured_cases p with heq | ⟨m, -, heq⟩
        · rwa [heq]
        · rw [heq]
          exact hp
  · have hbyte := Confidence.isFinite_of_isValid (Confidence.isValid_ofByte j.confidence)
    rw [Weighed, Path.revalidate]
    split <;> exact hbyte

/-! ### Every answer -/

/-- Paths that are stored under their own id have distinct ids. -/
lemma StoredById.nodup_candidates {rt : Runtime} (h : rt.StoredById) (src dst : PciNodeId) :
    ((rt.candidates src dst).map Path.id).Nodup :=
  (MapSum.nodup_values rt.paths h).sublist (List.filter_sublist.map Path.id)

/-- **Every answer meets its specification**, at every moment of a run with loads and for
every request. -/
theorem answers_of_run (events : List RuntimeEvent) (req : SelectionRequest) :
    Answers ((run react {} events).candidates req.source req.destination) req
      ((run react {} events).select req) := by
  have hids := (storedById_run events).nodup_candidates req.source req.destination
  have hweighed := weighed_run events
  generalize run react {} events = rt at hids hweighed
  have hconf : ∀ p ∈ rt.candidates req.source req.destination,
      p.confidence.value.val.isFinite = true := by
    intro p hp
    obtain ⟨⟨id, hget⟩, -⟩ := mem_candidates_iff.mp hp
    exact hweighed id p hget
  rw [Runtime.select]
  rcases select_cases (rt.candidates req.source req.destination) req with
    ⟨hnone, heq⟩ | ⟨best, rest, hsort, heq⟩
  · rw [heq]
    exact answers_refuse (sifted_buckets _ req) hnone
  · rw [heq]
    exact answers_choose _ (orderedBy_ranksBefore req hids hconf) hconf hsort

/-- **Capabilities are never served.** At no moment of a run, with loads, does a request that
requires a capability get a path, or is it told to wait: nothing gives a path of the runtime
a capability, and a file does not carry them. -/
theorem capabilities_never_served (events : List RuntimeEvent) (req : SelectionRequest)
    (hreq : req.requiredCapabilities ≠ []) :
    ((run react {} events).select req).selected = none ∧
      ((run react {} events).select req).decision = Decision.reject := by
  have hbare := bare_run events
  generalize run react {} events = rt at hbare
  have hnot : ∀ p ∈ rt.candidates req.source req.destination, ¬ req.Supports p := by
    intro p hp hsupports
    obtain ⟨⟨id, hget⟩, -⟩ := mem_candidates_iff.mp hp
    obtain ⟨c, hc⟩ := List.exists_mem_of_ne_nil _ hreq
    have hmem := hsupports c hc
    rw [hbare id p hget] at hmem
    exact absurd hmem (Finset.notMem_empty c)
  obtain ⟨hsel, hdec⟩ := PathSelector.select_of_none fun p hp hadm => hnot p hp hadm.1.2.1
  refine ⟨hsel, hdec.trans (if_neg ?_)⟩
  rintro ⟨p, hp, hsat⟩
  exact hnot p hp hsat.1.2.1

/-- A request for `PEER_ACCESS` between two cards with a path. -/
theorem peer_access_refused :
    ((run react {} (twoCards ++ [.call .buildPaths])).select
      { source := ⟨1⟩, destination := ⟨2⟩, requiredCapabilities := [⟨0⟩] }).selected = none ∧
    ((run react {} (twoCards ++ [.call .buildPaths])).select
      { source := ⟨1⟩, destination := ⟨2⟩, requiredCapabilities := [⟨0⟩] }).decision =
        Decision.reject :=
  capabilities_never_served _ _ (by decide)

/-! ### Runs without loads -/

/-- What a path that was built and never saved lacks: contention, and an envelope; its
locality is never across NUMA nodes. -/
structure Plain (p : Path) : Prop where
  contention : p.contention = ContentionState.unknown
  theoretical : p.theoretical = none
  locality : p.locality ≠ LocalityClass.crossNuma

/-- The hierarchy gives no pair of nodes the locality across NUMA nodes. -/
lemma locality_ne_crossNuma (t : Topology) (a b : PciNodeId) :
    t.locality a b ≠ LocalityClass.crossNuma := by
  rw [Topology.locality]
  split
  · decide
  · split
    · decide
    · split
      · decide
      · split_ifs <;> decide

/-- A path that is just built is plain. -/
lemma plain_currentPath (rt : Runtime) (id : PathId) (src dst : PciNodeId) :
    Plain (rt.currentPath id src dst) :=
  ⟨rfl, rfl, locality_ne_crossNuma _ _ _⟩

/-- The one penalty of a plain path is that of the remote root. -/
lemma Plain.penalty_iff {p : Path} (h : Plain p) :
    (p.contention = ContentionState.moderate ∨ p.contention = ContentionState.high) ∨
        p.locality = LocalityClass.crossNuma ∨ p.locality = LocalityClass.sameHostRemoteRoot ↔
      p.locality = LocalityClass.sameHostRemoteRoot := by
  have hmoderate : ContentionState.unknown ≠ ContentionState.moderate := by decide
  have hhigh : ContentionState.unknown ≠ ContentionState.high := by decide
  simp only [h.contention, h.locality, hmoderate, hhigh, false_or]

/-- A run of calls stores plain paths. -/
lemma plain_run (calls : List RuntimeCall) :
    (run react {} (calls.map RuntimeEvent.call)).Stores Plain := by
  refine run_invariant_mem react (fun rt e h he => ?_) (fun id p hget => ?_) fun e he => he
  · obtain ⟨c, -, rfl⟩ := List.mem_map.mp he
    refine h.step rt.plain_currentPath (fun f hf p hp => ?_) c
    cases hf with
    | unchanged => exact hp
    | aged => exact ⟨hp.contention, hp.theoretical, hp.locality⟩
    | measured =>
        rcases rt.attachMeasured_cases p with heq | ⟨m, -, heq⟩
        · rwa [heq]
        · rw [heq]
          exact ⟨hp.contention, hp.theoretical, hp.locality⟩
  · rw [show ({} : Runtime).paths = ∅ from rfl, ExtTreeMap.getElem?_empty] at hget
    cases hget

/-- The request may get the stored path: it requires no capability, and the path joins its
nodes, carries its authority and is `CURRENT` or `AGING`. -/
structure Usable (rt : Runtime) (req : SelectionRequest) (p : Path) : Prop where
  stored : rt.paths[p.id]? = some p
  source : p.source = req.source
  destination : p.destination = req.destination
  capabilities : req.requiredCapabilities = []
  authorizes : req.Authorizes p
  fresh : p.Fresh

/-- Usable paths are the admissible candidates of a runtime with plain, bare paths. -/
lemma usable_iff {rt : Runtime} (hid : rt.StoredById) (hbare : rt.Stores Bare)
    (hplain : rt.Stores Plain) {req : SelectionRequest} {p : Path} :
    rt.Usable req p ↔ p ∈ rt.candidates req.source req.destination ∧ req.Admissible p := by
  rw [mem_candidates_iff]
  constructor
  · intro h
    refine ⟨⟨⟨p.id, h.stored⟩, h.source, h.destination⟩, ⟨h.authorizes, ?_, h.fresh⟩, ?_⟩
    · rw [SelectionRequest.Supports, h.capabilities]
      simp
    · rw [(hplain p.id p h.stored).contention]
      decide
  · rintro ⟨⟨⟨id, hget⟩, hsrc, hdst⟩, ⟨hauth, hsupports, hfresh⟩, -⟩
    refine ⟨by rwa [hid id p hget], hsrc, hdst, ?_, hauth, hfresh⟩
    refine List.eq_nil_iff_forall_not_mem.mpr fun c hc => ?_
    have hmem := hsupports c hc
    rw [hbare id p hget] at hmem
    exact absurd hmem (Finset.notMem_empty c)

/-- What a request is answered while no file was loaded: a usable path if there is one, with
a penalty exactly if its locality is the remote root, and else a rejection. It is never told
to wait. -/
structure PlainAnswer (rt : Runtime) (req : SelectionRequest) (d : SelectionDecision) : Prop where
  selected : ∀ id, d.selected = some id → ∃ p, p.id = id ∧ rt.Usable req p ∧
    d.locality = p.locality ∧ d.measured = p.bestMeasured ∧ d.theoretical = none ∧
    (d.decision = Decision.usePathWithPenalty ↔ p.locality = LocalityClass.sameHostRemoteRoot) ∧
    (d.decision = Decision.usePath ↔ p.locality ≠ LocalityClass.sameHostRemoteRoot)
  selected_iff : d.selected.isSome ↔ ∃ p, rt.Usable req p
  reject_iff : d.decision = Decision.reject ↔ ¬ ∃ p, rt.Usable req p
  never_defer : d.decision ≠ Decision.defer

/-- **Answers without loads.** At every moment of a run of calls a request gets a path
exactly if one is usable, and it is rejected exactly if none is: contention never counts, and
the one penalty is that of the remote root. -/
theorem answer_without_loads (calls : List RuntimeCall) (req : SelectionRequest) :
    (run react {} (calls.map RuntimeEvent.call)).PlainAnswer req
      ((run react {} (calls.map RuntimeEvent.call)).select req) := by
  have hanswers := answers_of_run (calls.map RuntimeEvent.call) req
  have hplain := plain_run calls
  have husable : ∀ p, _ ↔ p ∈ _ ∧ req.Admissible p := fun p =>
    usable_iff (storedById_run _) (bare_run (calls.map RuntimeEvent.call)) hplain
  generalize run react {} (calls.map RuntimeEvent.call) = rt at hanswers hplain husable
  have hstored : ∀ p ∈ rt.candidates req.source req.destination, Plain p := by
    intro p hp
    obtain ⟨⟨id, hget⟩, -⟩ := mem_candidates_iff.mp hp
    exact hplain id p hget
  have hunsaturated : ¬ ∃ p ∈ rt.candidates req.source req.destination, req.Saturated p := by
    rintro ⟨p, hp, -, hsat⟩
    rw [(hstored p hp).contention] at hsat
    exact absurd hsat (by decide)
  have hexists : (∃ p, rt.Usable req p) ↔
      ∃ p ∈ rt.candidates req.source req.destination, req.Admissible p :=
    exists_congr husable
  constructor
  · intro id hid
    obtain ⟨b, hb, rfl, hadm, -, hloc, htheo, hmeas, -, -, hpenalty, huse⟩ :=
      hanswers.best id hid
    exact ⟨b, rfl, (husable b).mpr ⟨hb, hadm⟩, hloc, hmeas, htheo.trans (hstored b hb).theoretical,
      hpenalty.trans (hstored b hb).penalty_iff, huse.trans (not_congr (hstored b hb).penalty_iff)⟩
  · rw [hexists]
    exact hanswers.selected_iff
  · rw [hexists, hanswers.reject_iff]
    exact and_iff_left hunsaturated
  · exact fun hdefer => hunsaturated (hanswers.defer_iff.mp hdefer).2

/-! ### Right after a build -/

variable {rt : Runtime}

/-- The candidates right after an exact build are the paths that the build made from the one
node to the other. -/
lemma Separated.mem_candidates_iff (h : rt.Separated) {src dst : PciNodeId} {p : Path} :
    p ∈ rt.buildPaths.candidates src dst ↔
      ∃ id, (id, src, dst) ∈ assignments rt.topology ∧ p = rt.currentPath id src dst := by
  have hexact := (holdsExactly_iff rt).mpr h
  rw [Runtime.mem_candidates_iff]
  constructor
  · rintro ⟨⟨id, hget⟩, rfl, rfl⟩
    obtain ⟨s, d, ha, rfl⟩ := mem_built_iff.mp ((hexact id p).mp hget)
    exact ⟨id, ha, rfl⟩
  · rintro ⟨id, ha, rfl⟩
    exact ⟨⟨id, (hexact id _).mpr (mem_built_iff.mpr ⟨src, dst, ha, rfl⟩)⟩, rfl, rfl⟩

/-- An exact build stores each path under its own id. -/
lemma Separated.storedById (h : rt.Separated) : rt.buildPaths.StoredById := by
  intro id p hget
  obtain ⟨s, d, -, rfl⟩ := mem_built_iff.mp (((holdsExactly_iff rt).mpr h id p).mp hget)
  rfl

/-- At most one path was built from the one node to the other. -/
lemma Separated.candidates_eq (h : rt.Separated) {src dst : PciNodeId} {id : PathId}
    (ha : (id, src, dst) ∈ assignments rt.topology) :
    rt.buildPaths.candidates src dst = [rt.currentPath id src dst] := by
  have hnodup := (h.storedById.nodup_candidates src dst).of_map
  refine List.perm_singleton.mp ((List.perm_ext_iff_of_nodup hnodup (List.nodup_singleton _)).mpr
    fun p => ?_)
  rw [h.mem_candidates_iff, List.mem_singleton]
  constructor
  · rintro ⟨id', ha', rfl⟩
    rw [(assignment_eq ha' ha (.inl ⟨rfl, rfl⟩)).1]
  · rintro rfl
    exact ⟨id, ha, rfl⟩

/-- The request may get a path that is just built if it requires no capability and carries
the authority of the runtime. -/
lemma admissible_currentPath_iff {req : SelectionRequest} {id : PathId} {src dst : PciNodeId} :
    req.Admissible (rt.currentPath id src dst) ↔
      req.requiredCapabilities = [] ∧ req.epoch = rt.epoch ∧ req.boot = rt.boot := by
  have hfresh : (rt.currentPath id src dst).Fresh := .inl rfl
  have hcontention : (rt.currentPath id src dst).contention ≠ ContentionState.saturated := by
    change ContentionState.unknown ≠ ContentionState.saturated
    decide
  constructor
  · rintro ⟨⟨⟨hepoch, hboot⟩, hsupports, -⟩, -⟩
    refine ⟨List.eq_nil_iff_forall_not_mem.mpr fun c hc => ?_, hepoch.symm, hboot.symm⟩
    exact absurd (hsupports c hc) (Finset.notMem_empty c)
  · rintro ⟨hcaps, hepoch, hboot⟩
    refine ⟨⟨⟨hepoch.symm, hboot.symm⟩, fun c hc => ?_, hfresh⟩, hcontention⟩
    rw [hcaps] at hc
    cases hc

/-- What a request is answered right after a build: the path that the build made from its
source to its destination, if it requires no capability and carries the authority of the
runtime, and else a rejection. Nothing is measured yet and there is no alternative. -/
structure FreshAnswer (rt : Runtime) (req : SelectionRequest) (d : SelectionDecision) : Prop where
  selected_iff : ∀ id, d.selected = some id ↔
    (id, req.source, req.destination) ∈ assignments rt.topology ∧
      req.requiredCapabilities = [] ∧ req.epoch = rt.epoch ∧ req.boot = rt.boot
  decision : d.decision = if d.selected.isNone then Decision.reject
    else if rt.topology.locality req.source req.destination = LocalityClass.sameHostRemoteRoot
    then Decision.usePathWithPenalty else Decision.usePath
  locality : d.selected.isSome → d.locality = rt.topology.locality req.source req.destination
  alternatives : d.alternatives = []
  measured : d.measured = none
  theoretical : d.theoretical = none

/-- The request for a path between two nodes under the authority of the runtime. -/
def ownRequest (rt : Runtime) (src dst : PciNodeId) : SelectionRequest where
  source := src
  destination := dst
  epoch := rt.epoch
  boot := rt.boot

/-- A request right after an exact build: it is refused and nothing is deferred, or it gets
the one path that was built for it. -/
lemma Separated.select_cases (h : rt.Separated) (req : SelectionRequest) :
    ∃ b : Buckets, b.deferred = [] ∧
      ((∀ id, (id, req.source, req.destination) ∈ assignments rt.topology →
          ¬ req.Admissible (rt.currentPath id req.source req.destination)) ∧
        rt.buildPaths.select req = refuse b ∨
      ∃ id, (id, req.source, req.destination) ∈ assignments rt.topology ∧
        req.Admissible (rt.currentPath id req.source req.destination) ∧
        rt.buildPaths.select req =
          choose b (rt.currentPath id req.source req.destination) []) := by
  have hmem := @Separated.mem_candidates_iff rt h req.source req.destination
  have heq := @Separated.candidates_eq rt h req.source req.destination
  rw [Runtime.select]
  generalize rt.buildPaths.candidates req.source req.destination = cands at hmem heq
  refine ⟨buckets cands req, ?_, ?_⟩
  · rw [(sifted_buckets cands req).deferred, List.filter_eq_nil_iff]
    intro p hp hsat
    obtain ⟨id, -, rfl⟩ := hmem.mp hp
    have hcontention := (of_decide_eq_true hsat).2
    rw [(rt.plain_currentPath id req.source req.destination).contention] at hcontention
    exact absurd hcontention (by decide)
  rcases PathSelector.select_cases cands req with ⟨hnone, hsel⟩ | ⟨best, rest, hsort, hsel⟩
  · exact .inl ⟨fun id ha => hnone _ (hmem.mpr ⟨id, ha, rfl⟩), hsel⟩
  · obtain ⟨hbest, hadm⟩ := admissible_of_sorted hsort
    obtain ⟨id, ha, rfl⟩ := hmem.mp hbest
    have hrest : rest = [] := by
      have hlength := congrArg List.length hsort
      rw [(Ranking.stableSort_perm _ _).length_eq, heq ha, List.length_cons] at hlength
      have hle := List.length_filter_le (fun p => decide (req.Admissible p))
        [rt.currentPath id req.source req.destination]
      rw [List.length_singleton] at hle
      exact List.length_eq_zero_iff.mp (by omega)
    rw [hrest] at hsel
    exact .inr ⟨id, ha, hadm, hsel⟩

/-- The path that a request gets right after an exact build. -/
lemma Separated.selected_iff (h : rt.Separated) (req : SelectionRequest) (id : PathId) :
    (rt.buildPaths.select req).selected = some id ↔
      (id, req.source, req.destination) ∈ assignments rt.topology ∧
        req.requiredCapabilities = [] ∧ req.epoch = rt.epoch ∧ req.boot = rt.boot := by
  obtain ⟨b, hdeferred, ⟨hnone, hsel⟩ | ⟨id', ha, hadm, hsel⟩⟩ := h.select_cases req
  · rw [hsel, refuse, if_pos (List.isEmpty_iff.mpr hdeferred)]
    refine iff_of_false (Option.some_ne_none id).symm ?_
    rintro ⟨ha, hadm⟩
    exact hnone id ha (admissible_currentPath_iff.mpr hadm)
  · rw [hsel]
    constructor
    · intro hid
      obtain rfl : id' = id := Option.some.inj hid
      exact ⟨ha, admissible_currentPath_iff.mp hadm⟩
    · rintro ⟨ha', -⟩
      exact congrArg some (assignment_eq ha ha' (.inl ⟨rfl, rfl⟩)).1

/-- **Answers right after a build** whose ids are separated. -/
theorem select_after_build (h : rt.Separated) (req : SelectionRequest) :
    rt.FreshAnswer req (rt.buildPaths.select req) := by
  have hselected := h.selected_iff req
  obtain ⟨b, hdeferred, ⟨-, hsel⟩ | ⟨id, -, -, hsel⟩⟩ := h.select_cases req
  · rw [refuse, if_pos (List.isEmpty_iff.mpr hdeferred)] at hsel
    rw [hsel] at hselected ⊢
    exact ⟨hselected, rfl, fun hsome => absurd hsome Bool.false_ne_true, rfl, rfl, rfl⟩
  · rw [hsel] at hselected ⊢
    refine ⟨hselected, ?_, fun _ => rfl, congrArg (List.map Path.id) hdeferred, rfl, rfl⟩
    have hpenalized := (rt.plain_currentPath id req.source req.destination).penalty_iff
    rw [or_assoc] at hpenalized
    have hsome : (choose b
        (rt.currentPath id req.source req.destination) []).selected.isNone ≠ true :=
      Bool.false_ne_true
    rw [if_neg hsome]
    exact if_congr (decide_eq_true_iff.trans hpenalized) rfl rfl

/-- Two cards right before their first build. -/
lemma separated_twoCards : (run react {} twoCards).Separated where
  distinct := by
    have hcards : (run react {} twoCards).topology.endpoints = [⟨1⟩, ⟨2⟩] := by decide +kernel
    refine (distinctIds_iff_of_length_le (by rw [hcards]; decide)).mpr fun i j _ _ e he hrc => ?_
    rw [hcards] at he
    rcases List.mem_pair.mp he with rfl | rfl
    · exact absurd hrc (by decide +kernel)
    · exact absurd hrc (by decide +kernel)
  covered id p hget := by
    rw [show (run react {} twoCards).paths = ∅ from rfl, ExtTreeMap.getElem?_empty] at hget
    cases hget

/-- The second of two cards asks for a path to the first. -/
theorem fresh_answer_of_twoCards :
    (run react {} twoCards).FreshAnswer { source := ⟨2⟩, destination := ⟨1⟩ }
      ((run react {} twoCards).buildPaths.select { source := ⟨2⟩, destination := ⟨1⟩ }) :=
  select_after_build separated_twoCards _

/-- **One direction of each pair is served.** Right after a build whose ids are separated, of
two distinct endpoints exactly one gets a path to the other, and no root complex gets a path
to an endpoint below it, though the endpoint gets one to the root complex. -/
theorem one_direction_served (h : rt.Separated) :
    (∀ a ∈ rt.topology.endpoints, ∀ b ∈ rt.topology.endpoints, a ≠ b →
      ((rt.buildPaths.select (rt.ownRequest a b)).selected.isSome ↔
        (rt.buildPaths.select (rt.ownRequest b a)).selected = none)) ∧
    ∀ e ∈ rt.topology.endpoints, ∀ rc, rt.topology.rootComplexOf e = some rc →
      (rt.buildPaths.select (rt.ownRequest e rc)).selected = some (hostId e) ∧
        (rt.buildPaths.select (rt.ownRequest rc e)).selected = none := by
  have hserved : ∀ src dst id,
      (rt.buildPaths.select (rt.ownRequest src dst)).selected = some id ↔
        (id, src, dst) ∈ assignments rt.topology := by
    intro src dst id
    rw [h.selected_iff]
    exact and_iff_left ⟨rfl, rfl, rfl⟩
  have hnever : ∀ {id src dst}, (id, src, dst) ∈ assignments rt.topology → src ≠ dst →
      (rt.buildPaths.select (rt.ownRequest dst src)).selected = none := by
    intro id src dst ha hne
    refine Option.eq_none_iff_forall_ne_some.mpr fun id' hid => ?_
    obtain ⟨-, rfl, -⟩ := assignment_eq ha ((hserved dst src id').mp hid) (.inr ⟨rfl, rfl⟩)
    exact hne rfl
  refine ⟨fun a ha b hb hne => ⟨fun hsome => ?_, fun hnone => ?_⟩, fun e he rc hrc => ?_⟩
  · obtain ⟨id, hid⟩ := Option.isSome_iff_exists.mp hsome
    exact hnever ((hserved a b id).mp hid) hne
  · -- the build made a path between the two, and not from the second
    obtain ⟨id, p, hp, hjoins⟩ := exists_built_pair ha hb hne
    obtain ⟨s, d, hassigned, rfl⟩ := mem_built_iff.mp hp
    rcases hjoins with ⟨hs, hd⟩ | ⟨hs, hd⟩
    · obtain rfl : s = a := hs
      obtain rfl : d = b := hd
      exact Option.isSome_iff_exists.mpr ⟨id, (hserved s d id).mpr hassigned⟩
    · obtain rfl : s = b := hs
      obtain rfl : d = a := hd
      rw [(hserved s d id).mpr hassigned] at hnone
      cases hnone
  · have hassigned : (hostId e, e, rc) ∈ assignments rt.topology :=
      mem_assignments_iff.mpr (.inr ⟨he, hrc, rfl⟩)
    refine ⟨(hserved e rc _).mpr hassigned, hnever hassigned ?_⟩
    rintro rfl
    exact Topology.not_mem_endpoints_of_rootComplexOf hrc he

/-- Of two cards the first gets a path to the second. -/
theorem one_direction_of_twoCards :
    (∀ a ∈ (run react {} twoCards).topology.endpoints,
      ∀ b ∈ (run react {} twoCards).topology.endpoints, a ≠ b →
        (((run react {} twoCards).buildPaths.select
          ((run react {} twoCards).ownRequest a b)).selected.isSome ↔
            ((run react {} twoCards).buildPaths.select
              ((run react {} twoCards).ownRequest b a)).selected = none)) ∧
      (⟨1⟩ : PciNodeId) ∈ (run react {} twoCards).topology.endpoints ∧
      (⟨2⟩ : PciNodeId) ∈ (run react {} twoCards).topology.endpoints :=
  ⟨(one_direction_served separated_twoCards).1, by decide +kernel, by decide +kernel⟩

end PcieFabric.Runtime
