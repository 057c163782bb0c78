import PcieFabric.Lib.Component
import PcieFabric.Runtime.Aging
import PcieFabric.Runtime.Numbering
import PcieFabric.Runtime.RecoveredState
import PcieFabric.Snapshot.Ingestion

/-!
The evidence behind the measured bandwidth of a path (`runtime.hpp`).

* `Measurement.filed`: the measurement as `ingest_measurement` stores it.
  `Runtime.evidence`: the store as a component of the runtime; `measurements_of_run`
  says that it holds what was ingested.
* `Backs`: the measurement of the store that `refresh_measured` takes for a pair of
  nodes; `attachMeasured_cases` is the loop body on it.
* `evidence_of_run`: in every run the measured bandwidth of a path is the throughput of
  a measurement of exactly its nodes that was ingested before, or was read from a file.
-/

namespace PcieFabric

open Machine Std

/-- The measurement as `Runtime::ingest_measurement` stores it. -/
def Measurement.filed (m : Measurement) : Measurement :=
  { m with path := some ⟨0⟩, pathGeneration := some ⟨0⟩ }

namespace Runtime

/-! ### The store of measurements -/

/-- The store of measurements changes by the calls of `ingest_measurement`. -/
def evidence : Component react fun st m => (MeasurementStore.ingest st m).2 where
  part rt := rt.measurements
  call _ e :=
    match e with
    | .call (.ingestMeasurement m) => some m.filed
    | _ => none
  part_step rt e := by
    cases e with
    | load fs path beyond =>
        change (rt.loadSnapshot (Persist.load fs path beyond)).2.measurements = rt.measurements
        unfold loadSnapshot
        split <;> rfl
    | call c =>
        cases c with
        | setAuthority | buildPaths | select | release | refreshMeasured | ageFreshness => rfl
        | addEndpoint id bdf kind gen prov parent =>
            obtain ⟨topology, seq, h⟩ := rt.step_addEndpoint id bdf kind gen prov parent
            rw [react, h]
            rfl
        | discoverWindows devices =>
            obtain ⟨topology, seq, h⟩ := rt.step_discoverWindows devices
            rw [react, h]
            rfl
        | reserve req =>
            obtain ⟨seq, h⟩ := rt.step_reserve req
            rw [react, h]
            rfl
        | ingestMeasurement m =>
            change (rt.ingestMeasurement m).2.measurements = (rt.measurements.ingest m.filed).2
            unfold ingestMeasurement
            split <;> next h => exact (congrArg Prod.snd h).symm

/-- The store holds what was ingested. -/
lemma measurements_of_run (events : List RuntimeEvent) :
    ∀ (id : MeasurementId) m, (run react {} events).measurements.entries[id]? = some m →
      ∃ m₀, RuntimeEvent.call (.ingestMeasurement m₀) ∈ events ∧ m = m₀.filed := by
  refine run_history react (I := fun past rt => ∀ (id : MeasurementId) m,
    rt.measurements.entries[id]? = some m →
      ∃ m₀, RuntimeEvent.call (.ingestMeasurement m₀) ∈ past ∧ m = m₀.filed) ?_
    (fun past e ih id m hget => ?_) events
  · intro id m hget
    rw [show ({} : Runtime).measurements.entries = ∅ from rfl, ExtTreeMap.getElem?_empty] at hget
    cases hget
  · have hpart := evidence.part_step (run react {} past) e
    have hold : (run react {} past).measurements.entries[id]? = some m →
        ∃ m₀, RuntimeEvent.call (.ingestMeasurement m₀) ∈ past ++ [e] ∧ m = m₀.filed := by
      intro h
      obtain ⟨m₀, hm₀, heq⟩ := ih id m h
      exact ⟨m₀, List.mem_append_left _ hm₀, heq⟩
    change (evidence.part ((run react {} past).react e)).entries[id]? = some m at hget
    rw [hpart] at hget
    cases hcall : evidence.call (run react {} past) e with
    | none =>
        rw [hcall] at hget
        exact hold hget
    | some filed =>
        rw [hcall, Option.elim_some, MeasurementStore.getElem?_ingest] at hget
        split_ifs at hget
        · rcases Newest.keep_eq_some_iff.mp hget with ⟨hkept, -⟩ | ⟨rfl, -⟩
          · exact hold hkept
          · -- the measurement that this event ingests
            cases e with
            | load => cases hcall
            | call c =>
                cases c with
                | ingestMeasurement m₀ =>
                    exact ⟨m₀, by simp, (Option.some.inj hcall).symm⟩
                | _ => cases hcall
        · exact hold hget

/-! ### The measurement behind a path -/

/-- The measurement of the store that counts for the pair of nodes: one between exactly
these nodes from pinned memory, or from pageable memory if there is none from pinned
memory, and none of its class is newer. -/
structure Backs (st : MeasurementStore) (m : Measurement) (src dst : PciNodeId) : Prop where
  stored : ∃ id : MeasurementId, st.entries[id]? = some m
  source : m.source = src
  destination : m.destination = dst
  transferClass : m.transferClass = TransferClass.pinnedH2d ∨
    m.transferClass = TransferClass.pageableH2d ∧ ∀ (id : MeasurementId) x,
      st.entries[id]? = some x →
        ¬ MeasurementStore.Matches src dst TransferClass.pinnedH2d x
  newest : ∀ (id : MeasurementId) x, st.entries[id]? = some x →
    MeasurementStore.Matches src dst m.transferClass x → x.generation.value ≤ m.generation.value

/-- A measurement that `latest` finds, of the class it was asked for. -/
lemma backs_of_latest {st : MeasurementStore} {src dst : PciNodeId} {cls : TransferClass}
    {m : Measurement} (h : st.latest src dst cls = some m)
    (hcls : cls = TransferClass.pinnedH2d ∨ cls = TransferClass.pageableH2d ∧
      st.latest src dst TransferClass.pinnedH2d = none) : Backs st m src dst := by
  obtain ⟨hstored, ⟨hsrc, hdst, rfl⟩, hnewest⟩ := MeasurementStore.latest_spec h
  exact ⟨hstored, hsrc, hdst, hcls.imp_right (And.imp_right MeasurementStore.latest_eq_none_iff.mp),
    hnewest⟩

/-- **The loop body of `refresh_measured`**: it attaches the throughput of the measurement
that counts for the nodes of the path, or leaves the path. -/
lemma attachMeasured_cases (rt : Runtime) (p : Path) : rt.attachMeasured p = p ∨
    ∃ m, Backs rt.measurements m p.source p.destination ∧ rt.attachMeasured p =
      { p with bestMeasured := some m.throughput, measuredProvenance := Provenance.measured } := by
  rw [attachMeasured]
  cases hpinned : rt.measurements.latest p.source p.destination TransferClass.pinnedH2d with
  | some m => exact .inr ⟨m, backs_of_latest hpinned (.inl rfl), rfl⟩
  | none =>
      cases hpageable : rt.measurements.latest p.source p.destination
          TransferClass.pageableH2d with
      | some m => exact .inr ⟨m, backs_of_latest hpageable (.inr ⟨rfl, hpinned⟩), rfl⟩
      | none => exact .inl rfl

/-! ### The evidence of a run -/

/-- The event puts another path under the id: a build that gives out the id, or a load. -/
def Replaces (id : PathId) (rt : Runtime) : RuntimeEvent → Prop
  | .call .buildPaths => (assigned rt.topology id).isSome
  | .load fs path beyond => (rt.load fs path beyond).1.isOk
  | _ => False

/-- A refresh of the run attached the bandwidth: it is the throughput of the measurement that
counted for the nodes of the path at that moment, which was ingested before, and the path
has not been replaced since. -/
def Attached (events : List RuntimeEvent) (id : PathId) (p : Path) (bps : BytesPerSecond) : Prop :=
  ∃ pre post m₀, events = pre ++ .call .refreshMeasured :: post ∧
    RuntimeEvent.call (.ingestMeasurement m₀) ∈ pre ∧
    Backs (run react {} pre).measurements m₀.filed p.source p.destination ∧
    bps = m₀.throughput ∧ p.measuredProvenance = Provenance.measured ∧
    ¬ SomeStep react (Replaces id) (run react {} (pre ++ [.call .refreshMeasured])) post

/-- A load of the run read the bandwidth from the file, with its provenance, on a path with
the same id and nodes, and the path has not been replaced since. -/
def Recorded (events : List RuntimeEvent) (id : PathId) (p : Path) (bps : BytesPerSecond) : Prop :=
  ∃ pre fs path beyond post snap q, events = pre ++ .load fs path beyond :: post ∧
    Persist.load fs path beyond = .ok snap ∧ q ∈ snap.paths ∧ q.id = id ∧
    q.source = p.source ∧ q.destination = p.destination ∧ q.bestMeasured = some bps ∧
    q.measuredProvenance = p.measuredProvenance ∧
    ¬ SomeStep react (Replaces id) (run react {} (pre ++ [.load fs path beyond])) post

/-- The bandwidth has a source. -/
def Evident (events : List RuntimeEvent) (id : PathId) (p : Path) (bps : BytesPerSecond) : Prop :=
  Attached events id p bps ∨ Recorded events id p bps

variable {events : List RuntimeEvent} {id : PathId} {p q : Path} {bps : BytesPerSecond}

/-- The source speaks of the nodes and the provenance of the path alone. -/
lemma Evident.congr (h : Evident events id q bps) (hsource : p.source = q.source)
    (hdestination : p.destination = q.destination)
    (hprovenance : p.measuredProvenance = q.measuredProvenance) : Evident events id p bps := by
  rw [Evident, Attached, Recorded] at h ⊢
  rwa [hsource, hdestination, hprovenance]

/-- An event that does not replace the path leaves its source. -/
lemma Evident.append_singleton (h : Evident events id p bps) {e : RuntimeEvent}
    (he : ¬ Replaces id (run react {} events) e) : Evident (events ++ [e]) id p bps := by
  rcases h with ⟨pre, post, m₀, rfl, hm₀, hbacks, hbps, hprov, hkept⟩ |
    ⟨pre, fs, path, beyond, post, snap, q, rfl, hload, hq, hid, hsrc, hdst, hbps, hprov, hkept⟩
  · refine .inl ⟨pre, post ++ [e], m₀, by simp, hm₀, hbacks, hbps, hprov, ?_⟩
    rw [someStep_append_singleton, not_or, ← run_append, List.append_assoc]
    exact ⟨hkept, he⟩
  · refine .inr ⟨pre, fs, path, beyond, post ++ [e], snap, q, by simp, hload, hq, hid, hsrc, hdst,
      hbps, hprov, ?_⟩
    rw [someStep_append_singleton, not_or, ← run_append, List.append_assoc]
    exact ⟨hkept, he⟩

/-- A run without steps has no step with a property. -/
lemma not_someStep_nil {P : Runtime → RuntimeEvent → Prop} {rt : Runtime} :
    ¬ SomeStep react P rt [] := by
  rintro ⟨pre, e, hpre, -⟩
  simp at hpre

/-- A refresh is the source of what it attaches. -/
lemma evident_of_refresh {rt : Runtime} (hrun : run react {} events = rt)
    (hbps : (rt.attachMeasured q).bestMeasured = some bps)
    (hold : q.bestMeasured = some bps → Evident events id q bps) :
    Evident (events ++ [.call .refreshMeasured]) id (rt.attachMeasured q) bps := by
  rcases rt.attachMeasured_cases q with hsame | ⟨m, hbacks, hattach⟩
  · rw [hsame] at hbps ⊢
    exact (hold hbps).append_singleton not_false
  · rw [hattach] at hbps ⊢
    obtain ⟨mid, hget⟩ := hbacks.stored
    subst hrun
    obtain ⟨m₀, hm₀, rfl⟩ := measurements_of_run events mid m hget
    exact .inl ⟨events, [], m₀, rfl, hm₀, hbacks, (Option.some.inj hbps).symm, rfl,
      not_someStep_nil⟩

/-- A load is the source of what it reads. -/
lemma evident_of_load {fs : Persist.Files} {path : String} {beyond : Nat → UInt8}
    (hget : ((run react {} events).load fs path beyond).2.paths[id]? = some p)
    (hbps : p.bestMeasured = some bps)
    (hold : (run react {} events).paths[id]? = some p → Evident events id p bps) :
    Evident (events ++ [.load fs path beyond]) id p bps := by
  unfold load loadSnapshot at hget
  cases hload : Persist.load fs path beyond with
  | error e =>
      rw [hload] at hget
      refine (hold hget).append_singleton fun h => ?_
      change ((run react {} events).load fs path beyond).1.isOk = true at h
      unfold load loadSnapshot at h
      rw [hload] at h
      cases h
  | ok snap =>
      rw [hload] at hget
      obtain ⟨hmem, hid⟩ := mem_of_loadedPaths hget
      obtain ⟨q, hq, rfl⟩ := List.mem_map.mp hmem
      have hsame : q.revalidate = { q with freshness := q.revalidate.freshness } := by
        rw [Path.revalidate]
        split <;> rfl
      rw [hsame] at hbps hid ⊢
      exact .inr ⟨events, fs, path, beyond, [], snap, q, rfl, hload, hq, hid, rfl, rfl, hbps, rfl,
        not_someStep_nil⟩

/-- **Every measured bandwidth has a source.** At every moment of a run with loads, a path
that shows a measured bandwidth shows the throughput of a measurement of exactly its
source and destination, ingested before the refresh that attached it and the newest of
its class then, or what a loaded file said of the path under its id; and the path is the
same since. -/
theorem evidence_of_run (events : List RuntimeEvent) (id : PathId) (p : Path)
    (hget : (run react {} events).paths[id]? = some p) (bps : BytesPerSecond)
    (hbps : p.bestMeasured = some bps) : Evident events id p bps := by
  revert id p bps
  refine run_history react (I := fun past rt => ∀ (id : PathId) p, rt.paths[id]? = some p →
    ∀ bps, p.bestMeasured = some bps → Evident past id p bps) ?_ (fun past e ih => ?_) events
  · intro id p hget
    rw [show ({} : Runtime).paths = ∅ from rfl, ExtTreeMap.getElem?_empty] at hget
    cases hget
  intro id p hget bps hbps
  cases e with
  | load fs path beyond => exact evident_of_load hget hbps fun h => ih id p h bps hbps
  | call c =>
      by_cases hc : c = .buildPaths
      · subst hc
        change (run react {} past).buildPaths.paths[id]? = some p at hget
        rw [getElem?_buildPaths] at hget
        cases hassigned : assigned (run react {} past).topology id with
        | some e =>
            -- a path that was just built shows no bandwidth
            rw [hassigned] at hget
            obtain rfl := Option.some.inj hget
            cases hbps
        | none =>
            rw [hassigned] at hget
            refine (ih id p hget bps hbps).append_singleton fun h => ?_
            rw [Replaces, hassigned] at h
            cases h
      · change ((run react {} past).step c).paths[id]? = some p at hget
        rw [getElem?_step _ hc] at hget
        obtain ⟨q, hq, rfl⟩ := Option.map_eq_some_iff.mp hget
        cases c with
        | buildPaths => exact absurd rfl hc
        | refreshMeasured => exact evident_of_refresh rfl hbps (ih id q hq bps)
        | ageFreshness =>
            refine Evident.congr ((ih id q hq bps hbps).append_singleton ?_) rfl rfl rfl
            exact not_false
        | _ => exact (ih id _ hq bps hbps).append_singleton not_false

/-- One mebibyte from card 1 to card 2, out of pinned memory. -/
def cardMeasurement : Measurement where
  id := ⟨1⟩
  generation := ⟨1⟩
  source := ⟨1⟩
  destination := ⟨2⟩
  transferClass := TransferClass.pinnedH2d
  bytes := ⟨1048576⟩
  durationNs := ⟨100000⟩

/-- The path between two cards shows what was measured between them. -/
theorem evidence_of_cards :
    let events := twoCards ++
      [.call .buildPaths, .call (.ingestMeasurement cardMeasurement), .call .refreshMeasured]
    ∃ p, (run react {} events).paths[(⟨2⟩ : PathId)]? = some p ∧
      Evident events ⟨2⟩ p cardMeasurement.throughput := by
  intro events
  have hshown : ((run react {} events).paths[(⟨2⟩ : PathId)]?).map Path.bestMeasured =
      some (some cardMeasurement.throughput) := by decide +kernel
  obtain ⟨p, hget, hbps⟩ := Option.map_eq_some_iff.mp hshown
  exact ⟨p, hget, evidence_of_run events ⟨2⟩ p hget _ hbps⟩

end Runtime

end PcieFabric
