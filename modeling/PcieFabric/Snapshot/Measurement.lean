import PcieFabric.Base.Values

/-!
Measurement records and their store (`measurement.hpp`).

* `Measurement`, `Measurement.throughput`.
* `MeasurementStore.ingest`: a known id is replaced only by a newer generation.
* `MeasurementStore.latest`: the newest measurement of an endpoint pair and a
  transfer class.
-/

namespace PcieFabric

/-- `Measurement`. -/
structure Measurement where
  id : MeasurementId := default
  generation : MeasurementGeneration := default
  source : PciNodeId := default
  destination : PciNodeId := default
  transferClass : TransferClass := TransferClass.unknown
  engine : EngineKind := EngineKind.none
  bytes : TransferBytes := default
  iterations : IterationCount := default
  durationNs : Nanoseconds := default
  latencyNs : Nanoseconds := default
  provenance : Provenance := Provenance.unknown
  path : Option PathId := none
  pathGeneration : Option PathGeneration := none
  syncSemantics : List UInt8 := []
  warmupOps : UInt64 := 0
  backendDetail : List UInt8 := []
  start : EpochMs := default
  finish : EpochMs := default
deriving DecidableEq, Repr

/-- `Measurement::throughput`. -/
def Measurement.throughput (m : Measurement) : BytesPerSecond :=
  let ns := m.durationNs.value.toFloat
  if ns ≤ 0 then ⟨.ofFloat 0.0⟩
  else ⟨.ofFloat (m.bytes.value.toFloat * 1.0e9 / ns)⟩

/-- `MeasurementStore`. -/
structure MeasurementStore where
  entries : IdMap .measurementId Measurement := ∅

namespace MeasurementStore

variable (st : MeasurementStore)

/-- `MeasurementStore::ingest`. -/
def ingest (m : Measurement) : Result Unit × MeasurementStore :=
  match st.entries[m.id]? with
  | some old =>
      if m.generation.value ≤ old.generation.value then
        (.err .staleAuthority "measurement generation not newer", st)
      else (.ok (), { st with entries := st.entries.insert m.id m })
  | none => (.ok (), { st with entries := st.entries.insert m.id m })

/-- `MeasurementStore::latest`: of equal generations the first one stays. -/
def latest (src dst : PciNodeId) (cls : TransferClass) : Option Measurement :=
  (st.entries.toList.map Prod.snd).foldl (fun best m =>
    if m.source = src ∧ m.destination = dst ∧ m.transferClass = cls then
      match best with
      | none => some m
      | some b => if b.generation.value < m.generation.value then some m else best
    else best) none

/-- The measurement is new to the store, or newer than what it holds. -/
def Accepts (m : Measurement) : Prop :=
  ∀ old, st.entries[m.id]? = some old → old.generation.value < m.generation.value

variable {st}

lemma ingest_of_accepts {m : Measurement} (h : st.Accepts m) :
    st.ingest m = (.ok (), { st with entries := st.entries.insert m.id m }) := by
  cases hget : st.entries[m.id]? with
  | none => simp only [ingest, hget]
  | some old =>
      have hnot : ¬ m.generation.value ≤ old.generation.value := UInt64.not_le.mpr (h old hget)
      simp only [ingest, hget, if_neg hnot]

lemma ingest_of_not_accepts {m : Measurement} (h : ¬ st.Accepts m) :
    ∃ e, st.ingest m = (.error e, st) := by
  cases hget : st.entries[m.id]? with
  | none => exact absurd (fun old hold => by rw [hget] at hold; cases hold) h
  | some old =>
      have hle : m.generation.value ≤ old.generation.value := by
        by_contra hnot
        refine h fun old' hold => ?_
        rw [hget] at hold
        cases hold
        exact UInt64.not_le.mp hnot
      exact ⟨_, by simp only [ingest, hget, if_pos hle]; rfl⟩

/-- A measurement that is accepted is new or newer, so the store changes. -/
lemma insert_ne_of_accepts {m : Measurement} (h : st.Accepts m) :
    ({ entries := st.entries.insert m.id m } : MeasurementStore) ≠ st := by
  intro heq
  have hget : st.entries[m.id]? = some m := by
    rw [← heq]
    exact Std.ExtTreeMap.getElem?_insert_self
  exact absurd (h m hget) (UInt64.lt_irrefl _)

end MeasurementStore

end PcieFabric
