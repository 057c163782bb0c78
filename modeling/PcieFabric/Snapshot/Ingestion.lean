import PcieFabric.Lib.Newest
import PcieFabric.Snapshot.Measurement

/-!
Measurements that arrive in any order (`measurement.hpp`).

* `ingestAll`: the store after a list of measurements.
* `getElem?_ingestAll`: at every id the store is a register that keeps the newest
  measurement offered to it.
* `latest_spec`, `latest_eq_none_iff`: what `latest` finds.
* `ingestion_converges`: measurements with distinct pairs of id and generation
  leave one store, whatever their order.
-/

namespace PcieFabric.MeasurementStore

open Std Newest

/-- The store after a list of measurements, accepted or not. -/
def ingestAll (st : MeasurementStore) (ms : List Measurement) : MeasurementStore :=
  ms.foldl (fun s m => (s.ingest m).2) st

/-- The rank of a measurement among those with its id. -/
def rank (m : Measurement) : ℕ := m.generation.value.toNat

variable {st : MeasurementStore}

/-- A measurement that is rejected changes nothing. -/
lemma ingest_of_error {m : Measurement} {e : Error} (h : (st.ingest m).1 = .error e) :
    (st.ingest m).2 = st := by
  by_cases hacc : st.Accepts m
  · rw [ingest_of_accepts hacc] at h
    cases h
  · obtain ⟨e', he'⟩ := ingest_of_not_accepts hacc
    rw [he']

/-- What one measurement does at an id. -/
lemma getElem?_ingest (m : Measurement) (id : MeasurementId) :
    (st.ingest m).2.entries[id]? =
      if m.id = id then keep rank st.entries[id]? m else st.entries[id]? := by
  have hle : ∀ old : Measurement,
      m.generation.value ≤ old.generation.value ↔ rank m ≤ rank old :=
    fun old => UInt64.le_iff_toNat_le
  unfold ingest
  by_cases hid : m.id = id
  · subst hid
    rw [if_pos rfl]
    cases hget : st.entries[m.id]? with
    | none => simp [keep]
    | some old =>
        rw [keep]
        simp only [hle]
        split_ifs
        · exact hget
        · exact ExtTreeMap.getElem?_insert_self
  · rw [if_neg hid]
    have hins : (st.entries.insert m.id m)[id]? = st.entries[id]? := by
      rw [ExtTreeMap.getElem?_insert, if_neg (fun h => hid (LawfulEqCmp.compare_eq_iff_eq.mp h))]
    cases st.entries[m.id]? with
    | none => exact hins
    | some old =>
        dsimp only
        split_ifs
        · rfl
        · exact hins

/-- **A register per id**: at an id the store holds the newest of what it held and
of the measurements with that id. -/
lemma getElem?_ingestAll (ms : List Measurement) (id : MeasurementId) :
    (st.ingestAll ms).entries[id]? =
      newest rank st.entries[id]? (ms.filter fun m => m.id = id) := by
  induction ms generalizing st with
  | nil => rfl
  | cons m ms ih =>
      change ((st.ingest m).2.ingestAll ms).entries[id]? = _
      rw [ih, getElem?_ingest]
      by_cases hid : m.id = id
      · rw [if_pos hid, List.filter_cons_of_pos (by simpa using hid), newest_cons]
      · rw [if_neg hid, List.filter_cons_of_neg (by simpa using hid)]

/-- At one id the generations are distinct. -/
lemma pairwise_rank_filter {ms : List Measurement}
    (h : (ms.map fun m => (m.id, m.generation)).Nodup) (id : MeasurementId) :
    (ms.filter fun m => m.id = id).Pairwise fun x y => rank x ≠ rank y := by
  rw [List.nodup_iff_pairwise_ne, List.pairwise_map] at h
  refine (h.filter _).imp_of_mem fun {x y} hx hy hne heq => hne ?_
  have hidx : x.id = id := by simpa using (List.mem_filter.mp hx).2
  have hidy : y.id = id := by simpa using (List.mem_filter.mp hy).2
  have hgen : x.generation = y.generation := by
    cases hgx : x.generation
    cases hgy : y.generation
    rw [rank, rank, hgx, hgy] at heq
    exact congrArg _ (UInt64.toNat_inj.mp heq)
  rw [hidx, hidy, hgen]

/-- What an id holds after a list of measurements: the newest of what it held and
of those in the list, where what it held wins a tie. -/
def HoldsNewest (st final : MeasurementStore) (ms : List Measurement) : Prop :=
  ∀ (id : MeasurementId) (m : Measurement), final.entries[id]? = some m ↔
    (st.entries[id]? = some m ∧
        ∀ x ∈ ms, x.id = id → x.generation.value ≤ m.generation.value) ∨
      m ∈ ms ∧ m.id = id ∧
        (∀ old, st.entries[id]? = some old → old.generation.value < m.generation.value) ∧
        ∀ x ∈ ms, x.id = id → x.generation.value ≤ m.generation.value

lemma holdsNewest_ingestAll {ms : List Measurement}
    (h : (ms.map fun m => (m.id, m.generation)).Nodup) : HoldsNewest st (st.ingestAll ms) ms := by
  intro id m
  rw [getElem?_ingestAll, newest_eq_some_iff (pairwise_rank_filter h id)]
  simp only [List.mem_filter, decide_eq_true_eq, and_imp, and_assoc, rank,
    ← UInt64.le_iff_toNat_le, ← UInt64.lt_iff_toNat_lt]

/-! ### The latest measurement -/

/-- The measurement is of the endpoint pair and the transfer class. -/
def Matches (src dst : PciNodeId) (cls : TransferClass) (m : Measurement) : Prop :=
  m.source = src ∧ m.destination = dst ∧ m.transferClass = cls

instance (src dst : PciNodeId) (cls : TransferClass) (m : Measurement) :
    Decidable (Matches src dst cls m) := inferInstanceAs (Decidable (_ ∧ _ ∧ _))

/-- The loop of `latest` is a register over the measurements that match. -/
lemma latest_eq (src dst : PciNodeId) (cls : TransferClass) : st.latest src dst cls =
    newest rank none ((st.entries.toList.map Prod.snd).filter fun m => Matches src dst cls m) := by
  rw [latest, newest, List.foldl_filter]
  refine congrArg (fun f => List.foldl f none (st.entries.toList.map Prod.snd)) ?_
  funext best m
  simp only [decide_eq_true_iff]
  refine if_congr Iff.rfl ?_ rfl
  cases best with
  | none => rfl
  | some b => simp only [keep, rank, ← UInt64.le_iff_toNat_le, ← UInt64.not_lt, ite_not]

/-- The measurements that the loop runs over. -/
lemma mem_values_iff {m : Measurement} :
    m ∈ st.entries.toList.map Prod.snd ↔ ∃ id : MeasurementId, st.entries[id]? = some m := by
  rw [List.mem_map]
  constructor
  · rintro ⟨⟨id, m⟩, hmem, rfl⟩
    exact ⟨id, ExtTreeMap.mem_toList_iff_getElem?_eq_some.mp hmem⟩
  · rintro ⟨id, hget⟩
    exact ⟨(id, m), ExtTreeMap.mem_toList_iff_getElem?_eq_some.mpr hget, rfl⟩

/-- **The latest measurement** is one of the store that matches, and no other that does is
newer. -/
lemma latest_spec {src dst : PciNodeId} {cls : TransferClass} {m : Measurement}
    (h : st.latest src dst cls = some m) :
    (∃ id : MeasurementId, st.entries[id]? = some m) ∧ Matches src dst cls m ∧
      ∀ (id : MeasurementId) x, st.entries[id]? = some x → Matches src dst cls x →
        x.generation.value ≤ m.generation.value := by
  rw [latest_eq] at h
  obtain ⟨hmem, -, hmax⟩ := newest_spec h
  obtain ⟨hvalue, hmatch⟩ := List.mem_filter.mp (hmem.resolve_left (by simp))
  refine ⟨mem_values_iff.mp hvalue, of_decide_eq_true hmatch, fun id x hget hx => ?_⟩
  exact UInt64.le_iff_toNat_le.mpr
    (hmax x (List.mem_filter.mpr ⟨mem_values_iff.mpr ⟨id, hget⟩, decide_eq_true hx⟩))

/-- There is none exactly when no measurement of the store matches. -/
lemma latest_eq_none_iff {src dst : PciNodeId} {cls : TransferClass} :
    st.latest src dst cls = none ↔
      ∀ (id : MeasurementId) x, st.entries[id]? = some x → ¬ Matches src dst cls x := by
  rw [latest_eq, newest_eq_none_iff, eq_self_iff_true, true_and, List.filter_eq_nil_iff]
  simp only [mem_values_iff, decide_eq_true_iff, forall_exists_index]
  exact forall_comm

/-- The generation at an id does not decrease with a measurement. -/
lemma generation_le_ingest {id : MeasurementId} {old : Measurement} (m : Measurement)
    (h : st.entries[id]? = some old) : ∃ new, (st.ingest m).2.entries[id]? = some new ∧
      old.generation.value ≤ new.generation.value := by
  rw [getElem?_ingest]
  split_ifs
  · rw [h]
    obtain ⟨new, hnew, hle⟩ : ∃ new, keep rank (some old) m = some new ∧ rank old ≤ rank new :=
      rank_le_keep old m
    exact ⟨new, hnew, UInt64.le_iff_toNat_le.mpr hle⟩
  · exact ⟨old, h, UInt64.le_refl _⟩

/-- **Ingestion converges.** Measurements with pairwise distinct ids and generations
leave the same store in every order: at every id the newest one, where the entry of
the start wins a tie. On the way no generation at an id decreases and a rejected
measurement changes nothing. -/
theorem ingestion_converges (st : MeasurementStore) {ms ms' : List Measurement}
    (hdistinct : (ms.map fun m => (m.id, m.generation)).Nodup) (hperm : ms.Perm ms') :
    st.ingestAll ms' = st.ingestAll ms ∧ HoldsNewest st (st.ingestAll ms') ms ∧
      (∀ pre m, pre ++ [m] <+: ms' →
        (∀ (id : MeasurementId) (old : Measurement), (st.ingestAll pre).entries[id]? = some old →
          ∃ new : Measurement, (st.ingestAll (pre ++ [m])).entries[id]? = some new ∧
            old.generation.value ≤ new.generation.value) ∧
        ∀ e, ((st.ingestAll pre).ingest m).1 = .error e →
          st.ingestAll (pre ++ [m]) = st.ingestAll pre) ∧
      ∀ src dst cls,
        (st.ingestAll ms').latest src dst cls = (st.ingestAll ms).latest src dst cls := by
  have hsame : st.ingestAll ms' = st.ingestAll ms := by
    have hentries : (st.ingestAll ms').entries = (st.ingestAll ms).entries := by
      refine ExtTreeMap.ext_getElem? fun id => ?_
      rw [getElem?_ingestAll, getElem?_ingestAll]
      exact (newest_perm (pairwise_rank_filter hdistinct id) (hperm.filter _) _).symm
    exact congrArg MeasurementStore.mk hentries
  refine ⟨hsame, ?_, fun pre m _ => ?_, fun src dst cls => by rw [hsame]⟩
  · rw [hsame]
    exact holdsNewest_ingestAll hdistinct
  · have hstep : st.ingestAll (pre ++ [m]) = ((st.ingestAll pre).ingest m).2 := by
      rw [ingestAll, List.foldl_append]
      rfl
    rw [hstep]
    exact ⟨fun id old hold => generation_le_ingest m hold, fun e he => ingest_of_error he⟩

/-- Two generations of one measurement, in both orders: one is rejected in the
second. -/
theorem two_generations_converge :
    ({} : MeasurementStore).ingestAll
        [{ id := ⟨1⟩, generation := ⟨5⟩ }, { id := ⟨1⟩, generation := ⟨3⟩ }] =
      ({} : MeasurementStore).ingestAll
        [{ id := ⟨1⟩, generation := ⟨3⟩ }, { id := ⟨1⟩, generation := ⟨5⟩ }] :=
  (ingestion_converges {} (by decide) (List.Perm.swap _ _ [])).1

end PcieFabric.MeasurementStore
