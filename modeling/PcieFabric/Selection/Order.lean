import PcieFabric.Lib.Binary64
import PcieFabric.Selection.Selector

/-!
The comparator of the selection is the comparison of keys.

* `rankKey`: the key of a path for a request: its components in the order of
  `compare_components` for a path that passes the freshness and authority
  tests, and its id for one that does not.
* `compareComponents_eq`: where the confidence is a number, the comparator is the
  sign of the comparison of the keys. The other `double` it compares is a number
  by construction (`isNaN_comparedTheoretical`).
* `compare_strict_order`: the comparator is a strict total order up to the id, and what
  a stable sort needs on every candidate list.
* `orderedBy_ranksBefore`: candidates with distinct ids are ordered strictly.
-/

namespace PcieFabric

open Ranking

/-! ### The compared rates are numbers -/

/-- The rate of a lane is finite for every generation byte. -/
lemma isFinite_effectiveBytesPerLane (g : PcieGen) :
    (effectiveBytesPerLane g).isFinite = true := by
  unfold effectiveBytesPerLane signalingGts encodingRatio
  split_ifs <;> decide +kernel

/-- The theoretical rate is a number for every envelope. -/
lemma Path.isNaN_comparedTheoretical (p : Path) : p.comparedTheoretical.isNaN = false := by
  unfold Path.comparedTheoretical
  cases p.theoretical with
  | none => decide +kernel
  | some e =>
      exact Binary64.isNaN_ofBits_toBits (Binary64.isNaN_mul
        (isFinite_effectiveBytesPerLane e.generation) (Binary64.isFinite_toFloat e.lanes.value))

/-! ### Keys -/

/-- The key of a path that passes the freshness and authority tests: a path with
all capabilities first, then the smaller locality rank, the higher measured and
theoretical throughput, the smaller contention rank, the higher confidence, and
the smaller source, destination and id. -/
abbrev AdmittedKey :=
  Bool ×ₗ Int ×ₗ ℕᵒᵈ ×ₗ (ℤ ×ₗ ℤ ×ₗ ℤ)ᵒᵈ ×ₗ Int ×ₗ (ℤ ×ₗ ℤ ×ₗ ℤ)ᵒᵈ ×ₗ ℕ ×ₗ ℕ ×ₗ ℕ

namespace Path

/-- The path passes the freshness and authority tests of the comparator. -/
def admitted (p : Path) (req : SelectionRequest) : Bool :=
  decide (freshnessRank p.freshness.state ≤ 1) && p.epoch == req.epoch && p.boot == req.boot

/-- The components of a path, in the order in which they are compared. -/
def admittedKey (p : Path) (req : SelectionRequest) : AdmittedKey :=
  toLex (!p.hasCapabilities req.requiredCapabilities, toLex (localityRank p.locality,
    toLex (OrderDual.toDual p.comparedMeasured.toNat,
    toLex (OrderDual.toDual (Binary64.key p.comparedTheoretical),
    toLex (contentionRank p.contention,
    toLex (OrderDual.toDual (Binary64.key p.confidence.value.val),
    toLex (p.source.value.toNat, toLex (p.destination.value.toNat, p.id.value.toNat))))))))

/-- The key of a path for a request. -/
def rankKey (req : SelectionRequest) (p : Path) : AdmittedKey ⊕ₗ ℕ :=
  if p.admitted req then Sum.inlₗ (p.admittedKey req) else Sum.inrₗ p.id.value.toNat

/-- The key ends in the id. -/
lemma id_eq_of_rankKey_eq {req : SelectionRequest} {a b : Path}
    (h : a.rankKey req = b.rankKey req) : a.id = b.id := by
  rw [← StrongId.value_inj, ← UInt64.toNat_inj]
  unfold rankKey at h
  split_ifs at h
  · have hkey := Sum.inl_injective (toLex.injective h)
    simp only [admittedKey, EmbeddingLike.apply_eq_iff_eq, Prod.mk.injEq] at hkey
    exact hkey.2.2.2.2.2.2.2.2
  · cases toLex.injective h
  · cases toLex.injective h
  · exact Sum.inr_injective (toLex.injective h)

end Path

lemma StrongId.value_toNat_ne_iff {tag : IdTag} {a b : StrongId tag} :
    a ≠ b ↔ a.value.toNat ≠ b.value.toNat := by
  rw [Ne, Ne, UInt64.toNat_inj, StrongId.value_inj]

/-- Two admitted paths are compared by their components. -/
lemma compareComponents_of_admitted {a b : Path} {req : SelectionRequest}
    (ha : a.confidence.value.val.isNaN = false) (hb : b.confidence.value.val.isNaN = false)
    (hadmA : a.admitted req = true) (hadmB : b.admitted req = true) :
    compareComponents a b req = threeWay (a.admittedKey req) (b.admittedKey req) := by
  have hA := a.isNaN_comparedTheoretical
  have hB := b.isNaN_comparedTheoretical
  have hbne : ∀ {x y : Float}, x.isNaN = false → y.isNaN = false →
      ((x != y) = true ↔ OrderDual.toDual (Binary64.key x) ≠ OrderDual.toDual (Binary64.key y)) :=
    fun hx hy => by rw [bne, Bool.not_eq_true', ← Bool.not_eq_true, Binary64.beq_iff hx hy]; rfl
  unfold Path.admitted at hadmA hadmB
  simp only [compareComponents, hadmA, hadmB, ne_eq, not_true_eq_false, if_false, Bool.not_true,
    Bool.and_self, Bool.false_eq_true]
  -- one component after the other, in the order of the source
  refine threeWay_of_first ?_ ?_ (threeWay_of_first Iff.rfl (fun _ => Iff.rfl)
    (threeWay_of_first ?_ (fun _ => UInt64.lt_iff_toNat_lt)
    (threeWay_of_first (hbne hA hB) (fun _ => Binary64.lt_iff hB hA)
    (threeWay_of_first Iff.rfl (fun _ => Iff.rfl)
    (threeWay_of_first (hbne ha hb) (fun _ => Binary64.lt_iff hb ha)
    (threeWay_of_first StrongId.value_toNat_ne_iff (fun _ => UInt64.lt_iff_toNat_lt)
    (threeWay_of_first StrongId.value_toNat_ne_iff (fun _ => UInt64.lt_iff_toNat_lt)
    (threeWay_of_last StrongId.value_toNat_ne_iff UInt64.lt_iff_toNat_lt))))))))
  · exact not_congr Bool.not_inj_iff.symm
  · intro hne
    cases hcap : a.hasCapabilities req.requiredCapabilities <;>
      cases hcap' : b.hasCapabilities req.requiredCapabilities <;> simp [hcap, hcap'] at hne ⊢
  · exact not_congr UInt64.toNat_inj.symm

/-- **The comparator is the comparison of the keys.** -/
theorem compareComponents_eq {a b : Path} (req : SelectionRequest)
    (ha : a.confidence.value.val.isNaN = false) (hb : b.confidence.value.val.isNaN = false) :
    compareComponents a b req = threeWay (a.rankKey req) (b.rankKey req) := by
  by_cases hadmA : a.admitted req = true <;> by_cases hadmB : b.admitted req = true
  · rw [compareComponents_of_admitted ha hb hadmA hadmB, Path.rankKey, Path.rankKey, if_pos hadmA,
      if_pos hadmB, threeWay_inl]
  · rw [Path.rankKey, Path.rankKey, if_pos hadmA, if_neg hadmB, threeWay_inl_inr]
    unfold Path.admitted at hadmA hadmB
    simp [compareComponents, hadmA, hadmB]
  · rw [Path.rankKey, Path.rankKey, if_neg hadmA, if_pos hadmB, threeWay_inr_inl]
    unfold Path.admitted at hadmA hadmB
    simp [compareComponents, hadmA, hadmB]
  · rw [Path.rankKey, Path.rankKey, if_neg hadmA, if_neg hadmB, threeWay_inr]
    rw [Bool.not_eq_true] at hadmA hadmB
    unfold Path.admitted at hadmA hadmB
    simp only [compareComponents, hadmA, hadmB, ne_eq, not_true_eq_false, if_false, Bool.not_false,
      Bool.and_self, if_true, threeWay, UInt64.lt_iff_toNat_lt, ← StrongId.value_inj,
      ← UInt64.toNat_inj]
    split_ifs <;> omega

/-! ### Candidates -/

/-- The doubles that are compared are finite, and the measured throughput is one that the
cast to 64 bits is defined for. -/
structure Path.Comparable (p : Path) : Prop where
  confidence : p.confidence.value.val.isFinite = true
  measured : ∀ m ∈ p.bestMeasured,
    m.value.val.isFinite = true ∧ 0.0 ≤ m.value.val ∧ m.value.val < 18446744073709551616.0

/-- The test that both sorts use compares the keys. -/
lemma orderedByKey_ranksBefore {candidates : List Path} (req : SelectionRequest)
    (hconf : ∀ p ∈ candidates, p.confidence.value.val.isFinite = true) :
    OrderedByKey (PathSelector.ranksBefore req) (Path.rankKey req) candidates := by
  intro a ha b hb
  rw [PathSelector.ranksBefore, decide_eq_true_iff,
    compareComponents_eq req (Binary64.isNaN_of_isFinite (hconf a ha))
      (Binary64.isNaN_of_isFinite (hconf b hb)), threeWay_lt_zero]

/-- **The comparator is a strict total order** on comparable paths: it changes its sign
when they are swapped, no path ranks before itself, ranking before is transitive, and
only paths of one id compare equal. So it is a strict weak order on every list of
candidates. -/
theorem compare_strict_order (req : SelectionRequest) :
    (∀ a b c : Path, a.Comparable → b.Comparable → c.Comparable →
      (compareComponents a b req < 0 ↔ 0 < compareComponents b a req) ∧
        ¬ compareComponents a a req < 0 ∧
        (compareComponents a b req < 0 → compareComponents b c req < 0 →
          compareComponents a c req < 0) ∧
        (compareComponents a b req = 0 → a.id = b.id)) ∧
      ∀ candidates : List Path, (∀ p ∈ candidates, p.Comparable) →
        StrictWeakOrder (PathSelector.ranksBefore req) candidates := by
  refine ⟨fun a b c ha hb hc => ?_, fun candidates h => ?_⟩
  · have hcompare {p q : Path} (hp : p.Comparable) (hq : q.Comparable) :
        compareComponents p q req = threeWay (p.rankKey req) (q.rankKey req) :=
      compareComponents_eq req (Binary64.isNaN_of_isFinite hp.confidence)
        (Binary64.isNaN_of_isFinite hq.confidence)
    rw [hcompare ha hb, hcompare hb ha, hcompare ha ha, hcompare hb hc, hcompare ha hc,
      threeWay_lt_zero, zero_lt_threeWay, threeWay_lt_zero, threeWay_lt_zero, threeWay_lt_zero,
      threeWay_eq_zero]
    exact ⟨Iff.rfl, lt_irrefl _, lt_trans, Path.id_eq_of_rankKey_eq⟩
  · exact (orderedByKey_ranksBefore req fun p hp => (h p hp).confidence).strictWeakOrder

/-- A path with a measured throughput and one without. -/
theorem measured_paths_ordered :
    StrictWeakOrder (PathSelector.ranksBefore {})
      [{ id := ⟨1⟩, bestMeasured := some ⟨.ofFloat 1.5⟩ }, { id := ⟨2⟩ }] := by
  refine (compare_strict_order {}).2 _ fun p hp => ?_
  rcases List.mem_pair.mp hp with rfl | rfl
  · exact ⟨by decide +kernel, by decide +kernel⟩
  · exact ⟨by decide +kernel, by decide +kernel⟩

/-- **Candidates with distinct ids are ordered strictly** by the test that both
sorts use. -/
theorem orderedBy_ranksBefore {candidates : List Path} (req : SelectionRequest)
    (hids : (candidates.map Path.id).Nodup)
    (hconf : ∀ p ∈ candidates, p.confidence.value.val.isFinite = true) :
    OrderedBy (PathSelector.ranksBefore req) (Path.rankKey req) candidates where
  iff_lt := orderedByKey_ranksBefore req hconf
  inj _ ha _ hb hkey := List.inj_on_of_nodup_map hids ha hb (Path.id_eq_of_rankKey_eq hkey)

end PcieFabric
