import PcieFabric.Runtime.Numbering
import PcieFabric.Runtime.RecoveredState

/-!
How the freshness of a built path decays (`Runtime::age_freshness`).

* `FreshnessRecord.aged`: what one aging does to a freshness record;
  `freshness_react` says that no other event but a build or a load touches it.
* `decayed`: the record of a path aged `k` times since it was built, in closed
  form; `iterate_aged` is the induction behind it.
* `freshness_of_build`: any path that a build stored, after any events that do
  not build or load, has the record of as many agings as there were.
  `freshness_decays` is the schedule with what it means for a selection.
-/

namespace PcieFabric

open Machine MapWrites

/-! ### One path -/

/-- The record of a path after one aging. -/
def FreshnessRecord.aged (f : FreshnessRecord) : FreshnessRecord :=
  (Runtime.agePath { freshness := f }).freshness

/-- The record after `k` agings of a `CURRENT` one: `AGING` up to the 61st, and
`STALE` from the next one on. The age is counted in 64 bits. -/
def FreshnessRecord.decayed (k : Nat) : FreshnessRecord where
  state :=
    if k = 0 then Freshness.current else if k ≤ 61 then Freshness.aging else Freshness.stale
  ageMs := .ofNat k

namespace FreshnessRecord

/-- An aging takes the record of `k` agings to that of `k + 1`. The threshold is
tested on the age before the increment, which is `k` while the path is `AGING`. -/
lemma aged_decayed (k : Nat) : (decayed k).aged = decayed (k + 1) := by
  have hcur : Freshness.aging ≠ Freshness.current := by decide
  have hstale : Freshness.stale ≠ Freshness.current ∧ Freshness.stale ≠ Freshness.aging := by decide
  have hage : (decayed k).ageMs + 1 = (decayed (k + 1)).ageMs := (UInt64.ofNat_add k 1).symm
  have hstate : (decayed k).aged.state = (decayed (k + 1)).state := by
    by_cases hzero : k = 0
    · subst hzero
      rfl
    · by_cases hle : k ≤ 61
      · have hlt : 60 < UInt64.ofNat k ↔ 60 < k := by
          rw [UInt64.lt_iff_toNat_lt, UInt64.toNat_ofNat_of_lt' (hle.trans_lt (by decide))]
          rfl
        have hk : (decayed k).state = Freshness.aging := by
          rw [decayed, if_neg hzero, if_pos hle]
        by_cases hlast : k = 61
        · subst hlast
          rfl
        · simp only [aged, Runtime.agePath, hk, hcur, if_false, true_and]
          rw [if_neg (by rw [decayed, hlt]; omega), decayed, if_neg (by omega), if_pos (by omega)]
      · have hk : (decayed k).state = Freshness.stale := by
          rw [decayed, if_neg hzero, if_neg hle]
        simp only [aged, Runtime.agePath, hk, hstale, if_false, false_and]
        rw [decayed, if_neg (by omega), if_neg (by omega)]
  calc (decayed k).aged = ⟨(decayed k).aged.state, (decayed k).ageMs + 1⟩ := rfl
    _ = decayed (k + 1) := by rw [hstate, hage]

/-- The record of `k` agings, starting from the one that a build stores. -/
lemma iterate_aged (k : Nat) : aged^[k] ⟨Freshness.current, 0⟩ = decayed k := by
  induction k with
  | zero => rfl
  | succ k ih => rw [Function.iterate_succ_apply', ih, aged_decayed]

/-- A decayed record is one of a fresh path up to the 61st aging. -/
lemma decayed_fresh_iff (k : Nat) :
    (decayed k).state = Freshness.current ∨ (decayed k).state = Freshness.aging ↔ k ≤ 61 := by
  have hstale : ¬ (Freshness.stale = Freshness.current ∨ Freshness.stale = Freshness.aging) := by
    decide
  unfold decayed
  dsimp only
  split_ifs with hzero hle
  · exact iff_of_true (.inl rfl) (by omega)
  · exact iff_of_true (.inr rfl) hle
  · exact iff_of_false hstale hle

end FreshnessRecord

/-! ### One event -/

/-- The event is neither a build nor a load. -/
def RuntimeEvent.KeepsPaths (e : RuntimeEvent) : Prop :=
  e ≠ .call .buildPaths ∧ ∀ fs path beyond, e ≠ .load fs path beyond

/-- The event is a call of `age_freshness`. -/
def RuntimeEvent.ages : RuntimeEvent → Bool
  | .call .ageFreshness => true
  | _ => false

namespace Runtime

/-- The freshness record of the path under the id. -/
def freshnessOf (rt : Runtime) (id : PathId) : Option FreshnessRecord :=
  (rt.paths[id]?).map Path.freshness

lemma freshness_of_get {rt : Runtime} {id : PathId} {f : FreshnessRecord} {p : Path}
    (h : rt.freshnessOf id = some f) (hp : rt.paths[id]? = some p) : p.freshness = f := by
  rw [freshnessOf, hp] at h
  exact Option.some.inj h

/-- Of the events that keep the paths, an aging ages every record and the others
change none. -/
lemma freshness_react (rt : Runtime) {e : RuntimeEvent} (he : e.KeepsPaths) (id : PathId) :
    (rt.react e).freshnessOf id =
      if e.ages then (rt.freshnessOf id).map FreshnessRecord.aged else rt.freshnessOf id := by
  cases e with
  | load fs path beyond => exact absurd rfl (he.2 fs path beyond)
  | call c =>
      have hc : c ≠ .buildPaths := fun h => he.1 (congrArg RuntimeEvent.call h)
      have hmap : (rt.react (.call c)).freshnessOf id =
          (rt.paths[id]?).map fun p => (rt.pathUpdate c p).freshness := by
        rw [react, freshnessOf, rt.getElem?_step hc, Option.map_map]
        rfl
      rw [hmap]
      cases c with
      | ageFreshness =>
          rw [RuntimeEvent.ages, if_pos rfl, freshnessOf, Option.map_map]
          rfl
      | refreshMeasured =>
          have hkeeps : ∀ p, (rt.attachMeasured p).freshness = p.freshness := by
            intro p
            unfold attachMeasured
            dsimp only
            split <;> rfl
          exact congrArg (fun f => (rt.paths[id]?).map f) (funext hkeeps)
      | _ => rfl

/-! ### A run after a build -/

/-- The schedule as the counter would have it if it never wrapped: `CURRENT`,
then `AGING` of age `k` up to the 61st aging, then `STALE` of age `k`. -/
def OnSchedule (k : Nat) (f : FreshnessRecord) : Prop :=
  if k = 0 then f.state = Freshness.current
  else if k ≤ 61 then f.state = Freshness.aging ∧ f.ageMs.toNat = k
  else f.state = Freshness.stale ∧ f.ageMs.toNat = k

/-- Up to the largest age that 64 bits hold, the decayed records are on schedule. -/
lemma onSchedule_decayed {k : Nat} (hk : k < 2 ^ 64) : OnSchedule k (.decayed k) := by
  have hage : (FreshnessRecord.decayed k).ageMs.toNat = k := UInt64.toNat_ofNat_of_lt' hk
  unfold OnSchedule
  rw [hage]
  unfold FreshnessRecord.decayed
  split_ifs with hzero hle
  · rfl
  · exact ⟨rfl, rfl⟩
  · exact ⟨rfl, rfl⟩

/-- A build stores every path that it writes as `CURRENT`, of age 0. -/
lemma freshness_of_built {rt : Runtime} {id : PathId} {p : Path} (hp : (id, p) ∈ rt.built) :
    rt.buildPaths.freshnessOf id = some ⟨Freshness.current, 0⟩ := by
  obtain ⟨s, d, ha, -⟩ := mem_built_iff.mp hp
  cases hlast : assigned rt.topology id with
  | none => exact absurd ha (lastWrite_eq_none_iff.mp hlast (s, d))
  | some e =>
      rw [freshnessOf, getElem?_buildPaths, hlast]
      rfl

/-- The record of a path that a build of the run wrote, after any events that keep
the paths: that of as many agings as there were. -/
lemma freshness_of_build {before after : List RuntimeEvent} {id : PathId} {p : Path}
    (hp : (id, p) ∈ (run react {} before).built) (hafter : ∀ e ∈ after, e.KeepsPaths) :
    (run react {} (before ++ .call .buildPaths :: after)).freshnessOf id =
      some (.decayed (after.countP RuntimeEvent.ages)) := by
  have hsome : ∀ (k : Nat) (f : FreshnessRecord),
      (Option.map FreshnessRecord.aged)^[k] (some f) = some (FreshnessRecord.aged^[k] f) := by
    intro k
    induction k with
    | zero => exact fun _ => rfl
    | succ k ih => exact fun f => ih f.aged
  have hbuilt : ((run react {} before).react (.call .buildPaths)).freshnessOf id =
      some ⟨Freshness.current, 0⟩ := freshness_of_built hp
  rw [run_append, run_cons, run_iterate react (fun rt : Runtime => rt.freshnessOf id)
    (fun rt e he => rt.freshness_react he id) _ hafter, hbuilt, hsome,
    FreshnessRecord.iterate_aged]

/-- **Freshness decays on schedule.** A path that a build wrote has, after any
events with `k` agings among them and no other build or load, the record of `k`
agings; it is fresh exactly while `k` is at most 61, and once it is not it stays
so until it is built again, through loads too. The age is `k` as long as 64 bits hold it. -/
theorem freshness_decays (before after : List RuntimeEvent)
    (hafter : ∀ e ∈ after, e.KeepsPaths) {id : PathId} {q : Path}
    (hq : (id, q) ∈ (run react {} before).built) :
    (∃ p, (run react {} (before ++ .call .buildPaths :: after)).paths[id]? = some p ∧
      p.freshness = .decayed (after.countP RuntimeEvent.ages) ∧
      (after.countP RuntimeEvent.ages < 2 ^ 64 →
        OnSchedule (after.countP RuntimeEvent.ages) p.freshness) ∧
      (p.Fresh ↔ after.countP RuntimeEvent.ages ≤ 61)) ∧
    (61 < after.countP RuntimeEvent.ages → ∀ later : List RuntimeEvent,
      (∀ e ∈ later, e ≠ .call .buildPaths) → ∀ p,
        (run react {} (before ++ .call .buildPaths :: (after ++ later))).paths[id]? = some p →
          ¬ p.Fresh) := by
  obtain ⟨p, hp, hage⟩ := Option.map_eq_some_iff.mp (freshness_of_build hq hafter)
  have hfresh : p.Fresh ↔ after.countP RuntimeEvent.ages ≤ 61 := by
    rw [Path.Fresh, hage]
    exact FreshnessRecord.decayed_fresh_iff _
  refine ⟨⟨p, hp, hage, fun hk => ?_, hfresh⟩, fun hk later hlater => ?_⟩
  · rw [hage]
    exact onSchedule_decayed hk
  · have hstale : ∀ p', (run react {} (before ++ .call .buildPaths :: after)).paths[id]? =
        some p' → ¬ p'.Fresh := by
      intro p' hp'
      rw [Option.some.inj (hp'.symm.trans hp), hfresh]
      omega
    rw [← List.cons_append, ← List.append_assoc, run_append]
    exact run_invariant_mem react (I := fun rt => ∀ p', rt.paths[id]? = some p' → ¬ p'.Fresh)
      (fun rt e h he => not_fresh_react h he) hstale hlater

/-- Two network cards, each on its own bus. -/
def twoCards : List RuntimeEvent := [.call (addNic 1), .call (addNic 2)]

/-- A build writes the path 2 between the two cards. -/
lemma built_twoCards :
    ((⟨2⟩ : PathId), (run react {} twoCards).currentPath ⟨2⟩ ⟨1⟩ ⟨2⟩) ∈
      (run react {} twoCards).built :=
  mem_built_iff.mpr ⟨⟨1⟩, ⟨2⟩, by decide +kernel, rfl⟩

/-- Agings keep the paths. -/
lemma keepsPaths_replicate (k : Nat) :
    ∀ e ∈ List.replicate k (RuntimeEvent.call .ageFreshness), e.KeepsPaths := by
  intro e he
  obtain rfl := List.eq_of_mem_replicate he
  constructor
  · rintro ⟨⟩
  · rintro fs path beyond ⟨⟩

/-- The path between two cards after 62 agings. -/
theorem aged_out : ∃ p, (run react {} (twoCards ++ .call .buildPaths ::
    List.replicate 62 (.call .ageFreshness))).paths[(⟨2⟩ : PathId)]? = some p ∧
      p.freshness = .decayed 62 ∧ ¬ p.Fresh := by
  obtain ⟨⟨p, hp, hage, -, hfresh⟩, -⟩ :=
    freshness_decays twoCards _ (keepsPaths_replicate 62) built_twoCards
  exact ⟨p, hp, hage, fun h => absurd (hfresh.mp h) (by decide)⟩

/-- After `2^64` agings the path between two cards has the age 0 again. -/
theorem age_wraps :
    (∃ q, ((⟨2⟩ : PathId), q) ∈ (run react {} twoCards).built) ∧
      ¬ ∃ p, (run react {} (twoCards ++ .call .buildPaths ::
        List.replicate (2 ^ 64) (.call .ageFreshness))).paths[(⟨2⟩ : PathId)]? = some p ∧
          OnSchedule (2 ^ 64) p.freshness := by
  refine ⟨⟨_, built_twoCards⟩, ?_⟩
  rintro ⟨p, hp, hsched⟩
  have hage := freshness_of_get
    (freshness_of_build built_twoCards (keepsPaths_replicate (2 ^ 64))) hp
  rw [List.countP_replicate, if_pos (by rfl)] at hage
  rw [OnSchedule, if_neg (by decide), if_neg (by decide), hage] at hsched
  exact absurd hsched.2 (by decide +kernel)

end Runtime

end PcieFabric
