import PcieFabric.Selection.Decision

/-!
Whether the explanation in a decision is true (`PathSelector::select`).

* `eliminationReason`: why a candidate is left out; `elimReasons_buckets` says
  that the loop collects these reasons in the order of the candidates.
* `TrueOf`: what each text of a binding constraint says of the selected path;
  `trueOf_choose_iff` says when the cascade of penalties picks a true one.
* `Explains`: the explanation of a decision, in its three cases.
  `explanation_holds_iff` settles when it is true.
-/

namespace PcieFabric.PathSelector

open Ranking

variable {candidates : List Path} {req : SelectionRequest}

/-! ### Eliminated candidates -/

/-- Why the loop leaves out the candidate, in the words of the source. -/
def eliminationReason (req : SelectionRequest) (p : Path) : Option String :=
  if ¬ req.Authorizes p then
    some ("stale authority (epoch/boot mismatch) on path " ++ toString p.id.value.toNat)
  else if ¬ req.Supports p then some "required capability unavailable on path"
  else if ¬ p.Fresh then some "path not fresh (revalidation required)"
  else none

/-- A candidate has no reason exactly if it passes the tests. -/
lemma eliminationReason_eq_none_iff {p : Path} :
    eliminationReason req p = none ↔ req.Eligible p := by
  unfold eliminationReason SelectionRequest.Eligible
  split_ifs <;> simp_all

/-- One more candidate adds its reason, where it has one. -/
lemma elimReasons_add (b : Buckets) (p : Path) :
    (b.add req p).elimReasons = b.elimReasons ++ (eliminationReason req p).toList := by
  simp only [Buckets.add, req.authorizes_eq, req.supports_eq, p.freshnessRank_le_one_iff,
    Bool.not_eq_true', decide_eq_false_iff_not, eliminationReason]
  split_ifs <;> simp

/-- **The loop collects the reasons** of the eliminated candidates, in order. -/
lemma elimReasons_buckets (candidates : List Path) (req : SelectionRequest) :
    (buckets candidates req).elimReasons = candidates.filterMap (eliminationReason req) := by
  induction candidates using List.reverseRecOn with
  | nil => rfl
  | append_singleton candidates p ih =>
      have hone : [p].filterMap (eliminationReason req) = (eliminationReason req p).toList := by
        cases h : eliminationReason req p <;> simp [h]
      rw [List.filterMap_append, hone, ← ih, buckets, List.foldl_append]
      exact elimReasons_add _ p

/-! ### Selected paths -/

/-- The path is the first of the sorted admissible candidates. -/
def Leads (candidates : List Path) (req : SelectionRequest) (b : Path) : Prop :=
  (stableSort (ranksBefore req) (candidates.filter fun p => req.Admissible p)).head? = some b

/-- The text is one that a selection may give, and what it names holds of the
path. -/
structure TrueOf (candidates : List Path) (req : SelectionRequest) (text : String) (b : Path) :
    Prop where
  known : text ∈ ["contention penalty", "cross-NUMA penalty", "remote-root locality penalty",
    "best component-wise ranking"]
  contention : text = "contention penalty" →
    b.contention = ContentionState.moderate ∨ b.contention = ContentionState.high
  crossNuma : text = "cross-NUMA penalty" → b.locality = LocalityClass.crossNuma
  remoteRoot : text = "remote-root locality penalty" →
    b.locality = LocalityClass.sameHostRemoteRoot
  best : text = "best component-wise ranking" → Leads candidates req b

/-- The path is penalized for a `MODERATE` contention alone. The cascade has no
branch for it, and ends in the penalty for a remote root. -/
def Mislabelled (b : Path) : Prop :=
  b.contention = ContentionState.moderate ∧
    b.locality ≠ LocalityClass.crossNuma ∧ b.locality ≠ LocalityClass.sameHostRemoteRoot

/-- The text for a path that leads is true of it unless it is penalized for a
`MODERATE` contention alone. -/
lemma trueOf_choose_iff {best : Path} (hlead : Leads candidates req best) (b : Buckets)
    (rest : List Path) :
    TrueOf candidates req (choose b best rest).bindingConstraint best ↔ ¬ Mislabelled best := by
  have hmoderate : ContentionState.moderate ≠ ContentionState.high := by decide
  have htext : (choose b best rest).bindingConstraint =
      if penalized best then penaltyConstraint best else "best component-wise ranking" := rfl
  rw [htext]
  constructor
  · rintro htrue ⟨hcont, hcross, hremote⟩
    have hpen : penalized best = true := decide_eq_true (.inl hcont)
    rw [if_pos hpen, penaltyConstraint, hcont, if_neg hmoderate, if_neg hcross] at htrue
    exact hremote (htrue.remoteRoot rfl)
  · intro hlabel
    by_cases hpen : penalized best = true
    case neg =>
      rw [if_neg hpen]
      constructor <;> simp [hlead]
    rw [if_pos hpen, penaltyConstraint]
    by_cases hhigh : best.contention = ContentionState.high
    · rw [if_pos hhigh]
      constructor <;> simp [hhigh]
    by_cases hcross : best.locality = LocalityClass.crossNuma
    · rw [if_neg hhigh, if_pos hcross]
      constructor <;> simp [hcross]
    -- what is left of the penalties is a remote root, or `MODERATE` with one
    have hremote : best.locality = LocalityClass.sameHostRemoteRoot := by
      by_contra hremote
      rcases of_decide_eq_true hpen with hcont | hcont | hloc | hloc
      · exact hlabel ⟨hcont, hcross, hremote⟩
      · exact hhigh hcont
      · exact hcross hloc
      · exact hremote hloc
    rw [if_neg hhigh, if_neg hcross]
    constructor <;> simp [hremote]

/-! ### The explanation -/

/-- The explanation of the decision is true of it. The selected path is known by
its id and by what the decision says of its contention and locality. -/
structure Explains (candidates : List Path) (req : SelectionRequest) (d : SelectionDecision) :
    Prop where
  selected : ∀ id, d.selected = some id → ∃ b ∈ candidates, req.Admissible b ∧ b.id = id ∧
    d.contention = b.contention ∧ d.locality = b.locality ∧
    TrueOf candidates req d.bindingConstraint b
  deferred : d.decision = Decision.defer → (∃ p ∈ candidates, req.Saturated p) ∧
    ∀ p ∈ candidates, req.Eligible p → p.contention = ContentionState.saturated
  rejected : d.decision = Decision.reject → candidates = [] ∨
    ∃ p ∈ candidates, eliminationReason req p = some d.bindingConstraint

/-- Without an admissible candidate the eligible ones are saturated. -/
lemma saturated_of_eligible (hnone : ∀ p ∈ candidates, ¬ req.Admissible p) {p : Path}
    (hp : p ∈ candidates) (helig : req.Eligible p) :
    p.contention = ContentionState.saturated := by
  by_contra hcont
  exact hnone p hp ⟨helig, hcont⟩

/-- A candidate is deferred if it is only held back by its contention. -/
lemma mem_deferred_iff {p : Path} :
    p ∈ (buckets candidates req).deferred ↔ p ∈ candidates ∧ req.Saturated p := by
  rw [(sifted_buckets candidates req).deferred, List.mem_filter, decide_eq_true_iff]

/-- Where all candidates are eliminated, the first reason is that of one of them. -/
lemma exists_first_reason (hnone : ∀ p ∈ candidates, ¬ req.Admissible p)
    (hdef : (buckets candidates req).deferred = []) : candidates = [] ∨
      ∃ p ∈ candidates, eliminationReason req p =
        some ((buckets candidates req).elimReasons.headD "no admissible path") := by
  rw [elimReasons_buckets]
  cases hreasons : candidates.filterMap (eliminationReason req) with
  | cons reason rest =>
      have hmem : reason ∈ candidates.filterMap (eliminationReason req) := by
        rw [hreasons]
        exact List.mem_cons_self
      obtain ⟨p, hp, hreason⟩ := List.mem_filterMap.mp hmem
      exact .inr ⟨p, hp, hreason⟩
  | nil =>
      -- a candidate without a reason would be deferred
      refine .inl (List.eq_nil_iff_forall_not_mem.mpr fun p hp => ?_)
      have helig := eliminationReason_eq_none_iff.mp (List.filterMap_eq_nil_iff.mp hreasons p hp)
      have hin := mem_deferred_iff.mpr ⟨hp, helig, saturated_of_eligible hnone hp helig⟩
      rw [hdef] at hin
      cases hin

/-- The explanation of a refusal is true. -/
lemma explains_refuse (hnone : ∀ p ∈ candidates, ¬ req.Admissible p) :
    Explains candidates req (refuse (buckets candidates req)) := by
  unfold refuse
  cases hdef : (buckets candidates req).deferred with
  | nil =>
      constructor
      · rintro id ⟨⟩
      · rintro ⟨⟩
      · exact fun _ => exists_first_reason hnone hdef
  | cons p rest =>
      obtain ⟨hp, hsat⟩ := mem_deferred_iff.mp (hdef ▸ List.mem_cons_self :
        p ∈ (buckets candidates req).deferred)
      constructor
      · rintro id ⟨⟩
      · exact fun _ => ⟨⟨p, hp, hsat⟩, fun q => saturated_of_eligible hnone⟩
      · rintro ⟨⟩

/-- The explanation of a choice is true unless the path is penalized for a
`MODERATE` contention alone. -/
lemma explains_choose_iff {best : Path} {rest : List Path}
    (hsort : stableSort (ranksBefore req) (candidates.filter fun p => req.Admissible p) =
      best :: rest) (b : Buckets) :
    Explains candidates req (choose b best rest) ↔ ¬ Mislabelled best := by
  have hlead : Leads candidates req best := by rw [Leads, hsort, List.head?_cons]
  obtain ⟨hmem, hadm⟩ := admissible_of_sorted hsort
  have hdecision : (choose b best rest).decision = Decision.usePathWithPenalty ∨
      (choose b best rest).decision = Decision.usePath := by
    cases hpen : penalized best <;> simp [choose, hpen]
  have hrefused : (choose b best rest).decision ≠ Decision.defer ∧
      (choose b best rest).decision ≠ Decision.reject := by
    rcases hdecision with h | h <;> rw [h] <;> decide
  rw [← trueOf_choose_iff hlead b rest]
  constructor
  · intro h
    obtain ⟨p, -, -, -, hcont, hloc, htrue⟩ := h.selected best.id rfl
    obtain ⟨hknown, hc, hn, hr, -⟩ := htrue
    rw [← hcont] at hc
    rw [← hloc] at hn hr
    exact ⟨hknown, hc, hn, hr, fun _ => hlead⟩
  · intro htrue
    refine ⟨?_, fun h => absurd h hrefused.1, fun h => absurd h hrefused.2⟩
    intro id hid
    exact ⟨best, hmem, hadm, Option.some.inj hid, rfl, rfl, htrue⟩

/-- **The explanation is true of the decision, exactly** unless the best of the
admissible candidates is penalized for a `MODERATE` contention alone. Where the
confidences are numbers, the best one is the first of those that no other
admissible candidate ranks before. -/
theorem explanation_holds_iff (candidates : List Path) (req : SelectionRequest) :
    (Explains candidates req (select candidates req) ↔
      ¬ ∃ b, Leads candidates req b ∧ Mislabelled b) ∧
    ((∀ p ∈ candidates, p.confidence.value.val.isFinite = true) → ∀ b, Leads candidates req b ↔
      FirstLeast (ranksBefore req) (candidates.filter fun p => req.Admissible p) b) := by
  constructor
  · rcases select_cases candidates req with ⟨hnone, heq⟩ | ⟨best, rest, hsort, heq⟩
    · rw [heq]
      refine iff_of_true (explains_refuse hnone) ?_
      rintro ⟨b, hlead, -⟩
      have hmem := (stableSort_perm (ranksBefore req) _).subset (List.mem_of_mem_head? hlead)
      obtain ⟨hb, hadm⟩ := List.mem_filter.mp hmem
      exact hnone b hb (of_decide_eq_true hadm)
    · rw [heq, explains_choose_iff hsort]
      refine not_congr ⟨fun h => ⟨best, by rw [Leads, hsort, List.head?_cons], h⟩, ?_⟩
      rintro ⟨b, hlead, hlabel⟩
      rw [Leads, hsort, List.head?_cons, Option.some.injEq] at hlead
      rwa [hlead]
  · intro hconf b
    exact (orderedByKey_ranksBefore req fun p hp =>
      hconf p (List.mem_filter.mp hp).1).head?_eq_some_iff

/-- One current path behind the same switch, with a `MODERATE` contention. -/
theorem moderate_path_mislabelled :
    ¬ Explains
      [{ id := ⟨1⟩, freshness := ⟨Freshness.current, 0⟩, locality := LocalityClass.sameSwitch,
          contention := ContentionState.moderate }] {}
      (select
        [{ id := ⟨1⟩, freshness := ⟨Freshness.current, 0⟩, locality := LocalityClass.sameSwitch,
            contention := ContentionState.moderate }] {}) := by
  intro h
  obtain ⟨b, -, -, -, -, hloc, htrue⟩ := h.selected ⟨1⟩ (by decide +kernel)
  have hremote := htrue.remoteRoot (by decide +kernel)
  rw [← hloc] at hremote
  exact absurd hremote (by decide +kernel)

end PcieFabric.PathSelector
