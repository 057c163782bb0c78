import PcieFabric.Selection.Order

/-!
What a selection answers, against a declarative reading of the request.

* `SelectionRequest.Admissible`, `Saturated`: the candidates that a request may
  be given, and those that would be admissible were they not saturated.
* `Sifted`: the buckets of the loop are filters of the candidates.
* `select_accounts_iff` settles when every candidate is reported exactly once.
* `select_meets_spec`: the decision is determined by the least admissible
  candidate, or by the lack of one.
* `select_perm`: the order of the candidates does not matter.
* `reranked_eq_rank`: the ranking in the decision is the ranking of all
  candidates, restricted.
-/

namespace PcieFabric

open Ranking

/-! ### The tests -/

/-- The path is `CURRENT` or `AGING`. -/
def Path.Fresh (p : Path) : Prop :=
  p.freshness.state = Freshness.current ∨ p.freshness.state = Freshness.aging

instance (p : Path) : Decidable p.Fresh := inferInstanceAs (Decidable (_ ∨ _))

namespace SelectionRequest

variable (req : SelectionRequest) (p : Path)

/-- The path carries the authority of the request. -/
def Authorizes : Prop := p.epoch = req.epoch ∧ p.boot = req.boot

/-- The path has every required capability. -/
def Supports : Prop := ∀ c ∈ req.requiredCapabilities, c ∈ p.caps

/-- The path passes every test but the one on its contention. -/
def Eligible : Prop := req.Authorizes p ∧ req.Supports p ∧ p.Fresh

/-- The path may be selected. -/
def Admissible : Prop := req.Eligible p ∧ p.contention ≠ ContentionState.saturated

/-- The path is only held back by its contention. -/
def Saturated : Prop := req.Eligible p ∧ p.contention = ContentionState.saturated

instance : Decidable (req.Authorizes p) := inferInstanceAs (Decidable (_ ∧ _))
instance : Decidable (req.Supports p) := inferInstanceAs (Decidable (∀ _ ∈ _, _))
instance : Decidable (req.Eligible p) := inferInstanceAs (Decidable (_ ∧ _))
instance : Decidable (req.Admissible p) := inferInstanceAs (Decidable (_ ∧ _))
instance : Decidable (req.Saturated p) := inferInstanceAs (Decidable (_ ∧ _))

end SelectionRequest

lemma Path.hasCapabilities_iff (p : Path) (caps : List Capability) :
    p.hasCapabilities caps = true ↔ ∀ c ∈ caps, c ∈ p.caps := by
  have key : ∀ b : Bool, caps.foldl (fun cap c => cap && p.hasCapability c) b = true ↔
      b = true ∧ ∀ c ∈ caps, c ∈ p.caps := by
    induction caps with
    | nil => simp
    | cons c caps ih =>
        intro b
        rw [List.foldl_cons, ih, Bool.and_eq_true, Path.hasCapability, decide_eq_true_iff,
          List.forall_mem_cons, and_assoc]
  rw [Path.hasCapabilities, key, eq_self_iff_true, true_and]

lemma Path.freshnessRank_le_one_iff (p : Path) : freshnessRank p.freshness.state ≤ 1 ↔ p.Fresh := by
  unfold freshnessRank Path.Fresh
  split_ifs <;> simp_all

/-- The test of the selection on the authority. -/
lemma SelectionRequest.authorizes_eq (req : SelectionRequest) (p : Path) :
    (p.epoch == req.epoch && p.boot == req.boot) = decide (req.Authorizes p) := by
  rw [Bool.eq_iff_iff, Bool.and_eq_true, beq_iff_eq, beq_iff_eq, decide_eq_true_iff,
    SelectionRequest.Authorizes]

/-- The test of the selection on the capabilities. -/
lemma SelectionRequest.supports_eq (req : SelectionRequest) (p : Path) :
    p.hasCapabilities req.requiredCapabilities = decide (req.Supports p) := by
  rw [Bool.eq_iff_iff, Path.hasCapabilities_iff, decide_eq_true_iff, SelectionRequest.Supports]

namespace PathSelector

variable {candidates : List Path} {req : SelectionRequest}

/-! ### The buckets -/

/-- The buckets as filters of the candidates. -/
structure Sifted (candidates : List Path) (req : SelectionRequest) (b : Buckets) : Prop where
  admissible : b.admissible = candidates.filter fun p => req.Admissible p
  deferred : b.deferred = candidates.filter fun p => req.Saturated p
  notFresh : b.notFresh = (candidates.filter fun p =>
    (req.Authorizes p ∧ req.Supports p) ∧ ¬ p.Fresh).map Path.id
  eliminated : b.eliminated = candidates.filter fun p => ¬ (req.Authorizes p ∧ req.Supports p)

/-- One more candidate goes into its bucket. -/
lemma Sifted.add {b : Buckets} (h : Sifted candidates req b) (p : Path) :
    Sifted (candidates ++ [p]) req (b.add req p) := by
  obtain ⟨hadm, hdef, hnot, helim⟩ := h
  simp only [Buckets.add, req.authorizes_eq, req.supports_eq, p.freshnessRank_le_one_iff,
    Bool.not_eq_true', decide_eq_false_iff_not]
  by_cases ha : req.Authorizes p
  case neg =>
    rw [if_pos ha]
    constructor <;> simp [hadm, hdef, hnot, helim, SelectionRequest.Admissible,
      SelectionRequest.Saturated, SelectionRequest.Eligible, ha]
  rw [if_neg (not_not.mpr ha)]
  by_cases hs : req.Supports p
  case neg =>
    rw [if_pos hs]
    constructor <;> simp [hadm, hdef, hnot, helim, SelectionRequest.Admissible,
      SelectionRequest.Saturated, SelectionRequest.Eligible, hs]
  rw [if_neg (not_not.mpr hs)]
  by_cases hf : p.Fresh
  case neg =>
    rw [if_pos hf]
    constructor <;> simp [hadm, hdef, hnot, helim, SelectionRequest.Admissible,
      SelectionRequest.Saturated, SelectionRequest.Eligible, ha, hs, hf]
  rw [if_neg (not_not.mpr hf)]
  by_cases hc : p.contention = ContentionState.saturated
  · rw [if_pos hc]
    constructor <;> simp [hadm, hdef, hnot, helim, SelectionRequest.Admissible,
      SelectionRequest.Saturated, SelectionRequest.Eligible, ha, hs, hf, hc]
  · rw [if_neg hc]
    constructor <;> simp [hadm, hdef, hnot, helim, SelectionRequest.Admissible,
      SelectionRequest.Saturated, SelectionRequest.Eligible, ha, hs, hf, hc]

/-- **The loop sifts the candidates**, each bucket in their order. -/
theorem sifted_buckets (candidates : List Path) (req : SelectionRequest) :
    Sifted candidates req (buckets candidates req) := by
  induction candidates using List.reverseRecOn with
  | nil => exact ⟨rfl, rfl, rfl, rfl⟩
  | append_singleton candidates p ih =>
      rw [buckets, List.foldl_append]
      exact ih.add p

/-- The tests leave no candidate out and take none twice. -/
lemma Sifted.perm {b : Buckets} (h : Sifted candidates req b) :
    (b.admissible.map Path.id ++ b.deferred.map Path.id ++ b.notFresh ++
      b.eliminated.map Path.id).Perm (candidates.map Path.id) := by
  rw [h.admissible, h.deferred, h.notFresh, h.eliminated]
  simp only [← List.map_append]
  refine List.Perm.map Path.id (List.perm_iff_count.mpr fun p => ?_)
  have hcount : ∀ test : Path → Bool,
      (candidates.filter test).count p = if test p then candidates.count p else 0 := by
    intro test
    by_cases htest : test p = true
    · rw [List.count_filter htest, if_pos htest]
    · rw [if_neg htest]
      exact List.count_eq_zero.mpr fun hmem => htest (List.mem_filter.mp hmem).2
  simp only [List.count_append, hcount, decide_eq_true_iff, SelectionRequest.Admissible,
    SelectionRequest.Saturated, SelectionRequest.Eligible]
  by_cases ha : req.Authorizes p <;> by_cases hs : req.Supports p <;> by_cases hf : p.Fresh <;>
    by_cases hc : p.contention = ContentionState.saturated <;> simp [ha, hs, hf, hc]

/-- A selection refuses where no candidate is admissible, and otherwise chooses
the first of the sorted admissible ones. -/
lemma select_cases (candidates : List Path) (req : SelectionRequest) :
    ((∀ p ∈ candidates, ¬ req.Admissible p) ∧
        select candidates req = refuse (buckets candidates req)) ∨
      ∃ best rest,
        stableSort (ranksBefore req) (candidates.filter fun p => req.Admissible p) = best :: rest ∧
          select candidates req = choose (buckets candidates req) best rest := by
  have hadm := (sifted_buckets candidates req).admissible
  cases hsort : stableSort (ranksBefore req) (candidates.filter fun p => req.Admissible p) with
  | nil =>
      refine .inl ⟨fun p hp hadmp => ?_, by simp only [select, hadm, hsort]⟩
      have hperm := stableSort_perm (ranksBefore req) (candidates.filter fun p => req.Admissible p)
      rw [hsort] at hperm
      have hmem : p ∈ candidates.filter fun p => req.Admissible p :=
        List.mem_filter.mpr ⟨hp, decide_eq_true hadmp⟩
      rw [← hperm.nil_eq] at hmem
      cases hmem
  | cons best rest =>
      exact .inr ⟨best, rest, rfl, by simp only [select, hadm, hsort]⟩

/-- The first of the sorted admissible candidates is one of them. -/
lemma admissible_of_sorted {best : Path} {rest : List Path}
    (hsort : stableSort (ranksBefore req) (candidates.filter fun p => req.Admissible p) =
      best :: rest) : best ∈ candidates ∧ req.Admissible best := by
  have hmem : best ∈ candidates.filter fun p => req.Admissible p := by
    refine (stableSort_perm (ranksBefore req) _).subset ?_
    rw [hsort]
    exact List.mem_cons_self
  exact ⟨(List.mem_filter.mp hmem).1, of_decide_eq_true (List.mem_filter.mp hmem).2⟩

/-- The selected path is the first of the sorted admissible candidates. -/
lemma selected_select (candidates : List Path) (req : SelectionRequest) :
    (select candidates req).selected =
      (stableSort (ranksBefore req) (candidates.filter fun p => req.Admissible p)).head?.map
        Path.id := by
  rw [select, (sifted_buckets candidates req).admissible]
  cases stableSort (ranksBefore req) (candidates.filter fun p => req.Admissible p) with
  | nil =>
      dsimp only [refuse]
      split <;> rfl
  | cons best rest => rfl

/-- Nothing is selected without an admissible candidate, and otherwise one of
them is. -/
lemma selected_cases (candidates : List Path) (req : SelectionRequest) :
    ((∀ p ∈ candidates, ¬ req.Admissible p) ∧ (select candidates req).selected = none) ∨
      ∃ b ∈ candidates, req.Admissible b ∧ (select candidates req).selected = some b.id := by
  rcases select_cases candidates req with ⟨hnone, heq⟩ | ⟨best, rest, hsort, heq⟩
  · refine .inl ⟨hnone, ?_⟩
    rw [heq, refuse]
    split <;> rfl
  · obtain ⟨hmem, hadm⟩ := admissible_of_sorted hsort
    exact .inr ⟨best, hmem, hadm, by rw [heq]; rfl⟩

/-! ### Every candidate is reported -/

/-- Each candidate is reported once, as selected, alternative or eliminated, and
nothing else is. -/
def AccountsForAll (candidates : List Path) (d : SelectionDecision) : Prop :=
  ∀ id, (d.selected.toList ++ d.alternatives ++ d.eliminated).count id =
    if id ∈ candidates.map Path.id then 1 else 0

lemma accountsForAll_iff_perm (hids : (candidates.map Path.id).Nodup) (d : SelectionDecision) :
    AccountsForAll candidates d ↔
      (d.selected.toList ++ d.alternatives ++ d.eliminated).Perm (candidates.map Path.id) := by
  rw [List.perm_iff_count]
  exact forall_congr' fun id => by rw [hids.count]

/-- **Accounting for the candidates, exactly.** A selection reports every
candidate once if and only if some candidate is admissible, or none fails the
tests on authority and capabilities. -/
theorem select_accounts_iff (hids : (candidates.map Path.id).Nodup) (req : SelectionRequest) :
    AccountsForAll candidates (select candidates req) ↔
      (∃ p ∈ candidates, req.Admissible p) ∨
        ∀ p ∈ candidates, req.Authorizes p ∧ req.Supports p := by
  have hsift := sifted_buckets candidates req
  rw [accountsForAll_iff_perm hids]
  rcases select_cases candidates req with ⟨hnone, heq⟩ | ⟨best, rest, hsort, heq⟩
  all_goals
    rw [heq]
    generalize buckets candidates req = b at hsift
  · rw [or_iff_right fun ⟨p, hp, hadm⟩ => hnone p hp hadm]
    have hempty : b.admissible = [] := by
      rw [hsift.admissible, List.filter_eq_nil_iff]
      exact fun p hp => by simpa using hnone p hp
    have hreported : (refuse b).selected.toList ++ (refuse b).alternatives ++
        (refuse b).eliminated = b.deferred.map Path.id ++ b.notFresh := by
      unfold refuse
      cases hdef : b.deferred <;> simp
    have hall := hsift.perm
    rw [hempty] at hall
    rw [hreported]
    constructor
    · intro hperm p hp
      by_contra hfail
      have hmem : p ∈ b.eliminated := by
        rw [hsift.eliminated]
        exact List.mem_filter.mpr ⟨hp, decide_eq_true hfail⟩
      have hlen := hall.length_eq.trans hperm.length_eq.symm
      have hpos := List.length_pos_of_mem hmem
      simp only [List.length_append, List.map_nil, List.length_nil, List.length_map] at hlen
      omega
    · intro hpass
      have hnil : b.eliminated = [] := by
        rw [hsift.eliminated, List.filter_eq_nil_iff]
        exact fun p hp => by simpa using hpass p hp
      simpa [hnil] using hall
  · obtain ⟨hmem, hadm⟩ := admissible_of_sorted hsort
    refine iff_of_true ?_ (.inl ⟨best, hmem, hadm⟩)
    have hreported : (choose b best rest).selected.toList ++ (choose b best rest).alternatives ++
        (choose b best rest).eliminated = (best :: rest).map Path.id ++
          b.deferred.map Path.id ++ b.notFresh ++ b.eliminated.map Path.id := by
      simp [choose]
    have hpool : ((best :: rest).map Path.id).Perm (b.admissible.map Path.id) := by
      rw [hsift.admissible, ← hsort]
      exact (stableSort_perm _ _).map Path.id
    rw [hreported]
    exact (((hpool.append_right _).append_right _).append_right _).trans hsift.perm

/-- A good path, a saturated one and a stale one: each is reported. -/
theorem mixed_candidates_reported :
    AccountsForAll
      [{ id := ⟨1⟩, freshness := ⟨Freshness.current, 0⟩ },
        { id := ⟨2⟩, freshness := ⟨Freshness.current, 0⟩, contention := ContentionState.saturated },
        { id := ⟨3⟩, freshness := ⟨Freshness.stale, 0⟩ }]
      (select
        [{ id := ⟨1⟩, freshness := ⟨Freshness.current, 0⟩ },
          { id := ⟨2⟩, freshness := ⟨Freshness.current, 0⟩,
            contention := ContentionState.saturated },
          { id := ⟨3⟩, freshness := ⟨Freshness.stale, 0⟩ }] {}) :=
  (select_accounts_iff (by decide) {}).mpr (.inl (by decide +kernel))

/-- Two current paths of epoch 6 and a request of epoch 7: the request is
rejected, and the decision names neither path. -/
theorem rejected_candidates_dropped :
    (List.map Path.id
        [{ id := ⟨1⟩, freshness := ⟨Freshness.current, 0⟩, epoch := ⟨6⟩ },
          { id := ⟨2⟩, freshness := ⟨Freshness.current, 0⟩, epoch := ⟨6⟩ }]).Nodup ∧
      ¬ AccountsForAll
        [{ id := ⟨1⟩, freshness := ⟨Freshness.current, 0⟩, epoch := ⟨6⟩ },
          { id := ⟨2⟩, freshness := ⟨Freshness.current, 0⟩, epoch := ⟨6⟩ }]
        (select
          [{ id := ⟨1⟩, freshness := ⟨Freshness.current, 0⟩, epoch := ⟨6⟩ },
            { id := ⟨2⟩, freshness := ⟨Freshness.current, 0⟩, epoch := ⟨6⟩ }]
          { epoch := ⟨7⟩ }) :=
  ⟨by decide, fun h => absurd (h ⟨1⟩) (by decide +kernel)⟩

/-! ### The decision against its specification -/

/-- What a request is answered, from its admissible and its saturated
candidates alone. -/
structure Answers (candidates : List Path) (req : SelectionRequest) (d : SelectionDecision) :
    Prop where
  selected_iff : d.selected.isSome ↔ ∃ p ∈ candidates, req.Admissible p
  best : ∀ id, d.selected = some id → ∃ b ∈ candidates, b.id = id ∧ req.Admissible b ∧
    (∀ q ∈ candidates, req.Admissible q → compareComponents b q req ≤ 0) ∧
    d.locality = b.locality ∧ d.theoretical = b.theoretical ∧ d.measured = b.bestMeasured ∧
    d.confidence = b.confidence ∧ d.contention = b.contention ∧
    (d.decision = Decision.usePathWithPenalty ↔
      (b.contention = ContentionState.moderate ∨ b.contention = ContentionState.high) ∨
        b.locality = LocalityClass.crossNuma ∨ b.locality = LocalityClass.sameHostRemoteRoot) ∧
    (d.decision = Decision.usePath ↔
      ¬ ((b.contention = ContentionState.moderate ∨ b.contention = ContentionState.high) ∨
        b.locality = LocalityClass.crossNuma ∨ b.locality = LocalityClass.sameHostRemoteRoot))
  defer_iff : d.decision = Decision.defer ↔
    (¬ ∃ p ∈ candidates, req.Admissible p) ∧ ∃ p ∈ candidates, req.Saturated p
  reject_iff : d.decision = Decision.reject ↔
    (¬ ∃ p ∈ candidates, req.Admissible p) ∧ ¬ ∃ p ∈ candidates, req.Saturated p

/-- A refusal defers exactly where a saturated candidate is left. -/
lemma answers_refuse {b : Buckets} (hsift : Sifted candidates req b)
    (hnone : ∀ p ∈ candidates, ¬ req.Admissible p) : Answers candidates req (refuse b) := by
  have hno : ¬ ∃ p ∈ candidates, req.Admissible p := fun ⟨p, hp, hadm⟩ => hnone p hp hadm
  have hsat : b.deferred = [] ↔ ¬ ∃ p ∈ candidates, req.Saturated p := by
    rw [hsift.deferred, List.filter_eq_nil_iff]
    simp
  unfold refuse
  cases hdef : b.deferred with
  | nil =>
      have hnosat := hsat.mp hdef
      constructor <;> simp [hno, hnosat, Decision.defer, Decision.reject]
  | cons p rest =>
      have hyes : ∃ p ∈ candidates, req.Saturated p := by
        by_contra hnosat
        rw [hsat.mpr hnosat] at hdef
        cases hdef
      constructor <;> simp [hno, hyes, Decision.defer, Decision.reject]

/-- The choice of the first of the sorted admissible candidates. -/
lemma answers_choose {best : Path} {rest : List Path} (b : Buckets)
    (hord : OrderedBy (ranksBefore req) (Path.rankKey req) candidates)
    (hconf : ∀ p ∈ candidates, p.confidence.value.val.isFinite = true)
    (hsort : stableSort (ranksBefore req) (candidates.filter fun p => req.Admissible p) =
      best :: rest) : Answers candidates req (choose b best rest) := by
  obtain ⟨hmem, hadm⟩ := admissible_of_sorted hsort
  have hex : ∃ p ∈ candidates, req.Admissible p := ⟨best, hmem, hadm⟩
  have hnum : ∀ p ∈ candidates, p.confidence.value.val.isNaN = false := fun p hp =>
    Binary64.isNaN_of_isFinite (hconf p hp)
  have hleast : ∀ q ∈ candidates, req.Admissible q → compareComponents best q req ≤ 0 := by
    intro q hq hadmq
    rw [compareComponents_eq req (hnum best hmem) (hnum q hq), threeWay_le_zero]
    exact (hord.mono (List.filter_subset_self _)).head_le hsort q
      (List.mem_filter.mpr ⟨hq, decide_eq_true hadmq⟩)
  have hpenalty : penalized best = true ↔
      (best.contention = ContentionState.moderate ∨ best.contention = ContentionState.high) ∨
        best.locality = LocalityClass.crossNuma ∨
        best.locality = LocalityClass.sameHostRemoteRoot := by
    rw [penalized, decide_eq_true_iff, or_assoc]
  refine ⟨iff_of_true rfl hex, ?_, ?_, ?_⟩
  · intro id hid
    refine ⟨best, hmem, Option.some.inj hid, hadm, hleast, rfl, rfl, rfl, rfl, rfl, ?_, ?_⟩
    · rw [← hpenalty]
      cases hpen : penalized best <;> simp [choose, hpen, Decision.usePath,
        Decision.usePathWithPenalty]
    · rw [← hpenalty]
      cases hpen : penalized best <;> simp [choose, hpen, Decision.usePath,
        Decision.usePathWithPenalty]
  · cases hpen : penalized best <;> simp [choose, hpen, hex, Decision.usePath,
      Decision.usePathWithPenalty, Decision.defer]
  · cases hpen : penalized best <;> simp [choose, hpen, hex, Decision.usePath,
      Decision.usePathWithPenalty, Decision.reject]

/-- **Selection meets its specification**, and two candidate lists with the same
admissible members give the same selected path. -/
theorem select_meets_spec (hids : (candidates.map Path.id).Nodup)
    (hconf : ∀ p ∈ candidates, p.confidence.value.val.isFinite = true) (req : SelectionRequest) :
    Answers candidates req (select candidates req) ∧
      ∀ candidates' : List Path, (candidates'.map Path.id).Nodup →
        (∀ p, req.Admissible p → (p ∈ candidates' ↔ p ∈ candidates)) →
        (select candidates' req).selected = (select candidates req).selected := by
  have hord := orderedBy_ranksBefore req hids hconf
  refine ⟨?_, fun candidates' hids' hsame => ?_⟩
  · rcases select_cases candidates req with ⟨hnone, heq⟩ | ⟨best, rest, hsort, heq⟩
    · rw [heq]
      exact answers_refuse (sifted_buckets candidates req) hnone
    · rw [heq]
      exact answers_choose _ hord hconf hsort
  · have hperm : (candidates'.filter fun p => req.Admissible p).Perm
        (candidates.filter fun p => req.Admissible p) := by
      refine (List.perm_ext_iff_of_nodup (hids'.of_map.filter _) (hids.of_map.filter _)).mpr
        fun p => ?_
      simp only [List.mem_filter, decide_eq_true_iff]
      exact and_congr_left (hsame p)
    rw [selected_select, selected_select,
      (hord.mono (List.filter_subset_self _)).stableSort_perm hperm]

/-- A path with `PEER_ACCESS` that is `AGING` and highly loaded. -/
def loadedPath : Path where
  id := ⟨1⟩
  freshness := ⟨Freshness.aging, 0⟩
  contention := ContentionState.high
  caps := {⟨0⟩}

/-- The same path, `CURRENT` and behind another root complex. -/
def remotePath : Path where
  id := ⟨2⟩
  freshness := ⟨Freshness.current, 0⟩
  locality := LocalityClass.sameHostRemoteRoot
  caps := {⟨0⟩}

/-- The same path, `STALE`. -/
def stalePath : Path := { loadedPath with id := ⟨3⟩, freshness := ⟨Freshness.stale, 62⟩ }

/-- A request for `PEER_ACCESS` among these paths. The stale one makes no difference to the
path that is selected, nor does the order of the others. -/
theorem loaded_path_selected :
    let req : SelectionRequest := { requiredCapabilities := [⟨0⟩] }
    Answers [stalePath, loadedPath, remotePath] req
        (select [stalePath, loadedPath, remotePath] req) ∧
      (select [remotePath, loadedPath] req).selected =
        (select [stalePath, loadedPath, remotePath] req).selected := by
  intro req
  obtain ⟨hanswers, hsame⟩ := @select_meets_spec [stalePath, loadedPath, remotePath]
    (by decide) (by decide +kernel) req
  refine ⟨hanswers, hsame _ (by decide) fun p hp => ?_⟩
  have hstale : p ≠ stalePath := by
    rintro rfl
    exact absurd hp (by decide)
  simp only [List.mem_cons, List.not_mem_nil, or_false, hstale, false_or]
  exact Or.comm

/-! ### The order of the candidates -/

/-- **The order of the candidates does not matter**: the ranking is the same and
the decision is, up to the order of the paths that were not selected. -/
theorem select_perm {candidates' : List Path} (hperm : candidates'.Perm candidates)
    (hids : (candidates.map Path.id).Nodup)
    (hconf : ∀ p ∈ candidates, p.confidence.value.val.isFinite = true) (req : SelectionRequest) :
    let d := select candidates req
    let d' := select candidates' req
    rank candidates' req = rank candidates req ∧ d'.decision = d.decision ∧
      d'.selected = d.selected ∧ d'.locality = d.locality ∧ d'.theoretical = d.theoretical ∧
      d'.measured = d.measured ∧ d'.confidence = d.confidence ∧ d'.contention = d.contention ∧
      d'.reranked = d.reranked ∧ d'.alternatives.Perm d.alternatives ∧
      d'.eliminated.Perm d.eliminated := by
  intro d d'
  have hord := orderedBy_ranksBefore req hids hconf
  have hsorted := (hord.mono (List.filter_subset_self candidates)).stableSort_perm
    (hperm.filter fun p => req.Admissible p)
  have hsift := sifted_buckets candidates req
  have hsift' := sifted_buckets candidates' req
  have hdef : (buckets candidates' req).deferred.Perm (buckets candidates req).deferred := by
    rw [hsift.deferred, hsift'.deferred]
    exact hperm.filter _
  have hnot : (buckets candidates' req).notFresh.Perm (buckets candidates req).notFresh := by
    rw [hsift.notFresh, hsift'.notFresh]
    exact (hperm.filter _).map Path.id
  have helim : (buckets candidates' req).eliminated.Perm (buckets candidates req).eliminated := by
    rw [hsift.eliminated, hsift'.eliminated]
    exact hperm.filter _
  have hrank : rank candidates' req = rank candidates req := by
    rw [rank, rank, hord.stableSort_perm hperm]
  refine ⟨hrank, ?_⟩
  simp only [d, d', select, hsift.admissible, hsift'.admissible, hsorted]
  cases stableSort (ranksBefore req) (candidates.filter fun p => req.Admissible p) with
  | nil =>
      have hempty : (buckets candidates' req).deferred.isEmpty =
          (buckets candidates req).deferred.isEmpty := by
        rw [Bool.eq_iff_iff, List.isEmpty_iff, List.isEmpty_iff, ← List.length_eq_zero_iff,
          ← List.length_eq_zero_iff, hdef.length_eq]
      simp only [refuse, hempty]
      split
      · exact ⟨rfl, rfl, rfl, rfl, rfl, rfl, rfl, rfl, .refl _, hnot⟩
      · exact ⟨rfl, rfl, rfl, rfl, rfl, rfl, rfl, rfl, hdef.map Path.id, hnot⟩
  | cons best rest =>
      refine ⟨rfl, rfl, rfl, rfl, rfl, rfl, rfl, rfl, ?_, ?_⟩
      · exact (hdef.map Path.id).append_left _
      · exact hnot.append (helim.map Path.id)

/-- Two current paths, given in both orders. -/
theorem swapped_candidates_ranked_alike :
    rank [{ id := ⟨2⟩, freshness := ⟨Freshness.current, 0⟩ },
        { id := ⟨1⟩, freshness := ⟨Freshness.current, 0⟩ }] {} =
      rank [{ id := ⟨1⟩, freshness := ⟨Freshness.current, 0⟩ },
        { id := ⟨2⟩, freshness := ⟨Freshness.current, 0⟩ }] {} :=
  (select_perm (List.Perm.swap _ _ []) (by decide) (by decide +kernel) {}).1

/-! ### The ranking in the decision -/

/-- **`rank` and `select` agree**: where a path is selected, the ranking in the
decision is the ranking of all candidates restricted to the admissible ones, the
selected path leads it and the others of it lead the alternatives. -/
theorem reranked_eq_rank (hids : (candidates.map Path.id).Nodup)
    (hconf : ∀ p ∈ candidates, p.confidence.value.val.isFinite = true) (req : SelectionRequest)
    (hadm : ∃ p ∈ candidates, req.Admissible p) :
    let d := select candidates req
    d.reranked = (rank candidates req).filter
        (fun id => id ∈ (candidates.filter fun p => req.Admissible p).map Path.id) ∧
      d.reranked.head? = d.selected ∧ d.reranked.tail <+: d.alternatives := by
  intro d
  have hord := orderedBy_ranksBefore req hids hconf
  obtain ⟨p, hp, hadmp⟩ := hadm
  rcases select_cases candidates req with ⟨hnone, -⟩ | ⟨best, rest, hsort, heq⟩
  · exact absurd hadmp (hnone p hp)
  · have hd : d = choose (buckets candidates req) best rest := heq
    have hmem : ∀ q ∈ stableSort (ranksBefore req) candidates,
        decide (q.id ∈ (candidates.filter fun p => req.Admissible p).map Path.id) =
          decide (req.Admissible q) := by
      intro q hq
      have hq' := (stableSort_perm (ranksBefore req) candidates).subset hq
      rw [Bool.eq_iff_iff, decide_eq_true_iff, decide_eq_true_iff, List.mem_map]
      constructor
      · rintro ⟨q', hq'mem, hid⟩
        obtain ⟨hmem', hadm'⟩ := List.mem_filter.mp hq'mem
        rw [← List.inj_on_of_nodup_map hids hmem' hq' hid]
        exact of_decide_eq_true hadm'
      · exact fun hadmq => ⟨q, List.mem_filter.mpr ⟨hq', decide_eq_true hadmq⟩, rfl⟩
    rw [hd]
    refine ⟨?_, rfl, ?_⟩
    · rw [rank, List.filter_map]
      change (best :: rest).map Path.id = _
      rw [← hsort, ← hord.filter_stableSort]
      exact congrArg (List.map Path.id) (List.filter_congr fun q hq => (hmem q hq).symm)
    · exact List.prefix_append _ _

/-- A stale path with the smaller id and a current one: the current one leads the
decision's ranking and is selected. -/
theorem stale_path_not_reranked :
    (select
        [{ id := ⟨1⟩, freshness := ⟨Freshness.stale, 0⟩ },
          { id := ⟨2⟩, freshness := ⟨Freshness.current, 0⟩ }] {}).reranked.head? =
      (select
        [{ id := ⟨1⟩, freshness := ⟨Freshness.stale, 0⟩ },
          { id := ⟨2⟩, freshness := ⟨Freshness.current, 0⟩ }] {}).selected :=
  (reranked_eq_rank (by decide) (by decide +kernel) {} (by decide +kernel)).2.1

end PathSelector

end PcieFabric
