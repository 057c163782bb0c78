import Mathlib
import PcieFabric.Persist.Stability
import PcieFabric.Selection.Decision

/-!
Selection among paths that were encoded and decoded (`persistence.hpp`,
`selection.hpp`).

* `Path.recoded`: `decode_path` on what `encode` writes. `recoded_eq` settles what it
  returns: the confidence in 256 steps, and no capabilities.
* `rankKey_kept_le_iff`: the order of two recoded paths, for a request without
  required capabilities.
* `select_recoded_iff`: when such a request is given the same answer.
-/

namespace PcieFabric

open Ranking Persist

/-! ### What a path keeps -/

/-- `decode_path` on what `encode` writes. -/
def Path.recoded (beyond : Nat → UInt8) (p : Path) : Result Path :=
  (decodePath { data := encodePath p, beyond }).1

/-- What the decoder returns for an encoded path. -/
def Path.kept (p : Path) : Path := (PathImage.ofPath p).toPath

/-- A path with valid enum fields, chains shorter than `2 ^ 32` and a confidence in
`[0, 1]`. -/
structure Path.Transmittable (p : Path) : Prop where
  enums : p.EnumsValid
  bridgeChain : p.bridgeChain.length < 2 ^ 32
  links : p.links.length < 2 ^ 32
  confidence : Confidence.isValid p.confidence.value = true

/-- A path record holds no string. -/
lemma Persist.PathImage.stringFree (i : PathImage) : StringFree i.fields := by
  have hflagged : ∀ {ι : Type} {f : ι → List Token}, (∀ i, StringFree (f i)) →
      ∀ x : Flagged ι, StringFree (x.fields f) := by
    intro ι f hf x
    by_cases hflag : x.flag ≠ 0
    · rw [Flagged.fields_of_ne hflag]
      exact stringFree_append (stringFree_fixed _) (hf _)
    · rw [Flagged.fields_of_eq hflag, List.append_nil]
      exact stringFree_fixed _
  have hlist : ∀ xs, StringFree (listFields xs) := fun xs =>
    stringFree_append (stringFree_fixed _) (stringFree_flatMap fun _ => stringFree_fixed _)
  refine stringFree_flatten ?_
  simp only [List.forall_mem_cons, List.not_mem_nil, false_imp_iff, implies_true, and_true,
    stringFree_fixed, hlist, true_and]
  exact ⟨hflagged (fun _ => stringFree_fixed _) _, hflagged (fun _ => stringFree_fixed _) _⟩

/-- **What comes back**, for chains of any length below `2 ^ 32`. -/
lemma Path.recoded_eq {p : Path} (h : p.Transmittable) (beyond : Nat → UInt8) :
    p.recoded beyond = .ok p.kept := by
  have hacc : (PathImage.ofPath p).Accepted :=
    { pathClass_valid := h.enums.pathClass
      bridgeChain_length := (List.length_map _).trans_lt h.bridgeChain
      links_length := (List.length_map _).trans_lt h.links
      locality_valid := h.enums.locality
      freshness_valid := h.enums.freshness
      contention_valid := h.enums.contention }
  obtain ⟨r, hr, -⟩ := exists_run_whole reads_decodePath ⟨_, hacc, rfl, rfl⟩
    ((PathImage.ofPath p).stringFree.fits 0) beyond
  rw [bytes_ofPath] at hr
  rw [recoded, hr]
  rfl

/-- Every path of a list comes back. -/
lemma mapM_recoded {candidates : List Path} (h : ∀ p ∈ candidates, p.Transmittable)
    (beyond : Nat → UInt8) :
    candidates.mapM (Path.recoded beyond) = .ok (candidates.map Path.kept) := by
  induction candidates with
  | nil => rfl
  | cons p rest ih =>
      obtain ⟨hp, hrest⟩ := List.forall_mem_cons.mp h
      rw [List.mapM_cons, Path.recoded_eq hp, ih hrest]
      rfl

/-! ### Confidence bytes -/

lemma Confidence.isFinite_of_isValid {v : Double} (h : Confidence.isValid v = true) :
    v.val.isFinite = true := ((Bool.and_eq_true _ _).mp h).1

/-- A larger byte is a larger confidence. -/
lemma Confidence.key_ofByte_strictMono :
    StrictMono fun k : Fin 256 => Binary64.key (Confidence.ofByte (UInt8.ofNat k.1)).value.val := by
  refine Fin.strictMono_iff_lt_succ.mpr ?_
  decide +kernel

/-- Confidences that were read are ordered as their bytes. -/
lemma Confidence.key_ofByte_lt_iff {b c : UInt8} :
    Binary64.key (Confidence.ofByte b).value.val < Binary64.key (Confidence.ofByte c).value.val ↔
      b < c := by
  have hlt := key_ofByte_strictMono.lt_iff_lt (a := ⟨b.toNat, b.toNat_lt⟩)
    (b := ⟨c.toNat, c.toNat_lt⟩)
  simpa only [UInt8.ofNat_toNat, Fin.mk_lt_mk, ← UInt8.lt_iff_toNat_lt] using hlt

/-! ### The order of two recoded paths -/

namespace Path

/-- The two paths do not differ in what is compared before the confidence. -/
def TiesWith (p q : Path) : Prop :=
  localityRank p.locality = localityRank q.locality ∧ p.comparedMeasured = q.comparedMeasured ∧
    (p.comparedTheoretical == q.comparedTheoretical) = true ∧
    contentionRank p.contention = contentionRank q.contention

/-- The confidence byte of the path is the larger one, or the two are equal and its
source, destination and id come first. -/
def StaysAhead (p q : Path) : Prop :=
  q.confidence.toByte < p.confidence.toByte ∨
    q.confidence.toByte = p.confidence.toByte ∧
      toLex (p.source.value.toNat, toLex (p.destination.value.toNat, p.id.value.toNat)) ≤
        toLex (q.source.value.toNat, toLex (q.destination.value.toNat, q.id.value.toNat))

instance (p q : Path) : Decidable (p.TiesWith q) := inferInstanceAs (Decidable (_ ∧ _))
instance (p q : Path) : Decidable (p.StaysAhead q) := inferInstanceAs (Decidable (_ ∨ _))

variable {p q : Path} {req : SelectionRequest}

/-- What is compared behind equal components, for paths that were recoded. -/
lemma staysAhead_iff :
    toLex (OrderDual.toDual (Binary64.key (Confidence.ofByte p.confidence.toByte).value.val),
        toLex (p.source.value.toNat, toLex (p.destination.value.toNat, p.id.value.toNat))) ≤
      toLex (OrderDual.toDual (Binary64.key (Confidence.ofByte q.confidence.toByte).value.val),
        toLex (q.source.value.toNat, toLex (q.destination.value.toNat, q.id.value.toNat))) ↔
      p.StaysAhead q := by
  rw [Prod.Lex.toLex_le_toLex, OrderDual.toDual_lt_toDual, Confidence.key_ofByte_lt_iff,
    OrderDual.toDual_inj]
  refine or_congr_right (and_congr_left' ?_)
  constructor
  · intro hkey
    refine UInt8.le_antisymm (UInt8.not_lt.mp fun hlt => ?_) (UInt8.not_lt.mp fun hlt => ?_)
    · exact absurd hkey (Confidence.key_ofByte_lt_iff.mpr hlt).ne
    · exact absurd hkey (Confidence.key_ofByte_lt_iff.mpr hlt).ne'
  · intro hbyte
    rw [hbyte]

/-- A path is admissible as it was, for a request without required capabilities. -/
lemma admissible_kept (hreq : req.requiredCapabilities = []) :
    req.Admissible p.kept ↔ req.Admissible p := by
  rw [kept, PathImage.toPath_ofPath]
  simp only [SelectionRequest.Admissible, SelectionRequest.Eligible, SelectionRequest.Authorizes,
    SelectionRequest.Supports, Fresh, hreq, List.not_mem_nil, false_imp_iff, implies_true]

/-- A path is held back by its contention as it was. -/
lemma saturated_kept (hreq : req.requiredCapabilities = []) :
    req.Saturated p.kept ↔ req.Saturated p := by
  rw [kept, PathImage.toPath_ofPath]
  simp only [SelectionRequest.Saturated, SelectionRequest.Eligible, SelectionRequest.Authorizes,
    SelectionRequest.Supports, Fresh, hreq, List.not_mem_nil, false_imp_iff, implies_true]

/-- The key of an admissible path. -/
lemma rankKey_of_admissible (h : req.Admissible p) :
    p.rankKey req = Sum.inlₗ (p.admittedKey req) := by
  have hadm : p.admitted req = true := by
    rw [admitted, Bool.and_eq_true, Bool.and_eq_true, decide_eq_true_iff, beq_iff_eq, beq_iff_eq,
      freshnessRank_le_one_iff]
    exact ⟨⟨h.1.2.2, h.1.1.1⟩, h.1.1.2⟩
  rw [rankKey, if_pos hadm]

/-- The key of a path that was recoded: only the confidence is another. -/
lemma admittedKey_kept (hreq : req.requiredCapabilities = []) :
    p.kept.admittedKey req = toLex (false, toLex (localityRank p.locality,
      toLex (OrderDual.toDual p.comparedMeasured.toNat,
      toLex (OrderDual.toDual (Binary64.key p.comparedTheoretical),
      toLex (contentionRank p.contention,
      toLex (OrderDual.toDual (Binary64.key (Confidence.ofByte p.confidence.toByte).value.val),
      toLex (p.source.value.toNat, toLex (p.destination.value.toNat, p.id.value.toNat)))))))) := by
  rw [kept, PathImage.toPath_ofPath, admittedKey, hreq]
  rfl

/-- **The order of two recoded paths.** Of two admissible paths in order the first
stays in front exactly where, if they tie up to the confidence, it stays ahead. -/
lemma rankKey_kept_le_iff (hreq : req.requiredCapabilities = []) (hp : req.Admissible p)
    (hq : req.Admissible q) (hle : p.rankKey req ≤ q.rankKey req) :
    p.kept.rankKey req ≤ q.kept.rankKey req ↔ (p.TiesWith q → p.StaysAhead q) := by
  rw [rankKey_of_admissible hp, rankKey_of_admissible hq, Sum.Lex.inl_le_inl_iff, admittedKey,
    admittedKey, hreq] at hle
  rw [rankKey_of_admissible ((admissible_kept hreq).mpr hp),
    rankKey_of_admissible ((admissible_kept hreq).mpr hq), Sum.Lex.inl_le_inl_iff,
    admittedKey_kept hreq, admittedKey_kept hreq, ← staysAhead_iff]
  have htheo : (p.comparedTheoretical == q.comparedTheoretical) = true ↔
      Binary64.key p.comparedTheoretical = Binary64.key q.comparedTheoretical :=
    Binary64.beq_iff p.isNaN_comparedTheoretical q.isNaN_comparedTheoretical
  have hloc := snd_le_of_lex_le hle rfl
  constructor
  · rintro hkept ⟨hl, hm, ht, hc⟩
    have hmeasured := snd_le_of_lex_le (snd_le_of_lex_le hkept rfl) hl
    have htheoretical := snd_le_of_lex_le hmeasured
      (congrArg (fun m => OrderDual.toDual m.toNat) hm)
    exact snd_le_of_lex_le (snd_le_of_lex_le htheoretical (congrArg _ (htheo.mp ht))) hc
  · intro hahead
    refine (lex_le_iff_of_lex_le hle).mpr fun _ => (lex_le_iff_of_lex_le hloc).mpr fun hl => ?_
    have hmeasured := snd_le_of_lex_le hloc hl
    refine (lex_le_iff_of_lex_le hmeasured).mpr fun hm => ?_
    have htheoretical := snd_le_of_lex_le hmeasured hm
    refine (lex_le_iff_of_lex_le htheoretical).mpr fun ht => ?_
    have hcontention := snd_le_of_lex_le htheoretical ht
    refine (lex_le_iff_of_lex_le hcontention).mpr fun hc => hahead ⟨hl, ?_, ?_, hc⟩
    · exact UInt64.toNat_inj.mp (OrderDual.toDual_inj.mp hm)
    · exact htheo.mpr (OrderDual.toDual_inj.mp ht)

end Path

namespace PathSelector

variable {candidates : List Path} {req : SelectionRequest}

/-! ### The selected path -/

/-- Of paths with distinct ids the selected one is the admissible one with the least
key. -/
lemma selected_eq_some_iff (hids : (candidates.map Path.id).Nodup)
    (hconf : ∀ p ∈ candidates, p.confidence.value.val.isFinite = true) {b : Path}
    (hb : b ∈ candidates) : (select candidates req).selected = some b.id ↔
      req.Admissible b ∧ ∀ q ∈ candidates, req.Admissible q → b.rankKey req ≤ q.rankKey req := by
  have hord := (orderedBy_ranksBefore req hids hconf).mono
    (List.filter_subset_self (p := fun p => decide (req.Admissible p)) candidates)
  have hfirst := hord.head?_eq_some_iff (b := b)
  simp only [List.mem_filter, decide_eq_true_iff, hb, true_and] at hfirst
  rw [selected_select, Option.map_eq_some_iff]
  constructor
  · rintro ⟨c, hc, hid⟩
    have hmem := (List.mem_filter.mp (hord.head?_eq_some_iff.mp hc).1).1
    obtain rfl : c = b := List.inj_on_of_nodup_map hids hmem hb hid
    obtain ⟨hadm, hle⟩ := hfirst.mp hc
    exact ⟨hadm, fun q hq hadmq => hle q ⟨hq, hadmq⟩⟩
  · rintro ⟨hadm, hle⟩
    exact ⟨b, hfirst.mpr ⟨hadm, fun q hq => hle q hq.1 hq.2⟩, rfl⟩

/-- The decision for a selected path depends on that path alone. -/
lemma decision_of_selected (hids : (candidates.map Path.id).Nodup) {b : Path}
    (hb : b ∈ candidates) (h : (select candidates req).selected = some b.id) :
    (select candidates req).decision =
      if penalized b then Decision.usePathWithPenalty else Decision.usePath := by
  rcases select_cases candidates req with ⟨hnone, heq⟩ | ⟨best, rest, hsort, heq⟩
  · rw [heq, refuse] at h
    split at h <;> cases h
  · rw [heq] at h ⊢
    obtain rfl : best = b :=
      List.inj_on_of_nodup_map hids (admissible_of_sorted hsort).1 hb (Option.some.inj h)
    rfl

/-- Without an admissible candidate the saturated ones decide. -/
lemma select_of_none (h : ∀ p ∈ candidates, ¬ req.Admissible p) :
    (select candidates req).selected = none ∧ (select candidates req).decision =
      if ∃ p ∈ candidates, req.Saturated p then Decision.defer else Decision.reject := by
  rcases select_cases candidates req with ⟨-, heq⟩ | ⟨best, rest, hsort, -⟩
  · have hdef := (sifted_buckets candidates req).deferred
    rw [heq, refuse]
    by_cases hsat : ∃ p ∈ candidates, req.Saturated p
    · rw [if_pos hsat, if_neg]
      · exact ⟨rfl, rfl⟩
      · obtain ⟨p, hp, hsatp⟩ := hsat
        rw [List.isEmpty_iff, hdef, List.filter_eq_nil_iff]
        exact fun hnil => hnil p hp (decide_eq_true hsatp)
    · rw [if_neg hsat, if_pos]
      · exact ⟨rfl, rfl⟩
      · rw [List.isEmpty_iff, hdef, List.filter_eq_nil_iff]
        exact fun p hp hsatp => hsat ⟨p, hp, of_decide_eq_true hsatp⟩
  · obtain ⟨hmem, hadm⟩ := admissible_of_sorted hsort
    exact absurd hadm (h best hmem)

/-- **Selecting among recoded paths, exactly.** Every list of paths comes back, and a
request without required capabilities is given the same decision and the same path
if and only if the path that was selected, if any, stays ahead of every admissible
one that ties with it up to the confidence. -/
theorem select_recoded_iff (h : ∀ p ∈ candidates, p.Transmittable)
    (hids : (candidates.map Path.id).Nodup) (hreq : req.requiredCapabilities = [])
    (beyond : Nat → UInt8) : ∃ decoded, candidates.mapM (Path.recoded beyond) = .ok decoded ∧
      (((select decoded req).decision = (select candidates req).decision ∧
          (select decoded req).selected = (select candidates req).selected) ↔
        ∀ best ∈ candidates, (select candidates req).selected = some best.id →
          ∀ q ∈ candidates, req.Admissible q → best.TiesWith q → best.StaysAhead q) := by
  have hids' : ((candidates.map Path.kept).map Path.id).Nodup := by
    rwa [List.map_map]
  have hfinite : ∀ p ∈ candidates, p.confidence.value.val.isFinite = true := fun p hp =>
    Confidence.isFinite_of_isValid (h p hp).confidence
  have hfinite' : ∀ p ∈ candidates.map Path.kept, p.confidence.value.val.isFinite = true :=
    List.forall_mem_map.mpr fun p _ =>
      Confidence.isFinite_of_isValid (Confidence.isValid_ofByte p.confidence.toByte)
  refine ⟨candidates.map Path.kept, mapM_recoded h beyond, ?_⟩
  rcases selected_cases candidates req with ⟨hnone, hsel⟩ | ⟨best, hbest, hadm, hsel⟩
  · have hnone' : ∀ p ∈ candidates.map Path.kept, ¬ req.Admissible p :=
      List.forall_mem_map.mpr fun p hp hadm => hnone p hp ((Path.admissible_kept hreq).mp hadm)
    have hsat : (∃ p ∈ candidates.map Path.kept, req.Saturated p) ↔
        ∃ p ∈ candidates, req.Saturated p := by
      simp only [List.mem_map, exists_exists_and_eq_and, Path.saturated_kept hreq]
    refine iff_of_true ⟨?_, ?_⟩ fun b _ hb => ?_
    · rw [(select_of_none hnone').2, (select_of_none hnone).2]
      simp only [hsat]
    · rw [(select_of_none hnone').1, hsel]
    · rw [hsel] at hb
      cases hb
  · have hmem : best.kept ∈ candidates.map Path.kept := List.mem_map_of_mem hbest
    have hleast := ((selected_eq_some_iff hids hfinite hbest).mp hsel).2
    have hkept : (select (candidates.map Path.kept) req).selected = some best.id ↔
        ∀ q ∈ candidates, req.Admissible q → best.TiesWith q → best.StaysAhead q := by
      rw [show best.id = best.kept.id from rfl, selected_eq_some_iff hids' hfinite' hmem,
        and_iff_right ((Path.admissible_kept hreq).mpr hadm), List.forall_mem_map]
      refine forall₂_congr fun q hq => ?_
      rw [Path.admissible_kept hreq]
      exact forall_congr' fun hadmq =>
        Path.rankKey_kept_le_iff hreq hadm hadmq (hleast q hq hadmq)
    constructor
    · rintro ⟨-, hsame⟩ b hb hselb
      rw [hsel] at hsame hselb
      obtain rfl : best = b := List.inj_on_of_nodup_map hids hbest hb (Option.some.inj hselb)
      exact hkept.mp hsame
    · intro hahead
      have hsame := hkept.mpr (hahead best hbest hsel)
      refine ⟨?_, hsame.trans hsel.symm⟩
      rw [decision_of_selected hids' hmem hsame, decision_of_selected hids hbest hsel]
      rfl

/-- Two current paths whose confidences are written as the bytes 200 and 100. -/
def farCalls : List Path :=
  [{ id := ⟨1⟩, freshness := ⟨Freshness.current, 0⟩, confidence := Confidence.ofByte 100 },
    { id := ⟨2⟩, freshness := ⟨Freshness.current, 0⟩, confidence := Confidence.ofByte 200 }]

/-- The same path is selected from them after they were recoded. -/
theorem select_recoded_farCalls :
    ∃ decoded, farCalls.mapM (Path.recoded fun _ => 0) = .ok decoded ∧
      (((select decoded {}).decision = (select farCalls {}).decision ∧
          (select decoded {}).selected = (select farCalls {}).selected) ↔
        ∀ best ∈ farCalls, (select farCalls {}).selected = some best.id →
          ∀ q ∈ farCalls, SelectionRequest.Admissible {} q → best.TiesWith q →
            best.StaysAhead q) := by
  refine select_recoded_iff (fun p hp => ?_) (by decide) rfl _
  fin_cases hp
  all_goals exact ⟨⟨by decide, by decide, nofun, by decide, by decide, by decide, by decide⟩,
    by decide, by decide, by decide +kernel⟩

/-- Two current paths whose confidences 0.5 and 0.501 are written as one byte. -/
def closeCalls : List Path :=
  [{ id := ⟨1⟩, freshness := ⟨Freshness.current, 0⟩, confidence := ⟨.ofFloat 0.5⟩ },
    { id := ⟨2⟩, freshness := ⟨Freshness.current, 0⟩, confidence := ⟨.ofFloat 0.501⟩ }]

/-- A current path with peer access. -/
def peerCalls : List Path :=
  [{ id := ⟨1⟩, freshness := ⟨Freshness.current, 0⟩, caps := {⟨0⟩} }]

/-- **Recoding changes what is decided.** The second of two close calls is selected, and
after they were recoded the first is. A path that has the required capability is used,
and after it was recoded the request is rejected. -/
theorem recoded_selection_differs :
    ((∀ p ∈ closeCalls ++ peerCalls, p.Transmittable) ∧ (closeCalls.map Path.id).Nodup) ∧
      (select closeCalls {}).selected = some ⟨2⟩ ∧
      (closeCalls.mapM (Path.recoded fun _ => 0)).map (fun ps => (select ps {}).selected) =
        .ok (some ⟨1⟩) ∧
      (select peerCalls { requiredCapabilities := [⟨0⟩] }).decision = Decision.usePath ∧
      (peerCalls.mapM (Path.recoded fun _ => 0)).map
        (fun ps => (select ps { requiredCapabilities := [⟨0⟩] }).decision) =
        .ok Decision.reject := by
  refine ⟨⟨fun p hp => ?_, by decide⟩, by decide +kernel, by decide +kernel, by decide +kernel,
    by decide +kernel⟩
  fin_cases hp
  all_goals exact ⟨⟨by decide, by decide, nofun, by decide, by decide, by decide, by decide⟩,
    by decide, by decide, by decide +kernel⟩

end PathSelector

end PcieFabric
