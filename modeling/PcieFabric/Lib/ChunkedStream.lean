import Mathlib.Tactic

/-!
Reading a stream that arrives in pieces.

* `fill`: receive until so many items are there; a receive call that hands over
  nothing ends the loop.
* `Serves`: the contract of a receive call, relative to the items that are ahead:
  while some are, it hands over at least one and at most as many as asked for.
* `fill_of_le`, `fill_of_lt`: how the pieces are cut does not matter. The loop
  returns the next items of the stream, or it ends where the stream ran dry.
* `fill_invariant`: the frame rule of the loop.
* `stop`, `fill_cases`: the state whose receive call ends the loop early, and what the
  rounds before it preserve.
-/

namespace PcieFabric.ChunkedStream

variable {σ ε β : Type*}

/-- Receive `need` items. `closed` is the error for a call that hands over
nothing. -/
def fill (recv : ℕ → σ → Except ε (List β) × σ) (closed : ε) (need : ℕ) (s : σ) :
    Except ε (List β) × σ :=
  if need = 0 then (.ok [], s)
  else
    match recv need s with
    | (.error e, s') => (.error e, s')
    | (.ok [], s') => (.error closed, s')
    | (.ok (b :: bs), s') =>
        match fill recv closed (need - (bs.length + 1)) s' with
        | (.error e, s'') => (.error e, s'')
        | (.ok more, s'') => (.ok (b :: bs ++ more), s'')
termination_by need

/-- The contract of a receive call. -/
structure Serves (recv : ℕ → σ → Except ε (List β) × σ) (ahead : σ → List β) : Prop where
  /-- Items that are ahead are handed over, some of them and in order. -/
  serve : ∀ n s, 0 < n → ahead s ≠ [] → ∃ got s', recv n s = (.ok got, s') ∧ got ≠ [] ∧
    got.length ≤ n ∧ ahead s = got ++ ahead s'
  /-- Where nothing is ahead, nothing is handed over. -/
  dry : ∀ n s got, ahead s = [] → (recv n s).1 = .ok got → got = []

variable {recv : ℕ → σ → Except ε (List β) × σ} {ahead : σ → List β} (closed : ε)

@[simp] lemma fill_zero (s : σ) : fill recv closed 0 s = (.ok [], s) := by
  rw [fill, if_pos rfl]

/-- One round of the loop that receives something. -/
lemma fill_round {need : ℕ} {s s' : σ} {got : List β} (hneed : 0 < need)
    (h : recv need s = (.ok got, s')) (hgot : got ≠ []) :
    fill recv closed need s =
      match fill recv closed (need - got.length) s' with
      | (.error e, s'') => (.error e, s'')
      | (.ok more, s'') => (.ok (got ++ more), s'') := by
  cases got with
  | nil => exact absurd rfl hgot
  | cons b bs =>
      rw [fill, if_neg hneed.ne', h]
      rfl

/-- **The loop returns the next items**, however they are cut into pieces. -/
theorem fill_of_le (hserve : Serves recv ahead) {need : ℕ} {s : σ}
    (h : need ≤ (ahead s).length) :
    ∃ s', fill recv closed need s = (.ok ((ahead s).take need), s') ∧
      ahead s' = (ahead s).drop need := by
  induction need using Nat.strong_induction_on generalizing s with
  | _ need ih =>
      rcases Nat.eq_zero_or_pos need with rfl | hpos
      · exact ⟨s, by simp, by simp⟩
      have hne : ahead s ≠ [] := by
        rintro heq
        rw [heq, List.length_nil] at h
        omega
      obtain ⟨got, s₁, hrecv, hgot, hle, hsplit⟩ := hserve.serve need s hpos hne
      have hlen : 0 < got.length := List.length_pos_iff.mpr hgot
      rw [hsplit, List.length_append] at h
      obtain ⟨s₂, hfill, hahead⟩ := ih (need - got.length) (by omega) (s := s₁) (by omega)
      refine ⟨s₂, ?_, ?_⟩
      · rw [fill_round closed hpos hrecv hgot, hfill, hsplit, List.take_append,
          List.take_of_length_le hle]
      · rw [hahead, hsplit, List.drop_append, List.drop_of_length_le hle, List.nil_append]

/-- **The loop ends where the stream runs dry**: every item ahead was received,
and the last receive call hands over nothing or fails. `I` is what the receive
calls preserve. -/
theorem fill_of_lt (hserve : Serves recv ahead) {I : σ → Prop}
    (hrecv : ∀ n s, I s → I (recv n s).2) {need : ℕ} {s : σ} (hs : I s)
    (h : (ahead s).length < need) :
    ∃ n s₀ e, 0 < n ∧ I s₀ ∧ ahead s₀ = [] ∧
      fill recv closed need s = (.error e, (recv n s₀).2) ∧
      ((recv n s₀).1 = .ok [] ∧ e = closed ∨ (recv n s₀).1 = .error e) := by
  induction need using Nat.strong_induction_on generalizing s with
  | _ need ih =>
      have hpos : 0 < need := by omega
      by_cases hne : ahead s = []
      · refine ⟨need, s, ?_⟩
        rw [fill, if_neg hpos.ne']
        rcases hrun : recv need s with ⟨e | got, s'⟩
        · exact ⟨e, hpos, hs, hne, rfl, .inr rfl⟩
        · obtain rfl := hserve.dry need s got hne (by rw [hrun])
          exact ⟨closed, hpos, hs, hne, rfl, .inl ⟨rfl, rfl⟩⟩
      · obtain ⟨got, s₁, hrun, hgot, hle, hsplit⟩ := hserve.serve need s hpos hne
        have hlen : 0 < got.length := List.length_pos_iff.mpr hgot
        have hs₁ : I s₁ := by
          have h := hrecv need s hs
          rwa [hrun] at h
        rw [hsplit, List.length_append] at h
        obtain ⟨n, s₀, e, hn, hs₀, hdry, hfill, hlast⟩ :=
          ih (need - got.length) (by omega) hs₁ (by omega)
        exact ⟨n, s₀, e, hn, hs₀, hdry, by rw [fill_round closed hpos hrun hgot, hfill], hlast⟩

/-- What every receive call preserves, the loop preserves. -/
theorem fill_invariant {I : σ → Prop} (hrecv : ∀ n s, I s → I (recv n s).2) (need : ℕ) {s : σ}
    (hs : I s) : I (fill recv closed need s).2 := by
  induction need using Nat.strong_induction_on generalizing s with
  | _ need ih =>
      rcases Nat.eq_zero_or_pos need with rfl | hpos
      · simpa using hs
      have hI := hrecv need s hs
      rcases h : recv need s with ⟨e | got, s'⟩
      · rw [h] at hI
        rw [fill, if_neg hpos.ne', h]
        exact hI
      rw [h] at hI
      by_cases hgot : got = []
      · subst hgot
        rw [fill, if_neg hpos.ne', h]
        exact hI
      · have hlen : 0 < got.length := List.length_pos_iff.mpr hgot
        have hrest := ih (need - got.length) (by omega) hI
        rw [fill_round closed hpos h hgot]
        rcases hfill : fill recv closed (need - got.length) s' with ⟨_ | _, s''⟩ <;>
          rw [hfill] at hrest <;> exact hrest

/-! ### Where the loop stops -/

/-- The state whose receive call ends the loop early: the call hands over nothing, or
fails. -/
def stop (recv : ℕ → σ → Except ε (List β) × σ) (need : ℕ) (s : σ) : Option σ :=
  if need = 0 then none
  else
    match recv need s with
    | (.error _, _) => some s
    | (.ok [], _) => some s
    | (.ok (b :: bs), s') => stop recv (need - (bs.length + 1)) s'
termination_by need

/-- **How the loop ends**: with enough items, or at the state where it stops, with what
the call made there comes to. `I` is what the calls preserve that hand over something. -/
theorem fill_cases {I : σ → Prop}
    (hdata : ∀ n s got s', 0 < n → recv n s = (.ok got, s') → got ≠ [] → I s → I s')
    (need : ℕ) {s : σ} (hs : I s) :
    (∃ got s', fill recv closed need s = (.ok got, s') ∧ stop recv need s = none ∧ I s') ∨
    ∃ n c e, 0 < n ∧ stop recv need s = some c ∧ I c ∧
      fill recv closed need s = (.error e, (recv n c).2) ∧
      ((recv n c).1 = .ok [] ∧ e = closed ∨ (recv n c).1 = .error e) := by
  induction need using Nat.strong_induction_on generalizing s with
  | _ need ih =>
      rcases Nat.eq_zero_or_pos need with rfl | hpos
      · exact .inl ⟨[], s, fill_zero closed s, by rw [stop, if_pos rfl], hs⟩
      rcases h : recv need s with ⟨e | got, s'⟩
      · refine .inr ⟨need, s, e, hpos, ?_, hs, ?_, .inr (by rw [h])⟩
        · rw [stop, if_neg hpos.ne', h]
        · rw [fill, if_neg hpos.ne', h]
      cases got with
      | nil =>
          refine .inr ⟨need, s, closed, hpos, ?_, hs, ?_, .inl ⟨by rw [h], rfl⟩⟩
          · rw [stop, if_neg hpos.ne', h]
          · rw [fill, if_neg hpos.ne', h]
      | cons b bs =>
          have hs' : I s' := hdata need s _ s' hpos h (List.cons_ne_nil b bs) hs
          have hstop : stop recv need s = stop recv (need - (bs.length + 1)) s' := by
            rw [stop, if_neg hpos.ne', h]
          rw [hstop, fill_round closed hpos h (List.cons_ne_nil b bs), List.length_cons]
          rcases ih (need - (bs.length + 1)) (by omega) hs' with
            ⟨more, s₁, hfill, hnone, hI⟩ | ⟨n, c, e, hn, hc, hI, hfill, hlast⟩
          · exact .inl ⟨b :: bs ++ more, s₁, by rw [hfill], hnone, hI⟩
          · exact .inr ⟨n, c, e, hn, hc, hI, by rw [hfill], hlast⟩

/-- A measure that no receive call raises goes down over the loop, if it does over the
first call. -/
lemma fill_lt {size : σ → ℕ} (hle : ∀ n s, size (recv n s).2 ≤ size s) {need : ℕ}
    (hpos : 0 < need) {s : σ} (hlt : size (recv need s).2 < size s) :
    size (fill recv closed need s).2 < size s := by
  rcases h : recv need s with ⟨e | got, s'⟩
  · rw [h] at hlt
    rwa [fill, if_neg hpos.ne', h]
  rw [h] at hlt
  by_cases hgot : got = []
  · subst hgot
    rwa [fill, if_neg hpos.ne', h]
  · have hrest : size (fill recv closed (need - got.length) s').2 ≤ size s' :=
      fill_invariant (I := fun t => size t ≤ size s') closed
        (fun n t ht => (hle n t).trans ht) _ le_rfl
    rw [fill_round closed hpos h hgot]
    rcases hfill : fill recv closed (need - got.length) s' with ⟨_ | _, s''⟩ <;>
      rw [hfill] at hrest <;> exact hrest.trans_lt hlt

end PcieFabric.ChunkedStream
