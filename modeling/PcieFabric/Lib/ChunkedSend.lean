import Mathlib.Tactic

/-!
Sending data over a stream that takes it in pieces.

* `drain`: send until everything was taken; a send call that takes nothing ends the loop.
* `Takes`: the contract of a send call, relative to the items that the stream has taken so
  far: it takes a first part of what it is given, of the length that it reports, or fails and
  takes nothing.
* `drain_taken`: the loop puts a first part of the data on the stream, all of it exactly if
  it succeeds.
* `drain_ok`: it succeeds if every send call takes something.
-/

namespace PcieFabric.ChunkedSend

variable {σ ε β : Type*}

/-- Send all the data. `closed` is the error for a call that takes nothing. -/
def drain (send : List β → σ → Except ε ℕ × σ) (closed : ε) (data : List β) (s : σ) :
    Except ε Unit × σ :=
  if data = [] then (.ok (), s)
  else
    match send data s with
    | (.error e, s') => (.error e, s')
    | (.ok 0, s') => (.error closed, s')
    | (.ok (k + 1), s') => drain send closed (data.drop (k + 1)) s'
termination_by data.length
decreasing_by
  rw [List.length_drop]
  have := List.length_pos_iff.mpr (by assumption)
  omega

/-- The contract of a send call. -/
structure Takes (send : List β → σ → Except ε ℕ × σ) (taken : σ → List β) : Prop where
  /-- What it reports was taken, in front of the rest. -/
  take : ∀ data s k s', send data s = (.ok k, s') →
    k ≤ data.length ∧ taken s' = taken s ++ data.take k
  /-- A call that fails takes nothing. -/
  fail : ∀ data s e s', send data s = (.error e, s') → taken s' = taken s

variable {send : List β → σ → Except ε ℕ × σ} {taken : σ → List β} (closed : ε)

/-- With nothing to send the loop makes no call. -/
lemma drain_nil (s : σ) : drain send closed [] s = (.ok (), s) := by
  rw [drain, if_pos rfl]

/-- One round of the loop that sends something. -/
lemma drain_round {data : List β} {s s' : σ} {k : ℕ} (hdata : data ≠ [])
    (h : send data s = (.ok (k + 1), s')) :
    drain send closed data s = drain send closed (data.drop (k + 1)) s' := by
  rw [drain, if_neg hdata, h]

/-- **What the loop puts on the stream**: a first part of the data, and all of it exactly if
the loop succeeds. -/
theorem drain_taken (htakes : Takes send taken) (data : List β) (s : σ) :
    ∃ sent, sent <+: data ∧ taken (drain send closed data s).2 = taken s ++ sent ∧
      ((drain send closed data s).1 = .ok () ↔ sent = data) := by
  induction hn : data.length using Nat.strong_induction_on generalizing data s with
  | _ n ih =>
      by_cases hdata : data = []
      · subst hdata
        rw [drain_nil]
        exact ⟨[], List.prefix_rfl, (List.append_nil _).symm, iff_of_true rfl rfl⟩
      have hlen : 0 < data.length := List.length_pos_iff.mpr hdata
      have hnone : [] ≠ data := Ne.symm hdata
      rcases h : send data s with ⟨e | k, s'⟩
      · have hdrain : drain send closed data s = (.error e, s') := by
          rw [drain, if_neg hdata, h]
        refine ⟨[], List.nil_prefix, ?_, ?_⟩
        · rw [hdrain, htakes.fail data s e s' h, List.append_nil]
        · simp [hdrain, hnone]
      obtain ⟨hk, htaken⟩ := htakes.take data s k s' h
      cases k with
      | zero =>
          have hdrain : drain send closed data s = (.error closed, s') := by
            rw [drain, if_neg hdata, h]
          refine ⟨[], List.nil_prefix, ?_, ?_⟩
          · rw [hdrain, htaken, List.take_zero]
          · simp [hdrain, hnone]
      | succ k =>
          obtain ⟨sent, hpre, hrest, hiff⟩ :=
            ih (data.drop (k + 1)).length (by rw [List.length_drop]; omega) _ s' rfl
          rw [drain_round closed hdata h]
          refine ⟨data.take (k + 1) ++ sent, ?_, ?_, ?_⟩
          · have hcat := (List.prefix_append_right_inj (data.take (k + 1))).mpr hpre
            rwa [List.take_append_drop] at hcat
          · rw [hrest, htaken, List.append_assoc]
          · rw [hiff]
            constructor
            · rintro rfl
              rw [List.take_append_drop]
            · intro heq
              have hcat : data.take (k + 1) ++ sent = data.take (k + 1) ++ data.drop (k + 1) := by
                rw [heq, List.take_append_drop]
              exact List.append_cancel_left hcat

/-- **The loop succeeds** if the send calls take something each time. `I` is what they
preserve. -/
theorem drain_ok {I : σ → Prop} (hsend : ∀ data s, data ≠ [] → I s →
      ∃ k s', send data s = (.ok (k + 1), s') ∧ I s') (data : List β) {s : σ} (hs : I s) :
    (drain send closed data s).1 = .ok () ∧ I (drain send closed data s).2 := by
  induction hn : data.length using Nat.strong_induction_on generalizing data s with
  | _ n ih =>
      by_cases hdata : data = []
      · subst hdata
        rw [drain_nil]
        exact ⟨rfl, hs⟩
      have hlen : 0 < data.length := List.length_pos_iff.mpr hdata
      obtain ⟨k, s', h, hs'⟩ := hsend data s hdata hs
      rw [drain_round closed hdata h]
      exact ih (data.drop (k + 1)).length (by rw [List.length_drop]; omega) _ hs' rfl

end PcieFabric.ChunkedSend
