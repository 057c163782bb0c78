import PcieFabric.Reservation.Registry

/-!
What the registry does not check (`reservation.hpp`): `reserve` reads neither the
generations of a request nor its duration.

* `accepted`: the reservations that the calls of a run are answered with, in order.
* `Fenced`: their generations never go back on a path or under a policy, and their
  durations keep within the limit.
* `fenced_iff`: exactly when a run is fenced, in terms of the requests it makes.
-/

namespace PcieFabric

open Std Machine

/-- The first reservation is no newer than the second one where they share a path
or a policy. -/
def Reservation.NotAfter (r r' : Reservation) : Prop :=
  (r.path = r'.path → r.pathGeneration.value ≤ r'.pathGeneration.value) ∧
    (r.policy = r'.policy → r.policyGeneration.value ≤ r'.policyGeneration.value)

namespace ReservationRegistry

/-- The reservations that the calls of a run are answered with, in order. -/
def accepted (reg : ReservationRegistry) : List RegistryCall → List Reservation
  | [] => []
  | .reserve req :: rest =>
      match reg.reserve req with
      | (.ok r, reg') => r :: accepted reg' rest
      | (.error _, reg') => accepted reg' rest
  | .release id boot gen epoch :: rest => accepted (reg.release id boot gen epoch).2 rest
  | .setLimits l :: rest => accepted (reg.setLimits l) rest

/-- The duration of a reservation that a call is answered with is within the limit
in force. -/
def WithinDuration (reg : ReservationRegistry) (call : RegistryCall) : Prop :=
  ∀ req r, call = .reserve req → (reg.reserve req).1 = .ok r →
    r.duration.value ≤ reg.limits.maxDuration.value

/-- The generations of the accepted reservations never go back on a path or under a
policy, and every accepted duration is within the limit in force at its call. -/
def Fenced (reg : ReservationRegistry) (calls : List RegistryCall) : Prop :=
  (∀ p, (((reg.accepted calls).filter fun r => r.path = p).map
      fun r => r.pathGeneration.value).Pairwise (· ≤ ·)) ∧
    (∀ pol, (((reg.accepted calls).filter fun r => r.policy = pol).map
      fun r => r.policyGeneration.value).Pairwise (· ≤ ·)) ∧
    AllSteps step WithinDuration reg calls

/-- A request that the registry admits is not behind any reservation it holds, and
keeps within the limit on durations. -/
def Respects (reg : ReservationRegistry) (call : RegistryCall) : Prop :=
  ∀ req, call = .reserve req → reg.Admits req →
    (∀ (id : ReservationId) r, reg.reservations[id]? = some r → r.NotAfter req) ∧
      req.duration.value ≤ reg.limits.maxDuration.value

variable {reg : ReservationRegistry}

/-- A property of the members with each value of a key, as one property. -/
lemma pairwise_filter_key {κ : Type} [DecidableEq κ] (key : Reservation → κ)
    (gen : Reservation → UInt64) (l : List Reservation) :
    (∀ k, ((l.filter fun r => key r = k).map gen).Pairwise (· ≤ ·)) ↔
      l.Pairwise fun r r' => key r = key r' → gen r ≤ gen r' := by
  simp only [List.pairwise_map, List.pairwise_filter, decide_eq_true_eq]
  constructor
  · intro h
    rw [List.pairwise_iff_getElem]
    intro i j hi hj hij heq
    exact List.pairwise_iff_getElem.mp (h (key l[j])) i j hi hj hij heq rfl
  · intro h k
    exact h.imp fun hle hr hr' => hle (hr.trans hr'.symm)

/-- A fenced run, with the two kinds of generations taken together. -/
lemma fenced_iff_pairwise (reg : ReservationRegistry) (calls : List RegistryCall) :
    reg.Fenced calls ↔ (reg.accepted calls).Pairwise Reservation.NotAfter ∧
      AllSteps step WithinDuration reg calls := by
  rw [Fenced, pairwise_filter_key Reservation.path, pairwise_filter_key Reservation.policy,
    ← and_assoc, ← List.pairwise_and_iff]
  rfl

/-- Whether a reservation is active does not matter to the fences. -/
@[simp] lemma markActive_notAfter {r r' : Reservation} :
    r.markActive.NotAfter r' ↔ r.NotAfter r' := Iff.rfl

/-- The reservations that the registry holds are not after the given one. -/
def HeldNotAfter (reg : ReservationRegistry) (r' : Reservation) : Prop :=
  ∀ (id : ReservationId) r, reg.reservations[id]? = some r → r.NotAfter r'

/-- A recorded reservation is one more to compare with. -/
lemma heldNotAfter_recordReserve {req : Reservation} (hnew : reg.reservations[req.id]? = none)
    (used : UInt64) (r' : Reservation) :
    (reg.recordReserve req used).HeldNotAfter r' ↔ req.NotAfter r' ∧ reg.HeldNotAfter r' := by
  have hget := getElem?_recordReserve reg req used
  constructor
  · intro h
    refine ⟨h req.id req.markActive (by rw [hget, if_pos rfl]), fun id r hr => h id r ?_⟩
    rw [hget, if_neg, hr]
    rintro rfl
    rw [hnew] at hr
    cases hr
  · rintro ⟨hreq, hheld⟩ id r hr
    rw [hget] at hr
    split_ifs at hr with hid
    · obtain rfl := Option.some.inj hr
      exact hreq
    · exact hheld id r hr

/-- A recorded release changes none of what is compared. -/
lemma heldNotAfter_recordRelease {id : ReservationId} {r : Reservation}
    (hr : reg.reservations[id]? = some r) (r' : Reservation) :
    (reg.recordRelease id r).HeldNotAfter r' ↔ reg.HeldNotAfter r' := by
  constructor
  · intro h x m hm
    by_cases hid : id = x
    · subst hid
      obtain rfl := Option.some.inj (hr.symm.trans hm)
      exact h id r.markReleased (by rw [getElem?_recordRelease, if_pos rfl])
    · exact h x m (by rw [getElem?_recordRelease, if_neg hid, hm])
  · intro h x m hm
    rw [getElem?_recordRelease] at hm
    split_ifs at hm with hid
    · obtain rfl := Option.some.inj hm
      exact h id r hr
    · exact h x m hm

/-- An admitted request is the next accepted reservation. -/
lemma accepted_of_admits {req : Reservation} (h : reg.Admits req) (rest : List RegistryCall) :
    reg.accepted (.reserve req :: rest) =
      req.markActive :: (reg.step (.reserve req)).accepted rest := by
  rw [accepted, step, reserve_of_admits h]

/-- Any other call is answered with no reservation, and the reservations that are
held stay what is to be compared with. -/
lemma accepted_of_not_admits {call : RegistryCall}
    (h : ∀ req, call = .reserve req → ¬ reg.Admits req) (rest : List RegistryCall) :
    reg.accepted (call :: rest) = (reg.step call).accepted rest ∧
      ∀ r', (reg.step call).HeldNotAfter r' ↔ reg.HeldNotAfter r' := by
  cases call with
  | reserve req =>
      obtain ⟨e, he⟩ := reserve_of_not_admits (h req rfl)
      rw [accepted, step, he]
      exact ⟨rfl, fun _ => Iff.rfl⟩
  | release id boot gen epoch =>
      refine ⟨rfl, fun r' => ?_⟩
      by_cases hrel : ∃ r, reg.Releasable id boot gen epoch r
      · obtain ⟨r, hr⟩ := hrel
        rw [step, release_of_releasable hr]
        exact heldNotAfter_recordRelease hr.1 r'
      · obtain ⟨e, he⟩ := release_of_not_releasable (not_exists.mp hrel)
        rw [step, he]
  | setLimits l => exact ⟨rfl, fun _ => Iff.rfl⟩

/-- An admitted request is respectful when it is behind nothing that is held and
keeps within the limit. -/
lemma respects_iff_of_admits {req : Reservation} (h : reg.Admits req) :
    reg.Respects (.reserve req) ↔
      reg.HeldNotAfter req ∧ req.duration.value ≤ reg.limits.maxDuration.value := by
  constructor
  · exact fun hrespects => hrespects req rfl h
  · rintro hreq _ ⟨⟩ _
    exact hreq

/-- An admitted request is answered with its own duration. -/
lemma withinDuration_iff_of_admits {req : Reservation} (h : reg.Admits req) :
    reg.WithinDuration (.reserve req) ↔
      req.duration.value ≤ reg.limits.maxDuration.value := by
  constructor
  · exact fun hwithin => hwithin req req.markActive rfl (by rw [reserve_of_admits h])
  · rintro hle _ r ⟨⟩ hok
    rw [reserve_of_admits h] at hok
    cases hok
    exact hle

/-- A call that is answered with no reservation meets both conditions. -/
lemma respects_and_withinDuration_of_not_admits {call : RegistryCall}
    (h : ∀ req, call = .reserve req → ¬ reg.Admits req) :
    reg.Respects call ∧ reg.WithinDuration call := by
  refine ⟨fun req hcall hreq => absurd hreq (h req hcall), fun req r hcall hok => ?_⟩
  obtain ⟨e, he⟩ := reserve_of_not_admits (h req hcall)
  rw [he] at hok
  cases hok

/-- **A run, from any registry**: its requests are respectful exactly when what it
accepts goes back behind nothing that is held or was accepted before, and keeps
within the limit on durations. -/
lemma respects_run_iff (reg : ReservationRegistry) (calls : List RegistryCall) :
    AllSteps step Respects reg calls ↔
      (∀ r ∈ reg.accepted calls, reg.HeldNotAfter r) ∧ reg.Fenced calls := by
  induction calls generalizing reg with
  | nil => simp [AllSteps, accepted, Fenced]
  | cons call rest ih =>
      rw [AllSteps, ih, fenced_iff_pairwise, fenced_iff_pairwise, AllSteps]
      by_cases h : ∃ req, call = .reserve req ∧ reg.Admits req
      · obtain ⟨req, rfl, hreq⟩ := h
        have hstep : reg.step (.reserve req) =
            reg.recordReserve req (reg.reservedBytes req.path) := by
          rw [step, reserve_of_admits hreq]
        have hself : reg.HeldNotAfter req.markActive ↔ reg.HeldNotAfter req := Iff.rfl
        rw [accepted_of_admits hreq, List.forall_mem_cons, List.pairwise_cons,
          respects_iff_of_admits hreq, withinDuration_iff_of_admits hreq, hstep, hself]
        simp only [heldNotAfter_recordReserve hreq.1, markActive_notAfter, forall_and]
        tauto
      · have hnot : ∀ req, call = .reserve req → ¬ reg.Admits req :=
          fun req hcall hreq => h ⟨req, hcall, hreq⟩
        obtain ⟨haccepted, hheld⟩ := accepted_of_not_admits hnot rest
        obtain ⟨hrespects, hwithin⟩ := respects_and_withinDuration_of_not_admits hnot
        rw [haccepted, and_iff_right hrespects, and_iff_right hwithin]
        simp only [hheld]

/-- **The fences, exactly.** In a run of a registry with any limits no generation
goes back on a path or under a policy and no grant is over-long, if and only if
every request that passes the checks on its id and on the capacity is not behind
any reservation of its path or policy that is held, and asks for no more than the
limit on durations. -/
theorem fenced_iff (limits : ReservationLimits) (calls : List RegistryCall) :
    Fenced { limits := limits } calls ↔ AllSteps step Respects { limits := limits } calls := by
  rw [respects_run_iff]
  refine (and_iff_right fun r _ id m hm => ?_).symm
  rw [ExtTreeMap.getElem?_empty] at hm
  cases hm

/-- Two requests on a path, the second one with an older generation of the path,
an older generation of the policy and a duration beyond the limit: both are
accepted. -/
theorem rollback_accepted :
    ¬ ∀ limits calls, Fenced { limits := limits } calls := by
  intro h
  obtain ⟨hpath, -, -⟩ := h { perPathBytes := ⟨10⟩, maxDuration := ⟨1000⟩ }
    [.reserve { id := ⟨1⟩, path := ⟨1⟩, pathGeneration := ⟨5⟩, policyGeneration := ⟨5⟩ },
      .reserve {
        id := ⟨2⟩
        path := ⟨1⟩
        pathGeneration := ⟨4⟩
        policyGeneration := ⟨4⟩
        duration := ⟨5000⟩ }]
  have hgo := hpath ⟨1⟩
  revert hgo
  decide +kernel

end ReservationRegistry

end PcieFabric
