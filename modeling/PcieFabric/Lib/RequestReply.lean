import Mathlib.Data.List.Forall2
import Mathlib.Logic.Relation

/-!
A client that sends one request at a time and a server that gives each request at
most one reply, over a lossless channel in each direction. Replies carry no
number.

* `Exchange`: the request the client waits on, the messages in both channels, and
  what both ends have done; `Exchange.Step` is what can happen next.
* `Exchange.Inv`: the channels are empty while the client does not wait; while it
  waits, its request is on the way, or its reply, or there is no reply.
* `inv_of_reachable`, `Exchange.Inv.returned`: the reply that a call returns is
  the one the server gave to that call's request.
-/

namespace PcieFabric

/-- The state of a client and a server with the channels between them. `calls`
lists the finished calls with what they returned, `served` the requests the server
took with its replies. -/
structure Exchange (Q R : Type) where
  waiting : Option Q := none
  requests : List Q := []
  replies : List R := []
  calls : List (Q × Option R) := []
  served : List (Q × Option R) := []

namespace Exchange

variable {Q R : Type}

/-- What can happen: the client sends a request and waits; the server takes a
request and may reply; the client takes a reply and stops waiting, whether it
returns the reply or fails on it. -/
inductive Step : Exchange Q R → Exchange Q R → Prop where
  | send (x : Exchange Q R) (q : Q) (hidle : x.waiting = none) :
      Step x { x with waiting := some q, requests := x.requests ++ [q] }
  | serve (x : Exchange Q R) (q : Q) (rest : List Q) (reply : Option R)
      (hnext : x.requests = q :: rest) :
      Step x { x with
        requests := rest
        replies := x.replies ++ reply.toList
        served := x.served ++ [(q, reply)] }
  | receive (x : Exchange Q R) (q : Q) (r : R) (rest : List R) (returned : Option R)
      (hwait : x.waiting = some q) (hnext : x.replies = r :: rest)
      (hreturn : ∀ r', returned = some r' → r' = r) :
      Step x { x with waiting := none, replies := rest, calls := x.calls ++ [(q, returned)] }

/-- The calls are those the server took, in the same order, and what they
returned is what it replied. -/
def Agree (calls served : List (Q × Option R)) : Prop :=
  List.Forall₂ (fun c s => c.1 = s.1 ∧ ∀ r, c.2 = some r → s.2 = some r) calls served

/-- The invariant of the exchange. -/
inductive Inv : Exchange Q R → Prop where
  | idle (calls served : List (Q × Option R)) (hagree : Agree calls served) :
      Inv { calls, served }
  | sent (q : Q) (calls served : List (Q × Option R)) (hagree : Agree calls served) :
      Inv { waiting := some q, requests := [q], calls, served }
  | answered (q : Q) (reply : Option R) (calls served : List (Q × Option R))
      (hagree : Agree calls served) :
      Inv { waiting := some q, replies := reply.toList, calls, served := served ++ [(q, reply)] }

/-- Every step keeps the invariant. -/
theorem Inv.step {x y : Exchange Q R} (hx : Inv x) (hstep : Step x y) : Inv y := by
  cases hstep with
  | send q hidle =>
      cases hx with
      | idle calls served hagree => exact .sent q calls served hagree
      | sent | answered => cases hidle
  | serve q rest reply hnext =>
      cases hx with
      | idle | answered => cases hnext
      | sent q' calls served hagree =>
          obtain ⟨rfl, rfl⟩ := List.cons.inj hnext
          exact .answered q' reply calls served hagree
  | receive q r rest returned hwait hnext hreturn =>
      cases hx with
      | idle => cases hwait
      | sent => cases hnext
      | answered q' reply calls served hagree =>
          obtain rfl := Option.some.inj hwait
          cases reply with
          | none => cases hnext
          | some r' =>
              obtain ⟨rfl, rfl⟩ := List.cons.inj hnext
              refine .idle _ _ (List.rel_append hagree (List.Forall₂.cons ⟨rfl, ?_⟩ .nil))
              intro r₀ hr₀
              rw [hreturn r₀ hr₀]

/-- The invariant holds wherever an empty exchange can get to. -/
theorem inv_of_reachable {x : Exchange Q R} (h : Relation.ReflTransGen Step {} x) : Inv x := by
  induction h with
  | refl => exact .idle [] [] .nil
  | tail _ hstep ih => exact ih.step hstep

/-- In agreeing lists the `k`-th call returned the reply to the `k`-th request. -/
lemma Agree.getElem? {calls served : List (Q × Option R)} (h : Agree calls served) {k : Nat} {q : Q}
    {r : R} (hk : calls[k]? = some (q, some r)) : served[k]? = some (q, some r) := by
  induction h generalizing k with
  | nil => cases hk
  | @cons c s calls served hcs _ ih =>
      cases k with
      | zero =>
          obtain rfl : c = (q, some r) := Option.some.inj hk
          exact congrArg some (Prod.ext hcs.1.symm (hcs.2 r rfl))
      | succ k => exact ih hk

/-- **Replies go to their requests**: what the `k`-th call returned is what the
server replied when it took that request, which is the `k`-th it took. -/
theorem Inv.returned {x : Exchange Q R} (h : Inv x) {k : Nat} {q : Q} {r : R}
    (hk : x.calls[k]? = some (q, some r)) : x.served[k]? = some (q, some r) := by
  cases h with
  | idle calls served hagree | sent _ calls served hagree => exact hagree.getElem? hk
  | answered _ reply calls served hagree =>
      have hserved := hagree.getElem? hk
      obtain ⟨hlt, -⟩ := List.getElem?_eq_some_iff.mp hserved
      rwa [List.getElem?_append_left hlt]

end Exchange

end PcieFabric
