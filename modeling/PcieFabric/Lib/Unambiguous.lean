import PcieFabric.Lib.StreamDecoder

/-!
Formats whose bytes determine the value, whatever follows them.

* `Layout.DeterminesOn`: two images that start the same stream have the same value
  and the same rest, among the images with a property. The property is needed
  since a length prefix of fixed width only tells shorter lengths apart.
* `DeterminesOn.of_length`, `DeterminesOn.nil`, `DeterminesOn.cons`,
  `DeterminesOn.comap`, `DeterminesOn.value`: the rules for fields of fixed width,
  for sequences and for what is computed from a value.
* `DeterminesOn.counted`: the rule for a list behind its length.
* `Layout.Unambiguous`: the same for all images in streams of bounded length;
  `DeterminesOn.unambiguous` gives it where short images have the property.
-/

namespace PcieFabric.Layout

variable {ρ β τ ι κ α γ : Type} {L : Layout ρ β τ} {bound : Nat}

variable (L) in
/-- In streams shorter than `bound`, the tokens `w i` determine `v i` and the
rest of the stream. -/
def Unambiguous (bound : Nat) (w : ι → List τ) (v : ι → α) : Prop :=
  ∀ i j r r', L.bytes (w i) ++ r = L.bytes (w j) ++ r' → (L.bytes (w i) ++ r).length < bound →
    v i = v j ∧ r = r'

variable (L) in
/-- Where `P` holds, the tokens `w i` determine `v i` and the rest of the stream. -/
def DeterminesOn (P : ι → Prop) (w : ι → List τ) (v : ι → α) : Prop :=
  ∀ i j r r', P i → P j → L.bytes (w i) ++ r = L.bytes (w j) ++ r' → v i = v j ∧ r = r'

namespace DeterminesOn

variable {P : ι → Prop} {w : ι → List τ} {v : ι → α}

/-- A field of fixed width. -/
lemma of_length (hlen : ∀ i j, (L.bytes (w i)).length = (L.bytes (w j)).length)
    (hinj : ∀ i j, L.bytes (w i) = L.bytes (w j) → v i = v j) :
    L.DeterminesOn (fun _ => True) w v := by
  intro i j r r' _ _ heq
  obtain ⟨hbytes, hrest⟩ := List.append_inj heq (hlen i j)
  exact ⟨hinj i j hbytes, hrest⟩

/-- No field at all. -/
lemma nil : L.DeterminesOn (fun _ => True) (fun _ : ι => ([] : List (List τ)).flatten)
    fun _ => () :=
  fun _ _ _ _ _ _ heq => ⟨rfl, heq⟩

/-- One sequence of tokens behind another one. -/
lemma append {P' : ι → Prop} {w' : ι → List τ} {v' : ι → γ} (h : L.DeterminesOn P w v)
    (h' : L.DeterminesOn P' w' v') :
    L.DeterminesOn (fun i => P i ∧ P' i) (fun i => w i ++ w' i) fun i => (v i, v' i) := by
  intro i j r r' hi hj heq
  rw [bytes_append, List.append_assoc, bytes_append, List.append_assoc] at heq
  obtain ⟨hv, hrest⟩ := h i j _ _ hi.1 hj.1 heq
  obtain ⟨hv', hrest'⟩ := h' i j _ _ hi.2 hj.2 hrest
  exact ⟨Prod.ext hv hv', hrest'⟩

/-- A field in front of others. -/
lemma cons {P' : ι → Prop} {ws : ι → List (List τ)} {v' : ι → γ} (h : L.DeterminesOn P w v)
    (h' : L.DeterminesOn P' (fun i => (ws i).flatten) v') :
    L.DeterminesOn (fun i => P i ∧ P' i) (fun i => (w i :: ws i).flatten)
      fun i => (v i, v' i) := by
  simpa only [List.flatten_cons] using h.append h'

/-- A field of a record. -/
lemma comap (h : L.DeterminesOn P w v) (g : κ → ι) :
    L.DeterminesOn (fun k => P (g k)) (fun k => w (g k)) fun k => v (g k) :=
  fun i j => h (g i) (g j)

/-- What the value determines, on images with a stronger property. -/
lemma value {Q : ι → Prop} {u : ι → γ} (h : L.DeterminesOn P w v) (hP : ∀ i, Q i → P i)
    (hu : ∀ i j, v i = v j → u i = u j) : L.DeterminesOn Q w u := by
  intro i j r r' hi hj heq
  obtain ⟨hv, hrest⟩ := h i j r r' (hP i hi) (hP j hj) heq
  exact ⟨hu i j hv, hrest⟩

/-- Two lists of one length. -/
lemma flatMap (h : L.DeterminesOn P w v) {is js : List ι} (his : ∀ i ∈ is, P i)
    (hjs : ∀ j ∈ js, P j) (hlen : is.length = js.length) {r r' : List β}
    (heq : L.bytes (is.flatMap w) ++ r = L.bytes (js.flatMap w) ++ r') :
    is.map v = js.map v ∧ r = r' := by
  induction is generalizing js with
  | nil =>
      obtain rfl := List.eq_nil_of_length_eq_zero hlen.symm
      exact ⟨rfl, heq⟩
  | cons i is ih =>
      cases js with
      | nil => cases hlen
      | cons j js =>
          rw [List.forall_mem_cons] at his hjs
          rw [List.flatMap_cons, bytes_append, List.append_assoc, List.flatMap_cons, bytes_append,
            List.append_assoc] at heq
          obtain ⟨hv, hrest⟩ := h i j _ _ his.1 hjs.1 heq
          obtain ⟨hvs, hrest'⟩ := ih his.2 hjs.2 (Nat.succ.inj hlen) hrest
          exact ⟨by rw [List.map_cons, List.map_cons, hv, hvs], hrest'⟩

/-- **A list behind its length**, where the length is told up to `bound`. -/
theorem counted {c : Nat → List τ} (h : L.DeterminesOn P w v)
    (hcount : ∀ m n r r', m < bound → n < bound → L.bytes (c m) ++ r = L.bytes (c n) ++ r' →
      m = n ∧ r = r') :
    L.DeterminesOn (fun is : List ι => is.length < bound ∧ ∀ i ∈ is, P i)
      (fun is => c is.length ++ is.flatMap w) (List.map v) := by
  intro is js r r' his hjs heq
  rw [bytes_append, List.append_assoc, bytes_append, List.append_assoc] at heq
  obtain ⟨hlen, hrest⟩ := hcount _ _ _ _ his.1 hjs.1 heq
  exact h.flatMap his.2 hjs.2 hlen hrest

/-- Where the images of short streams have the property, no bound but that of the
stream is needed. -/
theorem unambiguous (h : L.DeterminesOn P w v) (hP : ∀ i, (L.bytes (w i)).length < bound → P i) :
    L.Unambiguous bound w v := by
  intro i j r r' heq hlt
  have hlt' := heq ▸ hlt
  rw [List.length_append] at hlt hlt'
  exact h i j r r' (hP i (Nat.lt_of_le_of_lt (Nat.le_add_right _ _) hlt))
    (hP j (Nat.lt_of_le_of_lt (Nat.le_add_right _ _) hlt')) heq

end DeterminesOn

end PcieFabric.Layout
