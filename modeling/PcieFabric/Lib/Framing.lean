import Mathlib.Tactic

/-!
Records that are written one after the other without delimiters.

* `Framed`: a record is a list of fields, and its frame tells how long they are.
* `Framed.length_eq`, `Framed.map_eq`: sequences of records with the same frames are
  written equally long, and are known from what is written.
-/

namespace PcieFabric

variable {α β γ δ : Type*}

/-- What a sequence of records is written as. -/
def written (fields : α → List (List β)) (xs : List α) : List β :=
  xs.flatMap fun x => (fields x).flatten

/-- The frame of a record tells how long its fields are, and the frame and the fields
together determine its value. -/
structure Framed (fields : α → List (List β)) (frame : α → γ) (value : α → δ) : Prop where
  lengths : ∀ x y, frame x = frame y → (fields x).map List.length = (fields y).map List.length
  value_eq : ∀ x y, frame x = frame y → fields x = fields y → value x = value y

namespace Framed

variable {fields : α → List (List β)} {frame : α → γ} {value : α → δ} {xs ys : List α}

/-- Records of one frame are written equally long. -/
lemma length_flatten (h : Framed fields frame value) {x y : α} (hframe : frame x = frame y) :
    (fields x).flatten.length = (fields y).flatten.length := by
  rw [List.length_flatten, List.length_flatten, h.lengths x y hframe]

/-- So are sequences of them. -/
lemma length_eq (h : Framed fields frame value) (hframes : xs.map frame = ys.map frame) :
    (written fields xs).length = (written fields ys).length := by
  induction xs generalizing ys with
  | nil =>
      rw [List.map_eq_nil_iff.mp hframes.symm]
  | cons x xs ih =>
      cases ys with
      | nil => cases hframes
      | cons y ys =>
          obtain ⟨hframe, hrest⟩ := List.cons.inj hframes
          have htail := ih hrest
          rw [written, written] at htail ⊢
          rw [List.flatMap_cons, List.flatMap_cons, List.length_append, List.length_append,
            h.length_flatten hframe, htail]

/-- **Records are known from what is written**, if their frames are known. -/
theorem map_eq (h : Framed fields frame value) (hframes : xs.map frame = ys.map frame)
    (hwritten : written fields xs = written fields ys) : xs.map value = ys.map value := by
  induction xs generalizing ys with
  | nil =>
      rw [List.map_eq_nil_iff.mp hframes.symm]
  | cons x xs ih =>
      cases ys with
      | nil => cases hframes
      | cons y ys =>
          obtain ⟨hframe, hrest⟩ := List.cons.inj hframes
          rw [written, written, List.flatMap_cons, List.flatMap_cons] at hwritten
          obtain ⟨hhead, htail⟩ := List.append_inj hwritten (h.length_flatten hframe)
          have hfields : fields x = fields y :=
            List.eq_iff_flatten_eq.mpr ⟨hhead, h.lengths x y hframe⟩
          rw [List.map_cons, List.map_cons, h.value_eq x y hframe hfields, ih hrest htail]

end Framed

end PcieFabric
