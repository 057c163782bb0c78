import Mathlib.Data.List.Infix

/-!
Searching a text for a word.

* `behind`: what stands in the text behind the first occurrence of the word.
* `behind_append`, `behind_first`: a text without the first letter of the word is skipped.
-/

namespace PcieFabric

variable {α : Type*} [DecidableEq α]

/-- What stands behind the first occurrence of the word, if there is one. -/
def behind (word : List α) : List α → Option (List α)
  | [] => if word.isEmpty then some [] else none
  | a :: text =>
      if word.isPrefixOf (a :: text) then some ((a :: text).drop word.length)
      else behind word text

variable {a : α} {word text skipped rest : List α}

/-- At an occurrence it is the rest. -/
lemma behind_word_append (word rest : List α) : behind word (word ++ rest) = some rest := by
  cases word with
  | nil => cases rest <;> rfl
  | cons a word =>
      have hprefix : (a :: word).isPrefixOf (a :: (word ++ rest)) = true :=
        List.isPrefixOf_iff_prefix.mpr ⟨rest, rfl⟩
      rw [List.cons_append, behind, if_pos hprefix, ← List.cons_append, List.drop_left]

/-- A text without the first letter of the word is skipped. -/
lemma behind_append (h : a ∉ skipped) (word text : List α) :
    behind (a :: word) (skipped ++ text) = behind (a :: word) text := by
  induction skipped with
  | nil => rfl
  | cons b skipped ih =>
      rw [List.mem_cons, not_or] at h
      have hprefix : ¬ (a :: word).isPrefixOf (b :: (skipped ++ text)) = true := by
        rw [List.isPrefixOf_iff_prefix, List.cons_prefix_cons]
        exact fun hcons => h.1 hcons.1
      rw [List.cons_append, behind, if_neg hprefix, ih h.2]

/-- The first occurrence of a word, behind a text without its first letter. -/
lemma behind_first (h : a ∉ skipped) (word rest : List α) :
    behind (a :: word) (skipped ++ (a :: word ++ rest)) = some rest :=
  (behind_append h word _).trans (behind_word_append _ rest)

end PcieFabric
