import PcieFabric.Lib.ParentForest

/-!
Common ancestors and tree paths in a structure where every element has at most
one parent.

* `Ascent parent a c l`: following parent links from `a` visits the elements of
  `l`, in order, before it reaches `c`. `Ascent.unique`: in an acyclic structure
  there is one such list.
* `LowestCommon parent a b x`: `x` is above both elements, and whatever is above
  both is above `x`. In an acyclic structure there is at most one.
* `TreePath parent a b l`: the list runs from `a` to `b` along parent links taken
  in either direction and visits no element twice. `treePath_iff`: such a list
  goes up to the lowest common ancestor and down from it.
* `Line parent a l`: a walk up from `a`. `firstCommon_eq_some_iff`: the first
  element of one walk that is on the other is the lowest common ancestor.
* `ToTop parent a l`: the links from `a` up to an element without a parent.
  `Line.toTop`: in an acyclic structure a walk is that.
* `Nearest parent P a x`: the first element with the property on the way up from `a`.
  `Line.find?_eq_some_iff`: a search along a walk finds it.
-/

namespace PcieFabric.ParentForest

open Relation

variable {α : Type*} {parent : α → Option α}

/-! ### Ascents -/

/-- The elements that following parent links from the first visits before it
reaches the second. -/
inductive Ascent (parent : α → Option α) : α → α → List α → Prop
  | refl (a : α) : Ascent parent a a []
  | step {a b c : α} {l : List α} (h : parent a = some b) (hrest : Ascent parent b c l) :
      Ascent parent a c (a :: l)

namespace Ascent

variable {a b c : α} {l l' : List α}

lemma reach (h : Ascent parent a c l) : ReflTransGen (Up parent) a c := by
  induction h with
  | refl a => exact .refl
  | step h _ ih => exact .head h ih

/-- Whatever is reached is reached by an ascent. -/
lemma exists_of_reach (h : ReflTransGen (Up parent) a c) : ∃ l, Ascent parent a c l := by
  induction h using ReflTransGen.head_induction_on with
  | refl => exact ⟨[], .refl c⟩
  | @head x y hxy _ ih =>
      obtain ⟨l, hl⟩ := ih
      exact ⟨x :: l, .step hxy hl⟩

lemma append (h : Ascent parent a b l) (h' : Ascent parent b c l') :
    Ascent parent a c (l ++ l') := by
  induction h with
  | refl a => exact h'
  | step h _ ih => exact .step h (ih h')

/-- An ascent passes each of its elements. -/
lemma split (h : Ascent parent a c (l ++ b :: l')) :
    Ascent parent a b l ∧ Ascent parent b c (b :: l') := by
  induction l generalizing a with
  | nil =>
      cases h with
      | step h hrest => exact ⟨.refl b, .step h hrest⟩
  | cons x l ih =>
      cases h with
      | step h hrest =>
          obtain ⟨hlow, hhigh⟩ := ih hrest
          exact ⟨.step h hlow, hhigh⟩

/-- The elements of an ascent lie strictly below its end. -/
lemma below_of_mem (h : Ascent parent a c l) {x : α} (hx : x ∈ l) : Below parent x c := by
  induction h with
  | refl a => cases hx
  | step h hrest ih =>
      rcases List.mem_cons.mp hx with rfl | hx
      · exact .head' h hrest.reach
      · exact ih hx

lemma reach_of_mem (h : Ascent parent a c l) {x : α} (hx : x ∈ l) :
    ReflTransGen (Up parent) a x := by
  obtain ⟨low, high, rfl⟩ := List.append_of_mem hx
  exact h.split.1.reach

/-- The start is on the way, or it is the end. -/
lemma start_mem (h : Ascent parent a c l) : a = c ∨ a ∈ l := by
  cases h with
  | refl => exact .inl rfl
  | step h hrest => exact .inr List.mem_cons_self

lemma head?_append (h : Ascent parent a c l) : (l ++ c :: l').head? = some a := by
  cases h with
  | refl => rfl
  | step h hrest => rfl

/-- Each element of the way is followed by its parent, the last one by the end. -/
lemma isChain (h : Ascent parent a c l) : (l ++ [c]).IsChain (Up parent) := by
  induction h with
  | refl a => exact .singleton a
  | @step a b c l h hrest ih =>
      refine ih.cons fun y hy => ?_
      rw [hrest.head?_append, Option.mem_some_iff] at hy
      exact hy ▸ h

/-- In an acyclic structure there is one ascent between two elements. -/
lemma unique (hac : Acyclic parent) (h : Ascent parent a c l) (h' : Ascent parent a c l') :
    l = l' := by
  induction h generalizing l' with
  | refl a =>
      cases h' with
      | refl => rfl
      | step h hrest => exact absurd (.head' h hrest.reach) (hac a)
  | @step a b c l h hrest ih =>
      cases h' with
      | refl => exact absurd (.head' h hrest.reach) (hac a)
      | @step _ b' _ l' h' hrest' =>
          obtain rfl := Option.some.inj (h.symm.trans h')
          rw [ih hrest']

/-- In an acyclic structure an ascent visits no element twice. -/
lemma nodup (hac : Acyclic parent) (h : Ascent parent a c l) : l.Nodup := by
  induction h with
  | refl a => exact List.nodup_nil
  | @step a b c l h hrest ih =>
      refine List.nodup_cons.mpr ⟨fun ha => ?_, ih⟩
      exact hac a (.head' h (hrest.reach_of_mem ha))

/-- In an acyclic structure an ascent to `c` passes whatever lies between. -/
lemma mem_of_between (hac : Acyclic parent) (h : Ascent parent a c l) {x : α}
    (hax : ReflTransGen (Up parent) a x) (hxc : Below parent x c) : x ∈ l := by
  obtain ⟨low, hlow⟩ := exists_of_reach hax
  obtain ⟨y, hxy, hyc⟩ := TransGen.head'_iff.mp hxc
  obtain ⟨high, hhigh⟩ := exists_of_reach hyc
  rw [h.unique hac (hlow.append (.step hxy hhigh))]
  exact List.mem_append_right low List.mem_cons_self

end Ascent

/-! ### The lowest common ancestor -/

/-- The element is above both, and whatever is above both is above it. -/
structure LowestCommon (parent : α → Option α) (a b x : α) : Prop where
  left : ReflTransGen (Up parent) a x
  right : ReflTransGen (Up parent) b x
  lowest : ∀ y, ReflTransGen (Up parent) a y → ReflTransGen (Up parent) b y →
    ReflTransGen (Up parent) x y

/-- Elements that are above each other are one. -/
lemma reach_antisymm (hac : Acyclic parent) {a b : α} (hab : ReflTransGen (Up parent) a b)
    (hba : ReflTransGen (Up parent) b a) : a = b := by
  rcases reflTransGen_iff_eq_or_transGen.mp hab with heq | hbelow
  · exact heq.symm
  · exact absurd (hbelow.trans_left hba) (hac a)

namespace LowestCommon

variable {a b x y : α}

lemma symm (h : LowestCommon parent a b x) : LowestCommon parent b a x :=
  ⟨h.right, h.left, fun y hb ha => h.lowest y ha hb⟩

lemma unique (hac : Acyclic parent) (h : LowestCommon parent a b x)
    (h' : LowestCommon parent a b y) : x = y :=
  reach_antisymm hac (h.lowest y h'.left h'.right) (h'.lowest x h.left h.right)

/-- An element that is above another is their lowest common ancestor. -/
lemma of_reach (h : ReflTransGen (Up parent) b a) : LowestCommon parent a b a :=
  ⟨.refl, h, fun _ ha _ => ha⟩

/-- Two ascents to one element that share no element of the way end at the lowest
common ancestor. -/
lemma of_ascents (hac : Acyclic parent) {l l' : List α} (h : Ascent parent a x l)
    (h' : Ascent parent b x l') (hdisjoint : ∀ y ∈ l, y ∉ l') : LowestCommon parent a b x := by
  refine ⟨h.reach, h'.reach, fun y ha hb => ?_⟩
  -- two elements above `a` are comparable, and `y` below `x` would be shared
  have hparent : Relator.RightUnique (Up parent) :=
    fun _ _ _ hv hw => Option.some.inj (hv.symm.trans hw)
  rcases ReflTransGen.total_of_right_unique hparent h.reach ha with hxy | hyx
  · exact hxy
  · rcases reflTransGen_iff_eq_or_transGen.mp hyx with heq | hbelow
    · rw [heq]
    · exact absurd (h'.mem_of_between hac hb hbelow)
        (hdisjoint y (h.mem_of_between hac ha hbelow))

/-- The ascents to the lowest common ancestor share no element. -/
lemma disjoint (hac : Acyclic parent) {l l' : List α} (hx : LowestCommon parent a b x)
    (h : Ascent parent a x l) (h' : Ascent parent b x l') {y : α} (hy : y ∈ l) : y ∉ l' := by
  intro hy'
  have hxy := hx.lowest y (h.reach_of_mem hy) (h'.reach_of_mem hy')
  exact hac y ((h.below_of_mem hy).trans_left hxy)

end LowestCommon

/-! ### Simple paths -/

/-- The list runs from the first element to the second along parent links, taken
in either direction, and visits no element twice. -/
structure TreePath (parent : α → Option α) (a b : α) (l : List α) : Prop where
  head : l.head? = some a
  last : l.getLast? = some b
  linked : l.IsChain fun x y => Up parent x y ∨ Up parent y x
  nodup : l.Nodup

namespace TreePath

variable {a b x : α} {l l' up down : List α}

/-- The way back. -/
lemma reverse (h : TreePath parent a b l) : TreePath parent b a l.reverse where
  head := by rw [List.head?_reverse, h.last]
  last := by rw [List.getLast?_reverse, h.head]
  linked := List.isChain_reverse.mpr (h.linked.imp fun _ _ => Or.symm)
  nodup := List.nodup_reverse.mpr h.nodup

/-- Up to the lowest common ancestor, and down. -/
lemma of_ascents (hac : Acyclic parent) (hx : LowestCommon parent a b x)
    (hup : Ascent parent a x up) (hdown : Ascent parent b x down) :
    TreePath parent a b (up ++ x :: down.reverse) where
  head := hup.head?_append
  last := by
    rw [← List.head?_reverse, List.reverse_append, List.reverse_cons, List.reverse_reverse,
      List.append_assoc, List.singleton_append]
    exact hdown.head?_append
  linked := by
    refine List.isChain_split.mpr ⟨hup.isChain.imp fun _ _ => Or.inl, ?_⟩
    rw [← List.reverse_concat, List.isChain_reverse]
    exact hdown.isChain.imp fun _ _ => Or.inr
  nodup := by
    have htop : ∀ {c : α} {way : List α}, Ascent parent c x way → x ∉ way :=
      fun hway hmem => hac x (hway.below_of_mem hmem)
    refine List.nodup_append.mpr ⟨hup.nodup hac, List.nodup_cons.mpr ⟨?_, ?_⟩, ?_⟩
    · exact fun hmem => htop hdown (List.mem_reverse.mp hmem)
    · exact List.nodup_reverse.mpr (hdown.nodup hac)
    · rintro y hy z hz rfl
      rcases List.mem_cons.mp hz with rfl | hz
      · exact htop hup hy
      · exact hx.disjoint hac hup hdown hy (List.mem_reverse.mp hz)

/-- A simple path goes up, and then down: after a step down the next step up
would lead back. -/
lemma exists_ascents (h : TreePath parent a b l) :
    ∃ x up down, l = up ++ x :: down.reverse ∧ Ascent parent a x up ∧
      Ascent parent b x down := by
  induction l generalizing a with
  | nil => cases h.head
  | cons y l ih =>
      obtain rfl : y = a := Option.some.inj h.head
      cases l with
      | nil =>
          obtain rfl : y = b := Option.some.inj h.last
          exact ⟨y, [], [], rfl, .refl y, .refl y⟩
      | cons z l =>
          obtain ⟨hstep, hlinked⟩ := List.isChain_cons_cons.mp h.linked
          obtain ⟨hfresh, hnodup⟩ := List.nodup_cons.mp h.nodup
          obtain ⟨x, up, down, heq, hup, hdown⟩ := ih ⟨rfl, h.last, hlinked, hnodup⟩
          rw [heq]
          rcases hstep with hstep | hstep
          · exact ⟨x, y :: up, down, rfl, .step hstep hup, hdown⟩
          · cases hup with
            | refl =>
                refine ⟨y, [], down ++ [z], ?_, .refl y, hdown.append (.step hstep (.refl y))⟩
                rw [List.reverse_concat]
                rfl
            | @step _ w _ up hzw hrest =>
                -- the parent of `z` is `y` and comes after `z`
                obtain rfl : w = y := Option.some.inj (hzw.symm.trans hstep)
                refine absurd ?_ hfresh
                rw [heq, List.mem_append, List.mem_cons, List.mem_cons]
                rcases hrest.start_mem with rfl | hmem
                · exact .inr (.inl rfl)
                · exact .inl (.inr hmem)

end TreePath

/-- **Simple paths, exactly**: the lists that go up from the first element to the
lowest common ancestor and down from there to the second. -/
theorem treePath_iff (hac : Acyclic parent) {a b : α} {l : List α} :
    TreePath parent a b l ↔ ∃ x up down, LowestCommon parent a b x ∧ Ascent parent a x up ∧
      Ascent parent b x down ∧ l = up ++ x :: down.reverse := by
  constructor
  · intro h
    obtain ⟨x, up, down, rfl, hup, hdown⟩ := h.exists_ascents
    refine ⟨x, up, down, .of_ascents hac hup hdown fun y hy hy' => ?_, hup, hdown, rfl⟩
    exact (List.nodup_append.mp h.nodup).2.2 y hy y
      (List.mem_cons_of_mem x (List.mem_reverse.mpr hy')) rfl
  · rintro ⟨x, up, down, hx, hup, hdown, rfl⟩
    exact .of_ascents hac hx hup hdown

/-- There is at most one simple path between two elements. -/
lemma TreePath.unique (hac : Acyclic parent) {a b : α} {l l' : List α}
    (h : TreePath parent a b l) (h' : TreePath parent a b l') : l = l' := by
  obtain ⟨x, up, down, hx, hup, hdown, rfl⟩ := (treePath_iff hac).mp h
  obtain ⟨y, up', down', hy, hup', hdown', rfl⟩ := (treePath_iff hac).mp h'
  obtain rfl := hx.unique hac hy
  rw [hup.unique hac hup', hdown.unique hac hdown']

/-! ### Walks -/

/-- The walk visits what is above the element, in the order of the links. -/
structure Line (parent : α → Option α) (a : α) (l : List α) : Prop where
  ascent : ∀ pre c post, l = pre ++ c :: post → Ascent parent a c pre
  mem_iff : ∀ c, c ∈ l ↔ ReflTransGen (Up parent) a c

/-- A bounded walk that passes an element has ascended to it. -/
lemma ascent_of_climb {n : ℕ} {a c : α} {pre post : List α}
    (h : climb parent n a = pre ++ c :: post) : Ascent parent a c pre := by
  induction n generalizing a pre with
  | zero => exact absurd h.symm (List.append_ne_nil_of_right_ne_nil pre (List.cons_ne_nil c post))
  | succ n ih =>
      cases pre with
      | nil =>
          obtain ⟨rfl, -⟩ := List.cons.inj h
          exact .refl a
      | cons x pre =>
          obtain ⟨rfl, hrest⟩ := List.cons.inj h
          cases hup : parent a with
          | none =>
              rw [hup] at hrest
              exact absurd hrest.symm
                (List.append_ne_nil_of_right_ne_nil pre (List.cons_ne_nil c post))
          | some b =>
              rw [hup] at hrest
              exact .step hup (ih hrest)

/-! ### The way to the top -/

/-- The elements from the first one up to one without a parent, each followed by its
parent. -/
def ToTop (parent : α → Option α) (a : α) (l : List α) : Prop :=
  ∃ up top, Ascent parent a top up ∧ parent top = none ∧ l = up ++ [top]

/-- In an acyclic structure no element is on the way twice. -/
lemma ToTop.nodup (hac : Acyclic parent) {a : α} {l : List α} (h : ToTop parent a l) :
    l.Nodup := by
  obtain ⟨up, top, hup, -, rfl⟩ := h
  rw [List.nodup_append]
  refine ⟨hup.nodup hac, List.nodup_singleton top, fun x hx y hy => ?_⟩
  rintro rfl
  rw [List.mem_singleton.mp hy] at hx
  exact hac top (hup.below_of_mem hx)

/-- The walk visits the start. -/
lemma Line.ne_nil {a : α} {l : List α} (h : Line parent a l) : l ≠ [] :=
  List.ne_nil_of_mem ((h.mem_iff a).mpr .refl)

/-- **A walk goes to the top**, if there is no cycle. -/
theorem Line.toTop (hac : Acyclic parent) {a : α} {l : List α} (h : Line parent a l) :
    ToTop parent a l := by
  obtain ⟨up, top, rfl⟩ : ∃ up top, l = up ++ [top] := by
    rcases List.eq_nil_or_concat l with hnil | ⟨up, top, heq⟩
    · exact absurd hnil h.ne_nil
    · exact ⟨up, top, by rw [heq, List.concat_eq_append]⟩
  have hup := h.ascent up top [] rfl
  refine ⟨up, top, hup, ?_, rfl⟩
  -- a parent of the last element would be on the walk, and so at or below it
  cases hparent : parent top with
  | none => rfl
  | some b =>
      have hb : b ∈ up ++ [top] := (h.mem_iff b).mpr (hup.reach.tail hparent)
      rcases List.mem_append.mp hb with hmem | hmem
      · exact absurd (.head hparent (hup.below_of_mem hmem)) (hac top)
      · rw [List.mem_singleton.mp hmem] at hparent
        exact absurd (.single hparent) (hac top)

/-- There is one way to the top. -/
lemma ToTop.unique {a : α} {l l' : List α} (h : ToTop parent a l) (h' : ToTop parent a l') :
    l = l' := by
  obtain ⟨up, top, hup, htop, rfl⟩ := h
  obtain ⟨up', top', hup', htop', rfl⟩ := h'
  induction hup generalizing up' with
  | refl a =>
      cases hup' with
      | refl => rfl
      | step hlink hrest =>
          rw [htop] at hlink
          cases hlink
  | @step a b top up hlink hrest ih =>
      cases hup' with
      | refl =>
          rw [htop'] at hlink
          cases hlink
      | @step _ b' _ up' hlink' hrest' =>
          obtain rfl := Option.some.inj (hlink.symm.trans hlink')
          exact congrArg (a :: ·) (ih htop _ hrest')

/-! ### The nearest element -/

/-- The element has the property, and none on the way up to it has. -/
def Nearest (parent : α → Option α) (P : α → Prop) (a x : α) : Prop :=
  P x ∧ ∃ up, Ascent parent a x up ∧ ∀ y ∈ up, ¬ P y

/-- **A search along a walk** finds the nearest element with the property. -/
theorem Line.find?_eq_some_iff (hac : Acyclic parent) {a x : α} {l : List α}
    (h : Line parent a l) (p : α → Bool) :
    l.find? p = some x ↔ Nearest parent (fun y => p y = true) a x := by
  rw [List.find?_eq_some_iff_append]
  constructor
  · rintro ⟨hx, up, rest, rfl, hbefore⟩
    refine ⟨hx, up, h.ascent up x rest rfl, fun y hy => ?_⟩
    simpa using hbefore y hy
  · rintro ⟨hx, up, hup, hbefore⟩
    obtain ⟨pre, rest, rfl⟩ := List.append_of_mem ((h.mem_iff x).mpr hup.reach)
    obtain rfl := (h.ascent pre x rest rfl).unique hac hup
    exact ⟨hx, pre, rest, rfl, fun y hy => by simpa using hbefore y hy⟩

/-- It finds nothing exactly where no element above has the property. -/
lemma Line.find?_eq_none_iff {a : α} {l : List α} (h : Line parent a l) (p : α → Bool) :
    l.find? p = none ↔ ∀ y, ReflTransGen (Up parent) a y → ¬ p y = true := by
  rw [List.find?_eq_none]
  exact forall_congr' fun y => by rw [h.mem_iff]

/-- A bounded walk is no longer than its bound. -/
lemma length_climb_le (n : ℕ) (a : α) : (climb parent n a).length ≤ n := by
  induction n generalizing a with
  | zero => exact le_rfl
  | succ n ih =>
      rw [climb, List.length_cons]
      cases parent a with
      | none => exact Nat.succ_le_succ (Nat.zero_le n)
      | some b => exact Nat.succ_le_succ (ih b)

section FirstCommon

variable [DecidableEq α] {a b x : α} {la lb : List α}

/-- The first element of one walk that is on the other. -/
def firstCommon (la lb : List α) : Option α := la.find? fun x => lb.contains x

/-- Without an element above both there is no first one. -/
lemma firstCommon_eq_none_iff (ha : Line parent a la) (hb : Line parent b lb) :
    firstCommon la lb = none ↔
      ∀ x, ¬ (ReflTransGen (Up parent) a x ∧ ReflTransGen (Up parent) b x) := by
  rw [firstCommon, List.find?_eq_none]
  simp only [List.contains_iff_mem, ha.mem_iff, hb.mem_iff, not_and]

/-- The first common element is above both, and what is above both stands behind it. -/
lemma lowestCommon_of_firstCommon (ha : Line parent a la) (hb : Line parent b lb)
    (h : firstCommon la lb = some x) : LowestCommon parent a b x := by
  obtain ⟨hx, pre, post, hsplit, hbefore⟩ := List.find?_eq_some_iff_append.mp h
  refine ⟨(ha.ascent pre x post hsplit).reach, (hb.mem_iff x).mp (List.contains_iff_mem.mp hx),
    fun y hay hby => ?_⟩
  have hy := (ha.mem_iff y).mpr hay
  rw [hsplit, List.mem_append, List.mem_cons] at hy
  rcases hy with hy | rfl | hy
  · have hnot := hbefore y hy
    rw [List.contains_iff_mem.mpr ((hb.mem_iff y).mpr hby)] at hnot
    cases hnot
  · exact .refl
  · obtain ⟨mid, rest, rfl⟩ := List.append_of_mem hy
    rw [← List.cons_append, ← List.append_assoc] at hsplit
    exact (ha.ascent _ y rest hsplit).split.2.reach

/-- **The first common element**, in an acyclic structure, is the lowest common
ancestor. -/
theorem firstCommon_eq_some_iff (hac : Acyclic parent) (ha : Line parent a la)
    (hb : Line parent b lb) : firstCommon la lb = some x ↔ LowestCommon parent a b x := by
  refine ⟨lowestCommon_of_firstCommon ha hb, fun hx => ?_⟩
  cases hfirst : firstCommon la lb with
  | none => exact absurd ⟨hx.left, hx.right⟩ ((firstCommon_eq_none_iff ha hb).mp hfirst x)
  | some y => rw [hx.unique hac (lowestCommon_of_firstCommon ha hb hfirst)]

end FirstCommon

end PcieFabric.ParentForest
