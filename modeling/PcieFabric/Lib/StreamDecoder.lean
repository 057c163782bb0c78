import Mathlib.Tactic

/-!
Decoders that read a byte stream from left to right, and what it means that a
decoder reads a given format.

* `Decoder`: a reader state goes in, a value or an error comes out together with
  the state reached; `bind` stops at the first error.
* `Layout`: how a reader state is looked at (its data and its position) and how
  the tokens of a format are written; `fits` is a condition on a token at a
  position that the decoder imposes on top of the bytes.
* `Reads L d F`: the decoder `d` reads the format `F`, where `F ts a` says that
  the token list `ts` denotes `a`. In both directions: a success that stays
  inside the data has read tokens of the format (`sound`), tokens of the format
  that fit are accepted (`complete`), and tokens that do not fit are refused
  (`reject`).
* `Moves`: what every run of a decoder does to the reader, and `FailsWith`: what
  every error of it is, with a rule for each way a decoder is put together.
* `Reads.pure`, `Reads.lift`, `Reads.bind`, `Reads.ensure`, `Reads.withError`,
  `Reads.times`, `Reads.collect`, `Reads.congr`: the rules, one for each way a
  decoder is put together.
-/

namespace PcieFabric

/-- A decoder over reader states `ρ` with errors `ε`. -/
def Decoder (ρ ε α : Type) : Type := ρ → Except ε α × ρ

namespace Decoder

variable {ρ ε α β : Type}

/-- Return a value and read nothing. -/
def pure (a : α) : Decoder ρ ε α := fun r => (.ok a, r)

/-- Stop with an error. -/
def fail (e : ε) : Decoder ρ ε α := fun r => (.error e, r)

/-- Sequencing; an error ends the run. -/
def bind (d : Decoder ρ ε α) (k : α → Decoder ρ ε β) : Decoder ρ ε β := fun r =>
  match d r with
  | (.ok a, r') => k a r'
  | (.error e, r') => (.error e, r')

instance : Monad (Decoder ρ ε) where
  pure := Decoder.pure
  bind := Decoder.bind

instance : LawfulMonad (Decoder ρ ε) := .mk' _
  (fun d => by
    funext r
    show Decoder.bind d _ r = d r
    rw [Decoder.bind]
    rcases d r with ⟨_ | _, _⟩ <;> rfl)
  (fun _ _ => rfl)
  (fun d k l => by
    funext r
    show Decoder.bind (Decoder.bind d k) l r = Decoder.bind d _ r
    rw [Decoder.bind, Decoder.bind, Decoder.bind]
    rcases d r with ⟨_ | _, _⟩ <;> rfl)

/-- Replace the error of a decoder. -/
def withError (e : ε) (d : Decoder ρ ε α) : Decoder ρ ε α := fun r =>
  match d r with
  | (.ok a, r') => (.ok a, r')
  | (.error _, r') => (.error e, r')

/-- Stop with the error unless the condition holds. -/
def ensure (c : Bool) (e : ε) : Decoder ρ ε Unit := if c then pure () else fail e

/-- Return a computed value or stop with its error, and read nothing. -/
def lift (x : Except ε α) : Decoder ρ ε α := fun r => (x, r)

/-- A counted loop over an accumulator. -/
def times (step : β → Decoder ρ ε β) : Nat → β → Decoder ρ ε β
  | 0, acc => pure acc
  | n + 1, acc => bind (step acc) (times step n)

/-- A counted loop that lists what it reads; `allow` sees the list so far. -/
def collect (allow : List α → α → Except ε Unit) (d : Decoder ρ ε α) (n : Nat) :
    Decoder ρ ε (List α) :=
  times (fun acc => do
    let a ← d
    lift (allow acc a)
    return acc ++ [a]) n []

/-! ### How a decoder moves the reader -/

lemma run_bind_ok {d : Decoder ρ ε α} {r r' : ρ} {a : α} (k : α → Decoder ρ ε β)
    (h : d r = (.ok a, r')) : (d >>= k) r = k a r' := by
  show Decoder.bind d k r = k a r'
  rw [Decoder.bind, h]

lemma run_bind_error {d : Decoder ρ ε α} {r r' : ρ} {e : ε} (k : α → Decoder ρ ε β)
    (h : d r = (.error e, r')) : (d >>= k) r = (.error e, r') := by
  show Decoder.bind d k r = _
  rw [Decoder.bind, h]

/-- Every run of the decoder goes along `R`, whatever it returns. For an
invariant `I`, take `R r r'` to be `I r → I r'`. -/
def Moves (R : ρ → ρ → Prop) (d : Decoder ρ ε α) : Prop := ∀ r, R r (d r).2

namespace Moves

variable {R : ρ → ρ → Prop}

lemma pure (hR : ∀ r, R r r) (a : α) : Moves R (Pure.pure a : Decoder ρ ε α) := hR

lemma lift (hR : ∀ r, R r r) (x : Except ε α) : Moves R (Decoder.lift x) := hR

lemma ensure (hR : ∀ r, R r r) (c : Bool) (e : ε) : Moves R (Decoder.ensure c e) := by
  cases c <;> exact hR

lemma withError {d : Decoder ρ ε α} (h : Moves R d) (e : ε) : Moves R (Decoder.withError e d) := by
  intro r
  have hr := h r
  rcases hd : d r with ⟨_ | _, r'⟩ <;> rw [hd] at hr <;> simpa [Decoder.withError, hd] using hr

lemma bind (hR : ∀ a b c, R a b → R b c → R a c) {d : Decoder ρ ε α}
    {k : α → Decoder ρ ε β} (hd : Moves R d) (hk : ∀ a, Moves R (k a)) : Moves R (d >>= k) := by
  intro r
  have hr := hd r
  rcases h : d r with ⟨e | a, r'⟩
  · rw [h] at hr
    rw [run_bind_error k h]
    exact hr
  · rw [h] at hr
    rw [run_bind_ok k h]
    exact hR r r' _ hr (hk a r')

lemma times (hrefl : ∀ r, R r r) (htrans : ∀ a b c, R a b → R b c → R a c)
    {step : β → Decoder ρ ε β} (h : ∀ acc, Moves R (step acc)) (n : Nat) (acc : β) :
    Moves R (Decoder.times step n acc) := by
  induction n generalizing acc with
  | zero => exact pure hrefl acc
  | succ n ih => exact bind htrans (h acc) fun mid => ih mid

lemma collect (hrefl : ∀ r, R r r) (htrans : ∀ a b c, R a b → R b c → R a c)
    {d : Decoder ρ ε α} (h : Moves R d) (allow : List α → α → Except ε Unit) (n : Nat) :
    Moves R (Decoder.collect allow d n) :=
  times hrefl htrans (fun _ => bind htrans h fun _ => bind htrans (lift hrefl _) fun _ =>
    pure hrefl _) n []

end Moves

/-- Every error the decoder ends with satisfies `P`. -/
def FailsWith (P : ε → Prop) (d : Decoder ρ ε α) : Prop := ∀ r e, (d r).1 = .error e → P e

namespace FailsWith

variable {P : ε → Prop}

lemma pure (a : α) : FailsWith P (Pure.pure a : Decoder ρ ε α) := fun _ _ h => by cases h

lemma lift {x : Except ε α} (hx : ∀ e, x = .error e → P e) :
    FailsWith P (Decoder.lift x : Decoder ρ ε α) :=
  fun _ e h => hx e h

lemma ensure (c : Bool) {e : ε} (he : P e) :
    FailsWith P (Decoder.ensure c e : Decoder ρ ε Unit) := by
  cases c with
  | true => exact pure ()
  | false => exact fun _ _ h => Except.error.inj h ▸ he

lemma bind {d : Decoder ρ ε α} {k : α → Decoder ρ ε β} (hd : FailsWith P d)
    (hk : ∀ a, FailsWith P (k a)) : FailsWith P (d >>= k) := by
  intro r e he
  rcases h : d r with ⟨e' | a, r'⟩
  · rw [run_bind_error k h] at he
    exact Except.error.inj he ▸ hd r e' (by rw [h])
  · rw [run_bind_ok k h] at he
    exact hk a r' e he

lemma times {step : β → Decoder ρ ε β} (h : ∀ acc, FailsWith P (step acc)) (n : Nat) (acc : β) :
    FailsWith P (Decoder.times step n acc) := by
  induction n generalizing acc with
  | zero => exact pure acc
  | succ n ih => exact bind (h acc) fun mid => ih mid

lemma collect {d : Decoder ρ ε α} (h : FailsWith P d) {allow : List α → α → Except ε Unit}
    (hallow : ∀ as a e, allow as a = .error e → P e) (n : Nat) :
    FailsWith P (Decoder.collect allow d n) :=
  times (fun acc => bind h fun a => bind (lift (hallow acc a)) fun _ => pure _) n []

end FailsWith

end Decoder

/-- How reader states and tokens are looked at. -/
structure Layout (ρ β τ : Type) where
  data : ρ → List β
  pos : ρ → Nat
  enc : τ → List β
  fits : Nat → τ → Prop

namespace Layout

variable {ρ ε β τ α γ : Type} (L : Layout ρ β τ)

/-- The bytes of a token list. -/
def bytes (ts : List τ) : List β := ts.flatMap L.enc

/-- The tokens stand in the data at the position. -/
def At (data : List β) (p : Nat) (ts : List τ) : Prop := L.bytes ts <+: data.drop p

/-- Every token fits at its own position, the first one at `p`. -/
def Fits : Nat → List τ → Prop
  | _, [] => True
  | p, t :: ts => L.fits p t ∧ Fits (p + (L.enc t).length) ts

@[simp] lemma bytes_nil : L.bytes [] = [] := rfl

@[simp] lemma bytes_append (a b : List τ) : L.bytes (a ++ b) = L.bytes a ++ L.bytes b :=
  List.flatMap_append

@[simp] lemma bytes_cons (t : τ) (ts : List τ) : L.bytes (t :: ts) = L.enc t ++ L.bytes ts := rfl

lemma at_nil (data : List β) (p : Nat) : L.At data p [] := List.nil_prefix

lemma at_append_iff {data : List β} {p : Nat} {a b : List τ} :
    L.At data p (a ++ b) ↔ L.At data p a ∧ L.At data (p + (L.bytes a).length) b := by
  rw [At, At, At, bytes_append]
  constructor
  · rintro ⟨rest, h⟩
    rw [List.append_assoc] at h
    refine ⟨⟨_, h⟩, ⟨rest, ?_⟩⟩
    rw [← List.drop_drop, ← h, List.drop_left]
  · rintro ⟨⟨rest, ha⟩, ⟨rest', hb⟩⟩
    rw [← List.drop_drop, ← ha, List.drop_left] at hb
    exact ⟨rest', by rw [← ha, ← hb, List.append_assoc]⟩

lemma fits_append_iff {p : Nat} {a b : List τ} :
    L.Fits p (a ++ b) ↔ L.Fits p a ∧ L.Fits (p + (L.bytes a).length) b := by
  induction a generalizing p with
  | nil => simp [Fits, bytes_nil]
  | cons t ts ih =>
      rw [List.cons_append, Fits, Fits, ih, bytes_cons, List.length_append, and_assoc,
        Nat.add_assoc]

/-- The tokens fit when each one fits where the tokens before it end. -/
lemma fits_iff {p : Nat} {ts : List τ} :
    L.Fits p ts ↔ ∀ pre t post, ts = pre ++ t :: post → L.fits (p + (L.bytes pre).length) t := by
  induction ts generalizing p with
  | nil => simp [Fits]
  | cons u ts ih =>
      rw [Fits, ih]
      constructor
      · rintro ⟨hu, hts⟩ pre t post heq
        cases pre with
        | nil =>
            obtain ⟨rfl, -⟩ := List.cons.inj heq
            exact hu
        | cons v pre =>
            obtain ⟨rfl, htail⟩ := List.cons.inj heq
            have h := hts pre t post htail
            rwa [Nat.add_assoc, ← List.length_append] at h
      · intro h
        refine ⟨h [] u ts rfl, fun pre t post heq => ?_⟩
        have hcons := h (u :: pre) t post (by rw [heq]; rfl)
        rwa [bytes_cons, List.length_append, ← Nat.add_assoc] at hcons

/-- The decoder `d` reads the format `F`. -/
structure Reads (d : Decoder ρ ε α) (F : List τ → α → Prop) : Prop where
  frame : ∀ r, L.data (d r).2 = L.data r
  mono : ∀ r, L.pos r ≤ L.pos (d r).2
  sound : ∀ r a, (d r).1 = .ok a → L.pos (d r).2 ≤ (L.data r).length →
    ∃ ts, F ts a ∧ L.At (L.data r) (L.pos r) ts ∧ L.Fits (L.pos r) ts ∧
      L.pos (d r).2 = L.pos r + (L.bytes ts).length
  complete : ∀ r ts a, F ts a → L.At (L.data r) (L.pos r) ts → L.Fits (L.pos r) ts →
    (d r).1 = .ok a ∧ L.pos (d r).2 = L.pos r + (L.bytes ts).length
  reject : ∀ r ts a, F ts a → L.At (L.data r) (L.pos r) ts → ¬ L.Fits (L.pos r) ts →
    ∃ e, (d r).1 = .error e

/-- A format given by images: `fields i` are the tokens of the image `i`, and
they stand for `val i`. -/
def Images {ι : Type} (accepted : ι → Prop) (fields : ι → List τ) (val : ι → α) :
    List τ → α → Prop :=
  fun ts a => ∃ i, accepted i ∧ ts = fields i ∧ a = val i

/-- Two ways to give a format by images. -/
lemma images_congr {ι κ : Type} {A : ι → Prop} {f : ι → List τ} {v : ι → α} {A' : κ → Prop}
    {f' : κ → List τ} {v' : κ → α} (h : ∀ i, A i → ∃ k, A' k ∧ f' k = f i ∧ v' k = v i)
    (h' : ∀ k, A' k → ∃ i, A i ∧ f i = f' k ∧ v i = v' k) (ts : List τ) (a : α) :
    Images A f v ts a ↔ Images A' f' v' ts a := by
  constructor
  · rintro ⟨i, hi, rfl, rfl⟩
    obtain ⟨k, hk, hf, hv⟩ := h i hi
    exact ⟨k, hk, hf.symm, hv.symm⟩
  · rintro ⟨k, hk, rfl, rfl⟩
    obtain ⟨i, hi, hf, hv⟩ := h' k hk
    exact ⟨i, hi, hf.symm, hv.symm⟩

/-- The format of a counted loop. -/
def TimesF (F : γ → List τ → γ → Prop) : Nat → γ → List τ → γ → Prop
  | 0, acc, ts, out => ts = [] ∧ out = acc
  | n + 1, acc, ts, out => ∃ t₁ t₂ mid, ts = t₁ ++ t₂ ∧ F acc t₁ mid ∧ TimesF F n mid t₂ out

/-- Every value is admitted by the values before it. -/
def Admitted (allow : List α → α → Except ε Unit) : List α → List α → Prop
  | _, [] => True
  | acc, a :: rest => allow acc a = .ok () ∧ Admitted allow (acc ++ [a]) rest

/-- A loop without a check admits everything. -/
lemma admitted_all {α ε : Type} (acc as : List α) :
    Admitted (fun _ _ => (.ok () : Except ε Unit)) acc as := by
  induction as generalizing acc with
  | nil => trivial
  | cons a as ih => exact ⟨rfl, ih _⟩

namespace Reads

variable {L}

/-- The same format, said differently. -/
lemma congr {d : Decoder ρ ε α} {F F' : List τ → α → Prop} (h : L.Reads d F)
    (hF : ∀ ts a, F ts a ↔ F' ts a) : L.Reads d F' := by
  have heq : F = F' := funext fun ts => funext fun a => propext (hF ts a)
  exact heq ▸ h

lemma pure (a : α) : L.Reads (Pure.pure a : Decoder ρ ε α) fun ts b => ts = [] ∧ b = a where
  frame _ := rfl
  mono _ := le_rfl
  sound r b h _ := by
    obtain rfl : a = b := Except.ok.inj h
    exact ⟨[], ⟨rfl, rfl⟩, L.at_nil _ _, trivial, rfl⟩
  complete r ts b h _ _ := by
    obtain ⟨rfl, rfl⟩ := h
    exact ⟨rfl, rfl⟩
  reject r ts b h _ hfit := by
    obtain ⟨rfl, rfl⟩ := h
    exact absurd trivial hfit

lemma lift (x : Except ε α) :
    L.Reads (Decoder.lift x) fun ts a => ts = [] ∧ x = .ok a := by
  cases x with
  | ok b => exact (pure b).congr fun ts a => by simp [eq_comm]
  | error e =>
      exact {
        frame := fun _ => rfl
        mono := fun _ => le_rfl
        sound := fun r b h _ => by cases h
        complete := fun r ts b h _ _ => by cases h.2
        reject := fun r ts b h _ _ => by cases h.2 }

lemma ensure (c : Bool) (e : ε) :
    L.Reads (Decoder.ensure c e) fun ts _ => ts = [] ∧ c = true := by
  cases c with
  | true => exact (pure ()).congr fun ts a => by simp
  | false =>
      exact {
        frame := fun _ => rfl
        mono := fun _ => le_rfl
        sound := fun r b h _ => by cases h
        complete := fun r ts b h _ _ => by cases h.2
        reject := fun r ts b h _ _ => by cases h.2 }

lemma withError {d : Decoder ρ ε α} {F : List τ → α → Prop} (h : L.Reads d F) (e : ε) :
    L.Reads (Decoder.withError e d) F := by
  have hsnd : ∀ r, (Decoder.withError e d r).2 = (d r).2 := by
    intro r
    rcases hd : d r with ⟨_ | _, _⟩ <;> simp [Decoder.withError, hd]
  have hok : ∀ r a, (Decoder.withError e d r).1 = .ok a ↔ (d r).1 = .ok a := by
    intro r a
    rcases hd : d r with ⟨_ | _, _⟩ <;> simp [Decoder.withError, hd]
  refine ⟨fun r => by rw [hsnd, h.frame], fun r => by rw [hsnd]; exact h.mono r, ?_, ?_, ?_⟩
  · intro r a hr hle
    rw [hsnd] at hle ⊢
    exact h.sound r a ((hok r a).mp hr) hle
  · intro r ts a hF hat hfit
    rw [hsnd, hok]
    exact h.complete r ts a hF hat hfit
  · intro r ts a hF hat hfit
    obtain ⟨e', he'⟩ := h.reject r ts a hF hat hfit
    refine ⟨e, ?_⟩
    rcases hd : d r with ⟨_ | _, _⟩
    · simp [Decoder.withError, hd]
    · rw [hd] at he'
      cases he'

/-- The run of a decoder on tokens of its format. -/
lemma exists_run {d : Decoder ρ ε α} {F : List τ → α → Prop} (hd : L.Reads d F) {r : ρ}
    {ts : List τ} {a : α} (hF : F ts a) (hat : L.At (L.data r) (L.pos r) ts)
    (hfit : L.Fits (L.pos r) ts) :
    ∃ r', d r = (.ok a, r') ∧ L.data r' = L.data r ∧
      L.pos r' = L.pos r + (L.bytes ts).length := by
  obtain ⟨hok, hpos⟩ := hd.complete r ts a hF hat hfit
  exact ⟨(d r).2, Prod.ext hok rfl, hd.frame r, hpos⟩

/-- **Sequencing**: the tokens of the first decoder, then those of the second. -/
theorem bind {d : Decoder ρ ε α} {k : α → Decoder ρ ε γ} {F : List τ → α → Prop}
    {G : α → List τ → γ → Prop} (hd : L.Reads d F) (hk : ∀ a, L.Reads (k a) (G a)) :
    L.Reads (d >>= k) fun ts c => ∃ t₁ t₂ a, ts = t₁ ++ t₂ ∧ F t₁ a ∧ G a t₂ c where
  frame r := by
    rcases hr : d r with ⟨e | a, r'⟩
    · rw [Decoder.run_bind_error k hr, ← hd.frame r, hr]
    · rw [Decoder.run_bind_ok k hr, (hk a).frame, ← hd.frame r, hr]
  mono r := by
    have h1 := hd.mono r
    rcases hr : d r with ⟨e | a, r'⟩
    · rw [hr] at h1
      rw [Decoder.run_bind_error k hr]
      exact h1
    · rw [hr] at h1
      rw [Decoder.run_bind_ok k hr]
      exact h1.trans ((hk a).mono r')
  sound r c hc hle := by
    rcases hr : d r with ⟨e | a, r'⟩
    · rw [Decoder.run_bind_error k hr] at hc
      cases hc
    · rw [Decoder.run_bind_ok k hr] at hc hle ⊢
      have hdata : L.data r' = L.data r := by rw [← hd.frame r, hr]
      -- positions never go back, so the first part stayed inside the data too
      have hle' : L.pos r' ≤ (L.data r).length := ((hk a).mono r').trans hle
      obtain ⟨t₁, hF, hat₁, hfit₁, hpos₁⟩ := hd.sound r a (by rw [hr]) (by rw [hr]; exact hle')
      rw [hr] at hpos₁
      dsimp only at hpos₁
      obtain ⟨t₂, hG, hat₂, hfit₂, hpos₂⟩ := (hk a).sound r' c hc (by rw [hdata]; exact hle)
      rw [hdata, hpos₁] at hat₂
      rw [hpos₁] at hfit₂
      refine ⟨t₁ ++ t₂, ⟨t₁, t₂, a, rfl, hF, hG⟩, L.at_append_iff.mpr ⟨hat₁, hat₂⟩,
        L.fits_append_iff.mpr ⟨hfit₁, hfit₂⟩, ?_⟩
      rw [hpos₂, hpos₁, bytes_append, List.length_append, Nat.add_assoc]
  complete := by
    rintro r _ c ⟨t₁, t₂, a, rfl, hF, hG⟩ hat hfit
    obtain ⟨hat₁, hat₂⟩ := L.at_append_iff.mp hat
    obtain ⟨hfit₁, hfit₂⟩ := L.fits_append_iff.mp hfit
    obtain ⟨r', hr, hdata, hpos⟩ := hd.exists_run hF hat₁ hfit₁
    obtain ⟨hok₂, hpos₂⟩ := (hk a).complete r' t₂ c hG (by rw [hdata, hpos]; exact hat₂)
      (by rw [hpos]; exact hfit₂)
    rw [Decoder.run_bind_ok k hr]
    refine ⟨hok₂, ?_⟩
    rw [hpos₂, hpos, bytes_append, List.length_append, Nat.add_assoc]
  reject := by
    rintro r _ c ⟨t₁, t₂, a, rfl, hF, hG⟩ hat hfit
    obtain ⟨hat₁, hat₂⟩ := L.at_append_iff.mp hat
    by_cases hfit₁ : L.Fits (L.pos r) t₁
    · obtain ⟨r', hr, hdata, hpos⟩ := hd.exists_run hF hat₁ hfit₁
      rw [Decoder.run_bind_ok k hr]
      refine (hk a).reject r' t₂ c hG (by rw [hdata, hpos]; exact hat₂) fun hfit₂ => hfit ?_
      rw [hpos] at hfit₂
      exact L.fits_append_iff.mpr ⟨hfit₁, hfit₂⟩
    · obtain ⟨e, he⟩ := hd.reject r t₁ a hF hat₁ hfit₁
      rcases hr : d r with ⟨e' | a', r'⟩
      · exact ⟨e', by rw [Decoder.run_bind_error k hr]⟩
      · rw [hr] at he
        cases he

/-- Sequencing with a decoder that reads nothing: the values are mapped. -/
lemma map {d : Decoder ρ ε α} {F : List τ → α → Prop} (hd : L.Reads d F) (g : α → γ) :
    L.Reads (d >>= fun a => Pure.pure (g a)) fun ts c => ∃ a, F ts a ∧ c = g a := by
  refine (bind hd fun a => pure (g a)).congr fun ts c => ?_
  constructor
  · rintro ⟨t₁, _, a, rfl, hF, rfl, rfl⟩
    exact ⟨a, by rwa [List.append_nil], rfl⟩
  · rintro ⟨a, hF, rfl⟩
    exact ⟨ts, [], a, (List.append_nil ts).symm, hF, rfl, rfl⟩

/-- Sequencing over images: an image of the whole is a pair of images. -/
lemma bindImages {ι κ : Type} {d : Decoder ρ ε α} {k : α → Decoder ρ ε γ} {A : ι → Prop}
    {f : ι → List τ} {v : ι → α} {B : α → κ → Prop} {g : α → κ → List τ} {w : α → κ → γ}
    (hd : L.Reads d (Images A f v)) (hk : ∀ a, L.Reads (k a) (Images (B a) (g a) (w a))) :
    L.Reads (d >>= k) (Images (fun p : ι × κ => A p.1 ∧ B (v p.1) p.2)
      (fun p => f p.1 ++ g (v p.1) p.2) fun p => w (v p.1) p.2) := by
  refine (bind hd hk).congr fun ts c => ?_
  constructor
  · rintro ⟨_, _, _, rfl, ⟨i, hi, rfl, rfl⟩, j, hj, rfl, rfl⟩
    exact ⟨(i, j), ⟨hi, hj⟩, rfl, rfl⟩
  · rintro ⟨⟨i, j⟩, ⟨hi, hj⟩, rfl, rfl⟩
    exact ⟨_, _, _, rfl, ⟨i, hi, rfl, rfl⟩, j, hj, rfl, rfl⟩

/-- The image of a returned value. -/
lemma pureImage (a : α) :
    L.Reads (Pure.pure a : Decoder ρ ε α)
      (Images (fun _ : Unit => True) (fun _ => []) fun _ => a) :=
  (pure a).congr fun _ _ =>
    ⟨fun ⟨h, h'⟩ => ⟨(), trivial, h, h'⟩, fun ⟨_, _, h, h'⟩ => ⟨h, h'⟩⟩

/-- A value that is its own image. -/
lemma ownImage {d : Decoder ρ ε α} {A : α → Prop} {f : α → List τ}
    (h : L.Reads d fun ts a => A a ∧ ts = f a) : L.Reads d (Images A f id) :=
  h.congr fun _ a => ⟨fun ⟨hA, hf⟩ => ⟨a, hA, hf, rfl⟩, fun ⟨_, hA, hf, ha⟩ => ha ▸ ⟨hA, hf⟩⟩

/-- **Loops**: the tokens of the rounds, one after the other. -/
theorem times {step : γ → Decoder ρ ε γ} {F : γ → List τ → γ → Prop}
    (h : ∀ acc, L.Reads (step acc) (F acc)) (n : Nat) (acc : γ) :
    L.Reads (Decoder.times step n acc) (TimesF F n acc) := by
  induction n generalizing acc with
  | zero => exact pure acc
  | succ n ih => exact bind (h acc) fun mid => ih mid

/-- **Listing loops**: the images of the values, one after the other. -/
theorem collect {ι : Type} {accepted : ι → Prop} {fields : ι → List τ} {val : ι → α}
    {d : Decoder ρ ε α} (h : L.Reads d (Images accepted fields val))
    (allow : List α → α → Except ε Unit) (n : Nat) :
    L.Reads (Decoder.collect allow d n) (Images
      (fun is : List ι => is.length = n ∧ (∀ i ∈ is, accepted i) ∧ Admitted allow [] (is.map val))
      (fun is => is.flatMap fields) fun is => is.map val) := by
  refine (times (fun acc => bind h fun a => bind (lift (allow acc a)) fun _ =>
    pure (acc ++ [a])) n []).congr ?_
  -- the loop from an arbitrary accumulator, by induction on the rounds left
  suffices hgen : ∀ (n : Nat) (acc : List α) (ts : List τ) (out : List α),
      TimesF _ n acc ts out ↔ ∃ is : List ι, (is.length = n ∧ (∀ i ∈ is, accepted i) ∧
        Admitted allow acc (is.map val)) ∧ ts = is.flatMap fields ∧ out = acc ++ is.map val from
    fun ts out => hgen n [] ts out
  intro n
  induction n with
  | zero =>
      intro acc ts out
      constructor
      · rintro ⟨rfl, rfl⟩
        exact ⟨[], ⟨rfl, by simp, trivial⟩, rfl, by simp⟩
      · rintro ⟨is, ⟨hlen, -, -⟩, rfl, rfl⟩
        obtain rfl := List.eq_nil_of_length_eq_zero hlen
        exact ⟨rfl, by simp⟩
  | succ n ih =>
      intro acc ts out
      constructor
      · rintro ⟨_, t₂, mid, rfl, ⟨_, _, _, rfl, ⟨i, hi, rfl, rfl⟩, _, _, _, rfl, ⟨rfl, hadm⟩,
          rfl, rfl⟩, hrest⟩
        obtain ⟨is, ⟨hlen, hacc, hadms⟩, rfl, rfl⟩ := (ih _ _ _).mp hrest
        refine ⟨i :: is, ⟨by rw [List.length_cons, hlen], ?_, ⟨hadm, hadms⟩⟩, by simp, by simp⟩
        exact List.forall_mem_cons.mpr ⟨hi, hacc⟩
      · rintro ⟨is, ⟨hlen, hacc, hadms⟩, rfl, rfl⟩
        cases is with
        | nil => cases hlen
        | cons i is =>
            obtain ⟨hi, his⟩ := List.forall_mem_cons.mp hacc
            refine ⟨fields i, is.flatMap fields, acc ++ [val i], by simp,
              ⟨fields i, [], val i, by simp, ⟨i, hi, rfl, rfl⟩, [], [], (), rfl,
                ⟨rfl, hadms.1⟩, rfl, rfl⟩, (ih _ _ _).mpr ⟨is, ⟨?_, his, hadms.2⟩, rfl, ?_⟩⟩
            · exact Nat.succ.inj hlen
            · simp

end Reads

end Layout

end PcieFabric
