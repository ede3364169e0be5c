import Mathlib

/-!
# Outcomes of failing computations and scans with early exit

A reading of pre- and postconditions for `Except`: `Yields m Q E` says at once what `m`
returns and when it fails, so one proof serves both partial and total
correctness. `scanFrom` is the loop `for x in xs.iter_mut().skip(start)` with an
early exit, over a table indexed by `Fin n`; its rule takes one invariant.
-/

namespace D3OS.Lib

universe u v w

section

variable {ε : Type u} {α β : Type v}

/-- The computation returns a value satisfying `Q`, or fails with an error satisfying `E`. -/
def Yields (m : Except ε α) (Q : α → Prop) (E : ε → Prop) : Prop :=
  match m with
  | .ok a => Q a
  | .error e => E e

/-- A returned value satisfies the postcondition exactly when the value does. -/
@[simp] theorem yields_ok (a : α) (Q : α → Prop) (E : ε → Prop) :
    Yields (.ok a) Q E ↔ Q a := Iff.rfl

@[simp] private theorem yields_error (e : ε) (Q : α → Prop) (E : ε → Prop) :
    Yields (.error e) Q E ↔ E e := Iff.rfl

variable {m : Except ε α} {Q : α → Prop} {E : ε → Prop}

/-- What a computation returns can be evaluated. -/
instance decidableExistsOk {P : α → Prop} [∀ a, Decidable (P a)] :
    ∀ m : Except ε α, Decidable (∃ a, m = .ok a ∧ P a)
  | .ok a => decidable_of_iff (P a) (by simp)
  | .error _ => .isFalse (by simp)

instance decidableEqError [DecidableEq ε] (e : ε) : ∀ m : Except ε α, Decidable (m = .error e)
  | .ok _ => .isFalse (by simp)
  | .error e' => decidable_of_iff (e' = e) (by simp)

instance decidableExistsSome {P : α → Prop} [∀ a, Decidable (P a)] :
    ∀ o : Option α, Decidable (∃ a, o = some a ∧ P a)
  | some a => decidable_of_iff (P a) (by simp)
  | none => .isFalse (by simp)

instance decidableForallSome {P : α → Prop} [∀ a, Decidable (P a)] :
    ∀ o : Option α, Decidable (∀ a, o = some a → P a)
  | some a => decidable_of_iff (P a) (by simp)
  | none => .isTrue (by simp)

/-- Postconditions and error conditions may be weakened. -/
theorem Yields.mono {Q' : α → Prop} {E' : ε → Prop} (h : Yields m Q E) (hQ : ∀ a, Q a → Q' a)
    (hE : ∀ e, E e → E' e) : Yields m Q' E' := by
  cases m with
  | ok a => exact hQ a h
  | error e => exact hE e h

variable {f : α → Except ε β} {R : β → Prop}

/-- Sequencing: the continuation starts from what the first computation returned. -/
theorem Yields.bind (h : Yields m Q E) (hf : ∀ a, Q a → Yields (f a) R E) :
    Yields (m >>= f) R E := by
  cases m with
  | ok a => exact hf a h
  | error e => exact h

/-- Sequencing, as a rule to compute with. -/
@[simp] theorem yields_bind : Yields (m >>= f) R E ↔ Yields m (fun a ↦ Yields (f a) R E) E := by
  cases m with
  | ok a | error e => exact Iff.rfl

/-- The rule for `map`. -/
@[simp] theorem yields_map {f : α → β} : Yields (f <$> m) R E ↔ Yields m (fun a ↦ R (f a)) E := by
  cases m with
  | ok a | error e => exact Iff.rfl

/-- A computation whose results all satisfy their conditions. -/
theorem yields_of_eq (hQ : ∀ a, m = .ok a → Q a) (hE : ∀ e, m = .error e → E e) : Yields m Q E := by
  cases m with
  | ok a => exact hQ a rfl
  | error e => exact hE e rfl

/-- The postcondition of a computation that did return. -/
theorem Yields.of_ok {a : α} (h : Yields m Q E) (ha : m = .ok a) : Q a := by
  rw [ha] at h
  exact h

/-- What holds of an error. -/
theorem Yields.of_error {e : ε} (h : Yields m Q E) (he : m = .error e) : E e := by
  rw [he] at h
  exact h

/-- A computation whose error condition is impossible returns. -/
theorem Yields.exists_ok (h : Yields m Q E) (hE : ∀ e, ¬ E e) : ∃ a, m = .ok a ∧ Q a := by
  cases m with
  | ok a => exact ⟨a, rfl, h⟩
  | error e => exact absurd h (hE e)

/-- A sequence of computations that returned, taken apart. -/
theorem bind_eq_ok {b : β} : (m >>= f) = .ok b ↔ ∃ a, m = .ok a ∧ f a = .ok b := by
  cases m with
  | ok a | error e => simp [bind, Except.bind]

/-- The two parts of a sequence that returned. -/
theorem of_bind {b : β} : (m >>= f) = .ok b → ∃ a, m = .ok a ∧ f a = .ok b := bind_eq_ok.mp

end

section

variable {ε : Type u} {α : Type v} {σ : Type w} {n : Nat}

/-- Visit the entries `i`, `i + 1`, … of a table, at most `fuel` of them. The body
returns the new entry, the new loop state and whether the loop stops here. -/
def scan (body : α → σ → Except ε (α × σ × Bool)) :
    Nat → Nat → (Fin n → α) → σ → Except ε ((Fin n → α) × σ)
  | 0, _, t, s => .ok (t, s)
  | fuel + 1, i, t, s =>
    if h : i < n then
      match body (t ⟨i, h⟩) s with
      | .error e => .error e
      | .ok (a, s', stop) =>
        if stop then .ok (Function.update t ⟨i, h⟩ a, s')
        else scan body fuel (i + 1) (Function.update t ⟨i, h⟩ a) s'
    else .ok (t, s)

/-- Visit the entries of a table from `start` to its end. -/
def scanFrom (body : α → σ → Except ε (α × σ × Bool)) (start : Nat) (t : Fin n → α) (s : σ) :
    Except ε ((Fin n → α) × σ) :=
  scan body (n - start) start t s

variable {body : α → σ → Except ε (α × σ × Bool)} {E : ε → Prop}
  {I : Nat → (Fin n → α) → σ → Prop} {Q : (Fin n → α) → σ → Prop}

/-- Loop rule. The invariant `I i` holds before entry `i` is visited; an early exit
and running off the end of the table both have to establish `Q`. -/
theorem scanFrom_yields {start : Nat} {t : Fin n → α} {s : σ} (hs : start ≤ n)
    (h0 : I start t s)
    (hbody : ∀ (i : Nat) (h : i < n) (t : Fin n → α) (s : σ), I i t s →
      Yields (body (t ⟨i, h⟩) s) (fun r ↦
        if r.2.2 then Q (Function.update t ⟨i, h⟩ r.1) r.2.1
        else I (i + 1) (Function.update t ⟨i, h⟩ r.1) r.2.1) E)
    (hend : ∀ (t : Fin n → α) (s : σ), I n t s → Q t s) :
    Yields (scanFrom body start t s) (fun r ↦ Q r.1 r.2) E := by
  unfold scanFrom
  generalize hf : n - start = fuel
  induction fuel generalizing start t s with
  | zero =>
    have he : start = n := by omega
    subst he
    exact hend t s h0
  | succ fuel ih =>
    have hi : start < n := by omega
    have hb := hbody start hi t s h0
    simp only [scan, dif_pos hi]
    cases hr : body (t ⟨start, hi⟩) s with
    | error e =>
      rw [hr] at hb
      exact hb
    | ok r =>
      rw [hr] at hb
      obtain ⟨a, s', stop⟩ := r
      cases stop with
      | true => simpa using hb
      | false =>
        exact ih hi hb (by omega)

end

section

variable {γ : Type w} {f : α → Except ε β} {l : List α} {l' : List β}

/-- What each call keeps of its argument is kept of the list. -/
theorem mapM_map_eq {g : β → γ} {g' : α → γ} (h : l.mapM f = .ok l')
    (hg : ∀ a ∈ l, ∀ b, f a = .ok b → g b = g' a) : l'.map g = l.map g' := by
  induction l generalizing l' with
  | nil =>
    cases h
    rfl
  | cons a rest ih =>
    rw [List.mapM_cons] at h
    obtain ⟨b, hb, h⟩ := of_bind h
    obtain ⟨rest', hrest, h⟩ := of_bind h
    cases h
    rw [List.map_cons, List.map_cons, hg a List.mem_cons_self b hb,
      ih hrest fun a ha ↦ hg a (List.mem_cons_of_mem _ ha)]

/-- Every result comes from a call. -/
theorem exists_of_mem_mapM (h : l.mapM f = .ok l') {b : β} (hb : b ∈ l') :
    ∃ a ∈ l, f a = .ok b := by
  induction l generalizing l' with
  | nil =>
    cases h
    cases hb
  | cons a rest ih =>
    rw [List.mapM_cons] at h
    obtain ⟨b', hb', h⟩ := of_bind h
    obtain ⟨rest', hrest, h⟩ := of_bind h
    cases h
    rcases List.mem_cons.mp hb with rfl | hb
    · exact ⟨a, List.mem_cons_self, hb'⟩
    · obtain ⟨a', ha', hf⟩ := ih hrest hb
      exact ⟨a', List.mem_cons_of_mem _ ha', hf⟩

end

/-- Invariant rule for a sequence of calls, each of which may fail. -/
theorem foldlM_yields {ε : Type u} {σ : Type v} {ℓ : Type w} {step : σ → ℓ → Except ε σ}
    {I : σ → Prop} {E : ε → Prop} (ls : List ℓ) {s : σ} (h0 : I s)
    (hstep : ∀ s l, I s → Yields (step s l) I E) : Yields (ls.foldlM step s) I E := by
  induction ls generalizing s with
  | nil => exact h0
  | cons l ls ih =>
    exact (hstep s l h0).bind fun s' hs' ↦ ih hs'

end D3OS.Lib
