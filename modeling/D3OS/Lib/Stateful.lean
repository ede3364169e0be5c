import D3OS.Lib.Outcome

/-!
# Outcomes of computations that keep their state when they fail

`EStateM ε σ` is the reading of a function with a mutable argument that returns a
`Result`: what it wrote before it returned an error stays written. `Ends m s Q E` says what
holds of the value and the state when `m` returns and of the error and the state when it
does not; its rules compute it along the program.
-/

namespace D3OS.Lib

universe u

variable {ε σ τ α β : Type u}

/-- Started in `s`, the computation returns with `Q` or fails with `E`. -/
def Ends (m : EStateM ε σ α) (s : σ) (Q : α → σ → Prop) (E : ε → σ → Prop) : Prop :=
  match m s with
  | .ok a s' => Q a s'
  | .error e s' => E e s'

/-- A computation that does not touch the state. -/
def lift (m : Except ε α) : EStateM ε σ α := fun s ↦
  match m with
  | .ok a => .ok a s
  | .error e => .error e s

/-- Run a computation on a part of the state and write that part back, also on failure. -/
def zoom (view : σ → τ) (update : τ → σ → σ) (m : EStateM ε τ α) : EStateM ε σ α := fun s ↦
  match m (view s) with
  | .ok a t => .ok a (update t s)
  | .error e t => .error e (update t s)

variable {Q Q' : α → σ → Prop} {E E' : ε → σ → Prop} {s : σ}

/-- The rule for `pure`. -/
@[simp] theorem ends_pure (a : α) : Ends (pure a : EStateM ε σ α) s Q E ↔ Q a s := Iff.rfl

/-- The rule for `throw`. -/
@[simp] theorem ends_throw (e : ε) : Ends (throw e : EStateM ε σ α) s Q E ↔ E e s := Iff.rfl

/-- The rule for `get`. -/
@[simp] theorem ends_get {Q : σ → σ → Prop} : Ends (get : EStateM ε σ σ) s Q E ↔ Q s s := Iff.rfl

/-- The rule for `set`. -/
@[simp] theorem ends_set {Q : PUnit → σ → Prop} (s' : σ) :
    Ends (set s' : EStateM ε σ PUnit) s Q E ↔ Q ⟨⟩ s' := Iff.rfl

/-- The rule for `modify`. -/
@[simp] theorem ends_modify {Q : PUnit → σ → Prop} (f : σ → σ) :
    Ends (modify f : EStateM ε σ PUnit) s Q E ↔ Q ⟨⟩ (f s) := Iff.rfl

/-- Sequencing: the continuation starts from the value and the state it is given. -/
@[simp] theorem ends_bind {m : EStateM ε σ β} {f : β → EStateM ε σ α} :
    Ends (m >>= f) s Q E ↔ Ends m s (fun b s' ↦ Ends (f b) s' Q E) E := by
  show Ends (EStateM.bind m f) s Q E ↔ _
  unfold Ends EStateM.bind
  cases m s with
  | ok b s' | error e s' => exact Iff.rfl

variable {m : EStateM ε σ α}

/-- The rule for `if`. -/
@[simp] theorem ends_ite {c : Prop} [Decidable c] {m' : EStateM ε σ α} :
    Ends (if c then m else m') s Q E ↔ (c → Ends m s Q E) ∧ (¬ c → Ends m' s Q E) := by
  by_cases h : c
  · simp [h]
  · simp [h]

/-- The rule for `lift`. -/
@[simp] theorem ends_lift (m : Except ε α) :
    Ends (lift m) s Q E ↔ Yields m (fun a ↦ Q a s) (fun e ↦ E e s) := by
  cases m with
  | ok a | error e => exact Iff.rfl

/-- The rule for `zoom`. -/
@[simp] theorem ends_zoom {view : σ → τ} {update : τ → σ → σ} {m : EStateM ε τ α} :
    Ends (zoom view update m) s Q E ↔
      Ends m (view s) (fun a t ↦ Q a (update t s)) (fun e t ↦ E e (update t s)) := by
  unfold Ends zoom
  cases m (view s) with
  | ok a t | error e t => exact Iff.rfl

section

variable (m) (s) {P : σ → Prop} [∀ a s', Decidable (Q a s')] [∀ e s', Decidable (E e s')]
  [∀ s', Decidable (P s')]

/-- How a computation ends can be evaluated. -/
instance decidableEndsOk : Decidable (∃ a s', m s = .ok a s' ∧ Q a s') :=
  match m s with
  | .ok a s' => decidable_of_iff (Q a s') (by simp [and_assoc])
  | .error _ _ => .isFalse (by simp)

instance decidableEndsError : Decidable (∃ e s', m s = .error e s' ∧ E e s') :=
  match m s with
  | .ok _ _ => .isFalse (by simp)
  | .error e s' => decidable_of_iff (E e s') (by simp [and_assoc])

instance decidableEndsOkWith [DecidableEq α] (a : α) : Decidable (∃ s', m s = .ok a s' ∧ P s') :=
  match m s with
  | .ok b s' => decidable_of_iff (b = a ∧ P s') (by simp [and_assoc])
  | .error _ _ => .isFalse (by simp)

instance decidableEndsErrorWith [DecidableEq ε] (e : ε) :
    Decidable (∃ s', m s = .error e s' ∧ P s') :=
  match m s with
  | .ok _ _ => .isFalse (by simp)
  | .error e' s' => decidable_of_iff (e' = e ∧ P s') (by simp [and_assoc])

instance decidableEndsAt [DecidableEq α] (a : α) : Decidable (∃ s', m s = .ok a s') :=
  decidable_of_iff (∃ s', m s = .ok a s' ∧ True) (by simp)

instance decidableFailsAt [DecidableEq ε] (e : ε) : Decidable (∃ s', m s = .error e s') :=
  decidable_of_iff (∃ s', m s = .error e s' ∧ True) (by simp)

end

/-- Both conditions may be weakened. -/
theorem Ends.mono (h : Ends m s Q E) (hQ : ∀ a s', Q a s' → Q' a s') (hE : ∀ e s', E e s' → E' e s')
    : Ends m s Q' E' := by
  unfold Ends at h ⊢
  cases hm : m s with
  | ok a s' =>
    rw [hm] at h
    exact hQ a s' h
  | error e s' =>
    rw [hm] at h
    exact hE e s' h

/-- Conditions that hold anyway. -/
theorem ends_of_forall (hQ : ∀ a s', Q a s') (hE : ∀ e s', E e s') : Ends m s Q E := by
  unfold Ends
  cases m s with
  | ok a s' => exact hQ a s'
  | error e s' => exact hE e s'

/-- A computation whose results all satisfy their conditions. -/
theorem ends_of_eq (hQ : ∀ a s', m s = .ok a s' → Q a s') (hE : ∀ e s', m s = .error e s' → E e s')
    : Ends m s Q E := by
  unfold Ends
  cases h : m s with
  | ok a s' => exact hQ a s' h
  | error e s' => exact hE e s' h

/-- The conditions on the two ways to end, apart. -/
theorem ends_iff_forall :
    Ends m s Q E ↔ (∀ a s', m s = .ok a s' → Q a s') ∧ ∀ e s', m s = .error e s' → E e s' := by
  unfold Ends
  cases m s with
  | ok a s' | error e s' => simp

variable {s' : σ}

/-- Of a computation that returns only the first condition matters. -/
theorem ends_eq_ok {a : α} (h : m s = .ok a s') : Ends m s Q E ↔ Q a s' := by
  rw [Ends, h]

/-- What holds of a computation that returned. -/
theorem Ends.of_ok {a : α} (h : Ends m s Q E) (hm : m s = .ok a s') : Q a s' := by
  rw [Ends, hm] at h
  exact h

/-- What holds of a computation that failed. -/
theorem Ends.of_error {e : ε} (h : Ends m s Q E) (hm : m s = .error e s') : E e s' := by
  rw [Ends, hm] at h
  exact h

/-- A computation whose error condition is impossible returns. -/
theorem Ends.exists_ok (h : Ends m s Q E) (hE : ∀ e s', ¬ E e s') :
    ∃ a s', m s = .ok a s' ∧ Q a s' := by
  cases hm : m s with
  | ok a s' => exact ⟨a, s', rfl, h.of_ok hm⟩
  | error e s' => exact absurd (h.of_error hm) (hE e s')

end D3OS.Lib
