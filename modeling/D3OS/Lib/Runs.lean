import D3OS.Lib.Outcome

/-!
# Runs of a system whose steps may fail

A run is a list of labels; a step that fails ends it. `Along` says that a condition on
the state before a step, its label and the state after it holds at every step that a
run takes; `Throughout` is the same for steps that never fail.
-/

namespace D3OS.Lib

universe u v w

variable {ε : Type u} {σ : Type v} {ℓ : Type w} {step : σ → ℓ → Except ε σ}
  {P Q : σ → ℓ → σ → Prop}

/-- The condition holds at every step of the run. -/
def Along (step : σ → ℓ → Except ε σ) (P : σ → ℓ → σ → Prop) : σ → List ℓ → Prop
  | _, [] => True
  | s, l :: ls =>
    match step s l with
    | .error _ => True
    | .ok s' => P s l s' ∧ Along step P s' ls

instance Along.decidable [∀ s l s', Decidable (P s l s')] (s : σ) (ls : List ℓ) :
    Decidable (Along step P s ls) :=
  match ls with
  | [] => .isTrue trivial
  | l :: ls =>
    match h : step s l with
    | .error _ => .isTrue (by rw [Along, h]; trivial)
    | .ok s' =>
      have := Along.decidable s' ls
      decidable_of_iff (P s l s' ∧ Along step P s' ls) (by rw [Along, h])

variable {s s' : σ} {ls : List ℓ}

/-- A run may be continued by another one. -/
theorem foldlM_append_ok {s'' : σ} {ls' : List ℓ} (hrun : ls.foldlM step s = .ok s')
    (hrun' : ls'.foldlM step s' = .ok s'') : (ls ++ ls').foldlM step s = .ok s'' := by
  rw [List.foldlM_append, bind_eq_ok]
  exact ⟨s', hrun, hrun'⟩

/-- A run may be continued by one step. -/
theorem foldlM_concat {s'' : σ} {l : ℓ} (hrun : ls.foldlM step s = .ok s')
    (hstep : step s' l = .ok s'') : (ls ++ [l]).foldlM step s = .ok s'' :=
  foldlM_append_ok hrun (bind_eq_ok.mpr ⟨s'', hstep, rfl⟩)

variable {I : σ → Prop}

/-- Conditions that agree on every step from a state with the invariant agree along every run
from such a state. -/
theorem along_congr_of_invariant (hI : ∀ s l s', I s → step s l = .ok s' → I s')
    (h : ∀ s l s', I s → step s l = .ok s' → (P s l s' ↔ Q s l s')) (hs : I s) (ls : List ℓ) :
    Along step P s ls ↔ Along step Q s ls := by
  induction ls generalizing s with
  | nil => exact Iff.rfl
  | cons l ls ih =>
    rw [Along, Along]
    cases hstep : step s l with
    | error e => exact Iff.rfl
    | ok s' => exact and_congr (h s l s' hs hstep) (ih (hI s l s' hs hstep))

/-- Conditions that agree on every step agree along every run. -/
theorem along_congr (h : ∀ s l s', step s l = .ok s' → (P s l s' ↔ Q s l s')) (s : σ)
    (ls : List ℓ) : Along step P s ls ↔ Along step Q s ls :=
  along_congr_of_invariant (fun _ _ _ _ _ ↦ trivial) (fun s l s' _ ↦ h s l s') (I := fun _ ↦ True)
    trivial ls

/-- Invariant rule for runs whose steps all meet a condition. -/
theorem Along.invariant (h : Along step P s ls) (hrun : ls.foldlM step s = .ok s') (h0 : I s)
    (hstep : ∀ s l s', I s → step s l = .ok s' → P s l s' → I s') : I s' := by
  induction ls generalizing s with
  | nil =>
    cases hrun
    exact h0
  | cons l ls ih =>
    obtain ⟨t, ht, hrest⟩ := of_bind hrun
    rw [Along, ht] at h
    exact ih h.2 hrest (hstep s l t h0 ht h.1)

/-- A condition along a run and an invariant that it keeps give another condition. -/
theorem Along.of_invariant (h : Along step P s ls) (h0 : I s)
    (hstep : ∀ s l s', I s → step s l = .ok s' → P s l s' → I s' ∧ Q s l s') :
    Along step Q s ls := by
  induction ls generalizing s with
  | nil => trivial
  | cons l ls ih =>
    rw [Along] at h ⊢
    cases ht : step s l with
    | error e => trivial
    | ok t =>
      rw [ht] at h
      obtain ⟨hinv, hQ⟩ := hstep s l t h0 ht h.1
      exact ⟨hQ, ih h.2 hinv⟩

/-- A condition along a run holds at each step that the run takes. -/
theorem Along.at_step {s₁ s₂ : σ} (before : List ℓ) {l : ℓ} {after : List ℓ}
    (h : Along step P s (before ++ l :: after)) (h₁ : before.foldlM step s = .ok s₁)
    (h₂ : step s₁ l = .ok s₂) : P s₁ l s₂ := by
  induction before generalizing s with
  | nil =>
    cases h₁
    rw [List.nil_append, Along, h₂] at h
    exact h.1
  | cons k before ih =>
    obtain ⟨s', hs', hrest⟩ := of_bind h₁
    rw [List.cons_append, Along, hs'] at h
    exact ih h.2 hrest

section

variable {next : σ → ℓ → σ} {C : σ → ℓ → Prop}

/-- The condition on the state before a step and its label holds at every step of the run. -/
def Throughout (next : σ → ℓ → σ) (C : σ → ℓ → Prop) : σ → List ℓ → Prop
  | _, [] => True
  | s, l :: ls => C s l ∧ Throughout next C (next s l) ls

instance Throughout.decidable [∀ s l, Decidable (C s l)] (s : σ) (ls : List ℓ) :
    Decidable (Throughout next C s ls) :=
  match ls with
  | [] => .isTrue trivial
  | l :: ls =>
    have := Throughout.decidable (next s l) ls
    inferInstanceAs (Decidable (C s l ∧ Throughout next C (next s l) ls))

/-- Invariant rule for runs whose steps all meet a condition. -/
theorem Throughout.invariant (h : Throughout next C s ls) (h0 : I s)
    (hstep : ∀ s l, I s → C s l → I (next s l)) : I (ls.foldl next s) := by
  induction ls generalizing s with
  | nil => exact h0
  | cons l ls ih => exact ih h.2 (hstep s l h0 h.1)

end

end D3OS.Lib
