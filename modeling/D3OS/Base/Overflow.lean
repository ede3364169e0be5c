import D3OS.Base.Rust

/-!
# Plain arithmetic of library code

The library is built with overflow checks in the development profile and without them in the
production profile, so what plain `+`, `-` and `*` do on overflow is a parameter.
-/

namespace D3OS

/-- What plain arithmetic does when the result does not fit. -/
inductive Overflow where
  | panics
  | wraps
  deriving DecidableEq, Repr

namespace Overflow

/-- A result in an unsigned integer of width `w`. -/
def fit (mode : Overflow) (w n : Nat) : Except Panic Nat :=
  if n < 2 ^ w then .ok n
  else
    match mode with
    | .panics => .error .overflow
    | .wraps => .ok (n % 2 ^ w)

/-- Plain `a + b`. -/
def add (mode : Overflow) (w a b : Nat) : Except Panic Nat := mode.fit w (a + b)

/-- Plain `a * b`. -/
def mul (mode : Overflow) (w a b : Nat) : Except Panic Nat := mode.fit w (a * b)

/-- Plain `a - b`. -/
def sub (mode : Overflow) (w a b : Nat) : Except Panic Nat :=
  if b ≤ a then .ok (a - b)
  else
    match mode with
    | .panics => .error .overflow
    | .wraps => .ok (a + 2 ^ w - b)

variable {mode : Overflow} {w a b c n : Nat} {e : Panic}

/-- When a number fits, and what it becomes. -/
theorem fit_eq_ok : mode.fit w n = .ok c ↔ n % 2 ^ w = c ∧ (mode = .panics → n < 2 ^ w) := by
  unfold fit
  split
  next h => simp [Nat.mod_eq_of_lt h, h]
  next h => cases mode <;> simp [h]

private theorem fit_of_lt (h : n < 2 ^ w) : mode.fit w n = .ok n := if_pos h

/-- Without checks a sum is returned. -/
theorem exists_add_wraps (w a b : Nat) : ∃ c, wraps.add w a b = .ok c :=
  ⟨(a + b) % 2 ^ w, fit_eq_ok.mpr ⟨rfl, nofun⟩⟩

/-- Without checks a product is returned. -/
theorem exists_mul_wraps (w a b : Nat) : ∃ c, wraps.mul w a b = .ok c :=
  ⟨a * b % 2 ^ w, fit_eq_ok.mpr ⟨rfl, nofun⟩⟩

/-- Without checks a difference is returned. -/
theorem exists_sub_wraps (w a b : Nat) : ∃ c, wraps.sub w a b = .ok c := by
  unfold sub
  split
  · exact ⟨_, rfl⟩
  · exact ⟨_, rfl⟩

/-- The sum that is returned. -/
theorem add_eq_ok :
    mode.add w a b = .ok c ↔ (a + b) % 2 ^ w = c ∧ (mode = .panics → a + b < 2 ^ w) :=
  fit_eq_ok

/-- When an addition panics. -/
theorem add_eq_error :
    mode.add w a b = .error e ↔ e = .overflow ∧ mode = .panics ∧ 2 ^ w ≤ a + b := by
  unfold add fit
  split
  next h => simp [h]
  next h => cases mode <;> simp [Nat.not_lt.mp h, eq_comm]

/-- A product that fits. -/
theorem mul_of_lt (h : a * b < 2 ^ w) : mode.mul w a b = .ok (a * b) := fit_of_lt h

/-- A sum that fits. -/
theorem add_of_lt (h : a + b < 2 ^ w) : mode.add w a b = .ok (a + b) := fit_of_lt h

/-- A difference that is not negative. -/
theorem sub_of_le (h : b ≤ a) : mode.sub w a b = .ok (a - b) := if_pos h

/-- The difference that is returned. -/
theorem sub_eq_ok (ha : a < 2 ^ w) (hb : b < 2 ^ w) :
    mode.sub w a b = .ok c ↔ (a + 2 ^ w - b) % 2 ^ w = c ∧ (mode = .panics → b ≤ a) := by
  unfold sub
  split
  next h =>
    have heq : (a + 2 ^ w - b) % 2 ^ w = a - b := by
      rw [show a + 2 ^ w - b = a - b + 2 ^ w by omega, Nat.add_mod_right]
      exact Nat.mod_eq_of_lt (by omega)
    simp [heq, h]
  next h =>
    have heq : (a + 2 ^ w - b) % 2 ^ w = a + 2 ^ w - b := Nat.mod_eq_of_lt (by omega)
    cases mode <;> simp [heq, h]

/-- When a subtraction panics. -/
theorem sub_eq_error : mode.sub w a b = .error e ↔ e = .overflow ∧ mode = .panics ∧ a < b := by
  unfold sub
  split
  next h => simp [Nat.not_lt.mpr h]
  next h => cases mode <;> simp [Nat.not_le.mp h, eq_comm]

end Overflow

/-- `next_power_of_two`, for an argument whose result fits. -/
def nextPowerOfTwo (n : Nat) : { p : Nat // isPowerOfTwo p = true } :=
  ⟨2 ^ (if n ≤ 1 then 0 else Nat.log2 (n - 1) + 1), by
    rw [isPowerOfTwo, Nat.log2_two_pow, beq_self_eq_true]⟩

/-- The next power of two is not below the number. -/
theorem le_nextPowerOfTwo (n : Nat) : n ≤ (nextPowerOfTwo n).val := by
  unfold nextPowerOfTwo
  dsimp only
  split
  next h => exact h
  next h =>
    have hlt : n - 1 < 2 ^ (Nat.log2 (n - 1) + 1) := Nat.lt_log2_self
    omega

/-- No power of two in between is skipped. -/
theorem nextPowerOfTwo_le {n k : Nat} (h : n ≤ 2 ^ k) : (nextPowerOfTwo n).val ≤ 2 ^ k := by
  unfold nextPowerOfTwo
  refine Nat.pow_le_pow_right (by decide) ?_
  split
  next => exact Nat.zero_le k
  next hn =>
    have hlt : n - 1 < 2 ^ k := by omega
    exact (Nat.log2_lt (by omega)).mpr hlt

/-- The next power of two, provided that it fits. -/
theorem checkedNextPowerOfTwo_eq_some {w n p : Nat} :
    checkedNextPowerOfTwo w n = some p ↔ p = (nextPowerOfTwo n).val ∧ p < 2 ^ w := by
  have hval : (nextPowerOfTwo n).val = if n ≤ 1 then 1 else 2 ^ (Nat.log2 (n - 1) + 1) := by
    unfold nextPowerOfTwo
    split <;> rfl
  simp only [checkedNextPowerOfTwo, hval, Option.ite_none_right_eq_some, Option.some.injEq]
  constructor
  · rintro ⟨hlt, rfl⟩
    exact ⟨rfl, hlt⟩
  · rintro ⟨rfl, hlt⟩
    exact ⟨hlt, rfl⟩

/-- A power of two is that of its logarithm. -/
theorem two_pow_log2 {n : Nat} (h : isPowerOfTwo n = true) : 2 ^ Nat.log2 n = n :=
  beq_iff_eq.mp h

end D3OS
