import D3OS.Lib.Outcome

/-!
# Panics, errors and the integer operations of the source language

A panic ends the kernel; an error is a value of `Result<_, &'static str>` that the
caller sees. Code that only panics is modelled in `Except Panic`, code that also
returns errors in `Except Fault`. Machine integers are natural numbers with their
width in the operation that checks it.
-/

namespace D3OS

open Lib

/-- What holds of the elements of a vector and of one that is pushed. -/
theorem forall_mem_push {α : Type} {p : α → Prop} {v : List α} {a : α} (h : ∀ b ∈ v, p b)
    (ha : p a) : ∀ b ∈ v ++ [a], p b :=
  List.forall_mem_append.mpr ⟨h, List.forall_mem_singleton.mpr ha⟩

/-- Why the kernel panicked. -/
inductive Panic where
  | overflow
  | notCanonical
  | physicalRange
  | assertion
  | unwrapNone
  | outOfFrames
  | fieldOverflow
  deriving DecidableEq, Repr

/-- The two ways a fallible kernel function does not return its value. -/
inductive Fault where
  | err (message : String)
  | panic (reason : Panic)
  deriving DecidableEq, Repr

/-- `Errno`, `os/library/syscall/src/return_vals.rs:15`, as far as it is used here. -/
inductive Errno where
  | enoent
  | enohandles
  | eexist
  | enotdir
  | einval
  | einvalh
  | enotsup
  | enomem
  | efault
  | ebusy
  | eisdir
  deriving DecidableEq, Repr

/-- The bound of `u64` and `usize`. -/
def u64Bound : Nat := 2 ^ 64

/-- `u64::checked_add`. -/
def checkedAdd (a b : Nat) : Option Nat := if a + b < u64Bound then some (a + b) else none

/-- `u64::checked_mul`. -/
def checkedMul (a b : Nat) : Option Nat := if a * b < u64Bound then some (a * b) else none

/-- Plain `a - b` on an unsigned integer, which panics on underflow. -/
def subOrPanic (a b : Nat) : Except Panic Nat := if b ≤ a then .ok (a - b) else .error .overflow

/-- Plain `a + b` on a `u64` or `usize`, which panics on overflow. -/
def addOrPanic (a b : Nat) : Except Panic Nat :=
  if a + b < u64Bound then .ok (a + b) else .error .overflow

/-- Plain `a * b` on a `u64` or `usize`, which panics on overflow. -/
def mulOrPanic (a b : Nat) : Except Panic Nat :=
  if a * b < u64Bound then .ok (a * b) else .error .overflow

/-- `Option::unwrap`. -/
def unwrap {α : Type} : Option α → Except Panic α
  | some a => .ok a
  | none => .error .unwrapNone

/-- `checked_next_power_of_two` on an unsigned integer of width `w`. -/
def checkedNextPowerOfTwo (w n : Nat) : Option Nat :=
  let p := if n ≤ 1 then 1 else 2 ^ (Nat.log2 (n - 1) + 1)
  if p < 2 ^ w then some p else none

/-- `is_power_of_two`. -/
def isPowerOfTwo (n : Nat) : Bool := 2 ^ Nat.log2 n == n

/-- `try_into::<u32>().unwrap()`. -/
def toU32 (n : Nat) : Except Panic Nat := if n < 2 ^ 32 then .ok n else .error .unwrapNone

/-- Lift a panic into code that also returns errors. -/
def orPanic {α : Type} : Except Panic α → Except Fault α
  | .ok a => .ok a
  | .error p => .error (.panic p)

/-- `Option::ok_or`. -/
def okOr {α : Type} (message : String) : Option α → Except Fault α
  | some a => .ok a
  | none => .error (.err message)

/-- A condition on what an error leaves behind; a panic leaves nothing to speak of. -/
def Fault.OnErr (P : Prop) : Fault → Prop
  | .err _ => P
  | .panic _ => True

variable {P : Prop}

/-- An error has to meet the condition. -/
@[simp] theorem Fault.onErr_err (message : String) : (Fault.err message).OnErr P ↔ P :=
  Iff.rfl

/-- A panic need not. -/
@[simp] theorem Fault.onErr_panic (reason : Panic) : (Fault.panic reason).OnErr P :=
  trivial

/-- A weaker condition on errors. -/
theorem Fault.OnErr.mono {P' : Prop} {e : Fault} (h : e.OnErr P) (hP : P → P') : e.OnErr P' := by
  cases e with
  | err message => exact hP h
  | panic reason => trivial

/-- A condition that holds anyway. -/
theorem Fault.onErr_of (e : Fault) (h : P) : e.OnErr P := by
  cases e with
  | err message => exact h
  | panic reason => trivial

/-- An error and not a panic. -/
def Fault.IsErr : Fault → Prop
  | .err _ => True
  | .panic _ => False

/-- An error is one. -/
@[simp] theorem Fault.isErr_err (message : String) : (Fault.err message).IsErr := trivial

/-- A panic is no error. -/
@[simp] theorem Fault.not_isErr_panic (reason : Panic) : ¬ (Fault.panic reason).IsErr := id

/-- An error has a text. -/
theorem Fault.IsErr.exists_eq {e : Fault} (h : e.IsErr) : ∃ message, e = .err message := by
  cases e with
  | err message => exact ⟨message, rfl⟩
  | panic reason => exact h.elim

variable {α : Type} {E : Fault → Prop}

/-- The rule for `ok_or`. -/
@[simp] theorem yields_okOr {message : String} {o : Option α} {Q : α → Prop} :
    Yields (okOr message o) Q E ↔ (∀ a, o = some a → Q a) ∧ (o = none → E (.err message)) := by
  cases o with
  | some a | none => simp [okOr]

/-- Lifting a panic keeps the values. -/
theorem orPanic_eq_ok {m : Except Panic α} {a : α} : orPanic m = .ok a ↔ m = .ok a := by
  cases m with
  | ok b | error reason => simp [orPanic]

/-- The rule for lifting a panic. -/
@[simp] theorem yields_orPanic {m : Except Panic α} {Q : α → Prop} :
    Yields (orPanic m) Q E ↔
      (∀ a, m = .ok a → Q a) ∧ (∀ reason, m = .error reason → E (.panic reason)) := by
  cases m with
  | ok a | error reason => simp [orPanic]

variable {a b c : Nat}

/-- A sum that is returned is the sum. -/
@[simp] theorem addOrPanic_eq_ok : addOrPanic a b = .ok c ↔ a + b < u64Bound ∧ a + b = c := by
  unfold addOrPanic
  split
  next h => simp [h]
  next h => simp [h]

/-- A difference that is returned is the difference. -/
theorem subOrPanic_eq_ok : subOrPanic a b = .ok c ↔ b ≤ a ∧ a - b = c := by
  unfold subOrPanic
  split
  next h => simp [h]
  next h => simp [h]

/-- A product that is returned is the product. -/
@[simp] theorem mulOrPanic_eq_ok : mulOrPanic a b = .ok c ↔ a * b < u64Bound ∧ a * b = c := by
  unfold mulOrPanic
  split
  next h => simp [h]
  next h => simp [h]

/-- A difference is returned or underflows. -/
@[simp] theorem yields_subOrPanic {Q : Nat → Prop} :
    Yields (orPanic (subOrPanic a b)) Q E ↔
      (b ≤ a → Q (a - b)) ∧ (a < b → E (.panic .overflow)) := by
  unfold subOrPanic
  split
  next h => simp [orPanic, h, Nat.not_lt.mpr h]
  next h => simp [orPanic, h, Nat.not_le.mp h]

/-- A conversion that succeeds keeps the number. -/
@[simp] theorem toU32_eq_ok : toU32 a = .ok b ↔ a < 2 ^ 32 ∧ a = b := by
  unfold toU32
  split
  next h => rw [Except.ok.injEq, and_iff_right h]
  next h => exact ⟨fun heq ↦ (nomatch heq), fun heq ↦ absurd heq.1 h⟩

/-- What `unwrap` returns. -/
theorem unwrap_eq_ok {o : Option α} {a : α} : unwrap o = .ok a ↔ o = some a := by
  cases o with
  | none | some b => simp [unwrap]

/-- An in-range difference does not panic. -/
theorem subOrPanic_of_le (h : b ≤ a) : subOrPanic a b = .ok (a - b) := by
  rw [subOrPanic, if_pos h]

end D3OS
