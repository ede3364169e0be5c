import D3OS.Lib.Stateful
import D3OS.Mlx4.Fw

/-!
# Allocation of numbers

`Offsets`, `os/kernel/src/device/infiniband/mlx4/mod.rs:585-649`: one counter for each kind
of object, seeded from the numbers the firmware reserves.
-/

namespace D3OS.Mlx4

open Lib

/-- `NUM_SPECIAL_QP`, `mod.rs:59`. -/
def numSpecialQp : Nat := 8

/-- `Offsets`, `mod.rs:585`, without the counters for event queues, which only `init_eqs` uses. -/
structure Offsets where
  baseQpn : Nat
  nextCqn : Nat
  nextQpn : Nat
  nextDmpt : Nat
  deriving DecidableEq, Repr

namespace Offsets

/-- `Offsets::init`, `mod.rs:598`. -/
def init (caps : Capabilities) : Offsets :=
  let endReservedCpn := 2 ^ caps.log2RsvdCqs.toNat
  let baseQpn := (endReservedCpn + numSpecialQp - 1) / numSpecialQp * numSpecialQp
  { baseQpn := baseQpn
    nextCqn := baseQpn + numSpecialQp
    nextQpn := 2 ^ caps.log2RsvdQps.toNat
    nextDmpt := 2 ^ caps.log2RsvdMrws.toNat }

/-- `alloc_cqn`, `mod.rs:625`, with the conversion to `u32` its caller makes. -/
def allocCqn : EStateM Fault Offsets Nat := do
  let offsets ← get
  let next ← lift (orPanic (addOrPanic offsets.nextCqn 1))
  set { offsets with nextCqn := next }
  lift (orPanic (toU32 offsets.nextCqn))

/-- `alloc_qpn`, `mod.rs:632`, with the conversion to `u32` its caller makes. -/
def allocQpn : EStateM Fault Offsets Nat := do
  let offsets ← get
  let next ← lift (orPanic (addOrPanic offsets.nextQpn 1))
  set { offsets with nextQpn := next }
  lift (orPanic (toU32 offsets.nextQpn))

/-- `alloc_dmpt`, `mod.rs:644`, with the conversion to `u32` its caller makes. -/
def allocDmpt : EStateM Fault Offsets Nat := do
  let offsets ← get
  let next ← lift (orPanic (addOrPanic offsets.nextDmpt 1))
  set { offsets with nextDmpt := next }
  lift (orPanic (toU32 offsets.nextDmpt))

variable (offsets : Offsets)

/-- A completion queue gets the next number. -/
theorem allocCqn_ends :
    Ends allocCqn offsets
      (fun n o ↦ n = offsets.nextCqn ∧ o = { offsets with nextCqn := offsets.nextCqn + 1 })
      (fun e _ ↦ e.OnErr False) := by
  simp [allocCqn]

/-- A queue pair gets the next number. -/
theorem allocQpn_ends :
    Ends allocQpn offsets
      (fun n o ↦ n = offsets.nextQpn ∧ o = { offsets with nextQpn := offsets.nextQpn + 1 })
      (fun e _ ↦ e.OnErr False) := by
  simp [allocQpn]

/-- A memory region gets the next index. -/
theorem allocDmpt_ends :
    Ends allocDmpt offsets
      (fun n o ↦ n = offsets.nextDmpt ∧ o = { offsets with nextDmpt := offsets.nextDmpt + 1 })
      (fun e _ ↦ e.OnErr False) := by
  simp [allocDmpt]

end Offsets

end D3OS.Mlx4
