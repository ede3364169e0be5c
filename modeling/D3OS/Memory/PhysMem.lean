import D3OS.Lib.Bytes
import D3OS.Memory.Vmm

/-!
# Physical memory

The kernel writes to the frames of another process through their physical addresses. The
memory keeps, besides its bytes, which addresses were stored to.
-/

namespace D3OS.Memory

open Lib

/-- The bytes at physical addresses, and the stores so far as address and length. -/
structure PhysMem where
  byte : Nat → UInt8
  stores : List (Nat × Nat)

namespace PhysMem

/-- The memory after bytes were stored at an address. -/
def store (mem : PhysMem) (addr : Nat) (data : List UInt8) : PhysMem :=
  ⟨patch mem.byte addr data, mem.stores ++ [(addr, data.length)]⟩

/-- The address was stored to. -/
def Stored (mem : PhysMem) (x : Nat) : Prop := ∃ s ∈ mem.stores, s.1 ≤ x ∧ x < s.1 + s.2

/-- What has been stored after one more store. -/
@[simp] theorem stored_store {mem : PhysMem} {addr x : Nat} {data : List UInt8} :
    (mem.store addr data).Stored x ↔ mem.Stored x ∨ (addr ≤ x ∧ x < addr + data.length) := by
  simp [store, Stored, or_and_right, exists_or]

/-- Nothing has been stored at first. -/
@[simp] theorem not_stored_nil {byte : Nat → UInt8} {x : Nat} : ¬ Stored ⟨byte, []⟩ x := by
  rintro ⟨s, hs, -⟩
  cases hs

end PhysMem

/-- The process reads the bytes at a virtual address. -/
def VirtualAddressSpace.Reads (vas : VirtualAddressSpace) (mem : PhysMem) (addr : Nat)
    (data : List UInt8) : Prop :=
  ∀ i, (h : i < data.length) → ∃ a p, VirtAddr.tryNew (addr + i) = some a ∧
    vas.pageTables.translate a = some p ∧ mem.byte p.asU64 = data[i]

end D3OS.Memory
