import D3OS.Memory.Address

/-!
# Capabilities of the card and parameters of `INIT_HCA`

`os/kernel/src/device/infiniband/mlx4/fw.rs`. Of both bit fields only what the driver reads
or writes is kept, each field with its width.
-/

namespace D3OS.Mlx4

open Memory

/-- `Capabilities`, `fw.rs:284`. -/
structure Capabilities where
  logMaxQpSz : BitVec 8
  log2RsvdQps : BitVec 4
  log2RsvdCqs : BitVec 4
  log2RsvdMtts : BitVec 4
  log2RsvdMrws : BitVec 4
  numPorts : BitVec 4
  logMaxMsg : BitVec 5
  numRsvdUars : BitVec 4
  uarSz : BitVec 6
  bf : Bool
  numRsvdPds : BitVec 4
  logMaxPd : BitVec 5
  rdmarcEntrySz : BitVec 16
  qpcEntrySz : BitVec 16
  auxEntrySz : BitVec 16
  altcEntrySz : BitVec 16
  eqcEntrySz : BitVec 16
  cqcEntrySz : BitVec 16
  srqEntrySz : BitVec 16
  cMptEntrySz : BitVec 16
  mttEntrySz : BitVec 16
  dMptEntrySz : BitVec 16
  maxIcmSz : BitVec 64
  deriving DecidableEq, Repr

namespace Capabilities

/-- `uar_size`, `fw.rs:697`; the shift panics from the width of `usize` on. -/
def uarSize (caps : Capabilities) : Except Panic Nat :=
  if caps.uarSz.toNat + 20 < 64 then .ok (2 ^ (caps.uarSz.toNat + 20)) else .error .overflow

/-- `num_uars`, `fw.rs:692`. -/
def numUars (caps : Capabilities) : Except Panic Nat := do
  let size ← caps.uarSize
  .ok (size / pageSize)

end Capabilities

/-- A register of `INIT_HCA` with a base address in its upper bits and the logarithm of a
count in the lower ones, `fw.rs:863`. -/
abbrev BaseNum := BitVec 64

namespace BaseNum

/-- The bits of the base address, `0xffffffffffffffe0`. -/
def baseMask : BaseNum := 0xffffffffffffffe0

/-- Set the base address, `fw.rs:1088`; `numMask` is the mask of the bits that are kept. -/
def setBase (reg numMask new : BaseNum) : Except Fault BaseNum :=
  if new &&& baseMask = new then .ok (reg &&& numMask ||| new &&& baseMask)
  else .error (.panic .assertion)

/-- Set the logarithm of the count, `fw.rs:1077`; `numMask` is the mask of its bits. -/
def setLog (reg numMask new : BaseNum) : Except Fault BaseNum :=
  if new &&& numMask = new then .ok (reg &&& baseMask ||| new &&& numMask)
  else .error (.panic .assertion)

/-- The count, `fw.rs:1072`. -/
def num (reg : BaseNum) : Nat := 2 ^ (reg &&& 0x1f).toNat

/-- The count that was set last is read back. -/
theorem num_setLog {reg new reg' : BaseNum} (h : setLog reg 0x1f new = .ok reg') :
    reg'.num = 2 ^ new.toNat := by
  unfold setLog at h
  split at h
  next hnew =>
    cases h
    have hreg : (reg &&& baseMask ||| new &&& 0x1f) &&& 0x1f = new &&& 0x1f := by
      have hmask : baseMask &&& 0x1f = 0 := by decide
      rw [BitVec.and_or_distrib_right, BitVec.and_assoc, BitVec.and_assoc, BitVec.and_self, hmask]
      simp
    rw [num, hreg, hnew]
  next => cases h

end BaseNum

/-- `InitHcaParameters`, `fw.rs:843`. -/
structure InitHcaParameters where
  qpcBaseNum : BaseNum := 0
  qpcSrqcBaseNum : BaseNum := 0
  qpcCqcBaseNum : BaseNum := 0
  qpcAltcBase : BitVec 64 := 0
  qpcAuxcBase : BitVec 64 := 0
  qpcEqcBaseNum : BaseNum := 0
  qpcRdmarcBaseNum : BaseNum := 0
  mcBase : BitVec 64 := 0
  mcLogEntrySz : BitVec 5 := 0
  mcLogHashSz : BitVec 5 := 0
  mcLogTableSz : BitVec 5 := 0
  tptDmptBase : BitVec 64 := 0
  tptLogDmptSz : BitVec 6 := 0
  tptMttBase : BitVec 64 := 0
  tptCmptBase : BitVec 64 := 0
  deriving DecidableEq, Repr

namespace InitHcaParameters

/-- `num_qps`, `fw.rs:1072`. -/
def numQps (init : InitHcaParameters) : Nat := init.qpcBaseNum.num

/-- `num_cqs`, `fw.rs:1116`. -/
def numCqs (init : InitHcaParameters) : Nat := init.qpcCqcBaseNum.num

end InitHcaParameters

end D3OS.Mlx4
