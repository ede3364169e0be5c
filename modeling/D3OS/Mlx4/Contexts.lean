import D3OS.Base.Rust

/-!
# Structures handed to the card

The bit fields of `completion_queue.rs`, `queue_pair.rs` and `icm.rs` (all under
`os/kernel/src/device/infiniband/mlx4`) that the driver writes. A field is a bit vector
of its width; its plain setter panics on a value that does not fit, its `_checked`
setter returns an error.
-/

namespace D3OS.Mlx4

open Lib

/-- The plain setter of a bit field. -/
def setField (w value : Nat) : Except Fault (BitVec w) :=
  if value < 2 ^ w then .ok (BitVec.ofNat w value) else .error (.panic .fieldOverflow)

/-- The checked setter of a bit field, with the error its caller makes of a refusal. -/
def setFieldChecked (w : Nat) (message : String) (value : Nat) : Except Fault (BitVec w) :=
  if value < 2 ^ w then .ok (BitVec.ofNat w value) else .error (.err message)

/-- A value that fits is stored. -/
theorem setField_of_lt {w value : Nat} (h : value < 2 ^ w) :
    setField w value = .ok (BitVec.ofNat w value) := if_pos h

/-- A plain setter returns the value or panics. -/
@[simp] theorem yields_setField {w value : Nat} {Q : BitVec w → Prop} {E : Fault → Prop} :
    Yields (setField w value) Q E ↔
      (value < 2 ^ w → Q (BitVec.ofNat w value)) ∧
      (2 ^ w ≤ value → E (.panic .fieldOverflow)) := by
  unfold setField
  split
  next h => simp [h, Nat.not_le.mpr h]
  next h => simp [Nat.not_lt.mp h, h]

/-- A checked setter returns the value or the error. -/
@[simp] theorem yields_setFieldChecked {w value : Nat} {message : String} {Q : BitVec w → Prop}
    {E : Fault → Prop} :
    Yields (setFieldChecked w message value) Q E ↔
      (value < 2 ^ w → Q (BitVec.ofNat w value)) ∧ (2 ^ w ≤ value → E (.err message)) := by
  unfold setFieldChecked
  split
  next h => simp [h, Nat.not_le.mpr h]
  next h => simp [Nat.not_lt.mp h, h]

/-- `CompletionQueueContext`, `completion_queue.rs:152`. -/
structure CompletionQueueContext where
  pageOffset : BitVec 16 := 0
  logCqSize : BitVec 5 := 0
  usrPage : BitVec 24 := 0
  cEqn : BitVec 8 := 0
  log2PageSize : BitVec 6 := 0
  mttBaseAddr : BitVec 40 := 0
  doorbellRecordAddr : BitVec 64 := 0
  deriving DecidableEq, Repr

/-- `QueuePairContext`, `queue_pair.rs:496`. -/
structure QueuePairContext where
  serviceType : BitVec 8 := 0
  pathMigrationState : BitVec 2 := 0
  protectionDomain : BitVec 24 := 0
  mtu : BitVec 3 := 0
  msgMax : BitVec 5 := 0
  logRqSize : BitVec 4 := 0
  logRqStride : BitVec 3 := 0
  sqNoPrefetch : Bool := false
  logSqSize : BitVec 4 := 0
  logSqStride : BitVec 3 := 0
  reservedLkey : Bool := false
  usrPage : BitVec 24 := 0
  remoteQpn : BitVec 24 := 0
  primaryPkeyIndex : BitVec 7 := 0
  primaryGrh : Bool := false
  primaryMlid : BitVec 7 := 0
  primaryRlid : BitVec 16 := 0
  primaryAckTimeout : BitVec 5 := 0
  primarySchedQueue : BitVec 8 := 0
  alternatePkeyIndex : BitVec 7 := 0
  alternateRlid : BitVec 16 := 0
  sraMax : BitVec 3 := 0
  rnrRetry : BitVec 3 := 0
  cqnSend : BitVec 24 := 0
  rraMax : BitVec 3 := 0
  remoteRead : Bool := false
  remoteWrite : Bool := false
  remoteAtomic : Bool := false
  pageOffset : BitVec 6 := 0
  minRnrNak : BitVec 5 := 0
  cqnReceive : BitVec 24 := 0
  dbRecordAddr : BitVec 64 := 0
  qkey : BitVec 32 := 0
  logPageSize : BitVec 6 := 0
  mttBaseAddr : BitVec 40 := 0
  deriving DecidableEq, Repr

/-- `OptionalParameterMask`, `queue_pair.rs:757`. -/
abbrev OptionalParameterMask := BitVec 32

namespace OptionalParameterMask

def alternatePath : OptionalParameterMask := 1 <<< 0
def remoteRead : OptionalParameterMask := 1 <<< 1
def remoteAtomic : OptionalParameterMask := 1 <<< 2
def remoteWrite : OptionalParameterMask := 1 <<< 3
def pkeyIndex : OptionalParameterMask := 1 <<< 4
def qkey : OptionalParameterMask := 1 <<< 5
def minRnrNak : OptionalParameterMask := 1 <<< 6

end OptionalParameterMask

/-- `StateTransitionCommandParameter`, `queue_pair.rs:749`. -/
structure StateTransitionCommandParameter where
  optParamMask : OptionalParameterMask := 0
  qpcData : QueuePairContext := {}
  deriving DecidableEq, Repr

/-- `DmptEntry`, `icm.rs:531`. -/
structure DmptEntry where
  mio : Bool := false
  remoteWrite : Bool := false
  remoteRead : Bool := false
  localWrite : Bool := false
  localRead : Bool := false
  region : Bool := false
  qpNumber : BitVec 24 := 0
  boundToQp : Bool := false
  index : Nat := 0
  rae : Bool := false
  pd : BitVec 24 := 0
  start : BitVec 64 := 0
  length : BitVec 64 := 0
  lkey : BitVec 32 := 0
  mttAddr : BitVec 40 := 0
  mttSize : BitVec 32 := 0
  entitySize : BitVec 21 := 0
  deriving DecidableEq, Repr

/-- `DmptEntry::key`, `icm.rs:622`: the index rotated by eight bits. -/
def DmptEntry.key (entry : DmptEntry) : Nat :=
  entry.index >>> 24 ||| (entry.index <<< 8) % 2 ^ 32

end D3OS.Mlx4
