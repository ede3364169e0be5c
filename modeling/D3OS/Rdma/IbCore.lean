import Mathlib

/-!
# Verbs types shared by the kernel and the library

`os/library/rdma/src/ib_core.rs`. The flag sets are their bits.
-/

namespace D3OS.Rdma

/-- `QueuePairType`, `ib_core.rs:17`. -/
inductive QueuePairType where
  | rc
  | uc
  | ud
  deriving DecidableEq, Repr

/-- `QueuePairState`, `ib_core.rs:228`. -/
inductive QueuePairState where
  | reset
  | init
  | readyToReceive
  | readyToSend
  | sqd
  deriving DecidableEq, Repr

/-- `Mtu`, `ib_core.rs:81`. -/
inductive Mtu where
  | mtu256
  | mtu512
  | mtu1024
  | mtu2048
  | mtu4096
  deriving DecidableEq, Repr

/-- The discriminant of an `Mtu`. -/
def Mtu.repr : Mtu → Nat
  | .mtu256 => 1
  | .mtu512 => 2
  | .mtu1024 => 3
  | .mtu2048 => 4
  | .mtu4096 => 5

/-- A discriminant has three bits. -/
theorem Mtu.repr_lt (mtu : Mtu) : mtu.repr < 2 ^ 3 := by
  cases mtu <;> decide

/-- `AccessFlags`, `ib_core.rs:58`. -/
abbrev AccessFlags := BitVec 32

namespace AccessFlags

def localWrite : AccessFlags := 1
def remoteWrite : AccessFlags := 2
def remoteRead : AccessFlags := 4
def remoteAtomic : AccessFlags := 8

end AccessFlags

/-- `QueuePairAttrMask`, `ib_core.rs:191`. -/
abbrev QueuePairAttrMask := BitVec 32

namespace QueuePairAttrMask

def ibvQpState : QueuePairAttrMask := 1 <<< 0
def ibvQpAccessFlags : QueuePairAttrMask := 1 <<< 3
def ibvQpPkeyIndex : QueuePairAttrMask := 1 <<< 4
def ibvQpPort : QueuePairAttrMask := 1 <<< 5
def ibvQpQkey : QueuePairAttrMask := 1 <<< 6
def ibvQpAv : QueuePairAttrMask := 1 <<< 7
def ibvQpPathMtu : QueuePairAttrMask := 1 <<< 8
def ibvQpTimeout : QueuePairAttrMask := 1 <<< 9
def ibvQpRnrRetry : QueuePairAttrMask := 1 <<< 11
def ibvQpMaxQpRdAtomic : QueuePairAttrMask := 1 <<< 13
def ibvQpAltPath : QueuePairAttrMask := 1 <<< 14
def ibvQpMinRnrTimer : QueuePairAttrMask := 1 <<< 15
def ibvQpMaxDestRdAtomic : QueuePairAttrMask := 1 <<< 17
def ibvQpDestQpn : QueuePairAttrMask := 1 <<< 20

end QueuePairAttrMask

/-- `contains` of a `bitflags` type. -/
def contains (flags flag : BitVec 32) : Bool := flags &&& flag == flag

/-- `AddressHandleAttr`, `ib_core.rs:146`. -/
structure AddressHandleAttr where
  dlid : UInt16 := 0
  sl : UInt8 := 0
  deriving DecidableEq, Repr

/-- `QueuePairAttr`, `ib_core.rs:165`; the default value of each field is that of
`Default`. -/
structure QueuePairAttr where
  qpState : QueuePairState := .reset
  pathMtu : Mtu := .mtu4096
  qkey : UInt32 := 0
  destQpNum : UInt32 := 0
  qpAccessFlags : AccessFlags := 0
  ahAttr : AddressHandleAttr := {}
  altAhAttr : AddressHandleAttr := {}
  pkeyIndex : UInt16 := 0
  altPkeyIndex : UInt16 := 0
  maxRdAtomic : UInt8 := 0
  maxDestRdAtomic : UInt8 := 0
  minRnrTimer : UInt8 := 0
  portNum : UInt8 := 0
  timeout : UInt8 := 0
  rnrRetry : UInt8 := 0
  deriving DecidableEq, Repr

/-- `QueuePairCapabilities`, `ib_core.rs:23`. -/
structure QueuePairCapabilities where
  maxSendWr : UInt32
  maxRecvWr : UInt32
  maxSendSge : UInt32
  maxRecvSge : UInt32
  deriving DecidableEq, Repr

/-- `SendFlags`, `ib_core.rs:246`. -/
abbrev SendFlags := BitVec 32

namespace SendFlags

def signaled : SendFlags := 1 <<< 0
def fence : SendFlags := 1 <<< 1
def solicited : SendFlags := 1 <<< 2

end SendFlags

/-- `ScatterGatherEntry`, `ib_core.rs:278`. -/
structure ScatterGatherEntry where
  addr : UInt64
  length : UInt32
  lkey : UInt32
  deriving DecidableEq, Repr

/-- `SendWorkRequestAddressHandle`, `ib_core.rs:238`. -/
structure SendWorkRequestAddressHandle where
  port : UInt32
  dlid : UInt16
  slid : UInt8
  deriving DecidableEq, Repr

/-- `MemoryRegionMetadata`, `ib_core.rs:157`. -/
structure MemoryRegionMetadata where
  handle : Nat
  lkey : Nat
  rkey : Nat
  deriving DecidableEq, Repr

end D3OS.Rdma
