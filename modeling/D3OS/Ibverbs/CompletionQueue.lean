import D3OS.Ibverbs.QueuePair

/-!
# Completion queues of the library

`os/library/ibverbs/src/provider/mlx4/completion_queue.rs` and the work completions of
`os/library/ibverbs/src/cq.rs`. The card writes entries into a ring that it shares with the
library; an entry is read as a whole. The queue pairs of the context are looked up by number.
-/

namespace D3OS.Ibverbs

open Lib

/-- `CompletionQueueEntry`, `completion_queue.rs:281`. -/
structure CompletionQueueEntry where
  qpNumber : Nat
  immedRssInvalid : UInt32
  g : Bool
  mlpath : UInt8
  rqpn : UInt32
  sl : UInt8
  slid : UInt16
  byteCnt : UInt32
  wqeIndex : UInt16
  checksum : UInt16
  owner : Nat
  isSend : Bool
  opcode : Nat
  deriving DecidableEq, Repr

/-- `WorkCompletionStatus`, `cq.rs:259`. -/
inductive WorkCompletionStatus where
  | success
  | localLengthError
  | localQpOperationError
  | localProtError
  | wrFlushError
  | mwBindError
  | badResponseError
  | localAccessError
  | remoteInvalidRequestError
  | remoteAccessError
  | remoteOperationError
  | transportRetryExceededError
  | rnrRetryExceededError
  | remoteAbortedErr
  | generalError
  deriving DecidableEq, Repr

/-- `WorkCompletionOpcode`, `cq.rs:289`. -/
inductive WorkCompletionOpcode where
  | send
  | rdmaWrite
  | rdmaRead
  | compareAndSwap
  | fetchAdd
  | localInvalidate
  | recv
  | recvRdmaWithImm
  deriving DecidableEq, Repr

/-- `WorkCompletionFlags`, `cq.rs:302`. -/
abbrev WorkCompletionFlags := BitVec 32

namespace WorkCompletionFlags

def ibvWcGrh : WorkCompletionFlags := 1
def ibvWcWithImm : WorkCompletionFlags := 2

end WorkCompletionFlags

/-- `WorkCompletion`, `cq.rs:59`, with the values of `Default`. -/
structure WorkCompletion where
  wrId : UInt64 := 0
  status : WorkCompletionStatus := .generalError
  opcode : WorkCompletionOpcode := .localInvalidate
  vendorErr : UInt32 := 0
  byteLen : UInt32 := 0
  immData : UInt32 := 0
  qpNum : Nat := 0
  srcQp : UInt32 := 0
  wcFlags : WorkCompletionFlags := 0
  pkeyIndex : UInt16 := 0
  slid : UInt16 := 0
  sl : UInt8 := 0
  dlidPathBits : UInt8 := 0
  deriving DecidableEq, Repr

/-- `parse_syndrome`, `completion_queue.rs:309`. -/
def parseSyndrome (syndrome : Nat) : WorkCompletionStatus :=
  match syndrome with
  | 0x01 => .localLengthError
  | 0x02 => .localQpOperationError
  | 0x04 => .localProtError
  | 0x05 => .wrFlushError
  | 0x06 => .mwBindError
  | 0x10 => .badResponseError
  | 0x11 => .localAccessError
  | 0x12 => .remoteInvalidRequestError
  | 0x13 => .remoteAccessError
  | 0x14 => .remoteOperationError
  | 0x15 => .transportRetryExceededError
  | 0x16 => .rnrRetryExceededError
  | 0x22 => .remoteAbortedErr
  | _ => .generalError

/-- `QueuePairOpcode`, `queue_pair.rs:363`. -/
inductive QueuePairOpcode where
  | nop
  | sendInval
  | rdmaWrite
  | rdmaWriteImm
  | send
  | sendImm
  | lso
  | rdmaRead
  | atomicCs
  | atomicFa
  | maskedAtomicCs
  | maskedAtomicFa
  | bindMw
  | fmr
  | localInval
  | configCmd
  deriving DecidableEq, Repr

/-- `QueuePairOpcode::from_repr`. -/
def QueuePairOpcode.fromRepr : Nat → Option QueuePairOpcode
  | 0x00 => some nop
  | 0x01 => some sendInval
  | 0x08 => some rdmaWrite
  | 0x09 => some rdmaWriteImm
  | 0x0a => some send
  | 0x0b => some sendImm
  | 0x0e => some lso
  | 0x10 => some rdmaRead
  | 0x11 => some atomicCs
  | 0x12 => some atomicFa
  | 0x14 => some maskedAtomicCs
  | 0x15 => some maskedAtomicFa
  | 0x18 => some bindMw
  | 0x19 => some fmr
  | 0x1b => some localInval
  | 0x1f => some configCmd
  | _ => none

/-- `ReceiveOpcode`, `completion_queue.rs:330`. -/
inductive ReceiveOpcode where
  | rdmaWriteImm
  | send
  | sendImm
  | sendInval
  deriving DecidableEq, Repr

/-- `ReceiveOpcode::from_repr`. -/
def ReceiveOpcode.fromRepr : Nat → Option ReceiveOpcode
  | 0x0 => some rdmaWriteImm
  | 0x1 => some send
  | 0x2 => some sendImm
  | 0x3 => some sendInval
  | _ => none

/-- The opcode of an entry that reports an error. -/
def cqeOpcodeError : Nat := 0x1e

/-- The queue pairs of a context by number, `mod.rs:45`. -/
abbrev Context := Nat → Option QueuePair

/-- `resolve_completion`, `mod.rs:71`. -/
def Context.resolveCompletion (mode : Overflow) (qps : Context) (qpNum wqeIndex : Nat)
    (isSend : Bool) : Except Panic (Option UInt64 × Context) :=
  match qps qpNum with
  | none => .ok (none, qps)
  | some qp => do
    let (wrId, qp) ← qp.resolveCompletion mode wqeIndex isSend
    .ok (wrId, Function.update qps qpNum (some qp))

namespace CompletionQueueEntry

/-- The completion of a request that failed, `completion_queue.rs:154-158`. -/
def errorCompletion (cqe : CompletionQueueEntry) (wrId : UInt64) : WorkCompletion where
  wrId := wrId
  qpNum := cqe.qpNumber
  vendorErr := (cqe.checksum >>> 8).toUInt32
  status := parseSyndrome (cqe.checksum.toNat % 2 ^ 8)

/-- The completion of a send, `completion_queue.rs:169-206`. -/
def sendCompletion (cqe : CompletionQueueEntry) (wrId : UInt64) : Except Fault WorkCompletion := do
  let wc : WorkCompletion := { wrId := wrId, qpNum := cqe.qpNumber, status := .success }
  match ← okOr "invalid opcode" (QueuePairOpcode.fromRepr cqe.opcode) with
  | .rdmaWrite => .ok { wc with opcode := .rdmaWrite }
  | .rdmaWriteImm =>
    .ok { wc with opcode := .rdmaWrite, wcFlags := WorkCompletionFlags.ibvWcWithImm }
  | .send => .ok { wc with opcode := .send }
  | .sendImm => .ok { wc with opcode := .send, wcFlags := WorkCompletionFlags.ibvWcWithImm }
  | .sendInval => .ok { wc with opcode := .send }
  | .rdmaRead => .ok { wc with opcode := .rdmaRead, byteLen := cqe.byteCnt }
  | .atomicCs | .maskedAtomicCs => .ok { wc with opcode := .compareAndSwap, byteLen := 8 }
  | .atomicFa | .maskedAtomicFa => .ok { wc with opcode := .fetchAdd, byteLen := 8 }
  | .localInval => .ok { wc with opcode := .localInvalidate }
  | _ => .ok wc

/-- What the completions of all receives have in common, `completion_queue.rs:231-239`. -/
def receivedFrom (cqe : CompletionQueueEntry) (wc : WorkCompletion) : WorkCompletion :=
  { wc with
    srcQp := cqe.rqpn
    dlidPathBits := cqe.mlpath
    wcFlags := if cqe.g then wc.wcFlags ||| WorkCompletionFlags.ibvWcGrh else wc.wcFlags
    pkeyIndex := (cqe.immedRssInvalid &&& 0x7f).toUInt16
    slid := cqe.slid
    sl := cqe.sl }

/-- The completion of a receive, `completion_queue.rs:208-239`; `todo!` panics. -/
def receiveCompletion (cqe : CompletionQueueEntry) (wrId : UInt64) :
    Except Fault WorkCompletion := do
  let wc : WorkCompletion :=
    { wrId := wrId, qpNum := cqe.qpNumber, status := .success, byteLen := cqe.byteCnt }
  match ← okOr "invalid opcode" (ReceiveOpcode.fromRepr cqe.opcode) with
  | .rdmaWriteImm => .ok (cqe.receivedFrom { wc with
      opcode := .recvRdmaWithImm
      wcFlags := WorkCompletionFlags.ibvWcWithImm
      immData := cqe.immedRssInvalid })
  | .sendInval => .error (.panic .assertion)
  | .send => .ok (cqe.receivedFrom { wc with opcode := .recv })
  | .sendImm => .ok (cqe.receivedFrom { wc with
      opcode := .recv
      wcFlags := WorkCompletionFlags.ibvWcWithImm
      immData := cqe.immedRssInvalid })

/-- The part of `poll_one` behind `get_cqe_sw`, `completion_queue.rs:139-241`. The queue pair is
told before the opcode is looked at. -/
def completion (mode : Overflow) (cqe : CompletionQueueEntry) :
    EStateM Fault Context WorkCompletion := do
  let qps ← get
  let (wrId, qps) ← lift (orPanic
    (qps.resolveCompletion mode cqe.qpNumber cqe.wqeIndex.toNat cqe.isSend))
  set qps
  match wrId with
  | none => return { qpNum := cqe.qpNumber, status := .generalError }
  | some wrId =>
    if cqe.opcode = cqeOpcodeError then return cqe.errorCompletion wrId
    else if cqe.isSend then lift (cqe.sendCompletion wrId)
    else lift (cqe.receiveCompletion wrId)

end CompletionQueueEntry

/-- `CompletionQueue`, `completion_queue.rs:28`, with the ring and the doorbell record. -/
structure CompletionQueue where
  number : Nat
  numEntries : Nat
  powerOfTwo : isPowerOfTwo numEntries = true
  entries : Nat → CompletionQueueEntry
  consumerIndex : Nat
  updateConsumerIndex : Nat

namespace CompletionQueue

/-- `create`, `completion_queue.rs:71`, with what `mmap` and the kernel answer and what the card
leaves in the ring when it takes it over. -/
def create (minNumEntries : Int32) (bufferMapped doorbellMapped : Bool)
    (uverbs : Nat → Except Fault Nat) (entries : Nat → CompletionQueueEntry) :
    Except Fault CompletionQueue :=
  if minNumEntries < 0 then .error (.err "cq_entries must be positive")
  else if bufferMapped = false then .error (.err "failed to allocate CQE buffer")
  else if doorbellMapped = false then .error (.err "failed to allocate CQ doorbell")
  else do
    let numEntries := nextPowerOfTwo minNumEntries.toInt.toNat
    let number ← uverbs numEntries.val
    -- `arm` rings the doorbell of the new queue
    if 2 ^ 24 ≤ number then .error (.panic .assertion)
    else .ok {
      number := number
      numEntries := numEntries.val
      powerOfTwo := numEntries.property
      entries := entries
      consumerIndex := 0
      updateConsumerIndex := 0 }

/-- `get_cqe_sw`, `completion_queue.rs:248`. -/
def getCqeSw (cq : CompletionQueue) (index : Nat) : Option CompletionQueueEntry :=
  let cqe := cq.entries (index &&& (cq.numEntries - 1))
  if cqe.owner ≠ (index / cq.numEntries) &&& 1 then none else some cqe

/-- The loop of `poll`, `completion_queue.rs:51-58`: the completions for a slice of the given
length. What was consumed before an error stays consumed. -/
def pollLoop (mode : Overflow) :
    Nat → EStateM Fault (CompletionQueue × Context) (List WorkCompletion)
  | 0 => pure []
  | len + 1 => do
    let (cq, _) ← get
    match cq.getCqeSw cq.consumerIndex with
    | none => pure []
    | some cqe =>
      let wc ← zoom Prod.snd (fun qps s ↦ (s.1, qps)) (cqe.completion mode)
      let consumerIndex ← lift (orPanic (mode.add 32 cq.consumerIndex 1))
      modify fun s ↦ ({ s.1 with consumerIndex := consumerIndex }, s.2)
      let rest ← pollLoop mode len
      return wc :: rest

/-- `poll`, `completion_queue.rs:47`. -/
def poll (mode : Overflow) (len : Nat) :
    EStateM Fault (CompletionQueue × Context) (List WorkCompletion) := do
  let wcs ← pollLoop mode len
  modify fun s ↦ ({ s.1 with updateConsumerIndex := s.1.consumerIndex &&& 0xffffff }, s.2)
  return wcs

end CompletionQueue

end D3OS.Ibverbs
