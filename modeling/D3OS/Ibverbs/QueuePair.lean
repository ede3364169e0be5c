import D3OS.Ibverbs.Wqe
import D3OS.Mlx4.QueuePair

/-!
# Queue pairs of the library

`os/library/ibverbs/src/provider/mlx4/queue_pair.rs`. Posting works on the mapped buffer alone.
A call posts its requests one by one and stops at the first one that it rejects; what it has
posted by then stays posted.
-/

namespace D3OS.Ibverbs

open Lib Rdma

/-- `QueuePair`, `queue_pair.rs:29`. -/
structure QueuePair where
  qpType : QueuePairType
  number : Nat
  state : QueuePairState
  rq : WorkQueue
  sq : WorkQueue
  receiveWqeCounter : Nat

namespace SendWorkRequest

/-- The length of the scatter list. -/
def sgeCount (wr : SendWorkRequest) : Nat :=
  match wr.payload with
  | .sges sges => sges.length
  | .inlined _ => 0

end SendWorkRequest

namespace WorkQueue

/-- The head moves on. -/
def advance (wq : WorkQueue) : WorkQueue := { wq with head := (wq.head + 1) % 2 ^ 32 }

/-- What follows the element: the stamp of the headroom and the metadata, `queue_pair.rs:207-219`.
The new length of the chain is returned. -/
def finishSend (mode : Overflow) (sq : WorkQueue) (wr : SendWorkRequest)
    (wqeSize chainSize : Nat) : Except Fault (WorkQueue × Nat) := do
  let spareWqes ← orPanic (unwrap sq.spareWqes)
  let endOfHeadroom ← orPanic (mode.add 32 sq.head spareWqes)
  let sq ← sq.stampWqe mode endOfHeadroom wqeSize
  if wr.isSignaled then
    let sq ← orPanic (sq.updateMetaForHead wr.wrId chainSize)
    .ok (sq.advance, 1)
  else
    let chainSize ← orPanic (mode.add 32 chainSize 1)
    .ok (sq.advance, chainSize)

/-- The body of the loop of `post_send`, `queue_pair.rs:126-220`. -/
def postSendOne (mode : Overflow) (qpType : QueuePairType) (wr : SendWorkRequest)
    (chainSize : Nat) : EStateM Fault WorkQueue Nat := do
  let sq ← get
  let full ← lift (orPanic (sq.wouldOverflow mode))
  if full = true then throw (.err "send queue would overflow")
  else if sq.maxGs < wr.sgeCount then throw (.err "work request has too many sges")
  else
    let (sq, wqeSize) ← lift (sq.writeWqe mode qpType wr)
    let (sq, chainSize) ← lift (sq.finishSend mode wr wqeSize chainSize)
    set sq
    return chainSize

/-- The loop of `post_send`. -/
def postSendAll (mode : Overflow) (qpType : QueuePairType) :
    List SendWorkRequest → Nat → EStateM Fault WorkQueue Unit
  | [], _ => pure ()
  | wr :: wrs, chainSize => do
    let chainSize ← postSendOne mode qpType wr chainSize
    postSendAll mode qpType wrs chainSize

/-- The loop of `post_receive` over the scatter list, `queue_pair.rs:64-68`. -/
def writeSges (index : Nat) :
    List ScatterGatherEntry → Nat → WorkQueue → Except Fault WorkQueue
  | [], _, rq => .ok rq
  | sge :: rest, sgeIndex, rq => do
    let elem ← orPanic (unwrap (rq.getDataSegment index sgeIndex))
    writeSges index rest (sgeIndex + 1) (rq.write elem (dataSegment sge))

/-- Write the element of a request and its metadata, `queue_pair.rs:63-80`. -/
def writeReceive (rq : WorkQueue) (wr : ReceiveWorkRequest) : Except Fault WorkQueue := do
  let rq ← writeSges rq.head wr.sges 0 rq
  let rq ← orPanic (rq.updateMetaForHead wr.wrId 1)
  if wr.sges.length < rq.maxGs then
    let lastElem ← orPanic (unwrap (rq.getDataSegment rq.head wr.sges.length))
    .ok (rq.write lastElem lastSegment).advance
  else .ok rq.advance

/-- The body of the loop of `post_receive`, `queue_pair.rs:54-82`. -/
def postReceiveOne (mode : Overflow) (wr : ReceiveWorkRequest) : EStateM Fault WorkQueue Unit := do
  let rq ← get
  let full ← lift (orPanic (rq.wouldOverflow mode))
  if full = true then throw (.err "receive queue would overflow")
  else if rq.maxGs < wr.sges.length % 2 ^ 32 then
    throw (.err "work request has too many sges")
  else
    let rq ← lift (rq.writeReceive wr)
    set rq

end WorkQueue

namespace QueuePair

/-- Run a computation on the send queue. -/
def withSq {α : Type} : EStateM Fault WorkQueue α → EStateM Fault QueuePair α :=
  zoom QueuePair.sq fun sq qp ↦ { qp with sq := sq }

/-- Run a computation on the receive queue. -/
def withRq {α : Type} : EStateM Fault WorkQueue α → EStateM Fault QueuePair α :=
  zoom QueuePair.rq fun rq qp ↦ { qp with rq := rq }

/-- `post_send`, `queue_pair.rs:97`; `try_post_send_via_blueflame` always declines, and
`ring_qp_doorbell` checks the number. -/
def postSend (mode : Overflow) (wrs : List SendWorkRequest) : EStateM Fault QueuePair Unit := do
  let qp ← get
  if qp.state ≠ .readyToSend then throw (.err "queue pair cannot send in this state")
  else if wrs.isEmpty then pure ()
  else
    withSq (WorkQueue.postSendAll mode qp.qpType wrs 1)
    if 2 ^ 24 ≤ qp.number then throw (.panic .assertion)
    else pure ()

/-- `post_receive`, `queue_pair.rs:47`. -/
def postReceive (mode : Overflow) (wrs : List ReceiveWorkRequest) :
    EStateM Fault QueuePair Unit := do
  let qp ← get
  if qp.state ≠ .readyToReceive ∧ qp.state ≠ .readyToSend then
    throw (.err "queue pair cannot receive in this state")
  else
    withRq (wrs.forM (WorkQueue.postReceiveOne mode))
    if wrs.isEmpty then pure ()
    else modify fun qp ↦ { qp with receiveWqeCounter := qp.rq.head % 2 ^ 16 }

/-- `resolve_completion`, `queue_pair.rs:339`. -/
def resolveCompletion (mode : Overflow) (qp : QueuePair) (wqeIndex : Nat) (isSend : Bool) :
    Except Panic (Option UInt64 × QueuePair) :=
  if isSend then do
    let (wrId, sq) ← qp.sq.resolveCompletion mode wqeIndex
    .ok (wrId, { qp with sq := sq })
  else do
    let (wrId, rq) ← qp.rq.resolveCompletion mode wqeIndex
    .ok (wrId, { qp with rq := rq })

/-- `modify`, `queue_pair.rs:228`, with what the kernel answers. -/
def modify (qp : QueuePair) (attr : QueuePairAttr) (attrMask : QueuePairAttrMask)
    (answer : Except Fault Unit) : Except Fault QueuePair := do
  answer
  if contains attrMask QueuePairAttrMask.ibvQpState then .ok { qp with state := attr.qpState }
  else .ok qp

/-- The part of `QpInitAttr` that describes the queues, `provider/mod.rs:76`. -/
structure InitAttr where
  qpType : QueuePairType
  cap : QueuePairCapabilities
  deriving DecidableEq, Repr

/-- The sizes in a `CreateQpRequest`, `uverbs_uapi.rs:158`. -/
structure CreateQpRequest where
  logSqBbCount : Nat
  logSqStride : Nat
  logRqWqeCount : Nat
  logRqStride : Nat
  deriving DecidableEq, Repr

/-- The owner bit and stamp of an element before its first use, `queue_pair.rs:287-290`. -/
def initElement (sq : WorkQueue) (i : Nat) : Except Fault WorkQueue := do
  let ctrl ← okOr "invalid send queue offset"
    (sq.getInBuffer controlSegmentSize (sq.wqeByteOffset i))
  (sq.write ctrl (toBe 4 (2 ^ 31) ++ toBe 4 (2 ^ (sq.wqeShift - 4)))).stampWqebb i

/-- The slices of the buffer for the two queues, `queue_pair.rs:261-282`. -/
def splitBuffer (rq sq : WorkQueue) : WorkQueue × WorkQueue :=
  let len := (rq.size + sq.size + 4095) / 4096 * 4096
  let zeroed (len : Nat) : Option Buffer := some ⟨len, fun _ ↦ 0⟩
  if sq.wqeShift < rq.wqeShift then
    ({ rq with buffer := zeroed rq.size }, { sq with buffer := zeroed (len - rq.size) })
  else ({ rq with buffer := zeroed (len - sq.size) }, { sq with buffer := zeroed sq.size })

/-- `create`, `queue_pair.rs:257`, with what `mmap` and the kernel answer. -/
def create (attr : InitAttr) (mapped : Bool) (uverbs : CreateQpRequest → Except Fault Nat) :
    Except Fault QueuePair := do
  let rq ← WorkQueue.newReceiveQueue attr.cap
  let sq ← WorkQueue.newSendQueue attr.cap attr.qpType
  if mapped = false then .error (.panic .unwrapNone)
  else
    let (rq, sq) := splitBuffer rq sq
    let sq ← (List.range sq.wqeCnt).foldlM initElement sq
    let number ← uverbs {
      logSqBbCount := Nat.log2 sq.wqeCnt
      logSqStride := sq.wqeShift
      logRqWqeCount := Nat.log2 rq.wqeCnt
      logRqStride := rq.wqeShift }
    .ok {
      qpType := attr.qpType
      number := number
      state := .reset
      rq := rq
      sq := sq
      receiveWqeCounter := 0 }

end QueuePair

end D3OS.Ibverbs
