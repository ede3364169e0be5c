import D3OS.Base.Overflow
import D3OS.Lib.Bytes
import D3OS.Lib.Ring
import D3OS.Rdma.IbCore

/-!
# Work queues

The ring buffers of `os/library/ibverbs/src/provider/mlx4/queue_pair.rs`. Head and tail are
stored in 32 bits and count elements over all passes; an element, its stamp and its metadata
stand at the index masked by the number of elements.
-/

namespace D3OS.Ibverbs

open Lib Rdma

/-- A mapped slice of memory. -/
structure Buffer where
  len : Nat
  bytes : Nat → UInt8

/-- `WorkQueueMeta`, `queue_pair.rs:536`. -/
structure WorkQueueMeta where
  wrId : UInt64
  chainSize : Nat
  deriving DecidableEq, Repr

/-- The fields of `WorkQueue` that are fixed when the queue is created; the number of elements
is a power of two. -/
structure WorkQueueSizes where
  wqeCnt : Nat
  maxPost : Nat
  maxGs : Nat
  wqeShift : Nat
  spareWqes : Option Nat
  isPowerOfTwo_wqeCnt : isPowerOfTwo wqeCnt = true

/-- `WorkQueue`, `queue_pair.rs:548`, with metadata for every element. -/
structure WorkQueue extends WorkQueueSizes where
  buffer : Option Buffer
  head : Nat
  tail : Nat
  metadata : List (Option WorkQueueMeta)
  divergenceReported : Bool
  length_metadata : metadata.length = wqeCnt

/-- `log_max_qp_size`, `provider/mlx4/mod.rs:60`. -/
def logMaxQpSize : Nat := 16

/-- `log_max_rq_sge`, `provider/mlx4/mod.rs:61`. -/
def logMaxRqSge : Nat := 5

/-- `log_max_sq_sge`, `provider/mlx4/mod.rs:62`. -/
def logMaxSqSge : Nat := 5

/-- `max_wqe_sq_size`, `provider/mlx4/mod.rs:63`. -/
def maxWqeSqSize : Nat := 1024

/-- `size_of::<WqeDataSegment>()`. -/
def dataSegmentSize : Nat := 16

/-- `size_of::<WqeControlSegment>()`. -/
def controlSegmentSize : Nat := 16

/-- `size_of::<WqeRemoteAddressSegment>()`. -/
def remoteAddressSegmentSize : Nat := 16

/-- `size_of::<WqeDatagramSegment>()`. -/
def datagramSegmentSize : Nat := 48

/-- `ib_sq_headroom`, `queue_pair.rs:570`. -/
def ibSqHeadroom (shift : Nat) : Nat := (2048 >>> shift) + 1

/-- `IB_SQ_MAX_SPARE`, `queue_pair.rs:568`. -/
def ibSqMaxSpare : Nat := ibSqHeadroom 6

/-- `send_wqe_overhead`, `queue_pair.rs:754`. -/
def sendWqeOverhead : QueuePairType → Nat
  | .ud => controlSegmentSize + datagramSegmentSize
  | .uc => controlSegmentSize + remoteAddressSegmentSize
  | .rc => controlSegmentSize + remoteAddressSegmentSize

namespace WorkQueueSizes

/-- The sizes of a receive queue, `queue_pair.rs:584-599`. -/
def receive (maxRecvWr maxRecvSge : Nat) : WorkQueueSizes :=
  let wqeCnt := nextPowerOfTwo (if maxRecvWr < 256 then 256 else maxRecvWr)
  let maxGs := nextPowerOfTwo (if maxRecvSge < 1 then 1 else maxRecvSge)
  { wqeCnt := wqeCnt.val
    maxPost := min (2 ^ logMaxQpSize - ibSqMaxSpare) wqeCnt.val
    maxGs := maxGs.val
    wqeShift := Nat.log2 (maxGs.val * dataSegmentSize)
    spareWqes := none
    isPowerOfTwo_wqeCnt := wqeCnt.property }

/-- The sizes of a send queue for elements of the given size, `queue_pair.rs:625-634`. -/
def send (qpType : QueuePairType) (maxSendWr size : Nat) : WorkQueueSizes :=
  let wqeShift := Nat.log2 (nextPowerOfTwo size).val
  let spareWqes := ibSqHeadroom wqeShift
  let wqeCnt := nextPowerOfTwo ((if maxSendWr < 256 then 256 else maxSendWr) + spareWqes)
  { wqeCnt := wqeCnt.val
    maxPost := wqeCnt.val - spareWqes
    maxGs := (min maxWqeSqSize (2 ^ wqeShift) - sendWqeOverhead qpType) / dataSegmentSize
    wqeShift := wqeShift
    spareWqes := some spareWqes
    isPowerOfTwo_wqeCnt := wqeCnt.property }

end WorkQueueSizes

namespace WorkQueue

/-- A queue without a buffer. -/
def ofSizes (sizes : WorkQueueSizes) : WorkQueue where
  toWorkQueueSizes := sizes
  buffer := none
  head := 0
  tail := 0
  metadata := List.replicate sizes.wqeCnt none
  divergenceReported := false
  length_metadata := List.length_replicate

/-- `new_receive_queue`, `queue_pair.rs:576`. -/
def newReceiveQueue (caps : QueuePairCapabilities) : Except Fault WorkQueue :=
  if 2 ^ logMaxQpSize - ibSqMaxSpare < caps.maxRecvWr.toNat ∨
      2 ^ logMaxRqSge < caps.maxRecvSge.toNat then
    .error (.err "RQ size is invalid")
  else .ok (ofSizes (.receive caps.maxRecvWr.toNat caps.maxRecvSge.toNat))

/-- `new_send_queue`, `queue_pair.rs:614`. -/
def newSendQueue (caps : QueuePairCapabilities) (qpType : QueuePairType) :
    Except Fault WorkQueue :=
  if 2 ^ logMaxQpSize - ibSqMaxSpare < caps.maxSendWr.toNat ∨
      2 ^ logMaxSqSge < caps.maxSendSge.toNat then
    .error (.err "SQ size is invalid")
  else
    let size := caps.maxSendSge.toNat * dataSegmentSize + sendWqeOverhead qpType
    if 2 ^ 16 ≤ size then .error (.panic .unwrapNone)
    else if maxWqeSqSize < size then .error (.err "SQ size is invalid")
    else .ok (ofSizes (.send qpType caps.maxSendWr.toNat size))

/-- `size`, `queue_pair.rs:651`. -/
def size (wq : WorkQueue) : Nat := (wq.wqeCnt <<< wq.wqeShift) % 2 ^ 32

/-- `wqe_byte_offset`, `queue_pair.rs:673`. -/
def wqeByteOffset (wq : WorkQueue) (index : Nat) : Nat :=
  ((index &&& (wq.wqeCnt - 1)) <<< wq.wqeShift) % 2 ^ 32

/-- `get_in_buffer`, `queue_pair.rs:665`: the place of a value of the given size. -/
def getInBuffer (wq : WorkQueue) (size byteOffset : Nat) : Option Nat := do
  let buffer ← wq.buffer
  if buffer.len < byteOffset + size then none else some byteOffset

/-- Write through a reference into the buffer. -/
def write (wq : WorkQueue) (place : Nat) (data : List UInt8) : WorkQueue :=
  { wq with buffer := wq.buffer.map fun buffer ↦
    { buffer with bytes := patch buffer.bytes place data } }

/-- The queue with other bytes in its buffer. -/
def withBytes (wq : WorkQueue) (bytes : Nat → UInt8) : WorkQueue :=
  { wq with buffer := wq.buffer.map fun buffer ↦ { buffer with bytes := bytes } }

/-- `get_data_segment`, `queue_pair.rs:682`. -/
def getDataSegment (wq : WorkQueue) (index sgeIndex : Nat) : Option Nat :=
  wq.getInBuffer dataSegmentSize (wq.wqeByteOffset index + sgeIndex * dataSegmentSize)

/-- The element of the metadata at an index, with the bounds check. -/
def setMetadata (wq : WorkQueue) (idx : Nat) (entry : Option WorkQueueMeta) :
    Except Panic WorkQueue :=
  if idx < wq.metadata.length then
    .ok { wq with
      metadata := wq.metadata.set idx entry
      length_metadata := List.length_set.trans wq.length_metadata }
  else .error .unwrapNone

/-- `update_meta_for_head`, `queue_pair.rs:659`. -/
def updateMetaForHead (wq : WorkQueue) (wrId : UInt64) (chainSize : Nat) :
    Except Panic WorkQueue :=
  wq.setMetadata (wq.head &&& (wq.wqeCnt - 1)) (some ⟨wrId, chainSize⟩)

end WorkQueue

namespace Buffer

/-- The loop of `stamp_wqebb` over the blocks of 64 bytes, `queue_pair.rs:710-715`. -/
def stampBlocks (first : UInt8) : Nat → Nat → Buffer → Except Panic Buffer
  | 0, _, buffer => .ok buffer
  | count + 1, offset, buffer =>
    if buffer.len < offset + 4 then .error .unwrapNone
    else stampBlocks first count (offset + 64)
      { buffer with bytes := patch buffer.bytes offset [first, 0xFF, 0xFF, 0xFF] }

end Buffer

namespace WorkQueue

/-- `stamp_wqebb`, `queue_pair.rs:705`. -/
def stampWqebb (wq : WorkQueue) (index : Nat) : Except Fault WorkQueue := do
  let invalidOwnerBit := (index >>> Nat.log2 (nextPowerOfTwo wq.wqeCnt).val) % 2 == 0
  let first : UInt8 := 0x7F ||| (if invalidOwnerBit then 0x80 else 0)
  let buffer ← okOr "queue pair has no buffer" wq.buffer
  let buffer ← orPanic (buffer.stampBlocks first ((2 ^ wq.wqeShift + 63) / 64)
    (wq.wqeByteOffset index))
  .ok { wq with buffer := some buffer }

/-- The loop of `stamp_wqe`. -/
def stampWqebbs (mode : Overflow) (index : Nat) : Nat → Nat → WorkQueue → Except Fault WorkQueue
  | 0, _, wq => .ok wq
  | count + 1, i, wq => do
    let stamped ← orPanic (mode.add 32 index i)
    let wq ← wq.stampWqebb stamped
    stampWqebbs mode index count (i + 1) wq

/-- `stamp_wqe`, `queue_pair.rs:689`. -/
def stampWqe (mode : Overflow) (wq : WorkQueue) (index size : Nat) : Except Fault WorkQueue :=
  stampWqebbs mode index ((size + 2 ^ wq.wqeShift - 1) / 2 ^ wq.wqeShift) 0 wq

/-- `would_overflow`, `queue_pair.rs:720`. -/
def wouldOverflow (mode : Overflow) (wq : WorkQueue) : Except Panic Bool := do
  let used ← mode.sub 32 wq.head wq.tail
  let next ← mode.add 32 used 1
  .ok (decide (wq.maxPost ≤ next))

/-- `check_wqe_index`, `queue_pair.rs:728`, without the log message. -/
def checkWqeIndex (wq : WorkQueue) (wqeIndex : Nat) : WorkQueue :=
  if wq.divergenceReported then wq
  else if wq.tail &&& (wq.wqeCnt - 1) = wqeIndex &&& (wq.wqeCnt - 1) then wq
  else { wq with divergenceReported := true }

/-- `resolve_completion`, `queue_pair.rs:745`. -/
def resolveCompletion (mode : Overflow) (wq : WorkQueue) (wqeIndex : Nat) :
    Except Panic (Option UInt64 × WorkQueue) := do
  let wq := wq.checkWqeIndex wqeIndex
  let idx := wqeIndex &&& (wq.wqeCnt - 1)
  match ← unwrap wq.metadata[idx]? with
  | none => .ok (none, wq)
  | some entry =>
    let wq ← wq.setMetadata idx none
    let tail ← mode.add 32 wq.tail entry.chainSize
    .ok (some entry.wrId, { wq with tail := tail })

end WorkQueue

namespace WorkQueueSizes

/-- The sizes that `new_send_queue` chooses. -/
structure IsSend (qpType : QueuePairType) (sizes : WorkQueueSizes) : Prop where
  spare : ∃ spare, sizes.spareWqes = some spare ∧ 0 < spare ∧
    sizes.maxPost + spare = sizes.wqeCnt
  le_maxPost : 256 ≤ sizes.maxPost
  wqeCnt_le : sizes.wqeCnt ≤ 2 ^ 17
  overhead_le : sendWqeOverhead qpType + sizes.maxGs * dataSegmentSize ≤ 2 ^ sizes.wqeShift
  wqeShift_le : sizes.wqeShift ≤ 10

/-- The sizes that `new_receive_queue` chooses. -/
structure IsReceive (sizes : WorkQueueSizes) : Prop where
  le_maxPost : 256 ≤ sizes.maxPost
  maxPost_le : sizes.maxPost ≤ sizes.wqeCnt
  wqeCnt_le : sizes.wqeCnt ≤ 2 ^ 16
  maxGs_le : sizes.maxGs * dataSegmentSize ≤ 2 ^ sizes.wqeShift
  wqeShift_le : sizes.wqeShift ≤ 9

variable {sizes : WorkQueueSizes} {qpType : QueuePairType}

/-- The number of entries is a power of two. -/
theorem wqeCnt_eq (sizes : WorkQueueSizes) : sizes.wqeCnt = 2 ^ Nat.log2 sizes.wqeCnt :=
  (two_pow_log2 sizes.isPowerOfTwo_wqeCnt).symm

/-- A ring has an entry. -/
theorem wqeCnt_pos (sizes : WorkQueueSizes) : 0 < sizes.wqeCnt := by
  rw [sizes.wqeCnt_eq]
  exact Nat.two_pow_pos _

private theorem and_mask (sizes : WorkQueueSizes) (index : Nat) :
    index &&& (sizes.wqeCnt - 1) = index % sizes.wqeCnt := by
  rw [sizes.wqeCnt_eq]
  exact Nat.and_two_pow_sub_one_eq_mod _ _

/-- Two passes fit into the width of an index. -/
theorem two_mul_dvd (h : sizes.wqeCnt ≤ 2 ^ 17) : 2 * sizes.wqeCnt ∣ 2 ^ 32 := by
  rw [sizes.wqeCnt_eq] at h ⊢
  have hlog : Nat.log2 sizes.wqeCnt ≤ 17 := (Nat.pow_le_pow_iff_right (by decide)).mp h
  rw [← Nat.pow_succ']
  exact Nat.pow_dvd_pow 2 (by omega)

/-- Indices that wrap stay in step with the ring. -/
theorem dvd (h : sizes.wqeCnt ≤ 2 ^ 17) : sizes.wqeCnt ∣ 2 ^ 32 :=
  Nat.dvd_trans (Nat.dvd_mul_left _ _) (two_mul_dvd h)

private theorem le_of_two_pow_le {a b : Nat} (h : 2 ^ a ≤ 2 ^ b) : a ≤ b :=
  (Nat.pow_le_pow_iff_right (by decide)).mp h

private theorem overhead_bounds (qpType : QueuePairType) :
    32 ≤ sendWqeOverhead qpType ∧ sendWqeOverhead qpType ≤ 64 := by
  cases qpType <;> decide

/-- An entry of a send queue has 32 bytes at least. -/
theorem IsSend.shift (h : sizes.IsSend qpType) : 5 ≤ sizes.wqeShift :=
  le_of_two_pow_le (Nat.le_trans (overhead_bounds qpType).1
    (Nat.le_trans (Nat.le_add_right _ _) h.overhead_le))

/-- A send queue keeps entries spare. -/
theorem IsSend.spare_eq (h : sizes.IsSend qpType) {spare : Nat}
    (hspare : sizes.spareWqes = some spare) :
    0 < spare ∧ sizes.maxPost + spare = sizes.wqeCnt := by
  obtain ⟨spare', hspare', hbounds⟩ := h.spare
  cases hspare.symm.trans hspare'
  exact hbounds

/-- The ring has room for all that can be posted. -/
theorem IsSend.maxPost_le (h : sizes.IsSend qpType) : sizes.maxPost ≤ sizes.wqeCnt := by
  obtain ⟨spare, -, -, hsum⟩ := h.spare
  omega

private theorem headroom_le {shift : Nat} (h : 5 ≤ shift) : ibSqHeadroom shift ≤ 65 := by
  have hpow : 2 ^ 5 ≤ 2 ^ shift := Nat.pow_le_pow_right (by decide) h
  have hdiv : 2048 / 2 ^ shift ≤ 2048 / 2 ^ 5 := Nat.div_le_div_left hpow (by decide)
  rw [ibSqHeadroom, Nat.shiftRight_eq_div_pow]
  omega

private theorem isSend_send {maxSendWr size : Nat}
    (hwr : maxSendWr ≤ 2 ^ logMaxQpSize - ibSqMaxSpare)
    (hsize : sendWqeOverhead qpType ≤ size) (hmax : size ≤ maxWqeSqSize) :
    (send qpType maxSendWr size).IsSend qpType := by
  obtain ⟨hover, -⟩ := overhead_bounds qpType
  have hpow := two_pow_log2 (nextPowerOfTwo size).property
  have hle := le_nextPowerOfTwo size
  have hle' : (nextPowerOfTwo size).val ≤ 2 ^ 10 := nextPowerOfTwo_le hmax
  have hshift : 5 ≤ Nat.log2 (nextPowerOfTwo size).val := le_of_two_pow_le (by omega)
  have hspare := headroom_le hshift
  have hwr' : maxSendWr ≤ 65503 := hwr
  have hwanted : 256 ≤ (if maxSendWr < 256 then 256 else maxSendWr) ∧
      (if maxSendWr < 256 then 256 else maxSendWr) ≤ 65503 := by
    split <;> omega
  have hcnt := le_nextPowerOfTwo ((if maxSendWr < 256 then 256 else maxSendWr) +
    ibSqHeadroom (Nat.log2 (nextPowerOfTwo size).val))
  constructor
  · exact ⟨_, rfl, Nat.succ_pos _, Nat.sub_add_cancel (by omega)⟩
  · exact Nat.le_sub_of_add_le (by omega)
  · exact nextPowerOfTwo_le (by omega)
  · have hfits : sendWqeOverhead qpType ≤
        min maxWqeSqSize (2 ^ Nat.log2 (nextPowerOfTwo size).val) :=
      Nat.le_min.mpr ⟨Nat.le_trans hsize hmax, by omega⟩
    refine Nat.le_trans (Nat.add_le_add_left (Nat.div_mul_le_self _ _) _) ?_
    refine Nat.le_trans (Nat.le_of_eq (Nat.add_sub_cancel' hfits)) ?_
    exact Nat.min_le_right _ _
  · exact le_of_two_pow_le (Nat.le_trans (Nat.le_of_eq hpow) hle')

private theorem isReceive_receive {maxRecvWr maxRecvSge : Nat}
    (hwr : maxRecvWr ≤ 2 ^ logMaxQpSize - ibSqMaxSpare) (hsge : maxRecvSge ≤ 2 ^ logMaxRqSge) :
    (receive maxRecvWr maxRecvSge).IsReceive := by
  have hwr' : maxRecvWr ≤ 65503 := hwr
  have hsge' : maxRecvSge ≤ 32 := hsge
  have hwanted : 256 ≤ (if maxRecvWr < 256 then 256 else maxRecvWr) ∧
      (if maxRecvWr < 256 then 256 else maxRecvWr) ≤ 65503 := by
    split <;> omega
  have hgs : (if maxRecvSge < 1 then 1 else maxRecvSge) ≤ 2 ^ 5 := by
    split <;> omega
  have hpow := two_pow_log2 (nextPowerOfTwo (if maxRecvSge < 1 then 1 else maxRecvSge)).property
  have hlog := nextPowerOfTwo_le hgs
  have hcnt := le_nextPowerOfTwo (if maxRecvWr < 256 then 256 else maxRecvWr)
  have hshift : (receive maxRecvWr maxRecvSge).wqeShift =
      Nat.log2 (nextPowerOfTwo (if maxRecvSge < 1 then 1 else maxRecvSge)).val + 4 := by
    show Nat.log2 ((nextPowerOfTwo (if maxRecvSge < 1 then 1 else maxRecvSge)).val * 2 ^ 4) = _
    rw [← hpow, ← Nat.pow_add, Nat.log2_two_pow, Nat.log2_two_pow]
  constructor
  · exact Nat.le_min.mpr ⟨by decide, by omega⟩
  · exact Nat.min_le_right _ _
  · exact nextPowerOfTwo_le (by omega)
  · rw [hshift, Nat.pow_add, hpow]
    exact Nat.le_refl _
  · have := le_of_two_pow_le (Nat.le_trans (Nat.le_of_eq hpow) hlog)
    omega

end WorkQueueSizes

namespace WorkQueue

/-- A send queue is created empty. -/
theorem newSendQueue_eq_ok {caps : QueuePairCapabilities} {qpType : QueuePairType}
    {wq : WorkQueue} (h : newSendQueue caps qpType = .ok wq) :
    wq = ofSizes (.send qpType caps.maxSendWr.toNat
        (caps.maxSendSge.toNat * dataSegmentSize + sendWqeOverhead qpType)) ∧
      caps.maxSendWr.toNat ≤ 2 ^ logMaxQpSize - ibSqMaxSpare ∧
      caps.maxSendSge.toNat * dataSegmentSize + sendWqeOverhead qpType ≤ maxWqeSqSize ∧
      wq.IsSend qpType := by
  unfold newSendQueue at h
  split at h
  next => cases h
  next hcaps =>
    dsimp only at h
    split at h
    next => cases h
    next =>
      split at h
      next => cases h
      next hsize =>
        cases h
        have hwr := Nat.not_lt.mp (not_or.mp hcaps).1
        exact ⟨rfl, hwr, Nat.not_lt.mp hsize,
          WorkQueueSizes.isSend_send hwr (Nat.le_add_left _ _) (Nat.not_lt.mp hsize)⟩

/-- A receive queue is created empty. -/
theorem newReceiveQueue_eq_ok {caps : QueuePairCapabilities} {wq : WorkQueue}
    (h : newReceiveQueue caps = .ok wq) :
    wq = ofSizes (.receive caps.maxRecvWr.toNat caps.maxRecvSge.toNat) ∧
      caps.maxRecvWr.toNat ≤ 2 ^ logMaxQpSize - ibSqMaxSpare ∧ wq.IsReceive := by
  unfold newReceiveQueue at h
  split at h
  next => cases h
  next hcaps =>
    cases h
    have hwr := Nat.not_lt.mp (not_or.mp hcaps).1
    exact ⟨rfl, hwr, WorkQueueSizes.isReceive_receive hwr (Nat.not_lt.mp (not_or.mp hcaps).2)⟩

end WorkQueue

/-- The owner bit in the first byte of an element or block. -/
def ownerBit (first : UInt8) : Nat := first.toNat / 128

namespace WorkQueue

/-- The queue has memory for its elements, with these bytes. -/
structure Mapped (wq : WorkQueue) (bytes : Nat → UInt8) : Prop where
  buffer_eq : ∃ len, wq.buffer = some ⟨len, bytes⟩ ∧ wq.wqeCnt * 2 ^ wq.wqeShift ≤ len
  wqeCnt_le : wq.wqeCnt ≤ 2 ^ 17
  wqeShift_le : wq.wqeShift ≤ 10

/-- Every block of the element at an index has the owner bit that the card does not expect
there. -/
def Stamped (sizes : WorkQueueSizes) (bytes : Nat → UInt8) (index : Nat) : Prop :=
  ∀ block, 64 * block < 2 ^ sizes.wqeShift →
    ownerBit (bytes (index % sizes.wqeCnt * 2 ^ sizes.wqeShift + 64 * block)) =
      1 - passParity sizes.wqeCnt index

section

variable {wq : WorkQueue} {bytes bytes' : Nat → UInt8} {index place size : Nat}
  {data : List UInt8}

/-- Writing keeps the sizes. -/
@[simp] theorem withBytes_sizes : (wq.withBytes bytes).toWorkQueueSizes = wq.toWorkQueueSizes := rfl

/-- The last bytes count. -/
@[simp] theorem withBytes_withBytes :
    (wq.withBytes bytes).withBytes bytes' = wq.withBytes bytes' := by
  simp [withBytes, Function.comp_def]

section

variable (h : wq.Mapped bytes)
include h

/-- The ring has the bytes that were put in. -/
theorem Mapped.withBytes : (wq.withBytes bytes').Mapped bytes' := by
  obtain ⟨len, hbuffer, hlen⟩ := h.buffer_eq
  refine ⟨⟨len, ?_, hlen⟩, h.wqeCnt_le, h.wqeShift_le⟩
  rw [WorkQueue.withBytes, hbuffer]
  rfl

/-- The mapping is a matter of the buffer and the sizes. -/
theorem Mapped.congr {wq' : WorkQueue}
    (hsizes : wq'.toWorkQueueSizes = wq.toWorkQueueSizes) (hbuffer : wq'.buffer = wq.buffer) :
    wq'.Mapped bytes := by
  obtain ⟨hbuffer', hcnt, hshift⟩ := h
  rw [← hsizes, ← hbuffer] at hbuffer'
  rw [← hsizes] at hcnt hshift
  exact ⟨hbuffer', hcnt, hshift⟩

/-- A ring has one content. -/
theorem Mapped.unique (h' : wq.Mapped bytes') : bytes = bytes' := by
  obtain ⟨len, hbuffer, -⟩ := h.buffer_eq
  obtain ⟨len', hbuffer', -⟩ := h'.buffer_eq
  cases hbuffer.symm.trans hbuffer'
  rfl

/-- Its own bytes change nothing. -/
theorem Mapped.withBytes_self : wq.withBytes bytes = wq := by
  obtain ⟨len, hbuffer, -⟩ := h.buffer_eq
  cases wq
  cases hbuffer
  rfl

/-- A write patches the bytes. -/
theorem Mapped.write :
    wq.write place data = wq.withBytes (patch bytes place data) := by
  obtain ⟨len, hbuffer, -⟩ := h.buffer_eq
  rw [WorkQueue.write, WorkQueue.withBytes, hbuffer]
  rfl

/-- The elements end far below the bound of an offset. -/
theorem Mapped.slot_le (index : Nat) :
    index % wq.wqeCnt * 2 ^ wq.wqeShift + 2 ^ wq.wqeShift ≤ 2 ^ 27 := by
  have hwidth : 2 ^ wq.wqeShift ≤ 2 ^ 10 := Nat.pow_le_pow_right (by decide) h.wqeShift_le
  have hslot : index % wq.wqeCnt + 1 ≤ 2 ^ 17 :=
    Nat.le_trans (Nat.mod_lt _ wq.wqeCnt_pos) h.wqeCnt_le
  calc index % wq.wqeCnt * 2 ^ wq.wqeShift + 2 ^ wq.wqeShift
      = (index % wq.wqeCnt + 1) * 2 ^ wq.wqeShift := (Nat.succ_mul _ _).symm
    _ ≤ 2 ^ 17 * 2 ^ 10 := Nat.mul_le_mul hslot hwidth

/-- Where an entry starts. -/
theorem Mapped.wqeByteOffset (index : Nat) :
    wq.wqeByteOffset index = index % wq.wqeCnt * 2 ^ wq.wqeShift := by
  rw [WorkQueue.wqeByteOffset, wq.and_mask, Nat.shiftLeft_eq]
  apply Nat.mod_eq_of_lt
  exact Nat.lt_of_le_of_lt (Nat.le_trans (Nat.le_add_right _ _) (h.slot_le index)) (by decide)

/-- Every place inside of an element is in the buffer. -/
theorem Mapped.getInBuffer (index : Nat)
    (hle : place + size ≤ index % wq.wqeCnt * 2 ^ wq.wqeShift + 2 ^ wq.wqeShift) :
    wq.getInBuffer size place = some place := by
  obtain ⟨len, hbuffer, hlen⟩ := h.buffer_eq
  have hslot : (index % wq.wqeCnt + 1) * 2 ^ wq.wqeShift ≤ wq.wqeCnt * 2 ^ wq.wqeShift :=
    Nat.mul_le_mul_right _ (Nat.mod_lt _ wq.wqeCnt_pos)
  rw [Nat.succ_mul] at hslot
  rw [WorkQueue.getInBuffer, hbuffer]
  show (if _ then _ else _) = _
  rw [if_neg (by dsimp only; omega)]

end

private theorem stampBlocks_spec (first : UInt8) (count offset : Nat) {len : Nat}
    (h : count = 0 ∨ offset + 64 * (count - 1) + 4 ≤ len) (bytes : Nat → UInt8) : ∃ bytes',
    Buffer.stampBlocks first count offset ⟨len, bytes⟩ = .ok ⟨len, bytes'⟩ ∧
      (∀ o, o < offset ∨ offset + 64 * count ≤ o + 60 → bytes' o = bytes o) ∧
      ∀ block < count, bytes' (offset + 64 * block) = first := by
  induction count generalizing offset bytes with
  | zero => exact ⟨bytes, rfl, fun _ _ ↦ rfl, fun _ hlt ↦ absurd hlt (Nat.not_lt_zero _)⟩
  | succ count ih =>
    obtain ⟨bytes', hstamp, hout, hin⟩ := ih (offset + 64) (by omega)
      (patch bytes offset [first, 0xFF, 0xFF, 0xFF])
    refine ⟨bytes', ?_, fun o ho ↦ ?_, fun block hblock ↦ ?_⟩
    · rw [Buffer.stampBlocks, if_neg (by dsimp only; omega)]
      exact hstamp
    · rw [hout o (by omega)]
      apply patch_of_outside
      simp only [List.length_cons, List.length_nil]
      omega
    · cases block with
      | zero =>
        rw [hout _ (by omega)]
        have hzero : 0 < [first, 0xFF, 0xFF, 0xFF].length := Nat.succ_pos 3
        exact patch_of_lt hzero
      | succ block =>
        rw [show offset + 64 * (block + 1) = offset + 64 + 64 * block by omega]
        exact hin block (Nat.lt_of_succ_lt_succ hblock)

/-- A place of an element belongs to no other one. -/
theorem div_eq_of_slot {slot width o : Nat} (hle : slot * width ≤ o)
    (hlt : o < slot * width + width) : o / width = slot := by
  apply Nat.div_eq_of_lt_le hle
  rw [Nat.succ_mul]
  exact hlt

/-- A write into an element leaves the others alone. -/
theorem patch_of_div_ne {slot width o : Nat} (hlen : data.length ≤ width) (ho : o / width ≠ slot) :
    patch bytes (slot * width) data o = bytes o := by
  apply patch_of_outside
  by_contra hcon
  exact ho (div_eq_of_slot (by omega) (by omega))

private theorem blocks_le {shift : Nat} (h : 5 ≤ shift) :
    64 * ((2 ^ shift + 63) / 64 - 1) + 4 ≤ 2 ^ shift := by
  obtain ⟨k, rfl⟩ := Nat.exists_eq_add_of_le h
  rw [Nat.pow_add]
  have := Nat.two_pow_pos k
  omega

private theorem ownerBit_first (b : Bool) :
    ownerBit (0x7F ||| (if b then 0x80 else 0)) = if b then 1 else 0 := by
  cases b <;> decide

private theorem log2_nextPowerOfTwo (sizes : WorkQueueSizes) :
    Nat.log2 (nextPowerOfTwo sizes.wqeCnt).val = Nat.log2 sizes.wqeCnt := by
  have hle := le_nextPowerOfTwo sizes.wqeCnt
  have hge : (nextPowerOfTwo sizes.wqeCnt).val ≤ 2 ^ Nat.log2 sizes.wqeCnt :=
    nextPowerOfTwo_le (Nat.le_of_eq sizes.wqeCnt_eq)
  rw [← sizes.wqeCnt_eq] at hge
  rw [Nat.le_antisymm hge hle]

private theorem invalidOwnerBit_eq (sizes : WorkQueueSizes) (index : Nat) :
    (if (index >>> Nat.log2 (nextPowerOfTwo sizes.wqeCnt).val) % 2 == 0 then 1 else 0) =
      1 - passParity sizes.wqeCnt index := by
  rw [log2_nextPowerOfTwo, Nat.shiftRight_eq_div_pow, ← sizes.wqeCnt_eq, passParity]
  rcases Nat.mod_two_eq_zero_or_one (index / sizes.wqeCnt) with h | h <;> rw [h] <;> rfl

/-- Stamping an entry leaves the others alone. -/
theorem Mapped.stampWqebb (h : wq.Mapped bytes) (hshift : 5 ≤ wq.wqeShift) (index : Nat) :
    ∃ bytes', wq.stampWqebb index = .ok (wq.withBytes bytes') ∧
      (∀ o, o / 2 ^ wq.wqeShift ≠ index % wq.wqeCnt → bytes' o = bytes o) ∧
      Stamped wq.toWorkQueueSizes bytes' index := by
  obtain ⟨len, hbuffer, hlen⟩ := h.buffer_eq
  have hslot : (index % wq.wqeCnt + 1) * 2 ^ wq.wqeShift ≤ wq.wqeCnt * 2 ^ wq.wqeShift :=
    Nat.mul_le_mul_right _ (Nat.mod_lt _ wq.wqeCnt_pos)
  rw [Nat.succ_mul] at hslot
  have hblocks := blocks_le hshift
  have hoffset := h.wqeByteOffset index
  obtain ⟨bytes', hstamp, hout, hin⟩ := stampBlocks_spec
    (0x7F ||| (if (index >>> Nat.log2 (nextPowerOfTwo wq.wqeCnt).val) % 2 == 0 then 0x80 else 0))
    ((2 ^ wq.wqeShift + 63) / 64) (index % wq.wqeCnt * 2 ^ wq.wqeShift)
    (.inr (Nat.le_trans (by omega) hlen)) bytes
  refine ⟨bytes', ?_, fun o ho ↦ hout o ?_, fun block hblock ↦ ?_⟩
  · rw [WorkQueue.stampWqebb, hoffset, WorkQueue.withBytes, hbuffer]
    show (orPanic (Buffer.stampBlocks _ _ _ _) >>= _) = _
    rw [hstamp]
    rfl
  · by_contra hcon
    exact ho (div_eq_of_slot (by omega) (by omega))
  · rw [hin block (by omega), ownerBit_first, invalidOwnerBit_eq]

/-- A request that fits into one element stamps one element. -/
theorem stampWqe_eq {mode : Overflow} (hpos : 0 < size) (hle : size ≤ 2 ^ wq.wqeShift)
    (hindex : index < 2 ^ 32) : wq.stampWqe mode index size = wq.stampWqebb index := by
  have hcount : (size + 2 ^ wq.wqeShift - 1) / 2 ^ wq.wqeShift = 1 :=
    Nat.div_eq_of_lt_le (by omega) (by omega)
  rw [stampWqe, hcount]
  show (orPanic (mode.add 32 index 0) >>= _) = _
  rw [Overflow.add_of_lt hindex]
  show (wq.stampWqebb index >>= Except.ok) = _
  cases wq.stampWqebb index <;> rfl

end

/-- A stamp stays as long as its element does. -/
theorem Stamped.congr {sizes : WorkQueueSizes} {bytes bytes' : Nat → UInt8} {index : Nat}
    (h : Stamped sizes bytes index)
    (heq : ∀ o, o / 2 ^ sizes.wqeShift = index % sizes.wqeCnt → bytes' o = bytes o) :
    Stamped sizes bytes' index := by
  intro block hblock
  rw [heq _ (div_eq_of_slot (Nat.le_add_right _ _) (Nat.add_lt_add_left hblock _))]
  exact h block hblock

/-- The stored index has the stamp of the index. -/
theorem stamped_stored {sizes : WorkQueueSizes} {bytes : Nat → UInt8}
    (hcnt : sizes.wqeCnt ≤ 2 ^ 17) (index : Nat) :
    Stamped sizes bytes (index % 2 ^ 32) ↔ Stamped sizes bytes index := by
  unfold Stamped
  rw [slot_stored (WorkQueueSizes.dvd hcnt), passParity_stored (WorkQueueSizes.two_mul_dvd hcnt)]

section

variable {wq : WorkQueue} {wqeIndex : Nat} {mode : Overflow}

private theorem checkWqeIndex_eq (wq : WorkQueue) (wqeIndex : Nat) : ∃ reported,
    wq.checkWqeIndex wqeIndex = { wq with divergenceReported := reported } := by
  unfold checkWqeIndex
  split
  · exact ⟨wq.divergenceReported, rfl⟩
  · split
    · exact ⟨wq.divergenceReported, rfl⟩
    · exact ⟨true, rfl⟩

/-- The metadata of the element at the head can always be set. -/
theorem updateMetaForHead_eq (wq : WorkQueue) (wrId : UInt64) (chainSize : Nat) :
    wq.updateMetaForHead wrId chainSize = .ok { wq with
      metadata := wq.metadata.set (wq.head % wq.wqeCnt) (some ⟨wrId, chainSize⟩)
      length_metadata := List.length_set.trans wq.length_metadata } := by
  have hlt : wq.head % wq.wqeCnt < wq.metadata.length := by
    rw [wq.length_metadata]
    exact Nat.mod_lt _ wq.wqeCnt_pos
  simp only [updateMetaForHead, setMetadata, wq.and_mask, if_pos hlt]

/-- A completion takes the metadata of its element and moves the tail by the chain. -/
theorem resolveCompletion_yields {entry : WorkQueueMeta}
    (h : wq.metadata[wqeIndex % wq.wqeCnt]? = some (some entry)) :
    Yields (wq.resolveCompletion mode wqeIndex)
      (fun out ↦ out.1 = some entry.wrId ∧ out.2.toWorkQueueSizes = wq.toWorkQueueSizes ∧
        out.2.buffer = wq.buffer ∧ out.2.head = wq.head ∧
        out.2.tail = (wq.tail + entry.chainSize) % 2 ^ 32 ∧
        out.2.metadata = wq.metadata.set (wqeIndex % wq.wqeCnt) none ∧
        (mode = .panics → wq.tail + entry.chainSize < 2 ^ 32))
      fun e ↦ e = .overflow ∧ mode = .panics ∧ 2 ^ 32 ≤ wq.tail + entry.chainSize := by
  obtain ⟨reported, hreported⟩ := wq.checkWqeIndex_eq wqeIndex
  have hlt : wqeIndex % wq.wqeCnt < wq.metadata.length := (List.getElem?_eq_some_iff.mp h).1
  rw [resolveCompletion, hreported]
  rw [wq.and_mask, h]
  rw [setMetadata, if_pos hlt]
  show Yields (mode.add 32 wq.tail entry.chainSize >>= _) _ _
  rw [yields_bind]
  refine yields_of_eq (fun tail htail ↦ ?_) fun e he ↦ ?_
  · obtain ⟨htail, hfits⟩ := Overflow.add_eq_ok.mp htail
    exact ⟨rfl, rfl, rfl, rfl, htail.symm, rfl, hfits⟩
  · exact Overflow.add_eq_error.mp he

end

end WorkQueue

end D3OS.Ibverbs
