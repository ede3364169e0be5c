import D3OS.Ibverbs.WorkQueue

/-!
# Work requests and the elements that describe them

The requests of `os/library/ibverbs/src/qp.rs` and the segments of
`os/library/ibverbs/src/provider/mlx4/queue_pair.rs`. A send element is a control segment, a
remote address or datagram segment where the transport has one, and the data segments; all
numbers in it have their highest byte first.
-/

namespace D3OS.Ibverbs

open Lib Rdma

/-- `RemoteMemoryHeader`, `qp.rs:842`. -/
structure RemoteMemoryHeader where
  remoteAddr : UInt64
  rkey : UInt32
  deriving DecidableEq, Repr

/-- `DatagramHeader`, `qp.rs:850`. -/
structure DatagramHeader where
  ah : SendWorkRequestAddressHandle
  remoteQpn : UInt32
  remoteQkey : UInt32
  deriving DecidableEq, Repr

/-- `SendOperation`, `qp.rs:827`. -/
inductive SendOperation where
  | send
  | rdmaRead (header : RemoteMemoryHeader)
  | rdmaWrite (header : RemoteMemoryHeader)
  | atomic (remoteMemHeader : RemoteMemoryHeader) (compareAdd swap : UInt64)
  | ud (header : DatagramHeader)
  deriving DecidableEq, Repr

/-- `Payload`, `qp.rs:808`. -/
inductive Payload where
  | sges (sges : List ScatterGatherEntry)
  | inlined (bytes : List UInt8)
  deriving DecidableEq, Repr

/-- `SendWorkRequest`, `qp.rs:736`. -/
structure SendWorkRequest where
  wrId : UInt64
  payload : Payload
  sendFlags : SendFlags
  op : SendOperation
  deriving DecidableEq, Repr

/-- `ReceiveWorkRequest`, `qp.rs:858`. -/
structure ReceiveWorkRequest where
  wrId : UInt64
  sges : List ScatterGatherEntry
  deriving DecidableEq, Repr

namespace SendWorkRequest

/-- The request asks for a completion. -/
def isSignaled (wr : SendWorkRequest) : Bool := contains wr.sendFlags SendFlags.signaled

end SendWorkRequest

/-- `WqeControlSegmentFlags`, `queue_pair.rs:420`. -/
abbrev WqeControlSegmentFlags := BitVec 32

namespace WqeControlSegmentFlags

def fence : WqeControlSegmentFlags := 1 <<< 6
def cqUpdate : WqeControlSegmentFlags := 3 <<< 2
def solicited : WqeControlSegmentFlags := 1 <<< 1

/-- `From<SendFlags>`, `queue_pair.rs:437`. -/
def ofSendFlags (flags : SendFlags) : WqeControlSegmentFlags :=
  (if contains flags SendFlags.fence then fence else 0) |||
    (if contains flags SendFlags.solicited then solicited else 0) |||
    (if contains flags SendFlags.signaled then cqUpdate else 0)

end WqeControlSegmentFlags

/-- The opcodes of `QueuePairOpcode` that `post_send` writes, `queue_pair.rs:363`; `todo!`
panics. -/
def SendOperation.opcode : SendOperation → Except Panic Nat
  | .send => .ok 0x0a
  | .rdmaWrite _ => .ok 0x08
  | .rdmaRead _ => .ok 0x10
  | .atomic .. => .error .assertion
  | .ud _ => .error .assertion

/-- A `WqeDataSegment` after `copy_from_sge`, `queue_pair.rs:392`. -/
def dataSegment (sge : ScatterGatherEntry) : List UInt8 :=
  toBe 4 sge.length.toNat ++ toBe 4 sge.lkey.toNat ++ toBe 8 sge.addr.toNat

/-- `WqeDataSegment::last`, `queue_pair.rs:410`. -/
def lastSegment : List UInt8 := toBe 4 0 ++ toBe 4 0x100 ++ toBe 8 0

/-- A `WqeRemoteAddressSegment` from a header, `queue_pair.rs:463`. -/
def remoteAddressSegment (header : RemoteMemoryHeader) : List UInt8 :=
  toBe 8 header.remoteAddr.toNat ++ toBe 4 header.rkey.toNat ++ toBe 4 0

/-- A `WqeDatagramSegment` from a header, `queue_pair.rs:512`. -/
def datagramSegment (header : DatagramHeader) : List UInt8 :=
  toBe 4 (header.ah.port <<< 24).toNat ++ [0, header.ah.slid &&& 0x7f] ++
    toBe 2 header.ah.dlid.toNat ++ List.replicate 24 0 ++ toBe 4 header.remoteQpn.toNat ++
    toBe 4 header.remoteQkey.toNat ++ List.replicate 8 0

/-- The segment between control and data, `queue_pair.rs:146-169`. -/
def headerSegment : QueuePairType → SendOperation → Option (List UInt8)
  | .rc, .rdmaRead header => some (remoteAddressSegment header)
  | .rc, .rdmaWrite header => some (remoteAddressSegment header)
  | .uc, .rdmaRead header => some (remoteAddressSegment header)
  | .uc, .rdmaWrite header => some (remoteAddressSegment header)
  | .ud, .ud header => some (datagramSegment header)
  | _, _ => none

namespace WorkQueue

/-- Write the segment between control and data: the queue, the offset behind the segment and the
size so far. -/
def writeHeader (sq : WorkQueue) (qpType : QueuePairType) (op : SendOperation)
    (wqeOffset wqeSize : Nat) : Except Fault (WorkQueue × Nat × Nat) :=
  match headerSegment qpType op with
  | none => .ok (sq, wqeOffset, wqeSize)
  | some data => do
    let wqe ← orPanic (unwrap (sq.getInBuffer data.length wqeOffset))
    .ok (sq.write wqe data, wqeOffset + data.length, wqeSize + data.length)

/-- The loop over the scatter list, from its last entry on, `queue_pair.rs:176-181`. -/
def writeDataSegments (mode : Overflow) :
    List ScatterGatherEntry → Nat → Nat → WorkQueue → Except Fault (WorkQueue × Nat)
  | [], _, wqeSize, sq => .ok (sq, wqeSize)
  | sge :: rest, wqeOffset, wqeSize, sq => do
    let elem ← orPanic (unwrap (sq.getInBuffer dataSegmentSize wqeOffset))
    let sq := sq.write elem (dataSegment sge)
    let wqeOffset ← orPanic (mode.sub 64 wqeOffset dataSegmentSize)
    writeDataSegments mode rest wqeOffset (wqeSize + dataSegmentSize) sq

/-- Write the payload, `queue_pair.rs:171-182`; inline bytes are not looked at. -/
def writePayload (mode : Overflow) (sq : WorkQueue) (payload : Payload)
    (wqeOffset wqeSize : Nat) : Except Fault (WorkQueue × Nat) :=
  match payload with
  | .inlined _ => .ok (sq, wqeSize)
  | .sges sges => do
    let last ← orPanic (mode.sub 64 sges.length 1)
    let behind ← orPanic (mode.mul 64 last dataSegmentSize)
    let wqeOffset ← orPanic (mode.add 64 wqeOffset behind)
    writeDataSegments mode sges.reverse wqeOffset wqeSize sq

/-- Write the element of a request at the head, `queue_pair.rs:137-203`: the queue and the size
of the element. -/
def writeWqe (mode : Overflow) (sq : WorkQueue) (qpType : QueuePairType) (wr : SendWorkRequest) :
    Except Fault (WorkQueue × Nat) := do
  let controlSegmentOffset := sq.wqeByteOffset sq.head
  let ctrl ← orPanic (unwrap (sq.getInBuffer controlSegmentSize controlSegmentOffset))
  let flags := WqeControlSegmentFlags.ofSendFlags wr.sendFlags
  let sq := sq.write (ctrl + 4) (toBe 4 0 ++ (toBe 4 flags.toNat ++ toBe 4 0))
  let (sq, wqeOffset, wqeSize) ← sq.writeHeader qpType wr.op
    (controlSegmentOffset + controlSegmentSize) controlSegmentSize
  let (sq, wqeSize) ← sq.writePayload mode wr.payload wqeOffset wqeSize
  let ctrl ← orPanic (unwrap (sq.getInBuffer controlSegmentSize controlSegmentOffset))
  let ds ← orPanic (toU32 (wqeSize / 16))
  let sq := sq.write (ctrl + 4) (toBe 4 ds)
  let opcode ← orPanic wr.op.opcode
  let owner := if sq.head &&& sq.wqeCnt = 0 then 0 else 2 ^ 31
  .ok (sq.write ctrl (toBe 4 (owner ||| opcode)), wqeSize)

end WorkQueue

@[simp] private theorem length_dataSegment (sge : ScatterGatherEntry) :
    (dataSegment sge).length = dataSegmentSize := by
  rfl

/-- The size of the segment. -/
@[simp] theorem length_remoteAddressSegment (header : RemoteMemoryHeader) :
    (remoteAddressSegment header).length = remoteAddressSegmentSize := by
  rfl

/-- The size of the segment. -/
@[simp] theorem length_datagramSegment (header : DatagramHeader) :
    (datagramSegment header).length = datagramSegmentSize := by
  rfl

/-- The bytes of the segment between control and data. -/
def headerBytes (qpType : QueuePairType) (op : SendOperation) : List UInt8 :=
  (headerSegment qpType op).getD []

/-- The bytes of the data segments. -/
def payloadBytes : Payload → List UInt8
  | .sges sges => sges.flatMap dataSegment
  | .inlined _ => []

/-- The bytes of an element behind its owner and its size. -/
def bodyBytes (qpType : QueuePairType) (wr : SendWorkRequest) : List UInt8 :=
  toBe 4 (WqeControlSegmentFlags.ofSendFlags wr.sendFlags).toNat ++ toBe 4 0 ++
    headerBytes qpType wr.op ++ payloadBytes wr.payload

/-- The bytes of the element of a request with the given owner bit and opcode. -/
def wqeBytes (qpType : QueuePairType) (wr : SendWorkRequest) (ownerOpcode : Nat) : List UInt8 :=
  toBe 4 ownerOpcode ++ (toBe 4 ((8 + (bodyBytes qpType wr).length) / 16) ++ bodyBytes qpType wr)

section

variable {mode : Overflow} {sq : WorkQueue} {bytes : Nat → UInt8} {wqeOffset wqeSize : Nat}
  {qpType : QueuePairType} {op : SendOperation} {payload : Payload} {wr : SendWorkRequest}

/-- The size of a gather list. -/
theorem length_flatMap_dataSegment (sges : List ScatterGatherEntry) :
    (sges.flatMap dataSegment).length = sges.length * dataSegmentSize := by
  induction sges with
  | nil => rfl
  | cons sge sges ih =>
    rw [List.flatMap_cons, List.length_append, length_dataSegment, ih, List.length_cons,
      Nat.succ_mul, Nat.add_comm]

section

variable (h : sq.Mapped bytes) (slot : Nat) (hbase : dataSegmentSize ≤ wqeOffset)
include h hbase

private theorem writeDataSegments_eq {rest : List ScatterGatherEntry}
    (hfits : wqeOffset + rest.length * dataSegmentSize ≤
      slot % sq.wqeCnt * 2 ^ sq.wqeShift + 2 ^ sq.wqeShift) {start : Nat}
    (hstart : rest = [] ∨ start + dataSegmentSize = wqeOffset + rest.length * dataSegmentSize) :
    sq.writeDataSegments mode rest start wqeSize = .ok
      (sq.withBytes (patch bytes wqeOffset (rest.reverse.flatMap dataSegment)),
        wqeSize + rest.length * dataSegmentSize) := by
  induction rest generalizing sq bytes start wqeSize with
  | nil =>
    rw [List.reverse_nil, List.flatMap_nil, patch_nil, h.withBytes_self, List.length_nil,
      Nat.zero_mul]
    rfl
  | cons sge rest ih =>
    rw [List.length_cons, Nat.succ_mul] at hfits hstart
    have hstart : start = wqeOffset + rest.length * dataSegmentSize := by
      rcases hstart with hnil | hstart
      · cases hnil
      · omega
    have hplace : sq.getInBuffer dataSegmentSize start = some start :=
      h.getInBuffer slot (by omega)
    have hsub : mode.sub 64 start dataSegmentSize = .ok (start - dataSegmentSize) :=
      Overflow.sub_of_le (by omega)
    have hlast : start - dataSegmentSize + dataSegmentSize =
        wqeOffset + rest.length * dataSegmentSize := by omega
    rw [WorkQueue.writeDataSegments, hplace]
    show (orPanic (mode.sub 64 start dataSegmentSize) >>= _) = _
    rw [hsub, h.write]
    show WorkQueue.writeDataSegments mode rest (start - dataSegmentSize) _ _ = _
    rw [ih h.withBytes (by simp only [WorkQueue.withBytes_sizes]; omega) (.inr hlast),
      WorkQueue.withBytes_withBytes, List.reverse_cons, List.flatMap_append, List.flatMap_singleton,
      ← patch_prepend, length_flatMap_dataSegment, List.length_reverse, ← hstart, List.length_cons,
      Nat.succ_mul]
    congr 2
    omega

private theorem writePayload_eq (hfits : wqeOffset + (payloadBytes payload).length ≤
      slot % sq.wqeCnt * 2 ^ sq.wqeShift + 2 ^ sq.wqeShift)
    (hmode : mode = .panics → payload ≠ .sges []) :
    sq.writePayload mode payload wqeOffset wqeSize = .ok
      (sq.withBytes (patch bytes wqeOffset (payloadBytes payload)),
        wqeSize + (payloadBytes payload).length) := by
  cases payload with
  | inlined data =>
    rw [payloadBytes, patch_nil, h.withBytes_self]
    rfl
  | sges sges =>
    rw [payloadBytes] at hfits ⊢
    have hend := h.slot_le slot
    rw [length_flatMap_dataSegment] at hfits ⊢
    cases sges with
    | nil =>
      -- without overflow checks the offset wraps and is not used
      have hwraps : mode = .wraps := by
        cases mode with
        | panics => exact absurd rfl (hmode rfl)
        | wraps => rfl
      subst hwraps
      obtain ⟨last, hlast⟩ := Overflow.exists_sub_wraps 64 0 1
      obtain ⟨behind, hbehind⟩ := Overflow.exists_mul_wraps 64 last dataSegmentSize
      obtain ⟨offset, hoffset⟩ := Overflow.exists_add_wraps 64 wqeOffset behind
      rw [List.flatMap_nil, patch_nil, h.withBytes_self, WorkQueue.writePayload,
        List.length_nil, hlast]
      show (orPanic (Overflow.mul .wraps 64 last dataSegmentSize) >>= _) = _
      rw [hbehind]
      show (orPanic (Overflow.add .wraps 64 wqeOffset behind) >>= _) = _
      rw [hoffset]
      rfl
    | cons sge rest =>
      rw [List.length_cons, Nat.succ_mul] at hfits
      have hsub : mode.sub 64 (sge :: rest).length 1 = .ok rest.length :=
        Overflow.sub_of_le (Nat.succ_le_succ (Nat.zero_le _))
      have hmul : mode.mul 64 rest.length dataSegmentSize = .ok (rest.length * dataSegmentSize) :=
        Overflow.mul_of_lt (by omega)
      have hadd : mode.add 64 wqeOffset (rest.length * dataSegmentSize) =
          .ok (wqeOffset + rest.length * dataSegmentSize) := Overflow.add_of_lt (by omega)
      show (orPanic (mode.mul 64 rest.length dataSegmentSize) >>= _) = _
      rw [hmul]
      show (orPanic (mode.add 64 wqeOffset (rest.length * dataSegmentSize)) >>= _) = _
      rw [hadd]
      show WorkQueue.writeDataSegments mode _ _ _ _ = _
      rw [writeDataSegments_eq h slot hbase, List.reverse_reverse, List.length_reverse]
      · rw [List.length_reverse, List.length_cons, Nat.succ_mul]
        exact hfits
      · right
        rw [List.length_reverse, List.length_cons, Nat.succ_mul]
        omega

end

private theorem writeHeader_eq (h : sq.Mapped bytes) (slot : Nat)
    (hfits : wqeOffset + (headerBytes qpType op).length ≤
      slot % sq.wqeCnt * 2 ^ sq.wqeShift + 2 ^ sq.wqeShift) :
    sq.writeHeader qpType op wqeOffset wqeSize = .ok
      (sq.withBytes (patch bytes wqeOffset (headerBytes qpType op)),
        wqeOffset + (headerBytes qpType op).length, wqeSize + (headerBytes qpType op).length) := by
  unfold headerBytes at *
  unfold WorkQueue.writeHeader
  split
  next hnone =>
    rw [hnone, Option.getD_none, patch_nil, h.withBytes_self]
    rfl
  next data hsome =>
    rw [hsome, Option.getD_some] at hfits ⊢
    rw [h.getInBuffer slot hfits, ← h.write]
    rfl

/-- The size of a work request. -/
theorem length_wqeBytes (qpType : QueuePairType) (wr : SendWorkRequest) (ownerOpcode : Nat) :
    (wqeBytes qpType wr ownerOpcode).length = controlSegmentSize +
      (headerBytes qpType wr.op).length + (payloadBytes wr.payload).length := by
  simp only [wqeBytes, bodyBytes, List.length_append, length_toBe, controlSegmentSize]
  omega

/-- The owner bit and the opcode of an element at the head. -/
def WorkQueue.ownerOpcode (sq : WorkQueue) (opcode : Nat) : Nat :=
  (if sq.head &&& sq.wqeCnt = 0 then 0 else 2 ^ 31) ||| opcode

private theorem patches_eq (bytes : Nat → UInt8) (offset flags ds ownerOpcode : Nat)
    (header payload : List UInt8) :
    patch (patch (patch (patch (patch bytes (offset + 4) (toBe 4 0 ++ (toBe 4 flags ++ toBe 4 0)))
      (offset + 16) header) (offset + 16 + header.length) payload) (offset + 4) (toBe 4 ds))
      offset (toBe 4 ownerOpcode) =
    patch bytes offset (toBe 4 ownerOpcode ++
      (toBe 4 ds ++ (toBe 4 flags ++ toBe 4 0 ++ header ++ payload))) := by
  have hlen : (toBe 4 0 ++ (toBe 4 flags ++ toBe 4 0)).length = 12 := by
    simp only [List.length_append, length_toBe]
  have hbody := patch_append bytes (offset + 4) (toBe 4 0 ++ (toBe 4 flags ++ toBe 4 0)) header
  have hall := patch_append bytes (offset + 4)
    (toBe 4 0 ++ (toBe 4 flags ++ toBe 4 0) ++ header) payload
  rw [hlen] at hbody
  rw [List.length_append, hlen, ← Nat.add_assoc] at hall
  rw [hbody, hall, List.append_assoc (toBe 4 0), List.append_assoc (toBe 4 0),
    patch_overwrite _ _ _ ((length_toBe 4 ds).trans (length_toBe 4 0).symm)]
  have hfront := patch_prepend bytes offset (toBe 4 ownerOpcode)
    (toBe 4 ds ++ (toBe 4 flags ++ toBe 4 0 ++ header ++ payload))
  exact hfront

/-- The element of a request that fits is written as a whole. -/
theorem WorkQueue.Mapped.writeWqe (h : sq.Mapped bytes)
    (hfits : controlSegmentSize + (headerBytes qpType wr.op).length +
      (payloadBytes wr.payload).length ≤ 2 ^ sq.wqeShift)
    (hmode : mode = .panics → wr.payload ≠ .sges []) {opcode : Nat}
    (hopcode : wr.op.opcode = .ok opcode) :
    sq.writeWqe mode qpType wr = .ok
      (sq.withBytes (patch bytes (sq.head % sq.wqeCnt * 2 ^ sq.wqeShift)
        (wqeBytes qpType wr (sq.ownerOpcode opcode))),
        (wqeBytes qpType wr (sq.ownerOpcode opcode)).length) := by
  have hoffset := h.wqeByteOffset sq.head
  rw [controlSegmentSize] at hfits
  have hplace : ∀ bytes', orPanic (unwrap ((sq.withBytes bytes').getInBuffer controlSegmentSize
      (sq.head % sq.wqeCnt * 2 ^ sq.wqeShift))) =
      .ok (sq.head % sq.wqeCnt * 2 ^ sq.wqeShift) := fun bytes' ↦ by
    have hmapped : (sq.withBytes bytes').Mapped bytes' := h.withBytes
    rw [hmapped.getInBuffer sq.head]
    · rfl
    · simp only [WorkQueue.withBytes_sizes, controlSegmentSize]
      omega
  have hhead := hplace bytes
  rw [h.withBytes_self] at hhead
  rw [WorkQueue.writeWqe, hoffset]
  refine bind_eq_ok.mpr ⟨_, hhead, ?_⟩
  dsimp only
  rw [h.write]
  refine bind_eq_ok.mpr ⟨_, writeHeader_eq h.withBytes sq.head ?_, ?_⟩
  · simp only [WorkQueue.withBytes_sizes, controlSegmentSize]
    omega
  refine bind_eq_ok.mpr ⟨_, writePayload_eq h.withBytes.withBytes sq.head ?_ ?_ hmode, ?_⟩
  · simp only [controlSegmentSize, dataSegmentSize]
    omega
  · simp only [WorkQueue.withBytes_sizes, controlSegmentSize]
    omega
  simp only [WorkQueue.withBytes_withBytes]
  refine bind_eq_ok.mpr ⟨_, hplace _, ?_⟩
  have hwidth : 2 ^ sq.wqeShift ≤ 2 ^ 10 := Nat.pow_le_pow_right (by decide) h.wqeShift_le
  have hds : orPanic (toU32 ((controlSegmentSize + (headerBytes qpType wr.op).length +
      (payloadBytes wr.payload).length) / 16)) = .ok ((8 + (bodyBytes qpType wr).length) / 16) := by
    rw [orPanic_eq_ok, toU32_eq_ok]
    simp only [bodyBytes, List.length_append, length_toBe, controlSegmentSize]
    omega
  refine bind_eq_ok.mpr ⟨_, hds, ?_⟩
  refine bind_eq_ok.mpr ⟨opcode, orPanic_eq_ok.mpr hopcode, ?_⟩
  rw [h.withBytes.write, WorkQueue.withBytes_withBytes, h.withBytes.write,
    WorkQueue.withBytes_withBytes, length_wqeBytes]
  simp only [controlSegmentSize]
  rw [patches_eq]
  rfl

private theorem writeDataSegments_yields (rest : List ScatterGatherEntry) (start : Nat) :
    Yields (sq.writeDataSegments mode rest start wqeSize) (fun _ ↦ True) fun e ↦ ¬ e.IsErr := by
  induction rest generalizing sq start wqeSize with
  | nil => trivial
  | cons sge rest ih =>
    simp only [WorkQueue.writeDataSegments, yields_bind, yields_orPanic, Fault.not_isErr_panic,
      not_false_eq_true, implies_true, and_true]
    exact fun _ _ _ _ ↦ ih _

private theorem writePayload_yields :
    Yields (sq.writePayload mode payload wqeOffset wqeSize)
      (fun _ ↦ mode = .panics → payload ≠ .sges []) fun e ↦ ¬ e.IsErr := by
  unfold WorkQueue.writePayload
  split
  next => exact fun _ ↦ nofun
  next sges =>
    simp only [yields_bind, yields_orPanic, Fault.not_isErr_panic, not_false_eq_true, implies_true,
      and_true]
    rintro last hlast _ - _ -
    refine (writeDataSegments_yields _ _).mono (fun _ _ hmode hnil ↦ ?_) fun _ ↦ id
    cases hnil
    rw [hmode] at hlast
    cases hlast

private theorem writeHeader_yields :
    Yields (sq.writeHeader qpType op wqeOffset wqeSize) (fun _ ↦ True) fun e ↦ ¬ e.IsErr := by
  unfold WorkQueue.writeHeader
  split
  · trivial
  · simp only [yields_bind, yields_orPanic, Fault.not_isErr_panic, not_false_eq_true, implies_true,
      and_true, yields_ok]

/-- Writing an element succeeds or panics; it panics on the operations that are not implemented
and, with overflow checks, on an empty scatter list. -/
theorem writeWqe_yields : Yields (sq.writeWqe mode qpType wr)
    (fun _ ↦ (∃ opcode, wr.op.opcode = .ok opcode) ∧ (mode = .panics → wr.payload ≠ .sges []))
    fun e ↦ ¬ e.IsErr := by
  unfold WorkQueue.writeWqe
  simp only [yields_bind, yields_orPanic, Fault.not_isErr_panic, not_false_eq_true, implies_true,
    and_true, yields_ok]
  intro ctrl _
  refine writeHeader_yields.mono (fun header _ ↦ ?_) fun _ ↦ id
  refine writePayload_yields.mono (fun payload hpayload ↦ ?_) fun _ ↦ id
  exact fun _ _ _ _ opcode hopcode ↦ ⟨⟨opcode, hopcode⟩, hpayload⟩

end

end D3OS.Ibverbs
