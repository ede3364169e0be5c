import D3OS.Ibverbs.Completions

/-!
# Reading elements of the send queue

A reader of send elements, after the segments of
`os/library/ibverbs/src/provider/mlx4/queue_pair.rs`: the control segment tells the operation,
the flags and the size, a remote address segment follows for RDMA on a connection, a datagram
segment on a datagram pair, and the rest are data segments. There is no segment for inline bytes.
-/

namespace D3OS.Ibverbs

open Lib Rdma

/-- What an element says, or what a request asks for. -/
structure Described where
  op : SendOperation
  signaled : Bool
  solicited : Bool
  fence : Bool
  sges : List ScatterGatherEntry
  inlined : List UInt8
  ds : Nat
  deriving DecidableEq, Repr

namespace Payload

/-- The scatter list. -/
def sgeList : Payload → List ScatterGatherEntry
  | .sges entries => entries
  | .inlined _ => []

/-- The inline bytes. -/
def inlineBytes : Payload → List UInt8
  | .sges _ => []
  | .inlined data => data

end Payload

/-- What the element of a request has to say; the size is the number of units that are written. -/
def SendWorkRequest.described (qpType : QueuePairType) (wr : SendWorkRequest) : Described where
  op := wr.op
  signaled := contains wr.sendFlags SendFlags.signaled
  solicited := contains wr.sendFlags SendFlags.solicited
  fence := contains wr.sendFlags SendFlags.fence
  sges := wr.payload.sgeList
  inlined := wr.payload.inlineBytes
  ds := (wqeBytes qpType wr 0).length / 16

/-- Read a `WqeDataSegment`. -/
def decodeSge (data : List UInt8) : ScatterGatherEntry × List UInt8 :=
  let (byteCount, data) := takeBe 4 data
  let (lkey, data) := takeBe 4 data
  let (addr, data) := takeBe 8 data
  (⟨.ofNat addr, .ofNat byteCount, .ofNat lkey⟩, data)

/-- Read data segments. -/
def decodeSges : Nat → List UInt8 → List ScatterGatherEntry
  | 0, _ => []
  | n + 1, data =>
    let (sge, data) := decodeSge data
    sge :: decodeSges n data

/-- Read a `WqeRemoteAddressSegment`. -/
def decodeRemoteAddress (data : List UInt8) : RemoteMemoryHeader × List UInt8 :=
  let (va, data) := takeBe 8 data
  let (key, data) := takeBe 4 data
  (⟨.ofNat va, .ofNat key⟩, data.drop 4)

/-- Read a `WqeDatagramSegment`. -/
def decodeDatagram (data : List UInt8) : DatagramHeader × List UInt8 :=
  let (portPd, data) := takeBe 4 data
  let (slid, data) := takeBe 2 data
  let (dlid, data) := takeBe 2 data
  let (dstQpn, data) := takeBe 4 (data.drop 24)
  let (qkey, data) := takeBe 4 data
  (⟨⟨.ofNat (portPd / 2 ^ 24), .ofNat dlid, .ofNat slid⟩, .ofNat dstQpn, .ofNat qkey⟩, data.drop 8)

/-- The operation behind an opcode, with the segment that belongs to it. -/
def decodeOp (qpType : QueuePairType) (opcode : Nat) (data : List UInt8) :
    Option (SendOperation × List UInt8) :=
  if qpType = .ud then
    if opcode = 0x0a then
      let (header, data) := decodeDatagram data
      some (.ud header, data)
    else none
  else if opcode = 0x0a then some (.send, data)
  else
    let (header, data) := decodeRemoteAddress data
    if opcode = 0x08 then some (.rdmaWrite header, data)
    else if opcode = 0x10 then some (.rdmaRead header, data)
    else none

/-- Read a send element. -/
def decode (qpType : QueuePairType) (wqe : List UInt8) : Option Described :=
  let (ownerOpcode, data) := takeBe 4 wqe
  let (ds, data) := takeBe 4 data
  let (flags, data) := takeBe 4 data
  if wqe.length < 16 * ds then none
  else
    (decodeOp qpType (ownerOpcode % 2 ^ 31) (data.drop 4)).map fun (op, data) ↦ {
      op := op
      signaled := contains (BitVec.ofNat 32 flags) WqeControlSegmentFlags.cqUpdate
      solicited := contains (BitVec.ofNat 32 flags) WqeControlSegmentFlags.solicited
      fence := contains (BitVec.ofNat 32 flags) WqeControlSegmentFlags.fence
      sges := decodeSges ((16 * ds - (wqe.length - data.length)) / dataSegmentSize) data
      inlined := []
      ds := ds }

section

variable {qpType : QueuePairType} {op : SendOperation} {wr : SendWorkRequest} {opcode : Nat}

private theorem decodeSge_append (sge : ScatterGatherEntry) (rest : List UInt8) :
    decodeSge (dataSegment sge ++ rest) = (sge, rest) := by
  unfold decodeSge dataSegment
  simp only [List.append_assoc, takeBe_uint32, takeBe_uint64, UInt32.ofNat_toNat,
    UInt64.ofNat_toNat]

private theorem decodeSges_append (sges : List ScatterGatherEntry) (rest : List UInt8) :
    decodeSges sges.length (sges.flatMap dataSegment ++ rest) = sges := by
  induction sges with
  | nil => rfl
  | cons sge sges ih =>
    rw [List.flatMap_cons, List.append_assoc, List.length_cons, decodeSges, decodeSge_append]
    exact congrArg (sge :: ·) ih

private theorem decodeRemoteAddress_append (header : RemoteMemoryHeader) (rest : List UInt8) :
    decodeRemoteAddress (remoteAddressSegment header ++ rest) = (header, rest) := by
  unfold decodeRemoteAddress remoteAddressSegment
  simp only [List.append_assoc, takeBe_uint32, takeBe_uint64, UInt32.ofNat_toNat,
    UInt64.ofNat_toNat, List.drop_left' (length_toBe 4 0)]

private theorem decodeOp_append (htype : qpType ≠ .ud) (hopcode : op.opcode = .ok opcode)
    (rest : List UInt8) :
    decodeOp qpType opcode (headerBytes qpType op ++ rest) = some (op, rest) := by
  rw [decodeOp, if_neg htype]
  cases op with
  | send =>
    cases hopcode
    cases qpType <;> rfl
  | rdmaRead header | rdmaWrite header =>
    cases hopcode
    cases qpType with
    | ud => exact absurd rfl htype
    | _ =>
      rw [headerBytes, headerSegment, Option.getD_some, decodeRemoteAddress_append]
      rfl
  | atomic remoteMemHeader compareAdd swap | ud header => cases hopcode

private theorem ownerWord_mod (hopcode : op.opcode = .ok opcode) (cnt index : Nat) :
    ownerWord cnt index opcode < 256 ^ 4 ∧ ownerWord cnt index opcode % 2 ^ 31 = opcode := by
  unfold ownerWord
  cases op <;> cases hopcode <;> split <;> decide

private theorem contains_ofSendFlags (flags : SendFlags) :
    contains (WqeControlSegmentFlags.ofSendFlags flags) WqeControlSegmentFlags.cqUpdate =
        contains flags SendFlags.signaled ∧
      contains (WqeControlSegmentFlags.ofSendFlags flags) WqeControlSegmentFlags.solicited =
        contains flags SendFlags.solicited ∧
      contains (WqeControlSegmentFlags.ofSendFlags flags) WqeControlSegmentFlags.fence =
        contains flags SendFlags.fence := by
  unfold WqeControlSegmentFlags.ofSendFlags
  cases contains flags SendFlags.fence <;> cases contains flags SendFlags.solicited <;>
    cases contains flags SendFlags.signaled <;> decide

private theorem payloadBytes_eq (payload : Payload) :
    payloadBytes payload = payload.sgeList.flatMap dataSegment := by
  cases payload <;> rfl

private theorem length_headerBytes (htype : qpType ≠ .ud) (op : SendOperation) :
    (headerBytes qpType op).length = 0 ∨ (headerBytes qpType op).length = 16 := by
  cases qpType with
  | ud => exact absurd rfl htype
  | _ => cases op <;> simp [headerBytes, headerSegment, remoteAddressSegmentSize]

private theorem decode_wqeBytes (htype : qpType ≠ .ud) (hopcode : wr.op.opcode = .ok opcode)
    (cnt index : Nat) (hlen : (wqeBytes qpType wr 0).length < 2 ^ 32) (rest : List UInt8) :
    decode qpType (wqeBytes qpType wr (ownerWord cnt index opcode) ++ rest) =
      some { wr.described qpType with inlined := [] } := by
  obtain ⟨howner, hmod⟩ := ownerWord_mod hopcode cnt index
  obtain ⟨hsignaled, hsolicited, hfence⟩ := contains_ofSendFlags wr.sendFlags
  have hflags : (WqeControlSegmentFlags.ofSendFlags wr.sendFlags).toNat < 256 ^ 4 :=
    (WqeControlSegmentFlags.ofSendFlags wr.sendFlags).isLt
  have hbody : 8 + (bodyBytes qpType wr).length = (wqeBytes qpType wr 0).length := by
    simp only [wqeBytes, List.length_append, length_toBe]
    omega
  have htotal : (wqeBytes qpType wr 0).length = 16 + (headerBytes qpType wr.op).length +
      wr.payload.sgeList.length * 16 := by
    rw [length_wqeBytes, payloadBytes_eq, length_flatMap_dataSegment, controlSegmentSize,
      dataSegmentSize]
  have hheader := length_headerBytes htype wr.op
  have hsame : (wqeBytes qpType wr (ownerWord cnt index opcode)).length =
      (wqeBytes qpType wr 0).length := by
    rw [length_wqeBytes, length_wqeBytes]
  have htake : takeBe 4 (wqeBytes qpType wr (ownerWord cnt index opcode) ++ rest) =
      (ownerWord cnt index opcode, toBe 4 ((wqeBytes qpType wr 0).length / 16) ++
        (toBe 4 (WqeControlSegmentFlags.ofSendFlags wr.sendFlags).toNat ++ (toBe 4 0 ++
          (headerBytes qpType wr.op ++ (payloadBytes wr.payload ++ rest))))) := by
    rw [wqeBytes, hbody, List.append_assoc, takeBe_append howner]
    simp only [bodyBytes, List.append_assoc]
  have hcount : (16 * ((wqeBytes qpType wr 0).length / 16) -
      ((wqeBytes qpType wr (ownerWord cnt index opcode) ++ rest).length -
        (payloadBytes wr.payload ++ rest).length)) / dataSegmentSize =
      wr.payload.sgeList.length := by
    rw [List.length_append, List.length_append, hsame, payloadBytes_eq,
      length_flatMap_dataSegment, dataSegmentSize]
    omega
  rw [decode, htake]
  dsimp only
  rw [takeBe_append (by omega), takeBe_append hflags, if_neg (by rw [List.length_append]; omega),
    hmod, List.drop_left' (length_toBe 4 0), decodeOp_append htype hopcode, Option.map_some]
  rw [hcount, payloadBytes_eq, decodeSges_append, BitVec.ofNat_toNat, BitVec.setWidth_eq,
    hsignaled, hsolicited, hfence]
  rfl

private theorem inlined_of_decode {wqe : List UInt8} {described : Described}
    (h : decode qpType wqe = some described) : described.inlined = [] := by
  unfold decode at h
  dsimp only at h
  split at h
  · cases h
  · obtain ⟨-, -, rfl⟩ := Option.map_eq_some_iff.mp h
    rfl

private theorem op_of_decode_ud {wqe : List UInt8} {described : Described}
    (h : decode .ud wqe = some described) : ∃ header, described.op = .ud header := by
  unfold decode at h
  dsimp only at h
  split at h
  · cases h
  · obtain ⟨⟨op, data⟩, hop, rfl⟩ := Option.map_eq_some_iff.mp h
    rw [decodeOp, if_pos rfl] at hop
    split at hop
    · cases hop
      exact ⟨_, rfl⟩
    · cases hop

private theorem decode_eq_described_iff (hopcode : wr.op.opcode = .ok opcode) (cnt index : Nat)
    (hlen : (wqeBytes qpType wr (ownerWord cnt index opcode)).length < 2 ^ 32)
    (rest : List UInt8) :
    decode qpType (wqeBytes qpType wr (ownerWord cnt index opcode) ++ rest) =
        some (wr.described qpType) ↔
      qpType ≠ .ud ∧ wr.payload.inlineBytes = [] := by
  constructor
  · intro h
    refine ⟨fun htype ↦ ?_, inlined_of_decode h⟩
    subst htype
    obtain ⟨header, hheader⟩ := op_of_decode_ud h
    rw [show wr.op = .ud header from hheader] at hopcode
    cases hopcode
  · rintro ⟨htype, hinline⟩
    rw [decode_wqeBytes htype hopcode cnt index hlen, SendWorkRequest.described, hinline]

end

/-- The bytes of the element at an index. -/
def WorkQueue.elementAt (wq : WorkQueue) (index : Nat) : Option (List UInt8) :=
  wq.buffer.map fun buffer ↦
    slice buffer.bytes (index % wq.wqeCnt * 2 ^ wq.wqeShift) (2 ^ wq.wqeShift)

namespace QueuePair

/-- The elements from an index on say what the requests ask for. -/
def Decodes (qp : QueuePair) (index : Nat) (posted : List SendWorkRequest) : Prop :=
  ∀ j wr, posted[j]? = some wr →
    (qp.sq.elementAt (index + j)).bind (decode qp.qpType) = some (wr.described qp.qpType)

/-- A call of `post_send` returns, and every element that it has written says what its request
asks for. -/
def Encodes (mode : Overflow) (qp : QueuePair) (wrs : List SendWorkRequest) : Prop :=
  match QueuePair.postSend mode wrs qp with
  | .ok _ qp' => qp'.Decodes qp.sq.head wrs
  | .error (.err _) qp' =>
    qp'.Decodes qp.sq.head (System.postedBetween qp.sq.head qp'.sq.head wrs)
  | .error (.panic _) _ => False

end QueuePair

section

variable {sizes : WorkQueueSizes} {qpType : QueuePairType} {bytes bytes' : Nat → UInt8}
  {first index spare tail : Nat} {posted : List SendWorkRequest} {wr : SendWorkRequest}
  {opcode : Nat}

/-- The elements from an index on are those of the requests. -/
private def Written (sizes : WorkQueueSizes) (qpType : QueuePairType) (bytes : Nat → UInt8)
    (first : Nat) (posted : List SendWorkRequest) : Prop :=
  ∀ j wr, posted[j]? = some wr → ∃ opcode rest, wr.op.opcode = .ok opcode ∧
    slice bytes ((first + j) % sizes.wqeCnt * 2 ^ sizes.wqeShift) (2 ^ sizes.wqeShift) =
      wqeBytes qpType wr (ownerWord sizes.wqeCnt (first + j) opcode) ++ rest

private theorem Written.posts (h : Written sizes qpType bytes first posted) (hpos : 0 < spare)
    (hsum : sizes.maxPost + spare = sizes.wqeCnt) (hfirst : tail ≤ first)
    (hindex : index = first + posted.length) (hroom : index + 2 ≤ tail + sizes.maxPost)
    (hopcode : wr.op.opcode = .ok opcode)
    (hposts : Posts sizes spare index
      (wqeBytes qpType wr (ownerWord sizes.wqeCnt index opcode)) bytes bytes') :
    Written sizes qpType bytes' first (posted ++ [wr]) := by
  intro j wr' hget
  rcases getElem?_concat_eq_some.mp hget with hget | ⟨rfl, rfl⟩
  · have hlt := (List.getElem?_eq_some_iff.mp hget).1
    obtain ⟨opcode', rest, hopcode', hslice⟩ := h j wr' hget
    refine ⟨opcode', rest, hopcode', ?_⟩
    rw [← hslice]
    refine slice_congr fun o hle hlt' ↦ ?_
    exact hposts.keeps hpos hsum hroom (Nat.le_trans hfirst (Nat.le_add_right _ _)) (by omega) o
      (WorkQueue.div_eq_of_slot hle hlt')
  · have hadd := slice_add bytes' (index % sizes.wqeCnt * 2 ^ sizes.wqeShift)
      (wqeBytes qpType wr (ownerWord sizes.wqeCnt index opcode)).length
      (2 ^ sizes.wqeShift - (wqeBytes qpType wr (ownerWord sizes.wqeCnt index opcode)).length)
    rw [hposts.element, Nat.add_sub_cancel' hposts.fits, hindex] at hadd
    exact ⟨opcode, _, hopcode, hadd⟩

private theorem Written.decodes_iff (qp : QueuePair) {head : Nat}
    (h : Written qp.sq.toWorkQueueSizes qp.qpType bytes first posted)
    (hmapped : qp.sq.Mapped bytes) (hhead : head = first % 2 ^ 32) :
    qp.Decodes head posted ↔
      ∀ wr ∈ posted, qp.qpType ≠ .ud ∧ wr.payload.inlineBytes = [] := by
  have hiff : ∀ j wr, posted[j]? = some wr →
      ((qp.sq.elementAt (head + j)).bind (decode qp.qpType) = some (wr.described qp.qpType) ↔
        qp.qpType ≠ .ud ∧ wr.payload.inlineBytes = []) := by
    intro j wr hget
    obtain ⟨opcode, rest, hopcode, hslice⟩ := h j wr hget
    obtain ⟨len, hbuffer, -⟩ := hmapped.buffer_eq
    have hslot : (head + j) % qp.sq.wqeCnt = (first + j) % qp.sq.wqeCnt := by
      rw [hhead, Nat.add_mod, slot_stored (WorkQueueSizes.dvd hmapped.wqeCnt_le), ← Nat.add_mod]
    have hlen : (wqeBytes qp.qpType wr (ownerWord qp.sq.wqeCnt (first + j) opcode)).length <
        2 ^ 32 := by
      have hsum := congrArg List.length hslice
      rw [length_slice, List.length_append] at hsum
      have hle : 2 ^ qp.sq.wqeShift ≤ 2 ^ 10 :=
        Nat.pow_le_pow_right (by decide) hmapped.wqeShift_le
      omega
    rw [WorkQueue.elementAt, hbuffer, Option.map_some, Option.bind_some]
    rw [hslot, hslice]
    exact decode_eq_described_iff hopcode _ _ hlen rest
  constructor
  · intro hdecodes wr hmem
    obtain ⟨j, hj⟩ := List.mem_iff_getElem?.mp hmem
    exact (hiff j wr hj).mp (hdecodes j wr hj)
  · intro hall j wr hget
    exact (hiff j wr hget).mpr (hall wr (List.mem_of_getElem? hget))

variable {mode : Overflow} {s : System} {wrs : List SendWorkRequest}

/-- What a call has done that did not panic. -/
private structure Wrote (mode : Overflow) (s : System) (wrs : List SendWorkRequest) (spare : Nat)
    (qp' : QueuePair) : Prop where
  posted : System.postedBetween s.qp.sq.head qp'.sq.head wrs = s.qp.reaching wrs
  postable : AllPostable mode spare s.sent.length (s.qp.reaching wrs)
  rings : s.qp.Rings wrs
  decodes_iff : qp'.Decodes s.qp.sq.head (s.qp.reaching wrs) ↔
    ∀ wr ∈ s.qp.reaching wrs, s.qp.qpType ≠ .ud ∧ wr.payload.inlineBytes = []

/-- The requests of the call so far are in place. -/
private def InPlace (s : System) (bytes' : Nat → UInt8) (sent' : List SendWorkRequest) : Prop :=
  ∃ posted, sent' = s.sent ++ posted ∧
    Written s.qp.sq.toWorkQueueSizes s.qp.qpType bytes' s.sent.length posted

private theorem postSend_wrote (h : System.Invariant (· ≤ ·) mode s)
    (hspare : s.qp.sq.spareWqes = some spare) (wrs : List SendWorkRequest) :
    Ends (QueuePair.postSend mode wrs) s.qp
      (fun _ qp' ↦ s.qp.reaching wrs = wrs ∧ Wrote mode s wrs spare qp')
      fun e qp' ↦ (e.IsErr → Wrote mode s wrs spare qp') ∧ (¬ e.IsErr →
        ¬ (AllPostable mode spare s.sent.length (s.qp.reaching wrs) ∧ s.qp.Rings wrs)) := by
  obtain ⟨bytes, tail, spare', hspare', hsending, -⟩ := h.sending
  cases hspare.symm.trans hspare'
  obtain ⟨hpos, hsum⟩ := hsending.sizes.spare_eq hspare
  have hends := postSend_ends (J := InPlace s) counting_le hspare
    (fun bytes₁ bytes₂ sent' wr opcode hopcode hroom ⟨posted, hsent', hwritten⟩ hposts ↦
      ⟨posted ++ [wr], by rw [hsent', List.append_assoc], hwritten.posts hpos hsum
        (hsending.tracks.tail_le counting_le) (by rw [hsent', List.length_append]) hroom
        hopcode hposts⟩)
    hsending ⟨[], (List.append_nil _).symm, fun _ _ hget ↦ nomatch hget⟩ wrs
    fun _ _ _ ↦ Nat.le_add_left _ _
  have hwrote : ∀ sq', s.qp.Rings wrs → PostedAll (· ≤ ·) mode s.qp.qpType spare
      s.qp.sq.toWorkQueueSizes (InPlace s) s.sent s.sendDone tail (s.qp.reaching wrs) sq' →
      Wrote mode s wrs spare { s.qp with sq := sq' } := by
    rintro sq' hrings ⟨hsizes, hpostable, bytes', hsending', posted, hsent, hwritten⟩
    cases List.append_cancel_left hsent
    rw [← hsizes] at hwritten
    exact ⟨System.postedBetween_reaching counting_le hsending hsending', hpostable, hrings,
      Written.decodes_iff { s.qp with sq := sq' } hwritten hsending'.mapped
        hsending.tracks.counts.1⟩
  refine hends.mono ?_ fun e qp' ⟨herr, hpanic⟩ ↦ ⟨fun he ↦ ?_, hpanic⟩
  · rintro - _ ⟨⟨-, hall⟩, hrings, sq', rfl, hposted⟩
    exact ⟨hall, hwrote sq' hrings hposted⟩
  · obtain ⟨-, hrings, sq', rfl, hposted⟩ := herr he
    exact hwrote sq' hrings hposted

/-- In every state of every run a call of `post_send` encodes its requests exactly if every
request that passes the checks has an opcode and, with overflow checks, a scatter list that is
not empty and an index below the end of the range, the number of the queue pair fits the doorbell,
and where something is posted the pair is no datagram pair and the inline bytes are empty. -/
theorem encodes_iff {qp : QueuePair} {events : List Event} (h : qp.Created)
    (hrun : events.foldlM (System.step mode) (System.init qp) = .ok s)
    (wrs : List SendWorkRequest) :
    s.qp.Encodes mode wrs ↔ ∃ spare, s.qp.sq.spareWqes = some spare ∧
      AllPostable mode spare s.sent.length (s.qp.reaching wrs) ∧ s.qp.Rings wrs ∧
      ∀ wr ∈ s.qp.reaching wrs, s.qp.qpType ≠ .ud ∧ wr.payload.inlineBytes = [] := by
  have hinv := System.invariant_run h hrun
  obtain ⟨-, -, spare, hspare, -⟩ := hinv.sending
  have hends := postSend_wrote hinv hspare wrs
  rw [hspare]
  simp only [Option.some.injEq, exists_eq_left']
  unfold QueuePair.Encodes
  split
  next _ qp' hcall =>
    obtain ⟨hall, hwrote⟩ := hends.of_ok hcall
    have hiff := hwrote.decodes_iff
    rw [hall] at hiff
    rw [hiff, hall]
    exact ⟨fun hdecodes ↦ ⟨hall ▸ hwrote.postable, hwrote.rings, hdecodes⟩, fun h ↦ h.2.2⟩
  next message qp' hcall =>
    have hwrote := (hends.of_error hcall).1 trivial
    rw [hwrote.posted, hwrote.decodes_iff]
    exact ⟨fun hdecodes ↦ ⟨hwrote.postable, hwrote.rings, hdecodes⟩, fun h ↦ h.2.2⟩
  next reason qp' hcall =>
    have hpanic := (hends.of_error hcall).2 (Fault.not_isErr_panic _)
    exact ⟨False.elim, fun h ↦ hpanic ⟨h.1, h.2.1⟩⟩

/-- A message from one buffer is encoded. -/
theorem encodes_iff_sample : ∃ (qp : QueuePair) (s : System), qp.Created ∧
    System.Sample.bringUp.foldlM (System.step .panics) (System.init qp) = .ok s ∧
    s.qp.reaching [System.Sample.send 1 SendFlags.signaled] =
      [System.Sample.send 1 SendFlags.signaled] ∧
    s.qp.Encodes .panics [System.Sample.send 1 SendFlags.signaled] := by
  obtain ⟨qp, hqp, s, hrun, hspare, hsent, htype, hnumber, hreaching⟩ : ∃ qp, qp.Created ∧
      ∃ s, System.Sample.bringUp.foldlM (System.step .panics) (System.init qp) = .ok s ∧
        s.qp.sq.spareWqes = some 33 ∧ s.sent = [] ∧ s.qp.qpType = .rc ∧ s.qp.number = 64 ∧
        s.qp.reaching [System.Sample.send 1 SendFlags.signaled] =
          [System.Sample.send 1 SendFlags.signaled] :=
    QueuePair.Sample.exists_created (by decide +kernel)
  refine ⟨qp, s, hqp, hrun, hreaching, (encodes_iff hqp hrun _).mpr ⟨33, hspare, ?_, ?_, ?_⟩⟩
  · rw [hsent, hreaching]
    exact ⟨⟨⟨⟨0x0a, rfl⟩, fun _ ↦ nofun⟩, fun _ ↦ by decide⟩, trivial⟩
  · intro _ _ _
    rw [hnumber]
    decide
  · rw [hreaching, htype]
    exact List.forall_mem_singleton.mpr ⟨nofun, rfl⟩

/-- A request with inline bytes is accepted, and its element has no payload. -/
theorem inline_bytes_dropped : ∃ (qp : QueuePair) (s : System) (wr : SendWorkRequest)
    (qp' : QueuePair), qp.Created ∧
    System.Sample.bringUp.foldlM (System.step .panics) (System.init qp) = .ok s ∧
    wr.payload = .inlined [1, 2, 3] ∧ QueuePair.postSend .panics [wr] s.qp = .ok () qp' ∧
    (qp'.sq.elementAt s.qp.sq.head).bind (decode qp'.qpType) =
      some ⟨.send, true, false, false, [], [], 1⟩ ∧ ¬ s.qp.Encodes .panics [wr] := by
  obtain ⟨qp, hqp, s, hrun, qp', hcall, hdecode⟩ : ∃ qp, qp.Created ∧
      ∃ s, System.Sample.bringUp.foldlM (System.step .panics) (System.init qp) = .ok s ∧
        ∃ qp', QueuePair.postSend .panics [⟨1, .inlined [1, 2, 3], SendFlags.signaled, .send⟩]
          s.qp = .ok () qp' ∧ (qp'.sq.elementAt s.qp.sq.head).bind (decode qp'.qpType) =
            some ⟨.send, true, false, false, [], [], 1⟩ :=
    QueuePair.Sample.exists_created (by decide +kernel)
  refine ⟨qp, s, _, qp', hqp, hrun, rfl, hcall, hdecode, fun hencodes ↦ ?_⟩
  rw [QueuePair.Encodes, hcall] at hencodes
  have hfirst := hencodes 0 _ rfl
  rw [Nat.add_zero, hdecode] at hfirst
  exact absurd (congrArg Described.inlined (Option.some.inj hfirst)) nofun

end

end D3OS.Ibverbs
