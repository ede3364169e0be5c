import D3OS.Ibverbs.Posting
import D3OS.Mlx4.Mtt

/-!
# New queue pairs

`create` hands a buffer to the kernel in which every element of the send queue is stamped for
the first pass. The kernel checks the sizes, so that a queue has at most `2 ^ 15` elements.
-/

namespace D3OS.Ibverbs

open Lib Rdma

namespace QueuePair

/-- The kernel answers with the number of a queue pair of the requested sizes. -/
def AnsweredByKernel (uverbs : CreateQpRequest → Except Fault Nat) : Prop :=
  ∀ req number, uverbs req = .ok number → ∃ caps process params uarIndex card qp card',
    Mlx4.QueuePair.new caps process params uarIndex card = .ok qp card' ∧ qp.number = number ∧
      params.logSqBbCount.toNat = req.logSqBbCount ∧ params.logSqStride.toNat = req.logSqStride ∧
      params.logRqWqeCount.toNat = req.logRqWqeCount ∧ params.logRqStride.toNat = req.logRqStride

/-- A queue pair that `create` has returned. -/
def Created (qp : QueuePair) : Prop :=
  ∃ attr mapped uverbs, AnsweredByKernel uverbs ∧ create attr mapped uverbs = .ok qp

private theorem admitted {caps : Mlx4.Capabilities} {process : Memory.Process}
    {params : Mlx4.QueuePair.Params} {uarIndex : Nat} {card card' : Mlx4.Card}
    {qp : Mlx4.QueuePair}
    (h : Mlx4.QueuePair.new caps process params uarIndex card = .ok qp card') :
    params.logSqBbCount.toNat ≤ 15 ∧ params.logRqWqeCount.toNat ≤ 15 := by
  have hends : Ends (Mlx4.QueuePair.new caps process params uarIndex) card
      (fun _ _ ↦ params.logSqBbCount.toNat ≤ 15 ∧ params.logRqWqeCount.toNat ≤ 15)
      fun _ _ ↦ True := by
    unfold Mlx4.QueuePair.new
    rw [ends_bind, ends_lift]
    refine yields_of_eq (fun doorbellAddr _ ↦ ?_) fun _ _ ↦ trivial
    rw [ends_ite, ends_ite, ends_ite, ends_ite]
    refine ⟨fun _ ↦ trivial, fun _ ↦ ⟨fun _ ↦ trivial, fun _ ↦ ⟨fun _ ↦ trivial, fun _ ↦
      ⟨fun _ ↦ trivial, fun hsize ↦ ?_⟩⟩⟩⟩
    exact ends_of_forall (fun _ _ ↦ by omega) fun _ _ ↦ trivial
  exact hends.of_ok h

section

variable {rq sq : WorkQueue} {bytes : Nat → UInt8} {qpType : QueuePairType}

private theorem mul_two_pow_lt {cnt shift : Nat} (hcnt : cnt ≤ 2 ^ 17) (hshift : shift ≤ 10) :
    cnt * 2 ^ shift < 2 ^ 32 := by
  calc cnt * 2 ^ shift ≤ 2 ^ 17 * 2 ^ 10 :=
        Nat.mul_le_mul hcnt (Nat.pow_le_pow_right (by decide) hshift)
    _ < 2 ^ 32 := by decide

private theorem size_eq {wq : WorkQueue} (hcnt : wq.wqeCnt ≤ 2 ^ 17) (hshift : wq.wqeShift ≤ 10) :
    wq.size = wq.wqeCnt * 2 ^ wq.wqeShift := by
  rw [WorkQueue.size, Nat.shiftLeft_eq, Nat.mod_eq_of_lt (mul_two_pow_lt hcnt hshift)]

private theorem splitBuffer_mapped (hrq : rq.IsReceive) (hsq : sq.IsSend qpType) :
    ∃ rlen slen, splitBuffer rq sq = ({ rq with buffer := some ⟨rlen, fun _ ↦ 0⟩ },
        { sq with buffer := some ⟨slen, fun _ ↦ 0⟩ }) ∧
      rq.wqeCnt * 2 ^ rq.wqeShift ≤ rlen ∧ sq.wqeCnt * 2 ^ sq.wqeShift ≤ slen := by
  have hr := size_eq (Nat.le_trans hrq.wqeCnt_le (by decide))
    (Nat.le_trans hrq.wqeShift_le (by decide))
  have hs := size_eq hsq.wqeCnt_le hsq.wqeShift_le
  unfold splitBuffer
  split
  · exact ⟨_, _, rfl, by omega, by omega⟩
  · exact ⟨_, _, rfl, by omega, by omega⟩

private theorem initElement_eq (h : sq.Mapped bytes) (hshift : 5 ≤ sq.wqeShift) (i : Nat) :
    ∃ bytes', initElement sq i = .ok (sq.withBytes bytes') ∧
      (∀ o, o / 2 ^ sq.wqeShift ≠ i % sq.wqeCnt → bytes' o = bytes o) ∧
      WorkQueue.Stamped sq.toWorkQueueSizes bytes' i := by
  have hwidth : 2 ^ 5 ≤ 2 ^ sq.wqeShift := Nat.pow_le_pow_right (by decide) hshift
  have hplace : sq.getInBuffer controlSegmentSize (i % sq.wqeCnt * 2 ^ sq.wqeShift) =
      some (i % sq.wqeCnt * 2 ^ sq.wqeShift) :=
    h.getInBuffer i (Nat.add_le_add_left (Nat.le_trans (by decide) hwidth) _)
  rw [initElement, h.wqeByteOffset, hplace]
  show ∃ bytes', WorkQueue.stampWqebb (sq.write _ _) i = _ ∧ _
  rw [h.write]
  have hmapped : (sq.withBytes (patch bytes (i % sq.wqeCnt * 2 ^ sq.wqeShift)
      (toBe 4 (2 ^ 31) ++ toBe 4 (2 ^ (sq.wqeShift - 4))))).Mapped _ := h.withBytes
  obtain ⟨bytes', hstamp, hout, hstamped⟩ := hmapped.stampWqebb hshift i
  refine ⟨bytes', by rw [hstamp, WorkQueue.withBytes_withBytes], fun o ho ↦ ?_, hstamped⟩
  rw [hout o ho]
  refine WorkQueue.patch_of_div_ne ?_ ho
  rw [List.length_append, length_toBe, length_toBe]
  exact Nat.le_trans (by decide) hwidth

private theorem initElements_eq (h : sq.Mapped bytes) (hshift : 5 ≤ sq.wqeShift) {n : Nat}
    (hn : n ≤ sq.wqeCnt) :
    ∃ bytes', (List.range n).foldlM initElement sq = .ok (sq.withBytes bytes') ∧
      ∀ i < n, WorkQueue.Stamped sq.toWorkQueueSizes bytes' i := by
  induction n with
  | zero => exact ⟨bytes, by rw [h.withBytes_self]; rfl, fun i hi ↦ absurd hi (Nat.not_lt_zero i)⟩
  | succ n ih =>
    obtain ⟨bytes₁, hfold, hstamped₁⟩ := ih (by omega)
    have hmapped : (sq.withBytes bytes₁).Mapped bytes₁ := h.withBytes
    obtain ⟨bytes', hinit, hout, hstamped⟩ := initElement_eq hmapped hshift n
    refine ⟨bytes', ?_, fun i hi ↦ ?_⟩
    · rw [List.range_succ, List.foldlM_append, hfold]
      show (initElement _ n >>= Except.ok) = _
      rw [hinit, WorkQueue.withBytes_withBytes]
      rfl
    · rcases Nat.lt_succ_iff_lt_or_eq.mp hi with hlt | rfl
      · refine (hstamped₁ i hlt).congr fun o ho ↦ hout o ?_
        simp only [WorkQueue.withBytes_sizes]
        rw [ho]
        exact slot_ne hlt (by omega)
      · exact hstamped

private theorem tracks_nil {R : Nat → Nat → Prop} (hR : Counting R) {wq : WorkQueue}
    (hhead : wq.head = 0) (htail : wq.tail = 0) (hmax : 256 ≤ wq.maxPost) :
    Tracks R wq [] 0 0 where
  head_eq := hhead
  tail_eq := htail
  tail_rel := hR.refl 0
  done_le := Nat.le_refl 0
  room := by
    rw [List.length_nil]
    omega
  boundary := rfl
  metadata _ _ _ hget := nomatch hget

end

/-- A new queue pair has no requests, and its whole send queue is stamped for the first pass. -/
theorem Created.spec {qp : QueuePair} (h : Created qp) :
    qp.sq.wqeCnt ≤ 2 ^ 15 ∧ qp.rq.wqeCnt ≤ 2 ^ 15 ∧ qp.receiveWqeCounter = 0 ∧
    Receiving qp.rq [] 0 ∧ ∀ {R : Nat → Nat → Prop} (mode : Overflow), Counting R → ∃ bytes,
      Sending R mode qp.qpType qp.sq bytes [] 0 0 ∧
        ∀ i < qp.sq.wqeCnt, WorkQueue.Stamped qp.sq.toWorkQueueSizes bytes i := by
  obtain ⟨attr, mapped, uverbs, hkernel, h⟩ := h
  obtain ⟨rq, hrq, h⟩ := of_bind h
  obtain ⟨sq, hsq, h⟩ := of_bind h
  obtain ⟨hrq', -, hrsizes⟩ := WorkQueue.newReceiveQueue_eq_ok hrq
  obtain ⟨hsq', -, -, hssizes⟩ := WorkQueue.newSendQueue_eq_ok hsq
  split at h
  next => cases h
  next =>
    obtain ⟨rlen, slen, hsplit, hrlen, hslen⟩ := splitBuffer_mapped hrsizes hssizes
    rw [hsplit] at h
    have hsmapped : ({ sq with buffer := some ⟨slen, fun _ ↦ 0⟩ } : WorkQueue).Mapped
        fun _ ↦ 0 := ⟨⟨slen, rfl, hslen⟩, hssizes.wqeCnt_le, hssizes.wqeShift_le⟩
    have hrmapped : ({ rq with buffer := some ⟨rlen, fun _ ↦ 0⟩ } : WorkQueue).Mapped
        fun _ ↦ 0 := ⟨⟨rlen, rfl, hrlen⟩, Nat.le_trans hrsizes.wqeCnt_le (by decide),
          Nat.le_trans hrsizes.wqeShift_le (by decide)⟩
    obtain ⟨bytes, hfold, hstamped⟩ := initElements_eq hsmapped hssizes.shift (Nat.le_refl _)
    obtain ⟨sq₁, hsq₁, h⟩ := of_bind h
    obtain ⟨number, hnumber, h⟩ := of_bind h
    cases hfold.symm.trans hsq₁
    cases h
    obtain ⟨caps, process, params, uarIndex, card, kqp, card', hnew, -, hslog, -, hrlog, -⟩ :=
      hkernel _ _ hnumber
    obtain ⟨hs15, hr15⟩ := admitted hnew
    rw [hslog] at hs15
    rw [hrlog] at hr15
    have hscnt : sq.wqeCnt ≤ 2 ^ 15 :=
      Nat.le_trans (Nat.le_of_eq sq.wqeCnt_eq) (Nat.pow_le_pow_right (by decide) hs15)
    have hrcnt : rq.wqeCnt ≤ 2 ^ 15 :=
      Nat.le_trans (Nat.le_of_eq rq.wqeCnt_eq) (Nat.pow_le_pow_right (by decide) hr15)
    have hrhead : rq.head = 0 ∧ rq.tail = 0 := by
      rw [hrq']
      exact ⟨rfl, rfl⟩
    have hshead : sq.head = 0 ∧ sq.tail = 0 := by
      rw [hsq']
      exact ⟨rfl, rfl⟩
    refine ⟨hscnt, hrcnt, rfl, ⟨hrsizes, ⟨_, hrmapped⟩,
      tracks_nil counting_eq hrhead.1 hrhead.2 hrsizes.le_maxPost⟩, fun mode hR ↦ ⟨bytes,
      ⟨hssizes, hsmapped.withBytes, tracks_nil hR hshead.1 hshead.2 hssizes.le_maxPost,
        fun _ ↦ by decide⟩, hstamped⟩⟩

namespace Sample

open Memory

/-- A process with ten pages of memory at the start of user space. -/
def process : Except Panic Process := do
  let (paging, _) ← Paging.new.map ⟨Mlx4.Sample.page, ⟨0x1000000a, by decide⟩⟩ .user
    (PageTableFlags.present ||| PageTableFlags.writable ||| PageTableFlags.userAccessible)
    ascendingFrames
  let vas ← VirtualAddressSpace.new paging 48
  .ok ⟨1, vas⟩

/-- A buffer of nine pages with the doorbell behind it. -/
def params (req : CreateQpRequest) : Mlx4.QueuePair.Params :=
  ⟨.rc, 2, 16, 16, 0x10000000000, 0x10000009000, .ofNat req.logSqBbCount, .ofNat req.logSqStride,
    .ofNat req.logRqWqeCount, .ofNat req.logRqStride⟩

/-- What the kernel answers when the process creates its first queue pair. -/
def uverbs (process : Process) (req : CreateQpRequest) : Except Fault Nat :=
  if req.logSqBbCount < 2 ^ 8 ∧ req.logSqStride < 2 ^ 8 ∧ req.logRqWqeCount < 2 ^ 8 ∧
      req.logRqStride < 2 ^ 8 then
    match Mlx4.QueuePair.new Mlx4.Sample.caps process (params req) 2
        { Mlx4.Sample.card Mlx4.Sample.caps with mrTable := Mlx4.MrTable.Sample.mrTable } with
    | .ok qp _ => .ok qp.number
    | .error e _ => .error e
  else .error (.err "size out of range")

private theorem answeredByKernel (process : Process) : AnsweredByKernel (uverbs process) := by
  intro req number h
  unfold uverbs at h
  split at h
  next hfits =>
    obtain ⟨hsq, hsqStride, hrq, hrqStride⟩ := hfits
    split at h
    next qp card' hnew =>
      cases h
      exact ⟨_, _, _, _, _, qp, card', hnew, rfl, UInt8.toNat_ofNat_of_lt' hsq,
        UInt8.toNat_ofNat_of_lt' hsqStride, UInt8.toNat_ofNat_of_lt' hrq,
        UInt8.toNat_ofNat_of_lt' hrqStride⟩
    next => cases h
  next => cases h

/-- The smallest queue pair of the sample process. -/
def created : Except Fault QueuePair :=
  match process with
  | .error reason => .error (.panic reason)
  | .ok process => create ⟨.rc, ⟨1, 1, 1, 1⟩⟩ true (uverbs process)

/-- A property of the sample queue pair. -/
theorem exists_created {P : QueuePair → Prop} (h : ∃ qp, created = .ok qp ∧ P qp) :
    ∃ qp, qp.Created ∧ P qp := by
  obtain ⟨qp, hqp, h⟩ := h
  unfold created at hqp
  split at hqp
  next => cases hqp
  next process _ => exact ⟨qp, ⟨_, true, uverbs process, answeredByKernel process, hqp⟩, h⟩

end Sample

end QueuePair

end D3OS.Ibverbs
