import D3OS.Mlx4.CompletionQueue
import D3OS.Mlx4.Transitions

/-!
# Buffers and doorbell records of user space

`QueuePair::new` and `CompletionQueue::new` get the addresses of a buffer and of a doorbell
record from the process. The number of pages they have translated follows from the size of the
buffer alone, wherever in its first page the buffer starts, and the address of the record is
checked for access but not for alignment.
-/

namespace D3OS.Mlx4

open Lib Memory

/-- The size of the two rings of a queue pair, `queue_pair.rs:79`. -/
def QueuePair.Params.bufferSize (params : QueuePair.Params) : Nat :=
  2 ^ (params.logSqBbCount.toNat + params.logSqStride.toNat) +
    2 ^ (params.logRqWqeCount.toNat + params.logRqStride.toNat)

/-- The size of the entries of a completion queue, `completion_queue.rs:68`. -/
def CompletionQueue.Params.bufferSize (params : CompletionQueue.Params) : Nat :=
  params.numEntries.toNat * cqeSize

/-- The pages that `alloc_mtt_for_pages` gets for a buffer, `queue_pair.rs:89-90` and
`completion_queue.rs:73-74`. -/
def bufferPages (buffer : VirtAddr) (size : Nat) : Except Panic PageRange := do
  let start := Page.containingAddress buffer
  let stop ← start.add ((size + pageSize - 1) / pageSize)
  .ok ⟨start, stop⟩

/-- Every byte of the buffer lies in a page of the range. -/
def Covers (pages : PageRange) (buffer size : Nat) : Prop :=
  ∀ byte, buffer ≤ byte → byte < buffer + size →
    pages.start.number ≤ byte / pageSize ∧ byte / pageSize < pages.stop.number

/-- The buffer ends in as many pages as its size takes. -/
def FitsPages (buffer size : Nat) : Prop :=
  buffer % pageSize + size ≤ (size + pageSize - 1) / pageSize * pageSize

instance (buffer size : Nat) : Decidable (FitsPages buffer size) :=
  inferInstanceAs (Decidable (_ ≤ _))

private theorem covers_bufferPages {buffer : VirtAddr} {size : Nat} {pages : PageRange}
    (hsize : 0 < size) (h : bufferPages buffer size = .ok pages) :
    Covers pages buffer.asU64 size ↔ FitsPages buffer.asU64 size := by
  obtain ⟨stop, hstop, h⟩ := of_bind h
  cases h
  unfold Page.add at hstop
  split at hstop
  next =>
    cases hstop
    show (∀ byte, _ → _ → buffer.asU64 / 4096 ≤ byte / 4096 ∧
      byte / 4096 < buffer.asU64 / 4096 + (size + 4096 - 1) / 4096) ↔
      buffer.asU64 % 4096 + size ≤ (size + 4096 - 1) / 4096 * 4096
    constructor
    · intro hcovers
      -- the last byte is the one that may fall out of the range
      have hlast := hcovers (buffer.asU64 + size - 1) (by omega) (by omega)
      omega
    · intro hfits byte hge hlt
      omega
  next => cases hstop

/-- What the two functions make of the addresses of a request that they accept. -/
structure Placed (caps : Capabilities) (process : Process) (buffer size doorbellPtr : Nat)
    (table : MrTable) (mtt : Nat) (table' : MrTable) (doorbell : PhysAddr) : Prop where
  allocated : ∃ addr pages, VirtAddr.tryNew buffer = some addr ∧
    bufferPages addr size = .ok pages ∧
      MrTable.allocMttForPages caps process pages table = .ok mtt table'
  getPhys_eq : process.virtualAddressSpace.getPhys doorbellPtr = .ok (some doorbell)

section

variable {caps : Capabilities} {process : Process} {buffer size doorbellPtr mtt : Nat}
  {table table' : MrTable} {doorbell : PhysAddr}

private theorem Placed.of_new {addr : VirtAddr} {stop : Page} {translated : Option PhysAddr}
    (haddr : VirtAddr.tryNew buffer = some addr)
    (hstop : (Page.containingAddress addr).add ((size + pageSize - 1) / pageSize) = .ok stop)
    (hmtt : MrTable.allocMttForPages caps process ⟨Page.containingAddress addr, stop⟩ table =
      .ok mtt table')
    (hphys : process.virtualAddressSpace.getPhys doorbellPtr = .ok translated)
    (hdoorbell : translated = some doorbell) :
    Placed caps process buffer size doorbellPtr table mtt table' doorbell where
  allocated := ⟨addr, _, haddr, by rw [bufferPages, hstop]; rfl, hmtt⟩
  getPhys_eq := by rw [hphys, hdoorbell]

/-- The frame that the page of the pointer translates to holds the whole record, and the record
is aligned as the field of the context demands. -/
def RecordFits (process : Process) (doorbellPtr size record : Nat) : Prop :=
  record % 8 = 0 ∧ ∃ addr frame, VirtAddr.tryNew doorbellPtr = some addr ∧
    process.virtualAddressSpace.pageTables.translate addr.alignDown = some frame ∧
      frame.asU64 ≤ record ∧ record + size ≤ frame.asU64 + pageSize

private theorem Placed.recordFits_iff (h : Placed caps process buffer size doorbellPtr table mtt
    table' doorbell) {recordSize : Nat} (hsize : recordSize ≤ 8) :
    RecordFits process doorbellPtr recordSize doorbell.asU64 ↔ doorbellPtr % 8 = 0 := by
  obtain ⟨addr, haddr, htranslate⟩ := of_bind h.getPhys_eq
  have hnew := VirtAddr.new_eq_ok.mp haddr
  have hptr := VirtAddr.tryNew_eq_some hnew
  have htranslate := Except.ok.inj htranslate
  rw [Paging.translate, translateInTable_eq] at htranslate
  obtain ⟨entry, hentry, rfl⟩ := Option.map_eq_some_iff.mp htranslate
  have hpage : Page.containingAddress addr.alignDown = Page.containingAddress addr :=
    Page.ext (Nat.mul_div_cancel _ (by decide))
  have hframe : process.virtualAddressSpace.pageTables.translate addr.alignDown =
      some (entry.address addr.alignDown) := by
    rw [Paging.translate, translateInTable_eq, hpage, hentry]
    rfl
  have hrecord : (entry.address addr).asU64 = entry.frame.number * 4096 + addr.asU64 % 4096 := rfl
  have hstart : (entry.address addr.alignDown).asU64 =
      entry.frame.number * 4096 + addr.asU64 / 4096 * 4096 % 4096 := rfl
  constructor
  · rintro ⟨hmod, -⟩
    omega
  · intro hmod
    refine ⟨by omega, addr, _, hnew, hframe, by omega, ?_⟩
    simp only [pageSize]
    omega

end

private theorem toNat_asU64 (a : PhysAddr) : (a.asU64 : BitVec 64).toNat = a.asU64 :=
  Nat.mod_eq_of_lt (Nat.lt_trans a.lt (by decide))

namespace QueuePair

private theorem new_placed (caps : Capabilities) (process : Process) (params : Params)
    (uarIndex : Nat)
    (card : Card) :
    Ends (new caps process params uarIndex) card
      (fun qp card' ↦ ∃ mtt, qp.mtt = some mtt ∧
        Placed caps process params.buffer params.bufferSize params.doorbellPtr card.mrTable mtt
          card'.mrTable qp.doorbellAddress)
      fun _ _ ↦ True := by
  simp only [new, ends_bind, ends_lift, ends_ite, ends_throw, ends_pure,
    Card.ends_withOffsets, Card.ends_withMrTable, yields_orPanic, yields_okOr, implies_true,
    and_true, true_and]
  rintro _ - - - - - bufferAddr haddr - - stop hstop
  refine ends_of_eq (fun mtt mrTable hmtt ↦ ?_) fun _ _ _ ↦ trivial
  rintro translated hphys doorbell hdoorbell
  refine ends_of_forall (fun number offsets ↦ ?_) fun _ _ ↦ trivial
  exact ⟨mtt, rfl, .of_new haddr hstop hmtt hphys hdoorbell⟩

section

variable (qp : QueuePair) (attr : Rdma.QueuePairAttr) (attrMask : Rdma.QueuePairAttrMask)

private theorem dbRecordAddr_eq :
    Yields (qp.initContext attr attrMask)
      (fun input ↦ input.qpcData.dbRecordAddr.toNat = qp.doorbellAddress.asU64) fun _ ↦ True := by
  simp only [initContext, yields_bind, yields_setField, yields_require, yields_orPanic,
    yields_okOr, yields_ok, toNat_asU64, implies_true, and_true]

private theorem doorbellAddress_setPort :
    (qp.setPort attr attrMask).doorbellAddress = qp.doorbellAddress := by
  unfold setPort
  split <;> rfl

end

/-- The sizes and addresses of a small datagram queue pair, with the given buffer and record. -/
def placedParams (buffer doorbellPtr : Nat) : Params :=
  ⟨.ud, 5, 16, 16, buffer, doorbellPtr, 0, 6, 0, 6⟩

end QueuePair

namespace CompletionQueue

private theorem context_fields (numEntries bufferOffset uarIdx : Nat) (eqNumber : Option Nat)
    (mtt : Nat) (doorbellAddress : PhysAddr) :
    Yields (context numEntries bufferOffset uarIdx eqNumber mtt doorbellAddress)
      (fun ctx ↦ ctx.pageOffset.toNat = bufferOffset ∧
        ctx.doorbellRecordAddr.toNat = doorbellAddress.asU64) fun _ ↦ True := by
  simp only [context, yields_bind, yields_setField, yields_ok, implies_true, and_true]
  rintro hoffset - - - -
  constructor
  · rw [BitVec.toNat_ofNat, Nat.mod_eq_of_lt hoffset]
  · exact toNat_asU64 doorbellAddress

private theorem new_placed (caps : Capabilities) (eqNumber : Option Nat) (process : Process)
    (params : Params) (uarIdx : Nat) (card : Card) :
    Ends (new caps eqNumber process params uarIdx) card
      (fun cq card' ↦ ∃ mtt doorbell ctx, cq.mtt = some mtt ∧
        Placed caps process params.buffer params.bufferSize params.doorbellPtr card.mrTable mtt
          card'.mrTable doorbell ∧
        0 < params.bufferSize ∧
        card'.cmd.log = card.cmd.log ++ [⟨.sw2HwCq, .completionQueue ctx, cq.number, .ok⟩] ∧
        ctx.pageOffset.toNat = params.buffer % pageSize ∧
        ctx.doorbellRecordAddr.toNat = doorbell.asU64)
      fun _ _ ↦ True := by
  simp only [new, ends_bind, ends_lift, ends_ite, ends_throw, ends_pure, Card.ends_withCmd,
    Card.ends_withOffsets, Card.ends_withMrTable, CommandInterface.ends_executeCommand,
    yields_orPanic, yields_okOr, implies_true, and_true, true_and]
  rintro _ - - hpow - bufferAddr haddr - - stop hstop
  refine ends_of_eq (fun mtt mrTable hmtt ↦ ?_) fun _ _ _ ↦ trivial
  rintro translated hphys doorbell hdoorbell
  refine ends_of_forall (fun number offsets ↦ ?_) fun _ _ ↦ trivial
  refine (context_fields _ _ _ _ _ _).mono (fun ctx hctx ↦ ?_) fun _ _ ↦ trivial
  intro hstatus
  refine ⟨mtt, doorbell, ctx, rfl, .of_new haddr hstop hmtt hphys hdoorbell, ?_, ?_, ?_, hctx.2⟩
  · refine Nat.mul_pos (Nat.pos_of_ne_zero fun hzero ↦ hpow ?_) (by decide)
    rw [hzero]
    decide
  · rw [CommandInterface.record, hstatus]
  · rw [hctx.1, VirtAddr.tryNew_eq_some haddr]

end CompletionQueue

/-- The pages that are translated for an accepted buffer hold all of it exactly when it does not
start too far behind the start of its first page. -/
theorem buffer_covered_iff (caps : Capabilities) (process : Process) (card : Card) :
    (∀ params uarIndex qp card',
      QueuePair.new caps process params uarIndex card = .ok qp card' →
        ∃ addr pages mtt, VirtAddr.tryNew params.buffer = some addr ∧
          bufferPages addr params.bufferSize = .ok pages ∧ qp.mtt = some mtt ∧
          MrTable.allocMttForPages caps process pages card.mrTable = .ok mtt card'.mrTable ∧
          (Covers pages params.buffer params.bufferSize ↔
            FitsPages params.buffer params.bufferSize)) ∧
    (∀ eqNumber params uarIdx cq card',
      CompletionQueue.new caps eqNumber process params uarIdx card = .ok cq card' →
        ∃ addr pages mtt, VirtAddr.tryNew params.buffer = some addr ∧
          bufferPages addr params.bufferSize = .ok pages ∧ cq.mtt = some mtt ∧
          MrTable.allocMttForPages caps process pages card.mrTable = .ok mtt card'.mrTable ∧
          (Covers pages params.buffer params.bufferSize ↔
            FitsPages params.buffer params.bufferSize)) := by
  constructor
  · intro params uarIndex qp card' hnew
    obtain ⟨mtt, hmtt, hplaced⟩ := (ends_iff_forall.mp (QueuePair.new_placed ..)).1 _ _ hnew
    obtain ⟨addr, pages, haddr, hpages, halloc⟩ := hplaced.allocated
    refine ⟨addr, pages, mtt, haddr, hpages, hmtt, halloc, ?_⟩
    rw [← VirtAddr.tryNew_eq_some haddr]
    refine covers_bufferPages ?_ hpages
    exact Nat.add_pos_left (Nat.two_pow_pos _) _
  · intro eqNumber params uarIdx cq card' hnew
    obtain ⟨mtt, _, _, hmtt, hplaced, hpos, -⟩ :=
      (ends_iff_forall.mp (CompletionQueue.new_placed ..)).1 _ _ hnew
    obtain ⟨addr, pages, haddr, hpages, halloc⟩ := hplaced.allocated
    refine ⟨addr, pages, mtt, haddr, hpages, hmtt, halloc, ?_⟩
    rw [← VirtAddr.tryNew_eq_some haddr]
    exact covers_bufferPages hpos hpages

private theorem aligned_accepted : ∃ process, Sample.process 1 = .ok process ∧ ∃ qp card,
    QueuePair.new Sample.caps process (QueuePair.placedParams 0x10000000000 0x10000000800) 2
      (Sample.card Sample.caps) = .ok qp card ∧ qp.mtt.isSome := by
  decide +kernel

/-- Two rings of 64 bytes at the start of a page are accepted and translated. -/
theorem buffer_covered_sample : ∃ process qp card addr pages, Sample.process 1 = .ok process ∧
    QueuePair.new Sample.caps process (QueuePair.placedParams 0x10000000000 0x10000000800) 2
      (Sample.card Sample.caps) = .ok qp card ∧
    VirtAddr.tryNew 0x10000000000 = some addr ∧ bufferPages addr 128 = .ok pages ∧
    Covers pages 0x10000000000 128 := by
  obtain ⟨process, hprocess, qp, card, hnew, -⟩ := aligned_accepted
  obtain ⟨addr, pages, -, haddr, hpages, -, -, hcovers⟩ :=
    (buffer_covered_iff ..).1 _ _ _ _ hnew
  exact ⟨process, qp, card, addr, pages, hprocess, hnew, haddr, hpages,
    hcovers.mpr (by decide)⟩

/-- Two rings of 64 bytes that start in the last 64 bytes of a page are accepted, and the second
of them lies behind the one page that is translated. -/
theorem buffer_not_covered : ∃ process qp card addr pages, Sample.process 1 = .ok process ∧
    QueuePair.new Sample.caps process (QueuePair.placedParams 0x10000000fc0 0x10000000800) 2
      (Sample.card Sample.caps) = .ok qp card ∧
    VirtAddr.tryNew 0x10000000fc0 = some addr ∧ bufferPages addr 128 = .ok pages ∧
    qp.mtt = some 128 ∧
    MrTable.allocMttForPages Sample.caps process pages (Sample.card Sample.caps).mrTable =
      .ok 128 card.mrTable ∧
    ¬ Covers pages 0x10000000fc0 128 := by
  obtain ⟨process, hprocess, qp, card, hnew, hmtt⟩ :
      ∃ process, Sample.process 1 = .ok process ∧ ∃ qp card, QueuePair.new Sample.caps process
        (QueuePair.placedParams 0x10000000fc0 0x10000000800) 2 (Sample.card Sample.caps) =
          .ok qp card ∧ qp.mtt = some 128 := by
    decide +kernel
  obtain ⟨mtt, hmtt', hplaced⟩ := (ends_iff_forall.mp (QueuePair.new_placed ..)).1 _ _ hnew
  cases hmtt'.symm.trans hmtt
  obtain ⟨addr, pages, haddr, hpages, halloc⟩ := hplaced.allocated
  refine ⟨process, qp, card, addr, pages, hprocess, hnew, haddr, hpages, hmtt', halloc, ?_⟩
  have hcovers := covers_bufferPages (by decide) hpages
  rw [VirtAddr.tryNew_eq_some haddr] at hcovers
  exact mt hcovers.mp (by decide)

/-- The fields of the contexts that hold the offset of a buffer and the address of a doorbell
record are as the card takes them exactly when the process aligned its addresses. -/
theorem context_fields_iff (caps : Capabilities) (process : Process) (card : Card) :
    (∀ eqNumber params uarIdx cq card',
      CompletionQueue.new caps eqNumber process params uarIdx card = .ok cq card' →
        ∃ ctx, card'.cmd.log =
            card.cmd.log ++ [⟨.sw2HwCq, .completionQueue ctx, cq.number, .ok⟩] ∧
          (ctx.pageOffset.toNat % 32 = 0 ∧
              RecordFits process params.doorbellPtr 8 ctx.doorbellRecordAddr.toNat ↔
            params.buffer % 32 = 0 ∧ params.doorbellPtr % 8 = 0)) ∧
    (∀ params uarIndex qp card',
      QueuePair.new caps process params uarIndex card = .ok qp card' →
        (∀ attr attrMask input, (qp.setPort attr attrMask).initContext attr attrMask = .ok input →
          input.qpcData.dbRecordAddr.toNat = qp.doorbellAddress.asU64) ∧
        (RecordFits process params.doorbellPtr 4 qp.doorbellAddress.asU64 ↔
          params.doorbellPtr % 8 = 0)) := by
  constructor
  · intro eqNumber params uarIdx cq card' hnew
    obtain ⟨mtt, doorbell, ctx, -, hplaced, -, hlog, hoffset, hrecord⟩ :=
      (ends_iff_forall.mp (CompletionQueue.new_placed ..)).1 _ _ hnew
    refine ⟨ctx, hlog, ?_⟩
    rw [hoffset, hrecord, hplaced.recordFits_iff (Nat.le_refl 8),
      Nat.mod_mod_of_dvd _ (by decide : 32 ∣ pageSize)]
  · intro params uarIndex qp card' hnew
    obtain ⟨mtt, -, hplaced⟩ := (ends_iff_forall.mp (QueuePair.new_placed ..)).1 _ _ hnew
    refine ⟨fun attr attrMask input hinput ↦ ?_, hplaced.recordFits_iff (by decide)⟩
    rw [(QueuePair.dbRecordAddr_eq ..).of_ok hinput, QueuePair.doorbellAddress_setPort]

/-- An aligned doorbell record is accepted and its address goes into the context. -/
theorem context_fields_sample : ∃ process qp card, Sample.process 1 = .ok process ∧
    QueuePair.new Sample.caps process (QueuePair.placedParams 0x10000000000 0x10000000800) 2
      (Sample.card Sample.caps) = .ok qp card ∧
    RecordFits process 0x10000000800 4 qp.doorbellAddress.asU64 := by
  obtain ⟨process, hprocess, qp, card, hnew, -⟩ := aligned_accepted
  have hfits := ((context_fields_iff ..).2 _ _ _ _ hnew).2
  exact ⟨process, qp, card, hprocess, hnew, hfits.mpr (by decide)⟩

/-- A doorbell record that starts two bytes before the end of its page is accepted, and its
address goes into the context of the queue pair. -/
theorem record_crosses_frame : ∃ process qp card, Sample.process 1 = .ok process ∧
    QueuePair.new Sample.caps process (QueuePair.placedParams 0x10000000000 0x10000000ffe) 2
      (Sample.card Sample.caps) = .ok qp card ∧
    (∃ input, qp.initContext {} Rdma.QueuePairAttrMask.ibvQpQkey = .ok input ∧
      input.qpcData.dbRecordAddr.toNat = qp.doorbellAddress.asU64) ∧
    qp.doorbellAddress.asU64 % 8 = 6 ∧
    ¬ RecordFits process 0x10000000ffe 4 qp.doorbellAddress.asU64 := by
  obtain ⟨process, hprocess, qp, card, hnew, ⟨input, hinput, -⟩, hmod⟩ :
      ∃ process, Sample.process 1 = .ok process ∧ ∃ qp card, QueuePair.new Sample.caps process
        (QueuePair.placedParams 0x10000000000 0x10000000ffe) 2 (Sample.card Sample.caps) =
          .ok qp card ∧
        (∃ input, qp.initContext {} Rdma.QueuePairAttrMask.ibvQpQkey = .ok input ∧ True) ∧
        qp.doorbellAddress.asU64 % 8 = 6 := by
    decide +kernel
  refine ⟨process, qp, card, hprocess, hnew,
    ⟨input, hinput, (QueuePair.dbRecordAddr_eq ..).of_ok hinput⟩, hmod, fun hfits ↦ ?_⟩
  have haligned := hfits.1
  omega

end D3OS.Mlx4
