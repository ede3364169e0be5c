import D3OS.Lib.Bytes
import D3OS.Memory.Translation
import D3OS.Memory.Vmm
import D3OS.Mlx4.Cmd
import D3OS.Mlx4.Offsets
import D3OS.Rdma.IbCore

/-!
# Translation and protection tables

`os/kernel/src/device/infiniband/mlx4/icm.rs`: the table of memory translations, which
the driver writes in place, and memory regions, which are entries of the data memory
protection table.
-/

namespace D3OS.Mlx4

open Lib Memory Rdma

/-- `ICM_PAGE_SHIFT`, `icm.rs:28`. -/
def icmPageShift : Nat := 12

/-- `PAGE_SHIFT`, `device.rs:17`. -/
def pageShift : Nat := 12

/-- `TABLE_CHUNK_SIZE`, `icm.rs:29`. -/
def tableChunkSize : Nat := 2 ^ 18

/-- `MAX_CHUNK_SIZE`, `icm.rs:30`: the mappings of 16 bytes that fit in a mailbox. -/
def maxChunkSize : Nat := pageSize / 16

/-- `uar_index_to_hw`, `device.rs:89`. -/
def uarIndexToHw (index : Nat) : Nat := (index <<< (pageShift - 12)) % 2 ^ 32

/-- `MappedPages`, `utils.rs:16`: a number of pages of host memory and its bytes. -/
structure MappedPages where
  numPages : Nat
  bytes : Nat → UInt8

/-- Write bytes through `as_slice_mut`, `utils.rs:80`. -/
def MappedPages.write (memory : MappedPages) (offset : Nat) (data : List UInt8) :
    Except Fault MappedPages :=
  if memory.numPages * pageSize < offset + data.length then
    .error (.err "Doesn't fit within pages")
  else .ok { memory with bytes := patch memory.bytes offset data }

/-- `MappedIcm`, `icm.rs:628`; `map_chunk` asserts the bound, `icm.rs:264`. -/
structure MappedIcm where
  memory : Option MappedPages
  cardVirtual : Nat
  numPages : Nat
  numPages_le : numPages ≤ maxChunkSize

/-- `IcmTable`, `icm.rs:218`. -/
structure IcmTable where
  virt : Nat
  icm : List MappedIcm

namespace IcmTable

/-- The search of `host_bytes_mut` for the chunk of a byte offset, `icm.rs:304-312`. -/
def findChunk (virt byteOffset : Nat) : List MappedIcm → Nat → Except Panic (Option Nat)
  | [], _ => .ok none
  | chunk :: rest, index => do
    let start ← subOrPanic chunk.cardVirtual virt
    if start ≤ byteOffset ∧ byteOffset < chunk.numPages * pageSize then .ok (some index)
    else findChunk virt byteOffset rest (index + 1)

/-- Write bytes through `host_bytes_mut`, `icm.rs:303`. -/
def writeHostBytes (table : IcmTable) (byteOffset : Nat) (data : List UInt8) :
    Except Fault IcmTable := do
  let found ← orPanic (findChunk table.virt byteOffset table.icm 0)
  let index ← okOr "chunk not found" found
  let chunk ← orPanic (unwrap table.icm[index]?)
  let memory ← okOr "ICM chunk has no memory" chunk.memory
  let memory ← memory.write (byteOffset % tableChunkSize) data
  .ok { table with icm := table.icm.set index { chunk with memory := some memory } }

private theorem findChunk_some {virt byteOffset index found : Nat} {icm : List MappedIcm}
    (h : findChunk virt byteOffset icm index = .ok (some found)) :
    byteOffset < maxChunkSize * pageSize := by
  induction icm generalizing index with
  | nil => cases h
  | cons chunk rest ih =>
    obtain ⟨start, _, h⟩ := of_bind h
    split at h
    next hin => exact Nat.lt_of_lt_of_le hin.2 (Nat.mul_le_mul_right _ chunk.numPages_le)
    next => exact ih h

private theorem lt_of_writeHostBytes {table table' : IcmTable} {byteOffset : Nat}
    {data : List UInt8}
    (h : table.writeHostBytes byteOffset data = .ok table') :
    byteOffset < maxChunkSize * pageSize := by
  obtain ⟨found, hfound, h⟩ := of_bind h
  obtain ⟨index, hindex, _⟩ := of_bind h
  cases hchunk : findChunk table.virt byteOffset table.icm 0 with
  | error reason =>
    rw [hchunk] at hfound
    cases hfound
  | ok found' =>
    rw [hchunk] at hfound
    cases hfound
    cases found with
    | none => cases hindex
    | some index' => exact findChunk_some hchunk

end IcmTable

/-- `MrTable`, `icm.rs:351`. -/
structure MrTable where
  mttTable : IcmTable
  reservedMtts : Nat
  offset : Nat

namespace MrTable

/-- The loop of `alloc_mtt_for_pages` over the pages, `icm.rs:384-402`. -/
def writeEntries (entrySz : Nat) (process : Process) (addr : Nat) :
    Nat → Nat → Page → EStateM Fault MrTable Unit
  | 0, _, _ => pure ()
  | count + 1, i, page => do
    let next ← lift (orPanic (page.add 1))
    let translated ← lift (orPanic
      (process.virtualAddressSpace.getPhys page.startAddress.asU64))
    let physical ← lift (okOr "page not mapped" translated)
    if physical.asU64 = 0 ∨ physical.asU64 % pageSize ≠ 0 then
      throw (.err "invalid physical address for MTT entry")
    else
      let relative ← lift (orPanic (mulOrPanic i entrySz))
      let byteOffset ← lift (orPanic (addOrPanic addr relative))
      let table ← get
      let mttTable ← lift (table.mttTable.writeHostBytes byteOffset
        (toBe 8 (physical.asU64 ||| 1)))
      set { table with mttTable := mttTable }
      writeEntries entrySz process addr count (i + 1) next

/-- `alloc_mtt_for_pages`, `icm.rs:372`. -/
def allocMttForPages (caps : Capabilities) (process : Process) (pages : PageRange) :
    EStateM Fault MrTable Nat := do
  if pages.isEmpty then throw (.err "No pages provides")
  else
    let table ← get
    let first ← lift (orPanic (addOrPanic table.reservedMtts table.offset))
    let addr ← lift (orPanic (mulOrPanic first caps.mttEntrySz.toNat))
    let offset ← lift (orPanic (addOrPanic table.offset pages.len))
    set { table with offset := offset }
    writeEntries caps.mttEntrySz.toNat process addr pages.len 0 pages.start
    return addr

private theorem writeEntries_ends {entrySz addr count : Nat} {process : Process} {page : Page}
    {table : MrTable} (hcount : 0 < count) :
    Ends (writeEntries entrySz process addr count 0 page) table
      (fun _ _ ↦ addr < maxChunkSize * pageSize) fun _ _ ↦ True := by
  obtain ⟨count, rfl⟩ : ∃ n, count = n + 1 := ⟨count - 1, by omega⟩
  simp only [writeEntries, ends_bind, ends_lift, ends_ite, ends_get, ends_set, ends_throw,
    yields_orPanic, yields_okOr, mulOrPanic_eq_ok, addOrPanic_eq_ok, implies_true, and_true,
    true_and]
  rintro next - translated - physical - - relative ⟨-, rfl⟩ byteOffset ⟨-, rfl⟩
  refine yields_of_eq (fun mttTable h ↦ ?_) fun _ _ ↦ trivial
  have haddr := IcmTable.lt_of_writeHostBytes h
  rw [Nat.zero_mul, Nat.add_zero] at haddr
  exact ends_of_forall (fun _ _ ↦ haddr) fun _ _ ↦ trivial

/-- The entries of a buffer start inside of the table. -/
theorem allocMttForPages_ends (caps : Capabilities) (process : Process) (pages : PageRange)
    (table : MrTable) :
    Ends (allocMttForPages caps process pages) table
      (fun addr _ ↦ addr < maxChunkSize * pageSize) fun _ _ ↦ True := by
  simp only [allocMttForPages, ends_bind, ends_lift, ends_ite, ends_get, ends_set, ends_throw,
    ends_pure, yields_orPanic, mulOrPanic_eq_ok, addOrPanic_eq_ok, implies_true, and_true,
    true_and]
  rintro hpages first ⟨-, rfl⟩ addr ⟨-, rfl⟩ offset -
  apply writeEntries_ends
  simp only [PageRange.isEmpty, decide_eq_true_eq, Nat.not_le] at hpages
  exact Nat.sub_pos_of_lt hpages

end MrTable

/-- What the verbs hand to the functions that create and destroy objects: the command
interface, the number allocators and the memory tables of the device. -/
structure Card where
  cmd : CommandInterface
  offsets : Offsets
  mrTable : MrTable

namespace Card

/-- Run a computation on the command interface. -/
def withCmd {α : Type} : EStateM Fault CommandInterface α → EStateM Fault Card α :=
  zoom Card.cmd fun cmd card ↦ { card with cmd := cmd }

/-- Run a computation on the number allocators. -/
def withOffsets {α : Type} : EStateM Fault Offsets α → EStateM Fault Card α :=
  zoom Card.offsets fun offsets card ↦ { card with offsets := offsets }

/-- Run a computation on the memory tables. -/
def withMrTable {α : Type} : EStateM Fault MrTable α → EStateM Fault Card α :=
  zoom Card.mrTable fun mrTable card ↦ { card with mrTable := mrTable }

variable {α : Type} {card : Card} {Q : α → Card → Prop} {E : Fault → Card → Prop}

/-- The rule for `withCmd`. -/
@[simp] theorem ends_withCmd {m : EStateM Fault CommandInterface α} :
    Ends (withCmd m) card Q E ↔ Ends m card.cmd (fun a cmd ↦ Q a { card with cmd := cmd })
      fun e cmd ↦ E e { card with cmd := cmd } := ends_zoom

/-- The rule for `withOffsets`. -/
@[simp] theorem ends_withOffsets {m : EStateM Fault Offsets α} :
    Ends (withOffsets m) card Q E ↔
      Ends m card.offsets (fun a offsets ↦ Q a { card with offsets := offsets })
        fun e offsets ↦ E e { card with offsets := offsets } := ends_zoom

/-- The rule for `withMrTable`. -/
@[simp] theorem ends_withMrTable {m : EStateM Fault MrTable α} :
    Ends (withMrTable m) card Q E ↔
      Ends m card.mrTable (fun a mrTable ↦ Q a { card with mrTable := mrTable })
        fun e mrTable ↦ E e { card with mrTable := mrTable } := ends_zoom

end Card

/-- `UserSlice`, `os/library/rdma/src/uverbs_uapi.rs:50`. -/
structure UserSlice where
  address : Nat
  size : Nat
  deriving DecidableEq, Repr

/-- `UserSlice::is_empty`, `uverbs_uapi.rs:78`. -/
def UserSlice.isEmpty (data : UserSlice) : Bool := data.address == 0 || data.size == 0

/-- `MemoryRegion`, `icm.rs:498`. -/
structure MemoryRegion where
  dmpt : Option DmptEntry
  deriving DecidableEq, Repr

namespace MemoryRegion

/-- `MemoryRegion::index`, `icm.rs:504`. -/
def index (mr : MemoryRegion) : Option Nat := mr.dmpt.map DmptEntry.index

/-- `MemoryRegion::destroy`, `icm.rs:511`. -/
def destroy : EStateM Fault (MemoryRegion × CommandInterface) Unit := do
  let (mr, _) ← get
  let index ← lift (okOr "memory region already destroyed" mr.index)
  let _ ← zoom Prod.snd (fun cmd s ↦ (s.1, cmd))
    (CommandInterface.executeCommand .hw2SwMpt .empty index)
  modify fun s ↦ ({ s.1 with dmpt := none }, s.2)

/-- A memory region is left as it was if the card refuses. -/
theorem ends_destroy {mr : MemoryRegion} {cmd : CommandInterface}
    {Q : Unit → MemoryRegion × CommandInterface → Prop}
    {E : Fault → MemoryRegion × CommandInterface → Prop} :
    Ends destroy (mr, cmd) Q E ↔
      (∀ index, mr.index = some index →
        (cmd.nextReply.status = .ok → Q () (⟨none⟩, cmd.record .hw2SwMpt .empty index)) ∧
        (cmd.nextReply.status ≠ .ok →
          E (.err cmd.nextReply.status.text) (mr, cmd.record .hw2SwMpt .empty index))) ∧
      (mr.index = none → E (.err "memory region already destroyed") (mr, cmd)) := by
  simp only [destroy, ends_bind, ends_get, ends_lift, ends_zoom, ends_modify, yields_okOr,
    CommandInterface.ends_executeCommand]

end MemoryRegion

/-- The entry that `alloc_dmpt` hands to the card, `icm.rs:427-458`. -/
def dmptEntry (index pd : Nat) (queuePair : Option Nat) (addr size mtt mttSize : Nat)
    (access : AccessFlags) : Except Fault DmptEntry := do
  let pd ← setField 24 pd
  let qpNumber ← setField 24 (queuePair.getD 0)
  let entitySize ← setField 21 (Nat.log2 pageSize)
  let mttAddr ← setField 40 mtt
  .ok {
    index := index
    rae := true
    pd := pd
    boundToQp := queuePair.isSome
    qpNumber := qpNumber
    start := addr
    length := size
    entitySize := entitySize
    mttAddr := mttAddr
    mttSize := mttSize
    mio := true
    region := true
    localRead := true
    localWrite := contains access AccessFlags.localWrite
    remoteRead := contains access AccessFlags.remoteRead
    remoteWrite := contains access AccessFlags.remoteWrite }

/-- `MrTable::alloc_dmpt`, `icm.rs:411`. The fields of the entry without a getter are those
handed to the card; `queuePair` is the number of the queue pair the region is bound to. -/
def allocDmpt (caps : Capabilities) (process : Process) (pd : Nat) (data : UserSlice)
    (queuePair : Option Nat) (access : AccessFlags) :
    EStateM Fault Card (MemoryRegion × MemoryRegionMetadata) := do
  if data.isEmpty then throw (.err "MR must not be empty")
  else
    let addr ← lift (okOr "MR address is not canonical" (VirtAddr.tryNew data.address))
    if process.virtualAddressSpace.accessOk addr data.size = false then
      throw (.err "User has no access to MR")
    else
      let stop ← lift (orPanic (addr.add data.size))
      let last ← lift (orPanic (subOrPanic stop.asU64 1))
      let lastAddr ← lift (orPanic (VirtAddr.new last))
      let endPage ← lift (orPanic ((Page.containingAddress lastAddr).add 1))
      let pages : PageRange := ⟨Page.containingAddress addr, endPage⟩
      let mtt ← Card.withMrTable (MrTable.allocMttForPages caps process pages)
      let index ← Card.withOffsets Offsets.allocDmpt
      let entry ← lift (dmptEntry index pd queuePair addr.asU64 data.size mtt pages.len access)
      let _ ← Card.withCmd
        (CommandInterface.executeCommand .sw2HwMpt (.memoryProtection entry) index)
      let reply ← Card.withCmd (CommandInterface.executeCommand .queryMpt .empty index)
      if reply.index ≠ index then throw (.panic .assertion)
      else
        let entry := { entry with index := reply.index, length := reply.length, lkey := reply.lkey }
        return (⟨some entry⟩, ⟨index, entry.key, entry.key⟩)

private theorem dmptEntry_yields (index pd : Nat) (queuePair : Option Nat)
    (addr size mtt mttSize : Nat) (access : AccessFlags) :
    Yields (dmptEntry index pd queuePair addr size mtt mttSize access)
      (fun entry ↦ entry.pd.toNat = pd) (fun e ↦ e.OnErr False) := by
  simp only [dmptEntry, yields_bind, yields_setField, yields_ok, Fault.onErr_panic, implies_true,
    and_true]
  intro hpd _ _ _
  rw [BitVec.toNat_ofNat, Nat.mod_eq_of_lt hpd]

/-- A memory region takes the next index and refers to the protection domain it was
created in. -/
theorem allocDmpt_ends (caps : Capabilities) (process : Process) (pd : Nat) (data : UserSlice)
    (queuePair : Option Nat) (access : AccessFlags) (card : Card) :
    Ends (allocDmpt caps process pd data queuePair access) card
      (fun r card' ↦
        (∃ entry, r.1.dmpt = some entry ∧ entry.index = card.offsets.nextDmpt ∧
          entry.pd.toNat = pd) ∧
        card'.offsets = { card.offsets with nextDmpt := card.offsets.nextDmpt + 1 })
      (fun e card' ↦ e.OnErr ((card'.offsets = card.offsets ∨
        card'.offsets = { card.offsets with nextDmpt := card.offsets.nextDmpt + 1 }) ∧
        (card.cmd.ReportsNext →
          Command.registered card'.cmd.log = Command.registered card.cmd.log))) := by
  simp only [allocDmpt, ends_bind, ends_lift, ends_ite, ends_throw, ends_pure,
    Card.ends_withCmd, Card.ends_withOffsets, Card.ends_withMrTable,
    CommandInterface.ends_executeCommand, yields_orPanic, yields_okOr, Fault.onErr_err,
    Fault.onErr_panic, implies_true, and_true, true_and, true_or]
  rintro - addr - - stop - last - lastAddr - endPage -
  refine (MrTable.allocMttForPages_ends _ _ _ _).mono (fun mtt mrTable _ ↦ ?_) ?_
  · refine (Offsets.allocDmpt_ends _).mono ?_ ?_
    · rintro index offsets ⟨rfl, rfl⟩
      refine (dmptEntry_yields _ _ _ _ _ _ _ _).mono (fun entry hentry ↦ ?_) ?_
      · refine ⟨fun hok ↦ ⟨fun _ hindex ↦ ?_, fun hrefused ↦ ⟨.inr rfl, fun hnext ↦ ?_⟩⟩,
          fun hrefused ↦ ⟨.inr rfl, fun _ ↦ Command.registered_append (.inl hrefused)⟩⟩
        · exact ⟨⟨_, rfl, not_not.mp hindex, hentry⟩, rfl⟩
        · refine absurd (hnext hok) ?_
          rw [CommandInterface.nextReply, CommandInterface.record, List.length_append] at hrefused
          exact hrefused
      · intro e he
        exact he.mono False.elim
    · intro e offsets he
      exact he.mono False.elim
  · intro e mrTable _
    cases e <;> simp

namespace Sample

/-- The capabilities of a small card. -/
def caps : Capabilities where
  logMaxQpSz := 14
  log2RsvdQps := 6
  log2RsvdCqs := 3
  log2RsvdMtts := 4
  log2RsvdMrws := 4
  numPorts := 2
  logMaxMsg := 31
  numRsvdUars := 2
  uarSz := 0
  bf := true
  numRsvdPds := 2
  logMaxPd := 17
  rdmarcEntrySz := 32
  qpcEntrySz := 256
  auxEntrySz := 32
  altcEntrySz := 64
  eqcEntrySz := 128
  cqcEntrySz := 128
  srqEntrySz := 128
  cMptEntrySz := 64
  mttEntrySz := 8
  dMptEntrySz := 128
  maxIcmSz := 2 ^ 40

/-- A card that accepts every command, with one chunk of translation entries; `QUERY_MPT`
reports the index that is next. -/
def card (caps : Capabilities) : Card where
  cmd := ⟨fun _ ↦ ⟨.ok, (Offsets.init caps).nextDmpt, 4096, 0⟩, []⟩
  offsets := Offsets.init caps
  mrTable := ⟨⟨0, [⟨some ⟨64, fun _ ↦ 0⟩, 0, 64, by decide⟩]⟩, 16, 0⟩

/-- The first page of user space. -/
def page : Page := ⟨0x10000000, by decide⟩

/-- The page behind it. -/
def nextPage : Page := ⟨0x10000001, by decide⟩

/-- A process with one page of memory at the start of user space. -/
def process (id : Nat) : Except Panic Process := do
  let (paging, _) ← Paging.new.map ⟨page, nextPage⟩ .user
    (PageTableFlags.present ||| PageTableFlags.writable ||| PageTableFlags.userAccessible)
    ascendingFrames
  let vas ← VirtualAddressSpace.new paging 48
  .ok ⟨id, vas⟩

end Sample

end D3OS.Mlx4
