import D3OS.Lib.IntervalMap
import D3OS.Memory.Pages

/-!
# Virtual memory areas and address spaces

`os/kernel/src/memory/vma.rs` and `os/kernel/src/memory/vmm.rs`. An address space keeps
its areas in an ordered map under their start addresses. `alloc_at` looks at the two
neighbours of the requested range only, `alloc` searches the first gap that is large
enough. Functions that change the address space return the new one.
-/

namespace D3OS.Memory

open Lib

/-- `VmaType`, `vma.rs:18`. -/
inductive VmaType where
  | code
  | heap
  | environment
  | deviceMemory
  | userStack
  | kernelStack
  | kernelBuffer
  | anonymous
  | sharedMemory (id : Nat)
  deriving DecidableEq, Repr

/-- `TAG_SIZE`, `vma.rs:30`. -/
def tagSize : Nat := 16

/-- `VirtualMemoryArea`, `vma.rs:33`. -/
structure VirtualMemoryArea where
  space : MemorySpace
  range : PageRange
  typ : VmaType
  tag : List UInt8
  deriving DecidableEq

namespace VirtualMemoryArea

/-- `new_with_tag`, `vma.rs:42`; the tag is given by its bytes and padded with `'-'`. -/
def newWithTag (space : MemorySpace) (range : PageRange) (typ : VmaType) (tagStr : List UInt8) :
    VirtualMemoryArea :=
  let tag := tagStr.take tagSize
  ⟨space, range, typ, tag ++ List.replicate (tagSize - tag.length) 45⟩

/-- `start`, `vma.rs:75`. -/
def start (vma : VirtualMemoryArea) : VirtAddr := vma.range.start.startAddress

/-- `end`, `vma.rs:79`. -/
def stop (vma : VirtualMemoryArea) : VirtAddr := vma.range.stop.startAddress

/-- `check_and_enforce_consistency`, `vma.rs:96`. -/
def checkAndEnforceConsistency (vma : VirtualMemoryArea) (flags : PageTableFlags) :
    PageTableFlags :=
  match vma.space with
  | .user => flags ||| PageTableFlags.userAccessible
  | .kernel => flags &&& ~~~ PageTableFlags.userAccessible

/-- `is_equivalent_to`, `vma.rs:108`. -/
def isEquivalentTo (vma other : VirtualMemoryArea) : Bool :=
  vma.start == other.start && vma.stop == other.stop && vma.typ == other.typ &&
    vma.space == other.space && vma.tag == other.tag

end VirtualMemoryArea

/-- `VirtualAddressSpace`, `vmm.rs:104`. -/
structure VirtualAddressSpace where
  virtualMemoryAreas : Std.ExtTreeMap Nat VirtualMemoryArea
  pageTables : Paging
  firstUsableUserAddr : VirtAddr
  lastUsableUserAddr : VirtAddr

/-- `USER_SPACE_START`, `os/kernel/src/consts.rs:2`. -/
def userSpaceStart : VirtAddr := ⟨0x10000000000, by decide⟩

namespace VirtualAddressSpace

/-- `VirtualAddressSpace::new`, `vmm.rs:113`, on a processor with the given number of
linear address bits. -/
def new (pageTables : Paging) (linearAddressBits : Nat) : Except Panic VirtualAddressSpace := do
  let shift ← subOrPanic linearAddressBits 1
  if 64 ≤ shift then .error .overflow
  else
    let last ← VirtAddr.new (2 ^ shift - 1)
    .ok ⟨∅, pageTables, userSpaceStart, last⟩

/-- The checks of `alloc_at` against the bounds of the memory space, `vmm.rs:228-246`. -/
def withinBounds (vas : VirtualAddressSpace) (space : MemorySpace) (start stop : VirtAddr) : Bool :=
  match space with
  | .user => decide (vas.firstUsableUserAddr.asU64 ≤ start.asU64) &&
      decide (stop.asU64 ≤ vas.lastUsableUserAddr.asU64)
  | .kernel => decide (start.asU64 < vas.firstUsableUserAddr.asU64) &&
      decide (stop.asU64 ≤ vas.firstUsableUserAddr.asU64)

/-- The checks of `alloc_at` against the neighbours, `vmm.rs:257-269`. -/
def neighboursFree (vas : VirtualAddressSpace) (start stop : VirtAddr) : Bool :=
  (match lastUpTo vas.virtualMemoryAreas start.asU64 with
    | some (_, prev) => decide (prev.stop.asU64 ≤ start.asU64)
    | none => true) &&
  (match firstFrom vas.virtualMemoryAreas start.asU64 with
    | some (nextStart, _) => decide (stop.asU64 ≤ nextStart)
    | none => true)

/-- `alloc_at`, `vmm.rs:210`. -/
def allocAt (vas : VirtualAddressSpace) (firstPage : Page) (numPages : Nat) (space : MemorySpace)
    (typ : VmaType) (tag : List UInt8) :
    Except Panic (VirtualAddressSpace × Option VirtualMemoryArea) :=
  if numPages = 0 then .ok (vas, none)
  else
    match checkedMul numPages pageSize with
    | none => .ok (vas, none)
    | some sizeBytes =>
      match checkedAdd firstPage.startAddress.asU64 sizeBytes with
      | none => .ok (vas, none)
      | some endU64 => do
        let endAddr ← VirtAddr.new endU64
        match Page.fromStartAddress endAddr with
        | none => .ok (vas, none)
        | some endPage =>
          let start := firstPage.startAddress
          let vma := VirtualMemoryArea.newWithTag space ⟨firstPage, endPage⟩ typ tag
          if vas.withinBounds space start endAddr && vas.neighboursFree start endAddr then
            let areas := vas.virtualMemoryAreas.insert start.asU64 vma
            .ok ({ vas with virtualMemoryAreas := areas }, some vma)
          else .ok (vas, none)

/-- The loop of `alloc` over the areas in its search range and the check of the gap behind
them, `vmm.rs:303-340`: the start of a gap that is large enough, none if there is none. -/
def searchGap (sizeBytes : Nat) (searchEnd : VirtAddr) :
    List VirtualMemoryArea → VirtAddr → Except Panic (Option VirtAddr)
  | [], current => do
    let allocEnd ← current.add sizeBytes
    .ok (if allocEnd.asU64 ≤ searchEnd.asU64 then some current else none)
  | vma :: rest, current => do
    if vma.stop.asU64 ≤ vma.start.asU64 then .error .assertion
    else if (Page.fromStartAddress vma.start).isNone || (Page.fromStartAddress vma.stop).isNone then
      .error .assertion
    else
      let allocEnd ← current.add sizeBytes
      if allocEnd.asU64 ≤ vma.start.asU64 then .ok (some current)
      else
        let current := if current.asU64 < vma.stop.asU64 then vma.stop else current
        if searchEnd.asU64 ≤ current.asU64 then .ok none
        else searchGap sizeBytes searchEnd rest current

/-- The range in which `alloc` searches, `vmm.rs:288-292`. -/
def searchRange (vas : VirtualAddressSpace) : MemorySpace → VirtAddr × VirtAddr
  | .user => (vas.firstUsableUserAddr, vas.lastUsableUserAddr)
  | .kernel => (⟨0, by decide⟩, vas.firstUsableUserAddr)

/-- `alloc`, `vmm.rs:280`. -/
def alloc (vas : VirtualAddressSpace) (numPages : Nat) (space : MemorySpace) (typ : VmaType)
    (tag : List UInt8) : Except Panic (VirtualAddressSpace × Option VirtualMemoryArea) :=
  if numPages = 0 then .ok (vas, none)
  else
    match checkedMul numPages pageSize with
    | none => .ok (vas, none)
    | some sizeBytes => do
      let (searchStart, searchEnd) := vas.searchRange space
      if searchEnd.asU64 ≤ searchStart.asU64 then .ok (vas, none)
      else
        let areas := (vas.virtualMemoryAreas.toList.filter fun p ↦
          decide (searchStart.asU64 ≤ p.1) && decide (p.1 < searchEnd.asU64)).map Prod.snd
        let candidate ← searchGap sizeBytes searchEnd areas searchStart
        match candidate with
        | none => .ok (vas, none)
        | some start =>
          match Page.fromStartAddress start with
          | none => .ok (vas, none)
          | some page => vas.allocAt page numPages space typ tag

/-- `alloc_vma`, `vmm.rs:137`. -/
def allocVma (vas : VirtualAddressSpace) (startPage : Option Page) (numPages : Nat)
    (space : MemorySpace) (typ : VmaType) (tag : List UInt8) :
    Except Panic (VirtualAddressSpace × Option VirtualMemoryArea) :=
  if numPages = 0 then .ok (vas, none)
  else
    match startPage with
    | some page => vas.allocAt page numPages space typ tag
    | none => vas.alloc numPages space typ tag

/-- `is_address_within_vma`, `vmm.rs:640`. -/
def isAddressWithinVma (vas : VirtualAddressSpace) (address : Nat) :
    Except Panic (Option VirtualMemoryArea) := do
  let vaddr ← VirtAddr.new address
  match lastUpTo vas.virtualMemoryAreas vaddr.asU64 with
  | some (_, vma) => .ok (if vaddr.asU64 < vma.stop.asU64 then some vma else none)
  | none => .ok none

/-- `map_pfr_for_partial_vma`, `vmm.rs:170`; none stands for its `Err(-1)`. -/
def mapPfrForPartialVma (vas : VirtualAddressSpace) (vma : VirtualMemoryArea)
    (frameRange : PhysFrameRange) (pageRange : PageRange) (flags : PageTableFlags)
    (fa : FrameAllocator) : Except Panic (Option (VirtualAddressSpace × FrameAllocator)) :=
  if pageRange.start = pageRange.stop then .ok none
  else do
    let numFrames ← subOrPanic frameRange.stop.number frameRange.start.number
    let numPages ← pageRange.stop.sub pageRange.start
    if numFrames ≠ numPages then .ok none
    else
      let flags := vma.checkAndEnforceConsistency flags ||| PageTableFlags.present
      if pageRange.start.number < vma.range.start.number ∨
          vma.range.stop.number < pageRange.stop.number then .ok none
      else do
        let (paging, fa) ← vas.pageTables.mapPhysical frameRange pageRange vma.space flags fa
        .ok (some ({ vas with pageTables := paging }, fa))

/-- `map_pfr_for_vma`, `vmm.rs:163`. -/
def mapPfrForVma (vas : VirtualAddressSpace) (vma : VirtualMemoryArea)
    (frameRange : PhysFrameRange) (flags : PageTableFlags) (fa : FrameAllocator) :
    Except Panic (Option (VirtualAddressSpace × FrameAllocator)) :=
  vas.mapPfrForPartialVma vma frameRange vma.range flags fa

/-- `map_partial_vma`, `vmm.rs:356`. -/
def mapPartialVma (vas : VirtualAddressSpace) (vma : VirtualMemoryArea) (pageRange : PageRange)
    (space : MemorySpace) (flags : PageTableFlags) (fa : FrameAllocator) :
    Except Panic (VirtualAddressSpace × FrameAllocator) := do
  let foundVma ← unwrap vas.virtualMemoryAreas[vma.start.asU64]?
  if vma.isEquivalentTo foundVma = false then .error .assertion
  else if pageRange.start.startAddress.asU64 < vma.start.asU64 ∨
      vma.stop.asU64 < pageRange.stop.startAddress.asU64 then .error .assertion
  else do
    let (paging, fa) ← vas.pageTables.map pageRange space flags fa
    .ok ({ vas with pageTables := paging }, fa)

/-- `user_alloc_map_full`, `vmm.rs:518`; none where it returns `None`. -/
def userAllocMapFull (vas : VirtualAddressSpace) (startPage : Option Page) (numPages : Nat)
    (typ : VmaType) (tag : List UInt8) (fa : FrameAllocator) :
    Except Panic (Option (VirtualMemoryArea × VirtualAddressSpace × FrameAllocator)) := do
  let (vas, vma) ← vas.allocVma startPage numPages .user typ tag
  match vma with
  | none => .ok none
  | some vma => do
    let (paging, fa) ← vas.pageTables.map vma.range .user (PageTableFlags.present |||
      PageTableFlags.writable ||| PageTableFlags.userAccessible) fa
    .ok (some (vma, { vas with pageTables := paging }, fa))

/-- `user_alloc_map_partial`, `vmm.rs:534`; none where it returns `None`. -/
def userAllocMapPartial (vas : VirtualAddressSpace) (startPage : Option Page) (numPages : Nat)
    (typ : VmaType) (tag : List UInt8) (allocNumPages : Nat) (allocDownwards : Bool)
    (fa : FrameAllocator) :
    Except Panic (Option (VirtualMemoryArea × VirtualAddressSpace × FrameAllocator)) :=
  if numPages < allocNumPages then .ok none
  else do
    let (vas, vma) ← vas.allocVma startPage numPages .user typ tag
    match vma with
    | none => .ok none
    | some vma => do
      let pages ← (if allocDownwards then do
          let start ← vma.range.stop.subNumber allocNumPages
          .ok ⟨start, vma.range.stop⟩
        else do
          let stop ← vma.range.start.add allocNumPages
          .ok ⟨vma.range.start, stop⟩ : Except Panic PageRange)
      let (paging, fa) ← vas.pageTables.map pages .user (PageTableFlags.present |||
        PageTableFlags.writable ||| PageTableFlags.userAccessible) fa
      .ok (some (vma, { vas with pageTables := paging }, fa))

/-- `kernel_alloc_map_identity`, `vmm.rs:490`: the pages of the returned range are those asked for,
the area has a page for each frame. -/
def kernelAllocMapIdentity (vas : VirtualAddressSpace) (numPf : Nat) (flags : PageTableFlags)
    (typ : VmaType) (tag : List UInt8) (fa : FrameAllocator) :
    Except Panic (PageRange × VirtualAddressSpace × FrameAllocator) := do
  if numPf = 0 then .error .assertion
  else
    let (pfr, fa) ← fa.allocFrames numPf
    let startAddr ← VirtAddr.new (pfr.start.number * pageSize)
    let startPage ← unwrap (Page.fromStartAddress startAddr)
    let (vas, area) ← vas.allocVma (some startPage) pfr.len .kernel typ tag
    let vma ← unwrap area
    let mapped ← vas.mapPfrForVma vma pfr flags fa
    let (vas, fa) ← unwrap mapped
    let endPage ← startPage.add numPf
    .ok (⟨startPage, endPage⟩, vas, fa)

/-- `unmap_vma`, `vmm.rs:653`. The area stays in the map. -/
def unmapVma (vas : VirtualAddressSpace) (vma : VirtualMemoryArea) (freePhysical : Bool)
    (fa : FrameAllocator) : Except Panic (VirtualAddressSpace × FrameAllocator) := do
  let (paging, fa) ← vas.pageTables.unmap vma.range freePhysical fa
  .ok ({ vas with pageTables := paging }, fa)

/-- The loop of `Drop for VirtualAddressSpace`, `vmm.rs:660`. -/
def unmapAreas : List VirtualMemoryArea → Paging → FrameAllocator →
    Except Panic (Paging × FrameAllocator)
  | [], paging, fa => .ok (paging, fa)
  | vma :: rest, paging, fa =>
    if vma.typ = .deviceMemory then unmapAreas rest paging fa
    else do
      let (paging, fa) ← paging.unmap vma.range true fa
      unmapAreas rest paging fa

/-- `Drop for VirtualAddressSpace`, `vmm.rs:660`, and of the page tables that it owns,
`pages.rs:50`. -/
def drop (vas : VirtualAddressSpace) (fa : FrameAllocator) : Except Panic FrameAllocator := do
  let (paging, fa) ← unmapAreas (vas.virtualMemoryAreas.toList.map Prod.snd) vas.pageTables fa
  .ok (dropTable 3 paging.rootTable fa)

/-- `get_phys`, `vmm.rs:575`. -/
def getPhys (vas : VirtualAddressSpace) (virtAddr : Nat) : Except Panic (Option PhysAddr) := do
  let addr ← VirtAddr.new virtAddr
  .ok (vas.pageTables.translate addr)

/-- `access_ok`, `vmm.rs:370`. -/
def accessOk (vas : VirtualAddressSpace) (addr : VirtAddr) (len : Nat) : Bool :=
  if len = 0 then false
  else
    match checkedAdd addr.asU64 (len - 1) with
    | some stop => decide (vas.firstUsableUserAddr.asU64 ≤ addr.asU64) &&
        decide (stop ≤ vas.lastUsableUserAddr.asU64)
    | none => false

end VirtualAddressSpace

/-- `Process`, `os/kernel/src/process/process.rs:40`, named by its UUID. -/
structure Process where
  id : Nat
  virtualAddressSpace : VirtualAddressSpace

end D3OS.Memory
