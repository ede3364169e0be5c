import D3OS.Memory.DramRegions
import D3OS.Memory.FramesLf

/-!
# The memory setup of the boot sequence

`os/kernel/src/boot.rs:91-167`: the memory map of the firmware becomes the available regions,
the kernel heap is taken from them, and only then are the kernel image, the boot code of the
application processors, the initial ramdisk and the multiboot information marked as reserved.
-/

namespace D3OS.Memory

/-- `PhysAddr::align_up` to the page size. -/
def PhysAddr.alignUp (a : PhysAddr) : Except Panic PhysAddr :=
  PhysAddr.new ((a.asU64 + (pageSize - 1)) / pageSize * pageSize)

/-- `PhysFrame::containing_address`. -/
def PhysFrame.containingAddress (a : PhysAddr) : PhysFrame :=
  ⟨a.asU64 / pageSize, div_pageSize_lt a⟩

/-- The addresses of a range of frames. -/
def PhysFrameRange.bytes (r : PhysFrameRange) : Set Nat :=
  Set.Ico r.start.startAddress.asU64 r.stop.startAddress.asU64

namespace Boot

/-- `MemoryAreaType` of a multiboot memory map, as far as the scan distinguishes it. -/
inductive MemoryAreaType where
  | available
  | other
  deriving DecidableEq

/-- An entry of a multiboot memory map. -/
structure MemoryArea where
  typ : MemoryAreaType
  startAddress : Nat
  endAddress : Nat

/-- `MemoryType` of an EFI memory map, as far as the scan distinguishes it. -/
inductive MemoryType where
  | conventional
  | loaderCode
  | loaderData
  | bootServicesCode
  | bootServicesData
  | other
  deriving DecidableEq

/-- An entry of an EFI memory map. -/
structure MemoryDescriptor where
  ty : MemoryType
  physStart : Nat
  virtStart : Nat
  pageCount : Nat

/-- The memory map that the firmware or the bootloader provides. -/
inductive MemoryMap where
  | multiboot2 (areas : List MemoryArea)
  | efi (entries : List MemoryDescriptor)

/-- The frames of an available area, `boot.rs:531-534`. -/
def MemoryArea.frames (area : MemoryArea) : Except Panic PhysFrameRange := do
  let start ← PhysAddr.new area.startAddress
  let start ← start.alignUp
  let startFrame ← unwrap (PhysFrame.fromStartAddress start)
  let stop ← PhysAddr.new area.endAddress
  .ok ⟨startFrame, .containingAddress stop⟩

/-- The frames of a usable entry, `boot.rs:557-558`. -/
def MemoryDescriptor.frames (entry : MemoryDescriptor) : Except Panic PhysFrameRange := do
  let start ← PhysAddr.new entry.physStart
  let start ← start.alignUp
  let startFrame ← unwrap (PhysFrame.fromStartAddress start)
  let endFrame ← startFrame.add entry.pageCount
  .ok ⟨startFrame, endFrame⟩

/-- The ranges that the scan of the memory map passes to `insert_available`, in order:
`scan_multiboot2_memory_map`, `boot.rs:524`, or one of the two scans of an EFI map,
`boot.rs:541` and `boot.rs:570`. -/
def MemoryMap.ranges : MemoryMap → Except Panic (List PhysFrameRange)
  | .multiboot2 areas => (areas.filter fun area ↦ area.typ = .available).mapM MemoryArea.frames
  | .efi entries => (entries.filter fun entry ↦ entry.ty ≠ .other ∧ entry.virtStart = 0).mapM
      MemoryDescriptor.frames

/-- Where something lies in physical memory. -/
structure Extent where
  start : Nat
  stop : Nat
  ordered : start ≤ stop

/-- The frames of something that starts at a page boundary. -/
def alignedFrames (e : Extent) : Except Panic PhysFrameRange := do
  let start ← PhysAddr.new e.start
  let startFrame ← unwrap (PhysFrame.fromStartAddress start)
  let stop ← PhysAddr.new e.stop
  let stop ← stop.alignUp
  let endFrame ← unwrap (PhysFrame.fromStartAddress stop)
  .ok ⟨startFrame, endFrame⟩

/-- `kernel_image_region`, `boot.rs:461`. -/
def kernelImageRegion (image : Extent) : Except Panic PhysFrameRange := alignedFrames image

/-- `ap_boot_region`, `boot.rs:641`. -/
def apBootRegion (code : Extent) : Except Panic PhysFrameRange := alignedFrames code

/-- `get_initrd_frames`, `os/kernel/src/lib.rs:334`. -/
def getInitrdFrames (module : Extent) : Except Panic PhysFrameRange := alignedFrames module

/-- `get_multiboot_frames`, `boot.rs:474`. The last page is included only if the information
ends behind it. -/
def getMultibootFrames (information : Extent) : Except Panic PhysFrameRange := do
  let start ← PhysAddr.new information.start
  let stop ← PhysAddr.new information.stop
  .ok ⟨.containingAddress start, .containingAddress stop⟩

/-- What the boot sequence marks as reserved besides the heap. -/
structure Placement where
  kernelImage : Extent
  apBootCode : Extent
  initrd : Extent
  multiboot : Extent

/-- The regions of a placement in the order in which they are marked. -/
def Placement.regions (p : Placement) : Except Panic (List PhysFrameRange) := do
  let kernelImage ← kernelImageRegion p.kernelImage
  let apBoot ← apBootRegion p.apBootCode
  let initrd ← getInitrdFrames p.initrd
  let multiboot ← getMultibootFrames p.multiboot
  .ok [kernelImage, apBoot, initrd, multiboot]

/-- `KERNEL_HEAP_PAGES`, `os/kernel/src/consts.rs:22`. -/
def kernelHeapPages : Nat := 0x1000

/-- The result of the memory setup. -/
structure Setup where
  heapRegion : PhysFrameRange
  dram : Dram

/-- The memory setup of `start`, `boot.rs:91-160`. -/
def start (mode : Overflow) (map : MemoryMap) (placement : Placement) : Except Panic Setup := do
  let ranges ← map.ranges
  let d ← ranges.foldlM Dram.insertAvailable Dram.new
  let (heapRegion, d) ← d.bootAlloc mode kernelHeapPages
  let heapRegion ← unwrap heapRegion
  let d ← d.insertReserved heapRegion
  let regions ← placement.regions
  let d ← regions.foldlM Dram.insertReserved d
  let d ← d.finalize mode
  .ok ⟨heapRegion, d⟩

end Boot

end D3OS.Memory
