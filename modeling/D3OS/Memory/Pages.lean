import D3OS.Base.Overflow
import D3OS.Memory.Address

/-!
# Page tables

`os/kernel/src/memory/pages.rs`. A page table of level `l + 1` is a `PageTable l`.
An entry of a table above level 1 owns the table it refers to; it is either unused
or refers to a frame other than frame 0, because the source unwraps the null pointer
of frame 0. An entry of a level 1 table is a frame with flags and is unused when
both are zero. The recursive functions follow the source loop by loop; the frames
handed out by the frame allocator are a parameter, the frames given back a list.
-/

namespace D3OS.Memory

open Lib

/-- `MemorySpace`, `os/kernel/src/memory/mod.rs:35`. -/
inductive MemorySpace where
  | kernel
  | user
  deriving DecidableEq, Repr

/-- The flag bits of a page table entry. -/
abbrev PageTableFlags := BitVec 64

namespace PageTableFlags

def present : PageTableFlags := 1
def writable : PageTableFlags := 1 <<< 1
def userAccessible : PageTableFlags := 1 <<< 2
def noCache : PageTableFlags := 1 <<< 4
def hugePage : PageTableFlags := 1 <<< 7
def noExecute : PageTableFlags := 1 <<< 63

/-- `bitflags` `contains`: every bit of `other` is set. -/
def contains (flags other : PageTableFlags) : Bool := flags &&& other == other

end PageTableFlags

/-- An entry of a level 1 table. -/
structure PageTableEntry where
  frame : PhysFrame
  flags : PageTableFlags
  deriving DecidableEq

namespace PageTableEntry

/-- The zero entry, which `set_unused` writes. -/
def unused : PageTableEntry := ⟨.zero, 0⟩

/-- `is_unused`: the entry is zero. -/
def isUnused (e : PageTableEntry) : Bool := e.frame.number == 0 && e.flags == 0

/-- `set_frame`, which asserts that the entry is not a huge page. -/
def setFrame (frame : PhysFrame) (flags : PageTableFlags) : Except Panic PageTableEntry :=
  if flags.contains PageTableFlags.hugePage then .error .assertion else .ok ⟨frame, flags⟩

end PageTableEntry

/-- A used entry of a table above level 1, together with the table it refers to. -/
structure TableEntry (α : Type) where
  frame : PhysFrame
  frame_ne : frame.number ≠ 0
  flags : PageTableFlags
  next : α

/-- The entries of a level 1 table. -/
abbrev Level1Table := Fin 512 → PageTableEntry

/-- The contents of a page table of level `l + 1` and of all tables below it. -/
def PageTable : Nat → Type
  | 0 => Level1Table
  | l + 1 => Fin 512 → Option (TableEntry (PageTable l))

namespace PageTable

/-- `PageTable::zero`: every entry is unused. -/
def zero : (l : Nat) → PageTable l
  | 0 => fun _ ↦ PageTableEntry.unused
  | _ + 1 => fun _ ↦ none

/-- `is_table_empty`, `pages.rs:464`. -/
def isTableEmpty : {l : Nat} → PageTable l → Bool
  | 0, table => (List.finRange 512).all fun i ↦ (table i).isUnused
  | _ + 1, table => (List.finRange 512).all fun i ↦ (table i).isNone

end PageTable

/-- The frame allocator as its callers see it: `supply n` is the first frame of the answer to
the `n`-th call of `alloc_frames`, none where the allocator panics; `freed` are all frames that
it was given back, `back` those of them that it has not handed out again. -/
structure FrameAllocator where
  supply : Nat → Option PhysFrame
  allocated : Nat
  freed : List PhysFrame
  back : List PhysFrame

namespace FrameAllocator

/-- `memory::alloc_frames(1).start`. -/
def allocFrame (fa : FrameAllocator) : Except Panic (PhysFrame × FrameAllocator) :=
  match fa.supply fa.allocated with
  | some frame => .ok (frame, { fa with
    allocated := fa.allocated + 1
    back := fa.back.filter (· ≠ frame) })
  | none => .error .outOfFrames

/-- `memory::alloc_frames`, `os/kernel/src/memory/mod.rs:66`, with the allocator of the default
features, which rounds the number of frames up to a power of two, `frames_lf.rs:160`. -/
def allocFrames (fa : FrameAllocator) (frameCount : Nat) :
    Except Panic (PhysFrameRange × FrameAllocator) := do
  let rounded ← unwrap (if frameCount = 0 then none else checkedNextPowerOfTwo 64 frameCount)
  let (start, fa) ← fa.allocFrame
  let stop ← start.add rounded
  let frames : PhysFrameRange := ⟨start, stop⟩
  .ok (frames, { fa with back := fa.back.filter fun f ↦ ¬ frames.Contains f })

/-- The allocator hands out a power of two of frames and frees none. -/
theorem allocFrames_eq_ok {fa fa' : FrameAllocator} {n : Nat} {frames : PhysFrameRange}
    (h : fa.allocFrames n = .ok (frames, fa')) :
    frames.len = (nextPowerOfTwo n).val ∧ frames.len ≠ 0 ∧ fa'.freed = fa.freed := by
  obtain ⟨rounded, hrounded, h⟩ := of_bind h
  obtain ⟨⟨start, fa₁⟩, hstart, h⟩ := of_bind h
  obtain ⟨stop, hstop, h⟩ := of_bind h
  cases h
  obtain ⟨hn, hpow⟩ : n ≠ 0 ∧ rounded = (nextPowerOfTwo n).val := by
    have hsome := unwrap_eq_ok.mp hrounded
    split at hsome
    next => cases hsome
    next hn => exact ⟨hn, (checkedNextPowerOfTwo_eq_some.mp hsome).1⟩
  have hlen : stop.number - start.number = rounded := by
    have hadd := PhysFrame.number_of_add hstop
    omega
  have hle := le_nextPowerOfTwo n
  refine ⟨hlen.trans hpow, fun hzero ↦ ?_, ?_⟩
  · have hzero' : stop.number - start.number = 0 := hzero
    omega
  · unfold FrameAllocator.allocFrame at hstart
    split at hstart
    next =>
      cases hstart
      rfl
    next => cases hstart

/-- `memory::free_frames` of a single frame. -/
def freeFrame (fa : FrameAllocator) (frame : PhysFrame) : FrameAllocator :=
  { fa with freed := fa.freed ++ [frame], back := fa.back ++ [frame] }

/-- `memory::free_frames`, `os/kernel/src/memory/mod.rs:73`. -/
def freeFrames (fa : FrameAllocator) (frames : PhysFrameRange) : FrameAllocator :=
  { fa with freed := fa.freed ++ frames.frames, back := fa.back ++ frames.frames }

end FrameAllocator

/-- `for (count, entry) in table.iter_mut().skip(start).enumerate()`, left when `count`
reaches `n`. -/
def forCount {σ : Type} (n : Nat) (body : PageTableEntry → σ → Except Panic (PageTableEntry × σ))
    (start : Nat) (table : Level1Table) (s : σ) : Except Panic (Level1Table × σ) := do
  let (table, _, s) ← scanFrom (fun entry (count, s) ↦
      if n ≤ count then .ok (entry, (count, s), true)
      else do
        let (entry, s) ← body entry s
        .ok (entry, (count + 1, s), false))
    start table (0, s)
  .ok (table, s)

/-- The number of pages of the range that a level 1 table takes from `startIndex` on. -/
def pagesInTable (pages : PageRange) (startIndex : Nat) : Except Panic Nat := do
  let len ← pages.stop.sub pages.start
  .ok (min len (512 - startIndex))

/-- `identity_map_kernel`, `pages.rs:411`. -/
def identityMapKernel (table : Level1Table) (pages : PageRange) (flags : PageTableFlags) :
    Except Panic (Level1Table × Nat) := do
  let startIndex := (pageTableIndex pages.start.startAddress 1).val
  let allocCount ← pagesInTable pages startIndex
  if h : pages.start.number < 2 ^ 40 then do
    let (table, _) ← forCount allocCount (fun _ frame ↦ do
        let next ← frame.add 1
        .ok (⟨frame, flags⟩, next))
      startIndex table ⟨pages.start.number, h⟩
    .ok (table, allocCount)
  else .error .physicalRange

/-- `map_user`, `pages.rs:429`. -/
def mapUser (table : Level1Table) (pages : PageRange) (flags : PageTableFlags)
    (fa : FrameAllocator) : Except Panic (Level1Table × Nat × FrameAllocator) := do
  let startIndex := (pageTableIndex pages.start.startAddress 1).val
  let allocCount ← pagesInTable pages startIndex
  let (table, fa) ← forCount allocCount (fun _ fa ↦ do
      let (frame, fa) ← fa.allocFrame
      let entry ← PageTableEntry.setFrame frame flags
      .ok (entry, fa))
    startIndex table fa
  .ok (table, allocCount, fa)

/-- `map_user_physical`, `pages.rs:447`. The loop state is the frame iterator. -/
def mapUserPhysical (table : Level1Table) (frames : PhysFrameRange) (pages : PageRange)
    (flags : PageTableFlags) : Except Panic (Level1Table × Nat) := do
  let startIndex := (pageTableIndex pages.start.startAddress 1).val
  let allocCount ← pagesInTable pages startIndex
  let (table, _) ← forCount allocCount (fun _ (iter : PhysFrameRange) ↦
      if iter.start.number < iter.stop.number then do
        let start ← iter.start.add 1
        let entry ← PageTableEntry.setFrame iter.start flags
        .ok (entry, ⟨start, iter.stop⟩)
      else .error .unwrapNone)
    startIndex table frames
  .ok (table, allocCount)

/-- The level 1 case of `map_in_table`, `pages.rs:268-277`. -/
def mapLevel1 (table : Level1Table) (frames : PhysFrameRange) (pages : PageRange)
    (space : MemorySpace) (flags : PageTableFlags) (fa : FrameAllocator) :
    Except Panic (Level1Table × Nat × FrameAllocator) :=
  match space with
  | .kernel => do
    let (table, n) ← identityMapKernel table pages flags
    .ok (table, n, fa)
  | .user =>
    if frames.start = frames.stop then mapUser table pages flags fa
    else do
      let (table, n) ← mapUserPhysical table frames pages flags
      .ok (table, n, fa)

/-- What `map_in_table` carries from one entry of a table to the next. -/
structure MapCursor where
  frames : PhysFrameRange
  pages : PageRange
  total : Nat
  alloc : FrameAllocator

/-- The table behind an entry, allocated and zeroed when the entry is unused,
`pages.rs:245-253`. -/
def nextLevelTable {l : Nat} (entry : Option (TableEntry (PageTable l)))
    (flags : PageTableFlags) (fa : FrameAllocator) :
    Except Panic (TableEntry (PageTable l) × FrameAllocator) :=
  match entry with
  | some e => .ok (e, fa)
  | none => do
    let (frame, fa) ← fa.allocFrame
    if flags.contains PageTableFlags.hugePage then .error .assertion
    else if h : frame.number ≠ 0 then .ok (⟨frame, h, flags, PageTable.zero l⟩, fa)
    else .error .unwrapNone

/-- The frames that are left when `n` of them are used, `pages.rs:259-261`. -/
def advanceFrames (frames : PhysFrameRange) (n : Nat) : Except Panic PhysFrameRange :=
  if frames.start.number < frames.stop.number then do
    let start ← frames.start.add n
    .ok ⟨start, frames.stop⟩
  else .ok frames

/-- One turn of the loop of `map_in_table` above level 1, `pages.rs:244-266`. -/
def mapEntry {l : Nat} (recurse : PageTable l → MapCursor →
      Except Panic (PageTable l × Nat × FrameAllocator))
    (flags : PageTableFlags) (entry : Option (TableEntry (PageTable l))) (cur : MapCursor) :
    Except Panic (Option (TableEntry (PageTable l)) × MapCursor × Bool) := do
  let (entry, fa) ← nextLevelTable entry flags cur.alloc
  let (next, allocatedPages, fa) ← recurse entry.next { cur with alloc := fa }
  let start ← cur.pages.start.add allocatedPages
  let frames ← advanceFrames cur.frames allocatedPages
  .ok (some { entry with next := next },
    ⟨frames, ⟨start, cur.pages.stop⟩, cur.total + allocatedPages, fa⟩,
    decide (cur.pages.stop.number ≤ start.number))

/-- `map_in_table`, `pages.rs:238`: the table after mapping, and the number of pages
that were mapped in it. -/
def mapInTable : (l : Nat) → PageTable l → PhysFrameRange → PageRange → MemorySpace →
    PageTableFlags → FrameAllocator → Except Panic (PageTable l × Nat × FrameAllocator)
  | 0, table, frames, pages, space, flags, fa => mapLevel1 table frames pages space flags fa
  | l + 1, table, frames, pages, space, flags, fa => do
    let startIndex := (pageTableIndex pages.start.startAddress (l + 2)).val
    let (table, cur) ← scanFrom (n := 512)
      (mapEntry (fun next cur ↦ mapInTable l next cur.frames cur.pages space flags cur.alloc) flags)
      startIndex table ⟨frames, pages, 0, fa⟩
    .ok (table, cur.total, cur.alloc)

/-- What `unmap_in_table` carries from one entry of a table to the next. -/
structure UnmapCursor where
  pages : PageRange
  total : Nat
  alloc : FrameAllocator

/-- One turn of the loop of `unmap_in_table` above level 1, `pages.rs:289-308`. An
unused entry is skipped and leaves `pages` as it was. -/
def unmapEntry {l : Nat} (recurse : PageTable l → UnmapCursor →
      Except Panic (PageTable l × Nat × FrameAllocator))
    (entry : Option (TableEntry (PageTable l))) (cur : UnmapCursor) :
    Except Panic (Option (TableEntry (PageTable l)) × UnmapCursor × Bool) :=
  match entry with
  | none => .ok (none, cur, false)
  | some e => do
    let (next, freedPages, fa) ← recurse e.next cur
    let start ← cur.pages.start.add freedPages
    let stop := decide (cur.pages.stop.number ≤ start.number)
    let pages : PageRange := ⟨start, cur.pages.stop⟩
    if next.isTableEmpty then
      .ok (none, ⟨pages, cur.total + freedPages, fa.freeFrame e.frame⟩, stop)
    else .ok (some { e with next := next }, ⟨pages, cur.total + freedPages, fa⟩, stop)

/-- The loop body of `unmap_in_table` at level 1, `pages.rs:318-326`. -/
def unmapLeafEntry (freePhysical : Bool) (entry : PageTableEntry) (fa : FrameAllocator) :
    Except Panic (PageTableEntry × FrameAllocator) :=
  if entry.isUnused then .ok (entry, fa)
  else if freePhysical then .ok (PageTableEntry.unused, fa.freeFrame entry.frame)
  else .ok (PageTableEntry.unused, fa)

/-- The level 1 case of `unmap_in_table`, `pages.rs:310-329`. -/
def unmapLevel1 (freePhysical : Bool) (table : Level1Table) (pages : PageRange)
    (fa : FrameAllocator) : Except Panic (Level1Table × Nat × FrameAllocator) := do
  let startIndex := (pageTableIndex pages.start.startAddress 1).val
  let freeCount ← pagesInTable pages startIndex
  let (table, fa) ← forCount freeCount (unmapLeafEntry freePhysical) startIndex table fa
  .ok (table, freeCount, fa)

/-- `unmap_in_table`, `pages.rs:284`: the table after unmapping, and the number of
pages the function reports as freed. -/
def unmapInTable (freePhysical : Bool) : (l : Nat) → PageTable l → PageRange →
    FrameAllocator → Except Panic (PageTable l × Nat × FrameAllocator)
  | 0, table, pages, fa => unmapLevel1 freePhysical table pages fa
  | l + 1, table, pages, fa => do
    let startIndex := (pageTableIndex pages.start.startAddress (l + 2)).val
    let (table, cur) ← scanFrom (n := 512)
      (unmapEntry (fun next cur ↦ unmapInTable freePhysical l next cur.pages cur.alloc))
      startIndex table ⟨pages, 0, fa⟩
    .ok (table, cur.total, cur.alloc)

/-- `drop_table`, `pages.rs:335`. A table is given back by the entry that refers to it, so the
frame of the root table, which is not kept, is left out. -/
def dropTable : (l : Nat) → PageTable l → FrameAllocator → FrameAllocator
  | 0, _, fa => fa
  | l + 1, table, fa => (List.finRange 512).foldl (fun fa i ↦
      match table i with
      | none => fa
      | some e => (dropTable l e.next fa).freeFrame e.frame) fa

/-- One turn of the loop of `copy_table` above level 1, `pages.rs:213-225`: a used entry gets a
new frame for the copy of the table behind it. -/
def copyEntry {l : Nat} (recurse : PageTable l → FrameAllocator →
      Except Panic (PageTable l × FrameAllocator))
    (entry : Option (TableEntry (PageTable l))) (fa : FrameAllocator) :
    Except Panic (Option (TableEntry (PageTable l)) × FrameAllocator × Bool) :=
  match entry with
  | none => .ok (none, fa, false)
  | some e => do
    let (frame, fa) ← fa.allocFrame
    if e.flags.contains PageTableFlags.hugePage then .error .assertion
    else if h : frame.number ≠ 0 then do
      let (next, fa) ← recurse e.next fa
      .ok (some ⟨frame, h, e.flags, next⟩, fa, false)
    else .error .unwrapNone

/-- `copy_table`, `pages.rs:210`. -/
def copyTable : (l : Nat) → PageTable l → FrameAllocator →
    Except Panic (PageTable l × FrameAllocator)
  | 0, table, fa => .ok (table, fa)
  | l + 1, table, fa => scanFrom (n := 512) (copyEntry (copyTable l)) 0 table fa

/-- `translate_in_table`, `pages.rs:393`. -/
def translateInTable : (l : Nat) → PageTable l → VirtAddr → Option PhysAddr
  | 0, table, addr =>
    let entry := table (pageTableIndex addr.alignDown 1)
    if entry.isUnused then none
    else some ⟨entry.frame.number * pageSize + (addr.asU64 - addr.alignDown.asU64), by
      have h := entry.frame.lt
      simp only [VirtAddr.alignDown, pageSize]
      omega⟩
  | l + 1, table, addr =>
    match table (pageTableIndex addr.alignDown (l + 2)) with
    | none => none
    | some e => translateInTable l e.next addr

/-- `Paging` with the depth 4 that every caller uses: its root table has level 4. -/
structure Paging where
  rootTable : PageTable 3

namespace Paging

/-- `Paging::new`: an empty root table. -/
def new : Paging := ⟨PageTable.zero 3⟩

/-- `Paging::from_other`, `pages.rs:72`. The frame of the new root table is not kept. -/
def fromOther (other : Paging) (fa : FrameAllocator) : Except Panic (Paging × FrameAllocator) := do
  let (frame, fa) ← fa.allocFrame
  if frame.number = 0 then .error .unwrapNone
  else do
    let (root, fa) ← copyTable 3 other.rootTable fa
    .ok (⟨root⟩, fa)

/-- `Paging::map`, `pages.rs:109`. -/
def map (paging : Paging) (pages : PageRange) (space : MemorySpace) (flags : PageTableFlags)
    (fa : FrameAllocator) : Except Panic (Paging × FrameAllocator) := do
  let frames : PhysFrameRange := ⟨.zero, .zero⟩
  let (root, _, fa) ← mapInTable 3 paging.rootTable frames pages space flags fa
  .ok (⟨root⟩, fa)

/-- `Paging::map_physical`, `pages.rs:119`, with its check of the two lengths. -/
def mapPhysical (paging : Paging) (frames : PhysFrameRange) (pages : PageRange)
    (space : MemorySpace) (flags : PageTableFlags) (fa : FrameAllocator) :
    Except Panic (Paging × FrameAllocator) := do
  let numFrames ← subOrPanic frames.stop.number frames.start.number
  let numPages ← pages.stop.sub pages.start
  if numFrames = numPages then do
    let (root, _, fa) ← mapInTable 3 paging.rootTable frames pages space flags fa
    .ok (⟨root⟩, fa)
  else .error .assertion

/-- `Paging::translate`, `pages.rs:148`. -/
def translate (paging : Paging) (addr : VirtAddr) : Option PhysAddr :=
  translateInTable 3 paging.rootTable addr

/-- `Paging::unmap`, `pages.rs:158`. -/
def unmap (paging : Paging) (pages : PageRange) (freePhysical : Bool) (fa : FrameAllocator) :
    Except Panic (Paging × FrameAllocator) := do
  let (root, _, fa) ← unmapInTable freePhysical 3 paging.rootTable pages fa
  .ok (⟨root⟩, fa)

end Paging

/-- The calls that change a tree of page tables. -/
inductive PagingCall where
  | map (pages : PageRange) (space : MemorySpace) (flags : PageTableFlags)
  | mapPhysical (frames : PhysFrameRange) (pages : PageRange) (space : MemorySpace)
      (flags : PageTableFlags)
  | unmap (pages : PageRange) (freePhysical : Bool)

/-- One call on a tree of page tables and the frame allocator. -/
def Paging.step (st : Paging × FrameAllocator) :
    PagingCall → Except Panic (Paging × FrameAllocator)
  | .map pages space flags => st.1.map pages space flags st.2
  | .mapPhysical frames pages space flags => st.1.mapPhysical frames pages space flags st.2
  | .unmap pages freePhysical => st.1.unmap pages freePhysical st.2

end D3OS.Memory
