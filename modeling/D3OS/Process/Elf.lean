import D3OS.Memory.FullMapping
import D3OS.Memory.SpaceCopy

/-!
# Loading a program

`parse_and_map_elf_bin`, `os/kernel/src/process/thread.rs:376`. Every loadable segment gets an
area at its address; its bytes are copied from the file and the rest of its pages is zeroed.
The headers come from the parser and may have any value.
-/

namespace D3OS.Thread

open Memory

/-- `PT_LOAD`. -/
def ptLoad : Nat := 1

/-- A program header, as far as the loader reads it. -/
structure ProgramHeader where
  pType : Nat
  pOffset : Nat
  pVaddr : Nat
  pFilesz : Nat
  pMemsz : Nat
  offset_lt : pOffset < u64Bound

/-- What the parser returns. -/
structure Elf where
  entry : Nat
  programHeaders : List ProgramHeader

/-- `ProcessLoadError`, `thread.rs:671`. -/
inductive ProcessLoadError where
  | notFound
  | elfInvalid
  deriving DecidableEq, Repr

/-- `u64::div_ceil`. -/
def divCeil (a b : Nat) : Nat := if a % b = 0 then a / b else a / b + 1

/-- The new process, the frame allocator and what was copied. -/
structure Load where
  space : VirtualAddressSpace
  alloc : FrameAllocator
  transfer : Transfer

namespace ProgramHeader

/-- The headers that the loader passes over, `thread.rs:391`. -/
def skipped (header : ProgramHeader) : Bool :=
  header.pType != ptLoad || header.pVaddr == 0 || header.pMemsz == 0 ||
    decide (header.pMemsz < header.pFilesz)

/-- `total_page_count`, `thread.rs:397`. -/
def pages (header : ProgramHeader) : Nat := divCeil header.pMemsz pageSize

/-- The address is a start of a page. -/
def aligned (header : ProgramHeader) : Bool := header.pVaddr % pageSize == 0

end ProgramHeader

/-- The pages behind the bytes of the file, `thread.rs:426-446`. -/
def zeroBss (space : VirtualAddressSpace) (vma : VirtualMemoryArea)
    (totalPageCount codePageCount : Nat) (t : Transfer) : Except Panic Transfer :=
  if codePageCount < totalPageCount then
    space.zeroPages vma.range.start.startAddress.asU64 (totalPageCount - codePageCount)
      (codePageCount * pageSize) t
  else .ok t

/-- The closure of `parse_and_map_elf_bin`, `thread.rs:389-447`. -/
def mapSegment (src : Source) (name : List UInt8) (header : ProgramHeader) (st : Load) :
    Except Panic (Except ProcessLoadError Unit × Load) :=
  if header.skipped then .ok (.ok (), st)
  else do
    let codePageCount := divCeil header.pFilesz pageSize
    let addr ← VirtAddr.new header.pVaddr
    match Page.fromStartAddress addr with
    | none => .ok (.error .elfInvalid, st)
    | some virtStart => do
      let area ← st.space.userAllocMapFull (some virtStart) header.pages .code name st.alloc
      let (vma, space, alloc) ← unwrap area
      let t ← space.copyToAddrSpace vma src header.pOffset header.pFilesz st.transfer
      let t ← zeroBss space vma header.pages codePageCount t
      .ok (.ok (), ⟨space, alloc, t⟩)

/-- `try_for_each` over the loadable headers. -/
def mapSegments (src : Source) (name : List UInt8) :
    List ProgramHeader → Load → Except Panic (Except ProcessLoadError Unit × Load)
  | [], st => .ok (.ok (), st)
  | header :: rest, st => do
    let (result, st) ← mapSegment src name header st
    match result with
    | .error e => .ok (.error e, st)
    | .ok () => mapSegments src name rest st

/-- `parse_and_map_elf_bin`, `thread.rs:376`. -/
def parseAndMapElfBin (parse : List UInt8 → Option Elf) (src : Source) (name : List UInt8)
    (st : Load) : Except Panic (Except ProcessLoadError Nat × Load) :=
  match parse src.buffer with
  | none => .ok (.error .elfInvalid, st)
  | some elf =>
    if elf.entry = 0 then .ok (.error .elfInvalid, st)
    else do
      let (result, st) ← mapSegments src name
        (elf.programHeaders.filter fun header ↦ header.pType == ptLoad) st
      .ok (result.map fun _ ↦ elf.entry, st)

namespace ProgramHeader

/-- The address lies in a page of the segment. -/
def Spans (header : ProgramHeader) (x : Nat) : Prop :=
  header.pVaddr ≤ x ∧ x < header.pVaddr + header.pages * pageSize

/-- The pages of the segment lie in the user range. -/
def Within (vas : VirtualAddressSpace) (header : ProgramHeader) : Prop :=
  vas.firstUsableUserAddr.asU64 ≤ header.pVaddr ∧
    header.pVaddr + header.pages * pageSize ≤ vas.lastUsableUserAddr.asU64

/-- Two segments have no page in common. -/
def Apart (header other : ProgramHeader) : Prop :=
  header.pVaddr + header.pages * pageSize ≤ other.pVaddr ∨
    other.pVaddr + other.pages * pageSize ≤ header.pVaddr

/-- The bytes of the segment in the file lie in the buffer. -/
def InBuffer (header : ProgramHeader) (buffer : List UInt8) : Prop :=
  header.pFilesz ≠ 0 → header.pOffset + header.pFilesz ≤ buffer.length

/-- The byte that the segment has at an offset, none if the file does not have it. -/
def expected (header : ProgramHeader) (buffer : List UInt8) (i : Nat) : Option UInt8 :=
  if i < header.pFilesz then buffer[header.pOffset + i]? else some 0

/-- The bytes of the file and the zeroes up to the end of the last page. -/
def extent (header : ProgramHeader) : Nat := max header.pFilesz (header.pages * pageSize)

/-- The segment is mapped with its bytes. -/
def Mapped (header : ProgramHeader) (buffer : List UInt8) (st : Load) : Prop :=
  ∀ i < header.extent, ∃ a p vma, VirtAddr.tryNew (header.pVaddr + i) = some a ∧
    st.space.Has vma ∧ vma.range.ContainsAddr a ∧ st.space.pageTables.translate a = some p ∧
    header.expected buffer i = some (st.transfer.mem.byte p.asU64)

/-- Other segments give the segment the bytes that it should have. -/
def Covered (header : ProgramHeader) (buffer : List UInt8) (others : List ProgramHeader) : Prop :=
  ∀ i < header.extent, ∃ other ∈ others, other.Spans (header.pVaddr + i) ∧
    header.expected buffer i = other.expected buffer (header.pVaddr + i - other.pVaddr)

/-- The pages of a segment are as few as can hold it. -/
theorem pages_eq (header : ProgramHeader) :
    header.pMemsz ≤ header.pages * pageSize ∧
      header.pages * pageSize < header.pMemsz + pageSize := by
  by_cases h : header.pMemsz % pageSize = 0
  · rw [pages, divCeil, if_pos h]
    simp only [pageSize] at h ⊢
    omega
  · rw [pages, divCeil, if_neg h]
    simp only [pageSize] at h ⊢
    omega

end ProgramHeader

/-- The segments that are mapped: those before the first one whose address is not a start of
a page. -/
def mappedHeaders (headers : List ProgramHeader) : List ProgramHeader :=
  (headers.filter fun header ↦ !header.skipped).takeWhile ProgramHeader.aligned

/-- The header that makes the loader return an error. -/
def rejectedHeader (headers : List ProgramHeader) : Option ProgramHeader :=
  ((headers.filter fun header ↦ !header.skipped).dropWhile ProgramHeader.aligned).head?

/-- What the headers of a file have to be like. -/
structure Loadable (vas : VirtualAddressSpace) (buffer : List UInt8)
    (headers : List ProgramHeader) : Prop where
  within : ∀ header ∈ mappedHeaders headers, header.Within vas ∧ header.InBuffer buffer
  apart : (mappedHeaders headers).Pairwise ProgramHeader.Apart
  canonical : ∀ header, rejectedHeader headers = some header →
    (VirtAddr.tryNew header.pVaddr).isSome
  covered : rejectedHeader headers = none → ∀ header ∈ headers, header.pType = ptLoad →
    header.pVaddr ≠ 0 → header.pMemsz ≠ 0 → header.pMemsz < header.pFilesz →
      header.Covered buffer (mappedHeaders headers)

/-- A new process and no copy so far. -/
def Load.start (vas : VirtualAddressSpace) (fa : FrameAllocator) (bytes : Nat → UInt8) : Load :=
  ⟨vas, fa, ⟨⟨bytes, []⟩, []⟩⟩

end D3OS.Thread
