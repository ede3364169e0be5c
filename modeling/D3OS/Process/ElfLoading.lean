import D3OS.Process.ElfSegments

/-!
# Which files can be loaded

A file is loaded without a panic, without a read outside of the buffer and with the bytes of
all its segments exactly when its headers are `Loadable`.
-/

namespace D3OS.Thread

open Lib Memory

section

variable {vas : VirtualAddressSpace} {fa : FrameAllocator} {src : Source}
  {segments : List Segment} {st : Load} {header : ProgramHeader}

private theorem expected_eq (hlen : src.buffer.length < 2 ^ 63) (hin : header.InBuffer src.buffer)
    (i : Nat) : header.expected src.buffer i =
      some (VirtualAddressSpace.segmentByte src header.pOffset header.pFilesz i) := by
  by_cases hi : i < header.pFilesz
  · have hlt : header.pOffset + i < src.buffer.length := by
      have := hin (by omega)
      omega
    have hmod : (header.pOffset + i) % u64Bound = header.pOffset + i :=
      Nat.mod_eq_of_lt (by simp only [u64Bound]; omega)
    rw [ProgramHeader.expected, if_pos hi, VirtualAddressSpace.segmentByte, if_pos hi, Source.byte,
      hmod, List.getD_eq_getElem?_getD, List.getElem?_eq_getElem hlt, Option.getD_some]
  · rw [ProgramHeader.expected, if_neg hi, VirtualAddressSpace.segmentByte, if_neg hi]

section

variable (h : LoadInv vas fa src segments st) (hnone : fa.NoneTwice st.alloc)
  (hlen : src.buffer.length < 2 ^ 63)
include h hnone hlen

private theorem LoadInv.byte {s : Segment} (hs : s ∈ segments)
    (hin : s.1.InBuffer src.buffer) {a : VirtAddr} (hspans : s.1.Spans a.asU64) :
    ∃ p, st.space.pageTables.translate a = some p ∧
      s.1.expected src.buffer (a.asU64 - s.1.pVaddr) = some (st.transfer.mem.byte p.asU64) := by
  obtain ⟨x, hx⟩ := Nat.exists_eq_add_of_le hspans.1
  have hlt : x < s.1.pages * pageSize := by
    have := hspans.2
    omega
  have hk : x / pageSize < s.2.length := by
    rw [h.length s hs]
    exact Nat.div_lt_of_lt_mul (by rwa [Nat.mul_comm])
  have hf := List.getElem?_eq_getElem hk
  have ho : x % pageSize < pageSize := Nat.mod_lt _ (by decide)
  have hsplit : x / pageSize * pageSize + x % pageSize = x := by
    rw [Nat.mul_comm, Nat.div_add_mod]
  have hinside := h.inside s hs _ _ hf _ ho a (by rw [hx, Nat.add_assoc, hsplit])
  have hcontent := h.content hnone s hs _ _ hf _ ho
  obtain ⟨p, hp, heq⟩ := Option.map_eq_some_iff.mp hinside
  refine ⟨p, hp, ?_⟩
  rw [heq, hcontent, hsplit, hx, Nat.add_sub_cancel_left, expected_eq hlen hin]

private theorem LoadInv.mapped_iff (hin : ∀ s ∈ segments, s.1.InBuffer src.buffer)
    (hlow : ∀ s ∈ segments, s.1.pVaddr + s.1.pages * pageSize ≤ 2 ^ 47) :
    header.Mapped src.buffer st ↔ header.Covered src.buffer (segments.map Prod.fst) := by
  constructor
  · intro hmapped i hi
    obtain ⟨a, p, vma, ha, hvma, hcontains, hp, hbyte⟩ := hmapped i hi
    obtain ⟨s, hs, hspans⟩ := (h.areas a).mp ⟨vma, hvma, hcontains⟩
    obtain ⟨p', hp', hbyte'⟩ := h.byte hnone hlen hs (hin s hs) hspans
    rw [hp] at hp'
    cases hp'
    rw [VirtAddr.tryNew_eq_some ha] at hspans hbyte'
    exact ⟨s.1, List.mem_map_of_mem hs, hspans, hbyte.trans hbyte'.symm⟩
  · intro hcovered i hi
    obtain ⟨_, hother, hspans, hexpected⟩ := hcovered i hi
    obtain ⟨s, hs, rfl⟩ := List.mem_map.mp hother
    have hlt : header.pVaddr + i < 2 ^ 47 := lt_of_lt_of_le hspans.2 (hlow s hs)
    let a : VirtAddr := ⟨header.pVaddr + i, .inl hlt⟩
    obtain ⟨vma, hvma, hcontains⟩ := (h.areas a).mpr ⟨s, hs, hspans⟩
    obtain ⟨p, hp, hbyte⟩ := h.byte hnone hlen hs (hin s hs) (a := a) hspans
    exact ⟨a, p, vma, VirtAddr.tryNew_asU64 a, hvma, hcontains, hp, hexpected.trans hbyte⟩

end

private theorem LoadInv.reads_iff (h : LoadInv vas fa src segments st)
    (hlen : src.buffer.length < 2 ^ 63) :
    (∀ x, st.transfer.WasRead x → x < src.buffer.length) ↔
      ∀ s ∈ segments, s.1.InBuffer src.buffer := by
  constructor
  · intro hreads s hs hne
    by_contra hover
    -- The first byte behind the buffer is read, or the first one of the segment.
    by_cases hstart : src.buffer.length ≤ s.1.pOffset
    · have hread := hreads _ ((h.reads _).mpr ⟨s, hs, 0, Nat.pos_of_ne_zero hne, rfl⟩)
      rw [Nat.add_zero, Nat.mod_eq_of_lt s.1.offset_lt] at hread
      omega
    · have hread := hreads _ ((h.reads _).mpr
        ⟨s, hs, src.buffer.length - s.1.pOffset, by omega, rfl⟩)
      rw [Nat.add_sub_of_le (by omega), Nat.mod_eq_of_lt (by simp only [u64Bound]; omega)] at hread
      omega
  · intro hin x hx
    obtain ⟨s, hs, j, hj, rfl⟩ := (h.reads x).mp hx
    have hle := hin s hs (by omega)
    rw [Nat.mod_eq_of_lt (by simp only [u64Bound]; omega)]
    omega

private theorem covered_self {buffer : List UInt8} {others : List ProgramHeader}
    (hmem : header ∈ others) (hfile : header.pFilesz ≤ header.pMemsz) :
    header.Covered buffer others := by
  intro i hi
  have hpages := header.pages_eq
  have hextent : header.extent = header.pages * pageSize := Nat.max_eq_right (by omega)
  refine ⟨header, hmem, ⟨Nat.le_add_right _ _, by omega⟩, ?_⟩
  rw [Nat.add_sub_cancel_left]

end

section

variable {vas : VirtualAddressSpace} {fa : FrameAllocator} {src : Source}

private theorem inv_start (hempty : vas.virtualMemoryAreas = ∅) (fa : FrameAllocator)
    (src : Source) (bytes : Nat → UInt8) :
    LoadInv vas fa src [] (Load.start vas fa bytes) := by
  have hareas : ∀ vma, ¬ vas.Has vma := by
    rintro vma ⟨k, hk⟩
    rw [hempty] at hk
    simp at hk
  refine ⟨VirtualAddressSpace.wellFormed_of_empty hempty, rfl, rfl, .refl fa, le_rfl, ?_, nofun,
    nofun, nofun, nofun, nofun, ?_⟩
  · intro a
    constructor
    · rintro ⟨vma, hvma, -⟩
      exact absurd hvma (hareas vma)
    · rintro ⟨s, hs, -⟩
      cases hs
  · intro x
    constructor
    · rintro ⟨r, hr, -⟩
      cases hr
    · rintro ⟨s, hs, -⟩
      cases hs

private theorem new_space {paging : Paging} {bits : Nat}
    (h : VirtualAddressSpace.new paging bits = .ok vas) :
    vas.virtualMemoryAreas = ∅ ∧ vas.lastUsableUserAddr.asU64 < 2 ^ 47 := by
  obtain ⟨shift, -, h⟩ := of_bind h
  split at h
  next => cases h
  next hshift =>
    obtain ⟨last, hlast, h⟩ := of_bind h
    cases h
    refine ⟨rfl, ?_⟩
    have heq := VirtAddr.tryNew_eq_some (VirtAddr.new_eq_ok.mp hlast)
    have hcanonical := last.canonical
    have hle : 2 ^ shift ≤ 2 ^ 63 := Nat.pow_le_pow_right (by decide) (by omega)
    show last.asU64 < _
    omega

private theorem filter_live (headers : List ProgramHeader) :
    (headers.filter fun header ↦ header.pType == ptLoad).filter (fun header ↦ !header.skipped) =
      headers.filter fun header ↦ !header.skipped := by
  rw [List.filter_filter]
  refine List.filter_congr fun header _ ↦ ?_
  cases htype : header.pType == ptLoad with
  | true => rw [Bool.and_true]
  | false =>
    have hskip : header.skipped = true := by
      rw [ProgramHeader.skipped, bne, htype]
      rfl
    rw [hskip]
    rfl

private theorem skipped_eq {header : ProgramHeader} (htype : header.pType = ptLoad)
    (hvaddr : header.pVaddr ≠ 0) (hmem : header.pMemsz ≠ 0) :
    header.skipped = decide (header.pMemsz < header.pFilesz) := by
  simp [ProgramHeader.skipped, htype, hvaddr, hmem]

/-- What the loop has done when it returns, in terms of the headers. -/
private structure Result (vas : VirtualAddressSpace) (buffer : List UInt8)
    (headers : List ProgramHeader) (r : Except ProcessLoadError Unit × Load) : Prop where
  within : ∀ header ∈ mappedHeaders headers, header.Within vas
  apart : (mappedHeaders headers).Pairwise ProgramHeader.Apart
  canonical : ∀ header, rejectedHeader headers = some header →
    (VirtAddr.tryNew header.pVaddr).isSome
  result : r.1 = .ok () ↔ rejectedHeader headers = none
  reads : (∀ x, r.2.transfer.WasRead x → x < buffer.length) ↔
    ∀ header ∈ mappedHeaders headers, header.InBuffer buffer
  mapped : (∀ header ∈ mappedHeaders headers, header.InBuffer buffer) →
    ∀ header : ProgramHeader,
      header.Mapped buffer r.2 ↔ header.Covered buffer (mappedHeaders headers)

private theorem mapSegments_result (hempty : vas.virtualMemoryAreas = ∅)
    (hlast : vas.lastUsableUserAddr.asU64 < 2 ^ 47) (hstock : fa.Stocked)
    (hlen : src.buffer.length < 2 ^ 63) (name : List UInt8) (bytes : Nat → UInt8)
    (headers : List ProgramHeader) :
    Yields (mapSegments src name (headers.filter fun header ↦ header.pType == ptLoad)
        (Load.start vas fa bytes))
      (fun r ↦ fa.NoneTwice r.2.alloc → Result vas src.buffer headers r)
      (fun _ ↦ ¬ ((∀ header ∈ mappedHeaders headers, header.Within vas) ∧
        (mappedHeaders headers).Pairwise ProgramHeader.Apart ∧
        ∀ header, rejectedHeader headers = some header →
          (VirtAddr.tryNew header.pVaddr).isSome)) := by
  rw [mapSegments_filter, filter_live]
  have hlive : ∀ header ∈ headers.filter fun header ↦ !header.skipped, header.skipped = false := by
    intro header hmem
    simpa using (List.mem_filter.mp hmem).2
  refine (mapSegments_yields name hstock hlast hlive (inv_start hempty fa src bytes)).mono ?_ ?_
  · rintro r ⟨hplaced, hresult, segments, hheaders, hinv⟩ hnone
    obtain ⟨hwithin, hpair, hhead⟩ := placed_iff.mp hplaced
    rw [List.nil_append] at hinv
    have hbuffer : (∀ s ∈ segments, s.1.InBuffer src.buffer) ↔
        ∀ header ∈ mappedHeaders headers, header.InBuffer src.buffer := by
      rw [mappedHeaders, ← hheaders, List.forall_mem_map]
    refine ⟨fun header h ↦ (hwithin header h).1, hpair, hhead, hresult,
      (hinv.reads_iff hlen).trans hbuffer, fun hin header ↦ ?_⟩
    have hlow : ∀ s ∈ segments, s.1.pVaddr + s.1.pages * pageSize ≤ 2 ^ 47 := by
      intro s hs
      have hmem : s.1 ∈ segments.map Prod.fst := List.mem_map_of_mem hs
      rw [hheaders] at hmem
      have := (hwithin s.1 hmem).1.2
      omega
    rw [hinv.mapped_iff hnone hlen (hbuffer.mpr hin) hlow, hheaders]
    rfl
  · rintro _ hnot ⟨hwithin, hpair, hhead⟩
    exact hnot (placed_iff.mpr ⟨fun header h ↦ ⟨hwithin header h, nofun⟩, hpair, hhead⟩)

private theorem mem_mappedHeaders {headers : List ProgramHeader} {header : ProgramHeader}
    (hnoerror : rejectedHeader headers = none) (hmem : header ∈ headers)
    (hlive : header.skipped = false) : header ∈ mappedHeaders headers := by
  have hall := List.takeWhile_append_dropWhile (p := ProgramHeader.aligned)
    (l := headers.filter fun header ↦ !header.skipped)
  rw [List.head?_eq_none_iff.mp hnoerror, List.append_nil] at hall
  rw [mappedHeaders, hall, List.mem_filter, hlive]
  exact ⟨hmem, rfl⟩

private theorem mapSegments_loadable {paging : Paging} {bits : Nat}
    (hnew : VirtualAddressSpace.new paging bits = .ok vas) (hstock : fa.Stocked)
    (hlen : src.buffer.length < 2 ^ 63) (name : List UInt8) (bytes : Nat → UInt8)
    (headers : List ProgramHeader)
    (hnone : ∀ r, mapSegments src name (headers.filter fun header ↦ header.pType == ptLoad)
      (Load.start vas fa bytes) = .ok r → fa.NoneTwice r.2.alloc) :
    (∃ r, mapSegments src name (headers.filter fun header ↦ header.pType == ptLoad)
        (Load.start vas fa bytes) = .ok r ∧
      (∀ x, r.2.transfer.WasRead x → x < src.buffer.length) ∧
      (r.1 = .ok () → ∀ header ∈ headers, header.pType = ptLoad → header.pVaddr ≠ 0 →
        header.pMemsz ≠ 0 → header.Mapped src.buffer r.2)) ↔
    Loadable vas src.buffer headers := by
  obtain ⟨hempty, hlast⟩ := new_space hnew
  have hrun := mapSegments_result hempty hlast hstock hlen name bytes headers
  constructor
  · rintro ⟨r, hr, hreads, hok⟩
    have hresult := hrun.of_ok hr (hnone r hr)
    have hin := hresult.reads.mp hreads
    refine ⟨fun header h ↦ ⟨hresult.within header h, hin header h⟩, hresult.apart,
      hresult.canonical, ?_⟩
    intro hnoerror header hmem htype hvaddr hmemsz _
    exact (hresult.mapped hin header).mp
      (hok (hresult.result.mpr hnoerror) header hmem htype hvaddr hmemsz)
  · intro hloadable
    obtain ⟨r, hr, hresult⟩ := hrun.exists_ok fun _ hnot ↦ hnot
      ⟨fun header h ↦ (hloadable.within header h).1, hloadable.apart, hloadable.canonical⟩
    have hresult := hresult (hnone r hr)
    have hin := fun header h ↦ (hloadable.within header h).2
    refine ⟨r, hr, hresult.reads.mpr hin, ?_⟩
    intro hok header hmem htype hvaddr hmemsz
    have hnoerror := hresult.result.mp hok
    rw [hresult.mapped hin header]
    by_cases hover : header.pMemsz < header.pFilesz
    · exact hloadable.covered hnoerror header hmem htype hvaddr hmemsz hover
    · refine covered_self (mem_mappedHeaders hnoerror hmem ?_) (by omega)
      rw [skipped_eq htype hvaddr hmemsz]
      exact decide_eq_false hover

/-- Loading a file into a new process does not panic, reads only the buffer and, when it
succeeds, leaves every loadable segment mapped with its bytes, if and only if the parser or
the check of the entry point refuses the file or its headers are loadable. -/
theorem parseAndMapElfBin_iff {paging : Paging} {bits : Nat}
    (hnew : VirtualAddressSpace.new paging bits = .ok vas) (hstock : fa.Stocked)
    (hlen : src.buffer.length < 2 ^ 63) (parse : List UInt8 → Option Elf) (name : List UInt8)
    (bytes : Nat → UInt8)
    (hnone : ∀ r, parseAndMapElfBin parse src name (Load.start vas fa bytes) = .ok r →
      fa.NoneTwice r.2.alloc) :
    (∃ r, parseAndMapElfBin parse src name (Load.start vas fa bytes) = .ok r ∧
      (∀ x, r.2.transfer.WasRead x → x < src.buffer.length) ∧
      ∀ elf entry, parse src.buffer = some elf → r.1 = .ok entry →
        ∀ header ∈ elf.programHeaders, header.pType = ptLoad → header.pVaddr ≠ 0 →
          header.pMemsz ≠ 0 → header.Mapped src.buffer r.2) ↔
    ∀ elf, parse src.buffer = some elf → elf.entry ≠ 0 →
      Loadable vas src.buffer elf.programHeaders := by
  have hnoReads : ∀ x, (Load.start vas fa bytes).transfer.WasRead x → x < src.buffer.length := by
    rintro x ⟨r, hr, -⟩
    cases hr
  cases hparse : parse src.buffer with
  | none =>
    simp only [parseAndMapElfBin, hparse]
    exact ⟨by rintro - _ ⟨⟩, fun _ ↦ ⟨_, rfl, hnoReads, by rintro _ _ ⟨⟩⟩⟩
  | some elf =>
    by_cases hentry : elf.entry = 0
    · simp only [parseAndMapElfBin, hparse, hentry, if_true]
      constructor
      · rintro - elf' heq hne
        cases heq
        exact absurd hentry hne
      · exact fun _ ↦ ⟨_, rfl, hnoReads, fun _ _ _ h ↦ by cases h⟩
    · have heq : parseAndMapElfBin parse src name (Load.start vas fa bytes) =
          mapSegments src name (elf.programHeaders.filter fun header ↦ header.pType == ptLoad)
            (Load.start vas fa bytes) >>= fun r ↦ .ok (r.1.map fun _ ↦ elf.entry, r.2) := by
        simp only [parseAndMapElfBin, hparse, if_neg hentry]
      have hloop := mapSegments_loadable hnew hstock hlen name bytes elf.programHeaders
        fun r hr ↦ hnone (r.1.map fun _ ↦ elf.entry, r.2) (by
          rw [heq]
          exact bind_eq_ok.mpr ⟨r, hr, rfl⟩)
      rw [heq]
      constructor
      · rintro ⟨r, hr, hreads, hall⟩ elf' helf -
        cases helf
        obtain ⟨⟨result, st⟩, hsegments, hr⟩ := of_bind hr
        cases hr
        refine hloop.mp ⟨(result, st), hsegments, hreads, fun hok ↦ ?_⟩
        rw [show result = .ok () from hok] at hall
        exact hall elf elf.entry rfl rfl
      · intro hloadable
        obtain ⟨⟨result, st⟩, hsegments, hreads, hall⟩ := hloop.mpr (hloadable elf rfl hentry)
        refine ⟨(result.map fun _ ↦ elf.entry, st), bind_eq_ok.mpr ⟨_, hsegments, rfl⟩,
          hreads, ?_⟩
        intro elf' entry helf hok
        cases helf
        cases result with
        | error e => cases hok
        | ok _ => exact hall rfl

/-- A segment of two pages at the start of the user space, from the start of the file on. -/
def Sample.header (pFilesz : Nat) : ProgramHeader :=
  ⟨ptLoad, 0, 0x10000000000, pFilesz, 5000, by decide⟩

/-- The 64 bytes of an ELF header and the 56 bytes of its program header, `Sample.header`. -/
def Sample.file (pFilesz : Nat) : List UInt8 :=
  [0x7f, 0x45, 0x4c, 0x46, 2, 1, 1, 0, 0, 0, 0, 0, 0, 0, 0, 0] ++ toLe 2 2 ++ toLe 2 62 ++
    toLe 4 1 ++ toLe 8 0x10000000000 ++ toLe 8 64 ++ toLe 8 0 ++ toLe 4 0 ++ toLe 2 64 ++
    toLe 2 56 ++ toLe 2 1 ++ toLe 2 64 ++ toLe 2 0 ++ toLe 2 0 ++ toLe 4 ptLoad ++ toLe 4 5 ++
    toLe 8 0 ++ toLe 8 0x10000000000 ++ toLe 8 0x10000000000 ++ toLe 8 pFilesz ++ toLe 8 5000 ++
    toLe 8 pageSize

/-- The loader on that file in a fresh process. -/
def Sample.load (pFilesz : Nat) : Except Panic (Except ProcessLoadError Nat × Load) :=
  parseAndMapElfBin (fun _ ↦ some ⟨0x10000000000, [Sample.header pFilesz]⟩)
    ⟨Sample.file pFilesz, fun _ ↦ 0⟩ [97]
    (Load.start VirtualAddressSpace.fresh ascendingFrames fun _ ↦ 255)

private theorem noneTwice_ascending {fa : FrameAllocator} (h : fa.allocated ≤ 2 ^ 30) :
    ascendingFrames.NoneTwice fa := by
  intro i j _ hij hj heq
  have hnum := congrArg PhysFrame.number (Option.some.inj heq)
  simp only at hnum
  omega

/-- A segment of the whole file and two pages. -/
theorem parseAndMapElfBin_iff_sample :
    ∃ r, Sample.load 120 = .ok r ∧ r.1.toOption = some 0x10000000000 ∧
      (Sample.header 120).Mapped (Sample.file 120) r.2 := by
  obtain ⟨r, hr, hentry, hframes⟩ : ∃ r, Sample.load 120 = .ok r ∧
      r.1.toOption = some 0x10000000000 ∧ r.2.alloc.allocated ≤ 2 ^ 30 := by
    decide +kernel
  have hnew : VirtualAddressSpace.new Paging.new 48 = .ok VirtualAddressSpace.fresh := rfl
  have hheaders : mappedHeaders [Sample.header 120] = [Sample.header 120] := rfl
  have hloadable : Loadable VirtualAddressSpace.fresh (Sample.file 120) [Sample.header 120] := by
    refine ⟨?_, ?_, nofun, ?_⟩
    · rw [hheaders, List.forall_mem_singleton]
      exact ⟨⟨by decide, by decide⟩, fun _ ↦ by decide +kernel⟩
    · exact List.pairwise_singleton _ _
    · intro _
      rw [List.forall_mem_singleton]
      intro _ _ _ hover
      exact absurd hover (by decide)
  have hlen : (⟨Sample.file 120, fun _ ↦ 0⟩ : Source).buffer.length < 2 ^ 63 := by decide
  obtain ⟨r', hr', -, hmapped⟩ := (parseAndMapElfBin_iff hnew stocked_ascendingFrames hlen
    (fun _ ↦ some ⟨0x10000000000, [Sample.header 120]⟩) [97] (fun _ ↦ 255) fun r' hr' ↦ by
      rw [← Sample.load, hr] at hr'
      cases hr'
      exact noneTwice_ascending hframes).mpr fun elf helf _ ↦ by
        cases helf
        exact hloadable
  rw [← Sample.load, hr] at hr'
  cases hr'
  refine ⟨r, hr, hentry, ?_⟩
  cases hresult : r.1 with
  | error e =>
    rw [hresult] at hentry
    cases hentry
  | ok entry =>
    exact hmapped _ entry rfl hresult (Sample.header 120) (List.mem_singleton_self _) rfl
      (by decide) (by decide)

/-- A segment of 220 bytes in a file of 120: the loader returns the entry point after it has
read 100 bytes behind the buffer. -/
theorem parseAndMapElfBin_reads_behind_buffer :
    ∃ r, Sample.load 220 = .ok r ∧ r.1.toOption = some 0x10000000000 ∧
      ∃ x, r.2.transfer.WasRead x ∧ (Sample.file 220).length ≤ x := by
  obtain ⟨r, hr, hentry, hreads⟩ : ∃ r, Sample.load 220 = .ok r ∧
      r.1.toOption = some 0x10000000000 ∧ r.2.transfer.reads = [(0, 220)] := by
    decide +kernel
  refine ⟨r, hr, hentry, 219, ⟨(0, 220), ?_, 219, by decide, rfl⟩, by decide⟩
  rw [hreads]
  exact List.mem_singleton_self _

end

end D3OS.Thread
