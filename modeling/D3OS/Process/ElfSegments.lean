import D3OS.Process.Elf

/-!
# The segments of a program

What the loader has done so far is described by the segments that it has mapped, each with
its frames: which addresses the areas cover, where they translate to, which bytes the frames
have and what was read. A segment is added exactly when it lies in the user range, apart from
the others.
-/

namespace D3OS.Thread

open Lib Memory

/-- A segment that was mapped, and its frames. -/
abbrev Segment := ProgramHeader × List PhysFrame

/-- What the loader has done for some segments, from a new process on. -/
structure LoadInv (vas : VirtualAddressSpace) (fa : FrameAllocator) (src : Source)
    (done : List Segment) (st : Load) : Prop where
  wellFormed : st.space.WellFormed
  first : st.space.firstUsableUserAddr = vas.firstUsableUserAddr
  last : st.space.lastUsableUserAddr = vas.lastUsableUserAddr
  only : OnlyAllocated fa st.alloc
  le : fa.allocated ≤ st.alloc.allocated
  areas : ∀ a : VirtAddr, (∃ vma, st.space.Has vma ∧ vma.range.ContainsAddr a) ↔
    ∃ s ∈ done, s.1.Spans a.asU64
  length : ∀ s ∈ done, s.2.length = s.1.pages
  placed : ∀ s ∈ done, s.1.pVaddr % pageSize = 0 ∧ 0 < s.1.pages
  inside : ∀ s ∈ done, ∀ i f, s.2[i]? = some f → ∀ o < pageSize, ∀ a : VirtAddr,
    a.asU64 = s.1.pVaddr + i * pageSize + o →
      (st.space.pageTables.translate a).map PhysAddr.asU64 = some (f.number * pageSize + o)
  supplied : ∀ s ∈ done, ∀ f ∈ s.2, ∃ i, fa.allocated ≤ i ∧ i < st.alloc.allocated ∧
    fa.supply i = some f
  content : fa.NoneTwice st.alloc → ∀ s ∈ done, ∀ i f, s.2[i]? = some f → ∀ o < pageSize,
    st.transfer.mem.byte (f.number * pageSize + o) =
      VirtualAddressSpace.segmentByte src s.1.pOffset s.1.pFilesz (i * pageSize + o)
  reads : ∀ x, st.transfer.WasRead x ↔
    ∃ s ∈ done, ∃ j < s.1.pFilesz, x = (s.1.pOffset + j) % u64Bound

section

variable {vas : VirtualAddressSpace} {fa : FrameAllocator} {src : Source} {name : List UInt8}
  {done : List Segment} {st : Load} {header : ProgramHeader}

variable {space : VirtualAddressSpace} {page : Page} {frames : List PhysFrame}

private theorem onFrames_of_mappedInFull {paging : Paging} {fa fa' : FrameAllocator}
    (hlow : page.startAddress.asU64 + frames.length * pageSize ≤ 2 ^ 47)
    (h : VirtualAddressSpace.MappedInFull page frames (paging, fa) (space.pageTables, fa')) :
    space.OnFrames page.startAddress.asU64 frames := by
  intro k f hf
  obtain ⟨hk, -⟩ := List.getElem?_eq_some_iff.mp hf
  have hlt : page.startAddress.asU64 + k * pageSize < 2 ^ 47 := by
    simp only [pageSize] at hlow ⊢
    omega
  have hinside := h.inside k f hf 0 (by decide) ⟨_, .inl hlt⟩ (by
    rw [Nat.add_zero, Nat.add_mul]
    rfl)
  obtain ⟨p, hp, heq⟩ := Option.map_eq_some_iff.mp hinside
  rw [VirtualAddressSpace.physOf, VirtualAddressSpace.getPhys, VirtAddr.new_of_lt hlt]
  show (do
    let phys ← unwrap (space.pageTables.translate ⟨_, .inl hlt⟩)
    Except.ok phys.asU64) = _
  rw [hp, ← Nat.add_zero (f.number * pageSize), ← heq]
  rfl

private theorem transfer_yields {vma : VirtualMemoryArea} (t : Transfer)
    (hon : space.OnFrames vma.range.start.startAddress.asU64 frames)
    (hlen : frames.length = header.pages) (hrange : vma.range.len = header.pages)
    (hpos : 0 < header.pages) (hfit : header.pFilesz ≤ header.pMemsz) :
    Yields (do
        let t ← space.copyToAddrSpace vma src header.pOffset header.pFilesz t
        zeroBss space vma header.pages (divCeil header.pFilesz pageSize) t)
      (fun t' ↦ FramesHold frames
          (VirtualAddressSpace.segmentByte src header.pOffset header.pFilesz)
          (header.pages * pageSize) t.mem t'.mem ∧
        ∀ x, t'.WasRead x ↔ t.WasRead x ∨
          ∃ j < header.pFilesz, x = (header.pOffset + j) % u64Bound) (fun _ ↦ False) := by
  have hpages := header.pages_eq
  have hcode : divCeil header.pFilesz pageSize = pagesToCopy header.pFilesz := rfl
  have hle : pagesToCopy header.pFilesz ≤ header.pages :=
    VirtualAddressSpace.pagesToCopy_le (by omega)
  apply (VirtualAddressSpace.copyToAddrSpace_yields t hon (by omega) (by omega)
    (by rw [hrange]; omega)).bind
  rintro t₁ ⟨hhold, hreads⟩
  rw [hcode, zeroBss]
  by_cases hlt : pagesToCopy header.pFilesz < header.pages
  · rw [if_pos hlt]
    have hzero := VirtualAddressSpace.zeroPages_yields hon t₁
      (n := header.pages - pagesToCopy header.pFilesz) (by omega) ?_ hhold fun _ ↦ Iff.rfl
    · rw [Nat.add_sub_cancel' hle] at hzero
      exact hzero.mono (fun t' ⟨h, hr⟩ ↦ ⟨h, fun x ↦ (hr x).trans (hreads x)⟩) fun _ h ↦ h
    · intro x hx
      rw [VirtualAddressSpace.segmentByte, if_neg]
      have := VirtualAddressSpace.le_mul_pagesToCopy header.pFilesz
      omega
  · rw [if_neg hlt]
    have heq : pagesToCopy header.pFilesz = header.pages := by omega
    rw [heq] at hhold
    exact ⟨hhold, hreads⟩

private theorem LoadInv.freeRun_iff (h : LoadInv vas fa src done st)
    (hlast : vas.lastUsableUserAddr.asU64 < 2 ^ 47)
    (hpage : page.startAddress.asU64 = header.pVaddr) (hpos : 0 < header.pages) :
    st.space.FreeRun .user header.pages page ↔
      header.Within vas ∧ ∀ s ∈ done, s.1.Apart header := by
  have hareas : (∀ vma, st.space.Has vma → ∀ q : Page, page.number ≤ q.number →
      q.number < page.number + header.pages → ¬ vma.range.Contains q) ↔
      ∀ q : Page, page.number ≤ q.number → q.number < page.number + header.pages →
        ∀ s ∈ done, ¬ s.1.Spans q.startAddress.asU64 := by
    constructor
    · intro hfree q hle hlt s hs hspans
      obtain ⟨vma, hvma, hin⟩ := (h.areas q.startAddress).mpr ⟨s, hs, hspans⟩
      rw [PageRange.ContainsAddr, Page.containingAddress_startAddress] at hin
      exact hfree vma hvma q hle hlt hin
    · intro hfree vma hvma q hle hlt hin
      obtain ⟨s, hs, hspans⟩ := (h.areas q.startAddress).mp
        ⟨vma, hvma, by rwa [PageRange.ContainsAddr, Page.containingAddress_startAddress]⟩
      exact hfree q hle hlt s hs hspans
  have hnum : page.number * pageSize = header.pVaddr := hpage
  rw [VirtualAddressSpace.FreeRun, hareas]
  simp only [VirtualAddressSpace.searchRange, h.first, h.last, hpage, ProgramHeader.Within,
    and_assoc]
  refine and_congr_right fun hfirst ↦ and_congr_right fun hend ↦ ?_
  constructor
  · intro hfree s hs
    obtain ⟨haligned, hspos⟩ := h.placed s hs
    by_contra hover
    simp only [ProgramHeader.Apart, not_or, not_le] at hover
    -- The first common page is the first page of one of the two.
    by_cases hle : s.1.pVaddr ≤ header.pVaddr
    · refine hfree page le_rfl (by omega) s hs ⟨?_, ?_⟩
      · rw [hpage]
        exact hle
      · rw [hpage]
        exact hover.1
    · have hdiv := Nat.div_mul_cancel (Nat.dvd_of_mod_eq_zero haligned)
      have hlow : s.1.pVaddr / pageSize < 2 ^ 35 := by
        simp only [pageSize] at hover hend ⊢
        omega
      refine hfree ⟨s.1.pVaddr / pageSize, .inl hlow⟩ ?_ ?_ s hs ⟨?_, ?_⟩
      · simp only [pageSize] at hnum hle ⊢
        omega
      · simp only [pageSize] at hnum hover ⊢
        omega
      · exact hdiv.ge
      · show s.1.pVaddr / pageSize * pageSize < _
        have hsize : 0 < s.1.pages * pageSize := Nat.mul_pos hspos (by decide)
        omega
  · rintro hapart q hle hlt s hs ⟨hlow, hhigh⟩
    have hq : q.startAddress.asU64 = q.number * pageSize := rfl
    rcases hapart s hs with hb | hb
    · simp only [pageSize] at hnum hb hhigh hq
      omega
    · simp only [pageSize] at hnum hb hlow hq
      omega

private theorem noneTwice_mono {fa fa₁ fa₂ : FrameAllocator} (h : fa.NoneTwice fa₂)
    (hle : fa₁.allocated ≤ fa₂.allocated) : fa.NoneTwice fa₁ :=
  fun i j hi hij hj ↦ h i j hi hij (lt_of_lt_of_le hj hle)

private theorem LoadInv.push (h : LoadInv vas fa src done st) {vma : VirtualMemoryArea}
    {alloc : FrameAllocator} {t : Transfer} (hpage : page.startAddress.asU64 = header.pVaddr)
    (hpos : 0 < header.pages) (hapart : ∀ s ∈ done, s.1.Apart header)
    (hadds : VirtualAddressSpace.AddsArea page header.pages .code vma st.space space)
    (hlen : frames.length = header.pages)
    (hfull : VirtualAddressSpace.MappedInFull page frames (st.space.pageTables, st.alloc)
      (space.pageTables, alloc)) (hhold : FramesHold frames
      (VirtualAddressSpace.segmentByte src header.pOffset header.pFilesz)
      (header.pages * pageSize) st.transfer.mem t.mem)
    (hreads : ∀ x, t.WasRead x ↔ st.transfer.WasRead x ∨
      ∃ j < header.pFilesz, x = (header.pOffset + j) % u64Bound) :
    LoadInv vas fa src (done ++ [(header, frames)]) ⟨space, alloc, t⟩ := by
  have hnum : page.number * pageSize = header.pVaddr := hpage
  have hsupply : st.alloc.supply = fa.supply := h.only.1
  have hle : st.alloc.allocated ≤ alloc.allocated := hfull.le
  refine ⟨hadds.wellFormed, hadds.first.trans h.first, hadds.last.trans h.last,
    h.only.trans hfull.only, h.le.trans hle, ?_, ?_, ?_, ?_, ?_, ?_, ?_⟩
  · intro a
    have hnew : vma.range.ContainsAddr a ↔ header.Spans a.asU64 := by
      rw [PageRange.ContainsAddr, PageRange.Contains, hadds.start, hadds.stop]
      show page.number ≤ a.asU64 / pageSize ∧ a.asU64 / pageSize < _ ↔ _
      simp only [ProgramHeader.Spans, pageSize] at hnum ⊢
      omega
    simp only [hadds.has, or_and_right, exists_or, h.areas a, exists_eq_left, hnew,
      List.mem_append, List.mem_singleton]
  · exact forall_mem_push h.length hlen
  · exact forall_mem_push h.placed ⟨by rw [← hnum]; exact Nat.mul_mod_left _ _, hpos⟩
  · refine forall_mem_push (fun s hs i f hf o ho a ha ↦ ?_) fun i f hf o ho a ha ↦ ?_
    · -- The pages of an older segment are not among the new ones.
      have hi := (List.getElem?_eq_some_iff.mp hf).1
      rw [h.length s hs] at hi
      have hout : a.asU64 / pageSize < page.number ∨
          page.number + frames.length ≤ a.asU64 / pageSize := by
        have hfar := hapart s hs
        simp only [ProgramHeader.Apart, pageSize] at hfar hnum ha ho ⊢
        omega
      rw [hfull.outside a hout]
      exact h.inside s hs i f hf o ho a ha
    · refine hfull.inside i f hf o ho a ?_
      rw [ha, ← hnum, Nat.add_mul]
  · refine forall_mem_push (fun s hs f hf ↦ ?_) fun f hf ↦ ?_
    · obtain ⟨i, hi, hlt, hsup⟩ := h.supplied s hs f hf
      exact ⟨i, hi, lt_of_lt_of_le hlt hle, hsup⟩
    · obtain ⟨i, hi, hlt, hsup⟩ := hfull.supplied f hf
      exact ⟨i, h.le.trans hi, hlt, hsupply ▸ hsup⟩
  · intro hnone
    refine forall_mem_push (fun s hs i f hf o ho ↦ ?_) fun i f hf o ho ↦ ?_
    · obtain ⟨k, hk, hlt, hsup⟩ := h.supplied s hs f (List.mem_of_getElem? hf)
      rw [← h.content (noneTwice_mono hnone hle) s hs i f hf o ho]
      refine hhold.outside _ fun g hg ↦ ?_
      obtain ⟨k', hk', hlt', hsup'⟩ := hfull.supplied g hg
      have hne : f.number ≠ g.number := by
        intro heq
        refine hnone k k' hk (lt_of_lt_of_le hlt hk') hlt' ?_
        rw [hsup, ← hsupply, hsup', PhysFrame.ext heq]
      simp only [pageSize] at ho ⊢
      omega
    · have hi := (List.getElem?_eq_some_iff.mp hf).1
      refine hhold.inside (hfull.nodup fun a b ha hab hb ↦ ?_) i f hf o ho ?_
      · rw [hsupply]
        exact hnone a b (h.le.trans ha) hab hb
      · rw [hlen] at hi
        simp only [pageSize] at ho ⊢
        omega
  · intro x
    simp only [hreads, h.reads, List.mem_append, List.mem_singleton, or_and_right, exists_or,
      exists_eq_left]

private theorem live_pages (hlive : header.skipped = false) :
    0 < header.pages ∧ header.pFilesz ≤ header.pMemsz := by
  simp only [ProgramHeader.skipped, Bool.or_eq_false_iff, beq_eq_false_iff_ne,
    decide_eq_false_iff_not, not_lt] at hlive
  obtain ⟨⟨-, hmem⟩, hfile⟩ := hlive
  have hpages := header.pages_eq
  refine ⟨Nat.pos_of_ne_zero fun h0 ↦ ?_, hfile⟩
  rw [h0] at hpages
  omega

private theorem mapSegment_aligned (h : LoadInv vas fa src done st) (hstock : fa.Stocked)
    (hlast : vas.lastUsableUserAddr.asU64 < 2 ^ 47) (hlive : header.skipped = false)
    (haligned : header.aligned = true) :
    Yields (mapSegment src name header st) (fun r ↦ r.1 = .ok () ∧
      (header.Within vas ∧ ∀ s ∈ done, s.1.Apart header) ∧
      ∃ frames, LoadInv vas fa src (done ++ [(header, frames)]) r.2)
      (fun _ ↦ ¬ (header.Within vas ∧ ∀ s ∈ done, s.1.Apart header)) := by
  obtain ⟨hpos, hfile⟩ := live_pages hlive
  have hmod : header.pVaddr % pageSize = 0 := beq_iff_eq.mp haligned
  have hstock' : st.alloc.Stocked := by
    intro n
    rw [h.only.1]
    exact hstock n
  rw [mapSegment, if_neg (by rw [hlive]; decide)]
  cases hnew : VirtAddr.new header.pVaddr with
  | error e =>
    rintro ⟨hwithin, -⟩
    have hlow : header.pVaddr < 2 ^ 47 := by
      have := hwithin.2
      omega
    rw [VirtAddr.new_of_lt hlow] at hnew
    cases hnew
  | ok addr =>
    have haddr : addr.asU64 = header.pVaddr := VirtAddr.tryNew_eq_some (VirtAddr.new_eq_ok.mp hnew)
    have hstart : Page.fromStartAddress addr = some (Page.containingAddress addr) := by
      rw [Page.fromStartAddress, if_pos (by rw [haddr, hmod])]
    have hpage : (Page.containingAddress addr).startAddress.asU64 = header.pVaddr := by
      show addr.asU64 / pageSize * pageSize = _
      rw [haddr, Nat.div_mul_cancel (Nat.dvd_of_mod_eq_zero hmod)]
    have hfree := h.freeRun_iff hlast hpage hpos
    have hreturns := fun hrun ↦ VirtualAddressSpace.userAllocMapFull_of_freeRun h.wellFormed
      hstock' hpos (h.last ▸ hlast) (hfree.mpr hrun) .code name
    simp only [bind, Except.bind, hstart]
    cases harea : st.space.userAllocMapFull (some (Page.containingAddress addr)) header.pages
      .code name st.alloc with
    | error e =>
      intro hrun
      obtain ⟨r, hr⟩ := hreturns hrun
      rw [hr] at harea
      cases harea
    | ok area =>
      rcases VirtualAddressSpace.userAllocMapFull_ok h.wellFormed hstock' hpos harea with
        rfl | ⟨vma, space, alloc, frames, rfl, hrun, hadds, hlen, hfull⟩
      · intro hrun
        obtain ⟨r, hr⟩ := hreturns hrun
        rw [hr] at harea
        cases harea
      · have hplaced := hfree.mp hrun
        have hrange : vma.range.len = header.pages := by
          rw [PageRange.len, hadds.stop, hadds.start, Nat.add_sub_cancel_left]
        have hon : space.OnFrames vma.range.start.startAddress.asU64 frames := by
          rw [hadds.start]
          refine onFrames_of_mappedInFull ?_ hfull
          have := hplaced.1.2
          rw [hpage, hlen]
          omega
        show Yields (space.copyToAddrSpace vma src header.pOffset header.pFilesz st.transfer >>=
          fun t ↦ zeroBss space vma header.pages (divCeil header.pFilesz pageSize) t >>=
            fun t ↦ Except.ok (Except.ok (), (⟨space, alloc, t⟩ : Load))) _ _
        rw [← bind_assoc]
        apply ((transfer_yields st.transfer hon hlen hrange hpos hfile).mono (fun _ h ↦ h)
          fun _ h ↦ h.elim).bind
        rintro t ⟨hhold, hreads⟩
        exact ⟨rfl, hplaced, frames, h.push hpage hpos hplaced.2 hadds hlen hfull hhold hreads⟩

private theorem mapSegment_unaligned (hlive : header.skipped = false)
    (haligned : header.aligned = false) :
    mapSegment src name header st = (do
      let _ ← VirtAddr.new header.pVaddr
      .ok (.error .elfInvalid, st)) := by
  rw [mapSegment, if_neg (by rw [hlive]; decide)]
  cases hnew : VirtAddr.new header.pVaddr with
  | error e => rfl
  | ok addr =>
    have haddr : addr.asU64 = header.pVaddr := VirtAddr.tryNew_eq_some (VirtAddr.new_eq_ok.mp hnew)
    have hstart : Page.fromStartAddress addr = none := by
      rw [Page.fromStartAddress, if_neg]
      rw [haddr]
      exact beq_eq_false_iff_ne.mp haligned
    simp only [bind, Except.bind, hstart]

end

section

variable {vas : VirtualAddressSpace} {fa : FrameAllocator} {src : Source} {name : List UInt8}

/-- Headers that are passed over change nothing. -/
theorem mapSegments_filter (headers : List ProgramHeader) (st : Load) :
    mapSegments src name headers st =
      mapSegments src name (headers.filter fun header ↦ !header.skipped) st := by
  induction headers generalizing st with
  | nil => rfl
  | cons header rest ih =>
    cases hskip : header.skipped with
    | true =>
      rw [List.filter_cons_of_neg (by simp [hskip]), ← ih, mapSegments, mapSegment, if_pos hskip]
      rfl
    | false =>
      rw [List.filter_cons_of_pos (by simp [hskip]), mapSegments, mapSegments]
      simp only [ih]

/-- The segments find their places behind those that were mapped before. -/
def Placed (vas : VirtualAddressSpace) :
    List ProgramHeader → List ProgramHeader → Prop
  | _, [] => True
  | done, header :: rest =>
    if header.aligned then
      (header.Within vas ∧ ∀ other ∈ done, other.Apart header) ∧ Placed vas (done ++ [header]) rest
    else (VirtAddr.tryNew header.pVaddr).isSome

/-- The loop maps the segments up to the first one that is rejected. -/
theorem mapSegments_yields (name : List UInt8) (hstock : fa.Stocked)
    (hlast : vas.lastUsableUserAddr.asU64 < 2 ^ 47) {live : List ProgramHeader}
    (hlive : ∀ header ∈ live, header.skipped = false) {done : List Segment} {st : Load}
    (h : LoadInv vas fa src done st) :
    Yields (mapSegments src name live st) (fun r ↦ Placed vas (done.map Prod.fst) live ∧
      (r.1 = .ok () ↔ (live.dropWhile ProgramHeader.aligned).head? = none) ∧
      ∃ segments, segments.map Prod.fst = live.takeWhile ProgramHeader.aligned ∧
        LoadInv vas fa src (done ++ segments) r.2)
      (fun _ ↦ ¬ Placed vas (done.map Prod.fst) live) := by
  induction live generalizing done st with
  | nil =>
    refine ⟨trivial, by simp, [], rfl, ?_⟩
    rw [List.append_nil]
    exact h
  | cons header rest ih =>
    have hheader := hlive header List.mem_cons_self
    cases haligned : header.aligned with
    | false =>
      rw [mapSegments, mapSegment_unaligned hheader haligned]
      simp only [Placed, haligned, Bool.false_eq_true, if_false]
      cases hnew : VirtAddr.new header.pVaddr with
      | error e =>
        rw [VirtAddr.tryNew_of_new_eq_error hnew]
        simp
      | ok addr =>
        refine ⟨?_, ?_, [], ?_, ?_⟩
        · rw [VirtAddr.new_eq_ok.mp hnew]
          rfl
        · simp [haligned]
        · simp [haligned]
        · rw [List.append_nil]
          exact h
    | true =>
      simp only [Placed, haligned, if_true]
      refine ((mapSegment_aligned h hstock hlast hheader haligned).mono (fun _ h ↦ h) ?_).bind ?_
      · rintro _ hnot ⟨⟨hwithin, hapart⟩, -⟩
        exact hnot ⟨hwithin, fun s hs ↦ hapart s.1 (List.mem_map_of_mem hs)⟩
      · rintro ⟨result, st'⟩ ⟨rfl, ⟨hwithin, hapart⟩, frames, hinv⟩
        have hrest := ih (fun g hg ↦ hlive g (List.mem_cons_of_mem _ hg)) hinv
        rw [List.map_append, List.map_singleton] at hrest
        have happart : ∀ other ∈ done.map Prod.fst, other.Apart header := by
          intro other hother
          obtain ⟨s, hs, rfl⟩ := List.mem_map.mp hother
          exact hapart s hs
        refine hrest.mono ?_ fun _ hnot hall ↦ hnot hall.2
        rintro r ⟨hplaced, hresult, segments, hmap, hinv'⟩
        refine ⟨⟨⟨hwithin, happart⟩, hplaced⟩, ?_, (header, frames) :: segments, ?_, ?_⟩
        · rw [List.dropWhile_cons, if_pos haligned]
          exact hresult
        · rw [List.map_cons, List.takeWhile_cons, if_pos haligned, hmap]
        · rw [List.append_assoc, List.singleton_append] at hinv'
          exact hinv'

/-- `Placed` in terms of the list. -/
theorem placed_iff {done live : List ProgramHeader} :
    Placed vas done live ↔
      (∀ header ∈ live.takeWhile ProgramHeader.aligned,
        header.Within vas ∧ ∀ other ∈ done, other.Apart header) ∧
      (live.takeWhile ProgramHeader.aligned).Pairwise ProgramHeader.Apart ∧
      ∀ header, (live.dropWhile ProgramHeader.aligned).head? = some header →
        (VirtAddr.tryNew header.pVaddr).isSome := by
  induction live generalizing done with
  | nil => simp [Placed]
  | cons header rest ih =>
    cases haligned : header.aligned with
    | false => simp [Placed, haligned]
    | true =>
      simp only [Placed, haligned, if_true, ih, List.takeWhile_cons, List.dropWhile_cons,
        List.forall_mem_cons, List.pairwise_cons, List.mem_append, List.mem_singleton, or_imp,
        forall_and, forall_eq]
      constructor
      · rintro ⟨⟨hw, ha⟩, ⟨hws, has, hself⟩, hpair, hhead⟩
        exact ⟨⟨⟨hw, hws⟩, ha, has⟩, ⟨hself, hpair⟩, hhead⟩
      · rintro ⟨⟨⟨hw, hws⟩, ha, has⟩, ⟨hself, hpair⟩, hhead⟩
        exact ⟨⟨hw, ha⟩, ⟨hws, has, hself⟩, hpair, hhead⟩

end

end D3OS.Thread
