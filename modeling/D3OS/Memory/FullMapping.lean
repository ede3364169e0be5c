import D3OS.Memory.FirstFit
import D3OS.Memory.Translation

/-!
# Areas that are mapped in full

`user_alloc_map_full`, `os/kernel/src/memory/vmm.rs:518`. The call finds an area exactly when
the pages are free, and gives every page of it a frame of its own.
-/

namespace D3OS.Memory

open Lib

/-- The allocator always has a frame, never frame 0, and the kernel can address every byte of
its frames at their physical address. -/
def FrameAllocator.Stocked (fa : FrameAllocator) : Prop :=
  ∀ n, ∃ f, fa.supply n = some f ∧ f.number ≠ 0 ∧ f.number < 2 ^ 35

/-- No frame is handed out twice between two states of the allocator. -/
def FrameAllocator.NoneTwice (fa fa' : FrameAllocator) : Prop :=
  ∀ i j, fa.allocated ≤ i → i < j → j < fa'.allocated → fa.supply i ≠ fa.supply j

namespace VirtualAddressSpace

/-- From the first state to the second the pages from `page` on got the frames in order, and
nothing else was mapped. -/
structure MappedInFull (page : Page) (frames : List PhysFrame)
    (st st' : Paging × FrameAllocator) : Prop where
  inside : ∀ (i : Nat) (f : PhysFrame), frames[i]? = some f → ∀ o < pageSize, ∀ a : VirtAddr,
    a.asU64 = (page.number + i) * pageSize + o →
      (st'.1.translate a).map PhysAddr.asU64 = some (f.number * pageSize + o)
  outside : ∀ a : VirtAddr, a.asU64 / pageSize < page.number ∨
    page.number + frames.length ≤ a.asU64 / pageSize →
      st'.1.translate a = st.1.translate a
  only : OnlyAllocated st.2 st'.2
  le : st.2.allocated ≤ st'.2.allocated
  supplied : ∀ f ∈ frames, ∃ i, st.2.allocated ≤ i ∧ i < st'.2.allocated ∧ st.2.supply i = some f
  nodup : st.2.NoneTwice st'.2 → frames.Nodup

/-- The flags of an area that is mapped in full. -/
def fullFlags : PageTableFlags :=
  PageTableFlags.present ||| PageTableFlags.writable ||| PageTableFlags.userAccessible

private theorem isUnused_full (f : PhysFrame) : PageTableEntry.isUnused ⟨f, fullFlags⟩ = false := by
  have hflags : fullFlags ≠ 0 := by decide
  simp only [PageTableEntry.isUnused, Bool.and_eq_false_iff, beq_eq_false_iff_ne]
  exact .inr hflags

private theorem mappedInFull_of_map {paging paging' : Paging} {fa fa' : FrameAllocator}
    {pages : PageRange} (hstock : fa.Stocked) (hse : pages.start.number ≤ pages.stop.number)
    (h : paging.map pages .user fullFlags fa = .ok (paging', fa')) :
    ∃ frames : List PhysFrame, frames.length = pages.len ∧
      MappedInFull pages.start frames (paging, fa) (paging', fa') := by
  obtain ⟨hhalf, order, hlen, hhanded, hm⟩ := map_user_ok hse h
  -- Every place of the order has a frame, so that the default is never taken.
  let frameAt : Nat → PhysFrame := fun i ↦ (fa.supply i).getD .zero
  have hframeAt : ∀ i, fa.supply i = some (frameAt i) := by
    intro i
    obtain ⟨f, hf, -⟩ := hstock i
    simp only [frameAt, hf, Option.getD_some]
  refine ⟨order.map frameAt, by rw [List.length_map, hlen], ⟨?_, ?_, hhanded.only, hhanded.le,
    ?_, ?_⟩⟩
  · intro i f hf o ho a ha
    rw [List.getElem?_map, Option.map_eq_some_iff] at hf
    obtain ⟨k, hk, rfl⟩ := hf
    have hi : i < pages.len := hlen ▸ (List.getElem?_eq_some_iff.mp hk).1
    obtain ⟨hp, hdiv⟩ := contains_of_offset hi ho ha
    obtain ⟨g, ⟨k', hk', hg⟩, he⟩ := hm.inside _ ((inSpan_iff_contains hhalf hse _).mpr hp)
    rw [keyAt_eq hhalf hp, show (Page.containingAddress a).number = pages.start.number + i
      from hdiv, Nat.add_sub_cancel_left, hk] at hk'
    cases hk'
    rw [hframeAt k] at hg
    cases hg
    rw [Paging.translate, translateInTable_eq, lookup, he]
    simp only [Option.filter_some, isUnused_full, Bool.not_false, if_true, Option.map_some,
      PageTableEntry.address, Option.some.injEq]
    rw [ha]
    simp only [pageSize] at ho ⊢
    omega
  · intro a ha
    rw [List.length_map, hlen, PageRange.len] at ha
    have hout : ¬ pages.Contains (Page.containingAddress a) := by
      rintro ⟨h1, h2⟩
      have hnum : (Page.containingAddress a).number = a.asU64 / pageSize := rfl
      omega
    rw [Paging.translate, Paging.translate, translateInTable_eq, translateInTable_eq]
    exact congrArg _ (hm.outside _ fun hin ↦ hout ((inSpan_iff_contains hhalf hse _).mp hin))
  · intro f hf
    obtain ⟨i, hi, rfl⟩ := List.mem_map.mp hf
    exact ⟨i, (hhanded.mem i hi).1, (hhanded.mem i hi).2, hframeAt i⟩
  · intro hnone
    rw [List.Nodup, List.pairwise_map]
    apply hhanded.sorted.imp_of_mem
    intro i j hi hj hlt heq
    apply hnone i j (hhanded.mem i hi).1 hlt (hhanded.mem j hj).2
    rw [hframeAt, hframeAt, heq]

section

variable {vas : VirtualAddressSpace} {fa : FrameAllocator} {n : Nat} {page : Page} {typ : VmaType}
  {tag : List UInt8}

/-- The area that a call of `user_alloc_map_full` adds. -/
structure AddsArea (page : Page) (n : Nat) (typ : VmaType) (vma : VirtualMemoryArea)
    (vas vas' : VirtualAddressSpace) : Prop where
  wellFormed : vas'.WellFormed
  first : vas'.firstUsableUserAddr = vas.firstUsableUserAddr
  last : vas'.lastUsableUserAddr = vas.lastUsableUserAddr
  has : ∀ v, vas'.Has v ↔ vas.Has v ∨ v = vma
  start : vma.range.start = page
  stop : vma.range.stop.number = page.number + n
  typ_eq : vma.typ = typ

section

variable (hwf : vas.WellFormed) (hstock : fa.Stocked) (hn : 1 ≤ n)
include hwf hstock hn

/-- What a call of `user_alloc_map_full` with a start page returns. -/
theorem userAllocMapFull_ok {r : Option (VirtualMemoryArea × VirtualAddressSpace × FrameAllocator)}
    (h : vas.userAllocMapFull (some page) n typ tag fa = .ok r) :
    r = none ∨ ∃ vma vas' fa' frames, r = some (vma, vas', fa') ∧ vas.FreeRun .user n page ∧
      AddsArea page n typ vma vas vas' ∧ frames.length = n ∧
      MappedInFull page frames (vas.pageTables, fa) (vas'.pageTables, fa') := by
  obtain ⟨⟨vas₁, found⟩, hfound, h⟩ := of_bind h
  cases found with
  | none =>
    cases h
    exact .inl rfl
  | some vma =>
    obtain ⟨⟨paging, fa'⟩, hmap, h⟩ := of_bind h
    cases h
    obtain ⟨hstart, hfree⟩ := freeRun_of_allocVma hwf hn hfound
    obtain ⟨hspace, hstop⟩ := allocVma_vma hfound
    have hwf' := hwf.allocVma hfound
    have hhas := has_allocVma hwf hfound
    obtain ⟨rfl, htyp, -, -⟩ := allocVma_some hfound
    obtain ⟨frames, hlen, hfull⟩ := mappedInFull_of_map hstock (by omega) hmap
    rw [hstart] at hfull
    refine .inr ⟨vma, _, fa', frames, rfl, hfree, ⟨⟨hwf'.keyed, hwf'.nonempty, hwf'.disjoint,
      hwf'.user, hwf'.kernel⟩, rfl, rfl, hhas, hstart, hstart ▸ hstop, htyp⟩, ?_, hfull⟩
    rw [hlen, PageRange.len, hstop, Nat.add_sub_cancel_left]

/-- `user_alloc_map_full` with a start page succeeds where the pages are free. -/
theorem userAllocMapFull_of_freeRun
    (hlast : vas.lastUsableUserAddr.asU64 < 2 ^ 47) (hfree : vas.FreeRun .user n page)
    (typ : VmaType) (tag : List UInt8) :
    ∃ r, vas.userAllocMapFull (some page) n typ tag fa = .ok (some r) := by
  have hsum : page.startAddress.asU64 + n * pageSize < 2 ^ 47 := lt_of_le_of_lt hfree.2.1 hlast
  obtain ⟨vas₁, vma, hat, hstart, hstop⟩ := allocAt_of_freeRun hwf hn hsum hfree typ tag
  have hmappable : Mappable fa.supply vma.range .user fullFlags := by
    refine ⟨by decide, fun n ↦ ?_, .inl ?_, nofun⟩
    · obtain ⟨f, hf, hne, -⟩ := hstock n
      exact ⟨f, hf, hne⟩
    · simp only [Page.startAddress, pageSize] at hsum
      omega
  obtain ⟨⟨paging, fa'⟩, hmap⟩ := map_returns vas₁.pageTables (by rw [hstart]; omega) hmappable
  refine ⟨(vma, { vas₁ with pageTables := paging }, fa'), bind_eq_ok.mpr ⟨(vas₁, some vma), ?_,
    bind_eq_ok.mpr ⟨(paging, fa'), hmap, rfl⟩⟩⟩
  rw [allocVma, if_neg (Nat.one_le_iff_ne_zero.mp hn), hat]

end

end

/-- A new address space on a processor with 48 linear address bits. -/
def fresh : VirtualAddressSpace := ⟨∅, Paging.new, userSpaceStart, ⟨2 ^ 47 - 1, by decide⟩⟩

end VirtualAddressSpace

/-- The sample allocator never runs out. -/
theorem stocked_ascendingFrames : ascendingFrames.Stocked := by
  intro n
  refine ⟨_, rfl, Nat.succ_ne_zero _, ?_⟩
  show n % 2 ^ 30 + 1 < 2 ^ 35
  omega

end D3OS.Memory
