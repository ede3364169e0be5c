import D3OS.Memory.AddressSpace
import D3OS.Memory.Translation

/-!
# The frames that a process can reach

A frame is mapped in an address space if a user address translates into it. Mapping one
frame into a new area adds that frame and no other.
-/

namespace D3OS.Memory

open Lib

/-- Nothing is mapped in empty page tables. -/
theorem Paging.translate_new (a : VirtAddr) : Paging.new.translate a = none := by
  rfl

namespace VirtualAddressSpace

/-- An address of the process. -/
def IsUserAddr (vas : VirtualAddressSpace) (a : VirtAddr) : Prop :=
  vas.firstUsableUserAddr.asU64 ≤ a.asU64 ∧ a.asU64 ≤ vas.lastUsableUserAddr.asU64

/-- A user address translates into the frame. -/
def MapsFrame (vas : VirtualAddressSpace) (frame : PhysFrame) : Prop :=
  ∃ a, vas.IsUserAddr a ∧
    ∃ p, vas.pageTables.translate a = some p ∧ p.asU64 / pageSize = frame.number

/-- The address of the process translates into the frame. -/
def reaches (vas : VirtualAddressSpace) (a : VirtAddr) (frame : PhysFrame) : Bool :=
  decide (vas.firstUsableUserAddr.asU64 ≤ a.asU64) &&
    decide (a.asU64 ≤ vas.lastUsableUserAddr.asU64) &&
    (vas.pageTables.translate a).any fun p ↦ p.asU64 / pageSize == frame.number

/-- An address that shows the frame. -/
theorem mapsFrame_of_reaches {vas : VirtualAddressSpace} {a : VirtAddr} {frame : PhysFrame}
    (h : vas.reaches a frame = true) : vas.MapsFrame frame := by
  simp only [reaches, Bool.and_eq_true, decide_eq_true_eq, Option.any_eq_true, beq_iff_eq] at h
  obtain ⟨huser, p, hp, hframe⟩ := h
  exact ⟨a, huser, p, hp, hframe⟩

variable {vas vas' : VirtualAddressSpace} {vma : VirtualMemoryArea} {frame stop : PhysFrame}
  {flags : PageTableFlags} {fa fa' : FrameAllocator}

/-- Two address spaces with the same tables and bounds map the same frames. -/
theorem MapsFrame.congr (h : vas'.MapsFrame frame)
    (heq : { vas' with virtualMemoryAreas := vas.virtualMemoryAreas } = vas) :
    vas.MapsFrame frame := by
  rw [← heq]
  exact h

/-- Nothing is mapped in an address space without page tables. -/
theorem not_mapsFrame_of_new (h : vas.pageTables = Paging.new) : ¬ vas.MapsFrame frame := by
  rintro ⟨a, -, p, hp, -⟩
  rw [h, Paging.translate_new] at hp
  cases hp

private theorem new_parts {paging : Paging} {bits : Nat} (h : new paging bits = .ok vas) :
    vas = ⟨∅, paging, userSpaceStart, vas.lastUsableUserAddr⟩ := by
  obtain ⟨shift, -, h⟩ := of_bind h
  split at h
  next => cases h
  next =>
    obtain ⟨last, -, h⟩ := of_bind h
    cases h
    rfl

/-- A new address space has the tables that it is given. -/
theorem new_pageTables {paging : Paging} {bits : Nat} (h : new paging bits = .ok vas) :
    vas.pageTables = paging :=
  congrArg (·.pageTables) (new_parts h)

private theorem or_present_ne_zero (flags : PageTableFlags) :
    flags ||| PageTableFlags.present ≠ 0 := by
  intro h
  have hbit := congrArg (fun f : PageTableFlags ↦ f.getLsbD 0) h
  simp [PageTableFlags.present] at hbit

/-- `map_pfr_for_vma` writes to the page tables only. -/
theorem mapPfrForVma_ok {range : PhysFrameRange}
    (h : vas.mapPfrForVma vma range flags fa = .ok (some (vas', fa'))) :
    vas' = { vas with pageTables := vas'.pageTables } ∧
      range.stop.number - range.start.number = vma.range.len ∧
      vma.range.start.number ≤ vma.range.stop.number ∧
      vas.pageTables.mapPhysical range vma.range vma.space
        (vma.checkAndEnforceConsistency flags ||| PageTableFlags.present) fa =
          .ok (vas'.pageTables, fa') := by
  unfold mapPfrForVma mapPfrForPartialVma at h
  split at h
  next => cases h
  next =>
    obtain ⟨numFrames, hframes, h⟩ := of_bind h
    obtain ⟨numPages, hpages, h⟩ := of_bind h
    obtain ⟨-, rfl⟩ := subOrPanic_eq_ok.mp hframes
    obtain ⟨hse, rfl⟩ := subOrPanic_eq_ok.mp hpages
    split at h
    next => cases h
    next hnum =>
      split at h
      next => cases h
      next =>
        obtain ⟨⟨paging, fa''⟩, hmap, h⟩ := of_bind h
        cases h
        exact ⟨rfl, not_not.mp hnum, hse, hmap⟩

/-- The tables after `map_pfr_for_vma`. -/
theorem mapPfrForVma_translatesTo {range : PhysFrameRange} (hspace : vma.space = .user)
    (hlt : range.start.number < range.stop.number)
    (h : vas.mapPfrForVma vma range flags fa = .ok (some (vas', fa'))) :
    vma.range.OneHalf ∧
      TranslatesTo vas.pageTables vas'.pageTables vma.range range.start.number := by
  obtain ⟨-, hlen, hse, hmap⟩ := mapPfrForVma_ok h
  rw [hspace] at hmap
  obtain ⟨hhalf, hm⟩ := mapPhysical_ok hmap
  exact ⟨hhalf, translatesTo_of_maps hhalf hse hm (fun q f _ hF ↦ hF hlt)
    (.inl (or_present_ne_zero _))⟩

/-- What `map_pfr_for_vma` does with one frame. -/
theorem mapPfrForVma_mapsFrame (hstop : frame.add 1 = .ok stop) (hspace : vma.space = .user)
    (h : vas.mapPfrForVma vma ⟨frame, stop⟩ flags fa = .ok (some (vas', fa')))
    {other : PhysFrame} (hmaps : vas'.MapsFrame other) : other = frame ∨ vas.MapsFrame other := by
  have hone := PhysFrame.number_of_add hstop
  have hlen := (mapPfrForVma_ok h).2.1
  have hlt : (⟨frame, stop⟩ : PhysFrameRange).start.number <
      (⟨frame, stop⟩ : PhysFrameRange).stop.number := by
    dsimp only
    omega
  obtain ⟨-, htrans⟩ := mapPfrForVma_translatesTo hspace hlt h
  obtain ⟨a, huser, p, hp, hother⟩ := hmaps
  by_cases ha : vma.range.ContainsAddr a
  · left
    obtain ⟨q, hq, hnum⟩ := htrans.frame ha
    cases hp.symm.trans hq
    have hlast : a.asU64 / pageSize < vma.range.stop.number := ha.2
    simp only [PageRange.len, hone] at hlen hnum
    exact PhysFrame.ext (by omega)
  · right
    rw [htrans.2 a ha] at hp
    refine ⟨a, ?_, p, hp, hother⟩
    rw [(mapPfrForVma_ok h).1] at huser
    exact huser

/-- The user part is the same, and what could be translated still can. -/
structure Keeps (vas vas' : VirtualAddressSpace) : Prop where
  first : vas'.firstUsableUserAddr = vas.firstUsableUserAddr
  last : vas'.lastUsableUserAddr = vas.lastUsableUserAddr
  mapped : ∀ a, (vas.pageTables.translate a).isSome → (vas'.pageTables.translate a).isSome

/-- An address space keeps what it has. -/
theorem Keeps.refl (vas : VirtualAddressSpace) : vas.Keeps vas := ⟨rfl, rfl, fun _ h ↦ h⟩

/-- One change after the other. -/
theorem Keeps.trans {vas'' : VirtualAddressSpace} (h : vas.Keeps vas') (h' : vas'.Keeps vas'') :
    vas.Keeps vas'' :=
  ⟨h'.first.trans h.first, h'.last.trans h.last, fun a ha ↦ h'.mapped a (h.mapped a ha)⟩

/-- A new area takes no mapping away. -/
theorem Keeps.of_areas (heq : { vas' with virtualMemoryAreas := vas.virtualMemoryAreas } = vas) :
    vas.Keeps vas' := by
  rw [← heq]
  exact ⟨rfl, rfl, fun _ h ↦ h⟩

/-- `map_pfr_for_vma` takes no mapping away. -/
theorem mapPfrForVma_keeps {range : PhysFrameRange}
    (h : vas.mapPfrForVma vma range flags fa = .ok (some (vas', fa'))) : vas.Keeps vas' := by
  obtain ⟨heq, -, hse, hmap⟩ := mapPfrForVma_ok h
  obtain ⟨hhalf, hm⟩ := mapPhysical_ok hmap
  refine ⟨by rw [heq], by rw [heq], fun a ↦ ?_⟩
  exact translate_isSome_of_maps hhalf hse hm (or_present_ne_zero _)

/-- `map_partial_vma` takes no mapping away. -/
theorem mapPartialVma_keeps {pages : PageRange} {space : MemorySpace}
    (hse : pages.start.number ≤ pages.stop.number) (hflags : flags ≠ 0)
    (h : vas.mapPartialVma vma pages space flags fa = .ok (vas', fa')) : vas.Keeps vas' := by
  obtain ⟨found, -, h⟩ := of_bind h
  split at h
  next => cases h
  next =>
    split at h
    next => cases h
    next =>
      obtain ⟨⟨paging, fa''⟩, hmap, h⟩ := of_bind h
      cases h
      obtain ⟨hhalf, hm⟩ := map_ok hse hmap
      exact ⟨rfl, rfl, fun a ↦ translate_isSome_of_maps hhalf hse hm hflags⟩

private theorem mapPfrForVma_of_len {range : PhysFrameRange} (hne : vma.range.len ≠ 0)
    (hlen : range.len = vma.range.len) : vas.mapPfrForVma vma range flags fa = (do
      let (paging, fa) ← vas.pageTables.mapPhysical range vma.range vma.space
        (vma.checkAndEnforceConsistency flags ||| PageTableFlags.present) fa
      .ok (some ({ vas with pageTables := paging }, fa))) := by
  simp only [PhysFrameRange.len, PageRange.len] at hne hlen
  have hstart : vma.range.start ≠ vma.range.stop := by
    intro heq
    rw [heq] at hne
    omega
  unfold mapPfrForVma mapPfrForPartialVma
  rw [if_neg hstart, subOrPanic_of_le (by omega)]
  rw [show vma.range.stop.sub vma.range.start = .ok _ from subOrPanic_of_le (by omega)]
  show (if _ then _ else _) = _
  rw [if_neg (not_not.mpr hlen)]
  rw [if_neg (by omega)]

/-- A range that fits the area is mapped. -/
theorem mapPfrForVma_ne_none {range : PhysFrameRange} (hne : vma.range.len ≠ 0)
    (hlen : range.len = vma.range.len) :
    vas.mapPfrForVma vma range flags fa ≠ .ok none := by
  intro h
  rw [mapPfrForVma_of_len hne hlen] at h
  obtain ⟨r, -, h⟩ := of_bind h
  cases h

end VirtualAddressSpace

end D3OS.Memory
