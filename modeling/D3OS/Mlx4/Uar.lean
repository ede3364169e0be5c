import D3OS.Memory.UserMappings
import D3OS.Mlx4.Calls

/-!
# UAR pages

Every UAR page is in the free list or belongs to one context, in every run. Who can reach
its frames is a matter of the address spaces as well: `open` maps the doorbell page before the
BlueFlame page, and gives the UAR page back if the second mapping fails, but not the first
mapping. The frames stay private in the runs in which that does not happen.
-/

namespace D3OS.Mlx4

open Lib Memory

namespace UarPage

/-- The frames of a UAR page. -/
def frames (page : UarPage) : List PhysFrame := page.doorbell :: page.blueflame.toList

/-- The address of a page of the UAR region. -/
def addrAt (startAddr index : Nat) : Except Panic Nat := do
  let offset ← mulOrPanic pageSize index
  addOrPanic startAddr offset

/-- The frame at an address; that it is aligned is expected. -/
def frameAt (addr : Nat) : Except Panic PhysFrame := do
  let physAddr ← PhysAddr.new addr
  unwrap (PhysFrame.fromStartAddress physAddr)

/-- The BlueFlame frame at an address, on a card that has BlueFlame. -/
def blueflameAt (caps : Capabilities) (addr : Nat) : Except Panic (Option PhysFrame) :=
  if caps.bf then some <$> frameAt addr else .ok none

/-- A round of the loop of `init` over the UAR pages, `mod.rs:187-196`. -/
def atIndex (caps : Capabilities) (startAddr numUars index : Nat) : Except Panic UarPage := do
  let uarAddr ← addrAt startAddr index
  let bfAddr ← addrAt startAddr (numUars + index)
  let doorbell ← frameAt uarAddr
  let blueflame ← blueflameAt caps bfAddr
  .ok ⟨index, doorbell, blueflame⟩

/-- The UAR pages that `init` puts into the list, `mod.rs:183-197`. -/
def all (caps : Capabilities) (startAddr : Nat) : Except Panic (List UarPage) := do
  let numUars ← caps.numUars
  let firstUar := caps.numRsvdUars.toNat
  (List.range' firstUar (numUars - firstUar)).mapM (atIndex caps startAddr numUars)

variable {startAddr : Nat}

private theorem addrAt_ok {index addr : Nat} (h : addrAt startAddr index = .ok addr) :
    addr = startAddr + pageSize * index := by
  obtain ⟨offset, hoffset, h⟩ := of_bind h
  rw [← (addOrPanic_eq_ok.mp h).2, (mulOrPanic_eq_ok.mp hoffset).2]

variable {frame : PhysFrame}

private theorem frameAt_ok {addr : Nat} (h : frameAt addr = .ok frame) :
    frame.number * pageSize = addr := by
  obtain ⟨physAddr, hphys, h⟩ := of_bind h
  unfold PhysAddr.new at hphys
  split at hphys
  next hlt =>
    cases hphys
    unfold PhysFrame.fromStartAddress at h
    split at h
    next haligned =>
      cases h
      exact Nat.div_mul_cancel (Nat.dvd_of_mod_eq_zero haligned)
    next => cases h
  next => cases hphys

/-- Where the frames of a page are. -/
private structure Placed (startAddr numUars : Nat) (page : UarPage) : Prop where
  doorbell : page.doorbell.number * pageSize = startAddr + pageSize * page.index
  blueflame : ∀ frame, page.blueflame = some frame →
    frame.number * pageSize = startAddr + pageSize * (numUars + page.index)

variable {page : UarPage}

private theorem Placed.of_mem {numUars : Nat} (h : Placed startAddr numUars page)
    (hframe : frame ∈ page.frames) :
    frame.number * pageSize = startAddr + pageSize * page.index ∨
      frame.number * pageSize = startAddr + pageSize * (numUars + page.index) := by
  rcases List.mem_cons.mp hframe with rfl | hframe
  · exact .inl h.doorbell
  · exact .inr (h.blueflame frame (Option.mem_toList.mp hframe))

variable {caps : Capabilities}

private theorem atIndex_ok {numUars index : Nat}
    (h : atIndex caps startAddr numUars index = .ok page) :
    page.index = index ∧ Placed startAddr numUars page := by
  obtain ⟨uarAddr, huar, h⟩ := of_bind h
  obtain ⟨bfAddr, hbf, h⟩ := of_bind h
  obtain ⟨doorbell, hdoorbell, h⟩ := of_bind h
  obtain ⟨blueflame, hblueflame, h⟩ := of_bind h
  cases h
  refine ⟨rfl, (frameAt_ok hdoorbell).trans (addrAt_ok huar), fun frame hframe ↦ ?_⟩
  rw [show blueflame = some frame from hframe, blueflameAt] at hblueflame
  split at hblueflame
  next =>
    cases hat : frameAt bfAddr with
    | error e =>
      rw [hat] at hblueflame
      cases hblueflame
    | ok frame' =>
      rw [hat] at hblueflame
      cases hblueflame
      exact (frameAt_ok hat).trans (addrAt_ok hbf)
  next => cases hblueflame

/-- No two UAR pages have the same index. -/
theorem nodup_index_of_all {pages : List UarPage} (h : all caps startAddr = .ok pages) :
    (pages.map UarPage.index).Nodup := by
  obtain ⟨numUars, -, h⟩ := of_bind h
  have hindex : ∀ index ∈ List.range' caps.numRsvdUars.toNat (numUars - caps.numRsvdUars.toNat),
      ∀ page, atIndex caps startAddr numUars index = .ok page → page.index = id index :=
    fun index _ page hpage ↦ (atIndex_ok hpage).1
  rw [mapM_map_eq h hindex, List.map_id]
  exact List.nodup_range'

/-- No two UAR pages have a frame in common. -/
theorem eq_of_mem_frames {pages : List UarPage} (h : all caps startAddr = .ok pages)
    {page' : UarPage} (hpage : page ∈ pages) (hpage' : page' ∈ pages) (hframe : frame ∈ page.frames)
    (hframe' : frame ∈ page'.frames) : page = page' := by
  obtain ⟨numUars, -, h⟩ := of_bind h
  obtain ⟨i, hi, hat⟩ := exists_of_mem_mapM h hpage
  obtain ⟨i', hi', hat'⟩ := exists_of_mem_mapM h hpage'
  obtain ⟨rfl, hplaced⟩ := atIndex_ok hat
  obtain ⟨rfl, hplaced'⟩ := atIndex_ok hat'
  rw [List.mem_range'_1] at hi hi'
  have hindex : page.index = page'.index := by
    have hnumber := hplaced.of_mem hframe
    have hnumber' := hplaced'.of_mem hframe'
    simp only [pageSize] at hnumber hnumber'
    omega
  rw [hindex] at hat
  exact Except.ok.inj (hat.symm.trans hat')

end UarPage

/-- No verb changes the owner or the UAR page of a context. -/
theorem Effect.owner_uarPage {s s' : Session} {verb : Verb} (h : Effect s verb s') :
    s'.ctx.owner = s.ctx.owner ∧ s'.ctx.uarPage = s.ctx.uarPage := by
  cases h <;> exact ⟨rfl, rfl⟩

namespace Mlx4Device

/-- The UAR page of a context as a list. -/
def pageOf (ctx : UContext) : List UarPage := [ctx.uarPage]

/-- The places where UAR pages are: the free list and the contexts. -/
def places (dev : Mlx4Device) : Option Nat → List UarPage
  | none => dev.uarList
  | some handle => dev.held pageOf handle

/-- Every one of the pages is in one place. -/
structure PagesPlaced (pages : List UarPage) (dev : Mlx4Device) : Prop where
  apart : Apart dev.places
  mem_iff : ∀ page, (∃ place, page ∈ dev.places place) ↔ page ∈ pages

variable {pages : List UarPage} {dev dev' : Mlx4Device}

private theorem PagesPlaced.move (h : PagesPlaced pages dev) {place place' : Option Nat}
    {page : UarPage} {rest : List UarPage} (hne : place' ≠ place)
    (hpage : (page :: rest).Perm (dev.places place))
    (hplaces : dev'.places = Function.update (Function.update dev.places place rest) place'
      (dev.places place' ++ [page])) : PagesPlaced pages dev' where
  apart := by
    rw [hplaces]
    exact h.apart.move hne hpage
  mem_iff other := by
    rw [← h.mem_iff, hplaces]
    exact exists_mem_move hne hpage

private theorem PagesPlaced.congr (h : PagesPlaced pages dev) (hplaces : dev'.places = dev.places) :
    PagesPlaced pages dev' := by
  constructor
  · rw [hplaces]
    exact h.apart
  · rw [hplaces]
    exact h.mem_iff

private theorem places_of_held (huar : dev'.uarList = dev.uarList)
    (hheld : dev'.held pageOf = dev.held pageOf) : dev'.places = dev.places := by
  funext place
  cases place with
  | none => exact huar
  | some handle => exact congrFun hheld handle

private theorem places_of_update {handle : Nat} {l : List UarPage}
    (hheld : dev'.held pageOf = Function.update (dev.held pageOf) handle l) :
    dev'.places =
      Function.update (Function.update dev.places (some handle) l) none dev'.uarList := by
  funext place
  cases place with
  | none => rw [Function.update_self, places]
  | some j =>
    rw [Function.update_of_ne (by simp), places, hheld]
    by_cases hj : j = handle
    · subst hj
      rw [Function.update_self, Function.update_self]
    · rw [Function.update_of_ne hj, Function.update_of_ne (by simpa using hj), places]

private theorem PagesPlaced.releases {handles : List Nat} {log : List Command}
    (h : PagesPlaced pages dev) (hreleases : Releases dev handles log dev') :
    PagesPlaced pages dev' := by
  induction hreleases with
  | nil dev => exact h
  | missing hctx hrest ih => exact ih h
  | @kept dev dev' handle handles ctx ctx' log log' hctx htorn hbare hrest ih =>
    refine ih (h.congr (places_of_held rfl ?_))
    have hpage : pageOf ctx' = dev.held pageOf handle := by
      rw [held_of_some hctx, pageOf, htorn.uarPage_eq, pageOf]
    rw [held_keep, hpage, Function.update_eq_self]
  | @freed dev dev' handle handles ctx ctx' log log' hctx htorn hbare hrest ih =>
    apply ih
    have hpage : [ctx'.uarPage].Perm (dev.places (some handle)) := by
      rw [places, held_of_some hctx, pageOf, htorn.uarPage_eq]
    exact h.move (Option.some_ne_none handle).symm hpage (places_of_update (held_of_erase rfl))

/-- Every call keeps the pages in their places. -/
theorem PagesPlaced.effect (h : PagesPlaced pages dev) (hbelow : dev.HandlesBelow) {call : Call}
    (heffect : DeviceEffect dev call dev') : PagesPlaced pages dev' := by
  cases heffect with
  | nothing call => exact h
  | @verb process handle verb ctx s' hctx howner heffect =>
    refine h.congr (places_of_held rfl ?_)
    have hpage : pageOf s'.ctx = dev.held pageOf handle := by
      rw [held_of_some hctx, pageOf, heffect.owner_uarPage.2, pageOf]
    rw [held_of_insert rfl, hpage, Function.update_eq_self]
  | @opened process doorbellFaults blueflameFaults fa uarList page pages' hlist =>
    have hpage : (page :: uarList).Perm (dev.places none) := by
      rw [places, hlist]
      exact (List.perm_append_singleton page uarList).symm
    have hnone : dev.places (some dev.nextContext) = [] :=
      held_of_none (hbelow _ (Nat.le_refl _))
    refine h.move (Option.some_ne_none dev.nextContext) hpage ?_
    rw [places_of_update (held_of_insert rfl), hnone, Function.update_comm (by simp)]
    rfl
  | released hreleases => exact h.releases hreleases

/-- All pages are in the list at first. -/
theorem PagesPlaced.of_initial (h : dev.Initial) (hnodup : dev.uarList.Nodup) :
    PagesPlaced dev.uarList dev := by
  have hnone : ∀ handle, dev.places (some handle) = [] :=
    fun handle ↦ held_of_none (h.getElem?_contexts handle)
  refine ⟨⟨?_, ?_⟩, ?_⟩
  · intro place
    cases place with
    | none => exact hnodup
    | some handle =>
      rw [hnone]
      exact List.nodup_nil
  · intro place place' hne
    cases place with
    | none =>
      cases place' with
      | none => exact absurd rfl hne
      | some handle =>
        rw [hnone]
        exact List.disjoint_nil_right _
    | some handle =>
      rw [hnone]
      exact List.disjoint_nil_left _
  · intro page
    constructor
    · rintro ⟨place, hpage⟩
      cases place with
      | none => exact hpage
      | some handle =>
        rw [hnone] at hpage
        cases hpage
    · exact fun hpage ↦ ⟨none, hpage⟩

end Mlx4Device

end D3OS.Mlx4
