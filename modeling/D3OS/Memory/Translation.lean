import D3OS.Lib.Runs
import D3OS.Memory.PageMap

/-!
# Translation and access rights after mapping

`Paging::map` and `Paging::map_physical` on the whole tree: which physical address
`translate` returns for the pages of the range and for all others, and which rights the
processor grants on the walk to a page of the range. The processor grants a right
when the entries of all four levels have it; the entries above level 1 are written
by the call that creates them and by no later one.
-/

namespace D3OS.Memory

open Lib

variable {pages : PageRange}

/-- The pages of a range, as positions of the root table. -/
theorem inSpan_iff_contains (h : pages.OneHalf) (hse : pages.start.number ≤ pages.stop.number)
    (p : Page) : InSpan 512 4 pages.start.number pages.stop.number p.number ↔ pages.Contains p := by
  have h1 := p.canonical
  have h3 := pages.stop.canonical
  have h4 : (512 : Nat) ^ 4 = 2 ^ 36 := by decide
  simp only [InSpan, span, PageRange.Contains, h4]
  rcases h with hlo | hhi
  · omega
  · omega

/-- A page of a range is the one that its position stands for. -/
theorem keyAt_eq (h : pages.OneHalf) {p : Page} (hp : pages.Contains p) :
    keyAt 512 4 pages.start.number p.number = p.number := by
  have h3 := pages.stop.canonical
  have h4 : (512 : Nat) ^ 4 = 2 ^ 36 := by decide
  simp only [PageRange.Contains] at hp
  simp only [keyAt, h4]
  rcases h with hlo | hhi
  · omega
  · omega

private theorem oneHalf_of_span (hse : pages.start.number ≤ pages.stop.number) {q : Page}
    (hq : q.number =
      pages.start.number + span 512 4 pages.start.number pages.stop.number) : pages.OneHalf := by
  have h1 := q.canonical
  have h2 := pages.start.canonical
  have h4 : (512 : Nat) ^ 4 = 2 ^ 36 := by decide
  simp only [span, h4] at hq
  by_cases hlo : pages.stop.number < 2 ^ 35
  · exact .inl hlo
  · exact .inr (by omega)

private theorem span_eq_len (h : pages.OneHalf) (hse : pages.start.number ≤ pages.stop.number) :
    span 512 4 pages.start.number pages.stop.number = pages.len := by
  have h3 := pages.stop.canonical
  have h4 : (512 : Nat) ^ 4 = 2 ^ 36 := by decide
  simp only [span, PageRange.len, h4]
  rcases h with hlo | hhi
  · omega
  · omega

section

variable {paging paging' : Paging} {pages : PageRange} {frames : PhysFrameRange}
  {space : MemorySpace} {flags : PageTableFlags} {fa fa' : FrameAllocator}

private theorem zero_lt_frames : 0 < 2 ^ 40 := by decide

/-- The frame range that `map` passes on. -/
def noFrames : PhysFrameRange := ⟨⟨0, zero_lt_frames⟩, ⟨0, zero_lt_frames⟩⟩

private theorem mapRoot_ok {n : Nat} {root : PageTable 3}
    (hse : pages.start.number ≤ pages.stop.number) (hfit : Fits frames pages)
    (h : mapInTable 3 paging.rootTable frames pages space flags fa = .ok (root, n, fa')) :
    pages.OneHalf ∧ TableMapped space frames pages flags fa paging.rootTable (root, n, fa') := by
  have hy := (mapInTable_yields (G := False) paging.rootTable hse hfit (fun hg ↦ hg.elim)).of_ok h
  obtain ⟨hm, hz | ⟨q, hq⟩⟩ := hy
  · exact absurd hz (by decide)
  · rw [hm.1] at hq
    exact ⟨oneHalf_of_span hse hq, hm⟩

private theorem maps_of_tableMapped {r : PageTable 3 × Nat × FrameAllocator}
    (h : TableMapped space frames pages flags fa paging.rootTable r) :
    Maps 3 (FrameFor space frames pages.start.number) flags pages.start.number pages.stop.number
      paging.rootTable r.1 := by
  obtain ⟨-, order, hm, -⟩ := h
  exact hm.mono fun q f _ _ hf ↦ hf.1

private theorem mapRoot_returns (paging : Paging) (hse : pages.start.number ≤ pages.stop.number)
    (hfit : Fits frames pages) (h : Mappable fa.supply pages space flags) :
    ∃ r, mapInTable 3 paging.rootTable frames pages space flags fa = .ok r := by
  obtain ⟨r, hr, -⟩ := (mapInTable_yields (G := True) paging.rootTable hse hfit
    (fun _ ↦ h)).exists_ok (fun _ hne ↦ hne trivial)
  exact ⟨r, hr⟩

/-- What `map` does to the tree. -/
theorem map_ok (hse : pages.start.number ≤ pages.stop.number)
    (h : paging.map pages space flags fa = .ok (paging', fa')) :
    pages.OneHalf ∧ Maps 3 (FrameFor space noFrames pages.start.number) flags
      pages.start.number pages.stop.number paging.rootTable paging'.rootTable := by
  obtain ⟨⟨root, n, fa''⟩, hr, heq⟩ := of_bind h
  cases heq
  have hfit : Fits noFrames pages := .inl rfl
  obtain ⟨hhalf, hm⟩ := mapRoot_ok hse hfit hr
  exact ⟨hhalf, maps_of_tableMapped hm⟩

/-- Which frames `map` gives to the pages of a range in user space: one frame of the supply
for every page, each at a later place than the one before. -/
theorem map_user_ok (hse : pages.start.number ≤ pages.stop.number)
    (h : paging.map pages .user flags fa = .ok (paging', fa')) :
    pages.OneHalf ∧ ∃ order : List Nat, order.length = pages.len ∧ Handed fa fa' order ∧
      Maps 3 (fun q f ↦ ∃ i, order[q - pages.start.number]? = some i ∧ fa.supply i = some f) flags
        pages.start.number pages.stop.number paging.rootTable paging'.rootTable := by
  obtain ⟨⟨root, n, fa''⟩, hr, heq⟩ := of_bind h
  cases heq
  have hfit : Fits noFrames pages := .inl rfl
  obtain ⟨hhalf, hn, order, hm, hhanded, hlen⟩ := mapRoot_ok hse hfit hr
  refine ⟨hhalf, order, ?_, hhanded, hm.mono fun q f _ _ hf ↦ hf.2 rfl rfl⟩
  rw [hlen rfl rfl, hn, span_eq_len hhalf hse]

section

variable (h : paging.mapPhysical frames pages space flags fa = .ok (paging', fa'))
include h

private theorem mapPhysical_result :
    (pages.OneHalf ∧ Maps 3 (FrameFor space frames pages.start.number) flags
      pages.start.number pages.stop.number paging.rootTable paging'.rootTable) ∧
      OnlyAllocated fa fa' := by
  obtain ⟨numFrames, hf, h⟩ := of_bind h
  obtain ⟨numPages, hp, h⟩ := of_bind h
  obtain ⟨hfle, rfl⟩ := subOrPanic_eq_ok.mp hf
  obtain ⟨hse, rfl⟩ := subOrPanic_eq_ok.mp hp
  split at h
  next hlen =>
    obtain ⟨⟨root, n, fa''⟩, hr, heq⟩ := of_bind h
    cases heq
    have hfit : Fits frames pages := by
      by_cases hlt : frames.start.number < frames.stop.number
      · exact .inr ⟨hlt, by omega⟩
      · exact .inl (by omega)
    obtain ⟨hhalf, hm⟩ := mapRoot_ok hse hfit hr
    have hmaps := maps_of_tableMapped hm
    obtain ⟨-, order, -, hhanded, -⟩ := hm
    exact ⟨⟨hhalf, hmaps⟩, hhanded.only⟩
  next => exact absurd h (by simp)

/-- What `map_physical` does to the tree, once it has checked the lengths. -/
theorem mapPhysical_ok :
    pages.OneHalf ∧ Maps 3 (FrameFor space frames pages.start.number) flags
      pages.start.number pages.stop.number paging.rootTable paging'.rootTable :=
  (mapPhysical_result h).1

/-- `map_physical` frees nothing. -/
theorem mapPhysical_onlyAllocated :
    OnlyAllocated fa fa' :=
  (mapPhysical_result h).2

end

/-- `map` returns where it is not one of the cases that panic. -/
theorem map_returns (paging : Paging) (hse : pages.start.number ≤ pages.stop.number)
    (h : Mappable fa.supply pages space flags) : ∃ r, paging.map pages space flags fa = .ok r := by
  have hfit : Fits noFrames pages := .inl rfl
  obtain ⟨⟨root, n, fa'⟩, hr⟩ := mapRoot_returns paging hse hfit h
  exact ⟨_, bind_eq_ok.mpr ⟨_, hr, rfl⟩⟩

private theorem mapPhysical_returns (paging : Paging)
    (hf : frames.start.number ≤ frames.stop.number)
    (hse : pages.start.number ≤ pages.stop.number) (hlen : frames.len = pages.len)
    (h : Mappable fa.supply pages space flags) :
    ∃ r, paging.mapPhysical frames pages space flags fa = .ok r := by
  simp only [PhysFrameRange.len, PageRange.len] at hlen
  have hfit : Fits frames pages := by
    by_cases hlt : frames.start.number < frames.stop.number
    · exact .inr ⟨hlt, by omega⟩
    · exact .inl (by omega)
  obtain ⟨⟨root, n, fa'⟩, hr⟩ := mapRoot_returns paging hse hfit h
  refine ⟨(⟨root⟩, fa'), bind_eq_ok.mpr ⟨_, subOrPanic_of_le hf, bind_eq_ok.mpr
    ⟨_, subOrPanic_of_le hse, ?_⟩⟩⟩
  rw [if_pos hlen]
  exact bind_eq_ok.mpr ⟨_, hr, rfl⟩

end

/-- After a call that turned `paging` into `paging'` the pages of the range translate to
consecutive frames from frame number `first` on, all other addresses as before. -/
def TranslatesTo (paging paging' : Paging) (pages : PageRange) (first : Nat) : Prop :=
  (∀ i < pages.len, ∀ o < pageSize, ∀ a : VirtAddr,
    a.asU64 = (pages.start.number + i) * pageSize + o →
      (paging'.translate a).map PhysAddr.asU64 = some ((first + i) * pageSize + o)) ∧
  ∀ a : VirtAddr, ¬ pages.ContainsAddr a → paging'.translate a = paging.translate a

/-- The page of an address that is given by its place in a range. -/
theorem contains_of_offset {i o : Nat} {a : VirtAddr} (hi : i < pages.len) (ho : o < pageSize)
    (ha : a.asU64 = (pages.start.number + i) * pageSize + o) :
    pages.Contains (Page.containingAddress a) ∧ a.asU64 / pageSize = pages.start.number + i := by
  have hdiv : a.asU64 / pageSize = pages.start.number + i := by
    rw [ha]
    simp only [pageSize] at ho ⊢
    omega
  simp only [PageRange.len] at hi
  refine ⟨?_, hdiv⟩
  show pages.start.number ≤ a.asU64 / pageSize ∧ a.asU64 / pageSize < pages.stop.number
  omega

/-- The frame that a page of the range shows. -/
theorem TranslatesTo.frame {paging paging' : Paging} {first : Nat}
    (h : TranslatesTo paging paging' pages first) {a : VirtAddr} (ha : pages.ContainsAddr a) :
    ∃ p, paging'.translate a = some p ∧
      p.asU64 / pageSize = first + (a.asU64 / pageSize - pages.start.number) := by
  obtain ⟨hfirst, hlast⟩ : pages.start.number ≤ a.asU64 / pageSize ∧
    a.asU64 / pageSize < pages.stop.number := ha
  have hphys := h.1 _ (Nat.sub_lt_sub_right hfirst hlast) _ (Nat.mod_lt a.asU64 (by decide)) a
    (by rw [Nat.add_sub_cancel' hfirst, Nat.div_add_mod'])
  obtain ⟨p, hp, hnum⟩ := Option.map_eq_some_iff.mp hphys
  refine ⟨p, hp, ?_⟩
  rw [hnum, Nat.mul_comm, Nat.mul_add_div (by decide), Nat.mod_div_self, Nat.add_zero]

/-- The translation that results from the effect on the tables. -/
theorem translatesTo_of_maps {paging paging' : Paging} {flags : PageTableFlags}
    {F : Nat → PhysFrame → Prop} {first : Nat} (hhalf : pages.OneHalf)
    (hse : pages.start.number ≤ pages.stop.number)
    (hm : Maps 3 F flags pages.start.number pages.stop.number paging.rootTable paging'.rootTable)
    (hF : ∀ q f, pages.start.number ≤ q → F q f → f.number + pages.start.number = first + q)
    (hflags : flags ≠ 0 ∨ first ≠ 0) : TranslatesTo paging paging' pages first := by
  constructor
  · intro i hi o ho a ha
    obtain ⟨hp, hdiv⟩ := contains_of_offset hi ho ha
    obtain ⟨f, hf, he⟩ := hm.inside _ ((inSpan_iff_contains hhalf hse _).mpr hp)
    rw [keyAt_eq hhalf hp] at hf
    have hnum := hF _ f hp.1 hf
    have hpage : (Page.containingAddress a).number = pages.start.number + i := hdiv
    have hused : PageTableEntry.isUnused ⟨f, flags⟩ = false := by
      simp only [PageTableEntry.isUnused, Bool.and_eq_false_iff, beq_eq_false_iff_ne]
      rcases hflags with hfl | hfi
      · exact .inr hfl
      · exact .inl (by omega)
    rw [Paging.translate, translateInTable_eq, lookup, he]
    simp only [Option.filter_some, hused, Bool.not_false, if_true, Option.map_some,
      PageTableEntry.address, Option.some.injEq]
    have hfi : f.number = first + i := by omega
    rw [hfi, ha]
    simp only [pageSize] at ho ⊢
    omega
  · intro a ha
    rw [Paging.translate, Paging.translate, translateInTable_eq, translateInTable_eq,
      hm.outside _ fun hin ↦ ha ((inSpan_iff_contains hhalf hse _).mp hin)]

/-- Mapping does not take a translation away. -/
theorem translate_isSome_of_maps {paging paging' : Paging} {flags : PageTableFlags}
    {F : Nat → PhysFrame → Prop} (hhalf : pages.OneHalf)
    (hse : pages.start.number ≤ pages.stop.number)
    (hm : Maps 3 F flags pages.start.number pages.stop.number paging.rootTable paging'.rootTable)
    (hflags : flags ≠ 0) {a : VirtAddr} (h : (paging.translate a).isSome) :
    (paging'.translate a).isSome := by
  rw [Paging.translate, translateInTable_eq] at h ⊢
  by_cases ha : pages.Contains (Page.containingAddress a)
  · obtain ⟨f, -, he⟩ := hm.inside _ ((inSpan_iff_contains hhalf hse _).mpr ha)
    have hused : PageTableEntry.isUnused ⟨f, flags⟩ = false := by
      simp only [PageTableEntry.isUnused, Bool.and_eq_false_iff, beq_eq_false_iff_ne]
      exact .inr hflags
    rw [lookup, he, Option.filter_some, hused]
    rfl
  · rwa [hm.outside _ fun hin ↦ ha ((inSpan_iff_contains hhalf hse _).mp hin)]

/-- `map_physical` in user space and the identity mapping of `map` in kernel space
translate the pages of the range to their frames and leave all others alone, whatever
was mapped before. Both return unless the frame allocator is exhausted, the huge page
flag is requested, or, in kernel space, the range leaves the lower half. An entry with
frame 0 and no flag at all would count as unused; every caller sets `PRESENT`. -/
theorem map_translatesTo (paging : Paging) (pages : PageRange) (flags : PageTableFlags)
    (fa : FrameAllocator) (hpos : pages.len ≠ 0) :
    (∀ frames : PhysFrameRange, frames.len = pages.len → (flags ≠ 0 ∨ frames.start.number ≠ 0) →
      (∀ paging' fa', paging.mapPhysical frames pages .user flags fa = .ok (paging', fa') →
        TranslatesTo paging paging' pages frames.start.number) ∧
      (Mappable fa.supply pages .user flags →
        ∃ r, paging.mapPhysical frames pages .user flags fa = .ok r)) ∧
    ((flags ≠ 0 ∨ pages.start.number ≠ 0) →
      (∀ paging' fa', paging.map pages .kernel flags fa = .ok (paging', fa') →
        TranslatesTo paging paging' pages pages.start.number) ∧
      (Mappable fa.supply pages .kernel flags →
        ∃ r, paging.map pages .kernel flags fa = .ok r)) := by
  have hse : pages.start.number ≤ pages.stop.number := by
    simp only [PageRange.len] at hpos
    omega
  constructor
  · intro frames hlen hflags
    have hlt : frames.start.number < frames.stop.number := by
      simp only [PhysFrameRange.len, PageRange.len] at hlen hpos
      omega
    refine ⟨?_, mapPhysical_returns paging hlt.le hse hlen⟩
    intro paging' fa' hok
    obtain ⟨hhalf, hm⟩ := mapPhysical_ok hok
    exact translatesTo_of_maps hhalf hse hm (fun q f _ hF ↦ hF hlt) hflags
  · intro hflags
    refine ⟨?_, map_returns paging hse⟩
    intro paging' fa' hok
    obtain ⟨hhalf, hm⟩ := map_ok hse hok
    refine translatesTo_of_maps hhalf hse hm ?_ hflags
    intro q f _ hF
    rw [show f.number = q from hF]
    exact Nat.add_comm _ _

/-- An allocator that hands out the frames 1, 2, 3, … and never frame 0. -/
def ascendingFrames : FrameAllocator :=
  ⟨fun n ↦ some ⟨n % 2 ^ 30 + 1, by omega⟩, 0, [], []⟩

/-- 514 pages that reach over two level 1 tables, onto frames of another alignment and
onto themselves. -/
theorem map_translatesTo_across_tables :
    let pages : PageRange := ⟨⟨511, by decide⟩, ⟨1025, by decide⟩⟩
    let frames : PhysFrameRange := ⟨⟨7, by decide⟩, ⟨521, by decide⟩⟩
    (∃ r, Paging.new.mapPhysical frames pages .user PageTableFlags.present ascendingFrames = .ok r ∧
      TranslatesTo Paging.new r.1 pages 7) ∧
    ∃ r, Paging.new.map pages .kernel PageTableFlags.present ascendingFrames = .ok r ∧
      TranslatesTo Paging.new r.1 pages 511 := by
  intro pages frames
  have hmap : ∀ space, Mappable ascendingFrames.supply pages space PageTableFlags.present :=
    fun _ ↦ ⟨by decide, fun n ↦ ⟨_, rfl, Nat.succ_ne_zero _⟩, .inl (by decide), fun _ ↦ by decide⟩
  obtain ⟨hphys, hkernel⟩ :=
    map_translatesTo Paging.new pages PageTableFlags.present ascendingFrames (by decide)
  constructor
  · obtain ⟨hto, hret⟩ := hphys frames (by decide) (.inl (by decide))
    obtain ⟨r, hr⟩ := hret (hmap .user)
    exact ⟨r, hr, hto r.1 r.2 hr⟩
  · obtain ⟨hto, hret⟩ := hkernel (.inl (by decide))
    obtain ⟨r, hr⟩ := hret (hmap .kernel)
    exact ⟨r, hr, hto r.1 r.2 hr⟩

namespace Paging

/-- The entries above level 1 that exist on the walk to page `p` have the flag. -/
def grantsAbove (paging : Paging) (right : PageTableFlags) (p : Page) : Bool :=
  (upperFlags 3 paging.rootTable p.number).all (·.contains right)

/-- The processor grants the right on page `p`: all entries of its walk have the flag. -/
def grants (paging : Paging) (right : PageTableFlags) (p : Page) : Bool :=
  match entryAt 3 paging.rootTable p.number with
  | none => false
  | some entry => entry.flags.contains right && paging.grantsAbove right p

end Paging

/-- The rights that a mapping may ask for or leave out. -/
def rights : List PageTableFlags := [PageTableFlags.writable, PageTableFlags.userAccessible]

/-- The pages of the range have exactly the requested rights. -/
def HasRequestedRights (paging : Paging) (pages : PageRange) (flags : PageTableFlags) : Prop :=
  ∀ p, pages.Contains p → ∀ right ∈ rights, paging.grants right p = flags.contains right

/-- The entries that already lead to the pages of the range have the requested rights. -/
def TablesGrantRights (paging : Paging) (pages : PageRange) (flags : PageTableFlags) : Prop :=
  ∀ p, pages.Contains p → ∀ right ∈ rights, flags.contains right → paging.grantsAbove right p

section

variable {paging paging' : Paging} {pages : PageRange} {flags : PageTableFlags}
  {F : Nat → PhysFrame → Prop}

private theorem grants_of_maps (hhalf : pages.OneHalf)
    (hse : pages.start.number ≤ pages.stop.number)
    (hm : Maps 3 F flags pages.start.number pages.stop.number paging.rootTable paging'.rootTable)
    {p : Page} (hp : pages.Contains p) (right : PageTableFlags) :
    paging'.grants right p = (flags.contains right && paging.grantsAbove right p) := by
  have hin := (inSpan_iff_contains hhalf hse p).mpr hp
  obtain ⟨f, -, he⟩ := hm.inside _ hin
  have hup := hm.upper _ hin
  simp only [Paging.grants, Paging.grantsAbove, he, hup, List.all_append, List.all_replicate]
  cases flags.contains right <;> simp

private theorem hasRequestedRights_iff_of_maps (h : pages.start.number ≤ pages.stop.number →
      pages.OneHalf ∧ Maps 3 F flags pages.start.number pages.stop.number paging.rootTable
        paging'.rootTable) :
    HasRequestedRights paging' pages flags ↔ TablesGrantRights paging pages flags := by
  have hgrants : ∀ p, pages.Contains p → ∀ right,
      paging'.grants right p = (flags.contains right && paging.grantsAbove right p) := by
    intro p hp right
    have hse : pages.start.number ≤ pages.stop.number := le_trans hp.1 hp.2.le
    exact grants_of_maps (h hse).1 hse (h hse).2 hp right
  constructor
  · intro hreq p hp right hr hfl
    have hg := hreq p hp right hr
    rw [hgrants p hp right, hfl] at hg
    exact hg
  · intro htab p hp right hr
    rw [hgrants p hp right]
    cases hfl : flags.contains right with
    | false => rfl
    | true => exact htab p hp right hr hfl

end

/-- After a mapping call, its pages have the requested rights. -/
def RightsAfter (_ : Paging × FrameAllocator) (call : PagingCall) (st' : Paging × FrameAllocator) :
    Prop :=
  match call with
  | .map pages _ flags => HasRequestedRights st'.1 pages flags
  | .mapPhysical _ pages _ flags => HasRequestedRights st'.1 pages flags
  | .unmap _ _ => True

/-- Before a mapping call, the tables on the way to its pages have the requested rights. -/
def RightsBefore (st : Paging × FrameAllocator) (call : PagingCall) (_ : Paging × FrameAllocator) :
    Prop :=
  match call with
  | .map pages _ flags => TablesGrantRights st.1 pages flags
  | .mapPhysical _ pages _ flags => TablesGrantRights st.1 pages flags
  | .unmap _ _ => True

/-- In a run of calls from an empty tree every mapped range gets exactly the requested
rights if and only if no call asks for a right that an entry above level 1, written by
an earlier call, does not have. -/
theorem requested_rights_iff (fa : FrameAllocator) (calls : List PagingCall) :
    Along Paging.step RightsAfter (Paging.new, fa) calls ↔
      Along Paging.step RightsBefore (Paging.new, fa) calls := by
  apply along_congr
  rintro ⟨paging, fa⟩ call ⟨paging', fa'⟩ hstep
  cases call with
  | map pages space flags => exact hasRequestedRights_iff_of_maps fun hse ↦ map_ok hse hstep
  | mapPhysical frames pages space flags =>
    exact hasRequestedRights_iff_of_maps fun _ ↦ mapPhysical_ok hstep
  | unmap pages freePhysical => exact Iff.rfl

/-- A read-only mapping of page 0 takes the right to write away from a later mapping of
page 1, whose walk shares all of its tables. -/
theorem requested_rights_lost :
    let readOnly := PageTableFlags.present ||| PageTableFlags.userAccessible
    let readWrite := readOnly ||| PageTableFlags.writable
    ¬ Along Paging.step RightsAfter (Paging.new, ascendingFrames)
      [.map ⟨⟨0, by decide⟩, ⟨1, by decide⟩⟩ .user readOnly,
        .map ⟨⟨1, by decide⟩, ⟨2, by decide⟩⟩ .user readWrite] := by
  intro readOnly readWrite h
  obtain ⟨st₁, h₁, st₂, h₂, hlost⟩ : ∃ st, Paging.step (Paging.new, ascendingFrames)
      (.map ⟨⟨0, by decide⟩, ⟨1, by decide⟩⟩ .user readOnly) = .ok st ∧
      ∃ st', Paging.step st (.map ⟨⟨1, by decide⟩, ⟨2, by decide⟩⟩ .user readWrite) = .ok st' ∧
        st'.1.grants PageTableFlags.writable ⟨1, by decide⟩ = false := by
    decide +kernel
  have hrights := h.at_step [_] (bind_eq_ok.mpr ⟨st₁, h₁, rfl⟩) h₂
  have hgrant := hrights ⟨1, by decide⟩ (by decide) PageTableFlags.writable (by decide)
  cases hlost.symm.trans (hgrant.trans (by decide : _ = true))

section

variable {l : Nat}

private theorem copyTable_of_empty {table : PageTable (l + 1)} (h : ∀ i, table i = none)
    (fa : FrameAllocator) : copyTable (l + 1) table fa = .ok (table, fa) := by
  let I (t : PageTable (l + 1)) (fa' : FrameAllocator) : Prop := t = table ∧ fa' = fa
  have hscan : Yields (copyTable (l + 1) table fa) (fun r ↦ I r.1 r.2) (fun _ ↦ False) := by
    apply scanFrom_yields (I := fun _ t fa' ↦ I t fa') (Q := I) (Nat.zero_le _) ⟨rfl, rfl⟩ ?_
      fun _ _ h ↦ h
    rintro i hi t fa' ⟨rfl, rfl⟩
    have hsame : Function.update t ⟨i, hi⟩ none = t := by
      rw [← h ⟨i, hi⟩, Function.update_eq_self]
    rw [h]
    exact ⟨hsame, rfl⟩
  obtain ⟨⟨t, fa'⟩, hr, rfl, rfl⟩ := hscan.exists_ok (fun _ h ↦ h)
  exact hr

/-- `from_other` of empty page tables. -/
theorem fromOther_new {fa fa' : FrameAllocator} {frame : PhysFrame}
    (h : fa.allocFrame = .ok (frame, fa')) (hne : frame.number ≠ 0) :
    Paging.new.fromOther fa = .ok (Paging.new, fa') := by
  refine bind_eq_ok.mpr ⟨(frame, fa'), h, ?_⟩
  dsimp only
  rw [if_neg hne]
  exact bind_eq_ok.mpr ⟨_, copyTable_of_empty (fun _ ↦ rfl) fa', rfl⟩

end

end D3OS.Memory
