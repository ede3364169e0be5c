import D3OS.Memory.Vmm

/-!
# The areas of an address space

The invariant of `virtual_memory_areas` over all sequences of `alloc_vma` calls: the
areas are not empty, pairwise disjoint, stored under their start and within the bounds
of their memory space. `is_address_within_vma` relies on it.
-/

namespace D3OS.Memory

open Lib

/-- The end of an area as a number. -/
def VirtualMemoryArea.stopU64 (vma : VirtualMemoryArea) : Nat := vma.stop.asU64

/-- An area that is not empty has a page. -/
theorem VirtualMemoryArea.range_lt (vma : VirtualMemoryArea)
    (h : vma.start.asU64 < vma.stop.asU64) : vma.range.start.number < vma.range.stop.number :=
  Nat.lt_of_mul_lt_mul_right h

namespace VirtualAddressSpace

/-- The area is one of the address space. -/
def Has (vas : VirtualAddressSpace) (vma : VirtualMemoryArea) : Prop :=
  ∃ k : Nat, vas.virtualMemoryAreas[k]? = some vma

/-- What holds of the areas of an address space at all times. -/
structure WellFormed (vas : VirtualAddressSpace) : Prop where
  keyed : ∀ (k : Nat) vma, vas.virtualMemoryAreas[k]? = some vma → k = vma.start.asU64
  nonempty : ∀ vma, vas.Has vma → vma.start.asU64 < vma.stop.asU64
  disjoint : ∀ vma vma', vas.Has vma → vas.Has vma' → vma ≠ vma' →
    vma.stop.asU64 ≤ vma'.start.asU64 ∨ vma'.stop.asU64 ≤ vma.start.asU64
  user : ∀ vma, vas.Has vma → vma.space = .user →
    vas.firstUsableUserAddr.asU64 ≤ vma.start.asU64 ∧
      vma.stop.asU64 ≤ vas.lastUsableUserAddr.asU64
  kernel : ∀ vma, vas.Has vma → vma.space = .kernel →
    vma.start.asU64 < vas.firstUsableUserAddr.asU64 ∧
      vma.stop.asU64 ≤ vas.firstUsableUserAddr.asU64

/-- `WellFormed` in terms of the ordered map. -/
private structure AreasInv (vas : VirtualAddressSpace) : Prop where
  keyed : ∀ (k : Nat) vma, vas.virtualMemoryAreas[k]? = some vma → k = vma.start.asU64
  family : IntervalFamily (fun k ↦ vas.virtualMemoryAreas[k]?) VirtualMemoryArea.stopU64
  bounds : ∀ (k : Nat) vma, vas.virtualMemoryAreas[k]? = some vma →
    vas.withinBounds vma.space vma.start vma.stop

variable {vas : VirtualAddressSpace}

private theorem AreasInv.wellFormed (h : vas.AreasInv) : vas.WellFormed := by
  refine ⟨h.keyed, ?_, ?_, ?_, ?_⟩
  · rintro vma ⟨k, hk⟩
    rw [← h.keyed k vma hk]
    exact h.family.nonempty k vma hk
  · rintro vma vma' ⟨k, hk⟩ ⟨k', hk'⟩ hne
    rw [← h.keyed k vma hk, ← h.keyed k' vma' hk']
    rcases lt_trichotomy k k' with hlt | rfl | hlt
    · exact .inl (h.family.apart k vma k' vma' hk hk' hlt)
    · exact absurd (Option.some.inj (hk.symm.trans hk')) hne
    · exact .inr (h.family.apart k' vma' k vma hk' hk hlt)
  all_goals
    rintro vma ⟨k, hk⟩ hspace
    have hb := h.bounds k vma hk
    rw [hspace] at hb
    simpa [withinBounds] using hb

private theorem WellFormed.areasInv (h : vas.WellFormed) : vas.AreasInv := by
  refine ⟨h.keyed, ⟨?_, ?_⟩, ?_⟩
  · intro k vma hk
    rw [h.keyed k vma hk]
    exact h.nonempty vma ⟨k, hk⟩
  · intro k vma k' vma' hk hk' hlt
    have hne : vma ≠ vma' := by
      rintro rfl
      exact hlt.ne ((h.keyed k vma hk).trans (h.keyed k' vma hk').symm)
    have hnon := h.nonempty vma' ⟨k', hk'⟩
    rw [h.keyed k vma hk, h.keyed k' vma' hk'] at hlt
    rw [h.keyed k' vma' hk']
    rcases h.disjoint vma vma' ⟨k, hk⟩ ⟨k', hk'⟩ hne with hle | hle
    · exact hle
    · omega
  · intro k vma hk
    cases hspace : vma.space with
    | user => simpa [withinBounds] using h.user vma ⟨k, hk⟩ hspace
    | kernel => simpa [withinBounds] using h.kernel vma ⟨k, hk⟩ hspace

/-- The area may be added to the address space. -/
private structure Admits (vas : VirtualAddressSpace) (vma : VirtualMemoryArea) : Prop where
  nonempty : vma.start.asU64 < vma.stop.asU64
  bounds : vas.withinBounds vma.space vma.start vma.stop
  neighbours : vas.neighboursFree vma.start vma.stop

/-- The two outcomes of a call of `alloc_vma` that returns. -/
private def AllocOutcome (vas : VirtualAddressSpace) (space : MemorySpace) (typ : VmaType)
    (numPages : Nat) (r : VirtualAddressSpace × Option VirtualMemoryArea) : Prop :=
  r = (vas, none) ∨ ∃ vma, vas.Admits vma ∧ (vma.space = space ∧ vma.typ = typ) ∧
    vma.range.stop.number = vma.range.start.number + numPages ∧
    r = ({ vas with virtualMemoryAreas := vas.virtualMemoryAreas.insert vma.start.asU64 vma },
      some vma)

/-- The call panics or has one of these outcomes, whatever the page tables are. -/
private def Allocates (vas : VirtualAddressSpace) (space : MemorySpace) (typ : VmaType)
    (numPages : Nat) (call : VirtualAddressSpace →
      Except Panic (VirtualAddressSpace × Option VirtualMemoryArea)) : Prop :=
  (∃ e, ∀ tables, call { vas with pageTables := tables } = .error e) ∨
    ∃ r, vas.AllocOutcome space typ numPages r ∧
      ∀ tables, call { vas with pageTables := tables } =
        .ok ({ r.1 with pageTables := tables }, r.2)

variable {vma : VirtualMemoryArea}

private theorem AreasInv.insert (h : vas.AreasInv) (ha : vas.Admits vma) :
    AreasInv { vas with virtualMemoryAreas :=
      vas.virtualMemoryAreas.insert vma.start.asU64 vma } := by
  have hlook := getElem?_insert_eq_update vas.virtualMemoryAreas vma.start.asU64 vma
  have hnew : ∀ (k : Nat) v, (vas.virtualMemoryAreas.insert vma.start.asU64 vma)[k]? = some v →
      (k = vma.start.asU64 ∧ v = vma) ∨ vas.virtualMemoryAreas[k]? = some v := by
    intro k v hk
    rw [getElem?_insert_ite] at hk
    split at hk
    next hks => exact .inl ⟨hks, (Option.some.inj hk).symm⟩
    next => exact .inr hk
  have hn := ha.neighbours
  simp only [neighboursFree, Bool.and_eq_true] at hn
  refine ⟨?_, ?_, ?_⟩
  · intro k v hk
    rcases hnew k v hk with ⟨hk, rfl⟩ | hold
    · exact hk
    · exact h.keyed k v hold
  · rw [hlook]
    apply h.family.insert ha.nonempty (lastUpTo_spec _ _) (firstFrom_spec _ _)
    · intro k w hprev
      rw [hprev] at hn
      exact of_decide_eq_true hn.1
    · intro k w hnext
      rw [hnext] at hn
      exact of_decide_eq_true hn.2
  · intro k v hk
    rcases hnew k v hk with ⟨-, rfl⟩ | hold
    · exact ha.bounds
    · exact h.bounds k v hold

private theorem AllocOutcome.inv {space : MemorySpace} {typ : VmaType} {numPages : Nat}
    {r : VirtualAddressSpace × Option VirtualMemoryArea} (h : vas.AllocOutcome space typ numPages r)
    (hinv : vas.AreasInv) : r.1.AreasInv := by
  rcases h with rfl | ⟨vma, ha, -, -, rfl⟩
  · exact hinv
  · exact hinv.insert ha

variable {a : VirtAddr}

private theorem fromStartAddress_some {p : Page} (h : Page.fromStartAddress a = some p) :
    p.startAddress = a := by
  unfold Page.fromStartAddress at h
  split at h
  next haligned =>
    cases h
    apply VirtAddr.ext
    show a.asU64 / pageSize * pageSize = a.asU64
    simp only [pageSize] at haligned ⊢
    omega
  next => exact absurd h (by simp)

section

variable {vas : VirtualAddressSpace} {numPages : Nat} {space : MemorySpace} {typ : VmaType}
  {tag : List UInt8} {r : VirtualAddressSpace × Option VirtualMemoryArea}

private theorem allocates_none : vas.Allocates space typ numPages fun vas ↦ .ok (vas, none) :=
  .inr ⟨(vas, none), .inl rfl, fun _ ↦ rfl⟩

private theorem allocAt_allocates (page : Page) :
    vas.Allocates space typ numPages (allocAt · page numPages space typ tag) := by
  unfold allocAt
  split
  next => exact allocates_none
  next hpos =>
    split
    next => exact allocates_none
    next size hsize =>
      split
      next => exact allocates_none
      next endU64 hend =>
        cases hnew : VirtAddr.new endU64 with
        | error e => exact .inl ⟨e, fun _ ↦ rfl⟩
        | ok endAddr =>
          simp only [bind, Except.bind]
          split
          next => exact allocates_none
          next endPage hpage =>
            by_cases hfree : vas.withinBounds space page.startAddress endAddr &&
              vas.neighboursFree page.startAddress endAddr
            · obtain rfl := fromStartAddress_some hpage
              have hend : endPage.number * pageSize =
                  page.number * pageSize + numPages * pageSize := by
                rw [show endPage.number * pageSize = endPage.startAddress.asU64 from rfl,
                  VirtAddr.tryNew_eq_some (VirtAddr.new_eq_ok.mp hnew)]
                simp only [checkedMul, checkedAdd, Option.ite_none_right_eq_some,
                  Option.some.injEq] at hsize hend
                rw [← hend.2, ← hsize.2]
                rfl
              simp only [pageSize] at hend
              have hadmits := Bool.and_eq_true_iff.mp hfree
              refine .inr ⟨_, .inr ⟨.newWithTag space ⟨page, endPage⟩ typ tag,
                ⟨?_, hadmits.1, hadmits.2⟩, ⟨rfl, rfl⟩, ?_, rfl⟩, fun _ ↦ if_pos hfree⟩
              · show page.number * pageSize < endPage.number * pageSize
                simp only [pageSize]
                omega
              · show endPage.number = page.number + numPages
                omega
            · exact .inr ⟨_, .inl rfl, fun _ ↦ if_neg hfree⟩

private theorem alloc_allocates :
    vas.Allocates space typ numPages (alloc · numPages space typ tag) := by
  have hrange : ∀ tables, searchRange { vas with pageTables := tables } space =
      vas.searchRange space := fun _ ↦ rfl
  simp only [Allocates, alloc, hrange]
  split
  next => exact allocates_none
  next =>
    split
    next => exact allocates_none
    next size hsize =>
      split
      next => exact allocates_none
      next =>
        cases searchGap size _ _ _ with
        | error e => exact .inl ⟨e, fun _ ↦ rfl⟩
        | ok candidate =>
          simp only [bind, Except.bind]
          split
          next => exact allocates_none
          next =>
            split
            next => exact allocates_none
            next => exact allocAt_allocates _

variable {startPage : Option Page}

private theorem allocVma_allocates :
    vas.Allocates space typ numPages (allocVma · startPage numPages space typ tag) := by
  unfold allocVma
  split
  next => exact allocates_none
  next =>
    split
    next => exact allocAt_allocates _
    next => exact alloc_allocates

private theorem allocVma_ok (h : vas.allocVma startPage numPages space typ tag = .ok r) :
    vas.AllocOutcome space typ numPages r := by
  rcases vas.allocVma_allocates with ⟨e, he⟩ | ⟨r', hr', heq⟩
  · exact nomatch (he vas.pageTables).symm.trans h
  · cases (heq vas.pageTables).symm.trans h
    rcases hr' with rfl | ⟨vma, hvma, htyp, hlen, rfl⟩
    · exact .inl rfl
    · exact .inr ⟨vma, hvma, htyp, hlen, rfl⟩

/-- `alloc_vma` changes nothing but the areas. -/
theorem allocVma_eq (h : vas.allocVma startPage numPages space typ tag = .ok r) :
    { r.1 with virtualMemoryAreas := vas.virtualMemoryAreas } = vas := by
  rcases allocVma_ok h with rfl | ⟨vma, -, -, -, rfl⟩
  · rfl
  · rfl

variable {vas' : VirtualAddressSpace}

/-- A call of `alloc_vma` that fails changes nothing. -/
theorem allocVma_none (h : vas.allocVma startPage numPages space typ tag = .ok (vas', none)) :
    vas' = vas := by
  rcases allocVma_ok h with h | ⟨vma, -, -, -, h⟩
  · exact congrArg Prod.fst h
  · exact absurd (congrArg Prod.snd h) (by simp)

variable {vma : VirtualMemoryArea}

/-- The area that `alloc_vma` returns is as long as requested. -/
theorem allocVma_vma (h : vas.allocVma startPage numPages space typ tag = .ok (vas', some vma)) :
    vma.space = space ∧ vma.range.stop.number = vma.range.start.number + numPages := by
  rcases allocVma_ok h with h | ⟨vma', -, ⟨hspace, -⟩, hlen, h⟩
  · cases h
  · cases h
    exact ⟨hspace, hlen⟩

private theorem Admits.stop_le {old : VirtualMemoryArea} (h : vas.Admits vma)
    (hold : vas.virtualMemoryAreas[vma.start.asU64]? = some old) :
    old.stop.asU64 ≤ vma.start.asU64 := by
  have hn := h.neighbours
  simp only [neighboursFree, Bool.and_eq_true, lastUpTo_self _ hold] at hn
  exact of_decide_eq_true hn.1

/-- The area that `alloc_vma` returns is stored under its start. -/
theorem allocVma_some (h : vas.allocVma startPage numPages space typ tag = .ok (vas', some vma)) :
    vas' = { vas with
      virtualMemoryAreas := vas.virtualMemoryAreas.insert vma.start.asU64 vma } ∧
    vma.typ = typ ∧ vma.start.asU64 < vma.stop.asU64 ∧
    ∀ old, vas.virtualMemoryAreas[vma.start.asU64]? = some old →
      old.stop.asU64 ≤ vma.start.asU64 := by
  rcases allocVma_ok h with h | ⟨vma', ha, ⟨-, htyp⟩, -, h⟩
  · cases h
  · cases h
    exact ⟨rfl, htyp, ha.nonempty, fun old ↦ ha.stop_le⟩

/-- Whether there is room for an area does not depend on the page tables. -/
theorem allocVma_full {tables : Paging}
    (h : ({ vas with pageTables := tables }).allocVma startPage numPages space typ tag =
      .ok (vas', none)) : vas.allocVma startPage numPages space typ tag = .ok (vas, none) := by
  rcases vas.allocVma_allocates with ⟨e, he⟩ | ⟨r, hr, heq⟩
  · exact nomatch (he tables).symm.trans h
  · rcases hr with rfl | ⟨vma, -, -, -, rfl⟩
    · exact heq vas.pageTables
    · exact nomatch (heq tables).symm.trans h

end

/-- A call of `alloc_vma`. -/
structure Request where
  startPage : Option Page
  numPages : Nat
  space : MemorySpace
  typ : VmaType
  tag : List UInt8

/-- The address space after a call of `alloc_vma`, whether it failed or not. -/
def step (vas : VirtualAddressSpace) (q : Request) : Except Panic VirtualAddressSpace := do
  let r ← vas.allocVma q.startPage q.numPages q.space q.typ q.tag
  .ok r.1

private theorem step_yields (vas : VirtualAddressSpace) (q : Request) (h : vas.AreasInv) :
    Yields (vas.step q) AreasInv (fun _ ↦ True) := by
  unfold step
  cases hr : vas.allocVma q.startPage q.numPages q.space q.typ q.tag with
  | error e => trivial
  | ok r => exact (allocVma_ok hr).inv h

private theorem areasInv_of_empty (h : vas.virtualMemoryAreas = ∅) : vas.AreasInv := by
  have hnone : ∀ (k : Nat) v, vas.virtualMemoryAreas[k]? ≠ some v := by
    intro k v
    rw [h]
    simp
  refine ⟨fun k v hk ↦ absurd hk (hnone k v), ?_, fun k v hk ↦ absurd hk (hnone k v)⟩
  exact ⟨fun k v hk ↦ absurd hk (hnone k v), fun k v _ _ hk ↦ absurd hk (hnone k v)⟩

private theorem AreasInv.find (h : vas.AreasInv) {address : Nat} {r : Option VirtualMemoryArea}
    (hr : vas.isAddressWithinVma address = .ok r) (vma : VirtualMemoryArea) :
    r = some vma ↔ vas.Has vma ∧ vma.start.asU64 ≤ address ∧ address < vma.stop.asU64 := by
  obtain ⟨a, ha, hr⟩ := of_bind hr
  rw [← VirtAddr.tryNew_eq_some (VirtAddr.new_eq_ok.mp ha)]
  have hiff := h.family.contains_iff (lastUpTo_spec vas.virtualMemoryAreas a.asU64)
  have hall : (vas.Has vma ∧ vma.start.asU64 ≤ a.asU64 ∧ a.asU64 < vma.stop.asU64) ↔
      lastUpTo vas.virtualMemoryAreas a.asU64 = some (vma.start.asU64, vma) ∧
        a.asU64 < vma.stop.asU64 := by
    constructor
    · rintro ⟨⟨k, hk⟩, hle, hlt⟩
      rw [← h.keyed k vma hk] at hle ⊢
      exact (hiff k vma).mp ⟨hk, hle, hlt⟩
    · intro hl
      obtain ⟨hk, hle, hlt⟩ := (hiff _ vma).mpr hl
      exact ⟨⟨_, hk⟩, hle, hlt⟩
  rw [hall]
  split at hr
  next k v hlast =>
    cases hr
    have hspec := lastUpTo_spec vas.virtualMemoryAreas a.asU64
    rw [hlast] at hspec ⊢
    have hk := h.keyed k v hspec.1
    constructor
    · intro hif
      split at hif
      next hlt =>
        cases hif
        exact ⟨by rw [hk], hlt⟩
      next => exact absurd hif (by simp)
    · rintro ⟨heq, hlt⟩
      cases heq
      rw [if_pos hlt]
  next hlast =>
    cases hr
    rw [hlast]
    simp

/-- `alloc_vma` keeps the areas well-formed. -/
theorem WellFormed.allocVma (h : vas.WellFormed) {startPage : Option Page} {numPages : Nat}
    {space : MemorySpace} {typ : VmaType} {tag : List UInt8}
    {r : VirtualAddressSpace × Option VirtualMemoryArea}
    (hr : vas.allocVma startPage numPages space typ tag = .ok r) : r.1.WellFormed :=
  ((allocVma_ok hr).inv h.areasInv).wellFormed

/-- Two areas have no page in common. -/
theorem WellFormed.not_containsAddr (h : vas.WellFormed) {other : VirtualMemoryArea}
    (hvma : vas.Has vma) (hother : vas.Has other) (hne : vma ≠ other)
    (ha : vma.range.ContainsAddr a) : ¬ other.range.ContainsAddr a := by
  rintro ⟨hfirst', hlast'⟩
  obtain ⟨hfirst, hlast⟩ := ha
  rcases h.disjoint vma other hvma hother hne with hle | hle
  · have hpages : vma.range.stop.number ≤ other.range.start.number :=
      Nat.le_of_mul_le_mul_right hle (by decide)
    omega
  · have hpages : other.range.stop.number ≤ vma.range.start.number :=
      Nat.le_of_mul_le_mul_right hle (by decide)
    omega

/-- `is_address_within_vma` finds an area by its start. -/
theorem isAddressWithinVma_start (h : vas.virtualMemoryAreas[vma.start.asU64]? = some vma)
    (hne : vma.start.asU64 < vma.stop.asU64) :
    vas.isAddressWithinVma vma.start.asU64 = .ok (some vma) := by
  refine bind_eq_ok.mpr ⟨vma.start, VirtAddr.new_asU64 _, ?_⟩
  simp only [lastUpTo_self _ h, if_pos hne]

/-- In a well-formed address space `is_address_within_vma` finds the area of an address. -/
theorem WellFormed.isAddressWithinVma (h : vas.WellFormed) {address : Nat}
    {r : Option VirtualMemoryArea} (hr : vas.isAddressWithinVma address = .ok r)
    (vma : VirtualMemoryArea) :
    r = some vma ↔ vas.Has vma ∧ vma.start.asU64 ≤ address ∧ address < vma.stop.asU64 :=
  h.areasInv.find hr vma

private theorem areasInv_run {vas' : VirtualAddressSpace} (hempty : vas.virtualMemoryAreas = ∅)
    (requests : List Request) (hrun : requests.foldlM step vas = .ok vas') : vas'.AreasInv :=
  (foldlM_yields requests (areasInv_of_empty hempty) fun s q hs ↦ step_yields s q hs).of_ok hrun

/-- Calls of `alloc_vma` keep the areas well-formed. -/
theorem wellFormed_run {vas' : VirtualAddressSpace} (hempty : vas.virtualMemoryAreas = ∅)
    (requests : List Request) (hrun : requests.foldlM step vas = .ok vas') : vas'.WellFormed :=
  (areasInv_run hempty requests hrun).wellFormed

/-- An address space without areas. -/
theorem wellFormed_of_empty (h : vas.virtualMemoryAreas = ∅) :
    vas.WellFormed := (areasInv_of_empty h).wellFormed

/-- After any sequence of `alloc_vma` calls that do not panic, on an address space without
areas, the areas are well-formed, a call that fails leaves the address space unchanged, and
`is_address_within_vma` returns the one area that contains the address, for every
canonical address. -/
theorem allocVma_run {vas vas' : VirtualAddressSpace} (hempty : vas.virtualMemoryAreas = ∅)
    (requests : List Request) (hrun : requests.foldlM step vas = .ok vas') :
    vas'.WellFormed ∧
    (∀ startPage numPages space typ tag vas'',
      vas'.allocVma startPage numPages space typ tag = .ok (vas'', none) → vas'' = vas') ∧
    (∀ address r, vas'.isAddressWithinVma address = .ok r → ∀ vma, r = some vma ↔
      vas'.Has vma ∧ vma.start.asU64 ≤ address ∧ address < vma.stop.asU64) ∧
    ∀ a : VirtAddr, ∃ r, vas'.isAddressWithinVma a.asU64 = .ok r := by
  have hinv := areasInv_run hempty requests hrun
  refine ⟨hinv.wellFormed, fun _ _ _ _ _ _ h ↦ allocVma_none h,
    fun address r hr ↦ hinv.find hr, ?_⟩
  intro a
  cases hl : lastUpTo vas'.virtualMemoryAreas a.asU64 with
  | none => exact ⟨none, bind_eq_ok.mpr ⟨a, VirtAddr.new_asU64 a, by rw [hl]⟩⟩
  | some p => exact ⟨_, bind_eq_ok.mpr ⟨a, VirtAddr.new_asU64 a, by rw [hl]⟩⟩

/-- Three calls on a fresh address space: an area at a given page, one in the first gap and
one that overlaps and fails. -/
theorem allocVma_run_three :
    let vas : VirtualAddressSpace := ⟨∅, Paging.new, userSpaceStart, ⟨2 ^ 47 - 1, by decide⟩⟩
    let page : Page := ⟨2 ^ 28, by decide⟩
    ∃ vas', [⟨some page, 2, .user, .heap, []⟩, ⟨none, 3, .user, .anonymous, []⟩,
        ⟨some page, 1, .user, .code, []⟩].foldlM step vas = .ok vas' ∧
      vas'.WellFormed ∧ vas'.virtualMemoryAreas.size = 2 := by
  intro vas page
  obtain ⟨vas', hrun, hsize⟩ : ∃ vas', [⟨some page, 2, .user, .heap, []⟩,
      ⟨none, 3, .user, .anonymous, []⟩, ⟨some page, 1, .user, .code, []⟩].foldlM step vas =
        .ok vas' ∧ vas'.virtualMemoryAreas.size = 2 := by
    decide +kernel
  exact ⟨vas', hrun, (allocVma_run rfl _ hrun).1, hsize⟩

end VirtualAddressSpace

end D3OS.Memory
