import D3OS.Memory.AddressSpace

/-!
# First fit

`alloc_vma` without a start page, `os/kernel/src/memory/vmm.rs:280`. The search moves a
cursor over the areas in ascending order; every start below the cursor overlaps an area
that the cursor has passed. Hence the gap that it stops at is the lowest one, no gap is
missed, and the checks of `alloc_at` accept the gap.
-/

namespace D3OS.Memory

open Lib

namespace VirtualAddressSpace

/-- The `n` pages from `page` on lie in the search range and no area covers one of them. -/
def FreeRun (vas : VirtualAddressSpace) (space : MemorySpace) (n : Nat) (page : Page) : Prop :=
  (vas.searchRange space).1.asU64 ≤ page.startAddress.asU64 ∧
  page.startAddress.asU64 + n * pageSize ≤ (vas.searchRange space).2.asU64 ∧
  ∀ vma, vas.Has vma → ∀ q : Page, page.number ≤ q.number → q.number < page.number + n →
    ¬ vma.range.Contains q

/-- No sum of a place of the cursor in the search range and the size of `n` pages leaves the
lower canonical half. The cursor stands at the start of the range or at the end of an area. -/
def SumsFit (vas : VirtualAddressSpace) (space : MemorySpace) (n : Nat) : Prop :=
  (vas.searchRange space).1.asU64 + n * pageSize < 2 ^ 47 ∧
  ∀ vma, vas.Has vma → (vas.searchRange space).1.asU64 ≤ vma.start.asU64 →
    vma.stop.asU64 < (vas.searchRange space).2.asU64 → vma.stop.asU64 + n * pageSize < 2 ^ 47

/-- The `size` bytes from `p` on have none in common with the area. -/
private def Clear (size p : Nat) (vma : VirtualMemoryArea) : Prop :=
  p + size ≤ vma.start.asU64 ∨ vma.stop.asU64 ≤ p

/-- The lowest start from `current` on with `size` bytes clear of the areas, none if there is
no such start. -/
private def FirstGap (size searchEnd : Nat) (areas : List VirtualMemoryArea) (current : Nat) :
    Option VirtAddr → Prop
  | none => ∀ p, current ≤ p → p + size ≤ searchEnd → ∃ vma ∈ areas, ¬ Clear size p vma
  | some c => (current ≤ c.asU64 ∧ c.asU64 + size ≤ searchEnd ∧ c.asU64 % pageSize = 0 ∧
        c.asU64 + size < 2 ^ 47) ∧
      (∀ vma ∈ areas, Clear size c.asU64 vma) ∧
      ∀ p, current ≤ p → p < c.asU64 → ∃ vma ∈ areas, ¬ Clear size p vma

private theorem startAddress_mod (page : Page) : page.startAddress.asU64 % pageSize = 0 :=
  Nat.mul_mod_left _ _

private theorem fromStartAddress_isNone (page : Page) :
    (Page.fromStartAddress page.startAddress).isNone = false := by
  rw [Page.fromStartAddress, if_pos (startAddress_mod page)]
  rfl

variable {size : Nat}

private theorem FirstGap.cons {searchEnd current next : Nat} {vma : VirtualMemoryArea}
    {rest : List VirtualMemoryArea} {r : Option VirtAddr} (h : FirstGap size searchEnd rest next r)
    (hle : current ≤ next) (hpassed : vma.stop.asU64 ≤ next)
    (hskip : ∀ p, current ≤ p → p < next → ¬ Clear size p vma) :
    FirstGap size searchEnd (vma :: rest) current r := by
  have hbelow : ∀ p, current ≤ p → (next ≤ p → ∃ v ∈ rest, ¬ Clear size p v) →
      ∃ v ∈ vma :: rest, ¬ Clear size p v := by
    intro p hp hrest
    by_cases hnext : next ≤ p
    · obtain ⟨v, hv, hclear⟩ := hrest hnext
      exact ⟨v, List.mem_cons_of_mem _ hv, hclear⟩
    · exact ⟨vma, List.mem_cons_self, hskip p hp (not_le.mp hnext)⟩
  cases r with
  | none => exact fun p hp hend ↦ hbelow p hp fun hnext ↦ h p hnext hend
  | some c =>
    obtain ⟨⟨hc, hend, haligned⟩, hclear, hlow⟩ := h
    refine ⟨⟨hle.trans hc, hend, haligned⟩, ?_, ?_⟩
    · intro v hv
      rcases List.mem_cons.mp hv with rfl | hv
      · exact .inr (hpassed.trans hc)
      · exact hclear v hv
    · exact fun p hp hpc ↦ hbelow p hp fun hnext ↦ hlow p hnext hpc

private theorem searchGap_yields (hsize : 0 < size) {searchEnd : VirtAddr}
    (areas : List VirtualMemoryArea) (current : VirtAddr)
    (hsorted : areas.Pairwise fun vma vma' ↦ vma.stop.asU64 ≤ vma'.start.asU64)
    (hareas : ∀ vma ∈ areas, vma.start.asU64 < vma.stop.asU64 ∧
      vma.start.asU64 < searchEnd.asU64 ∧
      (vma.stop.asU64 < searchEnd.asU64 → vma.stop.asU64 + size < 2 ^ 47))
    (haligned : current.asU64 % pageSize = 0) (hsum : current.asU64 + size < 2 ^ 47) :
    Yields (searchGap size searchEnd areas current)
      (FirstGap size searchEnd.asU64 areas current.asU64) (fun _ ↦ False) := by
  induction areas generalizing current with
  | nil =>
    simp only [searchGap, VirtAddr.add_of_lt hsum]
    show FirstGap _ _ _ _ _
    split
    next hfits =>
      exact ⟨⟨le_rfl, hfits, haligned, hsum⟩, nofun, fun p hp hlt ↦ absurd hp (by omega)⟩
    next hfull =>
      intro p hp hend
      simp only at hfull
      omega
  | cons vma rest ih =>
    obtain ⟨hafter, hsorted⟩ := List.pairwise_cons.mp hsorted
    obtain ⟨hne, hstart, hstop⟩ := hareas vma List.mem_cons_self
    have hrest := fun v hv ↦ hareas v (List.mem_cons_of_mem _ hv)
    have hpages : ((Page.fromStartAddress vma.start).isNone ||
        (Page.fromStartAddress vma.stop).isNone) = false := by
      rw [VirtualMemoryArea.start, VirtualMemoryArea.stop, fromStartAddress_isNone,
        fromStartAddress_isNone, Bool.or_false]
    simp only [searchGap, if_neg (not_le.mpr hne), hpages, VirtAddr.add_of_lt hsum,
      Bool.false_eq_true, if_false]
    show Yields (if _ then _ else _) _ _
    split
    next hfits =>
      -- The gap in front of the area; the areas behind it start after the end of this one.
      refine ⟨⟨le_rfl, hfits.trans hstart.le, haligned, hsum⟩, ?_, ?_⟩
      · intro v hv
        rcases List.mem_cons.mp hv with rfl | hv
        · exact .inl hfits
        · exact .inl (hfits.trans (hne.le.trans (hafter v hv)))
      · exact fun p hp hlt ↦ absurd hp (by omega)
    next hfull =>
      simp only at hfull
      have hskip : ∀ p, current.asU64 ≤ p → p < vma.stop.asU64 → ¬ Clear size p vma := by
        simp only [Clear]
        omega
      split
      next hpast =>
        split
        next hover =>
          exact fun p hp hend ↦ ⟨vma, List.mem_cons_self, hskip p hp (by omega)⟩
        next hin =>
          refine (ih vma.stop hsorted hrest (startAddress_mod _) (hstop (by omega))).mono
            (fun r hr ↦ hr.cons hpast.le le_rfl hskip) fun _ h ↦ h
      next hbehind =>
        split
        next hover => exact fun p hp hend ↦ absurd hp (by omega)
        next hin =>
          refine (ih current hsorted hrest haligned hsum).mono
            (fun r hr ↦ hr.cons le_rfl (by omega) ?_) fun _ h ↦ h
          exact fun p hp hlt ↦ absurd hp (by omega)

private theorem clear_iff {vma : VirtualMemoryArea} (hne : vma.start.asU64 < vma.stop.asU64)
    {n : Nat} (hn : 1 ≤ n) (page : Page) :
    Clear (n * pageSize) page.startAddress.asU64 vma ↔
      ∀ q : Page, page.number ≤ q.number → q.number < page.number + n → ¬ vma.range.Contains q := by
  have hrange := vma.range_lt hne
  have hpages : Clear (n * pageSize) page.startAddress.asU64 vma ↔
      page.number + n ≤ vma.range.start.number ∨ vma.range.stop.number ≤ page.number := by
    simp only [Clear, VirtualMemoryArea.start, VirtualMemoryArea.stop, Page.startAddress, pageSize]
    omega
  rw [hpages]
  constructor
  · rintro hclear q hle hlt ⟨hfirst, hlast⟩
    omega
  · intro hnone
    by_contra hover
    -- The first common page is the first page of the run or of the area.
    by_cases hle : page.number ≤ vma.range.start.number
    · exact hnone vma.range.start hle (by omega) ⟨le_rfl, hrange⟩
    · exact hnone page le_rfl (by omega) ⟨by omega, by omega⟩

section

variable {vas : VirtualAddressSpace} {space : MemorySpace} {n : Nat}

private theorem freeRun_iff (hwf : vas.WellFormed) (hn : 1 ≤ n) (page : Page) :
    vas.FreeRun space n page ↔
      (vas.searchRange space).1.asU64 ≤ page.startAddress.asU64 ∧
      page.startAddress.asU64 + n * pageSize ≤ (vas.searchRange space).2.asU64 ∧
      ∀ vma, vas.Has vma → Clear (n * pageSize) page.startAddress.asU64 vma := by
  have hareas : (∀ vma, vas.Has vma → Clear (n * pageSize) page.startAddress.asU64 vma) ↔
      ∀ vma, vas.Has vma → ∀ q : Page, page.number ≤ q.number → q.number < page.number + n →
        ¬ vma.range.Contains q :=
    forall₂_congr fun vma hvma ↦ clear_iff (hwf.nonempty vma hvma) hn page
  rw [hareas]
  rfl

/-- The areas that the search looks at. -/
private def searched (vas : VirtualAddressSpace) (space : MemorySpace) : List VirtualMemoryArea :=
  (vas.virtualMemoryAreas.toList.filter fun p ↦
    decide ((vas.searchRange space).1.asU64 ≤ p.1) &&
      decide (p.1 < (vas.searchRange space).2.asU64)).map Prod.snd

private theorem mem_searched (hwf : vas.WellFormed) (vma : VirtualMemoryArea) :
    vma ∈ vas.searched space ↔ vas.Has vma ∧
      (vas.searchRange space).1.asU64 ≤ vma.start.asU64 ∧
      vma.start.asU64 < (vas.searchRange space).2.asU64 := by
  have hmem := mem_filter_iff vas.virtualMemoryAreas fun k ↦
    decide ((vas.searchRange space).1.asU64 ≤ k) && decide (k < (vas.searchRange space).2.asU64)
  simp only [searched, List.mem_map, hmem, Bool.and_eq_true, decide_eq_true_eq]
  constructor
  · rintro ⟨p, ⟨hp, hbounds⟩, rfl⟩
    rw [← hwf.keyed p.1 p.2 hp]
    exact ⟨⟨p.1, hp⟩, hbounds⟩
  · rintro ⟨⟨k, hk⟩, hbounds⟩
    rw [← hwf.keyed k vma hk] at hbounds
    exact ⟨(k, vma), ⟨hk, hbounds⟩, rfl⟩

private theorem searched_sorted (hwf : vas.WellFormed) :
    (vas.searched space).Pairwise fun vma vma' ↦ vma.stop.asU64 ≤ vma'.start.asU64 := by
  apply List.Pairwise.map (R := fun p q : Nat × VirtualMemoryArea ↦
    p.2.stop.asU64 ≤ q.2.start.asU64) Prod.snd fun _ _ h ↦ h
  apply List.Pairwise.filter
  apply (toList_sorted vas.virtualMemoryAreas).imp_of_mem
  intro p q hp hq hlt
  rw [Std.ExtTreeMap.mem_toList_iff_getElem?_eq_some] at hp hq
  have hne := hwf.nonempty q.2 ⟨q.1, hq⟩
  rw [hwf.keyed p.1 p.2 hp, hwf.keyed q.1 q.2 hq] at hlt
  rcases hwf.disjoint p.2 q.2 ⟨p.1, hp⟩ ⟨q.1, hq⟩ (by rintro heq; rw [heq] at hlt; omega) with
    hle | hle
  · exact hle
  · omega

variable {vma : VirtualMemoryArea}

private theorem clear_of_not_mem (hwf : vas.WellFormed) (hvma : vas.Has vma)
    (hnot : vma ∉ vas.searched space) {p : Nat} (hp : (vas.searchRange space).1.asU64 ≤ p)
    (hend : p + size ≤ (vas.searchRange space).2.asU64) : Clear size p vma := by
  simp only [mem_searched hwf, hvma, true_and, not_and, not_lt] at hnot
  by_cases hstart : (vas.searchRange space).1.asU64 ≤ vma.start.asU64
  · exact .inl (hend.trans (hnot hstart))
  · -- Only an area of the kernel starts below the range of the user.
    cases space with
    | kernel => exact absurd (Nat.zero_le _) hstart
    | user =>
      cases hspace : vma.space with
      | user => exact absurd (hwf.user vma hvma hspace).1 hstart
      | kernel => exact .inr ((hwf.kernel vma hvma hspace).2.trans hp)

/-- The lowest run of free pages, none if there is none. -/
private def LowestRun (vas : VirtualAddressSpace) (space : MemorySpace) (n : Nat) :
    Option VirtAddr → Prop
  | none => ∀ page, ¬ vas.FreeRun space n page
  | some c => c.asU64 % pageSize = 0 ∧ c.asU64 + n * pageSize < 2 ^ 47 ∧
      vas.FreeRun space n (Page.containingAddress c) ∧
      ∀ page, vas.FreeRun space n page → c.asU64 ≤ page.startAddress.asU64

private theorem FirstGap.lowestRun (hwf : vas.WellFormed) (hn : 1 ≤ n) {r : Option VirtAddr}
    (h : FirstGap (n * pageSize) (vas.searchRange space).2.asU64 (vas.searched space)
      (vas.searchRange space).1.asU64 r) : vas.LowestRun space n r := by
  have hcover : ∀ page, vas.FreeRun space n page →
      ¬ ∃ vma ∈ vas.searched space, ¬ Clear (n * pageSize) page.startAddress.asU64 vma := by
    rintro page hfree ⟨vma, hvma, hover⟩
    exact hover (((freeRun_iff hwf hn page).mp hfree).2.2 vma ((mem_searched hwf vma).mp hvma).1)
  cases r with
  | none => exact fun page hfree ↦ hcover page hfree (h _ hfree.1 hfree.2.1)
  | some c =>
    obtain ⟨⟨hstart, hend, haligned, hsum⟩, hclear, hlow⟩ := h
    have hc : (Page.containingAddress c).startAddress.asU64 = c.asU64 :=
      Nat.div_mul_cancel (Nat.dvd_of_mod_eq_zero haligned)
    refine ⟨haligned, hsum, ?_, ?_⟩
    · rw [freeRun_iff hwf hn, hc]
      refine ⟨hstart, hend, ?_⟩
      intro vma hvma
      by_cases hmem : vma ∈ vas.searched space
      · exact hclear vma hmem
      · exact clear_of_not_mem hwf hvma hmem hstart hend
    · intro page hfree
      by_contra hlt
      exact hcover page hfree (hlow _ hfree.1 (not_le.mp hlt))

private theorem neighboursFree_of_clear (hwf : vas.WellFormed) (start stop : VirtAddr)
    (hsize : 0 < size) (hstop : stop.asU64 = start.asU64 + size)
    (h : ∀ vma, vas.Has vma → Clear size start.asU64 vma) :
    vas.neighboursFree start stop = true := by
  rw [neighboursFree, Bool.and_eq_true]
  constructor
  · have hspec := lastUpTo_spec vas.virtualMemoryAreas start.asU64
    split
    next k prev hprev =>
      rw [hprev] at hspec
      have hk := hwf.keyed k prev hspec.1
      have hle := hspec.2.1
      apply decide_eq_true
      rcases h prev ⟨k, hspec.1⟩ with hclear | hclear <;> omega
    next => rfl
  · have hspec := firstFrom_spec vas.virtualMemoryAreas start.asU64
    split
    next k nextArea hnext =>
      rw [hnext] at hspec
      have hk := hwf.keyed k nextArea hspec.1
      have hne := hwf.nonempty nextArea ⟨k, hspec.1⟩
      have hle := hspec.2.1
      apply decide_eq_true
      rcases h nextArea ⟨k, hspec.1⟩ with hclear | hclear <;> omega
    next => rfl

variable {page : Page}

private theorem withinBounds_of_freeRun (hn : 1 ≤ n) (stop : VirtAddr)
    (hstop : stop.asU64 = page.startAddress.asU64 + n * pageSize) (h : vas.FreeRun space n page) :
    vas.withinBounds space page.startAddress stop = true := by
  obtain ⟨hstart, hend, -⟩ := h
  have hsize : 0 < n * pageSize := Nat.mul_pos hn (by decide)
  cases space with
  | user | kernel =>
    simp only [searchRange] at hstart hend
    simp only [withinBounds, Bool.and_eq_true, decide_eq_true_eq]
    omega

/-- `alloc_at` accepts every run of free pages. -/
theorem allocAt_of_freeRun (hwf : vas.WellFormed) (hn : 1 ≤ n)
    (hsum : page.startAddress.asU64 + n * pageSize < 2 ^ 47) (h : vas.FreeRun space n page)
    (typ : VmaType) (tag : List UInt8) :
    ∃ vas' vma, vas.allocAt page n space typ tag = .ok (vas', some vma) ∧
      vma.range.start = page ∧ vma.range.stop.number = page.number + n := by
  have hmul : checkedMul n pageSize = some (n * pageSize) :=
    if_pos (lt_of_le_of_lt (Nat.le_add_left _ _) (hsum.trans (by decide)))
  have hadd : checkedAdd page.startAddress.asU64 (n * pageSize) =
      some (page.startAddress.asU64 + n * pageSize) := if_pos (hsum.trans (by decide))
  let stop : VirtAddr := ⟨page.startAddress.asU64 + n * pageSize, .inl hsum⟩
  have hnew : VirtAddr.new (page.startAddress.asU64 + n * pageSize) = .ok stop :=
    VirtAddr.new_asU64 stop
  have hmod : stop.asU64 % pageSize = 0 := by
    show (page.number * pageSize + n * pageSize) % pageSize = 0
    rw [← Nat.add_mul, Nat.mul_mod_left]
  have hpage : Page.fromStartAddress stop = some (Page.containingAddress stop) := if_pos hmod
  have hfree := neighboursFree_of_clear hwf page.startAddress stop
    (Nat.mul_pos hn (by decide)) rfl ((freeRun_iff hwf hn page).mp h).2.2
  have hbounds := withinBounds_of_freeRun hn stop rfl h
  let vma := VirtualMemoryArea.newWithTag space ⟨page, Page.containingAddress stop⟩ typ tag
  let vas' : VirtualAddressSpace := { vas with
    virtualMemoryAreas := vas.virtualMemoryAreas.insert page.startAddress.asU64 vma }
  have hat : vas.allocAt page n space typ tag = .ok (vas', some vma) := by
    simp only [allocAt, if_neg (Nat.one_le_iff_ne_zero.mp hn), hmul, hadd, hnew, hpage, bind,
      Except.bind, hfree, hbounds, Bool.and_self, if_true]
    rfl
  refine ⟨vas', vma, hat, rfl, ?_⟩
  show (page.number * pageSize + n * pageSize) / pageSize = page.number + n
  rw [← Nat.add_mul, Nat.mul_div_cancel _ (by decide)]

variable {vas' : VirtualAddressSpace} {typ : VmaType} {tag : List UInt8}

private theorem allocAt_start (h : vas.allocAt page n space typ tag = .ok (vas', some vma)) :
    vma.range.start = page := by
  unfold allocAt at h
  split at h
  next => cases h
  next =>
    split at h
    next => cases h
    next =>
      split at h
      next => cases h
      next =>
        obtain ⟨stop, -, h⟩ := of_bind h
        split at h
        next => cases h
        next =>
          dsimp only at h
          split at h
          next =>
            cases h
            rfl
          next => cases h

/-- The areas after a call of `alloc_vma` with a start page that succeeds. -/
theorem has_allocVma (hwf : vas.WellFormed) {startPage : Option Page}
    (h : vas.allocVma startPage n space typ tag = .ok (vas', some vma)) (v : VirtualMemoryArea) :
    vas'.Has v ↔ vas.Has v ∨ v = vma := by
  obtain ⟨rfl, -, -, hold⟩ := allocVma_some h
  have hlook := getElem?_insert_eq_update vas.virtualMemoryAreas vma.start.asU64 vma
  have hfresh : vas.virtualMemoryAreas[vma.start.asU64]? = none := by
    cases hget : vas.virtualMemoryAreas[vma.start.asU64]? with
    | none => rfl
    | some old =>
      have hkey := hwf.keyed _ old hget
      have hne := hwf.nonempty old ⟨_, hget⟩
      have hle := hold old hget
      omega
  constructor
  · rintro ⟨k, hk⟩
    rw [show (vas.virtualMemoryAreas.insert vma.start.asU64 vma)[k]? = _ from
      congrFun hlook k] at hk
    by_cases hkey : k = vma.start.asU64
    · rw [hkey, Function.update_self] at hk
      exact .inr (Option.some.inj hk).symm
    · rw [Function.update_of_ne hkey] at hk
      exact .inl ⟨k, hk⟩
  · rintro (⟨k, hk⟩ | rfl)
    · refine ⟨k, (congrFun hlook k).trans ?_⟩
      rw [Function.update_of_ne ?_, hk]
      rintro rfl
      rw [hfresh] at hk
      cases hk
    · exact ⟨_, (congrFun hlook _).trans (Function.update_self _ _ _)⟩

/-- `alloc_vma` with a start page finds an area only where the pages are free. -/
theorem freeRun_of_allocVma (hwf : vas.WellFormed) (hn : 1 ≤ n)
    (h : vas.allocVma (some page) n .user typ tag = .ok (vas', some vma)) :
    vma.range.start = page ∧ vas.FreeRun .user n page := by
  have hstart : vma.range.start = page := by
    rw [allocVma, if_neg (Nat.one_le_iff_ne_zero.mp hn)] at h
    exact allocAt_start h
  have hwf' := hwf.allocVma h
  have hhas := has_allocVma hwf h
  obtain ⟨hspace, hstop⟩ := allocVma_vma h
  have hbounds := hwf'.user vma ((hhas vma).mpr (.inr rfl)) hspace
  have hfirst : vas'.firstUsableUserAddr = vas.firstUsableUserAddr :=
    congrArg (·.firstUsableUserAddr) (allocVma_eq h)
  have hlast : vas'.lastUsableUserAddr = vas.lastUsableUserAddr :=
    congrArg (·.lastUsableUserAddr) (allocVma_eq h)
  have hstartAddr : vma.start.asU64 = page.startAddress.asU64 := by
    rw [VirtualMemoryArea.start, hstart]
  have hstopAddr : vma.stop.asU64 = page.startAddress.asU64 + n * pageSize := by
    show vma.range.stop.number * pageSize = page.number * pageSize + n * pageSize
    rw [hstop, hstart, Nat.add_mul]
  rw [hfirst, hlast, hstartAddr, hstopAddr] at hbounds
  refine ⟨hstart, (freeRun_iff hwf hn page).mpr ⟨hbounds.1, hbounds.2, ?_⟩⟩
  intro v hv
  have hne : v ≠ vma := by
    rintro rfl
    obtain ⟨-, -, -, hold⟩ := allocVma_some h
    obtain ⟨k, hk⟩ := hv
    rw [hwf.keyed k v hk] at hk
    exact absurd (hold v hk) (not_le.mpr (hwf.nonempty v ⟨_, hk⟩))
  have hapart := hwf'.disjoint v vma ((hhas v).mpr (.inl hv)) ((hhas vma).mpr (.inr rfl)) hne
  rw [hstartAddr, hstopAddr] at hapart
  exact hapart.symm

private theorem allocVma_lowestRun (hwf : vas.WellFormed) (hn : 1 ≤ n)
    (hfit : vas.SumsFit space n) (haligned : (vas.searchRange space).1.asU64 % pageSize = 0)
    (typ : VmaType) (tag : List UInt8) :
    Yields (vas.allocVma none n space typ tag) (fun r ↦
      (r.2 = none ∧ ∀ page, ¬ vas.FreeRun space n page) ∨
      ∃ vma, r.2 = some vma ∧ vas.FreeRun space n vma.range.start ∧
        vma.range.stop.number = vma.range.start.number + n ∧
        ∀ page, vas.FreeRun space n page → vma.range.start.number ≤ page.number)
      (fun _ ↦ False) := by
  have hne := Nat.one_le_iff_ne_zero.mp hn
  have hsize : 0 < n * pageSize := Nat.mul_pos hn (by decide)
  have hmul : checkedMul n pageSize = some (n * pageSize) :=
    if_pos (lt_of_le_of_lt (Nat.le_add_left _ _) (hfit.1.trans (by decide)))
  simp only [allocVma, if_neg hne, alloc, hmul]
  split
  next hempty =>
    refine .inl ⟨rfl, ?_⟩
    rintro page ⟨hstart, hend, -⟩
    omega
  next hrange =>
    have hgap : Yields (searchGap (n * pageSize) (vas.searchRange space).2 (vas.searched space)
        (vas.searchRange space).1) (vas.LowestRun space n) (fun _ ↦ False) := by
      refine (searchGap_yields hsize _ _ (searched_sorted hwf) ?_ haligned hfit.1).mono
        (fun r hr ↦ hr.lowestRun hwf hn) fun _ h ↦ h
      intro vma hvma
      obtain ⟨hhas, hstart, hend⟩ := (mem_searched hwf vma).mp hvma
      exact ⟨hwf.nonempty vma hhas, hend, hfit.2 vma hhas hstart⟩
    apply hgap.bind
    intro r hr
    cases r with
    | none => exact .inl ⟨rfl, hr⟩
    | some c =>
      obtain ⟨hmod, hsum, hfree, hlow⟩ := hr
      have hc : (Page.containingAddress c).startAddress.asU64 = c.asU64 :=
        Nat.div_mul_cancel (Nat.dvd_of_mod_eq_zero hmod)
      obtain ⟨vas', vma, hat, hstart, hstop⟩ :=
        allocAt_of_freeRun hwf hn (hc ▸ hsum) hfree typ tag
      simp only [Page.fromStartAddress, if_pos hmod, hat]
      refine .inr ⟨vma, rfl, hstart ▸ hfree, hstart ▸ hstop, ?_⟩
      intro page hpage
      rw [hstart]
      have hle := hlow page hpage
      rw [← hc] at hle
      exact Nat.le_of_mul_le_mul_right hle (by decide)

private theorem step_first {q : Request} (h : vas.step q = .ok vas') :
    vas'.firstUsableUserAddr = vas.firstUsableUserAddr := by
  obtain ⟨r, hr, h⟩ := of_bind h
  cases h
  exact congrArg (·.firstUsableUserAddr) (allocVma_eq hr)

/-- On a new address space and after any calls of `alloc_vma`, a call without a start page
finds an area exactly when `n` consecutive pages of the search range are free, and then it
returns the lowest ones. -/
theorem allocVma_first_fit {vas₀ : VirtualAddressSpace} {paging : Paging} {bits : Nat}
    (hnew : new paging bits = .ok vas₀) (requests : List Request)
    (hrun : requests.foldlM step vas₀ = .ok vas) (hn : 1 ≤ n) (hfit : vas.SumsFit space n)
    (typ : VmaType) (tag : List UInt8) :
    ∃ r, vas.allocVma none n space typ tag = .ok r ∧
      (r.2.isSome ↔ ∃ page, vas.FreeRun space n page) ∧
      ∀ vma, r.2 = some vma → vas.FreeRun space n vma.range.start ∧
        vma.range.stop.number = vma.range.start.number + n ∧
        ∀ page, vas.FreeRun space n page → vma.range.start.number ≤ page.number := by
  have hempty : vas₀.virtualMemoryAreas = ∅ ∧ vas₀.firstUsableUserAddr = userSpaceStart := by
    obtain ⟨shift, -, hnew⟩ := of_bind hnew
    split at hnew
    next => cases hnew
    next =>
      obtain ⟨last, -, hnew⟩ := of_bind hnew
      cases hnew
      exact ⟨rfl, rfl⟩
  have hwf := wellFormed_run hempty.1 requests hrun
  have hfirst : Yields (requests.foldlM step vas₀)
      (fun s ↦ s.firstUsableUserAddr = userSpaceStart) (fun _ ↦ True) :=
    foldlM_yields requests hempty.2 fun s q hs ↦
      yields_of_eq (fun s' hstep ↦ (step_first hstep).trans hs) fun _ _ ↦ trivial
  have haligned : (vas.searchRange space).1.asU64 % pageSize = 0 := by
    cases space with
    | user =>
      rw [searchRange, hfirst.of_ok hrun]
      show userSpaceStart.asU64 % pageSize = 0
      decide
    | kernel => rfl
  obtain ⟨r, hr, hlowest⟩ := (allocVma_lowestRun hwf hn hfit haligned typ tag).exists_ok
    fun _ h ↦ h
  refine ⟨r, hr, ?_, ?_⟩
  · rcases hlowest with ⟨hnone, hfull⟩ | ⟨vma, hsome, hfree, -⟩
    · simp [hnone, hfull]
    · simp only [hsome, Option.isSome_some, true_iff]
      exact ⟨_, hfree⟩
  · rintro vma hvma
    rcases hlowest with ⟨hnone, -⟩ | ⟨vma', hsome, hlow⟩
    · rw [hnone] at hvma
      cases hvma
    · obtain rfl := Option.some.inj (hsome.symm.trans hvma)
      exact hlow

/-- Three pages do not fit in front of the area at the second user page; they follow it. -/
theorem allocVma_first_fit_sample :
    let requests : List Request := [⟨some ⟨2 ^ 28 + 1, by decide⟩, 2, .user, .heap, []⟩]
    ∃ vas₀ vas r vma, new Paging.new 48 = .ok vas₀ ∧ requests.foldlM step vas₀ = .ok vas ∧
      vas.SumsFit .user 3 ∧ vas.allocVma none 3 .user .anonymous [] = .ok r ∧
      r.2 = some vma ∧ vma.range.start.number = 2 ^ 28 + 3 ∧
      ∀ page, vas.FreeRun .user 3 page → vma.range.start.number ≤ page.number := by
  intro requests
  obtain ⟨vas₀, hnew, vas, hrun, hareas, hstart, r, hr, vma, hvma, hnumber⟩ :
      ∃ vas₀, new Paging.new 48 = .ok vas₀ ∧ ∃ vas, requests.foldlM step vas₀ = .ok vas ∧
        (∀ p ∈ vas.virtualMemoryAreas.toList, p.2.stop.asU64 + 3 * pageSize < 2 ^ 47) ∧
        (vas.searchRange .user).1.asU64 + 3 * pageSize < 2 ^ 47 ∧
        ∃ r, vas.allocVma none 3 .user .anonymous [] = .ok r ∧
          ∃ vma, r.2 = some vma ∧ vma.range.start.number = 2 ^ 28 + 3 := by
    decide +kernel
  have hfit : vas.SumsFit .user 3 := by
    refine ⟨hstart, ?_⟩
    rintro v ⟨k, hk⟩ - -
    exact hareas (k, v) (Std.ExtTreeMap.mem_toList_iff_getElem?_eq_some.mpr hk)
  obtain ⟨r', hr', -, hlow⟩ := allocVma_first_fit hnew requests hrun (by decide) hfit .anonymous []
  obtain rfl := Except.ok.inj (hr.symm.trans hr')
  exact ⟨vas₀, vas, r, vma, hnew, hrun, hfit, hr, hvma, hnumber, (hlow vma hvma).2.2⟩

end

end VirtualAddressSpace

end D3OS.Memory
