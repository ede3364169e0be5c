import D3OS.Memory.AddressSpace
import D3OS.Memory.PageDrop

/-!
# What dropping an address space frees

A range without gaps is unmapped as a whole, and an address space whose areas are such ranges gives
back exactly the frames of their pages and those of the page tables.
-/

namespace D3OS.Memory

open Lib

section

variable {l : Nat}

private theorem hasTable_congr (table : PageTable l) {k k' : Nat} (h : k / 512 = k' / 512) :
    HasTable l table k ↔ HasTable l table k' := by
  induction l with
  | zero => exact iff_of_true rfl rfl
  | succ l ih =>
    have hdigit : index (l + 1) k = index (l + 1) k' := by
      apply Fin.ext
      show k / 512 ^ (l + 1) % 512 = k' / 512 ^ (l + 1) % 512
      rw [Nat.pow_succ', ← Nat.div_div_eq_div_mul, ← Nat.div_div_eq_div_mul, h]
    rw [hasTable_succ, hasTable_succ, hdigit]
    cases table (index (l + 1) k') with
    | none => simp
    | some e =>
      rw [hasTableEntry_some, hasTableEntry_some]
      exact ih e.next

end

namespace Paging

/-- Unmapping the range meets no gap: in the level 1 table of each of its pages a page of the
range or behind it is mapped, unless there are no tables any more. -/
def Reaches (paging : Paging) (pages : PageRange) : Prop :=
  ∀ p : Page, pages.Contains p →
    (∃ q : Page, pages.start.number ≤ q.number ∧ q.number / 512 = p.number / 512 ∧
      (paging.frameOf q).isSome) ∨
    ∀ q : Page, p.number ≤ q.number → ¬ HasTable 3 paging.rootTable q.number

variable {paging paging' : Paging} {pages : PageRange}

private theorem hasTable_of_frameOf {q : Page} (h : (paging.frameOf q).isSome) :
    HasTable 3 paging.rootTable q.number := by
  by_contra hno
  rw [frameOf, lookup_eq_none_of_not_hasTable hno] at h
  cases h

private theorem Reaches.gapFree (h : paging.Reaches pages) : paging.GapFree pages := by
  intro p q hp hle hq
  rcases h p hp with ⟨p', -, hsame, hmapped⟩ | hnone
  · exact (hasTable_congr paging.rootTable hsame).mp (hasTable_of_frameOf hmapped)
  · exact absurd hq (hnone q hle)

/-- What `unmap` with `free_physical` does to a range that it can reach. -/
structure Clears (paging paging' : Paging) (pages : PageRange) (freed : List PhysFrame) :
    Prop where
  givesBack : GivesBack 3 paging.rootTable paging'.rootTable freed
  frameOf : ∀ p, paging'.frameOf p = if pages.Contains p then none else paging.frameOf p
  freed : ∀ f ∈ freed, (∃ p, pages.Contains p ∧ paging.frameOf p = some f) ∨
    IsTableFrame 3 paging.rootTable f

private theorem unmap_clears (fa : FrameAllocator) (hhalf : pages.OneHalf)
    (hse : pages.start.number ≤ pages.stop.number) (h : paging.Reaches pages) :
    ∃ paging' fa' freed, paging.unmap pages true fa = .ok (paging', fa') ∧ Freed fa fa' freed ∧
      paging.Clears paging' pages freed := by
  obtain ⟨paging', fa', hun, hmaps, freed, heq, hfree⟩ := unmap_ok true fa hhalf hse h.gapFree
  obtain ⟨freed', heq', hcons⟩ := unmap_givesBack hun
  obtain rfl : freed' = freed := List.append_cancel_left (heq'.symm.trans heq)
  refine ⟨paging', fa', freed', hun, heq', hcons, frameOf_of_unmaps hhalf hse hmaps, ?_⟩
  intro f hf
  exact ((hfree f hf).goesWith hhalf hse).imp And.right TableWithin.isTableFrame

private theorem Reaches.of_clears {other : PageRange} {freed : List PhysFrame}
    (h : paging.Reaches other) (hc : paging.Clears paging' pages freed)
    (hle : pages.stop.number ≤ other.start.number) : paging'.Reaches other := by
  intro p hp
  rcases h p hp with ⟨q, hq, hsame, hmapped⟩ | hnone
  · refine .inl ⟨q, hq, hsame, ?_⟩
    rw [hc.frameOf, if_neg fun hin ↦ absurd hin.2 (by omega)]
    exact hmapped
  · exact .inr fun q hq htable ↦ hnone q hq (hc.givesBack.walks _ htable)

end Paging

namespace VirtualAddressSpace

/-- The areas of which `drop` unmaps the pages. -/
def Reclaimed (areas : List VirtualMemoryArea) (p : Page) : Prop :=
  ∃ vma ∈ areas, vma.typ ≠ .deviceMemory ∧ vma.range.Contains p

private theorem unmapAreas_clears {areas : List VirtualMemoryArea} (paging : Paging)
    (fa : FrameAllocator) (hsorted : areas.Pairwise fun v w ↦
      v.range.stop.number ≤ w.range.start.number)
    (hhalf : ∀ vma ∈ areas, vma.range.OneHalf)
    (hse : ∀ vma ∈ areas, vma.range.start.number ≤ vma.range.stop.number)
    (hreach : ∀ vma ∈ areas, vma.typ ≠ .deviceMemory → paging.Reaches vma.range) :
    ∃ paging' fa' freed, unmapAreas areas paging fa = .ok (paging', fa') ∧ Freed fa fa' freed ∧
      GivesBack 3 paging.rootTable paging'.rootTable freed ∧
      (∀ p, Reclaimed areas p → paging'.frameOf p = none) ∧
      (∀ p, (paging'.frameOf p).isSome → paging'.frameOf p = paging.frameOf p) ∧
      ∀ f ∈ freed, (∃ p, Reclaimed areas p ∧ paging.frameOf p = some f) ∨
        IsTableFrame 3 paging.rootTable f := by
  induction areas generalizing paging fa with
  | nil =>
    refine ⟨paging, fa, [], rfl, .refl fa, .refl _, ?_, fun _ _ ↦ rfl, by simp⟩
    rintro p ⟨vma, hvma, -⟩
    cases hvma
  | cons vma rest ih =>
    obtain ⟨hhead, hsorted⟩ := List.pairwise_cons.mp hsorted
    have hhalf' := fun v hv ↦ hhalf v (List.mem_cons_of_mem _ hv)
    have hse' := fun v hv ↦ hse v (List.mem_cons_of_mem _ hv)
    have hmem : ∀ p, Reclaimed (vma :: rest) p ↔
        (vma.typ ≠ .deviceMemory ∧ vma.range.Contains p) ∨ Reclaimed rest p := by
      intro p
      simp only [Reclaimed, List.mem_cons, exists_eq_or_imp]
    unfold unmapAreas
    by_cases hdev : vma.typ = .deviceMemory
    · obtain ⟨paging', fa', freed, hun, heq, hcons, hnone, hsame, hfreed⟩ :=
        ih paging fa hsorted hhalf'
        hse' fun v hv ↦ hreach v (List.mem_cons_of_mem _ hv)
      have hiff : ∀ p, Reclaimed (vma :: rest) p ↔ Reclaimed rest p := by
        intro p
        rw [hmem, or_iff_right fun h ↦ h.1 hdev]
      simp only [hiff]
      exact ⟨paging', fa', freed, by rw [if_pos hdev, hun], heq, hcons, hnone, hsame, hfreed⟩
    · obtain ⟨mid, fam, freed, hun, heq, hclear⟩ := Paging.unmap_clears fa
        (hhalf vma List.mem_cons_self) (hse vma List.mem_cons_self)
        (hreach vma List.mem_cons_self hdev)
      obtain ⟨paging', fa', freed', hun', heq', hcons, hnone, hsame, hfreed⟩ := ih mid fam hsorted
        hhalf' hse' fun v hv htyp ↦ (hreach v (List.mem_cons_of_mem _ hv) htyp).of_clears hclear
          (hhead v hv)
      have hmid : ∀ p f, mid.frameOf p = some f →
          ¬ vma.range.Contains p ∧ paging.frameOf p = some f := by
        intro p f hp
        rw [hclear.frameOf] at hp
        split at hp
        next => cases hp
        next hout => exact ⟨hout, hp⟩
      refine ⟨paging', fa', freed ++ freed', ?_, heq.trans heq', hclear.givesBack.trans hcons,
        ?_, ?_, ?_⟩
      · rw [if_neg hdev]
        exact bind_eq_ok.mpr ⟨(mid, fam), hun, hun'⟩
      · intro p hp
        cases hf : paging'.frameOf p with
        | none => rfl
        | some f =>
          have hmidp := (hsame p (by rw [hf]; rfl)).symm.trans hf
          rcases (hmem p).mp hp with ⟨-, hin⟩ | hrest
          · exact absurd hin (hmid p f hmidp).1
          · rw [hnone p hrest] at hf
            cases hf
      · intro p hp
        obtain ⟨f, hf⟩ := Option.isSome_iff_exists.mp hp
        rw [hf, (hmid p f ((hsame p hp).symm.trans hf)).2]
      · intro f hf
        rcases List.mem_append.mp hf with hf | hf
        · refine (hclear.freed f hf).imp_left ?_
          rintro ⟨p, hp, hpf⟩
          exact ⟨p, (hmem p).mpr (.inl ⟨hdev, hp⟩), hpf⟩
        · rcases hfreed f hf with ⟨p, hp, hpf⟩ | htable
          · exact .inl ⟨p, (hmem p).mpr (.inr hp), (hmid p f hpf).2⟩
          · exact .inr (hclear.givesBack.back f htable)

/-- The frame of a page of an area that is not device memory. -/
def IsAreaFrame (vas : VirtualAddressSpace) (f : PhysFrame) : Prop :=
  ∃ vma p, vas.Has vma ∧ vma.typ ≠ .deviceMemory ∧ vma.range.Contains p ∧
    vas.pageTables.frameOf p = some f

/-- `drop` can reach the pages of all areas that are not device memory. -/
def Reached (vas : VirtualAddressSpace) : Prop :=
  ∀ vma, vas.Has vma → vma.typ ≠ .deviceMemory → vas.pageTables.Reaches vma.range

private theorem areas_sorted {vas : VirtualAddressSpace} (hwf : vas.WellFormed) :
    (vas.virtualMemoryAreas.toList.map Prod.snd).Pairwise fun v w ↦
      v.range.stop.number ≤ w.range.start.number := by
  rw [List.pairwise_map]
  apply (toList_sorted vas.virtualMemoryAreas).imp_of_mem
  rintro ⟨k, v⟩ ⟨k', w⟩ hv hw hlt
  rw [Std.ExtTreeMap.mem_toList_iff_getElem?_eq_some] at hv hw
  have hk : k = v.start.asU64 := hwf.keyed k v hv
  have hk' : k' = w.start.asU64 := hwf.keyed k' w hw
  have hne : v ≠ w := by
    rintro rfl
    exact hlt.ne (hk.trans hk'.symm)
  have hw' := hwf.nonempty w ⟨k', hw⟩
  rcases hwf.disjoint v w ⟨k, hv⟩ ⟨k', hw⟩ hne with hle | hle
  · exact Nat.le_of_mul_le_mul_right hle (by decide)
  · omega

private theorem mem_areas_iff {vas : VirtualAddressSpace} {vma : VirtualMemoryArea} :
    vma ∈ vas.virtualMemoryAreas.toList.map Prod.snd ↔ vas.Has vma := by
  rw [List.mem_map]
  constructor
  · rintro ⟨⟨k, v⟩, hv, rfl⟩
    exact ⟨k, Std.ExtTreeMap.mem_toList_iff_getElem?_eq_some.mp hv⟩
  · rintro ⟨k, hk⟩
    exact ⟨(k, vma), Std.ExtTreeMap.mem_toList_iff_getElem?_eq_some.mpr hk, rfl⟩

/-- Dropping an address space whose areas can be reached returns and frees the frames of the
pages of the areas that are not device memory, those of the page tables, and no others. -/
theorem drop_exact {vas : VirtualAddressSpace} (fa : FrameAllocator) (hwf : vas.WellFormed)
    (hhalf : ∀ vma, vas.Has vma → vma.range.OneHalf) (hreach : vas.Reached) :
    ∃ fa' freed, vas.drop fa = .ok fa' ∧ Freed fa fa' freed ∧
      ∀ f, f ∈ freed ↔ vas.IsAreaFrame f ∨ IsTableFrame 3 vas.pageTables.rootTable f := by
  have harea : ∀ f, vas.IsAreaFrame f ↔ ∃ p,
      Reclaimed (vas.virtualMemoryAreas.toList.map Prod.snd) p ∧
        vas.pageTables.frameOf p = some f := by
    intro f
    constructor
    · rintro ⟨vma, p, hhas, htyp, hp, hf⟩
      exact ⟨p, ⟨vma, mem_areas_iff.mpr hhas, htyp, hp⟩, hf⟩
    · rintro ⟨p, ⟨vma, hmem, htyp, hp⟩, hf⟩
      exact ⟨vma, p, mem_areas_iff.mp hmem, htyp, hp, hf⟩
  obtain ⟨paging, fam, freed, hun, heq, hcons, hnone, -, hfreed⟩ := unmapAreas_clears
    vas.pageTables fa (areas_sorted hwf) (fun vma hvma ↦ hhalf vma (mem_areas_iff.mp hvma))
    (fun vma hvma ↦ (vma.range_lt (hwf.nonempty vma (mem_areas_iff.mp hvma))).le)
    (fun vma hvma ↦ hreach vma (mem_areas_iff.mp hvma))
  obtain ⟨tables, heq', htables⟩ := dropTable_freed 3 paging.rootTable fam
  refine ⟨_, freed ++ tables, bind_eq_ok.mpr ⟨(paging, fam), hun, rfl⟩, heq.trans heq', ?_⟩
  intro f
  rw [List.mem_append, harea]
  constructor
  · rintro (hf | hf)
    · exact hfreed f hf
    · exact .inr (hcons.back f ((htables f).mp hf))
  · rintro (⟨p, hp, hf⟩ | hf)
    · obtain ⟨entry, hlook, hframe⟩ := Option.map_eq_some_iff.mp hf
      rcases hcons.pages _ entry hlook with hkept | hgone
      · have hgone := hnone p hp
        rw [Paging.frameOf, hkept] at hgone
        cases hgone
      · exact .inl (hframe ▸ hgone)
    · exact (hcons.tables f hf).symm.imp_right (htables f).mpr

end VirtualAddressSpace

end D3OS.Memory
