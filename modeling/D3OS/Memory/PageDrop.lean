import D3OS.Memory.PageUnmap
import D3OS.Memory.Vmm

/-!
# Dropping an address space

Which frames go back to the frame allocator when an address space is dropped. The ranges of
its areas may have gaps, so other pages than those of the areas may be unmapped; but whatever
is freed was mapped somewhere in the page tables or held one of them.
-/

namespace D3OS.Memory

open Lib

/-- A frame that a page is mapped to or that holds one of the tables below this one. -/
def Holds (l : Nat) (table : PageTable l) (f : PhysFrame) : Prop :=
  (∃ k entry, lookup l table k = some entry ∧ entry.frame = f) ∨ IsTableFrame l table f

private theorem holds_succ {l : Nat} {table : PageTable (l + 1)} {f : PhysFrame} :
    Holds (l + 1) table f ↔ ∃ i e, table i = some e ∧ (e.frame = f ∨ Holds l e.next f) := by
  constructor
  · rintro (⟨k, entry, hlook, hf⟩ | ⟨i, e, he, hf⟩)
    · rw [lookup_succ] at hlook
      obtain ⟨e, he, hk⟩ := Option.bind_eq_some_iff.mp hlook
      exact ⟨_, e, he, .inr (.inl ⟨k, entry, hk, hf⟩)⟩
    · exact ⟨i, e, he, hf.imp_right .inr⟩
  · rintro ⟨i, e, he, hf | ⟨k, entry, hlook, hf⟩ | hf⟩
    · exact .inr ⟨i, e, he, .inl hf⟩
    · refine .inl ⟨blockKey 512 (l + 1) i k, entry, ?_, hf⟩
      rw [lookup_blockKey, he]
      exact hlook
    · exact .inr ⟨i, e, he, .inr hf⟩

/-- The frames that were freed between two states of the allocator. -/
def Freed (fa fa' : FrameAllocator) (freed : List PhysFrame) : Prop :=
  fa'.freed = fa.freed ++ freed

/-- Nothing is freed. -/
theorem Freed.refl (fa : FrameAllocator) : Freed fa fa [] := (List.append_nil _).symm

private theorem Freed.freeFrame (fa : FrameAllocator) (f : PhysFrame) : Freed fa (fa.freeFrame f)
    [f] := rfl

/-- What is freed by two steps. -/
theorem Freed.trans {fa fa' fa'' : FrameAllocator} {freed freed' : List PhysFrame}
    (h : Freed fa fa' freed) (h' : Freed fa' fa'' freed') : Freed fa fa'' (freed ++ freed') := by
  rw [Freed, h', h, List.append_assoc]

/-- The frame of the table behind an entry, or of one below it. -/
def IsEntryFrame {l : Nat} (entry : Option (TableEntry (PageTable l))) (f : PhysFrame) : Prop :=
  ∃ e, entry = some e ∧ (e.frame = f ∨ IsTableFrame l e.next f)

@[simp] private theorem isEntryFrame_some {l : Nat} {e : TableEntry (PageTable l)} {f : PhysFrame} :
    IsEntryFrame (some e) f ↔ e.frame = f ∨ IsTableFrame l e.next f := by
  simp [IsEntryFrame]

@[simp] private theorem not_isEntryFrame_none {l : Nat} (f : PhysFrame) :
    ¬ IsEntryFrame (none : Option (TableEntry (PageTable l))) f := by
  simp [IsEntryFrame]

/-- What the table had is there afterwards or was freed, and nothing is there or was freed that it
did not have. -/
structure GivesBack (l : Nat) (table table' : PageTable l) (freed : List PhysFrame) : Prop where
  pages : ∀ k entry, lookup l table k = some entry →
    lookup l table' k = some entry ∨ entry.frame ∈ freed
  tables : ∀ f, IsTableFrame l table f → IsTableFrame l table' f ∨ f ∈ freed
  kept : ∀ k entry, lookup l table' k = some entry → lookup l table k = some entry
  back : ∀ f, IsTableFrame l table' f → IsTableFrame l table f
  walks : ∀ k, HasTable l table' k → HasTable l table k
  held : ∀ f ∈ freed, Holds l table f

/-- The same of what lies behind one entry. -/
structure GivesBackEntry {l : Nat} (old new : Option (TableEntry (PageTable l)))
    (freed : List PhysFrame) : Prop where
  pages : ∀ k entry, lookupEntry old k = some entry →
    lookupEntry new k = some entry ∨ entry.frame ∈ freed
  tables : ∀ f, IsEntryFrame old f → IsEntryFrame new f ∨ f ∈ freed
  kept : ∀ k entry, lookupEntry new k = some entry → lookupEntry old k = some entry
  back : ∀ f, IsEntryFrame new f → IsEntryFrame old f
  walks : ∀ k, HasTableEntry new k → HasTableEntry old k
  held : ∀ f ∈ freed, ∃ e, old = some e ∧ (e.frame = f ∨ Holds l e.next f)

section

variable {l : Nat} {freed freed' : List PhysFrame}

/-- Nothing is given back. -/
theorem GivesBack.refl (table : PageTable l) : GivesBack l table table [] :=
  ⟨fun _ _ h ↦ .inl h, fun _ h ↦ .inl h, fun _ _ h ↦ h, fun _ h ↦ h, fun _ h ↦ h, nofun⟩

private theorem GivesBack.holds {t t' : PageTable l} (h : GivesBack l t t' freed) {f : PhysFrame}
    (hf : Holds l t' f) : Holds l t f :=
  hf.imp (fun ⟨k, entry, hlook, hframe⟩ ↦ ⟨k, entry, h.kept k entry hlook, hframe⟩) (h.back f)

/-- What two steps give back. -/
theorem GivesBack.trans {t t' t'' : PageTable l} (h : GivesBack l t t' freed)
    (h' : GivesBack l t' t'' freed') : GivesBack l t t'' (freed ++ freed') where
  pages k entry hentry := by
    rcases h.pages k entry hentry with hmid | hfreed
    · exact (h'.pages k entry hmid).imp_right (List.mem_append_right freed)
    · exact .inr (List.mem_append_left freed' hfreed)
  tables f hf := by
    rcases h.tables f hf with hmid | hfreed
    · exact (h'.tables f hmid).imp_right (List.mem_append_right freed)
    · exact .inr (List.mem_append_left freed' hfreed)
  kept k entry hentry := h.kept k entry (h'.kept k entry hentry)
  back f hf := h.back f (h'.back f hf)
  walks k hk := h.walks k (h'.walks k hk)
  held f hf := (List.mem_append.mp hf).elim (h.held f) fun hf ↦ h.holds (h'.held f hf)

private theorem GivesBackEntry.update {table : Fin 512 → Option (TableEntry (PageTable l))}
    {i : Fin 512} {x : Option (TableEntry (PageTable l))}
    (h : GivesBackEntry (table i) x freed) :
    GivesBack (l + 1) table (Function.update table i x) freed where
  pages k entry hentry := by
    have hold := (lookup_succ table k).symm.trans hentry
    refine Or.imp_left (lookup_succ (Function.update table i x) k).trans ?_
    rw [Function.update_apply]
    split
    next hi => exact h.pages k entry (hi ▸ hold)
    next => exact .inl hold
  tables f hf := by
    obtain ⟨j, e, he, hf⟩ := hf
    by_cases hj : j = i
    · subst hj
      rcases h.tables f ⟨e, he, hf⟩ with ⟨e', he', hf'⟩ | hfreed
      · exact .inl ⟨j, e', (Function.update_self j x table).trans he', hf'⟩
      · exact .inr hfreed
    · exact .inl ⟨j, e, (Function.update_of_ne hj x table).trans he, hf⟩
  kept k entry hentry := by
    have hnew := (lookup_succ (Function.update table i x) k).symm.trans hentry
    refine (lookup_succ table k).trans ?_
    rw [Function.update_apply] at hnew
    split at hnew
    next hi => exact hi ▸ h.kept k entry hnew
    next => exact hnew
  back f hf := by
    obtain ⟨j, e, he, hf⟩ := hf
    rw [Function.update_apply] at he
    split at he
    next => exact ⟨i, h.back f ⟨e, he, hf⟩⟩
    next => exact ⟨j, e, he, hf⟩
  walks k hk := by
    have hnew := (hasTable_succ (Function.update table i x) k).mp hk
    refine (hasTable_succ table k).mpr ?_
    rw [Function.update_apply] at hnew
    split at hnew
    next hi => exact hi ▸ h.walks k hnew
    next => exact hnew
  held f hf := holds_succ.mpr ⟨i, h.held f hf⟩

private theorem not_isTableFrame_of_isTableEmpty {table : PageTable l}
    (h : table.isTableEmpty = true) (f : PhysFrame) : ¬ IsTableFrame l table f := by
  cases l with
  | zero => exact id
  | succ l =>
    rintro ⟨i, e, he, -⟩
    simp only [PageTable.isTableEmpty, List.all_eq_true, Option.isNone_iff_eq_none] at h
    rw [h i (List.mem_finRange i)] at he
    cases he

private theorem GivesBack.entry {e : TableEntry (PageTable l)} {next : PageTable l}
    (h : GivesBack l e.next next freed) :
    GivesBackEntry (some e) (some { e with next := next }) freed where
  pages := h.pages
  tables f hf := by
    rw [isEntryFrame_some] at hf ⊢
    rcases hf with hframe | hbelow
    · exact .inl (.inl hframe)
    · exact (h.tables f hbelow).imp_left .inr
  kept := h.kept
  back f hf := by
    rw [isEntryFrame_some] at hf ⊢
    exact hf.imp_right (h.back f)
  walks k hk := (hasTableEntry_some e k).mpr (h.walks k ((hasTableEntry_some _ k).mp hk))
  held f hf := ⟨e, rfl, .inr (h.held f hf)⟩

private theorem GivesBack.unlink {e : TableEntry (PageTable l)} {next : PageTable l}
    (h : GivesBack l e.next next freed) (hempty : next.isTableEmpty = true) :
    GivesBackEntry (some e) none (freed ++ [e.frame]) where
  pages k entry hentry := by
    rcases h.pages k entry hentry with hnew | hfreed
    · rw [lookup_of_isTableEmpty hempty] at hnew
      cases hnew
    · exact .inr (List.mem_append_left _ hfreed)
  tables f hf := by
    rcases isEntryFrame_some.mp hf with hframe | hbelow
    · exact .inr (List.mem_append_right _ (List.mem_singleton.mpr hframe.symm))
    · rcases h.tables f hbelow with hnew | hfreed
      · exact absurd hnew (not_isTableFrame_of_isTableEmpty hempty f)
      · exact .inr (List.mem_append_left _ hfreed)
  kept _ _ h := nomatch h
  back f hf := absurd hf (not_isEntryFrame_none f)
  walks k hk := absurd hk (not_hasTableEntry_none k)
  held f hf := ⟨e, rfl, (List.mem_append.mp hf).elim (fun hf ↦ .inr (h.held f hf))
    fun hf ↦ .inl (List.mem_singleton.mp hf).symm⟩

private theorem givesBackEntry_none :
    GivesBackEntry (none : Option (TableEntry (PageTable l))) none [] :=
  ⟨fun _ _ h ↦ .inl h, fun _ h ↦ .inl h, fun _ _ h ↦ h, fun _ h ↦ h, fun _ h ↦ h, nofun⟩

private theorem unmapLevel1_givesBack (table : Level1Table) (pages : PageRange)
    (fa : FrameAllocator) :
    Yields (unmapLevel1 true table pages fa)
      (fun r ↦ ∃ freed, Freed fa r.2.2 freed ∧ GivesBack 0 table r.1 freed) (fun _ ↦ True) := by
  set start := pageTableIndex pages.start.startAddress 1
  apply Yields.bind (Q := fun n ↦ start.val + n ≤ 512)
  · refine yields_of_eq (fun n hn ↦ ?_) fun _ _ ↦ trivial
    obtain ⟨len, -, hn⟩ := of_bind hn
    rw [← Except.ok.inj hn]
    omega
  intro n hn
  -- the frames of the entries that the loop has passed have been freed, and no others
  apply (forCount_yields (P := fun _ x ↦ x.isUnused = true) (E := fun _ ↦ True)
    (I := fun c fa' ↦ ∃ freed, Freed fa fa' freed ∧ (∀ i : Fin 512, start.val ≤ i.val →
        i.val < start.val + c → (table i).isUnused = false → (table i).frame ∈ freed) ∧
      ∀ f ∈ freed, ∃ i, (table i).isUnused = false ∧ (table i).frame = f)
    hn ⟨[], .refl fa, fun i hle hlt ↦ by omega, nofun⟩ ?_).bind
  · rintro ⟨t, fa'⟩ ⟨⟨freed, heq, hfreed, hheld⟩, hfill⟩
    have hlook (k : Nat) : lookup 0 t k =
        if start.val ≤ (index 0 k).val ∧ (index 0 k).val < start.val + n then none
        else lookup 0 table k := by
      have hk := hfill (index 0 k)
      split at hk
      next hin =>
        rw [if_pos hin]
        exact (lookup_zero t k).trans (if_pos hk)
      next hout =>
        rw [if_neg hout]
        exact lookup_zero_congr hk
    refine ⟨freed, heq, ⟨fun k entry hentry ↦ ?_, fun f hf ↦ hf.elim, fun k entry hentry ↦ ?_,
      fun f hf ↦ hf.elim, fun k _ ↦ rfl, fun f hf ↦ ?_⟩⟩
    · rw [hlook]
      split
      next hk =>
        have hold := (lookup_zero table k).symm.trans hentry
        split at hold
        next => cases hold
        next hused =>
          cases hold
          exact .inr (hfreed _ hk.1 hk.2 (Bool.not_eq_true _ ▸ hused))
      next => exact .inl hentry
    · rw [hlook] at hentry
      split at hentry
      next => cases hentry
      next => exact hentry
    · obtain ⟨i, hused, hframe⟩ := hheld f hf
      have hi : index 0 i.val = i := Fin.ext (by simp [index, digit, Nat.mod_eq_of_lt i.isLt])
      refine .inl ⟨i.val, table i, (lookup_zero table i.val).trans ?_, hframe⟩
      rw [hi, hused]
      rfl
  · rintro c i fa' hc hi ⟨freed, heq, hfreed, hheld⟩
    unfold unmapLeafEntry
    split
    next hun =>
      refine ⟨hun, freed, heq, fun j hle hlt hused ↦ ?_, hheld⟩
      by_cases hj : j = i
      · rw [hj, hun] at hused
        cases hused
      · exact hfreed j hle (by omega) hused
    next hun =>
      refine ⟨rfl, freed ++ [(table i).frame], heq.trans (.freeFrame _ _),
        fun j hle hlt hused ↦ ?_, fun f hf ↦ ?_⟩
      · by_cases hj : j = i
        · exact List.mem_append_right _ (by rw [hj]; exact List.mem_singleton_self _)
        · exact List.mem_append_left _ (hfreed j hle (by omega) hused)
      · rcases List.mem_append.mp hf with hf | hf
        · exact hheld f hf
        · exact ⟨i, Bool.not_eq_true _ ▸ hun, (List.mem_singleton.mp hf).symm⟩

private theorem unmapEntry_givesBack {recurse : PageTable l → UnmapCursor →
      Except Panic (PageTable l × Nat × FrameAllocator)}
    {entry : Option (TableEntry (PageTable l))} {cur : UnmapCursor}
    (hrec : ∀ e, entry = some e → Yields (recurse e.next cur)
      (fun r ↦ ∃ freed, Freed cur.alloc r.2.2 freed ∧ GivesBack l e.next r.1 freed)
      (fun _ ↦ True)) :
    Yields (unmapEntry recurse entry cur)
      (fun r ↦ ∃ freed, Freed cur.alloc r.2.1.alloc freed ∧ GivesBackEntry entry r.1 freed)
      (fun _ ↦ True) := by
  cases entry with
  | none => exact ⟨[], .refl _, givesBackEntry_none⟩
  | some e =>
    apply (hrec e rfl).bind
    rintro ⟨next, n, fa⟩ ⟨freed, heq, hnext⟩
    apply Yields.bind (Q := fun _ ↦ True) (yields_of_eq (fun _ _ ↦ trivial) fun _ _ ↦ trivial)
    rintro start -
    split
    next hempty => exact ⟨_, heq.trans (.freeFrame _ _), hnext.unlink hempty⟩
    next => exact ⟨freed, heq, hnext.entry⟩

private theorem unmapInTable_givesBack (table : PageTable l) (pages : PageRange)
    (fa : FrameAllocator) :
    Yields (unmapInTable true l table pages fa)
      (fun r ↦ ∃ freed, Freed fa r.2.2 freed ∧ GivesBack l table r.1 freed) (fun _ ↦ True) := by
  induction l generalizing pages fa with
  | zero => exact unmapLevel1_givesBack table pages fa
  | succ l ih =>
    let I (t : PageTable (l + 1)) (cur : UnmapCursor) : Prop :=
      ∃ freed, Freed fa cur.alloc freed ∧ GivesBack (l + 1) table t freed
    apply (scanFrom_yields (E := fun _ ↦ True) (I := fun _ t cur ↦ I t cur) (Q := I)
      (Fin.is_lt _).le ⟨[], .refl _, .refl _⟩ ?_ fun _ _ h ↦ h).bind
    · rintro ⟨t, cur⟩ h
      exact h
    · rintro i hi t cur ⟨freed, heq, hcons⟩
      simp only [ite_self]
      apply (unmapEntry_givesBack (fun e _ ↦ ih e.next cur.pages cur.alloc)).mono _ (fun _ h ↦ h)
      rintro r ⟨freed', heq', hentry⟩
      exact ⟨freed ++ freed', heq.trans heq', hcons.trans hentry.update⟩

/-- `drop_table` frees the frames of the page tables. -/
theorem dropTable_freed (l : Nat) (table : PageTable l) (fa : FrameAllocator) :
    ∃ freed, Freed fa (dropTable l table fa) freed ∧ ∀ f, f ∈ freed ↔ IsTableFrame l table f := by
  induction l generalizing fa with
  | zero => exact ⟨[], .refl fa, fun f ↦ iff_of_false List.not_mem_nil id⟩
  | succ l ih =>
    have hiff : ∀ f, IsTableFrame (l + 1) table f ↔
        ∃ i ∈ List.finRange 512, IsEntryFrame (table i) f := by
      intro f
      simp only [List.mem_finRange, true_and]
      rfl
    simp only [hiff]
    rw [dropTable]
    generalize List.finRange 512 = indices
    induction indices generalizing fa with
    | nil => exact ⟨[], .refl fa, by simp⟩
    | cons i rest ihr =>
      simp only [List.foldl_cons, List.mem_cons, exists_eq_or_imp]
      cases table i with
      | none =>
        obtain ⟨freed, heq, hfreed⟩ := ihr fa
        exact ⟨freed, heq, fun f ↦ by rw [hfreed, or_iff_right (not_isEntryFrame_none f)]⟩
      | some e =>
        obtain ⟨below, hbelow, hmem⟩ := ih e.next fa
        obtain ⟨freed, heq, hfreed⟩ := ihr ((dropTable l e.next fa).freeFrame e.frame)
        refine ⟨below ++ [e.frame] ++ freed, (hbelow.trans (.freeFrame _ _)).trans heq, fun f ↦ ?_⟩
        rw [List.mem_append, List.mem_append, List.mem_singleton, hmem, hfreed, isEntryFrame_some,
          or_comm (a := IsTableFrame l e.next f), eq_comm (a := f)]

end

/-- A frame that a page is mapped to or that holds a page table. -/
def Paging.Holds (paging : Paging) (f : PhysFrame) : Prop := Memory.Holds 3 paging.rootTable f

/-- The frame that an address translates to is held by the tables. -/
theorem Paging.holds_of_translate {paging : Paging} {a : VirtAddr} {p : PhysAddr}
    (h : paging.translate a = some p) : ∃ f, paging.Holds f ∧ f.number = p.asU64 / pageSize := by
  rw [Paging.translate, translateInTable_eq] at h
  obtain ⟨entry, hlook, rfl⟩ := Option.map_eq_some_iff.mp h
  exact ⟨entry.frame, .inl ⟨_, entry, hlook, rfl⟩, (entry.address_div a).symm⟩

/-- `unmap` with `free_physical` gives back what it unmaps. -/
theorem unmap_givesBack {paging paging' : Paging} {pages : PageRange} {fa fa' : FrameAllocator}
    (h : paging.unmap pages true fa = .ok (paging', fa')) :
    ∃ freed, Freed fa fa' freed ∧ GivesBack 3 paging.rootTable paging'.rootTable freed := by
  obtain ⟨⟨root, n, fa''⟩, hr, heq⟩ := of_bind h
  cases heq
  exact (unmapInTable_givesBack paging.rootTable pages fa).of_ok hr

namespace VirtualAddressSpace

/-- `unmap_vma` of an area whose pages are all mapped. -/
theorem unmapVma_of_mapped {vas : VirtualAddressSpace} {vma : VirtualMemoryArea}
    (freePhysical : Bool) (fa : FrameAllocator) (hhalf : vma.range.OneHalf)
    (hse : vma.range.start.number ≤ vma.range.stop.number)
    (hall : ∀ a, vma.range.ContainsAddr a → (vas.pageTables.translate a).isSome) :
    ∃ paging fa', vas.unmapVma vma freePhysical fa =
        .ok ({ vas with pageTables := paging }, fa') ∧
      (∀ a, vma.range.ContainsAddr a → paging.translate a = none) ∧
      (∀ a, ¬ vma.range.ContainsAddr a → paging.translate a = vas.pageTables.translate a) ∧
      FreesOnly fa fa' (MayFree freePhysical 3 vas.pageTables.rootTable vma.range.start.number
        vma.range.stop.number) := by
  obtain ⟨paging, fa', hun, hmaps, hfrees⟩ :=
    unmap_ok freePhysical fa hhalf hse (gapFree_of_mapped hall)
  obtain ⟨hin, hout⟩ := translate_of_unmaps hhalf hse hmaps
  exact ⟨paging, fa', bind_eq_ok.mpr ⟨_, hun, rfl⟩, hin, hout, hfrees⟩

private theorem unmapAreas_givesBack {areas : List VirtualMemoryArea} {paging paging' : Paging}
    {fa fa' : FrameAllocator} (h : unmapAreas areas paging fa = .ok (paging', fa')) :
    ∃ freed, Freed fa fa' freed ∧ GivesBack 3 paging.rootTable paging'.rootTable freed := by
  induction areas generalizing paging fa with
  | nil =>
    cases h
    exact ⟨[], .refl _, .refl _⟩
  | cons vma rest ih =>
    unfold unmapAreas at h
    split at h
    next => exact ih h
    next =>
      obtain ⟨⟨mid, fam⟩, hun, h⟩ := of_bind h
      obtain ⟨freed, heq, hmid⟩ := unmap_givesBack hun
      obtain ⟨freed', heq', hrest⟩ := ih h
      exact ⟨freed ++ freed', heq.trans heq', hmid.trans hrest⟩

/-- Dropping an address space frees nothing that its page tables do not hold. -/
theorem drop_frees {vas : VirtualAddressSpace} {fa fa' : FrameAllocator}
    (h : vas.drop fa = .ok fa') : FreesOnly fa fa' vas.pageTables.Holds := by
  obtain ⟨⟨paging, fam⟩, hun, heq⟩ := of_bind h
  obtain ⟨freed, hfreed, hareas⟩ := unmapAreas_givesBack hun
  obtain ⟨tables, htables, hmem⟩ := dropTable_freed 3 paging.rootTable fam
  rw [← Except.ok.inj heq]
  refine ⟨freed ++ tables, hfreed.trans htables, fun f hf ↦ ?_⟩
  rcases List.mem_append.mp hf with hf | hf
  · exact hareas.held f hf
  · exact hareas.holds (.inr ((hmem f).mp hf))

end VirtualAddressSpace

end D3OS.Memory
