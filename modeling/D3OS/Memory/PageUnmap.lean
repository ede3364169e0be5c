import D3OS.Memory.Translation

/-!
# Unmapping

What `unmap` makes of a tree of page tables. The loop of `unmap_in_table` skips an
unused entry without moving the start of the range, so the tables behind a missing
table are visited with a start that is not theirs. `NoGap` excludes that: once a page
of the range has no level 1 table, no page behind it has one. Under it exactly the
pages of the range are unmapped.
-/

namespace D3OS.Memory

open Lib

/-- The pages of the range are unmapped, all others are mapped as before. -/
def Unmaps (l s e : Nat) (table table' : PageTable l) : Prop :=
  ∀ k, lookup l table' k = if InSpan 512 (l + 1) s e k then none else lookup l table k

/-- A frame that holds one of the tables below this one, if that table maps no page outside
of `R`. -/
def TableWithin : (l : Nat) → PageTable l → (Nat → Prop) → PhysFrame → Prop
  | 0, _, _, _ => False
  | l + 1, table, R, f => ∃ i c, table i = some c ∧
      ((c.frame = f ∧ ∀ k, (lookup l c.next k).isSome → R (blockKey 512 (l + 1) i k)) ∨
        TableWithin l c.next (fun k ↦ R (blockKey 512 (l + 1) i k)) f)

/-- A frame that unmapping the range may free: the frame of a page of the range, or one
that holds a page table for pages of the range only. -/
def MayFree (freePhysical : Bool) (l : Nat) (table : PageTable l) (s e : Nat)
    (f : PhysFrame) : Prop :=
  (freePhysical = true ∧ ∃ k entry, InSpan 512 (l + 1) s e k ∧ lookup l table k = some entry ∧
    entry.frame = f) ∨ TableWithin l table (InSpan 512 (l + 1) s e) f

/-- Behind a page of the range without a level 1 table no page has one. -/
def NoGap (l s e : Nat) (table : PageTable l) : Prop :=
  ∀ k k', InSpan 512 (l + 1) s e k → ¬ HasTable l table k →
    k % 512 ^ (l + 1) ≤ k' % 512 ^ (l + 1) → ¬ HasTable l table k'

/-- The range is empty or one of its pages has no level 1 table. -/
def Stuck (l s e : Nat) (table : PageTable l) : Prop :=
  s = e ∨ ∃ k, InSpan 512 (l + 1) s e k ∧ ¬ HasTable l table k

/-- The frames freed between `fa` and `fa'` all satisfy `P`. -/
def FreesOnly (fa fa' : FrameAllocator) (P : PhysFrame → Prop) : Prop :=
  ∃ freed, fa'.freed = fa.freed ++ freed ∧ ∀ f ∈ freed, P f

/-- Nothing is freed. -/
theorem FreesOnly.refl (fa : FrameAllocator) (P : PhysFrame → Prop) : FreesOnly fa fa P :=
  ⟨[], (List.append_nil _).symm, by simp⟩

variable {f : PhysFrame}

private theorem TableWithin.mono {l : Nat} {table : PageTable l} {R R' : Nat → Prop}
    (h : TableWithin l table R f) (hR : ∀ k, (lookup l table k).isSome → R k → R' k) :
    TableWithin l table R' f := by
  induction l generalizing R R' with
  | zero => exact h.elim
  | succ l ih =>
    obtain ⟨i, c, hc, h⟩ := h
    -- what the table behind the entry maps is mapped by this one, at the key of the block
    have hchild : ∀ k, (lookup l c.next k).isSome → R (blockKey 512 (l + 1) i k) →
        R' (blockKey 512 (l + 1) i k) := by
      intro k hk
      apply hR
      rw [lookup_blockKey, hc]
      exact hk
    refine ⟨i, c, hc, ?_⟩
    rcases h with ⟨hf, hall⟩ | hbelow
    · exact .inl ⟨hf, fun k hk ↦ hchild k hk (hall k hk)⟩
    · exact .inr (ih hbelow hchild)

/-- The frame of a table that maps pages of `R` only is the frame of a table. -/
theorem TableWithin.isTableFrame {l : Nat} {table : PageTable l} {R : Nat → Prop}
    (h : TableWithin l table R f) : IsTableFrame l table f := by
  induction l generalizing R with
  | zero => exact h
  | succ l ih =>
    obtain ⟨i, c, hc, hf⟩ := h
    exact ⟨i, c, hc, hf.imp And.left ih⟩

private theorem FreesOnly.freeFrame {fa : FrameAllocator} {P : PhysFrame → Prop} (h : P f) :
    FreesOnly fa (fa.freeFrame f) P :=
  ⟨[f], rfl, by simpa using h⟩

private theorem FreesOnly.trans {fa fa' fa'' : FrameAllocator} {P Q : PhysFrame → Prop}
    (h : FreesOnly fa fa' P) (h' : FreesOnly fa' fa'' Q) (hQ : ∀ f, Q f → P f) :
    FreesOnly fa fa'' P := by
  obtain ⟨freed, heq, hP⟩ := h
  obtain ⟨freed', heq', hQ'⟩ := h'
  refine ⟨freed ++ freed', by rw [heq', heq, List.append_assoc], ?_⟩
  intro f hf
  rcases List.mem_append.mp hf with hf | hf
  · exact hP f hf
  · exact hQ f (hQ' f hf)

/-- The result of unmapping in one table. -/
structure UnmapResult (freePhysical : Bool) (l s e : Nat) (table : PageTable l)
    (fa : FrameAllocator) (r : PageTable l × Nat × FrameAllocator) : Prop where
  unmaps : Unmaps l s e table r.1
  le : s + r.2.1 ≤ e
  count : r.2.1 = span 512 (l + 1) s e ∨ Stuck l s e table
  found : r.2.1 ≠ 0 → ∃ k, HasTable l table k
  frees : FreesOnly fa r.2.2 (MayFree freePhysical l table s e)

section

variable {freePhysical : Bool} {table : Level1Table} {pages : PageRange} {fa : FrameAllocator}

private theorem unmapLeafEntry_yields (entry : PageTableEntry) (fa : FrameAllocator) :
    Yields (unmapLeafEntry freePhysical entry fa) (fun r ↦ r.1.isUnused ∧ FreesOnly fa r.2
      fun f ↦ freePhysical = true ∧ entry.isUnused = false ∧ entry.frame = f) (fun _ ↦ False) := by
  unfold unmapLeafEntry
  split
  next hun => exact ⟨hun, .refl _ _⟩
  next hun =>
    split
    next hfree => exact ⟨rfl, .freeFrame ⟨hfree, Bool.not_eq_true _ ▸ hun, rfl⟩⟩
    next => exact ⟨rfl, .refl _ _⟩

private theorem unmapLevel1_yields (hse : pages.start.number ≤ pages.stop.number) :
    Yields (unmapLevel1 freePhysical table pages fa)
      (UnmapResult freePhysical 0 pages.start.number pages.stop.number table fa)
      (fun _ ↦ False) := by
  simp only [unmapLevel1, pageTableIndex_startAddress]
  rw [pagesInTable_eq hse]
  apply (forCount_yields (P := fun _ x ↦ x.isUnused)
    (I := fun _ fa' ↦ FreesOnly fa fa'
      (MayFree freePhysical 0 table pages.start.number pages.stop.number))
    (index_add_span_le _ _) (.refl _ _) ?_).bind
  · rintro ⟨t, fa'⟩ ⟨hfree, hfill⟩
    have hle : span 512 1 pages.start.number pages.stop.number ≤ _ := min_le_left _ _
    refine ⟨?_, by dsimp only; omega, .inl rfl, fun _ ↦ ⟨0, hasTable_zero _ 0⟩, hfree⟩
    intro k
    split
    next hk =>
      have hun := hfill.inside hk
      exact (lookup_zero t k).trans (if_pos hun)
    next hk => exact lookup_zero_congr (hfill.outside hk)
  · intro c i fa' hc hi hfa
    apply (unmapLeafEntry_yields (table i) fa').mono _ (fun _ h ↦ h)
    rintro ⟨x, fa''⟩ ⟨hun, hfree⟩
    refine ⟨hun, hfa.trans hfree ?_⟩
    rintro f ⟨hphys, hused, rfl⟩
    have hidx : index 0 i.val = i := by
      apply Fin.ext
      rw [index_zero]
      exact Nat.mod_eq_of_lt i.isLt
    refine .inl ⟨hphys, i.val, table i, ?_, ?_, rfl⟩
    · have hs := index_zero pages.start.number
      have hi' : i.val % 512 ^ 1 = i.val := Nat.mod_eq_of_lt i.isLt
      simp only [InSpan, Nat.zero_add, hi']
      omega
    · refine (lookup_zero table i.val).trans ?_
      rw [hidx, hused]
      rfl

end

section

variable {l s e : Nat} {table : PageTable (l + 1)}

private theorem noGap_of_le {l : Nat} {table : PageTable l} (h : e ≤ s) : NoGap l s e table :=
  fun _ _ hk _ _ ↦ absurd hk (not_inSpan_of_le h)

private theorem noGap_of_noTable {l : Nat} {table : PageTable l} (h : ∀ k, ¬ HasTable l table k) :
    NoGap l s e table :=
  fun _ k' _ _ _ ↦ h k'

variable {i : Fin 512}

section

variable (h : NoGap (l + 1) s e table) (hent : Enters 512 (l + 1) s e i)
include h hent

private theorem NoGap.child {c : TableEntry (PageTable l)} (hc : table i = some c) :
    NoGap l (blockStart 512 (l + 1) s i) e c.next := by
  intro k k' hk hno hle hk'
  apply h (blockKey 512 (l + 1) i k) (blockKey 512 (l + 1) i k')
  · exact (inSpan_blockKey i.isLt hent k).mpr hk
  · rw [hasTable_blockKey, hc, hasTableEntry_some]
    exact hno
  · rw [blockKey_mod_succ i.isLt, blockKey_mod_succ i.isLt]
    exact Nat.add_le_add_left hle _
  · rw [hasTable_blockKey, hc, hasTableEntry_some]
    exact hk'

private theorem NoGap.later {j : Fin 512} {k : Nat}
    (hk : InSpan 512 (l + 1) (blockStart 512 (l + 1) s i) e k)
    (hno : ¬ HasTableEntry (table i) k) (hij : i < j) (k' : Nat) :
    ¬ HasTableEntry (table j) k' := by
  rw [← hasTable_blockKey]
  apply h (blockKey 512 (l + 1) i k)
  · exact (inSpan_blockKey i.isLt hent k).mpr hk
  · rw [hasTable_blockKey]
    exact hno
  · rw [blockKey_mod_succ i.isLt, blockKey_mod_succ j.isLt]
    exact (blockKey_lt (by decide) hij k k').le

end

private theorem stuck_of_entry {k : Nat} (hent : Enters 512 (l + 1) s e i)
    (hk : InSpan 512 (l + 1) (blockStart 512 (l + 1) s i) e k) (hno : ¬ HasTableEntry (table i) k) :
    Stuck (l + 1) s e table := by
  refine .inr ⟨blockKey 512 (l + 1) i k, (inSpan_blockKey i.isLt hent k).mpr hk, ?_⟩
  rw [hasTable_blockKey]
  exact hno

end

section

variable {l s e : Nat}

/-- The effect of unmapping on what lies behind one entry. -/
def UnmapsEntry (e s : Nat) (old new : Option (TableEntry (PageTable l))) : Prop :=
  ∀ k, lookupEntry new k = if InSpan 512 (l + 1) s e k then none else lookupEntry old k

/-- A visit that changes nothing behind the entry. -/
def SameEntry (old new : Option (TableEntry (PageTable l))) : Prop :=
  ∀ k, lookupEntry new k = lookupEntry old k

/-- The entry does nothing when it is visited after the range got stuck. -/
def IdleEntry (s e : Nat) (table : PageTable (l + 1)) (i : Fin 512) : Prop :=
  s = e ∨ ∀ k, ¬ HasTableEntry (table i) k

private theorem unmaps_succ {table table' : PageTable (l + 1)}
    (h : ∀ j, Scanned (l + 1) s e (UnmapsEntry e) (IdleEntry s e table) SameEntry table j
      (table' j)) : Unmaps (l + 1) s e table table' := by
  intro k
  rw [lookup_succ, lookup_succ]
  rcases h (index (l + 1) k) with ⟨hent, hR⟩ | ⟨hne, he⟩ | ⟨hidle, hD⟩
  · rw [hR k]
    have hiff := inSpan_succ_iff (b := 512) (by decide) (l := l + 1) (s := s) (e := e) k
    simp only [hiff, show Enters 512 (l + 1) s e (digit 512 (l + 1) k) from hent, true_and]
    rfl
  · rw [he, if_neg]
    exact fun hk ↦ hne ((inSpan_succ_iff (by decide) k).mp hk).1
  · rw [hD k]
    rcases hidle with hse | hno
    · rw [if_neg (not_inSpan_of_le hse.ge)]
    · split
      next hk =>
        rw [← lookup_succ]
        exact lookup_eq_none_of_not_hasTable fun ht ↦ hno k ((hasTable_succ table k).mp ht)
      next => rfl

end

section

variable {freePhysical : Bool} {l : Nat} {pages : PageRange} {fa : FrameAllocator}

/-- The outcome of the visit of a used entry: the table behind it is unmapped, and
unlinked if it has become empty. -/
private def Visited (freePhysical : Bool) (pages : PageRange) (c : TableEntry (PageTable l))
    (cur : UnmapCursor) (r : Option (TableEntry (PageTable l)) × UnmapCursor × Bool) : Prop :=
  ∃ q, UnmapResult freePhysical l cur.pages.start.number pages.stop.number c.next cur.alloc q ∧
    (∀ k, lookupEntry r.1 k = lookup l q.1 k) ∧
    r.2.1.pages.stop = pages.stop ∧
    r.2.1.pages.start.number = cur.pages.start.number + q.2.1 ∧
    r.2.1.total = cur.total + q.2.1 ∧
    FreesOnly q.2.2 r.2.1.alloc (fun f ↦ c.frame = f ∧ ∀ k, lookup l q.1 k = none) ∧
    r.2.2 = decide (pages.stop.number ≤ r.2.1.pages.start.number)

variable {c : TableEntry (PageTable l)} {cur : UnmapCursor}

private theorem unmapEntry_yields {recurse : PageTable l → UnmapCursor →
      Except Panic (PageTable l × Nat × FrameAllocator)} (hhalf : pages.OneHalf)
    (hs : pages.start.number ≤ cur.pages.start.number) (hstop : cur.pages.stop = pages.stop)
    (hrec : Yields (recurse c.next cur) (UnmapResult freePhysical l cur.pages.start.number
      pages.stop.number c.next cur.alloc) (fun _ ↦ False)) :
    Yields (unmapEntry recurse (some c) cur) (Visited freePhysical pages c cur)
      (fun _ ↦ False) := by
  apply hrec.bind
  rintro ⟨next, m, fa'⟩ hres
  apply ((Page.add_yields (G := True) (fun _ ↦ hhalf) hs hres.le).mono (fun _ h ↦ h)
    (fun _ h ↦ h trivial)).bind
  intro start hstart
  rw [hstop]
  split
  next hempty =>
    have hnone : ∀ k, lookup l next k = none := lookup_of_isTableEmpty hempty
    refine ⟨⟨next, m, fa'⟩, hres, ?_, rfl, hstart, rfl, .freeFrame ⟨rfl, hnone⟩, rfl⟩
    intro k
    rw [hnone]
    rfl
  next => exact ⟨⟨next, m, fa'⟩, hres, fun k ↦ rfl, rfl, hstart, rfl, .refl _ _, rfl⟩

/-- Loop invariant of `unmap_in_table`. -/
private structure UnmapInv (freePhysical : Bool) (pages : PageRange) (table : PageTable (l + 1))
    (fa : FrameAllocator) (cur : UnmapCursor) : Prop where
  stop : cur.pages.stop = pages.stop
  total : pages.start.number + cur.total = cur.pages.start.number
  found : cur.total ≠ 0 → ∃ k, HasTable (l + 1) table k
  frees : FreesOnly fa cur.alloc
    (MayFree freePhysical (l + 1) table pages.start.number pages.stop.number)

variable {table : PageTable (l + 1)} {s e s' : Nat} {i : Fin 512}

private theorem mayFree_of_entry (hc : table i = some c)
    (hin : ∀ k entry, InSpan 512 (l + 1) s' e k → lookup l c.next k = some entry →
      InSpan 512 (l + 2) s e (blockKey 512 (l + 1) i k)) (f : PhysFrame)
    (h : MayFree freePhysical l c.next s' e f) : MayFree freePhysical (l + 1) table s e f := by
  rcases h with ⟨hfree, k, entry, hk, hlook, hf⟩ | htable
  · refine .inl ⟨hfree, blockKey 512 (l + 1) i k, entry, hin k entry hk hlook, ?_, hf⟩
    rw [lookup_blockKey, hc]
    exact hlook
  · refine .inr ⟨i, c, hc, .inr (htable.mono fun k hk hspan ↦ ?_)⟩
    obtain ⟨entry, hentry⟩ := Option.isSome_iff_exists.mp hk
    exact hin k entry hspan hentry

private theorem UnmapInv.next {cur' : UnmapCursor} {q : PageTable l × Nat × FrameAllocator}
    (h : UnmapInv freePhysical pages table fa cur) (hc : table i = some c)
    (hin : ∀ k entry, InSpan 512 (l + 1) s' pages.stop.number k →
      lookup l c.next k = some entry →
      InSpan 512 (l + 2) pages.start.number pages.stop.number (blockKey 512 (l + 1) i k))
    (hres : UnmapResult freePhysical l s' pages.stop.number c.next cur.alloc q)
    (hstop : cur'.pages.stop = pages.stop)
    (hstart : cur'.pages.start.number = cur.pages.start.number + q.2.1)
    (htotal : cur'.total = cur.total + q.2.1)
    (hfrees : FreesOnly q.2.2 cur'.alloc (fun f ↦ c.frame = f ∧ ∀ k, lookup l q.1 k = none)) :
    UnmapInv freePhysical pages table fa cur' := by
  have htot := h.total
  refine ⟨hstop, by omega, ?_, ?_⟩
  · intro hne
    by_cases hq : q.2.1 = 0
    · exact h.found (by omega)
    · obtain ⟨k, hk⟩ := hres.found hq
      refine ⟨blockKey 512 (l + 1) i k, ?_⟩
      rw [hasTable_blockKey, hc, hasTableEntry_some]
      exact hk
  · have hmid := h.frees.trans hres.frees (mayFree_of_entry hc hin)
    apply hmid.trans hfrees
    rintro f ⟨hf, hnone⟩
    refine .inr ⟨i, c, hc, .inl ⟨hf, fun k hk ↦ ?_⟩⟩
    -- the table is empty now, so all that it mapped was in the range
    obtain ⟨entry, hentry⟩ := Option.isSome_iff_exists.mp hk
    have hun := hres.unmaps k
    rw [hnone] at hun
    split at hun
    next hspan => exact hin k entry hspan hentry
    next =>
      rw [hentry] at hun
      cases hun

private theorem Visited.live {r : Option (TableEntry (PageTable l)) × UnmapCursor × Bool}
    (h : Visited freePhysical pages c cur r)
    (hgap : NoGap (l + 1) pages.start.number pages.stop.number table)
    (hent : Enters 512 (l + 1) pages.start.number pages.stop.number i)
    (hJ : UnmapInv freePhysical pages table fa cur)
    (hstart : cur.pages.start.number = blockStart 512 (l + 1) pages.start.number i)
    (hc : table i = some c) :
    UnmapsEntry pages.stop.number (blockStart 512 (l + 1) pages.start.number i) (some c) r.1 ∧
    UnmapInv freePhysical pages table fa r.2.1 ∧
    ((r.2.1.pages.start.number = cur.pages.start.number +
        span 512 (l + 1) cur.pages.start.number pages.stop.number ∧
      r.2.2 = decide (pages.stop.number ≤ r.2.1.pages.start.number)) ∨
      (Stuck (l + 1) pages.start.number pages.stop.number table ∧
        pages.start.number ≤ r.2.1.pages.start.number ∧
        r.2.1.pages.start.number ≤ pages.stop.number ∧
        ∀ j, i < j → IdleEntry pages.start.number pages.stop.number table j)) := by
  obtain ⟨q, hres, hlook, hstop', hstart', htotal, hfrees, hexit⟩ := h
  have htot := hJ.total
  have hle := hres.le
  have hspan : span 512 (l + 1) cur.pages.start.number pages.stop.number ≤ _ := min_le_left _ _
  rw [hstart] at hres
  refine ⟨?_, hJ.next hc ?_ hres hstop' hstart' htotal hfrees, ?_⟩
  · intro k
    rw [hlook k]
    exact hres.unmaps k
  · intro k entry hk _
    exact (inSpan_blockKey i.isLt hent k).mpr hk
  · rcases hres.count with hcount | hend | ⟨k, hk, hno⟩
    · rw [← hstart] at hcount
      exact .inl ⟨by omega, hexit⟩
    · exact .inl ⟨by omega, hexit⟩
    · have hno' : ¬ HasTableEntry (table i) k := by
        rw [hc, hasTableEntry_some]
        exact hno
      exact .inr ⟨stuck_of_entry hent hk hno', by omega, by omega,
        fun j hij ↦ .inr (hgap.later hent hk hno' hij)⟩

section

variable (h : IdleEntry s e table i) (hc : table i = some c) (hs : s ≤ s')
include h hc hs

private theorem IdleEntry.lookup_none (k : Nat) (hk : InSpan 512 (l + 1) s' e k) :
    lookup l c.next k = none := by
  rcases h with heq | hno
  · exact absurd hk (not_inSpan_of_le (by omega))
  · apply lookup_eq_none_of_not_hasTable
    rw [← hasTableEntry_some, ← hc]
    exact hno k

private theorem IdleEntry.noGap :
    NoGap l s' e c.next := by
  rcases h with heq | hno
  · exact noGap_of_le (by omega)
  · apply noGap_of_noTable
    intro k
    rw [← hasTableEntry_some, ← hc]
    exact hno k

end

private theorem Visited.idle {r : Option (TableEntry (PageTable l)) × UnmapCursor × Bool}
    (h : Visited freePhysical pages c cur r)
    (hidle : IdleEntry pages.start.number pages.stop.number table i)
    (hJ : UnmapInv freePhysical pages table fa cur)
    (hs : pages.start.number ≤ cur.pages.start.number) (hc : table i = some c) :
    SameEntry (some c) r.1 ∧ UnmapInv freePhysical pages table fa r.2.1 ∧
      r.2.1.pages.start.number = cur.pages.start.number := by
  obtain ⟨q, hres, hlook, hstop', hstart', htotal, hfrees, -⟩ := h
  refine ⟨?_, hJ.next hc ?_ hres hstop' hstart' htotal hfrees, ?_⟩
  · intro k
    rw [hlook k, hres.unmaps k, lookupEntry_some]
    split
    next hk => exact (hidle.lookup_none hc hs k hk).symm
    next => rfl
  · intro k entry hk hsome
    exact absurd (hidle.lookup_none hc hs k hk) (by simp [hsome])
  · have hzero : q.2.1 = 0 := by
      rcases hidle with heq | hno
      · have := hres.le
        omega
      · by_contra hne
        obtain ⟨k, hk⟩ := hres.found hne
        rw [← hasTableEntry_some, ← hc] at hk
        exact hno k hk
    omega

private theorem stuck_of_none (hgap : NoGap (l + 1) s e table) (hent : Enters 512 (l + 1) s e i)
    (hse : s ≤ e) (hc : table i = none) :
    Stuck (l + 1) s e table ∧ ∀ j, i < j → IdleEntry s e table j := by
  by_cases hlt : blockStart 512 (l + 1) s i < e
  · have hk := inSpan_self (b := 512) (h := l + 1) (by decide) hlt
    have hno : ¬ HasTableEntry (table i) (blockStart 512 (l + 1) s i) := by
      rw [hc]
      exact not_hasTableEntry_none _
    exact ⟨stuck_of_entry hent hk hno, fun j hij ↦ .inr (hgap.later hent hk hno hij)⟩
  · have heq : s = e := by
      rcases hent.2 with hlt' | hd
      · exact absurd hlt' hlt
      · rw [hd, blockStart_digit (by decide)] at hlt
        omega
    exact ⟨.inl heq, fun _ _ ↦ .inl heq⟩

private theorem unmapInTable_yields (freePhysical : Bool) (table : PageTable l) (pages : PageRange)
    (fa : FrameAllocator) (hse : pages.start.number ≤ pages.stop.number)
    (hhalf : pages.OneHalf) (hgap : NoGap l pages.start.number pages.stop.number table) :
    Yields (unmapInTable freePhysical l table pages fa)
      (UnmapResult freePhysical l pages.start.number pages.stop.number table fa)
      (fun _ ↦ False) := by
  induction l generalizing pages fa with
  | zero => exact unmapLevel1_yields hse
  | succ l ih =>
    have hvisit : ∀ (cur : UnmapCursor) (c : TableEntry (PageTable l)),
        UnmapInv freePhysical pages table fa cur →
        cur.pages.start.number ≤ pages.stop.number →
        NoGap l cur.pages.start.number pages.stop.number c.next →
        Yields (unmapEntry (fun next cur ↦ unmapInTable freePhysical l next cur.pages cur.alloc)
          (some c) cur) (Visited freePhysical pages c cur) (fun _ ↦ False) := by
      intro cur c hJ hle hchild
      have hs : pages.start.number ≤ cur.pages.start.number := hJ.total ▸ Nat.le_add_right _ _
      have hrec := ih c.next cur.pages cur.alloc (by rw [hJ.stop]; exact hle)
        (hhalf.rest hs hJ.stop) (by rw [hJ.stop]; exact hchild)
      rw [hJ.stop] at hrec
      exact unmapEntry_yields hhalf hs hJ.stop hrec
    simp only [unmapInTable, pageTableIndex_startAddress]
    apply (scanBlocks_yields (T := table) (l := l + 1) (e := pages.stop.number)
      (fun cur ↦ cur.pages.start.number) (UnmapInv freePhysical pages table fa)
      (UnmapsEntry pages.stop.number) (IdleEntry pages.start.number pages.stop.number table)
      SameEntry (Stuck (l + 1) pages.start.number pages.stop.number table) (by decide) hse
      (fun _ _ ↦ rfl) rfl ?_ ?_ ?_).bind
    · rintro ⟨t, cur⟩ ⟨hJ, hscan, hend⟩
      have htot : pages.start.number + cur.total = cur.pages.start.number := hJ.total
      have hspan : span 512 (l + 1 + 1) pages.start.number pages.stop.number ≤ _ :=
        min_le_left _ _
      dsimp only at hend
      refine ⟨unmaps_succ hscan, by dsimp only; omega, ?_, hJ.found, hJ.frees⟩
      rcases hend with hend | ⟨hstuck, -⟩
      · exact .inl (by dsimp only; omega)
      · exact .inr hstuck
    · exact ⟨rfl, rfl, fun h ↦ absurd rfl h, .refl _ _⟩
    · intro i cur hent hJ hstart hle
      cases hc : table i with
      | none =>
        have hs : pages.start.number ≤ cur.pages.start.number := hJ.total ▸ Nat.le_add_right _ _
        obtain ⟨hstuck, hidle⟩ := stuck_of_none hgap hent hse hc
        exact ⟨fun k ↦ by simp, hJ, .inr ⟨hstuck, hs, hle, hidle⟩⟩
      | some c =>
        have hchild := hgap.child hent hc
        rw [← hstart] at hchild
        exact (hvisit cur c hJ hle hchild).mono (fun r hr ↦ hr.live hgap hent hJ hstart hc)
          (fun _ h ↦ h)
    · intro i cur hidle hJ hs hle
      cases hc : table i with
      | none => exact ⟨fun _ ↦ rfl, hJ, rfl⟩
      | some c =>
        exact (hvisit cur c hJ hle (hidle.noGap hc hs)).mono (fun r hr ↦ hr.idle hidle hJ hs hc)
          (fun _ h ↦ h)

end

namespace Paging

/-- The frame that a page is mapped to. -/
def frameOf (paging : Paging) (p : Page) : Option PhysFrame :=
  (lookup 3 paging.rootTable p.number).map PageTableEntry.frame

/-- A page of the range has a level 1 table if any page at or behind it has one. -/
def GapFree (paging : Paging) (pages : PageRange) : Prop :=
  ∀ p q : Page, pages.Contains p → p.number ≤ q.number →
    HasTable 3 paging.rootTable q.number → HasTable 3 paging.rootTable p.number

/-- A frame that goes with the range: if frames are to be freed, the frame of one of its pages,
and the frame of a page table that maps no page outside of it. -/
def GoesWith (paging : Paging) (pages : PageRange) (freePhysical : Bool) (f : PhysFrame) : Prop :=
  (freePhysical = true ∧ ∃ p, pages.Contains p ∧ paging.frameOf p = some f) ∨
    TableWithin 3 paging.rootTable
      (fun k ↦ ∃ p : Page, pages.Contains p ∧ p.number % 512 ^ 4 = k % 512 ^ 4) f

/-- No page outside of the range is mapped to a frame that goes with the range. -/
def Unshared (paging : Paging) (pages : PageRange) (freePhysical : Bool) : Prop :=
  ∀ (q : Page) (f : PhysFrame), ¬ pages.Contains q → paging.frameOf q = some f →
    ¬ paging.GoesWith pages freePhysical f

end Paging

section

variable {paging : Paging} {pages : PageRange} {freePhysical : Bool}

private theorem exists_page_at (k : Nat) : ∃ p : Page, p.number % 512 ^ 4 = k % 512 ^ 4 := by
  have h4 : (512 : Nat) ^ 4 = 2 ^ 36 := by decide
  by_cases hlo : k % 2 ^ 36 < 2 ^ 35
  · exact ⟨⟨k % 2 ^ 36, .inl hlo⟩, Nat.mod_mod _ _⟩
  · refine ⟨⟨k % 2 ^ 36 + (2 ^ 52 - 2 ^ 36), .inr (by omega)⟩, ?_⟩
    dsimp only
    omega

private theorem Page.le_of_mod_le {p q : Page}
    (h : p.number % 512 ^ 4 ≤ q.number % 512 ^ 4) : p.number ≤ q.number := by
  have hp := p.canonical
  have hq := q.canonical
  have h4 : (512 : Nat) ^ 4 = 2 ^ 36 := by decide
  omega

private theorem noGap_of_gapFree (h : paging.GapFree pages) (hhalf : pages.OneHalf)
    (hse : pages.start.number ≤ pages.stop.number) :
    NoGap 3 pages.start.number pages.stop.number paging.rootTable := by
  intro k k' hk hno hle hk'
  obtain ⟨p, hp⟩ := exists_page_at k
  obtain ⟨q, hq⟩ := exists_page_at k'
  apply hno
  rw [HasTable, ← entryAt_congr hp]
  apply h p q
  · exact (inSpan_iff_contains hhalf hse p).mp ((inSpan_congr hp).mpr hk)
  · exact Page.le_of_mod_le (hp ▸ hq ▸ hle)
  · rw [HasTable, entryAt_congr hq]
    exact hk'

/-- What `unmap` does to the tree and the allocator. -/
theorem unmap_ok (freePhysical : Bool) (fa : FrameAllocator) (hhalf : pages.OneHalf)
    (hse : pages.start.number ≤ pages.stop.number) (hgap : paging.GapFree pages) :
    ∃ paging' fa', paging.unmap pages freePhysical fa = .ok (paging', fa') ∧
      Unmaps 3 pages.start.number pages.stop.number paging.rootTable paging'.rootTable ∧
      FreesOnly fa fa' (MayFree freePhysical 3 paging.rootTable pages.start.number
        pages.stop.number) := by
  obtain ⟨⟨root, n, fa'⟩, hr, hres⟩ := (unmapInTable_yields freePhysical
    paging.rootTable pages fa hse hhalf (noGap_of_gapFree hgap hhalf hse)).exists_ok
    (fun _ h ↦ h)
  exact ⟨⟨root⟩, fa', bind_eq_ok.mpr ⟨_, hr, rfl⟩, hres.unmaps, hres.frees⟩

/-- A range whose pages are all mapped has no gap. -/
theorem gapFree_of_mapped (h : ∀ a, pages.ContainsAddr a → (paging.translate a).isSome) :
    paging.GapFree pages := by
  intro p q hp _ _
  have hmapped := h p.startAddress
    (by rwa [PageRange.ContainsAddr, Page.containingAddress_startAddress])
  rw [Paging.translate, translateInTable_eq, Page.containingAddress_startAddress,
    Option.isSome_map] at hmapped
  by_contra hno
  rw [lookup_eq_none_of_not_hasTable hno] at hmapped
  cases hmapped

variable (hhalf : pages.OneHalf) (hse : pages.start.number ≤ pages.stop.number)
include hhalf hse

/-- The translation that results from the effect on the tables. -/
theorem translate_of_unmaps {paging' : Paging}
    (h : Unmaps 3 pages.start.number pages.stop.number paging.rootTable paging'.rootTable) :
    (∀ a, pages.ContainsAddr a → paging'.translate a = none) ∧
      ∀ a, ¬ pages.ContainsAddr a → paging'.translate a = paging.translate a := by
  constructor
  · intro a ha
    rw [Paging.translate, translateInTable_eq, h,
      if_pos ((inSpan_iff_contains hhalf hse _).mpr ha)]
    rfl
  · intro a ha
    rw [Paging.translate, Paging.translate, translateInTable_eq, translateInTable_eq, h,
      if_neg fun hin ↦ ha ((inSpan_iff_contains hhalf hse _).mp hin)]

/-- The frame of a page after unmapping. -/
theorem frameOf_of_unmaps {paging' : Paging}
    (h : Unmaps 3 pages.start.number pages.stop.number paging.rootTable paging'.rootTable)
    (p : Page) : paging'.frameOf p = if pages.Contains p then none else paging.frameOf p := by
  have hspan := inSpan_iff_contains hhalf hse p
  rw [Paging.frameOf, h]
  simp only [hspan]
  split
  next => rfl
  next => rfl

/-- A frame that unmapping the range may free goes with the range. -/
theorem MayFree.goesWith
    (h : MayFree freePhysical 3 paging.rootTable pages.start.number pages.stop.number f) :
    paging.GoesWith pages freePhysical f := by
  have hpage : ∀ k, InSpan 512 4 pages.start.number pages.stop.number k →
      ∃ p : Page, pages.Contains p ∧ p.number % 512 ^ 4 = k % 512 ^ 4 := by
    intro k hk
    obtain ⟨p, hp⟩ := exists_page_at k
    exact ⟨p, (inSpan_iff_contains hhalf hse p).mp ((inSpan_congr hp).mpr hk), hp⟩
  rcases h with ⟨hfree, k, entry, hk, hlook, rfl⟩ | htable
  · obtain ⟨p, hcontains, hp⟩ := hpage k hk
    refine .inl ⟨hfree, p, hcontains, ?_⟩
    rw [Paging.frameOf, lookup, entryAt_congr hp, ← lookup, hlook]
    rfl
  · exact .inr (htable.mono fun k _ ↦ hpage k)

end

/-- On every tree, `unmap` of a range without gaps returns, unmaps exactly the pages of
the range and frees only frames that go with it; so it frees no frame that a page outside of the
range is mapped to, unless such a page shares its frame. -/
theorem unmap_exact (paging : Paging) (pages : PageRange) (freePhysical : Bool)
    (fa : FrameAllocator) (hhalf : pages.OneHalf)
    (hse : pages.start.number ≤ pages.stop.number) (hgap : paging.GapFree pages) :
    ∃ paging' fa' freed, paging.unmap pages freePhysical fa = .ok (paging', fa') ∧
      fa'.freed = fa.freed ++ freed ∧
      (∀ a, pages.ContainsAddr a → paging'.translate a = none) ∧
      (∀ a, ¬ pages.ContainsAddr a → paging'.translate a = paging.translate a) ∧
      (∀ f ∈ freed, paging.GoesWith pages freePhysical f) ∧
      (paging.Unshared pages freePhysical →
        ∀ q f, ¬ pages.Contains q → paging.frameOf q = some f → f ∉ freed) := by
  obtain ⟨paging', fa', hr, hun, freed, heq, hfree⟩ :=
    unmap_ok freePhysical fa hhalf hse hgap
  obtain ⟨hin, hout⟩ := translate_of_unmaps hhalf hse hun
  have hgoes : ∀ f ∈ freed, paging.GoesWith pages freePhysical f :=
    fun f hf ↦ (hfree f hf).goesWith hhalf hse
  refine ⟨paging', fa', freed, hr, heq, hin, hout, hgoes, ?_⟩
  intro hshare q f hq hf hmem
  exact hshare q f hq hf (hgoes f hmem)

/-- The pages of a mapping of an empty tree, which reach over two level 1 tables, are
unmapped again, and no frame of another page is freed. -/
theorem unmap_exact_after_map :
    let pages : PageRange := ⟨⟨511, by decide⟩, ⟨1025, by decide⟩⟩
    ∃ r, Paging.new.map pages .user PageTableFlags.present ascendingFrames = .ok r ∧
      ∃ paging' fa' freed, r.1.unmap pages true r.2 = .ok (paging', fa') ∧
        fa'.freed = r.2.freed ++ freed ∧ (∀ a, pages.ContainsAddr a → paging'.translate a = none) ∧
        ∀ q f, ¬ pages.Contains q → r.1.frameOf q = some f → f ∉ freed := by
  intro pages
  have hse : pages.start.number ≤ pages.stop.number := by decide
  have hmap : Mappable ascendingFrames.supply pages .user PageTableFlags.present :=
    ⟨by decide, fun n ↦ ⟨_, rfl, Nat.succ_ne_zero _⟩, .inl (by decide), nofun⟩
  obtain ⟨⟨paging, fa⟩, hr⟩ := map_returns Paging.new hse hmap
  obtain ⟨hhalf, hm⟩ := map_ok hse hr
  have hgap : paging.GapFree pages := by
    intro p q hp _ _
    obtain ⟨f, -, he⟩ := hm.inside _ ((inSpan_iff_contains hhalf hse p).mpr hp)
    rw [HasTable, he]
    rfl
  have hshare : paging.Unshared pages true := by
    intro q f hq hf
    have hout := hm.outside _ fun hin ↦ hq ((inSpan_iff_contains hhalf hse q).mp hin)
    rw [Paging.frameOf, hout, show lookup 3 Paging.new.rootTable q.number = none from
      lookup_zeroTable _] at hf
    cases hf
  obtain ⟨paging', fa', freed, hun, heq, hin, -, -, hkeep⟩ :=
    unmap_exact paging pages true fa hhalf hse hgap
  exact ⟨_, hr, paging', fa', freed, hun, heq, hin, hkeep hshare⟩

/-- Unmapping the first page of the user address space, which has no level 1 table, unmaps
the page 512 pages behind it and frees its frame. -/
theorem unmap_behind_gap :
    (do
      let (paging, fa) ← Paging.new.map ⟨⟨2 ^ 28 + 512, by decide⟩, ⟨2 ^ 28 + 513, by decide⟩⟩
        .user PageTableFlags.present ascendingFrames
      let (paging', fa') ← paging.unmap ⟨⟨2 ^ 28, by decide⟩, ⟨2 ^ 28 + 1, by decide⟩⟩ true fa
      let p : Page := ⟨2 ^ 28 + 512, by decide⟩
      .ok (paging.frameOf p, paging'.translate p.startAddress,
        fa'.freed.head?) : Except Panic _) =
      .ok (some ⟨4, by decide⟩, none, some ⟨4, by decide⟩) := by
  decide +kernel

end D3OS.Memory
