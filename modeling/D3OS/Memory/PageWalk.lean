import D3OS.Lib.BlockScan
import D3OS.Memory.Pages

/-!
# The page walk

What a tree of page tables means: `lookup` is the partial map from page numbers to
frames and flags that a walk through the tables finds, and `translate` reads nothing
else. The index of each level is a digit of the page number in base 512, so a
table of level `l + 1` is a radix tree over the pages modulo `512 ^ (l + 1)`.
-/

namespace D3OS.Memory

open Lib

/-- The index that page `k` has in a table of level `l + 1`. -/
def index (l k : Nat) : Fin 512 := ⟨digit 512 l k, digit_lt (by decide) l k⟩

private theorem index_congr {l k k' : Nat} (h : k % 512 ^ (l + 1) = k' % 512 ^ (l + 1)) :
    index l k = index l k' := by
  have hd : ∀ n, digit 512 l n = n % 512 ^ (l + 1) / 512 ^ l := by
    intro n
    rw [digit, Nat.pow_succ, Nat.mod_mul_right_div_self]
  apply Fin.ext
  show digit 512 l k = digit 512 l k'
  rw [hd, hd, h]

private theorem pageTableIndex_eq (a : VirtAddr) (k l : Nat) (h : a.asU64 = k * pageSize) :
    pageTableIndex a (l + 1) = index l k := by
  apply Fin.ext
  have h12 : k * pageSize / 2 ^ 12 = k := Nat.mul_div_cancel k (by decide)
  have hpow : 2 ^ (l * 9) = 512 ^ l := by rw [Nat.mul_comm, Nat.pow_mul]
  show a.asU64 >>> 12 >>> (l * 9) % 2 ^ 16 % 512 = k / 512 ^ l % 512
  rw [Nat.shiftRight_eq_div_pow, Nat.shiftRight_eq_div_pow, h, h12, hpow]
  exact Nat.mod_mod_of_dvd _ (by decide)

/-- The index of the first address of a page. -/
@[simp] theorem pageTableIndex_startAddress (p : Page) (l : Nat) :
    pageTableIndex p.startAddress (l + 1) = index l p.number :=
  pageTableIndex_eq _ _ _ rfl

@[simp] private theorem pageTableIndex_alignDown (a : VirtAddr) (l : Nat) :
    pageTableIndex a.alignDown (l + 1) = index l (Page.containingAddress a).number :=
  pageTableIndex_eq _ _ _ rfl

/-- The level 1 entry of page `k`, none if a table on the way to it is missing. -/
def entryAt : (l : Nat) → PageTable l → Nat → Option PageTableEntry
  | 0, table, k => some (table (index 0 k))
  | l + 1, table, k =>
    match table (index (l + 1) k) with
    | none => none
    | some e => entryAt l e.next k

/-- The entry that maps page `k`. -/
def lookup (l : Nat) (table : PageTable l) (k : Nat) : Option PageTableEntry :=
  (entryAt l table k).filter fun e ↦ !e.isUnused

/-- The flags in the entries above level 1 on the walk to page `k`, as far as it goes. -/
def upperFlags : (l : Nat) → PageTable l → Nat → List PageTableFlags
  | 0, _, _ => []
  | l + 1, table, k =>
    match table (index (l + 1) k) with
    | none => []
    | some e => e.flags :: upperFlags l e.next k

/-- The page `k` has a level 1 table. -/
def HasTable (l : Nat) (table : PageTable l) (k : Nat) : Prop := (entryAt l table k).isSome

/-- The walk continues in the table behind an entry. -/
def lookupEntry {l : Nat} (entry : Option (TableEntry (PageTable l))) (k : Nat) :
    Option PageTableEntry :=
  entry.bind fun e ↦ lookup l e.next k

/-- The flags of an entry and of the walk behind it. -/
def upperFlagsEntry {l : Nat} (entry : Option (TableEntry (PageTable l))) (k : Nat) :
    List PageTableFlags :=
  match entry with
  | none => []
  | some e => e.flags :: upperFlags l e.next k

/-- The page `k` has a level 1 table behind an entry. -/
def HasTableEntry {l : Nat} (entry : Option (TableEntry (PageTable l))) (k : Nat) : Prop :=
  ∃ e, entry = some e ∧ HasTable l e.next k

/-- A frame that holds one of the tables below this one. -/
def IsTableFrame : (l : Nat) → PageTable l → PhysFrame → Prop
  | 0, _, _ => False
  | l + 1, table, f => ∃ i e, table i = some e ∧ (e.frame = f ∨ IsTableFrame l e.next f)

section

variable {l : Nat}

/-- The entry of a level 1 table. -/
theorem lookup_zero (table : PageTable 0) (k : Nat) :
    lookup 0 table k = if (table (index 0 k)).isUnused then none else some (table (index 0 k)) := by
  rw [lookup, entryAt, Option.filter_some]
  cases (table (index 0 k)).isUnused <;> rfl

/-- Only the entry of the page counts. -/
theorem lookup_zero_congr {table table' : PageTable 0} {k : Nat}
    (h : table' (index 0 k) = table (index 0 k)) : lookup 0 table' k = lookup 0 table k := by
  rw [lookup_zero, lookup_zero, h]

/-- The entry behind that of a higher table. -/
theorem lookup_succ (table : PageTable (l + 1)) (k : Nat) :
    lookup (l + 1) table k = lookupEntry (table (index (l + 1) k)) k := by
  simp only [lookup, entryAt, lookupEntry]
  cases table (index (l + 1) k) <;> rfl

/-- The flags on the way through a higher table. -/
theorem upperFlags_succ (table : PageTable (l + 1)) (k : Nat) :
    upperFlags (l + 1) table k = upperFlagsEntry (table (index (l + 1) k)) k := rfl

/-- A level 1 table is there. -/
theorem hasTable_zero (table : PageTable 0) (k : Nat) : HasTable 0 table k := rfl

/-- The table behind an entry. -/
theorem hasTable_succ (table : PageTable (l + 1)) (k : Nat) :
    HasTable (l + 1) table k ↔ HasTableEntry (table (index (l + 1) k)) k := by
  simp only [HasTable, entryAt, HasTableEntry]
  cases table (index (l + 1) k) <;> simp

/-- Nothing is behind a missing entry. -/
@[simp] theorem lookupEntry_none (k : Nat) :
    lookupEntry (none : Option (TableEntry (PageTable l))) k = none := rfl

/-- The walk goes on behind an entry. -/
@[simp] theorem lookupEntry_some (e : TableEntry (PageTable l)) (k : Nat) :
    lookupEntry (some e) k = lookup l e.next k := rfl

/-- No table is behind a missing entry. -/
@[simp] theorem not_hasTableEntry_none (k : Nat) :
    ¬ HasTableEntry (none : Option (TableEntry (PageTable l))) k := by
  simp [HasTableEntry]

/-- The tables behind an entry. -/
@[simp] theorem hasTableEntry_some (e : TableEntry (PageTable l)) (k : Nat) :
    HasTableEntry (some e) k ↔ HasTable l e.next k := by
  simp [HasTableEntry]

/-- A page without a level 1 table is not mapped. -/
theorem lookup_eq_none_of_not_hasTable {table : PageTable l} {k : Nat}
    (h : ¬ HasTable l table k) : lookup l table k = none := by
  rw [HasTable, Option.not_isSome_iff_eq_none] at h
  rw [lookup, h]
  rfl

/-- Nothing is mapped by an empty table. -/
theorem lookup_zeroTable (k : Nat) : lookup l (PageTable.zero l) k = none := by
  cases l with
  | zero => rfl
  | succ l => rfl

/-- An empty table maps nothing. -/
theorem lookup_of_isTableEmpty {table : PageTable l} (h : table.isTableEmpty) (k : Nat) :
    lookup l table k = none := by
  cases l with
  | zero =>
    simp only [PageTable.isTableEmpty, List.all_eq_true] at h
    rw [lookup_zero, if_pos (h _ (List.mem_finRange _))]
  | succ l =>
    simp only [PageTable.isTableEmpty, List.all_eq_true, Option.isNone_iff_eq_none] at h
    rw [lookup_succ, h _ (List.mem_finRange _)]
    rfl

/-- The walk in a table of level `l + 1` reads the page modulo `512 ^ (l + 1)`. -/
theorem entryAt_congr {table : PageTable l} {k k' : Nat}
    (h : k % 512 ^ (l + 1) = k' % 512 ^ (l + 1)) : entryAt l table k = entryAt l table k' := by
  induction l generalizing k k' with
  | zero => simp only [entryAt, index_congr h]
  | succ l ih =>
    have hm : k % 512 ^ (l + 1) = k' % 512 ^ (l + 1) := by
      rw [← Nat.mod_mod_of_dvd k (Nat.pow_dvd_pow 512 (Nat.le_succ (l + 1))), h,
        Nat.mod_mod_of_dvd k' (Nat.pow_dvd_pow 512 (Nat.le_succ (l + 1)))]
    simp only [entryAt, index_congr h]
    cases table (index (l + 1) k') with
    | none => rfl
    | some e => exact ih hm

/-- The entry of a page that the entry at index `i` leads to. -/
theorem lookup_blockKey (table : PageTable (l + 1)) (i : Fin 512) (k : Nat) :
    lookup (l + 1) table (blockKey 512 (l + 1) i k) = lookupEntry (table i) k := by
  have hi : index (l + 1) (blockKey 512 (l + 1) i k) = i := Fin.ext (digit_blockKey i.isLt k)
  rw [lookup_succ, hi]
  cases table i with
  | none => rfl
  | some e =>
    simp only [lookupEntry_some, lookup]
    rw [entryAt_congr (blockKey_mod 512 (l + 1) i k)]

/-- The level 1 tables that the entry at index `i` leads to. -/
theorem hasTable_blockKey (table : PageTable (l + 1)) (i : Fin 512) (k : Nat) :
    HasTable (l + 1) table (blockKey 512 (l + 1) i k) ↔ HasTableEntry (table i) k := by
  have hi : index (l + 1) (blockKey 512 (l + 1) i k) = i := Fin.ext (digit_blockKey i.isLt k)
  rw [hasTable_succ, hi]
  cases table i with
  | none => simp
  | some e =>
    simp only [hasTableEntry_some, HasTable]
    rw [entryAt_congr (blockKey_mod 512 (l + 1) i k)]

end

/-- The physical address at offset `a mod 4096` of the frame of an entry. -/
def PageTableEntry.address (entry : PageTableEntry) (a : VirtAddr) : PhysAddr :=
  ⟨entry.frame.number * pageSize + a.asU64 % pageSize, by
    have h := entry.frame.lt
    simp only [pageSize]
    omega⟩

/-- The frame of a translated address. -/
theorem PageTableEntry.address_div (entry : PageTableEntry) (a : VirtAddr) :
    (entry.address a).asU64 / pageSize = entry.frame.number := by
  simp only [address, pageSize]
  omega

/-- `translate_in_table` reads the entry that maps the page of the address. -/
theorem translateInTable_eq (l : Nat) (table : PageTable l) (a : VirtAddr) :
    translateInTable l table a =
      (lookup l table (Page.containingAddress a).number).map (·.address a) := by
  induction l with
  | zero =>
    rw [lookup_zero]
    simp only [translateInTable, pageTableIndex_alignDown]
    split
    · rfl
    · have h : a.asU64 - a.alignDown.asU64 = a.asU64 % pageSize := by
        simp only [VirtAddr.alignDown, pageSize]
        omega
      simp only [Option.map_some, PageTableEntry.address, h]
  | succ l ih =>
    rw [lookup_succ]
    simp only [translateInTable, pageTableIndex_alignDown]
    cases table (index (l + 1) (Page.containingAddress a).number) with
    | none => rfl
    | some e => exact ih e.next

/-- `t` is `table` with `n` entries from `start` on replaced by entries satisfying `P`. -/
def Filled (table : Level1Table) (start n : Nat) (P : Nat → PageTableEntry → Prop)
    (t : Level1Table) : Prop :=
  ∀ i : Fin 512, if start ≤ i.val ∧ i.val < start + n then P (i.val - start) (t i)
    else t i = table i

section

variable {σ : Type} {body : PageTableEntry → σ → Except Panic (PageTableEntry × σ)}
  {E : Panic → Prop} {I : Nat → σ → Prop} {P : Nat → PageTableEntry → Prop}
  {table t : Level1Table} {start n : Nat}

private theorem Filled.next (h : Filled table start n P t) {i : Fin 512} (hi : i.val = start + n)
    {entry : PageTableEntry} (hP : P n entry) :
    Filled table start (n + 1) P (Function.update t i entry) := by
  intro j
  by_cases hj : j = i
  · rw [hj, Function.update_self, if_pos (by omega), hi, Nat.add_sub_cancel_left]
    exact hP
  · have hold := h j
    rw [Function.update_of_ne hj]
    by_cases hin : start ≤ j.val ∧ j.val < start + n
    · rw [if_pos hin] at hold
      rw [if_pos (by omega)]
      exact hold
    · rw [if_neg hin] at hold
      rw [if_neg (by omega)]
      exact hold

/-- Loop rule for the loops over a level 1 table: `P` is what a turn writes, `I` the
invariant of the loop state. -/
theorem forCount_yields {s : σ} (hn : start + n ≤ 512) (h0 : I 0 s)
    (hbody : ∀ (c : Nat) (i : Fin 512) (s : σ), c < n → i.val = start + c → I c s →
      Yields (body (table i) s) (fun r ↦ P c r.1 ∧ I (c + 1) r.2) E) :
    Yields (forCount n body start table s)
      (fun r ↦ I n r.2 ∧ Filled table start n P r.1) E := by
  apply Yields.bind (Q := fun r ↦ I n r.2.2 ∧ Filled table start n P r.1)
  · apply scanFrom_yields
      (I := fun i t (st : Nat × σ) ↦ i = start + st.1 ∧ st.1 ≤ n ∧ I st.1 st.2 ∧
        Filled table start st.1 P t)
      (Q := fun t (st : Nat × σ) ↦ I n st.2 ∧ Filled table start n P t)
    · omega
    · refine ⟨rfl, Nat.zero_le _, h0, ?_⟩
      intro j
      rw [if_neg (by simp)]
    · rintro i hi t ⟨c, s⟩ ⟨rfl, hcn, hI, ht⟩
      have htj := ht ⟨start + c, hi⟩
      rw [if_neg (by simp)] at htj
      simp only at hcn hI ⊢
      split
      next hnc =>
        have hc : c = n := le_antisymm hcn hnc
        subst hc
        refine ⟨hI, ?_⟩
        rw [Function.update_eq_self]
        exact ht
      next hnc =>
        rw [htj]
        apply (hbody c ⟨start + c, hi⟩ s (by omega) rfl hI).bind
        rintro ⟨a, s'⟩ ⟨hP, hI'⟩
        exact ⟨rfl, Nat.lt_of_not_le hnc, hI', ht.next rfl hP⟩
    · rintro t ⟨c, s⟩ ⟨hc, hcn, hI, ht⟩
      have he : c = n := by omega
      subst he
      exact ⟨hI, ht⟩
  · rintro ⟨t, c, s⟩ h
    exact h

/-- The index at level 1 is the position of the page in its table. -/
theorem index_zero (k : Nat) : (index 0 k).val = k % 512 ^ 1 := by
  simp only [index, digit, Nat.pow_zero, Nat.div_one, Nat.pow_one]

/-- The part of a range in a level 1 table fits into it. -/
theorem index_add_span_le (s e : Nat) : (index 0 s).val + span 512 1 s e ≤ 512 := by
  have h : span 512 1 s e ≤ 512 ^ 1 - s % 512 ^ 1 := min_le_right _ _
  rw [index_zero]
  omega

/-- The entries of a range in a level 1 table have been written. -/
theorem Filled.inside {s e k : Nat} (h : Filled table (index 0 s).val (span 512 1 s e) P t)
    (hk : InSpan 512 1 s e k) : P (k % 512 ^ 1 - s % 512 ^ 1) (t (index 0 k)) := by
  have hfill := h (index 0 k)
  rw [index_zero, index_zero] at hfill
  exact (if_pos hk).mp hfill

/-- The entries of a level 1 table outside of a range are untouched. -/
theorem Filled.outside {s e k : Nat} (h : Filled table (index 0 s).val (span 512 1 s e) P t)
    (hk : ¬ InSpan 512 1 s e k) : t (index 0 k) = table (index 0 k) := by
  have hfill := h (index 0 k)
  rw [index_zero, index_zero] at hfill
  exact (if_neg hk).mp hfill

end

/-- The pages of a range that a level 1 table takes. -/
theorem pagesInTable_eq {pages : PageRange} (h : pages.start.number ≤ pages.stop.number) :
    pagesInTable pages (index 0 pages.start.number).val =
      .ok (span 512 1 pages.start.number pages.stop.number) := by
  simp only [pagesInTable, Page.sub, subOrPanic_of_le h, span, index, digit, Nat.pow_zero,
    Nat.div_one, Nat.pow_one]
  rfl

end D3OS.Memory
