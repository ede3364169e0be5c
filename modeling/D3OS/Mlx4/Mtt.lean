import D3OS.Lib.Bytes
import D3OS.Mlx4.Icm

/-!
# Entries of the memory translation table

`map_icm_tables` maps the chunks of the table that hold reserved entries, and
`alloc_mtt_for_pages` hands out the entries behind those. In every run the ranges it returns
are apart and keep what was written into them. A call that fails after the first checks has
already advanced the offset.
-/

namespace D3OS.Mlx4

open Lib Memory

namespace IcmTable

/-- The pages of a chunk, `icm.rs:248`. -/
def chunkPages : Nat := tableChunkSize / pageSize

/-- A chunk of the table with new memory. -/
def newChunk (cardVirtual : Nat) (bytes : Nat → UInt8) : MappedIcm :=
  ⟨some ⟨chunkPages, bytes⟩, cardVirtual, chunkPages, by decide⟩

/-- `map_chunk`, `icm.rs:258`; the answer is what the allocation of the memory and the command
`MAP_ICM` return, the bytes of the new memory or an error. -/
def mapChunk (table : IcmTable) (byteOffset : Nat) (answer : Except String (Nat → UInt8)) :
    Except Fault IcmTable := do
  let cardVirtual ← orPanic (addOrPanic table.virt byteOffset)
  match answer with
  | .error message => .error (.err message)
  | .ok bytes => .ok { table with icm := table.icm ++ [newChunk cardVirtual bytes] }

/-- The loop of `map_entries` over the chunks from an offset on. -/
def mapChunks (answers : Nat → Except String (Nat → UInt8)) :
    Nat → Nat → IcmTable → Except Fault IcmTable
  | 0, _, table => .ok table
  | count + 1, byteOffset, table => do
    let table ← table.mapChunk byteOffset (answers byteOffset)
    mapChunks answers count (byteOffset + tableChunkSize) table

/-- `map_entries`, `icm.rs:244`, from the first entry on. -/
def mapEntries (table : IcmTable) (entrySize count : Nat)
    (answers : Nat → Except String (Nat → UInt8)) : Except Fault IcmTable := do
  let byteEnd ← orPanic (mulOrPanic count entrySize)
  mapChunks answers ((byteEnd + tableChunkSize - 1) / tableChunkSize) 0 table

/-- `IcmTable::init`, `icm.rs:226`. -/
def init (entrySize entryCapacity reserved virt : Nat)
    (answers : Nat → Except String (Nat → UInt8)) : Except Fault IcmTable :=
  if entryCapacity < reserved then .error (.panic .assertion)
  else mapEntries ⟨virt, []⟩ entrySize reserved answers

/-- The byte that the card finds at an offset of the table. -/
def cardByte (table : IcmTable) (byteOffset : Nat) : Option UInt8 := do
  let chunk ← table.icm.find? fun chunk ↦
    chunk.cardVirtual ≤ table.virt + byteOffset &&
      table.virt + byteOffset < chunk.cardVirtual + chunk.numPages * pageSize
  let memory ← chunk.memory
  return memory.bytes (table.virt + byteOffset - chunk.cardVirtual)

/-- The entry of eight bytes that the card finds at an offset of the table. -/
def cardEntry (table : IcmTable) (byteOffset : Nat) : Option Nat := do
  let data ← (List.range 8).mapM fun i ↦ table.cardByte (byteOffset + i)
  return ofBe data

/-- The table has a first chunk with these bytes, and further chunks only behind it. -/
structure Mapped (table : IcmTable) (bytes : Nat → UInt8) : Prop where
  icm_eq : ∃ rest, table.icm = newChunk table.virt bytes :: rest ∧
    ∀ chunk ∈ rest, table.virt + tableChunkSize ≤ chunk.cardVirtual ∧
      chunk.numPages = chunkPages

/-- The size of a chunk. -/
theorem chunkPages_mul : chunkPages * pageSize = tableChunkSize := rfl

/-- The number of chunks that hold the reserved entries. -/
def chunkCount (entrySize reserved : Nat) : Nat :=
  (reserved * entrySize + tableChunkSize - 1) / tableChunkSize

private theorem chunkCount_pos {entrySize reserved : Nat} (h : 0 < reserved * entrySize) :
    0 < chunkCount entrySize reserved := by
  simp only [chunkCount, tableChunkSize]
  omega

/-- The table consists of this many chunks, one behind the other. -/
structure Chunked (table : IcmTable) (count : Nat) : Prop where
  length_eq : table.icm.length = count
  chunk_eq : ∀ (i : Nat) chunk, table.icm[i]? = some chunk →
    ∃ bytes, chunk = newChunk (table.virt + i * tableChunkSize) bytes

section

variable {table table' : IcmTable} {bytes : Nat → UInt8} {byteOffset count n : Nat}
  {answers : Nat → Except String (Nat → UInt8)}

private theorem Chunked.mapChunk (h : table.Chunked n)
    {answer : Except String (Nat → UInt8)}
    (hmap : table.mapChunk (n * tableChunkSize) answer = .ok table') :
    table'.Chunked (n + 1) ∧ table'.virt = table.virt := by
  obtain ⟨cardVirtual, hvirtual, hmap⟩ := of_bind hmap
  rw [orPanic_eq_ok, addOrPanic_eq_ok] at hvirtual
  cases answer with
  | error message => cases hmap
  | ok bytes =>
    cases hmap
    refine ⟨⟨?_, fun i chunk hchunk ↦ ?_⟩, rfl⟩
    · rw [List.length_append, h.length_eq]
      rfl
    · rw [List.getElem?_append, h.length_eq] at hchunk
      split at hchunk
      next => exact h.chunk_eq i chunk hchunk
      next hi =>
        obtain ⟨hlt, hchunk⟩ := List.getElem?_eq_some_iff.mp hchunk
        simp only [List.length_singleton] at hlt
        obtain rfl : i = n := by omega
        simp only [Nat.sub_self, List.getElem_cons_zero] at hchunk
        exact ⟨bytes, by rw [← hchunk, hvirtual.2]⟩

private theorem Chunked.mapChunks (h : table.Chunked n)
    (hmap : mapChunks answers count (n * tableChunkSize) table = .ok table') :
    table'.Chunked (n + count) ∧ table'.virt = table.virt := by
  induction count generalizing table n with
  | zero =>
    cases hmap
    exact ⟨h, rfl⟩
  | succ count ih =>
    obtain ⟨table₁, hchunk, hmap⟩ := of_bind hmap
    obtain ⟨hchunked, hvirt⟩ := h.mapChunk hchunk
    rw [← Nat.succ_mul] at hmap
    have hrest := ih hchunked hmap
    rw [hvirt, Nat.succ_add_eq_add_succ] at hrest
    exact hrest

/-- `init` maps the chunks of the reserved entries and no others. -/
theorem chunked_of_init {entrySize entryCapacity reserved virt : Nat}
    (h : init entrySize entryCapacity reserved virt answers = .ok table) :
    table.Chunked (chunkCount entrySize reserved) := by
  unfold init at h
  split at h
  next => cases h
  next =>
    obtain ⟨byteEnd, hend, h⟩ := of_bind h
    rw [orPanic_eq_ok, mulOrPanic_eq_ok] at hend
    rw [← hend.2, ← Nat.zero_mul tableChunkSize] at h
    have hempty : (IcmTable.mk virt []).Chunked 0 := ⟨rfl, fun i chunk hchunk ↦ by cases hchunk⟩
    have hchunked := (hempty.mapChunks h).1
    rw [Nat.zero_add] at hchunked
    exact hchunked

/-- The first chunk holds the start of the table. -/
theorem Chunked.exists_mapped (h : table.Chunked n) (hpos : 0 < n) :
    ∃ bytes, table.Mapped bytes := by
  cases hicm : table.icm with
  | nil =>
    rw [← h.length_eq, hicm] at hpos
    cases hpos
  | cons first rest =>
    obtain ⟨bytes, rfl⟩ := h.chunk_eq 0 first (by rw [hicm]; rfl)
    refine ⟨bytes, rest, hicm, fun chunk hmem ↦ ?_⟩
    obtain ⟨i, hget⟩ := List.mem_iff_getElem?.mp hmem
    obtain ⟨bytes', rfl⟩ := h.chunk_eq (i + 1) chunk (by rw [hicm]; exact hget)
    refine ⟨Nat.add_le_add_left ?_ _, rfl⟩
    exact Nat.le_mul_of_pos_left _ (Nat.succ_pos i)

/-- Nothing is found behind the first chunk. -/
theorem findChunk_of_le {virt index : Nat} {icm : List MappedIcm}
    (hicm : ∀ chunk ∈ icm, virt ≤ chunk.cardVirtual ∧ chunk.numPages = chunkPages)
    (hle : tableChunkSize ≤ byteOffset) : findChunk virt byteOffset icm index = .ok none := by
  induction icm generalizing index with
  | nil => rfl
  | cons chunk rest ih =>
    obtain ⟨hvirt, hpages⟩ := hicm chunk List.mem_cons_self
    rw [findChunk, subOrPanic_of_le hvirt, hpages, chunkPages_mul]
    show (if _ then _ else _) = _
    rw [if_neg (by omega)]
    exact ih fun c hmem ↦ hicm c (List.mem_cons_of_mem _ hmem)

variable (h : table.Mapped bytes)
include h

/-- The first chunk is found. -/
theorem findChunk_of_lt (hlt : byteOffset < tableChunkSize) :
    findChunk table.virt byteOffset table.icm 0 = .ok (some 0) := by
  obtain ⟨rest, hicm, -⟩ := h.icm_eq
  rw [hicm, findChunk, newChunk, subOrPanic_of_le (Nat.le_refl _), chunkPages_mul]
  show (if _ then _ else _) = _
  rw [if_pos (by omega)]

private theorem Mapped.writeHostBytes (byteOffset : Nat) {data : List UInt8}
    (hdata : 0 < data.length) :
    Yields (table.writeHostBytes byteOffset data)
      (fun table' ↦ byteOffset + data.length ≤ tableChunkSize ∧
        table'.Mapped (patch bytes byteOffset data))
      fun e ↦ e.IsErr ∧ tableChunkSize < byteOffset + data.length := by
  obtain ⟨rest, hicm, hrest⟩ := h.icm_eq
  unfold IcmTable.writeHostBytes
  by_cases hlt : byteOffset < tableChunkSize
  · rw [findChunk_of_lt h hlt, Nat.mod_eq_of_lt hlt, hicm]
    show Yields (MappedPages.write ⟨chunkPages, bytes⟩ byteOffset data >>= _) _ _
    rw [MappedPages.write, chunkPages_mul]
    split
    next hsize => exact ⟨trivial, hsize⟩
    next hsize =>
      refine ⟨Nat.not_lt.mp hsize, rest, ?_, hrest⟩
      rfl
  · have hnone : findChunk table.virt byteOffset table.icm 0 = .ok none := by
      apply findChunk_of_le _ (Nat.not_lt.mp hlt)
      rw [hicm]
      intro chunk hmem
      rcases List.mem_cons.mp hmem with rfl | hmem
      · exact ⟨Nat.le_refl _, rfl⟩
      · exact ⟨Nat.le_trans (Nat.le_add_right _ _) (hrest chunk hmem).1, (hrest chunk hmem).2⟩
    rw [hnone]
    exact ⟨trivial, by omega⟩

private theorem Mapped.cardByte (hlt : byteOffset < tableChunkSize) :
    table.cardByte byteOffset = some (bytes byteOffset) := by
  obtain ⟨rest, hicm, -⟩ := h.icm_eq
  rw [IcmTable.cardByte, hicm, List.find?_cons_of_pos]
  · show some (bytes (table.virt + byteOffset - table.virt)) = _
    rw [Nat.add_sub_cancel_left]
  · rw [newChunk, chunkPages_mul, Bool.and_eq_true, decide_eq_true_eq, decide_eq_true_eq]
    exact ⟨Nat.le_add_right _ _, Nat.add_lt_add_left hlt _⟩

private theorem Mapped.cardEntry (hle : byteOffset + 8 ≤ tableChunkSize) :
    table.cardEntry byteOffset = some (ofBe (slice bytes byteOffset 8)) := by
  have hbytes : (List.range 8).mapM (fun i ↦ table.cardByte (byteOffset + i)) =
      some (slice bytes byteOffset 8) := by
    have hbyte : ∀ i < 8, table.cardByte (byteOffset + i) = some (bytes (byteOffset + i)) :=
      fun i hi ↦ h.cardByte (by omega)
    have hrange : List.range 8 = [0, 1, 2, 3, 4, 5, 6, 7] := rfl
    rw [slice, hrange]
    simp only [List.mapM_cons, List.mapM_nil, hbyte 0 (by decide), hbyte 1 (by decide),
      hbyte 2 (by decide), hbyte 3 (by decide), hbyte 4 (by decide), hbyte 5 (by decide),
      hbyte 6 (by decide), hbyte 7 (by decide)]
    rfl
  rw [IcmTable.cardEntry, hbytes]
  rfl

end

end IcmTable

namespace MrTable

/-- The table of memory regions that `map_icm_tables` sets up, `icm.rs:85-103`; a size of zero
divides by zero. -/
def init (caps : Capabilities) (numMtts virt : Nat)
    (answers : Nat → Except String (Nat → UInt8)) : Except Fault MrTable := do
  let entrySz := caps.mttEntrySz.toNat
  if entrySz = 0 then .error (.panic .overflow)
  else
    let reservedMtts := (2 ^ caps.log2RsvdMtts.toNat * entrySz + 63) / 64 * 64 / entrySz
    let mttTable ← IcmTable.init entrySz numMtts reservedMtts virt answers
    .ok ⟨mttTable, reservedMtts, 0⟩

/-- A table that nothing has been allocated from. -/
def Initial (caps : Capabilities) (table : MrTable) : Prop :=
  ∃ numMtts virt answers, init caps numMtts virt answers = .ok table

/-- A call of `alloc_mtt_for_pages` that returned. -/
structure Grant where
  process : Process
  pages : PageRange
  addr : Nat

/-- The table and what it has handed out, after a call. -/
def step (caps : Capabilities) (s : MrTable × List Grant) (call : Process × PageRange) :
    Except Panic (MrTable × List Grant) :=
  match allocMttForPages caps call.1 call.2 s.1 with
  | .ok addr table => .ok (table, s.2 ++ [⟨call.1, call.2, addr⟩])
  | .error (.err _) table => .ok (table, s.2)
  | .error (.panic reason) _ => .error reason

/-- The byte belongs to an entry of the range. -/
def Grant.Covers (entrySz : Nat) (grant : Grant) (byteOffset : Nat) : Prop :=
  grant.addr ≤ byteOffset ∧ byteOffset < grant.addr + grant.pages.len * entrySz

/-- The address that the loop of `alloc_mtt_for_pages` accepts for a page. -/
def entryAddress (process : Process) (number : Nat) : Option PhysAddr :=
  match process.virtualAddressSpace.getPhys (number * pageSize) with
  | .ok (some physical) =>
    if physical.asU64 = 0 ∨ physical.asU64 % pageSize ≠ 0 then none else some physical
  | _ => none

/-- Every page has an address for its entry, and every entry lies in the first chunk. -/
def Allocatable (caps : Capabilities) (table : MrTable) (call : Process × PageRange) : Prop :=
  ∀ i < call.2.len, (entryAddress call.1 (call.2.start.number + i)).isSome ∧
    (table.reservedMtts + table.offset + i) * caps.mttEntrySz.toNat + 8 ≤ tableChunkSize

instance (caps : Capabilities) (table : MrTable) (call : Process × PageRange) :
    Decidable (Allocatable caps table call) :=
  inferInstanceAs (Decidable (∀ i < _, _))

/-- A call that returns an error does not move the offset. -/
def KeepsOffset (caps : Capabilities) (s : MrTable × List Grant) (call : Process × PageRange)
    (s' : MrTable × List Grant) : Prop :=
  ∀ message, allocMttForPages caps call.1 call.2 s.1 = .error (.err message) s'.1 →
    s'.1.offset = s.1.offset

/-- The table after writes that leave everything below a limit alone. -/
structure Extends (limit : Nat) (bytes bytes' : Nat → UInt8) (table table' : MrTable) : Prop where
  mapped : table'.mttTable.Mapped bytes'
  reservedMtts_eq : table'.reservedMtts = table.reservedMtts
  offset_eq : table'.offset = table.offset
  bytes_eq : ∀ o < limit, bytes' o = bytes o

/-- The entry of a page is written. -/
structure Written (process : Process) (number byteOffset : Nat) (bytes : Nat → UInt8) :
    Prop where
  inside : byteOffset + 8 ≤ tableChunkSize
  entry : ∃ physical, entryAddress process number = some physical ∧
    slice bytes byteOffset 8 = toBe 8 (physical.asU64 ||| 1)

section

variable {caps : Capabilities} {process : Process} {table : MrTable} {bytes : Nat → UInt8}
  {entrySz addr number byteOffset : Nat}

private theorem entryAddress_eq {page : Page} {translated : Option PhysAddr}
    (h : process.virtualAddressSpace.getPhys page.startAddress.asU64 = .ok translated) :
    entryAddress process page.number = translated.filter
      fun physical ↦ !decide (physical.asU64 = 0 ∨ physical.asU64 % pageSize ≠ 0) := by
  have h' : process.virtualAddressSpace.getPhys (page.number * pageSize) = .ok translated := h
  rw [entryAddress, h']
  cases translated with
  | none => rfl
  | some physical =>
    rw [Option.filter_some]
    by_cases hc : physical.asU64 = 0 ∨ physical.asU64 % pageSize ≠ 0 <;> simp [hc]

private theorem Written.congr {bytes' : Nat → UInt8} (h : Written process number byteOffset bytes)
    (heq : ∀ o < byteOffset + 8, bytes' o = bytes o) :
    Written process number byteOffset bytes' := by
  obtain ⟨physical, hphysical, hslice⟩ := h.entry
  refine ⟨h.inside, physical, hphysical, ?_⟩
  rw [← hslice]
  exact slice_congr fun o _ hlt ↦ heq o hlt

private theorem Extends.trans {limit limit' : Nat} {bytes' bytes'' : Nat → UInt8}
    {table' table'' : MrTable} (h : Extends limit bytes bytes' table table')
    (h' : Extends limit' bytes' bytes'' table' table'') (hle : limit ≤ limit') :
    Extends limit bytes bytes'' table table'' where
  mapped := h'.mapped
  reservedMtts_eq := h'.reservedMtts_eq.trans h.reservedMtts_eq
  offset_eq := h'.offset_eq.trans h.offset_eq
  bytes_eq o ho := (h'.bytes_eq o (Nat.lt_of_lt_of_le ho hle)).trans (h.bytes_eq o ho)

/-- A page of the rest of the range that the loop cannot enter. -/
private def Stuck (process : Process) (entrySz addr number i count : Nat) : Prop :=
  ∃ j < count, entryAddress process (number + j) = none ∨
    tableChunkSize < addr + (i + j) * entrySz + 8

private theorem stuck_succ {i count : Nat} : Stuck process entrySz addr number i (count + 1) ↔
    (entryAddress process number = none ∨ tableChunkSize < addr + i * entrySz + 8) ∨
      Stuck process entrySz addr (number + 1) (i + 1) count := by
  simp only [Stuck, Nat.exists_lt_succ_left, Nat.add_zero, Nat.add_right_comm, ← Nat.add_assoc]

private theorem forall_written_succ {i count : Nat}
    (head : Written process number (addr + i * entrySz) bytes)
    (tail : ∀ j < count, Written process (number + 1 + j) (addr + (i + 1 + j) * entrySz) bytes) :
    ∀ j < count + 1, Written process (number + j) (addr + (i + j) * entrySz) bytes := by
  refine Nat.forall_lt_succ_left.mpr ⟨head, fun j hj ↦ ?_⟩
  have h := tail j hj
  rwa [Nat.add_right_comm number, Nat.add_right_comm i] at h

private theorem writeEntries_spec (hsz : 8 ≤ entrySz) {count i : Nat} {page : Page}
    (h : table.mttTable.Mapped bytes) :
    Ends (writeEntries entrySz process addr count i page) table
      (fun _ table' ↦ ∃ bytes', Extends (addr + i * entrySz) bytes bytes' table table' ∧
        ∀ j < count, Written process (page.number + j) (addr + (i + j) * entrySz) bytes')
      fun e table' ↦ (∃ bytes', Extends (addr + i * entrySz) bytes bytes' table table') ∧
        e.OnErr (Stuck process entrySz addr page.number i count) := by
  induction count generalizing i page table bytes with
  | zero => exact ⟨bytes, ⟨h, rfl, rfl, fun _ _ ↦ rfl⟩, fun j hj ↦ absurd hj (Nat.not_lt_zero j)⟩
  | succ count ih =>
    have hsame : ∃ bytes', Extends (addr + i * entrySz) bytes bytes' table table :=
      ⟨bytes, h, rfl, rfl, fun _ _ ↦ rfl⟩
    simp only [writeEntries, ends_bind, ends_lift, ends_ite, ends_get, ends_set, ends_throw,
      yields_orPanic, yields_okOr, mulOrPanic_eq_ok, addOrPanic_eq_ok, Fault.onErr_panic,
      Fault.onErr_err, hsame, true_and, and_true, implies_true]
    intro next hnext translated htranslated
    have hentry := entryAddress_eq htranslated
    refine ⟨fun physical hphysical ↦ ⟨fun hbad ↦ ?_, ?_⟩, fun hnone ↦ ?_⟩
    · rw [hphysical, Option.filter_some, decide_eq_true hbad] at hentry
      exact stuck_succ.mpr (.inl (.inl hentry))
    · rintro hgood _ ⟨-, rfl⟩ _ ⟨-, rfl⟩
      rw [hphysical, Option.filter_some, decide_eq_false hgood] at hentry
      have hdata : 0 < (toBe 8 (physical.asU64 ||| 1)).length := by
        rw [length_toBe]
        decide
      refine (h.writeHostBytes (addr + i * entrySz) hdata).mono ?_ ?_
      · rintro mttTable ⟨hle, hmapped⟩
        -- the rest of the loop writes behind the entry of this page
        have hnumber := Page.number_of_add hnext
        have hlimit : addr + i * entrySz + 8 ≤ addr + (i + 1) * entrySz := by
          rw [Nat.succ_mul]
          omega
        have hstep : Extends (addr + i * entrySz) bytes
            (patch bytes (addr + i * entrySz) (toBe 8 (physical.asU64 ||| 1))) table
            { table with mttTable := mttTable } :=
          ⟨hmapped, rfl, rfl, fun o ho ↦ patch_of_outside (.inl ho)⟩
        have hrest := @ih { table with mttTable := mttTable } _ (i + 1) next hmapped
        refine hrest.mono ?_ ?_
        · rintro - table' ⟨bytes', hext, hwritten⟩
          rw [hnumber] at hwritten
          refine ⟨bytes', hstep.trans hext (by omega), forall_written_succ ?_ hwritten⟩
          have hself := slice_patch_self bytes (addr + i * entrySz)
            (toBe 8 (physical.asU64 ||| 1))
          refine Written.congr ⟨hle, physical, hentry, hself⟩ ?_
          exact fun o ho ↦ hext.bytes_eq o (Nat.lt_of_lt_of_le ho hlimit)
        · rintro e table' ⟨⟨bytes', hext⟩, he⟩
          rw [hnumber] at he
          exact ⟨⟨bytes', hstep.trans hext (by omega)⟩, he.mono (stuck_succ.mpr ∘ .inr)⟩
      · rintro e ⟨-, hlt⟩
        exact Fault.onErr_of e (stuck_succ.mpr (.inl (.inr hlt)))
    · rw [hnone] at hentry
      exact stuck_succ.mpr (.inl (.inl hentry))

private theorem allocMttForPages_spec (hsz : 8 ≤ caps.mttEntrySz.toNat) (pages : PageRange)
    (h : table.mttTable.Mapped bytes) :
    Ends (allocMttForPages caps process pages) table
      (fun addr table' ↦ addr = (table.reservedMtts + table.offset) * caps.mttEntrySz.toNat ∧
        ∃ bytes', Extends addr bytes bytes' { table with offset := table.offset + pages.len }
          table' ∧ ∀ j < pages.len, Written process (pages.start.number + j)
            (addr + j * caps.mttEntrySz.toNat) bytes')
      fun e table' ↦ e.OnErr ((∃ bytes',
        Extends ((table.reservedMtts + table.offset) * caps.mttEntrySz.toNat) bytes bytes'
          { table with offset := table.offset + pages.len } table') ∧
        (pages.len = 0 ∨ Stuck process caps.mttEntrySz.toNat
          ((table.reservedMtts + table.offset) * caps.mttEntrySz.toNat) pages.start.number 0
          pages.len)) := by
  simp only [allocMttForPages, ends_bind, ends_lift, ends_ite, ends_get, ends_set, ends_throw,
    ends_pure, yields_orPanic, mulOrPanic_eq_ok, addOrPanic_eq_ok, Fault.onErr_panic,
    Fault.onErr_err, implies_true, and_true]
  constructor
  · intro hempty
    have hlen : pages.len = 0 := by
      rw [PageRange.isEmpty, decide_eq_true_eq] at hempty
      exact Nat.sub_eq_zero_of_le hempty
    refine ⟨⟨bytes, ?_⟩, .inl hlen⟩
    rw [hlen]
    exact ⟨h, rfl, rfl, fun _ _ ↦ rfl⟩
  · rintro - _ ⟨-, rfl⟩ _ ⟨-, rfl⟩ _ ⟨-, rfl⟩
    have hadvanced : { table with offset := table.offset + pages.len : MrTable }.mttTable.Mapped
        bytes := h
    refine (writeEntries_spec hsz (i := 0) hadvanced).mono ?_ ?_
    · rintro - table' ⟨bytes', hext, hwritten⟩
      simp only [Nat.zero_mul, Nat.zero_add, Nat.add_zero] at hext hwritten
      exact ⟨rfl, bytes', hext, hwritten⟩
    · rintro e table' ⟨⟨bytes', hext⟩, he⟩
      rw [Nat.zero_mul, Nat.add_zero] at hext
      exact he.mono fun hstuck ↦ ⟨⟨bytes', hext⟩, .inr hstuck⟩

end

/-- The ranges handed out so far lie behind the reserved entries and before the offset, one
behind the other, and hold what was written. -/
structure Ledger (entrySz reserved : Nat) (s : MrTable × List Grant) : Prop where
  reservedMtts_eq : s.1.reservedMtts = reserved
  contents : ∃ bytes, s.1.mttTable.Mapped bytes ∧ ∀ grant ∈ s.2, ∀ i < grant.pages.len,
    Written grant.process (grant.pages.start.number + i) (grant.addr + i * entrySz) bytes
  above : ∀ grant ∈ s.2, reserved * entrySz ≤ grant.addr
  below : ∀ grant ∈ s.2,
    grant.addr + grant.pages.len * entrySz ≤ (reserved + s.1.offset) * entrySz
  ascending : s.2.Pairwise fun g g' ↦ g.addr + g.pages.len * entrySz ≤ g'.addr

section

variable {caps : Capabilities} {reserved : Nat} {s s' : MrTable × List Grant}
  {call : Process × PageRange}

private theorem Ledger.extend {bytes bytes' : Nat → UInt8} {table : MrTable} {len : Nat}
    (h : Ledger caps.mttEntrySz.toNat reserved s)
    (hcontents : ∀ grant ∈ s.2, ∀ i < grant.pages.len, Written grant.process
      (grant.pages.start.number + i) (grant.addr + i * caps.mttEntrySz.toNat) bytes)
    (hext : Extends ((s.1.reservedMtts + s.1.offset) * caps.mttEntrySz.toNat) bytes bytes'
      { s.1 with offset := s.1.offset + len } table)
    (hsz : 8 ≤ caps.mttEntrySz.toNat) :
    ∀ grant ∈ s.2, ∀ i < grant.pages.len, Written grant.process
      (grant.pages.start.number + i) (grant.addr + i * caps.mttEntrySz.toNat) bytes' := by
  intro grant hgrant i hi
  refine (hcontents grant hgrant i hi).congr fun o ho ↦ hext.bytes_eq o ?_
  have hbelow := h.below grant hgrant
  rw [← h.reservedMtts_eq] at hbelow
  have hentry : (i + 1) * caps.mttEntrySz.toNat ≤ grant.pages.len * caps.mttEntrySz.toNat :=
    Nat.mul_le_mul_right _ hi
  rw [Nat.succ_mul] at hentry
  omega

private theorem Ledger.step (hsz : 8 ≤ caps.mttEntrySz.toNat)
    (h : Ledger caps.mttEntrySz.toNat reserved s) (hstep : MrTable.step caps s call = .ok s') :
    Ledger caps.mttEntrySz.toNat reserved s' := by
  obtain ⟨bytes, hmapped, hcontents⟩ := h.contents
  have hspec := @allocMttForPages_spec caps call.1 s.1 bytes hsz call.2 hmapped
  have hmono : (reserved + s.1.offset) * caps.mttEntrySz.toNat ≤
      (reserved + (s.1.offset + call.2.len)) * caps.mttEntrySz.toNat :=
    Nat.mul_le_mul_right _ (by omega)
  unfold MrTable.step at hstep
  cases halloc : allocMttForPages caps call.1 call.2 s.1 with
  | ok addr table =>
    rw [halloc] at hstep
    cases hstep
    obtain ⟨haddr, bytes', hext, hwritten⟩ := hspec.of_ok halloc
    rw [haddr] at hext
    have hoffset : table.offset = s.1.offset + call.2.len := hext.offset_eq
    rw [h.reservedMtts_eq] at haddr
    have hbound : ∀ grant ∈ s.2, grant.addr + grant.pages.len * caps.mttEntrySz.toNat ≤ addr :=
      fun grant hgrant ↦ haddr ▸ h.below grant hgrant
    refine ⟨hext.reservedMtts_eq.trans h.reservedMtts_eq, ⟨bytes', hext.mapped, ?_⟩, ?_, ?_, ?_⟩
    · exact forall_mem_push (h.extend hcontents hext hsz) hwritten
    · exact forall_mem_push h.above (haddr ▸ Nat.mul_le_mul_right _ (Nat.le_add_right _ _))
    · rw [hoffset]
      refine forall_mem_push (fun grant hgrant ↦ Nat.le_trans (h.below grant hgrant) hmono) ?_
      rw [haddr, ← Nat.add_mul, Nat.add_assoc]
    · exact List.pairwise_append.mpr ⟨h.ascending, List.pairwise_singleton _ _,
        fun grant hgrant ↦ List.forall_mem_singleton.mpr (hbound grant hgrant)⟩
  | error e table =>
    rw [halloc] at hstep
    have herror := hspec.of_error halloc
    cases e with
    | panic reason => cases hstep
    | err message =>
      cases hstep
      obtain ⟨⟨bytes', hext⟩, -⟩ := herror
      have hoffset : table.offset = s.1.offset + call.2.len := hext.offset_eq
      refine ⟨hext.reservedMtts_eq.trans h.reservedMtts_eq,
        ⟨bytes', hext.mapped, h.extend hcontents hext hsz⟩, h.above, ?_, h.ascending⟩
      intro grant hgrant
      rw [hoffset]
      exact Nat.le_trans (h.below grant hgrant) hmono

private theorem allocatable_iff {process : Process} {pages : PageRange} {table : MrTable} :
    Allocatable caps table (process, pages) ↔ ¬ Stuck process caps.mttEntrySz.toNat
      ((table.reservedMtts + table.offset) * caps.mttEntrySz.toNat) pages.start.number 0
      pages.len := by
  simp only [Stuck, Nat.zero_add, ← Nat.add_mul, not_exists, not_and, not_or, Nat.not_lt,
    Allocatable, ← Option.isSome_iff_ne_none]

private theorem Written.isSome {process : Process} {number byteOffset : Nat} {bytes : Nat → UInt8}
    (h : Written process number byteOffset bytes) : (entryAddress process number).isSome := by
  obtain ⟨physical, hphysical, -⟩ := h.entry
  rw [hphysical, Option.isSome_some]

private theorem keepsOffset_iff (hsz : 8 ≤ caps.mttEntrySz.toNat)
    (h : Ledger caps.mttEntrySz.toNat reserved s) (hstep : MrTable.step caps s call = .ok s') :
    KeepsOffset caps s call s' ↔ Allocatable caps s.1 call := by
  obtain ⟨bytes, hmapped, -⟩ := h.contents
  have hspec := @allocMttForPages_spec caps call.1 s.1 bytes hsz call.2 hmapped
  unfold MrTable.step at hstep
  unfold KeepsOffset
  cases halloc : allocMttForPages caps call.1 call.2 s.1 with
  | ok addr table =>
    obtain ⟨rfl, bytes', -, hwritten⟩ := hspec.of_ok halloc
    refine iff_of_true (fun message herror ↦ nomatch herror) fun i hi ↦ ?_
    have hentry := hwritten i hi
    rw [← Nat.add_mul] at hentry
    exact ⟨hentry.isSome, hentry.inside⟩
  | error e table =>
    rw [halloc] at hstep
    have herror := hspec.of_error halloc
    cases e with
    | panic reason => cases hstep
    | err message =>
      cases hstep
      obtain ⟨⟨bytes', hext⟩, hlen | hstuck⟩ := herror
      · refine iff_of_true (fun _ _ ↦ ?_) fun i hi ↦ absurd hi (by omega)
        rw [hext.offset_eq]
        exact congrArg (s.1.offset + ·) hlen
      · refine iff_of_false (fun hkeeps ↦ ?_) fun hall ↦ allocatable_iff.mp hall hstuck
        have hoffset : s.1.offset + call.2.len = s.1.offset :=
          hext.offset_eq.symm.trans (hkeeps message rfl)
        obtain ⟨j, hj, -⟩ := hstuck
        omega

end

private theorem le_roundup {n : Nat} : n ≤ (n + 63) / 64 * 64 := by
  omega

private theorem Initial.ledger {caps : Capabilities} {table : MrTable} (h : table.Initial caps) :
    Ledger caps.mttEntrySz.toNat table.reservedMtts (table, []) := by
  obtain ⟨numMtts, virt, answers, h⟩ := h
  unfold init at h
  dsimp only at h
  split at h
  next => cases h
  next hsz =>
    obtain ⟨mttTable, htable, h⟩ := of_bind h
    cases h
    have hpos : 0 < caps.mttEntrySz.toNat := Nat.pos_of_ne_zero hsz
    have hreserved : 0 < (2 ^ caps.log2RsvdMtts.toNat * caps.mttEntrySz.toNat + 63) / 64 * 64 /
        caps.mttEntrySz.toNat := by
      refine Nat.div_pos (Nat.le_trans ?_ le_roundup) hpos
      exact Nat.le_mul_of_pos_left _ (Nat.two_pow_pos _)
    obtain ⟨bytes, hmapped⟩ := (IcmTable.chunked_of_init htable).exists_mapped
      (IcmTable.chunkCount_pos (Nat.mul_pos hreserved hpos))
    exact ⟨rfl, ⟨bytes, hmapped, nofun⟩, nofun, nofun, List.Pairwise.nil⟩

private theorem getPhys_of_entryAddress {process : Process} {number : Nat} {physical : PhysAddr}
    (h : entryAddress process number = some physical) :
    process.virtualAddressSpace.getPhys (number * pageSize) = .ok (some physical) := by
  unfold entryAddress at h
  split at h
  next physical' heq =>
    split at h
    next => cases h
    next =>
      cases h
      exact heq
  next => cases h

private theorem or_one_lt (physical : PhysAddr) : physical.asU64 ||| 1 < 256 ^ 8 :=
  Nat.or_lt_two_pow (n := 64) (Nat.lt_trans physical.lt (by decide)) (by decide)

private theorem Written.exists_cardEntry {process : Process} {number byteOffset : Nat}
    {bytes : Nat → UInt8} {table : IcmTable} (h : Written process number byteOffset bytes)
    (hmapped : table.Mapped bytes) : ∃ physical,
    process.virtualAddressSpace.getPhys (number * pageSize) = .ok (some physical) ∧
      table.cardEntry byteOffset = some (physical.asU64 ||| 1) := by
  obtain ⟨physical, hphysical, hslice⟩ := h.entry
  refine ⟨physical, getPhys_of_entryAddress hphysical, ?_⟩
  rw [hmapped.cardEntry h.inside, hslice, ofBe_toBe, Nat.mod_eq_of_lt (or_one_lt physical)]

/-- In every run the ranges of entries that the calls return are apart and behind the reserved
entries, and the card finds in each of them the addresses of the pages; the calls that return an
error leave the offset alone exactly if every call could be served. -/
theorem allocations_apart {caps : Capabilities} {table₀ table : MrTable} {grants : List Grant}
    {calls : List (Process × PageRange)} (hinit : table₀.Initial caps)
    (hsz : 8 ≤ caps.mttEntrySz.toNat)
    (hrun : calls.foldlM (step caps) (table₀, []) = .ok (table, grants)) :
    grants.Pairwise (fun g g' ↦ ∀ o, g.Covers caps.mttEntrySz.toNat o →
      ¬ g'.Covers caps.mttEntrySz.toNat o) ∧
    (∀ grant ∈ grants,
      (∀ o, grant.Covers caps.mttEntrySz.toNat o →
        table₀.reservedMtts * caps.mttEntrySz.toNat ≤ o) ∧
      ∀ i < grant.pages.len, ∃ physical,
        grant.process.virtualAddressSpace.getPhys ((grant.pages.start.number + i) * pageSize) =
          .ok (some physical) ∧
        table.mttTable.cardEntry (grant.addr + i * caps.mttEntrySz.toNat) =
          some (physical.asU64 ||| 1)) ∧
    (Along (step caps) (KeepsOffset caps) (table₀, []) calls ↔
      Along (step caps) (fun s call _ ↦ Allocatable caps s.1 call) (table₀, []) calls) := by
  have hstart := hinit.ledger
  have hend : Ledger caps.mttEntrySz.toNat table₀.reservedMtts (table, grants) :=
    (foldlM_yields calls (I := Ledger caps.mttEntrySz.toNat table₀.reservedMtts)
      (E := fun _ ↦ True) hstart fun s call hs ↦
        yields_of_eq (fun s' hstep ↦ hs.step hsz hstep) fun _ _ ↦ trivial).of_ok hrun
  obtain ⟨bytes, hmapped, hcontents⟩ := hend.contents
  refine ⟨hend.ascending.imp fun hle o hg hg' ↦ ?_, fun grant hgrant ↦
    ⟨fun o ho ↦ Nat.le_trans (hend.above grant hgrant) ho.1, fun i hi ↦
      (hcontents grant hgrant i hi).exists_cardEntry hmapped⟩, ?_⟩
  · have hlt := hg.2
    have hge := hg'.1
    omega
  · exact along_congr_of_invariant (I := Ledger caps.mttEntrySz.toNat table₀.reservedMtts)
      (fun s call s' hs hstep ↦ hs.step hsz hstep)
      (fun s call s' hs hstep ↦ keepsOffset_iff hsz hs hstep) hstart calls

namespace Sample

/-- A new table of the sample card. -/
def mrTable : MrTable := ⟨⟨0, [IcmTable.newChunk 0 fun _ ↦ 0]⟩, 16, 0⟩

private theorem mrTable_initial : mrTable.Initial Mlx4.Sample.caps :=
  ⟨1024, 0, fun _ ↦ .ok fun _ ↦ 0, rfl⟩

/-- The page of a sample process. -/
def mapped : PageRange := ⟨Mlx4.Sample.page, Mlx4.Sample.nextPage⟩

/-- The page behind it. -/
def unmapped : PageRange := ⟨Mlx4.Sample.nextPage, ⟨0x10000002, by decide⟩⟩

end Sample

/-- Two allocations of the same page on the sample card. -/
theorem allocations_apart_sample : ∃ process calls table g g',
    calls = [Sample.mapped, Sample.mapped].map (process, ·) ∧
    Sample.mrTable.Initial Mlx4.Sample.caps ∧
    calls.foldlM (step Mlx4.Sample.caps) (Sample.mrTable, []) = .ok (table, [g, g']) ∧
    g.pages.len = 1 ∧ g'.pages.len = 1 ∧
    (∀ o, g.Covers Mlx4.Sample.caps.mttEntrySz.toNat o →
      ¬ g'.Covers Mlx4.Sample.caps.mttEntrySz.toNat o) ∧
    Along (step Mlx4.Sample.caps) (KeepsOffset Mlx4.Sample.caps) (Sample.mrTable, []) calls := by
  obtain ⟨process, -, ⟨table, grants⟩, hrun, hlens, halloc⟩ :
      ∃ process, Mlx4.Sample.process 1 = .ok process ∧
        ∃ s, ([Sample.mapped, Sample.mapped].map (process, ·)).foldlM (step Mlx4.Sample.caps)
          (Sample.mrTable, []) = .ok s ∧ s.2.map (·.pages.len) = [1, 1] ∧
          decide (Along (step Mlx4.Sample.caps)
            (fun s call _ ↦ Allocatable Mlx4.Sample.caps s.1 call) (Sample.mrTable, [])
            ([Sample.mapped, Sample.mapped].map (process, ·))) := by
    decide +kernel
  generalize hcalls : [Sample.mapped, Sample.mapped].map (process, ·) = calls at hrun halloc
  obtain ⟨g, rest, rfl, hg, hrest⟩ := List.map_eq_cons_iff.mp hlens
  obtain ⟨g', last, rfl, hg', hlast⟩ := List.map_eq_cons_iff.mp hrest
  cases List.map_eq_nil_iff.mp hlast
  obtain ⟨hapart, -, hkeeps⟩ := allocations_apart Sample.mrTable_initial (by decide) hrun
  exact ⟨process, calls, table, g, g', hcalls.symm, Sample.mrTable_initial, hrun, hg, hg',
    List.pairwise_pair.mp hapart, hkeeps.mpr (of_decide_eq_true halloc)⟩

/-- A call with a page that is not mapped returns an error and moves the offset. -/
theorem failed_call_moves_offset : ∃ process table message,
    Sample.mrTable.Initial Mlx4.Sample.caps ∧ Sample.mrTable.offset = 0 ∧
    allocMttForPages Mlx4.Sample.caps process Sample.unmapped Sample.mrTable =
      .error (.err message) table ∧ table.offset = 1 := by
  obtain ⟨process, -, table, halloc, hoffset⟩ : ∃ process, Mlx4.Sample.process 1 = .ok process ∧
      ∃ table, allocMttForPages Mlx4.Sample.caps process Sample.unmapped Sample.mrTable =
        .error (.err "page not mapped") table ∧ table.offset = 1 := by
    decide +kernel
  exact ⟨process, table, _, Sample.mrTable_initial, rfl, halloc, hoffset⟩

end MrTable

end D3OS.Mlx4
