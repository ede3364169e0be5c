import D3OS.Mlx4.Mtt

/-!
# Host memory behind a table

`host_bytes_mut` looks for the chunk of a byte offset with the size of a chunk in place of its
end, so that only the first chunk of a table is ever found.
-/

namespace D3OS.Mlx4

open Memory

/-- The bytes of host memory that a mutable slice refers to: the chunk whose memory it is, the
offset in that memory and the length. -/
structure HostSlice where
  chunk : Nat
  offset : Nat
  len : Nat
  deriving DecidableEq, Repr

/-- The entries of the command `MAP_ICM` for a chunk, `icm.rs:276-281`: an address of the card
and the one of host memory for each page. -/
def MappedIcm.vpms (chunk : MappedIcm) (physStart : Nat) : List (Nat × Nat) :=
  (List.range (min maxChunkSize chunk.numPages)).map fun i ↦
    (chunk.cardVirtual + i * pageSize, physStart + i * pageSize)

namespace IcmTable

/-- `host_bytes_mut`, `icm.rs:303`. -/
def hostBytesMut (table : IcmTable) (byteOffset len : Nat) : Except Fault HostSlice := do
  let found ← orPanic (findChunk table.virt byteOffset table.icm 0)
  let index ← okOr "chunk not found" found
  let chunk ← orPanic (unwrap table.icm[index]?)
  let memory ← okOr "ICM chunk has no memory" chunk.memory
  if memory.numPages * pageSize < byteOffset % tableChunkSize + len then
    .error (.err "Doesn't fit within pages")
  else .ok ⟨index, byteOffset % tableChunkSize, len⟩

/-- The chunk holds the bytes of the table from an offset on. -/
def Holds (table : IcmTable) (chunk : MappedIcm) (byteOffset len : Nat) : Prop :=
  chunk.cardVirtual ≤ table.virt + byteOffset ∧
    table.virt + byteOffset < chunk.cardVirtual + chunk.numPages * pageSize ∧
    table.virt + byteOffset + len ≤ chunk.cardVirtual + chunk.numPages * pageSize

/-- `MAP_ICM` told the card to find the address in host memory at `phys`, where the memory of
the chunks starts at the given addresses. -/
def Associates (table : IcmTable) (physStarts : Nat → Nat) (cardAddress phys : Nat) : Prop :=
  ∃ (index : Nat) (chunk : MappedIcm) (vpm : Nat × Nat), table.icm[index]? = some chunk ∧
    vpm ∈ chunk.vpms (physStarts index) ∧ vpm.1 ≤ cardAddress ∧
    cardAddress < vpm.1 + pageSize ∧ phys = vpm.2 + (cardAddress - vpm.1)

/-- A range within one chunk is resolved to the memory that the card finds there, and an offset
in no chunk is refused. -/
def Resolves (table : IcmTable) (physStarts : Nat → Nat) (byteOffset len : Nat) : Prop :=
  ((∃ chunk ∈ table.icm, table.Holds chunk byteOffset len) →
    ∃ host, table.hostBytesMut byteOffset len = .ok host ∧ host.len = len ∧
      ∀ i < len, table.Associates physStarts (table.virt + byteOffset + i)
        (physStarts host.chunk + host.offset + i)) ∧
  ((∀ chunk ∈ table.icm, ¬ table.Holds chunk byteOffset 0) →
    ∃ message, table.hostBytesMut byteOffset len = .error (.err message))

section

variable {table : IcmTable} {n byteOffset len : Nat}

private theorem Chunked.eq_of_mem (h : table.Chunked n) {chunk : MappedIcm}
    (hmem : chunk ∈ table.icm) :
    ∃ i < n, ∃ bytes, chunk = newChunk (table.virt + i * tableChunkSize) bytes := by
  obtain ⟨i, hi, hget⟩ := List.getElem_of_mem hmem
  exact ⟨i, h.length_eq ▸ hi, h.chunk_eq i chunk (List.getElem?_eq_some_iff.mpr ⟨hi, hget⟩)⟩

private theorem Chunked.exists_holds_iff (h : table.Chunked n) :
    (∃ chunk ∈ table.icm, table.Holds chunk byteOffset len) ↔
      byteOffset < n * tableChunkSize ∧ byteOffset % tableChunkSize + len ≤ tableChunkSize := by
  constructor
  · rintro ⟨chunk, hmem, hlow, hhigh, hlen⟩
    obtain ⟨i, hi, bytes, rfl⟩ := h.eq_of_mem hmem
    rw [newChunk, chunkPages_mul] at hhigh hlen
    have hmul := Nat.mul_le_mul_right tableChunkSize (Nat.succ_le_of_lt hi)
    simp only [newChunk, tableChunkSize] at *
    omega
  · rintro ⟨hlt, hlen⟩
    have hi : byteOffset / tableChunkSize < table.icm.length := by
      rw [h.length_eq]
      exact Nat.div_lt_of_lt_mul (by rw [Nat.mul_comm]; exact hlt)
    obtain ⟨bytes, hchunk⟩ := h.chunk_eq _ _ (List.getElem?_eq_getElem hi)
    refine ⟨_, List.getElem_mem hi, ?_⟩
    rw [Holds, hchunk, newChunk, chunkPages_mul]
    simp only [tableChunkSize] at *
    omega

private theorem Chunked.hostBytesMut_of_le (h : table.Chunked n)
    (hle : tableChunkSize ≤ byteOffset) :
    table.hostBytesMut byteOffset len = .error (.err "chunk not found") := by
  have hfind : findChunk table.virt byteOffset table.icm 0 = .ok none := by
    refine findChunk_of_le (fun chunk hmem ↦ ?_) hle
    obtain ⟨i, -, bytes, rfl⟩ := h.eq_of_mem hmem
    exact ⟨Nat.le_add_right _ _, rfl⟩
  rw [hostBytesMut, hfind]
  rfl

private theorem Mapped.hostBytesMut_of_lt {bytes : Nat → UInt8} (h : table.Mapped bytes)
    (hlt : byteOffset < tableChunkSize) (hlen : byteOffset + len ≤ tableChunkSize) :
    table.hostBytesMut byteOffset len = .ok ⟨0, byteOffset, len⟩ := by
  obtain ⟨rest, hicm, -⟩ := h.icm_eq
  rw [hostBytesMut, findChunk_of_lt h hlt, hicm, Nat.mod_eq_of_lt hlt]
  show (if chunkPages * pageSize < byteOffset + len then _ else _) = _
  rw [chunkPages_mul, if_neg (Nat.not_lt.mpr hlen)]

private theorem Mapped.associates {bytes : Nat → UInt8} (h : table.Mapped bytes)
    (physStarts : Nat → Nat) (hlt : byteOffset < tableChunkSize) :
    table.Associates physStarts (table.virt + byteOffset) (physStarts 0 + byteOffset) := by
  obtain ⟨rest, hicm, -⟩ := h.icm_eq
  have hpage : byteOffset / pageSize < min maxChunkSize chunkPages :=
    Nat.div_lt_of_lt_mul hlt
  refine ⟨0, newChunk table.virt bytes, _, by rw [hicm]; rfl,
    List.mem_map.mpr ⟨byteOffset / pageSize, List.mem_range.mpr hpage, rfl⟩, ?_⟩
  simp only [newChunk, pageSize]
  omega

end

/-- `host_bytes_mut` gives the memory that the card finds at an offset unless the offset lies in
a chunk other than the first. -/
theorem hostBytesMut_resolves_iff {entrySize entryCapacity reserved virt : Nat}
    {answers : Nat → Except String (Nat → UInt8)} {table : IcmTable}
    (h : init entrySize entryCapacity reserved virt answers = .ok table)
    (physStarts : Nat → Nat) (byteOffset len : Nat) :
    table.Resolves physStarts byteOffset len ↔
      ¬ (tableChunkSize ≤ byteOffset ∧
        byteOffset < chunkCount entrySize reserved * tableChunkSize ∧
        byteOffset % tableChunkSize + len ≤ tableChunkSize) := by
  have hchunked := chunked_of_init h
  by_cases hle : tableChunkSize ≤ byteOffset
  · rw [Resolves, hchunked.hostBytesMut_of_le hle, hchunked.exists_holds_iff]
    constructor
    · rintro ⟨hfound, -⟩ ⟨-, hin⟩
      obtain ⟨host, hhost, -⟩ := hfound hin
      cases hhost
    · intro hout
      exact ⟨fun hin ↦ absurd ⟨hle, hin⟩ hout, fun _ ↦ ⟨_, rfl⟩⟩
  · have hlt := Nat.lt_of_not_le hle
    refine iff_of_true ⟨fun hin ↦ ?_, fun hout ↦ ?_⟩ fun hin ↦ hle hin.1
    · rw [hchunked.exists_holds_iff, Nat.mod_eq_of_lt hlt] at hin
      obtain ⟨bytes, hmapped⟩ := hchunked.exists_mapped (Nat.pos_of_lt_mul_right hin.1)
      refine ⟨_, hmapped.hostBytesMut_of_lt hlt hin.2, rfl, fun i hi ↦ ?_⟩
      rw [Nat.add_assoc, Nat.add_assoc]
      exact hmapped.associates physStarts (by omega)
    · by_cases hcount : chunkCount entrySize reserved = 0
      · have hnil : table.icm = [] := List.length_eq_zero_iff.mp (hchunked.length_eq.trans hcount)
        exact ⟨_, by rw [hostBytesMut, hnil]; rfl⟩
      · have hend : byteOffset % tableChunkSize + 0 ≤ tableChunkSize :=
          Nat.le_of_lt (Nat.mod_lt byteOffset (Nat.two_pow_pos 18))
        obtain ⟨chunk, hmem, hholds⟩ := hchunked.exists_holds_iff.mpr
          ⟨Nat.lt_of_lt_of_le hlt (Nat.le_mul_of_pos_left _ (Nat.pos_of_ne_zero hcount)), hend⟩
        exact absurd hholds (hout chunk hmem)

/-- A table with 2 ^ 16 reserved entries of eight bytes, which take two chunks. -/
def twoChunks : Except Fault IcmTable := init 8 65536 65536 0 fun _ ↦ .ok fun _ ↦ 0

/-- Bytes of the first of two chunks. -/
theorem hostBytesMut_resolves_iff_sample : ∃ table, twoChunks = .ok table ∧
    table.Resolves (fun index ↦ index * tableChunkSize) 64 8 := by
  obtain ⟨table, h⟩ : ∃ table, twoChunks = .ok table := ⟨_, rfl⟩
  exact ⟨table, h, (hostBytesMut_resolves_iff h _ 64 8).mpr (by decide)⟩

/-- The first entry of the second chunk is not found. -/
theorem hostBytesMut_second_chunk : ∃ table, twoChunks = .ok table ∧
    (∃ chunk ∈ table.icm, table.Holds chunk tableChunkSize 8) ∧
    table.hostBytesMut tableChunkSize 8 = .error (.err "chunk not found") := by
  obtain ⟨table, h⟩ : ∃ table, twoChunks = .ok table := ⟨_, rfl⟩
  have hchunked := chunked_of_init h
  exact ⟨table, h, hchunked.exists_holds_iff.mpr (by decide),
    hchunked.hostBytesMut_of_le (Nat.le_refl _)⟩

end IcmTable

end D3OS.Mlx4
