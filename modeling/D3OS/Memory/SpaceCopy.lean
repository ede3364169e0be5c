import D3OS.Memory.PhysMem

/-!
# Copying into another address space

`copy_to_addr_space`, `os/kernel/src/memory/vmm.rs:582`. The target space is not loaded, so
the bytes are copied page by page to the frames behind its pages. The source is read through
a pointer; which addresses are read is recorded.
-/

namespace D3OS.Memory

open Lib

/-- A buffer, and what stands around it in the memory of the kernel. Addresses count from the
start of the buffer, modulo `2 ^ 64`. -/
structure Source where
  buffer : List UInt8
  around : Nat → UInt8

/-- The byte at an address. -/
def Source.byte (src : Source) (addr : Nat) : UInt8 :=
  src.buffer.getD (addr % u64Bound) (src.around (addr % u64Bound))

/-- Memory that was written to, and the reads from a source as address and length. -/
structure Transfer where
  mem : PhysMem
  reads : List (Nat × Nat)

namespace Transfer

/-- `dest.copy_from(source_addr, len)`. -/
def copyFrom (t : Transfer) (dest : Nat) (src : Source) (addr len : Nat) : Transfer :=
  ⟨t.mem.store dest (slice src.byte addr len), t.reads ++ [(addr, len)]⟩

/-- `dest.write_bytes(0, len)`. -/
def writeZeroes (t : Transfer) (dest len : Nat) : Transfer :=
  { t with mem := t.mem.store dest (List.replicate len 0) }

/-- The address was read. -/
def WasRead (t : Transfer) (x : Nat) : Prop :=
  ∃ r ∈ t.reads, ∃ i < r.2, x = (r.1 + i) % u64Bound

@[simp] private theorem wasRead_copyFrom {t : Transfer} {dest addr len x : Nat} {src : Source} :
    (t.copyFrom dest src addr len).WasRead x ↔
      t.WasRead x ∨ ∃ i < len, x = (addr + i) % u64Bound := by
  simp [copyFrom, WasRead, or_and_right, exists_or]

end Transfer

/-- The number of pages that some bytes take, `vmm.rs:586-590`. -/
def pagesToCopy (totalBytes : Nat) : Nat :=
  if totalBytes % pageSize = 0 then totalBytes / pageSize else totalBytes / pageSize + 1

namespace VirtualAddressSpace

/-- `get_phys(..).expect(..)`. -/
def physOf (space : VirtualAddressSpace) (addr : Nat) : Except Panic Nat := do
  let phys ← space.getPhys addr
  let phys ← unwrap phys
  .ok phys.asU64

/-- The loop over the pages, `vmm.rs:607-628`. The result has the last target. -/
def copyPages (destSpace : VirtualAddressSpace) (destStart : Nat) (src : Source)
    (srcPtr totalBytes : Nat) :
    Nat → Nat → Nat → Transfer → Except Panic (Nat × Transfer)
  | 0, _, dest, t => .ok (dest, t)
  | n + 1, offset, _, t => do
    let dest ← destSpace.physOf (destStart + offset)
    let rest ← subOrPanic totalBytes offset
    let bytesToCopy := if rest < pageSize then rest else pageSize
    copyPages destSpace destStart src srcPtr totalBytes n (offset + bytesToCopy) dest
      (t.copyFrom dest src (srcPtr + offset) bytesToCopy)

/-- `copy_to_addr_space`, `vmm.rs:582`, with `fill_up_with_zeroes`. -/
def copyToAddrSpace (destSpace : VirtualAddressSpace) (destVma : VirtualMemoryArea)
    (src : Source) (srcPtr totalBytes : Nat) (t : Transfer) : Except Panic Transfer := do
  if destVma.range.len * pageSize < totalBytes then .error .assertion
  else do
    let destStart := destVma.range.start.startAddress.asU64
    let dest ← destSpace.physOf destStart
    let (dest, t) ← copyPages destSpace destStart src srcPtr totalBytes (pagesToCopy totalBytes) 0
      dest t
    let tail := totalBytes % pageSize
    .ok (if tail ≠ 0 then t.writeZeroes (dest + tail) (pageSize - tail) else t)

/-- The loop that zeroes pages, `os/kernel/src/process/thread.rs:431-446`. -/
def zeroPages (space : VirtualAddressSpace) (destStart : Nat) :
    Nat → Nat → Transfer → Except Panic Transfer
  | 0, _, t => .ok t
  | n + 1, destOffset, t => do
    let dest ← space.physOf (destStart + destOffset)
    zeroPages space destStart n (destOffset + pageSize) (t.writeZeroes dest pageSize)

end VirtualAddressSpace

/-- From the first memory to the second the first `n` bytes of the frames, taken in order,
became the given content, and no other byte changed. -/
structure FramesHold (frames : List PhysFrame) (content : Nat → UInt8) (n : Nat)
    (mem mem' : PhysMem) : Prop where
  inside : frames.Nodup → ∀ i f, frames[i]? = some f → ∀ o < pageSize, i * pageSize + o < n →
    mem'.byte (f.number * pageSize + o) = content (i * pageSize + o)
  outside : ∀ x, (∀ f ∈ frames, x < f.number * pageSize ∨ f.number * pageSize + pageSize ≤ x) →
    mem'.byte x = mem.byte x

section

variable {frames : List PhysFrame} {content : Nat → UInt8} {n : Nat} {mem mem' : PhysMem}

private theorem FramesHold.zero (frames : List PhysFrame) (content : Nat → UInt8) (mem : PhysMem) :
    FramesHold frames content 0 mem mem :=
  ⟨fun _ _ _ _ _ _ h ↦ absurd h (Nat.not_lt_zero _), fun _ _ ↦ rfl⟩

private theorem FramesHold.store (h : FramesHold frames content n mem mem') {k o : Nat}
    {f : PhysFrame}
    (hf : frames[k]? = some f) (hn : n = k * pageSize + o) {data : List UInt8}
    (hlen : o + data.length ≤ pageSize)
    (hdata : ∀ i, (hi : i < data.length) → data[i] = content (n + i)) :
    FramesHold frames content (n + data.length) mem
      (mem'.store (f.number * pageSize + o) data) where
  inside hnodup i g hg o' ho' hlt := by
    show patch mem'.byte _ _ _ = _
    by_cases hik : i = k
    · subst hik
      rw [hf] at hg
      cases hg
      by_cases hnew : o ≤ o'
      · obtain ⟨j, rfl⟩ := Nat.exists_eq_add_of_le hnew
        have hj : j < data.length := by omega
        rw [← Nat.add_assoc, patch_of_lt hj, hdata j hj, hn, Nat.add_assoc]
      · rw [patch_of_outside (.inl (by omega))]
        exact h.inside hnodup i f hf o' ho' (by omega)
    · -- Another frame has another number, so its bytes are not touched.
      have hne : g.number ≠ f.number := by
        intro heq
        obtain ⟨hi, hgi⟩ := List.getElem?_eq_some_iff.mp hg
        obtain ⟨hk, hfk⟩ := List.getElem?_eq_some_iff.mp hf
        have hsame : frames[i] = frames[k] := by
          rw [hgi, hfk]
          exact PhysFrame.ext heq
        exact hik ((List.Nodup.getElem_inj_iff hnodup).mp hsame)
      have hfar : g.number * pageSize + o' < f.number * pageSize + o ∨
          f.number * pageSize + o + data.length ≤ g.number * pageSize + o' := by
        simp only [pageSize] at hlen ho' ⊢
        omega
      have hbefore : i * pageSize + o' < n := by
        simp only [pageSize] at hlen ho' hn hlt ⊢
        omega
      rw [patch_of_outside hfar]
      exact h.inside hnodup i g hg o' ho' hbefore
  outside x hx := by
    have hfar := hx f (List.mem_of_getElem? hf)
    show patch mem'.byte _ _ _ = _
    rw [patch_of_outside (by omega)]
    exact h.outside x hx

end

namespace VirtualAddressSpace

section

variable {space : VirtualAddressSpace} {destStart : Nat} {frames : List PhysFrame}
  {content : Nat → UInt8} {mem : PhysMem} {src : Source} {srcPtr totalBytes : Nat}

/-- The pages from an address on are those of the frames. -/
def OnFrames (space : VirtualAddressSpace) (destStart : Nat) (frames : List PhysFrame) : Prop :=
  ∀ k f, frames[k]? = some f →
    space.physOf (destStart + k * pageSize) = .ok (f.number * pageSize)

/-- What a segment contains: the bytes of the file and zeroes behind them. -/
def segmentByte (src : Source) (srcPtr totalBytes x : Nat) : UInt8 :=
  if x < totalBytes then src.byte (srcPtr + x) else 0

/-- As many pages as hold the bytes. -/
theorem pagesToCopy_le {n : Nat} (h : totalBytes ≤ n * pageSize) :
    pagesToCopy totalBytes ≤ n := by
  by_cases hmod : totalBytes % pageSize = 0
  · rw [pagesToCopy, if_pos hmod]
    simp only [pageSize] at h hmod ⊢
    omega
  · rw [pagesToCopy, if_neg hmod]
    simp only [pageSize] at h hmod ⊢
    omega

private theorem mul_lt_of_lt_pagesToCopy {k : Nat} (h : k < pagesToCopy totalBytes) :
    k * pageSize < totalBytes := by
  by_cases hmod : totalBytes % pageSize = 0
  · rw [pagesToCopy, if_pos hmod] at h
    simp only [pageSize] at h hmod ⊢
    omega
  · rw [pagesToCopy, if_neg hmod] at h
    simp only [pageSize] at h hmod ⊢
    omega

/-- The pages hold the bytes. -/
theorem le_mul_pagesToCopy (totalBytes : Nat) :
    totalBytes ≤ pagesToCopy totalBytes * pageSize := by
  by_cases hmod : totalBytes % pageSize = 0
  · rw [pagesToCopy, if_pos hmod]
    simp only [pageSize] at hmod ⊢
    omega
  · rw [pagesToCopy, if_neg hmod]
    simp only [pageSize] at hmod ⊢
    omega

section

variable (hon : space.OnFrames destStart frames)
  (hframes : pagesToCopy totalBytes ≤ frames.length)
include hon hframes

private theorem copyPages_yields (t₀ : Transfer) {n k : Nat} (dest : Nat)
    {t : Transfer} (hk : k + n = pagesToCopy totalBytes)
    (hhold : FramesHold frames (segmentByte src srcPtr totalBytes)
      (min (k * pageSize) totalBytes) mem t.mem)
    (hreads : ∀ x, t.WasRead x ↔ t₀.WasRead x ∨
      ∃ j < min (k * pageSize) totalBytes, x = (srcPtr + j) % u64Bound)
    (hdest : ∀ f, k ≠ 0 → frames[k - 1]? = some f → dest = f.number * pageSize) :
    Yields (copyPages space destStart src srcPtr totalBytes n (min (k * pageSize) totalBytes) dest
        t)
      (fun r ↦ FramesHold frames (segmentByte src srcPtr totalBytes) totalBytes mem r.2.mem ∧
        (∀ x, r.2.WasRead x ↔ t₀.WasRead x ∨ ∃ j < totalBytes, x = (srcPtr + j) % u64Bound) ∧
        ∀ f, totalBytes ≠ 0 → frames[pagesToCopy totalBytes - 1]? = some f →
          r.1 = f.number * pageSize) (fun _ ↦ False) := by
  induction n generalizing k dest t with
  | zero =>
    rw [Nat.add_zero] at hk
    have hall : min (k * pageSize) totalBytes = totalBytes :=
      Nat.min_eq_right (hk ▸ le_mul_pagesToCopy totalBytes)
    rw [hall] at hhold hreads
    refine ⟨hhold, hreads, fun f hne hf ↦ hdest f ?_ (hk ▸ hf)⟩
    rintro rfl
    omega
  | succ n ih =>
    have hlt : k * pageSize < totalBytes := mul_lt_of_lt_pagesToCopy (by omega)
    have hmin : min (k * pageSize) totalBytes = k * pageSize := Nat.min_eq_left hlt.le
    rw [hmin] at hhold hreads ⊢
    obtain ⟨f, hf⟩ : ∃ f, frames[k]? = some f :=
      ⟨_, List.getElem?_eq_getElem (by omega)⟩
    rw [copyPages, hon k f hf, subOrPanic_of_le hlt.le]
    show Yields (copyPages _ _ _ _ _ _ _ _ _) _ _
    have hbytes : (if totalBytes - k * pageSize < pageSize then totalBytes - k * pageSize
        else pageSize) = min pageSize (totalBytes - k * pageSize) := by
      by_cases h : totalBytes - k * pageSize < pageSize
      · rw [if_pos h, Nat.min_eq_right h.le]
      · rw [if_neg h, Nat.min_eq_left (Nat.le_of_not_lt h)]
    have hnext : k * pageSize + min pageSize (totalBytes - k * pageSize) =
        min ((k + 1) * pageSize) totalBytes := by
      simp only [pageSize] at hlt ⊢
      omega
    rw [hbytes, hnext]
    refine ih _ (by omega) ?_ ?_ ?_
    · have hlen : 0 + (slice src.byte (srcPtr + k * pageSize)
          (min pageSize (totalBytes - k * pageSize))).length ≤ pageSize := by
        rw [length_slice, Nat.zero_add]
        exact Nat.min_le_left _ _
      have hstore := hhold.store hf (Nat.add_zero _).symm hlen ?_
      · rw [length_slice, hnext, Nat.add_zero (f.number * pageSize)] at hstore
        exact hstore
      · intro i hi
        rw [length_slice] at hi
        simp only [slice, List.getElem_map, List.getElem_range, segmentByte]
        rw [if_pos (by omega), Nat.add_assoc]
    · intro x
      rw [Transfer.wasRead_copyFrom, hreads]
      constructor
      · rintro ((h | ⟨j, hj, rfl⟩) | ⟨j, hj, rfl⟩)
        · exact .inl h
        · exact .inr ⟨j, by omega, rfl⟩
        · exact .inr ⟨k * pageSize + j, by omega, by rw [Nat.add_assoc]⟩
      · rintro (h | ⟨j, hj, rfl⟩)
        · exact .inl (.inl h)
        · by_cases hjk : j < k * pageSize
          · exact .inl (.inr ⟨j, hjk, rfl⟩)
          · refine .inr ⟨j - k * pageSize, by omega, ?_⟩
            rw [Nat.add_assoc, Nat.add_sub_of_le (by omega)]
    · intro g _ hg
      rw [Nat.add_sub_cancel, hf] at hg
      cases hg
      rfl

private theorem copyAll_yields (dest : Nat) (t : Transfer) :
    Yields (copyPages space destStart src srcPtr totalBytes (pagesToCopy totalBytes) 0 dest t)
      (fun r ↦ FramesHold frames (segmentByte src srcPtr totalBytes) totalBytes t.mem r.2.mem ∧
        (∀ x, r.2.WasRead x ↔ t.WasRead x ∨ ∃ j < totalBytes, x = (srcPtr + j) % u64Bound) ∧
        ∀ f, totalBytes ≠ 0 → frames[pagesToCopy totalBytes - 1]? = some f →
          r.1 = f.number * pageSize) (fun _ ↦ False) := by
  have hzero : min (0 * pageSize) totalBytes = 0 := by
    rw [Nat.zero_mul, Nat.zero_min]
  have hhold : FramesHold frames (segmentByte src srcPtr totalBytes)
      (min (0 * pageSize) totalBytes) t.mem t.mem := by
    exact .zero _ _ _
  have hreads : ∀ x, t.WasRead x ↔ t.WasRead x ∨
      ∃ j < min (0 * pageSize) totalBytes, x = (srcPtr + j) % u64Bound := by
    intro x
    simp only [hzero, Nat.not_lt_zero, false_and, exists_false, or_false]
  have hloop := copyPages_yields hon hframes t dest (Nat.zero_add _) hhold hreads
    fun _ h ↦ absurd rfl h
  exact hloop

end

/-- `copy_to_addr_space` fills the pages that the bytes take. -/
theorem copyToAddrSpace_yields {vma : VirtualMemoryArea} (t : Transfer)
    (hon : space.OnFrames vma.range.start.startAddress.asU64 frames)
    (hlen : frames.length = vma.range.len) (hpos : 0 < frames.length)
    (hfit : totalBytes ≤ vma.range.len * pageSize) :
    Yields (space.copyToAddrSpace vma src srcPtr totalBytes t)
      (fun t' ↦ FramesHold frames (segmentByte src srcPtr totalBytes)
          (pagesToCopy totalBytes * pageSize) t.mem t'.mem ∧
        ∀ x, t'.WasRead x ↔ t.WasRead x ∨ ∃ j < totalBytes, x = (srcPtr + j) % u64Bound)
      (fun _ ↦ False) := by
  have hpages : pagesToCopy totalBytes ≤ frames.length := hlen ▸ pagesToCopy_le hfit
  have hfirst := hon 0 _ (List.getElem?_eq_getElem hpos)
  rw [Nat.zero_mul, Nat.add_zero] at hfirst
  rw [copyToAddrSpace, if_neg (by omega)]
  dsimp only
  rw [hfirst]
  apply (copyAll_yields hon hpages _ t).bind
  rintro ⟨dest, t'⟩ ⟨hhold, hreads, hdest⟩
  by_cases htail : totalBytes % pageSize = 0
  · have hall : pagesToCopy totalBytes * pageSize = totalBytes := by
      rw [pagesToCopy, if_pos htail, Nat.div_mul_cancel (Nat.dvd_of_mod_eq_zero htail)]
    simp only [htail, ne_eq, not_true_eq_false, if_false]
    rw [hall]
    exact ⟨hhold, hreads⟩
  · simp only [ne_eq, htail, not_false_eq_true, if_true]
    have hcount : pagesToCopy totalBytes = totalBytes / pageSize + 1 := if_neg htail
    have hne : totalBytes ≠ 0 := by
      rintro rfl
      exact htail (Nat.zero_mod _)
    obtain ⟨f, hf⟩ : ∃ f, frames[totalBytes / pageSize]? = some f :=
      ⟨_, List.getElem?_eq_getElem (by omega)⟩
    have hdest : dest = f.number * pageSize := by
      apply hdest f hne
      rw [hcount, Nat.add_sub_cancel, hf]
    have hsplit : totalBytes = totalBytes / pageSize * pageSize + totalBytes % pageSize := by
      rw [Nat.mul_comm, Nat.div_add_mod]
    have hmod : totalBytes % pageSize < pageSize := Nat.mod_lt _ (by decide)
    have hlen : totalBytes % pageSize +
        (List.replicate (pageSize - totalBytes % pageSize) (0 : UInt8)).length ≤ pageSize := by
      rw [List.length_replicate]
      omega
    have hstore := hhold.store hf hsplit hlen ?_
    · have hend : totalBytes + (pageSize - totalBytes % pageSize) =
          pagesToCopy totalBytes * pageSize := by
        rw [hcount, Nat.add_mul, Nat.one_mul]
        omega
      rw [List.length_replicate, hend, ← hdest] at hstore
      exact ⟨hstore, hreads⟩
    · intro i hi
      rw [List.getElem_replicate, segmentByte, if_neg (by omega)]

/-- The pages from page `k` on are filled with zeroes. -/
theorem zeroPages_yields (hon : space.OnFrames destStart frames) {n k : Nat} {t : Transfer}
    (t₀ : Transfer) (hk : k + n ≤ frames.length)
    (hcontent : ∀ x, k * pageSize ≤ x → content x = 0)
    (hhold : FramesHold frames content (k * pageSize) mem t.mem)
    (hreads : ∀ x, t.WasRead x ↔ t₀.WasRead x) :
    Yields (zeroPages space destStart n (k * pageSize) t)
      (fun t' ↦ FramesHold frames content ((k + n) * pageSize) mem t'.mem ∧
        ∀ x, t'.WasRead x ↔ t₀.WasRead x) (fun _ ↦ False) := by
  induction n generalizing k t with
  | zero => exact ⟨hhold, hreads⟩
  | succ n ih =>
    obtain ⟨f, hf⟩ : ∃ f, frames[k]? = some f := ⟨_, List.getElem?_eq_getElem (by omega)⟩
    have hnext : k * pageSize + pageSize = (k + 1) * pageSize := by
      rw [Nat.add_mul, Nat.one_mul]
    have hlen : 0 + (List.replicate pageSize (0 : UInt8)).length ≤ pageSize := by
      rw [List.length_replicate, Nat.zero_add]
    have hstore := hhold.store hf (Nat.add_zero _).symm hlen ?_
    · rw [List.length_replicate, hnext, Nat.add_zero (f.number * pageSize)] at hstore
      rw [zeroPages, hon k f hf]
      rw [hnext, ← Nat.add_assoc, Nat.add_right_comm]
      exact ih (by omega) (fun x hx ↦ hcontent x (by omega)) hstore hreads
    · intro i hi
      rw [List.getElem_replicate, hcontent _ (Nat.le_add_right _ _)]

end

end VirtualAddressSpace

end D3OS.Memory
