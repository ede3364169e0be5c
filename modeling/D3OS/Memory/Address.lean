import D3OS.Base.Rust

/-!
# Addresses, pages and frames

The address types of the paging code: canonical 48-bit virtual addresses, 52-bit
physical addresses, 4 KiB pages and frames, and half-open ranges of them. Each
type carries its invariant, so that a non-canonical address or a frame beyond the
physical address space cannot be built; the operations that would leave the range
panic. `page_table_index` is `os/kernel/src/memory/pages.rs:46`.
-/

namespace D3OS.Memory

open Lib

/-- `PAGE_SIZE`, `os/kernel/src/memory/mod.rs:40`. -/
def pageSize : Nat := 0x1000

/-- A canonical virtual address: bits 47 to 63 are equal. -/
structure VirtAddr where
  asU64 : Nat
  canonical : asU64 < 2 ^ 47 ∨ (2 ^ 64 - 2 ^ 47 ≤ asU64 ∧ asU64 < 2 ^ 64)
  deriving DecidableEq

/-- A physical address of at most 52 bits. -/
structure PhysAddr where
  asU64 : Nat
  lt : asU64 < 2 ^ 52
  deriving DecidableEq

/-- A 4 KiB page, named by its number; its start address is canonical. -/
structure Page where
  number : Nat
  canonical : number < 2 ^ 35 ∨ (2 ^ 52 - 2 ^ 35 ≤ number ∧ number < 2 ^ 52)
  deriving DecidableEq

/-- A 4 KiB frame, named by its number. -/
structure PhysFrame where
  number : Nat
  lt : number < 2 ^ 40
  deriving DecidableEq

/-- The pages from `start` up to but excluding `stop`. -/
structure PageRange where
  start : Page
  stop : Page
  deriving DecidableEq

/-- The frames from `start` up to but excluding `stop`. -/
structure PhysFrameRange where
  start : PhysFrame
  stop : PhysFrame
  deriving DecidableEq

variable {n : Nat}

namespace VirtAddr

variable {a : VirtAddr}

/-- Equal numbers are equal addresses. -/
@[ext] theorem ext {b : VirtAddr} (h : a.asU64 = b.asU64) : a = b := by
  cases a
  cases b
  cases h
  rfl

/-- `VirtAddr::try_new`. -/
def tryNew (addr : Nat) : Option VirtAddr :=
  if h : addr < 2 ^ 47 ∨ (2 ^ 64 - 2 ^ 47 ≤ addr ∧ addr < 2 ^ 64) then some ⟨addr, h⟩ else none

/-- `VirtAddr::new`, which panics on a non-canonical address. -/
def new (addr : Nat) : Except Panic VirtAddr :=
  match tryNew addr with
  | some a => .ok a
  | none => .error .notCanonical

/-- `VirtAddr + u64`. -/
def add (a : VirtAddr) (n : Nat) : Except Panic VirtAddr :=
  match checkedAdd a.asU64 n with
  | some sum => new sum
  | none => .error .overflow

/-- `VirtAddr - u64`. -/
def sub (a : VirtAddr) (n : Nat) : Except Panic VirtAddr := do
  let difference ← subOrPanic a.asU64 n
  new difference

/-- `VirtAddr::align_down` to the page size. -/
def alignDown (a : VirtAddr) : VirtAddr :=
  ⟨a.asU64 / pageSize * pageSize, by
    have h := a.canonical
    simp only [pageSize]
    omega⟩

variable {addr : Nat}

/-- A successful construction keeps the number. -/
theorem tryNew_eq_some (h : tryNew addr = some a) : a.asU64 = addr := by
  unfold tryNew at h
  split at h
  · exact (congrArg VirtAddr.asU64 (Option.some.inj h)).symm
  · exact absurd h (by simp)

/-- Construction recovers every canonical address. -/
theorem tryNew_asU64 (a : VirtAddr) : tryNew a.asU64 = some a := by
  rw [tryNew, dif_pos a.canonical]

/-- Checked construction recovers every canonical address. -/
theorem new_asU64 (a : VirtAddr) : new a.asU64 = .ok a := by
  rw [new, tryNew_asU64]

/-- Construction that panics succeeds where the other one does. -/
theorem new_eq_ok : new addr = .ok a ↔ tryNew addr = some a := by
  unfold new
  cases tryNew addr with
  | none | some b => simp

/-- Every address of the lower half can be built. -/
theorem new_of_lt (h : addr < 2 ^ 47) : new addr = .ok ⟨addr, .inl h⟩ :=
  new_asU64 ⟨addr, .inl h⟩

/-- A sum that stays in the lower half. -/
theorem add_of_lt (h : a.asU64 + n < 2 ^ 47) : a.add n = .ok ⟨a.asU64 + n, .inl h⟩ := by
  have hu64 : a.asU64 + n < u64Bound := by
    simp only [u64Bound]
    omega
  rw [add, checkedAdd, if_pos hu64]
  exact new_of_lt h

private theorem add_eq_ok {b : VirtAddr} (h : a.add n = .ok b) : b.asU64 = a.asU64 + n := by
  unfold add checkedAdd at h
  split at h
  next sum hsum =>
    split at hsum
    next =>
      cases hsum
      exact tryNew_eq_some (new_eq_ok.mp h)
    next => cases hsum
  next => cases h

/-- The sum, or it is not canonical. -/
theorem add_yields (a : VirtAddr) (n : Nat) :
    Yields (a.add n) (fun b ↦ b.asU64 = a.asU64 + n) (fun _ ↦ 2 ^ 47 ≤ a.asU64 + n) := by
  refine yields_of_eq (fun b ↦ add_eq_ok) fun e he ↦ ?_
  by_contra hlt
  rw [add_of_lt (Nat.lt_of_not_le hlt)] at he
  cases he

/-- `new` panics where `try_new` fails. -/
theorem tryNew_of_new_eq_error {reason : Panic} (h : new addr = .error reason) :
    tryNew addr = none := by
  unfold new at h
  cases htry : tryNew addr with
  | none => rfl
  | some a =>
    rw [htry] at h
    cases h

end VirtAddr

namespace Page

/-- Equal numbers are equal pages. -/
@[ext] theorem ext {p q : Page} (h : p.number = q.number) : p = q := by
  cases p
  cases q
  cases h
  rfl

/-- `Page::start_address`. -/
def startAddress (p : Page) : VirtAddr :=
  ⟨p.number * pageSize, by
    have h := p.canonical
    simp only [pageSize]
    omega⟩

/-- `Page::containing_address`. -/
def containingAddress (a : VirtAddr) : Page :=
  ⟨a.asU64 / pageSize, by
    have h := a.canonical
    simp only [pageSize]
    omega⟩

/-- The start of a page is in it. -/
@[simp] theorem containingAddress_startAddress (p : Page) :
    containingAddress p.startAddress = p :=
  Page.ext (Nat.mul_div_cancel _ (by decide))

/-- `Page::from_start_address`, an error for an address that is not page aligned. -/
def fromStartAddress (a : VirtAddr) : Option Page :=
  if a.asU64 % pageSize = 0 then some (containingAddress a) else none

/-- `Page + u64`, which panics when the sum leaves the canonical range. -/
def add (p : Page) (n : Nat) : Except Panic Page :=
  if h : p.number + n < 2 ^ 35 ∨ (2 ^ 52 - 2 ^ 35 ≤ p.number + n ∧ p.number + n < 2 ^ 52) then
    .ok ⟨p.number + n, h⟩
  else .error .notCanonical

/-- The page that an addition returns. -/
theorem number_of_add {p q : Page} {n : Nat} (h : p.add n = .ok q) : q.number = p.number + n := by
  unfold add at h
  split at h
  next => cases h; rfl
  next => cases h

/-- `Page - u64`, which panics when the difference leaves the canonical range. -/
def subNumber (p : Page) (n : Nat) : Except Panic Page := do
  let difference ← subOrPanic p.number n
  if h : difference < 2 ^ 35 ∨ (2 ^ 52 - 2 ^ 35 ≤ difference ∧ difference < 2 ^ 52) then
    .ok ⟨difference, h⟩
  else .error .notCanonical

/-- `Page - Page`, the number of pages between two pages. -/
def sub (p q : Page) : Except Panic Nat := subOrPanic p.number q.number

end Page

namespace PageRange

/-- The page is one of the range. -/
def Contains (r : PageRange) (p : Page) : Prop :=
  r.start.number ≤ p.number ∧ p.number < r.stop.number

/-- The address lies in a page of the range. -/
def ContainsAddr (r : PageRange) (a : VirtAddr) : Prop := r.Contains (Page.containingAddress a)

instance (r : PageRange) (p : Page) : Decidable (r.Contains p) :=
  inferInstanceAs (Decidable (_ ∧ _))

instance (r : PageRange) (a : VirtAddr) : Decidable (r.ContainsAddr a) :=
  inferInstanceAs (Decidable (r.Contains _))

/-- `PageRange::is_empty`. -/
def isEmpty (r : PageRange) : Bool := r.stop.number ≤ r.start.number

/-- `PageRange::len`. -/
def len (r : PageRange) : Nat := r.stop.number - r.start.number

/-- The whole range lies in the lower canonical half. -/
def Lower (r : PageRange) : Prop := r.stop.number < 2 ^ 35

/-- The range does not reach over the non-canonical hole. -/
def OneHalf (r : PageRange) : Prop := r.stop.number < 2 ^ 35 ∨ 2 ^ 52 - 2 ^ 35 ≤ r.start.number

/-- The rest of a range lies in the same half. -/
theorem OneHalf.rest {r r' : PageRange} (h : r.OneHalf) (hs : r.start.number ≤ r'.start.number)
    (he : r'.stop = r.stop) : r'.OneHalf := by
  rcases h with hlo | hhi
  · exact .inl (he ▸ hlo)
  · exact .inr (Nat.le_trans hhi hs)

instance (r : PageRange) : Decidable r.Lower := inferInstanceAs (Decidable (_ < _))

instance (r : PageRange) : Decidable r.OneHalf := inferInstanceAs (Decidable (_ ∨ _))

end PageRange

/-- `PhysAddr::new`, which panics beyond 52 bits. -/
def PhysAddr.new (n : Nat) : Except Panic PhysAddr :=
  if h : n < 2 ^ 52 then .ok ⟨n, h⟩ else .error .physicalRange

/-- A successful construction keeps the number. -/
theorem PhysAddr.asU64_of_new {a : PhysAddr} (h : PhysAddr.new n = .ok a) : a.asU64 = n := by
  unfold PhysAddr.new at h
  split at h
  next => exact congrArg PhysAddr.asU64 (Except.ok.inj h).symm
  next => cases h

namespace PhysFrame

/-- Frame 0. -/
def zero : PhysFrame := ⟨0, by decide⟩

variable {f : PhysFrame}

/-- Equal numbers are equal frames. -/
@[ext] theorem ext {g : PhysFrame} (h : f.number = g.number) : f = g := by
  cases f
  cases g
  cases h
  rfl

/-- `PhysFrame + u64`, which panics beyond the physical address space. -/
def add (f : PhysFrame) (n : Nat) : Except Panic PhysFrame :=
  if h : f.number + n < 2 ^ 40 then .ok ⟨f.number + n, h⟩ else .error .physicalRange

/-- The frame that an addition returns. -/
theorem number_of_add {g : PhysFrame} (h : f.add n = .ok g) : g.number = f.number + n := by
  unfold add at h
  split at h
  next => cases h; rfl
  next => cases h

/-- The frame of an address has a number. -/
theorem div_pageSize_lt (a : PhysAddr) : a.asU64 / pageSize < 2 ^ 40 := by
  have h := a.lt
  simp only [pageSize]
  omega

/-- `PhysFrame::from_start_address`, none for an address that is not aligned. -/
def fromStartAddress (a : PhysAddr) : Option PhysFrame :=
  if a.asU64 % pageSize = 0 then some ⟨a.asU64 / pageSize, div_pageSize_lt a⟩ else none

/-- The frame that starts at an address. -/
theorem number_of_fromStartAddress {a : PhysAddr} (h : fromStartAddress a = some f) :
    f.number * pageSize = a.asU64 := by
  unfold fromStartAddress at h
  split at h
  next haligned =>
    rw [← Option.some.inj h]
    exact Nat.div_mul_cancel (Nat.dvd_of_mod_eq_zero haligned)
  next => cases h

/-- `PhysFrame::start_address`. -/
def startAddress (f : PhysFrame) : PhysAddr :=
  ⟨f.number * pageSize, by
    have h := f.lt
    simp only [pageSize]
    omega⟩

end PhysFrame

/-- `PhysFrameRange::len`. -/
def PhysFrameRange.len (r : PhysFrameRange) : Nat := r.stop.number - r.start.number

namespace PhysFrameRange

/-- The frame is one of the range. -/
def Contains (r : PhysFrameRange) (f : PhysFrame) : Prop :=
  r.start.number ≤ f.number ∧ f.number < r.stop.number

instance (r : PhysFrameRange) (f : PhysFrame) : Decidable (r.Contains f) :=
  inferInstanceAs (Decidable (_ ∧ _))

/-- The frames of the range in ascending order. -/
def frames (r : PhysFrameRange) : List PhysFrame :=
  (List.finRange r.len).map fun i : Fin r.len ↦ ⟨r.start.number + i, by
    have h := r.stop.lt
    have hi := i.isLt
    simp only [len] at hi
    omega⟩

/-- The frames of a range. -/
theorem mem_frames {r : PhysFrameRange} {f : PhysFrame} : f ∈ r.frames ↔ r.Contains f := by
  simp only [frames, List.mem_map, List.mem_finRange, true_and, Contains]
  constructor
  · rintro ⟨i, rfl⟩
    have hi := i.isLt
    simp only [len] at hi ⊢
    omega
  · rintro ⟨hle, hlt⟩
    refine ⟨⟨f.number - r.start.number, by simp only [len]; omega⟩, ?_⟩
    apply PhysFrame.ext
    show r.start.number + (f.number - r.start.number) = f.number
    omega

/-- A range lists no frame twice. -/
theorem nodup_frames (r : PhysFrameRange) : r.frames.Nodup := by
  refine List.Pairwise.map _ ?_ (List.nodup_finRange r.len)
  intro i j hne h
  have hnum := congrArg PhysFrame.number h
  exact hne (Fin.ext (Nat.add_left_cancel hnum))

end PhysFrameRange

/-- `page_table_index`: nine bits of the page number, `pages.rs:46`. -/
def pageTableIndex (addr : VirtAddr) (level : Nat) : Fin 512 :=
  ⟨addr.asU64 >>> 12 >>> ((level - 1) * 9) % 2 ^ 16 % 512, Nat.mod_lt _ (by decide)⟩

end D3OS.Memory
