import D3OS.Lib.Stateful
import D3OS.Memory.UserMappings

/-!
# Copies between the kernel and a process

`copy_bytes_to_user` and `copy_bytes_from_user` of `os/kernel/src/memory/vmm.rs`. They check
that the bytes belong to the user part of the address space and that their pages are mapped,
not that the processor grants the access: what it does not grant ends in the page fault handler
of `os/kernel/src/interrupt/interrupt_dispatcher.rs`.
-/

namespace D3OS.Memory

open Lib

/-- The ways a kernel function that fails with an `ε` does not return: with that error, with a
panic, or with a page fault that the handler does not resolve, which also ends the kernel. -/
inductive Stop (ε : Type) where
  | error (e : ε)
  | panic (reason : Panic)
  | pageFault
  deriving DecidableEq, Repr

namespace Stop

variable {ε ε' : Type}

/-- Another error in place of an error. -/
def map (f : ε → ε') : Stop ε → Stop ε'
  | error e => error (f e)
  | panic reason => panic reason
  | pageFault => pageFault

/-- The function has returned an error. -/
def IsError : Stop ε → Prop
  | error _ => True
  | panic _ => False
  | pageFault => False

/-- An error is one. -/
@[simp] theorem isError_error (e : ε) : (error e).IsError := trivial

/-- A panic is no error. -/
@[simp] theorem not_isError_panic (reason : Panic) : ¬ (panic reason : Stop ε).IsError := id

@[simp] private theorem not_isError_pageFault : ¬ (pageFault : Stop ε).IsError := id

/-- Another error is still one. -/
@[simp] theorem isError_map {f : ε → ε'} {stop : Stop ε} : (stop.map f).IsError ↔ stop.IsError := by
  cases stop <;> exact Iff.rfl

/-- The error that was returned. -/
theorem IsError.exists_eq {stop : Stop ε} (h : stop.IsError) : ∃ e, stop = error e := by
  cases stop with
  | error e => exact ⟨e, rfl⟩
  | panic reason | pageFault => exact h.elim

end Stop

/-- Lift a panic into code that also returns errors. -/
def orStop {ε α : Type} : Except Panic α → Except (Stop ε) α
  | .ok a => .ok a
  | .error reason => .error (.panic reason)

/-- Run a computation with another error in place of its own. -/
def mapStop {ε ε' σ α : Type} (f : ε → ε') (m : EStateM (Stop ε) σ α) : EStateM (Stop ε') σ α :=
  fun s ↦
    match m s with
    | .ok a s => .ok a s
    | .error stop s => .error (stop.map f) s

/-- The rule for lifting a panic. -/
@[simp] theorem yields_orStop {ε α : Type} {m : Except Panic α} {Q : α → Prop}
    {E : Stop ε → Prop} :
    Yields (orStop m) Q E ↔
      (∀ a, m = .ok a → Q a) ∧ (∀ reason, m = .error reason → E (.panic reason)) := by
  cases m with
  | ok a | error reason => simp [orStop]

/-- The rule for changing the error. -/
@[simp] theorem ends_mapStop {ε ε' σ α : Type} {f : ε → ε'} {m : EStateM (Stop ε) σ α} {s : σ}
    {Q : α → σ → Prop} {E : Stop ε' → σ → Prop} :
    Ends (mapStop f m) s Q E ↔ Ends m s Q fun stop s' ↦ E (stop.map f) s' := by
  unfold Ends mapStop
  cases m s with
  | ok a s' | error stop s' => exact Iff.rfl

/-- The page with a number, none for a number in the non-canonical hole. -/
def Page.ofNumber (number : Nat) : Option Page :=
  if h : number < 2 ^ 35 ∨ (2 ^ 52 - 2 ^ 35 ≤ number ∧ number < 2 ^ 52) then some ⟨number, h⟩
  else none

/-- The pages of `first..=last`, which jumps over the non-canonical hole. -/
def Page.upTo (first last : Page) : List Page :=
  (List.range' first.number (last.number + 1 - first.number)).filterMap Page.ofNumber

/-- `UserCopyError`, `vmm.rs:670`. -/
inductive UserCopyError where
  | noUserAccess
  | pageNotMapped
  deriving DecidableEq, Repr

namespace VirtualAddressSpace

/-- `ensure_user_page_is_mapped`, `vmm.rs:382`. -/
def ensureUserPageIsMapped (vas : VirtualAddressSpace) (page : Page) : Bool :=
  (vas.pageTables.translate page.startAddress).isSome

/-- The flags with which the page fault handler maps a page. -/
def faultFlags : PageTableFlags :=
  PageTableFlags.present ||| PageTableFlags.writable ||| PageTableFlags.userAccessible

/-- `handle_page_fault`, `interrupt_dispatcher.rs:214`, for a thread of a process: a page of a
stack, a heap or an anonymous area is mapped, everything else ends the kernel. -/
def handlePageFault {ε : Type} (page : Page) :
    EStateM (Stop ε) (VirtualAddressSpace × FrameAllocator) Unit := do
  let (vas, fa) ← get
  let area ← lift (orStop (vas.isAddressWithinVma page.startAddress.asU64))
  match area with
  | none => throw .pageFault
  | some vma =>
    if vma.typ = .userStack ∨ vma.typ = .heap ∨ vma.typ = .anonymous then
      let stop ← lift (orStop (page.add 1))
      let mapped ← lift (orStop (vas.mapPartialVma vma ⟨page, stop⟩ .user faultFlags fa))
      set mapped
    else throw .pageFault

/-- An access of the processor to a page. What the handler maps again without the right is
granted has the same fault again. -/
def access {ε : Type} (right : PageTableFlags) (page : Page) :
    EStateM (Stop ε) (VirtualAddressSpace × FrameAllocator) Unit := do
  let (vas, _) ← get
  if vas.pageTables.grants right page then return ()
  else
    handlePageFault page
    let (vas, _) ← get
    if vas.pageTables.grants right page then return () else throw .pageFault

/-- Access the pages one after the other. -/
def accessAll {ε : Type} (right : PageTableFlags) :
    List Page → EStateM (Stop ε) (VirtualAddressSpace × FrameAllocator) Unit
  | [] => pure ()
  | page :: rest => do
    access right page
    accessAll right rest

/-- The last of the bytes that are copied, `addr + size - 1`, computed from left to right. -/
def lastByte (addr : VirtAddr) (size : Nat) : Except Panic VirtAddr := do
  let stop ← addr.add size
  stop.sub 1

/-- The pages that hold the bytes. -/
def pagesOf (addr last : VirtAddr) : List Page :=
  Page.upTo (Page.containingAddress addr) (Page.containingAddress last)

/-- A copy of bytes of the process, with the right that the processor needs on their pages. -/
def copyBytes (right : PageTableFlags) (addr : VirtAddr) (size : Nat) :
    EStateM (Stop UserCopyError) (VirtualAddressSpace × FrameAllocator) Unit := do
  let (vas, _) ← get
  if vas.accessOk addr size = false then throw (.error .noUserAccess)
  else
    let last ← lift (orStop (lastByte addr size))
    if (pagesOf addr last).all vas.ensureUserPageIsMapped = false then
      throw (.error .pageNotMapped)
    else accessAll right (pagesOf addr last)

/-- `copy_bytes_to_user`, `vmm.rs:392`. -/
def copyBytesToUser : VirtAddr → Nat →
    EStateM (Stop UserCopyError) (VirtualAddressSpace × FrameAllocator) Unit :=
  copyBytes (PageTableFlags.present ||| PageTableFlags.writable)

/-- `copy_bytes_from_user`, `vmm.rs:409`. -/
def copyBytesFromUser : VirtAddr → Nat →
    EStateM (Stop UserCopyError) (VirtualAddressSpace × FrameAllocator) Unit :=
  copyBytes PageTableFlags.present

/-- The copy is refused: the bytes are not those of a user or a page of them is not mapped. -/
def CopyRefused (vas : VirtualAddressSpace) (addr : VirtAddr) (size : Nat) : Prop :=
  vas.accessOk addr size = false ∨
    ∃ last, lastByte addr size = .ok last ∧
      (pagesOf addr last).all vas.ensureUserPageIsMapped = false

/-- A copy that is refused after pages were mapped would have been refused before. -/
theorem Keeps.copyRefused {vas vas' : VirtualAddressSpace} (h : vas.Keeps vas') {addr : VirtAddr}
    {size : Nat} (hrefused : vas'.CopyRefused addr size) : vas.CopyRefused addr size := by
  refine hrefused.imp (fun haccess ↦ ?_) fun ⟨last, hlast, hpages⟩ ↦ ⟨last, hlast, ?_⟩
  · rwa [accessOk, h.first, h.last, ← accessOk] at haccess
  · rw [List.all_eq_false] at hpages ⊢
    obtain ⟨page, hmem, hpage⟩ := hpages
    exact ⟨page, hmem, mt (h.mapped _) hpage⟩

section

variable {right : PageTableFlags} {addr : VirtAddr} {size : Nat}
  {mapping : VirtualAddressSpace × FrameAllocator}

private theorem ends_copyBytes {Q : Unit → VirtualAddressSpace × FrameAllocator → Prop}
    {E : Stop UserCopyError → VirtualAddressSpace × FrameAllocator → Prop} :
    Ends (copyBytes right addr size) mapping Q E ↔
      (mapping.1.accessOk addr size = false → E (.error .noUserAccess) mapping) ∧
      (mapping.1.accessOk addr size = true →
        (∀ last, lastByte addr size = .ok last →
          ((pagesOf addr last).all mapping.1.ensureUserPageIsMapped = false →
            E (.error .pageNotMapped) mapping) ∧
          ((pagesOf addr last).all mapping.1.ensureUserPageIsMapped = true →
            Ends (accessAll right (pagesOf addr last)) mapping Q E)) ∧
        ∀ reason, lastByte addr size = .error reason → E (.panic reason) mapping) := by
  simp only [copyBytes, ends_bind, ends_get, ends_ite, ends_throw, ends_lift, yields_orStop,
    Bool.not_eq_false]

private theorem handlePageFault_ends {ε : Type} (page : Page) :
    Ends (handlePageFault page) mapping (fun _ mapping' ↦ mapping.1.Keeps mapping'.1)
      fun (e : Stop ε) _ ↦ ¬ e.IsError := by
  simp only [handlePageFault, ends_bind, ends_get, ends_lift, yields_orStop,
    Stop.not_isError_panic, not_false_eq_true, implies_true, and_true]
  intro area _
  cases area with
  | none => exact id
  | some vma =>
    simp only [ends_ite, ends_bind, ends_lift, ends_set, ends_throw, yields_orStop,
      Stop.not_isError_panic, Stop.not_isError_pageFault, not_false_eq_true, implies_true,
      and_true]
    intro _ stop hstop mapped hmapped
    refine mapPartialVma_keeps ?_ (by decide) hmapped
    rw [Page.number_of_add hstop]
    exact Nat.le_add_right _ _

private theorem accessAll_ends {ε : Type} (pages : List Page) :
    Ends (accessAll right pages) mapping (fun _ mapping' ↦ mapping.1.Keeps mapping'.1)
      fun (e : Stop ε) _ ↦ ¬ e.IsError := by
  induction pages generalizing mapping with
  | nil => exact .refl _
  | cons page rest ih =>
    simp only [accessAll, access, ends_bind, ends_get, ends_ite, ends_pure, ends_throw]
    refine ⟨fun _ ↦ ih, fun _ ↦ (handlePageFault_ends page).mono (fun _ _ hkeeps ↦ ?_)
      fun _ _ h ↦ h⟩
    exact ⟨fun _ ↦ ih.mono (fun _ _ h ↦ hkeeps.trans h) fun _ _ h ↦ h, fun _ ↦ id⟩

/-- A copy returns an error exactly when it is refused, and takes no mapping away. -/
theorem copyBytes_ends (right : PageTableFlags) (addr : VirtAddr) (size : Nat)
    (mapping : VirtualAddressSpace × FrameAllocator) :
    Ends (copyBytes right addr size) mapping
      (fun _ mapping' ↦ ¬ mapping.1.CopyRefused addr size ∧ mapping.1.Keeps mapping'.1)
      fun e _ ↦ e.IsError ↔ mapping.1.CopyRefused addr size := by
  rw [ends_copyBytes]
  refine ⟨fun haccess ↦ iff_of_true trivial (.inl haccess), fun haccess ↦ ⟨?_, ?_⟩⟩
  · intro last hlast
    refine ⟨fun hpages ↦ iff_of_true trivial (.inr ⟨last, hlast, hpages⟩), fun hpages ↦ ?_⟩
    have hnot : ¬ mapping.1.CopyRefused addr size := by
      rintro (hrefused | ⟨last', hlast', hrefused⟩)
      · cases haccess.symm.trans hrefused
      · cases hlast.symm.trans hlast'
        cases hpages.symm.trans hrefused
    exact (accessAll_ends _).mono (fun _ _ hkeeps ↦ ⟨hnot, hkeeps⟩)
      fun _ _ he ↦ iff_of_false he hnot
  · intro reason hreason
    have hnot : ¬ mapping.1.CopyRefused addr size := by
      rintro (hrefused | ⟨last', hlast', -⟩)
      · cases haccess.symm.trans hrefused
      · cases hreason.symm.trans hlast'
    exact iff_of_false id hnot

end

end VirtualAddressSpace

end D3OS.Memory
