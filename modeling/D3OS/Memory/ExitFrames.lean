import D3OS.Memory.PageConserve
import D3OS.Memory.ShmRuns

/-!
# The frames of a process that exits

Which frames go back when the address space of a process is dropped, in the states that processes
reach by creating threads and mapping memory, device memory and shared memory. `drop` decides by the
kind of an area: the pages of device memory are left alone, the frames of all other pages are freed,
those of the kernel stacks of its threads too. That is right as long as only device memory shows
frames that are not the process's own; the pages of shared memory are not treated apart.
-/

namespace D3OS.Memory

open Lib

namespace Paging

private theorem frameOf_containingAddress {paging : Paging} {a : VirtAddr} {f : PhysFrame} :
    paging.frameOf (Page.containingAddress a) = some f ↔
      ∃ p, paging.translate a = some p ∧ p.asU64 / pageSize = f.number := by
  rw [frameOf, translate, translateInTable_eq]
  cases lookup 3 paging.rootTable (Page.containingAddress a).number with
  | none => simp
  | some entry =>
    simp only [Option.map_some, Option.some.injEq, exists_eq_left', entry.address_div]
    exact PhysFrame.ext_iff

end Paging

namespace VirtualAddressSpace

/-- `KERNEL_STACK_PAGES`, `os/kernel/src/consts.rs:17`. -/
def kernelStackPages : Nat := 64

/-- `MAX_USER_STACK_SIZE`, `os/kernel/src/consts.rs:15`. -/
def maxUserStackSize : Nat := 0x40000000

/-- The stacks that `new_user_thread`, `os/kernel/src/process/thread.rs:185`, gives a thread: the
kernel stack of `alloc_kernel_stack`, `os/kernel/src/memory/stack.rs:33`, and a user stack of which
the last page is mapped. The tags are `"userthread"` and `"usrstack"`. -/
def newUserThread (vas : VirtualAddressSpace) (fa : FrameAllocator) :
    Except Panic (VirtualAddressSpace × FrameAllocator) := do
  let (_, vas, fa) ← vas.kernelAllocMapIdentity kernelStackPages
    (PageTableFlags.present ||| PageTableFlags.writable) .kernelStack
    [117, 115, 101, 114, 116, 104, 114, 101, 97, 100] fa
  let stack ← vas.userAllocMapPartial none (maxUserStackSize / pageSize) .userStack
    [117, 115, 114, 115, 116, 97, 99, 107] 1 true fa
  let (_, vas, fa) ← unwrap stack
  .ok (vas, fa)

/-- A call of a process that changes its address space. `sys_map_memory` and a page fault are
`alloc` and `mapPages`, `sys_map_frame_buffer` and the doorbells of a device are `alloc` and
`mapFrames`, the buffers that the driver of a device shares with it are `allocMapIdentity`; an area
is named by its start. -/
inductive Call where
  | alloc (startPage : Option Page) (numPages : Nat) (space : MemorySpace) (typ : VmaType)
      (tag : List UInt8)
  | mapFrames (start : Nat) (frames : PhysFrameRange) (pages : PageRange) (flags : PageTableFlags)
  | mapPages (start : Nat) (pages : PageRange) (space : MemorySpace) (flags : PageTableFlags)
  | allocMapIdentity (numPf : Nat) (flags : PageTableFlags) (typ : VmaType) (tag : List UInt8)
  | newUserThread
  | allocMapFull (startPage : Option Page) (numPages : Nat) (typ : VmaType) (tag : List UInt8)
  | allocMapPartial (startPage : Option Page) (numPages : Nat) (typ : VmaType) (tag : List UInt8)
      (allocNumPages : Nat) (allocDownwards : Bool)

/-- The address space and the frame allocator after a call, whether it failed or not. -/
def call (vas : VirtualAddressSpace) (fa : FrameAllocator) :
    Call → Except Panic (VirtualAddressSpace × FrameAllocator)
  | .alloc startPage numPages space typ tag => do
    let (vas, _) ← vas.allocVma startPage numPages space typ tag
    .ok (vas, fa)
  | .mapFrames start frames pages flags =>
    match vas.virtualMemoryAreas[start]? with
    | none => .ok (vas, fa)
    | some vma => do
      let r ← vas.mapPfrForPartialVma vma frames pages flags fa
      .ok (r.getD (vas, fa))
  | .mapPages start pages space flags =>
    match vas.virtualMemoryAreas[start]? with
    | none => .ok (vas, fa)
    | some vma => vas.mapPartialVma vma pages space flags fa
  | .allocMapIdentity numPf flags typ tag => do
    let (_, vas, fa) ← vas.kernelAllocMapIdentity numPf flags typ tag fa
    .ok (vas, fa)
  | .newUserThread => vas.newUserThread fa
  | .allocMapFull startPage numPages typ tag => do
    let r ← vas.userAllocMapFull startPage numPages typ tag fa
    .ok (r.elim (vas, fa) Prod.snd)
  | .allocMapPartial startPage numPages typ tag allocNumPages allocDownwards => do
    let r ← vas.userAllocMapPartial startPage numPages typ tag allocNumPages allocDownwards fa
    .ok (r.elim (vas, fa) Prod.snd)

/-- What holds of the address space of a process at all times. -/
structure OfProcess (vas : VirtualAddressSpace) : Prop where
  wellFormed : vas.WellFormed
  first : vas.firstUsableUserAddr = userSpaceStart
  last : vas.lastUsableUserAddr.asU64 < 2 ^ 47

variable {vas vas' : VirtualAddressSpace} {fa fa' : FrameAllocator}

private theorem OfProcess.withPageTables (h : vas.OfProcess) (paging : Paging) :
    ({ vas with pageTables := paging }).OfProcess :=
  ⟨⟨h.wellFormed.keyed, h.wellFormed.nonempty, h.wellFormed.disjoint, h.wellFormed.user,
    h.wellFormed.kernel⟩, h.first, h.last⟩

variable {startPage : Option Page} {numPages : Nat} {space : MemorySpace} {typ : VmaType}
  {tag : List UInt8}

private theorem OfProcess.allocVma (h : vas.OfProcess) {area : Option VirtualMemoryArea}
    (hr : vas.allocVma startPage numPages space typ tag = .ok (vas', area)) : vas'.OfProcess := by
  cases area with
  | none =>
    rw [allocVma_none hr]
    exact h
  | some vma =>
    have heq := allocVma_eq hr
    refine ⟨h.wellFormed.allocVma hr, ?_, ?_⟩
    · rw [congrArg (·.firstUsableUserAddr) heq]
      exact h.first
    · rw [congrArg (·.lastUsableUserAddr) heq]
      exact h.last

variable {vma : VirtualMemoryArea}

section

variable (h : vas.OfProcess)
include h

private theorem OfProcess.mapPfrForPartialVma {frames : PhysFrameRange}
    {pages : PageRange} {flags : PageTableFlags}
    (hr : vas.mapPfrForPartialVma vma frames pages flags fa = .ok (some (vas', fa'))) :
    vas'.OfProcess := by
  unfold VirtualAddressSpace.mapPfrForPartialVma at hr
  split at hr
  next => cases hr
  next =>
    obtain ⟨numFrames, -, hr⟩ := of_bind hr
    obtain ⟨numPages, -, hr⟩ := of_bind hr
    split at hr
    next => cases hr
    next =>
      split at hr
      next => cases hr
      next =>
        obtain ⟨⟨paging, fa''⟩, -, hr⟩ := of_bind hr
        cases hr
        exact h.withPageTables paging

private theorem OfProcess.unmapVma {freePhysical : Bool}
    (hr : vas.unmapVma vma freePhysical fa = .ok (vas', fa')) : vas'.OfProcess := by
  obtain ⟨⟨paging, fa''⟩, -, hr⟩ := of_bind hr
  cases hr
  exact h.withPageTables paging

private theorem OfProcess.mapPartialVma {pages : PageRange}
    {flags : PageTableFlags} (hr : vas.mapPartialVma vma pages space flags fa = .ok (vas', fa')) :
    vas'.OfProcess := by
  obtain ⟨found, -, hr⟩ := of_bind hr
  split at hr
  next => cases hr
  next =>
    split at hr
    next => cases hr
    next =>
      obtain ⟨⟨paging, fa''⟩, -, hr⟩ := of_bind hr
      cases hr
      exact h.withPageTables paging

private theorem OfProcess.userAllocMapFull
    {r : Option (VirtualMemoryArea × VirtualAddressSpace × FrameAllocator)}
    (hr : vas.userAllocMapFull startPage numPages typ tag fa = .ok r) :
    (r.elim (vas, fa) Prod.snd).1.OfProcess := by
  obtain ⟨⟨mid, area⟩, hmid, hr⟩ := of_bind hr
  cases area with
  | none =>
    cases hr
    exact h
  | some vma =>
    obtain ⟨⟨paging, fa''⟩, -, hr⟩ := of_bind hr
    cases hr
    exact (h.allocVma hmid).withPageTables paging

private theorem OfProcess.userAllocMapPartial {allocNumPages : Nat}
    {allocDownwards : Bool} {r : Option (VirtualMemoryArea × VirtualAddressSpace × FrameAllocator)}
    (hr : vas.userAllocMapPartial startPage numPages typ tag allocNumPages allocDownwards fa =
      .ok r) : (r.elim (vas, fa) Prod.snd).1.OfProcess := by
  unfold VirtualAddressSpace.userAllocMapPartial at hr
  split at hr
  next =>
    cases hr
    exact h
  next =>
    obtain ⟨⟨mid, area⟩, hmid, hr⟩ := of_bind hr
    cases area with
    | none =>
      cases hr
      exact h
    | some vma =>
      obtain ⟨pages, -, hr⟩ := of_bind hr
      obtain ⟨⟨paging, fa''⟩, -, hr⟩ := of_bind hr
      cases hr
      exact (h.allocVma hmid).withPageTables paging

private theorem OfProcess.kernelAllocMapIdentity {numPf : Nat} {flags : PageTableFlags}
    {r : PageRange × VirtualAddressSpace × FrameAllocator}
    (hr : vas.kernelAllocMapIdentity numPf flags typ tag fa = .ok r) : r.2.1.OfProcess := by
  unfold VirtualAddressSpace.kernelAllocMapIdentity at hr
  split at hr
  next => cases hr
  next =>
    obtain ⟨⟨pfr, fa₁⟩, -, hr⟩ := of_bind hr
    obtain ⟨startAddr, -, hr⟩ := of_bind hr
    obtain ⟨startPage, -, hr⟩ := of_bind hr
    obtain ⟨⟨mid, area⟩, hmid, hr⟩ := of_bind hr
    obtain ⟨vma, -, hr⟩ := of_bind hr
    obtain ⟨mapped, hmapped, hr⟩ := of_bind hr
    obtain ⟨⟨vas₁, fa₂⟩, hsome, hr⟩ := of_bind hr
    obtain ⟨endPage, -, hr⟩ := of_bind hr
    cases hr
    rw [unwrap_eq_ok] at hsome
    exact (h.allocVma hmid).mapPfrForPartialVma (hsome ▸ hmapped)

private theorem OfProcess.newUserThread (hr : vas.newUserThread fa = .ok (vas', fa')) :
    vas'.OfProcess := by
  obtain ⟨⟨pages, mid, fa₁⟩, hkernel, hr⟩ := of_bind hr
  obtain ⟨stack, hstack, hr⟩ := of_bind hr
  obtain ⟨⟨vma, vas₁, fa₂⟩, hsome, hr⟩ := of_bind hr
  cases hr
  rw [unwrap_eq_ok] at hsome
  have hnew := (h.kernelAllocMapIdentity hkernel).userAllocMapPartial hstack
  rw [hsome] at hnew
  exact hnew

private theorem OfProcess.call {c : Call} (hr : vas.call fa c = .ok (vas', fa')) :
    vas'.OfProcess := by
  cases c with
  | alloc startPage numPages space typ tag =>
    obtain ⟨⟨mid, area⟩, hmid, hr⟩ := of_bind hr
    cases hr
    exact h.allocVma hmid
  | mapFrames start frames pages flags =>
    simp only [VirtualAddressSpace.call] at hr
    split at hr
    next =>
      cases hr
      exact h
    next vma hvma =>
      obtain ⟨r, hmap, hr⟩ := of_bind hr
      cases r with
      | none =>
        cases hr
        exact h
      | some r =>
        cases hr
        exact h.mapPfrForPartialVma hmap
  | mapPages start pages space flags =>
    simp only [VirtualAddressSpace.call] at hr
    split at hr
    next =>
      cases hr
      exact h
    next vma hvma => exact h.mapPartialVma hr
  | allocMapIdentity numPf flags typ tag =>
    obtain ⟨r, hmap, hr⟩ := of_bind hr
    cases hr
    exact h.kernelAllocMapIdentity hmap
  | newUserThread => exact h.newUserThread hr
  | allocMapFull startPage numPages typ tag =>
    obtain ⟨r, hmap, hr⟩ := of_bind hr
    have hnew := h.userAllocMapFull hmap
    rw [Except.ok.inj hr] at hnew
    exact hnew
  | allocMapPartial startPage numPages typ tag allocNumPages allocDownwards =>
    obtain ⟨r, hmap, hr⟩ := of_bind hr
    have hnew := h.userAllocMapPartial hmap
    rw [Except.ok.inj hr] at hnew
    exact hnew

end

private theorem OfProcess.new {paging : Paging} {bits : Nat}
    (h : VirtualAddressSpace.new paging bits = .ok vas) : vas.OfProcess := by
  obtain ⟨shift, hshift, h⟩ := of_bind h
  split at h
  next => cases h
  next hlt =>
    obtain ⟨last, hlast, h⟩ := of_bind h
    cases h
    have hnum := VirtAddr.tryNew_eq_some (VirtAddr.new_eq_ok.mp hlast)
    have hcanonical := last.canonical
    have hpow : 2 ^ shift ≤ 2 ^ 63 := Nat.pow_le_pow_right (by decide) (by omega)
    refine ⟨wellFormed_of_empty rfl, rfl, ?_⟩
    show last.asU64 < 2 ^ 47
    omega

private theorem OfProcess.oneHalf (h : vas.OfProcess) (hvma : vas.Has vma) : vma.range.OneHalf := by
  have hnum : vma.stop.asU64 = vma.range.stop.number * pageSize := rfl
  have hfirst : vas.firstUsableUserAddr.asU64 = 0x10000000000 := by rw [h.first]; rfl
  have hlast := h.last
  simp only [pageSize] at hnum
  left
  cases hspace : vma.space with
  | user =>
    obtain ⟨-, hstop⟩ := h.wellFormed.user vma hvma hspace
    omega
  | kernel =>
    obtain ⟨-, hstop⟩ := h.wellFormed.kernel vma hvma hspace
    omega

/-- The process shows the frame: a page of one of its areas is mapped to it, or a user address. The
kernel stacks are areas below the user addresses, where every address space maps all frames. -/
def Exposes (vas : VirtualAddressSpace) (f : PhysFrame) : Prop :=
  (∃ vma p, vas.Has vma ∧ vma.range.Contains p ∧ vas.pageTables.frameOf p = some f) ∨
    vas.MapsFrame f

/-- The process has the frame: it shows it or has a page table in it. -/
def Uses (vas : VirtualAddressSpace) (f : PhysFrame) : Prop :=
  vas.Exposes f ∨ IsTableFrame 3 vas.pageTables.rootTable f

end VirtualAddressSpace

namespace Shm

/-- A frame that is not the process's alone: one of an entry, one that another live process has, one
that the frame allocator has back already, or one of a device. -/
def System.Foreign (device : PhysFrame → Prop) (s : System) (pid : Nat) (f : PhysFrame) : Prop :=
  s.HasFrame f ∨ (∃ pid' vas, pid' ≠ pid ∧ s.processes[pid']? = some vas ∧ vas.Uses f) ∨
    f ∈ s.frames.back ∨ device f

/-- Dropping the address space of the process returns and frees exactly the frames that are the
process's alone. -/
def System.FreesOwn (device : PhysFrame → Prop) (s : System) (pid : Nat)
    (vas : VirtualAddressSpace) : Prop :=
  ∃ s' freed, exit pid s = .ok s' ∧ s'.frames.freed = s.frames.freed ++ freed ∧
    ∀ f, f ∈ freed ↔ vas.Uses f ∧ ¬ s.Foreign device pid f

/-- The kinds of the areas tell whose frames they show: no area but device memory shows a frame
that is not the process's alone, no page table lies in one, and what the process shows nowhere but
in device memory is not the process's alone. -/
structure System.KindsAgree (device : PhysFrame → Prop) (s : System) (pid : Nat)
    (vas : VirtualAddressSpace) : Prop where
  areas : ∀ f, vas.IsAreaFrame f → ¬ s.Foreign device pid f
  tables : ∀ f, IsTableFrame 3 vas.pageTables.rootTable f → ¬ s.Foreign device pid f
  rest : ∀ f, vas.Exposes f → ¬ vas.IsAreaFrame f →
    ¬ IsTableFrame 3 vas.pageTables.rootTable f → s.Foreign device pid f

section

variable {device : PhysFrame → Prop} {s s' : System} {pid : Nat} {vas : VirtualAddressSpace}

private theorem freesOwn_iff (hvas : vas.OfProcess) (hlive : s.processes[pid]? = some vas)
    (hreach : vas.Reached) : s.FreesOwn device pid vas ↔ s.KindsAgree device pid vas := by
  obtain ⟨fa, freed, hdrop, heq, hfreed⟩ :=
    VirtualAddressSpace.drop_exact s.frames hvas.wellFormed (fun _ ↦ hvas.oneHalf) hreach
  have hexit : exit pid s = .ok { s with processes := s.processes.erase pid, frames := fa } := by
    rw [exit, hlive]
    exact bind_eq_ok.mpr ⟨vas, rfl, bind_eq_ok.mpr ⟨fa, hdrop, rfl⟩⟩
  constructor
  · rintro ⟨s', freed', hs', heq', hown⟩
    cases hexit.symm.trans hs'
    obtain rfl : freed' = freed := List.append_cancel_left (heq'.symm.trans heq)
    refine ⟨fun f hf ↦ ?_, fun f hf ↦ ?_, fun f hshows harea htable ↦ ?_⟩
    · exact ((hown f).mp ((hfreed f).mpr (.inl hf))).2
    · exact ((hown f).mp ((hfreed f).mpr (.inr hf))).2
    · by_contra hown'
      rcases (hfreed f).mp ((hown f).mpr ⟨.inl hshows, hown'⟩) with hf | hf
      · exact harea hf
      · exact htable hf
  · intro h
    refine ⟨_, freed, hexit, heq, fun f ↦ ?_⟩
    rw [hfreed]
    constructor
    · rintro (hf | hf)
      · have ⟨vma, p, hhas, _, hp, hframe⟩ := hf
        exact ⟨.inl (.inl ⟨vma, p, hhas, hp, hframe⟩), h.areas f hf⟩
      · exact ⟨.inr hf, h.tables f hf⟩
    · rintro ⟨huses, hown⟩
      by_contra hnot
      rw [not_or] at hnot
      rcases huses with hshows | htable
      · exact hown (h.rest f hshows hnot.1 hnot.2)
      · exact hnot.2 htable

end

/-- What happens in the system: a process is created with a copy of the page tables of the kernel,
on a processor with the given number of linear address bits; the address space of a process changes,
by its own calls or when it gets a thread; or one of the events of shared memory, of which one is
the exit of a process. -/
inductive Activity where
  | launch (pid : Nat) (kernel : Paging) (linearAddressBits : Nat)
  | call (pid : Nat) (c : VirtualAddressSpace.Call)
  | shm (event : Event)

/-- One activity. `create_process`, `process_manager.rs:38`, gives a process an id of its own. -/
def act (s : System) : Activity → Except Panic System
  | .launch pid kernel linearAddressBits =>
    if s.processes.contains pid then .ok s
    else do
      let (paging, fa) ← kernel.fromOther s.frames
      let vas ← VirtualAddressSpace.new paging linearAddressBits
      .ok (s.setProcess pid vas fa)
  | .call pid c => do
    let vas ← unwrap s.processes[pid]?
    let (vas, fa) ← vas.call s.frames c
    .ok (s.setProcess pid vas fa)
  | .shm event => step s event

/-- The system before the first process is created. -/
def booted (fa : FrameAllocator) : System := ⟨.new, ∅, fa, []⟩

/-- The invariant of the runs. -/
private def Live (s : System) : Prop :=
  ∀ (pid : Nat) vas, s.processes[pid]? = some vas → vas.OfProcess

variable {fa : FrameAllocator}

section

variable {s s' : System} {pid : Nat} {vas : VirtualAddressSpace}

section

variable (h : Live s)
include h

private theorem Live.setProcess (hvas : vas.OfProcess) (fa : FrameAllocator) :
    Live (s.setProcess pid vas fa) := by
  intro pid' vas' hget
  rw [processes_setProcess] at hget
  split at hget
  next => exact Option.some.inj hget ▸ hvas
  next => exact h pid' vas' hget

private theorem Live.congr (hs : s'.processes = s.processes) : Live s' := by
  intro pid vas hget
  rw [hs] at hget
  exact h pid vas hget

private theorem attach_live {id : Nat} {readOnly : Bool}
    (hstep : step s (.attach pid id readOnly) = .ok s') : Live s' := by
  obtain ⟨r, hr⟩ := after_eq_ok hstep
  rcases (attach_outcome pid id readOnly s).of_ok hr with
    ⟨-, rfl | ⟨-, vas, entry, mid, vma, vas', fa, hvas, hmid, hun, rfl⟩⟩ |
      ⟨a, -, vas, entry, mid, vma, vas', fa, hvas, -, hmid, hmapped, -, rfl⟩
  · exact h
  · exact h.setProcess (((h pid vas hvas).allocVma hmid).unmapVma hun) fa
  · exact h.setProcess (((h pid vas hvas).allocVma hmid).mapPfrForPartialVma hmapped) fa

private theorem detach_live {ptr : Nat} (hstep : step s (.detach pid ptr) = .ok s') :
    Live s' := by
  obtain ⟨r, hr⟩ := after_eq_ok hstep
  rcases (detach_outcome pid ptr s).of_ok hr with
    ⟨-, rfl⟩ | ⟨vas, vma, vas', fa, hvas, -, -, hun, hs⟩
  · exact h
  · have hnew : Live (s.setProcess pid vas' fa) :=
      h.setProcess ((h pid vas hvas).unmapVma hun) fa
    rcases hs with ⟨-, -, rfl⟩ | ⟨entry, -, -, rfl⟩
    · exact hnew
    · exact hnew.congr (processes_release _ _ _)

private theorem exit_live (hstep : exit pid s = .ok s') : Live s' := by
  obtain ⟨vas, -, hstep⟩ := of_bind hstep
  obtain ⟨fa, -, hstep⟩ := of_bind hstep
  cases hstep
  intro pid' vas' hget
  have hget' : (s.processes.erase pid)[pid']? = some vas' := hget
  rw [getElem?_erase_ite] at hget'
  split at hget'
  next => cases hget'
  next => exact h pid' vas' hget'

private theorem step_live {event : Event} (hstep : step s event = .ok s') :
    Live s' := by
  cases event with
  | openShm name size create =>
    obtain ⟨r, hr⟩ := after_eq_ok hstep
    rcases (openShm_outcome name size create s).of_ok hr with
      ⟨rfl, -⟩ | ⟨naming, frames, fa, -, -, rfl⟩
    · exact h
    · exact h.congr rfl
  | attach pid id readOnly => exact attach_live h hstep
  | detach pid ptr => exact detach_live h hstep
  | unlink name =>
    obtain ⟨r, hr⟩ := after_eq_ok hstep
    rcases (unlink_outcome name s).of_ok hr with rfl | ⟨naming, rfl | ⟨id, entry, -, rfl⟩⟩
    · exact h
    · exact h.congr rfl
    · apply h.congr
      unfold System.orphan
      split
      next => rfl
      next => rfl
  | delete id =>
    simp only [step] at hstep
    split at hstep
    next =>
      cases hstep
      apply h.congr
      unfold delete
      split
      next => rfl
      next => rfl
    next =>
      cases hstep
      exact h
  | exit pid => exact exit_live h hstep

private theorem act_live {activity : Activity} (hact : act s activity = .ok s') :
    Live s' := by
  cases activity with
  | launch pid kernel bits =>
    simp only [act] at hact
    split at hact
    next =>
      cases hact
      exact h
    next =>
      obtain ⟨⟨paging, fa⟩, -, hact⟩ := of_bind hact
      obtain ⟨vas, hnew, hact⟩ := of_bind hact
      cases hact
      exact h.setProcess (.new hnew) fa
  | call pid c =>
    obtain ⟨vas, hvas, hact⟩ := of_bind hact
    obtain ⟨⟨vas', fa⟩, hcall, hact⟩ := of_bind hact
    cases hact
    exact h.setProcess ((h pid vas (unwrap_eq_ok.mp hvas)).call hcall) fa
  | shm event => exact step_live h hact

end

private theorem live_run (activities : List Activity)
    (hrun : activities.foldlM act (booted fa) = .ok s) : Live s := by
  refine (foldlM_yields activities ?_ fun s activity hs ↦ ?_).of_ok hrun (E := fun _ ↦ True)
  · intro pid vas hget
    cases Std.ExtTreeMap.getElem?_empty.symm.trans hget
  · exact yields_of_eq (fun _ hact ↦ act_live hs hact) fun _ _ ↦ trivial

end

/-- Whatever processes map, share and drop from boot on, the areas of each stay well formed. -/
theorem areas_stay_wellFormed (fa : FrameAllocator) (activities : List Activity) :
    Yields (activities.foldlM act (booted fa))
      (fun s ↦ ∀ (pid : Nat) (vas : VirtualAddressSpace), s.processes[pid]? = some vas →
        vas.OfProcess) fun _ ↦ True :=
  yields_of_eq (fun _ ↦ live_run activities) fun _ _ ↦ trivial

namespace Sample

/-- A process is created and gets one page. -/
def onePage : List Activity :=
  [.launch 1 Paging.new 48, .call 1 (.allocMapFull (some ⟨2 ^ 28, by decide⟩) 1 .heap [])]

/-- A process is created and attaches an entry. -/
def attached : List Activity :=
  [.launch 1 Paging.new 48, .shm (.openShm "first" 1 true), .shm (.attach 1 0 false)]

/-- The system after the process was created. -/
def started : System :=
  (booted ascendingFrames).setProcess 1 VirtualAddressSpace.fresh
    { ascendingFrames with allocated := 1 }

private theorem launch_eq : act (booted ascendingFrames)
    (.launch 1 Paging.new 48) = .ok started := by
  have hcopy : Paging.new.fromOther ascendingFrames =
      .ok (Paging.new, { ascendingFrames with allocated := 1 }) :=
    fromOther_new rfl (Nat.succ_ne_zero _)
  exact bind_eq_ok.mpr ⟨_, hcopy, rfl⟩

end Sample

private theorem not_foreign {s : System} {pid : Nat} (hentry : ∀ id, s.entry id = none)
    (hback : s.frames.back = [])
    (honly : ∀ (pid' : Nat) vas, s.processes[pid']? = some vas → pid' = pid) (f : PhysFrame) :
    ¬ s.Foreign (fun _ ↦ False) pid f := by
  rintro (⟨id, entry, hid, -⟩ | ⟨pid', vas, hne, hget, -⟩ | hmem | hdevice)
  · rw [hentry id] at hid
    cases hid
  · exact hne (honly pid' vas hget)
  · rw [hback] at hmem
    cases hmem
  · exact hdevice

private theorem mapped_page {vas vas' : VirtualAddressSpace} {page : Page} {vma : VirtualMemoryArea}
    {fa' : FrameAllocator} {frames : List PhysFrame} (hempty : ∀ v, ¬ vas.Has v)
    (hnone : ∀ a, vas.pageTables.translate a = none)
    (hadds : VirtualAddressSpace.AddsArea page 1 .heap vma vas vas') (hlen : frames.length = 1)
    (hfull : VirtualAddressSpace.MappedInFull page frames (vas.pageTables, fa)
      (vas'.pageTables, fa')) : vas'.Reached ∧ ∀ f, vas'.Exposes f → vas'.IsAreaFrame f := by
  have hstart := hadds.start
  have hstop := hadds.stop
  have hrange : ∀ p : Page, vma.range.Contains p ↔ p.number = page.number := by
    intro p
    rw [PageRange.Contains, hstart, hstop]
    omega
  obtain ⟨frame, hframe⟩ : ∃ frame, frames[0]? = some frame :=
    ⟨frames.head (by rintro rfl; cases hlen), by
      rw [List.head_eq_getElem, List.getElem?_eq_getElem]⟩
  have honly : ∀ v, vas'.Has v → v = vma :=
    fun v hv ↦ ((hadds.has v).mp hv).resolve_left (hempty v)
  have htyp : vma.typ ≠ .deviceMemory := by
    rw [hadds.typ_eq]
    decide
  constructor
  · intro v hv _ p hp
    obtain rfl := honly v hv
    have hnum := (hrange p).mp hp
    refine .inl ⟨p, hp.1, rfl, ?_⟩
    have hin := hfull.inside 0 frame hframe 0 (by decide) p.startAddress (by
      show p.number * pageSize = _
      rw [hnum, Nat.add_zero, Nat.add_zero])
    obtain ⟨a, ha, hnumber⟩ := Option.map_eq_some_iff.mp hin
    rw [← Page.containingAddress_startAddress p, Option.isSome_iff_exists]
    refine ⟨frame, Paging.frameOf_containingAddress.mpr ⟨a, ha, ?_⟩⟩
    rw [hnumber, Nat.add_zero, Nat.mul_div_cancel _ (by decide)]
  · rintro f (⟨v, p, hv, hp, hframe⟩ | ⟨a, -, htrans⟩)
    · exact ⟨v, p, hv, honly v hv ▸ htyp, hp, hframe⟩
    · have hcontains : vma.range.Contains (Page.containingAddress a) := by
        by_contra hout
        have hne : a.asU64 / pageSize ≠ page.number := fun h ↦ hout ((hrange _).mpr h)
        obtain ⟨p, hp, -⟩ := htrans
        rw [hfull.outside a (by rw [hlen]; omega), hnone] at hp
        cases hp
      exact ⟨vma, _, (hadds.has vma).mpr (.inr rfl), htyp, hcontains,
        Paging.frameOf_containingAddress.mpr htrans⟩

private theorem mapped_call {vas vas' : VirtualAddressSpace} {page : Page} {fa' : FrameAllocator}
    (hstock : fa.Stocked) (hareas : vas.virtualMemoryAreas = ∅)
    (hnone : ∀ a, vas.pageTables.translate a = none)
    (h : vas.call fa (.allocMapFull (some page) 1 .heap []) = .ok (vas', fa'))
    {v : VirtualMemoryArea} (hhas : vas'.Has v) :
    vas'.Reached ∧ ∀ f, vas'.Exposes f → vas'.IsAreaFrame f := by
  have hempty : ∀ w, ¬ vas.Has w := by
    rintro w ⟨k, hk⟩
    rw [hareas] at hk
    cases Std.ExtTreeMap.getElem?_empty.symm.trans hk
  obtain ⟨r, hmap, hr⟩ := of_bind h
  rcases VirtualAddressSpace.userAllocMapFull_ok (VirtualAddressSpace.wellFormed_of_empty hareas)
      hstock le_rfl hmap with rfl | ⟨vma, vas'', fa'', frames, rfl, -, hadds, hlen, hfull⟩
  · cases hr
    exact absurd hhas (hempty v)
  · cases hr
    exact mapped_page hempty hnone hadds hlen hfull

end Shm

end D3OS.Memory
