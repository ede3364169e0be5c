import D3OS.Lib.Stateful
import D3OS.Memory.FullMapping
import D3OS.Memory.PageDrop
import D3OS.Memory.UserMappings

/-!
# Shared memory

`os/kernel/src/memory/shm.rs`. Every function holds the lock of the tables, so a call is one
step; only `delete` is called after the lock was given back and takes it again. `detach`
accepts an area whose type equals `SharedMemory { id: 0 }`, and `unmap_vma` takes its pages
away but not the area: no entry can be attached and detached without leaving a trace.
-/

namespace D3OS.Memory.Shm

open Lib

/-- `SharedMemoryEntry`, `shm.rs:23`. -/
structure SharedMemoryEntry where
  size : Nat
  frames : PhysFrameRange
  counter : UInt64
  unlinked : Bool

namespace SharedMemoryEntry

/-- `SharedMemoryEntry::new`, `shm.rs:31`. -/
def new (size : Nat) (frames : PhysFrameRange) : SharedMemoryEntry := ⟨size, frames, 0, false⟩

end SharedMemoryEntry

/-- `ShmTables`, `shm.rs:42`. -/
structure ShmTables where
  namingTable : Std.ExtTreeMap String Nat
  entryTable : Std.ExtTreeMap Nat SharedMemoryEntry
  nextFreeId : Nat

/-- `ShmTables::new`, `shm.rs:49`. -/
def ShmTables.new : ShmTables := ⟨∅, ∅, 0⟩

/-- The tables, the address spaces of the live processes, the frame allocator, and the
entries that a caller of `detach` or `unlink` is about to delete. -/
structure System where
  tables : ShmTables
  processes : Std.ExtTreeMap Nat VirtualAddressSpace
  frames : FrameAllocator
  pending : List Nat

namespace System

/-- The entry with an id. -/
def entry (s : System) (id : Nat) : Option SharedMemoryEntry := s.tables.entryTable[id]?

/-- An entry is updated in place. -/
def setEntry (s : System) (id : Nat) (entry : SharedMemoryEntry) : System :=
  { s with tables := { s.tables with entryTable := s.tables.entryTable.insert id entry } }

/-- The address space of a process and the frame allocator change. -/
def setProcess (s : System) (pid : Nat) (vas : VirtualAddressSpace) (fa : FrameAllocator) :
    System :=
  { s with processes := s.processes.insert pid vas, frames := fa }

end System

/-- `MAX_SHM_SIZE`, `os/kernel/src/consts.rs:24`. -/
def maxShmSize : Nat := 0x100000

/-- The bytes of the tag `"shm"`. -/
def shmTag : List UInt8 := [115, 104, 109]

/-- `open`, `shm.rs:65`. The size of the entry counts the frames that were asked for, not those
that the allocator has handed out. -/
def openShm (name : String) (size : Nat) (create : Bool) :
    EStateM Panic System (Except Errno Nat) := do
  let s ← get
  if size = 0 ∨ maxShmSize < size then return .error .einval
  else if create then
    if s.tables.namingTable.contains name then return .error .eexist
    else
      let frameCount := (size + pageSize - 1) / pageSize
      let (frames, fa) ← lift (s.frames.allocFrames frameCount)
      let id := s.tables.nextFreeId
      let entry := SharedMemoryEntry.new (frameCount * pageSize) frames
      set { s with
        tables := ⟨s.tables.namingTable.insert name id, s.tables.entryTable.insert id entry,
          (id + 1) % u64Bound⟩
        frames := fa }
      return .ok id
  else
    match s.tables.namingTable[name]? with
    | none => return .error .enoent
    | some id =>
      match s.entry id with
      | none => return .error .enoent
      | some entry => if entry.size < size then return .error .einval else return .ok id

/-- A new entry has the next id and the frames of the allocator. -/
theorem openShm_outcome (name : String) (size : Nat) (create : Bool) (s : System) :
    Ends (openShm name size create) s
      (fun r s' ↦ s' = s ∧ (create = true → ∃ e, r = .error e) ∨ ∃ naming frames fa,
        s.frames.allocFrames ((size + pageSize - 1) / pageSize) = .ok (frames, fa) ∧
        r = .ok s.tables.nextFreeId ∧ s' = { s with
          tables := ⟨naming, s.tables.entryTable.insert s.tables.nextFreeId (.new
            ((size + pageSize - 1) / pageSize * pageSize) frames),
            (s.tables.nextFreeId + 1) % u64Bound⟩
          frames := fa }) (fun _ _ ↦ True) := by
  simp only [openShm, ends_bind, ends_get, ends_ite, ends_pure, ends_lift, ends_set]
  refine ⟨fun _ ↦ .inl ⟨trivial, fun _ ↦ ⟨_, rfl⟩⟩, fun _ ↦ ⟨fun _ ↦
    ⟨fun _ ↦ .inl ⟨trivial, fun _ ↦ ⟨_, rfl⟩⟩, fun _ ↦ ?_⟩, fun hcreate ↦ ?_⟩⟩
  · apply yields_of_eq _ (fun _ _ ↦ trivial)
    rintro ⟨frames, fa⟩ halloc
    exact .inr ⟨_, frames, fa, halloc, trivial, rfl⟩
  · cases s.tables.namingTable[name]? with
    | none => exact .inl ⟨rfl, fun h ↦ absurd h hcreate⟩
    | some id =>
      dsimp only
      cases s.entry id with
      | none => exact .inl ⟨rfl, fun h ↦ absurd h hcreate⟩
      | some entry =>
        simp only [ends_ite, ends_pure]
        exact ⟨fun _ ↦ .inl ⟨trivial, fun h ↦ absurd h hcreate⟩,
          fun _ ↦ .inl ⟨trivial, fun h ↦ absurd h hcreate⟩⟩

/-- The flags of the pages of an attached entry, `shm.rs:132-135`. -/
def attachFlags (readOnly : Bool) : PageTableFlags :=
  if readOnly then PageTableFlags.present ||| PageTableFlags.userAccessible
  else PageTableFlags.present ||| PageTableFlags.writable ||| PageTableFlags.userAccessible

/-- `attach`, `shm.rs:111`, by the process `pid`. -/
def attach (pid id : Nat) (readOnly : Bool) : EStateM Panic System (Except Errno Nat) := do
  let s ← get
  let vas ← lift (unwrap s.processes[pid]?)
  match s.entry id with
  | none => return .error .einval
  | some entry =>
    let (vas, area) ← lift (vas.allocVma none (entry.size / pageSize) .user (.sharedMemory id)
      shmTag)
    set (s.setProcess pid vas s.frames)
    match area with
    | none => return .error .enomem
    | some vma =>
      let mapped ← lift (vas.mapPfrForVma vma entry.frames (attachFlags readOnly) s.frames)
      match mapped with
      | none =>
        let (vas, fa) ← lift (vas.unmapVma vma false s.frames)
        set (s.setProcess pid vas fa)
        return .error .enomem
      | some (vas, fa) =>
        set ((s.setProcess pid vas fa).setEntry id { entry with counter := entry.counter + 1 })
        return .ok vma.start.asU64

/-- One attachment less of an entry, `shm.rs:171-178`. The entry is to be deleted if it was
unlinked and this was the last one. -/
def System.release (s : System) (id : Nat) (entry : SharedMemoryEntry) : System :=
  let s := s.setEntry id { entry with counter := entry.counter - 1 }
  if entry.counter = 1 ∧ entry.unlinked then { s with pending := s.pending ++ [id] } else s

/-- `detach`, `shm.rs:148`, by the process `pid`, up to the point where it gives back the lock
to delete the entry. -/
def detach (pid ptr : Nat) : EStateM Panic System (Except Errno Nat) := do
  let s ← get
  let vas ← lift (unwrap s.processes[pid]?)
  let area ← lift (vas.isAddressWithinVma ptr)
  match area with
  | none => return .error .einval
  | some vma =>
    -- the guard compares the whole type, so the id that is read from it below is 0
    if vma.typ = .sharedMemory 0 then
      let (vas, fa) ← lift (vas.unmapVma vma false s.frames)
      set (s.setProcess pid vas fa)
      match s.entry 0 with
      | none => return .error .einval
      | some entry =>
        set ((s.setProcess pid vas fa).release 0 entry)
        return .ok 0
    else return .error .einval

/-- An entry without its name, `shm.rs:200-208`. It is to be deleted if it is not attached. -/
def System.orphan (s : System) (id : Nat) (entry : SharedMemoryEntry) : System :=
  let s := s.setEntry id { entry with unlinked := true }
  if entry.counter = 0 then { s with pending := s.pending ++ [id] } else s

/-- `unlink`, `shm.rs:183`, up to the point where it gives back the lock to delete the
entry. -/
def unlink (name : String) : EStateM Panic System (Except Errno Nat) := do
  let s ← get
  match s.tables.namingTable[name]? with
  | none => return .error .enoent
  | some id =>
    let s := { s with
      tables := { s.tables with namingTable := s.tables.namingTable.erase name } }
    set s
    match s.entry id with
    | none => return .error .enoent
    | some entry =>
      set (s.orphan id entry)
      return .ok 0

/-- `delete`, `shm.rs:212`. -/
def delete (id : Nat) (s : System) : System :=
  match s.entry id with
  | none => s
  | some entry => { s with
    tables := { s.tables with entryTable := s.tables.entryTable.erase id }
    frames := s.frames.freeFrames entry.frames }

/-- The address space of a process that has exited is dropped. -/
def exit (pid : Nat) (s : System) : Except Panic System := do
  let vas ← unwrap s.processes[pid]?
  let fa ← vas.drop s.frames
  .ok { s with processes := s.processes.erase pid, frames := fa }

section

variable {s s' : System} {pid id a : Nat} {readOnly : Bool}

/-- The area that `attach` allocates for an entry in an address space. -/
def AllocatesFor (vas : VirtualAddressSpace) (id : Nat) (entry : SharedMemoryEntry)
    (mid : VirtualAddressSpace) (vma : VirtualMemoryArea) : Prop :=
  vas.allocVma none (entry.size / pageSize) .user (.sharedMemory id) shmTag = .ok (mid, some vma)

/-- `attach` has added an area that shows the frames of the entry. -/
def Attaches (s : System) (pid id : Nat) (readOnly : Bool) (a : Nat) (s' : System) : Prop :=
  ∃ vas entry mid vma vas' fa, s.processes[pid]? = some vas ∧ s.entry id = some entry ∧
    AllocatesFor vas id entry mid vma ∧
    mid.mapPfrForVma vma entry.frames (attachFlags readOnly) s.frames = .ok (some (vas', fa)) ∧
    vma.start.asU64 = a ∧
    s' = (s.setProcess pid vas' fa).setEntry id { entry with counter := entry.counter + 1 }

/-- `attach` has allocated an area that the frames of the entry do not fit. -/
def Misfits (s : System) (id : Nat) (readOnly : Bool) : Prop :=
  ∃ vas entry mid vma, s.entry id = some entry ∧ AllocatesFor vas id entry mid vma ∧
    mid.mapPfrForVma vma entry.frames (attachFlags readOnly) s.frames = .ok none

/-- Frames that are as many as the pages of the entry fit. -/
theorem not_misfits {entry : SharedMemoryEntry} (hentry : s.entry id = some entry)
    (hne : entry.frames.len ≠ 0) (hsize : entry.size = entry.frames.len * pageSize) :
    ¬ Misfits s id readOnly := by
  rintro ⟨vas, entry', mid, vma, hentry', hmid, hmap⟩
  cases hentry.symm.trans hentry'
  obtain ⟨-, hlen⟩ := VirtualAddressSpace.allocVma_vma hmid
  rw [hsize, Nat.mul_div_cancel _ (by decide)] at hlen
  have hlen' : vma.range.len = entry.frames.len := by
    simp only [PageRange.len]
    omega
  exact VirtualAddressSpace.mapPfrForVma_ne_none (hlen' ▸ hne) hlen'.symm hmap

private theorem setProcess_self {vas : VirtualAddressSpace} (h : s.processes[pid]? = some vas) :
    s.setProcess pid vas s.frames = s := by
  have hinsert : s.processes.insert pid vas = s.processes := by
    apply Std.ExtTreeMap.ext_getElem?
    intro k
    rw [getElem?_insert_ite]
    split
    next hk => rw [hk, h]
    next => rfl
  rw [System.setProcess, hinsert]

/-- A call of `attach` that returns has attached the entry or failed without a trace, unless
the frames do not fit the area. -/
theorem attach_outcome (pid id : Nat) (readOnly : Bool) (s : System) :
    Ends (attach pid id readOnly) s
      (fun r s' ↦ (∃ e, r = .error e) ∧ (s' = s ∨ Misfits s id readOnly ∧
          ∃ vas entry mid vma vas' fa, s.processes[pid]? = some vas ∧
            AllocatesFor vas id entry mid vma ∧ mid.unmapVma vma false s.frames = .ok (vas', fa) ∧
            s' = s.setProcess pid vas' fa) ∨
        ∃ a, r = .ok a ∧ Attaches s pid id readOnly a s') (fun _ _ ↦ True) := by
  simp only [attach, ends_bind, ends_get, ends_lift]
  cases hvas : s.processes[pid]? with
  | none => trivial
  | some vas =>
    cases hentry : s.entry id with
    | none => exact .inl ⟨⟨_, rfl⟩, .inl rfl⟩
    | some entry =>
      simp only [unwrap, yields_ok, ends_bind, ends_lift, ends_set]
      apply yields_of_eq _ (fun _ _ ↦ trivial)
      rintro ⟨mid, area⟩ hmid
      cases area with
      | none =>
        obtain rfl : mid = vas := VirtualAddressSpace.allocVma_none hmid
        exact .inl ⟨⟨_, rfl⟩, .inl (setProcess_self hvas)⟩
      | some vma =>
        simp only [ends_bind, ends_lift]
        apply yields_of_eq _ (fun _ _ ↦ trivial)
        intro mapped hmapped
        cases mapped with
        | none =>
          simp only [ends_bind, ends_lift, ends_set]
          apply yields_of_eq _ (fun _ _ ↦ trivial)
          intro r hun
          exact .inl ⟨⟨_, rfl⟩, .inr ⟨⟨vas, entry, mid, vma, hentry, hmid, hmapped⟩,
            vas, entry, mid, vma, r.1, r.2, rfl, hmid, hun, rfl⟩⟩
        | some r =>
          exact .inr ⟨_, rfl, vas, entry, mid, vma, r.1, r.2, hvas, hentry, hmid, hmapped, rfl, rfl⟩

/-- The address space has got one more area, whose pages show the frames. -/
structure AddsArea (vas vas' : VirtualAddressSpace) (vma : VirtualMemoryArea)
    (frames : PhysFrameRange) : Prop where
  areas : vas'.virtualMemoryAreas = vas.virtualMemoryAreas.insert vma.start.asU64 vma
  nonempty : vma.start.asU64 < vma.stop.asU64
  oneHalf : vma.range.OneHalf
  free : ∀ old, vas.virtualMemoryAreas[vma.start.asU64]? = some old →
    old.stop.asU64 ≤ vma.start.asU64
  inside : ∀ a, vma.range.ContainsAddr a → ∃ p, vas'.pageTables.translate a = some p ∧
    frames.start.number ≤ p.asU64 / pageSize ∧ p.asU64 / pageSize < frames.stop.number
  outside : ∀ a, ¬ vma.range.ContainsAddr a →
    vas'.pageTables.translate a = vas.pageTables.translate a
  wellFormed : vas.WellFormed → vas'.WellFormed

/-- `attach` adds the area of the entry. -/
theorem addsArea_of_attach {vas mid vas' : VirtualAddressSpace} {vma : VirtualMemoryArea}
    {entry : SharedMemoryEntry} {flags : PageTableFlags} {fa fa' : FrameAllocator}
    (hmid : AllocatesFor vas id entry mid vma)
    (hmap : mid.mapPfrForVma vma entry.frames flags fa = .ok (some (vas', fa'))) :
    AddsArea vas vas' vma entry.frames := by
  obtain ⟨hvas, -, hne, hfree⟩ := VirtualAddressSpace.allocVma_some hmid
  obtain ⟨hspace, hstop⟩ := VirtualAddressSpace.allocVma_vma hmid
  obtain ⟨htables, hlen, hse, -⟩ := VirtualAddressSpace.mapPfrForVma_ok hmap
  have hpages := vma.range_lt hne
  have hlt : entry.frames.start.number < entry.frames.stop.number := by
    simp only [PageRange.len] at hlen
    omega
  obtain ⟨hhalf, htrans⟩ := VirtualAddressSpace.mapPfrForVma_translatesTo hspace hlt hmap
  have hareas : vas'.virtualMemoryAreas = mid.virtualMemoryAreas := by rw [htables]
  have hpaging : mid.pageTables = vas.pageTables := by rw [hvas]
  refine ⟨by rw [hareas, hvas], hne, hhalf, hfree, ?_, ?_, ?_⟩
  · intro a ha
    obtain ⟨p, hp, hnum⟩ := htrans.frame ha
    obtain ⟨hfirst, hlast⟩ : vma.range.start.number ≤ a.asU64 / pageSize ∧
      a.asU64 / pageSize < vma.range.stop.number := ha
    refine ⟨p, hp, ?_⟩
    simp only [PageRange.len] at hlen
    omega
  · intro a ha
    rw [htrans.2 a ha, hpaging]
  · intro hwf
    have hmidWf : mid.WellFormed := hwf.allocVma hmid
    rw [htables]
    exact ⟨hmidWf.keyed, hmidWf.nonempty, hmidWf.disjoint, hmidWf.user, hmidWf.kernel⟩

end

section

variable (s : System) (pid id : Nat)

@[simp] private theorem processes_setEntry (entry : SharedMemoryEntry) :
    (s.setEntry id entry).processes = s.processes := rfl

/-- The entries after one is written. -/
theorem entry_setEntry (entry : SharedMemoryEntry) (id' : Nat) :
    (s.setEntry id entry).entry id' = if id' = id then some entry else s.entry id' :=
  getElem?_insert_ite _ _ _ _

/-- The processes after one is written. -/
theorem processes_setProcess (vas : VirtualAddressSpace) (fa : FrameAllocator) (pid' : Nat) :
    (s.setProcess pid vas fa).processes[pid']? =
      if pid' = pid then some vas else s.processes[pid']? :=
  getElem?_insert_ite _ _ _ _

/-- The entries after one is counted down. -/
theorem entry_release (entry : SharedMemoryEntry) (id' : Nat) :
    (s.release id entry).entry id' =
      if id' = id then some { entry with counter := entry.counter - 1 } else s.entry id' := by
  rw [← entry_setEntry]
  unfold System.release
  split
  · rfl
  · rfl

/-- Counting down is not about processes. -/
@[simp] theorem processes_release (entry : SharedMemoryEntry) :
    (s.release id entry).processes = s.processes := by
  unfold System.release
  split
  · rfl
  · rfl

/-- The entries after one is unlinked. -/
theorem entry_orphan (entry : SharedMemoryEntry) (id' : Nat) :
    (s.orphan id entry).entry id' =
      if id' = id then some { entry with unlinked := true } else s.entry id' := by
  rw [← entry_setEntry]
  unfold System.orphan
  split
  · rfl
  · rfl

end

section

variable {s : System} {pid : Nat}

/-- A call of `detach` that returns has found nothing to detach, or has unmapped an area of
entry 0 and released the entry if it is still there. -/
theorem detach_outcome (pid ptr : Nat) (s : System) :
    Ends (detach pid ptr) s
      (fun r s' ↦ (∃ e, r = .error e) ∧ s' = s ∨
        ∃ vas vma vas' fa, s.processes[pid]? = some vas ∧
          vas.isAddressWithinVma ptr = .ok (some vma) ∧ vma.typ = .sharedMemory 0 ∧
          vas.unmapVma vma false s.frames = .ok (vas', fa) ∧
          ((s.entry 0 = none ∧ r = .error .einval ∧ s' = s.setProcess pid vas' fa) ∨
            ∃ entry, s.entry 0 = some entry ∧ r = .ok 0 ∧
              s' = (s.setProcess pid vas' fa).release 0 entry)) (fun _ _ ↦ True) := by
  simp only [detach, ends_bind, ends_get, ends_lift]
  cases hvas : s.processes[pid]? with
  | none => trivial
  | some vas =>
    simp only [unwrap, yields_ok]
    apply yields_of_eq _ (fun _ _ ↦ trivial)
    intro area hfind
    cases area with
    | none => exact .inl ⟨⟨_, rfl⟩, rfl⟩
    | some vma =>
      simp only [ends_ite, ends_pure, ends_bind, ends_lift, ends_set]
      refine ⟨fun htyp ↦ ?_, fun _ ↦ .inl ⟨⟨_, rfl⟩, trivial⟩⟩
      apply yields_of_eq _ (fun _ _ ↦ trivial)
      rintro ⟨vas', fa⟩ hun
      cases hentry : s.entry 0 with
      | none => exact .inr ⟨vas, vma, vas', fa, rfl, hfind, htyp, hun, .inl ⟨rfl, rfl, rfl⟩⟩
      | some entry =>
        exact .inr ⟨vas, vma, vas', fa, rfl, hfind, htyp, hun, .inr ⟨entry, rfl, rfl, rfl⟩⟩

/-- The address space and the entry are as before `attach`, `s`, once the address that it
returned has been detached: no page of the area that it added in `s₁` is mapped in `s₂`, the
areas are the ones before, and so is the counter. -/
structure Restored (s s₁ s₂ : System) (pid id a : Nat) : Prop where
  unmapped : ∀ vas₁ vma vas₂, s₁.processes[pid]? = some vas₁ →
    vas₁.virtualMemoryAreas[a]? = some vma → s₂.processes[pid]? = some vas₂ →
      ∀ x, vma.range.ContainsAddr x → vas₂.pageTables.translate x = none
  areas : s₂.processes[pid]?.map VirtualAddressSpace.virtualMemoryAreas =
    s.processes[pid]?.map VirtualAddressSpace.virtualMemoryAreas
  counter : (s₂.entry id).map SharedMemoryEntry.counter = (s.entry id).map SharedMemoryEntry.counter

variable {s₁ : System} {id a : Nat} {readOnly : Bool}

private theorem Attaches.find (h : Attaches s pid id readOnly a s₁) :
    ∃ vas vas₁ vma entry, s.processes[pid]? = some vas ∧ s₁.processes[pid]? = some vas₁ ∧
      s.entry id = some entry ∧
      s₁.entry id = some { entry with counter := entry.counter + 1 } ∧
      vma.typ = .sharedMemory id ∧ vma.start.asU64 = a ∧ AddsArea vas vas₁ vma entry.frames ∧
      vas₁.virtualMemoryAreas[a]? = some vma ∧
      vas₁.isAddressWithinVma a = .ok (some vma) := by
  obtain ⟨vas, entry, mid, vma, vas₁, fa, hvas, hentry, hmid, hmap, rfl, rfl⟩ := h
  have hadds := addsArea_of_attach hmid hmap
  have hstored : vas₁.virtualMemoryAreas[vma.start.asU64]? = some vma := by
    rw [hadds.areas, getElem?_insert_ite, if_pos rfl]
  refine ⟨vas, vas₁, vma, entry, hvas, ?_, hentry, ?_,
    (VirtualAddressSpace.allocVma_some hmid).2.1, rfl, hadds, hstored,
    VirtualAddressSpace.isAddressWithinVma_start hstored hadds.nonempty⟩
  · rw [processes_setEntry, processes_setProcess, if_pos rfl]
  · rw [entry_setEntry, if_pos rfl]

private theorem detach_of_ne_zero (h : Attaches s pid id readOnly a s₁) (hid : id ≠ 0) :
    detach pid a s₁ = .ok (.error .einval) s₁ := by
  obtain ⟨-, vas₁, vma, -, -, hvas₁, -, -, htyp, -, -, -, hfind⟩ := h.find
  have hne : ¬ vma.typ = .sharedMemory 0 := by
    rw [htyp, VmaType.sharedMemory.injEq]
    exact hid
  have hends : Ends (detach pid a) s₁ (fun r s' ↦ r = .error .einval ∧ s' = s₁)
      (fun _ _ ↦ False) := by
    simp only [detach, ends_bind, ends_get, ends_lift, ends_pure, yields_ok, unwrap, hvas₁, hfind,
      hne, if_false, and_self]
  obtain ⟨r, s', hr, rfl, rfl⟩ := hends.exists_ok fun _ _ h ↦ h
  exact hr

private theorem detach_zero (h : Attaches s pid 0 readOnly a s₁) :
    ∃ s₂ vas₁ vas₂, detach pid a s₁ = .ok (.ok 0) s₂ ∧ s₁.processes[pid]? = some vas₁ ∧
      s₂.processes[pid]? = some vas₂ ∧ vas₂.virtualMemoryAreas = vas₁.virtualMemoryAreas ∧
      (∀ vma, vas₁.virtualMemoryAreas[a]? = some vma →
        ∀ x, vma.range.ContainsAddr x → vas₂.pageTables.translate x = none) ∧
      (s₂.entry 0).map SharedMemoryEntry.counter = (s.entry 0).map SharedMemoryEntry.counter := by
  obtain ⟨vas, vas₁, vma, entry, -, hvas₁, hentry, hentry₁, htyp, -, hadds, hstored, hfind⟩ :=
    h.find
  obtain ⟨paging, fa, hun, hin, -, -⟩ := VirtualAddressSpace.unmapVma_of_mapped false s₁.frames
    hadds.oneHalf (vma.range_lt hadds.nonempty).le fun x hx ↦ by
      obtain ⟨p, hp, -⟩ := hadds.inside x hx
      rw [hp]
      rfl
  have hends : Ends (detach pid a) s₁ (fun r s' ↦ r = .ok 0 ∧
      s' = (s₁.setProcess pid { vas₁ with pageTables := paging } fa).release 0
        { entry with counter := entry.counter + 1 }) (fun _ _ ↦ False) := by
    simp only [detach, ends_bind, ends_get, ends_lift, ends_set, ends_pure, yields_ok, unwrap,
      hvas₁, hfind, htyp, if_true, hun, hentry₁, and_self]
  obtain ⟨r, s₂, hr, rfl, rfl⟩ := hends.exists_ok fun _ _ h ↦ h
  refine ⟨_, vas₁, { vas₁ with pageTables := paging }, hr, hvas₁, ?_, rfl, ?_, ?_⟩
  · rw [processes_release, processes_setProcess, if_pos rfl]
  · intro vma' hvma'
    cases Option.some.inj (hstored.symm.trans hvma')
    exact hin
  · rw [entry_release, if_pos rfl, hentry]
    exact congrArg some (UInt64.add_sub_cancel entry.counter 1)

/-- Whatever entry a process has attached, detaching the address that `attach` returned does
not restore its address space: it is refused for every entry but 0, and for entry 0 the area
is still there. -/
theorem detach_never_restores (s s₁ : System) (pid id : Nat) (readOnly : Bool) (a : Nat)
    (h : attach pid id readOnly s = .ok (.ok a) s₁) :
    ¬ ∃ s₂, detach pid a s₁ = .ok (.ok 0) s₂ ∧ Restored s s₁ s₂ pid id a := by
  have hattached : Attaches s pid id readOnly a s₁ := by
    rcases (attach_outcome pid id readOnly s).of_ok h with ⟨⟨e, he⟩, -⟩ | ⟨a', ha', hat⟩
    · cases he
    · cases ha'
      exact hat
  rintro ⟨s₂, hdetach, hrestored⟩
  by_cases hid : id = 0
  · subst hid
    obtain ⟨s₂', vas₁, vas₂, hdetach', hvas₁, hvas₂, hsame, -, -⟩ := detach_zero hattached
    obtain rfl : s₂ = s₂' := by
      rw [hdetach] at hdetach'
      cases hdetach'
      rfl
    obtain ⟨vas, vas₁', vma, entry, hvas, hvas₁', -, -, -, rfl, hadds, hstored, -⟩ :=
      hattached.find
    cases Option.some.inj (hvas₁.symm.trans hvas₁')
    have hareas := hrestored.areas
    rw [hvas₂, hvas, Option.map_some, Option.map_some, Option.some_inj, hsame] at hareas
    rw [hareas] at hstored
    exact hadds.nonempty.not_ge (hadds.free vma hstored)
  · rw [detach_of_ne_zero hattached hid] at hdetach
    cases hdetach

end

namespace Sample

/-- The address space of a process that has not allocated anything. -/
def space : VirtualAddressSpace := .fresh

/-- One process and no entries. -/
def system : System := ⟨.new, (∅ : Std.ExtTreeMap Nat VirtualAddressSpace).insert 1 space,
  ascendingFrames, []⟩

/-- Two entries, with the ids 0 and 1. -/
def opened : Except Panic System :=
  match (do
    let _ ← openShm "first" 1 true
    openShm "second" 1 true) system with
  | .ok _ s => .ok s
  | .error reason _ => .error reason

end Sample

/-- The premise holds for the second of two entries. -/
theorem detach_never_restores_sample :
    ∃ s s₁, Sample.opened = .ok s ∧ attach 1 1 false s = .ok (.ok 0x10000000000) s₁ ∧
      ¬ ∃ s₂, detach 1 0x10000000000 s₁ = .ok (.ok 0) s₂ ∧
        Restored s s₁ s₂ 1 1 0x10000000000 := by
  obtain ⟨s, hs, s₁, hattach⟩ : ∃ s, Sample.opened = .ok s ∧ ∃ s₁,
      attach 1 1 false s = .ok (.ok 0x10000000000) s₁ := by
    decide +kernel
  exact ⟨s, s₁, hs, hattach, detach_never_restores s s₁ 1 1 false _ hattach⟩

/-- The attachment of the second entry cannot be detached, and that of the first one leaves
its area behind. -/
theorem detach_leaves_areas :
    ∃ s, Sample.opened = .ok s ∧ s.processes[1]?.map (·.virtualMemoryAreas.size) = some 0 ∧
      (∃ s₁ s₂, attach 1 1 false s = .ok (.ok 0x10000000000) s₁ ∧
        detach 1 0x10000000000 s₁ = .ok (.error .einval) s₂) ∧
      ∃ s₁ s₂, attach 1 0 false s = .ok (.ok 0x10000000000) s₁ ∧
        detach 1 0x10000000000 s₁ = .ok (.ok 0) s₂ ∧
        s₂.processes[1]?.map (·.virtualMemoryAreas.size) = some 1 := by
  simp only [exists_and_left]
  decide +kernel

end D3OS.Memory.Shm
