import D3OS.Memory.Shm

/-!
# Runs of the shared memory functions

What the counter of an entry and its frames have to do with the attachments in the live
processes, over whole runs. `detach` does not look whether the area is still attached, a process
that exits frees the frames that it shows and does not count down, between the decision to
delete an entry and its deletion the entry can be attached again, and an entry whose frames are
more than its pages leaves, with each attempt to attach it, an area behind whose pages are unmapped.
`Proper` excludes these steps.
-/

namespace D3OS.Memory.Shm

open Lib

/-- The calls of the processes; `delete` is the end of a call of `detach` or `unlink` that had
to give back the lock. -/
inductive Event where
  | openShm (name : String) (size : Nat) (create : Bool)
  | attach (pid id : Nat) (readOnly : Bool)
  | detach (pid ptr : Nat)
  | unlink (name : String)
  | delete (id : Nat)
  | exit (pid : Nat)

/-- The state after a call, whatever it returned. -/
def after {α : Type} (m : EStateM Panic System α) (s : System) : Except Panic System :=
  match m s with
  | .ok _ s' => .ok s'
  | .error reason _ => .error reason

/-- One event. -/
def step (s : System) : Event → Except Panic System
  | .openShm name size create => after (openShm name size create) s
  | .attach pid id readOnly => after (attach pid id readOnly) s
  | .detach pid ptr => after (detach pid ptr) s
  | .unlink name => after (unlink name) s
  | .delete id =>
    if id ∈ s.pending then .ok (delete id { s with pending := s.pending.erase id }) else .ok s
  | .exit pid => exit pid s

/-- A page of the area is mapped. -/
def Mapped (vas : VirtualAddressSpace) (vma : VirtualMemoryArea) : Prop :=
  ∃ a, vma.range.ContainsAddr a ∧ (vas.pageTables.translate a).isSome

/-- The starts of the areas of an address space at which an entry is attached. -/
def attachedAreas (vas : VirtualAddressSpace) (id : Nat) : Set Nat :=
  {k | ∃ vma, vas.virtualMemoryAreas[k]? = some vma ∧ vma.typ = .sharedMemory id ∧ Mapped vas vma}

/-- The attachments of an entry: a live process with an area. -/
def System.attachments (s : System) (id : Nat) : Set (Nat × Nat) :=
  {p | ∃ vas, s.processes[p.1]? = some vas ∧ p.2 ∈ attachedAreas vas id}

/-- What the step does with an entry that was there before it. It deletes the entry, which is
unlinked and not attached, and frees each of its frames once; or it keeps the entry, moves the
counter by one at most and frees none of its frames. -/
def Treats (s s' : System) (freed : List PhysFrame) (id : Nat) (entry : SharedMemoryEntry) :
    Prop :=
  (s'.entry id = none ∧ entry.unlinked = true ∧ s.attachments id = ∅ ∧
    ∀ f, entry.frames.Contains f → freed.count f = 1) ∨
  ∃ entry', s'.entry id = some entry' ∧ entry'.frames = entry.frames ∧
    (entry'.counter.toNat ≤ entry.counter.toNat + 1 ∧
      entry.counter.toNat ≤ entry'.counter.toNat + 1) ∧
    ∀ f, entry.frames.Contains f → f ∉ freed

/-- What is claimed of a step and the state after it. -/
structure Accounts (s s' : System) : Prop where
  counted : ∀ id entry, s'.entry id = some entry →
    (s'.attachments id).encard = entry.counter.toNat
  unattached : ∀ id, s'.entry id = none → s'.attachments id = ∅
  frees : ∃ freed, s'.frames.freed = s.frames.freed ++ freed ∧
    ∀ id entry, s.entry id = some entry → Treats s s' freed id entry

/-- A frame of an entry. -/
def System.HasFrame (s : System) (f : PhysFrame) : Prop :=
  ∃ id entry, s.entry id = some entry ∧ entry.frames.Contains f

/-- The condition on a step. The frame allocator has to hand out frames that are not those of an
entry, for entries and for page tables; an entry is attached only if it has as many frames as
pages, and not once it is to be deleted; an area is not detached twice; and a process does not
exit while its page tables show an entry. -/
def Proper (s : System) : Event → Prop
  | .openShm _ size _ => s.tables.nextFreeId + 1 < u64Bound ∧
    ∀ frames fa, s.frames.allocFrames ((size + pageSize - 1) / pageSize) = .ok (frames, fa) →
      ∀ f, frames.Contains f → ¬ s.HasFrame f
  | .attach _ id _ => ∀ entry, s.entry id = some entry →
    entry.size = entry.frames.len * pageSize ∧ (entry.unlinked = true → entry.counter ≠ 0) ∧
      entry.counter.toNat + 1 < u64Bound
  | .detach pid ptr => ∀ vas vma, s.processes[pid]? = some vas →
    vas.isAddressWithinVma ptr = .ok (some vma) → vma.typ = .sharedMemory 0 →
      Mapped vas vma ∧ ∀ f, IsTableFrame 3 vas.pageTables.rootTable f → ¬ s.HasFrame f
  | .exit pid => ∀ vas, s.processes[pid]? = some vas →
    ∀ f, vas.pageTables.Holds f → ¬ s.HasFrame f
  | .unlink _ | .delete _ => True

/-- The processes before the first call: their areas are well-formed and none of them is one of
shared memory. -/
structure Initial (s : System) : Prop where
  tables : s.tables = .new
  pending : s.pending = []
  wellFormed : ∀ (pid : Nat) vas, s.processes[pid]? = some vas → vas.WellFormed
  areas : ∀ (pid : Nat) vas vma id, s.processes[pid]? = some vas → vas.Has vma →
    vma.typ ≠ .sharedMemory id

/-- The pages of an area show frames of the range. -/
structure Shows (vas : VirtualAddressSpace) (vma : VirtualMemoryArea) (frames : PhysFrameRange) :
    Prop where
  oneHalf : vma.range.OneHalf
  inside : ∀ a, vma.range.ContainsAddr a → ∃ p, vas.pageTables.translate a = some p ∧
    frames.start.number ≤ p.asU64 / pageSize ∧ p.asU64 / pageSize < frames.stop.number

/-- The attached areas of an address space show the frames of their entries. -/
private structure Showing (entries : Nat → Option SharedMemoryEntry) (vas : VirtualAddressSpace) :
    Prop where
  wellFormed : vas.WellFormed
  shows : ∀ vma id, vas.Has vma → vma.typ = .sharedMemory id → Mapped vas vma →
    ∃ entry, entries id = some entry ∧ Shows vas vma entry.frames

/-- What holds of an entry. -/
private structure Counted (attached : Set (Nat × Nat)) (nextFreeId id : Nat)
    (entry : SharedMemoryEntry) : Prop where
  counted : attached.encard = entry.counter.toNat
  nonempty : entry.frames.len ≠ 0
  fresh : id < nextFreeId

/-- The invariant of the runs. -/
private structure Inv (s : System) : Prop where
  processes : ∀ (pid : Nat) vas, s.processes[pid]? = some vas → Showing s.entry vas
  entries : ∀ id entry, s.entry id = some entry →
    Counted (s.attachments id) s.tables.nextFreeId id entry
  apart : ∀ id id' entry entry', s.entry id = some entry → s.entry id' = some entry' →
    id ≠ id' → ∀ f, entry.frames.Contains f → ¬ entry'.frames.Contains f
  pending : ∀ id ∈ s.pending, id < s.tables.nextFreeId ∧
    ∀ entry, s.entry id = some entry → entry.unlinked = true ∧ entry.counter = 0

section

variable {s s' : System} {pid : Nat} {vas vas' : VirtualAddressSpace} {a id : Nat}

/-- The second address space has one attachment more. -/
private structure Gains (vas vas' : VirtualAddressSpace) (a id : Nat) : Prop where
  others : ∀ id' k, k ≠ a → (k ∈ attachedAreas vas' id' ↔ k ∈ attachedAreas vas id')
  before : ∀ id', a ∉ attachedAreas vas id'
  after : ∀ id', a ∈ attachedAreas vas' id' ↔ id' = id

variable (h : Gains vas vas' a id) (hvas : s.processes[pid]? = some vas)
include h hvas

private theorem Gains.not_mem (id' : Nat) : (pid, a) ∉ s.attachments id' := by
  rintro ⟨v, hv, hmem⟩
  cases Option.some.inj (hvas.symm.trans hv)
  exact h.before id' hmem

variable (hs : ∀ k : Nat, s'.processes[k]? = if k = pid then some vas' else s.processes[k]?)
include hs

private theorem Gains.mem_attachments (id' : Nat) (p : Nat × Nat) :
    p ∈ s'.attachments id' ↔ (p = (pid, a) ∧ id' = id) ∨ p ∈ s.attachments id' := by
  obtain ⟨k, b⟩ := p
  simp only [System.attachments, Set.mem_ofPred_eq, hs, Prod.mk.injEq]
  split
  next hk =>
    obtain rfl : k = pid := hk
    simp only [hvas, Option.some.injEq, exists_eq_left', true_and]
    by_cases hb : b = a
    · rw [hb, h.after]
      simp [h.before]
    · rw [h.others id' b hb]
      simp [hb]
  next hk => simp [show ¬ k = pid from hk]

private theorem Gains.encard : (s'.attachments id).encard = (s.attachments id).encard + 1 := by
  rw [← Set.encard_insert_of_notMem (h.not_mem hvas id)]
  congr 1
  ext p
  rw [h.mem_attachments hvas hs, Set.mem_insert_iff, and_iff_left rfl]

private theorem Gains.attachments_eq {id' : Nat} (hne : id' ≠ id) :
    s'.attachments id' = s.attachments id' := by
  ext p
  simp [h.mem_attachments hvas hs, hne]

end

section

variable {vas vas' : VirtualAddressSpace} {vma other : VirtualMemoryArea} {frames : PhysFrameRange}
  {id : Nat}

private theorem mapped_congr (h : ∀ a, vma.range.ContainsAddr a →
    vas'.pageTables.translate a = vas.pageTables.translate a) :
    Mapped vas' vma ↔ Mapped vas vma := by
  constructor
  · rintro ⟨a, ha, hmapped⟩
    exact ⟨a, ha, h a ha ▸ hmapped⟩
  · rintro ⟨a, ha, hmapped⟩
    exact ⟨a, ha, (h a ha).symm ▸ hmapped⟩

private theorem Shows.congr (h : Shows vas vma frames) (heq : ∀ a, vma.range.ContainsAddr a →
    vas'.pageTables.translate a = vas.pageTables.translate a) : Shows vas' vma frames := by
  refine ⟨h.oneHalf, fun a ha ↦ ?_⟩
  rw [heq a ha]
  exact h.inside a ha

section

variable (h : AddsArea vas vas' vma frames)
include h

private theorem AddsArea.start_free (hwf : vas.WellFormed) :
    vas.virtualMemoryAreas[vma.start.asU64]? = none := by
  cases hold : vas.virtualMemoryAreas[vma.start.asU64]? with
  | none => rfl
  | some old =>
    have hle := h.free old hold
    have hkey := hwf.keyed _ old hold
    have hlt := hwf.nonempty old ⟨_, hold⟩
    omega

private theorem AddsArea.getElem? (k : Nat) :
    vas'.virtualMemoryAreas[k]? =
      if k = vma.start.asU64 then some vma else vas.virtualMemoryAreas[k]? := by
  rw [h.areas, getElem?_insert_ite]

private theorem AddsArea.same (hwf : vas.WellFormed)
    (hother : vas.Has other) (a : VirtAddr) (ha : other.range.ContainsAddr a) :
    vas'.pageTables.translate a = vas.pageTables.translate a := by
  obtain ⟨k, hk⟩ := hother
  have hfree := h.start_free hwf
  have hne : k ≠ vma.start.asU64 := by
    rintro rfl
    rw [hfree] at hk
    cases hk
  apply h.outside
  have hhas : vas'.Has other := ⟨k, by rw [h.getElem?, if_neg hne, hk]⟩
  apply (h.wellFormed hwf).not_containsAddr hhas _ _ ha
  · exact ⟨_, by rw [h.getElem?, if_pos rfl]⟩
  · rintro rfl
    exact hne (hwf.keyed k other hk)

private theorem AddsArea.mapped : Mapped vas' vma := by
  have hlt := vma.range_lt h.nonempty
  have hcontains : vma.range.ContainsAddr vma.range.start.startAddress := by
    rw [PageRange.ContainsAddr, Page.containingAddress_startAddress]
    exact ⟨le_rfl, hlt⟩
  obtain ⟨p, hp, -⟩ := h.inside _ hcontains
  exact ⟨_, hcontains, by rw [hp]; rfl⟩

private theorem AddsArea.gains (hwf : vas.WellFormed)
    (htyp : vma.typ = .sharedMemory id) : Gains vas vas' vma.start.asU64 id := by
  refine ⟨fun id' k hk ↦ ?_, fun id' ↦ ?_, fun id' ↦ ?_⟩
  · simp only [attachedAreas, Set.mem_ofPred_eq, h.getElem?, if_neg hk]
    refine exists_congr fun w ↦ and_congr_right fun hw ↦ and_congr_right fun _ ↦ ?_
    exact mapped_congr (h.same hwf ⟨k, hw⟩)
  · rintro ⟨w, hw, -⟩
    rw [h.start_free hwf] at hw
    cases hw
  · simp only [attachedAreas, Set.mem_ofPred_eq, h.getElem?, if_true, Option.some.injEq,
      exists_eq_left', htyp, VmaType.sharedMemory.injEq, h.mapped, and_true, eq_comm]

end

/-- The pages of an area go, the others stay as they are. -/
structure ClearsArea (vas vas' : VirtualAddressSpace) (vma : VirtualMemoryArea) : Prop where
  areas : vas'.virtualMemoryAreas = vas.virtualMemoryAreas
  inside : ∀ a, vma.range.ContainsAddr a → vas'.pageTables.translate a = none
  outside : ∀ a, ¬ vma.range.ContainsAddr a →
    vas'.pageTables.translate a = vas.pageTables.translate a

section

variable (h : ClearsArea vas vas' vma)
include h

private theorem ClearsArea.not_mapped : ¬ Mapped vas' vma := by
  rintro ⟨a, ha, hmapped⟩
  rw [h.inside a ha] at hmapped
  cases hmapped

private theorem ClearsArea.same (hwf : vas.WellFormed)
    (hvma : vas.Has vma) (hother : vas.Has other) (hne : other ≠ vma) (a : VirtAddr)
    (ha : other.range.ContainsAddr a) :
    vas'.pageTables.translate a = vas.pageTables.translate a :=
  h.outside a (hwf.not_containsAddr hother hvma hne ha)

private theorem ClearsArea.gains (hwf : vas.WellFormed)
    (hvma : vas.Has vma) (htyp : vma.typ = .sharedMemory id) (hmapped : Mapped vas vma) :
    Gains vas' vas vma.start.asU64 id := by
  have hstored : vas.virtualMemoryAreas[vma.start.asU64]? = some vma := by
    obtain ⟨k, hk⟩ := hvma
    rw [← hwf.keyed k vma hk]
    exact hk
  refine ⟨fun id' k hk ↦ ?_, fun id' ↦ ?_, fun id' ↦ ?_⟩
  · simp only [attachedAreas, Set.mem_ofPred_eq, h.areas]
    refine exists_congr fun w ↦ and_congr_right fun hw ↦ and_congr_right fun _ ↦ ?_
    refine (mapped_congr (h.same hwf hvma ⟨k, hw⟩ ?_)).symm
    rintro rfl
    exact hk (hwf.keyed k w hw)
  · rintro ⟨w, hw, -, hmapped'⟩
    rw [h.areas, hstored] at hw
    cases hw
    exact h.not_mapped hmapped'
  · simp only [attachedAreas, Set.mem_ofPred_eq, hstored, Option.some.injEq, exists_eq_left', htyp,
      VmaType.sharedMemory.injEq, hmapped, and_true, eq_comm]

end

end

section

variable {s s' : System} {pid id : Nat}

private theorem attachments_congr (h : s'.processes = s.processes) (id : Nat) :
    s'.attachments id = s.attachments id := by
  rw [System.attachments, h, System.attachments]

private theorem Inv.unattached (h : Inv s) (hid : s.entry id = none) : s.attachments id = ∅ := by
  rw [Set.eq_empty_iff_forall_notMem]
  rintro p ⟨vas, hvas, vma, hvma, htyp, hmapped⟩
  obtain ⟨entry, hentry, -⟩ := (h.processes p.1 vas hvas).shows vma id ⟨_, hvma⟩ htyp hmapped
  rw [hid] at hentry
  cases hentry

private theorem Showing.mono {entries entries' : Nat → Option SharedMemoryEntry}
    {vas : VirtualAddressSpace} (h : Showing entries vas) (hkept : ∀ id e, entries id = some e →
      ∃ e', entries' id = some e' ∧ e'.frames = e.frames) : Showing entries' vas := by
  refine ⟨h.wellFormed, fun vma id hhas htyp hmapped ↦ ?_⟩
  obtain ⟨e, he, hshows⟩ := h.shows vma id hhas htyp hmapped
  obtain ⟨e', he', hframes⟩ := hkept id e he
  exact ⟨e', he', hframes ▸ hshows⟩

private theorem accounts_of_kept (hinv : Inv s')
    (hkept : ∀ id entry, s.entry id = some entry → ∃ entry', s'.entry id = some entry' ∧
      entry'.frames = entry.frames ∧ entry'.counter.toNat ≤ entry.counter.toNat + 1 ∧
        entry.counter.toNat ≤ entry'.counter.toNat + 1)
    (hfrees : FreesOnly s.frames s'.frames fun f ↦ ¬ s.HasFrame f) : Accounts s s' := by
  obtain ⟨freed, hfreed, hnot⟩ := hfrees
  refine ⟨fun id e he ↦ (hinv.entries id e he).counted, fun id ↦ hinv.unattached, freed, hfreed,
    fun id entry hentry ↦ ?_⟩
  obtain ⟨entry', hentry', hframes, hcounter⟩ := hkept id entry hentry
  exact .inr ⟨entry', hentry', hframes, hcounter,
    fun f hf hmem ↦ hnot f hmem ⟨id, entry, hentry, hf⟩⟩

private theorem accounts_of_entries_eq (hinv : Inv s') (hentries : s'.entry = s.entry)
    (hfrees : FreesOnly s.frames s'.frames fun f ↦ ¬ s.HasFrame f) : Accounts s s' :=
  accounts_of_kept hinv
    (fun _ entry hentry ↦ ⟨entry, hentries ▸ hentry, rfl, Nat.le_succ _, Nat.le_succ _⟩) hfrees

private theorem Inv.accounts_self (h : Inv s) : Accounts s s :=
  accounts_of_entries_eq h rfl (.refl _ _)

/-- A step that changes counter and mark of one entry. -/
private structure Changes (s s' : System) (id : Nat) (entry new : SharedMemoryEntry) : Prop where
  before : s.entry id = some entry
  entries : ∀ id', s'.entry id' = if id' = id then some new else s.entry id'
  nextFreeId : s'.tables.nextFreeId = s.tables.nextFreeId
  shape : new.frames = entry.frames
  counter : new.counter.toNat ≤ entry.counter.toNat + 1 ∧
    entry.counter.toNat ≤ new.counter.toNat + 1
  others : ∀ id' ≠ id, s'.attachments id' = s.attachments id'
  counted : (s'.attachments id).encard = new.counter.toNat
  pending : ∀ id' ∈ s'.pending, id' ∈ s.pending ∨ id' = id
  due : id ∈ s'.pending → new.unlinked = true ∧ new.counter = 0
  frees : FreesOnly s.frames s'.frames fun f ↦ ¬ s.HasFrame f

section

variable {entry new : SharedMemoryEntry}

variable (hc : Changes s s' id entry new)
include hc

private theorem Changes.kept {id' : Nat} {e : SharedMemoryEntry}
    (he : s.entry id' = some e) : ∃ e', s'.entry id' = some e' ∧ e'.frames = e.frames ∧
      e'.counter.toNat ≤ e.counter.toNat + 1 ∧ e.counter.toNat ≤ e'.counter.toNat + 1 := by
  rw [hc.entries]
  split
  next hid =>
    cases Option.some.inj (hc.before.symm.trans (hid ▸ he))
    exact ⟨new, rfl, hc.shape, hc.counter⟩
  next => exact ⟨e, he, rfl, Nat.le_succ _, Nat.le_succ _⟩

private theorem Changes.of_some {id' : Nat} {e' : SharedMemoryEntry}
    (he' : s'.entry id' = some e') : ∃ e, s.entry id' = some e ∧ e'.frames = e.frames := by
  rw [hc.entries] at he'
  split at he'
  next hid =>
    cases he'
    exact ⟨entry, hid ▸ hc.before, hc.shape⟩
  next => exact ⟨e', he', rfl⟩

private theorem Changes.inv (h : Inv s)
    (hprocs : ∀ (pid : Nat) vas, s'.processes[pid]? = some vas → Showing s.entry vas) :
    Inv s' ∧ Accounts s s' := by
  have hinv : Inv s' := by
    constructor
    case processes =>
      intro pid vas hvas
      refine (hprocs pid vas hvas).mono fun id' e he ↦ ?_
      obtain ⟨e', he', hframes, -⟩ := hc.kept he
      exact ⟨e', he', hframes⟩
    case entries =>
      intro id' e he
      rw [hc.entries] at he
      split at he
      next hid =>
        cases he
        have hold := h.entries id entry hc.before
        rw [hid]
        refine ⟨hc.counted, ?_, hc.nextFreeId ▸ hold.fresh⟩
        rw [hc.shape]
        exact hold.nonempty
      next hid =>
        rw [hc.others id' hid, hc.nextFreeId]
        exact h.entries id' e he
    case apart =>
      intro id₁ id₂ e₁ e₂ he₁ he₂ hne f
      obtain ⟨_, ho₁, hframes₁⟩ := hc.of_some he₁
      obtain ⟨_, ho₂, hframes₂⟩ := hc.of_some he₂
      rw [hframes₁, hframes₂]
      exact h.apart id₁ id₂ _ _ ho₁ ho₂ hne f
    case pending =>
      intro id' hid'
      rw [hc.nextFreeId, hc.entries]
      by_cases hid : id' = id
      · subst hid
        refine ⟨(h.entries id' entry hc.before).fresh, fun e he ↦ ?_⟩
        rw [if_pos rfl] at he
        cases he
        exact hc.due hid'
      · rw [if_neg hid]
        exact h.pending id' ((hc.pending id' hid').resolve_right hid)
  exact ⟨hinv, accounts_of_kept hinv (fun _ _ ↦ hc.kept) hc.frees⟩

end

section

variable {vas vas' : VirtualAddressSpace} {vma : VirtualMemoryArea}

private theorem Inv.processes_update (h : Inv s) (hvas' : Showing s.entry vas')
    (hs : ∀ k : Nat, s'.processes[k]? = if k = pid then some vas' else s.processes[k]?) :
    ∀ (k : Nat) v, s'.processes[k]? = some v → Showing s.entry v := by
  intro k v hk
  rw [hs] at hk
  split at hk
  · cases hk
    exact hvas'
  · exact h.processes k v hk

private theorem Showing.same (h : Showing s.entry vas)
    (hhas : vas.Has vma) (htyp : vma.typ = .sharedMemory id) (hmapped : Mapped vas' vma)
    (hsame : ∀ a, vma.range.ContainsAddr a →
      vas'.pageTables.translate a = vas.pageTables.translate a) :
    ∃ entry, s.entry id = some entry ∧ Shows vas' vma entry.frames := by
  obtain ⟨e, he, hshows⟩ := h.shows vma id hhas htyp ((mapped_congr hsame).mp hmapped)
  exact ⟨e, he, hshows.congr hsame⟩

end

/-- A step that returned a state. -/
theorem after_eq_ok {α : Type} {m : EStateM Panic System α} (h : after m s = .ok s') :
    ∃ r, m s = .ok r s' := by
  unfold after at h
  split at h
  next r t heq =>
    cases h
    exact ⟨r, heq⟩
  next => cases h

private theorem inv_attach {readOnly : Bool} {a : Nat} (h : Inv s)
    (hproper : Proper s (.attach pid id readOnly)) (hat : Attaches s pid id readOnly a s') :
    Inv s' ∧ Accounts s s' := by
  obtain ⟨vas, entry, mid, vma, vas', fa, hvas, hentry, hmid, hmap, rfl, rfl⟩ := hat
  obtain ⟨-, hdue, hbound⟩ := hproper entry hentry
  have hadds := addsArea_of_attach hmid hmap
  have htyp := (VirtualAddressSpace.allocVma_some hmid).2.1
  have hshowing := h.processes pid vas hvas
  have hwf := hshowing.wellFormed
  have hfreed : fa.freed = s.frames.freed :=
    (mapPhysical_onlyAllocated (VirtualAddressSpace.mapPfrForVma_ok hmap).2.2.2).2
  set new : SharedMemoryEntry := { entry with counter := entry.counter + 1 } with hnew
  have hprocs := processes_setProcess s pid vas' fa
  have hgains := hadds.gains hwf htyp
  have hcounter : new.counter.toNat = entry.counter.toNat + 1 := by
    exact Nat.mod_eq_of_lt hbound
  have hchanges : Changes s ((s.setProcess pid vas' fa).setEntry id new) id entry new := by
    refine ⟨hentry, entry_setEntry _ id new, rfl, rfl, by omega,
      fun _ ↦ hgains.attachments_eq hvas hprocs, ?_, fun _ ↦ .inl, fun hid ↦ ?_,
      [], by rw [List.append_nil]; exact hfreed, nofun⟩
    · refine (hgains.encard hvas hprocs).trans ?_
      rw [(h.entries id entry hentry).counted, hcounter, Nat.cast_add, Nat.cast_one]
    · obtain ⟨hunlinked, hzero⟩ := (h.pending id hid).2 entry hentry
      exact absurd hzero (hdue hunlinked)
  refine hchanges.inv h (h.processes_update
    ⟨hadds.wellFormed hwf, fun w id' hw hwtyp hmapped ↦ ?_⟩ hprocs)
  obtain ⟨k, hk⟩ := hw
  rw [hadds.getElem?] at hk
  split at hk
  next =>
    cases hk
    cases htyp.symm.trans hwtyp
    exact ⟨entry, hentry, hadds.oneHalf, hadds.inside⟩
  next => exact hshowing.same ⟨k, hk⟩ hwtyp hmapped (hadds.same hwf ⟨k, hk⟩)

private theorem release_spec (s : System) (id : Nat) (entry : SharedMemoryEntry) :
    (s.release id entry).frames = s.frames ∧
    (s.release id entry).tables.nextFreeId = s.tables.nextFreeId ∧
    ∀ id' ∈ (s.release id entry).pending, id' ∈ s.pending ∨
      (id' = id ∧ entry.counter = 1 ∧ entry.unlinked = true) := by
  unfold System.release
  split
  next hlast =>
    refine ⟨rfl, rfl, fun id' hid' ↦ ?_⟩
    rcases List.mem_append.mp hid' with hold | hid
    · exact .inl hold
    · exact .inr ⟨List.mem_singleton.mp hid, hlast⟩
  next => exact ⟨rfl, rfl, fun _ ↦ .inl⟩

private theorem inv_detach {ptr : Nat} (h : Inv s) (hproper : Proper s (.detach pid ptr))
    {vas vas' : VirtualAddressSpace} {vma : VirtualMemoryArea} {fa : FrameAllocator}
    (hvas : s.processes[pid]? = some vas) (hfind : vas.isAddressWithinVma ptr = .ok (some vma))
    (htyp : vma.typ = .sharedMemory 0)
    (hun : vas.unmapVma vma false s.frames = .ok (vas', fa)) :
    ∃ entry, s.entry 0 = some entry ∧ Inv ((s.setProcess pid vas' fa).release 0 entry) ∧
      Accounts s ((s.setProcess pid vas' fa).release 0 entry) := by
  obtain ⟨hmapped, hapart⟩ := hproper vas vma hvas hfind htyp
  have hshowing := h.processes pid vas hvas
  have hwf := hshowing.wellFormed
  obtain ⟨hhas, -, -⟩ := (hwf.isAddressWithinVma hfind vma).mp rfl
  obtain ⟨entry, hentry, hshows⟩ := hshowing.shows vma 0 hhas htyp hmapped
  refine ⟨entry, hentry, ?_⟩
  obtain ⟨paging, fa', hun', hin, hout, hfrees⟩ := VirtualAddressSpace.unmapVma_of_mapped false
    s.frames hshows.oneHalf (vma.range_lt (hwf.nonempty vma hhas)).le fun a ha ↦ by
      obtain ⟨p, hp, -⟩ := hshows.inside a ha
      rw [hp]
      rfl
  rw [hun] at hun'
  cases hun'
  set vas' : VirtualAddressSpace := { vas with pageTables := paging } with hvas'
  have hclears : ClearsArea vas vas' vma := ⟨rfl, hin, hout⟩
  have hwf' : vas'.WellFormed := ⟨hwf.keyed, hwf.nonempty, hwf.disjoint, hwf.user, hwf.kernel⟩
  set new : SharedMemoryEntry := { entry with counter := entry.counter - 1 } with hnew
  obtain ⟨hframes, hnext, hpending⟩ := release_spec (s.setProcess pid vas' fa) 0 entry
  set s' := (s.setProcess pid vas' fa).release 0 entry with hs'
  have hprocs : ∀ k : Nat, s'.processes[k]? = if k = pid then some vas' else s.processes[k]? := by
    intro k
    rw [hs', processes_release, processes_setProcess]
  have hback : ∀ k : Nat, s.processes[k]? = if k = pid then some vas else s'.processes[k]? := by
    intro k
    rw [hprocs]
    split
    next hk => rw [hk, hvas]
    next => rfl
  have hafter : s'.processes[pid]? = some vas' := by rw [hprocs, if_pos rfl]
  have hgains := hclears.gains hwf hhas htyp hmapped
  have hcount := hgains.encard hafter hback
  rw [(h.entries 0 entry hentry).counted] at hcount
  have hpos : 1 ≤ entry.counter.toNat := by
    have hone : (1 : ENat) ≤ (s'.attachments 0).encard + 1 := le_add_self
    rw [← hcount] at hone
    exact_mod_cast hone
  have hcounter : new.counter.toNat + 1 = entry.counter.toNat := by
    have hsub := UInt64.toNat_sub_of_le entry.counter 1 (UInt64.le_iff_toNat_le.mpr hpos)
    rw [UInt64.toNat_one] at hsub
    simp only [hnew, hsub]
    omega
  have hchanges : Changes s s' 0 entry new := by
    refine ⟨hentry, entry_release _ 0 entry, hnext, rfl, by omega,
      fun _ hne ↦ (hgains.attachments_eq hafter hback hne).symm, ?_,
      fun id' hid' ↦ (hpending id' hid').imp_right And.left, fun hid ↦ ?_, ?_⟩
    · rw [← hcounter, Nat.cast_add, Nat.cast_one] at hcount
      exact (ENat.add_left_injective_of_ne_top (by simp) hcount).symm
    · rcases hpending 0 hid with hold | ⟨-, hone, hunlinked⟩
      · rw [((h.pending 0 hold).2 entry hentry).2] at hpos
        exact absurd hpos (by decide)
      · refine ⟨hunlinked, ?_⟩
        simp only [hnew, hone]
        rfl
    · rw [hframes]
      obtain ⟨freed, hfreed, hmay⟩ := hfrees
      refine ⟨freed, hfreed, fun f hf ↦ ?_⟩
      rcases hmay f hf with ⟨hfalse, -⟩ | htable
      · cases hfalse
      · exact hapart f htable.isTableFrame
  refine hchanges.inv h (h.processes_update ⟨hwf', fun w id' hw hwtyp hwmapped ↦ ?_⟩ hprocs)
  have hne : w ≠ vma := by
    rintro rfl
    exact hclears.not_mapped hwmapped
  exact hshowing.same hw hwtyp hwmapped (hclears.same hwf hhas hw hne)

private theorem inv_open {name : String} {size : Nat} {create : Bool} (h : Inv s)
    (hproper : Proper s (.openShm name size create)) {naming : Std.ExtTreeMap String Nat}
    {frames : PhysFrameRange} {fa : FrameAllocator}
    (halloc : s.frames.allocFrames ((size + pageSize - 1) / pageSize) = .ok (frames, fa))
    (hs : s' = { s with
      tables := ⟨naming, s.tables.entryTable.insert s.tables.nextFreeId (.new
        ((size + pageSize - 1) / pageSize * pageSize) frames),
        (s.tables.nextFreeId + 1) % u64Bound⟩
      frames := fa }) : Inv s' ∧ Accounts s s' := by
  obtain ⟨hbound, hapart⟩ := hproper
  obtain ⟨-, hne, hfreed⟩ := FrameAllocator.allocFrames_eq_ok halloc
  set n := s.tables.nextFreeId with hn
  set new := SharedMemoryEntry.new ((size + pageSize - 1) / pageSize * pageSize) frames with hnew
  have hentries : ∀ id', s'.entry id' = if id' = n then some new else s.entry id' := by
    intro id'
    rw [hs]
    exact getElem?_insert_ite _ _ _ _
  have hprocs : s'.processes = s.processes := by rw [hs]
  have hnext : s'.tables.nextFreeId = n + 1 := by
    rw [hs]
    exact Nat.mod_eq_of_lt hbound
  have hnone : s.entry n = none := by
    rw [Option.eq_none_iff_forall_ne_some]
    exact fun e he ↦ absurd (h.entries n e he).fresh (lt_irrefl n)
  have hother : ∀ id' e, s.entry id' = some e → s'.entry id' = some e := by
    intro id' e he
    rw [hentries, if_neg, he]
    rintro rfl
    rw [hnone] at he
    cases he
  have hinv : Inv s' := by
    constructor
    case processes =>
      rw [hprocs]
      exact fun k v hk ↦ (h.processes k v hk).mono fun id' e he ↦ ⟨e, hother id' e he, rfl⟩
    case entries =>
      intro id' e he
      rw [hentries] at he
      split at he
      next hid =>
        cases he
        refine ⟨?_, hne, by omega⟩
        rw [attachments_congr hprocs, hid, h.unattached hnone, Set.encard_empty]
        rfl
      next =>
        have hold := h.entries id' e he
        exact ⟨attachments_congr hprocs id' ▸ hold.counted, hold.nonempty,
          hnext ▸ Nat.lt_succ_of_lt hold.fresh⟩
    case apart =>
      intro id₁ id₂ e₁ e₂ he₁ he₂ hne f hf₁ hf₂
      rw [hentries] at he₁ he₂
      split at he₁
      next hid₁ =>
        cases he₁
        rw [if_neg fun heq ↦ hne (hid₁.trans heq.symm)] at he₂
        exact hapart frames fa halloc f hf₁ ⟨id₂, e₂, he₂, hf₂⟩
      next hid₁ =>
        split at he₂
        next =>
          cases he₂
          exact hapart frames fa halloc f hf₂ ⟨id₁, e₁, he₁, hf₁⟩
        next => exact h.apart id₁ id₂ e₁ e₂ he₁ he₂ hne f hf₁ hf₂
    case pending =>
      intro id' hid'
      have hmem : id' ∈ s.pending := by
        rw [hs] at hid'
        exact hid'
      obtain ⟨hlt, hdone⟩ := h.pending id' hmem
      refine ⟨hnext ▸ Nat.lt_succ_of_lt hlt, fun e he ↦ ?_⟩
      rw [hentries, if_neg (by omega)] at he
      exact hdone e he
  refine ⟨hinv, accounts_of_kept hinv (fun id' e he ↦ ?_) ⟨[], ?_, nofun⟩⟩
  · exact ⟨e, hother id' e he, rfl, Nat.le_succ _, Nat.le_succ _⟩
  · rw [List.append_nil, hs]
    exact hfreed

/-- A name goes, and with it the entry may become unlinked. -/
theorem unlink_outcome (name : String) (s : System) :
    Ends (unlink name) s (fun _ s' ↦ s' = s ∨ ∃ naming, s' = { s with
        tables := { s.tables with namingTable := naming } } ∨
      ∃ id entry, s.entry id = some entry ∧ s' = System.orphan { s with
        tables := { s.tables with namingTable := naming } } id entry) (fun _ _ ↦ True) := by
  simp only [unlink, ends_bind, ends_get]
  cases s.tables.namingTable[name]? with
  | none => exact .inl rfl
  | some id =>
    simp only [ends_bind, ends_set]
    cases hentry : s.entry id with
    | none =>
      rw [show System.entry { s with tables := { s.tables with
        namingTable := s.tables.namingTable.erase name } } id = none from hentry]
      exact .inr ⟨_, .inl rfl⟩
    | some entry =>
      rw [show System.entry { s with tables := { s.tables with
        namingTable := s.tables.namingTable.erase name } } id = some entry from hentry]
      exact .inr ⟨_, .inr ⟨id, entry, hentry, rfl⟩⟩

private theorem inv_naming (h : Inv s) (naming : Std.ExtTreeMap String Nat) :
    Inv { s with tables := { s.tables with namingTable := naming } } :=
  ⟨h.processes, h.entries, h.apart, h.pending⟩

private theorem accounts_of_naming {naming : Std.ExtTreeMap String Nat}
    (h : Accounts { s with tables := { s.tables with namingTable := naming } } s') :
    Accounts s s' :=
  ⟨h.counted, h.unattached, h.frees⟩

private theorem inv_orphan (h : Inv s) {entry : SharedMemoryEntry}
    (hentry : s.entry id = some entry) (hs : s' = s.orphan id entry) :
    Inv s' ∧ Accounts s s' := by
  set new : SharedMemoryEntry := { entry with unlinked := true } with hnew
  obtain ⟨hprocs, hframes, hnext, hpending⟩ : s'.processes = s.processes ∧
      s'.frames = s.frames ∧ s'.tables.nextFreeId = s.tables.nextFreeId ∧
      ∀ id' ∈ s'.pending, id' ∈ s.pending ∨ (id' = id ∧ entry.counter = 0) := by
    rw [hs, System.orphan]
    split
    next hzero =>
      refine ⟨rfl, rfl, rfl, fun id' hid' ↦ ?_⟩
      rcases List.mem_append.mp hid' with hold | hlast
      · exact .inl hold
      · exact .inr ⟨List.mem_singleton.mp hlast, hzero⟩
    next => exact ⟨rfl, rfl, rfl, fun _ ↦ .inl⟩
  have hchanges : Changes s s' id entry new := by
    refine ⟨hentry, fun id' ↦ by rw [hs, entry_orphan], hnext, rfl,
      ⟨Nat.le_succ _, Nat.le_succ _⟩, fun id' _ ↦ attachments_congr hprocs id',
      attachments_congr hprocs id ▸ (h.entries id entry hentry).counted,
      fun id' hid' ↦ (hpending id' hid').imp_right And.left, fun hid ↦ ⟨rfl, ?_⟩,
      hframes ▸ .refl _ _⟩
    rcases hpending id hid with hold | ⟨-, hzero⟩
    · exact ((h.pending id hold).2 entry hentry).2
    · exact hzero
  exact hchanges.inv h (hprocs ▸ h.processes)

private theorem inv_delete (h : Inv s) (hid : id ∈ s.pending)
    (hs : s' = delete id { s with pending := s.pending.erase id }) : Inv s' ∧ Accounts s s' := by
  have hmem : ∀ id' ∈ s.pending.erase id, id' ∈ s.pending := fun _ ↦ List.mem_of_mem_erase
  cases hentry : s.entry id with
  | none =>
    have hs' : s' = { s with pending := s.pending.erase id } := by
      rw [hs, delete, show System.entry { s with pending := s.pending.erase id } id = none
        from hentry]
    have hinv : Inv s' := by
      rw [hs']
      exact ⟨h.processes, h.entries, h.apart, fun id' hid' ↦ h.pending id' (hmem id' hid')⟩
    exact ⟨hinv, accounts_of_entries_eq hinv (by rw [hs']; rfl) (hs' ▸ .refl _ _)⟩
  | some entry =>
    have hs' : s' = { s with
        pending := s.pending.erase id
        tables := { s.tables with entryTable := s.tables.entryTable.erase id }
        frames := s.frames.freeFrames entry.frames } := by
      rw [hs, delete, show System.entry { s with pending := s.pending.erase id } id = some entry
        from hentry]
    obtain ⟨-, hdone⟩ := h.pending id hid
    obtain ⟨hunlinked, hzero⟩ := hdone entry hentry
    have hempty : s.attachments id = ∅ := by
      rw [← Set.encard_eq_zero, (h.entries id entry hentry).counted, hzero]
      rfl
    have hentries : ∀ id', s'.entry id' = if id' = id then none else s.entry id' := by
      intro id'
      rw [hs']
      exact getElem?_erase_ite _ _ _
    have hold : ∀ id' e, s'.entry id' = some e → id' ≠ id ∧ s.entry id' = some e := by
      intro id' e he
      rw [hentries] at he
      split at he
      next => cases he
      next hne => exact ⟨hne, he⟩
    have hprocs : s'.processes = s.processes := by rw [hs']
    have hnext : s'.tables.nextFreeId = s.tables.nextFreeId := by rw [hs']
    have hinv : Inv s' := by
      constructor
      case processes =>
        intro k v hk
        rw [hprocs] at hk
        have hshowing := h.processes k v hk
        refine ⟨hshowing.wellFormed, fun w id' hw htyp hmapped ↦ ?_⟩
        obtain ⟨e, he, hshows⟩ := hshowing.shows w id' hw htyp hmapped
        refine ⟨e, ?_, hshows⟩
        rw [hentries, if_neg, he]
        rintro rfl
        obtain ⟨k', hk'⟩ := hw
        exact Set.notMem_empty (k, k') (hempty ▸ ⟨v, hk, w, hk', htyp, hmapped⟩)
      case entries =>
        intro id' e he
        rw [attachments_congr hprocs, hnext]
        exact h.entries id' e (hold id' e he).2
      case apart =>
        intro id₁ id₂ e₁ e₂ he₁ he₂
        exact h.apart id₁ id₂ e₁ e₂ (hold _ _ he₁).2 (hold _ _ he₂).2
      case pending =>
        intro id' hid'
        obtain ⟨hlt, hdone'⟩ := h.pending id' (hmem id' (by rw [hs'] at hid'; exact hid'))
        exact ⟨hnext ▸ hlt, fun e he ↦ hdone' e (hold id' e he).2⟩
    refine ⟨hinv, fun id' e he ↦ (hinv.entries id' e he).counted, fun id' ↦ hinv.unattached,
      entry.frames.frames, by rw [hs']; rfl, ?_⟩
    intro id' e he
    by_cases hne : id' = id
    · subst hne
      cases Option.some.inj (hentry.symm.trans he)
      refine .inl ⟨by rw [hentries, if_pos rfl], hunlinked, hempty, fun f hf ↦ ?_⟩
      exact List.count_eq_one_of_mem entry.frames.nodup_frames (PhysFrameRange.mem_frames.mpr hf)
    · refine .inr ⟨e, by rw [hentries, if_neg hne, he], rfl, by omega, fun f hf hmem ↦ ?_⟩
      exact h.apart id' id e entry he hentry hne f hf (PhysFrameRange.mem_frames.mp hmem)

private theorem inv_exit (h : Inv s) (hproper : Proper s (.exit pid))
    (hexit : exit pid s = .ok s') :
    Inv s' ∧ Accounts s s' := by
  obtain ⟨vas, hvas, hexit⟩ := of_bind hexit
  obtain ⟨fa, hdrop, hexit⟩ := of_bind hexit
  have hs' := (Except.ok.inj hexit).symm
  have hsome : s.processes[pid]? = some vas := by
    cases hp : s.processes[pid]? with
    | none =>
      rw [hp] at hvas
      cases hvas
    | some v =>
      rw [hp] at hvas
      cases hvas
      rfl
  have hholds := hproper vas hsome
  have hprocs : ∀ k : Nat, s'.processes[k]? = if k = pid then none else s.processes[k]? := by
    intro k
    rw [hs']
    exact getElem?_erase_ite _ _ _
  have hlive : ∀ (k : Nat) v, s'.processes[k]? = some v → s.processes[k]? = some v := by
    intro k v hk
    rw [hprocs] at hk
    split at hk
    next => cases hk
    next => exact hk
  -- the process has nothing attached: a page of an attachment would show a frame of its entry
  have hnothing : ∀ id', attachedAreas vas id' = ∅ := by
    intro id'
    rw [Set.eq_empty_iff_forall_notMem]
    rintro k ⟨w, hw, htyp, hmapped⟩
    obtain ⟨e, he, hshows⟩ := (h.processes pid vas hsome).shows w id' ⟨k, hw⟩ htyp hmapped
    obtain ⟨a, ha, -⟩ := hmapped
    obtain ⟨p, hp, hle, hlt⟩ := hshows.inside a ha
    obtain ⟨f, hf, hnum⟩ := Paging.holds_of_translate hp
    exact hholds f hf ⟨id', e, he, hnum ▸ hle, hnum ▸ hlt⟩
  have hatt : ∀ id', s'.attachments id' = s.attachments id' := by
    intro id'
    ext ⟨k, a⟩
    simp only [System.attachments, Set.mem_ofPred_eq, hprocs]
    split
    next hk =>
      obtain rfl : k = pid := hk
      simp [hsome, hnothing]
    next => rfl
  have hinv : Inv s' := by
    rw [hs'] at hatt hlive ⊢
    refine ⟨fun k v hk ↦ h.processes k v (hlive k v hk), fun id' e he ↦ ?_, h.apart, h.pending⟩
    rw [hatt]
    exact h.entries id' e he
  refine ⟨hinv, accounts_of_entries_eq hinv (by rw [hs']; rfl) ?_⟩
  rw [hs']
  obtain ⟨freed, hfreed, hheld⟩ := VirtualAddressSpace.drop_frees hdrop
  exact ⟨freed, hfreed, fun f hf ↦ hholds f (hheld f hf)⟩

private theorem inv_step {event : Event} (h : Inv s) (hproper : Proper s event)
    (hstep : step s event = .ok s') : Inv s' ∧ Accounts s s' := by
  cases event with
  | openShm name size create =>
    obtain ⟨r, hr⟩ := after_eq_ok hstep
    rcases (openShm_outcome name size create s).of_ok hr with
      ⟨rfl, -⟩ | ⟨naming, frames, fa, halloc, -, hs⟩
    · exact ⟨h, h.accounts_self⟩
    · exact inv_open h hproper halloc hs
  | attach pid id readOnly =>
    obtain ⟨r, hr⟩ := after_eq_ok hstep
    rcases (attach_outcome pid id readOnly s).of_ok hr with ⟨-, rfl | ⟨hmis, -⟩⟩ | ⟨a, -, hat⟩
    · exact ⟨h, h.accounts_self⟩
    · have ⟨_, entry, _, _, hentry, _⟩ := hmis
      exact absurd hmis (not_misfits hentry (h.entries _ entry hentry).nonempty
        (hproper entry hentry).1)
    · exact inv_attach h hproper hat
  | detach pid ptr =>
    obtain ⟨r, hr⟩ := after_eq_ok hstep
    rcases (detach_outcome pid ptr s).of_ok hr with
      ⟨-, rfl⟩ | ⟨vas, vma, vas', fa, hvas, hfind, htyp, hun, hend⟩
    · exact ⟨h, h.accounts_self⟩
    · obtain ⟨entry, hentry, hdone⟩ := inv_detach h hproper hvas hfind htyp hun
      rcases hend with ⟨hnone, -⟩ | ⟨entry', hentry', -, hs⟩
      · rw [hnone] at hentry
        cases hentry
      · cases Option.some.inj (hentry.symm.trans hentry')
        rw [hs]
        exact hdone
  | unlink name =>
    obtain ⟨r, hr⟩ := after_eq_ok hstep
    rcases (unlink_outcome name s).of_ok hr with rfl | ⟨naming, rfl | ⟨id, entry, hentry, hs⟩⟩
    · exact ⟨h, h.accounts_self⟩
    · exact ⟨inv_naming h naming, accounts_of_naming (inv_naming h naming).accounts_self⟩
    · obtain ⟨hinv, haccounts⟩ := inv_orphan (inv_naming h naming) hentry hs
      exact ⟨hinv, accounts_of_naming haccounts⟩
  | delete id =>
    simp only [step] at hstep
    split at hstep
    next hid => exact inv_delete h hid (Except.ok.inj hstep).symm
    next =>
      cases hstep
      exact ⟨h, h.accounts_self⟩
  | exit pid => exact inv_exit h hproper hstep

end

private theorem inv_of_initial {s : System} (h : Initial s) : Inv s := by
  have hno : ∀ id entry, s.entry id ≠ some entry := by
    intro id entry
    rw [System.entry, h.tables, show ShmTables.new.entryTable[id]? = none
      from Std.ExtTreeMap.getElem?_empty]
    nofun
  refine ⟨fun pid vas hvas ↦ ⟨h.wellFormed pid vas hvas, fun vma id hhas htyp ↦ ?_⟩,
    fun id entry he ↦ absurd he (hno id entry), fun id _ entry _ he ↦ absurd he (hno id entry), ?_⟩
  · exact absurd htyp (h.areas pid vas vma id hvas hhas)
  · rw [h.pending]
    exact nofun

namespace Sample

/-- An entry is created and attached and loses its name. -/
def shared : List Event := [.openShm "first" 1 true, .attach 1 0 false, .unlink "first"]

/-- A process exits while an entry is attached. -/
def exited : List Event := [.openShm "first" 1 true, .attach 1 0 false, .exit 1]

/-- An entry is attached twice, and one of its areas is detached three times. -/
def detachedAgain : List Event :=
  [.openShm "first" 1 true, .attach 1 0 false, .attach 1 0 false, .detach 1 0x10000000000,
    .detach 1 0x10000000000, .detach 1 0x10000000000]

private theorem initial : Initial system := by
  have hspace : ∀ (pid : Nat) vas, system.processes[pid]? = some vas → vas = space := by
    intro pid vas h
    have hget : ((∅ : Std.ExtTreeMap Nat VirtualAddressSpace).insert 1 space)[pid]? = some vas := h
    rw [getElem?_insert_ite] at hget
    split at hget
    next => exact (Option.some.inj hget).symm
    next => cases Std.ExtTreeMap.getElem?_empty.symm.trans hget
  have hnone : ∀ vma, ¬ space.Has vma := by
    rintro vma ⟨k, hk⟩
    cases Std.ExtTreeMap.getElem?_empty.symm.trans hk
  have hwf : space.WellFormed :=
    ⟨fun k vma hk ↦ absurd ⟨k, hk⟩ (hnone vma), fun vma h ↦ absurd h (hnone vma),
      fun vma _ h ↦ absurd h (hnone vma), fun vma h ↦ absurd h (hnone vma),
      fun vma h ↦ absurd h (hnone vma)⟩
  refine ⟨rfl, rfl, fun pid vas h ↦ hspace pid vas h ▸ hwf, fun pid vas vma id h hhas ↦ ?_⟩
  exact absurd (hspace pid vas h ▸ hhas) (hnone vma)

end Sample

end D3OS.Memory.Shm
