import D3OS.Base.Overflow
import D3OS.Lib.Keyed

/-!
# Open objects

`os/kernel/src/naming/open_objects.rs` and the files of `os/kernel/src/naming/tmpfs.rs`. An open
object is a named object with a position and the options it was opened with; the table hands out
the lowest free handle.
-/

namespace D3OS.Naming

open Lib

/-- `OpenOptions`, `os/library/naming/src/shared_types.rs:14`. -/
abbrev OpenOptions := Nat

namespace OpenOptions

def readonly : OpenOptions := 1
def directory : OpenOptions := 16
def writeonly : OpenOptions := 32

end OpenOptions

/-- `contains` of the bit flags. -/
def contains (options flag : OpenOptions) : Prop := options &&& flag = flag

instance (options flag : OpenOptions) : Decidable (contains options flag) :=
  inferInstanceAs (Decidable (_ = _))

/-- `SeekOrigin`, `shared_types.rs:27`. -/
inductive SeekOrigin where
  | start
  | end
  | current
  deriving DecidableEq, Repr

/-- `OpenedObject`, `open_objects.rs:256`. -/
structure OpenedObject (α : Type) where
  object : α
  pos : Nat
  options : OpenOptions
  deriving DecidableEq, Repr

/-- `MAX_OPEN_OBJECTS`, `open_objects.rs:26`. -/
def maxOpenObjects : Nat := 0x1000

/-- `OpenObjectTable`, `open_objects.rs:31`; a flag of `freeHandles` is set for a handle in use. -/
structure OpenObjectTable (α : Type) where
  openHandles : List (Nat × OpenedObject α)
  freeHandles : List Bool
  deriving DecidableEq, Repr

/-- The lowest handle that has no entry. -/
def lowestFree {β : Type} (entry : Nat → Option β) : Option Nat :=
  (List.range maxOpenObjects).find? fun handle ↦ (entry handle).isNone

private theorem lowestFree_eq_some {β : Type} {entry : Nat → Option β} {handle : Nat}
    (h : lowestFree entry = some handle) : entry handle = none ∧ handle < maxOpenObjects := by
  have hnone := List.find?_some h
  have hmem := List.mem_of_find?_eq_some h
  exact ⟨Option.isNone_iff_eq_none.mp hnone, List.mem_range.mp hmem⟩

namespace OpenObjectTable

variable {α : Type}

/-- `OpenObjectTable::new`, `open_objects.rs:178`. -/
def new : OpenObjectTable α := ⟨[], List.replicate maxOpenObjects false⟩

/-- `lookup_opened_object`, `open_objects.rs:186`. -/
def lookupOpenedObject (handle : Nat) (t : OpenObjectTable α) : Option (OpenedObject α) :=
  (t.openHandles.find? fun entry ↦ entry.1 == handle).map (·.2)

/-- `find_free_handle`, `open_objects.rs:224`. -/
def findFreeHandle (t : OpenObjectTable α) : Option (Nat × OpenObjectTable α) :=
  (t.freeHandles.findIdx? (! ·)).map fun i ↦ (i, { t with freeHandles := t.freeHandles.set i true })

/-- `allocate_handle`, `open_objects.rs:197`. -/
def allocateHandle (object : OpenedObject α) (t : OpenObjectTable α) :
    Except Errno (Nat × OpenObjectTable α) :=
  match t.findFreeHandle with
  | none => .error .enohandles
  | some (handle, t) =>
    .ok (handle, { t with openHandles := t.openHandles ++ [(handle, object)] })

/-- `free_handle`, `open_objects.rs:208`. -/
def freeHandle (handle : Nat) (t : OpenObjectTable α) : Except Errno (OpenObjectTable α) :=
  match t.openHandles.findIdx? fun entry ↦ entry.1 == handle with
  | none => .error .einvalh
  | some i => .ok ⟨swapRemove t.openHandles i, t.freeHandles.set handle false⟩

/-- `opened_object.pos.store`, for the object of a handle. -/
def storePos (handle pos : Nat) (t : OpenObjectTable α) : OpenObjectTable α :=
  { t with openHandles := t.openHandles.map fun entry ↦
      if entry.1 = handle then (entry.1, { entry.2 with pos := pos }) else entry }

/-- No handle is open twice, and a handle is in use if and only if it is open. -/
structure Valid (t : OpenObjectTable α) : Prop where
  keyed : Keyed t.openHandles
  length : t.freeHandles.length = maxOpenObjects
  used : ∀ handle < maxOpenObjects,
    t.freeHandles[handle]? = some (t.lookupOpenedObject handle).isSome
  bound : ∀ handle, (t.lookupOpenedObject handle).isSome → handle < maxOpenObjects

/-- A new table has no open handle. -/
theorem valid_new : (new : OpenObjectTable α).Valid := by
  refine ⟨keyed_nil, List.length_replicate, fun handle hlt ↦ ?_, nofun⟩
  rw [new, List.getElem?_replicate, if_pos hlt]
  rfl

variable {t : OpenObjectTable α} {handle : Nat} {object : OpenedObject α}

private theorem lookup_concat {t' : OpenObjectTable α} (hfree : t.lookupOpenedObject handle = none)
    (ht' : t'.openHandles = t.openHandles ++ [(handle, object)]) (h : Nat) :
    t'.lookupOpenedObject h = if h = handle then some object else t.lookupOpenedObject h := by
  rw [lookupOpenedObject, ht', List.find?_append]
  split
  next heq =>
    subst heq
    rw [Option.map_eq_none_iff.mp hfree, List.find?_singleton, beq_self_eq_true]
    rfl
  next hne =>
    rw [List.find?_singleton, beq_eq_false_iff_ne.mpr (Ne.symm hne)]
    cases hfind : t.openHandles.find? (fun entry ↦ entry.1 == h) with
    | none | some entry => simp [lookupOpenedObject, hfind]

private theorem findIdx?_eq_find?_range {β : Type} {p : β → Bool} {q : Nat → Bool} {l : List β}
    (h : ∀ i a, l[i]? = some a → q i = p a) : l.findIdx? p = (List.range l.length).find? q := by
  induction l generalizing q with
  | nil => rfl
  | cons a l ih =>
    have hrest : l.findIdx? p = (List.range l.length).find? (q ∘ Nat.succ) :=
      ih fun i b hb ↦ h (i + 1) b hb
    rw [List.findIdx?_cons, List.length_cons, List.range_succ_eq_map, List.find?_cons,
      h 0 a rfl, hrest, List.find?_map]
    cases p a <;> rfl

private theorem Valid.findIdx?_eq (ht : t.Valid) :
    t.freeHandles.findIdx? (! ·) = lowestFree fun h ↦ t.lookupOpenedObject h := by
  rw [lowestFree, ← ht.length]
  apply findIdx?_eq_find?_range
  intro i a ha
  have hlt : i < maxOpenObjects := ht.length ▸ (List.getElem?_eq_some_iff.mp ha).1
  rw [ht.used i hlt] at ha
  rw [← Option.some.inj ha, Option.not_isSome]

/-- The lowest handle that is not open is handed out. -/
theorem Valid.allocateHandle (ht : t.Valid) (object : OpenedObject α)
    (hfree : lowestFree (fun h ↦ t.lookupOpenedObject h) = some handle) :
    ∃ t', t.allocateHandle object = .ok (handle, t') ∧ t'.Valid ∧
      ∀ h, t'.lookupOpenedObject h =
        if h = handle then some object else t.lookupOpenedObject h := by
  obtain ⟨hnone, hlt⟩ := lowestFree_eq_some hfree
  have hlookup := lookup_concat hnone
    (rfl : (⟨t.openHandles ++ [(handle, object)], t.freeHandles.set handle true⟩ :
      OpenObjectTable α).openHandles = t.openHandles ++ [(handle, object)])
  refine ⟨_, ?_, ⟨?_, ?_, ?_, ?_⟩, hlookup⟩
  · rw [OpenObjectTable.allocateHandle, findFreeHandle, ht.findIdx?_eq, hfree]
    rfl
  · exact ht.keyed.concat (find?_eq_none_iff.mp hnone) object
  · exact List.length_set.trans ht.length
  · intro h hh
    rw [hlookup, List.getElem?_set, ht.length]
    by_cases heq : handle = h
    · subst heq
      rw [if_pos rfl, if_pos hlt, if_pos rfl]
      rfl
    · rw [if_neg heq, if_neg (Ne.symm heq), ht.used h hh]
  · intro h hh
    rw [hlookup] at hh
    split at hh
    next heq => exact heq ▸ hlt
    · exact ht.bound h hh

/-- All handles are taken. -/
theorem Valid.allocateHandle_of_none (ht : t.Valid) (object : OpenedObject α)
    (hfull : lowestFree (fun h ↦ t.lookupOpenedObject h) = none) :
    t.allocateHandle object = .error .enohandles := by
  rw [OpenObjectTable.allocateHandle, findFreeHandle, ht.findIdx?_eq, hfull]
  rfl

/-- A handle that is not open cannot be freed. -/
theorem freeHandle_of_none (h : t.lookupOpenedObject handle = none) :
    t.freeHandle handle = .error .einvalh := by
  have hidx : (t.openHandles.findIdx? fun entry ↦ entry.1 == handle) = none := by
    rw [List.findIdx?_eq_none_iff]
    intro entry hentry
    rw [beq_eq_false_iff_ne]
    rintro rfl
    exact find?_eq_none_iff.mp h entry.2 hentry
  rw [freeHandle, hidx]

/-- Freeing a handle closes it and no other. -/
theorem Valid.freeHandle (ht : t.Valid) (h : t.lookupOpenedObject handle = some object) :
    ∃ t', t.freeHandle handle = .ok t' ∧ t'.Valid ∧
      ∀ h, t'.lookupOpenedObject h = if h = handle then none else t.lookupOpenedObject h := by
  have hmem := ht.keyed.find?_eq_some.mp h
  cases hidx : t.openHandles.findIdx? fun entry ↦ entry.1 == handle with
  | none =>
    rw [List.findIdx?_eq_none_iff] at hidx
    exact absurd rfl (beq_eq_false_iff_ne.mp (hidx _ hmem))
  | some i =>
    obtain ⟨hkeyed, hleft⟩ := ht.keyed.swapRemove hidx
    have hlookup (h : Nat) : OpenObjectTable.lookupOpenedObject h
        ⟨swapRemove t.openHandles i, t.freeHandles.set handle false⟩ =
          if h = handle then none else t.lookupOpenedObject h := by
      split
      next heq => exact find?_eq_none_iff.mpr fun v hv ↦ ((hleft h v).mp hv).2 heq
      next hne =>
        cases hentry : t.lookupOpenedObject h with
        | none =>
          exact find?_eq_none_iff.mpr fun v hv ↦ find?_eq_none_iff.mp hentry v ((hleft h v).mp hv).1
        | some object =>
          exact hkeyed.find?_eq_some.mpr
            ((hleft h object).mpr ⟨ht.keyed.find?_eq_some.mp hentry, hne⟩)
    refine ⟨_, by rw [OpenObjectTable.freeHandle, hidx], ⟨hkeyed, ?_, ?_, ?_⟩, hlookup⟩
    · exact List.length_set.trans ht.length
    · intro h hh
      rw [hlookup, List.getElem?_set, ht.length]
      by_cases heq : handle = h
      · subst heq
        rw [if_pos rfl, if_pos hh, if_pos rfl]
        rfl
      · rw [if_neg heq, if_neg (Ne.symm heq), ht.used h hh]
    · intro h hh
      rw [hlookup] at hh
      split at hh
      · cases hh
      · exact ht.bound h hh

/-- Storing a position changes that of one handle. -/
theorem lookup_storePos (t : OpenObjectTable α) (handle pos h : Nat) :
    (t.storePos handle pos).lookupOpenedObject h = (t.lookupOpenedObject h).map fun object ↦
      if h = handle then { object with pos := pos } else object := by
  rw [lookupOpenedObject, lookupOpenedObject, storePos, List.find?_map]
  have hkey : ((fun entry : Nat × OpenedObject α ↦ entry.1 == h) ∘ fun entry ↦
      if entry.1 = handle then (entry.1, { entry.2 with pos := pos }) else entry) =
        fun entry ↦ entry.1 == h := by
    funext entry
    rw [Function.comp_apply]
    split <;> rfl
  rw [hkey]
  cases hfind : t.openHandles.find? (fun entry ↦ entry.1 == h) with
  | none => rfl
  | some entry =>
    have hentry := List.find?_some hfind
    rw [beq_iff_eq] at hentry
    rw [Option.map_some, Option.map_some, Option.map_some, Option.map_some, hentry]
    split <;> rfl

/-- Moving a position keeps the table valid. -/
theorem Valid.storePos (ht : t.Valid) (handle pos : Nat) : (t.storePos handle pos).Valid := by
  refine ⟨?_, ht.length, ?_, ?_⟩
  · have hkeys : (t.storePos handle pos).openHandles.map (·.1) = t.openHandles.map (·.1) := by
      rw [OpenObjectTable.storePos, List.map_map]
      congr 1
      funext entry
      rw [Function.comp_apply]
      split <;> rfl
    rw [Keyed, hkeys]
    exact ht.keyed
  · intro h hh
    rw [lookup_storePos, Option.isSome_map]
    exact ht.used h hh
  · intro h hh
    rw [lookup_storePos, Option.isSome_map] at hh
    exact ht.bound h hh

end OpenObjectTable

end D3OS.Naming
