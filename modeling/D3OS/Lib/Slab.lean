import Mathlib

/-!
# Slots

A vector of slots, each free or with a value. A new value goes to the lowest free slot, and the
number of that slot is its handle.
-/

namespace D3OS.Lib

universe u

/-- A vector of slots. -/
abbrev Slab (α : Type u) := List (Option α)

namespace Slab

variable {α : Type u}

/-- The value of a slot. -/
def get (s : Slab α) (h : Nat) : Option α := (s[h]?).getD none

/-- The handle of the next value. -/
def nextFree (s : Slab α) : Nat := s.findIdx (·.isNone)

/-- A value in the lowest free slot. -/
def add (s : Slab α) (a : α) : Slab α :=
  if s.nextFree < s.length then s.set s.nextFree (some a) else s ++ [some a]

/-- A slot becomes free. -/
def remove (s : Slab α) (h : Nat) : Slab α := s.set h none

/-- The value of a slot changes. -/
def modify (s : Slab α) (h : Nat) (f : α → α) : Slab α := s.set h ((s.get h).map f)

/-- The handles of the values that satisfy a test, lowest first. -/
def handles (s : Slab α) (test : Nat → α → Bool) : List Nat :=
  (List.range s.length).filter fun h ↦ (s.get h).any (test h)

variable {s : Slab α} {a : α} {h j : Nat}

private theorem get_of_le (hle : s.length ≤ h) : s.get h = none := by
  rw [get, List.getElem?_eq_none hle]
  rfl

private theorem lt_of_get (hget : s.get h = some a) : h < s.length := by
  apply Nat.lt_of_not_le
  intro hle
  rw [get_of_le hle] at hget
  exact absurd hget nofun

private theorem get_set {o : Option α} (hlt : h < s.length) :
    get (s.set h o) j = if j = h then o else s.get j := by
  rw [get, List.getElem?_set]
  by_cases hj : j = h
  · rw [if_pos hj, if_pos hj.symm, if_pos hlt]
    rfl
  · rw [if_neg hj, if_neg (Ne.symm hj)]
    rfl

/-- The handle of the next value is free. -/
theorem get_nextFree : s.get s.nextFree = none := by
  by_cases hlt : s.nextFree < s.length
  · rw [get, List.getElem?_eq_getElem hlt]
    exact Option.isNone_iff_eq_none.mp (List.findIdx_getElem (w := hlt))
  · exact get_of_le (Nat.le_of_not_lt hlt)

/-- The slab after an addition. -/
theorem get_add : (s.add a).get j = if j = s.nextFree then some a else s.get j := by
  rw [add]
  split
  next hlt => exact get_set hlt
  next hlt =>
    have heq : s.nextFree = s.length :=
      Nat.le_antisymm List.findIdx_le_length (Nat.le_of_not_lt hlt)
    rw [heq, get, List.getElem?_append]
    by_cases hj : j < s.length
    · rw [if_pos hj, if_neg (Nat.ne_of_lt hj)]
      rfl
    · rw [if_neg hj]
      by_cases hj' : j = s.length
      · rw [if_pos hj', hj', Nat.sub_self]
        rfl
      · rw [if_neg hj', get_of_le (Nat.le_of_not_lt hj), List.getElem?_eq_none]
        · rfl
        · rw [List.length_singleton]
          omega

/-- The slab after a removal. -/
theorem get_remove : (s.remove h).get j = if j = h then none else s.get j := by
  by_cases hlt : h < s.length
  · exact get_set hlt
  · rw [remove, List.set_eq_of_length_le (Nat.le_of_not_lt hlt)]
    split
    next hj =>
      rw [hj]
      exact get_of_le (Nat.le_of_not_lt hlt)
    · rfl

/-- The slab after a change in place. -/
theorem get_modify {f : α → α} :
    (s.modify h f).get j = if j = h then (s.get h).map f else s.get j := by
  by_cases hlt : h < s.length
  · exact get_set hlt
  · have hle := Nat.le_of_not_lt hlt
    rw [modify, List.set_eq_of_length_le hle]
    split
    next hj =>
      rw [hj, get_of_le hle]
      rfl
    · rfl

/-- Several slots become free. -/
theorem get_foldl_remove (hs : List Nat) :
    (hs.foldl remove s).get j = if j ∈ hs then none else s.get j := by
  induction hs generalizing s with
  | nil => rw [if_neg List.not_mem_nil]; rfl
  | cons h hs ih =>
    rw [List.foldl_cons, ih, get_remove]
    by_cases hmem : j ∈ hs
    · rw [if_pos hmem, if_pos (List.mem_cons_of_mem h hmem)]
    · rw [if_neg hmem]
      by_cases hj : j = h
      · rw [if_pos hj, if_pos (List.mem_cons.mpr (.inl hj))]
      · rw [if_neg hj, if_neg (fun hc ↦ (List.mem_cons.mp hc).elim hj hmem)]

/-- The handles whose values pass the test. -/
theorem mem_handles {test : Nat → α → Bool} :
    h ∈ s.handles test ↔ ∃ a, s.get h = some a ∧ test h a = true := by
  rw [handles, List.mem_filter, List.mem_range, Option.any_eq_true]
  constructor
  · rintro ⟨_, a, ha, htest⟩
    exact ⟨a, ha, htest⟩
  · rintro ⟨a, ha, htest⟩
    exact ⟨lt_of_get ha, a, ha, htest⟩

end Slab

end D3OS.Lib
