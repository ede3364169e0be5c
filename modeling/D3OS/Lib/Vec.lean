import Mathlib

/-!
# Vectors

What `Vec::push` adds, and removal: `Vec::swap_remove` moves the last element into the gap, so
only the elements that are left are specified, not their order.
-/

namespace D3OS.Lib

universe u

variable {α : Type u}

/-- The elements behind a push. -/
theorem getElem?_concat_eq_some {l : List α} {a b : α} {i : Nat} :
    (l ++ [a])[i]? = some b ↔ l[i]? = some b ∨ (i = l.length ∧ a = b) := by
  rcases Nat.lt_trichotomy i l.length with hlt | rfl | hgt
  · rw [List.getElem?_append_left hlt]
    simp [Nat.ne_of_lt hlt]
  · simp
  · rw [List.getElem?_eq_none (by rw [List.length_append, List.length_singleton]; omega),
      List.getElem?_eq_none (Nat.le_of_lt hgt)]
    simp [Nat.ne_of_gt hgt]

/-- `Vec::swap_remove` for an index in bounds. -/
def swapRemove (l : List α) (i : Nat) : List α :=
  match l.getLast? with
  | none => l
  | some last => (l.set i last).dropLast

/-- Swap removal leaves the elements that plain removal leaves. -/
theorem swapRemove_perm {l : List α} {i : Nat} (h : i < l.length) :
    (swapRemove l i).Perm (l.eraseIdx i) := by
  obtain ⟨init, last, rfl⟩ : ∃ init last, l = init ++ [last] := by
    rcases l.eq_nil_or_concat with rfl | ⟨init, last, rfl⟩
    · exact absurd h (Nat.not_lt_zero i)
    · exact ⟨init, last, List.concat_eq_append⟩
  rw [swapRemove, List.getLast?_concat]
  show ((init ++ [last]).set i last).dropLast.Perm _
  by_cases hi : i < init.length
  · rw [List.set_append_left _ _ hi, List.dropLast_concat, List.eraseIdx_append_of_lt_length hi,
      List.set_eq_take_append_cons_drop, if_pos hi, List.eraseIdx_eq_take_drop_succ,
      List.append_assoc]
    exact (List.perm_append_singleton _ _).symm.append_left _
  · have hi' : i = init.length := by
      rw [List.length_append, List.length_singleton] at h
      omega
    subst hi'
    simp [List.eraseIdx_append_of_length_le]

end D3OS.Lib
