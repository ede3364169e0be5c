import Mathlib

/-!
# Lists of half-open intervals

The intervals are elements of any type with a lower and an upper end in a linear order.
`spans` is the set of their points. An interval whose upper end is not above its lower end
has no points.
-/

namespace D3OS.Lib

universe u v

section

variable {ι : Type u} {κ : Type v} [LinearOrder κ] (lo hi : ι → κ)

/-- The points of the intervals of a list. -/
def spans (l : List ι) : Set κ := {x | ∃ i ∈ l, lo i ≤ x ∧ x < hi i}

/-- Intervals in ascending order, none of them empty and no two with a common point. -/
structure Ascending (l : List ι) : Prop where
  nonempty : ∀ i ∈ l, lo i < hi i
  sorted : l.Pairwise fun i j ↦ hi i ≤ lo j

variable {lo hi} {l l' : List ι} {i : ι} {x b : κ}

/-- Membership in one of the intervals. -/
theorem mem_spans : x ∈ spans lo hi l ↔ ∃ i ∈ l, lo i ≤ x ∧ x < hi i := Iff.rfl

/-- Without intervals there are no points. -/
@[simp] theorem spans_nil : spans lo hi [] = (∅ : Set κ) := by
  ext x
  simp [spans]

/-- The points of one more interval. -/
@[simp] theorem mem_spans_cons :
    x ∈ spans lo hi (i :: l) ↔ (lo i ≤ x ∧ x < hi i) ∨ x ∈ spans lo hi l := by
  simp [spans]

/-- The points of two lists. -/
@[simp] theorem mem_spans_append :
    x ∈ spans lo hi (l ++ l') ↔ x ∈ spans lo hi l ∨ x ∈ spans lo hi l' := by
  simp [spans, or_and_right, exists_or]

/-- The points of a list depend on its elements only. -/
theorem spans_congr (h : ∀ i, i ∈ l ↔ i ∈ l') : spans lo hi l = spans lo hi l' := by
  ext x
  simp only [mem_spans, h]

/-- No point lies below all intervals. -/
theorem le_of_mem_spans (h : ∀ i ∈ l, b ≤ lo i) (hx : x ∈ spans lo hi l) : b ≤ x := by
  obtain ⟨i, hi, hle, -⟩ := hx
  exact (h i hi).trans hle

/-- The empty list is in order. -/
theorem Ascending.nil : Ascending lo hi ([] : List ι) := ⟨nofun, List.Pairwise.nil⟩

/-- Lists on the two sides of a point may be joined. -/
theorem Ascending.append (h : Ascending lo hi l) (h' : Ascending lo hi l')
    (hle : ∀ i ∈ l, hi i ≤ b) (hge : ∀ i ∈ l', b ≤ lo i) : Ascending lo hi (l ++ l') where
  nonempty i hi := (List.mem_append.mp hi).elim (h.nonempty i) (h'.nonempty i)
  sorted := List.pairwise_append.mpr
    ⟨h.sorted, h'.sorted, fun i hi j hj ↦ (hle i hi).trans (hge j hj)⟩

/-- A single interval is in order. -/
theorem Ascending.singleton (h : lo i < hi i) : Ascending lo hi [i] where
  nonempty j hj := by
    rw [List.mem_singleton.mp hj]
    exact h
  sorted := List.pairwise_singleton _ _

end

end D3OS.Lib
