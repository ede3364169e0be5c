import Mathlib

/-!
# Ordered maps of disjoint intervals

A finite family of half-open intervals, stored in an ordered map under their first
points. `IntervalFamily` says that they are not empty and pairwise disjoint; then the
two neighbours of a new interval decide whether it is disjoint from all, and the
last interval that starts at or before a point is the only one that can contain it.
-/

namespace D3OS.Lib

section

universe u v

variable {K : Type u} {V : Type v} [LinearOrder K]

/-- The entry with the greatest key up to `x`, if there is any. -/
def IsLastUpTo (f : K → Option V) (x : K) : Option (K × V) → Prop
  | none => ∀ k, k ≤ x → f k = none
  | some (k, v) => f k = some v ∧ k ≤ x ∧ ∀ k', k' ≤ x → f k' ≠ none → k' ≤ k

/-- The entry with the least key from `x` on, if there is any. -/
def IsFirstFrom (f : K → Option V) (x : K) : Option (K × V) → Prop
  | none => ∀ k, x ≤ k → f k = none
  | some (k, v) => f k = some v ∧ x ≤ k ∧ ∀ k', x ≤ k' → f k' ≠ none → k ≤ k'

/-- Intervals from their key up to `stop`, none of them empty and no two overlapping. -/
structure IntervalFamily (f : K → Option V) (stop : V → K) : Prop where
  nonempty : ∀ k v, f k = some v → k < stop v
  apart : ∀ k v k' v', f k = some v → f k' = some v' → k < k' → stop v ≤ k'

namespace IntervalFamily

variable {f : K → Option V} {stop : V → K}

/-- An interval that overlaps neither of its neighbours may be added. -/
theorem insert (h : IntervalFamily f stop) {s : K} {v : V} (hs : s < stop v)
    {prev next : Option (K × V)} (hprev : IsLastUpTo f s prev) (hnext : IsFirstFrom f s next)
    (hp : ∀ k w, prev = some (k, w) → stop w ≤ s) (hn : ∀ k w, next = some (k, w) → stop v ≤ k) :
    IntervalFamily (Function.update f s (some v)) stop := by
  have hbefore : ∀ k w, f k = some w → k < s → stop w ≤ s := by
    intro k w hk hlt
    cases prev with
    | none => exact absurd (hprev k hlt.le) (by simp [hk])
    | some p =>
      obtain ⟨j, u⟩ := p
      obtain ⟨hj, -, hmax⟩ := hprev
      have hju := hp j u rfl
      rcases (hmax k hlt.le (by simp [hk])).lt_or_eq with hkj | rfl
      · exact ((h.apart k w j u hk hj hkj).trans (h.nonempty j u hj).le).trans hju
      · rw [hk] at hj
        cases hj
        exact hju
  have hafter : ∀ k w, f k = some w → s < k → stop v ≤ k := by
    intro k w hk hlt
    cases next with
    | none => exact absurd (hnext k hlt.le) (by simp [hk])
    | some p =>
      obtain ⟨j, u⟩ := p
      exact (hn j u rfl).trans (hnext.2.2 k hlt.le (by simp [hk]))
  constructor
  · intro k w hk
    by_cases hks : k = s
    · rw [hks, Function.update_self] at hk
      cases hk
      rw [hks]
      exact hs
    · rw [Function.update_of_ne hks] at hk
      exact h.nonempty k w hk
  · intro k w k' w' hk hk' hlt
    by_cases hks : k = s
    · rw [hks, Function.update_self] at hk
      cases hk
      rw [Function.update_of_ne (by rw [← hks]; exact hlt.ne')] at hk'
      exact hafter k' w' hk' (hks ▸ hlt)
    · rw [Function.update_of_ne hks] at hk
      by_cases hks' : k' = s
      · rw [hks']
        exact hbefore k w hk (hks' ▸ hlt)
      · rw [Function.update_of_ne hks'] at hk'
        exact h.apart k w k' w' hk hk' hlt

/-- The interval that contains a point is the last one that starts at or before it. -/
theorem contains_iff (h : IntervalFamily f stop) {x : K} {prev : Option (K × V)}
    (hprev : IsLastUpTo f x prev) (k : K) (v : V) :
    (f k = some v ∧ k ≤ x ∧ x < stop v) ↔ (prev = some (k, v) ∧ x < stop v) := by
  constructor
  · rintro ⟨hk, hkx, hx⟩
    cases prev with
    | none => exact absurd (hprev k hkx) (by simp [hk])
    | some p =>
      obtain ⟨j, u⟩ := p
      obtain ⟨hj, hjx, hmax⟩ := hprev
      rcases (hmax k hkx (by simp [hk])).lt_or_eq with hlt | rfl
      · exact absurd hx (not_lt.mpr ((h.apart k v j u hk hj hlt).trans hjx))
      · rw [hk] at hj
        cases hj
        exact ⟨rfl, hx⟩
  · rintro ⟨rfl, hx⟩
    exact ⟨hprev.1, hprev.2.1, hx⟩

end IntervalFamily

end

section

variable {V : Type} (m : Std.ExtTreeMap Nat V)

/-- `range(..=x).next_back()` of an ordered map. -/
def lastUpTo (x : Nat) : Option (Nat × V) := (m.toList.filter fun p ↦ p.1 ≤ x).getLast?

/-- `range(x..).next()` of an ordered map. -/
def firstFrom (x : Nat) : Option (Nat × V) := (m.toList.filter fun p ↦ x ≤ p.1).head?

/-- The entries come in the order of their keys. -/
theorem toList_sorted : m.toList.Pairwise fun p q ↦ p.1 < q.1 :=
  Std.ExtTreeMap.ordered_keys_toList.imp fun h ↦ Nat.compare_eq_lt.mp h

/-- The entries whose keys meet a condition. -/
theorem mem_filter_iff (c : Nat → Bool) (p : Nat × V) :
    p ∈ m.toList.filter (fun q ↦ c q.1) ↔ m[p.1]? = some p.2 ∧ c p.1 := by
  rw [List.mem_filter, ← Std.ExtTreeMap.mem_toList_iff_getElem?_eq_some]

/-- `lastUpTo` finds the last entry. -/
theorem lastUpTo_spec (x : Nat) : IsLastUpTo (fun k ↦ m[k]?) x (lastUpTo m x) := by
  have hmem := mem_filter_iff m (fun k ↦ decide (k ≤ x))
  have hsort := (toList_sorted m).filter fun p ↦ decide (p.1 ≤ x)
  unfold lastUpTo
  cases hlast : (m.toList.filter fun p ↦ decide (p.1 ≤ x)).getLast? with
  | none =>
    rw [List.getLast?_eq_none_iff] at hlast
    intro k hk
    cases hm : m[k]? with
    | none => exact hm
    | some v =>
      have hin := (hmem (k, v)).mpr ⟨hm, decide_eq_true hk⟩
      rw [hlast] at hin
      exact absurd hin (by simp)
  | some p =>
    obtain ⟨ys, hys⟩ := List.getLast?_eq_some_iff.mp hlast
    have hp := (hmem p).mp (by rw [hys]; simp)
    refine ⟨hp.1, of_decide_eq_true hp.2, ?_⟩
    intro k hk hne
    obtain ⟨v, hv⟩ := Option.ne_none_iff_exists'.mp hne
    have hin := (hmem (k, v)).mpr ⟨hv, decide_eq_true hk⟩
    rw [hys] at hin hsort
    rcases List.mem_append.mp hin with hin | hin
    · exact ((List.pairwise_append.mp hsort).2.2 _ hin p (by simp)).le
    · exact (congrArg Prod.fst (List.mem_singleton.mp hin)).le

/-- The last entry up to a key of the map is the one under the key. -/
theorem lastUpTo_self {k : Nat} {v : V} (h : m[k]? = some v) : lastUpTo m k = some (k, v) := by
  have hspec := lastUpTo_spec m k
  cases hlast : lastUpTo m k with
  | none =>
    rw [hlast] at hspec
    exact absurd h (by simp [hspec k le_rfl])
  | some p =>
    obtain ⟨k', v'⟩ := p
    rw [hlast] at hspec
    obtain ⟨hk, hle, hmax⟩ := hspec
    obtain rfl : k' = k := Nat.le_antisymm hle (hmax k le_rfl (by simp [h]))
    rw [Option.some.inj (hk.symm.trans h)]

/-- `firstFrom` finds the first entry. -/
theorem firstFrom_spec (x : Nat) : IsFirstFrom (fun k ↦ m[k]?) x (firstFrom m x) := by
  have hmem := mem_filter_iff m (fun k ↦ decide (x ≤ k))
  have hsort := (toList_sorted m).filter fun p ↦ decide (x ≤ p.1)
  unfold firstFrom
  cases hhead : (m.toList.filter fun p ↦ decide (x ≤ p.1)).head? with
  | none =>
    rw [List.head?_eq_none_iff] at hhead
    intro k hk
    cases hm : m[k]? with
    | none => exact hm
    | some v =>
      have hin := (hmem (k, v)).mpr ⟨hm, decide_eq_true hk⟩
      rw [hhead] at hin
      exact absurd hin (by simp)
  | some p =>
    obtain ⟨ys, hys⟩ := List.head?_eq_some_iff.mp hhead
    have hp := (hmem p).mp (by rw [hys]; simp)
    refine ⟨hp.1, of_decide_eq_true hp.2, ?_⟩
    intro k hk hne
    obtain ⟨v, hv⟩ := Option.ne_none_iff_exists'.mp hne
    have hin := (hmem (k, v)).mpr ⟨hv, decide_eq_true hk⟩
    rw [hys] at hin hsort
    rcases List.mem_cons.mp hin with hin | hin
    · exact (congrArg Prod.fst hin).ge
    · exact ((List.pairwise_cons.mp hsort).1 _ hin).le

/-- Looking up after an insertion. -/
theorem getElem?_insert_ite (k : Nat) (v : V) (x : Nat) :
    (m.insert k v)[x]? = if x = k then some v else m[x]? := by
  rw [Std.ExtTreeMap.getElem?_insert]
  simp only [Nat.compare_eq_eq, @eq_comm Nat k x]

/-- Looking up after a removal. -/
theorem getElem?_erase_ite (k x : Nat) :
    (m.erase k)[x]? = if x = k then none else m[x]? := by
  rw [Std.ExtTreeMap.getElem?_erase]
  simp only [Nat.compare_eq_eq, @eq_comm Nat k x]

/-- An insertion as an update of the lookup function. -/
theorem getElem?_insert_eq_update (k : Nat) (v : V) :
    (fun x ↦ (m.insert k v)[x]?) = Function.update (fun x ↦ m[x]?) k (some v) := by
  funext x
  rw [getElem?_insert_ite, Function.update_apply]

end

end D3OS.Lib
