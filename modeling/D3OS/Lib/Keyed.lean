import D3OS.Lib.Vec

/-!
# Lists of pairs with different keys

A list of pairs is searched from the front. When no key occurs twice, what the search finds and
what a removal leaves depends on the pairs only, not on their order.
-/

namespace D3OS.Lib

universe u v

variable {κ : Type u} {ν : Type v}

/-- The keys of the pairs differ. -/
def Keyed (l : List (κ × ν)) : Prop := (l.map (·.1)).Nodup

variable {l l' : List (κ × ν)} {k : κ} {v : ν}

/-- No key occurs twice in an empty list. -/
theorem keyed_nil : Keyed ([] : List (κ × ν)) := List.nodup_nil

private theorem Keyed.perm (h : Keyed l) (hperm : l.Perm l') : Keyed l' :=
  (hperm.map _).nodup_iff.mp h

private theorem Keyed.key_ne {pre post : List (κ × ν)} (h : Keyed (pre ++ (k, v) :: post))
    {e : κ × ν}
    (he : e ∈ pre ∨ e ∈ post) : e.1 ≠ k := by
  rw [Keyed, List.map_append, List.map_cons, List.nodup_middle] at h
  have hne := (List.nodup_cons.mp h).1
  intro hk
  apply hne
  rw [← List.map_append]
  exact List.mem_map.mpr ⟨e, List.mem_append.mpr he, hk⟩

/-- A new key at the end. -/
theorem Keyed.concat (h : Keyed l) (hk : ∀ v, (k, v) ∉ l) (v : ν) : Keyed (l ++ [(k, v)]) := by
  have hmem : k ∉ l.map (·.1) := by
    intro hmem
    obtain ⟨⟨_, v'⟩, hv', rfl⟩ := List.mem_map.mp hmem
    exact hk v' hv'
  rw [Keyed, List.map_append, List.nodup_append_comm]
  exact List.nodup_cons.mpr ⟨hmem, h⟩

variable [DecidableEq κ]

/-- The search for a key finds its pair. -/
theorem Keyed.find?_eq_some (h : Keyed l) :
    (l.find? (fun e ↦ e.1 == k)).map (·.2) = some v ↔ (k, v) ∈ l := by
  constructor
  · intro hmap
    obtain ⟨⟨k', v'⟩, hfind, rfl⟩ := Option.map_eq_some_iff.mp hmap
    have hk := List.find?_some hfind
    rw [beq_iff_eq] at hk
    exact hk ▸ List.mem_of_find?_eq_some hfind
  · intro hmem
    obtain ⟨pre, post, rfl⟩ := List.append_of_mem hmem
    have hfind : (pre ++ (k, v) :: post).find? (fun e ↦ e.1 == k) = some (k, v) := by
      rw [List.find?_eq_some_iff_append]
      refine ⟨beq_self_eq_true k, pre, post, rfl, fun e he ↦ ?_⟩
      rw [beq_eq_false_iff_ne.mpr (h.key_ne (Or.inl he))]
      rfl
    rw [hfind]
    rfl

/-- The key is not found if nothing has it. -/
theorem find?_eq_none_iff :
    (l.find? (fun e ↦ e.1 == k)).map (·.2) = none ↔ ∀ v, (k, v) ∉ l := by
  rw [Option.map_eq_none_iff, List.find?_eq_none]
  constructor
  · intro h v hv
    exact h _ hv (beq_self_eq_true k)
  · rintro h ⟨k', v⟩ hv hk
    exact h v (beq_iff_eq.mp hk ▸ hv)

/-- What `swap_remove` leaves at the place of a key. -/
theorem Keyed.swapRemove (h : Keyed l) {i : Nat}
    (hi : l.findIdx? (fun e ↦ e.1 == k) = some i) :
    Keyed (swapRemove l i) ∧ ∀ k' v', (k', v') ∈ swapRemove l i ↔ (k', v') ∈ l ∧ k' ≠ k := by
  obtain ⟨hlt, hkey, -⟩ := List.findIdx?_eq_some_iff_getElem.mp hi
  rw [beq_iff_eq] at hkey
  have hperm := swapRemove_perm hlt
  rw [List.eraseIdx_eq_take_drop_succ] at hperm
  have hsplit : l = l.take i ++ (k, l[i].2) :: l.drop (i + 1) := by
    rw [← hkey, ← List.drop_eq_getElem_cons hlt, List.take_append_drop]
  have hkeyed : Keyed (l.take i ++ l.drop (i + 1)) := by
    rw [hsplit, Keyed, List.map_append, List.map_cons, List.nodup_middle] at h
    rw [Keyed, List.map_append]
    exact (List.nodup_cons.mp h).2
  refine ⟨hkeyed.perm hperm.symm, fun k' v' ↦ ?_⟩
  rw [hperm.mem_iff]
  constructor
  · intro hmem
    refine ⟨?_, (hsplit ▸ h).key_ne (List.mem_append.mp hmem)⟩
    rw [hsplit]
    rcases List.mem_append.mp hmem with hmem | hmem
    · exact List.mem_append_left _ hmem
    · exact List.mem_append_right _ (List.mem_cons_of_mem _ hmem)
  · rintro ⟨hmem, hne⟩
    rw [hsplit] at hmem
    rcases List.mem_append.mp hmem with hmem | hmem
    · exact List.mem_append_left _ hmem
    · rcases List.mem_cons.mp hmem with heq | hmem
      · exact absurd (congrArg Prod.fst heq) hne
      · exact List.mem_append_right _ hmem

end D3OS.Lib
