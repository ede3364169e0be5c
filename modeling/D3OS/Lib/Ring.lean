import D3OS.Lib.Vec

/-!
# Rings of slots

An index that only grows names a slot of a ring and a pass over it. Two indices less than a
ring apart have different slots, and the parity of the pass tells the two indices apart that
share a slot in neighbouring passes. Indices are stored in fixed width; slot and parity survive
that as long as the width is a multiple of two rings. A producer that marks what it writes with
the parity of the pass shares a ring with a consumer that looks at nothing else.
-/

namespace D3OS.Lib

/-- The parity of the pass over a ring of `cnt` slots in which an index is reached. -/
def passParity (cnt i : Nat) : Nat := i / cnt % 2

variable {cnt i j m : Nat}

/-- Indices less than a ring apart have different slots. -/
theorem slot_ne (hlt : i < j) (hle : j < i + cnt) : i % cnt ≠ j % cnt := by
  intro h
  have hdvd : cnt ∣ j - i := Nat.dvd_of_mod_eq_zero (Nat.sub_mod_eq_zero_of_mod_eq h.symm)
  have := Nat.le_of_dvd (by omega) hdvd
  omega

/-- The stored index has the same slot. -/
theorem slot_stored (h : cnt ∣ m) (i : Nat) : i % m % cnt = i % cnt := Nat.mod_mod_of_dvd i h

/-- The stored index has the same parity. -/
theorem passParity_stored (h : 2 * cnt ∣ m) (i : Nat) :
    passParity cnt (i % m) = passParity cnt i := by
  rw [passParity, passParity, ← Nat.mod_mul_right_div_self, ← Nat.mod_mul_right_div_self,
    Nat.mul_comm cnt 2, Nat.mod_mod_of_dvd i h]

/-- A parity is a bit. -/
theorem passParity_lt (cnt i : Nat) : passParity cnt i < 2 := Nat.mod_lt _ (by decide)

private theorem passParity_add_self (hcnt : 0 < cnt) (i : Nat) :
    passParity cnt (i + cnt) = 1 - passParity cnt i := by
  rw [passParity, passParity, Nat.add_div_right i hcnt]
  omega

/-- The slots of a ring hold what was produced last, marked with the parity of its pass; slots
that were never written carry the mark of no first pass. -/
structure HoldsLast {α : Type} (cnt : Nat) (owner : α → Nat) (slots : Nat → α)
    (produced : List α) : Prop where
  last : ∀ i item, produced[i]? = some item → produced.length ≤ i + cnt → slots (i % cnt) = item
  parity : ∀ i item, produced[i]? = some item → owner item = passParity cnt i
  fresh : ∀ i, produced.length ≤ i → i < cnt → owner (slots i) = 1

namespace HoldsLast

variable {α : Type} {owner : α → Nat} {slots : Nat → α} {produced : List α} {item : α}

/-- Another item is produced. -/
theorem push (h : HoldsLast cnt owner slots produced)
    (hitem : owner item = passParity cnt produced.length) :
    HoldsLast cnt owner (Function.update slots (produced.length % cnt) item)
      (produced ++ [item]) := by
  refine ⟨fun i old hget hlen ↦ ?_, fun i old hget ↦ ?_, fun i hle hlt ↦ ?_⟩
  · rw [List.length_append, List.length_singleton] at hlen
    rcases getElem?_concat_eq_some.mp hget with hget | ⟨rfl, rfl⟩
    · have hlt := (List.getElem?_eq_some_iff.mp hget).1
      rw [Function.update_of_ne (slot_ne hlt (by omega))]
      exact h.last i old hget (by omega)
    · exact Function.update_self _ _ _
  · rcases getElem?_concat_eq_some.mp hget with hget | ⟨rfl, rfl⟩
    · exact h.parity i old hget
    · exact hitem
  · rw [List.length_append, List.length_singleton] at hle
    rw [Nat.mod_eq_of_lt (by omega), Function.update_of_ne (by omega)]
    exact h.fresh i (by omega) hlt

/-- The mark tells the consumer whether the item it waits for was produced. -/
theorem owner_eq_iff (h : HoldsLast cnt owner slots produced) (hcnt : 0 < cnt)
    (hle : i ≤ produced.length) (hlen : produced.length ≤ i + cnt) :
    owner (slots (i % cnt)) = passParity cnt i ↔ i < produced.length := by
  rcases Nat.eq_or_lt_of_le hle with rfl | hlt
  · have hne : owner (slots (produced.length % cnt)) ≠ passParity cnt produced.length := by
      rcases Nat.lt_or_ge produced.length cnt with hlt | hge
      · rw [Nat.mod_eq_of_lt hlt, h.fresh _ (Nat.le_refl _) hlt, passParity,
          Nat.div_eq_of_lt hlt]
        decide
      · -- the slot still holds the item of the pass before
        obtain ⟨j, hj⟩ := Nat.exists_eq_add_of_le' hge
        have hget : produced[j]? = some (produced[j]) := List.getElem?_eq_getElem (by omega)
        have hslot := h.last j _ hget (by omega)
        rw [hj, Nat.add_mod_right, hslot, h.parity j _ hget, passParity_add_self hcnt]
        omega
    exact ⟨fun heq ↦ absurd heq hne, fun hlt ↦ absurd hlt (Nat.lt_irrefl _)⟩
  · have hget : produced[i]? = some (produced[i]) := List.getElem?_eq_getElem hlt
    rw [h.last i _ hget hlen, h.parity i _ hget]
    exact ⟨fun _ ↦ hlt, fun _ ↦ rfl⟩

end HoldsLast

end D3OS.Lib
