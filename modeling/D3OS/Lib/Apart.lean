import Mathlib

/-!
# Families of lists without a common element

`Apart f` says that every element has one place in the family `f`: no list holds it twice
and no two lists hold it. Lists that lose elements, and elements that are new to the family,
keep that.
-/

namespace D3OS.Lib

universe u v w

variable {κ : Type u} {α : Type v} {f g : κ → List α} {k : κ} {l : List α} {a : α}

/-- No element occurs at two places of the family. -/
structure Apart (f : κ → List α) : Prop where
  nodup : ∀ k, (f k).Nodup
  disjoint : ∀ j k, j ≠ k → (f j).Disjoint (f k)

/-- A family of empty lists. -/
theorem apart_of_forall_eq_nil (h : ∀ k, f k = []) : Apart f where
  nodup k := by
    rw [h k]
    exact List.nodup_nil
  disjoint j k _ := by
    rw [h j]
    exact List.disjoint_nil_left _

/-- An element has one place. -/
theorem Apart.eq_of_mem (h : Apart f) {j : κ} (hj : a ∈ f j) (hk : a ∈ f k) : j = k := by
  by_contra hne
  exact h.disjoint j k hne hj hk

/-- Elements may be dropped from the lists and the rest reordered. -/
theorem Apart.mono (h : Apart f) (hg : ∀ k, (g k).Subperm (f k)) : Apart g where
  nodup k := by
    obtain ⟨l, hperm, hsub⟩ := hg k
    exact hperm.nodup_iff.mp ((h.nodup k).sublist hsub)
  disjoint j k hne _ haj hak := h.disjoint j k hne ((hg j).subset haj) ((hg k).subset hak)

/-- Elements may be renamed apart. -/
theorem Apart.map {β : Type w} (h : Apart f) {φ : α → β}
    (hφ : ∀ j, ∀ a ∈ f j, ∀ k, ∀ b ∈ f k, φ a = φ b → a = b) :
    Apart fun k ↦ (f k).map φ where
  nodup k := (h.nodup k).map_on fun a ha b hb heq ↦ hφ k a ha k b hb heq
  disjoint j k hne c hcj hck := by
    obtain ⟨a, ha, rfl⟩ := List.mem_map.mp hcj
    obtain ⟨b, hb, heq⟩ := List.mem_map.mp hck
    rw [hφ k b hb j a ha heq] at hb
    exact h.disjoint j k hne ha hb

/-- Two families may be joined that have no element in common. -/
theorem Apart.append (hf : Apart f) (hg : Apart g) (h : ∀ j k, (f j).Disjoint (g k)) :
    Apart fun k ↦ f k ++ g k where
  nodup k := List.nodup_append'.mpr ⟨hf.nodup k, hg.nodup k, h k k⟩
  disjoint j k hne a haj hak := by
    rcases List.mem_append.mp haj with haj | haj
    · exact (List.mem_append.mp hak).elim (hf.disjoint j k hne haj) (h j k haj)
    · exact (List.mem_append.mp hak).elim (fun hak ↦ h k j hak haj) (hg.disjoint j k hne haj)

/-- The lists of different keys, one after the other. -/
theorem Apart.nodup_flatMap (h : Apart f) {ks : List κ} (hks : ks.Nodup) :
    (ks.flatMap f).Nodup :=
  List.nodup_flatMap.mpr ⟨fun k _ ↦ h.nodup k, hks.imp fun hne ↦ h.disjoint _ _ hne⟩

variable [DecidableEq κ]

/-- What is in the family after one list is replaced. -/
theorem mem_update {j : κ} :
    a ∈ Function.update f k l j ↔ (j = k ∧ a ∈ l) ∨ (j ≠ k ∧ a ∈ f j) := by
  by_cases hj : j = k
  · subst hj
    simp
  · simp [hj]

/-- A family with one list replaced by part of it. -/
theorem update_subperm (hl : l.Subperm (f k)) (j : κ) :
    (Function.update f k l j).Subperm (f j) := by
  by_cases hj : j = k
  · subst hj
    rwa [Function.update_self]
  · rw [Function.update_of_ne hj]

private theorem Apart.update (h : Apart f) (hl : l.Nodup) (hdisj : ∀ j, j ≠ k → l.Disjoint (f j)) :
    Apart (Function.update f k l) where
  nodup j := by
    by_cases hj : j = k
    · subst hj
      rwa [Function.update_self]
    · rw [Function.update_of_ne hj]
      exact h.nodup j
  disjoint i j hne := by
    by_cases hi : i = k
    · subst hi
      rw [Function.update_self, Function.update_of_ne hne.symm]
      exact hdisj j hne.symm
    · rw [Function.update_of_ne hi]
      by_cases hj : j = k
      · subst hj
        rw [Function.update_self]
        exact List.disjoint_symm (hdisj i hi)
      · rw [Function.update_of_ne hj]
        exact h.disjoint i j hne

/-- A new element may be added to a list. -/
theorem Apart.update_concat (h : Apart f) (ha : ∀ j, a ∉ f j) :
    Apart (Function.update f k (f k ++ [a])) := by
  refine h.update ?_ fun j hj b hb hbj ↦ ?_
  · rw [List.perm_append_comm.nodup_iff]
    exact List.nodup_cons.mpr ⟨ha k, h.nodup k⟩
  · rcases List.mem_append.mp hb with hb | hb
    · exact h.disjoint k j hj.symm hb hbj
    · rw [List.mem_singleton.mp hb] at hbj
      exact ha j hbj

/-- An element may move from one list to another. -/
theorem Apart.move (h : Apart f) {j : κ} (hne : j ≠ k) (hk : (a :: l).Perm (f k)) :
    Apart (Function.update (Function.update f k l) j (f j ++ [a])) := by
  have hsub : l.Subperm (f k) := List.Subperm.cons_self.trans hk.subperm
  have hmem : a ∈ f k := hk.mem_iff.mp List.mem_cons_self
  have hrest := (h.mono (update_subperm hsub)).update_concat (k := j) (a := a) ?_
  · rwa [Function.update_of_ne hne] at hrest
  · intro i hi
    rcases mem_update.mp hi with ⟨-, hl⟩ | ⟨hik, hi⟩
    · exact (List.nodup_cons.mp (hk.nodup_iff.mpr (h.nodup k))).1 hl
    · exact hik (h.eq_of_mem hi hmem)

/-- An element that moves stays in the family, and so do all others. -/
theorem exists_mem_move {j : κ} {b : α} (hne : j ≠ k) (hk : (a :: l).Perm (f k)) :
    (∃ i, b ∈ Function.update (Function.update f k l) j (f j ++ [a]) i) ↔ ∃ i, b ∈ f i := by
  have hmem : b ∈ f k ↔ b = a ∨ b ∈ l := by rw [← hk.mem_iff, List.mem_cons]
  constructor
  · rintro ⟨i, hi⟩
    rcases mem_update.mp hi with ⟨-, hb⟩ | ⟨-, hb⟩
    · rcases List.mem_append.mp hb with hb | hb
      · exact ⟨j, hb⟩
      · exact ⟨k, hmem.mpr (.inl (List.mem_singleton.mp hb))⟩
    · rcases mem_update.mp hb with ⟨-, hb⟩ | ⟨-, hb⟩
      · exact ⟨k, hmem.mpr (.inr hb)⟩
      · exact ⟨i, hb⟩
  · rintro ⟨i, hi⟩
    by_cases hij : i = j
    · subst hij
      exact ⟨i, mem_update.mpr (.inl ⟨rfl, List.mem_append_left _ hi⟩)⟩
    · by_cases hik : i = k
      · subst hik
        rcases hmem.mp hi with rfl | hl
        · exact ⟨j, mem_update.mpr (.inl ⟨rfl, List.mem_append_right _ List.mem_cons_self⟩)⟩
        · exact ⟨i, mem_update.mpr (.inr ⟨hij, mem_update.mpr (.inl ⟨rfl, hl⟩)⟩)⟩
      · exact ⟨i, mem_update.mpr (.inr ⟨hij, mem_update.mpr (.inr ⟨hik, hi⟩)⟩)⟩

end D3OS.Lib
