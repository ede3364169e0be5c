import D3OS.Lib.Outcome
import D3OS.Lib.Radix

/-!
# Scanning the blocks of a range

A table of a radix tree is scanned from the entry of the first key of a range on.
Every visit handles the part of the range in its block and moves the start of the
range behind it; the scan stops when the range is used up. A visit may also get
stuck and leave the start where it is, provided that the entries behind it do
nothing when they are visited. `scanBlocks_yields` is the rule for such loops,
`scanBlocks_collects` the one for a loop whose entries depend on what it has done so far.
-/

namespace D3OS.Lib

universe u v w

variable {ε : Type u} {α : Type v} {σ : Type w}

/-- What a scan for the range from `s` to `e` makes of entry `j` of the table `T`: an
entered block is related to the old one by `R`, from the key it was entered with; an
idle entry is related by `D`; every other entry is unchanged. -/
def Scanned {b : Nat} (l s e : Nat) (R : Nat → α → α → Prop) (Idle : Fin b → Prop)
    (D : α → α → Prop) (T : Fin b → α) (j : Fin b) (a : α) : Prop :=
  (Enters b l s e j ∧ R (blockStart b l s j) (T j) a) ∨
    (¬ Enters b l s e j ∧ a = T j) ∨ (Idle j ∧ D (T j) a)

section

variable {b l s e : Nat} {T : Fin b → α} {body : α → σ → Except ε (α × σ × Bool)}
  {E : ε → Prop} {start : σ → Nat} {J : σ → Prop} {R : Nat → α → α → Prop}
  {Idle : Fin b → Prop} {D : α → α → Prop} {Stuck : Prop}

/-- Where the scan stands before entry `i`: at the start of block `i`, or stuck. -/
private def Cursor (b l s e : Nat) (Idle : Fin b → Prop) (Stuck : Prop) (i x : Nat) : Prop :=
  (x = blockStart b l s i ∧ (x < e ∨ i = digit b l s)) ∨
    (Stuck ∧ s ≤ x ∧ x ≤ e ∧ ∀ j : Fin b, i ≤ j → Idle j)

/-- Loop invariant: the entries before `i` have been scanned, the others are untouched. -/
private structure ScanInv (l s e : Nat) (start : σ → Nat) (J : σ → Prop)
    (R : Nat → α → α → Prop) (Idle : Fin b → Prop) (D : α → α → Prop) (Stuck : Prop)
    (T : Fin b → α) (i : Nat) (t : Fin b → α) (st : σ) : Prop where
  le : digit b l s ≤ i
  inv : J st
  rest : ∀ j : Fin b, i ≤ j → t j = T j
  done : ∀ j : Fin b, j < i → Scanned l s e R Idle D T j (t j)
  cur : Cursor b l s e Idle Stuck i (start st)

private theorem next_of_done {i : Nat} {t : Fin b → α} {st' : σ} {a : α} (hle : digit b l s ≤ i)
    (hrest : ∀ j : Fin b, i ≤ j → t j = T j)
    (hdone : ∀ j : Fin b, j < i → Scanned l s e R Idle D T j (t j)) (hi : i < b)
    (hnew : Scanned l s e R Idle D T ⟨i, hi⟩ a) (hJ : J st')
    (hcur : Cursor b l s e Idle Stuck (i + 1) (start st')) :
    ScanInv l s e start J R Idle D Stuck T (i + 1) (Function.update t ⟨i, hi⟩ a) st' := by
  have hne : ∀ j : Fin b, (j : Nat) ≠ i → Function.update t ⟨i, hi⟩ a j = t j :=
    fun j hj ↦ Function.update_of_ne (fun he ↦ hj (congrArg Fin.val he)) _ _
  refine ⟨Nat.le_succ_of_le hle, hJ, ?_, ?_, hcur⟩
  · intro j hj
    rw [hne j (by omega)]
    exact hrest j (by omega)
  · intro j hj
    by_cases hji : (j : Nat) = i
    · have he : j = ⟨i, hi⟩ := Fin.ext hji
      rw [he, Function.update_self]
      exact hnew
    · rw [hne j hji]
      exact hdone j (by omega)

private theorem exit_of_done {i : Nat} {t : Fin b → α} {a : α}
    (hrest : ∀ j : Fin b, i ≤ j → t j = T j)
    (hdone : ∀ j : Fin b, j < i → Scanned l s e R Idle D T j (t j)) (hi : i < b)
    (hnew : Scanned l s e R Idle D T ⟨i, hi⟩ a)
    (hlater : ∀ j : Fin b, i < j → Scanned l s e R Idle D T j (T j)) (j : Fin b) :
    Scanned l s e R Idle D T j (Function.update t ⟨i, hi⟩ a j) := by
  by_cases hji : j = ⟨i, hi⟩
  · rw [hji, Function.update_self]
    exact hnew
  · have hne : (j : Nat) ≠ i := fun he ↦ hji (Fin.ext he)
    rw [Function.update_of_ne hji]
    by_cases hij : i < j
    · rw [hrest j hij.le]
      exact hlater j hij
    · exact hdone j (by omega)

private theorem Scanned.mono {R' : Nat → α → α → Prop} {j : Fin b} {a : α}
    (h : Scanned l s e R Idle D T j a) (hR : ∀ k old new, R k old new → R' k old new) :
    Scanned l s e R' Idle D T j a := by
  rcases h with ⟨hent, hr⟩ | h
  · exact .inl ⟨hent, hR _ _ _ hr⟩
  · exact .inr h

/-- Rule for a scan over the blocks of a range that collects `g : γ` on the way, where what
holds for an entry goes on to hold as `g` grows. `hlive` is the visit of the entry the range
has come to, `hidle` the visit of an entry behind the one where it got stuck. -/
theorem scanBlocks_collects {γ : Type w} (start : σ → Nat) (J : γ → σ → Prop)
    (R : γ → Nat → α → α → Prop)
    (Idle : Fin b → Prop) (D : α → α → Prop) (Stuck : Prop)
    (hb : 0 < b) (hse : s ≤ e) (hD : ∀ a, D a a) {st : σ} {g : γ}
    (hst : start st = s) (hJ : J g st)
    (hlive : ∀ (i : Fin b) (st : σ) (g : γ), Enters b l s e i → J g st →
      start st = blockStart b l s i → start st ≤ e →
      Yields (body (T i) st) (fun r ↦ ∃ g', (∀ k old new, R g k old new → R g' k old new) ∧
        R g' (blockStart b l s i) (T i) r.1 ∧ J g' r.2.1 ∧
        ((start r.2.1 = start st + span b l (start st) e ∧ r.2.2 = decide (e ≤ start r.2.1)) ∨
          (Stuck ∧ s ≤ start r.2.1 ∧ start r.2.1 ≤ e ∧ ∀ j, i < j → Idle j))) E)
    (hidle : ∀ (i : Fin b) (st : σ) (g : γ), Idle i → J g st → s ≤ start st → start st ≤ e →
      Yields (body (T i) st) (fun r ↦ D (T i) r.1 ∧ J g r.2.1 ∧ start r.2.1 = start st) E) :
    Yields (scanFrom body (digit b l s) T st) (fun r ↦ ∃ g, J g r.2 ∧
      (∀ j, Scanned l s e (R g) Idle D T j (r.1 j)) ∧
      (start r.2 = s + span b (l + 1) s e ∨ (Stuck ∧ s ≤ start r.2 ∧ start r.2 ≤ e))) E := by
  apply scanFrom_yields
    (I := fun i t st ↦ ∃ g, ScanInv l s e start (J g) (R g) Idle D Stuck T i t st)
    (Q := fun t st ↦ ∃ g, J g st ∧ (∀ j, Scanned l s e (R g) Idle D T j (t j)) ∧
      (start st = s + span b (l + 1) s e ∨ (Stuck ∧ s ≤ start st ∧ start st ≤ e)))
  · exact (digit_lt hb l s).le
  · refine ⟨g, le_rfl, hJ, fun _ _ ↦ rfl, ?_, .inl ⟨?_, .inr rfl⟩⟩
    · intro j hj
      exact .inr (.inl ⟨fun h ↦ absurd h.1 (by omega), rfl⟩)
    · rw [hst, blockStart_digit hb]
  · rintro i hi t st ⟨g, h⟩
    rw [h.rest ⟨i, hi⟩ le_rfl]
    rcases h.cur with ⟨hx, hent⟩ | ⟨hstuck, hsx, hxe, hdead⟩
    · have henter : Enters b l s e i := ⟨h.le, hx ▸ hent⟩
      have hxe : start st ≤ e := by
        rcases hent with hlt | hd
        · exact hlt.le
        · rw [hx, hd, blockStart_digit hb]
          exact hse
      apply (hlive ⟨i, hi⟩ st g henter h.inv hx hxe).mono _ (fun _ he ↦ he)
      rintro ⟨a, st', stop⟩ ⟨g', hmono, hR, hJ', hout⟩
      have hnew : Scanned l s e (R g') Idle D T ⟨i, hi⟩ a := .inl ⟨henter, hR⟩
      have hinv := fun (j : Fin b) hj ↦ (h.done j hj).mono hmono
      rcases hout with ⟨hgo, hstop⟩ | ⟨hstuck, hsx, hxe, hdead⟩
      · simp only [hx] at hgo hstop
        by_cases hend : e ≤ start st'
        · simp only [hstop, hend, decide_true, if_true]
          rw [hgo] at hend
          have hspan := span_succ_of_le hb h.le hi (hx ▸ hxe) hend
          have hle : span b l (blockStart b l s i) e ≤ e - blockStart b l s i := min_le_left _ _
          refine ⟨g', hJ', exit_of_done h.rest hinv hi hnew ?_, .inl (by omega)⟩
          intro j hj
          exact .inr (.inl ⟨not_enters_of_le hb h.le hend hj, rfl⟩)
        · simp only [hstop, hend, decide_false, Bool.false_eq_true, if_false]
          refine ⟨g', next_of_done h.le h.rest hinv hi hnew hJ' (.inl ⟨?_, .inl (by omega)⟩)⟩
          rw [hgo, blockStart_succ (e := e) hb h.le (by omega)]
      · cases stop with
        | true =>
          refine ⟨g', hJ', exit_of_done h.rest hinv hi hnew ?_, .inr ⟨hstuck, hsx, hxe⟩⟩
          intro j hj
          exact .inr (.inr ⟨hdead j hj, hD _⟩)
        | false =>
          exact ⟨g', next_of_done h.le h.rest hinv hi hnew hJ'
            (.inr ⟨hstuck, hsx, hxe, fun j hj ↦ hdead j hj⟩)⟩
    · apply (hidle ⟨i, hi⟩ st g (hdead _ le_rfl) h.inv hsx hxe).mono _ (fun _ he ↦ he)
      rintro ⟨a, st', stop⟩ ⟨hDa, hJ', hsame⟩
      have hnew : Scanned l s e (R g) Idle D T ⟨i, hi⟩ a := .inr (.inr ⟨hdead _ le_rfl, hDa⟩)
      rw [← hsame] at hsx hxe
      cases stop with
      | true =>
        refine ⟨g, hJ', exit_of_done h.rest h.done hi hnew ?_, .inr ⟨hstuck, hsx, hxe⟩⟩
        intro j hj
        exact .inr (.inr ⟨hdead j hj.le, hD _⟩)
      | false =>
        exact ⟨g, next_of_done h.le h.rest h.done hi hnew hJ'
          (.inr ⟨hstuck, hsx, hxe, fun j hj ↦ hdead j (Nat.le_of_succ_le hj)⟩)⟩
  · rintro t st ⟨g, h⟩
    refine ⟨g, h.inv, fun j ↦ h.done j j.isLt, ?_⟩
    rcases h.cur with ⟨hx, hlt | hd⟩ | ⟨hstuck, hsx, hxe, -⟩
    · rw [hx] at hlt ⊢
      exact .inl (blockStart_base hb hlt)
    · exact absurd (digit_lt hb l s) (by omega)
    · exact .inr ⟨hstuck, hsx, hxe⟩

/-- Rule for a scan over the blocks of a range that collects nothing. -/
theorem scanBlocks_yields (start : σ → Nat) (J : σ → Prop) (R : Nat → α → α → Prop)
    (Idle : Fin b → Prop) (D : α → α → Prop) (Stuck : Prop)
    (hb : 0 < b) (hse : s ≤ e) (hD : ∀ a, D a a) {st : σ}
    (hst : start st = s) (hJ : J st)
    (hlive : ∀ (i : Fin b) (st : σ), Enters b l s e i → J st → start st = blockStart b l s i →
      start st ≤ e → Yields (body (T i) st) (fun r ↦ R (blockStart b l s i) (T i) r.1 ∧ J r.2.1 ∧
        ((start r.2.1 = start st + span b l (start st) e ∧ r.2.2 = decide (e ≤ start r.2.1)) ∨
          (Stuck ∧ s ≤ start r.2.1 ∧ start r.2.1 ≤ e ∧ ∀ j, i < j → Idle j))) E)
    (hidle : ∀ (i : Fin b) (st : σ), Idle i → J st → s ≤ start st → start st ≤ e →
      Yields (body (T i) st) (fun r ↦ D (T i) r.1 ∧ J r.2.1 ∧ start r.2.1 = start st) E) :
    Yields (scanFrom body (digit b l s) T st) (fun r ↦ J r.2 ∧
      (∀ j, Scanned l s e R Idle D T j (r.1 j)) ∧
      (start r.2 = s + span b (l + 1) s e ∨ (Stuck ∧ s ≤ start r.2 ∧ start r.2 ≤ e))) E := by
  refine (scanBlocks_collects (γ := PUnit) start (fun _ ↦ J) (fun _ ↦ R) Idle D Stuck hb hse hD
    (g := ⟨⟩) hst hJ ?_ fun i st _ ↦ hidle i st).mono (fun r ⟨_, h⟩ ↦ h) (fun _ he ↦ he)
  intro i st _ henter hinv hx hle
  exact (hlive i st henter hinv hx hle).mono (fun r hr ↦ ⟨⟨⟩, fun _ _ _ h ↦ h, hr⟩) (fun _ he ↦ he)

end

end D3OS.Lib
