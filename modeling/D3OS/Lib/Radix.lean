import Mathlib

/-!
# Radix digits and the blocks of a range

A key is read digit by digit in base `b`, as a tree of tables with `b` entries
reads it: a subtree of height `l` holds `b ^ l` keys, entry `digit b l n` of the
next table leads to the subtree of `n`, and `n % b ^ l` is the position of `n` in
it. A range of keys is cut into the blocks of its subtrees; `cursor` is where the
part of the range that lies in block `i` begins.
-/

namespace D3OS.Lib

/-- Digit `l` of `n` in base `b`, counted from the least significant one. -/
def digit (b l n : Nat) : Nat := n / b ^ l % b

variable {b : Nat}

/-- A digit is below the base. -/
theorem digit_lt (hb : 0 < b) (l n : Nat) : digit b l n < b :=
  Nat.mod_lt _ hb

private theorem mod_pow_succ_eq_digit (b l n : Nat) :
    n % b ^ (l + 1) = digit b l n * b ^ l + n % b ^ l := by
  rw [Nat.mod_pow_succ, digit, Nat.add_comm, Nat.mul_comm]

private theorem digit_eq_iff (hb : 0 < b) (l n i : Nat) :
    digit b l n = i ↔ i * b ^ l ≤ n % b ^ (l + 1) ∧ n % b ^ (l + 1) < (i + 1) * b ^ l := by
  have hm := Nat.mod_lt n (Nat.pow_pos (n := l) hb)
  rw [mod_pow_succ_eq_digit]
  generalize n % b ^ l = r at hm ⊢
  constructor
  · rintro rfl
    rw [Nat.succ_mul]
    omega
  · rintro ⟨hle, hlt⟩
    have h1 : digit b l n < i + 1 := by
      by_contra hc
      have := Nat.mul_le_mul_right (b ^ l) (Nat.le_of_not_lt hc)
      omega
    have h2 : i < digit b l n + 1 := by
      by_contra hc
      have := Nat.mul_le_mul_right (b ^ l) (Nat.le_of_not_lt hc)
      rw [Nat.succ_mul] at this
      omega
    omega

/-- Position, in a subtree of height `l + 1`, where the part of the range from `s` on
that lies in block `i` begins. -/
def cursor (b l s i : Nat) : Nat := max (s % b ^ (l + 1)) (i * b ^ l)

private theorem cursor_digit (hb : 0 < b) (l s : Nat) : cursor b l s (digit b l s) = s % b ^
    (l + 1) :=
  max_eq_left ((digit_eq_iff hb l s _).mp rfl).1

private theorem cursor_base (hb : 0 < b) (l s : Nat) : cursor b l s b = b ^ (l + 1) := by
  have hm := Nat.mod_lt s (Nat.pow_pos (n := l + 1) hb)
  rw [cursor, Nat.mul_comm, ← Nat.pow_succ]
  exact max_eq_right hm.le

private theorem cursor_bounds (hb : 0 < b) (l s i : Nat) (hi : digit b l s ≤ i) :
    s % b ^ (l + 1) ≤ cursor b l s i ∧ i * b ^ l ≤ cursor b l s i ∧
      cursor b l s i < (i + 1) * b ^ l := by
  have hd := ((digit_eq_iff hb l s _).mp rfl).2
  have hp : 0 < b ^ l := Nat.pow_pos hb
  have hm := Nat.mul_le_mul_right (b ^ l) (Nat.succ_le_succ hi)
  have hs : (i + 1) * b ^ l = i * b ^ l + b ^ l := Nat.succ_mul _ _
  simp only [cursor]
  simp only [Nat.succ_eq_add_one] at hm
  omega

private theorem cursor_succ (hb : 0 < b) (l s i : Nat) (hi : digit b l s ≤ i) :
    cursor b l s (i + 1) = (i + 1) * b ^ l := by
  have h := cursor_bounds hb l s i hi
  rw [cursor]
  omega

private theorem add_cursor_mod (hb : 0 < b) (l s i : Nat) (hi : digit b l s ≤ i) :
    (s + (cursor b l s i - s % b ^ (l + 1))) % b ^ l = cursor b l s i - i * b ^ l := by
  have h := cursor_bounds hb l s i hi
  have hq := Nat.div_add_mod s (b ^ (l + 1))
  have hs : (i + 1) * b ^ l = i * b ^ l + b ^ l := Nat.succ_mul _ _
  have he : s + (cursor b l s i - s % b ^ (l + 1)) =
      (cursor b l s i - i * b ^ l) + b ^ l * (b * (s / b ^ (l + 1)) + i) := by
    have hr : b ^ (l + 1) * (s / b ^ (l + 1)) = b ^ l * (b * (s / b ^ (l + 1))) := by
      rw [Nat.pow_succ, Nat.mul_assoc]
    rw [Nat.mul_add, ← hr, Nat.mul_comm (b ^ l) i]
    omega
  rw [he, Nat.add_mul_mod_self_left]
  exact Nat.mod_eq_of_lt (by omega)

/-- Number of keys of the range from `s` to `e` that lie in the subtree of height `h`
that `s` lies in. -/
def span (b h s e : Nat) : Nat := min (e - s) (b ^ h - s % b ^ h)

/-- The position of `k` is one of those that the range takes in the subtree of height `h`
that `s` lies in. -/
def InSpan (b h s e k : Nat) : Prop :=
  s % b ^ h ≤ k % b ^ h ∧ k % b ^ h < s % b ^ h + span b h s e

instance (b h s e k : Nat) : Decidable (InSpan b h s e k) :=
  inferInstanceAs (Decidable (_ ∧ _))

/-- The key with which the range from `s` on enters block `i`. -/
def blockStart (b l s i : Nat) : Nat := s + (cursor b l s i - s % b ^ (l + 1))

/-- The range from `s` to `e` has keys in block `i`; its first block counts even if
the range is empty. -/
def Enters (b l s e i : Nat) : Prop :=
  digit b l s ≤ i ∧ (blockStart b l s i < e ∨ i = digit b l s)

/-- The range enters its first block at its first key. -/
theorem blockStart_digit (hb : 0 < b) (l s : Nat) : blockStart b l s (digit b l s) = s := by
  rw [blockStart, cursor_digit hb, Nat.sub_self, Nat.add_zero]

variable {l s e i : Nat}

section

variable (hb : 0 < b) (hi : digit b l s ≤ i)
include hb hi

/-- A range that is cut off by the end of block `i` goes on at the start of the next. -/
theorem blockStart_succ (h : blockStart b l s i + span b l (blockStart b l s i) e < e) :
    blockStart b l s (i + 1) = blockStart b l s i + span b l (blockStart b l s i) e := by
  have hc := cursor_bounds hb l s i hi
  have hm := add_cursor_mod hb l s i hi
  have hs : (i + 1) * b ^ l = i * b ^ l + b ^ l := Nat.succ_mul _ _
  simp only [blockStart] at h ⊢
  simp only [span, hm] at h ⊢
  rw [cursor_succ hb l s i hi]
  omega

/-- No block behind one that reaches the end of the range is entered. -/
theorem not_enters_of_le {j : Nat}
    (h : e ≤ blockStart b l s i + span b l (blockStart b l s i) e) (hj : i < j) :
    ¬ Enters b l s e j := by
  rintro ⟨hdj, hlt | hjd⟩
  · have hc := cursor_bounds hb l s i hi
    have hcj := cursor_bounds hb l s j hdj
    have hm := add_cursor_mod hb l s i hi
    have hs : (i + 1) * b ^ l = i * b ^ l + b ^ l := Nat.succ_mul _ _
    have hle := Nat.mul_le_mul_right (b ^ l) (show i + 1 ≤ j by omega)
    simp only [blockStart] at h hlt
    simp only [span, hm] at h
    omega
  · omega

/-- A range that ends in block `i` has its whole length in the subtree. -/
theorem span_succ_of_le (hib : i < b)
    (he : blockStart b l s i ≤ e) (h : e ≤ blockStart b l s i + span b l (blockStart b l s i) e) :
    s + span b (l + 1) s e = e := by
  have hc := cursor_bounds hb l s i hi
  have hm := add_cursor_mod hb l s i hi
  have hs : (i + 1) * b ^ l = i * b ^ l + b ^ l := Nat.succ_mul _ _
  have hle := Nat.mul_le_mul_right (b ^ l) (show i + 1 ≤ b by omega)
  have hB : b ^ (l + 1) = b * b ^ l := by rw [Nat.pow_succ, Nat.mul_comm]
  simp only [blockStart] at h he
  simp only [span, hm] at h
  simp only [span]
  omega

end

/-- A range that goes on behind the last block fills the rest of the subtree. -/
theorem blockStart_base (hb : 0 < b) (h : blockStart b l s b < e) :
    blockStart b l s b = s + span b (l + 1) s e := by
  rw [blockStart, cursor_base hb] at h ⊢
  simp only [span]
  omega

/-- The keys of the range in a subtree, block by block. -/
theorem inSpan_succ_iff (hb : 0 < b) (k : Nat) :
    InSpan b (l + 1) s e k ↔ Enters b l s e (digit b l k) ∧
      InSpan b l (blockStart b l s (digit b l k)) e k := by
  have hk := mod_pow_succ_eq_digit b l k
  have hkl := Nat.mod_lt k (Nat.pow_pos (n := l) hb)
  have hsl := (digit_eq_iff hb l s _).mp rfl
  have hs : (digit b l k + 1) * b ^ l = digit b l k * b ^ l + b ^ l := Nat.succ_mul _ _
  have hle := Nat.mul_le_mul_right (b ^ l) (show digit b l k + 1 ≤ b from digit_lt hb l k)
  have hB : b ^ (l + 1) = b * b ^ l := by rw [Nat.pow_succ, Nat.mul_comm]
  have hd : s % b ^ (l + 1) ≤ k % b ^ (l + 1) → digit b l s ≤ digit b l k := by
    intro h
    by_contra hc
    have := Nat.mul_le_mul_right (b ^ l) (show digit b l k + 1 ≤ digit b l s by omega)
    omega
  by_cases hdk : digit b l s ≤ digit b l k
  · have hm := add_cursor_mod hb l s _ hdk
    have hcu : cursor b l s (digit b l k) = max (s % b ^ (l + 1)) (digit b l k * b ^ l) := rfl
    simp only [InSpan, Enters, blockStart, span, hm, hdk, true_and]
    generalize k % b ^ l = r at *
    omega
  · constructor
    · intro h
      exact absurd (hd h.1) hdk
    · intro h
      exact absurd h.1.1 hdk

/-- The key of the range from `s` on that has the position of `k` in the subtree. -/
def keyAt (b h s k : Nat) : Nat := s + (k % b ^ h - s % b ^ h)

variable {h k : Nat}

/-- A position in the span stands for a key of the range. -/
theorem keyAt_lt (hk : InSpan b h s e k) : keyAt b h s k < e := by
  have hle : span b h s e ≤ e - s := min_le_left _ _
  have h1 := hk.1
  have h2 := hk.2
  simp only [keyAt]
  omega

/-- Counting from the start of its block or from the start of the range is the same. -/
theorem keyAt_blockStart (hb : 0 < b) (h : InSpan b (l + 1) s e k) :
    keyAt b l (blockStart b l s (digit b l k)) k = keyAt b (l + 1) s k := by
  obtain ⟨hent, hin⟩ := (inSpan_succ_iff hb k).mp h
  have hc := cursor_bounds hb l s _ hent.1
  have hm := add_cursor_mod hb l s _ hent.1
  have hk := mod_pow_succ_eq_digit b l k
  simp only [InSpan, blockStart, hm] at hin
  simp only [keyAt, blockStart, hm]
  omega

/-- A range that is not empty has its first key in its span. -/
theorem inSpan_self (hb : 0 < b) (hse : s < e) : InSpan b h s e s := by
  have hm := Nat.mod_lt s (Nat.pow_pos (n := h) hb)
  refine ⟨le_rfl, ?_⟩
  simp only [span]
  omega

/-- An empty range has nothing in its span. -/
theorem not_inSpan_of_le (hes : e ≤ s) : ¬ InSpan b h s e k := by
  intro hk
  have hlt := keyAt_lt hk
  simp only [keyAt] at hlt
  omega

/-- Being in a span is a matter of the position. -/
theorem inSpan_congr {k' : Nat} (hk : k % b ^ h = k' % b ^ h) :
    InSpan b h s e k ↔ InSpan b h s e k' := by
  rw [InSpan, InSpan, hk]

/-- The key at the position of `k` in block `i`. -/
def blockKey (b l i k : Nat) : Nat := i * b ^ l + k % b ^ l

/-- Position, in its block, of a key of block `i`. -/
theorem blockKey_mod (b l i k : Nat) : blockKey b l i k % b ^ l = k % b ^ l := by
  rw [blockKey, Nat.mul_comm, Nat.mul_add_mod, Nat.mod_mod]

/-- Position, in the whole subtree, of a key of block `i`. -/
theorem blockKey_mod_succ (hi : i < b) (k : Nat) :
    blockKey b l i k % b ^ (l + 1) = blockKey b l i k := by
  have hb : 0 < b := by omega
  have hm := Nat.mod_lt k (Nat.pow_pos (n := l) hb)
  have hle := Nat.mul_le_mul_right (b ^ l) (show i + 1 ≤ b by omega)
  have hB : b ^ (l + 1) = b * b ^ l := by rw [Nat.pow_succ, Nat.mul_comm]
  rw [Nat.succ_mul] at hle
  apply Nat.mod_eq_of_lt
  rw [blockKey]
  omega

/-- A key of block `i` has the digit `i`. -/
theorem digit_blockKey (hi : i < b) (k : Nat) : digit b l (blockKey b l i k) = i := by
  have hb : 0 < b := by omega
  have hm := Nat.mod_lt k (Nat.pow_pos (n := l) hb)
  rw [digit_eq_iff hb, blockKey_mod_succ hi, blockKey, Nat.succ_mul]
  exact ⟨Nat.le_add_right _ _, Nat.add_lt_add_left hm _⟩

/-- The keys of an entered block, as positions of the block. -/
theorem inSpan_blockKey (hi : i < b) (hent : Enters b l s e i) (k : Nat) :
    InSpan b (l + 1) s e (blockKey b l i k) ↔ InSpan b l (blockStart b l s i) e k := by
  rw [inSpan_succ_iff (by omega), digit_blockKey hi, inSpan_congr (blockKey_mod b l i k)]
  exact and_iff_right hent

/-- The keys of an earlier block come first. -/
theorem blockKey_lt {j : Nat} (hb : 0 < b) (hij : i < j) (k k' : Nat) :
    blockKey b l i k < blockKey b l j k' := by
  have hm := Nat.mod_lt k (Nat.pow_pos (n := l) hb)
  have hle := Nat.mul_le_mul_right (b ^ l) (show i + 1 ≤ j from hij)
  rw [Nat.succ_mul] at hle
  exact lt_of_lt_of_le (Nat.add_lt_add_left hm _) (le_trans hle (Nat.le_add_right _ _))

end D3OS.Lib
