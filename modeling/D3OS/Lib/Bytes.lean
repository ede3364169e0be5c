import Mathlib

/-!
# Byte memories

A memory is a function from offsets to bytes. `patch` writes a list of bytes at an offset and
`slice` reads one back. Numbers are stored with their highest byte first.
-/

namespace D3OS.Lib

/-- The memory after bytes were written at an offset. -/
def patch (bytes : Nat → UInt8) (offset : Nat) (data : List UInt8) : Nat → UInt8 := fun o ↦
  if o < offset then bytes o else data.getD (o - offset) (bytes o)

/-- The bytes from an offset on. -/
def slice (bytes : Nat → UInt8) (offset len : Nat) : List UInt8 :=
  (List.range len).map fun i ↦ bytes (offset + i)

/-- The bytes of a number of the given width, the highest first. -/
def toBe (width n : Nat) : List UInt8 :=
  (List.range width).map fun i ↦ UInt8.ofNat (n >>> (8 * (width - 1 - i)))

/-- The bytes of a number of the given width, the lowest first. -/
def toLe (width n : Nat) : List UInt8 := (toBe width n).reverse

/-- The number that bytes stand for. -/
def ofBe : List UInt8 → Nat
  | [] => 0
  | b :: data => b.toNat * 256 ^ data.length + ofBe data

/-- Read a number of the given width, and what follows it. -/
def takeBe (width : Nat) (data : List UInt8) : Nat × List UInt8 :=
  (ofBe (data.take width), data.drop width)

variable {bytes : Nat → UInt8} {offset o len : Nat} {data : List UInt8}

/-- Bytes elsewhere are left alone. -/
theorem patch_of_outside (h : o < offset ∨ offset + data.length ≤ o) :
    patch bytes offset data o = bytes o := by
  unfold patch
  split
  next => rfl
  next hle => rw [List.getD_eq_getElem?_getD, List.getElem?_eq_none (by omega), Option.getD_none]

/-- A byte that was written is read back. -/
theorem patch_of_lt {i : Nat} (h : i < data.length) :
    patch bytes offset data (offset + i) = data[i] := by
  rw [patch, if_neg (by omega), Nat.add_sub_cancel_left, List.getD_eq_getElem?_getD,
    List.getElem?_eq_getElem h, Option.getD_some]

/-- Nothing is written. -/
@[simp] theorem patch_nil (bytes : Nat → UInt8) (offset : Nat) : patch bytes offset [] = bytes :=
  funext fun _ ↦ patch_of_outside (by rw [List.length_nil]; omega)

private theorem eq_patch {bytes' : Nat → UInt8}
    (hout : ∀ o, o < offset ∨ offset + data.length ≤ o → bytes' o = bytes o)
    (hin : ∀ i, (h : i < data.length) → bytes' (offset + i) = data[i]) :
    bytes' = patch bytes offset data := by
  funext o
  by_cases ho : o < offset ∨ offset + data.length ≤ o
  · rw [hout o ho, patch_of_outside ho]
  · obtain ⟨i, rfl⟩ := Nat.exists_eq_add_of_le (show offset ≤ o by omega)
    rw [hin i (by omega), patch_of_lt (by omega)]

section

variable (bytes : Nat → UInt8) (offset : Nat)

/-- Bytes written right behind others. -/
theorem patch_append (data data' : List UInt8) :
    patch (patch bytes offset data) (offset + data.length) data' =
      patch bytes offset (data ++ data') := by
  refine eq_patch (fun o ho ↦ ?_) fun i hi ↦ ?_
  · rw [List.length_append] at ho
    rw [patch_of_outside (by omega), patch_of_outside (by omega)]
  · by_cases h : i < data.length
    · rw [patch_of_outside (by omega), patch_of_lt h, List.getElem_append_left h]
    · obtain ⟨j, rfl⟩ := Nat.exists_eq_add_of_le (Nat.not_lt.mp h)
      have hj : j < data'.length := by
        rw [List.length_append] at hi
        omega
      rw [← Nat.add_assoc, patch_of_lt hj, List.getElem_append_right (by omega)]
      simp only [Nat.add_sub_cancel_left]

/-- Bytes written right in front of others. -/
theorem patch_prepend (data data' : List UInt8) :
    patch (patch bytes (offset + data.length) data') offset data =
      patch bytes offset (data ++ data') := by
  rw [← patch_append]
  refine eq_patch (fun o ho ↦ ?_) fun i hi ↦ ?_
  · by_cases h : o < offset ∨ offset + data.length ≤ o
    · rw [patch_of_outside h, patch_of_outside (by omega), patch_of_outside h]
    · obtain ⟨i, rfl⟩ := Nat.exists_eq_add_of_le (show offset ≤ o by omega)
      rw [patch_of_lt (by omega), patch_of_lt (by omega)]
  · rw [patch_of_outside (by omega), patch_of_lt hi]

/-- Bytes written over the first ones of others. -/
theorem patch_overwrite {new old : List UInt8} (rest : List UInt8) (h : new.length = old.length) :
    patch (patch bytes offset (old ++ rest)) offset new = patch bytes offset (new ++ rest) := by
  refine eq_patch (fun o ho ↦ ?_) fun i hi ↦ ?_
  · rw [List.length_append] at ho
    rw [patch_of_outside (by omega), patch_of_outside (by rw [List.length_append]; omega)]
  · rw [List.length_append] at hi
    by_cases hnew : i < new.length
    · rw [patch_of_lt hnew, List.getElem_append_left hnew]
    · rw [patch_of_outside (by omega), patch_of_lt (by rw [List.length_append]; omega),
        List.getElem_append_right (by omega), List.getElem_append_right (by omega)]
      simp only [h]

end

/-- Writes at different places may be exchanged. -/
theorem patch_comm {offset' : Nat} {data' : List UInt8}
    (h : offset + data.length ≤ offset' ∨ offset' + data'.length ≤ offset) :
    patch (patch bytes offset data) offset' data' =
      patch (patch bytes offset' data') offset data := by
  refine (eq_patch (fun o ho ↦ ?_) fun i hi ↦ ?_).symm
  · by_cases hin : o < offset ∨ offset + data.length ≤ o
    · rw [patch_of_outside hin, patch_of_outside ho, patch_of_outside hin]
    · obtain ⟨i, rfl⟩ := Nat.exists_eq_add_of_le (show offset ≤ o by omega)
      rw [patch_of_lt (by omega), patch_of_lt (by omega)]
  · rw [patch_of_outside (by omega), patch_of_lt hi]

/-- The length of a slice. -/
@[simp] theorem length_slice : (slice bytes offset len).length = len := by
  rw [slice, List.length_map, List.length_range]

/-- The bytes of a slice. -/
theorem getElem?_slice {i : Nat} (h : i < len) :
    (slice bytes offset len)[i]? = some (bytes (offset + i)) := by
  rw [slice, List.getElem?_map, List.getElem?_range h, Option.map_some]

/-- Two memories that agree on a range have the same bytes there. -/
theorem slice_congr {bytes' : Nat → UInt8}
    (h : ∀ o, offset ≤ o → o < offset + len → bytes o = bytes' o) :
    slice bytes offset len = slice bytes' offset len := by
  refine List.map_congr_left fun i hi ↦ h _ (by omega) ?_
  have := List.mem_range.mp hi
  omega

/-- A range in two parts. -/
theorem slice_add (bytes : Nat → UInt8) (offset m n : Nat) :
    slice bytes offset (m + n) = slice bytes offset m ++ slice bytes (offset + m) n := by
  simp only [slice, List.range_add, List.map_append, List.map_map, Function.comp_def,
    Nat.add_assoc]

/-- What was written is read back. -/
theorem slice_patch_self (bytes : Nat → UInt8) (offset : Nat) (data : List UInt8) :
    slice (patch bytes offset data) offset data.length = data := by
  apply List.ext_getElem?
  intro i
  by_cases hi : i < data.length
  · rw [getElem?_slice hi, patch_of_lt hi, List.getElem?_eq_getElem hi]
  · rw [List.getElem?_eq_none (by rw [length_slice]; omega), List.getElem?_eq_none (by omega)]

/-- The number of bytes. -/
@[simp] theorem length_toBe (width n : Nat) : (toBe width n).length = width := by
  rw [toBe, List.length_map, List.length_range]

/-- The number of bytes. -/
@[simp] theorem length_toLe (width n : Nat) : (toLe width n).length = width := by
  rw [toLe, List.length_reverse, length_toBe]

private theorem toBe_succ (width n : Nat) :
    toBe (width + 1) n = UInt8.ofNat (n >>> (8 * width)) :: toBe width n := by
  rw [toBe, List.range_succ_eq_map, List.map_cons, List.map_map, toBe]
  congr 1
  refine List.map_congr_left fun i hi ↦ ?_
  rw [Function.comp_apply, show width + 1 - 1 - (i + 1) = width - 1 - i by omega]

/-- Storing a number keeps what fits into its width. -/
theorem ofBe_toBe (width n : Nat) : ofBe (toBe width n) = n % 256 ^ width := by
  induction width with
  | zero => rw [Nat.pow_zero, Nat.mod_one]; rfl
  | succ width ih =>
    have hpow : 2 ^ (8 * width) = 256 ^ width := Nat.pow_mul 2 8 width
    have hbyte : (2 : Nat) ^ 8 = 256 := rfl
    rw [toBe_succ, ofBe, ih, length_toBe, UInt8.toNat_ofNat', Nat.shiftRight_eq_div_pow, hpow,
      hbyte, Nat.mod_pow_succ, Nat.mul_comm, Nat.add_comm]

/-- A number that fits is read back. -/
theorem takeBe_append {width n : Nat} (h : n < 256 ^ width) (rest : List UInt8) :
    takeBe width (toBe width n ++ rest) = (n, rest) := by
  have hlen := length_toBe width n
  rw [takeBe, List.take_left' hlen, List.drop_left' hlen, ofBe_toBe, Nat.mod_eq_of_lt h]

/-- A word is read back. -/
@[simp] theorem takeBe_uint32 (n : UInt32) (rest : List UInt8) :
    takeBe 4 (toBe 4 n.toNat ++ rest) = (n.toNat, rest) := takeBe_append n.toNat_lt rest

/-- A double word is read back. -/
@[simp] theorem takeBe_uint64 (n : UInt64) (rest : List UInt8) :
    takeBe 8 (toBe 8 n.toNat ++ rest) = (n.toNat, rest) := takeBe_append n.toNat_lt rest

end D3OS.Lib
