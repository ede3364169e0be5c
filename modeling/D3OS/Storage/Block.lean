import D3OS.Base.Overflow

/-!
# Block devices and partitions

`os/kernel/src/storage/block.rs`. A partition passes requests on to the device that it is on. Its
bounds check compares the sector within the partition, but the clamp of the count subtracts the
sector on the device from the size of the partition.
-/

namespace D3OS.Storage

open Lib

/-- `BlockDevice`, `block.rs:8`, with the state that its calls change. -/
structure BlockDevice (σ : Type) where
  read : Nat → Nat → List UInt8 → σ → Nat × List UInt8 × σ
  write : Nat → Nat → List UInt8 → σ → Nat × σ

/-- `Partition`, `block.rs:54`, without its device. -/
structure Partition where
  startSector : Nat
  sectorCount : Nat
  deriving DecidableEq, Repr

namespace Partition

variable {σ : Type}

/-- What `read` and `write` ask the device for, `none` if they return at once. -/
def locate (mode : Overflow) (p : Partition) (sector count : Nat) :
    Except Panic (Option (Nat × Nat)) :=
  if p.sectorCount ≤ sector then .ok none
  else do
    let sector ← mode.add 64 sector p.startSector
    let left ← mode.sub 64 p.sectorCount sector
    return some (sector, min count left)

/-- `Partition::read`, `block.rs:67`. -/
def read (mode : Overflow) (p : Partition) (device : BlockDevice σ) (sector count : Nat)
    (buffer : List UInt8) (st : σ) : Except Panic (Nat × List UInt8 × σ) := do
  match ← p.locate mode sector count with
  | none => return (0, buffer, st)
  | some (sector, count) => return device.read sector count buffer st

/-- `Partition::write`, `block.rs:77`. -/
def write (mode : Overflow) (p : Partition) (device : BlockDevice σ) (sector count : Nat)
    (buffer : List UInt8) (st : σ) : Except Panic (Nat × σ) := do
  match ← p.locate mode sector count with
  | none => return (0, st)
  | some (sector, count) => return device.write sector count buffer st

/-- The part of a request that lies in the partition, as sectors of the device. -/
def share (p : Partition) (sector count : Nat) : Option (Nat × Nat) :=
  if sector < p.sectorCount then
    some (p.startSector + sector, min count (p.sectorCount - sector))
  else none

private theorem share_within {p : Partition} {sector count first n : Nat}
    (h : p.share sector count = some (first, n)) :
    p.startSector ≤ first ∧ first + n ≤ p.startSector + p.sectorCount := by
  rw [share] at h
  split at h
  · cases h
    omega
  · cases h

/-- Reading and writing access exactly the share of the request that lies in the partition, on every
device and in every build; nothing overflows. -/
def Confined (p : Partition) (sector count : Nat) : Prop :=
  ∀ (mode : Overflow) (σ : Type) (device : BlockDevice σ) (buffer : List UInt8) (st : σ),
    p.read mode device sector count buffer st = .ok
      (match p.share sector count with
        | none => (0, buffer, st)
        | some (first, n) => device.read first n buffer st) ∧
    p.write mode device sector count buffer st = .ok
      (match p.share sector count with
        | none => (0, st)
        | some (first, n) => device.write first n buffer st)

/-- A device that records what it is asked for. -/
private def recorder : BlockDevice (List (Nat × Nat)) where
  read sector count buffer log := (0, buffer, (sector, count) :: log)
  write sector count _ log := (0, (sector, count) :: log)

private theorem confined_iff_locate {p : Partition} {sector count : Nat} :
    p.Confined sector count ↔ ∀ mode, p.locate mode sector count = .ok (p.share sector count) := by
  constructor
  · intro h mode
    have hread := (h mode _ recorder [] []).1
    obtain ⟨located, hlocate, hread⟩ := of_bind hread
    rw [hlocate]
    cases located with
    | none =>
      cases hshare : p.share sector count with
      | none => rfl
      | some request =>
        rw [hshare] at hread
        cases hread
    | some request =>
      cases hshare : p.share sector count with
      | none =>
        rw [hshare] at hread
        cases hread
      | some request' =>
        obtain ⟨first', n'⟩ := request'
        rw [hshare] at hread
        cases hread
        rfl
  · intro h mode σ device buffer st
    rw [read, write, h mode]
    cases p.share sector count with
    | none | some request => exact ⟨rfl, rfl⟩

/-- For every partition within its device: a request is confined to the partition if and only if
it is out of its bounds, the partition begins with the device, or the request would end within the
size of the partition if it were counted from the start of the device. A confined request reaches
no sector outside of the partition. -/
theorem confined_iff {p : Partition} (sectors : Nat) {sector count : Nat}
    (hdevice : p.startSector + p.sectorCount ≤ sectors) (hsectors : sectors < 2 ^ 64) :
    (p.Confined sector count ↔ p.sectorCount ≤ sector ∨ p.startSector = 0 ∨
      p.startSector + sector + count ≤ p.sectorCount) ∧
    ∀ first n, p.share sector count = some (first, n) →
      p.startSector ≤ first ∧ first + n ≤ p.startSector + p.sectorCount := by
  refine ⟨?_, fun _ _ ↦ share_within⟩
  rw [confined_iff_locate]
  by_cases hout : p.sectorCount ≤ sector
  · refine iff_of_true (fun mode ↦ ?_) (.inl hout)
    rw [locate, share, if_pos hout, if_neg (Nat.not_lt.mpr hout)]
  · have hlt : sector + p.startSector < 2 ^ 64 := by omega
    have hlocate : ∀ mode, p.locate mode sector count =
        (mode.sub 64 p.sectorCount (sector + p.startSector)).bind fun left ↦
          .ok (some (sector + p.startSector, min count left)) := by
      intro mode
      rw [locate, if_neg hout, Overflow.add_of_lt hlt]
      rfl
    have hshare : p.share sector count =
        some (p.startSector + sector, min count (p.sectorCount - sector)) :=
      if_pos (Nat.not_le.mp hout)
    simp only [hlocate, hshare]
    by_cases hle : sector + p.startSector ≤ p.sectorCount
    · simp only [Overflow.sub_of_le hle, Except.bind, Except.ok.injEq, Option.some.injEq,
        Prod.mk.injEq]
      constructor
      · intro h
        have := h .panics
        omega
      · intro h _
        omega
    · refine iff_of_false (fun h ↦ ?_) (by omega)
      have hpanics := h .panics
      rw [Overflow.sub, if_neg hle] at hpanics
      cases hpanics

/-- Eight sectors in the middle of a partition. -/
theorem confined_iff_sample : Confined ⟨2048, 100000⟩ 10 8 :=
  (confined_iff 102048 (by decide) (by decide)).1.mpr (.inr (.inr (by decide)))

/-- A partition of 1000 sectors that starts at sector 2048: reading its first sector panics, and
without overflow checks ten sectors from its last one on are ten sectors of the device, nine of them
behind the partition. -/
theorem read_leaves_partition :
    (∀ (σ : Type) (device : BlockDevice σ) (buffer : List UInt8) (st : σ),
      read .panics ⟨2048, 1000⟩ device 0 1 buffer st = .error .overflow ∧
      read .wraps ⟨2048, 1000⟩ device 999 10 buffer st = .ok (device.read 3047 10 buffer st)) ∧
    ¬ Confined ⟨2048, 1000⟩ 0 1 := by
  have hfail : ∀ (σ : Type) (device : BlockDevice σ) (buffer : List UInt8) (st : σ),
      read .panics ⟨2048, 1000⟩ device 0 1 buffer st = .error .overflow :=
    fun _ _ _ _ ↦ rfl
  refine ⟨fun σ device buffer st ↦ ⟨hfail σ device buffer st, rfl⟩, fun h ↦ ?_⟩
  have hread := (h .panics _ recorder [] []).1
  cases hread

end Partition

end D3OS.Storage
