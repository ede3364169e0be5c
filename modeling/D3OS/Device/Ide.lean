import D3OS.Base.Rust

/-!
# Addressing a drive

`os/kernel/src/device/ide.rs` and `lba_to_chs` of `os/kernel/src/storage/block.rs`: which drive,
sector and count the task file of a channel holds after `prepare_ata_io`.
-/

namespace D3OS.Ide

open Lib

/-- `AddressType`, `ide.rs:94`. -/
inductive AddressType where
  | chs
  | lba28
  | lba48
  deriving DecidableEq, Repr

/-- `DriveInfo`, `ide.rs:449`, as far as transfers use it. -/
structure DriveInfo where
  drive : Nat
  cylinders : Nat
  heads : Nat
  sectorsPerTrack : Nat
  addressing : AddressType
  sectorSize : Nat
  deriving DecidableEq, Repr

/-- A register of the task file keeps the byte that was written last and the one before. -/
structure Register where
  last : Nat
  previous : Nat
  deriving DecidableEq, Repr

def Register.write (byte : Nat) (r : Register) : Register := ⟨byte, r.last⟩

/-- The task file of a channel. The sector number and the two cylinder registers are the three LBA
registers under another name. -/
structure TaskFile where
  driveHead : Nat
  sectorCount : Register
  lbaLow : Register
  lbaMid : Register
  lbaHigh : Register
  deriving DecidableEq, Repr

namespace TaskFile

/-- The four sector registers are written, in the order of the source. -/
def writeSector (count low mid high : Nat) (t : TaskFile) : TaskFile :=
  { t with
    sectorCount := t.sectorCount.write count
    lbaLow := t.lbaLow.write low
    lbaMid := t.lbaMid.write mid
    lbaHigh := t.lbaHigh.write high }

/-- The drive that is selected. -/
def drive (t : TaskFile) : Nat := t.driveHead / 16 % 2

/-- Whether the address is an LBA. -/
def isLba (t : TaskFile) : Prop := t.driveHead / 64 % 2 = 1

instance (t : TaskFile) : Decidable t.isLba := inferInstanceAs (Decidable (_ = _))

/-- The drive register selects a drive for an LBA access with these upper four bits. -/
def Selects (t : TaskFile) (drive head : Nat) : Prop :=
  t.isLba ∧ t.drive = drive ∧ t.driveHead % 16 = head

instance (t : TaskFile) (drive head : Nat) : Decidable (t.Selects drive head) :=
  inferInstanceAs (Decidable (_ ∧ _ ∧ _))

/-- The number of sectors of an 8-bit count. -/
def count8 (t : TaskFile) : Nat := if t.sectorCount.last = 0 then 256 else t.sectorCount.last

/-- The number of sectors of a 16-bit count. -/
def count16 (t : TaskFile) : Nat :=
  let count := t.sectorCount.previous * 256 + t.sectorCount.last
  if count = 0 then 65536 else count

/-- What the drive reads from the task file when a command comes: the drive that is meant, the
logical sector and the count. Sectors of a track are counted from one. -/
def addressed (t : TaskFile) (info : DriveInfo) : Option (Nat × Nat × Nat) :=
  match info.addressing with
  | .chs =>
    if ¬ t.isLba ∧ 1 ≤ t.lbaLow.last then
      some (t.drive,
        ((t.lbaHigh.last * 256 + t.lbaMid.last) * info.heads + t.driveHead % 16) *
          info.sectorsPerTrack + (t.lbaLow.last - 1), t.count8)
    else none
  | .lba28 =>
    if t.isLba then
      some (t.drive, t.driveHead % 16 * 2 ^ 24 + t.lbaHigh.last * 2 ^ 16 + t.lbaMid.last * 2 ^ 8 +
        t.lbaLow.last, t.count8)
    else none
  | .lba48 =>
    if t.isLba then
      some (t.drive, t.lbaHigh.previous * 2 ^ 40 + t.lbaMid.previous * 2 ^ 32 +
        t.lbaLow.previous * 2 ^ 24 + t.lbaHigh.last * 2 ^ 16 + t.lbaMid.last * 2 ^ 8 +
        t.lbaLow.last, t.count16)
    else none

end TaskFile

/-- `IdeChannel`, `ide.rs:527`: the selector byte that was written last and the task file. -/
structure Channel where
  lastDeviceControl : Nat
  taskFile : TaskFile
  deriving DecidableEq, Repr

/-- `lba_to_chs`, `block.rs:24`. A division by zero panics. -/
def lbaToChs (lba heads sectorsPerCylinder : Nat) : Except Panic (Nat × Nat × Nat) :=
  if heads * sectorsPerCylinder = 0 then .error .overflow
  else
    .ok (lba / (heads * sectorsPerCylinder) % 2 ^ 16, lba % (heads * sectorsPerCylinder) % 2 ^ 8,
      lba % sectorsPerCylinder % 2 ^ 8)

/-- The selector byte of `select_drive`. -/
def selector (drive : Nat) (prepareLba : Bool) (lbaHead : Nat) : Nat :=
  0xa0 ||| prepareLba.toNat <<< 6 ||| drive <<< 4 ||| lbaHead

namespace Channel

/-- The selector byte is written. -/
def writeDriveHead (byte : Nat) (c : Channel) : Channel :=
  { c with taskFile := { c.taskFile with driveHead := byte } }

/-- `select_drive`, `ide.rs:596`; `before` and `after` say whether the two waits for the busy bit
succeed. -/
def selectDrive (before after : Bool) (drive : Nat) (prepareLba : Bool) (lbaHead : Nat)
    (c : Channel) : Bool × Channel :=
  if ¬ prepareLba ∧ c.lastDeviceControl ≠ 0xff ∧ c.lastDeviceControl >>> 4 &&& 0x01 = drive then
    (true, c)
  else
    let selector := selector drive prepareLba lbaHead
    if selector = c.lastDeviceControl then (true, c)
    else if ¬ before then (false, c)
    else if ¬ after then (false, c.writeDriveHead selector)
    else (true, { c.writeDriveHead selector with lastDeviceControl := selector })

/-- The four sector registers of the channel are written. -/
def writeSector (count low mid high : Nat) (c : Channel) : Channel :=
  { c with taskFile := c.taskFile.writeSector count low mid high }

/-- `prepare_ata_io`, `ide.rs:789`. It does not look at the result of `select_drive`. -/
def prepareAtaIo (before after : Bool) (info : DriveInfo) (sector count : Nat) (c : Channel) :
    Except Panic Channel :=
  match info.addressing with
  | .chs => do
    let (cylinder, head, sector) ←
      lbaToChs sector (info.heads % 2 ^ 8) (info.sectorsPerTrack % 2 ^ 8)
    let (_, c) := c.selectDrive before after info.drive false head
    return c.writeSector (count % 2 ^ 8) sector (cylinder % 2 ^ 8) (cylinder >>> 8 % 2 ^ 8)
  | .lba28 =>
    let (_, c) := c.selectDrive before after info.drive true (sector >>> 24 % 2 ^ 8)
    .ok (c.writeSector (count % 2 ^ 8) (sector % 2 ^ 8) (sector >>> 8 % 2 ^ 8)
      (sector >>> 16 % 2 ^ 8))
  | .lba48 =>
    let (_, c) := c.selectDrive before after info.drive true 0
    let c := c.writeSector (count >>> 8 % 2 ^ 8) (sector >>> 24 % 2 ^ 8) (sector >>> 32 % 2 ^ 8)
      (sector >>> 40 % 2 ^ 8)
    .ok (c.writeSector (count % 2 ^ 8) (sector % 2 ^ 8) (sector >>> 8 % 2 ^ 8)
      (sector >>> 16 % 2 ^ 8))

/-- The selector byte that was written last is in the register, unless none was written yet. -/
def Consistent (c : Channel) : Prop :=
  c.lastDeviceControl = 0xff ∨ c.taskFile.driveHead = c.lastDeviceControl

end Channel

/-- A drive with a geometry of its addressing mode, a sector within its range and a count that a
command can transfer. -/
structure Admissible (info : DriveInfo) (sector count : Nat) : Prop where
  drive : info.drive < 2
  geometry : info.addressing = .chs → info.sectorsPerTrack ≤ 255
  sector : sector < match info.addressing with
    | .chs => info.cylinders * info.heads * info.sectorsPerTrack
    | .lba28 => 2 ^ 28
    | .lba48 => 2 ^ 48
  count : 1 ≤ count ∧ count ≤ match info.addressing with
    | .lba48 => 65535
    | _ => 256

/-- After `prepare_ata_io` the task file addresses the drive, the sector and the count. -/
def Addresses (c : Channel) (info : DriveInfo) (sector count : Nat) : Prop :=
  ∃ c', c.prepareAtaIo true true info sector count = .ok c' ∧
    c'.taskFile.addressed info = some (info.drive, sector, count)

private theorem selector_lba : ∀ drive < 2, ∀ head < 16,
    selector drive true head / 64 % 2 = 1 ∧ selector drive true head / 16 % 2 = drive ∧
      selector drive true head % 16 = head ∧
      (selector drive true head = 0xff ↔ drive = 1 ∧ head = 15) := by
  decide

variable {c : Channel}

private theorem driveHead_selectDrive (drive head : Nat) (hc : c.Consistent) :
    (c.selectDrive true true drive true head).2.taskFile.driveHead =
      if selector drive true head = 0xff ∧ c.lastDeviceControl = 0xff then c.taskFile.driveHead
      else selector drive true head := by
  rw [Channel.selectDrive, if_neg (by simp)]
  dsimp only
  split
  next heq =>
    rcases hc with hlast | hsame
    · rw [if_pos ⟨heq.trans hlast, hlast⟩]
    · rw [hsame, heq, ite_self]
  next hne =>
    rw [if_neg fun h : _ ∧ _ ↦ hne (h.1.trans h.2.symm)]
    rfl

variable {sector : Nat}

private theorem ne_chs_address {track : Nat} (hlow : 1 ≤ sector % track) (start : Nat) :
    start * track + (sector % track - 1) ≠ sector := by
  intro heq
  have htrack : 0 < track := by
    rcases Nat.eq_zero_or_pos track with rfl | htrack
    · omega
    · exact htrack
  have hlt := Nat.mod_lt sector htrack
  have hmod : (start * track + (sector % track - 1)) % track = sector % track - 1 := by
    rw [Nat.mul_comm, Nat.mul_add_mod, Nat.mod_eq_of_lt (by omega)]
  rw [heq] at hmod
  omega

variable {info : DriveInfo} {count : Nat}

private theorem addressed_chs {low mid high : Nat} {result : Nat × Nat × Nat}
    (hchs : info.addressing = .chs)
    (h : (c.writeSector count low mid high).taskFile.addressed info = some result) :
    1 ≤ low ∧ ((high * 256 + mid) * info.heads + c.taskFile.driveHead % 16) *
      info.sectorsPerTrack + (low - 1) = result.2.1 := by
  rw [TaskFile.addressed, hchs] at h
  obtain ⟨hvalid, h⟩ := Option.ite_none_right_eq_some.mp h
  exact ⟨hvalid.2, congrArg (fun r : Nat × Nat × Nat ↦ r.2.1) (Option.some.inj h)⟩

private theorem not_addresses_chs (hchs : info.addressing = .chs) (h : Admissible info sector count)
    :
    ¬ Addresses c info sector count := by
  rintro ⟨c', hc', haddressed⟩
  have hspt := h.geometry hchs
  rw [Channel.prepareAtaIo, hchs] at hc'
  obtain ⟨⟨cylinder, head, low⟩, hlba, hc'⟩ := of_bind hc'
  cases hc'
  obtain ⟨hone, haddress⟩ := addressed_chs hchs haddressed
  rw [lbaToChs] at hlba
  split at hlba
  · cases hlba
  next hne =>
    cases hlba
    rw [Nat.mod_eq_of_lt (by omega : info.sectorsPerTrack < 2 ^ 8)] at hone haddress hne
    have htrack : 0 < info.sectorsPerTrack := Nat.pos_of_mul_pos_left (Nat.pos_of_ne_zero hne)
    have hlt := Nat.mod_lt sector htrack
    rw [Nat.mod_eq_of_lt (by omega : sector % info.sectorsPerTrack < 2 ^ 8)] at hone haddress
    exact ne_chs_address hone _ haddress

private theorem addressed_lba28 (hmode : info.addressing = .lba28)
    (h : Admissible info sector count) :
    (c.writeSector (count % 2 ^ 8) (sector % 2 ^ 8) (sector >>> 8 % 2 ^ 8)
        (sector >>> 16 % 2 ^ 8)).taskFile.addressed info = some (info.drive, sector, count) ↔
      c.taskFile.Selects info.drive (sector / 2 ^ 24) := by
  have hcount : 1 ≤ count ∧ count ≤ 256 := by simpa only [hmode] using h.count
  have hcount8 : (if count % 2 ^ 8 = 0 then 256 else count % 2 ^ 8) = count := by
    split <;> omega
  rw [TaskFile.addressed, hmode]
  simp only [TaskFile.Selects, TaskFile.isLba, TaskFile.drive, TaskFile.count8,
    Channel.writeSector, TaskFile.writeSector, Register.write, hcount8,
    Option.ite_none_right_eq_some, Option.some.injEq,
    Prod.mk.injEq, and_true, Nat.shiftRight_eq_div_pow]
  omega

private theorem addressed_lba48 (hmode : info.addressing = .lba48)
    (h : Admissible info sector count) :
    ((c.writeSector (count >>> 8 % 2 ^ 8) (sector >>> 24 % 2 ^ 8) (sector >>> 32 % 2 ^ 8)
        (sector >>> 40 % 2 ^ 8)).writeSector (count % 2 ^ 8) (sector % 2 ^ 8) (sector >>> 8 % 2 ^ 8)
        (sector >>> 16 % 2 ^ 8)).taskFile.addressed info = some (info.drive, sector, count) ↔
      c.taskFile.driveHead / 64 % 2 = 1 ∧ c.taskFile.driveHead / 16 % 2 = info.drive := by
  have hsector : sector < 2 ^ 48 := by simpa only [hmode] using h.sector
  have hcount : 1 ≤ count ∧ count ≤ 65535 := by simpa only [hmode] using h.count
  have hcount16 : count / 2 ^ 8 % 2 ^ 8 * 256 + count % 2 ^ 8 = count := by omega
  rw [TaskFile.addressed, hmode]
  simp only [TaskFile.isLba, TaskFile.drive, TaskFile.count16, Channel.writeSector,
    TaskFile.writeSector, Register.write, Nat.shiftRight_eq_div_pow, hcount16,
    if_neg (by omega : ¬ count = 0), Option.ite_none_right_eq_some, Option.some.injEq,
    Prod.mk.injEq, and_true]
  omega

private theorem addresses_lba28_iff (hc : c.Consistent) (hmode : info.addressing = .lba28)
    (h : Admissible info sector count) :
    Addresses c info sector count ↔
      ¬ (info.drive = 1 ∧ 15 * 2 ^ 24 ≤ sector ∧ c.lastDeviceControl = 0xff ∧
        ¬ c.taskFile.Selects 1 15) := by
  have hsector : sector < 2 ^ 28 := by simpa only [hmode] using h.sector
  have hhead : sector >>> 24 % 2 ^ 8 = sector / 2 ^ 24 := by
    omega
  have hselector := selector_lba info.drive h.drive (sector / 2 ^ 24) (by omega)
  have hdrive := driveHead_selectDrive info.drive (sector / 2 ^ 24) hc
  rw [Addresses, Channel.prepareAtaIo, hmode]
  simp only [Except.ok.injEq, exists_eq_left', hhead, addressed_lba28 hmode h, TaskFile.Selects,
    TaskFile.isLba, TaskFile.drive, hdrive]
  by_cases hskip : selector info.drive true (sector / 2 ^ 24) = 0xff ∧ c.lastDeviceControl = 0xff
  · simp only [if_pos hskip]
    omega
  · simp only [if_neg hskip]
    omega

private theorem addresses_lba48 (hc : c.Consistent) (hmode : info.addressing = .lba48)
    (h : Admissible info sector count) : Addresses c info sector count := by
  have hselector := selector_lba info.drive h.drive 0 (by omega)
  have hdrive := driveHead_selectDrive info.drive 0 hc
  rw [Addresses, Channel.prepareAtaIo, hmode]
  simp only [Except.ok.injEq, exists_eq_left', addressed_lba48 hmode h, hdrive]
  rw [if_neg (by omega)]
  exact ⟨hselector.1, hselector.2.1⟩

/-- For every drive, every previous selection, every sector within the range of the addressing mode
and every admissible count: the task file addresses the request if and only if the mode is an LBA
mode and the selector byte is not the one that stands for no selection, or is in the register
already. -/
theorem addresses_iff {c : Channel} {info : DriveInfo} {sector count : Nat} (hc : c.Consistent)
    (h : Admissible info sector count) :
    Addresses c info sector count ↔ info.addressing ≠ .chs ∧
      ¬ (info.addressing = .lba28 ∧ info.drive = 1 ∧ 15 * 2 ^ 24 ≤ sector ∧
        c.lastDeviceControl = 0xff ∧ ¬ c.taskFile.Selects 1 15) := by
  cases hmode : info.addressing with
  | chs =>
    constructor
    · intro haddresses
      exact absurd haddresses (not_addresses_chs hmode h)
    · intro hcond
      exact absurd rfl hcond.1
  | lba28 =>
    rw [addresses_lba28_iff hc hmode h]
    simp
  | lba48 =>
    simp [addresses_lba48 hc hmode h]

/-- The channel as it stands before the first access, with a drive register that holds zero. -/
def fresh : Channel :=
  ⟨0xff, ⟨0, ⟨0, 0⟩, ⟨0, 0⟩, ⟨0, 0⟩, ⟨0, 0⟩⟩⟩

/-- A drive that takes 48-bit addresses. -/
def lba48Drive : DriveInfo := ⟨1, 16383, 16, 63, .lba48, 512⟩

/-- An LBA48 drive and an address of 48 bits. -/
theorem addresses_iff_sample : Addresses fresh lba48Drive 0x123456789abc 8 :=
  (addresses_iff (Or.inl rfl) ⟨by decide, by decide, by decide, by decide⟩).mpr
    ⟨by decide, by decide⟩

/-- A drive that is addressed by cylinder, head and sector. -/
def chsDrive : DriveInfo := ⟨0, 1024, 16, 63, .chs, 512⟩

/-- The first read of the first sector of such a drive writes sector zero of the track. -/
theorem chs_misses_first_sector :
    fresh.Consistent ∧ Admissible chsDrive 0 1 ∧
      fresh.prepareAtaIo true true chsDrive 0 1 =
        .ok ⟨0xa0, ⟨0xa0, ⟨1, 0⟩, ⟨0, 0⟩, ⟨0, 0⟩, ⟨0, 0⟩⟩⟩ ∧
      ¬ Addresses fresh chsDrive 0 1 := by
  have hadmissible : Admissible chsDrive 0 1 :=
    ⟨by decide, fun _ ↦ by decide, by decide, by decide⟩
  exact ⟨Or.inl rfl, hadmissible, rfl, not_addresses_chs rfl hadmissible⟩

end D3OS.Ide
