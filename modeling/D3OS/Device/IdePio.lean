import D3OS.Base.Overflow
import D3OS.Device.Ide
import D3OS.Lib.Runs

/-!
# Programmed transfers

`perform_ata_io` and `perform_ata_pio` of `os/kernel/src/device/ide.rs`. A request is split into
commands, a command into sectors and a sector into words that cross the data port. The index of a
word in the buffer of its command is computed in 16 bits.
-/

namespace D3OS.Ide

open Lib

/-- `TransferMode`, `ide.rs:87`. -/
inductive TransferMode where
  | read
  | write
  deriving DecidableEq, Repr

/-- The drive: the bytes of its sectors, and what each wait for its status answers. -/
structure Drive where
  disk : Nat → Nat → UInt8
  answers : Nat → Bool

/-- The state of a transfer: the channel, the number of waits, the buffer, and the bytes that
crossed the data port with the sector of the disk that each belongs to. -/
structure Pio where
  channel : Channel
  waits : Nat
  buffer : List UInt8
  moved : List (Nat × UInt8)

/-- The part of a buffer that a command works on. -/
structure View where
  lo : Nat
  hi : Nat
  deriving DecidableEq, Repr

/-- Two bytes in a word, the low byte first. -/
def word (low high : UInt8) : Nat := low.toNat ||| high.toNat <<< 8

def lowByte (word : Nat) : UInt8 := (word &&& 0xff).toUInt8

def highByte (word : Nat) : UInt8 := (word >>> 8 &&& 0xff).toUInt8

namespace Pio

/-- One more wait for the status. -/
def wait (p : Pio) : Pio := { p with waits := p.waits + 1 }

/-- `buffer[i] = byte`. -/
def set (view : View) (i : Nat) (byte : UInt8) (p : Pio) : Except Panic Pio :=
  if view.lo + i < view.hi then .ok { p with buffer := p.buffer.set (view.lo + i) byte }
  else .error .assertion

/-- `buffer[i]`. -/
def get (view : View) (i : Nat) (p : Pio) : Except Panic UInt8 :=
  if view.lo + i < view.hi then .ok (p.buffer.getD (view.lo + i) 0) else .error .assertion

/-- A word of a sector crosses the data port. -/
def move (sector word : Nat) (p : Pio) : Pio :=
  { p with moved := p.moved ++ [(sector, lowByte word), (sector, highByte word)] }

end Pio

/-- `read * info.sector_size + j * 2`, a `u16`. -/
def wordIndex (arith : Overflow) (info : DriveInfo) (done j : Nat) : Except Panic Nat := do
  let start ← arith.mul 16 done info.sectorSize
  let offset ← arith.mul 16 j 2
  arith.add 16 start offset

section

variable (arith : Overflow) (drive : Drive) (info : DriveInfo)

/-- One word of a read, `ide.rs:882`. -/
def readWord (view : View) (start done j : Nat) (p : Pio) : Except Panic Pio := do
  let word := word (drive.disk (start + done) (j * 2)) (drive.disk (start + done) (j * 2 + 1))
  let p := p.move (start + done) word
  let i ← wordIndex arith info done j
  let p ← p.set view i (lowByte word)
  let i ← wordIndex arith info done j
  let i ← arith.add 16 i 1
  p.set view i (highByte word)

/-- One word of a write, `ide.rs:904`. -/
def writeWord (view : View) (start done j : Nat) (p : Pio) : Except Panic Pio := do
  let i ← wordIndex arith info done j
  let low ← p.get view i
  let i ← wordIndex arith info done j
  let i ← arith.add 16 i 1
  let high ← p.get view i
  return p.move (start + done) (word low high)

/-- One word in the direction of the transfer. -/
def transferWord (m : TransferMode) (view : View) (start done j : Nat) (p : Pio) :
    Except Panic Pio :=
  match m with
  | .read => readWord arith drive info view start done j p
  | .write => writeWord arith info view start done j p

/-- The words of one sector. -/
def transferSector (m : TransferMode) (view : View) (start done : Nat) (p : Pio) :
    Except Panic Pio :=
  (List.range (info.sectorSize / 2)).foldlM
    (fun p j ↦ transferWord arith drive info m view start done j p) p

/-- The loop over the sectors of a command, with the number of rounds that are left. From the second
sector on, it waits for the drive and ends when the drive does not answer. -/
def transferSectors (m : TransferMode) (view : View) (start : Nat) :
    Nat → Nat → Pio → Except Panic (Nat × Pio)
  | 0, done, p => .ok (done, p)
  | left + 1, done, p =>
    if 0 < done ∧ drive.answers p.waits = false then .ok (done, p.wait)
    else do
      let p ← transferSector arith drive info m view start done p.wait
      transferSectors m view start left (done + 1) p

/-- `perform_ata_pio`, `ide.rs:841`. -/
def performAtaPio (m : TransferMode) (view : View) (start count : Nat) (p : Pio) :
    Except Panic (Nat × Pio) := do
  let channel ← p.channel.prepareAtaIo (drive.answers p.waits) (drive.answers (p.waits + 1)) info
    start count
  let p := { p with channel := channel, waits := p.waits + 2 }
  if drive.answers p.waits = false then return (0, p.wait)
  else transferSectors arith drive info m view start count 0 p.wait

/-- The largest number of sectors of one command. -/
def maxSectors : Nat := if info.addressing = .lba48 then 65535 else 255

/-- `&mut buffer[lo..hi]`. -/
def slice (lo hi : Nat) (p : Pio) : Except Panic View :=
  if lo ≤ hi ∧ hi ≤ p.buffer.length then .ok ⟨lo, hi⟩ else .error .assertion

/-- The first sector of the next command and the part of the buffer for it. -/
def locateChunk (sector processed chunk : Nat) (p : Pio) : Except Panic (Nat × View) := do
  let start ← arith.add 64 sector processed
  let lo ← arith.mul 64 processed info.sectorSize
  let len ← arith.mul 64 chunk info.sectorSize
  let hi ← arith.add 64 lo len
  let view ← slice lo hi p
  return (start, view)

/-- The loop over the commands of a request. -/
def transferChunks (m : TransferMode) (sector count processed : Nat) (p : Pio) :
    Except Panic (Nat × Pio) :=
  if processed < count then do
    let chunk := min (count - processed) (maxSectors info)
    let (start, view) ← locateChunk arith info sector processed chunk p
    let (sectors, p) ← performAtaPio arith drive info m view start chunk p
    if sectors = 0 then return (processed, p)
    else transferChunks m sector count (processed + sectors) p
  else .ok (processed, p)
termination_by count - processed

/-- `perform_ata_io`, `ide.rs:1063`, without DMA. -/
def performAtaIo (m : TransferMode) (sector count : Nat) (channel : Channel)
    (buffer : List UInt8) : Except Panic (Nat × Pio) :=
  let (selected, channel) :=
    channel.selectDrive (drive.answers 0) (drive.answers 1) info.drive false 0
  let p : Pio := ⟨channel, 2, buffer, []⟩
  if selected = false then .ok (0, p)
  else if drive.answers p.waits = false then .ok (0, p.wait)
  else transferChunks arith drive info m sector count 0 p.wait

end

/-- Byte `i` of a transfer. -/
def content (drive : Drive) (info : DriveInfo) (m : TransferMode) (sector : Nat)
    (buffer : List UInt8) (i : Nat) : UInt8 :=
  match m with
  | .read => drive.disk (sector + i / info.sectorSize) (i % info.sectorSize)
  | .write => buffer.getD i 0

/-- The request returns the number of sectors that were transferred: these and no other bytes
crossed the data port, a read leaves them in the buffer and the rest of the buffer alone. -/
def Transfers (arith : Overflow) (drive : Drive) (info : DriveInfo) (m : TransferMode)
    (sector count : Nat) (channel : Channel) (buffer : List UInt8) : Prop :=
  ∃ r p, performAtaIo arith drive info m sector count channel buffer = .ok (r, p) ∧ r ≤ count ∧
    p.moved = (List.range (r * info.sectorSize)).map (fun i ↦
      (sector + i / info.sectorSize, content drive info m sector buffer i)) ∧
    match m with
    | .read =>
      (∀ k < r, ∀ j < info.sectorSize,
        p.buffer[k * info.sectorSize + j]? = some (drive.disk (sector + k) j)) ∧
      ∀ i, r * info.sectorSize ≤ i → p.buffer[i]? = buffer[i]?
    | .write => p.buffer = buffer

/-- No index of a word leaves 16 bits, no sector number 64 bits, and a geometry is one. -/
def InRange (info : DriveInfo) (sector count : Nat) : Prop :=
  count = 0 ∨ (min count (maxSectors info) * info.sectorSize ≤ 2 ^ 16 ∧ sector + count ≤ 2 ^ 64 ∧
    (info.addressing = .chs → info.heads % 2 ^ 8 * (info.sectorsPerTrack % 2 ^ 8) ≠ 0))

private theorem lowByte_word (low high : UInt8) : lowByte (word low high) = low := by
  have hlow := low.toNat_lt
  have hand : word low high &&& 0xff = low.toNat := by
    rw [word, Nat.or_comm, ← Nat.shiftLeft_add_eq_or_of_lt hlow, Nat.shiftLeft_eq,
      show 0xff = 2 ^ 8 - 1 from rfl, Nat.and_two_pow_sub_one_eq_mod]
    omega
  rw [lowByte, hand]
  exact UInt8.ofNat_toNat

private theorem highByte_word (low high : UInt8) : highByte (word low high) = high := by
  have hlow := low.toNat_lt
  have hhigh := high.toNat_lt
  have hand : word low high >>> 8 &&& 0xff = high.toNat := by
    rw [word, Nat.or_comm, ← Nat.shiftLeft_add_eq_or_of_lt hlow, Nat.shiftLeft_eq,
      Nat.shiftRight_eq_div_pow, show 0xff = 2 ^ 8 - 1 from rfl, Nat.and_two_pow_sub_one_eq_mod]
    omega
  rw [highByte, hand]
  exact UInt8.ofNat_toNat

/-- The first `n` entries of a list are replaced. -/
def fill {α : Type} (f : Nat → α) (n : Nat) (l : List α) : List α :=
  l.mapIdx fun i a ↦ if i < n then f i else a

variable {α : Type}

@[simp] private theorem length_fill (f : Nat → α) (n : Nat) (l : List α) :
    (fill f n l).length = l.length := List.length_mapIdx

private theorem getElem?_fill (f : Nat → α) (n i : Nat) (l : List α) :
    (fill f n l)[i]? = l[i]?.map fun a ↦ if i < n then f i else a := List.getElem?_mapIdx

private theorem fill_zero (f : Nat → α) (l : List α) : fill f 0 l = l := by
  apply List.ext_getElem?
  intro i
  rw [getElem?_fill]
  simp

private theorem set_fill (f : Nat → α) {n : Nat} {l : List α} (h : n < l.length) :
    (fill f n l).set n (f n) = fill f (n + 1) l := by
  apply List.ext_getElem?
  intro i
  rw [List.getElem?_set, getElem?_fill, getElem?_fill, length_fill]
  split
  next heq =>
    subst heq
    simp [h]
  next hne =>
    have hiff : i < n ↔ i < n + 1 := by omega
    simp only [hiff]

private theorem fill_self (d : α) (n : Nat) (l : List α) : fill (fun i ↦ l.getD i d) n l = l := by
  apply List.ext_getElem?
  intro i
  rw [getElem?_fill]
  cases h : l[i]? with
  | none => rfl
  | some a => simp [h]

/-- The first `n` bytes of a transfer crossed the data port, and a read stored them. -/
structure After (drive : Drive) (info : DriveInfo) (m : TransferMode) (sector : Nat)
    (buffer : List UInt8) (n : Nat) (p : Pio) : Prop where
  stored : p.buffer = fill (content drive info m sector buffer) n buffer
  crossed : p.moved = (List.range n).map (fun i ↦
    (sector + i / info.sectorSize, content drive info m sector buffer i))

variable {channel : Channel}

section

variable {arith : Overflow} {drive : Drive} {info : DriveInfo} {m : TransferMode}
  {sector count processed start done j n : Nat} {buffer : List UInt8} {view : View} {p p' : Pio}

private theorem After.congr (h : After drive info m sector buffer n p)
    (hbuffer : p'.buffer = p.buffer)
    (hmoved : p'.moved = p.moved) : After drive info m sector buffer n p' :=
  ⟨hbuffer.trans h.stored, hmoved.trans h.crossed⟩

private theorem wordIndex_of_lt (h : done * info.sectorSize + j * 2 < 2 ^ 16) :
    wordIndex arith info done j = .ok (done * info.sectorSize + j * 2) := by
  rw [wordIndex, Overflow.mul_of_lt (by omega), Overflow.mul_of_lt (by omega)]
  exact Overflow.add_of_lt h

private theorem Overflow.eq_of_panics {w a c : Nat} (h : Overflow.panics.fit w a = .ok c) :
    c = a ∧ c < 2 ^ w := by
  obtain ⟨rfl, hlt⟩ := Overflow.fit_eq_ok.mp h
  rw [Nat.mod_eq_of_lt (hlt rfl)]
  exact ⟨rfl, hlt rfl⟩

variable {i : Nat}

private theorem lt_of_wordIndex (h : wordIndex .panics info done j = .ok i) :
    i = done * info.sectorSize + j * 2 ∧ i < 2 ^ 16 := by
  obtain ⟨base, hbase, h⟩ := of_bind h
  obtain ⟨offset, hoffset, h⟩ := of_bind h
  obtain ⟨rfl, hbase⟩ := Overflow.eq_of_panics hbase
  obtain ⟨rfl, hoffset⟩ := Overflow.eq_of_panics hoffset
  exact Overflow.eq_of_panics h

private theorem range_map_add_two (f : Nat → α) (n : Nat) :
    (List.range (n + 2)).map f = (List.range n).map f ++ [f n, f (n + 1)] := by
  rw [List.range_succ, List.range_succ]
  simp

private theorem position (k : Nat) (hi : i < info.sectorSize) :
    (k * info.sectorSize + i) / info.sectorSize = k ∧
      (k * info.sectorSize + i) % info.sectorSize = i := by
  rw [Nat.mul_comm, Nat.mul_add_div (by omega), Nat.div_eq_of_lt hi, Nat.mul_add_mod,
    Nat.mod_eq_of_lt hi]
  exact ⟨rfl, rfl⟩

section

variable (hi : wordIndex arith info done j = .ok i) (hnext : arith.add 16 i 1 = .ok (i + 1))
  (hlast : view.lo + (i + 1) < view.hi)
include hi hnext hlast

private theorem readWord_eq :
    readWord arith drive info view start done j p = .ok
      { p with
        buffer := (p.buffer.set (view.lo + i) (drive.disk (start + done) (j * 2))).set
          (view.lo + i + 1) (drive.disk (start + done) (j * 2 + 1))
        moved := p.moved ++ [(start + done, drive.disk (start + done) (j * 2)),
          (start + done, drive.disk (start + done) (j * 2 + 1))] } := by
  refine bind_eq_ok.mpr ⟨_, hi, ?_⟩
  refine bind_eq_ok.mpr ⟨_, if_pos (by omega), ?_⟩
  refine bind_eq_ok.mpr ⟨_, hi, ?_⟩
  refine bind_eq_ok.mpr ⟨_, hnext, ?_⟩
  rw [Pio.set, if_pos hlast]
  simp only [Pio.move, lowByte_word, highByte_word, Nat.add_assoc]

private theorem writeWord_eq :
    writeWord arith info view start done j p = .ok
      { p with
        moved := p.moved ++ [(start + done, p.buffer.getD (view.lo + i) 0),
          (start + done, p.buffer.getD (view.lo + i + 1) 0)] } := by
  refine bind_eq_ok.mpr ⟨_, hi, ?_⟩
  refine bind_eq_ok.mpr ⟨_, if_pos (by omega), ?_⟩
  refine bind_eq_ok.mpr ⟨_, hi, ?_⟩
  refine bind_eq_ok.mpr ⟨_, hnext, ?_⟩
  refine bind_eq_ok.mpr ⟨_, if_pos hlast, ?_⟩
  rw [Pio.move, lowByte_word, highByte_word]
  rfl

end

section

variable (arith) (heven : info.sectorSize % 2 = 0) (hlo : view.lo = processed * info.sectorSize)
  (hlen : view.hi ≤ buffer.length)
include hlo hlen

private theorem transferWord_spec (hp : After drive info m sector buffer
      ((processed + done) * info.sectorSize + j * 2) p)
    (hj : j < info.sectorSize / 2) (hindex : (done + 1) * info.sectorSize ≤ 2 ^ 16)
    (hhi : (processed + done + 1) * info.sectorSize ≤ view.hi) :
    ∃ p', transferWord arith drive info m view (sector + processed) done j p = .ok p' ∧
      After drive info m sector buffer ((processed + done) * info.sectorSize + j * 2 + 2) p' := by
  have hbound : done * info.sectorSize + j * 2 + 1 < 2 ^ 16 := by
    rw [Nat.succ_mul] at hindex
    omega
  have hi : wordIndex arith info done j = .ok (done * info.sectorSize + j * 2) :=
    wordIndex_of_lt (by omega)
  have hnext : arith.add 16 (done * info.sectorSize + j * 2) 1 =
      .ok (done * info.sectorSize + j * 2 + 1) := Overflow.add_of_lt hbound
  have hplace : view.lo + (done * info.sectorSize + j * 2) =
      (processed + done) * info.sectorSize + j * 2 := by
    rw [hlo, Nat.add_mul]
    omega
  have hlast : view.lo + (done * info.sectorSize + j * 2 + 1) < view.hi := by
    rw [Nat.succ_mul] at hhi
    omega
  obtain ⟨hdiv, hmod⟩ := position (processed + done) (by omega : j * 2 < info.sectorSize)
  obtain ⟨hdiv', hmod'⟩ := position (processed + done) (by omega : j * 2 + 1 < info.sectorSize)
  rw [← Nat.add_assoc] at hdiv' hmod'
  have hmap := range_map_add_two (fun i ↦ (sector + i / info.sectorSize,
    content drive info m sector buffer i)) ((processed + done) * info.sectorSize + j * 2)
  simp only [hdiv, hdiv', ← hp.crossed, ← Nat.add_assoc] at hmap
  cases m with
  | read =>
    have hset := set_fill (content drive info .read sector buffer)
      (by omega : (processed + done) * info.sectorSize + j * 2 < buffer.length)
    have hset' := set_fill (content drive info .read sector buffer)
      (by omega : (processed + done) * info.sectorSize + j * 2 + 1 < buffer.length)
    refine ⟨_, readWord_eq hi hnext hlast, ?_, ?_⟩
    · rw [← hset', ← hset, ← hp.stored, hplace]
      simp only [content, hdiv, hmod, hdiv', hmod', ← Nat.add_assoc]
    · rw [hmap]
      simp only [content, hdiv, hmod, hdiv', hmod', ← Nat.add_assoc]
  | write =>
    have hsame : p.buffer = buffer := hp.stored.trans (fill_self 0 _ buffer)
    refine ⟨_, writeWord_eq hi hnext hlast, ?_, ?_⟩
    · exact hsame.trans (fill_self 0 _ buffer).symm
    · rw [hmap, hplace, hsame]
      rfl

include heven

section

variable (hp : After drive info m sector buffer ((processed + done) * info.sectorSize) p)
include hp

private theorem transferSector_spec (hindex : (done + 1) * info.sectorSize ≤ 2 ^ 16)
    (hhi : (processed + done + 1) * info.sectorSize ≤ view.hi) :
    ∃ p', transferSector arith drive info m view (sector + processed) done p = .ok p' ∧
      After drive info m sector buffer ((processed + done + 1) * info.sectorSize) p' := by
  have hrun (w : Nat) (hw : w ≤ info.sectorSize / 2) : ∃ p', (List.range w).foldlM
      (fun p j ↦ transferWord arith drive info m view (sector + processed) done j p) p = .ok p' ∧
        After drive info m sector buffer ((processed + done) * info.sectorSize + w * 2) p' := by
    induction w with
    | zero => exact ⟨p, rfl, by simpa using hp⟩
    | succ w ih =>
      obtain ⟨p', hp', hafter⟩ := ih (by omega)
      obtain ⟨p'', hp'', hafter'⟩ :=
        transferWord_spec arith hlo hlen hafter (by omega) hindex hhi
      refine ⟨p'', ?_, by rwa [Nat.succ_mul]⟩
      rw [List.range_succ]
      exact foldlM_concat hp' hp''
  obtain ⟨p', hp', hafter⟩ := hrun (info.sectorSize / 2) (Nat.le_refl _)
  refine ⟨p', hp', ?_⟩
  rwa [Nat.div_mul_cancel (Nat.dvd_of_mod_eq_zero heven), ← Nat.succ_mul] at hafter

private theorem transferSectors_spec {left : Nat}
    (hindex : (done + left) * info.sectorSize ≤ 2 ^ 16)
    (hhi : (processed + done + left) * info.sectorSize ≤ view.hi) :
    ∃ r p', transferSectors arith drive info m view (sector + processed) left done p =
        .ok (r, p') ∧ r ≤ done + left ∧
      After drive info m sector buffer ((processed + r) * info.sectorSize) p' := by
  induction left generalizing done p with
  | zero => exact ⟨done, p, rfl, Nat.le_refl _, hp⟩
  | succ left ih =>
    rw [transferSectors]
    split
    · exact ⟨done, p.wait, rfl, by omega, hp.congr rfl rfl⟩
    · have hle : (done + 1) * info.sectorSize ≤ (done + (left + 1)) * info.sectorSize :=
        Nat.mul_le_mul_right _ (by omega)
      have hle' : (processed + done + 1) * info.sectorSize ≤
          (processed + done + (left + 1)) * info.sectorSize := Nat.mul_le_mul_right _ (by omega)
      have hwait : After drive info m sector buffer ((processed + done) * info.sectorSize) p.wait :=
        hp.congr rfl rfl
      obtain ⟨p', hp', hafter⟩ :=
        transferSector_spec arith heven hlo hlen hwait (Nat.le_trans hle hindex)
          (Nat.le_trans hle' hhi)
      obtain ⟨r, p'', hrun, hr, hafter'⟩ := ih hafter
        (by rwa [Nat.add_right_comm, Nat.add_assoc])
        (by rwa [show processed + (done + 1) + left = processed + done + (left + 1) by omega])
      exact ⟨r, p'', bind_eq_ok.mpr ⟨p', hp', hrun⟩, by omega, hafter'⟩

end

/-- The geometry of a drive that is addressed by it is one. -/
abbrev HasGeometry (info : DriveInfo) : Prop :=
  info.addressing = .chs → info.heads % 2 ^ 8 * (info.sectorsPerTrack % 2 ^ 8) ≠ 0

omit hlo hlen heven in
private theorem exists_prepareAtaIo_iff {before after : Bool} {c : Channel} :
    (∃ c', c.prepareAtaIo before after info sector count = .ok c') ↔ HasGeometry info := by
  unfold HasGeometry
  rw [Channel.prepareAtaIo]
  cases info.addressing with
  | chs =>
    by_cases hzero : info.heads % 2 ^ 8 * (info.sectorsPerTrack % 2 ^ 8) = 0
    · simp only [lbaToChs, if_pos hzero]
      exact ⟨by rintro ⟨_, ⟨⟩⟩, fun h ↦ absurd hzero (h trivial)⟩
    · simp only [lbaToChs, if_neg hzero]
      exact ⟨fun _ _ ↦ hzero, fun _ ↦ ⟨_, rfl⟩⟩
  | lba28 | lba48 => exact ⟨by rintro - ⟨⟩, fun _ ↦ ⟨_, rfl⟩⟩

variable {chunk : Nat}

variable (view) in
private theorem performAtaPio_spec (hgeometry : HasGeometry info)
    (hp : After drive info m sector buffer (processed * info.sectorSize) p)
    (hindex : chunk * info.sectorSize ≤ 2 ^ 16)
    (hhi : (processed + chunk) * info.sectorSize ≤ view.hi) :
    ∃ r p', performAtaPio arith drive info m view (sector + processed) chunk p = .ok (r, p') ∧
      r ≤ chunk ∧ After drive info m sector buffer ((processed + r) * info.sectorSize) p' := by
  obtain ⟨channel, hchannel⟩ := exists_prepareAtaIo_iff.mpr hgeometry
  by_cases hready : drive.answers (p.waits + 2) = false
  · exact ⟨0, _, bind_eq_ok.mpr ⟨channel, hchannel, if_pos hready⟩, Nat.zero_le _,
      hp.congr rfl rfl⟩
  · have hwait : After drive info m sector buffer ((processed + 0) * info.sectorSize)
        (Pio.wait { p with channel := channel, waits := p.waits + 2 }) := hp.congr rfl rfl
    obtain ⟨r, p', hrun, hr, hafter⟩ :=
      transferSectors_spec arith heven hlo hlen hwait (by rwa [Nat.zero_add]) hhi
    exact ⟨r, p', bind_eq_ok.mpr ⟨channel, hchannel, (if_neg hready).trans hrun⟩, by omega,
      hafter⟩

end

private theorem locateChunk_of_le (arith : Overflow) (hsector : sector + processed < 2 ^ 64)
    (hbuffer : (processed + chunk) * info.sectorSize ≤ p.buffer.length)
    (hlen : p.buffer.length < 2 ^ 64) :
    locateChunk arith info sector processed chunk p = .ok (sector + processed,
      ⟨processed * info.sectorSize, (processed + chunk) * info.sectorSize⟩) := by
  rw [Nat.add_mul] at hbuffer ⊢
  refine bind_eq_ok.mpr ⟨_, Overflow.add_of_lt hsector, ?_⟩
  refine bind_eq_ok.mpr ⟨_, Overflow.mul_of_lt (by omega), ?_⟩
  refine bind_eq_ok.mpr ⟨_, Overflow.mul_of_lt (by omega), ?_⟩
  refine bind_eq_ok.mpr ⟨_, Overflow.add_of_lt (by omega), ?_⟩
  exact bind_eq_ok.mpr ⟨_, if_pos ⟨by omega, hbuffer⟩, rfl⟩

private theorem transferChunks_spec (arith : Overflow) (heven : info.sectorSize % 2 = 0)
    (hrange : InRange info sector count) (hbuffer : count * info.sectorSize ≤ buffer.length)
    (hlen : buffer.length < 2 ^ 64) (hle : processed ≤ count)
    (hp : After drive info m sector buffer (processed * info.sectorSize) p) :
    ∃ r p', transferChunks arith drive info m sector count processed p = .ok (r, p') ∧
      r ≤ count ∧ After drive info m sector buffer (r * info.sectorSize) p' := by
  induction hleft : count - processed using Nat.strongRecOn generalizing processed p with
  | ind left ih =>
    rw [transferChunks]
    split
    next hlt =>
      obtain ⟨hindex, hsector, hgeometry⟩ := hrange.resolve_left (by omega)
      have hlength : p.buffer.length = buffer.length := by rw [hp.stored, length_fill]
      have hchunk : processed + min (count - processed) (maxSectors info) ≤ count := by omega
      have hend : (processed + min (count - processed) (maxSectors info)) * info.sectorSize ≤
          buffer.length := Nat.le_trans (Nat.mul_le_mul_right _ hchunk) hbuffer
      have hmin : min (count - processed) (maxSectors info) * info.sectorSize ≤
          min count (maxSectors info) * info.sectorSize := Nat.mul_le_mul_right _ (by omega)
      have hlocate := locateChunk_of_le arith (by omega : sector + processed < 2 ^ 64)
        (hlength ▸ hend) (by omega)
      obtain ⟨sectors, p', hpio, hsectors, hafter⟩ := performAtaPio_spec arith ⟨_, _⟩ heven
        rfl hend hgeometry hp (Nat.le_trans hmin hindex) (Nat.le_refl _)
      by_cases hzero : sectors = 0
      · subst hzero
        exact ⟨processed, p', bind_eq_ok.mpr ⟨_, hlocate, bind_eq_ok.mpr ⟨_, hpio, rfl⟩⟩,
          hle, hafter⟩
      · obtain ⟨r, p'', hrun, hr, hafter'⟩ :=
          ih (count - (processed + sectors)) (by omega) (by omega) hafter rfl
        exact ⟨r, p'', bind_eq_ok.mpr ⟨_, hlocate, bind_eq_ok.mpr
          ⟨_, hpio, (if_neg hzero).trans hrun⟩⟩, hr, hafter'⟩
    next hge => exact ⟨processed, p, rfl, hle, hp⟩

variable {r : Nat}

private theorem After.transfers
    (hrun : performAtaIo arith drive info m sector count channel buffer = .ok (r, p))
    (hr : r ≤ count) (hbuffer : count * info.sectorSize ≤ buffer.length)
    (hp : After drive info m sector buffer (r * info.sectorSize) p) :
    Transfers arith drive info m sector count channel buffer := by
  refine ⟨r, p, hrun, hr, hp.crossed, ?_⟩
  cases m with
  | read =>
    constructor
    · intro k hk j hj
      have hend : (k + 1) * info.sectorSize ≤ r * info.sectorSize := Nat.mul_le_mul_right _ hk
      have hle : r * info.sectorSize ≤ count * info.sectorSize := Nat.mul_le_mul_right _ hr
      rw [Nat.succ_mul] at hend
      obtain ⟨hdiv, hmod⟩ := position k hj
      rw [hp.stored, getElem?_fill, List.getElem?_eq_getElem (by omega), Option.map_some,
        if_pos (by omega), content, hdiv, hmod]
    · intro i hi
      rw [hp.stored, getElem?_fill]
      simp only [if_neg (by omega : ¬ i < r * info.sectorSize), Option.map_id']
  | write => exact hp.stored.trans (fill_self 0 _ buffer)

private theorem waits_set {byte : UInt8} (h : p.set view i byte = .ok p') : p'.waits = p.waits := by
  rw [Pio.set] at h
  split at h
  · cases h
    rfl
  · cases h

private theorem lt_of_nextIndex {i' : Nat} (hi : wordIndex .panics info done j = .ok i)
    (hi' : Overflow.panics.add 16 i 1 = .ok i') : done * info.sectorSize + j * 2 + 1 < 2 ^ 16 := by
  obtain ⟨rfl, _⟩ := lt_of_wordIndex hi
  obtain ⟨rfl, hlt⟩ := Overflow.eq_of_panics hi'
  exact hlt

private theorem lt_of_transferWord
    (h : transferWord .panics drive info m view start done j p = .ok p') :
    done * info.sectorSize + j * 2 + 1 < 2 ^ 16 ∧ p'.waits = p.waits := by
  cases m with
  | read =>
    obtain ⟨_, _, h⟩ := of_bind h
    obtain ⟨_, hlow, h⟩ := of_bind h
    obtain ⟨i, hi, h⟩ := of_bind h
    obtain ⟨i', hi', h⟩ := of_bind h
    refine ⟨lt_of_nextIndex hi hi', ?_⟩
    rw [waits_set h, waits_set hlow, Pio.move]
  | write =>
    obtain ⟨_, _, h⟩ := of_bind h
    obtain ⟨_, _, h⟩ := of_bind h
    obtain ⟨i, hi, h⟩ := of_bind h
    obtain ⟨i', hi', h⟩ := of_bind h
    obtain ⟨_, _, h⟩ := of_bind h
    cases h
    exact ⟨lt_of_nextIndex hi hi', rfl⟩

section

variable (heven : info.sectorSize % 2 = 0)
include heven

private theorem le_of_transferSector (hdone : done * info.sectorSize ≤ 2 ^ 16)
    (h : transferSector .panics drive info m view start done p = .ok p') :
    (done + 1) * info.sectorSize ≤ 2 ^ 16 ∧ p'.waits = p.waits := by
  have hrun (w : Nat) (p' : Pio) (hrun : (List.range w).foldlM
      (fun p j ↦ transferWord .panics drive info m view start done j p) p = .ok p') :
      done * info.sectorSize + w * 2 ≤ 2 ^ 16 ∧ p'.waits = p.waits := by
    induction w generalizing p' with
    | zero =>
      cases hrun
      exact ⟨by omega, rfl⟩
    | succ w ih =>
      rw [List.range_succ, List.foldlM_append] at hrun
      obtain ⟨p₁, hp₁, hrun⟩ := of_bind hrun
      obtain ⟨p₂, hp₂, hrun⟩ := of_bind hrun
      cases hrun
      obtain ⟨hlt, hwaits⟩ := lt_of_transferWord hp₂
      exact ⟨by omega, hwaits.trans (ih p₁ hp₁).2⟩
  obtain ⟨hle, hwaits⟩ := hrun (info.sectorSize / 2) p' h
  rw [Nat.succ_mul]
  exact ⟨by omega, hwaits⟩

section

variable (hready : ∀ i, drive.answers i = true)
include hready

private theorem le_of_transferSectors {left : Nat} (hdone : done * info.sectorSize ≤ 2 ^ 16)
    (h : transferSectors .panics drive info m view start left done p = .ok (r, p')) :
    (done + left) * info.sectorSize ≤ 2 ^ 16 := by
  induction left generalizing done p with
  | zero => exact hdone
  | succ left ih =>
    rw [transferSectors, if_neg (by simp [hready])] at h
    obtain ⟨p₁, hp₁, h⟩ := of_bind h
    rw [← Nat.add_assoc, Nat.add_right_comm]
    exact ih (le_of_transferSector heven hdone hp₁).1 h

private theorem le_of_performAtaPio
    (h : performAtaPio .panics drive info m view start chunk p = .ok (r, p')) :
    chunk * info.sectorSize ≤ 2 ^ 16 ∧ HasGeometry info := by
  obtain ⟨channel, hchannel, h⟩ := of_bind h
  rw [if_neg (by simp [hready])] at h
  have hle := le_of_transferSectors heven hready (by omega) h
  rw [Nat.zero_add] at hle
  exact ⟨hle, exists_prepareAtaIo_iff.mp ⟨channel, hchannel⟩⟩

private theorem le_of_transferChunks (hcount : 0 < count)
    (h : transferChunks .panics drive info m sector count 0 p = .ok (r, p')) :
    min count (maxSectors info) * info.sectorSize ≤ 2 ^ 16 ∧ HasGeometry info := by
  rw [transferChunks, if_pos hcount] at h
  obtain ⟨_, _, h⟩ := of_bind h
  obtain ⟨_, hpio, _⟩ := of_bind h
  exact le_of_performAtaPio heven hready hpio

end

/-- A drive that stops after every sector. -/
def stopping : Drive where
  disk _ _ := 0
  answers i := decide (i < 3 ∨ i % 5 ≠ 2)

private theorem performAtaPio_stopping (hwaits : p.waits % 5 = 3) (hchunk : 0 < chunk)
    (h : performAtaPio .panics stopping info m view start chunk p = .ok (r, p')) :
    r = 1 ∧ (1 < chunk → p'.waits % 5 = 3) := by
  obtain ⟨channel, -, h⟩ := of_bind h
  rw [if_neg (by simp [stopping]; omega)] at h
  obtain ⟨left, rfl⟩ := Nat.exists_eq_add_of_lt hchunk
  rw [Nat.zero_add, transferSectors, if_neg (by simp)] at h
  obtain ⟨p₁, hp₁, h⟩ := of_bind h
  have hp₁ : p₁.waits = p.waits + 4 := (le_of_transferSector heven (by omega) hp₁).2
  cases left with
  | zero =>
    cases h
    exact ⟨rfl, by omega⟩
  | succ left =>
    rw [transferSectors, if_pos (by simp [stopping]; omega)] at h
    cases h
    refine ⟨rfl, fun _ ↦ ?_⟩
    show (p₁.waits + 1) % 5 = 3
    omega

private theorem lt_of_transferChunks_stopping (hlt : processed < count) (hwaits : p.waits % 5 = 3)
    (h : transferChunks .panics stopping info m sector count processed p = .ok (r, p')) :
    sector + count ≤ 2 ^ 64 := by
  induction hleft : count - processed generalizing processed p with
  | zero => omega
  | succ left ih =>
    rw [transferChunks, if_pos hlt] at h
    obtain ⟨⟨start, view⟩, hlocate, h⟩ := of_bind h
    obtain ⟨⟨sectors, p₁⟩, hpio, h⟩ := of_bind h
    obtain ⟨start, hstart, hlocate⟩ := of_bind hlocate
    obtain ⟨rfl, hstart⟩ := Overflow.eq_of_panics hstart
    have hmax : 2 ≤ maxSectors info := by
      rw [maxSectors]
      split <;> decide
    obtain ⟨rfl, hwaits'⟩ := performAtaPio_stopping heven hwaits (by omega) hpio
    by_cases hlast : processed + 1 = count
    · omega
    · exact ih (by omega) (hwaits' (by omega)) h (by omega)

end

end

private theorem selectDrive_answers (c : Channel) (drive head : Nat) (lba : Bool) :
    (c.selectDrive true true drive lba head).1 = true := by
  rw [Channel.selectDrive]
  split
  · rfl
  · dsimp only
    split <;> rfl

private theorem performAtaIo_answers (drive : Drive) {arith : Overflow} {info : DriveInfo}
    {m : TransferMode} {sector count : Nat} {buffer : List UInt8}
    (hready : ∀ i < 3, drive.answers i = true) :
    ∃ c, performAtaIo arith drive info m sector count channel buffer =
      transferChunks arith drive info m sector count 0 ⟨c, 3, buffer, []⟩ := by
  rw [performAtaIo, hready 0 (by decide), hready 1 (by decide)]
  have hselected := selectDrive_answers channel info.drive 0 false
  cases hselect : channel.selectDrive true true info.drive false 0 with
  | mk selected c =>
    rw [hselect] at hselected
    have hselected : selected = true := hselected
    refine ⟨c, ?_⟩
    dsimp only
    rw [if_neg (by simp [hselected]), if_neg (by simp [hready 2])]
    rfl

private theorem performAtaIo_spec {arith : Overflow} {drive : Drive} {info : DriveInfo}
    {m : TransferMode}
    {sector count : Nat} {buffer : List UInt8} (heven : info.sectorSize % 2 = 0)
    (hrange : InRange info sector count) (hbuffer : count * info.sectorSize ≤ buffer.length)
    (hlen : buffer.length < 2 ^ 64) :
    ∃ r p, performAtaIo arith drive info m sector count channel buffer = .ok (r, p) ∧ r ≤ count ∧
      After drive info m sector buffer (r * info.sectorSize) p := by
  have hnone (p : Pio) (hp : p.buffer = buffer) (hmoved : p.moved = []) :
      After drive info m sector buffer (0 * info.sectorSize) p := by
    rw [Nat.zero_mul]
    exact ⟨by rw [fill_zero, hp], hmoved⟩
  rw [performAtaIo]
  dsimp only
  split
  · exact ⟨0, _, rfl, Nat.zero_le _, hnone _ rfl rfl⟩
  · split
    · exact ⟨0, _, rfl, Nat.zero_le _, hnone _ rfl rfl⟩
    · exact transferChunks_spec arith heven hrange hbuffer hlen (Nat.zero_le _) (hnone _ rfl rfl)

/-- A drive that always answers. -/
def willing : Drive where
  disk _ _ := 0
  answers _ := true

/-- For every drive, request and buffer: a programmed transfer moves whole sectors in order,
whatever the drive does and however the kernel is built, if and only if the first command stays
within `2 ^ 16` bytes and the sector numbers and the geometry are in range. -/
theorem transfers_iff {info : DriveInfo} {m : TransferMode} {sector count : Nat}
    {buffer : List UInt8} (heven : info.sectorSize % 2 = 0)
    (hbuffer : count * info.sectorSize ≤ buffer.length) (hlen : buffer.length < 2 ^ 64) :
    (∀ arith drive channel, Transfers arith drive info m sector count channel buffer) ↔
      InRange info sector count := by
  constructor
  · intro h
    by_cases hcount : count = 0
    · exact Or.inl hcount
    · obtain ⟨r, p, hrun, -⟩ := h .panics willing fresh
      obtain ⟨c, hwilling⟩ := performAtaIo_answers willing (fun _ _ ↦ rfl)
      obtain ⟨hindex, hgeometry⟩ := le_of_transferChunks heven (fun _ ↦ rfl) (by omega)
        (hwilling.symm.trans hrun)
      obtain ⟨r, p, hrun, -⟩ := h .panics stopping fresh
      obtain ⟨c, hstopping⟩ := performAtaIo_answers stopping (by decide)
      have hsector := lt_of_transferChunks_stopping heven (by omega) rfl
        (hstopping.symm.trans hrun)
      exact Or.inr ⟨hindex, hsector, hgeometry⟩
  · intro hrange arith drive channel
    obtain ⟨r, p, hrun, hr, hafter⟩ := performAtaIo_spec heven hrange hbuffer hlen
    exact hafter.transfers hrun hr hbuffer

/-- Two sectors are written to that drive. -/
theorem transfers_iff_sample :
    Transfers .panics stopping lba48Drive .write 7 2 fresh (List.replicate 1024 5) :=
  (transfers_iff (by decide) (by rw [List.length_replicate]; decide)
    (by rw [List.length_replicate]; decide)).mpr (Or.inr (by decide)) .panics stopping fresh

/-- A read of 129 sectors of 512 bytes in one command panics on a drive that never stops, although
the buffer has room for them. -/
theorem read_of_129_sectors :
    129 * lba48Drive.sectorSize ≤ (List.replicate 66048 (0 : UInt8)).length ∧
      ¬ Transfers .panics willing lba48Drive .read 0 129 fresh (List.replicate 66048 0) := by
  refine ⟨by rw [List.length_replicate]; decide, ?_⟩
  rintro ⟨r, p, hrun, -⟩
  obtain ⟨c, hwilling⟩ := performAtaIo_answers willing (fun _ _ ↦ rfl)
  have hle := le_of_transferChunks (by decide) (fun _ ↦ rfl) (by decide) (hwilling.symm.trans hrun)
  exact absurd hle.1 (by decide)

end D3OS.Ide
