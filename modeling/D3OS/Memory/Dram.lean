import D3OS.Base.Overflow
import D3OS.Memory.Address

/-!
# Physical memory regions at boot time

`os/kernel/src/memory/dram.rs`. The boot code collects available and reserved regions in
two arrays that are kept sorted and merged; `finalize` subtracts the reserved regions from
the available ones and turns the reserved set into the complement. An array with its count
is the list of the regions in use. Debug assertions are checked in the profile that also
checks overflow.
-/

namespace D3OS.Memory

/-- `debug_assert!`. -/
def debugAssert (mode : Overflow) (condition : Bool) : Except Panic Unit :=
  if mode = .panics ∧ condition = false then .error .assertion else .ok ()

/-- `Region`, `dram.rs:43`. -/
structure Region where
  start : PhysAddr
  stop : PhysAddr
  deriving DecidableEq

namespace Region

/-- The first address of a region as a number. -/
def lo (r : Region) : Nat := r.start.asU64

/-- The address behind a region as a number. -/
def hi (r : Region) : Nat := r.stop.asU64

/-- The region of a range of frames. -/
def ofFrames (frames : PhysFrameRange) : Region :=
  ⟨frames.start.startAddress, frames.stop.startAddress⟩

end Region

/-- The static variables of `dram.rs`. -/
structure Dram where
  availableRegions : List Region
  reservedRegions : List Region
  dramLimit : Nat
  dramFinalized : Bool

namespace Dram

/-- `MAX_REGIONS`, `dram.rs:41`. -/
def maxRegions : Nat := 1024

/-- The initial values of the static variables. -/
def new : Dram := ⟨[], [], 0, false⟩

/-- The loop that merges overlapping and adjacent regions, `dram.rs:132-145`; `current` is
`regions[write]`. -/
def mergeRegions : Region → List Region → List Region
  | current, [] => [current]
  | current, next :: rest =>
    if next.start.asU64 ≤ current.stop.asU64 then
      mergeRegions (if current.stop.asU64 < next.stop.asU64 then { current with stop := next.stop }
        else current) rest
    else current :: mergeRegions next rest

/-- `insert_region` on one of the two sets, `dram.rs:106-154`. The new region comes before the
first one that does not start below it. -/
def insertRegion (set : List Region) (newRegion : PhysFrameRange) : Except Panic (List Region) :=
  if set.length = maxRegions then .error .assertion
  else
    match set.orderedInsert (fun a b ↦ a.start.asU64 ≤ b.start.asU64)
      (.ofFrames newRegion) with
    | [] => .ok []
    | first :: rest => .ok (mergeRegions first rest)

/-- `DRAM_LIMIT` after `insert_region`, `dram.rs:104`. -/
def newLimit (d : Dram) (newRegion : PhysFrameRange) : Nat :=
  max d.dramLimit newRegion.stop.startAddress.asU64

/-- The range that `insert_available` inserts, `dram.rs:75-86`: the first page is cut off. -/
def cutFirstPage (region : PhysFrameRange) : Option PhysFrameRange :=
  if region.start.startAddress.asU64 = 0 then
    if region.stop.startAddress.asU64 ≤ pageSize then none
    else some { region with start := ⟨1, by decide⟩ }
  else some region

/-- `insert_available`, `dram.rs:70`. -/
def insertAvailable (d : Dram) (region : PhysFrameRange) : Except Panic Dram :=
  match cutFirstPage region with
  | none => .ok d
  | some region =>
    if d.dramFinalized then .error .assertion
    else do
      let regions ← insertRegion d.availableRegions region
      .ok { d with availableRegions := regions, dramLimit := d.newLimit region }

/-- `insert_reserved`, `dram.rs:90`. -/
def insertReserved (d : Dram) (region : PhysFrameRange) : Except Panic Dram :=
  if d.dramFinalized then .error .assertion
  else do
    let regions ← insertRegion d.reservedRegions region
    .ok { d with reservedRegions := regions, dramLimit := d.newLimit region }

/-- The closure `push_region`, `dram.rs:184`. -/
def pushRegion (result : List Region) (start stop : PhysAddr) : Except Panic (List Region) :=
  if stop.asU64 ≤ start.asU64 then .ok result
  else if maxRegions ≤ result.length then .error .assertion
  else .ok (result ++ [⟨start, stop⟩])

/-- The gap in front of the reserved region `r` of the available region `f`,
`dram.rs:232-235`. -/
def pushGap (f r : Region) (curStart : PhysAddr) (result : List Region) :
    Except Panic (List Region) :=
  if curStart.asU64 < r.start.asU64 then
    pushRegion result curStart (if r.start.asU64 < f.stop.asU64 then r.start else f.stop)
  else .ok result

/-- The loop over the reserved regions that overlap the available region `f`,
`dram.rs:221-249`; it returns `cur_start` and the result. -/
def subtractReserved (f : Region) : List Region → PhysAddr → List Region →
    Except Panic (PhysAddr × List Region)
  | [], curStart, result => .ok (curStart, result)
  | r :: rest, curStart, result =>
    if f.stop.asU64 ≤ r.start.asU64 then .ok (curStart, result)
    else do
      let result ← pushGap f r curStart result
      let curStart :=
        if curStart.asU64 < r.stop.asU64 then
          if f.stop.asU64 < r.stop.asU64 then f.stop else r.stop
        else curStart
      if f.stop.asU64 ≤ curStart.asU64 then .ok (curStart, result)
      else subtractReserved f rest curStart result

/-- The part of the available region `f` behind its last reserved region, `dram.rs:252-254`. -/
def pushTail (f : Region) (curStart : PhysAddr) (result : List Region) :
    Except Panic (List Region) :=
  if curStart.asU64 < f.stop.asU64 then pushRegion result curStart f.stop else .ok result

/-- The loop over the available regions, `dram.rs:200-255`; the list of reserved regions
starts at `r_idx`. -/
def subtractAll : List Region → List Region → List Region → Except Panic (List Region)
  | [], _, result => .ok result
  | f :: rest, reserved, result =>
    if f.stop.asU64 ≤ f.start.asU64 then subtractAll rest reserved result
    else do
      let reserved := reserved.dropWhile fun r ↦ r.stop.asU64 ≤ f.start.asU64
      let (curStart, result) ← subtractReserved f reserved f.start result
      let result ← pushTail f curStart result
      subtractAll rest reserved result

/-- `finalize_available_regions`, `dram.rs:166`. -/
def finalizeAvailableRegions (d : Dram) : Except Panic Dram :=
  if d.dramFinalized then .error .assertion
  else do
    let result ← subtractAll d.availableRegions d.reservedRegions []
    .ok { d with availableRegions := result, dramFinalized := true }

/-- The gap in front of an available region is reserved, `dram.rs:305-316`. -/
def pushReserved (cur : PhysAddr) (region : Region) (reserved : List Region) :
    Except Panic (List Region) :=
  if cur.asU64 < region.start.asU64 then
    if maxRegions ≤ reserved.length then .error .assertion
    else .ok (reserved ++ [⟨cur, region.start⟩])
  else .ok reserved

/-- The loop over the available regions, `dram.rs:295-321`; it returns `cur` and the gaps. -/
def collectGaps (mode : Overflow) (dramLimit : Nat) : List Region → PhysAddr → List Region →
    Except Panic (PhysAddr × List Region)
  | [], cur, reserved => .ok (cur, reserved)
  | region :: rest, cur, reserved => do
    debugAssert mode (region.start.asU64 ≤ region.stop.asU64)
    debugAssert mode (region.stop.asU64 ≤ dramLimit)
    let reserved ← pushReserved cur region reserved
    let cur := if cur.asU64 < region.stop.asU64 then region.stop else cur
    collectGaps mode dramLimit rest cur reserved

/-- The gap between the last available region and the limit, `dram.rs:324-335`. -/
def pushLastReserved (cur : PhysAddr) (dramLimit : Nat) (reserved : List Region) :
    Except Panic (List Region) :=
  if cur.asU64 < dramLimit then
    if maxRegions ≤ reserved.length then .error .assertion
    else do
      let stop ← PhysAddr.new dramLimit
      .ok (reserved ++ [⟨cur, stop⟩])
  else .ok reserved

/-- `finalize_reserved_regions`, `dram.rs:269`. -/
def finalizeReservedRegions (mode : Overflow) (d : Dram) : Except Panic Dram :=
  if d.dramFinalized = false then .error .assertion
  else if maxRegions < d.availableRegions.length then .error .assertion
  else if d.dramLimit = 0 then .ok { d with reservedRegions := [] }
  else do
    let (cur, reserved) ← collectGaps mode d.dramLimit d.availableRegions ⟨0, by decide⟩ []
    let reserved ← pushLastReserved cur d.dramLimit reserved
    .ok { d with reservedRegions := reserved }

/-- `finalize`, `dram.rs:159`. -/
def finalize (mode : Overflow) (d : Dram) : Except Panic Dram := do
  let d ← d.finalizeAvailableRegions
  d.finalizeReservedRegions mode

/-- The loop of `boot_alloc` over the available regions, `dram.rs:359-403`: the allocated range
and the regions that are left. -/
def takeFrames (mode : Overflow) (byteLen : Nat) :
    List Region → Except Panic (Option (PhysFrameRange × List Region))
  | [] => .ok none
  | region :: rest => do
    let start := region.start.asU64
    let stop := region.stop.asU64
    debugAssert mode (start % pageSize = 0)
    debugAssert mode (stop % pageSize = 0)
    debugAssert mode (start < stop)
    let regionSize ← mode.sub 64 stop start
    if regionSize < byteLen then do
      let taken ← takeFrames mode byteLen rest
      .ok (taken.map fun (frames, rest) ↦ (frames, region :: rest))
    else do
      let sum ← unwrap (checkedAdd start byteLen)
      let allocEnd ← PhysAddr.new sum
      let startFrame ← unwrap (PhysFrame.fromStartAddress region.start)
      let endFrame ← unwrap (PhysFrame.fromStartAddress allocEnd)
      let left := if allocEnd = region.stop then rest else { region with start := allocEnd } :: rest
      .ok (some (⟨startFrame, endFrame⟩, left))

/-- `boot_alloc`, `dram.rs:344`; none if no region is large enough. -/
def bootAlloc (mode : Overflow) (d : Dram) (numFrames : Nat) :
    Except Panic (Option PhysFrameRange × Dram) :=
  if numFrames = 0 then .error .assertion
  else do
    let byteLen ← unwrap (checkedMul numFrames pageSize)
    let taken ← takeFrames mode byteLen d.availableRegions
    match taken with
    | some (frames, regions) => .ok (some frames, { d with availableRegions := regions })
    | none => .ok (none, d)

end Dram

end D3OS.Memory
