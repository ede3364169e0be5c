import D3OS.Lib.Runs
import D3OS.Memory.Dram

/-!
# The lock-free frame allocator

`os/kernel/src/memory/frames_lf.rs`, a wrapper of the llfree library. The library is modelled
by what it promises: `get` takes a block of free frames or fails, `put` makes a block free.
Which free block it takes for a request without a start is part of the event.
-/

namespace D3OS.Memory

open Lib

/-- `LLFree`: the frames, named by their numbers, that are free. -/
structure LLFree where
  free : Nat → Bool

namespace LLFree

/-- `LLFree::new` with `Init::FreeAll`. -/
def new (numFrames : Nat) : LLFree := ⟨fun n ↦ n < numFrames⟩

/-- `get` of the block of `2 ^ order` frames from `frame` on. -/
def get (a : LLFree) (frame order : Nat) : Option LLFree :=
  if (List.range (2 ^ order)).all fun i ↦ a.free (frame + i) then
    some ⟨fun n ↦ a.free n && !(decide (frame ≤ n) && decide (n < frame + 2 ^ order))⟩
  else none

/-- `put` of the block of `2 ^ order` frames from `frame` on. -/
def put (a : LLFree) (frame order : Nat) : LLFree :=
  ⟨fun n ↦ a.free n || (decide (frame ≤ n) && decide (n < frame + 2 ^ order))⟩

private theorem get_eq_some {a a' : LLFree} {frame order : Nat} (h : a.get frame order = some a') :
    (∀ n, frame ≤ n → n < frame + 2 ^ order → a.free n = true) ∧
    ∀ n, a'.free n = true ↔ a.free n = true ∧ ¬ (frame ≤ n ∧ n < frame + 2 ^ order) := by
  unfold get at h
  split at h
  next hall =>
    cases h
    constructor
    · intro n hle hlt
      have hn := List.all_eq_true.mp hall (n - frame) (List.mem_range.mpr (by omega))
      rwa [Nat.add_sub_cancel' hle] at hn
    · intro n
      simp only [Bool.and_eq_true, Bool.not_eq_true', Bool.and_eq_false_imp, decide_eq_true_eq,
        decide_eq_false_iff_not, not_and]
  next => cases h

end LLFree

namespace FramesLf

/-- The order to which the loop in `frames_lf.rs:145` reduces a chunk of `2 ^ order` frames: the
first one that the frame is aligned for. -/
def alignedOrder (frame : Nat) : Nat → Nat
  | 0 => 0
  | order + 1 => if frame % 2 ^ (order + 1) = 0 then order + 1 else alignedOrder frame order

/-- `alloc_internal`, `frames_lf.rs:159`, of `2 ^ order` frames at a given place. -/
def allocInternal (a : LLFree) (frame order : Nat) : Except Panic (PhysFrameRange × LLFree) :=
  match a.get frame order with
  | none => .error .outOfFrames
  | some a => do
    let startAddr ← PhysAddr.new (frame * pageSize)
    let startFrame ← unwrap (PhysFrame.fromStartAddress startAddr)
    let endFrame ← startFrame.add (2 ^ order)
    .ok (⟨startFrame, endFrame⟩, a)

/-- The order of the next chunk, `frames_lf.rs:138-147`; `maxOrder` is `llfree::MAX_ORDER`. -/
def chunkOrder (maxOrder current remaining : Nat) : Nat :=
  alignedOrder current (if 2 ^ maxOrder ≤ remaining then maxOrder else Nat.log2 remaining)

/-- The loop of `mark_reserved`, `frames_lf.rs:134`. -/
def markReserved (maxOrder : Nat) (a : LLFree) (current remaining : Nat) : Except Panic LLFree :=
  if remaining = 0 then .ok a
  else do
    let order := chunkOrder maxOrder current remaining
    let (_, a) ← allocInternal a current order
    markReserved maxOrder a (current + 2 ^ order) (remaining - 2 ^ order)
termination_by remaining
decreasing_by
  have hpos : 0 < 2 ^ chunkOrder maxOrder current remaining := Nat.two_pow_pos _
  omega

/-- The chunks that this loop requests, each with its first frame and its order. -/
def requests (maxOrder current remaining : Nat) : List (Nat × Nat) :=
  if remaining = 0 then []
  else
    let order := chunkOrder maxOrder current remaining
    (current, order) :: requests maxOrder (current + 2 ^ order) (remaining - 2 ^ order)
termination_by remaining
decreasing_by
  have hpos : 0 < 2 ^ chunkOrder maxOrder current remaining := Nat.two_pow_pos _
  omega

/-- The loop of `finalize` over the reserved regions, `frames_lf.rs:95`. -/
def reserveAll (maxOrder : Nat) (mode : Overflow) : List Region → LLFree → Except Panic LLFree
  | [], a => .ok a
  | r :: rest, a =>
    if r.stop.asU64 - r.start.asU64 = 0 then reserveAll maxOrder mode rest a
    else do
      debugAssert mode (r.start.asU64 % pageSize = 0)
      debugAssert mode (r.stop.asU64 % pageSize = 0)
      let frameCount := (r.stop.asU64 - r.start.asU64) / pageSize
      if r.start.asU64 % pageSize ≠ 0 ∨ frameCount = 0 then .error .assertion
      else do
        let a ← markReserved maxOrder a (r.start.asU64 / pageSize) frameCount
        reserveAll maxOrder mode rest a

/-- `init`, `frames_lf.rs:39`. -/
def init (maxOrder : Nat) (mode : Overflow) (d : Dram) : Except Panic LLFree :=
  reserveAll maxOrder mode d.reservedRegions (.new (d.dramLimit / pageSize))

/-- The allocator in use: which frames are handed out, and all ranges it has returned. -/
structure State where
  allocator : LLFree
  handedOut : Nat → Bool
  returned : List PhysFrameRange

/-- A call of `alloc` that the library answers with the block at `frame`, or a call of
`free`. -/
inductive Event where
  | alloc (frameCount frame : Nat)
  | free (frames : PhysFrameRange)

/-- `alloc`, `frames_lf.rs:114`, and `free`, `frames_lf.rs:184`. -/
def step (s : State) : Event → Except Panic State
  | .alloc frameCount frame => do
    let rounded ← unwrap (if frameCount = 0 then none else checkedNextPowerOfTwo 64 frameCount)
    let (frames, allocator) ← allocInternal s.allocator frame (Nat.log2 rounded)
    .ok ⟨allocator, fun n ↦ s.handedOut n ||
        (decide (frames.start.number ≤ n) && decide (n < frames.stop.number)),
      s.returned ++ [frames]⟩
  | .free frames => do
    let count ← subOrPanic frames.stop.number frames.start.number
    if isPowerOfTwo count = false then .error .assertion
    else
      .ok ⟨s.allocator.put frames.start.number (Nat.log2 count), fun n ↦ s.handedOut n &&
          !(decide (frames.start.number ≤ n) && decide (n < frames.stop.number)),
        s.returned⟩

/-- Only frames that are handed out are given back. -/
def Proper (s : State) : Event → State → Prop
  | .alloc _ _, _ => True
  | .free frames, _ => ∀ n, frames.start.number ≤ n → n < frames.stop.number →
      s.handedOut n = true

/-- The frame may be handed out now or later: it is free, or handed out and may come back. -/
def Serves (s : State) (n : Nat) : Prop := s.allocator.free n = true ∨ s.handedOut n = true

/-- The frame is one of the range. -/
def InRange (frames : PhysFrameRange) (n : Nat) : Prop :=
  frames.start.number ≤ n ∧ n < frames.stop.number

private theorem allocInternal_ok {a a' : LLFree} {frame order : Nat} {frames : PhysFrameRange}
    (h : allocInternal a frame order = .ok (frames, a')) :
    a.get frame order = some a' ∧ ∀ n, InRange frames n ↔ frame ≤ n ∧ n < frame + 2 ^ order := by
  unfold allocInternal at h
  split at h
  next => cases h
  next a₁ hget =>
    obtain ⟨startAddr, haddr, h⟩ := of_bind h
    obtain ⟨startFrame, hframe, h⟩ := of_bind h
    obtain ⟨endFrame, hend, h⟩ := of_bind h
    cases h
    refine ⟨hget, ?_⟩
    have hstart : startFrame.number * pageSize = frame * pageSize :=
      (PhysFrame.number_of_fromStartAddress (unwrap_eq_ok.mp hframe)).trans
        (PhysAddr.asU64_of_new haddr)
    have hstart : startFrame.number = frame := Nat.mul_right_cancel (by decide) hstart
    have hstop := PhysFrame.number_of_add hend
    intro n
    simp only [InRange, hstop, hstart]

section

variable {maxOrder current remaining : Nat} {a a' : LLFree}

private theorem alignedOrder_le (frame order : Nat) : alignedOrder frame order ≤ order := by
  fun_induction alignedOrder frame order with
  | case1 => exact Nat.le_refl 0
  | case2 => exact Nat.le_refl _
  | case3 order _ ih => exact Nat.le_succ_of_le ih

private theorem alignedOrder_dvd (frame order : Nat) : 2 ^ alignedOrder frame order ∣ frame := by
  fun_induction alignedOrder frame order with
  | case1 => exact one_dvd frame
  | case2 order haligned => exact Nat.dvd_of_mod_eq_zero haligned
  | case3 order _ ih => exact ih

private theorem chunkOrder_le (hne : remaining ≠ 0) :
    chunkOrder maxOrder current remaining ≤ maxOrder := by
  refine (alignedOrder_le _ _).trans ?_
  split
  next => exact Nat.le_refl maxOrder
  next hlt => exact Nat.le_of_lt ((Nat.log2_lt hne).mpr (not_le.mp hlt))

private theorem two_pow_chunkOrder_le (hne : remaining ≠ 0) :
    2 ^ chunkOrder maxOrder current remaining ≤ remaining := by
  refine (Nat.pow_le_pow_right Nat.two_pos (alignedOrder_le _ _)).trans ?_
  split
  next hle => exact hle
  next => exact Nat.log2_self_le hne

private theorem requests_aligned :
    ∀ c ∈ requests maxOrder current remaining, c.2 ≤ maxOrder ∧ 2 ^ c.2 ∣ c.1 := by
  fun_induction requests maxOrder current remaining with
  | case1 => exact List.forall_mem_nil _
  | case2 current remaining hne order ih =>
    exact List.forall_mem_cons.mpr ⟨⟨chunkOrder_le hne, alignedOrder_dvd _ _⟩, ih⟩

private theorem requests_cover :
    (requests maxOrder current remaining).flatMap (fun c ↦ List.range' c.1 (2 ^ c.2)) =
      List.range' current remaining := by
  fun_induction requests maxOrder current remaining with
  | case1 current => rfl
  | case2 current remaining hne order ih =>
    rw [List.flatMap_cons, ih, List.range'_append_1,
      Nat.add_sub_cancel' (two_pow_chunkOrder_le hne)]

private theorem markReserved_eq (a : LLFree) :
    markReserved maxOrder a current remaining = (requests maxOrder current remaining).foldlM
      (fun a c ↦ Prod.snd <$> allocInternal a c.1 c.2) a := by
  fun_induction requests maxOrder current remaining generalizing a with
  | case1 current =>
    rw [markReserved, if_pos rfl]
    rfl
  | case2 current remaining hne order ih =>
    rw [markReserved, if_neg hne, List.foldlM_cons, bind_map_left]
    exact bind_congr fun r ↦ ih r.2

private theorem markReserved_free (h : markReserved maxOrder a current remaining = .ok a')
    (n : Nat) :
    a'.free n = true ↔ a.free n = true ∧ ¬ (current ≤ n ∧ n < current + remaining) := by
  induction remaining using Nat.strong_induction_on generalizing a current with
  | _ remaining ih =>
    unfold markReserved at h
    split at h
    next hzero =>
      cases h
      exact (and_iff_left (by omega)).symm
    next hne =>
      obtain ⟨⟨frames, a₁⟩, halloc, h⟩ := of_bind h
      have hchunk := Nat.two_pow_pos (chunkOrder maxOrder current remaining)
      have hle : 2 ^ chunkOrder maxOrder current remaining ≤ remaining := two_pow_chunkOrder_le hne
      rw [ih _ (by omega) h, (LLFree.get_eq_some (allocInternal_ok halloc).1).2 n, and_assoc]
      exact and_congr_right fun _ ↦ by omega

end

/-- The frame lies in the region. -/
def Within (n : Nat) (r : Region) : Prop := r.lo ≤ n * pageSize ∧ (n + 1) * pageSize ≤ r.hi

/-- Exactly the frames of the reserved regions are taken. -/
theorem reserveAll_free {maxOrder : Nat} {mode : Overflow} {regions : List Region} {a a' : LLFree}
    (h : reserveAll maxOrder mode regions a = .ok a') (n : Nat) :
    a'.free n = true ↔ a.free n = true ∧ ∀ r ∈ regions, ¬ Within n r := by
  induction regions generalizing a with
  | nil =>
    cases h
    exact (and_iff_left (List.forall_mem_nil _)).symm
  | cons r rest ih =>
    rw [List.forall_mem_cons]
    unfold reserveAll at h
    split at h
    next hempty =>
      have hout : ¬ Within n r := by
        simp only [Within, Region.lo, Region.hi, pageSize]
        omega
      rw [ih h, and_iff_right hout]
    next =>
      obtain ⟨-, -, h⟩ := of_bind h
      obtain ⟨-, -, h⟩ := of_bind h
      dsimp only at h
      split at h
      next => cases h
      next haligned =>
        obtain ⟨a₁, hmark, h⟩ := of_bind h
        rw [ih h, markReserved_free hmark, and_assoc]
        refine and_congr_right fun _ ↦ and_congr_left fun _ ↦ not_congr ?_
        simp only [Within, Region.lo, Region.hi, pageSize] at haligned ⊢
        omega

section

variable {H : Nat → Prop} {s s' : State} {frameCount frame : Nat} {frames : PhysFrameRange}

/-- `alloc` hands out a block of free frames. -/
theorem step_alloc (h : step s (.alloc frameCount frame) = .ok s') : ∃ frames,
    (nextPowerOfTwo frameCount).val < 2 ^ 64 ∧ s'.returned = s.returned ++ [frames] ∧
    (∀ n, InRange frames n ↔ frame ≤ n ∧ n < frame + (nextPowerOfTwo frameCount).val) ∧
    (∀ n, InRange frames n → s.allocator.free n = true) ∧
    (∀ n, s'.allocator.free n = true ↔ s.allocator.free n = true ∧ ¬ InRange frames n) ∧
    ∀ n, s'.handedOut n = true ↔ s.handedOut n = true ∨ InRange frames n := by
  obtain ⟨rounded, hrounded, h⟩ := of_bind h
  obtain ⟨⟨frames, allocator⟩, halloc, h⟩ := of_bind h
  cases h
  have hrounded : rounded = (nextPowerOfTwo frameCount).val ∧ rounded < 2 ^ 64 := by
    rw [unwrap_eq_ok] at hrounded
    split at hrounded
    next => cases hrounded
    next => exact checkedNextPowerOfTwo_eq_some.mp hrounded
  obtain ⟨rfl, hlt⟩ := hrounded
  obtain ⟨hget, hrange⟩ := allocInternal_ok halloc
  rw [two_pow_log2 (nextPowerOfTwo _).property] at hrange
  obtain ⟨hfree, hafter⟩ := LLFree.get_eq_some hget
  rw [two_pow_log2 (nextPowerOfTwo _).property] at hfree hafter
  refine ⟨frames, hlt, rfl, hrange, fun n hn ↦ ?_, fun n ↦ ?_, fun n ↦ ?_⟩
  · exact hfree n ((hrange n).mp hn).1 ((hrange n).mp hn).2
  · rw [hafter, hrange]
  · simp only [Bool.or_eq_true, Bool.and_eq_true, decide_eq_true_eq, InRange]

/-- `free` takes a block of frames back. -/
theorem step_free (h : step s (.free frames) = .ok s') :
    frames.start.number ≤ frames.stop.number ∧ s'.returned = s.returned ∧
    (∀ n, s'.allocator.free n = true ↔ s.allocator.free n = true ∨ InRange frames n) ∧
    ∀ n, s'.handedOut n = true ↔ s.handedOut n = true ∧ ¬ InRange frames n := by
  obtain ⟨count, hcount, h⟩ := of_bind h
  obtain ⟨hle, hcount⟩ := subOrPanic_eq_ok.mp hcount
  split at h
  next => cases h
  next hpower =>
    cases h
    have hlog : 2 ^ Nat.log2 count = count := two_pow_log2 (by simpa using hpower)
    have hstop : frames.start.number + count = frames.stop.number := by omega
    refine ⟨hle, rfl, fun n ↦ ?_, fun n ↦ ?_⟩
    · simp only [LLFree.put, hlog, hstop, Bool.or_eq_true, Bool.and_eq_true, decide_eq_true_eq,
        InRange]
    · simp only [Bool.and_eq_true, Bool.not_eq_true', Bool.and_eq_false_imp, decide_eq_true_eq,
        decide_eq_false_iff_not, not_and, InRange]

/-- No frame with the property is in the hands of the allocator or was returned by it. -/
structure Avoids (H : Nat → Prop) (s : State) : Prop where
  serves : ∀ n, H n → ¬ Serves s n
  returned : ∀ frames ∈ s.returned, ∀ n, InRange frames n → ¬ H n

/-- An allocator that has handed out nothing avoids the frames that it does not have. -/
theorem avoids_of_not_free {a : LLFree} (h : ∀ n, H n → a.free n ≠ true) :
    Avoids H ⟨a, fun _ ↦ false, []⟩ := by
  refine ⟨?_, List.forall_mem_nil _⟩
  rintro n hH (hserved | hserved)
  · exact h n hH hserved
  · cases hserved

private theorem avoids_alloc (h : Avoids H s) (hstep : step s (.alloc frameCount frame) = .ok s') :
    Avoids H s' := by
  obtain ⟨frames, -, hreturned, -, hfree, hafter, hout⟩ := step_alloc hstep
  have hnew : ∀ n, InRange frames n → ¬ H n := fun n hn hH ↦ h.serves n hH (.inl (hfree n hn))
  constructor
  · rintro n hH (hserved | hserved)
    · exact h.serves n hH (.inl ((hafter n).mp hserved).1)
    · rcases (hout n).mp hserved with hserved | hserved
      · exact h.serves n hH (.inr hserved)
      · exact hnew n hserved hH
  · rw [hreturned]
    exact forall_mem_push h.returned hnew

private theorem avoids_free (h : Avoids H s) (hstep : step s (.free frames) = .ok s')
    (hproper : Proper s (.free frames) s') : Avoids H s' := by
  obtain ⟨-, hreturned, hafter, hout⟩ := step_free hstep
  refine ⟨?_, hreturned ▸ h.returned⟩
  rintro n hH (hserved | hserved)
  · rcases (hafter n).mp hserved with hserved | hserved
    · exact h.serves n hH (.inl hserved)
    · exact h.serves n hH (.inr (hproper n hserved.1 hserved.2))
  · exact h.serves n hH (.inr ((hout n).mp hserved).1)

/-- Frames that the allocator never had are never returned. -/
theorem Avoids.run {events : List Event} (h : Avoids H s)
    (hproper : Along step Proper s events) (hrun : events.foldlM step s = .ok s') :
    Avoids H s' := by
  refine hproper.invariant hrun h ?_
  intro s e s' h hstep hp
  cases e with
  | alloc frameCount frame => exact avoids_alloc h hstep
  | free frames => exact avoids_free h hstep hp

end

/-- `mark_reserved` requests aligned chunks that follow one another over the frames it is given.
After `finalize` exactly the frames of the reserved regions are taken, and none of them is ever
returned. -/
theorem reserves_exactly (maxOrder : Nat) :
    (∀ (a : LLFree) (current remaining : Nat),
      markReserved maxOrder a current remaining = (requests maxOrder current remaining).foldlM
        (fun a c ↦ Prod.snd <$> allocInternal a c.1 c.2) a ∧
      (∀ c ∈ requests maxOrder current remaining, c.2 ≤ maxOrder ∧ 2 ^ c.2 ∣ c.1) ∧
      (requests maxOrder current remaining).flatMap (fun c ↦ List.range' c.1 (2 ^ c.2)) =
        List.range' current remaining) ∧
    ∀ (mode : Overflow) (regions : List Region) (a : LLFree),
      Yields (reserveAll maxOrder mode regions a) (fun a' ↦
        (∀ n, a'.free n = true ↔ a.free n = true ∧ ∀ r ∈ regions, ¬ Within n r) ∧
        ∀ (events : List Event) (s : State), Along step Proper ⟨a', fun _ ↦ false, []⟩ events →
          events.foldlM step ⟨a', fun _ ↦ false, []⟩ = .ok s →
            ∀ frames ∈ s.returned, ∀ n, InRange frames n → ∀ r ∈ regions, ¬ Within n r)
        fun _ ↦ True := by
  refine ⟨fun a _ _ ↦ ⟨markReserved_eq a, requests_aligned, requests_cover⟩, ?_⟩
  intro mode regions a
  refine yields_of_eq (fun a' ha' ↦ ?_) fun _ _ ↦ trivial
  have hfree := reserveAll_free ha'
  refine ⟨hfree, fun events s hproper hrun frames hframes n hn r hr hwithin ↦ ?_⟩
  have hreserved : ∀ n, (∃ r ∈ regions, Within n r) → a'.free n ≠ true := by
    rintro n ⟨r, hr, hwithin⟩ hn
    exact ((hfree n).mp hn).2 r hr hwithin
  have havoids := (avoids_of_not_free hreserved).run hproper hrun
  exact havoids.returned frames hframes n hn ⟨r, hr, hwithin⟩

end FramesLf

end D3OS.Memory
