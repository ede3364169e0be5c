import D3OS.Memory.FramesLf

/-!
# The counter of free frames

`FREE_FRAMES` of `os/kernel/src/memory/mod.rs` is kept next to the frame allocator: `alloc_frames`
subtracts the number of frames that was asked for, `free_frames` adds the number of frames that
come back. The lock-free allocator rounds a request up, and nothing tells the counter how many
frames there are to begin with.
-/

namespace D3OS.Memory

open Lib

namespace FramesLf

/-- The allocator and `FREE_FRAMES`, `mod.rs:41`. -/
structure Counted where
  state : State
  freeFrames : Nat

namespace Counted

/-- Before the first call. The counter is 0 then: nothing calls `init_total_free_frames`. -/
def start (initial : Nat) (a : LLFree) : Counted := ⟨⟨a, fun _ ↦ false, []⟩, initial⟩

/-- `alloc_frames`, `mod.rs:66`, and `free_frames`, `mod.rs:73`; the atomic operations wrap. -/
def step (c : Counted) (e : Event) : Except Panic Counted := do
  let freeFrames := match e with
    | .alloc frameCount _ => (c.freeFrames + 2 ^ 64 - frameCount % 2 ^ 64) % 2 ^ 64
    | .free frames => (c.freeFrames + (frames.stop.number - frames.start.number)) % 2 ^ 64
  let state ← FramesLf.step c.state e
  .ok ⟨state, freeFrames⟩

end Counted

/-- The free frames below a bound. -/
def freeBelow (bound : Nat) (a : LLFree) : Finset Nat :=
  (Finset.range bound).filter fun n ↦ a.free n = true

/-- By how much the allocator rounds the requests of a run up. -/
def roundedUp : List Event → Nat
  | [] => 0
  | .alloc frameCount _ :: events =>
    (nextPowerOfTwo frameCount).val - frameCount + roundedUp events
  | .free _ :: events => roundedUp events

/-- The frames of the allocator are below the bound, and those handed out are not free. -/
structure Bounded (bound : Nat) (s : State) : Prop where
  free_lt : ∀ n, s.allocator.free n = true → n < bound
  out_lt : ∀ n, s.handedOut n = true → n < bound
  apart : ∀ n, s.handedOut n = true → ¬ s.allocator.free n = true

variable {bound : Nat} {s s' : State} {c c' : Counted} {a : LLFree} {events : List Event}
  {frames : PhysFrameRange}

private theorem mem_freeBelow (h : Bounded bound s) {n : Nat} :
    n ∈ freeBelow bound s.allocator ↔ s.allocator.free n = true := by
  rw [freeBelow, Finset.mem_filter, Finset.mem_range]
  exact and_iff_right_of_imp (h.free_lt n)

private theorem card_step (h : Bounded bound s) {e : Event} (hstep : step s e = .ok s')
    (hproper : Proper s e s') : Bounded bound s' ∧
      match e with
      | .alloc frameCount _ => (nextPowerOfTwo frameCount).val < 2 ^ 64 ∧
        (freeBelow bound s.allocator).card =
          (freeBelow bound s'.allocator).card + (nextPowerOfTwo frameCount).val
      | .free frames => (freeBelow bound s'.allocator).card =
          (freeBelow bound s.allocator).card + (frames.stop.number - frames.start.number) := by
  cases e with
  | alloc frameCount frame =>
    obtain ⟨frames, hlt, -, hrange, hfree, hafter, hout⟩ := step_alloc hstep
    have h' : Bounded bound s' := by
      refine ⟨fun n hn ↦ h.free_lt n ((hafter n).mp hn).1, fun n hn ↦ ?_, fun n hn hn' ↦ ?_⟩
      · rcases (hout n).mp hn with hn | hn
        · exact h.out_lt n hn
        · exact h.free_lt n (hfree n hn)
      · obtain ⟨hn', hrange'⟩ := (hafter n).mp hn'
        exact ((hout n).mp hn).elim (fun hn ↦ h.apart n hn hn') hrange'
    refine ⟨h', hlt, ?_⟩
    have hsub : Finset.Ico frame (frame + (nextPowerOfTwo frameCount).val) ⊆
        freeBelow bound s.allocator := fun n hn ↦
      (mem_freeBelow h).mpr (hfree n ((hrange n).mpr (Finset.mem_Ico.mp hn)))
    have heq : freeBelow bound s'.allocator = freeBelow bound s.allocator \
        Finset.Ico frame (frame + (nextPowerOfTwo frameCount).val) := by
      ext n
      rw [Finset.mem_sdiff, mem_freeBelow h, mem_freeBelow h', hafter, hrange, Finset.mem_Ico]
    have hcard := Finset.card_sdiff_add_card_eq_card hsub
    rw [Nat.card_Ico, Nat.add_sub_cancel_left] at hcard
    rw [heq, hcard]
  | free frames =>
    obtain ⟨-, -, hafter, hout⟩ := step_free hstep
    have h' : Bounded bound s' := by
      refine ⟨fun n hn ↦ ?_, fun n hn ↦ h.out_lt n ((hout n).mp hn).1, fun n hn hn' ↦ ?_⟩
      · rcases (hafter n).mp hn with hn | hn
        · exact h.free_lt n hn
        · exact h.out_lt n (hproper n hn.1 hn.2)
      · obtain ⟨hn, hrange'⟩ := (hout n).mp hn
        exact ((hafter n).mp hn').elim (h.apart n hn) hrange'
    refine ⟨h', ?_⟩
    have hdisjoint : Disjoint (freeBelow bound s.allocator)
        (Finset.Ico frames.start.number frames.stop.number) := by
      refine Finset.disjoint_left.mpr fun n hn hn' ↦ ?_
      obtain ⟨hle, hlt⟩ := Finset.mem_Ico.mp hn'
      exact h.apart n (hproper n hle hlt) ((mem_freeBelow h).mp hn)
    have heq : freeBelow bound s'.allocator = freeBelow bound s.allocator ∪
        Finset.Ico frames.start.number frames.stop.number := by
      ext n
      rw [Finset.mem_union, mem_freeBelow h, mem_freeBelow h', hafter, Finset.mem_Ico]
      rfl
    rw [heq, Finset.card_union_of_disjoint hdisjoint, Nat.card_Ico]

private theorem counter_run (total off : Nat) (h : Bounded bound c.state)
    (hcounter : c.freeFrames < 2 ^ 64 ∧ (c.freeFrames + total) % 2 ^ 64 =
      ((freeBelow bound c.state.allocator).card + off) % 2 ^ 64)
    (hproper : Along Counted.step (fun c e c' ↦ Proper c.state e c'.state) c events)
    (hrun : events.foldlM Counted.step c = .ok c') :
    c'.freeFrames < 2 ^ 64 ∧ (c'.freeFrames + total) % 2 ^ 64 =
      ((freeBelow bound c'.state.allocator).card + (off + roundedUp events)) % 2 ^ 64 := by
  induction events generalizing c off with
  | nil =>
    cases hrun
    exact hcounter
  | cons e events ih =>
    obtain ⟨c₁, hstep, hrun⟩ := of_bind hrun
    rw [Along, hstep] at hproper
    obtain ⟨state, hstate, hc₁⟩ := of_bind hstep
    cases hc₁
    obtain ⟨h', hcard⟩ := card_step h hstate hproper.1
    cases e with
    | alloc frameCount frame =>
      have hle := le_nextPowerOfTwo frameCount
      rw [roundedUp, ← Nat.add_assoc off]
      refine ih _ h' ⟨Nat.mod_lt _ (by decide), ?_⟩ hproper.2 hrun
      dsimp only at hcard ⊢
      omega
    | free frames =>
      refine ih _ h' ⟨Nat.mod_lt _ (by decide), ?_⟩ hproper.2 hrun
      dsimp only at hcard ⊢
      omega

/-- In every run, the counter agrees with the number of free frames exactly if its initial value
and all that was rounded up make up for the frames that were free at the start. -/
theorem freeFrames_exact_iff {initial : Nat} (hinitial : initial < 2 ^ 64)
    (hbound : ∀ n, a.free n = true → n < bound)
    (hproper : Along Counted.step (fun c e c' ↦ Proper c.state e c'.state) (.start initial a)
      events)
    (hrun : events.foldlM Counted.step (.start initial a) = .ok c) :
    c.freeFrames = (freeBelow bound c.state.allocator).card % 2 ^ 64 ↔
      (initial + roundedUp events) % 2 ^ 64 = (freeBelow bound a).card % 2 ^ 64 := by
  have hstart : Bounded bound (Counted.start initial a).state := ⟨hbound, nofun, nofun⟩
  obtain ⟨hlt, hoff⟩ := counter_run (freeBelow bound a).card initial hstart
    ⟨hinitial, by rw [Nat.add_comm]; rfl⟩ hproper hrun
  omega

/-- Three of four frames are asked for again and again. -/
def threeOfFour : List Event :=
  let frames : PhysFrameRange := ⟨.zero, ⟨4, by decide⟩⟩
  [.alloc 3 0, .free frames, .alloc 3 0, .free frames, .alloc 3 0, .free frames, .alloc 3 0]

/-- The fourth request makes up for the four frames that the counter did not know of. -/
theorem freeFrames_exact_once : ∃ c, threeOfFour.foldlM Counted.step (.start 0 (.new 4)) = .ok c ∧
    c.freeFrames = (freeBelow 4 c.state.allocator).card % 2 ^ 64 := by
  have hrun : threeOfFour.foldlM Counted.step (.start 0 (.new 4)) = .ok _ := rfl
  have hproper : Along Counted.step (fun c e c' ↦ Proper c.state e c'.state) (.start 0 (.new 4))
      threeOfFour := by
    refine ⟨trivial, ?_, trivial, ?_, trivial, ?_, trivial, trivial⟩ <;>
      intro n _ (hn : n < 4) <;> interval_cases n <;> rfl
  exact ⟨_, hrun, (freeFrames_exact_iff (by decide) (fun n hn ↦ of_decide_eq_true hn) hproper
    hrun).mpr (by decide)⟩

/-- With four frames, the counter wraps at the first request for two. -/
theorem freeFrames_wraps : ∃ c, [Event.alloc 2 0].foldlM Counted.step (.start 0 (.new 4)) = .ok c ∧
    c.freeFrames = 2 ^ 64 - 2 ∧ (freeBelow 4 c.state.allocator).card = 2 :=
  ⟨_, rfl, by decide, by decide⟩

end FramesLf

end D3OS.Memory
