import D3OS.Base.Rust

/-!
# The loss tracker of netperf

`os/application/netperf/src/stats.rs:512-592`. The loss in percent is left out: it is computed
from the figures here, and none of them from it.
-/

namespace D3OS.Netperf

structure UdpLossTracker where
  totalReceived : Nat
  highestSeq : Nat
  initialized : Bool
  prevTotalReceived : Nat
  prevHighestSeq : Nat

/-- A packet comes in, or an interval is read and reset, `stats.rs:493-494`. -/
inductive Event where
  | packet (seq : UInt64)
  | interval

/-- The sequence numbers that come in. -/
def seqs : List Event → List Nat
  | [] => []
  | .packet seq :: rest => seq.toNat :: seqs rest
  | .interval :: rest => seqs rest

namespace UdpLossTracker

def new : UdpLossTracker := ⟨0, 0, false, 0, 0⟩

def trackPacket (t : UdpLossTracker) (seq : UInt64) : Except Panic UdpLossTracker := do
  let t := { t with totalReceived := ← addOrPanic t.totalReceived 1 }
  if !t.initialized then
    .ok { t with initialized := true, highestSeq := seq.toNat, prevHighestSeq := seq.toNat - 1 }
  else if t.highestSeq < seq.toNat then .ok { t with highestSeq := seq.toNat }
  else .ok t

/-- `interval_loss`: the packets received, expected and lost. -/
def intervalLoss (t : UdpLossTracker) : Except Panic (Nat × Nat × Nat) :=
  if !t.initialized then .ok (0, 0, 0)
  else do
    let deltaReceived ← subOrPanic t.totalReceived t.prevTotalReceived
    let deltaExpected ← subOrPanic t.highestSeq t.prevHighestSeq
    .ok (deltaReceived, deltaExpected, deltaExpected - deltaReceived)

def intervalReset (t : UdpLossTracker) : UdpLossTracker :=
  { t with prevTotalReceived := t.totalReceived, prevHighestSeq := t.highestSeq }

def overallLoss (t : UdpLossTracker) : Except Panic (Nat × Nat × Nat) :=
  if !t.initialized then .ok (0, 0, 0)
  else do
    let exp ← addOrPanic t.highestSeq 1
    .ok (t.totalReceived, exp, exp - t.totalReceived)

/-- Events up to the end of the last interval: the sums of the packets received and expected in the
intervals, then the overall figures. -/
def run (t : UdpLossTracker) : List Event → Except Panic (Nat × Nat × Nat × Nat)
  | [] => do
    let (received, expected, _) ← t.intervalLoss
    let (total, exp, _) ← t.overallLoss
    .ok (received, expected, total, exp)
  | .packet seq :: rest => do (← t.trackPacket seq).run rest
  | .interval :: rest => do
    let (received, expected, _) ← t.intervalLoss
    let (received', expected', overall) ← t.intervalReset.run rest
    .ok (received + received', expected + expected', overall)

variable {t : UdpLossTracker}

private theorem trackPacket_eq (hinit : t.initialized = true) (seq : UInt64) : t.trackPacket seq =
    if t.totalReceived + 1 < 2 ^ 64 then .ok { t with
      totalReceived := t.totalReceived + 1, highestSeq := max t.highestSeq seq.toNat }
    else .error .overflow := by
  rw [trackPacket, addOrPanic, u64Bound]
  split
  next =>
    rw [max_def']
    simp only [bind, Except.bind, hinit]
    split_ifs <;> grind
  next => rfl

private theorem intervalLoss_eq (hinit : t.initialized = true)
    (hreceived : t.prevTotalReceived ≤ t.totalReceived)
    (hexpected : t.prevHighestSeq ≤ t.highestSeq) :
    ∃ lost, t.intervalLoss = .ok
      (t.totalReceived - t.prevTotalReceived, t.highestSeq - t.prevHighestSeq, lost) := by
  rw [intervalLoss, hinit, subOrPanic_of_le hreceived, subOrPanic_of_le hexpected]
  exact ⟨_, rfl⟩

private theorem le_foldl_max (n : Nat) (l : List Nat) : n ≤ l.foldl max n :=
  List.foldlRecOn (motive := (n ≤ ·)) _ _ (Nat.le_refl n)
    fun _ h _ _ ↦ h.trans (Nat.le_max_left _ _)

private theorem run_eq {events : List Event} {total top : Nat} (hinit : t.initialized = true)
    (hlt : t.totalReceived < 2 ^ 64) (hreceived : t.prevTotalReceived ≤ t.totalReceived)
    (hexpected : t.prevHighestSeq ≤ t.highestSeq)
    (htotal : t.totalReceived + (seqs events).length = total)
    (htop : (seqs events).foldl max t.highestSeq = top) :
    t.run events = if total < 2 ^ 64 ∧ top + 1 < 2 ^ 64 then
      .ok (total - t.prevTotalReceived, top - t.prevHighestSeq, total, top + 1)
    else .error .overflow := by
  induction events generalizing t with
  | nil =>
    obtain ⟨lost, hloss⟩ := intervalLoss_eq hinit hreceived hexpected
    cases htotal
    cases htop
    rw [run, hloss, overallLoss, if_neg (by rw [hinit]; decide), addOrPanic, u64Bound]
    simp only [seqs, List.length_nil, Nat.add_zero, hlt, true_and, List.foldl_nil]
    split <;> rfl
  | cons event rest ih =>
    cases event with
    | packet seq =>
      have htotal' : t.totalReceived + 1 + (seqs rest).length = total :=
        (Nat.succ_add_eq_add_succ _ _).trans htotal
      rw [run, trackPacket_eq hinit]
      split
      next hlt' =>
        exact ih (t := { t with totalReceived := _, highestSeq := _ }) hinit hlt'
          (Nat.le_succ_of_le hreceived) (hexpected.trans (Nat.le_max_left _ _)) htotal' htop
      next hover => exact (if_neg (by omega)).symm
    | interval =>
      obtain ⟨lost, hloss⟩ := intervalLoss_eq hinit hreceived hexpected
      have hle : t.totalReceived ≤ total := htotal ▸ Nat.le_add_right _ _
      have hle' : t.highestSeq ≤ top := htop ▸ le_foldl_max _ _
      rw [run, hloss]
      show (t.intervalReset.run rest >>= _) = _
      rw [ih (t := t.intervalReset) hinit hlt (Nat.le_refl _) (Nat.le_refl _) htotal htop]
      split
      next =>
        refine congrArg Except.ok (Prod.ext ?_ (Prod.ext ?_ rfl)) <;>
          dsimp only [intervalReset] <;> omega
      next => rfl

end UdpLossTracker

/-- A run that starts with a packet. -/
def measure (first : UInt64) (events : List Event) : Except Panic (Nat × Nat × Nat × Nat) := do
  (← UdpLossTracker.new.trackPacket first).run events

/-- The highest sequence number that came in. -/
def highest (first : UInt64) (events : List Event) : Nat := (seqs events).foldl max first.toNat

/-- The mark before a first packet with the number 0 would have to be -1. -/
theorem intervals_sum_iff (first : UInt64) (events : List Event) :
    (∃ received expected exp, measure first events = .ok (received, expected, received, exp) ∧
      expected = highest first events - first.toNat + 1 ∧ expected + first.toNat = exp) ↔
    first ≠ 0 ∧ (seqs events).length + 1 < 2 ^ 64 ∧ highest first events + 1 < 2 ^ 64 := by
  have hle : first.toNat ≤ highest first events := UdpLossTracker.le_foldl_max _ _
  have heq : measure first events = _ :=
    UdpLossTracker.run_eq (t := ⟨1, first.toNat, true, 0, first.toNat - 1⟩) rfl
      (show 1 < 2 ^ 64 by decide) (Nat.zero_le 1) (Nat.sub_le _ 1)
      (Nat.add_comm 1 (seqs events).length) (show _ = highest first events from rfl)
  rw [heq, ne_eq, ← UInt64.toNat_inj, UInt64.toNat_zero]
  dsimp only
  split
  next hfits =>
    constructor
    · rintro ⟨received, expected, exp, h, hexpected, -⟩
      cases h
      exact ⟨by omega, hfits⟩
    · rintro ⟨hne, -⟩
      exact ⟨_, _, _, rfl, by omega, by omega⟩
  next hnot => exact iff_of_false (by rintro ⟨_, _, _, ⟨⟩, _⟩) fun h ↦ hnot h.2

/-- One packet with the number 0: none was expected. -/
theorem first_packet_not_expected :
    measure 0 [] = .ok (1, 0, 1, 1) ∧ 0 ≠ highest 0 [] - 0 + 1 := by
  decide

end D3OS.Netperf
