import D3OS.Lib.Runs

/-!
# Transmission of packets

`TxToken::consume` and the transmit part of the interrupt handler of
`os/kernel/src/device/rtl8139.rs`, for calls by any threads. A call allocates a frame for its
packet, queues it for release, writes the packet, takes a transmit descriptor and hands the packet
to the card. The card sends it later, sets the `OWN` bit of the descriptor and raises `TRANSMIT_OK`.
The handler releases every frame that is in the queue.
-/

namespace D3OS.Rtl8139

open Lib

/-- How far the call for a packet has come, and then the card. -/
inductive Phase where
  /-- The frame is allocated. -/
  | allocated
  /-- The frame is in the queue for release. -/
  | queued
  /-- The packet is in the frame. -/
  | written
  /-- The call has the index of a descriptor. -/
  | indexed (i : Nat)
  /-- The call has locked the descriptor and waits until it is available. -/
  | locked (i : Nat)
  /-- The call has seen that the descriptor is available. -/
  | available (i : Nat)
  /-- The address of the frame is in the descriptor. -/
  | addressed (i : Nat)
  /-- The status is written: the call has returned, the card sends the packet. -/
  | sending (i : Nat)
  /-- The card has finished. -/
  | sent
  deriving DecidableEq, Repr

namespace Phase

/-- The call holds the lock of a descriptor. -/
def Holds (i : Nat) : Phase → Prop
  | locked j | available j | addressed j => j = i
  | _ => False

/-- The call has found a descriptor available and has not handed its packet over yet. -/
def Claims (i : Nat) : Phase → Prop
  | available j | addressed j => j = i
  | _ => False

/-- The packet is in a descriptor. -/
def Occupies (i : Nat) : Phase → Prop
  | addressed j | sending j => j = i
  | _ => False

/-- The call has queued its frame and not handed its packet over yet. -/
def inProgress : Phase → Bool
  | queued | written | indexed _ | locked _ | available _ | addressed _ => true
  | _ => false

/-- The descriptor that a phase names. -/
def index : Phase → Option Nat
  | indexed i | locked i | available i | addressed i | sending i => some i
  | _ => none

private theorem Claims.holds {i : Nat} {phase : Phase} (h : phase.Claims i) : phase.Holds i := by
  cases phase <;> first | exact h | exact h.elim

end Phase

/-- The calls of `consume` so far with how often the frame of each was released, the queue of
frames, the counter of descriptors, the locks and `OWN` bits of the descriptors, the `TRANSMIT_OK`
bit of the interrupt status, and whether the handler is at its loop over the queue. -/
structure Transmitter where
  calls : Nat
  phase : Nat → Phase
  freed : Nat → Nat
  sendQueue : List Nat
  transmitIndex : Nat
  locked : Nat → Bool
  own : Nat → Bool
  transmitOk : Bool
  draining : Bool

/-- A step of a call, of the card or of the handler. -/
inductive Event where
  /-- A call begins and allocates its frame. -/
  | alloc
  /-- The next step of a call. -/
  | consume (call : Nat)
  /-- The card finishes the packet of a descriptor. -/
  | complete (i : Nat)
  /-- The handler reads and clears the interrupt status; `locked` says whether the lock of the frame
  allocator is held then. -/
  | interrupt (locked : Bool)
  /-- The next round of the loop of the handler. -/
  | drain
  deriving DecidableEq, Repr

namespace Transmitter

/-- All descriptors are available and no packet was sent yet. -/
def new : Transmitter :=
  ⟨0, fun _ ↦ .allocated, fun _ ↦ 0, [], 0, fun _ ↦ false, fun _ ↦ true, false, false⟩

/-- A call goes on. -/
def advance (call : Nat) (phase : Phase) (t : Transmitter) : Transmitter :=
  { t with phase := Function.update t.phase call phase }

/-- The next step of `consume`, `rtl8139.rs:238`. -/
def consume (call : Nat) (t : Transmitter) : Transmitter :=
  match t.phase call with
  | .allocated => { t.advance call .queued with sendQueue := t.sendQueue ++ [call] }
  | .queued => t.advance call .written
  | .written =>
    -- `next_transmit_descriptor`, `rtl8139.rs:471`, on a counter of eight bits
    { t.advance call (.indexed (t.transmitIndex % 4)) with
      transmitIndex := (t.transmitIndex + 1) % 256 }
  | .indexed i =>
    if t.locked i then t
    else { t.advance call (.locked i) with locked := Function.update t.locked i true }
  | .locked i => if t.own i then t.advance call (.available i) else t
  | .available i => t.advance call (.addressed i)
  | .addressed i =>
    { t.advance call (.sending i) with
      locked := Function.update t.locked i false
      own := Function.update t.own i false }
  | .sending _ => t
  | .sent => t

/-- The card finishes the packet of a descriptor. -/
def complete (i : Nat) (t : Transmitter) : Transmitter :=
  if t.own i then t
  else
    { t with
      phase := fun call ↦ if t.phase call = .sending i then .sent else t.phase call
      own := Function.update t.own i true
      transmitOk := true }

/-- The handler up to its loop, `rtl8139.rs:334`. -/
def interrupt (locked : Bool) (t : Transmitter) : Transmitter :=
  if t.transmitOk ∧ ¬ t.draining then { t with transmitOk := false, draining := ¬ locked } else t

/-- One round of the loop of the handler, `rtl8139.rs:361`. -/
def drain (t : Transmitter) : Transmitter :=
  if t.draining then
    match t.sendQueue with
    | [] => { t with draining := false }
    | call :: rest =>
      { t with sendQueue := rest, freed := Function.update t.freed call (t.freed call + 1) }
  else t

/-- An event. -/
def step (t : Transmitter) : Event → Transmitter
  | .alloc => { t with calls := t.calls + 1 }
  | .consume call => if call < t.calls then t.consume call else t
  | .complete i => t.complete i
  | .interrupt locked => t.interrupt locked
  | .drain => t.drain

/-- A run. -/
def run (t : Transmitter) (events : List Event) : Transmitter := events.foldl step t

end Transmitter

namespace Phase

/-- What the lock and the `OWN` bit of its descriptor say in a phase. -/
structure Fits (locked own : Nat → Bool) (phase : Phase) : Prop where
  lock : ∀ i, phase.Holds i → locked i = true
  ready : ∀ i, phase.Claims i → own i = true
  busy : ∀ i, phase = .sending i → own i = false
  index : ∀ i, phase.index = some i → i < 4

/-- Two calls in these phases neither hold one lock nor send from one descriptor. -/
structure Apart (p q : Phase) : Prop where
  hold : ∀ i, p.Holds i → ¬ q.Holds i
  send : ∀ i, p = .sending i → q ≠ .sending i

private theorem Apart.symm {p q : Phase} (h : p.Apart q) : q.Apart p :=
  ⟨fun i hq hp ↦ h.hold i hp hq, fun i hq hp ↦ h.send i hp hq⟩

private theorem apart_of_idle {p q : Phase} (hholds : ∀ i, ¬ p.Holds i)
    (hsend : ∀ i, p ≠ .sending i) :
    p.Apart q :=
  ⟨fun i hi ↦ absurd hi (hholds i), fun i hi ↦ absurd hi (hsend i)⟩

end Phase

/-- Locks, `OWN` bits and the phases of all calls agree. -/
structure Descriptors (locked own : Nat → Bool) (phase : Nat → Phase) : Prop where
  fits : ∀ c, (phase c).Fits locked own
  apart : ∀ c c', c ≠ c' → (phase c).Apart (phase c')

namespace Descriptors

variable {locked own locked' own' : Nat → Bool} {phase : Nat → Phase} {c i : Nat} {new : Phase}

variable (h : Descriptors locked own phase)
include h

private theorem update
    (hothers : ∀ c', c' ≠ c → (phase c').Fits locked' own') (hnew : new.Fits locked' own')
    (hapart : ∀ c', c' ≠ c → new.Apart (phase c')) :
    Descriptors locked' own' (Function.update phase c new) := by
  constructor
  case fits =>
    intro c'
    rw [Function.update_apply]
    split
    · exact hnew
    next hne => exact hothers c' hne
  case apart =>
    intro c₁ c₂ hne
    rw [Function.update_apply, Function.update_apply]
    split <;> split
    next h₁ h₂ => exact absurd (h₁.trans h₂.symm) hne
    next h₁ h₂ => exact hapart c₂ h₂
    next h₁ h₂ => exact (hapart c₁ h₁).symm
    · exact h.apart c₁ c₂ hne

private theorem advance (hholds : ∀ i, ¬ new.Holds i)
    (hsend : ∀ i, new ≠ .sending i) (hindex : ∀ i, new.index = some i → i < 4) :
    Descriptors locked own (Function.update phase c new) := by
  apply h.update (fun c' _ ↦ h.fits c')
  · exact ⟨fun i hi ↦ absurd hi (hholds i), fun i hi ↦ absurd hi.holds (hholds i),
      fun i hi ↦ absurd hi (hsend i), hindex⟩
  · exact fun c' _ ↦ Phase.apart_of_idle hholds hsend

private theorem claim (hphase : (phase c).Holds i)
    (hown : own i = true) (hnew : new = .available i ∨ new = .addressed i) :
    Descriptors locked own (Function.update phase c new) := by
  have hindex : i < 4 := by
    apply (h.fits c).index
    cases hp : phase c <;> rw [hp] at hphase <;> cases hphase <;> rfl
  have hlock : locked i = true := (h.fits c).lock i hphase
  have hother (c' : Nat) (hne : c' ≠ c) : ¬ (phase c').Holds i :=
    (h.apart c c' hne.symm).hold i hphase
  apply h.update (fun c' _ ↦ h.fits c')
  · rcases hnew with rfl | rfl <;>
      exact ⟨fun j hj ↦ hj ▸ hlock, fun j hj ↦ hj ▸ hown, nofun,
        fun j hj ↦ by cases hj; exact hindex⟩
  · intro c' hne
    rcases hnew with rfl | rfl <;> exact ⟨fun j hj ↦ hj ▸ hother c' hne, nofun⟩

private theorem lockDescriptor (hphase : phase c = .indexed i) (hfree : locked i = false) :
    Descriptors (Function.update locked i true) own (Function.update phase c (.locked i)) := by
  have hindex : i < 4 := (h.fits c).index i (by rw [hphase]; rfl)
  have hother (c' : Nat) : ¬ (phase c').Holds i := by
    intro hi
    rw [(h.fits c').lock i hi] at hfree
    exact absurd hfree Bool.noConfusion
  apply h.update
  · intro c' _
    refine ⟨fun j hj ↦ ?_, (h.fits c').ready, (h.fits c').busy, (h.fits c').index⟩
    have hji : j ≠ i := by
      rintro rfl
      exact hother c' hj
    rw [Function.update_of_ne hji]
    exact (h.fits c').lock j hj
  · refine ⟨fun j hj ↦ ?_, nofun, nofun, fun j hj ↦ ?_⟩
    · cases hj
      exact Function.update_self i true locked
    · cases hj
      exact hindex
  · exact fun c' _ ↦ ⟨fun j hj ↦ hj ▸ hother c', nofun⟩

private theorem send (hphase : phase c = .addressed i) :
    Descriptors (Function.update locked i false) (Function.update own i false)
      (Function.update phase c (.sending i)) := by
  have hindex : i < 4 := (h.fits c).index i (by rw [hphase]; rfl)
  have hown : own i = true := (h.fits c).ready i (by rw [hphase]; rfl)
  have hother {c' j : Nat} (hne : c' ≠ c) (hj : (phase c').Holds j) : j ≠ i := by
    rintro rfl
    exact (h.apart c' c hne).hold j hj (by rw [hphase]; rfl)
  have hidle (c' : Nat) : phase c' ≠ .sending i := by
    intro hi
    rw [(h.fits c').busy i hi] at hown
    exact absurd hown Bool.noConfusion
  apply h.update
  · intro c' hne
    refine ⟨fun j hj ↦ ?_, fun j hj ↦ ?_, fun j hj ↦ ?_, (h.fits c').index⟩
    · rw [Function.update_of_ne (hother hne hj)]
      exact (h.fits c').lock j hj
    · rw [Function.update_of_ne (hother hne hj.holds)]
      exact (h.fits c').ready j hj
    · have hji : j ≠ i := by
        rintro rfl
        exact hidle c' hj
      rw [Function.update_of_ne hji]
      exact (h.fits c').busy j hj
  · refine ⟨nofun, nofun, fun j hj ↦ ?_, fun j hj ↦ ?_⟩
    · cases hj
      exact Function.update_self i false own
    · cases hj
      exact hindex
  · intro c' _
    refine ⟨nofun, fun j hj ↦ ?_⟩
    cases hj
    exact hidle c'

private theorem complete (i : Nat) :
    Descriptors locked (Function.update own i true)
      (fun c ↦ if phase c = .sending i then .sent else phase c) := by
  have hsent {q : Phase} : Phase.sent.Apart q := Phase.apart_of_idle (fun _ ↦ id) nofun
  constructor
  case fits =>
    intro c
    split
    · exact ⟨nofun, nofun, nofun, nofun⟩
    next hne =>
      refine ⟨(h.fits c).lock, fun j hj ↦ ?_, fun j hj ↦ ?_, (h.fits c).index⟩
      · rw [Function.update_apply]
        split
        · rfl
        · exact (h.fits c).ready j hj
      · have hji : j ≠ i := by
          rintro rfl
          exact hne hj
        rw [Function.update_of_ne hji]
        exact (h.fits c).busy j hj
  case apart =>
    intro c₁ c₂ hne
    split
    · exact hsent
    · split
      · exact hsent.symm
      · exact h.apart c₁ c₂ hne

private theorem alone {c c' i : Nat} (hc : (phase c).Occupies i)
    (hc' : (phase c').Occupies i) : c = c' := by
  apply Classical.byContradiction
  intro hne
  have hapart := h.apart c c' hne
  have hfits := h.fits c
  have hfits' := h.fits c'
  cases hp : phase c <;> rw [hp] at hc hapart hfits <;> cases hc <;>
    cases hq : phase c' <;> rw [hq] at hc' hapart hfits' <;> cases hc'
  case addressed.refl.addressed.refl => exact hapart.hold i rfl rfl
  case sending.refl.sending.refl => exact hapart.send i rfl rfl
  -- the `OWN` bit of a claimed descriptor is set, that of a sending one is not
  case addressed.refl.sending.refl =>
    exact absurd ((hfits.ready i rfl).symm.trans (hfits'.busy i rfl)) Bool.noConfusion
  case sending.refl.addressed.refl =>
    exact absurd ((hfits'.ready i rfl).symm.trans (hfits.busy i rfl)) Bool.noConfusion

end Descriptors

namespace Transmitter

/-- What holds in every state of every run: the queue has the frames of the calls that have queued
theirs and had it not released, and each frame is released at most once. -/
structure Consistent (t : Transmitter) : Prop where
  descriptors : Descriptors t.locked t.own t.phase
  begun : ∀ c, t.calls ≤ c → t.phase c = .allocated
  nodup : t.sendQueue.Nodup
  queue : ∀ c, c ∈ t.sendQueue ↔ t.phase c ≠ .allocated ∧ t.freed c = 0
  freed : ∀ c, t.freed c ≤ 1
  unqueued : ∀ c, t.phase c = .allocated → t.freed c = 0

/-- What a step of a call can do: nothing, or the call goes on to a phase in which its frame is
queued and its packet not sent. -/
inductive Goes (t : Transmitter) (c : Nat) : Transmitter → Prop
  | stay : Goes t c t
  | on {old phase : Phase} {queue : List Nat} {index : Nat} {locked own : Nat → Bool}
      (hphase : t.phase c = old) (hold : old ≠ .sent) (hqueued : phase ≠ .allocated)
      (hunsent : phase ≠ .sent)
      (hqueue : queue = if old = .allocated then t.sendQueue ++ [c] else t.sendQueue)
      (hd : Descriptors locked own (Function.update t.phase c phase)) :
      Goes t c { t.advance c phase with
        sendQueue := queue, transmitIndex := index, locked := locked, own := own }

namespace Consistent

variable {t : Transmitter}

private theorem new : Consistent new where
  descriptors :=
    ⟨fun _ ↦ ⟨nofun, nofun, nofun, nofun⟩, fun _ _ _ ↦ Phase.apart_of_idle (fun _ ↦ id) nofun⟩
  begun _ _ := rfl
  nodup := List.nodup_nil
  queue c := by
    constructor
    · nofun
    · rintro ⟨h, _⟩
      exact absurd rfl h
  freed _ := Nat.zero_le 1
  unqueued _ _ := rfl

private theorem goes (h : t.Consistent) (c : Nat) : Goes t c (t.consume c) := by
  have hd := h.descriptors
  rw [Transmitter.consume]
  cases hphase : t.phase c with
  | allocated | queued =>
    exact .on hphase nofun nofun nofun rfl (hd.advance (fun _ ↦ id) nofun nofun)
  | written =>
    have hindex (i : Nat) (hi : (Phase.indexed (t.transmitIndex % 4)).index = some i) : i < 4 := by
      cases hi
      exact Nat.mod_lt _ (by decide)
    exact .on hphase nofun nofun nofun rfl (hd.advance (fun _ ↦ id) nofun hindex)
  | indexed i =>
    dsimp only
    split
    · exact .stay
    next hfree =>
      exact .on hphase nofun nofun nofun rfl
        (hd.lockDescriptor hphase ((Bool.not_eq_true _).mp hfree))
  | locked i =>
    dsimp only
    split
    next hown =>
      exact .on hphase nofun nofun nofun rfl (hd.claim (by rw [hphase]; rfl) hown (.inl rfl))
    · exact .stay
  | available i =>
    have hown : t.own i = true := (hd.fits c).ready i (by rw [hphase]; rfl)
    exact .on hphase nofun nofun nofun rfl (hd.claim (by rw [hphase]; rfl) hown (.inr rfl))
  | addressed i => exact .on hphase nofun nofun nofun rfl (hd.send hphase)
  | sending i | sent => exact .stay

variable (h : t.Consistent)
include h

private theorem consume {t' : Transmitter} {c : Nat} (hgoes : Goes t c t') (hc : c < t.calls) :
    t'.Consistent := by
  cases hgoes with
  | stay => exact h
  | @on old phase queue _ _ _ hphase hold hqueued hunsent hqueue hd =>
    have hiff (c' : Nat) : Function.update t.phase c phase c' = .allocated ↔
        c' ≠ c ∧ t.phase c' = .allocated := by
      rw [Function.update_apply]
      split
      next heq => exact iff_of_false hqueued fun h' ↦ h'.1 heq
      next hne => exact (and_iff_right hne).symm
    constructor
    case descriptors => exact hd
    case begun =>
      intro c' hc'
      refine (hiff c').mpr ⟨?_, h.begun c' hc'⟩
      rintro rfl
      exact absurd hc' (Nat.not_le.mpr hc)
    case nodup =>
      show queue.Nodup
      rw [hqueue]
      split
      next hnew =>
        rw [← List.concat_eq_append]
        exact h.nodup.concat fun hmem ↦ ((h.queue c).mp hmem).1 (hphase.trans hnew)
      · exact h.nodup
    case queue =>
      intro c'
      show c' ∈ queue ↔ ¬ Function.update t.phase c phase c' = .allocated ∧ t.freed c' = 0
      rw [hiff, hqueue]
      by_cases heq : c' = c
      · have hmem := h.queue c
        have hzero := h.unqueued c
        rw [hphase] at hmem hzero
        rw [heq]
        split
        next hnew =>
          exact iff_of_true List.mem_concat_self ⟨fun h' ↦ h'.1 rfl, hzero hnew⟩
        next hnew =>
          rw [hmem]
          exact and_congr_left fun _ ↦ iff_of_true hnew fun h' ↦ h'.1 rfl
      · rw [and_iff_right heq]
        split
        · rw [List.mem_append, List.mem_singleton, or_iff_left heq]
          exact h.queue c'
        · exact h.queue c'
    case freed => exact h.freed
    case unqueued => exact fun c' hc' ↦ h.unqueued c' ((hiff c').mp hc').2

private theorem complete (i : Nat) : (t.complete i).Consistent := by
  rw [Transmitter.complete]
  split
  · exact h
  have hphase (c : Nat) :
      (if t.phase c = .sending i then Phase.sent else t.phase c) = .allocated ↔
        t.phase c = .allocated := by
    split
    next hsending =>
      rw [hsending]
      exact iff_of_false nofun nofun
    · exact Iff.rfl
  constructor
  case descriptors => exact h.descriptors.complete i
  case begun => exact fun c hc ↦ (hphase c).mpr (h.begun c hc)
  case nodup => exact h.nodup
  case queue =>
    intro c
    rw [h.queue c]
    exact and_congr_left fun _ ↦ not_congr (hphase c).symm
  case freed => exact h.freed
  case unqueued => exact fun c hc ↦ h.unqueued c ((hphase c).mp hc)

private theorem drain : t.drain.Consistent := by
  rw [Transmitter.drain]
  split
  next =>
    split
    · exact ⟨h.descriptors, h.begun, h.nodup, h.queue, h.freed, h.unqueued⟩
    next c rest hqueue =>
      have hnodup := h.nodup
      rw [hqueue, List.nodup_cons] at hnodup
      obtain ⟨hphase, hfreed⟩ : t.phase c ≠ .allocated ∧ t.freed c = 0 :=
        (h.queue c).mp (by rw [hqueue]; exact List.mem_cons_self)
      constructor
      case descriptors => exact h.descriptors
      case begun => exact h.begun
      case nodup => exact hnodup.2
      case queue =>
        intro c'
        have hmem := h.queue c'
        rw [hqueue, List.mem_cons] at hmem
        show c' ∈ rest ↔ _ ∧ Function.update t.freed c (t.freed c + 1) c' = 0
        rw [Function.update_apply]
        split
        next heq =>
          rw [heq]
          exact iff_of_false hnodup.1 (fun hc ↦ Nat.succ_ne_zero _ hc.2)
        next hne => rw [← hmem, or_iff_right hne]
      case freed =>
        intro c'
        show Function.update t.freed c (t.freed c + 1) c' ≤ 1
        rw [Function.update_apply]
        split
        · omega
        · exact h.freed c'
      case unqueued =>
        intro c' hc'
        show Function.update t.freed c (t.freed c + 1) c' = 0
        rw [Function.update_of_ne]
        · exact h.unqueued c' hc'
        · rintro rfl
          exact hphase hc'
  · exact h

private theorem step (event : Event) : (t.step event).Consistent := by
  cases event with
  | alloc =>
    exact ⟨h.descriptors, fun c hc ↦ h.begun c (Nat.le_of_succ_le hc), h.nodup, h.queue, h.freed,
      h.unqueued⟩
  | consume c =>
    rw [Transmitter.step]
    split
    next hc => exact h.consume (h.goes c) hc
    · exact h
  | complete i => exact h.complete i
  | interrupt locked =>
    rw [Transmitter.step, interrupt]
    split
    · exact ⟨h.descriptors, h.begun, h.nodup, h.queue, h.freed, h.unqueued⟩
    · exact h
  | drain => exact h.drain

end Consistent

/-- In every run, however calls and interrupts overlap: from when its call queues it, a frame is in
the queue once or was released once, and two packets never occupy one descriptor. -/
theorem frames_accounted (events : List Event) :
    let t := new.run events
    (∀ c, t.sendQueue.count c + t.freed c = if t.phase c = .allocated then 0 else 1) ∧
      ∀ c c' i, (t.phase c).Occupies i → (t.phase c').Occupies i → c = c' := by
  have h : (new.run events).Consistent :=
    List.foldlRecOn events step Consistent.new fun _ h event _ ↦ h.step event
  refine ⟨fun c ↦ ?_, fun _ _ _ ↦ h.descriptors.alone⟩
  have hqueue := h.queue c
  have hfreed := h.freed c
  have hunqueued := h.unqueued c
  rw [h.nodup.count]
  split <;> split <;> grind

/-- The frame of a packet is released at most once, only when the card has finished the packet, and
for every finished packet when no interrupt is pending or being handled. Two packets do not occupy
one descriptor. -/
structure Orderly (t : Transmitter) : Prop where
  once : ∀ c, t.freed c ≤ 1
  late : ∀ c, 0 < t.freed c → t.phase c = .sent
  done : t.transmitOk = false → t.draining = false → ∀ c, t.phase c = .sent → t.freed c = 1
  alone : ∀ c c' i, (t.phase c).Occupies i → (t.phase c').Occupies i → c = c'

/-- The lock of the frame allocator is free when the handler looks, and while it releases frames no
call is between queueing its frame and handing its packet over, and the card has finished all
packets. -/
def Quiet (t : Transmitter) : Event → Prop
  | .interrupt locked => t.transmitOk = true → locked = false
  | .drain => t.draining = true → t.sendQueue ≠ [] →
      (∀ c < t.calls, (t.phase c).inProgress = false) ∧ ∀ i < 4, t.own i = true
  | _ => True

instance (t : Transmitter) (event : Event) : Decidable (t.Quiet event) := by
  cases event <;> dsimp only [Quiet] <;> infer_instance

private theorem Consistent.sent_of_quiet {t : Transmitter} (h : t.Consistent)
    (hquiet : t.Quiet .drain)
    (hdraining : t.draining = true) {c : Nat} (hc : c ∈ t.sendQueue) : t.phase c = .sent := by
  obtain ⟨hcalls, hown⟩ := hquiet hdraining (List.ne_nil_of_mem hc)
  have hqueued : t.phase c ≠ .allocated := ((h.queue c).mp hc).1
  have hbegun : c < t.calls := Nat.lt_of_not_le fun hle ↦ hqueued (h.begun c hle)
  have hprogress := hcalls c hbegun
  have hfits := h.descriptors.fits c
  cases hphase : t.phase c <;> rw [hphase] at hqueued hprogress hfits
  case allocated => exact absurd rfl hqueued
  case sending i =>
    have hbusy := hfits.busy i rfl
    rw [hown i (hfits.index i rfl)] at hbusy
    exact absurd hbusy Bool.noConfusion
  all_goals exact absurd hprogress Bool.noConfusion

/-- What `Orderly` says of the frames in time. -/
structure Timely (t : Transmitter) : Prop where
  late : ∀ c, 0 < t.freed c → t.phase c = .sent
  done : t.transmitOk = false → t.draining = false → ∀ c, t.phase c = .sent → t.freed c = 1

namespace Timely

variable {t : Transmitter} (h : t.Timely)
include h

private theorem consume {t' : Transmitter} {c : Nat} (hgoes : Goes t c t') : t'.Timely := by
  cases hgoes with
  | stay => exact h
  | @on old phase _ _ _ _ hphase hold hqueued hunsent hqueue hd =>
    constructor
    case late =>
      intro c' hc'
      have hsent := h.late c' hc'
      have hne : c' ≠ c := by
        rintro rfl
        exact hold (hphase.symm.trans hsent)
      exact (Function.update_of_ne hne phase t.phase).trans hsent
    case done =>
      intro h₁ h₂ c' hc'
      have hsent : Function.update t.phase c phase c' = .sent := hc'
      rw [Function.update_apply] at hsent
      split at hsent
      · exact absurd hsent hunsent
      · exact h.done h₁ h₂ c' hsent

private theorem complete (i : Nat) : (t.complete i).Timely := by
  rw [Transmitter.complete]
  split
  · exact h
  · refine ⟨fun c hc ↦ ?_, fun h₁ ↦ absurd h₁ Bool.noConfusion⟩
    show (if t.phase c = .sending i then Phase.sent else t.phase c) = .sent
    rw [h.late c hc, if_neg nofun]

private theorem interrupt {locked : Bool} (hquiet : t.Quiet (.interrupt locked)) :
    (t.interrupt locked).Timely := by
  rw [Transmitter.interrupt]
  split
  next hc =>
    refine ⟨h.late, fun _ h₂ ↦ ?_⟩
    rw [hquiet hc.1] at h₂
    have hdraining : decide (¬ false = true) = false := h₂
    exact absurd hdraining (by decide)
  · exact h

private theorem drain (ht : t.Consistent) (hquiet : t.Quiet .drain) : t.drain.Timely := by
  rw [Transmitter.drain]
  split
  next hdraining =>
    split
    next hqueue =>
      -- the loop ends when the queue is empty: every frame that was in it is released
      refine ⟨h.late, fun _ _ c hc ↦ ?_⟩
      have hfreed : t.freed c ≠ 0 := by
        intro hzero
        have hmem := (ht.queue c).mpr ⟨by rw [hc]; nofun, hzero⟩
        rw [hqueue] at hmem
        exact absurd hmem List.not_mem_nil
      have := ht.freed c
      show t.freed c = 1
      omega
    next c rest hqueue =>
      have hmem : c ∈ t.sendQueue := by
        rw [hqueue]
        exact List.mem_cons_self
      refine ⟨fun c' hc' ↦ ?_, fun _ h₂ ↦ ?_⟩
      · by_cases heq : c' = c
        · rw [heq]
          exact ht.sent_of_quiet hquiet hdraining hmem
        · have hfreed : Function.update t.freed c (t.freed c + 1) c' = t.freed c' :=
            Function.update_of_ne heq _ _
          exact h.late c' (hfreed ▸ hc')
      · exact absurd (hdraining.symm.trans h₂) Bool.noConfusion
  · exact h

private theorem step (ht : t.Consistent) {event : Event} (hquiet : t.Quiet event) :
    (t.step event).Timely := by
  cases event with
  | alloc => exact ⟨h.late, h.done⟩
  | consume c =>
    rw [Transmitter.step]
    split
    · exact h.consume (ht.goes c)
    · exact h
  | complete i => exact h.complete i
  | interrupt locked => exact h.interrupt hquiet
  | drain => exact h.drain ht hquiet

end Timely

/-- In every run whose steps are all quiet, in every state that is reached: the frame of a packet is
released at most once, only after the card has finished the packet, and has been released when no
interrupt is pending; two packets do not occupy one descriptor. -/
theorem orderly_of_quiet_run {events : List Event} (hquiet : Throughout step Quiet new events) :
    (new.run events).Orderly := by
  obtain ⟨h, ht⟩ := hquiet.invariant (I := fun t ↦ t.Timely ∧ t.Consistent)
    ⟨⟨fun _ h ↦ absurd h (Nat.lt_irrefl 0), fun _ _ _ h ↦ absurd h Phase.noConfusion⟩,
      Consistent.new⟩
    (fun _ event h hq ↦ ⟨h.1.step h.2 hq, h.2.step event⟩)
  exact ⟨ht.freed, h.late, h.done, fun _ _ _ hc hc' ↦ ht.descriptors.alone hc hc'⟩

/-- Two packets go out one after the other, each followed by its interrupt. -/
def quietEvents : List Event :=
  [.alloc] ++ List.replicate 7 (.consume 0) ++ [.complete 0, .interrupt false, .drain, .drain] ++
    [.alloc] ++ List.replicate 7 (.consume 1) ++ [.complete 1, .interrupt false, .drain, .drain]

/-- Each of the two packets is freed once. -/
theorem orderly_of_quiet_run_sample :
    (new.run quietEvents).freed 0 = 1 ∧ (new.run quietEvents).freed 1 = 1 ∧
      (new.run quietEvents).phase 1 = .sent ∧ (new.run quietEvents).Orderly :=
  ⟨by decide, by decide, by decide, orderly_of_quiet_run (by decide)⟩

/-- A second call has queued its frame and handed its packet over when the interrupt for the packet
of the first comes. -/
def earlyEvents : List Event :=
  [.alloc, .alloc] ++ List.replicate 7 (.consume 0) ++ List.replicate 7 (.consume 1) ++
    [.complete 0, .interrupt false, .drain, .drain]

/-- The frame of the second packet is released while the card sends it. -/
theorem released_while_sending :
    (new.run earlyEvents).phase 1 = .sending 1 ∧ (new.run earlyEvents).freed 1 = 1 ∧
      ¬ (new.run earlyEvents).Orderly := by
  have hphase : (new.run earlyEvents).phase 1 = .sending 1 := by decide
  have hfreed : (new.run earlyEvents).freed 1 = 1 := by decide
  refine ⟨hphase, hfreed, fun h ↦ ?_⟩
  have hsent := h.late 1 (by rw [hfreed]; decide)
  exact absurd hsent Phase.noConfusion

end Transmitter

end D3OS.Rtl8139
