import D3OS.Naming.Pipe

/-!
# The counter of a pipe

A byte is in the queue before it is on the counter and out of it before it is off the counter. In
every interleaving the counter is right whenever no side is between the two; what it may be then is
seen from where the sides are.
-/

namespace D3OS.Naming.Pipe

/-- The reader has taken a byte out and off the counter that the writer has not counted yet. -/
def Ahead (p : Pipe) : Prop := p.queue = [] ∧ p.uncounted = 1 ∧ p.taken = 0

/-- The queue is full and counted, with a byte on the counter that the reader has taken out. -/
def Behind (p : Pipe) : Prop := p.queue.length = pipeSize ∧ p.uncounted = 0 ∧ p.taken = 1

/-- In every state of every run the counter is in its range unless the reader is ahead of the
writer's count or behind with its own; and it is the length of the queue whenever no side is between
the queue and the counter. -/
theorem count_le_pipeSize_iff (events : List Event) :
    ((new.run events).count ≤ pipeSize ↔ ¬ (new.run events).Ahead ∧ ¬ (new.run events).Behind) ∧
      ((new.run events).uncounted = 0 → (new.run events).taken = 0 →
        (new.run events).count = (new.run events).queue.length) := by
  have h := counted_run events
  generalize new.run events = p at h ⊢
  have hfits := h.fits
  have hcount := h.count
  have hroom := h.room
  have htaken := p.taken_le
  have huncounted := p.uncounted_le
  rw [Ahead, Behind, ← List.length_eq_zero_iff]
  rw [show pipeSize = 4096 from rfl] at hroom ⊢
  omega

/-- The reader takes the second byte before the writer has counted it. -/
theorem count_wraps :
    (new.run ([.openRead, .openWrite, .stepReader, .stepWriter, .write [1, 2]] ++
      List.replicate 4 .stepWriter ++ [.read 2] ++ List.replicate 4 .stepReader ++
      [.stepWriter, .stepReader, .stepReader])).count = 2 ^ 64 - 1 := by
  decide

end D3OS.Naming.Pipe
