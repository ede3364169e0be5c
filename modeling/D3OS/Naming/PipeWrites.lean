import D3OS.Lib.Runs
import D3OS.Naming.Pipe

/-!
# Writing to a pipe

A `write` whose reader goes away fails, also behind bytes that it has put in. It puts nothing in
before its loop, and the loop begins with a reader.
-/

namespace D3OS.Naming

open Lib

namespace WriterPc

/-- A `write` has not reached its loop. -/
def beforeLoop : WriterPc → Bool
  | .wait _ | .waitReader _ | .epipe _ => true
  | _ => false

/-- A `write` is in its loop. -/
def inLoop : WriterPc → Bool
  | .enqueue _ | .increment _ | .more _ | .moreReader _ | .check _ => true
  | _ => false

end WriterPc

namespace Pipe

/-- The next step of the writer makes `write` return `EPIPE`. -/
def WriteFails (p : Pipe) : Prop :=
  p.hasReader = false ∧ ((∃ buf, p.writer = .epipe buf) ∨ ∃ rest, p.writer = .check rest)

/-- The reader closes the pipe only while no `write` is in its loop. -/
def Patient (p : Pipe) (event : Event) : Prop := event = .closeRead → p.writer.inLoop = false

instance (p : Pipe) (event : Event) : Decidable (p.Patient event) :=
  inferInstanceAs (Decidable (_ → _))

private theorem stepWriter_loop (p : Pipe) :
    (p.stepWriter.writer.inLoop = true → p.writer.inLoop = true ∨ p.hasReader = true) ∧
      (p.stepWriter.writer.beforeLoop = true →
        p.writer.beforeLoop = true ∧ p.stepWriter.enqueued = p.enqueued) := by
  rw [stepWriter]
  cases hpc : p.writer with
  | closed | idle => simp [hpc, WriterPc.inLoop, WriterPc.beforeLoop]
  | opening | wait buf | waitReader buf | epipe buf =>
    dsimp only
    split <;> simp [*, WriterPc.inLoop, WriterPc.beforeLoop]
  | enqueue rest =>
    cases rest with
    | nil => simp [WriterPc.inLoop, WriterPc.beforeLoop]
    | cons byte rest =>
      dsimp only
      split <;> simp [WriterPc.inLoop, WriterPc.beforeLoop]
  | increment rest => simp [WriterPc.inLoop, WriterPc.beforeLoop]
  | more rest | moreReader rest | check rest =>
    dsimp only
    split <;> simp [WriterPc.inLoop, WriterPc.beforeLoop]

end Pipe

/-- A pipe with the number of bytes that the last `write` has put in. -/
structure Writing where
  pipe : Pipe
  written : Nat

namespace Writing

open Pipe

def new : Writing := ⟨.new, 0⟩

def step (w : Writing) (event : Event) : Writing :=
  { pipe := w.pipe.step event
    written :=
      match event with
      | .write _ => if w.pipe.writer = .idle then 0 else w.written
      | .stepWriter => w.written + (w.pipe.stepWriter.enqueued.length - w.pipe.enqueued.length)
      | _ => w.written }

/-- A `write` in its loop has a reader, and one before it has put nothing in. -/
structure Fair (w : Writing) : Prop where
  loop : w.pipe.writer.inLoop = true → w.pipe.hasReader = true
  before : w.pipe.writer.beforeLoop = true → w.written = 0

variable {w w' : Writing}

private theorem Fair.mono (h : w.Fair) (hwriter : w'.pipe.writer = w.pipe.writer)
    (hreader : w.pipe.hasReader = true → w'.pipe.hasReader = true)
    (hwritten : w'.written = w.written) : w'.Fair := by
  refine ⟨fun hloop ↦ hreader (h.loop ?_), fun hbefore ↦ hwritten.trans (h.before ?_)⟩
  · rwa [hwriter] at hloop
  · rwa [hwriter] at hbefore

private theorem Fair.step (h : w.Fair) {event : Event} (hpatient : w.pipe.Patient event) :
    (w.step event).Fair := by
  cases event with
  | openRead | read n | stepReader =>
    refine h.mono ?_ (fun hreader ↦ ?_) rfl <;>
      simp [*, Writing.step, Pipe.step, apply_ite Pipe.writer, apply_ite Pipe.hasReader, returnRead,
        w.pipe.readerStep.others]
  | openWrite =>
    simp only [Writing.step, Pipe.step]
    split
    · constructor <;> simp [WriterPc.inLoop, WriterPc.beforeLoop]
    · exact h
  | write buf =>
    by_cases hidle : w.pipe.writer = .idle
    · simp only [Writing.step, Pipe.step, if_pos hidle]
      split
      · exact ⟨by simp [WriterPc.inLoop], fun _ ↦ rfl⟩
      · exact ⟨h.loop, fun _ ↦ rfl⟩
    · simp only [Writing.step, Pipe.step, hidle, false_and, if_false]
      exact h
  | closeRead =>
    simp only [Writing.step, Pipe.step]
    split
    · constructor
      · simp [reset_others, hpatient rfl]
      · simpa [reset_others] using h.before
    · exact h
  | closeWrite =>
    simp only [Writing.step, Pipe.step]
    split
    · constructor <;> simp [reset_others, WriterPc.inLoop, WriterPc.beforeLoop]
    · exact h
  | stepWriter =>
    obtain ⟨hloop, hbefore⟩ := w.pipe.stepWriter_loop
    refine ⟨fun hafter ↦ ?_, fun hafter ↦ ?_⟩
    · exact w.pipe.writerStep.others.1.trans ((hloop hafter).elim h.loop id)
    · obtain ⟨hbefore, hsame⟩ := hbefore hafter
      simp [Writing.step, hsame, h.before hbefore]

/-- In every run in which the reader does not close the pipe while a `write` is in its loop, a
`write` that fails has put nothing in. -/
theorem written_eq_zero_of_fails {events : List Event}
    (h : Throughout step (fun w event ↦ w.pipe.Patient event) new events)
    (hfails : (events.foldl step new).pipe.WriteFails) : (events.foldl step new).written = 0 := by
  have hfair : (events.foldl step new).Fair :=
    h.invariant ⟨nofun, nofun⟩ fun w event hw hpatient ↦ hw.step hpatient
  obtain ⟨hgone, ⟨buf, hpc⟩ | ⟨rest, hpc⟩⟩ := hfails
  · exact hfair.before (by rw [hpc]; rfl)
  · exact nomatch hgone.symm.trans (hfair.loop (by rw [hpc]; rfl))

/-- The reader closes the pipe before the `write` begins. -/
def refusedEvents : List Event :=
  [.openRead, .openWrite, .stepReader, .stepWriter, .closeRead, .write [1], .stepWriter]

/-- No byte is written. -/
theorem written_eq_zero_of_fails_sample :
    (refusedEvents.foldl step new).pipe.WriteFails ∧ (refusedEvents.foldl step new).written = 0 :=
  have hfails : (refusedEvents.foldl step new).pipe.WriteFails := ⟨by decide, .inl ⟨[1], by decide⟩⟩
  ⟨hfails, written_eq_zero_of_fails (by decide) hfails⟩

private theorem foldl_stepWriter {bytes rest : List UInt8} {p : Pipe} (k : Nat)
    (hwriter : p.writer = .enqueue (bytes ++ rest))
    (hroom : p.queue.length + bytes.length ≤ pipeSize)
    (hcount : p.count + bytes.length < 2 ^ 64) :
    (List.replicate (2 * bytes.length) Event.stepWriter).foldl step ⟨p, k⟩ =
      ⟨{ p with
          queue := p.queue ++ bytes, count := p.count + bytes.length, writer := .enqueue rest
          enqueued := p.enqueued ++ bytes }, k + bytes.length⟩ := by
  induction bytes generalizing p k with
  | nil =>
    rw [List.nil_append] at hwriter
    simp [← hwriter]
  | cons byte bytes ih =>
    rw [List.length_cons] at hroom hcount
    have hspace : p.queue.length < pipeSize := by omega
    have hsucc : (p.count + 1) % 2 ^ 64 = p.count + 1 := Nat.mod_eq_of_lt (by omega)
    have htwo : step (step ⟨p, k⟩ .stepWriter) .stepWriter =
        ⟨{ p with
            queue := p.queue ++ [byte], count := p.count + 1, writer := .enqueue (bytes ++ rest)
            enqueued := p.enqueued ++ [byte] }, k + 1⟩ := by
      simp only [step, Pipe.step, Pipe.stepWriter, hwriter, List.cons_append, hspace, hsucc,
        ↓reduceIte, List.length_append, List.length_singleton, Nat.add_sub_cancel_left,
        Nat.sub_self, Nat.add_zero]
    rw [List.length_cons, Nat.mul_succ, Nat.add_comm, List.replicate_add, List.foldl_append]
    show List.foldl step (step (step ⟨p, k⟩ .stepWriter) .stepWriter) _ = _
    rw [htwo, ih]
    · simp [Nat.add_assoc, Nat.add_comm 1]
    · rfl
    · rw [List.length_append, List.length_singleton]
      omega
    · dsimp only
      omega

/-- A `write` of one byte more than the queue takes; the reader closes the pipe when it is full. -/
def longWriteEvents (bytes : List UInt8) : List Event :=
  [.openRead, .openWrite, .stepReader, .stepWriter, .write (bytes ++ [0]), .stepWriter,
    .stepWriter] ++ List.replicate (2 * bytes.length) .stepWriter ++
  [.stepWriter, .closeRead, .stepWriter, .stepWriter]

private theorem foldl_longWrite {bytes : List UInt8} (hlength : bytes.length = pipeSize) :
    (longWriteEvents bytes).foldl step new =
      ⟨⟨bytes, pipeSize, false, true, .closed, .check [0], bytes, [], []⟩, pipeSize⟩ := by
  have hfill := foldl_stepWriter 0
    (rfl : (⟨[], 0, true, true, .idle, .enqueue (bytes ++ [0]), [], [], []⟩ : Pipe).writer = _)
    (by simp [hlength]) (by simp [hlength, pipeSize])
  have hstart : [.openRead, .openWrite, .stepReader, .stepWriter, .write (bytes ++ [0]),
      .stepWriter, .stepWriter].foldl step new =
        ⟨⟨[], 0, true, true, .idle, .enqueue (bytes ++ [0]), [], [], []⟩, 0⟩ := by
    simp [step, Pipe.step, Pipe.stepReader, Pipe.stepWriter, new, Pipe.new, pipeSize]
  rw [longWriteEvents, List.foldl_append, List.foldl_append, hstart, hfill]
  simp [step, Pipe.step, Pipe.stepWriter, Pipe.reset, hlength]

/-- It fails behind all the bytes that it has put in. -/
theorem fails_behind_bytes :
    ((longWriteEvents (List.replicate pipeSize 0)).foldl step new).pipe.WriteFails ∧
      ((longWriteEvents (List.replicate pipeSize 0)).foldl step new).written = pipeSize := by
  rw [foldl_longWrite List.length_replicate]
  exact ⟨⟨rfl, .inr ⟨[0], rfl⟩⟩, rfl⟩

end Writing

end D3OS.Naming
