import D3OS.Base.Rust

/-!
# Named pipes

`Pipe` of `os/kernel/src/naming/tmpfs.rs` with one reader and one writer, as a machine whose steps
are the loads and stores of its atomics and the operations of its queue. The queue is a bounded
FIFO. The queue, the counter of its bytes and the flags for the two sides change at different
moments.

A wait on a wait queue is a loop that evaluates its condition: a thread that sleeps is one that is
not scheduled, and it evaluates the condition again when it is woken. An `open` or `close` changes
the flags under a lock that only these two take, and it touches the queue only when both sides are
closed, so each is one step.
-/

namespace D3OS.Naming

/-- `PIPE_SIZE`, `tmpfs.rs:316`. -/
def pipeSize : Nat := 0x1000

/-- Where the reader is. The arguments of a read are the number of bytes that it asks for and the
bytes that it has so far. -/
inductive ReaderPc where
  | closed
  | opening
  | idle
  /-- The condition of the first wait, at `has_data`. -/
  | wait (n : Nat)
  /-- The condition of the first wait, at `has_writer`. -/
  | waitWriter (n : Nat)
  /-- The check for the end of the file, at `has_data`. -/
  | eof (n : Nat)
  /-- The check for the end of the file, at `has_writer`. -/
  | eofWriter (n : Nat)
  /-- The head of the loop and `try_dequeue`. -/
  | dequeue (n : Nat) (got : List UInt8)
  /-- `count.fetch_sub` for a byte that was taken out. -/
  | decrement (n : Nat) (got : List UInt8) (byte : UInt8)
  /-- The condition of the wait in the loop, at `has_data`. -/
  | more (n : Nat) (got : List UInt8)
  /-- The condition of the wait in the loop, at `has_writer`. -/
  | moreWriter (n : Nat) (got : List UInt8)
  /-- `has_data` after the wait in the loop. -/
  | check (n : Nat) (got : List UInt8)
  deriving DecidableEq, Repr

/-- Where the writer is. The argument of a write is the part of the buffer that is left. -/
inductive WriterPc where
  | closed
  | opening
  | idle
  /-- The condition of the first wait, at `has_space`. -/
  | wait (buf : List UInt8)
  /-- The condition of the first wait, at `has_reader`. -/
  | waitReader (buf : List UInt8)
  /-- `has_reader` after the first wait. -/
  | epipe (buf : List UInt8)
  /-- The head of the loop and `try_enqueue`. -/
  | enqueue (rest : List UInt8)
  /-- `count.fetch_add` for a byte that was put in. -/
  | increment (rest : List UInt8)
  /-- The condition of the wait in the loop, at `has_space`. -/
  | more (rest : List UInt8)
  /-- The condition of the wait in the loop, at `has_reader`. -/
  | moreReader (rest : List UInt8)
  /-- `has_reader` after the wait in the loop. -/
  | check (rest : List UInt8)
  deriving DecidableEq, Repr

/-- A read that returned: what it asked for, what it got, whether the pipe had a writer and whether
every byte that was put in had been read then. -/
structure ReadResult where
  asked : Nat
  got : List UInt8
  hasWriter : Bool
  allRead : Bool
  deriving DecidableEq, Repr

/-- `Pipe`, `tmpfs.rs:323`, with its two sides. The bytes that writes put in and reads returned
since the last reset, and the reads that returned, are kept for the record. -/
structure Pipe where
  queue : List UInt8
  count : Nat
  hasReader : Bool
  hasWriter : Bool
  reader : ReaderPc
  writer : WriterPc
  enqueued : List UInt8
  returned : List UInt8
  reads : List ReadResult
  deriving DecidableEq, Repr

namespace Pipe

/-- `Pipe::new`, `tmpfs.rs:337`. -/
def new : Pipe := ⟨[], 0, false, false, .closed, .closed, [], [], []⟩

/-- A read returns. -/
def returnRead (n : Nat) (got : List UInt8) (p : Pipe) : Pipe :=
  { p with
    reader := .idle
    returned := p.returned ++ got
    reads := ⟨n, got, p.hasWriter, p.returned ++ got == p.enqueued⟩ :: p.reads }

/-- One step of `open` for reading or of `read`, `tmpfs.rs:459`. -/
def stepReader (p : Pipe) : Pipe :=
  match p.reader with
  | .closed => p
  | .opening => if p.hasWriter then { p with reader := .idle } else p
  | .idle => p
  | .wait n => { p with reader := if 0 < p.count then .eof n else .waitWriter n }
  | .waitWriter n => { p with reader := if p.hasWriter then .wait n else .eof n }
  | .eof n => { p with reader := if 0 < p.count then .dequeue n [] else .eofWriter n }
  | .eofWriter n =>
    if p.hasWriter then { p with reader := .dequeue n [] } else p.returnRead n []
  | .dequeue n got =>
    if n ≤ got.length then p.returnRead n got
    else
      match p.queue with
      | [] => { p with reader := .more n got }
      | byte :: queue => { p with queue := queue, reader := .decrement n got byte }
  | .decrement n got byte =>
    { p with count := (p.count + (2 ^ 64 - 1)) % 2 ^ 64, reader := .dequeue n (got ++ [byte]) }
  | .more n got => { p with reader := if 0 < p.count then .check n got else .moreWriter n got }
  | .moreWriter n got => { p with reader := if p.hasWriter then .more n got else .check n got }
  | .check n got =>
    if 0 < p.count then { p with reader := .dequeue n got } else p.returnRead n got

/-- One step of `open` for writing or of `write`, `tmpfs.rs:523`. -/
def stepWriter (p : Pipe) : Pipe :=
  match p.writer with
  | .closed => p
  | .opening => if p.hasReader then { p with writer := .idle } else p
  | .idle => p
  | .wait buf => { p with writer := if p.count < pipeSize then .epipe buf else .waitReader buf }
  | .waitReader buf => { p with writer := if p.hasReader then .wait buf else .epipe buf }
  | .epipe buf => { p with writer := if p.hasReader then .enqueue buf else .idle }
  | .enqueue [] => { p with writer := .idle }
  | .enqueue (byte :: rest) =>
    if p.queue.length < pipeSize then
      { p with
        queue := p.queue ++ [byte]
        writer := .increment rest
        enqueued := p.enqueued ++ [byte] }
    else { p with writer := .more (byte :: rest) }
  | .increment rest => { p with count := (p.count + 1) % 2 ^ 64, writer := .enqueue rest }
  | .more rest => { p with writer := if p.count < pipeSize then .check rest else .moreReader rest }
  | .moreReader rest => { p with writer := if p.hasReader then .more rest else .check rest }
  | .check rest => { p with writer := if p.hasReader then .enqueue rest else .idle }

/-- The end of `close`: with both sides gone the buffer is reset. -/
def reset (p : Pipe) : Pipe :=
  if ¬ p.hasReader ∧ ¬ p.hasWriter then
    { p with queue := [], count := 0, enqueued := [], returned := [] }
  else p

/-- What the two sides do: begin a call, or take the next step of the one they are in. -/
inductive Event where
  | openRead
  | openWrite
  | read (n : Nat)
  | write (buf : List UInt8)
  | closeRead
  | closeWrite
  | stepReader
  | stepWriter
  deriving DecidableEq, Repr

/-- An event. A side begins a call only when it is in none and, but for `open`, has the pipe
open. -/
def step (p : Pipe) : Event → Pipe
  | .openRead =>
    if p.reader = .closed ∧ ¬ p.hasReader then { p with hasReader := true, reader := .opening }
    else p
  | .openWrite =>
    if p.writer = .closed ∧ ¬ p.hasWriter then { p with hasWriter := true, writer := .opening }
    else p
  | .read n =>
    if p.reader = .idle then
      if n = 0 then p.returnRead 0 [] else { p with reader := .wait n }
    else p
  | .write buf =>
    if p.writer = .idle ∧ buf ≠ [] then { p with writer := .wait buf } else p
  | .closeRead =>
    if p.reader = .idle then reset { p with hasReader := false, reader := .closed } else p
  | .closeWrite =>
    if p.writer = .idle then reset { p with hasWriter := false, writer := .closed } else p
  | .stepReader => p.stepReader
  | .stepWriter => p.stepWriter

/-- A run. -/
def run (p : Pipe) (events : List Event) : Pipe := events.foldl step p

/-- The bytes that a read has taken out and not returned yet. -/
def inHand (p : Pipe) : List UInt8 :=
  match p.reader with
  | .dequeue _ got | .more _ got | .moreWriter _ got | .check _ got => got
  | .decrement _ got byte => got ++ [byte]
  | _ => []

/-- A byte in the queue that the counter does not have yet. -/
def uncounted (p : Pipe) : Nat :=
  match p.writer with
  | .increment _ => 1
  | _ => 0

/-- A byte on the counter that the queue does not have any more. -/
def taken (p : Pipe) : Nat :=
  match p.reader with
  | .decrement _ _ _ => 1
  | _ => 0

/-- A reader has one byte at most in hand. -/
theorem taken_le (p : Pipe) : p.taken ≤ 1 := by
  rw [taken]
  split <;> decide

/-- A writer has one byte at most that is not counted. -/
theorem uncounted_le (p : Pipe) : p.uncounted ≤ 1 := by
  rw [uncounted]
  split <;> decide

/-- Why a read has passed the condition of a wait. -/
def Passed (p : Pipe) : Prop :=
  match p.reader with
  | .eof _ | .check _ _ => 0 < p.count ∨ p.hasWriter = false
  | .eofWriter _ => p.count = 0 ∧ p.hasWriter = false
  | _ => True

/-- What a step of the reader can do. A read that returns fewer bytes than it was asked for has seen
neither data nor a writer, if it had a reason to pass the wait before. -/
inductive ReaderStep (p : Pipe) : Pipe → Prop
  | stay : ReaderStep p p
  | move {pc pc' : ReaderPc} (hreader : p.reader = pc) (hopen : pc ≠ .closed)
      (hopen' : pc' ≠ .closed)
      (hhand : inHand { p with reader := pc' } = inHand { p with reader := pc })
      (htaken : taken { p with reader := pc' } = taken { p with reader := pc })
      (hpassed : Passed { p with reader := pc } → Passed { p with reader := pc' }) :
      ReaderStep p { p with reader := pc' }
  | done {pc : ReaderPc} {n : Nat} {got : List UInt8} (hreader : p.reader = pc)
      (hopen : pc ≠ .closed) (hgot : inHand { p with reader := pc } = got)
      (htaken : taken { p with reader := pc } = 0)
      (hshort : Passed { p with reader := pc } → got.length < n →
        p.hasWriter = false ∧ p.count = 0) : ReaderStep p (p.returnRead n got)
  | dequeue {n : Nat} {got queue : List UInt8} {byte : UInt8} (hreader : p.reader = .dequeue n got)
      (hqueue : p.queue = byte :: queue) :
      ReaderStep p { p with queue := queue, reader := .decrement n got byte }
  | decrement {n : Nat} {got : List UInt8} {byte : UInt8}
      (hreader : p.reader = .decrement n got byte) :
      ReaderStep p { p with
        count := (p.count + (2 ^ 64 - 1)) % 2 ^ 64, reader := .dequeue n (got ++ [byte]) }

/-- What a step of the writer can do. -/
inductive WriterStep (p : Pipe) : Pipe → Prop
  | stay : WriterStep p p
  | move {pc pc' : WriterPc} (hwriter : p.writer = pc) (hopen : pc ≠ .closed)
      (hopen' : pc' ≠ .closed)
      (huncounted : uncounted { p with writer := pc' } = uncounted { p with writer := pc }) :
      WriterStep p { p with writer := pc' }
  | enqueue {byte : UInt8} {rest : List UInt8} (hwriter : p.writer = .enqueue (byte :: rest))
      (hspace : p.queue.length < pipeSize) :
      WriterStep p { p with
        queue := p.queue ++ [byte], writer := .increment rest, enqueued := p.enqueued ++ [byte] }
  | increment {rest : List UInt8} (hwriter : p.writer = .increment rest) :
      WriterStep p { p with count := (p.count + 1) % 2 ^ 64, writer := .enqueue rest }

/-- What a reader does. -/
theorem readerStep (p : Pipe) : ReaderStep p p.stepReader := by
  rw [stepReader]
  cases hpc : p.reader with
  | closed | idle => exact .stay
  | opening =>
    dsimp only
    split
    · exact .move hpc nofun nofun rfl rfl fun _ ↦ trivial
    · exact .stay
  | wait n | more n got =>
    dsimp only
    split
    next hpos => exact .move hpc nofun nofun rfl rfl fun _ ↦ .inl hpos
    · exact .move hpc nofun nofun rfl rfl fun _ ↦ trivial
  | waitWriter n | moreWriter n got =>
    dsimp only
    split
    · exact .move hpc nofun nofun rfl rfl fun _ ↦ trivial
    next hgone =>
      exact .move hpc nofun nofun rfl rfl fun _ ↦ .inr ((Bool.not_eq_true _).mp hgone)
  | eof n =>
    dsimp only
    split
    · exact .move hpc nofun nofun rfl rfl fun _ ↦ trivial
    next hzero =>
      exact .move hpc nofun nofun rfl rfl fun h ↦
        ⟨Nat.eq_zero_of_not_pos hzero, h.resolve_left hzero⟩
  | eofWriter n =>
    dsimp only
    split
    · exact .move hpc nofun nofun rfl rfl fun _ ↦ trivial
    · exact .done hpc nofun rfl rfl fun h _ ↦ h.symm
  | dequeue n got =>
    dsimp only
    split
    next hdone =>
      exact .done hpc nofun rfl rfl fun _ hshort ↦ absurd hshort (Nat.not_lt.mpr hdone)
    · split
      · exact .move hpc nofun nofun rfl rfl fun _ ↦ trivial
      next hqueue => exact .dequeue hpc hqueue
  | decrement n got byte => exact .decrement hpc
  | check n got =>
    dsimp only
    split
    · exact .move hpc nofun nofun rfl rfl fun _ ↦ trivial
    next hzero =>
      exact .done hpc nofun rfl rfl fun h _ ↦
        ⟨h.resolve_left hzero, Nat.eq_zero_of_not_pos hzero⟩

/-- What a writer does. -/
theorem writerStep (p : Pipe) : WriterStep p p.stepWriter := by
  rw [stepWriter]
  cases hpc : p.writer with
  | closed | idle => exact .stay
  | opening =>
    dsimp only
    split
    · exact .move hpc nofun nofun rfl
    · exact .stay
  | wait buf | waitReader buf | epipe buf | more rest | moreReader rest | check rest =>
    dsimp only
    split
    all_goals exact .move hpc nofun nofun rfl
  | enqueue buf =>
    cases buf with
    | nil => exact .move hpc nofun nofun rfl
    | cons byte rest =>
      dsimp only
      split
      next hspace => exact .enqueue hpc hspace
      · exact .move hpc nofun nofun rfl
  | increment rest => exact .increment hpc

/-- A read begins. -/
theorem readerStep_read {p : Pipe} (hidle : p.reader = .idle) (n : Nat) :
    ReaderStep p (if n = 0 then p.returnRead 0 [] else { p with reader := .wait n }) := by
  split
  · exact .done hidle nofun rfl rfl fun _ hlt ↦ absurd hlt (Nat.not_lt_zero _)
  · exact .move hidle nofun nofun rfl rfl fun _ ↦ trivial

/-- No byte is lost, reordered or delivered twice: what was put in is what was returned, what a read
has in hand and what is in the queue. -/
structure Conserves (p : Pipe) : Prop where
  bytes : p.enqueued = p.returned ++ p.inHand ++ p.queue
  reader : p.hasReader = true ↔ p.reader ≠ .closed
  writer : p.hasWriter = true ↔ p.writer ≠ .closed

/-- The counter has the bytes of the queue but for those that are on the way, modulo its range. -/
structure Counted (p : Pipe) : Prop extends p.Conserves where
  room : p.queue.length ≤ pipeSize
  fits : p.count < 2 ^ 64
  count : (p.count + p.uncounted) % 2 ^ 64 = (p.queue.length + p.taken) % 2 ^ 64

/-- A new pipe counts nothing. -/
theorem counted_new : new.Counted :=
  ⟨⟨rfl, by decide, by decide⟩, by decide, by decide, by decide⟩

section

variable {p p' : Pipe} (h : p.Counted)
include h

private theorem Counted.setReader {pc pc' : ReaderPc} {present : Bool} (hreader : p.reader = pc)
    (hpresent : present = true ↔ pc' ≠ .closed)
    (hhand : inHand { p with reader := pc' } = inHand { p with reader := pc })
    (htaken : taken { p with reader := pc' } = taken { p with reader := pc }) :
    Counted { p with hasReader := present, reader := pc' } := by
  subst hreader
  refine ⟨⟨?_, hpresent, h.writer⟩, h.room, h.fits, ?_⟩
  · exact h.bytes.trans (congrArg (p.returned ++ · ++ p.queue) hhand.symm)
  · exact h.count.trans (congrArg (fun n ↦ (p.queue.length + n) % _) htaken.symm)

private theorem Counted.setWriter {pc pc' : WriterPc} {present : Bool} (hwriter : p.writer = pc)
    (hpresent : present = true ↔ pc' ≠ .closed)
    (huncounted : uncounted { p with writer := pc' } = uncounted { p with writer := pc }) :
    Counted { p with hasWriter := present, writer := pc' } := by
  subst hwriter
  refine ⟨⟨h.bytes, h.reader, hpresent⟩, h.room, h.fits, ?_⟩
  exact (congrArg (fun n ↦ (p.count + n) % _) huncounted).trans h.count

/-- A reader keeps the count. -/
theorem Counted.readerStep (hstep : ReaderStep p p') : p'.Counted := by
  have hbytes := h.bytes
  have hcount := h.count
  cases hstep with
  | stay => exact h
  | move hreader hopen hopen' hhand htaken hpassed =>
    exact h.setReader hreader
      ⟨fun _ ↦ hopen', fun _ ↦ h.reader.mpr (hreader ▸ hopen)⟩ hhand htaken
  | done hreader hopen hgot htaken hshort =>
    subst hreader hgot
    refine ⟨⟨?_, ⟨fun _ ↦ nofun, fun _ ↦ h.reader.mpr hopen⟩, h.writer⟩, h.room,
      h.fits, ?_⟩
    · show _ = _ ++ _ ++ [] ++ _
      rwa [List.append_nil]
    · rw [htaken] at hcount
      exact hcount
  | dequeue hreader hqueue =>
    have hroom := h.room
    rw [inHand, hreader, hqueue] at hbytes
    rw [taken, hreader, hqueue] at hcount
    rw [hqueue] at hroom
    refine ⟨⟨?_, ⟨fun _ ↦ nofun, fun _ ↦ h.reader.mpr (by simp [hreader])⟩, h.writer⟩,
      Nat.le_of_succ_le hroom, h.fits, hcount⟩
    simpa [inHand] using hbytes
  | decrement hreader =>
    rw [inHand, hreader] at hbytes
    rw [taken, hreader] at hcount
    refine ⟨⟨hbytes, ⟨fun _ ↦ nofun, fun _ ↦ h.reader.mpr (by simp [hreader])⟩,
      h.writer⟩, h.room, Nat.mod_lt _ (Nat.two_pow_pos 64), ?_⟩
    dsimp only [taken, uncounted] at hcount ⊢
    omega

/-- A writer keeps the count. -/
theorem Counted.writerStep (hstep : WriterStep p p') : p'.Counted := by
  have hcount := h.count
  cases hstep with
  | stay => exact h
  | move hwriter hopen hopen' huncounted =>
    exact h.setWriter hwriter
      ⟨fun _ ↦ hopen', fun _ ↦ h.writer.mpr (hwriter ▸ hopen)⟩ huncounted
  | @enqueue byte rest hwriter hspace =>
    rw [uncounted, hwriter] at hcount
    refine ⟨⟨?_, h.reader, fun _ ↦ nofun, fun _ ↦ h.writer.mpr (by simp [hwriter])⟩, ?_, h.fits,
      ?_⟩
    · show p.enqueued ++ [byte] = p.returned ++ p.inHand ++ (p.queue ++ [byte])
      rw [h.bytes, List.append_assoc]
    · rw [List.length_append]
      exact hspace
    · show (p.count + 1) % _ = ((p.queue ++ [byte]).length + p.taken) % _
      rw [List.length_append, List.length_singleton]
      dsimp only at hcount
      omega
  | increment hwriter =>
    rw [uncounted, hwriter] at hcount
    refine ⟨⟨h.bytes, h.reader, fun _ ↦ nofun, fun _ ↦ h.writer.mpr (by simp [hwriter])⟩,
      h.room, Nat.mod_lt _ (Nat.two_pow_pos 64), ?_⟩
    show (_ + 0) % _ = (p.queue.length + p.taken) % _
    dsimp only at hcount ⊢
    omega

private theorem Counted.reset : p.reset.Counted := by
  rw [Pipe.reset]
  split
  next hgone =>
    have hreader : p.reader = .closed :=
      of_not_not fun hopen ↦ hgone.1 (h.reader.mpr hopen)
    have hwriter : p.writer = .closed :=
      of_not_not fun hopen ↦ hgone.2 (h.writer.mpr hopen)
    refine ⟨⟨?_, h.reader, h.writer⟩, Nat.zero_le _, Nat.two_pow_pos 64, ?_⟩
    · simp [inHand, hreader]
    · simp [taken, uncounted, hreader, hwriter]
  · exact h

/-- Every event keeps the bytes and the counter. -/
theorem Counted.step (event : Event) : (p.step event).Counted := by
  cases event with
  | openRead =>
    rw [Pipe.step]
    split
    next hopen => exact h.setReader hopen.1 ⟨fun _ ↦ nofun, fun _ ↦ rfl⟩ rfl rfl
    · exact h
  | openWrite =>
    rw [Pipe.step]
    split
    next hopen => exact h.setWriter hopen.1 ⟨fun _ ↦ nofun, fun _ ↦ rfl⟩ rfl
    · exact h
  | read n =>
    rw [Pipe.step]
    split
    next hidle => exact h.readerStep (readerStep_read hidle n)
    · exact h
  | write buf =>
    rw [Pipe.step]
    split
    next hidle => exact h.writerStep (.move hidle.1 nofun nofun rfl)
    · exact h
  | closeRead =>
    rw [Pipe.step]
    split
    next hidle =>
      apply Counted.reset
      exact h.setReader hidle ⟨nofun, fun h ↦ absurd rfl h⟩ rfl rfl
    · exact h
  | closeWrite =>
    rw [Pipe.step]
    split
    next hidle =>
      apply Counted.reset
      exact h.setWriter hidle ⟨nofun, fun h ↦ absurd rfl h⟩ rfl
    · exact h
  | stepReader => exact h.readerStep p.readerStep
  | stepWriter => exact h.writerStep p.writerStep

end

/-- In every run. -/
theorem counted_run (events : List Event) : (new.run events).Counted := by
  have hrun : ∀ p : Pipe, p.Counted → (p.run events).Counted := by
    induction events with
    | nil => exact fun p h ↦ h
    | cons event events ih => exact fun p h ↦ ih _ (h.step event)
  exact hrun new counted_new

/-- In every run no byte is lost, reordered or delivered twice and the queue never overflows. -/
theorem bytes_conserved (events : List Event) :
    let p := new.run events
    p.enqueued = p.returned ++ p.inHand ++ p.queue ∧ p.queue.length ≤ pipeSize :=
  ⟨(counted_run events).bytes, (counted_run events).room⟩

/-- What a reader leaves alone. -/
theorem ReaderStep.others {p p' : Pipe} (h : ReaderStep p p') :
    p'.hasReader = p.hasReader ∧ p'.hasWriter = p.hasWriter ∧ p'.writer = p.writer := by
  cases h with
  | _ => exact ⟨rfl, rfl, rfl⟩

/-- What a writer leaves alone. -/
theorem WriterStep.others {p p' : Pipe} (h : WriterStep p p') :
    p'.hasReader = p.hasReader ∧ p'.hasWriter = p.hasWriter ∧ p'.reader = p.reader := by
  cases h with
  | _ => exact ⟨rfl, rfl, rfl⟩

/-- What `reset` leaves alone. -/
theorem reset_others (p : Pipe) : p.reset.hasReader = p.hasReader ∧
    p.reset.hasWriter = p.hasWriter ∧ p.reset.reader = p.reader ∧ p.reset.writer = p.writer := by
  rw [reset]
  split <;> exact ⟨rfl, rfl, rfl, rfl⟩

end Pipe

end D3OS.Naming
