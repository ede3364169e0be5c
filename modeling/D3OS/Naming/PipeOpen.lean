import D3OS.Lib.Runs
import D3OS.Naming.Pipe

/-!
# Opening a pipe

A side that waits in `open` looks at the flag of the other side, which may have been set and cleared
again. The two sides find each other in every interleaving in which nobody closes the pipe while the
other one still waits.
-/

namespace D3OS.Naming

open Lib

namespace Pipe

private theorem iterate_waits_iff {σ : Type} {f : σ → σ} {P : σ → Prop} {s t : σ} {flag : Bool}
    (hs : P s) (ht : ¬ P t) (hstep : f s = if flag then t else s) :
    (∀ n, P (f^[n] s)) ↔ flag = false := by
  cases flag with
  | true =>
    rw [if_pos rfl] at hstep
    exact iff_of_false (fun hwaits ↦ ht (hstep ▸ hwaits 1)) nofun
  | false =>
    refine iff_of_true (fun n ↦ ?_) rfl
    rwa [Function.iterate_fixed hstep n]

private theorem waits_reader_iff {p : Pipe} (h : p.reader = .opening) :
    (∀ n, (stepReader^[n] p).reader = .opening) ↔ p.hasWriter = false :=
  iterate_waits_iff (P := fun p ↦ p.reader = .opening) (t := { p with reader := .idle }) h
    ReaderPc.noConfusion (by rw [stepReader, h])

private theorem waits_writer_iff {p : Pipe} (h : p.writer = .opening) :
    (∀ n, (stepWriter^[n] p).writer = .opening) ↔ p.hasReader = false :=
  iterate_waits_iff (P := fun p ↦ p.writer = .opening) (t := { p with writer := .idle }) h
    WriterPc.noConfusion (by rw [stepWriter, h])

/-- A side closes the pipe only when the other one does not wait in `open`. -/
def Polite (p : Pipe) : Event → Prop
  | .closeWrite => p.reader ≠ .opening
  | .closeRead => p.writer ≠ .opening
  | _ => True

instance (p : Pipe) (event : Event) : Decidable (p.Polite event) := by
  cases event with
  | closeWrite | closeRead => exact inferInstanceAs (Decidable (_ ≠ _))
  | _ => exact inferInstanceAs (Decidable True)

variable {p : Pipe} {event : Event}

private theorem hasWriter_step (hpolite : p.Polite event) (hwriter : p.hasWriter = true)
    (hwaits : (p.step event).reader = .opening) : (p.step event).hasWriter = true := by
  cases event with
  | closeWrite =>
    exact absurd (by simpa [step, apply_ite Pipe.reader, reset_others] using hwaits) hpolite
  | _ =>
    simp [step, apply_ite Pipe.hasWriter, returnRead, reset_others, p.readerStep.others,
      p.writerStep.others, hwriter]

private theorem hasReader_step (hpolite : p.Polite event) (hreader : p.hasReader = true)
    (hwaits : (p.step event).writer = .opening) : (p.step event).hasReader = true := by
  cases event with
  | closeRead =>
    exact absurd (by simpa [step, apply_ite Pipe.writer, reset_others] using hwaits) hpolite
  | _ =>
    simp [step, apply_ite Pipe.hasReader, returnRead, reset_others, p.readerStep.others,
      p.writerStep.others, hreader]

end Pipe

/-- A pipe with a note for each side that waits in `open`: whether the `open` of the other side has
returned since the side published itself. -/
structure Meeting where
  pipe : Pipe
  writerReturned : Bool
  readerReturned : Bool

namespace Meeting

open Pipe

def new : Meeting := ⟨.new, false, false⟩

def step (m : Meeting) (event : Event) : Meeting :=
  let p := m.pipe.step event
  { pipe := p
    writerReturned := p.reader = .opening &&
      (m.writerReturned || m.pipe.writer = .opening && p.writer ≠ .opening)
    readerReturned := p.writer = .opening &&
      (m.readerReturned || m.pipe.reader = .opening && p.reader ≠ .opening) }

/-- The `open` of one side has returned, and the other side waits in its `open` for ever if it is
left alone. -/
def Stuck (m : Meeting) : Prop :=
  (m.writerReturned = true ∧ ∀ n, (Pipe.stepReader^[n] m.pipe).reader = .opening) ∨
    (m.readerReturned = true ∧ ∀ n, (Pipe.stepWriter^[n] m.pipe).writer = .opening)

/-- A side whose `open` has returned is there. -/
structure Present (m : Meeting) : Prop where
  counted : m.pipe.Counted
  writer : m.writerReturned = true → m.pipe.hasWriter = true
  reader : m.readerReturned = true → m.pipe.hasReader = true

private theorem Present.step {m : Meeting} (h : m.Present) {event : Event}
    (hpolite : m.pipe.Polite event) :
    (m.step event).Present := by
  refine ⟨h.counted.step event, fun hmet ↦ ?_, fun hmet ↦ ?_⟩
  · simp only [Meeting.step, Bool.and_eq_true, Bool.or_eq_true, decide_eq_true_eq] at hmet
    obtain ⟨hwaits, hmet⟩ := hmet
    refine hasWriter_step hpolite (hmet.elim h.writer fun hreturns ↦ h.counted.writer.mpr ?_) hwaits
    rw [hreturns.1]
    nofun
  · simp only [Meeting.step, Bool.and_eq_true, Bool.or_eq_true, decide_eq_true_eq] at hmet
    obtain ⟨hwaits, hmet⟩ := hmet
    refine hasReader_step hpolite (hmet.elim h.reader fun hreturns ↦ h.counted.reader.mpr ?_) hwaits
    rw [hreturns.1]
    nofun

/-- In every run in which no side closes the pipe while the other one waits in `open`, a side whose
`open` has returned lets the other one return. -/
theorem not_stuck_of_polite {events : List Event}
    (h : Throughout step (fun m event ↦ m.pipe.Polite event) new events) :
    ¬ (events.foldl step new).Stuck := by
  have hpresent : (events.foldl step new).Present :=
    h.invariant ⟨counted_new, nofun, nofun⟩ fun m event hm hpolite ↦ hm.step hpolite
  rintro (⟨hmet, hwaits⟩ | ⟨hmet, hwaits⟩)
  · have hgone := (waits_reader_iff (hwaits 0)).mp hwaits
    exact nomatch hgone.symm.trans (hpresent.writer hmet)
  · have hgone := (waits_writer_iff (hwaits 0)).mp hwaits
    exact nomatch hgone.symm.trans (hpresent.reader hmet)

/-- The writer finds the reader. -/
theorem not_stuck_of_polite_sample :
    ([.openRead, .openWrite, .stepWriter].foldl step new).writerReturned = true ∧
      ¬ ([.openRead, .openWrite, .stepWriter].foldl step new).Stuck :=
  ⟨by decide, not_stuck_of_polite (by decide)⟩

/-- The writer comes, sees the reader and goes again before the reader has looked. -/
theorem reader_stuck :
    ([.openRead, .openWrite, .stepWriter, .closeWrite].foldl step new).Stuck :=
  .inl ⟨by decide, (waits_reader_iff (by decide)).mpr (by decide)⟩

end Meeting

end D3OS.Naming
