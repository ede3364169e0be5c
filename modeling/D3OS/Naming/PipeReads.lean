import D3OS.Naming.Pipe

/-!
# What reads of a pipe return

The bytes that reads return are a prefix of the bytes that were put in, in every run. That a short
read or the end of the file mean that the writer has gone rests on the counter, which lags behind
the queue: it holds in runs where no byte is taken off the counter before it was added, and where no
writer opens the pipe in the middle of a read.
-/

namespace D3OS.Naming

/-- A short read means that the writer has gone, an empty one that also all bytes have been read. -/
def ReadResult.Fine (r : ReadResult) : Prop :=
  (r.got.length < r.asked → r.hasWriter = false) ∧
    (r.got = [] → 0 < r.asked → r.hasWriter = false ∧ r.allRead = true)

instance (r : ReadResult) : Decidable r.Fine := inferInstanceAs (Decidable (_ ∧ _))

namespace Pipe

/-- The reader is within a call of `read`. -/
def Reading (p : Pipe) : Prop := p.reader ≠ .closed ∧ p.reader ≠ .opening ∧ p.reader ≠ .idle

instance (p : Pipe) : Decidable p.Reading := inferInstanceAs (Decidable (_ ∧ _))

/-- The byte that a read takes off the counter has been added, and a writer does not open the pipe
within a read. -/
def Calm (p : Pipe) : Event → Prop
  | .stepReader =>
    match p.reader with
    | .decrement _ _ _ => p.count ≠ 0
    | _ => True
  | .openWrite => ¬ p.Reading
  | _ => True

instance (p : Pipe) (event : Event) : Decidable (p.Calm event) := by
  rcases event <;> dsimp only [Calm]
  case stepReader => rcases p.reader <;> infer_instance
  all_goals infer_instance

/-- Every event of a run is calm where it happens. -/
def AllCalm : Pipe → List Event → Prop
  | _, [] => True
  | p, event :: events => p.Calm event ∧ AllCalm (p.step event) events

instance decidableAllCalm : (p : Pipe) → (events : List Event) → Decidable (AllCalm p events)
  | _, [] => inferInstanceAs (Decidable True)
  | p, event :: events =>
    have := decidableAllCalm (p.step event) events
    inferInstanceAs (Decidable (_ ∧ _))

/-- The counter follows the queue, and the reads that returned are fine. -/
structure Sound (p : Pipe) : Prop where
  conserves : p.Conserves
  room : p.queue.length ≤ pipeSize
  count : p.count + p.uncounted = p.queue.length + p.taken
  passed : p.Passed
  reads : ∀ r ∈ p.reads, r.Fine

private theorem sound_new : new.Sound :=
  ⟨counted_new.toConserves, by decide, rfl, trivial, nofun⟩

section

variable {p p' : Pipe}

private theorem Counted.count_eq (h : p.Counted) (hlt : p.count < 2 ^ 64 - 1) :
    p.count + p.uncounted = p.queue.length + p.taken := by
  have hcount := h.count
  have hroom : p.queue.length ≤ 4096 := h.room
  have := p.taken_le
  have := p.uncounted_le
  omega

section

variable (h : p.Sound)
include h

private theorem Sound.count_le : p.count ≤ 4097 := by
  have hcount := h.count
  have hroom : p.queue.length ≤ 4096 := h.room
  have := p.taken_le
  omega

private theorem Sound.counted : p.Counted := by
  have hle := h.count_le
  refine ⟨h.conserves, h.room, by omega, ?_⟩
  rw [h.count]

private theorem Sound.of_counted (hcounted : p'.Counted) (hle : p'.count ≤ p.count + 1)
    (hpassed : p'.Passed) (hreads : ∀ r ∈ p'.reads, r.Fine) : p'.Sound := by
  have := h.count_le
  exact ⟨hcounted.toConserves, hcounted.room, hcounted.count_eq (by omega), hpassed, hreads⟩

private theorem Sound.queue_eq_nil (hgone : p.hasWriter = false) (hcount : p.count = 0)
    (htaken : p.taken = 0) : p.queue = [] := by
  have hclosed : p.writer = .closed := by
    by_contra hopen
    rw [h.conserves.writer.mpr hopen] at hgone
    cases hgone
  have hlength := h.count
  rw [uncounted, hclosed, hcount, htaken] at hlength
  exact List.eq_nil_of_length_eq_zero hlength.symm

private theorem Sound.readerStep (hstep : ReaderStep p p')
    (hcalm : ∀ n got byte, p.reader = .decrement n got byte → p.count ≠ 0) : p'.Sound := by
  have hcounted := h.counted.readerStep hstep
  cases hstep with
  | stay => exact h
  | move hreader hopen hopen' hhand htaken hpassed =>
    subst hreader
    exact h.of_counted hcounted (Nat.le_succ _) (hpassed h.passed) h.reads
  | done hreader hopen hgot htaken hshort =>
    subst hreader
    refine h.of_counted hcounted (Nat.le_succ _) trivial (List.forall_mem_cons.mpr ⟨?_, h.reads⟩)
    refine ⟨fun hlt ↦ (hshort h.passed hlt).1, ?_⟩
    rintro rfl hpos
    obtain ⟨hgone, hzero⟩ := hshort h.passed hpos
    have hbytes := h.conserves.bytes
    rw [h.queue_eq_nil hgone hzero htaken, List.append_nil, hgot] at hbytes
    exact ⟨hgone, beq_iff_eq.mpr hbytes.symm⟩
  | dequeue hreader hqueue => exact h.of_counted hcounted (Nat.le_succ _) trivial h.reads
  | decrement hreader =>
    have := hcalm _ _ _ hreader
    have := h.count_le
    exact h.of_counted hcounted (by dsimp only; omega) trivial h.reads

end

private theorem Passed.mono (h : p.Passed) (hopen : p.hasWriter = true)
    (hreader : p'.reader = p.reader) (hle : p.count ≤ p'.count) : p'.Passed := by
  rw [Passed] at h ⊢
  rw [hreader]
  cases hpc : p.reader with
  | eof n | check n got =>
    simp only [hpc, hopen, Bool.true_eq_false, or_false] at h
    exact Or.inl (Nat.lt_of_lt_of_le h hle)
  | eofWriter n =>
    simp only [hpc, hopen, Bool.true_eq_false, and_false] at h
  | _ => trivial

private theorem Sound.writerStep (h : p.Sound) (hstep : WriterStep p p') : p'.Sound := by
  have hcounted := h.counted.writerStep hstep
  cases hstep with
  | stay => exact h
  | move hwriter hopen hopen' huncounted =>
    exact h.of_counted hcounted (Nat.le_succ _) h.passed h.reads
  | enqueue hwriter hspace => exact h.of_counted hcounted (Nat.le_succ _) h.passed h.reads
  | increment hwriter =>
    have hopen : p.hasWriter = true := h.conserves.writer.mpr (by simp [hwriter])
    have hsucc : (p.count + 1) % 2 ^ 64 = p.count + 1 := by
      have := h.count_le
      omega
    rw [hsucc] at hcounted ⊢
    exact h.of_counted hcounted (Nat.le_refl _) (h.passed.mono hopen rfl (Nat.le_succ _)) h.reads

private theorem passed_of_not_reading (h : ¬ p.Reading) : p.Passed := by
  rw [Passed]
  split
  next hpc => exact absurd ⟨by simp [hpc], by simp [hpc], by simp [hpc]⟩ h
  next hpc => exact absurd ⟨by simp [hpc], by simp [hpc], by simp [hpc]⟩ h
  next hpc => exact absurd ⟨by simp [hpc], by simp [hpc], by simp [hpc]⟩ h
  · trivial

private theorem Sound.reset (h : p.Sound) (hcounted : p'.reset.Counted) (hle : p'.count ≤ p.count)
    (hpassed : p'.Passed) (hreads : p'.reads = p.reads) : p'.reset.Sound := by
  rw [Pipe.reset] at hcounted ⊢
  split
  next hgone =>
    rw [if_pos hgone] at hcounted
    have hclosed : p'.reader = .closed :=
      of_not_not fun hopen ↦ hgone.1 (hcounted.reader.mpr hopen)
    exact h.of_counted hcounted (Nat.zero_le _) (by simp [Passed, hclosed]) (hreads ▸ h.reads)
  next hstays =>
    rw [if_neg hstays] at hcounted
    exact h.of_counted hcounted (Nat.le_succ_of_le hle) hpassed (hreads ▸ h.reads)

private theorem Sound.step (h : p.Sound) {event : Event} (hcalm : p.Calm event) :
    (p.step event).Sound := by
  have hcounted := h.counted.step event
  cases event with
  | stepReader =>
    refine h.readerStep p.readerStep fun n got byte hreader ↦ ?_
    rw [Calm, hreader] at hcalm
    exact hcalm
  | stepWriter => exact h.writerStep p.writerStep
  | openRead =>
    rw [Pipe.step] at hcounted ⊢
    split
    next hopen =>
      rw [if_pos hopen] at hcounted
      exact h.of_counted hcounted (Nat.le_succ _) trivial h.reads
    · exact h
  | openWrite =>
    rw [Pipe.step] at hcounted ⊢
    split
    next hopen =>
      rw [if_pos hopen] at hcounted
      exact h.of_counted hcounted (Nat.le_succ _) (passed_of_not_reading hcalm) h.reads
    · exact h
  | read n =>
    rw [Pipe.step]
    split
    next hidle =>
      exact h.readerStep (readerStep_read hidle n) fun _ _ _ hreader ↦ by
        cases hidle.symm.trans hreader
    · exact h
  | write buf =>
    rw [Pipe.step]
    split
    next hidle => exact h.writerStep (.move hidle.1 (by rintro ⟨⟩) (by rintro ⟨⟩) rfl)
    · exact h
  | closeRead =>
    rw [Pipe.step] at hcounted ⊢
    split
    next hidle =>
      rw [if_pos hidle] at hcounted
      exact h.reset hcounted (Nat.le_refl _) trivial rfl
    · exact h
  | closeWrite =>
    rw [Pipe.step] at hcounted ⊢
    split
    next hidle =>
      rw [if_pos hidle] at hcounted
      have hopen : p.hasWriter = true := h.conserves.writer.mpr (by simp [hidle])
      exact h.reset hcounted (Nat.le_refl _) (h.passed.mono hopen rfl (Nat.le_refl _)) rfl
    · exact h

end

private theorem sound_run {p : Pipe} (h : p.Sound) {events : List Event}
    (hcalm : AllCalm p events) :
    (p.run events).Sound := by
  induction events generalizing p with
  | nil => exact h
  | cons event events ih => exact ih (h.step hcalm.1) hcalm.2

private theorem returned_in_order (events : List Event) :
    (new.run events).returned <+: (new.run events).enqueued := by
  rw [(counted_run events).bytes, List.append_assoc]
  exact List.prefix_append _ _

/-- In every run whose steps are all calm, in every state that is reached: what reads returned since
the last reset is a prefix of what writes put in, so each byte comes at most once and in order; a
read returned fewer bytes than it asked for only when the writer had gone, and none only when also
every byte that was put in had been read. -/
theorem reads_of_calm_run {events : List Event} (hcalm : AllCalm new events) :
    (new.run events).returned <+: (new.run events).enqueued ∧
      ∀ r ∈ (new.run events).reads, r.Fine :=
  ⟨returned_in_order events, (sound_run sound_new hcalm).reads⟩

/-- Both sides open the pipe, the writer puts two bytes in and the reader asks for one, then for
two; the writer closes, and the second read returns what is left. -/
def calmEvents : List Event :=
  [.openRead, .openWrite, .stepReader, .stepWriter, .write [1, 2]] ++
    List.replicate 7 .stepWriter ++ [.read 1] ++ List.replicate 5 .stepReader ++
    [.read 2] ++ List.replicate 4 .stepReader ++ [.closeWrite] ++ List.replicate 6 .stepReader

/-- Each read returns a byte, the second one for want of a writer. -/
theorem reads_of_calm_run_sample :
    (new.run calmEvents).reads = [⟨2, [2], false, true⟩, ⟨1, [1], true, false⟩] ∧
      ∀ r ∈ (new.run calmEvents).reads, r.Fine :=
  ⟨by decide, (reads_of_calm_run (by decide)).2⟩

/-- The reader takes the second byte before the writer has counted it, so the counter wraps and lets
it pass the wait; then the writer counts the byte. -/
def unluckyEvents : List Event :=
  [.openRead, .openWrite, .stepReader, .stepWriter, .write [1, 2, 3]] ++
    List.replicate 4 .stepWriter ++ [.read 3] ++ List.replicate 4 .stepReader ++ [.stepWriter] ++
    List.replicate 4 .stepReader ++ [.stepWriter, .stepReader]

/-- The read returns two of three bytes although the writer is still there. -/
theorem short_read_with_writer :
    (new.run unluckyEvents).reads = [⟨3, [1, 2], true, true⟩] ∧
      ¬ ∀ r ∈ (new.run unluckyEvents).reads, r.Fine := by
  decide

end Pipe

end D3OS.Naming
