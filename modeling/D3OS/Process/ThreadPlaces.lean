import D3OS.Process.SystemSteps
import D3OS.Lib.Runs

/-!
# Every thread is in one place

In every run whose steps lose no thread (`Keeps`), a thread that was started and has neither
exited nor been killed is counted exactly once over all places of all cores.
-/

namespace D3OS.Scheduler

open Lib

/-- Which threads were started, exited or were the target of a kill so far. -/
structure History where
  started : Finset Nat
  exited : Finset Nat
  killed : Finset Nat
  deriving DecidableEq

/-- A system with what happened so far. -/
@[ext] structure Traced (n : Nat) where
  system : System n
  history : History

namespace Traced

variable {n : Nat} {t t' : Traced n}

/-- What an event adds to the history of a system. A number that was not given out yet cannot
be killed. -/
def record (s : System n) (h : History) : Event n → History
  | .spawn _ _ => { h with started := insert s.nextThreadId h.started }
  | .exit i _ =>
    match (s.cores i).currentThread with
    | some thread => { h with exited := insert thread.id h.exited }
    | none => h
  | .kill _ tid =>
    if tid < s.nextThreadId then { h with killed := insert tid h.killed } else h
  | _ => h

/-- One step of the system, with its history. -/
def step (t : Traced n) (e : Event n) : Except Panic (Traced n) := do
  let s ← t.system.step e
  return ⟨s, record t.system t.history e⟩

/-- A system in its initial state. -/
def initial (s : System n) : Traced n := ⟨s, ⟨∅, ∅, ∅⟩⟩

/-- The thread was started and has neither exited nor been killed. -/
def Lives (t : Traced n) (id : Nat) : Prop :=
  id ∈ t.history.started ∧ id ∉ t.history.exited ∧ id ∉ t.history.killed

/-- Every such thread is in exactly one place: current on a core, in a ready queue, a sleep
list, a blocked list, a join list or a message of an inbox. -/
def OnePlace (t : Traced n) : Prop := ∀ id, t.Lives id → t.system.count id = 1

/-- The thread has ended or is going to end. -/
def Ended (h : History) (id : Nat) : Prop := id ∈ h.exited ∨ id ∈ h.killed

/-- The numbers that are in use, the kill commands on their way and the threads that were
started. -/
structure Numbered (t : Traced n) : Prop where
  below : t.system.Below t.system.nextThreadId
  kills : t.system.Kills (Ended t.history)
  started : ∀ id ∈ t.history.started, id < t.system.nextThreadId
  idle : ∀ i, (t.system.cores i).idleThread.id ∉ t.history.started

variable {e : Event n}

/-- The parts of a step. -/
theorem step_eq_ok (h : t.step e = .ok t') :
    t.system.step e = .ok t'.system ∧ t'.history = record t.system t.history e := by
  obtain ⟨s, hs, h⟩ := of_bind h
  cases h
  exact ⟨hs, rfl⟩

variable {s : System n} {h : History} {id : Nat}

private theorem ended_record (hid : Ended h id) : Ended (record s h e) id := by
  cases e with
  | exit i time =>
    rw [record]
    split
    · exact hid.imp_left Finset.mem_insert_of_mem
    · exact hid
  | kill i tid =>
    rw [record]
    split
    · exact hid.imp_right Finset.mem_insert_of_mem
    · exact hid
  | _ => exact hid

private theorem ended_of_ends (hs : s.Below s.nextThreadId) (hid : s.Ends e id) :
    Ended (record s h e) id := by
  cases e with
  | exit i time =>
    obtain ⟨thread, hthread, rfl⟩ := hid
    rw [record, hthread]
    exact .inl (Finset.mem_insert_self _ _)
  | kill i tid =>
    obtain ⟨rfl, halive⟩ := hid
    rw [record, if_pos ((hs i).alive _ halive)]
    exact .inr (Finset.mem_insert_self _ _)
  | _ => exact hid.elim

/-- Only `spawn` starts threads. -/
theorem started_record (he : ∀ i pid, e ≠ .spawn i pid) : (record s h e).started = h.started := by
  cases e with
  | spawn i pid => exact absurd rfl (he i pid)
  | exit i time | kill i tid =>
    rw [record]
    split <;> rfl
  | _ => rfl

section

variable (ht : t.Numbered)
include ht

private theorem kills_record : t.system.Kills (Ended (record t.system t.history e)) :=
  fun i id hid ↦ ended_record (ht.kills i id hid)

section

variable (he : ∀ i pid, e ≠ .spawn i pid)
include he

/-- The effect of a step of the system with its history. -/
theorem effect_step {L : Nat → Prop} (hL : t.system.Keeps e ∨ ∀ id, L id)
    (hfind : t.system.KillsMeet (fun tid c ↦ c.FindsAsleep tid ∨ L tid) e) (h : t.step e = .ok t') :
    t.system.Effect (Ended t'.history) L (t.system.GivesUp e) t'.system := by
  obtain ⟨hstep, hhistory⟩ := step_eq_ok h
  rw [hhistory]
  exact System.effect_step he (kills_record ht) (fun _ ↦ ended_of_ends ht.below)
    (fun _ _ _ ↦ id) hL hfind hstep

/-- The effect of a step in which any thread may be lost. -/
theorem effect_step_any (h : t.step e = .ok t') :
    t.system.Effect (Ended t'.history) (fun _ ↦ True) (t.system.GivesUp e) t'.system :=
  effect_step ht he (.inr fun _ ↦ trivial)
    (System.killsMeet_of_kills (fun _ _ _ _ ↦ .inr trivial) fun _ _ _ ↦ .inr trivial) h

/-- The effect of a step that loses no thread but those that are to be killed. -/
theorem effect_step_keeps (hkeeps : t.system.Keeps e) (h : t.step e = .ok t') :
    t.system.Effect (Ended t'.history) (Ended t'.history) (t.system.GivesUp e) t'.system := by
  refine effect_step ht he (.inl hkeeps) (System.killsMeet_of_kills ?_ ?_) h
  · intro i id hid c
    rw [(step_eq_ok h).2]
    exact .inr (kills_record ht i id hid)
  · intro id hid c
    rw [(step_eq_ok h).2]
    exact .inr (ended_of_ends ht.below hid)

end

/-- Numbers stay in order in every step, whether it loses a thread or not. -/
theorem numbered_step (h : t.step e = .ok t') : t'.Numbered := by
  obtain ⟨hstep, hhistory⟩ := step_eq_ok h
  by_cases he : ∃ i pid, e = .spawn i pid
  · obtain ⟨i, pid, rfl⟩ := he
    obtain ⟨hidle, -, hbelow, hnext, hlists, -⟩ := System.spawn_spec ht.below hstep
    refine ⟨hnext ▸ hbelow, ?_, ?_, ?_⟩
    · intro j id hid
      rw [(hlists j).2.2.2] at hid
      rw [hhistory]
      exact ht.kills j id hid
    · intro id hid
      rw [hhistory] at hid
      rw [hnext]
      rcases Finset.mem_insert.mp hid with rfl | hid
      · exact Nat.lt_succ_self _
      · exact Nat.lt_succ_of_lt (ht.started id hid)
    · intro j hid
      rw [hhistory, hidle j] at hid
      rcases Finset.mem_insert.mp hid with heq | hid
      · exact absurd heq (Nat.ne_of_lt (ht.below j).idle)
      · exact ht.idle j hid
  · push Not at he
    have heffect := effect_step_any ht he h
    have hstarted : t'.history.started = t.history.started := by
      rw [hhistory]
      exact started_record he
    refine ⟨?_, ?_, ?_, ?_⟩
    · rw [heffect.nextThreadId]
      exact heffect.below _ ht.below
    · refine heffect.kills fun i id hid ↦ ?_
      rw [hhistory]
      exact ended_record (ht.kills i id hid)
    · rw [hstarted, heffect.nextThreadId]
      exact ht.started
    · intro i
      rw [hstarted, heffect.idle i]
      exact ht.idle i

/-- A thread that has started is no idle thread. -/
theorem Numbered.ne_idle (hid : id ∈ t.history.started) (i : Fin n) :
    id ≠ (t.system.cores i).idleThread.id := by
  rintro rfl
  exact ht.idle i hid

end

/-- Nor does another step revive one. -/
theorem lives_of_step (he : ∀ i pid, e ≠ .spawn i pid) (h : t.step e = .ok t') (hid : t'.Lives id) :
    t.Lives id := by
  obtain ⟨-, hhistory⟩ := step_eq_ok h
  obtain ⟨hstarted, hexited, hkilled⟩ := hid
  have hended : ¬ Ended t.history id := by
    intro hended
    have := ended_record (s := t.system) (e := e) hended
    rw [← hhistory] at this
    exact this.elim hexited hkilled
  rw [hhistory, started_record he] at hstarted
  exact ⟨hstarted, fun h ↦ hended (.inl h), fun h ↦ hended (.inr h)⟩

/-- A number that was not given out yet is in no place. -/
theorem Numbered.count_next (ht : t.Numbered) : t.system.count t.system.nextThreadId = 0 := by
  by_contra hne
  obtain ⟨j, hj⟩ := System.exists_count_pos (Nat.pos_of_ne_zero hne)
  exact absurd ((ht.below j).count _ hj) (Nat.lt_irrefl _)

/-- A step that keeps threads keeps them in one place. -/
theorem onePlace_step (ht : t.Numbered) (hone : t.OnePlace) (hkeeps : t.system.Keeps e)
    (h : t.step e = .ok t') : t'.OnePlace := by
  intro id hid
  by_cases he : ∃ i pid, e = .spawn i pid
  · obtain ⟨hstep, hhistory⟩ := step_eq_ok h
    obtain ⟨i, pid, rfl⟩ := he
    obtain ⟨-, hcount, -⟩ := System.spawn_spec ht.below hstep
    rw [Lives, hhistory] at hid
    rw [hcount id]
    rcases Finset.mem_insert.mp hid.1 with rfl | hstarted
    · rw [ht.count_next, if_pos rfl]
    · rw [if_neg (Nat.ne_of_lt (ht.started id hstarted)), Nat.add_zero]
      exact hone id ⟨hstarted, hid.2⟩
  · push Not at he
    have heffect := effect_step_keeps ht he hkeeps h
    have hlives := lives_of_step he h hid
    have hended : ¬ Ended t'.history id := fun hended ↦ hended.elim hid.2.1 hid.2.2
    rw [heffect.count_eq id (ht.ne_idle hlives.1) hended hended]
    exact hone id hlives

/-- The ids at the start. -/
theorem numbered_initial (hs : s.Initial) : (initial s).Numbered := by
  have hcount : ∀ i id, (s.cores i).count id = 0 := by
    intro i id
    rw [Core.count, Core.held_eq, Core.flying, hs.current i, hs.ready i, hs.asleep i,
      hs.blocked i, hs.joining i, hs.inbox i]
    rfl
  refine ⟨fun i ↦ ⟨?_, ?_, ?_, hs.idle i⟩, ?_, ?_, ?_⟩
  · intro id hid
    change id ∈ s.activeTids at hid
    rw [hs.activeTids] at hid
    cases hid
  · intro entry hentry
    change entry ∈ (s.cores i).joinMap at hentry
    rw [hs.joining i] at hentry
    cases hentry
  · intro id hid
    exact absurd (hcount i id) (Nat.ne_of_gt hid)
  · intro i id hid
    change _ ∈ (s.cores i).inbox at hid
    rw [hs.inbox i] at hid
    cases hid
  · intro id hid
    cases hid
  · intro i hid
    cases hid

/-- In every run whose steps lose no thread, every thread that was started and has neither
exited nor been killed is in exactly one place. -/
theorem thread_in_one_place {s : System n} (hs : s.Initial) (events : List (Event n))
    (hkeeps : Along step (fun t e _ ↦ t.system.Keeps e) (initial s) events) {t : Traced n}
    (hrun : events.foldlM step (initial s) = .ok t) : t.OnePlace := by
  refine (Along.invariant (I := fun t ↦ t.Numbered ∧ t.OnePlace) hkeeps hrun ?_ ?_).2
  · refine ⟨numbered_initial hs, ?_⟩
    rintro id ⟨hid, -⟩
    cases hid
  · rintro t e t' ⟨hnumbered, hone⟩ hstep hkeeps
    exact ⟨numbered_step hnumbered hstep, onePlace_step hnumbered hone hkeeps hstep⟩

instance (t : Traced n) (id : Nat) : Decidable (t.Lives id) :=
  inferInstanceAs (Decidable (_ ∧ _ ∧ _))

/-- Two cores are up and three threads start. One of them moves to the other core, sleeps there
and exits, and a thread on the first core joins it. -/
private def sampleEvents : List (Event 2) :=
  [.init 0, .init 1, .start 0, .start 1, .spawn 0 7, .spawn 0 7, .spawn 0 7,
    .switchThread 0 1 true false, .switchThread 1 1 true false, .join 0 4 3, .sleep 1 3 10 3,
    .switchThread 1 20 true false, .exit 1 21, .switchThread 0 22 true false]

/-- The thread that waited is alive. -/
theorem thread_in_one_place_sample :
    ∃ t, sampleEvents.foldlM step (initial (System.boot 2 100)) = .ok t ∧ t.Lives 2 ∧
      t.OnePlace := by
  obtain ⟨t, hrun, ht⟩ : ∃ t, sampleEvents.foldlM step (initial (System.boot 2 100)) = .ok t ∧
      t.Lives 2 := by
    decide +kernel
  exact ⟨t, hrun, ht,
    thread_in_one_place (System.initial_boot 2 100) sampleEvents (by decide +kernel) hrun⟩

/-- Core 0 with its idle thread and `k` ready threads. -/
private def crowdCore (k : Nat) : Core :=
  { System.bootCore ⟨0, 0⟩ with
    initialized := true
    currentThread := some ⟨0, 0⟩
    readyQueue := ((List.range k).map fun j ↦ ⟨j + 2, 0⟩).reverse
    rqLen := k }

private def crowd (k : Nat) : Traced 2 where
  system :=
    { cores := fun i ↦
        if i = 0 then crowdCore k
        else { System.bootCore ⟨1, 0⟩ with initialized := true, currentThread := some ⟨1, 0⟩ }
      activeTids := (Finset.range k).image (· + 2)
      states := fun _ ↦ .created
      nextThreadId := k + 2
      inboxSize := 100 }
  history := ⟨(Finset.range k).image (· + 2), ∅, ∅⟩

private theorem spawn_crowd {k : Nat} (hk : k + 1 < 2 ^ 32) :
    (crowd k).step (.spawn 0 0) = .ok (crowd (k + 1)) := by
  have himage : insert (k + 2) ((Finset.range k).image (· + 2)) =
      (Finset.range (k + 1)).image (· + 2) := by
    rw [Finset.range_add_one, Finset.image_insert]
  have hleave : (crowd k).system.spawn 0 0 = .ok (crowd (k + 1)).system := by
    have hroom : ∀ j, j ≠ 0 → ((crowd k).system.cores j).inbox.length +
        (((crowd k).system.enter 0).ready ⟨k + 2, 0⟩).broadcast.length ≤ 100 := by
      intro j hj
      simp [crowd, hj, System.bootCore, Section.ready, Section.onCore, System.enter]
    have hcore : (((crowd k).system.enter 0).ready ⟨k + 2, 0⟩).core = crowdCore (k + 1) := by
      simpa [crowd, Section.ready, Section.onCore, System.enter, crowdCore, Core.incRqLen,
        Core.pushFront, System.bootCore, List.range_succ] using hk
    rw [System.spawn, System.leave]
    refine (if_pos hroom).trans (congrArg Except.ok ?_)
    refine System.ext (funext fun j ↦ ?_) himage rfl rfl rfl
    by_cases hj : j = 0
    · rw [hj]
      exact hcore
    · simp [crowd, hj, System.bootCore, Section.ready, Section.onCore, System.enter]
  rw [step, System.step, hleave]
  simp only [bind, Except.bind, pure, Except.pure, record, crowd, himage]

private theorem spawns_crowd (k : Nat) (hk : k < 2 ^ 32) :
    (List.replicate k (.spawn 0 0)).foldlM step (crowd 0) = .ok (crowd k) := by
  induction k with
  | zero => rfl
  | succ k ih =>
    rw [List.replicate_succ']
    exact foldlM_concat (ih (Nat.lt_of_succ_lt hk)) (spawn_crowd hk)

private theorem boot_crowd :
    [Event.init 0, .init 1, .start 0, .start 1].foldlM step (initial (System.boot 2 100)) =
      .ok (crowd 0) := by
  refine congrArg Except.ok ?_
  refine Traced.ext (System.ext (funext ?_) rfl rfl rfl rfl) rfl
  exact Fin.forall_fin_two.mpr ⟨rfl, rfl⟩

/-- 401 threads are started on a core. At its next tick it sends 101 of them to the other core,
whose inbox takes 100: the last one is dropped and is in no place any more. -/
theorem balance_drops_thread :
    ∃ t : Traced 2, ([Event.init 0, .init 1, .start 0, .start 1] ++
      List.replicate 401 (Event.spawn 0 0) ++ [Event.switchThread 0 0 true false]).foldlM step
        (initial (System.boot 2 100)) = .ok t ∧ t.Lives 302 ∧ t.system.count 302 = 0 := by
  obtain ⟨t, htick, ht⟩ : ∃ t, (crowd 401).step (.switchThread 0 0 true false) = .ok t ∧
      t.system.count 302 = 0 := by
    decide +kernel
  have hspawns := foldlM_append_ok boot_crowd (spawns_crowd 401 (by decide))
  have hlives : t.Lives 302 := by
    rw [Lives, (step_eq_ok htick).2]
    exact ⟨Finset.mem_image.mpr ⟨300, Finset.mem_range.mpr (by decide), rfl⟩,
      Finset.notMem_empty _, Finset.notMem_empty _⟩
  exact ⟨t, foldlM_concat hspawns htick, hlives, ht⟩

end Traced

end D3OS.Scheduler
