import D3OS.Process.Scheduler

/-!
# What `unblock` changes

`unblock` looks for a thread in the blocked list, among the current threads and in the ready queue.
For a thread that it finds in the ready queue it sets the state of the thread that runs.
-/

namespace D3OS.Scheduler

namespace Core

/-- How often a thread is in the lists of a core. -/
def listed (thread : Thread) (c : Core) : Nat :=
  c.readyQueue.count thread + c.blockedList.count thread +
    (c.sleepList.map Prod.fst).count thread + (c.joinMap.map Prod.snd).count thread

/-- A core but for the place of a thread in the blocked list or the ready queue. -/
def apartFrom (thread : Thread) (c : Core) : Core :=
  { c with
    readyQueue := c.readyQueue.filter (· ≠ thread)
    blockedList := c.blockedList.filter (· ≠ thread) }

end Core

namespace Section

/-- A call that changes the state and the place of one thread only, makes it ready or running when
it reports it found, and changes nothing when it does not. -/
structure Touches (thread : Thread) (x : Section) (result : Bool × Section) : Prop where
  states : ∀ id, id ≠ thread.id → result.2.states id = x.states id
  places : result.2.core.apartFrom thread = x.core.apartFrom thread
  threads : result.2.activeTids = x.activeTids
  sent : result.2.broadcast = x.broadcast
  found : result.1 = true → result.2.core.listed thread ≤ 1 ∧
    (result.2.states thread.id = .ready ∨ result.2.states thread.id = .running)
  missed : result.1 = false → result.2 = x

/-- What `unblock` needs where it finds the thread: that is its only list, and if it is the ready
queue, the states of the thread and of the current one are right already. -/
def Unblockable (pid tid : Nat) (x : Section) : Prop :=
  if ⟨tid, pid⟩ ∈ x.core.blockedList then x.core.listed ⟨tid, pid⟩ ≤ 1
  else
    match x.core.currentThread with
    | none => True
    | some current =>
      if current = ⟨tid, pid⟩ then x.core.listed ⟨tid, pid⟩ ≤ 1
      else if ⟨tid, pid⟩ ∈ x.core.readyQueue then
        x.core.listed ⟨tid, pid⟩ ≤ 1 ∧ (current.id = tid ∨ x.states current.id = .ready ∧
          (x.states tid = .ready ∨ x.states tid = .running))
      else True

variable {thread : Thread} {x : Section}

private theorem touches_same : Touches thread x (false, x) :=
  ⟨fun _ _ ↦ rfl, rfl, rfl, rfl, nofun, fun _ ↦ rfl⟩

private theorem touches_wakeBlocked (h : thread ∈ x.core.blockedList) :
    Touches thread x (true, (x.setState thread.id .ready).onCore (·.wakeBlocked thread)) ↔
      x.core.listed thread ≤ 1 := by
  have hlisted : (x.core.wakeBlocked thread).listed thread = x.core.listed thread := by
    have hpos := List.count_pos_iff.mpr h
    simp only [Core.wakeBlocked, Core.listed, Core.pushFront, List.reverse_singleton,
      List.count_append, List.count_singleton_self, List.count_erase_self]
    omega
  have hplaces : (x.core.wakeBlocked thread).apartFrom thread = x.core.apartFrom thread := by
    simp [Core.wakeBlocked, Core.apartFrom, Core.pushFront, ← List.erase_filter,
      List.erase_of_not_mem]
  constructor
  · exact fun ht ↦ hlisted ▸ (ht.found rfl).1
  · exact fun hle ↦ ⟨fun id hid ↦ Function.update_of_ne hid _ _, hplaces, rfl, rfl,
      fun _ ↦ ⟨hlisted ▸ hle, .inl (Function.update_self _ _ _)⟩, nofun⟩

private theorem touches_setState {id : Nat} {state : ThreadState} :
    Touches thread x (true, x.setState id state) ↔ x.core.listed thread ≤ 1 ∧
      (id = thread.id ∨ x.states id = state) ∧ ((x.setState id state).states thread.id = .ready ∨
        (x.setState id state).states thread.id = .running) := by
  constructor
  · intro ht
    obtain ⟨hlisted, hstate⟩ := ht.found rfl
    refine ⟨hlisted, or_iff_not_imp_left.mpr fun hne ↦ ?_, hstate⟩
    rw [← ht.states id hne]
    exact Function.update_self id state x.states
  · rintro ⟨hlisted, hother, hstate⟩
    refine ⟨fun i hi ↦ ?_, rfl, rfl, rfl, fun _ ↦ ⟨hlisted, hstate⟩, nofun⟩
    by_cases heq : i = id
    · subst heq
      exact (Function.update_self _ _ _).trans (hother.resolve_left hi).symm
    · exact Function.update_of_ne heq _ _

/-- `unblock` keeps to its thread exactly if what it needs holds. -/
theorem unblock_touches_iff (pid tid : Nat) (x : Section) :
    Touches ⟨tid, pid⟩ x (x.unblock pid tid) ↔ x.Unblockable pid tid := by
  rw [unblock, Unblockable]
  split
  next hblocked => exact touches_wakeBlocked hblocked
  · cases x.core.currentThread with
    | none => exact iff_of_true touches_same trivial
    | some current =>
      dsimp only
      split
      · rw [touches_setState]
        exact and_iff_left ⟨.inl rfl, .inr (Function.update_self tid _ x.states)⟩
      · split
        · rw [touches_setState]
          refine and_congr_right fun _ ↦ ?_
          by_cases hid : current.id = tid
          · exact iff_of_true ⟨.inl hid, .inl (hid ▸ Function.update_self _ _ _)⟩ (.inl hid)
          · have hstate : (x.setState current.id .ready).states tid = x.states tid :=
              Function.update_of_ne (Ne.symm hid) _ _
            rw [hstate, or_iff_right hid, or_iff_right hid]
        · exact iff_of_true touches_same trivial

/-- Thread 1 runs and thread 2 is ready. -/
def wakingReady : Section where
  core := { System.bootCore ⟨0, 0⟩ with currentThread := some ⟨1, 0⟩, readyQueue := [⟨2, 0⟩] }
  activeTids := {1, 2}
  states id := if id = 1 then .running else .ready
  broadcast := []

/-- The thread that runs gets the state `Ready` when the one in the queue is unblocked. -/
theorem unblock_changes_current : wakingReady.states 1 = .running ∧
    (wakingReady.unblock 0 2).2.states 1 = .ready ∧
    ¬ Touches ⟨2, 0⟩ wakingReady (wakingReady.unblock 0 2) :=
  ⟨rfl, rfl, fun h ↦ nomatch h.states 1 (by decide)⟩

end Section

end D3OS.Scheduler
