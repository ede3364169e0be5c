import D3OS.Process.Scheduler

/-!
# The places of a thread

How often a thread number occurs on a core: as the current thread, in the ready queue, the
sleep list, the blocked list and the join map (`held`), and in a message of the inbox
(`flying`).
-/

namespace D3OS.Scheduler

/-- The number of threads of a list that have the number. -/
def occurs (id : Nat) (threads : List Thread) : Nat := threads.countP fun t ↦ t.id = id

section

variable (id : Nat) (threads : List Thread)

/-- No thread is in an empty list. -/
@[simp] theorem occurs_nil : occurs id [] = 0 := rfl

/-- A list of one thread. -/
@[simp] theorem occurs_singleton (t : Thread) :
    occurs id [t] = if t.id = id then 1 else 0 := by
  simp [occurs, List.countP_cons]

/-- One more thread. -/
@[simp] theorem occurs_cons (t : Thread) :
    occurs id (t :: threads) = occurs id threads + if t.id = id then 1 else 0 := by
  simp [occurs, List.countP_cons]

/-- The threads of two lists. -/
@[simp] theorem occurs_append (more : List Thread) :
    occurs id (threads ++ more) = occurs id threads + occurs id more := by
  simp [occurs]

/-- The order does not matter. -/
@[simp] theorem occurs_reverse : occurs id threads.reverse = occurs id threads := by
  simp [occurs]

/-- A thread of the list has the id. -/
theorem occurs_pos_iff : 0 < occurs id threads ↔ ∃ t ∈ threads, t.id = id := by
  simp [occurs, List.countP_pos_iff]

variable {id} in
/-- An entry of the list has the thread. -/
theorem occurs_map_pos_iff {α : Type} {f : α → Thread} {l : List α} :
    0 < occurs id (l.map f) ↔ ∃ a ∈ l, (f a).id = id := by
  simp [occurs_pos_iff]

/-- A list of entries, parted by a test, keeps its threads. -/
theorem occurs_map_filter {α : Type} (f : α → Thread) (p : α → Prop) [DecidablePred p]
    (l : List α) :
    occurs id ((l.filter fun a ↦ p a).map f) + occurs id ((l.filter fun a ↦ ¬ p a).map f) =
      occurs id (l.map f) := by
  induction l with
  | nil => rfl
  | cons a l ih =>
    by_cases h : p a
    · simp only [List.filter_cons, h, decide_true, not_true_eq_false, decide_false, if_true,
        List.map_cons, occurs_cons]
      simp only [Bool.false_eq_true, if_false]
      omega
    · simp only [List.filter_cons, h, decide_true, not_false_eq_true, decide_false, if_true,
        List.map_cons, occurs_cons]
      simp only [Bool.false_eq_true, if_false]
      omega

/-- One thread less. -/
theorem occurs_erase {t : Thread} (h : t ∈ threads) :
    occurs id (threads.erase t) + (if t.id = id then 1 else 0) = occurs id threads := by
  have hperm := (List.perm_cons_erase h).countP_eq fun t ↦ t.id = id
  rw [occurs, occurs, hperm, List.countP_cons]
  simp

private theorem occurs_dropLast {t : Thread} (h : threads.getLast? = some t) :
    occurs id threads.dropLast + (if t.id = id then 1 else 0) = occurs id threads := by
  conv_rhs => rw [← List.dropLast_append_getLast? t h]
  rw [occurs_append, occurs_singleton]

/-- Threads with other numbers do not count. -/
theorem occurs_map_filter_ne {α : Type} (f : α → Thread) {id tid : Nat} (h : id ≠ tid)
    (l : List α) :
    occurs id ((l.filter fun a ↦ (f a).id ≠ tid).map f) = occurs id (l.map f) := by
  induction l with
  | nil => rfl
  | cons a l ih =>
    by_cases ha : (f a).id = tid
    · simp only [List.filter_cons, ha, ne_eq, not_true_eq_false, decide_false,
        Bool.false_eq_true, if_false, List.map_cons, occurs_cons, ih]
      rw [if_neg (Ne.symm h), Nat.add_zero]
    · simp only [List.filter_cons, ha, ne_eq, not_false_eq_true, decide_true, if_true,
        List.map_cons, occurs_cons]
      rw [ih]

/-- The entries of a thread are dropped. -/
theorem occurs_map_filter_self {α : Type} (f : α → Thread) (tid : Nat) (l : List α) :
    occurs tid ((l.filter fun a ↦ (f a).id ≠ tid).map f) = 0 := by
  induction l with
  | nil => rfl
  | cons a l ih =>
    by_cases ha : (f a).id = tid
    · simpa [List.filter_cons, ha] using ih
    · simpa [List.filter_cons, ha] using ih

end

/-- The message brings a thread with the number. -/
def MessageItem.Brings (id : Nat) : MessageItem → Bool
  | .thread t => t.id = id
  | .cmd _ => false

namespace Core

/-- The threads in the lists of a core and its current thread. -/
def places (c : Core) : List Thread :=
  c.currentThread.toList ++ c.readyQueue ++ c.sleepList.map Prod.fst ++ c.blockedList ++
    c.joinMap.map Prod.snd

/-- How often a thread is current or in a list of the core. -/
def held (id : Nat) (c : Core) : Nat := occurs id c.places

/-- How often a thread is in a message of the inbox. -/
def flying (id : Nat) (c : Core) : Nat := c.inbox.countP (MessageItem.Brings id)

/-- How often a thread is in a place of the core. -/
def count (id : Nat) (c : Core) : Nat := c.held id + c.flying id

/-- The places of a core one by one. -/
theorem held_eq (id : Nat) (c : Core) :
    c.held id = occurs id c.currentThread.toList + occurs id c.readyQueue +
      occurs id (c.sleepList.map Prod.fst) + occurs id c.blockedList +
      occurs id (c.joinMap.map Prod.snd) := by
  simp only [held, places, occurs_append]

/-- The length is no place. -/
@[simp] theorem held_incRqLen (id k : Nat) (c : Core) : (c.incRqLen k).held id = c.held id := rfl

/-- The length is no place. -/
@[simp] theorem held_decRqLen (id : Nat) (c : Core) : c.decRqLen.held id = c.held id := by
  simp only [held_eq, decRqLen]

/-- More threads are ready. -/
@[simp] theorem held_pushFront (id : Nat) (threads : List Thread) (c : Core) :
    (c.pushFront threads).held id = c.held id + occurs id threads := by
  simp only [held_eq, pushFront, occurs_append, occurs_reverse]
  omega

/-- One thread less is ready. -/
theorem held_popBack (id : Nat) {c : Core} {next : Thread}
    (h : c.readyQueue.getLast? = some next) :
    c.popBack.held id + (if next.id = id then 1 else 0) = c.held id := by
  have := occurs_dropLast id c.readyQueue h
  simp only [held_eq, popBack]
  omega

/-- Replacing the current thread. -/
theorem held_setCurrent (id : Nat) {c : Core} {cur : Thread} (h : c.currentThread = some cur)
    (next : Thread) :
    (c.setCurrent next).held id + (if cur.id = id then 1 else 0) =
      c.held id + if next.id = id then 1 else 0 := by
  simp only [held_eq, setCurrent, h, Option.toList_some, occurs_singleton]
  omega

/-- Commands carry no threads. -/
theorem flying_append_cmds (id : Nat) (c : Core) (cmds : List MessageCmd) :
    { c with inbox := c.inbox ++ cmds.map MessageItem.cmd }.flying id = c.flying id := by
  have hzero : (cmds.map MessageItem.cmd).countP (MessageItem.Brings id) = 0 := by
    rw [List.countP_eq_zero]
    intro item hitem
    obtain ⟨cmd, -, rfl⟩ := List.mem_map.mp hitem
    exact Bool.false_ne_true
  rw [flying, List.countP_append, hzero, Nat.add_zero, flying]

/-- Threads of the core become ready; nothing else happens. -/
structure Wakes (c c' : Core) : Prop where
  idle : c'.idleThread = c.idleThread
  current : c'.currentThread = c.currentThread
  held : ∀ id, c'.held id = c.held id
  asleep : c'.sleepList ⊆ c.sleepList
  blocked : c'.blockedList ⊆ c.blockedList
  joining : c'.joinMap ⊆ c.joinMap
  inbox : c'.inbox = c.inbox

/-- Sleepers become ready. -/
theorem wakes_checkSleepList (time : Nat) (c : Core) : c.Wakes (c.checkSleepList time) where
  idle := rfl
  current := rfl
  held id := by
    have := occurs_map_filter id Prod.fst (fun entry : Thread × Nat ↦ entry.2 ≤ time) c.sleepList
    rw [checkSleepList, held_incRqLen, held_pushFront, held_eq, held_eq]
    dsimp only
    omega
  asleep := List.filter_subset_self _
  blocked _ := id
  joining _ := id
  inbox := rfl

/-- Joiners become ready. -/
theorem wakes_wakeJoiners (tid : Nat) (c : Core) : c.Wakes (c.wakeJoiners tid) where
  idle := rfl
  current := rfl
  held id := by
    have := occurs_map_filter id Prod.snd (fun entry : Nat × Thread ↦ entry.1 = tid) c.joinMap
    rw [wakeJoiners, held_incRqLen, held_pushFront, held_eq, held_eq]
    dsimp only [ne_eq]
    omega
  asleep _ := id
  blocked _ := id
  joining := List.filter_subset_self _
  inbox := rfl

/-- A blocked thread becomes ready. -/
theorem wakes_wakeBlocked {thread : Thread} {c : Core} (h : thread ∈ c.blockedList) :
    c.Wakes (c.wakeBlocked thread) where
  idle := rfl
  current := rfl
  held id := by
    have := occurs_erase id c.blockedList h
    rw [wakeBlocked, held_pushFront, held_eq, held_eq, occurs_singleton]
    dsimp only
    omega
  asleep _ := id
  blocked := List.erase_subset
  joining _ := id
  inbox := rfl

/-- The joiners that are left. -/
theorem mem_joinMap_wakeJoiners {tid : Nat} {c : Core} {entry : Nat × Thread} :
    entry ∈ (c.wakeJoiners tid).joinMap ↔ entry ∈ c.joinMap ∧ entry.1 ≠ tid := by
  simp [wakeJoiners, pushFront, incRqLen]

end Core

end D3OS.Scheduler
