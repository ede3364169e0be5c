import D3OS.Process.SystemSteps
import D3OS.Lib.Runs

/-!
# The locks of the scheduler

Every core has a lock for its ready state, its sleep list, its blocked list and its join map. A
function of the scheduler first takes the ready state (`deblock`: the blocked list) and then, one
by one, takes and releases the locks that its data make it take; between two of these actions
other cores act and the timer may tick. The data of a core change with the first lock, as one
critical section of `System.step`.
-/

namespace D3OS.Scheduler

open Lib

/-- The locks of `Scheduler`. -/
inductive Lock where
  | readyState
  | sleepList
  | blockedList
  | joinMap
  deriving DecidableEq, Repr

/-- What a function does with the locks of its core. -/
inductive Action where
  /-- `lock()`, which waits. -/
  | acquire (lock : Lock)
  /-- `try_lock()` of the loop in `ready`, which releases the ready state and starts again. -/
  | tryAcquire (lock : Lock)
  | release (lock : Lock)
  /-- The end of a function that may switch: the thread that runs next releases the ready state. -/
  | switch
  deriving DecidableEq, Repr

namespace Section

/-- The locks that `unjoin` takes. -/
def unjoinLocks : List Action := [.acquire .joinMap, .release .joinMap]

/-- The locks that `kill_locally` takes, in the order of its searches. -/
def killLocallyLocks (tid : Nat) (x : Section) : List Action :=
  if tid ∉ x.activeTids then []
  else
    let ready := x.core.readyQueue.filter fun thread ↦ thread.id ≠ tid
    if x.core.readyQueue.length ≠ ready.length then unjoinLocks
    else
      let asleep := x.core.sleepList.filter fun entry ↦ entry.1.id ≠ tid
      let blocked := x.core.blockedList.filter fun thread ↦ thread.id ≠ tid
      [.acquire .sleepList, .release .sleepList] ++
      if x.core.sleepList.length ≠ ready.length + asleep.length then unjoinLocks
      else [.acquire .blockedList, .release .blockedList] ++
        if blocked.length ≠ x.core.blockedList.length then unjoinLocks
        else [.acquire .joinMap, .release .joinMap] ++
          if (x.core.removeThread tid).1 then unjoinLocks else []

/-- The locks that `handle_inbox_cmd` takes. -/
def handleInboxCmdLocks (cmd : MessageCmd) (x : Section) : List Action :=
  match cmd with
  | .joinTargetExited _ => [.acquire .joinMap, .release .joinMap]
  | .deblock _ _ => [.acquire .blockedList, .release .blockedList]
  | .kill tid =>
    if tid ∉ x.activeTids then []
    else if ∃ thread ∈ x.core.currentThread, thread.id = tid then []
    else x.killLocallyLocks tid

/-- The locks that `drain_inbox_into_ready` takes. -/
def drainLocks (size : Nat) : Nat → Section → List Action
  | 0, _ => []
  | max + 1, x =>
    match x.core.inbox with
    | [] => []
    | .thread thread :: rest =>
      drainLocks size max
        (x.onCore fun c ↦ ({ c with inbox := rest }.pushFront [thread]).incRqLen 1)
    | .cmd cmd :: rest =>
      (x.received rest).handleInboxCmdLocks cmd ++
        match (x.received rest).handleInboxCmd size cmd with
        | .ok y => drainLocks size max y
        | .error _ => []

/-- The locks that `block_and_switch` takes: the sleep list is held while the inbox is drained. -/
def blockAndSwitchLocks (size time : Nat) (x : Section) : List Action :=
  match x.core.readyQueue.getLast? with
  | some _ => []
  | none =>
    .acquire .sleepList :: drainLocks size 10 (x.onCore (·.checkSleepList time)) ++
      [.release .sleepList]

end Section

namespace Event

variable {n : Nat}

/-- The core on which an event happens. -/
def core : Event n → Fin n
  | .init i | .start i | .spawn i _ | .sleep i _ _ _ | .block i _ | .deblock i _ _ | .join i _ _
  | .exit i _ | .kill i _ | .park i | .unblock i _ _ | .yieldNow i _ | .switchThread i _ _ _
  | .resched i => i

/-- The first lock that a function takes. -/
def firstLock : Event n → Lock
  | .deblock _ _ _ => .blockedList
  | _ => .readyState

end Event

namespace System

variable {n : Nat}

/-- The locks of `block_and_switch`, once the current thread has entered a list. -/
def parkedLocks (s : System n) (i : Fin n) (f : Thread → Section → Section) (time : Nat) :
    List Action :=
  match (s.cores i).currentThread with
  | some cur => (f cur (s.enter i)).blockAndSwitchLocks s.inboxSize time
  | none => []

/-- What a function does with the locks of its core after it has taken the first one. -/
def locks (s : System n) : Event n → List Action
  | .init _ | .park _ | .resched _ => [.release .readyState]
  | .start _ | .yieldNow _ _ => [.switch]
  | .spawn _ _ => [.tryAcquire .joinMap, .release .joinMap, .release .readyState]
  | .sleep i now ms time =>
    if ¬ (s.cores i).initialized then [.release .readyState]
    else [.acquire .sleepList, .release .sleepList] ++
      s.parkedLocks i (fun cur x ↦ x.onCore (·.addSleeper cur (now + ms))) time ++ [.switch]
  | .block i time =>
    [.acquire .blockedList, .release .blockedList] ++
      s.parkedLocks i (fun cur x ↦ x.onCore (·.addBlocked cur)) time ++ [.switch]
  | .deblock i pid tid =>
    if ⟨tid, pid⟩ ∈ (s.cores i).blockedList then
      [.acquire .readyState, .tryAcquire .joinMap, .release .joinMap, .release .readyState,
        .release .blockedList]
    else [.release .blockedList]
  | .join i tid time =>
    if tid ∉ s.activeTids then
      [.acquire .joinMap, .release .joinMap, .release .readyState]
    else [.acquire .joinMap, .release .joinMap] ++
      s.parkedLocks i (fun cur x ↦ x.onCore (·.addWaiter tid cur)) time ++ [.switch]
  | .exit i time =>
    Section.unjoinLocks ++ s.parkedLocks i (fun cur x ↦ x.endThread cur.id) time ++ [.switch]
  | .kill i tid => (s.enter i).killLocallyLocks tid ++ [.release .readyState]
  | .unblock _ _ _ => [.acquire .blockedList, .release .blockedList, .release .readyState]
  | .switchThread i time sleepFree _ =>
    if ¬ (s.cores i).initialized then [.release .readyState]
    else (if sleepFree then [.acquire .sleepList, .release .sleepList] else []) ++
      (s.beforeDrain i time sleepFree).drainLocks s.inboxSize 10 ++ [.switch]

end System

/-- The cores with their locks: the thread that runs on each core, who holds each lock, what each
thread still has to do with the locks, and the call that waits for its first lock. -/
structure Locking (n : Nat) where
  system : System n
  running : Fin n → Nat
  locks : Fin n → Lock → Option Nat
  todo : Nat → List (Fin n × Action)
  calling : Nat → Option (Event n)

/-- A call of the thread that runs on a core, the next action of such a thread, a tick of the timer
(or a call of `switch_thread`), and the reschedule interrupt. -/
inductive LockEvent (n : Nat) where
  | call (e : Event n)
  | advance (core : Fin n)
  | tick (core : Fin n) (time : Nat) (locked : Bool)
  | resched (core : Fin n)
  deriving DecidableEq, Repr

namespace Locking

variable {n : Nat}

/-- A lock changes its holder. -/
def setLock (i : Fin n) (l : Lock) (holder : Option Nat) (s : Locking n) : Locking n :=
  { s with locks := Function.update s.locks i (Function.update (s.locks i) l holder) }

/-- What a thread has to do next changes. -/
def setTodo (a : Nat) (todo : List (Fin n × Action)) (s : Locking n) : Locking n :=
  { s with todo := Function.update s.todo a todo }

/-- The call of a thread that waits for its first lock changes. -/
def setCalling (a : Nat) (call : Option (Event n)) (s : Locking n) : Locking n :=
  { s with calling := Function.update s.calling a call }

/-- A thread takes the first lock of a function; the data of the core change. -/
def enter (s : Locking n) (a : Nat) (e : Event n) : Except Panic (Locking n) := do
  let system ← s.system.step e
  return ({ s with system := system }.setLock e.core e.firstLock (some a)).setTodo a
    ((s.system.locks e).map (e.core, ·) ++ s.todo a)

/-- The ready state is released and the next thread runs. No thread runs on two cores. -/
def dispatch (s : Locking n) (i k : Fin n) : Except Panic (Locking n) :=
  let s := s.setLock k .readyState none
  match (s.system.cores k).currentThread with
  | none => .ok s
  | some next =>
    if ∃ j, j ≠ i ∧ s.running j = next.id then .error .assertion
    else .ok { s with running := Function.update s.running i next.id }

/-- The thread that runs on a core goes on. It stays where it is as long as a lock is taken. -/
def advance (s : Locking n) (i : Fin n) : Except Panic (Locking n) :=
  let a := s.running i
  match s.todo a with
  | (k, .acquire l) :: rest =>
    if s.locks k l = none then .ok ((s.setLock k l (some a)).setTodo a rest) else .ok s
  | (k, .tryAcquire l) :: rest =>
    if s.locks k l = none then .ok ((s.setLock k l (some a)).setTodo a rest)
    else .ok (s.setTodo a ((k, .release .readyState) :: (k, .acquire .readyState) :: s.todo a))
  | (k, .release l) :: rest => .ok ((s.setLock k l none).setTodo a rest)
  | (k, .switch) :: rest => (s.setTodo a rest).dispatch i k
  | [] =>
    match s.calling a with
    | none => .ok s
    | some e =>
      if s.locks e.core e.firstLock = none then (s.setCalling a none).enter a e else .ok s

/-- Ticks and the reschedule interrupt are no calls. -/
def IsCall : Event n → Prop
  | .switchThread _ _ _ _ | .resched _ => False
  | _ => True

instance (e : Event n) : Decidable (IsCall e) := by
  rcases e <;> dsimp only [IsCall] <;> infer_instance

/-- One step of the cores with their locks. -/
def step (s : Locking n) : LockEvent n → Except Panic (Locking n)
  | .call e =>
    let a := s.running e.core
    if s.todo a ≠ [] ∨ s.calling a ≠ none ∨ ¬ IsCall e then .ok s
    else if s.locks e.core e.firstLock = none then s.enter a e
    else .ok (s.setCalling a (some e))
  | .advance i => s.advance i
  | .tick i time locked =>
    if s.locks i .readyState ≠ none then .ok s
    else s.enter (s.running i)
      (.switchThread i time (decide (s.locks i .sleepList = none)) locked)
  | .resched i => do
    let system ← s.system.step (.resched i)
    return { s with system := system }

/-- The lock that a thread waits for or takes next. -/
def wants (s : Locking n) (a : Nat) : Option (Fin n × Lock) :=
  match s.todo a with
  | (k, .acquire l) :: _ => some (k, l)
  | _ :: _ => none
  | [] => (s.calling a).map fun e ↦ (e.core, e.firstLock)

/-- A thread wants a lock that another one holds. -/
def WaitsFor (s : Locking n) (a b : Nat) : Prop :=
  ∃ i l, s.wants a = some (i, l) ∧ s.locks i l = some b

/-- No core tries to take a lock that one of its threads holds, and no threads wait for each other
in a circle. -/
structure Live (s : Locking n) : Prop where
  free : ∀ i k l, s.wants (s.running i) = some (k, l) → s.locks k l = none
  acyclic : ∀ a, ¬ Relation.TransGen s.WaitsFor a a

end Locking

/-- A function that holds the locks of `held` can go on: it takes no lock twice, holds the ready
state or the blocked list until it is done, and then holds nothing. -/
def Ordered : Finset Lock → List Action → Prop
  | held, [] => held = ∅
  | held, .acquire l :: rest | held, .tryAcquire l :: rest =>
    (.readyState ∈ held ∨ .blockedList ∈ held) ∧ l ∉ held ∧ Ordered (insert l held) rest
  | held, .release l :: rest =>
    (.readyState ∈ held ∨ .blockedList ∈ held) ∧ l ∈ held ∧ Ordered (held.erase l) rest
  | held, .switch :: rest => held = {.readyState} ∧ rest = []

instance Ordered.decidable : ∀ (held : Finset Lock) (actions : List Action),
    Decidable (Ordered held actions)
  | held, [] => inferInstanceAs (Decidable (held = ∅))
  | held, .acquire l :: rest | held, .tryAcquire l :: rest =>
    have := Ordered.decidable (insert l held) rest
    inferInstanceAs (Decidable (_ ∧ _ ∧ _))
  | held, .release l :: rest =>
    have := Ordered.decidable (held.erase l) rest
    inferInstanceAs (Decidable (_ ∧ _ ∧ _))
  | held, .switch :: rest => inferInstanceAs (Decidable (held = {.readyState} ∧ rest = []))

section

variable {held : Finset Lock} {rest : List Action} {x : Section} {size max : Nat}

private theorem Ordered.pair (h : Ordered held rest) (hready : .readyState ∈ held) {l : Lock}
    (hl : l ∉ held) : Ordered held (.acquire l :: .release l :: rest) := by
  refine ⟨.inl hready, hl, .inl (Finset.mem_insert_of_mem hready), Finset.mem_insert_self _ _, ?_⟩
  rwa [Finset.erase_insert hl]

/-- The thread runs on the core or is in its ready queue. -/
def Core.AtHand (tid : Nat) (c : Core) : Prop :=
  (∃ cur, c.currentThread = some cur ∧ cur.id = tid) ∨ ∃ thread ∈ c.readyQueue, thread.id = tid

instance (tid : Nat) (c : Core) : Decidable (c.AtHand tid) :=
  inferInstanceAs (Decidable (_ ∨ _))

section

variable (h : Ordered held rest) (hready : .readyState ∈ held) (hblocked : .blockedList ∉ held)
  (hjoin : .joinMap ∉ held)
include h hready hblocked hjoin

private theorem Ordered.killLocally {tid : Nat}
    (hsleep : .sleepList ∉ held ∨ ∃ thread ∈ x.core.readyQueue, thread.id = tid) :
    Ordered held (x.killLocallyLocks tid ++ rest) := by
  have hunjoin : Ordered held (Section.unjoinLocks ++ rest) := h.pair hready hjoin
  rw [Section.killLocallyLocks]
  split
  · exact h
  · dsimp only
    split
    · exact hunjoin
    next hlength =>
      have hsleep : .sleepList ∉ held := by
        refine hsleep.resolve_right fun hthread ↦ ?_
        have hcount := Core.length_filter_ne (fun t ↦ t) tid x.core.readyQueue
        have hpos := (occurs_pos_iff tid x.core.readyQueue).mpr hthread
        rw [List.map_id'] at hcount
        omega
      rw [List.append_assoc]
      refine Ordered.pair ?_ hready hsleep
      split
      · exact hunjoin
      · rw [List.append_assoc]
        refine Ordered.pair ?_ hready hblocked
        split
        · exact hunjoin
        · refine Ordered.pair ?_ hready hjoin
          split
          · exact hunjoin
          · exact h

private theorem Ordered.handleInboxCmd {cmd : MessageCmd} (hsleep : .sleepList ∉ held ∨
      ∀ tid ∈ x.activeTids, cmd = .kill tid → x.core.AtHand tid) :
    Ordered held (x.handleInboxCmdLocks cmd ++ rest) := by
  cases cmd with
  | joinTargetExited tid => exact h.pair hready hjoin
  | deblock pid tid => exact h.pair hready hblocked
  | kill tid =>
    rw [Section.handleInboxCmdLocks]
    split
    · exact h
    next halive =>
      split
      · exact h
      next hcur =>
        refine h.killLocally hready hblocked hjoin (hsleep.imp_right fun hhand ↦ ?_)
        exact (hhand tid (not_not.mp halive) rfl).resolve_left hcur

private theorem Ordered.drain
    (hsleep : .sleepList ∉ held ∨ x.DrainMeets (fun tid c ↦ c.AtHand tid) size max) :
    Ordered held (x.drainLocks size max ++ rest) := by
  induction max generalizing x with
  | zero => exact h
  | succ max ih =>
    rw [Section.drainLocks]
    split
    next => exact h
    next thread queue hinbox =>
      refine ih (hsleep.imp_right fun hmeets ↦ ?_)
      rw [Section.DrainMeets, hinbox] at hmeets
      exact hmeets
    next cmd queue hinbox =>
      rw [List.append_assoc]
      refine Ordered.handleInboxCmd ?_ hready hblocked hjoin ?_
      · split
        next y hy =>
          refine ih (hsleep.imp_right fun hmeets ↦ ?_)
          rw [Section.DrainMeets, hinbox] at hmeets
          have hmeets := hmeets.2
          rw [hy] at hmeets
          exact hmeets
        next => exact h
      · refine hsleep.imp_right fun hmeets ↦ ?_
        rw [Section.DrainMeets, hinbox] at hmeets
        exact hmeets.1

end

private theorem ordered_blockAndSwitch {time : Nat}
    (hmeets : x.BlockMeets (fun tid c ↦ c.AtHand tid) size time) :
    Ordered {.readyState} (x.blockAndSwitchLocks size time ++ [.switch]) := by
  have hswitch : Ordered {.readyState} [.switch] := ⟨rfl, rfl⟩
  rw [Section.blockAndSwitchLocks]
  split
  next => exact hswitch
  next hnone =>
    have hmeets := hmeets (List.getLast?_eq_none_iff.mp hnone)
    have hrest : Ordered {.sleepList, .readyState} [.release .sleepList, .switch] := by decide
    rw [List.cons_append, List.cons_append, List.append_assoc]
    refine ⟨.inl (by decide), by decide, ?_⟩
    exact hrest.drain (by decide) (by decide) (by decide) (.inr hmeets)

end

namespace System

variable {n : Nat}

/-- When a function gives up the core with an empty ready queue, the commands of its inbox kill only
threads that run there or are in the ready queue. -/
def DrainsAtHand (s : System n) : Event n → Prop
  | .kill _ _ | .switchThread _ _ _ _ => True
  | e => s.KillsMeet (fun tid c ↦ c.AtHand tid) e

instance (s : System n) (e : Event n) : Decidable (s.DrainsAtHand e) := by
  rcases e <;> dsimp only [DrainsAtHand] <;> infer_instance

private theorem ordered_parked {s : System n} {i : Fin n} {f : Thread → Section → Section}
    {time : Nat} (hmeets : ∀ cur, (s.cores i).currentThread = some cur →
      (f cur (s.enter i)).BlockMeets (fun tid c ↦ c.AtHand tid) s.inboxSize time) :
    Ordered {.readyState} (s.parkedLocks i f time ++ [.switch]) := by
  rw [parkedLocks]
  split
  next cur hcur => exact ordered_blockAndSwitch (hmeets cur hcur)
  next => exact ⟨rfl, rfl⟩

private theorem ordered_locks {s : System n} {e : Event n} (h : s.DrainsAtHand e) :
    Ordered {e.firstLock} (s.locks e) := by
  have hrelease : Ordered {.readyState} [.release .readyState] := by decide
  have hswitch : Ordered {.readyState} [.switch] := by decide
  have hdeblock : Ordered {.blockedList} [.acquire .readyState, .tryAcquire .joinMap,
      .release .joinMap, .release .readyState, .release .blockedList] := by decide
  have hunlock : Ordered {.blockedList} [.release .blockedList] := by decide
  cases e with
  | init i | park i | resched i => exact hrelease
  | start i | yieldNow i locked => exact hswitch
  | spawn i pid | unblock i pid tid => exact hrelease.pair (by decide) (by decide)
  | sleep i now ms time =>
    rw [locks]
    split
    · exact hrelease
    · exact (ordered_parked h).pair (by decide) (by decide)
  | block i time | exit i time =>
    exact (ordered_parked h).pair (by decide) (by decide)
  | deblock i pid tid =>
    rw [locks]
    split
    · exact hdeblock
    · exact hunlock
  | join i tid time =>
    rw [locks]
    split
    · exact hrelease.pair (by decide) (by decide)
    · exact (ordered_parked h).pair (by decide) (by decide)
  | kill i tid =>
    exact hrelease.killLocally (by decide) (by decide) (by decide) (.inl (by decide))
  | switchThread i time sleepFree locked =>
    rw [locks]
    split
    · exact hrelease
    · have hdrain : Ordered {.readyState}
          ((s.beforeDrain i time sleepFree).drainLocks s.inboxSize 10 ++ [.switch]) :=
        hswitch.drain (by decide) (by decide) (by decide) (.inl (by decide))
      cases sleepFree with
      | false => exact hdrain
      | true => exact hdrain.pair (by decide) (by decide)

end System

namespace Locking

variable {n : Nat} {s s' : Locking n} {i : Fin n}

/-- The thread that runs on a core holds exactly the locks of the core that are taken, and can do
what it still has to do. -/
def Holds (s : Locking n) (i : Fin n) : Prop :=
  ∃ (held : Finset Lock) (actions : List Action),
    s.todo (s.running i) = actions.map (i, ·) ∧ Ordered held actions ∧
      ∀ l, s.locks i l = if l ∈ held then some (s.running i) else none

private theorem holds_of_free (htodo : s.todo (s.running i) = [])
    (hfree : ∀ l, s.locks i l = none) : s.Holds i :=
  ⟨∅, [], htodo, rfl, fun l ↦ (hfree l).trans (if_neg (Finset.notMem_empty l)).symm⟩

private theorem Holds.free (hs : s.Holds i) (h : s.todo (s.running i) = []) (l : Lock) :
    s.locks i l = none := by
  obtain ⟨held, actions, htodo, hordered, hlocks⟩ := hs
  obtain rfl : actions = [] := List.map_eq_nil_iff.mp (htodo.symm.trans h)
  obtain rfl : held = ∅ := hordered
  exact (hlocks l).trans (if_neg (Finset.notMem_empty l))

/-- Only threads that run are in a function of the scheduler, and none waits for its first lock. -/
structure Sound (s : Locking n) : Prop where
  calling : ∀ a, s.calling a = none
  idle : ∀ a, (∀ i, s.running i ≠ a) → s.todo a = []
  distinct : ∀ i j, s.running i = s.running j → i = j
  holds : ∀ i, s.Holds i

private theorem Sound.running_of_lock (hs : s.Sound) {l : Lock} {a : Nat}
    (h : s.locks i l = some a) :
    s.running i = a := by
  obtain ⟨held, actions, -, -, hlocks⟩ := hs.holds i
  rw [hlocks l] at h
  split at h
  · exact Option.some.inj h
  · cases h

private theorem Sound.free (hs : s.Sound) {k : Fin n} {l : Lock}
    (h : s.wants (s.running i) = some (k, l)) : s.locks k l = none := by
  obtain ⟨held, actions, htodo, hordered, hlocks⟩ := hs.holds i
  rw [wants, htodo] at h
  cases actions with
  | nil =>
    rw [List.map_nil] at h
    rw [hs.calling] at h
    cases h
  | cons action actions =>
    cases action with
    | acquire l' =>
      cases h
      rw [hlocks, if_neg hordered.2.1]
    | tryAcquire l' | release l' | switch => cases h

private theorem Sound.live (hs : s.Sound) : s.Live := by
  refine ⟨fun _ _ _ ↦ hs.free, fun a hcycle ↦ ?_⟩
  -- in a circle, who holds a lock waits for another one
  have hedge : ∀ {a b c}, s.WaitsFor a b → ¬ s.WaitsFor b c := by
    rintro a b c ⟨k, l, -, hlock⟩ ⟨k', l', hwants, hlock'⟩
    rw [← hs.running_of_lock hlock] at hwants
    rw [hs.free hwants] at hlock'
    cases hlock'
  obtain ⟨b, hab, hba⟩ := Relation.TransGen.head'_iff.mp hcycle
  rcases Relation.ReflTransGen.cases_head hba with rfl | ⟨c, hbc, -⟩
  · exact hedge hab hab
  · exact hedge hab hbc

private theorem Sound.of_own (hs : s.Sound) (hrunning : s'.running = s.running)
    (hcalling : s'.calling = s.calling)
    (htodo : ∀ a, a ≠ s.running i → s'.todo a = s.todo a)
    (hlocks : ∀ j, j ≠ i → s'.locks j = s.locks j) (hown : s'.Holds i) : s'.Sound := by
  refine ⟨hcalling ▸ hs.calling, fun a ha ↦ ?_, hrunning ▸ hs.distinct, fun j ↦ ?_⟩
  · rw [hrunning] at ha
    rw [htodo a (Ne.symm (ha i))]
    exact hs.idle a ha
  · by_cases hj : j = i
    · exact hj ▸ hown
    · obtain ⟨held, actions, hactions, hordered, hheld⟩ := hs.holds j
      refine ⟨held, actions, ?_, hordered, fun l ↦ ?_⟩
      · rw [hrunning, htodo _ fun heq ↦ hj (hs.distinct j i heq)]
        exact hactions
      · rw [hrunning, hlocks j hj]
        exact hheld l

private theorem locks_setLock_of_ne {j : Fin n} (hj : j ≠ i) (l : Lock) (holder : Option Nat)
    (s : Locking n) : (s.setLock i l holder).locks j = s.locks j := Function.update_of_ne hj ..

private theorem locks_setLock (i : Fin n) (l l' : Lock) (holder : Option Nat) (s : Locking n) :
    (s.setLock i l holder).locks i l' = if l' = l then holder else s.locks i l' := by
  rw [setLock]
  dsimp only
  rw [Function.update_self, Function.update_apply]

private theorem todo_setTodo_of_ne {a b : Nat} (hb : b ≠ a) (todo : List (Fin n × Action))
    (s : Locking n) : (s.setTodo a todo).todo b = s.todo b := Function.update_of_ne hb ..

private theorem todo_setTodo (a : Nat) (todo : List (Fin n × Action)) (s : Locking n) :
    (s.setTodo a todo).todo a = todo := Function.update_self ..

private theorem Sound.setLock (hs : s.Sound) {held : Finset Lock} {actions : List Action}
    {l : Lock} {holder : Option Nat} (hordered : Ordered held actions)
    (hheld : ∀ l', (if l' = l then holder else s.locks i l') =
      if l' ∈ held then some (s.running i) else none) :
    ((s.setLock i l holder).setTodo (s.running i) (actions.map (i, ·))).Sound := by
  refine hs.of_own (i := i) rfl rfl (fun a ha ↦ todo_setTodo_of_ne ha _ _)
    (fun j hj ↦ locks_setLock_of_ne hj ..) ⟨held, actions, todo_setTodo .., hordered, ?_⟩
  intro l'
  exact (locks_setLock i l l' holder s).trans (hheld l')

private theorem Sound.switch (hs : s.Sound) (htodo : s.todo (s.running i) = [])
    (hfree : ∀ l, s.locks i l = none) {next : Nat} (hother : ∀ j, j ≠ i → s.running j ≠ next) :
    ({ s with running := Function.update s.running i next } : Locking n).Sound := by
  have hrun : ∀ {j}, j ≠ i → Function.update s.running i next j = s.running j :=
    fun hj ↦ Function.update_of_ne hj ..
  -- who runs nowhere else has nothing to do
  have hidle : ∀ {a}, (∀ j, j ≠ i → s.running j ≠ a) → s.todo a = [] := by
    intro a ha
    by_cases hold : s.running i = a
    · exact hold ▸ htodo
    · refine hs.idle a fun j ↦ ?_
      by_cases hj : j = i
      · exact hj ▸ hold
      · exact ha j hj
  refine ⟨hs.calling, fun a ha ↦ hidle fun j hj ↦ hrun hj ▸ ha j, fun j k hjk ↦ ?_, fun j ↦ ?_⟩
  · dsimp only at hjk
    rw [Function.update_apply, Function.update_apply] at hjk
    split_ifs at hjk with hj hk hk
    · rw [hj, hk]
    · exact absurd hjk.symm (hother k hk)
    · exact absurd hjk (hother j hj)
    · exact hs.distinct j k hjk
  · by_cases hj : j = i
    · subst hj
      refine holds_of_free ?_ hfree
      dsimp only
      rw [Function.update_self]
      exact hidle hother
    · rw [Holds]
      dsimp only
      rw [hrun hj]
      exact hs.holds j

private theorem sound_dispatch (hs : s.Sound)
    (hlocks : ∀ l, s.locks i l = if l = .readyState then some (s.running i) else none)
    (h : (s.setTodo (s.running i) []).dispatch i i = .ok s') : s'.Sound := by
  have hfree : ∀ l, ((s.setTodo (s.running i) []).setLock i .readyState none).locks i l =
      none := by
    intro l
    rw [locks_setLock]
    split
    · rfl
    next hl => exact (hlocks l).trans (if_neg hl)
  have hreleased : ((s.setTodo (s.running i) []).setLock i .readyState none).Sound :=
    hs.of_own (i := i) rfl rfl (fun a ha ↦ todo_setTodo_of_ne ha _ _)
      (fun j hj ↦ locks_setLock_of_ne hj ..) (holds_of_free (todo_setTodo ..) hfree)
  rw [dispatch] at h
  split at h
  · cases h
    exact hreleased
  next next hnext =>
    split at h
    · cases h
    next hother =>
      cases h
      push Not at hother
      exact hreleased.switch (todo_setTodo ..) hfree hother

private theorem sound_enter {e : Event n} (hs : s.Sound) (hmeets : s.system.DrainsAtHand e)
    (htodo : s.todo (s.running e.core) = []) (hfree : ∀ l, s.locks e.core l = none)
    (h : s.enter (s.running e.core) e = .ok s') : s'.Sound := by
  obtain ⟨system, -, h⟩ := of_bind h
  cases h
  rw [htodo, List.append_nil]
  have hs' : ({ s with system := system } : Locking n).Sound :=
    ⟨hs.calling, hs.idle, hs.distinct, hs.holds⟩
  refine hs'.setLock (System.ordered_locks hmeets) fun l ↦ ?_
  simp only [Finset.mem_singleton, hfree]

/-- A step of the cores with their locks that does not break their order: functions that give up the
core handle only commands that need no sleep list, and the timer does not tick on a core on which
`deblock` holds the blocked list without the ready state. -/
def Orderly (s : Locking n) : LockEvent n → Prop
  | .call e => s.system.DrainsAtHand e
  | .tick i _ _ => s.locks i .blockedList ≠ none → s.locks i .readyState ≠ none
  | _ => True

instance (s : Locking n) (e : LockEvent n) : Decidable (s.Orderly e) := by
  unfold Orderly
  split <;> infer_instance

private theorem Sound.at_rest (hs : s.Sound) (hready : s.locks i .readyState = none)
    (hblocked : s.locks i .blockedList = none) :
    s.todo (s.running i) = [] ∧ ∀ l, s.locks i l = none := by
  obtain ⟨held, actions, htodo, hordered, hlocks⟩ := hs.holds i
  have hnot : ∀ l, s.locks i l = none → l ∉ held := by
    intro l hl hmem
    rw [hlocks l, if_pos hmem] at hl
    cases hl
  have hfalse : ¬ (.readyState ∈ held ∨ .blockedList ∈ held) :=
    fun h ↦ h.elim (hnot _ hready) (hnot _ hblocked)
  cases actions with
  | nil => exact ⟨htodo, (hs.holds i).free htodo⟩
  | cons action actions =>
    cases action with
    | acquire l | tryAcquire l | release l => exact absurd hordered.1 hfalse
    | switch =>
      refine absurd (.inl ?_) hfalse
      rw [hordered.1]
      exact Finset.mem_singleton_self _

private theorem sound_advance (hs : s.Sound) (h : s.advance i = .ok s') : s'.Sound := by
  obtain ⟨held, actions, htodo, hordered, hlocks⟩ := hs.holds i
  rw [advance] at h
  have htaken : ∀ {l : Lock}, l ∉ held → ∀ l', (if l' = l then some (s.running i) else
      s.locks i l') = if l' ∈ insert l held then some (s.running i) else none := by
    intro l _ l'
    by_cases hl : l' = l
    · rw [if_pos hl, if_pos (Finset.mem_insert.mpr (.inl hl))]
    · rw [if_neg hl, hlocks l', if_congr (Finset.mem_insert.trans (or_iff_right hl)) rfl rfl]
  cases actions with
  | nil =>
    rw [htodo, List.map_nil] at h
    rw [hs.calling] at h
    cases h
    exact hs
  | cons action actions =>
    rw [htodo, List.map_cons] at h
    cases action with
    | acquire l | tryAcquire l =>
      have hfree : s.locks i l = none := by rw [hlocks, if_neg hordered.2.1]
      dsimp only at h
      rw [if_pos hfree] at h
      cases h
      exact hs.setLock hordered.2.2 (htaken hordered.2.1)
    | release l =>
      cases h
      refine hs.setLock hordered.2.2 fun l' ↦ ?_
      by_cases hl : l' = l
      · rw [if_pos hl, if_neg fun hmem ↦ (Finset.mem_erase.mp hmem).1 hl]
      · rw [if_neg hl, hlocks l', if_congr (Finset.mem_erase.trans (and_iff_right hl)) rfl rfl]
    | switch =>
      obtain ⟨rfl, rfl⟩ := hordered
      refine sound_dispatch hs (fun l ↦ ?_) h
      simp only [hlocks l, Finset.mem_singleton]

private theorem sound_step {e : LockEvent n} (hs : s.Sound) (horderly : s.Orderly e)
    (h : s.step e = .ok s') : s'.Sound := by
  cases e with
  | call e =>
    rw [step] at h
    split at h
    · cases h
      exact hs
    next hcall =>
      push Not at hcall
      have hrest := (hs.holds e.core).free hcall.1
      rw [if_pos (hrest _)] at h
      exact sound_enter hs horderly hcall.1 hrest h
  | advance i => exact sound_advance hs h
  | tick i time locked =>
    rw [step] at h
    split at h
    · cases h
      exact hs
    next hready =>
      have hready : s.locks i .readyState = none := not_not.mp hready
      have hblocked : s.locks i .blockedList = none := by
        by_contra hne
        exact horderly hne hready
      obtain ⟨htodo, hfree⟩ := hs.at_rest hready hblocked
      exact sound_enter (e := .switchThread i time _ locked) hs trivial htodo hfree h
  | resched i =>
    cases h
    exact ⟨hs.calling, hs.idle, hs.distinct, hs.holds⟩

/-- Before any call: every core runs a thread of its own and all locks are free. -/
structure Initial (s : Locking n) : Prop where
  system : s.system.Initial
  running : ∀ i j, s.running i = s.running j → i = j
  locks : ∀ i l, s.locks i l = none
  todo : ∀ a, s.todo a = []
  calling : ∀ a, s.calling a = none

private theorem sound_initial (hs : s.Initial) : s.Sound :=
  ⟨hs.calling, fun a _ ↦ hs.todo a, hs.running, fun i ↦ holds_of_free (hs.todo _) (hs.locks i)⟩

/-- In every run whose steps keep the order of the locks, no core tries to take a lock that is
already taken on it, and no threads wait for each other in a circle. -/
theorem locks_live (hs : s.Initial) (events : List (LockEvent n))
    (hmeets : Along step (fun s e _ ↦ s.Orderly e) s events)
    (hrun : events.foldlM step s = .ok s') : s'.Live :=
  (hmeets.invariant hrun (sound_initial hs) fun _ _ _ ht hstep ho ↦ sound_step ht ho hstep).live

/-- The cores before any call; the idle threads have the numbers of their cores. -/
def boot (n size : Nat) : Locking n :=
  ⟨System.boot n size, fun i ↦ i, fun _ _ ↦ none, fun _ ↦ [], fun _ ↦ none⟩

private theorem initial_boot (n size : Nat) : (boot n size).Initial :=
  ⟨System.initial_boot n size, fun _ _ h ↦ Fin.ext h, fun _ _ ↦ rfl, fun _ ↦ rfl, fun _ ↦ rfl⟩

/-- A call followed by as many actions of its core. -/
private def calls (e : Event 2) (k : Nat) : List (LockEvent 2) :=
  .call e :: List.replicate k (.advance e.core)

/-- A tick followed by as many actions of its core. -/
private def ticks (i : Fin 2) (k : Nat) : List (LockEvent 2) :=
  .tick i 1 false :: List.replicate k (.advance i)

/-- Threads 3 and 4 start on core 1 and thread 2 on core 0. Thread 3 sleeps and thread 2 kills it,
by a command to core 1. -/
private def killSleeper : List (LockEvent 2) :=
  calls (.init 0) 1 ++ calls (.init 1) 1 ++ calls (.start 0) 1 ++ calls (.start 1) 1 ++
    calls (.spawn 0 7) 3 ++ calls (.spawn 1 7) 3 ++ calls (.spawn 1 7) 3 ++ ticks 0 3 ++
    ticks 1 3 ++ calls (.sleep 1 2 1000 2) 3 ++ calls (.kill 0 3) 7

/-- At the next tick core 1 handles the command and takes the sleep list, which is free. -/
theorem locks_live_sample :
    ∃ s, (killSleeper ++ ticks 1 2).foldlM step (boot 2 100) = .ok s ∧ s.running 1 = 4 ∧
      s.wants 4 = some (1, .sleepList) ∧ s.Live := by
  obtain ⟨s, hrun, hrunning, hwants⟩ : ∃ s,
      (killSleeper ++ ticks 1 2).foldlM step (boot 2 100) = .ok s ∧ s.running 1 = 4 ∧
        s.wants 4 = some (1, .sleepList) := by
    decide +kernel
  exact ⟨s, hrun, hrunning, hwants,
    locks_live (initial_boot 2 100) (killSleeper ++ ticks 1 2) (by decide +kernel) hrun⟩

/-- Thread 4 goes to sleep before the command is handled. It drains the inbox while it holds the
sleep list, and to kill thread 3 it takes the sleep list again. -/
theorem sleep_locks_sleepList_twice :
    ∃ s, (killSleeper ++ calls (.sleep 1 3 1000 3) 3).foldlM step (boot 2 100) = .ok s ∧
      s.running 1 = 4 ∧ s.wants 4 = some (1, .sleepList) ∧ s.locks 1 .sleepList = some 4 := by
  decide +kernel

end Locking

end D3OS.Scheduler
