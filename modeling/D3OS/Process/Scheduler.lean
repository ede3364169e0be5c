import D3OS.Base.Rust

/-!
# The scheduler of the cores

`os/kernel/src/process/scheduler.rs`. Every core has its own ready state, sleep list,
blocked list and join map, which only code on that core touches; cores reach each other
through bounded inboxes and share the set of live threads.

A critical section works on the data of its core (`Section`) and collects the commands
that it sends to all other cores; they are delivered when the section ends. Sending to a
full inbox with `expect` ends the kernel, so nobody sees that the commands arrive late.
-/

namespace D3OS.Scheduler

/-- `Thread`, by its number and the process it belongs to. -/
structure Thread where
  id : Nat
  pid : Nat
  deriving DecidableEq, Repr

/-- `ThreadState`, `thread.rs:678`. -/
inductive ThreadState where
  | created
  | ready
  | running
  | parking
  | blocked
  | sleeping
  | exited
  deriving DecidableEq, Repr

/-- `MessageCmd`, `scheduler.rs:1035`. -/
inductive MessageCmd where
  | joinTargetExited (tid : Nat)
  | deblock (pid tid : Nat)
  | kill (tid : Nat)
  deriving DecidableEq, Repr

/-- `MessageItem`, `scheduler.rs:1016`. -/
inductive MessageItem where
  | thread (thread : Thread)
  | cmd (cmd : MessageCmd)
  deriving DecidableEq, Repr

/-- The scheduler of one core with what `PerCpuRef` publishes of it. The ready queue stands
with its front first and the inbox with its oldest message first. The join map is the list of
its pairs of a thread number and a waiter: a number without waiters and a missing number are
the same to every function. -/
structure Core where
  initialized : Bool
  currentThread : Option Thread
  readyQueue : List Thread
  idleThread : Thread
  sleepList : List (Thread × Nat)
  blockedList : List Thread
  joinMap : List (Nat × Thread)
  inbox : List MessageItem
  rqLen : Nat
  reschedFlag : Bool
  deriving Repr

namespace Core

/-- `Scheduler::current`, `scheduler.rs:775`. -/
def current (c : Core) : Except Panic Thread :=
  match c.currentThread with
  | some thread => .ok thread
  | none => .error .unwrapNone

/-- `inc_rq_len`, once for each of `k` threads. -/
def incRqLen (k : Nat) (c : Core) : Core := { c with rqLen := (c.rqLen + k) % 2 ^ 32 }

/-- `dec_rq_len`, which wraps below zero. -/
def decRqLen (c : Core) : Core :=
  { c with rqLen := if c.rqLen = 0 then 2 ^ 32 - 1 else c.rqLen - 1 }

/-- `ready_queue.push_front` for every thread of the list in turn. -/
def pushFront (threads : List Thread) (c : Core) : Core :=
  { c with readyQueue := threads.reverse ++ c.readyQueue }

/-- The core after `ready_queue.pop_back`. -/
def popBack (c : Core) : Core := { c with readyQueue := c.readyQueue.dropLast }

/-- Another thread becomes the current one. -/
def setCurrent (next : Thread) (c : Core) : Core := { c with currentThread := some next }

/-- `check_sleep_list`, `scheduler.rs:791`. -/
def checkSleepList (time : Nat) (c : Core) : Core :=
  let due := (c.sleepList.filter fun entry ↦ entry.2 ≤ time).map Prod.fst
  { c with sleepList := c.sleepList.filter fun entry ↦ ¬ entry.2 ≤ time }.pushFront due
    |>.incRqLen due.length

/-- The waiters of a thread move to the ready queue and its entry leaves the join map. -/
def wakeJoiners (tid : Nat) (c : Core) : Core :=
  let waiters := (c.joinMap.filter fun entry ↦ entry.1 = tid).map Prod.snd
  { c with joinMap := c.joinMap.filter fun entry ↦ entry.1 ≠ tid }.pushFront waiters
    |>.incRqLen waiters.length

/-- A blocked thread moves to the ready queue. -/
def wakeBlocked (thread : Thread) (c : Core) : Core :=
  { c with blockedList := c.blockedList.erase thread }.pushFront [thread]

/-- The current thread enters the sleep list. -/
def addSleeper (thread : Thread) (wakeup : Nat) (c : Core) : Core :=
  { c with sleepList := c.sleepList ++ [(thread, wakeup)] }.decRqLen

/-- The current thread enters the blocked list. -/
def addBlocked (thread : Thread) (c : Core) : Core :=
  { c with blockedList := c.blockedList ++ [thread] }.decRqLen

/-- The current thread waits for the end of another one. -/
def addWaiter (tid : Nat) (thread : Thread) (c : Core) : Core :=
  { c with joinMap := c.joinMap ++ [(tid, thread)] }.decRqLen

/-- The searches of `kill_locally`, `scheduler.rs:425`, each only if the one before reports no
change. The second one compares the length of the sleep list before with the lengths of sleep
list and ready queue after. -/
def removeThread (tid : Nat) (c : Core) : Bool × Core :=
  let ready := c.readyQueue.filter fun thread ↦ thread.id ≠ tid
  if c.readyQueue.length ≠ ready.length then (true, { c with readyQueue := ready })
  else
    let asleep := c.sleepList.filter fun entry ↦ entry.1.id ≠ tid
    if c.sleepList.length ≠ ready.length + asleep.length then
      (true, { c with sleepList := asleep })
    else
      let blocked := c.blockedList.filter fun thread ↦ thread.id ≠ tid
      if blocked.length ≠ c.blockedList.length then
        (true, { c with sleepList := asleep, blockedList := blocked })
      else
        let joining := c.joinMap.filter fun entry ↦ entry.2.id ≠ tid
        (decide (joining.length ≠ c.joinMap.length),
          { c with sleepList := asleep, joinMap := joining })

/-- `try_send` into the inbox of a core, `none` if it is full. -/
def trySend (size : Nat) (item : MessageItem) (c : Core) : Option Core :=
  if c.inbox.length < size then some { c with inbox := c.inbox ++ [item] } else none

end Core

/-- What a critical section on a core works on: the core, the live threads, the states of the
threads and the commands for all other cores. -/
structure Section where
  core : Core
  activeTids : Finset Nat
  states : Nat → ThreadState
  broadcast : List MessageCmd

namespace Section

/-- The section after a change of its core. -/
def onCore (f : Core → Core) (x : Section) : Section := { x with core := f x.core }

/-- `schedule_on_all_others`, `scheduler.rs:1086`. -/
def scheduleOnAllOthers (cmd : MessageCmd) (x : Section) : Section :=
  { x with broadcast := x.broadcast ++ [cmd] }

/-- `mark_thread_dead`. -/
def markThreadDead (tid : Nat) (x : Section) : Section :=
  { x with activeTids := x.activeTids.erase tid }

/-- `set_state` of a thread. -/
def setState (tid : Nat) (state : ThreadState) (x : Section) : Section :=
  { x with states := Function.update x.states tid state }

/-- `unjoin`, `scheduler.rs:379`. -/
def unjoin (tid : Nat) (x : Section) : Section :=
  (x.onCore (·.wakeJoiners tid)).scheduleOnAllOthers (.joinTargetExited tid)

/-- A thread is recorded as dead, its waiters are woken and it leaves the run queue. -/
def endThread (tid : Nat) (x : Section) : Section :=
  ((x.markThreadDead tid).unjoin tid).onCore Core.decRqLen

/-- `kill_locally`, `scheduler.rs:425`. -/
def killLocally (tid : Nat) (x : Section) : Bool × Section :=
  if tid ∉ x.activeTids then (true, x)
  else
    let (changed, core) := x.core.removeThread tid
    if changed then (true, { x with core := core }.endThread tid)
    else (false, { x with core := core })

/-- `handle_inbox_cmd`, `scheduler.rs:885`. -/
def handleInboxCmd (size : Nat) (cmd : MessageCmd) (x : Section) : Except Panic Section :=
  match cmd with
  | .joinTargetExited tid => .ok (x.onCore (·.wakeJoiners tid))
  | .deblock pid tid =>
    if tid ∉ x.activeTids then .ok x
    else if ⟨tid, pid⟩ ∈ x.core.blockedList then
      .ok (x.onCore fun c ↦ (c.wakeBlocked ⟨tid, pid⟩).incRqLen 1)
    else .ok x
  | .kill tid =>
    if tid ∉ x.activeTids then .ok x
    else do
      let thread ← x.core.current
      if thread.id = tid then
        -- `let _ = schedule_on(own core)`: a full inbox is ignored
        let x := x.onCore fun c ↦ (c.trySend size (.cmd (.kill tid))).getD c
        return x.scheduleOnAllOthers (.kill tid)
      else return (x.killLocally tid).2

/-- `drain_inbox_into_ready`, `scheduler.rs:1098`; `drained` counts the threads. -/
def drainInboxIntoReady (size : Nat) : Nat → Nat → Section → Except Panic Section
  | 0, drained, x =>
    .ok (if 0 < drained then x.onCore fun c ↦ { c with reschedFlag := false } else x)
  | max + 1, drained, x =>
    match x.core.inbox with
    | [] => .ok (if 0 < drained then x.onCore fun c ↦ { c with reschedFlag := false } else x)
    | .thread thread :: rest =>
      drainInboxIntoReady size max (drained + 1)
        (x.onCore fun c ↦ ({ c with inbox := rest }.pushFront [thread]).incRqLen 1)
    | .cmd cmd :: rest => do
      let x ← handleInboxCmd size cmd (x.onCore fun c ↦ { c with inbox := rest })
      drainInboxIntoReady size max drained x

/-- The end of `block_and_switch`, `scheduler.rs:540`; `false` if the thread goes on itself. -/
def dispatch (next : Thread) (x : Section) : Except Panic (Bool × Section) := do
  let current ← x.core.current
  if current.id = next.id then return (false, x)
  else return (true, x.onCore (·.setCurrent next))

/-- `block_and_switch`, `scheduler.rs:525`. -/
def blockAndSwitch (size time : Nat) (x : Section) : Except Panic (Bool × Section) :=
  match x.core.readyQueue.getLast? with
  | some next => (x.onCore Core.popBack).dispatch next
  | none => do
    let x ← drainInboxIntoReady size 10 0 (x.onCore (·.checkSleepList time))
    match x.core.readyQueue.getLast? with
    | some next => (x.onCore Core.popBack).dispatch next
    | none => x.dispatch x.core.idleThread

/-- `start`, `scheduler.rs:238`. It is the first to set a current thread, so `has_started` is
true exactly if there is one. -/
def start (x : Section) : Section :=
  match x.core.currentThread with
  | some _ => x
  | none =>
    match x.core.readyQueue.getLast? with
    | some next => x.onCore fun c ↦ c.popBack.setCurrent next
    | none => x.onCore fun c ↦ c.setCurrent c.idleThread

/-- `ready`, `scheduler.rs:258`. The thread gets a new entry in the join map. -/
def ready (thread : Thread) (x : Section) : Section :=
  { x with activeTids := insert thread.id x.activeTids }.onCore fun c ↦
    { (c.incRqLen 1).pushFront [thread] with
      joinMap := c.joinMap.filter fun entry ↦ entry.1 ≠ thread.id }

/-- `sleep`, `scheduler.rs:281`, called at `now`; `time` is when the sleep list is checked. -/
def sleep (size now ms time : Nat) (x : Section) : Except Panic Section :=
  if ¬ x.core.initialized then .ok x
  else do
    let thread ← x.core.current
    let (_, x) ← (x.onCore (·.addSleeper thread (now + ms))).blockAndSwitch size time
    return x

/-- `block`, `scheduler.rs:306`. -/
def block (size time : Nat) (x : Section) : Except Panic Section :=
  if ¬ x.core.initialized then .error .assertion
  else do
    let thread ← x.core.current
    let (_, x) ← (x.onCore (·.addBlocked thread)).blockAndSwitch size time
    return x

/-- `deblock`, `scheduler.rs:329`. -/
def deblock (pid tid : Nat) (x : Section) : Section :=
  if ⟨tid, pid⟩ ∈ x.core.blockedList then
    (x.onCore fun c ↦ { c with blockedList := c.blockedList.erase ⟨tid, pid⟩ }).ready ⟨tid, pid⟩
  else x.scheduleOnAllOthers (.deblock pid tid)

/-- `join`, `scheduler.rs:352`, from where it holds the ready state; it returns at once with an
error if the thread is not alive. -/
def join (size tid time : Nat) (x : Section) : Except Panic Section := do
  let thread ← x.core.current
  if tid ∉ x.activeTids then return x
  else
    let (_, x) ← (x.onCore (·.addWaiter tid thread)).blockAndSwitch size time
    return x

/-- `exit`, `scheduler.rs:392`. -/
def exit (size time : Nat) (x : Section) : Except Panic Section := do
  let current ← x.core.current
  let x := x.endThread current.id
  let (switched, x) ← x.blockAndSwitch size time
  if switched then return x else .error .assertion

/-- `kill`, `scheduler.rs:408`. -/
def kill (tid : Nat) (x : Section) : Except Panic Section := do
  let current ← x.core.current
  if current.id = tid then .error .assertion
  else
    let (found, x) := x.killLocally tid
    return if found then x else x.scheduleOnAllOthers (.kill tid)

/-- `park_current`, `scheduler.rs:562`. -/
def parkCurrent (x : Section) : Except Panic Section := do
  let thread ← x.core.current
  return x.setState thread.id .parking

/-- `unblock`, `scheduler.rs:571`. A thread that is found in the ready queue leaves its state
alone: the state of the running thread is set. -/
def unblock (pid tid : Nat) (x : Section) : Bool × Section :=
  if ⟨tid, pid⟩ ∈ x.core.blockedList then
    (true, (x.setState tid .ready).onCore (·.wakeBlocked ⟨tid, pid⟩))
  else
    match x.core.currentThread with
    | none => (false, x)
    | some current =>
      if current = ⟨tid, pid⟩ then (true, x.setState tid .running)
      else if ⟨tid, pid⟩ ∈ x.core.readyQueue then (true, x.setState current.id .ready)
      else (false, x)

/-- `yield_now`, `scheduler.rs:934`; `locked` says whether the stacks of the thread or the
task state segment are locked. -/
def yieldNow (locked : Bool) (x : Section) : Except Panic Section :=
  if ¬ x.core.initialized then .ok x
  else do
    let current ← x.core.current
    if locked then return x
    else
      match x.core.readyQueue.getLast? with
      | none => return x
      | some next =>
        let x := (x.setState current.id .ready).setState next.id .running
        return x.onCore fun c ↦ (c.popBack.pushFront [current]).setCurrent next

/-- The switch at the end of `switch_thread`, `scheduler.rs:640`. -/
def switchNext (locked : Bool) (x : Section) : Except Panic Section := do
  let current ← x.core.current
  let wasIdle := current.id = x.core.idleThread.id
  if locked then return x
  else
    match x.core.readyQueue.getLast? with
    | none =>
      if wasIdle then return x
      else return x.onCore fun c ↦ (c.pushFront [current]).setCurrent c.idleThread
    | some next =>
      if wasIdle then return x.onCore fun c ↦ c.popBack.setCurrent next
      else return x.onCore fun c ↦ (c.popBack.pushFront [current]).setCurrent next

end Section

/-- All cores, `ACTIVE_TIDS`, the states of the threads, the counter of `next_thread_id` and the
capacity of an inbox. -/
@[ext] structure System (n : Nat) where
  cores : Fin n → Core
  activeTids : Finset Nat
  states : Nat → ThreadState
  nextThreadId : Nat
  inboxSize : Nat

namespace System

variable {n : Nat}

/-- A critical section of a core begins. -/
def enter (s : System n) (i : Fin n) : Section := ⟨s.cores i, s.activeTids, s.states, []⟩

/-- A critical section of a core ends: its commands go to all other cores, which all need room
for them. -/
def leave (s : System n) (i : Fin n) (x : Section) : Except Panic (System n) :=
  if ∀ j, j ≠ i → (s.cores j).inbox.length + x.broadcast.length ≤ s.inboxSize then
    .ok { s with
      cores := fun j ↦
        if j = i then x.core
        else { s.cores j with inbox := (s.cores j).inbox ++ x.broadcast.map .cmd }
      activeTids := x.activeTids
      states := x.states }
  else .error .assertion

/-- One core changes. -/
def onCore (s : System n) (i : Fin n) (f : Core → Core) : System n :=
  { s with cores := Function.update s.cores i (f (s.cores i)) }

/-- `schedule_on`, `scheduler.rs:1073`; `none` if the inbox of the target is full. -/
def scheduleOn (s : System n) (target : Fin n) (item : MessageItem) : Option (System n) :=
  ((s.cores target).trySend s.inboxSize item).map fun c ↦ s.onCore target fun _ ↦ c

/-- `active_thread_count`, the sum of the run queue lengths or the largest `u32`. -/
def activeThreadCount (s : System n) : Nat :=
  min (2 ^ 32 - 1) ((List.finRange n).map fun j ↦ (s.cores j).rqLen).sum

/-- `should_balance_now`, `scheduler.rs:686`. -/
def shouldBalanceNow (s : System n) (i : Fin n) : Bool :=
  s.activeThreadCount / n + 1 < (s.cores i).rqLen

/-- The core that `find_less_loaded_core`, `scheduler.rs:727`, looks for. -/
def leastLoaded (s : System n) (i : Fin n) : Fin n :=
  (List.finRange n).foldl
    (fun best j ↦ if (s.cores j).rqLen < (s.cores best).rqLen then j else best) ⟨0, i.pos⟩

/-- `find_less_loaded_core`, `scheduler.rs:727`. -/
def findLessLoadedCore (s : System n) (i : Fin n) : Option (Fin n × Nat) :=
  let target := s.leastLoaded i
  if (s.cores i).rqLen ≤ (s.cores target).rqLen then none
  else some (target, (s.cores target).rqLen)

/-- The loop of `balance_once`, `scheduler.rs:711`: a thread that `schedule_on` does not take
is dropped. -/
def moveThreads (i target : Fin n) : Nat → System n → System n
  | 0, s => s
  | amount + 1, s =>
    match (s.cores i).readyQueue with
    | [] => s
    | thread :: rest =>
      let s := s.onCore i fun c ↦ { c with readyQueue := rest }.decRqLen
      moveThreads i target amount ((s.scheduleOn target (.thread thread)).getD s)

/-- The target of `balance_once` and how many threads it moves at most. -/
def balanceGoal (s : System n) (i : Fin n) : Option (Fin n × Nat) :=
  if (s.cores i).rqLen ≤ 1 then none
  else
    match s.findLessLoadedCore i with
    | none => none
    | some (target, load) =>
      if load + 2 ≤ (s.cores i).rqLen then some (target, ((s.cores i).rqLen - load) / 4 + 1)
      else none

/-- `balance_once`, `scheduler.rs:700`. -/
def balanceOnce (s : System n) (i : Fin n) : System n :=
  match s.balanceGoal i with
  | none => s
  | some (target, amount) => moveThreads i target amount s

/-- `switch_thread`, `scheduler.rs:616`, up to the inbox. `sleepFree` says whether `try_lock` gets
the sleep list. -/
def beforeDrain (s : System n) (i : Fin n) (time : Nat) (sleepFree : Bool) : Section :=
  if sleepFree then (s.enter i).onCore (·.checkSleepList time) else s.enter i

/-- `switch_thread`, `scheduler.rs:616`, up to the balancing. -/
def switchDrain (s : System n) (i : Fin n) (time : Nat) (sleepFree : Bool) :
    Except Panic (System n) := do
  let x ← (s.beforeDrain i time sleepFree).drainInboxIntoReady s.inboxSize 10 0
  s.leave i x

/-- The balancing of `switch_thread`, `scheduler.rs:636`. -/
def switchBalance (s : System n) (i : Fin n) : System n :=
  if (s.cores i).reschedFlag || s.shouldBalanceNow i then s.balanceOnce i else s

/-- `switch_thread`, `scheduler.rs:616`, where preemption is not disabled and the ready state is
not locked; otherwise it does nothing. -/
def switchThread (s : System n) (i : Fin n) (time : Nat) (sleepFree locked : Bool) :
    Except Panic (System n) :=
  if ¬ (s.cores i).initialized then .ok s
  else do
    let s ← s.switchDrain i time sleepFree
    let s := s.switchBalance i
    let x ← (s.enter i).switchNext locked
    s.leave i x

/-- A new thread of a process becomes ready on a core. -/
def spawn (s : System n) (i : Fin n) (pid : Nat) : Except Panic (System n) :=
  { s with nextThreadId := s.nextThreadId + 1 }.leave i
    ((s.enter i).ready ⟨s.nextThreadId, pid⟩)

end System

/-- What happens on a core: a critical section of the scheduler or the reschedule interrupt. -/
inductive Event (n : Nat) where
  | init (core : Fin n)
  | start (core : Fin n)
  | spawn (core : Fin n) (pid : Nat)
  | sleep (core : Fin n) (now ms time : Nat)
  | block (core : Fin n) (time : Nat)
  | deblock (core : Fin n) (pid tid : Nat)
  | join (core : Fin n) (tid time : Nat)
  | exit (core : Fin n) (time : Nat)
  | kill (core : Fin n) (tid : Nat)
  | park (core : Fin n)
  | unblock (core : Fin n) (pid tid : Nat)
  | yieldNow (core : Fin n) (locked : Bool)
  | switchThread (core : Fin n) (time : Nat) (sleepFree locked : Bool)
  | resched (core : Fin n)
  deriving DecidableEq, Repr

namespace System

variable {n : Nat}

/-- A critical section of a core that may panic. -/
def critical (s : System n) (i : Fin n) (f : Section → Except Panic Section) :
    Except Panic (System n) := do
  let x ← f (s.enter i)
  s.leave i x

/-- One step of the system. -/
def step (s : System n) : Event n → Except Panic (System n)
  | .init i => .ok (s.onCore i fun c ↦ { c with initialized := true })
  | .start i => s.critical i fun x ↦ .ok x.start
  | .spawn i pid => s.spawn i pid
  | .sleep i now ms time => s.critical i (·.sleep s.inboxSize now ms time)
  | .block i time => s.critical i (·.block s.inboxSize time)
  | .deblock i pid tid => s.critical i fun x ↦ .ok (x.deblock pid tid)
  | .join i tid time => s.critical i (·.join s.inboxSize tid time)
  | .exit i time => s.critical i (·.exit s.inboxSize time)
  | .kill i tid => s.critical i (·.kill tid)
  | .park i => s.critical i Section.parkCurrent
  | .unblock i pid tid => s.critical i fun x ↦ .ok (x.unblock pid tid).2
  | .yieldNow i locked => s.critical i (·.yieldNow locked)
  | .switchThread i time sleepFree locked => s.switchThread i time sleepFree locked
  | .resched i => .ok (s.onCore i fun c ↦ { c with reschedFlag := true })

/-- The system before the schedulers are set up: only the idle threads exist, one for each core
and with numbers that were given out. -/
structure Initial (s : System n) : Prop where
  current : ∀ i, (s.cores i).currentThread = none
  ready : ∀ i, (s.cores i).readyQueue = []
  asleep : ∀ i, (s.cores i).sleepList = []
  blocked : ∀ i, (s.cores i).blockedList = []
  joining : ∀ i, (s.cores i).joinMap = []
  inbox : ∀ i, (s.cores i).inbox = []
  activeTids : s.activeTids = ∅
  idle : ∀ i, (s.cores i).idleThread.id < s.nextThreadId

/-- A core before its scheduler is set up. -/
def bootCore (idle : Thread) : Core where
  initialized := false
  currentThread := none
  readyQueue := []
  idleThread := idle
  sleepList := []
  blockedList := []
  joinMap := []
  inbox := []
  rqLen := 0
  reschedFlag := false

/-- The system at boot; `boot.rs:268` makes inboxes for 100 messages. -/
def boot (n size : Nat) : System n :=
  ⟨fun i ↦ bootCore ⟨i, 0⟩, ∅, fun _ ↦ .created, n, size⟩

/-- The system after boot. -/
theorem initial_boot (n size : Nat) : (boot n size).Initial :=
  ⟨fun _ ↦ rfl, fun _ ↦ rfl, fun _ ↦ rfl, fun _ ↦ rfl, fun _ ↦ rfl, fun _ ↦ rfl, rfl,
    fun i ↦ i.isLt⟩

end System

/-- The sample systems have two cores. -/
scoped instance twoCores : NeZero 2 := ⟨two_ne_zero⟩

end D3OS.Scheduler
