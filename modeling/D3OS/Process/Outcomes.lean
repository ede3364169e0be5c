import D3OS.Process.Sections

/-!
# What a critical section does

`Outcome` says what each function of the scheduler does to the data of its core: which threads
may enter a list, and that no thread is counted more or less often than before, up to threads
that are killed, exit or are lost.
-/

namespace D3OS.Scheduler

open Lib

namespace Section

variable {K L : Nat → Prop} {x y z : Section}

/-- Every thread number that the core and the live threads mention is below a bound. -/
structure Below (b : Nat) (x : Section) : Prop where
  alive : ∀ id ∈ x.activeTids, id < b
  targets : ∀ entry ∈ x.core.joinMap, entry.1 < b
  count : ∀ id, 0 < x.core.count id → id < b
  idle : x.core.idleThread.id < b

/-- The lists that a thread enters when it gives up its core. -/
inductive Waiting where
  | asleep
  | blocked
  | joining (tid : Nat)
  deriving DecidableEq, Repr

/-- What a critical section does: `K` holds of the threads that are killed or exit, `L` of those
that are lost, and `C` of the thread that may give up the core and where it waits. -/
structure Outcome (K L : Nat → Prop) (C : Waiting → Thread → Prop) (x y : Section) : Prop where
  idle : y.core.idleThread = x.core.idleThread
  asleep : ∀ entry ∈ y.core.sleepList, entry ∈ x.core.sleepList ∨ C .asleep entry.1
  blocked : ∀ thread ∈ y.core.blockedList, thread ∈ x.core.blockedList ∨ C .blocked thread
  joining : ∀ entry ∈ y.core.joinMap, entry ∈ x.core.joinMap ∨ C (.joining entry.1) entry.2
  count_le : ∀ id, id ≠ x.core.idleThread.id → y.core.count id ≤ x.core.count id
  count_eq : ∀ id, id ≠ x.core.idleThread.id → ¬ K id → ¬ L id →
    y.core.count id = x.core.count id
  kept : ∀ id ∈ y.activeTids, id ≠ x.core.idleThread.id → ¬ L id → x.core.count id ≤ 1 →
    y.core.count id = x.core.count id
  alive : ∀ id ∈ y.activeTids, id ∈ x.activeTids ∨ 0 < x.core.count id
  below : ∀ b, x.Below b → y.Below b
  kills : (∀ id, .cmd (.kill id) ∈ x.core.inbox → K id) →
    ∀ id, .cmd (.kill id) ∈ y.core.inbox → K id
  sent : ∀ id, .kill id ∈ y.broadcast → .kill id ∈ x.broadcast ∨ K id
  broadcast : x.broadcast ⊆ y.broadcast
  died : ∀ id ∈ x.activeTids, id ∉ y.activeTids → K id ∧ .joinTargetExited id ∈ y.broadcast
  waiters : x.JoinSafe → y.JoinSafe

variable {C : Waiting → Thread → Prop}

private theorem Drained.below (h : Drained K L x y) (b : Nat) (hb : x.Below b) : y.Below b where
  alive id hid := hb.alive id (h.alive hid)
  targets entry hentry := hb.targets entry (h.joining hentry)
  count id hid := hb.count id (Nat.lt_of_lt_of_le hid (h.count_le id))
  idle := h.idle ▸ hb.idle

/-- A section in which nobody gives up the core. -/
theorem Drained.outcome (h : Drained K L x y) : Outcome K L C x y where
  idle := h.idle
  asleep _ hentry := .inl (h.asleep hentry)
  blocked _ hthread := .inl (h.blocked hthread)
  joining _ hentry := .inl (h.joining hentry)
  count_le id _ := h.count_le id
  count_eq id _ hK _ := h.count_eq id hK
  kept id hid _ := h.kept id hid
  alive _ hid := .inl (h.alive hid)
  below := h.below
  kills := h.kills
  sent := h.sent
  broadcast := h.broadcast
  died := h.died
  waiters := h.waiters

private theorem Drained.trans_outcome (hxy : Drained K L x y) (hyz : Outcome K L C y z) :
    Outcome K L C x z where
  idle := hyz.idle.trans hxy.idle
  asleep entry h := (hyz.asleep entry h).imp_left fun h ↦ hxy.asleep h
  blocked thread h := (hyz.blocked thread h).imp_left fun h ↦ hxy.blocked h
  joining entry h := (hyz.joining entry h).imp_left fun h ↦ hxy.joining h
  count_le id h := (hyz.count_le id (hxy.idle ▸ h)).trans (hxy.count_le id)
  count_eq id h hK hL := (hyz.count_eq id (hxy.idle ▸ h) hK hL).trans (hxy.count_eq id hK)
  kept id hz h hL hone := by
    have hle := (hxy.count_le id).trans hone
    have hyz' := hyz.kept id hz (hxy.idle ▸ h) hL hle
    by_cases hy : id ∈ y.activeTids
    · exact hyz'.trans (hxy.kept id hy hL hone)
    · have hpos := (hyz.alive id hz).resolve_left hy
      have := hxy.count_le id
      omega
  alive id h := by
    rcases hyz.alive id h with hy | hy
    · exact .inl (hxy.alive hy)
    · exact .inr (Nat.lt_of_lt_of_le hy (hxy.count_le id))
  below b h := hyz.below b (hxy.below b h)
  kills h := hyz.kills (hxy.kills h)
  sent id h := (hyz.sent id h).elim (hxy.sent id) .inr
  broadcast := List.Subset.trans hxy.broadcast hyz.broadcast
  died id hx hz := by
    by_cases hy : id ∈ y.activeTids
    · exact hyz.died id hy hz
    · exact ⟨(hxy.died id hx hy).1, hyz.broadcast (hxy.died id hx hy).2⟩
  waiters h := hyz.waiters (hxy.waiters h)

/-- The current thread `cur` gives up the core to a thread of the ready queue or to the idle
thread. -/
structure Switches (cur : Thread) (x y : Section) : Prop where
  core : ∃ queue next,
    y = x.onCore fun c ↦ { c with readyQueue := queue, currentThread := next }
  held : ∀ id, id ≠ x.core.idleThread.id →
    y.core.held id + (if cur.id = id then 1 else 0) = x.core.held id
  held_le : ∀ id, y.core.held id ≤
    x.core.held id + if x.core.idleThread.id = id then 1 else 0

variable {cur : Thread}

private theorem Switches.below (h : Switches cur x y) (b : Nat) (hb : x.Below b) : y.Below b := by
  have hheld := h.held_le
  obtain ⟨queue, next, rfl⟩ := h.core
  refine ⟨hb.alive, hb.targets, fun id hid ↦ ?_, hb.idle⟩
  have hheld := hheld id
  change 0 < _ + x.core.flying id at hid
  split at hheld
  next heq => exact heq ▸ hb.idle
  next =>
    refine hb.count id ?_
    rw [Core.count]
    omega

/-- A switch loses no other thread. -/
theorem Switches.count (h : Switches cur x y) {id : Nat} (hid : id ≠ x.core.idleThread.id) :
    y.core.count id + (if cur.id = id then 1 else 0) = x.core.count id := by
  have hheld := h.held id hid
  obtain ⟨queue, next, rfl⟩ := h.core
  change _ + x.core.flying id + _ = _ + x.core.flying id
  omega

variable {b : Bool}

section

variable (hcur : x.core.currentThread = some cur)
include hcur

private theorem dispatch_eq_ok {next : Thread} (h : x.dispatch next = .ok (b, y)) :
    (∃ current, y = x.onCore fun c ↦ { c with currentThread := current }) ∧
      ∀ id, y.core.held id + (if cur.id = id then 1 else 0) =
        x.core.held id + if next.id = id then 1 else 0 := by
  obtain ⟨cur', hcur', h⟩ := of_bind h
  obtain rfl : cur = cur' := Option.some.inj (hcur.symm.trans (current_eq_ok hcur'))
  split at h
  next heq =>
    cases h
    exact ⟨⟨x.core.currentThread, rfl⟩, fun id ↦ by rw [heq]⟩
  next =>
    cases h
    exact ⟨⟨some next, rfl⟩, fun id ↦ Core.held_setCurrent id hcur next⟩

private theorem switches_popBack {next : Thread} (hnext : x.core.readyQueue.getLast? = some next)
    (h : (x.onCore Core.popBack).dispatch next = .ok (b, y)) : Switches cur x y := by
  obtain ⟨⟨current, hy⟩, hheld⟩ := dispatch_eq_ok (x := x.onCore Core.popBack) hcur h
  have hheld : ∀ id, y.core.held id + (if cur.id = id then 1 else 0) = x.core.held id :=
    fun id ↦ (hheld id).trans (Core.held_popBack id hnext)
  refine ⟨⟨x.core.readyQueue.dropLast, current, hy⟩, fun id _ ↦ hheld id, fun id ↦ ?_⟩
  have := hheld id
  omega

private theorem switches_idle (h : x.dispatch x.core.idleThread = .ok (b, y)) :
    Switches cur x y := by
  obtain ⟨⟨current, hy⟩, hheld⟩ := dispatch_eq_ok hcur h
  refine ⟨⟨x.core.readyQueue, current, hy⟩, fun id hid ↦ ?_, fun id ↦ ?_⟩
  · rw [hheld id, if_neg (Ne.symm hid), Nat.add_zero]
  · exact hheld id ▸ Nat.le_add_right _ _

end

/-- A condition on every kill of a thread in the drain of `block_and_switch`, which happens only
if the ready queue is empty. -/
def BlockMeets (P : Nat → Core → Prop) (size time : Nat) (x : Section) : Prop :=
  x.core.readyQueue = [] → (x.onCore (·.checkSleepList time)).DrainMeets P size 10

instance {P : Nat → Core → Prop} [∀ tid c, Decidable (P tid c)] (size time : Nat) (x : Section) :
    Decidable (x.BlockMeets P size time) := inferInstanceAs (Decidable (_ → _))

variable {size time : Nat}

/-- `block_and_switch`: the current thread gives up the core, at once or behind a drain of the
inbox. -/
theorem blockAndSwitch_eq_ok (hcur : x.core.currentThread = some cur)
    (h : x.blockAndSwitch size time = .ok (b, y)) :
    Switches cur x y ∨ x.core.readyQueue = [] ∧ ∃ z,
      drainInboxIntoReady size 10 0 (x.onCore (·.checkSleepList time)) = .ok z ∧
        (z.core.currentThread = some cur → Switches cur z y) := by
  rw [blockAndSwitch] at h
  split at h
  next next hnext => exact .inl (switches_popBack hcur hnext h)
  next hnone =>
    obtain ⟨z, hz, h⟩ := of_bind h
    refine .inr ⟨List.getLast?_eq_none_iff.mp hnone, z, hz, fun hcurz ↦ ?_⟩
    split at h
    next next hnext => exact switches_popBack hcurz hnext h
    next => exact switches_idle hcurz h

private theorem blockAndSwitch_spec (hcur : x.core.currentThread = some cur)
    (hK : ∀ id, .cmd (.kill id) ∈ x.core.inbox → K id)
    (hfind : x.BlockMeets (fun tid c ↦ c.FindsAsleep tid ∨ L tid) size time)
    (h : x.blockAndSwitch size time = .ok (b, y)) : ∃ z, Drained K L x z ∧ Switches cur z y := by
  rcases blockAndSwitch_eq_ok hcur h with hswitch | ⟨hempty, z, hz, hswitch⟩
  · exact ⟨x, .refl x, hswitch⟩
  · have hsleep : Drained K L x (x.onCore (·.checkSleepList time)) :=
      .of_wakes (Core.wakes_checkSleepList time x.core)
    have hxz := hsleep.trans (drained_drainInboxIntoReady (hsleep.kills hK) (hfind hempty) hz)
    exact ⟨z, hxz, hswitch (hxz.current.trans hcur)⟩

/-- The current thread enters a list of its core. -/
structure Parks (cur : Thread) (place : Waiting) (x y : Section) : Prop where
  idle : y.core.idleThread = x.core.idleThread
  current : y.core.currentThread = x.core.currentThread
  asleep : ∀ entry ∈ y.core.sleepList,
    entry ∈ x.core.sleepList ∨ place = .asleep ∧ entry.1 = cur
  blocked : ∀ thread ∈ y.core.blockedList,
    thread ∈ x.core.blockedList ∨ place = .blocked ∧ thread = cur
  joining : ∀ entry ∈ y.core.joinMap,
    entry ∈ x.core.joinMap ∨ place = .joining entry.1 ∧ entry.2 = cur
  targets : ∀ entry ∈ y.core.joinMap, entry ∈ x.core.joinMap ∨ entry.1 ∈ x.activeTids
  held : ∀ id, y.core.held id = x.core.held id + if cur.id = id then 1 else 0
  inbox : y.core.inbox = x.core.inbox
  alive : y.activeTids = x.activeTids
  broadcast : y.broadcast = x.broadcast

private theorem Parks.outcome {place : Waiting} (hpark : Parks cur place x y)
    (hcur : x.core.currentThread = some cur) (hC : C place cur)
    (hK : ∀ id, .cmd (.kill id) ∈ x.core.inbox → K id)
    (hfind : y.BlockMeets (fun tid c ↦ c.FindsAsleep tid ∨ L tid) size time)
    (h : y.blockAndSwitch size time = .ok (b, z)) : Outcome K L C x z := by
  obtain ⟨w, hyw, hwz⟩ := blockAndSwitch_spec (hpark.current.trans hcur)
    (K := K) (hpark.inbox ▸ hK) hfind h
  have hidle : w.core.idleThread = x.core.idleThread := hyw.idle.trans hpark.idle
  have hyb : ∀ id, y.core.count id = x.core.count id + if cur.id = id then 1 else 0 := by
    intro id
    rw [Core.count, hpark.held, Core.count, Core.flying, Core.flying, hpark.inbox]
    omega
  have hwc : ∀ id, id ≠ x.core.idleThread.id →
      z.core.count id + (if cur.id = id then 1 else 0) = w.core.count id :=
    fun id hid ↦ hwz.count (hidle ▸ hid)
  have hcurcount : 0 < x.core.count cur.id := by
    rw [Core.count, Core.held_eq, hcur]
    simp only [Option.toList_some, occurs_singleton, if_true]
    omega
  have hybelow : ∀ b, x.Below b → y.Below b := by
    intro b hb
    refine ⟨hpark.alive ▸ hb.alive, fun entry hentry ↦ ?_, fun id hid ↦ ?_, hpark.idle ▸ hb.idle⟩
    · rcases hpark.targets entry hentry with hentry | hentry
      · exact hb.targets entry hentry
      · exact hb.alive _ hentry
    · rw [hyb] at hid
      split at hid
      next heq => exact heq ▸ hb.count cur.id hcurcount
      next => exact hb.count id hid
  have hysafe : x.JoinSafe → y.JoinSafe := by
    intro hx entry hentry
    rw [hpark.alive, hpark.inbox]
    rcases hpark.targets entry hentry with hentry | hentry
    · exact hx entry hentry
    · exact .inl hentry
  have hput : ∀ {p thread}, place = p ∧ thread = cur → C p thread := by
    rintro p thread ⟨rfl, rfl⟩
    exact hC
  have hbelow := hwz.below
  obtain ⟨queue, next, rfl⟩ := hwz.core
  exact
    { idle := hidle
      asleep := fun entry hentry ↦
        (hpark.asleep entry (hyw.asleep hentry)).imp_right hput
      blocked := fun thread hthread ↦
        (hpark.blocked thread (hyw.blocked hthread)).imp_right hput
      joining := fun entry hentry ↦
        (hpark.joining entry (hyw.joining hentry)).imp_right hput
      count_le := by
        intro id hid
        have := hwc id hid
        have := hyw.count_le id
        have := hyb id
        omega
      count_eq := by
        intro id hid hKid _
        have := hwc id hid
        have := hyw.count_eq id hKid
        have := hyb id
        omega
      kept := by
        intro id halive hid hLid hone
        have hwc := hwc id hid
        have hyb := hyb id
        -- the thread that gives up the core counts twice in between, but is not killed either
        by_cases hcurid : cur.id = id
        · have hrunning := hyw.running cur (hpark.current.trans hcur)
          rw [hcurid] at hrunning
          omega
        · rw [if_neg hcurid] at hwc hyb
          have hkept := hyw.kept id halive hLid (hyb ▸ hone)
          omega
      alive := fun id hid ↦ .inl (hpark.alive ▸ hyw.alive hid)
      below := fun b hb ↦ hbelow b (hyw.below b (hybelow b hb))
      kills := fun _ ↦ hyw.kills (hpark.inbox ▸ hK)
      sent := fun id hid ↦ hpark.broadcast ▸ hyw.sent id hid
      broadcast := hpark.broadcast ▸ hyw.broadcast
      died := fun id hx ↦ hyw.died id (hpark.alive ▸ hx)
      waiters := fun hx ↦ hyw.waiters (hysafe hx) }

/-- `sleep` parks the thread. -/
theorem parks_addSleeper (cur : Thread) (wakeup : Nat) (x : Section) :
    Parks cur .asleep x (x.onCore (·.addSleeper cur wakeup)) where
  idle := rfl
  current := rfl
  asleep := forall_mem_push (fun _ ↦ .inl) (.inr ⟨rfl, rfl⟩)
  blocked _ := .inl
  joining _ := .inl
  targets _ := .inl
  held id := by
    simp only [onCore, Core.addSleeper, Core.decRqLen, Core.held_eq, List.map_append,
      List.map_cons, List.map_nil, occurs_append, occurs_singleton]
    omega
  inbox := rfl
  alive := rfl
  broadcast := rfl

/-- `block` parks the thread. -/
theorem parks_addBlocked (cur : Thread) (x : Section) :
    Parks cur .blocked x (x.onCore (·.addBlocked cur)) where
  idle := rfl
  current := rfl
  asleep _ := .inl
  blocked := forall_mem_push (fun _ ↦ .inl) (.inr ⟨rfl, rfl⟩)
  joining _ := .inl
  targets _ := .inl
  held id := by
    simp only [onCore, Core.addBlocked, Core.decRqLen, Core.held_eq, occurs_append,
      occurs_singleton]
    omega
  inbox := rfl
  alive := rfl
  broadcast := rfl

variable {tid : Nat}

/-- `join` parks the thread. -/
theorem parks_addWaiter (halive : tid ∈ x.activeTids) (cur : Thread) :
    Parks cur (.joining tid) x (x.onCore (·.addWaiter tid cur)) where
  idle := rfl
  current := rfl
  asleep _ := .inl
  blocked _ := .inl
  joining := forall_mem_push (fun _ ↦ .inl) (.inr ⟨rfl, rfl⟩)
  targets := forall_mem_push (fun _ ↦ .inl) (.inr halive)
  held id := by
    simp only [onCore, Core.addWaiter, Core.decRqLen, Core.held_eq, List.map_append,
      List.map_cons, List.map_nil, occurs_append, occurs_singleton]
    omega
  inbox := rfl
  alive := rfl
  broadcast := rfl

section

variable {size now ms time tid : Nat}

/-- `sleep` does nothing, or the current thread enters the sleep list and gives up the core. -/
theorem sleep_eq_ok (h : x.sleep size now ms time = .ok y) : y = x ∨ ∃ cur b,
    x.core.currentThread = some cur ∧
      (x.onCore (·.addSleeper cur (now + ms))).blockAndSwitch size time = .ok (b, y) := by
  rw [sleep] at h
  split at h
  · exact .inl (Except.ok.inj h).symm
  · obtain ⟨cur, hcur, h⟩ := of_bind h
    obtain ⟨⟨b, z⟩, hblock, h⟩ := of_bind h
    cases h
    exact .inr ⟨cur, b, current_eq_ok hcur, hblock⟩

/-- The parts of `block`. -/
theorem block_eq_ok (h : x.block size time = .ok y) : ∃ cur b,
    x.core.currentThread = some cur ∧
      (x.onCore (·.addBlocked cur)).blockAndSwitch size time = .ok (b, y) := by
  rw [block] at h
  split at h
  · cases h
  · obtain ⟨cur, hcur, h⟩ := of_bind h
    obtain ⟨⟨b, z⟩, hblock, h⟩ := of_bind h
    cases h
    exact ⟨cur, b, current_eq_ok hcur, hblock⟩

/-- The parts of `join`. -/
theorem join_eq_ok (h : x.join size tid time = .ok y) : y = x ∨ tid ∈ x.activeTids ∧ ∃ cur b,
    x.core.currentThread = some cur ∧
      (x.onCore (·.addWaiter tid cur)).blockAndSwitch size time = .ok (b, y) := by
  obtain ⟨cur, hcur, h⟩ := of_bind h
  split at h
  · exact .inl (Except.ok.inj h).symm
  next halive =>
    obtain ⟨⟨b, z⟩, hblock, h⟩ := of_bind h
    cases h
    exact .inr ⟨not_not.mp halive, cur, b, current_eq_ok hcur, hblock⟩

variable (hK : ∀ id, .cmd (.kill id) ∈ x.core.inbox → K id)

include hK

/-- What `sleep` does. -/
theorem outcome_sleep (hC : ∀ cur, x.core.currentThread = some cur → C .asleep cur)
    (hfind : ∀ cur, x.core.currentThread = some cur →
      (x.onCore (·.addSleeper cur (now + ms))).BlockMeets
        (fun tid c ↦ c.FindsAsleep tid ∨ L tid) size time)
    (h : x.sleep size now ms time = .ok y) : Outcome K L C x y := by
  rcases sleep_eq_ok h with rfl | ⟨cur, b, hcur, hblock⟩
  · exact (Drained.refl y).outcome
  · exact (parks_addSleeper cur _ x).outcome hcur (hC cur hcur) hK (hfind cur hcur) hblock

/-- What `block` does. -/
theorem outcome_block (hC : ∀ cur, x.core.currentThread = some cur → C .blocked cur)
    (hfind : ∀ cur, x.core.currentThread = some cur → (x.onCore (·.addBlocked cur)).BlockMeets
      (fun tid c ↦ c.FindsAsleep tid ∨ L tid) size time)
    (h : x.block size time = .ok y) : Outcome K L C x y := by
  obtain ⟨cur, b, hcur, hblock⟩ := block_eq_ok h
  exact (parks_addBlocked cur x).outcome hcur (hC cur hcur) hK (hfind cur hcur) hblock

/-- What `join` does. -/
theorem outcome_join (hC : ∀ cur, x.core.currentThread = some cur → C (.joining tid) cur)
    (hfind : ∀ cur, x.core.currentThread = some cur → (x.onCore (·.addWaiter tid cur)).BlockMeets
      (fun tid c ↦ c.FindsAsleep tid ∨ L tid) size time)
    (h : x.join size tid time = .ok y) : Outcome K L C x y := by
  rcases join_eq_ok h with rfl | ⟨halive, cur, b, hcur, hblock⟩
  · exact (Drained.refl y).outcome
  · exact (parks_addWaiter halive cur).outcome hcur (hC cur hcur) hK (hfind cur hcur) hblock

end

section

variable (hcurK : ∀ cur, x.core.currentThread = some cur → K cur.id)
  (hK : ∀ id, .cmd (.kill id) ∈ x.core.inbox → K id)
  (hfind : ∀ cur, x.core.currentThread = some cur → (x.endThread cur.id).BlockMeets
    (fun tid c ↦ c.FindsAsleep tid ∨ L tid) size time) (h : x.exit size time = .ok y)
include hcurK hK hfind h

private theorem exit_spec :
    ∃ cur z, x.core.currentThread = some cur ∧ Drained K L x z ∧ cur.id ∉ z.activeTids ∧
      Switches cur z y := by
  obtain ⟨cur, hcur, h⟩ := of_bind h
  obtain ⟨⟨b, z⟩, hblock, h⟩ := of_bind h
  have hcur := current_eq_ok hcur
  have hdead : Drained K L x (x.endThread cur.id) :=
    (drained_unjoin (hcurK cur hcur) x).trans (drained_decRqLen _)
  obtain ⟨w, hyw, hwz⟩ := blockAndSwitch_spec (hdead.current.trans hcur) (hdead.kills hK)
    (hfind cur hcur) hblock
  cases b with
  | false => cases h
  | true =>
    cases h
    exact ⟨cur, w, hcur, hdead.trans hyw,
      fun hmem ↦ absurd rfl (Finset.mem_erase.mp (hyw.alive hmem)).1, hwz⟩

/-- The current thread ends. -/
theorem outcome_exit : Outcome K L C x y := by
  obtain ⟨cur, z, hcur, hxz, hdead, hzy⟩ := exit_spec hcurK hK hfind h
  have hcount := fun id (hid : id ≠ x.core.idleThread.id) ↦ hzy.count (hxz.idle ▸ hid)
  have hbelow := hzy.below
  obtain ⟨queue, next, rfl⟩ := hzy.core
  exact
    { hxz.outcome (C := C) with
      count_le := by
        intro id hid
        have := hcount id hid
        have := hxz.count_le id
        omega
      count_eq := by
        intro id hid hKid _
        have hne : cur.id ≠ id := by
          rintro rfl
          exact hKid (hcurK cur hcur)
        have hcount := hcount id hid
        rw [if_neg hne] at hcount
        exact hcount.trans (hxz.count_eq id hKid)
      kept := by
        intro id halive hid hLid hone
        have hne : cur.id ≠ id := by
          rintro rfl
          exact hdead halive
        have hcount := hcount id hid
        rw [if_neg hne] at hcount
        exact hcount.trans (hxz.kept id halive hLid hone)
      below := fun b hb ↦ hbelow b (hxz.below b hb) }

end

/-- The thread that ends leaves one place. -/
theorem count_exit (hcur : x.core.currentThread = some cur) (hidle : cur.id ≠ x.core.idleThread.id)
    (h : x.exit size time = .ok y) : y.core.count cur.id + 1 ≤ x.core.count cur.id := by
  have hall : ∀ (x : Section) (size time : Nat),
      x.BlockMeets (fun tid c ↦ c.FindsAsleep tid ∨ True) size time := by
    intro x size time _
    exact drainMeets_of_kills fun _ _ _ ↦ .inr trivial
  obtain ⟨cur', z, hcur', hxz, -, hzy⟩ := exit_spec (K := fun _ ↦ True) (L := fun _ ↦ True)
    (fun _ _ ↦ trivial) (fun _ _ ↦ trivial) (fun _ _ ↦ hall _ _ _) h
  obtain rfl := Option.some.inj (hcur.symm.trans hcur')
  have hcount := hzy.count (hxz.idle ▸ hidle)
  rw [if_pos rfl] at hcount
  rw [hcount]
  exact hxz.count_le cur.id

/-- What `kill` does. -/
theorem outcome_kill (htid : tid ∈ x.activeTids → K tid)
    (hfind : tid ∈ x.activeTids → x.core.FindsAsleep tid ∨ L tid) (h : x.kill tid = .ok y) :
    Outcome K L C x y := by
  obtain ⟨cur, hcur, h⟩ := of_bind h
  split at h
  · cases h
  next hne =>
    have hcur' : ∀ t, x.core.currentThread = some t → t.id ≠ tid := by
      intro t ht
      rwa [Option.some.inj (ht.symm.trans (current_eq_ok hcur))]
    have hkill := drained_killLocally htid hcur' hfind
    rcases hres : x.killLocally tid with ⟨found, z⟩
    rw [hres] at h hkill
    cases found with
    | true =>
      cases h
      exact hkill.outcome
    | false =>
      cases h
      -- a thread that is not alive counts as found
      have halive : tid ∈ x.activeTids := by
        by_contra hdead
        rw [killLocally, if_pos hdead] at hres
        cases hres
      refine (hkill.trans (drained_scheduleOnAllOthers ?_ _)).outcome
      rintro id ⟨rfl⟩
      exact htid halive

/-- A thread that is made ready gets a new entry in the join map: waiters of an older entry are
lost. -/
theorem outcome_deblock {pid : Nat}
    (hL : ⟨tid, pid⟩ ∈ x.core.blockedList → ∀ entry ∈ x.core.joinMap, entry.1 = tid →
      L entry.2.id) : Outcome K L C x (x.deblock pid tid) := by
  rw [deblock]
  split
  next hmem =>
    have herase : ∀ id, occurs id (x.core.blockedList.erase ⟨tid, pid⟩) +
        (if tid = id then 1 else 0) = occurs id x.core.blockedList :=
      fun id ↦ occurs_erase id x.core.blockedList hmem
    have hjoin := fun id ↦ occurs_map_filter id Prod.snd
      (fun entry : Nat × Thread ↦ entry.1 = tid) x.core.joinMap
    have hcounts : ∀ id, ((x.onCore fun c ↦ { c with
        blockedList := c.blockedList.erase ⟨tid, pid⟩ }).ready ⟨tid, pid⟩).core.count id +
        occurs id ((x.core.joinMap.filter fun entry ↦ entry.1 = tid).map Prod.snd) =
        x.core.count id := by
      intro id
      have := herase id
      have := hjoin id
      change _ + x.core.flying id + _ = x.core.held id + x.core.flying id
      simp only [ready, onCore, Core.held_eq, Core.incRqLen, Core.pushFront, occurs_append,
        occurs_reverse, occurs_singleton, ne_eq]
      omega
    have hcount : 0 < x.core.count tid := by
      have hpos : 0 < occurs tid x.core.blockedList :=
        (occurs_pos_iff tid _).mpr ⟨_, hmem, rfl⟩
      rw [Core.count, Core.held_eq]
      omega
    have hle := fun id ↦ (Nat.le_add_right _ _).trans_eq (hcounts id)
    have hzero : ∀ id, ¬ L id →
        occurs id ((x.core.joinMap.filter fun entry ↦ entry.1 = tid).map Prod.snd) = 0 := by
      intro id hLid
      rw [← Nat.le_zero, ← Nat.not_lt, occurs_pos_iff]
      rintro ⟨t, ht, rfl⟩
      obtain ⟨entry, hentry, rfl⟩ := List.mem_map.mp ht
      obtain ⟨hentry, htarget⟩ := List.mem_filter.mp hentry
      exact hLid (hL hmem entry hentry (of_decide_eq_true htarget))
    have heq := fun id hLid ↦ (Nat.add_zero _).symm.trans (hzero id hLid ▸ hcounts id)
    refine ⟨rfl, fun _ ↦ .inl, ?_, ?_, fun id _ ↦ hle id, fun id _ _ ↦ heq id,
      fun id _ _ hLid _ ↦ heq id hLid, ?_, ?_, fun h ↦ h, fun _ ↦ .inl, fun _ ↦ id, ?_, ?_⟩
    · exact fun thread hthread ↦ .inl (List.mem_of_mem_erase hthread)
    · exact fun entry hentry ↦ .inl (List.mem_filter.mp hentry).1
    · intro id hid
      rcases Finset.mem_insert.mp hid with rfl | hid
      · exact .inr hcount
      · exact .inl hid
    · intro b hb
      refine ⟨?_, ?_, fun id hid ↦ hb.count id (Nat.lt_of_lt_of_le hid (hle id)), hb.idle⟩
      · intro id hid
        rcases Finset.mem_insert.mp hid with rfl | hid
        · exact hb.count _ hcount
        · exact hb.alive id hid
      · exact fun entry hentry ↦ hb.targets entry (List.mem_filter.mp hentry).1
    · intro id hx hy
      exact absurd (Finset.mem_insert_of_mem hx) hy
    · intro hx entry hentry
      exact (hx entry (List.mem_filter.mp hentry).1).imp_left Finset.mem_insert_of_mem
  next =>
    refine (drained_scheduleOnAllOthers ?_ x).outcome
    rintro id ⟨⟩

/-- A section that leaves the inbox and the live threads alone. -/
structure Quiet (K L : Nat → Prop) (C : Waiting → Thread → Prop) (x y : Section) : Prop
    extends Outcome K L C x y where
  inbox_eq : y.core.inbox = x.core.inbox
  alive_eq : y.activeTids = x.activeTids

private theorem Quiet.refl (x : Section) : Quiet K L C x x := ⟨(Drained.refl x).outcome, rfl, rfl⟩

private theorem drained_setState (tid : Nat) (state : ThreadState) (x : Section) :
    Drained K L x (x.setState tid state) :=
  { Drained.refl (K := K) (L := L) x with
    died := fun _ h h' ↦ absurd h h'
    waiters := id }

/-- What `unblock` does. -/
theorem quiet_unblock {pid : Nat} : Quiet K L C x (x.unblock pid tid).2 := by
  rw [unblock]
  split
  next hmem =>
    refine ⟨((drained_setState tid .ready x).trans (.of_wakes ?_)).outcome, rfl, rfl⟩
    exact Core.wakes_wakeBlocked (c := (x.setState tid .ready).core) hmem
  next =>
    split
    · exact .refl x
    · split
      · exact ⟨(drained_setState _ _ x).outcome, rfl, rfl⟩
      · split
        · exact ⟨(drained_setState _ _ x).outcome, rfl, rfl⟩
        · exact .refl x

/-- What parking the thread does. -/
theorem quiet_parkCurrent (h : x.parkCurrent = .ok y) : Quiet K L C x y := by
  obtain ⟨cur, -, h⟩ := of_bind h
  cases h
  exact ⟨(drained_setState _ _ x).outcome, rfl, rfl⟩

private theorem Quiet.of_held {c : Core}
    (hframe : ∃ queue next, c = { x.core with readyQueue := queue, currentThread := next })
    (hheld : ∀ id, id ≠ x.core.idleThread.id → c.held id = x.core.held id) :
    Quiet K L C x { x with core := c } := by
  obtain ⟨queue, next, rfl⟩ := hframe
  have hcount : ∀ id, id ≠ x.core.idleThread.id →
      { x.core with readyQueue := queue, currentThread := next }.count id = x.core.count id := by
    intro id hid
    exact congrArg₂ (· + ·) (hheld id hid) rfl
  refine ⟨⟨rfl, fun _ ↦ .inl, fun _ ↦ .inl, fun _ ↦ .inl, ?_, ?_, ?_, fun _ ↦ .inl, ?_, fun h ↦ h,
    fun _ ↦ .inl, fun _ ↦ id, fun _ h h' ↦ absurd h h', fun h ↦ h⟩, rfl, rfl⟩
  · exact fun id hid ↦ Nat.le_of_eq (hcount id hid)
  · exact fun id hid _ _ ↦ hcount id hid
  · exact fun id _ hid _ _ ↦ hcount id hid
  · intro b hb
    refine ⟨hb.alive, hb.targets, fun id hpos ↦ ?_, hb.idle⟩
    by_cases hid : id = x.core.idleThread.id
    · exact hid ▸ hb.idle
    · exact hb.count id (hcount id hid ▸ hpos)

/-- What `start` does. -/
theorem quiet_start : Quiet K L C x x.start := by
  rw [start]
  split
  · exact .refl x
  next hnone =>
    have hset : ∀ (c : Core) (id : Nat) (next : Thread), c.currentThread = none →
        (c.setCurrent next).held id = c.held id + if next.id = id then 1 else 0 := by
      intro c id next hc
      simp only [Core.held_eq, Core.setCurrent, hc, Option.toList_some, Option.toList_none,
        occurs_singleton, occurs_nil]
      omega
    split
    next next hnext =>
      refine Quiet.of_held ⟨_, _, rfl⟩ fun id _ ↦ ?_
      rw [hset x.core.popBack id next hnone]
      exact Core.held_popBack id hnext
    next =>
      refine Quiet.of_held ⟨_, _, rfl⟩ fun id hid ↦ ?_
      rw [hset x.core id _ hnone, if_neg (Ne.symm hid), Nat.add_zero]

private theorem held_rotate {c : Core} {next : Thread} (hcur : c.currentThread = some cur)
    (hnext : c.readyQueue.getLast? = some next) (id : Nat) :
    ((c.popBack.pushFront [cur]).setCurrent next).held id = c.held id := by
  have hpop := Core.held_popBack id hnext
  have hset := Core.held_setCurrent id (c := c.popBack.pushFront [cur]) hcur next
  rw [Core.held_pushFront, occurs_singleton] at hset
  omega

/-- What a yield does. -/
theorem quiet_yieldNow {locked : Bool} (h : x.yieldNow locked = .ok y) : Quiet K L C x y := by
  rw [yieldNow] at h
  split at h
  · cases h
    exact .refl x
  · obtain ⟨cur, hcur, h⟩ := of_bind h
    split at h
    · cases h
      exact .refl x
    · split at h
      next =>
        cases h
        exact .refl x
      next next hnext =>
        cases h
        have hstates := (drained_setState (K := K) (L := L) cur.id .ready x).trans
          (drained_setState next.id .running _)
        refine ⟨hstates.trans_outcome (Quiet.toOutcome (.of_held ⟨_, _, rfl⟩ ?_)), rfl, rfl⟩
        exact fun id _ ↦ held_rotate (current_eq_ok hcur) hnext id

/-- What a switch does. -/
theorem quiet_switchNext {locked : Bool} (h : x.switchNext locked = .ok y) : Quiet K L C x y := by
  obtain ⟨cur, hcur, h⟩ := of_bind h
  have hcur := current_eq_ok hcur
  dsimp only at h
  split at h
  · cases h
    exact .refl x
  · split at h
    next =>
      split at h
      · cases h
        exact .refl x
      · cases h
        refine Quiet.of_held ⟨_, _, rfl⟩ fun id hid ↦ ?_
        have hset := Core.held_setCurrent id (c := x.core.pushFront [cur]) hcur x.core.idleThread
        rw [Core.held_pushFront, occurs_singleton, if_neg (Ne.symm hid)] at hset
        dsimp only
        omega
    next next hnext =>
      split at h
      next hidle =>
        cases h
        refine Quiet.of_held ⟨_, _, rfl⟩ fun id hid ↦ ?_
        have hpop := Core.held_popBack id hnext
        have hset := Core.held_setCurrent id (c := x.core.popBack) hcur next
        rw [hidle, if_neg (Ne.symm hid)] at hset
        dsimp only
        omega
      next =>
        cases h
        exact Quiet.of_held ⟨_, _, rfl⟩ fun id _ ↦ held_rotate hcur hnext id

end Section

end D3OS.Scheduler
