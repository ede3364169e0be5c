import D3OS.Process.Outcomes

/-!
# What a step does to all cores

`Effect` lifts the outcome of a critical section to the system: the other cores only get
commands into their inboxes. Balancing moves threads between cores and keeps them as long as the
inbox of the target has room.
-/

namespace D3OS.Scheduler

open Lib

namespace System

variable {n : Nat} {K L : Nat → Prop} {C : Fin n → Section.Waiting → Thread → Prop}
  {s s' s'' : System n} {i : Fin n}

/-- How often a thread is in a place of some core. -/
def count (id : Nat) (s : System n) : Nat := ∑ i, (s.cores i).count id

/-- Every thread number that is mentioned anywhere is below a bound. -/
def Below (b : Nat) (s : System n) : Prop := ∀ i, (s.enter i).Below b

/-- Every waiter waits for a live thread, or the message that wakes it is in its inbox. -/
def JoinSafe (s : System n) : Prop := ∀ i, (s.enter i).JoinSafe

/-- Every kill command in an inbox is for a thread with the property. -/
def Kills (K : Nat → Prop) (s : System n) : Prop :=
  ∀ i id, .cmd (.kill id) ∈ (s.cores i).inbox → K id

/-- What a step does: `K` holds of the threads that are killed or exit, `L` of those that are
lost, and `C` of the core, the thread that may give it up and where it waits. -/
structure Effect (K L : Nat → Prop) (C : Fin n → Section.Waiting → Thread → Prop)
    (s s' : System n) : Prop where
  idle : ∀ i, (s'.cores i).idleThread = (s.cores i).idleThread
  asleep : ∀ i, ∀ entry ∈ (s'.cores i).sleepList,
    entry ∈ (s.cores i).sleepList ∨ C i .asleep entry.1
  blocked : ∀ i, ∀ thread ∈ (s'.cores i).blockedList,
    thread ∈ (s.cores i).blockedList ∨ C i .blocked thread
  joining : ∀ i, ∀ entry ∈ (s'.cores i).joinMap,
    entry ∈ (s.cores i).joinMap ∨ C i (.joining entry.1) entry.2
  count_le : ∀ id, (∀ i, id ≠ (s.cores i).idleThread.id) → s'.count id ≤ s.count id
  count_eq : ∀ id, (∀ i, id ≠ (s.cores i).idleThread.id) → ¬ K id → ¬ L id →
    s'.count id = s.count id
  kept : ∀ id ∈ s'.activeTids, (∀ i, id ≠ (s.cores i).idleThread.id) → ¬ L id →
    s.count id ≤ 1 → s'.count id = s.count id
  alive : ∀ id ∈ s'.activeTids, (∀ i, id ≠ (s.cores i).idleThread.id) →
    id ∈ s.activeTids ∨ 0 < s.count id
  below : ∀ b, s.Below b → s'.Below b
  kills : s.Kills K → s'.Kills K
  died : ∀ id ∈ s.activeTids, id ∉ s'.activeTids → K id
  waiters : s.JoinSafe → s'.JoinSafe
  nextThreadId : s'.nextThreadId = s.nextThreadId

private theorem Effect.refl (s : System n) : Effect K L C s s where
  idle _ := rfl
  asleep _ _ := .inl
  blocked _ _ := .inl
  joining _ _ := .inl
  count_le _ _ := Nat.le_refl _
  count_eq _ _ _ _ := rfl
  kept _ _ _ _ _ := rfl
  alive _ h _ := .inl h
  below _ h := h
  kills h := h
  died _ h h' := absurd h h'
  waiters h := h
  nextThreadId := rfl

private theorem Effect.trans (h : Effect K L C s s') (h' : Effect K L C s' s'') :
    Effect K L C s s'' where
  idle i := (h'.idle i).trans (h.idle i)
  asleep i entry hentry := (h'.asleep i entry hentry).elim (h.asleep i entry) .inr
  blocked i thread hthread := (h'.blocked i thread hthread).elim (h.blocked i thread) .inr
  joining i entry hentry := (h'.joining i entry hentry).elim (h.joining i entry) .inr
  count_le id hid := (h'.count_le id fun i ↦ h.idle i ▸ hid i).trans (h.count_le id hid)
  count_eq id hid hK hL :=
    (h'.count_eq id (fun i ↦ h.idle i ▸ hid i) hK hL).trans (h.count_eq id hid hK hL)
  kept id hs'' hid hL hone := by
    have hle := h.count_le id hid
    have hkept := h'.kept id hs'' (fun i ↦ h.idle i ▸ hid i) hL (hle.trans hone)
    by_cases hs' : id ∈ s'.activeTids
    · exact hkept.trans (h.kept id hs' hid hL hone)
    · have := (h'.alive id hs'' fun i ↦ h.idle i ▸ hid i).resolve_left hs'
      omega
  alive id hs'' hid := by
    rcases h'.alive id hs'' (fun i ↦ h.idle i ▸ hid i) with hs' | hpos
    · exact h.alive id hs' hid
    · exact .inr (Nat.lt_of_lt_of_le hpos (h.count_le id hid))
  below b hb := h'.below b (h.below b hb)
  kills hK := h'.kills (h.kills hK)
  died id hs hs'' := by
    by_cases hs' : id ∈ s'.activeTids
    · exact h'.died id hs' hs''
    · exact h.died id hs hs'
  waiters hs := h'.waiters (h.waiters hs)
  nextThreadId := h'.nextThreadId.trans h.nextThreadId

private theorem count_split (id : Nat) (s : System n) (i : Fin n) :
    s.count id = (s.cores i).count id + ∑ j ∈ Finset.univ.erase i, (s.cores j).count id :=
  (Finset.add_sum_erase _ _ (Finset.mem_univ i)).symm

/-- A core has no more than the system. -/
theorem count_core_le (id : Nat) (s : System n) (i : Fin n) :
    (s.cores i).count id ≤ s.count id := by
  rw [count_split id s i]
  omega

/-- Nor do two cores. -/
theorem count_two_cores {j : Fin n} (hne : i ≠ j) (id : Nat) :
    (s.cores i).count id + (s.cores j).count id ≤ s.count id := by
  have hj : j ∈ Finset.univ.erase i := Finset.mem_erase.mpr ⟨Ne.symm hne, Finset.mem_univ j⟩
  rw [count_split id s i, ← Finset.add_sum_erase _ _ hj]
  omega

private theorem count_of_others (id : Nat)
    (h : ∀ j, j ≠ i → (s'.cores j).count id = (s.cores j).count id) :
    s'.count id + (s.cores i).count id = s.count id + (s'.cores i).count id := by
  rw [count_split id s' i, count_split id s i,
    Finset.sum_congr rfl fun j hj ↦ h j (Finset.ne_of_mem_erase hj)]
  omega

/-- The core that has the thread. -/
theorem exists_count_pos {id : Nat} (h : 0 < s.count id) : ∃ i, 0 < (s.cores i).count id := by
  by_contra hzero
  push Not at hzero
  have : s.count id = 0 := Finset.sum_eq_zero fun i _ ↦ Nat.le_zero.mp (hzero i)
  omega

/-- The id of a thread was handed out. -/
theorem Below.of_count {b id : Nat} (hs : s.Below b) (h : 0 < s.count id) : id < b := by
  obtain ⟨i, hi⟩ := exists_count_pos h
  exact (hs i).count id hi

private theorem below_of {b : Nat} (halive : Fin n → ∀ id ∈ s.activeTids, id < b)
    (htargets : ∀ i, ∀ entry ∈ (s.cores i).joinMap, entry.1 < b)
    (hcount : ∀ id, 0 < s.count id → id < b) (hidle : ∀ i, (s.cores i).idleThread.id < b) :
    s.Below b :=
  fun i ↦ ⟨halive i, htargets i,
    fun id hid ↦ hcount id (Nat.lt_of_lt_of_le hid (count_core_le id s i)), hidle i⟩

/-- Where a critical section ends, the other cores have got its commands. -/
structure Leaves (s : System n) (i : Fin n) (x : Section) (s' : System n) : Prop where
  own : s'.cores i = x.core
  others : ∀ j, j ≠ i → s'.cores j =
    { s.cores j with inbox := (s.cores j).inbox ++ x.broadcast.map MessageItem.cmd }
  alive : s'.activeTids = x.activeTids
  nextThreadId : s'.nextThreadId = s.nextThreadId
  inboxSize : s'.inboxSize = s.inboxSize

/-- The cores after a section. -/
theorem Leaves.cores {x : Section} (h : Leaves s i x s') (j : Fin n) :
    (i = j ∧ s'.cores j = x.core) ∨ (j ≠ i ∧ s'.cores j =
      { s.cores j with inbox := (s.cores j).inbox ++ x.broadcast.map MessageItem.cmd }) := by
  by_cases hj : i = j
  · exact .inl ⟨hj, hj ▸ h.own⟩
  · exact .inr ⟨Ne.symm hj, h.others j (Ne.symm hj)⟩

/-- What `leave` does. -/
theorem leaves_of_leave {x : Section} (h : s.leave i x = .ok s') : Leaves s i x s' := by
  rw [leave] at h
  split at h
  · cases h
    exact ⟨if_pos rfl, fun j hj ↦ if_neg hj, rfl, rfl, rfl⟩
  · cases h

/-- The count of a thread after a section. -/
theorem Leaves.count {x : Section} (h : Leaves s i x s') (id : Nat) :
    s'.count id + (s.cores i).count id = s.count id + x.core.count id := by
  rw [← h.own]
  refine count_of_others _ fun j hj ↦ ?_
  rw [h.others j hj]
  exact congrArg₂ (· + ·) rfl (Core.flying_append_cmds id _ _)

/-- The outcome of a critical section, seen by the system. -/
theorem effect_of_leave {x : Section} (hx : Section.Outcome K L (C i) (s.enter i) x)
    (h : Leaves s i x s') : Effect K L C s s' := by
  refine ⟨?_, ?_, ?_, ?_, ?_, ?_, ?_, ?_, ?_, ?_, ?_, ?_, h.nextThreadId⟩
  · intro j
    rcases h.cores j with ⟨rfl, hc⟩ | ⟨-, hc⟩ <;> rw [hc]
    exact hx.idle
  · intro j entry hentry
    rcases h.cores j with ⟨rfl, hc⟩ | ⟨-, hc⟩ <;> rw [hc] at hentry
    · exact hx.asleep entry hentry
    · exact .inl hentry
  · intro j thread hthread
    rcases h.cores j with ⟨rfl, hc⟩ | ⟨-, hc⟩ <;> rw [hc] at hthread
    · exact hx.blocked thread hthread
    · exact .inl hthread
  · intro j entry hentry
    rcases h.cores j with ⟨rfl, hc⟩ | ⟨-, hc⟩ <;> rw [hc] at hentry
    · exact hx.joining entry hentry
    · exact .inl hentry
  · intro id hid
    have hcount := h.count id
    have hle : x.core.count id ≤ (s.cores i).count id := hx.count_le id (hid i)
    omega
  · intro id hid hK hL
    have hcount := h.count id
    have heq : x.core.count id = (s.cores i).count id := hx.count_eq id (hid i) hK hL
    omega
  · intro id halive hid hL hone
    have hcount := h.count id
    have hle := count_core_le id s i
    have heq : x.core.count id = (s.cores i).count id :=
      hx.kept id (h.alive ▸ halive) (hid i) hL (hle.trans hone)
    omega
  · intro id halive _
    rcases hx.alive id (h.alive ▸ halive) with hs | hpos
    · exact .inl hs
    · exact .inr (Nat.lt_of_lt_of_le hpos (count_core_le id s i))
  · intro b hb
    have hbx := hx.below b (hb i)
    refine below_of (fun _ ↦ h.alive ▸ hbx.alive) (fun j entry hentry ↦ ?_) (fun id hid ↦ ?_)
      fun j ↦ ?_
    · rcases h.cores j with ⟨rfl, hc⟩ | ⟨-, hc⟩ <;> rw [hc] at hentry
      · exact hbx.targets entry hentry
      · exact (hb j).targets entry hentry
    · have hcount := h.count id
      rcases Nat.eq_zero_or_pos (x.core.count id) with hzero | hpos
      · exact hb.of_count (by omega)
      · exact hbx.count id hpos
    · rcases h.cores j with ⟨rfl, hc⟩ | ⟨-, hc⟩ <;> rw [hc]
      · exact hbx.idle
      · exact (hb j).idle
  · intro hK j id hid
    rcases h.cores j with ⟨rfl, hc⟩ | ⟨-, hc⟩ <;> rw [hc] at hid
    · exact hx.kills (hK _) id hid
    · rcases List.mem_append.mp hid with hid | hid
      · exact hK j id hid
      · obtain ⟨cmd, hcmd, heq⟩ := List.mem_map.mp hid
        cases heq
        rcases hx.sent id hcmd with hnil | hK
        · cases hnil
        · exact hK
  · intro id hs hs'
    exact (hx.died id hs (h.alive ▸ hs')).1
  · intro hs j entry hentry
    change entry ∈ (s'.cores j).joinMap at hentry
    change entry.1 ∈ s'.activeTids ∨ _ ∈ (s'.cores j).inbox
    rw [h.alive]
    rcases h.cores j with ⟨rfl, hc⟩ | ⟨-, hc⟩ <;> rw [hc] at hentry ⊢
    · exact hx.waiters (hs _) entry hentry
    · rcases hs j entry hentry with halive | hmsg
      · by_cases hx' : entry.1 ∈ x.activeTids
        · exact .inl hx'
        · have hsent := (hx.died entry.1 halive hx').2
          exact .inr (List.mem_append_right _ (List.mem_map_of_mem hsent))
      · exact .inr (List.mem_append_left _ hmsg)

/-- The core that is changed. -/
theorem onCore_self (s : System n) (i : Fin n) (f : Core → Core) :
    (s.onCore i f).cores i = f (s.cores i) := Function.update_self ..

/-- The other cores. -/
theorem onCore_of_ne (s : System n) {i j : Fin n} (h : j ≠ i) (f : Core → Core) :
    (s.onCore i f).cores j = s.cores j := Function.update_of_ne h ..

/-- A property of all cores. -/
theorem forall_onCore {P : Fin n → Core → Prop} {f : Core → Core} (hi : P i (f (s.cores i)))
    (h : ∀ j, P j (s.cores j)) (j : Fin n) : P j ((s.onCore i f).cores j) := by
  by_cases hj : j = i
  · subst hj
    rw [onCore_self]
    exact hi
  · rw [onCore_of_ne s hj]
    exact h j

private theorem count_onCore (id : Nat) (s : System n) (i : Fin n) (f : Core → Core) :
    (s.onCore i f).count id + (s.cores i).count id = s.count id + (f (s.cores i)).count id := by
  rw [count_of_others (i := i) _ fun j hj ↦ by rw [onCore_of_ne s hj], onCore_self]

/-- A core whose ready queue may have changed and to whose inbox threads may have come. -/
structure Rebalances (c c' : Core) : Prop where
  idle : c'.idleThread = c.idleThread
  current : c'.currentThread = c.currentThread
  asleep : c'.sleepList = c.sleepList
  blocked : c'.blockedList = c.blockedList
  joining : c'.joinMap = c.joinMap
  inbox : ∃ threads : List Thread, c'.inbox = c.inbox ++ threads.map .thread

private theorem Rebalances.refl (c : Core) : Rebalances c c :=
  ⟨rfl, rfl, rfl, rfl, rfl, [], by rw [List.map_nil, List.append_nil]⟩

private theorem effect_of_rebalances (hcores : ∀ i, Rebalances (s.cores i) (s'.cores i))
    (halive : s'.activeTids = s.activeTids) (hnext : s'.nextThreadId = s.nextThreadId)
    (hle : ∀ id, s'.count id ≤ s.count id) (heq : ∀ id, ¬ L id → s'.count id = s.count id) :
    Effect K L C s s' := by
  refine ⟨fun i ↦ (hcores i).idle, ?_, ?_, ?_, fun id _ ↦ hle id, fun id _ _ ↦ heq id,
    fun id _ _ hL _ ↦ heq id hL, ?_, ?_, ?_, ?_, ?_, hnext⟩
  · intro i entry hentry
    exact .inl ((hcores i).asleep ▸ hentry)
  · intro i thread hthread
    exact .inl ((hcores i).blocked ▸ hthread)
  · intro i entry hentry
    exact .inl ((hcores i).joining ▸ hentry)
  · intro id hid _
    exact .inl (halive ▸ hid)
  · intro b hb
    refine below_of (fun i ↦ halive ▸ (hb i).alive) (fun i entry hentry ↦ ?_) (fun id hid ↦ ?_)
      fun i ↦ ?_
    · exact (hb i).targets entry ((hcores i).joining ▸ hentry)
    · exact hb.of_count (Nat.lt_of_lt_of_le hid (hle id))
    · rw [(hcores i).idle]
      exact (hb i).idle
  · intro hK i id hid
    obtain ⟨threads, hthreads⟩ := (hcores i).inbox
    rw [hthreads] at hid
    rcases List.mem_append.mp hid with hid | hid
    · exact hK i id hid
    · obtain ⟨thread, -, hthread⟩ := List.mem_map.mp hid
      cases hthread
  · intro id hid hid'
    exact absurd (halive ▸ hid) hid'
  · intro hs i entry hentry
    obtain ⟨threads, hthreads⟩ := (hcores i).inbox
    change entry.1 ∈ s'.activeTids ∨ _ ∈ (s'.cores i).inbox
    rw [halive, hthreads]
    exact (hs i entry ((hcores i).joining ▸ hentry)).imp_right (List.mem_append_left _)

private theorem rebalances_onCore {f : Core → Core} (hf : Rebalances (s.cores i) (f (s.cores i))) :
    ∀ j, Rebalances (s.cores j) ((s.onCore i f).cores j) :=
  forall_onCore (P := fun j ↦ Rebalances (s.cores j)) hf fun _ ↦ .refl _

private theorem effect_onCore {f : Core → Core} (hf : Rebalances (s.cores i) (f (s.cores i)))
    (hcount : ∀ id, (f (s.cores i)).count id = (s.cores i).count id) :
    Effect K L C s (s.onCore i f) := by
  have hsum : ∀ id, (s.onCore i f).count id = s.count id := by
    intro id
    have := count_onCore id s i f
    have := hcount id
    omega
  exact effect_of_rebalances (rebalances_onCore hf) rfl rfl (fun id ↦ Nat.le_of_eq (hsum id))
    fun id _ ↦ hsum id

section

variable {target : Fin n} {thread : Thread} {rest : List Thread}

/-- The core from whose ready queue `balance_once` has taken the front. -/
def popFront (rest : List Thread) (c : Core) : Core :=
  { c with readyQueue := rest }.decRqLen

private theorem count_popFront {c : Core} (hqueue : c.readyQueue = thread :: rest) (id : Nat) :
    (popFront rest c).count id + (if thread.id = id then 1 else 0) = c.count id := by
  change _ + c.flying id + _ = _ + c.flying id
  simp only [popFront, Core.decRqLen, Core.held_eq, hqueue, occurs_cons]
  omega

def popped (s : System n) (i : Fin n) (rest : List Thread) : System n :=
  s.onCore i (popFront rest)

private theorem count_popped (hqueue : (s.cores i).readyQueue = thread :: rest) (id : Nat) :
    (s.popped i rest).count id + (if thread.id = id then 1 else 0) = s.count id := by
  have hcore := count_popFront hqueue id
  have hsum := count_onCore id s i (popFront rest)
  rw [popped]
  omega

private theorem rebalances_popped (j : Fin n) :
    Rebalances (s.cores j) ((s.popped i rest).cores j) :=
  rebalances_onCore ⟨rfl, rfl, rfl, rfl, rfl, [], (List.append_nil _).symm⟩ j

/-- The core whose inbox has taken a thread. -/
def takeIn (thread : Thread) (c : Core) : Core :=
  { c with inbox := c.inbox ++ [.thread thread] }

private theorem count_takeIn (thread : Thread) (c : Core) (id : Nat) :
    (takeIn thread c).count id = c.count id + if thread.id = id then 1 else 0 := by
  change c.held id + _ = _ + _
  rw [Core.flying, takeIn, List.countP_append, Core.count, Core.flying, List.countP_singleton]
  simp only [MessageItem.Brings, decide_eq_true_eq]
  omega

def sent (s : System n) (target : Fin n) (thread : Thread) : System n :=
  s.onCore target (takeIn thread)

private theorem count_sent (id : Nat) :
    (s.sent target thread).count id = s.count id + if thread.id = id then 1 else 0 := by
  have hcore := count_takeIn thread (s.cores target) id
  have hsum := count_onCore id s target (takeIn thread)
  rw [sent]
  omega

private theorem rebalances_sent (hne : target ≠ i) (j : Fin n) :
    Rebalances (s.cores j) (((s.popped i rest).sent target thread).cores j) := by
  by_cases hj : j = target
  · rw [hj, sent, onCore_self, popped, onCore_of_ne s hne]
    exact ⟨rfl, rfl, rfl, rfl, rfl, [thread], rfl⟩
  · rw [sent, onCore_of_ne _ hj]
    exact rebalances_popped j

private theorem scheduleOn_thread (s : System n) (target : Fin n) (thread : Thread) :
    (s.scheduleOn target (.thread thread)).getD s =
      if (s.cores target).inbox.length < s.inboxSize then s.sent target thread else s := by
  rw [scheduleOn, Core.trySend]
  split <;> rfl

/-- Moving threads one by one; the target gets a thread unless its inbox is full. -/
theorem moveThreads_induction {P : Nat → System n → Prop} (hne : target ≠ i)
    (hnil : ∀ k s, P k s → P 0 s)
    (hcons : ∀ k s thread rest, (s.cores i).readyQueue = thread :: rest → P (k + 1) s →
      P k (if (s.cores target).inbox.length < s.inboxSize then (s.popped i rest).sent target thread
        else s.popped i rest)) {amount : Nat} (h : P amount s) :
    P 0 (moveThreads i target amount s) := by
  induction amount generalizing s with
  | zero => exact h
  | succ amount ih =>
    rw [moveThreads]
    split
    next => exact hnil _ s h
    next thread rest hqueue =>
      have hinbox : ((s.popped i rest).cores target).inbox = (s.cores target).inbox := by
        rw [popped, onCore_of_ne s hne]
      have hnext := hcons amount s thread rest hqueue h
      change P 0 (moveThreads i target amount
        (((s.popped i rest).scheduleOn target (.thread thread)).getD (s.popped i rest)))
      rw [scheduleOn_thread, hinbox]
      exact ih hnext

private theorem effect_moveThreads {amount : Nat} (hne : target ≠ i)
    (hL : (s.cores target).inbox.length + min amount (s.cores i).readyQueue.length ≤ s.inboxSize ∨
      ∀ id, L id) :
    Effect K L C s (moveThreads i target amount s) := by
  refine (moveThreads_induction (P := fun k s' ↦ Effect K L C s s' ∧
    ((s'.cores target).inbox.length + min k (s'.cores i).readyQueue.length ≤ s'.inboxSize ∨
      ∀ id, L id)) hne (fun k s' h ↦ ⟨h.1, h.2.imp_left fun h ↦ by omega⟩) ?_ ⟨.refl s, hL⟩).1
  rintro k s' thread rest hqueue ⟨heffect, hL⟩
  have hpop := count_popped hqueue
  rw [hqueue, List.length_cons, Nat.succ_min_succ] at hL
  split
  next =>
    have hsum : ∀ id, ((s'.popped i rest).sent target thread).count id = s'.count id := by
      intro id
      have := hpop id
      rw [count_sent]
      omega
    refine ⟨heffect.trans (effect_of_rebalances (rebalances_sent hne) rfl rfl
      (fun id ↦ Nat.le_of_eq (hsum id)) fun id _ ↦ hsum id), hL.imp_left fun hroom ↦ ?_⟩
    have hqueue' : (((s'.popped i rest).sent target thread).cores i).readyQueue = rest := by
      rw [sent, onCore_of_ne _ (Ne.symm hne), popped, onCore_self]
      rfl
    have hinbox' : (((s'.popped i rest).sent target thread).cores target).inbox.length =
        (s'.cores target).inbox.length + 1 := by
      rw [sent, onCore_self, takeIn, popped, onCore_of_ne s' hne, List.length_append,
        List.length_singleton]
    rw [hqueue', hinbox']
    change _ ≤ s'.inboxSize
    omega
  next hfull =>
    -- a full inbox: the thread is dropped
    have hlost : ∀ id, L id := hL.resolve_left fun hroom ↦ hfull (by omega)
    exact ⟨heffect.trans (effect_of_rebalances rebalances_popped rfl rfl
      (fun id ↦ hpop id ▸ Nat.le_add_right _ _) fun id hid ↦ absurd (hlost id) hid), .inr hlost⟩

/-- The inbox of the core that gets threads from `balance_once` has room for them. -/
def RoomToBalance (s : System n) (i : Fin n) : Prop :=
  match s.balanceGoal i with
  | none => True
  | some (target, amount) =>
    (s.cores target).inbox.length + min amount (s.cores i).readyQueue.length ≤ s.inboxSize

instance (s : System n) (i : Fin n) : Decidable (s.RoomToBalance i) := by
  unfold RoomToBalance
  split <;> infer_instance

/-- Threads go to another core. -/
theorem balanceGoal_ne {amount : Nat} (h : s.balanceGoal i = some (target, amount)) :
    target ≠ i := by
  rw [balanceGoal] at h
  split at h
  · cases h
  · split at h
    · cases h
    next load hless =>
      rw [findLessLoadedCore] at hless
      split at hless
      · cases hless
      next hlt =>
        cases hless
        split at h
        · cases h
          rintro heq
          rw [heq] at hlt
          exact hlt (Nat.le_refl _)
        · cases h

/-- What balancing does. -/
theorem effect_switchBalance (hL : s.RoomToBalance i ∨ ∀ id, L id) :
    Effect K L C s (s.switchBalance i) := by
  rw [switchBalance]
  split
  · rw [balanceOnce]
    split
    next => exact .refl s
    next target amount hgoal =>
      rw [RoomToBalance, hgoal] at hL
      exact effect_moveThreads (balanceGoal_ne hgoal) hL
  · exact .refl s

end

/-- `switch_thread` up to the balancing. -/
theorem effect_switchDrain {time : Nat} {sleepFree : Bool} (hK : s.Kills K)
    (hfind : (s.beforeDrain i time sleepFree).DrainMeets
      (fun tid c ↦ c.FindsAsleep tid ∨ L tid) s.inboxSize 10)
    (h : s.switchDrain i time sleepFree = .ok s') : Effect K L C s s' := by
  obtain ⟨x, hx, hleave⟩ := of_bind h
  refine effect_of_leave (Section.Drained.outcome ?_) (leaves_of_leave hleave)
  cases sleepFree with
  | false => exact Section.drained_drainInboxIntoReady (hK i) hfind hx
  | true =>
    have hsleep : Section.Drained K L (s.enter i) ((s.enter i).onCore (·.checkSleepList time)) :=
      .of_wakes (Core.wakes_checkSleepList time _)
    exact hsleep.trans (Section.drained_drainInboxIntoReady (hsleep.kills (hK i)) hfind hx)

/-- A step that loses no thread: `deblock` does not find a thread that has waiters in the join
map of its core, and the inbox of the core to which `switch_thread` moves threads has room for
them. -/
def Keeps (s : System n) : Event n → Prop
  | .deblock i pid tid =>
    ⟨tid, pid⟩ ∈ (s.cores i).blockedList → ∀ entry ∈ (s.cores i).joinMap, entry.1 ≠ tid
  | .switchThread i time sleepFree _ =>
    match s.switchDrain i time sleepFree with
    | .ok s' => s'.RoomToBalance i
    | .error _ => True
  | _ => True

instance (s : System n) (e : Event n) : Decidable (s.Keeps e) := by
  unfold Keeps
  split
  · infer_instance
  · split <;> infer_instance
  · infer_instance

/-- The threads that a step may kill. -/
def Ends (s : System n) : Event n → Nat → Prop
  | .kill _ tid, id => id = tid ∧ tid ∈ s.activeTids
  | .exit i _, id => ∃ thread, (s.cores i).currentThread = some thread ∧ thread.id = id
  | _, _ => False

/-- The thread that may give up its core in a step, and where it then waits. -/
def GivesUp (s : System n) : Event n → Fin n → Section.Waiting → Thread → Prop
  | .sleep i _ _ _, j, place, thread =>
    i = j ∧ place = .asleep ∧ (s.cores i).currentThread = some thread
  | .block i _, j, place, thread =>
    i = j ∧ place = .blocked ∧ (s.cores i).currentThread = some thread
  | .join i tid _, j, place, thread =>
    i = j ∧ place = .joining tid ∧ (s.cores i).currentThread = some thread
  | _, _, _, _ => False

/-- A condition on the thread and the core holds whenever the step searches a core for a thread
that is to be killed: in `kill` and in every kill command that the step takes from an inbox. -/
def KillsMeet (P : Nat → Core → Prop) (s : System n) : Event n → Prop
  | .kill i tid => tid ∈ s.activeTids → P tid (s.cores i)
  | .sleep i now ms time =>
    ∀ cur, (s.cores i).currentThread = some cur →
      ((s.enter i).onCore (·.addSleeper cur (now + ms))).BlockMeets P s.inboxSize time
  | .block i time =>
    ∀ cur, (s.cores i).currentThread = some cur →
      ((s.enter i).onCore (·.addBlocked cur)).BlockMeets P s.inboxSize time
  | .join i tid time =>
    ∀ cur, (s.cores i).currentThread = some cur →
      ((s.enter i).onCore (·.addWaiter tid cur)).BlockMeets P s.inboxSize time
  | .exit i time =>
    ∀ cur, (s.cores i).currentThread = some cur →
      ((s.enter i).endThread cur.id).BlockMeets P s.inboxSize time
  | .switchThread i time sleepFree _ =>
    (s.beforeDrain i time sleepFree).DrainMeets P s.inboxSize 10
  | _ => True

instance {P : Nat → Core → Prop} [∀ tid c, Decidable (P tid c)] (s : System n) (e : Event n) :
    Decidable (s.KillsMeet P e) := by
  unfold KillsMeet
  split <;> infer_instance

/-- A condition that holds of every thread that may be killed is met by every step. -/
theorem killsMeet_of_kills {P : Nat → Core → Prop} {e : Event n}
    (hK : s.Kills fun id ↦ ∀ c, P id c) (hends : ∀ id, s.Ends e id → ∀ c, P id c) :
    s.KillsMeet P e := by
  cases e with
  | kill i tid => exact fun halive ↦ hends tid ⟨rfl, halive⟩ _
  | sleep i now ms time | block i time | join i tid time | exit i time =>
    exact fun _ _ _ ↦ Section.drainMeets_of_kills (hK i)
  | switchThread i time sleepFree locked =>
    refine Section.drainMeets_of_kills ?_
    cases sleepFree with
    | false | true => exact hK i
  | _ => trivial

private theorem effect_critical {f : Section → Except Panic Section}
    (hf : ∀ x, f (s.enter i) = .ok x → Section.Outcome K L (C i) (s.enter i) x)
    (h : s.critical i f = .ok s') : Effect K L C s s' := by
  obtain ⟨x, hx, hleave⟩ := of_bind h
  exact effect_of_leave (hf x hx) (leaves_of_leave hleave)

/-- What every step does, the start of a new thread apart. -/
theorem effect_step {e : Event n} (he : ∀ i pid, e ≠ .spawn i pid) (hK : s.Kills K)
    (hends : ∀ id, s.Ends e id → K id)
    (hgives : ∀ i place thread, s.GivesUp e i place thread → C i place thread)
    (hL : s.Keeps e ∨ ∀ id, L id)
    (hfind : s.KillsMeet (fun tid c ↦ c.FindsAsleep tid ∨ L tid) e)
    (h : s.step e = .ok s') : Effect K L C s s' := by
  cases e with
  | init i | resched i =>
    cases h
    exact effect_onCore ⟨rfl, rfl, rfl, rfl, rfl, [], (List.append_nil _).symm⟩ fun _ ↦ rfl
  | start i => exact effect_of_leave Section.quiet_start.toOutcome (leaves_of_leave h)
  | spawn i pid => exact absurd rfl (he i pid)
  | sleep i now ms time =>
    refine effect_critical (fun x ↦ Section.outcome_sleep (hK i) (fun cur hcur ↦ ?_) hfind) h
    exact hgives i _ cur ⟨rfl, rfl, hcur⟩
  | block i time =>
    refine effect_critical (fun x ↦ Section.outcome_block (hK i) (fun cur hcur ↦ ?_) hfind) h
    exact hgives i _ cur ⟨rfl, rfl, hcur⟩
  | deblock i pid tid =>
    refine effect_of_leave (Section.outcome_deblock fun hmem entry hentry htarget ↦ ?_)
      (leaves_of_leave h)
    rcases hL with hkeeps | hL
    · exact absurd htarget (hkeeps hmem entry hentry)
    · exact hL _
  | join i tid time =>
    refine effect_critical (fun x ↦ Section.outcome_join (hK i) (fun cur hcur ↦ ?_) hfind) h
    exact hgives i _ cur ⟨rfl, rfl, hcur⟩
  | exit i time =>
    refine effect_critical (fun x ↦ Section.outcome_exit (fun cur hcur ↦ ?_) (hK i) hfind) h
    exact hends cur.id ⟨cur, hcur, rfl⟩
  | kill i tid =>
    refine effect_critical (fun x ↦ Section.outcome_kill (fun halive ↦ ?_) hfind) h
    exact hends tid ⟨rfl, halive⟩
  | park i => exact effect_critical (fun x hx ↦ (Section.quiet_parkCurrent hx).toOutcome) h
  | unblock i pid tid => exact effect_of_leave Section.quiet_unblock.toOutcome (leaves_of_leave h)
  | yieldNow i locked => exact effect_critical (fun x hx ↦ (Section.quiet_yieldNow hx).toOutcome) h
  | switchThread i time sleepFree locked =>
    rw [step, switchThread] at h
    split at h
    · cases h
      exact .refl s
    · obtain ⟨s₁, hs₁, h⟩ := of_bind h
      obtain ⟨x, hx, hleave⟩ := of_bind h
      have hroom : s₁.RoomToBalance i ∨ ∀ id, L id := by
        refine hL.imp_left fun hkeeps ↦ ?_
        rw [Keeps, hs₁] at hkeeps
        exact hkeeps
      exact ((effect_switchDrain hK hfind hs₁).trans (effect_switchBalance hroom)).trans
        (effect_of_leave (Section.quiet_switchNext hx).toOutcome (leaves_of_leave hleave))

/-- The start of a new thread. -/
theorem spawn_spec {pid : Nat} (hs : s.Below s.nextThreadId) (h : s.spawn i pid = .ok s') :
    (∀ i, (s'.cores i).idleThread = (s.cores i).idleThread) ∧
    (∀ id, s'.count id = s.count id + if id = s.nextThreadId then 1 else 0) ∧
    s'.Below (s.nextThreadId + 1) ∧ s'.nextThreadId = s.nextThreadId + 1 ∧
    (∀ j, (s'.cores j).sleepList = (s.cores j).sleepList ∧
      (s'.cores j).blockedList = (s.cores j).blockedList ∧
      (s'.cores j).joinMap = (s.cores j).joinMap ∧ (s'.cores j).inbox = (s.cores j).inbox) ∧
    s'.activeTids = insert s.nextThreadId s.activeTids := by
  have hleaves := leaves_of_leave h
  have hjoin : ((s.cores i).joinMap.filter fun entry ↦ entry.1 ≠ s.nextThreadId) =
      (s.cores i).joinMap := by
    rw [List.filter_eq_self]
    intro entry hentry
    have := (hs i).targets entry hentry
    exact decide_eq_true (Nat.ne_of_lt this)
  have hother : ∀ j, j ≠ i → s'.cores j = s.cores j := by
    intro j hj
    have hcore := hleaves.others j hj
    change _ = { s.cores j with inbox := (s.cores j).inbox ++ [] } at hcore
    rw [hcore, List.append_nil]
  have hown := hleaves.own
  have hidle : ∀ j, (s'.cores j).idleThread = (s.cores j).idleThread := by
    intro j
    by_cases hj : j = i
    · rw [hj, hown]
      rfl
    · rw [hother j hj]
  have hlists : ∀ j, (s'.cores j).sleepList = (s.cores j).sleepList ∧
      (s'.cores j).blockedList = (s.cores j).blockedList ∧
      (s'.cores j).joinMap = (s.cores j).joinMap ∧ (s'.cores j).inbox = (s.cores j).inbox := by
    intro j
    by_cases hj : j = i
    · rw [hj, hown]
      exact ⟨rfl, rfl, hjoin, rfl⟩
    · rw [hother j hj]
      exact ⟨rfl, rfl, rfl, rfl⟩
  have hcount : ∀ id, s'.count id = s.count id + if id = s.nextThreadId then 1 else 0 := by
    intro id
    have hsum := count_of_others id fun j hj ↦ congrArg (Core.count id) (hother j hj)
    have hheld : (s'.cores i).count id =
        (s.cores i).count id + if id = s.nextThreadId then 1 else 0 := by
      rw [hown]
      change _ + (s.cores i).flying id = _ + (s.cores i).flying id + _
      simp only [Section.ready, Section.onCore, enter, Core.held_eq, Core.pushFront,
        Core.incRqLen, hjoin, occurs_append, occurs_reverse, occurs_singleton,
        @eq_comm _ s.nextThreadId id]
      omega
    omega
  refine ⟨hidle, hcount, ?_, hleaves.nextThreadId, hlists, hleaves.alive⟩
  refine below_of (fun j id hid ↦ ?_) (fun j entry hentry ↦ ?_) (fun id hid ↦ ?_) fun j ↦ ?_
  · rw [hleaves.alive] at hid
    rcases Finset.mem_insert.mp hid with rfl | hid
    · exact Nat.lt_succ_self _
    · exact Nat.lt_succ_of_lt ((hs j).alive id hid)
  · exact Nat.lt_succ_of_lt ((hs j).targets entry ((hlists j).2.2.1 ▸ hentry))
  · rw [hcount id] at hid
    split at hid
    next heq => omega
    next => exact Nat.lt_succ_of_lt (hs.of_count hid)
  · rw [hidle j]
    exact Nat.lt_succ_of_lt (hs j).idle

end System

end D3OS.Scheduler
