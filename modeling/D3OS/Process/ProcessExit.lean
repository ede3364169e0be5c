import D3OS.Process.SystemSteps
import D3OS.Lib.Vec

/-!
# Ending a process

`ProcessManager::exit` and `kill`, `os/kernel/src/process/process_manager.rs`, and what
`Process::thread_ids`, `os/kernel/src/process/process.rs`, finds: threads that are in the ready
queue of the core of the caller.
-/

namespace D3OS.Scheduler

open Lib

variable {c : Core}

namespace Core

/-- The thread is in a place of the core or in a message of its inbox. -/
def Has (thread : Thread) (c : Core) : Prop := thread ∈ c.places ∨ .thread thread ∈ c.inbox

private theorem has_iff {thread : Thread} :
    c.Has thread ↔ c.currentThread = some thread ∨ thread ∈ c.readyQueue ∨
      thread ∈ c.sleepList.map Prod.fst ∨ thread ∈ c.blockedList ∨
      thread ∈ c.joinMap.map Prod.snd ∨ .thread thread ∈ c.inbox := by
  simp only [Has, places, List.mem_append, Option.mem_toList, or_assoc]

private theorem has_wakeJoiners (thread : Thread) (tid : Nat) (c : Core) :
    (c.wakeJoiners tid).Has thread ↔ c.Has thread := by
  have hsplit : thread ∈ c.joinMap.map Prod.snd ↔
      thread ∈ (c.joinMap.filter fun entry ↦ entry.1 = tid).map Prod.snd ∨
      thread ∈ (c.joinMap.filter fun entry ↦ entry.1 ≠ tid).map Prod.snd := by
    simp only [List.mem_map, List.mem_filter, decide_eq_true_eq]
    constructor
    · rintro ⟨entry, hentry, rfl⟩
      by_cases htarget : entry.1 = tid
      · exact .inl ⟨entry, ⟨hentry, htarget⟩, rfl⟩
      · exact .inr ⟨entry, ⟨hentry, htarget⟩, rfl⟩
    · rintro (⟨entry, ⟨hentry, -⟩, rfl⟩ | ⟨entry, ⟨hentry, -⟩, rfl⟩)
      · exact ⟨entry, hentry, rfl⟩
      · exact ⟨entry, hentry, rfl⟩
  rw [has_iff, has_iff, hsplit]
  simp only [wakeJoiners, pushFront, incRqLen, List.mem_append, List.mem_reverse]
  tauto

private theorem count_pos_of_has {thread : Thread} (h : c.Has thread) : 0 < c.count thread.id := by
  rcases h with h | h
  · have hpos : 0 < c.held thread.id := (occurs_pos_iff _ _).mpr ⟨thread, h, rfl⟩
    exact Nat.lt_of_lt_of_le hpos (Nat.le_add_right _ _)
  · have hpos : 0 < c.flying thread.id :=
      List.countP_pos_iff.mpr ⟨_, h, decide_eq_true rfl⟩
    exact Nat.lt_of_lt_of_le hpos (Nat.le_add_left _ _)

end Core

namespace System

variable {n : Nat} {s : System n} {i : Fin n}

/-- `Scheduler::thread`, `scheduler.rs:224`. -/
def thread (s : System n) (i : Fin n) (tid : Nat) : Option Thread :=
  (s.cores i).readyQueue.find? fun thread ↦ thread.id = tid

/-- `Process::thread_ids`, `process.rs:116`; `active` are the live threads in the order of their
map. -/
def threadIds (s : System n) (i : Fin n) (pid : Nat) (active : List Nat) : List Nat :=
  active.filter fun tid ↦ (s.thread i tid).any fun thread ↦ thread.pid = pid

/-- `Process::kill_all_threads_but_current`, `process.rs:123`. -/
def killAllThreadsButCurrent (s : System n) (i : Fin n) (pid : Nat) (active : List Nat) :
    Except Panic (System n) :=
  (s.threadIds i pid active).foldlM (fun s tid ↦ do
    let current ← (s.cores i).current
    if tid ≠ current.id then s.step (.kill i tid) else return s) s

end System

/-- `ProcessManager`, by the ids of its processes. -/
structure ProcessManager where
  activeProcesses : List Nat
  exitedProcesses : List Nat
  deriving Repr, DecidableEq

namespace ProcessManager

variable {n : Nat}

/-- The process moves from the active to the exited ones. -/
def retire (pm : ProcessManager) (index pid : Nat) : ProcessManager :=
  ⟨swapRemove pm.activeProcesses index, pm.exitedProcesses ++ [pid]⟩

/-- `ProcessManager::exit`, `process_manager.rs:128`, called on a core. -/
def exit (pm : ProcessManager) (s : System n) (i : Fin n) (pid : Nat) (active : List Nat) :
    Except Panic (ProcessManager × System n) :=
  match pm.activeProcesses.findIdx? (· = pid) with
  | none => .error .unwrapNone
  | some index => do
    let s ← s.killAllThreadsButCurrent i pid active
    return (pm.retire index pid, s)

/-- `ProcessManager::kill`, `process_manager.rs:143`, called on a core. -/
def kill (pm : ProcessManager) (s : System n) (i : Fin n) (pid : Nat) (active : List Nat) :
    Except Panic (ProcessManager × System n) :=
  match pm.activeProcesses.findIdx? (· = pid) with
  | none => .error .unwrapNone
  | some index => do
    let s ← (s.threadIds i pid active).foldlM (fun s tid ↦ s.step (.kill i tid)) s
    return (pm.retire index pid, s)

end ProcessManager

variable {cur : Thread}

namespace Section

/-- The messages behind the first `k` of the inbox are handled. -/
def handleNew (size k : Nat) (x : Section) : Except Panic Section :=
  (x.core.inbox.drop k).foldlM
    (fun x item ↦
      match item with
      | .thread thread => .ok (x.onCore fun c ↦ (c.pushFront [thread]).incRqLen 1)
      | .cmd cmd => x.handleInboxCmd size cmd)
    (x.received (x.core.inbox.take k))

/-- The thread leaves the ready queue and is dead. -/
def killReady (tid : Nat) (x : Section) : Section :=
  (x.onCore fun c ↦ { c with readyQueue := c.readyQueue.filter fun t ↦ t.id ≠ tid }).endThread tid

private theorem kill_of_ready {x : Section} {tid : Nat} (hcur : x.core.currentThread = some cur)
    (hne : cur.id ≠ tid) (halive : tid ∈ x.activeTids)
    (hready : ∃ thread ∈ x.core.readyQueue, thread.id = tid) :
    x.kill tid = .ok (x.killReady tid) := by
  have hpos := (occurs_pos_iff tid x.core.readyQueue).mpr hready
  have hcurrent : x.core.current = .ok cur := by rw [Core.current, hcur]
  have hkill : x.killLocally tid = (true, x.killReady tid) := by
    rw [killLocally, if_neg (not_not.mpr halive), Core.removeThread_eq, if_pos hpos.ne']
    rfl
  rw [kill, hcurrent, hkill]
  exact if_neg hne

end Section

namespace System

variable {n : Nat} {s s' : System n} {i : Fin n} {pid tid : Nat} {active : List Nat}

/-- The other cores handle the messages that they got since `s`. -/
def settle (s s' : System n) (i : Fin n) : System n :=
  { s' with cores := fun j ↦
      if j = i then s'.cores j
      else
        match (s'.enter j).handleNew s'.inboxSize (s.cores j).inbox.length with
        | .ok x => x.core
        | .error _ => s'.cores j }

/-- The thread is in a place of some core. -/
def Present (s : System n) (thread : Thread) : Prop := ∃ j, (s.cores j).Has thread

/-- No thread of the process but the caller is in a place of any core. -/
def Cleared (s : System n) (pid caller : Nat) : Prop :=
  ∀ thread, s.Present thread → thread.pid = pid → thread.id = caller

/-- `kill` of this thread finds it in the ready queue of the core, where it is only once. -/
structure Killable (s : System n) (i : Fin n) (tid : Nat) : Prop where
  alive : tid ∈ s.activeTids
  ready : ∃ thread ∈ (s.cores i).readyQueue, thread.id = tid
  once : s.count tid ≤ 1
  other : ∃ cur, (s.cores i).currentThread = some cur ∧ cur.id ≠ tid

/-- What `kill` does to such a thread. -/
structure Killed (s : System n) (i : Fin n) (tid : Nat) (s' : System n) : Prop where
  present : ∀ thread, s'.Present thread ↔ s.Present thread ∧ thread.id ≠ tid
  alive : s'.activeTids = s.activeTids.erase tid
  current : (s'.cores i).currentThread = (s.cores i).currentThread
  ready : ∀ thread ∈ (s.cores i).readyQueue, thread.id ≠ tid →
    thread ∈ (s'.cores i).readyQueue
  inbox : ∀ j, j ≠ i →
    (s'.cores j).inbox = (s.cores j).inbox ++ [.cmd (.joinTargetExited tid)]
  size : s'.inboxSize = s.inboxSize
  count : ∀ id, id ≠ tid → s'.count id = s.count id

private theorem Killable.step_eq (h : s.Killable i tid) :
    s.step (.kill i tid) = s.leave i ((s.enter i).killReady tid) := by
  obtain ⟨cur, hcur, hne⟩ := h.other
  rw [step, critical, Section.kill_of_ready hcur hne h.alive h.ready]
  rfl

variable {thread : Thread}

private theorem Killable.not_has (h : s.Killable i tid) (hid : thread.id = tid) {j : Fin n}
    (hc : c = { s.cores j with
      readyQueue := (s.cores j).readyQueue.filter fun t ↦ t.id ≠ tid } ∨ j ≠ i ∧ c = s.cores j) :
    ¬ c.Has thread := by
  obtain ⟨other, hother, hid'⟩ := h.ready
  have hpos : 0 < occurs tid (s.cores i).readyQueue :=
    (occurs_pos_iff _ _).mpr ⟨other, hother, hid'⟩
  have hi : 0 < (s.cores i).count tid := by
    rw [Core.count, Core.held_eq]
    omega
  intro hhas
  have hcount := Core.count_pos_of_has hhas
  rw [hid] at hcount
  have hone := h.once
  by_cases hj : j = i
  · subst hj
    obtain rfl := hc.resolve_right fun hne ↦ hne.1 rfl
    have hle := count_core_le tid s j
    have hqueue := occurs_map_filter_self (fun t ↦ t) tid (s.cores j).readyQueue
    simp only [List.map_id'] at hqueue
    rw [Core.count, Core.held_eq] at hcount hle
    change 0 < _ + (s.cores j).flying tid at hcount
    simp only [ne_eq] at hcount hqueue
    omega
  · have hsum := count_two_cores (s := s) (Ne.symm hj) tid
    have hle : c.count tid ≤ (s.cores j).count tid := by
      rcases hc with rfl | ⟨-, rfl⟩
      · have hqueue := occurs_map_filter_self (fun t ↦ t) tid (s.cores j).readyQueue
        simp only [List.map_id', ne_eq] at hqueue
        rw [Core.count, Core.held_eq, Core.count, Core.held_eq]
        change _ + (s.cores j).flying tid ≤ _
        simp only [ne_eq, hqueue]
        omega
      · exact Nat.le_refl _
    omega

private theorem Killable.killed (h : s.Killable i tid) (hstep : s.step (.kill i tid) = .ok s') :
    s.Killed i tid s' := by
  rw [h.step_eq] at hstep
  have hleaves := leaves_of_leave hstep
  have hcount : ∀ id, id ≠ tid → ((s.enter i).killReady tid).core.count id =
      (s.cores i).count id := by
    intro id hid
    have hqueue := occurs_map_filter_ne (fun t ↦ t) hid (s.cores i).readyQueue
    simp only [List.map_id'] at hqueue
    refine congrArg₂ (· + ·) ?_ rfl
    refine (Core.held_decRqLen _ _).trans (((Core.wakes_wakeJoiners tid _).held id).trans ?_)
    simp only [Core.held_eq]
    exact congrArg (fun k ↦ _ + k + _ + _ + _) hqueue
  refine ⟨?_, hleaves.alive, ?_, ?_, ?_, hleaves.inboxSize, ?_⟩
  · intro thread
    have hown : (s'.cores i).Has thread ↔ { s.cores i with
        readyQueue := (s.cores i).readyQueue.filter fun t ↦ t.id ≠ tid }.Has thread := by
      rw [hleaves.own]
      exact Iff.trans Iff.rfl (Core.has_wakeJoiners thread tid { s.cores i with
        readyQueue := (s.cores i).readyQueue.filter fun t ↦ t.id ≠ tid })
    have hothers : ∀ j, j ≠ i → ((s'.cores j).Has thread ↔ (s.cores j).Has thread) := by
      intro j hj
      rw [hleaves.others j hj, Core.has_iff, Core.has_iff]
      simp
    by_cases hid : thread.id = tid
    · refine iff_of_false ?_ fun hpresent ↦ hpresent.2 hid
      rintro ⟨j, hj⟩
      by_cases hji : j = i
      · subst hji
        exact h.not_has hid (.inl rfl) (hown.mp hj)
      · exact h.not_has hid (.inr ⟨hji, rfl⟩) ((hothers j hji).mp hj)
    · have hkept : (s'.cores i).Has thread ↔ (s.cores i).Has thread := by
        rw [hown, Core.has_iff, Core.has_iff]
        simp [List.mem_filter, hid]
      rw [and_iff_left hid]
      refine exists_congr fun j ↦ ?_
      by_cases hji : j = i
      · exact hji ▸ hkept
      · exact hothers j hji
  · rw [hleaves.own]
    rfl
  · intro thread hthread hid
    rw [hleaves.own]
    exact List.mem_append_right _ (List.mem_filter.mpr ⟨hthread, decide_eq_true hid⟩)
  · intro j hj
    rw [hleaves.others j hj]
    rfl
  · intro id hid
    have hsum := hleaves.count id
    have := hcount id hid
    omega

private theorem Killable.step_ok_iff (h : s.Killable i tid) :
    (∃ s', s.step (.kill i tid) = .ok s') ↔
      ∀ j, j ≠ i → (s.cores j).inbox.length + 1 ≤ s.inboxSize := by
  rw [h.step_eq, leave]
  split
  next hroom => exact iff_of_true ⟨_, rfl⟩ hroom
  next hfull =>
    refine iff_of_false ?_ hfull
    rintro ⟨_, heq⟩
    cases heq

/-- The threads of a list can be killed one after the other. -/
def AllKillable (s : System n) (i : Fin n) (tids : List Nat) : Prop :=
  tids.Nodup ∧ ∀ tid ∈ tids, s.Killable i tid

variable {tids : List Nat}

private theorem AllKillable.tail (h : s.AllKillable i (tid :: tids)) (hkilled : s.Killed i tid s') :
    s'.AllKillable i tids := by
  obtain ⟨hhead, htail⟩ := List.nodup_cons.mp h.1
  refine ⟨htail, fun k hk ↦ ?_⟩
  have hne : k ≠ tid := by
    rintro rfl
    exact hhead hk
  have hk := h.2 k (List.mem_cons_of_mem _ hk)
  obtain ⟨thread, hthread, hid⟩ := hk.ready
  refine ⟨?_, ⟨thread, hkilled.ready thread hthread (hid ▸ hne), hid⟩, ?_, ?_⟩
  · rw [hkilled.alive]
    exact Finset.mem_erase.mpr ⟨hne, hk.alive⟩
  · rw [hkilled.count k hne]
    exact hk.once
  · rw [hkilled.current]
    exact hk.other

/-- The loop of `kill`. -/
private def kills (i : Fin n) (tids : List Nat) (s : System n) : Except Panic (System n) :=
  tids.foldlM (fun s tid ↦ s.step (.kill i tid)) s

private theorem kills_spec (h : s.AllKillable i tids) (hrun : kills i tids s = .ok s') :
    (∀ thread, s'.Present thread ↔ s.Present thread ∧ thread.id ∉ tids) ∧
    ∀ j, j ≠ i → (s'.cores j).inbox =
      (s.cores j).inbox ++ tids.map fun tid ↦ .cmd (.joinTargetExited tid) := by
  induction tids generalizing s with
  | nil =>
    cases hrun
    simp
  | cons tid tids ih =>
    obtain ⟨s₁, hs₁, hrun⟩ := of_bind hrun
    have hkilled := (h.2 tid List.mem_cons_self).killed hs₁
    obtain ⟨hpresent, hinbox⟩ := ih (h.tail hkilled) hrun
    refine ⟨fun thread ↦ ?_, fun j hj ↦ ?_⟩
    · rw [hpresent, hkilled.present, List.mem_cons, not_or, and_assoc]
    · rw [hinbox j hj, hkilled.inbox j hj, List.append_assoc, List.map_cons, List.singleton_append]

private theorem kills_ok_iff (h : s.AllKillable i tids) :
    (∃ s', kills i tids s = .ok s') ↔
      tids = [] ∨ ∀ j, j ≠ i → (s.cores j).inbox.length + tids.length ≤ s.inboxSize := by
  induction tids generalizing s with
  | nil => exact iff_of_true ⟨s, rfl⟩ (.inl rfl)
  | cons tid tids ih =>
    have hkillable := h.2 tid List.mem_cons_self
    have hfirst := hkillable.step_ok_iff
    constructor
    · rintro ⟨s', hrun⟩
      obtain ⟨s₁, hs₁, hrun⟩ := of_bind hrun
      have hkilled := hkillable.killed hs₁
      have hroom := hfirst.mp ⟨s₁, hs₁⟩
      refine .inr fun j hj ↦ ?_
      rw [List.length_cons]
      rcases (ih (h.tail hkilled)).mp ⟨s', hrun⟩ with rfl | hrest
      · exact hroom j hj
      · have := hrest j hj
        rw [hkilled.inbox j hj, List.length_append, List.length_singleton, hkilled.size] at this
        omega
    · rintro (hnil | hroom)
      · cases hnil
      · obtain ⟨s₁, hs₁⟩ := hfirst.mpr fun j hj ↦ by
          have := hroom j hj
          rw [List.length_cons] at this
          omega
        have hkilled := hkillable.killed hs₁
        have hrest : ∀ j, j ≠ i → (s₁.cores j).inbox.length + tids.length ≤ s₁.inboxSize := by
          intro j hj
          have := hroom j hj
          rw [List.length_cons] at this
          rw [hkilled.inbox j hj, List.length_append, List.length_singleton, hkilled.size]
          omega
        obtain ⟨s', hs'⟩ := (ih (h.tail hkilled)).mpr (.inr hrest)
        exact ⟨s', bind_eq_ok.mpr ⟨s₁, hs₁, hs'⟩⟩

private theorem handleNew_ok (size : Nat) {x : Section} {k : Nat}
    (hdrop : x.core.inbox.drop k = tids.map fun tid ↦ .cmd (.joinTargetExited tid))
    (hthreads : ∀ thread, .thread thread ∈ x.core.inbox → .thread thread ∈ x.core.inbox.take k) :
    ∃ y, x.handleNew size k = .ok y ∧ ∀ thread, y.core.Has thread ↔ x.core.Has thread := by
  have hloop : ∀ (tids : List Nat) (x : Section), ∃ y,
      (tids.map fun tid ↦ MessageItem.cmd (.joinTargetExited tid)).foldlM
        (fun x item ↦
          match item with
          | .thread thread => .ok (x.onCore fun c ↦ (c.pushFront [thread]).incRqLen 1)
          | .cmd cmd => x.handleInboxCmd size cmd) x = (.ok y : Except Panic Section) ∧
        ∀ thread, y.core.Has thread ↔ x.core.Has thread := by
    intro tids
    induction tids with
    | nil => exact fun x ↦ ⟨x, rfl, fun _ ↦ Iff.rfl⟩
    | cons tid tids ih =>
      intro x
      obtain ⟨y, hy, hhas⟩ := ih (x.onCore (·.wakeJoiners tid))
      exact ⟨y, hy, fun thread ↦ (hhas thread).trans (Core.has_wakeJoiners thread tid x.core)⟩
  obtain ⟨y, hy, hhas⟩ := hloop tids (x.received (x.core.inbox.take k))
  refine ⟨y, ?_, fun thread ↦ (hhas thread).trans ?_⟩
  · rw [Section.handleNew, hdrop]
    exact hy
  · refine or_congr Iff.rfl ⟨List.mem_of_mem_take, hthreads thread⟩

private theorem present_settle (hinbox : ∀ j, j ≠ i → (s'.cores j).inbox =
      (s.cores j).inbox ++ tids.map fun tid ↦ .cmd (.joinTargetExited tid)) (thread : Thread) :
    (settle s s' i).Present thread ↔ s'.Present thread := by
  refine exists_congr fun j ↦ ?_
  rw [settle]
  dsimp only
  split
  · exact Iff.rfl
  next hj =>
    have hdrop : (s'.enter j).core.inbox.drop (s.cores j).inbox.length =
        tids.map fun tid ↦ .cmd (.joinTargetExited tid) := by
      change (s'.cores j).inbox.drop _ = _
      rw [hinbox j hj, List.drop_left]
    obtain ⟨y, hy, hhas⟩ := handleNew_ok s'.inboxSize hdrop fun thread hthread ↦ by
      change _ ∈ (s'.cores j).inbox.take _
      change _ ∈ (s'.cores j).inbox at hthread
      rw [hinbox j hj] at hthread ⊢
      rw [List.take_left]
      refine (List.mem_append.mp hthread).resolve_right fun hmem ↦ ?_
      obtain ⟨_, -, heq⟩ := List.mem_map.mp hmem
      cases heq
    rw [hy]
    exact hhas thread

private theorem find_of_once {l : List Thread} (hmem : thread ∈ l) (hone : occurs thread.id l ≤ 1) :
    l.find? (fun t ↦ t.id = thread.id) = some thread := by
  induction l with
  | nil => cases hmem
  | cons t l ih =>
    rw [occurs_cons] at hone
    by_cases hid : t.id = thread.id
    · rw [if_pos hid] at hone
      have hnot : thread ∉ l := by
        intro hl
        have := (occurs_pos_iff thread.id l).mpr ⟨thread, hl, rfl⟩
        omega
      obtain rfl := (List.mem_cons.mp hmem).resolve_right hnot
      exact List.find?_cons_of_pos (decide_eq_true rfl)
    · have hl : thread ∈ l := (List.mem_cons.mp hmem).resolve_left fun heq ↦ hid (heq ▸ rfl)
      rw [List.find?_cons_of_neg (by simpa using hid)]
      exact ih hl (by omega)

/-- The live threads in the order of a map. -/
structure Lists (active : List Nat) (tids : Finset Nat) : Prop where
  nodup : active.Nodup
  mem : ∀ id, id ∈ active ↔ id ∈ tids

/-- Every thread of the process is in one place only. -/
def OncePerThread (s : System n) (pid : Nat) : Prop :=
  ∀ thread, s.Present thread → thread.pid = pid → s.count thread.id ≤ 1

private theorem mem_threadIds : tid ∈ s.threadIds i pid active ↔
    tid ∈ active ∧ ∃ thread, s.thread i tid = some thread ∧ thread.pid = pid := by
  rw [threadIds, List.mem_filter]
  refine and_congr_right fun _ ↦ ?_
  cases s.thread i tid with
  | none | some thread => simp

private theorem present_of_ready (h : thread ∈ (s.cores i).readyQueue) :
    s.Present thread := ⟨i, Core.has_iff.mpr (.inr (.inl h))⟩

private theorem allKillable_threadIds (hactive : Lists active s.activeTids)
    (hcur : (s.cores i).currentThread = some cur) (hone : s.OncePerThread pid) :
    s.AllKillable i (s.threadIds i pid active) := by
  refine ⟨hactive.nodup.filter _, fun tid htid ↦ ?_⟩
  obtain ⟨hmem, thread, hfind, hpid⟩ := mem_threadIds.mp htid
  have hready := List.mem_of_find?_eq_some hfind
  have hid : thread.id = tid := by
    simpa using List.find?_some hfind
  have honce := hone thread (present_of_ready hready) hpid
  rw [hid] at honce
  refine ⟨(hactive.mem tid).mp hmem, ⟨thread, hready, hid⟩, honce, cur, hcur, ?_⟩
  -- otherwise the thread is current and ready at once
  rintro rfl
  have hpos := (occurs_pos_iff cur.id (s.cores i).readyQueue).mpr ⟨thread, hready, hid⟩
  have hle := count_core_le cur.id s i
  rw [Core.count, Core.held_eq, hcur] at hle
  simp only [Option.toList_some, occurs_singleton, if_true] at hle
  omega

private theorem threadIds_iff (hactive : Lists active s.activeTids) (hone : s.OncePerThread pid)
    (hkillable : s.AllKillable i (s.threadIds i pid active)) (hpresent : s.Present thread)
    (hpid : thread.pid = pid) :
    thread.id ∈ s.threadIds i pid active ↔
      thread ∈ (s.cores i).readyQueue ∧ thread.id ∈ s.activeTids := by
  constructor
  · intro hmem
    have hkill := hkillable.2 _ hmem
    refine ⟨?_, hkill.alive⟩
    obtain ⟨j, hj⟩ := hpresent
    by_contra hready
    by_cases hji : j = i
    · subst hji
      refine hkill.not_has (j := j) rfl (.inl rfl) (Core.has_iff.mpr ?_)
      exact (Core.has_iff.mp hj).imp_right fun h ↦ .inr (h.resolve_left hready)
    · exact hkill.not_has rfl (.inr ⟨hji, rfl⟩) hj
  · rintro ⟨hready, halive⟩
    refine mem_threadIds.mpr ⟨(hactive.mem _).mpr halive, thread, ?_, hpid⟩
    refine find_of_once hready ?_
    have hle := (count_core_le thread.id s i).trans (hone thread hpresent hpid)
    rw [Core.count, Core.held_eq] at hle
    omega

private theorem killAll_eq (hcur : (s.cores i).currentThread = some cur) (h : s.AllKillable i tids)
    :
    tids.foldlM (fun s tid ↦ do
      let current ← (s.cores i).current
      if tid ≠ current.id then s.step (.kill i tid) else return s) s = kills i tids s := by
  induction tids generalizing s with
  | nil => rfl
  | cons tid tids ih =>
    have hkillable := h.2 tid List.mem_cons_self
    have hne : tid ≠ cur.id := by
      obtain ⟨cur', hcur', hne⟩ := hkillable.other
      rw [Option.some.inj (hcur.symm.trans hcur')]
      exact Ne.symm hne
    have hcurrent : (s.cores i).current = .ok cur := by rw [Core.current, hcur]
    have hfirst : (do
        let current ← (s.cores i).current
        if tid ≠ current.id then s.step (.kill i tid) else return s) = s.step (.kill i tid) := by
      rw [hcurrent]
      exact if_pos hne
    rw [List.foldlM_cons, hfirst, kills, List.foldlM_cons]
    cases hstep : s.step (.kill i tid) with
    | error e => rfl
    | ok s₁ =>
      have hkilled := hkillable.killed hstep
      exact ih (hkilled.current.trans hcur) (h.tail hkilled)

end System

namespace ProcessManager

open Scheduler.System

variable {n : Nat} {s : System n} {i : Fin n} {pm : ProcessManager} {pid : Nat}
  {active : List Nat} {cur : Thread}

/-- Every thread of the process but the caller is ready on the core of the caller and alive, the
process exists and the other inboxes have room for a message about each of the threads. -/
structure Reaches (pm : ProcessManager) (s : System n) (i : Fin n) (pid caller : Nat)
    (active : List Nat) : Prop where
  process : pid ∈ pm.activeProcesses
  ready : ∀ thread, s.Present thread → thread.pid = pid → thread.id ≠ caller →
    thread ∈ (s.cores i).readyQueue ∧ thread.id ∈ s.activeTids
  room : s.threadIds i pid active = [] ∨ ∀ j, j ≠ i →
    (s.cores j).inbox.length + (s.threadIds i pid active).length ≤ s.inboxSize

/-- The call returns, and once the messages that it caused are handled, no thread of the process but
the caller is in a place of any core. -/
def Clears (s : System n) (i : Fin n) (pid caller : Nat)
    (call : Except Panic (ProcessManager × System n)) : Prop :=
  ∃ pm' s', call = .ok (pm', s') ∧ (settle s s' i).Cleared pid caller

private theorem clears_iff (hactive : Lists active s.activeTids)
    (hcur : (s.cores i).currentThread = some cur) (hone : s.OncePerThread pid)
    {call : Except Panic (ProcessManager × System n)}
    (hcall : ∀ pm' s', call = .ok (pm', s') → pid ∈ pm.activeProcesses ∧
      kills i (s.threadIds i pid active) s = .ok s')
    (hret : pid ∈ pm.activeProcesses → ∀ s', kills i (s.threadIds i pid active) s = .ok s' →
      ∃ pm', call = .ok (pm', s')) :
    Clears s i pid cur.id call ↔ pm.Reaches s i pid cur.id active := by
  have hkillable := allKillable_threadIds hactive hcur hone
  have hcleared : ∀ s', kills i (s.threadIds i pid active) s = .ok s' →
      ((settle s s' i).Cleared pid cur.id ↔ ∀ thread, s.Present thread → thread.pid = pid →
        thread.id ≠ cur.id → thread ∈ (s.cores i).readyQueue ∧ thread.id ∈ s.activeTids) := by
    intro s' hs'
    obtain ⟨hpresent, hinbox⟩ := kills_spec hkillable hs'
    refine forall_congr' fun thread ↦ ?_
    rw [present_settle hinbox, hpresent]
    constructor
    · intro h hthread hpid hne
      rw [← threadIds_iff hactive hone hkillable hthread hpid]
      by_contra hmem
      exact hne (h ⟨hthread, hmem⟩ hpid)
    · rintro h ⟨hthread, hmem⟩ hpid
      by_contra hne
      exact hmem ((threadIds_iff hactive hone hkillable hthread hpid).mpr (h hthread hpid hne))
  constructor
  · rintro ⟨pm', s', hok, hclear⟩
    obtain ⟨hprocess, hs'⟩ := hcall pm' s' hok
    exact ⟨hprocess, (hcleared s' hs').mp hclear, (kills_ok_iff hkillable).mp ⟨s', hs'⟩⟩
  · rintro ⟨hprocess, hready, hroom⟩
    obtain ⟨s', hs'⟩ := (kills_ok_iff hkillable).mpr hroom
    obtain ⟨pm', hok⟩ := hret hprocess s' hs'
    exact ⟨pm', s', hok, (hcleared s' hs').mpr hready⟩

/-- For every state in which a thread of the process is in one place only: ending the process leaves
no thread of it but the caller if and only if all of them are ready on the core of the caller. -/
theorem process_cleared_iff (pm : ProcessManager) (hactive : Lists active s.activeTids)
    (hcur : (s.cores i).currentThread = some cur) (hone : s.OncePerThread pid) :
    (Clears s i pid cur.id (pm.exit s i pid active) ↔ pm.Reaches s i pid cur.id active) ∧
    (Clears s i pid cur.id (pm.kill s i pid active) ↔ pm.Reaches s i pid cur.id active) := by
  have hkillable := allKillable_threadIds hactive hcur hone
  have hexit : pm.exit s i pid active = pm.kill s i pid active := by
    rw [exit, kill, killAllThreadsButCurrent, killAll_eq hcur hkillable]
    rfl
  have hkill : Clears s i pid cur.id (pm.kill s i pid active) ↔
      pm.Reaches s i pid cur.id active := by
    refine clears_iff hactive hcur hone (fun pm' s' hok ↦ ?_) fun hprocess s' hs' ↦ ?_
    · rw [kill] at hok
      split at hok
      next => cases hok
      next index hindex =>
        obtain ⟨s₁, hs₁, hok⟩ := of_bind hok
        cases hok
        obtain ⟨hlt, hget, -⟩ := List.findIdx?_eq_some_iff_getElem.mp hindex
        exact ⟨of_decide_eq_true hget ▸ List.getElem_mem hlt, hs₁⟩
    · rw [kill]
      split
      next hnone =>
        rw [List.findIdx?_eq_none_iff] at hnone
        exact absurd (decide_eq_true rfl) (Bool.eq_false_iff.mp (hnone pid hprocess))
      next index _ => exact ⟨pm.retire index pid, bind_eq_ok.mpr ⟨s', hs', rfl⟩⟩
  exact ⟨hexit ▸ hkill, hkill⟩

/-- A core with the threads that run, are ready or sleep on it. -/
private def sampleCore (ready : List Thread) (asleep : List (Thread × Nat)) : Core :=
  { System.bootCore ⟨0, 0⟩ with
    initialized := true
    currentThread := some ⟨1, 7⟩
    readyQueue := ready
    sleepList := asleep }

private def sampleSystem : System 1 :=
  { System.boot 1 100 with
    cores := fun _ ↦ sampleCore [⟨3, 7⟩, ⟨2, 7⟩] []
    activeTids := {1, 2, 3}
    nextThreadId := 4 }

private theorem sample_present {thread : Thread} (h : sampleSystem.Present thread) :
    thread ∈ [(⟨1, 7⟩ : Thread), ⟨3, 7⟩, ⟨2, 7⟩] := by
  obtain ⟨j, hj | hj⟩ := h
  · exact hj
  · cases hj

/-- Thread 1 ends its process; threads 2 and 3 are ready on the same core. -/
theorem process_cleared_iff_sample :
    Clears sampleSystem 0 7 1 (exit ⟨[0, 7], []⟩ sampleSystem 0 7 [1, 2, 3]) := by
  have hcount : ∀ thread ∈ [(⟨1, 7⟩ : Thread), ⟨3, 7⟩, ⟨2, 7⟩],
      sampleSystem.count thread.id ≤ 1 := by
    decide +kernel
  have hready : ∀ thread ∈ [(⟨1, 7⟩ : Thread), ⟨3, 7⟩, ⟨2, 7⟩], thread.id ≠ 1 →
      thread ∈ (sampleSystem.cores 0).readyQueue ∧ thread.id ∈ sampleSystem.activeTids := by
    decide +kernel
  refine (process_cleared_iff ⟨[0, 7], []⟩ ⟨by decide, ?_⟩
    (rfl : (sampleSystem.cores 0).currentThread = some ⟨1, 7⟩)
    fun thread hthread _ ↦ hcount thread (sample_present hthread)).1.mpr
    ⟨by decide, fun thread hthread _ ↦ hready thread (sample_present hthread), .inr ?_⟩
  · intro id
    simp [sampleSystem]
  · intro j hj
    exact absurd (Subsingleton.elim j 0) hj

/-- Thread 1 of the process sleeps while thread 2 ends it: `thread_ids` looks only into the ready
queue, and thread 1 is still asleep afterwards. -/
theorem exit_leaves_sleeper :
    ∃ s, [Event.init 0, .start 0, .spawn 0 7, .spawn 0 7, .switchThread 0 1 true false,
      .sleep 0 2 1000 2].foldlM System.step (System.boot 1 100) = .ok s ∧
    (s.cores 0).currentThread = some ⟨2, 7⟩ ∧
    ¬ Clears s 0 7 2 (exit ⟨[0, 7], []⟩ s 0 7 [1, 2]) := by
  obtain ⟨s, hrun, hcur, ⟨pm', s'⟩, hexit, hasleep⟩ : ∃ s, [Event.init 0, .start 0, .spawn 0 7,
      .spawn 0 7, .switchThread 0 1 true false, .sleep 0 2 1000 2].foldlM System.step
        (System.boot 1 100) = .ok s ∧ (s.cores 0).currentThread = some ⟨2, 7⟩ ∧
      ∃ r, exit ⟨[0, 7], []⟩ s 0 7 [1, 2] = .ok r ∧
        ((settle s r.2 0).cores 0).sleepList = [(⟨1, 7⟩, 1002)] := by
    decide +kernel
  refine ⟨s, hrun, hcur, ?_⟩
  rintro ⟨pm'', s'', hexit', hclear⟩
  rw [hexit] at hexit'
  cases hexit'
  have hpresent : (settle s s' 0).Present ⟨1, 7⟩ := by
    refine ⟨0, Core.has_iff.mpr (.inr (.inr (.inl ?_)))⟩
    rw [hasleep]
    exact List.mem_singleton_self _
  exact absurd (hclear _ hpresent rfl) (by decide)

end ProcessManager

end D3OS.Scheduler
