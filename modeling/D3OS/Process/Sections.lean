import D3OS.Process.Places

/-!
# Waking threads and handling messages

`Drained` says what waking threads and handling messages do to the data of a critical section,
up to threads that are killed.
-/

namespace D3OS.Scheduler

open Lib

namespace Core

/-- What the searches for a thread that is killed leave of a core. -/
structure Removes (tid : Nat) (c c' : Core) : Prop where
  idle : c'.idleThread = c.idleThread
  current : c'.currentThread = c.currentThread
  held_le : ∀ id, c'.held id ≤ c.held id
  held_eq : ∀ id, id ≠ tid → c'.held id = c.held id
  asleep : c'.sleepList ⊆ c.sleepList
  blocked : c'.blockedList ⊆ c.blockedList
  joining : c'.joinMap ⊆ c.joinMap
  inbox : c'.inbox = c.inbox

variable {α : Type}

/-- A list that has been searched has no thread with the number any more. -/
def cleared (f : α → Thread) (tid : Nat) (now : Bool) (l : List α) : List α :=
  if now then l.filter fun a ↦ (f a).id ≠ tid else l

private theorem occurs_cleared (f : α → Thread) (id tid : Nat) (now : Bool) (l : List α) :
    occurs id ((cleared f tid now l).map f) =
      if now = true ∧ id = tid then 0 else occurs id (l.map f) := by
  cases now with
  | false => rfl
  | true =>
    by_cases h : id = tid
    · rw [if_pos ⟨rfl, h⟩, h]
      exact occurs_map_filter_self f tid l
    · rw [if_neg fun hand ↦ h hand.2]
      exact occurs_map_filter_ne f h l

private theorem cleared_subset (f : α → Thread) (tid : Nat) (now : Bool) (l : List α) :
    cleared f tid now l ⊆ l := by
  cases now with
  | false => exact fun _ h ↦ h
  | true => exact List.filter_subset_self _

/-- The core after searches of the ready queue, the sleep list, the blocked list and the join
map. -/
def searched (tid : Nat) (r a b j : Bool) (c : Core) : Core :=
  { c with
    readyQueue := cleared (fun t ↦ t) tid r c.readyQueue
    sleepList := cleared Prod.fst tid a c.sleepList
    blockedList := cleared (fun t ↦ t) tid b c.blockedList
    joinMap := cleared Prod.snd tid j c.joinMap }

/-- What the search of `kill` leaves. -/
theorem held_searched (id tid : Nat) (r a b j : Bool) (c : Core) :
    (c.searched tid r a b j).held id = occurs id c.currentThread.toList +
      (if r = true ∧ id = tid then 0 else occurs id c.readyQueue) +
      (if a = true ∧ id = tid then 0 else occurs id (c.sleepList.map Prod.fst)) +
      (if b = true ∧ id = tid then 0 else occurs id c.blockedList) +
      if j = true ∧ id = tid then 0 else occurs id (c.joinMap.map Prod.snd) := by
  have hr := occurs_cleared (fun t ↦ t) id tid r c.readyQueue
  have hb := occurs_cleared (fun t ↦ t) id tid b c.blockedList
  rw [List.map_id', List.map_id'] at hr hb
  rw [held_eq, ← occurs_cleared, ← occurs_cleared, ← hr, ← hb]
  rfl

private theorem removes_searched (tid : Nat) (c : Core) (r a b j : Bool) :
    c.Removes tid (c.searched tid r a b j) where
  idle := rfl
  current := rfl
  held_le id := by
    rw [held_searched, held_eq]
    split_ifs <;> omega
  held_eq id h := by
    rw [held_searched, held_eq]
    simp only [h, and_false, if_false]
  asleep := cleared_subset _ _ _ _
  blocked := cleared_subset _ _ _ _
  joining := cleared_subset _ _ _ _
  inbox := rfl

/-- The threads that a filter leaves and those that it removes. -/
theorem length_filter_ne (f : α → Thread) (tid : Nat) (l : List α) :
    (l.filter fun a ↦ (f a).id ≠ tid).length + occurs tid (l.map f) = l.length := by
  induction l with
  | nil => rfl
  | cons a l ih =>
    simp only [ne_eq] at ih ⊢
    by_cases ha : (f a).id = tid
    · simp only [List.filter_cons, ha, not_true_eq_false, decide_false, Bool.false_eq_true,
        if_false, List.map_cons, occurs_cons, if_true, List.length_cons]
      omega
    · simp only [List.filter_cons, ha, not_false_eq_true, decide_true, if_true, List.map_cons,
        occurs_cons, List.length_cons, if_false]
      omega

/-- Which searches are made and what they report, in terms of the places of the thread. -/
theorem removeThread_eq (tid : Nat) (c : Core) : c.removeThread tid =
    if occurs tid c.readyQueue ≠ 0 then (true, c.searched tid true false false false)
    else if occurs tid (c.sleepList.map Prod.fst) ≠ c.readyQueue.length then
      (true, c.searched tid false true false false)
    else if occurs tid c.blockedList ≠ 0 then (true, c.searched tid false true true false)
    else (decide (occurs tid (c.joinMap.map Prod.snd) ≠ 0),
      c.searched tid false true false true) := by
  have hready := length_filter_ne (fun t ↦ t) tid c.readyQueue
  have hasleep := length_filter_ne Prod.fst tid c.sleepList
  have hblocked := length_filter_ne (fun t ↦ t) tid c.blockedList
  have hjoining := length_filter_ne Prod.snd tid c.joinMap
  simp only [List.map_id'] at hready hblocked
  rw [removeThread]
  refine if_ctx_congr (by omega) (fun _ ↦ rfl) fun hr ↦ ?_
  refine if_ctx_congr (by omega) (fun _ ↦ rfl) fun _ ↦ ?_
  refine if_ctx_congr (by omega) (fun _ ↦ rfl) fun _ ↦ ?_
  exact Prod.ext (decide_eq_decide.mpr (by omega)) rfl

/-- The searches change the lists of the core only, and count other threads unchanged. -/
theorem removes_removeThread (tid : Nat) (c : Core) : c.Removes tid (c.removeThread tid).2 := by
  rw [removeThread_eq]
  split
  · exact removes_searched tid c true false false false
  · split
    · exact removes_searched tid c false true false false
    · split
      · exact removes_searched tid c false true true false
      · exact removes_searched tid c false true false true

/-- If the thread sleeps on the core, the ready queue does not have exactly one thread. The length
that the search of the sleep list compares then tells that the thread was there. -/
def FindsAsleep (tid : Nat) (c : Core) : Prop :=
  (∃ entry ∈ c.sleepList, entry.1.id = tid) → c.readyQueue.length ≠ 1

instance (tid : Nat) (c : Core) : Decidable (c.FindsAsleep tid) :=
  inferInstanceAs (Decidable (_ → _))

private theorem held_of_not_removed {tid : Nat} {c : Core} (hfind : c.FindsAsleep tid)
    (hone : c.held tid ≤ 1) (h : (c.removeThread tid).1 = false) :
    (c.removeThread tid).2.held tid = c.held tid := by
  have hheld := held_eq tid c
  rw [removeThread_eq] at h ⊢
  split at h
  · cases h
  next hr =>
    rw [if_neg hr]
    split at h
    · cases h
    next ha =>
      rw [if_neg ha]
      split at h
      · cases h
      next hb =>
        have hj := of_decide_eq_false h
        have hzero : occurs tid (c.sleepList.map Prod.fst) = 0 := by
          by_contra hne
          have := hfind (occurs_map_pos_iff.mp (Nat.pos_of_ne_zero hne))
          omega
        rw [if_neg hb, held_searched]
        simp only [and_self, if_true, Bool.false_eq_true, false_and, if_false]
        omega

end Core

namespace Section

variable {c : Core} {thread : Thread}

/-- The thread that runs. -/
theorem current_eq_ok (h : c.current = .ok thread) : c.currentThread = some thread := by
  rw [Core.current] at h
  split at h
  next heq =>
    cases h
    exact heq
  next => cases h

/-- Every waiter of the core waits for a live thread, or the message that wakes it is there. -/
def JoinSafe (x : Section) : Prop :=
  ∀ entry ∈ x.core.joinMap,
    entry.1 ∈ x.activeTids ∨ .cmd (.joinTargetExited entry.1) ∈ x.core.inbox

/-- What waking threads and handling messages do; `K` holds of the threads that are killed and
`L` of those that are removed without being recorded as dead. -/
structure Drained (K L : Nat → Prop) (x y : Section) : Prop where
  idle : y.core.idleThread = x.core.idleThread
  current : y.core.currentThread = x.core.currentThread
  asleep : y.core.sleepList ⊆ x.core.sleepList
  blocked : y.core.blockedList ⊆ x.core.blockedList
  joining : y.core.joinMap ⊆ x.core.joinMap
  count_le : ∀ id, y.core.count id ≤ x.core.count id
  count_eq : ∀ id, ¬ K id → y.core.count id = x.core.count id
  kept : ∀ id ∈ y.activeTids, ¬ L id → x.core.count id ≤ 1 → y.core.count id = x.core.count id
  running : ∀ cur, x.core.currentThread = some cur → y.core.count cur.id = x.core.count cur.id
  kills : (∀ id, .cmd (.kill id) ∈ x.core.inbox → K id) →
    ∀ id, .cmd (.kill id) ∈ y.core.inbox → K id
  sent : ∀ id, .kill id ∈ y.broadcast → .kill id ∈ x.broadcast ∨ K id
  broadcast : x.broadcast ⊆ y.broadcast
  alive : y.activeTids ⊆ x.activeTids
  died : ∀ id ∈ x.activeTids, id ∉ y.activeTids → K id ∧ .joinTargetExited id ∈ y.broadcast
  waiters : x.JoinSafe → y.JoinSafe

variable {K L : Nat → Prop} {x y z : Section}

/-- Nothing is done. -/
theorem Drained.refl (x : Section) : Drained K L x x where
  idle := rfl
  current := rfl
  asleep _ := id
  blocked _ := id
  joining _ := id
  count_le _ := Nat.le_refl _
  count_eq _ _ := rfl
  kept _ _ _ _ := rfl
  running _ _ := rfl
  kills h := h
  sent _ := .inl
  broadcast _ := id
  alive _ := id
  died _ h h' := absurd h h'
  waiters := id

/-- One after the other. -/
theorem Drained.trans (hxy : Drained K L x y) (hyz : Drained K L y z) : Drained K L x z where
  idle := hyz.idle.trans hxy.idle
  current := hyz.current.trans hxy.current
  asleep := List.Subset.trans hyz.asleep hxy.asleep
  blocked := List.Subset.trans hyz.blocked hxy.blocked
  joining := List.Subset.trans hyz.joining hxy.joining
  count_le id := (hyz.count_le id).trans (hxy.count_le id)
  count_eq id h := (hyz.count_eq id h).trans (hxy.count_eq id h)
  kept id hz hL hone := by
    have hy := hxy.kept id (hyz.alive hz) hL hone
    exact (hyz.kept id hz hL (hy ▸ hone)).trans hy
  running cur h := (hyz.running cur (hxy.current.trans h)).trans (hxy.running cur h)
  kills h := hyz.kills (hxy.kills h)
  sent id h := by
    rcases hyz.sent id h with h | h
    · exact hxy.sent id h
    · exact .inr h
  broadcast := List.Subset.trans hxy.broadcast hyz.broadcast
  alive := Finset.Subset.trans hyz.alive hxy.alive
  died id hx hz := by
    by_cases hy : id ∈ y.activeTids
    · exact hyz.died id hy hz
    · exact ⟨(hxy.died id hx hy).1, hyz.broadcast (hxy.died id hx hy).2⟩
  waiters h := hyz.waiters (hxy.waiters h)

private theorem Drained.of_count (hidle : c.idleThread = x.core.idleThread)
    (hcurrent : c.currentThread = x.core.currentThread) (hasleep : c.sleepList ⊆ x.core.sleepList)
    (hblocked : c.blockedList ⊆ x.core.blockedList) (hjoining : c.joinMap ⊆ x.core.joinMap)
    (hcount : ∀ id, c.count id = x.core.count id)
    (hkills : ∀ id, .cmd (.kill id) ∈ c.inbox → .cmd (.kill id) ∈ x.core.inbox ∨ K id)
    (hwakes : ∀ entry ∈ c.joinMap, .cmd (.joinTargetExited entry.1) ∈ x.core.inbox →
      .cmd (.joinTargetExited entry.1) ∈ c.inbox) : Drained K L x { x with core := c } where
  idle := hidle
  current := hcurrent
  asleep := hasleep
  blocked := hblocked
  joining := hjoining
  count_le id := Nat.le_of_eq (hcount id)
  count_eq id _ := hcount id
  kept id _ _ _ := hcount id
  running cur _ := hcount cur.id
  kills hk id hid := (hkills id hid).elim (hk id) fun h ↦ h
  sent _ := .inl
  broadcast _ := id
  alive _ := id
  died _ h h' := absurd h h'
  waiters hx entry hentry := (hx entry (hjoining hentry)).imp_right (hwakes entry hentry)

/-- Waking threads of the core. -/
theorem Drained.of_wakes (h : x.core.Wakes c) : Drained K L x { x with core := c } := by
  refine .of_count h.idle h.current h.asleep h.blocked h.joining (fun id ↦ ?_) ?_ ?_
  · simp only [Core.count, Core.flying, h.held, h.inbox]
  · rw [h.inbox]
    exact fun _ ↦ .inl
  · rw [h.inbox]
    exact fun _ _ ↦ id

private theorem drained_incRqLen (k : Nat) (x : Section) : Drained K L x
    (x.onCore (·.incRqLen k)) :=
  .of_wakes
    { idle := rfl, current := rfl, held := fun _ ↦ Core.held_incRqLen _ k _, asleep := fun _ ↦ id,
      blocked := fun _ ↦ id, joining := fun _ ↦ id, inbox := rfl }

/-- The length does not matter. -/
theorem drained_decRqLen (x : Section) : Drained K L x (x.onCore Core.decRqLen) :=
  .of_wakes
    { idle := rfl, current := rfl, held := fun _ ↦ Core.held_decRqLen _ _, asleep := fun _ ↦ id,
      blocked := fun _ ↦ id, joining := fun _ ↦ id, inbox := rfl }

private theorem drained_reschedFlag (flag : Bool) (x : Section) :
    Drained K L x (x.onCore fun c ↦ { c with reschedFlag := flag }) :=
  .of_wakes
    { idle := rfl, current := rfl, held := fun _ ↦ rfl, asleep := fun _ ↦ id,
      blocked := fun _ ↦ id, joining := fun _ ↦ id, inbox := rfl }

variable {tid : Nat}

/-- The thread dies and its waiters are woken, here and by a message elsewhere. -/
theorem drained_unjoin (htid : K tid) (x : Section) :
    Drained K L x ((x.markThreadDead tid).unjoin tid) where
  idle := rfl
  current := rfl
  asleep _ := id
  blocked _ := id
  joining := (Core.wakes_wakeJoiners tid x.core).joining
  count_le id := by
    have h := Core.wakes_wakeJoiners tid x.core
    exact Nat.le_of_eq (congrArg₂ (· + ·) (h.held id) rfl)
  count_eq id _ := by
    have h := Core.wakes_wakeJoiners tid x.core
    exact congrArg₂ (· + ·) (h.held id) rfl
  kept id _ _ _ := by
    have h := Core.wakes_wakeJoiners tid x.core
    exact congrArg₂ (· + ·) (h.held id) rfl
  running cur _ := by
    have h := Core.wakes_wakeJoiners tid x.core
    exact congrArg₂ (· + ·) (h.held cur.id) rfl
  kills h := h
  sent id h := by
    rcases List.mem_append.mp h with h | h
    · exact .inl h
    · cases List.mem_singleton.mp h
  broadcast := List.subset_append_left _ _
  alive := Finset.erase_subset _ _
  died id hx hy := by
    have hid : id = tid := by
      by_contra hne
      exact hy (Finset.mem_erase.mpr ⟨hne, hx⟩)
    subst hid
    exact ⟨htid, List.mem_append_right _ (List.mem_singleton_self _)⟩
  waiters hx entry hentry := by
    obtain ⟨hmem, hne⟩ := Core.mem_joinMap_wakeJoiners.mp hentry
    rcases hx entry hmem with h | h
    · exact .inl (Finset.mem_erase.mpr ⟨hne, h⟩)
    · exact .inr h

private theorem Drained.of_removes (htid : K tid) (hL : L tid)
    (hcur : ∀ cur, x.core.currentThread = some cur → cur.id ≠ tid) (h : x.core.Removes tid c) :
    Drained K L x { x with core := c } where
  idle := h.idle
  current := h.current
  asleep := h.asleep
  blocked := h.blocked
  joining := h.joining
  count_le id := by
    simp only [Core.count, Core.flying, h.inbox]
    exact Nat.add_le_add_right (h.held_le id) _
  count_eq id hid := by
    have hne : id ≠ tid := by
      rintro rfl
      exact hid htid
    simp only [Core.count, Core.flying, h.inbox, h.held_eq id hne]
  kept id _ hid _ := by
    have hne : id ≠ tid := by
      rintro rfl
      exact hid hL
    simp only [Core.count, Core.flying, h.inbox, h.held_eq id hne]
  running cur hc := by
    simp only [Core.count, Core.flying, h.inbox, h.held_eq cur.id (hcur cur hc)]
  kills hk id hid := hk id (h.inbox ▸ hid)
  sent _ := .inl
  broadcast _ := id
  alive _ := id
  died _ h h' := absurd h h'
  waiters hx entry hentry := by
    rw [h.inbox]
    exact hx entry (h.joining hentry)

private theorem Drained.of_dead {M : Nat → Prop} (h : Drained K M x y)
    (hdead : ∀ id ∈ y.activeTids, M id → L id) : Drained K L x y :=
  { h with kept := fun id hid hL hone ↦ h.kept id hid (fun hM ↦ hL (hdead id hid hM)) hone }

/-- Killing a thread on its own core. -/
theorem drained_killLocally (htid : tid ∈ x.activeTids → K tid)
    (hcur : ∀ cur, x.core.currentThread = some cur → cur.id ≠ tid)
    (hfind : tid ∈ x.activeTids → x.core.FindsAsleep tid ∨ L tid) :
    Drained K L x (x.killLocally tid).2 := by
  rw [killLocally]
  split
  · exact .refl x
  next halive =>
    have htid := htid (not_not.mp halive)
    have hremoves : Drained K (fun id ↦ id = tid) x
        { x with core := (x.core.removeThread tid).2 } :=
      .of_removes (L := fun id ↦ id = tid) htid rfl hcur (Core.removes_removeThread tid x.core)
    dsimp only
    split
    · refine ((hremoves.trans (drained_unjoin htid _)).trans (drained_decRqLen _)).of_dead ?_
      rintro id hid rfl
      exact absurd rfl (Finset.mem_erase.mp hid).1
    next hchanged =>
      -- nothing was reported: nothing was removed either, or the thread may be lost
      refine { hremoves with kept := fun id hid hL hone ↦ ?_ }
      by_cases hne : id = tid
      · subst hne
        have hfind := (hfind (not_not.mp halive)).resolve_right hL
        have hheld := Core.held_of_not_removed hfind
          (Nat.le_trans (Nat.le_add_right _ _) hone) (Bool.eq_false_of_not_eq_true hchanged)
        have hinbox := (Core.removes_removeThread id x.core).inbox
        rw [Core.count, Core.count, hheld, Core.flying, hinbox, Core.flying]
      · exact hremoves.kept id hid hne hone

variable {cmd : MessageCmd}

/-- A command for another core than the killed ones. -/
theorem drained_scheduleOnAllOthers (h : ∀ id, cmd = .kill id → K id) (x : Section) :
    Drained K L x (x.scheduleOnAllOthers cmd) :=
  { Drained.refl (K := K) (L := L) x with
    sent := fun id hid ↦ by
      rcases List.mem_append.mp hid with hid | hid
      · exact .inl hid
      · exact .inr (h id (List.mem_singleton.mp hid).symm)
    broadcast := List.subset_append_left _ _
    died := fun _ hx hy ↦ absurd hx hy
    waiters := id }

/-- The oldest message leaves the inbox. -/
def received (rest : List MessageItem) (x : Section) : Section :=
  x.onCore fun c ↦ { c with inbox := rest }

section

variable {rest : List MessageItem}

/-- A command brings no thread. -/
theorem flying_received (hinbox : x.core.inbox = .cmd cmd :: rest) (id : Nat) :
    (x.received rest).core.flying id = x.core.flying id := by
  rw [Core.flying, Core.flying, hinbox]
  exact (List.countP_cons_of_neg Bool.false_ne_true).symm

/-- The messages behind the first one. -/
theorem mem_of_received {item other : MessageItem} (hinbox : x.core.inbox = item :: rest)
    (hmem : other ∈ x.core.inbox) (hne : other ≠ item) : other ∈ rest := by
  rw [hinbox] at hmem
  exact (List.mem_cons.mp hmem).resolve_left hne

private theorem drained_received (hinbox : x.core.inbox = .cmd cmd :: rest)
    (hcmd : ∀ tid, cmd ≠ .joinTargetExited tid) : Drained K L x (x.received rest) := by
  refine .of_count rfl rfl (fun _ ↦ id) (fun _ ↦ id) (fun _ ↦ id)
    (fun id ↦ congrArg₂ (· + ·) rfl (flying_received hinbox id))
    (fun id hid ↦ .inl (hinbox ▸ List.mem_cons_of_mem _ hid)) fun entry _ hmem ↦ ?_
  refine mem_of_received hinbox hmem ?_
  rintro ⟨rfl⟩
  exact hcmd entry.1 rfl

private theorem drained_joinTargetExited
    (hinbox : x.core.inbox = .cmd (.joinTargetExited tid) :: rest) :
    Drained K L x ((x.received rest).onCore (·.wakeJoiners tid)) := by
  have hwakes := Core.wakes_wakeJoiners tid (x.received rest).core
  refine .of_count rfl rfl (fun _ ↦ id) (fun _ ↦ id) hwakes.joining
    (fun id ↦ congrArg₂ (· + ·) (hwakes.held id) (flying_received hinbox id))
    (fun id hid ↦ .inl (hinbox ▸ List.mem_cons_of_mem _ hid)) fun entry hentry hmem ↦ ?_
  refine mem_of_received hinbox hmem ?_
  rintro ⟨rfl⟩
  exact (Core.mem_joinMap_wakeJoiners.mp hentry).2 rfl

/-- A thread that leaves its message for the ready queue is in one place as before. -/
theorem count_thread (hinbox : x.core.inbox = .thread thread :: rest) (id : Nat) :
    (({ x.core with inbox := rest }.pushFront [thread]).incRqLen 1).count id =
      x.core.count id := by
  have hflying : x.core.flying id = rest.countP (MessageItem.Brings id) +
      if thread.id = id then 1 else 0 := by
    rw [Core.flying, hinbox, List.countP_cons]
    simp only [MessageItem.Brings, decide_eq_true_eq]
  have hheld : { x.core with inbox := rest }.held id = x.core.held id := rfl
  rw [Core.count, Core.held_incRqLen, Core.held_pushFront, occurs_singleton, Core.count,
    hflying, hheld]
  change _ + rest.countP (MessageItem.Brings id) = _
  omega

private theorem drained_thread (hinbox : x.core.inbox = .thread thread :: rest) :
    Drained K L x
      (x.onCore fun c ↦ ({ c with inbox := rest }.pushFront [thread]).incRqLen 1) :=
  .of_count rfl rfl (fun _ ↦ id) (fun _ ↦ id) (fun _ ↦ id) (count_thread hinbox)
    (fun _ hid ↦ .inl (hinbox ▸ List.mem_cons_of_mem _ hid))
    fun _ _ hmem ↦ mem_of_received hinbox hmem nofun

end

private theorem drained_killSelf (htid : K tid) (size : Nat) (x : Section) :
    Drained K L x (x.onCore fun c ↦ (c.trySend size (.cmd (.kill tid))).getD c) := by
  rw [onCore, Core.trySend]
  split
  · refine .of_count rfl rfl (fun _ ↦ id) (fun _ ↦ id) (fun _ ↦ id)
      (fun id ↦ congrArg₂ (· + ·) rfl (Core.flying_append_cmds id x.core [.kill tid]))
      (fun id hid ↦ ?_) fun _ _ ↦ List.mem_append_left _
    rcases List.mem_append.mp hid with hid | hid
    · exact .inl hid
    · cases List.mem_singleton.mp hid
      exact .inr htid
  · exact .refl x

/-- A condition on the thread and the core holds whenever a message kills a thread, for the
messages that a drain of the inbox takes. -/
def DrainMeets (P : Nat → Core → Prop) (size : Nat) : Nat → Section → Prop
  | 0, _ => True
  | max + 1, x =>
    match x.core.inbox with
    | [] => True
    | .thread thread :: rest =>
      DrainMeets P size max
        (x.onCore fun c ↦ ({ c with inbox := rest }.pushFront [thread]).incRqLen 1)
    | .cmd cmd :: rest =>
      (∀ tid ∈ x.activeTids, cmd = .kill tid → P tid x.core) ∧
        match handleInboxCmd size cmd (x.received rest) with
        | .ok y => DrainMeets P size max y
        | .error _ => True

instance DrainMeets.decidable {P : Nat → Core → Prop} [∀ tid c, Decidable (P tid c)] (size : Nat) :
    ∀ (max : Nat) (x : Section), Decidable (x.DrainMeets P size max)
  | 0, _ => .isTrue trivial
  | max + 1, x => by
    unfold DrainMeets
    exact
      match x.core.inbox with
      | [] => .isTrue trivial
      | .thread thread :: rest => DrainMeets.decidable size max _
      | .cmd cmd :: rest =>
        have : Decidable (match handleInboxCmd size cmd (x.received rest) with
            | .ok y => DrainMeets P size max y
            | .error _ => True) :=
          match handleInboxCmd size cmd (x.received rest) with
          | .ok y => DrainMeets.decidable size max y
          | .error _ => .isTrue trivial
        inferInstanceAs (Decidable (_ ∧ _))

variable {size : Nat}

private theorem drained_handleInboxCmd {rest : List MessageItem}
    (hinbox : x.core.inbox = .cmd cmd :: rest) (hK : ∀ id, cmd = .kill id → K id)
    (hfind : ∀ tid ∈ x.activeTids, cmd = .kill tid → x.core.FindsAsleep tid ∨ L tid)
    (h : (x.received rest).handleInboxCmd size cmd = .ok y) : Drained K L x y := by
  cases cmd with
  | joinTargetExited tid =>
    cases h
    exact drained_joinTargetExited hinbox
  | deblock pid tid =>
    have hrest := drained_received (K := K) (L := L) hinbox fun _ ↦ MessageCmd.noConfusion
    rw [handleInboxCmd] at h
    split at h
    · cases h
      exact hrest
    · split at h
      next hmem =>
        cases h
        exact hrest.trans ((Drained.of_wakes (Core.wakes_wakeBlocked hmem)).trans
          (drained_incRqLen 1 _))
      next =>
        cases h
        exact hrest
  | kill tid =>
    have hrest := drained_received (K := K) (L := L) hinbox fun _ ↦ MessageCmd.noConfusion
    have htid := hK tid rfl
    rw [handleInboxCmd] at h
    split at h
    · cases h
      exact hrest
    · obtain ⟨thread, hthread, h⟩ := of_bind h
      split at h
      · cases h
        refine (hrest.trans (drained_killSelf htid size _)).trans
          (drained_scheduleOnAllOthers ?_ _)
        rintro id ⟨rfl⟩
        exact htid
      next hne =>
        cases h
        refine hrest.trans (drained_killLocally (fun _ ↦ htid) (fun cur hcur ↦ ?_)
          fun halive ↦ hfind tid halive rfl)
        rwa [Option.some.inj (hcur.symm.trans (current_eq_ok hthread))]

/-- A condition that holds of every thread that may be killed is met by every drain. -/
theorem drainMeets_of_kills {P : Nat → Core → Prop} {max : Nat}
    (h : ∀ id, .cmd (.kill id) ∈ x.core.inbox → ∀ c, P id c) : x.DrainMeets P size max := by
  induction max generalizing x with
  | zero => trivial
  | succ max ih =>
    rw [DrainMeets]
    split
    next => trivial
    next thread rest hinbox =>
      have hstep := drained_thread (K := fun id ↦ ∀ c, P id c) (L := fun _ ↦ True) hinbox
      exact ih (hstep.kills h)
    next cmd rest hinbox =>
      have hcmd : ∀ id, cmd = .kill id → ∀ c, P id c := by
        rintro id rfl
        exact h id (hinbox ▸ List.mem_cons_self)
      refine ⟨fun tid _ htid ↦ hcmd tid htid _, ?_⟩
      split
      next y hy =>
        have hstep := drained_handleInboxCmd (L := fun _ ↦ True) hinbox hcmd
          (fun _ _ _ ↦ .inr trivial) hy
        exact ih (hstep.kills h)
      next => trivial

/-- Draining the inbox: the induction is on the number of messages that may be taken. -/
theorem drained_drainInboxIntoReady {max drained : Nat}
    (hK : ∀ id, .cmd (.kill id) ∈ x.core.inbox → K id)
    (hfind : x.DrainMeets (fun tid c ↦ c.FindsAsleep tid ∨ L tid) size max)
    (h : x.drainInboxIntoReady size max drained = .ok y) : Drained K L x y := by
  have hflag : ∀ (drained : Nat) (x : Section), Drained K L x
      (if 0 < drained then x.onCore fun c ↦ { c with reschedFlag := false } else x) := by
    intro drained x
    split
    · exact drained_reschedFlag false x
    · exact .refl x
  induction max generalizing drained x with
  | zero =>
    cases h
    exact hflag drained x
  | succ max ih =>
    rw [drainInboxIntoReady] at h
    rw [DrainMeets] at hfind
    split at h
    next =>
      cases h
      exact hflag drained x
    next thread rest hinbox =>
      rw [hinbox] at hfind
      have hstep := drained_thread (K := K) (L := L) hinbox
      exact hstep.trans (ih (hstep.kills hK) hfind h)
    next cmd rest hinbox =>
      obtain ⟨x', hx', h⟩ := of_bind h
      rw [hinbox] at hfind
      obtain ⟨hcmd, hfind⟩ := hfind
      rw [received, hx'] at hfind
      have hstep : Drained K L x x' := by
        refine drained_handleInboxCmd hinbox ?_ hcmd hx'
        rintro id rfl
        exact hK id (hinbox ▸ List.mem_cons_self)
      exact hstep.trans (ih (hstep.kills hK) hfind h)

end Section

end D3OS.Scheduler
