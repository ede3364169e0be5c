import D3OS.Process.Outcomes

/-!
# Threads that are to be killed

A thread that was not found on the core of the caller is killed by a command that every other core
gets. `Marked` says that the command is still ahead of the thread on its core: it is in the inbox,
behind any message that brings the thread. Handling messages keeps this until the thread is dead
and gone, as long as the searches find the thread where it is.
-/

namespace D3OS.Scheduler

open Lib

/-- Every message that brings the thread is followed by a command that kills it. -/
def Guarded (tid : Nat) : List MessageItem → Prop
  | [] => True
  | .thread thread :: rest => (thread.id = tid → .cmd (.kill tid) ∈ rest) ∧ Guarded tid rest
  | .cmd _ :: rest => Guarded tid rest

variable {tid : Nat} {inbox : List MessageItem}

/-- Further commands do no harm. -/
theorem Guarded.append_cmds (h : Guarded tid inbox) (cmds : List MessageCmd) :
    Guarded tid (inbox ++ cmds.map .cmd) := by
  induction inbox with
  | nil =>
    induction cmds with
    | nil => trivial
    | cons cmd cmds ih => exact ih
  | cons item inbox ih =>
    cases item with
    | thread thread => exact ⟨fun hid ↦ List.mem_append_left _ (h.1 hid), ih h.2⟩
    | cmd cmd => exact ih h

/-- A kill command at the end guards the whole inbox. -/
theorem guarded_concat_kill (tid : Nat) (inbox : List MessageItem) :
    Guarded tid (inbox ++ [.cmd (.kill tid)]) := by
  induction inbox with
  | nil => trivial
  | cons item inbox ih =>
    cases item with
    | thread thread =>
      exact ⟨fun _ ↦ List.mem_append_right _ (List.mem_singleton_self _), ih⟩
    | cmd cmd => exact ih

/-- An inbox that does not bring the thread is guarded. -/
theorem guarded_of_not_brought (h : ∀ thread, .thread thread ∈ inbox → thread.id ≠ tid) :
    Guarded tid inbox := by
  induction inbox with
  | nil => trivial
  | cons item inbox ih =>
    have hrest := ih fun thread hthread ↦ h thread (List.mem_cons_of_mem _ hthread)
    cases item with
    | thread thread => exact ⟨fun hid ↦ absurd hid (h thread List.mem_cons_self), hrest⟩
    | cmd cmd => exact hrest

/-- Another thread does no harm. -/
theorem Guarded.concat_thread (h : Guarded tid inbox) {thread : Thread} (hne : thread.id ≠ tid) :
    Guarded tid (inbox ++ [.thread thread]) := by
  induction inbox with
  | nil => exact ⟨fun hid ↦ absurd hid hne, trivial⟩
  | cons item inbox ih =>
    cases item with
    | thread other => exact ⟨fun hid ↦ List.mem_append_left _ (h.1 hid), ih h.2⟩
    | cmd cmd => exact ih h

namespace Core

/-- If the thread is on the core, the command that kills it is in the inbox. -/
structure Marked (tid : Nat) (c : Core) : Prop where
  pending : 0 < c.held tid → .cmd (.kill tid) ∈ c.inbox
  guarded : Guarded tid c.inbox

variable {tid : Nat} {c : Core}

/-- Losing threads does no harm. -/
theorem Marked.of_held_le {c' : Core} (h : c.Marked tid) (hheld : c'.held tid ≤ c.held tid)
    (hinbox : c'.inbox = c.inbox) : c'.Marked tid := by
  refine ⟨fun hpos ↦ ?_, ?_⟩
  · rw [hinbox]
    exact h.pending (Nat.lt_of_lt_of_le hpos hheld)
  · rw [hinbox]
    exact h.guarded

/-- A thread that is not in a marked inbox and has no kill command ahead is not on the core. -/
theorem Marked.count_eq_zero (h : c.Marked tid) (hnone : .cmd (.kill tid) ∉ c.inbox) :
    c.count tid = 0 := by
  have hheld : c.held tid = 0 := by
    by_contra hne
    exact hnone (h.pending (Nat.pos_of_ne_zero hne))
  have hflying : c.flying tid = 0 := by
    have hguarded := h.guarded
    rw [flying, List.countP_eq_zero]
    revert hnone hguarded
    induction c.inbox with
    | nil =>
      intro _ _ item hitem
      cases hitem
    | cons item inbox ih =>
      intro hnone hguarded other hother
      rw [List.mem_cons, not_or] at hnone
      cases item with
      | thread thread =>
        rcases List.mem_cons.mp hother with rfl | hother
        · intro hbrings
          exact hnone.2 (hguarded.1 (of_decide_eq_true hbrings))
        · exact ih hnone.2 hguarded.2 other hother
      | cmd cmd =>
        rcases List.mem_cons.mp hother with rfl | hother
        · exact Bool.false_ne_true
        · exact ih hnone.2 hguarded other hother
  rw [count, hheld, hflying]

/-- The searches of `kill_locally` report a thread exactly if it is on the core: it runs, it is in
the ready queue, it sleeps while the ready queue has not exactly one thread, or the ready queue is
empty. -/
def FindsThread (tid : Nat) (c : Core) : Prop :=
  (∃ cur, c.currentThread = some cur ∧ cur.id = tid) ∨
  (∃ thread ∈ c.readyQueue, thread.id = tid) ∨
  (∃ entry ∈ c.sleepList, entry.1.id = tid) ∧ c.readyQueue.length ≠ 1 ∨ c.readyQueue = []

instance (tid : Nat) (c : Core) : Decidable (c.FindsThread tid) :=
  have : Decidable (∃ cur, c.currentThread = some cur ∧ cur.id = tid) :=
    inferInstanceAs (Decidable (∃ cur, cur ∈ c.currentThread ∧ cur.id = tid))
  inferInstanceAs (Decidable (_ ∨ _ ∨ _ ∨ _))

private theorem removeThread_finds (hfind : c.FindsThread tid)
    (hcur : ∀ cur, c.currentThread = some cur → cur.id ≠ tid) (hone : c.held tid ≤ 1) :
    if (c.removeThread tid).1 then 0 < c.held tid ∧ (c.removeThread tid).2.held tid = 0
    else c.held tid = 0 := by
  have hcurrent : occurs tid c.currentThread.toList = 0 := by
    cases hc : c.currentThread with
    | none => rfl
    | some cur =>
      rw [Option.toList_some, occurs_singleton, if_neg (hcur cur hc)]
  have hlength : 0 < occurs tid c.readyQueue ∨
      0 < occurs tid (c.sleepList.map Prod.fst) ∧ c.readyQueue.length ≠ 1 ∨
        c.readyQueue.length = 0 := by
    rcases hfind with ⟨cur, hc, hid⟩ | hmem | hsleep | hempty
    · exact absurd hid (hcur cur hc)
    · exact .inl ((occurs_pos_iff tid c.readyQueue).mpr hmem)
    · exact .inr (.inl ⟨occurs_map_pos_iff.mpr hsleep.1, hsleep.2⟩)
    · exact .inr (.inr (List.length_eq_zero_iff.mpr hempty))
  have hheld := held_eq tid c
  rw [removeThread_eq]
  split
  · simp only [held_searched, and_self, if_true, Bool.false_eq_true, false_and, if_false]
    omega
  · split
    · simp only [held_searched, and_self, if_true, Bool.false_eq_true, false_and, if_false]
      omega
    · split
      · simp only [held_searched, and_self, if_true, Bool.false_eq_true, false_and, if_false]
        omega
      · simp only [held_searched, and_self, if_true, Bool.false_eq_true, false_and, if_false,
          decide_eq_true_eq]
        split <;> omega

end Core

namespace Section

variable {size tid : Nat} {x y z : Section}

/-- What a section means for a thread that is to be killed: it stays marked while it lives, and it
dies only where it is and is gone then. -/
structure Hunts (size tid : Nat) (x y : Section) : Prop where
  marked : tid ∈ y.activeTids → x.core.Marked tid → y.core.Marked tid
  gone : tid ∈ x.activeTids → tid ∉ y.activeTids → 0 < x.core.count tid ∧ y.core.count tid = 0
  room : x.core.inbox.length ≤ size → y.core.inbox.length ≤ size
  alive : tid ∈ y.activeTids → tid ∈ x.activeTids
  count_le : y.core.count tid ≤ x.core.count tid
  current : y.core.currentThread = x.core.currentThread

/-- Nothing is done. -/
theorem Hunts.refl (x : Section) : Hunts size tid x x :=
  ⟨fun _ h ↦ h, fun h h' ↦ absurd h h', fun h ↦ h, fun h ↦ h, Nat.le_refl _, rfl⟩

/-- One after the other. -/
theorem Hunts.trans (hxy : Hunts size tid x y) (hyz : Hunts size tid y z) : Hunts size tid x z where
  marked hz hx := hyz.marked hz (hxy.marked (hyz.alive hz) hx)
  gone hx hz := by
    by_cases hy : tid ∈ y.activeTids
    · obtain ⟨hpos, hzero⟩ := hyz.gone hy hz
      exact ⟨Nat.lt_of_lt_of_le hpos hxy.count_le, hzero⟩
    · obtain ⟨hpos, hzero⟩ := hxy.gone hx hy
      have := hyz.count_le
      exact ⟨hpos, by omega⟩
  room h := hyz.room (hxy.room h)
  alive h := hxy.alive (hyz.alive h)
  count_le := hyz.count_le.trans hxy.count_le
  current := hyz.current.trans hxy.current

private theorem Hunts.of_held {c : Core} (hheld : c.held tid = x.core.held tid)
    (hinbox : c.inbox = x.core.inbox) (hcurrent : c.currentThread = x.core.currentThread) :
    Hunts size tid x { x with core := c } where
  marked _ h := h.of_held_le (Nat.le_of_eq hheld) hinbox
  gone h h' := absurd h h'
  room h := by rwa [hinbox]
  alive h := h
  count_le := by simp only [Core.count, Core.flying, hheld, hinbox, Nat.le_refl]
  current := hcurrent

/-- Waking threads does no harm. -/
theorem Hunts.of_wakes {c : Core} (h : x.core.Wakes c) : Hunts size tid x { x with core := c } :=
  .of_held (h.held tid) h.inbox h.current

/-- Commands for other cores do not matter here. -/
theorem hunts_scheduleOnAllOthers (cmd : MessageCmd) (x : Section) :
    Hunts size tid x (x.scheduleOnAllOthers cmd) :=
  ⟨fun _ h ↦ h, fun h h' ↦ absurd h h', fun h ↦ h, fun h ↦ h, Nat.le_refl _, rfl⟩

private theorem hunts_trySend (cmd : MessageCmd) (x : Section) :
    Hunts size tid x (x.onCore fun c ↦ (c.trySend size (.cmd cmd)).getD c) := by
  rw [onCore, Core.trySend]
  split
  next hlt =>
    refine ⟨fun _ h ↦ ⟨fun hpos ↦ ?_, ?_⟩, fun h h' ↦ absurd h h', fun _ ↦ ?_, fun h ↦ h, ?_, rfl⟩
    · exact List.mem_append_left _ (h.pending hpos)
    · exact h.guarded.append_cmds [cmd]
    · exact (List.length_append ..).trans_le hlt
    · exact Nat.le_of_eq (congrArg₂ (· + ·) rfl (Core.flying_append_cmds tid x.core [cmd]))
  next => exact .refl x

/-- The end of another thread. -/
theorem hunts_endThread {other : Nat} (hne : tid ≠ other) (x : Section) :
    Hunts size tid x (x.endThread other) where
  marked _ h := h.of_held_le
    (Nat.le_of_eq ((Core.held_decRqLen _ _).trans ((Core.wakes_wakeJoiners other _).held tid))) rfl
  gone h h' := absurd (Finset.mem_erase.mpr ⟨hne, h⟩) h'
  room h := h
  alive h := (Finset.mem_erase.mp h).2
  count_le := by
    refine Nat.le_of_eq (congrArg₂ (· + ·) ?_ rfl)
    exact (Core.held_decRqLen _ _).trans ((Core.wakes_wakeJoiners other _).held tid)
  current := rfl

/-- Killing another thread. -/
theorem hunts_killLocally_ne {other : Nat} (hne : tid ≠ other) (x : Section) :
    Hunts size tid x (x.killLocally other).2 := by
  have hremoves := Core.removes_removeThread other x.core
  have hremoved : Hunts size tid x { x with core := (x.core.removeThread other).2 } :=
    .of_held (hremoves.held_eq tid hne) hremoves.inbox hremoves.current
  rw [killLocally]
  split
  · exact .refl x
  · dsimp only
    split
    · exact hremoved.trans (hunts_endThread hne _)
    · exact hremoved

/-- The search is not in the inbox. -/
theorem inbox_killLocally (tid : Nat) (x : Section) :
    (x.killLocally tid).2.core.inbox = x.core.inbox := by
  have hinbox := (Core.removes_removeThread tid x.core).inbox
  rw [killLocally]
  split
  · rfl
  · dsimp only
    split
    · exact hinbox
    · exact hinbox

/-- Killing the thread itself: it is found and gone, or it was not on the core. -/
theorem killLocally_finds (hfind : x.core.FindsThread tid)
    (hcur : ∀ cur, x.core.currentThread = some cur → cur.id ≠ tid)
    (hone : x.core.count tid ≤ 1) (halive : tid ∈ x.activeTids) :
    ((x.killLocally tid).1 = true ∧ tid ∉ (x.killLocally tid).2.activeTids ∧
      0 < x.core.count tid ∧ (x.killLocally tid).2.core.count tid = 0) ∨
    ((x.killLocally tid).1 = false ∧ tid ∈ (x.killLocally tid).2.activeTids ∧
      (x.killLocally tid).2.core.held tid = 0) := by
  have hspec := Core.removeThread_finds hfind hcur
    (Nat.le_trans (Nat.le_add_right _ _) hone)
  have hremoves := Core.removes_removeThread tid x.core
  rw [killLocally, if_neg (not_not.mpr halive)]
  by_cases hchanged : (x.core.removeThread tid).1 = true
  · simp only [if_pos hchanged]
    rw [if_pos hchanged] at hspec
    obtain ⟨hpos, hzero⟩ := hspec
    have hheld : (Section.endThread tid
        { x with core := (x.core.removeThread tid).2 }).core.held tid = 0 :=
      ((Core.held_decRqLen _ _).trans ((Core.wakes_wakeJoiners tid _).held tid)).trans hzero
    have hflying : (Section.endThread tid
        { x with core := (x.core.removeThread tid).2 }).core.flying tid = x.core.flying tid := by
      change (x.core.removeThread tid).2.flying tid = _
      rw [Core.flying, hremoves.inbox, Core.flying]
    rw [Core.count] at hone
    refine .inl ⟨trivial, fun hmem ↦ absurd rfl (Finset.mem_erase.mp hmem).1, ?_, ?_⟩
    · exact Nat.lt_of_lt_of_le hpos (Nat.le_add_right _ _)
    · rw [Core.count, hheld, hflying]
      omega
  · simp only [if_neg hchanged]
    rw [if_neg hchanged] at hspec
    exact .inr ⟨trivial, halive, Nat.le_zero.mp (hspec ▸ hremoves.held_le tid)⟩

variable {rest : List MessageItem}

private theorem hunts_received {cmd : MessageCmd} (hinbox : x.core.inbox = .cmd cmd :: rest)
    (hcmd : cmd ≠ .kill tid) : Hunts size tid x (x.received rest) where
  marked _ h := by
    have hguarded := h.guarded
    rw [hinbox] at hguarded
    refine ⟨fun hpos ↦ ?_, hguarded⟩
    exact mem_of_received hinbox (h.pending hpos) fun heq ↦ hcmd (MessageItem.cmd.inj heq).symm
  gone h h' := absurd h h'
  room h := by
    rw [hinbox, List.length_cons] at h
    exact Nat.le_of_succ_le h
  alive h := h
  count_le := Nat.le_of_eq (congrArg₂ (· + ·) rfl (flying_received hinbox tid))
  current := rfl

private theorem hunts_thread {thread : Thread} (hinbox : x.core.inbox = .thread thread :: rest) :
    Hunts size tid x
      (x.onCore fun c ↦ ({ c with inbox := rest }.pushFront [thread]).incRqLen 1) := by
  refine ⟨fun _ h ↦ ?_, fun h h' ↦ absurd h h', fun h ↦ ?_, fun h ↦ h,
    Nat.le_of_eq (count_thread hinbox tid), rfl⟩
  · have hguarded := h.guarded
    rw [hinbox] at hguarded
    refine ⟨fun hpos ↦ ?_, hguarded.2⟩
    by_cases hid : thread.id = tid
    · exact hguarded.1 hid
    · refine mem_of_received hinbox (h.pending ?_) nofun
      change 0 < (({ x.core with inbox := rest }.pushFront [thread]).incRqLen 1).held tid at hpos
      rwa [Core.held_incRqLen, Core.held_pushFront, occurs_singleton, if_neg hid] at hpos
  · rw [hinbox, List.length_cons] at h
    exact Nat.le_of_succ_le h

/-- The thread is current or in at most one place: in between, a thread that gives up its core
counts twice. -/
def Single (tid : Nat) (x : Section) : Prop :=
  (∃ cur, x.core.currentThread = some cur ∧ cur.id = tid) ∨ x.core.count tid ≤ 1

/-- The thread is not doubled. -/
theorem Hunts.single (h : Hunts size tid x y) (hx : x.Single tid) : y.Single tid := by
  rcases hx with ⟨cur, hcur, hid⟩ | hone
  · exact .inl ⟨cur, h.current.trans hcur, hid⟩
  · exact .inr (h.count_le.trans hone)

private theorem hunts_handleKill (hinbox : x.core.inbox = .cmd (.kill tid) :: rest)
    (hroom : x.core.inbox.length ≤ size) (hfind : tid ∈ x.activeTids → x.core.FindsThread tid)
    (hsingle : x.Single tid) (h : (x.received rest).handleInboxCmd size (.kill tid) = .ok y) :
    Hunts size tid x y := by
  have hcount : (x.received rest).core.count tid = x.core.count tid :=
    congrArg₂ (· + ·) rfl (flying_received hinbox tid)
  have hlength : rest.length + 1 ≤ size := by
    rwa [hinbox, List.length_cons] at hroom
  rw [handleInboxCmd] at h
  split at h
  next hdead =>
    cases h
    exact ⟨fun h ↦ absurd h hdead, fun h ↦ absurd h hdead, fun _ ↦ Nat.le_of_succ_le hlength,
      fun h ↦ h, Nat.le_of_eq hcount, rfl⟩
  next halive =>
    have halive : tid ∈ x.activeTids := not_not.mp halive
    obtain ⟨cur, hcur, h⟩ := of_bind h
    have hcur := current_eq_ok hcur
    split at h
    next hid =>
      -- the thread runs: the core sends the command to itself again
      cases h
      have hsend : ((x.received rest).core.trySend size (.cmd (.kill tid))).getD
          (x.received rest).core = { x.core with inbox := rest ++ [.cmd (.kill tid)] } := by
        have hlt : (x.received rest).core.inbox.length < size := Nat.lt_of_succ_le hlength
        rw [Core.trySend, if_pos hlt]
        rfl
      have hcore : (((x.received rest).onCore fun c ↦
          (c.trySend size (.cmd (.kill tid))).getD c).scheduleOnAllOthers (.kill tid)).core =
          { x.core with inbox := rest ++ [.cmd (.kill tid)] } := hsend
      refine ⟨fun _ _ ↦ ?_, fun h h' ↦ absurd h h', fun _ ↦ ?_, fun h ↦ h, ?_, ?_⟩
      · rw [hcore]
        exact ⟨fun _ ↦ List.mem_append_right _ (List.mem_singleton_self _),
          guarded_concat_kill tid rest⟩
      · rw [hcore, List.length_append]
        exact hlength
      · rw [hcore]
        refine Nat.le_of_eq ((congrArg₂ (· + ·) rfl ?_).trans hcount)
        exact Core.flying_append_cmds tid (x.received rest).core [.kill tid]
      · rw [hcore]
    next hne =>
      cases h
      have hcur' : ∀ t, (x.received rest).core.currentThread = some t → t.id ≠ tid := by
        intro t ht
        rwa [Option.some.inj (ht.symm.trans hcur)]
      have hone : (x.received rest).core.count tid ≤ 1 := by
        rw [hcount]
        refine hsingle.resolve_left ?_
        rintro ⟨t, ht, hid⟩
        exact hcur' t ht hid
      have hdrained := drained_killLocally (K := fun _ ↦ True) (L := fun _ ↦ True)
        (x := x.received rest) (fun _ ↦ trivial) hcur' fun _ ↦ .inr trivial
      have hinbox' := inbox_killLocally tid (x.received rest)
      have hroom' : ((x.received rest).killLocally tid).2.core.inbox.length ≤ size := by
        rw [hinbox']
        exact Nat.le_of_succ_le hlength
      have hle := (hdrained.count_le tid).trans (Nat.le_of_eq hcount)
      rcases killLocally_finds (x := x.received rest) (hfind halive) hcur' hone halive with
        ⟨-, hdead, hpos, hzero⟩ | ⟨-, halive', hheld⟩
      · exact ⟨fun h ↦ absurd h hdead, fun _ _ ↦ ⟨hcount ▸ hpos, hzero⟩, fun _ ↦ hroom',
          fun _ ↦ halive, hle, hdrained.current⟩
      · refine ⟨fun _ hx ↦ ⟨fun hpos ↦ ?_, ?_⟩, fun _ h ↦ absurd halive' h, fun _ ↦ hroom',
          fun _ ↦ halive, hle, hdrained.current⟩
        · omega
        · have hguarded := hx.guarded
          rw [hinbox] at hguarded
          rw [hinbox']
          exact hguarded

private theorem hunts_handleInboxCmd {cmd : MessageCmd} (hinbox : x.core.inbox = .cmd cmd :: rest)
    (hroom : x.core.inbox.length ≤ size)
    (hfind : ∀ id ∈ x.activeTids, cmd = .kill id → x.core.FindsThread id) (hsingle : x.Single tid)
    (h : (x.received rest).handleInboxCmd size cmd = .ok y) : Hunts size tid x y := by
  by_cases hcmd : cmd = .kill tid
  · subst hcmd
    exact hunts_handleKill hinbox hroom (fun halive ↦ hfind tid halive rfl) hsingle h
  have hrest : Hunts size tid x (x.received rest) := hunts_received hinbox hcmd
  cases cmd with
  | joinTargetExited id =>
    cases h
    exact hrest.trans (.of_wakes (Core.wakes_wakeJoiners id _))
  | deblock pid id =>
    rw [handleInboxCmd] at h
    split at h
    · cases h
      exact hrest
    · split at h
      next hmem =>
        cases h
        refine hrest.trans (.of_held ?_ rfl rfl)
        exact (Core.wakes_wakeBlocked hmem).held tid
      next =>
        cases h
        exact hrest
  | kill other =>
    have hne : tid ≠ other := fun heq ↦ hcmd (heq ▸ rfl)
    rw [handleInboxCmd] at h
    split at h
    · cases h
      exact hrest
    · obtain ⟨cur, hcur, h⟩ := of_bind h
      split at h
      · cases h
        exact (hrest.trans (hunts_trySend _ _)).trans (hunts_scheduleOnAllOthers _ _)
      · cases h
        exact hrest.trans (hunts_killLocally_ne hne _)

/-- Draining the inbox: the induction is on the number of messages that may be taken. -/
theorem hunts_drainInboxIntoReady {max drained : Nat} (hroom : x.core.inbox.length ≤ size)
    (hfind : x.DrainMeets (fun id c ↦ c.FindsThread id) size max) (hsingle : x.Single tid)
    (h : x.drainInboxIntoReady size max drained = .ok y) : Hunts size tid x y := by
  have hflag : ∀ (drained : Nat) (x : Section), Hunts size tid x
      (if 0 < drained then x.onCore fun c ↦ { c with reschedFlag := false } else x) := by
    intro drained x
    split
    · exact .of_held rfl rfl rfl
    · exact .refl x
  induction max generalizing drained x with
  | zero =>
    cases h
    exact hflag drained x
  | succ max ih =>
    rw [drainInboxIntoReady] at h
    rw [DrainMeets] at hfind
    split at h
    next =>
      cases h
      exact hflag drained x
    next thread rest hinbox =>
      rw [hinbox] at hfind
      have hstep : Hunts size tid x (x.onCore fun c ↦
          ({ c with inbox := rest }.pushFront [thread]).incRqLen 1) := hunts_thread hinbox
      exact hstep.trans (ih (hstep.room hroom) hfind (hstep.single hsingle) h)
    next cmd rest hinbox =>
      obtain ⟨x', hx', h⟩ := of_bind h
      rw [hinbox] at hfind
      obtain ⟨hcmd, hfind⟩ := hfind
      rw [received, hx'] at hfind
      have hstep := hunts_handleInboxCmd hinbox hroom hcmd hsingle hx'
      exact hstep.trans (ih (hstep.room hroom) hfind (hstep.single hsingle) h)

end Section

end D3OS.Scheduler
