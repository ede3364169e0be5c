import D3OS.Process.KillMessages
import D3OS.Process.JoinWaiters

/-!
# Killed threads are gone

A thread that is killed stays marked on every core until it is dead, and is in no place once no
command that kills it is left. This holds in every run whose searches find the thread where it is
(`FindsThread`) and in which no kill misses the thread on its way (`KillsReach`).
-/

namespace D3OS.Scheduler

open Lib

variable {time pid : Nat}

namespace Section

variable {size tid : Nat} {x y z : Section}

/-- What a whole section means for a thread that is to be killed. -/
structure Pursues (size tid : Nat) (x y : Section) : Prop where
  marked : tid ∈ y.activeTids → x.core.Marked tid → y.core.Marked tid
  gone : tid ∈ x.activeTids → tid ∉ y.activeTids → 0 < x.core.count tid ∧ y.core.count tid = 0
  room : x.core.inbox.length ≤ size → y.core.inbox.length ≤ size

private theorem Hunts.pursues (h : Hunts size tid x y) : Pursues size tid x y :=
  ⟨h.marked, h.gone, h.room⟩

private theorem Pursues.refl (x : Section) : Pursues size tid x x := (Hunts.refl x).pursues

private theorem Pursues.of_held_le (halive : x.activeTids ⊆ y.activeTids)
    (hheld : y.core.held tid ≤ x.core.held tid) (hinbox : y.core.inbox = x.core.inbox) :
    Pursues size tid x y :=
  ⟨fun _ h ↦ h.of_held_le hheld hinbox, fun h h' ↦ absurd (halive h) h', fun h ↦ hinbox ▸ h⟩

private theorem pursues_blockAndSwitch {b : Bool} {cur : Thread}
    (hcur : x.core.currentThread = some cur) (hroom : x.core.inbox.length ≤ size)
    (hidle : tid ≠ x.core.idleThread.id)
    (hfind : x.BlockMeets (fun id c ↦ c.FindsThread id) size time) (hsingle : x.Single tid)
    (h : x.blockAndSwitch size time = .ok (b, y)) :
    Pursues size tid x y ∧ (tid ∈ y.activeTids → tid ∈ x.activeTids) := by
  have hany : x.BlockMeets (fun id c ↦ c.FindsAsleep id ∨ True) size time :=
    fun _ ↦ drainMeets_of_kills fun _ _ _ ↦ .inr trivial
  obtain ⟨z, hxz, hidlez, hswitch⟩ : ∃ z, Hunts size tid x z ∧
      z.core.idleThread = x.core.idleThread ∧ Switches cur z y := by
    rcases blockAndSwitch_eq_ok hcur h with hswitch | ⟨hempty, z, hz, hswitch⟩
    · exact ⟨x, .refl x, rfl, hswitch⟩
    · have hsleep : Hunts size tid x (x.onCore (·.checkSleepList time)) :=
        .of_wakes (Core.wakes_checkSleepList time x.core)
      have hxz := hsleep.trans (hunts_drainInboxIntoReady (hsleep.room hroom) (hfind hempty)
        (hsleep.single hsingle) hz)
      have hidle := (drained_drainInboxIntoReady (K := fun _ ↦ True) (L := fun _ ↦ True)
        (fun _ _ ↦ trivial) (hany hempty) hz).idle
      exact ⟨z, hxz, hidle, hswitch (hxz.current.trans hcur)⟩
  rw [← hidlez] at hidle
  have hheld := hswitch.held tid hidle
  have hcount := hswitch.count hidle
  obtain ⟨queue, next, rfl⟩ := hswitch.core
  refine ⟨⟨fun hy hx ↦ ?_, fun hx hy ↦ ?_, hxz.room⟩, hxz.alive⟩
  · exact (hxz.marked hy hx).of_held_le (by omega) rfl
  · obtain ⟨hpos, hzero⟩ := hxz.gone hx hy
    exact ⟨hpos, by omega⟩

private theorem Parks.pursues {cur : Thread} {place : Waiting} {b : Bool}
    (hpark : Parks cur place x y)
    (hcur : x.core.currentThread = some cur) (hroom : x.core.inbox.length ≤ size)
    (hone : x.core.count tid ≤ 1) (hidle : tid ≠ x.core.idleThread.id)
    (hfind : y.BlockMeets (fun id c ↦ c.FindsThread id) size time)
    (h : y.blockAndSwitch size time = .ok (b, z)) : Pursues size tid x z := by
  have hcount : y.core.count tid = x.core.count tid + if cur.id = tid then 1 else 0 := by
    rw [Core.count, hpark.held, Core.count, Core.flying, Core.flying, hpark.inbox]
    omega
  have hcurpos : cur.id = tid → 0 < x.core.held tid := by
    rintro rfl
    rw [Core.held_eq, hcur]
    simp only [Option.toList_some, occurs_singleton, if_true]
    omega
  have hsingle : y.Single tid := by
    by_cases hid : cur.id = tid
    · exact .inl ⟨cur, hpark.current.trans hcur, hid⟩
    · rw [Single, hcount, if_neg hid]
      exact .inr hone
  obtain ⟨hyz, -⟩ := pursues_blockAndSwitch (hpark.current.trans hcur) (hpark.inbox ▸ hroom)
    (hpark.idle ▸ hidle) hfind hsingle h
  refine ⟨fun hz hx ↦ ?_, fun hx hz ↦ ?_, hpark.inbox ▸ hyz.room⟩
  · refine hyz.marked hz ⟨fun hpos ↦ ?_, hpark.inbox ▸ hx.guarded⟩
    rw [hpark.inbox]
    refine hx.pending ?_
    rw [hpark.held] at hpos
    split at hpos
    next hid => exact hcurpos hid
    next => exact hpos
  · obtain ⟨hpos, hzero⟩ := hyz.gone (hpark.alive ▸ hx) hz
    refine ⟨?_, hzero⟩
    rw [hcount] at hpos
    split at hpos
    next hid => exact Nat.lt_of_lt_of_le (hcurpos hid) (Nat.le_add_right _ _)
    next => exact hpos

section

variable {now ms time : Nat}

section

variable (hroom : x.core.inbox.length ≤ size) (hone : x.core.count tid ≤ 1)
  (hidle : tid ≠ x.core.idleThread.id)

include hroom hone hidle

private theorem pursues_sleep
    (hfind : ∀ cur, x.core.currentThread = some cur →
      (x.onCore (·.addSleeper cur (now + ms))).BlockMeets (fun id c ↦ c.FindsThread id) size time)
    (h : x.sleep size now ms time = .ok y) : Pursues size tid x y := by
  rcases sleep_eq_ok h with rfl | ⟨cur, b, hcur, hblock⟩
  · exact .refl y
  · exact (parks_addSleeper cur _ x).pursues hcur hroom hone hidle (hfind cur hcur) hblock

private theorem pursues_block
    (hfind : ∀ cur, x.core.currentThread = some cur →
      (x.onCore (·.addBlocked cur)).BlockMeets (fun id c ↦ c.FindsThread id) size time)
    (h : x.block size time = .ok y) : Pursues size tid x y := by
  obtain ⟨cur, b, hcur, hblock⟩ := block_eq_ok h
  exact (parks_addBlocked cur x).pursues hcur hroom hone hidle (hfind cur hcur) hblock

private theorem pursues_join {target : Nat}
    (hfind : ∀ cur, x.core.currentThread = some cur →
      (x.onCore (·.addWaiter target cur)).BlockMeets (fun id c ↦ c.FindsThread id) size time)
    (h : x.join size target time = .ok y) : Pursues size tid x y := by
  rcases join_eq_ok h with rfl | ⟨halive, cur, b, hcur, hblock⟩
  · exact .refl y
  · exact (parks_addWaiter halive cur).pursues hcur hroom hone hidle (hfind cur hcur) hblock

private theorem pursues_exit
    (hfind : ∀ cur, x.core.currentThread = some cur →
      (x.endThread cur.id).BlockMeets (fun id c ↦ c.FindsThread id) size time)
    (h : x.exit size time = .ok y) : Pursues size tid x y := by
  have hexit := h
  obtain ⟨cur, hcur, h⟩ := of_bind h
  obtain ⟨⟨b, z⟩, hblock, h⟩ := of_bind h
  have hcur := current_eq_ok hcur
  cases b with
  | false => cases h
  | true =>
    cases h
    have hended : (x.endThread cur.id).core.held tid = x.core.held tid :=
      (Core.held_decRqLen _ _).trans ((Core.wakes_wakeJoiners cur.id _).held tid)
    have hsingle : (x.endThread cur.id).Single tid := by
      refine .inr ?_
      change Core.held tid _ + x.core.flying tid ≤ 1
      rw [hended]
      exact hone
    obtain ⟨hyz, halive⟩ := pursues_blockAndSwitch (x := x.endThread cur.id) hcur hroom hidle
      (hfind cur hcur) hsingle hblock
    by_cases hid : cur.id = tid
    · subst hid
      have hlt := count_exit hcur hidle hexit
      refine ⟨fun hy ↦ ?_, fun _ _ ↦ ⟨by omega, by omega⟩, hyz.room⟩
      exact absurd rfl (Finset.mem_erase.mp (halive hy)).1
    · have hend : Hunts size tid x (x.endThread cur.id) := hunts_endThread (Ne.symm hid) x
      refine ⟨fun hy hx ↦ hyz.marked hy (hend.marked (halive hy) hx), fun hx hy ↦ ?_, hyz.room⟩
      obtain ⟨hpos, hzero⟩ := hyz.gone (Finset.mem_erase.mpr ⟨Ne.symm hid, hx⟩) hy
      exact ⟨Nat.lt_of_lt_of_le hpos hend.count_le, hzero⟩

end

private theorem pursues_kill_ne {other : Nat} (hne : tid ≠ other) (h : x.kill other = .ok y) :
    Pursues size tid x y := by
  obtain ⟨cur, hcur, h⟩ := of_bind h
  split at h
  · cases h
  · have hkill : Hunts size tid x (x.killLocally other).2 := hunts_killLocally_ne hne x
    rcases hres : x.killLocally other with ⟨found, z⟩
    rw [hres] at h hkill
    cases found with
    | true =>
      cases h
      exact hkill.pursues
    | false =>
      cases h
      exact (hkill.trans (hunts_scheduleOnAllOthers _ _)).pursues

private theorem Outcome.pursues
    (h : Outcome (fun _ ↦ True) (fun _ ↦ True) (fun _ _ ↦ True) x y)
    (hidle : tid ≠ x.core.idleThread.id)
    (hinbox : y.core.inbox = x.core.inbox) (halive : x.activeTids ⊆ y.activeTids) :
    Pursues size tid x y := by
  refine .of_held_le halive ?_ hinbox
  have hle := h.count_le tid hidle
  have hflying : y.core.flying tid = x.core.flying tid := by rw [Core.flying, hinbox, Core.flying]
  rw [Core.count, Core.count, hflying] at hle
  omega

private theorem Quiet.pursues (h : Quiet (fun _ ↦ True) (fun _ ↦ True) (fun _ _ ↦ True) x y)
    (hidle : tid ≠ x.core.idleThread.id) : Pursues size tid x y :=
  h.toOutcome.pursues hidle h.inbox_eq h.alive_eq.superset

private theorem pursues_deblock {id : Nat} (hidle : tid ≠ x.core.idleThread.id) :
    Pursues size tid x (x.deblock pid id) := by
  refine Outcome.pursues (outcome_deblock fun _ _ _ _ ↦ trivial) hidle ?_ ?_
  · rw [deblock]
    split <;> rfl
  · rw [deblock]
    split
    · exact Finset.subset_insert _ _
    · exact fun _ h ↦ h

end

end Section

namespace System

variable {n : Nat} {tid : Nat} {s s' s'' : System n} {i : Fin n}

/-- No inbox has more messages than it has room for. -/
def Roomy (s : System n) : Prop := ∀ i, (s.cores i).inbox.length ≤ s.inboxSize

/-- What a step means for a thread that is to be killed. -/
structure Pursues (tid : Nat) (s s' : System n) : Prop where
  marked : tid ∈ s'.activeTids → (∀ i, (s.cores i).Marked tid) → ∀ i, (s'.cores i).Marked tid
  gone : tid ∈ s.activeTids → tid ∉ s'.activeTids → s'.count tid = 0
  room : s.Roomy → s'.Roomy
  count_le : s'.count tid ≤ s.count tid

private theorem Pursues.refl (s : System n) : Pursues tid s s :=
  ⟨fun _ h ↦ h, fun h h' ↦ absurd h h', fun h ↦ h, Nat.le_refl _⟩

private theorem Pursues.trans (h : Pursues tid s s') (h' : Pursues tid s' s'')
    (halive : tid ∈ s''.activeTids → tid ∈ s'.activeTids) : Pursues tid s s'' where
  marked hs'' hs := h'.marked hs'' (h.marked (halive hs'') hs)
  gone hs hs'' := by
    by_cases hs' : tid ∈ s'.activeTids
    · exact h'.gone hs' hs''
    · exact Nat.le_zero.mp (h.gone hs hs' ▸ h'.count_le)
  room hs := h'.room (h.room hs)
  count_le := h'.count_le.trans h.count_le

private theorem roomy_of_leave {x : Section} (hx : x.core.inbox.length ≤ s.inboxSize)
    (h : s.leave i x = .ok s') : s'.Roomy := by
  intro j
  have hleaves := leaves_of_leave h
  rw [leave] at h
  split at h
  next hroom =>
    rw [hleaves.inboxSize]
    rcases hleaves.cores j with ⟨-, hc⟩ | ⟨hj, hc⟩ <;> rw [hc]
    · exact hx
    · rw [List.length_append, List.length_map]
      exact hroom j hj
  next => cases h

private theorem pursues_of_leave {x : Section} (hx : Section.Pursues s.inboxSize tid (s.enter i) x)
    (hone : s.count tid ≤ 1) (hle : s'.count tid ≤ s.count tid) (h : s.leave i x = .ok s') :
    Pursues tid s s' := by
  have hleaves := leaves_of_leave h
  refine ⟨fun halive hs j ↦ ?_, fun hs hs' ↦ ?_, fun hs ↦ roomy_of_leave (hx.room (hs i)) h, hle⟩
  · rcases hleaves.cores j with ⟨-, hc⟩ | ⟨-, hc⟩ <;> rw [hc]
    · exact hx.marked (hleaves.alive ▸ halive) (hs i)
    · exact ⟨fun hpos ↦ List.mem_append_left _ ((hs j).pending hpos),
        (hs j).guarded.append_cmds _⟩
  · obtain ⟨hpos, hzero⟩ := hx.gone hs (hleaves.alive ▸ hs')
    have hcount := hleaves.count tid
    have hpos : 0 < (s.cores i).count tid := hpos
    omega

/-- None of the threads that `balance_once` moves has the command that kills it in the inbox of the
core that it leaves. -/
def MovesUnmarked (s : System n) (i : Fin n) : Prop :=
  match s.balanceGoal i with
  | none => True
  | some (_, amount) =>
    ∀ thread ∈ (s.cores i).readyQueue.take amount, .cmd (.kill thread.id) ∉ (s.cores i).inbox

instance (s : System n) (i : Fin n) : Decidable (s.MovesUnmarked i) := by
  delta MovesUnmarked
  rcases s.balanceGoal i with - | ⟨-, amount⟩ <;> infer_instance

variable {target : Fin n} {amount : Nat}

private theorem marked_moveThreads (hne : target ≠ i)
    (hmoves : ∀ thread ∈ (s.cores i).readyQueue.take amount,
      .cmd (.kill thread.id) ∉ (s.cores i).inbox) (hs : ∀ j, (s.cores j).Marked tid) (j : Fin n) :
    ((moveThreads i target amount s).cores j).Marked tid := by
  refine (moveThreads_induction (P := fun k s ↦ (∀ thread ∈ (s.cores i).readyQueue.take k,
    .cmd (.kill thread.id) ∉ (s.cores i).inbox) ∧ ∀ j, (s.cores j).Marked tid) hne
    (fun _ _ h ↦ ⟨nofun, h.2⟩) ?_ ⟨hmoves, hs⟩).2 j
  rintro k s thread rest hqueue ⟨hmoves, hs⟩
  rw [hqueue, List.take_succ_cons] at hmoves
  have hid : thread.id ≠ tid := by
    rintro rfl
    refine hmoves thread List.mem_cons_self ((hs i).pending ?_)
    have hpos : 0 < occurs thread.id (s.cores i).readyQueue :=
      (occurs_pos_iff _ _).mpr ⟨thread, hqueue ▸ List.mem_cons_self, rfl⟩
    rw [Core.held_eq]
    omega
  have hmoves' := fun t ht ↦ hmoves t (List.mem_cons_of_mem _ ht)
  have hown : (s.popped i rest).cores i = popFront rest (s.cores i) := by
    rw [popped, onCore_self]
  have hpopped : ∀ k, ((s.popped i rest).cores k).Marked tid := by
    refine forall_onCore (P := fun _ ↦ Core.Marked tid) ((hs i).of_held_le ?_ rfl) hs
    simp only [popFront, Core.decRqLen, Core.held_eq, hqueue, occurs_cons]
    omega
  split
  next =>
    refine ⟨?_, forall_onCore (P := fun _ ↦ Core.Marked tid) ?_ hpopped⟩
    · rw [sent, onCore_of_ne _ (Ne.symm hne), hown]
      exact hmoves'
    · have hmarked := hpopped target
      exact ⟨fun hpos ↦ List.mem_append_left _ (hmarked.pending hpos),
        hmarked.guarded.concat_thread hid⟩
  next => exact ⟨by rw [hown]; exact hmoves', hpopped⟩

private theorem activeTids_moveThreads (hne : target ≠ i) :
    (moveThreads i target amount s).activeTids = s.activeTids := by
  refine moveThreads_induction (P := fun _ s' ↦ s'.activeTids = s.activeTids) hne
    (fun _ _ h ↦ h) ?_ rfl
  intro _ s' thread rest _ h
  split <;> exact h

private theorem roomy_moveThreads (hne : target ≠ i) (hs : s.Roomy) :
    (moveThreads i target amount s).Roomy := by
  refine moveThreads_induction (P := fun _ s ↦ s.Roomy) hne (fun _ _ h ↦ h) ?_ hs
  intro _ s thread rest _ hs
  have hpopped : (s.popped i rest).Roomy :=
    forall_onCore (P := fun _ c ↦ c.inbox.length ≤ s.inboxSize) (hs i) hs
  split
  next hlt =>
    refine forall_onCore (P := fun _ c ↦ c.inbox.length ≤ s.inboxSize) ?_ hpopped
    rw [takeIn, popped, onCore_of_ne s hne]
    exact (List.length_append ..).trans_le hlt
  next => exact hpopped

private theorem pursues_switchBalance (hidle : ∀ j, tid ≠ (s.cores j).idleThread.id)
    (hmoves : s.MovesUnmarked i) : Pursues tid s (s.switchBalance i) := by
  have heffect : Effect (fun _ ↦ True) (fun _ ↦ True) (fun _ _ _ ↦ True) s (s.switchBalance i) :=
    effect_switchBalance (.inr fun _ ↦ trivial)
  have hle := heffect.count_le tid hidle
  revert hle
  rw [switchBalance]
  split
  · rw [balanceOnce]
    split
    next => exact fun _ ↦ .refl s
    next target amount hgoal =>
      rw [MovesUnmarked, hgoal] at hmoves
      intro hle
      have hne := balanceGoal_ne hgoal
      refine ⟨fun _ hs ↦ marked_moveThreads hne hmoves hs, fun hs hs' ↦ ?_,
        roomy_moveThreads hne, hle⟩
      rw [activeTids_moveThreads hne] at hs'
      exact absurd hs hs'
  · exact fun _ ↦ .refl s

private theorem activeTids_switchBalance (s : System n) (i : Fin n) :
    (s.switchBalance i).activeTids = s.activeTids := by
  rw [switchBalance]
  split
  · rw [balanceOnce]
    split
    next => rfl
    next hgoal => exact activeTids_moveThreads (balanceGoal_ne hgoal)
  · rfl

/-- A kill does not miss the thread on its way: no message brings the thread to the core that kills
it, and balancing does not move a thread away from the command that kills it. -/
def KillsReach (s : System n) : Event n → Prop
  | .kill i tid => ∀ item ∈ (s.cores i).inbox, ¬ item.Brings tid
  | .switchThread i time sleepFree _ =>
    match s.switchDrain i time sleepFree with
    | .ok s' => s'.MovesUnmarked i
    | .error _ => True
  | _ => True

instance (s : System n) (e : Event n) : Decidable (s.KillsReach e) := by
  rcases e <;> dsimp only [KillsReach]
  case switchThread i time sleepFree _ =>
    rcases s.switchDrain i time sleepFree <;> infer_instance
  all_goals infer_instance

private theorem pursues_critical {f : Section → Except Panic Section}
    (hf : ∀ x, f (s.enter i) = .ok x → Section.Pursues s.inboxSize tid (s.enter i) x)
    (hone : s.count tid ≤ 1) (hle : s'.count tid ≤ s.count tid) (h : s.critical i f = .ok s') :
    Pursues tid s s' := by
  obtain ⟨x, hx, hleave⟩ := of_bind h
  exact pursues_of_leave (hf x hx) hone hle hleave

private theorem pursues_onCore {f : Core → Core}
    (hinbox : (f (s.cores i)).inbox = (s.cores i).inbox)
    (hheld : (f (s.cores i)).held tid = (s.cores i).held tid)
    (hle : (s.onCore i f).count tid ≤ s.count tid) : Pursues tid s (s.onCore i f) := by
  refine ⟨fun _ hs ↦ ?_, fun hs hs' ↦ absurd hs hs', fun hs ↦ ?_, hle⟩
  · exact forall_onCore (P := fun _ ↦ Core.Marked tid)
      ((hs i).of_held_le (Nat.le_of_eq hheld) hinbox) hs
  · exact forall_onCore (P := fun _ c ↦ c.inbox.length ≤ s.inboxSize) (hinbox ▸ hs i) hs

private theorem pursues_switchDrain {sleepFree : Bool} (hone : s.count tid ≤ 1) (hroom : s.Roomy)
    (hle : s'.count tid ≤ s.count tid)
    (hfind : (s.beforeDrain i time sleepFree).DrainMeets (fun id c ↦ c.FindsThread id)
      s.inboxSize 10) (h : s.switchDrain i time sleepFree = .ok s') : Pursues tid s s' := by
  obtain ⟨x, hx, hleave⟩ := of_bind h
  refine pursues_of_leave (Section.Hunts.pursues ?_) hone hle hleave
  have hbefore : Section.Hunts s.inboxSize tid (s.enter i) (s.beforeDrain i time sleepFree) := by
    cases sleepFree with
    | false => exact .refl _
    | true => exact .of_wakes (Core.wakes_checkSleepList time _)
  have hsingle : (s.enter i).Single tid := .inr ((count_core_le tid s i).trans hone)
  exact hbefore.trans (Section.hunts_drainInboxIntoReady (hbefore.room (hroom i)) hfind
    (hbefore.single hsingle) hx)

private theorem pursues_step {e : Event n} (he : ∀ i pid, e ≠ .spawn i pid)
    (hkill : ∀ i, e ≠ .kill i tid)
    (hidle : ∀ j, tid ≠ (s.cores j).idleThread.id) (hone : s.count tid ≤ 1) (hroom : s.Roomy)
    (hfind : s.KillsMeet (fun id c ↦ c.FindsThread id) e) (hreach : s.KillsReach e)
    (h : s.step e = .ok s') : Pursues tid s s' := by
  have hle : s'.count tid ≤ s.count tid := by
    refine (effect_step (K := fun _ ↦ True) (L := fun _ ↦ True) (C := fun _ _ _ ↦ True) he
      (fun _ _ _ ↦ trivial) (fun _ _ ↦ trivial) (fun _ _ _ _ ↦ trivial) (.inr fun _ ↦ trivial)
      ?_ h).count_le tid hidle
    exact killsMeet_of_kills (fun _ _ _ _ ↦ .inr trivial) fun _ _ _ ↦ .inr trivial
  have hone' := fun i ↦ (count_core_le tid s i).trans hone
  cases e with
  | init i | resched i =>
    cases h
    exact pursues_onCore rfl rfl hle
  | start i => exact pursues_of_leave (Section.quiet_start.pursues (hidle i)) hone hle h
  | spawn i pid => exact absurd rfl (he i pid)
  | sleep i now ms time =>
    exact pursues_critical
      (fun x ↦ Section.pursues_sleep (hroom i) (hone' i) (hidle i) hfind) hone hle h
  | block i time =>
    exact pursues_critical
      (fun x ↦ Section.pursues_block (hroom i) (hone' i) (hidle i) hfind) hone hle h
  | deblock i pid id => exact pursues_of_leave (Section.pursues_deblock (hidle i)) hone hle h
  | join i target time =>
    exact pursues_critical
      (fun x ↦ Section.pursues_join (hroom i) (hone' i) (hidle i) hfind) hone hle h
  | exit i time =>
    exact pursues_critical
      (fun x ↦ Section.pursues_exit (hroom i) (hone' i) (hidle i) hfind) hone hle h
  | kill i other =>
    have hne : tid ≠ other := by
      rintro rfl
      exact hkill i rfl
    exact pursues_critical (fun x ↦ Section.pursues_kill_ne hne) hone hle h
  | park i =>
    exact pursues_critical (fun x hx ↦ (Section.quiet_parkCurrent hx).pursues (hidle i)) hone hle h
  | unblock i pid id => exact pursues_of_leave (Section.quiet_unblock.pursues (hidle i)) hone hle h
  | yieldNow i locked =>
    exact pursues_critical (fun x hx ↦ (Section.quiet_yieldNow hx).pursues (hidle i)) hone hle h
  | switchThread i time sleepFree locked =>
    rw [step, switchThread] at h
    split at h
    · cases h
      exact .refl s
    · obtain ⟨s₁, hs₁, h⟩ := of_bind h
      obtain ⟨x, hx, hleave⟩ := of_bind h
      rw [KillsReach, hs₁] at hreach
      have heffect₁ : Effect (fun _ ↦ True) (fun _ ↦ True) (fun _ _ _ ↦ True) s s₁ :=
        effect_switchDrain (fun _ _ _ ↦ trivial)
          (Section.drainMeets_of_kills fun _ _ _ ↦ .inr trivial) hs₁
      have heffect₂ : Effect (fun _ ↦ True) (fun _ ↦ True) (fun _ _ _ ↦ True) s₁
          (s₁.switchBalance i) := effect_switchBalance (.inr fun _ ↦ trivial)
      have hquiet : Section.Quiet (fun _ ↦ True) (fun _ ↦ True) (fun _ _ ↦ True) _ x :=
        Section.quiet_switchNext hx
      have heffect₃ : Effect (fun _ ↦ True) (fun _ ↦ True) (fun _ _ _ ↦ True)
          (s₁.switchBalance i) s' :=
        effect_of_leave hquiet.toOutcome (leaves_of_leave hleave)
      have hidle₁ : ∀ j, tid ≠ (s₁.cores j).idleThread.id := fun j ↦ heffect₁.idle j ▸ hidle j
      have hidle₂ : ∀ j, tid ≠ ((s₁.switchBalance i).cores j).idleThread.id :=
        fun j ↦ heffect₂.idle j ▸ hidle₁ j
      have hle₁ := heffect₁.count_le tid hidle
      have hle₂ := heffect₂.count_le tid hidle₁
      have hle₃ := heffect₃.count_le tid hidle₂
      have hdrain := pursues_switchDrain hone hroom hle₁ hfind hs₁
      have hbalance := pursues_switchBalance hidle₁ hreach
      have hnext := pursues_of_leave (hquiet.pursues (hidle₂ i))
        (hle₂.trans (hle₁.trans hone)) hle₃ hleave
      have halive₃ : s'.activeTids = (s₁.switchBalance i).activeTids :=
        (leaves_of_leave hleave).alive.trans hquiet.alive_eq
      have halive₂ := activeTids_switchBalance s₁ i
      refine (hdrain.trans hbalance fun hs ↦ halive₂ ▸ hs).trans hnext fun hs ↦ halive₃ ▸ hs

private theorem kill_spec (hone : s.count tid ≤ 1) (halive : tid ∈ s.activeTids)
    (hfind : (s.cores i).FindsThread tid) (hreach : ∀ item ∈ (s.cores i).inbox, ¬ item.Brings tid)
    (h : s.step (.kill i tid) = .ok s') :
    tid ∉ s'.activeTids ∧ s'.count tid = 0 ∨
      tid ∈ s'.activeTids ∧ ∀ j, (s'.cores j).Marked tid := by
  obtain ⟨x, hx, hleave⟩ := of_bind h
  have hleaves := leaves_of_leave hleave
  have hcount := hleaves.count tid
  obtain ⟨cur, hcur, hx⟩ := of_bind hx
  have hcur := Section.current_eq_ok hcur
  split at hx
  · cases hx
  next hne =>
    have hcur' : ∀ t, (s.enter i).core.currentThread = some t → t.id ≠ tid := by
      intro t ht
      rwa [Option.some.inj (ht.symm.trans hcur)]
    have hcore := (count_core_le tid s i).trans hone
    have hinbox := Section.inbox_killLocally tid (s.enter i)
    rcases hres : (s.enter i).killLocally tid with ⟨found, y⟩
    have hspec := Section.killLocally_finds hfind hcur' hcore halive
    rw [hres] at hx hspec hinbox
    rcases hspec with ⟨hfound, hdead, hpos, hzero⟩ | ⟨hfound, halive', hheld⟩
    · obtain rfl : found = true := hfound
      cases hx
      rw [hleaves.alive]
      have hpos : 0 < (s.cores i).count tid := hpos
      have hzero : (if true = true then y else y.scheduleOnAllOthers (.kill tid)).core.count tid =
          0 := hzero
      exact .inl ⟨hdead, by omega⟩
    · obtain rfl : found = false := hfound
      cases hx
      refine .inr ⟨hleaves.alive ▸ halive', fun j ↦ ?_⟩
      rcases hleaves.cores j with ⟨-, hc⟩ | ⟨-, hc⟩ <;> rw [hc]
      · refine ⟨fun hpos ↦ absurd hheld (Nat.ne_of_gt hpos), guarded_of_not_brought ?_⟩
        intro thread hthread hid
        change .thread thread ∈ y.core.inbox at hthread
        rw [hinbox] at hthread
        exact hreach _ hthread (decide_eq_true hid)
      · have hsent : (.kill tid : MessageCmd) ∈ (y.scheduleOnAllOthers (.kill tid)).broadcast :=
          List.mem_append_right _ (List.mem_singleton_self _)
        refine ⟨fun _ ↦ List.mem_append_right _ (List.mem_map_of_mem hsent), ?_⟩
        change Guarded tid (_ ++ (y.broadcast ++ [MessageCmd.kill tid]).map _)
        rw [List.map_append, ← List.append_assoc]
        exact guarded_concat_kill tid _

private theorem marked_spawn (hlt : tid < s.nextThreadId) (hs : ∀ j, (s.cores j).Marked tid)
    (h : s.spawn i pid = .ok s') (j : Fin n) : (s'.cores j).Marked tid := by
  rcases (leaves_of_leave h).cores j with ⟨-, hc⟩ | ⟨-, hc⟩ <;> rw [hc]
  · refine (hs i).of_held_le ?_ rfl
    have hjoin := occurs_map_filter tid Prod.snd
      (fun entry : Nat × Thread ↦ entry.1 ≠ s.nextThreadId) (s.cores i).joinMap
    simp only [Section.ready, Section.onCore, enter, Core.held_eq, Core.pushFront, Core.incRqLen,
      occurs_append, occurs_reverse, occurs_singleton, if_neg (Nat.ne_of_gt hlt)]
    omega
  · exact ⟨fun hpos ↦ List.mem_append_left _ ((hs j).pending hpos), (hs j).guarded.append_cmds _⟩

end System

namespace Traced

variable {n : Nat} {t t' : Traced n}

/-- A started thread is in at most one place and in none once it is dead; a killed thread that is
still alive has the command ahead of it on every core. -/
structure Hunted (t : Traced n) : Prop where
  unique : ∀ id ∈ t.history.started, t.system.count id ≤ 1
  dead : ∀ id ∈ t.history.started, id ∉ t.system.activeTids → t.system.count id = 0
  marked : ∀ id ∈ t.history.started, id ∈ t.history.killed → id ∈ t.system.activeTids →
    ∀ i, (t.system.cores i).Marked id
  room : t.system.Roomy
  killed_lt : ∀ id ∈ t.history.killed, id < t.system.nextThreadId

variable {id : Nat}

private theorem Hunted.count_eq_zero (ht : t.Hunted) (hstarted : id ∈ t.history.started)
    (hkilled : id ∈ t.history.killed) (hnone : ∀ i, .cmd (.kill id) ∉ (t.system.cores i).inbox) :
    t.system.count id = 0 := by
  by_cases halive : id ∈ t.system.activeTids
  · exact Finset.sum_eq_zero fun i _ ↦
      (ht.marked id hstarted hkilled halive i).count_eq_zero (hnone i)
  · exact ht.dead id hstarted halive

variable {e : Event n}

private theorem killed_record {s : System n} {h : History} (hid : id ∈ (record s h e).killed) :
    id ∈ h.killed ∨ ∃ i, e = .kill i id ∧ id < s.nextThreadId := by
  cases e with
  | kill i tid =>
    rw [record] at hid
    split at hid
    next hlt =>
      rcases Finset.mem_insert.mp hid with rfl | hid
      · exact .inr ⟨i, rfl, hlt⟩
      · exact .inl hid
    next => exact .inl hid
  | exit i time =>
    rw [record] at hid
    split at hid <;> exact .inl hid
  | _ => exact .inl hid

private theorem roomy_step (ht : t.Numbered) (he : ∀ i pid, e ≠ .spawn i pid)
    (hroom : t.system.Roomy) (hfind : t.system.KillsMeet (fun id c ↦ c.FindsThread id) e)
    (hreach : t.system.KillsReach e) (h : t.system.step e = .ok t'.system) : t'.system.Roomy := by
  obtain ⟨id, hge, hkill⟩ : ∃ id, t.system.nextThreadId ≤ id ∧ ∀ i, e ≠ .kill i id := by
    cases e with
    | kill i tid =>
      refine ⟨t.system.nextThreadId + tid + 1, by omega, fun j heq ↦ ?_⟩
      have := (Event.kill.inj heq).2
      omega
    | _ => exact ⟨_, Nat.le_refl _, fun _ h ↦ nomatch h⟩
  have hzero : t.system.count id = 0 := by
    by_contra hne
    exact absurd (ht.below.of_count (Nat.pos_of_ne_zero hne)) (Nat.not_lt.mpr hge)
  refine (System.pursues_step he hkill (fun j ↦ ?_) ?_ hroom hfind hreach h).room hroom
  · exact Nat.ne_of_gt (Nat.lt_of_lt_of_le (ht.below j).idle hge)
  · omega

private theorem hunted_step (ht : t.Numbered) (hh : t.Hunted)
    (hfind : t.system.KillsMeet (fun id c ↦ c.FindsThread id) e) (hreach : t.system.KillsReach e)
    (h : t.step e = .ok t') : t'.Hunted := by
  obtain ⟨hstep, hhistory⟩ := step_eq_ok h
  have hunique := unique_step ht hh.unique h
  by_cases he : ∃ i pid, e = .spawn i pid
  · obtain ⟨i, pid, rfl⟩ := he
    obtain ⟨-, hcount, -, hnext, hlists, halive⟩ := System.spawn_spec ht.below hstep
    have hleaves := System.leaves_of_leave hstep
    have hkilled : t'.history.killed = t.history.killed := by rw [hhistory]; rfl
    have hlt : ∀ id ∈ t'.history.started, id = t.system.nextThreadId ∨
        id ∈ t.history.started ∧ id < t.system.nextThreadId := by
      intro id hid
      rw [hhistory] at hid
      exact (Finset.mem_insert.mp hid).imp_right fun hid ↦ ⟨hid, ht.started id hid⟩
    refine ⟨hunique, ?_, ?_, ?_, ?_⟩
    · intro id hid hdead
      rw [halive, Finset.mem_insert, not_or] at hdead
      obtain ⟨hstarted, -⟩ := (hlt id hid).resolve_left hdead.1
      rw [hcount, if_neg hdead.1]
      exact hh.dead id hstarted hdead.2
    · intro id hid hid' halive'
      rw [hkilled] at hid'
      have hne : id ≠ t.system.nextThreadId := Nat.ne_of_lt (hh.killed_lt id hid')
      obtain ⟨hstarted, hid''⟩ := (hlt id hid).resolve_left hne
      rw [halive] at halive'
      exact System.marked_spawn hid'' (hh.marked id hstarted hid'
        (Finset.mem_of_mem_insert_of_ne halive' hne)) hstep
    · intro j
      rw [(hlists j).2.2.2, hleaves.inboxSize]
      exact hh.room j
    · intro id hid
      rw [hkilled] at hid
      rw [hnext]
      exact Nat.lt_succ_of_lt (hh.killed_lt id hid)
  · push Not at he
    have heffect := effect_step_any ht he h
    have hstarted : t'.history.started = t.history.started := by
      rw [hhistory]
      exact started_record he
    have hpursues : ∀ id, (∀ i, e ≠ .kill i id) → (∀ j, id ≠ (t.system.cores j).idleThread.id) →
        t.system.count id ≤ 1 → System.Pursues id t.system t'.system :=
      fun id hkill hidle hone ↦ System.pursues_step he hkill hidle hone hh.room hfind hreach hstep
    refine ⟨hunique, ?_, ?_, roomy_step ht he hh.room hfind hreach hstep, ?_⟩
    · intro id hid hdead
      rw [hstarted] at hid
      by_cases halive : id ∈ t.system.activeTids
      · by_cases hkill : ∃ i, e = .kill i id
        · obtain ⟨i, rfl⟩ := hkill
          rcases System.kill_spec (hh.unique id hid) halive (hfind halive) hreach hstep with
            ⟨-, hzero⟩ | ⟨halive', -⟩
          · exact hzero
          · exact absurd halive' hdead
        · push Not at hkill
          exact (hpursues id hkill (ht.ne_idle hid) (hh.unique id hid)).gone halive hdead
      · have hle := heffect.count_le id (ht.ne_idle hid)
        have := hh.dead id hid halive
        omega
    · intro id hid hkilled halive'
      rw [hstarted] at hid
      -- a thread that was dead is not brought back to life
      have halive : id ∈ t.system.activeTids := by
        by_contra hdead
        have hpos := (heffect.alive id halive' (ht.ne_idle hid)).resolve_left hdead
        have := hh.dead id hid hdead
        omega
      by_cases hkill : ∃ i, e = .kill i id
      · obtain ⟨i, rfl⟩ := hkill
        rcases System.kill_spec (hh.unique id hid) halive (hfind halive) hreach hstep with
          ⟨hdead, -⟩ | ⟨-, hmarked⟩
        · exact absurd halive' hdead
        · exact hmarked
      · push Not at hkill
        rw [hhistory] at hkilled
        have hold := (killed_record hkilled).resolve_right fun ⟨i, hi, _⟩ ↦ hkill i hi
        exact (hpursues id hkill (ht.ne_idle hid) (hh.unique id hid)).marked halive'
          (hh.marked id hid hold halive)
    · intro id hid
      rw [heffect.nextThreadId]
      rw [hhistory] at hid
      rcases killed_record hid with hold | ⟨_, -, hlt⟩
      · exact hh.killed_lt id hold
      · exact hlt

private theorem hunted_initial {s : System n} (hs : s.Initial) : (initial s).Hunted := by
  refine ⟨nofun, nofun, nofun, fun i ↦ ?_, nofun⟩
  change (s.cores i).inbox.length ≤ _
  rw [hs.inbox i]
  exact Nat.zero_le _

private theorem count_zero_of_run {events : List (Event n)} (ht : t.Numbered)
    (hstarted : id ∈ t.history.started) (hzero : t.system.count id = 0)
    (h : events.foldlM step t = .ok t') : t'.system.count id = 0 := by
  induction events generalizing t with
  | nil =>
    cases h
    exact hzero
  | cons e events ih =>
    obtain ⟨u, hu, h⟩ := of_bind h
    refine ih (numbered_step ht hu) ?_ ?_ h
    · rw [(step_eq_ok hu).2]
      by_cases he : ∃ i pid, e = .spawn i pid
      · obtain ⟨i, pid, rfl⟩ := he
        exact Finset.mem_insert_of_mem hstarted
      · push Not at he
        rw [started_record he]
        exact hstarted
    · by_cases he : ∃ i pid, e = .spawn i pid
      · obtain ⟨i, pid, rfl⟩ := he
        obtain ⟨-, hcount, -⟩ := System.spawn_spec ht.below (step_eq_ok hu).1
        rw [hcount, hzero, if_neg (Nat.ne_of_lt (ht.started id hstarted))]
      · push Not at he
        have hle := (effect_step_any ht he hu).count_le id (ht.ne_idle hstarted)
        omega

/-- In every run from boot, whatever it loses, no started thread is in two places. -/
theorem never_doubled (n size : Nat) (events : List (Event n)) :
    Yields (events.foldlM step (initial (System.boot n size)))
      (fun t ↦ t.Numbered ∧ ∀ id ∈ t.history.started, t.system.count id ≤ 1) fun _ ↦ True := by
  refine foldlM_yields events ?_ fun t e ht ↦ ?_
  · exact ⟨numbered_initial (System.initial_boot n size), nofun⟩
  · exact yields_of_eq (fun _ h ↦ ⟨numbered_step ht.1 h, unique_step ht.1 ht.2 h⟩) fun _ _ ↦ trivial

/-- In every run whose searches find the threads that they look for and in which no kill misses its
thread on the way: a started thread that was killed is in no place once no command that kills it is
left in an inbox, and it stays so in every continuation of the run. -/
theorem killed_thread_gone {s : System n} (hs : s.Initial) (events : List (Event n))
    (hmeets : Along step (fun t e _ ↦ t.system.KillsMeet (fun id c ↦ c.FindsThread id) e ∧
      t.system.KillsReach e) (initial s) events) {t : Traced n}
    (hrun : events.foldlM step (initial s) = .ok t) {id : Nat}
    (hstarted : id ∈ t.history.started) (hkilled : id ∈ t.history.killed)
    (hhandled : ∀ i, .cmd (.kill id) ∉ (t.system.cores i).inbox) :
    ∀ (later : List (Event n)) (t' : Traced n), later.foldlM step t = .ok t' →
      t'.system.count id = 0 := by
  obtain ⟨hnumbered, hhunted⟩ := Along.invariant (I := fun t ↦ t.Numbered ∧ t.Hunted) hmeets hrun
    ⟨numbered_initial hs, hunted_initial hs⟩ fun t e t' ht hstep hm ↦
      ⟨numbered_step ht.1 hstep, hunted_step ht.1 ht.2 hm.1 hm.2 hstep⟩
  intro later t' hlater
  exact count_zero_of_run hnumbered hstarted
    (hhunted.count_eq_zero hstarted hkilled hhandled) hlater

/-- Thread 2 runs on core 0 and kills thread 3, which runs on core 1. Core 1 sends the command to
itself until the thread is not current any more, and to core 0, where it is not found. -/
private def killEvents : List (Event 2) :=
  [.init 0, .init 1, .start 0, .start 1, .spawn 0 7, .spawn 1 7, .switchThread 0 1 true false,
    .switchThread 1 1 true false, .kill 0 3, .switchThread 1 2 true false,
    .switchThread 1 3 true false, .switchThread 0 4 true false]

/-- A thread is killed on another core. -/
theorem killed_thread_gone_sample :
    ∃ t, killEvents.foldlM step (initial (System.boot 2 100)) = .ok t ∧ 3 ∈ t.history.killed ∧
      ∀ (later : List (Event 2)) (t' : Traced 2), later.foldlM step t = .ok t' →
        t'.system.count 3 = 0 := by
  obtain ⟨t, hrun, hstarted, hkilled, hhandled⟩ : ∃ t,
      killEvents.foldlM step (initial (System.boot 2 100)) = .ok t ∧ 3 ∈ t.history.started ∧
        3 ∈ t.history.killed ∧ ∀ i, .cmd (.kill 3) ∉ (t.system.cores i).inbox := by
    decide +kernel
  exact ⟨t, hrun, hkilled, killed_thread_gone (System.initial_boot 2 100) killEvents
    (by decide +kernel) hrun hstarted hkilled hhandled⟩

/-- Thread 4 sleeps on core 1. On core 0, a thread kills it while another one is ready. -/
private def missEvents : List (Event 2) :=
  [.init 0, .init 1, .start 0, .start 1, .spawn 0 7, .spawn 0 7, .spawn 1 7,
    .switchThread 0 1 true false, .switchThread 1 1 true false, .sleep 1 2 1000 2, .kill 0 4,
    .switchThread 1 2000 true false, .switchThread 0 2001 true false]

/-- The search on core 0 takes the length of its ready queue for a change and reports the thread as
found. It is recorded as dead and no command is sent: it wakes up and runs on core 1. -/
theorem kill_misses_sleeper :
    ∃ t, missEvents.foldlM step (initial (System.boot 2 100)) = .ok t ∧ 4 ∈ t.history.started ∧
      4 ∈ t.history.killed ∧ (t.system.cores 0).inbox = [] ∧ (t.system.cores 1).inbox = [] ∧
      (t.system.cores 1).currentThread = some ⟨4, 7⟩ := by
  decide +kernel

end Traced

end D3OS.Scheduler
