import D3OS.Process.ThreadPlaces

/-!
# Waiters of a thread are woken

A thread that called `join` stays in the join map until it is made ready, and once the thread it
waits for has terminated, the message that wakes it is in the inbox of its core. Both hold in
every run whose steps lose no thread and whose kills find a thread that sleeps.
-/

namespace D3OS.Scheduler

open Lib

variable {entry : Nat × Thread}

namespace System

variable {n : Nat} {s : System n} {i j : Fin n}

/-- How often a thread is in one kind of list, over all cores. -/
def tally (f : Core → List Thread) (id : Nat) (s : System n) : Nat :=
  ∑ i, occurs id (f (s.cores i))

private theorem count_eq_tally (id : Nat) (s : System n) :
    s.count id = s.tally (·.currentThread.toList) id + s.tally (·.readyQueue) id +
      s.tally (·.sleepList.map Prod.fst) id + s.tally (·.blockedList) id +
      s.tally (·.joinMap.map Prod.snd) id + ∑ i, (s.cores i).flying id := by
  simp only [count, tally, Core.count, Core.held_eq, Finset.sum_add_distrib]

private theorem tally_pos {f : Core → List Thread} {thread : Thread} (h : thread ∈ f (s.cores i)) :
    0 < s.tally f thread.id := by
  have hpos : 0 < occurs thread.id (f (s.cores i)) := (occurs_pos_iff _ _).mpr ⟨thread, h, rfl⟩
  rw [tally, ← Finset.add_sum_erase _ _ (Finset.mem_univ i)]
  omega

variable {id : Nat}

private theorem exists_of_tally_pos {f : Core → List Thread} (h : 0 < s.tally f id) :
    ∃ i, ∃ thread ∈ f (s.cores i), thread.id = id := by
  by_contra hnone
  have hzero : s.tally f id = 0 := by
    refine Finset.sum_eq_zero fun i _ ↦ ?_
    by_contra hne
    exact hnone ⟨i, (occurs_pos_iff _ _).mp (Nat.pos_of_ne_zero hne)⟩
  omega

private theorem eq_of_occurs_le_one {α : Type} [DecidableEq α] {g : α → Thread} {l : List α}
    {a b : α} (hone : occurs id (l.map g) ≤ 1) (ha : a ∈ l) (hb : b ∈ l) (hida : (g a).id = id)
    (hidb : (g b).id = id) : a = b := by
  by_contra hne
  have hperm := (List.perm_cons_erase ha).map g
  have hcount : occurs id (l.map g) = occurs id ((l.erase a).map g) + 1 := by
    rw [occurs, hperm.countP_eq, List.map_cons, List.countP_cons]
    simp only [hida, decide_true, if_true]
    rfl
  have hpos : 0 < occurs id ((l.erase a).map g) := by
    rw [occurs_pos_iff]
    exact ⟨g b, List.mem_map_of_mem ((List.mem_erase_of_ne (Ne.symm hne)).mpr hb), hidb⟩
  omega

private theorem count_pos_of_joining (h : entry ∈ (s.cores i).joinMap) :
    0 < (s.cores i).count entry.2.id := by
  have hpos : 0 < occurs entry.2.id ((s.cores i).joinMap.map Prod.snd) :=
    (occurs_pos_iff _ _).mpr ⟨entry.2, List.mem_map_of_mem h, rfl⟩
  rw [Core.count, Core.held_eq]
  omega

private theorem joining_unique {entry' : Nat × Thread} (hone : s.count entry.2.id ≤ 1)
    (h : entry ∈ (s.cores i).joinMap) (h' : entry' ∈ (s.cores j).joinMap)
    (hid : entry'.2.id = entry.2.id) : i = j ∧ entry = entry' := by
  have hij : i = j := by
    by_contra hne
    have hsum := count_two_cores (s := s) hne entry.2.id
    have hi := count_pos_of_joining h
    have hj := count_pos_of_joining h'
    rw [hid] at hj
    omega
  subst hij
  refine ⟨rfl, eq_of_occurs_le_one (g := Prod.snd) ?_ h h' rfl hid⟩
  have hle := count_core_le entry.2.id s i
  rw [Core.count, Core.held_eq] at hle
  omega

/-- The thread is current on a core, ready or on its way to another core. -/
def Runnable (s : System n) (id : Nat) : Prop :=
  (∃ i thread, (s.cores i).currentThread = some thread ∧ thread.id = id) ∨
  (∃ i, ∃ thread ∈ (s.cores i).readyQueue, thread.id = id) ∨
  ∃ i thread, .thread thread ∈ (s.cores i).inbox ∧ thread.id = id

private theorem runnable_or_waits (h : 0 < s.count id) :
    s.Runnable id ∨ (∃ i, ∃ entry ∈ (s.cores i).sleepList, entry.1.id = id) ∨
      (∃ i, ∃ thread ∈ (s.cores i).blockedList, thread.id = id) ∨
      ∃ i, ∃ entry ∈ (s.cores i).joinMap, entry.2.id = id := by
  rw [count_eq_tally] at h
  by_cases hcurrent : 0 < s.tally (·.currentThread.toList) id
  · obtain ⟨i, thread, hthread, hid⟩ := exists_of_tally_pos hcurrent
    exact .inl (.inl ⟨i, thread, Option.mem_toList.mp hthread, hid⟩)
  by_cases hready : 0 < s.tally (·.readyQueue) id
  · exact .inl (.inr (.inl (exists_of_tally_pos hready)))
  by_cases hasleep : 0 < s.tally (·.sleepList.map Prod.fst) id
  · obtain ⟨i, thread, hthread, hid⟩ := exists_of_tally_pos hasleep
    obtain ⟨entry, hentry, rfl⟩ := List.mem_map.mp hthread
    exact .inr (.inl ⟨i, entry, hentry, hid⟩)
  by_cases hblocked : 0 < s.tally (·.blockedList) id
  · exact .inr (.inr (.inl (exists_of_tally_pos hblocked)))
  by_cases hjoining : 0 < s.tally (·.joinMap.map Prod.snd) id
  · obtain ⟨i, thread, hthread, hid⟩ := exists_of_tally_pos hjoining
    obtain ⟨entry, hentry, rfl⟩ := List.mem_map.mp hthread
    exact .inr (.inr (.inr ⟨i, entry, hentry, hid⟩))
  · have hflying : 0 < ∑ i, (s.cores i).flying id := by omega
    obtain ⟨i, -, hi⟩ := Finset.exists_ne_zero_of_sum_ne_zero (Nat.ne_of_gt hflying)
    obtain ⟨item, hitem, hbrings⟩ := List.countP_pos_iff.mp (Nat.pos_of_ne_zero hi)
    cases item with
    | thread thread => exact .inl (.inr (.inr ⟨i, thread, hitem, of_decide_eq_true hbrings⟩))
    | cmd cmd => cases hbrings

end System

namespace Traced

variable {n : Nat} {t t' : Traced n}

/-- A started thread that has exited, or was killed and is in no place any more. -/
def Terminated (t : Traced n) (id : Nat) : Prop :=
  id ∈ t.history.started ∧
    (id ∈ t.history.exited ∨ id ∈ t.history.killed ∧ t.system.count id = 0)

/-- Every waiter of a terminated thread has the message that wakes it in the inbox of its core. -/
def WakesJoiners (t : Traced n) : Prop :=
  ∀ i, ∀ entry ∈ (t.system.cores i).joinMap, t.Terminated entry.1 →
    .cmd (.joinTargetExited entry.1) ∈ (t.system.cores i).inbox

/-- A thread waits for the end of another one on a core, or it is runnable. -/
def WaitsOrRuns (t : Traced n) (i : Fin n) (entry : Nat × Thread) : Prop :=
  entry ∈ (t.system.cores i).joinMap ∨ t.system.Runnable entry.2.id

/-- A step loses no waiter: who waited goes on waiting or becomes runnable, and so does who calls
`join` on a live thread, as long as it is not killed. -/
def KeepsJoiners (t : Traced n) (e : Event n) (t' : Traced n) : Prop :=
  (∀ i, ∀ entry ∈ (t.system.cores i).joinMap, t'.Lives entry.2.id → t'.WaitsOrRuns i entry) ∧
  ∀ i tid time cur, e = .join i tid time → (t.system.cores i).currentThread = some cur →
    t'.Lives cur.id → t'.WaitsOrRuns i (tid, cur)

/-- What the waiters rest on: a thread is in one place at most, in one as long as it is recorded
as alive and in none once it has exited. -/
structure Joined (t : Traced n) : Prop where
  safe : t.system.JoinSafe
  unique : ∀ id ∈ t.history.started, t.system.count id ≤ 1
  alive : ∀ id ∈ t.history.started, id ∈ t.system.activeTids → t.system.count id = 1
  exited : ∀ id ∈ t.history.started, id ∈ t.history.exited → t.system.count id = 0
  exited_lt : ∀ id ∈ t.history.exited, id < t.system.nextThreadId

private theorem Joined.wakesJoiners (ht : t.Joined) : t.WakesJoiners := by
  rintro i entry hentry ⟨hstarted, hended⟩
  have hzero : t.system.count entry.1 = 0 := by
    rcases hended with hexited | ⟨-, hzero⟩
    · exact ht.exited entry.1 hstarted hexited
    · exact hzero
  refine (ht.safe i entry hentry).resolve_left fun halive ↦ ?_
  have := ht.alive entry.1 hstarted halive
  omega

variable {s : System n} {e : Event n}

private theorem exited_record {h : History} (he : ∀ i time, e ≠ .exit i time) :
    (record s h e).exited = h.exited := by
  cases e with
  | exit i time => exact absurd rfl (he i time)
  | kill i tid =>
    rw [record]
    split <;> rfl
  | _ => rfl

variable {i : Fin n}

private theorem count_exit {time : Nat} {cur : Thread} (ht : t.Numbered)
    (hcur : (t.system.cores i).currentThread = some cur) (hstarted : cur.id ∈ t.history.started)
    (h : t.step (.exit i time) = .ok t') : t'.system.count cur.id + 1 ≤ t.system.count cur.id := by
  obtain ⟨x, hx, hleave⟩ := of_bind (step_eq_ok h).1
  have hcore := Section.count_exit hcur (ht.ne_idle hstarted i) hx
  have hsum := (System.leaves_of_leave hleave).count cur.id
  have hown : (t.system.enter i).core = t.system.cores i := rfl
  rw [hown] at hcore
  omega

/-- A step doubles no thread. -/
theorem unique_step (ht : t.Numbered) (hunique : ∀ id ∈ t.history.started, t.system.count id ≤ 1)
    (h : t.step e = .ok t') : ∀ id ∈ t'.history.started, t'.system.count id ≤ 1 := by
  intro id hid
  obtain ⟨hstep, hhistory⟩ := step_eq_ok h
  by_cases he : ∃ i pid, e = .spawn i pid
  · obtain ⟨i, pid, rfl⟩ := he
    obtain ⟨-, hcount, -⟩ := System.spawn_spec ht.below hstep
    rw [hhistory] at hid
    rw [hcount id]
    rcases Finset.mem_insert.mp hid with rfl | hstarted
    · rw [ht.count_next, if_pos rfl]
    · rw [if_neg (Nat.ne_of_lt (ht.started id hstarted)), Nat.add_zero]
      exact hunique id hstarted
  · push Not at he
    rw [hhistory, started_record he] at hid
    exact ((effect_step_any ht he h).count_le id (ht.ne_idle hid)).trans (hunique id hid)

private theorem joined_step (ht : t.Numbered) (hj : t.Joined) (hkeeps : t.system.Keeps e)
    (hfind : t.system.KillsMeet (fun tid c ↦ c.FindsAsleep tid) e) (h : t.step e = .ok t') :
    t'.Joined := by
  obtain ⟨hstep, hhistory⟩ := step_eq_ok h
  have hunique := unique_step ht hj.unique h
  by_cases he : ∃ i pid, e = .spawn i pid
  · obtain ⟨i, pid, rfl⟩ := he
    obtain ⟨-, hcount, -, hnext, hlists, halive⟩ := System.spawn_spec ht.below hstep
    have hexited : t'.history.exited = t.history.exited := by rw [hhistory]; rfl
    have hold : ∀ id, id < t.system.nextThreadId → t'.system.count id = t.system.count id := by
      intro id hid
      rw [hcount, if_neg (Nat.ne_of_lt hid), Nat.add_zero]
    refine ⟨?_, hunique, ?_, ?_, ?_⟩
    · intro j entry hentry
      change entry ∈ (t'.system.cores j).joinMap at hentry
      change entry.1 ∈ t'.system.activeTids ∨ _ ∈ (t'.system.cores j).inbox
      rw [(hlists j).2.2.1] at hentry
      rw [(hlists j).2.2.2, halive]
      exact (hj.safe j entry hentry).imp_left Finset.mem_insert_of_mem
    · intro id hid hid'
      rw [hhistory] at hid
      rcases Finset.mem_insert.mp hid with rfl | hstarted
      · rw [hcount, ht.count_next, if_pos rfl]
      · have hlt := ht.started id hstarted
        rw [halive] at hid'
        rw [hold id hlt]
        exact hj.alive id hstarted (Finset.mem_of_mem_insert_of_ne hid' (Nat.ne_of_lt hlt))
    · intro id hid hid'
      rw [hexited] at hid'
      have hlt := hj.exited_lt id hid'
      rw [hhistory] at hid
      rw [hold id hlt]
      exact hj.exited id (Finset.mem_of_mem_insert_of_ne hid (Nat.ne_of_lt hlt)) hid'
    · intro id hid
      rw [hexited] at hid
      rw [hnext]
      exact Nat.lt_succ_of_lt (hj.exited_lt id hid)
  · push Not at he
    have hL : t.system.KillsMeet (fun tid c ↦ c.FindsAsleep tid ∨ False) e := by
      simpa only [or_false] using hfind
    have heffect := effect_step (L := fun _ ↦ False) ht he (.inl hkeeps) hL h
    have hstarted : t'.history.started = t.history.started := by
      rw [hhistory]
      exact started_record he
    -- what the step adds to the threads that exited
    have hexits : ∀ id ∈ t'.history.exited, id ∈ t.history.exited ∨
        ∃ i time cur, e = .exit i time ∧ (t.system.cores i).currentThread = some cur ∧
          cur.id = id := by
      intro id hid
      rw [hhistory] at hid
      by_cases hexit : ∃ i time, e = .exit i time
      · obtain ⟨i, time, rfl⟩ := hexit
        rw [record] at hid
        split at hid
        next cur hcur =>
          rcases Finset.mem_insert.mp hid with rfl | hid
          · exact .inr ⟨i, time, cur, rfl, hcur, rfl⟩
          · exact .inl hid
        next => exact .inl hid
      · push Not at hexit
        rw [exited_record hexit] at hid
        exact .inl hid
    refine ⟨heffect.waiters hj.safe, hunique, ?_, ?_, ?_⟩
    · intro id hid halive
      rw [hstarted] at hid
      have hone := hj.unique id hid
      rw [heffect.kept id halive (ht.ne_idle hid) (fun hlost ↦ hlost) hone]
      rcases heffect.alive id halive (ht.ne_idle hid) with hold | hpos
      · exact hj.alive id hid hold
      · omega
    · intro id hid hexited
      rw [hstarted] at hid
      rcases hexits id hexited with hold | ⟨i, time, cur, rfl, hcur, rfl⟩
      · have hle := heffect.count_le id (ht.ne_idle hid)
        have := hj.exited id hid hold
        omega
      · have hlt := count_exit ht hcur hid h
        have := hj.unique _ hid
        omega
    · intro id hid
      rw [heffect.nextThreadId]
      rcases hexits id hid with hold | ⟨i, time, cur, rfl, hcur, rfl⟩
      · exact hj.exited_lt id hold
      · refine (ht.below i).count _ ?_
        change 0 < (t.system.cores i).count cur.id
        rw [Core.count, Core.held_eq, hcur]
        simp only [Option.toList_some, occurs_singleton, if_true]
        omega

private theorem joiner_alone (hone : t.system.count entry.2.id ≤ 1)
    (h : entry ∈ (t.system.cores i).joinMap) :
    t.system.tally (·.currentThread.toList) entry.2.id = 0 ∧
    t.system.tally (·.sleepList.map Prod.fst) entry.2.id = 0 ∧
    t.system.tally (·.blockedList) entry.2.id = 0 := by
  have hpos : 0 < t.system.tally (·.joinMap.map Prod.snd) entry.2.id :=
    System.tally_pos (List.mem_map_of_mem h)
  have hsum := System.count_eq_tally entry.2.id t.system
  omega

private theorem waitsOrRuns_of_alone {L K : Nat → Prop} {id : Nat}
    (heffect : t.system.Effect K L (t.system.GivesUp e) t'.system) (hcount : 0 < t'.system.count id)
    (hasleep : t.system.tally (·.sleepList.map Prod.fst) id = 0)
    (hblocked : t.system.tally (·.blockedList) id = 0)
    (hgives : ∀ i place thread, t.system.GivesUp e i place thread → thread.id = id →
      ∃ tid, place = .joining tid) :
    t'.system.Runnable id ∨ ∃ i, ∃ entry ∈ (t'.system.cores i).joinMap, entry.2.id = id := by
  rcases System.runnable_or_waits hcount with hrun | ⟨i, entry, hentry, rfl⟩ |
    ⟨i, thread, hthread, rfl⟩ | hjoin
  · exact .inl hrun
  · rcases heffect.asleep i entry hentry with hold | hnew
    · have hpos : 0 < t.system.tally (·.sleepList.map Prod.fst) entry.1.id :=
        System.tally_pos (List.mem_map_of_mem hold)
      omega
    · obtain ⟨tid, htid⟩ := hgives _ _ _ hnew rfl
      cases htid
  · rcases heffect.blocked i thread hthread with hold | hnew
    · have hpos : 0 < t.system.tally (·.blockedList) thread.id := System.tally_pos hold
      omega
    · obtain ⟨tid, htid⟩ := hgives _ _ _ hnew rfl
      cases htid
  · exact .inr hjoin

private theorem current_alone {cur : Thread} (hone : t.system.count cur.id ≤ 1)
    (h : (t.system.cores i).currentThread = some cur) :
    t.system.tally (·.sleepList.map Prod.fst) cur.id = 0 ∧
    t.system.tally (·.blockedList) cur.id = 0 ∧
    t.system.tally (·.joinMap.map Prod.snd) cur.id = 0 := by
  have hpos : 0 < t.system.tally (·.currentThread.toList) cur.id :=
    System.tally_pos (i := i) (Option.mem_toList.mpr h)
  have hsum := System.count_eq_tally cur.id t.system
  omega

private theorem current_of_givesUp {place : Section.Waiting} {thread : Thread}
    (h : s.GivesUp e i place thread) : ∃ i, (s.cores i).currentThread = some thread := by
  cases e with
  | sleep j now ms time | block j time | join j tid time => exact ⟨j, h.2.2⟩
  | _ => exact h.elim

private theorem keepsJoiners_step (ht : t.Numbered) (hone : t.OnePlace) (hkeeps : t.system.Keeps e)
    (h : t.step e = .ok t') : t.KeepsJoiners e t' := by
  have hone' := onePlace_step ht hone hkeeps h
  by_cases he : ∃ i pid, e = .spawn i pid
  · obtain ⟨hstep, -⟩ := step_eq_ok h
    obtain ⟨i, pid, rfl⟩ := he
    obtain ⟨-, -, -, -, hlists, -⟩ := System.spawn_spec ht.below hstep
    refine ⟨fun j entry hentry _ ↦ .inl ?_, fun _ _ _ _ hjoin ↦ by cases hjoin⟩
    rw [(hlists j).2.2.1]
    exact hentry
  · push Not at he
    have heffect := effect_step_keeps ht he hkeeps h
    refine ⟨fun i entry hentry hlives ↦ ?_, ?_⟩
    · have hcount : t.system.count entry.2.id ≤ 1 :=
        Nat.le_of_eq (hone _ (lives_of_step he h hlives))
      obtain ⟨hcur, hasleep, hblocked⟩ := joiner_alone hcount hentry
      have hidle : ∀ i place thread, t.system.GivesUp e i place thread →
          thread.id ≠ entry.2.id := by
        intro i place thread hgives heq
        obtain ⟨j, hj⟩ := current_of_givesUp hgives
        have hpos : 0 < t.system.tally (·.currentThread.toList) thread.id :=
          System.tally_pos (i := j) (Option.mem_toList.mpr hj)
        rw [heq] at hpos
        omega
      have hplace := waitsOrRuns_of_alone heffect (Nat.lt_of_lt_of_eq Nat.zero_lt_one
        (hone' _ hlives).symm) hasleep hblocked
        fun i place thread hgives heq ↦ absurd heq (hidle i place thread hgives)
      rcases hplace with hrun | ⟨j, entry', hentry', hid⟩
      · exact .inr hrun
      · rcases heffect.joining j entry' hentry' with hold | hnew
        · obtain ⟨rfl, rfl⟩ := System.joining_unique hcount hentry hold hid
          exact .inl hentry'
        · exact absurd hid (hidle _ _ _ hnew)
    · rintro i tid time cur rfl hcur hlives
      have hcount : t.system.count cur.id ≤ 1 :=
        Nat.le_of_eq (hone _ (lives_of_step he h hlives))
      obtain ⟨hasleep, hblocked, hjoining⟩ := current_alone hcount hcur
      have hplace := waitsOrRuns_of_alone heffect (Nat.lt_of_lt_of_eq Nat.zero_lt_one
        (hone' _ hlives).symm) hasleep hblocked fun _ _ _ hgives _ ↦ ⟨tid, hgives.2.1⟩
      rcases hplace with hrun | ⟨j, entry, hentry, hid⟩
      · exact .inr hrun
      · rcases heffect.joining j entry hentry with hold | hnew
        · have hpos : 0 < t.system.tally (·.joinMap.map Prod.snd) entry.2.id :=
            System.tally_pos (List.mem_map_of_mem hold)
          rw [hid] at hpos
          omega
        · obtain ⟨rfl, hplace, hcur'⟩ := hnew
          cases hplace
          obtain rfl := Option.some.inj (hcur.symm.trans hcur')
          exact .inl hentry

private theorem joined_initial (hs : s.Initial) : (initial s).Joined := by
  refine ⟨?_, ?_, ?_, ?_, ?_⟩
  · intro i entry hentry
    change entry ∈ (s.cores i).joinMap at hentry
    rw [hs.joining i] at hentry
    cases hentry
  · intro id hid
    cases hid
  · intro id hid
    cases hid
  · intro id hid
    cases hid
  · intro id hid
    cases hid

/-- In every run whose steps lose no thread and find the sleeping threads that they kill, the
waiters of a terminated thread have the message that wakes them in their inbox, and every step
leaves a waiter waiting or makes it runnable. -/
theorem joiners_woken {s : System n} (hs : s.Initial) (events : List (Event n))
    (hmeets : Along step (fun t e _ ↦ t.system.Keeps e ∧
      t.system.KillsMeet (fun tid c ↦ c.FindsAsleep tid) e) (initial s) events) {t : Traced n}
    (hrun : events.foldlM step (initial s) = .ok t) :
    t.WakesJoiners ∧ Along step KeepsJoiners (initial s) events := by
  have hinit : (initial s).Numbered ∧ (initial s).OnePlace ∧ (initial s).Joined := by
    refine ⟨numbered_initial hs, ?_, joined_initial hs⟩
    rintro id ⟨hid, -⟩
    cases hid
  have hstep : ∀ (t : Traced n) (e : Event n) (t' : Traced n),
      t.Numbered ∧ t.OnePlace ∧ t.Joined → t.step e = .ok t' →
      t.system.Keeps e ∧ t.system.KillsMeet (fun tid c ↦ c.FindsAsleep tid) e →
      (t'.Numbered ∧ t'.OnePlace ∧ t'.Joined) ∧ t.KeepsJoiners e t' := by
    rintro t e t' ⟨hnumbered, hone, hjoined⟩ hstep ⟨hkeeps, hfind⟩
    exact ⟨⟨numbered_step hnumbered hstep, onePlace_step hnumbered hone hkeeps hstep,
      joined_step hnumbered hjoined hkeeps hfind hstep⟩,
      keepsJoiners_step hnumbered hone hkeeps hstep⟩
  refine ⟨?_, hmeets.of_invariant hinit hstep⟩
  have hinv := hmeets.invariant hrun hinit fun t e t' ht h hm ↦ (hstep t e t' ht h hm).1
  exact hinv.2.2.wakesJoiners

/-- Thread 2 waits for thread 4, which has moved to the other core and exits there. -/
private def joinEvents : List (Event 2) :=
  [.init 0, .init 1, .start 0, .start 1, .spawn 0 7, .spawn 0 7, .spawn 0 7,
    .switchThread 0 1 true false, .switchThread 1 1 true false, .join 0 4 3, .exit 1 4]

/-- A thread waits for one that exits. -/
theorem joiners_woken_sample :
    ∃ t, joinEvents.foldlM step (initial (System.boot 2 100)) = .ok t ∧
      (4, ⟨2, 7⟩) ∈ (t.system.cores 0).joinMap ∧ t.Terminated 4 ∧ t.WakesJoiners ∧
      Along step KeepsJoiners (initial (System.boot 2 100)) joinEvents := by
  obtain ⟨t, hrun, hjoin, hstarted, hexited⟩ : ∃ t,
      joinEvents.foldlM step (initial (System.boot 2 100)) = .ok t ∧
        (4, ⟨2, 7⟩) ∈ (t.system.cores 0).joinMap ∧ 4 ∈ t.history.started ∧
        4 ∈ t.history.exited := by
    decide +kernel
  exact ⟨t, hrun, hjoin, ⟨hstarted, .inl hexited⟩,
    joiners_woken (System.initial_boot 2 100) joinEvents (by decide +kernel) hrun⟩

/-- Thread 1 sleeps, thread 2 waits for its end and thread 3 kills it while one other thread is
ready. The search takes it out of the sleep list but reports nothing: thread 1 is in no place any
more, its waiter is still in the join map and no message is on its way. -/
theorem kill_leaves_joiner_waiting :
    ∃ t, [Event.init 0, .start 0, .spawn 0 7, .spawn 0 7, .spawn 0 7, .spawn 0 7,
      .switchThread 0 1 true false, .sleep 0 2 1000 2, .join 0 1 3, .kill 0 1].foldlM step
        (initial (System.boot 1 100)) = .ok t ∧ t.Terminated 1 ∧
      (t.system.cores 0).joinMap = [(1, ⟨2, 7⟩)] ∧ (t.system.cores 0).inbox = [] ∧
      ¬ t.WakesJoiners := by
  obtain ⟨t, hrun, ⟨hstarted, hkilled, hcount⟩, hjoin, hinbox⟩ : ∃ t, [Event.init 0, .start 0,
      .spawn 0 7, .spawn 0 7, .spawn 0 7, .spawn 0 7, .switchThread 0 1 true false,
      .sleep 0 2 1000 2, .join 0 1 3, .kill 0 1].foldlM step (initial (System.boot 1 100)) = .ok t ∧
        (1 ∈ t.history.started ∧ 1 ∈ t.history.killed ∧ t.system.count 1 = 0) ∧
        (t.system.cores 0).joinMap = [(1, ⟨2, 7⟩)] ∧ (t.system.cores 0).inbox = [] := by
    decide +kernel
  have hterminated : t.Terminated 1 := ⟨hstarted, .inr ⟨hkilled, hcount⟩⟩
  refine ⟨t, hrun, hterminated, hjoin, hinbox, fun hwakes ↦ ?_⟩
  have hmessage := hwakes 0 (1, ⟨2, 7⟩) (hjoin ▸ List.mem_singleton_self _) hterminated
  rw [hinbox] at hmessage
  cases hmessage

end Traced

end D3OS.Scheduler
