import D3OS.Process.Sections

/-!
# What `kill_locally` reports

The second search of `kill_locally` compares the length of the sleep list before with the lengths
of the sleep list and the ready queue after. It reports a thread unless as many sleepers were
removed as threads are ready.
-/

namespace D3OS.Scheduler

namespace Core

/-- The thread is in the ready queue, the sleep list, the blocked list or waits for another one. -/
def Listed (tid : Nat) (c : Core) : Prop :=
  (∃ thread ∈ c.readyQueue, thread.id = tid) ∨ (∃ entry ∈ c.sleepList, entry.1.id = tid) ∨
    (∃ thread ∈ c.blockedList, thread.id = tid) ∨ ∃ entry ∈ c.joinMap, entry.2.id = tid

instance (tid : Nat) (c : Core) : Decidable (c.Listed tid) :=
  inferInstanceAs (Decidable (_ ∨ _ ∨ _ ∨ _))

/-- The core without the thread: it has been removed from all four lists. -/
def without (tid : Nat) (c : Core) : Core := c.searched tid true true true true

/-- The thread is only where the searches are made, and they report it: it is in the ready queue;
or the number of its entries in the sleep list is neither zero nor the length of the ready queue;
or it is that length, and the thread is in one more list or in none at all. -/
def Reported (tid : Nat) (c : Core) : Prop :=
  if occurs tid c.readyQueue ≠ 0 then
    occurs tid (c.sleepList.map Prod.fst) = 0 ∧ occurs tid c.blockedList = 0 ∧
      occurs tid (c.joinMap.map Prod.snd) = 0
  else if occurs tid (c.sleepList.map Prod.fst) ≠ c.readyQueue.length then
    occurs tid (c.sleepList.map Prod.fst) ≠ 0 ∧ occurs tid c.blockedList = 0 ∧
      occurs tid (c.joinMap.map Prod.snd) = 0
  else if occurs tid c.blockedList ≠ 0 then occurs tid (c.joinMap.map Prod.snd) = 0
  else occurs tid (c.joinMap.map Prod.snd) = 0 → occurs tid (c.sleepList.map Prod.fst) = 0

variable {tid : Nat} {c : Core} {r a b j : Bool}

private theorem listed_iff : c.Listed tid ↔ 0 < occurs tid c.readyQueue +
    occurs tid (c.sleepList.map Prod.fst) + occurs tid c.blockedList +
      occurs tid (c.joinMap.map Prod.snd) := by
  rw [Listed, ← occurs_pos_iff, ← occurs_pos_iff, ← occurs_map_pos_iff, ← occurs_map_pos_iff]
  omega

private theorem cleared_of_occurs {α : Type} {f : α → Thread} {l : List α}
    (h : occurs tid (l.map f) = 0) (now : Bool) : cleared f tid now l = l := by
  cases now with
  | false => rfl
  | true =>
    refine List.filter_eq_self.mpr fun a ha ↦ ?_
    have := mt (fun hid ↦ occurs_map_pos_iff.mpr ⟨a, ha, hid⟩) (Nat.not_lt.mpr (Nat.le_of_eq h))
    simpa using this

private theorem searched_eq (h : (c.searched tid r a b j).held tid = (c.without tid).held tid) :
    c.searched tid r a b j = c.without tid := by
  rw [without, held_searched, held_searched] at h
  simp only [and_self, if_true, and_true] at h
  have hsame : ∀ {α : Type} {f : α → Thread} {l : List α} (now : Bool),
      (if now = true then 0 else occurs tid (l.map f)) = 0 →
        cleared f tid now l = cleared f tid true l := by
    intro α f l now hzero
    cases now with
    | true => rfl
    | false => exact (cleared_of_occurs hzero true).symm
  rw [without, searched, hsame r, hsame a, hsame b, hsame j]
  · rfl
  all_goals
    try rw [List.map_id']
    omega

private theorem searched_of_not_listed (h : ¬ c.Listed tid) : c.searched tid r a b j = c := by
  rw [listed_iff] at h
  rw [searched, cleared_of_occurs, cleared_of_occurs, cleared_of_occurs, cleared_of_occurs]
  all_goals
    try rw [List.map_id']
    omega

end Core

namespace Section

/-- `kill_locally` answers whether the thread is dead or in one of the lists. If it was alive and
in a list it is removed and ended, and otherwise nothing has changed. -/
def KillsExactly (tid : Nat) (x : Section) : Prop :=
  ((x.killLocally tid).1 = true ↔ tid ∉ x.activeTids ∨ x.core.Listed tid) ∧
  (x.killLocally tid).2 =
    if tid ∈ x.activeTids ∧ x.core.Listed tid then
      { x with core := x.core.without tid }.endThread tid
    else x

variable {tid : Nat} {x : Section}

private theorem held_endThread (c : Core) :
    ({ x with core := c }.endThread tid).core.held tid = c.held tid :=
  (Core.held_decRqLen _ _).trans ((Core.wakes_wakeJoiners tid c).held tid)

private theorem killsExactly_of_removes {found r a b j : Bool} (halive : tid ∈ x.activeTids)
    (h : x.core.removeThread tid = (found, x.core.searched tid r a b j)) :
    x.KillsExactly tid ↔ (found = true ↔ x.core.Listed tid) ∧ (x.core.Listed tid →
      (x.core.searched tid r a b j).held tid = (x.core.without tid).held tid) := by
  rw [KillsExactly, killLocally, if_neg (not_not.mpr halive), h]
  by_cases hlisted : x.core.Listed tid
  · cases found with
    | false => simp [halive, hlisted]
    | true =>
      simp only [halive, hlisted, and_self, if_true, not_true_eq_false, or_true, true_and,
        true_imp_iff]
      refine ⟨fun heq ↦ ?_, fun heq ↦ by rw [Core.searched_eq heq]⟩
      have := congrArg (fun y ↦ y.core.held tid) heq
      rwa [held_endThread, held_endThread] at this
  · cases found with
    | true => simp [halive, hlisted]
    | false =>
      refine iff_of_true ⟨by simp [halive, hlisted], ?_⟩
        ⟨by simp [hlisted], fun hl ↦ absurd hl hlisted⟩
      rw [if_neg fun hand ↦ hlisted hand.2, Core.searched_of_not_listed hlisted]
      rfl

/-- For every core and every thread: `kill_locally` is exact if and only if the thread is dead or
the searches report it. -/
theorem killsExactly_iff (tid : Nat) (x : Section) :
    x.KillsExactly tid ↔ tid ∉ x.activeTids ∨ x.core.Reported tid := by
  by_cases halive : tid ∈ x.activeTids
  · rw [or_iff_right (not_not.mpr halive), Core.Reported]
    have heq := Core.removeThread_eq tid x.core
    split_ifs at heq ⊢
    all_goals
      rw [killsExactly_of_removes halive heq, Core.listed_iff, Core.without, Core.held_searched,
        Core.held_searched]
      simp only [and_self, if_true, Bool.false_eq_true, false_and, if_false, decide_eq_true_eq,
        true_iff]
      omega
  · refine iff_of_true ?_ (.inl halive)
    rw [KillsExactly, killLocally, if_pos halive]
    exact ⟨iff_of_true rfl (.inl halive), (if_neg fun h ↦ halive h.1).symm⟩

/-- A thread of another core is reported as killed and recorded as dead, because one thread is
ready here. -/
theorem killLocally_reports_absent : ∃ x : Section, 2 ∈ x.activeTids ∧ ¬ x.core.Listed 2 ∧
    (x.killLocally 2).1 = true ∧ 2 ∉ (x.killLocally 2).2.activeTids :=
  ⟨⟨{ System.bootCore ⟨0, 0⟩ with readyQueue := [⟨1, 0⟩] }, {1, 2}, fun _ ↦ .ready, []⟩,
    by decide⟩

end Section

end D3OS.Scheduler
