import D3OS.Ibverbs.Completions

/-!
# Resets

A reset of the card starts its queues anew. `modify` of the library only records the state,
`queue_pair.rs:228-246`: head, tail, the doorbell record and the stamps stay as the requests of
before have left them. So the queues agree with the card behind a reset if nothing was posted.
-/

namespace D3OS.Ibverbs

open Lib Rdma

/-- The queues are as `create` hands them to the card. -/
structure QueuePair.Fresh (qp : QueuePair) : Prop where
  head_eq : qp.sq.head = 0 ∧ qp.rq.head = 0
  tail_eq : qp.sq.tail = 0 ∧ qp.rq.tail = 0
  record_eq : qp.receiveWqeCounter = 0
  stamped : ∃ bytes, qp.sq.Mapped bytes ∧
    ∀ i < qp.sq.wqeCnt, WorkQueue.Stamped qp.sq.toWorkQueueSizes bytes i

namespace System

/-- The event is a successful request for a state. -/
def Requests (e : Event) (state : QueuePairState) : Prop :=
  ∃ attr attrMask, e = .modify attr attrMask (.ok ()) ∧ attr.qpState = state ∧
    contains attrMask QueuePairAttrMask.ibvQpState = true

/-- As long as nothing was posted, the record and the stamps are those of `create`. -/
def Blank (s : System) : Prop :=
  s.sent = [] → s.received = [] → s.qp.receiveWqeCounter = 0 ∧ ∃ bytes, s.qp.sq.Mapped bytes ∧
    ∀ i < s.qp.sq.wqeCnt, WorkQueue.Stamped s.qp.sq.toWorkQueueSizes bytes i

variable {qp : QueuePair} {mode : Overflow} {s s' : System} {events calls : List Event}

section

variable (hblank : Blank s) (h : Invariant (· ≤ ·) mode s)
include hblank h

private theorem Blank.postSend
    {wrs : List SendWorkRequest} (hstep : step mode s (.postSend wrs) = .ok s') : Blank s' := by
  obtain ⟨bytes, tail, spare, hspare, hsending, -⟩ := h.sending
  obtain ⟨qp', rfl, hqp'⟩ := step_postSend_eq hstep
  intro hsent hreceived
  obtain ⟨hrecord, bytes', hmapped, hstamped⟩ :=
    hblank (List.append_eq_nil_iff.mp hsent).1 hreceived
  cases hmapped.unique hsending.mapped
  have hends := postSend_ends counting_le hspare (J := fun bytes sent ↦ sent = [] →
      ∀ i < s.qp.sq.wqeCnt, WorkQueue.Stamped s.qp.sq.toWorkQueueSizes bytes i)
    (fun _ _ _ _ _ _ _ _ _ hnil ↦ nomatch (List.append_eq_nil_iff.mp hnil).2) hsending
    (fun _ ↦ hstamped) wrs fun _ _ _ ↦ Nat.le_add_left _ _
  obtain ⟨sq', rfl, hsizes, -, bytes', hsending', hstamped'⟩ := hqp' hends
    (fun _ _ h ↦ h.2.2) fun _ _ h he ↦ (h.1 he).2.2
  rw [postedBetween_reaching counting_le hsending hsending'] at hsent
  refine ⟨hrecord, bytes', hsending'.mapped, ?_⟩
  rw [hsizes]
  exact hstamped' hsent

private theorem Blank.step {e : Event} (hstep : System.step mode s e = .ok s') : Blank s' := by
  cases e with
  | modify attr attrMask answer =>
    obtain ⟨state, rfl⟩ := step_modify_eq hstep
    exact hblank
  | postSend wrs => exact hblank.postSend h hstep
  | postReceive wrs =>
    obtain ⟨-, hsq, -, hreceived, -, -, hsent, hrecord⟩ := step_postReceive h hstep
    intro hsent' hreceived'
    rw [hreceived, List.append_eq_nil_iff] at hreceived'
    rw [hrecord hreceived'.2, hsq]
    exact hblank (hsent ▸ hsent') hreceived'.1
  | pollSend =>
    unfold System.step at hstep
    dsimp only at hstep
    split at hstep
    next =>
      cases hstep
      exact hblank
    next i hnext =>
      -- there is something to complete, so something was posted
      obtain ⟨-, wr, hget, -⟩ := nextSignaled_eq_some hnext
      obtain ⟨out, -, hstep⟩ := of_bind hstep
      cases hstep
      intro hsent
      rw [show s.sent = [] from hsent] at hget
      cases hget
  | pollReceive =>
    unfold System.step at hstep
    dsimp only at hstep
    split at hstep
    next hlt =>
      obtain ⟨out, -, hstep⟩ := of_bind hstep
      cases hstep
      intro _ hreceived
      rw [show s.received = [] from hreceived] at hlt
      exact absurd hlt (Nat.not_lt_zero _)
    next =>
      cases hstep
      exact hblank

end

private theorem requests_run {states : List QueuePairState}
    (hcalls : List.Forall₂ Requests calls states) (hup : calls.foldlM (step mode) s = .ok s') :
    s' = { s with qp := { s.qp with state := (states.getLast?).getD s.qp.state } } := by
  induction hcalls generalizing s with
  | nil =>
    cases hup
    rfl
  | @cons e state calls states hrequests _ ih =>
    obtain ⟨attr, attrMask, rfl, rfl, hmask⟩ := hrequests
    obtain ⟨t, ht, hup⟩ := of_bind hup
    have hstep : step mode s (.modify attr attrMask (.ok ())) =
        .ok { s with qp := { s.qp with state := attr.qpState } } := by
      simp only [step, QueuePair.modify, hmask]
      rfl
    cases hstep.symm.trans ht
    rw [ih hup, List.getLast?_cons]
    rfl

private theorem blank_run (h : qp.Created) (hrun : events.foldlM (step mode) (init qp) = .ok s) :
    Blank s := by
  obtain ⟨-, -, hrecord, -, hsending⟩ := h.spec
  obtain ⟨bytes, hsending, hstamped⟩ := hsending mode counting_le
  refine ((foldlM_yields events (I := fun s ↦ Invariant (· ≤ ·) mode s ∧ Blank s)
    (E := fun _ ↦ True) ?_ fun s e hs ↦ ?_).of_ok hrun).2
  · exact ⟨invariant_init h counting_le mode, fun _ _ ↦ ⟨hrecord, bytes, hsending.mapped, hstamped⟩⟩
  · exact yields_of_eq (fun s' hstep ↦ ⟨hs.1.step_le hstep, hs.2.step hs.1 hstep⟩) fun _ _ ↦ trivial

/-- Behind a reset and the way up again, in every run: if nothing was posted before the reset,
the queues are those of a new pair; and if they are, the heads have gone round. -/
theorem reset_fresh (h : qp.Created) (hrun : events.foldlM (step mode) (init qp) = .ok s)
    (hcalls : List.Forall₂ Requests calls [.reset, .init, .readyToReceive, .readyToSend])
    (hup : calls.foldlM (step mode) s = .ok s') :
    s'.qp.state = .readyToSend ∧ (s.sent = [] → s.received = [] → s'.qp.Fresh) ∧
      (s'.qp.Fresh → s.sent.length % 2 ^ 32 = 0 ∧ s.received.length % 2 ^ 32 = 0) := by
  have hinv := invariant_run h hrun
  obtain ⟨bytes, tail, -, -, hsending, -⟩ := hinv.sending
  cases requests_run hcalls hup
  have htail := hsending.tracks.tail_le counting_le
  obtain ⟨hhead, -⟩ := hsending.tracks.counts
  obtain ⟨hrhead, hrdone, -⟩ := hinv.receiving.tracks.counts
  refine ⟨rfl, fun hsent hreceived ↦ ?_, fun hfresh ↦ ?_⟩
  · obtain ⟨hrecord, hstamped⟩ := blank_run h hrun hsent hreceived
    rw [hsent] at hhead htail
    rw [hreceived] at hrhead hrdone
    refine ⟨⟨hhead, hrhead⟩, ⟨?_, ?_⟩, hrecord, hstamped⟩
    · rw [hsending.tracks.tail_eq, Nat.le_zero.mp htail, Nat.zero_mod]
    · rw [hinv.receiving.tracks.tail_eq, Nat.le_zero.mp hrdone, Nat.zero_mod]
  · exact ⟨hhead ▸ hfresh.head_eq.1, hrhead ▸ hfresh.head_eq.2⟩

namespace Sample

/-- A pair is reset and brought up again. -/
def restart : List Event :=
  .modify { qpState := .reset } QueuePairAttrMask.ibvQpState (.ok ()) :: bringUp

/-- A request and its completion in front of the reset. -/
def oneSend : List Event :=
  bringUp ++ ([.postSend [send 1 SendFlags.signaled], .pollSend] ++ restart)

private theorem requests_restart :
    List.Forall₂ Requests restart [.reset, .init, .readyToReceive, .readyToSend] := by
  have hrequests : ∀ state, Requests
      (.modify { qpState := state } QueuePairAttrMask.ibvQpState (.ok ())) state :=
    fun _ ↦ ⟨_, _, rfl, rfl, by decide⟩
  exact .cons (hrequests _) (.cons (hrequests _) (.cons (hrequests _) (.cons (hrequests _) .nil)))

end Sample

/-- A pair that was only brought up is as new behind a reset. -/
theorem reset_fresh_sample : ∃ qp s s', qp.Created ∧
    Sample.bringUp.foldlM (step .panics) (init qp) = .ok s ∧
    Sample.restart.foldlM (step .panics) s = .ok s' ∧ s'.qp.Fresh := by
  obtain ⟨qp, hqp, s, hrun, hsent, hreceived⟩ : ∃ qp, qp.Created ∧
      ∃ s, Sample.bringUp.foldlM (step .panics) (init qp) = .ok s ∧ s.sent = [] ∧
        s.received = [] :=
    QueuePair.Sample.exists_created (by decide +kernel)
  have hup : Sample.restart.foldlM (step .panics) s = .ok _ := rfl
  exact ⟨qp, s, _, hqp, hrun, hup,
    (reset_fresh hqp hrun Sample.requests_restart hup).2.1 hsent hreceived⟩

/-- Behind a request, its completion and a reset, the library goes on with the second element. -/
theorem reset_keeps_head : ∃ qp s, qp.Created ∧
    Sample.oneSend.foldlM (step .panics) (init qp) = .ok s ∧
    s.qp.state = .readyToSend ∧ s.qp.sq.head = 1 ∧ s.qp.sq.tail = 1 := by
  simp only [exists_and_left]
  exact QueuePair.Sample.exists_created (by decide +kernel)

end System

end D3OS.Ibverbs
