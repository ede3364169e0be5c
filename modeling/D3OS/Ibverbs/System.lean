import D3OS.Ibverbs.Create

/-!
# A queue pair and the card

A run interleaves calls of the library with completions of the card. The card executes the
requests of a queue in the order in which they were posted and reports every receive and every
signaled send once; polling resolves the report against the queue. The state records all
requests posted so far, how many of them are covered by a completion, and what was reported.
The card names a request by sixteen bits of its index.
-/

namespace D3OS.Ibverbs

open Lib Rdma

/-- A queue pair with the history of its queues. -/
structure System where
  qp : QueuePair
  sent : List SendWorkRequest
  received : List ReceiveWorkRequest
  sendDone : Nat
  receiveDone : Nat
  sendReports : List (Option UInt64)
  receiveReports : List (Option UInt64)

/-- A call of the library, or a completion that is polled. -/
inductive Event where
  | modify (attr : QueuePairAttr) (attrMask : QueuePairAttrMask) (answer : Except Fault Unit)
  | postSend (wrs : List SendWorkRequest)
  | postReceive (wrs : List ReceiveWorkRequest)
  | pollSend
  | pollReceive

namespace System

/-- The system after `create`. -/
def init (qp : QueuePair) : System := ⟨qp, [], [], 0, 0, [], []⟩

/-- The requests of a call that were posted, told from the movement of the head. -/
def postedBetween {α : Type} (before after : Nat) (wrs : List α) : List α :=
  wrs.take ((after + 2 ^ 32 - before) % 2 ^ 32)

/-- The signaled request that the card completes next. -/
def nextSignaled (s : System) : Option Nat :=
  ((s.sent.drop s.sendDone).findIdx? SendWorkRequest.isSignaled).map (s.sendDone + ·)

/-- The system after an event; a panic ends the run. -/
def step (mode : Overflow) (s : System) : Event → Except Panic System
  | .modify attr attrMask answer =>
    match s.qp.modify attr attrMask answer with
    | .ok qp => .ok { s with qp := qp }
    | .error (.err _) => .ok s
    | .error (.panic reason) => .error reason
  | .postSend wrs =>
    match s.qp.postSend mode wrs with
    | .error (.panic reason) _ => .error reason
    | .ok _ qp | .error (.err _) qp =>
      .ok { s with qp := qp, sent := s.sent ++ postedBetween s.qp.sq.head qp.sq.head wrs }
  | .postReceive wrs =>
    match s.qp.postReceive mode wrs with
    | .error (.panic reason) _ => .error reason
    | .ok _ qp | .error (.err _) qp =>
      .ok { s with qp := qp, received := s.received ++ postedBetween s.qp.rq.head qp.rq.head wrs }
  | .pollSend =>
    match s.nextSignaled with
    | none => .ok s
    | some i => do
      let (wrId, qp) ← s.qp.resolveCompletion mode (i % 2 ^ 16) true
      .ok { s with qp := qp, sendDone := i + 1, sendReports := s.sendReports ++ [wrId] }
  | .pollReceive =>
    if s.receiveDone < s.received.length then do
      let (wrId, qp) ← s.qp.resolveCompletion mode (s.receiveDone % 2 ^ 16) false
      .ok { s with
        qp := qp
        receiveDone := s.receiveDone + 1
        receiveReports := s.receiveReports ++ [wrId] }
    else .ok s

end System

/-- The elements in front of the card carry the wrong owner bit, the outstanding ones the right
one. -/
structure Headroom (sizes : WorkQueueSizes) (spare : Nat) (bytes : Nat → UInt8)
    (index tail : Nat) : Prop where
  stamped : ∀ k < spare, WorkQueue.Stamped sizes bytes (index + k)
  owned : ∀ i, tail ≤ i → i < index →
    ownerBit (bytes (i % sizes.wqeCnt * 2 ^ sizes.wqeShift)) = passParity sizes.wqeCnt i

section

variable {sizes : WorkQueueSizes} {spare index tail : Nat} {bytes bytes' : Nat → UInt8}
  {qpType : QueuePairType} {wr : SendWorkRequest} {opcode : Nat}

private theorem ownerBit_toBe (h : wr.op.opcode = .ok opcode) (cnt index : Nat) :
    (toBe 4 (ownerWord cnt index opcode)).head?.map ownerBit = some (passParity cnt index) := by
  have hparity : passParity cnt index = 0 ∨ passParity cnt index = 1 := by
    have := passParity_lt cnt index
    omega
  unfold ownerWord
  cases hop : wr.op <;> rw [hop] at h <;> cases h <;>
    rcases hparity with hparity | hparity <;> rw [hparity] <;> decide

private theorem ownerBit_element (h : wr.op.opcode = .ok opcode)
    (hposts : Posts sizes spare index
      (wqeBytes qpType wr (ownerWord sizes.wqeCnt index opcode)) bytes bytes') :
    ownerBit (bytes' (index % sizes.wqeCnt * 2 ^ sizes.wqeShift)) =
      passParity sizes.wqeCnt index := by
  have hlen : 0 < (wqeBytes qpType wr (ownerWord sizes.wqeCnt index opcode)).length := by
    rw [length_wqeBytes, controlSegmentSize]
    omega
  have hfirst : (slice bytes' (index % sizes.wqeCnt * 2 ^ sizes.wqeShift) _)[0]? = some _ :=
    getElem?_slice hlen
  rw [hposts.element, Nat.add_zero, wqeBytes,
    List.getElem?_append_left (by rw [length_toBe]; decide), ← List.head?_eq_getElem?] at hfirst
  have hhead := ownerBit_toBe h sizes.wqeCnt index
  rw [hfirst] at hhead
  exact Option.some.inj hhead

/-- A post stamps what it takes from the headroom. -/
theorem Headroom.posts (h : Headroom sizes spare bytes index tail)
    (hopcode : wr.op.opcode = .ok opcode) (hpos : 0 < spare)
    (hsum : sizes.maxPost + spare = sizes.wqeCnt) (hroom : index + 2 ≤ tail + sizes.maxPost)
    (hposts : Posts sizes spare index
      (wqeBytes qpType wr (ownerWord sizes.wqeCnt index opcode)) bytes bytes') :
    Headroom sizes spare bytes' (index + 1) tail := by
  refine ⟨fun k hk ↦ ?_, fun i hi hlt ↦ ?_⟩
  · rcases Nat.lt_or_ge (k + 1) spare with hlt | hge
    · have hstamped := h.stamped (k + 1) hlt
      rw [show index + (k + 1) = index + 1 + k by omega] at hstamped
      exact hstamped.congr (hposts.keeps_headroom (by omega) (by omega) (by omega))
    · rw [show index + 1 + k = index + spare by omega]
      exact hposts.stamped
  · rcases Nat.lt_succ_iff_lt_or_eq.mp hlt with hlt | rfl
    · rw [hposts.keeps hpos hsum hroom hi hlt _ (Nat.mul_div_cancel _ (Nat.two_pow_pos _))]
      exact h.owned i hi hlt
    · exact ownerBit_element hopcode hposts

end

variable {done tail i : Nat}

section

variable {R : Nat → Nat → Prop} {mode mode' : Overflow}

private theorem slot_short {sizes : WorkQueueSizes} (h : sizes.wqeCnt ≤ 2 ^ 15) (i : Nat) :
    i % 2 ^ 16 % sizes.wqeCnt = i % sizes.wqeCnt := by
  apply slot_stored
  rw [sizes.wqeCnt_eq] at h ⊢
  exact Nat.pow_dvd_pow 2
    (Nat.le_trans ((Nat.pow_le_pow_iff_right (by decide)).mp h) (by decide))

private theorem Sending.resolve {qpType : QueuePairType} {sq : WorkQueue} {bytes : Nat → UInt8}
    {sent : List SendWorkRequest} {wr : SendWorkRequest} (hR : Counting R)
    (h : Sending R mode qpType sq bytes sent done tail) (hcnt : sq.wqeCnt ≤ 2 ^ 15)
    (hdone : done ≤ i) (hget : sent[i]? = some wr) (hsignaled : wr.isSignaled = true)
    (hbetween : ∀ j, done ≤ j → j < i → ∃ wr, sent[j]? = some wr ∧ wr.isSignaled = false) :
    Yields (sq.resolveCompletion mode' (i % 2 ^ 16))
      (fun out ↦ out.1 = some wr.wrId ∧ out.2.toWorkQueueSizes = sq.toWorkQueueSizes ∧
        out.2.buffer = sq.buffer ∧ out.2.head = sq.head ∧ ∃ chain, R chain (i - done + 1) ∧
          Tracks R out.2 (sent.map SendWorkRequest.request) (i + 1) (tail + chain) ∧
          (mode' = .panics → sq.tail + chain < 2 ^ 32))
      fun e ↦ e = .overflow ∧ mode' = .panics ∧
        ∃ chain, R chain (i - done + 1) ∧ 2 ^ 32 ≤ sq.tail + chain := by
  have hget' : (sent.map SendWorkRequest.request)[i]? = some wr.request := by
    rw [List.getElem?_map, hget]
    rfl
  refine h.tracks.resolve hR h.sizes.maxPost_le hdone hget' hsignaled (fun j hj hji ↦ ?_)
    (slot_short hcnt i)
  obtain ⟨wr, hget, hunsignaled⟩ := hbetween j hj hji
  exact ⟨wr.request, by rw [List.getElem?_map, hget]; rfl, hunsignaled⟩

private theorem Receiving.resolve {rq : WorkQueue} {received : List ReceiveWorkRequest}
    (h : Receiving rq received done) (hcnt : rq.wqeCnt ≤ 2 ^ 15) (hlt : done < received.length) :
    Yields (rq.resolveCompletion mode' (done % 2 ^ 16))
      (fun out ↦ out.1 = some received[done].wrId ∧
        out.2.toWorkQueueSizes = rq.toWorkQueueSizes ∧ out.2.buffer = rq.buffer ∧
        Tracks (· = ·) out.2 (received.map ReceiveWorkRequest.request) (done + 1) (done + 1) ∧
        (mode' = .panics → rq.tail + 1 < 2 ^ 32))
      fun e ↦ e = .overflow ∧ mode' = .panics ∧ 2 ^ 32 ≤ rq.tail + 1 := by
  have hget : (received.map ReceiveWorkRequest.request)[done]? = some received[done].request := by
    rw [List.getElem?_map, List.getElem?_eq_getElem hlt]
    rfl
  refine (h.tracks.resolve counting_eq h.sizes.maxPost_le (Nat.le_refl _) hget rfl
    (fun j hj hji ↦ absurd hj (by omega)) (slot_short hcnt _)).mono ?_ ?_
  · rintro out ⟨hwrId, hsizes, hbuffer, -, chain, hchain, htracks, hfits⟩
    rw [Nat.sub_self, Nat.zero_add] at hchain
    cases hchain
    exact ⟨hwrId, hsizes, hbuffer, htracks, hfits⟩
  · rintro e ⟨he, hmode, chain, hchain, hle⟩
    rw [Nat.sub_self, Nat.zero_add] at hchain
    cases hchain
    exact ⟨he, hmode, hle⟩

end

namespace System

/-- What holds in every state of a run. -/
structure Invariant (R : Nat → Nat → Prop) (mode : Overflow) (s : System) : Prop where
  sending : ∃ bytes tail spare, s.qp.sq.spareWqes = some spare ∧
    Sending R mode s.qp.qpType s.qp.sq bytes s.sent s.sendDone tail ∧
    Headroom s.qp.sq.toWorkQueueSizes spare bytes s.sent.length tail
  receiving : Receiving s.qp.rq s.received s.receiveDone
  sq_le : s.qp.sq.wqeCnt ≤ 2 ^ 15
  rq_le : s.qp.rq.wqeCnt ≤ 2 ^ 15
  sendReports_eq : s.sendReports =
    ((s.sent.take s.sendDone).filter SendWorkRequest.isSignaled).map fun wr ↦ some wr.wrId
  receiveReports_eq : s.receiveReports =
    (s.received.take s.receiveDone).map fun wr ↦ some wr.wrId

variable {R : Nat → Nat → Prop} {mode : Overflow} {s s' : System} {qp : QueuePair}

/-- The invariant holds of a new queue pair. -/
theorem invariant_init (h : qp.Created) (hR : Counting R) (mode : Overflow) :
    Invariant R mode (init qp) := by
  obtain ⟨hsq, hrq, -, hreceiving, hsending⟩ := h.spec
  obtain ⟨bytes, hsending, hstamped⟩ := hsending mode hR
  obtain ⟨spare, hspare, -, hsum⟩ := hsending.sizes.spare
  refine ⟨⟨bytes, 0, spare, hspare, hsending, fun k hk ↦ ?_, fun i _ hi ↦ ?_⟩, hreceiving, hsq, hrq,
    rfl, rfl⟩
  · rw [init, List.length_nil, Nat.zero_add]
    exact hstamped k (show k < qp.sq.wqeCnt by omega)
  · exact absurd hi (Nat.not_lt_zero i)

private theorem postedBetween_eq (hR : Counting R) {α : Type} {request : α → Request}
    {old posted wrs : List α} {wq wq' : WorkQueue} (h : Tracks R wq (old.map request) done tail)
    (h' : Tracks R wq' ((old ++ posted).map request) done tail) (hmax : wq'.maxPost < 2 ^ 32)
    (hfront : posted <+: wrs) : postedBetween wq.head wq'.head wrs = posted := by
  have htail := h.tail_le hR
  obtain ⟨hhead, -, hroom⟩ := h'.counts
  rw [List.length_append] at hhead hroom
  have hcount : (wq'.head + 2 ^ 32 - wq.head) % 2 ^ 32 = posted.length := by
    rw [h.counts.1, hhead]
    omega
  rw [postedBetween, hcount]
  exact (List.prefix_iff_eq_take.mp hfront).symm

private theorem reached_front (maxGs room : Nat) (wrs : List SendWorkRequest) :
    reached maxGs room wrs <+: wrs := by
  induction wrs generalizing room with
  | nil => cases room <;> exact List.nil_prefix
  | cons wr wrs ih =>
    cases room with
    | zero => exact List.nil_prefix
    | succ room =>
      rw [reached]
      split
      · exact List.nil_prefix
      · exact List.cons_prefix_cons.mpr ⟨rfl, ih room⟩

private theorem reaching_front (qp : QueuePair) (wrs : List SendWorkRequest) : qp.reaching wrs <+:
    wrs := by
  rw [QueuePair.reaching]
  split
  · exact reached_front _ _ _
  · exact List.nil_prefix

private theorem admitting_front (qp : QueuePair) (wrs : List ReceiveWorkRequest) :
    qp.admitting wrs <+: wrs := by
  rw [QueuePair.admitting]
  split
  · exact admitted_front _ _ _
  · exact List.nil_prefix

variable {wrs : List SendWorkRequest}

/-- A call of `post_send` that did not panic. -/
theorem step_postSend_eq (h : step mode s (.postSend wrs) = .ok s') : ∃ qp',
    s' = { s with qp := qp', sent := s.sent ++ postedBetween s.qp.sq.head qp'.sq.head wrs } ∧
    ∀ {P : QueuePair → Prop} {Q : Unit → QueuePair → Prop} {E : Fault → QueuePair → Prop},
      Ends (QueuePair.postSend mode wrs) s.qp Q E → (∀ a qp', Q a qp' → P qp') →
      (∀ e qp', E e qp' → e.IsErr → P qp') → P qp' := by
  unfold step at h
  dsimp only at h
  split at h
  next => cases h
  next a qp' hcall =>
    cases h
    exact ⟨qp', rfl, fun hends hQ _ ↦ hQ a qp' (hends.of_ok hcall)⟩
  next message qp' hcall =>
    cases h
    exact ⟨qp', rfl, fun hends _ hE ↦ hE _ qp' (hends.of_error hcall) trivial⟩

/-- The head tells how many requests a call has posted. -/
theorem postedBetween_reaching (hR : Counting R) {bytes bytes' : Nat → UInt8}
    {sent : List SendWorkRequest} {sq' : WorkQueue}
    (h : Sending R mode qp.qpType qp.sq bytes sent done tail)
    (h' : Sending R mode qp.qpType sq' bytes' (sent ++ qp.reaching wrs) done tail) :
    postedBetween qp.sq.head sq'.head wrs = qp.reaching wrs := by
  refine postedBetween_eq hR h.tracks h'.tracks ?_ (reaching_front _ _)
  have hmax := h'.sizes.maxPost_le
  have hcnt := h'.sizes.wqeCnt_le
  omega

private theorem step_postSend (hR : Counting R) (h : Invariant R mode s)
    (hstep : step mode s (.postSend wrs) = .ok s')
    (hchain : ∀ wr ∈ s.qp.reaching wrs, wr.isSignaled = true →
      R 1 (trailing (s.sent.map SendWorkRequest.request) + 1)) :
    Invariant R mode s' ∧ s'.sent = s.sent ++ s.qp.reaching wrs ∧ s'.received = s.received := by
  obtain ⟨bytes, tail, spare, hspare, hsending, hheadroom⟩ := h.sending
  obtain ⟨hpos, hsum⟩ := hsending.sizes.spare_eq hspare
  have hends := postSend_ends hR hspare
    (J := fun bytes sent ↦ Headroom s.qp.sq.toWorkQueueSizes spare bytes sent.length tail)
    (fun bytes bytes' sent wr opcode hopcode hroom hJ hposts ↦ by
      rw [List.length_append, List.length_singleton]
      exact hJ.posts hopcode hpos hsum hroom hposts) hsending hheadroom wrs hchain
  obtain ⟨qp', rfl, hqp'⟩ := step_postSend_eq hstep
  obtain ⟨sq', rfl, hsizes, -, bytes', hsending', hheadroom'⟩ := hqp' hends
    (fun _ _ h ↦ h.2.2) fun _ _ h he ↦ (h.1 he).2.2
  rw [postedBetween_reaching hR hsending hsending']
  refine ⟨⟨⟨bytes', tail, spare, hsizes ▸ hspare, hsending', hsizes.symm ▸ hheadroom'⟩, h.receiving,
    hsizes ▸ h.sq_le, h.rq_le, ?_, h.receiveReports_eq⟩, rfl, rfl⟩
  rw [List.take_append_of_le_length hsending.tracks.counts.2.1]
  exact h.sendReports_eq

/-- A call of `post_receive` posts the requests that pass the checks and leaves the send queue
alone. -/
theorem step_postReceive (h : Invariant R mode s) {wrs : List ReceiveWorkRequest}
    (hstep : step mode s (.postReceive wrs) = .ok s') :
    Invariant R mode s' ∧ s'.qp.sq = s.qp.sq ∧ s'.sendDone = s.sendDone ∧
      s'.received = s.received ++ s.qp.admitting wrs ∧ s'.receiveDone = s.receiveDone ∧
      s'.qp.rq.toWorkQueueSizes = s.qp.rq.toWorkQueueSizes ∧ s'.sent = s.sent ∧
      (s.qp.admitting wrs = [] → s'.qp.receiveWqeCounter = s.qp.receiveWqeCounter) := by
  have hends : Ends (QueuePair.postReceive mode wrs) s.qp _ _ := postReceive_ends h.receiving wrs
  obtain ⟨qp', rfl, hsq, htype, hsizes, hreceiving, hrecord⟩ : ∃ qp',
      s' = { s with
        qp := qp'
        received := s.received ++ postedBetween s.qp.rq.head qp'.rq.head wrs } ∧
      qp'.sq = s.qp.sq ∧ qp'.qpType = s.qp.qpType ∧
      qp'.rq.toWorkQueueSizes = s.qp.rq.toWorkQueueSizes ∧
      Receiving qp'.rq (s.received ++ s.qp.admitting wrs) s.receiveDone ∧
      (s.qp.admitting wrs = [] → qp'.receiveWqeCounter = s.qp.receiveWqeCounter) := by
    unfold step at hstep
    dsimp only at hstep
    split at hstep
    next => cases hstep
    next a qp' hcall =>
      cases hstep
      obtain ⟨hall, hsq, htype, -, hsizes, hreceiving, hrecord⟩ := hends.of_ok hcall
      rw [hall]
      exact ⟨qp', rfl, hsq, htype, hsizes, hreceiving, fun hnil ↦ by rw [hrecord, if_pos hnil]⟩
    next message qp' hcall =>
      cases hstep
      obtain ⟨-, hsq, htype, hsizes, hreceiving, hrecord, -⟩ := hends.of_error hcall
      exact ⟨qp', rfl, hsq, htype, hsizes, hreceiving, fun _ ↦ hrecord⟩
  have hposted : postedBetween s.qp.rq.head qp'.rq.head wrs = s.qp.admitting wrs := by
    refine postedBetween_eq counting_eq h.receiving.tracks hreceiving.tracks ?_
      (admitting_front _ _)
    have hmax := hreceiving.sizes.maxPost_le
    have hcnt := hreceiving.sizes.wqeCnt_le
    omega
  rw [hposted]
  refine ⟨⟨?_, hreceiving, hsq ▸ h.sq_le, hsizes ▸ h.rq_le, h.sendReports_eq, ?_⟩, hsq, rfl, rfl,
    rfl, hsizes, rfl, hrecord⟩
  · rw [hsq, htype]
    exact h.sending
  · rw [List.take_append_of_le_length h.receiving.tracks.counts.2.1]
    exact h.receiveReports_eq

/-- A call of `post_receive` that the queue has room for posts all its requests. -/
theorem step_postReceive_of_receivable (h : Invariant R mode s)
    (hstate : s.qp.state = .readyToReceive ∨ s.qp.state = .readyToSend)
    {wrs : List ReceiveWorkRequest}
    (hroom : Receivable mode s.qp.rq s.received s.receiveDone wrs) :
    ∃ s', step mode s (.postReceive wrs) = .ok s' ∧ s'.received = s.received ++ wrs ∧
      s'.receiveDone = s.receiveDone ∧ s'.qp.state = s.qp.state ∧
      s'.qp.rq.toWorkQueueSizes = s.qp.rq.toWorkQueueSizes := by
  have hends : Ends (QueuePair.postReceive mode wrs) s.qp _ _ := postReceive_ends h.receiving wrs
  obtain ⟨⟨⟩, qp', hcall, hall, -, -, hstate', -⟩ :=
    hends.exists_ok fun _ _ he ↦ he.1 ⟨hstate, hroom⟩
  obtain ⟨s', hs', hqp⟩ : ∃ s', step mode s (.postReceive wrs) = .ok s' ∧ s'.qp = qp' :=
    ⟨_, by unfold step; dsimp only; rw [hcall], rfl⟩
  obtain ⟨-, -, -, hreceived, hdone, hsizes, -⟩ := step_postReceive h hs'
  exact ⟨s', hs', hall ▸ hreceived, hdone, hqp ▸ hstate', hsizes⟩

section

variable {attr : QueuePairAttr} {attrMask : QueuePairAttrMask} {answer : Except Fault Unit}

/-- A call of `modify` changes nothing but the state of the queue pair. -/
theorem step_modify_eq (hstep : step mode s (.modify attr attrMask answer) = .ok s') :
    ∃ state, s' = { s with qp := { s.qp with state := state } } := by
  unfold step at hstep
  dsimp only at hstep
  split at hstep
  next qp hmodify =>
    cases hstep
    obtain ⟨-, -, hmodify⟩ := of_bind hmodify
    split at hmodify <;> cases hmodify <;> exact ⟨_, rfl⟩
  next =>
    cases hstep
    exact ⟨_, rfl⟩
  next => cases hstep

/-- `modify` keeps the invariant and the send queue. -/
theorem step_modify (h : Invariant R mode s)
    (hstep : step mode s (.modify attr attrMask answer) = .ok s') :
    Invariant R mode s' ∧ s'.qp.sq = s.qp.sq ∧ s'.sendDone = s.sendDone := by
  obtain ⟨state, rfl⟩ := step_modify_eq hstep
  exact ⟨⟨h.sending, h.receiving, h.sq_le, h.rq_le, h.sendReports_eq, h.receiveReports_eq⟩, rfl,
    rfl⟩

end

/-- What the next signaled request is. -/
theorem nextSignaled_eq_some (h : s.nextSignaled = some i) :
    s.sendDone ≤ i ∧ ∃ wr, s.sent[i]? = some wr ∧ wr.isSignaled = true ∧
      ∀ j, s.sendDone ≤ j → j < i → ∃ wr, s.sent[j]? = some wr ∧ wr.isSignaled = false := by
  obtain ⟨k, hk, rfl⟩ := Option.map_eq_some_iff.mp h
  obtain ⟨hlt, hsignaled, hbefore⟩ := List.findIdx?_eq_some_iff_getElem.mp hk
  rw [List.length_drop] at hlt
  refine ⟨Nat.le_add_right _ _, s.sent[s.sendDone + k], ?_, ?_, fun j hj hjk ↦ ?_⟩
  · exact List.getElem?_eq_getElem _
  · rwa [List.getElem_drop] at hsignaled
  · obtain ⟨m, rfl⟩ := Nat.exists_eq_add_of_le hj
    have hunsignaled := hbefore m (by omega)
    rw [List.getElem_drop] at hunsignaled
    exact ⟨_, List.getElem?_eq_getElem _, Bool.not_eq_true _ ▸ hunsignaled⟩

private theorem reports_succ {wr : SendWorkRequest} (hdone : s.sendDone ≤ i)
    (hget : s.sent[i]? = some wr) (hsignaled : wr.isSignaled = true)
    (hbetween : ∀ j, s.sendDone ≤ j → j < i →
      ∃ wr, s.sent[j]? = some wr ∧ wr.isSignaled = false) :
    ((s.sent.take (i + 1)).filter SendWorkRequest.isSignaled).map (fun wr ↦ some wr.wrId) =
      ((s.sent.take s.sendDone).filter SendWorkRequest.isSignaled).map (fun wr ↦ some wr.wrId) ++
        [some wr.wrId] := by
  have hskip : ∀ k, s.sendDone + k ≤ i →
      (s.sent.take (s.sendDone + k)).filter SendWorkRequest.isSignaled =
        (s.sent.take s.sendDone).filter SendWorkRequest.isSignaled := by
    intro k hk
    induction k with
    | zero => rfl
    | succ k ih =>
      obtain ⟨skipped, hget', hunsignaled⟩ := hbetween (s.sendDone + k) (Nat.le_add_right _ _)
        (by omega)
      rw [← Nat.add_assoc, List.take_add_one, hget', List.filter_append, ih (by omega)]
      simp [hunsignaled]
  obtain ⟨k, rfl⟩ := Nat.exists_eq_add_of_le hdone
  rw [List.take_add_one, hget, List.filter_append, hskip k (Nat.le_refl _), List.map_append]
  simp [hsignaled]

/-- Polling the completion of a send resolves it. -/
theorem pollSend_yields (hR : Counting R) (h : Invariant R mode s) :
    Yields (step mode s .pollSend) (fun s' ↦ Invariant R mode s' ∧ s'.sent = s.sent ∧
        s.sendDone ≤ s'.sendDone ∧ s'.qp.sq.buffer = s.qp.sq.buffer ∧
        s'.qp.sq.toWorkQueueSizes = s.qp.sq.toWorkQueueSizes)
      fun _ ↦ False := by
  obtain ⟨bytes, tail, spare, hspare, hsending, hheadroom⟩ := h.sending
  unfold step
  dsimp only
  split
  next => exact ⟨h, rfl, Nat.le_refl _, rfl, rfl⟩
  next i hnext =>
    obtain ⟨hdone, wr, hget, hsignaled, hbetween⟩ := nextSignaled_eq_some hnext
    have hresolve : Yields (s.qp.sq.resolveCompletion mode (i % 2 ^ 16)) _ _ :=
      hsending.resolve hR h.sq_le hdone hget hsignaled hbetween
    rw [yields_bind, QueuePair.resolveCompletion, if_pos rfl, yields_bind]
    refine hresolve.mono ?_ ?_
    · rintro ⟨wrId, sq'⟩ ⟨hwrId, hsizes, hbuffer, -, chain, -, htracks, -⟩
      dsimp only at hwrId hsizes hbuffer htracks
      refine ⟨⟨⟨bytes, tail + chain, spare, hsizes ▸ hspare, ?_, ?_⟩, h.receiving, hsizes ▸ h.sq_le,
        h.rq_le, ?_, h.receiveReports_eq⟩, rfl, ?_, hbuffer, hsizes⟩
      · exact ⟨hsizes ▸ hsending.sizes, hsending.mapped.congr hsizes hbuffer, htracks,
          hsending.bound⟩
      · rw [hsizes]
        exact ⟨hheadroom.stamped, fun i hi hlt ↦ hheadroom.owned i (by omega) hlt⟩
      · rw [reports_succ hdone hget hsignaled hbetween, ← h.sendReports_eq, hwrId]
      · exact Nat.le_succ_of_le hdone
    · rintro e ⟨-, hmode, chain, hchain, hle⟩
      have hlen : i < s.sent.length := (List.getElem?_eq_some_iff.mp hget).1
      have hbound := hsending.bound hmode
      have htail := hR.le hsending.tracks.tail_rel
      have hchain' := hR.le hchain
      rw [hsending.tracks.tail_eq] at hle
      omega

/-- Polling the completion of a receive resolves it, unless the tail overflows. -/
theorem pollReceive_yields (h : Invariant R mode s) :
    Yields (step mode s .pollReceive)
      (fun s' ↦ Invariant R mode s' ∧ s'.qp.sq = s.qp.sq ∧ s'.sendDone = s.sendDone ∧
        s'.received = s.received ∧ s'.qp.state = s.qp.state ∧
        s'.qp.rq.toWorkQueueSizes = s.qp.rq.toWorkQueueSizes ∧
        s'.receiveDone = min (s.receiveDone + 1) s.received.length ∧
        (s.receiveDone < s.received.length → mode = .panics → s.qp.rq.tail + 1 < 2 ^ 32))
      fun e ↦ e = .overflow ∧ ¬ (s.receiveDone < s.received.length → mode = .panics →
        s.qp.rq.tail + 1 < 2 ^ 32) := by
  unfold step
  dsimp only
  split
  next hlt =>
    have hresolve : Yields (s.qp.rq.resolveCompletion mode (s.receiveDone % 2 ^ 16)) _ _ :=
      h.receiving.resolve h.rq_le hlt
    rw [yields_bind, QueuePair.resolveCompletion, if_neg Bool.false_ne_true, yields_bind]
    refine hresolve.mono ?_ fun e ⟨he, hmode, hle⟩ ↦
      ⟨he, fun hfits ↦ Nat.not_lt.mpr hle (hfits hlt hmode)⟩
    rintro ⟨wrId, rq'⟩ ⟨hwrId, hsizes, hbuffer, htracks, hfits⟩
    dsimp only at hwrId hsizes hbuffer htracks
    obtain ⟨bytes, hmapped⟩ := h.receiving.mapped
    refine ⟨⟨h.sending, ⟨hsizes ▸ h.receiving.sizes, ⟨bytes, hmapped.congr hsizes hbuffer⟩,
      htracks⟩, h.sq_le, hsizes ▸ h.rq_le, h.sendReports_eq, ?_⟩, rfl, rfl, rfl, rfl, hsizes,
      (Nat.min_eq_left hlt).symm, fun _ ↦ hfits⟩
    rw [List.take_add_one, List.getElem?_eq_getElem hlt, List.map_append, ← h.receiveReports_eq,
      hwrId]
    rfl
  next hlt =>
    have hdone := h.receiving.tracks.counts.2.1
    exact ⟨h, rfl, rfl, rfl, rfl, rfl, by omega, fun hlt' ↦ absurd hlt' hlt⟩

/-- The condition under which a call of `post_send` counts its chain as the relation wants. -/
def Counted (R : Nat → Nat → Prop) (s : System) : Event → Prop
  | .postSend wrs => ∀ wr ∈ s.qp.reaching wrs, wr.isSignaled = true →
    R 1 (trailing (s.sent.map SendWorkRequest.request) + 1)
  | _ => True

/-- Every event keeps the invariant. -/
theorem Invariant.step (hR : Counting R) (h : Invariant R mode s) {e : Event}
    (hcounted : Counted R s e) (hstep : System.step mode s e = .ok s') : Invariant R mode s' := by
  cases e with
  | modify attr attrMask answer => exact (step_modify h hstep).1
  | postSend wrs => exact (step_postSend hR h hstep hcounted).1
  | postReceive wrs => exact (step_postReceive h hstep).1
  | pollSend => exact ((pollSend_yields hR h).of_ok hstep).1
  | pollReceive => exact ((pollReceive_yields h).of_ok hstep).1

/-- Every event keeps the invariant. -/
theorem Invariant.step_le (h : Invariant (· ≤ ·) mode s) {e : Event}
    (hstep : System.step mode s e = .ok s') : Invariant (· ≤ ·) mode s' := by
  refine h.step counting_le ?_ hstep
  cases e with
  | postSend wrs => exact fun _ _ _ ↦ Nat.le_add_left _ _
  | _ => trivial

/-- The invariant holds in every state of every run, with bounds instead of exact counts. -/
theorem invariant_run (h : qp.Created) {events : List Event}
    (hrun : events.foldlM (step mode) (init qp) = .ok s) : Invariant (· ≤ ·) mode s := by
  refine (foldlM_yields events (I := Invariant (· ≤ ·) mode) (E := fun _ ↦ True)
    (invariant_init h counting_le mode) fun s e hs ↦ ?_).of_ok hrun
  exact yields_of_eq (fun s' hstep ↦ hs.step_le hstep) fun _ _ ↦ trivial

end System

end D3OS.Ibverbs
