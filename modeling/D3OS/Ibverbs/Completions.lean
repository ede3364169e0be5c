import D3OS.Ibverbs.System

/-!
# Runs of a queue pair

What the tail counts, what the card finds in the send queue and what polling reports, in every
state that calls and completions can reach from `create`.
-/

namespace D3OS.Ibverbs

open Lib Rdma

namespace System

variable {qp : QueuePair} {mode : Overflow} {events : List Event} {s : System}

/-- No unsignaled request is left over from earlier calls when a call posts a signaled one:
`post_send` starts to count the chain anew in every call. -/
def Chained (s : System) : Event → Prop
  | .postSend wrs => trailing (s.sent.map SendWorkRequest.request) = 0 ∨
    ∀ wr ∈ s.qp.reaching wrs, wr.isSignaled = false
  | _ => True

instance (s : System) (e : Event) : Decidable (Chained s e) := by
  cases e <;> unfold Chained <;> infer_instance

private theorem counted_of_chained {e : Event} (h : Chained s e) : Counted (· = ·) s e := by
  cases e with
  | postSend wrs =>
    intro wr hmem hsignaled
    rcases h with hzero | hnone
    · rw [hzero]
    · exact absurd (hnone wr hmem) (by rw [hsignaled]; decide)
  | _ => trivial

private theorem reached_eq {maxGs room : Nat} {wrs : List SendWorkRequest}
    (hlen : wrs.length ≤ room) (hsges : ∀ wr ∈ wrs, wr.sgeCount ≤ maxGs) :
    reached maxGs room wrs = wrs := by
  induction wrs generalizing room with
  | nil => cases room <;> rfl
  | cons wr wrs ih =>
    rw [List.length_cons] at hlen
    obtain ⟨room, rfl⟩ : ∃ room', room = room' + 1 := ⟨room - 1, by omega⟩
    rw [reached, if_neg (Nat.not_lt.mpr (hsges wr List.mem_cons_self)),
      ih (by omega) fun wr' hmem ↦ hsges wr' (List.mem_cons_of_mem _ hmem)]

private theorem accepts_new (h : Invariant (· = ·) mode s) (hall : s.sendDone = s.sent.length)
    (hstate : s.qp.state = .readyToSend) (hnumber : s.qp.number < 2 ^ 24)
    {wrs : List SendWorkRequest} (hlen : wrs.length < s.qp.sq.maxPost)
    (hsges : ∀ wr ∈ wrs, wr.sgeCount ≤ s.qp.sq.maxGs) {spare : Nat}
    (hspare : s.qp.sq.spareWqes = some spare)
    (hpostable : AllPostable mode spare s.sent.length wrs) :
    ∃ qp', QueuePair.postSend mode wrs s.qp = .ok () qp' := by
  obtain ⟨bytes, tail, spare', hspare', hsending, -⟩ := h.sending
  have hreaching : s.qp.reaching wrs = wrs := by
    rw [QueuePair.reaching, if_pos hstate, hsending.free_eq counting_eq]
    refine reached_eq ?_ hsges
    cases hsending.tracks.tail_rel
    omega
  have hzero : trailing (s.sent.map SendWorkRequest.request) = 0 := by
    have hboundary := hsending.tracks.boundary
    rwa [hall, ← List.length_map (f := SendWorkRequest.request), List.take_length] at hboundary
  have hends := postSend_ends (J := fun _ _ ↦ True) counting_eq hspare
    (fun _ _ _ _ _ _ _ _ _ ↦ trivial) hsending trivial wrs
    (counted_of_chained (show Chained s (.postSend wrs) from .inl hzero))
  obtain ⟨⟨⟩, qp', hqp', -⟩ := hends.exists_ok fun e qp' hfault ↦ by
    by_cases he : e.IsErr
    · exact (hfault.1 he).1 ⟨hstate, hreaching⟩
    · exact hfault.2 he ⟨hreaching.symm ▸ hpostable, fun _ _ _ ↦ hnumber⟩
  exact ⟨qp', hqp'⟩

/-- In every run of chained calls the tail is the number of requests that a completion has
covered, so a queue whose requests have all completed is empty again. -/
theorem tail_covers_completions (h : qp.Created)
    (hrun : events.foldlM (step mode) (init qp) = .ok s)
    (hchained : Along (step mode) (fun s e _ ↦ Chained s e) (init qp) events) :
    s.qp.sq.tail = s.sendDone % 2 ^ 32 ∧
    (s.qp.sq.head + 2 ^ 32 - s.qp.sq.tail) % 2 ^ 32 = s.sent.length - s.sendDone ∧
    (s.sendDone = s.sent.length → s.qp.sq.wouldOverflow mode = .ok false ∧
      (s.qp.state = .readyToSend → s.qp.number < 2 ^ 24 → ∀ wrs spare,
        wrs.length < s.qp.sq.maxPost → (∀ wr ∈ wrs, wr.sgeCount ≤ s.qp.sq.maxGs) →
        s.qp.sq.spareWqes = some spare → AllPostable mode spare s.sent.length wrs →
        ∃ qp', QueuePair.postSend mode wrs s.qp = .ok () qp')) := by
  have hinv : Invariant (· = ·) mode s :=
    hchained.invariant hrun (invariant_init h counting_eq mode) fun _ _ _ hs hstep hc ↦
      hs.step counting_eq (counted_of_chained hc) hstep
  obtain ⟨bytes, tail, spare, hspare, hsending, -⟩ := hinv.sending
  cases hsending.tracks.tail_rel
  obtain ⟨hhead, hdone, hroom⟩ := hsending.tracks.counts
  have htail := hsending.tracks.tail_eq
  have hmax : s.qp.sq.maxPost ≤ 2 ^ 17 :=
    Nat.le_trans hsending.sizes.maxPost_le hsending.sizes.wqeCnt_le
  refine ⟨htail, ?_, fun hall ↦ ⟨?_, fun hstate hnumber wrs spare hlen hsges hspare hpostable ↦
    accepts_new hinv hall hstate hnumber hlen hsges hspare hpostable⟩⟩
  · omega
  · have hcheck : Yields (s.qp.sq.wouldOverflow mode) _ _ :=
      hsending.tracks.wouldOverflow counting_eq hmax
    obtain ⟨full, hfull, rfl⟩ := hcheck.exists_ok fun _ ⟨hmode, hle⟩ ↦
      absurd (hsending.bound hmode) (Nat.not_lt.mpr hle)
    have hge := hsending.sizes.le_maxPost
    rw [hfull, hall, Nat.sub_self, decide_eq_false (by omega)]

namespace Sample

/-- A connection is brought up. -/
def bringUp : List Event := [QueuePairState.init, .readyToReceive, .readyToSend].map fun state ↦
  .modify { qpState := state } QueuePairAttrMask.ibvQpState (.ok ())

/-- A message of 64 bytes. -/
def send (wrId : UInt64) (sendFlags : SendFlags) : SendWorkRequest :=
  ⟨wrId, .sges [⟨0x10000000000, 64, 1⟩], sendFlags, .send⟩

/-- An unsignaled and a signaled request in one call, and the completion that covers both. -/
def oneCall : List Event := bringUp ++ [.postSend [send 1 0, send 2 SendFlags.signaled], .pollSend]

/-- The same requests in two calls. -/
def twoCalls : List Event :=
  bringUp ++ [.postSend [send 1 0], .postSend [send 2 SendFlags.signaled], .pollSend]

end Sample

/-- Two requests of one call and their completion. -/
theorem tail_covers_completions_sample : ∃ qp s, qp.Created ∧
    Sample.oneCall.foldlM (step .panics) (init qp) = .ok s ∧
    Along (step .panics) (fun s e _ ↦ Chained s e) (init qp) Sample.oneCall ∧
    s.sent.length = 2 ∧ s.sendDone = 2 ∧ s.qp.sq.tail = 2 := by
  obtain ⟨qp, hqp, s, hrun, hsent, hdone, hchained⟩ : ∃ qp, qp.Created ∧
      ∃ s, Sample.oneCall.foldlM (step .panics) (init qp) = .ok s ∧ s.sent.length = 2 ∧
        s.sendDone = 2 ∧
        Along (step .panics) (fun s e _ ↦ Chained s e) (init qp) Sample.oneCall :=
    QueuePair.Sample.exists_created (by decide +kernel)
  obtain ⟨htail, -⟩ := tail_covers_completions hqp hrun hchained
  rw [hdone] at htail
  exact ⟨qp, s, hqp, hrun, hchained, hsent, hdone, htail⟩

/-- A completion does not cover the request of the earlier call. -/
theorem tail_misses_earlier_call : ∃ qp s, qp.Created ∧
    Sample.twoCalls.foldlM (step .panics) (init qp) = .ok s ∧
    s.sent.length = 2 ∧ s.sendDone = 2 ∧ s.qp.sq.head = 2 ∧ s.qp.sq.tail = 1 := by
  simp only [exists_and_left]
  exact QueuePair.Sample.exists_created (by decide +kernel)

section

/-- The elements from an index up to another one are the same in both buffers. -/
def Unchanged (sizes : WorkQueueSizes) (bytes bytes' : Nat → UInt8) (first last : Nat) : Prop :=
  ∀ i, first ≤ i → i < last → ∀ o, o / 2 ^ sizes.wqeShift = i % sizes.wqeCnt → bytes' o = bytes o

variable {s' : System} {bytes : Nat → UInt8} {tail : Nat}

private theorem unchanged_posts {sizes : WorkQueueSizes} {spare n : Nat} (hpos : 0 < spare)
    (hsum : sizes.maxPost + spare = sizes.wqeCnt) {bytes₁ bytes₂ : Nat → UInt8} {wqe : List UInt8}
    {index : Nat} (hn : n ≤ index) (hroom : index + 2 ≤ tail + sizes.maxPost)
    (h : Unchanged sizes bytes bytes₁ tail n) (hposts : Posts sizes spare index wqe bytes₁ bytes₂) :
    Unchanged sizes bytes bytes₂ tail n := fun i hi hlt o ho ↦
  (hposts.keeps hpos hsum hroom hi (Nat.lt_of_lt_of_le hlt hn) o ho).trans (h i hi hlt o ho)

private theorem postSend_unchanged
    (h : Sending (· ≤ ·) mode s.qp.qpType s.qp.sq bytes s.sent s.sendDone tail)
    {wrs : List SendWorkRequest} (hstep : step mode s (.postSend wrs) = .ok s') :
    s'.sendDone = s.sendDone ∧ ∃ bytes', s'.qp.sq.Mapped bytes' ∧
      Unchanged s.qp.sq.toWorkQueueSizes bytes bytes' tail s.sent.length := by
  obtain ⟨spare, hspare, hpos, hsum⟩ := h.sizes.spare
  have hends := postSend_ends counting_le hspare
    (J := fun bytes' sent' ↦ s.sent.length ≤ sent'.length ∧
      Unchanged s.qp.sq.toWorkQueueSizes bytes bytes' tail s.sent.length)
    (fun bytes₁ bytes₂ sent' wr opcode _ hroom hJ hposts ↦ by
      rw [List.length_append]
      exact ⟨by omega, unchanged_posts hpos hsum hJ.1 hroom hJ.2 hposts⟩)
    h ⟨Nat.le_refl _, fun _ _ _ _ _ ↦ rfl⟩ wrs fun _ _ _ ↦ Nat.le_add_left _ _
  obtain ⟨qp', rfl, hqp'⟩ := step_postSend_eq hstep
  obtain ⟨sq', rfl, -, -, bytes', hsending', -, hunchanged⟩ := hqp' hends
    (fun _ _ h ↦ h.2.2) fun _ _ h he ↦ (h.1 he).2.2
  exact ⟨rfl, bytes', hsending'.mapped, hunchanged⟩

private theorem step_unchanged (h : Invariant (· ≤ ·) mode s)
    (hsending : Sending (· ≤ ·) mode s.qp.qpType s.qp.sq bytes s.sent s.sendDone tail)
    {e : Event} (hstep : step mode s e = .ok s') :
    s.sendDone ≤ s'.sendDone ∧ ∃ bytes', s'.qp.sq.Mapped bytes' ∧
      Unchanged s.qp.sq.toWorkQueueSizes bytes bytes' s.sendDone s.sent.length := by
  have hsame : s'.qp.sq = s.qp.sq → s'.sendDone = s.sendDone →
      s.sendDone ≤ s'.sendDone ∧ ∃ bytes', s'.qp.sq.Mapped bytes' ∧
        Unchanged s.qp.sq.toWorkQueueSizes bytes bytes' s.sendDone s.sent.length :=
    fun hsq hdone ↦ ⟨Nat.le_of_eq hdone.symm, bytes, hsq ▸ hsending.mapped,
      fun _ _ _ _ _ ↦ rfl⟩
  cases e with
  | modify attr attrMask answer =>
    obtain ⟨-, hsq, hdone⟩ := step_modify h hstep
    exact hsame hsq hdone
  | postReceive wrs =>
    obtain ⟨-, hsq, hdone, -⟩ := step_postReceive h hstep
    exact hsame hsq hdone
  | pollReceive =>
    obtain ⟨-, hsq, hdone, -⟩ := (pollReceive_yields h).of_ok hstep
    exact hsame hsq hdone
  | pollSend =>
    obtain ⟨-, -, hdone, hbuffer, hsizes⟩ := (pollSend_yields counting_le h).of_ok hstep
    exact ⟨hdone, bytes, hsending.mapped.congr hsizes hbuffer, fun _ _ _ _ _ ↦ rfl⟩
  | postSend wrs =>
    obtain ⟨hdone, bytes', hmapped, hunchanged⟩ := postSend_unchanged hsending hstep
    exact ⟨Nat.le_of_eq hdone.symm, bytes', hmapped, fun i hi ↦
      hunchanged i (Nat.le_trans hsending.tracks.tail_rel hi)⟩

/-- In every state of every run the elements that the card may prefetch are not valid for it,
the outstanding ones are, and no event changes an outstanding one. -/
theorem headroom_stamped (h : qp.Created) (hrun : events.foldlM (step mode) (init qp) = .ok s) :
    ∃ spare bytes, s.qp.sq.spareWqes = some spare ∧ s.qp.sq.Mapped bytes ∧
      s.qp.sq.head = s.sent.length % 2 ^ 32 ∧
      (∀ k < spare, WorkQueue.Stamped s.qp.sq.toWorkQueueSizes bytes (s.sent.length + k)) ∧
      (∀ i, s.sendDone ≤ i → i < s.sent.length →
        ownerBit (bytes (i % s.qp.sq.wqeCnt * 2 ^ s.qp.sq.wqeShift)) =
          passParity s.qp.sq.wqeCnt i) ∧
      ∀ e s', step mode s e = .ok s' → s.sendDone ≤ s'.sendDone ∧
        ∃ bytes', s'.qp.sq.Mapped bytes' ∧
          Unchanged s.qp.sq.toWorkQueueSizes bytes bytes' s.sendDone s.sent.length := by
  have hinv := invariant_run h hrun
  obtain ⟨bytes, tail, spare, hspare, hsending, hheadroom⟩ := hinv.sending
  exact ⟨spare, bytes, hspare, hsending.mapped, hsending.tracks.counts.1, hheadroom.stamped,
    fun i hi ↦ hheadroom.owned i (Nat.le_trans hsending.tracks.tail_rel hi),
    fun e s' hstep ↦ step_unchanged hinv hsending hstep⟩

/-- The headroom behind two requests of one call. -/
theorem headroom_stamped_sample : ∃ qp s spare bytes, qp.Created ∧
    Sample.oneCall.foldlM (step .panics) (init qp) = .ok s ∧ s.qp.sq.spareWqes = some spare ∧
    s.qp.sq.Mapped bytes ∧
    ∀ k < spare, WorkQueue.Stamped s.qp.sq.toWorkQueueSizes bytes (2 + k) := by
  obtain ⟨qp, hqp, s, hrun, h⟩ : ∃ qp, qp.Created ∧
      ∃ s, Sample.oneCall.foldlM (step .panics) (init qp) = .ok s ∧ s.sent.length = 2 :=
    QueuePair.Sample.exists_created (by decide +kernel)
  obtain ⟨spare, bytes, hspare, hmapped, -, hstamped, -⟩ := headroom_stamped hqp hrun
  rw [h] at hstamped
  exact ⟨qp, s, spare, bytes, hqp, hrun, hspare, hmapped, hstamped⟩

end

section

/-- In every state of every run exactly the completed requests have been reported, in posting
order and each with its own identifier. The next completion is reported as well, unless the tail
of the receive queue overflows. -/
theorem completions_reported_once (h : qp.Created)
    (hrun : events.foldlM (step mode) (init qp) = .ok s) :
    s.sendReports = ((s.sent.take s.sendDone).filter SendWorkRequest.isSignaled).map
      (fun wr ↦ some wr.wrId) ∧
    s.receiveReports = (s.received.take s.receiveDone).map (fun wr ↦ some wr.wrId) ∧
    (∃ s', step mode s .pollSend = .ok s') ∧
    ((∃ s', step mode s .pollReceive = .ok s') ↔
      (s.receiveDone < s.received.length → mode = .panics → s.qp.rq.tail + 1 < 2 ^ 32)) := by
  have hinv := invariant_run h hrun
  refine ⟨hinv.sendReports_eq, hinv.receiveReports_eq, ?_, fun ⟨s', hs'⟩ ↦ ?_, fun hfits ↦ ?_⟩
  · obtain ⟨s', hs', -⟩ := (pollSend_yields counting_le hinv).exists_ok fun _ ↦ id
    exact ⟨s', hs'⟩
  · exact ((pollReceive_yields hinv).of_ok hs').2.2.2.2.2.2.2
  · obtain ⟨s', hs', -⟩ := (pollReceive_yields hinv).exists_ok fun _ he ↦ he.2 hfits
    exact ⟨s', hs'⟩

namespace Sample

/-- A receive into 64 bytes. -/
def receive (wrId : UInt64) : ReceiveWorkRequest := ⟨wrId, [⟨0x10000000000, 64, 1⟩]⟩

/-- Two receives, of which one completes. -/
def receives : List Event := bringUp ++ [.postReceive [receive 1, receive 2], .pollReceive]

end Sample

/-- The first of two receives is reported. -/
theorem completions_reported_once_sample : ∃ qp s, qp.Created ∧
    Sample.receives.foldlM (step .panics) (init qp) = .ok s ∧ s.receiveReports = [some 1] := by
  obtain ⟨qp, hqp, s, hrun, hdone, hreceived⟩ : ∃ qp, qp.Created ∧
      ∃ s, Sample.receives.foldlM (step .panics) (init qp) = .ok s ∧ s.receiveDone = 1 ∧
        s.received = [Sample.receive 1, Sample.receive 2] :=
    QueuePair.Sample.exists_created (by decide +kernel)
  obtain ⟨-, hreports, -⟩ := completions_reported_once hqp hrun
  rw [hdone, hreceived] at hreports
  exact ⟨qp, s, hqp, hrun, hreports⟩

/-- In every run fewer requests are outstanding than the ring has elements. -/
theorem outstanding_lt (h : qp.Created) (hrun : events.foldlM (step mode) (init qp) = .ok s) :
    s.sent.length < s.sendDone + s.qp.sq.wqeCnt ∧
      s.received.length < s.receiveDone + s.qp.rq.wqeCnt := by
  have hinv := invariant_run h hrun
  obtain ⟨_, tail, _, -, hsending, -⟩ := hinv.sending
  have htail : tail ≤ s.sendDone := hsending.tracks.tail_rel
  have hsq := hsending.tracks.counts.2.2
  have hrq := hinv.receiving.tracks.counts.2.2
  have hsizes := hsending.sizes.maxPost_le
  have hsizes' := hinv.receiving.sizes.maxPost_le
  omega

/-- Two receives are outstanding. -/
theorem outstanding_lt_sample : ∃ qp s, qp.Created ∧
    Sample.receives.foldlM (step .panics) (init qp) = .ok s ∧ s.received.length = 2 ∧
    2 < s.receiveDone + s.qp.rq.wqeCnt := by
  obtain ⟨qp, hqp, s, hrun, h⟩ : ∃ qp, qp.Created ∧
      ∃ s, Sample.receives.foldlM (step .panics) (init qp) = .ok s ∧ s.received.length = 2 :=
    QueuePair.Sample.exists_created (by decide +kernel)
  exact ⟨qp, s, hqp, hrun, h, h ▸ (outstanding_lt hqp hrun).2⟩

variable {s : System}

/-- Where no receive is outstanding. -/
private structure Idle (s : System) (n : Nat) : Prop where
  invariant : Invariant (· ≤ ·) .panics s
  state_eq : s.qp.state = .readyToSend
  length_eq : s.received.length = n
  done_eq : s.receiveDone = n
  sges : 1 ≤ s.qp.rq.maxGs

private theorem Idle.post {n : Nat} (h : Idle s n) (hlt : n < 2 ^ 32) : ∃ s',
    step .panics s (.postReceive [Sample.receive 1]) = .ok s' ∧
      Invariant (· ≤ ·) .panics s' ∧ s'.qp.state = .readyToSend ∧ s'.received.length = n + 1 ∧
      s'.receiveDone = n ∧ 1 ≤ s'.qp.rq.maxGs := by
  obtain ⟨hinv, hstate, hlen, hdone, hgs⟩ := h
  have hmax := hinv.receiving.sizes.le_maxPost
  have hroom : Receivable .panics s.qp.rq s.received s.receiveDone [Sample.receive 1] := by
    rw [Receivable, hlen, hdone, List.length_singleton]
    exact ⟨by omega, List.forall_mem_singleton.mpr hgs, fun _ ↦ by omega⟩
  obtain ⟨s', hs', hreceived', hdone', hstate', hsizes'⟩ :=
    step_postReceive_of_receivable hinv (.inr hstate) hroom
  refine ⟨s', hs', (step_postReceive hinv hs').1, hstate'.trans hstate, ?_,
    hdone'.trans hdone, hsizes' ▸ hgs⟩
  rw [hreceived', List.length_append, hlen, List.length_singleton]

private theorem exists_idle {qp : QueuePair} {before : List Event}
    (hrun : before.foldlM (step .panics) (init qp) = .ok s) (h : Idle s 0) {n : Nat}
    (hn : n < 2 ^ 32) :
    ∃ (events : List Event) (s' : System),
      events.foldlM (step .panics) (init qp) = .ok s' ∧ Idle s' n := by
  induction n with
  | zero => exact ⟨before, s, hrun, h⟩
  | succ n ih =>
    obtain ⟨events, s₁, hrun₁, hidle⟩ := ih (by omega)
    obtain ⟨s₂, hpost, hinv, hstate, hlen, hdone, hgs⟩ := hidle.post (by omega)
    have htail : s₂.qp.rq.tail = n := by
      rw [hinv.receiving.tracks.tail_eq, hdone, Nat.mod_eq_of_lt (by omega)]
    obtain ⟨s₃, hpoll, hinv₃, -, -, hreceived₃, hstate₃, hsizes₃, hdone₃, -⟩ :=
      (pollReceive_yields hinv).exists_ok fun _ he ↦ he.2 fun _ _ ↦ by rw [htail]; exact hn
    refine ⟨_, s₃, foldlM_concat (foldlM_concat hrun₁ hpost) hpoll,
      hinv₃, hstate₃.trans hstate, hreceived₃ ▸ hlen, ?_, hsizes₃ ▸ hgs⟩
    rw [hdone₃, hdone, hlen, Nat.min_self]

private theorem exists_received : ∃ (qp : QueuePair) (events : List Event)
    (s : System), qp.Created ∧
    events.foldlM (step .panics) (init qp) = .ok s ∧ Invariant (· ≤ ·) .panics s ∧
    s.received.length = 2 ^ 32 ∧ s.receiveDone = 2 ^ 32 - 1 := by
  obtain ⟨qp, hqp, s₀, hrun₀, hstate, hlen, hdone, hgs⟩ : ∃ qp, qp.Created ∧
      ∃ s, Sample.bringUp.foldlM (step .panics) (init qp) = .ok s ∧ s.qp.state = .readyToSend ∧
        s.received.length = 0 ∧ s.receiveDone = 0 ∧ 1 ≤ s.qp.rq.maxGs :=
    QueuePair.Sample.exists_created (by decide +kernel)
  obtain ⟨events, s₁, hrun₁, hidle⟩ := exists_idle (n := 2 ^ 32 - 1) hrun₀
    ⟨invariant_run hqp hrun₀, hstate, hlen, hdone, hgs⟩ (by decide)
  obtain ⟨s₂, hpost, hinv, -, hlen₂, hdone₂, -⟩ := hidle.post (by decide)
  exact ⟨qp, _, s₂, hqp, foldlM_concat hrun₁ hpost, hinv, hlen₂, hdone₂⟩

/-- With overflow checks the completion of receive `2 ^ 32` panics. -/
theorem receive_tail_overflows : ∃ (qp : QueuePair) (events : List Event) (s : System), qp.Created ∧
    events.foldlM (step .panics) (init qp) = .ok s ∧ s.received.length = 2 ^ 32 ∧
    s.receiveDone = 2 ^ 32 - 1 ∧ step .panics s .pollReceive = .error .overflow := by
  obtain ⟨qp, events, s, hqp, hrun, hinv, hlen, hdone⟩ := exists_received
  have htail : s.qp.rq.tail = 2 ^ 32 - 1 := by
    rw [hinv.receiving.tracks.tail_eq, hdone, Nat.mod_eq_of_lt (by decide)]
  refine ⟨qp, events, s, hqp, hrun, hlen, hdone, ?_⟩
  cases hpoll : step .panics s .pollReceive with
  | ok s₃ =>
    have hfits := ((pollReceive_yields hinv).of_ok hpoll).2.2.2.2.2.2.2
    exact absurd (hfits (by omega) rfl) (by omega)
  | error e => rw [((pollReceive_yields hinv).of_error hpoll).1]

end

end System

end D3OS.Ibverbs
